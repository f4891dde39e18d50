import LiveProperty.Proofs.Machine.Contexts
import LiveProperty.Proofs.Machine.Generations

/-!
# Fetches

A read that finds a cache empty begins a fetch, and the fetch ends when its
last task settles the cache.  What runs in between is above what waited
below the read.  A cache therefore holds what a fetch got that began when
the cache was last invalidated, or later.
-/

namespace LiveProperty

/-- The cache that a task reads. -/
def Task.reads? : Task → Option CacheHolder
  | .readCache c .. => some (.client c)
  | .readKey b => some (.bridge (.key b))
  | .readQuery q => some (.bridge (.query q))
  | _ => none

/-- The task that ends a fetch, for the read that began it and the worlds in
which it began and is to end. -/
inductive EndsFetch (w w' : World) : Task → Task → Prop
  | cache (c : Ref .cache) (outcome : Except Json Json)
      (during : List Command) (mayFail : Bool) :
      EndsFetch w w' (.readCache c outcome during mayFail)
        (.settleCache c (w.caches.get c).generation outcome mayFail)
  /-- What the store held is taken when the fetch begins. -/
  | key (b : Ref .keyBridge) :
      EndsFetch w w' (.readKey b)
        (.settleKey b (w.keyBridges.get b).cache.generation
          (w.storedValue (w.keyBridges.get b).store (w.keyBridges.get b).key))
  /-- The rows of the context are taken when the fetch begins.  If it does not
  fail, the context does not fail any more. -/
  | query (q : Ref .queryBridge) (c : Ref .context)
      (outcome : Except BridgeError (List Record))
      (resolved : w.resolvedContext q = some c)
      (taken : ∀ records, outcome = .ok records →
        records = (w.memory c).records (w.queryBridges.get q).entity ∧
          (w'.contexts.get c).Answers) :
      EndsFetch w w' (.readQuery q)
        (.settleQuery q (w.queryBridges.get q).cache.generation outcome)
  | missing (q : Ref .queryBridge) (resolved : w.resolvedContext q = none) :
      EndsFetch w w' (.readQuery q)
        (.settleQuery q (w.queryBridges.get q).cache.generation
          (.error (.missingContext (w.queryBridges.get q).entity)))

namespace Machine

variable {m : Machine} {holder : CacheHolder}

/-- The read at one step of a run finds a cache empty, and what waited below
it still waits at a later one. -/
structure Fetching (m : Machine) (holder : CacheHolder) (i j : ℕ)
    (read : Task) (below : List Task) : Prop where
  le : i ≤ j
  began : (run i m).todo = read :: below
  reads : read.reads? = some holder
  empty : ((run i m).world.cell holder).value = none
  above : m.Above below i j

/-- A fetch that began at one step of a run is at its end at another, and
got what is there as a reply. -/
structure Fetched (m : Machine) (holder : CacheHolder) (i j : ℕ)
    (read settle : Task) (below : List Task) (r : Reply) : Prop
    extends m.Fetching holder i j read below where
  lt : i < j
  ends : EndsFetch (run i m).world (run j m).world read settle
  ended : ∃ after, (run j m).todo = settle :: (after ++ below)
  settling : (run j m).world.settling? settle =
    some (holder, ((run i m).world.cell holder).generation, r)

/-- What is fetched for was made. -/
theorem Fetching.has {i j : ℕ} {read : Task} {below : List Task}
    (h : m.Fetching holder i j read below) (sound : m.Sound) :
    (run i m).world.Has holder.object := by
  apply (sound.after i).has_of_head h.began
  have hreads := h.reads
  cases read with
  | readCache | readKey | readQuery =>
    obtain rfl := Option.some.inj hreads
    exact List.mem_cons_self
  | _ => cases hreads

/-- While a cache is fetched for, it is invalidated fewer than 2^64 times. -/
def Few (m : Machine) (holder : CacheHolder) : Prop :=
  ∀ i j read below, m.Fetching holder i j read below →
    (run j m).world.invalidations holder <
      (run i m).world.invalidations holder + 2 ^ 64

/-- A run that comes to an end after few invalidations has few during a
fetch. -/
theorem few_of_halted (sound : m.Sound) (n : ℕ)
    (halted : (run n m).todo.isEmpty)
    (small : (run n m).world.invalidations holder < 2 ^ 64) :
    m.Few holder := by
  intro i j read below h
  have hle : (run j m).world.invalidations holder ≤
      (run n m).world.invalidations holder := by
    rcases Nat.le_total j n with hjn | hnj
    · exact sound.invalidations_le hjn (has_run h.le (h.has sound))
    · rw [run_of_halted halted hnj]
  omega

/-! ## From the end of a fetch to its beginning -/

/-- A query bridge whose cache is empty asks its context. -/
theorem step_readQuery {q : Ref .queryBridge} {c : Ref .context}
    {rest : List Task} (h : m.todo = .readQuery q :: rest)
    (empty : (m.world.queryBridges.get q).cache.value = none)
    (resolved : m.world.resolvedContext q = some c) :
    m.step = ⟨m.world.tell (.cacheMissed (.bridge (.query q))),
      .askRecords c (m.world.queryBridges.get q).entity
        (.bridge q (m.world.queryBridges.get q).cache.generation) :: rest,
      m.reply⟩ := by
  rw [step_of_todo_cons h]
  simp only [doTask, readQuery, empty, resolved]
  rfl

/-- A task that receives rows for a query bridge goes on with a fetch that
its read began. -/
theorem fetching_of_receive {commands : List Command} {j : ℕ}
    {c : Ref .context} {records : List Record} {q : Ref .queryBridge}
    {began : UInt64} {rest : List Task}
    (h : (run j (ofCommands commands)).todo =
      .receive c records (.bridge q began) :: rest) :
    ∃ i < j, ∃ below after, rest = after ++ below ∧
      (ofCommands commands).Fetching (.bridge (.query q)) i j (.readQuery q)
        below ∧
      (run i (ofCommands commands)).world.resolvedContext q = some c ∧
      records = ((run i (ofCommands commands)).world.memory c).records
        ((run i (ofCommands commands)).world.queryBridges.get q).entity ∧
      began = ((run i (ofCommands commands)).world.queryBridges.get
        q).cache.generation := by
  obtain ⟨i, hij, parent, below, after, hparent, hfollows, rfl, hwait⟩ :=
    exists_parent_of_commands (by simp) h
  cases hfollows with
  | begun _ _ left => cases left
  | receive _ entity _ =>
    obtain ⟨i', hi, grandparent, base, between, hbegan, hask, rfl, hwait'⟩ :=
      exists_parent_of_commands (by simp) hparent
    cases hask with
    | begun _ _ left => cases left
    | askRecords _ _ empty resolved =>
      have hstep := step_readQuery hbegan empty resolved
      rw [← run_succ] at hstep
      obtain ⟨hbase, rfl⟩ := eq_succ_of_alone hi rfl (by rw [hstep])
        (fun m hself => by cases hself) hwait'
      refine ⟨i', by omega, base, after ++ between, by simp, ⟨by omega, hbegan,
        rfl, congrArg (Option.map _) empty, ?_⟩, resolved, ?_, rfl⟩
      · exact (above_of_suffix rfl hwait').trans (above_of_suffix rfl hwait)
      · rw [hstep]
        rfl

/-- A task that settles a cache ends a fetch that began earlier. -/
theorem fetched_of_settles {commands : List Command} {j : ℕ}
    {began : UInt64} {r : Reply}
    (h : (run j (ofCommands commands)).Settles holder began r) :
    ∃ i read settle below,
      (ofCommands commands).Fetched holder i j read settle below r ∧
      began = ((run i (ofCommands commands)).world.cell holder).generation := by
  obtain ⟨t, rest, htodo, hsettling⟩ := h
  cases t with
  | settleCache c began' outcome mayFail =>
    obtain ⟨i, hij, parent, below, after, hparent, hfollows, rfl, hwait⟩ :=
      exists_parent_of_commands (by simp) htodo
    cases outcome with
    | error e => cases hsettling
    | ok value =>
      obtain ⟨⟩ := Option.some.inj hsettling
      cases hfollows with
      | begun _ _ left => cases left
      | settleCache _ _ during _ empty =>
        refine ⟨i, _, _, below, ⟨⟨Nat.le_of_lt hij, hparent, rfl, ?_,
          above_of_suffix rfl hwait⟩, hij,
          .cache c (.ok value) during mayFail, ⟨after, htodo⟩, rfl⟩, rfl⟩
        exact congrArg (Option.map Reply.json) empty
  | settleKey b began' stored =>
    obtain ⟨i, hij, parent, below, after, hparent, hfollows, rfl, hwait⟩ :=
      exists_parent_of_commands (by simp) htodo
    obtain ⟨⟩ := Option.some.inj hsettling
    cases hfollows with
    | begun _ _ left => cases left
    | settleKey _ empty =>
      refine ⟨i, _, _, below, ⟨⟨Nat.le_of_lt hij, hparent, rfl, ?_,
        above_of_suffix rfl hwait⟩, hij, .key b, ⟨after, htodo⟩, rfl⟩, rfl⟩
      exact congrArg (Option.map _) empty
  | settleQuery q began' outcome =>
    cases hrows : ((run j (ofCommands commands)).world.queryBridges.get
        q).rowsOf outcome with
    | error e =>
      simp only [World.settling?, hrows] at hsettling
      cases hsettling
    | ok rows =>
      simp only [World.settling?, hrows] at hsettling
      obtain ⟨⟩ := Option.some.inj hsettling
      obtain ⟨i, hij, parent, below, after, hparent, hfollows, rfl, hwait⟩ :=
        exists_parent_of_commands (by simp) htodo
      cases hfollows with
      | begun _ _ left => cases left
      | settleMissing => cases hrows
      | settleQuery c records =>
        obtain ⟨i', hi, base, between, rfl, hfetching, hresolved, hrecords,
          rfl⟩ := fetching_of_receive hparent
        have hhas : (run i (ofCommands commands)).world.Has (.context c) :=
          (sound_run commands i).has_of_head hparent List.mem_cons_self
        refine ⟨i', _, _, base, ⟨⟨by omega, hfetching.began, rfl, hfetching.empty,
          hfetching.above.trans (above_of_suffix rfl hwait)⟩,
          by omega, .query q c _ hresolved ?_,
          ⟨after ++ between, by rw [htodo, List.append_assoc]⟩, ?_⟩, rfl⟩
        · intro rows hok
          obtain ⟨hanswers, hrows⟩ := Context.answers_of_outcome hok
          exact ⟨hrows.trans hrecords,
            answers_run (Nat.le_of_lt hij) hhas hanswers⟩
        · simp only [World.settling?, hrows]
          rfl
  | _ => cases hsettling

/-! ## What a cache holds -/

/-- A cache that holds a value got it from a fetch that began after its last
invalidation. -/
theorem cached_run {commands : List Command}
    (few : (ofCommands commands).Few holder) {n : ℕ} {r : Reply}
    (has : (run n (ofCommands commands)).world.Has holder.object)
    (hr : ((run n (ofCommands commands)).world.cell holder).value = some r) :
    ∃ i j read settle below, j < n ∧
      (ofCommands commands).Fetched holder i j read settle below r ∧
      (run n (ofCommands commands)).world.invalidations holder =
        (run i (ofCommands commands)).world.invalidations holder := by
  have hsound := sound_ofCommands commands
  induction n with
  | zero => rcases holder with c | (b | q) <;> exact absurd has (Nat.not_lt_zero _)
  | succ n ih =>
    rw [run_succ] at has hr ⊢
    by_cases hold : (run n (ofCommands commands)).world.Has holder.object
    · rcases (hsound.after n).cell_step hold with hpasses | ⟨began, r', hsettles,
        hcount, hcell⟩
      · obtain ⟨hbefore, hcount⟩ := hpasses.value hr
        obtain ⟨i, j, read, settle, below, hjn, hfetched, heq⟩ := ih hold hbefore
        exact ⟨i, j, read, settle, below, by omega, hfetched, hcount.trans heq⟩
      · rw [hcell] at hr
        rw [hcount]
        by_cases hgen : ((run n (ofCommands commands)).world.cell
            holder).generation = began
        · rw [Cache.settle_of_eq hgen] at hr
          obtain rfl := Option.some.inj hr
          obtain ⟨i, read, settle, below, hfetched, rfl⟩ :=
            fetched_of_settles hsettles
          exact ⟨i, n, read, settle, below, Nat.lt_succ_self n, hfetched,
            hsound.invalidations_eq hfetched.le
              (hfetched.has hsound) (few i n read below hfetched.toFetching)
              hgen⟩
        · rw [Cache.settle_of_ne hgen] at hr
          obtain ⟨i, j, read, settle, below, hjn, hfetched, heq⟩ := ih hold hr
          exact ⟨i, j, read, settle, below, by omega, hfetched, heq⟩
    · rw [(hsound.after n).cell_new hold has] at hr
      cases hr

end Machine
end LiveProperty
