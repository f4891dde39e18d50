import LiveProperty.Proofs.AppliedChanges
import LiveProperty.Proofs.Machine.OwnContexts
import LiveProperty.Proofs.QueryReads
import LiveProperty.Proofs.Saves

/-!
# Query bridges and their contexts

A query bridge asks its own context, and as long as it has none the default
one.  It asks whichever it has when a fetch begins, so a fetch that is under way
may bring rows of a context that the bridge has left meanwhile.  Whenever the
bridge gets another context it is invalidated, and what was fetched before is
not answered after that, even if the fetch ends later.
-/

namespace LiveProperty
namespace Machine

variable {m : Machine} {q : Ref .queryBridge} {c : Ref .context}
  {commands : List Command}

/-! ## Fetches and answers -/

/-- A fetch of a query bridge begins at one step, when the cache is empty, and
ends at another with an outcome, which is that of the context that the bridge
asks when the fetch begins. -/
structure FetchesFor (m : Machine) (q : Ref .queryBridge) (i e : ℕ)
    (outcome : Except BridgeError (List Record)) (below : List Task) : Prop
    extends m.Fetching (.bridge (.query q)) i e (.readQuery q) below where
  lt : i < e
  ends : EndsFetch (run i m).world (run e m).world (.readQuery q)
    (.settleQuery q ((run i m).world.queryBridges.get q).cache.generation
      outcome)
  ended : ∃ after, (run e m).todo =
    .settleQuery q ((run i m).world.queryBridges.get q).cache.generation
      outcome :: (after ++ below)

/-- A read of a query bridge that begins at one step and returns after another
answers what a fetch got: its own fetch, or one that ended before and whose
rows were cached and not invalidated since it began. -/
structure AnswersFetch (m : Machine) (q : Ref .queryBridge) (k j i e : ℕ)
    (outcome : Except BridgeError (List Record)) (below : List Task) :
    Prop where
  reads : (run k m).todo = .readQuery q :: below
  le : k ≤ j
  above : m.Above below k j
  returns : (run (j + 1) m).todo = below
  fetches : ∃ behind, m.FetchesFor q i e outcome behind
  source : i = k ∨ e < k ∧
    ((run k m).world.queryBridges.get q).cache.value =
      (((run i m).world.queryBridges.get q).rowsOf outcome).toOption
  current : (run k m).world.invalidations (.bridge (.query q)) =
    (run i m).world.invalidations (.bridge (.query q))
  answers : (run (j + 1) m).reply =
    .rows ((((run i m).world.queryBridges.get q).rowsOf outcome).toOption.getD
      [])

/-- A read that finds the cache empty answers what its own fetch gets. -/
theorem exists_answersFetch_of_empty {k : ℕ} {below : List Task}
    (reads : (run k (ofCommands commands)).todo = .readQuery q :: below)
    (empty : ((run k (ofCommands commands)).world.queryBridges.get
      q).cache.value = none) :
    ∃ j e outcome,
      (ofCommands commands).AnswersFetch q k j k e outcome below := by
  have hsound := sound_ofCommands commands
  have hhas : (run k (ofCommands commands)).world.Has (.queryBridge q) :=
    (hsound.after k).has_of_head reads List.mem_cons_self
  have hrows {l : ℕ} (hl : k ≤ l) :=
    (QueryBridge.eq_of_core_eq (queryBridge_core_run hl hhas)).2
  have hcell : ((run k (ofCommands commands)).world.cell
      (.bridge (.query q))).value = none := congrArg (Option.map _) empty
  cases hresolved : (run k (ofCommands commands)).world.resolvedContext q with
  | none =>
    have hstep := step_readQuery_of_missing reads empty hresolved
    rw [← run_succ] at hstep
    obtain ⟨hreturns, hreply⟩ := step_settleQuery hstep
    rw [← run_succ] at hreturns hreply
    have habove : (ofCommands commands).Above below k (k + 1) :=
      (above_self _ below k).succ (x := []) hstep
    refine ⟨k + 1, k + 1, _, reads, Nat.le_succ k, habove, hreturns,
      ⟨below, ⟨⟨Nat.le_succ k, reads, rfl, hcell, habove⟩, Nat.lt_succ_self k,
        .missing q hresolved, ⟨[], hstep⟩⟩⟩, Or.inl rfl, rfl, ?_⟩
    rw [hreply, hrows (Nat.le_succ k)]
  | some c =>
    obtain ⟨r, hasks⟩ := exists_asksContext reads empty hresolved
    have hkr := hasks.lt
    have hcontext : (run r (ofCommands commands)).world.Has (.context c) :=
      (hsound.after r).has_of_head hasks.receives List.mem_cons_self
    refine ⟨r + 2, r + 1, _, reads, by omega,
      hasks.above.succ (x := []) hasks.keeps, hasks.returns,
      ⟨below, ⟨⟨by omega, reads, rfl, hcell, hasks.above⟩, by omega,
        .query q c _ hresolved ?_, ⟨[_], hasks.settles⟩⟩⟩, Or.inl rfl, rfl, ?_⟩
    · intro records hok
      obtain ⟨hanswers, hrecords⟩ := Context.answers_of_outcome hok
      exact ⟨hrecords, answers_run (Nat.le_succ r) hcontext hanswers⟩
    · rw [hasks.answers, hrows (by omega)]

/-- A read that finds rows in the cache answers what a fetch got that began
after the last invalidation. -/
theorem exists_answersFetch_of_cached
    (few : (ofCommands commands).Few (.bridge (.query q))) {k : ℕ}
    {rows : List Json} {below : List Task}
    (reads : (run k (ofCommands commands)).todo = .readQuery q :: below)
    (held : ((run k (ofCommands commands)).world.queryBridges.get
      q).cache.value = some rows) :
    ∃ i e outcome,
      (ofCommands commands).AnswersFetch q k k i e outcome below := by
  have hsound := sound_ofCommands commands
  have hhas : (run k (ofCommands commands)).world.Has (.queryBridge q) :=
    (hsound.after k).has_of_head reads List.mem_cons_self
  have hr : ((run k (ofCommands commands)).world.cell
      (.bridge (.query q))).value = some (.rows rows) :=
    congrArg (Option.map Reply.rows) held
  obtain ⟨i, e, read, settle, behind, hek, hfetched, hcount⟩ :=
    cached_run few hhas hr
  have hstep := step_readQuery_of_some reads held
  rw [← run_succ] at hstep
  have hold : (run i (ofCommands commands)).world.Has (.queryBridge q) :=
    hfetched.has hsound
  obtain ⟨-, hrows⟩ :=
    QueryBridge.eq_of_core_eq (queryBridge_core_run hfetched.le hold)
  obtain ⟨c, records, -, -, -, rfl, rfl, hgot⟩ := hfetched.of_query
  rw [hrows] at hgot
  refine ⟨i, e, .ok records, reads, Nat.le_refl k, above_self _ below k,
    by rw [hstep], ⟨behind, ⟨hfetched.toFetching, hfetched.lt, hfetched.ends,
      hfetched.ended⟩⟩, Or.inr ⟨hek, by rw [held, hgot]; rfl⟩, hcount, ?_⟩
  rw [hstep, hgot]
  rfl

/-- Every read of a query bridge answers what a fetch got. -/
theorem exists_answersFetch
    (few : (ofCommands commands).Few (.bridge (.query q))) {k : ℕ}
    {below : List Task}
    (reads : (run k (ofCommands commands)).todo = .readQuery q :: below) :
    ∃ j i e outcome,
      (ofCommands commands).AnswersFetch q k j i e outcome below := by
  cases hvalue : ((run k (ofCommands commands)).world.queryBridges.get
      q).cache.value with
  | none =>
    obtain ⟨j, e, outcome, hanswers⟩ := exists_answersFetch_of_empty reads hvalue
    exact ⟨j, k, e, outcome, hanswers⟩
  | some rows =>
    obtain ⟨i, e, outcome, hanswers⟩ :=
      exists_answersFetch_of_cached few reads hvalue
    exact ⟨k, i, e, outcome, hanswers⟩

/-! ## Fetches before a change of the context -/

theorem invalidations_of_applies {b : Bridge} {below : List Task} {a : Course}
    (h : m.Applies b below a) :
    (run (a.cleared + 1) m).world.invalidations (.bridge b) =
      (run a.cleared m).world.invalidations (.bridge b) + 1 := by
  have hjournal : (run (a.cleared + 1) m).world.journal =
      .cacheInvalidated (.bridge b) :: (run a.cleared m).world.journal := by
    rw [h.clears]
    cases b <;> rfl
  rw [World.invalidations, hjournal, List.countP_cons]
  simp [World.invalidations, Happening.invalidates]

/-- An invalidation that runs between two steps is counted there. -/
theorem invalidations_lt_of_applies {b : Bridge} {below : List Task}
    {a : Course} {i j : ℕ}
    (applies : (ofCommands commands).Applies b below a)
    (has : (run i (ofCommands commands)).world.Has (CacheHolder.bridge b).object)
    (began : i ≤ a.cleared) (ended : a.cleared < j) :
    (run i (ofCommands commands)).world.invalidations (.bridge b) <
      (run j (ofCommands commands)).world.invalidations (.bridge b) := by
  have hsound := sound_ofCommands commands
  have hbefore := hsound.invalidations_le began has
  have hafter := hsound.invalidations_le (Nat.succ_le_of_lt ended)
    (has_run (Nat.le_succ_of_le began) has)
  have hcount := invalidations_of_applies applies
  simp only [Nat.succ_eq_add_one] at hafter
  omega

/-- What is answered after an invalidation was fetched after it. -/
theorem AnswersFetch.lt {k j i e : ℕ}
    {outcome : Except BridgeError (List Record)} {below behind : List Task}
    {a : Course}
    (h : (ofCommands commands).AnswersFetch q k j i e outcome below)
    (applies : (ofCommands commands).Applies (.query q) behind a)
    (lt : a.cleared < k) : a.cleared < i := by
  obtain ⟨_, hfetches⟩ := h.fetches
  have hhas : (run i (ofCommands commands)).world.Has
      (CacheHolder.bridge (.query q)).object :=
    hfetches.has (sound_ofCommands commands)
  by_contra hle
  have hcount := invalidations_lt_of_applies applies hhas
    (Nat.le_of_not_lt hle) lt
  exact absurd h.current (Nat.ne_of_gt hcount)

theorem step_settleQuery_of_ne {began : UInt64}
    {outcome : Except BridgeError (List Record)} {rest : List Task}
    (h : m.todo = .settleQuery q began outcome :: rest)
    (ne : (m.world.queryBridges.get q).cache.generation ≠ began) :
    (m.step.world.queryBridges.get q).cache =
      (m.world.queryBridges.get q).cache := by
  rw [step_of_todo_cons h]
  simp only [doTask, settleQuery]
  cases hrows : (m.world.queryBridges.get q).rowsOf outcome with
  | ok rows =>
    have hset := Pool.get_set_self m.world.queryBridges q
      ((m.world.queryBridges.get q).settle began rows)
    refine (congrArg QueryBridge.cache hset).trans ?_
    exact Cache.settle_of_ne ne rows
  | error e =>
    cases e with
    | missingContext entity =>
      simp only [missContext]
      split
      · rfl
      · have hset := Pool.get_set_self m.world.queryBridges q
          (m.world.queryBridges.get q).warn
        exact (congrArg QueryBridge.cache hset).trans rfl
    | _ => rfl

/-- What was being fetched when the cache was cleared is not cached when the
fetch ends. -/
theorem FetchesFor.discards
    (few : (ofCommands commands).Few (.bridge (.query q))) {i e : ℕ}
    {outcome : Except BridgeError (List Record)} {below behind : List Task}
    {a : Course}
    (h : (ofCommands commands).FetchesFor q i e outcome below)
    (applies : (ofCommands commands).Applies (.query q) behind a)
    (began : i ≤ a.cleared) (ended : a.cleared < e) :
    ((run (e + 1) (ofCommands commands)).world.queryBridges.get q).cache =
      ((run e (ofCommands commands)).world.queryBridges.get q).cache := by
  have hsound := sound_ofCommands commands
  have hhas : (run i (ofCommands commands)).world.Has
      (CacheHolder.bridge (.query q)).object := h.has hsound
  obtain ⟨after, hended⟩ := h.ended
  rw [run_succ]
  refine step_settleQuery_of_ne hended fun hgeneration => ?_
  have hsame := hsound.invalidations_eq h.le hhas
    (few i e _ below h.toFetching) hgeneration
  have hcount := invalidations_lt_of_applies applies hhas began ended
  exact absurd hsame (Nat.ne_of_gt hcount)

/-! ## The context along a run -/

/-- A query bridge is made with a context of its own or without one, and has
one from then on when it is given one: by a client that binds it, or by the
first save which it hears of that names a living context.  A fetch asks the
own context, if there is one when it begins, and else the default one. -/
structure KeepsContext (m : Machine) (q : Ref .queryBridge) : Prop where
  built : ∀ n, ¬ (run n m).world.Has (.queryBridge q) →
    (run (n + 1) m).world.Has (.queryBridge q) →
    (run n m).Builds q ((run (n + 1) m).ownContext q)
  bound : ∀ n c, (run n m).Rebinds q c → (run (n + 1) m).ownContext q = some c
  /-- A bridge without a context takes the one that it is offered, and no
  other. -/
  told : ∀ n change c, (run n m).IsTold q change →
    (run n m).ownContext q = none →
    ((run (n + 1) m).ownContext q = some c ↔ (run n m).Offers q change c)
  /-- A bridge with a context keeps it, whatever it is told, until a client
  binds it. -/
  keeps : ∀ n c, (run n m).world.Has (.queryBridge q) →
    (∀ c, ¬ (run n m).Rebinds q c) → (run n m).ownContext q = some c →
    (run (n + 1) m).ownContext q = some c
  /-- A bridge without a context goes on without one if it is not offered
  any. -/
  lacks : ∀ n, (run n m).world.Has (.queryBridge q) →
    (∀ c, ¬ (run n m).Rebinds q c) →
    (∀ change c, (run n m).IsTold q change → ¬ (run n m).Offers q change c) →
    (run n m).ownContext q = none → (run (n + 1) m).ownContext q = none
  stays : ∀ i j, i ≤ j → (run i m).world.Has (.queryBridge q) →
    (run i m).ownContext q ≠ none → (run j m).ownContext q ≠ none
  /-- So only the first one that it is offered is taken. -/
  first : ∀ i j change c, i < j → (run i m).IsTold q change →
    (run i m).Offers q change c → (run j m).ownContext q ≠ none
  /-- The save of a context names its origin if the context was made to do so,
  and else it names none. -/
  saves : ∀ n label name nested rest c,
    (run n m).todo =
      .perform (.mk label (.context (.saveContext name))) nested :: rest →
    (run n m).world.context? name = some c →
    (run n m).world.unsaved c ≠ [] →
    ∃ audience changes origin below,
      (run (n + 1) m).todo =
        .deliver audience (.change (.saved changes origin)) :: below ∧
      ∀ d, origin = some d ↔ d = c ∧ ∃ k < n, (run k m).SharesContext c
  called : ∀ n label name nested rest,
    (run n m).todo =
      .perform (.mk label (.query (.results name))) nested :: rest →
    (run n m).world.queryBridge? name = some q →
    ∃ k, m.Waits (.readQuery q) (.finish label [.queryBridge q] nested :: rest)
      n k
  asks : ∀ k c rest, (run k m).todo = .readQuery q :: rest →
    ((run k m).world.queryBridges.get q).cache.value = none →
    ((run k m).ownContext q).or (run k m).world.defaultContext = some c →
    (run (k + 1) m).todo =
      .askRecords c ((run k m).world.queryBridges.get q).entity
        (.bridge q ((run k m).world.queryBridges.get q).cache.generation) ::
          rest
  /-- No other context is asked. -/
  asked : ∀ n c entity began rest,
    (run n m).todo = .askRecords c entity (.bridge q began) :: rest →
    ∃ k, n = k + 1 ∧ (run k m).todo = .readQuery q :: rest ∧
      ((run k m).world.queryBridges.get q).cache.value = none ∧
      ((run k m).ownContext q).or (run k m).world.defaultContext = some c

/-- When a query bridge is given a context, it is invalidated next.  Once its
cache is cleared, no call for its results answers what was fetched before, and
what was being fetched then is not cached. -/
structure ForgetsFetches (m : Machine) (q : Ref .queryBridge) : Prop where
  applies : ∀ s, (run s m).world.Has (.queryBridge q) →
    (∃ c, (run s m).Rebinds q c) ∨
      (run (s + 1) m).ownContext q ≠ (run s m).ownContext q →
    ∃ below a, a.start = s + 1 ∧ m.Applies (.query q) below a
  answers : ∀ n label name nested rest,
    (run n m).todo =
      .perform (.mk label (.query (.results name))) nested :: rest →
    (run n m).world.queryBridge? name = some q →
    ∃ k j i e outcome, n < k ∧
      m.AnswersFetch q k j i e outcome
        (.finish label [.queryBridge q] nested :: rest) ∧
      ∀ below a, m.Applies (.query q) below a → a.cleared < n → a.cleared < i
  discards : ∀ below a i e outcome behind,
    m.Applies (.query q) below a →
    m.FetchesFor q i e outcome behind → i ≤ a.cleared → a.cleared < e →
    ((run (e + 1) m).world.queryBridges.get q).cache =
      ((run e m).world.queryBridges.get q).cache

section

variable {i j k n : ℕ} {change : ContextChange} {rest : List Task}

theorem IsTold.has (sound : m.Sound) (h : m.IsTold q change) :
    m.world.Has (.queryBridge q) :=
  sound.has_of_isAlive h.2

/-- A query bridge keeps its own context, but for being bound. -/
theorem ownContext_step_of_some (has : m.world.Has (.queryBridge q))
    (rebinds : ∀ c, ¬ m.Rebinds q c) (own : m.ownContext q = some c) :
    m.step.ownContext q = some c := by
  by_cases htold : ∃ change, m.IsTold q change
  · obtain ⟨change, htold⟩ := htold
    obtain ⟨hoffers, hother⟩ := ownContext_of_told htold
    by_cases h : ∃ d, m.Offers q change d
    · obtain ⟨d, h⟩ := h
      rw [hoffers d h, own, Option.some_or]
    · rw [hother fun d hd => h ⟨d, hd⟩, own]
  · rw [ownContext_of_other has rebinds fun change h => htold ⟨change, h⟩, own]

/-- A query bridge is not left without a context. -/
theorem ownContext_step_ne_none (has : m.world.Has (.queryBridge q))
    (own : m.ownContext q ≠ none) : m.step.ownContext q ≠ none := by
  by_cases hrebinds : ∃ c, m.Rebinds q c
  · obtain ⟨c, hrebinds⟩ := hrebinds
    rw [ownContext_of_rebinds hrebinds]
    exact Option.some_ne_none c
  · obtain ⟨c, hc⟩ := Option.ne_none_iff_exists'.mp own
    rw [ownContext_step_of_some has (fun c h => hrebinds ⟨c, h⟩) hc]
    exact Option.some_ne_none c

theorem ownContext_run (le : i ≤ j)
    (has : (run i m).world.Has (.queryBridge q))
    (own : (run i m).ownContext q ≠ none) : (run j m).ownContext q ≠ none := by
  induction j, le using Nat.le_induction with
  | base => exact own
  | succ j le ih =>
    rw [run_succ]
    exact ownContext_step_ne_none (has_run le has) ih

theorem ownContext_step_of_none (told : m.IsTold q change)
    (own : m.ownContext q = none) :
    m.step.ownContext q = some c ↔ m.Offers q change c := by
  obtain ⟨hoffers, hother⟩ := ownContext_of_told told
  constructor
  · intro h
    by_contra hc
    by_cases hsome : ∃ d, m.Offers q change d
    · obtain ⟨d, hd⟩ := hsome
      rw [hoffers d hd, own, Option.none_or] at h
      exact hc (Option.some.inj h ▸ hd)
    · rw [hother fun d hd => hsome ⟨d, hd⟩, own] at h
      cases h
  · intro h
    rw [hoffers c h, own, Option.none_or]

/-- Whoever asks a context for a query bridge is a read that found the cache
empty. -/
theorem exists_readQuery {entity : String} {began : UInt64}
    (asks : (run n (ofCommands commands)).todo =
      .askRecords c entity (.bridge q began) :: rest) :
    ∃ k, n = k + 1 ∧
      (run k (ofCommands commands)).todo = .readQuery q :: rest ∧
      ((run k (ofCommands commands)).world.queryBridges.get q).cache.value =
        none ∧
      (run k (ofCommands commands)).world.resolvedContext q = some c := by
  obtain ⟨k, hkn, parent, below, after, hparent, hfollows, rfl, hwait⟩ :=
    exists_parent_of_commands (by simp) asks
  cases hfollows with
  | begun _ _ left => cases left
  | askRecords _ _ empty resolved =>
    have hstep := step_readQuery hparent empty resolved
    rw [← run_succ] at hstep
    obtain ⟨hbase, rfl⟩ := eq_succ_of_alone hkn rfl (by rw [hstep])
      (fun m hself => by cases hself) hwait
    exact ⟨k, rfl, by rw [hparent, hbase], empty, resolved⟩

theorem waits_of_results {label : Json} {name : String} {nested : Bool}
    (call : (run n m).todo =
      .perform (.mk label (.query (.results name))) nested :: rest)
    (found : (run n m).world.queryBridge? name = some q) :
    ∃ k, m.Waits (.readQuery q)
      (.finish label [.queryBridge q] nested :: rest) n k := by
  obtain ⟨access, hstep⟩ := step_results call found
  rw [← run_succ] at hstep
  exact exists_waits (congrArg todo hstep)

theorem keepsContext (commands : List Command) (q : Ref .queryBridge) :
    (ofCommands commands).KeepsContext q := by
  have hsound := sound_ofCommands commands
  refine
    { built := fun n new has => ?_
      bound := fun n c h => ?_
      told := fun n change c told own => ?_
      keeps := fun n c has rebinds own => ?_
      lacks := fun n has rebinds offers own => ?_
      stays := fun i j le has own => ownContext_run le has own
      first := fun i j change c lt told offers => ?_
      saves := fun n label name nested rest c save found unsaved => ?_
      called := fun n label name nested rest call found =>
        waits_of_results call found
      asks := fun k c rest reads empty resolved => ?_
      asked := fun n c entity began rest asks => exists_readQuery asks }
  · rw [run_succ] at has ⊢
    exact ownContext_of_new new has
  · rw [run_succ]
    exact ownContext_of_rebinds h
  · rw [run_succ]
    exact ownContext_step_of_none told own
  · rw [run_succ]
    exact ownContext_step_of_some has rebinds own
  · rw [run_succ]
    by_cases htold : ∃ change, (run n (ofCommands commands)).IsTold q change
    · obtain ⟨change, htold⟩ := htold
      rw [(ownContext_of_told htold).2 fun c => offers change c htold, own]
    · rw [ownContext_of_other has rebinds fun change h => htold ⟨change, h⟩,
        own]
  · have hhas := told.has (hsound.after i)
    refine ownContext_run (Nat.succ_le_of_lt lt) ?_ ?_
    · exact has_run (Nat.le_succ i) hhas
    · rw [Nat.succ_eq_add_one, run_succ, (ownContext_of_told told).1 c offers]
      cases (run i (ofCommands commands)).ownContext q with
      | none => exact Option.some_ne_none c
      | some d => exact Option.some_ne_none d
  · obtain ⟨htodo, -⟩ := step_save_of_ne_nil save found unsaved
    rw [← run_succ, saveEvent_eq] at htodo
    refine ⟨_, _, _, _, htodo, fun d => ?_⟩
    rw [← namesItself_iff]
    split
    · next h => simp [h, eq_comm]
    · next h => simp [h]
  · rw [run_succ, step_readQuery reads empty resolved]

/-- Who is given a context is invalidated next. -/
theorem causes_of_ownContext_ne (has : m.world.Has (.queryBridge q))
    (changes : (∃ c, m.Rebinds q c) ∨ m.step.ownContext q ≠ m.ownContext q) :
    ∃ below, m.Causes (.query q) below := by
  by_cases hrebinds : ∃ c, m.Rebinds q c
  · obtain ⟨c, label, name, context, nested, rest, htodo, hq, hc⟩ := hrebinds
    exact ⟨_, .bindContext htodo hq hc⟩
  · have hne := changes.resolve_left hrebinds
    by_cases htold : ∃ change, m.IsTold q change
    · obtain ⟨change, htold⟩ := htold
      by_cases hoffers : ∃ c, m.Offers q change c
      · obtain ⟨c, hoffers⟩ := hoffers
        obtain ⟨⟨audience, rest, htodo⟩, halive⟩ := htold
        exact ⟨_, .delivery (b := .query q) htodo (offers_iff.mp hoffers).1
          halive⟩
      · have hsame := (ownContext_of_told htold).2 fun c h => hoffers ⟨c, h⟩
        exact absurd hsame hne
    · have hsame := ownContext_of_other has (fun c h => hrebinds ⟨c, h⟩)
        fun change h => htold ⟨change, h⟩
      exact absurd hsame hne

theorem forgetsFetches (commands : List Command) (q : Ref .queryBridge)
    (once : ∀ k, (run k (ofCommands commands)).once)
    (few : (ofCommands commands).Few (.bridge (.query q))) :
    (ofCommands commands).ForgetsFetches q := by
  constructor
  · intro s has changes
    rw [run_succ] at changes
    obtain ⟨below, hcauses⟩ := causes_of_ownContext_ne has changes
    have hrelay := hcauses.todo_step
    rw [← run_succ] at hrelay
    obtain ⟨a, hstart, happlies⟩ := exists_applies once hrelay
    exact ⟨below, a, hstart, happlies⟩
  · intro n label name nested rest call found
    obtain ⟨k, hwaits⟩ := waits_of_results call found
    obtain ⟨j, i, e, outcome, hanswers⟩ := exists_answersFetch few hwaits.turn
    refine ⟨k, j, i, e, outcome, hwaits.lt, hanswers, ?_⟩
    intro below a happlies hlt
    exact hanswers.lt happlies (Nat.lt_trans hlt hwaits.lt)
  · intro below a i e outcome behind happlies hfetches began ended
    exact hfetches.discards few happlies began ended

/-- Along every run of a client, a query bridge asks its own context or else
the default one, and is given its own context in no other way than it should
be.  If presenters show changes once and hooks make them once, then what it
fetched from the contexts that it has left is not answered any more. -/
theorem resolves_context (commands : List Command) (q : Ref .queryBridge) :
    (ofCommands commands).KeepsContext q ∧
      ((∀ k, (run k (ofCommands commands)).once) →
        (ofCommands commands).Few (.bridge (.query q)) →
        (ofCommands commands).ForgetsFetches q) :=
  ⟨keepsContext commands q, forgetsFetches commands q⟩

/-- A client whose default context has another one save a row while it is
asked. -/
def adoptsInFetch : List Command :=
  [.mk .null (.context (.newContext "d" .shared none)),
    .mk .null (.context (.newSupervisedContext "c" none
      [(1, [.mk .null (.context (.insertRow "d" ⟨"R", "E"⟩ .null none)),
        .mk .null (.context (.saveContext "d"))])] 0 (.history ""))),
    .mk .null (.context (.setDefaultContext "c")),
    .mk .null (.query (.newQueryBridge "q" ⟨"R", "E"⟩ [])),
    .mk .null (.query (.results "q")),
    .mk .null (.query (.results "q"))]

/-- Here the bridge adopts the other context while it asks the default one,
whose rows are answered, but are not cached. -/
theorem resolves_context_adopted_in_fetch :
    (ofCommands adoptsInFetch).KeepsContext ⟨0⟩ ∧
      (ofCommands adoptsInFetch).ForgetsFetches ⟨0⟩ := by
  obtain ⟨hkeeps, hforgets⟩ := resolves_context adoptsInFetch ⟨0⟩
  refine ⟨hkeeps, hforgets ?_ ?_⟩
  · exact forall_run_of_halted (P := fun m => m.once) 40 (by decide +kernel)
      (by decide +kernel)
  · exact few_of_halted (sound_ofCommands _) 40 (by decide +kernel)
      (by decide +kernel)

end

end Machine
end LiveProperty
