import LiveProperty.Proofs.Machine.Deliveries
import LiveProperty.Proofs.Machine.Fetches
import LiveProperty.Proofs.Machine.StoredValues
import LiveProperty.Proofs.Machine.Termination

/-!
# Reads of a key bridge

A key bridge reads a key of a store through its cache.  A write changes the
store first and tells the bridge later, so in between the cache may be out
of date; but then something is on its way to the bridge.  When nothing is, a
read answers what the store holds, as if there were no cache.
-/

namespace LiveProperty

/-- What an uncached read of a key bridge answers, given what the store holds
under its key. -/
def KeyBridge.read (b : KeyBridge) (stored : Option StoreValue) : Reply :=
  .value b.kind (b.valueOf stored)

theorem KeyBridge.eq_of_core_eq {b b' : KeyBridge} (h : b'.core = b.core) :
    b'.store = b.store ∧ b'.key = b.key ∧ b'.read = b.read := by
  have hstore := congrArg KeyBridge.store h
  have hkey := congrArg KeyBridge.key h
  have hread := congrArg KeyBridge.read h
  exact ⟨hstore, hkey, hread⟩

namespace Machine

variable {m : Machine}

/-- What the store holds under the key of a bridge. -/
def stored (m : Machine) (b : Ref .keyBridge) : Option StoreValue :=
  m.world.storedValue (m.world.keyBridges.get b).store
    (m.world.keyBridges.get b).key

/-- The next task writes the key of a bridge. -/
def WritesKeyOf (m : Machine) (b : Ref .keyBridge) : Prop :=
  m.Writes (m.world.keyBridges.get b).store (m.world.keyBridges.get b).key

theorem stored_step (sound : m.Sound) {b : Ref .keyBridge}
    (has : m.world.Has (.keyBridge b)) (unwritten : ¬ m.WritesKeyOf b) :
    m.step.stored b = m.stored b := by
  obtain ⟨hstore, hkey, -⟩ :=
    KeyBridge.eq_of_core_eq (keyBridge_core_step has)
  rw [stored, hstore, hkey]
  exact storedValue_step (sound.world.keyBridges b has) unwritten

theorem stored_run (sound : m.Sound) {b : Ref .keyBridge} {i j : ℕ}
    (le : i ≤ j) (has : (run i m).world.Has (.keyBridge b))
    (unwritten : ∀ k, i ≤ k → k < j → ¬ (run k m).WritesKeyOf b) :
    (run j m).stored b = (run i m).stored b := by
  induction le with
  | refl => rfl
  | step le ih =>
    rw [run_succ]
    exact (stored_step (sound.after _) (has_run le has)
      (unwritten _ le (Nat.lt_succ_self _))).trans
      (ih fun k hik hkj => unwritten k hik (Nat.lt_succ_of_lt hkj))

/-- A write of its key is on its way to a bridge that is attached. -/
theorem owes_of_write (sound : m.Sound) {b : Ref .keyBridge}
    (has : m.world.Has (.keyBridge b))
    (attached : m.world.Attached (.key b)) (writes : m.WritesKeyOf b) :
    m.step.Owes (.key b) := by
  obtain ⟨value, rest, htodo⟩ := writes
  have hsource := sound.world.sources b has
  have hmem : Listener.keyBridge b ∈ m.world.audience
      (m.world.stores.get (m.world.keyBridges.get b).store).changes := by
    rw [← hsource]
    exact World.mem_audience attached
  rw [step_of_todo_cons htodo]
  exact ⟨_, List.mem_cons_self, hmem, decide_eq_true rfl⟩

/-- From one moment of a run to another at which its cache was not
invalidated more often, what a bridge reads stays as it is, or something is
on its way to the bridge. -/
theorem stored_eq_or_owes {commands : List Command} {b : Ref .keyBridge}
    (obliges : ∀ k, (run k (ofCommands commands)).obliges) {i j : ℕ}
    (unique : (run j (ofCommands commands)).world.subscriptions ≤ 2 ^ 64)
    (le : i ≤ j) (has : (run i (ofCommands commands)).world.Has (.keyBridge b))
    (held : (run j (ofCommands commands)).isHeld (.keyBridge b))
    (same : (run j (ofCommands commands)).world.invalidations
        (.bridge (.key b)) =
      (run i (ofCommands commands)).world.invalidations (.bridge (.key b))) :
    (run j (ofCommands commands)).stored b =
        (run i (ofCommands commands)).stored b ∨
      (run j (ofCommands commands)).Owes (.key b) := by
  refine keeps_or_owes
    (P := fun m => m.stored b = (run i (ofCommands commands)).stored b) obliges
    unique le has held same rfl fun k hik hattached _ hstored => ?_
  have hhas := has_run hik has
  by_cases hwrites : (run k (ofCommands commands)).WritesKeyOf b
  · exact Or.inr (owes_of_write (sound_run commands k) hhas hattached hwrites)
  · left
    rw [stored_step (sound_run commands k) hhas hwrites, hstored]

/-- A cached value is what an uncached read would have answered when the
cache was last invalidated, or later. -/
theorem cached_eq_read {commands : List Command} {b : Ref .keyBridge}
    (few : (ofCommands commands).Few (.bridge (.key b))) {n : ℕ} {r : Reply}
    (has : (run n (ofCommands commands)).world.Has (.keyBridge b))
    (hr : ((run n (ofCommands commands)).world.cell (.bridge (.key b))).value =
      some r) :
    ∃ i ≤ n, (run i (ofCommands commands)).world.Has (.keyBridge b) ∧
      r = ((run n (ofCommands commands)).world.keyBridges.get b).read
        ((run i (ofCommands commands)).stored b) ∧
      (run n (ofCommands commands)).world.invalidations (.bridge (.key b)) =
        (run i (ofCommands commands)).world.invalidations
          (.bridge (.key b)) := by
  obtain ⟨i, j, read, settle, below, hjn, hfetched, hcount⟩ :=
    cached_run few has hr
  have hhas := hfetched.has (sound_ofCommands commands)
  have hij := hfetched.le
  refine ⟨i, by omega, hhas, ?_, hcount⟩
  obtain ⟨-, -, hread⟩ := KeyBridge.eq_of_core_eq
    (keyBridge_core_run (Nat.le_of_lt hjn) (has_run hij hhas))
  have hreads := hfetched.reads
  have hsettling := hfetched.settling
  cases hfetched.ends with
  | key d =>
    obtain rfl : d = b := by simpa [Task.reads?] using hreads
    rw [hread]
    exact (congrArg (fun x => x.2.2) (Option.some.inj hsettling)).symm
  | cache | query | missing => cases hreads

/-- Unless something is on its way to a bridge, its cache holds nothing but
what an uncached read would answer. -/
theorem cached_eq_read_now {commands : List Command} {b : Ref .keyBridge}
    (few : (ofCommands commands).Few (.bridge (.key b)))
    (obliges : ∀ k, (run k (ofCommands commands)).obliges) {n : ℕ} {r : Reply}
    (unique : (run n (ofCommands commands)).world.subscriptions ≤ 2 ^ 64)
    (has : (run n (ofCommands commands)).world.Has (.keyBridge b))
    (held : (run n (ofCommands commands)).isHeld (.keyBridge b))
    (calm : ¬ (run n (ofCommands commands)).Owes (.key b))
    (hr : ((run n (ofCommands commands)).world.cell (.bridge (.key b))).value =
      some r) :
    r = ((run n (ofCommands commands)).world.keyBridges.get b).read
      ((run n (ofCommands commands)).stored b) := by
  obtain ⟨i, hin, hhas, rfl, hcount⟩ := cached_eq_read few has hr
  rcases stored_eq_or_owes obliges unique hin hhas held hcount with
    hstored | howes
  · rw [hstored]
  · exact absurd howes calm

/-! ## Reads -/

section

variable {b : Ref .keyBridge} {rest : List Task}

theorem step_readKey_of_some {v : (m.world.keyBridges.get b).kind.Value}
    (h : m.todo = .readKey b :: rest)
    (held : (m.world.keyBridges.get b).cache.value = some v) :
    m.step = ⟨m.world.tell (.cacheHit (.bridge (.key b))), rest,
      .value (m.world.keyBridges.get b).kind v⟩ := by
  rw [step_of_todo_cons h]
  simp only [doTask, readKey, held]
  rfl

theorem step_readKey_of_none (h : m.todo = .readKey b :: rest)
    (empty : (m.world.keyBridges.get b).cache.value = none) :
    m.step.todo =
      readTasks m.world (m.world.keyBridges.get b).store ++
        .settleKey b (m.world.keyBridges.get b).cache.generation
          (m.stored b) :: rest := by
  rw [step_of_todo_cons h]
  simp only [doTask, readKey, empty]
  simp [push, stored]

theorem step_settleKey {began : UInt64} {stored : Option StoreValue}
    (h : m.todo = .settleKey b began stored :: rest) :
    m.step.todo = rest ∧
      m.step.reply = (m.world.keyBridges.get b).read stored := by
  rw [step_of_todo_cons h]
  simp only [doTask, settleKey, reportFault]
  split <;> exact ⟨rfl, rfl⟩

theorem step_getKey {label : Json} {name : String} {nested : Bool}
    (h : m.todo = .perform (.mk label (.store (.getKey name))) nested :: rest)
    (found : m.world.keyBridge? name = some b) :
    ∃ access, m.step = { m with
      todo := access ++
        .readKey b :: .finish label [.keyBridge b] nested :: rest } := by
  have hbegin : begin { m with todo := rest } (.store (.getKey name)) =
      .ok ⟨{ m with todo := rest }, [.keyBridge b],
        accessTasks { m with todo := rest } (.key b) ++ [.readKey b]⟩ := by
    simp only [begin, beginStore, found, needed]
    rfl
  rw [step_of_todo_cons h]
  refine ⟨accessTasks { m with todo := rest } (.key b), ?_⟩
  simp [doTask, perform, Command.action, Command.label, hbegin, push]

/-- A call of the getter of a key bridge: it begins at one step of a run,
reads at another when the owner of the property has been told, and returns
after a third. -/
structure Gets (m : Machine) (b : Ref .keyBridge) (n k j : ℕ)
    (below : List Task) : Prop where
  lt : n < k
  le : k ≤ j
  above : m.Above below n j
  reads : (run k m).todo = .readKey b :: below
  returns : (run (j + 1) m).todo = below
  /-- The getter answers what an uncached read would answer. -/
  answers : (run (j + 1) m).reply =
    ((run n m).world.keyBridges.get b).read ((run k m).stored b)
  /-- This is what was there at the call unless the key was written before
  the read. -/
  unwritten : (∀ l, n ≤ l → l < k → ¬ (run l m).WritesKeyOf b) →
    (run k m).stored b = (run n m).stored b

/-- What a read of a key bridge answers: what is cached, or else what an
uncached read would answer. -/
def reading (m : Machine) (b : Ref .keyBridge) : Reply :=
  (m.world.cell (.bridge (.key b))).value.getD
    ((m.world.keyBridges.get b).read (m.stored b))

theorem reading_eq_read
    (cached : ∀ r, (m.world.cell (.bridge (.key b))).value = some r →
      r = (m.world.keyBridges.get b).read (m.stored b)) :
    m.reading b = (m.world.keyBridges.get b).read (m.stored b) := by
  rw [reading]
  cases hvalue : (m.world.cell (.bridge (.key b))).value with
  | none => rfl
  | some r => exact cached r hvalue

/-- Every read returns. -/
theorem read_ends (sound : m.Sound) {k : ℕ}
    (reads : (run k m).todo = .readKey b :: rest) :
    ∃ j, k ≤ j ∧ m.Above rest k j ∧ (run (j + 1) m).todo = rest ∧
      (run (j + 1) m).reply = (run k m).reading b := by
  have hhas : (run k m).world.Has (.keyBridge b) :=
    (sound.after k).has_of_head reads List.mem_cons_self
  cases hvalue : ((run k m).world.keyBridges.get b).cache.value with
  | some v =>
    have hcell : ((run k m).world.cell (.bridge (.key b))).value = some
        (.value _ v) := congrArg (Option.map _) hvalue
    have hstep := step_readKey_of_some reads hvalue
    rw [← run_succ] at hstep
    refine ⟨k, Nat.le_refl k, fun l hkl hlk => by omega, by rw [hstep], ?_⟩
    rw [hstep, reading, hcell]
    rfl
  | none =>
    have hcell : ((run k m).world.cell (.bridge (.key b))).value = none :=
      congrArg (Option.map _) hvalue
    have hstep := step_readKey_of_none reads hvalue
    rw [← run_succ] at hstep
    obtain ⟨j, hwaits⟩ := exists_waits hstep
    have hkj := Nat.le_of_lt hwaits.lt
    have hreturn := step_settleKey hwaits.turn
    rw [← run_succ] at hreturn
    refine ⟨j, hkj, hwaits.above, hreturn.1, ?_⟩
    obtain ⟨-, -, hread⟩ := KeyBridge.eq_of_core_eq
      (keyBridge_core_run hkj hhas)
    rw [hreturn.2, hread, reading, hcell]
    rfl

/-- A read of a key bridge of which nothing is on its way returns what an
uncached read would answer. -/
theorem read_returns {commands : List Command}
    (few : (ofCommands commands).Few (.bridge (.key b)))
    (obliges : ∀ k, (run k (ofCommands commands)).obliges) {k : ℕ}
    (unique : (run k (ofCommands commands)).world.subscriptions ≤ 2 ^ 64)
    (reads : (run k (ofCommands commands)).todo = .readKey b :: rest)
    (held : (run k (ofCommands commands)).isHeld (.keyBridge b))
    (calm : ¬ (run k (ofCommands commands)).Owes (.key b)) :
    ∃ j, k ≤ j ∧ (ofCommands commands).Above rest k j ∧
      (run (j + 1) (ofCommands commands)).todo = rest ∧
      (run (j + 1) (ofCommands commands)).reply =
        ((run k (ofCommands commands)).world.keyBridges.get b).read
          ((run k (ofCommands commands)).stored b) := by
  have hsound := sound_ofCommands commands
  have hhas : (run k (ofCommands commands)).world.Has (.keyBridge b) :=
    (hsound.after k).has_of_head reads List.mem_cons_self
  obtain ⟨j, hkj, habove, hreturns, hreply⟩ := read_ends hsound reads
  refine ⟨j, hkj, habove, hreturns, hreply.trans ?_⟩
  exact reading_eq_read fun r hr =>
    cached_eq_read_now few obliges unique hhas held calm hr

/-- A call of the getter returns what an uncached read would answer, unless
something is on its way to the bridge when it is called. -/
theorem gets {commands : List Command}
    (few : (ofCommands commands).Few (.bridge (.key b)))
    (obliges : ∀ k, (run k (ofCommands commands)).obliges)
    (unique : ∀ k,
      (run k (ofCommands commands)).world.subscriptions ≤ 2 ^ 64) {n : ℕ}
    {label : Json} {name : String} {nested : Bool}
    (call : (run n (ofCommands commands)).todo =
      .perform (.mk label (.store (.getKey name))) nested :: rest)
    (found : (run n (ofCommands commands)).world.keyBridge? name = some b)
    (calm : ∀ t ∈ rest, ¬ t.Owes (run n (ofCommands commands)).world (.key b)) :
    ∃ k j, (ofCommands commands).Gets b n k j
      (.finish label [.keyBridge b] nested :: rest) := by
  have hsound := sound_ofCommands commands
  have hhas : (run n (ofCommands commands)).world.Has (.keyBridge b) :=
    (hsound.after n).world.names _ (World.isNamed_of_keyBridge? found)
  obtain ⟨access, hstep⟩ := step_getKey call found
  rw [← run_succ] at hstep
  obtain ⟨k, hnk, hreads, habove, hheld, hcalm⟩ :=
    reads_of_call (b := .key b) (congrArg Machine.todo hstep) hhas
      (fun _ h => h) calm
  obtain ⟨j, hkj, habove', hreturns, hanswers⟩ :=
    read_returns few obliges (unique k) hreads hheld hcalm
  obtain ⟨-, -, hread⟩ := KeyBridge.eq_of_core_eq
    (keyBridge_core_run (Nat.le_of_lt hnk) hhas)
  have habove' : (ofCommands commands).Above
    ([] ++ .finish label [.keyBridge b] nested :: rest) k j := habove'
  refine ⟨k, j, hnk, hkj, habove.trans habove', hreads, hreturns,
    by rw [hanswers, hread], fun hunwritten => ?_⟩
  exact stored_run hsound (Nat.le_of_lt hnk) hhas hunwritten

/-! ## Repeated reads -/

theorem step_settleKey_holds {began : UInt64} {stored : Option StoreValue}
    (h : m.todo = .settleKey b began stored :: rest)
    (same : (m.world.keyBridges.get b).cache.generation = began) :
    (m.step.world.cell (.bridge (.key b))).value.isSome := by
  have hget : m.step.world.keyBridges.get b =
      (m.world.keyBridges.get b).settle began stored := by
    rw [step_of_todo_cons h]
    simp only [doTask, settleKey, reportFault]
    split <;> exact Pool.get_set_self _ _ _
  have hcell : m.step.world.cell (.bridge (.key b)) =
      (m.world.keyBridges.get b).replies.settle began
        ((m.world.keyBridges.get b).read stored) :=
    (congrArg KeyBridge.replies hget).trans (KeyBridge.replies_settle _ _ _)
  have hsame : (m.world.keyBridges.get b).replies.generation = began := same
  rw [hcell, Cache.settle_of_eq hsame]
  rfl

/-- A read that has returned leaves a value in the cache unless the cache was
invalidated meanwhile. -/
theorem Sound.holds_of_read (sound : m.Sound) {i j : ℕ}
    (reads : (run i m).todo = .readKey b :: rest) (lt : i < j)
    (returned : (run j m).todo = rest)
    (same : (run j m).world.invalidations (.bridge (.key b)) =
      (run i m).world.invalidations (.bridge (.key b))) :
    ((run j m).world.cell (.bridge (.key b))).value.isSome := by
  have hhas : (run i m).world.Has (CacheHolder.bridge (.key b)).object :=
    (sound.after i).has_of_head reads List.mem_cons_self
  cases hvalue : ((run i m).world.keyBridges.get b).cache.value with
  | some v =>
    apply sound.holds_run (Nat.le_of_lt lt) hhas same
    exact congrArg (fun x => (Option.map (Reply.value _) x).isSome) hvalue
  | none =>
    have hstep := step_readKey_of_none reads hvalue
    rw [← run_succ] at hstep
    obtain ⟨l, hwaits⟩ := exists_waits hstep
    -- The fetch has ended, for what waited below it has had its turn.
    have hlj : l < j := hwaits.lt_of_length_le lt (by rw [returned])
    have hil' : i ≤ l := Nat.le_of_lt hwaits.lt
    have hsame := sound.invalidations_between hil'
      (Nat.le_of_lt hlj) hhas same
    have hsame' := sound.invalidations_between
      (Nat.le_succ_of_le hil') hlj hhas same
    have hholds := step_settleKey_holds hwaits.turn
      (sound.generation_eq hil' hhas hsame)
    rw [← run_succ] at hholds
    exact sound.holds_run hlj
      (has_run (Nat.le_succ_of_le hil') hhas) (same.trans hsame'.symm) hholds

/-- A key bridge reads as if it had no cache, and does have one. -/
structure ReadsAsUncached (m : Machine) (b : Ref .keyBridge) : Prop where
  /-- A call of the getter answers what an uncached read would answer, unless
  something is on its way to the bridge when it is called. -/
  uncached : ∀ n label name nested rest,
    (run n m).todo =
      .perform (.mk label (.store (.getKey name))) nested :: rest →
    (run n m).world.keyBridge? name = some b →
    (∀ t ∈ rest, ¬ t.Owes (run n m).world (.key b)) →
    ∃ k j, m.Gets b n k j (.finish label [.keyBridge b] nested :: rest)
  /-- If a read has returned and nothing was told to the bridge since it
  began, the next read does not read the store. -/
  memoized : ∀ i j k rest below,
    (run i m).todo = .readKey b :: rest → i < j → (run j m).todo = rest →
    j ≤ k → (run k m).todo = .readKey b :: below →
    (run i m).Rests (.key b) →
    (∀ l, i ≤ l → l < k → ¬ (run l m).Hears (.key b)) →
    ∃ v, run (k + 1) m =
      ⟨(run k m).world.tell (.cacheHit (.bridge (.key b))), below,
        .value ((run k m).world.keyBridges.get b).kind v⟩

/-- Along every run of a client whose hooks and presenters do what they are
there for, a key bridge cannot be told from one without a cache, except that
it does not read its store again and again.  The numbers of subscriptions are
taken to be unique. -/
theorem reads_as_uncached (commands : List Command) (b : Ref .keyBridge)
    (few : (ofCommands commands).Few (.bridge (.key b)))
    (obliges : ∀ k, (run k (ofCommands commands)).obliges)
    (unique : ∀ k,
      (run k (ofCommands commands)).world.subscriptions ≤ 2 ^ 64) :
    (ofCommands commands).ReadsAsUncached b := by
  have hsound := sound_ofCommands commands
  refine ⟨fun n label name nested rest call found calm =>
    gets few obliges unique call found calm, ?_⟩
  intro i j k rest below hreads hij hreturned hjk hnext hrests hsilent
  have hhas : (run i (ofCommands commands)).world.Has (.keyBridge b) :=
    (hsound.after i).has_of_head hreads List.mem_cons_self
  have hik : i ≤ k := by omega
  have hcount := (invalidations_of_silent hsound hik hrests hsilent).2
  have hcount' := (invalidations_of_silent hsound (Nat.le_of_lt hij) hrests
    fun l hil hlj => hsilent l hil (by omega)).2
  have hhas' : (run j (ofCommands commands)).world.Has
      (CacheHolder.bridge (.key b)).object := has_run (Nat.le_of_lt hij) hhas
  have hholds := hsound.holds_run hjk hhas' (hcount.trans hcount'.symm)
    (hsound.holds_of_read hreads hij hreturned hcount')
  obtain ⟨r, hr⟩ := Option.isSome_iff_exists.mp hholds
  obtain ⟨v, hv, -⟩ := Option.map_eq_some_iff.mp hr
  refine ⟨v, ?_⟩
  rw [run_succ]
  exact step_readKey_of_some hnext hv

/-- Here a listener in front of the bridge reads the bridge while the write of
its key is on its way to it. -/
theorem reads_as_uncached_overtaken_listener :
    (ofCommands
      [.mk .null (.store (.newStore "m" none [])),
        .mk .null (.notice (.subscribe "s" (.storeKey "m" "k")
          [(1, [.mk .null (.store (.getKey "b"))])])),
        .mk .null (.store (.newKeyBridge "b" "k" .bool false (some "m")
          .direct none)),
        .mk .null (.store (.getKey "b")),
        .mk .null (.store (.writeStore "m" "k" (some (.bool true)))),
        .mk .null (.store (.getKey "b"))]).ReadsAsUncached ⟨0⟩ :=
  reads_as_uncached _ _
    (few_of_halted (sound_ofCommands _) 40 (by decide +kernel)
      (by decide +kernel))
    (forall_run_of_halted (P := fun m => m.obliges) 40 (by decide +kernel)
      (by decide +kernel))
    (forall_run_of_halted (P := fun m => m.world.subscriptions ≤ 2 ^ 64) 40
      (by decide +kernel) (by decide +kernel))

end

end Machine
end LiveProperty
