import LiveProperty.Proofs.Machine.AnyContexts
import LiveProperty.Proofs.Machine.Warnings
import LiveProperty.Proofs.QueryContexts
import Mathlib.Data.Nat.Count

/-!
# Missing contexts

A query bridge whose fetch finds no context reads as empty and does not cache
that.  The first such read is reported, and then no other one until the bridge
is bound to a context.  This holds whatever the contexts do that it asks: they
may call the client back, who may bind the bridge inside the very fetch that
fails.

`reportsMissing` says when the bridge warns (`warns_iff`), how often that may be
(`warnings_le`), and that it is once at most if no context says of itself that
it is missing (`warnings_le_one`).  The last of these needs that a bridge which
has a context does not lose it.
-/

namespace LiveProperty

theorem contentsAs_ne_missing (rowType : RowType) (records : List Record)
    (entity : String) :
    contentsAs rowType records ≠ .error (.missingContext entity) := by
  induction records with
  | nil => simp [contentsAs]
  | cons r rest ih =>
    rw [contentsAs]
    split
    · cases hrest : contentsAs rowType rest with
      | ok contents => simp [Except.map]
      | error e =>
        intro h
        cases h
        exact ih hrest
    · simp

/-- A query finds no context if its fetch found none. -/
theorem QueryBridge.rowsOf_eq_missing_iff {b : QueryBridge}
    {got : Except BridgeError (List Record)} {entity : String} :
    b.rowsOf got = .error (.missingContext entity) ↔
      got = .error (.missingContext entity) := by
  cases got with
  | error e => simp [rowsOf, Except.bind]
  | ok records =>
    have hcontents := contentsAs_ne_missing b.rowType records entity
    simp only [rowsOf, Except.bind, FetchDescriptor.select, reduceCtorEq,
      iff_false]
    cases hselect : contentsAs b.rowType records with
    | ok contents => exact nofun
    | error e =>
      intro h
      cases h
      exact hcontents hselect

namespace Machine

variable {m m' : Machine} {q : Ref .queryBridge} {commands : List Command}
  {f : ℕ → Machine}

theorem misses_iff : m.Misses q ↔ ∃ began entity rest,
    m.todo = .settleQuery q began (.error (.missingContext entity)) :: rest := by
  constructor
  · rintro ⟨entity, began, got, rest, htodo, hgot⟩
    obtain rfl := QueryBridge.rowsOf_eq_missing_iff.mp hgot
    exact ⟨began, entity, rest, htodo⟩
  · rintro ⟨began, entity, rest, htodo⟩
    exact ⟨entity, began, _, rest, htodo, rfl⟩

/-- A context is about to answer the fetch of a query bridge that it is
missing. -/
def AnswersMissing (m : Machine) (q : Ref .queryBridge) : Prop :=
  ∃ c records began rest entity,
    m.todo = .receive c records (.bridge q began) :: rest ∧
      (m.world.contexts.get c).outcome records =
        .error (.missingContext entity)

/-- A query bridge has warned before a step of a run, and was not bound to a
context since. -/
def WarnedSince (f : ℕ → Machine) (q : Ref .queryBridge) (n : ℕ) : Prop :=
  ∃ k < n, (f k).Warns q ∧ ∀ l, k < l → l < n → ∀ c, ¬ (f l).Rebinds q c

/-- A read of a query bridge that finds the cache empty at one step of a run
ends its fetch at another, with the answer of the context that the bridge has
when it begins, and returns after a third. -/
structure FetchesOutcome (f : ℕ → Machine) (q : Ref .queryBridge) (k e j : ℕ)
    (outcome : Except BridgeError (List Json)) (below : List Task) : Prop where
  lt : k < e
  le : e ≤ j
  settles : (f e).SettlesQuery q outcome
  missing : (f k).world.resolvedContext q = none →
    ∃ entity, outcome = .error (.missingContext entity)
  asked : ∀ c, (f k).world.resolvedContext q = some c →
    ∃ r records began rest, e = r + 1 ∧
      (f r).todo = .receive c records (.bridge q began) :: rest ∧
      outcome = ((f e).world.queryBridges.get q).rowsOf
        (((f r).world.contexts.get c).outcome records)
  returns : (f (j + 1)).todo = below
  answers : (f (j + 1)).reply = .rows (outcome.toOption.getD [])

/-- How a read of a query bridge goes on that begins at a step of a run. -/
inductive ReadsRows (f : ℕ → Machine) (q : Ref .queryBridge) (k : ℕ)
    (below : List Task) : Prop
  | cached (rows : List Json)
      (held : ((f k).world.queryBridges.get q).cache.value = some rows)
      (returns : (f (k + 1)).todo = below)
      (answers : (f (k + 1)).reply = .rows rows)
  | fetched (empty : ((f k).world.queryBridges.get q).cache.value = none)
      {e j : ℕ} {outcome : Except BridgeError (List Json)}
      (fetches : FetchesOutcome f q k e j outcome below)

open Classical in
/-- When, and how often, a query bridge warns of a missing context. -/
structure ReportsMissing (f : ℕ → Machine) (q : Ref .queryBridge) : Prop where
  called : ∀ n label name nested rest,
    (f n).todo =
      .perform (.mk label (.query (.results name))) nested :: rest →
    (f n).world.queryBridge? name = some q →
    ∃ k, n < k ∧
      (f k).todo =
        .readQuery q :: .finish label [.queryBridge q] nested :: rest ∧
      ReadsRows f q k (.finish label [.queryBridge q] nested :: rest)
  /-- A fetch that failed is answered as empty, and leaves the cache alone. -/
  fails : ∀ n e, (f n).SettlesQuery q (.error e) →
    (f (n + 1)).reply = .rows [] ∧
      ((f (n + 1)).world.queryBridges.get q).cache =
        ((f n).world.queryBridges.get q).cache
  warns_iff : ∀ n, (f n).Warns q ↔ (f n).Misses q ∧ ¬ WarnedSince f q n
  warnings_le : ∀ n, (f n).world.warnings q ≤
    1 + Nat.count (fun k => ∃ c, (f k).Rebinds q c) n
  warnings_le_one : (∀ n, ¬ (f n).AnswersMissing q) →
    ∀ n, (f n).world.warnings q ≤ 1

/-! ## Calls -/

section

variable {rest : List Task}

theorem step_settleQuery_of_error {e : BridgeError}
    (h : m.SettlesQuery q (.error e)) :
    m.step.reply = .rows [] ∧
      (m.step.world.queryBridges.get q).cache =
        (m.world.queryBridges.get q).cache := by
  obtain ⟨began, got, rest, htodo, hgot⟩ := h
  rw [step_of_todo_cons htodo]
  simp only [doTask, settleQuery, hgot]
  cases e with
  | missingContext entity =>
    simp only [missContext]
    split
    · exact ⟨rfl, rfl⟩
    · exact ⟨rfl, Pool.apply_get_set (g := QueryBridge.cache) rfl⟩
  | _ => exact ⟨rfl, rfl⟩

namespace RunsAmongContexts

/-- A read that asks a context ends when the context has answered, whatever it
does before. -/
theorem exists_asked (h : RunsAmongContexts commands f) {k : ℕ}
    {c : Ref .context} (reads : (f k).todo = .readQuery q :: rest)
    (empty : ((f k).world.queryBridges.get q).cache.value = none)
    (resolved : (f k).world.resolvedContext q = some c) :
    ∃ e j outcome, FetchesOutcome f q k e j outcome rest := by
  have hask := congrArg Machine.todo (step_readQuery reads empty resolved)
  rw [← h.todo_succ] at hask
  obtain ⟨front, hfetch⟩ := step_askRecords hask
  rw [← h.todo_succ] at hfetch
  obtain ⟨r, hkr, hreceives, -⟩ := h.returns hfetch
  have hsettle := step_receive hreceives
  rw [← h.todo_succ] at hsettle
  obtain ⟨hkeep, hreply⟩ := step_settleQuery hsettle
  rw [← h.todo_succ] at hkeep
  rw [← h.reply_succ] at hreply
  have hreturns := step_keep hkeep
  refine ⟨r + 1, r + 2, _, by omega, by omega, ⟨_, _, _, hsettle, rfl⟩,
    fun hnone => ?_, fun d hd => ?_, ?_, ?_⟩
  · cases hnone.symm.trans resolved
  · obtain rfl := Option.some.inj (hd.symm.trans resolved)
    exact ⟨r, _, _, _, rfl, hreceives, rfl⟩
  · rw [h.todo_succ, hreturns]
  · rw [h.reply_succ, hreturns]
    exact hreply

/-- A read without a context ends at once. -/
theorem fetchesOutcome_of_missing (h : RunsAmongContexts commands f) {k : ℕ}
    (reads : (f k).todo = .readQuery q :: rest)
    (empty : ((f k).world.queryBridges.get q).cache.value = none)
    (missing : (f k).world.resolvedContext q = none) :
    ∃ outcome, FetchesOutcome f q k (k + 1) (k + 1) outcome rest := by
  have hsettle := step_readQuery_of_missing reads empty missing
  rw [← h.todo_succ] at hsettle
  obtain ⟨hreturns, hreply⟩ := step_settleQuery hsettle
  rw [← h.todo_succ] at hreturns
  rw [← h.reply_succ] at hreply
  refine ⟨_, Nat.lt_succ_self k, Nat.le_refl _, ⟨_, _, _, hsettle, rfl⟩,
    fun _ => ⟨_, rfl⟩, fun c hc => ?_, hreturns, hreply⟩
  cases hc.symm.trans missing

theorem readsRows (h : RunsAmongContexts commands f) {k : ℕ}
    (reads : (f k).todo = .readQuery q :: rest) : ReadsRows f q k rest := by
  cases hvalue : ((f k).world.queryBridges.get q).cache.value with
  | some rows =>
    have hstep := step_readQuery_of_some reads hvalue
    refine .cached rows hvalue ?_ ?_
    · rw [h.todo_succ, hstep]
    · rw [h.reply_succ, hstep]
  | none =>
    cases hresolved : (f k).world.resolvedContext q with
    | none =>
      obtain ⟨outcome, hfetches⟩ :=
        h.fetchesOutcome_of_missing reads hvalue hresolved
      exact .fetched hvalue hfetches
    | some c =>
      obtain ⟨e, j, outcome, hfetches⟩ := h.exists_asked reads hvalue hresolved
      exact .fetched hvalue hfetches

theorem exists_readsRows (h : RunsAmongContexts commands f) {n : ℕ}
    {label : Json} {name : String} {nested : Bool}
    (call : (f n).todo =
      .perform (.mk label (.query (.results name))) nested :: rest)
    (found : (f n).world.queryBridge? name = some q) :
    ∃ k, n < k ∧
      (f k).todo =
        .readQuery q :: .finish label [.queryBridge q] nested :: rest ∧
      ReadsRows f q k (.finish label [.queryBridge q] nested :: rest) := by
  obtain ⟨access, hstep⟩ := step_results call found
  have htodo := congrArg Machine.todo hstep
  rw [← h.todo_succ] at htodo
  obtain ⟨k, hnk, hreads, -⟩ := h.returns htodo
  exact ⟨k, hnk, hreads, h.readsRows hreads⟩

end RunsAmongContexts

end

/-! ## Warnings -/

theorem warnedSince_succ_iff {n : ℕ} : WarnedSince f q (n + 1) ↔
    (f n).Warns q ∨ WarnedSince f q n ∧ ∀ c, ¬ (f n).Rebinds q c := by
  constructor
  · rintro ⟨k, hkn, hwarns, hrebinds⟩
    rcases Nat.lt_succ_iff_lt_or_eq.mp hkn with hlt | rfl
    · exact Or.inr ⟨⟨k, hlt, hwarns,
        fun l hkl hln => hrebinds l hkl (Nat.lt_succ_of_lt hln)⟩,
        hrebinds n hlt (Nat.lt_succ_self n)⟩
    · exact Or.inl hwarns
  · rintro (hwarns | ⟨⟨k, hkn, hwarns, hrebinds⟩, hnow⟩)
    · exact ⟨n, Nat.lt_succ_self n, hwarns, fun l hnl hln => by omega⟩
    · refine ⟨k, Nat.lt_succ_of_lt hkn, hwarns, fun l hkl hln => ?_⟩
      rcases Nat.lt_succ_iff_lt_or_eq.mp hln with hlt | rfl
      · exact hrebinds l hkl hlt
      · exact hnow

namespace RunsAmongContexts

variable {n : ℕ}

theorem has_of_warns (h : RunsAmongContexts commands f) {k : ℕ} (lt : k < n)
    (warns : (f k).Warns q) : (f n).world.Has (.queryBridge q) := by
  obtain ⟨⟨entity, hsettles⟩, -⟩ := (Machine.warns_iff (h.sound k)).mp warns
  induction n, lt using Nat.le_induction with
  | base => exact h.has_succ (hsettles.has (h.sound k))
  | succ n le ih => exact h.has_succ ih

/-- A query bridge notes whether it has warned since it was bound. -/
theorem warned_iff (h : RunsAmongContexts commands f)
    (has : (f n).world.Has (.queryBridge q)) :
    ((f n).world.queryBridges.get q).warned ↔ WarnedSince f q n := by
  induction n with
  | zero => exact absurd ((h.start.has_iff _).mp has) (Nat.not_lt_zero q.index)
  | succ n ih =>
    rw [warnedSince_succ_iff, h.queryBridges_succ]
    by_cases hold : (f n).world.Has (.queryBridge q)
    · rw [warned_step_iff (h.sound n) hold, ih hold]
    · have hnew := warned_of_new hold (((h.step n).has_iff _).mp has)
      rw [hnew]
      refine iff_of_false Bool.false_ne_true ?_
      rintro (hwarns | ⟨⟨k, hkn, hwarns, -⟩, -⟩)
      · obtain ⟨⟨entity, hsettles⟩, -⟩ :=
          (Machine.warns_iff (h.sound n)).mp hwarns
        exact hold (hsettles.has (h.sound n))
      · exact hold (h.has_of_warns hkn hwarns)

theorem warns_iff (h : RunsAmongContexts commands f) :
    (f n).Warns q ↔ (f n).Misses q ∧ ¬ WarnedSince f q n := by
  rw [Machine.warns_iff (h.sound n)]
  refine and_congr_right fun hmisses => ?_
  obtain ⟨entity, hsettles⟩ := hmisses
  rw [← h.warned_iff (hsettles.has (h.sound n)), Bool.not_eq_true]

theorem warnings_succ (h : RunsAmongContexts commands f) (n : ℕ) :
    (f (n + 1)).world.warnings q =
      (f n).world.warnings q + if (f n).Warns q then 1 else 0 := by
  rw [← warnings_step (h.sound n), World.warnings, World.warnings,
    (h.step n).journal]

theorem warnings_zero (h : RunsAmongContexts commands f) :
    (f 0).world.warnings q = 0 := by
  rw [World.warnings, h.start.journal]
  rfl

open Classical in
/-- Between two warnings a bridge was bound. -/
theorem warnings_le (h : RunsAmongContexts commands f) (n : ℕ) :
    (f n).world.warnings q ≤ Nat.count (fun k => ∃ c, (f k).Rebinds q c) n +
      if WarnedSince f q n then 1 else 0 := by
  induction n with
  | zero =>
    rw [h.warnings_zero]
    exact Nat.zero_le _
  | succ n ih =>
    rw [h.warnings_succ, Nat.count_succ]
    by_cases hwarns : (f n).Warns q
    · have hnot := (h.warns_iff.mp hwarns).2
      have hnow : WarnedSince f q (n + 1) :=
        warnedSince_succ_iff.mpr (Or.inl hwarns)
      rw [if_neg hnot] at ih
      rw [if_pos hwarns, if_pos hnow]
      omega
    · rw [if_neg hwarns]
      by_cases hrebinds : ∃ c, (f n).Rebinds q c
      · rw [if_pos hrebinds]
        have hle : (if WarnedSince f q n then 1 else 0) ≤ 1 := by
          split <;> simp
        omega
      · have hsame : WarnedSince f q (n + 1) ↔ WarnedSince f q n := by
          rw [warnedSince_succ_iff, or_iff_right hwarns,
            and_iff_left fun c hc => hrebinds ⟨c, hc⟩]
        rw [if_neg hrebinds, if_congr hsame rfl rfl]
        exact ih

end RunsAmongContexts

/-! ## Bridges that are bound -/

/-- Whoever is to end a fetch of a query bridge has its turn next, and if the
fetch found no context, the bridge has none of its own. -/
structure MissesUnbound (m : Machine) (q : Ref .queryBridge) : Prop where
  alone : ∀ began got, Task.settleQuery q began got ∉ m.todo.tail
  unbound : m.Misses q → m.ownContext q = none

theorem MissesUnbound.of_exchange (h : m.MissesUnbound q)
    (exchange : m.ExchangesContexts m') : m'.MissesUnbound q := by
  obtain ⟨contexts, -, rfl⟩ := exchange
  exact ⟨h.alone, h.unbound⟩

/-- The end of a fetch that is new is all that is left by a read of a bridge
without a context, or by the answer of the context that was asked. -/
theorem todo_of_settles {t : Task} {rest : List Task} {began : UInt64}
    {got : Except BridgeError (List Record)} (todo : m.todo = t :: rest)
    (new : .settleQuery q began got ∉ rest)
    (settles : .settleQuery q began got ∈ m.step.todo) :
    m.step.todo = .settleQuery q began got :: rest ∧
      (m.step.ownContext q = none ∨
        ∃ c records, t = .receive c records (.bridge q began) ∧
          (m.world.contexts.get c).outcome records = got) := by
  obtain ⟨pushed, hpushed, hfollows⟩ := todo_step todo
  rw [hpushed] at settles
  have hmem := (List.mem_append.mp settles).resolve_right new
  cases hfollows _ hmem with
  | begun _ _ left => cases left
  | settleMissing _ empty resolved =>
    have hown : m.step.ownContext q = m.ownContext q := by
      rw [ownContext, step_of_todo_cons todo]
      simp only [doTask, readQuery, empty, resolved]
      rfl
    refine ⟨step_readQuery_of_missing todo empty resolved, Or.inl ?_⟩
    rw [hown]
    exact (Option.or_eq_none_iff.mp resolved).1
  | settleQuery c records _ began =>
    exact ⟨step_receive todo, Or.inr ⟨c, records, rfl, rfl⟩⟩

theorem MissesUnbound.step (h : m.MissesUnbound q)
    (answers : ¬ m.AnswersMissing q) : m.step.MissesUnbound q := by
  cases htodo : m.todo with
  | nil => rwa [step_of_todo_nil htodo]
  | cons t rest =>
    have hrest (began : UInt64) (got : Except BridgeError (List Record)) :
        Task.settleQuery q began got ∉ rest := by
      simpa [htodo] using h.alone began got
    constructor
    · intro began got hmem
      have hsettles := todo_of_settles htodo (hrest began got)
        (List.mem_of_mem_tail hmem)
      rw [hsettles.1] at hmem
      exact hrest began got hmem
    · intro hmisses
      obtain ⟨began, entity, rest', hmissing⟩ := misses_iff.mp hmisses
      obtain ⟨-, hown | ⟨c, records, rfl, houtcome⟩⟩ :=
        todo_of_settles htodo (hrest began _) (hmissing ▸ List.mem_cons_self)
      · exact hown
      · exact absurd ⟨c, records, began, rest, entity, htodo, houtcome⟩ answers

/-- A query bridge has not warned yet, or it has warned once and either notes
that or has a context of its own. -/
def WarnedAtMostOnce (m : Machine) (q : Ref .queryBridge) : Prop :=
  m.world.warnings q = 0 ∨
    m.world.warnings q = 1 ∧ m.world.Has (.queryBridge q) ∧
      ((m.world.queryBridges.get q).warned ∨ m.ownContext q ≠ none)

theorem WarnedAtMostOnce.of_exchange (h : m.WarnedAtMostOnce q)
    (exchange : m.ExchangesContexts m') : m'.WarnedAtMostOnce q := by
  obtain ⟨contexts, -, rfl⟩ := exchange
  exact h

theorem WarnedAtMostOnce.step (h : m.WarnedAtMostOnce q) (sound : m.Sound)
    (misses : m.MissesUnbound q) : m.step.WarnedAtMostOnce q := by
  by_cases hwarns : m.Warns q
  · obtain ⟨hmisses, hwarned⟩ := (warns_iff sound).mp hwarns
    obtain ⟨entity, hsettles⟩ := hmisses
    rcases h with hzero | ⟨-, -, hnoted | hown⟩
    · refine Or.inr ⟨?_, has_step (hsettles.has sound),
        Or.inl (Misses.step ⟨entity, hsettles⟩).1⟩
      rw [warnings_step sound, if_pos hwarns, hzero]
    · rw [hwarned] at hnoted
      cases hnoted
    · exact absurd (misses.unbound ⟨entity, hsettles⟩) hown
  · have hsame : m.step.world.warnings q = m.world.warnings q := by
      rw [warnings_step sound, if_neg hwarns, Nat.add_zero]
    rw [WarnedAtMostOnce, hsame]
    refine h.imp_right fun ⟨hone, has, hnext⟩ => ⟨hone, has_step has, ?_⟩
    rcases hnext with hnoted | hown
    · by_cases hrebinds : ∃ c, m.Rebinds q c
      · obtain ⟨c, hc⟩ := hrebinds
        right
        rw [ownContext_of_rebinds hc]
        exact Option.some_ne_none c
      · left
        exact (warned_step_iff sound has).mpr
          (Or.inr ⟨hnoted, fun c hc => hrebinds ⟨c, hc⟩⟩)
    · exact Or.inr (ownContext_step_ne_none has hown)

namespace RunsAmongContexts

theorem missesUnbound (h : RunsAmongContexts commands f)
    (answers : ∀ n, ¬ (f n).AnswersMissing q) (n : ℕ) :
    (f n).MissesUnbound q := by
  induction n with
  | zero =>
    have hstart : (ofCommands commands).MissesUnbound q := by
      have hnone (began : UInt64) (got : Except BridgeError (List Record)) :
          Task.settleQuery q began got ∉ (ofCommands commands).todo := by
        simp [ofCommands]
      refine ⟨fun began got hmem => hnone began got (List.mem_of_mem_tail hmem),
        fun hmisses => ?_⟩
      obtain ⟨began, entity, rest, hmissing⟩ := misses_iff.mp hmisses
      exact absurd (hmissing ▸ List.mem_cons_self) (hnone _ _)
    exact hstart.of_exchange h.start
  | succ n ih => exact (ih.step (answers n)).of_exchange (h.step n)

/-- A bridge that has warned is bound before it could warn again, and then it
has a context for good. -/
theorem warnings_le_one (h : RunsAmongContexts commands f)
    (answers : ∀ n, ¬ (f n).AnswersMissing q) (n : ℕ) :
    (f n).world.warnings q ≤ 1 := by
  have hwarned : (f n).WarnedAtMostOnce q := by
    induction n with
    | zero => exact Or.inl h.warnings_zero
    | succ n ih =>
      exact (ih.step (h.sound n) (h.missesUnbound answers n)).of_exchange
        (h.step n)
  rcases hwarned with hzero | ⟨hone, -⟩
  · rw [hzero]
    exact Nat.zero_le 1
  · exact Nat.le_of_eq hone

end RunsAmongContexts

/-- Along every run of a client among contexts of any make, a query bridge
warns of a missing context when a call for its results ends without one and it
has not warned since it was bound.  Every call whose fetch fails is answered as
empty, and is not cached. -/
theorem reportsMissing (h : RunsAmongContexts commands f)
    (q : Ref .queryBridge) : ReportsMissing f q := by
  classical
  refine
    { called := fun n label name nested rest call found =>
        h.exists_readsRows call found
      fails := fun n e settles => ?_
      warns_iff := fun n => h.warns_iff
      warnings_le := fun n => ?_
      warnings_le_one := fun answers n => h.warnings_le_one answers n }
  · rw [h.reply_succ, h.queryBridges_succ]
    exact step_settleQuery_of_error settles
  · have hle := h.warnings_le (q := q) n
    have hone : (if WarnedSince f q n then 1 else 0) ≤ 1 := by
      split <;> simp
    rw [Nat.add_comm]
    exact Nat.le_trans hle (Nat.add_le_add_left hone _)

/-- A client whose default context is asked three times and says each time that
it is missing.  The bridge is bound to it while it is asked for the second
time. -/
def bindsInFetch : List Command :=
  [.mk .null (.context (.newSupervisedContext "c" none
      [(1, []), (1, [.mk .null (.query (.bindContext "q" "c"))])] 3
      (.missingContext "E"))),
    .mk .null (.context (.setDefaultContext "c")),
    .mk .null (.query (.newQueryBridge "q" ⟨"R", "E"⟩ [])),
    .mk .null (.query (.results "q")),
    .mk .null (.query (.results "q")),
    .mk .null (.query (.results "q"))]

/-- Here the first two reads warn, and the third one does not. -/
theorem reportsMissing_bound_in_fetch :
    ReportsMissing (fun n => run n (ofCommands bindsInFetch)) ⟨0⟩ :=
  reportsMissing (runsAmongContexts_run bindsInFetch) ⟨0⟩

example : (run 41 (ofCommands bindsInFetch)).world.warnings ⟨0⟩ = 2 := by
  decide +kernel

end Machine
end LiveProperty
