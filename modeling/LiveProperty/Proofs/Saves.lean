import LiveProperty.Proofs.Machine.RowWrites
import LiveProperty.Proofs.Machine.Termination
import Mathlib.Data.Nat.Find

/-!
# Saves

A save of a context announces what was written since the save before it, and
forgets it before anybody hears of it.  So the writes of a run are dealt out
to the saves: each write is announced by the first save that begins after it,
and by no other, whatever listeners write or save while they hear of a save.
-/

namespace LiveProperty

/-- What is announced of several equal changes is the first. -/
theorem distinct_eq_eraseDups {α : Type} [DecidableEq α] (xs : List α) :
    distinct xs = xs.eraseDups := by
  have hfold (xs seen : List α) :
      xs.foldl (fun seen x => if seen.contains x then seen else seen ++ [x])
          seen =
        seen ++ (xs.filter fun x => !seen.contains x).eraseDups := by
    induction xs generalizing seen with
    | nil => simp
    | cons x xs ih =>
      rw [List.foldl_cons, ih]
      by_cases hx : x ∈ seen
      · simp [hx]
      · have hcontains : seen.contains x = false := by simpa using hx
        have hfilter : (xs.filter fun y => !(seen ++ [x]).contains y) =
            (xs.filter fun y => !seen.contains y).filter fun y => !(y == x) := by
          rw [List.filter_filter]
          apply List.filter_congr
          intro y _
          by_cases hyx : y = x <;> simp [hyx]
        simp only [hcontains, Bool.false_eq_true, if_false, hfilter,
          List.filter_cons, Bool.not_false, if_true, List.eraseDups_cons,
          List.append_assoc, List.singleton_append]
  simpa [distinct] using hfold xs []

namespace Machine

variable {m : Machine} {c : Ref .context}

/-- The changes that the steps of a run make of the rows of a context, from
one step up to another. -/
def writes (m : Machine) (c : Ref .context) (l n : ℕ) : List EntityChange :=
  (List.range' l (n - l)).filterMap fun k => (run k m).written? c

/-- No save of a context begins from one step up to another. -/
def NoSave (m : Machine) (c : Ref .context) (l n : ℕ) : Prop :=
  ∀ k, l ≤ k → k < n → (run k m).saves c = false

/-- The steps from one up to another are all those since the last save of a
context began, or since the run began. -/
structure SinceSave (m : Machine) (c : Ref .context) (l n : ℕ) : Prop where
  le : l ≤ n
  fresh : l = 0 ∨ ∃ k, l = k + 1 ∧ (run k m).saves c
  noSave : m.NoSave c l n

/-- What is written at one step is announced by the save that begins at
another. -/
def Reports (m : Machine) (c : Ref .context) (i n : ℕ) : Prop :=
  (run n m).saves c ∧ ∃ l, m.SinceSave c l n ∧ l ≤ i ∧ i < n

/-! ## What is unsaved -/

theorem writes_self (l : ℕ) : m.writes c l l = [] := by
  simp [writes]

theorem writes_succ {l n : ℕ} (le : l ≤ n) :
    m.writes c l (n + 1) = m.writes c l n ++ ((run n m).written? c).toList := by
  have hlength : n + 1 - l = n - l + 1 := by omega
  have hlast : l + (n - l) = n := by omega
  rw [writes, hlength, List.range'_1_concat, List.filterMap_append, hlast]
  cases h : (run n m).written? c <;> simp [writes, h]

theorem mem_writes {l n : ℕ} {change : EntityChange} :
    change ∈ m.writes c l n ↔
      ∃ i, l ≤ i ∧ i < n ∧ (run i m).written? c = some change := by
  simp only [writes, List.mem_filterMap, List.mem_range'_1]
  constructor
  · rintro ⟨i, ⟨hli, hin⟩, hi⟩
    exact ⟨i, hli, by omega, hi⟩
  · rintro ⟨i, hli, hin, hi⟩
    exact ⟨i, ⟨hli, by omega⟩, hi⟩

/-- What is unsaved is what was written since the last save began. -/
theorem SinceSave.unsaved {commands : List Command} {l n : ℕ}
    (h : (ofCommands commands).SinceSave c l n) :
    (run n (ofCommands commands)).world.unsaved c =
      (ofCommands commands).writes c l n := by
  have hstart : (run l (ofCommands commands)).world.unsaved c = [] := by
    rcases h.fresh with rfl | ⟨k, rfl, hsaves⟩
    · rfl
    · rw [unsaved_succ, if_pos hsaves]
  have hnone := h.noSave
  induction n, h.le using Nat.le_induction with
  | base => rw [hstart, writes_self]
  | succ n le ih =>
    have hsilent := hnone n le (Nat.lt_succ_self n)
    have hbefore : (ofCommands commands).SinceSave c l n :=
      ⟨le, h.fresh, fun k hlk hkn => hnone k hlk (Nat.lt_succ_of_lt hkn)⟩
    rw [unsaved_succ, ih hbefore hbefore.noSave, writes_succ le]
    simp [hsilent]

/-! ## Which save announces a write -/

theorem exists_sinceSave (m : Machine) (c : Ref .context) (n : ℕ) :
    ∃ l, m.SinceSave c l n := by
  induction n with
  | zero => exact ⟨0, Nat.le_refl 0, Or.inl rfl, fun k _ hk => by omega⟩
  | succ n ih =>
    by_cases hsaves : (run n m).saves c
    · exact ⟨n + 1, Nat.le_refl _, Or.inr ⟨n, rfl, hsaves⟩,
        fun k hnk hkn => by omega⟩
    · obtain ⟨l, hl⟩ := ih
      refine ⟨l, Nat.le_succ_of_le hl.le, hl.fresh, fun k hlk hkn => ?_⟩
      rcases Nat.lt_succ_iff_lt_or_eq.mp hkn with hlt | rfl
      · exact hl.noSave k hlk hlt
      · exact Bool.eq_false_iff.mpr hsaves

theorem SinceSave.unique {l l' n : ℕ} (h : m.SinceSave c l n)
    (h' : m.SinceSave c l' n) : l = l' := by
  have hle {l l' : ℕ} (h : m.SinceSave c l n) (h' : m.SinceSave c l' n) :
      l' ≤ l := by
    rcases h'.fresh with rfl | ⟨k, rfl, hsaves⟩
    · exact Nat.zero_le l
    · by_contra hlt
      rw [h.noSave k (by omega) (by have := h'.le; omega)] at hsaves
      cases hsaves
  exact Nat.le_antisymm (hle h' h) (hle h h')

theorem Reports.unique {i n n' : ℕ} (h : m.Reports c i n)
    (h' : m.Reports c i n') : n = n' := by
  have hle {n n' : ℕ} (h : m.Reports c i n) (h' : m.Reports c i n') :
      n' ≤ n := by
    obtain ⟨hsaves, -, -, -, hin⟩ := h
    obtain ⟨-, l, hl, hli, -⟩ := h'
    by_contra hlt
    rw [hl.noSave n (by omega) (by omega)] at hsaves
    cases hsaves
  exact Nat.le_antisymm (hle h' h) (hle h h')

/-- The save that announces a write is the first one after it. -/
theorem reports_iff {i n : ℕ} (written : (run i m).written? c ≠ none) :
    m.Reports c i n ↔
      i < n ∧ (run n m).saves c ∧ m.NoSave c (i + 1) n := by
  constructor
  · rintro ⟨hsaves, l, hl, hli, hin⟩
    exact ⟨hin, hsaves, fun k hik hkn => hl.noSave k (by omega) hkn⟩
  · rintro ⟨hin, hsaves, hnone⟩
    obtain ⟨l, hl⟩ := exists_sinceSave m c n
    refine ⟨hsaves, l, hl, ?_, hin⟩
    by_contra hlt
    rcases hl.fresh with rfl | ⟨k, rfl, hk⟩
    · omega
    · -- The save before begins at or after the write, which is no save.
      rcases Nat.lt_or_ge i k with hik | hki
      · rw [hnone k hik (by have := hl.le; omega)] at hk
        cases hk
      · obtain rfl : k = i := by omega
        unfold saves at hk
        unfold written? at written
        split at hk
        · next command nested rest htodo =>
          simp only [htodo] at written
          unfold World.saves at hk
          split at hk
          · next context haction => simp [World.written?, haction] at written
          · cases hk
        · cases hk

/-- If there is a save after a step, there is a first one. -/
theorem exists_first_save {i k : ℕ} (lt : i < k) (saves : (run k m).saves c) :
    ∃ n, (i < n ∧ (run n m).saves c) ∧ m.NoSave c (i + 1) n := by
  have hsome : ∃ n, i < n ∧ (run n m).saves c := ⟨k, lt, saves⟩
  refine ⟨Nat.find hsome, Nat.find_spec hsome, fun j hij hjn => ?_⟩
  have hj := Nat.find_min hsome hjn
  exact Bool.eq_false_iff.mpr fun hsaves => hj ⟨hij, hsaves⟩

/-! ## What a save does -/

theorem saveEvent_eq (w : World) (c : Ref .context) :
    w.saveEvent c = .saved (w.unsaved c).eraseDups
      (if (w.contexts.get c).namesItself then some c else none) := by
  rw [World.saveEvent, Context.saveEvent, ← distinct_eq_eraseDups]
  split <;> rfl

section

variable {label : Json} {name : String} {nested : Bool} {rest : List Task}

theorem step_save_of_nil
    (h : m.todo =
      .perform (.mk label (.context (.saveContext name))) nested :: rest)
    (found : m.world.context? name = some c)
    (unsaved : m.world.unsaved c = []) :
    m.step = { m with
      todo := .answer (.number 0) :: .finish label [] nested :: rest } := by
  have hempty : (m.world.saveEvent c).isEmpty = true := by
    rw [World.isEmpty_saveEvent, unsaved]
    rfl
  have hbegin : begin { m with todo := rest } (.context (.saveContext name)) =
      .ok (answering { m with todo := rest } (.number 0)) := by
    simp only [begin, beginContext, found, needed, bind, Except.bind, saving,
      hempty, if_true]
  rw [step_of_todo_cons h]
  simp [doTask, perform, Command.action, Command.label, hbegin, push,
    answering]

theorem step_save_of_ne_nil
    (h : m.todo =
      .perform (.mk label (.context (.saveContext name))) nested :: rest)
    (found : m.world.context? name = some c)
    (unsaved : m.world.unsaved c ≠ []) :
    m.step.todo =
        .deliver (m.world.audience (m.world.contexts.get c).changes)
            (.change (m.world.saveEvent c)) ::
          .answer (.number (m.world.unsaved c).eraseDups.length) ::
            .finish label [.context c] nested :: rest ∧
      m.step.world.journal =
        .announced (m.world.contexts.get c).changes
            (.change (m.world.saveEvent c))
            (m.world.audience (m.world.contexts.get c).changes) ::
          .contextSaved c (m.world.unsaved c).eraseDups.length ::
            m.world.journal := by
  have hempty : (m.world.saveEvent c).isEmpty = false := by
    rw [World.isEmpty_saveEvent]
    exact Bool.eq_false_iff.mpr fun hnil => unsaved (List.isEmpty_iff.mp hnil)
  have hbegin : begin { m with todo := rest } (.context (.saveContext name)) =
      .ok (saving { m with todo := rest } c) := by
    simp only [begin, beginContext, found, needed, bind, Except.bind]
  rw [step_of_todo_cons h, ← distinct_eq_eraseDups]
  simp only [doTask, perform, Command.action, Command.label, hbegin, saving,
    hempty]
  exact ⟨rfl, rfl⟩

/-- An update or a deletion that finds its context and its row number answers
whether it wrote. -/
theorem step_writing {d : Ref .context} {rowType : RowType} {id : RowId}
    (kind : ChangeKind) {f : MemoryContext → MemoryContext} {action : Action}
    (h : m.todo = .perform (.mk label action) nested :: rest)
    (begins : begin { m with todo := rest } action =
      .ok (writing { m with todo := rest } d rowType id kind f)) :
    m.step.todo = .answer (.flag ((m.world.memory d).holds rowType id)) ::
      .finish label [] nested :: rest := by
  rw [step_of_todo_cons h]
  simp only [doTask, perform, Command.action, Command.label, begins, writing]
  split
  · next hid =>
    rw [hid]
    rfl
  · next hid =>
    rw [Bool.eq_false_iff.mpr hid]
    rfl

end

/-! ## Runs -/

/-- A save that begins at one step of a run announces changes, once, and
returns their number after another step. -/
structure PostsSave (m : Machine) (c : Ref .context) (n j : ℕ)
    (changes : List EntityChange) (below : List Task) : Prop where
  lt : n < j
  /-- One event is announced at once, and it is noted that there was a
  save. -/
  announces : ∃ origin audience,
    (run (n + 1) m).world.journal =
        .announced ((run n m).world.contexts.get c).changes
            (.change (.saved changes origin)) audience ::
          .contextSaved c changes.length :: (run n m).world.journal ∧
      (run (n + 1) m).todo =
        .deliver audience (.change (.saved changes origin)) ::
          .answer (.number changes.length) :: below
  above : m.Above below n j
  returns : (run (j + 1) m).todo = below
  answers : (run (j + 1) m).reply = .number changes.length

/-- The saves of a context lose no change and announce none twice. -/
structure SavesOnce (m : Machine) (c : Ref .context) : Prop where
  /-- A save announces the distinct changes since the last save began, each
  where it occurs first, and answers how many there are. -/
  posts : ∀ l n label name nested rest,
    (run n m).todo =
      .perform (.mk label (.context (.saveContext name))) nested :: rest →
    (run n m).world.context? name = some c →
    m.SinceSave c l n → m.writes c l n ≠ [] →
    ∃ j, m.PostsSave c n j (m.writes c l n).eraseDups
      (.finish label [.context c] nested :: rest)
  /-- If there are none, it does nothing but answer so. -/
  silent : ∀ l n label name nested rest,
    (run n m).todo =
      .perform (.mk label (.context (.saveContext name))) nested :: rest →
    (run n m).world.context? name = some c →
    m.SinceSave c l n → m.writes c l n = [] →
    run (n + 2) m =
      ⟨(run n m).world, .finish label [] nested :: rest, .number 0⟩
  /-- The event concerns the entities that were written to. -/
  affects : ∀ l n origin entity,
    (ContextChange.saved (m.writes c l n).eraseDups origin).affects entity ↔
      ∃ i change, l ≤ i ∧ i < n ∧ (run i m).written? c = some change ∧
        change.entity = entity
  /-- There are changes to save if something was written since the last save
  began. -/
  hasChanges : ∀ l n, m.SinceSave c l n →
    (((run n m).world.memory c).hasChanges ↔
      ∃ i, l ≤ i ∧ i < n ∧ (run i m).written? c ≠ none)
  since : ∀ n, ∃! l, m.SinceSave c l n
  /-- What is written is announced by the first save that begins after it, and
  by no other. -/
  once : ∀ i k, (run i m).written? c ≠ none → i < k → (run k m).saves c →
    ∃! n, m.Reports c i n ∧ m.NoSave c (i + 1) n
  /-- An update or a deletion has written if it answers so. -/
  answers : ∀ n label action name nested rest rowType row id,
    (run n m).todo = .perform (.mk label (.context action)) nested :: rest →
    (action = .deleteRow name rowType row ∨
      ∃ content, action = .updateRow name rowType row content) →
    (run n m).world.context? name = some c →
    (run n m).world.row? row = some id →
    (run (n + 2) m).reply = .flag ((run n m).written? c).isSome

theorem posts_of_save {n : ℕ} {label : Json} {name : String} {nested : Bool}
    {rest : List Task}
    (save : (run n m).todo =
      .perform (.mk label (.context (.saveContext name))) nested :: rest)
    (found : (run n m).world.context? name = some c)
    (unsaved : (run n m).world.unsaved c ≠ []) :
    ∃ j, m.PostsSave c n j ((run n m).world.unsaved c).eraseDups
      (.finish label [.context c] nested :: rest) := by
  obtain ⟨htodo, hjournal⟩ := step_save_of_ne_nil save found unsaved
  rw [← run_succ] at htodo hjournal
  rw [saveEvent_eq] at htodo hjournal
  obtain ⟨j, hwaits⟩ := exists_waits_cons htodo
  have hstep := step_of_todo_cons hwaits.turn
  refine ⟨j, ⟨hwaits.lt, ⟨_, _, hjournal, htodo⟩, hwaits.above, ?_, ?_⟩⟩
  · rw [run_succ, hstep]
    rfl
  · rw [run_succ, hstep]
    rfl

theorem silent_of_save {n : ℕ} {label : Json} {name : String} {nested : Bool}
    {rest : List Task}
    (save : (run n m).todo =
      .perform (.mk label (.context (.saveContext name))) nested :: rest)
    (found : (run n m).world.context? name = some c)
    (unsaved : (run n m).world.unsaved c = []) :
    run (n + 2) m =
      ⟨(run n m).world, .finish label [] nested :: rest, .number 0⟩ := by
  have hstep := step_save_of_nil save found unsaved
  rw [← run_succ] at hstep
  have htodo : (run (n + 1) m).todo =
      .answer (.number 0) :: .finish label [] nested :: rest := by rw [hstep]
  rw [run_succ, step_of_todo_cons htodo, hstep]
  rfl

theorem isSome_rowChange? {w : World} {kind : ChangeKind} {context : String}
    {rowType : RowType} {row : String} {id : RowId}
    (context? : w.context? context = some c) (row? : w.row? row = some id) :
    (w.rowChange? c kind context rowType row).isSome =
      (w.memory c).holds rowType id := by
  cases hid : (w.memory c).holds rowType id <;>
    simp [World.rowChange?, context?, row?, hid]

theorem answers_of_write {n : ℕ} {label : Json} {action : ContextAction}
    {name : String} {nested : Bool} {rest : List Task} {rowType : RowType}
    {row : String} {id : RowId}
    (write : (run n m).todo =
      .perform (.mk label (.context action)) nested :: rest)
    (writes : action = .deleteRow name rowType row ∨
      ∃ content, action = .updateRow name rowType row content)
    (found : (run n m).world.context? name = some c)
    (foundRow : (run n m).world.row? row = some id) :
    (run (n + 2) m).reply = .flag ((run n m).written? c).isSome := by
  have hreply {flag : Bool} (h : (run n m).step.todo =
      .answer (.flag flag) :: .finish label [] nested :: rest) :
      (run (n + 2) m).reply = .flag flag := by
    rw [← run_succ] at h
    rw [run_succ, step_of_todo_cons h]
    rfl
  have hwritten : (run n m).written? c =
      (run n m).world.written? c (.context action) := by
    rw [written?, write]
    rfl
  rw [hwritten]
  rcases writes with rfl | ⟨content, rfl⟩
  · rw [World.written?, isSome_rowChange? found foundRow]
    apply hreply
    apply step_writing .deleted
      (f := fun memory => memory.delete rowType id) write
    simp only [begin, beginContext, found, foundRow, needed, bind, Except.bind]
  · rw [World.written?, isSome_rowChange? found foundRow]
    apply hreply
    apply step_writing .updated
      (f := fun memory => memory.update rowType id content) write
    simp only [begin, beginContext, found, foundRow, needed, bind, Except.bind]

/-- Along every run of a client, whatever its listeners write and save while a
save is announced, the saves of a context lose no change of its rows and
announce none twice. -/
theorem saves_once (commands : List Command) (c : Ref .context) :
    (ofCommands commands).SavesOnce c := by
  constructor
  case posts =>
    intro l n label name nested rest save found since written
    rw [← since.unsaved] at written ⊢
    exact posts_of_save save found written
  case silent =>
    intro l n label name nested rest save found since written
    rw [← since.unsaved] at written
    exact silent_of_save save found written
  case affects =>
    intro l n origin entity
    simp only [ContextChange.affects, List.any_eq_true, decide_eq_true_eq,
      List.mem_eraseDups, mem_writes]
    constructor
    · rintro ⟨change, ⟨i, hli, hin, hi⟩, hentity⟩
      exact ⟨i, change, hli, hin, hi, hentity⟩
    · rintro ⟨i, change, hli, hin, hi, hentity⟩
      exact ⟨change, ⟨i, hli, hin, hi⟩, hentity⟩
  case hasChanges =>
    intro l n since
    have hchanges : ((run n (ofCommands commands)).world.memory c).hasChanges ↔
        ∃ change, change ∈ (ofCommands commands).writes c l n := by
      rw [← since.unsaved, ← List.isEmpty_eq_false_iff_exists_mem]
      simp [MemoryContext.hasChanges]
    rw [hchanges]
    simp only [mem_writes, Option.ne_none_iff_exists']
    constructor
    · rintro ⟨change, i, hli, hin, hi⟩
      exact ⟨i, hli, hin, change, hi⟩
    · rintro ⟨i, hli, hin, change, hi⟩
      exact ⟨change, i, hli, hin, hi⟩
  case since =>
    intro n
    obtain ⟨l, hl⟩ := exists_sinceSave (ofCommands commands) c n
    exact ⟨l, hl, fun l' hl' => hl'.unique hl⟩
  case once =>
    intro i k written hik saves
    obtain ⟨n, ⟨hin, hsaves⟩, hfirst⟩ :=
      exists_first_save hik saves
    have hreports := (reports_iff written).mpr ⟨hin, hsaves, hfirst⟩
    exact ⟨n, ⟨hreports, hfirst⟩, fun n' h => h.1.unique hreports⟩
  case answers =>
    intro n label action name nested rest rowType row id write writes found
      foundRow
    exact answers_of_write write writes found foundRow

end Machine
end LiveProperty
