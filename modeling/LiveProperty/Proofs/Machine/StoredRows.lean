import LiveProperty.Proofs.Machine.RowWrites
import Mathlib.Data.Nat.Count

/-!
# Stored rows

Which rows a context stores is told from the operations of a run alone: a
number is live from the step that inserts a row under it until it is deleted,
and holds what was written to it last.  `find?_table_iff` says that a context
finds exactly these rows, and `ordered_table` that its tables are in the order
of insertion, as long as there are numbers left.
-/

namespace LiveProperty
namespace Machine

variable {m : Machine} {c : Ref .context} {entity : String} {id : RowId}
  {record : Record} {i n : ℕ}

/-- How many rows were inserted into a context before a step of a run. -/
def insertions (m : Machine) (c : Ref .context) (n : ℕ) : ℕ :=
  Nat.count (fun k => ((run k m).operation? c).any RowOperation.inserts) n

/-- The number of a row that is inserted at a step: how many were inserted
before. -/
def rowNumber (m : Machine) (c : Ref .context) (n : ℕ) : RowId :=
  ⟨.ofNat (m.insertions c n)⟩

/-- A step of a run inserts a row under an entity and a number. -/
def Inserts (m : Machine) (c : Ref .context) (entity : String) (id : RowId)
    (i : ℕ) : Prop :=
  ∃ record, (run i m).operation? c = some (.insert record) ∧
    record.rowType.entity = entity ∧ id = m.rowNumber c i

/-- A step of a run deletes what there is under an entity and a number. -/
def Deletes (m : Machine) (c : Ref .context) (entity : String) (id : RowId)
    (i : ℕ) : Prop :=
  ∃ rowType, (run i m).operation? c = some (.delete id rowType) ∧
    rowType.entity = entity

/-- A step of a run writes a row under its entity and a number. -/
def WritesRow (m : Machine) (c : Ref .context) (id : RowId) (record : Record)
    (i : ℕ) : Prop :=
  (run i m).operation? c = some (.insert record) ∧ id = m.rowNumber c i ∨
    (run i m).operation? c = some (.update id record)

/-- A row was inserted at one step and not deleted before another. -/
structure LiveSince (m : Machine) (c : Ref .context) (entity : String)
    (id : RowId) (i n : ℕ) : Prop where
  lt : i < n
  inserts : m.Inserts c entity id i
  kept : ∀ k, i < k → k < n → ¬ m.Deletes c entity id k

/-- A number was inserted under an entity and not deleted yet. -/
def Live (m : Machine) (c : Ref .context) (entity : String) (id : RowId)
    (n : ℕ) : Prop :=
  ∃ i, m.LiveSince c entity id i n

/-- A row is what was last written to a live number. -/
structure LastWritten (m : Machine) (c : Ref .context) (entity : String)
    (id : RowId) (record : Record) (i j n : ℕ) : Prop where
  live : m.LiveSince c entity id i n
  le : i ≤ j
  lt : j < n
  entity_eq : record.rowType.entity = entity
  writes : m.WritesRow c id record j
  last : ∀ k, j < k → k < n → ∀ other, other.rowType.entity = entity →
    ¬ m.WritesRow c id other k

/-- A live number holds the row that was last written to it. -/
def Holds (m : Machine) (c : Ref .context) (entity : String) (id : RowId)
    (record : Record) (n : ℕ) : Prop :=
  ∃ i j, m.LastWritten c entity id record i j n

/-! ## What a step does to live numbers -/

theorem liveSince_succ_iff :
    m.LiveSince c entity id i (n + 1) ↔
      i = n ∧ m.Inserts c entity id n ∨
        m.LiveSince c entity id i n ∧ ¬ m.Deletes c entity id n := by
  constructor
  · rintro ⟨lt, inserts, kept⟩
    rcases Nat.lt_succ_iff_lt_or_eq.mp lt with hlt | rfl
    · refine Or.inr ⟨⟨hlt, inserts, fun k hik hkn => ?_⟩, ?_⟩
      · exact kept k hik (Nat.lt_succ_of_lt hkn)
      · exact kept n hlt (Nat.lt_succ_self n)
    · exact Or.inl ⟨rfl, inserts⟩
  · rintro (⟨rfl, inserts⟩ | ⟨⟨lt, inserts, kept⟩, hnow⟩)
    · exact ⟨Nat.lt_succ_self i, inserts, fun k hik hki => by omega⟩
    · refine ⟨Nat.lt_succ_of_lt lt, inserts, fun k hik hkn => ?_⟩
      rcases Nat.lt_succ_iff_lt_or_eq.mp hkn with hlt | rfl
      · exact kept k hik hlt
      · exact hnow

theorem live_succ_iff :
    m.Live c entity id (n + 1) ↔
      m.Inserts c entity id n ∨
        m.Live c entity id n ∧ ¬ m.Deletes c entity id n := by
  simp only [Live, liveSince_succ_iff]
  constructor
  · rintro ⟨i, ⟨-, inserts⟩ | ⟨live, kept⟩⟩
    · exact Or.inl inserts
    · exact Or.inr ⟨⟨i, live⟩, kept⟩
  · rintro (inserts | ⟨⟨i, live⟩, kept⟩)
    · exact ⟨n, Or.inl ⟨rfl, inserts⟩⟩
    · exact ⟨i, Or.inr ⟨live, kept⟩⟩

/-- After a step a number holds what the step wrote to it, or what it held if
the step left it alone. -/
theorem holds_succ_iff :
    m.Holds c entity id record (n + 1) ↔
      (record.rowType.entity = entity ∧ m.WritesRow c id record n ∧
        m.Live c entity id (n + 1)) ∨
      (m.Holds c entity id record n ∧ ¬ m.Deletes c entity id n ∧
        ∀ other, other.rowType.entity = entity →
          ¬ m.WritesRow c id other n) := by
  constructor
  · rintro ⟨i, j, live, le, lt, entity_eq, writes, last⟩
    rcases Nat.lt_succ_iff_lt_or_eq.mp lt with hlt | rfl
    · rcases liveSince_succ_iff.mp live with ⟨rfl, -⟩ | ⟨live, kept⟩
      · exact absurd hlt (Nat.not_lt_of_ge le)
      · refine Or.inr ⟨⟨i, j, live, le, hlt, entity_eq, writes, ?_⟩, kept, ?_⟩
        · exact fun k hjk hkn => last k hjk (Nat.lt_succ_of_lt hkn)
        · exact last n hlt (Nat.lt_succ_self n)
    · exact Or.inl ⟨entity_eq, writes, i, live⟩
  · rintro (⟨entity_eq, writes, i, live⟩ |
      ⟨⟨i, j, live, le, lt, entity_eq, writes, last⟩, kept, hnow⟩)
    · exact ⟨i, n, live, Nat.le_of_lt_succ live.lt, Nat.lt_succ_self n,
        entity_eq, writes, fun k hnk hkn => by omega⟩
    · refine ⟨i, j, liveSince_succ_iff.mpr (Or.inr ⟨live, kept⟩), le,
        Nat.lt_succ_of_lt lt, entity_eq, writes, fun k hjk hkn => ?_⟩
      rcases Nat.lt_succ_iff_lt_or_eq.mp hkn with hlt | rfl
      · exact last k hjk hlt
      · exact hnow

/-- A number that is live holds a row, and no other one does. -/
theorem live_iff : m.Live c entity id n ↔ ∃ record,
    m.Holds c entity id record n := by
  constructor
  · intro h
    induction n with
    | zero =>
      obtain ⟨i, live⟩ := h
      exact absurd live.lt (Nat.not_lt_zero i)
    | succ n ih =>
      simp only [holds_succ_iff]
      by_cases hwrites : ∃ record, record.rowType.entity = entity ∧
          m.WritesRow c id record n
      · obtain ⟨record, entity_eq, writes⟩ := hwrites
        exact ⟨record, Or.inl ⟨entity_eq, writes, h⟩⟩
      · rcases live_succ_iff.mp h with ⟨record, hinsert, entity_eq, hid⟩ |
          ⟨live, kept⟩
        · exact absurd ⟨record, entity_eq, Or.inl ⟨hinsert, hid⟩⟩ hwrites
        · obtain ⟨record, holds⟩ := ih live
          exact ⟨record, Or.inr ⟨holds, kept, fun other entity_eq writes =>
            hwrites ⟨other, entity_eq, writes⟩⟩⟩
  · rintro ⟨record, i, j, holds⟩
    exact ⟨i, holds.live⟩

/-! ## What a context finds -/

variable {commands : List Command}

/-- A save leaves the tables alone, and any other step carries out what its
command does. -/
theorem table_succ (commands : List Command) (c : Ref .context)
    (entity : String) (n : ℕ) :
    ((run (n + 1) (ofCommands commands)).world.memory c).table entity =
      (((run n (ofCommands commands)).operation? c).elim
        ((run n (ofCommands commands)).world.memory c)
        ((run n (ofCommands commands)).world.memory c).carryOut).table
          entity := by
  rw [memory_succ]
  split
  · next hsaves =>
    rw [operation?_of_saves hsaves]
    rfl
  · rfl

theorem inserted_eq_insertions (commands : List Command) (c : Ref .context)
    (n : ℕ) :
    ((run n (ofCommands commands)).world.memory c).inserted =
      (ofCommands commands).insertions c n := by
  induction n with
  | zero => rfl
  | succ n ih =>
    rw [memory_succ, insertions, Nat.count_succ, ← insertions, ← ih]
    split
    · next hsaves =>
      rw [operation?_of_saves hsaves]
      rfl
    · cases (run n (ofCommands commands)).operation? c with
      | none => rfl
      | some op => exact MemoryContext.inserted_carryOut _ op

theorem freshRow_eq_rowNumber (commands : List Command) (c : Ref .context)
    (n : ℕ) :
    ((run n (ofCommands commands)).world.memory c).freshRow =
      (ofCommands commands).rowNumber c n := by
  rw [MemoryContext.freshRow, inserted_eq_insertions, rowNumber]

/-- A context finds the rows that live numbers hold, and no others. -/
theorem find?_table_iff (commands : List Command) (c : Ref .context)
    (entity : String) (id : RowId) (record : Record) (n : ℕ) :
    (((run n (ofCommands commands)).world.memory c).table entity).find? id =
        some record ↔
      (ofCommands commands).Holds c entity id record n := by
  induction n generalizing record with
  | zero =>
    constructor
    · intro h
      cases h
    · rintro ⟨i, j, h⟩
      exact absurd h.lt (Nat.not_lt_zero j)
  | succ n ih =>
    have hlive : ((((run n (ofCommands commands)).world.memory c).table
        entity).find? id).isSome ↔
          (ofCommands commands).Live c entity id n := by
      rw [Option.isSome_iff_exists, live_iff]
      exact exists_congr ih
    rw [table_succ, holds_succ_iff, live_succ_iff, ← ih]
    unfold WritesRow Deletes Inserts
    rw [← freshRow_eq_rowNumber]
    -- What the step writes is found if it is under this entity and number,
    -- and anything else is found as before.
    cases (run n (ofCommands commands)).operation? c with
    | none => simp
    | some op =>
      rw [Option.elim_some]
      cases op with
      | insert new =>
        rw [MemoryContext.find?_insert]
        split <;> grind
      | update id' new =>
        rw [MemoryContext.find?_update]
        split <;> grind
      | delete id' rowType =>
        rw [MemoryContext.find?_delete]
        split <;> grind

theorem isSome_find?_table_iff (commands : List Command) (c : Ref .context)
    (entity : String) (id : RowId) (n : ℕ) :
    ((((run n (ofCommands commands)).world.memory c).table entity).find?
        id).isSome ↔ (ofCommands commands).Live c entity id n := by
  rw [Option.isSome_iff_exists, live_iff]
  exact exists_congr fun record => find?_table_iff commands c entity id record n

/-! ## Numbers -/

theorem Inserts.insertions_lt (h : m.Inserts c entity id i) (lt : i < n) :
    m.insertions c i < m.insertions c n := by
  obtain ⟨record, hinsert, -⟩ := h
  apply Nat.count_strict_mono _ lt
  rw [hinsert]
  rfl

theorem toNat_rowNumber (left : m.insertions c n < 2 ^ 64) :
    (m.rowNumber c n).number.toNat = m.insertions c n := by
  rw [rowNumber, UInt64.toNat_ofNat']
  exact Nat.mod_eq_of_lt left

/-- Rows that are inserted later get greater numbers, as long as there are
numbers left. -/
theorem Inserts.number_lt {entity' : String} {id' : RowId}
    (h : m.Inserts c entity id i) (h' : m.Inserts c entity' id' n)
    (lt : i < n) (left : m.insertions c n < 2 ^ 64) :
    id.number < id'.number := by
  have hinsertions := h.insertions_lt lt
  obtain ⟨-, -, -, rfl⟩ := h
  obtain ⟨-, -, -, rfl⟩ := h'
  rw [UInt64.lt_iff_toNat_lt, toNat_rowNumber left,
    toNat_rowNumber (Nat.lt_trans hinsertions left)]
  exact hinsertions

theorem insertions_mono (le : i ≤ n) : m.insertions c i ≤ m.insertions c n :=
  Nat.count_monotone _ le

/-- What is inserted gets a greater number than what is stored. -/
theorem number_lt_of_mem {x : RowId × Record}
    (inserts : (ofCommands commands).Inserts c entity id n)
    (left : (ofCommands commands).insertions c n < 2 ^ 64)
    (stored : x ∈
      ((run n (ofCommands commands)).world.memory c).table entity) :
    x.1.number < id.number := by
  have hlive : (ofCommands commands).Live c entity x.1 n := by
    rw [← isSome_find?_table_iff, Table.find?_isSome_iff]
    exact List.mem_map_of_mem stored
  obtain ⟨i, hlive⟩ := hlive
  exact hlive.inserts.number_lt inserts hlive.lt left

/-- The tables of a context are in the order of their numbers. -/
theorem ordered_table (commands : List Command) (c : Ref .context)
    (entity : String) (n : ℕ)
    (left : (ofCommands commands).insertions c n ≤ 2 ^ 64) :
    (((run n (ofCommands commands)).world.memory c).table entity).Ordered := by
  induction n with
  | zero => exact List.Pairwise.nil
  | succ n ih =>
    have hordered := ih (Nat.le_trans (insertions_mono (Nat.le_succ n)) left)
    rw [table_succ]
    cases hop : (run n (ofCommands commands)).operation? c with
    | none => exact hordered
    | some op =>
      rw [Option.elim_some]
      cases op with
      | insert record =>
        rw [MemoryContext.table_insert]
        split
        · next hentity =>
          subst hentity
          have hinserts : (ofCommands commands).Inserts c
              record.rowType.entity ((ofCommands commands).rowNumber c n) n :=
            ⟨record, hop, rfl, rfl⟩
          have hleft : (ofCommands commands).insertions c n < 2 ^ 64 :=
            Nat.lt_of_lt_of_le
              (hinserts.insertions_lt (Nat.lt_succ_self n)) left
          rw [freshRow_eq_rowNumber]
          exact hordered.put_last fun x hx =>
            number_lt_of_mem hinserts hleft hx
        · exact hordered
      | update id record =>
        rw [MemoryContext.table_update]
        split
        · next h =>
          obtain ⟨rfl, held⟩ := h
          exact hordered.put held
        · exact hordered
      | delete id rowType =>
        rw [MemoryContext.table_delete]
        split
        · next h =>
          subst h
          exact hordered.erase
        · exact hordered

end Machine
end LiveProperty
