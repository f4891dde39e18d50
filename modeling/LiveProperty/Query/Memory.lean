import LiveProperty.Dictionary
import LiveProperty.Json.Basic
import LiveProperty.Query.Change

/-!
# Rows in memory

Rows are kept in one table per entity name, in the order in which they were inserted.  Writes take effect at once
and are remembered as unsaved changes.  Several row types may share an entity name, and so a table, and an update
may replace a row of one type by a row of another.
-/

namespace LiveProperty

/-- A row type: its own name, and the name of the entity that its rows are stored under. -/
structure RowType where
  name : String
  entity : String
  deriving DecidableEq, Repr

/-- A stored row, with the type that it was written at. -/
structure Record where
  rowType : RowType
  content : Json

/-- The number of a row, a 64-bit word. -/
structure RowId where
  number : UInt64
  deriving DecidableEq, Repr

/-- The rows of one entity, in order. -/
abbrev Table := List (RowId × Record)

namespace Table

/-- The row with a number. -/
def find? : Table → RowId → Option Record
  | [], _ => none
  | (i, r) :: rest, id => if i = id then some r else find? rest id

/-- Puts a row under a number, behind all others unless the number is in use. -/
def put : Table → RowId → Record → Table
  | [], id, r => [(id, r)]
  | (i, old) :: rest, id, r => if i = id then (id, r) :: rest else (i, old) :: put rest id r

/-- Takes out the row with a number; the others keep their order. -/
def erase (t : Table) (id : RowId) : Table :=
  t.filter fun entry => entry.1 ≠ id

/-- The rows without their numbers. -/
def records (t : Table) : List Record :=
  t.map Prod.snd

theorem find?_put_self (t : Table) (id : RowId) (r : Record) : (t.put id r).find? id = some r := by
  induction t with
  | nil => simp [put, find?]
  | cons entry rest ih =>
    simp only [put]
    split
    · simp [find?]
    · next h => simp [find?, h, ih]

theorem find?_put_of_ne (t : Table) {id other : RowId} (h : other ≠ id) (r : Record) :
    (t.put id r).find? other = t.find? other := by
  induction t with
  | nil => simp [put, find?, Ne.symm h]
  | cons entry rest ih =>
    simp only [put]
    split
    · next hi => simp [find?, hi, Ne.symm h]
    · simp [find?, ih]

theorem find?_erase_self (t : Table) (id : RowId) : (t.erase id).find? id = none := by
  induction t with
  | nil => rfl
  | cons entry rest ih =>
    unfold erase at ih ⊢
    by_cases h : entry.1 = id
    · simpa [h] using ih
    · simpa [h, find?] using ih

theorem find?_erase_of_ne (t : Table) {id other : RowId} (h : other ≠ id) :
    (t.erase id).find? other = t.find? other := by
  induction t with
  | nil => rfl
  | cons entry rest ih =>
    unfold erase at ih ⊢
    by_cases hi : entry.1 = id
    · simpa [hi, find?, Ne.symm h] using ih
    · have hkeep : decide (entry.1 ≠ id) = true := decide_eq_true hi
      rw [List.filter_cons, if_pos hkeep, find?, find?, ih]

end Table

/-- The rows of a context and what it has not yet announced. -/
structure MemoryContext where
  tables : Dictionary Table := []
  unsaved : List EntityChange := []
  inserted : Nat := 0
  deriving Inhabited

namespace MemoryContext

/-- The table of an entity; it is empty until a row is inserted. -/
def table (c : MemoryContext) (entity : String) : Table :=
  (c.tables.find? entity).getD []

/-- Replaces the table of an entity and remembers the change. -/
def write (c : MemoryContext) (kind : ChangeKind) (entity : String) (t : Table) : MemoryContext :=
  { c with tables := c.tables.put entity t, unsaved := c.unsaved ++ [⟨kind, entity⟩] }

/-- The number that the next row gets. -/
def freshRow (c : MemoryContext) : RowId :=
  ⟨.ofNat c.inserted⟩

/-- Inserts a row under the fresh number. -/
def insert (c : MemoryContext) (rowType : RowType) (content : Json) : MemoryContext :=
  let t := (c.table rowType.entity).put c.freshRow ⟨rowType, content⟩
  { c.write .inserted rowType.entity t with inserted := c.inserted + 1 }

/-- Whether a number is in use under the entity of a row type. -/
def holds (c : MemoryContext) (rowType : RowType) (id : RowId) : Bool :=
  ((c.table rowType.entity).find? id).isSome

/-- Replaces a row in its place, if its number is in use. -/
def update (c : MemoryContext) (rowType : RowType) (id : RowId) (content : Json) : MemoryContext :=
  if c.holds rowType id then
    c.write .updated rowType.entity ((c.table rowType.entity).put id ⟨rowType, content⟩)
  else c

/-- Deletes a row, if its number is in use. -/
def delete (c : MemoryContext) (rowType : RowType) (id : RowId) : MemoryContext :=
  if c.holds rowType id then c.write .deleted rowType.entity ((c.table rowType.entity).erase id) else c

/-- The row with a number, if it was written at the row type. -/
def get? (c : MemoryContext) (rowType : RowType) (id : RowId) : Option Json :=
  match (c.table rowType.entity).find? id with
  | some r => if r.rowType = rowType then some r.content else none
  | none => none

/-- How many rows an entity has. -/
def count (c : MemoryContext) (entity : String) : Nat :=
  (c.table entity).length

/-- Whether there are unsaved changes. -/
def hasChanges (c : MemoryContext) : Bool :=
  !c.unsaved.isEmpty

/-- The stored rows of an entity, in order. -/
def records (c : MemoryContext) (entity : String) : List Record :=
  (c.table entity).records

/-- Forgets the unsaved changes, which are now announced. -/
def clearUnsaved (c : MemoryContext) : MemoryContext :=
  { c with unsaved := [] }

/-- A write replaces the table of its entity and no other. -/
theorem table_write (c : MemoryContext) (kind : ChangeKind) (entity other : String) (t : Table) :
    (c.write kind entity t).table other = if other = entity then t else c.table other := by
  unfold write table
  split
  · next h => rw [h, Dictionary.find?_put_self]; rfl
  · next h => rw [Dictionary.find?_put_of_ne _ h]

end MemoryContext

end LiveProperty
