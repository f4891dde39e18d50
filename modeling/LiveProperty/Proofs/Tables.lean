import LiveProperty.Query.Context
import Mathlib.Data.List.Basic

/-!
# Tables of rows

A context finds a row by the name of its entity and by its number.  Each
operation on rows changes what is found under one name and number and
nothing else.  While no two rows of a table have the same number, a table is
what is found in it, in the order of the numbers.
-/

namespace LiveProperty

/-- An operation on the rows of a context. -/
inductive RowOperation where
  | insert (record : Record)
  | update (id : RowId) (record : Record)
  | delete (id : RowId) (rowType : RowType)

/-- Whether an operation takes a new number. -/
def RowOperation.inserts : RowOperation → Bool
  | .insert _ => true
  | .update _ _ => false
  | .delete _ _ => false

namespace Table

variable {t : Table} {id : RowId} {record : Record}

/-- The rows are in the order of their numbers, all of which are different. -/
def Ordered (t : Table) : Prop :=
  t.Pairwise fun x y => x.1.number < y.1.number

theorem mem_of_find?_eq_some (h : t.find? id = some record) :
    (id, record) ∈ t := by
  induction t with
  | nil => cases h
  | cons entry rest ih =>
    obtain ⟨i, r⟩ := entry
    rw [find?] at h
    split at h
    · next hi =>
      cases h
      rw [hi]
      exact List.mem_cons_self
    · exact List.mem_cons_of_mem _ (ih h)

/-- A row is found under its number. -/
theorem Ordered.find?_eq_some_iff (h : t.Ordered) :
    t.find? id = some record ↔ (id, record) ∈ t := by
  refine ⟨mem_of_find?_eq_some, fun hmem => ?_⟩
  induction t with
  | nil => exact absurd hmem List.not_mem_nil
  | cons entry rest ih =>
    obtain ⟨hfirst, hrest⟩ := List.pairwise_cons.mp h
    obtain ⟨i, r⟩ := entry
    rw [find?]
    rcases List.mem_cons.mp hmem with heq | hmem
    · cases heq
      exact if_pos rfl
    · have hlt : i.number < id.number := hfirst _ hmem
      have hne : i ≠ id := by
        rintro rfl
        exact Std.lt_irrefl hlt
      rw [if_neg hne]
      exact ih hrest hmem

theorem find?_isSome_iff : (t.find? id).isSome ↔ id ∈ t.map Prod.fst := by
  induction t with
  | nil => simp [find?]
  | cons entry rest ih =>
    obtain ⟨i, r⟩ := entry
    rw [find?, List.map_cons, List.mem_cons]
    split
    · next hi => simp [hi]
    · next hi => rw [ih, or_iff_right (Ne.symm hi)]

/-- A row that is replaced keeps its place. -/
theorem map_fst_put (h : (t.find? id).isSome) :
    (t.put id record).map Prod.fst = t.map Prod.fst := by
  induction t with
  | nil => cases h
  | cons entry rest ih =>
    obtain ⟨i, r⟩ := entry
    rw [find?] at h
    rw [put]
    split
    · next hi => rw [List.map_cons, List.map_cons, hi]
    · next hi =>
      rw [if_neg hi] at h
      rw [List.map_cons, List.map_cons, ih h]

/-- A row under a new number comes last. -/
theorem put_of_new (h : (t.find? id).isSome = false) :
    t.put id record = t ++ [(id, record)] := by
  induction t with
  | nil => rfl
  | cons entry rest ih =>
    obtain ⟨i, r⟩ := entry
    rw [find?] at h
    rw [put]
    split
    · next hi => simp [hi] at h
    · next hi =>
      rw [if_neg hi] at h
      rw [ih h, List.cons_append]

theorem erase_of_new (h : (t.find? id).isSome = false) : t.erase id = t := by
  apply List.filter_eq_self.mpr
  rintro ⟨i, r⟩ hmem
  apply decide_eq_true
  rintro rfl
  have hheld : (t.find? i).isSome := by
    rw [find?_isSome_iff]
    exact List.mem_map_of_mem hmem
  rw [h] at hheld
  cases hheld

theorem ordered_iff_map : t.Ordered ↔
    (t.map Prod.fst).Pairwise fun i j => i.number < j.number := by
  rw [List.pairwise_map]
  rfl

theorem Ordered.nodup (h : t.Ordered) : (t.map Prod.fst).Nodup := by
  rw [ordered_iff_map] at h
  apply h.imp
  rintro i j hlt rfl
  exact Std.lt_irrefl hlt

theorem Ordered.put (h : t.Ordered) (held : (t.find? id).isSome) :
    (t.put id record).Ordered := by
  rw [ordered_iff_map, map_fst_put held]
  exact ordered_iff_map.mp h

/-- A row under a number that is greater than all others keeps the order. -/
theorem Ordered.put_last (h : t.Ordered)
    (last : ∀ x ∈ t, x.1.number < id.number) : (t.put id record).Ordered := by
  have hnew : (t.find? id).isSome = false := by
    rw [← Bool.not_eq_true, find?_isSome_iff, List.mem_map]
    rintro ⟨x, hx, rfl⟩
    exact Std.lt_irrefl (last x hx)
  rw [put_of_new hnew]
  apply List.pairwise_append.mpr
  refine ⟨h, List.pairwise_singleton _ _, fun x hx y hy => ?_⟩
  rw [List.mem_singleton.mp hy]
  exact last x hx

theorem Ordered.erase (h : t.Ordered) : (t.erase id).Ordered :=
  h.filter _

end Table

namespace MemoryContext

variable {c : MemoryContext} {op : RowOperation} {entity : String}
  {id : RowId}

/-- What an operation makes of a context. -/
def carryOut (c : MemoryContext) : RowOperation → MemoryContext
  | .insert record => c.insert record.rowType record.content
  | .update id record => c.update record.rowType id record.content
  | .delete id rowType => c.delete rowType id

/-- What an operation is remembered as, if there is the row that it needs. -/
def change? (c : MemoryContext) : RowOperation → Option EntityChange
  | .insert record => some ⟨.inserted, record.rowType.entity⟩
  | .update id record =>
    if c.holds record.rowType id then some ⟨.updated, record.rowType.entity⟩
    else none
  | .delete id rowType =>
    if c.holds rowType id then some ⟨.deleted, rowType.entity⟩ else none

theorem unsaved_carryOut (c : MemoryContext) (op : RowOperation) :
    (c.carryOut op).unsaved = c.unsaved ++ (c.change? op).toList := by
  cases op with
  | insert record => rfl
  | update id record =>
    simp only [carryOut, update, change?]
    split
    · rfl
    · exact (List.append_nil _).symm
  | delete id rowType =>
    simp only [carryOut, delete, change?]
    split
    · rfl
    · exact (List.append_nil _).symm

theorem inserted_carryOut (c : MemoryContext) (op : RowOperation) :
    (c.carryOut op).inserted = c.inserted + if op.inserts then 1 else 0 := by
  cases op with
  | insert record => rfl
  | update id record =>
    simp only [carryOut, update]
    split <;> rfl
  | delete id rowType =>
    simp only [carryOut, delete]
    split <;> rfl

theorem get?_eq_some_iff {rowType : RowType} {content : Json} :
    c.get? rowType id = some content ↔
      (c.table rowType.entity).find? id = some ⟨rowType, content⟩ := by
  unfold get?
  split
  · next r hr =>
    rw [hr]
    obtain ⟨t, x⟩ := r
    by_cases ht : t = rowType <;> simp [ht]
  · next hnone => simp [hnone]

/-! ## The table after an operation -/

theorem table_insert (record : Record) :
    (c.carryOut (.insert record)).table entity =
      if entity = record.rowType.entity then
        (c.table record.rowType.entity).put c.freshRow record
      else c.table entity :=
  c.table_write .inserted record.rowType.entity entity _

theorem table_update (id : RowId) (record : Record) :
    (c.carryOut (.update id record)).table entity =
      if entity = record.rowType.entity ∧ c.holds record.rowType id then
        (c.table record.rowType.entity).put id record
      else c.table entity := by
  simp only [carryOut, update]
  split
  · next h => simp [h, table_write]
  · next h => simp [h]

theorem table_delete (id : RowId) (rowType : RowType) :
    (c.carryOut (.delete id rowType)).table entity =
      if entity = rowType.entity then (c.table rowType.entity).erase id
      else c.table entity := by
  simp only [carryOut, delete]
  split
  · next h => rw [table_write]
  · next h =>
    have hnew : ((c.table rowType.entity).find? id).isSome = false :=
      Bool.eq_false_iff.mpr h
    rw [Table.erase_of_new hnew]
    split
    · next hentity => rw [hentity]
    · rfl

/-! ## What is found after an operation -/

/-- An insertion is found under the fresh number. -/
theorem find?_insert (record : Record) :
    ((c.carryOut (.insert record)).table entity).find? id =
      if entity = record.rowType.entity ∧ id = c.freshRow then some record
      else (c.table entity).find? id := by
  rw [table_insert]
  split
  · next h =>
    rw [h]
    by_cases hid : id = c.freshRow
    · simp [hid, Table.find?_put_self]
    · simp [hid, Table.find?_put_of_ne]
  · next h => simp [h]

/-- An update is found under its number, if something was before. -/
theorem find?_update (id' : RowId) (record : Record) :
    ((c.carryOut (.update id' record)).table entity).find? id =
      if entity = record.rowType.entity ∧ id = id' ∧
          ((c.table entity).find? id).isSome then some record
      else (c.table entity).find? id := by
  rw [table_update, holds]
  by_cases hentity : entity = record.rowType.entity
  · subst hentity
    by_cases hid : id = id'
    · subst hid
      split
      · next h => simp [h.2, Table.find?_put_self]
      · next h => simp_all
    · split <;> simp [hid, Table.find?_put_of_ne]
  · simp [hentity]

/-- Nothing is found under a number that was deleted. -/
theorem find?_delete (id' : RowId) (rowType : RowType) :
    ((c.carryOut (.delete id' rowType)).table entity).find? id =
      if entity = rowType.entity ∧ id = id' then none
      else (c.table entity).find? id := by
  rw [table_delete]
  split
  · next h =>
    rw [h]
    by_cases hid : id = id'
    · simp [hid, Table.find?_erase_self]
    · simp [hid, Table.find?_erase_of_ne]
  · next h => simp [h]

end MemoryContext

/-! ## Rows of one type -/

/-- Stored rows are read at a row type if all of them were written at it. -/
theorem contentsAs_of_forall {rowType : RowType} {records : List Record}
    (h : ∀ r ∈ records, r.rowType = rowType) :
    contentsAs rowType records = .ok (records.map Record.content) := by
  induction records with
  | nil => rfl
  | cons r rest ih =>
    have hrest : contentsAs rowType rest = .ok (rest.map Record.content) :=
      ih fun x hx => h x (List.mem_cons_of_mem r hx)
    rw [contentsAs, if_pos (h r List.mem_cons_self), hrest]
    rfl

/-- One stored row of another type makes the read fail, wherever it is. -/
theorem contentsAs_of_exists {rowType : RowType} {records : List Record}
    (h : ∃ r ∈ records, r.rowType ≠ rowType) :
    contentsAs rowType records = .error
      (.queryExecution rowType.entity "stored record has a different type") := by
  obtain ⟨r, hr, hne⟩ := h
  induction records with
  | nil => exact absurd hr List.not_mem_nil
  | cons first rest ih =>
    rw [contentsAs]
    split
    · next hfirst =>
      rcases List.mem_cons.mp hr with rfl | hr
      · exact absurd hfirst hne
      · rw [ih hr]
        rfl
    · rfl

end LiveProperty
