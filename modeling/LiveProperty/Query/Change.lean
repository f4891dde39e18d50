import LiveProperty.Pool

/-!
# Changes of persisted data

What a context announces, and what concerns a query.  Entity types are known by name, since a change may come
from elsewhere, where only the name is known.
-/

namespace LiveProperty

/-- How a row changed. -/
inductive ChangeKind where
  | inserted
  | updated
  | deleted
  deriving DecidableEq, Repr

/-- The name of a kind of change. -/
def ChangeKind.name : ChangeKind → String
  | .inserted => "Inserted"
  | .updated => "Updated"
  | .deleted => "Deleted"

/-- The kind of change with a name. -/
def ChangeKind.ofName? (name : String) : Option ChangeKind :=
  [ChangeKind.inserted, .updated, .deleted].find? fun k => k.name = name

/-- A change of rows of one entity type. -/
structure EntityChange where
  kind : ChangeKind
  entity : String
  deriving DecidableEq, Repr

/-- A set of entity names, in strictly increasing order. -/
abbrev EntitySet := List String

/-- Adds a name to a set. -/
def EntitySet.insert : EntitySet → String → EntitySet
  | [], name => [name]
  | first :: rest, name =>
    if name = first then first :: rest
    else if name < first then name :: first :: rest
    else first :: EntitySet.insert rest name

/-- The set of the names in a list. -/
def EntitySet.ofList (names : List String) : EntitySet :=
  names.foldl EntitySet.insert []

theorem EntitySet.mem_insert {s : EntitySet} {name other : String} :
    other ∈ EntitySet.insert s name ↔ other = name ∨ other ∈ s := by
  induction s with
  | nil => exact List.mem_cons
  | cons first rest ih =>
    simp only [EntitySet.insert]
    split
    · next h =>
      rw [h, List.mem_cons]
      exact ⟨Or.inr, fun ho => ho.elim Or.inl id⟩
    · split
      · exact List.mem_cons
      · rw [List.mem_cons, ih, List.mem_cons]
        exact or_left_comm

/-- The set of a list has the elements of the list. -/
theorem EntitySet.mem_ofList {names : List String} {name : String} :
    name ∈ EntitySet.ofList names ↔ name ∈ names := by
  have hfold : ∀ (names : List String) (s : EntitySet),
      name ∈ names.foldl EntitySet.insert s ↔ name ∈ s ∨ name ∈ names := by
    intro names
    induction names with
    | nil => intro s; simp
    | cons first rest ih =>
      intro s
      rw [List.foldl_cons, ih, EntitySet.mem_insert, List.mem_cons]
      constructor
      · rintro ((h | h) | h)
        · exact Or.inr (Or.inl h)
        · exact Or.inl h
        · exact Or.inr (Or.inr h)
      · rintro (h | h | h)
        · exact Or.inl (Or.inr h)
        · exact Or.inl (Or.inl h)
        · exact Or.inr h
  rw [EntitySet.ofList, hfold]
  exact or_iff_right List.not_mem_nil

/-- The elements of a list without repetitions, each where it occurs first. -/
def distinct {α : Type} [DecidableEq α] (xs : List α) : List α :=
  xs.foldl (fun seen x => if seen.contains x then seen else seen ++ [x]) []

theorem mem_distinct {α : Type} [DecidableEq α] {xs : List α} {x : α} : x ∈ distinct xs ↔ x ∈ xs := by
  have hfold : ∀ (xs seen : List α),
      x ∈ xs.foldl (fun seen x => if seen.contains x then seen else seen ++ [x]) seen ↔ x ∈ seen ∨ x ∈ xs := by
    intro xs
    induction xs with
    | nil => intro seen; simp
    | cons first rest ih =>
      intro seen
      rw [List.foldl_cons, ih, List.mem_cons]
      split
      · next h =>
        have hfirst : first ∈ seen := List.contains_iff_mem.mp h
        constructor
        · exact fun hx => hx.imp_right Or.inr
        · rintro (hx | rfl | hx)
          · exact Or.inl hx
          · exact Or.inl hfirst
          · exact Or.inr hx
      · rw [List.mem_append, List.mem_singleton, or_assoc]
  rw [distinct, hfold]
  exact or_iff_right List.not_mem_nil

/-- An announcement that persisted data may have changed. -/
inductive ContextChange where
  /-- A context saved.  The origin is the context, if it lets itself be named; the name keeps nothing alive. -/
  | saved (changes : List EntityChange) (origin : Option (Ref .context))
  /-- Rows of one entity type changed. -/
  | entity (name : String)
  /-- Another process changed these entity types. -/
  | remote (entities : EntitySet)
  /-- Stores came or went, and everything may have changed. -/
  | storesReset
  deriving DecidableEq, Repr

namespace ContextChange

/-- A save of the given changes, without repetitions and without an origin. -/
def ofChanges (changes : List EntityChange) : ContextChange :=
  .saved (distinct changes) none

/-- Names the origin of a save; other announcements have none. -/
def withOrigin : ContextChange → Ref .context → ContextChange
  | .saved changes _, origin => .saved changes (some origin)
  | other, _ => other

/-- The origin of a save, dead or alive. -/
def origin? : ContextChange → Option (Ref .context)
  | .saved _ origin => origin
  | _ => none

/-- Whether rows of an entity type may have changed. -/
def affects : ContextChange → String → Bool
  | .saved changes _, name => changes.any fun c => c.entity = name
  | .entity changed, name => changed = name
  | .remote entities, name => entities.contains name
  | .storesReset, _ => true

/-- Whether nothing is announced as changed. -/
def isEmpty : ContextChange → Bool
  | .saved changes _ => changes.isEmpty
  | .remote entities => entities.isEmpty
  | .entity _ => false
  | .storesReset => false

end ContextChange

end LiveProperty
