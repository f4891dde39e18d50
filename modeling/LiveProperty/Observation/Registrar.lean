import LiveProperty.Dictionary

/-!
# Registrars

A registrar counts the reads and the changes of named properties, and keeps observers that wait for a change of
one of several properties.  A waiting observer is taken out when it is fired, so it fires once.
-/

namespace LiveProperty

/-- The properties that a scope or an observer knows of, each once. -/
abbrev PropertySet := List String

/-- Adds a property to a set. -/
def PropertySet.insert (s : PropertySet) (p : String) : PropertySet :=
  if s.contains p then s else s ++ [p]

theorem PropertySet.mem_insert {s : PropertySet} {p q : String} :
    q ∈ PropertySet.insert s p ↔ q = p ∨ q ∈ s := by
  unfold PropertySet.insert
  split
  · next h =>
    have hp : p ∈ s := List.contains_iff_mem.mp h
    exact ⟨Or.inr, fun hq => hq.elim (fun e => e ▸ hp) id⟩
  · rw [List.mem_append, List.mem_singleton]
    exact Or.comm

/-- An observer that waits for a change of one of its properties.  What it then does is left to the world it
lives in. -/
structure Observer (α : Type) where
  properties : PropertySet
  onChange : α

/-- A registrar: reads and changes counted by property, and the waiting observers, oldest first. -/
structure Registrar (α : Type) where
  accesses : Dictionary Nat := []
  mutations : Dictionary Nat := []
  waiting : List (Observer α) := []

namespace Registrar

variable {α : Type}

instance : Inhabited (Registrar α) := ⟨{}⟩

/-- How often a property was read. -/
def accessCount (r : Registrar α) (p : String) : Nat :=
  (r.accesses.find? p).getD 0

/-- How often a property was changed. -/
def mutationCount (r : Registrar α) (p : String) : Nat :=
  (r.mutations.find? p).getD 0

/-- Counts a read. -/
def countAccess (r : Registrar α) (p : String) : Registrar α :=
  { r with accesses := r.accesses.put p (r.accessCount p + 1) }

/-- Counts a change. -/
def countMutation (r : Registrar α) (p : String) : Registrar α :=
  { r with mutations := r.mutations.put p (r.mutationCount p + 1) }

/-- The observers that a change of a property fires, in the order in which they came. -/
def firedBy (r : Registrar α) (p : String) : List (Observer α) :=
  r.waiting.filter fun o => o.properties.contains p

/-- Takes out the observers that a change of a property fires. -/
def takeFired (r : Registrar α) (p : String) : Registrar α :=
  { r with waiting := r.waiting.filter fun o => !o.properties.contains p }

/-- Lets an observer wait, unless there is nothing that it could wait for. -/
def await (r : Registrar α) (o : Observer α) : Registrar α :=
  if o.properties.isEmpty then r else { r with waiting := r.waiting ++ [o] }

theorem accessCount_countAccess (r : Registrar α) (p q : String) :
    (r.countAccess p).accessCount q = if q = p then r.accessCount p + 1 else r.accessCount q := by
  unfold accessCount countAccess
  split
  · next h => rw [h, Dictionary.find?_put_self]; rfl
  · next h => rw [Dictionary.find?_put_of_ne _ h]

theorem mutationCount_countMutation (r : Registrar α) (p q : String) :
    (r.countMutation p).mutationCount q = if q = p then r.mutationCount p + 1 else r.mutationCount q := by
  unfold mutationCount countMutation
  split
  · next h => rw [h, Dictionary.find?_put_self]; rfl
  · next h => rw [Dictionary.find?_put_of_ne _ h]

@[simp] theorem accessCount_countMutation (r : Registrar α) (p q : String) :
    (r.countMutation p).accessCount q = r.accessCount q := rfl

@[simp] theorem accessCount_takeFired (r : Registrar α) (p q : String) :
    (r.takeFired p).accessCount q = r.accessCount q := rfl

@[simp] theorem accessCount_await (r : Registrar α) (o : Observer α) (q : String) :
    (r.await o).accessCount q = r.accessCount q := by
  unfold await
  split <;> rfl

@[simp] theorem mutationCount_countAccess (r : Registrar α) (p q : String) :
    (r.countAccess p).mutationCount q = r.mutationCount q := rfl

@[simp] theorem mutationCount_takeFired (r : Registrar α) (p q : String) :
    (r.takeFired p).mutationCount q = r.mutationCount q := rfl

@[simp] theorem mutationCount_await (r : Registrar α) (o : Observer α) (q : String) :
    (r.await o).mutationCount q = r.mutationCount q := by
  unfold await
  split <;> rfl

/-- What is fired and what keeps waiting is all that waited. -/
theorem length_firedBy_add_waiting (r : Registrar α) (p : String) :
    (r.firedBy p).length + (r.takeFired p).waiting.length = r.waiting.length := by
  unfold firedBy takeFired
  rw [← List.length_append]
  exact (List.filter_append_perm (fun o => o.properties.contains p) r.waiting).length_eq

end Registrar

end LiveProperty
