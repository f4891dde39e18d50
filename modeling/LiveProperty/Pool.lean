/-!
# Pools

Objects of one species live in a pool and are reached by numbered references.  A pool never gives a number
twice and never forgets an object: whether an object still counts as alive is a question about who refers to
it, not about the pool.
-/

namespace LiveProperty

/-- The species of objects that are reached by reference. -/
inductive Species where
  | cache
  | notifier
  | store
  | registrar
  | hook
  | presenter
  | context
  | keyBridge
  | queryBridge
  | tracker
  | plan
  deriving DecidableEq, Repr

/-- A reference to the object of a species with a given number. -/
structure Ref (s : Species) where
  index : Nat
  deriving DecidableEq, Repr

/-- The objects of one species, with the number that the next one gets. -/
structure Pool (s : Species) (α : Type) where
  entries : List (Nat × α) := []
  next : Nat := 0

namespace Pool

variable {s : Species} {α : Type}

/-- The object behind a reference; references that were never handed out lead to the default object. -/
def get [Inhabited α] (p : Pool s α) (r : Ref s) : α :=
  (p.entries.lookup r.index).getD default

/-- Puts an object behind a reference. -/
def set (p : Pool s α) (r : Ref s) (a : α) : Pool s α :=
  { p with entries := (r.index, a) :: p.entries.filter fun entry => entry.1 ≠ r.index }

/-- Changes the object behind a reference. -/
def modify [Inhabited α] (p : Pool s α) (r : Ref s) (f : α → α) : Pool s α :=
  p.set r (f (p.get r))

/-- The reference that the next object gets. -/
def fresh (p : Pool s α) : Ref s :=
  ⟨p.next⟩

/-- Adds an object behind the fresh reference. -/
def add (p : Pool s α) (a : α) : Pool s α :=
  { p.set p.fresh a with next := p.next + 1 }

/-- The references handed out so far, oldest first. -/
def refs (p : Pool s α) : List (Ref s) :=
  (List.range p.next).map Ref.mk

@[simp] theorem get_set_self [Inhabited α] (p : Pool s α) (r : Ref s) (a : α) :
    (p.set r a).get r = a := by
  simp [get, set]

theorem lookup_filter_ne {l : List (Nat × α)} {i j : Nat} (h : i ≠ j) :
    (l.filter fun entry => entry.1 ≠ j).lookup i = l.lookup i := by
  induction l with
  | nil => rfl
  | cons entry rest ih =>
    obtain ⟨k, a⟩ := entry
    by_cases hk : k = j
    · subst hk
      have hik : (i == k) = false := by simpa using h
      simpa [List.filter_cons, List.lookup_cons, hik] using ih
    · by_cases hi : i = k
      · subst hi; simp [hk]
      · have hik : (i == k) = false := by simpa using hi
        simpa [List.filter_cons, hk, List.lookup_cons, hik] using ih

theorem get_set_of_ne [Inhabited α] (p : Pool s α) {r q : Ref s} (h : q ≠ r) (a : α) :
    (p.set r a).get q = p.get q := by
  obtain ⟨i⟩ := r
  obtain ⟨j⟩ := q
  have hij : j ≠ i := fun e => h (by rw [e])
  have hji : (j == i) = false := by simpa using hij
  simp only [get, set, List.lookup_cons, hji]
  rw [lookup_filter_ne hij]

@[simp] theorem get_add_fresh [Inhabited α] (p : Pool s α) (a : α) : (p.add a).get p.fresh = a := by
  have h := get_set_self p p.fresh a
  simpa [add, get] using h

@[simp] theorem next_add (p : Pool s α) (a : α) : (p.add a).next = p.next + 1 := rfl

@[simp] theorem next_set (p : Pool s α) (r : Ref s) (a : α) : (p.set r a).next = p.next := rfl

end Pool

end LiveProperty
