/-!
# Caches

A cache holds at most one value, the outcome of one expensive read, until it is told that what was read has
changed.  A read that finds the cache empty fetches, and the fetch may run any code, among it an invalidation of
the very cache.  So every invalidation moves on to a new generation, and `settle` stores the fetched value only
if the generation is still the one in which the fetch began.
-/

namespace LiveProperty

/-- A cache: the value, if one is held, and the number of invalidations so far as a 64-bit word. -/
structure Cache (α : Type) where
  value : Option α := none
  generation : UInt64 := 0

namespace Cache

variable {α : Type}

instance : Inhabited (Cache α) := ⟨{}⟩

/-- Whether a value is held. -/
def isPopulated (c : Cache α) : Bool :=
  c.value.isSome

/-- Forgets the value and begins a new generation. -/
def invalidate (c : Cache α) : Cache α :=
  { value := none, generation := c.generation + 1 }

/-- Takes in a value whose fetch began in the given generation. -/
def settle (c : Cache α) (began : UInt64) (value : α) : Cache α :=
  if c.generation = began then { c with value := some value } else c

@[simp] theorem value_invalidate (c : Cache α) : c.invalidate.value = none := rfl

@[simp] theorem generation_invalidate (c : Cache α) : c.invalidate.generation = c.generation + 1 := rfl

theorem settle_of_eq {c : Cache α} {began : UInt64} (h : c.generation = began) (value : α) :
    (c.settle began value).value = some value := by
  simp [settle, h]

theorem settle_of_ne {c : Cache α} {began : UInt64} (h : c.generation ≠ began) (value : α) :
    c.settle began value = c := by
  simp [settle, h]

@[simp] theorem generation_settle (c : Cache α) (began : UInt64) (value : α) :
    (c.settle began value).generation = c.generation := by
  unfold settle; split <;> rfl

end Cache

end LiveProperty
