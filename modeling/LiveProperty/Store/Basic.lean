import LiveProperty.Dictionary
import LiveProperty.Pool
import LiveProperty.Store.Value

/-!
# Key-value stores

A store holds at most one value under a key, and announces the key of every write on a notifier of its own, also
of one that changes nothing.
-/

namespace LiveProperty

/-- A key-value store.  A labelled one reports its reads in the journal, and then runs a plan. -/
structure Store where
  label : Option String
  suite : Option String
  values : Dictionary StoreValue
  changes : Ref .notifier
  onRead : Option (Ref .plan)

instance : Inhabited Store := ⟨⟨none, none, [], ⟨0⟩, none⟩⟩

/-- The suite of the store that stands in where none is given. -/
def standardSuite : String := "standard"

namespace Store

/-- The value under a key. -/
def find? (s : Store) (key : String) : Option StoreValue :=
  s.values.find? key

/-- How many keys have a value. -/
def size (s : Store) : Nat :=
  s.values.length

/-- Writes a value under a key, or clears the key. -/
def write (s : Store) (key : String) : Option StoreValue → Store
  | some value => { s with values := s.values.put key value }
  | none => { s with values := s.values.erase key }

@[simp] theorem find?_write_self (s : Store) (key : String) (value : Option StoreValue) :
    (s.write key value).find? key = value := by
  cases value with
  | none => exact Dictionary.find?_erase_self s.values key
  | some value => exact Dictionary.find?_put_self s.values key value

theorem find?_write_of_ne (s : Store) {key other : String} (h : other ≠ key) (value : Option StoreValue) :
    (s.write key value).find? other = s.find? other := by
  cases value with
  | none => exact Dictionary.find?_erase_of_ne s.values h
  | some value => exact Dictionary.find?_put_of_ne s.values h value

@[simp] theorem changes_write (s : Store) (key : String) (value : Option StoreValue) :
    (s.write key value).changes = s.changes := by
  cases value <;> rfl

end Store

end LiveProperty
