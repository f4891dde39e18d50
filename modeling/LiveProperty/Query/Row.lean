import LiveProperty.Json.Basic
import LiveProperty.Query.Descriptor

/-!
# Rows

Rows are JSON values.  Filters and sorts look at the key of a field, which is there for booleans, whole numbers of
64 bits and texts, and compares in that order; everything else has no key, which comes before all keys.
-/

namespace LiveProperty

/-- What a filter or a sort sees of a value. -/
inductive RowKey where
  | none
  | bool (b : Bool)
  | int (n : Int)
  | text (s : String)
  deriving DecidableEq, Repr

namespace RowKey

/-- The key of a value. -/
def ofJson : Json → RowKey
  | .bool b => .bool b
  | .whole n => if n < 0x8000000000000000 then .int n else .none
  | .text s => .text s
  | _ => .none

/-- The key of a field of a row. -/
def ofField (row : Json) (field : String) : RowKey :=
  (row.field? field).elim .none ofJson

/-- Which group of keys a key belongs to. -/
def rank : RowKey → Nat
  | .none => 0
  | .bool _ => 1
  | .int _ => 2
  | .text _ => 3

/-- Compares two keys: groups first, then false before true, numbers by size, texts by code points. -/
def compare : RowKey → RowKey → Ordering
  | .bool a, .bool b => Ord.compare a.toNat b.toNat
  | .int a, .int b => Ord.compare a b
  | .text a, .text b => compareOfLessAndEq a b
  | a, b => Ord.compare a.rank b.rank

end RowKey

/-- Whether one text occurs in another. -/
def occursIn (part : List Char) : List Char → Bool
  | [] => part.isEmpty
  | c :: rest => part.isPrefixOf (c :: rest) || occursIn part rest

/-- How a filter looks at a key; an unknown test passes nothing. -/
inductive RowTest where
  | eq
  | lt
  | ge
  | contains
  | unknown
  deriving DecidableEq, Repr

/-- Whether a key passes a test against another. -/
def RowTest.holds : RowTest → RowKey → RowKey → Bool
  | .eq, a, b => a = b
  | .lt, a, b => a.compare b = .lt
  | .ge, a, b => a.compare b ≠ .lt
  | .contains, .text a, .text b => occursIn b.toList a.toList
  | .contains, _, _ => false
  | .unknown, _, _ => false

/-- A filter of rows. -/
inductive RowFilter where
  | all (parts : List RowFilter)
  | any (parts : List RowFilter)
  | not (part : RowFilter)
  | field (name : String) (test : RowTest) (value : Json)

namespace RowFilter

mutual

/-- Whether a row passes a filter. -/
def test (row : Json) : RowFilter → Bool
  | .all parts => testAll row parts
  | .any parts => testAny row parts
  | .not part => !test row part
  | .field name t value => t.holds (RowKey.ofField row name) (RowKey.ofJson value)

/-- Whether a row passes every filter of a list. -/
def testAll (row : Json) : List RowFilter → Bool
  | [] => true
  | part :: rest => test row part && testAll row rest

/-- Whether a row passes some filter of a list. -/
def testAny (row : Json) : List RowFilter → Bool
  | [] => false
  | part :: rest => test row part || testAny row rest

end

end RowFilter

/-- Sorts rows by the key of a field. -/
def sortByKey (field : String) (order : SortOrder) : SortCriterion Json :=
  ⟨fun a b => (RowKey.ofField a field).compare (RowKey.ofField b field), order⟩

/-- The length of the text in a field; other fields count as empty. -/
def fieldLength (row : Json) (field : String) : Nat :=
  match RowKey.ofField row field with
  | .text s => s.length
  | _ => 0

/-- Sorts rows by the length of the text in a field. -/
def sortByLength (field : String) (order : SortOrder) : SortCriterion Json :=
  ⟨fun a b => Ord.compare (fieldLength a field) (fieldLength b field), order⟩

end LiveProperty
