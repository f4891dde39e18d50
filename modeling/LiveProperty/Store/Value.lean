import LiveProperty.BridgeError
import LiveProperty.Number.Binary
import LiveProperty.Store.Url

/-!
# Stored values

The values that a key-value store can hold.
-/

namespace LiveProperty

/-- A value in a store. -/
inductive StoreValue where
  | int (n : Int64)
  | float (x : Single)
  | double (x : Double)
  | bool (b : Bool)
  | string (s : String)
  | url (u : Url)
  | data (bytes : List UInt8)
  | stringList (items : List String)
  deriving DecidableEq

namespace StoreValue

/-- The name of the kind of value. -/
def kind : StoreValue → String
  | .int _ => "int"
  | .float _ => "float"
  | .double _ => "double"
  | .bool _ => "bool"
  | .string _ => "string"
  | .url _ => "url"
  | .data _ => "data"
  | .stringList _ => "string list"

/-- Equality of stored values: kinds are told apart, and floats compare as numbers. -/
def same : StoreValue → StoreValue → Bool
  | .float x, .float y => x.equal y
  | .double x, .double y => x.equal y
  | a, b => a = b

/-- The error of finding another kind of value than the expected one. -/
def mismatch (expected : String) (found : StoreValue) : BridgeError :=
  .typeMismatch expected found.kind

end StoreValue

end LiveProperty
