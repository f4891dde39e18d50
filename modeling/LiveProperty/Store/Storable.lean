import LiveProperty.Json.Tree
import LiveProperty.Json.Written
import LiveProperty.Store.Value

/-!
# Storable kinds

How the values of a property map onto stored values.  Native kinds have a stored kind of their own.
Structured kinds are stored as the bytes of a compact JSON text whose objects are in key order, so equal values
have equal bytes.  An optional kind stores its values as the kind under it does; to store no value is to clear
the entry.
-/

namespace LiveProperty

/-- The kinds of values that a property may have. -/
inductive Storable where
  | int
  | int32
  | single
  | double
  | bool
  | text
  | url
  | data
  | texts
  | profile
  | json
  | big
  | token
  | optional (kind : Storable)
  deriving DecidableEq, Repr

/-- A user profile, the plainest structured value with fields of several kinds. -/
structure Profile where
  name : String
  age : UInt32
  tags : List String
  nick : Option String
  deriving DecidableEq, Repr

/-- An opaque position in a history of transactions. -/
structure HistoryToken where
  bytes : List UInt8
  deriving DecidableEq, Repr

/-- A signed whole number of 128 bits. -/
structure BigInteger where
  value : Int
  lower : -0x80000000000000000000000000000000 ≤ value
  upper : value < 0x80000000000000000000000000000000
  deriving DecidableEq

/-- The number with a value, if it fits. -/
def BigInteger.ofInt? (n : Int) : Option BigInteger :=
  if h : -0x80000000000000000000000000000000 ≤ n ∧ n < 0x80000000000000000000000000000000 then
    some ⟨n, h.1, h.2⟩
  else none

namespace Profile

/-- The profile as a serialisable tree. -/
def tree (p : Profile) : Tree :=
  .map [(.text "name", .text p.name), (.text "age", .whole p.age.toNat),
    (.text "tags", .sequence (p.tags.map .text)),
    (.text "nick", match p.nick with | some nick => .some (.text nick) | none => .unit)]

end Profile

namespace Written

/-- A text. -/
def text? : Written → Option String
  | .text pieces => Piece.text? pieces
  | _ => none

/-- A text, or none if null is written. -/
def optionalText? : Written → Option (Option String)
  | .null => some none
  | w => w.text?.map some

/-- An array of texts. -/
def texts? : Written → Option (List String)
  | .array items => items.mapM text?
  | _ => none

/-- A whole number from zero to a bound; a negative zero is none. -/
def natural? (greatest : Nat) : Written → Option Nat
  | .number n => if n.plain ∧ !n.negative ∧ n.size ≤ greatest then some n.size else none
  | _ => none

/-- The value written for a field. -/
def fieldOf? (fields : List (String × Written)) (key : String) : Option Written :=
  fields.lookup key

/-- A profile.  As an object it may have further fields, but not one of its own twice, and `nick` may be
missing; as an array it has the four values in order. -/
def profile? : Written → Option Profile
  | .object written => do
    let fields ← written.mapM fun field => (Piece.text? field.1).map (·, field.2)
    let own := (fields.map Prod.fst).filter (["name", "age", "tags", "nick"].contains ·)
    if ¬ own.Nodup then none
    else
      let name ← (← fieldOf? fields "name").text?
      let age ← (← fieldOf? fields "age").natural? 0xFFFFFFFF
      let tags ← (← fieldOf? fields "tags").texts?
      let nick ← ((fieldOf? fields "nick").getD .null).optionalText?
      some ⟨name, .ofNat age, tags, nick⟩
  | .array [name, age, tags, nick] => do
    let name ← name.text?
    let age ← age.natural? 0xFFFFFFFF
    let tags ← tags.texts?
    let nick ← nick.optionalText?
    some ⟨name, .ofNat age, tags, nick⟩
  | _ => none

/-- A 128-bit number; the zero may be negative. -/
def big? : Written → Option BigInteger
  | .number n => n.whole?.bind BigInteger.ofInt?
  | _ => none

/-- A history token: an array of bytes. -/
def token? : Written → Option HistoryToken
  | .array items => (items.mapM (natural? 255)).map fun bytes => ⟨bytes.map UInt8.ofNat⟩
  | _ => none

end Written

namespace Tree

mutual

/-- The tree of a JSON value. -/
def ofJson : Json → Tree
  | .null => .unit
  | .bool b => .bool b
  | .whole n => .wide n
  | .double x => .double x
  | .text s => .text s
  | .array items => .sequence (ofItems items)
  | .object fields => .map (ofFields fields)

/-- The trees of the items of an array. -/
def ofItems : List Json → List Tree
  | [] => []
  | item :: rest => ofJson item :: ofItems rest

/-- The entries of the fields of an object. -/
def ofFields : List (String × Json) → List (Tree × Tree)
  | [] => []
  | (key, value) :: rest => (.text key, ofJson value) :: ofFields rest

end

/-- The stored form of a structured value: the bytes of its compact JSON text. -/
def store (t : Tree) : Except BridgeError StoreValue :=
  match t.toJson with
  | .ok j => .ok (.data (Utf8.encode j.chars))
  | .error fault => .error (.encode fault.message)

end Tree

/-- Where a reader stopped, as a line and a column counted from one. -/
def positionText (all unread : List UInt8) : String :=
  let seen := all.take (all.length - unread.length)
  let line := (seen.filter fun b => Written.isAt b '\n').length + 1
  let column := (seen.reverse.takeWhile fun b => !Written.isAt b '\n').length + 1
  "at line " ++ String.ofList (wholeText line) ++ " column " ++ String.ofList (wholeText column)

/-- Reads the stored form of a structured value. -/
def readStructured {α : Type} (value? : Written → Option α) : StoreValue → Except BridgeError α
  | .data bytes =>
    match Written.read bytes with
    | .error unread => .error (.decode "" ("invalid JSON " ++ positionText bytes unread))
    | .ok w =>
      match value? w with
      | some value => .ok value
      | none => .error (.decode "" ("JSON of another shape, ending " ++ positionText bytes []))
  | other => .error (other.mismatch "data")

namespace Storable

/-- The values of a kind. -/
def Value : Storable → Type
  | .int => Int64
  | .int32 => Int32
  | .single => Single
  | .double => Double
  | .bool => Bool
  | .text => String
  | .url => Url
  | .data => List UInt8
  | .texts => List String
  | .profile => Profile
  | .json => Json
  | .big => BigInteger
  | .token => HistoryToken
  | .optional kind => Option kind.Value

/-- The stored form of a value; none to clear the entry. -/
def encode : (kind : Storable) → kind.Value → Except BridgeError (Option StoreValue)
  | .int, (n : Int64) => .ok (some (.int n))
  | .int32, (n : Int32) => .ok (some (.int n.toInt64))
  | .single, (x : Single) => .ok (some (.float x))
  | .double, (x : Double) => .ok (some (.double x))
  | .bool, (b : Bool) => .ok (some (.bool b))
  | .text, (s : String) => .ok (some (.string s))
  | .url, (u : Url) => .ok (some (.url u))
  | .data, (bytes : List UInt8) => .ok (some (.data bytes))
  | .texts, (items : List String) => .ok (some (.stringList items))
  | .profile, (p : Profile) => p.tree.store.map some
  | .json, (j : Json) => (Tree.ofJson j).store.map some
  | .big, (n : BigInteger) => (Tree.wide n.value).store.map some
  | .token, (t : HistoryToken) => (Tree.sequence (t.bytes.map fun b => .whole b.toNat)).store.map some
  | .optional _, none => .ok none
  | .optional kind, some value => kind.encode value

/-- The value of a stored form.  A single written where a double is wanted widens to it. -/
def decode : (kind : Storable) → StoreValue → Except BridgeError kind.Value
  | .int, .int n => .ok n
  | .int, other => .error (other.mismatch "int")
  | .int32, .int n =>
    if n.toInt > 0x7FFFFFFF then .error (.decode "" "number too large to fit in target type")
    else if n.toInt < -0x80000000 then .error (.decode "" "number too small to fit in target type")
    else .ok n.toInt32
  | .int32, other => .error (other.mismatch "int")
  | .single, .float x => .ok x
  | .single, other => .error (other.mismatch "float")
  | .double, .double x => .ok x
  | .double, .float x => .ok (Double.ofSingle x)
  | .double, other => .error (other.mismatch "double")
  | .bool, .bool b => .ok b
  | .bool, other => .error (other.mismatch "bool")
  | .text, .string s => .ok s
  | .text, other => .error (other.mismatch "string")
  | .url, .url u => .ok u
  | .url, other => .error (other.mismatch "url")
  | .data, .data bytes => .ok bytes
  | .data, other => .error (other.mismatch "data")
  | .texts, .stringList items => .ok items
  | .texts, other => .error (other.mismatch "string list")
  | .profile, stored => readStructured Written.profile? stored
  | .json, stored => readStructured (Json.ofWritten? Json.depthLimit) stored
  | .big, stored => readStructured Written.big? stored
  | .token, stored => readStructured Written.token? stored
  | .optional kind, stored => (kind.decode stored).map some

/-- What a property of a kind reads as, given what its store holds: the decoded value, or the default if there
is none or it does not decode. -/
def valueOr (kind : Storable) (initial : kind.Value) : Option StoreValue → kind.Value
  | none => initial
  | some stored =>
    match kind.decode stored with
    | .ok value => value
    | .error _ => initial

end Storable

/-- The stored form of a history token. -/
def HistoryToken.encode (t : HistoryToken) : Except BridgeError (Option StoreValue) :=
  Storable.token.encode t

/-- The history token of a stored form. -/
def HistoryToken.decode (stored : StoreValue) : Except BridgeError HistoryToken :=
  Storable.token.decode stored

end LiveProperty
