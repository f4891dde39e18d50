import LiveProperty.Envelope
import LiveProperty.Query.Change
import LiveProperty.Query.Descriptor
import LiveProperty.Store.Storable
import LiveProperty.Text.Unprintable

/-!
# Descriptions

The texts under which values show themselves to someone who looks into a running program.  A record is written
with its fields in braces, a wrapped value in parentheses, a list in brackets and a set in braces; texts are
quoted, and what cannot be printed in them is escaped by its code point.
-/

namespace LiveProperty

namespace Description

/-- A character inside a quoted text. -/
def escaped (c : Char) : List Char :=
  if c = '"' then ['\\', '"']
  else if c = '\\' then ['\\', '\\']
  else if c = '\n' then ['\\', 'n']
  else if c = '\r' then ['\\', 'r']
  else if c = '\t' then ['\\', 't']
  else if c = '\x00' then ['\\', '0']
  else if isUnprintable c then
    ['\\', 'u', '\x7b'] ++ Nat.toDigits 16 c.toNat ++ ['\x7d']
  else [c]

/-- A quoted text. -/
def text (s : String) : String :=
  String.ofList ('"' :: (s.toList.flatMap escaped ++ ['"']))

/-- A whole number. -/
def whole (n : Int) : String :=
  String.ofList (wholeText n)

/-- A count. -/
def count (n : Nat) : String :=
  whole n

/-- A truth value. -/
def flag (b : Bool) : String :=
  if b then "true" else "false"

/-- Texts with commas between them. -/
def separated (parts : List String) : String :=
  String.intercalate ", " parts

/-- A list. -/
def list (parts : List String) : String :=
  "[" ++ separated parts ++ "]"

/-- A set. -/
def set (parts : List String) : String :=
  "\x7b" ++ separated parts ++ "\x7d"

/-- A named value around another. -/
def wrapped (name inner : String) : String :=
  name ++ "(" ++ inner ++ ")"

/-- An optional value. -/
def optional {α : Type} (describe : α → String) : Option α → String
  | none => "None"
  | some a => wrapped "Some" (describe a)

/-- A record with its fields. -/
def record (name : String) (fields : List (String × String)) : String :=
  name ++ " \x7b " ++ separated (fields.map fun f => f.1 ++ ": " ++ f.2) ++ " \x7d"

/-- A record that shows only some of its fields. -/
def openRecord (name : String) (fields : List (String × String)) : String :=
  name ++ " \x7b " ++ separated (fields.map (fun f => f.1 ++ ": " ++ f.2) ++ [".."]) ++ " \x7d"

/-- Floats are written positionally from the ten-thousandths up to sixteen whole digits; a tie goes up. -/
def floatStyle : DecimalStyle := ⟨-4, 15, false, .up⟩

/-- A span of time in nanoseconds, in the largest unit of which it holds one. -/
def duration (nanoseconds : Nat) : String :=
  let inUnit := fun (size : Nat) (name : String) =>
    let whole := Nat.toDigits 10 (nanoseconds / size)
    let places := (Nat.toDigits 10 (size + nanoseconds % size)).drop 1
    let fraction := (places.reverse.dropWhile (· = '0')).reverse
    String.ofList (whole ++ if fraction.isEmpty then [] else '.' :: fraction) ++ name
  if 1000000000 ≤ nanoseconds then inUnit 1000000000 "s"
  else if 1000000 ≤ nanoseconds then inUnit 1000000 "ms"
  else if 1000 ≤ nanoseconds then inUnit 1000 "µs"
  else inUnit 1 "ns"

end Description

open Description

mutual

/-- Describes a JSON value. -/
def Json.describe : Json → String
  | .null => "Null"
  | .bool b => wrapped "Bool" (flag b)
  | .whole n => wrapped "Number" (Description.whole n)
  | .double x => wrapped "Number" (String.ofList (Json.doubleChars x))
  | .text s => wrapped "String" (Description.text s)
  | .array items => "Array " ++ list (Json.describeItems items)
  | .object fields => "Object " ++ set (Json.describeFields fields)

/-- Describes the items of an array. -/
def Json.describeItems : List Json → List String
  | [] => []
  | item :: rest => item.describe :: Json.describeItems rest

/-- Describes the fields of an object. -/
def Json.describeFields : List (String × Json) → List String
  | [] => []
  | (key, value) :: rest => (Description.text key ++ ": " ++ value.describe) :: Json.describeFields rest

end

namespace Url

/-- Describes a host. -/
def Host.describe : Host → String
  | .domain name => wrapped "Domain" (Description.text (String.ofList name))
  | .ipv4 address => wrapped "Ipv4" (String.ofList address)
  | .ipv6 address => wrapped "Ipv6" (String.ofList (ipv6Text address))

/-- Describes an address by its parts. -/
def describe (u : Url) : String :=
  let parts := u.parts
  let shown := fun (part : List Char) => Description.text (String.ofList part)
  record "Url" [
    ("scheme", shown parts.scheme),
    ("cannot_be_a_base", flag !parts.rooted),
    ("username", shown parts.username),
    ("password", optional shown parts.password),
    ("host", optional Host.describe parts.host),
    ("port", optional String.ofList parts.port),
    ("path", shown parts.path),
    ("query", optional shown parts.query),
    ("fragment", optional shown parts.fragment)]

end Url

/-- Describes a profile. -/
def Profile.describe (p : Profile) : String :=
  record "Profile" [
    ("name", Description.text p.name), ("age", count p.age.toNat),
    ("tags", list (p.tags.map Description.text)), ("nick", optional Description.text p.nick)]

/-- Describes bytes as a list of numbers. -/
def describeBytes (bytes : List UInt8) : String :=
  list (bytes.map fun b => count b.toNat)

/-- Describes a value of a kind. -/
def Storable.describe : (kind : Storable) → kind.Value → String
  | .int, (n : Int64) => Description.whole n.toInt
  | .int32, (n : Int32) => Description.whole n.toInt
  | .single, (x : Single) => String.ofList (floatStyle.text .single x.unpack)
  | .double, (x : Double) => String.ofList (floatStyle.text .double x.unpack)
  | .bool, (b : Bool) => flag b
  | .text, (s : String) => Description.text s
  | .url, (u : Url) => u.describe
  | .data, (bytes : List UInt8) => describeBytes bytes
  | .texts, (items : List String) => list (items.map Description.text)
  | .profile, (p : Profile) => p.describe
  | .json, (j : Json) => wrapped "Json" j.describe
  | .big, (n : BigInteger) => wrapped "Big" (Description.whole n.value)
  | .token, (t : HistoryToken) => wrapped "HistoryToken" (describeBytes t.bytes)
  | .optional kind, (value : Option kind.Value) => Description.optional kind.describe value

/-- Describes an error. -/
def BridgeError.describe : BridgeError → String
  | .decode key reason => record "Decode" [("key", Description.text key), ("reason", Description.text reason)]
  | .encode reason => record "Encode" [("reason", Description.text reason)]
  | .typeMismatch expected found =>
    record "TypeMismatch" [("expected", Description.text expected), ("found", Description.text found)]
  | .queryExecution entity reason =>
    record "QueryExecution" [("entity", Description.text entity), ("reason", Description.text reason)]
  | .missingContext entity => record "MissingContext" [("entity", Description.text entity)]
  | .conflictingEnvelope => "ConflictingEnvelope"
  | .history reason => record "History" [("reason", Description.text reason)]

/-- Describes an envelope. -/
def Envelope.describe : Envelope → String
  | .direct => "Direct"
  | .scoped (.transaction t) => wrapped "Transaction" (record "Transaction" [
      ("label", Description.text t.label), ("disables_animations", flag t.disablesAnimations)])
  | .scoped (.animation a) => wrapped "Animation" (record "Animation" [
      ("curve", a.curve.name), ("duration", duration (a.microseconds * 1000))])

/-- Describes an entity type. -/
def describeEntity (name : String) : String :=
  wrapped "EntityType" (Description.text name)

/-- Describes a change; of its origin, if it has one, only whether it is alive. -/
def ContextChange.describe (originAlive : Bool) : ContextChange → String
  | .saved changes origin => record "Saved" [
      ("changes", list (changes.map fun c =>
        record "EntityChange" [("kind", c.kind.name), ("entity", describeEntity c.entity)])),
      ("origin", optional (fun _ => record "ContextOrigin" [("alive", flag originAlive)]) origin)]
  | .entity name => wrapped "Entity" (describeEntity name)
  | .remote entities => record "Remote" [("entities", set (entities.map describeEntity))]
  | .storesReset => "StoresReset"

/-- Describes a descriptor. -/
def FetchDescriptor.describe {ρ : Type} (d : FetchDescriptor ρ) : String :=
  record "FetchDescriptor" [
    ("has_filter", flag d.filter.isSome),
    ("sort", list (d.sort.map fun c => openRecord "SortDescriptor" [("order", c.order.name)])),
    ("fetch_limit", optional count d.limit),
    ("fetch_offset", count d.offset)]

end LiveProperty
