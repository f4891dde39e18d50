import LiveProperty.Json.Basic

/-!
# Serialisable trees

A value of any structured type announces itself as a tree: scalars of several widths, sequences, maps with
keys of any shape, variants and records.  `Tree.toJson` turns a tree into a JSON value or says why there is
none.  Entries come in the order in which the value produces them, and the first fault in that order is the
one reported; the fields of the result are a dictionary, so the order leaves no trace in it.
-/

namespace LiveProperty

/-- The shape of a structured value. -/
inductive Tree where
  | unit
  | bool (b : Bool)
  | whole (n : Int)
  | wide (n : Int)
  | single (x : Single)
  | double (x : Double)
  | text (s : String)
  | char (c : Char)
  | bytes (bs : List UInt8)
  | some (t : Tree)
  | sequence (items : List Tree)
  | map (entries : List (Tree × Tree))
  | variant (name : String)
  | wrapped (name : String) (t : Tree)
  | record (name : String) (fields : List (String × Tree))
  | invalid
  deriving Inhabited

/-- Why a tree has no JSON value. -/
inductive TreeFault where
  | numberOutOfRange
  | keyNotFinite
  | keyNotText
  | invalidTree
  deriving DecidableEq, Repr

/-- The text of a fault. -/
def TreeFault.message : TreeFault → String
  | .numberOutOfRange => "number out of range"
  | .keyNotFinite => "float key must be finite (got NaN or +/-inf)"
  | .keyNotText => "key must be a string"
  | .invalidTree => "bad tree"

namespace Tree

/-- The key text of a float: its shortest digits in its own width, laid out in the style of that width. -/
def floatKey (style : DecimalStyle) (f : BinaryFormat) (d : Datum) : Except TreeFault String :=
  match style.finite? f d with
  | .some cs => .ok (String.ofList cs)
  | .none => .error .keyNotFinite

/-- The key text of a tree: texts and names stand for themselves and scalars for their decimal text. -/
def key : Tree → Except TreeFault String
  | .bool b => .ok (if b then "true" else "false")
  | .whole n => .ok (String.ofList (wholeText n))
  | .wide n => .ok (String.ofList (wholeText n))
  | .single x => floatKey Json.singleStyle .single x.unpack
  | .double x => floatKey Json.doubleStyle .double x.unpack
  | .text s => .ok s
  | .char c => .ok (String.ofList [c])
  | .variant name => .ok name
  | .invalid => .error .invalidTree
  | _ => .error .keyNotText

/-- A double as a JSON value: infinities and NaN become null. -/
def ofDouble (x : Double) : Json :=
  match x.unpack with
  | .finite .. => .double x
  | _ => .null

mutual

/-- The JSON value of a tree. -/
def toJson : Tree → Except TreeFault Json
  | .unit => .ok .null
  | .bool b => .ok (.bool b)
  | .whole n => .ok (.whole n)
  | .wide n => if Json.isWhole n then .ok (.whole n) else .error .numberOutOfRange
  | .single x => .ok (ofDouble (.ofSingle x))
  | .double x => .ok (ofDouble x)
  | .text s => .ok (.text s)
  | .char c => .ok (.text (String.ofList [c]))
  | .bytes bs => .ok (.array (bs.map fun b => .whole b.toNat))
  | .some t => t.toJson
  | .sequence items => do
    let items ← itemsToJson items
    .ok (.array items)
  | .map entries => do
    let fields ← entriesToJson entries []
    .ok (.object fields)
  | .variant name => .ok (.text name)
  | .wrapped name t => do
    let value ← t.toJson
    .ok (.object [(name, value)])
  | .record name fields => do
    let fields ← fieldsToJson fields []
    .ok (.object [(name, .object fields)])
  | .invalid => .error .invalidTree

/-- The JSON values of the items of a sequence. -/
def itemsToJson : List Tree → Except TreeFault (List Json)
  | [] => .ok []
  | item :: rest => do
    let item ← item.toJson
    let rest ← itemsToJson rest
    .ok (item :: rest)

/-- Adds the entries of a map to a dictionary, each key before its value. -/
def entriesToJson : List (Tree × Tree) → Dictionary Json → Except TreeFault (Dictionary Json)
  | [], d => .ok d
  | (k, t) :: rest, d => do
    let key ← k.key
    let value ← t.toJson
    entriesToJson rest (d.put key value)

/-- Adds the fields of a record to a dictionary. -/
def fieldsToJson : List (String × Tree) → Dictionary Json → Except TreeFault (Dictionary Json)
  | [], d => .ok d
  | (key, t) :: rest, d => do
    let value ← t.toJson
    fieldsToJson rest (d.put key value)

end

end Tree

end LiveProperty
