import LiveProperty.Json.Basic
import LiveProperty.Number.ScaledWord

/-!
# JSON texts as written

Reading JSON takes two steps.  `Written.read` checks the grammar only and keeps numbers and texts as they
stand in the bytes; what they mean, and whether they mean anything, is asked afterwards by whoever wants a
value.  So a field that nobody asks for may hold a number without a value, or a text that is no text.

Blanks are space, tab, line feed and carriage return; a number has no leading zeros; a control character may
not stand inside a text.
-/

namespace LiveProperty

/-- A number as written: the digits before the point, those after it, and the exponent, if there is one. -/
structure Numeral where
  negative : Bool
  whole : List Nat
  fraction : List Nat
  exponent : Option Int

/-- A piece of a text as written: a byte, or a code unit given by its number. -/
inductive Piece where
  | byte (b : UInt8)
  | unit (u : Nat)

/-- A JSON text that is known to be grammatical. -/
inductive Written where
  | null
  | bool (b : Bool)
  | number (n : Numeral)
  | text (pieces : List Piece)
  | array (items : List Written)
  | object (fields : List (List Piece × Written))
  deriving Inhabited

/-- The bytes that a reader has left: after a success those behind what it read, after a failure those at which
it stopped. -/
abbrev Unread := List UInt8

namespace Written

/-- Whether a byte is the given ASCII character. -/
def isAt (b : UInt8) (c : Char) : Bool :=
  b.toNat = c.toNat

/-- Whether a byte is a blank. -/
def isBlank (b : UInt8) : Bool :=
  isAt b ' ' || isAt b '\t' || isAt b '\n' || isAt b '\r'

/-- Whether a byte is a decimal digit. -/
def isDigit (b : UInt8) : Bool :=
  '0'.toNat ≤ b.toNat ∧ b.toNat ≤ '9'.toNat

/-- The bytes after the leading blanks. -/
def afterBlanks (s : List UInt8) : List UInt8 :=
  s.dropWhile isBlank

/-- The number written by decimal digits. -/
def digitsValue (ds : List Nat) : Nat :=
  ds.foldl (fun n d => 10 * n + d) 0

/-- The value of a hexadecimal digit. -/
def hexValue? (b : UInt8) : Option Nat :=
  let n := b.toNat
  if 0x30 ≤ n ∧ n ≤ 0x39 then some (n - 0x30)
  else if 0x41 ≤ n ∧ n ≤ 0x46 then some (n - 0x37)
  else if 0x61 ≤ n ∧ n ≤ 0x66 then some (n - 0x57)
  else none

/-- The code unit written by four hexadecimal digits. -/
def unit? (a b c d : UInt8) : Option Nat := do
  let a ← hexValue? a
  let b ← hexValue? b
  let c ← hexValue? c
  let d ← hexValue? d
  some (((a * 16 + b) * 16 + c) * 16 + d)

/-- The byte that stands for an escape other than `\u`. -/
def escape? (b : UInt8) : Option UInt8 :=
  if isAt b '"' then some (.ofNat 0x22)
  else if isAt b '\\' then some (.ofNat 0x5C)
  else if isAt b '/' then some (.ofNat 0x2F)
  else if isAt b 'b' then some (.ofNat 0x08)
  else if isAt b 'f' then some (.ofNat 0x0C)
  else if isAt b 'n' then some (.ofNat 0x0A)
  else if isAt b 'r' then some (.ofNat 0x0D)
  else if isAt b 't' then some (.ofNat 0x09)
  else none

/-- Puts a piece in front of a reading of pieces. -/
def consPiece (p : Piece) : Except Unread (List Piece × Unread) → Except Unread (List Piece × Unread)
  | .ok (ps, rest) => .ok (p :: ps, rest)
  | .error rest => .error rest

/-- The pieces of a text up to its closing quote. -/
def readPieces : List UInt8 → Except Unread (List Piece × Unread)
  | [] => .error []
  | b :: rest =>
    if isAt b '"' then .ok ([], rest)
    else if isAt b '\\' then
      match rest with
      | [] => .error []
      | e :: rest =>
        if isAt e 'u' then
          match rest with
          | w :: x :: y :: z :: rest =>
            match unit? w x y z with
            | some u => consPiece (.unit u) (readPieces rest)
            | none => .error (w :: x :: y :: z :: rest)
          | short => .error short
        else
          match escape? e with
          | some b => consPiece (.byte b) (readPieces rest)
          | none => .error (e :: rest)
    else if b.toNat < 0x20 then .error (b :: rest)
    else consPiece (.byte b) (readPieces rest)

/-- A nonempty run of digits. -/
def readDigits (s : List UInt8) : Except Unread (List Nat × Unread) :=
  let ds := s.takeWhile isDigit
  if ds.isEmpty then .error s else .ok (ds.map fun d => d.toNat - '0'.toNat, s.dropWhile isDigit)

/-- The digits before the point: a zero alone, or a run that does not start with one. -/
def readWhole (s : List UInt8) : Except Unread (List Nat × Unread) := do
  let (ds, rest) ← readDigits s
  if ds.head? = some 0 ∧ ds.length ≠ 1 then .error s
  else .ok (ds, rest)

/-- The digits after the point; none if there is no point. -/
def readFraction : List UInt8 → Except Unread (List Nat × Unread)
  | [] => .ok ([], [])
  | b :: rest => if isAt b '.' then readDigits rest else .ok ([], b :: rest)

/-- The exponent, if there is one. -/
def readExponent : List UInt8 → Except Unread (Option Int × Unread)
  | [] => .ok (none, [])
  | b :: rest =>
    if isAt b 'e' || isAt b 'E' then do
      let negative := rest.head?.any fun s => isAt s '-'
      let signed := negative || rest.head?.any fun s => isAt s '+'
      let (ds, rest) ← readDigits (if signed then rest.drop 1 else rest)
      let size : Int := digitsValue ds
      .ok (some (if negative then -size else size), rest)
    else .ok (none, b :: rest)

/-- A number, its sign already taken. -/
def readMagnitude (negative : Bool) (s : List UInt8) : Except Unread (Numeral × Unread) := do
  let (whole, rest) ← readWhole s
  let (fraction, rest) ← readFraction rest
  let (exponent, rest) ← readExponent rest
  .ok (⟨negative, whole, fraction, exponent⟩, rest)

/-- A given word. -/
def readWord (word : List Char) (value : Written) (s : List UInt8) : Except Unread (Written × Unread) :=
  let expected := Utf8.encode word
  if expected.isPrefixOf s then .ok (value, s.drop expected.length) else .error s

mutual

/-- A value, with no blanks in front.  The fuel bounds the depth of the recursion; a value never needs more
than the number of its bytes. -/
def readValue : Nat → List UInt8 → Except Unread (Written × Unread)
  | 0, s => .error s
  | _ + 1, [] => .error []
  | fuel + 1, b :: rest =>
    if isAt b 'n' then readWord ['n', 'u', 'l', 'l'] .null (b :: rest)
    else if isAt b 't' then readWord ['t', 'r', 'u', 'e'] (.bool true) (b :: rest)
    else if isAt b 'f' then readWord ['f', 'a', 'l', 's', 'e'] (.bool false) (b :: rest)
    else if isAt b '"' then do
      let (pieces, rest) ← readPieces rest
      .ok (.text pieces, rest)
    else if isAt b '[' then do
      let rest := afterBlanks rest
      if rest.head?.any fun c => isAt c ']' then .ok (.array [], rest.drop 1)
      else
        let (items, rest) ← readItems fuel rest
        .ok (.array items, rest)
    else if isAt b '\x7b' then do
      let rest := afterBlanks rest
      if rest.head?.any fun c => isAt c '\x7d' then .ok (.object [], rest.drop 1)
      else
        let (fields, rest) ← readFields fuel rest
        .ok (.object fields, rest)
    else if isAt b '-' then do
      let (n, rest) ← readMagnitude true rest
      .ok (.number n, rest)
    else do
      let (n, rest) ← readMagnitude false (b :: rest)
      .ok (.number n, rest)

/-- The items of a nonempty array, with the closing bracket. -/
def readItems : Nat → List UInt8 → Except Unread (List Written × Unread)
  | 0, s => .error s
  | fuel + 1, s => do
    let (item, rest) ← readValue fuel s
    match afterBlanks rest with
    | [] => .error []
    | b :: rest =>
      if isAt b ']' then .ok ([item], rest)
      else if isAt b ',' then do
        let (items, rest) ← readItems fuel (afterBlanks rest)
        .ok (item :: items, rest)
      else .error (b :: rest)

/-- The fields of a nonempty object, with the closing brace. -/
def readFields : Nat → List UInt8 → Except Unread (List (List Piece × Written) × Unread)
  | 0, s => .error s
  | _ + 1, [] => .error []
  | fuel + 1, b :: rest =>
    if isAt b '"' then do
      let (key, rest) ← readPieces rest
      match afterBlanks rest with
      | [] => .error []
      | c :: rest =>
        if isAt c ':' then do
          let (value, rest) ← readValue fuel (afterBlanks rest)
          match afterBlanks rest with
          | [] => .error []
          | d :: rest =>
            if isAt d '\x7d' then .ok ([(key, value)], rest)
            else if isAt d ',' then do
              let (fields, rest) ← readFields fuel (afterBlanks rest)
              .ok ((key, value) :: fields, rest)
            else .error (d :: rest)
        else .error (c :: rest)
    else .error (b :: rest)

end

/-- Reads a whole text: one value, and blanks around it. -/
def read (s : List UInt8) : Except Unread Written := do
  let (value, rest) ← readValue (s.length + 1) (afterBlanks s)
  match afterBlanks rest with
  | [] => .ok value
  | more => .error more

end Written

namespace Piece

/-- Whether a code unit is the first of a pair. -/
def isLeading (u : Nat) : Bool := 0xD800 ≤ u ∧ u < 0xDC00

/-- Whether a code unit is the second of a pair. -/
def isTrailing (u : Nat) : Bool := 0xDC00 ≤ u ∧ u < 0xE000

/-- The bytes that pieces stand for; nothing if a code unit is half of a pair. -/
def bytes? : List Piece → Option (List UInt8)
  | [] => some []
  | .byte b :: rest => (bytes? rest).map (b :: ·)
  | .unit u :: rest =>
    if isTrailing u then none
    else if isLeading u then
      match rest with
      | .unit v :: rest =>
        if isTrailing v then
          let point := 0x10000 + (u - 0xD800) * 0x400 + (v - 0xDC00)
          (bytes? rest).map (Utf8.encodeChar (Char.ofNat point) ++ ·)
        else none
      | _ => none
    else (bytes? rest).map (Utf8.encodeChar (Char.ofNat u) ++ ·)

/-- The text that pieces stand for. -/
def text? (pieces : List Piece) : Option String :=
  (bytes? pieces).bind Utf8.text?

end Piece

namespace Numeral

/-- Whether a numeral has neither a point nor an exponent. -/
def plain (n : Numeral) : Bool :=
  n.fraction.isEmpty && n.exponent.isNone

/-- The number written before the point, without its sign. -/
def size (n : Numeral) : Nat :=
  Written.digitsValue n.whole

/-- The whole number written by a plain numeral. -/
def whole? (n : Numeral) : Option Int :=
  if n.plain then some (if n.negative then -(n.size : Int) else n.size) else none

/-- The double that a numeral reads as. -/
def double? (n : Numeral) : Option Double :=
  (ScaledWord.ofDigits n.whole n.fraction (n.exponent.getD 0)).toDouble? n.negative

/-- The JSON value of a numeral: a whole number if it is one and in range, else a double.  A negative zero is a
double, the only number that has one; a numeral beyond the doubles has no value. -/
def value? (n : Numeral) : Option Json :=
  match n.whole? with
  | some k =>
    if Json.isWhole k ∧ ¬ (n.negative ∧ n.size = 0) then some (.whole k) else n.double?.map .double
  | none => n.double?.map .double

end Numeral

namespace Json

/-- How deep arrays and objects may nest in a value that is read. -/
def depthLimit : Nat := 127

mutual

/-- The value of a text as written, in which arrays and objects nest at most `depth` deep; of the fields with
one key the last counts. -/
def ofWritten? : Nat → Written → Option Json
  | _, .null => some .null
  | _, .bool b => some (.bool b)
  | _, .number n => n.value?
  | _, .text pieces => (Piece.text? pieces).map .text
  | 0, .array _ => none
  | 0, .object _ => none
  | depth + 1, .array items => (itemsOfWritten? depth items).map .array
  | depth + 1, .object fields => (fieldsOfWritten? depth fields).map fun fs => .object (Dictionary.ofEntries fs)

/-- The values of the items of an array. -/
def itemsOfWritten? : Nat → List Written → Option (List Json)
  | _, [] => some []
  | depth, item :: rest => do
    let item ← ofWritten? depth item
    let rest ← itemsOfWritten? depth rest
    some (item :: rest)

/-- The values of the fields of an object, in the order written. -/
def fieldsOfWritten? : Nat → List (List Piece × Written) → Option (List (String × Json))
  | _, [] => some []
  | depth, (key, value) :: rest => do
    let key ← Piece.text? key
    let value ← ofWritten? depth value
    let rest ← fieldsOfWritten? depth rest
    some ((key, value) :: rest)

end

/-- Reads a JSON text. -/
def parse? (s : List UInt8) : Option Json :=
  match Written.read s with
  | .ok w => ofWritten? depthLimit w
  | .error _ => none

end Json

end LiveProperty
