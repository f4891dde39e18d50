import LiveProperty.Dictionary
import LiveProperty.Number.Decimal
import LiveProperty.Text.Utf8

/-!
# JSON values

A JSON value, and its compact text.  A whole number that fits a signed or unsigned 64-bit word stays a whole
number; every other number is a double.  The fields of an object form a dictionary, so a value has one text
only.
-/

namespace LiveProperty

/-- A JSON value. -/
inductive Json where
  | null
  | bool (b : Bool)
  | whole (n : Int)
  | double (x : Double)
  | text (s : String)
  | array (items : List Json)
  | object (fields : List (String × Json))
  deriving Inhabited

namespace Json

/-- The least whole number that stays one. -/
def leastWhole : Int := -0x8000000000000000

/-- The greatest whole number that stays one. -/
def greatestWhole : Int := 0xFFFFFFFFFFFFFFFF

/-- Whether a whole number is in the range of those that stay whole. -/
def isWhole (n : Int) : Bool :=
  leastWhole ≤ n ∧ n ≤ greatestWhole

/-- A hexadecimal digit in lower case. -/
def hexDigit (n : Nat) : Char :=
  Nat.digitChar n

/-- A character inside a quoted text: the quote, the backslash and the control characters are escaped, and
nothing else. -/
def escaped (c : Char) : List Char :=
  if c = '"' then ['\\', '"']
  else if c = '\\' then ['\\', '\\']
  else if c = '\x08' then ['\\', 'b']
  else if c = '\x0c' then ['\\', 'f']
  else if c = '\n' then ['\\', 'n']
  else if c = '\r' then ['\\', 'r']
  else if c = '\t' then ['\\', 't']
  else if c.toNat < 0x20 then
    ['\\', 'u', '0', '0', hexDigit (c.toNat / 16), hexDigit (c.toNat % 16)]
  else [c]

/-- A quoted text. -/
def quoted (s : String) : List Char :=
  '"' :: (s.toList.flatMap escaped ++ ['"'])

/-- Doubles are written positionally from the hundred-thousandths up to sixteen whole digits, and else with a
signed exponent; a tie goes to the even digit. -/
def doubleStyle : DecimalStyle := ⟨-5, 15, true, .toEven⟩

/-- Singles are written positionally from the millionths up to thirteen whole digits, and else with a signed
exponent; a tie goes to the even digit. -/
def singleStyle : DecimalStyle := ⟨-6, 12, true, .toEven⟩

/-- The text of a double; JSON has none for infinities and NaN, which become `null`. -/
def doubleChars (x : Double) : List Char :=
  (doubleStyle.finite? .double x.unpack).getD ['n', 'u', 'l', 'l']

/-- Texts with commas between them. -/
def separated : List (List Char) → List Char
  | [] => []
  | [last] => last
  | first :: rest => first ++ ',' :: separated rest

mutual

/-- The compact text of a value. -/
def chars : Json → List Char
  | .null => ['n', 'u', 'l', 'l']
  | .bool true => ['t', 'r', 'u', 'e']
  | .bool false => ['f', 'a', 'l', 's', 'e']
  | .whole n => wholeText n
  | .double x => doubleChars x
  | .text s => quoted s
  | .array items => '[' :: (separated (itemChars items) ++ [']'])
  | .object fields => '{' :: (separated (fieldChars fields) ++ ['}'])

/-- The compact texts of the items of an array. -/
def itemChars : List Json → List (List Char)
  | [] => []
  | item :: rest => item.chars :: itemChars rest

/-- The compact texts of the fields of an object. -/
def fieldChars : List (String × Json) → List (List Char)
  | [] => []
  | (key, value) :: rest => (quoted key ++ ':' :: value.chars) :: fieldChars rest

end

/-- The compact text of a value. -/
def render (j : Json) : String :=
  String.ofList j.chars

/-- The field of an object; nothing for other values. -/
def field? (j : Json) (key : String) : Option Json :=
  match j with
  | .object fields => Dictionary.find? fields key
  | _ => none

end Json

end LiveProperty
