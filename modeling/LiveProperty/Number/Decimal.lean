import LiveProperty.Number.Binary

/-!
# Shortest decimals

The decimal text of a binary number is settled in two parts.  `BinaryFormat.shortest` picks the digits: the
fewest that still lie closer to the number than to its neighbours, and of those the ones nearest to it, a tie
going as told.
`DecimalStyle` lays them out: which powers of ten are written positionally, and how the others carry their
exponent.
-/

namespace LiveProperty

/-- A positive decimal: the first digit counts `10 ^ exponent`, and there are no trailing zeros. -/
structure Decimal where
  digits : List Char
  exponent : Int

namespace Decimal

/-- The decimal of `value * 10 ^ place`. -/
def ofNat (value : Nat) (place : Int) : Decimal :=
  let written := Nat.toDigits 10 value
  ⟨(written.reverse.dropWhile (· = '0')).reverse, place + written.length - 1⟩

end Decimal

/-- The power of ten of the first digit of `num / den`, for positive `num` and `den`. -/
def decimalExponent (num den : Nat) : Int :=
  if den ≤ num then (Nat.toDigits 10 (num / den)).length - 1
  else -((Nat.toDigits 10 ((den - 1) / num)).length : Int)

/-- A number between its rounding bounds, all as multiples of `1 / den`; the bounds themselves round to the
number when `closed`. -/
structure RoundingInterval where
  low : Nat
  mid : Nat
  high : Nat
  den : Nat
  closed : Bool

namespace RoundingInterval

/-- The interval with every fraction divided by `10 ^ place`. -/
def scaled (i : RoundingInterval) (place : Int) : RoundingInterval :=
  if 0 ≤ place then { i with den := i.den * Nat.pow 10 place.toNat }
  else
    let p := Nat.pow 10 (-place).toNat
    { i with low := i.low * p, mid := i.mid * p, high := i.high * p }

/-- Whether a whole number lies in the interval. -/
def admits (i : RoundingInterval) (c : Nat) : Bool :=
  if i.closed then i.low ≤ c * i.den ∧ c * i.den ≤ i.high
  else i.low < c * i.den ∧ c * i.den < i.high

/-- The whole number in the interval that is nearest to its middle. -/
def nearestWhole? (i : RoundingInterval) (tie : Tie) : Option Nat :=
  let below := i.mid / i.den
  let above := below + 1
  match i.admits below, i.admits above with
  | true, true => some (divideNearest tie i.mid i.den)
  | true, false => some below
  | false, true => some above
  | false, false => none

/-- The shortest decimal in the interval, trying one digit, then two, and so on up to `limit`. -/
def shortest (i : RoundingInterval) (tie : Tie) (limit : Nat) : Decimal :=
  let top := decimalExponent i.mid i.den
  let found := (List.range limit).findSome? fun (n : Nat) =>
    let place := top - n
    ((i.scaled place).nearestWhole? tie).map fun c => Decimal.ofNat c place
  found.getD (Decimal.ofNat ((i.scaled (top - limit)).mid / (i.scaled (top - limit)).den) (top - limit))

end RoundingInterval

namespace BinaryFormat

/-- The numbers that round to `significand * 2 ^ exponent`: half-way to either neighbour, where the lower
neighbour of a power of two is only half as far. -/
def roundingInterval (f : BinaryFormat) (significand : Nat) (exponent : Int) : RoundingInterval :=
  let below := if significand = Nat.pow 2 f.fractionBits ∧ f.leastExponent < exponent then 1 else 2
  let up := Nat.pow 2 (exponent - 2).toNat
  { low := (4 * significand - below) * up
    mid := 4 * significand * up
    high := (4 * significand + 2) * up
    den := Nat.pow 2 (2 - exponent).toNat
    closed := significand % 2 = 0 }

/-- The shortest decimal that reads back as `significand * 2 ^ exponent`, for a positive significand; seventeen
digits tell any two numbers of either format apart. -/
def shortest (f : BinaryFormat) (tie : Tie) (significand : Nat) (exponent : Int) : Decimal :=
  (f.roundingInterval significand exponent).shortest tie 17

end BinaryFormat

/-- How a decimal is laid out: positionally between two powers of ten, else with an exponent, which may have a
plus sign.  `tie` settles the last digit of a number half-way between two. -/
structure DecimalStyle where
  lowest : Int
  highest : Int
  plus : Bool
  tie : Tie

namespace DecimalStyle

/-- The digits with a point, and a zero on a side that would be empty. -/
def positional (d : Decimal) : List Char :=
  if 0 ≤ d.exponent then
    let whole := d.exponent.toNat + 1
    let fraction := d.digits.drop whole
    d.digits.take whole ++ List.replicate (whole - d.digits.length) '0' ++
      '.' :: (if fraction.isEmpty then ['0'] else fraction)
  else '0' :: '.' :: (List.replicate ((-d.exponent).toNat - 1) '0' ++ d.digits)

/-- The digits with a point after the first, and the exponent. -/
def scientific (style : DecimalStyle) (d : Decimal) : List Char :=
  let mantissa := match d.digits with
    | first :: second :: rest => first :: '.' :: second :: rest
    | short => short
  let sign := if d.exponent < 0 then ['-'] else if style.plus then ['+'] else []
  mantissa ++ 'e' :: (sign ++ Nat.toDigits 10 d.exponent.natAbs)

/-- The text of a positive decimal. -/
def layOut (style : DecimalStyle) (d : Decimal) : List Char :=
  if style.lowest ≤ d.exponent ∧ d.exponent ≤ style.highest then positional d
  else style.scientific d

/-- The text of `± significand * 2 ^ exponent`. -/
def finite (style : DecimalStyle) (f : BinaryFormat) (negative : Bool) (significand : Nat) (exponent : Int) :
    List Char :=
  let magnitude :=
    if significand = 0 then ['0', '.', '0'] else style.layOut (f.shortest style.tie significand exponent)
  if negative then '-' :: magnitude else magnitude

/-- The text of a finite datum; nothing for the others. -/
def finite? (style : DecimalStyle) (f : BinaryFormat) : Datum → Option (List Char)
  | .finite negative significand exponent => some (style.finite f negative significand exponent)
  | _ => none

/-- The text of any datum, with `NaN`, `inf` and `-inf` for those that are not finite. -/
def text (style : DecimalStyle) (f : BinaryFormat) : Datum → List Char
  | .nan => ['N', 'a', 'N']
  | .infinite false => ['i', 'n', 'f']
  | .infinite true => ['-', 'i', 'n', 'f']
  | .finite negative significand exponent => style.finite f negative significand exponent

end DecimalStyle

/-- The decimal text of a whole number. -/
def wholeText : Int → List Char
  | .ofNat n => Nat.toDigits 10 n
  | .negSucc n => '-' :: Nat.toDigits 10 (n + 1)

end LiveProperty
