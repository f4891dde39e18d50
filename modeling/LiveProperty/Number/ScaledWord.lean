import LiveProperty.Number.Binary

/-!
# Decimals cut to a word

A decimal is read through a 64-bit word and a power of ten.  `ScaledWord.ofDigits` makes the cut: the word takes
the leading digits as long as it can hold them.  `ScaledWord.toDouble?` makes the double, and rounds at each
step: the word is rounded, and then its product with a power of ten, or its quotient by one.  A short decimal
thus reads as the double nearest to it; a long one, or one with a large power of ten, may read as a neighbour.
-/

namespace LiveProperty

/-- The number `word * 10 ^ power`. -/
structure ScaledWord where
  word : Nat
  power : Int

namespace ScaledWord

/-- The greatest word. -/
def greatestWord : Nat := 0xFFFFFFFFFFFFFFFF

/-- The greatest power of ten that is a finite double. -/
def greatestPower : Nat := 308

/-- Appends digits to a word until one does not fit: the word, and how many digits it took. -/
def takeDigits : Nat → List Nat → Nat × Nat
  | word, [] => (word, 0)
  | word, d :: ds =>
    if 10 * word + d ≤ greatestWord then
      let (last, taken) := takeDigits (10 * word + d) ds
      (last, taken + 1)
    else (word, 0)

/-- Cuts the decimal with the given digits before and after the point, times `10 ^ exponent`.  A digit before
the point that is not taken still moves the point; a digit after it that is not taken is lost.  The digits
after the point are offered to the word even if it has refused one before. -/
def ofDigits (whole fraction : List Nat) (exponent : Int) : ScaledWord :=
  let (head, takenWhole) := takeDigits 0 whole
  let (word, takenFraction) := takeDigits head fraction
  ⟨word, exponent + (whole.length - takenWhole : Nat) - takenFraction⟩

/-- The double nearest to a power of ten. -/
def tens? (k : Nat) : Option Fraction :=
  BinaryFormat.double.round? (.ofNat (Nat.pow 10 k))

/-- The magnitude of a scaled word before its last rounding.  A power beyond the doubles is out of reach upwards,
and downwards is divided by in two steps; after those nothing is left of any word. -/
def magnitude? (x : ScaledWord) : Option Fraction := do
  let value ← BinaryFormat.double.round? (.ofNat x.word)
  let places := x.power.natAbs
  if x.word = 0 then some (.ofNat 0)
  else if places ≤ greatestPower then
    let tens ← tens? places
    some (if 0 ≤ x.power then value.mul tens else value.div tens)
  else if 0 ≤ x.power then none
  else if places ≤ 2 * greatestPower then
    let reduced ← BinaryFormat.double.round? (value.div (← tens? greatestPower))
    some (reduced.div (← tens? (places - greatestPower)))
  else some (.ofNat 0)

/-- The double that a scaled word with a sign reads as, or nothing if it overflows. -/
def toDouble? (negative : Bool) (x : ScaledWord) : Option Double :=
  x.magnitude?.bind (Double.ofFraction? negative)

end ScaledWord

end LiveProperty
