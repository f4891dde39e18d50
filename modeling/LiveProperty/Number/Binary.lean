/-!
# Binary floating-point numbers

Single and double precision numbers are kept as the bit patterns of the interchange formats, so that nothing
about them depends on a machine.  `BinaryFormat.unpack` says which number a pattern stands for, and
`BinaryFormat.nearest` gives the pattern of the number closest to a fraction, a tie going to the even
pattern.  Widening and arithmetic are the composition of the two through exact fractions.
-/

namespace LiveProperty

/-- A binary interchange format: one sign bit, then the exponent, then the fraction. -/
structure BinaryFormat where
  exponentBits : Nat
  fractionBits : Nat

/-- What a bit pattern stands for.  A finite datum is `significand * 2 ^ exponent`, with its sign. -/
inductive Datum where
  | nan
  | infinite (negative : Bool)
  | finite (negative : Bool) (significand : Nat) (exponent : Int)

/-- Which of two neighbours is taken for a number half-way between them. -/
inductive Tie where
  | toEven
  | up
  deriving DecidableEq, Repr

/-- Divides and rounds to the nearest whole number. -/
def divideNearest (tie : Tie) (num den : Nat) : Nat :=
  let q := num / den
  let r := num % den
  if den < 2 * r ∨ (2 * r = den ∧ (tie = .up ∨ q % 2 = 1)) then q + 1 else q

/-- A fraction of natural numbers. -/
structure Fraction where
  num : Nat
  den : Nat

namespace Fraction

/-- A natural number as a fraction. -/
def ofNat (n : Nat) : Fraction := ⟨n, 1⟩

/-- The fraction `significand * 2 ^ exponent`. -/
def ofBinary (significand : Nat) (exponent : Int) : Fraction :=
  if 0 ≤ exponent then ⟨significand * Nat.pow 2 exponent.toNat, 1⟩
  else ⟨significand, Nat.pow 2 (-exponent).toNat⟩

/-- The product of two fractions. -/
def mul (x y : Fraction) : Fraction := ⟨x.num * y.num, x.den * y.den⟩

/-- The quotient of two fractions. -/
def div (x y : Fraction) : Fraction := ⟨x.num * y.den, x.den * y.num⟩

end Fraction

namespace BinaryFormat

/-- The single precision format, 32 bits wide. -/
def single : BinaryFormat := ⟨8, 23⟩

/-- The double precision format, 64 bits wide. -/
def double : BinaryFormat := ⟨11, 52⟩

/-- The exponent of the last place of the numbers closest to zero. -/
def leastExponent (f : BinaryFormat) : Int :=
  2 - Nat.pow 2 (f.exponentBits - 1) - f.fractionBits

/-- The magnitude bits of infinity. -/
def infinity (f : BinaryFormat) : Nat :=
  (Nat.pow 2 f.exponentBits - 1) * Nat.pow 2 f.fractionBits

/-- The value of the sign bit. -/
def signBit (f : BinaryFormat) : Nat :=
  Nat.pow 2 (f.exponentBits + f.fractionBits)

/-- Reads a bit pattern. -/
def unpack (f : BinaryFormat) (bits : Nat) : Datum :=
  let negative := bits / f.signBit % 2 = 1
  let magnitude := bits % f.signBit
  let biased := magnitude / Nat.pow 2 f.fractionBits
  let fraction := magnitude % Nat.pow 2 f.fractionBits
  if f.infinity < magnitude then .nan
  else if magnitude = f.infinity then .infinite negative
  else if biased = 0 then .finite negative fraction f.leastExponent
  else .finite negative (Nat.pow 2 f.fractionBits + fraction) (f.leastExponent + biased - 1)

/-- The magnitude bits of the number nearest to `num / den`, for positive `num` and `den`; nothing if that
number would be infinite. -/
def nearest (f : BinaryFormat) (num den : Nat) : Option Nat :=
  let guess : Int := (num.log2 : Int) - den.log2 - f.fractionBits
  let place := fun (e : Int) =>
    if 0 ≤ e then (num, den * Nat.pow 2 e.toNat) else (num * Nat.pow 2 (-e).toNat, den)
  let exact := if (place guess).1 < (place guess).2 * Nat.pow 2 f.fractionBits then guess - 1 else guess
  let exponent := max exact f.leastExponent
  let significand := divideNearest .toEven (place exponent).1 (place exponent).2
  let bits := (exponent - f.leastExponent).toNat * Nat.pow 2 f.fractionBits + significand
  if bits < f.infinity then some bits else none

/-- The bits of a magnitude with a sign. -/
def withSign (f : BinaryFormat) (negative : Bool) (magnitude : Nat) : Nat :=
  if negative then f.signBit + magnitude else magnitude

/-- The magnitude bits of the number nearest to a fraction, zero included; nothing if it would be infinite. -/
def roundBits? (f : BinaryFormat) (x : Fraction) : Option Nat :=
  if x.num = 0 then some 0 else f.nearest x.num x.den

/-- The number nearest to a fraction, as a fraction again; nothing if it would be infinite. -/
def round? (f : BinaryFormat) (x : Fraction) : Option Fraction := do
  match f.unpack (← f.roundBits? x) with
  | .finite _ significand exponent => some (.ofBinary significand exponent)
  | _ => none

end BinaryFormat

/-- A single precision number, as its bits. -/
structure Single where
  bits : UInt32
  deriving DecidableEq, Repr

/-- A double precision number, as its bits. -/
structure Double where
  bits : UInt64
  deriving DecidableEq, Repr

namespace Single

/-- What the bits stand for. -/
def unpack (x : Single) : Datum :=
  BinaryFormat.single.unpack x.bits.toNat

/-- Whether the number is a NaN. -/
def isNaN (x : Single) : Bool :=
  match x.unpack with
  | .nan => true
  | _ => false

/-- Whether the number is zero, of either sign. -/
def isZero (x : Single) : Bool :=
  x.bits.toNat % BinaryFormat.single.signBit = 0

/-- Numeric equality: a NaN equals nothing, and the two zeros are equal. -/
def equal (x y : Single) : Bool :=
  !x.isNaN && !y.isNaN && (x.bits = y.bits || (x.isZero && y.isZero))

end Single

namespace Double

/-- What the bits stand for. -/
def unpack (x : Double) : Datum :=
  BinaryFormat.double.unpack x.bits.toNat

/-- Whether the number is a NaN. -/
def isNaN (x : Double) : Bool :=
  match x.unpack with
  | .nan => true
  | _ => false

/-- Whether the number is zero, of either sign. -/
def isZero (x : Double) : Bool :=
  x.bits.toNat % BinaryFormat.double.signBit = 0

/-- Numeric equality: a NaN equals nothing, and the two zeros are equal. -/
def equal (x y : Double) : Bool :=
  !x.isNaN && !y.isNaN && (x.bits = y.bits || (x.isZero && y.isZero))

/-- The number with a sign and magnitude bits. -/
def ofMagnitude (negative : Bool) (magnitude : Nat) : Double :=
  ⟨UInt64.ofNat (BinaryFormat.double.withSign negative magnitude)⟩

/-- The double with the value of a single: every single is exactly representable. -/
def ofSingle (x : Single) : Double :=
  match x.unpack with
  | .nan => .ofMagnitude false (BinaryFormat.double.infinity + Nat.pow 2 51)
  | .infinite negative => .ofMagnitude negative BinaryFormat.double.infinity
  | .finite negative significand exponent =>
    .ofMagnitude negative
      ((BinaryFormat.double.roundBits? (.ofBinary significand exponent)).getD BinaryFormat.double.infinity)

/-- The double nearest to a fraction with a sign, or nothing if that overflows. -/
def ofFraction? (negative : Bool) (x : Fraction) : Option Double :=
  (BinaryFormat.double.roundBits? x).map (.ofMagnitude negative)

end Double

end LiveProperty
