/-!
# UTF-8

Characters as bytes, and bytes as characters.  `decode?` accepts the well-formed sequences only: no character
is written in more bytes than it needs, and surrogates and numbers beyond the code space are refused.  Hence
`decode?` is a partial inverse of `encode`.
-/

namespace LiveProperty.Utf8

/-- The bytes of one character. -/
def encodeChar (c : Char) : List UInt8 :=
  let n := c.toNat
  if n < 0x80 then [.ofNat n]
  else if n < 0x800 then [.ofNat (0xC0 + n / 0x40), .ofNat (0x80 + n % 0x40)]
  else if n < 0x10000 then
    [.ofNat (0xE0 + n / 0x1000), .ofNat (0x80 + n / 0x40 % 0x40), .ofNat (0x80 + n % 0x40)]
  else
    [.ofNat (0xF0 + n / 0x40000), .ofNat (0x80 + n / 0x1000 % 0x40), .ofNat (0x80 + n / 0x40 % 0x40),
      .ofNat (0x80 + n % 0x40)]

/-- The bytes of a text. -/
def encode (text : List Char) : List UInt8 :=
  text.flatMap encodeChar

/-- Whether a byte may follow the first byte of a character. -/
def isTail (b : UInt8) : Bool :=
  b.toNat / 0x40 = 2

/-- The character with a code point, if it is one and not below `least`. -/
def charOf? (least point : Nat) : Option Char :=
  if h : least ≤ point ∧ point.isValidChar then some (.ofNatAux point h.2) else none

/-- The text of a sequence of bytes, if the sequence is well formed. -/
def decode? : List UInt8 → Option (List Char)
  | [] => some []
  | a :: rest =>
    let x := a.toNat
    if x < 0x80 then
      (decode? rest).map (Char.ofNat x :: ·)
    else if x < 0xC0 then none
    else match rest with
      | [] => none
      | b :: rest =>
        if !isTail b then none
        else
          let y := b.toNat % 0x40
          if x < 0xE0 then do
            let c ← charOf? 0x80 (x % 0x20 * 0x40 + y)
            (decode? rest).map (c :: ·)
          else match rest with
            | [] => none
            | b :: rest =>
              if !isTail b then none
              else
                let z := b.toNat % 0x40
                if x < 0xF0 then do
                  let c ← charOf? 0x800 (x % 0x10 * 0x1000 + y * 0x40 + z)
                  (decode? rest).map (c :: ·)
                else match rest with
                  | [] => none
                  | b :: rest =>
                    if !isTail b || 0xF8 ≤ x then none
                    else do
                      let c ← charOf? 0x10000 (x % 0x8 * 0x40000 + y * 0x1000 + z * 0x40 + b.toNat % 0x40)
                      (decode? rest).map (c :: ·)

/-- The text of a well-formed sequence of bytes. -/
def text? (bytes : List UInt8) : Option String :=
  (decode? bytes).map String.ofList

/-- The bytes of a text. -/
def bytes (text : String) : List UInt8 :=
  encode text.toList

end LiveProperty.Utf8
