import LiveProperty.Text.Utf8
import Mathlib.Data.List.Basic

/-!
# Texts as UTF-8

Every text is read back from its bytes, `decode?_encode`, and the bytes of
two texts compare as the texts do, `encode_lt_encode`.
-/

namespace LiveProperty.Utf8

variable {c d : Char}

theorem encode_cons (c : Char) (cs : List Char) :
    encode (c :: cs) = encodeChar c ++ encode cs :=
  rfl

theorem encode_append (a b : List Char) :
    encode (a ++ b) = encode a ++ encode b :=
  List.flatMap_append

/-- An ASCII character is one byte. -/
theorem encodeChar_of_lt (h : c.toNat < 0x80) :
    encodeChar c = [.ofNat c.toNat] := by
  simp only [encodeChar]
  rw [if_pos h]

theorem toNat_valid (c : Char) :
    c.toNat < 0xD800 ∨ 0xDFFF < c.toNat ∧ c.toNat < 0x110000 :=
  c.valid

/-- The bytes of a character, in one of four widths. -/
inductive Spells (c : Char) : List UInt8 → Prop where
  | one {b : UInt8} (h : b.toNat = c.toNat) (hlt : c.toNat < 0x80) :
    Spells c [b]
  | two {b₁ b₂ : UInt8} (h₁ : b₁.toNat = 0xC0 + c.toNat / 0x40)
    (h₂ : b₂.toNat = 0x80 + c.toNat % 0x40)
    (hge : 0x80 ≤ c.toNat) (hlt : c.toNat < 0x800) : Spells c [b₁, b₂]
  | three {b₁ b₂ b₃ : UInt8} (h₁ : b₁.toNat = 0xE0 + c.toNat / 0x1000)
    (h₂ : b₂.toNat = 0x80 + c.toNat / 0x40 % 0x40)
    (h₃ : b₃.toNat = 0x80 + c.toNat % 0x40)
    (hge : 0x800 ≤ c.toNat) (hlt : c.toNat < 0x10000) :
    Spells c [b₁, b₂, b₃]
  | four {b₁ b₂ b₃ b₄ : UInt8} (h₁ : b₁.toNat = 0xF0 + c.toNat / 0x40000)
    (h₂ : b₂.toNat = 0x80 + c.toNat / 0x1000 % 0x40)
    (h₃ : b₃.toNat = 0x80 + c.toNat / 0x40 % 0x40)
    (h₄ : b₄.toNat = 0x80 + c.toNat % 0x40)
    (hge : 0x10000 ≤ c.toNat) : Spells c [b₁, b₂, b₃, b₄]

theorem spells_encodeChar (c : Char) : Spells c (encodeChar c) := by
  have hvalid := toNat_valid c
  have htoNat {n : ℕ} (h : n < 256) : (UInt8.ofNat n).toNat = n :=
    UInt8.toNat_ofNat_of_lt h
  simp only [encodeChar]
  split
  · exact .one (htoNat (by omega)) (by omega)
  split
  · exact .two (htoNat (by omega)) (htoNat (by omega)) (by omega) (by omega)
  split
  · exact .three (htoNat (by omega)) (htoNat (by omega)) (htoNat (by omega))
      (by omega) (by omega)
  · exact .four (htoNat (by omega)) (htoNat (by omega)) (htoNat (by omega))
      (htoNat (by omega)) (by omega)

section Decoding

theorem charOf?_toNat {least : ℕ} (h : least ≤ c.toNat) :
    charOf? least c.toNat = some c := by
  rw [charOf?, dif_pos ⟨h, c.valid⟩, Option.some.injEq, Char.ext_iff]
  exact UInt32.toNat_inj.mp rfl

theorem isTail_of_toNat {b : UInt8} {n : ℕ} (h : b.toNat = 0x80 + n % 0x40) :
    isTail b = true := by
  rw [isTail, decide_eq_true_eq]
  omega

theorem decode?_append_of_spells {bytes : List UInt8} (h : Spells c bytes)
    (rest : List UInt8) :
    decode? (bytes ++ rest) = (decode? rest).map (c :: ·) := by
  cases h with
  | @one b h hlt =>
    rw [List.singleton_append, decode?.eq_def]
    simp only [h]
    rw [if_pos hlt, Char.ofNat_toNat]
  | @two b₁ b₂ h₁ h₂ hge hlt =>
    have hpoint : b₁.toNat % 0x20 * 0x40 + b₂.toNat % 0x40 = c.toNat := by
      omega
    rw [List.cons_append, List.singleton_append, decode?.eq_def]
    simp only [isTail_of_toNat h₂, Bool.not_true, Bool.false_eq_true]
    rw [if_neg (by omega), if_neg (by omega), if_neg not_false,
      if_pos (by omega), hpoint, charOf?_toNat hge]
    rfl
  | @three b₁ b₂ b₃ h₁ h₂ h₃ hge hlt =>
    have hpoint : b₁.toNat % 0x10 * 0x1000 + b₂.toNat % 0x40 * 0x40 +
        b₃.toNat % 0x40 = c.toNat := by
      omega
    rw [List.cons_append, List.cons_append, List.singleton_append,
      decode?.eq_def]
    simp only [isTail_of_toNat h₂, isTail_of_toNat h₃, Bool.not_true,
      Bool.false_eq_true]
    rw [if_neg (by omega), if_neg (by omega), if_neg not_false,
      if_neg (by omega), if_neg not_false, if_pos (by omega), hpoint,
      charOf?_toNat hge]
    rfl
  | @four b₁ b₂ b₃ b₄ h₁ h₂ h₃ h₄ hge =>
    have hvalid := toNat_valid c
    have hpoint : b₁.toNat % 0x8 * 0x40000 + b₂.toNat % 0x40 * 0x1000 +
        b₃.toNat % 0x40 * 0x40 + b₄.toNat % 0x40 = c.toNat := by
      omega
    have hfirst : decide (0xF8 ≤ b₁.toNat) = false := by
      rw [decide_eq_false_iff_not]
      omega
    rw [List.cons_append, List.cons_append, List.cons_append,
      List.singleton_append, decode?.eq_def]
    simp only [isTail_of_toNat h₂, isTail_of_toNat h₃, isTail_of_toNat h₄,
      hfirst, Bool.not_true, Bool.or_false, Bool.false_eq_true]
    rw [if_neg (by omega), if_neg (by omega), if_neg not_false,
      if_neg (by omega), if_neg not_false, if_neg (by omega),
      if_neg not_false, hpoint, charOf?_toNat hge]
    rfl

/-- Every text is read back from its bytes. -/
theorem decode?_encode (cs : List Char) : decode? (encode cs) = some cs := by
  induction cs with
  | nil => rfl
  | cons c cs ih =>
    rw [encode_cons, decode?_append_of_spells (spells_encodeChar c), ih]
    rfl

theorem text?_bytes (s : String) : text? (bytes s) = some s := by
  rw [text?, bytes, decode?_encode, Option.map_some, String.ofList_toList]

end Decoding

section Order

/-- Sequences of one length compare as they do with more behind them. -/
theorem append_lt_append {a b : List UInt8} (h : a < b)
    (hlength : a.length = b.length) (x y : List UInt8) :
    a ++ x < b ++ y := by
  induction a generalizing b with
  | nil =>
    cases b with
    | nil => exact absurd h (List.not_lt_nil [])
    | cons e b => cases hlength
  | cons e a ih =>
    cases b with
    | nil => cases hlength
    | cons f b =>
      rw [List.cons_append, List.cons_append, List.cons_lt_cons_iff]
      rcases List.cons_lt_cons_iff.mp h with h | ⟨h, hrest⟩
      · exact Or.inl h
      · exact Or.inr ⟨h, ih hrest (Nat.succ.inj hlength)⟩

/-- Of two characters the smaller one has the smaller bytes, whatever
follows them: in one width the first byte that differs decides, and in
different widths the first byte does. -/
theorem append_lt_of_spells {a b : List UInt8} (ha : Spells c a)
    (hb : Spells d b) (h : c < d) (x y : List UInt8) : a ++ x < b ++ y := by
  have hlt : c.toNat < d.toNat := h
  by_cases hlength : a.length = b.length
  · refine append_lt_append ?_ hlength x y
    cases ha <;> cases hb <;>
      first
      | exact absurd hlength (Nat.ne_of_beq_eq_false rfl)
      | simp only [List.cons_lt_cons_iff, UInt8.lt_iff_toNat_lt,
          ← UInt8.toNat_inj, List.not_lt_nil, and_false, or_false]
        omega
  · have hc := toNat_valid c
    have hd := toNat_valid d
    cases ha <;> cases hb <;>
      first
      | exact absurd rfl hlength
      | simp only [List.cons_append, List.cons_lt_cons_iff,
          UInt8.lt_iff_toNat_lt]
        omega

theorem encode_lt_encode {a b : List Char} (h : a < b) :
    encode a < encode b := by
  induction a generalizing b with
  | nil =>
    cases b with
    | nil => exact absurd h (List.not_lt_nil [])
    | cons d b =>
      have hd := spells_encodeChar d
      rw [encode_cons]
      revert hd
      generalize encodeChar d = bytes
      intro hd
      cases hd <;> exact List.nil_lt_cons _ _
  | cons c a ih =>
    cases b with
    | nil => exact absurd h (List.not_lt_nil _)
    | cons d b =>
      rw [encode_cons, encode_cons]
      rcases List.cons_lt_cons_iff.mp h with h | ⟨rfl, hrest⟩
      · exact append_lt_of_spells (spells_encodeChar c)
          (spells_encodeChar d) h _ _
      · exact List.append_left_lt (ih hrest)

/-- The order of texts is that of their bytes. -/
theorem bytes_lt_bytes {a b : String} (h : a < b) : bytes a < bytes b :=
  encode_lt_encode (String.lt_iff.mp h)

end Order

end LiveProperty.Utf8
