import LiveProperty.Json.Written
import LiveProperty.Proofs.Text.Utf8
import Mathlib.Data.Int.Notation

/-!
# Numbers and texts as written

A whole number is read back from its decimal text, `readValue_wholeText`,
and a text from its quoted form, `readPieces_flatMap_escaped` and
`text?_pieces`.  Each reader stops where the number or the text ends.
-/

namespace LiveProperty

/-- The bytes of the decimal text of a natural number. -/
def digitBytes (n : ℕ) : List UInt8 :=
  (Nat.toDigits 10 n).map fun c => .ofNat c.toNat

theorem toNat_of_isDigit {c : Char} (h : c.isDigit) :
    '0'.toNat ≤ c.toNat ∧ c.toNat ≤ '9'.toNat := by
  simp only [Char.isDigit, Bool.and_eq_true, decide_eq_true_eq] at h
  exact h

theorem toNat_ofNat_of_isDigit {c : Char} (h : c.isDigit) :
    (UInt8.ofNat c.toNat).toNat = c.toNat := by
  have hle : c.toNat ≤ 57 := (toNat_of_isDigit h).2
  rw [UInt8.toNat_ofNat']
  omega

namespace Utf8

theorem encode_of_isDigit {cs : List Char} (h : ∀ c ∈ cs, c.isDigit) :
    encode cs = cs.map fun c => .ofNat c.toNat := by
  induction cs with
  | nil => rfl
  | cons c cs ih =>
    have hle : c.toNat ≤ 57 := (toNat_of_isDigit (h c List.mem_cons_self)).2
    rw [encode_cons, encodeChar_of_lt (by omega),
      ih fun d hd => h d (List.mem_cons_of_mem c hd)]
    rfl

theorem encode_toDigits (n : ℕ) : encode (Nat.toDigits 10 n) = digitBytes n :=
  encode_of_isDigit fun _ h =>
    Nat.isDigit_of_mem_toDigits (by decide) (by decide) h

end Utf8

namespace Written

variable {s : List UInt8} {b : UInt8}

/-- What may stand behind a value: a comma or a closing bracket. -/
def isMark (b : UInt8) : Bool :=
  isAt b ',' || isAt b ']' || isAt b '\x7d'

/-- Nothing follows that could belong to a number. -/
def Closed (s : List UInt8) : Prop :=
  ∀ b ∈ s.head?, isMark b

theorem closed_nil : Closed [] := by simp [Closed]

theorem closed_cons (h : isMark b) : Closed (b :: s) := by
  simpa [Closed] using h

theorem toNat_of_isMark (h : isMark b) :
    b.toNat = 44 ∨ b.toNat = 93 ∨ b.toNat = 125 := by
  simp only [isMark, isAt, Bool.or_eq_true, decide_eq_true_eq,
    or_assoc] at h
  exact h

section Digits

theorem isDigit_iff : isDigit b ↔ 48 ≤ b.toNat ∧ b.toNat ≤ 57 := by
  simp only [isDigit, decide_eq_true_eq]
  exact Iff.rfl

theorem not_isDigit_of_isMark (h : isMark b) : isDigit b = false := by
  rw [← Bool.not_eq_true, isDigit_iff]
  have hmark := toNat_of_isMark h
  omega

theorem isDigit_of_mem_digitBytes {n : ℕ} (h : b ∈ digitBytes n) :
    isDigit b := by
  obtain ⟨c, hc, rfl⟩ := List.mem_map.mp h
  have hdigit : c.isDigit :=
    Nat.isDigit_of_mem_toDigits (by decide) (by decide) hc
  rw [isDigit_iff, toNat_ofNat_of_isDigit hdigit]
  exact toNat_of_isDigit hdigit

/-- The decimal text of a number starts with a digit. -/
theorem digitBytes_eq_cons (n : ℕ) :
    ∃ d ds, digitBytes n = d :: ds ∧ isDigit d := by
  cases hbytes : digitBytes n with
  | nil => simp [digitBytes, Nat.toDigits_ne_nil] at hbytes
  | cons d ds =>
    exact ⟨d, ds, rfl,
      isDigit_of_mem_digitBytes (hbytes ▸ List.mem_cons_self)⟩

/-- The digits of a number, as they are read. -/
def digits (n : ℕ) : List ℕ :=
  (Nat.toDigits 10 n).map fun c => c.toNat - '0'.toNat

theorem digitsValue_digits (n : ℕ) : digitsValue (digits n) = n := by
  rw [digitsValue, digits, List.foldl_map]
  exact Nat.ofDigitChars_ten_toDigits

theorem digits_ne_nil (n : ℕ) : digits n ≠ [] := by
  simp [digits, Nat.toDigits_ne_nil]

theorem digits_zero : digits 0 = [0] := by decide

/-- A number of several digits does not start with a zero. -/
theorem head?_digits {n : ℕ} (h : 0 < n) : (digits n).head? ≠ some 0 := by
  induction n using Nat.strongRecOn with
  | ind n ih =>
    by_cases hn : n < 10
    · have hdigit := Nat.toNat_digitChar_sub_48_of_lt_ten hn
      simp only [digits, Nat.toDigits_of_lt_base hn, List.map_cons,
        List.head?_cons, ne_eq, Option.some.injEq]
      exact fun hzero => by
        have hzero : n.digitChar.toNat - 48 = 0 := hzero
        omega
    · have htail : digits n = digits (n / 10) ++ [(n % 10).digitChar.toNat -
          '0'.toNat] := by
        simp only [digits]
        rw [Nat.toDigits_of_base_le (by decide) (by omega), List.map_append]
        rfl
      rw [htail, List.head?_append_of_ne_nil _ (digits_ne_nil _)]
      exact ih (n / 10) (by omega) (by omega)

theorem readDigits_digitBytes (n : ℕ) (h : Closed s) :
    readDigits (digitBytes n ++ s) = .ok (digits n, s) := by
  have hdigits : ∀ x ∈ digitBytes n, isDigit x :=
    fun x hx => isDigit_of_mem_digitBytes hx
  have hstop : s.takeWhile isDigit = [] ∧ s.dropWhile isDigit = s := by
    cases s with
    | nil => exact ⟨rfl, rfl⟩
    | cons b s =>
      have hmark := not_isDigit_of_isMark (h b rfl)
      exact ⟨by simp [hmark], by simp [hmark]⟩
  have htake : (digitBytes n ++ s).takeWhile isDigit = digitBytes n := by
    rw [List.takeWhile_append_of_pos hdigits, hstop.1, List.append_nil]
  have hdrop : (digitBytes n ++ s).dropWhile isDigit = s := by
    rw [List.dropWhile_append_of_pos hdigits, hstop.2]
  have hne : (digitBytes n).isEmpty = false := by
    simp [digitBytes, Nat.toDigits_ne_nil]
  have hmap : (digitBytes n).map (fun d => d.toNat - '0'.toNat) = digits n := by
    rw [digitBytes, List.map_map, digits]
    apply List.map_congr_left
    intro c hc
    have hdigit : c.isDigit :=
      Nat.isDigit_of_mem_toDigits (by decide) (by decide) hc
    simp only [Function.comp_apply]
    rw [toNat_ofNat_of_isDigit hdigit]
  simp only [readDigits, htake, hdrop, hne, hmap]
  rfl

theorem readWhole_digitBytes (n : ℕ) (h : Closed s) :
    readWhole (digitBytes n ++ s) = .ok (digits n, s) := by
  have hleading : ¬ ((digits n).head? = some 0 ∧ (digits n).length ≠ 1) := by
    rintro ⟨hzero, hlength⟩
    rcases Nat.eq_zero_or_pos n with rfl | hpos
    · exact hlength (by rw [digits_zero]; rfl)
    · exact head?_digits hpos hzero
  simp only [readWhole, readDigits_digitBytes n h, bind, Except.bind]
  rw [if_neg hleading]

theorem readFraction_of_closed (h : Closed s) :
    readFraction s = .ok ([], s) := by
  cases s with
  | nil => rfl
  | cons b s =>
    have hmark := toNat_of_isMark (h b rfl)
    have hpoint : isAt b '.' = false := by
      have hne : ¬ b.toNat = 46 := by omega
      exact decide_eq_false hne
    simp [readFraction, hpoint]

theorem readExponent_of_closed (h : Closed s) :
    readExponent s = .ok (none, s) := by
  cases s with
  | nil => rfl
  | cons b s =>
    have hmark := toNat_of_isMark (h b rfl)
    have hlower : isAt b 'e' = false := by
      have hne : ¬ b.toNat = 101 := by omega
      exact decide_eq_false hne
    have hupper : isAt b 'E' = false := by
      have hne : ¬ b.toNat = 69 := by omega
      exact decide_eq_false hne
    simp [readExponent, hlower, hupper]

theorem readMagnitude_digitBytes (negative : Bool) (n : ℕ) (h : Closed s) :
    readMagnitude negative (digitBytes n ++ s) =
      .ok (⟨negative, digits n, [], none⟩, s) := by
  simp only [readMagnitude, readWhole_digitBytes n h,
    readFraction_of_closed h, readExponent_of_closed h, bind, Except.bind]

end Digits

section Numbers

/-- What is written for a whole number. -/
def numeral (n : ℤ) : Numeral :=
  ⟨n < 0, digits n.natAbs, [], none⟩

theorem encode_wholeText_of_nonneg {n : ℤ} (h : 0 ≤ n) :
    Utf8.encode (wholeText n) = digitBytes n.natAbs := by
  cases n with
  | ofNat n => exact Utf8.encode_toDigits n
  | negSucc n => omega

theorem encode_wholeText_of_neg {n : ℤ} (h : n < 0) :
    Utf8.encode (wholeText n) = .ofNat '-'.toNat :: digitBytes n.natAbs := by
  cases n with
  | ofNat n => exact absurd h (Int.not_lt.mpr (Int.natCast_nonneg n))
  | negSucc n =>
    rw [wholeText, Utf8.encode_cons, Utf8.encode_toDigits]
    rfl

/-- The first byte of a number tells it from every other value. -/
theorem readValue_wholeText (fuel : ℕ) (n : ℤ) (h : Closed s) :
    readValue (fuel + 1) (Utf8.encode (wholeText n) ++ s) =
      .ok (.number (numeral n), s) := by
  by_cases hn : n < 0
  · have hread := readMagnitude_digitBytes true n.natAbs h
    have hother (c : Char) (hc : c.toNat ≠ '-'.toNat ∧ c.toNat < 256) :
        isAt (.ofNat '-'.toNat) c = false :=
      decide_eq_false (Ne.symm hc.1)
    have hminus : isAt (.ofNat '-'.toNat) '-' = true := by decide
    rw [encode_wholeText_of_neg hn, List.cons_append]
    simp only [readValue, hother 'n' (by decide), hother 't' (by decide),
      hother 'f' (by decide), hother '"' (by decide), hother '[' (by decide),
      hother '\x7b' (by decide), hminus, hread, bind, Except.bind]
    simp [numeral, hn]
  · obtain ⟨d, ds, hbytes, hdigit⟩ := digitBytes_eq_cons n.natAbs
    have hread := readMagnitude_digitBytes false n.natAbs h
    have hother (c : Char) (hc : c.toNat < '0'.toNat ∨ '9'.toNat < c.toNat) :
        isAt d c = false := by
      rw [isDigit_iff] at hdigit
      have hc : c.toNat < 48 ∨ 57 < c.toNat := hc
      simp only [isAt, decide_eq_false_iff_not]
      omega
    rw [encode_wholeText_of_nonneg (Int.not_lt.mp hn)]
    rw [hbytes, List.cons_append] at hread ⊢
    simp only [readValue, hother 'n' (by decide), hother 't' (by decide),
      hother 'f' (by decide), hother '"' (by decide), hother '[' (by decide),
      hother '\x7b' (by decide), hother '-' (by decide), hread, bind,
      Except.bind]
    simp [numeral, hn]

theorem size_numeral (n : ℤ) : (numeral n).size = n.natAbs :=
  digitsValue_digits n.natAbs

theorem whole?_numeral (n : ℤ) : (numeral n).whole? = some n := by
  have hplain : (numeral n).plain := rfl
  rw [Numeral.whole?, size_numeral, if_pos hplain]
  by_cases hn : n < 0
  · have hnegative : (numeral n).negative = true := decide_eq_true hn
    rw [if_pos hnegative]
    congr 1
    omega
  · have hnegative : (numeral n).negative ≠ true := by
      simpa [numeral] using hn
    rw [if_neg hnegative]
    congr 1
    omega

/-- A whole number in range is the value of its numeral. -/
theorem value?_numeral {n : ℤ} (h : Json.isWhole n) :
    (numeral n).value? = some (.whole n) := by
  have hzero : ¬ ((numeral n).negative ∧ (numeral n).size = 0) := by
    rw [size_numeral]
    simp only [numeral, decide_eq_true_eq]
    omega
  rw [Numeral.value?, whole?_numeral]
  exact if_pos ⟨h, hzero⟩

end Numbers

section Texts

/-- A character that has a short escape. -/
def hasShortEscape (c : Char) : Bool :=
  c = '\x08' || c = '\x0c' || c = '\n' || c = '\r' || c = '\t'

/-- The pieces that are read for one character: a control character without
a short escape is given by its number. -/
def charPieces (c : Char) : List Piece :=
  if c.toNat < 0x20 ∧ hasShortEscape c = false then [.unit c.toNat]
  else (Utf8.encodeChar c).map .byte

/-- What is written for a text. -/
def pieces (s : String) : List Piece :=
  s.toList.flatMap charPieces

/-- Bytes that are neither quotes nor backslashes nor control characters
stand for themselves. -/
theorem readPieces_append {bytes : List UInt8}
    (h : ∀ b ∈ bytes, 0x20 ≤ b.toNat ∧ isAt b '"' = false ∧
      isAt b '\\' = false) :
    readPieces (bytes ++ s) =
      (bytes.map Piece.byte).foldr consPiece (readPieces s) := by
  induction bytes with
  | nil => rfl
  | cons b bytes ih =>
    obtain ⟨hge, hquote, hslash⟩ := h b List.mem_cons_self
    rw [List.cons_append, readPieces.eq_def]
    simp only [hquote, hslash, Bool.false_eq_true, if_false,
      if_neg (Nat.not_lt.mpr hge),
      ih fun b hb => h b (List.mem_cons_of_mem _ hb)]
    rfl

theorem plain_of_spells {c : Char} {bytes : List UInt8}
    (h : Utf8.Spells c bytes) (hge : 0x20 ≤ c.toNat) (hquote : c ≠ '"')
    (hslash : c ≠ '\\') :
    ∀ b ∈ bytes, 0x20 ≤ b.toNat ∧ isAt b '"' = false ∧
      isAt b '\\' = false := by
  -- Every byte of a wider character is beyond ASCII.
  have hwide {b : UInt8} (hb : 0x80 ≤ b.toNat) : 0x20 ≤ b.toNat ∧
      isAt b '"' = false ∧ isAt b '\\' = false := by
    have hne : ¬ b.toNat = 34 ∧ ¬ b.toNat = 92 := by omega
    exact ⟨by omega, decide_eq_false hne.1, decide_eq_false hne.2⟩
  cases h with
  | one h hlt =>
    intro b hb
    obtain rfl := List.mem_singleton.mp hb
    refine ⟨h ▸ hge, decide_eq_false ?_, decide_eq_false ?_⟩
    · exact fun heq => hquote (Char.toNat_inj.mp (h.symm.trans heq))
    · exact fun heq => hslash (Char.toNat_inj.mp (h.symm.trans heq))
  | two h₁ h₂ =>
    simp only [List.mem_cons, List.not_mem_nil, or_false]
    rintro b (rfl | rfl) <;> exact hwide (by omega)
  | three h₁ h₂ h₃ =>
    simp only [List.mem_cons, List.not_mem_nil, or_false]
    rintro b (rfl | rfl | rfl) <;> exact hwide (by omega)
  | four h₁ h₂ h₃ h₄ =>
    simp only [List.mem_cons, List.not_mem_nil, or_false]
    rintro b (rfl | rfl | rfl | rfl) <;> exact hwide (by omega)

theorem readPieces_escape {e : UInt8} (hunit : isAt e 'u' = false)
    (hescape : escape? e = some b) :
    readPieces (.ofNat '\\'.toNat :: e :: s) =
      consPiece (.byte b) (readPieces s) := by
  have hquote : isAt (.ofNat '\\'.toNat) '"' = false := by decide
  have hslash : isAt (.ofNat '\\'.toNat) '\\' = true := by decide
  rw [readPieces.eq_def]
  simp only [hquote, hslash, hunit, hescape, Bool.false_eq_true, if_false,
    if_true]

theorem unit?_hexDigit : ∀ n < 0x20,
    unit? (.ofNat '0'.toNat) (.ofNat '0'.toNat)
      (.ofNat (Json.hexDigit (n / 16)).toNat)
      (.ofNat (Json.hexDigit (n % 16)).toNat) = some n := by
  decide

theorem readPieces_unit {n : ℕ} (h : n < 0x20) :
    readPieces (Utf8.encode ['\\', 'u', '0', '0', Json.hexDigit (n / 16),
        Json.hexDigit (n % 16)] ++ s) =
      consPiece (.unit n) (readPieces s) := by
  have hascii : ∀ m < 16, (Json.hexDigit m).toNat < 0x80 := by decide
  have hbytes : Utf8.encode ['\\', 'u', '0', '0', Json.hexDigit (n / 16),
      Json.hexDigit (n % 16)] =
        [.ofNat '\\'.toNat, .ofNat 'u'.toNat, .ofNat '0'.toNat,
          .ofNat '0'.toNat, .ofNat (Json.hexDigit (n / 16)).toNat,
          .ofNat (Json.hexDigit (n % 16)).toNat] := by
    simp only [Utf8.encode_cons]
    rw [Utf8.encodeChar_of_lt (hascii (n / 16) (by omega)),
      Utf8.encodeChar_of_lt (hascii (n % 16) (by omega))]
    rfl
  have hquote : isAt (.ofNat '\\'.toNat) '"' = false := by decide
  have hslash : isAt (.ofNat '\\'.toNat) '\\' = true := by decide
  have hunit : isAt (.ofNat 'u'.toNat) 'u' = true := by decide
  rw [hbytes, List.cons_append, readPieces.eq_def]
  simp only [hquote, hslash, hunit, Bool.false_eq_true, if_false, if_true,
    List.cons_append, unit?_hexDigit n h, List.nil_append]

/-- The pieces of one character are read off its escaped form. -/
theorem readPieces_escaped (c : Char) :
    readPieces (Utf8.encode (Json.escaped c) ++ s) =
      (charPieces c).foldr consPiece (readPieces s) := by
  simp only [Json.escaped]
  split_ifs with hquote hslash hb hf hn hr ht hcontrol
  · subst hquote; exact readPieces_escape (by decide) (by decide)
  · subst hslash; exact readPieces_escape (by decide) (by decide)
  · subst hb; exact readPieces_escape (by decide) (by decide)
  · subst hf; exact readPieces_escape (by decide) (by decide)
  · subst hn; exact readPieces_escape (by decide) (by decide)
  · subst hr; exact readPieces_escape (by decide) (by decide)
  · subst ht; exact readPieces_escape (by decide) (by decide)
  · have hshort : hasShortEscape c = false := by
      simp [hasShortEscape, hb, hf, hn, hr, ht]
    rw [readPieces_unit hcontrol, charPieces, if_pos ⟨hcontrol, hshort⟩]
    rfl
  · have hplain := plain_of_spells (Utf8.spells_encodeChar c)
      (Nat.not_lt.mp hcontrol) hquote hslash
    rw [charPieces, if_neg fun h => hcontrol h.1, Utf8.encode_cons,
      ← readPieces_append hplain]
    simp [Utf8.encode]

theorem foldr_consPiece (ps qs : List Piece) (rest : List UInt8) :
    ps.foldr consPiece (.ok (qs, rest)) = .ok (ps ++ qs, rest) := by
  induction ps with
  | nil => rfl
  | cons p ps ih =>
    rw [List.foldr_cons, ih]
    rfl

/-- A quoted text is read up to its closing quote. -/
theorem readPieces_flatMap_escaped (cs : List Char) :
    readPieces (Utf8.encode (cs.flatMap Json.escaped) ++
        .ofNat '"'.toNat :: s) =
      .ok (cs.flatMap charPieces, s) := by
  induction cs with
  | nil =>
    have hquote : isAt (.ofNat '"'.toNat) '"' = true := by decide
    rw [List.flatMap_nil, Utf8.encode, List.flatMap_nil, List.nil_append,
      readPieces.eq_def]
    simp only [hquote, if_true, List.flatMap_nil]
  | cons c cs ih =>
    rw [List.flatMap_cons, Utf8.encode_append, List.append_assoc,
      readPieces_escaped, ih, foldr_consPiece, List.flatMap_cons]

theorem encode_quoted (t : String) :
    Utf8.encode (Json.quoted t) ++ s = .ofNat '"'.toNat ::
      (Utf8.encode (t.toList.flatMap Json.escaped) ++
        .ofNat '"'.toNat :: s) := by
  rw [Json.quoted, Utf8.encode_cons, Utf8.encode_append]
  simp [Utf8.encode, Utf8.encodeChar_of_lt]

theorem bytes?_map_byte_append (bytes : List UInt8) (ps : List Piece) :
    Piece.bytes? (bytes.map .byte ++ ps) =
      (Piece.bytes? ps).map (bytes ++ ·) := by
  induction bytes with
  | nil => simp
  | cons b bytes ih =>
    rw [List.map_cons, List.cons_append, Piece.bytes?, ih, Option.map_map]
    rfl

theorem bytes?_charPieces_append (c : Char) (ps : List Piece) :
    Piece.bytes? (charPieces c ++ ps) =
      (Piece.bytes? ps).map (Utf8.encodeChar c ++ ·) := by
  rw [charPieces]
  split
  · next h =>
    have htrailing : Piece.isTrailing c.toNat = false := by
      rw [Piece.isTrailing, decide_eq_false_iff_not]
      omega
    have hleading : Piece.isLeading c.toNat = false := by
      rw [Piece.isLeading, decide_eq_false_iff_not]
      omega
    rw [List.singleton_append, Piece.bytes?.eq_def]
    simp only [htrailing, hleading, Bool.false_eq_true, if_false,
      Char.ofNat_toNat]
  · exact bytes?_map_byte_append _ ps

theorem bytes?_flatMap_charPieces (cs : List Char) :
    Piece.bytes? (cs.flatMap charPieces) = some (Utf8.encode cs) := by
  induction cs with
  | nil => rfl
  | cons c cs ih =>
    rw [List.flatMap_cons, bytes?_charPieces_append, ih]
    rfl

/-- A text is what its pieces stand for. -/
theorem text?_pieces (t : String) : Piece.text? (pieces t) = some t := by
  rw [Piece.text?, pieces, bytes?_flatMap_charPieces]
  exact Utf8.text?_bytes t

end Texts

end Written
end LiveProperty
