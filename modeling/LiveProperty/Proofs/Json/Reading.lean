import LiveProperty.Proofs.Dictionaries
import LiveProperty.Proofs.Json.Scalars

/-!
# Values read from their own text

What the compact text of a JSON value says is what the reader makes of it:
`Json.read_chars` for the grammar and `Json.ofWritten?_written` for the
meaning.  Both hold of values without doubles, and the second one within the
bound on nesting and of exact values only: those with whole numbers in range
and with fields in key order.
-/

namespace LiveProperty

namespace Json

mutual

/-- A value that its text tells exactly: without doubles, with whole numbers
in range, and with the fields of every object in key order. -/
def Exact : Json → Prop
  | .null | .bool _ | .text _ => True
  | .whole n => isWhole n
  | .double _ => False
  | .array items => ExactItems items
  | .object fields => Dictionary.Ordered fields ∧ ExactFields fields

/-- Items are exact. -/
def ExactItems : List Json → Prop
  | [] => True
  | item :: rest => item.Exact ∧ ExactItems rest

/-- The values of fields are exact. -/
def ExactFields : List (String × Json) → Prop
  | [] => True
  | (_, value) :: rest => value.Exact ∧ ExactFields rest

end

mutual

/-- How deep the arrays and objects of a value nest. -/
def depth : Json → ℕ
  | .array items => itemsDepth items + 1
  | .object fields => fieldsDepth fields + 1
  | _ => 0

/-- How deep the deepest item nests. -/
def itemsDepth : List Json → ℕ
  | [] => 0
  | item :: rest => max item.depth (itemsDepth rest)

/-- How deep the deepest field nests. -/
def fieldsDepth : List (String × Json) → ℕ
  | [] => 0
  | (_, value) :: rest => max value.depth (fieldsDepth rest)

end

mutual

/-- What is written for a value; the numerals of doubles are left out. -/
def written : Json → Written
  | .null | .double _ => .null
  | .bool b => .bool b
  | .whole n => .number (Written.numeral n)
  | .text s => .text (Written.pieces s)
  | .array items => .array (writtenItems items)
  | .object fields => .object (writtenFields fields)

/-- What is written for items. -/
def writtenItems : List Json → List Written
  | [] => []
  | item :: rest => item.written :: writtenItems rest

/-- What is written for fields. -/
def writtenFields : List (String × Json) → List (List Piece × Written)
  | [] => []
  | (key, value) :: rest =>
    (Written.pieces key, value.written) :: writtenFields rest

end

/-- The bytes of items with commas between them. -/
def itemsBytes (items : List Json) : List UInt8 :=
  Utf8.encode (separated (itemChars items))

/-- The bytes of fields with commas between them. -/
def fieldsBytes (fields : List (String × Json)) : List UInt8 :=
  Utf8.encode (separated (fieldChars fields))

end Json

namespace Written

open Json

variable {s : List UInt8} {b : UInt8}

/-- Whether a byte may be the first one of a value. -/
def isStart (b : UInt8) : Bool :=
  !isBlank b && !isAt b ']'

theorem afterBlanks_of_not_isBlank (h : isBlank b = false) :
    afterBlanks (b :: s) = b :: s :=
  List.dropWhile_cons_of_neg (Bool.eq_false_iff.mp h)

theorem afterBlanks_of_isStart (h : isStart b) :
    afterBlanks (b :: s) = b :: s := by
  simp only [isStart, Bool.and_eq_true, Bool.not_eq_true'] at h
  exact afterBlanks_of_not_isBlank h.1

theorem isStart_of_isDigit (h : isDigit b) : isStart b := by
  rw [isDigit_iff] at h
  have hother (c : Char) (hc : c.toNat < 48 ∨ 57 < c.toNat) :
      isAt b c = false := by
    rw [isAt, decide_eq_false_iff_not]
    omega
  simp [isStart, isBlank, hother ' ' (by decide), hother '\t' (by decide),
    hother '\n' (by decide), hother '\r' (by decide), hother ']' (by decide)]

theorem exists_start_wholeText (n : ℤ) :
    ∃ b bs, Utf8.encode (wholeText n) = b :: bs ∧ isStart b := by
  by_cases hn : n < 0
  · exact ⟨_, _, encode_wholeText_of_neg hn, by decide⟩
  · obtain ⟨d, ds, hbytes, hdigit⟩ := digitBytes_eq_cons n.natAbs
    rw [encode_wholeText_of_nonneg (Int.not_lt.mp hn)]
    exact ⟨d, ds, hbytes, isStart_of_isDigit hdigit⟩

/-- The text of a value starts with neither a blank nor a closing bracket. -/
theorem exists_start {j : Json} (h : j.Exact) :
    ∃ b bs, Utf8.encode j.chars = b :: bs ∧ isStart b := by
  cases j with
  | null => exact ⟨_, _, rfl, by decide⟩
  | bool b => cases b <;> exact ⟨_, _, rfl, by decide⟩
  | whole n => exact exists_start_wholeText n
  | double x => exact absurd h (by simp [Exact])
  | text t => exact ⟨_, _, rfl, by decide⟩
  | array items => exact ⟨_, _, by rw [chars]; rfl, by decide⟩
  | object fields => exact ⟨_, _, by rw [chars]; rfl, by decide⟩

theorem afterBlanks_chars {j : Json} (h : j.Exact) :
    afterBlanks (Utf8.encode j.chars ++ s) = Utf8.encode j.chars ++ s := by
  obtain ⟨b, bs, hbytes, hstart⟩ := exists_start h
  rw [hbytes, List.cons_append]
  exact afterBlanks_of_isStart hstart

theorem itemsBytes_singleton (j : Json) :
    itemsBytes [j] = Utf8.encode j.chars := by
  simp only [itemsBytes, itemChars, separated]

theorem itemsBytes_cons_cons (i j : Json) (items : List Json) :
    itemsBytes (i :: j :: items) =
      Utf8.encode i.chars ++ .ofNat ','.toNat :: itemsBytes (j :: items) := by
  simp only [itemsBytes, itemChars, separated]
  rw [Utf8.encode_append]
  rfl

/-- The bytes of one field. -/
def fieldBytes (key : String) (value : Json) : List UInt8 :=
  Utf8.encode (quoted key) ++ .ofNat ':'.toNat :: Utf8.encode value.chars

theorem length_fieldBytes (key : String) (value : Json) :
    (fieldBytes key value).length =
      (Utf8.encode (quoted key)).length +
        ((Utf8.encode value.chars).length + 1) := by
  rw [fieldBytes, List.length_append, List.length_cons]

theorem fieldsBytes_singleton (key : String) (value : Json) :
    fieldsBytes [(key, value)] = fieldBytes key value := by
  simp only [fieldsBytes, fieldChars, separated, fieldBytes]
  rw [Utf8.encode_append]
  rfl

theorem fieldsBytes_cons_cons (key : String) (value : Json)
    (field : String × Json) (fields : List (String × Json)) :
    fieldsBytes ((key, value) :: field :: fields) =
      fieldBytes key value ++ .ofNat ','.toNat ::
        fieldsBytes (field :: fields) := by
  obtain ⟨key', value'⟩ := field
  simp only [fieldsBytes, fieldChars, separated, fieldBytes]
  rw [Utf8.encode_append, Utf8.encode_append, List.append_assoc,
    List.append_assoc, List.cons_append]
  rfl

theorem encode_chars_array (items : List Json) :
    Utf8.encode (Json.array items).chars =
      .ofNat '['.toNat :: (itemsBytes items ++ [.ofNat ']'.toNat]) := by
  rw [chars, Utf8.encode_cons, Utf8.encode_append]
  rfl

theorem encode_chars_object (fields : List (String × Json)) :
    Utf8.encode (Json.object fields).chars =
      .ofNat '\x7b'.toNat ::
        (fieldsBytes fields ++ [.ofNat '\x7d'.toNat]) := by
  rw [chars, Utf8.encode_cons, Utf8.encode_append]
  rfl

theorem readWord_encode (word : List Char) (value : Written) :
    readWord word value (Utf8.encode word ++ s) = .ok (value, s) := by
  simp [readWord]

theorem readValue_text (fuel : ℕ) (t : String) :
    readValue (fuel + 1) (Utf8.encode (quoted t) ++ s) =
      .ok (.text (pieces t), s) := by
  have hquote : isAt (.ofNat '"'.toNat) '"' = true := by decide
  have hn : isAt (.ofNat '"'.toNat) 'n' = false := by decide
  have ht : isAt (.ofNat '"'.toNat) 't' = false := by decide
  have hf : isAt (.ofNat '"'.toNat) 'f' = false := by decide
  rw [encode_quoted]
  simp only [readValue, hquote, hn, ht, hf, readPieces_flatMap_escaped, bind,
    Except.bind]
  rfl

theorem readValue_null (fuel : ℕ) :
    readValue (fuel + 1) (Utf8.encode Json.null.chars ++ s) =
      .ok (.null, s) := by
  have hn : isAt (.ofNat 'n'.toNat) 'n' = true := by decide
  have hword : readWord ['n', 'u', 'l', 'l'] .null
      (.ofNat 'n'.toNat :: (Utf8.encode ['u', 'l', 'l'] ++ s)) =
        .ok (.null, s) :=
    readWord_encode ['n', 'u', 'l', 'l'] .null
  change readValue _ (.ofNat 'n'.toNat :: (Utf8.encode ['u', 'l', 'l'] ++ s)) =
    _
  simp only [readValue, hn, if_true, hword]

theorem readValue_true (fuel : ℕ) :
    readValue (fuel + 1) (Utf8.encode (Json.bool true).chars ++ s) =
      .ok (.bool true, s) := by
  have hn : isAt (.ofNat 't'.toNat) 'n' = false := by decide
  have ht : isAt (.ofNat 't'.toNat) 't' = true := by decide
  have hword : readWord ['t', 'r', 'u', 'e'] (.bool true)
      (.ofNat 't'.toNat :: (Utf8.encode ['r', 'u', 'e'] ++ s)) =
        .ok (.bool true, s) :=
    readWord_encode ['t', 'r', 'u', 'e'] (.bool true)
  change readValue _ (.ofNat 't'.toNat :: (Utf8.encode ['r', 'u', 'e'] ++ s)) =
    _
  simp only [readValue, hn, ht, Bool.false_eq_true, if_false, if_true, hword]

theorem readValue_false (fuel : ℕ) :
    readValue (fuel + 1) (Utf8.encode (Json.bool false).chars ++ s) =
      .ok (.bool false, s) := by
  have hn : isAt (.ofNat 'f'.toNat) 'n' = false := by decide
  have ht : isAt (.ofNat 'f'.toNat) 't' = false := by decide
  have hf : isAt (.ofNat 'f'.toNat) 'f' = true := by decide
  have hword : readWord ['f', 'a', 'l', 's', 'e'] (.bool false)
      (.ofNat 'f'.toNat :: (Utf8.encode ['a', 'l', 's', 'e'] ++ s)) =
        .ok (.bool false, s) :=
    readWord_encode ['f', 'a', 'l', 's', 'e'] (.bool false)
  change readValue _
    (.ofNat 'f'.toNat :: (Utf8.encode ['a', 'l', 's', 'e'] ++ s)) = _
  simp only [readValue, hn, ht, hf, Bool.false_eq_true, if_false, if_true,
    hword]

/-- A nonempty array is read as its items are. -/
theorem readValue_array {fuel : ℕ} {bytes rest : List UInt8}
    {items : List Written} (hstart : ∃ b bs, bytes = b :: bs ∧ isStart b)
    (h : readItems fuel bytes = .ok (items, rest)) :
    readValue (fuel + 1) (.ofNat '['.toNat :: bytes) =
      .ok (.array items, rest) := by
  obtain ⟨b, bs, rfl, hb⟩ := hstart
  have hopen : isAt (.ofNat '['.toNat) '[' = true := by decide
  have hn : isAt (.ofNat '['.toNat) 'n' = false := by decide
  have ht : isAt (.ofNat '['.toNat) 't' = false := by decide
  have hf : isAt (.ofNat '['.toNat) 'f' = false := by decide
  have hquote : isAt (.ofNat '['.toNat) '"' = false := by decide
  simp only [isStart, Bool.and_eq_true, Bool.not_eq_true'] at hb
  simp only [readValue, hopen, hn, ht, hf, hquote, Bool.false_eq_true,
    if_false, if_true, afterBlanks_of_not_isBlank hb.1, List.head?_cons,
    Option.any_some, hb.2, h, bind, Except.bind]

/-- A nonempty object is read as its fields are. -/
theorem readValue_object {fuel : ℕ} {bytes rest : List UInt8}
    {fields : List (List Piece × Written)}
    (h : readFields fuel (.ofNat '"'.toNat :: bytes) = .ok (fields, rest)) :
    readValue (fuel + 1)
        (.ofNat '\x7b'.toNat :: .ofNat '"'.toNat :: bytes) =
      .ok (.object fields, rest) := by
  have hopen : isAt (.ofNat '\x7b'.toNat) '\x7b' = true := by decide
  have hn : isAt (.ofNat '\x7b'.toNat) 'n' = false := by decide
  have ht : isAt (.ofNat '\x7b'.toNat) 't' = false := by decide
  have hf : isAt (.ofNat '\x7b'.toNat) 'f' = false := by decide
  have hquote : isAt (.ofNat '\x7b'.toNat) '"' = false := by decide
  have harray : isAt (.ofNat '\x7b'.toNat) '[' = false := by decide
  have hblank : isBlank (.ofNat '"'.toNat) = false := by decide
  have hclose : isAt (.ofNat '"'.toNat) '\x7d' = false := by decide
  simp only [readValue, hopen, hn, ht, hf, hquote, harray,
    Bool.false_eq_true, if_false, if_true,
    afterBlanks_of_not_isBlank hblank, List.head?_cons, Option.any_some,
    hclose, h, bind, Except.bind]

theorem readItems_last {fuel : ℕ} {bytes rest : List UInt8} {w : Written}
    (h : readValue fuel bytes = .ok (w, .ofNat ']'.toNat :: rest)) :
    readItems (fuel + 1) bytes = .ok ([w], rest) := by
  have hclose : isAt (.ofNat ']'.toNat) ']' = true := by decide
  have hblank : isBlank (.ofNat ']'.toNat) = false := by decide
  simp only [readItems, h, bind, Except.bind,
    afterBlanks_of_not_isBlank hblank, hclose, if_true]

theorem readItems_more {fuel : ℕ} {bytes bytes' rest : List UInt8}
    {w : Written} {ws : List Written}
    (h : readValue fuel bytes = .ok (w, .ofNat ','.toNat :: bytes'))
    (hstart : afterBlanks bytes' = bytes')
    (hrest : readItems fuel bytes' = .ok (ws, rest)) :
    readItems (fuel + 1) bytes = .ok (w :: ws, rest) := by
  have hclose : isAt (.ofNat ','.toNat) ']' = false := by decide
  have hcomma : isAt (.ofNat ','.toNat) ',' = true := by decide
  have hblank : isBlank (.ofNat ','.toNat) = false := by decide
  simp only [readItems, h, bind, Except.bind,
    afterBlanks_of_not_isBlank hblank, hclose, hcomma, Bool.false_eq_true,
    if_false, if_true, hstart, hrest]

section Fields

variable {fuel : ℕ} {key : String} {value : Json} {w : Written}
  {rest rest' : List UInt8} {ws : List (List Piece × Written)}

theorem readFields_last
    (hstart : afterBlanks (Utf8.encode value.chars ++ rest') =
      Utf8.encode value.chars ++ rest')
    (h : readValue fuel (Utf8.encode value.chars ++ rest') =
      .ok (w, .ofNat '\x7d'.toNat :: rest)) :
    readFields (fuel + 1) (fieldBytes key value ++ rest') =
      .ok ([(pieces key, w)], rest) := by
  have hquote : isAt (.ofNat '"'.toNat) '"' = true := by decide
  have hcolon : isAt (.ofNat ':'.toNat) ':' = true := by decide
  have hblank : isBlank (.ofNat ':'.toNat) = false := by decide
  have hclose : isAt (.ofNat '\x7d'.toNat) '\x7d' = true := by decide
  have hblank' : isBlank (.ofNat '\x7d'.toNat) = false := by decide
  rw [fieldBytes, List.append_assoc, encode_quoted, List.cons_append]
  simp only [readFields, hquote, if_true, readPieces_flatMap_escaped, bind,
    Except.bind, afterBlanks_of_not_isBlank hblank, hcolon, hstart, h,
    afterBlanks_of_not_isBlank hblank', hclose]
  rfl

theorem readFields_more {bytes : List UInt8}
    (hstart : afterBlanks (Utf8.encode value.chars ++ rest') =
      Utf8.encode value.chars ++ rest')
    (h : readValue fuel (Utf8.encode value.chars ++ rest') =
      .ok (w, .ofNat ','.toNat :: bytes))
    (hstart' : afterBlanks bytes = bytes)
    (hrest : readFields fuel bytes = .ok (ws, rest)) :
    readFields (fuel + 1) (fieldBytes key value ++ rest') =
      .ok ((pieces key, w) :: ws, rest) := by
  have hquote : isAt (.ofNat '"'.toNat) '"' = true := by decide
  have hcolon : isAt (.ofNat ':'.toNat) ':' = true := by decide
  have hblank : isBlank (.ofNat ':'.toNat) = false := by decide
  have hclose : isAt (.ofNat ','.toNat) '\x7d' = false := by decide
  have hcomma : isAt (.ofNat ','.toNat) ',' = true := by decide
  have hblank' : isBlank (.ofNat ','.toNat) = false := by decide
  rw [fieldBytes, List.append_assoc, encode_quoted, List.cons_append]
  simp only [readFields, hquote, if_true, readPieces_flatMap_escaped, bind,
    Except.bind, afterBlanks_of_not_isBlank hblank, hcolon, hstart, h,
    afterBlanks_of_not_isBlank hblank', hclose, hcomma, Bool.false_eq_true,
    if_false, hstart', hrest]
  rfl

end Fields

theorem exists_start_itemsBytes {item : Json} (items : List Json)
    (h : item.Exact) :
    ∃ b bs, itemsBytes (item :: items) = b :: bs ∧ isStart b := by
  obtain ⟨b, bs, hbytes, hstart⟩ := exists_start h
  cases items with
  | nil => exact ⟨b, bs, by rw [itemsBytes_singleton, hbytes], hstart⟩
  | cons next items =>
    exact ⟨b, _, by rw [itemsBytes_cons_cons, hbytes, List.cons_append],
      hstart⟩

theorem exists_quote_fieldsBytes (key : String) (value : Json)
    (fields : List (String × Json)) :
    ∃ bs, fieldsBytes ((key, value) :: fields) = .ofNat '"'.toNat :: bs := by
  cases fields with
  | nil =>
    rw [fieldsBytes_singleton, fieldBytes, encode_quoted]
    exact ⟨_, rfl⟩
  | cons field fields =>
    rw [fieldsBytes_cons_cons, fieldBytes, encode_quoted, List.cons_append]
    exact ⟨_, rfl⟩

mutual

/-- A value is read up to its end: the fuel need only exceed its length. -/
theorem readValue_chars : ∀ (j : Json) (fuel : ℕ) (s : List UInt8),
    j.Exact → Closed s → (Utf8.encode j.chars).length < fuel →
      readValue fuel (Utf8.encode j.chars ++ s) = .ok (j.written, s)
  | _, 0, _, _, _, hfuel => absurd hfuel (Nat.not_lt_zero _)
  | .null, fuel + 1, _, _, _, _ => readValue_null fuel
  | .bool true, fuel + 1, _, _, _, _ => readValue_true fuel
  | .bool false, fuel + 1, _, _, _, _ => readValue_false fuel
  | .whole n, fuel + 1, _, _, hs, _ => readValue_wholeText fuel n hs
  | .double _, _ + 1, _, h, _, _ => False.elim h
  | .text t, fuel + 1, _, _, _, _ => readValue_text fuel t
  | .array [], _ + 1, _, _, _, _ => rfl
  | .array (item :: items), fuel + 1, s, h, _, hfuel => by
    rw [encode_chars_array] at hfuel ⊢
    obtain ⟨b, bs, hbytes, hstart⟩ :=
      exists_start_itemsBytes items h.1
    have hread := readItems_itemsBytes item items fuel s h (by
      simp only [List.length_cons, List.length_append] at hfuel
      omega)
    rw [List.cons_append, List.append_assoc, List.singleton_append]
    exact readValue_array ⟨b, _, by rw [hbytes, List.cons_append], hstart⟩
      hread
  | .object [], _ + 1, _, _, _, _ => rfl
  | .object ((key, value) :: fields), fuel + 1, s, h, _, hfuel => by
    rw [encode_chars_object] at hfuel ⊢
    obtain ⟨bs, hbytes⟩ := exists_quote_fieldsBytes key value fields
    have hread := readFields_fieldsBytes key value fields fuel s h.2 (by
      simp only [List.length_cons, List.length_append] at hfuel
      omega)
    rw [List.cons_append, List.append_assoc, List.singleton_append]
    rw [hbytes, List.cons_append] at hread ⊢
    exact readValue_object hread

/-- The items of an array are read up to its closing bracket. -/
theorem readItems_itemsBytes : ∀ (item : Json) (items : List Json)
    (fuel : ℕ) (s : List UInt8), ExactItems (item :: items) →
      (itemsBytes (item :: items)).length + 1 < fuel →
      readItems fuel (itemsBytes (item :: items) ++ .ofNat ']'.toNat :: s) =
        .ok (writtenItems (item :: items), s)
  | _, _, 0, _, _, hfuel => absurd hfuel (Nat.not_lt_zero _)
  | item, [], fuel + 1, s, h, hfuel => by
    rw [itemsBytes_singleton] at hfuel ⊢
    have hread := readValue_chars item fuel (.ofNat ']'.toNat :: s) h.1
      (closed_cons (by decide)) (by omega)
    exact readItems_last hread
  | item, next :: items, fuel + 1, s, h, hfuel => by
    rw [itemsBytes_cons_cons] at hfuel ⊢
    simp only [List.length_append, List.length_cons] at hfuel
    obtain ⟨b, bs, hbytes, hstart⟩ :=
      exists_start_itemsBytes items h.2.1
    have hread := readValue_chars item fuel
      (.ofNat ','.toNat ::
        (itemsBytes (next :: items) ++ .ofNat ']'.toNat :: s)) h.1
      (closed_cons (by decide)) (by omega)
    have hrest := readItems_itemsBytes next items fuel s h.2 (by omega)
    rw [List.append_assoc, List.cons_append]
    refine readItems_more hread ?_ hrest
    rw [hbytes, List.cons_append]
    exact afterBlanks_of_isStart hstart

theorem readFields_fieldsBytes : ∀ (key : String) (value : Json)
    (fields : List (String × Json)) (fuel : ℕ) (s : List UInt8),
    ExactFields ((key, value) :: fields) →
      (fieldsBytes ((key, value) :: fields)).length + 1 < fuel →
      readFields fuel
          (fieldsBytes ((key, value) :: fields) ++ .ofNat '\x7d'.toNat :: s) =
        .ok (writtenFields ((key, value) :: fields), s)
  | _, _, _, 0, _, _, hfuel => absurd hfuel (Nat.not_lt_zero _)
  | key, value, [], fuel + 1, s, h, hfuel => by
    rw [fieldsBytes_singleton] at hfuel ⊢
    rw [length_fieldBytes] at hfuel
    have hread := readValue_chars value fuel (.ofNat '\x7d'.toNat :: s) h.1
      (closed_cons (by decide)) (by omega)
    exact readFields_last (afterBlanks_chars h.1) hread
  | key, value, (key', value') :: fields, fuel + 1, s, h, hfuel => by
    rw [fieldsBytes_cons_cons] at hfuel ⊢
    simp only [List.length_append, List.length_cons,
      length_fieldBytes] at hfuel
    obtain ⟨bs, hbytes⟩ := exists_quote_fieldsBytes key' value' fields
    have hread := readValue_chars value fuel
      (.ofNat ','.toNat :: (fieldsBytes ((key', value') :: fields) ++
        .ofNat '\x7d'.toNat :: s)) h.1 (closed_cons (by decide)) (by omega)
    have hrest := readFields_fieldsBytes key' value' fields fuel s h.2
      (by omega)
    rw [List.append_assoc, List.cons_append]
    refine readFields_more (afterBlanks_chars h.1) hread ?_ hrest
    rw [hbytes, List.cons_append]
    exact afterBlanks_of_not_isBlank (by decide)

end

/-- A text that is one value is read as that value. -/
theorem read_chars {j : Json} (h : j.Exact) :
    read (Utf8.encode j.chars) = .ok j.written := by
  have hblank := afterBlanks_chars (s := []) h
  have hread := readValue_chars j ((Utf8.encode j.chars).length + 1) [] h
    closed_nil (Nat.lt_succ_self _)
  rw [List.append_nil] at hblank hread
  rw [read, hblank, hread]
  rfl

end Written

namespace Json

mutual

/-- A value is what its text says, if it does not nest too deep. -/
theorem ofWritten?_written : ∀ (j : Json) (bound : ℕ), j.Exact →
    ofWritten? bound j.written = if j.depth ≤ bound then some j else none
  | .null, _, _ | .bool _, _, _ => by
    simp [written, ofWritten?, depth]
  | .whole n, _, h => by
    simp [written, ofWritten?, depth, Written.value?_numeral h]
  | .double _, _, h => False.elim h
  | .text t, _, _ => by
    simp [written, ofWritten?, depth, Written.text?_pieces]
  | .array _, 0, _ | .object _, 0, _ => by
    simp [written, ofWritten?, depth]
  | .array items, bound + 1, h => by
    have hitems := itemsOfWritten?_written items bound h
    simp only [written, ofWritten?, depth, hitems, Nat.succ_le_succ_iff]
    split <;> rfl
  | .object fields, bound + 1, h => by
    have hfields := fieldsOfWritten?_written fields bound h.2
    simp only [written, ofWritten?, depth, hfields, Nat.succ_le_succ_iff]
    split
    · rw [Option.map_some, Dictionary.ofEntries_of_ordered h.1]
    · rfl

theorem itemsOfWritten?_written : ∀ (items : List Json) (bound : ℕ),
    ExactItems items → itemsOfWritten? bound (writtenItems items) =
      if itemsDepth items ≤ bound then some items else none
  | [], _, _ => by simp [writtenItems, itemsOfWritten?, itemsDepth]
  | item :: items, bound, h => by
    have hitem := ofWritten?_written item bound h.1
    have hitems := itemsOfWritten?_written items bound h.2
    simp only [writtenItems, itemsOfWritten?, itemsDepth, hitem, hitems,
      Nat.max_le]
    by_cases hle : item.depth ≤ bound <;>
      by_cases hrest : itemsDepth items ≤ bound <;> simp [hle, hrest]

theorem fieldsOfWritten?_written : ∀ (fields : List (String × Json))
    (bound : ℕ), ExactFields fields →
      fieldsOfWritten? bound (writtenFields fields) =
        if fieldsDepth fields ≤ bound then some fields else none
  | [], _, _ => by simp [writtenFields, fieldsOfWritten?, fieldsDepth]
  | (key, value) :: fields, bound, h => by
    have hvalue := ofWritten?_written value bound h.1
    have hfields := fieldsOfWritten?_written fields bound h.2
    simp only [writtenFields, fieldsOfWritten?, fieldsDepth,
      Written.text?_pieces, hvalue, hfields, Nat.max_le]
    by_cases hle : value.depth ≤ bound <;>
      by_cases hrest : fieldsDepth fields ≤ bound <;> simp [hle, hrest]

end

end Json
end LiveProperty
