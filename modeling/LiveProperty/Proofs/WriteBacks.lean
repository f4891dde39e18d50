import LiveProperty.Proofs.Storables

/-!
# Values written back

What is read from a store may be spelled in many ways, but what is read is
stored again as something that is read as the same value.  Values with JSON
doubles are left out, since these are read with a rounding of their own.  The
only values that are read and cannot be stored are numbers of 128 bits beyond
those of 64 bits: they are refused.
-/

namespace LiveProperty

namespace Json

mutual

/-- A value in which no number is a double. -/
def Floatless : Json → Prop
  | .double _ => False
  | .array items => FloatlessItems items
  | .object fields => FloatlessFields fields
  | _ => True

/-- Items in which no number is a double. -/
def FloatlessItems : List Json → Prop
  | [] => True
  | item :: rest => item.Floatless ∧ FloatlessItems rest

/-- Fields in which no number is a double. -/
def FloatlessFields : List (String × Json) → Prop
  | [] => True
  | (_, value) :: rest => value.Floatless ∧ FloatlessFields rest

end

theorem floatlessFields_iff {fields : List (String × Json)} :
    FloatlessFields fields ↔ ∀ field ∈ fields, field.2.Floatless := by
  induction fields with
  | nil => simp [FloatlessFields]
  | cons field fields ih => simp [FloatlessFields, ih]

theorem fieldsDepth_le_iff {fields : List (String × Json)} {bound : ℕ} :
    fieldsDepth fields ≤ bound ↔ ∀ field ∈ fields, field.2.depth ≤ bound := by
  induction fields with
  | nil => simp [fieldsDepth]
  | cons field fields ih =>
    simp only [fieldsDepth, Nat.max_le, ih, List.forall_mem_cons]

/-- A number that is read as a whole one is in the range of those. -/
theorem isWhole_of_value? {n : Numeral} {k : ℤ}
    (h : n.value? = some (.whole k)) : isWhole k := by
  have hdouble : n.double?.map Json.double ≠ some (.whole k) := by
    cases n.double? <;> simp
  unfold Numeral.value? at h
  split at h
  · split at h
    · next hwhole =>
      cases h
      exact hwhole.1
    · exact absurd h hdouble
  · exact absurd h hdouble

theorem value?_cases {n : Numeral} {j : Json} (h : n.value? = some j) :
    (∃ k, j = .whole k) ∨ ∃ x, j = .double x := by
  have hdouble (h : n.double?.map Json.double = some j) :
      ∃ x, j = .double x := by
    obtain ⟨x, -, rfl⟩ := Option.map_eq_some_iff.mp h
    exact ⟨x, rfl⟩
  unfold Numeral.value? at h
  split at h
  · split at h
    · cases h
      exact Or.inl ⟨_, rfl⟩
    · exact Or.inr (hdouble h)
  · exact Or.inr (hdouble h)

mutual

/-- A value that is read without doubles is told exactly by its own text, and
nests no deeper than was asked for. -/
theorem exact_of_ofWritten? : ∀ (w : Written) (bound : ℕ) (j : Json),
    ofWritten? bound w = some j → j.Floatless →
      j.Exact ∧ j.depth ≤ bound
  | .null, bound, j, h, _ | .bool _, bound, j, h, _ => by
    rw [ofWritten?] at h
    cases h
    exact ⟨trivial, Nat.zero_le bound⟩
  | .number n, bound, j, h, free => by
    rw [ofWritten?] at h
    rcases value?_cases h with ⟨k, rfl⟩ | ⟨x, rfl⟩
    · exact ⟨isWhole_of_value? h, Nat.zero_le bound⟩
    · exact False.elim free
  | .text pieces, bound, j, h, _ => by
    rw [ofWritten?] at h
    obtain ⟨t, -, rfl⟩ := Option.map_eq_some_iff.mp h
    exact ⟨trivial, Nat.zero_le bound⟩
  | .array _, 0, _, h, _ | .object _, 0, _, h, _ => by
    rw [ofWritten?] at h
    cases h
  | .array ws, bound + 1, j, h, free => by
    rw [ofWritten?] at h
    obtain ⟨items, hitems, rfl⟩ := Option.map_eq_some_iff.mp h
    obtain ⟨hexact, hdepth⟩ :=
      exact_of_itemsOfWritten? ws bound items hitems free
    exact ⟨hexact, Nat.succ_le_succ hdepth⟩
  | .object ws, bound + 1, j, h, free => by
    rw [ofWritten?] at h
    obtain ⟨entries, hentries, rfl⟩ := Option.map_eq_some_iff.mp h
    -- Of the fields that were read, those with a later one of the same key
    -- are gone.
    have hfield (field : String × Json)
        (hmem : field ∈ Dictionary.ofEntries entries) :
        field.2.Exact ∧ field.2.depth ≤ bound :=
      exact_of_fieldsOfWritten? ws bound entries hentries field
        (Dictionary.mem_of_mem_ofEntries hmem)
        (floatlessFields_iff.mp free field hmem)
    have hdepth : fieldsDepth (Dictionary.ofEntries entries) ≤ bound :=
      fieldsDepth_le_iff.mpr fun field hmem => (hfield field hmem).2
    exact ⟨⟨Dictionary.ordered_ofEntries entries,
      Tree.exactFields_iff.mpr fun field hmem => (hfield field hmem).1⟩,
      Nat.succ_le_succ hdepth⟩

theorem exact_of_itemsOfWritten? : ∀ (ws : List Written) (bound : ℕ)
    (items : List Json), itemsOfWritten? bound ws = some items →
      FloatlessItems items → ExactItems items ∧ itemsDepth items ≤ bound
  | [], bound, items, h, _ => by
    rw [itemsOfWritten?] at h
    cases h
    exact ⟨trivial, Nat.zero_le bound⟩
  | w :: ws, bound, items, h, free => by
    simp only [itemsOfWritten?, Option.bind_eq_bind,
      Option.bind_eq_some_iff] at h
    obtain ⟨item, hitem, rest, hrest, h⟩ := h
    cases h
    obtain ⟨hexact, hdepth⟩ := exact_of_ofWritten? w bound item hitem free.1
    obtain ⟨hexact', hdepth'⟩ :=
      exact_of_itemsOfWritten? ws bound rest hrest free.2
    exact ⟨⟨hexact, hexact'⟩, Nat.max_le.mpr ⟨hdepth, hdepth'⟩⟩

theorem exact_of_fieldsOfWritten? : ∀ (ws : List (List Piece × Written))
    (bound : ℕ) (fields : List (String × Json)),
      fieldsOfWritten? bound ws = some fields →
      ∀ field ∈ fields, field.2.Floatless →
        field.2.Exact ∧ field.2.depth ≤ bound
  | [], bound, fields, h, field, hmem, _ => by
    rw [fieldsOfWritten?] at h
    cases h
    exact absurd hmem List.not_mem_nil
  | (key, w) :: ws, bound, fields, h, field, hmem, free => by
    simp only [fieldsOfWritten?, Option.bind_eq_bind,
      Option.bind_eq_some_iff] at h
    obtain ⟨k, -, value, hvalue, rest, hrest, h⟩ := h
    cases h
    rcases List.mem_cons.mp hmem with rfl | hmem
    · exact exact_of_ofWritten? w bound value hvalue free
    · exact exact_of_fieldsOfWritten? ws bound rest hrest field hmem free

end

end Json

namespace Storable

/-- Kinds whose values are stored in one form only: the native ones other than
doubles, which are also read from singles, and optional ones over them. -/
def IsVerbatim : Storable → Bool
  | .double | .profile | .json | .big | .token => false
  | .optional kind => kind.IsVerbatim
  | _ => true

/-- A value without JSON doubles. -/
def Floatless : (kind : Storable) → kind.Value → Prop
  | .json, (j : Json) => j.Floatless
  | .optional _, none => True
  | .optional kind, some value => kind.Floatless value
  | _, _ => True

/-- A value that is no number of 128 bits, or one in the range of those of 64
bits. -/
def Fits : (kind : Storable) → kind.Value → Prop
  | .big, (n : BigInteger) => Json.isWhole n.value
  | .optional _, none => True
  | .optional kind, some value => kind.Fits value
  | _, _ => True

/-- A value that is read from a store has a stored form, which is read as the
value, and is the one that was read if there is only one. -/
def WritesBack (kind : Storable) (stored : StoreValue) (value : kind.Value) :
    Prop :=
  ∃ written, kind.encode value = .ok (some written) ∧
    kind.decode written = .ok value ∧ (kind.IsVerbatim → written = stored)

theorem toInt64_toInt32 {n : Int64} (lower : -0x80000000 ≤ n.toInt)
    (upper : n.toInt ≤ 0x7FFFFFFF) : n.toInt32.toInt64 = n := by
  apply Int64.toInt_inj.mp
  rw [Int32.toInt_toInt64, Int64.toInt_toInt32]
  exact Int.bmod_eq_of_le (by omega) (by omega)

theorem writesBack_int32 {stored : StoreValue} {n : Int32}
    (h : Storable.int32.decode stored = .ok n) :
    Storable.int32.WritesBack stored n := by
  have hdecode := decode_encode_int32 n
  cases stored with
  | int k =>
    simp only [decode] at h
    split at h
    · cases h
    · split at h
      · cases h
      · cases h
        have hback : k.toInt32.toInt64 = k :=
          toInt64_toInt32 (by omega) (by omega)
        exact ⟨_, rfl, hdecode, fun _ => by rw [hback]⟩
  | _ => cases h

theorem writesBack_double (stored : StoreValue) (x : Double) :
    Storable.double.WritesBack stored x :=
  ⟨.double x, rfl, rfl, fun verbatim => absurd verbatim Bool.false_ne_true⟩

theorem writesBack_profile (stored : StoreValue) (p : Profile) :
    Storable.profile.WritesBack stored p := by
  have hencode : Storable.profile.encode p =
      .ok (some (.data (Utf8.encode p.json.chars))) := by
    rw [encode, Tree.store, p.toJson_tree]
    rfl
  exact ⟨_, hencode, decode_encode_profile hencode,
    fun verbatim => absurd verbatim Bool.false_ne_true⟩

theorem writesBack_token (stored : StoreValue) (t : HistoryToken) :
    Storable.token.WritesBack stored t := by
  obtain ⟨written, hencode, hdecode⟩ := t.decode_encode
  exact ⟨written, hencode, hdecode,
    fun verbatim => absurd verbatim Bool.false_ne_true⟩

/-- A JSON value that is read is one that its text tells. -/
theorem regular_of_decode {stored : StoreValue} {j : Json}
    (h : Storable.json.decode stored = .ok j) (free : j.Floatless) :
    Storable.json.Regular j := by
  cases stored with
  | data bytes =>
    simp only [decode, readStructured] at h
    split at h
    · cases h
    · next w hread =>
      split at h
      · next value hvalue =>
        cases h
        exact Json.exact_of_ofWritten? w Json.depthLimit j hvalue free
      · cases h
  | _ => cases h

theorem writesBack_json {stored : StoreValue} {j : Json}
    (h : Storable.json.decode stored = .ok j) (free : j.Floatless) :
    Storable.json.WritesBack stored j := by
  have hregular := regular_of_decode h free
  have hencode : Storable.json.encode j =
      .ok (some (.data (Utf8.encode j.chars))) := by
    rw [encode, Tree.store, Tree.toJson_ofJson j hregular.1]
    rfl
  exact ⟨_, hencode, decode_encode_json hregular hencode,
    fun verbatim => absurd verbatim Bool.false_ne_true⟩

theorem writesBack_big (stored : StoreValue) {n : BigInteger}
    (fits : Json.isWhole n.value) : Storable.big.WritesBack stored n := by
  have hencode : Storable.big.encode n =
      .ok (some (.data (Utf8.encode (Json.whole n.value).chars))) := by
    rw [encode, Tree.store, Tree.toJson, if_pos fits]
    rfl
  exact ⟨_, hencode, decode_encode_big hencode,
    fun verbatim => absurd verbatim Bool.false_ne_true⟩

/-- What is read from a store and fits is written back. -/
theorem writesBack_of_fits : ∀ (kind : Storable) {stored : StoreValue}
    {value : kind.Value}, kind.decode stored = .ok value →
      kind.Floatless value → kind.Fits value → kind.WritesBack stored value
  | .int, stored, _, h, _, _ | .single, stored, _, h, _, _
  | .bool, stored, _, h, _, _ | .text, stored, _, h, _, _
  | .url, stored, _, h, _, _ | .data, stored, _, h, _, _
  | .texts, stored, _, h, _, _ => by
    cases stored <;> cases h
    exact ⟨_, rfl, rfl, fun _ => rfl⟩
  | .int32, _, _, h, _, _ => writesBack_int32 h
  | .double, stored, x, _, _, _ => writesBack_double stored x
  | .profile, stored, p, _, _, _ => writesBack_profile stored p
  | .token, stored, t, _, _, _ => writesBack_token stored t
  | .json, _, _, h, free, _ => writesBack_json h free
  | .big, stored, _, _, _, fits => writesBack_big stored fits
  | .optional kind, stored, value, h, free, fits => by
    rw [decode] at h
    cases hvalue : kind.decode stored with
    | error e =>
      rw [hvalue] at h
      cases h
    | ok value =>
      rw [hvalue] at h
      cases h
      obtain ⟨written, hencode, hdecode, hverbatim⟩ :=
        writesBack_of_fits kind hvalue free fits
      refine ⟨written, hencode, ?_, hverbatim⟩
      rw [decode, hdecode]
      rfl

theorem encode_big_of_not_isWhole {n : BigInteger}
    (h : ¬ Json.isWhole n.value) :
    Storable.big.encode n =
      .error (.encode TreeFault.numberOutOfRange.message) := by
  rw [encode, Tree.store, Tree.toJson, if_neg h]
  rfl

/-- What does not fit is refused. -/
theorem encode_of_not_fits : ∀ (kind : Storable) {value : kind.Value},
    ¬ kind.Fits value →
      kind.encode value =
        .error (.encode TreeFault.numberOutOfRange.message)
  | .big, _, h => encode_big_of_not_isWhole h
  | .optional _, none, h => absurd trivial h
  | .optional kind, some _, h => encode_of_not_fits kind h
  | .int, _, h | .int32, _, h | .single, _, h | .double, _, h | .bool, _, h
  | .text, _, h | .url, _, h | .data, _, h | .texts, _, h | .profile, _, h
  | .json, _, h | .token, _, h => absurd trivial h

/-- What a property reads it can write back, unless it is a number of 128 bits
that does not fit, which is refused. -/
theorem writes_back (kind : Storable) {stored : StoreValue}
    {value : kind.Value} (h : kind.decode stored = .ok value)
    (free : kind.Floatless value) :
    (kind.Fits value → kind.WritesBack stored value) ∧
      (¬ kind.Fits value → kind.encode value =
        .error (.encode TreeFault.numberOutOfRange.message)) :=
  ⟨writesBack_of_fits kind h free, encode_of_not_fits kind⟩

theorem readStructured_of_toOption {α : Type} {value? : Written → Option α}
    {stored : StoreValue} {value : α}
    (h : (readStructured value? stored).toOption = some value) :
    readStructured value? stored = .ok value := by
  cases hread : readStructured value? stored with
  | error e =>
    rw [hread] at h
    cases h
  | ok read =>
    rw [hread] at h
    exact congrArg Except.ok (Option.some.inj h)

/-- A profile that is written as an array, with blanks and an escape in it. -/
theorem writes_back_array :
    Storable.profile.decode (.data (Utf8.bytes
        " [ \"\\u0041da\" , 36 , [\"math\"] , null ] ")) =
      .ok (⟨"Ada", 36, ["math"], none⟩ : Profile) ∧
    Storable.profile.Floatless (⟨"Ada", 36, ["math"], none⟩ : Profile) ∧
    Storable.profile.Fits (⟨"Ada", 36, ["math"], none⟩ : Profile) ∧
    Storable.profile.WritesBack (.data (Utf8.bytes
        " [ \"\\u0041da\" , 36 , [\"math\"] , null ] "))
      (⟨"Ada", 36, ["math"], none⟩ : Profile) := by
  have hdecode : Storable.profile.decode (.data (Utf8.bytes
      " [ \"\\u0041da\" , 36 , [\"math\"] , null ] ")) =
        .ok (⟨"Ada", 36, ["math"], none⟩ : Profile) := by
    change readStructured Written.profile? _ = _
    exact readStructured_of_toOption (by decide +kernel)
  exact ⟨hdecode, trivial, trivial,
    (writes_back .profile hdecode trivial).1 trivial⟩

/-- The least number beyond those of 64 bits is read, but cannot be written
back. -/
theorem not_writesBack_beyond_words :
    Storable.big.decode (.data (Utf8.bytes "18446744073709551616")) =
      .ok (⟨18446744073709551616, by decide, by decide⟩ : BigInteger) ∧
    ¬ Storable.big.WritesBack (.data (Utf8.bytes "18446744073709551616"))
      (⟨18446744073709551616, by decide, by decide⟩ : BigInteger) := by
  constructor
  · change readStructured Written.big? _ = _
    exact readStructured_of_toOption (by decide +kernel)
  · rintro ⟨written, hencode, -, -⟩
    rw [encode_big_of_not_isWhole (by decide)] at hencode
    cases hencode

end Storable
end LiveProperty
