import LiveProperty.Proofs.Json.FieldMaps
import LiveProperty.Proofs.Tokens
import Mathlib.Data.List.Nodup
import Mathlib.Data.List.Perm.Basic

/-!
# The stored text of a structured value

`Json.Compact` is the grammar of JSON texts without blanks, fractions and
exponents in which every object has its keys in the order of their bytes, and
`Tree.Reordered` relates trees that differ in the order of entries only.
`Tree.storeBy_canonical` says of every tree without floats what is stored for
it: one compact text, the same one for every order, that is read back as the
tree's JSON value if that does not nest too deep.
-/

namespace LiveProperty

namespace Json

/-- The characters that stand for one character in a quoted text. -/
inductive Stands (c : Char) : List Char → Prop where
  | itself (hge : 0x20 ≤ c.toNat) (hquote : c ≠ '"') (hslash : c ≠ '\\') :
    Stands c [c]
  | escape {e : Char} (h : (e, c) ∈ [('"', '"'), ('\\', '\\'), ('/', '/'),
      ('b', '\x08'), ('f', '\x0c'), ('n', '\n'), ('r', '\r'), ('t', '\t')]) :
    Stands c ['\\', e]
  | unit {w x y z : ℕ} (hw : w < 16) (hx : x < 16) (hy : y < 16) (hz : z < 16)
    (h : c.toNat = ((w * 16 + x) * 16 + y) * 16 + z) :
    Stands c ['\\', 'u', w.digitChar, x.digitChar, y.digitChar, z.digitChar]

/-- A text in quotes. -/
def IsQuoted (s : String) (cs : List Char) : Prop :=
  ∃ css, List.Forall₂ Stands s.toList css ∧ cs = '"' :: (css.flatten ++ ['"'])

/-- The decimal digits of a natural number, without leading zeros. -/
def IsDecimal (cs : List Char) : Prop :=
  cs ≠ [] ∧ (∀ c ∈ cs, c.isDigit) ∧ (cs.head? = some '0' → cs = ['0'])

/-- A field as it is written: the key, the quoted key and the value. -/
structure FieldText where
  key : String
  name : List Char
  value : List Char

/-- JSON texts without blanks, fractions and exponents, in which the keys of
every object are in strictly increasing order of their bytes. -/
inductive Compact : List Char → Prop where
  | null : Compact ['n', 'u', 'l', 'l']
  | true : Compact ['t', 'r', 'u', 'e']
  | false : Compact ['f', 'a', 'l', 's', 'e']
  | whole {cs : List Char} (h : IsDecimal cs) : Compact cs
  | negative {cs : List Char} (h : IsDecimal cs) : Compact ('-' :: cs)
  | text {s : String} {cs : List Char} (h : IsQuoted s cs) : Compact cs
  | array {items : List (List Char)} (h : ∀ cs ∈ items, Compact cs) :
    Compact ('[' :: ([','].intercalate items ++ [']']))
  | object {fields : List FieldText}
    (hnames : ∀ f ∈ fields, IsQuoted f.key f.name)
    (hvalues : ∀ f ∈ fields, Compact f.value)
    (horder : (fields.map fun f => Utf8.bytes f.key).Pairwise (· < ·)) :
    Compact ('\x7b' :: ([','].intercalate
      (fields.map fun f => f.name ++ ':' :: f.value) ++ ['\x7d']))

theorem stands_escaped (c : Char) : Stands c (escaped c) := by
  simp only [escaped]
  split_ifs with hquote hslash hb hf hn hr ht hcontrol
  · subst hquote; exact .escape (by decide)
  · subst hslash; exact .escape (by decide)
  · subst hb; exact .escape (by decide)
  · subst hf; exact .escape (by decide)
  · subst hn; exact .escape (by decide)
  · subst hr; exact .escape (by decide)
  · subst ht; exact .escape (by decide)
  · exact .unit (w := 0) (x := 0) (by decide) (by decide) (by omega)
      (by omega) (by omega)
  · exact .itself (Nat.not_lt.mp hcontrol) hquote hslash

theorem isQuoted_quoted (s : String) : IsQuoted s (quoted s) := by
  refine ⟨s.toList.map escaped, ?_, ?_⟩
  · exact List.forall₂_map_right_iff.mpr
      (List.forall₂_same.mpr fun c _ => stands_escaped c)
  · rw [quoted, List.flatMap_def]

theorem isDecimal_toDigits (n : ℕ) : IsDecimal (Nat.toDigits 10 n) := by
  refine ⟨Nat.toDigits_ne_nil, fun c hc =>
    Nat.isDigit_of_mem_toDigits (by decide) (by decide) hc, fun hhead => ?_⟩
  have hzero : (Written.digits n).head? = some 0 := by
    rw [Written.digits, List.head?_map, hhead]
    rfl
  rcases Nat.eq_zero_or_pos n with rfl | hpos
  · decide
  · exact absurd hzero (Written.head?_digits hpos)

theorem compact_wholeText (n : ℤ) : Compact (wholeText n) := by
  cases n with
  | ofNat n => exact .whole (isDecimal_toDigits n)
  | negSucc n => exact .negative (isDecimal_toDigits (n + 1))

theorem separated_eq_intercalate (texts : List (List Char)) :
    separated texts = [','].intercalate texts := by
  induction texts with
  | nil => rfl
  | cons first rest ih =>
    cases rest with
    | nil => simp [separated]
    | cons next rest =>
      simp [separated, ih]

/-- The fields as they are written. -/
def fieldTexts (fields : List (String × Json)) : List FieldText :=
  fields.map fun field => ⟨field.1, quoted field.1, field.2.chars⟩

theorem fieldChars_eq_map (fields : List (String × Json)) :
    fieldChars fields =
      (fieldTexts fields).map fun f => f.name ++ ':' :: f.value := by
  induction fields with
  | nil => rw [fieldChars, fieldTexts, List.map_nil, List.map_nil]
  | cons field rest ih =>
    obtain ⟨key, value⟩ := field
    rw [fieldChars, ih]
    rfl

theorem pairwise_bytes {fields : List (String × Json)}
    (h : Dictionary.Ordered fields) :
    ((fieldTexts fields).map fun f => Utf8.bytes f.key).Pairwise
      (· < ·) := by
  rw [fieldTexts, List.map_map, List.pairwise_map]
  exact List.Pairwise.imp (fun hlt => Utf8.bytes_lt_bytes hlt) h

mutual

/-- The text of an exact value is compact. -/
theorem compact_chars : ∀ j : Json, j.Exact → Compact j.chars
  | .null, _ => .null
  | .bool true, _ => .true
  | .bool false, _ => .false
  | .whole n, _ => compact_wholeText n
  | .double _, h => False.elim h
  | .text s, _ => .text (isQuoted_quoted s)
  | .array items, h => by
    rw [chars, separated_eq_intercalate]
    exact .array (compact_itemChars items h)
  | .object fields, h => by
    rw [chars, separated_eq_intercalate, fieldChars_eq_map]
    refine .object (fun f hf => ?_) (compact_fieldTexts fields h.2)
      (pairwise_bytes h.1)
    obtain ⟨field, _, rfl⟩ := List.mem_map.mp hf
    exact isQuoted_quoted field.1

theorem compact_itemChars : ∀ items : List Json, ExactItems items →
    ∀ cs ∈ itemChars items, Compact cs
  | [], _, cs, hcs => by simp [itemChars] at hcs
  | item :: items, h, cs, hcs => by
    rw [itemChars, List.mem_cons] at hcs
    rcases hcs with rfl | hcs
    · exact compact_chars item h.1
    · exact compact_itemChars items h.2 cs hcs

theorem compact_fieldTexts : ∀ fields : List (String × Json),
    ExactFields fields → ∀ f ∈ fieldTexts fields, Compact f.value
  | [], _, f, hf => by simp [fieldTexts] at hf
  | (key, value) :: fields, h, f, hf => by
    rw [fieldTexts, List.map_cons, List.mem_cons] at hf
    rcases hf with rfl | hf
    · exact compact_chars value h.1
    · exact compact_fieldTexts fields h.2 f hf

end

end Json

namespace Tree

open Json

mutual

/-- A tree without floats, other than in keys, whose machine integers are in
range. -/
def Floatless : Tree → Prop
  | .single _ | .double _ => False
  | .whole n => isWhole n
  | .some t | .wrapped _ t => t.Floatless
  | .sequence items => FloatlessItems items
  | .map entries => FloatlessEntries entries
  | .record _ fields => FloatlessFields fields
  | .unit | .bool _ | .wide _ | .text _ | .char _ | .bytes _ | .variant _
  | .invalid => True

/-- Items without floats. -/
def FloatlessItems : List Tree → Prop
  | [] => True
  | item :: rest => item.Floatless ∧ FloatlessItems rest

/-- Entries without floats as values. -/
def FloatlessEntries : List (Tree × Tree) → Prop
  | [] => True
  | (_, t) :: rest => t.Floatless ∧ FloatlessEntries rest

/-- Fields without floats. -/
def FloatlessFields : List (String × Tree) → Prop
  | [] => True
  | (_, t) :: rest => t.Floatless ∧ FloatlessFields rest

end

/-- The fields of a record as the entries of a map. -/
def textEntries (fields : List (String × Tree)) : List (Tree × Tree) :=
  fields.map fun field => (.text field.1, field.2)

mutual

/-- The trees differ in the order only in which entries of maps and fields of
records come, at any depth; the keys of a map are different texts. -/
inductive Reordered : Tree → Tree → Prop where
  | refl (t : Tree) : Reordered t t
  | some {t t' : Tree} (h : Reordered t t') : Reordered (.some t) (.some t')
  | wrapped {name : String} {t t' : Tree} (h : Reordered t t') :
    Reordered (.wrapped name t) (.wrapped name t')
  | sequence {items items' : List Tree} (h : ItemsReordered items items') :
    Reordered (.sequence items) (.sequence items')
  | map {entries moved entries' : List (Tree × Tree)}
    (hkeys : (entries.map fun entry => entry.1.key).Nodup)
    (hmoved : entries.Perm moved) (h : ValuesReordered moved entries') :
    Reordered (.map entries) (.map entries')
  | record {name : String} {fields fields' : List (String × Tree)}
    (h : Reordered (.map (textEntries fields)) (.map (textEntries fields'))) :
    Reordered (.record name fields) (.record name fields')

/-- The items differ in the order of entries only. -/
inductive ItemsReordered : List Tree → List Tree → Prop where
  | nil : ItemsReordered [] []
  | cons {t t' : Tree} {items items' : List Tree} (h : Reordered t t')
    (hrest : ItemsReordered items items') :
    ItemsReordered (t :: items) (t' :: items')

/-- Under the same keys stand values that differ in the order of entries
only. -/
inductive ValuesReordered : List (Tree × Tree) → List (Tree × Tree) → Prop where
  | nil : ValuesReordered [] []
  | cons {k t t' : Tree} {entries entries' : List (Tree × Tree)}
    (h : Reordered t t') (hrest : ValuesReordered entries entries') :
    ValuesReordered ((k, t) :: entries) ((k, t') :: entries')

end

theorem bind_eq_ok {ε α β : Type} {x : Except ε α} {f : α → Except ε β}
    {b : β} : x >>= f = .ok b ↔ ∃ a, x = .ok a ∧ f a = .ok b := by
  cases x <;> simp [bind, Except.bind]

theorem fieldsToJson_eq_entriesToJson (fields : List (String × Tree))
    (d : Dictionary Json) :
    fieldsToJson fields d = entriesToJson (textEntries fields) d := by
  induction fields generalizing d with
  | nil => rw [fieldsToJson, textEntries, List.map_nil, entriesToJson]
  | cons field fields ih =>
    obtain ⟨key, t⟩ := field
    rw [fieldsToJson, textEntries, List.map_cons, entriesToJson]
    cases t.toJson with
    | error fault => rfl
    | ok value => exact ih _

/-- A record is a map under its name. -/
theorem toJson_record (name : String) (fields : List (String × Tree)) :
    (record name fields).toJson =
      (wrapped name (.map (textEntries fields))).toJson := by
  simp only [toJson, fieldsToJson_eq_entriesToJson]
  cases entriesToJson (textEntries fields) [] <;> rfl

/-- What entries come to: each key text with the JSON value under it. -/
def Yields : List (Tree × Tree) → List (String × Json) → Prop :=
  List.Forall₂ fun entry field =>
    entry.1.key = .ok field.1 ∧ entry.2.toJson = .ok field.2

section Yields

variable {entries moved : List (Tree × Tree)} {fields : List (String × Json)}

theorem entriesToJson_eq_ok {d out : Dictionary Json} :
    entriesToJson entries d = .ok out ↔
      ∃ fields, Yields entries fields ∧
        fields.foldl (fun d field => d.put field.1 field.2) d = out := by
  induction entries generalizing d with
  | nil =>
    rw [entriesToJson]
    constructor
    · intro h
      exact ⟨[], .nil, Except.ok.inj h⟩
    · rintro ⟨fields, hfields, rfl⟩
      cases hfields
      rfl
  | cons entry entries ih =>
    obtain ⟨k, t⟩ := entry
    simp only [entriesToJson, bind_eq_ok, ih]
    constructor
    · rintro ⟨key, hkey, value, hvalue, fields, hfields, rfl⟩
      exact ⟨(key, value) :: fields, .cons ⟨hkey, hvalue⟩ hfields, rfl⟩
    · rintro ⟨fields, hfields, rfl⟩
      cases hfields with
      | cons hfield hfields =>
        exact ⟨_, hfield.1, _, hfield.2, _, hfields, rfl⟩

theorem toJson_map_eq_ok {j : Json} :
    (map entries).toJson = .ok j ↔
      ∃ fields, Yields entries fields ∧
        .object (Dictionary.ofEntries fields) = j := by
  simp only [toJson, bind_eq_ok, entriesToJson_eq_ok]
  constructor
  · rintro ⟨_, ⟨fields, hfields, rfl⟩, h⟩
    exact ⟨fields, hfields, Except.ok.inj h⟩
  · rintro ⟨fields, hfields, rfl⟩
    exact ⟨_, ⟨fields, hfields, rfl⟩, rfl⟩

theorem nodup_of_yields (h : Yields entries fields)
    (hkeys : (entries.map fun entry => entry.1.key).Nodup) :
    (fields.map Prod.fst).Nodup := by
  have hmap : entries.map (fun entry => entry.1.key) =
      (fields.map Prod.fst).map .ok := by
    clear hkeys
    induction h with
    | nil => rfl
    | cons hfield _ ih => rw [List.map_cons, ih, hfield.1]; rfl
  rw [hmap] at hkeys
  exact List.Nodup.of_map _ hkeys

/-- Entries with different keys come to one dictionary in every order. -/
theorem exists_yields_of_perm (h : Yields entries fields)
    (hkeys : (entries.map fun entry => entry.1.key).Nodup)
    (hmoved : entries.Perm moved) :
    ∃ fields', Yields moved fields' ∧
      Dictionary.ofEntries fields' = Dictionary.ofEntries fields := by
  obtain ⟨fields', hyields, hperm⟩ :=
    List.perm_comp_forall₂ hmoved.symm h
  have hnodup := nodup_of_yields h hkeys
  have hnodup' : (fields'.map Prod.fst).Nodup :=
    (hperm.map Prod.fst).nodup_iff.mpr hnodup
  refine ⟨fields', hyields, Dictionary.eq_of_mem_iff
    (Dictionary.ordered_ofEntries _) (Dictionary.ordered_ofEntries _)
    fun entry => ?_⟩
  rw [Dictionary.mem_ofEntries hnodup, Dictionary.mem_ofEntries hnodup',
    hperm.mem_iff]

end Yields

mutual

/-- The order of entries leaves no trace in the JSON value. -/
theorem toJson_of_reordered : ∀ {t t' : Tree}, Reordered t t' →
    ∀ {j : Json}, t.toJson = .ok j → t'.toJson = .ok j
  | _, _, .refl _, _, h => h
  | _, _, .some hsome, _, h => by
    rw [toJson] at h ⊢
    exact toJson_of_reordered hsome h
  | _, _, .wrapped hwrapped, j, h => by
    simp only [toJson, bind_eq_ok] at h ⊢
    obtain ⟨value, hvalue, h⟩ := h
    exact ⟨value, toJson_of_reordered hwrapped hvalue, h⟩
  | _, _, .sequence hitems, j, h => by
    simp only [toJson, bind_eq_ok] at h ⊢
    obtain ⟨items, hjson, h⟩ := h
    exact ⟨items, itemsToJson_of_reordered hitems hjson, h⟩
  | _, _, .map hkeys hmoved hvalues, j, h => by
    rw [toJson_map_eq_ok] at h ⊢
    obtain ⟨fields, hyields, rfl⟩ := h
    obtain ⟨fields', hyields', heq⟩ := exists_yields_of_perm hyields hkeys hmoved
    exact ⟨fields', yields_of_reordered hvalues hyields', by rw [heq]⟩
  | _, _, .record hmap, j, h => by
    rw [toJson_record] at h ⊢
    rw [toJson, bind_eq_ok] at h ⊢
    obtain ⟨value, hvalue, h⟩ := h
    exact ⟨value, toJson_of_reordered hmap hvalue, h⟩

theorem itemsToJson_of_reordered : ∀ {items items' : List Tree},
    ItemsReordered items items' →
    ∀ {js : List Json}, itemsToJson items = .ok js →
      itemsToJson items' = .ok js
  | _, _, .nil, _, h => h
  | _, _, .cons hitem hitems, js, h => by
    simp only [itemsToJson, bind_eq_ok] at h ⊢
    obtain ⟨j, hj, js, hjs, h⟩ := h
    exact ⟨j, toJson_of_reordered hitem hj, js,
      itemsToJson_of_reordered hitems hjs, h⟩

theorem yields_of_reordered : ∀ {entries entries' : List (Tree × Tree)},
    ValuesReordered entries entries' →
    ∀ {fields : List (String × Json)}, Yields entries fields →
      Yields entries' fields
  | _, _, .nil, _, h => h
  | _, _, .cons hvalue hrest, _, h => by
    cases h with
    | cons hfield hfields =>
      exact .cons ⟨hfield.1, toJson_of_reordered hvalue hfield.2⟩
        (yields_of_reordered hrest hfields)

end

theorem exactFields_iff {fields : List (String × Json)} :
    ExactFields fields ↔ ∀ field ∈ fields, field.2.Exact := by
  induction fields with
  | nil => simp [ExactFields]
  | cons field fields ih => simp [ExactFields, ih]

theorem exact_ofDictionary {fields : List (String × Json)}
    (h : ExactFields fields) :
    (Json.object (Dictionary.ofEntries fields)).Exact := by
  refine ⟨Dictionary.ordered_ofEntries fields, exactFields_iff.mpr ?_⟩
  intro field hmem
  exact exactFields_iff.mp h field (Dictionary.mem_of_mem_ofEntries hmem)

mutual

/-- A tree without floats comes to an exact value. -/
theorem exact_of_toJson : ∀ (t : Tree) (j : Json), t.Floatless →
    t.toJson = .ok j → j.Exact
  | .unit, j, _, h | .bool _, j, _, h | .text _, j, _, h | .char _, j, _, h
  | .variant _, j, _, h => by
    cases Except.ok.inj h
    trivial
  | .whole n, j, hfloat, h => by
    cases Except.ok.inj h
    exact hfloat
  | .wide n, j, _, h => by
    rw [toJson] at h
    split at h
    · next hwhole =>
      cases Except.ok.inj h
      exact hwhole
    · cases h
  | .bytes bs, j, _, h => by
    cases Except.ok.inj h
    exact Json.exact_ofBytes bs
  | .some t, j, hfloat, h => exact_of_toJson t j hfloat h
  | .sequence items, j, hfloat, h => by
    rw [toJson, bind_eq_ok] at h
    obtain ⟨js, hjs, h⟩ := h
    cases Except.ok.inj h
    exact exactItems_of_itemsToJson items js hfloat hjs
  | .map entries, j, hfloat, h => by
    obtain ⟨fields, hyields, rfl⟩ := toJson_map_eq_ok.mp h
    exact exact_ofDictionary (exactFields_of_yields entries fields hfloat hyields)
  | .wrapped name t, j, hfloat, h => by
    rw [toJson, bind_eq_ok] at h
    obtain ⟨value, hvalue, h⟩ := h
    cases Except.ok.inj h
    exact ⟨List.pairwise_singleton _ _, exact_of_toJson t value hfloat hvalue,
      trivial⟩
  | .record name fields, j, hfloat, h => by
    rw [toJson, bind_eq_ok] at h
    obtain ⟨d, hd, h⟩ := h
    cases Except.ok.inj h
    rw [fieldsToJson_eq_entriesToJson, entriesToJson_eq_ok] at hd
    obtain ⟨out, hyields, rfl⟩ := hd
    have hout := exactFields_of_fields fields out hfloat hyields
    exact ⟨List.pairwise_singleton _ _, exact_ofDictionary hout, trivial⟩
  | .single _, _, hfloat, _ | .double _, _, hfloat, _ => False.elim hfloat
  | .invalid, _, _, h => nomatch h

theorem exactItems_of_itemsToJson : ∀ (items : List Tree) (js : List Json),
    FloatlessItems items → itemsToJson items = .ok js → ExactItems js
  | [], js, _, h => by
    cases Except.ok.inj h
    trivial
  | item :: items, js, hfloat, h => by
    simp only [itemsToJson, bind_eq_ok] at h
    obtain ⟨j, hj, js, hjs, h⟩ := h
    cases Except.ok.inj h
    exact ⟨exact_of_toJson item j hfloat.1 hj,
      exactItems_of_itemsToJson items js hfloat.2 hjs⟩

theorem exactFields_of_yields : ∀ (entries : List (Tree × Tree))
    (fields : List (String × Json)), FloatlessEntries entries →
      Yields entries fields → ExactFields fields
  | [], _, _, h => by
    cases h
    trivial
  | (k, t) :: entries, _, hfloat, .cons hfield hrest => 
    ⟨exact_of_toJson t _ hfloat.1 hfield.2,
      exactFields_of_yields entries _ hfloat.2 hrest⟩

theorem exactFields_of_fields : ∀ (fields : List (String × Tree))
    (out : List (String × Json)), FloatlessFields fields →
      Yields (textEntries fields) out → ExactFields out
  | [], _, _, h => by
    cases h
    trivial
  | (key, t) :: fields, _, hfloat, .cons hfield hrest =>
    ⟨exact_of_toJson t _ hfloat.1 hfield.2,
      exactFields_of_fields fields _ hfloat.2 hrest⟩

end

/-- What is stored for a tree whose objects are kept in maps of the given
sort: one compact text for every order of entries and every sort of map, from
which the tree's JSON value is read unless it nests too deep. -/
structure StoredCanonically (M : FieldMap) (t : Tree) (stored : StoreValue) :
    Prop where
  compact : ∃ cs, Json.Compact cs ∧ stored = .data (Utf8.encode cs)
  reordered : ∀ (N : FieldMap) (t' : Tree), t.Reordered t' →
    t'.storeBy N = .ok stored
  decoded : ∃ j, (t.toJsonBy M).map (sortKeys M) = .ok j ∧
    (j.depth ≤ 127 → Storable.json.decode stored = .ok j) ∧
    (127 < j.depth → ∃ reason,
      Storable.json.decode stored = .error (.decode "" reason))

/-- An exact value is decoded from its text if it does not nest too deep. -/
theorem decode_chars {j : Json} (h : j.Exact) (hdepth : j.depth ≤ 127) :
    Storable.json.decode (.data (Utf8.encode j.chars)) = .ok j := by
  have hvalue := ofWritten?_written j depthLimit h
  rw [depthLimit, if_pos hdepth] at hvalue
  simp only [Storable.decode, readStructured, Written.read_chars h,
    depthLimit, hvalue]

/-- A value that nests too deep is not decoded. -/
theorem decode_chars_of_deep {j : Json} (h : j.Exact) (hdepth : 127 < j.depth) :
    ∃ reason, Storable.json.decode (.data (Utf8.encode j.chars)) =
      .error (.decode "" reason) := by
  have hvalue := ofWritten?_written j depthLimit h
  rw [depthLimit, if_neg (Nat.not_le.mpr hdepth)] at hvalue
  simp only [Storable.decode, readStructured, Written.read_chars h,
    depthLimit, hvalue]
  exact ⟨_, rfl⟩

/-- The stored text of every tree without floats is canonical. -/
theorem storeBy_canonical {M : FieldMap} {t : Tree} {stored : StoreValue}
    (hfloat : t.Floatless) (h : t.storeBy M = .ok stored) :
    StoredCanonically M t stored := by
  rw [storeBy_eq_store, store] at h
  cases hj : t.toJson with
  | error fault =>
    rw [hj] at h
    cases h
  | ok j =>
    rw [hj] at h
    cases Except.ok.inj h
    have hexact := exact_of_toJson t j hfloat hj
    refine ⟨⟨j.chars, compact_chars j hexact, rfl⟩, fun N t' ht' => ?_, j, ?_,
      decode_chars hexact, decode_chars_of_deep hexact⟩
    · rw [storeBy_eq_store, store, toJson_of_reordered ht' hj]
    · rw [toJsonBy_map_sortKeys, hj]

/-- A list of maps with the keys out of order, an escape, a negative number
and a number beyond the signed ones. -/
def listing : Tree :=
  .sequence [.map [(.text "b", .wide (-2)), (.text "a\n", .text "é\x01")],
    .record "r" [("z", .whole 0xFFFFFFFFFFFFFFFF), ("k", .some .unit)]]

theorem storeBy_canonical_listing :
    ∃ stored, listing.Floatless ∧
      listing.storeBy .insertion = .ok stored ∧
      StoredCanonically .insertion listing stored := by
  have hfloat : listing.Floatless := by
    have hwhole : isWhole 0xFFFFFFFFFFFFFFFF := by decide
    exact ⟨⟨trivial, trivial, trivial⟩, ⟨hwhole, trivial, trivial⟩, trivial⟩
  exact ⟨_, hfloat, rfl, storeBy_canonical hfloat rfl⟩

end Tree
end LiveProperty
