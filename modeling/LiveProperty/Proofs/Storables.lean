import LiveProperty.Proofs.Json.Canonical

/-!
# Stored values read back

What a value is stored as is read as that value: `Storable.decode_encode`.
This leaves out JSON values that their text does not tell exactly or that
nest too deep; a value may also have no stored form, or one that clears the
entry.
-/

namespace LiveProperty

namespace Tree

open Json

mutual

/-- An exact value is the JSON value of its tree. -/
theorem toJson_ofJson : ∀ j : Json, j.Exact → (ofJson j).toJson = .ok j
  | .null, _ | .bool _, _ | .text _, _ => by rw [ofJson, toJson]
  | .whole n, h => by
    rw [ofJson, toJson]
    exact if_pos h
  | .double _, h => False.elim h
  | .array items, h => by
    rw [ofJson, toJson, itemsToJson_ofItems items h]
    rfl
  | .object fields, h => by
    have hfields : Dictionary.Ordered ([] ++ fields) := h.1
    rw [ofJson, toJson, entriesToJson_ofFields fields [] h.2,
      Dictionary.foldl_put_of_ordered fields hfields]
    rfl

theorem itemsToJson_ofItems : ∀ items : List Json, ExactItems items →
    itemsToJson (ofItems items) = .ok items
  | [], _ => by rw [ofItems, itemsToJson]
  | item :: items, h => by
    rw [ofItems, itemsToJson, toJson_ofJson item h.1,
      itemsToJson_ofItems items h.2]
    rfl

theorem entriesToJson_ofFields : ∀ (fields : List (String × Json))
    (d : Dictionary Json), ExactFields fields →
      entriesToJson (ofFields fields) d =
        .ok (fields.foldl (fun d field => d.put field.1 field.2) d)
  | [], _, _ => by rw [ofFields, entriesToJson, List.foldl_nil]
  | (key, value) :: fields, d, h => by
    rw [ofFields, entriesToJson, toJson_ofJson value h.1, List.foldl_cons,
      ← entriesToJson_ofFields fields (d.put key value) h.2]
    rfl

end

theorem itemsToJson_text (texts : List String) :
    itemsToJson (texts.map .text) = .ok (texts.map .text) := by
  induction texts with
  | nil => rw [List.map_nil, itemsToJson, List.map_nil]
  | cons t texts ih =>
    rw [List.map_cons, itemsToJson, ih, toJson, List.map_cons]
    rfl

end Tree

namespace Profile

/-- The JSON value of a profile. -/
def json (p : Profile) : Json :=
  .object [("age", .whole p.age.toNat), ("name", .text p.name),
    ("nick", (p.nick.map Json.text).getD .null),
    ("tags", .array (p.tags.map .text))]

theorem toJson_tree (p : Profile) : p.tree.toJson = .ok p.json := by
  obtain ⟨name, age, tags, nick⟩ := p
  cases nick <;>
    simp only [tree, json, Tree.toJson, Tree.entriesToJson, Tree.key,
      Tree.itemsToJson_text, bind, Except.bind] <;> rfl

theorem exactItems_text (texts : List String) :
    Json.ExactItems (texts.map .text) := by
  induction texts with
  | nil => trivial
  | cons t texts ih => exact ⟨trivial, ih⟩

theorem exact_json (p : Profile) : p.json.Exact := by
  have hage : Json.isWhole p.age.toNat := by
    have hlt := p.age.toNat_lt
    refine decide_eq_true ⟨?_, ?_⟩
    · rw [Json.leastWhole]
      omega
    · rw [Json.greatestWhole]
      omega
  have hkeys : ["age", "name", "nick", "tags"].Pairwise (· < ·) := by decide
  refine ⟨List.pairwise_map.mp hkeys, hage, trivial, ?_,
    exactItems_text p.tags, trivial⟩
  cases p.nick <;> trivial

theorem mapM_text?_writtenItems (texts : List String) :
    (Json.writtenItems (texts.map .text)).mapM Written.text? =
      some texts := by
  induction texts with
  | nil => rfl
  | cons t texts ih =>
    rw [List.map_cons, Json.writtenItems, List.mapM_cons, ih, Json.written,
      Written.text?, Written.text?_pieces]
    rfl

/-- A profile is read from its JSON value. -/
theorem profile?_json (p : Profile) :
    Written.profile? p.json.written = some p := by
  obtain ⟨name, age, tags, nick⟩ := p
  have hage : Written.natural? 0xFFFFFFFF
      (.number (Written.numeral age.toNat)) = some age.toNat :=
    Written.natural?_numeral (Nat.le_of_lt_succ age.toNat_lt)
  have htags := mapM_text?_writtenItems tags
  cases nick <;>
    simp [json, Json.written, Json.writtenFields, Written.profile?,
      Written.fieldOf?, List.lookup_cons, Written.text?, Written.texts?,
      Written.optionalText?, Written.text?_pieces, hage, htags]

end Profile

namespace Storable

/-- A value that its stored form tells: a JSON value is given by its text,
without doubles, and nests no deeper than is read. -/
def Regular : (kind : Storable) → kind.Value → Prop
  | .json, (j : Json) => j.Exact ∧ j.depth ≤ 127
  | .optional _, none => True
  | .optional kind, some value => kind.Regular value
  | _, _ => True

/-- What a structured value is stored as, if its tree has a JSON value. -/
theorem store_eq_ok {t : Tree} {stored : StoreValue}
    (h : t.store.map some = .ok (some stored)) :
    ∃ j, t.toJson = .ok j ∧ stored = .data (Utf8.encode j.chars) := by
  rw [Tree.store] at h
  cases hj : t.toJson with
  | error fault =>
    rw [hj] at h
    cases h
  | ok j =>
    rw [hj] at h
    cases h
    exact ⟨j, rfl, rfl⟩

theorem decode_encode_int32 (n : Int32) :
    Storable.int32.decode (.int n.toInt64) = .ok n := by
  have hlower := n.le_toInt
  have hupper := n.toInt_lt
  rw [decode, Int32.toInt_toInt64, if_neg (by omega), if_neg (by omega),
    Int32.toInt32_toInt64]

theorem decode_encode_profile {p : Profile} {stored : StoreValue}
    (h : Storable.profile.encode p = .ok (some stored)) :
    Storable.profile.decode stored = .ok p := by
  obtain ⟨j, hj, rfl⟩ := store_eq_ok h
  cases Except.ok.inj (hj.symm.trans p.toJson_tree)
  simp only [decode, readStructured, Written.read_chars p.exact_json,
    p.profile?_json]

theorem decode_encode_json {j : Json} {stored : StoreValue}
    (hj : Storable.json.Regular j)
    (h : Storable.json.encode j = .ok (some stored)) :
    Storable.json.decode stored = .ok j := by
  obtain ⟨j', hj', rfl⟩ := store_eq_ok h
  cases Except.ok.inj (hj'.symm.trans (Tree.toJson_ofJson j hj.1))
  exact Tree.decode_chars hj.1 hj.2

/-- A number of 128 bits has a stored form if it is one of 64 bits. -/
theorem decode_encode_big {n : BigInteger} {stored : StoreValue}
    (h : Storable.big.encode n = .ok (some stored)) :
    Storable.big.decode stored = .ok n := by
  obtain ⟨j, hj, rfl⟩ := store_eq_ok h
  rw [Tree.toJson] at hj
  split at hj
  · rename_i hwhole
    cases hj
    have hexact : (Json.whole n.value).Exact := hwhole
    have hn : BigInteger.ofInt? n.value = some n := dif_pos ⟨n.lower, n.upper⟩
    simp only [decode, readStructured, Written.read_chars hexact,
      Json.written, Written.big?, Written.whole?_numeral, Option.bind_some, hn]
  · cases hj

theorem decode_encode_token {t : HistoryToken} {stored : StoreValue}
    (h : Storable.token.encode t = .ok (some stored)) :
    Storable.token.decode stored = .ok t := by
  obtain ⟨stored', h', hdecode⟩ := t.decode_encode
  cases (Except.ok.inj (h.symm.trans h'))
  exact hdecode

/-- What a value is stored as is decoded as the value. -/
theorem decode_encode : ∀ (kind : Storable) {value : kind.Value}
    {stored : StoreValue}, kind.Regular value →
      kind.encode value = .ok (some stored) →
        kind.decode stored = .ok value
  | .int, _, _, _, h | .single, _, _, _, h | .double, _, _, _, h
  | .bool, _, _, _, h | .text, _, _, _, h | .url, _, _, _, h
  | .data, _, _, _, h | .texts, _, _, _, h => by
    cases h
    rfl
  | .int32, n, _, _, h => by
    cases h
    exact decode_encode_int32 n
  | .profile, _, _, _, h => decode_encode_profile h
  | .json, _, _, hvalue, h => decode_encode_json hvalue h
  | .big, _, _, _, h => decode_encode_big h
  | .token, _, _, _, h => decode_encode_token h
  | .optional _, none, _, _, h => nomatch h
  | .optional kind, some value, _, hvalue, h => by
    have hdecode : kind.decode _ = .ok value := decode_encode kind hvalue h
    rw [decode, hdecode]
    rfl

end Storable
end LiveProperty
