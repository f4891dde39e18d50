import LiveProperty.Proofs.Json.Reading
import LiveProperty.Store.Storable

/-!
# Stored tokens

A history token is stored as the bytes of a JSON array of numbers, and is
what is read from these bytes: `HistoryToken.decode_encode`.
-/

namespace LiveProperty

namespace Json

/-- The array of the bytes of a token. -/
def ofBytes (bytes : List UInt8) : Json :=
  .array (bytes.map fun b => .whole b.toNat)

theorem isWhole_toNat (b : UInt8) : isWhole b.toNat := by
  have hlt := b.toNat_lt
  refine decide_eq_true ⟨?_, ?_⟩
  · rw [leastWhole]
    omega
  · rw [greatestWhole]
    omega

theorem exact_ofBytes (bytes : List UInt8) : (ofBytes bytes).Exact := by
  rw [ofBytes, Exact]
  induction bytes with
  | nil => trivial
  | cons b bytes ih => exact ⟨isWhole_toNat b, ih⟩

end Json

namespace Written

theorem natural?_numeral {greatest n : ℕ} (h : n ≤ greatest) :
    natural? greatest (.number (numeral n)) = some n := by
  have hsize : (numeral n).size = n := size_numeral n
  simp [natural?, hsize, h]
  simp [numeral, Numeral.plain]

theorem mapM_natural?_writtenItems (bytes : List UInt8) :
    (Json.writtenItems (bytes.map fun b => .whole b.toNat)).mapM
        (natural? 255) =
      some (bytes.map UInt8.toNat) := by
  induction bytes with
  | nil => rfl
  | cons b bytes ih =>
    have hb := natural?_numeral (Nat.le_of_lt_succ b.toNat_lt)
    simp only [List.map_cons, Json.writtenItems, Json.written,
      List.mapM_cons, hb, ih]
    rfl

/-- The bytes of a token are those of the numbers in the array. -/
theorem token?_ofBytes (t : HistoryToken) :
    token? (Json.ofBytes t.bytes).written = some t := by
  have hbytes : (t.bytes.map UInt8.toNat).map UInt8.ofNat = t.bytes := by
    rw [List.map_map]
    exact List.map_id'' (fun b => UInt8.ofNat_toNat) t.bytes
  simp only [Json.ofBytes, Json.written, token?, mapM_natural?_writtenItems,
    Option.map_some, hbytes]

end Written

theorem Tree.itemsToJson_whole (bytes : List UInt8) :
    itemsToJson (bytes.map fun b => .whole b.toNat) =
      .ok (bytes.map fun b => .whole b.toNat) := by
  induction bytes with
  | nil => rfl
  | cons b bytes ih =>
    simp only [List.map_cons, itemsToJson, toJson, ih, bind, Except.bind]

namespace HistoryToken

/-- A token is stored as the bytes of an array of numbers. -/
theorem encode_eq (t : HistoryToken) :
    t.encode =
      .ok (some (.data (Utf8.encode (Json.ofBytes t.bytes).chars))) := by
  simp only [HistoryToken.encode, Storable.encode, Tree.store, Tree.toJson,
    Tree.itemsToJson_whole, bind, Except.bind, Except.map, Json.ofBytes]

/-- Every token can be stored, and is read as it was stored. -/
theorem decode_encode (t : HistoryToken) :
    ∃ stored, t.encode = .ok (some stored) ∧ decode stored = .ok t := by
  refine ⟨_, t.encode_eq, ?_⟩
  simp only [decode, Storable.decode, readStructured,
    Written.read_chars (Json.exact_ofBytes t.bytes), Written.token?_ofBytes]
  rfl

end HistoryToken
end LiveProperty
