import LiveProperty.Proofs.Dictionaries
import LiveProperty.Store.Storable

/-!
# Objects whatever order their map keeps

The fields of an object are kept in a map that lists its entries in an order
of its own: that of the keys, or that in which they came.  Before an object
is written its fields are put in key order, so the text does not depend on
the map: `Tree.storeBy_eq_store`.
-/

namespace LiveProperty

/-- A map of fields: what it lists after an entry has been put into it, and
that an entry with the greatest key is listed last. -/
structure FieldMap where
  Map : Type
  empty : Map
  put : Map → String → Json → Map
  entries : Map → List (String × Json)
  nodup : ∀ m, ((entries m).map Prod.fst).Nodup
  entries_empty : entries empty = []
  mem_put : ∀ m key value entry, entry ∈ entries (put m key value) ↔
    entry = (key, value) ∨ entry ∈ entries m ∧ entry.1 ≠ key
  put_last : ∀ m key value, (∀ entry ∈ entries m, entry.1 < key) →
    entries (put m key value) = entries m ++ [(key, value)]

namespace Json

variable (M : FieldMap)

mutual

/-- The value with the fields of every object in key order: they are sorted
first and then listed by a map that they are put into in that order. -/
def sortKeys : Json → Json
  | .object fields => .object (M.entries
      ((Dictionary.ofEntries (sortFields fields)).foldl
        (fun m field => M.put m field.1 field.2) M.empty))
  | .array items => .array (sortItems items)
  | other => other

/-- The items of an array, each with its keys sorted. -/
def sortItems : List Json → List Json
  | [] => []
  | item :: rest => item.sortKeys :: sortItems rest

/-- The fields of an object, the keys of each value sorted. -/
def sortFields : List (String × Json) → List (String × Json)
  | [] => []
  | (key, value) :: rest => (key, value.sortKeys) :: sortFields rest

end

end Json

namespace Tree

variable (M : FieldMap)

mutual

/-- The JSON value of a tree, its objects kept in maps of one sort. -/
def toJsonBy : Tree → Except TreeFault Json
  | .sequence items => do
    let items ← itemsToJsonBy items
    .ok (.array items)
  | .map entries => do
    let fields ← entriesToJsonBy entries M.empty
    .ok (.object (M.entries fields))
  | .wrapped name t => do
    let value ← t.toJsonBy
    .ok (.object (M.entries (M.put M.empty name value)))
  | .record name fields => do
    let fields ← fieldsToJsonBy fields M.empty
    .ok (.object (M.entries
      (M.put M.empty name (.object (M.entries fields)))))
  | .some t => t.toJsonBy
  | scalar => scalar.toJson

/-- The JSON values of the items of a sequence. -/
def itemsToJsonBy : List Tree → Except TreeFault (List Json)
  | [] => .ok []
  | item :: rest => do
    let item ← item.toJsonBy
    let rest ← itemsToJsonBy rest
    .ok (item :: rest)

/-- Adds the entries of a map to a map of fields. -/
def entriesToJsonBy : List (Tree × Tree) → M.Map → Except TreeFault M.Map
  | [], m => .ok m
  | (k, t) :: rest, m => do
    let key ← k.key
    let value ← t.toJsonBy
    entriesToJsonBy rest (M.put m key value)

/-- Adds the fields of a record to a map of fields. -/
def fieldsToJsonBy : List (String × Tree) → M.Map → Except TreeFault M.Map
  | [], m => .ok m
  | (key, t) :: rest, m => do
    let value ← t.toJsonBy
    fieldsToJsonBy rest (M.put m key value)

end

/-- The stored form of a structured value whose objects are kept in maps of
one sort until they are written. -/
def storeBy (t : Tree) : Except BridgeError StoreValue :=
  match t.toJsonBy M with
  | .ok j => .ok (.data (Utf8.encode (j.sortKeys M).chars))
  | .error fault => .error (.encode fault.message)

end Tree

namespace Json

variable {M : FieldMap}

theorem sortFields_eq_map (fields : List (String × Json)) :
    sortFields M fields =
      fields.map fun field => (field.1, field.2.sortKeys M) := by
  induction fields with
  | nil => rw [sortFields, List.map_nil]
  | cons field rest ih =>
    obtain ⟨key, value⟩ := field
    rw [sortFields, ih, List.map_cons]

theorem map_fst_sortFields (fields : List (String × Json)) :
    (sortFields M fields).map Prod.fst = fields.map Prod.fst := by
  rw [sortFields_eq_map, List.map_map]
  rfl

/-- The fields with sorted values, as a dictionary. -/
def dictionary (M : FieldMap) (m : M.Map) : Dictionary Json :=
  Dictionary.ofEntries (sortFields M (M.entries m))

theorem mem_dictionary (m : M.Map) (entry : String × Json) :
    entry ∈ dictionary M m ↔
      ∃ field ∈ M.entries m, (field.1, field.2.sortKeys M) = entry := by
  have hnodup : ((sortFields M (M.entries m)).map Prod.fst).Nodup := by
    rw [map_fst_sortFields]
    exact M.nodup m
  rw [dictionary, Dictionary.mem_ofEntries hnodup, sortFields_eq_map,
    List.mem_map]

theorem dictionary_empty : dictionary M M.empty = [] := by
  rw [dictionary, M.entries_empty, sortFields]
  rfl

/-- Where an entry is listed makes no difference after sorting. -/
theorem dictionary_put (m : M.Map) (key : String) (value : Json) :
    dictionary M (M.put m key value) =
      (dictionary M m).put key (value.sortKeys M) := by
  have hordered : Dictionary.Ordered (dictionary M m) :=
    Dictionary.ordered_ofEntries _
  refine Dictionary.eq_of_mem_iff (Dictionary.ordered_ofEntries _)
    (Dictionary.ordered_put hordered key _) fun entry => ?_
  rw [Dictionary.mem_put_iff hordered, mem_dictionary, mem_dictionary]
  constructor
  · rintro ⟨field, hmem, rfl⟩
    rcases (M.mem_put m key value field).mp hmem with rfl | ⟨hmem, hne⟩
    · exact Or.inl rfl
    · exact Or.inr ⟨⟨field, hmem, rfl⟩, hne⟩
  · rintro (rfl | ⟨⟨field, hmem, rfl⟩, hne⟩)
    · exact ⟨_, (M.mem_put m key value _).mpr (Or.inl rfl), rfl⟩
    · exact ⟨field, (M.mem_put m key value field).mpr (Or.inr ⟨hmem, hne⟩),
        rfl⟩

theorem entries_foldl_put (d : Dictionary Json) (m : M.Map)
    (h : Dictionary.Ordered (M.entries m ++ d)) :
    M.entries (d.foldl (fun m field => M.put m field.1 field.2) m) =
      M.entries m ++ d := by
  induction d generalizing m with
  | nil => rw [List.foldl_nil, List.append_nil]
  | cons field d ih =>
    have hlt : ∀ e ∈ M.entries m, e.1 < field.1 := fun e he =>
      (List.pairwise_append.mp h).2.2 e he field List.mem_cons_self
    have hput := M.put_last m field.1 field.2 hlt
    rw [List.foldl_cons, ih, hput, List.append_assoc]
    · rfl
    · rw [hput, List.append_assoc]
      exact h

/-- A map lists in key order what is put into it in key order. -/
theorem sortKeys_object (m : M.Map) :
    sortKeys M (.object (M.entries m)) = .object (dictionary M m) := by
  have hordered := Dictionary.ordered_ofEntries (sortFields M (M.entries m))
  have hentries := entries_foldl_put (dictionary M m) M.empty (by
    rw [M.entries_empty]
    exact hordered)
  rw [M.entries_empty] at hentries
  rw [sortKeys, ← dictionary, hentries]
  rfl

end Json

namespace Tree

open Json

variable (M : FieldMap)

theorem sortKeys_ofDouble (x : Double) :
    (ofDouble x).sortKeys M = ofDouble x := by
  rw [ofDouble]
  split <;> rw [sortKeys] <;> simp

theorem sortItems_whole (bs : List UInt8) :
    sortItems M (bs.map fun b => .whole b.toNat) =
      bs.map fun b => .whole b.toNat := by
  induction bs with
  | nil => rfl
  | cons b bs ih => simp [sortItems, sortKeys, ih]

mutual

/-- The sort of map leaves no trace once the keys are sorted. -/
theorem toJsonBy_map_sortKeys :
    ∀ t : Tree, (t.toJsonBy M).map (sortKeys M) = t.toJson
  | .unit | .bool _ | .whole _ | .text _ | .char _ | .variant _
  | .invalid => by
    simp [toJsonBy, toJson, Except.map, sortKeys]
  | .wide n => by
    simp only [toJsonBy, toJson]
    split <;> simp [Except.map, sortKeys]
  | .single x | .double x => by
    simp [toJsonBy, toJson, Except.map, sortKeys_ofDouble]
  | .bytes bs => by
    simp [toJsonBy, toJson, Except.map, sortKeys, sortItems_whole]
  | .some t => by
    rw [toJsonBy, toJson]
    exact toJsonBy_map_sortKeys t
  | .sequence items => by
    have hitems := itemsToJsonBy_map_sortItems items
    rw [toJsonBy, toJson, ← hitems]
    cases itemsToJsonBy M items <;> rfl
  | .map entries => by
    have hentries := entriesToJsonBy_map_dictionary entries M.empty
    rw [dictionary_empty] at hentries
    rw [toJsonBy, toJson, ← hentries]
    cases entriesToJsonBy M entries M.empty with
    | error fault => rfl
    | ok m => exact congrArg Except.ok (sortKeys_object m)
  | .wrapped name t => by
    have ht := toJsonBy_map_sortKeys t
    rw [toJsonBy, toJson, ← ht]
    cases toJsonBy M t with
    | error fault => rfl
    | ok j =>
      refine congrArg Except.ok ?_
      rw [sortKeys_object, dictionary_put, dictionary_empty]
      rfl
  | .record name fields => by
    have hfields := fieldsToJsonBy_map_dictionary fields M.empty
    rw [dictionary_empty] at hfields
    rw [toJsonBy, toJson, ← hfields]
    cases fieldsToJsonBy M fields M.empty with
    | error fault => rfl
    | ok m =>
      refine congrArg Except.ok ?_
      rw [sortKeys_object, dictionary_put, dictionary_empty,
        sortKeys_object]
      rfl

theorem itemsToJsonBy_map_sortItems : ∀ items : List Tree,
    (itemsToJsonBy M items).map (sortItems M) = itemsToJson items
  | [] => by simp [itemsToJsonBy, itemsToJson, Except.map, sortItems]
  | item :: items => by
    have hitem := toJsonBy_map_sortKeys item
    have hitems := itemsToJsonBy_map_sortItems items
    rw [itemsToJsonBy, itemsToJson, ← hitem, ← hitems]
    cases toJsonBy M item with
    | error fault => rfl
    | ok j => cases itemsToJsonBy M items <;> rfl

theorem entriesToJsonBy_map_dictionary : ∀ (entries : List (Tree × Tree))
    (m : M.Map), (entriesToJsonBy M entries m).map (dictionary M) =
      entriesToJson entries (dictionary M m)
  | [], m => by rw [entriesToJsonBy, entriesToJson]; rfl
  | (k, t) :: entries, m => by
    have ht := toJsonBy_map_sortKeys t
    rw [entriesToJsonBy, entriesToJson, ← ht]
    cases k.key with
    | error fault => rfl
    | ok key =>
      cases toJsonBy M t with
      | error fault => rfl
      | ok j =>
        have hrest := entriesToJsonBy_map_dictionary entries (M.put m key j)
        rw [dictionary_put] at hrest
        exact hrest

theorem fieldsToJsonBy_map_dictionary : ∀ (fields : List (String × Tree))
    (m : M.Map), (fieldsToJsonBy M fields m).map (dictionary M) =
      fieldsToJson fields (dictionary M m)
  | [], m => by rw [fieldsToJsonBy, fieldsToJson]; rfl
  | (key, t) :: fields, m => by
    have ht := toJsonBy_map_sortKeys t
    rw [fieldsToJsonBy, fieldsToJson, ← ht]
    cases toJsonBy M t with
    | error fault => rfl
    | ok j =>
      have hrest := fieldsToJsonBy_map_dictionary fields (M.put m key j)
      rw [dictionary_put] at hrest
      exact hrest

end

/-- What is stored does not depend on how objects keep their fields. -/
theorem storeBy_eq_store (t : Tree) : t.storeBy M = t.store := by
  rw [storeBy, store, ← toJsonBy_map_sortKeys M t]
  cases t.toJsonBy M <;> rfl

end Tree

namespace FieldMap

/-- The map that lists its entries in key order. -/
def sorted : FieldMap where
  Map := { d : Dictionary Json // Dictionary.Ordered d }
  empty := ⟨[], List.Pairwise.nil⟩
  put d key value := ⟨d.1.put key value, Dictionary.ordered_put d.2 key value⟩
  entries d := d.1
  nodup d := Dictionary.nodup_keys_of_ordered d.2
  entries_empty := rfl
  mem_put d _ _ _ := Dictionary.mem_put_iff d.2
  put_last _ _ _ h := Dictionary.put_of_forall_lt h

/-- The entries with one added at the end, or in place of the one that has
its key. -/
def insert (entries : List (String × Json)) (key : String) (value : Json) :
    List (String × Json) :=
  if key ∈ entries.map Prod.fst then
    entries.map fun e => if e.1 = key then (key, value) else e
  else entries ++ [(key, value)]

theorem map_fst_replace (entries : List (String × Json)) (key : String)
    (value : Json) :
    (entries.map fun e => if e.1 = key then (key, value) else e).map
        Prod.fst =
      entries.map Prod.fst := by
  rw [List.map_map]
  refine List.map_congr_left fun e _ => ?_
  simp only [Function.comp_apply]
  split
  · next h => exact h.symm
  · rfl

theorem nodup_insert {entries : List (String × Json)}
    (h : (entries.map Prod.fst).Nodup) (key : String) (value : Json) :
    ((insert entries key value).map Prod.fst).Nodup := by
  rw [insert]
  split
  · rw [map_fst_replace]
    exact h
  · next hfresh =>
    rw [List.map_append, List.map_singleton]
    refine List.nodup_append.mpr ⟨h, by simp, fun k hk k' hk' heq => ?_⟩
    rw [heq, List.mem_singleton.mp hk'] at hk
    exact hfresh hk

theorem mem_insert (entries : List (String × Json)) (key : String)
    (value : Json) (entry : String × Json) :
    entry ∈ insert entries key value ↔
      entry = (key, value) ∨ entry ∈ entries ∧ entry.1 ≠ key := by
  rw [insert]
  split
  · next hkey =>
    obtain ⟨old, hold, holdkey⟩ := List.mem_map.mp hkey
    rw [List.mem_map]
    constructor
    · rintro ⟨e, he, rfl⟩
      split
      · exact Or.inl rfl
      · next hne => exact Or.inr ⟨he, hne⟩
    · rintro (rfl | ⟨hmem, hne⟩)
      · exact ⟨old, hold, if_pos holdkey⟩
      · exact ⟨entry, hmem, if_neg hne⟩
  · next hfresh =>
    rw [List.mem_append, List.mem_singleton]
    constructor
    · rintro (hmem | rfl)
      · exact Or.inr ⟨hmem, fun heq => hfresh
          (heq ▸ List.mem_map_of_mem hmem)⟩
      · exact Or.inl rfl
    · rintro (rfl | ⟨hmem, _⟩)
      · exact Or.inr rfl
      · exact Or.inl hmem

/-- The map that lists its entries in the order in which their keys came. -/
def insertion : FieldMap where
  Map := { entries : List (String × Json) // (entries.map Prod.fst).Nodup }
  empty := ⟨[], List.nodup_nil⟩
  put m key value := ⟨insert m.1 key value, nodup_insert m.2 key value⟩
  entries m := m.1
  nodup m := m.2
  entries_empty := rfl
  mem_put m := mem_insert m.1
  put_last m key value h := if_neg fun hkey => by
    obtain ⟨e, he, heq⟩ := List.mem_map.mp hkey
    exact String.lt_irrefl _ (heq ▸ h e he)

end FieldMap

end LiveProperty
