import LiveProperty.Dictionary
import Mathlib.Data.List.Basic

/-!
# Dictionaries filled in any order

A dictionary is known by its entries, `eq_of_mem_iff`, and keeps all that
have different keys, `mem_ofEntries`, so it does not tell in which order they
came.  Entries that come in key order are kept as they are,
`ofEntries_of_ordered`.
-/

namespace LiveProperty.Dictionary

variable {α : Type} {d : Dictionary α} {key : String} {value : α}

/-- The greatest key goes last. -/
theorem put_of_forall_lt (h : ∀ entry ∈ d, entry.1 < key) :
    d.put key value = d ++ [(key, value)] := by
  induction d with
  | nil => rfl
  | cons entry rest ih =>
    have hlt := h entry List.mem_cons_self
    have hne : key ≠ entry.1 := fun heq => String.lt_irrefl _ (heq ▸ hlt)
    rw [put, if_neg hne, if_neg (String.lt_asymm hlt),
      ih fun e he => h e (List.mem_cons_of_mem entry he)]
    rfl

theorem foldl_put_of_ordered (entries : Dictionary α)
    (h : Ordered (d ++ entries)) :
    entries.foldl (fun d entry => d.put entry.1 entry.2) d = d ++ entries := by
  induction entries generalizing d with
  | nil => rw [List.append_nil, List.foldl_nil]
  | cons entry entries ih =>
    have hlt : ∀ e ∈ d, e.1 < entry.1 := fun e he =>
      (List.pairwise_append.mp h).2.2 e he entry List.mem_cons_self
    rw [List.foldl_cons, put_of_forall_lt hlt, ih, List.append_assoc]
    · rfl
    · rw [List.append_assoc]
      exact h

/-- Entries in key order are their own dictionary. -/
theorem ofEntries_of_ordered (h : Ordered d) : ofEntries d = d :=
  foldl_put_of_ordered d h

/-- The entries of a dictionary are what is found in it. -/
theorem find?_eq_some_iff (h : Ordered d) :
    d.find? key = some value ↔ (key, value) ∈ d := by
  refine ⟨mem_of_find?, fun hmem => ?_⟩
  induction d with
  | nil => exact absurd hmem List.not_mem_nil
  | cons entry rest ih =>
    obtain ⟨k, v⟩ := entry
    obtain ⟨hlt, hrest⟩ := List.pairwise_cons.mp h
    rw [find?]
    rcases List.mem_cons.mp hmem with heq | hmem
    · cases heq
      exact if_pos rfl
    · have hne : k ≠ key := fun heq =>
        String.lt_irrefl _ (heq ▸ hlt (key, value) hmem)
      rw [if_neg hne, ih hrest hmem]

theorem nodup_of_ordered (h : Ordered d) : d.Nodup := by
  refine List.Pairwise.imp (fun {a b} hlt heq => ?_) h
  exact String.lt_irrefl _ (heq ▸ hlt)

theorem nodup_keys_of_ordered (h : Ordered d) : (d.map Prod.fst).Nodup := by
  refine List.pairwise_map.mpr (List.Pairwise.imp (fun {a b} hlt heq => ?_) h)
  exact String.lt_irrefl _ (heq ▸ hlt)

/-- Two dictionaries with the same entries are one. -/
theorem eq_of_mem_iff {d' : Dictionary α} (h : Ordered d) (h' : Ordered d')
    (hmem : ∀ entry, entry ∈ d ↔ entry ∈ d') : d = d' := by
  have hperm : d.Perm d' :=
    (List.perm_ext_iff_of_nodup (nodup_of_ordered h)
      (nodup_of_ordered h')).mpr fun entry => hmem entry
  exact hperm.eq_of_pairwise
    (fun a b _ _ hab hba => absurd hba (String.lt_asymm hab)) h h'

theorem mem_put_iff (h : Ordered d) {entry : String × α} :
    entry ∈ d.put key value ↔
      entry = (key, value) ∨ entry ∈ d ∧ entry.1 ≠ key := by
  obtain ⟨k, v⟩ := entry
  rw [← find?_eq_some_iff (ordered_put h key value), ← find?_eq_some_iff h]
  by_cases hkey : k = key
  · subst hkey
    simp [find?_put_self, eq_comm]
  · simp [find?_put_of_ne _ hkey, hkey]

theorem mem_erase_iff (h : Ordered d) {entry : String × α} :
    entry ∈ d.erase key ↔ entry ∈ d ∧ entry.1 ≠ key := by
  obtain ⟨k, v⟩ := entry
  rw [← find?_eq_some_iff (ordered_erase h key), ← find?_eq_some_iff h]
  by_cases hkey : k = key
  · subst hkey
    simp [find?_erase_self]
  · simp [find?_erase_of_ne _ hkey, hkey]

theorem mem_foldl_put (entries : List (String × α)) (h : Ordered d)
    (hnodup : (entries.map Prod.fst).Nodup) {entry : String × α} :
    entry ∈ entries.foldl (fun d e => d.put e.1 e.2) d ↔
      entry ∈ entries ∨ entry ∈ d ∧ entry.1 ∉ entries.map Prod.fst := by
  induction entries generalizing d with
  | nil => simp
  | cons e entries ih =>
    rw [List.map_cons, List.nodup_cons] at hnodup
    obtain ⟨hfresh, hnodup⟩ := hnodup
    rw [List.foldl_cons, ih (ordered_put h e.1 e.2) hnodup, mem_put_iff h,
      List.map_cons, List.mem_cons, List.mem_cons, not_or]
    constructor
    · rintro (hmem | ⟨rfl | ⟨hmem, hne⟩, hrest⟩)
      · exact Or.inl (Or.inr hmem)
      · exact Or.inl (Or.inl rfl)
      · exact Or.inr ⟨hmem, hne, hrest⟩
    · rintro ((rfl | hmem) | ⟨hmem, hne, hrest⟩)
      · exact Or.inr ⟨Or.inl rfl, hfresh⟩
      · exact Or.inl hmem
      · exact Or.inr ⟨Or.inr ⟨hmem, hne⟩, hrest⟩

/-- No entry is made up. -/
theorem mem_of_mem_ofEntries {entries : List (String × α)}
    {entry : String × α} (h : entry ∈ ofEntries entries) :
    entry ∈ entries := by
  refine List.foldlRecOn entries (fun d e => put d e.1 e.2)
    (motive := fun d => entry ∈ d → entry ∈ entries)
    (fun hnil => absurd hnil List.not_mem_nil)
    (fun d ih e he hmem => ?_) h
  rcases mem_put hmem with rfl | hmem
  · exact he
  · exact ih hmem

/-- Entries with different keys are all kept. -/
theorem mem_ofEntries {entries : List (String × α)}
    (hnodup : (entries.map Prod.fst).Nodup) {entry : String × α} :
    entry ∈ ofEntries entries ↔ entry ∈ entries := by
  rw [ofEntries, mem_foldl_put entries List.Pairwise.nil hnodup]
  simp

end LiveProperty.Dictionary
