/-!
# Dictionaries

Finite maps from texts to values, kept as association lists in strictly increasing key order (texts are
ordered by code points, which is also the order of their UTF-8 bytes).  `put` and `erase` keep that order, so
two dictionaries with the same entries are the same list, whatever order the entries came in.
-/

namespace LiveProperty

/-- A finite map from texts to values, as a list of entries. -/
abbrev Dictionary (α : Type) := List (String × α)

namespace Dictionary

variable {α : Type}

/-- The keys strictly increase, so each occurs once. -/
def Ordered (d : Dictionary α) : Prop :=
  d.Pairwise fun a b => a.1 < b.1

/-- The value stored under a key. -/
def find? : Dictionary α → String → Option α
  | [], _ => none
  | (k, v) :: rest, key => if k = key then some v else find? rest key

/-- Whether a key has a value. -/
def contains (d : Dictionary α) (key : String) : Bool :=
  (d.find? key).isSome

/-- Stores a value under a key, replacing the one that was there. -/
def put : Dictionary α → String → α → Dictionary α
  | [], key, value => [(key, value)]
  | (k, v) :: rest, key, value =>
    if key = k then (key, value) :: rest
    else if key < k then (key, value) :: (k, v) :: rest
    else (k, v) :: put rest key value

/-- Forgets a key. -/
def erase : Dictionary α → String → Dictionary α
  | [], _ => []
  | (k, v) :: rest, key => if k = key then erase rest key else (k, v) :: erase rest key

/-- The dictionary of a list of entries; of entries with one key the last counts. -/
def ofEntries (entries : List (String × α)) : Dictionary α :=
  entries.foldl (fun d entry => d.put entry.1 entry.2) []

/-- The keys, in order. -/
def keys (d : Dictionary α) : List String :=
  d.map Prod.fst

@[simp] theorem find?_nil (key : String) : find? ([] : Dictionary α) key = none := rfl

theorem find?_put_self (d : Dictionary α) (key : String) (value : α) :
    (d.put key value).find? key = some value := by
  induction d with
  | nil => simp [put, find?]
  | cons entry rest ih =>
    obtain ⟨k, v⟩ := entry
    simp only [put]
    split
    · simp [find?]
    · split
      · simp [find?]
      · next hne _ => simp [find?, Ne.symm hne, ih]

theorem find?_put_of_ne (d : Dictionary α) {key other : String} (h : other ≠ key) (value : α) :
    (d.put key value).find? other = d.find? other := by
  induction d with
  | nil => simp [put, find?, Ne.symm h]
  | cons entry rest ih =>
    obtain ⟨k, v⟩ := entry
    simp only [put]
    split
    · next hk => subst hk; simp [find?, Ne.symm h]
    · split
      · simp [find?, Ne.symm h]
      · simp only [find?, ih]

theorem find?_erase_self (d : Dictionary α) (key : String) : (d.erase key).find? key = none := by
  induction d with
  | nil => rfl
  | cons entry rest ih =>
    obtain ⟨k, v⟩ := entry
    by_cases hk : k = key
    · simpa [erase, hk] using ih
    · simpa [erase, hk, find?] using ih

theorem find?_erase_of_ne (d : Dictionary α) {key other : String} (h : other ≠ key) :
    (d.erase key).find? other = d.find? other := by
  induction d with
  | nil => rfl
  | cons entry rest ih =>
    obtain ⟨k, v⟩ := entry
    by_cases hk : k = key
    · subst hk; simpa [erase, find?, Ne.symm h] using ih
    · simp only [erase, hk, if_false, find?, ih]

/-- What is found is an entry. -/
theorem mem_of_find? {d : Dictionary α} {key : String} {value : α}
    (h : d.find? key = some value) : (key, value) ∈ d := by
  induction d with
  | nil => simp at h
  | cons entry rest ih =>
    obtain ⟨k, v⟩ := entry
    simp only [find?] at h
    split at h
    · next hk => subst hk; cases h; exact List.mem_cons_self
    · exact List.mem_cons_of_mem _ (ih h)

theorem mem_put {d : Dictionary α} {key : String} {value : α} {entry : String × α}
    (h : entry ∈ d.put key value) : entry = (key, value) ∨ entry ∈ d := by
  induction d with
  | nil => simpa [put] using h
  | cons first rest ih =>
    simp only [put] at h
    split at h
    · rcases List.mem_cons.mp h with h | h
      · exact Or.inl h
      · exact Or.inr (List.mem_cons_of_mem _ h)
    · split at h
      · exact List.mem_cons.mp h
      · rcases List.mem_cons.mp h with h | h
        · exact Or.inr (h ▸ List.mem_cons_self)
        · exact (ih h).imp_right (List.mem_cons_of_mem _)

theorem mem_of_mem_erase {d : Dictionary α} {key : String} {entry : String × α} (h : entry ∈ d.erase key) :
    entry ∈ d := by
  induction d with
  | nil => exact h
  | cons first rest ih =>
    simp only [erase] at h
    split at h
    · exact List.mem_cons_of_mem _ (ih h)
    · rcases List.mem_cons.mp h with rfl | h
      · exact List.mem_cons_self
      · exact List.mem_cons_of_mem _ (ih h)

theorem ordered_put {d : Dictionary α} (h : Ordered d) (key : String) (value : α) :
    Ordered (d.put key value) := by
  induction d with
  | nil => simp [put, Ordered]
  | cons first rest ih =>
    obtain ⟨hfirst, hrest⟩ := List.pairwise_cons.mp h
    simp only [put]
    split
    · next heq => exact List.pairwise_cons.mpr ⟨fun e he => heq ▸ hfirst e he, hrest⟩
    · next hne =>
      split
      · next hlt =>
        refine List.pairwise_cons.mpr ⟨fun e he => ?_, h⟩
        rcases List.mem_cons.mp he with rfl | he
        · exact hlt
        · exact String.lt_trans hlt (hfirst e he)
      · next hge =>
        refine List.pairwise_cons.mpr ⟨fun e he => ?_, ih hrest⟩
        rcases mem_put he with rfl | he
        · rcases Std.lt_trichotomy key first.1 with hlt | heq | hgt
          · exact absurd hlt hge
          · exact absurd heq hne
          · exact hgt
        · exact hfirst e he

theorem ordered_erase {d : Dictionary α} (h : Ordered d) (key : String) : Ordered (d.erase key) := by
  induction d with
  | nil => exact h
  | cons first rest ih =>
    obtain ⟨hfirst, hrest⟩ := List.pairwise_cons.mp h
    simp only [erase]
    split
    · exact ih hrest
    · exact List.pairwise_cons.mpr ⟨fun e he => hfirst e (mem_of_mem_erase he), ih hrest⟩

/-- Whatever order entries come in, their dictionary is in key order. -/
theorem ordered_ofEntries (entries : List (String × α)) : Ordered (ofEntries entries) :=
  List.foldlRecOn entries _ List.Pairwise.nil fun _ h entry _ => ordered_put h entry.1 entry.2

end Dictionary

end LiveProperty
