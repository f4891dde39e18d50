import LiveProperty.Query.Row
import Mathlib.Data.Int.Notation
import Mathlib.Data.List.Basic
import Mathlib.Data.Nat.Notation

/-!
# Pages of sorted rows

Sort criteria leave some rows tied, and a descriptor keeps tied rows in the
order in which they came, whatever the direction of a criterion.  With that
there is one list of the rows that pass its filter, `Arranges`, and what it
selects is a page of this list.  So pages that follow one another lose no row
and repeat none.
-/

namespace LiveProperty

open Std

namespace SortCriterion

variable {ρ : Type} {criteria : List (SortCriterion ρ)} {a b : ρ}

/-- A criterion puts one row before another. -/
def Prefers (c : SortCriterion ρ) (a b : ρ) : Prop :=
  match c.order with
  | .forward => c.comparison a b = .lt
  | .reverse => c.comparison b a = .lt

/-- No criterion tells two rows apart. -/
def Tied (criteria : List (SortCriterion ρ)) (a b : ρ) : Prop :=
  ∀ c ∈ criteria, c.comparison a b = .eq

instance (criteria : List (SortCriterion ρ)) (a b : ρ) :
    Decidable (Tied criteria a b) :=
  inferInstanceAs (Decidable (∀ c ∈ criteria, c.comparison a b = .eq))

/-- The first criterion that tells two rows apart puts one before the
other. -/
def Precedes (criteria : List (SortCriterion ρ)) (a b : ρ) : Prop :=
  ∃ earlier c later, criteria = earlier ++ c :: later ∧ Tied earlier a b ∧
    c.Prefers a b

/-- A list has the rows of another one, in the order of some criteria, and
rows that are tied as they were. -/
structure Arranges (criteria : List (SortCriterion ρ))
    (rows arranged : List ρ) : Prop where
  perm : arranged.Perm rows
  ordered : arranged.Pairwise fun a b =>
    Precedes criteria a b ∨ Tied criteria a b
  stable : ∀ a, (arranged.filter fun b => Tied criteria a b) =
    rows.filter fun b => Tied criteria a b

/-! ## Comparisons -/

theorem compare_eq_eq_iff (c : SortCriterion ρ) :
    c.compare a b = .eq ↔ c.comparison a b = .eq := by
  unfold compare
  split
  · rfl
  · exact Ordering.swap_eq_eq

theorem compare_eq_lt_iff (c : SortCriterion ρ) [OrientedCmp c.comparison] :
    c.compare a b = .lt ↔ c.Prefers a b := by
  obtain ⟨comparison, order⟩ := c
  cases order with
  | forward => rfl
  | reverse =>
    have hswap : comparison b a = (comparison a b).swap := OrientedCmp.eq_swap
    change (comparison a b).swap = .lt ↔ comparison b a = .lt
    rw [hswap]

theorem transCmp_compare (c : SortCriterion ρ) [TransCmp c.comparison] :
    TransCmp c.compare := by
  obtain ⟨comparison, order⟩ := c
  cases order with
  | forward => assumption
  | reverse =>
    have hswap : compare ⟨comparison, .reverse⟩ = fun a b => comparison b a := by
      funext a b
      exact OrientedCmp.eq_swap.symm
    rw [hswap]
    exact TransCmp.opposite

theorem compareAll_cons (c : SortCriterion ρ)
    (criteria : List (SortCriterion ρ)) (a b : ρ) :
    compareAll (c :: criteria) a b =
      (c.compare a b).then (compareAll criteria a b) := rfl

theorem compareAll_eq_eq_iff :
    compareAll criteria a b = .eq ↔ Tied criteria a b := by
  induction criteria with
  | nil => simp [compareAll, Tied]
  | cons c criteria ih =>
    rw [compareAll_cons, Ordering.then_eq_eq, ih, compare_eq_eq_iff]
    simp [Tied]

/-- Comparisons of which each is a total preorder are one together. -/
theorem transCmp_compareAll
    (total : ∀ c ∈ criteria, TransCmp c.comparison) :
    TransCmp (compareAll criteria) := by
  induction criteria with
  | nil =>
    have : OrientedCmp (compareAll ([] : List (SortCriterion ρ))) :=
      ⟨fun {_ _} => rfl⟩
    exact ⟨fun {_ _ _} _ _ => rfl⟩
  | cons c criteria ih =>
    have := total c List.mem_cons_self
    have := transCmp_compare c
    have := ih fun d hd => total d (List.mem_cons_of_mem c hd)
    exact inferInstanceAs (TransCmp (compareLex c.compare (compareAll criteria)))

theorem compareAll_eq_lt_iff
    (total : ∀ c ∈ criteria, TransCmp c.comparison) :
    compareAll criteria a b = .lt ↔ Precedes criteria a b := by
  induction criteria with
  | nil => simp [compareAll, Precedes]
  | cons c criteria ih =>
    have := total c List.mem_cons_self
    rw [compareAll_cons, Ordering.then_eq_lt, compare_eq_lt_iff,
      compare_eq_eq_iff, ih fun d hd => total d (List.mem_cons_of_mem c hd)]
    constructor
    · rintro (hprefers | ⟨hequal, earlier, d, later, rfl, htied, hprefers⟩)
      · exact ⟨[], c, criteria, rfl, fun _ hd => absurd hd List.not_mem_nil,
          hprefers⟩
      · refine ⟨c :: earlier, d, later, rfl, fun x hx => ?_, hprefers⟩
        rcases List.mem_cons.mp hx with rfl | hx
        · exact hequal
        · exact htied x hx
    · rintro ⟨earlier, d, later, hcriteria, htied, hprefers⟩
      rcases List.cons_eq_append_iff.mp hcriteria with
        ⟨rfl, hd⟩ | ⟨rest, rfl, hrest⟩
      · cases hd
        exact Or.inl hprefers
      · exact Or.inr ⟨htied c List.mem_cons_self, rest, d, later, hrest,
          fun x hx => htied x (List.mem_cons_of_mem c hx), hprefers⟩

theorem isLE_compareAll_iff
    (total : ∀ c ∈ criteria, TransCmp c.comparison) :
    (compareAll criteria a b).isLE ↔
      Precedes criteria a b ∨ Tied criteria a b := by
  rw [Ordering.isLE_iff_eq_lt_or_eq_eq, compareAll_eq_lt_iff total,
    compareAll_eq_eq_iff]

end SortCriterion

/-! ## Sorted lists -/

section

variable {ρ : Type} {compare : ρ → ρ → Ordering} [TransCmp compare]

/-- A sorted list is determined by its classes of equal elements, each in its
order. -/
theorem eq_of_ordered_of_filter_eq {xs ys : List ρ}
    (hxs : xs.Pairwise fun a b => (compare a b).isLE)
    (hys : ys.Pairwise fun a b => (compare a b).isLE)
    (classes : ∀ a, (xs.filter fun b => compare a b = .eq) =
      ys.filter fun b => compare a b = .eq) : xs = ys := by
  have hself (a : ρ) : compare a a = .eq := ReflCmp.compare_self
  have hmem {us vs : List ρ} {a : ρ}
      (h : (us.filter fun b => compare a b = .eq) =
        vs.filter fun b => compare a b = .eq) (ha : a ∈ us) : a ∈ vs := by
    have hclass : a ∈ us.filter fun b => compare a b = .eq := by
      simp [ha, hself a]
    rw [h] at hclass
    exact List.mem_of_mem_filter hclass
  induction xs generalizing ys with
  | nil =>
    apply Eq.symm
    apply List.eq_nil_iff_forall_not_mem.mpr
    intro y hy
    exact absurd (hmem (classes y).symm hy) List.not_mem_nil
  | cons x xs ih =>
    obtain ⟨hx, hrest⟩ := List.pairwise_cons.mp hxs
    have hxys : x ∈ ys := hmem (classes x) List.mem_cons_self
    cases ys with
    | nil => exact absurd hxys List.not_mem_nil
    | cons y ys =>
      obtain ⟨hy, hrest'⟩ := List.pairwise_cons.mp hys
      have hyxs : y ∈ x :: xs := hmem (classes y).symm List.mem_cons_self
      have hequal : compare x y = .eq := by
        rcases List.mem_cons.mp hyxs with rfl | hyxs
        · exact hself y
        rcases List.mem_cons.mp hxys with rfl | hxys
        · exact hself x
        · exact OrientedCmp.isLE_antisymm (hx y hyxs) (hy x hxys)
      have hhead := classes x
      rw [List.filter_cons_of_pos (by simp [hself x]),
        List.filter_cons_of_pos (by simp [hequal])] at hhead
      obtain ⟨rfl, -⟩ := List.cons.inj hhead
      have htail : xs = ys := by
        apply ih hrest hrest'
        intro a
        have hclass := classes a
        rw [List.filter_cons, List.filter_cons] at hclass
        split at hclass
        · exact (List.cons.inj hclass).2
        · exact hclass
      rw [htail]

theorem isLE_or_isLE (a b : ρ) :
    ((compare a b).isLE || (compare b a).isLE) = true := by
  have hswap : compare b a = (compare a b).swap := OrientedCmp.eq_swap
  rw [hswap]
  cases compare a b <;> rfl

theorem pairwise_isLE_mergeSort (rows : List ρ) :
    (rows.mergeSort fun a b => (compare a b).isLE).Pairwise
      fun a b => (compare a b).isLE :=
  List.pairwise_mergeSort (fun _ _ _ => TransCmp.isLE_trans) isLE_or_isLE rows

/-- Sorting keeps equal elements in their order. -/
theorem filter_mergeSort (rows : List ρ) (a : ρ) :
    ((rows.mergeSort fun a b => (compare a b).isLE).filter
        fun b => compare a b = .eq) =
      rows.filter fun b => compare a b = .eq := by
  have hperm := (List.mergeSort_perm rows fun a b => (compare a b).isLE).filter
    fun b => compare a b = .eq
  have hordered : (rows.filter fun b => compare a b = .eq).Pairwise
      fun b c => (compare b c).isLE := by
    apply List.pairwise_of_forall_mem_list
    intro b hb c hc
    have hab : compare a b = .eq := by simpa using (List.mem_filter.mp hb).2
    have hac : compare a c = .eq := by simpa using (List.mem_filter.mp hc).2
    rw [TransCmp.eq_trans (OrientedCmp.eq_symm hab) hac]
    rfl
  have hsublist := List.sublist_mergeSort
    (fun _ _ _ => TransCmp.isLE_trans) isLE_or_isLE hordered
    List.filter_sublist
  have hfilter := hsublist.filter fun b => compare a b = .eq
  rw [List.filter_filter] at hfilter
  simp only [Bool.and_self] at hfilter
  exact (hfilter.eq_of_length hperm.length_eq.symm).symm

end

namespace SortCriterion

variable {ρ : Type} {criteria : List (SortCriterion ρ)} {rows arranged : List ρ}

theorem arranges_mergeSort
    (total : ∀ c ∈ criteria, TransCmp c.comparison) (rows : List ρ) :
    Arranges criteria rows
      (rows.mergeSort fun a b => (compareAll criteria a b).isLE) := by
  have := transCmp_compareAll total
  constructor
  · exact List.mergeSort_perm rows _
  · exact (pairwise_isLE_mergeSort rows).imp
      fun h => (isLE_compareAll_iff total).mp h
  · intro a
    simp only [← compareAll_eq_eq_iff]
    exact filter_mergeSort rows a

/-- There is one way to arrange rows. -/
theorem Arranges.unique (total : ∀ c ∈ criteria, TransCmp c.comparison)
    {other : List ρ} (h : Arranges criteria rows arranged)
    (h' : Arranges criteria rows other) : other = arranged := by
  have := transCmp_compareAll total
  refine @eq_of_ordered_of_filter_eq ρ (compareAll criteria) _ _ _ ?_ ?_ ?_
  · exact h'.ordered.imp fun h => (isLE_compareAll_iff total).mpr h
  · exact h.ordered.imp fun h => (isLE_compareAll_iff total).mpr h
  · intro a
    simp only [compareAll_eq_eq_iff]
    exact (h'.stable a).trans (h.stable a).symm

end SortCriterion

/-! ## Sorts by the fields of rows -/

namespace RowKey

/-- The number that counts within a group of keys. -/
def number : RowKey → ℤ
  | .bool b => b.toNat
  | .int n => n
  | _ => 0

/-- The text that counts within a group of keys. -/
def content : RowKey → String
  | .text s => s
  | _ => ""

/-- Keys are compared by group, by number and by text. -/
theorem compare_eq_compareLex : RowKey.compare =
    compareLex (compareOn rank)
      (compareLex (compareOn number) (compareOn content)) := by
  funext a b
  cases a with
  | bool a =>
    cases b with
    | bool b => cases a <;> cases b <;> decide
    | _ => rfl
  | int a =>
    cases b with
    | int b =>
      simp [RowKey.compare, compareLex, compareOn, rank, number, content]
    | _ => rfl
  | text a => cases b <;> rfl
  | none => cases b <;> rfl

instance : TransCmp RowKey.compare := by
  rw [compare_eq_compareLex]
  infer_instance

end RowKey

/-- Rows compared by a key are in a total preorder if keys are. -/
theorem transCmp_by {ρ κ : Type} (compare : κ → κ → Ordering)
    [TransCmp compare] (key : ρ → κ) :
    TransCmp fun a b => compare (key a) (key b) where
  eq_swap := OrientedCmp.eq_swap
  isLE_trans := TransCmp.isLE_trans

theorem transCmp_sortByKey (field : String) (order : SortOrder) :
    TransCmp (sortByKey field order).comparison :=
  transCmp_by RowKey.compare fun row => RowKey.ofField row field

theorem transCmp_sortByLength (field : String) (order : SortOrder) :
    TransCmp (sortByLength field order).comparison :=
  transCmp_by (compare : ℕ → ℕ → Ordering) fun row => fieldLength row field

/-! ## Pages -/

/-- Pages of one size that follow one another are a front of the list. -/
theorem flatMap_pages {α : Type} (xs : List α) (size count : ℕ) :
    ((List.range count).flatMap fun k => (xs.drop (k * size)).take size) =
      xs.take (count * size) := by
  induction count with
  | zero => simp
  | succ count ih =>
    rw [List.range_succ, List.flatMap_append, ih, Nat.succ_mul, List.take_add]
    simp

namespace FetchDescriptor

variable {ρ : Type}

/-- The same query for another page. -/
def withPage (d : FetchDescriptor ρ) (offset : ℕ) (limit : Option ℕ) :
    FetchDescriptor ρ :=
  { d with offset, limit }

theorem getElem?_page (d : FetchDescriptor ρ) (rows : List ρ) (i : ℕ) :
    (d.page rows)[i]? =
      if ∀ n ∈ d.limit, i < n then rows[d.offset + i]? else none := by
  unfold page
  cases d.limit with
  | none => simp
  | some n => simp [List.getElem?_take]

/-- What a descriptor makes of rows, which pass its filter and are arranged
in one way. -/
structure Selects (d : FetchDescriptor ρ) (rows arranged : List ρ) :
    Prop where
  /-- The rows are arranged, and there is no other way to arrange them. -/
  arranges (other : List ρ) :
    SortCriterion.Arranges d.sort (rows.filter d.admits) other ↔ other = arranged
  /-- What is selected begins at the offset and ends before the limit. -/
  page (i : ℕ) : (d.apply rows)[i]? =
    if ∀ n ∈ d.limit, i < n then arranged[d.offset + i]? else none
  /-- All rows are selected without an offset and a limit. -/
  whole : (d.withPage 0 none).apply rows = arranged
  /-- Enough pages of one size that follow one another are all rows. -/
  pages (size count : ℕ) (enough : arranged.length ≤ count * size) :
    ((List.range count).flatMap fun k =>
      (d.withPage (k * size) (some size)).apply rows) = arranged

/-- Whatever the criteria are, rows are arranged in one way, and every page
is taken from there. -/
theorem exists_selects (d : FetchDescriptor ρ) (rows : List ρ)
    (total : ∀ c ∈ d.sort, TransCmp c.comparison) :
    ∃ arranged, d.Selects rows arranged := by
  have harranges := SortCriterion.arranges_mergeSort total
    (rows.filter d.admits)
  refine ⟨(rows.filter d.admits).mergeSort d.before, ?_, ?_, ?_, ?_⟩
  · intro other
    constructor
    · exact fun h => harranges.unique total h
    · rintro rfl
      exact harranges
  · exact fun i => d.getElem?_page _ i
  · exact List.drop_zero
  · intro size count enough
    have hpages := flatMap_pages ((rows.filter d.admits).mergeSort d.before)
      size count
    rw [List.take_of_length_le enough] at hpages
    exact hpages

/-- A query for later rows first, shorter titles first among rows of one
year. -/
theorem exists_selects_years :
    (∀ c ∈ [sortByKey "year" .reverse, sortByLength "title" .forward],
      TransCmp c.comparison) ∧
    ∃ arranged, Selects
      { sort := [sortByKey "year" .reverse, sortByLength "title" .forward],
        limit := some 2, offset := 1 }
      [.object [("title", .text "Emma"), ("year", .whole 1815)],
        .object [("title", .text "Ada"), ("year", .whole 1969)]] arranged := by
  have total : ∀ c ∈ [sortByKey "year" .reverse, sortByLength "title" .forward],
      TransCmp c.comparison := by
    intro c hc
    rcases List.mem_cons.mp hc with rfl | hc
    · exact transCmp_sortByKey "year" .reverse
    · rw [List.mem_singleton.mp hc]
      exact transCmp_sortByLength "title" .forward
  exact ⟨total, exists_selects _ _ total⟩

end FetchDescriptor

end LiveProperty
