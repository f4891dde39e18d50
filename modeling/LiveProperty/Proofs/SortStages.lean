import LiveProperty.Proofs.Pages

/-!
# Sorting by one criterion after another

A sort keeps tied rows in their order.  So rows that are sorted by the last
criterion of a query first, then by the one before it, and so on, end up as if
they were sorted by all criteria at once, and it makes no difference at which
of these stages the rows that do not pass the filter are left out.
-/

namespace LiveProperty

open Std

section

variable {ρ : Type} {compare later : ρ → ρ → Ordering} [TransCmp compare]

/-- What is left of a sorted list is what was left, sorted. -/
theorem mergeSort_filter (test : ρ → Bool) (rows : List ρ) :
    ((rows.filter test).mergeSort fun a b => (compare a b).isLE) =
      (rows.mergeSort fun a b => (compare a b).isLE).filter test := by
  refine eq_of_ordered_of_filter_eq (pairwise_isLE_mergeSort _)
    ((pairwise_isLE_mergeSort rows).filter test) fun a => ?_
  calc ((rows.filter test).mergeSort fun a b => (compare a b).isLE).filter
        (fun b => compare a b = .eq)
      = (rows.filter test).filter fun b => compare a b = .eq :=
        filter_mergeSort _ a
    _ = (rows.filter fun b => compare a b = .eq).filter test :=
        List.filter_comm _ _ _
    _ = ((rows.mergeSort fun a b => (compare a b).isLE).filter
          fun b => compare a b = .eq).filter test := by
        rw [filter_mergeSort rows a]
    _ = ((rows.mergeSort fun a b => (compare a b).isLE).filter test).filter
          fun b => compare a b = .eq := List.filter_comm _ _ _

/-- A sorted list of which every class of equal elements is in another order
is in the order of both comparisons, one after the other. -/
theorem pairwise_compareLex {rows : List ρ}
    (ordered : rows.Pairwise fun a b => (compare a b).isLE)
    (classes : ∀ a, (rows.filter fun b => compare a b = .eq).Pairwise
      fun b c => (later b c).isLE) :
    rows.Pairwise fun a b => (compareLex compare later a b).isLE := by
  refine List.pairwise_iff_forall_sublist.mpr fun {a b} hab => ?_
  have hle : (compare a b).isLE :=
    List.pairwise_iff_forall_sublist.mp ordered hab
  rcases Ordering.isLE_iff_eq_lt_or_eq_eq.mp hle with hlt | heq
  · simp [compareLex, hlt]
  · have hself : compare a a = .eq := ReflCmp.compare_self
    have hclass := hab.filter fun c => compare a c = .eq
    simp only [List.filter_cons, hself, heq, decide_true, if_true,
      List.filter_nil] at hclass
    have hlater := List.pairwise_iff_forall_sublist.mp (classes a) hclass
    simpa [compareLex, heq] using hlater

/-- A list that is sorted by a later comparison first, and then by an earlier
one, is sorted by both. -/
theorem mergeSort_mergeSort [TransCmp later] (rows : List ρ) :
    ((rows.mergeSort fun a b => (later a b).isLE).mergeSort
        fun a b => (compare a b).isLE) =
      rows.mergeSort fun a b => (compareLex compare later a b).isLE := by
  refine eq_of_ordered_of_filter_eq ?_ (pairwise_isLE_mergeSort rows)
    fun a => ?_
  · refine pairwise_compareLex (pairwise_isLE_mergeSort _) fun a => ?_
    rw [filter_mergeSort]
    exact (pairwise_isLE_mergeSort rows).filter _
  · -- Rows that are equal in both comparisons are so in each of them.
    have hboth (rows : List ρ) :
        (rows.filter fun b => compareLex compare later a b = .eq) =
          (rows.filter fun b => compare a b = .eq).filter
            fun b => later a b = .eq := by
      rw [List.filter_filter]
      refine List.filter_congr fun b _ => ?_
      simp [compareLex, Ordering.then_eq_eq, Bool.and_comm]
    calc ((rows.mergeSort fun a b => (later a b).isLE).mergeSort
          fun a b => (compare a b).isLE).filter
            (fun b => compareLex compare later a b = .eq)
        = ((rows.mergeSort fun a b => (later a b).isLE).filter
            fun b => compare a b = .eq).filter fun b => later a b = .eq := by
          rw [hboth, filter_mergeSort]
      _ = ((rows.mergeSort fun a b => (later a b).isLE).filter
            fun b => later a b = .eq).filter fun b => compare a b = .eq :=
          List.filter_comm _ _ _
      _ = rows.filter fun b => compareLex compare later a b = .eq := by
          rw [filter_mergeSort, List.filter_comm, hboth]
      _ = (rows.mergeSort fun a b =>
            (compareLex compare later a b).isLE).filter
              fun b => compareLex compare later a b = .eq :=
          (filter_mergeSort rows a).symm

end

namespace FetchDescriptor

variable {ρ : Type} {criteria : List (SortCriterion ρ)}

/-- A query that sorts by one criterion and does not page. -/
def single (filter : Option (ρ → Bool)) (c : SortCriterion ρ) :
    FetchDescriptor ρ :=
  { filter, sort := [c] }

/-- Rows sorted by single criteria, the last of them first. -/
def applySingles (criteria : List (SortCriterion ρ)) (rows : List ρ) :
    List ρ :=
  criteria.foldr (fun c sorted => (single none c).apply sorted) rows

theorem apply_single (filter : Option (ρ → Bool)) (c : SortCriterion ρ)
    (rows : List ρ) :
    (single filter c).apply rows =
      (rows.filter (single filter c).admits).mergeSort
        fun a b => (c.compare a b).isLE := by
  have hbefore : (single filter c).before =
      fun a b => (c.compare a b).isLE := by
    funext a b
    simp only [before, single, SortCriterion.compareAll, List.foldr_cons,
      List.foldr_nil]
    cases c.compare a b <;> rfl
  rw [apply, hbefore]
  exact List.drop_zero

theorem apply_single_none (c : SortCriterion ρ) (rows : List ρ) :
    (single none c).apply rows =
      rows.mergeSort fun a b => (c.compare a b).isLE := by
  have hall : (single none c).admits = fun _ => true := rfl
  rw [apply_single, hall, List.filter_true]

/-- Single criteria sort rows as all of them do at once. -/
theorem applySingles_eq_mergeSort
    (total : ∀ c ∈ criteria, TransCmp c.comparison) (rows : List ρ) :
    applySingles criteria rows =
      rows.mergeSort fun a b => (SortCriterion.compareAll criteria a b).isLE := by
  induction criteria with
  | nil =>
    have hsorted : rows.Pairwise fun a b =>
        (SortCriterion.compareAll [] a b).isLE :=
      List.pairwise_of_forall fun _ _ => rfl
    exact (List.mergeSort_of_pairwise hsorted).symm
  | cons c criteria ih =>
    have hrest : ∀ d ∈ criteria, TransCmp d.comparison :=
      fun d hd => total d (List.mem_cons_of_mem c hd)
    have := total c List.mem_cons_self
    have := SortCriterion.transCmp_compare c
    have := SortCriterion.transCmp_compareAll hrest
    rw [applySingles, List.foldr_cons, ← applySingles, ih hrest,
      apply_single_none, mergeSort_mergeSort]
    rfl

/-- Rows may be left out after they were sorted. -/
theorem applySingles_filter
    (total : ∀ c ∈ criteria, TransCmp c.comparison) (test : ρ → Bool)
    (rows : List ρ) :
    applySingles criteria (rows.filter test) =
      (applySingles criteria rows).filter test := by
  have := SortCriterion.transCmp_compareAll total
  rw [applySingles_eq_mergeSort total, applySingles_eq_mergeSort total,
    mergeSort_filter]

/-- A query that does not page gives its rows in the order in which its
criteria sort them one after another, the last of them first, whether the rows
that do not pass the filter are left out before all sorts or by any one of
them. -/
theorem apply_eq_applySingles (d : FetchDescriptor ρ)
    (total : ∀ c ∈ d.sort, TransCmp c.comparison) (rows : List ρ) :
    (d.withPage 0 none).apply rows =
        applySingles d.sort (rows.filter d.admits) ∧
      ∀ earlier c later, d.sort = earlier ++ c :: later →
        (d.withPage 0 none).apply rows = applySingles earlier
          ((single d.filter c).apply (applySingles later rows)) := by
  have hbefore : (d.withPage 0 none).apply rows =
      applySingles d.sort (rows.filter d.admits) := by
    rw [applySingles_eq_mergeSort total]
    exact List.drop_zero
  refine ⟨hbefore, fun earlier c later hsort => ?_⟩
  have hlater : ∀ x ∈ later, TransCmp x.comparison := fun x hx =>
    total x (by simp [hsort, hx])
  calc (d.withPage 0 none).apply rows
      = applySingles earlier ((single none c).apply
          (applySingles later (rows.filter d.admits))) := by
        rw [hbefore, hsort]
        exact List.foldr_append
    _ = applySingles earlier ((single none c).apply
          ((applySingles later rows).filter d.admits)) := by
        rw [applySingles_filter hlater]
    _ = applySingles earlier
          ((single d.filter c).apply (applySingles later rows)) := by
        rw [apply_single_none, apply_single]
        rfl

/-- Films of one year or later, the latest ones first and those of one year
by the length of their titles: they are sorted by title first, and left out
when they are sorted by year. -/
theorem apply_eq_applySingles_years :
    (∀ c ∈ [sortByKey "year" .reverse, sortByLength "title" .forward],
      TransCmp c.comparison) ∧
    (withPage
        { filter := some (RowFilter.test · (.field "year" .ge (.whole 1965)))
          sort := [sortByKey "year" .reverse, sortByLength "title" .forward]
          limit := some 1 } 0 none).apply
        [.object [("title", .text "Persona"), ("year", .whole 1966)],
          .object [("title", .text "Emma"), ("year", .whole 1932)],
          .object [("title", .text "Ada"), ("year", .whole 1966)]] =
      (single (some (RowFilter.test · (.field "year" .ge (.whole 1965))))
          (sortByKey "year" .reverse)).apply
        ((single none (sortByLength "title" .forward)).apply
          [.object [("title", .text "Persona"), ("year", .whole 1966)],
            .object [("title", .text "Emma"), ("year", .whole 1932)],
            .object [("title", .text "Ada"), ("year", .whole 1966)]]) := by
  have total : ∀ c ∈ [sortByKey "year" .reverse, sortByLength "title" .forward],
      TransCmp c.comparison := by
    intro c hc
    rcases List.mem_cons.mp hc with rfl | hc
    · exact transCmp_sortByKey "year" .reverse
    · rw [List.mem_singleton.mp hc]
      exact transCmp_sortByLength "title" .forward
  exact ⟨total, (apply_eq_applySingles _ total _).2 []
    (sortByKey "year" .reverse) [sortByLength "title" .forward] rfl⟩

end FetchDescriptor

end LiveProperty
