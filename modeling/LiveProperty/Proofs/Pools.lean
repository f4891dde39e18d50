import LiveProperty.Pool
import Mathlib.Algebra.Order.Monoid.Canonical.Defs
import Mathlib.Algebra.Order.Monoid.Unbundled.Basic
import Mathlib.Algebra.BigOperators.Group.List.Basic

/-!
# What a change of a pool leaves alone

An object that is put behind a reference takes the place of the one that was
there and of no other, also in a sum over all objects.
-/

namespace LiveProperty
namespace Pool

section

variable {s : Species} {α β : Type} {p : Pool s α} {r q : Ref s}

theorem ne_fresh_of_lt (h : q.index < p.next) : q ≠ p.fresh := by
  rintro rfl
  exact Nat.lt_irrefl _ h

/-- What was made is the new object, or was there before. -/
theorem eq_fresh_or_lt {a : α} (h : q.index < (p.add a).next) :
    q = p.fresh ∨ q.index < p.next := by
  rcases Nat.lt_succ_iff_lt_or_eq.mp h with hlt | heq
  · exact Or.inr hlt
  · left
    obtain ⟨i⟩ := q
    exact congrArg Ref.mk heq

variable [Inhabited α]

/-- A part of the objects that a change leaves alone. -/
theorem apply_get_set {g : α → β} {a : α} (h : g a = g (p.get r)) :
    g ((p.set r a).get q) = g (p.get q) := by
  by_cases hq : q = r
  · rw [hq, get_set_self, h]
  · rw [get_set_of_ne p hq]

theorem apply_get_modify {g : α → β} {f : α → α} (h : ∀ a, g (f a) = g a) :
    g ((p.modify r f).get q) = g (p.get q) :=
  apply_get_set (h _)

theorem get_modify_self (f : α → α) : (p.modify r f).get r = f (p.get r) :=
  get_set_self p r _

theorem get_modify_of_ne (f : α → α) (h : q ≠ r) :
    (p.modify r f).get q = p.get q :=
  get_set_of_ne p h _

theorem get_add_of_ne (a : α) (h : q ≠ p.fresh) :
    (p.add a).get q = p.get q :=
  get_set_of_ne p h a

theorem get_add_of_lt (a : α) (h : q.index < p.next) :
    (p.add a).get q = p.get q :=
  get_add_of_ne a (ne_fresh_of_lt h)

theorem get_of_forall_ne (h : ∀ entry ∈ p.entries, entry.1 ≠ r.index) :
    p.get r = default := by
  have hlookup : p.entries.lookup r.index = none :=
    List.lookup_eq_none_iff.mpr fun entry hentry =>
      bne_iff_ne.mpr (h entry hentry).symm
  rw [get, hlookup]
  rfl

/-- A part of the objects is the same in two pools if it is behind the
references that are taken in one of them. -/
theorem apply_get_eq {p' : Pool s α} {g : α → β}
    (h : ∀ entry ∈ p.entries ++ p'.entries,
      g (p'.get ⟨entry.1⟩) = g (p.get ⟨entry.1⟩)) (r : Ref s) :
    g (p'.get r) = g (p.get r) := by
  by_cases hr : ∃ entry ∈ p.entries ++ p'.entries, entry.1 = r.index
  · obtain ⟨entry, hentry, heq⟩ := hr
    obtain ⟨i⟩ := r
    obtain rfl : entry.1 = i := heq
    exact h entry hentry
  · have hne (entry : ℕ × α) (hentry : entry ∈ p.entries ++ p'.entries) :
        entry.1 ≠ r.index := fun heq => hr ⟨entry, hentry, heq⟩
    rw [get_of_forall_ne fun entry he => hne entry (List.mem_append_left _ he),
      get_of_forall_ne fun entry he => hne entry (List.mem_append_right _ he)]

/-- What holds of all objects, and of one more. -/
theorem forall_add {P : Ref s → α → Prop} {a : α} (new : P p.fresh a)
    (old : ∀ q : Ref s, q.index < p.next → P q (p.get q)) :
    ∀ q : Ref s, q.index < (p.add a).next → P q ((p.add a).get q) := by
  intro q hq
  rcases eq_fresh_or_lt hq with rfl | hlt
  · rwa [get_add_fresh]
  · rw [get_add_of_lt a hlt]
    exact old q hlt

/-- What holds of all objects, and of the one that is put in a place. -/
theorem forall_set {P : Ref s → α → Prop} {a : α}
    (new : r.index < p.next → P r a)
    (old : ∀ q : Ref s, q.index < p.next → P q (p.get q)) :
    ∀ q : Ref s, q.index < (p.set r a).next → P q ((p.set r a).get q) := by
  intro q hq
  by_cases h : q = r
  · subst h
    rw [get_set_self]
    exact new hq
  · rw [get_set_of_ne p h]
    exact old q hq

end

variable {s : Species} {α : Type} {M : Type} [AddCommMonoid M]

/-- The sum of a quantity over all objects of a pool. -/
def total (f : α → M) (p : Pool s α) : M :=
  (p.entries.map fun entry => f entry.2).sum

section

variable [PartialOrder M] [CanonicallyOrderedAdd M] [IsOrderedAddMonoid M]
  [Inhabited α] {f : α → M}

theorem sum_filter_add_le (zero : f default = 0) (l : List (ℕ × α)) (i : ℕ) :
    ((l.filter fun entry => entry.1 ≠ i).map fun entry => f entry.2).sum +
        f ((l.lookup i).getD default) ≤
      (l.map fun entry => f entry.2).sum := by
  induction l with
  | nil => simp [zero]
  | cons entry rest ih =>
    obtain ⟨k, a⟩ := entry
    by_cases hk : k = i
    · subst hk
      have hrest := le_of_add_le_left ih
      simpa [List.lookup_cons, add_comm] using
        add_le_add (le_refl (f a)) hrest
    · have hik : (i == k) = false := by simpa using Ne.symm hk
      simpa [hk, List.lookup_cons, hik, add_assoc] using
        add_le_add (le_refl (f a)) ih

/-- What is put behind a reference counts in place of what was there. -/
theorem total_set_add_le (zero : f default = 0) (p : Pool s α) (r : Ref s)
    (a : α) : (p.set r a).total f + f (p.get r) ≤ p.total f + f a := by
  have h := sum_filter_add_le zero p.entries r.index
  calc (p.set r a).total f + f (p.get r)
      = ((p.entries.filter fun entry => entry.1 ≠ r.index).map
          fun entry => f entry.2).sum + f (p.get r) + f a := by
        simp only [total, set, List.map_cons, List.sum_cons]
        rw [add_comm (f a), add_right_comm]
    _ ≤ p.total f + f a := add_le_add h (le_refl (f a))

theorem get_le_total (zero : f default = 0) (p : Pool s α) (r : Ref s) :
    f (p.get r) ≤ p.total f :=
  le_of_add_le_right (sum_filter_add_le zero p.entries r.index)

theorem total_add_le (zero : f default = 0) (p : Pool s α) (a : α) :
    (p.add a).total f ≤ p.total f + f a :=
  le_of_add_le_left (total_set_add_le zero p p.fresh a)

end

end Pool
end LiveProperty
