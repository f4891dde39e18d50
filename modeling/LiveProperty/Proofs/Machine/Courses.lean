import LiveProperty.Proofs.Machine.Shelters

/-!
# The course of an invalidation

Each part of an invalidation of a bridge leaves one next part, which waits for
its turn behind what an envelope or an owner does first.  When a part of any
invalidation of the bridge has its turn before that, it is a part of another
one, which began within the first one.
-/

namespace LiveProperty

/-- A part of an invalidation does not lead to another one of its kind. -/
theorem Task.Relays.not_follows_self {b : Bridge} {t : Task} (h : t.Relays b)
    (m : Machine) : ¬ Follows m t t := by
  intro hself
  cases t with
  | relay => cases hself
  | enclose => cases hself
  | run => cases hself
  | mutate owner => cases owner <;> cases hself
  | invalidate => cases hself
  | _ => exact h.elim

namespace Machine

variable {m : Machine} {b : Bridge}

/-! ## Waiting -/

/-- What stands in front has its turn before what stands behind. -/
theorem exists_waits_lt {before after below : List Task} {t : Task} {i e : ℕ}
    (put : (run (i + 1) m).todo = before ++ t :: (after ++ below))
    (lt : i < e) (ended : (run e m).todo = below) :
    ∃ k, m.Waits t (after ++ below) i k ∧ k < e := by
  obtain ⟨k, hk⟩ := exists_waits put
  refine ⟨k, hk, hk.lt_of_length_le lt ?_⟩
  rw [ended, List.length_append]
  exact Nat.le_add_left below.length after.length

theorem waits_succ {t : Task} {rest : List Task} {i : ℕ}
    (put : (run (i + 1) m).todo = t :: rest) : m.Waits t rest i (i + 1) :=
  waits_of_ahead (Nat.lt_succ_self i) put fun k hik hki => by omega

/-- What has its turn while another task waits is over when that one has its
turn. -/
theorem Waits.ends_le {t x : Task} {below rest : List Task} {i j k n : ℕ}
    (h : m.Waits t below i j) (lt : i < k) (lt' : k < j)
    (turn : (run k m).todo = x :: rest) (other : x ≠ t)
    (ends : (run (k + 1) m).Ends rest n) : k + 1 + n ≤ j := by
  have hsuffix : t :: below <:+ rest := by
    have hwait := h.waits k lt (Nat.le_of_lt lt')
    rw [turn] at hwait
    rcases List.suffix_cons_iff.mp hwait with heq | hsuffix
    · cases heq
      exact absurd rfl other
    · exact hsuffix
  by_contra hlt
  obtain ⟨front, hfront, htodo⟩ := ends.ahead (j - (k + 1)) (by omega)
  rw [← run_add, Nat.sub_add_cancel lt', h.turn] at htodo
  have hlength := congrArg List.length htodo
  have hpos := List.length_pos_iff.mpr hfront
  have hle := hsuffix.length_le
  simp only [List.length_append, List.length_cons] at hlength hle
  omega

/-- When the last task that waited is done, so is all that stood in front. -/
theorem Waits.ends {t : Task} {below : List Task} {i j : ℕ}
    (h : m.Waits t below i j) (last : (run (j + 1) m).todo = below) :
    ∃ n, j + 1 = i + 1 + n ∧ (run (i + 1) m).Ends below n := by
  have hlt := h.lt
  refine ⟨j - i, by omega, ?_, fun k hk => ?_⟩
  · rwa [← run_add, show j - i + (i + 1) = j + 1 by omega]
  · obtain ⟨front, hfront⟩ := h.waits (k + (i + 1)) (by omega) (by omega)
    rw [← run_add, ← hfront]
    exact ⟨front ++ [t], by simp, by simp⟩

/-! ## The next part -/

/-- The step `i` leaves one part of an invalidation of a bridge, which has its
turn at step `j`. -/
inductive Leads (m : Machine) (b : Bridge) (i j : ℕ) : Prop
  | intro {t parent : Task} {before after behind : List Task}
      (turn : (run i m).todo = parent :: behind)
      (put : (run (i + 1) m).todo = before ++ t :: (after ++ behind))
      (waits : m.Waits t (after ++ behind) i j)
      (relays : t.Relays b)
      (part : t ≠ .relay b)
      (others : ∀ x ∈ before ++ after, ¬ x.Relays b)

/-- The step `i` leaves no part of an invalidation of a bridge. -/
def LeadsNowhere (m : Machine) (b : Bridge) (i : ℕ) : Prop :=
  ∀ x before after parent behind, (run i m).todo = parent :: behind →
    (run (i + 1) m).todo = before ++ x :: (after ++ behind) → ¬ x.Relays b

theorem leads_succ {t parent : Task} {after below : List Task} {i : ℕ}
    (turn : (run i m).todo = parent :: below)
    (put : (run (i + 1) m).todo = t :: (after ++ below))
    (relays : t.Relays b) (part : t ≠ .relay b)
    (others : ∀ x ∈ after, ¬ x.Relays b) : m.Leads b i (i + 1) :=
  have hput : (run (i + 1) m).todo = [] ++ t :: (after ++ below) := put
  .intro turn hput (waits_succ put) relays part others

theorem leadsNowhere {parent : Task} {below : List Task} {i : ℕ}
    (turn : (run i m).todo = parent :: below)
    (put : (run (i + 1) m).todo = below) : m.LeadsNowhere b i := by
  intro x before after parent' behind hturn hput
  obtain ⟨rfl, rfl⟩ := List.cons.inj (hturn.symm.trans turn)
  have hlength := congrArg List.length (put.symm.trans hput)
  simp only [List.length_append, List.length_cons] at hlength
  omega

/-- What follows at step `k` from a part of an invalidation is the one part
that this leaves. -/
theorem Leads.eq_of_follows {i j k : ℕ} {x parent : Task}
    {rest behind before after : List Task} (h : m.Leads b i j) (lt : i < k)
    (turn : (run k m).todo = x :: rest) (relays : x.Relays b)
    (hparent : (run i m).todo = parent :: behind)
    (put : (run (i + 1) m).todo = before ++ x :: (after ++ behind))
    (hrest : rest = after ++ behind)
    (waits : ∀ l, i < l → l ≤ k → x :: rest <:+ (run l m).todo) : k = j := by
  cases h with
  | @intro t parent' before' after' behind' turn' put' waits' _ _ others =>
    obtain ⟨rfl, rfl⟩ := List.cons.inj (turn'.symm.trans hparent)
    have heq : before' ++ t :: after' = before ++ x :: after := by
      refine List.append_cancel_right (?_ : _ ++ behind' = _ ++ behind')
      simpa using put'.symm.trans put
    have hbefore : x ∉ before' := fun h =>
      others x (List.mem_append_left _ h) relays
    have hafter : x ∉ after' := fun h =>
      others x (List.mem_append_right _ h) relays
    obtain ⟨-, rfl, rfl⟩ :=
      (List.append_cons_inj_of_notMem hbefore hafter).mp heq
    subst hrest
    exact waits'.turn_unique ⟨lt, waits, turn⟩ relays.not_follows_self

/-- From one step on, the parts of an invalidation of a bridge follow one from
another. -/
inductive Path (m : Machine) (b : Bridge) : ℕ → List ℕ → Prop
  | last {i : ℕ} (nowhere : m.LeadsNowhere b i) : Path m b i []
  | next {i j : ℕ} {own : List ℕ} (leads : m.Leads b i j)
      (path : Path m b j own) : Path m b i (j :: own)

namespace Path

variable {i : ℕ} {own : List ℕ}

theorem lt {j : ℕ} (h : m.Path b i own) (hj : j ∈ own) : i < j := by
  induction h with
  | last => exact absurd hj List.not_mem_nil
  | next leads path ih =>
    obtain ⟨-, -, waits, -⟩ := leads
    rcases List.mem_cons.mp hj with rfl | hj
    · exact waits.lt
    · exact Nat.lt_trans waits.lt (ih hj)

theorem pairwise (h : m.Path b i own) : (i :: own).Pairwise (· < ·) := by
  induction h with
  | last => exact List.pairwise_singleton _ _
  | next leads path ih =>
    refine List.pairwise_cons.mpr ⟨fun j hj => ?_, ih⟩
    exact (Path.next leads path).lt hj

/-- All parts have their turns before what stands behind the first one. -/
theorem lt_of_ends {below : List Task} {a j n : ℕ} (h : m.Path b i own)
    (hj : j ∈ own) (ends : (run (a + 1) m).Ends below n) (le : a ≤ i)
    (lt : i < a + 1 + n)
    (ahead : ∃ front, front ≠ [] ∧ (run i m).todo = front ++ below) :
    j < a + 1 + n := by
  induction h with
  | last => exact absurd hj List.not_mem_nil
  | @next i l own leads path ih =>
    obtain ⟨turn, -, waits, -⟩ := leads
    have hover : (run (a + 1 + n) m).todo = below := by
      rw [Nat.add_comm, run_add, ends.todo]
    have hl : l < a + 1 + n := by
      obtain ⟨front, hfront, htodo⟩ := ahead
      have hlength := congrArg List.length (turn.symm.trans htodo)
      have hpos := List.length_pos_iff.mpr hfront
      simp only [List.length_cons, List.length_append] at hlength
      refine waits.lt_of_length_le lt ?_
      rw [hover, List.length_append]
      omega
    have hil := waits.lt
    rcases List.mem_cons.mp hj with rfl | hj
    · exact hl
    · refine ih hj (by omega) hl ?_
      obtain ⟨front, hfront, htodo⟩ := ends.ahead (l - (a + 1)) (by omega)
      rw [← run_add, Nat.sub_add_cancel (by omega)] at htodo
      exact ⟨front, hfront, htodo⟩

theorem next_of_mem {j : ℕ} (h : m.Path b i own) (hj : j ∈ i :: own) :
    (∃ l ∈ own, m.Leads b j l) ∨ m.LeadsNowhere b j := by
  induction h with
  | last nowhere =>
    rw [List.mem_singleton.mp hj]
    exact Or.inr nowhere
  | next leads path ih =>
    rcases List.mem_cons.mp hj with rfl | hj
    · exact Or.inl ⟨_, List.mem_cons_self, leads⟩
    · exact (ih hj).imp_left fun ⟨l, hl, hleads⟩ =>
        ⟨l, List.mem_cons_of_mem _ hl, hleads⟩

/-- Another invalidation that begins between two parts is over before the
second one. -/
theorem ends_le {d : Bridge} {rest : List Task} {j k n : ℕ}
    (h : m.Path b i own) (hj : j ∈ own) (lt : i < k) (lt' : k < j)
    (turn : (run k m).todo = .relay d :: rest)
    (ends : (run (k + 1) m).Ends rest n) : k + 1 + n ≤ j := by
  induction h with
  | last => exact absurd hj List.not_mem_nil
  | @next i l own leads path ih =>
    obtain @⟨t, _, _, _, _, -, -, hwaits, hrelays, hpart, -⟩ := leads
    have hother : .relay d ≠ t := by
      rintro rfl
      obtain rfl : d = b := hrelays
      exact hpart rfl
    rcases Nat.lt_trichotomy k l with hkl | rfl | hlk
    · have hle := hwaits.ends_le lt hkl turn hother ends
      rcases List.mem_cons.mp hj with rfl | hj
      · exact hle
      · exact Nat.le_trans hle (Nat.le_of_lt (path.lt hj))
    · exact absurd (List.cons.inj (turn.symm.trans hwaits.turn)).1 hother
    · rcases List.mem_cons.mp hj with rfl | hj
      · exact absurd lt' (Nat.not_lt_of_gt hlk)
      · exact ih hj hlk

end Path

/-- A part of an invalidation that has its turn while an invalidation is under
way follows from what has had its turn since that one began. -/
theorem exists_parent_of_relays {commands : List Command} {kept : List Object}
    {below rest : List Task} {t : Task} {a e k : ℕ}
    (begins : (run a (ofCommands commands)).todo = .relay b :: below)
    (keeps : (ofCommands commands).Waits (.keep kept) below a e)
    (lt : a < k) (lt' : k ≤ e)
    (turn : (run k (ofCommands commands)).todo = t :: rest)
    (relays : t.Relays b) (part : t ≠ .relay b) :
    ∃ i, a ≤ i ∧ i < k ∧ ∃ parent behind before after,
      (run i (ofCommands commands)).todo = parent :: behind ∧
      Follows { run i (ofCommands commands) with todo := behind } parent t ∧
      (run (i + 1) (ofCommands commands)).todo =
        before ++ t :: (after ++ behind) ∧
      rest = after ++ behind ∧
      ∀ l, i < l → l ≤ k →
        t :: rest <:+ (run l (ofCommands commands)).todo := by
  have hsuffix : t :: rest <:+ (run k (ofCommands commands)).todo :=
    turn ▸ List.suffix_rfl
  rcases exists_parent hsuffix with hstart | ⟨i, hi, parent, behind, before,
    after, hparent, hfollows, hnext, hrest, hwait⟩
  · obtain ⟨c, -, rfl⟩ := List.mem_map.mp (hstart.subset List.mem_cons_self)
    exact relays.elim
  refine ⟨i, ?_, hi, parent, behind, before, after, hparent, hfollows, hnext,
    hrest, hwait⟩
  -- Otherwise the task would have waited behind the whole invalidation.
  by_contra hia
  have hold := hwait a (by omega) (Nat.le_of_lt lt)
  rw [begins] at hold
  have hbelow : t :: rest <:+ below :=
    (List.suffix_cons_iff.mp hold).resolve_left fun heq =>
      part (List.cons.inj heq).1
  have hkept := keeps.waits k lt lt'
  rw [turn] at hkept
  have hle := hbelow.length_le
  have hle' := hkept.length_le
  simp only [List.length_cons] at hle hle'
  omega

/-- A whole invalidation of a bridge that begins at step `a` has a step under
way. -/
def Encloses (m : Machine) (b : Bridge) (a k : ℕ) : Prop :=
  a ≤ k ∧ ∃ rest n, (run a m).todo = .relay b :: rest ∧
    (run (a + 1) m).Ends rest n ∧ k < a + 1 + n

theorem encloses_of_within {a k : ℕ} (h : m.Within b a k) :
    m.Encloses b a k := by
  obtain ⟨hak, first, kept, below, hrelay, hput, habove⟩ := h
  have hput' : (run (a + 1) m).todo = [first, .keep kept] ++ below := hput
  obtain ⟨n, hends⟩ := exists_ends hput'
  refine ⟨Nat.le_of_lt hak, below, n, hrelay, hends, ?_⟩
  obtain ⟨front, -, htodo⟩ := habove k hak (Nat.le_refl k)
  by_contra hle
  obtain ⟨front', hfront', htodo'⟩ := habove (a + 1 + n) (by omega) (by omega)
  rw [Nat.add_comm (a + 1) n, run_add, hends.todo] at htodo'
  have hlength := congrArg List.length htodo'
  simp only [List.length_append, List.length_cons] at hlength
  omega

theorem encloses_self {a : ℕ} {rest : List Task}
    (turn : (run a m).todo = .relay b :: rest) : m.Encloses b a a := by
  obtain ⟨first, kept, hput⟩ := todo_relay turn
  rw [← run_succ] at hput
  have hput' : (run (a + 1) m).todo = [first, .keep kept] ++ rest := hput
  obtain ⟨n, hends⟩ := exists_ends hput'
  exact ⟨Nat.le_refl a, rest, n, turn, hends, by omega⟩

/-- While an invalidation of a bridge is under way, the parts of invalidations
of the bridge that have their turns are those that follow from its beginning
one after another, or belong to others that began after it. -/
theorem mem_or_encloses {commands : List Command} {kept : List Object}
    {below rest : List Task} {own : List ℕ} {t : Task} {a e k : ℕ}
    (begins : (run a (ofCommands commands)).todo = .relay b :: below)
    (keeps : (ofCommands commands).Waits (.keep kept) below a e)
    (path : (ofCommands commands).Path b a own)
    (lt : a < k) (lt' : k ≤ e)
    (turn : (run k (ofCommands commands)).todo = t :: rest)
    (relays : t.Relays b) :
    k ∈ own ∨ (∃ d, a < d ∧ (ofCommands commands).Encloses b d k) := by
  suffices h : t ≠ .relay b →
      k ∈ own ∨ ∃ d, a < d ∧ (ofCommands commands).Within b d k by
    by_cases hbegins : t = .relay b
    · subst hbegins
      exact Or.inr ⟨k, lt, encloses_self turn⟩
    · exact (h hbegins).imp_right fun ⟨d, had, hwithin⟩ =>
        ⟨d, had, encloses_of_within hwithin⟩
  induction k using Nat.strong_induction_on generalizing t rest with
  | _ k ih =>
    intro part
    obtain ⟨i, hai, hik, parent, behind, before, after, hparent, hfollows,
      hput, hrest, hwait⟩ :=
      exists_parent_of_relays begins keeps lt lt' turn relays part
    have hown (hi : i ∈ a :: own) : k ∈ own := by
      rcases path.next_of_mem hi with ⟨j, hj, hleads⟩ | hnowhere
      · rwa [hleads.eq_of_follows hik turn relays hparent hput hrest hwait]
      · exact absurd relays (hnowhere t before after parent behind hparent hput)
    rcases Nat.lt_or_eq_of_le hai with hai | rfl
    · have hrelays := relays_of_follows_part hfollows relays part
      have habove : (ofCommands commands).Above behind i k :=
        above_of_suffix hrest hwait
      by_cases hbegins : parent = .relay b
      · subst hbegins
        exact Or.inr ⟨i, hai, within_of_relay hparent hik relays hput hrest
          hwait⟩
      · rcases ih i hik hai (by omega) hparent hrelays hbegins with
          hi | ⟨d, had, hwithin⟩
        · exact Or.inl (hown (List.mem_cons_of_mem _ hi))
        · exact Or.inr ⟨d, had, hwithin.trans hparent (Nat.le_of_lt hik) habove⟩
    · exact Or.inl (hown List.mem_cons_self)

end Machine
end LiveProperty
