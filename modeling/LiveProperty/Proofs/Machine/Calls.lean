import LiveProperty.Proofs.Machine.Deliveries
import LiveProperty.Proofs.Machine.Generations
import LiveProperty.Proofs.Machine.Termination

/-!
# Calls and their ends

What stands in front of other tasks is done in a number of steps.  Up to
then, whatever has its turn was in front or was put there since, and what is
on its way to a bridge has cleared its cache unless it is still on its way.
-/

namespace LiveProperty
namespace Machine

variable {m : Machine}

/-! ## Ends -/

/-- What is in front of some tasks is done in a number of steps. -/
structure Ends (m : Machine) (rest : List Task) (n : ℕ) : Prop where
  todo : (run n m).todo = rest
  ahead : ∀ k < n, ∃ front, front ≠ [] ∧ (run k m).todo = front ++ rest

theorem exists_ends {front rest : List Task} (h : m.todo = front ++ rest) :
    ∃ n, m.Ends rest n := by
  obtain ⟨n, htodo, hahead⟩ := returns front rest h
  exact ⟨n, htodo, hahead⟩

namespace Ends

variable {rest : List Task} {n : ℕ}

theorem not_lt {k : ℕ} (h : m.Ends rest n) (h' : m.Ends rest k) :
    ¬ n < k := by
  intro hlt
  obtain ⟨front, hfront, htodo⟩ := h'.ahead n hlt
  rw [h.todo] at htodo
  exact hfront (List.self_eq_append_left.mp htodo)

theorem unique {k : ℕ} (h : m.Ends rest n) (h' : m.Ends rest k) : n = k :=
  Nat.le_antisymm (Nat.le_of_not_lt (h'.not_lt h))
    (Nat.le_of_not_lt (h.not_lt h'))

theorem above (h : m.Ends rest n) : ∀ k < n, m.Above rest 0 k :=
  fun _ hk l _ hl => h.ahead l (Nat.lt_of_le_of_lt hl hk)

theorem pos (h : m.Ends rest n) {front : List Task}
    (start : m.todo = front ++ rest) (front_ne : front ≠ []) : 0 < n := by
  apply Nat.pos_of_ne_zero
  rintro rfl
  have htodo : m.todo = rest := h.todo
  rw [start] at htodo
  exact front_ne (List.append_left_eq_self.mp htodo)

theorem lt_of_above (h : m.Ends rest n) {k : ℕ} (pos : 0 < n)
    (above : m.Above rest 0 k) : k < n := by
  by_contra hnk
  obtain ⟨front, hfront, htodo⟩ := above n pos (Nat.le_of_not_lt hnk)
  rw [h.todo] at htodo
  exact hfront (List.self_eq_append_left.mp htodo)

/-- What is in front ends with a step before which something is left. -/
theorem of_above {front : List Task} {k : ℕ} (start : m.todo = front ++ rest)
    (front_ne : front ≠ []) (above : m.Above rest 0 k)
    (next : (run (k + 1) m).todo = rest) : m.Ends rest (k + 1) := by
  refine ⟨next, fun l hl => ?_⟩
  rcases Nat.eq_zero_or_pos l with rfl | hpos
  · exact ⟨front, front_ne, start⟩
  · exact above l hpos (Nat.le_of_lt_succ hl)

/-- What is done first ends before what waits behind it. -/
theorem append {x : List Task} {k : ℕ} (h : m.Ends (x ++ rest) k)
    (hx : x ≠ []) (h' : (run k m).Ends rest n) : m.Ends rest (n + k) := by
  refine ⟨by rw [run_add, h'.todo], fun l hl => ?_⟩
  rcases Nat.lt_or_ge l k with hlt | hge
  · obtain ⟨front, -, htodo⟩ := h.ahead l hlt
    refine ⟨front ++ x, by simp [hx], ?_⟩
    rw [htodo, List.append_assoc]
  · obtain ⟨front, hfront, htodo⟩ := h'.ahead (l - k) (by omega)
    rw [← run_add, Nat.sub_add_cancel hge] at htodo
    exact ⟨front, hfront, htodo⟩

end Ends

theorem step_finish {label : Json} {held : List Object} {nested : Bool}
    {rest : List Task} (h : m.todo = .finish label held nested :: rest) :
    m.step.todo = rest ∧ m.step.reply = m.reply := by
  rw [step_of_todo_cons h, doTask, finish]
  cases nested <;>
    exact ⟨by rw [(edits_foldl_release _ 0 fun o ho => ho).2]; rfl,
      by rw [(edits_foldl_release _ 0 fun o ho => ho).2]; rfl⟩

/-- What a step put in front of the rest is one of the tasks it pushed. -/
theorem mem_of_next {t : Task} {pushed below before after : List Task}
    (h : m.todo = pushed ++ below)
    (next : m.todo = before ++ t :: (after ++ below)) : t ∈ pushed := by
  rw [next, ← List.cons_append, ← List.append_assoc] at h
  rw [← List.append_cancel_right h]
  exact List.mem_append_right _ List.mem_cons_self

/-- What a command puts in front is one of the tasks it leaves, unless it
answers or finishes the command. -/
theorem mem_tasks_of_perform {c : Command} {nested : Bool} {t : Task}
    {below before after : List Task} (h : m.todo = .perform c nested :: below)
    (next : m.step.todo = before ++ t :: (after ++ below))
    (answer : ∀ r, t ≠ .answer r)
    (finish : ∀ label held nested, t ≠ .finish label held nested) :
    ∃ b, begin { m with todo := below } c.action = .ok b ∧ t ∈ b.tasks := by
  cases hbegin : begin { m with todo := below } c.action with
  | error r =>
    rw [step_of_refused h hbegin] at next
    have hmem := mem_of_next (todo_push _) next
    simp [answer, finish] at hmem
  | ok b =>
    rw [step_of_begin h hbegin] at next
    have hmem := mem_of_next
      (by rw [todo_push, (begins_of_begin hbegin).todo_eq]) next
    rw [List.mem_append, List.mem_singleton] at hmem
    exact ⟨b, rfl, hmem.resolve_right (finish _ _ _)⟩

/-- What has its turn before some tasks was in front of them at one step, or
was put there since. -/
theorem exists_parent_of_above {front rest below : List Task} {t : Task}
    {a n : ℕ} (start : (run a m).todo = front ++ rest) (other : t ∉ front)
    (lt : a < n) (above : m.Above rest a n)
    (turn : (run n m).todo = t :: below) :
    ∃ i, a ≤ i ∧ i < n ∧ ∃ parent behind before after,
      (run i m).todo = parent :: behind ∧
      Follows { run i m with todo := behind } parent t ∧
      (run (i + 1) m).todo = before ++ t :: (after ++ behind) := by
  have hshift (k : ℕ) : run k (run a m) = run (k + a) m := (run_add k a m).symm
  have hturn : t :: below <:+ (run (n - a) (run a m)).todo := by
    simp [hshift, Nat.sub_add_cancel (Nat.le_of_lt lt), turn]
  rcases exists_parent hturn with hold | ⟨i, hi, parent, behind, before,
    after, hparent, hfollows, hnext, -⟩
  · obtain ⟨ahead, hahead, htodo⟩ := above n lt (Nat.le_refl n)
    obtain ⟨x, ahead, rfl⟩ := List.exists_cons_of_ne_nil hahead
    rw [turn] at htodo
    obtain ⟨rfl, hbelow⟩ := List.cons.inj htodo
    obtain ⟨passed, hpassed⟩ := hold
    have hpassed : passed ++ t :: ahead ++ rest = front ++ rest := by
      rw [← start, ← hpassed, hbelow, List.append_assoc]
      rfl
    have hfront := List.append_cancel_right hpassed
    refine absurd ?_ other
    rw [← hfront]
    exact List.mem_append_right _ List.mem_cons_self
  · rw [hshift] at hparent hfollows hnext
    rw [Nat.add_right_comm] at hnext
    exact ⟨i + a, Nat.le_add_left a i, by omega, parent, behind, before,
      after, hparent, hfollows, hnext⟩

/-! ## Caches -/

/-- What is on its way to a bridge at one moment and not at a later one has
cleared its cache in between. -/
theorem exists_cleared_of_owes {b : Bridge} {i j : ℕ} (le : i ≤ j)
    (has : (run i m).world.Has b.object) (owes : (run i m).Owes b)
    (calm : ¬ (run j m).Owes b)
    (held : ∀ k, i ≤ k → k < j → (run k m).isHeld b.object)
    (obliges : ∀ k, i ≤ k → k < j → (run k m).ObligesFor b) :
    ∃ c, i ≤ c ∧ c < j ∧
      (run (c + 1) m).world.invalidations (.bridge b) =
        (run c m).world.invalidations (.bridge b) + 1 := by
  induction j, le using Nat.le_induction with
  | base => exact absurd owes calm
  | succ j le ih =>
    by_cases hj : (run j m).Owes b
    · rw [run_succ] at calm
      have hstep := hj.step (has_run le has) (held j le (Nat.lt_succ_self j))
        (obliges j le (Nat.lt_succ_self j))
      refine ⟨j, le, Nat.lt_succ_self j, ?_⟩
      rw [run_succ]
      exact hstep.resolve_left calm
    · obtain ⟨c, hic, hcj, hcount⟩ := ih hj
        (fun k hik hkj => held k hik (Nat.lt_succ_of_lt hkj))
        fun k hik hkj => obliges k hik (Nat.lt_succ_of_lt hkj)
      exact ⟨c, hic, Nat.lt_succ_of_lt hcj, hcount⟩

variable {holder : CacheHolder}

/-- An invalidation leaves the cache empty. -/
theorem Sound.empty_of_invalidated (sound : m.Sound)
    (has : m.world.Has holder.object)
    (count : m.step.world.invalidations holder =
      m.world.invalidations holder + 1) :
    (m.step.world.cell holder).value = none := by
  rcases sound.cell_step has with hpasses | ⟨_, _, _, hsame, _⟩
  · by_contra hvalue
    obtain ⟨r, hr⟩ := Option.ne_none_iff_exists'.mp hvalue
    have hsame := (hpasses.value hr).2
    omega
  · omega

/-- A cache that was empty holds what it was settled with since. -/
theorem Sound.exists_settles (sound : m.Sound) {i j : ℕ} {r : Reply}
    (le : i ≤ j) (has : (run i m).world.Has holder.object)
    (empty : ((run i m).world.cell holder).value = none)
    (hr : ((run j m).world.cell holder).value = some r) :
    ∃ k, i ≤ k ∧ k < j ∧ ∃ began, (run k m).Settles holder began r := by
  induction j, le using Nat.le_induction with
  | base =>
    rw [empty] at hr
    cases hr
  | succ j le ih =>
    have hold (h : ((run j m).world.cell holder).value = some r) :
        ∃ k, i ≤ k ∧ k < j + 1 ∧ ∃ began, (run k m).Settles holder began r := by
      obtain ⟨k, hik, hkj, hsettles⟩ := ih h
      exact ⟨k, hik, Nat.lt_succ_of_lt hkj, hsettles⟩
    rw [run_succ] at hr
    rcases (sound.after j).cell_step (has_run le has) with
      hpasses | ⟨began, r', hsettles, -, hcell⟩
    · exact hold (hpasses.value hr).1
    · rw [hcell] at hr
      by_cases hgen : ((run j m).world.cell holder).generation = began
      · rw [Cache.settle_of_eq hgen] at hr
        obtain rfl := Option.some.inj hr
        exact ⟨j, le, Nat.lt_succ_self j, began, hsettles⟩
      · rw [Cache.settle_of_ne hgen] at hr
        exact hold hr

end Machine
end LiveProperty
