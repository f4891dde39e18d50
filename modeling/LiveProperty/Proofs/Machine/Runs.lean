import LiveProperty.Proofs.Machine.Follows
import Mathlib.Logic.Function.Iterate

/-!
# Runs

A run takes one step after another.  A step takes the first task away and
puts others in its place, so what lies under a task waits until all that
the task led to is done.  `exists_parent` goes back from a waiting task to
the step that put it there; `Above` says that what a step led to is not done
yet.
-/

namespace LiveProperty
namespace Machine

variable {m : Machine}

/-! ## Runs as iterated steps -/

theorem run_eq_iterate (n : ℕ) (m : Machine) : run n m = step^[n] m := by
  induction n generalizing m with
  | zero => rfl
  | succ n ih =>
    rw [run, Function.iterate_succ_apply]
    split
    · next h =>
      have hnil : m.todo = [] := List.isEmpty_iff.mp h
      have hfix : m.step = m := step_of_todo_nil hnil
      rw [hfix, Function.iterate_fixed hfix]
    · exact ih m.step

@[simp] theorem run_zero (m : Machine) : run 0 m = m := rfl

theorem run_succ (n : ℕ) (m : Machine) : run (n + 1) m = (run n m).step := by
  rw [run_eq_iterate, run_eq_iterate, Function.iterate_succ_apply']

theorem run_one (m : Machine) : run 1 m = m.step :=
  run_succ 0 m

theorem run_add (k n : ℕ) (m : Machine) : run (k + n) m = run k (run n m) := by
  rw [run_eq_iterate, run_eq_iterate, run_eq_iterate,
    Function.iterate_add_apply]

/-- A run that has come to its end stays there. -/
theorem run_of_halted {i j : ℕ} (halted : (run i m).todo.isEmpty)
    (le : i ≤ j) : run j m = run i m := by
  induction le with
  | refl => rfl
  | step _ ih => rw [run_succ, ih, step_of_todo_nil (List.isEmpty_iff.mp halted)]

/-- What holds up to the end of a run holds along the run. -/
theorem forall_run_of_halted {P : Machine → Prop} (n : ℕ)
    (halted : (run n m).todo.isEmpty) (h : ∀ k ≤ n, P (run k m)) (k : ℕ) :
    P (run k m) := by
  rcases Nat.le_total k n with hkn | hnk
  · exact h k hkn
  · rw [run_of_halted halted hnk]
    exact h n (Nat.le_refl n)

/-- What holds of a machine and is kept by every step holds along its run. -/
theorem run_induction {P : Machine → Prop} (start : P m)
    (step : ∀ n, P (run n m) → P (run n m).step) (n : ℕ) : P (run n m) := by
  induction n with
  | zero => exact start
  | succ n ih =>
    rw [run_succ]
    exact step n ih

/-- A task that waits either waited from the beginning, or was put there by
the step of another task, its parent, and has waited ever since. -/
theorem exists_parent {t : Task} {rest : List Task} {n : ℕ}
    (h : t :: rest <:+ (run n m).todo) :
    t :: rest <:+ m.todo ∨
      ∃ i < n, ∃ parent below before after,
        (run i m).todo = parent :: below ∧
        Follows { run i m with todo := below } parent t ∧
        (run (i + 1) m).todo = before ++ t :: (after ++ below) ∧
        rest = after ++ below ∧
        ∀ k, i < k → k ≤ n → t :: rest <:+ (run k m).todo := by
  induction n with
  | zero => exact Or.inl h
  | succ n ih =>
    -- A task that was there before this step has the parent it had then.
    have hold (hn : t :: rest <:+ (run n m).todo) :
        t :: rest <:+ m.todo ∨
          ∃ i < n + 1, ∃ parent below before after,
            (run i m).todo = parent :: below ∧
            Follows { run i m with todo := below } parent t ∧
            (run (i + 1) m).todo = before ++ t :: (after ++ below) ∧
            rest = after ++ below ∧
            ∀ k, i < k → k ≤ n + 1 → t :: rest <:+ (run k m).todo := by
      rcases ih hn with hstart | ⟨i, hi, parent, below, before, after, hparent,
        hchild, hput, hrest, hwait⟩
      · exact Or.inl hstart
      · refine Or.inr ⟨i, Nat.lt_succ_of_lt hi, parent, below, before, after,
          hparent, hchild, hput, hrest, ?_⟩
        intro k hik hk
        rcases Nat.le_succ_iff.mp hk with hk | rfl
        · exact hwait k hik hk
        · exact h
    cases htodo : (run n m).todo with
    | nil =>
      rw [run_succ, step_of_todo_nil htodo] at h
      exact hold h
    | cons parent below =>
      obtain ⟨pushed, hpushed, hfollows⟩ := todo_step htodo
      rw [run_succ, hpushed] at h
      rcases waits_or_put h with hwaits | ⟨before, after, hput, hrest⟩
      · exact hold (htodo ▸ hwaits.trans (List.suffix_cons parent below))
      · refine Or.inr ⟨n, Nat.lt_succ_self n, parent, below, before, after,
          htodo, hfollows t (hput ▸ by simp), ?_, hrest, ?_⟩
        · rw [run_succ, hpushed, hput, List.append_assoc, List.cons_append]
        · intro k hnk hk
          have hk : k = n + 1 := Nat.le_antisymm hk hnk
          rw [hk, run_succ, hpushed]
          exact h

/-- A client's commands have no parent, but whatever else is to be done has
one. -/
theorem exists_parent_of_commands {commands : List Command} {t : Task}
    {rest : List Task} {n : ℕ} (other : ∀ c nested, t ≠ .perform c nested)
    (h : (run n (ofCommands commands)).todo = t :: rest) :
    ∃ i < n, ∃ parent below after,
      (run i (ofCommands commands)).todo = parent :: below ∧
      Follows { run i (ofCommands commands) with todo := below } parent t ∧
      rest = after ++ below ∧
      ∀ k, i < k → k ≤ n →
        t :: rest <:+ (run k (ofCommands commands)).todo := by
  have hsuffix : t :: rest <:+ (run n (ofCommands commands)).todo :=
    h ▸ List.suffix_rfl
  rcases exists_parent hsuffix with hstart | ⟨i, hi, parent, below, -, after,
    hparent, hfollows, -, hrest, hwait⟩
  · obtain ⟨c, -, rfl⟩ := List.mem_map.mp (hstart.subset List.mem_cons_self)
    exact absurd rfl (other c false)
  · exact ⟨i, hi, parent, below, after, hparent, hfollows, hrest, hwait⟩

/-- What is put in front alone has the next turn, if it does not lead to
itself. -/
theorem eq_succ_of_alone {t : Task} {rest below after : List Task}
    {i j : ℕ} (lt : i < j) (hrest : rest = after ++ below)
    (hnext : (run (i + 1) m).todo = t :: below)
    (self : ∀ m, ¬ Follows m t t)
    (hwait : ∀ k, i < k → k ≤ j → t :: rest <:+ (run k m).todo) :
    rest = below ∧ j = i + 1 := by
  have hbelow : rest = below := by
    have hlength := (hwait (i + 1) (Nat.lt_succ_self i) lt).length_le
    rw [hnext, hrest] at hlength
    have hafter : after = [] := by
      apply List.length_eq_zero_iff.mp
      simp only [List.length_cons, List.length_append] at hlength
      omega
    rw [hrest, hafter, List.nil_append]
  refine ⟨hbelow, ?_⟩
  by_contra hne
  obtain ⟨pushed, htodo, hfollows⟩ := todo_step hnext
  obtain ⟨front, hfront⟩ := hwait (i + 2) (by omega) (by omega)
  rw [run_succ, htodo, hbelow, ← List.concat_append] at hfront
  have hpushed := List.append_cancel_right hfront
  refine self _ (hfollows t ?_)
  rw [← hpushed]
  simp

/-- After one step of a run and up to another, something is left to be done
before some tasks have their turn. -/
def Above (m : Machine) (below : List Task) (i j : ℕ) : Prop :=
  ∀ k, i < k → k ≤ j → ∃ front, front ≠ [] ∧ (run k m).todo = front ++ below

theorem above_self (m : Machine) (below : List Task) (i : ℕ) :
    m.Above below i i := fun _ hik hki => absurd hki (Nat.not_le_of_gt hik)

theorem Above.succ {t : Task} {x below : List Task} {i j : ℕ}
    (h : m.Above below i j)
    (next : (run (j + 1) m).todo = t :: (x ++ below)) :
    m.Above below i (j + 1) := by
  intro k hik hkj
  rcases Nat.lt_or_eq_of_le hkj with hlt | rfl
  · exact h k hik (Nat.le_of_lt_succ hlt)
  · exact ⟨t :: x, by simp, next⟩

theorem above_of_suffix {t : Task} {rest after below : List Task} {i j : ℕ}
    (hrest : rest = after ++ below)
    (h : ∀ k, i < k → k ≤ j → t :: rest <:+ (run k m).todo) :
    m.Above below i j := by
  intro k hik hkj
  obtain ⟨front, hfront⟩ := h k hik hkj
  refine ⟨front ++ t :: after, by simp, ?_⟩
  rw [← hfront, hrest]
  simp

theorem Above.trans {after below : List Task} {i j k : ℕ}
    (h : m.Above below i j) (h' : m.Above (after ++ below) j k) :
    m.Above below i k := by
  intro l hil hlk
  rcases Nat.lt_or_ge j l with hjl | hlj
  · obtain ⟨front, hfront, htodo⟩ := h' l hjl hlk
    exact ⟨front ++ after, by simp [hfront], by simp [htodo]⟩
  · exact h l hil hlj

/-- A task that is left by one step of a run waits until another, where it
has its turn. -/
structure Waits (m : Machine) (t : Task) (below : List Task) (i j : ℕ) :
    Prop where
  lt : i < j
  waits : ∀ k, i < k → k ≤ j → t :: below <:+ (run k m).todo
  turn : (run j m).todo = t :: below

theorem waits_of_ahead {t : Task} {below : List Task} {i j : ℕ} (lt : i < j)
    (turn : (run j m).todo = t :: below)
    (h : ∀ k, i + 1 ≤ k → k < j →
      ∃ ahead, ahead ≠ [] ∧ (run k m).todo = ahead ++ t :: below) :
    m.Waits t below i j := by
  refine ⟨lt, fun k hik hkj => ?_, turn⟩
  rcases Nat.lt_or_eq_of_le hkj with hlt | rfl
  · obtain ⟨ahead, -, htodo⟩ := h k hik hlt
    exact ⟨ahead, htodo.symm⟩
  · exact turn ▸ List.suffix_rfl

namespace Waits

variable {t : Task} {below : List Task} {i j : ℕ}

theorem above (h : m.Waits t below i j) : m.Above below i j :=
  above_of_suffix (List.nil_append below).symm h.waits

/-- A task has had its turn when no more is left than what stands behind
it. -/
theorem lt_of_length_le {k : ℕ} (h : m.Waits t below i j) (lt : i < k)
    (le : (run k m).todo.length ≤ below.length) : j < k := by
  by_contra hkj
  have hlength := (h.waits k lt (Nat.le_of_not_lt hkj)).length_le
  rw [List.length_cons] at hlength
  omega

/-- A task that does not lead to itself waits for one turn only. -/
theorem not_turn_lt {l : ℕ} (h : m.Waits t below i j)
    (h' : m.Waits t below i l) (self : ∀ m, ¬ Follows m t t) : ¬ j < l := by
  intro hjl
  obtain ⟨pushed, htodo, hfollows⟩ := todo_step h.turn
  obtain ⟨front, hfront⟩ := h'.waits (j + 1)
    (Nat.lt_succ_of_lt h.lt) hjl
  rw [run_succ, htodo, ← List.concat_append] at hfront
  have hpushed := List.append_cancel_right hfront
  refine self _ (hfollows t ?_)
  rw [← hpushed]
  simp

theorem turn_unique {l : ℕ} (h : m.Waits t below i j)
    (h' : m.Waits t below i l) (self : ∀ m, ¬ Follows m t t) : l = j := by
  have hjl := h.not_turn_lt h' self
  have hlj := h'.not_turn_lt h self
  omega

/-- While a task waits, no other one has its turn just above the same
tasks. -/
theorem not_lt_of_turn {x : Task} {k : ℕ} (h : m.Waits t below i j)
    (le : k ≤ j) (turn : (run k m).todo = x :: below) (ne : x ≠ t) :
    ¬ i < k := by
  intro hik
  obtain ⟨front, hfront⟩ := h.waits k hik le
  rw [turn, ← List.concat_append] at hfront
  have hx : front.concat t = [x] :=
    List.append_cancel_right (hfront.trans (List.singleton_append).symm)
  exact ne (by simpa using (congrArg List.getLast? hx).symm)

end Waits

/-! ## Commands that only answer -/

/-- A command that changes the world at once and then answers is done after
two steps, but for being finished. -/
theorem run_of_answering {begun : Machine} {label : Json} {action : Action}
    {nested : Bool} {rest : List Task} {r : Reply} {n : ℕ}
    (h : (run n m).todo = .perform (.mk label action) nested :: rest)
    (begins : begin { run n m with todo := rest } action =
      .ok (begun.answering r)) :
    run (n + 2) m =
      ⟨begun.world, .finish label [] nested :: begun.todo, r⟩ := by
  have hstep : run (n + 1) m = { begun with
      todo := .answer r :: .finish label [] nested :: begun.todo } := by
    rw [run_succ, step_of_todo_cons h, doTask, perform, Command.action, begins]
    rfl
  have htodo : (run (n + 1) m).todo =
      .answer r :: .finish label [] nested :: begun.todo := by rw [hstep]
  rw [run_succ, step_of_todo_cons htodo, hstep]
  rfl

end Machine
end LiveProperty
