import LiveProperty.Proofs.Machine.Announcements
import LiveProperty.Proofs.Machine.Shelters
import LiveProperty.Proofs.Observations

/-!
# Dropped bridges

An announcement may still have the listener of a bridge before it that nobody
keeps alive any more.  To call it does nothing then: the calls that read the
bridge and its invalidations are over, and none begins again.
-/

namespace LiveProperty
namespace Machine

variable {commands : List Command} {b : Bridge}

/-- From a step of a run on, nothing is done on behalf of a bridge. -/
structure Silent (m : Machine) (b : Bridge) (n : ℕ) : Prop where
  /-- Nobody keeps the bridge alive again. -/
  dropped : ∀ k, n ≤ k → ¬ (run k m).isRooted b.object
  /-- No read of it begins, so nobody is told of one. -/
  unread : ∀ k, n ≤ k → ¬ (run k m).ReadsBridge b
  /-- No fetch for it is left to be done, and no part of an invalidation: no
  presenter shows one, and no owner is told of a change. -/
  rests : ∀ k, n ≤ k → ∀ t ∈ (run k m).todo, ¬ t.ActsFor b
  /-- When its listener is called, that changes nothing. -/
  ignores : ∀ k, n ≤ k → ∀ audience event rest,
    (run k m).todo = .deliver (b.listener :: audience) event :: rest →
    run (k + 1) m =
      { run k m with todo := .deliver audience event :: rest }
  /-- The commands that held it are over, -/
  finished : ∀ i c nested rest begun,
    (run i m).todo = .perform c nested :: rest →
    begin { run i m with todo := rest } c.action = .ok begun →
    b.object ∈ begun.held →
    ∃ e, i + 1 + e ≤ n ∧ (run (i + 1) m).Ends rest e
  /-- and so are its invalidations. -/
  invalidated : ∀ i rest, (run i m).todo = .relay b :: rest →
    ∃ e, i + 1 + e ≤ n ∧ (run (i + 1) m).Ends rest e

/-- With a step of a run, a bridge is dropped. -/
structure Drops (m : Machine) (b : Bridge) (j : ℕ) : Prop where
  /-- Its listener was attached, -/
  attached : (((run j m).world.subscription b).id, b.listener) ∈
    (run j m).world.roster ((run j m).world.subscription b).source
  /-- and goes, and no other listener does, of any notifier. -/
  leaves : ∀ n, ∀ entry ∈ (run j m).world.roster n,
    (entry ∉ (run (j + 1) m).world.roster n ↔
      n = ((run j m).world.subscription b).source ∧
        entry = (((run j m).world.subscription b).id, b.listener))
  /-- Announcements that are under way call everybody who is left. -/
  others : ∀ audience event below,
    .deliver audience event :: below <:+ (run j m).todo →
    ∃ i e, j ≤ i ∧
      (run i m).todo = .deliver audience event :: below ∧
      (run i m).Ends below e ∧
      (run i m).calls below.length e = audience.map fun l => (l, event)

theorem isRooted_of_readsBridge {m : Machine} (h : m.ReadsBridge b) :
    m.isRooted b.object := by
  obtain ⟨c, nested, rest, htodo, hbegin⟩ := h
  have hheld := (begins_of_begin hbegin).isNamed_held (o := b.object)
    (List.mem_singleton.mpr rfl)
  rcases hheld with ⟨n, hbus⟩ | named
  · cases b <;> cases hbus
  · exact isRooted_iff.mpr (Or.inl named)

/-- A call of the listener of a bridge that nobody keeps alive does
nothing. -/
theorem step_of_ignored {m : Machine} {audience : List Listener}
    {event : Event} {rest : List Task}
    (h : m.todo = .deliver (b.listener :: audience) event :: rest)
    (dropped : ¬ m.isRooted b.object) :
    m.step = { m with todo := .deliver audience event :: rest } := by
  have hdead : ¬ (({ m with todo := rest } : Machine).push
      [.deliver audience event]).isRooted b.object := by
    rwa [isRooted_delivering h]
  have hstep : m.step = (({ m with todo := rest } : Machine).push
      [.deliver audience event]).call b.listener event := step_of_todo_cons h
  rw [hstep]
  cases b with
  | key r =>
    cases event with
    | key key => exact if_neg fun h => hdead h.2
    | value | change => rfl
  | query q =>
    cases event with
    | change c => exact if_neg hdead
    | key | value => rfl

theorem not_isRooted_run {n k : ℕ}
    (made : (run n (ofCommands commands)).world.Has b.object)
    (dropped : ¬ (run n (ofCommands commands)).isRooted b.object)
    (le : n ≤ k) : ¬ (run k (ofCommands commands)).isRooted b.object := by
  induction k, le using Nat.le_induction with
  | base => exact dropped
  | succ k le ih =>
    rw [run_succ]
    intro hrooted
    refine ih (isRooted_of_step (has_run le made) (fun hmem => ?_) hrooted)
    exact (sheltered_run commands b k).not_actsFor ih hmem rfl

/-- What stands above a task that keeps a bridge alive is over, and so is that
task, when nobody keeps the bridge alive. -/
theorem ends_of_dropped {m : Machine} {front rest : List Task} {t : Task}
    {i n : ℕ} (start : (run (i + 1) m).todo = front ++ t :: rest)
    (roots : t.Roots b.object)
    (last : ∀ k, (run k m).todo = t :: rest → (run (k + 1) m).todo = rest)
    (dropped : ¬ (run n m).isRooted b.object) (le : i + 1 ≤ n) :
    ∃ e, i + 1 + e ≤ n ∧ (run (i + 1) m).Ends rest e := by
  obtain ⟨e, hends⟩ := exists_ends start
  have hlast : (run (e + (i + 1) + 1) m).todo = rest := by
    apply last
    rw [run_add]
    exact hends.todo
  have hall : (run (i + 1) m).Ends rest (e + 1) := by
    refine ⟨?_, fun k hk => ?_⟩
    · rw [← run_add, Nat.add_right_comm]
      exact hlast
    · rcases Nat.lt_succ_iff_lt_or_eq.mp hk with hlt | rfl
      · obtain ⟨ahead, hahead, htodo⟩ := hends.ahead k hlt
        exact ⟨ahead ++ [t], by simp, by simp [htodo]⟩
      · exact ⟨[t], by simp, hends.todo⟩
  refine ⟨e + 1, ?_, hall⟩
  by_contra hlt
  apply dropped
  have htodo : t ∈ (run n m).todo := by
    have hn : run n m = run (n - (i + 1)) (run (i + 1) m) := by
      rw [← run_add, Nat.sub_add_cancel le]
    rw [hn]
    rcases Nat.lt_or_eq_of_le (show n - (i + 1) ≤ e by omega) with hlt | heq
    · obtain ⟨ahead, -, htodo⟩ := hends.ahead _ hlt
      simp [htodo]
    · rw [heq, hends.todo]
      exact List.mem_cons_self
  exact isRooted_iff.mpr (Or.inr ⟨t, htodo, roots⟩)

theorem drops {j : ℕ}
    (room : ∀ k, (run k (ofCommands commands)).world.subscriptions ≤ 2 ^ 64)
    (lost : (run j (ofCommands commands)).Loses b.object) :
    (ofCommands commands).Drops b j := by
  have hlisted := listed_run commands (room j)
  have hattached : (run j (ofCommands commands)).world.Attached b :=
    hlisted.linked.attached b (hlisted.has_of_isHeld lost.1) lost.1
  refine ⟨hattached, fun n entry hentry => ?_,
    fun audience event below hsuffix => ?_⟩
  · obtain ⟨id, l⟩ := entry
    obtain ⟨i, hi, hattaches, -⟩ := (mem_roster_iff room).mp hentry
    have hnew : ¬ (ofCommands commands).AttachesAt j n id l := fun h =>
      absurd (attachesAt_unique room hattaches h).1 (Nat.ne_of_lt hi)
    have hgoes : (id, l) ∉
          (run (j + 1) (ofCommands commands)).world.roster n ↔
        (run j (ofCommands commands)).Detaches n id := by
      rw [mem_roster_succ room]
      simp [hentry, hnew]
    rw [hgoes, hlisted.detaches_iff_of_loses lost]
    constructor
    · intro heq
      unfold World.Attached at hattached
      rw [heq] at hattached ⊢
      obtain ⟨i', -, hattaches', -⟩ := (mem_roster_iff room).mp hattached
      obtain ⟨-, -, rfl⟩ := attachesAt_unique room hattaches hattaches'
      exact ⟨rfl, rfl⟩
    · rintro ⟨rfl, heq⟩
      obtain ⟨rfl, -⟩ := Prod.mk.inj heq
      rfl
  · obtain ⟨front, hfront⟩ := hsuffix
    obtain ⟨i, hends⟩ := exists_ends hfront.symm
    obtain ⟨e, hover, hcalls⟩ := exists_calls hends.todo
    rw [← run_add] at hover hcalls
    refine ⟨i + j, e, Nat.le_add_left j i, ?_, hover, hcalls⟩
    rw [run_add]
    exact hends.todo

/-- When nobody keeps a bridge alive any more, nothing is done on its behalf
from then on, whatever announcements are under way.  When the last handle on it
goes, its listener goes, and no other one.  The numbers of subscriptions are
taken to be unique then. -/
theorem falls_silent {n : ℕ}
    (made : (run n (ofCommands commands)).world.Has b.object)
    (dropped : ¬ (run n (ofCommands commands)).isRooted b.object) :
    (ofCommands commands).Silent b n ∧
      ((∀ k, (run k (ofCommands commands)).world.subscriptions ≤ 2 ^ 64) →
        ∀ j, (run j (ofCommands commands)).Loses b.object →
          (ofCommands commands).Drops b j) := by
  refine ⟨?_, fun room j => drops room⟩
  have hdropped (k : ℕ) (le : n ≤ k) := not_isRooted_run made dropped le
  have hrests (k : ℕ) (le : n ≤ k) (t : Task)
      (ht : t ∈ (run k (ofCommands commands)).todo) : ¬ t.ActsFor b :=
    (sheltered_run commands b k).not_actsFor (hdropped k le) ht
  refine
    { dropped := hdropped
      unread := fun k le h => hdropped k le (isRooted_of_readsBridge h)
      rests := hrests
      ignores := fun k le audience event rest h => ?_
      finished := fun i c nested rest begun h hbegin hheld => ?_
      invalidated := fun i rest h => ?_ }
  · rw [run_succ]
    exact step_of_ignored h (hdropped k le)
  · have hput : (run (i + 1) (ofCommands commands)).todo =
        begun.tasks ++ .finish c.label begun.held nested :: rest :=
      run_succ i _ ▸ todo_of_begin h hbegin
    have hlt : i + 1 ≤ n := by
      by_contra hle
      refine hdropped (i + 1) (by omega) (isRooted_iff.mpr (Or.inr
        ⟨.finish c.label begun.held nested, ?_, Or.inl hheld⟩))
      rw [hput]
      exact List.mem_append_right _ List.mem_cons_self
    refine ends_of_dropped hput (Or.inl hheld) (fun k hk => ?_) dropped hlt
    rw [run_succ]
    exact (step_finish hk).1
  · have hlt : i + 1 ≤ n := by
      by_contra hle
      have hacts : Task.ActsFor b (.relay b) := rfl
      exact hrests i (by omega) _ (h ▸ List.mem_cons_self) hacts
    obtain ⟨first, kept, hput, -⟩ := todo_relay_keep h
    rw [← run_succ] at hput
    have hput : (run (i + 1) (ofCommands commands)).todo =
        [first] ++ .keep (b.object :: kept) :: rest := hput
    refine ends_of_dropped hput
      (Or.inr List.mem_cons_self) (fun k hk => ?_) dropped hlt
    rw [run_succ, step_of_todo_cons hk]
    rfl

/-- A client with two listeners of a store and a bridge to a key between them.
The first listener drops the bridge when the key is written. -/
def dropsInDelivery : List Command :=
  [.mk .null (.store (.newStore "m" none [])),
    .mk .null (.notice (.subscribe "a" (.store "m")
      [(1, [.mk .null (.drop "b")])])),
    .mk .null (.store (.newKeyBridge "b" "k" .bool false (some "m")
      .direct none)),
    .mk .null (.notice (.subscribe "c" (.store "m") [])),
    .mk .null (.observation (.newHook "h" [] [] [] 1 none)),
    .mk .null (.store (.observeKey "b" "h" "p")),
    .mk .null (.store (.writeStore "m" "k" (some (.bool true))))]

/-- Here the bridge is dropped while its listener is about to be called, and
the second listener after it. -/
theorem falls_silent_in_delivery :
    (∃ audience rest, (run 25 (ofCommands dropsInDelivery)).todo =
      .deliver ((Bridge.key ⟨0⟩).listener :: audience) (.key "k") :: rest) ∧
      (ofCommands dropsInDelivery).Silent (.key ⟨0⟩) 23 ∧
      (ofCommands dropsInDelivery).Drops (.key ⟨0⟩) 22 := by
  have hmade : (run 23 (ofCommands dropsInDelivery)).world.Has
      (Bridge.key ⟨0⟩).object :=
    show 0 < (run 23 (ofCommands dropsInDelivery)).world.keyBridges.next by
      decide +kernel
  obtain ⟨hsilent, hdrops⟩ := falls_silent hmade (by decide +kernel)
  have hroom : ∀ k,
      (run k (ofCommands dropsInDelivery)).world.subscriptions ≤ 2 ^ 64 :=
    forall_run_of_halted (P := fun m => m.world.subscriptions ≤ 2 ^ 64) 31
      (by decide +kernel) (by decide +kernel)
  refine ⟨⟨_, _, rfl⟩, hsilent, hdrops hroom 22 ⟨?_, ?_⟩⟩ <;> decide +kernel

end Machine
end LiveProperty
