import LiveProperty.Proofs.Machine.References
import LiveProperty.Proofs.Machine.Termination

/-!
# Runs among contexts of any make

What a context answers, and when, is up to whoever made it.  In a run among
contexts of any make, the contexts behind the references may be exchanged for
others before each step, so they may answer anything, and call any of the
client's callbacks while they are asked.  References still lead to what was
made, and whatever is begun comes to its end.
-/

namespace LiveProperty
namespace Machine

variable {m m' : Machine} {commands : List Command} {f : ℕ → Machine}

/-- The same machine, but for the contexts behind the references. -/
def ExchangesContexts (m m' : Machine) : Prop :=
  ∃ contexts : Pool .context Context,
    contexts.next = m.world.contexts.next ∧
      m' = { m with world := { m.world with contexts } }

/-- A run of a client in which the contexts are exchanged for others before
each step. -/
structure RunsAmongContexts (commands : List Command) (f : ℕ → Machine) :
    Prop where
  start : (ofCommands commands).ExchangesContexts (f 0)
  step : ∀ n, (f n).step.ExchangesContexts (f (n + 1))

namespace ExchangesContexts

theorem refl (m : Machine) : m.ExchangesContexts m :=
  ⟨m.world.contexts, rfl, rfl⟩

theorem todo (h : m.ExchangesContexts m') : m'.todo = m.todo := by
  obtain ⟨contexts, -, rfl⟩ := h
  rfl

theorem reply (h : m.ExchangesContexts m') : m'.reply = m.reply := by
  obtain ⟨contexts, -, rfl⟩ := h
  rfl

theorem journal (h : m.ExchangesContexts m') :
    m'.world.journal = m.world.journal := by
  obtain ⟨contexts, -, rfl⟩ := h
  rfl

theorem queryBridges (h : m.ExchangesContexts m') :
    m'.world.queryBridges = m.world.queryBridges := by
  obtain ⟨contexts, -, rfl⟩ := h
  rfl

theorem measure (h : m.ExchangesContexts m') : m'.measure = m.measure := by
  obtain ⟨contexts, -, rfl⟩ := h
  rfl

theorem has_iff (h : m.ExchangesContexts m') (o : Object) :
    m'.world.Has o ↔ m.world.Has o := by
  obtain ⟨contexts, hnext, rfl⟩ := h
  cases o with
  | context c => simp only [World.Has, hnext]
  | _ => exact Iff.rfl

/-- Nothing that a machine refers to goes with the contexts. -/
theorem sound (h : m.ExchangesContexts m') (sound : m.Sound) : m'.Sound := by
  have hhas := h.has_iff
  obtain ⟨contexts, hnext, rfl⟩ := h
  have hworld := sound.world
  constructor
  · exact
      { hworld with
        names := fun o ho => (hhas o).mpr (hworld.names o ho)
        listeners := fun n entry hentry o ho =>
          (hhas o).mpr (hworld.listeners n entry hentry o ho)
        defaultContext := fun c hc => hnext ▸ hworld.defaultContext c hc
        contexts := fun q hq c hc => hnext ▸ hworld.contexts q hq c hc }
  · exact fun t ht => (sound.todo t ht).mono fun o => (hhas o).mpr

end ExchangesContexts

/-- A run of a client is one among the contexts that it makes. -/
theorem runsAmongContexts_run (commands : List Command) :
    RunsAmongContexts commands fun n => run n (ofCommands commands) :=
  ⟨.refl _, fun n => by
    rw [run_succ]
    exact .refl _⟩

namespace RunsAmongContexts

theorem todo_succ (h : RunsAmongContexts commands f) (n : ℕ) :
    (f (n + 1)).todo = (f n).step.todo :=
  (h.step n).todo

theorem reply_succ (h : RunsAmongContexts commands f) (n : ℕ) :
    (f (n + 1)).reply = (f n).step.reply :=
  (h.step n).reply

theorem queryBridges_succ (h : RunsAmongContexts commands f) (n : ℕ) :
    (f (n + 1)).world.queryBridges = (f n).step.world.queryBridges :=
  (h.step n).queryBridges

theorem sound (h : RunsAmongContexts commands f) (n : ℕ) : (f n).Sound := by
  induction n with
  | zero => exact h.start.sound (sound_ofCommands commands)
  | succ n ih => exact (h.step n).sound ih.step

theorem has_succ (h : RunsAmongContexts commands f) {n : ℕ} {o : Object}
    (has : (f n).world.Has o) : (f (n + 1)).world.Has o :=
  ((h.step n).has_iff o).mpr (has_step has)

/-- The tasks in front are done after finitely many steps, whatever the
contexts do. -/
theorem returns (h : RunsAmongContexts commands f) {n : ℕ}
    {front rest : List Task} (todo : (f n).todo = front ++ rest) :
    ∃ j, n ≤ j ∧ (f j).todo = rest ∧
      ∀ k, n ≤ k → k < j →
        ∃ ahead, ahead ≠ [] ∧ (f k).todo = ahead ++ rest := by
  induction hx : (f n).measure using wellFounded_falls.induction
    generalizing n front with
  | h x ih =>
    cases front with
    | nil => exact ⟨n, Nat.le_refl n, todo, fun k hnk hkn => by omega⟩
    | cons t ahead =>
      have hstep := measure_step todo
      obtain ⟨pushed, hpushed, -⟩ := todo_step todo
      have hnext : (f (n + 1)).todo = (pushed ++ ahead) ++ rest := by
        rw [h.todo_succ, hpushed, List.append_assoc]
        rfl
      rw [← (h.step n).measure, hx] at hstep
      obtain ⟨j, hnj, hdone, hwait⟩ := ih _ hstep hnext rfl
      refine ⟨j, by omega, hdone, fun k hnk hkj => ?_⟩
      rcases Nat.eq_or_lt_of_le hnk with rfl | hlt
      · exact ⟨t :: ahead, by simp, todo⟩
      · exact hwait k hlt hkj

end RunsAmongContexts

end Machine
end LiveProperty
