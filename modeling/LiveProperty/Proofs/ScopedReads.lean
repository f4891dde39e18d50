import LiveProperty.Proofs.Observations

/-!
# Reads inside scopes

A call of an observer opens a scope, does what it is to watch, and closes the
scope again.  `tracks` says what the call leaves behind: an observer of the
properties that its registrar was told of in between, if there were any, and
the scopes that were open around the call, with the reads added that were made
of their own registrars.
-/

namespace LiveProperty
namespace Machine

variable {m : Machine} {r : Ref .registrar}

/-- A scope of a registrar was opened at one step of a run and is closed at
another.  The properties that its observer is to wait for are those that the
registrar was told of in between. -/
structure Tracks (m : Machine) (r : Ref .registrar) (reaction : Reaction)
    (s i : ℕ) (properties : PropertySet) : Prop where
  opens : (run (s + 1) m).world.scopes = ⟨r, []⟩ :: (run s m).world.scopes
  reads : ∀ p, p ∈ properties ↔
    ∃ k, s < k ∧ k < i ∧ (run k m).Accesses r p
  registers : properties ≠ [] →
    ((run (i + 1) m).world.registrars.get r).waiting =
      ((run i m).world.registrars.get r).waiting ++ [⟨properties, reaction⟩]
  silent : properties = [] →
    (run (i + 1) m).world.registrars.get r = (run i m).world.registrars.get r
  others : ∀ d, d ≠ r →
    (run (i + 1) m).world.registrars.get d = (run i m).world.registrars.get d
  scopes : List.Forall₂ (m.TakesIn s (i + 1)) (run s m).world.scopes
    (run (i + 1) m).world.scopes

/-- The end of a scope changes its registrar alone, which gets an observer of
what was read. -/
theorem get_registrar_leaveScope {reaction : Reaction} {rest : List Task}
    (h : m.todo = .leaveScope r reaction :: rest) (d : Ref .registrar) :
    m.step.world.registrars.get d =
      if r = d then
        (m.world.registrars.get d).await ⟨m.world.scopes.collected, reaction⟩
      else m.world.registrars.get d := by
  apply get_registrar_modify
    (f := fun x => x.await ⟨m.world.scopes.collected, reaction⟩)
  rw [step_of_todo_cons h]
  exact World.registrars_leaveScope _ _ _

variable {label : Json} {name tag : String} {apply onChange : List Command}
  {nested : Bool} {rest : List Task} {s : ℕ}

/-- Around the scope that a call opens and closes, the open scopes are the
same, but for what was read of their registrars. -/
theorem takesIn_of_observe {i : ℕ}
    (call : (run s m).todo = .perform (.mk label (.observation
      (.observe name tag apply onChange))) nested :: rest)
    (found : (run s m).world.registrar? name = some r)
    (waits : m.Waits (.leaveScope r ⟨tag, onChange⟩)
      (.answer .nothing :: .finish label [.registrar r] nested :: rest) s i) :
    List.Forall₂ (m.TakesIn s (i + 1)) (run s m).world.scopes
      (run (i + 1) m).world.scopes := by
  have hstep := step_observe call found
  rw [← run_succ] at hstep
  have htodo : (run (s + 1) m).todo =
      (Task.nested apply ++ [.leaveScope r ⟨tag, onChange⟩]) ++
        .answer .nothing :: .finish label [.registrar r] nested :: rest := by
    rw [hstep]
    simp
  have hscopes : (run (s + 1) m).world.scopes =
      [⟨r, []⟩] ++ (run s m).world.scopes := by
    rw [hstep]
    rfl
  have hcount : (Task.nested apply ++
      [Task.leaveScope r ⟨tag, onChange⟩]).countP Task.closesScope = 1 := by
    rw [List.countP_append, countP_closesScope_nested]
    rfl
  have hdone : (run (i + 1) m).todo =
      .answer .nothing :: .finish label [.registrar r] nested :: rest := by
    rw [run_succ, step_of_todo_cons waits.turn]
    rfl
  refine takesIn_of_returns (Nat.lt_succ_of_lt waits.lt) htodo hscopes
    hcount.symm (fun k hsk hki => ?_) hdone
  exact waits.above k hsk (Nat.le_of_lt_succ hki)

/-- Along every run, the observer that a call registers waits for exactly the
properties that its registrar was told of while the call was open, and none is
registered if there were none.  The scopes around the call are left as they
were, apart from what was read of their registrars. -/
theorem tracks
    (call : (run s m).todo = .perform (.mk label (.observation
      (.observe name tag apply onChange))) nested :: rest)
    (found : (run s m).world.registrar? name = some r) :
    ∃ i properties,
      m.Waits (.leaveScope r ⟨tag, onChange⟩)
        (.answer .nothing :: .finish label [.registrar r] nested :: rest) s i ∧
      m.Tracks r ⟨tag, onChange⟩ s i properties := by
  obtain ⟨i, hwaits, hcollected, -⟩ := exists_scope call found
  have hregistrar := get_registrar_leaveScope hwaits.turn
  rw [← run_succ] at hregistrar
  refine ⟨i, (run i m).world.scopes.collected, hwaits, ?_⟩
  refine
    { opens := ?_
      reads := hcollected
      registers := fun hne => ?_
      silent := fun hempty => ?_
      others := fun d hne => ?_
      scopes := takesIn_of_observe call found hwaits }
  · rw [run_succ, step_observe call found]
    rfl
  · rw [hregistrar, if_pos rfl, Registrar.await, if_neg (by simpa using hne)]
  · rw [hregistrar, if_pos rfl, Registrar.await, if_pos (by simpa using hempty)]
  · rw [hregistrar, if_neg (Ne.symm hne)]

/-- A client that observes one registrar while a callback of another one
reads it.  The inner scope is that of the other registrar. -/
def nestedReads : List Command :=
  [.mk .null (.observation (.newRegistrar "r")),
    .mk .null (.observation (.newRegistrar "d")),
    .mk .null (.observation (.observe "d" "told"
      [.mk .null (.observation (.access "d" "x"))]
      [.mk .null (.observation (.access "r" "p"))])),
    .mk .null (.observation (.observe "r" "outer"
      [.mk .null (.observation (.observe "d" "inner"
          [.mk .null (.observation (.access "r" "q"))] [])),
        .mk .null (.observation (.mutate "d" "x" []))]
      []))]

theorem tracks_nestedReads :
    ∃ i properties,
      (ofCommands nestedReads).Waits (.leaveScope ⟨0⟩ ⟨"outer", []⟩)
        [.answer .nothing, .finish .null [.registrar ⟨0⟩] false] 14 i ∧
      (ofCommands nestedReads).Tracks ⟨0⟩ ⟨"outer", []⟩ 14 i properties :=
  tracks rfl (by decide +kernel)

end Machine
end LiveProperty
