import LiveProperty.Proofs.Machine.OwnContexts

/-!
# Warnings of a missing context

A query bridge whose fetch finds no context reads as empty, and warns of that
once until it is bound to a context.  The end of such a fetch is the only step
that warns, and binding is the only one that lets the bridge warn again.
-/

namespace LiveProperty

/-- Whether a happening is the warning of a query bridge that has no
context. -/
def Happening.warns (q : Ref .queryBridge) : Happening → Bool
  | .contextMissing d .. => d = q
  | _ => false

theorem Happening.isCounted_of_warns {q : Ref .queryBridge} (x : Happening)
    (h : x.warns q) : x.isCounted := by
  cases x <;> first | rfl | cases h

section

variable {todo : List Task} {bound : ℕ} {loose : Object → Prop}
  {w w' : World} {q : Ref .queryBridge}

/-- How often a query bridge warned of a missing context. -/
def World.warnings (w : World) (q : Ref .queryBridge) : ℕ :=
  w.journal.countP fun x => x.warns q

/-- A query bridge that is made has not warned. -/
theorem Edit.warned_of_new (h : Edit todo bound loose w w')
    (new : ¬ w.Has (.queryBridge q)) (has : w'.Has (.queryBridge q)) :
    (w'.queryBridges.get q).warned = false := by
  cases h with
  | letGo o free known =>
    rcases w.letGo_eq o with heq | ⟨s, -, heq⟩
    · rw [heq] at has
      exact absurd has new
    · rw [heq] at has
      exact absurd has new
  | newQueryBridge name k named empty unbound silent bus subscribed =>
    obtain rfl := (Pool.eq_fresh_or_lt has).resolve_right new
    exact (congrArg QueryBridge.warned (Pool.get_add_fresh _ k)).trans silent
  | _ => exact absurd has new

theorem Edits.warned_of_new (h : Edits todo bound loose w w')
    (new : ¬ w.Has (.queryBridge q)) (has : w'.Has (.queryBridge q)) :
    (w'.queryBridges.get q).warned = false := by
  induction h with
  | refl => exact absurd has new
  | @tail w₁ w₂ hedits hedit ih =>
    by_cases hold : w₁.Has (.queryBridge q)
    · exact (hedit.apply_queryBridge (g := QueryBridge.warned)
        (fun _ _ => rfl) hold).trans (ih hold)
    · exact hedit.warned_of_new hold has

variable {m : Machine} {t : Task}

/-- Only the end of a fetch of a query bridge makes the bridge warn. -/
theorem Effect.warnings (h : Effect m t w)
    (remark : ∀ x, t = .tell x → x.isRemark)
    (settle : ∀ began outcome, t ≠ .settleQuery q began outcome) :
    w.warnings q = m.world.warnings q := by
  refine h.countP_journal (fun x => x.isCounted_of_warns) (fun _ => rfl) remark
    (fun _ _ => rfl) fun d began outcome hd _ _ => ?_
  have hne : d ≠ q := fun heq => settle began outcome (heq ▸ hd)
  simp [Happening.warns, hne]

/-- A task other than a command and the end of a fetch leaves it as it is
whether a query bridge has warned. -/
theorem Effect.warned (h : Effect m t w) (has : m.world.Has (.queryBridge q))
    (perform : ∀ command nested, t ≠ .perform command nested)
    (settle : ∀ began outcome, t ≠ .settleQuery q began outcome) :
    (w.queryBridges.get q).warned = (m.world.queryBridges.get q).warned := by
  refine h.apply_queryBridge (g := QueryBridge.warned) (fun _ _ => rfl)
    (fun _ => rfl) (fun _ _ _ => rfl) has (fun command nested ht => ?_)
    (fun _ _ _ _ _ _ => rfl) fun began outcome ht => ?_
  · exact absurd ht (perform command nested)
  · exact absurd ht (settle began outcome)

theorem Effect.warned_of_new (h : Effect m t w)
    (new : ¬ m.world.Has (.queryBridge q)) (has : w.Has (.queryBridge q)) :
    (w.queryBridges.get q).warned = false := by
  cases h with
  | edits t loose known edits => exact edits.warned_of_new new has
  | adopt d audience change origin alive affects =>
    unfold World.adopt at has
    split at has <;> exact absurd has new
  | leaveScope r reaction =>
    simp only [World.leaveScope] at has
    split at has <;> exact absurd has new
  | invalidate d => cases d <;> exact absurd has new
  | _ => exact absurd has new

end

namespace Machine

variable {m : Machine} {q : Ref .queryBridge} {c : Ref .context}

/-- A fetch of a query bridge ends next.  The outcome is what the query makes
of what was got. -/
def SettlesQuery (m : Machine) (q : Ref .queryBridge)
    (outcome : Except BridgeError (List Json)) : Prop :=
  ∃ began got rest, m.todo = .settleQuery q began got :: rest ∧
    (m.world.queryBridges.get q).rowsOf got = outcome

/-- A fetch of a query bridge ends next, and there was no context, or the one
that was asked says so of itself. -/
def Misses (m : Machine) (q : Ref .queryBridge) : Prop :=
  ∃ entity, m.SettlesQuery q (.error (.missingContext entity))

/-- The next step reports that a query bridge has no context. -/
def Warns (m : Machine) (q : Ref .queryBridge) : Prop :=
  m.world.warnings q < m.step.world.warnings q

theorem SettlesQuery.has {outcome : Except BridgeError (List Json)}
    (sound : m.Sound) (h : m.SettlesQuery q outcome) :
    m.world.Has (.queryBridge q) := by
  obtain ⟨began, got, rest, htodo, -⟩ := h
  exact sound.has_of_head htodo List.mem_cons_self

/-- A bridge that misses its context warns if it has not warned, and has warned
then. -/
theorem Misses.step (h : m.Misses q) :
    (m.step.world.queryBridges.get q).warned = true ∧
      m.step.world.warnings q = m.world.warnings q +
        if (m.world.queryBridges.get q).warned then 0 else 1 := by
  obtain ⟨entity, began, got, rest, htodo, hgot⟩ := h
  rw [step_of_todo_cons htodo]
  simp only [doTask, settleQuery, hgot, missContext]
  split
  · next hwarned => exact ⟨hwarned, rfl⟩
  · constructor
    · exact congrArg QueryBridge.warned (Pool.get_set_self _ _ _)
    · simp [World.warnings, answer, modifyWorld, World.tell, Happening.warns]

/-- The end of a fetch that found a context changes nothing about warnings. -/
theorem warned_of_settles {began : UInt64}
    {got : Except BridgeError (List Record)} {rest : List Task}
    (h : m.todo = .settleQuery q began got :: rest) (misses : ¬ m.Misses q) :
    (m.step.world.queryBridges.get q).warned =
        (m.world.queryBridges.get q).warned ∧
      m.step.world.warnings q = m.world.warnings q := by
  rw [step_of_todo_cons h]
  simp only [doTask, settleQuery]
  cases hgot : (m.world.queryBridges.get q).rowsOf got with
  | ok rows =>
    constructor
    · exact Pool.apply_get_set (g := QueryBridge.warned) rfl
    · apply World.countP_journal_of_quiet [_] rfl
      intro x hx
      rw [List.mem_singleton.mp hx]
      split <;> rfl
  | error e =>
    cases e with
    | missingContext entity =>
      exact absurd ⟨entity, began, got, rest, h, hgot⟩ misses
    | _ => exact ⟨rfl, World.countP_journal_of_quiet [_] rfl (by simp
        [Happening.warns])⟩

/-- A bridge that is bound may warn again. -/
theorem warned_of_rebinds (h : m.Rebinds q c) :
    (m.step.world.queryBridges.get q).warned = false := by
  rw [world_of_rebinds h]
  exact congrArg QueryBridge.warned (Pool.get_modify_self _)

/-- Whatever else a step does, a bridge that is there has warned after it if
it had warned before. -/
theorem warned_of_other (has : m.world.Has (.queryBridge q))
    (rebinds : ∀ c, ¬ m.Rebinds q c) (misses : ¬ m.Misses q) :
    (m.step.world.queryBridges.get q).warned =
      (m.world.queryBridges.get q).warned := by
  cases htodo : m.todo with
  | nil => rw [step_of_todo_nil htodo]
  | cons t rest =>
    by_cases hperform : ∃ command nested, t = .perform command nested
    · obtain ⟨command, nested, rfl⟩ := hperform
      exact apply_queryBridge_perform (g := QueryBridge.warned)
        (fun _ _ => rfl) htodo has rebinds
    · by_cases hsettle : ∃ began got, t = .settleQuery q began got
      · obtain ⟨began, got, rfl⟩ := hsettle
        exact (warned_of_settles htodo misses).1
      · exact (effect_step htodo).warned has
          (fun command nested h => hperform ⟨command, nested, h⟩)
          fun began got h => hsettle ⟨began, got, h⟩

theorem warned_of_new (new : ¬ m.world.Has (.queryBridge q))
    (has : m.step.world.Has (.queryBridge q)) :
    (m.step.world.queryBridges.get q).warned = false := by
  cases htodo : m.todo with
  | nil =>
    rw [step_of_todo_nil htodo] at has
    exact absurd has new
  | cons t rest => exact (effect_step htodo).warned_of_new new has

theorem warnings_of_other (sound : m.Sound) (misses : ¬ m.Misses q) :
    m.step.world.warnings q = m.world.warnings q := by
  cases htodo : m.todo with
  | nil => rw [step_of_todo_nil htodo]
  | cons t rest =>
    by_cases hsettle : ∃ began got, t = .settleQuery q began got
    · obtain ⟨began, got, rfl⟩ := hsettle
      exact (warned_of_settles htodo misses).2
    · exact (effect_step htodo).warnings
        (sound.todo t (htodo ▸ List.mem_cons_self)).remark
        fun began got h => hsettle ⟨began, got, h⟩

/-- A bridge warns when it misses its context and has not warned yet. -/
theorem warns_iff (sound : m.Sound) :
    m.Warns q ↔ m.Misses q ∧ (m.world.queryBridges.get q).warned = false := by
  by_cases hmisses : m.Misses q
  · rw [Warns, hmisses.step.2, and_iff_right hmisses]
    cases (m.world.queryBridges.get q).warned <;> simp
  · rw [Warns, warnings_of_other sound hmisses]
    simp [hmisses]

theorem Misses.not_rebinds (h : m.Misses q) (d : Ref .queryBridge)
    (c : Ref .context) : ¬ m.Rebinds d c := by
  obtain ⟨entity, began, got, rest, htodo, -⟩ := h
  rintro ⟨label, name, context, nested, rest', hperform, -⟩
  cases htodo.symm.trans hperform

/-- A bridge has warned since it was bound last if it warns now, or had warned
before and is not bound now. -/
theorem warned_step_iff (sound : m.Sound)
    (has : m.world.Has (.queryBridge q)) :
    (m.step.world.queryBridges.get q).warned ↔
      m.Warns q ∨ (m.world.queryBridges.get q).warned ∧
        ∀ c, ¬ m.Rebinds q c := by
  rw [warns_iff sound]
  by_cases hmisses : m.Misses q
  · have hrebinds := hmisses.not_rebinds q
    cases hwarned : (m.world.queryBridges.get q).warned <;>
      simp [hmisses, hmisses.step.1, hrebinds]
  · simp only [hmisses, false_and, false_or]
    by_cases hrebinds : ∃ c, m.Rebinds q c
    · obtain ⟨c, hc⟩ := hrebinds
      rw [warned_of_rebinds hc]
      exact iff_of_false Bool.false_ne_true fun h => h.2 c hc
    · have hrebinds : ∀ c, ¬ m.Rebinds q c := fun c hc => hrebinds ⟨c, hc⟩
      rw [warned_of_other has hrebinds hmisses, and_iff_left hrebinds]

instance (m : Machine) (q : Ref .queryBridge) : Decidable (m.Warns q) :=
  inferInstanceAs (Decidable (_ < _))

/-- No step warns more than once. -/
theorem warnings_step (sound : m.Sound) :
    m.step.world.warnings q =
      m.world.warnings q + if m.Warns q then 1 else 0 := by
  by_cases hmisses : m.Misses q
  · rw [hmisses.step.2]
    cases hwarned : (m.world.queryBridges.get q).warned <;>
      simp [warns_iff sound, hmisses, hwarned]
  · rw [warnings_of_other sound hmisses,
      if_neg fun h => hmisses ((warns_iff sound).mp h).1]
    rfl

end Machine
end LiveProperty
