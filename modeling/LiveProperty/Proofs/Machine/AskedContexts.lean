import LiveProperty.Proofs.Machine.Contexts
import LiveProperty.Proofs.Machine.Deliveries

/-!
# The context that a query bridge asks

A bridge without a context of its own asks the default one, and changes over
when it is bound to a context or adopts one.  The rows that it would get are
no longer those that it got before if it asks another context, or if that
context was written to.  Unless the writes are still unsaved, something is
then on its way to the bridge.
-/

namespace LiveProperty

section

variable {todo : List Task} {bound : ℕ} {loose : Object → Prop}
  {w w' : World} {q : Ref .queryBridge} {c : Ref .context} {entity : String}

theorem Edits.ownContext (h : Edits todo bound loose w w')
    (has : q.index < w.queryBridges.next) :
    (w'.queryBridges.get q).context = (w.queryBridges.get q).context :=
  h.apply_queryBridge (g := QueryBridge.context) (fun _ _ => rfl) has

/-- A query bridge changes over to another context when it is bound to one,
or when it hears of a change that concerns it. -/
theorem Effect.ownContext {m : Machine} {t : Task} (h : Effect m t w)
    (has : q.index < m.world.queryBridges.next)
    (other : ∀ command nested, t ≠ .perform command nested)
    (calm : ∀ audience change,
      t = .deliver (.queryBridge q :: audience) (.change change) →
        ¬ change.affects (m.world.queryBridges.get q).entity) :
    (w.queryBridges.get q).context =
      (m.world.queryBridges.get q).context := by
  refine h.apply_queryBridge (g := QueryBridge.context) (fun _ _ => rfl)
    (fun _ => rfl) (fun _ _ _ => rfl) has (fun command nested ht => ?_)
    (fun audience change ht affects => ?_) fun _ _ _ _ => rfl
  · exact absurd ht (other command nested)
  · exact absurd affects (calm audience change ht)

/-- Only commands save. -/
theorem Effect.keeps {m : Machine} {t : Task} (h : Effect m t w)
    (has : c.index < m.world.contexts.next) (entity : String)
    (other : ∀ command nested, t ≠ .perform command nested) :
    m.world.Keeps w c entity := by
  cases h with
  | edits t loose known edits => exact edits.keeps has entity
  | save command nested => exact absurd rfl (other command nested)
  | adopt d audience change origin alive affects =>
    unfold World.adopt
    split <;> exact World.keeps_of_memory_eq rfl
  | leaveScope r reaction =>
    simp only [World.leaveScope]
    split <;> exact World.keeps_of_memory_eq rfl
  | invalidate d => cases d <;> exact World.keeps_of_memory_eq rfl
  | receive d records purpose =>
    exact World.keeps_of_memory_eq
      (Pool.apply_get_modify (g := Context.memory) fun _ => rfl)
  | _ => exact World.keeps_of_memory_eq rfl

/-- A save concerns the entities of the changes that it saves. -/
theorem World.affects_saveEvent (h : w.Unsaved c entity) :
    (w.saveEvent c).affects entity := by
  obtain ⟨x, hx, rfl⟩ := h
  have hchanges : (distinct (w.memory c).unsaved).any
      (fun y => decide (y.entity = x.entity)) = true :=
    List.any_eq_true.mpr ⟨x, mem_distinct.mpr hx, decide_eq_true rfl⟩
  unfold World.saveEvent Context.saveEvent
  split <;> exact hchanges

theorem World.resolvedContext_eq {x : Option (Ref .context)}
    (own : (w'.queryBridges.get q).context = (w.queryBridges.get q).context)
    (steady : (w.queryBridges.get q).context = none →
      w'.defaultContext = w.defaultContext)
    (resolved : w.resolvedContext q = x) : w'.resolvedContext q = x := by
  unfold World.resolvedContext at resolved ⊢
  rw [own, ← resolved]
  cases hown : (w.queryBridges.get q).context with
  | none => rw [steady hown]
  | some d => rfl

/-- A context that a bridge asks, and whose saves it hears of. -/
structure World.Asks (w : World) (q : Ref .queryBridge) (c : Ref .context) :
    Prop where
  resolved : w.resolvedContext q = some c
  posts : (w.contexts.get c).changes = (w.queryBridges.get q).subscription.source

/-- The bridge goes on to ask the context, whose rows change only together
with an unsaved change. -/
structure World.GoesOn (w w' : World) (q : Ref .queryBridge)
    (c : Ref .context) : Prop where
  resolved : w'.resolvedContext q = some c
  keeps : w.Keeps w' c (w.queryBridges.get q).entity

/-- The context that a query bridge asks announces its saves where the bridge
listens. -/
def World.HearsSaves (w : World) (q : Ref .queryBridge) : Prop :=
  w.Has (.queryBridge q) → ∀ c ∈ w.resolvedContext q,
    (w.contexts.get c).changes = (w.queryBridges.get q).subscription.source

instance (w : World) (q : Ref .queryBridge) : Decidable (w.HearsSaves q) :=
  inferInstanceAs (Decidable (q.index < w.queryBridges.next →
    ∀ c ∈ w.resolvedContext q,
      (w.contexts.get c).changes = (w.queryBridges.get q).subscription.source))

theorem World.Sound.has_of_resolvedContext {w : World} (sound : w.Sound)
    (has : w.Has (.queryBridge q)) (resolved : w.resolvedContext q = some c) :
    w.Has (.context c) := by
  rcases Option.or_eq_some_iff.mp resolved with hown | ⟨-, hdefault⟩
  · exact sound.contexts q has c hown
  · exact sound.defaultContext c hdefault

/-- A command either leaves a query bridge asking the context with the same
rows, or the bridge is to hear of what it does. -/
theorem Begins.goesOn {m : Machine} {bound : ℕ} {b : Begun} (h : Begins m bound b)
    (has : m.world.Has (.queryBridge q)) (made : m.world.Has (.context c))
    (attached : m.world.Attached (.query q)) (asks : m.world.Asks q c)
    (steady : (m.world.queryBridges.get q).context = none →
      b.machine.world.defaultContext = m.world.defaultContext) :
    (∃ x ∈ b.tasks, x.Owes b.machine.world (.query q)) ∨
      m.world.GoesOn b.machine.world q c := by
  have hsame {w : World} (memory : w.memory c = m.world.memory c)
      (own : (w.queryBridges.get q).context =
        (m.world.queryBridges.get q).context)
      (steady : (m.world.queryBridges.get q).context = none →
        w.defaultContext = m.world.defaultContext) :
      m.world.GoesOn w q c :=
    ⟨World.resolvedContext_eq own steady asks.resolved,
      World.keeps_of_memory_eq memory⟩
  cases h with
  | atOnce r edits =>
    right
    exact ⟨World.resolvedContext_eq (edits.ownContext has) steady asks.resolved,
      edits.keeps made _⟩
  | save d count named unsaved =>
    by_cases hd : c = d
    · subst hd
      by_cases hunsaved : m.world.Unsaved c (m.world.queryBridges.get q).entity
      · left
        refine ⟨_, List.mem_cons_self, ?_, World.affects_saveEvent hunsaved⟩
        rw [asks.posts]
        exact World.mem_audience attached
      · right
        refine ⟨asks.resolved, fun h => absurd h hunsaved, Or.inl ?_⟩
        have hrows := congrArg
          (fun x : MemoryContext =>
            x.records (m.world.queryBridges.get q).entity)
          (m.world.memory_modifyMemory_self c MemoryContext.clearUnsaved)
        exact hrows
    · right
      exact hsame (m.world.memory_modifyMemory_of_ne hd _) rfl fun _ => rfl
  | bindContext d x named namedContext =>
    by_cases hd : q = d
    · subst hd
      exact Or.inl ⟨_, List.mem_cons_self, rfl⟩
    · right
      exact hsame rfl (congrArg QueryBridge.context (Pool.get_modify_of_ne _ hd))
        fun _ => rfl
  | _ => exact Or.inr (hsame rfl rfl fun _ => rfl)

end

namespace Machine

variable {m : Machine} {q : Ref .queryBridge} {c : Ref .context}

/-- As long as nothing is on its way to a query bridge, it asks the same
context, whose rows are the same up to unsaved changes. -/
theorem goesOn_step (has : m.world.Has (.queryBridge q))
    (made : m.world.Has (.context c))
    (attached : m.world.Attached (.query q)) (asks : m.world.Asks q c)
    (calm : ¬ m.Owes (.query q))
    (steady : (m.world.queryBridges.get q).context = none →
      m.step.world.defaultContext = m.world.defaultContext) :
    m.step.Owes (.query q) ∨ m.world.GoesOn m.step.world q c := by
  cases htodo : m.todo with
  | nil =>
    rw [step_of_todo_nil htodo]
    exact Or.inr ⟨asks.resolved, World.keeps_of_memory_eq rfl⟩
  | cons t rest =>
    by_cases hperform : ∃ command nested, t = .perform command nested
    · obtain ⟨command, nested, rfl⟩ := hperform
      cases hbegin : begin { m with todo := rest } command.action with
      | error r =>
        rw [step_of_refused htodo hbegin]
        exact Or.inr ⟨asks.resolved, World.keeps_of_memory_eq rfl⟩
      | ok b =>
        rw [step_of_begin htodo hbegin] at steady ⊢
        refine ((begins_of_begin hbegin).goesOn has made attached
          ⟨asks.resolved, asks.posts⟩ steady).imp_left ?_
        rintro ⟨x, hx, howes⟩
        refine ⟨x, ?_, howes⟩
        exact List.mem_append_left _ (List.mem_append_left _ hx)
    · right
      have hother : ∀ command nested, t ≠ .perform command nested :=
        fun command nested heq => hperform ⟨command, nested, heq⟩
      have heffect := effect_step htodo
      have hcalm : ∀ audience change,
          t = .deliver (.queryBridge q :: audience) (.change change) →
            ¬ change.affects (m.world.queryBridges.get q).entity := by
        rintro audience change rfl haffects
        have howes : Task.Owes m.world (.query q)
            (.deliver (.queryBridge q :: audience) (.change change)) :=
          ⟨List.mem_cons_self, haffects⟩
        exact calm ⟨_, htodo ▸ List.mem_cons_self, howes⟩
      exact ⟨World.resolvedContext_eq (heffect.ownContext has hother hcalm)
        steady asks.resolved, heffect.keeps made _ hother⟩

/-- The next step leaves the default context alone, if the bridge has none of
its own. -/
def KeepsDefault (m : Machine) (q : Ref .queryBridge) : Prop :=
  m.world.Has (.queryBridge q) →
    (m.world.queryBridges.get q).context = none →
      m.step.world.defaultContext = m.world.defaultContext

instance (m : Machine) (q : Ref .queryBridge) : Decidable (m.KeepsDefault q) :=
  inferInstanceAs (Decidable (q.index < m.world.queryBridges.next →
    (m.world.queryBridges.get q).context = none →
      m.step.world.defaultContext = m.world.defaultContext))

theorem entity_run {i j : ℕ} (le : i ≤ j)
    (has : (run i m).world.Has (.queryBridge q)) :
    ((run j m).world.queryBridges.get q).entity =
      ((run i m).world.queryBridges.get q).entity := by
  have hentity := congrArg QueryBridge.entity (queryBridge_core_run le has)
  exact hentity

/-- From one moment of a run to another at which its cache was not
invalidated more often, a query bridge asks the same context, whose rows are
the same up to unsaved changes, or something is on its way to the bridge. -/
theorem goesOn_or_owes {commands : List Command}
    (obliges : ∀ k, (run k (ofCommands commands)).obliges)
    (hears : ∀ k, (run k (ofCommands commands)).world.HearsSaves q)
    (steady : ∀ k, (run k (ofCommands commands)).KeepsDefault q) {i j : ℕ}
    (unique : (run j (ofCommands commands)).world.subscriptions ≤ 2 ^ 64)
    (le : i ≤ j)
    (has : (run i (ofCommands commands)).world.Has (.queryBridge q))
    (held : (run j (ofCommands commands)).isHeld (.queryBridge q))
    (same : (run j (ofCommands commands)).world.invalidations
        (.bridge (.query q)) =
      (run i (ofCommands commands)).world.invalidations (.bridge (.query q)))
    (resolved : (run i (ofCommands commands)).world.resolvedContext q =
      some c) :
    (run j (ofCommands commands)).Owes (.query q) ∨
      (run i (ofCommands commands)).world.GoesOn
        (run j (ofCommands commands)).world q c := by
  have hcontext :=
    (sound_run commands i).world.has_of_resolvedContext has resolved
  rw [or_comm]
  refine keeps_or_owes
    (P := fun m => (run i (ofCommands commands)).world.GoesOn m.world q c)
    obliges unique le has held same
    ⟨resolved, World.keeps_of_memory_eq rfl⟩ fun k hik hattached howes hgoes => ?_
  have hstep := goesOn_step (has_run hik has) (has_run hik hcontext) hattached
    ⟨hgoes.resolved, hears k (has_run hik has) c hgoes.resolved⟩ howes
    (steady k (has_run hik has))
  rw [or_comm]
  refine hstep.imp_right fun hnext => ⟨hnext.resolved, ?_⟩
  have hkeeps := hnext.keeps
  rw [entity_run hik has] at hkeeps
  exact hgoes.keeps.trans hkeeps

end Machine
end LiveProperty
