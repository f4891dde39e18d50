import LiveProperty.Proofs.Machine.References

/-!
# What bridges and trackers keep from the time they were made

A key bridge keeps its store, its key, its type and its default; a query
bridge keeps its row type and its descriptor.  Only their caches, their
bindings, and the context of a query bridge, change.  A tracker keeps all but
what its source is still to answer.
-/

namespace LiveProperty

/-- A key bridge without what changes. -/
def KeyBridge.core (b : KeyBridge) : KeyBridge :=
  { b with cache := {}, relay := {} }

/-- A query bridge without what changes. -/
def QueryBridge.core (q : QueryBridge) : QueryBridge :=
  { q with context := none, cache := {}, relay := {}, warned := false }

/-- A tracker without what changes. -/
def Tracker.core (t : Tracker) : Tracker :=
  { t with batches := [] }

section

variable {todo : List Task} {bound : ℕ} {loose : Object → Prop}
  {w w' : World}

theorem Edit.keyBridge_core (h : Edit todo bound loose w w')
    {b : Ref .keyBridge} (has : b.index < w.keyBridges.next) :
    (w'.keyBridges.get b).core = (w.keyBridges.get b).core := by
  cases h with
  | letGo o free known =>
    rcases w.letGo_eq o with heq | ⟨s, -, heq⟩
    · rw [heq]
    · rw [heq]
      rfl
  | newKeyBridge name k offered empty unbound subscribed =>
    exact congrArg KeyBridge.core (Pool.get_add_of_lt k has)
  | bindKeyBridge d binding named =>
    exact Pool.apply_get_modify (g := KeyBridge.core) fun _ => rfl
  | _ => rfl

/-- An edit leaves a query bridge that is there as it was, but for its
owner. -/
theorem Edit.apply_queryBridge {α : Type} {g : QueryBridge → α}
    (observed : ∀ k binding, g (QueryBridge.bind k binding) = g k)
    (h : Edit todo bound loose w w') {q : Ref .queryBridge}
    (has : q.index < w.queryBridges.next) :
    g (w'.queryBridges.get q) = g (w.queryBridges.get q) := by
  cases h with
  | letGo o free known =>
    rcases w.letGo_eq o with heq | ⟨s, -, heq⟩
    · rw [heq]
    · rw [heq]
      rfl
  | newQueryBridge name k named empty unbound silent bus subscribed =>
    exact congrArg g (Pool.get_add_of_lt k has)
  | bindQueryBridge d binding named =>
    exact Pool.apply_get_modify (g := g) fun k => observed k binding
  | _ => rfl

theorem Edit.tracker_core (h : Edit todo bound loose w w')
    {t : Ref .tracker} (has : t.index < w.trackers.next) :
    (w'.trackers.get t).core = (w.trackers.get t).core := by
  cases h with
  | letGo o free known =>
    rcases w.letGo_eq o with heq | ⟨s, -, heq⟩
    · rw [heq]
    · rw [heq]
      rfl
  | newTracker name s key changes batches onCall named small =>
    exact congrArg Tracker.core (Pool.get_add_of_lt _ has)
  | pushBatch d batch =>
    exact Pool.apply_get_modify (g := Tracker.core) fun _ => rfl
  | _ => rfl

theorem Edits.keyBridge_core (h : Edits todo bound loose w w')
    {b : Ref .keyBridge} (has : b.index < w.keyBridges.next) :
    (w'.keyBridges.get b).core = (w.keyBridges.get b).core := by
  induction h with
  | refl => rfl
  | tail hedits hedit ih =>
    exact (hedit.keyBridge_core
      (Edits.has hedits (o := .keyBridge b) has)).trans ih

theorem Edits.apply_queryBridge {α : Type} {g : QueryBridge → α}
    (observed : ∀ k binding, g (QueryBridge.bind k binding) = g k)
    (h : Edits todo bound loose w w') {q : Ref .queryBridge}
    (has : q.index < w.queryBridges.next) :
    g (w'.queryBridges.get q) = g (w.queryBridges.get q) := by
  induction h with
  | refl => rfl
  | tail hedits hedit ih =>
    exact (hedit.apply_queryBridge observed
      (Edits.has hedits (o := .queryBridge q) has)).trans ih

theorem Edits.tracker_core (h : Edits todo bound loose w w')
    {t : Ref .tracker} (has : t.index < w.trackers.next) :
    (w'.trackers.get t).core = (w.trackers.get t).core := by
  induction h with
  | refl => rfl
  | tail hedits hedit ih =>
    exact (hedit.tracker_core (Edits.has hedits (o := .tracker t) has)).trans ih

theorem Effect.keyBridge_core {m : Machine} {t : Task} (h : Effect m t w)
    {b : Ref .keyBridge} (has : b.index < m.world.keyBridges.next) :
    (w.keyBridges.get b).core = (m.world.keyBridges.get b).core := by
  cases h with
  | edits t loose known edits => exact edits.keyBridge_core has
  | adopt q audience change origin alive affects =>
    unfold World.adopt
    split <;> rfl
  | leaveScope r reaction =>
    simp only [World.leaveScope]
    split <;> rfl
  | invalidate d =>
    cases d with
    | key d => exact Pool.apply_get_modify (g := KeyBridge.core) fun _ => rfl
    | query q => rfl
  | settleKey d began stored told remarks =>
    exact Pool.apply_get_set (g := KeyBridge.core) rfl
  | _ => rfl

/-- What of a query bridge does not depend on its cache and its owner changes
only when the bridge is bound to a context, adopts one or warns. -/
theorem Effect.apply_queryBridge {α : Type} {g : QueryBridge → α}
    (observed : ∀ k binding, g (QueryBridge.bind k binding) = g k)
    (invalidated : ∀ k, g (QueryBridge.invalidate k) = g k)
    (settled : ∀ k began rows, g (QueryBridge.settle k began rows) = g k)
    {m : Machine} {t : Task} (h : Effect m t w) {q : Ref .queryBridge}
    (has : q.index < m.world.queryBridges.next)
    (binds : ∀ command nested, t = .perform command nested →
      ∀ k c, g (QueryBridge.bindContext k c) = g k)
    (adopts : ∀ audience change,
      t = .deliver (.queryBridge q :: audience) (.change change) →
      change.affects (m.world.queryBridges.get q).entity →
        ∀ k c, g (QueryBridge.adopt k c) = g k)
    (warns : ∀ began outcome, t = .settleQuery q began outcome →
      ∀ k, g (QueryBridge.warn k) = g k) :
    g (w.queryBridges.get q) = g (m.world.queryBridges.get q) := by
  cases h with
  | edits t loose known edits => exact edits.apply_queryBridge observed has
  | bindContext command nested d c named namedContext =>
    exact Pool.apply_get_modify (g := g)
      fun k => binds command nested rfl k c
  | adopt d audience change origin alive affects =>
    by_cases hd : q = d
    · subst hd
      unfold World.adopt
      split
      · exact Pool.apply_get_modify (g := g)
          fun k => adopts audience change rfl affects k origin
      · rfl
    · unfold World.adopt
      split
      · exact congrArg g (Pool.get_modify_of_ne _ hd)
      · rfl
  | leaveScope r reaction =>
    simp only [World.leaveScope]
    split <;> rfl
  | invalidate d =>
    cases d with
    | key d => rfl
    | query d => exact Pool.apply_get_modify (g := g) invalidated
  | settleQuery d began outcome rows selected =>
    exact Pool.apply_get_set (g := g) (settled _ began rows)
  | missContext d began outcome error =>
    by_cases hd : q = d
    · subst hd
      exact Pool.apply_get_set (g := g) (warns began outcome rfl _)
    · exact congrArg g (Pool.get_set_of_ne _ hd _)
  | _ => rfl

theorem Effect.queryBridge_core {m : Machine} {t : Task} (h : Effect m t w)
    {q : Ref .queryBridge} (has : q.index < m.world.queryBridges.next) :
    (w.queryBridges.get q).core = (m.world.queryBridges.get q).core :=
  h.apply_queryBridge (fun _ _ => rfl) (fun _ => rfl) (fun _ _ _ => rfl) has
    (fun _ _ _ _ _ => rfl) (fun _ _ _ _ _ _ => rfl) fun _ _ _ _ => rfl

theorem Effect.tracker_core {m : Machine} {x : Task} (h : Effect m x w)
    {t : Ref .tracker} (has : t.index < m.world.trackers.next) :
    (w.trackers.get t).core = (m.world.trackers.get t).core := by
  cases h with
  | edits x loose known edits => exact edits.tracker_core has
  | adopt q audience change origin alive affects =>
    unfold World.adopt
    split <;> rfl
  | leaveScope r reaction =>
    simp only [World.leaveScope]
    split <;> rfl
  | invalidate d => cases d <;> rfl
  | takeBatch d told remarks =>
    exact Pool.apply_get_set (g := Tracker.core) rfl
  | _ => rfl

end

namespace Machine

variable {m : Machine}

theorem keyBridge_core_step {b : Ref .keyBridge}
    (has : m.world.Has (.keyBridge b)) :
    (m.step.world.keyBridges.get b).core =
      (m.world.keyBridges.get b).core := by
  cases h : m.todo with
  | nil => rw [step_of_todo_nil h]
  | cons t rest => exact (effect_step h).keyBridge_core has

theorem queryBridge_core_step {q : Ref .queryBridge}
    (has : m.world.Has (.queryBridge q)) :
    (m.step.world.queryBridges.get q).core =
      (m.world.queryBridges.get q).core := by
  cases h : m.todo with
  | nil => rw [step_of_todo_nil h]
  | cons t rest => exact (effect_step h).queryBridge_core has

theorem keyBridge_core_run {b : Ref .keyBridge} {i j : ℕ} (le : i ≤ j)
    (has : (run i m).world.Has (.keyBridge b)) :
    ((run j m).world.keyBridges.get b).core =
      ((run i m).world.keyBridges.get b).core := by
  induction le with
  | refl => rfl
  | step le ih =>
    rw [run_succ]
    exact (keyBridge_core_step (has_run le has)).trans ih

theorem queryBridge_core_run {q : Ref .queryBridge} {i j : ℕ} (le : i ≤ j)
    (has : (run i m).world.Has (.queryBridge q)) :
    ((run j m).world.queryBridges.get q).core =
      ((run i m).world.queryBridges.get q).core := by
  induction le with
  | refl => rfl
  | step le ih =>
    rw [run_succ]
    exact (queryBridge_core_step (has_run le has)).trans ih

theorem tracker_core_step {t : Ref .tracker}
    (has : m.world.Has (.tracker t)) :
    (m.step.world.trackers.get t).core = (m.world.trackers.get t).core := by
  cases h : m.todo with
  | nil => rw [step_of_todo_nil h]
  | cons x rest => exact (effect_step h).tracker_core has

theorem tracker_core_run {t : Ref .tracker} {i j : ℕ} (le : i ≤ j)
    (has : (run i m).world.Has (.tracker t)) :
    ((run j m).world.trackers.get t).core =
      ((run i m).world.trackers.get t).core := by
  induction le with
  | refl => rfl
  | step le ih =>
    rw [run_succ]
    exact (tracker_core_step (has_run le has)).trans ih

end Machine
end LiveProperty
