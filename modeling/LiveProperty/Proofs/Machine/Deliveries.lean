import LiveProperty.Proofs.Machine.Generations
import LiveProperty.Proofs.Machine.Handles
import LiveProperty.Proofs.Machine.Termination

/-!
# What is on its way to a bridge

An announcement calls its listeners one after another, and a bridge that is
called begins an invalidation, which runs inside an envelope and through the
owner of the property.  Until it has run, some task owes it to the bridge:
`Owes.step` says that such a task leads to another one, or clears the cache.
-/

namespace LiveProperty

/-- A part of an invalidation of a bridge that has begun. -/
def Task.Relays (b : Bridge) : Task → Prop
  | .relay x => x = b
  | .enclose _ _ (.mutation _ x) => x = b
  | .run (.mutation _ x) => x = b
  | .mutate _ _ (.bridge x) => x = b
  | .invalidate (.bridge x) => x = b
  | _ => False

/-- An announcement that is still to be heard by a bridge that it concerns,
or a part of an invalidation of the bridge. -/
def Task.Owes (w : World) (b : Bridge) : Task → Prop
  | .deliver audience event => b.listener ∈ audience ∧ w.concerns b event
  | t => t.Relays b

theorem Task.Relays.owes {w : World} {b : Bridge} {t : Task}
    (h : t.Relays b) : t.Owes w b := by
  cases t <;> first | exact h | exact h.elim

namespace Machine

variable {m : Machine} {b : Bridge}

/-- Something is on its way to a bridge. -/
def Owes (m : Machine) (b : Bridge) : Prop :=
  ∃ t ∈ m.todo, t.Owes m.world b

/-- Whether the next task, if it is to ask a hook to make a change or a
presenter to show one, has it made or shown at least once. -/
def obliges (m : Machine) : Bool :=
  match m.todo with
  | .mutate (.hook h) _ _ :: _ =>
    (m.world.hooks.get h).forward.isSome || 0 < (m.world.hooks.get h).calls
  | .enclose (.scoped _) p _ :: _ =>
    (p.or m.world.installedPresenter).all fun shown =>
      0 < (m.world.presenters.get shown).calls
  | _ => true

/-- If the next task is a part of an invalidation of a bridge, it leads to the
next part. -/
def ObligesFor (m : Machine) (b : Bridge) : Prop :=
  (∃ t rest, m.todo = t :: rest ∧ t.Relays b) → m.obliges

theorem concerns_step (has : m.world.Has b.object) (event : Event) :
    m.step.world.concerns b event = m.world.concerns b event := by
  cases b with
  | key r =>
    have hkey := congrArg KeyBridge.key (keyBridge_core_step has)
    cases event with
    | key key => exact congrArg (fun k => decide (key = k)) hkey
    | value j => rfl
    | change c => rfl
  | query q =>
    have hentity := congrArg QueryBridge.entity (queryBridge_core_step has)
    cases event with
    | key key => rfl
    | value j => rfl
    | change c => exact congrArg c.affects hentity

theorem concerns_run {i j : ℕ} (le : i ≤ j)
    (has : (run i m).world.Has b.object) (event : Event) :
    (run j m).world.concerns b event = (run i m).world.concerns b event := by
  induction le with
  | refl => rfl
  | step le ih =>
    rw [run_succ]
    exact (concerns_step (has_run le has) event).trans ih

/-- What a task owes to a bridge does not change while it waits. -/
theorem owes_run {i j : ℕ} (le : i ≤ j) (has : (run i m).world.Has b.object)
    {t : Task} (h : t.Owes (run j m).world b) : t.Owes (run i m).world b := by
  cases t with
  | deliver audience event =>
    exact ⟨h.1, (concerns_run le has event).symm.trans h.2⟩
  | _ => exact h

theorem owes_of_relays {x : Task} (hx : x ∈ m.todo) (h : x.Relays b) :
    m.Owes b :=
  ⟨x, hx, h.owes⟩

theorem todo_call (l : Listener) (event : Event) :
    ∃ front, (m.call l event).todo = front ++ m.todo := by
  unfold call
  split
  · split
    · split
      · exact ⟨[_], rfl⟩
      · exact ⟨[], rfl⟩
    · exact ⟨[_], rfl⟩
  · split
    · exact ⟨[_], rfl⟩
    · exact ⟨[], rfl⟩
  · split
    · unfold hearChange
      split
      · split <;> exact ⟨[_], rfl⟩
      · exact ⟨[], rfl⟩
    · exact ⟨[], rfl⟩
  · exact ⟨[], rfl⟩

/-- A living bridge that hears an announcement that concerns it begins an
invalidation. -/
theorem todo_call_of_concerns {event : Event} (alive : m.isRooted b.object)
    (concerns : m.world.concerns b event) :
    (m.call b.listener event).todo = .relay b :: m.todo := by
  cases b with
  | key r =>
    cases event with
    | key key =>
      rw [call_keyBridge concerns]
      exact congrArg Machine.todo (if_pos alive)
    | value | change => cases concerns
  | query q =>
    cases event with
    | change c =>
      rw [call_queryBridge concerns]
      exact congrArg Machine.todo (if_pos alive)
    | key | value => cases concerns

theorem relay_mem_call {event : Event} (alive : m.isRooted b.object)
    (concerns : m.world.concerns b event) :
    .relay b ∈ (m.call b.listener event).todo := by
  rw [todo_call_of_concerns alive concerns]
  exact List.mem_cons_self

theorem mem_replicate_of_pos {n : ℕ} (h : 0 < n) (t : Task) :
    t ∈ List.replicate n t :=
  List.mem_replicate.mpr ⟨Nat.ne_of_gt h, rfl⟩

theorem invalidations_of_invalidate {rest : List Task}
    (htodo : m.todo = .invalidate (.bridge b) :: rest) :
    m.step.world.invalidations (.bridge b) =
      m.world.invalidations (.bridge b) + 1 := by
  have hjournal : m.step.world.journal =
      .cacheInvalidated (.bridge b) :: m.world.journal := by
    rw [step_of_todo_cons htodo]
    cases b <;> rfl
  rw [World.invalidations, hjournal, List.countP_cons]
  simp [World.invalidations, Happening.invalidates]

/-- A part of an invalidation leads to the next part, and the last one clears
the cache. -/
theorem relays_step (obliges : m.obliges) {t : Task} {rest : List Task}
    (htodo : m.todo = t :: rest) (h : t.Relays b) :
    (∃ x ∈ m.step.todo, x.Relays b) ∨
      m.step.world.invalidations (.bridge b) =
        m.world.invalidations (.bridge b) + 1 := by
  rw [step_of_todo_cons htodo]
  cases t with
  | relay x => exact Or.inl ⟨_, List.mem_cons_self, h⟩
  | enclose envelope p body =>
    cases body with
    | client commands => exact h.elim
    | mutation binding x =>
      left
      simp only [doTask, enclose]
      split
      · exact ⟨_, List.mem_cons_self, h⟩
      · next scope =>
        split
        · next shown hshown =>
          have hpos : 0 < (m.world.presenters.get shown).calls := by
            have hp : (p.or m.world.installedPresenter) = some shown := hshown
            simpa [Machine.obliges, htodo, hp] using obliges
          refine ⟨.run (.mutation binding x), ?_, h⟩
          simp only [todo_push, List.mem_append]
          exact Or.inl (Or.inl (Or.inr (mem_replicate_of_pos hpos _)))
        · exact ⟨_, List.mem_cons_self, h⟩
  | run body =>
    left
    cases body with
    | client commands => exact h.elim
    | mutation binding x =>
      cases binding with
      | none => exact ⟨_, List.mem_cons_self, h⟩
      | some binding => exact ⟨_, List.mem_cons_self, h⟩
  | mutate owner property i =>
    left
    cases i with
    | client during => exact h.elim
    | bridge x =>
      cases owner with
      | registrar r => exact ⟨_, List.mem_cons_self, h⟩
      | hook k =>
        simp only [doTask, mutate]
        split
        · next r hforward =>
          refine ⟨.mutate (.registrar r) property (.bridge x), ?_, h⟩
          simp [push]
        · next hforward =>
          have hpos : 0 < (m.world.hooks.get k).calls := by
            have hk : (m.world.hooks.get k).forward = none := hforward
            simpa [Machine.obliges, htodo, hk] using obliges
          refine ⟨.invalidate (.bridge x), ?_, h⟩
          simp only [todo_push, List.mem_append]
          exact Or.inl (Or.inl (Or.inr (mem_replicate_of_pos hpos _)))
  | invalidate i =>
    right
    cases i with
    | client during => exact h.elim
    | bridge x =>
      obtain rfl : x = b := h
      rw [← step_of_todo_cons htodo]
      exact invalidations_of_invalidate htodo
  | _ => exact h.elim

/-- A bridge that a client has a handle on is alive when a listener is
called. -/
theorem isRooted_of_deliver {audience : List Listener} {event : Event}
    {rest : List Task} (htodo : m.todo = .deliver audience event :: rest)
    (held : m.isHeld b.object) (t : Task) :
    ({ m with todo := rest }.push [t]).isRooted b.object := by
  rw [isHeld_eq, World.isHeldWith_iff, htodo] at held
  refine Bool.or_eq_true_iff.mpr (Or.inl ?_)
  rw [isHeld_eq, World.isHeldWith_iff]
  apply held.imp_right
  rintro ⟨x, hx, ho⟩
  rcases List.mem_cons.mp hx with rfl | hx
  · exact absurd ho List.not_mem_nil
  · exact ⟨x, List.mem_cons_of_mem t hx, ho⟩

/-- What is on its way to a bridge that a client has a handle on comes
nearer with every step, and at last clears the cache. -/
theorem Owes.step (h : m.Owes b) (has : m.world.Has b.object)
    (held : m.isHeld b.object) (obliges : m.ObligesFor b) :
    m.step.Owes b ∨ m.step.world.invalidations (.bridge b) =
      m.world.invalidations (.bridge b) + 1 := by
  obtain ⟨x, hx, howes⟩ := h
  cases htodo : m.todo with
  | nil =>
    rw [htodo] at hx
    exact absurd hx List.not_mem_nil
  | cons t rest =>
    rw [htodo] at hx
    rcases List.mem_cons.mp hx with rfl | hx
    · have hrelays (hr : x.Relays b) :=
        relays_step (obliges ⟨x, rest, htodo, hr⟩) htodo hr
      cases x with
      | deliver audience event =>
        left
        obtain ⟨hmem, hconcerns⟩ := howes
        cases audience with
        | nil => exact absurd hmem List.not_mem_nil
        | cons l audience =>
          have hstep : m.step = ({ m with todo := rest }.push
              [.deliver audience event]).call l event :=
            step_of_todo_cons htodo
          rcases List.mem_cons.mp hmem with rfl | hmem
          · have halive := isRooted_of_deliver htodo held
              (.deliver audience event)
            refine owes_of_relays (x := .relay b) ?_ rfl
            rw [hstep]
            exact relay_mem_call halive hconcerns
          · obtain ⟨front, hfront⟩ := todo_call (m := { m with
              todo := rest }.push [.deliver audience event]) l event
            refine ⟨.deliver audience event, ?_, hmem,
              (concerns_step has event).trans hconcerns⟩
            rw [hstep, hfront]
            exact List.mem_append_right _ List.mem_cons_self
      | _ =>
        apply (hrelays howes).imp_left
        rintro ⟨y, hy, hr⟩
        exact owes_of_relays hy hr
    · left
      obtain ⟨pushed, hpushed, -⟩ := todo_step htodo
      refine ⟨x, hpushed ▸ List.mem_append_right _ hx, ?_⟩
      cases x with
      | deliver audience event =>
        exact ⟨howes.1, (concerns_step has event).trans howes.2⟩
      | _ => exact howes

/-- What every step keeps for a bridge, unless something is on its way to it
before or after, is kept from one moment of a run to another at which its cache
was not invalidated more often, unless something is on its way then. -/
theorem keeps_or_owes {commands : List Command} {P : Machine → Prop}
    (obliges : ∀ k, (run k (ofCommands commands)).obliges) {i j : ℕ}
    (unique : (run j (ofCommands commands)).world.subscriptions ≤ 2 ^ 64)
    (le : i ≤ j) (has : (run i (ofCommands commands)).world.Has b.object)
    (held : (run j (ofCommands commands)).isHeld b.object)
    (same : (run j (ofCommands commands)).world.invalidations (.bridge b) =
      (run i (ofCommands commands)).world.invalidations (.bridge b))
    (start : P (run i (ofCommands commands)))
    (step : ∀ k, i ≤ k → (run k (ofCommands commands)).world.Attached b →
      ¬ (run k (ofCommands commands)).Owes b →
      P (run k (ofCommands commands)) →
        P (run k (ofCommands commands)).step ∨
          (run k (ofCommands commands)).step.Owes b) :
    P (run j (ofCommands commands)) ∨
      (run j (ofCommands commands)).Owes b := by
  have hsound := sound_ofCommands commands
  have hmade : (run i (ofCommands commands)).world.Has
      (CacheHolder.bridge b).object := has
  induction j, le using Nat.le_induction with
  | base => exact Or.inl start
  | succ j le ih =>
    have hhas := has_run le has
    have hsame := hsound.invalidations_between le (Nat.le_add_right j 1)
      hmade same
    have hroom := (subscriptions_le_run (Nat.le_add_right j 1)).trans unique
    rw [run_succ] at held same ⊢
    have hheld : (run j (ofCommands commands)).isHeld b.object :=
      isHeld_of_step hhas held
    by_cases howes : (run j (ofCommands commands)).Owes b
    · rcases howes.step hhas hheld fun _ => obliges j with hnext | hcount
      · exact Or.inr hnext
      · omega
    · have hkept := (ih hroom hheld hsame).resolve_right howes
      have hattached := (linked_run commands hroom).attached b hhas hheld
      exact step j le hattached howes hkept

/-! ## Calls -/

/-- The owner of a property is told of a read first.  When the read begins,
the call still holds the bridge, and unless something was on its way to the
bridge when it was called, nothing is. -/
theorem reads_of_call {n : ℕ} {access rest : List Task} {read : Task}
    {label : Json} {nested : Bool}
    (called : (run (n + 1) m).todo =
      access ++ read :: .finish label [b.object] nested :: rest)
    (has : (run n m).world.Has b.object)
    (silent : ∀ w, ¬ read.Owes w b)
    (calm : ∀ t ∈ rest, ¬ t.Owes (run n m).world b) :
    ∃ k, n < k ∧
      (run k m).todo = read :: .finish label [b.object] nested :: rest ∧
      m.Above (.finish label [b.object] nested :: rest) n k ∧
      (run k m).isHeld b.object ∧ ¬ (run k m).Owes b := by
  obtain ⟨k, hwaits⟩ := exists_waits called
  have hreads := hwaits.turn
  have hnk := hwaits.lt
  refine ⟨k, hnk, hreads, hwaits.above, ?_, ?_⟩
  · rw [isHeld_eq, World.isHeldWith_iff, hreads]
    exact Or.inr ⟨_, List.mem_cons_of_mem _ List.mem_cons_self,
      List.mem_cons_self⟩
  · rintro ⟨t, ht, howes⟩
    rw [hreads] at ht
    rcases List.mem_cons.mp ht with rfl | ht
    · exact silent _ howes
    · rcases List.mem_cons.mp ht with rfl | ht
      · exact howes
      · exact calm t ht (owes_run (Nat.le_of_lt hnk) has howes)

/-! ## Bridges that nobody tells anything -/

/-- A bridge is told next of an event that concerns it. -/
def Hears (m : Machine) (b : Bridge) : Prop :=
  ∃ audience event rest,
    m.todo = .deliver (b.listener :: audience) event :: rest ∧
      m.world.concerns b event

/-- No part of an invalidation of a bridge is left to be done. -/
def Rests (m : Machine) (b : Bridge) : Prop :=
  ∀ t ∈ m.todo, ¬ t.Relays b

theorem relays_of_follows {b : Ref .keyBridge} {t x : Task}
    (h : Follows m t x) (hx : x.Relays (.key b)) :
    t.Relays (.key b) ∨
      ∃ audience event, t = .deliver (.keyBridge b :: audience) event ∧
        m.world.concerns (.key b) event := by
  cases h with
  | begun c nested left =>
    cases left with
    | relay q named => cases hx
    | _ => exact hx.elim
  | relay d audience event concerns =>
    obtain rfl : d = .key b := hx
    exact Or.inr ⟨audience, event, rfl, concerns⟩
  | enclose d => exact Or.inl hx
  | run envelope p body => cases body <;> exact Or.inl hx
  | mutate binding d => exact Or.inl hx
  | invalidateUnbound d => exact Or.inl hx
  | forwardMutate k property i r => cases i <;> exact Or.inl hx
  | invalidate owner property i => cases i <;> exact Or.inl hx
  | _ => exact hx.elim

/-- A key bridge that is not told anything rests. -/
theorem Rests.step {b : Ref .keyBridge} (h : m.Rests (.key b))
    (silent : ¬ m.Hears (.key b)) : m.step.Rests (.key b) := by
  intro x hx hrelays
  cases htodo : m.todo with
  | nil =>
    rw [step_of_todo_nil htodo] at hx
    exact h x hx hrelays
  | cons t rest =>
    obtain ⟨pushed, hpushed, hfollows⟩ := todo_step htodo
    rw [hpushed] at hx
    rcases List.mem_append.mp hx with hx | hx
    · rcases relays_of_follows (hfollows x hx) hrelays with ht |
        ⟨audience, event, rfl, hconcerns⟩
      · exact h t (htodo ▸ List.mem_cons_self) ht
      · exact silent ⟨audience, event, rest, htodo, hconcerns⟩
    · exact h x (htodo ▸ List.mem_cons_of_mem t hx) hrelays

/-- As long as a key bridge is not told anything, its cache is not
invalidated. -/
theorem invalidations_of_silent (sound : m.Sound) {b : Ref .keyBridge}
    {i j : ℕ} (le : i ≤ j) (rests : (run i m).Rests (.key b))
    (silent : ∀ k, i ≤ k → k < j → ¬ (run k m).Hears (.key b)) :
    (run j m).Rests (.key b) ∧
      (run j m).world.invalidations (.bridge (.key b)) =
        (run i m).world.invalidations (.bridge (.key b)) := by
  induction le with
  | refl => exact ⟨rests, rfl⟩
  | step le ih =>
    obtain ⟨hrests, hcount⟩ := ih fun k hik hkj =>
      silent k hik (Nat.lt_succ_of_lt hkj)
    rw [run_succ]
    refine ⟨hrests.step (silent _ le (Nat.lt_succ_self _)), ?_⟩
    rw [← hcount]
    apply (sound.after _).invalidations_step
    intro rest htodo
    exact hrests (.invalidate (.bridge (.key b)))
      (htodo ▸ List.mem_cons_self) rfl

end Machine
end LiveProperty
