import LiveProperty.Proofs.Machine.Effects
import LiveProperty.Proofs.Machine.Runs
import LiveProperty.Proofs.Pools
import Mathlib.Data.Multiset.DershowitzManna
import Mathlib.Algebra.GroupWithZero.Nat
import Mathlib.Algebra.Order.Group.Multiset
import Mathlib.Algebra.Order.Group.Nat

/-!
# Every run comes to an end

A callback may hand over callbacks, and may be called many times, but what it
hands over is a part of the command that made it.  So the multiset of the
sizes of all commands that wait, in tasks, in plans and in observers, falls
whenever a command begins or a body is run.  The steps in between leave it
alone, and use up the weight of the tasks, which only depends on how often
the presenters and hooks of the world call and on how many listeners it has.
-/

namespace LiveProperty

/-- The sizes of commands that wait. -/
noncomputable def Command.sizes (commands : List Command) : Multiset ℕ :=
  (commands.map sizeOf : List ℕ)

/-- The sizes of all commands of a schedule, each as often as it will be
called. -/
noncomputable def Schedule.sizes (s : Schedule) : Multiset ℕ :=
  (s.map fun entry => entry.1 • Command.sizes entry.2).sum

theorem Command.lt_sizeOf_of_mem_sizes {commands : List Command} {k : ℕ}
    (h : k ∈ Command.sizes commands) : k < sizeOf commands := by
  obtain ⟨c, hc, rfl⟩ := List.mem_map.mp h
  exact List.sizeOf_lt_of_mem hc

theorem Schedule.lt_sizeOf_of_mem_sizes {s : Schedule} {k : ℕ}
    (h : k ∈ Schedule.sizes s) : k < sizeOf s := by
  induction s with
  | nil => simp [Schedule.sizes] at h
  | cons entry rest ih =>
    obtain ⟨n, commands⟩ := entry
    simp only [Schedule.sizes, List.map_cons, List.sum_cons, Multiset.mem_add]
      at h
    simp only [List.cons.sizeOf_spec, Prod.mk.sizeOf_spec]
    rcases h with h | h
    · have := Command.lt_sizeOf_of_mem_sizes (Multiset.mem_of_mem_nsmul h)
      omega
    · have := ih h
      omega

/-- A call of a schedule takes its commands out of it. -/
theorem Schedule.sizes_current_add_next (s : Schedule) :
    Command.sizes s.current + Schedule.sizes s.next = Schedule.sizes s := by
  induction s with
  | nil => rfl
  | cons entry rest ih =>
    obtain ⟨n, commands⟩ := entry
    cases n with
    | zero => simpa [Schedule.current, Schedule.next, Schedule.sizes] using ih
    | succ n =>
      simp only [Schedule.current, Schedule.next, Schedule.sizes,
        List.map_cons, List.sum_cons, succ_nsmul']
      exact (add_assoc _ _ _).symm

/-- The sizes of the commands that a task is still to carry out.  A body
that may be run several times counts as a whole. -/
noncomputable def Task.sizes : Task → Multiset ℕ
  | .perform c _ => {sizeOf c}
  | .react reaction => Command.sizes reaction.commands
  | .leaveScope _ reaction => Command.sizes reaction.commands
  | .readCache _ _ during _ => Command.sizes during
  | .mutate _ _ (.client during) => {sizeOf during + 1}
  | .invalidate (.client during) => Command.sizes during
  | .enclose _ _ (.client body) => {sizeOf body + 1}
  | .run (.client body) => Command.sizes body
  | _ => 0

theorem Task.sum_sizes_nested (commands : List Command) :
    ((Task.nested commands).map Task.sizes).sum = Command.sizes commands := by
  induction commands with
  | nil => rfl
  | cons c rest ih =>
    simp only [Task.nested, List.map_cons, List.sum_cons] at ih ⊢
    rw [ih]
    simp [Task.sizes, Command.sizes]

namespace World

/-- The sizes of the commands that wait in plans and observers. -/
noncomputable def sizes (w : World) : Multiset ℕ :=
  w.plans.total (fun p => Schedule.sizes p.schedule) +
    w.registrars.total fun r =>
      (r.waiting.map fun o => Command.sizes o.onChange.commands).sum

/-- How often presenters and hooks call what they are given, taken
together. -/
def calls (w : World) : ℕ :=
  w.presenters.total Presenter.calls + w.hooks.total Hook.calls

/-- How many listeners there are. -/
def listeners (w : World) : ℕ :=
  w.notifiers.total Notifier.count

/-- How many observers wait. -/
def observers (w : World) : ℕ :=
  w.registrars.total fun r => r.waiting.length

theorem presenter_calls_le (w : World) (p : Ref .presenter) :
    (w.presenters.get p).calls ≤ w.calls :=
  le_trans (Pool.get_le_total rfl w.presenters p) (Nat.le_add_right _ _)

theorem hook_calls_le (w : World) (h : Ref .hook) :
    (w.hooks.get h).calls ≤ w.calls :=
  le_trans (Pool.get_le_total rfl w.hooks h) (Nat.le_add_left _ _)

theorem length_audience_le (w : World) (n : Ref .notifier) :
    (w.audience n).length ≤ w.listeners := by
  simpa [audience, Notifier.audience, Notifier.count, listeners] using
    Pool.get_le_total (f := Notifier.count) rfl w.notifiers n

end World

/-! ## The weight of a task -/

/-- The weight of running the invalidation of a bridge in its envelope, in a
world whose presenters and hooks call so often. -/
def relayWeight (calls : ℕ) : ℕ :=
  6 + (calls + 1) * (8 + calls)

/-- The weight of calling so many listeners. -/
def deliveryWeight (calls listeners : ℕ) : ℕ :=
  1 + listeners * (relayWeight calls + 1)

/-- How many steps a task may at most lead to before a command begins. -/
def Task.weight (calls listeners : ℕ) : Task → ℕ
  | .perform .. => 0
  | .deliver audience _ => deliveryWeight calls audience.length
  | .write .. => deliveryWeight calls listeners + 1
  | .access (.registrar _) _ => 1
  | .access (.hook _) _ => 3
  | .mutate (.registrar _) .. => 3
  | .mutate (.hook _) .. => 7 + calls
  | .run _ => 8 + calls
  | .enclose .. => 4 + (calls + 1) * (8 + calls)
  | .relay _ => relayWeight calls
  | .leaveScope .. => 3
  | .readCache .. => 2
  | .readKey _ => 3
  | .receive .. => 2
  | .askRecords .. => 5
  | .readQuery _ => 6
  | .announceRemote .. => deliveryWeight calls listeners + 2
  | .takeBatch _ => 2 * deliveryWeight calls listeners + 4
  | .askHistory .. => 2 * deliveryWeight calls listeners + 6
  | _ => 1

@[simp] theorem Task.sizes_deliver (audience : List Listener) (event : Event) :
    (Task.deliver audience event).sizes = 0 := rfl

@[simp] theorem Task.weight_deliver (calls listeners : ℕ)
    (audience : List Listener) (event : Event) :
    (Task.deliver audience event).weight calls listeners =
      deliveryWeight calls audience.length := rfl

theorem Task.sum_weight_nested (calls listeners : ℕ)
    (commands : List Command) :
    ((Task.nested commands).map (Task.weight calls listeners)).sum = 0 := by
  induction commands with
  | nil => rfl
  | cons c rest ih => simpa [Task.nested, Task.weight] using ih

/-! ## What commands do at once -/

theorem World.sizes_addPlan_le (w : World) (schedule : Schedule) :
    (w.addPlan schedule).sizes ≤ w.sizes + Schedule.sizes schedule := by
  have hplans := Pool.total_add_le
    (f := fun p : Plan => Schedule.sizes p.schedule) rfl w.plans ⟨schedule⟩
  have h := add_le_add_left hplans (w.registrars.total fun r =>
    (r.waiting.map fun o => Command.sizes o.onChange.commands).sum)
  rwa [add_right_comm] at h

theorem World.sizes_letGo (w : World) (o : Object) :
    (w.letGo o).sizes = w.sizes := by
  unfold letGo
  split <;> rfl

/-- An edit makes no commands wait but smaller ones than its bound. -/
theorem Edit.sizes_le {todo : List Task} {bound : ℕ} {loose : Object → Prop}
    {w w' : World} (h : Edit todo bound loose w w') :
    ∃ added : Multiset ℕ, (∀ k ∈ added, k < bound) ∧
      w'.sizes ≤ w.sizes + added := by
  cases h with
  | letGo o free known =>
    exact ⟨0, by simp, by rw [World.sizes_letGo, add_zero]⟩
  | subscribe name n script onlyKey small =>
    exact ⟨Schedule.sizes script,
      fun k hk => (Schedule.lt_sizeOf_of_mem_sizes hk).trans small,
      w.sizes_addPlan_le script⟩
  | newStore name suite onRead small =>
    exact ⟨Schedule.sizes onRead,
      fun k hk => (Schedule.lt_sizeOf_of_mem_sizes hk).trans small,
      w.sizes_addPlan_le onRead⟩
  | newRegistrar name =>
    refine ⟨0, by simp, ?_⟩
    have hadd := Pool.total_add_le (f := fun r : Registrar Reaction =>
      (r.waiting.map fun o => Command.sizes o.onChange.commands).sum)
      rfl w.registrars {}
    rw [add_zero]
    exact add_le_add (le_refl (w.plans.total _))
      (hadd.trans (le_of_eq (add_zero _)))
  | newHook name onAccess before after calls forward named small =>
    refine ⟨Schedule.sizes onAccess + Schedule.sizes before +
      Schedule.sizes after, ?_, ?_⟩
    · intro k hk
      simp only [Multiset.mem_add] at hk
      rcases hk with (hk | hk) | hk
      · have := Schedule.lt_sizeOf_of_mem_sizes hk
        omega
      · have := Schedule.lt_sizeOf_of_mem_sizes hk
        omega
      · have := Schedule.lt_sizeOf_of_mem_sizes hk
        omega
    · have h₁ := w.sizes_addPlan_le onAccess
      have h₂ := (w.addPlan onAccess).sizes_addPlan_le before
      have h₃ := ((w.addPlan onAccess).addPlan before).sizes_addPlan_le after
      apply h₃.trans
      rw [← add_assoc, ← add_assoc]
      exact add_le_add_left (h₂.trans (add_le_add_left h₁ _)) _
  | newPresenter name before after calls small =>
    refine ⟨Schedule.sizes before + Schedule.sizes after, ?_, ?_⟩
    · intro k hk
      rcases Multiset.mem_add.mp hk with hk | hk
      · have := Schedule.lt_sizeOf_of_mem_sizes hk
        omega
      · have := Schedule.lt_sizeOf_of_mem_sizes hk
        omega
    · have h₁ := w.sizes_addPlan_le before
      have h₂ := (w.addPlan before).sizes_addPlan_le after
      apply h₂.trans
      rw [← add_assoc]
      exact add_le_add_left h₁ _
  | newSupervisedContext name changes onFetch failures error small =>
    exact ⟨Schedule.sizes onFetch,
      fun k hk => (Schedule.lt_sizeOf_of_mem_sizes hk).trans small,
      w.sizes_addPlan_le onFetch⟩
  | newTracker name store key changes batches onCall named small =>
    exact ⟨Schedule.sizes onCall,
      fun k hk => (Schedule.lt_sizeOf_of_mem_sizes hk).trans small,
      w.sizes_addPlan_le onCall⟩
  | _ => exact ⟨0, by simp, le_of_eq (add_zero _).symm⟩

theorem Edits.sizes_le {todo : List Task} {bound : ℕ}
    {loose : Object → Prop} {w w' : World}
    (h : Edits todo bound loose w w') :
    ∃ added : Multiset ℕ, (∀ k ∈ added, k < bound) ∧
      w'.sizes ≤ w.sizes + added := by
  induction h with
  | refl => exact ⟨0, by simp, le_of_eq (add_zero _).symm⟩
  | tail _ hedit ih =>
    obtain ⟨earlier, hearlier, hle⟩ := ih
    obtain ⟨added, hadded, hle'⟩ := hedit.sizes_le
    refine ⟨earlier + added, ?_, ?_⟩
    · intro k hk
      rcases Multiset.mem_add.mp hk with hk | hk
      · exact hearlier k hk
      · exact hadded k hk
    · rw [← add_assoc]
      exact hle'.trans (add_le_add_left hle added)

/-! ## What the other tasks do -/

/-- What the measure of a world looks at has stayed as it was. -/
structure World.SameLoad (w w' : World) : Prop where
  plans : w'.plans = w.plans
  registrars : w'.registrars = w.registrars
  presenters : w'.presenters = w.presenters
  hooks : w'.hooks = w.hooks
  notifiers : w'.notifiers = w.notifiers

namespace Machine

variable {m : Machine}

/-- The sizes of all commands that wait. -/
noncomputable def sizes (m : Machine) : Multiset ℕ :=
  m.world.sizes + (m.todo.map Task.sizes).sum

/-- The weight of all tasks, with what the waiting observers will add. -/
def load (calls listeners : ℕ) (m : Machine) : ℕ :=
  2 * m.world.observers + (m.todo.map (Task.weight calls listeners)).sum

/-- One multiset of sizes is reached from another by taking some out, or by
putting smaller ones in the place of larger ones. -/
def Lowers (before after : Multiset ℕ) : Prop :=
  after ≤ before ∨ after.IsDershowitzMannaLT before

/-- What doing a task other than a command leaves: the sizes are not raised,
nothing calls or listens more often, and the task's weight is used up. -/
structure Advances (m : Machine) (t : Task) (m' : Machine) : Prop where
  sizes : Lowers (m.sizes + t.sizes) m'.sizes
  calls : m'.world.calls = m.world.calls
  listeners : m'.world.listeners ≤ m.world.listeners
  load : m'.load m.world.calls m.world.listeners <
    m.load m.world.calls m.world.listeners +
      t.weight m.world.calls m.world.listeners

theorem lowers_singleton {rest smaller : Multiset ℕ} {k : ℕ}
    (h : ∀ j ∈ smaller, j < k) : Lowers (rest + {k}) (rest + smaller) :=
  Or.inr ⟨rest, smaller, {k}, by simp, rfl, rfl,
    fun j hj => ⟨k, by simp, h j hj⟩⟩

/-- A task that changes nothing that is measured, and leaves tasks of less
weight. -/
theorem advances_of_sameLoad {t : Task} {w : World} {r : Reply}
    {tasks : List Task} (same : m.world.SameLoad w)
    (sizes : Lowers (m.sizes + t.sizes)
      (m.sizes + (tasks.map Task.sizes).sum))
    (weight : (tasks.map
        (Task.weight m.world.calls m.world.listeners)).sum <
      t.weight m.world.calls m.world.listeners) :
    Advances m t ⟨w, tasks ++ m.todo, r⟩ := by
  obtain ⟨hplans, hregistrars, hpresenters, hhooks, hnotifiers⟩ := same
  have hsizes : w.sizes = m.world.sizes := by
    simp only [World.sizes, hplans, hregistrars]
  have hobservers : w.observers = m.world.observers := by
    simp only [World.observers, hregistrars]
  constructor
  · have heq : Machine.sizes ⟨w, tasks ++ m.todo, r⟩ =
        m.sizes + (tasks.map Task.sizes).sum := by
      simp only [Machine.sizes, hsizes, List.map_append, List.sum_append]
      rw [add_assoc, add_comm (List.sum (tasks.map Task.sizes))]
    rwa [heq]
  · simp only [World.calls, hpresenters, hhooks]
  · simp only [World.listeners, hnotifiers, le_refl]
  · simp only [Machine.load, hobservers, List.map_append, List.sum_append]
    omega

theorem sameLoad_refl (w : World) : w.SameLoad w :=
  ⟨rfl, rfl, rfl, rfl, rfl⟩

/-- Tasks that carry out no more than the commands of the task that they
replace. -/
theorem lowers_add {before left right : Multiset ℕ} (h : right ≤ left) :
    Lowers (before + left) (before + right) :=
  Or.inl (add_le_add (le_refl before) h)

theorem sameLoad_adopt (w : World) (q : Ref .queryBridge)
    (c : Ref .context) : w.SameLoad (w.adopt q c) := by
  unfold World.adopt
  split <;> exact ⟨rfl, rfl, rfl, rfl, rfl⟩

theorem advances_call (l : Listener) (audience : List Listener)
    (event : Event) :
    Advances m (.deliver (l :: audience) event)
      ((m.push [.deliver audience event]).call l event) := by
  have hweight : deliveryWeight m.world.calls (audience.length + 1) =
      deliveryWeight m.world.calls audience.length +
        (relayWeight m.world.calls + 1) := by
    simp only [deliveryWeight, Nat.succ_mul, add_assoc]
  have hpos : 0 < relayWeight m.world.calls := by
    simp only [relayWeight]
    omega
  -- Nothing follows, or one more task in front of the rest of the audience.
  have hnone {w : World} (same : m.world.SameLoad w) :
      Advances m (.deliver (l :: audience) event)
        ⟨w, [.deliver audience event] ++ m.todo, m.reply⟩ := by
    apply advances_of_sameLoad same (lowers_add (by simp))
    simp only [List.map_cons, List.map_nil, List.sum_cons, List.sum_nil,
      Task.weight_deliver, List.length_cons, hweight]
    omega
  have hone {w : World} {t : Task} (same : m.world.SameLoad w)
      (sizes : t.sizes = 0)
      (weight : t.weight m.world.calls m.world.listeners ≤
        relayWeight m.world.calls) :
      Advances m (.deliver (l :: audience) event)
        ⟨w, [t, .deliver audience event] ++ m.todo, m.reply⟩ := by
    apply advances_of_sameLoad same (lowers_add (by simp [sizes]))
    simp only [List.map_cons, List.map_nil, List.sum_cons, List.sum_nil,
      Task.weight_deliver, List.length_cons, hweight]
    omega
  unfold call
  split
  · split
    · split
      · exact hone ⟨rfl, rfl, rfl, rfl, rfl⟩ rfl hpos
      · exact hnone (sameLoad_refl _)
    · exact hone ⟨rfl, rfl, rfl, rfl, rfl⟩ rfl hpos
  · split
    · exact hone (sameLoad_refl _) rfl (le_refl _)
    · exact hnone (sameLoad_refl _)
  · split
    · simp only [hearChange]
      split
      · split
        · exact hone (sameLoad_adopt _ _ _) rfl (le_refl _)
        · exact hone (sameLoad_refl _) rfl (le_refl _)
      · exact hnone (sameLoad_refl _)
    · exact hnone (sameLoad_refl _)
  · exact hnone (sameLoad_refl _)

theorem listeners_letGo_le (w : World) (o : Object) :
    (w.letGo o).listeners ≤ w.listeners := by
  unfold World.letGo
  split
  · next s hs =>
    have hset := Pool.total_set_add_le (f := Notifier.count) rfl w.notifiers
      s.source ((w.notifiers.get s.source).detach s.id)
    have hcount : ((w.notifiers.get s.source).detach s.id).count ≤
        (w.notifiers.get s.source).count :=
      List.length_filter_le _ _
    have hle : (w.notifiers.set s.source
        ((w.notifiers.get s.source).detach s.id)).total Notifier.count ≤
        w.notifiers.total Notifier.count := by
      omega
    exact hle
  · exact le_refl _

theorem advances_finish (label : Json) (held : List Object) (nested : Bool) :
    Advances m (.finish label held nested) (m.finish label held nested) := by
  have hrelease : ∀ (held : List Object) (m : Machine),
      (held.foldl release m).sizes = m.sizes ∧
        (held.foldl release m).world.calls = m.world.calls ∧
        (held.foldl release m).world.listeners ≤ m.world.listeners ∧
        ∀ c l, (held.foldl release m).load c l = m.load c l := by
    intro held
    induction held with
    | nil => exact fun m => ⟨rfl, rfl, le_refl _, fun c l => rfl⟩
    | cons o rest ih =>
      intro m
      obtain ⟨hsizes, hcalls, hlisteners, hload⟩ := ih (m.release o)
      simp only [List.foldl_cons, hsizes, hcalls, hload]
      unfold release at hlisteners ⊢
      split
      · next h =>
        rw [if_pos h] at hlisteners
        exact ⟨rfl, rfl, hlisteners, fun c l => rfl⟩
      · next h =>
        rw [if_neg h] at hlisteners
        refine ⟨?_, ?_, hlisteners.trans (listeners_letGo_le _ _), ?_⟩
        · simp only [Machine.sizes, World.sizes_letGo]
        · simp only [World.letGo]
          split <;> rfl
        · intro c l
          simp only [Machine.load, World.letGo]
          split <;> rfl
  obtain ⟨hsizes, hcalls, hlisteners, hload⟩ := hrelease held
    (if nested then m.tell (.finished label m.reply) else m)
  have hfinish : m.finish label held nested = held.foldl release
    (if nested then m.tell (.finished label m.reply) else m) := rfl
  rw [hfinish]
  cases nested with
  | false =>
    refine ⟨?_, hcalls, hlisteners, ?_⟩
    · rw [hsizes]
      exact Or.inl (le_of_eq (add_zero m.sizes).symm)
    · rw [hload]
      exact Nat.lt_succ_self _
  | true =>
    refine ⟨?_, hcalls, hlisteners, ?_⟩
    · rw [hsizes]
      exact Or.inl (le_of_eq (add_zero m.sizes).symm)
    · rw [hload]
      exact Nat.lt_succ_self _

/-- A call takes its commands out of the plan. -/
theorem advances_fire (plan : Ref .plan) :
    Advances m (.fire plan) (m.fire plan) := by
  have hset := Pool.total_set_add_le
    (f := fun p : Plan => Schedule.sizes p.schedule) rfl m.world.plans plan
    ⟨(m.world.plans.get plan).schedule.next⟩
  have hcall := (m.world.plans.get plan).schedule.sizes_current_add_next
  have hplans : (m.world.plans.set plan
        ⟨(m.world.plans.get plan).schedule.next⟩).total
        (fun p => Schedule.sizes p.schedule) +
      Command.sizes (m.world.plans.get plan).schedule.current ≤
      m.world.plans.total fun p => Schedule.sizes p.schedule := by
    rw [← hcall, ← add_assoc] at hset
    exact le_of_add_le_add_right hset
  have hsizes : (m.fire plan).sizes ≤ m.sizes := by
    simp only [Machine.sizes, fire, world_push, todo_push, world_modifyWorld,
      todo_modifyWorld, World.sizes, List.map_append, List.sum_append,
      Task.sum_sizes_nested]
    refine le_trans (le_of_eq ?_)
      (add_le_add_left (add_le_add_left hplans _) _)
    ac_rfl
  refine ⟨Or.inl (hsizes.trans (le_of_eq (add_zero _).symm)), rfl, le_refl _, ?_⟩
  simp only [Machine.load, fire, world_push, todo_push, world_modifyWorld,
    todo_modifyWorld, List.map_append, List.sum_append,
    Task.sum_weight_nested, zero_add]
  exact Nat.lt_succ_self _

/-- The waiting observers of a registrar count as long as they wait. -/
theorem observers_add_le (w w' : World) (r : Ref .registrar)
    (registrar : Registrar Reaction)
    (h : w'.registrars = w.registrars.set r registrar) :
    w'.observers + (w.registrars.get r).waiting.length ≤
      w.observers + registrar.waiting.length := by
  rw [World.observers, h]
  exact Pool.total_set_add_le
    (f := fun r : Registrar Reaction => r.waiting.length) rfl w.registrars r
    registrar

theorem sizes_add_le (w w' : World) (r : Ref .registrar)
    (registrar : Registrar Reaction) (plans : w'.plans = w.plans)
    (h : w'.registrars = w.registrars.set r registrar) :
    w'.sizes + ((w.registrars.get r).waiting.map
        fun o => Command.sizes o.onChange.commands).sum ≤
      w.sizes + (registrar.waiting.map
        fun o => Command.sizes o.onChange.commands).sum := by
  have hset := Pool.total_set_add_le (f := fun r : Registrar Reaction =>
    (r.waiting.map fun o => Command.sizes o.onChange.commands).sum)
    rfl w.registrars r registrar
  rw [World.sizes, World.sizes, plans, h, add_assoc, add_assoc]
  exact add_le_add (le_refl _) hset

theorem advances_countAccess (r : Ref .registrar) (property : String) :
    Advances m (.access (.registrar r) property)
      (m.modifyWorld fun w => w.countAccess r property) := by
  set registrar := (m.world.registrars.get r).countAccess property
  have hobservers := observers_add_le m.world
    (m.world.countAccess r property) r registrar rfl
  have hsizes := sizes_add_le m.world
    (m.world.countAccess r property) r registrar rfl rfl
  refine ⟨Or.inl ?_, rfl, le_refl _, ?_⟩
  · refine le_trans ?_ (le_of_eq (add_zero _).symm)
    exact add_le_add_left (le_of_add_le_add_right hsizes) _
  · have hle := Nat.le_of_add_le_add_right hobservers
    exact Nat.lt_succ_of_le
      (Nat.add_le_add_right (Nat.mul_le_mul_left 2 hle) _)

/-- The observers that a change fires are no longer among those that wait. -/
theorem sum_fired_add_waiting {M : Type} [AddCommMonoid M]
    (f : Observer Reaction → M) (r : Registrar Reaction) (property : String) :
    ((r.firedBy property).map f).sum +
        ((r.takeFired property).waiting.map f).sum =
      (r.waiting.map f).sum := by
  have hperm := List.filter_append_perm
    (fun o : Observer Reaction => o.properties.contains property) r.waiting
  have hsum := (hperm.map f).sum_eq
  rwa [List.map_append, List.sum_append] at hsum

theorem sum_weight_react (calls listeners : ℕ)
    (fired : List (Observer Reaction)) :
    ((fired.map fun o => Task.react o.onChange).map
      (Task.weight calls listeners)).sum = fired.length := by
  induction fired with
  | nil => rfl
  | cons o rest ih =>
    simp only [List.map_cons, List.sum_cons, ih, List.length_cons,
      Task.weight]
    omega

theorem advances_countMutation (r : Ref .registrar) (property : String) :
    Advances m (.countMutation r property) (m.countMutation r property) := by
  set fired := m.world.firedBy r property with hfired
  have htodo : (m.countMutation r property).todo =
      (fired.map fun o => Task.react o.onChange) ++ m.todo := rfl
  have hobservers := observers_add_le m.world
    (m.countMutation r property).world r
    (((m.world.registrars.get r).countMutation property).takeFired property) rfl
  have hsizes := sizes_add_le m.world (m.countMutation r property).world r
    (((m.world.registrars.get r).countMutation property).takeFired property)
    rfl rfl
  have hsum : (fired.map fun o => Command.sizes o.onChange.commands).sum +
        ((((m.world.registrars.get r).countMutation property).takeFired
          property).waiting.map
            fun o => Command.sizes o.onChange.commands).sum =
      ((m.world.registrars.get r).waiting.map
        fun o => Command.sizes o.onChange.commands).sum :=
    sum_fired_add_waiting _
      ((m.world.registrars.get r).countMutation property) property
  have hlength := Registrar.length_firedBy_add_waiting
    ((m.world.registrars.get r).countMutation property) property
  refine ⟨Or.inl ?_, rfl, le_refl _, ?_⟩
  · have hcut : (m.countMutation r property).world.sizes +
        (fired.map fun o => Command.sizes o.onChange.commands).sum ≤
        m.world.sizes := by
      rw [← hsum, ← add_assoc] at hsizes
      exact le_of_add_le_add_right hsizes
    have hreact : ((fired.map fun o => Task.react o.onChange).map
          Task.sizes).sum =
        (fired.map fun o => Command.sizes o.onChange.commands).sum := by
      rw [List.map_map]
      rfl
    rw [Machine.sizes, htodo, List.map_append, List.sum_append, hreact,
      ← add_assoc]
    exact le_trans (add_le_add_left hcut _) (le_of_eq (add_zero _).symm)
  · have hfiredLength : fired.length =
        (((m.world.registrars.get r).countMutation property).firedBy
          property).length := rfl
    have hwaiting : ((m.world.registrars.get r).countMutation
        property).waiting = (m.world.registrars.get r).waiting := rfl
    rw [hwaiting] at hlength
    simp only [Machine.load, htodo, List.map_append, List.sum_append,
      sum_weight_react, Task.weight]
    omega

/-- An observer that is registered waits with the commands that the scope
had for it. -/
theorem advances_leaveScope (r : Ref .registrar) (reaction : Reaction) :
    Advances m (.leaveScope r reaction)
      (m.modifyWorld fun w => w.leaveScope r reaction) := by
  set observer : Observer Reaction := ⟨m.world.scopes.collected, reaction⟩
  have hleave : (m.world.leaveScope r reaction).plans = m.world.plans ∧
      (m.world.leaveScope r reaction).registrars =
        m.world.registrars.set r
          ((m.world.registrars.get r).await observer) ∧
      (m.world.leaveScope r reaction).calls = m.world.calls ∧
      (m.world.leaveScope r reaction).listeners = m.world.listeners := by
    simp only [World.leaveScope]
    split <;> exact ⟨rfl, rfl, rfl, rfl⟩
  obtain ⟨hplans, hregistrars, hcalls, hlisteners⟩ := hleave
  have hobservers := observers_add_le _ _ _ _ hregistrars
  have hsizes := sizes_add_le _ _ _ _ hplans hregistrars
  have hlength : ((m.world.registrars.get r).await observer).waiting.length ≤
      (m.world.registrars.get r).waiting.length + 1 := by
    unfold Registrar.await
    split
    · exact Nat.le_succ _
    · simp
  have hsum : (((m.world.registrars.get r).await observer).waiting.map
        fun o => Command.sizes o.onChange.commands).sum ≤
      Command.sizes reaction.commands +
        ((m.world.registrars.get r).waiting.map
          fun o => Command.sizes o.onChange.commands).sum := by
    unfold Registrar.await
    split
    · exact le_add_of_nonneg_left zero_le
    · simp [observer, add_comm]
  refine ⟨Or.inl ?_, hcalls, le_of_eq hlisteners, ?_⟩
  · have hcut : (m.world.leaveScope r reaction).sizes ≤
        m.world.sizes + Command.sizes reaction.commands := by
      refine le_of_add_le_add_right (a := List.sum _) (hsizes.trans ?_)
      rw [add_assoc]
      exact add_le_add (le_refl _) hsum
    refine le_trans (add_le_add_left hcut _) (le_of_eq ?_)
    exact add_right_comm _ _ _
  · have hle : (m.world.leaveScope r reaction).observers ≤
        m.world.observers + 1 := by
      omega
    simp only [Machine.load, world_modifyWorld, todo_modifyWorld, Task.weight]
    omega

/-- What is put around a task that is repeated adds nothing if it carries out
nothing. -/
theorem mem_sizes_of_repeated {before after : List Task} {t : Task} {n k : ℕ}
    (idle : (before.map Task.sizes).sum = 0)
    (idle' : (after.map Task.sizes).sum = 0)
    (h : k ∈ ((before ++ List.replicate n t ++ after).map Task.sizes).sum) :
    k ∈ t.sizes := by
  rw [List.map_append, List.map_append, List.sum_append, List.sum_append, idle,
    idle', zero_add, add_zero, List.map_replicate, List.sum_replicate] at h
  exact Multiset.mem_of_mem_nsmul h

theorem sum_weight_replicate {t : Task} {n calls listeners : ℕ} :
    ((List.replicate n t).map (Task.weight calls listeners)).sum =
      n * t.weight calls listeners := by
  rw [List.map_replicate, List.sum_replicate]
  rfl

/-- Running an invalidation, however often, carries out smaller commands
than it has as a whole. -/
theorem lowers_invalidate {owner : Owner} {property : String}
    {i : Invalidation} {tasks : List Task}
    (h : ∀ k ∈ (tasks.map Task.sizes).sum, k ∈ (Task.invalidate i).sizes) :
    Lowers (m.sizes + (Task.mutate owner property i).sizes)
      (m.sizes + (tasks.map Task.sizes).sum) := by
  cases i with
  | bridge b =>
    refine lowers_add (le_of_eq (Multiset.eq_zero_of_forall_notMem ?_))
    intro k hk
    exact Multiset.notMem_zero k (h k hk)
  | client during =>
    apply lowers_singleton
    intro k hk
    have hlt := Command.lt_sizeOf_of_mem_sizes (h k hk)
    exact hlt.trans (Nat.lt_succ_self _)

theorem advances_mutate (owner : Owner) (property : String)
    (i : Invalidation) :
    Advances m (.mutate owner property i) (m.mutate owner property i) := by
  cases owner with
  | registrar r =>
    refine advances_of_sameLoad (sameLoad_refl _) (lowers_invalidate ?_) ?_
    · intro k hk
      simpa [Task.sizes] using hk
    · simp [Task.weight]
  | hook h =>
    have hcalls := m.world.hook_calls_le h
    simp only [mutate]
    cases (m.world.hooks.get h).forward with
    | some r =>
      refine advances_of_sameLoad ⟨rfl, rfl, rfl, rfl, rfl⟩ (lowers_add ?_) ?_
      · cases i <;> simp [Task.sizes]
      · simp [Task.weight]
        omega
    | none =>
      refine advances_of_sameLoad ⟨rfl, rfl, rfl, rfl, rfl⟩
        (lowers_invalidate fun k hk => ?_) ?_
      · exact mem_sizes_of_repeated (by simp [Task.sizes])
          (by simp [Task.sizes]) hk
      · simp only [List.map_append, List.sum_append, sum_weight_replicate]
        simp [Task.weight]
        omega

/-- A body counts as a whole until it is run. -/
theorem lowers_run {envelope : Envelope} {p : Option (Ref .presenter)}
    {body : Body} {tasks : List Task}
    (h : ∀ k ∈ (tasks.map Task.sizes).sum, k ∈ (Task.run body).sizes) :
    Lowers (m.sizes + (Task.enclose envelope p body).sizes)
      (m.sizes + (tasks.map Task.sizes).sum) := by
  cases body with
  | mutation binding b =>
    refine lowers_add (le_of_eq (Multiset.eq_zero_of_forall_notMem ?_))
    intro k hk
    exact Multiset.notMem_zero k (h k hk)
  | client commands =>
    apply lowers_singleton
    intro k hk
    have hlt := Command.lt_sizeOf_of_mem_sizes (h k hk)
    exact hlt.trans (Nat.lt_succ_self _)

theorem advances_enclose (envelope : Envelope)
    (p : Option (Ref .presenter)) (body : Body) :
    Advances m (.enclose envelope p body) (m.enclose envelope p body) := by
  have hrun : (Task.enclose envelope p body).weight m.world.calls
      m.world.listeners = 12 + m.world.calls +
        m.world.calls * (8 + m.world.calls) := by
    simp only [Task.weight, Nat.succ_mul]
    omega
  unfold enclose
  split
  · refine advances_of_sameLoad (sameLoad_refl _) (lowers_run ?_) ?_
    · intro k hk
      simpa using hk
    · rw [hrun]
      simp [Task.weight]
      omega
  · split
    · next shown _ =>
      refine advances_of_sameLoad ⟨rfl, rfl, rfl, rfl, rfl⟩
        (lowers_run fun k hk => ?_) ?_
      · exact mem_sizes_of_repeated (by simp [Task.sizes])
          (by simp [Task.sizes]) hk
      · have hle := Nat.mul_le_mul_right (8 + m.world.calls)
          (m.world.presenter_calls_le shown)
        rw [hrun]
        simp only [List.map_append, List.sum_append, sum_weight_replicate]
        simp [Task.weight]
        omega
    · refine advances_of_sameLoad ⟨rfl, rfl, rfl, rfl, rfl⟩ (lowers_run ?_) ?_
      · intro k hk
        simpa [Task.sizes] using hk
      · rw [hrun]
        simp [Task.weight]
        omega

theorem advances_run (body : Body) :
    Advances m (.run body) (m.runBody body) := by
  unfold runBody
  split
  · next binding b =>
    refine advances_of_sameLoad (sameLoad_refl _) (lowers_add ?_) ?_
    · simp [Task.sizes]
    · cases binding.owner with
      | registrar r =>
        simp [Task.weight]
        omega
      | hook h => simp [Task.weight]
  · refine advances_of_sameLoad (sameLoad_refl _) (lowers_add ?_) ?_
    · simp [Task.sizes]
    · simp [Task.weight]
      omega
  · next commands =>
    refine advances_of_sameLoad ⟨rfl, rfl, rfl, rfl, rfl⟩ (lowers_add ?_) ?_
    · rw [Task.sum_sizes_nested]
      exact le_refl _
    · rw [Task.sum_weight_nested]
      exact Nat.add_pos_left (by simp) _

theorem sum_sizes_readTasks (w : World) (s : Ref .store) :
    ((readTasks w s).map Task.sizes).sum = 0 := by
  unfold readTasks
  cases (w.stores.get s).onRead <;> simp [Task.sizes]

theorem sum_weight_readTasks_le (calls listeners : ℕ) (w : World)
    (s : Ref .store) :
    ((readTasks w s).map (Task.weight calls listeners)).sum ≤ 1 := by
  unfold readTasks
  cases (w.stores.get s).onRead <;> simp [Task.weight]

theorem sum_sizes_accessTasks (b : Bridge) :
    ((m.accessTasks b).map Task.sizes).sum = 0 := by
  unfold accessTasks
  split <;> simp [Task.sizes]

/-- Most tasks only note something and leave a few tasks of fixed weight. -/
theorem advances_of_tasks {t : Task} {w : World} {r : Reply}
    (tasks : List Task) (same : m.world.SameLoad w)
    (sizes : (tasks.map Task.sizes).sum ≤ t.sizes)
    (weight : (tasks.map
        (Task.weight m.world.calls m.world.listeners)).sum <
      t.weight m.world.calls m.world.listeners) :
    Advances m t ⟨w, tasks ++ m.todo, r⟩ :=
  advances_of_sameLoad same (lowers_add sizes) weight

/-- Others leave none. -/
theorem advances_done {t : Task} {w : World} {r : Reply}
    (same : m.world.SameLoad w)
    (weight : 0 < t.weight m.world.calls m.world.listeners) :
    Advances m t ⟨w, m.todo, r⟩ :=
  advances_of_tasks [] same zero_le weight

theorem deliveryWeight_audience_le (w : World) (calls : ℕ)
    (n : Ref .notifier) :
    deliveryWeight calls (w.audience n).length ≤
      deliveryWeight calls w.listeners := by
  have hmul := Nat.mul_le_mul_right (relayWeight calls + 1)
    (w.length_audience_le n)
  exact Nat.add_le_add_left hmul 1

theorem advances_write (s : Ref .store) (key : String)
    (value : Option StoreValue) :
    Advances m (.write s key value) (m.write s key value) := by
  have hle := deliveryWeight_audience_le m.world m.world.calls
    (m.world.stores.get s).changes
  refine advances_of_tasks [.deliver _ _] ⟨rfl, rfl, rfl, rfl, rfl⟩
    (by simp) ?_
  simp only [List.map_cons, List.map_nil, List.sum_cons, List.sum_nil,
    Task.weight]
  exact Nat.lt_succ_of_le hle

theorem advances_readCache (c : Ref .cache) (outcome : Except Json Json)
    (during : List Command) (mayFail : Bool) :
    Advances m (.readCache c outcome during mayFail)
      (m.readCache c outcome during mayFail) := by
  simp only [readCache]
  split
  · exact advances_done ⟨rfl, rfl, rfl, rfl, rfl⟩ Nat.two_pos
  · refine advances_of_tasks _ ⟨rfl, rfl, rfl, rfl, rfl⟩ ?_ ?_
    · rw [List.map_append, List.sum_append, Task.sum_sizes_nested]
      exact le_of_eq (add_zero _)
    · rw [List.map_append, List.sum_append, Task.sum_weight_nested]
      exact Nat.one_lt_two

theorem advances_readKey (b : Ref .keyBridge) :
    Advances m (.readKey b) (m.readKey b) := by
  simp only [readKey]
  split
  · exact advances_done ⟨rfl, rfl, rfl, rfl, rfl⟩ (by simp [Task.weight])
  · have hweight := sum_weight_readTasks_le m.world.calls
      m.world.listeners m.world (m.world.keyBridges.get b).store
    refine advances_of_tasks _ ⟨rfl, rfl, rfl, rfl, rfl⟩ ?_ ?_
    · rw [List.map_append, List.sum_append, sum_sizes_readTasks]
      simp [Task.sizes]
    · rw [List.map_append, List.sum_append]
      simp [Task.weight]
      omega

theorem advances_settleQuery (q : Ref .queryBridge) (began : UInt64)
    (outcome : Except BridgeError (List Record)) :
    Advances m (.settleQuery q began outcome)
      (m.settleQuery q began outcome) := by
  simp only [settleQuery, missContext]
  split
  · exact advances_done ⟨rfl, rfl, rfl, rfl, rfl⟩ Nat.one_pos
  · split
    · split <;> exact advances_done ⟨rfl, rfl, rfl, rfl, rfl⟩ Nat.one_pos
    · exact advances_done ⟨rfl, rfl, rfl, rfl, rfl⟩ Nat.one_pos

/-- A batch is announced, and its newest token is stored. -/
theorem advances_takeBatch (t : Ref .tracker) :
    Advances m (.takeBatch t) (m.takeBatch t) := by
  simp only [takeBatch]
  split
  · exact advances_done ⟨rfl, rfl, rfl, rfl, rfl⟩ (by simp [Task.weight])
  · next transactions _ =>
    refine advances_of_tasks _ ⟨rfl, rfl, rfl, rfl, rfl⟩ ?_ ?_
    · cases transactions.getLast? with
      | none => simp [Task.sizes]
      | some newest =>
        simp only [Option.map_some, Option.toList_some, storeToken]
        split <;> simp [Task.sizes]
    · cases transactions.getLast? with
      | none =>
        simp [Task.weight]
        omega
      | some newest =>
        simp only [Option.map_some, Option.toList_some, storeToken]
        split
        · simp [Task.weight]
          omega
        · simp [Task.weight]
          omega

theorem advances_announceRemote (t : Ref .tracker) (transactions : ℕ)
    (entities : EntitySet) :
    Advances m (.announceRemote t transactions entities)
      (m.announceRemote t transactions entities) := by
  simp only [announceRemote]
  split
  · exact advances_done (sameLoad_refl _) (by simp [Task.weight])
  · have hle := deliveryWeight_audience_le m.world m.world.calls
      (m.world.trackers.get t).changes
    refine advances_of_tasks [.deliver _ _, _] ⟨rfl, rfl, rfl, rfl, rfl⟩
      (by simp [Task.sizes]) ?_
    simp only [List.map_cons, List.map_nil, List.sum_cons, List.sum_nil,
      Task.weight]
    exact Nat.lt_succ_of_le (Nat.add_le_add_right hle 1)

/-- Every task but the beginning of a command uses up its weight. -/
theorem advances_doTask {t : Task}
    (other : ∀ c nested, t ≠ .perform c nested) :
    Advances m t (m.doTask t) := by
  cases t with
  | perform c nested => exact absurd rfl (other c nested)
  | finish label held nested => exact advances_finish label held nested
  | keep objects => exact advances_done (sameLoad_refl _) Nat.one_pos
  | answer r => exact advances_done (sameLoad_refl _) Nat.one_pos
  | tell h => exact advances_done ⟨rfl, rfl, rfl, rfl, rfl⟩ Nat.one_pos
  | fire plan => exact advances_fire plan
  | deliver audience event =>
    cases audience with
    | nil => exact advances_done (sameLoad_refl _) (by simp [deliveryWeight])
    | cons l rest => exact advances_call l rest event
  | write s key value => exact advances_write s key value
  | access owner property =>
    cases owner with
    | registrar r => exact advances_countAccess r property
    | hook h =>
      refine advances_of_tasks _ ⟨rfl, rfl, rfl, rfl, rfl⟩ ?_ ?_
      · cases (m.world.hooks.get h).forward <;> simp [Task.sizes]
      · cases (m.world.hooks.get h).forward <;> simp [Task.weight]
  | mutate owner property i => exact advances_mutate owner property i
  | countMutation r property => exact advances_countMutation r property
  | react reaction =>
    refine advances_of_tasks _ ⟨rfl, rfl, rfl, rfl, rfl⟩ ?_ ?_
    · rw [Task.sum_sizes_nested]
      exact le_refl _
    · rw [Task.sum_weight_nested]
      exact Nat.one_pos
  | invalidate i =>
    cases i with
    | bridge b =>
      cases b <;> exact advances_done ⟨rfl, rfl, rfl, rfl, rfl⟩ Nat.one_pos
    | client during =>
      refine advances_of_tasks _ ⟨rfl, rfl, rfl, rfl, rfl⟩ ?_ ?_
      · rw [Task.sum_sizes_nested]
        exact le_refl _
      · rw [Task.sum_weight_nested]
        exact Nat.one_pos
  | relay b =>
    refine advances_of_tasks _ ⟨rfl, rfl, rfl, rfl, rfl⟩
      (by simp [Task.sizes]) ?_
    simp [Task.weight, relayWeight]
    omega
  | enclose envelope p body => exact advances_enclose envelope p body
  | run body => exact advances_run body
  | leaveScope r reaction => exact advances_leaveScope r reaction
  | readCache c outcome during mayFail =>
    exact advances_readCache c outcome during mayFail
  | settleCache c began outcome mayFail =>
    cases outcome with
    | ok value => exact advances_done ⟨rfl, rfl, rfl, rfl, rfl⟩ Nat.one_pos
    | error e => exact advances_done (sameLoad_refl _) Nat.one_pos
  | readKey b => exact advances_readKey b
  | settleKey b began stored =>
    simp only [doTask, settleKey, reportFault]
    split <;> exact advances_done ⟨rfl, rfl, rfl, rfl, rfl⟩ Nat.one_pos
  | readQuery q =>
    simp only [doTask, readQuery]
    split
    · exact advances_done ⟨rfl, rfl, rfl, rfl, rfl⟩ (by simp [Task.weight])
    · refine advances_of_tasks _ ⟨rfl, rfl, rfl, rfl, rfl⟩ ?_ ?_
      · cases m.world.resolvedContext q <;> simp [Task.sizes]
      · cases m.world.resolvedContext q <;> simp [Task.weight]
  | askRecords c entity purpose =>
    refine advances_of_tasks _ ⟨rfl, rfl, rfl, rfl, rfl⟩ ?_ ?_
    · cases (m.world.contexts.get c).supervision <;> simp [Task.sizes]
    · cases (m.world.contexts.get c).supervision <;> simp [Task.weight]
  | receive c records purpose =>
    simp only [doTask, receive, conclude]
    split
    · exact advances_of_tasks [_] ⟨rfl, rfl, rfl, rfl, rfl⟩
        (by simp [Task.sizes]) (by simp [Task.weight])
    · split <;> exact advances_done ⟨rfl, rfl, rfl, rfl, rfl⟩ Nat.two_pos
  | settleQuery q began outcome => exact advances_settleQuery q began outcome
  | askHistory t stored =>
    obtain ⟨told, -, htold⟩ := lastToken_eq (m := m) t stored
    simp only [doTask, askHistory, htold]
    refine advances_of_tasks [_, _] ⟨rfl, rfl, rfl, rfl, rfl⟩
      (by simp [Task.sizes]) ?_
    simp [Task.weight]
    omega
  | takeBatch t => exact advances_takeBatch t
  | announceRemote t transactions entities =>
    exact advances_announceRemote t transactions entities
  | answerToken t stored =>
    obtain ⟨told, -, htold⟩ := lastToken_eq (m := m) t stored
    simp only [doTask, answerToken, htold]
    exact advances_done ⟨rfl, rfl, rfl, rfl, rfl⟩ Nat.one_pos

theorem isDershowitzMannaLT_of_le_add {before rest smaller : Multiset ℕ}
    {k : ℕ} (le : before ≤ rest + smaller) (small : ∀ j ∈ smaller, j < k) :
    before.IsDershowitzMannaLT (rest + {k}) := by
  obtain ⟨cut, hcut⟩ := Multiset.le_iff_exists_add.mp le
  have hall : (rest + smaller).IsDershowitzMannaLT (rest + {k}) :=
    ⟨rest, smaller, {k}, by simp, rfl, rfl, fun j hj => ⟨k, by simp, small j hj⟩⟩
  rcases eq_or_ne cut 0 with rfl | hne
  · rwa [hcut, add_zero] at hall
  · refine Multiset.IsDershowitzMannaLT.trans ?_ hall
    exact ⟨before, 0, cut, hne, (add_zero _).symm, hcut, by simp⟩

/-- What a command leaves to be carried out is smaller than the command. -/
theorem Begins.sizes_le {bound : ℕ} {b : Begun} (h : Begins m bound b) :
    ∃ added : Multiset ℕ, (∀ k ∈ added, k < bound) ∧
      b.machine.world.sizes + (b.tasks.map Task.sizes).sum ≤
        m.world.sizes + added := by
  have hnone {w : World} {tasks : List Task} (sizes : w.sizes = m.world.sizes)
      (zero : (tasks.map Task.sizes).sum = 0) :
      ∃ added : Multiset ℕ, (∀ k ∈ added, k < bound) ∧
        w.sizes + (tasks.map Task.sizes).sum ≤ m.world.sizes + added :=
    ⟨0, by simp, by rw [sizes, zero]⟩
  have hread (s : Ref .store) {t : Task} (zero : t.sizes = 0) :
      ((readTasks m.world s ++ [t]).map Task.sizes).sum = 0 := by
    rw [List.map_append, List.sum_append, sum_sizes_readTasks, zero_add]
    simpa using zero
  have haccess (b : Bridge) {t : Task} (zero : t.sizes = 0) :
      ((m.accessTasks b ++ [t]).map Task.sizes).sum = 0 := by
    rw [List.map_append, List.sum_append, sum_sizes_accessTasks, zero_add]
    simpa using zero
  cases h with
  | atOnce r edits =>
    obtain ⟨added, hadded, hle⟩ := edits.sizes_le
    exact ⟨added, hadded, by simpa [Task.sizes] using hle⟩
  | readCache c outcome during mayFail named small =>
    refine ⟨Command.sizes during, ?_, by simp [Task.sizes]⟩
    intro k hk
    have := Command.lt_sizeOf_of_mem_sizes hk
    omega
  | mutate r property during named small =>
    exact ⟨{sizeOf during + 1}, by simpa using small, by simp [Task.sizes]⟩
  | observe r apply reaction named small =>
    refine ⟨Command.sizes apply + Command.sizes reaction.commands, ?_, ?_⟩
    · intro k hk
      rcases Multiset.mem_add.mp hk with hk | hk
      · have := Command.lt_sizeOf_of_mem_sizes hk
        omega
      · have := Command.lt_sizeOf_of_mem_sizes hk
        omega
    · rw [List.map_append, List.sum_append, Task.sum_sizes_nested]
      have htail : (([.leaveScope r reaction, .answer .nothing] :
            List Task).map Task.sizes).sum =
          Command.sizes reaction.commands := by
        simp [Task.sizes]
      rw [htail]
      exact le_refl _
  | runEnvelope envelope p body named small =>
    exact ⟨{sizeOf body + 1}, by simpa using small, by simp [Task.sizes]⟩
  | readDefault key => exact hnone rfl (hread _ rfl)
  | getKey b named => exact hnone rfl (haccess _ rfl)
  | results q named => exact hnone rfl (haccess _ rfl)
  | readToken t next named tracked =>
    rcases tracked with rfl | rfl
    · exact hnone rfl (hread _ rfl)
    · exact hnone rfl (hread _ rfl)
  | announce n event o source made foreign => exact hnone rfl rfl
  | _ => exact hnone rfl (by simp [Task.sizes])

/-- A command makes room for smaller ones. -/
theorem sizes_perform (c : Command) (nested : Bool) :
    (m.perform c nested).sizes.IsDershowitzMannaLT
      (m.sizes + (Task.perform c nested).sizes) := by
  have hsize : sizeOf c.action < sizeOf c := by
    cases c
    simp [Command.action]
  unfold perform
  split
  · next b hb =>
    obtain ⟨added, hadded, hle⟩ := Begins.sizes_le (begins_of_begin hb)
    have hsmall : ∀ j ∈ added, j < sizeOf c :=
      fun j hj => (hadded j hj).trans hsize
    refine isDershowitzMannaLT_of_le_add ?_ hsmall
    have htodo := (begins_of_begin hb).todo_eq
    simp only [Machine.sizes, world_push, todo_push, htodo, List.map_append,
      List.sum_append, List.map_cons, List.map_nil, List.sum_cons,
      List.sum_nil]
    have hfinish : (Task.finish c.label b.held nested).sizes = 0 := rfl
    rw [hfinish, add_zero, add_zero, ← add_assoc, add_right_comm m.world.sizes]
    exact add_le_add_left hle _
  · have hnone : ∀ j ∈ (0 : Multiset ℕ), j < sizeOf c := by simp
    refine isDershowitzMannaLT_of_le_add ?_ hnone
    simp [Machine.sizes, Task.sizes]

/-- What falls with every step: the sizes of the commands that wait, then
the number of listeners, then the weight of the tasks. -/
noncomputable def measure (m : Machine) : Multiset ℕ × ℕ × ℕ :=
  (m.sizes, m.world.listeners, m.load m.world.calls m.world.listeners)

/-- The order in which the measure falls. -/
def Falls : Multiset ℕ × ℕ × ℕ → Multiset ℕ × ℕ × ℕ → Prop :=
  Prod.Lex Multiset.IsDershowitzMannaLT (Prod.Lex (· < ·) (· < ·))

theorem wellFounded_falls : WellFounded Falls :=
  WellFounded.prod_lex Multiset.wellFounded_isDershowitzMannaLT
    (WellFounded.prod_lex wellFounded_lt wellFounded_lt)

theorem falls_of_lowers {before after : Multiset ℕ} {x y : ℕ × ℕ}
    (sizes : Lowers before after) (rest : Prod.Lex (· < ·) (· < ·) y x) :
    Falls (after, y) (before, x) := by
  rcases sizes with hle | hlt
  · obtain ⟨cut, hcut⟩ := Multiset.le_iff_exists_add.mp hle
    rcases eq_or_ne cut 0 with rfl | hne
    · rw [add_zero] at hcut
      rw [hcut]
      exact .right _ rest
    · exact .left _ _ ⟨after, 0, cut, hne, (add_zero _).symm, hcut, by simp⟩
  · exact .left _ _ hlt

theorem measure_step {t : Task} {rest : List Task} (h : m.todo = t :: rest) :
    Falls m.step.measure m.measure := by
  rw [step_of_todo_cons h]
  set n : Machine := { m with todo := rest } with hn
  have hsizes : m.sizes = n.sizes + t.sizes := by
    simp only [Machine.sizes, h, hn, List.map_cons, List.sum_cons]
    rw [add_assoc, add_comm t.sizes]
  by_cases hperform : ∃ c nested, t = .perform c nested
  · obtain ⟨c, nested, rfl⟩ := hperform
    refine .left _ _ ?_
    rw [hsizes]
    exact sizes_perform c nested
  · have hother : ∀ c nested, t ≠ .perform c nested :=
      fun c nested heq => hperform ⟨c, nested, heq⟩
    obtain ⟨sizes, calls, listeners, load⟩ := advances_doTask (m := n) hother
    rw [← hsizes] at sizes
    apply falls_of_lowers sizes
    rcases Nat.lt_or_eq_of_le listeners with hlt | heq
    · exact .left _ _ hlt
    · have hload : m.load m.world.calls m.world.listeners =
          n.load n.world.calls n.world.listeners +
            t.weight n.world.calls n.world.listeners := by
        simp only [Machine.load, h, hn, List.map_cons, List.sum_cons]
        omega
      rw [heq, calls, hload]
      exact .right _ load

/-- The tasks in front are done after finitely many steps, during which what
waits behind them stays where it is. -/
theorem returns (front rest : List Task) (h : m.todo = front ++ rest) :
    ∃ k, (run k m).todo = rest ∧
      ∀ j < k, ∃ ahead, ahead ≠ [] ∧ (run j m).todo = ahead ++ rest := by
  induction hx : m.measure using wellFounded_falls.induction
    generalizing m front with
  | h x ih =>
    cases front with
    | nil => exact ⟨0, h, by simp⟩
    | cons t ahead =>
      have hstep := measure_step h
      obtain ⟨pushed, hpushed, -⟩ := todo_step h
      have hnext : m.step.todo = (pushed ++ ahead) ++ rest := by
        rw [hpushed, List.append_assoc]
        rfl
      rw [hx] at hstep
      obtain ⟨k, hdone, hwait⟩ := ih _ hstep _ hnext rfl
      refine ⟨k + 1, ?_, ?_⟩
      · rw [run_add, run_succ, run_zero]
        exact hdone
      · intro j hj
        cases j with
        | zero => exact ⟨t :: ahead, by simp, h⟩
        | succ j =>
          rw [run_add, run_succ, run_zero]
          exact hwait j (Nat.lt_of_succ_lt_succ hj)

/-- The same, for the steps of a run. -/
theorem returns_run {n : ℕ} {front rest : List Task}
    (h : (run n m).todo = front ++ rest) :
    ∃ j, n ≤ j ∧ (run j m).todo = rest ∧
      ∀ k, n ≤ k → k < j →
        ∃ ahead, ahead ≠ [] ∧ (run k m).todo = ahead ++ rest := by
  obtain ⟨j, hdone, hahead⟩ := returns front rest h
  refine ⟨j + n, Nat.le_add_left n j, by rw [run_add, hdone], ?_⟩
  intro k hnk hkj
  obtain ⟨l, rfl⟩ := Nat.exists_eq_add_of_le' hnk
  rw [run_add]
  exact hahead l (by omega)

/-- A task that a step leaves behind others has its turn when all that these
led to is done. -/
theorem exists_waits {front rest : List Task} {t : Task} {i : ℕ}
    (put : (run (i + 1) m).todo = front ++ t :: rest) :
    ∃ j, m.Waits t rest i j := by
  obtain ⟨j, hij, hturn, hahead⟩ := returns_run put
  exact ⟨j, waits_of_ahead hij hturn hahead⟩

theorem exists_waits_cons {x t : Task} {rest : List Task} {i : ℕ}
    (put : (run (i + 1) m).todo = x :: t :: rest) :
    ∃ j, m.Waits t rest i j := by
  have hput : (run (i + 1) m).todo = [x] ++ t :: rest := put
  exact exists_waits hput

/-- Every run comes to an end. -/
theorem halts (m : Machine) : ∃ k, (run k m).todo = [] := by
  obtain ⟨k, hdone, -⟩ := returns (m := m) m.todo [] (by simp)
  exact ⟨k, hdone⟩

end Machine
end LiveProperty
