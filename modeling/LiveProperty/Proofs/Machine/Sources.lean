import LiveProperty.Proofs.Machine.References

/-!
# Every store has a notifier of its own

No two stores announce their writes on one notifier, and a key bridge is
attached to the notifier of its own store and to no other one of a store.
So it does not hear of the writes of other stores.
-/

namespace LiveProperty

variable {w w' : World}

/-- Stores announce their writes on different notifiers, and the key bridges
that are attached there are bridges over that store. -/
structure World.Apart (w : World) : Prop where
  below : ∀ s : Ref .store, (w.stores.get s).changes.index < w.notifiers.next
  distinct : ∀ s t : Ref .store, t.index < w.stores.next →
    (w.stores.get s).changes = (w.stores.get t).changes → s = t
  attached : ∀ s : Ref .store,
    ∀ entry ∈ (w.notifiers.get (w.stores.get s).changes).listeners,
    ∀ b, entry.2 = .keyBridge b → (w.keyBridges.get b).store = s

namespace World.Apart

/-- What decides: the notifiers, and where stores announce and bridges look. -/
theorem congr (apart : w.Apart) (notifiers : w'.notifiers = w.notifiers)
    (next : w'.stores.next = w.stores.next)
    (changes : ∀ s, (w'.stores.get s).changes = (w.stores.get s).changes)
    (store : ∀ b, (w'.keyBridges.get b).store = (w.keyBridges.get b).store) :
    w'.Apart := by
  obtain ⟨below, distinct, attached⟩ := apart
  constructor
  · intro s
    rw [changes, notifiers]
    exact below s
  · intro s t ht h
    rw [changes, changes] at h
    exact distinct s t (next ▸ ht) h
  · intro s entry hentry b hb
    rw [changes, notifiers] at hentry
    rw [store]
    exact attached s entry hentry b hb

/-- Detaching a listener attaches none. -/
theorem detach (apart : w.Apart) (source : Ref .notifier)
    (id : SubscriberId) : (w.detach source id).Apart :=
  ⟨apart.below, apart.distinct, fun s entry hentry =>
    apart.attached s entry (listeners_detach hentry)⟩

theorem addNotifier (apart : w.Apart) : w.addNotifier.Apart :=
  ⟨fun s => Nat.lt_succ_of_lt (apart.below s), apart.distinct,
    fun s entry hentry => apart.attached s entry (listeners_addNotifier hentry)⟩

theorem subscribe (apart : w.Apart) (source : Ref .notifier) {l : Listener}
    (other : ∀ b, l ≠ .keyBridge b) : (w.subscribe source l).Apart := by
  refine ⟨apart.below, apart.distinct, fun s entry hentry b hb => ?_⟩
  rcases listeners_subscribe hentry with rfl | hentry
  · exact absurd hb (other b)
  · exact apart.attached s entry hentry b hb

/-- A new store announces where nobody is attached. -/
theorem addStore (apart : w.Apart) (label suite : Option String)
    (onRead : Option (Ref .plan)) : (w.addStore label suite onRead).Apart := by
  have hnew : (w.addStore label suite onRead).stores.get w.stores.fresh =
      ⟨label, suite, [], w.notifiers.fresh, onRead⟩ := Pool.get_add_fresh _ _
  have hold {s : Ref .store} (hs : s ≠ w.stores.fresh) :
      (w.addStore label suite onRead).stores.get s = w.stores.get s :=
    Pool.get_add_of_ne _ hs
  have hne (s : Ref .store) :
      (w.stores.get s).changes ≠ w.notifiers.fresh := by
    intro heq
    have hlt := apart.below s
    rw [heq] at hlt
    exact Nat.lt_irrefl _ hlt
  constructor
  · intro s
    by_cases hs : s = w.stores.fresh
    · rw [hs, hnew]
      exact Nat.lt_succ_self _
    · rw [hold hs]
      exact Nat.lt_succ_of_lt (apart.below s)
  · intro s t ht h
    by_cases hs : s = w.stores.fresh
    · by_cases ht' : t = w.stores.fresh
      · rw [hs, ht']
      · rw [hs, hnew, hold ht'] at h
        exact absurd h.symm (hne t)
    · rcases Pool.eq_fresh_or_lt ht with rfl | hlt
      · rw [hold hs, hnew] at h
        exact absurd h (hne s)
      · rw [hold hs, hold (Pool.ne_fresh_of_lt hlt)] at h
        exact apart.distinct s t hlt h
  · intro s entry hentry b hb
    by_cases hs : s = w.stores.fresh
    · rw [hs, hnew] at hentry
      have hblank : w.addNotifier.notifiers.get w.notifiers.fresh = {} :=
        Pool.get_add_fresh _ _
      have hentry : entry ∈
          (w.addNotifier.notifiers.get w.notifiers.fresh).listeners := hentry
      rw [hblank] at hentry
      exact absurd hentry List.not_mem_nil
    · rw [hold hs] at hentry
      exact apart.attached s entry (listeners_addNotifier hentry) b hb

/-- A new key bridge is attached to the notifier of its store. -/
theorem newKeyBridge (apart : w.Apart) (sound : w.Sound) {k : KeyBridge}
    (made : k.store.index < w.stores.next) :
    World.Apart { w.subscribe (w.stores.get k.store).changes
        (.keyBridge w.keyBridges.fresh) with
      keyBridges := w.keyBridges.add k } := by
  refine ⟨apart.below, apart.distinct, fun s entry hentry b hb => ?_⟩
  rcases listeners_subscribe (w := w) hentry with rfl | hold
  · cases hb
    have hnew : (w.keyBridges.add k).get w.keyBridges.fresh = k :=
      Pool.get_add_fresh _ _
    rw [hnew]
    by_contra hne
    -- The bridge was not attached before it was made.
    have hsame : (w.stores.get s).changes = (w.stores.get k.store).changes := by
      by_contra hother
      have hlisteners : (w.subscribe (w.stores.get k.store).changes
          (.keyBridge w.keyBridges.fresh)).notifiers.get
            (w.stores.get s).changes =
          w.notifiers.get (w.stores.get s).changes :=
        Pool.get_modify_of_ne _ hother
      have hold : (w.freshSubscriber, Listener.keyBridge w.keyBridges.fresh) ∈
          (w.notifiers.get (w.stores.get s).changes).listeners :=
        hlisteners ▸ hentry
      have hhas := sound.listeners _ _ hold (.keyBridge w.keyBridges.fresh)
        List.mem_cons_self
      exact Nat.lt_irrefl _ hhas
    exact hne (apart.distinct s k.store made hsame).symm
  · have hhas : w.Has (.keyBridge b) :=
      sound.listeners _ entry hold _ (by simp [hb, Listener.objects])
    have hget : (w.keyBridges.add k).get b = w.keyBridges.get b :=
      Pool.get_add_of_lt _ hhas
    rw [hget]
    exact apart.attached s entry hold b hb

end World.Apart

/-! ## Every step -/

variable {todo : List Task} {bound : ℕ} {loose : Object → Prop}

theorem Edit.apart (h : Edit todo bound loose w w') (sound : w.Sound)
    (apart : w.Apart) : w'.Apart := by
  have hsame {x : World} (notifiers : x.notifiers = w.notifiers)
      (stores : x.stores = w.stores)
      (keyBridges : x.keyBridges = w.keyBridges) :
      x.Apart :=
    apart.congr notifiers (by rw [stores]) (fun s => by rw [stores])
      fun b => by rw [keyBridges]
  cases h with
  | letGo o free known =>
    rcases w.letGo_eq o with heq | ⟨s, -, heq⟩
    · rwa [heq]
    · rw [heq]
      exact apart.detach s.source s.id
  | detach n s named => exact apart.detach n s.id
  | newNotifier name =>
    exact apart.addNotifier.congr rfl rfl (fun _ => rfl) fun _ => rfl
  | newBus name =>
    exact apart.addNotifier.congr rfl rfl (fun _ => rfl) fun _ => rfl
  | subscribe name n script onlyKey small =>
    have hplan : (w.addPlan script).Apart := hsame rfl rfl rfl
    exact (hplan.subscribe n (by simp)).congr rfl rfl (fun _ => rfl)
      fun _ => rfl
  | newStore name suite onRead small =>
    have hplan : (w.addPlan onRead).Apart := hsame rfl rfl rfl
    exact (hplan.addStore _ _ _).congr rfl rfl (fun _ => rfl) fun _ => rfl
  | resetDefaultStore =>
    exact (apart.addStore _ _ _).congr rfl rfl (fun _ => rfl) fun _ => rfl
  | newKeyBridge name k offered empty unbound subscribed =>
    exact (apart.newKeyBridge sound (sound.has_of_offers offered)).congr rfl
      rfl (fun _ => rfl) fun _ => rfl
  | bindKeyBridge b binding named =>
    exact apart.congr rfl rfl (fun _ => rfl) fun _ =>
      Pool.apply_get_modify (g := KeyBridge.store) fun _ => rfl
  | newQueryBridge name q named empty unbound silent bus subscribed =>
    exact (apart.subscribe q.subscription.source (by simp)).congr rfl rfl
      (fun _ => rfl) fun _ => rfl
  | _ => exact hsame rfl rfl rfl

theorem Edits.apart (h : Edits todo bound loose w w') (sound : w.Sound)
    (apart : w.Apart) : w'.Apart := by
  induction h with
  | refl => exact apart
  | tail hedits hedit ih => exact hedit.apart (Edits.sound hedits sound) ih

theorem Effect.apart {m : Machine} {t : Task} (h : Effect m t w)
    (sound : m.world.Sound) (apart : m.world.Apart) : w.Apart := by
  have hsame {x : World} (notifiers : x.notifiers = m.world.notifiers)
      (stores : x.stores = m.world.stores)
      (keyBridges : x.keyBridges = m.world.keyBridges) : x.Apart :=
    apart.congr notifiers (by rw [stores]) (fun s => by rw [stores])
      fun b => by rw [keyBridges]
  cases h with
  | edits t loose known edits => exact edits.apart sound apart
  | adopt q audience change origin alive affects =>
    unfold World.adopt
    split <;> exact hsame rfl rfl rfl
  | write s key value =>
    exact apart.congr rfl rfl (fun _ =>
      Pool.apply_get_modify (g := Store.changes)
        fun store => Store.changes_write store key value) fun _ => rfl
  | leaveScope r reaction =>
    simp only [World.leaveScope]
    split <;> exact hsame rfl rfl rfl
  | invalidate b =>
    cases b with
    | key r =>
      exact apart.congr rfl rfl (fun _ => rfl) fun _ =>
        Pool.apply_get_modify (g := KeyBridge.store) fun _ => rfl
    | query q => exact hsame rfl rfl rfl
  | settleKey b began stored told remarks =>
    exact apart.congr rfl rfl (fun _ => rfl) fun _ =>
      Pool.apply_get_set (g := KeyBridge.store) rfl
  | _ => exact hsame rfl rfl rfl

namespace Machine

variable {m : Machine}

theorem apart_step (sound : m.Sound) (apart : m.world.Apart) :
    m.step.world.Apart := by
  cases h : m.todo with
  | nil => rwa [step_of_todo_nil h]
  | cons t rest => exact (effect_step h).apart sound.world apart

theorem apart_initial : World.initial.Apart := by
  have hstore (s : Ref .store) (h : s ≠ ⟨0⟩) :
      World.initial.stores.get s = default := by
    apply Pool.get_of_forall_ne
    rintro entry hentry heq
    obtain rfl := List.mem_singleton.mp hentry
    obtain ⟨i⟩ := s
    exact h (congrArg Ref.mk heq.symm)
  have hblank (n : Ref .notifier) :
      (World.initial.notifiers.get n).listeners = [] := by
    obtain ⟨_ | _ | i⟩ := n <;> rfl
  constructor
  · intro s
    by_cases hs : s = ⟨0⟩
    · rw [hs]
      decide
    · rw [hstore s hs]
      decide
  · intro s t ht h
    obtain rfl : t = ⟨0⟩ := by
      obtain ⟨i⟩ := t
      exact congrArg Ref.mk (Nat.lt_one_iff.mp ht)
    by_contra hs
    rw [hstore s hs] at h
    exact absurd h (by decide)
  · intro s entry hentry
    rw [hblank] at hentry
    exact absurd hentry List.not_mem_nil

theorem apart_run (commands : List Command) (n : ℕ) :
    (run n (ofCommands commands)).world.Apart :=
  run_induction (P := fun m => m.world.Apart) apart_initial
    (fun k => apart_step (sound_run commands k)) n

end Machine
end LiveProperty
