import LiveProperty.Proofs.Machine.Effects
import LiveProperty.Proofs.Machine.Runs
import LiveProperty.Proofs.Pools

/-!
# References lead to what was made

A world hands out a reference when it makes an object, and from then on the
object is there.  So whatever a name, a listener, an object or a task of a
running world refers to was made before.
-/

namespace LiveProperty

/-- The bridge that a listener tells. -/
def Listener.objects : Listener → List Object
  | .client .. => []
  | .keyBridge b => [.keyBridge b]
  | .queryBridge q => [.queryBridge q]

namespace World

variable {w : World}

/-- Whether an object was made.  A subscription is nothing but two numbers
and is not kept anywhere. -/
def Has (w : World) : Object → Prop
  | .cache r => r.index < w.caches.next
  | .notifier r => r.index < w.notifiers.next
  | .bus r => r.index < w.notifiers.next
  | .subscription _ => True
  | .store r => r.index < w.stores.next
  | .keyBridge r => r.index < w.keyBridges.next
  | .registrar r => r.index < w.registrars.next
  | .hook r => r.index < w.hooks.next
  | .presenter r => r.index < w.presenters.next
  | .context r => r.index < w.contexts.next
  | .queryBridge r => r.index < w.queryBridges.next
  | .tracker r => r.index < w.trackers.next

/-- What a world refers to was made. -/
structure Sound (w : World) : Prop where
  names : ∀ o, w.isNamed o → w.Has o
  listeners : ∀ n, ∀ entry ∈ (w.notifiers.get n).listeners,
    ∀ o ∈ entry.2.objects, w.Has o
  sharedBus : w.sharedBus.index < w.notifiers.next
  defaultStore : w.defaultStore.index < w.stores.next
  defaultContext : ∀ c, w.defaultContext = some c → c.index < w.contexts.next
  changes : ∀ s : Ref .store, s.index < w.stores.next →
    (w.stores.get s).changes.index < w.notifiers.next
  hooks : ∀ h : Ref .hook, h.index < w.hooks.next →
    ∀ r, (w.hooks.get h).forward = some r → r.index < w.registrars.next
  keyBridges : ∀ b : Ref .keyBridge, b.index < w.keyBridges.next →
    (w.keyBridges.get b).store.index < w.stores.next
  /-- A key bridge listens to its own store. -/
  sources : ∀ b : Ref .keyBridge, b.index < w.keyBridges.next →
    (w.keyBridges.get b).subscription.source =
      (w.stores.get (w.keyBridges.get b).store).changes
  buses : ∀ q : Ref .queryBridge, q.index < w.queryBridges.next →
    (w.queryBridges.get q).subscription.source.index < w.notifiers.next
  contexts : ∀ q : Ref .queryBridge, q.index < w.queryBridges.next →
    ∀ c, (w.queryBridges.get q).context = some c → c.index < w.contexts.next
  trackers : ∀ t : Ref .tracker, t.index < w.trackers.next →
    (w.trackers.get t).store.index < w.stores.next

theorem isNamed_bindName {name : String} {n : Named} {o : Object}
    (h : (w.bindName name n).isNamed o) : n = .object o ∨ w.isNamed o := by
  obtain ⟨entry, hentry, ho⟩ := List.any_eq_true.mp h
  rcases Dictionary.mem_put hentry with rfl | hold
  · exact Or.inl (of_decide_eq_true ho)
  · exact Or.inr (List.any_eq_true.mpr ⟨entry, hold, ho⟩)

theorem isNamed_unbindName {name : String} {o : Object}
    (h : (w.unbindName name).isNamed o) : w.isNamed o := by
  obtain ⟨entry, hentry, ho⟩ := List.any_eq_true.mp h
  exact List.any_eq_true.mpr ⟨entry, Dictionary.mem_of_mem_erase hentry, ho⟩

/-- Letting an object go is at most a detaching of one listener. -/
theorem letGo_eq (o : Object) :
    w.letGo o = w ∨ ∃ s, w.subscriptionOf? o = some s ∧
      w.letGo o = w.detach s.source s.id := by
  cases h : w.subscriptionOf? o with
  | none => exact Or.inl (by simp [letGo, h])
  | some s => exact Or.inr ⟨s, rfl, by simp [letGo, h]⟩

theorem listeners_detach {n source : Ref .notifier} {id : SubscriberId}
    {entry : SubscriberId × Listener}
    (h : entry ∈ ((w.detach source id).notifiers.get n).listeners) :
    entry ∈ (w.notifiers.get n).listeners := by
  by_cases hn : n = source
  · subst hn
    have hself : (w.detach n id).notifiers.get n =
        (w.notifiers.get n).detach id := Pool.get_modify_self _
    rw [hself] at h
    exact (Notifier.mem_detach.mp h).1
  · have hother : (w.detach source id).notifiers.get n = w.notifiers.get n :=
      Pool.get_modify_of_ne _ hn
    rwa [hother] at h

theorem listeners_subscribe {n source : Ref .notifier} {l : Listener}
    {entry : SubscriberId × Listener}
    (h : entry ∈ ((w.subscribe source l).notifiers.get n).listeners) :
    entry = (w.freshSubscriber, l) ∨ entry ∈ (w.notifiers.get n).listeners := by
  by_cases hn : n = source
  · subst hn
    have hself : (w.subscribe n l).notifiers.get n =
        (w.notifiers.get n).attach w.freshSubscriber l := Pool.get_modify_self _
    rw [hself] at h
    rcases List.mem_append.mp h with h | h
    · exact Or.inr h
    · exact Or.inl (List.mem_singleton.mp h)
  · have hother : (w.subscribe source l).notifiers.get n = w.notifiers.get n :=
      Pool.get_modify_of_ne _ hn
    rw [hother] at h
    exact Or.inr h

theorem listeners_addNotifier {n : Ref .notifier}
    {entry : SubscriberId × Listener}
    (h : entry ∈ (w.addNotifier.notifiers.get n).listeners) :
    entry ∈ (w.notifiers.get n).listeners := by
  by_cases hn : n = w.notifiers.fresh
  · subst hn
    have hnew : w.addNotifier.notifiers.get w.notifiers.fresh = {} :=
      Pool.get_add_fresh _ _
    rw [hnew] at h
    exact absurd h List.not_mem_nil
  · have hother : w.addNotifier.notifiers.get n = w.notifiers.get n :=
      Pool.get_add_of_ne _ hn
    rwa [hother] at h

end World

/-! ## Commands -/

variable {todo : List Task} {bound : ℕ} {loose : Object → Prop} {w w' : World}

/-- What was made stays. -/
theorem Edit.has (h : Edit todo bound loose w w') {o : Object}
    (ho : w.Has o) : w'.Has o := by
  cases h with
  | letGo x free known =>
    rcases w.letGo_eq x with heq | ⟨s, -, heq⟩
    · rwa [heq]
    · rw [heq]
      exact ho
  | _ => cases o <;> first | exact ho | exact Nat.lt_succ_of_lt ho

theorem Edits.has (h : Edits todo bound loose w w') {o : Object}
    (ho : w.Has o) : w'.Has o := by
  induction h with
  | refl => exact ho
  | tail _ hedit ih => exact hedit.has ih

/-- A new name stands for an object that was just made. -/
theorem Edit.sound_names (h : Edit todo bound loose w w') (sound : w.Sound) :
    ∀ o, w'.isNamed o → w'.Has o := by
  have hold : ∀ {o}, w.isNamed o → w'.Has o :=
    fun ho => h.has (sound.names _ ho)
  -- An edit that gives a name to the given object.
  have hbind {x : World} {name : String} {made : Object}
      (names : x.names = w.names) (has : w'.Has made)
      {o : Object} (ho : (x.bindName name (.object made)).isNamed o) :
      w'.Has o := by
    rcases World.isNamed_bindName ho with heq | ho
    · cases heq
      exact has
    · apply hold
      rwa [World.isNamed, names] at ho
  intro o ho
  cases h with
  | letGo x free known =>
    apply hold
    rcases w.letGo_eq x with heq | ⟨s, -, heq⟩
    · rwa [heq] at ho
    · rw [heq] at ho
      exact ho
  | bindValue name n plain =>
    rcases World.isNamed_bindName ho with heq | ho
    · exact absurd heq (plain o)
    · exact hold ho
  | unbindName name => exact hold (World.isNamed_unbindName ho)
  | newCache name => exact hbind rfl (Nat.lt_succ_self _) ho
  | newNotifier name => exact hbind rfl (Nat.lt_succ_self _) ho
  | newBus name => exact hbind rfl (Nat.lt_succ_self _) ho
  | subscribe name n script onlyKey small =>
    rcases World.isNamed_bindName ho with heq | ho
    · cases heq
      exact trivial
    · exact hold ho
  | newStore name suite onRead small =>
    exact hbind rfl (Nat.lt_succ_self _) ho
  | newKeyBridge name b offered empty unbound subscribed =>
    exact hbind rfl (Nat.lt_succ_self _) ho
  | newRegistrar name => exact hbind rfl (Nat.lt_succ_self _) ho
  | newHook name onAccess before after calls forward named small =>
    exact hbind rfl (Nat.lt_succ_self _) ho
  | newPresenter name before after calls small =>
    exact hbind rfl (Nat.lt_succ_self _) ho
  | newContext name changes namesItself =>
    exact hbind rfl (Nat.lt_succ_self _) ho
  | newSupervisedContext name changes onFetch failures error small =>
    exact hbind rfl (Nat.lt_succ_self _) ho
  | newQueryBridge name q named empty unbound silent bus subscribed =>
    exact hbind rfl (Nat.lt_succ_self _) ho
  | newTracker name store key changes batches onCall named small =>
    exact hbind rfl (Nat.lt_succ_self _) ho
  | _ => exact hold ho

theorem Edit.sound_listeners (h : Edit todo bound loose w w')
    (sound : w.Sound) :
    ∀ n, ∀ entry ∈ (w'.notifiers.get n).listeners,
      ∀ o ∈ entry.2.objects, w'.Has o := by
  have hold : ∀ {n} {entry}, entry ∈ (w.notifiers.get n).listeners →
      ∀ o ∈ entry.2.objects, w'.Has o :=
    fun hentry o ho => h.has (sound.listeners _ _ hentry o ho)
  intro n entry hentry
  cases h with
  | letGo x free known =>
    apply hold (n := n)
    rcases w.letGo_eq x with heq | ⟨s, -, heq⟩
    · rwa [heq] at hentry
    · rw [heq] at hentry
      exact World.listeners_detach hentry
  | detach source s named => exact hold (World.listeners_detach hentry)
  | newNotifier name => exact hold (World.listeners_addNotifier hentry)
  | newBus name => exact hold (World.listeners_addNotifier hentry)
  | newStore name suite onRead small =>
    exact hold (World.listeners_addNotifier (w := w) hentry)
  | resetDefaultStore =>
    exact hold (World.listeners_addNotifier (w := w) hentry)
  | subscribe name source script onlyKey small =>
    rcases World.listeners_subscribe (w := w.addPlan script) hentry with
      rfl | hentry
    · simp [Listener.objects]
    · exact hold hentry
  | newKeyBridge name b offered empty unbound subscribed =>
    rcases World.listeners_subscribe (w := w) hentry with rfl | hentry
    · intro o ho
      rw [List.mem_singleton.mp ho]
      exact Nat.lt_succ_self _
    · exact hold hentry
  | newQueryBridge name q named empty unbound silent bus subscribed =>
    rcases World.listeners_subscribe (w := w) hentry with rfl | hentry
    · intro o ho
      rw [List.mem_singleton.mp ho]
      exact Nat.lt_succ_self _
    · exact hold hentry
  | _ => exact hold hentry

/-- A store that a client can speak of was made. -/
theorem World.Sound.has_of_offers (sound : w.Sound) {s : Ref .store}
    (h : w.Offers s) : s.index < w.stores.next := by
  rcases h with h | rfl | ⟨b, hb, rfl⟩
  · exact sound.names _ h
  · exact sound.defaultStore
  · exact sound.keyBridges b (sound.names _ hb)

/-- A new store has a notifier of its own. -/
theorem World.Sound.changes_addStore (sound : w.Sound)
    (label suite : Option String) (onRead : Option (Ref .plan)) :
    ∀ s : Ref .store, s.index < (w.addStore label suite onRead).stores.next →
      ((w.addStore label suite onRead).stores.get s).changes.index <
        (w.addStore label suite onRead).notifiers.next := by
  intro s hs
  rcases Pool.eq_fresh_or_lt hs with rfl | hs
  · have hnew : (w.addStore label suite onRead).stores.get w.stores.fresh =
        ⟨label, suite, [], w.notifiers.fresh, onRead⟩ := Pool.get_add_fresh _ _
    rw [hnew]
    exact Nat.lt_succ_self _
  · have hold : (w.addStore label suite onRead).stores.get s =
        w.stores.get s := Pool.get_add_of_lt _ hs
    rw [hold]
    exact Nat.lt_succ_of_lt (sound.changes s hs)

theorem World.Sound.sources_addStore (sound : w.Sound)
    (label suite : Option String) (onRead : Option (Ref .plan)) :
    ∀ b : Ref .keyBridge, b.index < w.keyBridges.next →
      (w.keyBridges.get b).subscription.source =
        ((w.addStore label suite onRead).stores.get
          (w.keyBridges.get b).store).changes := by
  intro b hb
  have hold : (w.addStore label suite onRead).stores.get
      (w.keyBridges.get b).store = w.stores.get (w.keyBridges.get b).store :=
    Pool.get_add_of_lt _ (sound.keyBridges b hb)
  rw [hold]
  exact sound.sources b hb

namespace World.Sound

variable {w : World}

/-- A key bridge may change as long as it keeps its store and its
subscription. -/
theorem set_keyBridge (sound : w.Sound) {journal : List Happening}
    {b : Ref .keyBridge} {k : KeyBridge}
    (store : k.store = (w.keyBridges.get b).store)
    (subscription : k.subscription = (w.keyBridges.get b).subscription) :
    World.Sound { w with keyBridges := w.keyBridges.set b k, journal } := by
  refine { sound with keyBridges := ?_, sources := ?_ }
  · refine Pool.forall_set
      (P := fun _ (k : KeyBridge) => k.store.index < w.stores.next) ?_
      sound.keyBridges
    rw [store]
    exact sound.keyBridges b
  · refine Pool.forall_set (P := fun _ (k : KeyBridge) =>
      k.subscription.source = (w.stores.get k.store).changes) ?_ sound.sources
    rw [store, subscription]
    exact sound.sources b

/-- A query bridge may change as long as it keeps its subscription, and its
context is one that was made. -/
theorem set_queryBridge (sound : w.Sound) {journal : List Happening}
    {q : Ref .queryBridge} {k : QueryBridge}
    (subscription : k.subscription = (w.queryBridges.get q).subscription)
    (context : ∀ c, k.context = some c →
      (w.queryBridges.get q).context = some c ∨ c.index < w.contexts.next) :
    World.Sound
      { w with queryBridges := w.queryBridges.set q k, journal } := by
  refine { sound with buses := ?_, contexts := ?_ }
  · refine Pool.forall_set (P := fun _ (k : QueryBridge) =>
      k.subscription.source.index < w.notifiers.next) ?_ sound.buses
    rw [subscription]
    exact sound.buses q
  · refine Pool.forall_set (P := fun _ (k : QueryBridge) =>
      ∀ c : Ref .context, k.context = some c → c.index < w.contexts.next) ?_
      sound.contexts
    intro hq c hc
    rcases context c hc with hold | hnew
    · exact sound.contexts q hq c hold
    · exact hnew

theorem set_tracker (sound : w.Sound) {journal : List Happening}
    {r : Ref .tracker} {t : Tracker}
    (store : t.store = (w.trackers.get r).store) :
    World.Sound { w with trackers := w.trackers.set r t, journal } := by
  refine { sound with trackers := ?_ }
  refine Pool.forall_set
    (P := fun _ (t : Tracker) => t.store.index < w.stores.next) ?_
    sound.trackers
  rw [store]
  exact sound.trackers r

theorem writeValue (sound : w.Sound) (s : Ref .store) (key : String)
    (value : Option StoreValue) : (w.writeValue s key value).Sound := by
  have hchanges : ∀ q, ((w.writeValue s key value).stores.get q).changes =
      (w.stores.get q).changes := fun q =>
    Pool.apply_get_modify (g := Store.changes)
      fun store => Store.changes_write store key value
  refine { sound with changes := ?_, sources := ?_ }
  · intro q hq
    rw [hchanges]
    exact sound.changes q hq
  · intro b hb
    rw [hchanges]
    exact sound.sources b hb

end World.Sound

/-- What a command does at once leaves no reference without its object. -/
theorem Edit.sound (h : Edit todo bound loose w w') (sound : w.Sound) :
    w'.Sound := by
  have names := h.sound_names sound
  have listeners := h.sound_listeners sound
  -- Only what the edit changes is given; the rest is as it was.
  cases h with
  | letGo x free known =>
    rcases w.letGo_eq x with heq | ⟨s, -, heq⟩
    · rwa [heq]
    · rw [heq] at names listeners ⊢
      exact { sound with names, listeners }
  | newNotifier name | newBus name =>
    exact { sound with
      names, listeners
      sharedBus := Nat.lt_succ_of_lt sound.sharedBus
      changes := fun s hs => Nat.lt_succ_of_lt (sound.changes s hs)
      buses := fun q hq => Nat.lt_succ_of_lt (sound.buses q hq) }
  | newStore name suite onRead small =>
    exact { sound with
      names, listeners
      sharedBus := Nat.lt_succ_of_lt sound.sharedBus
      defaultStore := Nat.lt_succ_of_lt sound.defaultStore
      changes := sound.changes_addStore _ _ _
      keyBridges := fun b hb => Nat.lt_succ_of_lt (sound.keyBridges b hb)
      sources := sound.sources_addStore _ _ _
      buses := fun q hq => Nat.lt_succ_of_lt (sound.buses q hq)
      trackers := fun t ht => Nat.lt_succ_of_lt (sound.trackers t ht) }
  | setDefaultStore s named =>
    exact { sound with
      names, listeners, defaultStore := sound.names _ named }
  | resetDefaultStore =>
    exact { sound with
      names, listeners
      sharedBus := Nat.lt_succ_of_lt sound.sharedBus
      defaultStore := Nat.lt_succ_self _
      changes := sound.changes_addStore _ _ _
      keyBridges := fun b hb => Nat.lt_succ_of_lt (sound.keyBridges b hb)
      sources := sound.sources_addStore _ _ _
      buses := fun q hq => Nat.lt_succ_of_lt (sound.buses q hq)
      trackers := fun t ht => Nat.lt_succ_of_lt (sound.trackers t ht) }
  | newKeyBridge name b offered empty unbound subscribed =>
    have hsource : b.subscription.source =
        (w.stores.get b.store).changes := by
      rw [subscribed]
      rfl
    exact { sound with
      names, listeners
      keyBridges := Pool.forall_add
        (P := fun _ (k : KeyBridge) => k.store.index < w.stores.next)
        (sound.has_of_offers offered) sound.keyBridges
      sources := Pool.forall_add (P := fun _ (k : KeyBridge) =>
          k.subscription.source = (w.stores.get k.store).changes)
        hsource sound.sources }
  | bindKeyBridge b binding named => exact sound.set_keyBridge rfl rfl
  | newRegistrar name =>
    exact { sound with
      names, listeners
      hooks := fun h hh r hr => Nat.lt_succ_of_lt (sound.hooks h hh r hr) }
  | newHook name onAccess before after calls forward named small =>
    exact { sound with
      names, listeners
      hooks := Pool.forall_add (P := fun _ (k : Hook) => ∀ r : Ref .registrar,
          k.forward = some r → r.index < w.registrars.next)
        (fun r hr => sound.names _ (named r hr)) sound.hooks }
  | newContext name notifier namesItself
  | newSupervisedContext name notifier onFetch failures error small =>
    exact { sound with
      names, listeners
      defaultContext := fun c hc => Nat.lt_succ_of_lt (sound.defaultContext c hc)
      contexts := fun q hq c hc =>
        Nat.lt_succ_of_lt (sound.contexts q hq c hc) }
  | setDefaultContext c named =>
    exact { sound with
      names, listeners
      defaultContext := fun r hr => sound.names _ (named r hr) }
  | newQueryBridge name q named empty unbound silent bus subscribed =>
    have hsource : q.subscription.source.index < w.notifiers.next := by
      rcases bus with heq | hnamed
      · rw [heq]
        exact sound.sharedBus
      · exact sound.names _ hnamed
    exact { sound with
      names, listeners
      buses := Pool.forall_add (P := fun _ (k : QueryBridge) =>
          k.subscription.source.index < w.notifiers.next)
        hsource sound.buses
      contexts := Pool.forall_add (P := fun _ (k : QueryBridge) =>
          ∀ c : Ref .context, k.context = some c → c.index < w.contexts.next)
        (fun c hc => sound.names _ (named c hc)) sound.contexts }
  | bindQueryBridge q binding named =>
    exact sound.set_queryBridge rfl fun _ => Or.inl
  | newTracker name store key notifier batches onCall named small =>
    exact { sound with
      names, listeners
      trackers := Pool.forall_add
        (P := fun _ (k : Tracker) => k.store.index < w.stores.next)
        (sound.names _ named) sound.trackers }
  | pushBatch t batch => exact sound.set_tracker rfl
  | _ => exact { sound with names, listeners }

/-! ## Tasks -/

/-- The objects that a fetch of stored rows is for. -/
def FetchFor.objects : FetchFor → List Object
  | .bridge q _ => [.queryBridge q]
  | .client .. => []

/-- The objects that a task refers to. -/
def Task.objects : Task → List Object
  | .finish _ held _ => held
  | .keep objects => objects
  | .deliver audience _ => audience.flatMap Listener.objects
  | .relay b => [b.object]
  | .access owner _ => [owner.object]
  | .enclose _ _ (.mutation binding b) =>
    b.object :: (binding.map fun x => x.owner.object).toList
  | .run (.mutation binding b) =>
    b.object :: (binding.map fun x => x.owner.object).toList
  | .mutate owner _ (.bridge b) => [b.object, owner.object]
  | .mutate owner _ (.client _) => [owner.object]
  | .countMutation r _ => [.registrar r]
  | .invalidate (.bridge b) => [b.object]
  | .leaveScope r _ => [.registrar r]
  | .readCache c .. => [.cache c]
  | .settleCache c .. => [.cache c]
  | .readKey b => [.keyBridge b]
  | .settleKey b .. => [.keyBridge b]
  | .readQuery q => [.queryBridge q]
  | .askRecords c _ purpose => .context c :: purpose.objects
  | .receive c _ purpose => .context c :: purpose.objects
  | .settleQuery q .. => [.queryBridge q]
  | .askHistory t _ => [.tracker t]
  | .takeBatch t => [.tracker t]
  | .announceRemote t .. => [.tracker t]
  | .answerToken t _ => [.tracker t]
  | _ => []

/-- A task that refers to what was made, and that notes nothing but a remark
if it notes something. -/
structure Task.Sound (w : World) (t : Task) : Prop where
  objects : ∀ o ∈ t.objects, w.Has o
  remark : ∀ h, t = .tell h → h.isRemark

/-- A machine that refers to what was made, in its world and in its tasks. -/
structure Machine.Sound (m : Machine) : Prop where
  world : m.world.Sound
  todo : ∀ t ∈ m.todo, t.Sound m.world

namespace Machine

variable {m : Machine}

/-- What a client or a call holds was made. -/
theorem Sound.has_of_isRooted (sound : m.Sound) {o : Object}
    (h : m.isRooted o) : m.world.Has o := by
  rcases Bool.or_eq_true_iff.mp h with h | h
  · rcases Bool.or_eq_true_iff.mp h with h | h
    · exact sound.world.names o h
    · obtain ⟨t, ht, ho⟩ := List.any_eq_true.mp h
      apply (sound.todo t ht).objects o
      cases t with
      | finish label held nested => exact List.contains_iff_mem.mp ho
      | _ => simp [Task.held] at ho
  · obtain ⟨t, ht, ho⟩ := List.any_eq_true.mp h
    apply (sound.todo t ht).objects o
    cases t with
    | keep objects => exact List.contains_iff_mem.mp ho
    | _ => simp [Task.kept] at ho

/-- Whatever is alive was made. -/
theorem Sound.has_of_isAlive (sound : m.Sound) {o : Object}
    (h : m.isAlive o) : m.world.Has o := by
  have hlt {s : Species} {α : Type} {p : Pool s α} {r : Ref s}
      (hr : r ∈ p.refs) : r.index < p.next := by
    obtain ⟨i, hi, rfl⟩ := List.mem_map.mp hr
    exact List.mem_range.mp hi
  cases o with
  | context c =>
    rcases Bool.or_eq_true_iff.mp h with h | h
    · rcases Bool.or_eq_true_iff.mp h with h | h
      · exact sound.has_of_isRooted h
      · exact sound.world.defaultContext c (of_decide_eq_true h)
    · obtain ⟨q, hq, hown⟩ := List.any_eq_true.mp h
      have hown := (Bool.and_eq_true_iff.mp hown).1
      exact sound.world.contexts q (hlt hq) c (of_decide_eq_true hown)
  | registrar r =>
    rcases Bool.or_eq_true_iff.mp h with h | h
    · exact sound.has_of_isRooted h
    · obtain ⟨x, hx, hforward⟩ := List.any_eq_true.mp h
      have hforward := (Bool.and_eq_true_iff.mp hforward).1
      exact sound.world.hooks x (hlt hx) r (of_decide_eq_true hforward)
  | _ => exact sound.has_of_isRooted h

end Machine

/-- What was made stays, whatever a task does. -/
theorem Effect.has {m : Machine} {t : Task} {w : World} (h : Effect m t w)
    {o : Object} (ho : m.world.Has o) : w.Has o := by
  cases h with
  | edits t loose known edits => exact edits.has ho
  | adopt q audience change origin alive affects =>
    unfold World.adopt
    split
    · cases o <;> exact ho
    · exact ho
  | leaveScope r reaction =>
    simp only [World.leaveScope]
    split <;> cases o <;> exact ho
  | invalidate b => cases b <;> cases o <;> exact ho
  | _ => cases o <;> exact ho

theorem Task.Sound.mono {w w' : World} {t : Task} (h : t.Sound w)
    (has : ∀ o, w.Has o → w'.Has o) : t.Sound w' :=
  ⟨fun o ho => has o (h.objects o ho), h.remark⟩

theorem Edits.sound {todo : List Task} {bound : ℕ} {loose : Object → Prop}
    {w w' : World} (h : Edits todo bound loose w w') (sound : w.Sound) :
    w'.Sound := by
  induction h with
  | refl => exact sound
  | tail _ hedit ih => exact hedit.sound ih

/-- Doing a task leaves no reference without its object. -/
theorem Effect.sound {m : Machine} {t : Task} {w : World} (h : Effect m t w)
    (sound : m.Sound) : w.Sound := by
  have hworld := sound.world
  cases h with
  | edits t loose known edits => exact edits.sound hworld
  | bindContext command nested q c named namedContext =>
    refine hworld.set_queryBridge rfl ?_
    intro x hx
    cases hx
    exact Or.inr (hworld.names _ namedContext)
  | adopt q audience change origin alive affects =>
    -- A delivery that waits keeps nothing alive.
    have halive : m.isAlive (.context origin) := alive
    have hhas : origin.index < m.world.contexts.next :=
      sound.has_of_isAlive halive
    unfold World.adopt
    split
    · refine hworld.set_queryBridge rfl ?_
      intro x hx
      rcases Option.or_eq_some_iff.mp hx with hown | ⟨-, hx⟩
      · exact Or.inl hown
      · cases hx
        exact Or.inr hhas
    · exact hworld
  | write s key value =>
    exact { hworld.writeValue s key value with }
  | leaveScope r reaction =>
    simp only [World.leaveScope]
    split <;> exact { hworld with }
  | invalidate b =>
    cases b with
    | key r => exact hworld.set_keyBridge rfl rfl
    | query q => exact hworld.set_queryBridge rfl fun c hc => Or.inl hc
  | settleKey b began stored told remarks =>
    exact hworld.set_keyBridge rfl rfl
  | settleQuery q began outcome rows selected =>
    exact hworld.set_queryBridge rfl fun c hc => Or.inl hc
  | missContext q began outcome error =>
    exact hworld.set_queryBridge rfl fun c hc => Or.inl hc
  | takeBatch t told remarks =>
    exact hworld.set_tracker rfl
  | _ => exact { hworld with }

namespace Machine

variable {m : Machine}

theorem Sound.has_of_liveBinding (sound : m.Sound) {b : Bridge}
    {binding : Binding} (h : m.liveBinding? b = some binding) :
    m.world.Has binding.owner.object :=
  sound.has_of_isAlive (Option.filter_eq_some_iff.mp h).2

theorem Sound.deliver (sound : m.Sound) (n : Ref .notifier) (event : Event) :
    (Task.deliver (m.world.audience n) event).Sound m.world := by
  refine ⟨?_, by simp⟩
  intro o ho
  obtain ⟨l, hl, ho⟩ := List.mem_flatMap.mp ho
  obtain ⟨entry, hentry, rfl⟩ := List.mem_map.mp hl
  exact sound.world.listeners n entry hentry o ho

end Machine

/-- What a command holds was made before it. -/
theorem Begins.has_held {m : Machine} {bound : ℕ} {b : Begun}
    (h : Begins m bound b) (sound : m.Sound) {o : Object} (ho : o ∈ b.held) :
    m.world.Has o := by
  have hnames := sound.world.names
  cases h with
  | announce n event x source made foreign =>
    obtain rfl := List.mem_singleton.mp ho
    rcases made with named | rfl
    · exact hnames _ named
    · exact sound.world.sharedBus
  | write s key value held offered named => exact hnames o (named o ho)
  | runEnvelope envelope p body named small =>
    obtain ⟨r, hr, rfl⟩ := by simpa using ho
    exact hnames _ (named r hr)
  | bindContext q c named namedContext =>
    rcases List.mem_cons.mp ho with rfl | ho
    · exact hnames _ named
    · rw [List.mem_singleton.mp ho]
      exact hnames _ namedContext
  | atOnce | readDefault => exact absurd ho List.not_mem_nil
  | _ =>
    obtain rfl := List.mem_singleton.mp ho
    exact hnames _ ‹_›

namespace Machine

variable {m : Machine}

/-- What a command leaves to be done refers to what was made before it. -/
theorem Sound.leaves (sound : m.Sound) {x : Task} (h : Leaves m x) :
    x.Sound m.world := by
  have hnames := sound.world.names
  -- A task that refers to one object, and one that refers to none.
  have hone {t : Task} {o : Object} (objects : t.objects = [o])
      (other : ∀ h, t ≠ .tell h) (has : m.world.Has o) : t.Sound m.world :=
    ⟨by simpa [objects] using has, fun h ht => absurd ht (other h)⟩
  have hnone {t : Task} (objects : t.objects = [])
      (other : ∀ h, t ≠ .tell h) : t.Sound m.world :=
    ⟨by simp [objects], fun h ht => absurd ht (other h)⟩
  cases h with
  | deliver n event foreign => exact sound.deliver n event
  | accessBound b binding live | keepBound b binding live =>
    exact hone rfl (by simp) (sound.has_of_liveBinding live)
  | access r property named => exact hone rfl (by simp) (hnames _ named)
  | mutate r property during named =>
    exact hone rfl (by simp) (hnames _ named)
  | leaveScope r reaction named => exact hone rfl (by simp) (hnames _ named)
  | readCache c outcome during mayFail named =>
    exact hone rfl (by simp) (hnames _ named)
  | readKey b named => exact hone rfl (by simp) (hnames _ named)
  | askRecords c rowType descriptor named =>
    exact hone rfl (by simp) (hnames _ named)
  | readQuery q named => exact hone rfl (by simp) (hnames _ named)
  | relay q named => exact hone rfl (by simp) (hnames _ named)
  | askHistory t named => exact hone rfl (by simp) (hnames _ named)
  | answerToken t named => exact hone rfl (by simp) (hnames _ named)
  | _ => exact hnone rfl (by simp)

/-- What follows from a task refers to what was made before it. -/
theorem Sound.follows (sound : m.Sound) {t x : Task} (ht : t.Sound m.world)
    (h : Follows m t x) : x.Sound m.world := by
  -- Most tasks refer to no more than the task that they follow from.
  have hsame {x : Task} (objects : x.objects ⊆ t.objects)
      (other : ∀ h, x ≠ .tell h) : x.Sound m.world :=
    ⟨fun o ho => ht.objects o (objects ho), fun h hx => absurd hx (other h)⟩
  have hnone {x : Task} (objects : x.objects = [])
      (other : ∀ h, x ≠ .tell h) : x.Sound m.world :=
    hsame (by simp [objects]) other
  have hforwarded {k : Ref .hook} {r : Ref .registrar}
      (forward : (m.world.hooks.get k).forward = some r)
      (has : m.world.Has (.hook k)) (o : Object)
      (ho : o ∈ [Object.registrar r]) : m.world.Has o := by
    rw [List.mem_singleton.mp ho]
    exact sound.world.hooks k has r forward
  have hbound {b : Bridge} (has : m.world.Has b.object) (o : Object)
      (ho : o ∈ b.object ::
        ((m.liveBinding? b).map fun x => x.owner.object).toList) :
      m.world.Has o := by
    rcases List.mem_cons.mp ho with rfl | ho
    · exact has
    · obtain ⟨binding, hbinding, rfl⟩ := by simpa using ho
      exact sound.has_of_liveBinding hbinding
  cases h with
  | begun c nested left => exact sound.leaves left
  | finish begun =>
    exact ⟨fun o => (begins_of_begin begun).has_held sound, by simp⟩
  | remark t h remark =>
    exact ⟨by simp [Task.objects], fun y hy => by cases hy; exact remark⟩
  | deliver l audience event =>
    exact hsame (List.subset_append_right _ _) (by simp)
  | relay b audience event concerns =>
    refine hsame ?_ (by simp)
    cases b <;> exact List.subset_append_left _ _
  | announceKey s key value => exact sound.deliver _ _
  | deliverRemote t transactions entities => exact sound.deliver _ _
  | forwardAccess h property r forward =>
    exact ⟨hforwarded forward (ht.objects _ List.mem_cons_self), by simp⟩
  | forwardMutate h property i r forward =>
    refine ⟨?_, by simp⟩
    intro o ho
    cases i with
    | bridge b =>
      rcases List.mem_cons.mp ho with rfl | ho
      · exact ht.objects _ List.mem_cons_self
      · exact hforwarded forward
          (ht.objects _ (List.mem_cons_of_mem _ List.mem_cons_self)) o ho
    | client during =>
      exact hforwarded forward (ht.objects _ List.mem_cons_self) o ho
  | invalidate owner property i =>
    cases i with
    | bridge b => exact hsame (List.subset_append_left _ _) (by simp)
    | client during => exact hnone rfl (by simp)
  | countMutation r property i =>
    cases i with
    | bridge b => exact hsame (List.subset_append_right [_] _) (by simp)
    | client during => exact hsame (fun o ho => ho) (by simp)
  | run envelope p body =>
    cases body with
    | mutation binding b => exact hsame (fun o ho => ho) (by simp)
    | client commands => exact hnone rfl (by simp)
  | enclose b => exact ⟨hbound (ht.objects _ List.mem_cons_self), by simp⟩
  | keepBridge b => exact ⟨hbound (ht.objects _ List.mem_cons_self), by simp⟩
  | invalidateUnbound b => exact hsame (List.subset_append_left _ _) (by simp)
  | askRecords q c empty resolved =>
    refine ⟨?_, by simp⟩
    intro o ho
    rcases List.mem_cons.mp ho with rfl | ho
    · have hq : q.index < m.world.queryBridges.next :=
        ht.objects _ List.mem_cons_self
      rcases Option.or_eq_some_iff.mp resolved with hown | ⟨-, hdefault⟩
      · exact sound.world.contexts q hq c hown
      · exact sound.world.defaultContext c hdefault
    · exact ht.objects o ho
  | keepContext c entity purpose =>
    exact hsame (by simp [Task.objects]) (by simp)
  | settleQuery c records q began =>
    exact hsame (by simp [Task.objects, FetchFor.objects]) (by simp)
  | mutate | settleCache | settleKey | settleMissing | receive | takeBatch | announceRemote =>
    exact hsame (fun o ho => ho) (by simp)
  | _ => exact hnone rfl (by simp)

theorem Sound.below (sound : m.Sound) {t : Task} {rest : List Task}
    (h : m.todo = t :: rest) : Sound { m with todo := rest } :=
  ⟨sound.world, fun x hx => sound.todo x (h ▸ List.mem_cons_of_mem t hx)⟩

theorem Sound.has_of_head (sound : m.Sound) {t : Task} {rest : List Task}
    (h : m.todo = t :: rest) {o : Object} (ho : o ∈ t.objects) :
    m.world.Has o :=
  (sound.todo t (h ▸ List.mem_cons_self)).objects o ho

theorem Sound.step (sound : m.Sound) : m.step.Sound := by
  cases h : m.todo with
  | nil => rwa [step_of_todo_nil h]
  | cons t rest =>
    rw [step_of_todo_cons h]
    have hrest := sound.below h
    have ht : t.Sound m.world := sound.todo t (h ▸ List.mem_cons_self)
    have heffect := effect_doTask (m := { m with todo := rest }) t
    refine ⟨heffect.sound hrest, ?_⟩
    intro x hx
    rcases follows_of_mem hx with hx | hx
    · exact (hrest.todo x hx).mono fun o ho => heffect.has ho
    · exact (hrest.follows ht hx).mono fun o ho => heffect.has ho

theorem sound_initial : World.initial.Sound := by
  have hlisteners : ∀ n, (World.initial.notifiers.get n).listeners = [] := by
    intro n
    apply List.eq_nil_iff_forall_not_mem.mpr
    intro entry hentry
    have hnone : ∀ n : Ref .notifier,
        (({} : Pool .notifier Notifier).get n).listeners = [] := fun _ => rfl
    have hone := World.listeners_addNotifier hentry
    have hzero := World.listeners_addNotifier hone
    rw [hnone] at hzero
    exact List.not_mem_nil hzero
  have hnone {i : ℕ} (h : i < 0) : False := Nat.not_lt_zero i h
  -- There is the default store with its notifier, and the shared bus.
  constructor
  case names => exact fun o ho => absurd ho Bool.false_ne_true
  case listeners =>
    intro n entry hentry
    rw [hlisteners] at hentry
    exact absurd hentry List.not_mem_nil
  case sharedBus | defaultStore => decide
  case defaultContext => exact fun c hc => nomatch hc
  case changes =>
    intro s hs
    obtain ⟨i⟩ := s
    obtain rfl : i = 0 := Nat.lt_one_iff.mp hs
    decide
  case hooks | keyBridges | sources | buses | contexts | trackers =>
    exact fun r hr => (hnone hr).elim

theorem sound_ofCommands (commands : List Command) :
    (ofCommands commands).Sound := by
  refine ⟨sound_initial, ?_⟩
  intro t ht
  obtain ⟨c, -, rfl⟩ := List.mem_map.mp ht
  exact ⟨by simp [Task.objects], by simp⟩

theorem has_step {o : Object} (has : m.world.Has o) : m.step.world.Has o := by
  cases h : m.todo with
  | nil => rwa [step_of_todo_nil h]
  | cons t rest => exact (effect_step h).has has

theorem has_run {i j : ℕ} (le : i ≤ j) {o : Object}
    (has : (run i m).world.Has o) : (run j m).world.Has o := by
  induction le with
  | refl => exact has
  | step _ ih =>
    rw [run_succ]
    exact has_step ih

/-- All along a run, references lead to what was made. -/
theorem Sound.after (sound : m.Sound) (n : ℕ) : (run n m).Sound :=
  run_induction sound (fun _ h => h.step) n

theorem sound_run (commands : List Command) (n : ℕ) :
    (run n (ofCommands commands)).Sound :=
  (sound_ofCommands commands).after n

end Machine

end LiveProperty
