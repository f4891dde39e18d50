import LiveProperty.Proofs.Machine.Cores

/-!
# Handles

A name is only ever given to an object that was just made.  So a bridge that
a client can still reach could be reached ever since it was made.  All this
while its own listener is attached: a subscription has a number of its own,
as long as there are fewer of them than numbers, and is given up only by
whoever has it.
-/

namespace LiveProperty

namespace World

/-- The subscription that a bridge made when it was made. -/
def subscription (w : World) : Bridge → Subscription
  | .key r => (w.keyBridges.get r).subscription
  | .query r => (w.queryBridges.get r).subscription

theorem subscriptionOf_bridge (w : World) (b : Bridge) :
    w.subscriptionOf? b.object = some (w.subscription b) := by
  cases b <;> rfl

/-- Whether the listener of a bridge is attached where it subscribed. -/
def Attached (w : World) (b : Bridge) : Prop :=
  ((w.subscription b).id, b.listener) ∈
    (w.notifiers.get (w.subscription b).source).listeners

theorem mem_audience {w : World} {b : Bridge} (h : w.Attached b) :
    b.listener ∈ w.audience (w.subscription b).source :=
  List.mem_map.mpr ⟨_, h, rfl⟩

/-- An object that was made, and whose subscription, if it is one, is still
somebody's. -/
def Known (w : World) (todo : List Task) (loose : Object → Prop)
    (o : Object) : Prop :=
  w.Has o ∧
    ∀ s, o = .subscription s → w.isHeldWith todo o ∨ loose o

/-- Every subscription has a number of its own among those that were handed
out, and every bridge that somebody holds is attached. -/
structure Linked (w : World) (todo : List Task) (loose : Object → Prop) :
    Prop where
  made : ∀ o, loose o → w.Has o
  issued : ∀ o s, w.Known todo loose o → w.subscriptionOf? o = some s →
    ∃ i < w.subscriptions, s.id = ⟨.ofNat i⟩
  distinct : ∀ o o' s s', w.Known todo loose o → w.Known todo loose o' →
    w.subscriptionOf? o = some s → w.subscriptionOf? o' = some s' →
    s.id = s'.id → o = o'
  attached : ∀ b : Bridge, w.Has b.object → w.isHeldWith todo b.object →
    w.Attached b

end World

variable {todo : List Task} {bound : ℕ} {loose : Object → Prop} {w w' : World}

/-! ## Names are given to what was just made -/

/-- Whether a client subscribed, so that one name now stands for the new
subscription. -/
def World.Subscribes (w w' : World) (o : Object) : Prop :=
  ∃ name n script onlyKey,
    o = .subscription (w.freshSubscription n) ∧
    w' = ((w.addPlan script).subscribe n
      (.client name w.plans.fresh onlyKey)).bindName name (.object o)

theorem Edit.isNamed_cases (h : Edit todo bound loose w w') {o : Object}
    (has : w.Has o) (ho : w'.isNamed o) :
    w.isNamed o ∨ w.Subscribes w' o := by
  have hbind {x : World} {name : String} {made : Object}
      (names : x.names = w.names) (new : ¬ w.Has made)
      (ho : (x.bindName name (.object made)).isNamed o) :
      w.isNamed o ∨ w.Subscribes w' o := by
    rcases World.isNamed_bindName ho with heq | ho
    · cases heq
      exact absurd has new
    · rw [World.isNamed, names] at ho
      exact Or.inl ho
  cases h with
  | letGo x free known =>
    rcases w.letGo_eq x with heq | ⟨s, -, heq⟩
    · rw [heq] at ho
      exact Or.inl ho
    · rw [heq] at ho
      exact Or.inl ho
  | bindValue name n plain =>
    rcases World.isNamed_bindName ho with heq | ho
    · exact absurd heq (plain o)
    · exact Or.inl ho
  | unbindName name => exact Or.inl (World.isNamed_unbindName ho)
  | subscribe name n script onlyKey small =>
    rcases World.isNamed_bindName ho with heq | ho
    · cases heq
      exact Or.inr ⟨name, n, script, onlyKey, rfl, rfl⟩
    · exact Or.inl ho
  | newCache name => exact hbind rfl (Nat.lt_irrefl _) ho
  | newNotifier name => exact hbind rfl (Nat.lt_irrefl _) ho
  | newBus name => exact hbind rfl (Nat.lt_irrefl _) ho
  | newStore name suite onRead small => exact hbind rfl (Nat.lt_irrefl _) ho
  | newKeyBridge name b offered empty unbound subscribed =>
    exact hbind rfl (Nat.lt_irrefl _) ho
  | newRegistrar name => exact hbind rfl (Nat.lt_irrefl _) ho
  | newHook name onAccess before after calls forward named small =>
    exact hbind rfl (Nat.lt_irrefl _) ho
  | newPresenter name before after calls small =>
    exact hbind rfl (Nat.lt_irrefl _) ho
  | newContext name changes namesItself =>
    exact hbind rfl (Nat.lt_irrefl _) ho
  | newSupervisedContext name changes onFetch failures error small =>
    exact hbind rfl (Nat.lt_irrefl _) ho
  | newQueryBridge name q named empty unbound silent bus subscribed =>
    exact hbind rfl (Nat.lt_irrefl _) ho
  | newTracker name store key changes batches onCall named small =>
    exact hbind rfl (Nat.lt_irrefl _) ho
  | _ => exact Or.inl ho

theorem Edit.isNamed (h : Edit todo bound loose w w') {o : Object}
    (has : w.Has o) (other : ∀ s, o ≠ .subscription s)
    (ho : w'.isNamed o) : w.isNamed o := by
  rcases h.isNamed_cases has ho with ho | ⟨-, n, -, -, heq, -⟩
  · exact ho
  · exact absurd heq (other _)

theorem Edits.isNamed (h : Edits todo bound loose w w') {o : Object}
    (has : w.Has o) (other : ∀ s, o ≠ .subscription s)
    (ho : w'.isNamed o) : w.isNamed o := by
  induction h with
  | refl => exact ho
  | tail hedits hedit ih => exact ih (hedit.isNamed (Edits.has hedits has) other ho)

/-- A task names nothing that was there before it. -/
theorem Effect.isNamed {m : Machine} {t : Task} (h : Effect m t w)
    {o : Object} (has : m.world.Has o) (other : ∀ s, o ≠ .subscription s)
    (ho : w.isNamed o) : m.world.isNamed o := by
  cases h with
  | edits t loose known edits => exact edits.isNamed has other ho
  | adopt q audience change origin alive affects =>
    unfold World.adopt at ho
    split at ho <;> exact ho
  | leaveScope r reaction =>
    simp only [World.leaveScope] at ho
    split at ho <;> exact ho
  | invalidate b => cases b <;> exact ho
  | _ => exact ho

theorem Bridge.object_ne_subscription (b : Bridge) (s : Subscription) :
    b.object ≠ .subscription s := by
  cases b <;> simp [Bridge.object]

/-- What a command holds has a name, unless it is a bus. -/
theorem Begins.isNamed_held {m : Machine} {b : Begun}
    (h : Begins m bound b) {o : Object} (ho : o ∈ b.held) :
    (∃ n, o = .bus n) ∨ b.machine.world.isNamed o := by
  cases h with
  | announce n event x source made foreign =>
    obtain rfl := List.mem_singleton.mp ho
    rcases made with named | rfl
    · exact Or.inr named
    · exact Or.inl ⟨_, rfl⟩
  | write s key value held offered named => exact Or.inr (named o ho)
  | runEnvelope envelope p body named small =>
    obtain ⟨r, hr, rfl⟩ := by simpa using ho
    exact Or.inr (named r hr)
  | bindContext q c named namedContext =>
    rcases List.mem_cons.mp ho with rfl | ho
    · exact Or.inr named
    · rw [List.mem_singleton.mp ho]
      exact Or.inr namedContext
  | readToken t next named tracked =>
    rw [List.mem_singleton.mp ho]
    exact Or.inr named
  | atOnce r edits => exact absurd ho List.not_mem_nil
  | readDefault key => exact absurd ho List.not_mem_nil
  | _ =>
    rw [List.mem_singleton.mp ho]
    exact Or.inr ‹_›

/-! ## Subscriptions -/

namespace World

/-- The notifier that a bridge listens to was made. -/
theorem Sound.has_source (sound : w.Sound) {b : Bridge}
    (has : w.Has b.object) :
    (w.subscription b).source.index < w.notifiers.next := by
  cases b with
  | key r =>
    have hsource := sound.sources r has
    have hchanges := sound.changes _ (sound.keyBridges r has)
    rwa [← hsource] at hchanges
  | query q => exact sound.buses q has

theorem mem_listeners_detach {n source : Ref .notifier} {id : SubscriberId}
    {entry : SubscriberId × Listener} (ne : entry.1 ≠ id)
    (h : entry ∈ (w.notifiers.get n).listeners) :
    entry ∈ ((w.detach source id).notifiers.get n).listeners := by
  by_cases hn : n = source
  · subst hn
    have hself : (w.detach n id).notifiers.get n =
        (w.notifiers.get n).detach id := Pool.get_modify_self _
    rw [hself]
    exact Notifier.mem_detach.mpr ⟨h, ne⟩
  · have hother : (w.detach source id).notifiers.get n = w.notifiers.get n :=
      Pool.get_modify_of_ne _ hn
    rwa [hother]

theorem mem_listeners_subscribe {n source : Ref .notifier} {l : Listener}
    {entry : SubscriberId × Listener}
    (h : entry ∈ (w.notifiers.get n).listeners) :
    entry ∈ ((w.subscribe source l).notifiers.get n).listeners := by
  by_cases hn : n = source
  · subst hn
    have hself : (w.subscribe n l).notifiers.get n =
        (w.notifiers.get n).attach w.freshSubscriber l := Pool.get_modify_self _
    rw [hself]
    exact List.mem_append_left _ h
  · have hother : (w.subscribe source l).notifiers.get n = w.notifiers.get n :=
      Pool.get_modify_of_ne _ hn
    rwa [hother]

theorem mem_listeners_subscribe_self (source : Ref .notifier) (l : Listener) :
    (w.freshSubscriber, l) ∈
      ((w.subscribe source l).notifiers.get source).listeners := by
  have hself : (w.subscribe source l).notifiers.get source =
      (w.notifiers.get source).attach w.freshSubscriber l :=
    Pool.get_modify_self _
  rw [hself]
  exact List.mem_append_right _ (List.mem_singleton.mpr rfl)

end World

/-- A bridge keeps its subscription. -/
theorem Edit.subscription (h : Edit todo bound loose w w') {b : Bridge}
    (has : w.Has b.object) : w'.subscription b = w.subscription b := by
  cases b with
  | key r =>
    have hcore := congrArg KeyBridge.subscription (h.keyBridge_core has)
    exact hcore
  | query q =>
    exact h.apply_queryBridge (g := QueryBridge.subscription)
      (fun _ _ => rfl) has

theorem Edit.subscriptions_le (h : Edit todo bound loose w w') :
    w.subscriptions ≤ w'.subscriptions := by
  cases h with
  | letGo x free known =>
    rcases w.letGo_eq x with heq | ⟨s, -, heq⟩
    · rw [heq]
    · rw [heq]
      exact le_refl _
  | subscribe | newKeyBridge | newQueryBridge | freshSubscriber =>
    exact Nat.le_succ _
  | _ => exact le_refl _

theorem World.isHeldWith_iff {o : Object} :
    w.isHeldWith todo o ↔ w.isNamed o ∨ ∃ t ∈ todo, o ∈ t.held := by
  simp [World.isHeldWith, List.any_eq_true]

/-- A bridge that is held after an edit was held before it. -/
theorem Edit.isHeldWith (h : Edit todo bound loose w w') {b : Bridge}
    (has : w.Has b.object) (held : w'.isHeldWith todo b.object) :
    w.isHeldWith todo b.object := by
  rw [World.isHeldWith_iff] at held ⊢
  exact held.imp_left (h.isNamed has b.object_ne_subscription)

/-- What has a subscription is a subscription or a bridge. -/
theorem World.subscriptionOf_eq_some {o : Object} {s : Subscription}
    (h : w.subscriptionOf? o = some s) :
    o = .subscription s ∨ ∃ b : Bridge, o = b.object ∧ w.subscription b = s := by
  cases o with
  | subscription x => exact Or.inl (congrArg _ (Option.some.inj h))
  | keyBridge r => exact Or.inr ⟨.key r, rfl, Option.some.inj h⟩
  | queryBridge q => exact Or.inr ⟨.query q, rfl, Option.some.inj h⟩
  | _ => cases h

/-- A bridge that an edit makes is the only one, and has the next number. -/
theorem Edit.new_bridge (h : Edit todo bound loose w w') {b : Bridge}
    (has : w'.Has b.object) (new : ¬ w.Has b.object) :
    (w'.subscription b).id = w.freshSubscriber ∧
      w'.subscriptions = w.subscriptions + 1 ∧
      ∀ x : Bridge, w'.Has x.object → x = b ∨ w.Has x.object := by
  cases h with
  | letGo x free known =>
    rcases w.letGo_eq x with heq | ⟨s, -, heq⟩
    · exact absurd (heq ▸ has) new
    · rw [heq] at has
      cases b <;> exact absurd has new
  | newKeyBridge name k offered empty unbound subscribed =>
    cases b with
    | query q => exact absurd has new
    | key r =>
      rcases Pool.eq_fresh_or_lt has with rfl | hlt
      · refine ⟨?_, rfl, ?_⟩
        · have hnew : (w.keyBridges.add k).get w.keyBridges.fresh = k :=
            Pool.get_add_fresh _ _
          show ((w.keyBridges.add k).get _).subscription.id = _
          rw [hnew, subscribed]
          rfl
        · intro x hx
          cases x with
          | query q => exact Or.inr hx
          | key r =>
            rcases Pool.eq_fresh_or_lt hx with rfl | hlt
            · exact Or.inl rfl
            · exact Or.inr hlt
      · exact absurd hlt new
  | newQueryBridge name k named empty unbound silent bus subscribed =>
    cases b with
    | key r => exact absurd has new
    | query q =>
      rcases Pool.eq_fresh_or_lt has with rfl | hlt
      · refine ⟨?_, rfl, ?_⟩
        · have hnew : (w.queryBridges.add k).get w.queryBridges.fresh = k :=
            Pool.get_add_fresh _ _
          show ((w.queryBridges.add k).get _).subscription.id = _
          rw [hnew, subscribed]
          rfl
        · intro x hx
          cases x with
          | key r => exact Or.inr hx
          | query q =>
            rcases Pool.eq_fresh_or_lt hx with rfl | hlt
            · exact Or.inl rfl
            · exact Or.inr hlt
      · exact absurd hlt new
  | _ => cases b <;> exact absurd has new

/-- At most one object has a subscription after an edit that it had not
before, and that has the next number. -/
theorem Edit.known_cases (h : Edit todo bound loose w w') :
    ∃ new : Object, ∀ o s, w'.Known todo loose o →
      w'.subscriptionOf? o = some s →
      (w.Known todo loose o ∧ w.subscriptionOf? o = some s) ∨
        (o = new ∧ s.id = w.freshSubscriber ∧
          w'.subscriptions = w.subscriptions + 1) := by
  have hbridge {b : Bridge} {s : Subscription} (has : w.Has b.object)
      (hs : w'.subscription b = s) : w.Known todo loose b.object ∧
        w.subscriptionOf? b.object = some s := by
    refine ⟨⟨has, fun x hx => absurd hx (b.object_ne_subscription x)⟩, ?_⟩
    rw [w.subscriptionOf_bridge, ← h.subscription has, hs]
  by_cases hsub : ∃ o, w.Subscribes w' o
  · obtain ⟨new, name, n, script, onlyKey, rfl, rfl⟩ := hsub
    refine ⟨.subscription (w.freshSubscription n), ?_⟩
    intro o s known hs
    rcases World.subscriptionOf_eq_some hs with rfl | ⟨b, rfl, heq⟩
    · rcases known.2 s rfl with held | hloose
      · rcases World.isHeldWith_iff.mp held with named | ⟨t, ht, ho⟩
        · rcases World.isNamed_bindName named with heq | named
          · cases heq
            exact Or.inr ⟨rfl, rfl, rfl⟩
          · exact Or.inl ⟨⟨trivial, fun x _ => Or.inl
              (World.isHeldWith_iff.mpr (Or.inl named))⟩, rfl⟩
        · exact Or.inl ⟨⟨trivial, fun x _ => Or.inl
            (World.isHeldWith_iff.mpr (Or.inr ⟨t, ht, ho⟩))⟩, rfl⟩
      · exact Or.inl ⟨⟨trivial, fun x _ => Or.inr hloose⟩, rfl⟩
    · have has : w.Has b.object := by
        have := known.1
        cases b <;> exact this
      exact Or.inl (hbridge has heq)
  · have hsubscription {s : Subscription}
        (known : w'.Known todo loose (.subscription s)) :
        w.Known todo loose (.subscription s) := by
      refine ⟨trivial, fun x _ => ?_⟩
      rcases known.2 s rfl with held | hloose
      · left
        rw [World.isHeldWith_iff] at held ⊢
        apply held.imp_left
        intro named
        have made : w.Has (.subscription s) := trivial
        rcases h.isNamed_cases made named with named | hnew
        · exact named
        · exact absurd ⟨_, hnew⟩ hsub
      · exact Or.inr hloose
    by_cases hnew : ∃ b : Bridge, w'.Has b.object ∧ ¬ w.Has b.object
    · obtain ⟨b, has, new⟩ := hnew
      obtain ⟨hid, hcount, honly⟩ := h.new_bridge has new
      refine ⟨b.object, ?_⟩
      intro o s known hs
      rcases World.subscriptionOf_eq_some hs with rfl | ⟨x, rfl, heq⟩
      · exact Or.inl ⟨hsubscription known, rfl⟩
      · rcases honly x known.1 with rfl | has
        · exact Or.inr ⟨rfl, heq ▸ hid, hcount⟩
        · exact Or.inl (hbridge has heq)
    · refine ⟨.bus w.sharedBus, ?_⟩
      intro o s known hs
      rcases World.subscriptionOf_eq_some hs with rfl | ⟨x, rfl, heq⟩
      · exact Or.inl ⟨hsubscription known, rfl⟩
      · have has : w.Has x.object := by
          by_contra hnot
          exact hnew ⟨x, known.1, hnot⟩
        exact Or.inl (hbridge has heq)

/-! ## Listeners stay attached -/

/-- As long as numbers do not run out, the next one was not given before. -/
theorem World.Linked.id_ne_fresh (linked : w.Linked todo loose)
    (room : w.subscriptions < 2 ^ 64) {o : Object} {s : Subscription}
    (known : w.Known todo loose o) (hs : w.subscriptionOf? o = some s) :
    s.id ≠ w.freshSubscriber := by
  obtain ⟨i, hi, hid⟩ := linked.issued o s known hs
  rw [hid]
  intro heq
  have hnumber : UInt64.ofNat i = UInt64.ofNat w.subscriptions :=
    congrArg SubscriberId.number heq
  have hnat := congrArg UInt64.toNat hnumber
  rw [UInt64.toNat_ofNat', UInt64.toNat_ofNat',
    Nat.mod_eq_of_lt (hi.trans room), Nat.mod_eq_of_lt room] at hnat
  omega

/-- Nobody but a bridge itself has the number of its subscription. -/
theorem World.Linked.attached_detach (linked : w.Linked todo loose)
    {b : Bridge} (has : w.Has b.object) (attached : w.Attached b)
    {o : Object} (known : w.Known todo loose o) {s : Subscription}
    (hs : w.subscriptionOf? o = some s) (ne : o ≠ b.object)
    (source : Ref .notifier) : (w.detach source s.id).Attached b := by
  have hknown : w.Known todo loose b.object :=
    ⟨has, fun x hx => absurd hx (b.object_ne_subscription x)⟩
  have hsubscription : (w.detach source s.id).subscription b =
      w.subscription b := by
    cases b <;> rfl
  rw [World.Attached, hsubscription]
  refine World.mem_listeners_detach ?_ attached
  intro hid
  have heq := linked.distinct _ _ _ _ hknown known (w.subscriptionOf_bridge b)
    hs hid
  exact ne heq.symm

theorem World.attached_addNotifier {b : Bridge} (sound : w.Sound)
    (has : w.Has b.object) (attached : w.Attached b) :
    w.addNotifier.Attached b := by
  have hold : w.addNotifier.notifiers.get (w.subscription b).source =
      w.notifiers.get (w.subscription b).source :=
    Pool.get_add_of_lt _ (sound.has_source has)
  have hsubscription : w.addNotifier.subscription b = w.subscription b := by
    cases b <;> rfl
  rw [World.Attached, hsubscription, hold]
  exact attached

theorem World.attached_subscribe {b : Bridge} (attached : w.Attached b)
    (source : Ref .notifier) (l : Listener) :
    (w.subscribe source l).Attached b := by
  have hsubscription : (w.subscribe source l).subscription b =
      w.subscription b := by
    cases b <;> rfl
  rw [World.Attached, hsubscription]
  exact World.mem_listeners_subscribe attached

theorem World.attached_of_subscribe {x : World} {b : Bridge}
    {source : Ref .notifier}
    (notifiers : x.notifiers = (w.subscribe source b.listener).notifiers)
    (subscription : x.subscription b = w.freshSubscription source) :
    x.Attached b := by
  rw [World.Attached, subscription, notifiers]
  exact World.mem_listeners_subscribe_self source b.listener

/-- An edit detaches no bridge that somebody still holds. -/
theorem Edit.attached (h : Edit todo bound loose w w') (sound : w.Sound)
    (linked : w.Linked todo loose) {b : Bridge} (has : w'.Has b.object)
    (held : w'.isHeldWith todo b.object) : w'.Attached b := by
  -- A new bridge is attached by the edit that makes it.
  by_cases hold : w.Has b.object
  · have hheld := h.isHeldWith hold held
    have hattached := linked.attached b hold hheld
    -- Edits that leave the notifiers alone, and the subscriptions of bridges.
    have hsame {x : World} (notifiers : x.notifiers = w.notifiers)
        (subscription : x.subscription b = w.subscription b) :
        x.Attached b := by
      rw [World.Attached, notifiers, subscription]
      exact hattached
    have hsubscription := h.subscription hold
    cases h with
    | letGo o free known =>
      rcases hgo : w.subscriptionOf? o with _ | s
      · have heq : w.letGo o = w := by simp [World.letGo, hgo]
        rwa [heq]
      · have heq : w.letGo o = w.detach s.source s.id := by
          simp [World.letGo, hgo]
        rw [heq]
        have hknown : w.Known todo loose o :=
          ⟨linked.made o known, fun x _ => Or.inr known⟩
        refine linked.attached_detach hold hattached hknown hgo ?_ s.source
        rintro rfl
        rw [free] at hheld
        exact Bool.false_ne_true hheld
    | detach n s named =>
      have hknown : w.Known todo loose (.subscription s) :=
        ⟨trivial, fun x _ => Or.inl
          (World.isHeldWith_iff.mpr (Or.inl named))⟩
      exact linked.attached_detach hold hattached hknown rfl
        (b.object_ne_subscription s).symm n
    | newNotifier name => exact World.attached_addNotifier sound hold hattached
    | newBus name => exact World.attached_addNotifier sound hold hattached
    | newStore name suite onRead small =>
      have := World.attached_addNotifier sound hold hattached
      cases b <;> exact this
    | resetDefaultStore =>
      have := World.attached_addNotifier sound hold hattached
      cases b <;> exact this
    | subscribe name n script onlyKey small =>
      have := World.attached_subscribe hattached n
        (.client name w.plans.fresh onlyKey)
      cases b <;> exact this
    | newKeyBridge name k offered empty unbound subscribed =>
      rw [World.Attached, hsubscription]
      exact World.mem_listeners_subscribe hattached
    | newQueryBridge name k named empty unbound silent bus subscribed =>
      rw [World.Attached, hsubscription]
      exact World.mem_listeners_subscribe hattached
    | _ => exact hsame rfl hsubscription
  · cases h with
    | letGo o free known =>
      rcases w.letGo_eq o with heq | ⟨s, -, heq⟩
      · exact absurd (heq ▸ has) hold
      · rw [heq] at has
        cases b <;> exact absurd has hold
    | newKeyBridge name k offered empty unbound subscribed =>
      cases b with
      | query q => exact absurd has hold
      | key r =>
        rcases Pool.eq_fresh_or_lt has with rfl | hlt
        · have hnew : ((w.keyBridges.add k).get
              w.keyBridges.fresh).subscription = k.subscription :=
            congrArg KeyBridge.subscription (Pool.get_add_fresh _ _)
          exact World.attached_of_subscribe rfl (hnew.trans subscribed)
        · exact absurd hlt hold
    | newQueryBridge name k named empty unbound silent bus subscribed =>
      cases b with
      | key r => exact absurd has hold
      | query q =>
        rcases Pool.eq_fresh_or_lt has with rfl | hlt
        · have hnew : ((w.queryBridges.add k).get
              w.queryBridges.fresh).subscription = k.subscription :=
            congrArg QueryBridge.subscription (Pool.get_add_fresh _ _)
          exact World.attached_of_subscribe rfl (hnew.trans subscribed)
        · exact absurd hlt hold
    | _ => cases b <;> exact absurd has hold

theorem Edit.linked (h : Edit todo bound loose w w') (sound : w.Sound)
    (linked : w.Linked todo loose) (room : w'.subscriptions ≤ 2 ^ 64) :
    w'.Linked todo loose := by
  obtain ⟨new, hnew⟩ := h.known_cases
  refine ⟨fun o ho => h.has (linked.made o ho), ?_, ?_,
    fun b has held => h.attached sound linked has held⟩
  · intro o s known hs
    rcases hnew o s known hs with ⟨known, hs⟩ | ⟨-, hid, hcount⟩
    · obtain ⟨i, hi, hid⟩ := linked.issued o s known hs
      exact ⟨i, hi.trans_le h.subscriptions_le, hid⟩
    · exact ⟨w.subscriptions, by omega, hid⟩
  · intro o o' s s' known known' hs hs' heq
    rcases hnew o s known hs with ⟨known, hs⟩ | ⟨rfl, hid, hcount⟩
    · rcases hnew o' s' known' hs' with ⟨known', hs'⟩ | ⟨rfl, hid', hcount⟩
      · exact linked.distinct o o' s s' known known' hs hs' heq
      · exact absurd (heq.trans hid')
          (linked.id_ne_fresh (by omega) known hs)
    · rcases hnew o' s' known' hs' with ⟨known', hs'⟩ | ⟨rfl, -, -⟩
      · exact absurd (heq.symm.trans hid)
          (linked.id_ne_fresh (by omega) known' hs')
      · rfl

theorem Edits.subscriptions_le (h : Edits todo bound loose w w') :
    w.subscriptions ≤ w'.subscriptions := by
  induction h with
  | refl => exact le_refl _
  | tail _ hedit ih => exact ih.trans hedit.subscriptions_le

theorem Edits.linked (h : Edits todo bound loose w w') (sound : w.Sound)
    (linked : w.Linked todo loose) (room : w'.subscriptions ≤ 2 ^ 64) :
    w'.Linked todo loose := by
  induction h with
  | refl => exact linked
  | tail hedits hedit ih =>
    exact hedit.linked (Edits.sound hedits sound)
      (ih (hedit.subscriptions_le.trans room)) room

/-- What decides whether bridges are linked: the names, what was made, the
listeners and the subscriptions. -/
structure World.SameLinks (w w' : World) : Prop where
  names : w'.names = w.names
  has : ∀ o, w'.Has o ↔ w.Has o
  notifiers : w'.notifiers = w.notifiers
  subscriptions : w'.subscriptions = w.subscriptions
  subscription : ∀ b, w'.subscription b = w.subscription b

theorem World.sameLinks_of_bridges (has : ∀ o, w'.Has o = w.Has o)
    (names : w'.names = w.names) (notifiers : w'.notifiers = w.notifiers)
    (subscriptions : w'.subscriptions = w.subscriptions)
    (key : ∀ r, (w'.keyBridges.get r).subscription =
      (w.keyBridges.get r).subscription)
    (query : ∀ q, (w'.queryBridges.get q).subscription =
      (w.queryBridges.get q).subscription) : w.SameLinks w' := by
  refine ⟨names, fun o => iff_of_eq (has o), notifiers, subscriptions, ?_⟩
  intro b
  cases b with
  | key r => exact key r
  | query q => exact query q

theorem World.SameLinks.linked (same : w.SameLinks w')
    (linked : w.Linked todo loose) : w'.Linked todo loose := by
  obtain ⟨names, has, notifiers, subscriptions, subscription⟩ := same
  have hheld : ∀ o, w'.isHeldWith todo o = w.isHeldWith todo o := by
    intro o
    simp only [World.isHeldWith, World.isNamed, names]
  have hknown : ∀ o, w'.Known todo loose o ↔ w.Known todo loose o := by
    intro o
    simp only [World.Known, has, hheld]
  have hsubscription : ∀ o, w'.subscriptionOf? o = w.subscriptionOf? o := by
    intro o
    cases o with
    | keyBridge r => exact congrArg some (subscription (.key r))
    | queryBridge q => exact congrArg some (subscription (.query q))
    | _ => rfl
  constructor
  · exact fun o ho => (has o).mpr (linked.made o ho)
  · intro o s known hs
    rw [subscriptions]
    rw [hknown] at known
    rw [hsubscription] at hs
    exact linked.issued o s known hs
  · intro o o' s s' known known' hs hs'
    rw [hknown] at known known'
    rw [hsubscription] at hs hs'
    exact linked.distinct o o' s s' known known' hs hs'
  · intro b hb held
    rw [has] at hb
    rw [hheld] at held
    rw [World.Attached, subscription, notifiers]
    exact linked.attached b hb held

/-- Fewer objects may be let go, and fewer tasks hold any. -/
theorem World.Linked.mono {todo' : List Task} {loose' : Object → Prop}
    (linked : w.Linked todo loose) (made : ∀ o, loose' o → w.Has o)
    (known : ∀ o, w.Known todo' loose' o → w.Known todo loose o)
    (held : ∀ b : Bridge, w.isHeldWith todo' b.object →
      w.isHeldWith todo b.object) : w.Linked todo' loose' :=
  ⟨made, fun o s ho hs => linked.issued o s (known o ho) hs,
    fun o o' s s' ho ho' hs hs' =>
      linked.distinct o o' s s' (known o ho) (known o' ho') hs hs',
    fun b hb hheld => linked.attached b hb (held b hheld)⟩

/-- What a task does besides the changes of a command touches no links. -/
theorem Effect.sameLinks {m : Machine} {t : Task} (h : Effect m t w) :
    (∃ loose, (∀ o, loose o → m.world.isNamed o ∨ o ∈ t.held) ∧
        Edits m.todo t.bound loose m.world w) ∨
      m.world.SameLinks w := by
  cases h with
  | edits t loose known edits => exact Or.inl ⟨loose, known, edits⟩
  | adopt q audience change origin alive affects =>
    right
    unfold World.adopt
    split
    · exact World.sameLinks_of_bridges (fun o => by cases o <;> rfl) rfl rfl rfl
        (fun _ => rfl)
        fun _ => Pool.apply_get_set (g := QueryBridge.subscription) rfl
    · exact ⟨rfl, fun o => Iff.rfl, rfl, rfl, fun b => rfl⟩
  | leaveScope r reaction =>
    right
    simp only [World.leaveScope]
    split <;> exact World.sameLinks_of_bridges (fun o => by cases o <;> rfl) rfl
      rfl rfl (fun _ => rfl) fun _ => rfl
  | invalidate b =>
    right
    cases b with
    | key x =>
      exact World.sameLinks_of_bridges (fun o => by cases o <;> rfl) rfl rfl rfl
        (fun _ => Pool.apply_get_set (g := KeyBridge.subscription) rfl)
        fun _ => rfl
    | query x =>
      exact World.sameLinks_of_bridges (fun o => by cases o <;> rfl) rfl rfl rfl
        (fun _ => rfl)
        fun _ => Pool.apply_get_set (g := QueryBridge.subscription) rfl
  | settleKey =>
    exact Or.inr (World.sameLinks_of_bridges (fun o => by cases o <;> rfl) rfl
      rfl rfl (fun _ => Pool.apply_get_set (g := KeyBridge.subscription) rfl)
      fun _ => rfl)
  | bindContext | settleQuery | missContext =>
    exact Or.inr (World.sameLinks_of_bridges (fun o => by cases o <;> rfl) rfl
      rfl rfl (fun _ => rfl)
      fun _ => Pool.apply_get_set (g := QueryBridge.subscription) rfl)
  | _ =>
    exact Or.inr (World.sameLinks_of_bridges (fun o => by cases o <;> rfl) rfl
      rfl rfl (fun _ => rfl) fun _ => rfl)

namespace Machine

variable {m : Machine}

theorem subscriptions_le_step (m : Machine) :
    m.world.subscriptions ≤ m.step.world.subscriptions := by
  cases h : m.todo with
  | nil => rw [step_of_todo_nil h]
  | cons t rest =>
    rcases (effect_step h).sameLinks with ⟨loose, -, hedits⟩ | hsame
    · exact hedits.subscriptions_le
    · exact le_of_eq hsame.subscriptions.symm

/-- Whatever a task holds that was not there before has a name, unless it is
a bus. -/
theorem held_doTask {t x : Task} (hx : x ∈ (m.doTask t).todo)
    {o : Object} (ho : o ∈ x.held) :
    x ∈ m.todo ∨ (∃ n, o = .bus n) ∨ (m.doTask t).world.isNamed o := by
  rcases follows_of_mem hx with hx | hfollows
  · exact Or.inl hx
  · right
    cases hfollows with
    | begun c nested left => cases left <;> exact absurd ho List.not_mem_nil
    | finish begun =>
      rw [doTask, perform_of_begin begun]
      exact (begins_of_begin begun).isNamed_held ho
    | _ => exact absurd ho List.not_mem_nil

/-- Subscriptions are told apart, and held bridges are attached. -/
def Linked (m : Machine) : Prop :=
  m.world.Linked m.todo fun _ => False

theorem Linked.step (linked : m.Linked) (sound : m.Sound)
    (room : m.step.world.subscriptions ≤ 2 ^ 64) : m.step.Linked := by
  cases htodo : m.todo with
  | nil => rwa [step_of_todo_nil htodo]
  | cons t rest =>
    have heffect := effect_step htodo
    -- While the task is done, what it held may be let go.
    have hmade : ∀ o, m.world.isNamed o ∨ o ∈ t.held → m.world.Has o := by
      rintro o (named | ho)
      · exact sound.world.names o named
      · apply sound.has_of_head htodo
        cases t with
        | finish label held nested => exact ho
        | _ => exact absurd ho List.not_mem_nil
    have hheld : ∀ o, m.world.isHeldWith rest o →
        m.world.isHeldWith m.todo o := by
      intro o ho
      rw [World.isHeldWith_iff] at ho ⊢
      apply ho.imp_right
      rintro ⟨x, hx, ho⟩
      exact ⟨x, htodo ▸ List.mem_cons_of_mem t hx, ho⟩
    have hduring : m.world.Linked rest
        fun o => m.world.isNamed o ∨ o ∈ t.held := by
      refine World.Linked.mono linked hmade ?_ fun b => hheld b.object
      intro o ho
      refine ⟨ho.1, fun s hs => Or.inl ?_⟩
      rcases ho.2 s hs with held | named | held
      · exact hheld o held
      · exact World.isHeldWith_iff.mpr (Or.inl named)
      · exact World.isHeldWith_iff.mpr
          (Or.inr ⟨t, htodo ▸ List.mem_cons_self, held⟩)
    have hafter : m.step.world.Linked rest fun _ => False := by
      rcases heffect.sameLinks with ⟨loose, known, hedits⟩ | hsame
      · have hloose : m.world.Linked rest loose := by
          refine World.Linked.mono hduring (fun o ho => hmade o (known o ho))
            ?_ fun b hb => hb
          exact fun o ho => ⟨ho.1, fun s hs =>
            (ho.2 s hs).imp_right (known o)⟩
        have hlinked := hedits.linked sound.world hloose room
        exact World.Linked.mono hlinked (fun o ho => ho.elim)
          (fun o ho => ⟨ho.1, fun s hs =>
            Or.inl ((ho.2 s hs).resolve_right fun h => h)⟩) fun b hb => hb
      · have hlinked := hsame.linked hduring
        exact World.Linked.mono hlinked (fun o ho => ho.elim)
          (fun o ho => ⟨ho.1, fun s hs =>
            Or.inl ((ho.2 s hs).resolve_right fun h => h)⟩) fun b hb => hb
    -- A command that has begun holds nothing but what has a name.
    have hpushed : ∀ o, (∀ n, o ≠ .bus n) →
        m.step.world.isHeldWith m.step.todo o →
        m.step.world.isHeldWith rest o := by
      intro o other ho
      rw [step_of_todo_cons htodo] at ho ⊢
      rw [World.isHeldWith_iff] at ho ⊢
      rcases ho with named | ⟨x, hx, ho⟩
      · exact Or.inl named
      · rcases held_doTask hx ho with hx | ⟨n, rfl⟩ | named
        · exact Or.inr ⟨x, hx, ho⟩
        · exact absurd rfl (other n)
        · exact Or.inl named
    refine World.Linked.mono hafter (fun o ho => ho.elim) ?_ ?_
    · intro o ho
      refine ⟨ho.1, fun s hs => (ho.2 s hs).imp_left ?_⟩
      exact hpushed o (by simp [hs])
    · intro b hb
      exact hpushed _ (by cases b <;> simp [Bridge.object]) hb

theorem isHeld_eq (m : Machine) (o : Object) :
    m.isHeld o = m.world.isHeldWith m.todo o := rfl

/-- A bridge that is held after a step was held before it, or was not made
yet. -/
theorem isHeld_of_step {b : Bridge} (has : m.world.Has b.object)
    (held : m.step.isHeld b.object) : m.isHeld b.object := by
  cases htodo : m.todo with
  | nil => rwa [step_of_todo_nil htodo] at held
  | cons t rest =>
    have heffect := effect_step htodo
    have hnamed (named : m.step.world.isNamed b.object) :
        m.isHeld b.object := by
      rw [isHeld_eq, World.isHeldWith_iff]
      exact Or.inl (heffect.isNamed has b.object_ne_subscription named)
    rw [isHeld_eq, World.isHeldWith_iff] at held
    rcases held with named | ⟨x, hx, ho⟩
    · exact hnamed named
    · rw [step_of_todo_cons htodo] at hx
      rcases held_doTask hx ho with hx | ⟨n, hn⟩ | named
      · rw [isHeld_eq, World.isHeldWith_iff]
        exact Or.inr ⟨x, htodo ▸ List.mem_cons_of_mem t hx, ho⟩
      · cases b <;> simp [Bridge.object] at hn
      · rw [← step_of_todo_cons htodo] at named
        exact hnamed named

theorem subscriptions_le_run {i j : ℕ} (le : i ≤ j) :
    (run i m).world.subscriptions ≤ (run j m).world.subscriptions := by
  induction le with
  | refl => exact le_refl _
  | step _ ih =>
    rw [run_succ]
    exact ih.trans (subscriptions_le_step _)

theorem linked_ofCommands (commands : List Command) :
    (ofCommands commands).Linked := by
  -- Nothing has a name yet, and there are no bridges.
  have hunknown : ∀ o s,
      (ofCommands commands).world.subscriptionOf? o = some s →
      ¬ (ofCommands commands).world.Known (ofCommands commands).todo
        (fun _ => False) o := by
    intro o s hs known
    rcases World.subscriptionOf_eq_some hs with rfl | ⟨b, rfl, -⟩
    · rcases known.2 s rfl with held | hfalse
      · rcases World.isHeldWith_iff.mp held with named | ⟨t, ht, ho⟩
        · exact Bool.false_ne_true named
        · obtain ⟨c, -, rfl⟩ := List.mem_map.mp ht
          exact absurd ho List.not_mem_nil
      · exact hfalse
    · have := known.1
      cases b <;> exact Nat.not_lt_zero _ this
  refine ⟨fun o ho => ho.elim, ?_, ?_, ?_⟩
  · exact fun o s known hs => absurd known (hunknown o s hs)
  · exact fun o _ s _ known _ hs _ _ => absurd known (hunknown o s hs)
  · intro b has
    cases b <;> exact (Nat.not_lt_zero _ has).elim

/-- As long as there are no more subscriptions than numbers, every bridge
that a client has a handle on is attached where it subscribed. -/
theorem linked_run (commands : List Command) {n : ℕ}
    (room : (run n (ofCommands commands)).world.subscriptions ≤ 2 ^ 64) :
    (run n (ofCommands commands)).Linked := by
  induction n with
  | zero => exact linked_ofCommands commands
  | succ n ih =>
    rw [run_succ] at room ⊢
    have hearlier := (subscriptions_le_step _).trans room
    exact (ih hearlier).step (sound_run commands n) room

end Machine

end LiveProperty
