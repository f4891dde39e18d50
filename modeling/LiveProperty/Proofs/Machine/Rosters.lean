import LiveProperty.Proofs.Machine.Handles

/-!
# Rosters

The roster of a notifier lists the listeners that are attached to it, each
with the number of its subscription.  A command attaches at most one listener,
behind all others, and detaches those that it is told to and those to which a
client has no handle any more.  `Handles` says so for every command; no other
task changes a roster, unless it finishes a command.
-/

namespace LiveProperty

namespace World

variable {w w' : World} {n source : Ref .notifier}

/-- The listeners that are attached to a notifier, with the numbers of their
subscriptions. -/
def roster (w : World) (n : Ref .notifier) : List (SubscriberId × Listener) :=
  (w.notifiers.get n).listeners

/-- What a roster gains when a listener is attached somewhere. -/
def gains (w : World) (new : Option (Ref .notifier × Listener))
    (n : Ref .notifier) : List (SubscriberId × Listener) :=
  (new.filter fun x => x.1 = n).toList.map fun x => (w.freshSubscriber, x.2)

/-- A notifier that was not made yet has no listeners. -/
def Blank (w : World) : Prop :=
  ∀ n : Ref .notifier, w.notifiers.next ≤ n.index → w.roster n = []

@[simp] theorem gains_none (n : Ref .notifier) : w.gains none n = [] := rfl

theorem mem_gains {new : Option (Ref .notifier × Listener)}
    {entry : SubscriberId × Listener} :
    entry ∈ w.gains new n ↔
      ∃ l, new = some (n, l) ∧ entry = (w.freshSubscriber, l) := by
  rcases new with _ | ⟨source, l⟩
  · simp
  · by_cases h : source = n
    · simp [gains, Option.filter, h]
    · simp [gains, Option.filter, h]

theorem roster_detach (id : SubscriberId) :
    (w.detach source id).roster n =
      (w.roster n).filter fun entry => ¬ (n = source ∧ entry.1 = id) := by
  by_cases hn : n = source
  · subst hn
    have hself : (w.detach n id).notifiers.get n =
        (w.notifiers.get n).detach id := Pool.get_modify_self _
    simp [roster, hself, Notifier.detach]
  · have hother : (w.detach source id).notifiers.get n = w.notifiers.get n :=
      Pool.get_modify_of_ne _ hn
    simp [roster, hother, hn]

theorem roster_letGo (o : Object) :
    (w.letGo o).roster n =
      (w.roster n).filter fun entry => w.subscriptionOf? o ≠ some ⟨entry.1, n⟩ := by
  cases h : w.subscriptionOf? o with
  | none =>
    have heq : w.letGo o = w := by simp [letGo, h]
    simp [heq]
  | some s =>
    have heq : w.letGo o = w.detach s.source s.id := by simp [letGo, h]
    rw [heq, roster_detach]
    obtain ⟨id, source⟩ := s
    refine List.filter_congr fun entry _ => ?_
    simp only [ne_eq, Option.some.injEq, Subscription.mk.injEq]
    congr 1
    exact propext ⟨fun h hs => h ⟨hs.2.symm, hs.1.symm⟩,
      fun h hs => h ⟨hs.2.symm, hs.1.symm⟩⟩

theorem roster_subscribe (l : Listener) :
    (w.subscribe source l).roster n =
      w.roster n ++ w.gains (some (source, l)) n := by
  by_cases hn : n = source
  · subst hn
    have hself : (w.subscribe n l).notifiers.get n =
        (w.notifiers.get n).attach w.freshSubscriber l :=
      Pool.get_modify_self _
    simp [roster, hself, Notifier.attach, gains, Option.filter]
  · have hother : (w.subscribe source l).notifiers.get n = w.notifiers.get n :=
      Pool.get_modify_of_ne _ hn
    simp [roster, hother, gains, Option.filter, Ne.symm hn]

theorem roster_addNotifier (blank : w.Blank) :
    w.addNotifier.roster n = w.roster n := by
  by_cases hn : n = w.notifiers.fresh
  · subst hn
    have hnew : w.addNotifier.notifiers.get w.notifiers.fresh = {} :=
      Pool.get_add_fresh _ _
    have hold : w.roster w.notifiers.fresh = [] := blank _ (Nat.le_refl _)
    rw [hold, roster, hnew]
  · have hother : w.addNotifier.notifiers.get n = w.notifiers.get n :=
      Pool.get_add_of_ne _ hn
    rw [roster, hother, roster]

theorem roster_of_notifiers_eq (h : w'.notifiers = w.notifiers)
    (n : Ref .notifier) : w'.roster n = w.roster n := by
  rw [roster, h, roster]

theorem audience_eq (w : World) (n : Ref .notifier) :
    w.audience n = (w.roster n).map Prod.snd := rfl

/-! ## What commands say -/

/-- The listener that a command attaches, and where. -/
def attaches? (w : World) : Action → Option (Ref .notifier × Listener)
  | .notice (.subscribe name source _) =>
    (Machine.source? w source).map fun x =>
      (x.1, .client name w.plans.fresh x.2)
  | .store (.newKeyBridge _ _ _ _ store _ presenter) =>
    match neededIfGiven w.store? store, neededIfGiven w.presenter? presenter with
    | .ok s, .ok _ =>
      some ((w.stores.get (s.getD w.defaultStore)).changes,
        .keyBridge w.keyBridges.fresh)
    | _, _ => none
  | .query (.newQueryBridge _ _ parts) =>
    match parts.foldlM (Machine.QueryDraft.add w) { changes := w.sharedBus } with
    | .ok d =>
      (Envelope.ofParts? d.transaction d.animation).map fun _ =>
        (d.changes, .queryBridge w.queryBridges.fresh)
    | .error _ => none
  | _ => none

/-- The number that a command detaches, and from which notifier. -/
def detaches? (w : World) : Action → Option (Ref .notifier × SubscriberId)
  | .notice (.unsubscribe notifier subscription) =>
    (w.notifier? notifier).bind fun n =>
      (w.subscription? subscription).map fun s => (n, s.id)
  | _ => none

/-- What a command announces, and on which notifier. -/
def announces? (w : World) : Action → Option (Ref .notifier × Event)
  | .notice (.announce notifier event) =>
    (w.notifier? notifier).map fun n => (n, .value event)
  | .context (.announceChange bus change) =>
    (w.bus? bus).bind fun n => (w.change? change).map fun c => (n, .change c)
  | .context (.saveContext context) =>
    (w.context? context).bind fun c =>
      if (w.saveEvent c).isEmpty then none
      else some ((w.contexts.get c).changes, .change (w.saveEvent c))
  | _ => none

/-- At most one listener was attached, and what was made before has the
subscription that it had. -/
structure Joins (w w' : World) (new : Option (Ref .notifier × Listener)) :
    Prop where
  names : w'.names = w.names
  roster : ∀ n, w'.roster n = w.roster n ++ w.gains new n
  count : new.isSome → w'.subscriptions = w.subscriptions + 1
  kept : ∀ o, w.Has o → w'.subscriptionOf? o = w.subscriptionOf? o

theorem joins_none (names : w'.names = w.names)
    (notifiers : w'.notifiers = w.notifiers)
    (kept : ∀ o, w'.subscriptionOf? o = w.subscriptionOf? o) :
    w.Joins w' none := by
  refine ⟨names, fun n => ?_, by simp, fun o _ => kept o⟩
  rw [roster_of_notifiers_eq notifiers, gains_none, List.append_nil]

end World

namespace Machine

variable {m : Machine} {a : Action}

/-! ## Commands -/

/-- What a command holds: no subscription, and one bridge at most. -/
structure HoldsOne (objects : List Object) : Prop where
  subscription : ∀ s, .subscription s ∉ objects
  bridge : ∀ d d' : Bridge, d.object ∈ objects → d'.object ∈ objects → d = d'

theorem holdsOne_nil : HoldsOne [] :=
  ⟨nofun, fun _ _ h => absurd h List.not_mem_nil⟩

theorem holdsOne_singleton {o : Object} (other : ∀ s, o ≠ .subscription s) :
    HoldsOne [o] := by
  refine ⟨fun s hs => other s (List.mem_singleton.mp hs).symm,
    fun d d' hd hd' => ?_⟩
  have heq := (List.mem_singleton.mp hd).trans (List.mem_singleton.mp hd').symm
  cases d <;> cases d' <;> cases heq <;> rfl

theorem holdsOne_pair (q : Ref .queryBridge) (c : Ref .context) :
    HoldsOne [.queryBridge q, .context c] := by
  refine ⟨by simp, fun d d' hd hd' => ?_⟩
  have hquery {d : Bridge}
      (hd : d.object ∈ [Object.queryBridge q, Object.context c]) :
      d = .query q := by
    cases d with
    | key r => simp [Bridge.object] at hd
    | query r => simpa [Bridge.object] using hd
  rw [hquery hd, hquery hd']

/-- How a command that has begun dealt with names and rosters, and what it
announces. -/
inductive Handles (m : Machine) (a : Action) : Begun → Prop
  /-- No name and no listener comes or goes. -/
  | stays {b : Begun} (names : b.machine.world.names = m.world.names)
      (roster : ∀ n, b.machine.world.roster n = m.world.roster n)
      (held : HoldsOne b.held)
      (announced : ∀ audience event, .deliver audience event ∈ b.tasks →
        ∃ n, m.world.announces? a = some (n, event) ∧
          audience = m.world.audience n)
      (attaches : m.world.attaches? a = none)
      (detaches : m.world.detaches? a = none) : Handles m a b
  | detaches (n : Ref .notifier) (id : SubscriberId)
      (named : m.world.detaches? a = some (n, id)) :
      Handles m a (m.changing fun w => w.detach n id)
  | forgets (name : String) (discards : a = .drop name ∨ a = .cancel name) :
      Handles m a ((m.forget name).answering .nothing)
  /-- A name is given to something new, and what it stood for before goes. -/
  | renames {w : World} (name : String) (x : Named) (r : Reply)
      (joins : m.world.Joins w (m.world.attaches? a))
      (new : ∀ o, x = .object o → ¬ m.world.Has o ∨
        (m.world.attaches? a).isSome ∧
          ∃ n, o = .subscription (m.world.freshSubscription n))
      (detaches : m.world.detaches? a = none) :
      Handles m a ((({ m with world := w }).rename name x).answering r)

theorem handles_answering {r : Reply} (attaches : m.world.attaches? a = none)
    (detaches : m.world.detaches? a = none) : Handles m a (m.answering r) :=
  .stays rfl (fun _ => rfl) holdsOne_nil (by simp [answering]) attaches detaches

theorem handles_changing {f : World → World}
    (names : (f m.world).names = m.world.names)
    (notifiers : (f m.world).notifiers = m.world.notifiers)
    (attaches : m.world.attaches? a = none)
    (detaches : m.world.detaches? a = none) : Handles m a (m.changing f) :=
  .stays names (World.roster_of_notifiers_eq notifiers) holdsOne_nil
    (by simp [changing, answering]) attaches detaches

theorem handles_making {name : String} {o : Object} {f : World → World}
    (joins : m.world.Joins (f m.world) (m.world.attaches? a))
    (new : ¬ m.world.Has o) (detaches : m.world.detaches? a = none) :
    Handles m a (m.making name o f) := by
  refine .renames name (.object o) .nothing joins ?_ detaches
  rintro x hx
  cases hx
  exact Or.inl new

theorem handles_beginNotice {a : NoticeAction} {b : Begun}
    (blank : m.world.Blank) (h : m.beginNotice a = .ok b) :
    Handles m (.notice a) b := by
  cases a with
  | newCache name =>
    cases h
    exact handles_making (World.joins_none rfl rfl fun o => by cases o <;> rfl)
      (Nat.lt_irrefl _) rfl
  | newNotifier name =>
    cases h
    refine handles_making ⟨rfl, fun n => ?_, nofun, fun o _ => ?_⟩
      (Nat.lt_irrefl _) rfl
    · rw [World.roster_addNotifier blank]
      exact (List.append_nil _).symm
    · cases o <;> rfl
  | announce notifier event =>
    obtain ⟨n, hn, h⟩ := needed_bind_eq_ok.mp h
    cases h
    refine .stays rfl (fun _ => rfl) (holdsOne_singleton nofun) ?_ rfl rfl
    intro audience event' hmem
    simp at hmem
    exact ⟨n, by simp [World.announces?, hn, hmem.2], hmem.1⟩
  | unsubscribe notifier subscription =>
    obtain ⟨n, hn, h⟩ := needed_bind_eq_ok.mp h
    obtain ⟨s, hs, h⟩ := needed_bind_eq_ok.mp h
    cases h
    exact .detaches n s.id (by simp [World.detaches?, hn, hs])
  | subscribe name source script =>
    obtain ⟨⟨n, onlyKey⟩, hn, h⟩ := needed_bind_eq_ok.mp h
    cases h
    have hattaches : m.world.attaches? (.notice (.subscribe name source script)) =
        some (n, .client name m.world.plans.fresh onlyKey) := by
      simp [World.attaches?, hn]
    refine .renames name _ _ ?_ ?_ rfl
    · rw [hattaches]
      exact ⟨rfl, fun k => World.roster_subscribe _, fun _ => rfl,
        fun o _ => by cases o <;> rfl⟩
    · intro o ho
      cases ho
      exact Or.inr ⟨by rw [hattaches]; rfl, n, rfl⟩
  | freshSubscriber =>
    cases h
    exact .stays rfl (fun _ => rfl) holdsOne_nil (by simp [answering]) rfl rfl
  | readCache cache value during =>
    obtain ⟨c, -, h⟩ := needed_bind_eq_ok.mp h
    cases h
    exact .stays rfl (fun _ => rfl) (holdsOne_singleton nofun) (by simp)
      rfl rfl
  | tryCache cache outcome during =>
    obtain ⟨c, -, h⟩ := needed_bind_eq_ok.mp h
    cases h
    exact .stays rfl (fun _ => rfl) (holdsOne_singleton nofun) (by simp)
      rfl rfl
  | invalidateCache cache =>
    obtain ⟨c, -, h⟩ := needed_bind_eq_ok.mp h
    cases h
    exact handles_changing rfl rfl rfl rfl
  | cacheState | countListeners =>
    obtain ⟨x, -, h⟩ := needed_bind_eq_ok.mp h
    cases h
    exact handles_answering rfl rfl

theorem deliver_not_mem_readTasks {w : World} {s : Ref .store}
    {audience : List Listener} {event : Event} :
    .deliver audience event ∉ readTasks w s := by
  simp [readTasks]

theorem deliver_not_mem_accessTasks {b : Bridge} {audience : List Listener}
    {event : Event} : .deliver audience event ∉ m.accessTasks b := by
  unfold accessTasks
  split <;> simp

/-- A new key bridge listens to the store it is over. -/
theorem handles_makeKeyBridge {name key : String} {kind : Storable}
    {initial : kind.Value} {s : Ref .store} {envelope : Envelope}
    {p : Option (Ref .presenter)}
    (attaches : m.world.attaches? a = some
      ((m.world.stores.get s).changes, .keyBridge m.world.keyBridges.fresh))
    (detaches : m.world.detaches? a = none) :
    Handles m a (m.makeKeyBridge name key kind initial s envelope p) := by
  refine handles_making ?_ (Nat.lt_irrefl _) detaches
  rw [attaches]
  refine ⟨rfl, fun k => World.roster_subscribe _, fun _ => rfl,
    fun o ho => ?_⟩
  cases o with
  | keyBridge r =>
    exact congrArg (fun b : KeyBridge => some b.subscription)
      (Pool.get_add_of_lt _ ho)
  | _ => rfl

theorem handles_beginStore {a : StoreAction} {b : Begun}
    (blank : m.world.Blank) (h : m.beginStore a = .ok b) :
    Handles m (.store a) b := by
  cases a with
  | newStore name suite onRead =>
    cases h
    refine handles_making ⟨rfl, fun n => ?_, nofun, fun o _ => ?_⟩
      (Nat.lt_irrefl _) rfl
    · exact (World.roster_addNotifier (w := m.world.addPlan onRead) blank).trans
        (List.append_nil _).symm
    · cases o <;> rfl
  | resetDefaultStore =>
    cases h
    exact .stays rfl (fun n => World.roster_addNotifier blank) holdsOne_nil
      (by simp [changing, answering]) rfl rfl
  | writeStore store key value =>
    obtain ⟨s, -, h⟩ := needed_bind_eq_ok.mp h
    cases h
    exact .stays rfl (fun _ => rfl) (holdsOne_singleton nofun) (by simp)
      rfl rfl
  | setDefaultStore store =>
    obtain ⟨s, -, h⟩ := needed_bind_eq_ok.mp h
    cases h
    exact handles_changing rfl rfl rfl rfl
  | readDefaultStore key =>
    cases h
    exact .stays rfl (fun _ => rfl) holdsOne_nil
      (by simp [deliver_not_mem_readTasks]) rfl rfl
  | writeDefaultStore key value =>
    cases h
    exact .stays rfl (fun _ => rfl) holdsOne_nil (by simp) rfl rfl
  | countDefaultStoreListeners =>
    cases h
    exact handles_answering rfl rfl
  | newKeyBridge name key kind initial store envelope presenter =>
    have hattaches (s : Option (Ref .store)) (p : Option (Ref .presenter))
        (hs : neededIfGiven m.world.store? store = .ok s)
        (hp : neededIfGiven m.world.presenter? presenter = .ok p) :
        m.world.attaches? (.store
            (.newKeyBridge name key kind initial store envelope presenter)) =
          some ((m.world.stores.get (s.getD m.world.defaultStore)).changes,
            .keyBridge m.world.keyBridges.fresh) := by
      simp [World.attaches?, hs, hp]
    simp only [beginStore, bind, Except.bind] at h
    split at h
    · cases h
    · next s hs =>
      split at h
      · cases h
      · next p hp =>
        cases h
        cases s <;> exact handles_makeKeyBridge (hattaches _ _ hs hp) rfl
  | getKey bridge =>
    obtain ⟨r, -, h⟩ := needed_bind_eq_ok.mp h
    cases h
    exact .stays rfl (fun _ => rfl) (holdsOne_singleton nofun)
      (by simp [deliver_not_mem_accessTasks]) rfl rfl
  | setKey bridge value =>
    obtain ⟨r, -, h⟩ := needed_bind_eq_ok.mp h
    cases value with
    | none =>
      cases h
      exact .stays rfl (fun _ => rfl) (holdsOne_singleton nofun) (by simp)
        rfl rfl
    | some spelled =>
      simp only at h
      split at h
      · cases h
        simp only [writingKey]
        split
        · exact .stays rfl (fun _ => rfl) (holdsOne_singleton nofun) (by simp)
            rfl rfl
        · exact handles_changing rfl rfl rfl rfl
      · cases h
  | observeKey bridge owner property =>
    obtain ⟨r, -, h⟩ := needed_bind_eq_ok.mp h
    obtain ⟨o, -, h⟩ := needed_bind_eq_ok.mp h
    cases h
    exact handles_changing rfl rfl rfl rfl
  | peekStore | storeInfo | keyBridgeInfo =>
    obtain ⟨x, -, h⟩ := needed_bind_eq_ok.mp h
    cases h
    exact handles_answering rfl rfl

theorem handles_beginObservation {a : ObservationAction} {b : Begun}
    (h : m.beginObservation a = .ok b) : Handles m (.observation a) b := by
  cases a with
  | newRegistrar name | newPresenter name before after calls =>
    cases h
    exact handles_making (World.joins_none rfl rfl fun o => by cases o <;> rfl)
      (Nat.lt_irrefl _) rfl
  | newHook name onAccess before after calls registrar =>
    rcases neededIfGiven_bind_eq_ok.mp h with ⟨-, h⟩ | ⟨_, r, -, -, h⟩ <;>
      cases h <;>
        exact handles_making
          (World.joins_none rfl rfl fun o => by cases o <;> rfl)
          (Nat.lt_irrefl _) rfl
  | newBinding name owner property =>
    obtain ⟨o, -, h⟩ := needed_bind_eq_ok.mp h
    cases h
    exact .renames (w := m.world) name _ _
      (World.joins_none rfl rfl fun _ => rfl) nofun rfl
  | runEnvelope envelope presenter body =>
    rcases neededIfGiven_bind_eq_ok.mp h with ⟨-, h⟩ | ⟨_, p, -, -, h⟩
    · cases h
      exact .stays rfl (fun _ => rfl) holdsOne_nil (by simp) rfl rfl
    · cases h
      exact .stays rfl (fun _ => rfl) (holdsOne_singleton nofun) (by simp) rfl
        rfl
  | access registrar property | mutate registrar property during =>
    obtain ⟨r, -, h⟩ := needed_bind_eq_ok.mp h
    cases h
    exact .stays rfl (fun _ => rfl) (holdsOne_singleton nofun) (by simp)
      rfl rfl
  | observe registrar label apply onChange =>
    obtain ⟨r, -, h⟩ := needed_bind_eq_ok.mp h
    cases h
    exact .stays rfl (fun _ => rfl) (holdsOne_singleton nofun)
      (by simp [Task.nested]) rfl rfl
  | registrarInfo | bindingInfo =>
    obtain ⟨x, -, h⟩ := needed_bind_eq_ok.mp h
    cases h
    exact handles_answering rfl rfl
  | installPresenter presenter =>
    obtain ⟨p, -, h⟩ := needed_bind_eq_ok.mp h
    cases h
    exact handles_changing rfl rfl rfl rfl
  | uninstallPresenter =>
    cases h
    exact handles_changing rfl rfl rfl rfl
  | presenterInstalled =>
    cases h
    exact handles_answering rfl rfl

theorem handles_beginContext {a : ContextAction} {b : Begun}
    (blank : m.world.Blank) (h : m.beginContext a = .ok b) :
    Handles m (.context a) b := by
  cases a with
  | newBus name =>
    cases h
    refine handles_making ⟨rfl, fun n => ?_, by rintro ⟨⟩, fun o _ => ?_⟩
      (Nat.lt_irrefl _) rfl
    · rw [World.roster_addNotifier blank]
      exact (List.append_nil _).symm
    · cases o <;> rfl
  | announceChange bus change =>
    obtain ⟨n, hn, h⟩ := needed_bind_eq_ok.mp h
    obtain ⟨c, hc, h⟩ := needed_bind_eq_ok.mp h
    cases h
    refine .stays rfl (fun _ => rfl) (holdsOne_singleton (by simp)) ?_ rfl rfl
    intro audience event hmem
    simp at hmem
    exact ⟨n, by simp [World.announces?, hn, hc, hmem.2], hmem.1⟩
  | newChange name change origin =>
    obtain ⟨c, -, h⟩ := needed_bind_eq_ok.mp h
    rcases neededIfGiven_bind_eq_ok.mp h with ⟨-, h⟩ | ⟨_, o, -, -, h⟩ <;>
      cases h <;>
        exact .renames (w := m.world) name _ _
          (World.joins_none rfl rfl fun _ => rfl) (by simp) rfl
  | changeInfo | changeAffects | contextInfo =>
    obtain ⟨x, -, h⟩ := needed_bind_eq_ok.mp h
    cases h
    exact handles_answering rfl rfl
  | changeSame | getRow =>
    obtain ⟨x, -, h⟩ := needed_bind_eq_ok.mp h
    obtain ⟨y, -, h⟩ := needed_bind_eq_ok.mp h
    cases h
    exact handles_answering rfl rfl
  | newContext name sort bus | newSupervisedContext name bus =>
    obtain ⟨n, -, h⟩ := needed_bind_eq_ok.mp h
    cases h
    exact handles_making (World.joins_none rfl rfl fun o => by cases o <;> rfl)
      (Nat.lt_irrefl _) rfl
  | insertRow context rowType content name =>
    obtain ⟨c, -, h⟩ := needed_bind_eq_ok.mp h
    cases h
    cases name with
    | none =>
      exact .stays rfl (fun _ => rfl) holdsOne_nil (by simp [answering]) rfl rfl
    | some name =>
      exact .renames _ _ _ (World.joins_none rfl rfl fun o => by cases o <;> rfl)
        (by simp) rfl
  | updateRow context rowType row content | deleteRow context rowType row =>
    obtain ⟨c, -, h⟩ := needed_bind_eq_ok.mp h
    obtain ⟨id, -, h⟩ := needed_bind_eq_ok.mp h
    cases h
    simp only [writing]
    split
    · exact .stays rfl (fun _ => rfl) holdsOne_nil (by simp [answering]) rfl rfl
    · exact handles_answering rfl rfl
  | saveContext context =>
    obtain ⟨c, hc, h⟩ := needed_bind_eq_ok.mp h
    cases h
    cases hempty : (m.world.saveEvent c).isEmpty with
    | true =>
      have heq : m.saving c = m.answering (.number 0) := by
        simp [saving, hempty]
      rw [heq]
      exact handles_answering rfl rfl
    | false =>
      simp only [saving, hempty, Bool.false_eq_true, if_false]
      refine .stays rfl (fun _ => rfl) (holdsOne_singleton (by simp)) ?_ rfl rfl
      intro audience event hmem
      simp [announcing] at hmem
      exact ⟨(m.world.contexts.get c).changes,
        by simp [World.announces?, hc, hempty, hmem.2], hmem.1⟩
  | fetchRows context rowType descriptor =>
    obtain ⟨c, -, h⟩ := needed_bind_eq_ok.mp h
    cases h
    exact .stays rfl (fun _ => rfl) (holdsOne_singleton (by simp)) (by simp)
      rfl rfl
  | setDefaultContext context =>
    obtain ⟨c, -, h⟩ := needed_bind_eq_ok.mp h
    cases h
    exact handles_changing rfl rfl rfl rfl
  | clearDefaultContext =>
    cases h
    exact handles_changing rfl rfl rfl rfl
  | defaultContext =>
    cases h
    exact handles_answering rfl rfl

theorem handles_beginQuery {a : QueryAction} {b : Begun}
    (h : m.beginQuery a = .ok b) : Handles m (.query a) b := by
  cases a with
  | newQueryBridge name rowType parts =>
    simp only [beginQuery, bind, Except.bind] at h
    split at h
    · cases h
    · next d hd =>
      split at h
      · next envelope he =>
        cases h
        have hattaches : m.world.attaches?
            (.query (.newQueryBridge name rowType parts)) =
              some (d.changes, .queryBridge m.world.queryBridges.fresh) := by
          simp [World.attaches?, hd, he]
        refine handles_making ?_ (Nat.lt_irrefl _) rfl
        rw [hattaches]
        refine ⟨rfl, fun k => World.roster_subscribe _, fun _ => rfl,
          fun o ho => ?_⟩
        cases o with
        | queryBridge r =>
          exact congrArg (fun b : QueryBridge => some b.subscription)
            (Pool.get_add_of_lt _ ho)
        | _ => rfl
      · next he =>
        cases h
        exact handles_answering (by simp [World.attaches?, hd, he]) rfl
  | results bridge =>
    obtain ⟨q, -, h⟩ := needed_bind_eq_ok.mp h
    cases h
    exact .stays rfl (fun _ => rfl) (holdsOne_singleton (by simp))
      (by simp [deliver_not_mem_accessTasks]) rfl rfl
  | queryBridgeInfo | tokenKey =>
    obtain ⟨q, -, h⟩ := needed_bind_eq_ok.mp h
    cases h
    exact handles_answering rfl rfl
  | refresh bridge =>
    obtain ⟨q, -, h⟩ := needed_bind_eq_ok.mp h
    cases h
    exact .stays rfl (fun _ => rfl) (holdsOne_singleton (by simp)) (by simp)
      rfl rfl
  | bindContext bridge context =>
    obtain ⟨q, -, h⟩ := needed_bind_eq_ok.mp h
    obtain ⟨c, -, h⟩ := needed_bind_eq_ok.mp h
    cases h
    exact .stays rfl (fun _ => rfl) (holdsOne_pair q c) (by simp) rfl rfl
  | observeQuery bridge owner property =>
    obtain ⟨q, -, h⟩ := needed_bind_eq_ok.mp h
    obtain ⟨o, -, h⟩ := needed_bind_eq_ok.mp h
    cases h
    exact handles_changing rfl rfl rfl rfl
  | newTracker name store batches key bus onCall =>
    obtain ⟨s, -, h⟩ := needed_bind_eq_ok.mp h
    obtain ⟨n, -, h⟩ := needed_bind_eq_ok.mp h
    cases h
    exact handles_making (World.joins_none rfl rfl fun o => by cases o <;> rfl)
      (Nat.lt_irrefl _) rfl
  | pushBatch tracker batch =>
    obtain ⟨t, -, h⟩ := needed_bind_eq_ok.mp h
    cases h
    exact handles_changing rfl rfl rfl rfl
  | remoteChange tracker | lastToken tracker =>
    obtain ⟨t, -, h⟩ := needed_bind_eq_ok.mp h
    cases h
    exact .stays rfl (fun _ => rfl) (holdsOne_singleton (by simp))
      (by simp [readingToken, deliver_not_mem_readTasks]) rfl rfl

/-- Every command that begins deals with names and rosters in one of the
listed ways. -/
theorem handles_begin {b : Begun} (blank : m.world.Blank)
    (h : m.begin a = .ok b) : Handles m a b := by
  cases a with
  | answer r =>
    cases h
    exact handles_answering rfl rfl
  | malformed needs =>
    simp only [begin] at h
    split at h <;> cases h
  | unknown => cases h
  | drop name =>
    obtain ⟨n, -, h⟩ := needed_bind_eq_ok.mp h
    cases h
    exact .forgets name (Or.inl rfl)
  | cancel name =>
    obtain ⟨n, -, h⟩ := needed_bind_eq_ok.mp h
    cases h
    exact .forgets name (Or.inr rfl)
  | names =>
    cases h
    exact handles_answering rfl rfl
  | describe name =>
    obtain ⟨n, -, h⟩ := needed_bind_eq_ok.mp h
    obtain ⟨s, -, h⟩ := needed_bind_eq_ok.mp h
    cases h
    exact handles_answering rfl rfl
  | notice a => exact handles_beginNotice blank h
  | store a => exact handles_beginStore blank h
  | observation a => exact handles_beginObservation h
  | context a => exact handles_beginContext blank h
  | query a => exact handles_beginQuery h

/-! ## Other tasks -/

/-- The same names stand for the same, and the same listeners are attached. -/
def SameNames (m m' : Machine) : Prop :=
  m'.world.names = m.world.names ∧ m'.world.notifiers = m.world.notifiers

theorem sameNames_call (l : Listener) (event : Event) :
    m.SameNames (m.call l event) := by
  unfold call
  split
  · split
    · split <;> exact ⟨rfl, rfl⟩
    · exact ⟨rfl, rfl⟩
  · split <;> exact ⟨rfl, rfl⟩
  · split
    · simp only [hearChange, World.adopt]
      split
      · split
        · simp only [modifyWorld]
          split <;> exact ⟨rfl, rfl⟩
        · exact ⟨rfl, rfl⟩
      · exact ⟨rfl, rfl⟩
    · exact ⟨rfl, rfl⟩
  · exact ⟨rfl, rfl⟩

theorem sameNames_settleQuery (q : Ref .queryBridge) (began : UInt64)
    (outcome : Except BridgeError (List Record)) :
    m.SameNames (m.settleQuery q began outcome) := by
  simp only [settleQuery, missContext]
  split
  · exact ⟨rfl, rfl⟩
  · split
    · split <;> exact ⟨rfl, rfl⟩
    · exact ⟨rfl, rfl⟩

/-- Nothing but a command that begins or is finished deals with names and
listeners. -/
theorem sameNames_doTask {t : Task} (perform : ∀ c nested, t ≠ .perform c nested)
    (finish : ∀ label held nested, t ≠ .finish label held nested) :
    m.SameNames (m.doTask t) := by
  cases t with
  | perform c nested => exact absurd rfl (perform c nested)
  | finish label held nested => exact absurd rfl (finish label held nested)
  | deliver audience event =>
    cases audience with
    | nil => exact ⟨rfl, rfl⟩
    | cons l rest => exact sameNames_call l event
  | access owner property | mutate owner property i =>
    cases owner <;> exact ⟨rfl, rfl⟩
  | invalidate i =>
    cases i with
    | bridge b => cases b <;> exact ⟨rfl, rfl⟩
    | client during => exact ⟨rfl, rfl⟩
  | enclose envelope p body =>
    simp only [doTask, enclose]
    split
    · exact ⟨rfl, rfl⟩
    · split <;> exact ⟨rfl, rfl⟩
  | run body =>
    simp only [doTask, runBody]
    split <;> exact ⟨rfl, rfl⟩
  | leaveScope r reaction =>
    simp only [doTask, modifyWorld, World.leaveScope]
    constructor <;> split <;> rfl
  | readCache c outcome during mayFail =>
    simp only [doTask, readCache]
    split <;> exact ⟨rfl, rfl⟩
  | settleCache c began outcome mayFail => cases outcome <;> exact ⟨rfl, rfl⟩
  | readKey b =>
    simp only [doTask, readKey]
    split <;> exact ⟨rfl, rfl⟩
  | settleKey b began stored =>
    simp only [doTask, settleKey, reportFault]
    split <;> exact ⟨rfl, rfl⟩
  | readQuery q =>
    simp only [doTask, readQuery]
    split <;> exact ⟨rfl, rfl⟩
  | receive c records purpose =>
    simp only [doTask, receive, conclude]
    split
    · exact ⟨rfl, rfl⟩
    · split <;> exact ⟨rfl, rfl⟩
  | settleQuery q began outcome => exact sameNames_settleQuery q began outcome
  | askHistory t stored =>
    obtain ⟨told, -, htold⟩ := lastToken_eq (m := m) t stored
    simp only [doTask, askHistory, htold]
    exact ⟨rfl, rfl⟩
  | takeBatch t =>
    simp only [doTask, takeBatch]
    split <;> exact ⟨rfl, rfl⟩
  | announceRemote t transactions entities =>
    simp only [doTask, announceRemote]
    split <;> exact ⟨rfl, rfl⟩
  | answerToken t stored =>
    obtain ⟨told, -, htold⟩ := lastToken_eq (m := m) t stored
    simp only [doTask, answerToken, htold]
    exact ⟨rfl, rfl⟩
  | _ => exact ⟨rfl, rfl⟩

end Machine

end LiveProperty
