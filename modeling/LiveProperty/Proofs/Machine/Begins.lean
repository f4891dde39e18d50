import LiveProperty.Proofs.Machine.Edits

/-!
# The shapes of a command that has begun

Most commands do all they do at once and are left with an answer.  The
others leave one call for the tasks that follow, in front of the answer.
-/

namespace LiveProperty

/-- What a command may have become when it has begun: the changes it made at
once, the objects it holds, and the tasks it leaves.  The commands that it
hands on are smaller than the bound, as they are parts of it. -/
inductive Begins (m : Machine) (bound : ℕ) : Begun → Prop
  | atOnce {w : World} (r : Reply)
      (edits : Edits m.todo bound (fun o => m.world.isNamed o) m.world w) :
      Begins m bound ⟨{ m with world := w }, [], [.answer r]⟩
  | readCache (c : Ref .cache) (outcome : Except Json Json)
      (during : List Command) (mayFail : Bool)
      (named : m.world.isNamed (.cache c))
      (small : sizeOf during + 1 < bound) :
      Begins m bound ⟨m, [.cache c], [.readCache c outcome during mayFail]⟩
  | announce (n : Ref .notifier) (event : Event) (o : Object)
      (source : o = .notifier n ∨ o = .bus n)
      (made : m.world.isNamed o ∨ o = .bus m.world.sharedBus)
      (foreign : ∀ key, event ≠ .key key) :
      Begins m bound ⟨(m.announcing n event).1, [o],
        [(m.announcing n event).2, .answer .nothing]⟩
  /-- A save forgets the unsaved changes before anybody hears of them. -/
  | save (c : Ref .context) (count : Nat)
      (named : m.world.isNamed (.context c))
      (unsaved : (m.world.saveEvent c).isEmpty = false) :
      Begins m bound
        ⟨m.modifyWorld fun w =>
            ((w.modifyMemory c MemoryContext.clearUnsaved).tell
              (.contextSaved c count)).tell
              (.announced (w.contexts.get c).changes
                (.change (w.saveEvent c)) (w.audience (w.contexts.get c).changes)),
          [.context c],
          [.deliver (m.world.audience (m.world.contexts.get c).changes)
              (.change (m.world.saveEvent c)),
            .answer (.number count)]⟩
  | write (s : Ref .store) (key : String) (value : Option StoreValue)
      (held : List Object) (offered : m.world.Offers s)
      (named : ∀ o ∈ held, m.world.isNamed o) :
      Begins m bound ⟨m, held, [.write s key value, .answer .nothing]⟩
  | readDefault (key : String) :
      Begins m bound
        ⟨m.modifyWorld fun w => w.noteRead m.world.defaultStore key, [],
          Machine.readTasks m.world m.world.defaultStore ++
            [.answer (.stored (m.world.storedValue m.world.defaultStore key))]⟩
  | getKey (b : Ref .keyBridge) (named : m.world.isNamed (.keyBridge b)) :
      Begins m bound ⟨m, [.keyBridge b], m.accessTasks (.key b) ++ [.readKey b]⟩
  | access (r : Ref .registrar) (property : String)
      (named : m.world.isNamed (.registrar r)) :
      Begins m bound ⟨m, [.registrar r],
        [.access (.registrar r) property, .answer .nothing]⟩
  | mutate (r : Ref .registrar) (property : String) (during : List Command)
      (named : m.world.isNamed (.registrar r))
      (small : sizeOf during + 1 < bound) :
      Begins m bound ⟨m, [.registrar r],
        [.mutate (.registrar r) property (.client during), .answer .nothing]⟩
  | observe (r : Ref .registrar) (apply : List Command) (reaction : Reaction)
      (named : m.world.isNamed (.registrar r))
      (small : sizeOf apply + sizeOf reaction.commands < bound) :
      Begins m bound ⟨m.modifyWorld fun w => w.enterScope r, [.registrar r],
        Task.nested apply ++ [.leaveScope r reaction, .answer .nothing]⟩
  | runEnvelope (envelope : Envelope) (p : Option (Ref .presenter))
      (body : List Command)
      (named : ∀ r, p = some r → m.world.isNamed (.presenter r))
      (small : sizeOf body + 1 < bound) :
      Begins m bound ⟨m, (p.map Object.presenter).toList,
        [.enclose envelope p (.client body), .answer .nothing]⟩
  | fetchRows (c : Ref .context) (rowType : RowType)
      (descriptor : FetchDescriptor Json)
      (named : m.world.isNamed (.context c)) :
      Begins m bound ⟨m, [.context c],
        [.askRecords c rowType.entity (.client rowType descriptor)]⟩
  | results (q : Ref .queryBridge)
      (named : m.world.isNamed (.queryBridge q)) :
      Begins m bound ⟨m, [.queryBridge q],
        m.accessTasks (.query q) ++ [.readQuery q]⟩
  | refresh (q : Ref .queryBridge)
      (named : m.world.isNamed (.queryBridge q)) :
      Begins m bound ⟨m, [.queryBridge q], [.relay (.query q), .answer .nothing]⟩
  | bindContext (q : Ref .queryBridge) (c : Ref .context)
      (named : m.world.isNamed (.queryBridge q))
      (namedContext : m.world.isNamed (.context c)) :
      Begins m bound ⟨m.modifyWorld fun w => w.bindContext q c,
        [.queryBridge q, .context c],
        [.relay (.query q), .answer .nothing]⟩
  | readToken (t : Ref .tracker) (next : Option StoreValue → Task)
      (named : m.world.isNamed (.tracker t))
      (tracked : next = Task.askHistory t ∨ next = Task.answerToken t) :
      Begins m bound (m.readingToken t next)

theorem Begins.todo_eq {m : Machine} {bound : ℕ} {b : Begun}
    (h : Begins m bound b) : b.machine.todo = m.todo := by
  cases h <;> rfl

namespace World

variable {w : World} {name : String}

theorem isNamed_of_cache? {c : Ref .cache} (h : w.cache? name = some c) :
    w.isNamed (.cache c) := by
  unfold cache? at h
  split at h
  · next heq => cases h; exact isNamed_of_lookup heq
  · cases h

theorem isNamed_of_notifier? {n : Ref .notifier}
    (h : w.notifier? name = some n) : w.isNamed (.notifier n) := by
  unfold notifier? at h
  split at h
  · next heq => cases h; exact isNamed_of_lookup heq
  · cases h

theorem isNamed_of_bus? {bus : Option String} {n : Ref .notifier}
    (h : w.bus? bus = some n) : n = w.sharedBus ∨ w.isNamed (.bus n) := by
  cases bus with
  | none => exact Or.inl (Option.some.inj h).symm
  | some name =>
    simp only [bus?] at h
    split at h
    · next heq => cases h; exact Or.inr (isNamed_of_lookup heq)
    · cases h

theorem isNamed_of_subscription? {s : Subscription}
    (h : w.subscription? name = some s) : w.isNamed (.subscription s) := by
  unfold subscription? at h
  split at h
  · next heq => cases h; exact isNamed_of_lookup heq
  · cases h

theorem isNamed_of_store? {s : Ref .store} (h : w.store? name = some s) :
    w.isNamed (.store s) := by
  unfold store? at h
  split at h
  · next heq => cases h; exact isNamed_of_lookup heq
  · cases h

theorem isNamed_of_keyBridge? {b : Ref .keyBridge}
    (h : w.keyBridge? name = some b) : w.isNamed (.keyBridge b) := by
  unfold keyBridge? at h
  split at h
  · next heq => cases h; exact isNamed_of_lookup heq
  · cases h

theorem isNamed_of_registrar? {r : Ref .registrar}
    (h : w.registrar? name = some r) : w.isNamed (.registrar r) := by
  unfold registrar? at h
  split at h
  · next heq => cases h; exact isNamed_of_lookup heq
  · cases h

theorem isNamed_of_owner? {o : Owner} (h : w.owner? name = some o) :
    w.isNamed o.object := by
  unfold owner? at h
  split at h
  · next heq => cases h; exact isNamed_of_lookup heq
  · next heq => cases h; exact isNamed_of_lookup heq
  · cases h

theorem isNamed_of_presenter? {p : Ref .presenter}
    (h : w.presenter? name = some p) : w.isNamed (.presenter p) := by
  unfold presenter? at h
  split at h
  · next heq => cases h; exact isNamed_of_lookup heq
  · cases h

theorem isNamed_of_context? {c : Ref .context}
    (h : w.context? name = some c) : w.isNamed (.context c) := by
  unfold context? at h
  split at h
  · next heq => cases h; exact isNamed_of_lookup heq
  · cases h

theorem isNamed_of_queryBridge? {q : Ref .queryBridge}
    (h : w.queryBridge? name = some q) : w.isNamed (.queryBridge q) := by
  unfold queryBridge? at h
  split at h
  · next heq => cases h; exact isNamed_of_lookup heq
  · cases h

theorem isNamed_of_tracker? {t : Ref .tracker}
    (h : w.tracker? name = some t) : w.isNamed (.tracker t) := by
  unfold tracker? at h
  split at h
  · next heq => cases h; exact isNamed_of_lookup heq
  · cases h

end World

/-- A command goes on exactly when what it needs is there. -/
theorem needed_bind_eq_ok {α β : Type} {x : Option α}
    {f : α → Except Refusal β} {b : β} :
    (needed x >>= f) = .ok b ↔ ∃ a, x = some a ∧ f a = .ok b := by
  cases x with
  | none => simp [needed, bind, Except.bind]
  | some a => simp [needed, bind, Except.bind]

theorem needed_map_eq_ok {α β : Type} {x : Option α} {f : α → β} {b : β} :
    (needed x).map f = .ok b ↔ ∃ a, x = some a ∧ f a = b := by
  cases x with
  | none => simp [needed, Except.map]
  | some a => simp [needed, Except.map]

theorem neededIfGiven_bind_eq_ok {α β γ : Type} {find : α → Option β}
    {x : Option α} {f : Option β → Except Refusal γ} {c : γ} :
    (neededIfGiven find x >>= f) = .ok c ↔
      x = none ∧ f none = .ok c ∨
        ∃ a b, x = some a ∧ find a = some b ∧ f (some b) = .ok c := by
  cases x with
  | none => simp [neededIfGiven, bind, Except.bind]
  | some a =>
    cases h : find a with
    | none => simp [neededIfGiven, needed, bind, Except.bind, Except.map, h]
    | some b => simp [neededIfGiven, needed, bind, Except.bind, Except.map, h]

namespace Machine

/-! ## Letting go -/

theorem release_eq (m : Machine) (o : Object) :
    m.release o = { m with world := (m.release o).world } := by
  unfold release
  split <;> rfl

theorem edits_release (m : Machine) (bound : ℕ) {loose : Object → Prop}
    {o : Object} (known : loose o) :
    Edits m.todo bound loose m.world (m.release o).world := by
  unfold release
  split
  · exact .refl
  · next h => exact .single (.letGo o (Bool.eq_false_iff.mpr h) known)

theorem edits_releaseNamed (m : Machine) (bound : ℕ) {loose : Object → Prop}
    {n : Option Named} (known : ∀ o, n = some (.object o) → loose o) :
    Edits m.todo bound loose m.world (m.releaseNamed n).world := by
  unfold releaseNamed
  split
  · exact edits_release m bound (known _ rfl)
  · exact .refl

theorem releaseNamed_eq (m : Machine) (n : Option Named) :
    m.releaseNamed n = { m with world := (m.releaseNamed n).world } := by
  unfold releaseNamed
  split
  · exact release_eq m _
  · rfl

/-- Letting go of several objects is a chain of single changes. -/
theorem edits_foldl_release {held : List Object} (m : Machine) (bound : ℕ)
    {loose : Object → Prop} (known : ∀ o ∈ held, loose o) :
    Edits m.todo bound loose m.world (held.foldl release m).world ∧
      held.foldl release m =
        { m with world := (held.foldl release m).world } := by
  induction held generalizing m with
  | nil => exact ⟨.refl, rfl⟩
  | cons o rest ih =>
    obtain ⟨hedits, heq⟩ := ih (m.release o)
      fun x hx => known x (List.mem_cons_of_mem _ hx)
    have htodo : (m.release o).todo = m.todo := by rw [release_eq]
    have hreply : (m.release o).reply = m.reply := by rw [release_eq]
    have hfirst := edits_release m bound (known o List.mem_cons_self)
    rw [List.foldl_cons]
    rw [htodo] at hedits
    refine ⟨hfirst.trans hedits, ?_⟩
    rw [heq, htodo, hreply]

/-! ## Commands that are done at once -/

section

variable {m : Machine} {bound : ℕ}

theorem begins_answering (r : Reply) : Begins m bound (m.answering r) :=
  .atOnce r .refl

theorem begins_changing {f : World → World}
    (h : Edit m.todo bound (fun o => m.world.isNamed o) m.world (f m.world)) :
    Begins m bound (m.changing f) :=
  .atOnce _ (.single h)

/-- A new name, and then the end of what had the name before. -/
theorem begins_rename {n : Machine} {name : String} {x : Named} (r : Reply)
    (todo : n.todo = m.todo) (reply : n.reply = m.reply)
    (names : n.world.names = m.world.names)
    (h : Edits m.todo bound (fun o => m.world.isNamed o) m.world
      (n.world.bindName name x)) :
    Begins m bound ((n.rename name x).answering r) := by
  have hknown : ∀ o, n.world.lookup? name = some (.object o) →
      m.world.isNamed o := by
    intro o ho
    rw [World.lookup?, names] at ho
    exact World.isNamed_of_lookup ho
  have hedits := edits_releaseNamed (n.modifyWorld fun w => w.bindName name x)
    bound hknown
  have heq := releaseNamed_eq (n.modifyWorld fun w => w.bindName name x)
    (n.world.lookup? name)
  have htodo : (n.modifyWorld fun w => w.bindName name x).todo = m.todo := todo
  rw [htodo] at hedits
  have hall := h.trans hedits
  unfold rename answering
  rw [heq, htodo]
  have hreply : (n.modifyWorld fun w => w.bindName name x).reply = m.reply :=
    reply
  rw [hreply]
  exact .atOnce r hall

theorem begins_making {name : String} {o : Object} {f : World → World}
    (names : (f m.world).names = m.world.names)
    (h : Edit m.todo bound (fun o => m.world.isNamed o) m.world
      ((f m.world).bindName name (.object o))) :
    Begins m bound (m.making name o f) :=
  begins_rename .nothing rfl rfl names (.single h)

theorem begins_forget (name : String) :
    Begins m bound ((m.forget name).answering .nothing) := by
  have hknown : ∀ o, m.world.lookup? name = some (.object o) →
      m.world.isNamed o := fun o ho => World.isNamed_of_lookup ho
  have hedits := edits_releaseNamed (m.modifyWorld fun w => w.unbindName name)
    bound hknown
  have heq := releaseNamed_eq (m.modifyWorld fun w => w.unbindName name)
    (m.world.lookup? name)
  unfold forget answering
  rw [heq]
  exact .atOnce _ (.head (.unbindName name) hedits)

end

/-! ## The commands, group by group -/

section

variable {m : Machine} {b : Begun} {bound : ℕ}

theorem begins_of_beginNotice {a : NoticeAction}
    (h : m.beginNotice a = .ok b) (inside : sizeOf a < bound) :
    Begins m bound b := by
  cases a with
  | newCache name =>
    cases h
    exact begins_making rfl (.newCache name)
  | readCache cache value during =>
    obtain ⟨c, hc, h⟩ := needed_bind_eq_ok.mp h
    cases h
    simp only [NoticeAction.readCache.sizeOf_spec] at inside
    exact .readCache c _ _ _ (World.isNamed_of_cache? hc) (by omega)
  | tryCache cache outcome during =>
    obtain ⟨c, hc, h⟩ := needed_bind_eq_ok.mp h
    cases h
    simp only [NoticeAction.tryCache.sizeOf_spec] at inside
    exact .readCache c _ _ _ (World.isNamed_of_cache? hc) (by omega)
  | invalidateCache cache =>
    obtain ⟨c, hc, h⟩ := needed_bind_eq_ok.mp h
    cases h
    exact begins_changing (.invalidateCache c (World.isNamed_of_cache? hc))
  | cacheState cache =>
    obtain ⟨c, -, h⟩ := needed_bind_eq_ok.mp h
    cases h
    exact begins_answering _
  | newNotifier name =>
    cases h
    exact begins_making rfl (.newNotifier name)
  | announce notifier event =>
    obtain ⟨n, hn, h⟩ := needed_bind_eq_ok.mp h
    cases h
    exact .announce n (.value event) _ (Or.inl rfl)
      (Or.inl (World.isNamed_of_notifier? hn)) (by simp)
  | unsubscribe notifier subscription =>
    obtain ⟨n, -, h⟩ := needed_bind_eq_ok.mp h
    obtain ⟨s, hs, h⟩ := needed_bind_eq_ok.mp h
    cases h
    exact begins_changing (.detach n s (World.isNamed_of_subscription? hs))
  | subscribe name source script =>
    obtain ⟨⟨n, onlyKey⟩, -, h⟩ := needed_bind_eq_ok.mp h
    cases h
    simp only [NoticeAction.subscribe.sizeOf_spec] at inside
    exact begins_rename _ rfl rfl rfl
      (.single (.subscribe name n script onlyKey (by omega)))
  | freshSubscriber =>
    cases h
    exact .atOnce _ (.single .freshSubscriber)
  | countListeners source =>
    obtain ⟨⟨n, onlyKey⟩, -, h⟩ := needed_bind_eq_ok.mp h
    cases h
    exact begins_answering _

theorem begins_of_makeKeyBridge (name key : String) (kind : Storable)
    (initial : kind.Value) {s : Ref .store} (offered : m.world.Offers s)
    (envelope : Envelope) (p : Option (Ref .presenter)) :
    Begins m bound (m.makeKeyBridge name key kind initial s envelope p) :=
  begins_making rfl (.newKeyBridge name
    { store := s, key, kind, initial, cache := {},
      relay := { envelope, presenter := p },
      subscription := m.world.freshSubscription (m.world.stores.get s).changes }
    offered rfl rfl rfl)

theorem begins_of_writingKey {r : Ref .keyBridge}
    (named : m.world.isNamed (.keyBridge r))
    (value : (m.world.keyBridges.get r).kind.Value) :
    Begins m bound (m.writingKey r value) := by
  simp only [writingKey]
  split
  · exact .write _ _ _ _ (Or.inr (Or.inr ⟨r, named, rfl⟩)) (by simpa)
  · exact begins_changing (.tell _ rfl)

theorem begins_of_beginStore {a : StoreAction}
    (h : m.beginStore a = .ok b) (inside : sizeOf a < bound) :
    Begins m bound b := by
  cases a with
  | newStore name suite onRead =>
    cases h
    simp only [StoreAction.newStore.sizeOf_spec] at inside
    exact begins_making rfl (.newStore name suite onRead (by omega))
  | writeStore store key value =>
    obtain ⟨s, hs, h⟩ := needed_bind_eq_ok.mp h
    cases h
    have named := World.isNamed_of_store? hs
    exact .write s key value _ (Or.inl named) (by simpa)
  | peekStore store key =>
    obtain ⟨s, -, h⟩ := needed_bind_eq_ok.mp h
    cases h
    exact begins_answering _
  | storeInfo store key =>
    obtain ⟨s, -, h⟩ := needed_bind_eq_ok.mp h
    cases h
    exact begins_answering _
  | setDefaultStore store =>
    obtain ⟨s, hs, h⟩ := needed_bind_eq_ok.mp h
    cases h
    exact begins_changing (.setDefaultStore s (World.isNamed_of_store? hs))
  | resetDefaultStore =>
    cases h
    exact begins_changing .resetDefaultStore
  | readDefaultStore key =>
    cases h
    exact .readDefault key
  | writeDefaultStore key value =>
    cases h
    exact .write _ key value [] (Or.inr (Or.inl rfl)) (by simp)
  | countDefaultStoreListeners =>
    cases h
    exact begins_answering _
  | newKeyBridge name key kind initial store envelope presenter =>
    -- What the bridge is over is looked up before its presenter.
    rcases neededIfGiven_bind_eq_ok.mp h with ⟨-, h⟩ | ⟨_, s, -, hs, h⟩
    · rcases neededIfGiven_bind_eq_ok.mp h with ⟨-, h⟩ | ⟨_, p, -, -, h⟩
      · cases h
        exact begins_of_makeKeyBridge _ _ _ _ (Or.inr (Or.inl rfl)) _ _
      · cases h
        exact begins_of_makeKeyBridge _ _ _ _ (Or.inr (Or.inl rfl)) _ _
    · have named := World.isNamed_of_store? hs
      rcases neededIfGiven_bind_eq_ok.mp h with ⟨-, h⟩ | ⟨_, p, -, -, h⟩
      · cases h
        exact begins_of_makeKeyBridge _ _ _ _ (Or.inl named) _ _
      · cases h
        exact begins_of_makeKeyBridge _ _ _ _ (Or.inl named) _ _
  | getKey bridge =>
    obtain ⟨r, hr, h⟩ := needed_bind_eq_ok.mp h
    cases h
    exact .getKey r (World.isNamed_of_keyBridge? hr)
  | setKey bridge value =>
    obtain ⟨r, hr, h⟩ := needed_bind_eq_ok.mp h
    have named := World.isNamed_of_keyBridge? hr
    cases value with
    | none =>
      cases h
      exact .write _ _ none _ (Or.inr (Or.inr ⟨r, named, rfl⟩)) (by simpa)
    | some spelled =>
      simp only at h
      split at h
      · cases h
        exact begins_of_writingKey named _
      · cases h
  | keyBridgeInfo bridge =>
    obtain ⟨r, -, h⟩ := needed_bind_eq_ok.mp h
    cases h
    exact begins_answering _
  | observeKey bridge owner property =>
    obtain ⟨r, -, h⟩ := needed_bind_eq_ok.mp h
    obtain ⟨o, ho, h⟩ := needed_bind_eq_ok.mp h
    cases h
    exact begins_changing
      (.bindKeyBridge r ⟨o, property⟩ (World.isNamed_of_owner? ho))

theorem begins_of_beginObservation {a : ObservationAction}
    (h : m.beginObservation a = .ok b) (inside : sizeOf a < bound) :
    Begins m bound b := by
  cases a with
  | newRegistrar name =>
    cases h
    exact begins_making rfl (.newRegistrar name)
  | access registrar property =>
    obtain ⟨r, hr, h⟩ := needed_bind_eq_ok.mp h
    cases h
    exact .access r property (World.isNamed_of_registrar? hr)
  | mutate registrar property during =>
    obtain ⟨r, hr, h⟩ := needed_bind_eq_ok.mp h
    cases h
    simp only [ObservationAction.mutate.sizeOf_spec] at inside
    exact .mutate r property during (World.isNamed_of_registrar? hr) (by omega)
  | observe registrar label apply onChange =>
    obtain ⟨r, hr, h⟩ := needed_bind_eq_ok.mp h
    cases h
    simp only [ObservationAction.observe.sizeOf_spec] at inside
    have small : sizeOf apply + sizeOf onChange < bound := by omega
    exact .observe r apply ⟨label, onChange⟩ (World.isNamed_of_registrar? hr)
      small
  | registrarInfo registrar property =>
    obtain ⟨r, -, h⟩ := needed_bind_eq_ok.mp h
    cases h
    exact begins_answering _
  | newHook name onAccess before after calls registrar =>
    simp only [ObservationAction.newHook.sizeOf_spec] at inside
    have small : sizeOf onAccess + sizeOf before + sizeOf after < bound := by
      omega
    rcases neededIfGiven_bind_eq_ok.mp h with ⟨-, h⟩ | ⟨_, r, -, hr, h⟩
    · cases h
      exact begins_making rfl (.newHook name _ _ _ calls none (by simp) small)
    · cases h
      have named := World.isNamed_of_registrar? hr
      exact begins_making rfl
        (.newHook name _ _ _ calls (some r) (by simpa using named) small)
  | newBinding name owner property =>
    obtain ⟨o, -, h⟩ := needed_bind_eq_ok.mp h
    cases h
    exact begins_rename _ rfl rfl rfl (.single (.bindValue name _ (by simp)))
  | bindingInfo binding =>
    obtain ⟨x, -, h⟩ := needed_bind_eq_ok.mp h
    cases h
    exact begins_answering _
  | runEnvelope envelope presenter body =>
    simp only [ObservationAction.runEnvelope.sizeOf_spec] at inside
    have small : sizeOf body + 1 < bound := by omega
    rcases neededIfGiven_bind_eq_ok.mp h with ⟨-, h⟩ | ⟨_, p, -, hp, h⟩
    · cases h
      exact .runEnvelope envelope none body (by simp) small
    · cases h
      have named := World.isNamed_of_presenter? hp
      exact .runEnvelope envelope (some p) body (by simpa using named) small
  | newPresenter name before after calls =>
    cases h
    simp only [ObservationAction.newPresenter.sizeOf_spec] at inside
    exact begins_making rfl (.newPresenter name before after calls (by omega))
  | installPresenter presenter =>
    obtain ⟨p, -, h⟩ := needed_bind_eq_ok.mp h
    cases h
    exact begins_changing (.installPresenter (some p))
  | uninstallPresenter =>
    cases h
    exact begins_changing (.installPresenter none)
  | presenterInstalled =>
    cases h
    exact begins_answering _

theorem begins_of_writing {c : Ref .context} {rowType : RowType} {id : RowId}
    {kind : ChangeKind} {f : MemoryContext → MemoryContext}
    (h : (m.world.memory c).holds rowType id →
      Edit m.todo bound (fun o => m.world.isNamed o) m.world
        ((m.world.modifyMemory c f).tell
          (.rowWritten c ⟨kind, rowType.entity⟩ id))) :
    Begins m bound (m.writing c rowType id kind f) := by
  unfold writing
  split
  · next hid => exact .atOnce _ (.single (h hid))
  · exact begins_answering _

theorem begins_of_saving {c : Ref .context}
    (named : m.world.isNamed (.context c)) : Begins m bound (m.saving c) := by
  cases hempty : (m.world.saveEvent c).isEmpty with
  | true =>
    have heq : m.saving c = m.answering (.number 0) := by
      simp [saving, hempty]
    rw [heq]
    exact begins_answering _
  | false =>
    simp only [saving, hempty, Bool.false_eq_true, if_false]
    exact .save c (distinct (m.world.memory c).unsaved).length named hempty

theorem begins_of_beginContext {a : ContextAction}
    (h : m.beginContext a = .ok b) (inside : sizeOf a < bound) :
    Begins m bound b := by
  cases a with
  | newBus name =>
    cases h
    exact begins_making rfl (.newBus name)
  | announceChange bus change =>
    obtain ⟨n, hn, h⟩ := needed_bind_eq_ok.mp h
    obtain ⟨c, -, h⟩ := needed_bind_eq_ok.mp h
    cases h
    have made : m.world.isNamed (.bus n) ∨
        Object.bus n = .bus m.world.sharedBus := by
      rcases World.isNamed_of_bus? hn with heq | named
      · exact Or.inr (by rw [heq])
      · exact Or.inl named
    exact .announce n (.change c) _ (Or.inr rfl) made (by simp)
  | newChange name change origin =>
    obtain ⟨c, -, h⟩ := needed_bind_eq_ok.mp h
    rcases neededIfGiven_bind_eq_ok.mp h with ⟨-, h⟩ | ⟨_, o, -, -, h⟩
    · cases h
      exact begins_rename _ rfl rfl rfl (.single (.bindValue name _ (by simp)))
    · cases h
      exact begins_rename _ rfl rfl rfl (.single (.bindValue name _ (by simp)))
  | changeInfo change =>
    obtain ⟨c, -, h⟩ := needed_bind_eq_ok.mp h
    cases h
    exact begins_answering _
  | changeAffects change entity =>
    obtain ⟨c, -, h⟩ := needed_bind_eq_ok.mp h
    cases h
    exact begins_answering _
  | changeSame change other =>
    obtain ⟨c, -, h⟩ := needed_bind_eq_ok.mp h
    obtain ⟨d, -, h⟩ := needed_bind_eq_ok.mp h
    cases h
    exact begins_answering _
  | newContext name sort bus =>
    obtain ⟨n, -, h⟩ := needed_bind_eq_ok.mp h
    cases h
    exact begins_making rfl (.newContext name _ _)
  | newSupervisedContext name bus onFetch failures error =>
    obtain ⟨n, -, h⟩ := needed_bind_eq_ok.mp h
    cases h
    simp only [ContextAction.newSupervisedContext.sizeOf_spec] at inside
    exact begins_making rfl
      (.newSupervisedContext name n onFetch failures error (by omega))
  | insertRow context rowType content name =>
    obtain ⟨c, -, h⟩ := needed_bind_eq_ok.mp h
    cases h
    have hinsert : Edit m.todo bound (fun o => m.world.isNamed o) m.world _ :=
      .insertRow c rowType content
    cases name with
    | none => exact .atOnce _ (.single hinsert)
    | some name =>
      exact begins_rename _ rfl rfl rfl
        (.tail (.single hinsert) (.bindValue name _ (by simp)))
  | updateRow context rowType row content =>
    obtain ⟨c, -, h⟩ := needed_bind_eq_ok.mp h
    obtain ⟨id, -, h⟩ := needed_bind_eq_ok.mp h
    cases h
    exact begins_of_writing (.updateRow c rowType id content)
  | deleteRow context rowType row =>
    obtain ⟨c, -, h⟩ := needed_bind_eq_ok.mp h
    obtain ⟨id, -, h⟩ := needed_bind_eq_ok.mp h
    cases h
    exact begins_of_writing (.deleteRow c rowType id)
  | getRow context rowType row =>
    obtain ⟨c, -, h⟩ := needed_bind_eq_ok.mp h
    obtain ⟨id, -, h⟩ := needed_bind_eq_ok.mp h
    cases h
    exact begins_answering _
  | saveContext context =>
    obtain ⟨c, hc, h⟩ := needed_bind_eq_ok.mp h
    cases h
    exact begins_of_saving (World.isNamed_of_context? hc)
  | contextInfo context rowType =>
    obtain ⟨c, -, h⟩ := needed_bind_eq_ok.mp h
    cases h
    exact begins_answering _
  | fetchRows context rowType descriptor =>
    obtain ⟨c, hc, h⟩ := needed_bind_eq_ok.mp h
    cases h
    exact .fetchRows c rowType descriptor (World.isNamed_of_context? hc)
  | setDefaultContext context =>
    obtain ⟨c, hc, h⟩ := needed_bind_eq_ok.mp h
    cases h
    have named := World.isNamed_of_context? hc
    exact begins_changing (.setDefaultContext (some c) (by simpa using named))
  | clearDefaultContext =>
    cases h
    exact begins_changing (.setDefaultContext none (by simp))
  | defaultContext =>
    cases h
    exact begins_answering _

/-- The context of a draft is one that has a name, and so is its bus unless
it is the shared one. -/
def QueryDraft.Named (w : World) (d : QueryDraft) : Prop :=
  (∀ c, d.context = some c → w.isNamed (.context c)) ∧
    (d.changes = w.sharedBus ∨ w.isNamed (.bus d.changes))

theorem QueryDraft.named_add {w : World} {d e : QueryDraft} {part : QueryPart}
    (named : d.Named w) (h : d.add w part = .ok e) : e.Named w := by
  cases part with
  | context name =>
    obtain ⟨c, hc, rfl⟩ := needed_map_eq_ok.mp h
    refine ⟨?_, named.2⟩
    rintro c' ⟨⟩
    exact World.isNamed_of_context? hc
  | presenter name =>
    obtain ⟨p, -, rfl⟩ := needed_map_eq_ok.mp h
    exact named
  | changes bus =>
    obtain ⟨n, hn, rfl⟩ := needed_map_eq_ok.mp h
    exact ⟨named.1, World.isNamed_of_bus? hn⟩
  | _ =>
    cases h
    exact named

theorem QueryDraft.named_foldlM {w : World} {parts : List QueryPart}
    {d e : QueryDraft} (named : d.Named w)
    (h : parts.foldlM (QueryDraft.add w) d = .ok e) : e.Named w := by
  induction parts generalizing d with
  | nil =>
    cases h
    exact named
  | cons part rest ih =>
    rw [List.foldlM_cons] at h
    cases hd : d.add w part with
    | error r => simp [hd, bind, Except.bind] at h
    | ok d' =>
      simp only [hd, bind, Except.bind] at h
      exact ih (QueryDraft.named_add named hd) h

theorem begins_of_beginQuery {a : QueryAction}
    (h : m.beginQuery a = .ok b) (inside : sizeOf a < bound) :
    Begins m bound b := by
  cases a with
  | newQueryBridge name rowType parts =>
    simp only [beginQuery, bind, Except.bind] at h
    split at h
    · cases h
    · next d hd =>
      have named := QueryDraft.named_foldlM (w := m.world)
        (d := { changes := m.world.sharedBus }) (by simp [QueryDraft.Named]) hd
      split at h
      · next envelope _ =>
        cases h
        exact begins_making rfl (.newQueryBridge name
          { rowType, descriptor := d.descriptor, context := d.context,
            cache := {}, relay := { envelope, presenter := d.presenter },
            warned := false,
            subscription := m.world.freshSubscription d.changes }
          named.1 rfl rfl rfl named.2 rfl)
      · cases h
        exact begins_answering _
  | results bridge =>
    obtain ⟨q, hq, h⟩ := needed_bind_eq_ok.mp h
    cases h
    exact .results q (World.isNamed_of_queryBridge? hq)
  | queryBridgeInfo bridge =>
    obtain ⟨q, -, h⟩ := needed_bind_eq_ok.mp h
    cases h
    exact begins_answering _
  | refresh bridge =>
    obtain ⟨q, hq, h⟩ := needed_bind_eq_ok.mp h
    cases h
    exact .refresh q (World.isNamed_of_queryBridge? hq)
  | bindContext bridge context =>
    obtain ⟨q, hq, h⟩ := needed_bind_eq_ok.mp h
    obtain ⟨c, hc, h⟩ := needed_bind_eq_ok.mp h
    cases h
    exact .bindContext q c (World.isNamed_of_queryBridge? hq)
      (World.isNamed_of_context? hc)
  | observeQuery bridge owner property =>
    obtain ⟨q, -, h⟩ := needed_bind_eq_ok.mp h
    obtain ⟨o, ho, h⟩ := needed_bind_eq_ok.mp h
    cases h
    exact begins_changing
      (.bindQueryBridge q ⟨o, property⟩ (World.isNamed_of_owner? ho))
  | newTracker name store batches key bus onCall =>
    obtain ⟨s, hs, h⟩ := needed_bind_eq_ok.mp h
    obtain ⟨n, -, h⟩ := needed_bind_eq_ok.mp h
    cases h
    simp only [QueryAction.newTracker.sizeOf_spec] at inside
    exact begins_making rfl (.newTracker name s key n batches onCall
      (World.isNamed_of_store? hs) (by omega))
  | pushBatch tracker batch =>
    obtain ⟨t, -, h⟩ := needed_bind_eq_ok.mp h
    cases h
    exact begins_changing (.pushBatch t batch)
  | remoteChange tracker =>
    obtain ⟨t, ht, h⟩ := needed_bind_eq_ok.mp h
    cases h
    exact .readToken t _ (World.isNamed_of_tracker? ht) (Or.inl rfl)
  | lastToken tracker =>
    obtain ⟨t, ht, h⟩ := needed_bind_eq_ok.mp h
    cases h
    exact .readToken t _ (World.isNamed_of_tracker? ht) (Or.inr rfl)
  | tokenKey tracker =>
    obtain ⟨t, -, h⟩ := needed_bind_eq_ok.mp h
    cases h
    exact begins_answering _

/-- Every command that begins does so in one of the listed shapes. -/
theorem begins_of_begin {a : Action} (h : m.begin a = .ok b) :
    Begins m (sizeOf a) b := by
  cases a with
  | answer r =>
    cases h
    exact begins_answering r
  | malformed needs =>
    simp only [begin] at h
    split at h
    · cases h
    · cases h
  | unknown => cases h
  | drop name =>
    obtain ⟨n, -, h⟩ := needed_bind_eq_ok.mp h
    cases h
    exact begins_forget name
  | cancel name =>
    obtain ⟨n, -, h⟩ := needed_bind_eq_ok.mp h
    cases h
    exact begins_forget name
  | names =>
    cases h
    exact begins_answering _
  | describe name =>
    obtain ⟨n, -, h⟩ := needed_bind_eq_ok.mp h
    obtain ⟨s, -, h⟩ := needed_bind_eq_ok.mp h
    cases h
    exact begins_answering _
  | notice a => exact begins_of_beginNotice h (by simp)
  | store a => exact begins_of_beginStore h (by simp)
  | observation a => exact begins_of_beginObservation h (by simp)
  | context a => exact begins_of_beginContext h (by simp)
  | query a => exact begins_of_beginQuery h (by simp)

end

end Machine

end LiveProperty
