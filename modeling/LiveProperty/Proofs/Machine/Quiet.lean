import LiveProperty.Proofs.Machine.Runs

/-!
# What a run does not look at

The journal and the latest answer are written and not read: machines that
differ in nothing else take the same steps, `quiet_run`.
-/

namespace LiveProperty

/-- The machine with nothing in its journal and nothing answered. -/
def Machine.quiet (m : Machine) : Machine :=
  ⟨{ m.world with journal := [] }, m.todo, .nothing⟩

/-- A beginning with nothing in the journal and nothing answered. -/
def Begun.quiet (b : Begun) : Begun :=
  { b with machine := b.machine.quiet }

namespace Machine

variable {m m' : Machine}

theorem quiet_letGo (m : Machine) (o : Object) :
    ({ m with world := m.world.letGo o } : Machine).quiet =
      ({ m.quiet with world := m.quiet.world.letGo o } : Machine).quiet := by
  have hsubscription : m.quiet.world.subscriptionOf? o =
      m.world.subscriptionOf? o := by
    cases o <;> rfl
  simp only [World.letGo, hsubscription]
  cases m.world.subscriptionOf? o <;> rfl

theorem quiet_release (m : Machine) (o : Object) :
    (m.release o).quiet = (m.quiet.release o).quiet := by
  have hheld : m.quiet.isHeld o = m.isHeld o := rfl
  rw [release, release, hheld]
  cases m.isHeld o
  · exact quiet_letGo m o
  · rfl

theorem quiet_releaseNamed (m : Machine) (n : Option Named) :
    (m.releaseNamed n).quiet = (m.quiet.releaseNamed n).quiet := by
  rcases n with _ | o | _ | _ | _
  · rfl
  · exact quiet_release m o
  · rfl
  · rfl
  · rfl

theorem quiet_foldl_release (objects : List Object) (m : Machine) :
    (objects.foldl release m).quiet =
      (objects.foldl release m.quiet).quiet := by
  induction objects generalizing m with
  | nil => rfl
  | cons o objects ih =>
    rw [List.foldl_cons, List.foldl_cons, ih, quiet_release, ← ih]

theorem quiet_hearChange (m : Machine) (q : Ref .queryBridge)
    (c : ContextChange) :
    (m.hearChange q c).quiet = (m.quiet.hearChange q c).quiet := by
  have hbridges : m.quiet.world.queryBridges = m.world.queryBridges := rfl
  have horigin : (c.origin?.filter fun origin =>
      m.quiet.isAlive (.context origin)) =
        c.origin?.filter fun origin => m.isAlive (.context origin) := rfl
  simp only [hearChange, hbridges, horigin]
  split
  · split
    · next origin =>
      simp only [World.adopt, modifyWorld, hbridges]
      split <;> rfl
    · rfl
  · rfl

theorem quiet_call (m : Machine) (l : Listener) (event : Event) :
    (m.call l event).quiet = (m.quiet.call l event).quiet := by
  rcases l with ⟨name, plan, onlyKey⟩ | b | q
  · rcases onlyKey with _ | only
    · rfl
    · cases event with
      | key key =>
        simp only [call]
        by_cases h : key = only
        · simp only [if_pos h]
          rfl
        · simp only [if_neg h]
          rfl
      | _ => rfl
  · cases event with
    | key key =>
      have hbridges : m.quiet.world.keyBridges = m.world.keyBridges := rfl
      have halive : m.quiet.isAlive (.keyBridge b) =
        m.isAlive (.keyBridge b) := rfl
      simp only [call, hbridges, halive]
      split <;> rfl
    | _ => rfl
  · cases event with
    | change c =>
      have halive : m.quiet.isAlive (.queryBridge q) =
        m.isAlive (.queryBridge q) := rfl
      simp only [call, halive]
      split
      · exact quiet_hearChange m q c
      · rfl
    | _ => rfl

/-- Two beginnings that differ in the journal and the answer only. -/
def Alike (x y : Except Refusal Begun) : Prop :=
  x.map Begun.quiet = y.map Begun.quiet

theorem alike_bind {α : Type} (x : Except Refusal α)
    {f g : α → Except Refusal Begun} (h : ∀ a, Alike (f a) (g a)) :
    Alike (x >>= f) (x >>= g) := by
  cases x with
  | error e => rfl
  | ok a => exact h a

theorem quiet_rename (h : m.quiet = m'.quiet) (name : String) (n : Named) :
    (m.rename name n).quiet = (m'.rename name n).quiet := by
  have hnames : m.world.names = m'.world.names :=
    congrArg (fun x => x.world.names) h
  have hlookup : m.world.lookup? name = m'.world.lookup? name := by
    rw [World.lookup?, World.lookup?, hnames]
  have hbound : (m.modifyWorld fun w => w.bindName name n).quiet =
      (m'.modifyWorld fun w => w.bindName name n).quiet :=
    congrArg (fun x => (x.modifyWorld fun w => w.bindName name n).quiet) h
  rw [rename, rename, quiet_releaseNamed, hbound, hlookup,
    ← quiet_releaseNamed]

theorem quiet_forget (m : Machine) (name : String) :
    (m.forget name).quiet = (m.quiet.forget name).quiet := by
  have hlookup : m.quiet.world.lookup? name = m.world.lookup? name := rfl
  rw [forget, forget, quiet_releaseNamed, hlookup]
  exact (quiet_releaseNamed
    (m.quiet.modifyWorld fun w => w.unbindName name) _).symm

theorem alike_answering (h : m.quiet = m'.quiet) (r : Reply) :
    Alike (.ok (m.answering r)) (.ok (m'.answering r)) :=
  congrArg (fun x => Except.ok (Begun.mk x [] [.answer r])) h

theorem alike_making {f g : World → World} (name : String) (o : Object)
    (h : (m.modifyWorld f).quiet = (m'.modifyWorld g).quiet) :
    Alike (.ok (m.making name o f)) (.ok (m'.making name o g)) :=
  alike_answering (quiet_rename h name (.object o)) .nothing

theorem alike_beginNotice (m : Machine) (a : NoticeAction) :
    Alike (m.beginNotice a) (m.quiet.beginNotice a) := by
  cases a with
  | newCache | newNotifier => exact alike_making _ _ rfl
  | readCache | tryCache | invalidateCache | cacheState | announce
  | countListeners => exact alike_bind _ fun _ => rfl
  | unsubscribe => exact alike_bind _ fun _ => alike_bind _ fun _ => rfl
  | subscribe name source script =>
    refine alike_bind _ fun n => alike_answering (quiet_rename ?_ _ _) _
    rfl
  | freshSubscriber => rfl

theorem alike_makeKeyBridge (m : Machine) (name key : String)
    (kind : Storable) (initial : kind.Value) (store : Ref .store)
    (envelope : Envelope) (presenter : Option (Ref .presenter)) :
    Alike (.ok (m.makeKeyBridge name key kind initial store envelope presenter))
      (.ok (m.quiet.makeKeyBridge name key kind initial store envelope
        presenter)) :=
  alike_making _ _ rfl

theorem alike_writingKey (m : Machine) (b : Ref .keyBridge)
    (v : (m.world.keyBridges.get b).kind.Value) :
    Alike (.ok (m.writingKey b v)) (.ok (m.quiet.writingKey b v)) := by
  have hkind : (m.quiet.world.keyBridges.get b).kind =
    (m.world.keyBridges.get b).kind := rfl
  simp only [writingKey]
  cases h : (m.world.keyBridges.get b).kind.encode v with
  | ok encoded =>
    have h' : (m.quiet.world.keyBridges.get b).kind.encode v = .ok encoded := h
    simp only [h']
    rfl
  | error e =>
    have h' : (m.quiet.world.keyBridges.get b).kind.encode v = .error e := h
    simp only [h']
    rfl

theorem alike_beginStore (m : Machine) (a : StoreAction) :
    Alike (m.beginStore a) (m.quiet.beginStore a) := by
  cases a with
  | newStore => exact alike_making _ _ rfl
  | writeStore | peekStore | storeInfo | setDefaultStore | getKey
  | keyBridgeInfo => exact alike_bind _ fun _ => rfl
  | resetDefaultStore | readDefaultStore | writeDefaultStore
  | countDefaultStoreListeners => rfl
  | observeKey => exact alike_bind _ fun _ => alike_bind _ fun _ => rfl
  | newKeyBridge name key kind initial store envelope presenter =>
    refine alike_bind _ fun s => alike_bind _ fun p => ?_
    cases s <;> exact alike_makeKeyBridge m ..
  | setKey bridge value =>
    refine alike_bind _ fun b => ?_
    cases value with
    | none => rfl
    | some spelled =>
      cases h : spelled (m.world.keyBridges.get b).kind with
      | none =>
        have h' : spelled (m.quiet.world.keyBridges.get b).kind = none := h
        simp only [h, h']
        rfl
      | some v =>
        have h' : spelled (m.quiet.world.keyBridges.get b).kind = some v := h
        simp only [h, h']
        exact alike_writingKey m b v

theorem alike_beginObservation (m : Machine) (a : ObservationAction) :
    Alike (m.beginObservation a) (m.quiet.beginObservation a) := by
  cases a with
  | newRegistrar | newPresenter => exact alike_making _ _ rfl
  | access | mutate | observe | registrarInfo | bindingInfo | runEnvelope
  | installPresenter => exact alike_bind _ fun _ => rfl
  | newHook => exact alike_bind _ fun _ => alike_making _ _ rfl
  | newBinding =>
    refine alike_bind _ fun _ => alike_answering (quiet_rename ?_ _ _) _
    rfl
  | uninstallPresenter | presenterInstalled => rfl

theorem alike_writing (m : Machine) (c : Ref .context) (rowType : RowType)
    (id : RowId) (kind : ChangeKind) (f : MemoryContext → MemoryContext) :
    Alike (.ok (m.writing c rowType id kind f))
      (.ok (m.quiet.writing c rowType id kind f)) := by
  have hmemory : m.quiet.world.memory c = m.world.memory c := rfl
  simp only [writing, hmemory]
  split <;> rfl

theorem alike_saving (m : Machine) (c : Ref .context) :
    Alike (.ok (m.saving c)) (.ok (m.quiet.saving c)) := by
  have hevent : m.quiet.world.saveEvent c = m.world.saveEvent c := rfl
  simp only [saving, hevent]
  split <;> rfl

theorem alike_beginContext (m : Machine) (a : ContextAction) :
    Alike (m.beginContext a) (m.quiet.beginContext a) := by
  cases a with
  | newBus => exact alike_making _ _ rfl
  | changeInfo | changeAffects | contextInfo | fetchRows
  | setDefaultContext => exact alike_bind _ fun _ => rfl
  | announceChange | changeSame | getRow =>
    exact alike_bind _ fun _ => alike_bind _ fun _ => rfl
  | newChange =>
    refine alike_bind _ fun _ => alike_bind _ fun _ =>
      alike_answering (quiet_rename ?_ _ _) _
    rfl
  | newContext | newSupervisedContext =>
    exact alike_bind _ fun _ => alike_making _ _ rfl
  | insertRow context rowType content name =>
    refine alike_bind _ fun c => ?_
    cases name with
    | none => rfl
    | some name =>
      refine alike_answering (quiet_rename ?_ _ _) _
      rfl
  | updateRow | deleteRow =>
    exact alike_bind _ fun _ => alike_bind _ fun _ => alike_writing m ..
  | saveContext => exact alike_bind _ fun c => alike_saving m c
  | clearDefaultContext | defaultContext => rfl

theorem alike_beginQuery (m : Machine) (a : QueryAction) :
    Alike (m.beginQuery a) (m.quiet.beginQuery a) := by
  cases a with
  | results | queryBridgeInfo | refresh | pushBatch | remoteChange
  | lastToken | tokenKey => exact alike_bind _ fun _ => rfl
  | bindContext | observeQuery =>
    exact alike_bind _ fun _ => alike_bind _ fun _ => rfl
  | newTracker =>
    exact alike_bind _ fun _ => alike_bind _ fun _ => alike_making _ _ rfl
  | newQueryBridge name rowType parts =>
    refine alike_bind _ fun d => ?_
    split
    · exact alike_making _ _ rfl
    · rfl

theorem alike_begin (m : Machine) (a : Action) :
    Alike (m.begin a) (m.quiet.begin a) := by
  cases a with
  | answer | unknown | names => rfl
  | malformed needs =>
    have hmeets : m.quiet.world.meets = m.world.meets := rfl
    simp only [begin, hmeets]
    split <;> rfl
  | drop | cancel =>
    exact alike_bind _ fun _ => alike_answering (quiet_forget m _) _
  | describe => exact alike_bind _ fun _ => alike_bind _ fun _ => rfl
  | notice a => exact alike_beginNotice m a
  | store a => exact alike_beginStore m a
  | observation a => exact alike_beginObservation m a
  | context a => exact alike_beginContext m a
  | query a => exact alike_beginQuery m a

theorem quiet_perform (m : Machine) (c : Command) (nested : Bool) :
    (m.perform c nested).quiet = (m.quiet.perform c nested).quiet := by
  have halike := alike_begin m c.action
  simp only [perform]
  cases hx : m.begin c.action with
  | error r =>
    cases hy : m.quiet.begin c.action with
    | error r' =>
      rw [hx, hy] at halike
      cases Except.error.inj halike
      rfl
    | ok y => rw [hx, hy] at halike; cases halike
  | ok x =>
    cases hy : m.quiet.begin c.action with
    | error r' => rw [hx, hy] at halike; cases halike
    | ok y =>
      rw [hx, hy] at halike
      have hquiet := Except.ok.inj halike
      have hmachine : x.machine.quiet = y.machine.quiet :=
        congrArg (fun z => z.machine) hquiet
      have hheld : x.held = y.held := congrArg (fun z => z.held) hquiet
      have htasks : x.tasks = y.tasks := congrArg (fun z => z.tasks) hquiet
      simp only [hheld, htasks]
      exact congrArg
        (fun z => (z.push (y.tasks ++ [.finish c.label y.held nested])).quiet)
        hmachine

theorem quiet_doTask (m : Machine) (t : Task) :
    (m.doTask t).quiet = (m.quiet.doTask t).quiet := by
  cases t with
  | perform c nested => exact quiet_perform m c nested
  | deliver audience event =>
    cases audience with
    | nil => rfl
    | cons l rest => exact quiet_call _ l event
  | finish label held nested =>
    cases nested
    · exact quiet_foldl_release held m
    · exact (quiet_foldl_release held _).trans
        (quiet_foldl_release held (m.quiet.tell _)).symm
  | access owner property => cases owner <;> rfl
  | mutate owner property i => cases owner <;> rfl
  | invalidate i => rcases i with (b | q) | during <;> rfl
  | enclose envelope presenter body =>
    rcases envelope with _ | scope
    · rfl
    · have hinstalled : m.quiet.world.installedPresenter =
        m.world.installedPresenter := rfl
      simp only [doTask, enclose, hinstalled]
      cases presenter.or m.world.installedPresenter <;> rfl
  | run body =>
    rcases body with ⟨_ | binding, b⟩ | commands <;> rfl
  | leaveScope r reaction =>
    have hscopes : m.quiet.world.scopes = m.world.scopes := rfl
    simp only [doTask, World.leaveScope, modifyWorld, hscopes]
    cases m.world.scopes.collected.isEmpty <;> rfl
  | readCache c outcome during mayFail =>
    have hcaches : m.quiet.world.caches = m.world.caches := rfl
    simp only [doTask, readCache, hcaches]
    cases (m.world.caches.get c).value <;> rfl
  | settleCache c began outcome mayFail => cases outcome <;> rfl
  | readKey b =>
    have hbridges : m.quiet.world.keyBridges = m.world.keyBridges := rfl
    simp only [doTask, readKey]
    cases h : (m.world.keyBridges.get b).cache.value with
    | none =>
      have h' : (m.quiet.world.keyBridges.get b).cache.value = none := h
      simp only [h']
      rfl
    | some v =>
      have h' : (m.quiet.world.keyBridges.get b).cache.value = some v := h
      simp only [h']
      rfl
  | settleKey b began stored =>
    have hbridges : m.quiet.world.keyBridges = m.world.keyBridges := rfl
    simp only [doTask, settleKey, reportFault, hbridges]
    cases (m.world.keyBridges.get b).fault? stored <;> rfl
  | readQuery q =>
    have hbridges : m.quiet.world.queryBridges = m.world.queryBridges := rfl
    simp only [doTask, readQuery, hbridges]
    cases (m.world.queryBridges.get q).cache.value <;> rfl
  | receive c records purpose =>
    cases purpose with
    | bridge q began => rfl
    | client rowType descriptor =>
      have hcontexts : m.quiet.world.contexts = m.world.contexts := rfl
      simp only [doTask, receive, conclude, hcontexts]
      cases ((m.world.contexts.get c).outcome records).bind
        (descriptor.select rowType) <;> rfl
  | settleQuery q began outcome =>
    have hbridges : m.quiet.world.queryBridges = m.world.queryBridges := rfl
    simp only [doTask, settleQuery, missContext, hbridges]
    rcases (m.world.queryBridges.get q).rowsOf outcome with e | rows
    · cases e with
      | missingContext _ =>
        cases (m.world.queryBridges.get q).warned <;> rfl
      | _ => rfl
    · rfl
  | askHistory t stored =>
    rcases stored with _ | stored
    · rfl
    · simp only [doTask, askHistory, lastToken]
      cases HistoryToken.decode stored <;> rfl
  | takeBatch t =>
    have htrackers : m.quiet.world.trackers = m.world.trackers := rfl
    simp only [doTask, takeBatch, htrackers]
    cases (m.world.trackers.get t).batch <;> rfl
  | announceRemote t transactions entities =>
    simp only [doTask, announceRemote]
    cases entities.isEmpty <;> rfl
  | answerToken t stored =>
    rcases stored with _ | stored
    · rfl
    · simp only [doTask, answerToken, lastToken]
      cases HistoryToken.decode stored <;> rfl
  | _ => rfl

theorem quiet_step_eq (m : Machine) : m.step.quiet = m.quiet.step.quiet := by
  cases htodo : m.todo with
  | nil => rw [step_of_todo_nil htodo, step_of_todo_nil (m := m.quiet) htodo]; rfl
  | cons t rest =>
    rw [step_of_todo_cons htodo, step_of_todo_cons (m := m.quiet) htodo]
    exact quiet_doTask { m with todo := rest } t

/-- Machines that differ in the journal and the answer only have the same
run but for these. -/
theorem quiet_run (h : m.quiet = m'.quiet) (n : ℕ) :
    (run n m).quiet = (run n m').quiet := by
  induction n with
  | zero => exact h
  | succ n ih =>
    rw [run_succ, run_succ, quiet_step_eq, ih, ← quiet_step_eq]

end Machine
end LiveProperty
