import LiveProperty.Machine.Inspection

/-!
# Beginning a command

What a command does at once, and the tasks that it leaves.  A name that stands for nothing, or for something of
another sort, refuses the command before it has done anything.
-/

namespace LiveProperty

/-- A command that has begun: the machine after what it did at once, the objects it holds until it is finished,
and what it still has to do. -/
structure Begun where
  machine : Machine
  held : List Object
  tasks : List Task

/-- Refuses a command if something it needs is not there. -/
def needed {α : Type} : Option α → Except Refusal α
  | some a => .ok a
  | none => .error .noObject

/-- An optional name refuses only if it is given and stands for nothing fitting. -/
def neededIfGiven {α β : Type} (find : α → Option β) : Option α → Except Refusal (Option β)
  | none => .ok none
  | some a => (needed (find a)).map some

namespace Machine

/-- Changes the world. -/
def modifyWorld (m : Machine) (f : World → World) : Machine :=
  { m with world := f m.world }

/-- A command that only answers. -/
def answering (m : Machine) (r : Reply) : Begun :=
  ⟨m, [], [.answer r]⟩

/-- A command that changes the world and answers nothing. -/
def changing (m : Machine) (f : World → World) : Begun :=
  (m.modifyWorld f).answering .nothing

/-- Lets a name stand for something new; what it stood for before goes only then. -/
def rename (m : Machine) (name : String) (n : Named) : Machine :=
  (m.modifyWorld fun w => w.bindName name n).releaseNamed (m.world.lookup? name)

/-- A command that makes an object: the world is changed first, then the name is given. -/
def making (m : Machine) (name : String) (o : Object) (f : World → World) : Begun :=
  ((m.modifyWorld f).rename name (.object o)).answering .nothing

/-- Takes a name away and lets go of what it stood for. -/
def forget (m : Machine) (name : String) : Machine :=
  (m.modifyWorld fun w => w.unbindName name).releaseNamed (m.world.lookup? name)

/-- Where a client listens: the notifier, and the one key it listens for, if it does. -/
def source? (w : World) : Source → Option (Ref .notifier × Option String)
  | .storeKey store key => (w.store? store).map fun s => ((w.stores.get s).changes, some key)
  | .store store => (w.store? store).map fun s => ((w.stores.get s).changes, none)
  | .notifier name => (w.notifier? name).map (·, none)
  | .bus name => (w.bus? name).map (·, none)

/-- What a read of a store runs before its value is used. -/
def readTasks (w : World) (s : Ref .store) : List Task :=
  ((w.stores.get s).onRead.map Task.fire).toList

/-- What telling the owner of a bridge's property of a read runs. -/
def accessTasks (m : Machine) (b : Bridge) : List Task :=
  match m.liveBinding? b with
  | some binding => [.access binding.owner binding.property, .keep [binding.owner.object]]
  | none => []

/-- An announcement on a notifier. -/
def announcing (m : Machine) (source : Ref .notifier) (event : Event) : Machine × Task :=
  let audience := m.world.audience source
  (m.modifyWorld fun w => w.tell (.announced source event audience), .deliver audience event)

/-- What a query bridge is made of. -/
structure QueryDraft where
  descriptor : FetchDescriptor Json := {}
  context : Option (Ref .context) := none
  transaction : Option Transaction := none
  animation : Option Animation := none
  presenter : Option (Ref .presenter) := none
  changes : Ref .notifier

/-- Adds a part to the draft of a query bridge: filters and pages replace the ones before, and criteria are added
behind. -/
def QueryDraft.add (w : World) (d : QueryDraft) : QueryPart → Except Refusal QueryDraft
  | .descriptor descriptor => .ok { d with descriptor }
  | .filter test => .ok { d with descriptor := { d.descriptor with filter := some test } }
  | .sort criterion => .ok { d with descriptor := { d.descriptor with sort := d.descriptor.sort ++ [criterion] } }
  | .limit n => .ok { d with descriptor := { d.descriptor with limit := some n } }
  | .offset n => .ok { d with descriptor := { d.descriptor with offset := n } }
  | .context name => (needed (w.context? name)).map fun c => { d with context := some c }
  | .transaction t => .ok { d with transaction := some t }
  | .animation a => .ok { d with animation := some a }
  | .presenter name => (needed (w.presenter? name)).map fun p => { d with presenter := some p }
  | .changes bus => (needed (w.bus? bus)).map fun changes => { d with changes }

/-! ## Making bridges -/

/-- Makes a key bridge, which subscribes to its store before it gets its name. -/
def makeKeyBridge (m : Machine) (name key : String) (kind : Storable) (initial : kind.Value) (store : Ref .store)
    (envelope : Envelope) (presenter : Option (Ref .presenter)) : Begun :=
  let b := m.world.keyBridges.fresh
  let source := (m.world.stores.get store).changes
  let subscription := m.world.freshSubscription source
  let relay : Relay := { envelope, presenter }
  m.making name (.keyBridge b) fun w =>
    { w.subscribe source (.keyBridge b) with
      keyBridges := w.keyBridges.add { store, key, kind, initial, cache := {}, relay, subscription } }

/-- Makes a query bridge, which subscribes to its bus before it gets its name. -/
def makeQueryBridge (m : Machine) (name : String) (rowType : RowType) (d : QueryDraft) (envelope : Envelope) :
    Begun :=
  let b := m.world.queryBridges.fresh
  let subscription := m.world.freshSubscription d.changes
  let relay : Relay := { envelope, presenter := d.presenter }
  m.making name (.queryBridge b) fun w =>
    { w.subscribe d.changes (.queryBridge b) with
      queryBridges := w.queryBridges.add
        { rowType, descriptor := d.descriptor, context := d.context, cache := {}, relay, warned := false,
          subscription } }

/-- A write to a row that answers whether there was one. -/
def writing (m : Machine) (c : Ref .context) (rowType : RowType) (id : RowId) (kind : ChangeKind)
    (f : MemoryContext → MemoryContext) : Begun :=
  if (m.world.memory c).holds rowType id then
    (m.modifyWorld fun w => (w.modifyMemory c f).tell (.rowWritten c ⟨kind, rowType.entity⟩ id)).answering
      (.flag true)
  else m.answering (.flag false)

/-- A save of unsaved changes: they are forgotten first, and then announced. -/
def saving (m : Machine) (c : Ref .context) : Begun :=
  let change := m.world.saveEvent c
  if change.isEmpty then m.answering (.number 0)
  else
    let count := (distinct (m.world.memory c).unsaved).length
    let saved := m.modifyWorld fun w =>
      (w.modifyMemory c MemoryContext.clearUnsaved).tell (.contextSaved c count)
    let (announced, task) := saved.announcing (m.world.contexts.get c).changes (.change change)
    ⟨announced, [.context c], [task, .answer (.number count)]⟩

/-- A command that goes on with what is stored under a tracker's key. -/
def readingToken (m : Machine) (t : Ref .tracker) (next : Option StoreValue → Task) : Begun :=
  let tr := m.world.trackers.get t
  ⟨m.modifyWorld fun w => w.noteRead tr.store tr.key, [.tracker t],
    readTasks m.world tr.store ++ [next (m.world.storedValue tr.store tr.key)]⟩

/-- A write of a value through a key bridge; one that cannot be encoded is reported and not written. -/
def writingKey (m : Machine) (b : Ref .keyBridge) (value : (m.world.keyBridges.get b).kind.Value) : Begun :=
  let k := m.world.keyBridges.get b
  match k.kind.encode value with
  | .ok encoded => ⟨m, [.keyBridge b], [.write k.store k.key encoded, .answer .nothing]⟩
  | .error e => m.changing fun w => w.tell (.writeRefused b k.key e)

/-! ## Commands -/

/-- Begins a command on caches or notifiers. -/
def beginNotice (m : Machine) : NoticeAction → Except Refusal Begun
  | .newCache name => .ok (m.making name (.cache m.world.caches.fresh) fun w =>
      { w with caches := w.caches.add {} })
  | .readCache cache value during => do
    let c ← needed (m.world.cache? cache)
    .ok ⟨m, [.cache c], [.readCache c (.ok value) during false]⟩
  | .tryCache cache outcome during => do
    let c ← needed (m.world.cache? cache)
    .ok ⟨m, [.cache c], [.readCache c outcome during true]⟩
  | .invalidateCache cache => do
    let c ← needed (m.world.cache? cache)
    .ok (m.changing fun w =>
      { w with caches := w.caches.modify c Cache.invalidate }.tell (.cacheInvalidated (.client c)))
  | .cacheState cache => do
    let c ← needed (m.world.cache? cache)
    .ok (m.answering (.held (m.world.caches.get c).value))
  | .newNotifier name => .ok (m.making name (.notifier m.world.notifiers.fresh) World.addNotifier)
  | .announce notifier event => do
    let n ← needed (m.world.notifier? notifier)
    let (m, task) := m.announcing n (.value event)
    .ok ⟨m, [.notifier n], [task, .answer .nothing]⟩
  | .unsubscribe notifier subscription => do
    let n ← needed (m.world.notifier? notifier)
    let s ← needed (m.world.subscription? subscription)
    .ok (m.changing fun w => w.detach n s.id)
  | .subscribe name source script => do
    let (n, onlyKey) ← needed (source? m.world source)
    let id := m.world.freshSubscriber
    let subscribed := m.modifyWorld fun w =>
      (w.addPlan script).subscribe n (.client name w.plans.fresh onlyKey)
    .ok ((subscribed.rename name (.object (.subscription ⟨id, n⟩))).answering (.number id.number.toNat))
  | .freshSubscriber =>
    let id := m.world.freshSubscriber
    .ok ((m.modifyWorld fun w => { w with subscriptions := w.subscriptions + 1 }).answering
      (.number id.number.toNat))
  | .countListeners source => do
    let (n, _) ← needed (source? m.world source)
    .ok (m.answering (.number (m.world.notifiers.get n).count))

/-- Begins a command on stores or key bridges. -/
def beginStore (m : Machine) : StoreAction → Except Refusal Begun
  | .newStore name suite onRead => .ok (m.making name (.store m.world.stores.fresh) fun w =>
      (w.addPlan onRead).addStore (some name) suite (some w.plans.fresh))
  | .writeStore store key value => do
    let s ← needed (m.world.store? store)
    .ok ⟨m, [.store s], [.write s key value, .answer .nothing]⟩
  | .peekStore store key => do
    let s ← needed (m.world.store? store)
    .ok (m.answering (.stored (m.world.storedValue s key)))
  | .storeInfo store key => do
    let s ← needed (m.world.store? store)
    let contents := m.world.stores.get s
    .ok (m.answering (.store contents.size contents.suite (key.map fun k => (contents.find? k).isSome)))
  | .setDefaultStore store => do
    let s ← needed (m.world.store? store)
    .ok (m.changing fun w => { w with defaultStore := s })
  | .resetDefaultStore => .ok (m.changing fun w =>
      { w.addStore none (some standardSuite) none with defaultStore := w.stores.fresh })
  | .readDefaultStore key =>
    let s := m.world.defaultStore
    .ok ⟨m.modifyWorld fun w => w.noteRead s key, [],
      readTasks m.world s ++ [.answer (.stored (m.world.storedValue s key))]⟩
  | .writeDefaultStore key value =>
    .ok ⟨m, [], [.write m.world.defaultStore key value, .answer .nothing]⟩
  | .countDefaultStoreListeners =>
    .ok (m.answering (.number (m.world.notifiers.get (m.world.stores.get m.world.defaultStore).changes).count))
  | .newKeyBridge name key kind initial store envelope presenter => do
    let s ← neededIfGiven m.world.store? store
    let p ← neededIfGiven m.world.presenter? presenter
    .ok (match s with
      | some s => m.makeKeyBridge name key kind initial s envelope p
      | none => m.makeKeyBridge name key kind initial m.world.defaultStore .direct none)
  | .getKey bridge => do
    let b ← needed (m.world.keyBridge? bridge)
    .ok ⟨m, [.keyBridge b], m.accessTasks (.key b) ++ [.readKey b]⟩
  | .setKey bridge value => do
    let b ← needed (m.world.keyBridge? bridge)
    let k := m.world.keyBridges.get b
    match value with
    | none => .ok ⟨m, [.keyBridge b], [.write k.store k.key none, .answer .nothing]⟩
    | some spelled =>
      match spelled k.kind with
      | some v => .ok (m.writingKey b v)
      | none => .error .badValue
  | .keyBridgeInfo bridge => do
    let b ← needed (m.world.keyBridge? bridge)
    let k := m.world.keyBridges.get b
    .ok (m.answering (.keyBridge k.key k.kind k.initial k.cache.isPopulated k.relay.envelope))
  | .observeKey bridge owner property => do
    let b ← needed (m.world.keyBridge? bridge)
    let o ← needed (m.world.owner? owner)
    .ok (m.changing fun w =>
      { w with keyBridges := w.keyBridges.modify b fun k => k.bind ⟨o, property⟩ })

/-- Begins a command on registrars, hooks, envelopes or presenters. -/
def beginObservation (m : Machine) : ObservationAction → Except Refusal Begun
  | .newRegistrar name => .ok (m.making name (.registrar m.world.registrars.fresh) fun w =>
      { w with registrars := w.registrars.add {} })
  | .access registrar property => do
    let r ← needed (m.world.registrar? registrar)
    .ok ⟨m, [.registrar r], [.access (.registrar r) property, .answer .nothing]⟩
  | .mutate registrar property during => do
    let r ← needed (m.world.registrar? registrar)
    .ok ⟨m, [.registrar r], [.mutate (.registrar r) property (.client during), .answer .nothing]⟩
  | .observe registrar label apply onChange => do
    let r ← needed (m.world.registrar? registrar)
    .ok ⟨m.modifyWorld fun w => w.enterScope r, [.registrar r],
      Task.nested apply ++ [.leaveScope r ⟨label, onChange⟩, .answer .nothing]⟩
  | .registrarInfo registrar property => do
    let r ← needed (m.world.registrar? registrar)
    let counts := m.world.registrars.get r
    .ok (m.answering (.counts (counts.accessCount property) (counts.mutationCount property) counts.waiting.length))
  | .newHook name onAccess before after calls registrar => do
    let forward ← neededIfGiven m.world.registrar? registrar
    .ok (m.making name (.hook m.world.hooks.fresh) fun w =>
      let first := w.addPlan onAccess
      let second := first.addPlan before
      { second.addPlan after with
        hooks := w.hooks.add ⟨name, w.plans.fresh, first.plans.fresh, second.plans.fresh, calls, forward⟩ })
  | .newBinding name owner property => do
    let o ← needed (m.world.owner? owner)
    .ok ((m.rename name (.binding ⟨o, property⟩)).answering .nothing)
  | .bindingInfo binding => do
    let b ← needed (m.world.binding? binding)
    .ok (m.answering (.binding b.property b.property.utf8ByteSize (m.isAlive b.owner.object)))
  | .runEnvelope envelope presenter body => do
    let p ← neededIfGiven m.world.presenter? presenter
    .ok ⟨m, (p.map Object.presenter).toList, [.enclose envelope p (.client body), .answer .nothing]⟩
  | .newPresenter name before after calls => .ok (m.making name (.presenter m.world.presenters.fresh) fun w =>
      let first := w.addPlan before
      { first.addPlan after with
        presenters := w.presenters.add ⟨name, w.plans.fresh, first.plans.fresh, calls⟩ })
  | .installPresenter presenter => do
    let p ← needed (m.world.presenter? presenter)
    .ok (m.changing fun w => { w with installedPresenter := some p })
  | .uninstallPresenter => .ok (m.changing fun w => { w with installedPresenter := none })
  | .presenterInstalled => .ok (m.answering (.flag m.world.installedPresenter.isSome))

/-- Begins a command on buses, changes or contexts. -/
def beginContext (m : Machine) : ContextAction → Except Refusal Begun
  | .newBus name => .ok (m.making name (.bus m.world.notifiers.fresh) World.addNotifier)
  | .announceChange bus change => do
    let n ← needed (m.world.bus? bus)
    let c ← needed (m.world.change? change)
    let (m, task) := m.announcing n (.change c)
    .ok ⟨m, [.bus n], [task, .answer .nothing]⟩
  | .newChange name change origin => do
    let c ← needed (m.world.change? change)
    let o ← neededIfGiven m.world.context? origin
    let whole := match o with
      | some context => c.withOrigin context
      | none => c
    .ok ((m.rename name (.change whole)).answering .nothing)
  | .changeInfo change => do
    let c ← needed (m.world.change? change)
    .ok (m.answering (.change (m.view c) c.isEmpty))
  | .changeAffects change entity => do
    let c ← needed (m.world.change? change)
    .ok (m.answering (.flag (c.affects entity)))
  | .changeSame change other => do
    let c ← needed (m.world.change? change)
    let d ← needed (m.world.namedChange? other)
    .ok (m.answering (.flag (c = d)))
  | .newContext name sort bus => do
    let n ← needed (m.world.bus? bus)
    let changes := if sort = .global then m.world.sharedBus else n
    .ok (m.making name (.context m.world.contexts.fresh) fun w =>
      { w with contexts := w.contexts.add ⟨{}, changes, sort = .shared, none⟩ })
  | .newSupervisedContext name bus onFetch failures error => do
    let n ← needed (m.world.bus? bus)
    .ok (m.making name (.context m.world.contexts.fresh) fun w =>
      { w.addPlan onFetch with
        contexts := w.contexts.add ⟨{}, n, false, some ⟨name, w.plans.fresh, failures, error⟩⟩ })
  | .insertRow context rowType content name => do
    let c ← needed (m.world.context? context)
    let id := (m.world.memory c).freshRow
    let inserted := m.modifyWorld fun w =>
      (w.modifyMemory c fun memory => memory.insert rowType content).tell
        (.rowWritten c ⟨.inserted, rowType.entity⟩ id)
    let named := match name with
      | some name => inserted.rename name (.row id)
      | none => inserted
    .ok (named.answering (.text (Description.wrapped "RowId" (Description.count id.number.toNat))))
  | .updateRow context rowType row content => do
    let c ← needed (m.world.context? context)
    let id ← needed (m.world.row? row)
    .ok (m.writing c rowType id .updated fun memory => memory.update rowType id content)
  | .deleteRow context rowType row => do
    let c ← needed (m.world.context? context)
    let id ← needed (m.world.row? row)
    .ok (m.writing c rowType id .deleted fun memory => memory.delete rowType id)
  | .getRow context rowType row => do
    let c ← needed (m.world.context? context)
    let id ← needed (m.world.row? row)
    .ok (m.answering (.row ((m.world.memory c).get? rowType id)))
  | .saveContext context => do
    let c ← needed (m.world.context? context)
    .ok (m.saving c)
  | .contextInfo context rowType => do
    let c ← needed (m.world.context? context)
    let memory := m.world.memory c
    .ok (m.answering (.context (memory.count rowType.entity) memory.hasChanges
      (m.world.notifiers.get (m.world.contexts.get c).changes).count))
  | .fetchRows context rowType descriptor => do
    let c ← needed (m.world.context? context)
    .ok ⟨m, [.context c], [.askRecords c rowType.entity (.client rowType descriptor)]⟩
  | .setDefaultContext context => do
    let c ← needed (m.world.context? context)
    .ok (m.changing fun w => { w with defaultContext := some c })
  | .clearDefaultContext => .ok (m.changing fun w => { w with defaultContext := none })
  | .defaultContext => .ok (m.answering (.contextName (m.world.defaultContext.map m.contextName)))

/-- Begins a command on query bridges or trackers. -/
def beginQuery (m : Machine) : QueryAction → Except Refusal Begun
  | .newQueryBridge name rowType parts => do
    let d ← parts.foldlM (QueryDraft.add m.world) { changes := m.world.sharedBus }
    match Envelope.ofParts? d.transaction d.animation with
    | some envelope => .ok (m.makeQueryBridge name rowType d envelope)
    | none => .ok (m.answering (.failed .conflictingEnvelope))
  | .results bridge => do
    let q ← needed (m.world.queryBridge? bridge)
    .ok ⟨m, [.queryBridge q], m.accessTasks (.query q) ++ [.readQuery q]⟩
  | .queryBridgeInfo bridge => do
    let q ← needed (m.world.queryBridge? bridge)
    let b := m.world.queryBridges.get q
    .ok (m.answering (.queryBridge b.entity b.cache.isPopulated b.descriptor.info b.relay.envelope))
  | .refresh bridge => do
    let q ← needed (m.world.queryBridge? bridge)
    .ok ⟨m, [.queryBridge q], [.relay (.query q), .answer .nothing]⟩
  | .bindContext bridge context => do
    let q ← needed (m.world.queryBridge? bridge)
    let c ← needed (m.world.context? context)
    .ok ⟨m.modifyWorld fun w => w.bindContext q c, [.queryBridge q, .context c],
      [.relay (.query q), .answer .nothing]⟩
  | .observeQuery bridge owner property => do
    let q ← needed (m.world.queryBridge? bridge)
    let o ← needed (m.world.owner? owner)
    .ok (m.changing fun w =>
      { w with queryBridges := w.queryBridges.modify q fun b => b.bind ⟨o, property⟩ })
  | .newTracker name store batches key bus onCall => do
    let s ← needed (m.world.store? store)
    let n ← needed (m.world.bus? bus)
    .ok (m.making name (.tracker m.world.trackers.fresh) fun w =>
      { w.addPlan onCall with trackers := w.trackers.add ⟨name, s, key, n, w.plans.fresh, batches⟩ })
  | .pushBatch tracker batch => do
    let t ← needed (m.world.tracker? tracker)
    .ok (m.changing fun w =>
      { w with trackers := w.trackers.modify t fun tr => tr.pushBatch batch })
  | .remoteChange tracker => do
    let t ← needed (m.world.tracker? tracker)
    .ok (m.readingToken t (Task.askHistory t))
  | .lastToken tracker => do
    let t ← needed (m.world.tracker? tracker)
    .ok (m.readingToken t (Task.answerToken t))
  | .tokenKey tracker => do
    let t ← needed (m.world.tracker? tracker)
    .ok (m.answering (.text (m.world.trackers.get t).key))

/-- Begins a command. -/
def begin (m : Machine) (a : Action) : Except Refusal Begun :=
  match a with
  | .answer r => .ok (m.answering r)
  | .malformed needs => if needs.all m.world.meets then .error .badValue else .error .noObject
  | .unknown => .error .noSuchStep
  | .drop name => do
    let _ ← needed (m.world.lookup? name)
    .ok ((m.forget name).answering .nothing)
  | .cancel name => do
    let _ ← needed (m.world.lookup? name)
    .ok ((m.forget name).answering .nothing)
  | .names => .ok (m.answering (.texts m.world.names.keys))
  | .describe name => do
    let n ← needed (m.world.lookup? name)
    let s ← needed (m.describe? n)
    .ok (m.answering (.text s))
  | .notice a => m.beginNotice a
  | .store a => m.beginStore a
  | .observation a => m.beginObservation a
  | .context a => m.beginContext a
  | .query a => m.beginQuery a

end Machine

end LiveProperty
