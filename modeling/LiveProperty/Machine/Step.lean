import LiveProperty.Machine.Begin

/-!
# Steps of a machine

A step takes the first task of a machine, does what it says, and puts what follows from it in front of the rest.
A step is total, and a machine without tasks stands still.  `Machine.run` takes a number of steps;
`Machine.execute` carries out one command of a client to its end.
-/

namespace LiveProperty

namespace Machine

/-- Puts tasks in front. -/
def push (m : Machine) (tasks : List Task) : Machine :=
  { m with todo := tasks ++ m.todo }

/-- Notes a happening. -/
def tell (m : Machine) (h : Happening) : Machine :=
  m.modifyWorld fun w => w.tell h

/-- Sets the answer. -/
def answer (m : Machine) (r : Reply) : Machine :=
  { m with reply := r }

/-! ## Commands and callbacks -/

/-- Begins a command, which is finished when all that it leaves is done. -/
def perform (m : Machine) (c : Command) (nested : Bool) : Machine :=
  match m.begin c.action with
  | .ok b => b.machine.push (b.tasks ++ [.finish c.label b.held nested])
  | .error r => m.push [.answer (.refused r), .finish c.label [] nested]

/-- Finishes a command. -/
def finish (m : Machine) (label : Json) (held : List Object) (nested : Bool) : Machine :=
  let reported := if nested then m.tell (.finished label m.reply) else m
  held.foldl release reported

/-- Calls a callback: the commands of its next call are carried out. -/
def fire (m : Machine) (plan : Ref .plan) : Machine :=
  let p := m.world.plans.get plan
  (m.modifyWorld fun w => { w with plans := w.plans.set plan ⟨p.schedule.next⟩ }).push
    (Task.nested p.schedule.current)

/-! ## Announcements -/

/-- Announces an event on a notifier. -/
def announce (m : Machine) (source : Ref .notifier) (event : Event) : Machine :=
  let (announced, task) := m.announcing source event
  announced.push [task]

/-- A query bridge hears of a change: if it concerns the bridge, a bridge without a context adopts a living
origin, and the results become invalid. -/
def hearChange (m : Machine) (q : Ref .queryBridge) (c : ContextChange) : Machine :=
  if c.affects (m.world.queryBridges.get q).entity then
    let adopted := match c.origin?.filter fun origin => m.isAlive (.context origin) with
      | some origin => m.modifyWorld fun w => w.adopt q origin
      | none => m
    adopted.push [.relay (.query q)]
  else m

/-- Calls a listener.  A bridge hears an event only while it is alive. -/
def call (m : Machine) (l : Listener) (event : Event) : Machine :=
  match l, event with
  | .client name plan onlyKey, event =>
    let heard := (m.tell (.heard name (m.viewEvent event))).push [.fire plan]
    match onlyKey, event with
    | some only, .key key => if key = only then heard else m
    | _, _ => heard
  | .keyBridge b, .key key =>
    if key = (m.world.keyBridges.get b).key ∧ m.isAlive (.keyBridge b) then m.push [.relay (.key b)] else m
  | .queryBridge q, .change c => if m.isAlive (.queryBridge q) then m.hearChange q c else m
  | _, _ => m

/-- Writes to a store, and announces the key. -/
def write (m : Machine) (s : Ref .store) (key : String) (value : Option StoreValue) : Machine :=
  (m.modifyWorld fun w => w.writeValue s key value).announce (m.world.stores.get s).changes (.key key)

/-! ## Observation -/

/-- Tells an owner that a property is about to be read. -/
def access (m : Machine) (owner : Owner) (property : String) : Machine :=
  match owner with
  | .registrar r => m.modifyWorld fun w => w.countAccess r property
  | .hook h =>
    let hook := m.world.hooks.get h
    let forwarded := (hook.forward.map fun r => Task.access (.registrar r) property).toList
    (m.tell (.accessed h hook.label property)).push (forwarded ++ [.fire hook.onAccess])

/-- Tells an owner that a property changes: a registrar counts the change after the invalidation, and a hook runs
its callbacks around it. -/
def mutate (m : Machine) (owner : Owner) (property : String) (i : Invalidation) : Machine :=
  match owner with
  | .registrar r => m.push [.invalidate i, .countMutation r property]
  | .hook h =>
    let hook := m.world.hooks.get h
    let inner := match hook.forward with
      | some r => [Task.mutate (.registrar r) property i]
      | none => List.replicate hook.calls (Task.invalidate i)
    (m.tell (.mutating h hook.label property)).push
      ([.fire hook.before] ++ inner ++ [.fire hook.after, .tell (.mutated h hook.label property)])

/-- Counts a change and calls the observers that it fires. -/
def countMutation (m : Machine) (r : Ref .registrar) (property : String) : Machine :=
  let fired := m.world.firedBy r property
  (m.modifyWorld fun w => w.countMutation r property).push (fired.map fun o => .react o.onChange)

/-- Calls a fired observer. -/
def react (m : Machine) (reaction : Reaction) : Machine :=
  (m.tell (.observerFired reaction.label)).push (Task.nested reaction.commands)

/-! ## Invalidations -/

/-- Runs an invalidation. -/
def invalidate (m : Machine) : Invalidation → Machine
  | .bridge b => m.modifyWorld fun w => w.invalidateBridge b
  | .client during => (m.tell .clientInvalidated).push (Task.nested during)

/-- What a bridge reports when its invalidation begins. -/
def relayReport (w : World) : Bridge → Happening
  | .key b => .keyChanged b (w.keyBridges.get b).key
  | .query q => .resultsInvalidated q (w.queryBridges.get q).entity

/-- Begins the invalidation of a bridge: inside its envelope, and through the owner of its property if that is
alive now.  The bridge and the owner stay alive until it is done. -/
def relay (m : Machine) (b : Bridge) : Machine :=
  let binding := m.liveBinding? b
  let r := m.world.relayOf b
  (m.tell (relayReport m.world b)).push
    [.enclose r.envelope r.presenter (.mutation binding b),
      .keep (b.object :: (binding.map fun x => x.owner.object).toList)]

/-- Runs something inside an envelope: shown by the given presenter, else by the one installed now, else by no
one. -/
def enclose (m : Machine) (envelope : Envelope) (presenter : Option (Ref .presenter)) (body : Body) : Machine :=
  match envelope with
  | .direct => m.push [.run body]
  | .scoped scope =>
    match presenter.or m.world.installedPresenter with
    | some p =>
      let shown := m.world.presenters.get p
      (m.tell (.opened p shown.label scope)).push
        ([.fire shown.before] ++ List.replicate shown.calls (.run body) ++
          [.fire shown.after, .tell (.closed p shown.label)])
    | none => (m.tell (.spanEntered scope)).push [.run body, .tell (.spanLeft scope)]

/-- Runs what is inside an envelope. -/
def runBody (m : Machine) : Body → Machine
  | .mutation (some binding) b => m.push [.mutate binding.owner binding.property (.bridge b)]
  | .mutation none b => m.push [.invalidate (.bridge b)]
  | .client commands => (m.tell .bodyRan).push (Task.nested commands)

/-! ## Clients' caches -/

/-- The answer of a read of a client's cache. -/
def cacheReply (outcome : Except Json Json) (mayFail : Bool) : Reply :=
  match outcome, mayFail with
  | .ok value, false => .json value
  | outcome, _ => .attempted outcome

/-- Reads a client's cache. -/
def readCache (m : Machine) (c : Ref .cache) (outcome : Except Json Json) (during : List Command)
    (mayFail : Bool) : Machine :=
  let cache := m.world.caches.get c
  match cache.value with
  | some value => (m.tell (.cacheHit (.client c))).answer (cacheReply (.ok value) mayFail)
  | none => ((m.tell (.cacheMissed (.client c))).tell (.fetching c)).push
      (Task.nested during ++ [.settleCache c cache.generation outcome mayFail])

/-- Ends the fetch of a client's cache. -/
def settleCache (m : Machine) (c : Ref .cache) (began : UInt64) (outcome : Except Json Json)
    (mayFail : Bool) : Machine :=
  let settled := match outcome with
    | .ok value => m.modifyWorld fun w =>
        { w with caches := w.caches.modify c fun cache => cache.settle began value }.noteSettled (.client c)
          ((w.caches.get c).generation = began)
    | .error _ => m
  settled.answer (cacheReply outcome mayFail)

/-! ## Key bridges -/

/-- Reads the cache of a key bridge; if it is empty, the store is read. -/
def readKey (m : Machine) (b : Ref .keyBridge) : Machine :=
  let k := m.world.keyBridges.get b
  match k.cache.value with
  | some value => (m.tell (.cacheHit (.bridge (.key b)))).answer (.value k.kind value)
  | none =>
    ((m.tell (.cacheMissed (.bridge (.key b)))).modifyWorld fun w => w.noteRead k.store k.key).push
      (readTasks m.world k.store ++ [.settleKey b k.cache.generation (m.world.storedValue k.store k.key)])

/-- Reports a stored value that a key bridge cannot decode. -/
def reportFault (m : Machine) (b : Ref .keyBridge) (stored : Option StoreValue) : Machine :=
  let k := m.world.keyBridges.get b
  match k.fault? stored with
  | some e => m.tell (.defaultUsed b k.key e)
  | none => m

/-- Ends the fetch of a key bridge: the value is the decoded one, or the default. -/
def settleKey (m : Machine) (b : Ref .keyBridge) (began : UInt64) (stored : Option StoreValue) : Machine :=
  let k := m.world.keyBridges.get b
  let settled := (m.reportFault b stored).modifyWorld fun w =>
    { w with keyBridges := w.keyBridges.set b (k.settle began stored) }.noteSettled
      (.bridge (.key b)) (k.cache.generation = began)
  settled.answer (.value k.kind (k.valueOf stored))

/-! ## Contexts and query bridges -/

/-- Passes on how a fetch of stored rows ended. -/
def conclude (m : Machine) (purpose : FetchFor) (outcome : Except BridgeError (List Record)) : Machine :=
  match purpose with
  | .bridge q began => m.push [.settleQuery q began outcome]
  | .client rowType descriptor =>
    match outcome.bind (descriptor.select rowType) with
    | .ok rows => m.answer (.page rows)
    | .error e => m.answer (.failed e)

/-- Asks a context for rows, which are taken before the callback of a supervised context runs. -/
def askRecords (m : Machine) (c : Ref .context) (entity : String) (purpose : FetchFor) : Machine :=
  let context := m.world.contexts.get c
  (m.tell (.recordsAsked c (context.supervision.map Supervision.label) entity)).push
    ((context.supervision.map fun s => Task.fire s.onFetch).toList ++
      [.receive c (context.memory.records entity) purpose, .keep [.context c]])

/-- Receives rows from a context; a supervised one fails instead as long as it was told to. -/
def receive (m : Machine) (c : Ref .context) (records : List Record) (purpose : FetchFor) : Machine :=
  (m.modifyWorld fun w => { w with contexts := w.contexts.modify c Context.afterFetch }).conclude purpose
    ((m.world.contexts.get c).outcome records)

/-- Reads the cache of a query bridge; if it is empty, the query is run against the bridge's context. -/
def readQuery (m : Machine) (q : Ref .queryBridge) : Machine :=
  let b := m.world.queryBridges.get q
  match b.cache.value with
  | some rows => (m.tell (.cacheHit (.bridge (.query q)))).answer (.rows rows)
  | none =>
    let next := match m.world.resolvedContext q with
      | some c => Task.askRecords c b.entity (.bridge q b.cache.generation)
      | none => Task.settleQuery q b.cache.generation (.error (.missingContext b.entity))
    (m.tell (.cacheMissed (.bridge (.query q)))).push [next]

/-- A query without a context reads as empty, which is reported once for every binding. -/
def missContext (m : Machine) (q : Ref .queryBridge) (e : BridgeError) : Machine :=
  let b := m.world.queryBridges.get q
  if b.warned then m
  else m.modifyWorld fun w =>
    { w with queryBridges := w.queryBridges.set q b.warn }.tell (.contextMissing q b.entity e)

/-- Ends the fetch of a query bridge: rows are stored and answered; a failure is reported and reads as empty. -/
def settleQuery (m : Machine) (q : Ref .queryBridge) (began : UInt64)
    (outcome : Except BridgeError (List Record)) : Machine :=
  let b := m.world.queryBridges.get q
  match b.rowsOf outcome with
  | .ok rows =>
    (m.modifyWorld fun w =>
      { w with queryBridges := w.queryBridges.set q (b.settle began rows) }.noteSettled
        (.bridge (.query q)) (b.cache.generation = began)).answer (.rows rows)
  | .error e =>
    let reported := match e with
      | .missingContext _ => m.missContext q e
      | _ => m.tell (.queryFailed q b.entity e)
    reported.answer (.rows [])

/-! ## Trackers -/

/-- The last token that a tracker can read out of what is stored; one that it cannot read counts as none. -/
def lastToken (m : Machine) (t : Ref .tracker) : Option StoreValue → Machine × Option HistoryToken
  | none => (m, none)
  | some stored =>
    match HistoryToken.decode stored with
    | .ok token => (m, some token)
    | .error e => (m.tell (.tokenUnreadable t (e.withKey (m.world.trackers.get t).key)), none)

/-- Asks a tracker's source for what came after the last token, or lately if there is none. -/
def askHistory (m : Machine) (t : Ref .tracker) (stored : Option StoreValue) : Machine :=
  let (told, token) := m.lastToken t stored
  let tr := m.world.trackers.get t
  let cursor := token.elim HistoryCursor.recent HistoryCursor.after
  (told.tell (.historyAsked t tr.label cursor)).push [.fire tr.onCall, .takeBatch t]

/-- What stores a token under a tracker's key. -/
def storeToken (tr : Tracker) (t : Ref .tracker) (token : HistoryToken) : Task :=
  match token.encode with
  | .ok encoded => .write tr.store tr.key encoded
  | .error e => .tell (.tokenNotStored t e)

/-- Takes the answer of a tracker's source: the newest token is stored before anything is announced. -/
def takeBatch (m : Machine) (t : Ref .tracker) : Machine :=
  let tr := m.world.trackers.get t
  let taken := (m.modifyWorld fun w => { w with trackers := w.trackers.set t tr.dropBatch }).tell
    (.historyAnswered t tr.batch)
  match tr.batch with
  | .error e => (taken.tell (.historyFailed t e)).answer (.failed (.history e.message))
  | .ok transactions =>
    taken.push ((transactions.getLast?.map fun newest => storeToken tr t newest.token).toList ++
      [.announceRemote t transactions.length (touchedEntities transactions)])

/-- Announces what remote transactions touched, if they touched anything. -/
def announceRemote (m : Machine) (t : Ref .tracker) (transactions : Nat) (entities : EntitySet) : Machine :=
  if entities.isEmpty then m.answer (.texts [])
  else
    ((m.tell (.remoteAnnounced t transactions entities.length)).push [.answer (.texts entities)]).announce
      (m.world.trackers.get t).changes (.change (.remote entities))

/-- Answers the last token of a tracker. -/
def answerToken (m : Machine) (t : Ref .tracker) (stored : Option StoreValue) : Machine :=
  let (told, token) := m.lastToken t stored
  told.answer (.token token)

/-! ## Running -/

/-- Does one task. -/
def doTask (m : Machine) : Task → Machine
  | .perform c nested => m.perform c nested
  | .finish label held nested => m.finish label held nested
  | .keep _ => m
  | .answer r => m.answer r
  | .tell h => m.tell h
  | .fire plan => m.fire plan
  | .deliver [] _ => m
  | .deliver (l :: rest) event => (m.push [.deliver rest event]).call l event
  | .write s key value => m.write s key value
  | .access owner property => m.access owner property
  | .mutate owner property i => m.mutate owner property i
  | .countMutation r property => m.countMutation r property
  | .react reaction => m.react reaction
  | .invalidate i => m.invalidate i
  | .relay b => m.relay b
  | .enclose envelope presenter body => m.enclose envelope presenter body
  | .run body => m.runBody body
  | .leaveScope r reaction => m.modifyWorld fun w => w.leaveScope r reaction
  | .readCache c outcome during mayFail => m.readCache c outcome during mayFail
  | .settleCache c began outcome mayFail => m.settleCache c began outcome mayFail
  | .readKey b => m.readKey b
  | .settleKey b began stored => m.settleKey b began stored
  | .readQuery q => m.readQuery q
  | .askRecords c entity purpose => m.askRecords c entity purpose
  | .receive c records purpose => m.receive c records purpose
  | .settleQuery q began outcome => m.settleQuery q began outcome
  | .askHistory t stored => m.askHistory t stored
  | .takeBatch t => m.takeBatch t
  | .announceRemote t transactions entities => m.announceRemote t transactions entities
  | .answerToken t stored => m.answerToken t stored

/-- Takes the first task and does it. -/
def step (m : Machine) : Machine :=
  match m.todo with
  | [] => m
  | task :: rest => { m with todo := rest }.doTask task

/-- Takes at most a number of steps, until nothing is left to do. -/
def run : Nat → Machine → Machine
  | 0, m => m
  | n + 1, m => if m.todo.isEmpty then m else run n m.step

/-- A machine in which nothing has happened. -/
def initial : Machine :=
  ⟨.initial, [], .nothing⟩

/-- Carries out a client's command, within a number of steps. -/
def execute (m : Machine) (steps : Nat) (c : Command) : Machine :=
  run steps { m with todo := .perform c false :: m.todo }

/-- The machine of a list of commands that a client will give one after another. -/
def ofCommands (commands : List Command) : Machine :=
  ⟨.initial, commands.map fun c => .perform c false, .nothing⟩

end Machine

end LiveProperty
