import LiveProperty.Machine.Command
import LiveProperty.Machine.Journal

/-!
# Worlds

A world holds all objects, the names that a client gave them, and what all of them share: the default store, the
default context, the installed presenter, the shared bus, the open tracking scopes and the journal.  The
operations here are those that run no callback.
-/

namespace LiveProperty

/-- A world.  The journal has the latest happening first. -/
structure World where
  names : Dictionary Named
  caches : Pool .cache (Cache Json)
  notifiers : Pool .notifier Notifier
  stores : Pool .store Store
  registrars : Pool .registrar (Registrar Reaction)
  hooks : Pool .hook Hook
  presenters : Pool .presenter Presenter
  contexts : Pool .context Context
  keyBridges : Pool .keyBridge KeyBridge
  queryBridges : Pool .queryBridge QueryBridge
  trackers : Pool .tracker Tracker
  plans : Pool .plan Plan
  subscriptions : Nat
  scopes : ScopeStack
  sharedBus : Ref .notifier
  defaultStore : Ref .store
  defaultContext : Option (Ref .context)
  installedPresenter : Option (Ref .presenter)
  journal : List Happening

namespace World

/-- Notes a happening. -/
def tell (w : World) (h : Happening) : World :=
  { w with journal := h :: w.journal }

/-! ## Names -/

/-- The object or value that a name stands for. -/
def lookup? (w : World) (name : String) : Option Named :=
  w.names.find? name

/-- Lets a name stand for something. -/
def bindName (w : World) (name : String) (n : Named) : World :=
  { w with names := w.names.put name n }

/-- Takes a name away. -/
def unbindName (w : World) (name : String) : World :=
  { w with names := w.names.erase name }

/-- Whether some name stands for an object. -/
def isNamed (w : World) (o : Object) : Bool :=
  w.names.any fun entry => entry.2 = .object o

/-- A name of an object. -/
def nameOf? (w : World) (o : Object) : Option String :=
  (List.find? (fun entry => entry.2 = Named.object o) w.names).map Prod.fst

/-- The cache with a name. -/
def cache? (w : World) (name : String) : Option (Ref .cache) :=
  match w.lookup? name with
  | some (.object (.cache r)) => some r
  | _ => none

/-- The client's notifier with a name. -/
def notifier? (w : World) (name : String) : Option (Ref .notifier) :=
  match w.lookup? name with
  | some (.object (.notifier r)) => some r
  | _ => none

/-- The bus with a name, or the shared one. -/
def bus? (w : World) : Option String → Option (Ref .notifier)
  | none => some w.sharedBus
  | some name =>
    match w.lookup? name with
    | some (.object (.bus r)) => some r
    | _ => none

/-- The subscription with a name. -/
def subscription? (w : World) (name : String) : Option Subscription :=
  match w.lookup? name with
  | some (.object (.subscription s)) => some s
  | _ => none

/-- The store with a name. -/
def store? (w : World) (name : String) : Option (Ref .store) :=
  match w.lookup? name with
  | some (.object (.store r)) => some r
  | _ => none

/-- The key bridge with a name. -/
def keyBridge? (w : World) (name : String) : Option (Ref .keyBridge) :=
  match w.lookup? name with
  | some (.object (.keyBridge r)) => some r
  | _ => none

/-- The registrar with a name. -/
def registrar? (w : World) (name : String) : Option (Ref .registrar) :=
  match w.lookup? name with
  | some (.object (.registrar r)) => some r
  | _ => none

/-- The registrar or hook with a name. -/
def owner? (w : World) (name : String) : Option Owner :=
  match w.lookup? name with
  | some (.object (.registrar r)) => some (.registrar r)
  | some (.object (.hook r)) => some (.hook r)
  | _ => none

/-- The binding with a name. -/
def binding? (w : World) (name : String) : Option Binding :=
  match w.lookup? name with
  | some (.binding b) => some b
  | _ => none

/-- The presenter with a name. -/
def presenter? (w : World) (name : String) : Option (Ref .presenter) :=
  match w.lookup? name with
  | some (.object (.presenter r)) => some r
  | _ => none

/-- The change with a name. -/
def namedChange? (w : World) (name : String) : Option ContextChange :=
  match w.lookup? name with
  | some (.change c) => some c
  | _ => none

/-- The change that a client speaks of. -/
def change? (w : World) : ChangeArgument → Option ContextChange
  | .inline c => some c
  | .named name => w.namedChange? name

/-- The context with a name. -/
def context? (w : World) (name : String) : Option (Ref .context) :=
  match w.lookup? name with
  | some (.object (.context r)) => some r
  | _ => none

/-- The row number with a name. -/
def row? (w : World) (name : String) : Option RowId :=
  match w.lookup? name with
  | some (.row id) => some id
  | _ => none

/-- The query bridge with a name. -/
def queryBridge? (w : World) (name : String) : Option (Ref .queryBridge) :=
  match w.lookup? name with
  | some (.object (.queryBridge r)) => some r
  | _ => none

/-- The tracker with a name. -/
def tracker? (w : World) (name : String) : Option (Ref .tracker) :=
  match w.lookup? name with
  | some (.object (.tracker r)) => some r
  | _ => none

/-- Whether a needed name stands for what it has to. -/
def meets (w : World) (need : Need) : Bool :=
  match need.sort with
  | .cache => (w.cache? need.name).isSome
  | .notifier => (w.notifier? need.name).isSome
  | .bus => (w.bus? (some need.name)).isSome
  | .subscription => (w.subscription? need.name).isSome
  | .store => (w.store? need.name).isSome
  | .keyBridge => (w.keyBridge? need.name).isSome
  | .registrar => (w.registrar? need.name).isSome
  | .hook =>
    match w.owner? need.name with
    | some (.hook _) => true
    | _ => false
  | .owner => (w.owner? need.name).isSome
  | .binding => (w.binding? need.name).isSome
  | .presenter => (w.presenter? need.name).isSome
  | .change => (w.namedChange? need.name).isSome
  | .context => (w.context? need.name).isSome
  | .row => (w.row? need.name).isSome
  | .queryBridge => (w.queryBridge? need.name).isSome
  | .tracker => (w.tracker? need.name).isSome
  | .anything => (w.lookup? need.name).isSome

/-! ## Notifiers and subscriptions -/

/-- The number that the next subscription gets. -/
def freshSubscriber (w : World) : SubscriberId :=
  ⟨.ofNat w.subscriptions⟩

/-- The subscription that `subscribe` makes. -/
def freshSubscription (w : World) (source : Ref .notifier) : Subscription :=
  ⟨w.freshSubscriber, source⟩

/-- Attaches a listener under the next number. -/
def subscribe (w : World) (source : Ref .notifier) (l : Listener) : World :=
  { w with
      notifiers := w.notifiers.modify source fun n => n.attach w.freshSubscriber l
      subscriptions := w.subscriptions + 1 }.tell (.subscribed source w.freshSubscriber)

/-- Detaches the listener with a number from a notifier. -/
def detach (w : World) (source : Ref .notifier) (id : SubscriberId) : World :=
  { w with notifiers := w.notifiers.modify source fun n => n.detach id }.tell (.detached source id)

/-- Whom an announcement that starts now will call. -/
def audience (w : World) (source : Ref .notifier) : List Listener :=
  (w.notifiers.get source).audience

/-- The subscription that is given up when an object goes. -/
def subscriptionOf? (w : World) : Object → Option Subscription
  | .subscription s => some s
  | .keyBridge r => some (w.keyBridges.get r).subscription
  | .queryBridge r => some (w.queryBridges.get r).subscription
  | _ => none

/-- Lets an object go: what it subscribed to no longer calls it. -/
def letGo (w : World) (o : Object) : World :=
  match w.subscriptionOf? o with
  | some s => w.detach s.source s.id
  | none => w

/-! ## Making objects -/

/-- Adds a plan. -/
def addPlan (w : World) (schedule : Schedule) : World :=
  { w with plans := w.plans.add ⟨schedule⟩ }

/-- Adds a notifier without listeners. -/
def addNotifier (w : World) : World :=
  { w with notifiers := w.notifiers.add {} }

/-- Adds an empty store with a notifier of its own. -/
def addStore (w : World) (label suite : Option String) (onRead : Option (Ref .plan)) : World :=
  let changes := w.notifiers.fresh
  { w.addNotifier with stores := w.stores.add ⟨label, suite, [], changes, onRead⟩ }

/-- A world in which nothing has happened: it has the shared bus and an empty standard store. -/
def initial : World :=
  let empty : World :=
    { names := [], caches := {}, notifiers := {}, stores := {}, registrars := {}, hooks := {}, presenters := {},
      contexts := {}, keyBridges := {}, queryBridges := {}, trackers := {}, plans := {}, subscriptions := 0,
      scopes := [], sharedBus := ⟨0⟩, defaultStore := ⟨0⟩, defaultContext := none, installedPresenter := none,
      journal := [] }
  empty.addNotifier.addStore none (some standardSuite) none

/-! ## Stores -/

/-- The value that a store holds under a key. -/
def storedValue (w : World) (s : Ref .store) (key : String) : Option StoreValue :=
  (w.stores.get s).find? key

/-- Writes a value under a key of a store, or clears the key, without announcing it. -/
def writeValue (w : World) (s : Ref .store) (key : String) (value : Option StoreValue) : World :=
  { w with stores := w.stores.modify s fun store => store.write key value }.tell
    (.storeWritten s (w.stores.get s).suite key value.isNone)

/-- Notes that a store is read. -/
def noteRead (w : World) (s : Ref .store) (key : String) : World :=
  w.tell (.storeRead s (w.stores.get s).label key)

/-! ## Bridges -/

/-- How a bridge passes on reads and changes. -/
def relayOf (w : World) : Bridge → Relay
  | .key r => (w.keyBridges.get r).relay
  | .query r => (w.queryBridges.get r).relay

/-- Invalidates the cache of a bridge. -/
def invalidateBridge (w : World) : Bridge → World
  | .key r => { w with keyBridges := w.keyBridges.modify r KeyBridge.invalidate }.tell
      (.cacheInvalidated (.bridge (.key r)))
  | .query r => { w with queryBridges := w.queryBridges.modify r QueryBridge.invalidate }.tell
      (.cacheInvalidated (.bridge (.query r)))

/-- The context that a query bridge asks now: its own, else the default one. -/
def resolvedContext (w : World) (q : Ref .queryBridge) : Option (Ref .context) :=
  (w.queryBridges.get q).context.or w.defaultContext

/-- Gives a query bridge a context of its own if it has none. -/
def adopt (w : World) (q : Ref .queryBridge) (c : Ref .context) : World :=
  if (w.queryBridges.get q).context.isNone then
    { w with queryBridges := w.queryBridges.modify q fun b => b.adopt c }.tell
      (.contextAdopted q (w.queryBridges.get q).entity c)
  else w

/-- Binds a query bridge to a context. -/
def bindContext (w : World) (q : Ref .queryBridge) (c : Ref .context) : World :=
  { w with queryBridges := w.queryBridges.modify q fun b => b.bindContext c }.tell (.contextBound q c)

/-- Notes how a fetch ended in a cache whose generation is still the one in which it began, or not. -/
def noteSettled (w : World) (holder : CacheHolder) (stored : Bool) : World :=
  w.tell (if stored then .cacheFilled holder else .cacheDiscarded holder)

/-! ## Contexts -/

/-- Changes the rows of a context. -/
def modifyMemory (w : World) (c : Ref .context) (f : MemoryContext → MemoryContext) : World :=
  { w with contexts := w.contexts.modify c fun context => { context with memory := f context.memory } }

/-- The rows of a context. -/
def memory (w : World) (c : Ref .context) : MemoryContext :=
  (w.contexts.get c).memory

/-- What a save of a context announces. -/
def saveEvent (w : World) (c : Ref .context) : ContextChange :=
  (w.contexts.get c).saveEvent c

/-! ## Registrars -/

/-- Counts a read, in the registrar and in its open scopes. -/
def countAccess (w : World) (r : Ref .registrar) (property : String) : World :=
  { w with
      registrars := w.registrars.modify r fun registrar => registrar.countAccess property
      scopes := w.scopes.record r property }.tell (.accessCounted r property)

/-- The observers that a change fires. -/
def firedBy (w : World) (r : Ref .registrar) (property : String) : List (Observer Reaction) :=
  (w.registrars.get r).firedBy property

/-- Counts a change and takes out the observers that it fires. -/
def countMutation (w : World) (r : Ref .registrar) (property : String) : World :=
  { w with registrars := w.registrars.modify r fun registrar =>
      (registrar.countMutation property).takeFired property }.tell
    (.mutationCounted r property (w.firedBy r property).length)

/-- Opens a tracking scope. -/
def enterScope (w : World) (r : Ref .registrar) : World :=
  { w with scopes := w.scopes.enter r }

/-- Closes the innermost tracking scope, and registers an observer of what was read in it. -/
def leaveScope (w : World) (r : Ref .registrar) (reaction : Reaction) : World :=
  let read := w.scopes.collected
  let closed := { w with
    scopes := w.scopes.leave
    registrars := w.registrars.modify r fun registrar => registrar.await ⟨read, reaction⟩ }
  if read.isEmpty then closed else closed.tell (.observerRegistered r reaction.label read)

end World

end LiveProperty
