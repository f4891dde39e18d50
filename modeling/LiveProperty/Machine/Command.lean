import LiveProperty.Machine.Reply
import LiveProperty.Query.Row

/-!
# Commands

What a client can ask of a world.  A client names objects by names of its own.  Where it hands over a callback it
hands over a schedule: the commands that the callback carries out on its successive calls.  Since these may be
any commands, a callback may do to the world whatever a client may.
-/

namespace LiveProperty

/-- Where a client listens, or counts listeners. -/
inductive Source where
  /-- The announcements of one key of a store. -/
  | storeKey (store key : String)
  /-- All announcements of a store. -/
  | store (store : String)
  /-- A client's notifier. -/
  | notifier (name : String)
  /-- A named bus, or the one that all share. -/
  | bus (name : Option String)

/-- A change that a client speaks of: one that it spells out, or one that it has named. -/
inductive ChangeArgument where
  | inline (c : ContextChange)
  | named (name : String)

/-- What a name has to stand for. -/
inductive NameSort where
  | cache
  | notifier
  | bus
  | subscription
  | store
  | keyBridge
  | registrar
  | hook
  | owner
  | binding
  | presenter
  | change
  | context
  | row
  | queryBridge
  | tracker
  | anything
  deriving DecidableEq, Repr

/-- A name that a command needs, and what it has to stand for. -/
structure Need where
  name : String
  sort : NameSort

/-- A part of the description of a query bridge; parts count in order. -/
inductive QueryPart where
  | descriptor (d : FetchDescriptor Json)
  | filter (test : Json → Bool)
  | sort (criterion : SortCriterion Json)
  | limit (n : Nat)
  | offset (n : Nat)
  | context (name : String)
  | transaction (t : Transaction)
  | animation (a : Animation)
  | presenter (name : String)
  | changes (bus : Option String)

/-- How a context is set up. -/
inductive ContextSort where
  /-- Announces its saves on a bus. -/
  | plain
  /-- Announces its saves on a bus, and names itself as their origin. -/
  | shared
  /-- Announces its saves on the bus that all share, whichever bus it is given. -/
  | global
  deriving DecidableEq, Repr

mutual

/-- A command with the label under which it is reported: whatever its client calls it, or null. -/
inductive Command where
  | mk (label : Json) (action : Action)

/-- What a command does. -/
inductive Action where
  /-- Answers something and does nothing else. -/
  | answer (r : Reply)
  /-- A command that could not be understood, but does need some names. -/
  | malformed (needs : List Need)
  /-- A command that is not known. -/
  | unknown
  /-- Takes a name away. -/
  | drop (name : String)
  /-- Answers the names in use. -/
  | names
  /-- Describes what a name stands for. -/
  | describe (name : String)
  /-- Takes a name away and gives up the subscription it stands for. -/
  | cancel (name : String)
  /-- A command on caches or notifiers. -/
  | notice (a : NoticeAction)
  /-- A command on stores or key bridges. -/
  | store (a : StoreAction)
  /-- A command on registrars, hooks, envelopes or presenters. -/
  | observation (a : ObservationAction)
  /-- A command on buses, changes or contexts. -/
  | context (a : ContextAction)
  /-- A command on query bridges or trackers. -/
  | query (a : QueryAction)

/-- Commands on caches and notifiers. -/
inductive NoticeAction where
  /-- Makes a cache. -/
  | newCache (name : String)
  /-- Reads a cache; if it is empty, the fetch carries out commands and returns a value. -/
  | readCache (cache : String) (value : Json) (during : List Command)
  /-- Reads a cache with a fetch that may fail. -/
  | tryCache (cache : String) (outcome : Except Json Json) (during : List Command)
  /-- Invalidates a cache. -/
  | invalidateCache (cache : String)
  /-- Answers what a cache holds, without reading it. -/
  | cacheState (cache : String)
  /-- Makes a notifier. -/
  | newNotifier (name : String)
  /-- Announces a value on a notifier. -/
  | announce (notifier : String) (event : Json)
  /-- Detaches the listener of a subscription by its number. -/
  | unsubscribe (notifier subscription : String)
  /-- Attaches a listener that runs a schedule. -/
  | subscribe (name : String) (source : Source) (script : List (Nat × List Command))
  /-- Takes a subscriber number without subscribing. -/
  | freshSubscriber
  /-- Answers how many listeners are attached. -/
  | countListeners (source : Source)

/-- Commands on stores and key bridges. -/
inductive StoreAction where
  /-- Makes a store, whose reads run a schedule. -/
  | newStore (name : String) (suite : Option String) (onRead : List (Nat × List Command))
  /-- Writes a value, or clears the key. -/
  | writeStore (store key : String) (value : Option StoreValue)
  /-- Looks into a store without that counting as a read. -/
  | peekStore (store key : String)
  /-- Answers the size and suite of a store, and whether it has a key. -/
  | storeInfo (store : String) (key : Option String)
  /-- Makes a store the default one. -/
  | setDefaultStore (store : String)
  /-- Makes a new standard store the default one. -/
  | resetDefaultStore
  /-- Reads a key of the default store. -/
  | readDefaultStore (key : String)
  /-- Writes a key of the default store, or clears it. -/
  | writeDefaultStore (key : String) (value : Option StoreValue)
  /-- Answers how many listeners the default store has. -/
  | countDefaultStoreListeners
  /-- Makes a key bridge: over a named store, with an envelope and a presenter of its own, or over the default
  store, where its invalidations always run directly. -/
  | newKeyBridge (name key : String) (kind : Storable) (initial : kind.Value) (store : Option String)
      (envelope : Envelope) (presenter : Option String)
  /-- Reads the property of a key bridge. -/
  | getKey (bridge : String)
  /-- Writes a value through a key bridge, or clears the key; the value is spelled in a way that is understood at
  the kind of the bridge, or not at all. -/
  | setKey (bridge : String) (value : Option ((kind : Storable) → Option kind.Value))
  /-- Answers how a key bridge was set up, and whether it has a cached value. -/
  | keyBridgeInfo (bridge : String)
  /-- Binds a key bridge to a property of an owner. -/
  | observeKey (bridge owner property : String)

/-- Commands on registrars, hooks, envelopes and presenters. -/
inductive ObservationAction where
  /-- Makes a registrar. -/
  | newRegistrar (name : String)
  /-- Reads a property. -/
  | access (registrar property : String)
  /-- Changes a property; the invalidation carries out commands. -/
  | mutate (registrar property : String) (during : List Command)
  /-- Carries out commands in a tracking scope, and others when something that was read changes. -/
  | observe (registrar label : String) (apply onChange : List Command)
  /-- Answers how often a property was read and changed, and how many observers wait. -/
  | registrarInfo (registrar property : String)
  /-- Makes a hook. -/
  | newHook (name : String) (onAccess before after : List (Nat × List Command)) (calls : Nat)
      (registrar : Option String)
  /-- Makes a binding to a property of an owner. -/
  | newBinding (name owner property : String)
  /-- Answers the property of a binding, and whether its owner is alive. -/
  | bindingInfo (binding : String)
  /-- Carries out commands within an envelope. -/
  | runEnvelope (envelope : Envelope) (presenter : Option String) (body : List Command)
  /-- Makes a presenter. -/
  | newPresenter (name : String) (before after : List (Nat × List Command)) (calls : Nat)
  /-- Installs a presenter for all who have none of their own. -/
  | installPresenter (presenter : String)
  /-- Takes the installed presenter away. -/
  | uninstallPresenter
  /-- Answers whether a presenter is installed. -/
  | presenterInstalled

/-- Commands on buses, changes and contexts. -/
inductive ContextAction where
  /-- Makes a bus. -/
  | newBus (name : String)
  /-- Announces a change on a bus. -/
  | announceChange (bus : Option String) (change : ChangeArgument)
  /-- Makes a change, with a context as its origin if one is named. -/
  | newChange (name : String) (change : ChangeArgument) (origin : Option String)
  /-- Answers what a change announces. -/
  | changeInfo (change : ChangeArgument)
  /-- Answers whether rows of an entity may have changed. -/
  | changeAffects (change : ChangeArgument) (entity : String)
  /-- Answers whether two changes are the same, and of the same origin. -/
  | changeSame (change : ChangeArgument) (other : String)
  /-- Makes a context. -/
  | newContext (name : String) (sort : ContextSort) (bus : Option String)
  /-- Makes a context whose fetches are supervised. -/
  | newSupervisedContext (name : String) (bus : Option String) (onFetch : List (Nat × List Command))
      (failures : Nat) (error : BridgeError)
  /-- Inserts a row, and names its number if a name is given. -/
  | insertRow (context : String) (rowType : RowType) (content : Json) (name : Option String)
  /-- Replaces a row. -/
  | updateRow (context : String) (rowType : RowType) (row : String) (content : Json)
  /-- Deletes a row. -/
  | deleteRow (context : String) (rowType : RowType) (row : String)
  /-- Answers a row, if it was written at the row type. -/
  | getRow (context : String) (rowType : RowType) (row : String)
  /-- Announces the unsaved changes. -/
  | saveContext (context : String)
  /-- Answers how many rows an entity has, whether changes are unsaved, and how many listeners the bus has. -/
  | contextInfo (context : String) (rowType : RowType)
  /-- Runs a query against a context. -/
  | fetchRows (context : String) (rowType : RowType) (descriptor : FetchDescriptor Json)
  /-- Makes a context the default one. -/
  | setDefaultContext (context : String)
  /-- Leaves no context as the default one. -/
  | clearDefaultContext
  /-- Answers which context is the default one. -/
  | defaultContext

/-- Commands on query bridges and trackers. -/
inductive QueryAction where
  /-- Makes a query bridge. -/
  | newQueryBridge (name : String) (rowType : RowType) (parts : List QueryPart)
  /-- Reads the property of a query bridge. -/
  | results (bridge : String)
  /-- Answers how a query bridge was set up, and whether it has cached rows. -/
  | queryBridgeInfo (bridge : String)
  /-- Invalidates the results of a query bridge. -/
  | refresh (bridge : String)
  /-- Binds a query bridge to a context. -/
  | bindContext (bridge context : String)
  /-- Binds a query bridge to a property of an owner. -/
  | observeQuery (bridge owner property : String)
  /-- Makes a tracker with the batches that its source will answer. -/
  | newTracker (name store : String) (batches : List HistoryBatch) (key : String) (bus : Option String)
      (onCall : List (Nat × List Command))
  /-- Adds a batch to those that the source of a tracker will answer. -/
  | pushBatch (tracker : String) (batch : HistoryBatch)
  /-- Asks for remote transactions, and announces what they touched. -/
  | remoteChange (tracker : String)
  /-- Answers the last stored token. -/
  | lastToken (tracker : String)
  /-- Answers the key that a tracker stores its token under. -/
  | tokenKey (tracker : String)

end

instance : Inhabited Action := ⟨.unknown⟩

instance : Inhabited Command := ⟨.mk .null .unknown⟩

/-- What a callback does on its successive calls: each list of commands as many times as is said, and then
nothing. -/
abbrev Schedule := List (Nat × List Command)

namespace Command

/-- The label of a command. -/
def label : Command → Json
  | .mk label _ => label

/-- What a command does. -/
def action : Command → Action
  | .mk _ action => action

end Command

namespace Schedule

/-- The commands of the next call. -/
def current : Schedule → List Command
  | [] => []
  | (0, _) :: rest => current rest
  | (_ + 1, commands) :: _ => commands

/-- What is left of a schedule after a call. -/
def next : Schedule → Schedule
  | [] => []
  | (0, _) :: rest => next rest
  | (n + 1, commands) :: rest => (n, commands) :: rest

end Schedule

/-- A callback's schedule, which calls use up. -/
structure Plan where
  schedule : Schedule

instance : Inhabited Plan := ⟨⟨[]⟩⟩

/-- What an observer does when it is fired. -/
structure Reaction where
  label : String
  commands : List Command

end LiveProperty
