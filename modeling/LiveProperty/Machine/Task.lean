import LiveProperty.Machine.World

/-!
# Tasks

A running world is a world with a list of tasks: what is left of the commands and callbacks that have begun,
innermost first.  A task does one thing to the world and may put further tasks in front of the rest, so that a
callback is carried out before what comes after it, to any depth.  Two tasks do nothing when their turn comes but
mark, while they wait, what the command or call that ends with them keeps alive: `finish` and `keep`.
-/

namespace LiveProperty

/-- What clears a cache, or stands in for that: the invalidation of a bridge, or a client's. -/
inductive Invalidation where
  | bridge (b : Bridge)
  | client (during : List Command)

/-- What runs inside an envelope: the invalidation of a bridge, with the binding if its owner was alive when it
began, or a client's commands. -/
inductive Body where
  | mutation (binding : Option Binding) (b : Bridge)
  | client (commands : List Command)

/-- For whom stored rows are fetched: for a query bridge, in the generation of its cache in which the fetch
began, or for a client. -/
inductive FetchFor where
  | bridge (q : Ref .queryBridge) (began : UInt64)
  | client (rowType : RowType) (descriptor : FetchDescriptor Json)

/-- One thing that is left to do. -/
inductive Task where
  /-- Carry out a command; `nested` ones are reported when they are finished. -/
  | perform (c : Command) (nested : Bool)
  /-- A command is finished, and lets go of the objects it held. -/
  | finish (label : Json) (held : List Object) (nested : Bool)
  /-- A call is finished, and no longer keeps objects alive. -/
  | keep (objects : List Object)
  /-- Set the answer. -/
  | answer (r : Reply)
  /-- Note a happening. -/
  | tell (h : Happening)
  /-- Call a callback. -/
  | fire (plan : Ref .plan)
  /-- Call the remaining listeners of an announcement. -/
  | deliver (audience : List Listener) (event : Event)
  /-- Write to a store and announce the key. -/
  | write (store : Ref .store) (key : String) (value : Option StoreValue)
  /-- Tell an owner that a property is about to be read. -/
  | access (owner : Owner) (property : String)
  /-- Tell an owner that a property changes, and let it run the invalidation. -/
  | mutate (owner : Owner) (property : String) (invalidation : Invalidation)
  /-- Count a change whose invalidation has run, and fire observers. -/
  | countMutation (registrar : Ref .registrar) (property : String)
  /-- Call a fired observer. -/
  | react (reaction : Reaction)
  /-- Run an invalidation. -/
  | invalidate (invalidation : Invalidation)
  /-- Begin the invalidation of a bridge. -/
  | relay (b : Bridge)
  /-- Run something inside an envelope. -/
  | enclose (envelope : Envelope) (presenter : Option (Ref .presenter)) (body : Body)
  /-- Run what is inside an envelope. -/
  | run (body : Body)
  /-- Close the innermost tracking scope. -/
  | leaveScope (registrar : Ref .registrar) (reaction : Reaction)
  /-- Read a client's cache; a fetch that may fail answers how it ended. -/
  | readCache (cache : Ref .cache) (outcome : Except Json Json) (during : List Command) (mayFail : Bool)
  /-- End the fetch of a client's cache. -/
  | settleCache (cache : Ref .cache) (began : UInt64) (outcome : Except Json Json) (mayFail : Bool)
  /-- Read the cache of a key bridge. -/
  | readKey (bridge : Ref .keyBridge)
  /-- End the fetch of a key bridge. -/
  | settleKey (bridge : Ref .keyBridge) (began : UInt64) (stored : Option StoreValue)
  /-- Read the cache of a query bridge. -/
  | readQuery (bridge : Ref .queryBridge)
  /-- Ask a context for rows. -/
  | askRecords (context : Ref .context) (entity : String) (purpose : FetchFor)
  /-- Receive rows from a context, or the failure it was told to answer. -/
  | receive (context : Ref .context) (records : List Record) (purpose : FetchFor)
  /-- End the fetch of a query bridge. -/
  | settleQuery (bridge : Ref .queryBridge) (began : UInt64) (outcome : Except BridgeError (List Record))
  /-- Ask a tracker's source, given what is stored as the last token. -/
  | askHistory (tracker : Ref .tracker) (stored : Option StoreValue)
  /-- Take the answer of a tracker's source. -/
  | takeBatch (tracker : Ref .tracker)
  /-- Announce what remote transactions touched. -/
  | announceRemote (tracker : Ref .tracker) (transactions : Nat) (entities : EntitySet)
  /-- Answer the last token of a tracker. -/
  | answerToken (tracker : Ref .tracker) (stored : Option StoreValue)

namespace Task

/-- The objects that a command holds until it is finished. -/
def held : Task → List Object
  | .finish _ objects _ => objects
  | _ => []

/-- The objects that a call keeps alive until it is finished. -/
def kept : Task → List Object
  | .keep objects => objects
  | _ => []

/-- The commands of a callback, to be reported as they are finished. -/
def nested (commands : List Command) : List Task :=
  commands.map fun c => .perform c true

end Task

/-- A running world: what is left to do, innermost first, and what the latest command answered. -/
structure Machine where
  world : World
  todo : List Task
  reply : Reply

/-!
## Liveness

An object is alive while something refers to it that keeps it alive: a name, a shared slot, a command that looked
it up, a call that runs on it, or another living object.
-/

namespace Machine

/-- Whether a client has a handle on an object: by name, or in a command that is being carried out. -/
def isHeld (m : Machine) (o : Object) : Bool :=
  m.world.isNamed o || m.todo.any fun t => t.held.contains o

/-- Whether a client or a running call keeps an object alive. -/
def isRooted (m : Machine) (o : Object) : Bool :=
  m.isHeld o || m.todo.any fun t => t.kept.contains o

/-- Whether a living query bridge has a context as its own. -/
def isOwnContext (m : Machine) (c : Ref .context) : Bool :=
  m.world.queryBridges.refs.any fun q =>
    (m.world.queryBridges.get q).context = some c && m.isRooted (.queryBridge q)

/-- Whether a living hook passes on to a registrar. -/
def isForwardedTo (m : Machine) (r : Ref .registrar) : Bool :=
  m.world.hooks.refs.any fun h => (m.world.hooks.get h).forward = some r && m.isRooted (.hook h)

/-- Whether an object is alive. -/
def isAlive (m : Machine) : Object → Bool
  | .context c => m.isRooted (.context c) || m.world.defaultContext = some c || m.isOwnContext c
  | .registrar r => m.isRooted (.registrar r) || m.isForwardedTo r
  | o => m.isRooted o

/-- The binding of a bridge, if its owner is alive. -/
def liveBinding? (m : Machine) (b : Bridge) : Option Binding :=
  (m.world.relayOf b).binding.filter fun binding => m.isAlive binding.owner.object

/-- Who a context is to a client. -/
def contextName (m : Machine) (c : Ref .context) : ContextName :=
  match m.world.nameOf? (.context c) with
  | some name => .named name
  | none => .unnamed

/-- A change as it looks now. -/
def view (m : Machine) (c : ContextChange) : ChangeView :=
  ⟨c, (c.origin?.filter fun origin => m.isAlive (.context origin)).map m.contextName⟩

/-- An event as it looks now. -/
def viewEvent (m : Machine) : Event → EventView
  | .key k => .key k
  | .value j => .value j
  | .change c => .change (m.view c)

/-- Lets go of an object unless a client still has a handle on it. -/
def release (m : Machine) (o : Object) : Machine :=
  if m.isHeld o then m else { m with world := m.world.letGo o }

/-- Lets go of what a name stood for. -/
def releaseNamed (m : Machine) : Option Named → Machine
  | some (.object o) => m.release o
  | _ => m

end Machine

end LiveProperty
