import LiveProperty.BridgeError
import LiveProperty.Query.Descriptor
import LiveProperty.Query.Memory

/-!
# Persistence contexts

A context hands out the stored rows of an entity, and a save announces its unsaved changes on a bus.  Since several
row types may share an entity, a fetch at one row type fails if it meets a row of another.
-/

namespace LiveProperty

/-- A client's supervision of the fetches from a context: they are reported under a label, run a plan, and then
fail as many times as `failures` says. -/
structure Supervision where
  label : String
  onFetch : Ref .plan
  failures : Nat
  error : BridgeError

/-- A persistence context and the bus that it announces its saves on.  Some contexts name themselves as the
origin of a save. -/
structure Context where
  memory : MemoryContext
  changes : Ref .notifier
  namesItself : Bool
  supervision : Option Supervision

instance : Inhabited Context := ⟨⟨{}, ⟨0⟩, false, none⟩⟩

namespace Context

/-- What a save announces, for the context behind a reference. -/
def saveEvent (c : Context) (self : Ref .context) : ContextChange :=
  let change := ContextChange.ofChanges c.memory.unsaved
  if c.namesItself then change.withOrigin self else change

/-- What a fetch of an entity gives after the client's callback has run, `records` being the rows that were there
before it: a supervised context fails as long as it was told to. -/
def outcome (c : Context) (records : List Record) : Except BridgeError (List Record) :=
  match c.supervision with
  | some ⟨_, _, _ + 1, error⟩ => .error error
  | _ => .ok records

/-- The context after a fetch: a failure counts. -/
def afterFetch (c : Context) : Context :=
  { c with supervision := c.supervision.map fun s => { s with failures := s.failures - 1 } }

end Context

/-- The contents of stored rows, all of which have to be of the row type. -/
def contentsAs (rowType : RowType) : List Record → Except BridgeError (List Json)
  | [] => .ok []
  | r :: rest =>
    if r.rowType = rowType then (contentsAs rowType rest).map (r.content :: ·)
    else .error (.queryExecution rowType.entity "stored record has a different type")

/-- What a descriptor asks for out of stored rows. -/
def FetchDescriptor.select (d : FetchDescriptor Json) (rowType : RowType) (records : List Record) :
    Except BridgeError (List Json) :=
  (contentsAs rowType records).map d.apply

end LiveProperty
