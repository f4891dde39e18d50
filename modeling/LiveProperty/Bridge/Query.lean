import LiveProperty.Cache
import LiveProperty.Notifier
import LiveProperty.Observation.Owner
import LiveProperty.Query.Context

/-!
# Query bridges

A query bridge backs a property with the rows of one type that a descriptor asks for.  It asks its own context,
which is bound by a client or adopted from the first save that concerns the bridge and names a living origin;
until then it asks the default one.  A query without a context or whose fetch fails reads as empty, and is not
cached.
-/

namespace LiveProperty

/-- A property backed by the rows of a query.  `context` is the bridge's own context, bound or adopted; `warned`
tells whether it was already reported that there is none. -/
structure QueryBridge where
  rowType : RowType
  descriptor : FetchDescriptor Json
  context : Option (Ref .context)
  cache : Cache (List Json)
  relay : Relay
  warned : Bool
  subscription : Subscription

instance : Inhabited QueryBridge := ⟨⟨⟨"", ""⟩, {}, none, {}, {}, false, ⟨⟨0⟩, ⟨0⟩⟩⟩⟩

namespace QueryBridge

/-- The name of the rows' entity. -/
def entity (q : QueryBridge) : String :=
  q.rowType.entity

/-- What the query makes of the outcome of a fetch of stored rows. -/
def rowsOf (q : QueryBridge) (outcome : Except BridgeError (List Record)) : Except BridgeError (List Json) :=
  outcome.bind (q.descriptor.select q.rowType)

/-- Forgets the cached rows. -/
def invalidate (q : QueryBridge) : QueryBridge :=
  { q with cache := q.cache.invalidate }

/-- Takes in the rows of a query, if nothing was invalidated since its fetch began. -/
def settle (q : QueryBridge) (began : UInt64) (rows : List Json) : QueryBridge :=
  { q with cache := q.cache.settle began rows }

/-- Gives a bridge without a context of its own one. -/
def adopt (q : QueryBridge) (c : Ref .context) : QueryBridge :=
  { q with context := q.context.or (some c) }

/-- Binds the bridge to a context, after which a missing context is worth a warning again. -/
def bindContext (q : QueryBridge) (c : Ref .context) : QueryBridge :=
  { q with context := some c, warned := false }

/-- Notes that a missing context was reported. -/
def warn (q : QueryBridge) : QueryBridge :=
  { q with warned := true }

/-- Binds the bridge to a property of an owner. -/
def bind (q : QueryBridge) (binding : Binding) : QueryBridge :=
  { q with relay := q.relay.bind binding }

end QueryBridge

end LiveProperty
