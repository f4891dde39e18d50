import LiveProperty.Bridge.Key
import LiveProperty.Bridge.Query
import LiveProperty.Observation.Scope
import LiveProperty.Query.History
import LiveProperty.Store.Basic

/-!
# Objects

What has an identity in a running world, and what a client's names may stand for.  Objects refer to others by
reference; `Machine.isAlive` says which of these references keep the other object alive.
-/

namespace LiveProperty

/-- Something that has an identity and may be kept alive. -/
inductive Object where
  | cache (r : Ref .cache)
  | notifier (r : Ref .notifier)
  | bus (r : Ref .notifier)
  | subscription (s : Subscription)
  | store (r : Ref .store)
  | keyBridge (r : Ref .keyBridge)
  | registrar (r : Ref .registrar)
  | hook (r : Ref .hook)
  | presenter (r : Ref .presenter)
  | context (r : Ref .context)
  | queryBridge (r : Ref .queryBridge)
  | tracker (r : Ref .tracker)
  deriving DecidableEq, Repr

/-- What a name may stand for: an object, or a plain value. -/
inductive Named where
  | object (o : Object)
  | binding (b : Binding)
  | change (c : ContextChange)
  | row (id : RowId)
  deriving DecidableEq, Repr

/-- The object that an owner of properties is. -/
def Owner.object : Owner → Object
  | .registrar r => .registrar r
  | .hook h => .hook h

/-- A bridge of either sort. -/
inductive Bridge where
  | key (r : Ref .keyBridge)
  | query (r : Ref .queryBridge)
  deriving DecidableEq, Repr

/-- The object that a bridge is. -/
def Bridge.object : Bridge → Object
  | .key r => .keyBridge r
  | .query r => .queryBridge r

end LiveProperty
