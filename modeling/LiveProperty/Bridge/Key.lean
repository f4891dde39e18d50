import LiveProperty.Cache
import LiveProperty.Notifier
import LiveProperty.Observation.Owner
import LiveProperty.Store.Storable

/-!
# Key bridges

A key bridge backs a property with one key of a store.  It reads the value through a cache; a value that is
missing, or that does not decode, reads as the default.  A write goes straight to the store and leaves the cache
alone: the store's own announcement clears it, as it does for a write from anywhere else.
-/

namespace LiveProperty

/-- A property backed by one key of a store. -/
structure KeyBridge where
  store : Ref .store
  key : String
  kind : Storable
  initial : kind.Value
  cache : Cache kind.Value
  relay : Relay
  subscription : Subscription

instance : Inhabited KeyBridge := ⟨⟨⟨0⟩, "", .bool, false, {}, {}, ⟨⟨0⟩, ⟨0⟩⟩⟩⟩

namespace KeyBridge

/-- What the property reads as, given what the store holds under the key. -/
def valueOf (b : KeyBridge) (stored : Option StoreValue) : b.kind.Value :=
  b.kind.valueOr b.initial stored

/-- Why what the store holds cannot be read, if so. -/
def fault? (b : KeyBridge) : Option StoreValue → Option BridgeError
  | none => none
  | some stored =>
    match b.kind.decode stored with
    | .ok _ => none
    | .error e => some (e.withKey b.key)

/-- Forgets the cached value. -/
def invalidate (b : KeyBridge) : KeyBridge :=
  { b with cache := b.cache.invalidate }

/-- Takes in what was fetched, if nothing was invalidated since the fetch began. -/
def settle (b : KeyBridge) (began : UInt64) (stored : Option StoreValue) : KeyBridge :=
  { b with cache := b.cache.settle began (b.valueOf stored) }

/-- Binds the bridge to a property of an owner. -/
def bind (b : KeyBridge) (binding : Binding) : KeyBridge :=
  { b with relay := b.relay.bind binding }

end KeyBridge

end LiveProperty
