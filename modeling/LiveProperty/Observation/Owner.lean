import LiveProperty.Envelope

/-!
# Owners of properties

A bridged property may belong to an owner that hears of its reads and changes: a registrar, or a client's hook.
A binding names the owner without keeping it alive, and a relay says how a bridge passes on what it learns.
-/

namespace LiveProperty

/-- A client's hook on reads and changes of properties, with plans to run on each.  A change is passed on to a
registrar, if there is one, and else makes the invalidation run as many times as `calls` says. -/
structure Hook where
  label : String
  onAccess : Ref .plan
  before : Ref .plan
  after : Ref .plan
  calls : Nat
  forward : Option (Ref .registrar)

instance : Inhabited Hook := ⟨⟨"", ⟨0⟩, ⟨0⟩, ⟨0⟩, 0, none⟩⟩

/-- Who hears of the reads and changes of a bridged property: a registrar, or a client's hook. -/
inductive Owner where
  | registrar (r : Ref .registrar)
  | hook (h : Ref .hook)
  deriving DecidableEq, Repr

/-- Names the owner of a property, without keeping it alive. -/
structure Binding where
  owner : Owner
  property : String
  deriving DecidableEq, Repr

/-- How a bridge passes on reads and changes: to the owner of the property, within an envelope that a presenter
shows. -/
structure Relay where
  envelope : Envelope := .direct
  presenter : Option (Ref .presenter) := none
  binding : Option Binding := none

namespace Relay

/-- Binds a bridge to a property of an owner, in place of the binding it had. -/
def bind (r : Relay) (b : Binding) : Relay :=
  { r with binding := some b }

end Relay

end LiveProperty
