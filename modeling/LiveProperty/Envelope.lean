import LiveProperty.Pool

/-!
# Envelopes and presenters

An invalidation runs directly or inside a presentation scope: a named transaction, or an animation.  A presenter
opens and closes such scopes on behalf of a user interface.
-/

namespace LiveProperty

/-- A named transaction. -/
structure Transaction where
  label : String
  disablesAnimations : Bool := false
  deriving DecidableEq, Repr

/-- How an animation moves. -/
inductive AnimationCurve where
  | linear
  | easeIn
  | easeOut
  | easeInOut
  | spring
  deriving DecidableEq, Repr

/-- The name of a curve. -/
def AnimationCurve.name : AnimationCurve → String
  | .linear => "Linear"
  | .easeIn => "EaseIn"
  | .easeOut => "EaseOut"
  | .easeInOut => "EaseInOut"
  | .spring => "Spring"

/-- The curves. -/
def AnimationCurve.all : List AnimationCurve :=
  [.linear, .easeIn, .easeOut, .easeInOut, .spring]

/-- The curve with a name. -/
def AnimationCurve.ofName? (name : String) : Option AnimationCurve :=
  all.find? fun c => c.name = name

/-- An animated transition. -/
structure Animation where
  curve : AnimationCurve
  microseconds : Nat
  deriving DecidableEq, Repr

/-- The transition used where nothing else is asked for. -/
def Animation.standard : Animation :=
  ⟨.easeInOut, 350000⟩

/-- A presentation scope. -/
inductive PresentationScope where
  | transaction (t : Transaction)
  | animation (a : Animation)
  deriving DecidableEq, Repr

/-- How an invalidation runs: directly, or inside a scope. -/
inductive Envelope where
  | direct
  | scoped (scope : PresentationScope)
  deriving DecidableEq, Repr

namespace Envelope

/-- The envelope made of an optional transaction and an optional animation; there is none with both. -/
def ofParts? : Option Transaction → Option Animation → Option Envelope
  | some _, some _ => none
  | some t, none => some (.scoped (.transaction t))
  | none, some a => some (.scoped (.animation a))
  | none, none => some .direct

/-- Whether nothing is wrapped around. -/
def isDirect (e : Envelope) : Bool :=
  e = .direct

/-- The transaction of the envelope. -/
def transaction? : Envelope → Option Transaction
  | .scoped (.transaction t) => some t
  | _ => none

/-- The animation of the envelope. -/
def animation? : Envelope → Option Animation
  | .scoped (.animation a) => some a
  | _ => none

end Envelope

/-- A client's presenter: a plan before what it shows, that as many times as `calls` says, and a plan after it. -/
structure Presenter where
  label : String
  before : Ref .plan
  after : Ref .plan
  calls : Nat

instance : Inhabited Presenter := ⟨⟨"", ⟨0⟩, ⟨0⟩, 0⟩⟩

end LiveProperty
