import LiveProperty.Observation.Registrar
import LiveProperty.Pool

/-!
# Tracking scopes

What an observer waits for is found out by a tracking scope, which is open while some code runs and collects the
properties of one registrar that are read meanwhile.  Open scopes form a stack, and a read is noted in every scope
of the registrar that is read, so an outer scope also sees the reads of the scopes inside it.
-/

namespace LiveProperty

/-- An open tracking scope of a registrar, with the properties read so far. -/
structure Scope where
  registrar : Ref .registrar
  accessed : PropertySet := []
  deriving DecidableEq, Repr

/-- The open scopes, innermost first. -/
abbrev ScopeStack := List Scope

namespace ScopeStack

/-- Opens a scope. -/
def enter (s : ScopeStack) (r : Ref .registrar) : ScopeStack :=
  { registrar := r } :: s

/-- Notes a read in every open scope of the registrar that is read. -/
def record (s : ScopeStack) (r : Ref .registrar) (p : String) : ScopeStack :=
  s.map fun scope =>
    if scope.registrar = r then { scope with accessed := PropertySet.insert scope.accessed p } else scope

/-- The properties read in the innermost scope. -/
def collected (s : ScopeStack) : PropertySet :=
  match s with
  | [] => []
  | scope :: _ => scope.accessed

/-- Closes the innermost scope. -/
def leave (s : ScopeStack) : ScopeStack :=
  s.drop 1

end ScopeStack

end LiveProperty
