/-!
# Errors

What can go wrong between a property and its source.  Nearly all of these are recovered from where they arise
and only reported; `BridgeError.message` is the one place where they become text.
-/

namespace LiveProperty

/-- Why a property could not be read from its source or written to it. -/
inductive BridgeError where
  | decode (key reason : String)
  | encode (reason : String)
  | typeMismatch (expected found : String)
  | queryExecution (entity reason : String)
  | missingContext (entity : String)
  | conflictingEnvelope
  | history (reason : String)
  deriving DecidableEq, Repr

namespace BridgeError

/-- The text that a reader of a report sees. -/
def message : BridgeError → String
  | .decode key reason => "failed to decode value for key `" ++ key ++ "`: " ++ reason
  | .encode reason => "failed to encode value: " ++ reason
  | .typeMismatch expected found => "expected a stored " ++ expected ++ ", found " ++ found
  | .queryExecution entity reason => "query for `" ++ entity ++ "` failed: " ++ reason
  | .missingContext entity => "no persistence context available for `" ++ entity ++ "`"
  | .conflictingEnvelope => "a query bridge accepts a transaction or an animation, not both"
  | .history reason => "failed to read change history: " ++ reason

/-- Names the key whose value could not be decoded; the other errors do not speak of keys. -/
def withKey : BridgeError → String → BridgeError
  | .decode _ reason, key => .decode key reason
  | other, _ => other

end BridgeError

end LiveProperty
