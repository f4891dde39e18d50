import LiveProperty.Machine.Object

/-!
# Replies

What the commands of a client answer.
-/

namespace LiveProperty

/-- Why a command was not carried out. -/
inductive Refusal where
  /-- A name stands for nothing, or for something of another sort. -/
  | noObject
  /-- A part of the command could not be understood. -/
  | badValue
  /-- The command is unknown. -/
  | noSuchStep
  deriving DecidableEq, Repr

/-- Who a context is to a client: its name, or no name although it is alive. -/
inductive ContextName where
  | named (name : String)
  | unnamed
  deriving DecidableEq, Repr

/-- A change as it looks at a moment: `origin` is there only if the origin is alive. -/
structure ChangeView where
  change : ContextChange
  origin : Option ContextName
  deriving DecidableEq, Repr

/-- What is known of a descriptor without asking it for rows. -/
structure DescriptorInfo where
  limit : Option Nat
  offset : Nat
  filtered : Bool
  orders : List SortOrder
  deriving DecidableEq, Repr

/-- What is known of a descriptor. -/
def FetchDescriptor.info {ρ : Type} (d : FetchDescriptor ρ) : DescriptorInfo :=
  ⟨d.limit, d.offset, d.filter.isSome, d.sort.map SortCriterion.order⟩

/-- The answer of a command. -/
inductive Reply where
  /-- The command answers nothing. -/
  | nothing
  /-- The command was not carried out. -/
  | refused (r : Refusal)
  /-- The command failed. -/
  | failed (e : BridgeError)
  | flag (b : Bool)
  | number (n : Nat)
  | text (s : String)
  | texts (items : List String)
  | json (j : Json)
  /-- How a read with a fetch that may fail ended. -/
  | attempted (outcome : Except Json Json)
  /-- What a cache holds. -/
  | held (value : Option Json)
  /-- What a store holds under a key. -/
  | stored (value : Option StoreValue)
  /-- A property as it was read. -/
  | value (kind : Storable) (value : kind.Value)
  /-- A stored value that was decoded. -/
  | decoded (kind : Storable) (value : kind.Value)
  /-- A store: its size and suite, and whether it has the key that was asked for. -/
  | store (size : Nat) (suite : Option String) (has : Option Bool)
  /-- A key bridge: how it was set up, and whether it has a cached value. -/
  | keyBridge (key : String) (kind : Storable) (initial : kind.Value) (cached : Bool) (envelope : Envelope)
  /-- How often a property was read and changed, and how many observers wait in the registrar. -/
  | counts (accesses mutations waiting : Nat)
  /-- A binding: its property, the size of the property's name in bytes, and whether the owner is alive. -/
  | binding (property : String) (bytes : Nat) (alive : Bool)
  /-- An envelope, if there is one. -/
  | envelope (e : Option Envelope)
  /-- A change, and whether it announces nothing. -/
  | change (view : ChangeView) (empty : Bool)
  /-- The content of a row, if there is one. -/
  | row (content : Option Json)
  /-- A context: the rows of an entity, whether changes are unsaved, and the listeners of its bus. -/
  | context (rows : Nat) (unsaved : Bool) (listeners : Nat)
  /-- Who a context is, if there is one. -/
  | contextName (name : Option ContextName)
  /-- The rows that a query bridge reads as. -/
  | rows (rows : List Json)
  /-- The rows of a query run against a context. -/
  | page (rows : List Json)
  /-- What a descriptor makes of rows: which of them it admits, and what it selects. -/
  | descriptor (info : DescriptorInfo) (admitted : List Bool) (rows : List Json) (description : String)
  /-- A query bridge: how it was set up, and whether it has cached rows. -/
  | queryBridge (entity : String) (cached : Bool) (info : DescriptorInfo) (envelope : Envelope)
  /-- The last token of a tracker. -/
  | token (t : Option HistoryToken)
  /-- An error: its message, its description, and whether it equals another. -/
  | error (message description : String) (same : Bool)

instance : Inhabited Reply := ⟨.nothing⟩

end LiveProperty
