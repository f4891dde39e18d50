/-!
# Fetch descriptors

What a query asks for: which rows, in which order, and which page of them.  `FetchDescriptor.apply` filters,
sorts stably by the criteria, earlier ones first, and then pages.
-/

namespace LiveProperty

/-- The direction of a sort. -/
inductive SortOrder where
  | forward
  | reverse
  deriving DecidableEq, Repr

/-- The name of a direction. -/
def SortOrder.name : SortOrder → String
  | .forward => "Forward"
  | .reverse => "Reverse"

/-- A sort criterion: a comparison, and the direction in which it counts. -/
structure SortCriterion (ρ : Type) where
  comparison : ρ → ρ → Ordering
  order : SortOrder

namespace SortCriterion

variable {ρ : Type}

/-- Compares two rows, in the direction of the criterion. -/
def compare (c : SortCriterion ρ) (a b : ρ) : Ordering :=
  match c.order with
  | .forward => c.comparison a b
  | .reverse => (c.comparison a b).swap

/-- Compares two rows by the first criterion that tells them apart. -/
def compareAll (criteria : List (SortCriterion ρ)) (a b : ρ) : Ordering :=
  criteria.foldr (fun c later => (c.compare a b).then later) .eq

end SortCriterion

/-- What a query asks for. -/
structure FetchDescriptor (ρ : Type) where
  filter : Option (ρ → Bool) := none
  sort : List (SortCriterion ρ) := []
  limit : Option Nat := none
  offset : Nat := 0

namespace FetchDescriptor

variable {ρ : Type}

instance : Inhabited (FetchDescriptor ρ) := ⟨{}⟩

/-- Whether a row passes the filter. -/
def admits (d : FetchDescriptor ρ) (row : ρ) : Bool :=
  match d.filter with
  | none => true
  | some test => test row

/-- The page of a list: what is left after the offset, up to the limit. -/
def page (d : FetchDescriptor ρ) (rows : List ρ) : List ρ :=
  let rest := rows.drop d.offset
  match d.limit with
  | none => rest
  | some n => rest.take n

/-- Whether one row may stand before another. -/
def before (d : FetchDescriptor ρ) (a b : ρ) : Bool :=
  (SortCriterion.compareAll d.sort a b).isLE

/-- The rows that the descriptor asks for. -/
def apply (d : FetchDescriptor ρ) (rows : List ρ) : List ρ :=
  d.page ((rows.filter d.admits).mergeSort d.before)

end FetchDescriptor

end LiveProperty
