import LiveProperty.Query.Change
import LiveProperty.Store.Storable

/-!
# History of remote transactions

When another process writes, nothing is announced here.  A source of history answers which transactions were
recorded after a token, oldest first; a tracker announces what they touched and stores the newest token, so the
next call goes on from there.
-/

namespace LiveProperty

/-- A recorded transaction. -/
structure HistoryTransaction where
  token : HistoryToken
  changes : List EntityChange
  deriving Repr

/-- What a source answers when it is asked. -/
abbrev HistoryBatch := Except BridgeError (List HistoryTransaction)

/-- Where a source is asked to start: after a token, or a short while before now. -/
inductive HistoryCursor where
  | after (token : HistoryToken)
  | recent
  deriving DecidableEq, Repr

/-- The entity types that transactions touched. -/
def touchedEntities (transactions : List HistoryTransaction) : EntitySet :=
  EntitySet.ofList (transactions.flatMap fun t => t.changes.map EntityChange.entity)

/-- The key that a token is stored under unless another is asked for. -/
def defaultTokenKey : String := "tether.history.last-token"

/-- A tracker of remote transactions, with what its source will answer. -/
structure Tracker where
  label : String
  store : Ref .store
  key : String
  changes : Ref .notifier
  onCall : Ref .plan
  batches : List HistoryBatch

instance : Inhabited Tracker := ⟨⟨"", ⟨0⟩, "", ⟨0⟩, ⟨0⟩, []⟩⟩

namespace Tracker

/-- What the source answers next: no transactions if nothing is left. -/
def batch (t : Tracker) : HistoryBatch :=
  t.batches.head?.getD (.ok [])

/-- The tracker after its source answered. -/
def dropBatch (t : Tracker) : Tracker :=
  { t with batches := t.batches.drop 1 }

/-- Lets the source answer one more batch in the end. -/
def pushBatch (t : Tracker) (batch : HistoryBatch) : Tracker :=
  { t with batches := t.batches ++ [batch] }

end Tracker

end LiveProperty
