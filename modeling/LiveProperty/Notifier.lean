import LiveProperty.Pool

/-!
# Notifiers

A notifier announces events to its listeners, in the order in which they subscribed.  Subscriber numbers are
handed out once in the whole world, so a number detaches at most the one listener that it was given for.  An
announcement goes to the listeners that are attached when it starts: it is the list, and not the notifier, that
the announcement walks through.
-/

namespace LiveProperty

/-- The number of a subscription, a 64-bit word. -/
structure SubscriberId where
  number : UInt64
  deriving DecidableEq, Repr

/-- What is called when an event is announced. -/
inductive Listener where
  /-- A client's callback with a name for the journal.  With `onlyKey` it hears announcements of that key only. -/
  | client (name : String) (plan : Ref .plan) (onlyKey : Option String)
  /-- A key bridge, which listens for its key. -/
  | keyBridge (bridge : Ref .keyBridge)
  /-- A query bridge. -/
  | queryBridge (bridge : Ref .queryBridge)

/-- A notifier: its attached listeners, oldest first. -/
structure Notifier where
  listeners : List (SubscriberId × Listener) := []
  deriving Inhabited

namespace Notifier

/-- Attaches a listener behind all others. -/
def attach (n : Notifier) (id : SubscriberId) (l : Listener) : Notifier :=
  { listeners := n.listeners ++ [(id, l)] }

/-- Detaches the listener with a number, if it is attached here. -/
def detach (n : Notifier) (id : SubscriberId) : Notifier :=
  { listeners := n.listeners.filter fun entry => entry.1 ≠ id }

/-- How many listeners are attached. -/
def count (n : Notifier) : Nat :=
  n.listeners.length

/-- Whom an announcement that starts now will call. -/
def audience (n : Notifier) : List Listener :=
  n.listeners.map Prod.snd

theorem count_attach (n : Notifier) (id : SubscriberId) (l : Listener) :
    (n.attach id l).count = n.count + 1 := by
  simp [count, attach]

theorem mem_detach {n : Notifier} {id : SubscriberId} {entry : SubscriberId × Listener} :
    entry ∈ (n.detach id).listeners ↔ entry ∈ n.listeners ∧ entry.1 ≠ id := by
  simp [detach]

/-- Detaching a listener once more changes nothing. -/
theorem detach_detach (n : Notifier) (id : SubscriberId) : (n.detach id).detach id = n.detach id := by
  simp [detach]

/-- A number that was not given for a listener here detaches nothing. -/
theorem detach_of_forall_ne {n : Notifier} {id : SubscriberId} (h : ∀ entry ∈ n.listeners, entry.1 ≠ id) :
    n.detach id = n := by
  have hall : n.listeners.filter (fun entry => entry.1 ≠ id) = n.listeners :=
    List.filter_eq_self.mpr fun entry hentry => decide_eq_true (h entry hentry)
  rw [detach, hall]

end Notifier

/-- A handle on an attached listener: its number, and where it is attached. -/
structure Subscription where
  id : SubscriberId
  source : Ref .notifier
  deriving DecidableEq, Repr

end LiveProperty
