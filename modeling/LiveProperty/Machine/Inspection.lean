import LiveProperty.Machine.Task

/-!
# Inspection

What a client sees who looks into an object: its description as it is at the moment.  The numbers of subscribers
and registrars are left out, since they say nothing to the client.
-/

namespace LiveProperty

namespace Machine

/-- Describes what a name stands for; plain hooks and presenters show nothing of themselves. -/
def describe? (m : Machine) : Named → Option String
  | .object (.cache r) => some (Description.record "ValueCache"
      [("value", Description.optional Json.describe (m.world.caches.get r).value)])
  | .object (.notifier r) => some (describeNotifier r)
  | .object (.bus r) => some (describeNotifier r)
  | .object (.subscription _) => some (Description.record "Subscription"
      [("id", "SubscriberId(#)"), ("attached", "true")])
  | .object (.store r) =>
    let s := m.world.stores.get r
    some (Description.record "MemoryStore"
      [("suite", Description.optional Description.text s.suite), ("len", Description.count s.size)])
  | .object (.keyBridge r) =>
    let b := m.world.keyBridges.get r
    some (Description.record "KeyValueBridge"
      [("key", Description.text b.key), ("default", b.kind.describe b.initial),
        ("cached", Description.optional b.kind.describe b.cache.value),
        ("binding", Description.optional describeBinding b.relay.binding)])
  | .object (.registrar r) => some (Description.record "Registrar"
      [("id", "RegistrarId(#)"), ("pending_observers", Description.count (m.world.registrars.get r).waiting.length)])
  | .object (.context r) =>
    let c := m.world.memory r
    some (Description.record "MemoryContext"
      [("tables", Description.list (c.tables.map fun t =>
          "(" ++ Description.text t.1 ++ ", " ++ Description.count t.2.length ++ ")")),
        ("pending", Description.count c.unsaved.length)])
  | .object (.queryBridge r) =>
    let b := m.world.queryBridges.get r
    some (Description.record "QueryBridge"
      [("entity", describeEntity b.entity), ("descriptor", b.descriptor.describe),
        ("envelope", b.relay.envelope.describe), ("cached", Description.flag b.cache.isPopulated)])
  | .object (.tracker r) => some (Description.openRecord "HistoryTracker"
      [("token_key", Description.text (m.world.trackers.get r).key)])
  | .object (.hook _) => none
  | .object (.presenter _) => none
  | .binding b => some (describeBinding b)
  | .change c => some (c.describe (c.origin?.any fun origin => m.isAlive (.context origin)))
  | .row id => some (Description.wrapped "RowId" (Description.count id.number.toNat))
where
  describeNotifier (r : Ref .notifier) : String :=
    Description.record "Notifier" [("listener_count", Description.count (m.world.notifiers.get r).count)]
  describeBinding (b : Binding) : String :=
    Description.record "ObservationBinding"
      [("property", Description.wrapped "PropertyId" (Description.text b.property)),
        ("alive", Description.flag (m.isAlive b.owner.object))]

end Machine

end LiveProperty
