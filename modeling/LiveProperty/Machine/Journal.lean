import LiveProperty.Machine.Reply
import LiveProperty.Text.Description

/-!
# The journal

Everything that happens in a world is noted in its journal, in order.  Some happenings are of interest to the
client that runs the world; others are reports of a severity, which a client may ask for or not.
`Happening.report?` gives the wording of the reports.
-/

namespace LiveProperty

/-- An event that listeners hear of. -/
inductive Event where
  | key (key : String)
  | value (j : Json)
  | change (c : ContextChange)

/-- An event as it looks when it is heard. -/
inductive EventView where
  | key (key : String)
  | value (j : Json)
  | change (view : ChangeView)

/-- How severe a report is. -/
inductive Severity where
  | error
  | warn
  | debug
  | trace
  deriving DecidableEq, Repr

/-- The rank of a severity, the gravest first. -/
def Severity.rank : Severity → Nat
  | .error => 0
  | .warn => 1
  | .debug => 2
  | .trace => 3

/-- The name of a severity in a report. -/
def Severity.name : Severity → String
  | .error => "ERROR"
  | .warn => "WARN"
  | .debug => "DEBUG"
  | .trace => "TRACE"

/-- The severity with a name, as a client asks for it. -/
def Severity.ofName? (name : String) : Option Severity :=
  [("error", Severity.error), ("warn", .warn), ("debug", .debug), ("trace", .trace)].lookup name

/-- A cache in a world: a client's, or that of a bridge. -/
inductive CacheHolder where
  | client (r : Ref .cache)
  | bridge (b : Bridge)
  deriving DecidableEq, Repr

/-- Something that happened. -/
inductive Happening where
  /-- A command inside a callback was carried out. -/
  | finished (label : Json) (reply : Reply)
  /-- The fetch of a client's cache began. -/
  | fetching (cache : Ref .cache)
  /-- A client's listener heard an event. -/
  | heard (name : String) (event : EventView)
  /-- A store was read. -/
  | storeRead (store : Ref .store) (label : Option String) (key : String)
  /-- A store was written; `cleared` tells whether the key lost its value. -/
  | storeWritten (store : Ref .store) (suite : Option String) (key : String) (cleared : Bool)
  /-- A context was asked for the rows of an entity. -/
  | recordsAsked (context : Ref .context) (label : Option String) (entity : String)
  /-- A hook heard of a read. -/
  | accessed (hook : Ref .hook) (label property : String)
  /-- A hook heard of a change, before the invalidation. -/
  | mutating (hook : Ref .hook) (label property : String)
  /-- A hook was done with a change. -/
  | mutated (hook : Ref .hook) (label property : String)
  /-- A registrar counted a read. -/
  | accessCounted (registrar : Ref .registrar) (property : String)
  /-- A registrar counted a change, and fired observers. -/
  | mutationCounted (registrar : Ref .registrar) (property : String) (fired : Nat)
  /-- An observer was registered. -/
  | observerRegistered (registrar : Ref .registrar) (label : String) (properties : PropertySet)
  /-- An observer was fired. -/
  | observerFired (label : String)
  /-- A client's invalidation ran. -/
  | clientInvalidated
  /-- A client's body ran inside an envelope. -/
  | bodyRan
  /-- A presenter opened a scope. -/
  | opened (presenter : Ref .presenter) (label : String) (scope : PresentationScope)
  /-- A presenter closed a scope. -/
  | closed (presenter : Ref .presenter) (label : String)
  /-- A scope began that no presenter shows. -/
  | spanEntered (scope : PresentationScope)
  /-- A scope ended that no presenter shows. -/
  | spanLeft (scope : PresentationScope)
  /-- A source of history was asked. -/
  | historyAsked (tracker : Ref .tracker) (label : String) (cursor : HistoryCursor)
  /-- A source of history answered. -/
  | historyAnswered (tracker : Ref .tracker) (batch : HistoryBatch)
  /-- A subscription was made. -/
  | subscribed (source : Ref .notifier) (id : SubscriberId)
  /-- A subscription was given up. -/
  | detached (source : Ref .notifier) (id : SubscriberId)
  /-- An announcement began. -/
  | announced (source : Ref .notifier) (event : Event) (audience : List Listener)
  /-- A cache was read and held a value. -/
  | cacheHit (cache : CacheHolder)
  /-- A cache was read and was empty. -/
  | cacheMissed (cache : CacheHolder)
  /-- A fetched value was stored. -/
  | cacheFilled (cache : CacheHolder)
  /-- A fetched value was not stored, since the cache was invalidated during the fetch. -/
  | cacheDiscarded (cache : CacheHolder)
  /-- A cache was invalidated. -/
  | cacheInvalidated (cache : CacheHolder)
  /-- A key bridge learned that its key was written. -/
  | keyChanged (bridge : Ref .keyBridge) (key : String)
  /-- A key bridge could not decode its value. -/
  | defaultUsed (bridge : Ref .keyBridge) (key : String) (error : BridgeError)
  /-- A key bridge could not encode a value. -/
  | writeRefused (bridge : Ref .keyBridge) (key : String) (error : BridgeError)
  /-- A query bridge had no context, and had not said so before. -/
  | contextMissing (bridge : Ref .queryBridge) (entity : String) (error : BridgeError)
  /-- A query bridge's fetch failed. -/
  | queryFailed (bridge : Ref .queryBridge) (entity : String) (error : BridgeError)
  /-- A query bridge adopted the context that saved. -/
  | contextAdopted (bridge : Ref .queryBridge) (entity : String) (context : Ref .context)
  /-- A query bridge was bound to a context. -/
  | contextBound (bridge : Ref .queryBridge) (context : Ref .context)
  /-- A query bridge's results are no longer valid. -/
  | resultsInvalidated (bridge : Ref .queryBridge) (entity : String)
  /-- A row was inserted, updated or deleted. -/
  | rowWritten (context : Ref .context) (change : EntityChange) (id : RowId)
  /-- A context saved. -/
  | contextSaved (context : Ref .context) (changes : Nat)
  /-- A stored history token could not be read. -/
  | tokenUnreadable (tracker : Ref .tracker) (error : BridgeError)
  /-- A history token could not be stored. -/
  | tokenNotStored (tracker : Ref .tracker) (error : BridgeError)
  /-- A source of history failed. -/
  | historyFailed (tracker : Ref .tracker) (error : BridgeError)
  /-- A tracker announced what remote transactions touched. -/
  | remoteAnnounced (tracker : Ref .tracker) (transactions entities : Nat)

/-- A report: its severity, its wording, and named details. -/
structure Report where
  severity : Severity
  wording : String
  details : List (String × String)
  deriving Repr

namespace Happening

open Description in
/-- The report of a happening, for those that are reported. -/
def report? : Happening → Option Report
  | .cacheHit _ => some ⟨.trace, "value cache hit", []⟩
  | .cacheMissed _ => some ⟨.trace, "value cache miss", []⟩
  | .cacheDiscarded _ => some ⟨.trace, "value cache invalidated during fetch; not storing", []⟩
  | .storeWritten _ suite key _ => some ⟨.trace, "store value written",
      [("key", key), ("suite", optional text suite)]⟩
  | .mutationCounted _ property fired => some ⟨.trace, "property changed",
      [("property", property), ("observers", count fired)]⟩
  | .keyChanged _ key => some ⟨.debug, "store key changed; invalidating", [("key", key)]⟩
  | .defaultUsed _ key error => some ⟨.debug, "falling back to default value",
      [("key", key), ("error", error.message)]⟩
  | .writeRefused _ key error => some ⟨.warn, "not writing unencodable value",
      [("key", key), ("error", error.message)]⟩
  | .contextMissing _ entity error => some ⟨.warn, "query has no context; reading as empty",
      [("entity", entity), ("error", error.message)]⟩
  | .queryFailed _ entity error => some ⟨.debug, "query failed; reading as empty",
      [("entity", entity), ("error", error.message)]⟩
  | .contextAdopted _ entity _ => some ⟨.debug, "adopting the context that posted a save",
      [("entity", entity)]⟩
  | .resultsInvalidated _ entity => some ⟨.debug, "query results invalidated", [("entity", entity)]⟩
  | .contextSaved _ changes => some ⟨.debug, "memory context saved", [("changes", count changes)]⟩
  | .tokenUnreadable _ error => some ⟨.warn, "ignoring unreadable history token",
      [("error", error.message)]⟩
  | .tokenNotStored _ error => some ⟨.warn, "failed to persist history token",
      [("error", error.message)]⟩
  | .historyFailed _ error => some ⟨.error, "failed to read persistent history",
      [("error", error.message)]⟩
  | .remoteAnnounced _ transactions entities => some ⟨.debug, "posting remote change",
      [("transactions", count transactions), ("entities", count entities)]⟩
  | _ => none

end Happening

/-- The name of a scope that no presenter shows, and its details. -/
def PresentationScope.span : PresentationScope → String × List (String × String)
  | .transaction t => ("transaction", [("label", t.label)])
  | .animation a => ("animation",
      [("curve", a.curve.name), ("duration_ms", Description.count (a.microseconds / 1000 % 0x10000000000000000))])

namespace Severity

/-- Whether someone who asked for one severity sees reports of another. -/
def shows (asked : Option Severity) (s : Severity) : Bool :=
  match asked with
  | none => false
  | some a => s.rank ≤ a.rank

end Severity

end LiveProperty
