import LiveProperty.Proofs.Machine.Begins
import Mathlib.Data.List.Basic

/-!
# What follows from a task

Doing a task puts others in front of those that wait.  They are listed here
with the task that they follow from, so that what is true of every task can
be proved along this list.
-/

namespace LiveProperty

/-- The listener by which a bridge hears announcements. -/
def Bridge.listener : Bridge → Listener
  | .key r => .keyBridge r
  | .query r => .queryBridge r

/-- Whether an event concerns a bridge: a write of its key, or a change of
its entity. -/
def World.concerns (w : World) : Bridge → Event → Bool
  | .key b, .key key => key = (w.keyBridges.get b).key
  | .query q, .change c => c.affects (w.queryBridges.get q).entity
  | _, _ => false

/-- A task that a command leaves to be done, besides the one that ends it. -/
inductive Leaves (m : Machine) : Task → Prop
  | answer (r : Reply) : Leaves m (.answer r)
  | perform (c : Command) : Leaves m (.perform c true)
  /-- The callback of a store. -/
  | fire (plan : Ref .plan) : Leaves m (.fire plan)
  | readCache (c : Ref .cache) (outcome : Except Json Json)
      (during : List Command) (mayFail : Bool)
      (named : m.world.isNamed (.cache c)) :
      Leaves m (.readCache c outcome during mayFail)
  | deliver (n : Ref .notifier) (event : Event)
      (foreign : ∀ key, event ≠ .key key) :
      Leaves m (.deliver (m.world.audience n) event)
  | write (s : Ref .store) (key : String) (value : Option StoreValue)
      (offered : m.world.Offers s) : Leaves m (.write s key value)
  | accessBound (b : Bridge) (binding : Binding)
      (live : m.liveBinding? b = some binding) :
      Leaves m (.access binding.owner binding.property)
  | keepBound (b : Bridge) (binding : Binding)
      (live : m.liveBinding? b = some binding) :
      Leaves m (.keep [binding.owner.object])
  | readKey (b : Ref .keyBridge) (named : m.world.isNamed (.keyBridge b)) :
      Leaves m (.readKey b)
  | access (r : Ref .registrar) (property : String)
      (named : m.world.isNamed (.registrar r)) :
      Leaves m (.access (.registrar r) property)
  | mutate (r : Ref .registrar) (property : String) (during : List Command)
      (named : m.world.isNamed (.registrar r)) :
      Leaves m (.mutate (.registrar r) property (.client during))
  | leaveScope (r : Ref .registrar) (reaction : Reaction)
      (named : m.world.isNamed (.registrar r)) :
      Leaves m (.leaveScope r reaction)
  | enclose (envelope : Envelope) (p : Option (Ref .presenter))
      (body : List Command) : Leaves m (.enclose envelope p (.client body))
  | askRecords (c : Ref .context) (rowType : RowType)
      (descriptor : FetchDescriptor Json)
      (named : m.world.isNamed (.context c)) :
      Leaves m (.askRecords c rowType.entity (.client rowType descriptor))
  | readQuery (q : Ref .queryBridge)
      (named : m.world.isNamed (.queryBridge q)) : Leaves m (.readQuery q)
  | relay (q : Ref .queryBridge)
      (named : m.world.isNamed (.queryBridge q)) :
      Leaves m (.relay (.query q))
  | askHistory (t : Ref .tracker) (named : m.world.isNamed (.tracker t)) :
      Leaves m (.askHistory t (m.world.storedValue
        (m.world.trackers.get t).store (m.world.trackers.get t).key))
  | answerToken (t : Ref .tracker) (named : m.world.isNamed (.tracker t)) :
      Leaves m (.answerToken t (m.world.storedValue
        (m.world.trackers.get t).store (m.world.trackers.get t).key))

/-- A task that doing another one puts in front. -/
inductive Follows (m : Machine) : Task → Task → Prop
  /-- What a command leaves to be done. -/
  | begun (c : Command) (nested : Bool) {x : Task} (left : Leaves m x) :
      Follows m (.perform c nested) x
  | finish {c : Command} {nested : Bool} {b : Begun}
      (begun : m.begin c.action = .ok b) :
      Follows m (.perform c nested) (.finish c.label b.held nested)
  | refuse (c : Command) (nested : Bool) (r : Refusal) :
      Follows m (.perform c nested) (.answer (.refused r))
  | finishRefused (c : Command) (nested : Bool) :
      Follows m (.perform c nested) (.finish c.label [] nested)
  /-- The commands of a callback or of a body. -/
  | perform (t : Task) (c : Command) (other : ∀ d n, t ≠ .perform d n) :
      Follows m t (.perform c true)
  /-- The callback of a client, a hook, a presenter, a store, a context or a
  source of history. -/
  | fire (t : Task) (plan : Ref .plan) : Follows m t (.fire plan)
  | remark (t : Task) (h : Happening) (remark : h.isRemark) :
      Follows m t (.tell h)
  | deliver (l : Listener) (audience : List Listener) (event : Event) :
      Follows m (.deliver (l :: audience) event) (.deliver audience event)
  | relay (b : Bridge) (audience : List Listener) (event : Event)
      (concerns : m.world.concerns b event) :
      Follows m (.deliver (b.listener :: audience) event) (.relay b)
  | announceKey (s : Ref .store) (key : String) (value : Option StoreValue) :
      Follows m (.write s key value)
        (.deliver (m.world.audience (m.world.stores.get s).changes) (.key key))
  | forwardAccess (h : Ref .hook) (property : String) (r : Ref .registrar)
      (forward : (m.world.hooks.get h).forward = some r) :
      Follows m (.access (.hook h) property) (.access (.registrar r) property)
  | forwardMutate (h : Ref .hook) (property : String) (i : Invalidation)
      (r : Ref .registrar) (forward : (m.world.hooks.get h).forward = some r) :
      Follows m (.mutate (.hook h) property i)
        (.mutate (.registrar r) property i)
  | invalidate (owner : Owner) (property : String) (i : Invalidation) :
      Follows m (.mutate owner property i) (.invalidate i)
  | countMutation (r : Ref .registrar) (property : String)
      (i : Invalidation) :
      Follows m (.mutate (.registrar r) property i)
        (.countMutation r property)
  | react (r : Ref .registrar) (property : String) (reaction : Reaction) :
      Follows m (.countMutation r property) (.react reaction)
  | enclose (b : Bridge) :
      Follows m (.relay b)
        (.enclose (m.world.relayOf b).envelope (m.world.relayOf b).presenter
          (.mutation (m.liveBinding? b) b))
  | keepBridge (b : Bridge) :
      Follows m (.relay b)
        (.keep (b.object ::
          ((m.liveBinding? b).map fun x => x.owner.object).toList))
  | run (envelope : Envelope) (p : Option (Ref .presenter)) (body : Body) :
      Follows m (.enclose envelope p body) (.run body)
  | mutate (binding : Binding) (b : Bridge) :
      Follows m (.run (.mutation (some binding) b))
        (.mutate binding.owner binding.property (.bridge b))
  | invalidateUnbound (b : Bridge) :
      Follows m (.run (.mutation none b)) (.invalidate (.bridge b))
  /-- The end of a fetch is told in which generation of the cache it began. -/
  | settleCache (c : Ref .cache) (outcome : Except Json Json)
      (during : List Command) (mayFail : Bool)
      (empty : (m.world.caches.get c).value = none) :
      Follows m (.readCache c outcome during mayFail)
        (.settleCache c (m.world.caches.get c).generation outcome mayFail)
  | settleKey (b : Ref .keyBridge)
      (empty : (m.world.keyBridges.get b).cache.value = none) :
      Follows m (.readKey b)
        (.settleKey b (m.world.keyBridges.get b).cache.generation
          (m.world.storedValue (m.world.keyBridges.get b).store
            (m.world.keyBridges.get b).key))
  | askRecords (q : Ref .queryBridge) (c : Ref .context)
      (empty : (m.world.queryBridges.get q).cache.value = none)
      (resolved : m.world.resolvedContext q = some c) :
      Follows m (.readQuery q)
        (.askRecords c (m.world.queryBridges.get q).entity
          (.bridge q (m.world.queryBridges.get q).cache.generation))
  | settleMissing (q : Ref .queryBridge)
      (empty : (m.world.queryBridges.get q).cache.value = none)
      (resolved : m.world.resolvedContext q = none) :
      Follows m (.readQuery q)
        (.settleQuery q (m.world.queryBridges.get q).cache.generation
          (.error (.missingContext (m.world.queryBridges.get q).entity)))
  | receive (c : Ref .context) (entity : String) (purpose : FetchFor) :
      Follows m (.askRecords c entity purpose)
        (.receive c ((m.world.contexts.get c).memory.records entity) purpose)
  | keepContext (c : Ref .context) (entity : String) (purpose : FetchFor) :
      Follows m (.askRecords c entity purpose) (.keep [.context c])
  | settleQuery (c : Ref .context) (records : List Record)
      (q : Ref .queryBridge) (began : UInt64) :
      Follows m (.receive c records (.bridge q began))
        (.settleQuery q began ((m.world.contexts.get c).outcome records))
  | takeBatch (t : Ref .tracker) (stored : Option StoreValue) :
      Follows m (.askHistory t stored) (.takeBatch t)
  | storeToken (t : Ref .tracker) (transactions : List HistoryTransaction)
      (ok : (m.world.trackers.get t).batch = .ok transactions)
      (newest : HistoryTransaction) (last : transactions.getLast? = some newest)
      (encoded : Option StoreValue)
      (encode : newest.token.encode = .ok encoded) :
      Follows m (.takeBatch t)
        (.write (m.world.trackers.get t).store (m.world.trackers.get t).key
          encoded)
  | announceRemote (t : Ref .tracker)
      (transactions : List HistoryTransaction)
      (ok : (m.world.trackers.get t).batch = .ok transactions) :
      Follows m (.takeBatch t)
        (.announceRemote t transactions.length (touchedEntities transactions))
  | deliverRemote (t : Ref .tracker) (transactions : ℕ)
      (entities : EntitySet) :
      Follows m (.announceRemote t transactions entities)
        (.deliver (m.world.audience (m.world.trackers.get t).changes)
          (.change (.remote entities)))
  | answerRemote (t : Ref .tracker) (transactions : ℕ)
      (entities : EntitySet) :
      Follows m (.announceRemote t transactions entities)
        (.answer (.texts entities))

namespace Machine

variable {m : Machine}

@[simp] theorem todo_modifyWorld (f : World → World) :
    (m.modifyWorld f).todo = m.todo := rfl

@[simp] theorem world_modifyWorld (f : World → World) :
    (m.modifyWorld f).world = f m.world := rfl

@[simp] theorem reply_modifyWorld (f : World → World) :
    (m.modifyWorld f).reply = m.reply := rfl

@[simp] theorem todo_tell (h : Happening) : (m.tell h).todo = m.todo := rfl

@[simp] theorem world_tell (h : Happening) :
    (m.tell h).world = m.world.tell h := rfl

@[simp] theorem reply_tell (h : Happening) : (m.tell h).reply = m.reply := rfl

@[simp] theorem todo_answer (r : Reply) : (m.answer r).todo = m.todo := rfl

@[simp] theorem world_answer (r : Reply) : (m.answer r).world = m.world := rfl

@[simp] theorem reply_answer (r : Reply) : (m.answer r).reply = r := rfl

@[simp] theorem todo_push (tasks : List Task) :
    (m.push tasks).todo = tasks ++ m.todo := rfl

@[simp] theorem world_push (tasks : List Task) :
    (m.push tasks).world = m.world := rfl

@[simp] theorem reply_push (tasks : List Task) :
    (m.push tasks).reply = m.reply := rfl

theorem step_of_todo_nil (h : m.todo = []) : m.step = m := by
  simp [step, h]

theorem step_of_todo_cons {t : Task} {rest : List Task}
    (h : m.todo = t :: rest) : m.step = { m with todo := rest }.doTask t := by
  simp [step, h]

theorem perform_of_begin {c : Command} {nested : Bool} {b : Begun}
    (h : m.begin c.action = .ok b) :
    m.perform c nested =
      b.machine.push (b.tasks ++ [.finish c.label b.held nested]) := by
  simp [perform, h]

theorem perform_of_refused {c : Command} {nested : Bool} {r : Refusal}
    (h : m.begin c.action = .error r) :
    m.perform c nested =
      m.push [.answer (.refused r), .finish c.label [] nested] := by
  simp [perform, h]

theorem step_of_begin {c : Command} {nested : Bool} {rest : List Task}
    {b : Begun} (h : m.todo = .perform c nested :: rest)
    (hbegin : begin { m with todo := rest } c.action = .ok b) :
    m.step = b.machine.push (b.tasks ++ [.finish c.label b.held nested]) :=
  (step_of_todo_cons h).trans (perform_of_begin hbegin)

theorem step_of_refused {c : Command} {nested : Bool} {rest : List Task}
    {r : Refusal} (h : m.todo = .perform c nested :: rest)
    (hbegin : begin { m with todo := rest } c.action = .error r) :
    m.step = ({ m with todo := rest } : Machine).push
      [.answer (.refused r), .finish c.label [] nested] :=
  (step_of_todo_cons h).trans (perform_of_refused hbegin)

/-- What a command that begins leaves to be done lies between its end and
what had its turn before. -/
theorem todo_of_begin {c : Command} {nested : Bool} {rest : List Task}
    {b : Begun} (h : m.todo = .perform c nested :: rest)
    (hbegin : begin { m with todo := rest } c.action = .ok b) :
    m.step.todo = b.tasks ++ .finish c.label b.held nested :: rest := by
  rw [step_of_begin h hbegin, todo_push, (begins_of_begin hbegin).todo_eq]
  simp

/-- Looking at a stored token changes no more than the journal. -/
theorem lastToken_eq (t : Ref .tracker) (stored : Option StoreValue) :
    ∃ told : List Happening, (∀ h ∈ told, h.isRemark) ∧
      (m.lastToken t stored).1 =
        { m with world :=
          { m.world with journal := told ++ m.world.journal } } := by
  unfold lastToken
  split
  · exact ⟨[], by simp, rfl⟩
  · next stored =>
    split
    · exact ⟨[], by simp, rfl⟩
    · next e he =>
      exact ⟨[.tokenUnreadable t (e.withKey (m.world.trackers.get t).key)],
        by simp [Happening.isRemark], rfl⟩

/-- A machine has what another one had to do, and in front of that what
follows from a task. -/
def Pushes (m : Machine) (t : Task) (m' : Machine) : Prop :=
  ∃ pushed, m'.todo = pushed ++ m.todo ∧ ∀ x ∈ pushed, Follows m t x

theorem pushes_nil {t : Task} {m' : Machine} (h : m'.todo = m.todo) :
    Pushes m t m' :=
  ⟨[], h, by simp⟩

theorem pushes_cons {t x : Task} {m' : Machine} {rest : List Task}
    (h : Follows m t x) (hrest : ∀ y ∈ rest, Follows m t y)
    (htodo : m'.todo = x :: rest ++ m.todo) : Pushes m t m' :=
  ⟨x :: rest, htodo, by simpa using ⟨h, hrest⟩⟩

theorem leaves_readTasks {w : World} {s : Ref .store} {x : Task}
    (hx : x ∈ readTasks w s) : Leaves m x := by
  obtain ⟨plan, -, rfl⟩ := by simpa [readTasks] using hx
  exact .fire plan

theorem leaves_accessTasks {b : Bridge} {x : Task}
    (hx : x ∈ m.accessTasks b) : Leaves m x := by
  unfold accessTasks at hx
  split at hx
  · next binding live =>
    rcases List.mem_cons.mp hx with rfl | hx
    · exact .accessBound b binding live
    · rw [List.mem_singleton.mp hx]
      exact .keepBound b binding live
  · exact absurd hx List.not_mem_nil

/-- The tasks of a command that has begun are the listed ones. -/
theorem leaves_of_begins {bound : ℕ} {b : Begun}
    (h : Begins m bound b) {x : Task} (hx : x ∈ b.tasks) : Leaves m x := by
  have hlast (tasks : List Task) {t : Task}
      (front : ∀ y ∈ tasks, Leaves m y) (last : Leaves m t)
      (hx : x ∈ tasks ++ [t]) : Leaves m x := by
    rcases List.mem_append.mp hx with hx | hx
    · exact front x hx
    · rw [List.mem_singleton.mp hx]
      exact last
  cases h with
  | atOnce r edits => exact hlast [] (by simp) (.answer r) hx
  | readCache c outcome during mayFail named small =>
    exact hlast [] (by simp) (.readCache c _ _ _ named) hx
  | announce n event o source made foreign =>
    exact hlast [_] (by simpa using .deliver n event foreign)
      (.answer _) hx
  | save c count named unsaved =>
    exact hlast [_] (by simpa using .deliver _ _ (by simp))
      (.answer _) hx
  | write s key value held offered named =>
    exact hlast [_] (by simpa using .write s key value offered)
      (.answer _) hx
  | readDefault key => exact hlast _ (fun y => leaves_readTasks) (.answer _) hx
  | getKey b named =>
    exact hlast _ (fun y => leaves_accessTasks) (.readKey b named) hx
  | access r property named =>
    exact hlast [_] (by simpa using .access r property named)
      (.answer _) hx
  | mutate r property during named small =>
    exact hlast [_] (by simpa using .mutate r property during named)
      (.answer _) hx
  | observe r apply reaction named small =>
    rcases List.mem_append.mp hx with hx | hx
    · obtain ⟨c, -, rfl⟩ := List.mem_map.mp hx
      exact .perform c
    · exact hlast [_] (by simpa using .leaveScope r reaction named)
        (.answer _) hx
  | runEnvelope envelope p body named small =>
    exact hlast [_] (by simpa using .enclose envelope p body)
      (.answer _) hx
  | fetchRows c rowType descriptor named =>
    exact hlast [] (by simp)
      (.askRecords c rowType descriptor named) hx
  | results q named =>
    exact hlast _ (fun y => leaves_accessTasks) (.readQuery q named) hx
  | refresh q named =>
    exact hlast [_] (by simpa using .relay q named) (.answer _) hx
  | bindContext q c named namedContext =>
    exact hlast [_] (by simpa using .relay q named) (.answer _) hx
  | readToken t next named tracked =>
    rcases tracked with rfl | rfl
    · exact hlast _ (fun y => leaves_readTasks) (.askHistory t named) hx
    · exact hlast _ (fun y => leaves_readTasks) (.answerToken t named) hx

theorem follows_nested {t : Task} (other : ∀ c nested, t ≠ .perform c nested)
    {commands : List Command} {x : Task} (hx : x ∈ Task.nested commands) :
    Follows m t x := by
  obtain ⟨c, -, rfl⟩ := List.mem_map.mp hx
  exact .perform t c other

theorem follows_readTasks {t : Task} {w : World} {s : Ref .store} {x : Task}
    (hx : x ∈ readTasks w s) : Follows m t x := by
  obtain ⟨plan, -, rfl⟩ := by simpa [readTasks] using hx
  exact .fire t plan

theorem pushes_perform (c : Command) (nested : Bool) :
    Pushes m (.perform c nested) (m.perform c nested) := by
  unfold perform
  split
  · next b hb =>
    refine ⟨b.tasks ++ [.finish c.label b.held nested], ?_, ?_⟩
    · rw [todo_push, (begins_of_begin hb).todo_eq]
    · intro x hx
      rcases List.mem_append.mp hx with hx | hx
      · exact .begun c nested (leaves_of_begins (begins_of_begin hb) hx)
      · rw [List.mem_singleton.mp hx]
        exact .finish hb
  · next r hr =>
    refine pushes_cons (.refuse c nested r) ?_ rfl
    simpa using Follows.finishRefused c nested

/-- A key bridge that hears that its key was written begins an invalidation,
if it is alive. -/
theorem call_keyBridge {r : Ref .keyBridge} {key : String}
    (concerns : m.world.concerns (.key r) (.key key)) :
    m.call (Bridge.key r).listener (.key key) =
      if m.isRooted (.keyBridge r) then m.push [.relay (.key r)] else m := by
  have hkey : key = (m.world.keyBridges.get r).key := of_decide_eq_true concerns
  exact if_congr (and_iff_right hkey) rfl rfl

/-- A query bridge that hears of a change of its entity does so too, and is
offered the origin first, if that is alive. -/
theorem call_queryBridge {q : Ref .queryBridge} {c : ContextChange}
    (concerns : m.world.concerns (.query q) (.change c)) :
    m.call (Bridge.query q).listener (.change c) =
      if m.isRooted (.queryBridge q) then
        (m.modifyWorld fun w =>
          (c.origin?.filter fun origin => m.isAlive (.context origin)).elim w
            (w.adopt q)).push [.relay (.query q)]
      else m := by
  have haffects : c.affects (m.world.queryBridges.get q).entity := concerns
  refine if_congr Iff.rfl ?_ rfl
  rw [hearChange, if_pos haffects]
  cases c.origin?.filter fun origin => m.isAlive (.context origin) <;> rfl

theorem pushes_call (l : Listener) (audience : List Listener)
    (event : Event) :
    Pushes m (.deliver (l :: audience) event)
      ((m.push [.deliver audience event]).call l event) := by
  have hnone {m' : Machine}
      (h : m'.todo = .deliver audience event :: m.todo) :
      Pushes m (.deliver (l :: audience) event) m' :=
    ⟨[_], h, by simpa using Follows.deliver l audience event⟩
  have hone {t : Task} {m' : Machine}
      (h : Follows m (.deliver (l :: audience) event) t)
      (htodo : m'.todo = t :: .deliver audience event :: m.todo) :
      Pushes m (.deliver (l :: audience) event) m' :=
    ⟨[t, _], htodo, by simpa using ⟨h, Follows.deliver l audience event⟩⟩
  unfold call
  split
  · split
    · split
      · exact hone (.fire _ _) rfl
      · exact hnone rfl
    · exact hone (.fire _ _) rfl
  · next b key =>
    split
    · next h =>
      have hconcerns : m.world.concerns (.key b) (.key key) :=
        decide_eq_true h.1
      exact hone (.relay (.key b) audience (.key key) hconcerns) rfl
    · exact hnone rfl
  · next q change =>
    split
    · simp only [hearChange]
      split
      · next haffects =>
        have hrelay : Follows m (.deliver (.queryBridge q :: audience)
            (.change change)) (.relay (.query q)) :=
          .relay (.query q) audience (.change change) haffects
        split
        · exact hone hrelay rfl
        · exact hone hrelay rfl
      · exact hnone rfl
    · exact hnone rfl
  · exact hnone rfl

theorem pushes_mutate (owner : Owner) (property : String)
    (i : Invalidation) :
    Pushes m (.mutate owner property i) (m.mutate owner property i) := by
  cases owner with
  | registrar r =>
    refine pushes_cons (.invalidate _ property i) ?_ rfl
    simpa using Follows.countMutation r property i
  | hook h =>
    refine ⟨_, rfl, ?_⟩
    intro y hy
    rcases List.mem_append.mp hy with hy | hy
    · rcases List.mem_append.mp hy with hy | hy
      · rw [List.mem_singleton.mp hy]
        exact .fire _ _
      · split at hy
        · next r forward =>
          rw [List.mem_singleton.mp hy]
          exact .forwardMutate h property i r forward
        · rw [(List.mem_replicate.mp hy).2]
          exact .invalidate _ property i
    · rcases List.mem_cons.mp hy with rfl | hy
      · exact .fire _ _
      · rw [List.mem_singleton.mp hy]
        exact .remark _ _ rfl

theorem pushes_enclose (envelope : Envelope) (p : Option (Ref .presenter))
    (body : Body) :
    Pushes m (.enclose envelope p body) (m.enclose envelope p body) := by
  unfold enclose
  split
  · exact pushes_cons (.run _ p body) (by simp) rfl
  · split
    · refine ⟨_, rfl, ?_⟩
      intro y hy
      rcases List.mem_append.mp hy with hy | hy
      · rcases List.mem_append.mp hy with hy | hy
        · rw [List.mem_singleton.mp hy]
          exact .fire _ _
        · rw [(List.mem_replicate.mp hy).2]
          exact .run _ p body
      · rcases List.mem_cons.mp hy with rfl | hy
        · exact .fire _ _
        · rw [List.mem_singleton.mp hy]
          exact .remark _ _ rfl
    · refine pushes_cons (.run _ p body) ?_ rfl
      intro y hy
      rw [List.mem_singleton.mp hy]
      exact .remark _ _ rfl

theorem pushes_takeBatch (t : Ref .tracker) :
    Pushes m (.takeBatch t) (m.takeBatch t) := by
  simp only [takeBatch]
  split
  · exact pushes_nil rfl
  · next transactions hok =>
    refine ⟨_, rfl, ?_⟩
    intro y hy
    rcases List.mem_append.mp hy with hy | hy
    · obtain ⟨newest, hlast, rfl⟩ := by simpa using hy
      unfold storeToken
      split
      · next encoded hencode =>
        exact .storeToken t transactions hok newest hlast encoded hencode
      · exact .remark _ _ rfl
    · rw [List.mem_singleton.mp hy]
      exact .announceRemote t transactions hok

/-- The tasks after a step are those that waited and, in front of them,
those that followed. -/
theorem pushes_doTask (t : Task) : Pushes m t (m.doTask t) := by
  cases t with
  | perform c nested => exact pushes_perform c nested
  | finish label held nested =>
    apply pushes_nil
    simp only [doTask, finish]
    rw [(edits_foldl_release _ 0 fun o ho => ho).2]
    cases nested <;> rfl
  | deliver audience event =>
    cases audience with
    | nil => exact pushes_nil rfl
    | cons l rest => exact pushes_call l rest event
  | write s key value =>
    exact pushes_cons (.announceKey s key value) (by simp) rfl
  | access owner property =>
    cases owner with
    | registrar r => exact pushes_nil rfl
    | hook h =>
      refine ⟨_, rfl, ?_⟩
      intro y hy
      rcases List.mem_append.mp hy with hy | hy
      · obtain ⟨r, forward, rfl⟩ := by simpa using hy
        exact .forwardAccess h property r forward
      · rw [List.mem_singleton.mp hy]
        exact .fire _ _
  | mutate owner property i => exact pushes_mutate owner property i
  | countMutation r property =>
    refine ⟨_, rfl, ?_⟩
    intro y hy
    obtain ⟨o, -, rfl⟩ := List.mem_map.mp hy
    exact .react r property o.onChange
  | react reaction => exact ⟨_, rfl, fun y hy => follows_nested (by simp) hy⟩
  | invalidate i =>
    cases i with
    | bridge b => exact pushes_nil rfl
    | client during =>
      exact ⟨_, rfl, fun y hy => follows_nested (by simp) hy⟩
  | relay b =>
    refine pushes_cons (.enclose b) ?_ rfl
    intro y hy
    rw [List.mem_singleton.mp hy]
    exact .keepBridge b
  | enclose envelope p body => exact pushes_enclose envelope p body
  | run body =>
    cases body with
    | client commands =>
      exact ⟨_, rfl, fun y hy => follows_nested (by simp) hy⟩
    | mutation binding b =>
      cases binding with
      | none => exact pushes_cons (.invalidateUnbound b) (by simp) rfl
      | some binding => exact pushes_cons (.mutate binding b) (by simp) rfl
  | readCache c outcome during mayFail =>
    simp only [doTask, readCache]
    split
    · exact pushes_nil rfl
    · next hempty =>
      refine ⟨_, rfl, ?_⟩
      intro y hy
      rcases List.mem_append.mp hy with hy | hy
      · exact follows_nested (by simp) hy
      · rw [List.mem_singleton.mp hy]
        exact .settleCache c outcome during mayFail hempty
  | settleCache c began outcome mayFail =>
    cases outcome <;> exact pushes_nil rfl
  | readKey b =>
    simp only [doTask, readKey]
    split
    · exact pushes_nil rfl
    · next hempty =>
      refine ⟨_, rfl, ?_⟩
      intro y hy
      rcases List.mem_append.mp hy with hy | hy
      · exact follows_readTasks hy
      · rw [List.mem_singleton.mp hy]
        exact .settleKey b hempty
  | settleKey b began stored =>
    simp only [doTask, settleKey, reportFault]
    split <;> exact pushes_nil rfl
  | readQuery q =>
    simp only [doTask, readQuery]
    split
    · exact pushes_nil rfl
    · next hempty =>
      split
      · next c hc =>
        exact pushes_cons (.askRecords q c hempty hc) (by simp) rfl
      · next hc => exact pushes_cons (.settleMissing q hempty hc) (by simp) rfl
  | askRecords c entity purpose =>
    refine ⟨_, rfl, ?_⟩
    intro y hy
    rcases List.mem_append.mp hy with hy | hy
    · obtain ⟨s, -, rfl⟩ := by simpa using hy
      exact .fire _ _
    · rcases List.mem_cons.mp hy with rfl | hy
      · exact .receive c entity purpose
      · rw [List.mem_singleton.mp hy]
        exact .keepContext c entity purpose
  | receive c records purpose =>
    cases purpose with
    | client rowType descriptor =>
      simp only [doTask, receive, conclude]
      split <;> exact pushes_nil rfl
    | bridge q began =>
      exact pushes_cons (.settleQuery c records q began) (by simp) rfl
  | settleQuery q began outcome =>
    simp only [doTask, settleQuery, missContext]
    split
    · exact pushes_nil rfl
    · split
      · split <;> exact pushes_nil rfl
      · exact pushes_nil rfl
  | askHistory r stored =>
    obtain ⟨told, -, htold⟩ := lastToken_eq (m := m) r stored
    simp only [doTask, askHistory, htold]
    refine pushes_cons (.fire _ _) ?_ rfl
    intro y hy
    rw [List.mem_singleton.mp hy]
    exact .takeBatch r stored
  | takeBatch r => exact pushes_takeBatch r
  | announceRemote r transactions entities =>
    simp only [doTask, announceRemote]
    split
    · exact pushes_nil rfl
    · refine pushes_cons (.deliverRemote r transactions entities) ?_ rfl
      intro y hy
      rw [List.mem_singleton.mp hy]
      exact .answerRemote r transactions entities
  | answerToken r stored =>
    obtain ⟨told, -, htold⟩ := lastToken_eq (m := m) r stored
    simp only [doTask, answerToken, htold]
    exact pushes_nil rfl
  | fire plan => exact ⟨_, rfl, fun y hy => follows_nested (by simp) hy⟩
  | keep | answer | tell | leaveScope => exact pushes_nil rfl

theorem follows_of_mem {t x : Task} (hx : x ∈ (m.doTask t).todo) :
    x ∈ m.todo ∨ Follows m t x := by
  obtain ⟨pushed, htodo, hpushed⟩ := pushes_doTask (m := m) t
  rw [htodo] at hx
  rcases List.mem_append.mp hx with hx | hx
  · exact Or.inr (hpushed x hx)
  · exact Or.inl hx

/-- What waits once tasks were put in front waited before, or stands among
those tasks. -/
theorem waits_or_put {t : Task} {rest pushed below : List Task}
    (h : t :: rest <:+ pushed ++ below) :
    t :: rest <:+ below ∨
      ∃ before after, pushed = before ++ t :: after ∧
        rest = after ++ below := by
  obtain ⟨front, hfront⟩ := h
  rcases List.append_eq_append_iff.mp hfront with
    ⟨_ | ⟨x, after⟩, hpushed, hbelow⟩ | ⟨before, -, hbelow⟩
  · exact Or.inl ⟨[], hbelow⟩
  · obtain ⟨rfl, hrest⟩ := List.cons.inj hbelow
    exact Or.inr ⟨front, after, hpushed, hrest⟩
  · exact Or.inl ⟨before, hbelow.symm⟩

/-- A step takes the first task away and puts in front what follows. -/
theorem todo_step {t : Task} {rest : List Task} (h : m.todo = t :: rest) :
    ∃ pushed, m.step.todo = pushed ++ rest ∧
      ∀ x ∈ pushed, Follows { m with todo := rest } t x := by
  rw [step_of_todo_cons h]
  exact pushes_doTask t

end Machine

end LiveProperty
