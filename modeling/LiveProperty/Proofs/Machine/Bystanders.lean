import LiveProperty.Proofs.Machine.Agreements
import LiveProperty.Proofs.Machine.Handles
import LiveProperty.Proofs.Machine.Sources

/-!
# What is none of a bridge's business

A task is inert for a bridge if it neither acts for it nor carries out what
a client asks for.  As long as callbacks are silent, doing an inert task
leaves a world that agrees with the one before, and leads to nothing but inert
tasks.  So does a command that spares the bridge: a write under another key, a
use of another bridge, an announcement that does not concern it.
-/

namespace LiveProperty

/-- The bridge for which a task is done: a part of an invalidation of it, or
of a read of its cache. -/
def Task.serves? : Task → Option Bridge
  | .relay b | .enclose _ _ (.mutation _ b) | .run (.mutation _ b)
  | .mutate _ _ (.bridge b) | .invalidate (.bridge b) => some b
  | .readKey r | .settleKey r _ _ => some (.key r)
  | .readQuery q | .askRecords _ _ (.bridge q _) | .receive _ _ (.bridge q _)
  | .settleQuery q _ _ => some (.query q)
  | _ => none

/-- A task that neither acts for a bridge nor carries out what a client asks
for. -/
def Task.Inert (w : World) (b : Bridge) : Task → Prop
  | .perform .. | .mutate _ _ (.client _) | .invalidate (.client _)
  | .enclose _ _ (.client _) | .run (.client _) | .readCache ..
  | .settleCache .. | .askHistory .. | .takeBatch _ | .announceRemote .. =>
    False
  -- Whatever the command held stays attached.
  | .finish _ held _ => ∀ o ∈ held, w.isNamed o ∨ w.subscriptionOf? o = none
  | .deliver audience event =>
    b.listener ∈ audience → w.concerns b event = false
  | .write s key _ => w.backs b s key = false
  | t => t.serves? ≠ some b

/-- Whether a command does not concern a bridge: it writes under other keys,
looks into stores, uses or binds other bridges, or announces a change of
something else. -/
def World.spares (w : World) (b : Bridge) : Action → Bool
  | .store (.writeStore store key _) =>
    (w.store? store).all fun s => !w.backs b s key
  | .store (.writeDefaultStore key _) => !w.backs b w.defaultStore key
  | .store (.setKey bridge _) =>
    (w.keyBridge? bridge).all fun r =>
      !w.backs b (w.keyBridges.get r).store (w.keyBridges.get r).key
  | .store (.getKey bridge) | .store (.keyBridgeInfo bridge)
  | .store (.observeKey bridge _ _) =>
    (w.keyBridge? bridge).all fun r => .key r ≠ b
  | .store (.peekStore _ _) | .store (.storeInfo _ _)
  | .store (.readDefaultStore _) | .store .countDefaultStoreListeners
  | .notice (.countListeners _) => true
  | .query (.results bridge) | .query (.queryBridgeInfo bridge)
  | .query (.refresh bridge) | .query (.bindContext bridge _)
  | .query (.observeQuery bridge _ _) =>
    (w.queryBridge? bridge).all fun q => .query q ≠ b
  | .context (.announceChange _ change) =>
    (w.change? change).all fun c => !w.concerns b (.change c)
  | _ => false

variable {w w' : World} {b : Bridge}

namespace Task

@[simp] theorem inert_keep (objects : List Object) :
    (keep objects).Inert w b := nofun

@[simp] theorem inert_answer (r : Reply) : (answer r).Inert w b := nofun

@[simp] theorem inert_tell (h : Happening) : (tell h).Inert w b := nofun

@[simp] theorem inert_fire (plan : Ref .plan) : (fire plan).Inert w b := nofun

@[simp] theorem inert_access (owner : Owner) (property : String) :
    (access owner property).Inert w b := nofun

@[simp] theorem inert_react (reaction : Reaction) :
    (react reaction).Inert w b := nofun

@[simp] theorem inert_countMutation (r : Ref .registrar) (property : String) :
    (countMutation r property).Inert w b := nofun

end Task

theorem Task.Inert.congr {t : Task} (inert : t.Inert w b)
    (h : w.Agrees b w') : t.Inert w' b := by
  cases t with
  | finish label held nested =>
    intro o ho
    rw [h.isNamed, h.subscriptionOf]
    exact inert o ho
  | deliver audience event =>
    intro hb
    rw [h.concerns]
    exact inert hb
  | write s key value => exact (h.backs s key).trans inert
  | mutate owner property i => cases i <;> exact inert
  | invalidate i => cases i <;> exact inert
  | enclose envelope p body => cases body <;> exact inert
  | run body => cases body <;> exact inert
  | _ => exact inert

theorem Task.Inert.serves_ne {w : World} {t : Task} (h : t.Inert w b) :
    t.serves? ≠ some b := by
  cases t with
  | mutate owner property i => cases i <;> first | exact h | exact h.elim
  | invalidate i => cases i <;> first | exact h | exact h.elim
  | enclose envelope p body => cases body <;> first | exact h | exact h.elim
  | run body => cases body <;> first | exact h | exact h.elim
  | _ => first | exact h | exact h.elim | exact nofun

namespace World.Agrees

theorem set_keyBridge {r : Ref .keyBridge} {k : KeyBridge}
    (other : Bridge.key r ≠ b) (core : k.core = (w.keyBridges.get r).core)
    (journal : List Happening) :
    w.Agrees b { w with keyBridges := w.keyBridges.set r k, journal } := by
  refine { Agrees.refl b w with
    same := rfl
    keyBridges := .of_set (fun _ _ => ⟨rfl, fun _ => rfl⟩)
      ⟨core, fun h => absurd h.symm other⟩
    backing := ?_ }
  cases b with
  | query q => rfl
  | key d =>
    have hd : d ≠ r := fun h => other (congrArg Bridge.key h.symm)
    have hget : (w.keyBridges.set r k).get d = w.keyBridges.get d :=
      Pool.get_set_of_ne _ hd k
    simp only [World.backing, World.storedValue, hget]

theorem set_queryBridge {r : Ref .queryBridge} {q : QueryBridge}
    (other : Bridge.query r ≠ b) (core : q.core = (w.queryBridges.get r).core)
    (journal : List Happening) :
    w.Agrees b { w with queryBridges := w.queryBridges.set r q, journal } := by
  refine { Agrees.refl b w with
    same := rfl
    queryBridges := .of_set (fun _ _ => ⟨rfl, fun _ => rfl⟩)
      ⟨core, fun h => absurd h.symm other⟩
    backing := ?_ }
  cases b <;> rfl

theorem adopt_other {q : Ref .queryBridge} (other : Bridge.query q ≠ b)
    (c : Ref .context) : w.Agrees b (w.adopt q c) := by
  unfold World.adopt
  split
  · exact set_queryBridge (q := (w.queryBridges.get q).adopt c) other rfl _
  · exact refl b w

theorem invalidate_other {d : Bridge} (other : d ≠ b) :
    w.Agrees b (w.invalidateBridge d) := by
  cases d with
  | key r =>
    exact set_keyBridge (k := (w.keyBridges.get r).invalidate) other rfl _
  | query q =>
    exact set_queryBridge (q := (w.queryBridges.get q).invalidate) other rfl _

theorem leaveScope (b : Bridge) (w : World) (r : Ref .registrar)
    (reaction : Reaction) : w.Agrees b (w.leaveScope r reaction) := by
  simp only [World.leaveScope]
  split <;> exact { refl b w with same := rfl }

theorem afterFetch (b : Bridge) (w : World) (c : Ref .context) :
    w.Agrees b
      { w with contexts := w.contexts.modify c Context.afterFetch } := by
  have hcore (x : Context) : x.afterFetch.core = x.core := by
    obtain ⟨memory, changes, namesItself, _ | s⟩ := x <;> rfl
  exact { refl b w with
    same := rfl
    contexts := .of_set (fun _ _ => rfl) (hcore _) }

/-- A write under a key that backs another property, if any. -/
theorem writeValue_of_not_backs {s : Ref .store} {key : String}
    (other : w.backs b s key = false) (value : Option StoreValue) :
    w.Agrees b (w.writeValue s key value) := by
  refine { refl b w with
    same := rfl
    stores := .of_set (fun _ _ => rfl) (Store.core_write _ key value)
    backing := ?_ }
  cases b with
  | query q => rfl
  | key r =>
    simp only [World.backing, World.storedValue, World.writeValue, World.tell]
    by_cases hs : (w.keyBridges.get r).store = s
    · have hkey : (w.keyBridges.get r).key ≠ key := by
        rintro rfl
        simp [World.backs, hs] at other
      rw [hs, Pool.get_modify_self, Store.find?_write, if_neg hkey]
    · rw [Pool.get_modify_of_ne _ hs]

end World.Agrees

namespace Machine

variable {m m' : Machine}

/-- A machine has done what is none of a bridge's business, and has more of
that to do. -/
structure Spares (b : Bridge) (m m' : Machine) : Prop where
  world : m.world.Agrees b m'.world
  todo : ∃ pushed, m'.todo = pushed ++ m.todo ∧ ∀ t ∈ pushed, t.Inert m.world b

/-- Whether the callback that the next task calls, if it calls one, does
nothing. -/
def silent (m : Machine) : Bool :=
  match m.todo with
  | .fire plan :: _ => (m.world.plans.get plan).schedule.current.isEmpty
  | .react reaction :: _ => reaction.commands.isEmpty
  | _ => true

theorem agrees_tell (b : Bridge) (w : World) (h : Happening) :
    w.Agrees b (w.tell h) :=
  { World.Agrees.refl b w with same := rfl }

theorem spares_of_todo_eq (world : m.world.Agrees b m'.world)
    (todo : m'.todo = m.todo) : m.Spares b m' :=
  ⟨world, [], todo, fun _ ht => absurd ht List.not_mem_nil⟩

theorem Spares.of_push {tasks : List Task} (h : (m.push tasks).Spares b m')
    (inert : ∀ t ∈ tasks, t.Inert m.world b) : m.Spares b m' := by
  obtain ⟨world, pushed, htodo, hpushed⟩ := h
  refine ⟨world, pushed ++ tasks, ?_, ?_⟩
  · rw [htodo, todo_push, List.append_assoc]
  · intro t ht
    exact (List.mem_append.mp ht).elim (hpushed t) (inert t)

/-! ## Inert tasks -/

/-- Nothing goes when what was held has a name or never subscribed. -/
theorem foldl_release_eq {held : List Object}
    (h : ∀ o ∈ held, m.world.isNamed o ∨ m.world.subscriptionOf? o = none) :
    held.foldl release m = m := by
  induction held with
  | nil => rfl
  | cons o held ih =>
    have hrelease : m.release o = m := by
      unfold release
      split
      · rfl
      · next hheld =>
        rcases h o List.mem_cons_self with hnamed | hnone
        · simp [isHeld, hnamed] at hheld
        · simp [World.letGo, hnone]
    rw [List.foldl_cons, hrelease]
    exact ih fun x hx => h x (List.mem_cons_of_mem o hx)

theorem spares_hearChange {q : Ref .queryBridge} {c : ContextChange}
    (other : c.affects (m.world.queryBridges.get q).entity →
      Bridge.query q ≠ b) : m.Spares b (m.hearChange q c) := by
  unfold hearChange
  split
  · next affects =>
    have hrelay : (Task.relay (.query q)).Inert m.world b := by
      simpa [Task.Inert, Task.serves?] using other affects
    split
    · next origin _ =>
      exact ⟨World.Agrees.adopt_other (other affects) origin, [_], rfl,
        by simpa using hrelay⟩
    · exact ⟨World.Agrees.refl b m.world, [.relay (.query q)], rfl,
        by simpa using hrelay⟩
  · exact spares_of_todo_eq (World.Agrees.refl b m.world) rfl

/-- A listener that is called, unless it is that of the bridge and the event
concerns it. -/
theorem spares_call {l : Listener} {event : Event}
    (other : l = b.listener → m.world.concerns b event = false) :
    m.Spares b (m.call l event) := by
  have hrefl : m.Spares b m :=
    spares_of_todo_eq (World.Agrees.refl b m.world) rfl
  unfold call
  split
  · next name plan onlyKey =>
    have hheard : m.Spares b ((m.tell (.heard name (m.viewEvent event))).push
        [.fire plan]) :=
      ⟨agrees_tell b m.world _, [.fire plan], rfl, by simp⟩
    split
    · split
      · exact hheard
      · exact hrefl
    · exact hheard
  · next r key =>
    split
    · next hkey =>
      refine ⟨World.Agrees.refl b m.world, [.relay (.key r)], rfl, ?_⟩
      have hne : Bridge.key r ≠ b := by
        rintro rfl
        simpa [World.concerns, hkey.1] using other rfl
      simpa [Task.Inert, Task.serves?] using hne
    · exact hrefl
  · next q c =>
    split
    · apply spares_hearChange
      rintro affects rfl
      simp [World.concerns, affects] at other
      exact other rfl
    · exact hrefl
  · exact hrefl

theorem spares_access (owner : Owner) (property : String) :
    m.Spares b (m.access owner property) := by
  cases owner with
  | registrar r =>
    exact spares_of_todo_eq { World.Agrees.refl b m.world with same := rfl } rfl
  | hook h =>
    refine ⟨agrees_tell b m.world _, _, rfl, ?_⟩
    intro t ht
    rcases List.mem_append.mp ht with ht | ht
    · obtain ⟨r, -, rfl⟩ := by simpa using ht
      exact Task.inert_access _ property
    · rw [List.mem_singleton.mp ht]
      exact Task.inert_fire _

theorem spares_mutate (owner : Owner) (property : String) {d : Bridge}
    (other : d ≠ b) : m.Spares b (m.mutate owner property (.bridge d)) := by
  have hinvalidate : (Task.invalidate (.bridge d)).Inert m.world b := by
    simpa [Task.Inert, Task.serves?] using other
  cases owner with
  | registrar r =>
    exact ⟨World.Agrees.refl b m.world, [_, _], rfl, by simpa using hinvalidate⟩
  | hook h =>
    refine ⟨agrees_tell b m.world _, _, rfl, ?_⟩
    simp only [List.forall_mem_append, List.forall_mem_cons]
    refine ⟨⟨by simp, ?_⟩, by simp⟩
    split
    · rw [List.forall_mem_singleton]
      simpa [Task.Inert, Task.serves?] using other
    · exact fun t ht => List.eq_of_mem_replicate ht ▸ hinvalidate

theorem spares_enclose (envelope : Envelope) (p : Option (Ref .presenter))
    {binding : Option Binding} {d : Bridge} (other : d ≠ b) :
    m.Spares b (m.enclose envelope p (.mutation binding d)) := by
  have hrun : (Task.run (.mutation binding d)).Inert m.world b := by
    simpa [Task.Inert, Task.serves?] using other
  unfold enclose
  split
  · exact ⟨World.Agrees.refl b m.world, [_], rfl, by simpa using hrun⟩
  · split
    · refine ⟨agrees_tell b m.world _, _, rfl, ?_⟩
      simp only [List.forall_mem_append, List.forall_mem_cons]
      exact ⟨⟨by simp, fun t ht => List.eq_of_mem_replicate ht ▸ hrun⟩, by simp⟩
    · exact ⟨agrees_tell b m.world _, [_, _], rfl, by simpa using hrun⟩

theorem inert_readTasks (s : Ref .store) :
    ∀ t ∈ readTasks m.world s, t.Inert w b := by
  intro t ht
  obtain ⟨plan, -, rfl⟩ := by simpa [readTasks] using ht
  exact Task.inert_fire plan

theorem inert_accessTasks (d : Bridge) :
    ∀ t ∈ m.accessTasks d, t.Inert w b := by
  unfold accessTasks
  split <;> simp

theorem spares_readKey {r : Ref .keyBridge} (other : Bridge.key r ≠ b) :
    m.Spares b (m.readKey r) := by
  unfold readKey
  dsimp only
  split
  · exact spares_of_todo_eq (agrees_tell b m.world _) rfl
  · refine ⟨{ World.Agrees.refl b m.world with same := rfl }, _, rfl, ?_⟩
    intro t ht
    rcases List.mem_append.mp ht with ht | ht
    · exact inert_readTasks _ t ht
    · rw [List.mem_singleton.mp ht]
      simpa [Task.Inert, Task.serves?] using other

theorem spares_settleKey {r : Ref .keyBridge} (other : Bridge.key r ≠ b)
    (began : UInt64) (stored : Option StoreValue) :
    m.Spares b (m.settleKey r began stored) := by
  have hworld := World.Agrees.set_keyBridge (w := m.world)
    (k := (m.world.keyBridges.get r).settle began stored) other rfl
  unfold settleKey reportFault
  dsimp only
  split <;> exact spares_of_todo_eq (hworld _) rfl

theorem spares_readQuery {q : Ref .queryBridge} (other : Bridge.query q ≠ b) :
    m.Spares b (m.readQuery q) := by
  unfold readQuery
  dsimp only
  split
  · exact spares_of_todo_eq (agrees_tell b m.world _) rfl
  · refine ⟨agrees_tell b m.world _, [_], rfl, ?_⟩
    split <;> simpa [Task.Inert, Task.serves?] using other

theorem spares_settleQuery {q : Ref .queryBridge} (other : Bridge.query q ≠ b)
    (began : UInt64) (outcome : Except BridgeError (List Record)) :
    m.Spares b (m.settleQuery q began outcome) := by
  have hsettle (rows : List Json) := World.Agrees.set_queryBridge (w := m.world)
    (q := (m.world.queryBridges.get q).settle began rows) other rfl
  have hwarn := World.Agrees.set_queryBridge (w := m.world)
    (q := (m.world.queryBridges.get q).warn) other rfl
  unfold settleQuery missContext
  dsimp only
  split
  · exact spares_of_todo_eq (hsettle _ _) rfl
  · split
    · split
      · exact spares_of_todo_eq (World.Agrees.refl b m.world) rfl
      · exact spares_of_todo_eq (hwarn _) rfl
    · exact spares_of_todo_eq (agrees_tell b m.world _) rfl

theorem inert_askRecords {c : Ref .context} {entity : String}
    {purpose : FetchFor} (inert : (Task.askRecords c entity purpose).Inert w b)
    (records : List Record) : (Task.receive c records purpose).Inert w b := by
  cases purpose <;> exact inert

theorem spares_askRecords {c : Ref .context} {entity : String}
    {purpose : FetchFor}
    (inert : (Task.askRecords c entity purpose).Inert m.world b) :
    m.Spares b (m.askRecords c entity purpose) := by
  refine ⟨agrees_tell b m.world _, _, rfl, ?_⟩
  intro t ht
  rcases List.mem_append.mp ht with ht | ht
  · obtain ⟨s, -, rfl⟩ := by simpa using ht
    exact Task.inert_fire _
  · rcases List.mem_cons.mp ht with rfl | ht
    · exact inert_askRecords inert _
    · rw [List.mem_singleton.mp ht]
      exact Task.inert_keep _

theorem spares_receive {c : Ref .context} {records : List Record}
    {purpose : FetchFor}
    (inert : (Task.receive c records purpose).Inert m.world b) :
    m.Spares b (m.receive c records purpose) := by
  have hworld := World.Agrees.afterFetch b m.world c
  cases purpose with
  | bridge q began =>
    refine ⟨hworld, [_], rfl, ?_⟩
    simpa [Task.Inert, Task.serves?] using inert
  | client rowType descriptor =>
    simp only [receive, conclude]
    split <;> exact spares_of_todo_eq hworld rfl

/-- A write under a key that backs another property is announced to others, or
as none of the bridge's business. -/
theorem spares_write {s : Ref .store} {key : String}
    (other : m.world.backs b s key = false) (apart : m.world.Apart)
    (value : Option StoreValue) : m.Spares b (m.write s key value) := by
  have hworld := World.Agrees.writeValue_of_not_backs other value
  refine ⟨hworld.trans (agrees_tell b _ _), [_], rfl, ?_⟩
  rw [List.forall_mem_singleton]
  intro hb
  cases b with
  | query q => rfl
  | key r =>
    -- The bridge hears of the writes of its own store only.
    obtain ⟨entry, hentry, hlistener⟩ := List.mem_map.mp hb
    have hstore := apart.attached s entry hentry r hlistener
    simpa [World.backs, World.concerns, hstore] using other

/-- An inert task leads to inert tasks. -/
theorem spares_doTask {t : Task} (inert : t.Inert m.world b)
    (silent : ({ m with todo := t :: m.todo } : Machine).silent)
    (apart : m.world.Apart) : m.Spares b (m.doTask t) := by
  have hrefl := World.Agrees.refl b m.world
  have htell (h : Happening) : m.Spares b (m.tell h) :=
    spares_of_todo_eq (agrees_tell b m.world h) rfl
  cases t with
  | perform | readCache | settleCache | askHistory | takeBatch
  | announceRemote => exact inert.elim
  | finish label held nested =>
    cases nested with
    | false =>
      have hfinish : m.doTask (.finish label held false) = m :=
        foldl_release_eq inert
      rw [hfinish]
      exact spares_of_todo_eq hrefl rfl
    | true =>
      have hfinish : m.doTask (.finish label held true) =
        m.tell (.finished label m.reply) := foldl_release_eq inert
      rw [hfinish]
      exact htell _
  | keep objects => exact spares_of_todo_eq hrefl rfl
  | answer r => exact spares_of_todo_eq hrefl rfl
  | tell h => exact htell h
  | fire plan =>
    have hcurrent : (m.world.plans.get plan).schedule.current = [] :=
      List.isEmpty_iff.mp silent
    refine spares_of_todo_eq { hrefl with same := rfl } ?_
    simp [doTask, fire, hcurrent, Task.nested]
  | deliver audience event =>
    cases audience with
    | nil => exact spares_of_todo_eq hrefl rfl
    | cons l rest =>
      have hcall : (m.push [.deliver rest event]).Spares b
          ((m.push [.deliver rest event]).call l event) := by
        apply spares_call
        rintro rfl
        exact inert List.mem_cons_self
      apply hcall.of_push
      rw [List.forall_mem_singleton]
      exact fun hb => inert (List.mem_cons_of_mem l hb)
  | write s key value => exact spares_write inert apart value
  | access owner property => exact spares_access owner property
  | mutate owner property i =>
    cases i with
    | bridge d => exact spares_mutate owner property fun h => inert (h ▸ rfl)
    | client during => exact inert.elim
  | countMutation r property =>
    exact ⟨{ hrefl with same := rfl }, _, rfl, by simp⟩
  | react reaction =>
    have hcommands : reaction.commands = [] := List.isEmpty_iff.mp silent
    refine spares_of_todo_eq (agrees_tell b m.world _) ?_
    simp [doTask, react, hcommands, Task.nested]
  | invalidate i =>
    cases i with
    | bridge d =>
      have hworld : m.world.Agrees b (m.world.invalidateBridge d) :=
        World.Agrees.invalidate_other fun h => inert (h ▸ rfl)
      exact spares_of_todo_eq hworld rfl
    | client during => exact inert.elim
  | relay d =>
    refine ⟨agrees_tell b m.world _, [_, _], rfl, ?_⟩
    simpa [Task.Inert, Task.serves?] using inert
  | enclose envelope p body =>
    cases body with
    | mutation binding d =>
      exact spares_enclose envelope p fun h => inert (h ▸ rfl)
    | client during => exact inert.elim
  | run body =>
    cases body with
    | mutation binding d =>
      cases binding <;> refine ⟨hrefl, [_], rfl, ?_⟩ <;>
        simpa [Task.Inert, Task.serves?] using inert
    | client during => exact inert.elim
  | leaveScope r reaction =>
    exact spares_of_todo_eq (World.Agrees.leaveScope b m.world r reaction) rfl
  | readKey r => exact spares_readKey fun h => inert (h ▸ rfl)
  | settleKey r began stored =>
    have hother : Bridge.key r ≠ b := fun h => inert (h ▸ rfl)
    exact spares_settleKey hother began stored
  | readQuery q => exact spares_readQuery fun h => inert (h ▸ rfl)
  | askRecords c entity purpose => exact spares_askRecords inert
  | receive c records purpose => exact spares_receive inert
  | settleQuery q began outcome =>
    have hother : Bridge.query q ≠ b := fun h => inert (h ▸ rfl)
    exact spares_settleQuery hother began outcome
  | answerToken t stored =>
    obtain ⟨told, -, htold⟩ := lastToken_eq (m := m) t stored
    simp only [doTask, answerToken, htold]
    exact spares_of_todo_eq { hrefl with same := rfl } rfl

/-! ## Commands that spare a bridge -/

/-- What a command does at once and leaves to be done is none of the bridge's
business. -/
structure SparesBegun (m : Machine) (b : Bridge) (begun : Begun) : Prop where
  world : m.world.Agrees b begun.machine.world
  tasks : ∀ t ∈ begun.tasks, t.Inert m.world b

theorem sparesBegun_answering (b : Bridge) (r : Reply) :
    m.SparesBegun b (m.answering r) :=
  ⟨World.Agrees.refl b m.world, by simp [answering]⟩

theorem sparesBegun_write {s : Ref .store} {key : String}
    {value : Option StoreValue} {held : List Object} {r : Reply}
    (other : (!m.world.backs b s key) = true) :
    m.SparesBegun b ⟨m, held, [.write s key value, .answer r]⟩ := by
  refine ⟨World.Agrees.refl b m.world, ?_⟩
  have hwrite : (Task.write s key value).Inert m.world b := by
    simpa [Task.Inert] using other
  simpa using hwrite

theorem sparesBegun_read {d : Bridge} {held : List Object} {t : Task}
    (inert : t.Inert m.world b) :
    m.SparesBegun b ⟨m, held, m.accessTasks d ++ [t]⟩ := by
  refine ⟨World.Agrees.refl b m.world, ?_⟩
  rw [List.forall_mem_append, List.forall_mem_singleton]
  exact ⟨inert_accessTasks d, inert⟩

theorem sparesBegun_relay {q : Ref .queryBridge} {held : List Object}
    {x : World} {r : Reply} (other : Bridge.query q ≠ b)
    (world : m.world.Agrees b x) :
    m.SparesBegun b
      ⟨{ m with world := x }, held, [.relay (.query q), .answer r]⟩ := by
  refine ⟨world, ?_⟩
  simpa [Task.Inert, Task.serves?] using other

theorem sparesBegun_beginStore {a : StoreAction} {begun : Begun}
    (spares : m.world.spares b (.store a)) (h : m.beginStore a = .ok begun) :
    m.SparesBegun b begun := by
  cases a with
  | newStore | setDefaultStore | resetDefaultStore | newKeyBridge =>
    cases spares
  | writeStore store key value =>
    obtain ⟨s, hs, h⟩ := needed_bind_eq_ok.mp h
    cases h
    simp only [World.spares, hs, Option.all_some] at spares
    exact sparesBegun_write spares
  | writeDefaultStore key value =>
    cases h
    exact sparesBegun_write spares
  | setKey bridge value =>
    obtain ⟨r, hr, h⟩ := needed_bind_eq_ok.mp h
    simp only [World.spares, hr, Option.all_some] at spares
    cases value with
    | none =>
      cases h
      exact sparesBegun_write spares
    | some spelled =>
      simp only at h
      split at h
      · cases h
        simp only [writingKey]
        split
        · exact sparesBegun_write spares
        · exact ⟨agrees_tell b m.world _, by simp [changing, answering]⟩
      · cases h
  | getKey bridge =>
    obtain ⟨r, hr, h⟩ := needed_bind_eq_ok.mp h
    cases h
    simp only [World.spares, hr, Option.all_some, decide_eq_true_eq] at spares
    exact sparesBegun_read (by simpa [Task.Inert, Task.serves?] using spares)
  | observeKey bridge owner property =>
    obtain ⟨r, hr, h⟩ := needed_bind_eq_ok.mp h
    obtain ⟨o, -, h⟩ := needed_bind_eq_ok.mp h
    cases h
    simp only [World.spares, hr, Option.all_some, decide_eq_true_eq] at spares
    refine ⟨?_, by simp [changing, answering]⟩
    exact World.Agrees.set_keyBridge
      (k := (m.world.keyBridges.get r).bind ⟨o, property⟩) spares rfl _
  | readDefaultStore key =>
    cases h
    refine ⟨agrees_tell b m.world _, ?_⟩
    rw [List.forall_mem_append, List.forall_mem_singleton]
    exact ⟨inert_readTasks _, Task.inert_answer _⟩
  | peekStore | storeInfo | keyBridgeInfo =>
    obtain ⟨s, -, h⟩ := needed_bind_eq_ok.mp h
    cases h
    exact sparesBegun_answering b _
  | countDefaultStoreListeners =>
    cases h
    exact sparesBegun_answering b _

theorem sparesBegun_beginQuery {a : QueryAction} {begun : Begun}
    (spares : m.world.spares b (.query a)) (h : m.beginQuery a = .ok begun) :
    m.SparesBegun b begun := by
  cases a with
  | newQueryBridge | newTracker | pushBatch | remoteChange | lastToken
  | tokenKey => cases spares
  | results bridge =>
    obtain ⟨q, hq, h⟩ := needed_bind_eq_ok.mp h
    cases h
    simp only [World.spares, hq, Option.all_some, decide_eq_true_eq] at spares
    exact sparesBegun_read (by simpa [Task.Inert, Task.serves?] using spares)
  | queryBridgeInfo bridge =>
    obtain ⟨q, -, h⟩ := needed_bind_eq_ok.mp h
    cases h
    exact sparesBegun_answering b _
  | refresh bridge =>
    obtain ⟨q, hq, h⟩ := needed_bind_eq_ok.mp h
    cases h
    simp only [World.spares, hq, Option.all_some, decide_eq_true_eq] at spares
    exact sparesBegun_relay spares (World.Agrees.refl b m.world)
  | bindContext bridge context =>
    obtain ⟨q, hq, h⟩ := needed_bind_eq_ok.mp h
    obtain ⟨c, -, h⟩ := needed_bind_eq_ok.mp h
    cases h
    simp only [World.spares, hq, Option.all_some, decide_eq_true_eq] at spares
    exact sparesBegun_relay spares (World.Agrees.set_queryBridge
      (q := (m.world.queryBridges.get q).bindContext c) spares rfl _)
  | observeQuery bridge owner property =>
    obtain ⟨q, hq, h⟩ := needed_bind_eq_ok.mp h
    obtain ⟨o, -, h⟩ := needed_bind_eq_ok.mp h
    cases h
    simp only [World.spares, hq, Option.all_some, decide_eq_true_eq] at spares
    refine ⟨?_, by simp [changing, answering]⟩
    exact World.Agrees.set_queryBridge
      (q := (m.world.queryBridges.get q).bind ⟨o, property⟩) spares rfl _

theorem sparesBegun_begin {a : Action} {begun : Begun}
    (spares : m.world.spares b a) (h : m.begin a = .ok begun) :
    m.SparesBegun b begun := by
  cases a with
  | store a => exact sparesBegun_beginStore spares h
  | query a => exact sparesBegun_beginQuery spares h
  | context a =>
    cases a with
    | announceChange bus change =>
      obtain ⟨n, -, h⟩ := needed_bind_eq_ok.mp h
      obtain ⟨c, hc, h⟩ := needed_bind_eq_ok.mp h
      cases h
      simp only [World.spares, hc, Option.all_some] at spares
      have hdeliver (audience : List Listener) :
          (Task.deliver audience (.change c)).Inert m.world b := by
        simpa [Task.Inert] using fun _ => spares
      exact ⟨agrees_tell b m.world _, by simpa using hdeliver _⟩
    | _ => cases spares
  | notice a =>
    cases a with
    | countListeners source =>
      obtain ⟨x, -, h⟩ := needed_bind_eq_ok.mp h
      cases h
      exact sparesBegun_answering b _
    | _ => cases spares
  | _ => cases spares

/-- A command that spares a bridge leads to inert tasks. -/
theorem spares_perform {c : Command} {nested : Bool}
    (spares : m.world.spares b c.action) : m.Spares b (m.perform c nested) := by
  cases hbegin : m.begin c.action with
  | error r =>
    rw [perform_of_refused hbegin]
    have hfinish : (Task.finish c.label [] nested).Inert m.world b :=
      fun o ho => absurd ho List.not_mem_nil
    exact ⟨World.Agrees.refl b m.world, [_, _], rfl, by simpa using hfinish⟩
  | ok begun =>
    have hbegins := begins_of_begin hbegin
    obtain ⟨world, tasks⟩ := sparesBegun_begin spares hbegin
    rw [perform_of_begin hbegin]
    refine ⟨world, _, congrArg (_ ++ ·) hbegins.todo_eq, ?_⟩
    rw [List.forall_mem_append, List.forall_mem_singleton]
    refine ⟨tasks, fun o ho => ?_⟩
    rcases hbegins.isNamed_held ho with ⟨n, rfl⟩ | hnamed
    · exact Or.inr rfl
    · exact Or.inl ((world.isNamed o).symm.trans hnamed)

end Machine
end LiveProperty
