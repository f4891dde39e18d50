import LiveProperty.Proofs.Machine.Parallels

/-!
# The same tasks in two worlds that agree on a bridge

A task that is not inert for a bridge is done alike in worlds that agree on
the bridge, if the bridge is given the same in both: the living origins of the
changes that concern it, and the failures of the contexts that it asks.
-/

namespace LiveProperty

/-- The tasks are the same, or ask the same source of history. -/
theorem Task.eq_or_askHistory {t t' : Task} (h : t'.plain = t.plain) :
    t' = t ∨ ∃ r stored stored',
      t = .askHistory r stored ∧ t' = .askHistory r stored' := by
  cases t with
  | askHistory r stored =>
    cases t' with
    | askHistory r' stored' =>
      cases h
      exact Or.inr ⟨r, stored, stored', rfl, rfl⟩
    | _ => cases h
  | _ =>
    cases t' with
    | askHistory r' stored' => cases h
    | _ => exact Or.inl h

/-- Why a context would fail now, if it was told to. -/
def Context.failure? (c : Context) : Option BridgeError :=
  match c.supervision with
  | some ⟨_, _, _ + 1, error⟩ => some error
  | _ => none

theorem Context.outcome_eq (c : Context) (records : List Record) :
    c.outcome records = c.failure?.elim (.ok records) .error := by
  rcases c with ⟨memory, changes, namesItself, _ | ⟨label, plan, n, error⟩⟩
  · rfl
  · cases n <;> rfl

/-- What a query bridge is given by its surroundings: the living origin of a
change that concerns it, or the failure of a context that it asks. -/
inductive Given where
  | origin (c : Option (Ref .context))
  | failure (e : Option BridgeError)
  deriving DecidableEq

namespace Machine

variable {m m' : Machine} {b : Bridge}

/-- Two machines have done something that leaves their worlds in agreement on a
bridge and leads to the same for it. -/
structure Accords (b : Bridge) (m m' n n' : Machine) : Prop where
  world : n.world.Agrees b n'.world
  todo : ∃ pushed pushed', n.todo = pushed ++ m.todo ∧
    n'.todo = pushed' ++ m'.todo ∧ Kin n.world b pushed pushed'

theorem accords_of_world {n n' : Machine} (world : n.world.Agrees b n'.world)
    (todo : n.todo = m.todo) (todo' : n'.todo = m'.todo) :
    Accords b m m' n n' :=
  ⟨world, [], [], todo, todo', kin_refl _ b []⟩

/-- The same tasks are put in front. -/
theorem accords_push {n n' : Machine} (tasks : List Task)
    (world : n.world.Agrees b n'.world) (todo : n.todo = tasks ++ m.todo)
    (todo' : n'.todo = tasks ++ m'.todo) : Accords b m m' n n' :=
  ⟨world, tasks, tasks, todo, todo', kin_refl _ b tasks⟩

theorem accords_perform (h : m.Level b m') (made : m.world.Has b.object)
    (c : Command) (nested : Bool) :
    Accords b m m' (m.perform c nested) (m'.perform c nested) := by
  have hparallel := parallel_begin h made c.action
  rcases hx : m.begin c.action with r | x
  · rw [hx] at hparallel
    generalize hy : m'.begin c.action = y at hparallel
    cases hparallel
    rw [perform_of_refused hx, perform_of_refused hy]
    exact accords_push _ h.world rfl rfl
  · rw [hx] at hparallel
    generalize hy : m'.begin c.action = y at hparallel
    cases hparallel with
    | begun world held tasks =>
      next y =>
      rw [perform_of_begin hx, perform_of_begin hy, held]
      exact ⟨world, _, _, congrArg (_ ++ ·) (begins_of_begin hx).todo_eq,
        congrArg (_ ++ ·) (begins_of_begin hy).todo_eq, tasks.append rfl⟩

/-- Both finish the same command, and let the same objects go. -/
theorem accords_finish (h : m.Level b m') (label : Json) (held : List Object)
    (nested : Bool) :
    Accords b m m' (m.finish label held nested)
      (m'.finish label held nested) := by
  have htodo (n : Machine) : (held.foldl Machine.release n).todo = n.todo := by
    rw [(edits_foldl_release n 0 fun o (ho : o ∈ held) => ho).2]
  cases nested with
  | false =>
    exact accords_of_world (Level.foldl_release held h).world (htodo m)
      (htodo m')
  | true =>
    have htold : (m.tell (.finished label m.reply)).Level b
        (m'.tell (.finished label m'.reply)) := h.of_world (h.world.tell _ _)
    exact accords_of_world (Level.foldl_release held htold).world (htodo _)
      (htodo _)

/-- A listener other than that of the bridge is called in both. -/
theorem accords_call {l : Listener} (h : m.Level b m') (other : l ≠ b.listener)
    (rest : List Listener) (event : Event) :
    Accords b m m' ((m.push [.deliver rest event]).call l event)
      ((m'.push [.deliver rest event]).call l event) := by
  have hspares (n : Machine) : (n.push [.deliver rest event]).Spares b
      ((n.push [.deliver rest event]).call l event) :=
    spares_call fun hl => absurd hl other
  obtain ⟨world, pushed, htodo, hpushed⟩ := hspares m
  obtain ⟨world', pushed', htodo', hpushed'⟩ := hspares m'
  refine ⟨(world.symm.trans h.world).trans world',
    pushed ++ [.deliver rest event], pushed' ++ [.deliver rest event],
    by simp [htodo], by simp [htodo'], ?_⟩
  exact ⟨pushed, pushed', _, _, rfl, rfl,
    fun t ht => (hpushed t ht).congr world,
    fun t ht => (hpushed' t ht).congr (h.world.symm.trans world), rfl⟩

/-- The origin of a change, if it is alive. -/
def livingOrigin (m : Machine) (c : ContextChange) : Option (Ref .context) :=
  c.origin?.filter fun origin => m.isAlive (.context origin)

/-- What a task is about to give to a query bridge. -/
def given? (m : Machine) (q : Ref .queryBridge) : Task → Option Given
  | .deliver (.queryBridge d :: _) (.change c) =>
    if d = q ∧ c.affects (m.world.queryBridges.get q).entity ∧
        m.isRooted (.queryBridge q) then
      some (.origin (m.livingOrigin c))
    else none
  | .receive c _ (.bridge d _) =>
    if d = q then some (.failure (m.world.contexts.get c).failure?) else none
  | _ => none

/-- The listener of the bridge is called in both. -/
theorem accords_call_own (h : m.Level b m') (rest : List Listener)
    {event : Event} (concerns : m.world.concerns b event)
    (given : ∀ q, b = .query q →
      m'.given? q (.deliver (b.listener :: rest) event) =
        m.given? q (.deliver (b.listener :: rest) event)) :
    Accords b m m' ((m.push [.deliver rest event]).call b.listener event)
      ((m'.push [.deliver rest event]).call b.listener event) := by
  have hconcerns : (m.push [.deliver rest event]).world.concerns b event :=
    concerns
  have hconcerns' : (m'.push [.deliver rest event]).world.concerns b event :=
    (h.world.concerns event).trans concerns
  have hrooted : (m'.push [.deliver rest event]).isRooted b.object =
    (m.push [.deliver rest event]).isRooted b.object := h.isRooted b.object
  cases b with
  | key r =>
    cases event with
    | value | change => cases concerns
    | key key =>
      rw [Bridge.object] at hrooted
      rw [call_keyBridge hconcerns, call_keyBridge hconcerns', hrooted]
      split
      · exact accords_push [_, _] h.world rfl rfl
      · exact accords_push [_] h.world rfl rfl
  | query q =>
    cases event with
    | value | key => cases concerns
    | change c =>
      have hlive (n : Machine) : (c.origin?.filter fun origin =>
          (n.push [.deliver rest (.change c)]).isAlive (.context origin)) =
            n.livingOrigin c := rfl
      rw [Bridge.object] at hrooted
      rw [call_queryBridge hconcerns, call_queryBridge hconcerns', hlive, hlive,
        hrooted]
      split
      · next alive =>
        have alive : m.isRooted (.queryBridge q) := alive
        have hrooted : m'.isRooted (.queryBridge q) =
          m.isRooted (.queryBridge q) := hrooted
        have haffects : c.affects (m.world.queryBridges.get q).entity :=
          concerns
        have haffects' : c.affects (m'.world.queryBridges.get q).entity :=
          hconcerns'
        have horigin : m'.livingOrigin c = m.livingOrigin c := by
          simpa [given?, Bridge.listener, haffects, haffects', hrooted, alive]
            using given q rfl
        rw [horigin]
        cases m.livingOrigin c with
        | none => exact accords_push [_, _] h.world rfl rfl
        | some origin =>
          exact accords_push [_, _] (h.world.adopt_own origin) rfl rfl
      · exact accords_push [_] h.world rfl rfl

/-- A change is announced in both to the same listeners. -/
theorem accords_write (h : m.Level b m') (s : Ref .store) (key : String)
    (value : Option StoreValue) :
    Accords b m m' (m.write s key value) (m'.write s key value) := by
  have hchanges := h.world.changes s
  have hwritten := h.world.writeValue s key value
  obtain ⟨v, todo, r, rfl⟩ := h.exists_vary
  unfold write
  rw [hchanges]
  exact accords_push [_] (hwritten.tell _ _) rfl rfl

theorem accords_mutate (h : m.Level b m') (owner : Owner) (property : String)
    (i : Invalidation) :
    Accords b m m' (m.mutate owner property i)
      (m'.mutate owner property i) := by
  obtain ⟨v, todo, r, rfl⟩ := h.exists_vary
  cases owner with
  | registrar r => exact accords_push _ h.world rfl rfl
  | hook x => exact accords_push _ (h.world.tell _ _) rfl rfl

theorem accords_invalidate (h : m.Level b m') (i : Invalidation) :
    Accords b m m' (m.invalidate i) (m'.invalidate i) := by
  cases i with
  | bridge d => exact accords_of_world (h.world.invalidateBridge d) rfl rfl
  | client during => exact accords_push _ (h.world.tell _ _) rfl rfl

theorem accords_relay (h : m.Level b m') :
    Accords b m m' (m.relay b) (m'.relay b) := by
  unfold relay
  rw [h.liveBinding, h.world.relayOf]
  exact accords_push _ (h.world.tell _ _) rfl rfl

theorem accords_enclose (h : m.Level b m') (envelope : Envelope)
    (p : Option (Ref .presenter)) (body : Body) :
    Accords b m m' (m.enclose envelope p body)
      (m'.enclose envelope p body) := by
  obtain ⟨v, todo, r, rfl⟩ := h.exists_vary
  rcases envelope with _ | scope
  · exact accords_push _ h.world rfl rfl
  · have hinstalled : (m.world.vary v).installedPresenter =
      m.world.installedPresenter := rfl
    simp only [enclose, hinstalled]
    cases p.or m.world.installedPresenter with
    | none => exact accords_push _ (h.world.tell _ _) rfl rfl
    | some shown => exact accords_push _ (h.world.tell _ _) rfl rfl

theorem accords_run (h : m.Level b m') (body : Body) :
    Accords b m m' (m.runBody body) (m'.runBody body) := by
  rcases body with ⟨_ | binding, d⟩ | commands
  · exact accords_push _ h.world rfl rfl
  · exact accords_push _ h.world rfl rfl
  · exact accords_push _ (h.world.tell _ _) rfl rfl

theorem accords_readCache (h : m.Level b m') (c : Ref .cache)
    (outcome : Except Json Json) (during : List Command) (mayFail : Bool) :
    Accords b m m' (m.readCache c outcome during mayFail)
      (m'.readCache c outcome during mayFail) := by
  obtain ⟨v, todo, r, rfl⟩ := h.exists_vary
  have hcaches : (m.world.vary v).caches = m.world.caches := rfl
  simp only [readCache, hcaches]
  cases (m.world.caches.get c).value with
  | none => exact accords_push _ ((h.world.tell _ _).tell _ _) rfl rfl
  | some value => exact accords_of_world (h.world.tell _ _) rfl rfl

theorem accords_settleCache (h : m.Level b m') (c : Ref .cache)
    (began : UInt64) (outcome : Except Json Json) (mayFail : Bool) :
    Accords b m m' (m.settleCache c began outcome mayFail)
      (m'.settleCache c began outcome mayFail) := by
  obtain ⟨v, todo, r, rfl⟩ := h.exists_vary
  cases outcome with
  | error e => exact accords_of_world h.world rfl rfl
  | ok value => exact accords_of_world { h.world with same := rfl } rfl rfl

/-- A read of a key bridge in a given state, with a given value stored. -/
theorem readKey_of_get {r : Ref .keyBridge} {k : KeyBridge}
    (hk : m.world.keyBridges.get r = k) :
    m.readKey r =
      match k.cache.value with
      | some value => (m.tell (.cacheHit (.bridge (.key r)))).answer
          (.value k.kind value)
      | none => ((m.tell (.cacheMissed (.bridge (.key r)))).modifyWorld
          fun w => w.noteRead k.store k.key).push
            (readTasks m.world k.store ++ [.settleKey r k.cache.generation
              (m.world.backing (.key r))]) := by
  subst hk
  rfl

theorem accords_readKey {r : Ref .keyBridge} (h : m.Level (.key r) m') :
    Accords (.key r) m m' (m.readKey r) (m'.readKey r) := by
  rw [readKey_of_get rfl, readKey_of_get ((h.world.keyBridges r).own rfl),
    h.world.backing, h.world.readTasks]
  split
  · exact accords_of_world (h.world.tell _ _) rfl rfl
  · exact accords_push _ ((h.world.tell _ _).tell _ _) rfl rfl

theorem settleKey_of_get {r : Ref .keyBridge} {k : KeyBridge}
    (hk : m.world.keyBridges.get r = k) (began : UInt64)
    (stored : Option StoreValue) :
    m.settleKey r began stored =
      ((match k.fault? stored with
        | some e => m.tell (.defaultUsed r k.key e)
        | none => m).modifyWorld fun w =>
          let settled := w.keyBridges.set r (k.settle began stored)
          { w with keyBridges := settled }.noteSettled (.bridge (.key r))
            (k.cache.generation = began)).answer
        (.value k.kind (k.valueOf stored)) := by
  subst hk
  rfl

theorem accords_settleKey {r : Ref .keyBridge} (h : m.Level (.key r) m')
    (began : UInt64) (stored : Option StoreValue) :
    Accords (.key r) m m' (m.settleKey r began stored)
      (m'.settleKey r began stored) := by
  have hown := (h.world.keyBridges r).own rfl
  have hsettled := h.world.modify_keyBridge r
    (f := fun k => k.settle began stored) fun _ => rfl
  simp only [Pool.modify, hown] at hsettled
  rw [settleKey_of_get rfl, settleKey_of_get hown]
  split
  · exact accords_of_world (hsettled.journal _ _) rfl rfl
  · exact accords_of_world (hsettled.journal _ _) rfl rfl

theorem accords_readQuery {q : Ref .queryBridge} (h : m.Level (.query q) m') :
    Accords (.query q) m m' (m.readQuery q) (m'.readQuery q) := by
  have hown := (h.world.queryBridges q).own rfl
  have hresolved : m'.world.resolvedContext q = m.world.resolvedContext q := by
    obtain ⟨v, todo, r, rfl⟩ := h.exists_vary
    exact congrArg (fun x => x.context.or m.world.defaultContext) hown
  simp only [readQuery, hown, hresolved]
  split
  · exact accords_of_world (h.world.tell _ _) rfl rfl
  · exact accords_push _ (h.world.tell _ _) rfl rfl

theorem accords_askRecords (h : m.Level b m') (c : Ref .context)
    (entity : String) (purpose : FetchFor) :
    Accords b m m' (m.askRecords c entity purpose)
      (m'.askRecords c entity purpose) := by
  have hmemory : (m'.world.contexts.get c).memory =
    (m.world.contexts.get c).memory := h.world.memory c
  have hfires : ((m'.world.contexts.get c).supervision.map fun s =>
      Task.fire s.onFetch) = (m.world.contexts.get c).supervision.map fun s =>
        Task.fire s.onFetch := by
    have hcore := congrArg (fun x : Context => x.supervision.map fun s =>
      Task.fire s.onFetch) (h.world.context c)
    simpa [Context.core, Function.comp_def] using hcore
  simp only [askRecords, hmemory, hfires]
  exact accords_push _ (h.world.tell _ _) rfl rfl

/-- The context fails in both, or in neither. -/
theorem accords_receive (h : m.Level b m') {c : Ref .context}
    (failure : (m'.world.contexts.get c).failure? =
      (m.world.contexts.get c).failure?) (records : List Record)
    (purpose : FetchFor) :
    Accords b m m' (m.receive c records purpose)
      (m'.receive c records purpose) := by
  have hfetched (n : Machine) := World.Agrees.afterFetch b n.world c
  have hworld := ((hfetched m).symm.trans h.world).trans (hfetched m')
  simp only [receive, Context.outcome_eq, failure]
  cases purpose with
  | bridge q began => exact accords_push _ hworld rfl rfl
  | client rowType descriptor =>
    simp only [conclude]
    split <;> exact accords_of_world hworld rfl rfl

theorem accords_settleQuery {q : Ref .queryBridge} (h : m.Level (.query q) m')
    (began : UInt64) (outcome : Except BridgeError (List Record)) :
    Accords (.query q) m m' (m.settleQuery q began outcome)
      (m'.settleQuery q began outcome) := by
  have hown := (h.world.queryBridges q).own rfl
  have hsettled (rows : List Json) := h.world.modify_queryBridge q
    (f := fun k => k.settle began rows) fun _ => rfl
  have hwarned := h.world.modify_queryBridge q (f := QueryBridge.warn)
    fun _ => rfl
  simp only [Pool.modify, hown] at hsettled hwarned
  simp only [settleQuery, missContext, hown]
  split
  · next rows _ => exact accords_of_world ((hsettled rows).tell _ _) rfl rfl
  · split
    · split
      · exact accords_of_world h.world rfl rfl
      · exact accords_of_world (hwarned.tell _ _) rfl rfl
    · exact accords_of_world (h.world.tell _ _) rfl rfl

theorem accords_askHistory (h : m.Level b m') (t : Ref .tracker)
    (stored stored' : Option StoreValue) :
    Accords b m m' (m.askHistory t stored) (m'.askHistory t stored') := by
  obtain ⟨told, -, htold⟩ := lastToken_eq (m := m) t stored
  obtain ⟨told', -, htold'⟩ := lastToken_eq (m := m') t stored'
  obtain ⟨v, todo, r, rfl⟩ := h.exists_vary
  simp only [askHistory, htold, htold']
  exact accords_push [_, _] (h.world.journal _ _) rfl rfl

theorem accords_takeBatch (h : m.Level b m') (t : Ref .tracker) :
    Accords b m m' (m.takeBatch t) (m'.takeBatch t) := by
  obtain ⟨v, todo, r, rfl⟩ := h.exists_vary
  have htrackers : (m.world.vary v).trackers = m.world.trackers := rfl
  simp only [takeBatch, htrackers]
  split
  · exact accords_of_world { h.world with same := rfl } rfl rfl
  · exact accords_push _ { h.world with same := rfl } rfl rfl

theorem accords_announceRemote (h : m.Level b m') (t : Ref .tracker)
    (transactions : ℕ) (entities : EntitySet) :
    Accords b m m' (m.announceRemote t transactions entities)
      (m'.announceRemote t transactions entities) := by
  obtain ⟨v, todo, r, rfl⟩ := h.exists_vary
  simp only [announceRemote]
  split
  · exact accords_of_world h.world rfl rfl
  · exact accords_push [_, _] ((h.world.tell _ _).tell _ _) rfl rfl

/-- The next announcement to the bridge, or to a listener before it. -/
theorem accords_deliver (h : m.Level b m') {audience : List Listener}
    {event : Event} (busy : ¬ (Task.deliver audience event).Inert m.world b)
    (given : ∀ q, b = .query q → m'.given? q (.deliver audience event) =
      m.given? q (.deliver audience event)) :
    Accords b m m' (m.doTask (.deliver audience event))
      (m'.doTask (.deliver audience event)) := by
  cases audience with
  | nil => exact accords_of_world h.world rfl rfl
  | cons l rest =>
    by_cases hl : l = b.listener
    · subst hl
      have hconcerns : m.world.concerns b event := by
        by_contra hnot
        exact busy fun _ => Bool.eq_false_iff.mpr hnot
      exact accords_call_own h rest hconcerns given
    · exact accords_call h hl rest event

/-- Whatever is not inert is done alike. -/
theorem accords_doTask (h : m.Level b m') (made : m.world.Has b.object)
    {t t' : Task} (plain : t'.plain = t.plain) (busy : ¬ t.Inert m.world b)
    (given : ∀ q, b = .query q → m'.given? q t' = m.given? q t) :
    Accords b m m' (m.doTask t) (m'.doTask t') := by
  rcases Task.eq_or_askHistory plain with rfl |
    ⟨r, stored, stored', rfl, rfl⟩
  · -- A task that acts for a bridge acts for this one.
    cases t' with
    | perform c nested => exact accords_perform h made c nested
    | finish label held nested => exact accords_finish h label held nested
    | deliver audience event => exact accords_deliver h busy given
    | write s key value => exact accords_write h s key value
    | mutate owner property i => exact accords_mutate h owner property i
    | invalidate i => exact accords_invalidate h i
    | relay d =>
      obtain rfl : d = b := by simpa [Task.Inert, Task.serves?] using busy
      exact accords_relay h
    | enclose envelope p body => exact accords_enclose h envelope p body
    | run body => exact accords_run h body
    | readCache c outcome during mayFail =>
      exact accords_readCache h c outcome during mayFail
    | settleCache c began outcome mayFail =>
      exact accords_settleCache h c began outcome mayFail
    | readKey r =>
      obtain rfl : .key r = b := by simpa [Task.Inert, Task.serves?] using busy
      exact accords_readKey h
    | settleKey r began stored =>
      obtain rfl : .key r = b := by simpa [Task.Inert, Task.serves?] using busy
      exact accords_settleKey h began stored
    | readQuery q =>
      obtain rfl : .query q = b := by
        simpa [Task.Inert, Task.serves?] using busy
      exact accords_readQuery h
    | askRecords c entity purpose => exact accords_askRecords h c entity purpose
    | receive c records purpose =>
      cases purpose with
      | client => exact absurd (by simp [Task.Inert, Task.serves?]) busy
      | bridge q began =>
        obtain rfl : .query q = b := by
          simpa [Task.Inert, Task.serves?] using busy
        have hfailure := given q rfl
        simp only [given?, if_true, Option.some.injEq, Given.failure.injEq]
          at hfailure
        exact accords_receive h hfailure records _
    | settleQuery q began outcome =>
      obtain rfl : .query q = b := by
        simpa [Task.Inert, Task.serves?] using busy
      exact accords_settleQuery h began outcome
    | askHistory r stored => exact accords_askHistory h r stored stored
    | takeBatch r => exact accords_takeBatch h r
    | announceRemote r transactions entities =>
      exact accords_announceRemote h r transactions entities
    | _ => exact absurd (by simp [Task.Inert, Task.serves?]) busy
  · exact accords_askHistory h r stored stored'

/-- What a task that acts for the bridge answers. -/
theorem reply_doTask (h : m.Level b m') (reply : m'.reply = m.reply) {t : Task}
    (serves : t.serves? = some b) :
    (m'.doTask t).reply = (m.doTask t).reply := by
  cases t with
  | mutate owner property i =>
    obtain ⟨v, todo, r, rfl⟩ := h.exists_vary
    cases owner <;> exact reply
  | invalidate i => cases i <;> exact reply
  | relay d => exact reply
  | enclose envelope p body =>
    simp only [doTask, enclose]
    split
    · exact reply
    · split <;> split <;> exact reply
  | run body => rcases body with ⟨_ | binding, d⟩ | commands <;> exact reply
  | readKey r =>
    obtain rfl : .key r = b := by simpa [Task.serves?] using serves
    simp only [doTask]
    rw [readKey_of_get ((h.world.keyBridges r).own rfl), readKey_of_get rfl]
    split
    · rfl
    · exact reply
  | settleKey r began stored =>
    obtain rfl : .key r = b := by simpa [Task.serves?] using serves
    simp only [doTask]
    rw [settleKey_of_get ((h.world.keyBridges r).own rfl), settleKey_of_get rfl]
    rfl
  | readQuery q =>
    obtain rfl : .query q = b := by simpa [Task.serves?] using serves
    simp only [doTask, readQuery, (h.world.queryBridges q).own rfl]
    split
    · rfl
    · exact reply
  | askRecords c entity purpose => exact reply
  | receive c records purpose =>
    cases purpose with
    | bridge q began => exact reply
    | client => cases serves
  | settleQuery q began outcome =>
    obtain rfl : .query q = b := by simpa [Task.serves?] using serves
    simp only [doTask, settleQuery, (h.world.queryBridges q).own rfl]
    split <;> rfl
  | _ => cases serves

end Machine
end LiveProperty
