import LiveProperty.Proofs.Machine.Bystanders

/-!
# The same done in two worlds that agree on a bridge

What a client asks for in both of two worlds that agree on a bridge leaves
worlds that agree on it, and leads to the same tasks, but for inert ones that
come first: other bridges may hold other values, have other bindings and
contexts, or find stored what the bridge does not see.
-/

namespace LiveProperty

/-- A task without the token that a source of history is asked with. -/
def Task.plain : Task → Task
  | .askHistory t _ => .askHistory t none
  | t => t

/-- What a client's value is to a key bridge. -/
def KeyBridge.spell (k : KeyBridge) :
    Option ((kind : Storable) → Option kind.Value) →
      Option (Except BridgeError (Option StoreValue))
  | none => some (.ok none)
  | some spelled => (spelled k.kind).map fun v => k.kind.encode v

/-- Lists of tasks that lead to the same for a bridge: they differ in inert
tasks that come first, and in the tokens that sources of history are asked
with. -/
def Kin (w : World) (b : Bridge) (tasks tasks' : List Task) : Prop :=
  ∃ front front' rest rest', tasks = front ++ rest ∧ tasks' = front' ++ rest' ∧
    (∀ t ∈ front, t.Inert w b) ∧ (∀ t ∈ front', t.Inert w b) ∧
    rest'.map Task.plain = rest.map Task.plain

section

variable {w : World} {b : Bridge} {tasks tasks' : List Task}

theorem kin_refl (w : World) (b : Bridge) (tasks : List Task) :
    Kin w b tasks tasks :=
  ⟨[], [], tasks, tasks, rfl, rfl, by simp, by simp, rfl⟩

theorem kin_of_inert (inert : ∀ t ∈ tasks, t.Inert w b)
    (inert' : ∀ t ∈ tasks', t.Inert w b) : Kin w b tasks tasks' :=
  ⟨tasks, tasks', [], [], by simp, by simp, inert, inert', rfl⟩

theorem kin_of_map_eq (h : tasks'.map Task.plain = tasks.map Task.plain) :
    Kin w b tasks tasks' :=
  ⟨[], [], tasks, tasks', rfl, rfl, by simp, by simp, h⟩

theorem Kin.append (h : Kin w b tasks tasks') {more more' : List Task}
    (same : more'.map Task.plain = more.map Task.plain) :
    Kin w b (tasks ++ more) (tasks' ++ more') := by
  obtain ⟨front, front', rest, rest', rfl, rfl, hfront, hfront', hrest⟩ := h
  exact ⟨front, front', rest ++ more, rest' ++ more', by simp, by simp, hfront,
    hfront', by simp [hrest, same]⟩

theorem Kin.congr {w' : World} (h : Kin w b tasks tasks')
    (agrees : w.Agrees b w') : Kin w' b tasks tasks' := by
  obtain ⟨front, front', rest, rest', htasks, htasks', hfront, hfront',
    hrest⟩ := h
  exact ⟨front, front', rest, rest', htasks, htasks',
    fun t ht => (hfront t ht).congr agrees,
    fun t ht => (hfront' t ht).congr agrees, hrest⟩

end

namespace Machine

variable {m m' : Machine} {b : Bridge}

/-- Machines whose worlds agree on a bridge, and in which commands and calls
hold and keep the same objects. -/
structure Level (b : Bridge) (m m' : Machine) : Prop where
  world : m.world.Agrees b m'.world
  held : ∀ o, (m'.todo.any fun t => t.held.contains o) =
    m.todo.any fun t => t.held.contains o
  kept : ∀ o, (m'.todo.any fun t => t.kept.contains o) =
    m.todo.any fun t => t.kept.contains o

namespace Level

theorem exists_vary (h : m.Level b m') :
    ∃ v todo r, m' = ⟨m.world.vary v, todo, r⟩ := by
  obtain ⟨v, hv⟩ := h.world.exists_vary
  exact ⟨v, m'.todo, m'.reply, by rw [← hv]⟩

theorem isHeld (h : m.Level b m') (o : Object) : m'.isHeld o = m.isHeld o := by
  rw [Machine.isHeld, h.world.isNamed, h.held, Machine.isHeld]

theorem isRooted (h : m.Level b m') (o : Object) :
    m'.isRooted o = m.isRooted o := by
  rw [Machine.isRooted, h.isHeld, h.kept, Machine.isRooted]

theorem isAlive_owner (h : m.Level b m') (o : Owner) :
    m'.isAlive o.object = m.isAlive o.object := by
  obtain ⟨v, todo, r, rfl⟩ := h.exists_vary
  cases o with
  | registrar r =>
    simp only [Owner.object, isAlive, isForwardedTo, h.isRooted]
    rfl
  | hook x => exact h.isRooted _

theorem liveBinding (h : m.Level b m') :
    m'.liveBinding? b = m.liveBinding? b := by
  simp only [liveBinding?, h.world.relayOf, h.isAlive_owner]

theorem accessTasks (h : m.Level b m') :
    m'.accessTasks b = m.accessTasks b := by
  rw [Machine.accessTasks, h.liveBinding, Machine.accessTasks]

theorem of_world (h : m.Level b m') {x x' : World} (world : x.Agrees b x') :
    Level b { m with world := x } { m' with world := x' } :=
  ⟨world, h.held, h.kept⟩

theorem release (h : m.Level b m') (o : Object) :
    (m.release o).Level b (m'.release o) := by
  rw [Machine.release, Machine.release, h.isHeld]
  split
  · exact h
  · exact h.of_world (h.world.letGo o)

theorem foldl_release (held : List Object) (h : m.Level b m') :
    (held.foldl Machine.release m).Level b (held.foldl Machine.release m') := by
  induction held generalizing m m' with
  | nil => exact h
  | cons o held ih => exact ih (h.release o)

theorem releaseNamed (h : m.Level b m') (n : Option Named) :
    (m.releaseNamed n).Level b (m'.releaseNamed n) := by
  rcases n with _ | o | _ | _ | _
  · exact h
  · exact h.release o
  · exact h
  · exact h
  · exact h

theorem lookup (h : m.Level b m') (name : String) :
    m'.world.lookup? name = m.world.lookup? name := by
  rw [World.lookup?, h.world.names, World.lookup?]

theorem rename (h : m.Level b m') (name : String) (n : Named) :
    (m.rename name n).Level b (m'.rename name n) := by
  rw [Machine.rename, Machine.rename, h.lookup]
  exact (h.of_world (h.world.bindName name n)).releaseNamed _

theorem forget (h : m.Level b m') (name : String) :
    (m.forget name).Level b (m'.forget name) := by
  rw [Machine.forget, Machine.forget, h.lookup]
  exact (h.of_world (h.world.unbindName name)).releaseNamed _

end Level

/-! ## Commands -/

/-- How a command begins in both: it is refused, or it leaves worlds that
agree on the bridge and leads to the same for it. -/
inductive Parallel (b : Bridge) :
    Except Refusal Begun → Except Refusal Begun → Prop
  | refused (r : Refusal) : Parallel b (.error r) (.error r)
  | begun {x y : Begun} (world : x.machine.world.Agrees b y.machine.world)
      (held : y.held = x.held)
      (tasks : Kin x.machine.world b x.tasks y.tasks) :
      Parallel b (.ok x) (.ok y)

theorem parallel_bind {α : Type} (x : Except Refusal α)
    {f g : α → Except Refusal Begun} (h : ∀ a, Parallel b (f a) (g a)) :
    Parallel b (x >>= f) (x >>= g) := by
  cases x with
  | error r => exact .refused r
  | ok a => exact h a

/-- The same tasks are left to be done. -/
theorem parallel_same {x y : Machine} (world : x.world.Agrees b y.world)
    (held : List Object) (tasks : List Task) :
    Parallel b (.ok ⟨x, held, tasks⟩) (.ok ⟨y, held, tasks⟩) :=
  .begun world rfl (kin_refl _ b tasks)

/-- Only the answers may differ. -/
theorem parallel_answering {x y : Machine} (world : x.world.Agrees b y.world)
    (r r' : Reply) : Parallel b (.ok (x.answering r)) (.ok (y.answering r')) :=
  .begun world rfl (kin_of_inert (by simp [answering]) (by simp [answering]))

theorem parallel_making (h : m.Level b m') (name : String) (o : Object)
    {f g : World → World} (world : (f m.world).Agrees b (g m'.world)) :
    Parallel b (.ok (m.making name o f)) (.ok (m'.making name o g)) :=
  parallel_answering ((h.of_world world).rename name (.object o)).world _ _

/-- A bridge is read: another one is none of the bridge's business. -/
theorem parallel_read (h : m.Level b m') (d : Bridge) {t : Task}
    (held : List Object) (inert : d ≠ b → t.Inert m.world b) :
    Parallel b (.ok ⟨m, held, m.accessTasks d ++ [t]⟩)
      (.ok ⟨m', held, m'.accessTasks d ++ [t]⟩) := by
  by_cases hd : d = b
  · subst hd
    rw [h.accessTasks]
    exact parallel_same h.world held _
  · have hinert : ∀ x ∈ [t], x.Inert m.world b := by simpa using inert hd
    refine .begun h.world rfl (kin_of_inert ?_ ?_)
    · exact List.forall_mem_append.mpr ⟨inert_accessTasks d, hinert⟩
    · exact List.forall_mem_append.mpr ⟨inert_accessTasks d, hinert⟩

theorem parallel_changing {f g : World → World}
    (world : (f m.world).Agrees b (g m'.world)) :
    Parallel b (.ok (m.changing f)) (.ok (m'.changing g)) :=
  .begun world rfl (kin_refl _ b _)

theorem parallel_beginNotice (h : m.Level b m') (a : NoticeAction) :
    Parallel b (m.beginNotice a) (m'.beginNotice a) := by
  have hsource := h.world.source
  obtain ⟨v, todo, r, rfl⟩ := h.exists_vary
  have hworld := h.world
  cases a with
  | newCache name =>
    exact parallel_making h name _ { hworld with same := rfl }
  | newNotifier name =>
    exact parallel_making h name _ { hworld with same := rfl }
  | readCache | tryCache =>
    exact parallel_bind _ fun c => parallel_same hworld _ _
  | invalidateCache cache =>
    exact parallel_bind _ fun c =>
      parallel_changing { hworld with same := rfl }
  | cacheState cache =>
    exact parallel_bind _ fun c => parallel_answering hworld _ _
  | announce notifier event =>
    exact parallel_bind _ fun n => parallel_same (hworld.tell _ _) _ _
  | unsubscribe notifier subscription =>
    exact parallel_bind _ fun n => parallel_bind _ fun s =>
      parallel_changing { hworld with same := rfl }
  | subscribe name source script =>
    simp only [beginNotice, hsource]
    refine parallel_bind _ fun n => ?_
    exact parallel_answering ((h.of_world ((hworld.addPlan script).subscribe n.1
      (.client name m.world.plans.fresh n.2))).rename name _).world _ _
  | freshSubscriber =>
    refine parallel_answering ?_ _ _
    exact { hworld with same := rfl }
  | countListeners source =>
    simp only [beginNotice, hsource]
    exact parallel_bind _ fun n => parallel_answering hworld _ _

theorem parallel_makeKeyBridge (h : m.Level b m') (made : m.world.Has b.object)
    (name key : String) (kind : Storable) (initial : kind.Value)
    (store : Ref .store) (envelope : Envelope) (p : Option (Ref .presenter)) :
    Parallel b (.ok (m.makeKeyBridge name key kind initial store envelope p))
      (.ok (m'.makeKeyBridge name key kind initial store envelope p)) := by
  have hchanges := h.world.changes store
  obtain ⟨v, todo, r, rfl⟩ := h.exists_vary
  unfold makeKeyBridge
  rw [hchanges]
  refine parallel_making h name _ ?_
  exact (h.world.subscribe _ _).addKeyBridge (by cases b <;> exact made) _

/-- What a write through a key bridge does, given what it writes: nothing that
its type can spell, something that it cannot encode, or a stored value. -/
def writingSpelled (m : Machine) (r : Ref .keyBridge) :
    Option (Except BridgeError (Option StoreValue)) → Except Refusal Begun
  | none => .error .badValue
  | some (.error e) => .ok (m.changing fun w =>
      w.tell (.writeRefused r (m.world.keyBridges.get r).key e))
  | some (.ok value) => .ok ⟨m, [.keyBridge r],
      [.write (m.world.keyBridges.get r).store (m.world.keyBridges.get r).key
        value, .answer .nothing]⟩

theorem beginStore_setKey (m : Machine) (bridge : String)
    (value : Option ((kind : Storable) → Option kind.Value)) :
    m.beginStore (.setKey bridge value) =
      needed (m.world.keyBridge? bridge) >>= fun r =>
        m.writingSpelled r ((m.world.keyBridges.get r).spell value) := by
  refine congrArg (needed (m.world.keyBridge? bridge) >>= ·)
    (funext fun r => ?_)
  cases value with
  | none => rfl
  | some spelled =>
    simp only [KeyBridge.spell]
    cases spelled (m.world.keyBridges.get r).kind with
    | none => rfl
    | some x =>
      simp only [writingKey, Option.map_some]
      cases (m.world.keyBridges.get r).kind.encode x <;> rfl

/-- A write through a bridge of what both worlds spell alike. -/
theorem parallel_setKey (h : m.Level b m') (r : Ref .keyBridge)
    (value : Option ((kind : Storable) → Option kind.Value)) :
    Parallel b (m.writingSpelled r ((m.world.keyBridges.get r).spell value))
      (m'.writingSpelled r ((m'.world.keyBridges.get r).spell value)) := by
  have hcore := (h.world.keyBridges r).core
  have hspell : (m'.world.keyBridges.get r).spell value =
      (m.world.keyBridges.get r).spell value := by
    have := congrArg (fun k => k.spell value) hcore
    exact this
  have hstore : (m'.world.keyBridges.get r).store =
      (m.world.keyBridges.get r).store := by
    have := congrArg KeyBridge.store hcore
    exact this
  have hkey : (m'.world.keyBridges.get r).key =
      (m.world.keyBridges.get r).key := by
    have := congrArg KeyBridge.key hcore
    exact this
  rw [hspell]
  rcases (m.world.keyBridges.get r).spell value with _ | e | stored
  · exact .refused _
  · exact parallel_changing (h.world.tell _ _)
  · simp only [writingSpelled, hstore, hkey]
    exact parallel_same h.world _ _

theorem parallel_beginStore (h : m.Level b m') (made : m.world.Has b.object)
    (a : StoreAction) : Parallel b (m.beginStore a) (m'.beginStore a) := by
  have hreadTasks := h.world.readTasks
  obtain ⟨v, todo, x, rfl⟩ := h.exists_vary
  have hworld := h.world
  cases a with
  | newStore name suite onRead =>
    exact parallel_making h name _ ((hworld.addPlan onRead).addStore _ _ _)
  | writeStore store key value =>
    exact parallel_bind _ fun s => parallel_same hworld _ _
  | peekStore | storeInfo =>
    exact parallel_bind _ fun s => parallel_answering hworld _ _
  | setDefaultStore store =>
    exact parallel_bind _ fun s => parallel_changing { hworld with same := rfl }
  | resetDefaultStore =>
    exact parallel_changing
      { hworld.addStore none (some standardSuite) none with same := rfl }
  | readDefaultStore key =>
    refine .begun (hworld.tell _ _) rfl (kin_of_inert ?_ ?_) <;>
      rw [List.forall_mem_append, List.forall_mem_singleton]
    · exact ⟨inert_readTasks _, Task.inert_answer _⟩
    · exact ⟨inert_readTasks _, Task.inert_answer _⟩
  | writeDefaultStore key value => exact parallel_same hworld _ _
  | countDefaultStoreListeners => exact parallel_answering hworld _ _
  | newKeyBridge name key kind initial store envelope presenter =>
    refine parallel_bind _ fun s => parallel_bind _ fun p => ?_
    cases s <;> exact parallel_makeKeyBridge h made ..
  | getKey bridge =>
    refine parallel_bind _ fun r => parallel_read h (.key r) _ ?_
    simp [Task.Inert, Task.serves?]
  | setKey bridge value =>
    rw [beginStore_setKey, beginStore_setKey]
    exact parallel_bind _ fun r => parallel_setKey h r value
  | keyBridgeInfo bridge =>
    exact parallel_bind _ fun r => parallel_answering hworld _ _
  | observeKey bridge owner property =>
    exact parallel_bind _ fun r => parallel_bind _ fun o =>
      parallel_changing (hworld.modify_keyBridge r fun _ => rfl)

theorem parallel_beginObservation (h : m.Level b m') (a : ObservationAction) :
    Parallel b (m.beginObservation a) (m'.beginObservation a) := by
  obtain ⟨v, todo, x, rfl⟩ := h.exists_vary
  have hworld := h.world
  cases a with
  | newRegistrar name | newPresenter name =>
    exact parallel_making h name _ { hworld with same := rfl }
  | access | mutate | runEnvelope =>
    exact parallel_bind _ fun _ => parallel_same hworld _ _
  | observe registrar label apply onChange =>
    refine parallel_bind _ fun r => parallel_same ?_ _ _
    exact { hworld with same := rfl }
  | registrarInfo | bindingInfo =>
    exact parallel_bind _ fun _ => parallel_answering hworld _ _
  | newHook name =>
    exact parallel_bind _ fun forward =>
      parallel_making h name _ { hworld with same := rfl }
  | newBinding name owner property =>
    exact parallel_bind _ fun o =>
      parallel_answering (h.rename name _).world _ _
  | installPresenter presenter =>
    exact parallel_bind _ fun p => parallel_changing { hworld with same := rfl }
  | uninstallPresenter => exact parallel_changing { hworld with same := rfl }
  | presenterInstalled => exact parallel_answering hworld _ _

theorem parallel_writing (h : m.Level b m') (c : Ref .context)
    (rowType : RowType) (id : RowId) (kind : ChangeKind)
    (f : MemoryContext → MemoryContext) :
    Parallel b (.ok (m.writing c rowType id kind f))
      (.ok (m'.writing c rowType id kind f)) := by
  simp only [writing, h.world.memory]
  split
  · refine parallel_answering ?_ _ _
    exact (h.world.modifyMemory c f).tell _ _
  · exact parallel_answering h.world _ _

theorem parallel_saving (h : m.Level b m') (c : Ref .context) :
    Parallel b (.ok (m.saving c)) (.ok (m'.saving c)) := by
  have hchanges : (m'.world.contexts.get c).changes =
      (m.world.contexts.get c).changes := by
    have := congrArg Context.changes (h.world.context c)
    exact this
  simp only [saving, h.world.saveEvent, h.world.memory, hchanges]
  split
  · exact parallel_answering h.world _ _
  · have hsaved := (h.world.modifyMemory c MemoryContext.clearUnsaved).tell
    obtain ⟨v, todo, x, rfl⟩ := h.exists_vary
    exact parallel_same ((hsaved _ _).tell _ _) _ _

theorem parallel_beginContext (h : m.Level b m') (a : ContextAction) :
    Parallel b (m.beginContext a) (m'.beginContext a) := by
  have hmemory := h.world.memory
  obtain ⟨v, todo, x, rfl⟩ := h.exists_vary
  have hworld := h.world
  cases a with
  | newBus name => exact parallel_making h name _ { hworld with same := rfl }
  | announceChange bus change =>
    exact parallel_bind _ fun n => parallel_bind _ fun c =>
      parallel_same (hworld.tell _ _) _ _
  | newChange name change origin =>
    exact parallel_bind _ fun c => parallel_bind _ fun o =>
      parallel_answering (h.rename name _).world _ _
  | changeInfo | changeAffects | contextInfo =>
    exact parallel_bind _ fun c => parallel_answering hworld _ _
  | changeSame | getRow =>
    exact parallel_bind _ fun c => parallel_bind _ fun d =>
      parallel_answering hworld _ _
  | newContext name sort bus =>
    exact parallel_bind _ fun n =>
      parallel_making h name _ (hworld.addContext _)
  | newSupervisedContext name bus onFetch failures error =>
    exact parallel_bind _ fun n =>
      parallel_making h name _ ((hworld.addPlan onFetch).addContext _)
  | insertRow context rowType content name =>
    refine parallel_bind _ fun c => ?_
    have hwritten := hworld.modifyMemory c
      fun memory => memory.insert rowType content
    have hinserted := h.of_world (hwritten.tell
      (.rowWritten c ⟨.inserted, rowType.entity⟩ (m.world.memory c).freshRow)
      (.rowWritten c ⟨.inserted, rowType.entity⟩ (m.world.memory c).freshRow))
    simp only [hmemory]
    cases name with
    | none => exact parallel_answering hinserted.world _ _
    | some name => exact parallel_answering (hinserted.rename name _).world _ _
  | updateRow | deleteRow =>
    exact parallel_bind _ fun c => parallel_bind _ fun id =>
      parallel_writing h ..
  | saveContext context => exact parallel_bind _ fun c => parallel_saving h c
  | fetchRows context rowType descriptor =>
    exact parallel_bind _ fun c => parallel_same hworld _ _
  | setDefaultContext context =>
    exact parallel_bind _ fun c => parallel_changing { hworld with same := rfl }
  | clearDefaultContext => exact parallel_changing { hworld with same := rfl }
  | defaultContext => exact parallel_answering hworld _ _

/-- What is stored as a token may differ. -/
theorem parallel_readingToken (h : m.Level b m') (t : Ref .tracker)
    {next : Option StoreValue → Task}
    (tasks : ∀ read stored stored', (∀ x ∈ read, x.Inert m.world b) →
      Kin m.world b (read ++ [next stored]) (read ++ [next stored'])) :
    Parallel b (.ok (m.readingToken t next))
      (.ok (m'.readingToken t next)) := by
  have hreadTasks := h.world.readTasks
  obtain ⟨v, todo, x, rfl⟩ := h.exists_vary
  simp only [readingToken, hreadTasks]
  refine .begun (h.world.tell _ _) rfl (Kin.congr ?_ (agrees_tell b m.world _))
  exact tasks _ _ _ (inert_readTasks _)

theorem parallel_beginQuery (h : m.Level b m') (a : QueryAction) :
    Parallel b (m.beginQuery a) (m'.beginQuery a) := by
  obtain ⟨v, todo, x, rfl⟩ := h.exists_vary
  have hworld := h.world
  cases a with
  | newQueryBridge name rowType parts =>
    refine parallel_bind _ fun d => ?_
    split
    · exact parallel_making h name _
        ((hworld.subscribe _ _).addQueryBridge _)
    · exact parallel_answering hworld _ _
  | results bridge =>
    refine parallel_bind _ fun q => parallel_read h (.query q) _ ?_
    simp [Task.Inert, Task.serves?]
  | queryBridgeInfo bridge =>
    exact parallel_bind _ fun q => parallel_answering hworld _ _
  | refresh bridge =>
    exact parallel_bind _ fun q => parallel_same hworld _ _
  | bindContext bridge context =>
    refine parallel_bind _ fun q => parallel_bind _ fun c =>
      parallel_same ?_ _ _
    exact (hworld.modify_queryBridge q (f := fun k => k.bindContext c)
      fun _ => rfl).tell _ _
  | observeQuery bridge owner property =>
    exact parallel_bind _ fun q => parallel_bind _ fun o =>
      parallel_changing (hworld.modify_queryBridge q fun _ => rfl)
  | newTracker name store batches key bus onCall =>
    exact parallel_bind _ fun s => parallel_bind _ fun n =>
      parallel_making h name _ { hworld with same := rfl }
  | pushBatch tracker batch =>
    exact parallel_bind _ fun t => parallel_changing { hworld with same := rfl }
  | remoteChange tracker =>
    refine parallel_bind _ fun t => parallel_readingToken h t ?_
    exact fun read stored stored' _ => kin_of_map_eq (by simp [Task.plain])
  | lastToken tracker =>
    refine parallel_bind _ fun t => parallel_readingToken h t ?_
    intro read stored stored' hread
    have hanswer (stored : Option StoreValue) :
        ∀ x ∈ read ++ [Task.answerToken t stored], x.Inert m.world b := by
      rw [List.forall_mem_append, List.forall_mem_singleton]
      exact ⟨hread, by simp [Task.Inert, Task.serves?]⟩
    exact kin_of_inert (hanswer stored) (hanswer stored')
  | tokenKey tracker =>
    exact parallel_bind _ fun t => parallel_answering hworld _ _

theorem parallel_begin (h : m.Level b m') (made : m.world.Has b.object)
    (a : Action) : Parallel b (m.begin a) (m'.begin a) := by
  cases a with
  | answer r => exact parallel_answering h.world _ _
  | unknown => exact .refused _
  | names => exact parallel_answering h.world _ _
  | malformed needs =>
    obtain ⟨v, todo, x, rfl⟩ := h.exists_vary
    have hmeets : (m.world.vary v).meets = m.world.meets := rfl
    simp only [begin, hmeets]
    split <;> exact .refused _
  | drop name | cancel name =>
    simp only [begin, h.lookup]
    exact parallel_bind _ fun n => parallel_answering (h.forget name).world _ _
  | describe name =>
    simp only [begin, h.lookup]
    refine parallel_bind _ fun n => ?_
    -- Whether something can be described does not depend on what it is like.
    rcases n with _ | _ | _ | _
    · next o =>
      cases o <;>
        first | exact .refused _ | exact parallel_answering h.world _ _
    · exact parallel_answering h.world _ _
    · exact parallel_answering h.world _ _
    · exact parallel_answering h.world _ _
  | notice a => exact parallel_beginNotice h a
  | store a => exact parallel_beginStore h made a
  | observation a => exact parallel_beginObservation h a
  | context a => exact parallel_beginContext h a
  | query a => exact parallel_beginQuery h a

end Machine
end LiveProperty
