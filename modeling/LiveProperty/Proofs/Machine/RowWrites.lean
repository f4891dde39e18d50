import LiveProperty.Proofs.Machine.Contexts
import LiveProperty.Proofs.Tables

/-!
# Written rows

What a command does to the rows of a context is told from the command alone,
once its names are looked up.  `memory_step` says that a step carries out what
its command does and that a save forgets what is unsaved, and that nothing
else touches the rows of a context.  So a context remembers what was written
to its rows until it is saved: an insertion always writes, an update or a
deletion writes if it finds its row.
-/

namespace LiveProperty

/-- Whether a command makes a context that names itself. -/
def ContextAction.makesShared : ContextAction → Bool
  | .newContext _ sort _ => sort = .shared
  | _ => false

namespace World

variable {w : World} {c : Ref .context}

/-- What a command does to the rows of a context, if any. -/
def operation? (w : World) (c : Ref .context) : Action → Option RowOperation
  | .context (.insertRow context rowType content _) =>
    if w.context? context = some c then some (.insert ⟨rowType, content⟩)
    else none
  | .context (.updateRow context rowType row content) =>
    if w.context? context = some c then
      (w.row? row).map fun id => .update id ⟨rowType, content⟩
    else none
  | .context (.deleteRow context rowType row) =>
    if w.context? context = some c then
      (w.row? row).map fun id => .delete id rowType
    else none
  | _ => none

/-- The change of a context that an update or a deletion makes of a row, if
the context is meant and has the row. -/
def rowChange? (w : World) (c : Ref .context) (kind : ChangeKind)
    (context : String) (rowType : RowType) (row : String) :
    Option EntityChange :=
  if w.context? context = some c ∧
      (w.row? row).any fun id => (w.memory c).holds rowType id then
    some ⟨kind, rowType.entity⟩
  else none

/-- The change that a command makes of the rows of a context, if any. -/
def written? (w : World) (c : Ref .context) : Action → Option EntityChange
  | .context (.insertRow context rowType _ _) =>
    if w.context? context = some c then some ⟨.inserted, rowType.entity⟩
    else none
  | .context (.updateRow context rowType row _) =>
    w.rowChange? c .updated context rowType row
  | .context (.deleteRow context rowType row) =>
    w.rowChange? c .deleted context rowType row
  | _ => none

/-- Whether a command saves a context. -/
def saves (w : World) (c : Ref .context) : Action → Bool
  | .context (.saveContext context) => w.context? context = some c
  | _ => false

/-- What a context has written since it was last saved. -/
abbrev unsaved (w : World) (c : Ref .context) : List EntityChange :=
  (w.memory c).unsaved

/-- The contexts and the query bridges of a world, which few commands
touch. -/
def queried (w : World) :
    Pool .context Context × Pool .queryBridge QueryBridge :=
  (w.contexts, w.queryBridges)

theorem contexts_of_queried_eq {w' : World} (h : w'.queried = w.queried) :
    w'.contexts = w.contexts :=
  congrArg Prod.fst h

theorem queryBridges_of_queried_eq {w' : World}
    (h : w'.queried = w.queried) : w'.queryBridges = w.queryBridges :=
  congrArg Prod.snd h

theorem memory_of_contexts_eq {w' : World} (h : w'.contexts = w.contexts) :
    w'.memory c = w.memory c := by
  unfold memory
  rw [h]

/-- What a command writes is what its operation is remembered as. -/
theorem written?_eq_bind (w : World) (c : Ref .context) (a : Action) :
    w.written? c a = (w.operation? c a).bind (w.memory c).change? := by
  cases a with
  | context a =>
    cases a with
    | insertRow context rowType content name =>
      simp only [written?, operation?]
      split <;> rfl
    | updateRow context rowType row content | deleteRow context rowType row =>
      simp only [written?, operation?, rowChange?]
      by_cases hc : w.context? context = some c
      · cases hrow : w.row? row with
        | none => simp
        | some id => simp [hc, MemoryContext.change?]
      · simp [hc]
    | _ => rfl
  | _ => rfl

@[simp] theorem queried_letGo (o : Object) :
    (w.letGo o).queried = w.queried := by
  rcases w.letGo_eq o with heq | ⟨s, -, heq⟩
  · rw [heq]
  · rw [heq]
    rfl

/-- The contexts of a world, and how many query bridges were made. -/
def census (w : World) : Pool .context Context × ℕ :=
  (w.contexts, w.queryBridges.next)

theorem census_of_queried_eq {w' : World} (h : w'.queried = w.queried) :
    w'.census = w.census :=
  congrArg (fun x => (x.1, Pool.next x.2)) h

theorem contexts_of_census_eq {w' : World} (h : w'.census = w.census) :
    w'.contexts = w.contexts :=
  congrArg Prod.fst h

theorem census_adopt (q : Ref .queryBridge) (d : Ref .context) :
    (w.adopt q d).census = w.census := by
  unfold adopt
  split <;> rfl

theorem census_leaveScope (r : Ref .registrar) (reaction : Reaction) :
    (w.leaveScope r reaction).census = w.census := by
  simp only [leaveScope]
  split <;> rfl

theorem census_invalidateBridge (b : Bridge) :
    (w.invalidateBridge b).census = w.census := by
  cases b <;> rfl

end World

theorem distinct_eq_nil_iff {α : Type} [DecidableEq α] {xs : List α} :
    distinct xs = [] ↔ xs = [] := by
  simp only [List.eq_nil_iff_forall_not_mem, mem_distinct]

/-- There is nothing to save exactly when nothing is unsaved. -/
theorem World.isEmpty_saveEvent (w : World) (c : Ref .context) :
    (w.saveEvent c).isEmpty = (w.unsaved c).isEmpty := by
  have hdistinct : (distinct (w.unsaved c)).isEmpty =
      (w.unsaved c).isEmpty := by
    rw [Bool.eq_iff_iff, List.isEmpty_iff, List.isEmpty_iff,
      distinct_eq_nil_iff]
  rw [← hdistinct, World.saveEvent, Context.saveEvent]
  split <;> rfl

namespace Machine

variable {m : Machine} {b : Begun} {c : Ref .context}

@[simp] theorem queried_release (o : Object) :
    (m.release o).world.queried = m.world.queried := by
  unfold release
  split
  · rfl
  · exact World.queried_letGo o

@[simp] theorem queried_releaseNamed (n : Option Named) :
    (m.releaseNamed n).world.queried = m.world.queried := by
  unfold releaseNamed
  split
  · exact queried_release _
  · rfl

@[simp] theorem queried_rename (name : String) (n : Named) :
    (m.rename name n).world.queried = m.world.queried :=
  queried_releaseNamed _

@[simp] theorem queried_making (name : String) (o : Object)
    (f : World → World) :
    (m.making name o f).machine.world.queried = (f m.world).queried :=
  queried_rename name _

theorem contexts_making (name : String) (o : Object) (f : World → World) :
    (m.making name o f).machine.world.contexts = (f m.world).contexts :=
  World.contexts_of_queried_eq (queried_making name o f)

theorem queried_finish (label : Json) (held : List Object) (nested : Bool) :
    (m.finish label held nested).world.queried = m.world.queried := by
  have hrelease (held : List Object) (n : Machine) :
      (held.foldl release n).world.queried = n.world.queried := by
    induction held generalizing n with
    | nil => rfl
    | cons o rest ih => rw [List.foldl_cons, ih, queried_release]
  unfold finish
  rw [hrelease]
  cases nested <;> rfl

/-! ## Commands on other things than contexts -/

theorem queried_beginNotice {a : NoticeAction}
    (h : m.beginNotice a = .ok b) :
    b.machine.world.queried = m.world.queried := by
  cases a with
  | newCache | newNotifier =>
    cases h
    exact queried_making _ _ _
  | freshSubscriber =>
    cases h
    rfl
  | subscribe name source script =>
    obtain ⟨⟨n, onlyKey⟩, -, h⟩ := needed_bind_eq_ok.mp h
    cases h
    exact queried_rename _ _
  | unsubscribe notifier subscription =>
    obtain ⟨n, -, h⟩ := needed_bind_eq_ok.mp h
    obtain ⟨s, -, h⟩ := needed_bind_eq_ok.mp h
    cases h
    rfl
  | _ =>
    obtain ⟨x, -, h⟩ := needed_bind_eq_ok.mp h
    cases h
    rfl

theorem queried_beginStore {a : StoreAction} (h : m.beginStore a = .ok b) :
    b.machine.world.queried = m.world.queried := by
  cases a with
  | newStore =>
    cases h
    exact queried_making _ _ _
  | newKeyBridge name key kind initial store envelope presenter =>
    rcases neededIfGiven_bind_eq_ok.mp h with ⟨-, h⟩ | ⟨_, s, -, -, h⟩ <;>
      rcases neededIfGiven_bind_eq_ok.mp h with ⟨-, h⟩ | ⟨_, p, -, -, h⟩ <;>
        cases h <;> exact queried_making _ _ _
  | setKey bridge value =>
    obtain ⟨r, -, h⟩ := needed_bind_eq_ok.mp h
    cases value with
    | none =>
      cases h
      rfl
    | some spelled =>
      simp only at h
      split at h
      · cases h
        simp only [writingKey]
        split <;> rfl
      · cases h
  | observeKey bridge owner property =>
    obtain ⟨r, -, h⟩ := needed_bind_eq_ok.mp h
    obtain ⟨o, -, h⟩ := needed_bind_eq_ok.mp h
    cases h
    rfl
  | resetDefaultStore | readDefaultStore | writeDefaultStore
  | countDefaultStoreListeners =>
    cases h
    rfl
  | _ =>
    obtain ⟨x, -, h⟩ := needed_bind_eq_ok.mp h
    cases h
    rfl

theorem queried_beginObservation {a : ObservationAction}
    (h : m.beginObservation a = .ok b) :
    b.machine.world.queried = m.world.queried := by
  cases a with
  | newRegistrar | newPresenter =>
    cases h
    exact queried_making _ _ _
  | newHook name onAccess before after calls registrar =>
    rcases neededIfGiven_bind_eq_ok.mp h with ⟨-, h⟩ | ⟨_, r, -, -, h⟩ <;>
      cases h <;> exact queried_making _ _ _
  | newBinding name owner property =>
    obtain ⟨o, -, h⟩ := needed_bind_eq_ok.mp h
    cases h
    exact queried_rename _ _
  | runEnvelope envelope presenter body =>
    rcases neededIfGiven_bind_eq_ok.mp h with ⟨-, h⟩ | ⟨_, p, -, -, h⟩ <;>
      cases h <;> rfl
  | uninstallPresenter | presenterInstalled =>
    cases h
    rfl
  | _ =>
    obtain ⟨x, -, h⟩ := needed_bind_eq_ok.mp h
    cases h
    rfl

theorem contexts_beginQuery {a : QueryAction} (h : m.beginQuery a = .ok b) :
    b.machine.world.contexts = m.world.contexts := by
  cases a with
  | newQueryBridge name rowType parts =>
    simp only [beginQuery, bind, Except.bind] at h
    split at h
    · cases h
    · split at h
      · cases h
        exact contexts_making _ _ _
      · cases h
        rfl
  | bindContext bridge context =>
    obtain ⟨q, -, h⟩ := needed_bind_eq_ok.mp h
    obtain ⟨d, -, h⟩ := needed_bind_eq_ok.mp h
    cases h
    rfl
  | observeQuery bridge owner property =>
    obtain ⟨q, -, h⟩ := needed_bind_eq_ok.mp h
    obtain ⟨o, -, h⟩ := needed_bind_eq_ok.mp h
    cases h
    rfl
  | newTracker name store batches key bus onCall =>
    obtain ⟨s, -, h⟩ := needed_bind_eq_ok.mp h
    obtain ⟨n, -, h⟩ := needed_bind_eq_ok.mp h
    cases h
    exact contexts_making _ _ _
  | _ =>
    obtain ⟨x, -, h⟩ := needed_bind_eq_ok.mp h
    cases h
    rfl

/-- Only commands on contexts or queries touch these at once. -/
theorem queried_begin {a : Action} (h : m.begin a = .ok b)
    (context : ∀ x, a ≠ .context x) (query : ∀ x, a ≠ .query x) :
    b.machine.world.queried = m.world.queried := by
  cases a with
  | notice a => exact queried_beginNotice h
  | store a => exact queried_beginStore h
  | observation a => exact queried_beginObservation h
  | context a => exact absurd rfl (context a)
  | query a => exact absurd rfl (query a)
  | answer | names =>
    cases h
    rfl
  | malformed needs =>
    simp only [begin] at h
    split at h <;> cases h
  | unknown => cases h
  | drop name | cancel name =>
    obtain ⟨n, -, h⟩ := needed_bind_eq_ok.mp h
    cases h
    exact queried_releaseNamed _
  | describe name =>
    obtain ⟨n, -, h⟩ := needed_bind_eq_ok.mp h
    obtain ⟨s, -, h⟩ := needed_bind_eq_ok.mp h
    cases h
    rfl

/-- Only commands on contexts touch contexts at once. -/
theorem contexts_begin {a : Action} (h : m.begin a = .ok b)
    (other : ∀ x, a ≠ .context x) :
    b.machine.world.contexts = m.world.contexts := by
  by_cases hquery : ∃ x, a = .query x
  · obtain ⟨x, rfl⟩ := hquery
    exact contexts_beginQuery h
  · exact World.contexts_of_queried_eq
      (queried_begin h other fun x hx => hquery ⟨x, hx⟩)

/-! ## Commands on contexts -/

/-- What a write to the memory of one context does to another. -/
theorem memory_modifyMemory {w : World} {d : Ref .context}
    {f : MemoryContext → MemoryContext} :
    (w.modifyMemory d f).memory c =
      if d = c then f (w.memory c) else w.memory c := by
  split
  · next hd =>
    rw [← hd]
    exact World.memory_modifyMemory_self w d f
  · next hd => exact World.memory_modifyMemory_of_ne w (Ne.symm hd) f

/-- What the memory of a context is after a command that it is asked to carry
out. -/
def memoryAfter (w : World) (c : Ref .context) (a : Action) : MemoryContext :=
  if w.saves c a then (w.memory c).clearUnsaved
  else (w.operation? c a).elim (w.memory c) (w.memory c).carryOut

/-- What a command on contexts makes of them: it makes one, or writes to the
rows of one, or it leaves them alone.  It does nothing to query bridges. -/
inductive HandlesContexts (w : World) (a : ContextAction) :
    Pool .context Context × Pool .queryBridge QueryBridge → Prop
  | leaves (plain : a.makesShared = false)
      (idle : ∀ c, memoryAfter w c (.context a) = w.memory c) :
      HandlesContexts w a w.queried
  | makes (made : Context) (itself : made.namesItself = a.makesShared)
      (empty : made.memory = {})
      (idle : ∀ c, memoryAfter w c (.context a) = w.memory c) :
      HandlesContexts w a (w.contexts.add made, w.queryBridges)
  | writes (d : Ref .context) (f : MemoryContext → MemoryContext)
      (plain : a.makesShared = false)
      (after : ∀ c, memoryAfter w c (.context a) =
        if d = c then f (w.memory c) else w.memory c) :
      HandlesContexts w a (w.modifyMemory d f).queried

/-- A write that needs its row to be there, and does nothing without it. -/
theorem handlesContexts_writing {a : ContextAction} {d : Ref .context}
    {rowType : RowType} {id : RowId} {kind : ChangeKind}
    {f : MemoryContext → MemoryContext} (plain : a.makesShared = false)
    (after : ∀ c, memoryAfter m.world c (.context a) =
      if d = c then f (m.world.memory c) else m.world.memory c)
    (idle : (m.world.memory d).holds rowType id = false →
      f (m.world.memory d) = m.world.memory d) :
    HandlesContexts m.world a
      (m.writing d rowType id kind f).machine.world.queried := by
  unfold writing
  split
  · exact .writes d f plain after
  · next hid =>
    refine .leaves plain fun c => ?_
    rw [after]
    split
    · next hd => rw [← hd, idle (Bool.eq_false_iff.mpr hid)]
    · rfl

theorem handlesContexts_saving {a : ContextAction} {d : Ref .context}
    (plain : a.makesShared = false)
    (after : ∀ c, memoryAfter m.world c (.context a) =
      if d = c then (m.world.memory c).clearUnsaved else m.world.memory c) :
    HandlesContexts m.world a (m.saving d).machine.world.queried := by
  simp only [saving]
  split
  · next hempty =>
    refine .leaves plain fun c => ?_
    rw [after]
    split
    · next hd =>
      rw [World.isEmpty_saveEvent, List.isEmpty_iff, hd] at hempty
      unfold MemoryContext.clearUnsaved
      rw [← hempty]
    · rfl
  · exact .writes d MemoryContext.clearUnsaved plain after

theorem handlesContexts_beginContext {a : ContextAction}
    (h : m.beginContext a = .ok b) :
    HandlesContexts m.world a b.machine.world.queried := by
  cases a with
  | newBus name =>
    cases h
    rw [queried_making]
    exact .leaves rfl fun _ => rfl
  | newChange name change origin =>
    obtain ⟨x, -, h⟩ := needed_bind_eq_ok.mp h
    rcases neededIfGiven_bind_eq_ok.mp h with ⟨-, h⟩ | ⟨_, o, -, -, h⟩
    · cases h
      exact queried_rename (m := m) name _ ▸ .leaves rfl fun _ => rfl
    · cases h
      exact queried_rename (m := m) name _ ▸ .leaves rfl fun _ => rfl
  | newContext name sort bus =>
    obtain ⟨n, -, h⟩ := needed_bind_eq_ok.mp h
    cases h
    rw [queried_making]
    exact .makes _ rfl rfl fun _ => rfl
  | newSupervisedContext name bus onFetch failures error =>
    obtain ⟨n, -, h⟩ := needed_bind_eq_ok.mp h
    cases h
    rw [queried_making]
    exact .makes _ rfl rfl fun _ => rfl
  | insertRow context rowType content name =>
    obtain ⟨d, hd, h⟩ := needed_bind_eq_ok.mp h
    cases h
    have hwrites : HandlesContexts m.world
        (.insertRow context rowType content name)
        (m.world.modifyMemory d fun memory =>
          memory.insert rowType content).queried := by
      refine .writes d _ rfl fun c => ?_
      by_cases heq : d = c <;>
        simp [memoryAfter, World.saves, World.operation?, hd, heq,
          MemoryContext.carryOut]
    cases name with
    | none => exact hwrites
    | some name =>
      change HandlesContexts m.world _ (rename _ name _).world.queried
      rw [queried_rename]
      exact hwrites
  | updateRow context rowType row content =>
    obtain ⟨d, hd, h⟩ := needed_bind_eq_ok.mp h
    obtain ⟨id, hid, h⟩ := needed_bind_eq_ok.mp h
    cases h
    refine handlesContexts_writing rfl (fun c => ?_) fun idle => ?_
    · by_cases heq : d = c <;>
        simp [memoryAfter, World.saves, World.operation?, hd, hid, heq,
          MemoryContext.carryOut]
    · simp [MemoryContext.update, idle]
  | deleteRow context rowType row =>
    obtain ⟨d, hd, h⟩ := needed_bind_eq_ok.mp h
    obtain ⟨id, hid, h⟩ := needed_bind_eq_ok.mp h
    cases h
    refine handlesContexts_writing rfl (fun c => ?_) fun idle => ?_
    · by_cases heq : d = c <;>
        simp [memoryAfter, World.saves, World.operation?, hd, hid, heq,
          MemoryContext.carryOut]
    · simp [MemoryContext.delete, idle]
  | saveContext context =>
    obtain ⟨d, hd, h⟩ := needed_bind_eq_ok.mp h
    cases h
    refine handlesContexts_saving rfl fun c => ?_
    simp [memoryAfter, World.saves, World.operation?, hd]
  | clearDefaultContext | defaultContext =>
    cases h
    exact .leaves rfl fun _ => rfl
  | announceChange | changeSame | getRow =>
    obtain ⟨x, -, h⟩ := needed_bind_eq_ok.mp h
    obtain ⟨y, -, h⟩ := needed_bind_eq_ok.mp h
    cases h
    exact .leaves rfl fun _ => rfl
  | _ =>
    obtain ⟨x, -, h⟩ := needed_bind_eq_ok.mp h
    cases h
    exact .leaves rfl fun _ => rfl

theorem queryBridges_beginContext {a : ContextAction}
    (h : m.beginContext a = .ok b) :
    b.machine.world.queryBridges = m.world.queryBridges := by
  have hhandles := handlesContexts_beginContext h
  change b.machine.world.queried.2 = m.world.queryBridges
  generalize b.machine.world.queried = p at hhandles ⊢
  cases hhandles <;> rfl

/-- A context that is new has no rows, as it had before. -/
theorem memory_add {w : World} {made : Context}
    (new : ¬ w.Has (.context c) → w.memory c = {})
    (empty : made.memory = {}) :
    ((w.contexts.add made).get c).memory = w.memory c := by
  by_cases hc : c = w.contexts.fresh
  · rw [new (by rw [hc]; exact Nat.lt_irrefl _), hc, Pool.get_add_fresh, empty]
  · rw [Pool.get_add_of_ne _ hc]
    rfl

theorem memory_beginContext {a : ContextAction}
    (new : ¬ m.world.Has (.context c) → m.world.memory c = {})
    (h : m.beginContext a = .ok b) :
    b.machine.world.memory c = memoryAfter m.world c (.context a) := by
  have hhandles := handlesContexts_beginContext h
  change (b.machine.world.queried.1.get c).memory = _
  generalize b.machine.world.queried = p at hhandles ⊢
  cases hhandles with
  | leaves plain idle => exact (idle c).symm
  | makes made itself empty idle =>
    rw [idle]
    exact memory_add new empty
  | writes d f plain after =>
    rw [after]
    exact memory_modifyMemory

theorem memory_begin {a : Action}
    (new : ¬ m.world.Has (.context c) → m.world.memory c = {})
    (h : m.begin a = .ok b) :
    b.machine.world.memory c = memoryAfter m.world c a := by
  by_cases hcontext : ∃ x, a = .context x
  · obtain ⟨x, rfl⟩ := hcontext
    exact memory_beginContext new h
  · have hother : ∀ x, a ≠ .context x := fun x hx => hcontext ⟨x, hx⟩
    rw [World.memory_of_contexts_eq (contexts_begin h hother)]
    cases a with
    | context x => exact absurd rfl (hother x)
    | _ => rfl

/-- A command that is refused neither writes nor saves. -/
theorem silent_of_refused {a : Action} {r : Refusal}
    (h : m.begin a = .error r) :
    m.world.saves c a = false ∧ m.world.operation? c a = none := by
  cases a with
  | context a =>
    cases a with
    | insertRow context rowType content name =>
      cases hd : m.world.context? context with
      | none => simp [World.saves, World.operation?, hd]
      | some d => simp [begin, beginContext, needed, hd, bind, Except.bind] at h
    | saveContext context =>
      cases hd : m.world.context? context with
      | none => simp [World.saves, World.operation?, hd]
      | some d => simp [begin, beginContext, needed, hd, bind, Except.bind] at h
    | updateRow context rowType row content | deleteRow context rowType row =>
      cases hd : m.world.context? context with
      | none => simp [World.saves, World.operation?, hd]
      | some d =>
        cases hid : m.world.row? row with
        | none => simp [World.saves, World.operation?, hid]
        | some id =>
          simp [begin, beginContext, needed, hd, hid, bind, Except.bind] at h
    | _ => exact ⟨rfl, rfl⟩
  | _ => exact ⟨rfl, rfl⟩

/-! ## Steps -/

/-- What the next step does to the rows of a context, if any. -/
def operation? (m : Machine) (c : Ref .context) : Option RowOperation :=
  match m.todo with
  | .perform command _ :: _ => m.world.operation? c command.action
  | _ => none

/-- The change that the next step makes of the rows of a context, if any. -/
def written? (m : Machine) (c : Ref .context) : Option EntityChange :=
  match m.todo with
  | .perform command _ :: _ => m.world.written? c command.action
  | _ => none

/-- Whether the next step begins a save of a context. -/
def saves (m : Machine) (c : Ref .context) : Bool :=
  match m.todo with
  | .perform command _ :: _ => m.world.saves c command.action
  | _ => false

theorem written?_eq_bind (m : Machine) (c : Ref .context) :
    m.written? c = (m.operation? c).bind (m.world.memory c).change? := by
  unfold written? operation?
  split
  · exact World.written?_eq_bind _ _ _
  · rfl

/-- A save does nothing to rows. -/
theorem operation?_of_saves (h : m.saves c) : m.operation? c = none := by
  unfold saves at h
  unfold operation?
  split at h
  · unfold World.saves at h
    split at h
    · next context haction =>
      rw [haction]
      rfl
    · cases h
  · cases h

/-- Of the tasks other than commands, only the end of a fetch touches
contexts, and none makes a query bridge. -/
theorem census_doTask {t : Task}
    (other : ∀ command nested, t ≠ .perform command nested)
    (receive : ∀ d records purpose, t ≠ .receive d records purpose) :
    (m.doTask t).world.census = m.world.census := by
  cases t with
  | perform command nested => exact absurd rfl (other command nested)
  | finish label held nested =>
    exact World.census_of_queried_eq (queried_finish _ _ _)
  | deliver audience event =>
    cases audience with
    | nil => rfl
    | cons l rest =>
      simp only [doTask, call]
      split
      · split
        · split <;> rfl
        · rfl
      · split <;> rfl
      · split
        · simp only [hearChange]
          split
          · split
            · exact World.census_adopt _ _
            · rfl
          · rfl
        · rfl
      · rfl
  | access owner property | mutate owner property i => cases owner <;> rfl
  | invalidate i =>
    cases i with
    | bridge b => exact World.census_invalidateBridge b
    | client during => rfl
  | relay b => rfl
  | enclose envelope p body =>
    simp only [doTask, enclose]
    split
    · rfl
    · split <;> rfl
  | run body =>
    simp only [doTask, runBody]
    split <;> rfl
  | leaveScope r reaction => exact World.census_leaveScope r reaction
  | readCache d outcome during mayFail =>
    simp only [doTask, readCache]
    split <;> rfl
  | settleCache d began outcome mayFail => cases outcome <;> rfl
  | readKey d =>
    simp only [doTask, readKey]
    split <;> rfl
  | settleKey d began stored =>
    simp only [doTask, settleKey, reportFault]
    split <;> rfl
  | readQuery q =>
    simp only [doTask, readQuery]
    split <;> rfl
  | receive d records purpose => exact absurd rfl (receive d records purpose)
  | settleQuery q began outcome =>
    simp only [doTask, settleQuery, missContext]
    split
    · rfl
    · split
      · split <;> rfl
      · rfl
  | askHistory t stored =>
    obtain ⟨told, -, htold⟩ := lastToken_eq (m := m) t stored
    simp only [doTask, askHistory, htold]
    rfl
  | takeBatch t =>
    simp only [doTask, takeBatch]
    split <;> rfl
  | announceRemote t transactions entities =>
    simp only [doTask, announceRemote]
    split <;> rfl
  | answerToken t stored =>
    obtain ⟨told, -, htold⟩ := lastToken_eq (m := m) t stored
    simp only [doTask, answerToken, htold]
    rfl
  | _ => rfl

theorem census_receive (d : Ref .context) (records : List Record)
    (purpose : FetchFor) :
    (m.doTask (.receive d records purpose)).world.census =
      (m.world.contexts.modify d Context.afterFetch,
        m.world.queryBridges.next) := by
  cases purpose with
  | bridge q began => rfl
  | client rowType descriptor =>
    simp only [doTask, receive, conclude]
    split <;> rfl

/-- What the end of a fetch leaves alone, all tasks other than commands leave
alone. -/
theorem apply_context_doTask {β : Type} {g : Context → β}
    (afterFetch : ∀ x, g (Context.afterFetch x) = g x) {t : Task}
    (other : ∀ command nested, t ≠ .perform command nested) :
    g ((m.doTask t).world.contexts.get c) = g (m.world.contexts.get c) := by
  by_cases hreceive : ∃ d records purpose, t = .receive d records purpose
  · obtain ⟨d, records, purpose, rfl⟩ := hreceive
    have hcontexts := congrArg Prod.fst
      (census_receive (m := m) d records purpose)
    refine (congrArg (fun p => g (Pool.get p c)) hcontexts).trans ?_
    exact Pool.apply_get_modify afterFetch
  · have hcontexts := World.contexts_of_census_eq (census_doTask (m := m) other
      fun d records purpose h => hreceive ⟨d, records, purpose, h⟩)
    rw [hcontexts]

/-- Tasks other than commands write no rows, and save nothing. -/
theorem memory_doTask {t : Task}
    (other : ∀ command nested, t ≠ .perform command nested) :
    (m.doTask t).world.memory c = m.world.memory c :=
  apply_context_doTask (g := Context.memory) (fun _ => rfl) other

/-- A step carries out what its command does to the rows of a context, and a
save forgets what is unsaved. -/
theorem memory_step
    (new : ¬ m.world.Has (.context c) → m.world.memory c = {}) :
    m.step.world.memory c =
      if m.saves c then (m.world.memory c).clearUnsaved
      else (m.operation? c).elim (m.world.memory c)
        (m.world.memory c).carryOut := by
  cases htodo : m.todo with
  | nil => simp [step_of_todo_nil htodo, saves, operation?, htodo]
  | cons t rest =>
    rw [step_of_todo_cons htodo]
    by_cases hperform : ∃ command nested, t = .perform command nested
    · obtain ⟨command, nested, rfl⟩ := hperform
      simp only [saves, operation?, htodo, doTask, perform]
      split
      · next b hb => exact memory_begin (m := { m with todo := rest }) new hb
      · next r hr =>
        obtain ⟨hsaves, hoperation⟩ :=
          silent_of_refused (m := { m with todo := rest }) (c := c) hr
        have hsaves : m.world.saves c command.action = false := hsaves
        have hoperation : m.world.operation? c command.action = none :=
          hoperation
        simp [hsaves, hoperation]
    · have hother : ∀ command nested, t ≠ .perform command nested :=
        fun command nested heq => hperform ⟨command, nested, heq⟩
      have hsilent : m.saves c = false ∧ m.operation? c = none := by
        unfold saves operation?
        rw [htodo]
        cases t with
        | perform command nested => exact absurd rfl (hother command nested)
        | _ => exact ⟨rfl, rfl⟩
      rw [hsilent.1, hsilent.2]
      exact memory_doTask (m := { m with todo := rest }) hother

/-! ## Runs -/

/-- Only a context that was made can be written to. -/
theorem has_of_operation? (sound : m.Sound) (h : m.operation? c ≠ none) :
    m.world.Has (.context c) := by
  have hnamed {name : String} (hc : m.world.context? name = some c) :
      m.world.Has (.context c) :=
    sound.world.names _ (World.isNamed_of_context? hc)
  unfold operation? at h
  split at h
  · unfold World.operation? at h
    split at h
    all_goals
      first
      | exact absurd rfl h
      | split at h
        · next hc => exact hnamed hc
        · exact absurd rfl h
  · exact absurd rfl h

/-- A context that was not made yet has no rows. -/
theorem memory_of_new (commands : List Command) (n : ℕ)
    (new : ¬ (run n (ofCommands commands)).world.Has (.context c)) :
    (run n (ofCommands commands)).world.memory c = {} := by
  induction n with
  | zero => rfl
  | succ n ih =>
    rw [run_succ] at new ⊢
    have hnew : ¬ (run n (ofCommands commands)).world.Has (.context c) :=
      fun has => new (has_step has)
    have hoperation : (run n (ofCommands commands)).operation? c = none := by
      by_contra hoperation
      exact hnew (has_of_operation? (sound_run commands n) hoperation)
    rw [memory_step ih, ih hnew, hoperation]
    split <;> rfl

theorem memory_succ (commands : List Command) (c : Ref .context) (n : ℕ) :
    (run (n + 1) (ofCommands commands)).world.memory c =
      if (run n (ofCommands commands)).saves c then
        ((run n (ofCommands commands)).world.memory c).clearUnsaved
      else ((run n (ofCommands commands)).operation? c).elim
        ((run n (ofCommands commands)).world.memory c)
        ((run n (ofCommands commands)).world.memory c).carryOut := by
  rw [run_succ]
  exact memory_step (memory_of_new commands n)

/-- A step adds what it writes to what is unsaved, and a save takes away
whatever is. -/
theorem unsaved_succ (commands : List Command) (n : ℕ) :
    (run (n + 1) (ofCommands commands)).world.unsaved c =
      if (run n (ofCommands commands)).saves c then []
      else (run n (ofCommands commands)).world.unsaved c ++
        ((run n (ofCommands commands)).written? c).toList := by
  rw [World.unsaved, memory_succ, written?_eq_bind]
  split
  · rfl
  · cases (run n (ofCommands commands)).operation? c with
    | none => exact (List.append_nil _).symm
    | some op => exact MemoryContext.unsaved_carryOut _ op

end Machine
end LiveProperty
