import LiveProperty.Proofs.Machine.Follows

/-!
# What a step does to the world

Commands change the world by the listed edits, and so do the tasks that only
note something.  The tasks that do more are listed here.  What holds of the
world after every `Effect` holds after every step.
-/

namespace LiveProperty

/-- The size of the command that a task begins; no other task hands over
schedules. -/
noncomputable def Task.bound : Task → ℕ
  | .perform c _ => sizeOf c.action
  | _ => 0

/-- What doing a task does to the world of a machine. -/
inductive Effect (m : Machine) : Task → World → Prop
  | edits (t : Task) {w : World} (loose : Object → Prop)
      (known : ∀ o, loose o → m.world.isNamed o ∨ o ∈ t.held)
      (edits : Edits m.todo t.bound loose m.world w) : Effect m t w
  | save (command : Command) (nested : Bool) (c : Ref .context) (count : ℕ)
      (unsaved : (m.world.saveEvent c).isEmpty = false) :
      Effect m (.perform command nested)
        (((m.world.modifyMemory c MemoryContext.clearUnsaved).tell
            (.contextSaved c count)).tell
          (.announced (m.world.contexts.get c).changes
            (.change (m.world.saveEvent c))
            (m.world.audience (m.world.contexts.get c).changes)))
  | bindContext (command : Command) (nested : Bool) (q : Ref .queryBridge)
      (c : Ref .context) (named : m.world.isNamed (.queryBridge q))
      (namedContext : m.world.isNamed (.context c)) :
      Effect m (.perform command nested) (m.world.bindContext q c)
  | enterScope (command : Command) (nested : Bool) (r : Ref .registrar) :
      Effect m (.perform command nested) (m.world.enterScope r)
  | tell (h : Happening) : Effect m (.tell h) (m.world.tell h)
  | fire (plan : Ref .plan) :
      Effect m (.fire plan)
        { m.world with
          plans := m.world.plans.set plan
            ⟨(m.world.plans.get plan).schedule.next⟩ }
  /-- A query bridge adopts the living origin of a save that concerns it. -/
  | adopt (q : Ref .queryBridge) (audience : List Listener)
      (change : ContextChange) (origin : Ref .context)
      (alive : (m.push [.deliver audience (.change change)]).isAlive
        (.context origin))
      (affects : change.affects (m.world.queryBridges.get q).entity) :
      Effect m (.deliver (.queryBridge q :: audience) (.change change))
        (m.world.adopt q origin)
  | write (s : Ref .store) (key : String) (value : Option StoreValue) :
      Effect m (.write s key value)
        ((m.world.writeValue s key value).tell
          (.announced (m.world.stores.get s).changes (.key key)
            (m.world.audience (m.world.stores.get s).changes)))
  | countAccess (r : Ref .registrar) (property : String) :
      Effect m (.access (.registrar r) property)
        (m.world.countAccess r property)
  | countMutation (r : Ref .registrar) (property : String) :
      Effect m (.countMutation r property) (m.world.countMutation r property)
  | leaveScope (r : Ref .registrar) (reaction : Reaction) :
      Effect m (.leaveScope r reaction) (m.world.leaveScope r reaction)
  | invalidate (b : Bridge) :
      Effect m (.invalidate (.bridge b)) (m.world.invalidateBridge b)
  | settleCache (c : Ref .cache) (began : UInt64) (value : Json)
      (mayFail : Bool) :
      Effect m (.settleCache c began (.ok value) mayFail)
        ({ m.world with
            caches := m.world.caches.modify c
              fun cache => cache.settle began value }.noteSettled (.client c)
          ((m.world.caches.get c).generation = began))
  | settleKey (b : Ref .keyBridge) (began : UInt64)
      (stored : Option StoreValue) (told : List Happening)
      (remarks : ∀ h ∈ told, h.isRemark) :
      Effect m (.settleKey b began stored)
        ({ m.world with
            journal := told ++ m.world.journal
            keyBridges := m.world.keyBridges.set b
              ((m.world.keyBridges.get b).settle began stored) }.noteSettled
          (.bridge (.key b))
          ((m.world.keyBridges.get b).cache.generation = began))
  | receive (c : Ref .context) (records : List Record) (purpose : FetchFor) :
      Effect m (.receive c records purpose)
        { m.world with
          contexts := m.world.contexts.modify c Context.afterFetch }
  | settleQuery (q : Ref .queryBridge) (began : UInt64)
      (outcome : Except BridgeError (List Record)) (rows : List Json)
      (selected : (m.world.queryBridges.get q).rowsOf outcome = .ok rows) :
      Effect m (.settleQuery q began outcome)
        ({ m.world with
            queryBridges := m.world.queryBridges.set q
              ((m.world.queryBridges.get q).settle began rows) }.noteSettled
          (.bridge (.query q))
          ((m.world.queryBridges.get q).cache.generation = began))
  | missContext (q : Ref .queryBridge) (began : UInt64)
      (outcome : Except BridgeError (List Record)) (error : BridgeError) :
      Effect m (.settleQuery q began outcome)
        ({ m.world with
            queryBridges := m.world.queryBridges.set q
              (m.world.queryBridges.get q).warn }.tell
          (.contextMissing q (m.world.queryBridges.get q).entity error))
  | takeBatch (t : Ref .tracker) (told : List Happening)
      (remarks : ∀ h ∈ told, h.isRemark) :
      Effect m (.takeBatch t)
        { m.world with
          trackers := m.world.trackers.set t (m.world.trackers.get t).dropBatch
          journal := told ++
            .historyAnswered t (m.world.trackers.get t).batch ::
              m.world.journal }

namespace Machine

variable {m : Machine}

/-- A remark is no more than an edit. -/
theorem effect_remark {t : Task} {h : Happening} (remark : h.isRemark) :
    Effect m t (m.world.tell h) :=
  .edits t (· ∈ t.held) (fun _ => Or.inr) (.single (.tell h remark))

theorem effect_refl (t : Task) : Effect m t m.world :=
  .edits t (· ∈ t.held) (fun _ => Or.inr) .refl

theorem edits_remarks {todo : List Task} {bound : ℕ} {loose : Object → Prop}
    (told : List Happening) (w : World) (remarks : ∀ h ∈ told, h.isRemark) :
    Edits todo bound loose w { w with journal := told ++ w.journal } := by
  induction told with
  | nil => exact .refl
  | cons h rest ih =>
    refine .tail (ih fun x hx => remarks x (List.mem_cons_of_mem _ hx)) ?_
    exact .tell h (remarks h List.mem_cons_self)

theorem effect_remarks {t : Task} (told : List Happening)
    (remarks : ∀ h ∈ told, h.isRemark) :
    Effect m t { m.world with journal := told ++ m.world.journal } :=
  .edits t (· ∈ t.held) (fun _ => Or.inr) (edits_remarks told m.world remarks)

theorem effect_perform (c : Command) (nested : Bool) :
    Effect m (.perform c nested) (m.perform c nested).world := by
  unfold perform
  split
  · next b hb =>
    simp only [world_push]
    have hbegins := begins_of_begin hb
    cases hbegins with
    | atOnce r edits => exact .edits _ _ (fun _ => Or.inl) edits
    | save ctx count named unsaved => exact .save c nested ctx count unsaved
    | bindContext q ctx named namedContext =>
      exact .bindContext c nested q ctx named namedContext
    | observe r apply reaction named small => exact .enterScope c nested r
    | announce n event o source made foreign => exact effect_remark rfl
    | readDefault key => exact effect_remark rfl
    | readToken t next named tracked => exact effect_remark rfl
    | _ => exact effect_refl _
  · exact effect_refl _

theorem effect_call (l : Listener) (audience : List Listener) (event : Event) :
    Effect m (.deliver (l :: audience) event)
      ((m.push [.deliver audience event]).call l event).world := by
  unfold call
  split
  · split
    · split
      · exact effect_remark rfl
      · exact effect_refl _
    · exact effect_remark rfl
  · split <;> exact effect_refl _
  · next q change =>
    split
    · simp only [hearChange]
      split
      · next affects =>
        split
        · next origin horigin =>
          obtain ⟨-, halive⟩ := Option.filter_eq_some_iff.mp horigin
          exact .adopt q audience change origin halive affects
        · exact effect_refl _
      · exact effect_refl _
    · exact effect_refl _
  · exact effect_refl _

theorem effect_finish (label : Json) (held : List Object) (nested : Bool) :
    Effect m (.finish label held nested) (m.finish label held nested).world := by
  refine .edits _ (· ∈ held) (fun _ => Or.inr) ?_
  unfold finish
  cases nested with
  | false => exact (edits_foldl_release m 0 fun o ho => ho).1
  | true =>
    exact .head (.tell (.finished label m.reply) rfl)
      (edits_foldl_release (m.tell (.finished label m.reply)) 0
        fun o ho => ho).1

theorem effect_settleKey (b : Ref .keyBridge) (began : UInt64)
    (stored : Option StoreValue) :
    Effect m (.settleKey b began stored) (m.settleKey b began stored).world := by
  simp only [settleKey, reportFault]
  split
  · next e he =>
    exact .settleKey b began stored [.defaultUsed b _ e] (by simp [Happening.isRemark])
  · exact .settleKey b began stored [] (by simp)

theorem effect_settleQuery (q : Ref .queryBridge) (began : UInt64)
    (outcome : Except BridgeError (List Record)) :
    Effect m (.settleQuery q began outcome)
      (m.settleQuery q began outcome).world := by
  simp only [settleQuery]
  split
  · next rows hrows => exact .settleQuery q began outcome rows hrows
  · next e he =>
    simp only [world_answer]
    cases e with
    | missingContext entity =>
      simp only [missContext]
      split
      · exact effect_refl _
      · exact .missContext q began outcome _
    | _ => exact effect_remark rfl

theorem effect_takeBatch (t : Ref .tracker) :
    Effect m (.takeBatch t) (m.takeBatch t).world := by
  simp only [takeBatch]
  split
  · next e he =>
    exact .takeBatch t [.historyFailed t e] (by simp [Happening.isRemark])
  · exact .takeBatch t [] (by simp)

theorem effect_askHistory (t : Ref .tracker) (stored : Option StoreValue) :
    Effect m (.askHistory t stored) (m.askHistory t stored).world := by
  obtain ⟨told, remarks, htold⟩ := lastToken_eq (m := m) t stored
  simp only [askHistory, htold, world_push, world_tell]
  apply effect_remarks (.historyAsked t _ _ :: told)
  simpa [Happening.isRemark] using remarks

theorem effect_answerToken (t : Ref .tracker) (stored : Option StoreValue) :
    Effect m (.answerToken t stored) (m.answerToken t stored).world := by
  obtain ⟨told, remarks, htold⟩ := lastToken_eq (m := m) t stored
  simp only [answerToken, htold, world_answer]
  exact effect_remarks told remarks

theorem effect_doTask (t : Task) : Effect m t (m.doTask t).world := by
  cases t with
  | perform c nested => exact effect_perform c nested
  | finish label held nested => exact effect_finish label held nested
  | keep objects => exact effect_refl _
  | answer r => exact effect_refl _
  | tell h => exact .tell h
  | fire plan => exact .fire plan
  | deliver audience event =>
    cases audience with
    | nil => exact effect_refl _
    | cons l rest => exact effect_call l rest event
  | write s key value => exact .write s key value
  | access owner property =>
    cases owner with
    | registrar r => exact .countAccess r property
    | hook h => exact effect_remark rfl
  | mutate owner property i =>
    cases owner with
    | registrar r => exact effect_refl _
    | hook h => exact effect_remark rfl
  | countMutation r property => exact .countMutation r property
  | react reaction => exact effect_remark rfl
  | invalidate i =>
    cases i with
    | bridge b => exact .invalidate b
    | client during => exact effect_remark rfl
  | relay b =>
    cases b with
    | key r => exact effect_remark rfl
    | query q => exact effect_remark rfl
  | enclose envelope p body =>
    simp only [doTask, enclose]
    split
    · exact effect_refl _
    · split
      · exact effect_remark rfl
      · exact effect_remark rfl
  | run body =>
    simp only [doTask, runBody]
    split
    · exact effect_refl _
    · exact effect_refl _
    · exact effect_remark rfl
  | leaveScope r reaction => exact .leaveScope r reaction
  | readCache c outcome during mayFail =>
    simp only [doTask, readCache]
    split
    · exact effect_remark rfl
    · exact effect_remarks [_, _] (by simp [Happening.isRemark])
  | settleCache c began outcome mayFail =>
    cases outcome with
    | ok value => exact .settleCache c began value mayFail
    | error e => exact effect_refl _
  | readKey b =>
    simp only [doTask, readKey]
    split
    · exact effect_remark rfl
    · exact effect_remarks [_, _] (by simp [Happening.isRemark])
  | settleKey b began stored => exact effect_settleKey b began stored
  | readQuery q =>
    simp only [doTask, readQuery]
    split <;> exact effect_remark rfl
  | askRecords c entity purpose => exact effect_remark rfl
  | receive c records purpose =>
    simp only [doTask, receive, conclude]
    split
    · exact .receive c records _
    · split <;> exact .receive c records _
  | settleQuery q began outcome => exact effect_settleQuery q began outcome
  | askHistory t stored => exact effect_askHistory t stored
  | takeBatch t => exact effect_takeBatch t
  | announceRemote t transactions entities =>
    simp only [doTask, announceRemote]
    split
    · exact effect_refl _
    · exact effect_remarks [_, _] (by simp [Happening.isRemark])
  | answerToken t stored => exact effect_answerToken t stored

/-- A step does to the world what doing its task does. -/
theorem effect_step {t : Task} {rest : List Task} (h : m.todo = t :: rest) :
    Effect { m with todo := rest } t m.step.world := by
  rw [step_of_todo_cons h]
  exact effect_doTask t

end Machine
end LiveProperty
