import LiveProperty.Proofs.Machine.AskedContexts
import LiveProperty.Proofs.Machine.RowWrites
import LiveProperty.Proofs.Machine.Shelters

/-!
# The own context of a query bridge

A query bridge is made with a context of its own or without one.  A client may
bind it to another one at any time.  A bridge that has none takes the first
living context that names itself as the origin of a save which concerns the
bridge.  Nothing else gives a bridge a context, and nothing takes it away.
-/

namespace LiveProperty

/-- The name of the context that a part gives a query bridge. -/
def QueryPart.context? : QueryPart → Option String
  | .context name => some name
  | _ => none

/-- The name of the context that a query bridge is made with: the last one
that is given. -/
def namedContext? (parts : List QueryPart) : Option String :=
  (parts.filterMap QueryPart.context?).getLast?

namespace Machine

theorem QueryDraft.context_add {w : World} {d e : QueryDraft}
    {part : QueryPart} (h : d.add w part = .ok e) :
    e.context = part.context?.elim d.context w.context? := by
  cases part with
  | context name =>
    obtain ⟨c, hc, rfl⟩ := needed_map_eq_ok.mp h
    exact hc.symm
  | presenter name =>
    obtain ⟨p, -, rfl⟩ := needed_map_eq_ok.mp h
    rfl
  | changes bus =>
    obtain ⟨n, -, rfl⟩ := needed_map_eq_ok.mp h
    rfl
  | _ =>
    cases h
    rfl

/-- A draft has the context that is named last. -/
theorem QueryDraft.context_foldlM {w : World} {parts : List QueryPart}
    {d e : QueryDraft} (h : parts.foldlM (QueryDraft.add w) d = .ok e) :
    e.context = (namedContext? parts).elim d.context w.context? := by
  induction parts generalizing d with
  | nil =>
    cases h
    rfl
  | cons part parts ih =>
    rw [List.foldlM_cons] at h
    cases hadd : d.add w part with
    | error r => simp [hadd, bind, Except.bind] at h
    | ok f =>
      rw [hadd] at h
      rw [ih h, QueryDraft.context_add hadd, namedContext?, namedContext?]
      cases hpart : part.context? with
      | none => rw [List.filterMap_cons_none hpart]; rfl
      | some name =>
        rw [List.filterMap_cons_some hpart, List.getLast?_cons]
        cases (parts.filterMap QueryPart.context?).getLast? <;> rfl

variable {m : Machine} {b : Begun} {q : Ref .queryBridge} {c : Ref .context}
  {change : ContextChange}

/-- The context that a query bridge has of its own, if any. -/
def ownContext (m : Machine) (q : Ref .queryBridge) : Option (Ref .context) :=
  (m.world.queryBridges.get q).context

/-- The next command binds a query bridge to a context. -/
def Rebinds (m : Machine) (q : Ref .queryBridge) (c : Ref .context) : Prop :=
  ∃ label name context nested rest,
    m.todo =
      .perform (.mk label (.query (.bindContext name context))) nested ::
        rest ∧
    m.world.queryBridge? name = some q ∧ m.world.context? context = some c

/-- The next command makes a query bridge, with the context that is named
last, if any. -/
def Builds (m : Machine) (q : Ref .queryBridge) (x : Option (Ref .context)) :
    Prop :=
  ∃ label name rowType parts nested rest,
    m.todo =
      .perform (.mk label (.query (.newQueryBridge name rowType parts)))
        nested :: rest ∧
    q = m.world.queryBridges.fresh ∧
    x = (namedContext? parts).bind m.world.context?

/-- A living query bridge is told next of a change. -/
def IsTold (m : Machine) (q : Ref .queryBridge) (change : ContextChange) :
    Prop :=
  (∃ audience rest, m.todo =
    .deliver (.queryBridge q :: audience) (.change change) :: rest) ∧
    m.isAlive (.queryBridge q)

/-- A save that concerns a query bridge names a living context as its
origin. -/
def Offers (m : Machine) (q : Ref .queryBridge) (change : ContextChange)
    (c : Ref .context) : Prop :=
  ∃ changes, change = .saved changes (some c) ∧
    (∃ x ∈ changes, x.entity = (m.world.queryBridges.get q).entity) ∧
    m.isAlive (.context c)

theorem offers_iff : m.Offers q change c ↔
    change.affects (m.world.queryBridges.get q).entity ∧
      change.origin? = some c ∧ m.isAlive (.context c) := by
  constructor
  · rintro ⟨changes, rfl, haffects, halive⟩
    exact ⟨by simpa [ContextChange.affects] using haffects, rfl, halive⟩
  · rintro ⟨haffects, horigin, halive⟩
    cases change with
    | saved changes origin =>
      obtain rfl : origin = some c := horigin
      exact ⟨changes, rfl, by simpa [ContextChange.affects] using haffects,
        halive⟩
    | entity | remote | storesReset => cases horigin

/-! ## Commands -/

/-- What a command makes of the query bridges: it makes one, with the context
that is named last, or tells one of an owner, or binds one to a context, or it
leaves them alone. -/
inductive HandlesQueries (w : World) (a : Action) :
    Pool .queryBridge QueryBridge → Prop
  | leaves : HandlesQueries w a w.queryBridges
  | makes (name : String) (rowType : RowType) (parts : List QueryPart)
      (made : QueryBridge)
      (action : a = .query (.newQueryBridge name rowType parts))
      (context : made.context = (namedContext? parts).bind w.context?) :
      HandlesQueries w a (w.queryBridges.add made)
  | observes (d : Ref .queryBridge) (binding : Binding) :
      HandlesQueries w a (w.queryBridges.modify d fun k => k.bind binding)
  | binds (name context : String) (d : Ref .queryBridge) (c : Ref .context)
      (action : a = .query (.bindContext name context))
      (found : w.queryBridge? name = some d)
      (foundContext : w.context? context = some c) :
      HandlesQueries w a (w.queryBridges.modify d fun k => k.bindContext c)

theorem handlesQueries_beginQuery {a : QueryAction}
    (h : m.beginQuery a = .ok b) :
    HandlesQueries m.world (.query a) b.machine.world.queryBridges := by
  cases a with
  | newQueryBridge name rowType parts =>
    simp only [beginQuery, bind, Except.bind] at h
    split at h
    · cases h
    · next draft hdraft =>
      split at h
      · cases h
        rw [makeQueryBridge,
          World.queryBridges_of_queried_eq (queried_making _ _ _)]
        refine .makes name rowType parts _ rfl ?_
        rw [QueryDraft.context_foldlM hdraft]
        cases namedContext? parts <;> rfl
      · cases h
        exact .leaves
  | bindContext name context =>
    obtain ⟨d, hd, h⟩ := needed_bind_eq_ok.mp h
    obtain ⟨c, hc, h⟩ := needed_bind_eq_ok.mp h
    cases h
    exact .binds name context d c rfl hd hc
  | observeQuery bridge owner property =>
    obtain ⟨d, -, h⟩ := needed_bind_eq_ok.mp h
    obtain ⟨o, -, h⟩ := needed_bind_eq_ok.mp h
    cases h
    exact .observes d ⟨o, property⟩
  | newTracker name store batches key bus onCall =>
    obtain ⟨s, -, h⟩ := needed_bind_eq_ok.mp h
    obtain ⟨n, -, h⟩ := needed_bind_eq_ok.mp h
    cases h
    rw [World.queryBridges_of_queried_eq (queried_making _ _ _)]
    exact .leaves
  | _ =>
    obtain ⟨x, -, h⟩ := needed_bind_eq_ok.mp h
    cases h
    exact .leaves

theorem handlesQueries_begin {a : Action} (h : m.begin a = .ok b) :
    HandlesQueries m.world a b.machine.world.queryBridges := by
  cases a with
  | query a => exact handlesQueries_beginQuery h
  | context a =>
    rw [queryBridges_beginContext h]
    exact .leaves
  | _ =>
    rw [World.queryBridges_of_queried_eq (queried_begin h nofun nofun)]
    exact .leaves

/-! ## Steps -/

theorem world_of_rebinds (h : m.Rebinds q c) :
    m.step.world = m.world.bindContext q c := by
  obtain ⟨label, name, context, nested, rest, htodo, hq, hc⟩ := h
  have hbegin : begin { m with todo := rest }
      (.query (.bindContext name context)) =
      .ok ⟨{ m with todo := rest }.modifyWorld fun w => w.bindContext q c,
        [.queryBridge q, .context c], [.relay (.query q), .answer .nothing]⟩ := by
    simp only [begin, beginQuery, hq, hc, needed]
    rfl
  rw [step_of_begin htodo hbegin]
  rfl

theorem ownContext_of_rebinds (h : m.Rebinds q c) :
    m.step.ownContext q = some c := by
  rw [ownContext, world_of_rebinds h]
  exact congrArg QueryBridge.context (Pool.get_modify_self _)

theorem isAlive_delivering {l : Listener} {audience : List Listener}
    {event : Event} {rest : List Task}
    (h : m.todo = .deliver (l :: audience) event :: rest) (o : Object) :
    (({ m with todo := rest } : Machine).push
      [.deliver audience event]).isAlive o = m.isAlive o := by
  have hrooted := isRooted_delivering h
  cases o with
  | context c =>
    simp only [isAlive, isOwnContext, hrooted]
    rfl
  | registrar r =>
    simp only [isAlive, isForwardedTo, hrooted]
    rfl
  | _ => exact hrooted _

theorem ownContext_hearChange (m : Machine) (q : Ref .queryBridge)
    (change : ContextChange) :
    (m.hearChange q change).ownContext q =
      if change.affects (m.world.queryBridges.get q).entity then
        (m.ownContext q).or
          (change.origin?.filter fun c => m.isAlive (.context c))
      else m.ownContext q := by
  unfold hearChange
  split
  · cases change.origin?.filter fun c => m.isAlive (.context c) with
    | none => exact (Option.or_none).symm
    | some c =>
      simp only [ownContext, world_push, world_modifyWorld, World.adopt]
      cases hown : (m.world.queryBridges.get q).context with
      | none =>
        simp only [Option.isNone_none, if_true]
        refine (congrArg QueryBridge.context (Pool.get_modify_self _)).trans ?_
        simp only [QueryBridge.adopt, hown]
      | some d =>
        simp only [Option.isNone_some, Bool.false_eq_true, if_false]
        exact hown
  · rfl

theorem step_told {audience : List Listener} {rest : List Task}
    (h : m.todo =
      .deliver (.queryBridge q :: audience) (.change change) :: rest) :
    m.step = if m.isAlive (.queryBridge q) then
        ({ m with todo := rest }.push
          [.deliver audience (.change change)]).hearChange q change
      else { m with todo := rest }.push [.deliver audience (.change change)] := by
  rw [step_of_todo_cons h, ← isAlive_delivering h]
  rfl

/-- A bridge that is told of a change takes the context that it is offered, if
it has none of its own. -/
theorem ownContext_of_told (told : m.IsTold q change) :
    (∀ c, m.Offers q change c →
      m.step.ownContext q = (m.ownContext q).or (some c)) ∧
    ((∀ c, ¬ m.Offers q change c) → m.step.ownContext q = m.ownContext q) := by
  obtain ⟨⟨audience, rest, htodo⟩, halive⟩ := told
  have hstep : m.step.ownContext q =
      if change.affects (m.world.queryBridges.get q).entity then
        (m.ownContext q).or
          (change.origin?.filter fun c => m.isAlive (.context c))
      else m.ownContext q := by
    rw [step_told htodo, if_pos halive, ownContext_hearChange]
    simp only [isAlive_delivering htodo]
    rfl
  rw [hstep]
  constructor
  · intro c hoffers
    obtain ⟨haffects, horigin, horiginAlive⟩ := offers_iff.mp hoffers
    rw [if_pos haffects, horigin, Option.filter_some, if_pos horiginAlive]
  · intro hoffers
    split
    · next haffects =>
      cases hfilter : change.origin?.filter fun c => m.isAlive (.context c) with
      | none => exact Option.or_none
      | some c =>
        obtain ⟨horigin, horiginAlive⟩ := Option.filter_eq_some_iff.mp hfilter
        exact absurd (offers_iff.mpr ⟨haffects, horigin, horiginAlive⟩)
          (hoffers c)
    · rfl

/-- A command that does not bind a query bridge to a context leaves it as it
was, but for its owner. -/
theorem apply_queryBridge_perform {α : Type} {g : QueryBridge → α}
    (observed : ∀ k binding, g (QueryBridge.bind k binding) = g k)
    {command : Command} {nested : Bool} {rest : List Task}
    (h : m.todo = .perform command nested :: rest)
    (has : m.world.Has (.queryBridge q)) (rebinds : ∀ c, ¬ m.Rebinds q c) :
    g (m.step.world.queryBridges.get q) = g (m.world.queryBridges.get q) := by
  cases hbegin : begin { m with todo := rest } command.action with
  | error r =>
    rw [step_of_refused h hbegin]
    rfl
  | ok b =>
    have hhandles := handlesQueries_begin hbegin
    rw [step_of_begin h hbegin, world_push]
    generalize b.machine.world.queryBridges = p at hhandles ⊢
    cases hhandles with
    | leaves => rfl
    | makes name rowType parts made action context =>
      rw [Pool.get_add_of_lt made has]
    | observes d binding =>
      exact Pool.apply_get_modify (g := g) fun k => observed k binding
    | binds name context d c action found foundContext =>
      have hne : q ≠ d := by
        rintro rfl
        obtain ⟨label, a⟩ := command
        obtain rfl : a = .query (.bindContext name context) := action
        exact rebinds c ⟨label, name, context, nested, rest, h, found,
          foundContext⟩
      rw [Pool.get_modify_of_ne _ hne]

/-- Whatever else a step does, a bridge that is there keeps its own context,
or goes on having none. -/
theorem ownContext_of_other (has : m.world.Has (.queryBridge q))
    (rebinds : ∀ c, ¬ m.Rebinds q c) (told : ∀ change, ¬ m.IsTold q change) :
    m.step.ownContext q = m.ownContext q := by
  cases htodo : m.todo with
  | nil => rw [step_of_todo_nil htodo]
  | cons t rest =>
    by_cases hperform : ∃ command nested, t = .perform command nested
    · obtain ⟨command, nested, rfl⟩ := hperform
      exact apply_queryBridge_perform (g := QueryBridge.context)
        (fun _ _ => rfl) htodo has rebinds
    · by_cases hdeliver : ∃ audience change,
          t = .deliver (.queryBridge q :: audience) (.change change)
      · obtain ⟨audience, change, rfl⟩ := hdeliver
        have hdead : ¬ m.isAlive (.queryBridge q) := fun halive =>
          told change ⟨⟨audience, rest, htodo⟩, halive⟩
        rw [step_told htodo, if_neg hdead]
        rfl
      · refine (effect_step htodo).ownContext has
          (fun command nested h => hperform ⟨command, nested, h⟩) ?_
        intro audience change h
        exact absurd ⟨audience, change, h⟩ hdeliver

/-- A bridge that is new has the context that it was made with. -/
theorem ownContext_of_new (new : ¬ m.world.Has (.queryBridge q))
    (has : m.step.world.Has (.queryBridge q)) :
    m.Builds q (m.step.ownContext q) := by
  have hmade (h : m.step.world.queryBridges.next = m.world.queryBridges.next) :
      False := by
    unfold World.Has at has new
    rw [h] at has
    exact new has
  cases htodo : m.todo with
  | nil => exact (hmade (by rw [step_of_todo_nil htodo])).elim
  | cons t rest =>
    by_cases hperform : ∃ command nested, t = .perform command nested
    · obtain ⟨command, nested, rfl⟩ := hperform
      cases hbegin : begin { m with todo := rest } command.action with
      | error r =>
        rw [step_of_refused htodo hbegin] at hmade
        exact (hmade rfl).elim
      | ok b =>
        have hhandles := handlesQueries_begin hbegin
        rw [step_of_begin htodo hbegin] at has hmade ⊢
        rw [ownContext]
        simp only [world_push] at has hmade ⊢
        unfold World.Has at has
        generalize b.machine.world.queryBridges = p at has hmade hhandles ⊢
        cases hhandles with
        | leaves | observes | binds => exact (hmade rfl).elim
        | makes name rowType parts made action context =>
          obtain ⟨label, a⟩ := command
          obtain rfl : a = .query (.newQueryBridge name rowType parts) := action
          have hfresh : q = m.world.queryBridges.fresh :=
            (Pool.eq_fresh_or_lt has).resolve_right new
          refine ⟨label, name, rowType, parts, nested, rest, htodo, hfresh, ?_⟩
          rw [hfresh, ← context]
          exact congrArg QueryBridge.context (Pool.get_add_fresh _ made)
    · have hother : ∀ command nested, t ≠ .perform command nested :=
        fun command nested h => hperform ⟨command, nested, h⟩
      refine (hmade ?_).elim
      rw [step_of_todo_cons htodo]
      by_cases hreceive : ∃ d records purpose, t = .receive d records purpose
      · obtain ⟨d, records, purpose, rfl⟩ := hreceive
        exact congrArg Prod.snd (census_receive (m := { m with todo := rest })
          d records purpose)
      · exact congrArg Prod.snd (census_doTask (m := { m with todo := rest })
          hother fun d records purpose h => hreceive ⟨d, records, purpose, h⟩)

/-! ## Contexts that name themselves -/

/-- The next command makes a context that names itself as the origin of its
saves. -/
def SharesContext (m : Machine) (c : Ref .context) : Prop :=
  ∃ label name bus nested rest,
    m.todo =
      .perform (.mk label (.context (.newContext name .shared bus))) nested ::
        rest ∧
    (m.world.bus? bus).isSome ∧ c = m.world.contexts.fresh

/-- Whoever names itself after a command did so before, or was made to. -/
theorem HandlesContexts.namesItself_iff {w : World} {a : ContextAction}
    {p : Pool .context Context × Pool .queryBridge QueryBridge}
    (h : HandlesContexts w a p)
    (new : ¬ w.Has (.context c) → (w.contexts.get c).namesItself = false) :
    (p.1.get c).namesItself ↔ (w.contexts.get c).namesItself ∨
      a.makesShared ∧ c = w.contexts.fresh := by
  cases h with
  | leaves plain => simp [plain, World.queried]
  | makes made itself =>
    by_cases hc : c = w.contexts.fresh
    · have hold := new (by rw [hc]; exact Nat.lt_irrefl _)
      rw [hold, hc, Pool.get_add_fresh]
      simp [itself]
    · rw [Pool.get_add_of_ne _ hc]
      simp [hc]
  | writes d f plain =>
    have hsame : ((w.modifyMemory d f).contexts.get c).namesItself =
        (w.contexts.get c).namesItself :=
      Pool.apply_get_modify (g := Context.namesItself) fun _ => rfl
    simp [World.queried, hsame, plain]

/-- A context names itself only if a command makes it so. -/
theorem namesItself_begin {a : Action}
    (new : ¬ m.world.Has (.context c) →
      (m.world.contexts.get c).namesItself = false)
    (h : m.begin a = .ok b) :
    (b.machine.world.contexts.get c).namesItself ↔
      (m.world.contexts.get c).namesItself ∨
        ∃ name bus, a = .context (.newContext name .shared bus) ∧
          (m.world.bus? bus).isSome ∧ c = m.world.contexts.fresh := by
  by_cases hcontext : ∃ x, a = .context x
  · obtain ⟨x, rfl⟩ := hcontext
    have hhandles := handlesContexts_beginContext h
    refine (hhandles.namesItself_iff new).trans (or_congr_right ?_)
    constructor
    · rintro ⟨hshared, hc⟩
      cases x with
      | newContext name sort bus =>
        obtain rfl : sort = .shared := of_decide_eq_true hshared
        obtain ⟨n, hn, -⟩ := needed_bind_eq_ok.mp h
        exact ⟨name, bus, rfl, Option.isSome_of_mem hn, hc⟩
      | _ => cases hshared
    · rintro ⟨name, bus, haction, -, hc⟩
      cases haction
      exact ⟨rfl, hc⟩
  · rw [contexts_begin h fun x hx => hcontext ⟨x, hx⟩]
    refine (or_iff_left ?_).symm
    rintro ⟨name, bus, rfl, -⟩
    exact hcontext ⟨_, rfl⟩

/-- A context names itself only if it is made to. -/
theorem namesItself_step
    (new : ¬ m.world.Has (.context c) →
      (m.world.contexts.get c).namesItself = false) :
    (m.step.world.contexts.get c).namesItself ↔
      (m.world.contexts.get c).namesItself ∨ m.SharesContext c := by
  cases htodo : m.todo with
  | nil =>
    rw [step_of_todo_nil htodo, or_iff_left]
    rintro ⟨label, name, bus, nested, rest, hshares, -⟩
    cases htodo.symm.trans hshares
  | cons t rest =>
    rw [step_of_todo_cons htodo]
    by_cases hperform : ∃ command nested, t = .perform command nested
    · obtain ⟨⟨label, action⟩, nested, rfl⟩ := hperform
      have hshares : m.SharesContext c ↔
          ∃ name bus, action = .context (.newContext name .shared bus) ∧
            (m.world.bus? bus).isSome ∧ c = m.world.contexts.fresh := by
        simp [SharesContext, htodo]
      rw [hshares, doTask]
      cases hbegin : begin { m with todo := rest } action with
      | error r =>
        rw [perform_of_refused hbegin]
        refine (or_iff_left ?_).symm
        rintro ⟨name, bus, rfl, hbus, -⟩
        obtain ⟨n, hn⟩ := Option.isSome_iff_exists.mp hbus
        simp [begin, beginContext, needed, hn, bind, Except.bind] at hbegin
      | ok b =>
        rw [perform_of_begin hbegin, world_push]
        exact namesItself_begin (m := { m with todo := rest }) new hbegin
    · have hshares : ¬ m.SharesContext c := by
        rintro ⟨label, name, bus, nested, rest', hshares, -⟩
        cases htodo.symm.trans hshares
        exact hperform ⟨_, _, rfl⟩
      have hsame := apply_context_doTask (m := { m with todo := rest })
        (c := c) (g := Context.namesItself) (fun _ => rfl)
        fun command nested h => hperform ⟨command, nested, h⟩
      rw [or_iff_left hshares, hsame]

theorem has_of_sharesContext (h : m.SharesContext c) :
    m.step.world.Has (.context c) := by
  obtain ⟨label, name, bus, nested, rest, htodo, hbus, rfl⟩ := h
  obtain ⟨n, hn⟩ := Option.isSome_iff_exists.mp hbus
  have hbegin : begin { m with todo := rest }
      (.context (.newContext name .shared bus)) =
      .ok (making { m with todo := rest } name
        (.context m.world.contexts.fresh) fun w =>
          { w with contexts := w.contexts.add ⟨{}, n, true, none⟩ }) := by
    simp only [begin, beginContext, hn, needed]
    rfl
  rw [step_of_begin htodo hbegin]
  simp only [World.Has, world_push, contexts_making, Pool.next_add]
  exact Nat.lt_succ_self _

/-- Along a run, the contexts that name themselves are those that were made
to. -/
theorem namesItself_iff {commands : List Command} {n : ℕ} :
    ((run n (ofCommands commands)).world.contexts.get c).namesItself ↔
      ∃ k < n, (run k (ofCommands commands)).SharesContext c := by
  -- A context that was not made yet does not name itself.
  have hrun : (((run n (ofCommands commands)).world.contexts.get
        c).namesItself ↔
          ∃ k < n, (run k (ofCommands commands)).SharesContext c) ∧
      (¬ (run n (ofCommands commands)).world.Has (.context c) →
        ((run n (ofCommands commands)).world.contexts.get c).namesItself =
          false) := by
    induction n with
    | zero =>
      constructor
      · constructor
        · intro h
          cases h
        · rintro ⟨k, hk, -⟩
          exact absurd hk (Nat.not_lt_zero k)
      · intro _
        rfl
    | succ n ih =>
      obtain ⟨ih, hnew⟩ := ih
      have hstep := namesItself_step hnew
      rw [← run_succ, ih] at hstep
      refine ⟨hstep.trans ?_, fun new => ?_⟩
      · constructor
        · rintro (⟨k, hk, h⟩ | h)
          · exact ⟨k, Nat.lt_succ_of_lt hk, h⟩
          · exact ⟨n, Nat.lt_succ_self n, h⟩
        · rintro ⟨k, hk, h⟩
          rcases Nat.lt_succ_iff_lt_or_eq.mp hk with hk | rfl
          · exact Or.inl ⟨k, hk, h⟩
          · exact Or.inr h
      · rw [run_succ] at new
        have hold : ¬ (run n (ofCommands commands)).world.Has (.context c) :=
          fun has => new (has_step has)
        rw [← Bool.not_eq_true, hstep, ← ih, hnew hold]
        rintro (h | h)
        · cases h
        · exact new (has_of_sharesContext h)
  exact hrun.1

end Machine
end LiveProperty
