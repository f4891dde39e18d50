import LiveProperty.Proofs.Dictionaries
import LiveProperty.Proofs.Machine.Calls
import LiveProperty.Proofs.Machine.Rosters

/-!
# Attaching and detaching

What a step attaches is told from its command.  What it detaches is what its
command says, or what belongs to a handle that is gone after the step.
`roster_step` says that a roster changes by that and by nothing else.
-/

namespace LiveProperty
namespace Machine

variable {m : Machine} {a : Action}

/-! ## What the next step attaches and detaches -/

/-- The listener that the next step attaches, and where. -/
def attaching? (m : Machine) : Option (Ref .notifier × Listener) :=
  match m.todo with
  | .perform c _ :: _ => m.world.attaches? c.action
  | _ => none

/-- The number that the next step is told to detach, and from which
notifier. -/
def detaching? (m : Machine) : Option (Ref .notifier × SubscriberId) :=
  match m.todo with
  | .perform c _ :: _ => m.world.detaches? c.action
  | _ => none

/-- The next step takes the last handle that a client has on an object. -/
def Loses (m : Machine) (o : Object) : Prop :=
  m.isHeld o ∧ ¬ m.step.isHeld o

/-- The next step detaches a number from a notifier, as it is told to, or as
it takes the handle that the number belongs to. -/
def Detaches (m : Machine) (n : Ref .notifier) (id : SubscriberId) : Prop :=
  m.detaching? = some (n, id) ∨
    ∃ o, m.Loses o ∧ m.world.subscriptionOf? o = some ⟨id, n⟩

/-- One machine has a handle on an object that the other has not. -/
def LostIn (m m' : Machine) (n : Ref .notifier) (id : SubscriberId) : Prop :=
  ∃ o, (m.isHeld o ∧ ¬ m'.isHeld o) ∧ m.world.subscriptionOf? o = some ⟨id, n⟩

/-! ## Letting go -/

theorem sameNames_letGo (w : World) (o : Object) :
    (w.letGo o).names = w.names ∧
      (w.letGo o).subscriptionOf? = w.subscriptionOf? := by
  rcases w.letGo_eq o with heq | ⟨s, -, heq⟩
  · rw [heq]
    exact ⟨rfl, rfl⟩
  · rw [heq]
    exact ⟨rfl, funext fun x => by cases x <;> rfl⟩

theorem isHeld_release (o x : Object) :
    (m.release o).isHeld x = m.isHeld x := by
  unfold release
  split
  · rfl
  · simp only [isHeld, World.isNamed, (sameNames_letGo m.world o).1]

theorem subscriptionOf_release (o x : Object) :
    (m.release o).world.subscriptionOf? x = m.world.subscriptionOf? x := by
  unfold release
  split
  · rfl
  · exact congrFun (sameNames_letGo _ _).2 x

theorem subscriptions_release (o : Object) :
    (m.release o).world.subscriptions = m.world.subscriptions := by
  unfold release
  split
  · rfl
  · rcases m.world.letGo_eq o with heq | ⟨s, -, heq⟩
    · rw [heq]
    · rw [heq]
      rfl

theorem isHeld_releaseNamed (x : Option Named) (o : Object) :
    (m.releaseNamed x).isHeld o = m.isHeld o := by
  unfold releaseNamed
  split
  · exact isHeld_release _ _
  · rfl

open Classical in
theorem roster_release (o : Object) (n : Ref .notifier) :
    (m.release o).world.roster n = (m.world.roster n).filter fun entry =>
      ¬ (¬ m.isHeld o ∧ m.world.subscriptionOf? o = some ⟨entry.1, n⟩) := by
  unfold release
  split
  · next held => simp [held]
  · next free =>
    rw [World.roster_letGo]
    exact List.filter_congr fun entry _ => by simp [free]

open Classical in
theorem roster_releaseNamed (x : Option Named) (n : Ref .notifier) :
    (m.releaseNamed x).world.roster n =
      (m.world.roster n).filter fun entry => ¬ ∃ o, x = some (.object o) ∧
        ¬ m.isHeld o ∧ m.world.subscriptionOf? o = some ⟨entry.1, n⟩ := by
  unfold releaseNamed
  split
  · next o =>
    rw [roster_release]
    refine List.filter_congr fun entry _ => ?_
    congr 1
    simp
  · next other =>
    symm
    rw [List.filter_eq_self]
    rintro entry -
    simp only [decide_eq_true_eq, not_exists]
    rintro o ⟨rfl, -⟩
    exact other o rfl

open Classical in
/-- Letting several objects go detaches the numbers of those to which there is
no handle. -/
theorem roster_foldl_release (held : List Object) (n : Ref .notifier) :
    (held.foldl release m).world.roster n =
      (m.world.roster n).filter fun entry => ¬ ∃ o ∈ held,
        ¬ m.isHeld o ∧ m.world.subscriptionOf? o = some ⟨entry.1, n⟩ := by
  induction held generalizing m with
  | nil => simp
  | cons o rest ih =>
    rw [List.foldl_cons, ih, roster_release, List.filter_filter]
    refine List.filter_congr fun entry _ => ?_
    simp only [isHeld_release, subscriptionOf_release, List.mem_cons]
    rw [← Bool.decide_and]
    congr 1
    simp only [exists_eq_or_imp, not_or, eq_iff_iff]
    exact And.comm

/-! ## Names that are given up -/

theorem isNamed_iff {w : World} {o : Object} :
    w.isNamed o ↔ ∃ name, (name, Named.object o) ∈ w.names := by
  simp only [World.isNamed, List.any_eq_true, decide_eq_true_eq]
  constructor
  · rintro ⟨⟨name, x⟩, hmem, rfl⟩
    exact ⟨name, hmem⟩
  · rintro ⟨name, hmem⟩
    exact ⟨_, hmem, rfl⟩

/-- If only one name is given up, what is lost had that name. -/
theorem lookup_of_lost {m' : Machine} {name : String} {o : Object}
    (ordered : m.world.names.Ordered) (todo : m'.todo = m.todo)
    (kept : ∀ entry ∈ m.world.names, entry.1 ≠ name →
      entry ∈ m'.world.names)
    (held : m.isHeld o) (free : ¬ m'.isHeld o) :
    m.world.lookup? name = some (.object o) := by
  rw [isHeld_eq, World.isHeldWith_iff, not_or, todo] at free
  rcases World.isHeldWith_iff.mp held with named | held
  · obtain ⟨other, hmem⟩ := isNamed_iff.mp named
    by_cases heq : other = name
    · subst heq
      exact (Dictionary.find?_eq_some_iff ordered).mpr hmem
    · exact absurd (isNamed_iff.mpr ⟨other, kept _ hmem heq⟩) free.1
  · exact absurd held free.2

theorem isHeld_of_lookup {name : String} {o : Object}
    (h : m.world.lookup? name = some (.object o)) : m.isHeld o :=
  Bool.or_eq_true_iff.mpr (Or.inl (World.isNamed_of_lookup h))

theorem names_releaseNamed (x : Option Named) :
    (m.releaseNamed x).world.names = m.world.names := by
  unfold releaseNamed
  split
  · unfold release
    split
    · rfl
    · exact (sameNames_letGo _ _).1
  · rfl

theorem lookup_of_lost_forget (ordered : m.world.names.Ordered)
    {name : String} {o : Object} (held : m.isHeld o)
    (free : ¬ (m.forget name).isHeld o) :
    m.world.lookup? name = some (.object o) := by
  refine lookup_of_lost ordered ?_ (fun entry hentry ne => ?_) held free
  · rw [forget, releaseNamed_eq]
    rfl
  · rw [forget, names_releaseNamed]
    exact (Dictionary.mem_erase_iff ordered).mpr ⟨hentry, ne⟩

theorem lookup_of_lost_rename {w : World} {name : String} {x : Named}
    {o : Object} (ordered : m.world.names.Ordered)
    (names : w.names = m.world.names) (held : m.isHeld o)
    (free : ¬ (({ m with world := w }).rename name x).isHeld o) :
    m.world.lookup? name = some (.object o) := by
  refine lookup_of_lost ordered ?_ (fun entry hentry ne => ?_) held free
  · rw [rename, releaseNamed_eq]
    rfl
  · rw [rename, names_releaseNamed]
    have hnames : ((({ m with world := w }).modifyWorld
        fun v => v.bindName name x).world).names =
          m.world.names.put name x :=
      congrArg (fun d => Dictionary.put d name x) names
    rw [hnames]
    exact (Dictionary.mem_put_iff ordered).mpr (Or.inr ⟨hentry, ne⟩)

open Classical in
/-- What had a name that is taken away is detached, if there is no other handle
on it. -/
theorem roster_forget (ordered : m.world.names.Ordered) (name : String)
    (n : Ref .notifier) :
    (m.forget name).world.roster n = (m.world.roster n).filter fun entry =>
      ¬ m.LostIn (m.forget name) n entry.1 := by
  have hheld (o : Object) : (m.forget name).isHeld o =
      (m.modifyWorld fun w => w.unbindName name).isHeld o :=
    isHeld_releaseNamed _ o
  have hroster := roster_releaseNamed
    (m := m.modifyWorld fun w => w.unbindName name) (m.world.lookup? name) n
  refine hroster.trans (List.filter_congr fun entry _ => ?_)
  congr 2
  refine propext (exists_congr fun o => ?_)
  rw [← hheld, and_assoc]
  exact ⟨fun ⟨hname, hfree, hs⟩ => ⟨isHeld_of_lookup hname, hfree, hs⟩,
    fun ⟨held, hfree, hs⟩ =>
      ⟨lookup_of_lost_forget ordered held hfree, hfree, hs⟩⟩

open Classical in
/-- A name that is given to something new is taken from what had it, and a
listener that joins at the same time stays. -/
theorem roster_rename {w : World} {new : Option (Ref .notifier × Listener)}
    {name : String} {x : Named} (ordered : m.world.names.Ordered)
    (joins : m.world.Joins w new)
    (has : ∀ o, m.isHeld o → m.world.Has o)
    (fresh : new.isSome → ∀ o s, m.isHeld o →
      m.world.subscriptionOf? o = some s → s.id ≠ m.world.freshSubscriber)
    (n : Ref .notifier) :
    (({ m with world := w }).rename name x).world.roster n =
      ((m.world.roster n).filter fun entry =>
        ¬ m.LostIn (({ m with world := w }).rename name x) n entry.1) ++
          m.world.gains new n := by
  have hheld (o : Object) : (({ m with world := w }).rename name x).isHeld o =
      (({ m with world := w }).modifyWorld
        fun v => v.bindName name x).isHeld o := isHeld_releaseNamed _ o
  have hlookup : w.lookup? name = m.world.lookup? name := by
    rw [World.lookup?, joins.names, World.lookup?]
  have hlost (id : SubscriberId) :
      m.LostIn (({ m with world := w }).rename name x) n id ↔
        ∃ o, w.lookup? name = some (.object o) ∧
          ¬ (({ m with world := w }).modifyWorld
            fun v => v.bindName name x).isHeld o ∧
          (w.bindName name x).subscriptionOf? o = some ⟨id, n⟩ := by
    refine exists_congr fun o => ?_
    have hbind : (w.bindName name x).subscriptionOf? o =
        w.subscriptionOf? o := by cases o <;> rfl
    rw [← hheld, hlookup, hbind, and_assoc]
    constructor
    · rintro ⟨held, hfree, hs⟩
      exact ⟨lookup_of_lost_rename ordered joins.names held hfree, hfree,
        (joins.kept o (has o held)).trans hs⟩
    · rintro ⟨hname, hfree, hs⟩
      have held : m.isHeld o := isHeld_of_lookup hname
      exact ⟨held, hfree, (joins.kept o (has o held)).symm.trans hs⟩
  have hbound : (w.bindName name x).roster n = w.roster n := rfl
  unfold rename
  rw [roster_releaseNamed]
  simp only [world_modifyWorld, hbound, joins.roster, List.filter_append]
  congr 1
  · refine List.filter_congr fun entry _ => ?_
    congr 2
    exact propext (hlost entry.1).symm
  · rw [List.filter_eq_self]
    rintro entry hentry
    obtain ⟨l, hnew, rfl⟩ := World.mem_gains.mp hentry
    apply decide_eq_true
    intro hgone
    obtain ⟨o, ⟨held, -⟩, hs⟩ := (hlost _).mpr hgone
    exact fresh (by simp [hnew]) o _ held hs rfl

/-! ## Steps -/

/-- A command that is refused would not have attached or detached
anything. -/
theorem attaches_of_refused {r : Refusal} (h : m.begin a = .error r) :
    m.world.attaches? a = none ∧ m.world.detaches? a = none := by
  cases a with
  | notice a =>
    cases a with
    | subscribe name source script =>
      cases hn : source? m.world source with
      | none => simp [World.attaches?, World.detaches?, hn]
      | some x =>
        simp [begin, beginNotice, needed, hn, bind, Except.bind] at h
    | unsubscribe notifier subscription =>
      cases hn : m.world.notifier? notifier with
      | none => simp [World.attaches?, World.detaches?, hn]
      | some n =>
        cases hs : m.world.subscription? subscription with
        | none => simp [World.attaches?, World.detaches?, hs]
        | some s =>
          simp [begin, beginNotice, needed, hn, hs, bind, Except.bind] at h
    | _ => exact ⟨rfl, rfl⟩
  | store a =>
    cases a with
    | newKeyBridge name key kind initial store envelope presenter =>
      cases hs : neededIfGiven m.world.store? store with
      | error r => simp [World.attaches?, World.detaches?, hs]
      | ok s =>
        cases hp : neededIfGiven m.world.presenter? presenter with
        | error r => simp [World.attaches?, World.detaches?, hp]
        | ok p => simp [begin, beginStore, hs, hp, bind, Except.bind] at h
    | _ => exact ⟨rfl, rfl⟩
  | query a =>
    cases a with
    | newQueryBridge name rowType parts =>
      cases hd : parts.foldlM (QueryDraft.add m.world)
          { changes := m.world.sharedBus } with
      | error r => simp [World.attaches?, World.detaches?, hd]
      | ok d =>
        cases he : Envelope.ofParts? d.transaction d.animation with
        | none => simp [World.attaches?, World.detaches?, hd, he]
        | some e => simp [begin, beginQuery, hd, he, bind, Except.bind] at h
    | _ => exact ⟨rfl, rfl⟩
  | _ => exact ⟨rfl, rfl⟩

/-- What is known of a machine that tells its listeners apart. -/
structure Listed (m : Machine) : Prop where
  sound : m.Sound
  linked : m.Linked
  ordered : m.world.names.Ordered
  /-- No object has two names. -/
  single : ∀ name name' o, (name, Named.object o) ∈ m.world.names →
    (name', Named.object o) ∈ m.world.names → name = name'
  blank : m.world.Blank
  /-- Commands look up subscriptions, but hold none. -/
  holds : ∀ t ∈ m.todo, HoldsOne t.held

theorem Listed.has_of_isHeld (listed : m.Listed) {o : Object}
    (held : m.isHeld o) : m.world.Has o :=
  listed.sound.has_of_isRooted (Bool.or_eq_true_iff.mpr (Or.inl held))

/-- A handle that a client has has a number of its own. -/
theorem Listed.id_ne_fresh (listed : m.Listed)
    (room : m.world.subscriptions < 2 ^ 64) {o : Object} {s : Subscription}
    (held : m.isHeld o) (hs : m.world.subscriptionOf? o = some s) :
    s.id ≠ m.world.freshSubscriber :=
  listed.linked.id_ne_fresh room
    ⟨listed.has_of_isHeld held, fun _ _ => Or.inl held⟩ hs

/-- Nothing is lost by a step that takes no name and no held object away. -/
theorem not_loses_of_names {t : Task} {rest : List Task}
    (h : m.todo = t :: rest) (held : t.held = [])
    (names : m.step.world.names = m.world.names) (o : Object) : ¬ m.Loses o := by
  rintro ⟨hheld, hfree⟩
  apply hfree
  obtain ⟨pushed, hpushed, -⟩ := todo_step h
  rw [isHeld_eq, World.isHeldWith_iff] at hheld ⊢
  rw [World.isNamed, names, hpushed]
  apply hheld.imp_right
  rintro ⟨x, hx, ho⟩
  rw [h] at hx
  rcases List.mem_cons.mp hx with rfl | hx
  · rw [held] at ho
    exact absurd ho List.not_mem_nil
  · exact ⟨x, List.mem_append_right _ hx, ho⟩

theorem not_detaches {n : Ref .notifier} {id : SubscriberId}
    (told : m.detaching? = none) (lost : ∀ o, ¬ m.Loses o) :
    ¬ m.Detaches n id := by
  rintro (h | ⟨o, ho, -⟩)
  · rw [told] at h
    cases h
  · exact lost o ho

/-- What a step is the loss of, if it only answers, is what its command
lost. -/
theorem loses_answering {c : Command} {nested : Bool} {rest : List Task}
    {x : Machine} {r : Reply} (h : m.todo = .perform c nested :: rest)
    (hbegin : begin { m with todo := rest } c.action = .ok (x.answering r))
    (o : Object) :
    m.Loses o ↔
      ({ m with todo := rest } : Machine).isHeld o ∧ ¬ x.isHeld o := by
  have hbefore : m.isHeld o = ({ m with todo := rest } : Machine).isHeld o := by
    simp [isHeld, h, Task.held]
  have hafter : m.step.isHeld o = x.isHeld o := by
    rw [step_of_begin h hbegin]
    simp [isHeld, answering, push, Task.held]
  rw [Loses, hbefore, hafter]

theorem names_finish (label : Json) (held : List Object) (nested : Bool) :
    (m.finish label held nested).world.names = m.world.names := by
  have hfoldl (x : Machine) :
      (held.foldl release x).world.names = x.world.names := by
    induction held generalizing x with
    | nil => rfl
    | cons o rest ih =>
      rw [List.foldl_cons, ih, release]
      split
      · rfl
      · exact (sameNames_letGo _ o).1
  rw [finish, hfoldl]
  cases nested <;> rfl

/-- When a command is finished, what is lost is what it held and nobody else
has a handle on. -/
theorem loses_finish {label : Json} {held : List Object} {nested : Bool}
    {rest : List Task} (h : m.todo = .finish label held nested :: rest)
    (o : Object) :
    m.Loses o ↔
      o ∈ held ∧ ¬ ({ m with todo := rest } : Machine).isHeld o := by
  have hnames : m.step.world.names = m.world.names := by
    rw [step_of_todo_cons h, doTask, names_finish]
  have hafter : m.step.isHeld o =
      ({ m with todo := rest } : Machine).isHeld o := by
    simp only [isHeld, World.isNamed, hnames, (step_finish h).1]
  have hbefore : m.isHeld o ↔
      o ∈ held ∨ ({ m with todo := rest } : Machine).isHeld o := by
    simp [isHeld, h, Task.held, or_left_comm]
  rw [Loses, hbefore, hafter]
  constructor
  · rintro ⟨ho | ho, hfree⟩
    · exact ⟨ho, hfree⟩
    · exact absurd ho hfree
  · rintro ⟨ho, hfree⟩
    exact ⟨Or.inl ho, hfree⟩

open Classical in
theorem roster_finish {label : Json} {held : List Object} {nested : Bool}
    {rest : List Task} (h : m.todo = .finish label held nested :: rest)
    (n : Ref .notifier) :
    m.step.world.roster n =
      (m.world.roster n).filter fun entry => ¬ m.Detaches n entry.1 := by
  have hdetaches (id : SubscriberId) : m.Detaches n id ↔
      ∃ o ∈ held, ¬ ({ m with todo := rest } : Machine).isHeld o ∧
        m.world.subscriptionOf? o = some ⟨id, n⟩ := by
    simp [Detaches, detaching?, h, loses_finish h, and_assoc]
  have hfinish : m.step = held.foldl release (if nested then
      ({ m with todo := rest } : Machine).tell (.finished label m.reply)
      else { m with todo := rest }) := step_of_todo_cons h
  rw [hfinish, roster_foldl_release]
  have hreported (x : Machine)
      (hx : x = (if nested then
        ({ m with todo := rest } : Machine).tell (.finished label m.reply)
        else { m with todo := rest })) :
      x.world.roster n = m.world.roster n ∧
        x.isHeld = ({ m with todo := rest } : Machine).isHeld ∧
        x.world.subscriptionOf? = m.world.subscriptionOf? := by
    subst hx
    cases nested
    · exact ⟨rfl, rfl, rfl⟩
    · exact ⟨rfl, rfl, funext fun o => by cases o <;> rfl⟩
  obtain ⟨hroster, hheld, hsubscription⟩ := hreported _ rfl
  rw [hroster, hheld, hsubscription]
  refine List.filter_congr fun entry _ => ?_
  congr 2
  exact propext (hdetaches entry.1).symm

open Classical in
/-- The roster that a notifier has after the next step: listeners that are
detached leave it, and one that is attached stands behind all others. -/
noncomputable def nextRoster (m : Machine) (n : Ref .notifier) :
    List (SubscriberId × Listener) :=
  ((m.world.roster n).filter fun entry => ¬ m.Detaches n entry.1) ++
    m.world.gains m.attaching? n

theorem mem_nextRoster {n : Ref .notifier} {entry : SubscriberId × Listener} :
    entry ∈ m.nextRoster n ↔
      entry ∈ m.world.roster n ∧ ¬ m.Detaches n entry.1 ∨
        ∃ l, m.attaching? = some (n, l) ∧
          entry = (m.world.freshSubscriber, l) := by
  simp only [nextRoster, List.mem_append, List.mem_filter, World.mem_gains,
    decide_eq_true_eq]

theorem nextRoster_of_quiet (attaches : m.attaching? = none)
    (detaches : m.detaching? = none) (lost : ∀ o, ¬ m.Loses o)
    (n : Ref .notifier) : m.nextRoster n = m.world.roster n := by
  rw [nextRoster, attaches, World.gains_none, List.append_nil,
    List.filter_eq_self]
  exact fun entry _ => by simpa using not_detaches detaches lost

theorem detaching_of_perform {c : Command} {nested : Bool} {rest : List Task}
    (h : m.todo = .perform c nested :: rest) :
    m.detaching? = m.world.detaches? c.action := by
  simp [detaching?, h]

theorem attaching_of_perform {c : Command} {nested : Bool} {rest : List Task}
    (h : m.todo = .perform c nested :: rest) :
    m.attaching? = m.world.attaches? c.action := by
  simp [attaching?, h]

theorem World.attaches_of_detaches {w : World} {n : Ref .notifier}
    {id : SubscriberId} (h : w.detaches? a = some (n, id)) :
    w.attaches? a = none := by
  cases a with
  | notice a =>
    cases a with
    | unsubscribe notifier subscription => rfl
    | _ => cases h
  | _ => cases h

theorem subscriptions_rename (name : String) (x : Named) :
    (m.rename name x).world.subscriptions = m.world.subscriptions := by
  unfold rename releaseNamed
  split
  · rw [subscriptions_release]
    rfl
  · rfl

theorem roster_step_of_detaches {c : Command} {nested : Bool}
    {rest : List Task} (h : m.todo = .perform c nested :: rest)
    {source : Ref .notifier} {id : SubscriberId}
    (named : m.world.detaches? c.action = some (source, id))
    (hbegin : begin { m with todo := rest } c.action =
      .ok (({ m with todo := rest } : Machine).changing
        fun w => w.detach source id))
    (n : Ref .notifier) : m.step.world.roster n = m.nextRoster n := by
  have hstep := step_of_begin h hbegin
  have hlost := not_loses_of_names h rfl (by rw [hstep]; rfl)
  have hattaching : m.attaching? = none := by
    rw [attaching_of_perform h, World.attaches_of_detaches named]
  have hroster : m.step.world.roster n =
      (m.world.detach source id).roster n := by rw [hstep]; rfl
  rw [hroster, World.roster_detach, nextRoster, hattaching, World.gains_none,
    List.append_nil]
  refine List.filter_congr fun entry _ => ?_
  congr 2
  simp [Detaches, detaching_of_perform h, named, hlost, eq_comm]

/-- What a command that only answers loses is detached. -/
theorem detaches_iff_lostIn {c : Command} {nested : Bool} {rest : List Task}
    {x : Machine} {r : Reply} (h : m.todo = .perform c nested :: rest)
    (hbegin : begin { m with todo := rest } c.action = .ok (x.answering r))
    (detaches : m.world.detaches? c.action = none) (n : Ref .notifier)
    (id : SubscriberId) :
    m.Detaches n id ↔ LostIn { m with todo := rest } x n id := by
  simp [Detaches, detaching_of_perform h, detaches, loses_answering h hbegin,
    LostIn]

theorem roster_step_of_perform (listed : m.Listed)
    (room : m.step.world.subscriptions ≤ 2 ^ 64) {c : Command} {nested : Bool}
    {rest : List Task} (h : m.todo = .perform c nested :: rest)
    (n : Ref .notifier) : m.step.world.roster n = m.nextRoster n := by
  cases hbegin : begin { m with todo := rest } c.action with
  | error r =>
    obtain ⟨hattaches, hdetaches⟩ := attaches_of_refused hbegin
    have hstep := step_of_refused h hbegin
    have hlost := not_loses_of_names h rfl (by rw [hstep]; rfl)
    rw [nextRoster_of_quiet ((attaching_of_perform h).trans hattaches)
      ((detaching_of_perform h).trans hdetaches) hlost, hstep]
    rfl
  | ok b =>
    have hstep := step_of_begin h hbegin
    have hhandles := handles_begin (m := { m with todo := rest })
      listed.blank hbegin
    have hheld {o : Object}
        (ho : ({ m with todo := rest } : Machine).isHeld o) : m.isHeld o := by
      simpa [isHeld, h, Task.held] using ho
    cases hhandles with
    | stays names roster held announced attaches detaches =>
      have hlost := not_loses_of_names h rfl (by rw [hstep]; exact names)
      rw [nextRoster_of_quiet ((attaching_of_perform h).trans attaches)
        ((detaching_of_perform h).trans detaches) hlost, hstep]
      exact roster n
    | detaches source id named =>
      exact roster_step_of_detaches h named hbegin n
    | forgets name discards =>
      have hdetaches : m.world.detaches? c.action = none := by
        rcases discards with heq | heq <;> rw [heq] <;> rfl
      have hattaches : m.attaching? = none := by
        rw [attaching_of_perform h]
        rcases discards with heq | heq <;> rw [heq] <;> rfl
      have hroster := roster_forget (m := { m with todo := rest })
        listed.ordered name n
      have hworld : m.step.world =
          (forget { m with todo := rest } name).world := by rw [hstep]; rfl
      rw [hworld, hroster, nextRoster, hattaches, World.gains_none,
        List.append_nil]
      refine List.filter_congr fun entry _ => ?_
      congr 2
      exact propext (detaches_iff_lostIn h hbegin hdetaches n entry.1).symm
    | @renames w name x r joins new detaches =>
      have hworld : m.step.world =
          (({ m with todo := rest, world := w } : Machine).rename name x).world := by
        rw [hstep]
        rfl
      have hroster (k : Ref .notifier) :
          (({ m with todo := rest, world := w } : Machine).rename name
            x).world.roster k = _ :=
        roster_rename (m := { m with todo := rest }) (x := x) listed.ordered
          joins (fun o ho => listed.has_of_isHeld (hheld ho))
          (fun hnew o s ho hs => ?_) k
      · rw [hworld, hroster n, nextRoster, attaching_of_perform h]
        congr 1
        refine List.filter_congr fun entry _ => ?_
        congr 2
        exact propext (detaches_iff_lostIn h hbegin detaches n entry.1).symm
      · refine listed.id_ne_fresh ?_ (hheld ho) hs
        rw [hworld, subscriptions_rename] at room
        have hcount := joins.count hnew
        simp only at hcount room
        omega

theorem roster_step (listed : m.Listed)
    (room : m.step.world.subscriptions ≤ 2 ^ 64) (n : Ref .notifier) :
    m.step.world.roster n = m.nextRoster n := by
  cases htodo : m.todo with
  | nil =>
    have hstep := step_of_todo_nil htodo
    have hlost (o : Object) : ¬ m.Loses o := by
      rintro ⟨hheld, hfree⟩
      rw [hstep] at hfree
      exact hfree hheld
    rw [nextRoster_of_quiet (by simp [attaching?, htodo])
      (by simp [detaching?, htodo]) hlost, hstep]
  | cons t rest =>
    cases t with
    | finish label held nested =>
      have hattaching : m.attaching? = none := by simp [attaching?, htodo]
      rw [roster_finish htodo, nextRoster, hattaching, World.gains_none,
        List.append_nil]
    | perform c nested => exact roster_step_of_perform listed room htodo n
    | _ =>
      have hsame : SameNames { m with todo := rest } m.step := by
        rw [step_of_todo_cons htodo]
        exact sameNames_doTask (by simp) (by simp)
      obtain ⟨hnames, hnotifiers⟩ := hsame
      have hlost := not_loses_of_names htodo rfl hnames
      rw [nextRoster_of_quiet (by simp [attaching?, htodo])
        (by simp [detaching?, htodo]) hlost]
      exact World.roster_of_notifiers_eq hnotifiers n

end Machine

end LiveProperty
