import LiveProperty.Proofs.Machine.Cores
import LiveProperty.Proofs.Machine.StoredValues
import LiveProperty.Proofs.Tokens

/-!
# Calls of trackers

Several trackers may store their tokens under one key of a store.  A call
reads the token, asks its source, and stores the newest token of what it
answers.  As long as neither the store nor the source runs a callback of its
own, and nobody else writes the key, nothing comes in between: a machine is
in one of the phases of a single call, or in none.
-/

namespace LiveProperty

namespace World

/-- A tracker that stores its token under a key of a store. -/
def Tracks (w : World) (s : Ref .store) (key : String) (t : Ref .tracker) :
    Prop :=
  (w.trackers.get t).store = s ∧ (w.trackers.get t).key = key

instance (w : World) (s : Ref .store) (key : String) (t : Ref .tracker) :
    Decidable (w.Tracks s key t) :=
  inferInstanceAs (Decidable (_ ∧ _))

/-- The token that is stored under a key of a store, if one is. -/
def token? (w : World) (s : Ref .store) (key : String) : Option HistoryToken :=
  (w.storedValue s key).bind fun stored =>
    (HistoryToken.decode stored).toOption

end World

/-- A part of a call between the reading of the token and its storing. -/
def Task.UsesToken (w : World) (s : Ref .store) (key : String) : Task → Prop
  | .askHistory t _ => w.Tracks s key t
  | .takeBatch t => w.Tracks s key t
  | .write d k _ => d = s ∧ k = key
  | _ => False

/-- Where a source is asked to start, if a token is stored or if none is. -/
def HistoryCursor.ofToken (token : Option HistoryToken) : HistoryCursor :=
  token.elim .recent .after

theorem Tracker.eq_of_core_eq {t t' : Tracker} (h : t'.core = t.core) :
    t'.label = t.label ∧ t'.store = t.store ∧ t'.key = t.key ∧
      t'.changes = t.changes := by
  have hlabel := congrArg Tracker.label h
  have hstore := congrArg Tracker.store h
  have hkey := congrArg Tracker.key h
  have hchanges := congrArg Tracker.changes h
  exact ⟨hlabel, hstore, hkey, hchanges⟩

namespace Machine

variable {m : Machine} {s : Ref .store} {key : String}

/-- Whether the next task, if it is a command, writes the key only by way of
a tracker. -/
def spares (m : Machine) (s : Ref .store) (key : String) : Bool :=
  match m.todo with
  | .perform c _ :: rest =>
    match begin { m with todo := rest } c.action with
    | .ok b => b.tasks.all fun
      | .write d k _ => ¬ (d = s ∧ k = key)
      | _ => true
    | .error _ => true
  | _ => true

/-- Whether the next task, if it is a callback that the store or the source
runs during a call of a tracker, does nothing. -/
def undisturbed (m : Machine) (s : Ref .store) (key : String) : Bool :=
  match m.todo with
  | .fire p :: .askHistory t _ :: _ =>
    m.world.Tracks s key t → (m.world.plans.get p).schedule.current.isEmpty
  | .fire p :: .takeBatch t :: _ =>
    m.world.Tracks s key t → (m.world.plans.get p).schedule.current.isEmpty
  | _ => true

/-- What the next task reads from the source of a tracker. -/
def batch? (m : Machine) (s : Ref .store) (key : String) :
    Option (List HistoryTransaction) :=
  match m.todo with
  | .takeBatch t :: _ =>
    if m.world.Tracks s key t then (m.world.trackers.get t).batch.toOption
    else none
  | _ => none

/-- A machine that is in one phase of a single call, or in none, and the
token that is stored, or is about to be. -/
inductive Phase (m : Machine) (s : Ref .store) (key : String) :
    Option HistoryToken → Prop
  | apart (quiet : ∀ x ∈ m.todo, ¬ x.UsesToken m.world s key) :
      Phase m s key (m.world.token? s key)
  | reads (p : Ref .plan) (t : Ref .tracker) {rest : List Task}
      (todo : m.todo =
        .fire p :: .askHistory t (m.world.storedValue s key) :: rest)
      (tracks : m.world.Tracks s key t)
      (quiet : ∀ x ∈ rest, ¬ x.UsesToken m.world s key) :
      Phase m s key (m.world.token? s key)
  | asks (t : Ref .tracker) {rest : List Task}
      (todo : m.todo = .askHistory t (m.world.storedValue s key) :: rest)
      (tracks : m.world.Tracks s key t)
      (quiet : ∀ x ∈ rest, ¬ x.UsesToken m.world s key) :
      Phase m s key (m.world.token? s key)
  | calls (p : Ref .plan) (t : Ref .tracker) {rest : List Task}
      {journal : List Happening}
      (todo : m.todo = .fire p :: .takeBatch t :: rest)
      (tracks : m.world.Tracks s key t)
      (quiet : ∀ x ∈ rest, ¬ x.UsesToken m.world s key)
      (asked : m.world.journal =
        .historyAsked t (m.world.trackers.get t).label
          (.ofToken (m.world.token? s key)) :: journal) :
      Phase m s key (m.world.token? s key)
  | takes (t : Ref .tracker) {rest : List Task} {journal : List Happening}
      (todo : m.todo = .takeBatch t :: rest)
      (tracks : m.world.Tracks s key t)
      (quiet : ∀ x ∈ rest, ¬ x.UsesToken m.world s key)
      (asked : m.world.journal =
        .historyAsked t (m.world.trackers.get t).label
          (.ofToken (m.world.token? s key)) :: journal) :
      Phase m s key (m.world.token? s key)
  | stores (stored : StoreValue) (token : HistoryToken) {rest : List Task}
      (todo : m.todo = .write s key (some stored) :: rest)
      (decode : HistoryToken.decode stored = .ok token)
      (quiet : ∀ x ∈ rest, ¬ x.UsesToken m.world s key) :
      Phase m s key (some token)

/-! ## What does not change -/

theorem tracks_step {t : Ref .tracker} (has : m.world.Has (.tracker t)) :
    m.step.world.Tracks s key t ↔ m.world.Tracks s key t := by
  obtain ⟨-, hstore, hkey, -⟩ :=
    Tracker.eq_of_core_eq (tracker_core_step has)
  rw [World.Tracks, World.Tracks, hstore, hkey]

theorem usesToken_step {x : Task} (sound : x.Sound m.world) :
    x.UsesToken m.step.world s key ↔ x.UsesToken m.world s key := by
  cases x with
  | askHistory t stored =>
    exact tracks_step (sound.objects _ List.mem_cons_self)
  | takeBatch t => exact tracks_step (sound.objects _ List.mem_cons_self)
  | _ => exact Iff.rfl

/-- Tasks that do not use the token still do not while they wait. -/
theorem quiet_step (sound : m.Sound) {front rest : List Task}
    (htodo : m.todo = front ++ rest)
    (quiet : ∀ x ∈ rest, ¬ x.UsesToken m.world s key) :
    ∀ x ∈ rest, ¬ x.UsesToken m.step.world s key := by
  intro x hx huses
  have hsound := sound.todo x (htodo ▸ List.mem_append_right front hx)
  exact quiet x hx ((usesToken_step hsound).mp huses)

theorem storedValue_of_other (has : m.world.Has (.store s)) {t : Task}
    {rest : List Task} (htodo : m.todo = t :: rest)
    (other : ∀ value, t ≠ .write s key value) :
    m.step.world.storedValue s key = m.world.storedValue s key := by
  apply storedValue_step has
  rintro ⟨value, rest', hwrite⟩
  rw [htodo] at hwrite
  exact other value (List.cons.inj hwrite).1

theorem token?_of_other (has : m.world.Has (.store s)) {t : Task}
    {rest : List Task} (htodo : m.todo = t :: rest)
    (other : ∀ value, t ≠ .write s key value) :
    m.step.world.token? s key = m.world.token? s key := by
  rw [World.token?, storedValue_of_other has htodo other, World.token?]

/-! ## Apart from a call -/

/-- A task other than a command that does not use the token leads to none
that does. -/
theorem quiet_of_follows (sound : m.Sound) {t x : Task} {rest : List Task}
    (htodo : m.todo = t :: rest)
    (other : ∀ c nested, t ≠ .perform c nested)
    (quiet : ¬ t.UsesToken m.world s key)
    (h : Follows { m with todo := rest } t x) :
    ¬ x.UsesToken m.step.world s key := by
  intro huses
  cases h with
  | begun c nested left => exact other c nested rfl
  | takeBatch d stored =>
    have hhas : m.world.Has (.tracker d) :=
      sound.has_of_head htodo List.mem_cons_self
    exact quiet ((tracks_step hhas).mp huses)
  | storeToken d => exact quiet huses
  | _ => exact huses

/-- A command that asks the source of a tracker is a call of the tracker. -/
theorem eq_readingToken {bound : ℕ} {b : Begun} (h : Begins m bound b)
    {t : Ref .tracker} {stored : Option StoreValue}
    (hx : .askHistory t stored ∈ b.tasks) :
    b = m.readingToken t (Task.askHistory t) := by
  have hfront {front : List Task} {last : Task}
      (front_ne : ∀ y ∈ front, y ≠ .askHistory t stored)
      (last_ne : last ≠ .askHistory t stored) :
      .askHistory t stored ∉ front ++ [last] := by
    intro hmem
    rcases List.mem_append.mp hmem with hmem | hmem
    · exact front_ne _ hmem rfl
    · exact last_ne (List.mem_singleton.mp hmem).symm
  have hread (d : Ref .store) : ∀ y ∈ readTasks m.world d,
      y ≠ .askHistory t stored := by
    intro y hy
    obtain ⟨p, -, rfl⟩ := by simpa [readTasks] using hy
    simp
  have haccess (d : Bridge) : ∀ y ∈ m.accessTasks d,
      y ≠ .askHistory t stored := by
    intro y hy
    unfold accessTasks at hy
    split at hy
    · rcases List.mem_cons.mp hy with rfl | hy
      · simp
      · rw [List.mem_singleton.mp hy]
        simp
    · exact absurd hy List.not_mem_nil
  cases h with
  | readDefault k => exact absurd hx (hfront (hread _) (by simp))
  | getKey d named => exact absurd hx (hfront (haccess _) (by simp))
  | results q named => exact absurd hx (hfront (haccess _) (by simp))
  | observe r apply reaction named small =>
    rcases List.mem_append.mp hx with hx | hx
    · obtain ⟨c, -, hc⟩ := List.mem_map.mp hx
      cases hc
    · simp at hx
  | readToken d next named tracked =>
    rcases tracked with rfl | rfl
    · rcases List.mem_append.mp hx with hx | hx
      · exact absurd rfl (hread _ _ hx)
      · obtain ⟨rfl, -⟩ := Task.askHistory.inj (List.mem_singleton.mp hx)
        rfl
    · exact absurd hx (hfront (hread _) (by simp))
  | announce n event => simp [announcing] at hx
  | _ => simp at hx

/-- Where a call of a tracker begins, its token is read, and the callback of
the store, if it has one, is run. -/
theorem step_readingToken {t : Ref .tracker} {c : Command} {nested : Bool}
    {rest : List Task} (htodo : m.todo = .perform c nested :: rest)
    (hbegin : begin { m with todo := rest } c.action =
      .ok ({ m with todo := rest }.readingToken t (Task.askHistory t)))
    (tracks : m.world.Tracks s key t) :
    m.step = ⟨m.world.noteRead s key,
      readTasks m.world s ++ .askHistory t (m.world.storedValue s key) ::
        .finish c.label [.tracker t] nested :: rest, m.reply⟩ := by
  obtain ⟨rfl, rfl⟩ := tracks
  rw [step_of_begin htodo hbegin]
  simp only [readingToken, push, modifyWorld, List.append_assoc]
  rfl

theorem phase_readingToken {t : Ref .tracker} {c : Command} {nested : Bool}
    {rest : List Task} (htodo : m.todo = .perform c nested :: rest)
    (hbegin : begin { m with todo := rest } c.action =
      .ok ({ m with todo := rest }.readingToken t (Task.askHistory t)))
    (tracks : m.world.Tracks s key t)
    (quiet : ∀ x ∈ rest, ¬ x.UsesToken m.world s key) :
    m.step.Phase s key (m.world.token? s key) := by
  have hquiet : ∀ x ∈ .finish c.label [.tracker t] nested :: rest,
      ¬ x.UsesToken m.world s key := by
    intro x hx
    rcases List.mem_cons.mp hx with rfl | hx
    · exact id
    · exact quiet x hx
  rw [step_readingToken htodo hbegin tracks]
  cases honRead : (m.world.stores.get s).onRead with
  | none =>
    refine .asks t ?_ tracks hquiet
    simp only [readTasks, honRead]
    rfl
  | some p =>
    refine .reads p t ?_ tracks hquiet
    simp only [readTasks, honRead]
    rfl

/-- What a command leaves uses the token only if it is a call of a tracker,
as it does not write the key itself. -/
theorem quiet_of_begins {bound : ℕ} {b : Begun} (h : Begins m bound b)
    (spares : b.tasks.all fun
      | .write d k _ => ¬ (d = s ∧ k = key)
      | _ => true)
    (other : ∀ t, m.world.Tracks s key t →
      b ≠ m.readingToken t (Task.askHistory t)) :
    ∀ x ∈ b.tasks, ¬ x.UsesToken m.world s key := by
  intro x hx huses
  have hleaves := leaves_of_begins h hx
  cases hleaves with
  | write d k value offered =>
    have hspares := List.all_eq_true.mp spares _ hx
    simp only [decide_eq_true_eq] at hspares
    exact hspares huses
  | askHistory t named => exact other t huses (eq_readingToken h hx)
  | _ => exact huses

theorem phase_of_command (sound : m.Sound) (has : m.world.Has (.store s))
    (spares : m.spares s key) {c : Command} {nested : Bool} {rest : List Task}
    (htodo : m.todo = .perform c nested :: rest)
    (quiet : ∀ x ∈ rest, ¬ x.UsesToken m.world s key) :
    m.step.Phase s key (m.world.token? s key) := by
  have htoken : m.step.world.token? s key = m.world.token? s key :=
    token?_of_other has htodo (by simp)
  rw [Machine.spares, htodo] at spares
  simp only at spares
  cases hbegin : begin { m with todo := rest } c.action with
  | error r =>
    rw [← htoken]
    refine .apart ?_
    intro x hx
    rw [step_of_refused htodo hbegin] at hx ⊢
    rcases List.mem_append.mp hx with hx | hx
    · rcases List.mem_cons.mp hx with rfl | hx
      · exact id
      · rw [List.mem_singleton.mp hx]
        exact id
    · exact quiet x hx
  | ok b =>
    rw [hbegin] at spares
    have hbegins := begins_of_begin hbegin
    by_cases hcall : ∃ t, m.world.Tracks s key t ∧
        b = { m with todo := rest }.readingToken t (Task.askHistory t)
    · obtain ⟨t, htracks, rfl⟩ := hcall
      exact phase_readingToken htodo hbegin htracks quiet
    · have hquiet := quiet_of_begins hbegins spares
        fun t htracks heq => hcall ⟨t, htracks, heq⟩
      rw [← htoken]
      refine .apart ?_
      intro x hx huses
      have hmem : x ∈ b.tasks ++ [.finish c.label b.held nested] ∨
          x ∈ rest := by
        rw [step_of_begin htodo hbegin, todo_push, hbegins.todo_eq] at hx
        exact List.mem_append.mp hx
      rcases hmem with hx | hx
      · rcases List.mem_append.mp hx with hx | hx
        · have hsound : x.Sound m.world :=
            (sound.below htodo).leaves (leaves_of_begins hbegins hx)
          exact hquiet x hx ((usesToken_step hsound).mp huses)
        · rw [List.mem_singleton.mp hx] at huses
          exact huses
      · have hfront : m.todo = [.perform c nested] ++ rest := htodo
        exact quiet_step sound hfront quiet x hx huses

/-- What is apart from a call stays so, or a call begins. -/
theorem phase_of_apart (sound : m.Sound) (has : m.world.Has (.store s))
    (spares : m.spares s key)
    (quiet : ∀ x ∈ m.todo, ¬ x.UsesToken m.world s key) :
    m.batch? s key = none ∧ m.step.Phase s key (m.world.token? s key) := by
  cases htodo : m.todo with
  | nil =>
    rw [step_of_todo_nil htodo]
    exact ⟨by simp [batch?, htodo], .apart quiet⟩
  | cons t rest =>
    rw [htodo] at quiet
    have hrest : ∀ x ∈ rest, ¬ x.UsesToken m.world s key :=
      fun x hx => quiet x (List.mem_cons_of_mem t hx)
    have hhead := quiet t List.mem_cons_self
    constructor
    · cases t with
      | takeBatch d =>
        simp only [batch?, htodo]
        exact if_neg hhead
      | _ => simp [batch?, htodo]
    · by_cases hperform : ∃ c nested, t = .perform c nested
      · obtain ⟨c, nested, rfl⟩ := hperform
        exact phase_of_command sound has spares htodo hrest
      · have hother : ∀ c nested, t ≠ .perform c nested :=
          fun c nested heq => hperform ⟨c, nested, heq⟩
        have hkeeps : ∀ value, t ≠ .write s key value := by
          rintro value rfl
          exact hhead ⟨rfl, rfl⟩
        have htoken : m.step.world.token? s key = m.world.token? s key :=
          token?_of_other has htodo hkeeps
        rw [← htoken]
        refine .apart ?_
        intro x hx
        obtain ⟨pushed, hpushed, hfollows⟩ := todo_step htodo
        rw [hpushed] at hx
        rcases List.mem_append.mp hx with hx | hx
        · exact quiet_of_follows sound htodo hother hhead (hfollows x hx)
        · have hfront : m.todo = [t] ++ rest := htodo
          exact quiet_step sound hfront hrest x hx

/-! ## During a call -/

theorem step_fire {p : Ref .plan} {rest : List Task}
    (htodo : m.todo = .fire p :: rest)
    (idle : (m.world.plans.get p).schedule.current.isEmpty) :
    m.step.todo = rest ∧ m.step.world.journal = m.world.journal ∧
      m.step.world.trackers = m.world.trackers := by
  rw [step_of_todo_cons htodo]
  refine ⟨?_, rfl, rfl⟩
  simp [doTask, fire, Task.nested, List.isEmpty_iff.mp idle, push]

theorem lastToken_snd (t : Ref .tracker) (stored : Option StoreValue) :
    (m.lastToken t stored).2 =
      stored.bind fun stored => (HistoryToken.decode stored).toOption := by
  cases stored with
  | none => rfl
  | some stored =>
    simp only [lastToken, Option.bind_some]
    split
    · next token htoken =>
      rw [htoken]
      rfl
    · next e he =>
      rw [he]
      rfl

/-- The source is asked for what came after the token that was read. -/
theorem step_askHistory {t : Ref .tracker} {stored : Option StoreValue}
    {rest : List Task} (htodo : m.todo = .askHistory t stored :: rest) :
    m.step.todo =
        .fire (m.world.trackers.get t).onCall :: .takeBatch t :: rest ∧
      ∃ told, m.step.world = { m.world with
        journal := .historyAsked t (m.world.trackers.get t).label
          (.ofToken (stored.bind fun stored =>
            (HistoryToken.decode stored).toOption)) :: told } := by
  rw [step_of_todo_cons htodo]
  obtain ⟨told, -, htold⟩ := lastToken_eq (m := { m with todo := rest }) t
    stored
  have htoken := lastToken_snd (m := { m with todo := rest }) t stored
  refine ⟨?_, told ++ m.world.journal, ?_⟩
  · simp only [doTask, askHistory, htold]
    rfl
  · simp only [doTask, askHistory, htold, htoken]
    rfl

/-- A failure is answered, and leaves everything as it is. -/
theorem step_takeBatch_of_error {t : Ref .tracker} {rest : List Task}
    {e : BridgeError} (htodo : m.todo = .takeBatch t :: rest)
    (failed : (m.world.trackers.get t).batch = .error e) :
    m.step.todo = rest ∧ m.step.reply = .failed (.history e.message) ∧
      m.step.world.journal = .historyFailed t e ::
        .historyAnswered t (.error e) :: m.world.journal := by
  rw [step_of_todo_cons htodo]
  simp only [doTask, takeBatch, failed]
  exact ⟨rfl, rfl, rfl⟩

/-- What is to be stored is the token of the newest transaction. -/
theorem step_takeBatch_of_ok {t : Ref .tracker} {rest : List Task}
    {transactions : List HistoryTransaction}
    (htodo : m.todo = .takeBatch t :: rest)
    (ok : (m.world.trackers.get t).batch = .ok transactions) :
    m.step.todo = (transactions.getLast?.map fun newest =>
        storeToken (m.world.trackers.get t) t newest.token).toList ++
      .announceRemote t transactions.length (touchedEntities transactions) ::
        rest := by
  rw [step_of_todo_cons htodo]
  simp only [doTask, takeBatch, ok, todo_push, List.append_assoc]
  rfl

/-- Every token can be stored. -/
theorem storeToken_eq (tr : Tracker) (t : Ref .tracker)
    (token : HistoryToken) :
    ∃ stored, storeToken tr t token = .write tr.store tr.key (some stored) ∧
      HistoryToken.decode stored = .ok token := by
  obtain ⟨stored, hencode, hdecode⟩ := token.decode_encode
  exact ⟨stored, by simp only [storeToken, hencode], hdecode⟩

/-- A token that is written is what is stored then. -/
theorem step_write_token {stored : StoreValue} {token : HistoryToken}
    {rest : List Task} (htodo : m.todo = .write s key (some stored) :: rest)
    (decode : HistoryToken.decode stored = .ok token) :
    m.step.todo = .deliver (m.world.audience (m.world.stores.get s).changes)
        (.key key) :: rest ∧
      m.step.world.token? s key = some token := by
  rw [step_of_todo_cons htodo]
  refine ⟨rfl, ?_⟩
  have hget : (m.world.writeValue s key (some stored)).stores.get s =
      (m.world.stores.get s).write key (some stored) :=
    Pool.get_modify_self _
  have hstored : World.storedValue
      (doTask { m with todo := rest } (.write s key (some stored))).world s
        key = some stored :=
    (congrArg (fun x => Store.find? x key) hget).trans
      (Store.find?_write_self _ key _)
  simp only [World.token?, hstored, Option.bind_some, decode]
  rfl

/-- What touched nothing is not announced. -/
theorem step_announceRemote_of_nil {t : Ref .tracker} {count : ℕ}
    {rest : List Task}
    (htodo : m.todo = .announceRemote t count [] :: rest) :
    m.step = ⟨m.world, rest, .texts []⟩ := by
  rw [step_of_todo_cons htodo]
  rfl

theorem step_announceRemote {t : Ref .tracker} {count : ℕ}
    {entities : EntitySet} {rest : List Task}
    (htodo : m.todo = .announceRemote t count entities :: rest)
    (ne : entities ≠ []) :
    m.step.todo =
        .deliver (m.world.audience (m.world.trackers.get t).changes)
          (.change (.remote entities)) :: .answer (.texts entities) :: rest ∧
      m.step.world.journal =
        .announced (m.world.trackers.get t).changes
            (.change (.remote entities))
            (m.world.audience (m.world.trackers.get t).changes) ::
          .remoteAnnounced t count entities.length :: m.world.journal := by
  rw [step_of_todo_cons htodo]
  have hempty : entities.isEmpty = false := by
    simpa using ne
  simp only [doTask, announceRemote, hempty]
  exact ⟨rfl, rfl⟩

/-- The next task reads transactions from the source, asked for what came
after the stored token. -/
structure Reads (m : Machine) (s : Ref .store) (key : String)
    (token : Option HistoryToken) (transactions : List HistoryTransaction) :
    Prop where
  batch : m.batch? s key = some transactions
  asked : ∃ t label journal,
    m.world.journal = .historyAsked t label (.ofToken token) :: journal

section

variable {t : Ref .tracker} {rest : List Task} {journal : List Happening}

theorem phase_of_reads {p : Ref .plan} (sound : m.Sound)
    (has : m.world.Has (.store s)) (undisturbed : m.undisturbed s key)
    (todo : m.todo =
      .fire p :: .askHistory t (m.world.storedValue s key) :: rest)
    (tracks : m.world.Tracks s key t)
    (quiet : ∀ x ∈ rest, ¬ x.UsesToken m.world s key) :
    m.step.Phase s key (m.world.token? s key) := by
  have hidle : (m.world.plans.get p).schedule.current.isEmpty := by
    simp only [Machine.undisturbed, todo] at undisturbed
    exact of_decide_eq_true undisturbed tracks
  obtain ⟨hnext, -, htrackers⟩ := step_fire todo hidle
  have hstored : m.step.world.storedValue s key = m.world.storedValue s key :=
    storedValue_of_other has todo (by simp)
  have hfront : m.todo = [_, _] ++ rest := todo
  rw [← token?_of_other has todo (by simp)]
  refine .asks t (by rw [hnext, hstored]) ?_ (quiet_step sound hfront quiet)
  rw [World.Tracks, htrackers]
  exact tracks

theorem phase_of_asks (sound : m.Sound) (has : m.world.Has (.store s))
    (todo : m.todo = .askHistory t (m.world.storedValue s key) :: rest)
    (tracks : m.world.Tracks s key t)
    (quiet : ∀ x ∈ rest, ¬ x.UsesToken m.world s key) :
    m.step.Phase s key (m.world.token? s key) := by
  obtain ⟨hnext, told, hworld⟩ := step_askHistory todo
  have htoken : m.step.world.token? s key = m.world.token? s key :=
    token?_of_other has todo (by simp)
  have hfront : m.todo = [_] ++ rest := todo
  have hquiet := quiet_step sound hfront quiet
  rw [← htoken]
  have htracks : m.step.world.Tracks s key t := by
    rw [World.Tracks, hworld]
    exact tracks
  have hasked : m.step.world.journal =
      .historyAsked t (m.step.world.trackers.get t).label
        (.ofToken (m.step.world.token? s key)) :: told := by
    rw [htoken, hworld]
    rfl
  exact .calls _ t hnext htracks hquiet hasked

theorem phase_of_calls {p : Ref .plan} (sound : m.Sound)
    (has : m.world.Has (.store s)) (undisturbed : m.undisturbed s key)
    (todo : m.todo = .fire p :: .takeBatch t :: rest)
    (tracks : m.world.Tracks s key t)
    (quiet : ∀ x ∈ rest, ¬ x.UsesToken m.world s key)
    (asked : m.world.journal =
      .historyAsked t (m.world.trackers.get t).label
        (.ofToken (m.world.token? s key)) :: journal) :
    m.step.Phase s key (m.world.token? s key) := by
  have hidle : (m.world.plans.get p).schedule.current.isEmpty := by
    simp only [Machine.undisturbed, todo] at undisturbed
    exact of_decide_eq_true undisturbed tracks
  obtain ⟨hnext, hjournal, htrackers⟩ := step_fire todo hidle
  have htoken : m.step.world.token? s key = m.world.token? s key :=
    token?_of_other has todo (by simp)
  have hfront : m.todo = [_, _] ++ rest := todo
  rw [← htoken]
  have htracks : m.step.world.Tracks s key t := by
    rw [World.Tracks, htrackers]
    exact tracks
  have hasked : m.step.world.journal =
      .historyAsked t (m.step.world.trackers.get t).label
        (.ofToken (m.step.world.token? s key)) :: journal := by
    rw [htoken, hjournal, htrackers, asked]
  exact .takes t hnext htracks (quiet_step sound hfront quiet) hasked

/-- When the source has answered, nothing comes before the newest token is
stored. -/
theorem phase_of_takes (sound : m.Sound) (has : m.world.Has (.store s))
    (todo : m.todo = .takeBatch t :: rest)
    (tracks : m.world.Tracks s key t)
    (quiet : ∀ x ∈ rest, ¬ x.UsesToken m.world s key)
    (asked : m.world.journal =
      .historyAsked t (m.world.trackers.get t).label
        (.ofToken (m.world.token? s key)) :: journal) :
    m.batch? s key = none ∧ m.step.Phase s key (m.world.token? s key) ∨
      ∃ transactions, m.Reads s key (m.world.token? s key) transactions ∧
        m.step.Phase s key ((transactions.getLast?.map
          HistoryTransaction.token).or (m.world.token? s key)) := by
  have htoken : m.step.world.token? s key = m.world.token? s key :=
    token?_of_other has todo (by simp)
  have hfront : m.todo = [_] ++ rest := todo
  have hquiet := quiet_step sound hfront quiet
  have hbatch : m.batch? s key =
      (m.world.trackers.get t).batch.toOption := by
    simp only [batch?, todo]
    exact if_pos tracks
  cases hanswer : (m.world.trackers.get t).batch with
  | error e =>
    left
    obtain ⟨hnext, -, -⟩ := step_takeBatch_of_error todo hanswer
    refine ⟨by rw [hbatch, hanswer]; rfl, ?_⟩
    rw [← htoken]
    exact .apart (hnext ▸ hquiet)
  | ok transactions =>
    right
    have hnext := step_takeBatch_of_ok todo hanswer
    refine ⟨transactions,
      ⟨by rw [hbatch, hanswer]; rfl, t, _, journal, asked⟩, ?_⟩
    have hannounce : ∀ x ∈ .announceRemote t transactions.length
        (touchedEntities transactions) :: rest,
          ¬ x.UsesToken m.step.world s key := by
      intro x hx
      rcases List.mem_cons.mp hx with rfl | hx
      · exact id
      · exact hquiet x hx
    cases hlast : transactions.getLast? with
    | none =>
      rw [hlast] at hnext
      rw [Option.map_none, Option.none_or, ← htoken]
      exact .apart (by rw [hnext]; exact hannounce)
    | some newest =>
      obtain ⟨stored, hstore, hdecode⟩ :=
        storeToken_eq (m.world.trackers.get t) t newest.token
      rw [hlast, Option.map_some, hstore, tracks.1, tracks.2] at hnext
      exact .stores stored newest.token hnext hdecode hannounce

theorem phase_of_stores (sound : m.Sound) {stored : StoreValue}
    {token : HistoryToken} (todo : m.todo = .write s key (some stored) :: rest)
    (decode : HistoryToken.decode stored = .ok token)
    (quiet : ∀ x ∈ rest, ¬ x.UsesToken m.world s key) :
    m.step.Phase s key (some token) := by
  have hfront : m.todo = [_] ++ rest := todo
  have hquiet := quiet_step sound hfront quiet
  obtain ⟨hnext, htoken⟩ := step_write_token todo decode
  rw [← htoken]
  refine .apart ?_
  intro x hx
  rw [hnext] at hx
  rcases List.mem_cons.mp hx with rfl | hx
  · exact id
  · exact hquiet x hx

end

/-- A step leads from one phase to the next, and the token changes when
transactions are read. -/
theorem Phase.step {token : Option HistoryToken} (h : m.Phase s key token)
    (sound : m.Sound) (has : m.world.Has (.store s)) (spares : m.spares s key)
    (undisturbed : m.undisturbed s key) :
    m.batch? s key = none ∧ m.step.Phase s key token ∨
      ∃ transactions, m.Reads s key token transactions ∧
        m.step.Phase s key
          ((transactions.getLast?.map HistoryTransaction.token).or token) := by
  cases h with
  | apart quiet => exact Or.inl (phase_of_apart sound has spares quiet)
  | reads p t todo tracks quiet =>
    exact Or.inl ⟨by simp [batch?, todo],
      phase_of_reads sound has undisturbed todo tracks quiet⟩
  | asks t todo tracks quiet =>
    exact Or.inl ⟨by simp [batch?, todo],
      phase_of_asks sound has todo tracks quiet⟩
  | calls p t todo tracks quiet asked =>
    exact Or.inl ⟨by simp [batch?, todo],
      phase_of_calls sound has undisturbed todo tracks quiet asked⟩
  | takes t todo tracks quiet asked =>
    exact phase_of_takes sound has todo tracks quiet asked
  | stores stored token todo decode quiet =>
    exact Or.inl ⟨by simp [batch?, todo],
      phase_of_stores sound todo decode quiet⟩

end Machine
end LiveProperty
