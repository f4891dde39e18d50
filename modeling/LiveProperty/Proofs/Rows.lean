import LiveProperty.Proofs.Machine.Attachments
import LiveProperty.Proofs.Machine.StoredRows
import Mathlib.Data.Set.Card

/-!
# Rows of a context

A context keeps a table for each entity, and a client sees of it what it
wrote: `stores_rows` says which rows there are, in which order, and what the
commands on rows answer, whichever row types share an entity.
-/

namespace LiveProperty
namespace Machine

variable {m : Machine} {c : Ref .context} {n : ℕ} {context row : String}
  {rowType : RowType} {id : RowId}

/-- The next task of a machine is to begin a command. -/
def Performs (m : Machine) (a : Action) : Prop :=
  ∃ label nested rest, m.todo = .perform (.mk label a) nested :: rest

/-- What a run makes of the rows of a context, up to a step and with the
command that begins there. -/
structure StoresRows (m : Machine) (c : Ref .context) (n : ℕ) : Prop where
  /-- What is stored under an entity are the live numbers, each with the row
  that was last written to it. -/
  rows : ∀ entity id record,
    (id, record) ∈ ((run n m).world.memory c).table entity ↔
      m.Holds c entity id record n
  /-- The rows are in the order of their numbers, which are different. -/
  ordered : ∀ entity, (((run n m).world.memory c).table entity).Ordered
  /-- What is inserted later gets a greater number, under whichever entity. -/
  later : ∀ i k entity entity' id id', m.Inserts c entity id i →
    m.Inserts c entity' id' k → i < k → k ≤ n → id.number < id'.number
  /-- No number is live under two entities. -/
  apart : ∀ entity entity' id, m.Live c entity id n →
    m.Live c entity' id n → entity = entity'
  /-- An insertion answers the number, and names it if it is told to. -/
  inserts : ∀ context rowType content name,
    (run n m).Performs (.context (.insertRow context rowType content name)) →
    (run n m).world.context? context = some c →
    (run (n + 2) m).reply = .text
        (Description.wrapped "RowId" (Description.count (m.insertions c n))) ∧
      ∀ s ∈ name, (run (n + 2) m).world.row? s = some (m.rowNumber c n)
  /-- An update leaves all rows where they are. -/
  inPlace : ∀ id record entity,
    (run n m).operation? c = some (.update id record) →
    (((run (n + 1) m).world.memory c).table entity).map Prod.fst =
      (((run n m).world.memory c).table entity).map Prod.fst
  /-- An update or a deletion needs a live number, and else does nothing but
  answer so. -/
  writes : ∀ action context rowType row id,
    (run n m).Performs (.context action) →
    (action = .deleteRow context rowType row ∨
      ∃ content, action = .updateRow context rowType row content) →
    (run n m).world.context? context = some c →
    (run n m).world.row? row = some id →
    (m.Live c rowType.entity id n → (run (n + 2) m).reply = .flag true) ∧
      (¬ m.Live c rowType.entity id n → (run (n + 2) m).reply = .flag false ∧
        (run (n + 2) m).world = (run n m).world)
  /-- The live numbers of an entity are counted. -/
  counts : ∀ context rowType,
    (run n m).Performs (.context (.contextInfo context rowType)) →
    (run n m).world.context? context = some c →
    ∃ unsaved listeners, (run (n + 2) m).reply =
      .context {id | m.Live c rowType.entity id n}.ncard unsaved listeners
  /-- A row is answered if its number is live and it was last written at the
  row type. -/
  gets : ∀ context rowType row id,
    (run n m).Performs (.context (.getRow context rowType row)) →
    (run n m).world.context? context = some c →
    (run n m).world.row? row = some id →
    ∃ answer, (run (n + 2) m).reply = .row answer ∧
      ∀ content, answer = some content ↔
        m.Holds c rowType.entity id ⟨rowType, content⟩ n
  /-- A query is run if all rows of the entity are of the row type, and fails
  if one is not, whatever the query selects. -/
  fetches : ∀ context rowType (d : FetchDescriptor Json),
    (run n m).Performs (.context (.fetchRows context rowType d)) →
    (run n m).world.context? context = some c →
    ((run n m).world.contexts.get c).supervision = none →
    ((∀ id record, m.Holds c rowType.entity id record n →
        record.rowType = rowType) →
      (run (n + 3) m).reply = .page (d.apply
        ((((run n m).world.memory c).table rowType.entity).map
          fun x => x.2.content))) ∧
    (∀ id record, m.Holds c rowType.entity id record n →
      record.rowType ≠ rowType →
      (run (n + 3) m).reply = .failed (.queryExecution rowType.entity
        "stored record has a different type"))

/-! ## Replies -/

theorem inserts_of_insertRow {content : Json} {name : Option String}
    (performs : (run n m).Performs
      (.context (.insertRow context rowType content name)))
    (found : (run n m).world.context? context = some c) :
    (run (n + 2) m).reply = .text (Description.wrapped "RowId"
        (Description.count ((run n m).world.memory c).freshRow.number.toNat)) ∧
      ∀ s ∈ name, (run (n + 2) m).world.row? s =
        some ((run n m).world.memory c).freshRow := by
  obtain ⟨label, nested, rest, htodo⟩ := performs
  cases name with
  | none =>
    rw [run_of_answering htodo (by
      simp only [begin, beginContext, found, needed, bind, Except.bind]
      rfl)]
    exact ⟨rfl, fun s hs => absurd hs (Option.not_mem_none s)⟩
  | some name =>
    rw [run_of_answering htodo (by
      simp only [begin, beginContext, found, needed, bind, Except.bind]
      rfl)]
    refine ⟨rfl, ?_⟩
    rintro s ⟨⟩
    simp only [World.row?, World.lookup?, rename, names_releaseNamed,
      world_modifyWorld, World.bindName, Dictionary.find?_put_self]

theorem gets_of_getRow
    (performs : (run n m).Performs (.context (.getRow context rowType row)))
    (found : (run n m).world.context? context = some c)
    (foundRow : (run n m).world.row? row = some id) :
    (run (n + 2) m).reply =
      .row (((run n m).world.memory c).get? rowType id) := by
  obtain ⟨label, nested, rest, htodo⟩ := performs
  have hbegins : begin { run n m with todo := rest }
      (.context (.getRow context rowType row)) =
        .ok (answering { run n m with todo := rest }
          (.row (((run n m).world.memory c).get? rowType id))) := by
    simp only [begin, beginContext, found, foundRow, needed, bind, Except.bind]
  rw [run_of_answering htodo hbegins]

theorem counts_of_contextInfo
    (performs : (run n m).Performs (.context (.contextInfo context rowType)))
    (found : (run n m).world.context? context = some c) :
    ∃ unsaved listeners, (run (n + 2) m).reply =
      .context (((run n m).world.memory c).count rowType.entity) unsaved
        listeners := by
  obtain ⟨label, nested, rest, htodo⟩ := performs
  have hbegins : begin { run n m with todo := rest }
      (.context (.contextInfo context rowType)) =
        .ok (answering { run n m with todo := rest }
          (.context (((run n m).world.memory c).count rowType.entity)
            ((run n m).world.memory c).hasChanges
            ((run n m).world.notifiers.get
              ((run n m).world.contexts.get c).changes).count)) := by
    simp only [begin, beginContext, found, needed, bind, Except.bind]
  rw [run_of_answering htodo hbegins]
  exact ⟨_, _, rfl⟩

/-- An update or a deletion that does not find its row does nothing. -/
theorem writes_of_write {action : ContextAction}
    (performs : (run n m).Performs (.context action))
    (write : action = .deleteRow context rowType row ∨
      ∃ content, action = .updateRow context rowType row content)
    (found : (run n m).world.context? context = some c)
    (foundRow : (run n m).world.row? row = some id) :
    (run (n + 2) m).reply =
        .flag (((run n m).world.memory c).holds rowType id) ∧
      (((run n m).world.memory c).holds rowType id = false →
        (run (n + 2) m).world = (run n m).world) := by
  obtain ⟨label, nested, rest, htodo⟩ := performs
  obtain ⟨kind, f, hbegins⟩ : ∃ kind f, begin { run n m with todo := rest }
      (.context action) =
        .ok (writing { run n m with todo := rest } c rowType id kind f) := by
    rcases write with rfl | ⟨content, rfl⟩
    · refine ⟨.deleted, fun memory => memory.delete rowType id, ?_⟩
      simp only [begin, beginContext, found, foundRow, needed, bind,
        Except.bind]
    · refine ⟨.updated, fun memory => memory.update rowType id content, ?_⟩
      simp only [begin, beginContext, found, foundRow, needed, bind,
        Except.bind]
  unfold writing at hbegins
  split at hbegins
  · next held =>
    have held : ((run n m).world.memory c).holds rowType id = true := held
    rw [run_of_answering htodo hbegins, held]
    refine ⟨rfl, fun h => ?_⟩
    cases h
  · next free =>
    have free : ((run n m).world.memory c).holds rowType id = false :=
      Bool.eq_false_iff.mpr free
    rw [run_of_answering htodo hbegins, free]
    exact ⟨rfl, fun _ => rfl⟩

/-- A fetch takes the rows that are there when it begins. -/
theorem receives_of_fetchRows {d : FetchDescriptor Json}
    (performs : (run n m).Performs (.context (.fetchRows context rowType d)))
    (found : (run n m).world.context? context = some c)
    (plain : ((run n m).world.contexts.get c).supervision = none) :
    (run (n + 2) m).world.contexts = (run n m).world.contexts ∧
      ∃ rest, (run (n + 2) m).todo =
        .receive c (((run n m).world.memory c).records rowType.entity)
          (.client rowType d) :: rest := by
  obtain ⟨label, nested, rest, htodo⟩ := performs
  have hasks : run (n + 1) m = { run n m with
      todo := .askRecords c rowType.entity (.client rowType d) ::
        .finish label [.context c] nested :: rest } := by
    rw [run_succ, step_of_todo_cons htodo]
    simp only [doTask, perform, begin, beginContext, found, needed, bind,
      Except.bind, Command.action]
    rfl
  have hasksTodo : (run (n + 1) m).todo =
      .askRecords c rowType.entity (.client rowType d) ::
        .finish label [.context c] nested :: rest := by rw [hasks]
  rw [run_succ, step_of_todo_cons hasksTodo, hasks]
  simp only [doTask, askRecords, plain]
  exact ⟨rfl, _, rfl⟩

/-- An unsupervised context answers a client's query out of the rows that were
taken, if all of them are of the row type. -/
theorem reply_of_receive {records : List Record} {d : FetchDescriptor Json}
    {rest : List Task}
    (h : m.todo = .receive c records (.client rowType d) :: rest)
    (plain : (m.world.contexts.get c).supervision = none) :
    ((∀ r ∈ records, r.rowType = rowType) →
      m.step.reply = .page (d.apply (records.map Record.content))) ∧
    (∀ r ∈ records, r.rowType ≠ rowType →
      m.step.reply = .failed (.queryExecution rowType.entity
        "stored record has a different type")) := by
  have houtcome : (m.world.contexts.get c).outcome records = .ok records := by
    rw [Context.outcome, plain]
  rw [step_of_todo_cons h]
  constructor
  · intro same
    simp only [doTask, receive, conclude, houtcome, Except.bind,
      FetchDescriptor.select, contentsAs_of_forall same, Except.map]
    rfl
  · intro r hr ne
    simp only [doTask, receive, conclude, houtcome, Except.bind,
      FetchDescriptor.select, contentsAs_of_exists ⟨r, hr, ne⟩, Except.map]
    rfl

/-! ## Runs -/

theorem mem_table_iff (commands : List Command) (c : Ref .context)
    (n : ℕ) (left : (ofCommands commands).insertions c n ≤ 2 ^ 64)
    (entity : String) (id : RowId) (record : Record) :
    (id, record) ∈
        ((run n (ofCommands commands)).world.memory c).table entity ↔
      (ofCommands commands).Holds c entity id record n := by
  rw [← find?_table_iff]
  exact (ordered_table commands c entity n left).find?_eq_some_iff.symm

theorem count_eq_ncard (commands : List Command) (c : Ref .context)
    (entity : String) (n : ℕ)
    (left : (ofCommands commands).insertions c n ≤ 2 ^ 64) :
    ((run n (ofCommands commands)).world.memory c).count entity =
      {id | (ofCommands commands).Live c entity id n}.ncard := by
  have hnodup := (ordered_table commands c entity n left).nodup
  have hset : {id | (ofCommands commands).Live c entity id n} =
      ((((run n (ofCommands commands)).world.memory c).table entity).map
        Prod.fst).toFinset := by
    ext id
    rw [Set.mem_ofPred_eq, ← isSome_find?_table_iff, Table.find?_isSome_iff]
    simp
  rw [hset, Set.ncard_coe_finset, List.toFinset_card_of_nodup hnodup,
    List.length_map, MemoryContext.count]

/-- No number is live under two entities. -/
theorem entity_eq_of_live {entity entity' : String}
    (left : m.insertions c n < 2 ^ 64) (live : m.Live c entity id n)
    (live' : m.Live c entity' id n) : entity = entity' := by
  have hlater {i k : ℕ} {entity entity' : String}
      (h : m.LiveSince c entity id i n) (h' : m.LiveSince c entity' id k n)
      (hik : i < k) : False :=
    Std.lt_irrefl (h.inserts.number_lt h'.inserts hik
      (Nat.lt_of_le_of_lt (insertions_mono h'.lt.le) left))
  obtain ⟨i, live⟩ := live
  obtain ⟨k, live'⟩ := live'
  rcases Nat.lt_trichotomy i k with hlt | rfl | hlt
  · exact (hlater live live' hlt).elim
  · obtain ⟨record, hinsert, rfl, -⟩ := live.inserts
    obtain ⟨record', hinsert', rfl, -⟩ := live'.inserts
    cases hinsert.symm.trans hinsert'
    rfl
  · exact (hlater live' live hlt).elim

theorem holds_eq_true_iff (commands : List Command) (c : Ref .context)
    (rowType : RowType) (id : RowId) (n : ℕ) :
    ((run n (ofCommands commands)).world.memory c).holds rowType id = true ↔
      (ofCommands commands).Live c rowType.entity id n :=
  isSome_find?_table_iff commands c rowType.entity id n

/-- An update leaves the rows of every table where they are. -/
theorem map_fst_table_of_update {commands : List Command} {record : Record}
    (update : (run n (ofCommands commands)).operation? c =
      some (.update id record)) (entity : String) :
    (((run (n + 1) (ofCommands commands)).world.memory c).table entity).map
        Prod.fst =
      (((run n (ofCommands commands)).world.memory c).table entity).map
        Prod.fst := by
  rw [table_succ, update, Option.elim_some, MemoryContext.table_update]
  split
  · next h =>
    obtain ⟨rfl, held⟩ := h
    exact Table.map_fst_put held
  · rfl

/-- A client's query of an unsupervised context is answered out of the rows
that are there when it begins. -/
theorem reply_of_fetchRows {d : FetchDescriptor Json}
    (performs : (run n m).Performs (.context (.fetchRows context rowType d)))
    (found : (run n m).world.context? context = some c)
    (plain : ((run n m).world.contexts.get c).supervision = none) :
    ((∀ x ∈ ((run n m).world.memory c).table rowType.entity,
        x.2.rowType = rowType) →
      (run (n + 3) m).reply = .page (d.apply
        ((((run n m).world.memory c).table rowType.entity).map
          fun x => x.2.content))) ∧
    (∀ x ∈ ((run n m).world.memory c).table rowType.entity,
      x.2.rowType ≠ rowType →
      (run (n + 3) m).reply = .failed (.queryExecution rowType.entity
        "stored record has a different type")) := by
  obtain ⟨hcontexts, rest, htodo⟩ := receives_of_fetchRows performs found plain
  rw [← hcontexts] at plain
  obtain ⟨hpage, hfailed⟩ := reply_of_receive htodo plain
  rw [run_succ]
  constructor
  · intro same
    rw [MemoryContext.records, Table.records, List.map_map] at hpage
    apply hpage
    intro r hr
    obtain ⟨x, hx, rfl⟩ := List.mem_map.mp hr
    exact same x hx
  · intro x hx ne
    exact hfailed x.2 (List.mem_map_of_mem hx) ne

/-- Along every run of a client, whatever row types share an entity, the
tables of a context are what was inserted and not deleted, in the order of
insertion, and its rows are what was written last. -/
theorem stores_rows (commands : List Command) (c : Ref .context) (n : ℕ)
    (left : (ofCommands commands).insertions c n < 2 ^ 64) :
    (ofCommands commands).StoresRows c n := by
  have hrows := mem_table_iff commands c n left.le
  refine
    { rows := hrows
      ordered := fun entity => ordered_table commands c entity n left.le
      later := fun i k entity entity' id id' h h' lt le => ?_
      apart := fun entity entity' id live live' =>
        entity_eq_of_live left live live'
      inserts := fun context rowType content name performs found => ?_
      inPlace := fun id record entity update =>
        map_fst_table_of_update update entity
      writes := fun action context rowType row id performs write found
        foundRow => ?_
      counts := fun context rowType performs found => ?_
      gets := fun context rowType row id performs found foundRow => ?_
      fetches := fun context rowType d performs found plain => ?_ }
  · exact h.number_lt h' lt (Nat.lt_of_le_of_lt (insertions_mono le) left)
  · have hreply := inserts_of_insertRow performs found
    rw [freshRow_eq_rowNumber, toNat_rowNumber left] at hreply
    exact hreply
  · obtain ⟨hreply, hidle⟩ := writes_of_write performs write found foundRow
    rw [hreply, ← holds_eq_true_iff]
    constructor
    · intro live
      rw [live]
    · intro dead
      have hfree := Bool.eq_false_iff.mpr dead
      rw [hfree]
      exact ⟨rfl, hidle hfree⟩
  · rw [← count_eq_ncard commands c rowType.entity n left.le]
    exact counts_of_contextInfo performs found
  · refine ⟨_, gets_of_getRow performs found foundRow, fun content => ?_⟩
    rw [MemoryContext.get?_eq_some_iff]
    exact find?_table_iff commands c rowType.entity id ⟨rowType, content⟩ n
  · obtain ⟨hpage, hfailed⟩ := reply_of_fetchRows performs found plain
    constructor
    · intro same
      exact hpage fun x hx =>
        same x.1 x.2 ((hrows rowType.entity x.1 x.2).mp hx)
    · intro id record holds ne
      exact hfailed (id, record)
        ((hrows rowType.entity id record).mpr holds) ne

/-- A row that is updated changes its type, a row of another type is deleted,
and the two types share an entity. -/
def sharedEntity : List Command :=
  let song : RowType := ⟨"Song", "Track"⟩
  let podcast : RowType := ⟨"Podcast", "Track"⟩
  [.mk .null (.context (.newContext "library" .plain none)),
    .mk .null (.context (.insertRow "library" song (.text "Aria") (some "a"))),
    .mk .null (.context
      (.insertRow "library" podcast (.text "News") (some "b"))),
    .mk .null (.context (.updateRow "library" podcast "a" (.text "Talk"))),
    .mk .null (.context (.deleteRow "library" song "b")),
    .mk .null (.context (.fetchRows "library" podcast {}))]

theorem stores_rows_shared_entity :
    (ofCommands sharedEntity).insertions ⟨0⟩ 15 < 2 ^ 64 ∧
      (ofCommands sharedEntity).StoresRows ⟨0⟩ 15 := by
  have left : (ofCommands sharedEntity).insertions ⟨0⟩ 15 < 2 ^ 64 := by
    decide +kernel
  exact ⟨left, stores_rows sharedEntity ⟨0⟩ 15 left⟩

end Machine
end LiveProperty
