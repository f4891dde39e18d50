import LiveProperty.Proofs.Machine.AskedContexts
import LiveProperty.Proofs.Machine.Fetches
import LiveProperty.Proofs.Machine.Termination

/-!
# Reads of a query bridge

A query bridge caches what its query gave.  The rows of a context change
when they are written and the bridge hears of it when they are saved, so the
cache may be ahead or behind while a context has unsaved changes.  When it
has none, and nothing is on its way to the bridge, a read answers what the
query gives now, as if there were no cache.
-/

namespace LiveProperty

theorem QueryBridge.eq_of_core_eq {b b' : QueryBridge} (h : b'.core = b.core) :
    b'.entity = b.entity ∧ b'.rowsOf = b.rowsOf := by
  have hentity := congrArg QueryBridge.entity h
  have hrows := congrArg QueryBridge.rowsOf h
  exact ⟨hentity, hrows⟩

namespace World

/-- What the query of a bridge gives when it is run now. -/
def fetch (w : World) (q : Ref .queryBridge) : Except BridgeError (List Json) :=
  let b := w.queryBridges.get q
  match w.resolvedContext q with
  | some c =>
    b.rowsOf ((w.contexts.get c).outcome ((w.memory c).records b.entity))
  | none => .error (.missingContext b.entity)

/-- What an uncached read of a query bridge answers: a query that fails reads
as empty. -/
def results (w : World) (q : Ref .queryBridge) : List Json :=
  (w.fetch q).toOption.getD []

/-- The context that a query bridge asks has no unsaved changes of the
bridge's entity. -/
def Clean (w : World) (q : Ref .queryBridge) : Prop :=
  ∀ c, w.resolvedContext q = some c →
    ¬ w.Unsaved c (w.queryBridges.get q).entity

/-- A query bridge asks the same context, in which nothing has changed. -/
structure SameContext (w w' : World) (q : Ref .queryBridge) : Prop where
  resolved : w'.resolvedContext q = w.resolvedContext q
  contexts : ∀ c, w.resolvedContext q = some c →
    w'.contexts.get c = w.contexts.get c

variable {w w' w'' : World} {q : Ref .queryBridge}

theorem fetch_of_some {c : Ref .context} (h : w.resolvedContext q = some c) :
    w.fetch q = (w.queryBridges.get q).rowsOf ((w.contexts.get c).outcome
      ((w.memory c).records (w.queryBridges.get q).entity)) := by
  simp only [fetch, h]

theorem fetch_of_none (h : w.resolvedContext q = none) :
    w.fetch q = .error (.missingContext (w.queryBridges.get q).entity) := by
  simp only [fetch, h]

theorem SameContext.memory (h : w.SameContext w' q) {c : Ref .context}
    (resolved : w.resolvedContext q = some c) : w'.memory c = w.memory c :=
  congrArg Context.memory (h.contexts c resolved)

theorem SameContext.clean (h : w.SameContext w' q) (clean : w.Clean q)
    (same : (w'.queryBridges.get q).core = (w.queryBridges.get q).core) :
    w'.Clean q := by
  obtain ⟨hentity, -⟩ := QueryBridge.eq_of_core_eq same
  intro c hc
  rw [h.resolved] at hc
  unfold Unsaved
  rw [h.memory hc, hentity]
  exact clean c hc

theorem SameContext.fetch_eq (h : w.SameContext w' q)
    (same : (w'.queryBridges.get q).core = (w.queryBridges.get q).core) :
    w'.fetch q = w.fetch q := by
  obtain ⟨hentity, hrows⟩ := QueryBridge.eq_of_core_eq same
  cases hc : w.resolvedContext q with
  | none => rw [fetch_of_none hc, fetch_of_none (h.resolved.trans hc), hentity]
  | some c =>
    rw [fetch_of_some hc, fetch_of_some (h.resolved.trans hc), h.memory hc,
      h.contexts c hc, hentity, hrows]

end World

namespace Machine

variable {m : Machine} {q : Ref .queryBridge}

/-- A fetch for a query bridge that got rows asked the context which the bridge
had, and the rows are what the query selects of the records there. -/
theorem Fetched.of_query {i j : ℕ} {read settle : Task} {below : List Task}
    {rows : List Json}
    (h : m.Fetched (.bridge (.query q)) i j read settle below (.rows rows)) :
    ∃ c records, (run i m).world.resolvedContext q = some c ∧
      records = ((run i m).world.memory c).records
        ((run i m).world.queryBridges.get q).entity ∧
      ((run j m).world.contexts.get c).Answers ∧
      read = .readQuery q ∧
      settle = .settleQuery q
        ((run i m).world.queryBridges.get q).cache.generation (.ok records) ∧
      ((run j m).world.queryBridges.get q).rowsOf (.ok records) =
        .ok rows := by
  have hreads := h.reads
  have hsettling := h.settling
  cases h.ends with
  | query d c outcome resolved taken =>
    obtain rfl := Bridge.query.inj (CacheHolder.bridge.inj
      (Option.some.inj hreads))
    cases outcome with
    | error e => cases hsettling
    | ok records =>
      obtain ⟨hrecords, hanswers⟩ := taken records rfl
      refine ⟨c, records, resolved, hrecords, hanswers, rfl, rfl, ?_⟩
      simp only [World.settling?] at hsettling
      split at hsettling
      · next got hgot =>
        obtain rfl : got = rows := by
          simpa using congrArg (fun x => x.2.2) (Option.some.inj hsettling)
        exact hgot
      · cases hsettling
  | missing d resolved =>
    obtain rfl := Bridge.query.inj (CacheHolder.bridge.inj
      (Option.some.inj hreads))
    cases hsettling
  | cache | key => cases hreads

/-- Unless something is on its way to a bridge, and unless the rows that it
asks for have unsaved changes, its cache holds nothing but what its query
gives now. -/
theorem cached_eq_results {commands : List Command}
    (few : (ofCommands commands).Few (.bridge (.query q)))
    (obliges : ∀ k, (run k (ofCommands commands)).obliges)
    (hears : ∀ k, (run k (ofCommands commands)).world.HearsSaves q)
    (steady : ∀ k, (run k (ofCommands commands)).KeepsDefault q) {n : ℕ}
    (unique : (run n (ofCommands commands)).world.subscriptions ≤ 2 ^ 64)
    (has : (run n (ofCommands commands)).world.Has (.queryBridge q))
    (held : (run n (ofCommands commands)).isHeld (.queryBridge q))
    (calm : ¬ (run n (ofCommands commands)).Owes (.query q))
    (clean : (run n (ofCommands commands)).world.Clean q) {rows : List Json}
    (hrows : ((run n (ofCommands commands)).world.queryBridges.get
      q).cache.value = some rows) :
    rows = (run n (ofCommands commands)).world.results q := by
  have hsound := sound_ofCommands commands
  have hr : ((run n (ofCommands commands)).world.cell
      (.bridge (.query q))).value = some (.rows rows) :=
    congrArg (Option.map Reply.rows) hrows
  obtain ⟨i, j, read, settle, below, hjn, hfetched, hcount⟩ :=
    cached_run few has hr
  have hij := hfetched.le
  have hin : i ≤ n := by omega
  have hhas := hfetched.has hsound
  obtain ⟨c, records, hresolved, hrecords, hanswers, -, -, hgot⟩ :=
    hfetched.of_query
  have hcontext :=
    (hsound.after i).world.has_of_resolvedContext hhas hresolved
  have hgoes := (goesOn_or_owes obliges hears steady unique hin hhas held
    hcount hresolved).resolve_left calm
  have hentity := entity_run hin hhas
  have hsame := hgoes.keeps.rows.resolve_right
    (hentity ▸ clean c hgoes.resolved)
  obtain ⟨-, hrowsOf⟩ := QueryBridge.eq_of_core_eq
    (queryBridge_core_run (Nat.le_of_lt hjn) (has_run hij hhas))
  have hanswersNow := answers_run (Nat.le_of_lt hjn) (has_run hij hcontext)
    hanswers
  rw [World.results, World.fetch_of_some hgoes.resolved, hentity, hsame,
    hanswersNow, ← hrecords, hrowsOf, hgot]
  rfl

/-! ## Reads -/

section

variable {rest : List Task}

theorem step_readQuery_of_some {rows : List Json}
    (h : m.todo = .readQuery q :: rest)
    (held : (m.world.queryBridges.get q).cache.value = some rows) :
    m.step = ⟨m.world.tell (.cacheHit (.bridge (.query q))), rest,
      .rows rows⟩ := by
  rw [step_of_todo_cons h]
  simp only [doTask, readQuery, held]
  rfl

theorem step_readQuery_of_missing (h : m.todo = .readQuery q :: rest)
    (empty : (m.world.queryBridges.get q).cache.value = none)
    (missing : m.world.resolvedContext q = none) :
    m.step.todo =
      .settleQuery q (m.world.queryBridges.get q).cache.generation
        (.error (.missingContext (m.world.queryBridges.get q).entity)) ::
          rest := by
  rw [step_of_todo_cons h]
  simp only [doTask, readQuery, empty, missing]
  rfl

theorem step_askRecords {c : Ref .context} {entity : String}
    {purpose : FetchFor} (h : m.todo = .askRecords c entity purpose :: rest) :
    ∃ front, m.step.todo = front ++
      .receive c ((m.world.memory c).records entity) purpose ::
        .keep [.context c] :: rest := by
  rw [step_of_todo_cons h]
  refine ⟨((m.world.contexts.get c).supervision.map
    fun s => Task.fire s.onFetch).toList, ?_⟩
  simp only [doTask, askRecords, todo_push, List.append_assoc]
  rfl

theorem step_receive {c : Ref .context} {records : List Record}
    {began : UInt64}
    (h : m.todo = .receive c records (.bridge q began) :: rest) :
    m.step.todo =
      .settleQuery q began ((m.world.contexts.get c).outcome records) ::
        rest := by
  rw [step_of_todo_cons h]
  rfl

/-- A fetch that failed is answered as empty. -/
theorem step_settleQuery {began : UInt64}
    {outcome : Except BridgeError (List Record)}
    (h : m.todo = .settleQuery q began outcome :: rest) :
    m.step.todo = rest ∧ m.step.reply =
      .rows (((m.world.queryBridges.get q).rowsOf outcome).toOption.getD
        []) := by
  rw [step_of_todo_cons h]
  simp only [doTask, settleQuery]
  cases hrows : (m.world.queryBridges.get q).rowsOf outcome with
  | ok rows => exact ⟨rfl, rfl⟩
  | error e =>
    cases e with
    | missingContext entity =>
      simp only [missContext]
      split <;> exact ⟨rfl, rfl⟩
    | _ => exact ⟨rfl, rfl⟩

theorem step_keep {objects : List Object} (h : m.todo = .keep objects :: rest) :
    m.step = { m with todo := rest } :=
  step_of_todo_cons h

/-- A read of a query bridge that asks a context: it begins at one step, at
another the context has got records for it, and it returns after these are
settled. -/
structure AsksContext (m : Machine) (q : Ref .queryBridge) (c : Ref .context)
    (records : List Record) (began : UInt64) (k r : ℕ) (below : List Task) :
    Prop where
  lt : k < r
  receives : (run r m).todo =
    .receive c records (.bridge q began) :: .keep [.context c] :: below
  settles : (run (r + 1) m).todo =
    .settleQuery q began (((run r m).world.contexts.get c).outcome records) ::
      .keep [.context c] :: below
  above : m.Above below k (r + 1)
  keeps : (run (r + 2) m).todo = .keep [.context c] :: below
  returns : (run (r + 3) m).todo = below
  answers : (run (r + 3) m).reply =
    .rows ((((run (r + 1) m).world.queryBridges.get q).rowsOf
      (((run r m).world.contexts.get c).outcome records)).toOption.getD [])

/-- Whoever finds the cache empty asks the context that it has for the records
that are there. -/
theorem exists_asksContext {c : Ref .context} {k : ℕ}
    (reads : (run k m).todo = .readQuery q :: rest)
    (empty : ((run k m).world.queryBridges.get q).cache.value = none)
    (resolved : (run k m).world.resolvedContext q = some c) :
    ∃ r, m.AsksContext q c
      (((run k m).world.memory c).records
        ((run k m).world.queryBridges.get q).entity)
      ((run k m).world.queryBridges.get q).cache.generation k r rest := by
  have hask := step_readQuery reads empty resolved
  rw [← run_succ] at hask
  obtain ⟨front, hfetch⟩ := step_askRecords (congrArg Machine.todo hask)
  rw [← run_succ, hask] at hfetch
  obtain ⟨r, hwaits⟩ := exists_waits hfetch
  have hsettle := step_receive hwaits.turn
  rw [← run_succ] at hsettle
  obtain ⟨hkeep, hreply⟩ := step_settleQuery hsettle
  rw [← run_succ] at hkeep hreply
  have hreturns := step_keep hkeep
  rw [← run_succ] at hreturns
  have hasked := (above_self m rest k).succ (x := [])
    (congrArg Machine.todo hask)
  have hreceived : m.Above ([.keep [.context c]] ++ rest) (k + 1) r :=
    hwaits.above
  refine ⟨r, Nat.lt_of_succ_lt hwaits.lt, hwaits.turn, hsettle, ?_, hkeep,
    by rw [hreturns], ?_⟩
  · exact (hasked.trans hreceived).succ (x := [_]) hsettle
  · rw [hreturns]
    exact hreply

/-- A read of a query bridge: at one step of a run it begins, at another it
has its rows from the cache or gets them from the context, and it returns
after a third. -/
structure Queries (m : Machine) (q : Ref .queryBridge) (k r j : ℕ)
    (below : List Task) : Prop where
  le_receives : k ≤ r
  le_returns : r ≤ j
  above : m.Above below k j
  reads : (run k m).todo = .readQuery q :: below
  receives : r = k ∨ ∃ c records began,
    (run r m).todo =
      .receive c records (.bridge q began) :: .keep [.context c] :: below
  returns : (run (j + 1) m).todo = below
  /-- The read answers what the query gives when it begins, unless there are
  unsaved changes, or the context is changed or exchanged while it is asked. -/
  answers : (run k m).world.Clean q →
    (run k m).world.SameContext (run r m).world q →
    (run (j + 1) m).reply = .rows ((run k m).world.results q)

/-- A read returns, and if what the cache holds is what the query gives, then
so is the answer. -/
theorem Sound.queries (sound : m.Sound) {k : ℕ}
    (reads : (run k m).todo = .readQuery q :: rest)
    (cached : (run k m).world.Clean q → ∀ rows,
      ((run k m).world.queryBridges.get q).cache.value = some rows →
        rows = (run k m).world.results q) :
    ∃ r j, m.Queries q k r j rest := by
  have hhas : (run k m).world.Has (.queryBridge q) :=
    (sound.after k).has_of_head reads List.mem_cons_self
  have hrows {l : ℕ} (hl : k ≤ l) :=
    (QueryBridge.eq_of_core_eq (queryBridge_core_run hl hhas)).2
  cases hvalue : ((run k m).world.queryBridges.get q).cache.value with
  | some rows =>
    have hstep := step_readQuery_of_some reads hvalue
    rw [← run_succ] at hstep
    refine ⟨k, k, Nat.le_refl k, Nat.le_refl k, above_self m rest k, reads,
      Or.inl rfl, by rw [hstep], fun hclean _ => ?_⟩
    rw [hstep, cached hclean rows hvalue]
  | none =>
    cases hresolved : (run k m).world.resolvedContext q with
    | none =>
      have hstep := step_readQuery_of_missing reads hvalue hresolved
      rw [← run_succ] at hstep
      obtain ⟨hreturns, hreply⟩ := step_settleQuery hstep
      rw [← run_succ] at hreturns hreply
      refine ⟨k, k + 1, Nat.le_refl k, Nat.le_succ k,
        (above_self m rest k).succ (x := []) hstep, reads, Or.inl rfl,
        hreturns, fun _ _ => ?_⟩
      rw [hreply, World.results, World.fetch_of_none hresolved]
      rfl
    | some c =>
      obtain ⟨r, hasks⟩ := exists_asksContext reads hvalue hresolved
      have hkr := hasks.lt
      refine ⟨r, r + 2, by omega, by omega,
        hasks.above.succ (x := []) hasks.keeps, reads,
        Or.inr ⟨c, _, _, hasks.receives⟩, hasks.returns, fun _ hsame => ?_⟩
      rw [hasks.answers, World.results, World.fetch_of_some hresolved,
        hrows (by omega), hsame.contexts c hresolved]

theorem step_results {label : Json} {name : String} {nested : Bool}
    (h : m.todo =
      .perform (.mk label (.query (.results name))) nested :: rest)
    (found : m.world.queryBridge? name = some q) :
    ∃ access, m.step = { m with
      todo := access ++
        .readQuery q :: .finish label [.queryBridge q] nested :: rest } := by
  have hbegin : begin { m with todo := rest } (.query (.results name)) =
      .ok ⟨{ m with todo := rest }, [.queryBridge q],
        accessTasks { m with todo := rest } (.query q) ++ [.readQuery q]⟩ := by
    simp only [begin, beginQuery, found, needed]
    rfl
  rw [step_of_todo_cons h]
  refine ⟨accessTasks { m with todo := rest } (.query q), ?_⟩
  simp [doTask, perform, Command.action, Command.label, hbegin, push]

/-- A call for the results of a query bridge reads the bridge when the owner
of the property has been told.  It answers what the query gives when it is
called, unless the context is changed or exchanged before the read begins, or
before the context has answered. -/
structure Calls (m : Machine) (q : Ref .queryBridge) (n k r j : ℕ)
    (below : List Task) : Prop where
  lt : n < k
  above : m.Above below n j
  read : m.Queries q k r j below
  answers : (run n m).world.SameContext (run k m).world q →
    (run k m).world.SameContext (run r m).world q →
    (run (j + 1) m).reply = .rows ((run n m).world.results q)

/-- Every call for the results of a bridge answers what the query gives when
it is called, unless something is on its way to the bridge, or the context
that it asks has unsaved changes of its entity. -/
def ResultsAsFetched (m : Machine) (q : Ref .queryBridge) : Prop :=
  ∀ n label name nested rest,
    (run n m).todo =
      .perform (.mk label (.query (.results name))) nested :: rest →
    (run n m).world.queryBridge? name = some q →
    (∀ t ∈ rest, ¬ t.Owes (run n m).world (.query q)) →
    (run n m).world.Clean q →
    ∃ k r j, m.Calls q n k r j (.finish label [.queryBridge q] nested :: rest)

/-- Along every run in which a query bridge hears of the saves of the contexts
that it asks, in which hooks and presenters do what they are there for, and
in which the default context stays as long as the bridge asks it, the bridge
cannot be told from one without a cache.  The numbers of subscriptions are
taken to be unique. -/
theorem results_as_fetched (commands : List Command) (q : Ref .queryBridge)
    (few : (ofCommands commands).Few (.bridge (.query q)))
    (obliges : ∀ k, (run k (ofCommands commands)).obliges)
    (hears : ∀ k, (run k (ofCommands commands)).world.HearsSaves q)
    (steady : ∀ k, (run k (ofCommands commands)).KeepsDefault q)
    (unique : ∀ k,
      (run k (ofCommands commands)).world.subscriptions ≤ 2 ^ 64) :
    (ofCommands commands).ResultsAsFetched q := by
  intro n label name nested rest call found calm clean
  have hsound := sound_ofCommands commands
  have hhas : (run n (ofCommands commands)).world.Has (.queryBridge q) :=
    (hsound.after n).world.names _ (World.isNamed_of_queryBridge? found)
  obtain ⟨access, hstep⟩ := step_results call found
  rw [← run_succ] at hstep
  obtain ⟨k, hnk, hreads, habove, hheld, hcalm⟩ :=
    reads_of_call (b := .query q) (congrArg Machine.todo hstep) hhas
      (fun _ h => h) calm
  have hcore := queryBridge_core_run (Nat.le_of_lt hnk) hhas
  obtain ⟨r, j, hqueries⟩ := hsound.queries hreads fun hclean rows hrows =>
    cached_eq_results few obliges hears steady (unique k)
      (has_run (Nat.le_of_lt hnk) hhas) hheld hcalm hclean hrows
  have hread : (ofCommands commands).Above
      ([] ++ .finish label [.queryBridge q] nested :: rest) k j :=
    hqueries.above
  refine ⟨k, r, j, hnk, habove.trans hread, hqueries, fun hsame hasked => ?_⟩
  rw [hqueries.answers (hsame.clean clean hcore) hasked, World.results,
    hsame.fetch_eq hcore, World.results]

/-- Here the context writes and saves a row while it is asked, so that the
rows that were taken before are answered, but are not cached. -/
theorem results_as_fetched_save_in_fetch :
    (ofCommands
      [.mk .null (.context (.newSupervisedContext "c" none
          [(1, [.mk .null (.context (.insertRow "c" ⟨"R", "E"⟩ .null none)),
            .mk .null (.context (.saveContext "c"))])] 0 (.history ""))),
        .mk .null (.context (.setDefaultContext "c")),
        .mk .null (.query (.newQueryBridge "q" ⟨"R", "E"⟩ [])),
        .mk .null (.query (.results "q")),
        .mk .null (.query (.results "q"))]).ResultsAsFetched ⟨0⟩ :=
  results_as_fetched _ _
    (few_of_halted (sound_ofCommands _) 40 (by decide +kernel)
      (by decide +kernel))
    (forall_run_of_halted (P := fun m => m.obliges) 40 (by decide +kernel)
      (by decide +kernel))
    (forall_run_of_halted (P := fun m => m.world.HearsSaves ⟨0⟩) 40
      (by decide +kernel) (by decide +kernel))
    (forall_run_of_halted (P := fun m => m.KeepsDefault ⟨0⟩) 40
      (by decide +kernel) (by decide +kernel))
    (forall_run_of_halted (P := fun m => m.world.subscriptions ≤ 2 ^ 64) 40
      (by decide +kernel) (by decide +kernel))

end

end Machine
end LiveProperty
