import LiveProperty.Proofs.Machine.Termination
import LiveProperty.Proofs.Machine.Trackers

/-!
# History

Trackers that share a source, a store and a key go through the log of the
source together, whichever of them is called and wherever it is called from.
What they read so far is a segment of the log that ends with the stored
token, and each part of it is announced once.
-/

namespace LiveProperty

deriving instance DecidableEq for HistoryTransaction

/-! ## Logs -/

/-- The transactions of a log strictly after a token. -/
def HistoryTransaction.after (log : List HistoryTransaction)
    (token : HistoryToken) : List HistoryTransaction :=
  (log.dropWhile fun x => x.token ≠ token).drop 1

theorem HistoryTransaction.after_append {seen rest : List HistoryTransaction}
    {last : HistoryTransaction}
    (distinct : ((seen ++ last :: rest).map HistoryTransaction.token).Nodup) :
    after (seen ++ last :: rest) last.token = rest := by
  have hother : ∀ x ∈ seen, decide (x.token ≠ last.token) = true := by
    intro x hx
    rw [List.map_append, List.map_cons] at distinct
    have hne := List.disjoint_of_nodup_append distinct
      (List.mem_map_of_mem hx)
    apply decide_eq_true
    intro heq
    rw [heq] at hne
    exact hne List.mem_cons_self
  rw [after, List.dropWhile_append_of_pos hother,
    List.dropWhile_cons_of_neg (by simp), List.drop_one, List.tail_cons]

/-- What a source that is backed by a log answers: what came after a token of
the log, or some of the newest transactions. -/
def HistoryCursor.Answers (log transactions : List HistoryTransaction) :
    HistoryCursor → Prop
  | .after token => token ∈ log.map HistoryTransaction.token →
    transactions = HistoryTransaction.after log token
  | .recent => transactions <:+ log

instance (log transactions : List HistoryTransaction)
    (cursor : HistoryCursor) : Decidable (cursor.Answers log transactions) :=
  match cursor with
  | .after token => inferInstanceAs (Decidable (token ∈ _ → _))
  | .recent => inferInstanceAs (Decidable (_ <:+ _))

/-- How far a log was read from its first token on, or from anywhere if there
was none: up to a token, or not at all. -/
inductive Progress (log : List HistoryTransaction)
    (first : Option HistoryToken) :
    List HistoryTransaction → Option HistoryToken → Prop
  | fresh (unset : first = none) : Progress log first [] none
  | upTo (seen rest read : List HistoryTransaction)
      (last : HistoryTransaction) (split : log = seen ++ last :: rest)
      (suffix : read <:+ seen ++ [last])
      (resumed : ∀ token, first = some token →
        ∃ older x, x.token = token ∧ seen ++ [last] = older ++ x :: read) :
      Progress log first read (some last.token)

namespace Progress

variable {log read : List HistoryTransaction}
  {first token : Option HistoryToken}

/-- Nothing was read yet of a log that has the first token. -/
theorem start
    (begins : ∀ token ∈ first, token ∈ log.map HistoryTransaction.token) :
    Progress log first [] first := by
  cases first with
  | none => exact .fresh rfl
  | some token =>
    obtain ⟨x, hx, rfl⟩ := List.mem_map.mp (begins token rfl)
    obtain ⟨seen, rest, hsplit⟩ := List.append_of_mem hx
    refine .upTo seen rest [] x hsplit (List.nil_suffix) ?_
    rintro _ ⟨⟩
    exact ⟨seen, x, rfl, rfl⟩

/-- The log may grow. -/
theorem grow {longer : List HistoryTransaction}
    (h : Progress log first read token) (appends : log <+: longer) :
    Progress longer first read token := by
  obtain ⟨added, rfl⟩ := appends
  cases h with
  | fresh unset => exact .fresh unset
  | upTo seen rest read last split suffix resumed =>
    refine .upTo seen (rest ++ added) read last ?_ suffix resumed
    rw [split, List.append_assoc, List.cons_append]

/-- What was read is a segment of the log. -/
theorem segment (h : Progress log first read token) : read <:+: log := by
  cases h with
  | fresh unset => exact List.nil_infix
  | upTo seen rest read last split suffix resumed =>
    refine suffix.isInfix.trans ⟨[], rest, ?_⟩
    rw [split, List.nil_append, List.append_assoc, List.singleton_append]

/-- What was read comes just after the first token. -/
theorem resumes {t : HistoryToken} (h : Progress log (some t) read token) :
    ∃ older x newer, x.token = t ∧ log = older ++ x :: (read ++ newer) := by
  cases h with
  | fresh unset => cases unset
  | upTo seen rest read last split suffix resumed =>
    obtain ⟨older, x, hx, hseen⟩ := resumed t rfl
    refine ⟨older, x, rest, hx, ?_⟩
    rw [split, ← List.singleton_append, ← List.append_assoc, hseen,
      List.append_assoc, List.cons_append]

/-- What the source answers goes on where the last answer ended, and reaches
to the end of the log. -/
theorem answer {transactions : List HistoryTransaction}
    (h : Progress log first read token)
    (distinct : (log.map HistoryTransaction.token).Nodup)
    (answers : (HistoryCursor.ofToken token).Answers log transactions) :
    read ++ transactions <:+ log ∧
      Progress log first (read ++ transactions)
        ((transactions.getLast?.map HistoryTransaction.token).or token) := by
  cases h with
  | fresh unset =>
    have hsuffix : transactions <:+ log := answers
    refine ⟨hsuffix, ?_⟩
    rcases List.eq_nil_or_concat' transactions with rfl | ⟨front, newest, rfl⟩
    · exact .fresh unset
    · obtain ⟨older, hlog⟩ := hsuffix
      rw [List.getLast?_concat]
      refine .upTo (older ++ front) [] _ newest ?_ ⟨older, ?_⟩ ?_
      · rw [← hlog, List.append_assoc]
      · rw [List.nil_append, List.append_assoc]
      · rintro token hfirst
        rw [unset] at hfirst
        cases hfirst
  | upTo seen rest read last split suffix resumed =>
    have hmem : last.token ∈ log.map HistoryTransaction.token := by
      rw [split]
      exact List.mem_map_of_mem (by simp)
    obtain rfl : transactions = rest := by
      rw [answers hmem, split, HistoryTransaction.after_append (split ▸ distinct)]
    obtain ⟨older, hread⟩ := suffix
    have hlog : log = older ++ (read ++ transactions) := by
      rw [split, ← List.append_assoc, hread, List.append_assoc,
        List.singleton_append]
    refine ⟨⟨older, hlog.symm⟩, ?_⟩
    rcases List.eq_nil_or_concat' transactions with rfl | ⟨front, newest, rfl⟩
    · rw [List.append_nil]
      exact .upTo seen [] read last split ⟨older, hread⟩ resumed
    · rw [List.getLast?_concat]
      refine .upTo (seen ++ last :: front) [] _ newest ?_ ⟨older, ?_⟩ ?_
      · rw [split, List.append_assoc, List.cons_append]
      · rw [← hlog, split, List.append_assoc, List.cons_append]
      · intro token hfirst
        obtain ⟨older', x, hx, hseen⟩ := resumed token hfirst
        refine ⟨older', x, hx, ?_⟩
        have hsplit : seen ++ last :: front ++ [newest] =
            (seen ++ [last]) ++ (front ++ [newest]) := by simp
        rw [hsplit, hseen, List.append_assoc, List.cons_append]

end Progress

theorem mem_touchedEntities {transactions : List HistoryTransaction}
    {entity : String} :
    entity ∈ touchedEntities transactions ↔
      ∃ x ∈ transactions, ∃ c ∈ x.changes, c.entity = entity := by
  simp [touchedEntities, EntitySet.mem_ofList]

/-- A part of a call, up to its announcement. -/
def Task.OfCall (w : World) (s : Ref .store) (key : String) : Task → Prop
  | .announceRemote t _ _ => w.Tracks s key t
  | x => x.UsesToken w s key

instance (w : World) (s : Ref .store) (key : String) (x : Task) :
    Decidable (x.OfCall w s key) := by
  unfold Task.OfCall Task.UsesToken
  split
  · infer_instance
  · split <;> infer_instance

theorem Task.UsesToken.ofCall {w : World} {s : Ref .store} {key : String}
    {x : Task} (h : x.UsesToken w s key) : x.OfCall w s key := by
  cases x <;> first | exact h | exact h.elim

namespace Machine

variable {m : Machine} {s : Ref .store} {key : String}

/-! ## What is read -/

/-- Whether the next task takes from the source of a tracker what a log has
for the cursor that the source was asked with. -/
def AnswersFrom (m : Machine) (s : Ref .store) (key : String)
    (log : List HistoryTransaction) : Prop :=
  match m.batch? s key, m.world.journal with
  | some transactions, .historyAsked _ _ cursor :: _ =>
    cursor.Answers log transactions
  | _, _ => True

instance (m : Machine) (s : Ref .store) (key : String)
    (log : List HistoryTransaction) : Decidable (m.AnswersFrom s key log) := by
  unfold AnswersFrom
  split <;> infer_instance

theorem answersFrom_of_halted (halted : m.todo.isEmpty)
    (log : List HistoryTransaction) : m.AnswersFrom s key log := by
  have hnone : m.batch? s key = none := by
    simp only [batch?, List.isEmpty_iff.mp halted]
  simp only [AnswersFrom, hnone]

/-- The batches that the first steps of a run read from the source, in the
order in which they read them. -/
def delivered (m : Machine) (s : Ref .store) (key : String) (n : ℕ) :
    List (List HistoryTransaction) :=
  (List.range n).filterMap fun k => (run k m).batch? s key

theorem delivered_succ (n : ℕ) :
    m.delivered s key (n + 1) =
      m.delivered s key n ++ ((run n m).batch? s key).toList := by
  rw [delivered, List.range_succ, List.filterMap_append, delivered]
  cases hbatch : (run n m).batch? s key <;> simp [hbatch]

theorem tracks_run {t : Ref .tracker} {i j : ℕ} (le : i ≤ j)
    (has : (run i m).world.Has (.tracker t)) :
    (run j m).world.Tracks s key t ↔ (run i m).world.Tracks s key t := by
  obtain ⟨-, hstore, hkey, -⟩ :=
    Tracker.eq_of_core_eq (tracker_core_run le has)
  rw [World.Tracks, World.Tracks, hstore, hkey]

/-- Trackers that store their tokens under one key of a store share a source
that is backed by a log. -/
structure SharesLog (m : Machine) (s : Ref .store) (key : String)
    (log : ℕ → List HistoryTransaction) : Prop where
  has : m.world.Has (.store s)
  /-- In the beginning no call is in progress. -/
  apart : ∀ x ∈ m.todo, ¬ x.OfCall m.world s key
  /-- In the beginning the key is unset, or a token of the log is stored. -/
  begins : ∀ token ∈ m.world.token? s key,
    token ∈ (log 0).map HistoryTransaction.token
  appends : ∀ n, log n <+: log (n + 1)
  distinct : ∀ n, ((log n).map HistoryTransaction.token).Nodup
  /-- The source may fail, but what it answers is in the log. -/
  answers : ∀ n, (run n m).AnswersFrom s key (log n)
  /-- Only trackers write the key. -/
  spares : ∀ n, (run n m).spares s key
  /-- Neither the source nor a read of the store does anything else. -/
  undisturbed : ∀ n, (run n m).undisturbed s key

/-- What was read after some steps of a run ends with the token that is
stored or about to be. -/
structure Reading (m : Machine) (s : Ref .store) (key : String)
    (log : ℕ → List HistoryTransaction) (n : ℕ)
    (token : Option HistoryToken) : Prop where
  phase : (run n m).Phase s key token
  progress : Progress (log n) (m.world.token? s key)
    (m.delivered s key n).flatten token
  newest : token = ((m.delivered s key n).flatten.getLast?.map
    HistoryTransaction.token).or (m.world.token? s key)

section

variable {log : ℕ → List HistoryTransaction} {n : ℕ}

theorem AnswersFrom.answers {log transactions : List HistoryTransaction}
    {token : Option HistoryToken} (h : m.AnswersFrom s key log)
    (reads : m.Reads s key token transactions) :
    (HistoryCursor.ofToken token).Answers log transactions := by
  obtain ⟨hbatch, t, label, journal, hasked⟩ := reads
  rw [AnswersFrom, hbatch, hasked] at h
  exact h

theorem Reading.start (shares : m.SharesLog s key log) :
    m.Reading s key log 0 (m.world.token? s key) :=
  ⟨.apart fun x hx huses => shares.apart x hx huses.ofCall,
    .start shares.begins, rfl⟩

/-- A step reads nothing, or goes on in the log to its end. -/
theorem Reading.step {token : Option HistoryToken}
    (h : m.Reading s key log n token) (shares : m.SharesLog s key log)
    (sound : m.Sound) :
    (run n m).batch? s key = none ∧ m.Reading s key log (n + 1) token ∨
      (m.delivered s key (n + 1)).flatten <:+ log n ∧
        ∃ next, m.Reading s key log (n + 1) next := by
  have hdelivered : m.delivered s key (n + 1) =
      m.delivered s key n ++ ((run n m).batch? s key).toList :=
    delivered_succ n
  rcases h.phase.step (sound.after n) (has_run (Nat.zero_le n) shares.has)
    (shares.spares n) (shares.undisturbed n) with ⟨hnone, hnext⟩ |
      ⟨transactions, hreads, hnext⟩
  · left
    rw [hnone, Option.toList_none, List.append_nil] at hdelivered
    refine ⟨hnone, ?_, ?_, ?_⟩
    · rw [run_succ]
      exact hnext
    · rw [hdelivered]
      exact h.progress.grow (shares.appends n)
    · rw [hdelivered]
      exact h.newest
  · right
    have hflatten : (m.delivered s key (n + 1)).flatten =
        (m.delivered s key n).flatten ++ transactions := by
      rw [hdelivered, hreads.batch]
      simp
    obtain ⟨hsuffix, hprogress⟩ := h.progress.answer (shares.distinct n)
      ((shares.answers n).answers hreads)
    rw [← hflatten] at hsuffix hprogress
    refine ⟨hsuffix, _, ?_, hprogress.grow (shares.appends n), ?_⟩
    · rw [run_succ]
      exact hnext
    · rw [hflatten, List.getLast?_append, h.newest, Option.map_or,
        Option.or_assoc]

theorem reading_run (shares : m.SharesLog s key log) (sound : m.Sound)
    (n : ℕ) : ∃ token, m.Reading s key log n token := by
  induction n with
  | zero => exact ⟨_, .start shares⟩
  | succ n ih =>
    obtain ⟨token, h⟩ := ih
    rcases h.step shares sound with ⟨-, hnext⟩ | ⟨-, hnext⟩
    · exact ⟨token, hnext⟩
    · exact hnext

/-- When no call is in progress, the stored token is that of the newest
transaction that was delivered. -/
theorem Reading.token?_eq {token : Option HistoryToken}
    (h : m.Reading s key log n token)
    (quiet : ∀ x ∈ (run n m).todo, ¬ x.UsesToken (run n m).world s key) :
    (run n m).world.token? s key =
      ((m.delivered s key n).flatten.getLast?.map
        HistoryTransaction.token).or (m.world.token? s key) := by
  rw [← h.newest]
  cases h.phase with
  | stores stored token todo =>
    have hmem : .write s key (some stored) ∈ (run n m).todo :=
      todo ▸ List.mem_cons_self
    exact absurd ⟨rfl, rfl⟩ (quiet _ hmem)
  | _ => rfl

end

/-! ## What is announced -/

/-- A batch that is read at one step of a run is announced at another. -/
structure Announces (m : Machine) (s : Ref .store) (key : String)
    (t : Ref .tracker) (transactions : List HistoryTransaction)
    (below : List Task) (k l : ℕ) : Prop where
  taken : (run k m).todo = .takeBatch t :: below
  batch : (run k m).batch? s key = some transactions
  waits : m.Waits
    (.announceRemote t transactions.length (touchedEntities transactions))
    below k l

/-- A batch that is read at one step of a run, announced at another, and
returned after a third. -/
structure Posts (m : Machine) (s : Ref .store) (key : String)
    (t : Ref .tracker) (transactions : List HistoryTransaction)
    (below : List Task) (k l j : ℕ) : Prop
    extends m.Announces s key t transactions below k l where
  /-- It is announced once. -/
  once : ∀ l', m.Announces s key t transactions below k l' → l' = l
  /-- The newest token is stored first. -/
  stored : ∀ newest, transactions.getLast? = some newest →
    k + 2 ≤ l ∧ (run (k + 2) m).world.token? s key = some newest.token
  touched : ∀ entity, entity ∈ touchedEntities transactions ↔
    ∃ x ∈ transactions, ∃ c ∈ x.changes, c.entity = entity
  posted : touchedEntities transactions ≠ [] →
    (∃ after, (run (l + 1) m).todo =
      .deliver
          ((run l m).world.audience ((run l m).world.trackers.get t).changes)
          (.change (.remote (touchedEntities transactions))) :: after) ∧
      (run (l + 1) m).world.journal =
        .announced ((run l m).world.trackers.get t).changes
            (.change (.remote (touchedEntities transactions)))
            ((run l m).world.audience
              ((run l m).world.trackers.get t).changes) ::
          .remoteAnnounced t transactions.length
              (touchedEntities transactions).length ::
            (run l m).world.journal
  silent : touchedEntities transactions = [] →
    (run (l + 1) m).todo = below ∧ (run (l + 1) m).world = (run l m).world
  above : m.Above below k j
  returns : (run (j + 1) m).todo = below
  reply : (run (j + 1) m).reply = .texts (touchedEntities transactions)

section

variable {t : Ref .tracker} {transactions : List HistoryTransaction}
  {below : List Task} {k l : ℕ}

theorem not_follows_announceRemote (m : Machine) (t : Ref .tracker)
    (count : ℕ) (entities : EntitySet) :
    ¬ Follows m (.announceRemote t count entities)
      (.announceRemote t count entities) := fun h => by cases h

theorem tracks_of_batch? (taken : m.todo = .takeBatch t :: below)
    (batch : m.batch? s key = some transactions) :
    m.world.Tracks s key t ∧
      (m.world.trackers.get t).batch = .ok transactions := by
  simp only [batch?, taken] at batch
  split at batch
  · next htracks =>
    refine ⟨htracks, ?_⟩
    cases hanswer : (m.world.trackers.get t).batch with
    | error e =>
      rw [hanswer] at batch
      cases batch
    | ok answered =>
      rw [hanswer] at batch
      obtain rfl := Option.some.inj batch
      rfl
  · cases batch

/-- Of a batch one thing is announced, and nothing else comes before it than
the storing of the newest token. -/
theorem announces_of_batch (taken : (run k m).todo = .takeBatch t :: below)
    (batch : (run k m).batch? s key = some transactions) :
    ∃ l, m.Announces s key t transactions below k l ∧
      (∀ newest, transactions.getLast? = some newest →
        k + 2 ≤ l ∧
          (run (k + 2) m).world.token? s key = some newest.token) := by
  obtain ⟨htracks, hok⟩ := tracks_of_batch? taken batch
  have hnext := step_takeBatch_of_ok taken hok
  rw [← run_succ] at hnext
  obtain ⟨l, hwaits⟩ := exists_waits hnext
  refine ⟨l, ⟨taken, batch, hwaits⟩, fun newest hlast => ?_⟩
  obtain ⟨stored, hstore, hdecode⟩ :=
    storeToken_eq ((run k m).world.trackers.get t) t newest.token
  rw [hlast, Option.map_some, hstore, htracks.1, htracks.2] at hnext
  obtain ⟨-, htoken⟩ := step_write_token hnext hdecode
  rw [← run_succ] at htoken
  refine ⟨?_, htoken⟩
  have hlt := hwaits.lt
  have hne : l ≠ k + 1 := by
    rintro rfl
    rw [hwaits.turn] at hnext
    simpa using congrArg List.length hnext
  omega

/-- What was announced returns. -/
theorem Announces.posts (h : m.Announces s key t transactions below k l)
    (stored : ∀ newest, transactions.getLast? = some newest →
      k + 2 ≤ l ∧ (run (k + 2) m).world.token? s key = some newest.token) :
    ∃ j, m.Posts s key t transactions below k l j := by
  have hturn := h.waits.turn
  have honce (l' : ℕ) (h' : m.Announces s key t transactions below k l') :
      l' = l :=
    h.waits.turn_unique h'.waits fun m => not_follows_announceRemote m t _ _
  have htouched (entity : String) :
      entity ∈ touchedEntities transactions ↔
        ∃ x ∈ transactions, ∃ c ∈ x.changes, c.entity = entity :=
    mem_touchedEntities
  by_cases hempty : touchedEntities transactions = []
  · rw [hempty] at hturn
    have hstep := step_announceRemote_of_nil hturn
    rw [← run_succ] at hstep
    have hsilent : (run (l + 1) m).todo = below ∧
        (run (l + 1) m).world = (run l m).world := by
      rw [hstep]
      exact ⟨rfl, rfl⟩
    refine ⟨l, h, honce, stored, htouched, fun hne => absurd hempty hne,
      fun _ => hsilent, h.waits.above, hsilent.1, ?_⟩
    rw [hstep, hempty]
  · obtain ⟨hdeliver, hjournal⟩ := step_announceRemote hturn hempty
    rw [← run_succ] at hdeliver hjournal
    obtain ⟨j, hwaits⟩ := exists_waits_cons hdeliver
    have habove : m.Above ([] ++ below) l j := hwaits.above
    have hstep : run (j + 1) m = ⟨(run j m).world, below,
        .texts (touchedEntities transactions)⟩ := by
      rw [run_succ, step_of_todo_cons hwaits.turn]
      rfl
    refine ⟨j, h, honce, stored, htouched, fun _ => ⟨⟨_, hdeliver⟩, hjournal⟩,
      fun heq => absurd heq hempty, h.waits.above.trans habove, by rw [hstep],
      by rw [hstep]⟩

/-- Whatever a tracker is about to announce was read as a batch by an earlier
step of the run, and nothing else stays of it. -/
theorem announces_of_turn (sound : m.Sound)
    (apart : ∀ x ∈ m.todo, ¬ x.OfCall m.world s key) {count : ℕ}
    {entities : EntitySet}
    (turn : (run l m).todo = .announceRemote t count entities :: below)
    (tracks : (run l m).world.Tracks s key t) :
    ∃ k transactions, count = transactions.length ∧
      entities = touchedEntities transactions ∧
      m.Announces s key t transactions below k l := by
  have hsuffix : .announceRemote t count entities :: below <:+
      (run l m).todo := turn ▸ List.suffix_rfl
  rcases exists_parent hsuffix with hstart | ⟨k, hkl, parent, rest, before,
    after, htodo, hfollows, hput, rfl, hwait⟩
  · have hmem := hstart.subset List.mem_cons_self
    have hhas : (run 0 m).world.Has (.tracker t) :=
      (sound.todo _ hmem).objects _ List.mem_cons_self
    exact absurd ((tracks_run (Nat.zero_le l) hhas).mp tracks)
      (apart _ hmem)
  · cases hfollows with
    | begun c nested left => cases left
    | announceRemote _ transactions ok =>
      have hhas : (run k m).world.Has (.tracker t) :=
        (sound.after k).has_of_head htodo List.mem_cons_self
      have htracks := (tracks_run (Nat.le_of_lt hkl) hhas).mp tracks
      have hnext := step_takeBatch_of_ok htodo ok
      rw [← run_succ, hput] at hnext
      obtain rfl : after = [] := by
        have hlength := congrArg List.length hnext
        apply List.length_eq_zero_iff.mp
        cases hlast : transactions.getLast? with
        | none =>
          simp only [hlast, Option.map_none, Option.toList_none,
            List.length_append, List.length_cons, List.length_nil] at hlength
          omega
        | some newest =>
          obtain ⟨stored, hstore, -⟩ := storeToken_eq
            ((run k m).world.trackers.get t) t newest.token
          rw [hlast, Option.map_some, hstore] at hnext hlength
          -- The token is stored before the announcement, not after it.
          cases before with
          | nil => cases hnext
          | cons x before =>
            simp only [Option.toList_some, List.length_append,
              List.length_cons, List.length_nil] at hlength
            omega
      refine ⟨k, transactions, rfl, rfl, htodo, ?_, hkl, hwait, turn⟩
      simp only [batch?, htodo]
      rw [if_pos htracks]
      exact congrArg Except.toOption ok

end

/-! ## Calls -/

/-- A call asks the source, and takes what it answers. -/
theorem takes_of_call {n : ℕ} {label : Json} {name : String} {nested : Bool}
    {rest : List Task} {t : Ref .tracker}
    (call : (run n m).todo =
      .perform (.mk label (.query (.remoteChange name))) nested :: rest)
    (found : (run n m).world.tracker? name = some t) :
    ∃ k, n < k ∧
      (run k m).todo =
        .takeBatch t :: .finish label [.tracker t] nested :: rest ∧
      m.Above (.finish label [.tracker t] nested :: rest) n k := by
  have hbegin : begin { run n m with todo := rest }
      (.query (.remoteChange name)) =
        .ok ({ run n m with todo := rest }.readingToken t
          (Task.askHistory t)) := by
    simp only [begin, beginQuery, found, needed]
    rfl
  have hstep := step_readingToken call hbegin ⟨rfl, rfl⟩
  rw [← run_succ] at hstep
  obtain ⟨i, hasks⟩ := exists_waits (congrArg Machine.todo hstep)
  obtain ⟨hcalls, -⟩ := step_askHistory hasks.turn
  rw [← run_succ] at hcalls
  obtain ⟨k, htakes⟩ := exists_waits_cons hcalls
  have htaken : m.Above ([] ++ .finish label [.tracker t] nested :: rest) i k :=
    htakes.above
  exact ⟨k, Nat.lt_trans hasks.lt htakes.lt, htakes.turn,
    hasks.above.trans htaken⟩

/-- Trackers that share a log deliver each of its transactions once, in
order. -/
structure DeliversOnce (m : Machine) (s : Ref .store) (key : String)
    (log : ℕ → List HistoryTransaction) : Prop where
  /-- The batches that were read are consecutive parts of the log. -/
  segment : ∀ n, (m.delivered s key n).flatten <:+: log n
  /-- They go on from the token that is stored in the beginning. -/
  resumes : ∀ n token, m.world.token? s key = some token →
    ∃ older x newer, x.token = token ∧
      log n = older ++ x :: ((m.delivered s key n).flatten ++ newer)
  /-- After each of them nothing of the log is left to be read. -/
  complete : ∀ n transactions, (run n m).batch? s key = some transactions →
    (m.delivered s key (n + 1)).flatten <:+ log n
  /-- When no call is in progress, the token of the newest is stored. -/
  stored : ∀ n,
    (∀ x ∈ (run n m).todo, ¬ x.UsesToken (run n m).world s key) →
    (run n m).world.token? s key =
      ((m.delivered s key n).flatten.getLast?.map
        HistoryTransaction.token).or (m.world.token? s key)
  /-- Every call takes a batch from the source. -/
  calls : ∀ n label name nested rest t,
    (run n m).todo =
      .perform (.mk label (.query (.remoteChange name))) nested :: rest →
    (run n m).world.tracker? name = some t →
    ∃ k, n < k ∧
      (run k m).todo =
        .takeBatch t :: .finish label [.tracker t] nested :: rest ∧
      m.Above (.finish label [.tracker t] nested :: rest) n k
  /-- Every batch is announced once, and answered. -/
  posts : ∀ k t transactions below,
    (run k m).todo = .takeBatch t :: below →
    (run k m).batch? s key = some transactions →
    ∃ l j, m.Posts s key t transactions below k l j
  /-- Every announcement is that of one batch. -/
  posted : ∀ l t count entities below,
    (run l m).todo = .announceRemote t count entities :: below →
    (run l m).world.Tracks s key t →
    ∃! k, ∃ transactions, count = transactions.length ∧
      entities = touchedEntities transactions ∧
      m.Announces s key t transactions below k l
  /-- A failure is answered, and changes nothing. -/
  fails : ∀ k t e below, (run k m).todo = .takeBatch t :: below →
    (run k m).world.Tracks s key t →
    ((run k m).world.trackers.get t).batch = .error e →
    (run (k + 1) m).todo = below ∧
      (run (k + 1) m).reply = .failed (.history e.message) ∧
      (run (k + 1) m).world.journal = .historyFailed t e ::
        .historyAnswered t (.error e) :: (run k m).world.journal ∧
      (run (k + 1) m).world.storedValue s key =
        (run k m).world.storedValue s key

/-- Along every run from a point at which no call is in progress, trackers
that share a log deliver each of its transactions once. -/
theorem delivers_once {log : ℕ → List HistoryTransaction}
    (reached : ∃ commands n, run n (ofCommands commands) = m)
    (shares : m.SharesLog s key log) : m.DeliversOnce s key log := by
  have hsound : m.Sound := by
    obtain ⟨commands, n, rfl⟩ := reached
    exact sound_run commands n
  constructor
  · intro n
    obtain ⟨token, h⟩ := reading_run shares hsound n
    exact h.progress.segment
  · intro n token hfirst
    obtain ⟨last, h⟩ := reading_run shares hsound n
    have hprogress := h.progress
    rw [hfirst] at hprogress
    exact hprogress.resumes
  · intro n transactions hbatch
    obtain ⟨token, h⟩ := reading_run shares hsound n
    rcases h.step shares hsound with ⟨hnone, -⟩ | ⟨hsuffix, -⟩
    · rw [hnone] at hbatch
      cases hbatch
    · exact hsuffix
  · intro n quiet
    obtain ⟨token, h⟩ := reading_run shares hsound n
    exact h.token?_eq quiet
  · intro n label name nested rest t call found
    exact takes_of_call call found
  · intro k t transactions below taken batch
    obtain ⟨l, hannounces, hstored⟩ := announces_of_batch taken batch
    exact ⟨l, hannounces.posts hstored⟩
  · intro l t count entities below turn tracks
    obtain ⟨k, transactions, hcount, hentities, h⟩ :=
      announces_of_turn hsound shares.apart turn tracks
    refine ⟨k, ⟨transactions, hcount, hentities, h⟩, ?_⟩
    rintro k' ⟨others, hcount', hentities', h'⟩
    have hkk' := h.waits.not_lt_of_turn (Nat.le_of_lt h'.waits.lt) h'.taken
      (by simp)
    have hk'k := h'.waits.not_lt_of_turn (Nat.le_of_lt h.waits.lt) h.taken
      (by simp)
    omega
  · intro k t e below taken tracks failed
    obtain ⟨hreturns, hreply, hjournal⟩ :=
      step_takeBatch_of_error taken failed
    rw [run_succ]
    exact ⟨hreturns, hreply, hjournal, storedValue_of_other
      (has_run (Nat.zero_le k) shares.has) taken (by simp)⟩

/-- Here a tracker is called while another one stores its token, when the log
has grown already. -/
theorem delivers_once_call_in_listener :
    (run 12 (ofCommands
      [.mk .null (.store (.newStore "m" none [])),
        .mk .null (.query (.newTracker "t" "m"
          [.ok [⟨⟨[1]⟩, [⟨.inserted, "E"⟩]⟩, ⟨⟨[2]⟩, []⟩],
            .error (.history ""), .ok []] "k" none [])),
        .mk .null (.query (.newTracker "u" "m"
          [.ok [⟨⟨[3]⟩, [⟨.updated, "F"⟩]⟩]] "k" none [])),
        .mk .null (.notice (.subscribe "s" (.storeKey "m" "k")
          [(1, [.mk .null (.query (.remoteChange "u"))])])),
        .mk .null (.query (.remoteChange "t")),
        .mk .null (.query (.remoteChange "t")),
        .mk .null (.query (.remoteChange "t"))])).DeliversOnce ⟨1⟩ "k"
      fun n => List.take (if n < 8 then 2 else 3)
        [⟨⟨[1]⟩, [⟨.inserted, "E"⟩]⟩, ⟨⟨[2]⟩, []⟩,
          ⟨⟨[3]⟩, [⟨.updated, "F"⟩]⟩] := by
  refine delivers_once ⟨_, 12, rfl⟩ ⟨?_, by decide +kernel,
    by decide +kernel, fun n => ?_, fun n => ?_, fun n => ?_,
    forall_run_of_halted (P := fun m => m.spares ⟨1⟩ "k") 40
      (by decide +kernel) (by decide +kernel),
    forall_run_of_halted (P := fun m => m.undisturbed ⟨1⟩ "k") 40
      (by decide +kernel) (by decide +kernel)⟩
  · change 1 < _
    decide +kernel
  · exact List.take_prefix_take_left (by split <;> split <;> omega)
  · split <;> decide +kernel
  · rcases Nat.lt_or_ge n 40 with hlt | hle
    · revert n
      decide +kernel
    · rw [run_of_halted (by decide +kernel) hle]
      exact answersFrom_of_halted (by decide +kernel) _

end Machine
end LiveProperty
