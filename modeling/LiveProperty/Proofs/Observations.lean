import LiveProperty.Proofs.KeyWrites
import LiveProperty.Proofs.Machine.Invalidations
import LiveProperty.Proofs.Machine.Scopes

/-!
# Observed bridges

An observer is registered with the properties that were read while its scope
was open.  Bridges that are bound to a registrar under these properties clear
their caches when a change is delivered to them, and the registrar counts the
change directly afterwards, so the observer hears of the first such clearing
and of no other.  It hears of it within the same invalidation, when the cache
is empty: what it reads first is what is stored.
-/

namespace LiveProperty

/-- The task that reads the cache of a bridge. -/
def Bridge.reading : Bridge → Task
  | .key b => .readKey b
  | .query q => .readQuery q

namespace Machine

variable {m : Machine} {r : Ref .registrar}

/-! ## What is read while a scope is open -/

/-- A client's command is about to read a bridge: it tells the owner of the
bridge's property first, and then reads the cache. -/
def ReadsBridge (m : Machine) (b : Bridge) : Prop :=
  ∃ c nested rest, m.todo = .perform c nested :: rest ∧
    begin { m with todo := rest } c.action =
      .ok ⟨{ m with todo := rest }, [b.object],
        accessTasks { m with todo := rest } b ++ [b.reading]⟩

/-- A registrar is about to be told of a read by somebody else than a bridge:
by a client's command, or by a hook that passes it on. -/
def ToldByOthers (m : Machine) (r : Ref .registrar) (p : String) : Prop :=
  (∃ c nested rest b, m.todo = .perform c nested :: rest ∧
    begin { m with todo := rest } c.action = .ok b ∧
    b.tasks = [.access (.registrar r) p, .answer .nothing]) ∨
  ∃ h rest, m.todo = .access (.hook h) p :: rest ∧
    (m.world.hooks.get h).forward = some r

theorem readsBridge_of_getKey {label : Json} {name : String} {nested : Bool}
    {rest : List Task} {b : Ref .keyBridge}
    (h : m.todo = .perform (.mk label (.store (.getKey name))) nested :: rest)
    (found : m.world.keyBridge? name = some b) :
    m.ReadsBridge (.key b) := by
  refine ⟨_, nested, rest, h, ?_⟩
  simp only [Command.action, begin, beginStore, found, needed]
  rfl

theorem readsBridge_of_results {label : Json} {name : String} {nested : Bool}
    {rest : List Task} {q : Ref .queryBridge}
    (h : m.todo = .perform (.mk label (.query (.results name))) nested :: rest)
    (found : m.world.queryBridge? name = some q) :
    m.ReadsBridge (.query q) := by
  refine ⟨_, nested, rest, h, ?_⟩
  simp only [Command.action, begin, beginQuery, found, needed]
  rfl

/-- The registrar is told of the read of a bridge that is bound to it. -/
theorem ReadsBridge.accesses {b : Bridge} {p : String} (h : m.ReadsBridge b)
    (alive : m.isAlive (.registrar r)) (binds : m.world.Binds b r p) :
    m.step.Accesses r p := by
  obtain ⟨c, nested, rest, htodo, hbegin⟩ := h
  have halive : ({ m with todo := rest } : Machine).isAlive (.registrar r) := by
    rwa [isAlive_below htodo rfl rfl]
  have hbinding : liveBinding? { m with todo := rest } b =
      some ⟨.registrar r, p⟩ := liveBinding_of_binds halive binds
  refine ⟨.keep [.registrar r] :: b.reading ::
    .finish c.label [b.object] nested :: rest, ?_⟩
  rw [step_of_begin htodo hbegin, todo_push, accessTasks, hbinding]
  rfl

theorem Begins.tasks_of_access {bound : ℕ} {begun : Begun} {p : String}
    (h : Begins m bound begun)
    (hp : .access (.registrar r) p ∈ begun.tasks) :
    (∃ b, begun = ⟨m, [b.object], m.accessTasks b ++ [b.reading]⟩ ∧
        m.liveBinding? b = some ⟨.registrar r, p⟩) ∨
      begun.tasks = [.access (.registrar r) p, .answer .nothing] := by
  have hread (b : Bridge)
      (hp : .access (.registrar r) p ∈ m.accessTasks b ++ [b.reading]) :
      m.liveBinding? b = some ⟨.registrar r, p⟩ := by
    have hp : .access (.registrar r) p ∈ m.accessTasks b := by
      cases b <;> simpa [Bridge.reading] using hp
    unfold accessTasks at hp
    split at hp
    · next binding hbinding =>
      obtain ⟨owner, property⟩ := binding
      obtain ⟨rfl, rfl⟩ : Owner.registrar r = owner ∧ p = property := by
        simpa using hp
      exact hbinding
    · simp at hp
  cases h with
  | getKey b named => exact Or.inl ⟨.key b, rfl, hread (.key b) hp⟩
  | results q named => exact Or.inl ⟨.query q, rfl, hread (.query q) hp⟩
  | access d property named =>
    obtain ⟨rfl, rfl⟩ : r = d ∧ p = property := by simpa using hp
    exact Or.inr rfl
  | observe d apply reaction named small => simp [Task.nested] at hp
  | readDefault key => simp [readTasks] at hp
  | readToken t next named tracked =>
    simp [readTasks, readingToken] at hp
    rcases tracked with rfl | rfl <;> simp at hp
  | _ => simp [announcing] at hp

/-- Who tells a registrar of a read is a bridge that is bound to it, or
somebody else. -/
theorem reads_or_told {t : Task} {p : String} {rest before after : List Task}
    (h : m.todo = t :: rest)
    (follows : Follows { m with todo := rest } t (.access (.registrar r) p))
    (next : m.step.todo =
      before ++ .access (.registrar r) p :: (after ++ rest)) :
    (∃ b, m.ReadsBridge b ∧ m.world.Binds b r p) ∨ m.ToldByOthers r p := by
  cases follows with
  | begun c nested left =>
    obtain ⟨begun, hbegin, hmem⟩ := mem_tasks_of_perform h next nofun nofun
    rcases Begins.tasks_of_access (begins_of_begin hbegin) hmem with
      ⟨b, rfl, hlive⟩ | htasks
    · exact Or.inl ⟨b, ⟨c, nested, rest, h, hbegin⟩,
        (Option.eq_some_of_filter_eq_some hlive)⟩
    · exact Or.inr (Or.inl ⟨c, nested, rest, begun, h, hbegin, htasks⟩)
  | forwardAccess d property r =>
    have hstep : m.step.todo =
        ((m.world.hooks.get d).forward.map fun r =>
            Task.access (.registrar r) p).toList ++
          [.fire (m.world.hooks.get d).onAccess] ++ rest := by
      rw [step_of_todo_cons h]
      rfl
    have hmem := mem_of_next hstep next
    refine Or.inr (Or.inr ⟨d, rest, h, ?_⟩)
    simpa using hmem

/-! ## The scope of an observer -/

theorem step_observe {label : Json} {name tag : String}
    {apply onChange : List Command} {nested : Bool} {rest : List Task}
    (h : m.todo = .perform (.mk label (.observation
      (.observe name tag apply onChange))) nested :: rest)
    (found : m.world.registrar? name = some r) :
    m.step = { m with
      world := m.world.enterScope r
      todo := Task.nested apply ++ .leaveScope r ⟨tag, onChange⟩ ::
        .answer .nothing :: .finish label [.registrar r] nested :: rest } := by
  have hbegin : begin { m with todo := rest }
      (.observation (.observe name tag apply onChange)) =
      .ok ⟨{ m with todo := rest }.modifyWorld fun w => w.enterScope r,
        [.registrar r],
        Task.nested apply ++ [.leaveScope r ⟨tag, onChange⟩,
          .answer .nothing]⟩ := by
    simp only [begin, beginObservation, found, needed]
    rfl
  rw [step_of_todo_cons h]
  simp [doTask, perform, Command.action, Command.label, hbegin, push,
    modifyWorld]

section

variable {label : Json} {name tag : String} {apply onChange : List Command}
  {nested : Bool} {rest : List Task} {s : ℕ}

/-- The scope of an observer closes after all that its reading part leads to.
It has collected what was told to the registrar meanwhile. -/
theorem exists_scope
    (call : (run s m).todo = .perform (.mk label (.observation
      (.observe name tag apply onChange))) nested :: rest)
    (found : (run s m).world.registrar? name = some r) :
    ∃ i, m.Waits (.leaveScope r ⟨tag, onChange⟩)
        (.answer .nothing :: .finish label [.registrar r] nested :: rest) s i ∧
      (∀ p, p ∈ (run i m).world.scopes.collected ↔
        ∃ k, s < k ∧ k < i ∧ (run k m).Accesses r p) ∧
      ∀ k p, s < k → k < i → (run k m).Accesses r p →
        ∃ l, s < l ∧ l < k ∧
          ((∃ b, (run l m).ReadsBridge b ∧ (run l m).world.Binds b r p) ∨
            (run l m).ToldByOthers r p) := by
  have hstep := step_observe call found
  rw [← run_succ] at hstep
  have htodo := congrArg todo hstep
  obtain ⟨i, hsi, hturn, hahead⟩ := returns_run htodo
  have hwaits := waits_of_ahead hsi hturn hahead
  refine ⟨i, hwaits, fun p => ?_, fun k p hsk hki haccesses => ?_⟩
  · refine collected_of_call hsi ⟨(run s m).world.scopes, ?_⟩ htodo
      (countP_closesScope_nested apply) hahead hturn p
    rw [hstep]
    rfl
  · obtain ⟨below, haccesses⟩ := haccesses
    have hother : .access (.registrar r) p ∉ Task.nested apply := by
      simp [Task.nested]
    have hne : s + 1 ≠ k := by
      rintro rfl
      obtain ⟨ahead, hne, hnow⟩ := hahead (s + 1) (Nat.le_refl _) hki
      have hfront := List.append_cancel_right (htodo.symm.trans hnow)
      obtain ⟨x, ahead, rfl⟩ := List.exists_cons_of_ne_nil hne
      rw [haccesses] at hnow
      obtain ⟨rfl, -⟩ := List.cons.inj hnow
      exact hother (hfront ▸ List.mem_cons_self)
    have hlt : s + 1 < k := by omega
    obtain ⟨l, hsl, hlk, parent, behind, before, after, hparent, hfollows,
      hnext⟩ := exists_parent_of_above htodo hother hlt
        (fun l hl hlk => hahead l (by omega) (by omega)) haccesses
    rw [run_succ] at hnext
    exact ⟨l, hsl, hlk, reads_or_told hparent hfollows hnext⟩

end

/-! ## A read after a clearing -/

/-- A call of the getter of a key bridge which begins at one step, reads at
another and returns after a third.  If the key was not written since an
earlier step, the getter answers what is stored under it, as it was then. -/
structure GetsSince (m : Machine) (b : Ref .keyBridge) (c n k l : ℕ)
    (below : List Task) : Prop where
  lt : n < k
  le : k ≤ l
  above : m.Above below n l
  reads : (run k m).todo = .readKey b :: below
  returns : (run (l + 1) m).todo = below
  answers : (∀ i, c ≤ i → i < k → ¬ (run i m).WritesKeyOf b) →
    (run k m).stored b = (run c m).stored b ∧
      (run (l + 1) m).reply =
        ((run c m).world.keyBridges.get b).read ((run c m).stored b)

/-- A getter that is called after its bridge's cache was cleared, before what
waited behind the clearing, answers what is stored. -/
theorem gets_since (sound : m.Sound) {b : Ref .keyBridge} {c n : ℕ}
    {p name : String} {label : Json} {nested : Bool} {below front : List Task}
    (counts : (run c m).todo = .countMutation r p :: below)
    (has : (run c m).world.Has (.keyBridge b))
    (empty : ((run c m).world.cell (.bridge (.key b))).value = none)
    (le : c ≤ n) (above : m.Above below c n)
    (call : (run n m).todo =
      .perform (.mk label (.store (.getKey name))) nested :: (front ++ below))
    (found : (run n m).world.keyBridge? name = some b) :
    ∃ k l, m.GetsSince b c n k l
      (.finish label [.keyBridge b] nested :: (front ++ below)) := by
  obtain ⟨access, hstep⟩ := step_getKey call found
  rw [← run_succ] at hstep
  obtain ⟨k, hwaits⟩ := exists_waits (congrArg todo hstep)
  have hreads := hwaits.turn
  have hnk := hwaits.lt
  have habove : m.Above ((.finish label [.keyBridge b] nested :: front) ++
      below) n k := hwaits.above
  obtain ⟨l, hkl, habove', hreturns, hreply⟩ := read_ends sound hreads
  have hck : c ≤ k := by omega
  have hreading : m.Above ([] ++ (.finish label [.keyBridge b] nested ::
      (front ++ below))) k l := habove'
  refine ⟨k, l, hnk, hkl, Above.trans habove hreading, hreads, hreturns,
    fun hunwritten => ?_⟩
  have hstored := stored_run sound hck has hunwritten
  obtain ⟨-, -, hread⟩ := KeyBridge.eq_of_core_eq (keyBridge_core_run hck has)
  refine ⟨hstored, ?_⟩
  have hstart : (run c m).todo = [.countMutation r p] ++ below := counts
  have hnow : (run k m).reading b =
      ((run k m).world.keyBridges.get b).read ((run k m).stored b) := by
    refine reading_of_cleared sound hstart (List.cons_ne_nil _ _) (by simp) has
      (Nat.le_refl c) hck empty (above.trans habove) fun i _ hci hik _ => ?_
    rw [hstored]
    exact stored_run sound hci has fun l hcl hli =>
      hunwritten l hcl (Nat.lt_of_lt_of_le hli hik)
  rw [hreply, hnow, hstored, hread]

/-! ## Changes that are on their way -/

/-- The next task delivers a change to a bridge: it writes the key of the
bridge, announces a change of its entity where it listens, or is a command that
asks for its invalidation. -/
inductive Delivers (m : Machine) : Bridge → Prop
  | writes (b : Ref .keyBridge) (writes : m.WritesKeyOf b) :
      Delivers m (.key b)
  | announces (q : Ref .queryBridge) (change : ContextChange)
      (deliver : .deliver (m.world.audience
          (m.world.queryBridges.get q).subscription.source)
        (.change change) ∈ m.step.todo)
      (affects : change.affects (m.world.queryBridges.get q).entity) :
      Delivers m (.query q)
  | refresh (q : Ref .queryBridge) {label : Json} {name : String}
      {nested : Bool} {rest : List Task}
      (todo : m.todo =
        .perform (.mk label (.query (.refresh name))) nested :: rest)
      (found : m.world.queryBridge? name = some q) : Delivers m (.query q)
  | bindContext (q : Ref .queryBridge) {label : Json} {name context : String}
      {nested : Bool} {rest : List Task} {c : Ref .context}
      (todo : m.todo =
        .perform (.mk label (.query (.bindContext name context))) nested ::
          rest)
      (found : m.world.queryBridge? name = some q)
      (foundContext : m.world.context? context = some c) :
      Delivers m (.query q)

theorem asks_of_refresh {label : Json} {name : String} {nested : Bool}
    {rest : List Task} {q : Ref .queryBridge}
    (h : m.todo = .perform (.mk label (.query (.refresh name))) nested :: rest)
    (found : m.world.queryBridge? name = some q) : m.Asks q := by
  refine ⟨_, nested, rest, ⟨{ m with todo := rest }, [.queryBridge q],
    [.relay (.query q), .answer .nothing]⟩, h, ?_, rfl⟩
  simp only [Command.action, begin, beginQuery, found, needed]
  rfl

theorem asks_of_bindContext {label : Json} {name context : String}
    {nested : Bool} {rest : List Task} {q : Ref .queryBridge}
    {c : Ref .context}
    (h : m.todo =
      .perform (.mk label (.query (.bindContext name context))) nested :: rest)
    (found : m.world.queryBridge? name = some q)
    (foundContext : m.world.context? context = some c) : m.Asks q := by
  refine ⟨_, nested, rest,
    ⟨{ m with todo := rest }.modifyWorld fun w => w.bindContext q c,
      [.queryBridge q, .context c], [.relay (.query q), .answer .nothing]⟩,
    h, ?_, rfl⟩
  simp only [Command.action, begin, beginQuery, found, foundContext, needed]
  rfl

theorem owes_of_asks {q : Ref .queryBridge} (h : m.Asks q) :
    m.step.Owes (.query q) := by
  obtain ⟨c, nested, rest, begun, htodo, hbegin, htasks⟩ := h
  apply owes_of_relays (x := .relay (.query q)) _ rfl
  rw [step_of_begin htodo hbegin, todo_push, htasks]
  exact List.mem_cons_self

/-- What is delivered to an attached bridge is on its way to the bridge. -/
theorem owes_of_delivers (sound : m.Sound) {b : Bridge}
    (has : m.world.Has b.object) (attached : m.world.Attached b)
    (delivers : m.Delivers b) : m.step.Owes b := by
  cases delivers with
  | writes b writes => exact owes_of_write sound has attached writes
  | announces q change deliver affects =>
    refine ⟨_, deliver, World.mem_audience attached, ?_⟩
    rw [concerns_step has]
    exact affects
  | refresh q todo found => exact owes_of_asks (asks_of_refresh todo found)
  | bindContext q todo found foundContext =>
    exact owes_of_asks (asks_of_bindContext todo found foundContext)

/-- What is on its way to a bridge clears its cache, if a client has a handle
on the bridge until then. -/
theorem exists_invalidates_of_owes (sound : m.Sound) {b : Bridge} {n : ℕ}
    (obliges : ∀ k, n ≤ k → (run k m).ObligesFor b) (owes : (run n m).Owes b)
    (held : ∀ k, n ≤ k → (run k m).Owes b → (run k m).isHeld b.object) :
    ∃ c, n ≤ c ∧ (run c m).Invalidates b := by
  classical
  have hcalm : ∃ j, n ≤ j ∧ ¬ (run j m).Owes b := by
    obtain ⟨k, hk⟩ := halts (run n m)
    rw [← run_add] at hk
    refine ⟨k + n, Nat.le_add_left n k, ?_⟩
    rintro ⟨t, ht, -⟩
    rw [hk] at ht
    exact List.not_mem_nil ht
  have hhas : (run n m).world.Has b.object :=
    (sound.after n).has_of_isRooted
      (Bool.or_eq_true_iff.mpr (Or.inl (held n (Nat.le_refl n) owes)))
  obtain ⟨hnj, hj⟩ := Nat.find_spec hcalm
  obtain ⟨c, hnc, -, hcount⟩ := exists_cleared_of_owes hnj hhas owes hj
    (fun k hnk hkj => by
      by_contra hfree
      exact Nat.find_min hcalm hkj
        ⟨hnk, fun howes => hfree (held k hnk howes)⟩)
    fun k hnk _ => obliges k hnk
  refine ⟨c, hnc, ?_⟩
  by_contra hother
  have hsame := (sound.after c).invalidations_step (b := b)
    fun rest htodo => hother ⟨rest, htodo⟩
  rw [run_succ] at hcount
  omega

/-! ## Observers of bridges -/

/-- The cache of a bridge is about to be cleared that is bound to a registrar
under one of some properties. -/
def Changes (m : Machine) (r : Ref .registrar) (properties : PropertySet) :
    Prop :=
  ∃ b p, m.Invalidates b ∧ m.world.Binds b r p ∧ p ∈ properties

/-- A reaction is called after a clearing, in the same invalidation, which was
begun by an event that concerns the bridge or by a client's command.  If it
begins with a call of the getter of the bridge, the getter answers what is
stored under the key unless the key was written since the clearing. -/
structure HearsOf (m : Machine) (reaction : Reaction) (b : Bridge) (c j : ℕ) :
    Prop where
  lt : c < j
  within : ∃ a, m.Within b a c ∧ m.Within b a j ∧ ∃ k < a,
    (run k m).Hears b ∨ ∃ q, b = .query q ∧ (run k m).Asks q
  gets : ∀ d label name more, b = .key d →
    reaction.commands = .mk label (.store (.getKey name)) :: more →
    (run (j + 1) m).world.keyBridge? name = some d →
    ∃ k l rest,
      (run (j + 1) m).todo =
        .perform (.mk label (.store (.getKey name))) true :: rest ∧
      m.GetsSince d (c + 1) (j + 1) k l
        (.finish label [.keyBridge d] true :: rest)

/-- An observer whose scope was opened by one step and closed by another, where
it was registered, hears of every later change of what was read in between,
once. -/
structure Observes (m : Machine) (r : Ref .registrar) (s i : ℕ)
    (o : Observer Reaction) : Prop where
  /-- It waits for changes of what bridges or others told the registrar. -/
  reads : ∀ k b p, s < k → k < i → (run k m).ReadsBridge b →
    (run k m).world.Binds b r p → p ∈ o.properties
  told : ∀ p ∈ o.properties, ∃ k, s < k ∧ k < i ∧
    ((∃ b, (run k m).ReadsBridge b ∧ (run k m).world.Binds b r p) ∨
      (run k m).ToldByOthers r p)
  called : ∀ j, m.Reacts r i j →
    i < j ∧ ∃ below, (run j m).todo = .react o.onChange :: below
  once : ∀ j l, m.Reacts r i j → m.Reacts r i l → l = j
  /-- It reacts if and only if a cache is cleared that it waits for. -/
  reacts_iff : (∃ j, m.Reacts r i j) ↔
    ∃ c, i < c ∧ (run c m).Changes r o.properties
  /-- If nobody else told the registrar of reads, these are the caches of the
  bridges that were read, and of those with the same properties. -/
  direct : (∀ k p, s < k → k < i → ¬ (run k m).ToldByOthers r p) →
    ((∃ j, m.Reacts r i j) ↔
      ∃ c b k d p, i < c ∧ (run c m).Invalidates b ∧
        (run c m).world.Binds b r p ∧ s < k ∧ k < i ∧
        (run k m).ReadsBridge d ∧ (run k m).world.Binds d r p)
  /-- It reacts to the first such clearing. -/
  first : ∀ c b p, i < c → (run c m).Invalidates b →
    (run c m).world.Binds b r p → p ∈ o.properties →
    (∀ l, i < l → l < c → ¬ (run l m).Changes r o.properties) →
    ∃ j, m.Reacts r i j ∧ m.HearsOf o.onChange b c j

/-- An observer that was registered by a step misses nothing that is on its way
to a bridge with one of its properties, or is delivered to it, while a client
has a handle on the bridge. -/
structure Notices (m : Machine) (r : Ref .registrar) (i : ℕ)
    (properties : PropertySet) : Prop where
  owed : ∀ n b p, i ≤ n → (run n m).world.Binds b r p → p ∈ properties →
    (run n m).Owes b →
    (∀ k, n ≤ k → (run k m).Owes b → (run k m).isHeld b.object) →
    ∃ j, m.Reacts r i j
  delivered : ∀ n b p, i ≤ n → (run n m).world.Binds b r p →
    p ∈ properties → (run n m).Delivers b → (run n m).isHeld b.object →
    (∀ k, n < k → (run k m).Owes b → (run k m).isHeld b.object) →
    ∃ j, m.Reacts r i j

section

variable {commands : List Command} {e i : ℕ} {o : Observer Reaction}

/-- The scope of an observer closes next, and has collected its properties. -/
def Closes (m : Machine) (r : Ref .registrar) (o : Observer Reaction) : Prop :=
  (∃ rest, m.todo = .leaveScope r o.onChange :: rest) ∧
    o.properties = m.world.scopes.collected

/-- The step that closes the scope clears no cache. -/
theorem Closes.lt_of_invalidates (h : (run i m).Closes r o) {b : Bridge} {c : ℕ}
    (le : i ≤ c) (invalidates : (run c m).Invalidates b) : i < c := by
  refine Nat.lt_of_le_of_ne le ?_
  rintro rfl
  obtain ⟨rest, htodo⟩ := invalidates
  obtain ⟨⟨below, hleave⟩, -⟩ := h
  cases hleave.symm.trans htodo

/-- An observer that waits for something is registered when its scope
closes. -/
theorem Watched.registers (watched : (ofCommands commands).Watched r e)
    (le : e ≤ i) (closes : (run i (ofCommands commands)).Closes r o)
    {p : String} (mem : p ∈ o.properties) :
    (run i (ofCommands commands)).Registers r o := by
  have hmade : (run i (ofCommands commands)).world.Has (.registrar r) :=
    ((sound_ofCommands commands).after i).has_of_isAlive (watched.alive i le)
  exact ⟨hmade, closes.1, closes.2, List.ne_nil_of_mem mem⟩

/-- Who reacts is the observer whose scope was closed. -/
theorem Closes.registers_of_reacts (closes : (run i m).Closes r o) {j : ℕ}
    (reacts : m.Reacts r i j) :
    (run i m).Registers r o ∧ i < j ∧
      ∃ below, (run j m).todo = .react o.onChange :: below := by
  obtain ⟨o', hregisters, hij, below, hturn⟩ := reacts.exists_registers
  obtain ⟨hmade, ⟨rest, hleave⟩, hcollected, hne⟩ := hregisters
  obtain ⟨⟨rest', hleave'⟩, hcollected'⟩ := closes
  have hproperties := hcollected'.trans hcollected.symm
  have hhead := (List.cons.inj (hleave'.symm.trans hleave)).1
  have hreaction : o.onChange = o'.onChange := (Task.leaveScope.inj hhead).2
  rw [hreaction]
  exact ⟨⟨hmade, ⟨rest', hleave'⟩, hcollected', hproperties ▸ hne⟩, hij, below,
    hturn⟩

theorem Watched.reacts_iff (watched : (ofCommands commands).Watched r e)
    (le : e ≤ i) (closes : (run i (ofCommands commands)).Closes r o) :
    (∃ j, (ofCommands commands).Reacts r i j) ↔
      ∃ c, i < c ∧ (run c (ofCommands commands)).Changes r o.properties := by
  constructor
  · rintro ⟨j, hreacts⟩
    obtain ⟨hregisters, -⟩ := closes.registers_of_reacts hreacts
    obtain ⟨c, hic, p, hp, hcounts⟩ :=
      (exists_reacts_iff hregisters).mp ⟨j, hreacts⟩
    obtain ⟨c, b, hic, hinvalidates, hbinds⟩ :=
      (watched.exists_counts_iff le).mp ⟨c, hic, hcounts⟩
    exact ⟨c, closes.lt_of_invalidates hic hinvalidates, b, p, hinvalidates,
      (watched.bound c (Nat.le_trans le hic) b p).mpr hbinds, hp⟩
  · rintro ⟨c, hic, b, p, hinvalidates, hbinds, hp⟩
    obtain ⟨l, hil, hcounts⟩ := (watched.exists_counts_iff le).mpr
      ⟨c, b, Nat.le_of_lt hic, hinvalidates,
        (watched.bound c (by omega) b p).mp hbinds⟩
    exact (exists_reacts_iff (watched.registers le closes hp)).mpr
      ⟨l, hil, p, hp, hcounts⟩

/-- What is on its way to a bridge makes an observer react that waits for the
bridge. -/
theorem Watched.exists_reacts_of_owes
    (watched : (ofCommands commands).Watched r e)
    (presents : ∀ k, (run k (ofCommands commands)).presents) (le : e ≤ i)
    (closes : (run i (ofCommands commands)).Closes r o) {n : ℕ} {b : Bridge}
    {p : String} (hin : i ≤ n)
    (binds : (run n (ofCommands commands)).world.Binds b r p)
    (mem : p ∈ o.properties) (owes : (run n (ofCommands commands)).Owes b)
    (held : ∀ k, n ≤ k → (run k (ofCommands commands)).Owes b →
      (run k (ofCommands commands)).isHeld b.object) :
    ∃ j, (ofCommands commands).Reacts r i j := by
  have hbinds (k : ℕ) (hnk : n ≤ k) :
      (run k (ofCommands commands)).world.Binds b r p := by
    rw [watched.bound k (by omega), ← watched.bound n (by omega)]
    exact binds
  have hobliges (k : ℕ) (hnk : n ≤ k) :
      (run k (ofCommands commands)).ObligesFor b :=
    obligesFor_of_presents (watched.after (by omega)) (hbinds k hnk)
      (presents k)
  obtain ⟨c, hnc, hinvalidates⟩ := exists_invalidates_of_owes
    (sound_ofCommands commands) hobliges owes held
  have hic := closes.lt_of_invalidates (Nat.le_trans hin hnc) hinvalidates
  exact (watched.reacts_iff le closes).mpr
    ⟨c, hic, b, p, hinvalidates, hbinds c hnc, mem⟩

theorem todo_react {reaction : Reaction} {rest : List Task}
    (h : m.todo = .react reaction :: rest) :
    m.step.todo = Task.nested reaction.commands ++ rest := by
  rw [step_of_todo_cons h]
  rfl

/-- Up to the first clearing that it waits for, an observer waits. -/
theorem Watched.waits (watched : (ofCommands commands).Watched r e)
    (le : e ≤ i) (closes : (run i (ofCommands commands)).Closes r o)
    {c : ℕ} {p : String} (mem : p ∈ o.properties) (lt : i < c)
    (first : ∀ l, i < l → l < c →
      ¬ (run l (ofCommands commands)).Changes r o.properties) :
    (i, o) ∈ (ofCommands commands).observers r (c + 1) := by
  refine mem_observers_iff.mpr ⟨by omega, watched.registers le closes mem,
    fun l hil hlc q hq hcounts => ?_⟩
  obtain ⟨k, rfl⟩ := Nat.exists_eq_add_of_lt hil
  obtain ⟨b, hinvalidates, hbinds⟩ :=
    watched.invalidates_of_counts (by omega) hcounts
  have hlt := closes.lt_of_invalidates (Nat.le_add_right i k) hinvalidates
  exact first (i + k) hlt (by omega)
    ⟨b, q, hinvalidates, (watched.bound _ (by omega) b q).mpr hbinds, hq⟩

/-- The first clearing that an observer waits for is counted next, and then
the observer reacts. -/
theorem Watched.hearsOf (watched : (ofCommands commands).Watched r e)
    (le : e ≤ i) (closes : (run i (ofCommands commands)).Closes r o)
    {c : ℕ} {b : Bridge} {p : String} (lt : i < c)
    (invalidates : (run c (ofCommands commands)).Invalidates b)
    (binds : (run c (ofCommands commands)).world.Binds b r p)
    (mem : p ∈ o.properties)
    (first : ∀ l, i < l → l < c →
      ¬ (run l (ofCommands commands)).Changes r o.properties) :
    ∃ j, (ofCommands commands).Reacts r i j ∧
      (ofCommands commands).HearsOf o.onChange b c j := by
  have hsound := sound_ofCommands commands
  have hbinds := (watched.bound c (by omega) b p).mp binds
  obtain ⟨below, hcounts⟩ :=
    watched.counts_of_invalidates (by omega) hbinds invalidates
  obtain ⟨rest, htodo⟩ := invalidates
  have hrest : rest = .countMutation r p :: below := by
    rw [← hcounts, run_succ, todo_invalidate htodo]
  subst hrest
  obtain ⟨j, hreacts, hcj, habove, after, hturn⟩ :=
    exists_reacts (watched.waits le closes mem lt first) mem hcounts
  refine ⟨j, hreacts, by omega, ?_, ?_⟩
  · obtain ⟨a, hwithin⟩ := exists_within htodo rfl nofun
    have hlater := (hwithin.succ htodo hcounts nofun).trans hcounts
      (Nat.le_of_lt hcj) habove
    obtain ⟨_, _, _, hrelay, -⟩ := hwithin.2
    exact ⟨a, hwithin, hlater, exists_cause hrelay⟩
  · rintro d label name more rfl hcommands hfound
    have hcount := invalidations_of_invalidate htodo
    have hhas : (run c (ofCommands commands)).world.Has (.keyBridge d) :=
      (hsound.after c).has_of_head htodo List.mem_cons_self
    have hempty : ((run (c + 1) (ofCommands commands)).world.cell
        (.bridge (.key d))).value = none := by
      rw [run_succ]
      exact (hsound.after c).empty_of_invalidated hhas hcount
    have hnext := todo_react hturn
    rw [← run_succ, hcommands] at hnext
    have hcall : (run (j + 1) (ofCommands commands)).todo =
        .perform (.mk label (.store (.getKey name))) true ::
          ((Task.nested more ++ reactions after) ++ below) := by
      rw [hnext, List.append_assoc]
      rfl
    obtain ⟨k, l, hgets⟩ := gets_since hsound hcounts
      (has_run (Nat.le_add_right c 1) hhas) hempty (by omega)
      (habove.succ hcall) hcall hfound
    exact ⟨k, l, _, hcall, hgets⟩

/-- What is delivered to a bridge that a client has a handle on makes an
observer react that waits for the bridge. -/
theorem Watched.notices (watched : (ofCommands commands).Watched r e)
    (presents : ∀ k, (run k (ofCommands commands)).presents)
    (unique : ∀ k,
      (run k (ofCommands commands)).world.subscriptions ≤ 2 ^ 64)
    (le : e ≤ i) (closes : (run i (ofCommands commands)).Closes r o) :
    (ofCommands commands).Notices r i o.properties := by
  have hsound := sound_ofCommands commands
  refine ⟨fun n b p hin hbinds hp howes hheld =>
    watched.exists_reacts_of_owes presents le closes hin hbinds hp howes hheld,
    fun n b p hin hbinds hp hdelivers hheld hlater => ?_⟩
  have hhas : (run n (ofCommands commands)).world.Has b.object :=
    (hsound.after n).has_of_isRooted
      (Bool.or_eq_true_iff.mpr (Or.inl hheld))
  have hattached := (linked_run commands (unique n)).attached b hhas hheld
  have howes := owes_of_delivers (hsound.after n) hhas hattached hdelivers
  rw [← run_succ] at howes
  rw [watched.bound n (by omega), ← watched.bound (n + 1) (by omega)] at hbinds
  exact watched.exists_reacts_of_owes presents le closes (by omega) hbinds hp
    howes hlater

/-- Along every run of a client, an observer of bridges that are bound to a
living registrar reports the first later change of what it has read, once.  It
misses no change that is delivered to one of them, if presenters show what they
are to show.  The numbers of subscriptions are taken to be unique then. -/
theorem observes {s : ℕ} {label : Json} {name tag : String}
    {apply onChange : List Command} {nested : Bool} {rest : List Task}
    (watched : (ofCommands commands).Watched r e)
    (le : e ≤ s)
    (call : (run s (ofCommands commands)).todo =
      .perform (.mk label (.observation
        (.observe name tag apply onChange))) nested :: rest)
    (found : (run s (ofCommands commands)).world.registrar? name = some r) :
    ∃ i properties,
      (ofCommands commands).Waits (.leaveScope r ⟨tag, onChange⟩)
        (.answer .nothing :: .finish label [.registrar r] nested :: rest) s i ∧
      (ofCommands commands).Observes r s i
        ⟨properties, ⟨tag, onChange⟩⟩ ∧
      ((∀ k, (run k (ofCommands commands)).presents) →
        (∀ k, (run k (ofCommands commands)).world.subscriptions ≤ 2 ^ 64) →
        (ofCommands commands).Notices r i properties) := by
  obtain ⟨i, hwaits, hcollected, htold⟩ := exists_scope call found
  have hei : e ≤ i := Nat.le_trans le (Nat.le_of_lt hwaits.lt)
  have hcloses : (run i (ofCommands commands)).Closes r
      ⟨(run i (ofCommands commands)).world.scopes.collected,
        ⟨tag, onChange⟩⟩ := ⟨⟨_, hwaits.turn⟩, rfl⟩
  have hreads (k : ℕ) (b : Bridge) (p : String) (hsk : s < k) (hki : k < i)
      (h : (run k (ofCommands commands)).ReadsBridge b)
      (hbinds : (run k (ofCommands commands)).world.Binds b r p) :
      p ∈ (run i (ofCommands commands)).world.scopes.collected := by
    have haccesses := h.accesses (watched.alive k (by omega)) hbinds
    rw [← run_succ] at haccesses
    have hne : k + 1 ≠ i := by
      rintro rfl
      obtain ⟨below, haccesses⟩ := haccesses
      cases hwaits.turn.symm.trans haccesses
    exact (hcollected p).mpr ⟨k + 1, by omega, by omega, haccesses⟩
  have htold (p : String)
      (hp : p ∈ (run i (ofCommands commands)).world.scopes.collected) :
      ∃ k, s < k ∧ k < i ∧ ((∃ b, (run k (ofCommands commands)).ReadsBridge b ∧
          (run k (ofCommands commands)).world.Binds b r p) ∨
        (run k (ofCommands commands)).ToldByOthers r p) := by
    obtain ⟨l, hsl, hli, haccesses⟩ := (hcollected p).mp hp
    obtain ⟨k, hsk, hkl, h⟩ := htold l p hsl hli haccesses
    exact ⟨k, hsk, Nat.lt_trans hkl hli, h⟩
  have hreacts := watched.reacts_iff hei hcloses
  refine ⟨i, _, hwaits, ?_,
    fun presents unique => watched.notices presents unique hei hcloses⟩
  refine
    { reads := hreads
      told := htold
      called := fun j h => (hcloses.registers_of_reacts h).2
      once := fun j l h h' => h.unique h'
      reacts_iff := hreacts
      direct := fun hdirect => ?_
      first := fun c b p => watched.hearsOf hei hcloses }
  rw [hreacts]
  constructor
  · rintro ⟨c, hic, b, p, hinvalidates, hbinds, hp⟩
    obtain ⟨k, hsk, hki, ⟨d, hread, hbinds'⟩ | hothers⟩ := htold p hp
    · exact ⟨c, b, k, d, p, hic, hinvalidates, hbinds, hsk, hki, hread,
        hbinds'⟩
    · exact absurd hothers (hdirect k p hsk hki)
  · rintro ⟨c, b, k, d, p, hic, hinvalidates, hbinds, hsk, hki, hread,
      hbinds'⟩
    exact ⟨c, hic, b, p, hinvalidates, hbinds,
      hreads k d p hsk hki hread hbinds'⟩

/-- A client that binds a key bridge to a registrar and observes it.  The
observer reads the bridge again and clears the key when it is fired. -/
def observesKey : List Command :=
  [.mk .null (.store (.newStore "m" none [])),
    .mk .null (.observation (.newRegistrar "r")),
    .mk .null (.store (.newKeyBridge "b" "k" .bool false (some "m")
      .direct none)),
    .mk .null (.store (.observeKey "b" "r" "p")),
    .mk .null (.observation (.observe "r" "o"
      [.mk .null (.store (.getKey "b"))]
      [.mk .null (.store (.getKey "b")),
        .mk .null (.store (.writeStore "m" "k" none))])),
    .mk .null (.store (.writeStore "m" "k" (some (.bool true))))]

/-- Here the observer causes the next change of what it has observed while the
first one is still on its way. -/
theorem observes_reentrant_write :
    ∃ i properties,
      (ofCommands observesKey).Waits (.leaveScope ⟨0⟩ ⟨"o",
          [.mk .null (.store (.getKey "b")),
            .mk .null (.store (.writeStore "m" "k" none))]⟩)
        [.answer .nothing, .finish .null [.registrar ⟨0⟩] false,
          .perform (.mk .null (.store (.writeStore "m" "k"
            (some (.bool true))))) false] 12 i ∧
      (ofCommands observesKey).Observes ⟨0⟩ 12 i ⟨properties, "o",
        [.mk .null (.store (.getKey "b")),
          .mk .null (.store (.writeStore "m" "k" none))]⟩ ∧
      (ofCommands observesKey).Notices ⟨0⟩ i properties := by
  have hwatched : (ofCommands observesKey).Watched ⟨0⟩ 12 :=
    watched_of_halted (n := 60) (by decide +kernel) (by decide +kernel)
      (by decide +kernel)
  have hfound : (run 12 (ofCommands observesKey)).world.registrar? "r" =
      some ⟨0⟩ := by decide +kernel
  obtain ⟨i, properties, hwaits, hobserves, hnotices⟩ :=
    observes hwatched (Nat.le_refl 12) rfl hfound
  refine ⟨i, properties, hwaits, hobserves, hnotices ?_ ?_⟩
  · exact forall_run_of_halted (P := fun m => m.presents) 72
      (by decide +kernel) (by decide +kernel)
  · exact forall_run_of_halted (P := fun m => m.world.subscriptions ≤ 2 ^ 64)
      72 (by decide +kernel) (by decide +kernel)

end

end Machine
end LiveProperty
