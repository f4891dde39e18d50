import LiveProperty.Proofs.Machine.Courses

/-!
# Applied changes

What concerns a living bridge begins an invalidation of it, which is over
before anything else is done.  If presenters show a change once and hooks make
it once, the invalidation opens its envelope once, tells the owner of the
property once, clears the cache once, and closes in the other order what was
opened.  Whatever callbacks do in between, other invalidations are whole ones
between two of its parts.
-/

namespace LiveProperty

/-- What surrounds something that is shown: what is told first, the callbacks
that are called before it, and what is done after it. -/
structure Surroundings where
  told : Option Happening
  before : List Task
  after : List Task

/-- What an envelope puts around what is shown in it: nothing, what the
presenter that is given does, or else the one that is installed now, or a
span. -/
def World.around (w : World) (envelope : Envelope)
    (presenter : Option (Ref .presenter)) : Surroundings :=
  match envelope with
  | .direct => ⟨none, [], []⟩
  | .scoped scope =>
    match presenter.or w.installedPresenter with
    | some p =>
      let shown := w.presenters.get p
      ⟨some (.opened p shown.label scope), [.fire shown.before],
        [.fire shown.after, .tell (.closed p shown.label)]⟩
    | none => ⟨some (.spanEntered scope), [], [.tell (.spanLeft scope)]⟩

/-- What a hook does after the change of a property. -/
def World.settling (w : World) (h : Ref .hook) (property : String) :
    List Task :=
  [.fire (w.hooks.get h).after,
    .tell (.mutated h (w.hooks.get h).label property)]

namespace Machine

variable {m : Machine} {b : Bridge} {commands : List Command}

/-- Whether the next task, if it is to ask a hook to make the change of a
bridge or a presenter to show it, has it made or shown exactly once. -/
def once (m : Machine) : Bool :=
  match m.todo with
  | .mutate (.hook h) _ (.bridge _) :: _ =>
    (m.world.hooks.get h).forward.isSome || (m.world.hooks.get h).calls = 1
  | .enclose (.scoped _) p (.mutation _ _) :: _ =>
    (p.or m.world.installedPresenter).all fun shown =>
      (m.world.presenters.get shown).calls = 1
  | _ => true

/-- What surrounds the change that an invalidation of a bridge shows now. -/
def surroundings (m : Machine) (b : Bridge) : Surroundings :=
  m.world.around (m.world.relayOf b).envelope (m.world.relayOf b).presenter

/-- What keeps a bridge and the owner of its property alive during an
invalidation that begins now. -/
def keeping (m : Machine) (b : Bridge) : Task :=
  .keep (b.object ::
    ((m.liveBinding? b).map fun x => x.owner.object).toList)

/-- What an invalidation that begins at a step does after its change. -/
def closing (m : Machine) (b : Bridge) (a : ℕ) : List Task :=
  ((run (a + 1) m).surroundings b).after ++ [(run a m).keeping b]

/-- With the next step a bridge begins an invalidation, before anything else
that is left to do: it hears of what concerns it, or a client refreshes it or
gives it a context. -/
inductive Causes (m : Machine) : Bridge → List Task → Prop
  | delivery {b : Bridge} {audience : List Listener} {event : Event}
      {rest : List Task}
      (turn : m.todo = .deliver (b.listener :: audience) event :: rest)
      (concerns : m.world.concerns b event)
      (alive : m.isRooted b.object) :
      Causes m b (.deliver audience event :: rest)
  | refresh {q : Ref .queryBridge} {name : String} {label : Json}
      {nested : Bool} {rest : List Task}
      (turn : m.todo =
        .perform (.mk label (.query (.refresh name))) nested :: rest)
      (found : m.world.queryBridge? name = some q) :
      Causes m (.query q)
        (.answer .nothing :: .finish label [.queryBridge q] nested :: rest)
  | bindContext {q : Ref .queryBridge} {c : Ref .context}
      {name context : String} {label : Json} {nested : Bool}
      {rest : List Task}
      (turn : m.todo =
        .perform (.mk label (.query (.bindContext name context))) nested ::
          rest)
      (found : m.world.queryBridge? name = some q)
      (foundContext : m.world.context? context = some c) :
      Causes m (.query q)
        (.answer .nothing ::
          .finish label [.queryBridge q, .context c] nested :: rest)

/-- A change that is shown at step `i` is made: the steps at which its owner
is told of it, the step at which the cache is cleared, and what is done after
that and before `closing`. -/
inductive Makes (m : Machine) (b : Bridge) (closing : List Task) (i : ℕ) :
    Option Binding → List ℕ → ℕ → List Task → Prop
  /-- Nobody is told if the bridge is not bound to a living owner. -/
  | unbound
      (clears : (run (i + 1) m).todo = .invalidate (.bridge b) :: closing) :
      Makes m b closing i none [] (i + 1) []
  | registrar {r : Ref .registrar} {p : String}
      (told : (run (i + 1) m).todo =
        .mutate (.registrar r) p (.bridge b) :: closing)
      (clears : (run (i + 2) m).todo =
        .invalidate (.bridge b) :: .countMutation r p :: closing) :
      Makes m b closing i (some ⟨.registrar r, p⟩) [i + 1] (i + 2)
        [.countMutation r p]
  | hook {h : Ref .hook} {p : String} {c : ℕ}
      (told : (run (i + 1) m).todo =
        .mutate (.hook h) p (.bridge b) :: closing)
      (begins : (run (i + 2) m).world.journal =
        .mutating h ((run (i + 1) m).world.hooks.get h).label p ::
          (run (i + 1) m).world.journal)
      (clears : m.Waits (.invalidate (.bridge b))
        ((run (i + 1) m).world.settling h p ++ closing) (i + 1) c) :
      Makes m b closing i (some ⟨.hook h, p⟩) [i + 1] c
        ((run (i + 1) m).world.settling h p)
  /-- A hook that forwards changes has a registrar make them. -/
  | forwards {h : Ref .hook} {p : String} {r : Ref .registrar} {j : ℕ}
      (told : (run (i + 1) m).todo =
        .mutate (.hook h) p (.bridge b) :: closing)
      (begins : (run (i + 2) m).world.journal =
        .mutating h ((run (i + 1) m).world.hooks.get h).label p ::
          (run (i + 1) m).world.journal)
      (forward : ((run (i + 1) m).world.hooks.get h).forward = some r)
      (forwards : m.Waits (.mutate (.registrar r) p (.bridge b))
        ((run (i + 1) m).world.settling h p ++ closing) (i + 1) j)
      (clears : (run (j + 1) m).todo = .invalidate (.bridge b) ::
        .countMutation r p :: ((run (i + 1) m).world.settling h p ++ closing)) :
      Makes m b closing i (some ⟨.hook h, p⟩) [i + 1, j] (j + 1)
        (.countMutation r p :: (run (i + 1) m).world.settling h p)

/-- The steps of an invalidation. -/
structure Course where
  /-- The invalidation begins. -/
  start : ℕ
  /-- The change is shown, within what surrounds it. -/
  shown : ℕ
  /-- The owner of the property is told of the change. -/
  told : List ℕ
  /-- The cache is cleared. -/
  cleared : ℕ
  /-- Everything is done. -/
  done : ℕ
  /-- What is left to do for the owner when the cache is cleared. -/
  settling : List Task

/-- The steps at which the parts of an invalidation have their turns. -/
def Course.parts (c : Course) : List ℕ :=
  (c.start + 1) :: c.shown :: (c.told ++ [c.cleared])

/-- An invalidation takes its course before `below` has its turn again. -/
structure Applies (m : Machine) (b : Bridge) (below : List Task) (c : Course) :
    Prop where
  begins : (run c.start m).todo = .relay b :: below
  /-- The envelope of the bridge is opened, for a change that its owner is told
  of if it is alive when the invalidation begins. -/
  opens : (run (c.start + 1) m).todo =
    .enclose ((run c.start m).world.relayOf b).envelope
      ((run c.start m).world.relayOf b).presenter
      (.mutation ((run c.start m).liveBinding? b) b) ::
      (run c.start m).keeping b :: below
  opened : (run (c.start + 2) m).world.journal =
    ((run (c.start + 1) m).surroundings b).told.toList ++
      (run (c.start + 1) m).world.journal
  /-- Within it, the change is shown once, -/
  shows : m.Waits (.run (.mutation ((run c.start m).liveBinding? b) b))
    (m.closing b c.start ++ below) (c.start + 1) c.shown
  /-- and made once, -/
  changes : m.Makes b (m.closing b c.start ++ below) c.shown
    ((run c.start m).liveBinding? b) c.told c.cleared c.settling
  /-- with which the cache is cleared. -/
  clears : (run (c.cleared + 1) m).world =
    (run c.cleared m).world.invalidateBridge b
  /-- Then what is left to do for the owner and for the envelope has its
  turn, in this order. -/
  closes : ∀ before t after,
    c.settling ++ m.closing b c.start = before ++ t :: after →
      ∃ k, m.Waits t (after ++ below) c.cleared k ∧ k < c.done
  /-- All of this is over before `below` has its turn. -/
  returns : ∃ n, c.done = c.start + 1 + n ∧ (run (c.start + 1) m).Ends below n
  /-- The parts have their turns one after another. -/
  ordered : (c.start :: c.parts ++ [c.done]).Pairwise (· < ·)
  /-- No other part of an invalidation of the bridge has its turn meanwhile,
  but those of whole ones that begin later. -/
  only : ∀ k t rest, c.start < k → k < c.done →
    (run k m).todo = t :: rest → t.Relays b →
      k ∈ c.parts ∨ ∃ a, c.start < a ∧ m.Encloses b a k
  /-- Every invalidation that begins between two parts is over before the
  second one. -/
  nested : ∀ k d rest, c.start < k → k < c.done →
    (run k m).todo = .relay d :: rest →
      ∃ n, (run (k + 1) m).Ends rest n ∧
        ∀ j ∈ c.parts ++ [c.done], k < j → k + 1 + n ≤ j

/-! ## The parts one after another -/

theorem todo_enclose {envelope : Envelope} {p : Option (Ref .presenter)}
    {x : Option Binding} {rest : List Task} (once : m.once)
    (h : m.todo = .enclose envelope p (.mutation x b) :: rest) :
    m.step.todo = (m.world.around envelope p).before ++
        .run (.mutation x b) :: ((m.world.around envelope p).after ++ rest) ∧
      m.step.world.journal =
        (m.world.around envelope p).told.toList ++ m.world.journal := by
  rw [step_of_todo_cons h, doTask]
  rcases envelope with _ | scope
  · exact ⟨rfl, rfl⟩
  · simp only [enclose, World.around]
    cases hp : p.or m.world.installedPresenter with
    | none => exact ⟨rfl, rfl⟩
    | some shown =>
      have hcalls : (m.world.presenters.get shown).calls = 1 := by
        simpa [Machine.once, h, hp] using once
      dsimp only
      rw [hcalls]
      exact ⟨rfl, rfl⟩

theorem todo_mutate_hook {h : Ref .hook} {p : String} {rest : List Task}
    (once : m.once) (turn : m.todo = .mutate (.hook h) p (.bridge b) :: rest) :
    m.step.world.journal =
        .mutating h (m.world.hooks.get h).label p :: m.world.journal ∧
      ∃ part, m.step.todo = .fire (m.world.hooks.get h).before ::
          part :: (m.world.settling h p ++ rest) ∧
        (part = .invalidate (.bridge b) ∨
          ∃ r, (m.world.hooks.get h).forward = some r ∧
            part = .mutate (.registrar r) p (.bridge b)) := by
  rw [step_of_todo_cons turn, doTask, mutate]
  cases hforward : (m.world.hooks.get h).forward with
  | some r => exact ⟨rfl, _, rfl, Or.inr ⟨r, rfl, rfl⟩⟩
  | none =>
    have hcalls : (m.world.hooks.get h).calls = 1 := by
      simpa [Machine.once, turn, hforward] using once
    rw [hcalls]
    exact ⟨rfl, _, rfl, Or.inl rfl⟩

theorem path_of_invalidate {c : ℕ} {rest : List Task}
    (turn : (run c m).todo = .invalidate (.bridge b) :: rest) :
    m.Path b c [] := by
  refine .last (leadsNowhere turn ?_)
  rw [run_succ]
  exact todo_invalidate turn

/-- A registrar has the cache cleared next, and counts the change then. -/
theorem path_of_registrar {j : ℕ} {r : Ref .registrar} {p : String}
    {rest : List Task}
    (turn : (run j m).todo = .mutate (.registrar r) p (.bridge b) :: rest) :
    (run (j + 1) m).todo =
        .invalidate (.bridge b) :: ([.countMutation r p] ++ rest) ∧
      m.Path b j [j + 1] := by
  have hnext : (run (j + 1) m).todo =
      .invalidate (.bridge b) :: ([.countMutation r p] ++ rest) := by
    rw [run_succ]
    exact todo_mutate turn
  refine ⟨hnext, .next (leads_succ turn hnext rfl nofun fun t ht => ?_)
    (path_of_invalidate hnext)⟩
  rw [List.mem_singleton.mp ht]
  exact id

/-- A hook makes the change itself, or has a registrar make it. -/
theorem exists_changes_of_hook {h : Ref .hook} {p : String}
    {closing : List Task} {i : ℕ} (once : (run (i + 1) m).once)
    (turn : (run (i + 1) m).todo = .mutate (.hook h) p (.bridge b) :: closing) :
    ∃ own c settling,
      m.Makes b closing i (some ⟨.hook h, p⟩) ((i + 1) :: own) c settling ∧
      (run c m).todo = .invalidate (.bridge b) :: (settling ++ closing) ∧
      m.Path b (i + 1) (own ++ [c]) := by
  obtain ⟨hjournal, part, hnext, hpart⟩ := todo_mutate_hook once turn
  rw [← run_succ] at hjournal hnext
  have hnext : (run (i + 1 + 1) m).todo =
      [.fire ((run (i + 1) m).world.hooks.get h).before] ++ part ::
        ((run (i + 1) m).world.settling h p ++ closing) := hnext
  obtain ⟨j, hwaits⟩ := exists_waits hnext
  have hleads (relays : part.Relays b) (other : part ≠ .relay b) :
      m.Leads b (i + 1) j := by
    refine .intro turn hnext hwaits relays other fun t ht => ?_
    simp only [World.settling, List.singleton_append, List.mem_cons,
      List.not_mem_nil, or_false] at ht
    rcases ht with rfl | rfl | rfl <;> exact id
  rcases hpart with rfl | ⟨r, hforward, rfl⟩
  · exact ⟨[], j, _, .hook turn hjournal hwaits, hwaits.turn,
      .next (hleads rfl nofun) (path_of_invalidate hwaits.turn)⟩
  · obtain ⟨hclears, hpath⟩ := path_of_registrar hwaits.turn
    exact ⟨[j], j + 1, _,
      .forwards turn hjournal hforward hwaits hclears, hclears,
      .next (hleads rfl nofun) hpath⟩

/-- The change of a living owner's property, or of none. -/
theorem exists_changes {x : Option Binding} {closing : List Task} {i : ℕ}
    (once : (run (i + 1) m).once)
    (turn : (run i m).todo = .run (.mutation x b) :: closing) :
    ∃ told c settling, m.Makes b closing i x told c settling ∧
      (run c m).todo = .invalidate (.bridge b) :: (settling ++ closing) ∧
      m.Path b i (told ++ [c]) := by
  have hnone (t : Task) (ht : t ∈ []) : ¬ t.Relays b :=
    absurd ht List.not_mem_nil
  cases x with
  | none =>
    have hput : (run (i + 1) m).todo =
        .invalidate (.bridge b) :: ([] ++ closing) := by
      rw [run_succ, step_of_todo_cons turn]
      rfl
    exact ⟨[], i + 1, [], .unbound hput, hput,
      .next (leads_succ turn hput rfl nofun hnone) (path_of_invalidate hput)⟩
  | some binding =>
    obtain ⟨owner, p⟩ := binding
    have hput : (run (i + 1) m).todo =
        .mutate owner p (.bridge b) :: ([] ++ closing) := by
      rw [run_succ, step_of_todo_cons turn]
      rfl
    have hfirst : m.Leads b i (i + 1) := leads_succ turn hput rfl nofun hnone
    cases owner with
    | registrar r =>
      obtain ⟨hnext, hpath⟩ := path_of_registrar hput
      exact ⟨[i + 1], i + 2, _, .registrar hput hnext, hnext,
        .next hfirst hpath⟩
    | hook h =>
      obtain ⟨own, c, settling, hmakes, hclears, hpath⟩ :=
        exists_changes_of_hook once hput
      exact ⟨_, c, settling, hmakes, hclears, .next hfirst hpath⟩

theorem not_relays_around {w : World} {envelope : Envelope}
    {p : Option (Ref .presenter)} {t : Task}
    (ht : t ∈ (w.around envelope p).before ++ (w.around envelope p).after) :
    ¬ t.Relays b := by
  rcases envelope with _ | scope
  · exact absurd ht List.not_mem_nil
  · simp only [World.around] at ht
    cases hp : p.or w.installedPresenter with
    | none =>
      rw [hp] at ht
      rw [List.mem_singleton.mp ht]
      exact id
    | some shown =>
      simp only [hp, List.singleton_append, List.mem_cons, List.not_mem_nil,
        or_false] at ht
      rcases ht with rfl | rfl | rfl <;> exact id

/-- An invalidation opens the envelope of the bridge, which it leaves as it
is. -/
theorem opens_of_relay {a : ℕ} {below : List Task}
    (begins : (run a m).todo = .relay b :: below) :
    (run (a + 1) m).todo =
        .enclose ((run a m).world.relayOf b).envelope
          ((run a m).world.relayOf b).presenter
          (.mutation ((run a m).liveBinding? b) b) ::
          ([(run a m).keeping b] ++ below) ∧
      (run (a + 1) m).world.relayOf b = (run a m).world.relayOf b := by
  have hlive : ({ run a m with todo := below }).liveBinding? b =
      (run a m).liveBinding? b := by
    simp only [liveBinding?, isAlive_below begins rfl rfl]
  rw [run_succ, step_of_todo_cons begins, doTask]
  constructor
  · rw [relay, hlive, keeping]
    rfl
  · cases b <;> rfl

/-- An invalidation that begins between two parts of another one, or before
what keeps its objects alive has its turn, is over then. -/
theorem exists_ends_of_relay {d : Bridge} {below rest : List Task}
    {own : List ℕ} {kept : List Object} {a e k : ℕ} (path : m.Path b a own)
    (keeps : m.Waits (.keep kept) below a e) (lt : a < k) (le : k ≤ e)
    (turn : (run k m).todo = .relay d :: rest) :
    ∃ n, (run (k + 1) m).Ends rest n ∧
      ∀ j ∈ own ++ [e + 1], k < j → k + 1 + n ≤ j := by
  obtain ⟨first, kept', hput⟩ := todo_relay turn
  rw [← run_succ] at hput
  have hput : (run (k + 1) m).todo = [first, .keep kept'] ++ rest := hput
  obtain ⟨n, hends⟩ := exists_ends hput
  refine ⟨n, hends, fun j hj hkj => ?_⟩
  rcases List.mem_append.mp hj with hj | hj
  · exact path.ends_le hj lt hkj turn hends
  · rw [List.mem_singleton.mp hj]
    have hne : k ≠ e := by
      rintro rfl
      cases turn.symm.trans keeps.turn
    have hle := keeps.ends_le lt (by omega) turn nofun hends
    exact Nat.le_succ_of_le hle

/-- Every invalidation takes its course. -/
theorem exists_applies {a : ℕ} {below : List Task}
    (once : ∀ k, (run k (ofCommands commands)).once)
    (begins : (run a (ofCommands commands)).todo = .relay b :: below) :
    ∃ c, c.start = a ∧ (ofCommands commands).Applies b below c := by
  obtain ⟨hopens, hrelay⟩ := opens_of_relay begins
  obtain ⟨hshows, hopened⟩ := todo_enclose (once (a + 1)) hopens
  rw [← run_succ, ← hrelay, ← surroundings] at hshows hopened
  obtain ⟨i, hwaits⟩ := exists_waits hshows
  obtain ⟨told, c, settling, hchanges, hcleared, hpath⟩ :=
    exists_changes (once (i + 1)) hwaits.turn
  have hfull : (ofCommands commands).Path b a
      ((a + 1) :: i :: (told ++ [c])) := by
    refine .next (leads_succ begins hopens rfl (by simp) fun t ht => ?_)
      (.next (.intro hopens hshows hwaits rfl (by simp) fun t ht => ?_) hpath)
    · rw [List.mem_singleton.mp ht]
      exact id
    · exact not_relays_around ht
  have hkeeping : (run (a + 1) (ofCommands commands)).todo =
      [_] ++ (run a (ofCommands commands)).keeping b :: below := hopens
  obtain ⟨e, hkeeps⟩ := exists_waits hkeeping
  have hover : (run (e + 1) (ofCommands commands)).todo = below := by
    rw [run_succ, step_of_todo_cons hkeeps.turn]
    rfl
  obtain ⟨n, hn, hends⟩ := hkeeps.ends hover
  have hparts (j : ℕ) (hj : j ∈ (a + 1) :: i :: (told ++ [c])) : j < e + 1 := by
    rw [hn]
    exact hfull.lt_of_ends hj hends (Nat.le_refl a) (by omega)
      ⟨[_], by simp, begins⟩
  have hclosing : (ofCommands commands).closing b a ++ below =
      ((run (a + 1) (ofCommands commands)).surroundings b).after ++
        ([(run a (ofCommands commands)).keeping b] ++ below) :=
    List.append_assoc ..
  rw [← hclosing] at hwaits hchanges hcleared
  refine ⟨⟨a, i, told, c, e + 1, settling⟩, rfl, ?_⟩
  refine
    { begins := begins
      opens := hopens
      opened := hopened
      shows := hwaits
      changes := hchanges
      clears := ?_
      closes := fun before t after h => ?_
      returns := ⟨n, hn, hends⟩
      ordered := ?_
      only := fun k t rest hak hke turn relays =>
        mem_or_encloses begins hkeeps hfull hak (Nat.le_of_lt_succ hke) turn
          relays
      nested := fun k d rest hak hke turn =>
        exists_ends_of_relay hfull hkeeps hak (Nat.le_of_lt_succ hke) turn }
  · rw [run_succ, step_of_todo_cons hcleared]
    rfl
  · have hput : (run (c + 1) (ofCommands commands)).todo =
        before ++ t :: (after ++ below) := by
      rw [run_succ, todo_invalidate hcleared, ← List.append_assoc, h]
      simp
    exact exists_waits_lt hput (hparts c (by simp)) hover
  · rw [Course.parts, List.pairwise_append]
    refine ⟨hfull.pairwise, List.pairwise_singleton _ _, fun j hj l hl => ?_⟩
    rw [List.mem_singleton.mp hl]
    rcases List.mem_cons.mp hj with rfl | hj
    · exact Nat.lt_succ_of_lt hkeeps.lt
    · exact hparts j hj

/-! ## Where invalidations come from -/

/-- What concerns a living bridge begins an invalidation of it. -/
theorem Causes.todo_step {below : List Task} (h : m.Causes b below) :
    m.step.todo = .relay b :: below := by
  cases h with
  | delivery turn concerns alive =>
    rw [step_of_todo_cons turn, doTask]
    exact todo_call_of_concerns ((isRooted_delivering turn _).trans alive)
      concerns
  | refresh turn found =>
    exact todo_of_begin turn (needed_bind_eq_ok.mpr ⟨_, found, rfl⟩)
  | bindContext turn found foundContext =>
    exact todo_of_begin turn (needed_bind_eq_ok.mpr
      ⟨_, found, needed_bind_eq_ok.mpr ⟨_, foundContext, rfl⟩⟩)

/-- Nothing has its turn between the beginning of an invalidation and what
caused it. -/
theorem exists_cause_before {a : ℕ}
    {below : List Task}
    (begins : (run a (ofCommands commands)).todo = .relay b :: below) :
    ∃ d, a = d + 1 ∧ ((run d (ofCommands commands)).Hears b ∨
      ∃ q, b = .query q ∧ (run d (ofCommands commands)).Asks q) := by
  cases a with
  | zero =>
    have hmem : .relay b ∈ (ofCommands commands).todo := by
      rw [show (ofCommands commands).todo = _ from begins]
      exact List.mem_cons_self
    obtain ⟨c, -, hc⟩ := List.mem_map.mp hmem
    cases hc
  | succ d =>
    refine ⟨d, rfl, ?_⟩
    rw [run_succ] at begins
    cases htodo : (run d (ofCommands commands)).todo with
    | nil =>
      rw [step_of_todo_nil htodo, htodo] at begins
      cases begins
    | cons t rest =>
      obtain ⟨pushed, hpushed, hfollows⟩ := todo_step htodo
      cases pushed with
      | nil =>
        have hrest : .relay b :: below = rest := begins.symm.trans hpushed
        have hfirst := ((sheltered_run commands b d).first below
          (by rw [htodo, hrest]; exact List.suffix_cons t rest)).1
        have hlength := congrArg List.length (hfirst.trans htodo)
        simp only [← hrest, List.length_cons] at hlength
        omega
      | cons x pushed =>
        obtain ⟨rfl, -⟩ := List.cons.inj (hpushed.symm.trans begins)
        have hnext : (run d (ofCommands commands)).step.todo =
            [] ++ .relay b :: (pushed ++ rest) := hpushed
        exact hears_or_asks_of_follows htodo (hfollows _ List.mem_cons_self)
          hnext

/-- Along every run of a client, if presenters show changes once and hooks make
them once, what concerns a living bridge begins an invalidation, and so does a
client that refreshes a query bridge or gives it a context.  Every invalidation
begins so, also one within another one, and takes its course. -/
theorem applies_changes
    (once : ∀ k, (run k (ofCommands commands)).once) :
    (∀ d b below, (run d (ofCommands commands)).Causes b below →
      ∃ c, c.start = d + 1 ∧ (ofCommands commands).Applies b below c) ∧
    ∀ a b below, (run a (ofCommands commands)).todo = .relay b :: below →
      (∃ d, a = d + 1 ∧ ((run d (ofCommands commands)).Hears b ∨
        ∃ q, b = .query q ∧ (run d (ofCommands commands)).Asks q)) ∧
      ∃ c, c.start = a ∧ (ofCommands commands).Applies b below c := by
  refine ⟨fun d b below h => ?_, fun a b below begins => ?_⟩
  · refine exists_applies once ?_
    rw [run_succ]
    exact h.todo_step
  · exact ⟨exists_cause_before begins, exists_applies once begins⟩

/-- A client whose presenter writes the key of a bridge again before it shows
the first change, and whose hook drops the bridge when it is told of that. -/
def writesInPresenter : List Command :=
  [.mk .null (.store (.newStore "m" none [])),
    .mk .null (.observation (.newPresenter "p" [(1, [.mk .null
      (.store (.writeStore "m" "k" none))])] [] 1)),
    .mk .null (.observation (.newHook "h" []
      [(1, [.mk .null (.drop "b")])] [] 1 none)),
    .mk .null (.store (.newKeyBridge "b" "k" .bool false (some "m")
      (.scoped (.animation .standard)) (some "p"))),
    .mk .null (.store (.observeKey "b" "h" "q")),
    .mk .null (.store (.writeStore "m" "k" (some (.bool true))))]

/-- Here a second invalidation begins within the first one, after its envelope
is opened and before its change is shown. -/
theorem applies_changes_in_presenter :
    (∃ below c, c.start = 18 ∧
      (ofCommands writesInPresenter).Applies (.key ⟨0⟩) below c) ∧
    ∃ below c, c.start = 24 ∧
      (ofCommands writesInPresenter).Applies (.key ⟨0⟩) below c := by
  have honce : ∀ k, (run k (ofCommands writesInPresenter)).once :=
    forall_run_of_halted (P := fun m => m.once) 54 (by decide +kernel)
      (by decide +kernel)
  obtain ⟨hcauses, hrelays⟩ := applies_changes honce
  refine ⟨⟨_, hcauses 17 _ _ (.delivery (b := .key ⟨0⟩) rfl rfl ?_)⟩,
    ⟨_, (hrelays 24 _ _ rfl).2⟩⟩
  decide +kernel

end Machine
end LiveProperty
