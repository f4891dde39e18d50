import LiveProperty.Proofs.Machine.Abreast

/-!
# Isolation of a bridge from what does not concern it

Two runs have the same commands but for some that do not concern a bridge, and
nothing that is called back does anything.  Then the bridge is the same in both
whenever a common command begins and whenever something is done for it, and it
does and answers the same.  A query bridge has to be given the same by others:
the origins of the changes that concern it are alive in both runs or in
neither, and the contexts that it asks fail in both or in neither.
-/

namespace LiveProperty

/-- A call that a bridge makes: on the owner of its property before a read and
for a change, and on a presenter. -/
inductive OutwardCall where
  | willAccess (binding : Binding)
  | didMutate (binding : Binding)
  | present (p : Ref .presenter) (scope : PresentationScope)
  deriving DecidableEq

/-- What it is that a bridge makes a call: the owner of its property is told
next, or a presenter has begun to show a change. -/
def OutwardCall.Made (b : Bridge) (m : Machine) : OutwardCall → Prop
  | .willAccess binding => .access binding.owner binding.property ∈ m.todo
  | .didMutate binding =>
    .mutate binding.owner binding.property (.bridge b) ∈ m.todo
  | .present p scope =>
    ∃ label journal, m.world.journal = .opened p label scope :: journal

/-- What is seen of a bridge when a task is done: its state, the calls that it
makes, and what it answers. -/
structure Glimpse where
  task : Task
  record : KeyBridge ⊕ QueryBridge
  calls : List OutwardCall
  answer : Option Reply

/-- Whether a command reads the property of a bridge. -/
def World.reads (w : World) (b : Bridge) : Action → Bool
  | .store (.getKey name) => (w.keyBridge? name).any fun r => .key r = b
  | .query (.results name) => (w.queryBridge? name).any fun q => .query q = b
  | _ => false

namespace Machine

variable {m m' : Machine} {b : Bridge} {foreign : Command → Bool}

/-- The calls that a bridge makes when a task is done. -/
def outwardCalls (m : Machine) (b : Bridge) : Task → List OutwardCall
  | .perform c _ =>
    if m.world.reads b c.action then (m.liveBinding? b).toList.map .willAccess
    else []
  | .enclose (.scoped scope) p (.mutation _ d) =>
    if d = b then
      (p.or m.world.installedPresenter).toList.map (.present · scope)
    else []
  | .run (.mutation (some binding) d) =>
    if d = b then [.didMutate binding] else []
  | _ => []

/-- What is seen of a bridge when a task is done, if that begins a common
command or is done for the bridge. -/
def seen? (m : Machine) (b : Bridge) (foreign : Command → Bool) :
    Task → Option Glimpse
  | .perform c nested =>
    if !nested && foreign c then none
    else
      let t := Task.perform c nested
      some ⟨t, m.world.record b, m.outwardCalls b t, none⟩
  | t =>
    if t.serves? = some b then
      let answer := ({ m with reply := .nothing }.doTask t).reply
      some ⟨t, m.world.record b, m.outwardCalls b t, some answer⟩
    else none

/-- What is seen of a bridge when the next task is done. -/
def glimpse? (m : Machine) (b : Bridge) (foreign : Command → Bool) :
    Option Glimpse :=
  match m.todo with
  | [] => none
  | t :: below => { m with todo := below }.seen? b foreign t

/-- All that is seen of a bridge along a run. -/
def glimpses (b : Bridge) (foreign : Command → Bool) :
    ℕ → Machine → List Glimpse
  | 0, _ => []
  | n + 1, m => (m.glimpse? b foreign).toList ++ glimpses b foreign n m.step

/-! ## What is seen in a step -/

/-- A read tells the owner of the property first. -/
theorem begin_of_reads {a : Action} (h : m.world.reads b a) :
    ∃ held t, m.begin a = .ok ⟨m, held, m.accessTasks b ++ [t]⟩ := by
  unfold World.reads at h
  split at h
  · next name =>
    obtain ⟨r, hfound, hr⟩ := (Option.any_eq_true _ _).mp h
    obtain rfl := of_decide_eq_true hr
    refine ⟨[.keyBridge r], .readKey r, ?_⟩
    simp [begin, beginStore, hfound, needed, bind, Except.bind]
  · next name =>
    obtain ⟨q, hfound, hq⟩ := (Option.any_eq_true _ _).mp h
    obtain rfl := of_decide_eq_true hq
    refine ⟨[.queryBridge q], .readQuery q, ?_⟩
    simp [begin, beginQuery, hfound, needed, bind, Except.bind]
  · cases h

/-- The calls that are seen are made. -/
theorem made_of_mem_outwardCalls {t : Task} {call : OutwardCall}
    (h : call ∈ m.outwardCalls b t) : call.Made b (m.doTask t) := by
  unfold outwardCalls at h
  split at h
  · next c nested =>
    split at h
    · next hreads =>
      obtain ⟨binding, hbinding, rfl⟩ := List.mem_map.mp h
      obtain ⟨held, t, hbegin⟩ := begin_of_reads hreads
      have hlive : m.liveBinding? b = some binding :=
        Option.mem_toList.mp hbinding
      simp [OutwardCall.Made, doTask, perform_of_begin hbegin, accessTasks,
        hlive]
    · cases h
  · next scope p binding d =>
    split at h
    · obtain ⟨shown, hshown, rfl⟩ := List.mem_map.mp h
      have hp : p.or m.world.installedPresenter = some shown :=
        Option.mem_toList.mp hshown
      simp only [doTask, enclose, hp]
      exact ⟨_, _, rfl⟩
    · cases h
  · next binding d =>
    split at h
    · next hd =>
      obtain rfl := List.mem_singleton.mp h
      subst hd
      exact List.mem_cons_self
    · cases h
  · cases h

theorem seen_of_passes {t : Task} (passes : m.Passes b foreign t) :
    m.seen? b foreign t = none := by
  rcases passes with inert | hforeign
  · have hserves := inert.serves_ne
    cases t with
    | perform c nested => exact inert.elim
    | _ => simp only [seen?, if_neg hserves]
  · cases t with
    | perform c nested =>
      cases nested with
      | true => cases hforeign
      | false => exact if_pos hforeign
    | _ => cases hforeign

theorem glimpse_of_passes {t : Task} {below : List Task}
    (htodo : m.todo = t :: below) (passes : m.Passes b foreign t) :
    m.glimpse? b foreign = none := by
  rw [glimpse?, htodo]
  exact seen_of_passes passes

/-- Level machines make the same calls. -/
theorem outwardCalls_of_level (h : m.Level b m') (t : Task) :
    m'.outwardCalls b t = m.outwardCalls b t := by
  have hlive := h.liveBinding
  obtain ⟨v, todo, r, rfl⟩ := h.exists_vary
  have hreads (a : Action) : (m.world.vary v).reads b a =
    m.world.reads b a := rfl
  have hinstalled : (m.world.vary v).installedPresenter =
    m.world.installedPresenter := rfl
  unfold outwardCalls
  simp only [hreads, hinstalled, hlive]

/-- The same is seen of the bridge when the same is done for it. -/
theorem Meet.seen {t t' : Task} (h : Meet b foreign m m' t t') :
    m'.seen? b foreign t' = m.seen? b foreign t := by
  rcases Task.eq_or_askHistory h.plain with rfl | ⟨r, stored, stored', rfl, rfl⟩
  · have hrecord := h.level.world.record
    have hcalls := outwardCalls_of_level h.level t'
    have hblank : Level b { m with reply := .nothing }
      { m' with reply := .nothing } := ⟨h.level.world, h.level.held,
        h.level.kept⟩
    have hanswer (serves : t'.serves? = some b) :=
      reply_doTask hblank rfl serves
    cases t' with
    | perform c nested => simp only [seen?, hrecord, hcalls]
    | _ =>
      simp only [seen?, hrecord, hcalls]
      split
      · next serves => rw [hanswer serves]
      · rfl
  · rfl

/-! ## What is seen in a run -/

theorem glimpses_of_halted (halted : m.todo = []) (n : ℕ) :
    glimpses b foreign n m = [] := by
  induction n with
  | zero => rfl
  | succ n ih =>
    rw [glimpses, step_of_todo_nil halted, ih, glimpse?, halted]
    rfl

theorem glimpses_of_passes {t : Task} {below : List Task}
    (htodo : m.todo = t :: below) (passes : m.Passes b foreign t) (n : ℕ) :
    glimpses b foreign (n + 1) m = glimpses b foreign n m.step := by
  rw [glimpses, glimpse_of_passes htodo passes]
  rfl

/-- The same is seen of a bridge in runs that are abreast. -/
theorem Abreast.glimpses_eq {n n' : ℕ} (h : m.Abreast b foreign m')
    (hm : m.Sparing b foreign n) (hm' : m'.Sparing b foreign n')
    (given : ∀ q, b = .query q → GivesAlike q n n' m m') :
    glimpses b foreign n' m' = glimpses b foreign n m ∧
      (run n' m').world.record b = (run n m).world.record b := by
  -- Every step of either run takes one from what is left of both.
  induction hk : n + n' using Nat.strong_induction_on
    generalizing m m' n n' with
  | h k ih =>
    subst hk
    cases h.lead with
    | done htodo htodo' =>
      have hm : run n m = m :=
        run_of_halted (i := 0) (List.isEmpty_iff.mpr htodo) (Nat.zero_le n)
      have hm' : run n' m' = m' :=
        run_of_halted (i := 0) (List.isEmpty_iff.mpr htodo') (Nat.zero_le n')
      rw [glimpses_of_halted htodo, glimpses_of_halted htodo', hm, hm']
      exact ⟨rfl, h.world.record⟩
    | left htodo passes abreast =>
      obtain ⟨n, rfl⟩ := hm.exists_succ htodo
      rw [glimpses_of_passes htodo passes, run_succ_step n]
      refine ih (n + n') (by omega)
        (abreast.of_spares (hm.spares_step htodo passes)) hm.step hm'
        (fun q hq => ?_) rfl
      subst hq
      have hgiven := given q rfl
      rwa [GivesAlike, givens_of_passes htodo passes] at hgiven
    | right htodo' passes' abreast =>
      obtain ⟨n', rfl⟩ := hm'.exists_succ htodo'
      rw [glimpses_of_passes htodo' passes', run_succ_step n']
      refine ih (n + n') (by omega)
        (abreast.symm.of_spares (hm'.spares_step htodo' passes')).symm hm
        hm'.step (fun q hq => ?_) rfl
      subst hq
      have hgiven := given q rfl
      rwa [GivesAlike, givens_of_passes htodo' passes'] at hgiven
    | both htodo htodo' passes passes' abreast =>
      obtain ⟨n, rfl⟩ := hm.exists_succ htodo
      obtain ⟨n', rfl⟩ := hm'.exists_succ htodo'
      rw [glimpses_of_passes htodo passes, glimpses_of_passes htodo' passes',
        run_succ_step n, run_succ_step n']
      have hleft := abreast.of_spares (hm.spares_step htodo passes)
      refine ih (n + n') (by omega)
        (hleft.symm.of_spares (hm'.spares_step htodo' passes')).symm hm.step
        hm'.step (fun q hq => ?_) rfl
      subst hq
      have hgiven := given q rfl
      rwa [GivesAlike, givens_of_passes htodo passes,
        givens_of_passes htodo' passes'] at hgiven
    | meet htodo htodo' meet =>
      obtain ⟨n, rfl⟩ := hm.exists_succ htodo
      obtain ⟨n', rfl⟩ := hm'.exists_succ htodo'
      have hnext (q : Ref .queryBridge) (hq : b = .query q) :
          m'.nextGiven? q = m.nextGiven? q ∧
            GivesAlike q n n' m.step m'.step := by
        subst hq
        refine (given q rfl).step ?_
        rw [nextGiven_of_todo htodo, nextGiven_of_todo htodo',
          meet.given_isSome]
      have habreast : m.step.Abreast b foreign m'.step := by
        rw [step_of_todo_cons htodo, step_of_todo_cons htodo']
        refine meet.abreast hm.made fun q hq => ?_
        rw [← nextGiven_of_todo htodo, ← nextGiven_of_todo htodo']
        exact (hnext q hq).1
      obtain ⟨hglimpses, hrecord⟩ := ih (n + n') (by omega) habreast hm.step
        hm'.step (fun q hq => (hnext q hq).2) rfl
      have hseen : m'.glimpse? b foreign = m.glimpse? b foreign := by
        rw [glimpse?, glimpse?, htodo, htodo']
        exact meet.seen
      rw [glimpses, glimpses, hglimpses, hseen, run_succ_step, run_succ_step]
      exact ⟨rfl, hrecord⟩

section

/-- A client has made a context with a recipe, a name for a change of recipes
and one for a change of ingredients, and a bridge to each. -/
def kitchen (context : ContextAction) : Machine :=
  run 18 (ofCommands
    [.mk .null (.context context),
      .mk .null (.context (.insertRow "c" ⟨"Recipe", "Recipe"⟩ .null none)),
      .mk .null (.context (.newChange "recipes"
        (.inline (.saved [⟨.inserted, "Recipe"⟩] none)) (some "c"))),
      .mk .null (.context (.newChange "ingredients"
        (.inline (.saved [⟨.inserted, "Ingredient"⟩] none)) (some "c"))),
      .mk .null (.query (.newQueryBridge "b" ⟨"Recipe", "Recipe"⟩ [])),
      .mk .null (.query (.newQueryBridge "d" ⟨"Ingredient", "Ingredient"⟩ []))])

/-- The client announces a change that it has named. -/
def announceNamed (change : String) : Command :=
  .mk .null (.context (.announceChange none (.named change)))

/-- The client reads the property of a query bridge. -/
def readResults (bridge : String) : Command :=
  .mk .null (.query (.results bridge))

/-- Whether a command announces the change of ingredients. -/
def announcesIngredients : Command → Bool
  | .mk _ (.context (.announceChange _ (.named "ingredients"))) => true
  | _ => false

/-- A client goes on after a recipe. -/
def recipesOnly : List Command := [announceNamed "recipes", readResults "b"]

/-- A client goes on after a recipe among ingredients. -/
def recipesAmongIngredients : List Command :=
  [announceNamed "ingredients", announceNamed "recipes",
    announceNamed "ingredients", readResults "b"]

/-- A client goes on in two ways, which differ in nothing but commands that
spare a bridge, and something is not the same at their ends. -/
structure Parts {α : Type} (m : Machine) (b : Bridge) (foreign : Command → Bool)
    (xs ys : List Command) (n : ℕ) (seen : World → α) : Prop where
  branches : m.Branches b foreign xs ys
  halted : (run n (m.goOn xs)).todo = []
  halted' : (run n (m.goOn ys)).todo = []
  differs : seen (run n (m.goOn ys)).world ≠ seen (run n (m.goOn xs)).world

/-- What is to be seen up to the end of two runs shows that something is not the
same at their ends. -/
theorem parts_of_halted {α : Type} {xs ys : List Command} {seen : World → α}
    (n : ℕ)
    (same : (ys.filter fun c => !foreign c) = xs.filter fun c => !foreign c)
    (halted : (run n (m.goOn xs)).todo.isEmpty)
    (halted' : (run n (m.goOn ys)).todo.isEmpty)
    (spares : ∀ k ≤ n, (run k (m.goOn xs)).sparing b foreign)
    (spares' : ∀ k ≤ n, (run k (m.goOn ys)).sparing b foreign)
    (differs : seen (run n (m.goOn ys)).world ≠
      seen (run n (m.goOn xs)).world) :
    m.Parts b foreign xs ys n seen :=
  ⟨⟨same,
      forall_run_of_halted (P := fun m => m.sparing b foreign) n halted spares,
      forall_run_of_halted (P := fun m => m.sparing b foreign) n halted'
        spares'⟩,
    List.isEmpty_iff.mp halted, List.isEmpty_iff.mp halted', differs⟩

/-- A client drops the context before it announces the change of recipes. -/
def dropsFirst : List Command :=
  [.mk .null (.drop "c"), announceNamed "recipes", readResults "b"]

/-- A client reads the bridge to ingredients before it reads that to recipes. -/
def readsBoth : List Command :=
  [announceNamed "recipes", readResults "d", readResults "b"]

/-- A context that fails once. -/
def failsOnce : ContextAction :=
  .newSupervisedContext "c" none [] 1
    (.queryExecution "Recipe" "disk unavailable")

/-- A client has made a bridge over each of two stores, and a read of the second
store clears the key of the first. -/
def pantry : Machine :=
  run 12 (ofCommands
    [.mk .null (.store (.newStore "s" none [])),
      .mk .null (.store (.newStore "t" none
        [(1, [.mk .null (.store (.writeStore "s" "k" none))])])),
      .mk .null (.store (.newKeyBridge "b" "k" .bool false (some "s")
        .direct none)),
      .mk .null (.store (.newKeyBridge "d" "k" .bool false (some "t")
        .direct none))])

/-- The client reads the property of a key bridge. -/
def readKeyOf (bridge : String) : Command := .mk .null (.store (.getKey bridge))

/-- Whether a command reads the second key bridge. -/
def readsSecond : Command → Bool
  | .mk _ (.store (.getKey "d")) => true
  | _ => false

end

end Machine
end LiveProperty
