import LiveProperty.Proofs.Machine.Accords

/-!
# Machines abreast

Two runs have the same commands but for some foreign ones, which spare a
bridge.  They are compared when both have done what comes before the next
common task: then both do the same, if a query bridge is given the same.
`Lead` says what can come next in machines that are abreast, and
`Abreast.of_spares` and `Meet.abreast` that they stay abreast.
-/

namespace LiveProperty

/-- Whether a task is the beginning of a command of the client that is not
among the given ones. -/
def Task.isForeign (foreign : Command → Bool) : Task → Bool
  | .perform c false => foreign c
  | _ => false

namespace Machine

variable {m m' : Machine} {b : Bridge} {foreign : Command → Bool}

/-- The machine of a client that gives more commands. -/
def goOn (m : Machine) (commands : List Command) : Machine :=
  { m with todo := m.todo ++ commands.map fun c => .perform c false }

/-- Whether the next task, if it begins a foreign command, spares a bridge. -/
def sparing (m : Machine) (b : Bridge) (foreign : Command → Bool) : Bool :=
  match m.todo with
  | .perform c false :: _ => !foreign c || m.world.spares b c.action
  | _ => true

/-! ## Two runs abreast -/

/-- The tasks that two runs have in common. -/
def common (foreign : Command → Bool) (tasks : List Task) : List Task :=
  (tasks.map Task.plain).filter fun t => !t.isForeign foreign

/-- Two machines whose worlds agree on a bridge, and which have the same to do
but for inert tasks that come first and for foreign commands. -/
structure Abreast (b : Bridge) (foreign : Command → Bool) (m m' : Machine) :
    Prop where
  world : m.world.Agrees b m'.world
  todo : ∃ front front' rest rest', m.todo = front ++ rest ∧
    m'.todo = front' ++ rest' ∧ (∀ t ∈ front, t.Inert m.world b) ∧
    (∀ t ∈ front', t.Inert m.world b) ∧
    common foreign rest' = common foreign rest

/-- Whether a task is none of the business of a bridge. -/
def Passes (m : Machine) (b : Bridge) (foreign : Command → Bool) (t : Task) :
    Prop :=
  t.Inert m.world b ∨ t.isForeign foreign

/-- Two machines do alike next what is the business of a bridge. -/
structure Meet (b : Bridge) (foreign : Command → Bool) (m m' : Machine)
    (t t' : Task) : Prop where
  level : m.Level b m'
  plain : t'.plain = t.plain
  busy : ¬ m.Passes b foreign t
  rest : common foreign m'.todo = common foreign m.todo

/-- What two machines that are abreast do next: nothing, what is none of the
business of the bridge in one of them or in both, or the same. -/
inductive Lead (b : Bridge) (foreign : Command → Bool) (m m' : Machine) : Prop
  | done (todo : m.todo = []) (todo' : m'.todo = [])
  | left {t : Task} {below : List Task} (todo : m.todo = t :: below)
      (passes : m.Passes b foreign t)
      (abreast : Abreast b foreign { m with todo := below } m')
  | right {t : Task} {below : List Task} (todo : m'.todo = t :: below)
      (passes : m'.Passes b foreign t)
      (abreast : Abreast b foreign m { m' with todo := below })
  | both {t t' : Task} {below below' : List Task} (todo : m.todo = t :: below)
      (todo' : m'.todo = t' :: below') (passes : m.Passes b foreign t)
      (passes' : m'.Passes b foreign t')
      (abreast : Abreast b foreign { m with todo := below }
        { m' with todo := below' })
  | meet {t t' : Task} {below below' : List Task} (todo : m.todo = t :: below)
      (todo' : m'.todo = t' :: below')
      (meet : Meet b foreign { m with todo := below }
        { m' with todo := below' } t t')

theorem isForeign_plain (foreign : Command → Bool) (t : Task) :
    t.plain.isForeign foreign = t.isForeign foreign := by
  cases t <;> rfl

theorem common_cons (foreign : Command → Bool) (t : Task) (tasks : List Task) :
    common foreign (t :: tasks) =
      if t.isForeign foreign then common foreign tasks
      else t.plain :: common foreign tasks := by
  cases h : t.isForeign foreign <;> simp [common, isForeign_plain, h]

theorem common_append (foreign : Command → Bool) (tasks more : List Task) :
    common foreign (tasks ++ more) =
      common foreign tasks ++ common foreign more := by
  simp [common]

theorem common_perform (commands : List Command) :
    common foreign (commands.map fun c => .perform c false) =
      (commands.filter fun c => !foreign c).map fun c => .perform c false := by
  simp [common, List.filter_map, Function.comp_def, Task.plain, Task.isForeign]

/-- The common tasks decide what is held and kept. -/
theorem any_common (foreign : Command → Bool) {p : Task → Bool}
    (plain : ∀ t, p t.plain = p t)
    (perform : ∀ c, p (.perform c false) = false) (tasks : List Task) :
    (common foreign tasks).any p = tasks.any p := by
  induction tasks with
  | nil => rfl
  | cons t tasks ih =>
    rw [common_cons]
    split
    · next hforeign =>
      have hp : p t = false := by
        cases t with
        | perform c nested =>
          cases nested with
          | false => exact perform c
          | true => cases hforeign
        | _ => cases hforeign
      rw [ih, List.any_cons, hp, Bool.false_or]
    · rw [List.any_cons, List.any_cons, ih, plain]

/-- When inert tasks are done, machines that are abreast hold and keep the
same. -/
theorem level_of_common (world : m.world.Agrees b m'.world)
    (h : common foreign m'.todo = common foreign m.todo) : m.Level b m' := by
  have hheld (o : Object) (t : Task) : t.plain.held.contains o =
      t.held.contains o := by
    cases t <;> rfl
  have hkept (o : Object) (t : Task) : t.plain.kept.contains o =
      t.kept.contains o := by
    cases t <;> rfl
  refine ⟨world, fun o => ?_, fun o => ?_⟩
  · rw [← any_common foreign (hheld o) (fun _ => rfl), h,
      any_common foreign (hheld o) fun _ => rfl]
  · rw [← any_common foreign (hkept o) (fun _ => rfl), h,
      any_common foreign (hkept o) fun _ => rfl]

theorem abreast_of_common (world : m.world.Agrees b m'.world)
    (h : common foreign m'.todo = common foreign m.todo) :
    m.Abreast b foreign m' :=
  ⟨world, [], [], m.todo, m'.todo, rfl, rfl, by simp, by simp, h⟩

theorem Abreast.symm (h : m.Abreast b foreign m') :
    m'.Abreast b foreign m := by
  obtain ⟨front, front', rest, rest', htodo, htodo', hfront, hfront', hrest⟩ :=
    h.todo
  exact ⟨h.world.symm, front', front, rest', rest, htodo', htodo,
    fun t ht => (hfront' t ht).congr h.world,
    fun t ht => (hfront t ht).congr h.world, hrest.symm⟩

/-- When the inert tasks are done, the foreign commands come next, and then the
same task. -/
theorem lead_of_common (world : m.world.Agrees b m'.world)
    (h : common foreign m'.todo = common foreign m.todo) :
    Lead b foreign m m' := by
  rcases htodo : m.todo with _ | ⟨t, below⟩ <;>
    rcases htodo' : m'.todo with _ | ⟨t', below'⟩
  · exact .done htodo htodo'
  · rw [htodo, htodo', common_cons] at h
    by_cases foreign' : t'.isForeign foreign
    · rw [if_pos foreign'] at h
      refine .right htodo' (.inr foreign') (abreast_of_common world ?_)
      simpa [htodo] using h
    · rw [if_neg foreign'] at h
      cases h
  · rw [htodo, htodo', common_cons] at h
    by_cases hforeign : t.isForeign foreign
    · rw [if_pos hforeign] at h
      refine .left htodo (.inr hforeign) (abreast_of_common world ?_)
      simpa [htodo'] using h
    · rw [if_neg hforeign] at h
      cases h
  · rw [htodo, htodo', common_cons foreign t] at h
    by_cases hforeign : t.isForeign foreign
    · rw [if_pos hforeign] at h
      refine .left htodo (.inr hforeign) (abreast_of_common world ?_)
      simpa [htodo'] using h
    rw [common_cons] at h
    by_cases hforeign' : t'.isForeign foreign
    · rw [if_pos hforeign', if_neg hforeign] at h
      refine .right htodo' (.inr hforeign') (abreast_of_common world ?_)
      simpa [htodo, common_cons, hforeign] using h
    rw [if_neg hforeign, if_neg hforeign', List.cons.injEq] at h
    obtain ⟨plain, hbelow⟩ := h
    by_cases inert : t.Inert m.world b
    · obtain rfl : t' = t := by
        rcases Task.eq_or_askHistory plain with h | ⟨r, stored, stored', rfl, -⟩
        · exact h
        · exact inert.elim
      exact .both htodo htodo' (.inl inert) (.inl (inert.congr world))
        (abreast_of_common world hbelow)
    · exact .meet htodo htodo' ⟨level_of_common world hbelow, plain,
        not_or.mpr ⟨inert, hforeign⟩, hbelow⟩

theorem Abreast.lead (h : m.Abreast b foreign m') : Lead b foreign m m' := by
  obtain ⟨front, front', rest, rest', htodo, htodo', hfront, hfront', hrest⟩ :=
    h.todo
  rcases front with _ | ⟨t, front⟩
  · rcases front' with _ | ⟨t', front'⟩
    · refine lead_of_common h.world ?_
      simpa [htodo, htodo'] using hrest
    · exact .right htodo'
        (.inl ((hfront' t' List.mem_cons_self).congr h.world))
        ⟨h.world, [], front', rest, rest', htodo, rfl, hfront,
          fun x hx => hfront' x (List.mem_cons_of_mem _ hx), hrest⟩
  · exact .left htodo (.inl (hfront t List.mem_cons_self))
      ⟨h.world, front, front', rest, rest', rfl, htodo',
        fun x hx => hfront x (List.mem_cons_of_mem _ hx), hfront', hrest⟩

/-! ## What a run has to satisfy -/

/-- What a run satisfies that is compared to another one, and how long it
is. -/
structure Sparing (m : Machine) (b : Bridge) (foreign : Command → Bool)
    (n : ℕ) : Prop where
  sound : m.Sound
  apart : m.world.Apart
  made : m.world.Has b.object
  silent : ∀ k, (run k m).silent
  spares : ∀ k, (run k m).sparing b foreign
  halted : (run n m).todo = []

theorem run_succ_step (n : ℕ) (m : Machine) : run (n + 1) m = run n m.step :=
  (run_add n 1 m).trans (congrArg (run n) (run_one m))

namespace Sparing

variable {n : ℕ}

theorem step (h : m.Sparing b foreign (n + 1)) :
    m.step.Sparing b foreign n := by
  obtain ⟨sound, apart, made, silent, spares, halted⟩ := h
  refine ⟨sound.step, apart_step sound apart, has_step made, fun k => ?_,
    fun k => ?_, ?_⟩
  · rw [← run_succ_step]
    exact silent (k + 1)
  · rw [← run_succ_step]
    exact spares (k + 1)
  · rwa [← run_succ_step]

/-- There is more to do, so the run is not over. -/
theorem exists_succ (h : m.Sparing b foreign n) {t : Task} {below : List Task}
    (htodo : m.todo = t :: below) : ∃ k, n = k + 1 := by
  cases n with
  | zero =>
    have hdone : m.todo = [] := h.halted
    rw [htodo] at hdone
    cases hdone
  | succ k => exact ⟨k, rfl⟩

theorem spares_step (h : m.Sparing b foreign n) {t : Task} {below : List Task}
    (htodo : m.todo = t :: below) (passes : m.Passes b foreign t) :
    Spares b { m with todo := below } m.step := by
  rw [step_of_todo_cons htodo]
  have hm : m = { m with todo := t :: below } := by rw [← htodo]
  rcases passes with inert | hforeign
  · refine spares_doTask inert ?_ h.apart
    have := h.silent 0
    rwa [run_zero, hm] at this
  · cases t with
    | perform c nested =>
      cases nested with
      | true => cases hforeign
      | false =>
        refine spares_perform ?_
        have hspares := h.spares 0
        rw [run_zero, sparing, htodo] at hspares
        have hforeign : foreign c = true := hforeign
        simpa [hforeign] using hspares
    | _ => cases hforeign

end Sparing

/-- What is none of the business of the bridge leads to inert tasks. -/
theorem Abreast.of_spares {x : Machine} (h : m.Abreast b foreign m')
    (spares : Spares b m x) : x.Abreast b foreign m' := by
  obtain ⟨front, front', rest, rest', htodo, htodo', hfront, hfront', hrest⟩ :=
    h.todo
  obtain ⟨world, pushed, hpushed, inert⟩ := spares
  refine ⟨world.symm.trans h.world, pushed ++ front, front', rest, rest',
    by rw [hpushed, htodo, List.append_assoc], htodo', fun t ht => ?_,
    fun t ht => (hfront' t ht).congr world, hrest⟩
  exact ((List.mem_append.mp ht).elim (inert t) (hfront t)).congr world

/-- Machines that do the same next stay abreast. -/
theorem Meet.abreast {t t' : Task} (h : Meet b foreign m m' t t')
    (made : m.world.Has b.object)
    (given : ∀ q, b = .query q → m'.given? q t' = m.given? q t) :
    Abreast b foreign (m.doTask t) (m'.doTask t') := by
  have busy : ¬ t.Inert m.world b := fun inert => h.busy (.inl inert)
  obtain ⟨world, pushed, pushed', htodo, htodo', front, front', rest, rest',
    rfl, rfl, hfront, hfront', hrest⟩ :=
      accords_doTask h.level made h.plain busy given
  refine ⟨world, front, front', rest ++ m.todo, rest' ++ m'.todo,
    by rw [htodo, List.append_assoc], by rw [htodo', List.append_assoc],
    hfront, hfront', ?_⟩
  have hcommon : common foreign rest' = common foreign rest :=
    congrArg (List.filter _) hrest
  rw [common_append, common_append, hcommon, h.rest]

/-! ## Clients that go on -/

theorem Sound.goOn (sound : m.Sound) (commands : List Command) :
    (m.goOn commands).Sound := by
  refine ⟨sound.world, fun t ht => ?_⟩
  rcases List.mem_append.mp ht with ht | ht
  · exact sound.todo t ht
  · obtain ⟨c, -, rfl⟩ := List.mem_map.mp ht
    exact ⟨by simp [Task.objects], by simp⟩

/-- A client goes on in two ways, which differ in nothing but foreign commands,
and these spare a bridge when they begin. -/
structure Branches (m : Machine) (b : Bridge) (foreign : Command → Bool)
    (xs ys : List Command) : Prop where
  same : (ys.filter fun c => !foreign c) = xs.filter fun c => !foreign c
  left : ∀ k, (run k (m.goOn xs)).sparing b foreign
  right : ∀ k, (run k (m.goOn ys)).sparing b foreign

theorem Branches.abreast {xs ys : List Command}
    (h : m.Branches b foreign xs ys) :
    (m.goOn xs).Abreast b foreign (m.goOn ys) := by
  refine abreast_of_common (World.Agrees.refl b m.world) ?_
  simp only [goOn, common_append, common_perform, h.same]

/-! ## What a query bridge is given -/

/-- What the next task is about to give to a query bridge. -/
def nextGiven? (m : Machine) (q : Ref .queryBridge) : Option Given :=
  match m.todo with
  | [] => none
  | t :: below => { m with todo := below }.given? q t

/-- All that a query bridge is given along a run. -/
def givens (q : Ref .queryBridge) : ℕ → Machine → List Given
  | 0, _ => []
  | n + 1, m => (m.nextGiven? q).toList ++ givens q n m.step

/-- What is given to a query bridge is not inert for it. -/
theorem given_of_passes {q : Ref .queryBridge} {t : Task}
    (passes : m.Passes (.query q) foreign t) : m.given? q t = none := by
  rcases passes with inert | hforeign
  · cases t with
    | deliver audience event =>
      rcases audience with _ | ⟨l, rest⟩
      · rfl
      · cases l with
        | queryBridge d =>
          cases event with
          | change c =>
            refine if_neg ?_
            rintro ⟨rfl, affects, -⟩
            have hconcerns := inert List.mem_cons_self
            exact absurd affects (Bool.eq_false_iff.mp hconcerns)
          | _ => rfl
        | _ => rfl
    | receive c records purpose =>
      cases purpose with
      | client => rfl
      | bridge d began =>
        refine if_neg ?_
        rintro rfl
        exact inert.serves_ne rfl
    | _ => rfl
  · cases t with
    | perform c nested => rfl
    | _ => cases hforeign

theorem nextGiven_of_todo {q : Ref .queryBridge} {t : Task} {below : List Task}
    (htodo : m.todo = t :: below) :
    m.nextGiven? q = { m with todo := below }.given? q t := by
  rw [nextGiven?, htodo]

/-- As far as two runs both give something to a query bridge, they give the
same. -/
def GivesAlike (q : Ref .queryBridge) (n n' : ℕ) (m m' : Machine) : Prop :=
  ∀ given ∈ (givens q n m).zip (givens q n' m'), given.2 = given.1

instance (q : Ref .queryBridge) (n n' : ℕ) (m m' : Machine) :
    Decidable (GivesAlike q n n' m m') :=
  inferInstanceAs (Decidable (∀ _ ∈ _, _))

theorem givens_of_passes {q : Ref .queryBridge} {t : Task} {below : List Task}
    (htodo : m.todo = t :: below) (passes : m.Passes (.query q) foreign t)
    (n : ℕ) : givens q (n + 1) m = givens q n m.step := by
  have hnone : m.nextGiven? q = none :=
    (nextGiven_of_todo htodo).trans (given_of_passes passes)
  rw [givens, hnone]
  rfl

theorem Meet.given_isSome {q : Ref .queryBridge} {t t' : Task}
    (h : Meet (.query q) foreign m m' t t') :
    (m'.given? q t').isSome = (m.given? q t).isSome := by
  rcases Task.eq_or_askHistory h.plain with rfl | ⟨r, stored, stored', rfl, rfl⟩
  · cases t' with
    | deliver audience event =>
      rcases audience with _ | ⟨l, rest⟩
      · rfl
      · cases l with
        | queryBridge d =>
          cases event with
          | change c =>
            have hrooted := h.level.isRooted (.queryBridge q)
            have haffects : c.affects (m'.world.queryBridges.get q).entity =
              c.affects (m.world.queryBridges.get q).entity :=
                h.level.world.concerns (.change c)
            simp only [given?, hrooted, haffects]
            split <;> rfl
          | _ => rfl
        | _ => rfl
    | receive c records purpose =>
      cases purpose with
      | client => rfl
      | bridge d began =>
        simp only [given?]
        split <;> rfl
    | _ => rfl
  · rfl

/-- What is given next is the same, and so is what is given then. -/
theorem GivesAlike.step {q : Ref .queryBridge} {n n' : ℕ}
    (h : GivesAlike q (n + 1) (n' + 1) m m')
    (same : (m'.nextGiven? q).isSome = (m.nextGiven? q).isSome) :
    m'.nextGiven? q = m.nextGiven? q ∧ GivesAlike q n n' m.step m'.step := by
  unfold GivesAlike at h
  rw [givens, givens] at h
  cases hx : m.nextGiven? q with
  | none =>
    cases hx' : m'.nextGiven? q with
    | none =>
      rw [hx, hx'] at h
      exact ⟨rfl, h⟩
    | some x' => simp [hx, hx'] at same
  | some x =>
    cases hx' : m'.nextGiven? q with
    | none => simp [hx, hx'] at same
    | some x' =>
      rw [hx, hx'] at h
      obtain ⟨hhead, htail⟩ := List.forall_mem_cons.mp h
      exact ⟨congrArg some hhead, htail⟩

end Machine
end LiveProperty
