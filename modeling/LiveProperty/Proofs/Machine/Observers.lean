import LiveProperty.Proofs.Machine.References
import LiveProperty.Proofs.Machine.Termination
import Mathlib.Data.Nat.Find

/-!
# Waiting observers

An observer has no name of its own, and several may be registered with the
same label and commands.  What tells one from another is the step at which it
was registered.  A registrar keeps its observers in the order of these steps,
so each observer that waits can be followed until it is fired, and no further
than that.
-/

namespace LiveProperty

/-- A registrar is the same as before, or it is new and empty. -/
def World.KeepsRegistrar (w w' : World) (r : Ref .registrar) : Prop :=
  r.index < w.registrars.next ∧ w'.registrars.get r = w.registrars.get r ∨
    ¬ r.index < w.registrars.next ∧ w'.registrars.get r = {}

section

variable {todo : List Task} {bound : ℕ} {loose : Object → Prop} {w w' : World}
  {r : Ref .registrar}

theorem Edit.keepsRegistrar (h : Edit todo bound loose w w')
    (has : r.index < w'.registrars.next) : w.KeepsRegistrar w' r := by
  cases h with
  | letGo o free known =>
    left
    rcases w.letGo_eq o with heq | ⟨s, -, heq⟩
    · rw [heq] at has ⊢
      exact ⟨has, rfl⟩
    · rw [heq] at has ⊢
      exact ⟨has, rfl⟩
  | newRegistrar name =>
    rcases Pool.eq_fresh_or_lt has with rfl | hlt
    · exact Or.inr ⟨Nat.lt_irrefl _, Pool.get_add_fresh _ _⟩
    · exact Or.inl ⟨hlt, Pool.get_add_of_lt _ hlt⟩
  | _ => exact Or.inl ⟨has, rfl⟩

theorem Edits.keepsRegistrar (h : Edits todo bound loose w w')
    (has : r.index < w'.registrars.next) : w.KeepsRegistrar w' r := by
  induction h with
  | refl => exact Or.inl ⟨has, rfl⟩
  | @tail w₁ w₂ hedits hedit ih =>
    rcases hedit.keepsRegistrar has with ⟨hhas, hsame⟩ | ⟨hnew, hempty⟩
    · rcases ih hhas with ⟨hold, hsame'⟩ | ⟨hnew, hempty⟩
      · exact Or.inl ⟨hold, hsame.trans hsame'⟩
      · exact Or.inr ⟨hnew, hsame.trans hempty⟩
    · refine Or.inr ⟨fun hold => hnew ?_, hempty⟩
      exact Edits.has (o := .registrar r) hedits hold

end

theorem World.registrars_adopt (w : World) (q : Ref .queryBridge)
    (c : Ref .context) : (w.adopt q c).registrars = w.registrars := by
  unfold World.adopt
  split <;> rfl

theorem World.registrars_leaveScope (w : World) (r : Ref .registrar)
    (reaction : Reaction) :
    (w.leaveScope r reaction).registrars = w.registrars.modify r
      fun x => x.await ⟨w.scopes.collected, reaction⟩ := by
  simp only [World.leaveScope]
  split <;> rfl

/-- Only a read of a property, a change of one and the end of a scope touch a
registrar. -/
theorem Effect.keepsRegistrar {m : Machine} {t : Task} {w : World}
    {r : Ref .registrar} (h : Effect m t w)
    (has : r.index < w.registrars.next)
    (access : ∀ property, t ≠ .access (.registrar r) property)
    (count : ∀ property, t ≠ .countMutation r property)
    (leave : ∀ reaction, t ≠ .leaveScope r reaction) :
    m.world.KeepsRegistrar w r := by
  cases h with
  | edits t loose known edits => exact edits.keepsRegistrar has
  | adopt q audience change origin alive affects =>
    rw [World.registrars_adopt] at has
    rw [World.KeepsRegistrar, World.registrars_adopt]
    exact Or.inl ⟨has, rfl⟩
  | countAccess d property =>
    have hne : r ≠ d := fun heq => access property (heq ▸ rfl)
    exact Or.inl ⟨has, Pool.get_modify_of_ne _ hne⟩
  | countMutation d property =>
    have hne : r ≠ d := fun heq => count property (heq ▸ rfl)
    exact Or.inl ⟨has, Pool.get_modify_of_ne _ hne⟩
  | leaveScope d reaction =>
    have hne : r ≠ d := fun heq => leave reaction (heq ▸ rfl)
    rw [World.registrars_leaveScope] at has
    rw [World.KeepsRegistrar, World.registrars_leaveScope]
    exact Or.inl ⟨has, Pool.get_modify_of_ne _ hne⟩
  | invalidate b => cases b <;> exact Or.inl ⟨has, rfl⟩
  | _ => exact Or.inl ⟨has, rfl⟩

namespace Machine

variable {m : Machine} {r : Ref .registrar}

/-- What the next task makes of a registrar. -/
def registrarAfter (m : Machine) (r : Ref .registrar) : Registrar Reaction :=
  match m.todo with
  | .access (.registrar d) property :: _ =>
    if d = r then (m.world.registrars.get r).countAccess property
    else m.world.registrars.get r
  | .countMutation d property :: _ =>
    if d = r then
      ((m.world.registrars.get r).countMutation property).takeFired property
    else m.world.registrars.get r
  | .leaveScope d reaction :: _ =>
    if d = r then
      (m.world.registrars.get r).await ⟨m.world.scopes.collected, reaction⟩
    else m.world.registrars.get r
  | _ => m.world.registrars.get r

theorem get_registrar_modify {w w' : World} {d : Ref .registrar}
    {f : Registrar Reaction → Registrar Reaction}
    (h : w'.registrars = w.registrars.modify d f) :
    w'.registrars.get r =
      if d = r then f (w.registrars.get r) else w.registrars.get r := by
  rw [h]
  split
  · next hd =>
    rw [hd]
    exact Pool.get_modify_self _
  · next hd => exact Pool.get_modify_of_ne _ (Ne.symm hd)

/-- A step does to a registrar what its task says. -/
theorem registrar_step (has : r.index < m.world.registrars.next) :
    m.step.world.registrars.get r = m.registrarAfter r := by
  unfold registrarAfter
  split
  · next d property rest htodo =>
    apply get_registrar_modify (f := fun x => x.countAccess property)
    rw [step_of_todo_cons htodo]
    rfl
  · next d property rest htodo =>
    apply get_registrar_modify
      (f := fun x => (x.countMutation property).takeFired property)
    rw [step_of_todo_cons htodo]
    rfl
  · next d reaction rest htodo =>
    apply get_registrar_modify
      (f := fun x => x.await ⟨m.world.scopes.collected, reaction⟩)
    rw [step_of_todo_cons htodo]
    exact World.registrars_leaveScope _ _ _
  · next haccess hcount hleave =>
    cases htodo : m.todo with
    | nil => rw [step_of_todo_nil htodo]
    | cons t rest =>
      rcases (effect_step htodo).keepsRegistrar
        (has_step (o := .registrar r) has)
        (fun p heq => haccess r p rest (heq ▸ htodo))
        (fun p heq => hcount r p rest (heq ▸ htodo))
        (fun reaction heq => hleave r reaction rest (heq ▸ htodo)) with
        ⟨-, hsame⟩ | ⟨hnew, -⟩
      · exact hsame
      · exact absurd has hnew

/-- A registrar that a step makes is empty. -/
theorem registrar_new (new : ¬ r.index < m.world.registrars.next)
    (has : r.index < m.step.world.registrars.next) :
    m.step.world.registrars.get r = {} := by
  cases htodo : m.todo with
  | nil =>
    rw [step_of_todo_nil htodo] at has
    exact absurd has new
  | cons t rest =>
    have hnext : (∃ p, t = .access (.registrar r) p) ∨
        (∃ p, t = .countMutation r p) ∨
        (∃ reaction, t = .leaveScope r reaction) →
        m.step.world.registrars.next = m.world.registrars.next := by
      rw [step_of_todo_cons htodo]
      rintro (⟨p, rfl⟩ | ⟨p, rfl⟩ | ⟨reaction, rfl⟩)
      · rfl
      · rfl
      · rw [doTask, world_modifyWorld, World.registrars_leaveScope]
        rfl
    have hother (h : (∃ p, t = .access (.registrar r) p) ∨
        (∃ p, t = .countMutation r p) ∨
        (∃ reaction, t = .leaveScope r reaction)) : False := by
      rw [hnext h] at has
      exact new has
    rcases (effect_step htodo).keepsRegistrar has
      (fun p h => hother (Or.inl ⟨p, h⟩))
      (fun p h => hother (Or.inr (Or.inl ⟨p, h⟩)))
      (fun reaction h => hother (Or.inr (Or.inr ⟨reaction, h⟩))) with
      ⟨hold, -⟩ | ⟨-, hempty⟩
    · exact absurd hold new
    · exact hempty

/-- A registrar is about to count a change of a property. -/
def Counts (m : Machine) (r : Ref .registrar) (property : String) : Prop :=
  ∃ rest, m.todo = .countMutation r property :: rest

/-- What the next task makes of the numbered observers that wait in a
registrar.  A new one gets the number that is given. -/
def observersAfter (m : Machine) (r : Ref .registrar) (n : ℕ)
    (before : List (ℕ × Observer Reaction)) : List (ℕ × Observer Reaction) :=
  match m.todo with
  | .leaveScope d reaction :: _ =>
    if d = r ∧ m.world.scopes.collected ≠ [] then
      before ++ [(n, ⟨m.world.scopes.collected, reaction⟩)]
    else before
  | .countMutation d property :: _ =>
    if d = r then before.filter fun x => !x.2.properties.contains property
    else before
  | _ => before

/-- The observers that wait in a registrar after a number of steps, oldest
first, each with the step at which it was registered. -/
def observers (m : Machine) (r : Ref .registrar) :
    ℕ → List (ℕ × Observer Reaction)
  | 0 => []
  | n + 1 =>
    if r.index < (run n m).world.registrars.next then
      (run n m).observersAfter r n (m.observers r n)
    else []

theorem observers_of_counts {p : String} {n : ℕ}
    (has : r.index < (run n m).world.registrars.next)
    (counts : (run n m).Counts r p) :
    m.observers r (n + 1) =
      (m.observers r n).filter fun x => !x.2.properties.contains p := by
  obtain ⟨rest, htodo⟩ := counts
  rw [observers, if_pos has, observersAfter, htodo]
  exact if_pos rfl

/-- An observer of a registrar is about to be registered: the scope that
closes next has collected its properties. -/
def Registers (m : Machine) (r : Ref .registrar) (o : Observer Reaction) :
    Prop :=
  r.index < m.world.registrars.next ∧
    (∃ rest, m.todo = .leaveScope r o.onChange :: rest) ∧
    o.properties = m.world.scopes.collected ∧ o.properties ≠ []

/-- The next task leaves the observers of a registrar alone. -/
theorem observers_of_other {n : ℕ}
    (has : r.index < (run n m).world.registrars.next)
    (count : ∀ p, ¬ (run n m).Counts r p)
    (register : ∀ o, ¬ (run n m).Registers r o) :
    m.observers r (n + 1) = m.observers r n := by
  rw [observers, if_pos has, observersAfter]
  split
  · next d reaction rest htodo =>
    refine if_neg ?_
    rintro ⟨rfl, hne⟩
    exact register ⟨_, reaction⟩ ⟨has, ⟨rest, htodo⟩, rfl, hne⟩
  · next d p rest htodo =>
    refine if_neg ?_
    rintro rfl
    exact count p ⟨rest, htodo⟩
  · rfl

theorem observers_of_registers {o : Observer Reaction} {n : ℕ}
    (registers : (run n m).Registers r o) :
    m.observers r (n + 1) = m.observers r n ++ [(n, o)] := by
  obtain ⟨has, ⟨rest, htodo⟩, hproperties, hne⟩ := registers
  rw [observers, if_pos has, observersAfter, htodo]
  refine (if_pos ⟨rfl, hproperties ▸ hne⟩).trans ?_
  rw [← hproperties]

/-- What is registered at a step is determined by the step. -/
theorem Registers.unique {o o' : Observer Reaction} (h : m.Registers r o)
    (h' : m.Registers r o') : o = o' := by
  obtain ⟨-, ⟨rest, htodo⟩, hproperties, -⟩ := h
  obtain ⟨-, ⟨rest', htodo'⟩, hproperties', -⟩ := h'
  obtain ⟨properties, reaction⟩ := o
  obtain ⟨properties', reaction'⟩ := o'
  cases htodo.symm.trans htodo'
  cases hproperties.trans hproperties'.symm
  rfl

theorem Registers.not_counts {o : Observer Reaction} (h : m.Registers r o)
    (p : String) : ¬ m.Counts r p := by
  rintro ⟨rest, hcounts⟩
  obtain ⟨-, ⟨below, hleave⟩, -⟩ := h
  cases hleave.symm.trans hcounts

theorem Counts.unique {p q : String} (h : m.Counts r p) (h' : m.Counts r q) :
    p = q := by
  obtain ⟨rest, htodo⟩ := h
  obtain ⟨rest', htodo'⟩ := h'
  cases htodo.symm.trans htodo'
  rfl

/-- An observer that waits after a step waited before it and is not fired by
it, or is registered by it. -/
theorem mem_observers_succ_iff {i n : ℕ} {o : Observer Reaction}
    (has : r.index < (run n m).world.registrars.next) :
    (i, o) ∈ m.observers r (n + 1) ↔
      ((i, o) ∈ m.observers r n ∧
        ∀ p ∈ o.properties, ¬ (run n m).Counts r p) ∨
      i = n ∧ (run n m).Registers r o := by
  by_cases hcounts : ∃ p, (run n m).Counts r p
  · obtain ⟨p, hcounts⟩ := hcounts
    have hquiet : (∀ q ∈ o.properties, ¬ (run n m).Counts r q) ↔
        p ∉ o.properties :=
      ⟨fun h hp => h p hp hcounts,
        fun hp q hq h => hp (hcounts.unique h ▸ hq)⟩
    have hnew : ¬ (i = n ∧ (run n m).Registers r o) :=
      fun h => h.2.not_counts p hcounts
    rw [observers_of_counts has hcounts, or_iff_left hnew, List.mem_filter,
      hquiet]
    simp
  have hcounts (p : String) : ¬ (run n m).Counts r p :=
    fun h => hcounts ⟨p, h⟩
  rw [and_iff_left fun p _ => hcounts p]
  by_cases hregisters : ∃ new, (run n m).Registers r new
  · obtain ⟨new, hregisters⟩ := hregisters
    rw [observers_of_registers hregisters, List.mem_append,
      List.mem_singleton, Prod.mk.injEq]
    refine or_congr_right (and_congr_right fun _ => ?_)
    exact ⟨fun h => h ▸ hregisters, fun h => h.unique hregisters⟩
  · rw [observers_of_other has hcounts fun new h => hregisters ⟨new, h⟩]
    exact (or_iff_left fun h => hregisters ⟨o, h.2⟩).symm

/-- An observer waits from the step at which it is registered until one of
its properties changes. -/
theorem mem_observers_iff {i n : ℕ} {o : Observer Reaction} :
    (i, o) ∈ m.observers r n ↔
      i < n ∧ (run i m).Registers r o ∧
        ∀ c, i < c → c < n → ∀ p ∈ o.properties, ¬ (run c m).Counts r p := by
  induction n with
  | zero =>
    constructor
    · exact fun h => absurd h List.not_mem_nil
    · rintro ⟨h, -⟩
      exact absurd h (Nat.not_lt_zero i)
  | succ n ih =>
    by_cases has : r.index < (run n m).world.registrars.next
    · rw [mem_observers_succ_iff has, ih]
      constructor
      · rintro (⟨⟨hin, hregisters, hquiet⟩, hnow⟩ | ⟨rfl, hregisters⟩)
        · refine ⟨Nat.lt_succ_of_lt hin, hregisters, fun c hic hcn => ?_⟩
          rcases Nat.lt_succ_iff_lt_or_eq.mp hcn with hlt | rfl
          · exact hquiet c hic hlt
          · exact hnow
        · exact ⟨Nat.lt_succ_self i, hregisters, fun c hic hcn => by omega⟩
      · rintro ⟨hin, hregisters, hquiet⟩
        rcases Nat.lt_succ_iff_lt_or_eq.mp hin with hlt | rfl
        · exact Or.inl ⟨⟨hlt, hregisters,
            fun c hic hcn => hquiet c hic (Nat.lt_succ_of_lt hcn)⟩,
            hquiet n hlt (Nat.lt_succ_self n)⟩
        · exact Or.inr ⟨rfl, hregisters⟩
    · rw [observers, if_neg has]
      refine ⟨fun h => absurd h List.not_mem_nil, ?_⟩
      rintro ⟨hin, ⟨hmade, -⟩, -⟩
      exact absurd (has_run (o := .registrar r) (Nat.le_of_lt_succ hin) hmade)
        has

/-! ## The registrar's own list -/

theorem waiting_step (has : r.index < m.world.registrars.next) (n : ℕ)
    {before : List (ℕ × Observer Reaction)}
    (h : before.map Prod.snd = (m.world.registrars.get r).waiting) :
    (m.observersAfter r n before).map Prod.snd =
      (m.step.world.registrars.get r).waiting := by
  rw [registrar_step has, observersAfter, registrarAfter]
  split
  · next d reaction rest htodo =>
    simp only [htodo]
    by_cases hdr : d = r
    · by_cases hempty : m.world.scopes.collected = []
      · simp [hdr, hempty, h, Registrar.await]
      · simp [hdr, hempty, h, Registrar.await]
    · simp [hdr, h]
  · next d p rest htodo =>
    simp only [htodo]
    split
    · rw [Registrar.takeFired, Registrar.countMutation, ← h, List.filter_map]
      rfl
    · exact h
  · next hleave hcount =>
    rw [h]
    split
    · split <;> rfl
    · next d p rest htodo => exact absurd htodo (hcount d p rest)
    · next d reaction rest htodo =>
      exact absurd htodo (hleave d reaction rest)
    · rfl

/-- The numbered observers are those that wait in the registrar, in their
order. -/
theorem map_observers {commands : List Command} {n : ℕ}
    (has : r.index < (run n (ofCommands commands)).world.registrars.next) :
    ((ofCommands commands).observers r n).map Prod.snd =
      ((run n (ofCommands commands)).world.registrars.get r).waiting := by
  induction n with
  | zero => exact absurd has (Nat.not_lt_zero r.index)
  | succ n ih =>
    rw [run_succ] at has ⊢
    rw [observers]
    split
    · next hold => exact waiting_step hold n (ih hold)
    · next hnew =>
      exact (congrArg Registrar.waiting (registrar_new hnew has)).symm

/-! ## Reactions -/

/-- The numbered observers of a registrar that a change of a property
fires. -/
def fired (m : Machine) (r : Ref .registrar) (p : String) (c : ℕ) :
    List (ℕ × Observer Reaction) :=
  (m.observers r c).filter fun x => x.2.properties.contains p

/-- The reactions of numbered observers, to be called one after another. -/
def reactions (observers : List (ℕ × Observer Reaction)) : List Task :=
  observers.map fun x => .react x.2.onChange

/-- The observer of a registrar that was registered at one step is fired by a
change, and its reaction has its turn at another one. -/
def Reacts (m : Machine) (r : Ref .registrar) (i j : ℕ) : Prop :=
  ∃ c p o before after below,
    (run c m).todo = .countMutation r p :: below ∧
    m.fired r p c = before ++ (i, o) :: after ∧
    m.Waits (.react o.onChange) (reactions after ++ below) c j

theorem not_follows_react (m : Machine) (reaction reaction' : Reaction) :
    ¬ Follows m (.react reaction) (.react reaction') := nofun

/-- No two observers are registered at the same step. -/
theorem pairwise_observers (m : Machine) (r : Ref .registrar) (n : ℕ) :
    (m.observers r n).Pairwise fun x y => x.1 < y.1 := by
  induction n with
  | zero => exact List.Pairwise.nil
  | succ n ih =>
    rw [observers]
    split
    · unfold observersAfter
      split
      · split
        · refine List.pairwise_append.mpr
            ⟨ih, List.pairwise_singleton _ _, fun x hx y hy => ?_⟩
          obtain rfl := List.mem_singleton.mp hy
          exact (mem_observers_iff.mp hx).1
        · exact ih
      · split
        · exact ih.filter _
        · exact ih
      · exact ih
    · exact List.Pairwise.nil

theorem mem_fired_iff {p : String} {c : ℕ} {x : ℕ × Observer Reaction} :
    x ∈ m.fired r p c ↔ x ∈ m.observers r c ∧ p ∈ x.2.properties := by
  rw [fired, List.mem_filter, List.contains_iff_mem]

/-- An observer has one place among those that a change fires. -/
theorem eq_of_fired {p : String} {c : ℕ} {x : ℕ × Observer Reaction}
    {before after before' after' : List (ℕ × Observer Reaction)}
    (h : m.fired r p c = before ++ x :: after)
    (h' : m.fired r p c = before' ++ x :: after') : after = after' := by
  have hpairwise : (m.fired r p c).Pairwise fun x y => x.1 < y.1 :=
    (pairwise_observers m r c).filter _
  rw [h, List.pairwise_append, List.pairwise_cons] at hpairwise
  obtain ⟨-, ⟨hafter, -⟩, hbefore⟩ := hpairwise
  refine ((List.append_cons_inj_of_notMem (fun hx => ?_) fun hx => ?_).mp
    (h.symm.trans h')).2.2
  · exact absurd (hbefore x hx x List.mem_cons_self) (Nat.lt_irrefl _)
  · exact absurd (hafter x hx) (Nat.lt_irrefl _)

/-- An observer is fired once, so its reaction has one turn at most. -/
theorem Reacts.unique {i j l : ℕ} (h : m.Reacts r i j) (h' : m.Reacts r i l) :
    l = j := by
  obtain ⟨c, p, o, before, after, below, htodo, hfired, hwaits⟩ := h
  obtain ⟨c', p', o', before', after', below', htodo', hfired', hwaits'⟩ := h'
  have hx : (i, o) ∈ m.fired r p c := hfired ▸ by simp
  have hx' : (i, o') ∈ m.fired r p' c' := hfired' ▸ by simp
  obtain ⟨hmem, hp⟩ := mem_fired_iff.mp hx
  obtain ⟨hmem', hp'⟩ := mem_fired_iff.mp hx'
  obtain ⟨hic, hregisters, hquiet⟩ := mem_observers_iff.mp hmem
  obtain ⟨hic', hregisters', hquiet'⟩ := mem_observers_iff.mp hmem'
  obtain rfl := hregisters.unique hregisters'
  rcases Nat.lt_trichotomy c c' with hlt | rfl | hlt
  · exact absurd ⟨_, htodo⟩ (hquiet' c hic hlt p hp)
  · cases htodo.symm.trans htodo'
    obtain rfl := eq_of_fired hfired hfired'
    exact hwaits.turn_unique hwaits' fun m => not_follows_react m _ _
  · exact absurd ⟨_, htodo'⟩ (hquiet c' hic' hlt p' hp')

/-- Nobody reacts who was not registered. -/
theorem Reacts.exists_registers {i j : ℕ} (h : m.Reacts r i j) :
    ∃ o, (run i m).Registers r o ∧ i < j ∧
      ∃ below, (run j m).todo = .react o.onChange :: below := by
  obtain ⟨c, p, o, before, after, below, -, hfired, hwaits⟩ := h
  have hx : (i, o) ∈ m.fired r p c := hfired ▸ by simp
  obtain ⟨hic, hregisters, -⟩ :=
    mem_observers_iff.mp (mem_fired_iff.mp hx).1
  exact ⟨o, hregisters, Nat.lt_trans hic hwaits.lt, _, hwaits.turn⟩

/-- A change is followed by the reactions of the observers that it fires. -/
theorem todo_of_counts {commands : List Command} {p : String} {c : ℕ}
    {below : List Task}
    (has : r.index < (run c (ofCommands commands)).world.registrars.next)
    (counts : (run c (ofCommands commands)).todo =
      .countMutation r p :: below) :
    (run (c + 1) (ofCommands commands)).todo =
      reactions ((ofCommands commands).fired r p c) ++ below := by
  rw [run_succ, step_of_todo_cons counts]
  simp only [doTask, countMutation, World.firedBy, Registrar.firedBy, push,
    todo_modifyWorld, ← map_observers has, List.filter_map, List.map_map]
  rfl

/-- An observer reacts after the first change of one of its properties. -/
theorem exists_reacts {commands : List Command} {i c : ℕ} {p : String}
    {o : Observer Reaction} {below : List Task}
    (waits : (i, o) ∈ (ofCommands commands).observers r c)
    (watches : p ∈ o.properties)
    (counts : (run c (ofCommands commands)).todo =
      .countMutation r p :: below) :
    ∃ j, (ofCommands commands).Reacts r i j ∧ c < j ∧
      (ofCommands commands).Above below c j ∧
      ∃ after, (run j (ofCommands commands)).todo =
        .react o.onChange :: (reactions after ++ below) := by
  have hregisters := (mem_observers_iff.mp waits).2.1
  have hhas := has_run (o := .registrar r)
    (Nat.le_of_lt (mem_observers_iff.mp waits).1) hregisters.1
  obtain ⟨before, after, hfired⟩ :=
    List.append_of_mem (mem_fired_iff.mpr ⟨waits, watches⟩)
  have hnext := todo_of_counts hhas counts
  rw [hfired, reactions, List.map_append, List.map_cons, List.append_assoc,
    List.cons_append] at hnext
  obtain ⟨j, hwaits⟩ := exists_waits hnext
  exact ⟨j, ⟨c, p, o, before, after, below, counts, hfired, hwaits⟩, hwaits.lt,
    above_of_suffix rfl hwaits.waits, after, hwaits.turn⟩

/-- A registered observer reacts if and only if one of its properties
changes. -/
theorem exists_reacts_iff {commands : List Command} {i : ℕ}
    {o : Observer Reaction}
    (registers : (run i (ofCommands commands)).Registers r o) :
    (∃ j, (ofCommands commands).Reacts r i j) ↔
      ∃ c, i < c ∧
        ∃ p ∈ o.properties, (run c (ofCommands commands)).Counts r p := by
  classical
  constructor
  · rintro ⟨j, c, p, o', before, after, below, hcounts, hfired, -⟩
    have hmem : (i, o') ∈ (ofCommands commands).fired r p c :=
      hfired ▸ by simp
    obtain ⟨hwaits, hp⟩ := mem_fired_iff.mp hmem
    obtain ⟨hic, hregisters, -⟩ := mem_observers_iff.mp hwaits
    obtain rfl := hregisters.unique registers
    exact ⟨c, hic, p, hp, below, hcounts⟩
  · intro h
    obtain ⟨hic, p, hp, below, hcounts⟩ := Nat.find_spec h
    obtain ⟨j, hreacts, -⟩ := exists_reacts
      (mem_observers_iff.mpr ⟨hic, registers, fun c hic' hlt q hq hq' =>
        Nat.find_min h hlt ⟨hic', q, hq, hq'⟩⟩) hp hcounts
    exact ⟨j, hreacts⟩

/-- Every turn of a reaction that a registrar calls for is that of an
observer which was registered with it. -/
theorem exists_registered {commands : List Command} {j : ℕ}
    {reaction : Reaction} {rest : List Task}
    (turn : (run j (ofCommands commands)).todo = .react reaction :: rest) :
    ∃ c d p, c < j ∧ (run c (ofCommands commands)).Counts d p ∧
      (d.index < (run c (ofCommands commands)).world.registrars.next →
        ∃ i o, (run i (ofCommands commands)).Registers d o ∧
          o.onChange = reaction ∧ (ofCommands commands).Reacts d i j) := by
  have hsuffix : .react reaction :: rest <:+
      (run j (ofCommands commands)).todo := turn ▸ List.suffix_rfl
  rcases exists_parent hsuffix with hstart | ⟨c, hcj, parent, below, before,
    after, hparent, hfollows, hnext, hrest, hwait⟩
  · obtain ⟨c, -, hc⟩ := List.mem_map.mp (hstart.subset List.mem_cons_self)
    cases hc
  · cases hfollows with
    | begun _ _ left => cases left
    | react d p =>
      refine ⟨c, d, p, hcj, ⟨below, hparent⟩, fun hhas => ?_⟩
      rw [todo_of_counts hhas hparent, ← List.cons_append,
        ← List.append_assoc] at hnext
      have hfired := List.append_cancel_right hnext
      obtain ⟨front, back, hback, hfront, hreact⟩ :=
        List.map_eq_append_iff.mp hfired
      obtain ⟨x, back, rfl, hx, rfl⟩ := List.map_eq_cons_iff.mp hreact
      cases hx
      have hmem : x ∈ (ofCommands commands).fired d p c := hback ▸ by simp
      have hwaits := (mem_fired_iff.mp hmem).1
      refine ⟨x.1, x.2, (mem_observers_iff.mp hwaits).2.1, rfl,
        c, p, x.2, front, back, below, hparent, hback, hcj, ?_, ?_⟩
      · exact fun k hck hkj => hrest ▸ hwait k hck hkj
      · exact hrest ▸ turn

end Machine
end LiveProperty
