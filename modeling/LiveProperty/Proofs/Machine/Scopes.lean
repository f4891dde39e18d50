import LiveProperty.Proofs.Machine.Effects
import LiveProperty.Proofs.Machine.Runs
import Mathlib.Data.List.Forall2

/-!
# Open scopes along a run

An observer is registered with the properties that its scope collected.  The
open scopes follow the tasks that are to close them, so a scope that was
opened by a call is the innermost one when its own task closes it.  It has
collected whatever was read of its registrar in between, and so have the
scopes around it, also inside the scopes that were opened and closed meanwhile
(`takesIn_of_returns`).
-/

namespace LiveProperty

/-- Whether a task closes a tracking scope. -/
def Task.closesScope : Task → Bool
  | .leaveScope .. => true
  | _ => false

section

variable {todo : List Task} {bound : ℕ} {loose : Object → Prop} {w w' : World}

theorem Edit.scopes (h : Edit todo bound loose w w') :
    w'.scopes = w.scopes := by
  cases h with
  | letGo o free known =>
    unfold World.letGo
    split <;> rfl
  | _ => rfl

theorem Edits.scopes (h : Edits todo bound loose w w') :
    w'.scopes = w.scopes := by
  induction h with
  | refl => rfl
  | tail _ hedit ih => exact hedit.scopes.trans ih

end

/-- What a task does to the open scopes, and how many tasks that close scopes
it leaves. -/
inductive ScopeStep (s : ScopeStack) : Task → ℕ → ScopeStack → Prop
  | enter (c : Command) (nested : Bool) (r : Ref .registrar) :
      ScopeStep s (.perform c nested) 1 (s.enter r)
  | record (r : Ref .registrar) (property : String) :
      ScopeStep s (.access (.registrar r) property) 0 (s.record r property)
  | leave (r : Ref .registrar) (reaction : Reaction) :
      ScopeStep s (.leaveScope r reaction) 0 s.leave
  | same (t : Task)
      (access : ∀ r property, t ≠ .access (.registrar r) property)
      (leave : ∀ r reaction, t ≠ .leaveScope r reaction) :
      ScopeStep s t 0 s

theorem ScopeStep.perform (s : ScopeStack) (c : Command) (nested : Bool) :
    ScopeStep s (.perform c nested) 0 s :=
  .same _ (by simp) (by simp)

/-- Only a call that opens a scope, a read and the end of a scope change the
open scopes. -/
theorem Effect.scopes {m : Machine} {t : Task} {w : World} (h : Effect m t w)
    (perform : ∀ c nested, t ≠ .perform c nested)
    (access : ∀ r property, t ≠ .access (.registrar r) property)
    (leave : ∀ r reaction, t ≠ .leaveScope r reaction) :
    w.scopes = m.world.scopes := by
  cases h with
  | edits t loose known edits => exact edits.scopes
  | save c nested => exact absurd rfl (perform c nested)
  | bindContext c nested => exact absurd rfl (perform c nested)
  | enterScope c nested => exact absurd rfl (perform c nested)
  | adopt q audience change origin alive affects =>
    unfold World.adopt
    split <;> rfl
  | countAccess r property => exact absurd rfl (access r property)
  | leaveScope r reaction => exact absurd rfl (leave r reaction)
  | invalidate b => cases b <;> rfl
  | _ => rfl

namespace Machine

variable {m : Machine}

theorem countP_closesScope_nested (commands : List Command) :
    (Task.nested commands).countP Task.closesScope = 0 := by
  rw [List.countP_eq_zero]
  intro t ht
  obtain ⟨c, -, rfl⟩ := List.mem_map.mp ht
  exact Bool.false_ne_true

theorem countP_closesScope_readTasks (w : World) (s : Ref .store) :
    (readTasks w s).countP Task.closesScope = 0 := by
  unfold readTasks
  cases (w.stores.get s).onRead <;> rfl

theorem countP_closesScope_accessTasks (b : Bridge) :
    (m.accessTasks b).countP Task.closesScope = 0 := by
  unfold accessTasks
  split <;> rfl

/-- A command opens a scope and leaves the task that closes it, or does
neither. -/
theorem Begins.scopeStep {bound : ℕ} {b : Begun} (h : Begins m bound b)
    (c : Command) (nested : Bool) :
    ScopeStep m.world.scopes (.perform c nested)
      (b.tasks.countP Task.closesScope) b.machine.world.scopes := by
  have hsame := ScopeStep.perform m.world.scopes c nested
  cases h with
  | atOnce r edits =>
    rw [edits.scopes]
    exact hsame
  | observe r apply reaction named small =>
    rw [List.countP_append, countP_closesScope_nested]
    exact .enter c nested r
  | getKey b named =>
    rw [List.countP_append, countP_closesScope_accessTasks]
    exact hsame
  | results q named =>
    rw [List.countP_append, countP_closesScope_accessTasks]
    exact hsame
  | readDefault key =>
    rw [List.countP_append, countP_closesScope_readTasks]
    exact hsame
  | readToken t next named tracked =>
    rw [readingToken, List.countP_append, countP_closesScope_readTasks]
    rcases tracked with rfl | rfl
    · exact hsame
    · exact hsame
  | _ => exact hsame

/-- Only a command that opens a scope leaves a task that closes one. -/
theorem not_closesScope_of_follows {t x : Task} (h : Follows m t x)
    (perform : ∀ c nested, t ≠ .perform c nested) : ¬ x.closesScope := by
  cases h with
  | begun c nested left => exact absurd rfl (perform c nested)
  | _ => exact Bool.false_ne_true

theorem scopeStep_of_perform {c : Command} {nested : Bool} {rest : List Task}
    (h : m.todo = .perform c nested :: rest) :
    ∃ pushed, m.step.todo = pushed ++ rest ∧
      ScopeStep m.world.scopes (.perform c nested)
        (pushed.countP Task.closesScope) m.step.world.scopes := by
  cases hbegin : begin { m with todo := rest } c.action with
  | error r =>
    rw [step_of_refused h hbegin]
    exact ⟨_, todo_push _, .perform _ c nested⟩
  | ok b =>
    have hbegins := begins_of_begin hbegin
    rw [step_of_begin h hbegin]
    refine ⟨b.tasks ++ [.finish c.label b.held nested], ?_, ?_⟩
    · rw [todo_push, hbegins.todo_eq]
    · rw [List.countP_append]
      exact Begins.scopeStep hbegins c nested

theorem scopeStep_of_other {t : Task} {rest : List Task}
    (h : m.todo = t :: rest) (other : ∀ c nested, t ≠ .perform c nested)
    (step : ScopeStep m.world.scopes t 0 m.step.world.scopes) :
    ∃ pushed, m.step.todo = pushed ++ rest ∧
      ScopeStep m.world.scopes t (pushed.countP Task.closesScope)
        m.step.world.scopes := by
  obtain ⟨pushed, hpushed, hfollows⟩ := todo_step h
  have hcount : pushed.countP Task.closesScope = 0 :=
    List.countP_eq_zero.mpr fun x hx =>
      not_closesScope_of_follows (hfollows x hx) other
  refine ⟨pushed, hpushed, ?_⟩
  rw [hcount]
  exact step

/-- The scopes change with the tasks that are to close them. -/
theorem scopeStep {t : Task} {rest : List Task} (h : m.todo = t :: rest) :
    ∃ pushed, m.step.todo = pushed ++ rest ∧
      ScopeStep m.world.scopes t (pushed.countP Task.closesScope)
        m.step.world.scopes := by
  have hsame (perform : ∀ c nested, t ≠ .perform c nested)
      (access : ∀ r property, t ≠ .access (.registrar r) property)
      (leave : ∀ r reaction, t ≠ .leaveScope r reaction) :
      ScopeStep m.world.scopes t 0 m.step.world.scopes := by
    rw [(effect_step h).scopes perform access leave]
    exact .same t access leave
  cases t with
  | perform c nested => exact scopeStep_of_perform h
  | access owner property =>
    apply scopeStep_of_other h (by simp)
    cases owner with
    | registrar r =>
      rw [step_of_todo_cons h]
      exact .record r property
    | hook d => exact hsame (by simp) (by simp) (by simp)
  | leaveScope r reaction =>
    have hscopes : m.step.world.scopes = m.world.scopes.leave := by
      rw [step_of_todo_cons h]
      simp only [doTask, modifyWorld, World.leaveScope]
      split <;> rfl
    apply scopeStep_of_other h (by simp)
    rw [hscopes]
    exact .leave r reaction
  | _ =>
    exact scopeStep_of_other h (by simp) (hsame (by simp) (by simp) (by simp))

/-! ## What open scopes take in -/

/-- A registrar is told next that a property is read. -/
def Accesses (m : Machine) (r : Ref .registrar) (property : String) : Prop :=
  ∃ rest, m.todo = .access (.registrar r) property :: rest

/-- What the next task makes of a scope that stays open. -/
def noted (m : Machine) (scope : Scope) : Scope :=
  match m.todo with
  | .access (.registrar r) property :: _ =>
    if scope.registrar = r then
      { scope with accessed := PropertySet.insert scope.accessed property }
    else scope
  | _ => scope

theorem noted_of_silent (silent : ∀ r p, ¬ m.Accesses r p) (scope : Scope) :
    m.noted scope = scope := by
  unfold noted
  split
  · next r p rest htodo => exact absurd ⟨rest, htodo⟩ (silent r p)
  · rfl

@[simp] theorem registrar_noted (scope : Scope) :
    (m.noted scope).registrar = scope.registrar := by
  unfold noted
  split
  · split <;> rfl
  · rfl

/-- A scope takes in what its own registrar is told of, and nothing else. -/
theorem mem_noted_iff {scope : Scope} {p : String} :
    p ∈ (m.noted scope).accessed ↔
      m.Accesses scope.registrar p ∨ p ∈ scope.accessed := by
  by_cases hsilent : ∀ r q, ¬ m.Accesses r q
  · rw [noted_of_silent hsilent, or_iff_right (hsilent _ p)]
  · simp only [not_forall, not_not] at hsilent
    obtain ⟨r, q, rest, htodo⟩ := hsilent
    have hnow : m.Accesses scope.registrar p ↔
        scope.registrar = r ∧ p = q := by
      simp [Accesses, htodo, eq_comm]
    rw [hnow, noted, htodo]
    dsimp only
    split
    · next heq => rw [PropertySet.mem_insert, and_iff_right heq]
    · next hne => simp [hne]

/-- The scopes below those that are to be closed stay open, and take in what
is read. -/
theorem enclosed_step {t : Task} {front rest : List Task}
    {inner outer : ScopeStack} (h : m.todo = t :: (front ++ rest))
    (scopes : m.world.scopes = inner ++ outer)
    (length : inner.length = (t :: front).countP Task.closesScope) :
    ∃ pushed inner, m.step.todo = (pushed ++ front) ++ rest ∧
      m.step.world.scopes = inner ++ outer.map m.noted ∧
      inner.length = (pushed ++ front).countP Task.closesScope := by
  obtain ⟨pushed, hpushed, hstep⟩ := scopeStep h
  have hsilent (silent : ∀ r p, ¬ m.Accesses r p) :
      outer.map m.noted = outer :=
    List.map_id'' (noted_of_silent silent) outer
  rw [List.countP_cons] at length
  generalize hcount : pushed.countP Task.closesScope = count at hstep
  generalize hafter : m.step.world.scopes = after at hstep
  refine ⟨pushed, ?_⟩
  rw [List.countP_append, hcount, hpushed, List.append_assoc]
  cases hstep with
  | enter c nested d =>
    have hlength : inner.length = front.countP Task.closesScope := length
    refine ⟨⟨d, []⟩ :: inner, rfl, ?_, ?_⟩
    · rw [hsilent, scopes]
      · rfl
      · rintro r p ⟨below, hnow⟩
        cases h.symm.trans hnow
    · rw [List.length_cons, hlength, Nat.add_comm]
  | record d p =>
    have hlength : inner.length = front.countP Task.closesScope := length
    refine ⟨ScopeStack.record inner d p, rfl, ?_, ?_⟩
    · rw [scopes, ScopeStack.record, List.map_append]
      congr 1
      refine List.map_congr_left fun scope _ => ?_
      rw [noted, h]
    · rw [Nat.zero_add, ← hlength]
      exact List.length_map _
  | leave d reaction =>
    have hlength : inner.length = front.countP Task.closesScope + 1 := length
    obtain ⟨x, inner, rfl⟩ := List.exists_cons_of_length_eq_add_one hlength
    refine ⟨inner, rfl, ?_, ?_⟩
    · rw [hsilent, scopes]
      · rfl
      · rintro r p ⟨below, hnow⟩
        cases h.symm.trans hnow
    · rw [Nat.zero_add]
      exact Nat.succ.inj hlength
  | same t access leave =>
    have hlength : inner.length = front.countP Task.closesScope := by
      cases t with
      | leaveScope d reaction => exact absurd rfl (leave d reaction)
      | _ => exact length
    refine ⟨inner, rfl, ?_, ?_⟩
    · rw [hsilent, scopes]
      rintro r p ⟨below, hnow⟩
      cases h.symm.trans hnow
      exact access _ _ rfl
    · rw [Nat.zero_add, hlength]

theorem accesses_succ_iff {r : Ref .registrar} {p : String} {s n : ℕ}
    (lt : s < n) :
    (∃ k, s < k ∧ k < n + 1 ∧ (run k m).Accesses r p) ↔
      (run n m).Accesses r p ∨
        ∃ k, s < k ∧ k < n ∧ (run k m).Accesses r p := by
  constructor
  · rintro ⟨k, hsk, hkn, h⟩
    rcases Nat.lt_succ_iff_lt_or_eq.mp hkn with hlt | rfl
    · exact Or.inr ⟨k, hsk, hlt, h⟩
    · exact Or.inl h
  · rintro (h | ⟨k, hsk, hkn, h⟩)
    · exact ⟨n, lt, Nat.lt_succ_self n, h⟩
    · exact ⟨k, hsk, Nat.lt_succ_of_lt hkn, h⟩

variable {r : Ref .registrar} {t : Task} {rest front : List Task} {s n : ℕ}
  {inner : ScopeStack}

/-- What an open scope has collected at one step of a run is what it had
collected before, and what its registrar was told of since another step. -/
structure TakesIn (m : Machine) (s n : ℕ) (before after : Scope) : Prop where
  registrar : after.registrar = before.registrar
  accessed : ∀ p, p ∈ after.accessed ↔
    p ∈ before.accessed ∨
      ∃ k, s < k ∧ k < n ∧ (run k m).Accesses before.registrar p

theorem takesIn_start (m : Machine) (s : ℕ) (scope : Scope) :
    m.TakesIn s (s + 1) scope scope := by
  refine ⟨rfl, fun p => (or_iff_left ?_).symm⟩
  rintro ⟨k, hsk, hks, -⟩
  omega

theorem TakesIn.succ {before after : Scope} (lt : s < n)
    (h : m.TakesIn s n before after) :
    m.TakesIn s (n + 1) before ((run n m).noted after) := by
  refine ⟨(registrar_noted after).trans h.registrar, fun p => ?_⟩
  rw [mem_noted_iff, accesses_succ_iff lt, h.accessed, h.registrar,
    or_left_comm]

/-- Between two steps of a run, the scopes of a stack stay open below those
that are opened meanwhile, and take in what is read. -/
structure KeepsOpen (m : Machine) (rest : List Task) (base : ScopeStack)
    (s n : ℕ) (front : List Task) (inner outer : ScopeStack) : Prop where
  todo : (run n m).todo = front ++ rest
  scopes : (run n m).world.scopes = inner ++ outer
  length : inner.length = front.countP Task.closesScope
  takesIn : List.Forall₂ (m.TakesIn s n) base outer

theorem KeepsOpen.step {base outer : ScopeStack} (lt : s < n)
    (h : m.KeepsOpen rest base s n (t :: front) inner outer) :
    ∃ front inner outer,
      m.KeepsOpen rest base s (n + 1) front inner outer := by
  obtain ⟨pushed, inner, htodo, hscopes, hlength⟩ :=
    enclosed_step h.todo h.scopes h.length
  rw [← run_succ] at htodo hscopes
  refine ⟨_, inner, _, htodo, hscopes, hlength, ?_⟩
  rw [List.forall₂_map_right_iff]
  exact h.takesIn.imp fun before after => TakesIn.succ lt

/-- When all that was left above some tasks is done, the scopes are those that
were open below, and they have taken in what was read meanwhile. -/
theorem takesIn_of_returns {base : ScopeStack} {i : ℕ} (lt : s < i)
    (todo : (run (s + 1) m).todo = front ++ rest)
    (scopes : (run (s + 1) m).world.scopes = inner ++ base)
    (length : inner.length = front.countP Task.closesScope)
    (above : ∀ k, s + 1 ≤ k → k < i →
      ∃ ahead, ahead ≠ [] ∧ (run k m).todo = ahead ++ rest)
    (returns : (run i m).todo = rest) :
    List.Forall₂ (m.TakesIn s i) base (run i m).world.scopes := by
  have hkeeps (k : ℕ) (hsk : s + 1 ≤ k) (hki : k ≤ i) :
      ∃ front inner outer, m.KeepsOpen rest base s k front inner outer := by
    induction hsk with
    | refl =>
      exact ⟨front, inner, base, todo, scopes, length,
        List.forall₂_same.mpr fun scope _ => m.takesIn_start s scope⟩
    | @step k hsk ih =>
      obtain ⟨front, inner, outer, h⟩ := ih (by omega)
      obtain ⟨x, hx, hahead⟩ := above k hsk hki
      have hfront := List.append_cancel_right (h.todo.symm.trans hahead)
      obtain ⟨t, front, rfl⟩ := List.exists_cons_of_ne_nil (hfront ▸ hx)
      exact h.step hsk
  obtain ⟨front, inner, outer, h⟩ := hkeeps i lt (Nat.le_refl i)
  have hfront : [] = front :=
    List.append_cancel_right (returns.symm.trans h.todo)
  subst hfront
  obtain rfl := List.length_eq_zero_iff.mp h.length
  rw [h.scopes]
  exact h.takesIn

/-- When its task has its turn, a scope has collected the properties that its
registrar was told of since the scope was opened. -/
theorem collected_of_call {reaction : Reaction} {i : ℕ} (lt : s < i)
    (scopes : ∃ outer, (run (s + 1) m).world.scopes = ⟨r, []⟩ :: outer)
    (todo : (run (s + 1) m).todo = front ++ .leaveScope r reaction :: rest)
    (count : front.countP Task.closesScope = 0)
    (ahead : ∀ k, s + 1 ≤ k → k < i → ∃ ahead, ahead ≠ [] ∧
      (run k m).todo = ahead ++ .leaveScope r reaction :: rest)
    (turn : (run i m).todo = .leaveScope r reaction :: rest) (p : String) :
    p ∈ (run i m).world.scopes.collected ↔
      ∃ k, s < k ∧ k < i ∧ (run k m).Accesses r p := by
  obtain ⟨outer, hscopes⟩ := scopes
  have hscopes : (run (s + 1) m).world.scopes = [] ++ ⟨r, []⟩ :: outer :=
    hscopes
  have htakes := takesIn_of_returns lt todo hscopes count.symm ahead turn
  obtain ⟨scope, outer', hscope, -, hafter⟩ :=
    List.forall₂_cons_left_iff.mp htakes
  rw [hafter]
  exact (hscope.accessed p).trans (or_iff_right List.not_mem_nil)

end Machine
end LiveProperty
