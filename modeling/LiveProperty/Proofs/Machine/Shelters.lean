import LiveProperty.Proofs.Machine.Invalidations
import LiveProperty.Proofs.Machine.Rosters

/-!
# Shelters

What is done on behalf of a bridge waits above a task that keeps the bridge
alive: the end of the call that reads it, or of the invalidation.  So when
nobody keeps a bridge alive, nothing is left to be done for it, and nobody
finds it again.
-/

namespace LiveProperty

/-- A part of an invalidation of a bridge, or of a read of its cache. -/
def Task.ActsFor (b : Bridge) : Task → Prop
  | .readKey r | .settleKey r _ _ => b = .key r
  | .readQuery q | .askRecords _ _ (.bridge q _) | .receive _ _ (.bridge q _)
  | .settleQuery q _ _ => b = .query q
  | t => t.Relays b

/-- A task keeps an object alive while it waits. -/
def Task.Roots (o : Object) (t : Task) : Prop :=
  o ∈ t.held ∨ o ∈ t.kept

theorem Bridge.object_injective {b d : Bridge} (h : b.object = d.object) :
    b = d := by
  cases b <;> cases d <;> cases h <;> rfl

theorem Bridge.object_ne_owner (b : Bridge) (o : Owner) :
    b.object ≠ o.object := by
  cases b <;> cases o <;> simp [Bridge.object, Owner.object]

namespace Machine

variable {m : Machine} {b : Bridge}

theorem isRooted_iff {o : Object} :
    m.isRooted o ↔ m.world.isNamed o ∨ ∃ t ∈ m.todo, t.Roots o := by
  simp only [isRooted, isHeld, Task.Roots, Bool.or_eq_true, List.any_eq_true,
    List.contains_iff_mem, and_or_left, exists_or, or_assoc]

/-- What is done for a bridge waits above what keeps the bridge alive.  Only
the beginning of an invalidation may be next without that, if the bridge is
alive. -/
structure Sheltered (m : Machine) (b : Bridge) : Prop where
  below : ∀ t rest, t :: rest <:+ m.todo → t.ActsFor b → t ≠ .relay b →
    ∃ x ∈ rest, x.Roots b.object
  first : ∀ rest, .relay b :: rest <:+ m.todo →
    .relay b :: rest = m.todo ∧ m.isRooted b.object

/-- Nothing is left to be done for a bridge that nobody keeps alive. -/
theorem Sheltered.not_actsFor (h : m.Sheltered b)
    (dropped : ¬ m.isRooted b.object) {t : Task} (ht : t ∈ m.todo) :
    ¬ t.ActsFor b := by
  intro hacts
  obtain ⟨front, rest, htodo⟩ := List.append_of_mem ht
  have hsuffix : t :: rest <:+ m.todo := ⟨front, htodo.symm⟩
  by_cases hrelay : t = .relay b
  · subst hrelay
    exact dropped (h.first rest hsuffix).2
  · obtain ⟨x, hx, hroots⟩ := h.below t rest hsuffix hacts hrelay
    exact dropped (isRooted_iff.mpr (Or.inr
      ⟨x, hsuffix.subset (List.mem_cons_of_mem t hx), hroots⟩))

/-! ## Steps -/

theorem not_actsFor_accessTasks {d : Bridge} {t : Task}
    (ht : t ∈ m.accessTasks d) : ¬ t.ActsFor b := by
  unfold accessTasks at ht
  split at ht
  · rcases List.mem_cons.mp ht with rfl | ht
    · exact id
    · rw [List.mem_singleton.mp ht]
      exact id
  · exact absurd ht List.not_mem_nil

theorem not_actsFor_readTasks {w : World} {s : Ref .store} {t : Task}
    (ht : t ∈ readTasks w s) : ¬ t.ActsFor b := by
  obtain ⟨plan, -, rfl⟩ := by simpa [readTasks] using ht
  exact id

/-- A command that acts for a bridge holds it. -/
theorem Begins.mem_held {bound : ℕ} {begun : Begun} {t : Task}
    (h : Begins m bound begun) (ht : t ∈ begun.tasks) (acts : t.ActsFor b) :
    b.object ∈ begun.held := by
  have hlast (tasks : List Task) {x : Task} (ht : t ∈ tasks ++ [x])
      (other : ∀ y ∈ tasks, ¬ y.ActsFor b) : x.ActsFor b := by
    rcases List.mem_append.mp ht with ht | ht
    · exact absurd acts (other t ht)
    · rwa [← List.mem_singleton.mp ht]
  have hnone {x : Task} (ht : t ∈ [] ++ [x]) : x.ActsFor b :=
    hlast [] ht fun _ hy => absurd hy List.not_mem_nil
  have hrelay {q : Ref .queryBridge} {r : Reply}
      (ht : t ∈ [.relay (.query q), .answer r]) : b = .query q := by
    rcases List.mem_cons.mp ht with rfl | ht
    · exact Eq.symm acts
    · rw [List.mem_singleton.mp ht] at acts
      exact acts.elim
  cases h with
  | getKey r named =>
    obtain rfl : b = .key r := hlast _ ht fun y => not_actsFor_accessTasks
    exact List.mem_singleton.mpr rfl
  | results q named =>
    obtain rfl : b = .query q := hlast _ ht fun y => not_actsFor_accessTasks
    exact List.mem_singleton.mpr rfl
  | refresh q named =>
    rw [hrelay ht]
    exact List.mem_singleton.mpr rfl
  | bindContext q c named namedContext =>
    rw [hrelay ht]
    exact List.mem_cons_self
  | readDefault key =>
    exact (hlast _ ht fun y => not_actsFor_readTasks).elim
  | readToken r next named tracked =>
    have hnext := hlast _ ht fun y => not_actsFor_readTasks
    rcases tracked with rfl | rfl <;> exact hnext.elim
  | observe r apply reaction named small =>
    rcases List.mem_append.mp ht with ht | ht
    · obtain ⟨c, -, rfl⟩ := List.mem_map.mp ht
      exact acts.elim
    · refine (hlast [_] ht fun y hy => ?_).elim
      rw [List.mem_singleton.mp hy]
      exact id
  | atOnce r edits => exact (hnone ht).elim
  | readCache c outcome during mayFail named small =>
    exact (hnone ht).elim
  | fetchRows c rowType descriptor named =>
    exact (hnone ht).elim
  | _ =>
    refine (hlast [_] ht fun y hy => ?_).elim
    rw [List.mem_singleton.mp hy]
    exact id

/-- What acts for a bridge, and does not begin its invalidation, follows from
what does, or from a command. -/
theorem actsFor_of_follows {t x : Task} (h : Follows m t x)
    (acts : x.ActsFor b) (part : x ≠ .relay b) :
    t.ActsFor b ∨ ∃ c nested, t = .perform c nested := by
  cases h with
  | begun c nested left => exact Or.inr ⟨c, nested, rfl⟩
  | relay d audience event concerns =>
    obtain rfl : d = b := acts
    exact absurd rfl part
  | enclose d => exact Or.inl acts
  | run envelope p body => cases body <;> exact Or.inl acts
  | mutate binding d => exact Or.inl acts
  | invalidateUnbound d => exact Or.inl acts
  | forwardMutate k property i r => cases i <;> exact Or.inl acts
  | invalidate owner property i => cases i <;> exact Or.inl acts
  | settleKey r empty => exact Or.inl acts
  | askRecords q c empty resolved => exact Or.inl acts
  | settleMissing q empty resolved => exact Or.inl acts
  | receive c entity purpose => cases purpose <;> exact Or.inl acts
  | settleQuery c records q began => exact Or.inl acts
  | _ => exact acts.elim

/-- A bridge that hears of an event and begins an invalidation is alive. -/
theorem todo_call_of_relay {l : Listener} {event : Event}
    (h : .relay b ∈ (m.call l event).todo) (new : .relay b ∉ m.todo) :
    (m.call l event).todo = .relay b :: m.todo ∧ m.isRooted b.object := by
  have hrelay {d : Bridge} (h : .relay b ∈ .relay d :: m.todo) : b = d := by
    rcases List.mem_cons.mp h with heq | h
    · cases heq
      rfl
    · exact absurd h new
  unfold call at h ⊢
  split at h
  · have hfire {plan : Ref .plan} (h : .relay b ∈ .fire plan :: m.todo) :
        False := by
      rcases List.mem_cons.mp h with heq | h
      · cases heq
      · exact new h
    split at h
    · split at h
      · exact (hfire h).elim
      · exact absurd h new
    · exact (hfire h).elim
  · split at h
    · next r key halive =>
      obtain rfl := hrelay h
      rw [if_pos halive]
      exact ⟨rfl, halive.2⟩
    · exact absurd h new
  · next q change =>
    split at h
    · next halive =>
      rw [if_pos halive]
      unfold hearChange at h ⊢
      split at h
      · next haffects =>
        rw [if_pos haffects]
        split at h <;>
          · obtain rfl := hrelay h
            exact ⟨rfl, halive⟩
      · exact absurd h new
    · exact absurd h new
  · exact absurd h new

/-- An announcement that goes on keeps nothing alive. -/
theorem isRooted_delivering {l : Listener} {audience : List Listener}
    {event : Event} {rest : List Task}
    (h : m.todo = .deliver (l :: audience) event :: rest) (o : Object) :
    (({ m with todo := rest } : Machine).push
      [.deliver audience event]).isRooted o = m.isRooted o := by
  simp [isRooted, isHeld, h, push, Task.held, Task.kept]

/-- What the beginning of an invalidation puts in front keeps the bridge
alive below. -/
theorem todo_relay_keep {rest : List Task} (h : m.todo = .relay b :: rest) :
    ∃ first kept, m.step.todo = first :: .keep (b.object :: kept) :: rest ∧
      (∀ d, first ≠ .relay d) := by
  rw [step_of_todo_cons h]
  exact ⟨_, _, rfl, nofun⟩

/-- A bridge whose invalidation begins next is alive. -/
theorem Sheltered.first_step (h : m.Sheltered b) {rest : List Task}
    (hsuffix : .relay b :: rest <:+ m.step.todo) :
    .relay b :: rest = m.step.todo ∧ m.step.isRooted b.object := by
  cases htodo : m.todo with
  | nil =>
    rw [step_of_todo_nil htodo] at hsuffix ⊢
    exact h.first rest hsuffix
  | cons t below =>
    have hnew : .relay b ∉ below := by
      intro hmem
      obtain ⟨front, back, rfl⟩ := List.append_of_mem hmem
      have hfirst := (h.first back ⟨t :: front, by simp [htodo]⟩).1
      have hlength := congrArg List.length hfirst
      simp only [htodo, List.length_cons, List.length_append] at hlength
      omega
    obtain ⟨pushed, hpushed, hfollows⟩ := todo_step htodo
    have hmem : .relay b ∈ pushed := by
      have hmem := hsuffix.subset List.mem_cons_self
      rw [hpushed] at hmem
      exact (List.mem_append.mp hmem).resolve_right hnew
    -- It is enough that nothing stands in front of it.
    have hfirst {back : List Task} (hstep : m.step.todo = .relay b :: back)
        (hback : .relay b ∉ back) : .relay b :: rest = m.step.todo := by
      obtain ⟨front, hfront⟩ := hsuffix
      rw [hstep] at hfront ⊢
      cases front with
      | nil => exact hfront
      | cons x front =>
        obtain ⟨-, hfront⟩ := List.cons.inj hfront
        exact absurd (hfront ▸ by simp) hback
    cases hfollows _ hmem with
    | begun c nested left =>
      cases hbegin : begin { m with todo := below } c.action with
      | error r =>
        rw [step_of_refused htodo hbegin] at hsuffix
        have hmem := hsuffix.subset List.mem_cons_self
        simp [push, hnew] at hmem
      | ok begun =>
        have hbegins := begins_of_begin hbegin
        have htasks := todo_of_begin htodo hbegin
        have hmem : .relay b ∈ begun.tasks := by
          have hmem := hsuffix.subset List.mem_cons_self
          rw [htasks] at hmem
          simpa [hnew] using hmem
        obtain ⟨q, rfl, heq⟩ := Begins.tasks_of_relay hbegins hmem
        rw [heq] at htasks
        refine ⟨hfirst htasks (by simp [hnew]), isRooted_iff.mpr (Or.inr ?_)⟩
        refine ⟨.finish c.label begun.held nested, by simp [htasks], Or.inl ?_⟩
        exact Begins.mem_held hbegins hmem rfl
    | relay d audience event concerns =>
      have hstep : m.step = ({ m with todo := below }.push
          [.deliver audience event]).call b.listener event :=
        step_of_todo_cons htodo
      have hpushed' : .relay b ∉ (({ m with todo := below } : Machine).push
          [.deliver audience event]).todo := by simp [push, hnew]
      have hmem' := hsuffix.subset List.mem_cons_self
      rw [hstep] at hmem'
      obtain ⟨htasks, hrooted⟩ := todo_call_of_relay hmem' hpushed'
      rw [← hstep] at htasks
      refine ⟨hfirst htasks hpushed', ?_⟩
      rw [isRooted_iff] at hrooted ⊢
      have hnames : m.step.world.names = m.world.names := by
        rw [hstep]
        exact (sameNames_call b.listener event).1
      rw [World.isNamed, hnames, htasks]
      refine hrooted.imp_right ?_
      rintro ⟨x, hx, hroots⟩
      exact ⟨x, List.mem_cons_of_mem _ hx, hroots⟩

theorem mem_of_append_eq {front back tasks : List Task} {t last : Task}
    (h : front ++ t :: back = tasks ++ [last]) (ne : t ≠ last) :
    last ∈ back := by
  rcases List.append_eq_append_iff.mp h with ⟨x, -, hx⟩ | ⟨x, -, hx⟩
  · cases x with
    | nil => exact absurd (List.cons.inj hx).1 ne
    | cons y x =>
      obtain ⟨-, rfl⟩ := List.cons.inj hx
      simp
  · cases x with
    | nil => exact absurd (List.cons.inj hx).1.symm ne
    | cons y x => simpa using congrArg List.length hx

theorem Sheltered.below_step (h : m.Sheltered b) {t : Task}
    {rest : List Task} (hsuffix : t :: rest <:+ m.step.todo)
    (acts : t.ActsFor b) (part : t ≠ .relay b) :
    ∃ x ∈ rest, x.Roots b.object := by
  cases htodo : m.todo with
  | nil =>
    rw [step_of_todo_nil htodo] at hsuffix
    exact h.below t rest hsuffix acts part
  | cons parent below =>
    obtain ⟨pushed, hpushed, hfollows⟩ := todo_step htodo
    rw [hpushed] at hsuffix
    rcases waits_or_put hsuffix with hold | ⟨front, back, hback, rfl⟩
    · exact h.below t rest
        (htodo ▸ hold.trans (List.suffix_cons parent below)) acts part
    by_cases hbegins : parent = .relay b
    · subst hbegins
      obtain ⟨first, kept, hput, -⟩ := todo_relay_keep htodo
      have heq : pushed = [first, .keep (b.object :: kept)] :=
        List.append_cancel_right (hpushed.symm.trans hput)
      refine ⟨.keep (b.object :: kept), List.mem_append_left _ ?_,
        Or.inr List.mem_cons_self⟩
      rw [hback] at heq
      rcases front with _ | ⟨x, _ | ⟨y, front⟩⟩
      · obtain ⟨-, rfl⟩ := List.cons.inj heq
        exact List.mem_singleton.mpr rfl
      · cases heq
        exact acts.elim
      · simpa using congrArg List.length heq
    rcases actsFor_of_follows (hfollows t (hback ▸ by simp)) acts part with
      hparent | ⟨c, nested, rfl⟩
    · obtain ⟨x, hx, hroots⟩ :=
        h.below parent below (htodo ▸ List.suffix_rfl) hparent hbegins
      exact ⟨x, List.mem_append_right _ hx, hroots⟩
    · cases hbegin : begin { m with todo := below } c.action with
      | error r =>
        have hstep := step_of_refused htodo hbegin
        have heq : pushed = [.answer (.refused r), .finish c.label [] nested] :=
          List.append_cancel_right (hpushed.symm.trans (by rw [hstep]; rfl))
        have hmem : t ∈ pushed := hback ▸ by simp
        rw [heq, List.mem_pair] at hmem
        rcases hmem with rfl | rfl <;> exact acts.elim
      | ok begun =>
        have hbegins := begins_of_begin hbegin
        have heq : pushed = begun.tasks ++
            [.finish c.label begun.held nested] := by
          refine List.append_cancel_right (?_ : _ ++ below = _ ++ below)
          rw [← hpushed, todo_of_begin htodo hbegin]
          simp
        have hmem : t ∈ begun.tasks := by
          have hmem : t ∈ pushed := hback ▸ by simp
          rw [heq, List.mem_append, List.mem_singleton] at hmem
          rcases hmem with hmem | rfl
          · exact hmem
          · exact acts.elim
        refine ⟨.finish c.label begun.held nested,
          List.mem_append_left _ ?_, Or.inl (Begins.mem_held hbegins hmem acts)⟩
        -- The end of the command is the last of its tasks.
        refine mem_of_append_eq (hback.symm.trans heq) ?_
        rintro rfl
        exact acts.elim

theorem Sheltered.step (h : m.Sheltered b) : m.step.Sheltered b :=
  ⟨fun _ _ => h.below_step, fun _ => h.first_step⟩

theorem sheltered_run (commands : List Command) (b : Bridge) (n : ℕ) :
    (run n (ofCommands commands)).Sheltered b := by
  refine run_induction (P := fun m => m.Sheltered b) ⟨?_, ?_⟩
    (fun n h => h.step) n
  · intro t rest hsuffix acts
    obtain ⟨c, -, rfl⟩ := List.mem_map.mp (hsuffix.subset List.mem_cons_self)
    exact acts.elim
  · intro rest hsuffix
    obtain ⟨c, -, hc⟩ := List.mem_map.mp (hsuffix.subset List.mem_cons_self)
    cases hc

/-- Nobody comes to keep a bridge alive that nobody keeps alive. -/
theorem isRooted_of_step (has : m.world.Has b.object)
    (calm : .relay b ∉ m.todo) (rooted : m.step.isRooted b.object) :
    m.isRooted b.object := by
  rw [isRooted, Bool.or_eq_true] at rooted ⊢
  rcases rooted with held | kept
  · exact Or.inl (isHeld_of_step has held)
  right
  obtain ⟨x, hx, ho⟩ := List.any_eq_true.mp kept
  rw [List.contains_iff_mem] at ho
  rw [List.any_eq_true]
  cases htodo : m.todo with
  | nil =>
    rw [step_of_todo_nil htodo, htodo] at hx
    exact absurd hx List.not_mem_nil
  | cons t rest =>
    obtain ⟨pushed, hpushed, hfollows⟩ := todo_step htodo
    rw [hpushed] at hx
    rcases List.mem_append.mp hx with hx | hx
    · exfalso
      cases hfollows x hx with
      | begun c nested left =>
        cases left with
        | keepBound d binding live =>
          exact b.object_ne_owner _ (List.mem_singleton.mp ho)
        | _ => exact absurd ho List.not_mem_nil
      | keepBridge d =>
        rcases List.mem_cons.mp ho with heq | ho
        · obtain rfl := Bridge.object_injective heq
          exact calm (htodo ▸ List.mem_cons_self)
        · obtain ⟨binding, -, heq⟩ := by simpa using ho
          exact b.object_ne_owner _ heq.symm
      | keepContext c entity purpose =>
        have heq := List.mem_singleton.mp ho
        cases b <;> cases heq
      | _ => exact absurd ho List.not_mem_nil
    · exact ⟨x, List.mem_cons_of_mem t hx, by rwa [List.contains_iff_mem]⟩

end Machine
end LiveProperty
