import LiveProperty.Proofs.Machine.References

/-!
# The rows of a context

A context's rows change only together with a change that is not saved yet,
and only a save forgets such changes.  A context that was told to fail some
of its fetches does not fail any other.
-/

namespace LiveProperty

namespace Context

variable {c c' : Context}

/-- A context whose fetches do not fail. -/
def Answers (c : Context) : Prop :=
  ∀ records, c.outcome records = .ok records

/-- What a fetch gets are the rows that were taken for it, and after a fetch
that did not fail none does. -/
theorem answers_of_outcome {records rows : List Record}
    (h : c.outcome records = .ok rows) : c.Answers ∧ rows = records := by
  unfold outcome at h
  split at h
  · cases h
  · next hnone =>
    refine ⟨?_, (Except.ok.inj h).symm⟩
    intro x
    unfold outcome
    split
    · next hsome => exact absurd hsome (hnone _ _ _ _)
    · rfl

theorem Answers.of_supervision_eq (h : c.Answers)
    (same : c'.supervision = c.supervision) : c'.Answers := by
  intro records
  have houtcome := h records
  unfold outcome at houtcome ⊢
  rw [same]
  exact houtcome

theorem Answers.afterFetch (h : c.Answers) : c.afterFetch.Answers := by
  have hoptional : ∀ s, c.supervision = some s → s.failures = 0 := by
    intro s hs
    by_contra hne
    obtain ⟨k, hk⟩ := Nat.exists_eq_succ_of_ne_zero hne
    obtain ⟨label, onFetch, failures, error⟩ := s
    obtain rfl : failures = k + 1 := hk
    have houtcome := h []
    simp [outcome, hs] at houtcome
  apply h.of_supervision_eq
  cases hs : c.supervision with
  | none => simp [Context.afterFetch, hs]
  | some s =>
    have hzero := hoptional s hs
    obtain ⟨label, onFetch, failures, error⟩ := s
    obtain rfl : failures = 0 := hzero
    simp [Context.afterFetch, hs]

end Context

namespace World

variable {w w' w'' : World} {c : Ref .context} {entity : String}

/-- A context has a change of an entity that it did not announce yet. -/
def Unsaved (w : World) (c : Ref .context) (entity : String) : Prop :=
  ∃ x ∈ (w.memory c).unsaved, x.entity = entity

/-- The rows of an entity change only together with an unsaved change. -/
structure Keeps (w w' : World) (c : Ref .context) (entity : String) :
    Prop where
  unsaved : w.Unsaved c entity → w'.Unsaved c entity
  rows : (w'.memory c).records entity = (w.memory c).records entity ∨
    w'.Unsaved c entity

theorem keeps_of_memory_eq (h : w'.memory c = w.memory c) :
    w.Keeps w' c entity := by
  refine ⟨?_, Or.inl (by rw [h])⟩
  unfold Unsaved
  rw [h]
  exact id

theorem Keeps.trans (h : w.Keeps w' c entity) (h' : w'.Keeps w'' c entity) :
    w.Keeps w'' c entity := by
  refine ⟨h'.unsaved ∘ h.unsaved, ?_⟩
  rcases h'.rows with heq | hunsaved
  · rcases h.rows with heq' | hunsaved
    · exact Or.inl (heq.trans heq')
    · exact Or.inr (h'.unsaved hunsaved)
  · exact Or.inr hunsaved

/-- A written row is an unsaved change of its entity, and leaves the rows of
the others alone. -/
theorem keeps_of_write {kind : ChangeKind} {written : String} {t : Table}
    (unsaved : (w'.memory c).unsaved =
      ((w.memory c).write kind written t).unsaved)
    (table : (w'.memory c).table entity =
      ((w.memory c).write kind written t).table entity) :
    w.Keeps w' c entity := by
  constructor
  · rintro ⟨x, hx, rfl⟩
    exact ⟨x, unsaved ▸ List.mem_append_left _ hx, rfl⟩
  · by_cases heq : entity = written
    · right
      refine ⟨⟨kind, written⟩, ?_, heq.symm⟩
      rw [unsaved]
      exact List.mem_append_right _ (List.mem_singleton.mpr rfl)
    · left
      rw [MemoryContext.records, table, MemoryContext.table_write, if_neg heq,
        MemoryContext.records]

theorem memory_modifyMemory_self (w : World) (c : Ref .context)
    (f : MemoryContext → MemoryContext) :
    (w.modifyMemory c f).memory c = f (w.memory c) :=
  congrArg Context.memory (Pool.get_modify_self _)

theorem memory_modifyMemory_of_ne (w : World) {c d : Ref .context}
    (h : c ≠ d) (f : MemoryContext → MemoryContext) :
    (w.modifyMemory d f).memory c = w.memory c :=
  congrArg Context.memory (Pool.get_modify_of_ne _ h)

end World

section

variable {todo : List Task} {bound : ℕ} {loose : Object → Prop}
  {w w' : World} {c : Ref .context}

/-- Edits write rows, and save nothing. -/
theorem Edit.keeps (h : Edit todo bound loose w w')
    (has : c.index < w.contexts.next) (entity : String) :
    w.Keeps w' c entity := by
  -- What a context gets to do with a write is to be compared with it.
  have hwrite {d : Ref .context} {kind : ChangeKind} {written : String}
      {t : Table} {f : MemoryContext → MemoryContext} {x : Happening}
      (unsaved : (f (w.memory d)).unsaved =
        ((w.memory d).write kind written t).unsaved)
      (table : ∀ e, (f (w.memory d)).table e =
        ((w.memory d).write kind written t).table e) :
      w.Keeps ((w.modifyMemory d f).tell x) c entity := by
    by_cases hc : c = d
    · subst hc
      have hself := w.memory_modifyMemory_self c f
      exact World.keeps_of_write ((congrArg _ hself).trans unsaved)
        ((congrArg (fun m => MemoryContext.table m entity) hself).trans
          (table entity))
    · exact World.keeps_of_memory_eq (w.memory_modifyMemory_of_ne hc f)
  have hadd (context : Context) :
      Context.memory ((w.contexts.add context).get c) = w.memory c :=
    congrArg Context.memory (Pool.get_add_of_lt context has)
  cases h with
  | letGo o free known =>
    rcases w.letGo_eq o with heq | ⟨x, -, heq⟩
    · rw [heq]
      exact World.keeps_of_memory_eq rfl
    · rw [heq]
      exact World.keeps_of_memory_eq rfl
  | insertRow d rowType content => exact hwrite rfl fun e => rfl
  | updateRow d rowType id content holds =>
    have hupdate : (w.memory d).update rowType id content = _ := if_pos holds
    exact hwrite (congrArg MemoryContext.unsaved hupdate)
      fun e => congrArg (fun m => MemoryContext.table m e) hupdate
  | deleteRow d rowType id holds =>
    have hdelete : (w.memory d).delete rowType id = _ := if_pos holds
    exact hwrite (congrArg MemoryContext.unsaved hdelete)
      fun e => congrArg (fun m => MemoryContext.table m e) hdelete
  | newContext => exact World.keeps_of_memory_eq (hadd _)
  | newSupervisedContext => exact World.keeps_of_memory_eq (hadd _)
  | _ => exact World.keeps_of_memory_eq rfl

theorem Edits.keeps (h : Edits todo bound loose w w')
    (has : c.index < w.contexts.next) (entity : String) :
    w.Keeps w' c entity := by
  induction h with
  | refl => exact World.keeps_of_memory_eq rfl
  | tail hedits hedit ih =>
    exact ih.trans (hedit.keeps (Edits.has hedits (o := .context c) has) entity)

theorem Edit.supervision (h : Edit todo bound loose w w')
    (has : c.index < w.contexts.next) :
    (w'.contexts.get c).supervision = (w.contexts.get c).supervision := by
  cases h with
  | letGo o free known =>
    rcases w.letGo_eq o with heq | ⟨x, -, heq⟩
    · rw [heq]
    · rw [heq]
      rfl
  | insertRow | updateRow | deleteRow =>
    exact Pool.apply_get_modify (g := Context.supervision) fun _ => rfl
  | newContext | newSupervisedContext =>
    exact congrArg Context.supervision (Pool.get_add_of_lt _ has)
  | _ => rfl

theorem Edits.supervision (h : Edits todo bound loose w w')
    (has : c.index < w.contexts.next) :
    (w'.contexts.get c).supervision = (w.contexts.get c).supervision := by
  induction h with
  | refl => rfl
  | tail hedits hedit ih =>
    exact (hedit.supervision (Edits.has hedits (o := .context c) has)).trans ih

/-- A context that does not fail never fails again. -/
theorem Effect.answers {m : Machine} {t : Task} (h : Effect m t w)
    (has : c.index < m.world.contexts.next)
    (answers : (m.world.contexts.get c).Answers) :
    (w.contexts.get c).Answers := by
  cases h with
  | edits t loose known edits =>
    exact answers.of_supervision_eq (edits.supervision has)
  | save command nested d count unsaved =>
    exact answers.of_supervision_eq
      (Pool.apply_get_modify (g := Context.supervision) fun _ => rfl)
  | adopt q audience change origin alive affects =>
    unfold World.adopt
    split <;> exact answers
  | leaveScope r reaction =>
    simp only [World.leaveScope]
    split <;> exact answers
  | invalidate b => cases b <;> exact answers
  | receive d records purpose =>
    by_cases hd : c = d
    · subst hd
      have hself : (m.world.contexts.modify c Context.afterFetch).get c =
          (m.world.contexts.get c).afterFetch := Pool.get_modify_self _
      exact hself ▸ answers.afterFetch
    · exact answers.of_supervision_eq
        (congrArg Context.supervision (Pool.get_modify_of_ne _ hd))
  | _ => exact answers

end

namespace Machine

theorem answers_run {m : Machine} {c : Ref .context} {i j : ℕ} (le : i ≤ j)
    (has : (run i m).world.Has (.context c))
    (answers : ((run i m).world.contexts.get c).Answers) :
    ((run j m).world.contexts.get c).Answers := by
  induction j, le using Nat.le_induction with
  | base => exact answers
  | succ j le ih =>
    rw [run_succ]
    cases htodo : (run j m).todo with
    | nil => rwa [step_of_todo_nil htodo]
    | cons t rest => exact (effect_step htodo).answers (has_run le has) ih

end Machine

end LiveProperty
