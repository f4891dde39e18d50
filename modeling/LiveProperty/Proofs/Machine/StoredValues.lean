import LiveProperty.Proofs.Machine.References

/-!
# What a store holds

A value under a key of a store changes only when the key is written.
-/

namespace LiveProperty

section

variable {s : Ref .store} {key : String}

theorem Edit.storedValue {todo : List Task} {bound : ℕ}
    {loose : Object → Prop} {w w' : World}
    (h : Edit todo bound loose w w') (has : s.index < w.stores.next) :
    w'.storedValue s key = w.storedValue s key := by
  have hadd (store : Store) :
      ((w.stores.add store).get s).find? key = (w.stores.get s).find? key :=
    congrArg (fun x => Store.find? x key) (Pool.get_add_of_lt store has)
  cases h with
  | letGo o free known =>
    rcases w.letGo_eq o with heq | ⟨x, -, heq⟩
    · rw [heq]
    · rw [heq]
      rfl
  | newStore name suite onRead small => exact hadd _
  | resetDefaultStore => exact hadd _
  | _ => rfl

theorem Edits.storedValue {todo : List Task} {bound : ℕ}
    {loose : Object → Prop} {w w' : World}
    (h : Edits todo bound loose w w') (has : s.index < w.stores.next) :
    w'.storedValue s key = w.storedValue s key := by
  induction h with
  | refl => rfl
  | tail hedits hedit ih =>
    exact (hedit.storedValue (Edits.has hedits (o := .store s) has)).trans ih

/-- What a store holds under a key changes only when the key is written. -/
theorem Effect.storedValue {m : Machine} {t : Task} {w : World}
    (h : Effect m t w) (has : s.index < m.world.stores.next)
    (other : ∀ value, t ≠ .write s key value) :
    w.storedValue s key = m.world.storedValue s key := by
  cases h with
  | edits t loose known edits => exact edits.storedValue has
  | adopt q audience change origin alive affects =>
    unfold World.adopt
    split <;> rfl
  | leaveScope r reaction =>
    simp only [World.leaveScope]
    split <;> rfl
  | invalidate b => cases b <;> rfl
  | write d k value =>
    by_cases hd : s = d
    · subst hd
      have hkey : key ≠ k := fun heq => other value (by rw [heq])
      have hget : (m.world.writeValue s k value).stores.get s =
          (m.world.stores.get s).write k value := Pool.get_modify_self _
      exact (congrArg (fun x => Store.find? x key) hget).trans
        (Store.find?_write_of_ne _ hkey _)
    · exact congrArg (fun x => Store.find? x key) (Pool.get_modify_of_ne _ hd)
  | _ => rfl

end

namespace Machine

variable {m : Machine}

/-- The next task writes a key of a store. -/
def Writes (m : Machine) (s : Ref .store) (key : String) : Prop :=
  ∃ value rest, m.todo = .write s key value :: rest

theorem storedValue_step {s : Ref .store} {key : String}
    (has : m.world.Has (.store s)) (unwritten : ¬ m.Writes s key) :
    m.step.world.storedValue s key = m.world.storedValue s key := by
  cases htodo : m.todo with
  | nil => rw [step_of_todo_nil htodo]
  | cons t rest =>
    apply (effect_step htodo).storedValue has
    rintro value rfl
    exact unwritten ⟨value, rest, htodo⟩

end Machine
end LiveProperty
