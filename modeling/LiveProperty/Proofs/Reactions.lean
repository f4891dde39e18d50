import LiveProperty.Proofs.Observations
import Mathlib.Data.Nat.Count

/-!
# Reactions

A registrar that is told of a change lets the invalidation run, counts the
change and calls the observers that it fires.  Any of this may call the
registrar again.  Still each observer is fired once, by the first change of
one of its properties that is counted after it was registered: an observer
that a reaction registers comes too late for the change that caused the
reaction.  `fires_once` says this, and what the registrar counts meanwhile.
-/

namespace LiveProperty
namespace Machine

variable {m : Machine} {r : Ref .registrar} {i c n : ℕ} {p : String}
  {o : Observer Reaction}

/-- The change that is counted at one step fires the observer that was
registered at another. -/
def Fires (m : Machine) (r : Ref .registrar) (i c : ℕ) : Prop :=
  ∃ p o, (run c m).Counts r p ∧ (i, o) ∈ m.fired r p c

open Classical in
/-- How many changes of a property a registrar has counted before a step. -/
noncomputable def changesCounted (m : Machine) (r : Ref .registrar)
    (p : String) (n : ℕ) : ℕ :=
  Nat.count (fun c => (run c m).Counts r p) n

open Classical in
/-- How many reads of a property a registrar has counted before a step. -/
noncomputable def readsCounted (m : Machine) (r : Ref .registrar)
    (p : String) (n : ℕ) : ℕ :=
  Nat.count (fun k => (run k m).Accesses r p) n

open Classical in
/-- How many observers were registered before a step. -/
noncomputable def registered (m : Machine) (r : Ref .registrar) (n : ℕ) : ℕ :=
  Nat.count (fun i => ∃ o, (run i m).Registers r o) n

open Classical in
/-- How many observers were fired before a step. -/
noncomputable def taken (m : Machine) (r : Ref .registrar) (n : ℕ) : ℕ :=
  Nat.count (fun i => ∃ c < n, m.Fires r i c) n

/-! ## Which observers a change fires -/

theorem Fires.exists_registers (h : m.Fires r i c) :
    i < c ∧ ∃ o, (run i m).Registers r o := by
  obtain ⟨p, o, -, hfired⟩ := h
  obtain ⟨hic, hregisters, -⟩ := mem_observers_iff.mp (mem_fired_iff.mp hfired).1
  exact ⟨hic, o, hregisters⟩

/-- An observer is fired by the first change of one of its properties that is
counted after it was registered. -/
theorem Registers.fires_iff (registers : (run i m).Registers r o) :
    m.Fires r i c ↔
      i < c ∧ (∃ p ∈ o.properties, (run c m).Counts r p) ∧
        ∀ k, i < k → k < c → ∀ p ∈ o.properties, ¬ (run k m).Counts r p := by
  constructor
  · rintro ⟨p, o', hcounts, hfired⟩
    obtain ⟨hwaits, hp⟩ := mem_fired_iff.mp hfired
    obtain ⟨hic, hregisters, hquiet⟩ := mem_observers_iff.mp hwaits
    obtain rfl := hregisters.unique registers
    exact ⟨hic, ⟨p, hp, hcounts⟩, hquiet⟩
  · rintro ⟨hic, ⟨p, hp, hcounts⟩, hquiet⟩
    exact ⟨p, o, hcounts,
      mem_fired_iff.mpr ⟨mem_observers_iff.mpr ⟨hic, registers, hquiet⟩, hp⟩⟩

theorem Fires.unique {d : ℕ} (h : m.Fires r i c) (h' : m.Fires r i d) :
    c = d := by
  obtain ⟨-, o, registers⟩ := h.exists_registers
  obtain ⟨hic, ⟨p, hp, hcounts⟩, hquiet⟩ := registers.fires_iff.mp h
  obtain ⟨hid, ⟨q, hq, hcounts'⟩, hquiet'⟩ := registers.fires_iff.mp h'
  rcases Nat.lt_trichotomy c d with hlt | rfl | hlt
  · exact absurd hcounts (hquiet' c hic hlt p hp)
  · rfl
  · exact absurd hcounts' (hquiet d hid hlt q hq)

/-- An observer waits until it is fired. -/
theorem mem_observers_iff_not_fired :
    (i, o) ∈ m.observers r n ↔
      i < n ∧ (run i m).Registers r o ∧ ∀ c < n, ¬ m.Fires r i c := by
  classical
  rw [mem_observers_iff]
  refine and_congr_right fun _ => and_congr_right fun registers => ?_
  constructor
  · intro quiet c hcn hfires
    obtain ⟨hic, ⟨p, hp, hcounts⟩, -⟩ := registers.fires_iff.mp hfires
    exact quiet c hic hcn p hp hcounts
  · intro unfired c hic hcn p hp hcounts
    have hsome : ∃ k, i < k ∧ ∃ q ∈ o.properties, (run k m).Counts r q :=
      ⟨c, hic, p, hp, hcounts⟩
    obtain ⟨hik, hfirst⟩ := Nat.find_spec hsome
    have hle := Nat.find_min' hsome ⟨hic, p, hp, hcounts⟩
    refine unfired (Nat.find hsome) (by omega) (registers.fires_iff.mpr ?_)
    exact ⟨hik, hfirst, fun l hil hlt q hq hcounts' =>
      Nat.find_min hsome hlt ⟨hil, q, hq, hcounts'⟩⟩

/-! ## Reactions -/

theorem Reacts.exists_fires {j : ℕ} (h : m.Reacts r i j) :
    ∃ c < j, m.Fires r i c := by
  obtain ⟨c, p, o, before, after, below, hcounts, hfired, hwaits⟩ := h
  exact ⟨c, hwaits.lt, p, o, ⟨below, hcounts⟩, hfired ▸ by simp⟩

/-- Whoever is fired reacts once, after the change was counted. -/
theorem Fires.reacts {commands : List Command}
    (h : (ofCommands commands).Fires r i c) :
    ∃ j, c < j ∧ (ofCommands commands).Reacts r i j ∧
      ∀ l, (ofCommands commands).Reacts r i l → l = j := by
  obtain ⟨p, o, ⟨below, counts⟩, hfired⟩ := h
  obtain ⟨hwaits, hp⟩ := mem_fired_iff.mp hfired
  obtain ⟨j, hreacts, hcj, -⟩ := exists_reacts hwaits hp counts
  exact ⟨j, hcj, hreacts, fun l h => hreacts.unique h⟩

/-- Whoever reacts to a change waits from its firing step on, in front of
those that are fired after it. -/
theorem Reacts.exists_waits {j : ℕ} (h : m.Reacts r i j)
    (fires : m.Fires r i c) : ∃ p o before after below,
      (run c m).todo = .countMutation r p :: below ∧
      m.fired r p c = before ++ (i, o) :: after ∧
      m.Waits (.react o.onChange) (reactions after ++ below) c j := by
  obtain ⟨d, p, o, before, after, below, hcounts, hfired, hwaits⟩ := h
  have hd : m.Fires r i d := ⟨p, o, ⟨below, hcounts⟩, hfired ▸ by simp⟩
  obtain rfl := fires.unique hd
  exact ⟨p, o, before, after, below, hcounts, hfired, hwaits⟩

/-- In a list in the order of numbers, a greater number stands behind. -/
theorem exists_after_of_lt {α : Type}
    {xs before after before' after' : List (ℕ × α)} {x y : ℕ × α}
    (ordered : xs.Pairwise fun x y => x.1 < y.1)
    (h : xs = before ++ x :: after) (h' : xs = before' ++ y :: after')
    (lt : x.1 < y.1) : ∃ mid, after = mid ++ y :: after' := by
  rcases List.append_eq_append_iff.mp (h.symm.trans h') with
    ⟨front, -, htail⟩ | ⟨front, -, htail⟩
  · cases front with
    | nil =>
      obtain ⟨rfl, -⟩ := List.cons.inj htail
      exact absurd lt (Nat.lt_irrefl _)
    | cons z front =>
      obtain ⟨-, htail⟩ := List.cons.inj htail
      exact ⟨front, htail⟩
  · rw [h', List.pairwise_append, List.pairwise_cons] at ordered
    have hmem : x ∈ y :: after' := by
      rw [htail]
      exact List.mem_append_right _ List.mem_cons_self
    rcases List.mem_cons.mp hmem with rfl | hmem
    · exact absurd lt (Nat.lt_irrefl _)
    · exact absurd lt (Nat.lt_asymm (ordered.2.1.1 x hmem))

/-- Those that are fired by one change react in the order in which they were
registered. -/
theorem Reacts.lt_of_lt {j k l : ℕ} (fires : m.Fires r i c)
    (fires' : m.Fires r k c) (lt : i < k) (h : m.Reacts r i j)
    (h' : m.Reacts r k l) : j < l := by
  obtain ⟨p, o, before, after, below, hcounts, hfired, hwaits⟩ :=
    h.exists_waits fires
  obtain ⟨p', o', before', after', below', hcounts', hfired', hwaits'⟩ :=
    h'.exists_waits fires'
  cases hcounts.symm.trans hcounts'
  have hordered : (m.fired r p c).Pairwise fun x y => x.1 < y.1 :=
    (pairwise_observers m r c).filter _
  obtain ⟨mid, rfl⟩ := exists_after_of_lt hordered hfired hfired' lt
  -- While the first one waits, more tasks wait than when it is the turn of
  -- the second one.
  apply hwaits.lt_of_length_le hwaits'.lt
  simp only [hwaits'.turn, reactions, List.map_append, List.map_cons,
    List.length_cons, List.length_append]
  omega

/-! ## A change and its firing step -/

/-- The firing step of a change comes when its invalidation has returned. -/
theorem exists_firing {v : Invalidation} {below : List Task}
    (mutate : (run n m).todo = .mutate (.registrar r) p v :: below) :
    ∃ c, m.Waits (.countMutation r p) below n c := by
  have hnext := todo_mutate mutate
  rw [← run_succ] at hnext
  exact exists_waits_cons hnext

/-- Every firing step is that of a change which the registrar was told of. -/
theorem exists_mutate {commands : List Command} {below : List Task}
    (counts : (run c (ofCommands commands)).todo =
      .countMutation r p :: below) :
    ∃ n v, (run n (ofCommands commands)).todo =
        .mutate (.registrar r) p v :: below ∧
      (ofCommands commands).Waits (.countMutation r p) below n c := by
  have hsuffix : .countMutation r p :: below <:+
      (run c (ofCommands commands)).todo := counts ▸ List.suffix_rfl
  rcases exists_parent hsuffix with hstart | ⟨n, hnc, parent, behind, before,
    after, hparent, hfollows, hnext, hbelow, hwait⟩
  · obtain ⟨command, -, hcommand⟩ :=
      List.mem_map.mp (hstart.subset List.mem_cons_self)
    cases hcommand
  · obtain ⟨v, rfl⟩ := mutate_of_follows_count hfollows
    rw [run_succ, todo_mutate hparent] at hnext
    -- The invalidation stands in front, so nothing stands in between.
    cases before with
    | nil => cases (List.cons.inj hnext).1
    | cons t before =>
      have hlength := congrArg List.length hnext
      simp only [List.length_cons, List.length_append] at hlength
      have hafter : after = [] := List.length_eq_zero_iff.mp (by omega)
      rw [hafter, List.nil_append] at hbelow
      subst hbelow
      exact ⟨n, v, hparent, hnc, hwait, counts⟩

/-! ## What a registrar counts -/

section

variable {commands : List Command}

theorem has_of_counts (h : (run c (ofCommands commands)).Counts r p) :
    (run c (ofCommands commands)).world.Has (.registrar r) := by
  obtain ⟨below, htodo⟩ := h
  exact (sound_run commands c).has_of_head htodo (by simp [Task.objects])

theorem has_of_accesses (h : (run c (ofCommands commands)).Accesses r p) :
    (run c (ofCommands commands)).world.Has (.registrar r) := by
  obtain ⟨below, htodo⟩ := h
  exact (sound_run commands c).has_of_head htodo
    (by simp [Task.objects, Owner.object])

open Classical in
theorem accessCount_registrarAfter (m : Machine) (r : Ref .registrar)
    (p : String) :
    (m.registrarAfter r).accessCount p =
      (m.world.registrars.get r).accessCount p +
        if m.Accesses r p then 1 else 0 := by
  unfold registrarAfter
  split
  · next d q rest htodo =>
    by_cases hd : d = r
    · by_cases hq : p = q
      · simp [Accesses, htodo, hd, hq, Registrar.accessCount_countAccess]
      · simp [Accesses, htodo, hd, hq, Ne.symm hq,
          Registrar.accessCount_countAccess]
    · simp [Accesses, htodo, hd]
  · next d q rest htodo => split <;> simp [Accesses, htodo]
  · next d reaction rest htodo => split <;> simp [Accesses, htodo]
  · next haccess _ _ =>
    have hother : ¬ m.Accesses r p := by
      rintro ⟨rest, htodo⟩
      exact haccess r p rest htodo
    rw [if_neg hother, Nat.add_zero]

open Classical in
theorem mutationCount_registrarAfter (m : Machine) (r : Ref .registrar)
    (p : String) :
    (m.registrarAfter r).mutationCount p =
      (m.world.registrars.get r).mutationCount p +
        if m.Counts r p then 1 else 0 := by
  unfold registrarAfter
  split
  · next d q rest htodo => split <;> simp [Counts, htodo]
  · next d q rest htodo =>
    by_cases hd : d = r
    · by_cases hq : p = q
      · simp [Counts, htodo, hd, hq, Registrar.mutationCount_countMutation]
      · simp [Counts, htodo, hd, hq, Ne.symm hq,
          Registrar.mutationCount_countMutation]
    · simp [Counts, htodo, hd]
  · next d reaction rest htodo => split <;> simp [Counts, htodo]
  · next _ hcount _ =>
    have hother : ¬ m.Counts r p :=
      fun ⟨rest, htodo⟩ => hcount r p rest htodo
    rw [if_neg hother, Nat.add_zero]

open Classical in
/-- What a step adds to a counter of a registrar, the run adds up. -/
theorem count_of_registrarAfter {f : Registrar Reaction → ℕ}
    {P : Machine → Prop} (empty : f {} = 0)
    (step : ∀ m, f (m.registrarAfter r) =
      f (m.world.registrars.get r) + if P m then 1 else 0)
    (made : ∀ k, P (run k (ofCommands commands)) →
      (run k (ofCommands commands)).world.Has (.registrar r))
    (has : (run n (ofCommands commands)).world.Has (.registrar r)) :
    f ((run n (ofCommands commands)).world.registrars.get r) =
      Nat.count (fun k => P (run k (ofCommands commands))) n := by
  induction n with
  | zero => exact absurd has (Nat.not_lt_zero r.index)
  | succ n ih =>
    rw [run_succ] at has ⊢
    by_cases hold : (run n (ofCommands commands)).world.Has (.registrar r)
    · rw [registrar_step hold, step, ih hold, Nat.count_succ]
    · rw [registrar_new hold has, empty]
      refine (Nat.count_iff_forall_not.mpr fun k hk h => hold ?_).symm
      exact has_run (Nat.le_of_lt_succ hk) (made k h)

/-- Each observer has a number of its own. -/
theorem nodup_observers (m : Machine) (r : Ref .registrar) (n : ℕ) :
    ((m.observers r n).map Prod.fst).Nodup := by
  have hordered := (pairwise_observers m r n).imp fun h => Nat.ne_of_lt h
  exact List.pairwise_map.mpr hordered

theorem mutationCount_eq
    (has : (run n (ofCommands commands)).world.Has (.registrar r)) :
    ((run n (ofCommands commands)).world.registrars.get r).mutationCount p =
      (ofCommands commands).changesCounted r p n :=
  count_of_registrarAfter (f := fun x => x.mutationCount p)
    (P := fun m => m.Counts r p) rfl
    (fun m => mutationCount_registrarAfter m r p) (fun _ h => has_of_counts h)
    has

theorem accessCount_eq
    (has : (run n (ofCommands commands)).world.Has (.registrar r)) :
    ((run n (ofCommands commands)).world.registrars.get r).accessCount p =
      (ofCommands commands).readsCounted r p n :=
  count_of_registrarAfter (f := fun x => x.accessCount p)
    (P := fun m => m.Accesses r p) rfl
    (fun m => accessCount_registrarAfter m r p) (fun _ h => has_of_accesses h)
    has

open Classical in
theorem toFinset_observers (m : Machine) (r : Ref .registrar) (n : ℕ) :
    ((m.observers r n).map Prod.fst).toFinset =
      {i ∈ {i ∈ Finset.range n | ∃ o, (run i m).Registers r o} |
        ¬ ∃ c < n, m.Fires r i c} := by
  ext i
  have hmem : i ∈ (m.observers r n).map Prod.fst ↔
      ∃ o, (i, o) ∈ m.observers r n := by simp
  simp [hmem, mem_observers_iff_not_fired, and_assoc]

open Classical in
theorem taken_eq (m : Machine) (r : Ref .registrar) (n : ℕ) :
    m.taken r n =
      {i ∈ {i ∈ Finset.range n | ∃ o, (run i m).Registers r o} |
        ∃ c < n, m.Fires r i c}.card := by
  rw [taken, Nat.count_eq_card_filter_range, Finset.filter_filter]
  congr 1
  refine Finset.filter_congr fun i _ => ⟨fun h => ⟨?_, h⟩, fun h => h.2⟩
  obtain ⟨c, -, hfires⟩ := h
  exact hfires.exists_registers.2

/-- The observers that wait are those that were registered, but for those that
were fired. -/
theorem length_waiting_add
    (has : (run n (ofCommands commands)).world.Has (.registrar r)) :
    ((run n (ofCommands commands)).world.registrars.get r).waiting.length +
        (ofCommands commands).taken r n =
      (ofCommands commands).registered r n := by
  classical
  have hlength :
      ((run n (ofCommands commands)).world.registrars.get r).waiting.length =
        (((ofCommands commands).observers r n).map Prod.fst).toFinset.card := by
    rw [List.toFinset_card_of_nodup (nodup_observers _ r n),
      ← map_observers has, List.length_map, List.length_map]
  rw [hlength, toFinset_observers, taken_eq, registered,
    Nat.count_eq_card_filter_range, Nat.add_comm]
  exact Finset.card_filter_add_card_filter_not _

/-- What a client is told of a registrar is what the registrar has counted. -/
theorem reply_of_registrarInfo {label : Json} {name : String} {nested : Bool}
    {rest : List Task}
    (call : (run n m).todo = .perform (.mk label (.observation
      (.registrarInfo name p))) nested :: rest)
    (found : (run n m).world.registrar? name = some r) :
    (run (n + 2) m).reply =
      .counts (((run n m).world.registrars.get r).accessCount p)
        (((run n m).world.registrars.get r).mutationCount p)
        ((run n m).world.registrars.get r).waiting.length := by
  have hbegins : begin { run n m with todo := rest }
      (.observation (.registrarInfo name p)) =
      .ok (Machine.answering { run n m with todo := rest }
        (.counts (((run n m).world.registrars.get r).accessCount p)
          (((run n m).world.registrars.get r).mutationCount p)
          ((run n m).world.registrars.get r).waiting.length)) := by
    simp only [begin, beginObservation, found, needed]
    rfl
  rw [run_of_answering call hbegins]

/-! ## Observers are fired once, and in order -/

/-- A call of `observe` at one step registers an observer at another, when its
reading part has returned: it waits for what was read of the registrar
meanwhile, and if nothing was read there is none. -/
structure RegistersReads (m : Machine) (r : Ref .registrar)
    (reaction : Reaction) (below : List Task) (s i : ℕ) : Prop where
  scope : m.Waits (.leaveScope r reaction) below s i
  observer : ∀ o, (run i m).Registers r o → o.onChange = reaction ∧
    ∀ p, p ∈ o.properties ↔ ∃ k, s < k ∧ k < i ∧ (run k m).Accesses r p
  registers_iff : (∃ o, (run i m).Registers r o) ↔
    ∃ k p, s < k ∧ k < i ∧ (run k m).Accesses r p

/-- A registrar is told of a change at one step and counts it at another, when
the invalidation has returned.  Then the observers that wait for the property
are called, oldest first, and the others keep waiting. -/
structure FiresAfter (m : Machine) (r : Ref .registrar) (p : String)
    (v : Invalidation) (below : List Task) (n c : ℕ) : Prop where
  invalidates : (run (n + 1) m).todo =
    .invalidate v :: .countMutation r p :: below
  counts : m.Waits (.countMutation r p) below n c
  counted : ((run (c + 1) m).world.registrars.get r).mutationCount p =
    ((run c m).world.registrars.get r).mutationCount p + 1
  fires : (run (c + 1) m).todo =
    (((run c m).world.registrars.get r).waiting.filter fun o =>
      o.properties.contains p).map (fun o => .react o.onChange) ++ below
  waits : ((run (c + 1) m).world.registrars.get r).waiting =
    ((run c m).world.registrars.get r).waiting.filter fun o =>
      !o.properties.contains p

/-- Each observer of a registrar is fired once at most, by the first change of
one of its properties that is counted after it was registered. -/
structure FiresOnce (m : Machine) (r : Ref .registrar) : Prop where
  observed : ∀ s label name tag apply onChange nested rest,
    (run s m).todo = .perform (.mk label (.observation
      (.observe name tag apply onChange))) nested :: rest →
    (run s m).world.registrar? name = some r →
    ∃ i, m.RegistersReads r ⟨tag, onChange⟩
      (.answer .nothing :: .finish label [.registrar r] nested :: rest) s i
  changed : ∀ n p v below,
    (run n m).todo = .mutate (.registrar r) p v :: below →
    ∃ c, m.FiresAfter r p v below n c
  /-- Nothing else fires observers. -/
  caused : ∀ c p below, (run c m).todo = .countMutation r p :: below →
    ∃ n v, (run n m).todo = .mutate (.registrar r) p v :: below ∧
      m.FiresAfter r p v below n c
  waiting : ∀ n, (run n m).world.Has (.registrar r) →
    ∃ observers : List (ℕ × Observer Reaction),
      observers.map Prod.snd = ((run n m).world.registrars.get r).waiting ∧
      observers.Pairwise (fun x y => x.1 < y.1) ∧
      ∀ i o, (i, o) ∈ observers ↔
        i < n ∧ (run i m).Registers r o ∧ ∀ c < n, ¬ m.Fires r i c
  registered : ∀ i c, m.Fires r i c → ∃ o, (run i m).Registers r o
  first : ∀ i c o, (run i m).Registers r o →
    (m.Fires r i c ↔
      i < c ∧ (∃ p ∈ o.properties, (run c m).Counts r p) ∧
        ∀ k, i < k → k < c → ∀ p ∈ o.properties, ¬ (run k m).Counts r p)
  once : ∀ i c d, m.Fires r i c → m.Fires r i d → c = d
  reacts : ∀ i c, m.Fires r i c →
    ∃ j, c < j ∧ m.Reacts r i j ∧ ∀ l, m.Reacts r i l → l = j
  fired : ∀ i j, m.Reacts r i j → ∃ c < j, m.Fires r i c
  called : ∀ i j, m.Reacts r i j → ∃ o, (run i m).Registers r o ∧
    ∃ below, (run j m).todo = .react o.onChange :: below
  /-- Whoever reacts was registered with some registrar, and it is its turn. -/
  turns : ∀ j reaction below, (run j m).todo = .react reaction :: below →
    ∃ d i o, (run i m).Registers d o ∧ o.onChange = reaction ∧ m.Reacts d i j
  ordered : ∀ i k c j l, m.Fires r i c → m.Fires r k c → i < k →
    m.Reacts r i j → m.Reacts r k l → j < l
  /-- Who is registered by a reaction is not fired by the change that caused
  the reaction. -/
  late : ∀ i k c j, m.Fires r k c → m.Reacts r k j → j ≤ i → ¬ m.Fires r i c
  pending : ∀ n, (run n m).world.Has (.registrar r) →
    ((run n m).world.registrars.get r).waiting.length + m.taken r n =
      m.registered r n
  mutations : ∀ n p, (run n m).world.Has (.registrar r) →
    ((run n m).world.registrars.get r).mutationCount p =
      m.changesCounted r p n
  accesses : ∀ n p, (run n m).world.Has (.registrar r) →
    ((run n m).world.registrars.get r).accessCount p = m.readsCounted r p n
  told : ∀ n label name p nested rest,
    (run n m).todo = .perform (.mk label (.observation
      (.registrarInfo name p))) nested :: rest →
    (run n m).world.registrar? name = some r →
    ∃ waiting, (run (n + 2) m).reply =
        .counts (m.readsCounted r p n) (m.changesCounted r p n) waiting ∧
      waiting + m.taken r n = m.registered r n

theorem registersReads {s : ℕ} {label : Json} {name tag : String}
    {apply onChange : List Command} {nested : Bool} {rest : List Task}
    (call : (run s (ofCommands commands)).todo =
      .perform (.mk label (.observation
        (.observe name tag apply onChange))) nested :: rest)
    (found : (run s (ofCommands commands)).world.registrar? name = some r) :
    ∃ i, (ofCommands commands).RegistersReads r ⟨tag, onChange⟩
      (.answer .nothing :: .finish label [.registrar r] nested :: rest) s i := by
  obtain ⟨i, hwaits, hcollected, -⟩ := exists_scope call found
  have hmade := (sound_run commands i).has_of_head hwaits.turn
    (o := .registrar r) (by simp [Task.objects])
  refine ⟨i, hwaits, ?_, ?_⟩
  · rintro o ⟨-, ⟨below, hleave⟩, hproperties, -⟩
    obtain ⟨hhead, -⟩ := List.cons.inj (hwaits.turn.symm.trans hleave)
    exact ⟨(Task.leaveScope.inj hhead).2.symm, hproperties ▸ hcollected⟩
  · constructor
    · rintro ⟨o, -, -, hproperties, hne⟩
      obtain ⟨p, hp⟩ := List.exists_mem_of_ne_nil _ hne
      obtain ⟨k, hk⟩ := (hcollected p).mp (hproperties ▸ hp)
      exact ⟨k, p, hk⟩
    · rintro ⟨k, p, hk⟩
      have hp := (hcollected p).mpr ⟨k, hk⟩
      exact ⟨⟨_, ⟨tag, onChange⟩⟩, hmade, ⟨_, hwaits.turn⟩, rfl,
        List.ne_nil_of_mem hp⟩

theorem firesAfter {v : Invalidation} {below : List Task}
    (mutate : (run n (ofCommands commands)).todo =
      .mutate (.registrar r) p v :: below)
    (waits : (ofCommands commands).Waits (.countMutation r p) below n c) :
    (ofCommands commands).FiresAfter r p v below n c := by
  have hcounts : (run c (ofCommands commands)).Counts r p := ⟨_, waits.turn⟩
  have hstep : (run (c + 1) (ofCommands commands)).world.registrars.get r =
      (((run c (ofCommands commands)).world.registrars.get r).countMutation
        p).takeFired p := by
    rw [run_succ, registrar_step (has_of_counts hcounts), registrarAfter,
      waits.turn]
    exact if_pos rfl
  constructor
  · rw [run_succ, todo_mutate mutate]
  · exact waits
  · rw [hstep, Registrar.mutationCount_takeFired,
      Registrar.mutationCount_countMutation, if_pos rfl]
  · rw [run_succ, step_of_todo_cons waits.turn]
    rfl
  · rw [hstep]
    rfl

/-- Along every run of a client, each observer of a registrar is fired once at
most, and by one change in the order of registration. -/
theorem fires_once (commands : List Command) (r : Ref .registrar) :
    (ofCommands commands).FiresOnce r := by
  refine
    { observed := fun s label name tag apply onChange nested rest call found =>
        registersReads call found
      changed := fun n p v below mutate => ?_
      caused := fun c p below counts => ?_
      waiting := fun n has => ?_
      registered := fun i c h => h.exists_registers.2
      first := fun i c o registers => registers.fires_iff
      once := fun i c d h h' => h.unique h'
      reacts := fun i c h => h.reacts
      fired := fun i j h => h.exists_fires
      called := fun i j h => ?_
      turns := fun j reaction below turn => ?_
      ordered := fun i k c j l fires fires' lt h h' =>
        Reacts.lt_of_lt fires fires' lt h h'
      late := fun i k c j fires h le fires' => ?_
      pending := fun n has => length_waiting_add has
      mutations := fun n p has => mutationCount_eq has
      accesses := fun n p has => accessCount_eq has
      told := fun n label name p nested rest call found => ?_ }
  · obtain ⟨c, hwaits⟩ := exists_firing mutate
    exact ⟨c, firesAfter mutate hwaits⟩
  · obtain ⟨n, v, hmutate, hwaits⟩ := exists_mutate counts
    exact ⟨n, v, hmutate, firesAfter hmutate hwaits⟩
  · exact ⟨(ofCommands commands).observers r n, map_observers has,
      pairwise_observers _ r n, fun i o => mem_observers_iff_not_fired⟩
  · obtain ⟨o, hregisters, -, hturn⟩ := h.exists_registers
    exact ⟨o, hregisters, hturn⟩
  · obtain ⟨c, d, p, -, hcounts, hregistered⟩ := exists_registered turn
    exact ⟨d, hregistered (has_of_counts hcounts)⟩
  · obtain ⟨d, hdj, hfires⟩ := h.exists_fires
    obtain rfl := fires.unique hfires
    have hic := fires'.exists_registers.1
    omega
  · have has : (run n (ofCommands commands)).world.Has (.registrar r) :=
      (sound_run commands n).world.names _ (World.isNamed_of_registrar? found)
    refine ⟨_, ?_, length_waiting_add has⟩
    rw [reply_of_registrarInfo call found, accessCount_eq has,
      mutationCount_eq has]

end

end Machine
end LiveProperty
