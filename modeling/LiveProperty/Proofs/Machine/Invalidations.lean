import LiveProperty.Proofs.Machine.Calls
import LiveProperty.Proofs.Machine.Observers

/-!
# Invalidations of bound bridges

The invalidation of a bridge that is bound to a living registrar goes to that
registrar: the cache is cleared, and the registrar counts the change directly
afterwards.  As long as nobody else has the registrar count a change, it
counts none without such a clearing.
-/

namespace LiveProperty

/-- A bridge is bound to a registrar itself, under a property. -/
def World.Binds (w : World) (b : Bridge) (r : Ref .registrar)
    (property : String) : Prop :=
  (w.relayOf b).binding = some ⟨.registrar r, property⟩

instance (w : World) (b : Bridge) (r : Ref .registrar) (p : String) :
    Decidable (w.Binds b r p) :=
  inferInstanceAs (Decidable (_ = _))

theorem World.Binds.unique {w : World} {b : Bridge} {r : Ref .registrar}
    {p q : String} (h : w.Binds b r p) (h' : w.Binds b r q) : p = q := by
  cases h.symm.trans h'
  rfl

/-- Whether the bridges of two worlds are bound to the same properties. -/
def World.bindsLike (w w' : World) : Bool :=
  (∀ entry ∈ w.keyBridges.entries ++ w'.keyBridges.entries,
    (w'.keyBridges.get ⟨entry.1⟩).relay.binding =
      (w.keyBridges.get ⟨entry.1⟩).relay.binding) ∧
  ∀ entry ∈ w.queryBridges.entries ++ w'.queryBridges.entries,
    (w'.queryBridges.get ⟨entry.1⟩).relay.binding =
      (w.queryBridges.get ⟨entry.1⟩).relay.binding

theorem World.binds_iff_of_bindsLike {w w' : World} (like : w.bindsLike w')
    (b : Bridge) (r : Ref .registrar) (p : String) :
    w'.Binds b r p ↔ w.Binds b r p := by
  obtain ⟨hkey, hquery⟩ := of_decide_eq_true like
  have hbinding : (w'.relayOf b).binding = (w.relayOf b).binding := by
    cases b with
    | key d =>
      exact Pool.apply_get_eq (g := fun k : KeyBridge => k.relay.binding) hkey d
    | query q =>
      exact Pool.apply_get_eq (g := fun k : QueryBridge => k.relay.binding)
        hquery q
  rw [World.Binds, World.Binds, hbinding]

/-- A part of an invalidation that goes to the registrar to which its bridge
is bound. -/
def Task.Directed (w : World) (r : Ref .registrar) : Task → Prop
  | .enclose _ _ (.mutation binding b) =>
    ∀ p, w.Binds b r p → binding = some ⟨.registrar r, p⟩
  | .run (.mutation binding b) =>
    ∀ p, w.Binds b r p → binding = some ⟨.registrar r, p⟩
  | .mutate owner property (.bridge b) =>
    ∀ p, w.Binds b r p → owner = .registrar r ∧ property = p
  | _ => True

theorem Task.Directed.of_bound {w w' : World} {r : Ref .registrar} {t : Task}
    (h : t.Directed w r) (bound : ∀ b p, w'.Binds b r p ↔ w.Binds b r p) :
    t.Directed w' r := by
  cases t with
  | enclose _ _ body =>
    cases body with
    | mutation x b => exact fun p hp => h p ((bound b p).mp hp)
    | client => trivial
  | run body =>
    cases body with
    | mutation x b => exact fun p hp => h p ((bound b p).mp hp)
    | client => trivial
  | mutate _ _ i =>
    cases i with
    | bridge b => exact fun p hp => h p ((bound b p).mp hp)
    | client => trivial
  | _ => trivial

/-- Among some tasks, the cache of a bridge is cleared directly before the
registrar to which it is bound counts the change, and the registrar counts
nothing else. -/
structure World.Paired (w : World) (r : Ref .registrar) (todo : List Task) :
    Prop where
  counted : ∀ b p rest, w.Binds b r p →
    .invalidate (.bridge b) :: rest <:+ todo →
    ∃ below, rest = .countMutation r p :: below
  caused : ∀ t p rest, t :: .countMutation r p :: rest <:+ todo →
    ∃ b, t = .invalidate (.bridge b) ∧ w.Binds b r p

namespace World.Paired

variable {w : World} {r : Ref .registrar} {t : Task} {rest : List Task}

theorem of_bound {w' : World} (h : w.Paired r rest)
    (bound : ∀ b p, w'.Binds b r p ↔ w.Binds b r p) : w'.Paired r rest := by
  refine ⟨fun b p below hbinds => h.counted b p below ((bound b p).mp hbinds),
    fun x p below hsuffix => ?_⟩
  obtain ⟨b, hb, hbinds⟩ := h.caused x p below hsuffix
  exact ⟨b, hb, (bound b p).mpr hbinds⟩

/-- The two tasks that a change of a bound bridge leaves. -/
theorem cons_cons (h : w.Paired r (t :: rest)) {b : Bridge} {p : String}
    (other : ∀ b, t ≠ .invalidate (.bridge b)) (binds : w.Binds b r p) :
    w.Paired r (.invalidate (.bridge b) :: .countMutation r p :: rest) := by
  have hrest {x : List Task} (hx : x <:+ rest) : x <:+ t :: rest :=
    hx.trans (List.suffix_cons t rest)
  refine ⟨fun d q below hbinds hsuffix => ?_, fun x q below hsuffix => ?_⟩
  · rcases List.suffix_cons_iff.mp hsuffix with heq | hsuffix
    · cases heq
      obtain rfl := binds.unique hbinds
      exact ⟨rest, rfl⟩
    rcases List.suffix_cons_iff.mp hsuffix with heq | hsuffix
    · cases heq
    · exact h.counted d q below hbinds (hrest hsuffix)
  · rcases List.suffix_cons_iff.mp hsuffix with heq | hsuffix
    · cases heq
      exact ⟨b, rfl, binds⟩
    rcases List.suffix_cons_iff.mp hsuffix with heq | hsuffix
    · cases heq
      obtain ⟨d, hd, -⟩ := h.caused t q below List.suffix_rfl
      exact absurd hd (other d)
    · exact h.caused x q below (hrest hsuffix)

/-- What comes in front without clearing a cache of a bound bridge or counting
a change breaks no pair. -/
theorem append (h : w.Paired r (t :: rest)) {pushed : List Task}
    (count : ∀ p, .countMutation r p ∉ pushed)
    (clear : ∀ b p, w.Binds b r p → .invalidate (.bridge b) ∉ pushed)
    (alone : ∀ b, t = .invalidate (.bridge b) → pushed = []) :
    w.Paired r (pushed ++ rest) := by
  have hrest {x : List Task} (hx : x <:+ rest) : x <:+ t :: rest :=
    hx.trans (List.suffix_cons t rest)
  refine ⟨fun b p below hbinds hsuffix => ?_, fun x p below hsuffix => ?_⟩
  · rcases Machine.waits_or_put hsuffix with hold | ⟨front, back, rfl, -⟩
    · exact h.counted b p below hbinds (hrest hold)
    · exact absurd (by simp) (clear b p hbinds)
  · rcases Machine.waits_or_put hsuffix with hold |
      ⟨front, back, rfl, hbelow⟩
    · exact h.caused x p below (hrest hold)
    · cases back with
      | nil =>
        have hbelow : .countMutation r p :: below = rest := hbelow
        subst hbelow
        obtain ⟨b, hb, -⟩ := h.caused t p below List.suffix_rfl
        simpa using alone b hb
      | cons y back =>
        obtain ⟨rfl, -⟩ := List.cons.inj hbelow
        exact absurd (by simp) (count p)

end World.Paired

namespace Machine

variable {m : Machine} {r : Ref .registrar}

/-- The parts of invalidations that wait go to the registrar, if their bridge
is bound to it, and it counts changes after such invalidations only. -/
structure Directed (m : Machine) (r : Ref .registrar) : Prop where
  parts : ∀ t ∈ m.todo, t.Directed m.world r
  paired : m.world.Paired r m.todo

/-- Of a bridge that is bound to a registrar no invalidation is under way, and
no change is to be counted. -/
theorem directed_of_rests (rests : ∀ b p, m.world.Binds b r p → m.Rests b)
    (calm : ∀ t ∈ m.todo, ∀ p, t ≠ .countMutation r p) : m.Directed r := by
  refine ⟨fun t ht => ?_, fun b p rest hbinds hsuffix => ?_,
    fun t p rest hsuffix => ?_⟩
  · have hrests (b : Bridge) (h : t.Relays b) (p : String) :
        ¬ m.world.Binds b r p := fun hbinds => rests b p hbinds t ht h
    cases t with
    | enclose _ _ body =>
      cases body with
      | mutation x b => exact fun p hp => absurd hp (hrests b rfl p)
      | client => trivial
    | run body =>
      cases body with
      | mutation x b => exact fun p hp => absurd hp (hrests b rfl p)
      | client => trivial
    | mutate _ _ i =>
      cases i with
      | bridge b => exact fun p hp => absurd hp (hrests b rfl p)
      | client => trivial
    | _ => trivial
  · exact absurd rfl (rests b p hbinds _ (hsuffix.subset List.mem_cons_self))
  · refine absurd rfl (calm (.countMutation r p) (hsuffix.subset ?_) p)
    exact List.mem_cons_of_mem _ List.mem_cons_self

/-- A task that holds and keeps nothing decides nothing about who is
alive. -/
theorem isAlive_below {t : Task} {rest : List Task} (h : m.todo = t :: rest)
    (held : t.held = []) (kept : t.kept = []) (o : Object) :
    ({ m with todo := rest } : Machine).isAlive o = m.isAlive o := by
  have hrooted (x : Object) :
      ({ m with todo := rest } : Machine).isRooted x = m.isRooted x := by
    simp [isRooted, isHeld, h, held, kept]
  cases o with
  | context c => simp only [isAlive, isOwnContext, hrooted]
  | registrar d => simp only [isAlive, isForwardedTo, hrooted]
  | _ => exact hrooted _

theorem liveBinding_of_binds {b : Bridge} {p : String}
    (alive : m.isAlive (.registrar r)) (binds : m.world.Binds b r p) :
    m.liveBinding? b = some ⟨.registrar r, p⟩ := by
  rw [liveBinding?, binds, Option.filter_some]
  exact if_pos alive

/-- What follows from a part of an invalidation that goes to a living
registrar goes there as well. -/
theorem directed_of_follows {t x : Task}
    (alive : ∀ b, t = .relay b → m.isAlive (.registrar r))
    (ht : t.Directed m.world r) (h : Follows m t x) :
    x.Directed m.world r := by
  cases h with
  | begun c nested left => cases left <;> trivial
  | enclose b => exact fun p hp => liveBinding_of_binds (alive b rfl) hp
  | run envelope presenter body =>
    cases body with
    | mutation x b => exact ht
    | client => trivial
  | mutate binding b =>
    intro p hp
    cases ht p hp
    exact ⟨rfl, rfl⟩
  | forwardMutate d property i s =>
    cases i with
    | bridge b => exact fun p hp => absurd (ht p hp).1 nofun
    | client => trivial
  | _ => trivial

theorem todo_mutate {p : String} {i : Invalidation} {rest : List Task}
    (h : m.todo = .mutate (.registrar r) p i :: rest) :
    m.step.todo = .invalidate i :: .countMutation r p :: rest := by
  rw [step_of_todo_cons h]
  rfl

theorem todo_invalidate {b : Bridge} {rest : List Task}
    (h : m.todo = .invalidate (.bridge b) :: rest) : m.step.todo = rest := by
  rw [step_of_todo_cons h]
  rfl

theorem mutate_of_follows_count {t : Task} {p : String}
    (h : Follows m t (.countMutation r p)) :
    ∃ i, t = .mutate (.registrar r) p i := by
  cases h with
  | begun c nested left => cases left
  | countMutation r p i => exact ⟨i, rfl⟩

theorem mutate_of_follows_invalidate {t : Task} {b : Bridge} {p : String}
    (ht : t.Directed m.world r) (binds : m.world.Binds b r p)
    (h : Follows m t (.invalidate (.bridge b))) :
    t = .mutate (.registrar r) p (.bridge b) := by
  cases h with
  | begun c nested left => cases left
  | invalidate owner property i =>
    obtain ⟨rfl, rfl⟩ := ht p binds
    rfl
  | invalidateUnbound b => cases ht p binds

/-- Whether the next task, if it has a registrar count a change, is a part of
the invalidation of a bridge that is bound to the registrar. -/
def mutatedByBridges (m : Machine) (r : Ref .registrar) : Bool :=
  match m.todo with
  | .mutate (.registrar d) p (.bridge b) :: _ => d = r → m.world.Binds b r p
  | .mutate (.registrar d) _ (.client _) :: _ => d ≠ r
  | _ => true

theorem exists_binds_of_mutate (only : m.mutatedByBridges r) {p : String}
    {i : Invalidation} {rest : List Task}
    (h : m.todo = .mutate (.registrar r) p i :: rest) :
    ∃ b, i = .bridge b ∧ m.world.Binds b r p := by
  cases i with
  | bridge b => exact ⟨b, rfl, by simpa [mutatedByBridges, h] using only⟩
  | client during => simp [mutatedByBridges, h] at only

/-- What goes to the registrar is told next, as long as the registrar is
alive, the bindings to it stay, and only bridges have it count changes. -/
theorem Directed.step (h : m.Directed r) (alive : m.isAlive (.registrar r))
    (bound : ∀ b p, m.step.world.Binds b r p ↔ m.world.Binds b r p)
    (only : m.mutatedByBridges r) : m.step.Directed r := by
  cases htodo : m.todo with
  | nil => rwa [step_of_todo_nil htodo]
  | cons t rest =>
    obtain ⟨pushed, hpushed, hfollows⟩ := todo_step htodo
    have ht := h.parts t (htodo ▸ List.mem_cons_self)
    have hpaired := h.paired
    rw [htodo] at hpaired
    refine ⟨fun x hx => ?_, World.Paired.of_bound ?_ bound⟩
    · rw [hpushed] at hx
      refine Task.Directed.of_bound ?_ bound
      rcases List.mem_append.mp hx with hx | hx
      · refine directed_of_follows (m := { m with todo := rest }) ?_ ht
          (hfollows x hx)
        rintro b rfl
        rwa [isAlive_below htodo rfl rfl]
      · exact h.parts x (htodo ▸ List.mem_cons_of_mem t hx)
    · by_cases hmutate : ∃ p i, t = .mutate (.registrar r) p i
      · obtain ⟨p, i, rfl⟩ := hmutate
        obtain ⟨b, rfl, hbinds⟩ := exists_binds_of_mutate only htodo
        rw [todo_mutate htodo]
        exact hpaired.cons_cons nofun hbinds
      · rw [hpushed]
        apply hpaired.append
        · intro p hp
          obtain ⟨i, rfl⟩ := mutate_of_follows_count (hfollows _ hp)
          exact hmutate ⟨p, i, rfl⟩
        · intro b p hbinds hp
          have hmutated := mutate_of_follows_invalidate
            (m := { m with todo := rest }) ht hbinds (hfollows _ hp)
          exact hmutate ⟨p, _, hmutated⟩
        · rintro b rfl
          rw [todo_invalidate htodo] at hpushed
          exact List.self_eq_append_left.mp hpushed

/-- Whether the next task, if it is to ask a presenter to show a change, has it
shown at least once. -/
def presents (m : Machine) : Bool :=
  match m.todo with
  | .enclose (.scoped _) p _ :: _ =>
    (p.or m.world.installedPresenter).all fun shown =>
      0 < (m.world.presenters.get shown).calls
  | _ => true

/-- What is directed to a registrar needs no hook. -/
theorem obligesFor_of_presents {b : Bridge} {p : String}
    (directed : m.Directed r) (binds : m.world.Binds b r p)
    (presents : m.presents) : m.ObligesFor b := by
  rintro ⟨t, rest, htodo, hrelays⟩
  cases t with
  | mutate owner property i =>
    cases i with
    | client => exact hrelays.elim
    | bridge x =>
      obtain rfl : x = b := hrelays
      have ht := directed.parts _ (htodo ▸ List.mem_cons_self)
      obtain ⟨rfl, -⟩ := ht p binds
      simp [obliges, htodo]
  | enclose envelope p body =>
    rcases envelope with _ | scope
    · simp [obliges, htodo]
    · simpa [obliges, Machine.presents, htodo] using presents
  | _ => simp [obliges, htodo]

/-! ## Invalidations and counts along a run -/

/-- The cache of a bridge is about to be cleared. -/
def Invalidates (m : Machine) (b : Bridge) : Prop :=
  ∃ rest, m.todo = .invalidate (.bridge b) :: rest

/-- From a step of a run on, a registrar is alive, the bridges that are bound
to it stay bound to it under the same properties, and only these bridges have
it count changes. -/
structure Watched (m : Machine) (r : Ref .registrar) (e : ℕ) : Prop where
  alive : ∀ k, e ≤ k → (run k m).isAlive (.registrar r)
  bound : ∀ k, e ≤ k → ∀ b p,
    (run k m).world.Binds b r p ↔ (run e m).world.Binds b r p
  only : ∀ k, e ≤ k → (run k m).mutatedByBridges r
  /-- What is already under way goes to the registrar as well. -/
  directed : (run e m).Directed r

namespace Watched

variable {e n : ℕ}

theorem after (h : m.Watched r e) (le : e ≤ n) : (run n m).Directed r := by
  induction le with
  | refl => exact h.directed
  | @step n le ih =>
    rw [run_succ]
    refine ih.step (h.alive n le) (fun b p => ?_) (h.only n le)
    rw [← run_succ]
    exact (h.bound (n + 1) (Nat.le_succ_of_le le) b p).trans
      (h.bound n le b p).symm

/-- The registrar counts a change directly after the clearing. -/
theorem counts_of_invalidates (h : m.Watched r e) (le : e ≤ n) {b : Bridge}
    {p : String} (binds : (run e m).world.Binds b r p)
    (invalidates : (run n m).Invalidates b) : (run (n + 1) m).Counts r p := by
  obtain ⟨rest, htodo⟩ := invalidates
  obtain ⟨below, rfl⟩ := (h.after le).paired.counted b p rest
    ((h.bound n le b p).mpr binds) (htodo ▸ List.suffix_rfl)
  refine ⟨below, ?_⟩
  rw [run_succ, todo_invalidate htodo]

/-- The registrar counts no change but directly after a clearing. -/
theorem invalidates_of_counts (h : m.Watched r e) (le : e ≤ n) {p : String}
    (counts : (run (n + 1) m).Counts r p) :
    ∃ b, (run n m).Invalidates b ∧ (run e m).world.Binds b r p := by
  obtain ⟨below, hcounts⟩ := counts
  have hpaired := (h.after le).paired
  rw [run_succ] at hcounts
  cases htodo : (run n m).todo with
  | nil =>
    rw [step_of_todo_nil htodo, htodo] at hcounts
    cases hcounts
  | cons t rest =>
    obtain ⟨pushed, hpushed, hfollows⟩ := todo_step htodo
    rw [hpushed] at hcounts
    cases pushed with
    | nil =>
      obtain rfl : rest = _ := hcounts
      obtain ⟨b, rfl, hbinds⟩ := hpaired.caused t p below
        (htodo ▸ List.suffix_rfl)
      exact ⟨b, ⟨_, htodo⟩, (h.bound n le b p).mp hbinds⟩
    | cons x back =>
      obtain ⟨rfl, -⟩ := List.cons.inj hcounts
      obtain ⟨i, rfl⟩ := mutate_of_follows_count
        (hfollows _ List.mem_cons_self)
      rw [todo_mutate htodo] at hpushed
      cases hpushed

/-- The changes that the registrar counts after a step are those of the
bridges that are bound to it. -/
theorem exists_counts_iff (h : m.Watched r e) (le : e ≤ n) {p : String} :
    (∃ c, n < c ∧ (run c m).Counts r p) ↔
      ∃ c b, n ≤ c ∧ (run c m).Invalidates b ∧ (run e m).world.Binds b r p := by
  constructor
  · rintro ⟨c, hc, hcounts⟩
    obtain ⟨k, rfl⟩ := Nat.exists_eq_add_of_lt hc
    obtain ⟨b, hinvalidates, hbinds⟩ :=
      h.invalidates_of_counts (by omega) hcounts
    exact ⟨n + k, b, Nat.le_add_right n k, hinvalidates, hbinds⟩
  · rintro ⟨c, b, hc, hinvalidates, hbinds⟩
    exact ⟨c + 1, Nat.lt_succ_of_le hc,
      h.counts_of_invalidates (Nat.le_trans le hc) hbinds hinvalidates⟩

end Watched

/-- Whether a client's commands are all that is left to do. -/
def idle (m : Machine) : Bool :=
  m.todo.all fun
    | .perform .. => true
    | _ => false

theorem directed_of_idle (idle : m.idle) : m.Directed r := by
  have hperform (t : Task) (ht : t ∈ m.todo) :
      ∃ c nested, t = .perform c nested := by
    have h := List.all_eq_true.mp idle t ht
    cases t with
    | perform c nested => exact ⟨c, nested, rfl⟩
    | _ => cases h
  refine directed_of_rests (fun b p _ t ht hrelays => ?_) fun t ht p => ?_
  · obtain ⟨c, nested, rfl⟩ := hperform t ht
    exact hrelays
  · obtain ⟨c, nested, rfl⟩ := hperform t ht
    exact nofun

/-- From a step on at which a client's commands are all that is left to do, up
to the end of the run, it is looked up whether a registrar is watched. -/
theorem watched_of_halted {e n : ℕ} (idle : (run e m).idle)
    (halted : (run n (run e m)).todo.isEmpty)
    (h : ∀ k ≤ n, (run k (run e m)).isAlive (.registrar r) ∧
      (run e m).world.bindsLike (run k (run e m)).world ∧
      (run k (run e m)).mutatedByBridges r) : m.Watched r e := by
  have hall (k : ℕ) (hek : e ≤ k) : (run k m).isAlive (.registrar r) ∧
      (run e m).world.bindsLike (run k m).world ∧
      (run k m).mutatedByBridges r := by
    have hk := forall_run_of_halted (P := fun x => x.isAlive (.registrar r) ∧
      (run e m).world.bindsLike x.world ∧ x.mutatedByBridges r) n halted h
      (k - e)
    rwa [← run_add, Nat.sub_add_cancel hek] at hk
  exact ⟨fun k hek => (hall k hek).1,
    fun k hek b p => World.binds_iff_of_bindsLike (hall k hek).2.1 b r p,
    fun k hek => (hall k hek).2.2, directed_of_idle idle⟩

/-! ## The extent of an invalidation -/

/-- A step of a run is part of an invalidation of a bridge that began with an
earlier one: what keeps the bridge alive up to its end still waits. -/
def Within (m : Machine) (b : Bridge) (a n : ℕ) : Prop :=
  a < n ∧ ∃ first kept below, (run a m).todo = .relay b :: below ∧
    (run (a + 1) m).todo = first :: .keep kept :: below ∧
    m.Above (.keep kept :: below) a n

theorem todo_relay {b : Bridge} {rest : List Task}
    (h : m.todo = .relay b :: rest) :
    ∃ first kept, m.step.todo = first :: .keep kept :: rest := by
  rw [step_of_todo_cons h]
  exact ⟨_, _, rfl⟩

/-- What leads to a part of an invalidation is a part of it as well, unless it
begins the invalidation. -/
theorem relays_of_follows_part {b : Bridge} {t x : Task} (h : Follows m t x)
    (hx : x.Relays b) (part : x ≠ .relay b) : t.Relays b := by
  cases h with
  | begun c nested left =>
    cases left with
    | relay q named => exact absurd (congrArg Task.relay hx) part
    | _ => exact hx.elim
  | relay d audience event => exact absurd (congrArg Task.relay hx) part
  | run envelope presenter body =>
    cases body with
    | mutation x d => exact hx
    | client => exact hx.elim
  | invalidate owner property i =>
    cases i with
    | bridge d => exact hx
    | client => exact hx.elim
  | forwardMutate d property i s =>
    cases i with
    | bridge d => exact hx
    | client => exact hx.elim
  | enclose d => exact hx
  | mutate binding d => exact hx
  | invalidateUnbound d => exact hx
  | _ => exact hx.elim

/-- The part with which an invalidation goes on waits for its turn within
it. -/
theorem within_of_relay {b : Bridge} {t : Task}
    {below rest before after : List Task} {i n : ℕ}
    (begins : (run i m).todo = .relay b :: below) (lt : i < n)
    (relays : t.Relays b)
    (next : (run (i + 1) m).todo = before ++ t :: (after ++ below))
    (hrest : rest = after ++ below)
    (wait : ∀ k, i < k → k ≤ n → t :: rest <:+ (run k m).todo) :
    m.Within b i n := by
  obtain ⟨first, kept, hput⟩ := todo_relay begins
  rw [← run_succ] at hput
  have hpushed : (before ++ t :: after) ++ below =
      [first, .keep kept] ++ below := by
    rw [List.append_assoc, List.cons_append, ← next, hput]
    rfl
  have hpushed := List.append_cancel_right hpushed
  have hafter : after = [.keep kept] := by
    rcases before with _ | ⟨x, _ | ⟨y, before⟩⟩
    · exact (List.cons.inj hpushed).2
    · cases hpushed
      exact relays.elim
    · simpa using congrArg List.length hpushed
  subst hafter
  have hkeep : rest = [] ++ .keep kept :: below := hrest
  exact ⟨lt, first, kept, below, begins, hput, above_of_suffix hkeep wait⟩

/-- Every part of an invalidation has its turn within one. -/
theorem exists_within {commands : List Command} {b : Bridge} {t : Task}
    {n : ℕ} {rest : List Task}
    (turn : (run n (ofCommands commands)).todo = t :: rest)
    (relays : t.Relays b) (part : t ≠ .relay b) :
    ∃ a, (ofCommands commands).Within b a n := by
  induction n using Nat.strong_induction_on generalizing t rest with
  | _ n ih =>
    have hsuffix : t :: rest <:+ (run n (ofCommands commands)).todo :=
      turn ▸ List.suffix_rfl
    rcases exists_parent hsuffix with hstart | ⟨i, hi, parent, below, before,
      after, hparent, hfollows, hnext, hrest, hwait⟩
    · obtain ⟨c, -, rfl⟩ := List.mem_map.mp (hstart.subset List.mem_cons_self)
      exact relays.elim
    · have habove := above_of_suffix hrest hwait
      have hrelays := relays_of_follows_part hfollows relays part
      by_cases hbegins : parent = .relay b
      · subst hbegins
        exact ⟨i, within_of_relay hparent hi relays hnext hrest hwait⟩
      · obtain ⟨a, hai, first, kept, behind, hrelay, hput, habove'⟩ :=
          ih i hi hparent hrelays hbegins
        obtain ⟨front, hfront, htodo⟩ := habove' i hai (Nat.le_refl i)
        obtain ⟨x, front, rfl⟩ := List.exists_cons_of_ne_nil hfront
        rw [hparent] at htodo
        obtain ⟨rfl, rfl⟩ := List.cons.inj htodo
        exact ⟨a, Nat.lt_trans hai hi, first, kept, behind, hrelay, hput,
          habove'.trans habove⟩

/-- An invalidation is not over before the next task, unless that ends it. -/
theorem Within.succ {b : Bridge} {a n : ℕ} {x t : Task} {below : List Task}
    (h : m.Within b a n) (turn : (run n m).todo = x :: t :: below)
    (next : (run (n + 1) m).todo = t :: below)
    (other : ∀ kept, t ≠ .keep kept) : m.Within b a (n + 1) := by
  obtain ⟨han, first, kept, behind, hrelay, hput, habove⟩ := h
  obtain ⟨front, hfront, htodo⟩ := habove n han (Nat.le_refl n)
  obtain ⟨y, front, rfl⟩ := List.exists_cons_of_ne_nil hfront
  rw [turn] at htodo
  obtain ⟨rfl, htail⟩ := List.cons.inj htodo
  cases front with
  | nil => exact absurd (List.cons.inj htail).1 (other kept)
  | cons z front =>
    refine ⟨Nat.lt_succ_of_lt han, first, kept, behind, hrelay, hput,
      habove.succ (next.trans htail)⟩

/-- What is done before the rest of an invalidation has its turn is a part of
the invalidation. -/
theorem Within.trans {b : Bridge} {a n k : ℕ} {t : Task} {below : List Task}
    (h : m.Within b a n) (turn : (run n m).todo = t :: below) (le : n ≤ k)
    (above : m.Above below n k) : m.Within b a k := by
  obtain ⟨han, first, kept, behind, hrelay, hput, habove⟩ := h
  obtain ⟨front, hfront, htodo⟩ := habove n han (Nat.le_refl n)
  obtain ⟨x, front, rfl⟩ := List.exists_cons_of_ne_nil hfront
  rw [turn] at htodo
  obtain ⟨rfl, rfl⟩ := List.cons.inj htodo
  exact ⟨Nat.lt_of_lt_of_le han le, first, kept, behind, hrelay, hput,
    habove.trans above⟩

/-- A client's command is about to ask for the invalidation of a query
bridge. -/
def Asks (m : Machine) (q : Ref .queryBridge) : Prop :=
  ∃ c nested rest begun, m.todo = .perform c nested :: rest ∧
    begin { m with todo := rest } c.action = .ok begun ∧
    begun.tasks = [.relay (.query q), .answer .nothing]

theorem Begins.tasks_of_relay {bound : ℕ} {begun : Begun} {b : Bridge}
    (h : Begins m bound begun) (hb : .relay b ∈ begun.tasks) :
    ∃ q, b = .query q ∧
      begun.tasks = [.relay (.query q), .answer .nothing] := by
  cases h with
  | refresh q named =>
    obtain ⟨rfl⟩ : Task.relay b = .relay (.query q) := by simpa using hb
    exact ⟨q, rfl, rfl⟩
  | bindContext q c named namedContext =>
    obtain ⟨rfl⟩ : Task.relay b = .relay (.query q) := by simpa using hb
    exact ⟨q, rfl, rfl⟩
  | observe r apply reaction named small =>
    simp [Task.nested] at hb
  | getKey d named =>
    simp [accessTasks] at hb
    split at hb <;> simp at hb
  | results q named =>
    simp [accessTasks] at hb
    split at hb <;> simp at hb
  | readDefault key =>
    simp [readTasks] at hb
  | readToken t next named tracked =>
    simp [readTasks, readingToken] at hb
    rcases tracked with rfl | rfl <;> simp at hb
  | _ => simp [announcing] at hb

theorem hears_or_asks_of_follows {b : Bridge} {parent : Task}
    {below before after : List Task} (turn : m.todo = parent :: below)
    (h : Follows { m with todo := below } parent (.relay b))
    (next : m.step.todo = before ++ .relay b :: (after ++ below)) :
    m.Hears b ∨ ∃ q, b = .query q ∧ m.Asks q := by
  cases h with
  | begun c nested left =>
    obtain ⟨begun, hbegin, hmem⟩ := mem_tasks_of_perform turn next nofun nofun
    obtain ⟨q, rfl, htasks⟩ :=
      Begins.tasks_of_relay (begins_of_begin hbegin) hmem
    exact Or.inr ⟨q, rfl, c, nested, below, begun, turn, hbegin, htasks⟩
  | relay b audience event concerns =>
    exact Or.inl ⟨audience, event, below, turn, concerns⟩

/-- An invalidation is begun by an announcement that concerns the bridge, or
by a client's command. -/
theorem exists_cause {commands : List Command} {b : Bridge} {n : ℕ}
    {rest : List Task}
    (turn : (run n (ofCommands commands)).todo = .relay b :: rest) :
    ∃ k < n, (run k (ofCommands commands)).Hears b ∨
      ∃ q, b = .query q ∧ (run k (ofCommands commands)).Asks q := by
  have hsuffix : .relay b :: rest <:+ (run n (ofCommands commands)).todo :=
    turn ▸ List.suffix_rfl
  rcases exists_parent hsuffix with hstart | ⟨k, hk, parent, below, before,
    after, hparent, hfollows, hnext, -⟩
  · obtain ⟨c, -, hc⟩ := List.mem_map.mp (hstart.subset List.mem_cons_self)
    cases hc
  · rw [run_succ] at hnext
    exact ⟨k, hk, hears_or_asks_of_follows hparent hfollows hnext⟩

end Machine
end LiveProperty
