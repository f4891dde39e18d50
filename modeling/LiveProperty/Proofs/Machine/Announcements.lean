import LiveProperty.Proofs.Machine.Registrations

/-!
# Announcements

An announcement takes the listeners that are attached when it starts, and
calls them one after another, each one's callback to its end before the next
is called.  Nothing else calls a listener.
-/

namespace LiveProperty
namespace Machine

variable {m : Machine}

/-- What the next step announces, and on which notifier. -/
def announces? (m : Machine) : Option (Ref .notifier × Event) :=
  match m.todo with
  | .perform c _ :: _ => m.world.announces? c.action
  | .write s key _ :: _ => some ((m.world.stores.get s).changes, .key key)
  | .announceRemote t _ entities :: _ =>
    if entities.isEmpty then none
    else some ((m.world.trackers.get t).changes, .change (.remote entities))
  | _ => none

/-- The listener that the next step calls, and with which event, if it does so
for the announcement that began above the given number of tasks. -/
def call? (m : Machine) (depth : ℕ) : Option (Listener × Event) :=
  match m.todo with
  | .deliver (l :: _) event :: rest =>
    if rest.length = depth then some (l, event) else none
  | _ => none

/-- The calls of an announcement within a number of steps. -/
def calls (m : Machine) (depth n : ℕ) : List (Listener × Event) :=
  (List.range n).filterMap fun k => (run k m).call? depth

/-! ## The start of an announcement -/

theorem tasks_of_announces {a : Action} {n : Ref .notifier} {event : Event}
    (h : m.world.announces? a = some (n, event)) :
    ∃ b, m.begin a = .ok b ∧ b.machine.todo = m.todo ∧
      ∃ r, b.tasks = [.deliver (m.world.audience n) event, .answer r] := by
  cases a with
  | notice a =>
    cases a with
    | announce notifier value =>
      obtain ⟨k, hk, heq⟩ := Option.map_eq_some_iff.mp h
      cases heq
      have hbegin : m.begin (.notice (.announce notifier value)) =
          .ok ⟨(m.announcing n (.value value)).1, [.notifier n],
            [(m.announcing n (.value value)).2, .answer .nothing]⟩ := by
        simp only [begin, beginNotice, needed, hk]
        rfl
      exact ⟨_, hbegin, rfl, _, rfl⟩
    | _ => cases h
  | context a =>
    cases a with
    | announceChange bus change =>
      obtain ⟨k, hk, h⟩ := Option.bind_eq_some_iff.mp h
      obtain ⟨c, hc, heq⟩ := Option.map_eq_some_iff.mp h
      cases heq
      have hbegin : m.begin (.context (.announceChange bus change)) =
          .ok ⟨(m.announcing n (.change c)).1, [.bus n],
            [(m.announcing n (.change c)).2, .answer .nothing]⟩ := by
        simp only [begin, beginContext, needed, hk, hc]
        rfl
      exact ⟨_, hbegin, rfl, _, rfl⟩
    | saveContext context =>
      obtain ⟨c, hc, h⟩ := Option.bind_eq_some_iff.mp h
      split at h
      · cases h
      · next hunsaved =>
        cases h
        have hbegin : m.begin (.context (.saveContext context)) =
            .ok (m.saving c) := by
          simp only [begin, beginContext, needed, hc]
          rfl
        refine ⟨_, hbegin, ?_⟩
        simp only [saving, hunsaved]
        exact ⟨rfl, _, rfl⟩
    | _ => cases h
  | _ => cases h

/-- An announcement begins with a list of the listeners that are attached
now. -/
theorem todo_announces {n : Ref .notifier} {event : Event}
    (h : m.announces? = some (n, event)) :
    ∃ t rest after, m.todo = t :: rest ∧
      (∀ audience e, .deliver audience e ∉ after) ∧
      m.step.todo = .deliver (m.world.audience n) event :: (after ++ rest) := by
  unfold announces? at h
  split at h
  · next c nested rest htodo =>
    obtain ⟨b, hbegin, hrest, r, htasks⟩ :=
      tasks_of_announces (m := { m with todo := rest }) h
    refine ⟨_, rest, [.answer r, .finish c.label b.held nested], htodo, by simp,
      ?_⟩
    rw [step_of_begin htodo hbegin, todo_push, htasks, hrest]
    rfl
  · next s key value rest htodo =>
    cases h
    refine ⟨_, rest, [], htodo, by simp, ?_⟩
    rw [step_of_todo_cons htodo]
    rfl
  · next t transactions entities rest htodo =>
    split at h
    · cases h
    · next hentities =>
      cases h
      refine ⟨_, rest, [.answer (.texts entities)], htodo, by simp, ?_⟩
      rw [step_of_todo_cons htodo]
      simp only [doTask, announceRemote, hentities]
      rfl
  · cases h

/-! ## The calls of an announcement -/

theorem todo_call_cases (l : Listener) (event : Event) :
    ∃ front, (m.call l event).todo = front ++ m.todo ∧
      ∀ audience e, .deliver audience e ∉ front := by
  unfold call
  split
  · split
    · split
      · exact ⟨[_], rfl, by simp⟩
      · exact ⟨[], rfl, by simp⟩
    · exact ⟨[_], rfl, by simp⟩
  · split
    · exact ⟨[_], rfl, by simp⟩
    · exact ⟨[], rfl, by simp⟩
  · split
    · unfold hearChange
      split
      · split <;> exact ⟨[_], rfl, by simp⟩
      · exact ⟨[], rfl, by simp⟩
    · exact ⟨[], rfl, by simp⟩
  · exact ⟨[], rfl, by simp⟩

theorem todo_deliver {l : Listener} {audience : List Listener} {event : Event}
    {rest : List Task} (h : m.todo = .deliver (l :: audience) event :: rest) :
    ∃ front, m.step.todo = front ++ .deliver audience event :: rest ∧
      ∀ a e, .deliver a e ∉ front := by
  rw [step_of_todo_cons h]
  exact todo_call_cases l event

theorem calls_add (m : Machine) (depth i j : ℕ) :
    m.calls depth (i + j) = m.calls depth i ++ (run i m).calls depth j := by
  simp only [calls, List.range_add, List.filterMap_append, List.filterMap_map]
  congr 1
  refine List.filterMap_congr fun k _ => ?_
  rw [Function.comp, Nat.add_comm, run_add]

theorem calls_eq_nil {depth n : ℕ} {below : List Task}
    (deep : depth < below.length)
    (above : ∀ k < n, ∃ front, front ≠ [] ∧ (run k m).todo = front ++ below) :
    m.calls depth n = [] := by
  rw [calls, List.filterMap_eq_nil_iff]
  intro k hk
  obtain ⟨front, hfront, htodo⟩ := above k (List.mem_range.mp hk)
  obtain ⟨t, front, rfl⟩ := List.exists_cons_of_ne_nil hfront
  unfold call?
  rw [htodo]
  split
  · next l audience event rest heq =>
    obtain ⟨-, rfl⟩ := List.cons.inj heq
    have hlength : (front ++ below).length ≠ depth := by
      rw [List.length_append]
      omega
    exact if_neg hlength
  · rfl

/-- Whom an announcement is to call is called once each and in that order,
whatever the callbacks do, and then the announcement is over. -/
theorem exists_calls {audience : List Listener} {event : Event}
    {below : List Task} (h : m.todo = .deliver audience event :: below) :
    ∃ n, m.Ends below n ∧
      m.calls below.length n = audience.map fun l => (l, event) := by
  induction audience generalizing m with
  | nil =>
    have hstep : m.step.todo = below := by
      rw [step_of_todo_cons h]
      rfl
    refine ⟨1, ⟨by rw [run_one, hstep], fun k hk => ?_⟩, ?_⟩
    · obtain rfl : k = 0 := by omega
      exact ⟨[_], by simp, h⟩
    · simp [calls, call?, h]
  | cons l rest ih =>
    obtain ⟨front, hstep, -⟩ := todo_deliver h
    obtain ⟨i, hends⟩ := exists_ends hstep
    obtain ⟨j, hends', hcalls⟩ := ih hends.todo
    have hrest : m.step.Ends below (j + i) :=
      Ends.append (x := [.deliver rest event]) hends (by simp) hends'
    refine ⟨1 + (i + j), ⟨?_, fun k hk => ?_⟩, ?_⟩
    · rw [Nat.add_comm 1, Nat.add_comm i, run_add, run_one, hrest.todo]
    · cases k with
      | zero => exact ⟨[_], by simp, h⟩
      | succ k =>
        rw [run_add, run_one]
        exact hrest.ahead k (by omega)
    · have hone : m.calls below.length 1 = [(l, event)] := by
        simp [calls, call?, h]
      have hlength : below.length <
          (Task.deliver rest event :: below).length := Nat.lt_succ_self _
      have hnone : m.step.calls below.length i = [] :=
        calls_eq_nil hlength hends.ahead
      rw [calls_add, run_one, calls_add, hone, hnone, hcalls]
      rfl

/-- Of the tasks that a step puts in front, one at most calls listeners. -/
theorem eq_of_only {before after front back below : List Task}
    {audience audience' : List Listener} {event event' : Event}
    (h : before ++ .deliver audience event :: (after ++ below) =
      front ++ .deliver audience' event' :: (back ++ below))
    (hfront : ∀ a e, .deliver a e ∉ front)
    (hback : ∀ a e, .deliver a e ∉ back) :
    audience = audience' ∧ event = event' ∧ after = back := by
  have hpushed : before ++ .deliver audience event :: after =
      front ++ .deliver audience' event' :: back := by
    refine List.append_cancel_right (?_ : _ ++ below = _ ++ below)
    simpa using h
  rcases List.append_eq_append_iff.mp hpushed with ⟨x, hx, hy⟩ | ⟨x, hx, hy⟩
  · cases x with
    | nil =>
      cases hy
      exact ⟨rfl, rfl, rfl⟩
    | cons t x =>
      obtain ⟨rfl, -⟩ := List.cons.inj hy
      exact absurd (hx ▸ by simp) (hfront audience event)
  · cases x with
    | nil =>
      cases hy
      exact ⟨rfl, rfl, rfl⟩
    | cons t x =>
      obtain ⟨-, hy⟩ := List.cons.inj hy
      exact absurd (hy ▸ by simp) (hback audience event)

/-- A step that begins to call listeners announces something. -/
theorem announces_of_follows (blank : m.world.Blank) {t : Task}
    {audience : List Listener} {event : Event}
    {below before after : List Task} (h : m.todo = t :: below)
    (follows : Follows { m with todo := below } t (.deliver audience event))
    (next : m.step.todo =
      before ++ .deliver audience event :: (after ++ below))
    (other : ∀ l, t ≠ .deliver (l :: audience) event) :
    ∃ n, m.announces? = some (n, event) := by
  cases follows with
  | begun c nested left =>
    obtain ⟨b, hbegin, hmem⟩ := mem_tasks_of_perform h next nofun nofun
    cases handles_begin (m := { m with todo := below }) blank hbegin with
    | stays names roster held announced attaches detaches =>
      obtain ⟨n, hn, -⟩ := announced audience event hmem
      exact ⟨n, by simpa [announces?, h] using hn⟩
    | detaches | forgets | renames =>
      simp [changing, answering] at hmem
  | deliver l => exact absurd rfl (other l)
  | announceKey s key value => exact ⟨_, by simp [announces?, h]; rfl⟩
  | deliverRemote t transactions entities =>
    cases hentities : entities.isEmpty with
    | false => exact ⟨_, by simp [announces?, h, hentities]; rfl⟩
    | true =>
      have hstep : m.step.todo = below := by
        rw [step_of_todo_cons h, doTask, announceRemote, if_pos hentities]
        rfl
      rw [hstep] at next
      have hlength := congrArg List.length next
      simp only [List.length_append, List.length_cons] at hlength
      omega

/-- Every call belongs to an announcement that is not over, and the list that
it walks through is what is left of the one that the announcement began
with. -/
theorem exists_announcement {commands : List Command}
    (room : ∀ k,
      (run k (ofCommands commands)).world.subscriptions ≤ 2 ^ 64)
    {k : ℕ} {audience : List Listener} {event : Event} {below : List Task}
    (turn : (run k (ofCommands commands)).todo =
      .deliver audience event :: below) :
    ∃ i < k, ∃ n,
      (run i (ofCommands commands)).announces? = some (n, event) ∧
      (run (i + 1) (ofCommands commands)).todo =
        .deliver ((run i (ofCommands commands)).world.audience n) event ::
          below ∧
      audience <:+ (run i (ofCommands commands)).world.audience n ∧
      (ofCommands commands).Above below i k := by
  induction k using Nat.strong_induction_on generalizing audience with
  | _ k ih =>
    have hsuffix : .deliver audience event :: below <:+
        (run k (ofCommands commands)).todo := turn ▸ List.suffix_rfl
    rcases exists_parent hsuffix with hstart | ⟨i, hi, parent, behind, before,
      after, hparent, hfollows, hnext, hrest, hwait⟩
    · obtain ⟨c, -, hc⟩ := List.mem_map.mp (hstart.subset List.mem_cons_self)
      cases hc
    have habove := above_of_suffix (List.nil_append below).symm hwait
    rw [run_succ] at hnext
    by_cases hcall : ∃ l, parent = .deliver (l :: audience) event
    · -- The listener before was called, and the rest was left.
      obtain ⟨l, rfl⟩ := hcall
      obtain ⟨front, hput, hfront⟩ := todo_deliver hparent
      have hput : (run i (ofCommands commands)).step.todo =
          front ++ .deliver audience event :: ([] ++ behind) := hput
      obtain ⟨-, -, hafter⟩ :=
        eq_of_only (hnext.symm.trans hput) hfront (by simp)
      obtain rfl : below = behind := by rw [hrest, hafter, List.nil_append]
      obtain ⟨j, hj, n, hannounces, hbegan, hpart, habove'⟩ := ih i hi hparent
      exact ⟨j, Nat.lt_trans hj hi, n, hannounces, hbegan,
        (List.suffix_cons l audience).trans hpart,
        habove'.trans (List.nil_append below ▸ habove)⟩
    · have hblank := (listed_run commands (room i)).blank
      obtain ⟨n, hannounces⟩ := announces_of_follows hblank hparent hfollows
        hnext fun l hl => hcall ⟨l, hl⟩
      obtain ⟨t, rest, back, htodo, hback, hput⟩ := todo_announces hannounces
      rw [hparent] at htodo
      obtain ⟨rfl, rfl⟩ := List.cons.inj htodo
      have hput' : (run i (ofCommands commands)).step.todo =
          [] ++ .deliver ((run i (ofCommands commands)).world.audience n)
            event :: (back ++ behind) := hput
      obtain ⟨rfl, -, rfl⟩ :=
        eq_of_only (hnext.symm.trans hput') (by simp) hback
      refine ⟨i, hi, n, hannounces, ?_, List.suffix_rfl, habove⟩
      rw [run_succ, hput, hrest]

end Machine
end LiveProperty
