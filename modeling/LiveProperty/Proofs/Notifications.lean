import LiveProperty.Proofs.Machine.Announcements

/-!
# Notifications

Listeners come and go while announcements are under way, and announcements
are made while listeners are called.  Through all of it the roster of a
notifier lists what was attached to it and not detached since, and an
announcement calls those that stood there when it began.
-/

namespace LiveProperty
namespace Machine

variable {commands : List Command}

/-- A client's command takes a name from a subscription, at a step of a
run. -/
def Discards (m : Machine) (k : ℕ) (s : Subscription) : Prop :=
  ∃ c nested rest name, (run k m).todo = .perform c nested :: rest ∧
    (c.action = .drop name ∨ c.action = .cancel name) ∧
    (run k m).world.subscription? name = some s

/-- Notifiers keep their rosters along a run. -/
structure KeepsRosters (m : Machine) : Prop where
  /-- A roster lists what was attached and not detached since. -/
  roster : ∀ k n id l, (id, l) ∈ (run k m).world.roster n ↔
    ∃ i < k, m.AttachesAt i n id l ∧
      ∀ j, i < j → j < k → ¬ (run j m).Detaches n id
  /-- It does so in the order of numbers, -/
  increasing : ∀ k n, ((run k m).world.roster n).Pairwise
    fun x y => x.1.number < y.1.number
  /-- which is the order of subscriptions, over all notifiers. -/
  issued : ∀ i j n n' id id' l l', i < j → m.AttachesAt i n id l →
    m.AttachesAt j n' id' l' → id.number < id'.number
  /-- A listener goes when its own number is detached from its notifier. -/
  leaves : ∀ k n, ∀ entry ∈ (run k m).world.roster n,
    (entry ∉ (run (k + 1) m).world.roster n ↔
      (run k m).Detaches n entry.1)
  /-- A number never stands for another listener, on any notifier. -/
  own : ∀ i k n n' id l l', m.AttachesAt i n id l → i < k →
    (id, l') ∈ (run k m).world.roster n' → n' = n ∧ l' = l
  /-- A handle that a client gives up detaches its number. -/
  discards : ∀ k s, m.Discards k s → (run k m).Detaches s.source s.id
  /-- Once a number was detached, detaching it changes nothing. -/
  again : ∀ i j k n n' id l, m.AttachesAt i n id l → i < j →
    (run j m).Detaches n id → j < k →
    ((run k m).world.notifiers.get n').detach id =
      (run k m).world.notifiers.get n'
  /-- A client's notifier that has no name is not found again. -/
  gone : ∀ j k n, (run j m).world.Has (.notifier n) →
    (run j m).world.isNamed (.notifier n) = false → j ≤ k →
    ∀ name, (run k m).world.notifier? name ≠ some n

/-- Announcements call the listeners that were attached when they began. -/
structure CallsRosters (m : Machine) : Prop where
  /-- They are called once each and in order, and then the announcement is
  over. -/
  calls : ∀ i n event, (run i m).announces? = some (n, event) →
    ∃ below e, (run (i + 1) m).todo =
        .deliver ((run i m).world.audience n) event :: below ∧
      (run (i + 1) m).Ends below e ∧
      (run (i + 1) m).calls below.length e =
        ((run i m).world.roster n).map fun entry => (entry.2, event)
  /-- Nobody is called otherwise. -/
  called : ∀ k l rest event below,
    (run k m).todo = .deliver (l :: rest) event :: below →
    ∃ i < k, ∃ n, (run i m).announces? = some (n, event) ∧
      (run (i + 1) m).todo =
        .deliver ((run i m).world.audience n) event :: below ∧
      (l :: rest) <:+ (run i m).world.audience n ∧ m.Above below i k

/-- A client's notifier that has no name gets none. -/
theorem notifier_ne_of_unnamed {m : Machine} {j k : ℕ} {n : Ref .notifier}
    (has : (run j m).world.Has (.notifier n))
    (unnamed : (run j m).world.isNamed (.notifier n) = false) (le : j ≤ k)
    (name : String) : (run k m).world.notifier? name ≠ some n := by
  have hunnamed : (run k m).world.isNamed (.notifier n) = false := by
    induction k, le using Nat.le_induction with
    | base => exact unnamed
    | succ k le ih =>
      rw [run_succ]
      cases htodo : (run k m).todo with
      | nil => rwa [step_of_todo_nil htodo]
      | cons t rest =>
        refine Bool.eq_false_iff.mpr fun named => ?_
        have hnamed := (effect_step htodo).isNamed (has_run le has) nofun named
        exact Bool.false_ne_true (ih.symm.trans hnamed)
  intro hfound
  exact Bool.false_ne_true
    (hunnamed.symm.trans (World.isNamed_of_notifier? hfound))

/-- Along every run of a client, as long as there are no more subscriptions
than numbers, rosters list what is attached, and announcements call what was
attached when they began. -/
theorem notifies (room : ∀ k,
      (run k (ofCommands commands)).world.subscriptions ≤ 2 ^ 64) :
    (ofCommands commands).KeepsRosters ∧
      (ofCommands commands).CallsRosters := by
  constructor
  · refine
      { roster := fun k n id l => mem_roster_iff room
        increasing := pairwise_roster room
        issued := fun i j n n' id id' l l' => number_lt room
        leaves := fun k n entry hentry => ?_
        own := fun i k n n' id l l' h lt hmem => ?_
        discards := ?_
        again := fun i j k n n' id l => detach_eq_self room
        gone := fun j k n => notifier_ne_of_unnamed }
    · rw [mem_roster_succ room]
      have hnew : ¬ (ofCommands commands).AttachesAt k n entry.1 entry.2 := by
        intro h
        obtain ⟨i, hi, hattaches, -⟩ := (mem_roster_iff room).mp hentry
        exact absurd (attachesAt_unique room hattaches h).1 (Nat.ne_of_lt hi)
      simp [hentry, hnew]
    · obtain ⟨j, -, hattaches, -⟩ := (mem_roster_iff room).mp hmem
      exact (attachesAt_unique room h hattaches).2
    · rintro k s ⟨c, nested, rest, name, htodo, hdiscards, hs⟩
      exact (listed_run commands (room k)).detaches_of_discards htodo hdiscards
        hs
  · refine ⟨fun i n event h => ?_, fun k l rest event below turn => ?_⟩
    · obtain ⟨t, rest, after, -, -, hput⟩ := todo_announces h
      rw [← run_succ] at hput
      obtain ⟨e, hends, hcalls⟩ := exists_calls hput
      refine ⟨_, e, hput, hends, hcalls.trans ?_⟩
      rw [World.audience_eq, List.map_map]
      rfl
    · exact exists_announcement room turn

/-- A client with two listeners.  The first one, when it is called, has a third
one listen, detaches the number of the second one from another notifier, gives
up the second one's handle and announces something itself. -/
def changesListeners : List Command :=
  [.mk .null (.notice (.newNotifier "n")),
    .mk .null (.notice (.newNotifier "o")),
    .mk .null (.notice (.subscribe "a" (.notifier "n")
      [(1, [.mk .null (.notice (.subscribe "c" (.notifier "n") [])),
        .mk .null (.notice (.unsubscribe "o" "b")),
        .mk .null (.cancel "b"),
        .mk .null (.notice (.announce "n" .null))])])),
    .mk .null (.notice (.subscribe "b" (.notifier "n") [])),
    .mk .null (.notice (.announce "n" .null)),
    .mk .null (.notice (.unsubscribe "n" "a")),
    .mk .null (.drop "n"),
    .mk .null (.drop "a")]

/-- The client's listener that a happening says was called. -/
def heardBy? : Happening → Option String
  | .heard name _ => some name
  | _ => none

/-- Here the second listener is called by the outer announcement though it is
detached before its turn, and the third one by the inner announcement only. -/
theorem notifies_change_in_listener :
    (ofCommands changesListeners).KeepsRosters ∧
      (ofCommands changesListeners).CallsRosters ∧
      (run 46 (ofCommands changesListeners)).world.journal.reverse.filterMap
        heardBy? = ["a", "a", "c", "b"] := by
  have hroom : ∀ k,
      (run k (ofCommands changesListeners)).world.subscriptions ≤ 2 ^ 64 :=
    forall_run_of_halted (P := fun m => m.world.subscriptions ≤ 2 ^ 64) 46
      (by decide +kernel) (by decide +kernel)
  obtain ⟨hkeeps, hcalls⟩ := notifies hroom
  exact ⟨hkeeps, hcalls, by decide +kernel⟩

end Machine
end LiveProperty
