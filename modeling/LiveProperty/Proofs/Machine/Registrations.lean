import LiveProperty.Proofs.Machine.Attachments

/-!
# Registrations

Along a run, a roster lists what was attached and not detached since, in the
order of numbers.  `Listed` collects what has to hold of a running machine for
that: names are in order and single, and commands hold one bridge at most.
-/

namespace LiveProperty
namespace Machine

variable {m : Machine} {a : Action}

/-- A command attaches listeners only to what was made. -/
theorem World.attaches_made {w : World} (sound : w.Sound)
    {n : Ref .notifier} {l : Listener} (h : w.attaches? a = some (n, l)) :
    n.index < w.notifiers.next := by
  cases a with
  | notice a =>
    cases a with
    | subscribe name source script =>
      obtain ⟨x, hx, hl⟩ := Option.map_eq_some_iff.mp h
      cases hl
      cases source with
      | storeKey store key =>
        obtain ⟨s, hs, rfl⟩ := Option.map_eq_some_iff.mp hx
        exact sound.changes s (sound.names _ (World.isNamed_of_store? hs))
      | store store =>
        obtain ⟨s, hs, rfl⟩ := Option.map_eq_some_iff.mp hx
        exact sound.changes s (sound.names _ (World.isNamed_of_store? hs))
      | notifier name =>
        obtain ⟨k, hk, rfl⟩ := Option.map_eq_some_iff.mp hx
        exact sound.names _ (World.isNamed_of_notifier? hk)
      | bus bus =>
        obtain ⟨k, hk, rfl⟩ := Option.map_eq_some_iff.mp hx
        rcases World.isNamed_of_bus? hk with rfl | named
        · exact sound.sharedBus
        · exact sound.names _ named
    | _ => cases h
  | store a =>
    cases a with
    | newKeyBridge name key kind initial store envelope presenter =>
      simp only [World.attaches?] at h
      split at h
      · next s p hs hp =>
        cases h
        refine sound.changes _ ?_
        cases s with
        | none => exact sound.defaultStore
        | some s =>
          cases store with
          | none => cases hs
          | some store =>
            simp only [neededIfGiven, needed, Except.map] at hs
            split at hs
            · cases hs
            · next s' hs' =>
              cases hs
              cases hfind : w.store? store with
              | none => simp [hfind] at hs'
              | some r =>
                simp only [hfind, Except.ok.injEq] at hs'
                subst hs'
                exact sound.names _ (World.isNamed_of_store? hfind)
      · cases h
    | _ => cases h
  | query a =>
    cases a with
    | newQueryBridge name rowType parts =>
      simp only [World.attaches?] at h
      split at h
      · next d hd =>
        obtain ⟨e, -, he⟩ := Option.map_eq_some_iff.mp h
        cases he
        have named := QueryDraft.named_foldlM (w := w)
          (d := { changes := w.sharedBus }) (by simp [QueryDraft.Named]) hd
        rcases named.2 with heq | named
        · rw [heq]
          exact sound.sharedBus
        · exact sound.names _ named
      · cases h
    | _ => cases h
  | _ => cases h

theorem attaching_made (sound : m.Sound) {n : Ref .notifier} {l : Listener}
    (h : m.attaching? = some (n, l)) : n.index < m.world.notifiers.next := by
  unfold attaching? at h
  split at h
  · exact World.attaches_made sound.world h
  · cases h

/-- Names after a step: they stay, or one is taken away, or one is given to
something that had none. -/
inductive Renames (m : Machine) : Dictionary Named → Prop
  | stays : Renames m m.world.names
  | erases (name : String) : Renames m (m.world.names.erase name)
  | puts (name : String) (x : Named)
      (new : ∀ o, x = .object o → ¬ m.world.isNamed o) :
      Renames m (m.world.names.put name x)

/-- A step that attaches a listener gives it the next number. -/
theorem renames_step (listed : m.Listed)
    (room : m.step.world.subscriptions ≤ 2 ^ 64) :
    m.Renames m.step.world.names ∧
      (m.attaching?.isSome →
        m.step.world.subscriptions = m.world.subscriptions + 1) := by
  cases htodo : m.todo with
  | nil =>
    rw [step_of_todo_nil htodo]
    exact ⟨.stays, by simp [attaching?, htodo]⟩
  | cons t rest =>
    have hstep := step_of_todo_cons htodo
    cases t with
    | finish label held nested =>
      rw [hstep, doTask, names_finish]
      exact ⟨.stays, by simp [attaching?, htodo]⟩
    | perform c nested =>
      rw [attaching_of_perform htodo]
      cases hbegin : begin { m with todo := rest } c.action with
      | error r =>
        obtain ⟨hattaches, -⟩ := attaches_of_refused hbegin
        have hnone : m.world.attaches? c.action = none := hattaches
        rw [step_of_refused htodo hbegin, hnone]
        exact ⟨.stays, by simp⟩
      | ok b =>
        have hstep := step_of_begin htodo hbegin
        have hhandles := handles_begin (m := { m with todo := rest })
          listed.blank hbegin
        cases hhandles with
        | stays names roster held announced attaches detaches =>
          have hnone : m.world.attaches? c.action = none := attaches
          have hnames : m.step.world.names = m.world.names := by
            rw [hstep]
            exact names
          rw [hnames, hnone]
          exact ⟨.stays, by simp⟩
        | detaches source id named =>
          have hnone : m.world.attaches? c.action = none :=
            World.attaches_of_detaches named
          rw [hstep, hnone]
          exact ⟨.stays, by simp⟩
        | forgets name discards =>
          have hnames : m.step.world.names = m.world.names.erase name := by
            rw [hstep]
            exact names_releaseNamed _
          have hnone : m.world.attaches? c.action = none := by
            rcases discards with heq | heq <;> rw [heq] <;> rfl
          rw [hnames, hnone]
          exact ⟨.erases name, by simp⟩
        | @renames w name x r joins new detaches =>
          have hnames : m.step.world.names = m.world.names.put name x := by
            rw [hstep]
            refine (names_releaseNamed _).trans ?_
            exact congrArg (fun d => Dictionary.put d name x) joins.names
          have hcount : m.step.world.subscriptions = w.subscriptions := by
            rw [hstep]
            exact subscriptions_rename name x
          rw [hnames]
          refine ⟨.puts name x fun o ho named => ?_, fun hnew => ?_⟩
          · rcases new o ho with hnot | ⟨hnew, n, rfl⟩
            · exact hnot (listed.sound.world.names o named)
            · have hnext := joins.count hnew
              simp only at hnext
              refine listed.id_ne_fresh (by omega)
                (Bool.or_eq_true_iff.mpr (Or.inl named)) rfl rfl
          · rw [hcount]
            exact joins.count hnew
    | _ =>
      have hsame : SameNames { m with todo := rest } m.step := by
        rw [step_of_todo_cons htodo]
        exact sameNames_doTask (by simp) (by simp)
      rw [hsame.1]
      exact ⟨.stays, by simp [attaching?, htodo]⟩

theorem Renames.ordered {d : Dictionary Named} (h : m.Renames d)
    (ordered : m.world.names.Ordered) : d.Ordered := by
  cases h with
  | stays => exact ordered
  | erases name => exact Dictionary.ordered_erase ordered name
  | puts name x new => exact Dictionary.ordered_put ordered name x

theorem Renames.single {d : Dictionary Named} (h : m.Renames d)
    (listed : m.Listed) {name name' : String} {o : Object}
    (ho : (name, Named.object o) ∈ d) (ho' : (name', Named.object o) ∈ d) :
    name = name' := by
  cases h with
  | stays => exact listed.single name name' o ho ho'
  | erases gone =>
    exact listed.single name name' o (Dictionary.mem_of_mem_erase ho)
      (Dictionary.mem_of_mem_erase ho')
  | puts given x new =>
    rw [Dictionary.mem_put_iff listed.ordered] at ho ho'
    rcases ho with heq | ⟨ho, -⟩
    · obtain ⟨rfl, hx⟩ := Prod.mk.inj heq
      rcases ho' with heq' | ⟨ho', -⟩
      · exact (Prod.mk.inj heq').1.symm
      · exact absurd (isNamed_iff.mpr ⟨_, ho'⟩) (new o hx.symm)
    · rcases ho' with heq' | ⟨ho', -⟩
      · obtain ⟨rfl, hx⟩ := Prod.mk.inj heq'
        exact absurd (isNamed_iff.mpr ⟨_, ho⟩) (new o hx.symm)
      · exact listed.single name name' o ho ho'

theorem holdsOne_of_begin (blank : m.world.Blank) {b : Begun}
    (h : m.begin a = .ok b) : HoldsOne b.held := by
  cases handles_begin blank h with
  | stays names roster held => exact held
  | detaches | forgets | renames => exact holdsOne_nil

theorem notifiers_next_le (m : Machine) :
    m.world.notifiers.next ≤ m.step.world.notifiers.next := by
  cases hnext : m.world.notifiers.next with
  | zero => exact Nat.zero_le _
  | succ k =>
    have has : m.world.Has (.notifier ⟨k⟩) := by simp [World.Has, hnext]
    exact has_step has

theorem Listed.step (listed : m.Listed)
    (room : m.step.world.subscriptions ≤ 2 ^ 64) : m.step.Listed := by
  have hrenames := (renames_step listed room).1
  refine ⟨listed.sound.step, listed.linked.step listed.sound room,
    hrenames.ordered listed.ordered,
    fun name name' o => hrenames.single listed, ?_, ?_⟩
  · intro n hn
    have hold := Nat.le_trans (notifiers_next_le m) hn
    have hgains : m.world.gains m.attaching? n = [] := by
      rw [List.eq_nil_iff_forall_not_mem]
      intro entry hentry
      obtain ⟨l, hl, -⟩ := World.mem_gains.mp hentry
      exact absurd (attaching_made listed.sound hl) (Nat.not_lt_of_le hold)
    rw [roster_step listed room, nextRoster, listed.blank n hold, hgains]
    rfl
  · intro t ht
    cases htodo : m.todo with
    | nil =>
      rw [step_of_todo_nil htodo] at ht
      exact listed.holds t ht
    | cons x rest =>
      obtain ⟨pushed, hpushed, hfollows⟩ := todo_step htodo
      rw [hpushed] at ht
      rcases List.mem_append.mp ht with ht | ht
      · cases hfollows t ht with
        | begun c nested left => cases left <;> exact holdsOne_nil
        | finish begun =>
          exact holdsOne_of_begin (m := { m with todo := rest }) listed.blank
            begun
        | _ => exact holdsOne_nil
      · exact listed.holds t (htodo ▸ List.mem_cons_of_mem x ht)

theorem roster_ofCommands (commands : List Command) (n : Ref .notifier) :
    (ofCommands commands).world.roster n = [] := by
  obtain ⟨i⟩ := n
  rcases i with _ | _ | i <;> rfl

theorem listed_ofCommands (commands : List Command) :
    (ofCommands commands).Listed := by
  refine ⟨sound_ofCommands commands, linked_ofCommands commands,
    List.Pairwise.nil, nofun, fun n _ => roster_ofCommands commands n, ?_⟩
  intro t ht
  obtain ⟨c, -, rfl⟩ := List.mem_map.mp ht
  exact holdsOne_nil

/-- As long as there are no more subscriptions than numbers, listeners are
told apart. -/
theorem listed_run (commands : List Command) {n : ℕ}
    (room : (run n (ofCommands commands)).world.subscriptions ≤ 2 ^ 64) :
    (run n (ofCommands commands)).Listed := by
  induction n with
  | zero => exact listed_ofCommands commands
  | succ n ih =>
    rw [run_succ] at room ⊢
    exact (ih ((subscriptions_le_step _).trans room)).step room

/-- A name that is taken from a subscription was its only handle. -/
theorem Listed.detaches_of_discards (listed : m.Listed) {c : Command}
    {nested : Bool} {rest : List Task} {name : String} {s : Subscription}
    (h : m.todo = .perform c nested :: rest)
    (discards : c.action = .drop name ∨ c.action = .cancel name)
    (hs : m.world.subscription? name = some s) : m.Detaches s.source s.id := by
  have hlookup : m.world.lookup? name = some (.object (.subscription s)) := by
    unfold World.subscription? at hs
    split at hs
    · next heq => cases hs; exact heq
    · cases hs
  have hbegin : begin { m with todo := rest } c.action =
      .ok ((forget { m with todo := rest } name).answering .nothing) := by
    rcases discards with heq | heq <;>
      simp [heq, begin, needed, hlookup, bind, Except.bind]
  refine Or.inr ⟨.subscription s, ?_, rfl⟩
  rw [loses_answering h hbegin, forget, isHeld_releaseNamed, isHeld_eq,
    isHeld_eq, World.isHeldWith_iff, World.isHeldWith_iff]
  refine ⟨Or.inl (World.isNamed_of_lookup hlookup), ?_⟩
  rintro (named | ⟨t, ht, ho⟩)
  · obtain ⟨other, hmem⟩ := isNamed_iff.mp named
    obtain ⟨hmem, hne⟩ := (Dictionary.mem_erase_iff listed.ordered).mp hmem
    exact hne (listed.single other name _ hmem (Dictionary.mem_of_find? hlookup))
  · exact (listed.holds t (h ▸ List.mem_cons_of_mem _ ht)).subscription s ho

/-- A step that takes the last handle on something is told to detach nothing,
and takes no other last handle to which a number belongs. -/
theorem Listed.only_of_loses (listed : m.Listed) {o : Object}
    (lost : m.Loses o) {s : Subscription}
    (hs : m.world.subscriptionOf? o = some s) :
    m.detaching? = none ∧ ∀ o' s', m.Loses o' →
      m.world.subscriptionOf? o' = some s' → o' = o := by
  cases htodo : m.todo with
  | nil =>
    rw [Loses, step_of_todo_nil htodo] at lost
    exact absurd lost.1 lost.2
  | cons t rest =>
    cases t with
    | finish label held nested =>
      refine ⟨by simp [detaching?, htodo], fun o' s' lost' hs' => ?_⟩
      have hholds : HoldsOne held :=
        listed.holds (.finish label held nested) (htodo ▸ List.mem_cons_self)
      have hbridge {x : Object} {sx : Subscription} (hx : m.Loses x)
          (hsx : m.world.subscriptionOf? x = some sx) :
          ∃ b : Bridge, b.object ∈ held ∧ x = b.object := by
        obtain ⟨hmem, -⟩ := (loses_finish htodo x).mp hx
        rcases World.subscriptionOf_eq_some hsx with rfl | ⟨b, rfl, -⟩
        · exact absurd hmem (hholds.subscription sx)
        · exact ⟨b, hmem, rfl⟩
      obtain ⟨b, hb, rfl⟩ := hbridge lost hs
      obtain ⟨b', hb', rfl⟩ := hbridge lost' hs'
      rw [hholds.bridge b b' hb hb']
    | perform c nested =>
      rw [detaching_of_perform htodo]
      cases hbegin : begin { m with todo := rest } c.action with
      | error r =>
        have hstep := step_of_refused htodo hbegin
        exact absurd lost
          (not_loses_of_names htodo rfl (by rw [hstep]; rfl) o)
      | ok b =>
        have hstep := step_of_begin htodo hbegin
        cases handles_begin (m := { m with todo := rest }) listed.blank
          hbegin with
        | stays names roster held announced attaches detaches =>
          exact absurd lost
            (not_loses_of_names htodo rfl (by rw [hstep]; exact names) o)
        | detaches source id named =>
          exact absurd lost
            (not_loses_of_names htodo rfl (by rw [hstep]; rfl) o)
        | forgets name discards =>
          refine ⟨?_, fun o' s' lost' hs' => ?_⟩
          · rcases discards with heq | heq <;> rw [heq] <;> rfl
          · rw [loses_answering htodo hbegin] at lost lost'
            have hname := lookup_of_lost_forget
              (m := { m with todo := rest }) listed.ordered lost.1 lost.2
            have hname' := lookup_of_lost_forget
              (m := { m with todo := rest }) listed.ordered lost'.1 lost'.2
            cases hname.symm.trans hname'
            rfl
        | renames name x r joins new detaches =>
          refine ⟨detaches, fun o' s' lost' hs' => ?_⟩
          rw [loses_answering htodo hbegin] at lost lost'
          have hname := lookup_of_lost_rename (m := { m with todo := rest })
            listed.ordered joins.names lost.1 lost.2
          have hname' := lookup_of_lost_rename (m := { m with todo := rest })
            listed.ordered joins.names lost'.1 lost'.2
          cases hname.symm.trans hname'
          rfl
    | _ =>
      have hsame : SameNames { m with todo := rest } m.step := by
        rw [step_of_todo_cons htodo]
        exact sameNames_doTask (by simp) (by simp)
      exact absurd lost (not_loses_of_names htodo rfl hsame.1 o)

/-- A bridge to which the last handle goes is detached, and nothing else is. -/
theorem Listed.detaches_iff_of_loses (listed : m.Listed) {b : Bridge}
    (lost : m.Loses b.object) {n : Ref .notifier} {id : SubscriberId} :
    m.Detaches n id ↔ m.world.subscription b = ⟨id, n⟩ := by
  have hs := m.world.subscriptionOf_bridge b
  obtain ⟨htold, honly⟩ := listed.only_of_loses lost hs
  constructor
  · rintro (h | ⟨o, ho, h⟩)
    · rw [htold] at h
      cases h
    · obtain rfl := honly o _ ho h
      exact Option.some.inj (hs.symm.trans h)
  · intro h
    exact Or.inr ⟨b.object, lost, hs.trans (congrArg some h)⟩

/-! ## Runs -/

variable {commands : List Command}

/-- A step of a run attaches a listener to a notifier, under a number. -/
def AttachesAt (m : Machine) (i : ℕ) (n : Ref .notifier) (id : SubscriberId)
    (l : Listener) : Prop :=
  (run i m).attaching? = some (n, l) ∧ (run i m).world.freshSubscriber = id

section

variable (room : ∀ k,
  (run k (ofCommands commands)).world.subscriptions ≤ 2 ^ 64)

include room

theorem mem_roster_succ {k : ℕ} {n : Ref .notifier} {id : SubscriberId}
    {l : Listener} :
    (id, l) ∈ (run (k + 1) (ofCommands commands)).world.roster n ↔
      (id, l) ∈ (run k (ofCommands commands)).world.roster n ∧
          ¬ (run k (ofCommands commands)).Detaches n id ∨
        (ofCommands commands).AttachesAt k n id l := by
  have hroom := room (k + 1)
  rw [run_succ] at hroom ⊢
  rw [roster_step (listed_run commands (room k)) hroom, mem_nextRoster]
  apply or_congr_right
  constructor
  · rintro ⟨l', hnew, heq⟩
    obtain ⟨rfl, rfl⟩ := Prod.mk.inj heq
    exact ⟨hnew, rfl⟩
  · rintro ⟨hnew, rfl⟩
    exact ⟨l, hnew, rfl⟩

theorem mem_roster_iff {k : ℕ} {n : Ref .notifier} {id : SubscriberId}
    {l : Listener} :
    (id, l) ∈ (run k (ofCommands commands)).world.roster n ↔
      ∃ i < k, (ofCommands commands).AttachesAt i n id l ∧
        ∀ j, i < j → j < k →
          ¬ (run j (ofCommands commands)).Detaches n id := by
  induction k with
  | zero =>
    simp [roster_ofCommands]
  | succ k ih =>
    rw [mem_roster_succ room, ih]
    constructor
    · rintro (⟨⟨i, hi, hattaches, hkept⟩, hnot⟩ | hattaches)
      · refine ⟨i, Nat.lt_succ_of_lt hi, hattaches, fun j hij hjk => ?_⟩
        rcases Nat.lt_succ_iff_lt_or_eq.mp hjk with hlt | rfl
        · exact hkept j hij hlt
        · exact hnot
      · exact ⟨k, Nat.lt_succ_self k, hattaches, fun j hkj hjk => by omega⟩
    · rintro ⟨i, hi, hattaches, hkept⟩
      rcases Nat.lt_succ_iff_lt_or_eq.mp hi with hlt | rfl
      · exact Or.inl ⟨⟨i, hlt, hattaches, fun j hij hjk =>
          hkept j hij (Nat.lt_succ_of_lt hjk)⟩,
          hkept k hlt (Nat.lt_succ_self k)⟩
      · exact Or.inr hattaches

/-- Numbers are given out in the order of subscriptions. -/
theorem number_lt {i j : ℕ} {n n' : Ref .notifier} {id id' : SubscriberId}
    {l l' : Listener} (lt : i < j)
    (h : (ofCommands commands).AttachesAt i n id l)
    (h' : (ofCommands commands).AttachesAt j n' id' l') :
    id.number < id'.number := by
  have hcount {k : ℕ} {n : Ref .notifier} {id : SubscriberId} {l : Listener}
      (h : (ofCommands commands).AttachesAt k n id l) :
      (run (k + 1) (ofCommands commands)).world.subscriptions =
        (run k (ofCommands commands)).world.subscriptions + 1 := by
    have hroom := room (k + 1)
    rw [run_succ] at hroom ⊢
    exact (renames_step (listed_run commands (room k)) hroom).2 (by simp [h.1])
  have hnumber {k : ℕ} {n : Ref .notifier} {id : SubscriberId} {l : Listener}
      (h : (ofCommands commands).AttachesAt k n id l) : id.number.toNat =
        (run k (ofCommands commands)).world.subscriptions := by
    have hroom := room (k + 1)
    rw [hcount h] at hroom
    rw [← h.2, World.freshSubscriber, UInt64.toNat_ofNat',
      Nat.mod_eq_of_lt hroom]
  rw [UInt64.lt_iff_toNat_lt, hnumber h, hnumber h']
  have hle : (run (i + 1) (ofCommands commands)).world.subscriptions ≤
      (run j (ofCommands commands)).world.subscriptions :=
    subscriptions_le_run lt
  rw [hcount h] at hle
  exact hle

theorem attachesAt_unique {i j : ℕ} {n n' : Ref .notifier}
    {id : SubscriberId} {l l' : Listener}
    (h : (ofCommands commands).AttachesAt i n id l)
    (h' : (ofCommands commands).AttachesAt j n' id l') :
    i = j ∧ n' = n ∧ l' = l := by
  obtain hlt | rfl | hlt := Nat.lt_trichotomy i j
  · exact absurd (number_lt room hlt h h') (Nat.lt_irrefl _)
  · cases h.1.symm.trans h'.1
    exact ⟨rfl, rfl, rfl⟩
  · exact absurd (number_lt room hlt h' h) (Nat.lt_irrefl _)

theorem pairwise_roster (k : ℕ) (n : Ref .notifier) :
    ((run k (ofCommands commands)).world.roster n).Pairwise
      fun x y => x.1.number < y.1.number := by
  induction k with
  | zero =>
    rw [run_zero, roster_ofCommands]
    exact List.Pairwise.nil
  | succ k ih =>
    have hroom := room (k + 1)
    rw [run_succ] at hroom ⊢
    rw [roster_step (listed_run commands (room k)) hroom, nextRoster]
    refine List.pairwise_append.mpr
      ⟨ih.sublist List.filter_sublist, ?_, fun x hx y hy => ?_⟩
    · unfold World.gains
      cases (run k (ofCommands commands)).attaching?.filter _ <;> simp
    · obtain ⟨i, hi, hattaches, -⟩ :=
        (mem_roster_iff room).mp (List.mem_filter.mp hx).1
      obtain ⟨l, hl, rfl⟩ := World.mem_gains.mp hy
      exact number_lt room hi hattaches ⟨hl, rfl⟩

theorem detach_eq_self {i j k : ℕ} {n n' : Ref .notifier} {id : SubscriberId}
    {l : Listener} (h : (ofCommands commands).AttachesAt i n id l)
    (lt : i < j) (detaches : (run j (ofCommands commands)).Detaches n id)
    (later : j < k) :
    ((run k (ofCommands commands)).world.notifiers.get n').detach id =
      (run k (ofCommands commands)).world.notifiers.get n' := by
  apply Notifier.detach_of_forall_ne
  rintro ⟨id', l'⟩ hmem rfl
  obtain ⟨i', hi', hattaches, hkept⟩ := (mem_roster_iff room).mp hmem
  obtain ⟨rfl, rfl, rfl⟩ := attachesAt_unique room h hattaches
  exact hkept j lt later detaches

end

end Machine
end LiveProperty
