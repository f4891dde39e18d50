import LiveProperty.Proofs.KeyReads
import LiveProperty.Proofs.Machine.Calls
import LiveProperty.Proofs.Machine.Quiet
import LiveProperty.Proofs.Storables

/-!
# Writes through a key bridge

A write through a key bridge goes to the store, whose announcement clears the
cache of the bridge before the call returns.  So the next read answers what
was written, whatever was cached before, and whatever a fetch that was under
way would have stored.
-/

namespace LiveProperty
namespace KeyBridge

variable {k : KeyBridge}

/-- A value that has a stored form is what is read when that is stored. -/
theorem read_of_encode {v : k.kind.Value} {stored : StoreValue}
    (hv : k.kind.Regular v) (h : k.kind.encode v = .ok (some stored)) :
    k.read (some stored) = .value k.kind v := by
  simp only [read, valueOf, Storable.valueOr, Storable.decode_encode _ hv h]

/-- An optional value is read back, unless it is none and there is a default
in its place. -/
theorem read_optional_iff {u : Storable} (optional : k.kind = .optional u)
    (keeps : ∀ x, u.encode x ≠ .ok none) :
    (∀ v out, k.kind.Regular v → k.kind.encode v = .ok out →
        k.read out = .value k.kind v) ↔
      Reply.value k.kind k.initial = .value (.optional u) none := by
  obtain ⟨store, key, kind, initial, cache, relay, subscription⟩ := k
  obtain rfl : kind = .optional u := optional
  constructor
  · intro h
    exact h none none trivial rfl
  · intro hinitial v out hv hout
    cases out with
    | some stored => exact read_of_encode hv hout
    | none =>
      cases v with
      | some x => exact absurd hout (keeps x)
      | none => exact hinitial

/-- Every value can be spelled for the kind of a bridge. -/
theorem exists_spelled (v : k.kind.Value) :
    ∃ spelled : (kind : Storable) → Option kind.Value,
      spelled k.kind = some v :=
  ⟨fun kind => if h : kind = k.kind then some (h ▸ v) else none, dif_pos rfl⟩

/-- A call of the setter is to write the stored form of a value, or to clear
the entry. -/
inductive Asks (k : KeyBridge) :
    Option ((kind : Storable) → Option kind.Value) → Option StoreValue → Prop
  | clear : Asks k none none
  | encoded (spelled : (kind : Storable) → Option kind.Value)
      (v : k.kind.Value) (out : Option StoreValue)
      (spells : spelled k.kind = some v) (encodes : k.kind.encode v = .ok out) :
      Asks k (some spelled) out

end KeyBridge

/-- A call of the setter of a bridge and then one of its getter, with the names
by which a client calls them. -/
structure Calls where
  setter : String
  getter : String
  setLabel : Json
  getLabel : Json
  nested : Bool

namespace Calls

/-- The call of the setter. -/
def set (c : Calls) (value : Option ((kind : Storable) → Option kind.Value)) :
    Task :=
  .perform (.mk c.setLabel (.store (.setKey c.setter value))) c.nested

/-- The call of the getter. -/
def get (c : Calls) : Task :=
  .perform (.mk c.getLabel (.store (.getKey c.getter))) c.nested

end Calls

namespace Machine

variable {m : Machine} {b : Ref .keyBridge} {c : Calls} {rest : List Task}
  {value : Option ((kind : Storable) → Option kind.Value)}

/-! ## The setter -/

theorem step_set {out : Option StoreValue} (h : m.todo = c.set value :: rest)
    (found : m.world.keyBridge? c.setter = some b)
    (asks : (m.world.keyBridges.get b).Asks value out) :
    m.step = { m with
      todo := .write (m.world.keyBridges.get b).store
        (m.world.keyBridges.get b).key out :: .answer .nothing ::
          .finish c.setLabel [.keyBridge b] c.nested :: rest } := by
  rw [step_of_todo_cons h]
  cases asks with
  | clear =>
    simp [Calls.set, doTask, perform, Command.action, Command.label, begin,
      beginStore, found, needed, push, bind, Except.bind]
  | encoded spelled v out spells encodes =>
    simp [Calls.set, doTask, perform, Command.action, Command.label, begin,
      beginStore, found, needed, push, bind, Except.bind, spells, writingKey,
      encodes]

/-- A value that has no stored form is reported, and nothing else happens. -/
theorem step_set_refused {spelled : (kind : Storable) → Option kind.Value}
    {v : (m.world.keyBridges.get b).kind.Value} {e : BridgeError}
    (h : m.todo = c.set (some spelled) :: rest)
    (found : m.world.keyBridge? c.setter = some b)
    (spells : spelled (m.world.keyBridges.get b).kind = some v)
    (fails : (m.world.keyBridges.get b).kind.encode v = .error e) :
    m.step = ⟨m.world.tell
        (.writeRefused b (m.world.keyBridges.get b).key e),
      .answer .nothing :: .finish c.setLabel [] c.nested :: rest,
      m.reply⟩ := by
  rw [step_of_todo_cons h]
  simp [Calls.set, doTask, perform, Command.action, Command.label, begin,
    beginStore, found, needed, push, bind, Except.bind, spells, writingKey,
    fails, changing, answering, modifyWorld]

/-- The setter writes the key, and lets the store announce it.  By the end of
the call the cache of the bridge was cleared. -/
structure Clears (m : Machine) (b : Ref .keyBridge) (out : Option StoreValue)
    (n : ℕ) : Prop where
  stored : (run 2 m).stored b = out
  clears : (∀ k < n, (run k m).obliges) → ∃ c, 2 ≤ c ∧ c < n ∧
    ((run (c + 1) m).world.cell (.bridge (.key b))).value = none

theorem clears_of_set (sound : m.Sound) {out : Option StoreValue}
    (h : m.todo = c.set value :: rest)
    (found : m.world.keyBridge? c.setter = some b)
    (attached : m.world.Attached (.key b))
    (asks : (m.world.keyBridges.get b).Asks value out)
    (calm : ∀ t ∈ rest, ¬ t.Owes m.world (.key b)) :
    ∃ n, m.Ends rest n ∧ m.Clears b out n := by
  have hhas : (run 0 m).world.Has (Bridge.key b).object :=
    sound.world.names _ (World.isNamed_of_keyBridge? found)
  have hone := (run_one m).trans (step_set h found asks)
  have hworld : (run 1 m).world = m.world := by rw [hone]
  have hwrite : (run 1 m).todo = [.write (m.world.keyBridges.get b).store
      (m.world.keyBridges.get b).key out, .answer .nothing] ++
        .finish c.setLabel [.keyBridge b] c.nested :: rest := by
    rw [hone]
    rfl
  have htwo : run 2 m = _ := (run_succ 1 m).trans (step_of_todo_cons hwrite)
  have howes : (run 1 m).step.Owes (.key b) := by
    apply owes_of_write (sound.after 1)
    · exact hworld ▸ hhas
    · exact hworld ▸ attached
    · rw [WritesKeyOf, hworld]
      exact ⟨out, _, hwrite⟩
  rw [← run_succ] at howes
  obtain ⟨t, hwaits⟩ := exists_waits hwrite
  have hfinish := hwaits.turn
  have ht : 2 < t := by
    have hpos := hwaits.lt
    have hone_ne : t ≠ 1 := by
      rintro rfl
      cases hwrite.symm.trans hfinish
    have htwo_ne : t ≠ 2 := by
      rintro rfl
      cases (congrArg todo htwo).symm.trans hfinish
    omega
  have hcalm : ¬ (run t m).Owes (.key b) := by
    rintro ⟨x, hx, hxowes⟩
    rw [hfinish] at hx
    rcases List.mem_cons.mp hx with rfl | hx
    · exact hxowes
    · exact calm x hx (owes_run (Nat.zero_le t) hhas hxowes)
  have hreturn : (run (t + 1) m).todo = rest := by
    rw [run_succ]
    exact (step_finish hfinish).1
  have hstart : m.todo = [c.set value] ++ rest := h
  refine ⟨t + 1, .of_above hstart (List.cons_ne_nil _ _) hwaits.above hreturn,
    ?_, ?_⟩
  · rw [htwo]
    simp [doTask, write, announce, announcing, push, modifyWorld, stored,
      World.tell, World.writeValue, World.storedValue, hworld,
      Pool.get_modify_self]
  · intro hobliges
    have hheld (k : ℕ) (hk : 2 ≤ k) (hkt : k < t) :
        (run k m).isHeld (.keyBridge b) := by
      obtain ⟨ahead, htodo⟩ :=
        hwaits.waits k (Nat.lt_of_succ_lt hk) (Nat.le_of_lt hkt)
      rw [isHeld_eq, World.isHeldWith_iff, ← htodo]
      exact Or.inr ⟨_, List.mem_append_right _ List.mem_cons_self,
        List.mem_cons_self⟩
    obtain ⟨l, hl, hlt, hcount⟩ := exists_cleared_of_owes
      (Nat.le_of_lt ht) (has_run (Nat.zero_le 2) hhas) howes hcalm hheld
      fun k _ hkt _ => hobliges k (Nat.lt_succ_of_lt hkt)
    refine ⟨l, hl, Nat.lt_succ_of_lt hlt, ?_⟩
    rw [run_succ] at hcount ⊢
    exact (sound.after l).empty_of_invalidated
      (has_run (Nat.zero_le l) hhas) hcount

/-! ## The getter -/

/-- The getter reads after its owner was told, before its call ends. -/
theorem exists_reading (h : m.todo = c.get :: rest)
    (found : m.world.keyBridge? c.getter = some b) :
    ∃ i, (run i m).todo =
        .readKey b :: .finish c.getLabel [.keyBridge b] c.nested :: rest ∧
      m.Above rest 0 i := by
  obtain ⟨access, hstep⟩ := step_getKey h found
  obtain ⟨i, hwaits⟩ :=
    exists_waits (congrArg todo ((run_one m).trans hstep))
  have habove : m.Above ([.finish c.getLabel [.keyBridge b] c.nested] ++ rest)
      0 i := hwaits.above
  exact ⟨i, hwaits.turn, (above_self m rest 0).trans habove⟩

/-- The call answers what is read. -/
theorem reply_of_reading (sound : m.Sound) {front : List Task} {i n : ℕ}
    {label : Json} {held : List Object} {nested : Bool}
    (start : m.todo = front ++ rest) (front_ne : front ≠ [])
    (reads : (run i m).todo = .readKey b :: .finish label held nested :: rest)
    (above : m.Above rest 0 i) (ends : m.Ends rest n) :
    i < n ∧ (run n m).reply = (run i m).reading b := by
  obtain ⟨j, -, habove, hfinish, hreply⟩ := read_ends sound reads
  have habove : m.Above ([.finish label held nested] ++ rest) i j := habove
  have hreturn := step_finish hfinish
  rw [← run_succ] at hreturn
  have hends : m.Ends rest (j + 1 + 1) := .of_above start front_ne
    ((above.trans habove).succ (x := []) hfinish) hreturn.1
  obtain rfl := ends.unique hends
  exact ⟨ends.lt_of_above (ends.pos start front_ne) above,
    hreturn.2.trans hreply⟩

/-! ## What was written is read back -/

/-- A value that is settled before some tasks have their turn was read since,
unless it is settled by one of the tasks in front. -/
theorem stored_of_settles {front : List Task} {a n : ℕ} {began : UInt64}
    {r : Reply} (start : (run a m).todo = front ++ rest)
    (front_ne : front ≠ [])
    (other : ∀ began stored, .settleKey b began stored ∉ front)
    (le : a ≤ n) (above : m.Above rest a n)
    (settles : (run n m).Settles (.bridge (.key b)) began r) :
    ∃ i, a ≤ i ∧ i < n ∧ ∃ below, (run i m).todo = .readKey b :: below ∧
      r = ((run n m).world.keyBridges.get b).read ((run i m).stored b) := by
  obtain ⟨t, below, htodo, hsettling⟩ := settles
  cases t with
  | settleKey d began' stored =>
    obtain ⟨⟩ := Option.some.inj hsettling
    have hne : a ≠ n := by
      rintro rfl
      obtain ⟨t, front, rfl⟩ := List.exists_cons_of_ne_nil front_ne
      obtain ⟨rfl, -⟩ := List.cons.inj (htodo.symm.trans start)
      exact other _ _ List.mem_cons_self
    have lt := Nat.lt_of_le_of_ne le hne
    obtain ⟨i, hai, hi, parent, behind, -, -, hparent, hfollows, -⟩ :=
      exists_parent_of_above start (other _ _) lt above htodo
    cases hfollows with
    | begun _ _ left => cases left
    | settleKey _ empty => exact ⟨i, hai, hi, behind, hparent, rfl⟩
  | settleCache _ _ outcome => cases outcome <;> cases hsettling
  | settleQuery =>
    simp only [World.settling?] at hsettling
    split at hsettling <;> cases hsettling
  | _ => cases hsettling

/-- A cache that was cleared after some tasks were put in front holds nothing
later but what is stored, if that is what was stored at every read since, and
if the tasks that waited behind still wait. -/
theorem reading_of_cleared (sound : m.Sound) {front : List Task} {a c k : ℕ}
    (start : (run a m).todo = front ++ rest) (front_ne : front ≠ [])
    (other : ∀ began stored, .settleKey b began stored ∉ front)
    (has : (run a m).world.Has (.keyBridge b)) (cleared : a ≤ c) (le : c ≤ k)
    (empty : ((run c m).world.cell (.bridge (.key b))).value = none)
    (above : m.Above rest a k)
    (same : ∀ i below, a ≤ i → i ≤ k →
      (run i m).todo = .readKey b :: below →
      (run i m).stored b = (run k m).stored b) :
    (run k m).reading b =
      ((run k m).world.keyBridges.get b).read ((run k m).stored b) := by
  apply reading_eq_read
  intro r hr
  have hcell : (run c m).world.Has (CacheHolder.bridge (.key b)).object :=
    has_run cleared has
  obtain ⟨n, hcn, hnk, began, hsettles⟩ :=
    sound.exists_settles le hcell empty hr
  obtain ⟨i, hai, hin, below, hreads, rfl⟩ :=
    stored_of_settles start front_ne other (Nat.le_trans cleared hcn)
      (fun l hal hln => above l hal (by omega)) hsettles
  obtain ⟨-, -, hread⟩ := KeyBridge.eq_of_core_eq
    (keyBridge_core_run (Nat.le_of_lt hnk) (has_run hcn hcell))
  rw [same i below hai (by omega) hreads, hread]

/-- The calls are not disturbed: hooks and presenters do what they are there
for, nobody writes the key after the setter, and the name of the getter
stands for the bridge when it is called. -/
structure Undisturbed (m : Machine) (b : Ref .keyBridge) (c : Calls)
    (rest : List Task) (n : ℕ) : Prop where
  obliges : ∀ k < n, (run k m).obliges
  unwritten : ∀ k, 2 ≤ k → k < n → ¬ (run k m).WritesKeyOf b
  named : ∀ k < n, (run k m).todo = c.get :: rest →
    (run k m).world.keyBridge? c.getter = some b

/-- The calls end, and the getter answers a reply, with something stored,
unless they are disturbed. -/
def Answers (m : Machine) (b : Ref .keyBridge) (c : Calls) (rest : List Task)
    (r : Reply) (stored : Option StoreValue) : Prop :=
  ∃ n, m.Ends rest n ∧ (m.Undisturbed b c rest n →
    (run n m).reply = r ∧ (run n m).stored b = stored)

/-- The getter answers what the setter wrote.  A fetch that began before the
write was not begun by the calls, and cannot end during them. -/
theorem answers_of_set (sound : m.Sound) {out : Option StoreValue}
    (h : m.todo = c.set value :: c.get :: rest)
    (found : m.world.keyBridge? c.setter = some b)
    (attached : m.world.Attached (.key b))
    (asks : (m.world.keyBridges.get b).Asks value out)
    (calm : ∀ t ∈ rest, ¬ t.Owes m.world (.key b)) :
    m.Answers b c rest ((m.world.keyBridges.get b).read out) out := by
  have hhas : (run 0 m).world.Has (.keyBridge b) :=
    sound.world.names _ (World.isNamed_of_keyBridge? found)
  have hcalm : ∀ t ∈ c.get :: rest, ¬ t.Owes m.world (.key b) := by
    rintro t ht
    rcases List.mem_cons.mp ht with rfl | ht
    · exact id
    · exact calm t ht
  obtain ⟨p, hset, hclears⟩ :=
    clears_of_set sound h found attached asks hcalm
  have hget : (run p m).todo = [c.get] ++ rest := hset.todo
  have hone : [c.get] ≠ [] := List.cons_ne_nil _ _
  obtain ⟨l, hl⟩ := exists_ends hget
  have hset : m.Ends ([c.get] ++ rest) p := hset
  have hends := hset.append hone hl
  refine ⟨l + p, hends, fun hund => ?_⟩
  have hpos := hl.pos hget hone
  have hfound := hund.named p (by omega) hget
  obtain ⟨q, hq, hqp, hempty⟩ :=
    hclears.clears fun k hk => hund.obliges k (by omega)
  have hread (i : ℕ) : ((run i m).world.keyBridges.get b).read =
      (m.world.keyBridges.get b).read :=
    (KeyBridge.eq_of_core_eq (keyBridge_core_run (Nat.zero_le i) hhas)).2.2
  have hstored (i : ℕ) (hi : 2 ≤ i) (hil : i ≤ l + p) :
      (run i m).stored b = out :=
    (stored_run sound hi (has_run (Nat.zero_le 2) hhas)
      fun k hk hki => hund.unwritten k hk (by omega)).trans hclears.stored
  obtain ⟨i, hreads, habove⟩ := exists_reading hget hfound
  obtain ⟨hil, hreply⟩ :=
    reply_of_reading (sound.after p) hget hone hreads habove hl
  rw [← run_add, ← run_add] at hreply
  have hreading : (run (i + p) m).reading b =
      ((run (i + p) m).world.keyBridges.get b).read
        ((run (i + p) m).stored b) := by
    have hstart : (run 0 m).todo = [c.set value, c.get] ++ rest := h
    refine reading_of_cleared sound hstart (List.cons_ne_nil _ _)
      (by simp [Calls.set, Calls.get]) hhas (Nat.zero_le (q + 1)) (by omega)
      hempty (hends.above (i + p) (by omega)) fun k below _ hk hreads => ?_
    -- The tasks at the first two steps are the call and the write.
    have hk_two : 2 ≤ k := by
      have hone := congrArg todo ((run_one m).trans (step_set h found asks))
      have hne_zero : k ≠ 0 := by
        rintro rfl
        cases h.symm.trans hreads
      have hne_one : k ≠ 1 := by
        rintro rfl
        cases hone.symm.trans hreads
      omega
    rw [hstored k hk_two (by omega), hstored (i + p) (by omega) (by omega)]
  rw [hreading, hread, hstored (i + p) (by omega) (by omega)] at hreply
  exact ⟨hreply, hstored (l + p) (by omega) (Nat.le_refl _)⟩

/-! ## What cannot be written -/

theorem reading_of_quiet {m' : Machine} (h : m.quiet = m'.quiet) :
    m.reading b = m'.reading b :=
  congrArg (fun x => x.reading b) h

theorem todo_of_quiet {m' : Machine} (h : m.quiet = m'.quiet) :
    m.todo = m'.todo := by
  have htodo := congrArg Machine.todo h
  exact htodo

theorem ends_of_quiet {m' : Machine} {n : ℕ} (h : m.quiet = m'.quiet)
    (ends : m.Ends rest n) : m'.Ends rest n := by
  have htodo (k : ℕ) : (run k m).todo = (run k m').todo :=
    todo_of_quiet (quiet_run h k)
  refine ⟨(htodo n).symm.trans ends.todo, fun k hk => ?_⟩
  rw [← htodo k]
  exact ends.ahead k hk

/-- What the getter answers does not depend on the journal. -/
theorem reply_of_get_of_quiet {m' : Machine} (sound : m.Sound)
    (sound' : m'.Sound) (quiet : m.quiet = m'.quiet) {n : ℕ}
    (h : m.todo = c.get :: rest)
    (found : m.world.keyBridge? c.getter = some b) (ends : m.Ends rest n) :
    (run n m').reply = (run n m).reply := by
  have hstart : m.todo = [c.get] ++ rest := h
  have hone : [c.get] ≠ [] := List.cons_ne_nil _ _
  have htodo (k : ℕ) : (run k m).todo = (run k m').todo :=
    todo_of_quiet (quiet_run quiet k)
  obtain ⟨i, hreads, habove⟩ := exists_reading h found
  have habove' : m'.Above rest 0 i := fun k hk hki => by
    rw [← htodo k]
    exact habove k hk hki
  rw [(reply_of_reading sound hstart hone hreads habove ends).2,
    (reply_of_reading sound' ((htodo 0).symm.trans hstart) hone
      ((htodo i).symm.trans hreads) habove' (ends_of_quiet quiet ends)).2]
  exact (reading_of_quiet (quiet_run quiet i)).symm

/-- The setter refuses a value: within three steps of its own it notes that,
and nothing but the journal has changed.  What comes next is as if it had not
been called, and so is what the getter answers. -/
structure Refuses (m m' : Machine) (b : Ref .keyBridge) (c : Calls)
    (rest : List Task) (e : BridgeError) : Prop where
  todo : (run 3 m).todo = c.get :: rest
  world : ∃ told, (run 3 m).world =
      { m.world with journal := told ++ m.world.journal } ∧
    told = (if c.nested then [.finished c.setLabel .nothing] else []) ++
      [.writeRefused b (m.world.keyBridges.get b).key e]
  unaffected : ∀ k, (run (k + 3) m).quiet = (run k m').quiet
  answers : m'.world.keyBridge? c.getter = some b → ∀ n, m'.Ends rest n →
    m.Ends rest (n + 3) ∧ (run (n + 3) m).reply = (run n m').reply

theorem refuses_of_set (sound : m.Sound)
    {spelled : (kind : Storable) → Option kind.Value}
    {v : (m.world.keyBridges.get b).kind.Value} {e : BridgeError}
    (h : m.todo = c.set (some spelled) :: c.get :: rest)
    (found : m.world.keyBridge? c.setter = some b)
    (spells : spelled (m.world.keyBridges.get b).kind = some v)
    (fails : (m.world.keyBridges.get b).kind.encode v = .error e) :
    m.Refuses { m with todo := c.get :: rest } b c rest e := by
  have hone := (run_one m).trans (step_set_refused h found spells fails)
  have htwo : run 2 m = _ :=
    (run_succ 1 m).trans (step_of_todo_cons (congrArg todo hone))
  have hthree : run 3 m = ⟨{ m.world with
      journal := (if c.nested then [.finished c.setLabel .nothing] else []) ++
        .writeRefused b (m.world.keyBridges.get b).key e ::
          m.world.journal }, c.get :: rest, .nothing⟩ := by
    refine (run_succ 2 m).trans
      ((step_of_todo_cons (congrArg todo htwo)).trans ?_)
    rw [htwo, hone, doTask, finish]
    cases c.nested <;> rfl
  have hquiet : (run 3 m).quiet =
      ({ m with todo := c.get :: rest } : Machine).quiet := by
    rw [hthree]
    rfl
  have hends : m.Ends ([c.get] ++ rest) 3 := by
    refine ⟨congrArg todo hthree, fun k hk => ?_⟩
    have hcases : k = 0 ∨ k = 1 ∨ k = 2 := by omega
    rcases hcases with rfl | rfl | rfl
    · exact ⟨[c.set (some spelled)], List.cons_ne_nil _ _, h⟩
    · exact ⟨[.answer .nothing, .finish c.setLabel [] c.nested],
        List.cons_ne_nil _ _, congrArg todo hone⟩
    · refine ⟨[.finish c.setLabel [] c.nested], List.cons_ne_nil _ _, ?_⟩
      rw [htwo, hone]
      rfl
  refine ⟨congrArg todo hthree, ⟨_, ?_, rfl⟩, fun k => ?_,
    fun hfound n hn => ?_⟩
  · rw [hthree, List.append_assoc]
    rfl
  · rw [run_add]
    exact quiet_run hquiet k
  · have hsound : Sound { m with todo := c.get :: rest } :=
      ⟨sound.world, fun t ht => sound.todo t (h ▸ List.mem_cons_of_mem _ ht)⟩
    refine ⟨hends.append (List.cons_ne_nil _ _)
      (ends_of_quiet hquiet.symm hn), ?_⟩
    rw [run_add]
    exact reply_of_get_of_quiet hsound (sound.after 3) hquiet.symm rfl hfound hn

/-! ## All values -/

/-- The machine in which the calls are next, in front of other tasks. -/
def calling (m : Machine) (c : Calls)
    (value : Option ((kind : Storable) → Option kind.Value))
    (rest : List Task) : Machine :=
  { m with todo := c.set value :: c.get :: rest }

/-- What the getter of a bridge answers after the setter was called, for every
value that the setter may be called with. -/
structure ReadsBack (m : Machine) (b : Ref .keyBridge) (k : KeyBridge)
    (rest : List Task) : Prop where
  /-- A value that has a stored form is read back. -/
  stores : ∀ c : Calls, m.world.keyBridge? c.setter = some b →
    ∀ spelled v stored, spelled k.kind = some v → k.kind.Regular v →
      k.kind.encode v = .ok (some stored) →
      (m.calling c (some spelled) rest).Answers b c rest (.value k.kind v)
        (some stored)
  /-- A value that is stored as nothing clears the entry. -/
  clears : ∀ c : Calls, m.world.keyBridge? c.setter = some b →
    ∀ spelled v, spelled k.kind = some v → k.kind.encode v = .ok none →
      (m.calling c (some spelled) rest).Answers b c rest
        (.value k.kind k.initial) none
  /-- So does no value. -/
  forgets : ∀ c : Calls, m.world.keyBridge? c.setter = some b →
    (m.calling c none rest).Answers b c rest (.value k.kind k.initial) none
  /-- A value that cannot be encoded changes nothing. -/
  refuses : ∀ c : Calls, m.world.keyBridge? c.setter = some b →
    ∀ spelled v e, spelled k.kind = some v → k.kind.encode v = .error e →
      (m.calling c (some spelled) rest).Refuses
        { m with todo := c.get :: rest } b c rest e
  /-- Optional values, of a kind that always stores something, are all read
  back if the default is none, and only then. -/
  optional : ∀ c : Calls, m.world.keyBridge? c.setter = some b →
    ∀ u : Storable, k.kind = .optional u → (∀ x, u.encode x ≠ .ok none) →
      (∀ spelled v out, spelled k.kind = some v → k.kind.encode v = .ok out →
        ∀ n, (m.calling c (some spelled) rest).Ends rest n →
          (m.calling c (some spelled) rest).Undisturbed b c rest n) →
      ((∀ spelled v out, spelled k.kind = some v → k.kind.Regular v →
          k.kind.encode v = .ok out →
          ∃ n, (m.calling c (some spelled) rest).Ends rest n ∧
            (run n (m.calling c (some spelled) rest)).reply =
              .value k.kind v) ↔
        Reply.value k.kind k.initial = .value (.optional u) none)

/-- At every moment of every run, whatever is stored and cached then, the
getter of a key bridge answers what its setter wrote just before, if nothing
is on its way to the bridge and nobody else writes the key meanwhile.  The
numbers of subscriptions are taken to be unique. -/
theorem reads_back {commands : List Command} {n : ℕ} {b : Ref .keyBridge}
    {rest : List Task}
    (unique : (run n (ofCommands commands)).world.subscriptions ≤ 2 ^ 64)
    (waits : rest <:+ (run n (ofCommands commands)).todo)
    (calm : ∀ t ∈ rest, ¬ t.Owes (run n (ofCommands commands)).world (.key b)) :
    (run n (ofCommands commands)).ReadsBack b
      ((run n (ofCommands commands)).world.keyBridges.get b) rest := by
  generalize hm : run n (ofCommands commands) = m at unique waits calm ⊢
  have hsound : m.Sound := hm ▸ sound_run commands n
  have hlinked : m.Linked := hm ▸ linked_run commands (hm ▸ unique)
  have hcalling (c : Calls)
      (value : Option ((kind : Storable) → Option kind.Value)) :
      (m.calling c value rest).Sound := by
    refine ⟨hsound.world, fun t ht => ?_⟩
    rcases List.mem_cons.mp ht with rfl | ht
    · exact ⟨by simp [Task.objects, Calls.set], by simp [Calls.set]⟩
    · rcases List.mem_cons.mp ht with rfl | ht
      · exact ⟨by simp [Task.objects, Calls.get], by simp [Calls.get]⟩
      · exact hsound.todo t (waits.subset ht)
  have hattached (c : Calls) (found : m.world.keyBridge? c.setter = some b) :
      m.world.Attached (.key b) := by
    have hnamed := World.isNamed_of_keyBridge? found
    exact hlinked.attached (.key b) (hsound.world.names _ hnamed)
      (World.isHeldWith_iff.mpr (Or.inl hnamed))
  have hanswers (c : Calls) (found : m.world.keyBridge? c.setter = some b)
      {value : Option ((kind : Storable) → Option kind.Value)}
      {out : Option StoreValue}
      (asks : (m.world.keyBridges.get b).Asks value out) :
      (m.calling c value rest).Answers b c rest
        ((m.world.keyBridges.get b).read out) out :=
    answers_of_set (hcalling c value) rfl found (hattached c found) asks calm
  refine ⟨fun c found spelled v stored hv hregular hencode => ?_,
    fun c found spelled v hv hencode => hanswers c found
      (.encoded spelled v none hv hencode),
    fun c found => hanswers c found .clear,
    fun c found spelled v e hv hencode => refuses_of_set
      (hcalling c _) rfl found hv hencode, ?_⟩
  · have h := hanswers c found (.encoded spelled v _ hv hencode)
    rwa [KeyBridge.read_of_encode hregular hencode] at h
  · intro c found u hkind keeps hund
    rw [← KeyBridge.read_optional_iff hkind keeps]
    constructor
    · intro h v out hregular hencode
      obtain ⟨spelled, hv⟩ := KeyBridge.exists_spelled v
      obtain ⟨n, hends, hreply⟩ :=
        hanswers c found (.encoded spelled v out hv hencode)
      obtain ⟨n', hends', hreply'⟩ := h spelled v out hv hregular hencode
      obtain rfl := hends.unique hends'
      rw [← hreply']
      exact (hreply (hund spelled v out hv hencode n hends)).1.symm
    · intro h spelled v out hv hregular hencode
      obtain ⟨n, hends, hreply⟩ :=
        hanswers c found (.encoded spelled v out hv hencode)
      refine ⟨n, hends, ?_⟩
      rw [← h v out hregular hencode]
      exact (hreply (hund spelled v out hv hencode n hends)).1

/-- A store that holds a value of another kind than the bridge reads. -/
def readsForeignValue : List Command :=
  [.mk .null (.store (.newStore "m" none [])),
    .mk .null (.store (.newKeyBridge "b" "k" .int (7 : Int64) (some "m")
      .direct none)),
    .mk .null (.store (.writeStore "m" "k" (some (.bool true)))),
    .mk .null (.store (.getKey "b"))]

/-- The calls may come while the bridge fetches the foreign value. -/
theorem reads_back_within_fetch :
    (run 20 (ofCommands readsForeignValue)).ReadsBack ⟨0⟩
      ((run 20 (ofCommands readsForeignValue)).world.keyBridges.get ⟨0⟩)
      (run 20 (ofCommands readsForeignValue)).todo := by
  have htodo : (run 20 (ofCommands readsForeignValue)).todo =
      [.settleKey ⟨0⟩ 1 (some (.bool true)),
        .finish .null [.keyBridge ⟨0⟩] false] := rfl
  refine reads_back (by decide +kernel) (List.suffix_refl _) ?_
  rw [htodo]
  rintro t ht
  rcases List.mem_pair.mp ht with rfl | rfl
  · exact id
  · exact id

example :
    (run 16 ((run 20 (ofCommands readsForeignValue)).calling
      ⟨"b", "b", .null, .null, false⟩
      (some fun | .int => some (5 : Int64) | _ => none) [])).reply =
      .value .int (5 : Int64) := rfl

end Machine
end LiveProperty
