import LiveProperty.Proofs.Machine.Cores

/-!
# Worlds that agree on a bridge

Two worlds agree on a bridge if they have the same names and objects, if the
bridge and what it reads are the same in both, and if all other bridges,
stores and contexts differ in nothing but what comes and goes: caches,
bindings, own contexts, stored values, failures still to come.
-/

namespace LiveProperty

/-- Pools whose objects are related, reference by reference. -/
def Pool.Alike {s : Species} {α : Type} [Inhabited α]
    (R : Ref s → α → α → Prop) (p p' : Pool s α) : Prop :=
  ∀ r, R r (p.get r) (p'.get r)

/-- A part of the objects that is the same after a change if it was before. -/
theorem Pool.apply_get_modify_congr {s : Species} {α β : Type} [Inhabited α]
    {p p' : Pool s α} {r q : Ref s} {f : α → α} {g : α → β}
    (h : g (p'.get q) = g (p.get q))
    (change : ∀ a a', g a' = g a → g (f a') = g (f a)) :
    g ((p'.modify r f).get q) = g ((p.modify r f).get q) := by
  by_cases hq : q = r
  · subst hq
    rw [get_modify_self, get_modify_self]
    exact change _ _ h
  · rw [get_modify_of_ne _ hq, get_modify_of_ne _ hq, h]

theorem Pool.apply_get_add_congr {s : Species} {α β : Type} [Inhabited α]
    {p p' : Pool s α} {q : Ref s} {g : α → β}
    (h : g (p'.get q) = g (p.get q)) (next : p'.next = p.next) (a : α) :
    g ((p'.add a).get q) = g ((p.add a).get q) := by
  have hfresh : p'.fresh = p.fresh := congrArg Ref.mk next
  by_cases hq : q = p.fresh
  · rw [hq, get_add_fresh, ← hfresh, get_add_fresh]
  · rw [get_add_of_ne _ hq, get_add_of_ne _ (hfresh ▸ hq), h]

namespace Pool.Alike

variable {s : Species} {α : Type} [Inhabited α] {R : Ref s → α → α → Prop}
  {p p' : Pool s α} {r : Ref s} {a a' : α}

theorem set (h : p.Alike R p') (new : R r a a') :
    (p.set r a).Alike R (p'.set r a') := by
  intro q
  by_cases hq : q = r
  · subst hq
    rwa [get_set_self, get_set_self]
  · rw [get_set_of_ne _ hq, get_set_of_ne _ hq]
    exact h q

theorem modify (h : p.Alike R p') {f : α → α}
    (new : R r (p.get r) (p'.get r) → R r (f (p.get r)) (f (p'.get r))) :
    (p.modify r f).Alike R (p'.modify r f) :=
  h.set (new (h r))

theorem add (h : p.Alike R p') (next : p'.next = p.next)
    (new : R p.fresh a a') : (p.add a).Alike R (p'.add a') := by
  have hfresh : p'.fresh = p.fresh := congrArg Ref.mk next
  intro q
  by_cases hq : q = p.fresh
  · subst hq
    rw [get_add_fresh, ← hfresh, get_add_fresh, hfresh]
    exact new
  · rw [get_add_of_ne _ hq, get_add_of_ne _ (hfresh ▸ hq)]
    exact h q

/-- A change of one object that keeps it related to what it was. -/
theorem of_set (refl : ∀ q x, R q x x) (new : R r (p.get r) a) :
    p.Alike R (p.set r a) := by
  intro q
  by_cases hq : q = r
  · subst hq
    rwa [get_set_self]
  · rw [get_set_of_ne _ hq]
    exact refl q _

end Pool.Alike

/-- A store without what is written to it. -/
def Store.core (s : Store) : Store :=
  { s with values := [] }

theorem Store.core_write (s : Store) (key : String)
    (value : Option StoreValue) : (s.write key value).core = s.core := by
  cases value <;> rfl

theorem Store.find?_write (s : Store) (key other : String)
    (value : Option StoreValue) :
    (s.write key value).find? other =
      if other = key then value else s.find? other := by
  split
  · next h => rw [h, Store.find?_write_self]
  · next h => exact Store.find?_write_of_ne s h value

/-- A context without the failures that it was told to answer. -/
def Context.core (c : Context) : Context :=
  { c with supervision := c.supervision.map fun s => { s with failures := 0 } }

/-- States of a key bridge that differ in what changes, and in nothing if it
is the given bridge. -/
structure KeyBridge.Alike (b : Bridge) (r : Ref .keyBridge)
    (k k' : KeyBridge) : Prop where
  core : k'.core = k.core
  own : b = .key r → k' = k

/-- States of a query bridge that differ in what changes, and in nothing if
it is the given bridge. -/
structure QueryBridge.Alike (b : Bridge) (r : Ref .queryBridge)
    (q q' : QueryBridge) : Prop where
  core : q'.core = q.core
  own : b = .query r → q' = q

/-- What may differ in worlds that agree on a bridge. -/
structure Variation where
  journal : List Happening
  scopes : ScopeStack
  registrars : List (ℕ × Registrar Reaction)
  plans : List (ℕ × Plan)
  stores : List (ℕ × Store)
  contexts : List (ℕ × Context)
  keyBridges : List (ℕ × KeyBridge)
  queryBridges : List (ℕ × QueryBridge)

namespace World

variable {w w' : World} {b : Bridge}

def variation (w : World) : Variation :=
  ⟨w.journal, w.scopes, w.registrars.entries, w.plans.entries, w.stores.entries,
    w.contexts.entries, w.keyBridges.entries, w.queryBridges.entries⟩

/-- A world with other contents where contents may differ. -/
def vary (w : World) (v : Variation) : World :=
  { w with
    journal := v.journal
    scopes := v.scopes
    registrars := { w.registrars with entries := v.registrars }
    plans := { w.plans with entries := v.plans }
    stores := { w.stores with entries := v.stores }
    contexts := { w.contexts with entries := v.contexts }
    keyBridges := { w.keyBridges with entries := v.keyBridges }
    queryBridges := { w.queryBridges with entries := v.queryBridges } }

/-- All that a world knows of a bridge. -/
def record (w : World) : Bridge → KeyBridge ⊕ QueryBridge
  | .key r => .inl (w.keyBridges.get r)
  | .query q => .inr (w.queryBridges.get q)

/-- What is stored under the key of a bridge. -/
def backing (w : World) : Bridge → Option StoreValue
  | .key r => w.storedValue (w.keyBridges.get r).store (w.keyBridges.get r).key
  | .query _ => none

/-- Whether a key of a store is the one that backs a bridge. -/
def backs (w : World) : Bridge → Ref .store → String → Bool
  | .key r, s, key =>
    s = (w.keyBridges.get r).store && key = (w.keyBridges.get r).key
  | .query _, _, _ => false

/-- The worlds differ in nothing that matters to the bridge. -/
structure Agrees (b : Bridge) (w w' : World) : Prop where
  same : w.vary w'.variation = w'
  stores : w.stores.Alike (fun _ s s' => s'.core = s.core) w'.stores
  contexts : w.contexts.Alike (fun _ c c' => c'.core = c.core) w'.contexts
  keyBridges : w.keyBridges.Alike (KeyBridge.Alike b) w'.keyBridges
  queryBridges : w.queryBridges.Alike (QueryBridge.Alike b) w'.queryBridges
  backing : w'.backing b = w.backing b

namespace Agrees

theorem refl (b : Bridge) (w : World) : w.Agrees b w :=
  ⟨rfl, fun _ => rfl, fun _ => rfl, fun _ => ⟨rfl, fun _ => rfl⟩,
    fun _ => ⟨rfl, fun _ => rfl⟩, rfl⟩

theorem exists_vary (h : w.Agrees b w') : ∃ v, w' = w.vary v :=
  ⟨_, h.same.symm⟩

theorem symm (h : w.Agrees b w') : w'.Agrees b w := by
  obtain ⟨v, rfl⟩ := h.exists_vary
  exact ⟨rfl, fun r => (h.stores r).symm, fun r => (h.contexts r).symm,
    fun r => ⟨(h.keyBridges r).core.symm, fun hb =>
      ((h.keyBridges r).own hb).symm⟩,
    fun r => ⟨(h.queryBridges r).core.symm, fun hb =>
      ((h.queryBridges r).own hb).symm⟩, h.backing.symm⟩

theorem trans {x : World} (h : w.Agrees b w') (h' : w'.Agrees b x) :
    w.Agrees b x := by
  obtain ⟨v, rfl⟩ := h.exists_vary
  obtain ⟨u, rfl⟩ := h'.exists_vary
  exact ⟨rfl, fun r => (h'.stores r).trans (h.stores r),
    fun r => (h'.contexts r).trans (h.contexts r),
    fun r => ⟨(h'.keyBridges r).core.trans (h.keyBridges r).core, fun hb =>
      ((h'.keyBridges r).own hb).trans ((h.keyBridges r).own hb)⟩,
    fun r => ⟨(h'.queryBridges r).core.trans (h.queryBridges r).core,
      fun hb => ((h'.queryBridges r).own hb).trans ((h.queryBridges r).own hb)⟩,
    h'.backing.trans h.backing⟩

/-! ## What is the same -/

theorem names (h : w.Agrees b w') : w'.names = w.names := by
  obtain ⟨v, rfl⟩ := h.exists_vary
  rfl

theorem isNamed (h : w.Agrees b w') (o : Object) :
    w'.isNamed o = w.isNamed o := by
  rw [World.isNamed, h.names, World.isNamed]

theorem record (h : w.Agrees b w') : w'.record b = w.record b := by
  cases b with
  | key r => exact congrArg Sum.inl ((h.keyBridges r).own rfl)
  | query q => exact congrArg Sum.inr ((h.queryBridges q).own rfl)

theorem relayOf (h : w.Agrees b w') : w'.relayOf b = w.relayOf b := by
  cases b with
  | key r => exact congrArg KeyBridge.relay ((h.keyBridges r).own rfl)
  | query q => exact congrArg QueryBridge.relay ((h.queryBridges q).own rfl)

theorem concerns (h : w.Agrees b w') (event : Event) :
    w'.concerns b event = w.concerns b event := by
  cases b with
  | key r =>
    have hown := (h.keyBridges r).own rfl
    cases event <;> simp only [World.concerns, hown]
  | query q =>
    have hown := (h.queryBridges q).own rfl
    cases event <;> simp only [World.concerns, hown]

theorem backs (h : w.Agrees b w') (s : Ref .store) (key : String) :
    w'.backs b s key = w.backs b s key := by
  cases b with
  | key r => simp only [World.backs, (h.keyBridges r).own rfl]
  | query q => rfl

theorem store (h : w.Agrees b w') (s : Ref .store) :
    (w'.stores.get s).core = (w.stores.get s).core := h.stores s

theorem context (h : w.Agrees b w') (c : Ref .context) :
    (w'.contexts.get c).core = (w.contexts.get c).core := h.contexts c

theorem changes (h : w.Agrees b w') (s : Ref .store) :
    (w'.stores.get s).changes = (w.stores.get s).changes := by
  have hcore := congrArg Store.changes (h.store s)
  exact hcore

theorem readTasks (h : w.Agrees b w') (s : Ref .store) :
    Machine.readTasks w' s = Machine.readTasks w s := by
  have hcore := congrArg Store.onRead (h.store s)
  exact congrArg (fun x => (Option.map Task.fire x).toList) hcore

theorem memory (h : w.Agrees b w') (c : Ref .context) :
    w'.memory c = w.memory c := by
  have hcore := congrArg Context.memory (h.context c)
  exact hcore

theorem saveEvent (h : w.Agrees b w') (c : Ref .context) :
    w'.saveEvent c = w.saveEvent c := by
  have hcore := congrArg (fun x => x.saveEvent c) (h.context c)
  exact hcore

theorem subscriptionOf (h : w.Agrees b w') (o : Object) :
    w'.subscriptionOf? o = w.subscriptionOf? o := by
  cases o with
  | keyBridge r =>
    exact congrArg (fun k => some k.subscription) (h.keyBridges r).core
  | queryBridge q =>
    exact congrArg (fun k => some k.subscription) (h.queryBridges q).core
  | _ => rfl

theorem source (h : w.Agrees b w') (s : Source) :
    Machine.source? w' s = Machine.source? w s := by
  have hchanges := h.changes
  obtain ⟨v, rfl⟩ := h.exists_vary
  cases s with
  | storeKey store key =>
    exact congrArg (fun f => (w.store? store).map f)
      (funext fun s => by rw [hchanges])
  | store store =>
    exact congrArg (fun f => (w.store? store).map f)
      (funext fun s => by rw [hchanges])
  | _ => rfl

/-! ## What is done in both -/

theorem tell (h : w.Agrees b w') (x y : Happening) :
    (w.tell x).Agrees b (w'.tell y) := by
  obtain ⟨v, rfl⟩ := h.exists_vary
  exact { h with same := rfl }

theorem journal (h : w.Agrees b w') (told told' : List Happening) :
    World.Agrees b { w with journal := told } { w' with journal := told' } := by
  obtain ⟨v, rfl⟩ := h.exists_vary
  exact { h with same := rfl }

theorem bindName (h : w.Agrees b w') (name : String) (n : Named) :
    (w.bindName name n).Agrees b (w'.bindName name n) := by
  obtain ⟨v, rfl⟩ := h.exists_vary
  exact { h with same := rfl }

theorem unbindName (h : w.Agrees b w') (name : String) :
    (w.unbindName name).Agrees b (w'.unbindName name) := by
  obtain ⟨v, rfl⟩ := h.exists_vary
  exact { h with same := rfl }

theorem subscribe (h : w.Agrees b w') (source : Ref .notifier) (l : Listener) :
    (w.subscribe source l).Agrees b (w'.subscribe source l) := by
  obtain ⟨v, rfl⟩ := h.exists_vary
  exact { h with same := rfl }

theorem addPlan (h : w.Agrees b w') (schedule : Schedule) :
    (w.addPlan schedule).Agrees b (w'.addPlan schedule) := by
  obtain ⟨v, rfl⟩ := h.exists_vary
  exact { h with same := rfl }

/-- The same goes in both worlds, as nobody gets another subscription. -/
theorem letGo (h : w.Agrees b w') (o : Object) :
    (w.letGo o).Agrees b (w'.letGo o) := by
  rw [World.letGo, World.letGo, h.subscriptionOf]
  cases w.subscriptionOf? o with
  | none => exact h
  | some s =>
    obtain ⟨v, rfl⟩ := h.exists_vary
    exact { h with same := rfl }

theorem addStore (h : w.Agrees b w') (label suite : Option String)
    (onRead : Option (Ref .plan)) :
    (w.addStore label suite onRead).Agrees b
      (w'.addStore label suite onRead) := by
  have hbacking := h.backing
  obtain ⟨v, rfl⟩ := h.exists_vary
  refine { h with same := rfl, stores := h.stores.add rfl rfl, backing := ?_ }
  cases b with
  | query q => rfl
  | key r =>
    have hown := (h.keyBridges r).own rfl
    simp only [World.backing, World.storedValue, hown] at hbacking
    simp only [World.backing, World.storedValue, World.addStore,
      World.addNotifier, hown]
    exact Pool.apply_get_add_congr
      (g := fun x => Store.find? x (w.keyBridges.get r).key) hbacking rfl _

theorem addKeyBridge (h : w.Agrees b w') (made : w.Has b.object)
    (k : KeyBridge) :
    World.Agrees b { w with keyBridges := w.keyBridges.add k }
      { w' with keyBridges := w'.keyBridges.add k } := by
  have hbacking := h.backing
  obtain ⟨v, rfl⟩ := h.exists_vary
  refine { h with
    same := rfl
    keyBridges := h.keyBridges.add rfl ⟨rfl, fun _ => rfl⟩
    backing := ?_ }
  cases b with
  | query q => rfl
  | key r =>
    have hget : (w.keyBridges.add k).get r = w.keyBridges.get r :=
      Pool.get_add_of_lt k made
    have hget' : ((w.vary v).keyBridges.add k).get r =
        (w.vary v).keyBridges.get r := Pool.get_add_of_lt k made
    simpa only [World.backing, World.storedValue, hget, hget'] using hbacking

/-- The same change of a key bridge that keeps its store and its key. -/
theorem modify_keyBridge (h : w.Agrees b w') (r : Ref .keyBridge)
    {f : KeyBridge → KeyBridge} (core : ∀ k, (f k).core = k.core) :
    World.Agrees b { w with keyBridges := w.keyBridges.modify r f }
      { w' with keyBridges := w'.keyBridges.modify r f } := by
  have hbacking := h.backing
  obtain ⟨v, rfl⟩ := h.exists_vary
  refine { h with
    same := rfl
    keyBridges := h.keyBridges.modify fun hr =>
      ⟨by rw [core, core, hr.core], fun hb => congrArg f (hr.own hb)⟩
    backing := ?_ }
  cases b with
  | query q => rfl
  | key d =>
    have hcore (p : Pool .keyBridge KeyBridge) :
        ((p.modify r f).get d).core = (p.get d).core :=
      Pool.apply_get_modify core
    have hstore (p : Pool .keyBridge KeyBridge) :
        ((p.modify r f).get d).store = (p.get d).store := by
      have := congrArg KeyBridge.store (hcore p)
      exact this
    have hkey (p : Pool .keyBridge KeyBridge) :
        ((p.modify r f).get d).key = (p.get d).key := by
      have := congrArg KeyBridge.key (hcore p)
      exact this
    simpa only [World.backing, World.storedValue, hstore, hkey] using hbacking

theorem addQueryBridge (h : w.Agrees b w') (q : QueryBridge) :
    World.Agrees b { w with queryBridges := w.queryBridges.add q }
      { w' with queryBridges := w'.queryBridges.add q } := by
  obtain ⟨v, rfl⟩ := h.exists_vary
  refine { h with
    same := rfl
    queryBridges := h.queryBridges.add rfl ⟨rfl, fun _ => rfl⟩
    backing := ?_ }
  cases b with
  | key r => exact h.backing
  | query r => rfl

/-- The same change of a query bridge that keeps its row type and its
descriptor. -/
theorem modify_queryBridge (h : w.Agrees b w') (r : Ref .queryBridge)
    {f : QueryBridge → QueryBridge} (core : ∀ q, (f q).core = q.core) :
    World.Agrees b { w with queryBridges := w.queryBridges.modify r f }
      { w' with queryBridges := w'.queryBridges.modify r f } := by
  obtain ⟨v, rfl⟩ := h.exists_vary
  refine { h with
    same := rfl
    queryBridges := h.queryBridges.modify fun hr =>
      ⟨by rw [core, core, hr.core], fun hb => congrArg f (hr.own hb)⟩
    backing := ?_ }
  cases b with
  | key d => exact h.backing
  | query d => rfl

/-- The bridge adopts a context in both worlds, or in neither. -/
theorem adopt_own {q : Ref .queryBridge} (h : w.Agrees (.query q) w')
    (c : Ref .context) : (w.adopt q c).Agrees (.query q) (w'.adopt q c) := by
  rw [World.adopt, World.adopt, (h.queryBridges q).own rfl]
  split
  · exact (h.modify_queryBridge q (f := fun k => k.adopt c) fun _ => rfl).tell
      _ _
  · exact h

theorem invalidateBridge (h : w.Agrees b w') (d : Bridge) :
    (w.invalidateBridge d).Agrees b (w'.invalidateBridge d) := by
  cases d with
  | key r =>
    exact (h.modify_keyBridge r (f := KeyBridge.invalidate) fun _ => rfl).tell
      _ _
  | query q =>
    exact (h.modify_queryBridge q (f := QueryBridge.invalidate)
      fun _ => rfl).tell _ _

theorem addContext (h : w.Agrees b w') (c : Context) :
    World.Agrees b { w with contexts := w.contexts.add c }
      { w' with contexts := w'.contexts.add c } := by
  obtain ⟨v, rfl⟩ := h.exists_vary
  exact { h with same := rfl, contexts := h.contexts.add rfl rfl }

theorem modifyMemory (h : w.Agrees b w') (c : Ref .context)
    (f : MemoryContext → MemoryContext) :
    (w.modifyMemory c f).Agrees b (w'.modifyMemory c f) := by
  have hcore (x x' : Context) (hx : x'.core = x.core) :
      Context.core { x' with memory := f x'.memory } =
        Context.core { x with memory := f x.memory } :=
    congrArg (fun y : Context => { y with memory := f y.memory }) hx
  obtain ⟨v, rfl⟩ := h.exists_vary
  exact { h with same := rfl, contexts := h.contexts.modify (hcore _ _) }

/-- A write of the same value under the same key. -/
theorem writeValue (h : w.Agrees b w') (s : Ref .store) (key : String)
    (value : Option StoreValue) :
    (w.writeValue s key value).Agrees b (w'.writeValue s key value) := by
  have hstores := h.stores.modify (r := s) (f := fun x => x.write key value)
    fun hs => by rw [Store.core_write, Store.core_write, hs]
  have hbacking := h.backing
  obtain ⟨v, rfl⟩ := h.exists_vary
  refine { h with same := rfl, stores := hstores, backing := ?_ }
  cases b with
  | query q => rfl
  | key r =>
    have hown := (h.keyBridges r).own rfl
    simp only [World.backing, World.storedValue, hown] at hbacking
    simp only [World.backing, World.storedValue, World.writeValue, World.tell,
      hown]
    refine Pool.apply_get_modify_congr
      (g := fun x => Store.find? x (w.keyBridges.get r).key) hbacking ?_
    intro x x' hx
    simp only [Store.find?_write, hx]

end Agrees
end World
end LiveProperty
