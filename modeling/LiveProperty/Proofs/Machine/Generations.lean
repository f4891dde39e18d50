import LiveProperty.Proofs.Machine.References

/-!
# Invalidations of a cache

Between two moments of a run, the cache of a client or of a bridge was
invalidated some number of times and otherwise only took in what a fetch
settled.  `World.Passes` says the first of a change of the world; what takes
in a fetched value is read off the task by `World.settling?`.
-/

namespace LiveProperty

namespace CacheHolder

/-- The object that has the cache. -/
def object : CacheHolder → Object
  | .client c => .cache c
  | .bridge b => b.object

end CacheHolder

/-- Whether a happening is the invalidation of a cache. -/
def Happening.invalidates (holder : CacheHolder) : Happening → Bool
  | .cacheInvalidated h => h = holder
  | _ => false

theorem Happening.invalidates_of_isRemark {x : Happening} (h : x.isRemark)
    (holder : CacheHolder) : x.invalidates holder = false := by
  cases x <;> first | rfl | cases h

/-- Whether a happening is of a kind that is counted along a run: that a cache
was invalidated, or that a query bridge found no context. -/
def Happening.isCounted : Happening → Bool
  | .cacheInvalidated _ | .contextMissing .. => true
  | _ => false

theorem Happening.isCounted_of_isRemark {x : Happening} (h : x.isRemark) :
    x.isCounted = false := by
  cases x <;> first | rfl | cases h

theorem Happening.isCounted_of_invalidates {holder : CacheHolder}
    (x : Happening) (h : x.invalidates holder) : x.isCounted := by
  cases x <;> first | rfl | cases h

namespace Cache

variable {α β : Type}

/-- A cache whose value is looked at through a function. -/
def map (f : α → β) (c : Cache α) : Cache β :=
  ⟨c.value.map f, c.generation⟩

theorem map_settle (f : α → β) (c : Cache α) (began : UInt64) (value : α) :
    (c.settle began value).map f = (c.map f).settle began (f value) := by
  by_cases h : c.generation = began
  · simp [settle, map, h]
  · simp [settle, map, h]

/-- Every invalidation begins a generation. -/
theorem generation_iterate_invalidate (c : Cache α) (k : ℕ) :
    (invalidate^[k] c).generation = c.generation + UInt64.ofNat k := by
  induction k with
  | zero => simp
  | succ k ih =>
    rw [Function.iterate_succ_apply', generation_invalidate, ih,
      UInt64.ofNat_add, UInt64.add_assoc]
    rfl

theorem value_iterate_invalidate (c : Cache α) {k : ℕ} (h : k ≠ 0) :
    (invalidate^[k] c).value = none := by
  obtain ⟨k, rfl⟩ := Nat.exists_eq_succ_of_ne_zero h
  rw [Function.iterate_succ_apply', value_invalidate]

end Cache

/-- The cache of a key bridge, with its value as a reply. -/
def KeyBridge.replies (b : KeyBridge) : Cache Reply :=
  b.cache.map (.value b.kind)

/-- The cache of a query bridge, with its rows as a reply. -/
def QueryBridge.replies (q : QueryBridge) : Cache Reply :=
  q.cache.map .rows

theorem KeyBridge.replies_settle (b : KeyBridge) (began : UInt64)
    (stored : Option StoreValue) :
    (b.settle began stored).replies =
      b.replies.settle began (.value b.kind (b.valueOf stored)) :=
  Cache.map_settle _ b.cache began (b.valueOf stored)

theorem QueryBridge.replies_settle (q : QueryBridge) (began : UInt64)
    (rows : List Json) :
    (q.settle began rows).replies = q.replies.settle began (.rows rows) :=
  Cache.map_settle _ q.cache began rows

namespace World

variable {w w' w'' : World} {holder : CacheHolder}

/-- A cache, with its value as a reply. -/
def cell (w : World) : CacheHolder → Cache Reply
  | .client c => (w.caches.get c).map .json
  | .bridge (.key b) => (w.keyBridges.get b).replies
  | .bridge (.query q) => (w.queryBridges.get q).replies

/-- How often a cache was invalidated. -/
def invalidations (w : World) (holder : CacheHolder) : ℕ :=
  w.journal.countP fun x => x.invalidates holder

theorem countP_journal_of_quiet {P : Happening → Bool} (told : List Happening)
    (journal : w'.journal = told ++ w.journal)
    (quiet : ∀ x ∈ told, P x = false) :
    w'.journal.countP P = w.journal.countP P := by
  have hnone : told.countP P = 0 :=
    List.countP_eq_zero.mpr fun x hx => by simp [quiet x hx]
  rw [journal, List.countP_append, hnone, Nat.zero_add]

theorem invalidations_of_quiet (told : List Happening)
    (journal : w'.journal = told ++ w.journal)
    (quiet : ∀ x ∈ told, x.invalidates holder = false) :
    w'.invalidations holder = w.invalidations holder :=
  countP_journal_of_quiet told journal quiet

/-- A cache is invalidated a number of times, and changes in no other way. -/
def Passes (w w' : World) (holder : CacheHolder) : Prop :=
  ∃ k, w'.invalidations holder = w.invalidations holder + k ∧
    w'.cell holder = Cache.invalidate^[k] (w.cell holder)

theorem Passes.refl (w : World) (holder : CacheHolder) :
    w.Passes w holder :=
  ⟨0, rfl, rfl⟩

theorem Passes.trans (h : w.Passes w' holder) (h' : w'.Passes w'' holder) :
    w.Passes w'' holder := by
  obtain ⟨k, hcount, hcell⟩ := h
  obtain ⟨l, hcount', hcell'⟩ := h'
  refine ⟨l + k, by omega, ?_⟩
  rw [hcell', hcell, Function.iterate_add_apply]

/-- What leaves a cache alone and notes no invalidation of it. -/
theorem passes_of_quiet (told : List Happening)
    (journal : w'.journal = told ++ w.journal)
    (quiet : ∀ x ∈ told, x.invalidates holder = false)
    (cell : w'.cell holder = w.cell holder) : w.Passes w' holder :=
  ⟨0, invalidations_of_quiet told journal quiet, cell⟩

/-- What invalidates a cache and says so. -/
theorem passes_of_invalidation
    (journal : w'.journal = .cacheInvalidated holder :: w.journal)
    (cell : w'.cell holder = (w.cell holder).invalidate) :
    w.Passes w' holder := by
  refine ⟨1, ?_, cell⟩
  rw [invalidations, journal, List.countP_cons]
  simp [invalidations, Happening.invalidates]

theorem passes_tell (w : World) {x : Happening} (h : x.isRemark)
    (holder : CacheHolder) : w.Passes (w.tell x) holder :=
  passes_of_quiet [x] rfl
    (by simpa using Happening.invalidates_of_isRemark h holder)
    (by cases holder <;> rfl)

/-- What invalidates one cache leaves the others alone. -/
theorem passes_of_other {other : CacheHolder} (ne : other ≠ holder)
    (journal : w'.journal = .cacheInvalidated other :: w.journal)
    (cell : w'.cell holder = w.cell holder) : w.Passes w' holder :=
  passes_of_quiet [_] journal (by simp [Happening.invalidates, ne]) cell

theorem Passes.generation (h : w.Passes w' holder) :
    ∃ k, w'.invalidations holder = w.invalidations holder + k ∧
      (w'.cell holder).generation =
        (w.cell holder).generation + UInt64.ofNat k := by
  obtain ⟨k, hcount, hcell⟩ := h
  exact ⟨k, hcount, by rw [hcell, Cache.generation_iterate_invalidate]⟩

/-- A value that is still there was there before, and nothing was
invalidated since. -/
theorem Passes.value (h : w.Passes w' holder) {r : Reply}
    (hr : (w'.cell holder).value = some r) :
    (w.cell holder).value = some r ∧
      w'.invalidations holder = w.invalidations holder := by
  obtain ⟨k, hcount, hcell⟩ := h
  rw [hcell] at hr
  cases k with
  | zero => exact ⟨hr, hcount⟩
  | succ k =>
    rw [Cache.value_iterate_invalidate _ (Nat.succ_ne_zero k)] at hr
    cases hr

end World

section

variable {w w' : World} {holder : CacheHolder}

/-- Every edit of a world invalidates a cache or leaves it alone, and makes
none but empty ones. -/
theorem Edit.cell {todo : List Task} {bound : ℕ} {loose : Object → Prop}
    (h : Edit todo bound loose w w') (has : w'.Has holder.object) :
    w.Has holder.object ∧ w.Passes w' holder ∨
      ¬ w.Has holder.object ∧ (w'.cell holder).value = none := by
  -- Most edits leave the caches alone, and note no invalidation.
  have hsame {x : World} (told : List Happening)
      (journal : x.journal = told ++ w.journal)
      (quiet : ∀ y ∈ told, y.invalidates holder = false)
      (cell : x.cell holder = w.cell holder)
      (has : w.Has holder.object) :
      w.Has holder.object ∧ w.Passes x holder ∨
        ¬ w.Has holder.object ∧ (x.cell holder).value = none :=
    Or.inl ⟨has, World.passes_of_quiet told journal quiet cell⟩
  cases h with
  | tell x remark =>
    refine Or.inl ⟨?_, World.passes_tell w remark holder⟩
    rcases holder with c | (b | q) <;> exact has
  | letGo o free known =>
    rcases w.letGo_eq o with heq | ⟨s, -, heq⟩
    · rw [heq] at has ⊢
      exact Or.inl ⟨has, .refl w holder⟩
    · rw [heq] at has ⊢
      rcases holder with c | (b | q) <;>
        exact hsame [.detached s.source s.id] rfl
          (by simp [Happening.invalidates]) rfl has
  | newCache name =>
    rcases holder with c | (b | q)
    · rcases Pool.eq_fresh_or_lt has with rfl | hlt
      · refine Or.inr ⟨Nat.lt_irrefl _, ?_⟩
        exact congrArg (fun x => (Cache.map Reply.json x).value)
          (Pool.get_add_fresh w.caches {})
      · refine hsame [] rfl (by simp) ?_ hlt
        exact congrArg (Cache.map Reply.json) (Pool.get_add_of_lt _ hlt)
    · exact hsame [] rfl (by simp) rfl has
    · exact hsame [] rfl (by simp) rfl has
  | invalidateCache c named =>
    rcases holder with d | (b | q)
    · by_cases hcd : d = c
      · subst hcd
        refine Or.inl ⟨has, World.passes_of_invalidation rfl ?_⟩
        exact congrArg (Cache.map Reply.json) (Pool.get_modify_self _)
      · have hne : CacheHolder.client c ≠ .client d := by
          simpa using Ne.symm hcd
        refine Or.inl ⟨has, World.passes_of_other hne rfl ?_⟩
        exact congrArg (Cache.map Reply.json) (Pool.get_modify_of_ne _ hcd)
    · exact Or.inl ⟨has, World.passes_of_other (by simp) rfl rfl⟩
    · exact Or.inl ⟨has, World.passes_of_other (by simp) rfl rfl⟩
  | newKeyBridge name k offered empty unbound subscribed =>
    rcases holder with c | (b | q)
    · exact hsame [.subscribed _ _] rfl (by simp [Happening.invalidates]) rfl has
    · rcases Pool.eq_fresh_or_lt has with rfl | hlt
      · refine Or.inr ⟨Nat.lt_irrefl _, ?_⟩
        have hnone : k.replies.value = none := by
          simp [KeyBridge.replies, Cache.map, empty]
        rw [← hnone]
        exact congrArg (fun x => (KeyBridge.replies x).value)
          (Pool.get_add_fresh w.keyBridges k)
      · refine hsame [.subscribed _ _] rfl (by simp [Happening.invalidates]) ?_ hlt
        exact congrArg KeyBridge.replies (Pool.get_add_of_lt _ hlt)
    · exact hsame [.subscribed _ _] rfl (by simp [Happening.invalidates]) rfl has
  | bindKeyBridge b binding named =>
    rcases holder with c | (d | q)
    · exact hsame [] rfl (by simp) rfl has
    · refine hsame [] rfl (by simp) ?_ has
      exact Pool.apply_get_modify (g := KeyBridge.replies) fun _ => rfl
    · exact hsame [] rfl (by simp) rfl has
  | newQueryBridge name q named empty unbound silent bus subscribed =>
    rcases holder with c | (b | d)
    · exact hsame [.subscribed _ _] rfl (by simp [Happening.invalidates]) rfl has
    · exact hsame [.subscribed _ _] rfl (by simp [Happening.invalidates]) rfl has
    · rcases Pool.eq_fresh_or_lt has with rfl | hlt
      · refine Or.inr ⟨Nat.lt_irrefl _, ?_⟩
        have hnone : q.replies.value = none := by
          simp [QueryBridge.replies, Cache.map, empty]
        rw [← hnone]
        exact congrArg (fun x => (QueryBridge.replies x).value)
          (Pool.get_add_fresh w.queryBridges q)
      · refine hsame [.subscribed _ _] rfl (by simp [Happening.invalidates]) ?_ hlt
        exact congrArg QueryBridge.replies (Pool.get_add_of_lt _ hlt)
  | bindQueryBridge q binding named =>
    rcases holder with c | (d | q)
    · exact hsame [] rfl (by simp) rfl has
    · exact hsame [] rfl (by simp) rfl has
    · refine hsame [] rfl (by simp) ?_ has
      exact Pool.apply_get_modify (g := QueryBridge.replies) fun _ => rfl
  | subscribe | insertRow | updateRow | deleteRow | detach =>
    rcases holder with c | (b | q) <;>
      exact hsame [_] rfl (by simp [Happening.invalidates]) rfl has
  | _ =>
    rcases holder with c | (b | q) <;> exact hsame [] rfl (by simp) rfl has

theorem Edits.cell {todo : List Task} {bound : ℕ} {loose : Object → Prop}
    (h : Edits todo bound loose w w') (has : w'.Has holder.object) :
    w.Has holder.object ∧ w.Passes w' holder ∨
      ¬ w.Has holder.object ∧ (w'.cell holder).value = none := by
  induction h with
  | refl => exact Or.inl ⟨has, .refl w holder⟩
  | tail hedits hedit ih =>
    rcases hedit.cell has with ⟨hmid, hpasses⟩ | hnone
    · rcases ih hmid with ⟨hold, hbefore⟩ | ⟨hnew, hnone⟩
      · exact Or.inl ⟨hold, hbefore.trans hpasses⟩
      · refine Or.inr ⟨hnew, ?_⟩
        obtain ⟨k, -, hcell⟩ := hpasses
        rw [hcell]
        cases k with
        | zero => exact hnone
        | succ k => exact Cache.value_iterate_invalidate _ (Nat.succ_ne_zero k)
    · exact Or.inr ⟨fun hold => hnone.1 (Edits.has hedits hold), hnone.2⟩

end

/-- The cache that a task settles, the generation that its fetch began in,
and what it was that the fetch got. -/
def World.settling? (w : World) : Task → Option (CacheHolder × UInt64 × Reply)
  | .settleCache c began (.ok value) _ =>
    some (.client c, began, .json value)
  | .settleKey b began stored =>
    some (.bridge (.key b), began,
      .value _ ((w.keyBridges.get b).valueOf stored))
  | .settleQuery q began outcome =>
    match (w.queryBridges.get q).rowsOf outcome with
    | .ok rows => some (.bridge (.query q), began, .rows rows)
    | .error _ => none
  | _ => none

/-- What a task makes of a cache: it settles it, or the cache passes. -/
def World.Turns (w : World) (t : Task) (w' : World) (holder : CacheHolder) :
    Prop :=
  w.Passes w' holder ∨
    ∃ began r, w.settling? t = some (holder, began, r) ∧
      w'.invalidations holder = w.invalidations holder ∧
      w'.cell holder = (w.cell holder).settle began r

section

variable {m : Machine} {w : World} {holder : CacheHolder}

/-- A task that settles one cache leaves the others alone. -/
theorem World.turns_noteSettled {w x : World} {t : Task}
    {other : CacheHolder} {began : UInt64} {r : Reply} {stored : Bool}
    (told : List Happening) (remarks : ∀ h ∈ told, h.isRemark)
    (journal : x.journal = told ++ w.journal)
    (settling : w.settling? t = some (other, began, r))
    (own : x.cell other = (w.cell other).settle began r)
    (rest : holder ≠ other → x.cell holder = w.cell holder) :
    w.Turns t (x.noteSettled other stored) holder := by
  have hquiet : ∀ y ∈ (if stored then .cacheFilled other
      else .cacheDiscarded other) :: told, y.invalidates holder = false := by
    intro y hy
    rcases List.mem_cons.mp hy with rfl | hy
    · split <;> rfl
    · exact Happening.invalidates_of_isRemark (remarks y hy) holder
  have hcell : (x.noteSettled other stored).cell holder = x.cell holder := by
    rcases holder with c | (b | q) <;> rfl
  have hjournal : (x.noteSettled other stored).journal =
      ((if stored then .cacheFilled other else .cacheDiscarded other) :: told) ++
        w.journal :=
    congrArg (List.cons _) journal
  by_cases heq : holder = other
  · subst heq
    exact Or.inr ⟨began, r, settling,
      World.invalidations_of_quiet _ hjournal hquiet, hcell.trans own⟩
  · exact Or.inl (World.passes_of_quiet _ hjournal hquiet
      (hcell.trans (rest heq)))

/-- An invalidation clears the cache of one bridge, and no other. -/
theorem World.passes_invalidateBridge (w : World) (b : Bridge)
    (holder : CacheHolder) : w.Passes (w.invalidateBridge b) holder := by
  rcases b with b | q
  · rcases holder with c | (d | p)
    · exact World.passes_of_other (by simp) rfl rfl
    · by_cases hdb : d = b
      · subst hdb
        apply World.passes_of_invalidation rfl
        exact congrArg KeyBridge.replies (Pool.get_modify_self _)
      · have hne : CacheHolder.bridge (.key b) ≠ .bridge (.key d) := by
          simpa using Ne.symm hdb
        apply World.passes_of_other hne rfl
        exact congrArg KeyBridge.replies (Pool.get_modify_of_ne _ hdb)
    · exact World.passes_of_other (by simp) rfl rfl
  · rcases holder with c | (d | p)
    · exact World.passes_of_other (by simp) rfl rfl
    · exact World.passes_of_other (by simp) rfl rfl
    · by_cases hpq : p = q
      · subst hpq
        apply World.passes_of_invalidation rfl
        exact congrArg QueryBridge.replies (Pool.get_modify_self _)
      · have hne : CacheHolder.bridge (.query q) ≠ .bridge (.query p) := by
          simpa using Ne.symm hpq
        apply World.passes_of_other hne rfl
        exact congrArg QueryBridge.replies (Pool.get_modify_of_ne _ hpq)

/-- A task leaves every cache to its invalidations, except the one that it
settles. -/
theorem Effect.cell {t : Task} (h : Effect m t w)
    (remark : ∀ x, t = .tell x → x.isRemark) (has : w.Has holder.object) :
    m.world.Has holder.object ∧ m.world.Turns t w holder ∨
      ¬ m.world.Has holder.object ∧ (w.cell holder).value = none := by
  have hsame {t : Task} {x : World} (told : List Happening)
      (journal : x.journal = told ++ m.world.journal)
      (quiet : ∀ y ∈ told, y.invalidates holder = false)
      (cell : x.cell holder = m.world.cell holder)
      (has : m.world.Has holder.object) :
      m.world.Has holder.object ∧ m.world.Turns t x holder ∨
        ¬ m.world.Has holder.object ∧ (x.cell holder).value = none :=
    Or.inl ⟨has, Or.inl (World.passes_of_quiet told journal quiet cell)⟩
  cases h with
  | edits t loose known edits =>
    exact (edits.cell has).imp_left fun ⟨hold, hpasses⟩ =>
      ⟨hold, Or.inl hpasses⟩
  | tell x =>
    refine Or.inl ⟨?_, Or.inl (World.passes_tell _ (remark x rfl) holder)⟩
    rcases holder with c | (b | q) <;> exact has
  | bindContext command nested q c named namedContext =>
    rcases holder with d | (b | p)
    · exact hsame [_] rfl (by simp [Happening.invalidates]) rfl has
    · exact hsame [_] rfl (by simp [Happening.invalidates]) rfl has
    · refine hsame [_] rfl (by simp [Happening.invalidates]) ?_ has
      exact Pool.apply_get_modify (g := QueryBridge.replies) fun _ => rfl
  | adopt q audience change origin alive affects =>
    by_cases hnone : (m.world.queryBridges.get q).context.isNone
    · rw [World.adopt, if_pos hnone] at has ⊢
      rcases holder with d | (b | p)
      · exact hsame [_] rfl (by simp [Happening.invalidates]) rfl has
      · exact hsame [_] rfl (by simp [Happening.invalidates]) rfl has
      · refine hsame [_] rfl (by simp [Happening.invalidates]) ?_ has
        exact Pool.apply_get_modify (g := QueryBridge.replies) fun _ => rfl
    · rw [World.adopt, if_neg hnone] at has ⊢
      exact Or.inl ⟨has, Or.inl (.refl _ holder)⟩
  | leaveScope r reaction =>
    by_cases hread : m.world.scopes.collected.isEmpty
    · simp only [World.leaveScope, if_pos hread] at has ⊢
      rcases holder with c | (b | q) <;> exact hsame [] rfl (by simp) rfl has
    · simp only [World.leaveScope, if_neg hread] at has ⊢
      rcases holder with c | (b | q) <;>
        exact hsame [_] rfl (by simp [Happening.invalidates]) rfl has
  | invalidate b =>
    refine Or.inl ⟨?_, Or.inl (m.world.passes_invalidateBridge b holder)⟩
    rcases b with b | q <;> rcases holder with c | (d | p) <;> exact has
  | settleCache c began value mayFail =>
    refine Or.inl ⟨by rcases holder with c | (b | q) <;> exact has, ?_⟩
    refine World.turns_noteSettled [] (by simp) rfl rfl ?_ fun ne => ?_
    · exact (congrArg (Cache.map Reply.json) (Pool.get_modify_self _)).trans
        (Cache.map_settle _ _ _ _)
    · rcases holder with d | (b | q)
      · exact congrArg (Cache.map Reply.json)
          (Pool.get_modify_of_ne _ fun h => ne (by rw [h]))
      · rfl
      · rfl
  | settleKey b began stored told remarks =>
    refine Or.inl ⟨by rcases holder with c | (b | q) <;> exact has, ?_⟩
    refine World.turns_noteSettled told remarks rfl rfl ?_ fun ne => ?_
    · exact (congrArg KeyBridge.replies (Pool.get_set_self _ _ _)).trans
        (KeyBridge.replies_settle _ _ _)
    · rcases holder with c | (d | q)
      · rfl
      · exact congrArg KeyBridge.replies
          (Pool.get_set_of_ne _ (fun h => ne (by rw [h])) _)
      · rfl
  | settleQuery q began outcome rows selected =>
    refine Or.inl ⟨by rcases holder with c | (b | q) <;> exact has, ?_⟩
    have hsettling : m.world.settling? (.settleQuery q began outcome) =
        some (.bridge (.query q), began, .rows rows) := by
      simp only [World.settling?, selected]
    refine World.turns_noteSettled [] (by simp) rfl hsettling ?_ fun ne => ?_
    · exact (congrArg QueryBridge.replies (Pool.get_set_self _ _ _)).trans
        (QueryBridge.replies_settle _ _ _)
    · rcases holder with c | (b | p)
      · rfl
      · rfl
      · exact congrArg QueryBridge.replies
          (Pool.get_set_of_ne _ (fun h => ne (by rw [h])) _)
  | missContext q began outcome error =>
    rcases holder with c | (b | p)
    · exact hsame [_] rfl (by simp [Happening.invalidates]) rfl has
    · exact hsame [_] rfl (by simp [Happening.invalidates]) rfl has
    · refine hsame [_] rfl (by simp [Happening.invalidates]) ?_ has
      exact Pool.apply_get_set (g := QueryBridge.replies) rfl
  | takeBatch r told remarks =>
    have hquiet : ∀ x ∈ told ++ [.historyAnswered r (m.world.trackers.get r).batch],
        x.invalidates holder = false := by
      intro x hx
      rcases List.mem_append.mp hx with hx | hx
      · exact Happening.invalidates_of_isRemark (remarks x hx) holder
      · rw [List.mem_singleton.mp hx]
        rfl
    rcases holder with c | (b | q) <;>
      exact hsame _ (by simp) hquiet rfl has
  | save | write =>
    rcases holder with c | (b | q) <;>
      exact hsame [_, _] rfl (by simp [Happening.invalidates]) rfl has
  | countAccess | countMutation =>
    rcases holder with c | (b | q) <;>
      exact hsame [_] rfl (by simp [Happening.invalidates]) rfl has
  | enterScope | fire | receive =>
    rcases holder with c | (b | q) <;> exact hsame [] rfl (by simp) rfl has

end

section

variable {P : Happening → Bool} {m : Machine} {w w' : World}

/-- Of what is counted, commands note at once no more than that the cache of a
client was invalidated. -/
theorem Edit.countP_journal {todo : List Task} {bound : ℕ}
    {loose : Object → Prop} (h : Edit todo bound loose w w')
    (counted : ∀ x, P x → x.isCounted)
    (clients : ∀ c, P (.cacheInvalidated (.client c)) = false) :
    w'.journal.countP P = w.journal.countP P := by
  have hquiet {x : Happening} (hx : x.isCounted = false) : P x = false :=
    Bool.eq_false_iff.mpr fun h => Bool.eq_false_iff.mp hx (counted x h)
  cases h with
  | tell x remark =>
    exact World.countP_journal_of_quiet [x] rfl
      (by simpa using hquiet (Happening.isCounted_of_isRemark remark))
  | letGo o free known =>
    rcases w.letGo_eq o with heq | ⟨s, -, heq⟩
    · rw [heq]
    · rw [heq]
      exact World.countP_journal_of_quiet [.detached s.source s.id] rfl
        (by simpa using hquiet rfl)
  | invalidateCache c named =>
    exact World.countP_journal_of_quiet [_] rfl (by simpa using clients c)
  | subscribe | detach | newKeyBridge | newQueryBridge | insertRow | updateRow
  | deleteRow =>
    exact World.countP_journal_of_quiet [_] rfl (by simpa using hquiet rfl)
  | _ => exact World.countP_journal_of_quiet [] rfl (by simp)

theorem Edits.countP_journal {todo : List Task} {bound : ℕ}
    {loose : Object → Prop} (h : Edits todo bound loose w w')
    (counted : ∀ x, P x → x.isCounted)
    (clients : ∀ c, P (.cacheInvalidated (.client c)) = false) :
    w'.journal.countP P = w.journal.countP P := by
  induction h with
  | refl => rfl
  | tail _ hedit ih => exact (hedit.countP_journal counted clients).trans ih

/-- The invalidation of a bridge and the end of a query's fetch are the only
tasks that note what is counted. -/
theorem Effect.countP_journal {t : Task} (h : Effect m t w)
    (counted : ∀ x, P x → x.isCounted)
    (clients : ∀ c, P (.cacheInvalidated (.client c)) = false)
    (remark : ∀ x, t = .tell x → x.isRemark)
    (invalidates : ∀ b, t = .invalidate (.bridge b) →
      P (.cacheInvalidated (.bridge b)) = false)
    (misses : ∀ q began outcome, t = .settleQuery q began outcome →
      ∀ entity e, P (.contextMissing q entity e) = false) :
    w.journal.countP P = m.world.journal.countP P := by
  have hquiet {x : Happening} (hx : x.isCounted = false) : P x = false :=
    Bool.eq_false_iff.mpr fun h => Bool.eq_false_iff.mp hx (counted x h)
  have hremarks {told : List Happening} (remarks : ∀ x ∈ told, x.isRemark) :
      ∀ x ∈ told, P x = false :=
    fun x hx => hquiet (Happening.isCounted_of_isRemark (remarks x hx))
  have hsettled (holder : CacheHolder) (stored : Bool) :
      P (if stored then .cacheFilled holder else .cacheDiscarded holder) =
        false := by
    split <;> exact hquiet rfl
  cases h with
  | edits t loose known edits => exact edits.countP_journal counted clients
  | tell x =>
    exact World.countP_journal_of_quiet [x] rfl
      (hremarks (by simpa using remark x rfl))
  | adopt q audience change origin alive affects =>
    unfold World.adopt
    split
    · exact World.countP_journal_of_quiet [_] rfl (by simpa using hquiet rfl)
    · rfl
  | leaveScope r reaction =>
    simp only [World.leaveScope]
    split
    · rfl
    · exact World.countP_journal_of_quiet [_] rfl (by simpa using hquiet rfl)
  | invalidate b =>
    cases b <;>
      exact World.countP_journal_of_quiet [_] rfl
        (by simpa using invalidates _ rfl)
  | settleCache | settleQuery =>
    refine World.countP_journal_of_quiet [_] rfl fun x hx => ?_
    rw [List.mem_singleton.mp hx]
    exact hsettled _ _
  | settleKey b began stored told remarks =>
    refine World.countP_journal_of_quiet (_ :: told) rfl ?_
    intro x hx
    rcases List.mem_cons.mp hx with rfl | hx
    · exact hsettled _ _
    · exact hremarks remarks x hx
  | missContext q began outcome e =>
    exact World.countP_journal_of_quiet [_] rfl
      (by simpa using misses q began outcome rfl _ e)
  | takeBatch r told remarks =>
    refine World.countP_journal_of_quiet
      (told ++ [.historyAnswered r (m.world.trackers.get r).batch])
      (by simp) ?_
    intro x hx
    rcases List.mem_append.mp hx with hx | hx
    · exact hremarks remarks x hx
    · rw [List.mem_singleton.mp hx]
      exact hquiet rfl
  | save | write =>
    refine World.countP_journal_of_quiet [_, _] rfl ?_
    simpa using ⟨hquiet rfl, hquiet rfl⟩
  | bindContext | countAccess | countMutation =>
    exact World.countP_journal_of_quiet [_] rfl (by simpa using hquiet rfl)
  | enterScope | fire | receive =>
    exact World.countP_journal_of_quiet [] rfl (by simp)

/-- Only one task invalidates the cache of a bridge. -/
theorem Effect.invalidations_bridge {t : Task} (h : Effect m t w)
    (remark : ∀ x, t = .tell x → x.isRemark) {b : Bridge}
    (other : t ≠ .invalidate (.bridge b)) :
    w.invalidations (.bridge b) = m.world.invalidations (.bridge b) := by
  refine h.countP_journal (fun x => x.isCounted_of_invalidates) (fun _ => rfl)
    remark (fun d hd => ?_) fun _ _ _ _ _ _ => rfl
  have hne : d ≠ b := fun heq => other (heq ▸ hd)
  simp [Happening.invalidates, hne]

end

namespace Machine

variable {m : Machine} {holder : CacheHolder}

/-- The next task settles a cache. -/
def Settles (m : Machine) (holder : CacheHolder) (began : UInt64)
    (r : Reply) : Prop :=
  ∃ t rest, m.todo = t :: rest ∧
    m.world.settling? t = some (holder, began, r)

/-- A step invalidates a cache, settles it or leaves it alone. -/
theorem Sound.cell_step (sound : m.Sound)
    (has : m.world.Has holder.object) :
    m.world.Passes m.step.world holder ∨
      ∃ began r, m.Settles holder began r ∧
        m.step.world.invalidations holder = m.world.invalidations holder ∧
        m.step.world.cell holder = (m.world.cell holder).settle began r := by
  cases htodo : m.todo with
  | nil =>
    rw [step_of_todo_nil htodo]
    exact Or.inl (.refl _ holder)
  | cons t rest =>
    have heffect := effect_step htodo
    have hremark : ∀ x, t = .tell x → x.isRemark :=
      (sound.todo t (htodo ▸ List.mem_cons_self)).remark
    rcases heffect.cell hremark (heffect.has has) with ⟨-, hturns⟩ | ⟨hnew, -⟩
    · rcases hturns with hpasses | ⟨began, r, hsettling, hcount, hcell⟩
      · exact Or.inl hpasses
      · exact Or.inr ⟨began, r, ⟨t, rest, htodo, hsettling⟩, hcount, hcell⟩
    · exact absurd has hnew

/-- A cache is empty when it is made. -/
theorem Sound.cell_new (sound : m.Sound) (new : ¬ m.world.Has holder.object)
    (has : m.step.world.Has holder.object) :
    (m.step.world.cell holder).value = none := by
  cases htodo : m.todo with
  | nil =>
    rw [step_of_todo_nil htodo] at has
    exact absurd has new
  | cons t rest =>
    have hremark : ∀ x, t = .tell x → x.isRemark :=
      (sound.todo t (htodo ▸ List.mem_cons_self)).remark
    rcases (effect_step htodo).cell hremark has with ⟨hold, -⟩ | ⟨-, hnone⟩
    · exact absurd hold new
    · exact hnone

/-- The generation of a cache counts its invalidations, as a word. -/
theorem Sound.generation_step (sound : m.Sound)
    (has : m.world.Has holder.object) :
    ∃ k, m.step.world.invalidations holder =
        m.world.invalidations holder + k ∧
      (m.step.world.cell holder).generation =
        (m.world.cell holder).generation + UInt64.ofNat k := by
  rcases sound.cell_step has with hpasses | ⟨began, r, -, hcount, hcell⟩
  · exact hpasses.generation
  · exact ⟨0, hcount, by rw [hcell, Cache.generation_settle]; simp⟩

/-- The same, from one moment of a run to a later one. -/
theorem Sound.generation_run (sound : m.Sound) {i j : ℕ} (le : i ≤ j)
    (has : (run i m).world.Has holder.object) :
    ∃ k, (run j m).world.invalidations holder =
        (run i m).world.invalidations holder + k ∧
      ((run j m).world.cell holder).generation =
        ((run i m).world.cell holder).generation + UInt64.ofNat k := by
  induction le with
  | refl => exact ⟨0, rfl, by simp⟩
  | step le ih =>
    obtain ⟨k, hcount, hgeneration⟩ := ih
    obtain ⟨l, hcount', hgeneration'⟩ :=
      (sound.after _).generation_step (has_run le has)
    refine ⟨k + l, ?_, ?_⟩
    · rw [run_succ, hcount', hcount, Nat.add_assoc]
    · rw [run_succ, hgeneration', hgeneration, UInt64.ofNat_add,
        UInt64.add_assoc]

/-- A cache that is again in the generation in which a fetch began was not
invalidated since, unless it was invalidated 2^64 times. -/
theorem Sound.invalidations_eq (sound : m.Sound) {i j : ℕ} (le : i ≤ j)
    (has : (run i m).world.Has holder.object)
    (few : (run j m).world.invalidations holder <
      (run i m).world.invalidations holder + 2 ^ 64)
    (h : ((run j m).world.cell holder).generation =
      ((run i m).world.cell holder).generation) :
    (run j m).world.invalidations holder =
      (run i m).world.invalidations holder := by
  obtain ⟨k, hcount, hgeneration⟩ := sound.generation_run le has
  have hzero : UInt64.ofNat k = 0 := by
    rw [hgeneration] at h
    exact UInt64.add_eq_left.mp h
  have hk : k = 0 := by
    have hmod : k % 2 ^ 64 = 0 := congrArg UInt64.toNat hzero
    rwa [Nat.mod_eq_of_lt (by omega)] at hmod
  rw [hcount, hk, Nat.add_zero]

theorem Sound.invalidations_le (sound : m.Sound) {i j : ℕ} (le : i ≤ j)
    (has : (run i m).world.Has holder.object) :
    (run i m).world.invalidations holder ≤
      (run j m).world.invalidations holder := by
  obtain ⟨k, hcount, -⟩ := sound.generation_run le has
  omega

theorem Sound.invalidations_between (sound : m.Sound) {i j k : ℕ}
    (hij : i ≤ j) (hjk : j ≤ k) (has : (run i m).world.Has holder.object)
    (same : (run k m).world.invalidations holder =
      (run i m).world.invalidations holder) :
    (run j m).world.invalidations holder =
      (run i m).world.invalidations holder := by
  have hbefore := sound.invalidations_le hij has
  have hafter := sound.invalidations_le hjk (has_run hij has)
  omega

/-- A cache that was not invalidated is in the same generation. -/
theorem Sound.generation_eq (sound : m.Sound) {i j : ℕ} (le : i ≤ j)
    (has : (run i m).world.Has holder.object)
    (h : (run j m).world.invalidations holder =
      (run i m).world.invalidations holder) :
    ((run j m).world.cell holder).generation =
      ((run i m).world.cell holder).generation := by
  obtain ⟨k, hcount, hgeneration⟩ := sound.generation_run le has
  have hk : k = 0 := by omega
  rw [hgeneration, hk]
  simp

/-- A cache that holds something still does unless it was invalidated. -/
theorem Sound.holds_run (sound : m.Sound) {i j : ℕ}
    (le : i ≤ j) (has : (run i m).world.Has holder.object)
    (same : (run j m).world.invalidations holder =
      (run i m).world.invalidations holder)
    (holds : ((run i m).world.cell holder).value.isSome) :
    ((run j m).world.cell holder).value.isSome := by
  induction j, le using Nat.le_induction with
  | base => exact holds
  | succ j le ih =>
    have hhas := has_run le has
    have hsame := sound.invalidations_between le (Nat.le_add_right j 1) has same
    have hheld := ih hsame
    rw [run_succ]
    rcases (sound.after j).cell_step hhas with ⟨k, hcount, hcell⟩ |
      ⟨began, r, -, -, hcell⟩
    · rw [← run_succ] at hcount
      have hk : k = 0 := by omega
      rw [hcell, hk]
      exact hheld
    · rw [hcell]
      by_cases heq : ((run j m).world.cell holder).generation = began
      · rw [Cache.settle_of_eq heq]
        rfl
      · rw [Cache.settle_of_ne heq]
        exact hheld

/-- The cache of a bridge is invalidated by its task only. -/
theorem Sound.invalidations_step (sound : m.Sound) {b : Bridge}
    (other : ∀ rest, m.todo ≠ .invalidate (.bridge b) :: rest) :
    m.step.world.invalidations (.bridge b) =
      m.world.invalidations (.bridge b) := by
  cases htodo : m.todo with
  | nil => rw [step_of_todo_nil htodo]
  | cons t rest =>
    have hremark : ∀ x, t = .tell x → x.isRemark :=
      (sound.todo t (htodo ▸ List.mem_cons_self)).remark
    have hother : t ≠ .invalidate (.bridge b) :=
      fun heq => other rest (htodo.trans (by rw [heq]))
    exact (effect_step htodo).invalidations_bridge hremark hother

end Machine

end LiveProperty
