import LiveProperty.Proofs.Machine.Fetches
import LiveProperty.Proofs.Machine.Termination

/-!
# Caches memoize

A client's cache may be read, and may be invalidated, while a fetch for the
same cache is under way, to any depth.  It never keeps a value across an
invalidation, and every read answers what it held or what its own fetch got.
-/

namespace LiveProperty
namespace Machine

variable {m : Machine} {c : Ref .cache} {outcome : Except Json Json}
  {during : List Command} {mayFail : Bool} {rest : List Task}

/-- A read that found a cache empty at one step: its fetch carries out its
commands up to another step, where the read returns. -/
structure Serves (m : Machine) (c : Ref .cache) (n j : ℕ)
    (outcome : Except Json Json) (during : List Command) (mayFail : Bool)
    (rest : List Task) : Prop where
  fetching : m.Fetching (.client c) n j (.readCache c outcome during mayFail)
    rest
  /-- The read notes that it fetches, and the fetch's commands are next. -/
  starts : (run (n + 1) m).todo = Task.nested during ++
      .settleCache c ((run n m).world.caches.get c).generation outcome
        mayFail :: rest ∧
    (run (n + 1) m).world =
      ((run n m).world.tell (.cacheMissed (.client c))).tell (.fetching c)
  ends : (run j m).todo = .settleCache c
    ((run n m).world.caches.get c).generation outcome mayFail :: rest
  returns : (run (j + 1) m).todo = rest
  /-- The read answers how its own fetch ended, stored or not. -/
  answers : (run (j + 1) m).reply = cacheReply outcome mayFail
  /-- What was fetched without an invalidation is held on return. -/
  holds : ∀ v, outcome = .ok v →
    (run j m).world.invalidations (.client c) =
      (run n m).world.invalidations (.client c) →
    ((run (j + 1) m).world.caches.get c).value = some v
  /-- A failure changes nothing. -/
  fails : ∀ e, outcome = .error e → (run (j + 1) m).world = (run j m).world

/-- A cache memoizes along a run. -/
structure Memoizes (m : Machine) (c : Ref .cache) : Prop where
  /-- A value that is held was got by a fetch that succeeded, and since that
  fetch began the cache was not invalidated. -/
  fresh : ∀ n v, c.index < (run n m).world.caches.next →
    ((run n m).world.caches.get c).value = some v →
    ∃ i j during mayFail began below, j < n ∧
      m.Fetched (.client c) i j (.readCache c (.ok v) during mayFail)
        (.settleCache c began (.ok v) mayFail) below (.json v) ∧
      (run n m).world.invalidations (.client c) =
        (run i m).world.invalidations (.client c)
  /-- A read that finds a value answers it, and does not fetch. -/
  hit : ∀ n outcome during mayFail rest v,
    (run n m).todo = .readCache c outcome during mayFail :: rest →
    ((run n m).world.caches.get c).value = some v →
    run (n + 1) m = ⟨(run n m).world.tell (.cacheHit (.client c)), rest,
      cacheReply (.ok v) mayFail⟩
  /-- Every other read fetches, and returns. -/
  miss : ∀ n outcome during mayFail rest,
    (run n m).todo = .readCache c outcome during mayFail :: rest →
    ((run n m).world.caches.get c).value = none →
    ∃ j, m.Serves c n j outcome during mayFail rest

theorem step_readCache_of_some {v : Json}
    (h : m.todo = .readCache c outcome during mayFail :: rest)
    (held : (m.world.caches.get c).value = some v) :
    m.step = ⟨m.world.tell (.cacheHit (.client c)), rest,
      cacheReply (.ok v) mayFail⟩ := by
  rw [step_of_todo_cons h]
  simp only [doTask, readCache, held]
  rfl

theorem step_readCache_of_none
    (h : m.todo = .readCache c outcome during mayFail :: rest)
    (empty : (m.world.caches.get c).value = none) :
    m.step = ⟨(m.world.tell (.cacheMissed (.client c))).tell (.fetching c),
      Task.nested during ++ .settleCache c (m.world.caches.get c).generation
        outcome mayFail :: rest, m.reply⟩ := by
  rw [step_of_todo_cons h]
  simp only [doTask, readCache, empty]
  simp [push, tell, modifyWorld]

theorem step_settleCache {began : UInt64}
    (h : m.todo = .settleCache c began outcome mayFail :: rest) :
    m.step.todo = rest ∧ m.step.reply = cacheReply outcome mayFail := by
  rw [step_of_todo_cons h]
  cases outcome <;> exact ⟨rfl, rfl⟩

theorem step_settleCache_error {began : UInt64} {e : Json}
    (h : m.todo = .settleCache c began (.error e) mayFail :: rest) :
    m.step.world = m.world := by
  rw [step_of_todo_cons h]
  rfl

theorem step_settleCache_ok {began : UInt64} {v : Json}
    (h : m.todo = .settleCache c began (.ok v) mayFail :: rest)
    (same : (m.world.caches.get c).generation = began) :
    (m.step.world.caches.get c).value = some v := by
  have hget : m.step.world.caches.get c =
      (m.world.caches.get c).settle began v := by
    rw [step_of_todo_cons h]
    exact Pool.get_modify_self _
  rw [hget, Cache.settle_of_eq same]

/-- A read of an empty cache fetches and returns. -/
theorem Sound.serves (sound : m.Sound) {n : ℕ}
    (h : (run n m).todo = .readCache c outcome during mayFail :: rest)
    (empty : ((run n m).world.caches.get c).value = none) :
    ∃ j, m.Serves c n j outcome during mayFail rest := by
  have hstart := step_readCache_of_none h empty
  rw [← run_succ] at hstart
  obtain ⟨j, hwaits⟩ := exists_waits (congrArg Machine.todo hstart)
  have hends := hwaits.turn
  have hfetching : m.Fetching (.client c) n j
      (.readCache c outcome during mayFail) rest :=
    ⟨Nat.le_of_lt hwaits.lt, h, rfl, congrArg (Option.map Reply.json) empty,
      hwaits.above⟩
  have hreturn := step_settleCache hends
  rw [← run_succ] at hreturn
  refine ⟨j, hfetching, by rw [hstart]; exact ⟨rfl, rfl⟩, hends, hreturn.1,
    hreturn.2, ?_, ?_⟩
  · rintro v rfl hsame
    rw [run_succ]
    exact step_settleCache_ok hends
      (sound.generation_eq hfetching.le (hfetching.has sound) hsame)
  · rintro e rfl
    rw [run_succ]
    exact step_settleCache_error hends

/-- A fetch for a client's cache is that of a read of this cache, and got the
value that its commands fetched. -/
theorem Fetched.of_client {i j : ℕ} {read settle : Task} {below : List Task}
    {v : Json} (h : m.Fetched (.client c) i j read settle below (.json v)) :
    ∃ during mayFail, read = .readCache c (.ok v) during mayFail ∧
      settle = .settleCache c ((run i m).world.caches.get c).generation
        (.ok v) mayFail := by
  have hreads := h.reads
  have hsettling := h.settling
  cases h.ends with
  | cache d outcome during mayFail =>
    obtain rfl := CacheHolder.client.inj (Option.some.inj hreads)
    cases outcome with
    | error e => cases hsettling
    | ok value =>
      simp only [World.settling?, Option.some.injEq, Prod.mk.injEq,
        Reply.json.injEq] at hsettling
      obtain ⟨-, -, rfl⟩ := hsettling
      exact ⟨during, mayFail, rfl, rfl⟩
  | key | query | missing => cases hreads

/-- Along every run of a client, a cache memoizes, however its reads and
invalidations are nested. -/
theorem memoizes (commands : List Command) (c : Ref .cache)
    (few : (ofCommands commands).Few (.client c)) :
    (ofCommands commands).Memoizes c := by
  constructor
  · intro n v has held
    obtain ⟨i, j, read, settle, below, hjn, hfetched, hcount⟩ :=
      cached_run few has (congrArg (Option.map Reply.json) held)
    obtain ⟨during, mayFail, rfl, rfl⟩ := hfetched.of_client
    exact ⟨i, j, during, mayFail, _, below, hjn, hfetched, hcount⟩
  · intro n outcome during mayFail rest v h held
    rw [run_succ]
    exact step_readCache_of_some h held
  · intro n outcome during mayFail rest h empty
    exact (sound_ofCommands commands).serves h empty

/-- Here the fetch invalidates the cache and reads it again, so that it is
the inner read whose value stays. -/
theorem memoizes_reentrant_fetch :
    (ofCommands
      [.mk .null (.notice (.newCache "c")),
        .mk .null (.notice (.readCache "c" (.bool true)
          [.mk .null (.notice (.invalidateCache "c")),
            .mk .null (.notice (.readCache "c" (.bool false) []))])),
        .mk .null (.notice (.tryCache "c" (.error .null) []))]).Memoizes ⟨0⟩ :=
  memoizes _ _ (few_of_halted (sound_ofCommands _) 30 (by decide +kernel)
    (by decide +kernel))

end Machine
end LiveProperty
