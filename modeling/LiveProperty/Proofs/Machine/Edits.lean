import LiveProperty.Machine.Step
import Mathlib.Data.Nat.Notation
import Mathlib.Logic.Relation

/-!
# What commands do at once

Beginning a command changes the world in a few ways, finishing one lets
objects go, and both leave alone what has begun before them.  This module
lists these changes as `Edit`, and the shapes of a command that has begun
as `Begins`.  Every later invariant goes through these two lists, and not
through the commands.
-/

namespace LiveProperty

/-- A happening that is noted without any other change of the world. -/
def Happening.isRemark : Happening → Bool
  | .finished .. | .fetching _ | .heard .. | .storeRead .. | .recordsAsked ..
  | .accessed .. | .mutating .. | .mutated .. | .observerFired _
  | .clientInvalidated | .bodyRan | .opened .. | .closed .. | .spanEntered _
  | .spanLeft _ | .historyAsked .. | .announced .. | .cacheHit _
  | .cacheMissed _ | .keyChanged .. | .defaultUsed .. | .writeRefused ..
  | .queryFailed .. | .resultsInvalidated .. | .tokenUnreadable ..
  | .tokenNotStored .. | .historyFailed .. | .remoteAnnounced .. => true
  | _ => false

namespace World

/-- Whether a name or a command that waits among the given tasks holds an
object. -/
def isHeldWith (w : World) (todo : List Task) (o : Object) : Bool :=
  w.isNamed o || todo.any fun t => t.held.contains o

/-- A store that a client can speak of: a named one, the default one, or the
one behind a named bridge. -/
def Offers (w : World) (s : Ref .store) : Prop :=
  w.isNamed (.store s) ∨ s = w.defaultStore ∨
    ∃ b, w.isNamed (.keyBridge b) ∧ s = (w.keyBridges.get b).store

theorem isNamed_of_lookup {w : World} {name : String} {o : Object}
    (h : w.lookup? name = some (.object o)) : w.isNamed o := by
  have hmem : (name, Named.object o) ∈ w.names :=
    Dictionary.mem_of_find? h
  exact List.any_eq_true.mpr ⟨_, hmem, by simp⟩

end World

/-- A change of the world that a command makes at once, while the given
tasks wait.  The schedules that it hands over are smaller than the bound,
as they are parts of the command, and the objects that it lets go of were
among the loose ones, to which somebody had a handle when it began. -/
inductive Edit (todo : List Task) (bound : ℕ) (loose : Object → Prop)
    (w : World) : World → Prop
  | tell (h : Happening) (remark : h.isRemark) : Edit todo bound loose w (w.tell h)
  | bindValue (name : String) (n : Named) (plain : ∀ o, n ≠ .object o) :
      Edit todo bound loose w (w.bindName name n)
  | unbindName (name : String) : Edit todo bound loose w (w.unbindName name)
  /-- An object goes only when nobody holds it. -/
  | letGo (o : Object) (free : w.isHeldWith todo o = false)
      (known : loose o) :
      Edit todo bound loose w (w.letGo o)
  | newCache (name : String) :
      Edit todo bound loose w ({ w with caches := w.caches.add {} }.bindName name
        (.object (.cache w.caches.fresh)))
  | invalidateCache (c : Ref .cache) (named : w.isNamed (.cache c)) :
      Edit todo bound loose w ({ w with caches := w.caches.modify c Cache.invalidate }.tell
        (.cacheInvalidated (.client c)))
  | newNotifier (name : String) :
      Edit todo bound loose w (w.addNotifier.bindName name
        (.object (.notifier w.notifiers.fresh)))
  | newBus (name : String) :
      Edit todo bound loose w (w.addNotifier.bindName name
        (.object (.bus w.notifiers.fresh)))
  | subscribe (name : String) (n : Ref .notifier) (script : Schedule)
      (onlyKey : Option String) (small : sizeOf script < bound) :
      Edit todo bound loose w
        (((w.addPlan script).subscribe n
            (.client name w.plans.fresh onlyKey)).bindName name
          (.object (.subscription ⟨w.freshSubscriber, n⟩)))
  | detach (n : Ref .notifier) (s : Subscription)
      (named : w.isNamed (.subscription s)) : Edit todo bound loose w (w.detach n s.id)
  | freshSubscriber :
      Edit todo bound loose w { w with subscriptions := w.subscriptions + 1 }
  | newStore (name : String) (suite : Option String) (onRead : Schedule)
      (small : sizeOf onRead < bound) :
      Edit todo bound loose w
        (((w.addPlan onRead).addStore (some name) suite
            (some w.plans.fresh)).bindName name (.object (.store w.stores.fresh)))
  | setDefaultStore (s : Ref .store) (named : w.isNamed (.store s)) :
      Edit todo bound loose w { w with defaultStore := s }
  | resetDefaultStore :
      Edit todo bound loose w { w.addStore none (some standardSuite) none with
        defaultStore := w.stores.fresh }
  /-- A new key bridge listens to its store, and its cache is empty. -/
  | newKeyBridge (name : String) (b : KeyBridge) (offered : w.Offers b.store)
      (empty : b.cache = {}) (unbound : b.relay.binding = none)
      (subscribed : b.subscription =
        w.freshSubscription (w.stores.get b.store).changes) :
      Edit todo bound loose w
        ({ w.subscribe (w.stores.get b.store).changes
              (.keyBridge w.keyBridges.fresh) with
            keyBridges := w.keyBridges.add b }.bindName name
          (.object (.keyBridge w.keyBridges.fresh)))
  | bindKeyBridge (b : Ref .keyBridge) (binding : Binding)
      (named : w.isNamed binding.owner.object) :
      Edit todo bound loose w
        { w with keyBridges := w.keyBridges.modify b fun k => k.bind binding }
  | newRegistrar (name : String) :
      Edit todo bound loose w ({ w with registrars := w.registrars.add {} }.bindName name
        (.object (.registrar w.registrars.fresh)))
  | newHook (name : String) (onAccess before after : Schedule) (calls : Nat)
      (forward : Option (Ref .registrar))
      (named : ∀ r, forward = some r → w.isNamed (.registrar r))
      (small : sizeOf onAccess + sizeOf before + sizeOf after < bound) :
      Edit todo bound loose w
        ({ ((w.addPlan onAccess).addPlan before).addPlan after with
            hooks := w.hooks.add
              ⟨name, w.plans.fresh, (w.addPlan onAccess).plans.fresh,
                ((w.addPlan onAccess).addPlan before).plans.fresh, calls,
                forward⟩ }.bindName name (.object (.hook w.hooks.fresh)))
  | newPresenter (name : String) (before after : Schedule) (calls : Nat)
      (small : sizeOf before + sizeOf after < bound) :
      Edit todo bound loose w
        ({ (w.addPlan before).addPlan after with
            presenters := w.presenters.add
              ⟨name, w.plans.fresh, (w.addPlan before).plans.fresh,
                calls⟩ }.bindName name
          (.object (.presenter w.presenters.fresh)))
  | installPresenter (p : Option (Ref .presenter)) :
      Edit todo bound loose w { w with installedPresenter := p }
  /-- A new context is empty. -/
  | newContext (name : String) (changes : Ref .notifier) (namesItself : Bool) :
      Edit todo bound loose w
        ({ w with
            contexts := w.contexts.add
              ⟨{}, changes, namesItself, none⟩ }.bindName name
          (.object (.context w.contexts.fresh)))
  | newSupervisedContext (name : String) (changes : Ref .notifier)
      (onFetch : Schedule) (failures : Nat) (error : BridgeError)
      (small : sizeOf onFetch < bound) :
      Edit todo bound loose w
        ({ w.addPlan onFetch with
            contexts := w.contexts.add
              ⟨{}, changes, false,
                some ⟨name, w.plans.fresh, failures, error⟩⟩ }.bindName name
          (.object (.context w.contexts.fresh)))
  | insertRow (c : Ref .context) (rowType : RowType) (content : Json) :
      Edit todo bound loose w
        ((w.modifyMemory c fun memory => memory.insert rowType content).tell
          (.rowWritten c ⟨.inserted, rowType.entity⟩ (w.memory c).freshRow))
  | updateRow (c : Ref .context) (rowType : RowType) (id : RowId)
      (content : Json) (holds : (w.memory c).holds rowType id) :
      Edit todo bound loose w
        ((w.modifyMemory c fun memory => memory.update rowType id content).tell
          (.rowWritten c ⟨.updated, rowType.entity⟩ id))
  | deleteRow (c : Ref .context) (rowType : RowType) (id : RowId)
      (holds : (w.memory c).holds rowType id) :
      Edit todo bound loose w
        ((w.modifyMemory c fun memory => memory.delete rowType id).tell
          (.rowWritten c ⟨.deleted, rowType.entity⟩ id))
  | setDefaultContext (c : Option (Ref .context))
      (named : ∀ r, c = some r → w.isNamed (.context r)) :
      Edit todo bound loose w { w with defaultContext := c }
  /-- A new query bridge listens to its bus, and its cache is empty. -/
  | newQueryBridge (name : String) (q : QueryBridge)
      (named : ∀ c, q.context = some c → w.isNamed (.context c))
      (empty : q.cache = {}) (unbound : q.relay.binding = none)
      (silent : q.warned = false)
      (bus : q.subscription.source = w.sharedBus ∨
        w.isNamed (.bus q.subscription.source))
      (subscribed : q.subscription = w.freshSubscription q.subscription.source) :
      Edit todo bound loose w
        ({ w.subscribe q.subscription.source
              (.queryBridge w.queryBridges.fresh) with
            queryBridges := w.queryBridges.add q }.bindName name
          (.object (.queryBridge w.queryBridges.fresh)))
  | bindQueryBridge (q : Ref .queryBridge) (binding : Binding)
      (named : w.isNamed binding.owner.object) :
      Edit todo bound loose w
        { w with
          queryBridges := w.queryBridges.modify q fun b => b.bind binding }
  | newTracker (name : String) (s : Ref .store) (key : String)
      (changes : Ref .notifier) (batches : List HistoryBatch)
      (onCall : Schedule) (named : w.isNamed (.store s))
      (small : sizeOf onCall < bound) :
      Edit todo bound loose w
        ({ w.addPlan onCall with
            trackers := w.trackers.add
              ⟨name, s, key, changes, w.plans.fresh, batches⟩ }.bindName name
          (.object (.tracker w.trackers.fresh)))
  | pushBatch (t : Ref .tracker) (batch : HistoryBatch) :
      Edit todo bound loose w
        { w with trackers := w.trackers.modify t fun tr => tr.pushBatch batch }

/-- Changes that are made at once, one after another. -/
abbrev Edits (todo : List Task) (bound : ℕ) (loose : Object → Prop) :
    World → World → Prop :=
  Relation.ReflTransGen (Edit todo bound loose)

end LiveProperty
