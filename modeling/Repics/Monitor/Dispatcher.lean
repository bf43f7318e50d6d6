import Mathlib.Logic.Function.Basic
import Repics.Lib.Transition

/-!
# The dispatcher

One drain loop takes batches from a hub and hands each item to its
subscription.  An item runs code of the subscription in several places: the
conversion of an update, the connection and access hooks, and the callback or
the work queue it goes through.  What that code does is part of the item here:
it returns or raises, and it may close subscriptions.

`planned` and `handled` are kept for the record: every item that was planned,
and what became of the items that the loop has got to.
-/

namespace Repics.Monitor

/-- The two protocols, each drained by a thread or by a task of a loop. -/
inductive Front where
  | caThread
  | caLoop
  | pvaThread
  | pvaLoop
  deriving DecidableEq

/-- The item kinds of both hubs; `finished` is the end of a stream. -/
inductive Kind where
  | value
  | error
  | connectTimeout
  | connected
  | disconnected
  | accessRights
  | finished
  deriving DecidableEq

/-- What a callback or a hook does. -/
structure Effect where
  closes : List Nat
  raises : Bool

/-- What the code of the subscription does with an item: the conversion of its
update, `none` when it raises, the hook, the callback, and whether the work
queue refuses the push. -/
structure Own (Value : Type) where
  conversion : Option Value
  hook : Effect
  callback : Effect
  pushRaises : Bool

structure Item (Value : Type) where
  sid : Nat
  kind : Kind
  own : Own Value

/-- What a callback is given. -/
inductive Update (Value : Type) where
  | value (value : Value)
  | caNothing
  | disconnected
  | finished
  deriving DecidableEq

/-- How a subscription was made; `queued` when its callbacks go through a work
queue. -/
structure Config where
  allUpdates : Bool
  notify : Bool
  queued : Bool

inductive SubscriptionState where
  | opening
  | opened
  | closed
  deriving DecidableEq

structure Subscription where
  config : Config
  registered : Bool
  state : SubscriptionState
  dropped : Nat

/-- The subscriptions of a dispatcher, by id. -/
abbrev Subs := List Subscription

inductive Loop where
  | idle
  | running
  | dead
  deriving DecidableEq

/-- What became of an item. -/
inductive Fate (Value : Type) where
  | skipped
  | applied (update : Option (Update Value))
  | raised
  deriving DecidableEq

structure Dispatcher (Value : Type) where
  subs : Subs
  loop : Loop
  pending : List (Item Value)
  planned : List (Item Value)
  handled : List (Item Value × Fate Value)

inductive Step (Value : Type) where
  | add (config : Config)
  | close (sid : Nat)
  | recv (batch : List (Item Value))
  | item

namespace Front

def isCa : Front → Bool
  | .caThread | .caLoop => true
  | .pvaThread | .pvaLoop => false

def isLoop : Front → Bool
  | .caLoop | .pvaLoop => true
  | .caThread | .pvaThread => false

end Front

/-- The hub of pvAccess has collapsed what is to be collapsed. -/
def Subscription.new (front : Front) (config : Config) : Subscription :=
  ⟨{ config with allUpdates := config.allUpdates || !front.isCa }, true,
    .opening, 0⟩

section Subs

/-- `_mark_closed` and the removal from the dispatcher. -/
def closeSub (subs : Subs) (sid : Nat) : Subs :=
  match subs[sid]? with
  | none => subs
  | some sub => subs.set sid { sub with registered := false, state := .closed }

def Effect.apply (effect : Effect) (subs : Subs) : Subs :=
  effect.closes.foldl closeSub subs

/-- `shutdown` closes every subscription that is registered. -/
def shutdown (subs : Subs) : Subs :=
  subs.map fun sub =>
    if sub.registered then { sub with registered := false, state := .closed }
    else sub

end Subs

/-- The plan so far, with the place of the last value of each subscription
that may still be collapsed. -/
structure Plan (Value : Type) where
  out : List (Item Value)
  lastValue : Nat → Option Nat
  subs : Subs

def Plan.push {Value : Type} (plan : Plan Value) (item : Item Value) :
    Plan Value :=
  match plan.subs[item.sid]? with
  | none => plan
  | some sub =>
      if sub.registered then
        if item.kind = .value ∧ ¬sub.config.allUpdates then
          match plan.lastValue item.sid with
          | some place => { plan with
              out := plan.out.set place item
              subs := plan.subs.set item.sid
                { sub with dropped := sub.dropped + 1 } }
          | none => { plan with
              out := plan.out ++ [item]
              lastValue := Function.update plan.lastValue item.sid
                (some plan.out.length) }
        else { plan with
          out := plan.out ++ [item]
          lastValue := Function.update plan.lastValue item.sid none }
      else plan

def plan {Value : Type} (subs : Subs) (batch : List (Item Value)) :
    Plan Value :=
  batch.foldl Plan.push ⟨[], fun _ => none, subs⟩

section Item

variable {Value : Type} (front : Front)

/-- A hook runs and either returns, with nothing to deliver, or raises. -/
def runHook (effect : Effect) (subs : Subs) : Subs × Fate Value :=
  (effect.apply subs, if effect.raises then .raised else .applied none)

/-- `_event` of the Channel Access subscriptions, for one that is not
closed. -/
def caEvent (subs : Subs) (sub : Subscription) (item : Item Value) :
    Subs × Fate Value :=
  match item.kind with
  | .value =>
      match item.own.conversion with
      | none => (subs, .raised)
      | some value => (subs, .applied (some (.value value)))
  | .error =>
      (subs, .applied (if sub.config.notify then some .caNothing else none))
  | .connectTimeout => (subs, .applied (some .caNothing))
  | .connected =>
      runHook item.own.hook (subs.set item.sid { sub with state := .opened })
  | .disconnected => runHook item.own.hook subs
  | .accessRights => runHook item.own.hook subs
  | .finished => (closeSub subs item.sid, .applied none)

/-- `_event` of the pvAccess subscriptions, for one that is not closed. -/
def pvaEvent (subs : Subs) (sub : Subscription) (item : Item Value) :
    Subs × Fate Value :=
  match item.kind with
  | .value =>
      match item.own.conversion with
      | none => (subs, .raised)
      | some value => (subs, .applied (some (.value value)))
  | .disconnected =>
      (subs, .applied (if sub.config.notify then some .disconnected
        else none))
  | .finished =>
      (closeSub subs item.sid,
        .applied (if sub.config.notify then some .finished else none))
  | _ => (subs, .applied none)

def event (subs : Subs) (sub : Subscription) (item : Item Value) :
    Subs × Fate Value :=
  if front.isCa then caEvent subs sub item else pvaEvent subs sub item

/-- `_deliver`, and whether it raises. -/
def deliver (subs : Subs) (sub : Subscription) (item : Item Value) :
    Subs × Bool :=
  match front with
  | .caThread | .caLoop =>
      let called := item.own.callback.apply subs
      (if item.own.callback.raises then closeSub called item.sid else called,
        false)
  | .pvaThread =>
      if sub.config.queued then (subs, item.own.pushRaises)
      else (item.own.callback.apply subs, false)
  | .pvaLoop => (item.own.callback.apply subs, false)

/-- The body of the drain loop for one item. -/
def handle (subs : Subs) (item : Item Value) :
    Subs × Fate Value :=
  match subs[item.sid]? with
  | none => (subs, .skipped)
  | some sub =>
      if sub.state = .closed then (subs, .skipped)
      else
        match event front subs sub item with
        | (after, .applied (some update)) =>
            let (delivered, raises) := deliver front after sub item
            (delivered, if raises then .raised else .applied (some update))
        | (after, fate) => (after, fate)

end Item

namespace Dispatcher

variable {Value : Type} (front : Front)

def next (state : Dispatcher Value) : Step Value → Option (Dispatcher Value)
  | .add config => some { state with
      subs := state.subs ++ [.new front config]
      loop := if state.loop = .idle then .running else state.loop }
  | .close sid => some { state with subs := closeSub state.subs sid }
  | .recv batch =>
      if state.loop = .running ∧ state.pending.isEmpty then
        let planned := plan state.subs batch
        some { state with
          subs := planned.subs
          pending := planned.out
          planned := state.planned ++ planned.out }
      else none
  | .item =>
      match state.loop, state.pending with
      | .running, item :: pending =>
          let (subs, fate) := handle front state.subs item
          let handled := state.handled ++ [(item, fate)]
          match fate with
          | .raised => some { state with
              subs := if front.isLoop then shutdown subs else subs
              loop := .dead
              pending := pending
              handled := handled }
          | _ => some { state with
              subs := subs
              pending := pending
              handled := handled }
      | _, _ => none

def fresh : Dispatcher Value :=
  ⟨[], .idle, [], [], []⟩

def system : Transition (Dispatcher Value) (Step Value) :=
  .ofPartial (fun state => state = fresh) (next front)

end Dispatcher

section Spec

variable {Value : Type} (front : Front)

/-- What the callback is to be given, if anything. -/
def expected (config : Config) (item : Item Value) : Option (Update Value) :=
  match item.kind with
  | .value => item.own.conversion.map .value
  | .error => if front.isCa && config.notify then some .caNothing else none
  | .connectTimeout => if front.isCa then some .caNothing else none
  | .disconnected =>
      if !front.isCa && config.notify then some .disconnected else none
  | .finished => if !front.isCa && config.notify then some .finished else none
  | .connected => none
  | .accessRights => none

/-- The conversion or a hook raises. -/
def eventRaises (item : Item Value) : Bool :=
  match item.kind with
  | .value => item.own.conversion.isNone
  | .connected | .disconnected | .accessRights =>
      front.isCa && item.own.hook.raises
  | _ => false

/-- The work queue refuses what is delivered. -/
def pushRaises (config : Config) (item : Item Value) : Bool :=
  decide (front = .pvaThread) && config.queued && item.own.pushRaises &&
    (expected front config item).isSome

/-- Code of the subscription raises where nothing catches it. -/
def Escapes (config : Config) (item : Item Value) : Prop :=
  eventRaises front item = true ∨ pushRaises front config item = true

instance (config : Config) (item : Item Value) :
    Decidable (Escapes front config item) :=
  inferInstanceAs (Decidable (_ ∨ _))

theorem caEvent_fate (isCa : front.isCa = true) (subs : Subs)
    (sub : Subscription) (item : Item Value) :
    (caEvent subs sub item).2 =
      if eventRaises front item then .raised
      else .applied (expected front sub.config item) := by
  cases kind : item.kind with
  | value =>
      cases conversion : item.own.conversion with
      | none => simp [caEvent, eventRaises, kind, conversion]
      | some value =>
          simp [caEvent, eventRaises, expected, kind, conversion]
  | _ => simp [caEvent, runHook, eventRaises, expected, isCa, kind]

theorem pvaEvent_fate (isPva : front.isCa = false) (subs : Subs)
    (sub : Subscription) (item : Item Value) :
    (pvaEvent subs sub item).2 =
      if eventRaises front item then .raised
      else .applied (expected front sub.config item) := by
  cases kind : item.kind with
  | value =>
      cases conversion : item.own.conversion with
      | none => simp [pvaEvent, eventRaises, kind, conversion]
      | some value =>
          simp [pvaEvent, eventRaises, expected, kind, conversion]
  | _ => simp [pvaEvent, eventRaises, expected, isPva, kind]

/-- What `_event` returns is what is expected unless it raises. -/
theorem event_fate (subs : Subs) (sub : Subscription) (item : Item Value) :
    (event front subs sub item).2 =
      if eventRaises front item then .raised
      else .applied (expected front sub.config item) := by
  unfold event
  split
  · rename_i isCa
    exact caEvent_fate front isCa subs sub item
  · rename_i isPva
    rw [Bool.not_eq_true] at isPva
    exact pvaEvent_fate front isPva subs sub item

theorem deliver_raises (subs : Subs) (sub : Subscription) (item : Item Value)
    {update : Update Value}
    (isExpected : expected front sub.config item = some update) :
    (deliver front subs sub item).2 = pushRaises front sub.config item := by
  cases front with
  | pvaThread =>
      cases queued : sub.config.queued with
      | true => simp [deliver, pushRaises, queued, isExpected]
      | false => simp [deliver, pushRaises, queued]
  | caThread => simp [deliver, pushRaises]
  | caLoop => simp [deliver, pushRaises]
  | pvaLoop => simp [deliver, pushRaises]

/-- The item of a live subscription is applied, and what is expected is
delivered, unless its own code escapes. -/
theorem handle_fate {subs : Subs} {item : Item Value} {sub : Subscription}
    (found : subs[item.sid]? = some sub) (live : sub.state ≠ .closed) :
    (handle front subs item).2 =
      if Escapes front sub.config item then .raised
      else .applied (expected front sub.config item) := by
  rcases eventEq : event front subs sub item with ⟨after, fate⟩
  have fateEq := event_fate front subs sub item
  rw [eventEq] at fateEq
  simp only [handle, found, live, if_false, eventEq, Escapes]
  by_cases raises : eventRaises front item = true
  · simp only [raises, if_true] at fateEq
    subst fateEq
    simp [raises]
  · simp only [raises, Bool.false_eq_true, if_false] at fateEq
    subst fateEq
    cases isExpected : expected front sub.config item with
    | none => simp [raises, pushRaises, isExpected]
    | some update =>
        simp only [raises, Bool.false_eq_true, false_or]
        rw [deliver_raises front after sub item isExpected]

end Spec

/-- Every subscription is still there, made the same way, and closed if it
was. -/
def Keeps (subs later : Subs) : Prop :=
  ∀ (sid : Nat) (sub : Subscription), subs[sid]? = some sub →
    ∃ after, later[sid]? = some after ∧ after.config = sub.config ∧
      (sub.state = .closed → after.state = .closed)

namespace Keeps

theorem refl (subs : Subs) : Keeps subs subs :=
  fun _ sub found => ⟨sub, found, rfl, id⟩

theorem trans {first second third : Subs} (left : Keeps first second)
    (right : Keeps second third) : Keeps first third := by
  intro sid sub found
  obtain ⟨middle, middleFound, middleConfig, middleClosed⟩ :=
    left sid sub found
  obtain ⟨last, lastFound, lastConfig, lastClosed⟩ :=
    right sid middle middleFound
  exact ⟨last, lastFound, lastConfig.trans middleConfig,
    fun closed => lastClosed (middleClosed closed)⟩

theorem length_le {subs later : Subs} (keeps : Keeps subs later) :
    subs.length ≤ later.length := by
  apply Nat.not_lt.mp
  intro shorter
  obtain ⟨after, found, -⟩ := keeps later.length subs[later.length]
    (List.getElem?_eq_getElem shorter)
  simp at found

theorem live {subs later : Subs} (keeps : Keeps subs later) {sid : Nat}
    (bound : sid < subs.length) {after : Subscription}
    (found : later[sid]? = some after) (live : after.state ≠ .closed) :
    ∃ sub, subs[sid]? = some sub ∧ sub.state ≠ .closed ∧
      after.config = sub.config := by
  have before := List.getElem?_eq_getElem bound
  obtain ⟨other, otherFound, config, closed⟩ := keeps sid subs[sid] before
  obtain rfl : after = other := by simpa [found] using otherFound
  exact ⟨subs[sid], before, fun wasClosed => live (closed wasClosed),
    config⟩

theorem set {subs : Subs} {sid : Nat} {sub changed : Subscription}
    (found : subs[sid]? = some sub) (config : changed.config = sub.config)
    (closed : sub.state = .closed → changed.state = .closed) :
    Keeps subs (subs.set sid changed) := by
  intro other current currentFound
  by_cases same : sid = other
  · subst same
    obtain rfl : sub = current := by simpa [found] using currentFound
    have bound := (List.getElem?_eq_some_iff.mp found).1
    exact ⟨changed, List.getElem?_set_self bound, config, closed⟩
  · refine ⟨current, ?_, rfl, id⟩
    rw [List.getElem?_set_ne same]
    exact currentFound

theorem closeSub (subs : Subs) (sid : Nat) :
    Keeps subs (closeSub subs sid) := by
  simp only [Monitor.closeSub]
  split
  case h_1 => apply refl
  case h_2 sub found =>
    apply Keeps.set found
    · rfl
    · exact fun _ => rfl

theorem shutdown (subs : Subs) : Keeps subs (shutdown subs) := by
  intro sid sub found
  simp only [Monitor.shutdown, List.getElem?_map, found, Option.map_some]
  by_cases registered : sub.registered = true
  · exact ⟨_, rfl, by simp [registered], by simp [registered]⟩
  · exact ⟨_, rfl, by simp [registered], by simp [registered]⟩

theorem append (subs : Subs) (sub : Subscription) :
    Keeps subs (subs ++ [sub]) := by
  intro sid current found
  refine ⟨current, ?_, rfl, id⟩
  rw [List.getElem?_append_left (List.getElem?_eq_some_iff.mp found).1]
  exact found

variable {Value : Type}

theorem push (plan : Plan Value) (item : Item Value) :
    Keeps plan.subs (plan.push item).subs := by
  simp only [Plan.push]
  split
  case h_1 => apply refl
  case h_2 sub found =>
    split
    · split
      · split
        · apply Keeps.set found
          · rfl
          · exact id
        · apply refl
      · apply refl
    · apply refl

end Keeps

/-- What handling an item does to the subscriptions: some are closed, and one
that is live is opened. -/
inductive Touches (subs : Subs) : Subs → Prop where
  | refl : Touches subs subs
  | close {later : Subs} (sid : Nat) :
      Touches subs later → Touches subs (closeSub later sid)
  | opened {later : Subs} {sid : Nat} {sub : Subscription} :
      Touches subs later → later[sid]? = some sub → sub.state ≠ .closed →
      Touches subs (later.set sid { sub with state := .opened })

namespace Touches

variable {Value : Type} {subs later : Subs}

theorem apply (touches : Touches subs later) (effect : Effect) :
    Touches subs (effect.apply later) := by
  simp only [Effect.apply]
  induction effect.closes generalizing later with
  | nil => exact touches
  | cons sid rest induction =>
      rw [List.foldl_cons]
      exact induction (touches.close sid)

theorem event (front : Front) {sub : Subscription} {item : Item Value}
    (found : subs[item.sid]? = some sub) (live : sub.state ≠ .closed) :
    Touches subs (event front subs sub item).1 := by
  simp only [Monitor.event]
  split
  · simp only [caEvent]
    split
    · split
      · exact refl
      · exact refl
    · exact refl
    · exact refl
    · exact (refl.opened found live).apply item.own.hook
    · exact refl.apply item.own.hook
    · exact refl.apply item.own.hook
    · exact refl.close item.sid
  · simp only [pvaEvent]
    split
    · split
      · exact refl
      · exact refl
    · exact refl
    · exact refl.close item.sid
    · exact refl

theorem deliver (touches : Touches subs later) (front : Front)
    (sub : Subscription) (item : Item Value) :
    Touches subs (deliver front later sub item).1 := by
  have called := touches.apply item.own.callback
  have guarded : Touches subs (if item.own.callback.raises
      then closeSub (item.own.callback.apply later) item.sid
      else item.own.callback.apply later) := by
    split
    · exact called.close item.sid
    · exact called
  cases front with
  | caThread => exact guarded
  | caLoop => exact guarded
  | pvaLoop => exact called
  | pvaThread =>
      simp only [Monitor.deliver]
      split
      · exact touches
      · exact called

theorem handle (front : Front) (subs : Subs) (item : Item Value) :
    Touches subs (handle front subs item).1 := by
  simp only [Monitor.handle]
  split
  case h_1 => exact refl
  case h_2 sub found =>
    split
    case isTrue => exact refl
    case isFalse live =>
      have touches := event front found live
      split
      case h_1 after update eventEq =>
        rw [eventEq] at touches
        exact touches.deliver front sub item
      case h_2 after fate eventEq =>
        rw [eventEq] at touches
        exact touches

theorem keeps (touches : Touches subs later) : Keeps subs later := by
  induction touches with
  | refl => exact Keeps.refl subs
  | close sid _ induction => exact induction.trans (Keeps.closeSub _ sid)
  | opened _ found live induction =>
      apply induction.trans
      apply Keeps.set found
      · rfl
      · exact fun closed => (live closed).elim

end Touches

section Planning

variable {Value : Type}

theorem Plan.push_sids {plan : Plan Value} {item : Item Value} {count : Nat}
    (subs : plan.subs.length = count)
    (known : ∀ other ∈ plan.out, other.sid < count) :
    (plan.push item).subs.length = count ∧
      ∀ other ∈ (plan.push item).out, other.sid < count := by
  simp only [Plan.push]
  split
  case h_1 => exact ⟨subs, known⟩
  case h_2 sub found =>
    have bound : item.sid < count :=
      subs ▸ (List.getElem?_eq_some_iff.mp found).1
    have added : ∀ other ∈ plan.out ++ [item], other.sid < count := by
      intro other member
      rcases List.mem_append.mp member with old | new
      · exact known other old
      · rw [List.mem_singleton.mp new]
        exact bound
    split
    case isTrue =>
      split
      case isTrue =>
        split
        case h_1 place _ =>
          refine ⟨by rw [List.length_set, subs], ?_⟩
          intro other member
          rcases List.mem_or_eq_of_mem_set member with old | new
          · exact known other old
          · rw [new]
            exact bound
        case h_2 => exact ⟨subs, added⟩
      case isFalse => exact ⟨subs, added⟩
    case isFalse => exact ⟨subs, known⟩

theorem plan_spec (subs : Subs) (batch : List (Item Value)) :
    Keeps subs (plan subs batch).subs ∧
      ∀ item ∈ (plan subs batch).out, item.sid < subs.length := by
  have general (start : Plan Value) (batch : List (Item Value))
      (keeps : Keeps subs start.subs)
      (length : start.subs.length = subs.length)
      (known : ∀ item ∈ start.out, item.sid < subs.length) :
      Keeps subs (batch.foldl Plan.push start).subs ∧
        ∀ item ∈ (batch.foldl Plan.push start).out,
          item.sid < subs.length := by
    induction batch generalizing start with
    | nil => exact ⟨keeps, known⟩
    | cons item rest induction =>
        obtain ⟨nextLength, nextKnown⟩ :=
          @Plan.push_sids Value start item subs.length length known
        apply induction _ (keeps.trans (Keeps.push start item)) nextLength
          nextKnown
  apply general
  · apply Keeps.refl
  · rfl
  · simp

end Planning

namespace Dispatcher

variable {Value : Type} {front : Front}

/-- The loop goes on, for what is pending and for what is added later, and
the subscriptions that are live have had every planned item that was reached
applied, with the delivery it calls for. -/
structure Isolated (front : Front) (state : Dispatcher Value) : Prop where
  added : ∀ config last, state.next front (.add config) = some last →
    last.loop = .running
  goes : state.pending ≠ [] → ∃ last, state.next front .item = some last
  planned : state.handled.map Prod.fst ++ state.pending = state.planned
  served : ∀ entry ∈ state.handled, ∀ sub,
    state.subs[entry.1.sid]? = some sub → sub.state ≠ .closed →
      entry.2 = .applied (expected front sub.config entry.1)

/-- The item that is handled next does not escape from its own
subscription. -/
def Contained (front : Front) (state : Dispatcher Value) :
    Step Value → Prop
  | .item => ∀ item rest, state.pending = item :: rest →
      ∀ sub, state.subs[item.sid]? = some sub → sub.state ≠ .closed →
        ¬Escapes front sub.config item
  | _ => True

/-- What holds in every reachable state, whatever the items do. -/
structure Recorded (front : Front) (state : Dispatcher Value) : Prop where
  planned : state.handled.map Prod.fst ++ state.pending = state.planned
  known : ∀ item ∈ state.planned, item.sid < state.subs.length
  idle : state.loop = .idle → state.pending = []
  served : ∀ entry ∈ state.handled, state.loop = .dead ∨
    ∀ sub, state.subs[entry.1.sid]? = some sub → sub.state ≠ .closed →
      entry.2 = .applied (expected front sub.config entry.1)

theorem served_keeps {subs later : Subs} (keeps : Keeps subs later)
    {item : Item Value} {fate : Fate Value} (bound : item.sid < subs.length)
    (served : ∀ sub, subs[item.sid]? = some sub → sub.state ≠ .closed →
      fate = .applied (expected front sub.config item)) :
    ∀ sub, later[item.sid]? = some sub → sub.state ≠ .closed →
      fate = .applied (expected front sub.config item) := by
  intro after found live
  obtain ⟨sub, subFound, subLive, config⟩ := keeps.live bound found live
  rw [config]
  apply served sub subFound subLive

namespace Recorded

theorem frame {state : Dispatcher Value} (recorded : state.Recorded front)
    {subs : Subs} (loop : Loop) (keeps : Keeps state.subs subs)
    (dead : state.loop = .dead → loop = .dead)
    (idle : loop = .idle → state.loop = .idle) :
    Recorded front { state with subs := subs, loop := loop } where
  planned := recorded.planned
  known item member :=
    Nat.lt_of_lt_of_le (recorded.known item member) keeps.length_le
  idle isIdle := recorded.idle (idle isIdle)
  served := by
    intro entry member
    have inPlanned : entry.1 ∈ state.planned := by
      rw [← recorded.planned]
      apply List.mem_append_left _ (List.mem_map_of_mem member)
    rcases recorded.served entry member with isDead | served
    · exact .inl (dead isDead)
    · exact .inr (served_keeps keeps (recorded.known _ inPlanned) served)

theorem recv {state last : Dispatcher Value} {batch : List (Item Value)}
    (recorded : state.Recorded front)
    (step : state.next front (.recv batch) = some last) :
    last.Recorded front := by
  simp only [next] at step
  split at step
  case isFalse => simp at step
  case isTrue ready =>
    obtain ⟨running, empty⟩ := ready
    have noPending : state.pending = [] := List.isEmpty_iff.mp empty
    simp only [Option.some.injEq] at step
    subst step
    obtain ⟨keeps, known⟩ := plan_spec state.subs batch
    have kept := recorded.frame state.loop keeps id id
    constructor
    case planned =>
      have planned := recorded.planned
      rw [noPending, List.append_nil] at planned
      simp only [planned]
    case known =>
      intro item member
      rcases List.mem_append.mp member with old | new
      · exact kept.known item old
      · exact Nat.lt_of_lt_of_le (known item new) keeps.length_le
    case idle => simp [running]
    case served => exact kept.served

theorem item {state last : Dispatcher Value}
    (recorded : state.Recorded front)
    (step : state.next front .item = some last) :
    last.Recorded front := by
  simp only [next] at step
  split at step
  case h_2 => simp at step
  case h_1 head rest running pendingEq =>
    have handledKeeps := (Touches.handle front state.subs head).keeps
    have inPlanned : head ∈ state.planned := by
      rw [← recorded.planned, pendingEq]
      simp
    have bound := recorded.known head inPlanned
    have planned := recorded.planned
    rw [pendingEq] at planned
    split at step
    case h_1 raised =>
      simp only [Option.some.injEq] at step
      subst step
      have keeps : Keeps state.subs (if front.isLoop
          then shutdown (handle front state.subs head).1
          else (handle front state.subs head).1) := by
        split
        · apply handledKeeps.trans (Keeps.shutdown _)
        · exact handledKeeps
      exact {
        planned := by simpa using planned
        known := fun other member =>
          Nat.lt_of_lt_of_le (recorded.known other member) keeps.length_le
        idle := by simp
        served := fun _ _ => .inl rfl }
    case h_2 notRaised =>
      simp only [Option.some.injEq] at step
      subst step
      have kept := recorded.frame state.loop handledKeeps id id
      constructor
      case planned => simpa using planned
      case known => exact kept.known
      case idle => simp [running]
      case served =>
        intro entry member
        rcases List.mem_append.mp member with old | new
        · exact kept.served entry old
        · right
          obtain rfl := List.mem_singleton.mp new
          apply served_keeps handledKeeps bound
          intro sub found live
          rw [handle_fate front found live]
          rw [if_neg]
          intro escapes
          apply notRaised
          rw [handle_fate front found live, if_pos escapes]

theorem invariant : (@system Value front).Invariant (Recorded front) where
  initial := by
    intro state start
    rw [start]
    exact ⟨rfl, by simp [fresh], fun _ => rfl, by simp [fresh]⟩
  preserved := by
    intro state label last recorded step
    cases label with
    | add config =>
        obtain rfl := Option.some.inj step
        apply recorded.frame _ (Keeps.append _ _)
        · intro dead
          simp [dead]
        · intro idle
          split at idle
          · assumption
          · exact idle
    | close sid =>
        obtain rfl := Option.some.inj step
        apply recorded.frame _ (Keeps.closeSub _ _) id id
    | recv batch => apply recorded.recv step
    | item => apply recorded.item step

end Recorded

theorem dead_persists {state last : Dispatcher Value} {label : Step Value}
    (step : state.next front label = some last) (dead : state.loop = .dead) :
    last.loop = .dead ∧ last.handled = state.handled := by
  cases label with
  | add config =>
      obtain rfl := Option.some.inj step
      exact ⟨by simp [dead], rfl⟩
  | close sid =>
      obtain rfl := Option.some.inj step
      exact ⟨dead, rfl⟩
  | recv batch => simp [next, dead] at step
  | item => simp [next, dead] at step

theorem contained_iff {state last : Dispatcher Value} {label : Step Value}
    (step : state.next front label = some last)
    (alive : state.loop ≠ .dead) :
    state.Contained front label ↔ last.loop ≠ .dead := by
  cases label with
  | add config =>
      obtain rfl := Option.some.inj step
      apply iff_of_true trivial
      change (if state.loop = .idle then Loop.running else state.loop) ≠ _
      split
      · simp
      · exact alive
  | close sid =>
      obtain rfl := Option.some.inj step
      exact iff_of_true trivial alive
  | recv batch =>
      apply iff_of_true trivial
      simp only [next] at step
      split at step
      · obtain rfl := Option.some.inj step
        exact alive
      · simp at step
  | item =>
      simp only [next] at step
      split at step
      case h_2 => simp at step
      case h_1 head rest running pendingEq =>
        have raised_iff : (handle front state.subs head).2 = .raised ↔
            ∃ sub, state.subs[head.sid]? = some sub ∧
              sub.state ≠ .closed ∧ Escapes front sub.config head := by
          constructor
          · intro raised
            cases found : state.subs[head.sid]? with
            | none => simp [handle, found] at raised
            | some sub =>
                by_cases closed : sub.state = .closed
                · simp [handle, found, closed] at raised
                · refine ⟨sub, rfl, closed, ?_⟩
                  rw [handle_fate front found closed] at raised
                  by_cases escapes : Escapes front sub.config head
                  · exact escapes
                  · simp [escapes] at raised
          · intro escaping
            obtain ⟨sub, found, live, escapes⟩ := escaping
            rw [handle_fate front found live, if_pos escapes]
        have contained_iff : state.Contained front .item ↔
            (handle front state.subs head).2 ≠ .raised := by
          rw [Ne, raised_iff]
          simp [Contained, pendingEq]
        rw [contained_iff]
        split at step
        case h_1 raised =>
          obtain rfl := Option.some.inj step
          simp [raised]
        case h_2 notRaised =>
          obtain rfl := Option.some.inj step
          exact iff_of_true notRaised alive

/-- An update whose callback raises. -/
def failing : Item Nat :=
  ⟨0, .value, ⟨some 7, ⟨[], false⟩, ⟨[], true⟩, false⟩⟩

/-- An update that cannot be converted. -/
def unconvertible : Item Nat :=
  ⟨0, .value, ⟨none, ⟨[], false⟩, ⟨[], false⟩, false⟩⟩

/-- An update of a second subscription. -/
def other : Item Nat :=
  ⟨1, .value, ⟨some 8, ⟨[], false⟩, ⟨[], false⟩, false⟩⟩

/-- Two subscriptions and a batch with an item for each, of which the first
has been handled. -/
def twoItems (first : Item Nat) : List (Step Nat) :=
  [.add ⟨true, false, false⟩, .add ⟨true, false, false⟩,
    .recv [first, other], .item]

def after (front : Front) (labels : List (Step Nat)) : Dispatcher Nat :=
  (labels.foldlM (next front) fresh).getD fresh

/-- The batch `[unconvertible, other]` is planned, and `other` is never
handled. -/
def Silenced (front : Front) : Prop :=
  let stuck := after front (twoItems unconvertible)
  (system front).Run fresh (twoItems unconvertible) stuck ∧
    stuck.planned = [unconvertible, other] ∧
    ∀ labels last, (system front).Run stuck labels last →
      last.handled = [(unconvertible, .raised)]

theorem silenced (front : Front) : Silenced front := by
  refine ⟨?_, ?_, ?_⟩
  · apply Transition.Run.of_foldlM
    cases front with
    | _ => rfl
  · cases front with
    | _ => rfl
  · intro labels last run
    have start : (after front (twoItems unconvertible)).loop = .dead ∧
        (after front (twoItems unconvertible)).handled =
          [(unconvertible, .raised)] := by
      cases front with
      | _ => exact ⟨rfl, rfl⟩
    have ends := @Transition.Run.preserves _ _ (system front)
      (fun state => state.loop = .dead ∧
        state.handled = [(unconvertible, .raised)]) (by
        intro state label next before step
        obtain ⟨dead, same⟩ := dead_persists step before.1
        exact ⟨dead, same.trans before.2⟩) _ _ _ run start
    exact ends.2

end Dispatcher

end Repics.Monitor
