import Mathlib.Logic.Function.Basic
import Repics.Lib.Transition
import Repics.Monitor.Dispatcher

/-!
# Subscriber counts

The cache of channels keeps a count of subscribers with each name.  A
subscription raises it before the dispatcher opens its monitor, and
`_mark_closed` lowers it, by a check and a flip of the state of the
subscription.  The constructor, `_mark_closed`, and the `Connected` item, which
sets the state too, are taken one statement at a time.  Any number of threads
may be in `_mark_closed`: a subscription has the number of those that are
before its check, its flip, and its lowering of the count.

`uncounts` is kept for the record: how often a subscription lowered the count.
-/

namespace Repics.Ca.Counts

/-- The statement of the constructor that comes next. -/
inductive Place where
  | channel
  | count
  | add
  | launch
  | returned
  | failed
  deriving DecidableEq

/-- The statement of `_mark_closed` that comes next. -/
inductive Mark where
  | check
  | flip
  | uncount
  deriving DecidableEq

/-- What comes next of `_event` for a `Connected` item. -/
inductive Event where
  | idle
  | noting
  | opening
  deriving DecidableEq

structure Subscription (Name : Type) where
  name : Name
  place : Place
  registered : Bool
  state : Monitor.SubscriptionState
  event : Event
  checking : Nat
  flipping : Nat
  uncounting : Nat
  uncounts : Nat

/-- The counts of the cached names, and the subscriptions. -/
structure Context (Name : Type) where
  entries : Name → Option Int
  subs : List (Subscription Name)

/-- A statement of the constructor raises if `fails`.  `_mark_closed` is called
by `close`, for an `End` item, and by `shutdown`. -/
inductive Label (Name : Type) where
  | camonitor (name : Name)
  | construct (sid : Nat) (fails : Bool)
  | call (sid : Nat)
  | mark (sid : Nat) (statement : Mark)
  | connected (sid : Nat)
  | event (sid : Nat)
  | caget (name : Name)
  | purge

namespace Subscription

variable {Name : Type}

/-- A subscription that has been started, or is being, has raised the count
and not lowered it. -/
def live (sub : Subscription Name) : Bool :=
  match sub.place with
  | .add | .launch | .returned => sub.uncounts == 0
  | .channel | .count | .failed => false

/-- The subscription has its channel and has not lowered the count. -/
def holds (sub : Subscription Name) : Bool :=
  sub.place == .count || sub.live

end Subscription

namespace Context

variable {Name : Type} [DecidableEq Name]

/-- `_entry`. -/
def entry (context : Context Name) (name : Name) : Context Name :=
  match context.entries name with
  | some _ => context
  | none => { context with
      entries := Function.update context.entries name (some 0) }

def addSubscriber (context : Context Name) (name : Name) (delta : Int) :
    Context Name :=
  match context.entries name with
  | none => context
  | some count => { context with
      entries := Function.update context.entries name
        (some (count + delta)) }

def put (context : Context Name) (sid : Nat) (sub : Subscription Name) :
    Context Name :=
  { context with subs := context.subs.set sid sub }

/-- One statement of the constructor. -/
def construct (context : Context Name) (sid : Nat)
    (sub : Subscription Name) (fails : Bool) : Option (Context Name) :=
  match sub.place, fails with
  | .channel, false =>
      some ((context.entry sub.name).put sid { sub with place := .count })
  | .channel, true => some (context.put sid { sub with place := .failed })
  | .count, false =>
      some ((context.addSubscriber sub.name 1).put sid
        { sub with place := .add })
  | .add, false =>
      some (context.put sid { sub with place := .launch, registered := true })
  | .add, true => some (context.put sid { sub with place := .failed })
  | .launch, false => some (context.put sid { sub with place := .returned })
  | .launch, true => some (context.put sid { sub with place := .failed })
  | _, _ => none

/-- One statement of `_mark_closed`, of a thread that is before it. -/
def mark (context : Context Name) (sid : Nat) (sub : Subscription Name) :
    Mark → Option (Context Name)
  | .check =>
      match sub.checking with
      | 0 => none
      | checking + 1 =>
          if sub.state = .closed then
            some (context.put sid { sub with checking := checking })
          else some (context.put sid { sub with
            checking := checking
            flipping := sub.flipping + 1 })
  | .flip =>
      match sub.flipping with
      | 0 => none
      | flipping + 1 => some (context.put sid { sub with
          state := .closed
          flipping := flipping
          uncounting := sub.uncounting + 1 })
  | .uncount =>
      match sub.uncounting with
      | 0 => none
      | uncounting + 1 =>
          some ((context.addSubscriber sub.name (-1)).put sid { sub with
            uncounting := uncounting
            uncounts := sub.uncounts + 1 })

/-- What comes next of `_event` after its closed check. -/
def event (context : Context Name) (sid : Nat) (sub : Subscription Name) :
    Option (Context Name) :=
  match sub.event with
  | .idle => none
  | .noting =>
      some ((context.entry sub.name).put sid { sub with event := .opening })
  | .opening =>
      some (context.put sid { sub with state := .opened, event := .idle })

def next (context : Context Name) : Label Name → Option (Context Name)
  | .camonitor name => some { context with
      subs := context.subs ++
        [⟨name, .channel, false, .opening, .idle, 0, 0, 0, 0⟩] }
  | .construct sid fails =>
      context.subs[sid]?.bind fun sub => context.construct sid sub fails
  | .call sid =>
      context.subs[sid]?.bind fun sub =>
        if sub.registered then
          some (context.put sid { sub with checking := sub.checking + 1 })
        else none
  | .mark sid statement =>
      context.subs[sid]?.bind fun sub => context.mark sid sub statement
  | .connected sid =>
      context.subs[sid]?.bind fun sub =>
        if sub.registered ∧ sub.event = .idle then
          some (context.put sid { sub with
            event := if sub.state = .closed then .idle else .noting })
        else none
  | .event sid =>
      context.subs[sid]?.bind fun sub => context.event sid sub
  | .caget name => some (context.entry name)
  | .purge => some { context with entries := fun _ => none }

def start : Context Name :=
  ⟨fun _ => none, []⟩

def system (Name : Type) [DecidableEq Name] :
    Transition (Context Name) (Label Name) :=
  .ofPartial (fun context => context = start) next

/-- The subscriptions on a name that have been started and not closed. -/
def live (context : Context Name) (name : Name) : Nat :=
  context.subs.countP fun sub => decide (sub.name = name) && sub.live

/-- The count of a cached name is that of its live subscriptions, and a
subscription lowers it once, when it is closed. -/
structure Exact (context : Context Name) : Prop where
  counts : ∀ name count, context.entries name = some count →
    count = context.live name
  once : ∀ sub ∈ context.subs, sub.uncounts ≤ 1 ∧
    (sub.state = .closed → sub.uncounting = 0 → sub.uncounts = 1)

/-- Starting fails before the count is raised if at all, or after it was
lowered, the caches are purged while nothing is held in them, a thread that is
to close a subscription finds no other between its check and its flip, and a
closed subscription is not opened. -/
def Careful (context : Context Name) : Label Name → Prop
  | .construct sid fails => fails = true →
      ∀ sub, context.subs[sid]? = some sub → sub.live = false
  | .purge => ∀ sub ∈ context.subs, sub.holds = false
  | .mark sid .check => ∀ sub, context.subs[sid]? = some sub →
      sub.state ≠ .closed → sub.flipping = 0
  | .event sid => ∀ sub, context.subs[sid]? = some sub →
      sub.event = .opening → sub.state ≠ .closed
  | _ => True

end Context

namespace Subscription

variable {Name : Type}

/-- What holds of one subscription in careful runs. -/
structure Fine (sub : Subscription Name) : Prop where
  fresh : sub.registered = false → sub.checking = 0 ∧ sub.flipping = 0 ∧
    sub.state ≠ .closed
  place : sub.registered = true → sub.place = .launch ∨
    sub.place = .returned ∨ sub.place = .failed ∧ sub.uncounts = 1
  closed : sub.state = .closed →
    sub.flipping = 0 ∧ sub.uncounting + sub.uncounts = 1
  opened : sub.state ≠ .closed →
    sub.flipping ≤ 1 ∧ sub.uncounting = 0 ∧ sub.uncounts = 0

theorem holds_of_live {sub : Subscription Name}
    (live : sub.live = true) : sub.holds = true := by
  rw [holds, live, Bool.or_true]

theorem Fine.registered {sub : Subscription Name} (fine : sub.Fine)
    (begun : sub.checking ≠ 0 ∨ sub.flipping ≠ 0 ∨ sub.state = .closed) :
    sub.registered = true := by
  cases registered : sub.registered with
  | true => rfl
  | false =>
      obtain ⟨checking, flipping, open_⟩ := fine.fresh registered
      simp [checking, flipping, open_] at begun

/-- A subscription that is not registered yet has not been closed. -/
theorem Fine.early {sub : Subscription Name} (fine : sub.Fine)
    (place : sub.place = .channel ∨ sub.place = .count ∨ sub.place = .add) :
    sub.registered = false ∧ sub.uncounts = 0 := by
  have unregistered : sub.registered = false := by
    cases registered : sub.registered with
    | false => rfl
    | true =>
        rcases place with here | here | here <;>
          simpa [here] using fine.place registered
  exact ⟨unregistered, (fine.opened (fine.fresh unregistered).2.2).2.2⟩

end Subscription

namespace Context

variable {Name : Type} [DecidableEq Name]

/-- What holds in careful runs: a name on which a subscription is held is
cached. -/
structure Counted (context : Context Name) : Prop where
  counts : ∀ name count, context.entries name = some count →
    count = context.live name
  cached : ∀ sub ∈ context.subs, sub.holds = true →
    (context.entries sub.name).isSome = true
  fine : ∀ sub ∈ context.subs, sub.Fine

theorem Counted.exact_ {context : Context Name} (counted : context.Counted) :
    context.Exact where
  counts := counted.counts
  once sub is := by
    have fine := counted.fine sub is
    by_cases closed : sub.state = .closed
    · have one := (fine.closed closed).2
      exact ⟨by omega, fun _ _ => by omega⟩
    · have none_ := (fine.opened closed).2.2
      exact ⟨by omega, fun isClosed => absurd isClosed closed⟩

variable {context : Context Name}

theorem live_put {sid : Nat} {sub : Subscription Name}
    (after : Subscription Name) (found : context.subs[sid]? = some sub)
    (name : Name) :
    (context.put sid after).live name +
        (if sub.name = name ∧ sub.live = true then 1 else 0) =
      context.live name +
        (if after.name = name ∧ after.live = true then 1 else 0) := by
  obtain ⟨bound, isSub⟩ := List.getElem?_eq_some_iff.mp found
  have most := List.boole_getElem_le_countP bound
    (p := fun sub => decide (sub.name = name) && sub.live)
  simp only [live, put, List.countP_set bound, isSub, Bool.and_eq_true,
    decide_eq_true_eq] at most ⊢
  omega

@[simp] theorem entry_subs (name : Name) :
    (context.entry name).subs = context.subs := by
  unfold entry
  split <;> rfl

@[simp] theorem addSubscriber_subs (name : Name) (delta : Int) :
    (context.addSubscriber name delta).subs = context.subs := by
  unfold addSubscriber
  split <;> rfl

omit [DecidableEq Name] in
theorem put_found {sid : Nat} {sub : Subscription Name}
    (found : context.subs[sid]? = some sub) (after : Subscription Name) :
    (context.put sid after).subs[sid]? = some after :=
  List.getElem?_set_self (List.getElem?_eq_some_iff.mp found).1

omit [DecidableEq Name] in
theorem mem_put {sid : Nat} {after other : Subscription Name}
    (is : other ∈ (context.put sid after).subs) :
    other = after ∨ other ∈ context.subs :=
  (List.mem_or_eq_of_mem_set is).symm

theorem Counted.live_eq_zero (counted : context.Counted) {name : Name}
    (missing : context.entries name = none) : context.live name = 0 := by
  apply List.countP_eq_zero.mpr
  intro sub is lives
  simp only [Bool.and_eq_true, decide_eq_true_eq] at lives
  have cached := counted.cached sub is
    (Subscription.holds_of_live lives.2)
  rw [lives.1, missing] at cached
  cases cached

theorem Counted.entry (counted : context.Counted) (name : Name) :
    (context.entry name).Counted ∧
      ((context.entry name).entries name).isSome = true := by
  unfold Context.entry
  split
  · next count present => exact ⟨counted, by rw [present]; rfl⟩
  · next missing =>
      refine ⟨⟨?_, ?_, counted.fine⟩, by simp⟩
      · intro other count present
        dsimp only at present
        by_cases same : other = name
        · subst same
          rw [Function.update_self] at present
          have none_ := counted.live_eq_zero missing
          simp only [live] at none_ ⊢
          rw [none_]
          exact (Option.some.inj present).symm
        · rw [Function.update_of_ne same] at present
          exact counted.counts other count present
      · intro sub is held
        dsimp only
        by_cases same : sub.name = name
        · simp [same]
        · rw [Function.update_of_ne same]
          exact counted.cached sub is held

theorem Counted.put (counted : context.Counted) {sid : Nat}
    {sub after : Subscription Name} (found : context.subs[sid]? = some sub)
    (name : after.name = sub.name) (live : after.live = sub.live)
    (holds : after.holds = true →
      (context.entries sub.name).isSome = true)
    (fine : after.Fine) : (context.put sid after).Counted where
  counts other count present := by
    rw [counted.counts other count present]
    have changed := live_put after found other
    rw [name, live] at changed
    omega
  cached other is held := by
    rcases mem_put is with rfl | old
    · rw [name]
      exact holds held
    · exact counted.cached other old held
  fine other is := by
    rcases mem_put is with rfl | old
    · exact fine
    · exact counted.fine other old

theorem Counted.shift (counted : context.Counted) {sid : Nat}
    {sub after : Subscription Name} (found : context.subs[sid]? = some sub)
    (name : after.name = sub.name) (held : sub.holds = true) (delta : Int)
    (live : (if after.live = true then 1 else 0 : Int) =
      (if sub.live = true then 1 else 0) + delta)
    (fine : after.Fine) :
    ((context.addSubscriber sub.name delta).put sid after).Counted := by
  obtain ⟨count, present⟩ := Option.isSome_iff_exists.mp
    (counted.cached sub (List.mem_of_getElem? found) held)
  have added : context.addSubscriber sub.name delta = { context with
      entries := Function.update context.entries sub.name
        (some (count + delta)) } := by
    simp only [addSubscriber, present]
  rw [added]
  constructor
  · intro other total isTotal
    have changed := live_put after found other
    rw [name] at changed
    by_cases same : other = sub.name
    · subst same
      simp only [Context.put, Function.update_self] at isTotal
      have before := counted.counts _ count present
      obtain rfl := Option.some.inj isTotal
      have total : count + delta =
          ((context.put sid after).live sub.name : Int) := by
        cases isLive : sub.live <;> cases staysLive : after.live <;>
          simp [isLive, staysLive] at live changed <;> omega
      exact total
    · simp only [Context.put, Function.update_of_ne same] at isTotal
      have before := counted.counts other total isTotal
      simp only [Ne.symm same, false_and, if_false, Nat.add_zero] at changed
      rw [before, ← changed]
      rfl
  · intro other is holds
    dsimp only [Context.put]
    by_cases same : other.name = sub.name
    · simp [same]
    · rw [Function.update_of_ne same]
      rcases mem_put is with rfl | old
      · exact absurd name same
      · exact counted.cached other old holds
  · intro other is
    rcases mem_put is with rfl | old
    · exact fine
    · exact counted.fine other old

/-- A subscription changes in what its count does not depend on. -/
theorem Counted.stay (counted : context.Counted) {sid : Nat}
    {sub after : Subscription Name} (found : context.subs[sid]? = some sub)
    (name : after.name = sub.name) (live : after.live = sub.live)
    (holds : after.holds = true → sub.holds = true) (fine : after.Fine) :
    (context.put sid after).Counted := by
  have is := List.mem_of_getElem? found
  exact counted.put found name live
    (fun held => counted.cached sub is (holds held)) fine

theorem Counted.construct (counted : context.Counted) {sid : Nat}
    {sub : Subscription Name} (found : context.subs[sid]? = some sub)
    {fails : Bool} (careful : fails = true → sub.live = false)
    {after : Context Name}
    (step : context.construct sid sub fails = some after) :
    after.Counted := by
  have fine := counted.fine sub (List.mem_of_getElem? found)
  have early := fine.early
  have moves (place : sub.place = .channel ∨ sub.place = .count ∨
      sub.place = .add) (other : Place) :
      Subscription.Fine { sub with place := other } := by
    refine ⟨fine.fresh, fun registered => ?_, fine.closed, fine.opened⟩
    exact absurd ((early place).1.symm.trans registered) Bool.false_ne_true
  cases place : sub.place with
  | channel =>
      cases fails with
      | false =>
          simp only [Context.construct, place, Option.some.injEq] at step
          subst step
          obtain ⟨entered, present⟩ := counted.entry sub.name
          have found' : (context.entry sub.name).subs[sid]? = some sub := by
            rw [entry_subs]
            exact found
          refine entered.put found' (by rfl) ?_ ?_ ?_
          · simp [Subscription.live, place]
          · exact fun _ => present
          · exact moves (.inl place) _
      | true =>
          simp only [Context.construct, place, Option.some.injEq] at step
          subst step
          refine counted.stay found rfl ?_ ?_ ?_
          · simp [Subscription.live, place]
          · simp [Subscription.holds, Subscription.live]
          · exact moves (.inl place) _
  | count =>
      cases fails with
      | true => simp [Context.construct, place] at step
      | false =>
          simp only [Context.construct, place, Option.some.injEq] at step
          subst step
          have uncounts := (early (.inr (.inl place))).2
          refine counted.shift found (by rfl) ?_ 1 ?_ ?_
          · simp [Subscription.holds, place]
          · simp [Subscription.live, place, uncounts]
          · exact moves (.inr (.inl place)) _
  | add =>
      cases fails with
      | true =>
          have uncounts := (early (.inr (.inr place))).2
          have live := careful rfl
          simp [Subscription.live, place, uncounts] at live
      | false =>
          simp only [Context.construct, place, Option.some.injEq] at step
          subst step
          refine counted.stay found rfl ?_ ?_ ?_
          · simp [Subscription.live, place]
          · simp [Subscription.holds, Subscription.live, place]
          · exact ⟨by simp, fun _ => .inl rfl, fine.closed, fine.opened⟩
  | launch =>
      cases fails with
      | true =>
          simp only [Context.construct, place, Option.some.injEq] at step
          subst step
          have live := careful rfl
          refine counted.stay found rfl ?_ ?_ ?_
          · rw [live]
            rfl
          · simp [Subscription.holds, Subscription.live]
          · refine ⟨fine.fresh, fun _ => .inr (.inr ⟨rfl, ?_⟩), fine.closed,
              fine.opened⟩
            simp only [Subscription.live, place, beq_eq_false_iff_ne, ne_eq]
              at live
            by_cases closed : sub.state = .closed
            · have once := (fine.closed closed).2
              dsimp only
              omega
            · exact absurd (fine.opened closed).2.2 live
      | false =>
          simp only [Context.construct, place, Option.some.injEq] at step
          subst step
          refine counted.stay found rfl ?_ ?_ ?_
          · simp [Subscription.live, place]
          · simp [Subscription.holds, Subscription.live, place]
          · exact ⟨fine.fresh, fun _ => .inr (.inl rfl), fine.closed,
              fine.opened⟩
  | returned => simp [Context.construct, place] at step
  | failed => simp [Context.construct, place] at step

theorem Counted.mark (counted : context.Counted) {sid : Nat}
    {sub : Subscription Name} (found : context.subs[sid]? = some sub)
    {statement : Mark}
    (careful : statement = .check → sub.state ≠ .closed → sub.flipping = 0)
    {after : Context Name}
    (step : context.mark sid sub statement = some after) :
    after.Counted := by
  have fine := counted.fine sub (List.mem_of_getElem? found)
  cases statement with
  | check =>
      cases checking : sub.checking with
      | zero => simp [Context.mark, checking] at step
      | succ rest =>
          have registered := fine.registered (.inl (by simp [checking]))
          simp only [Context.mark, checking] at step
          split at step
          · next closed =>
              obtain rfl := Option.some.inj step
              refine counted.stay found rfl rfl (fun held => held) ?_
              exact ⟨by simp [registered], fine.place, fine.closed,
                fine.opened⟩
          · next open_ =>
              obtain rfl := Option.some.inj step
              have alone := careful rfl open_
              refine counted.stay found rfl rfl (fun held => held) ?_
              refine ⟨by simp [registered], fine.place,
                fun closed => absurd closed open_, fun _ => ?_⟩
              exact ⟨by simp [alone], (fine.opened open_).2⟩
  | flip =>
      cases flipping : sub.flipping with
      | zero => simp [Context.mark, flipping] at step
      | succ rest =>
          simp only [Context.mark, flipping, Option.some.injEq] at step
          subst step
          have open_ : sub.state ≠ .closed := by
            intro closed
            simp [(fine.closed closed).1] at flipping
          have registered :=
            fine.registered (.inr (.inl (by simp [flipping])))
          obtain ⟨most, uncounting, uncounts⟩ := fine.opened open_
          refine counted.stay found rfl rfl (fun held => held) ?_
          refine ⟨by simp [registered], fine.place, fun _ => ?_, by simp⟩
          exact ⟨by dsimp only; omega, by simp [uncounting, uncounts]⟩
  | uncount =>
      cases uncounting : sub.uncounting with
      | zero => simp [Context.mark, uncounting] at step
      | succ rest =>
          simp only [Context.mark, uncounting, Option.some.injEq] at step
          subst step
          have closed : sub.state = .closed := by
            apply Classical.byContradiction
            intro open_
            simp [(fine.opened open_).2.1] at uncounting
          obtain ⟨flipping, once⟩ := fine.closed closed
          have registered := fine.registered (.inr (.inr closed))
          have uncounts : sub.uncounts = 0 := by omega
          have live : sub.live = true := by
            rcases fine.place registered with place | place | ⟨_, already⟩
            · simp [Subscription.live, place, uncounts]
            · simp [Subscription.live, place, uncounts]
            · simp [uncounts] at already
          refine counted.shift found (by rfl) (Subscription.holds_of_live live)
            (-1) ?_ ?_
          · cases place : sub.place <;>
              simp [Subscription.live, place, uncounts] at live ⊢
          · refine ⟨by simp [registered], fun _ => ?_, fun _ => ?_,
              fun open_ => absurd closed open_⟩
            · rcases fine.place registered with place | place | ⟨place, _⟩
              · exact .inl place
              · exact .inr (.inl place)
              · exact .inr (.inr ⟨place, by simp [uncounts]⟩)
            · exact ⟨flipping, by dsimp only; omega⟩

theorem Counted.event (counted : context.Counted) {sid : Nat}
    {sub : Subscription Name} (found : context.subs[sid]? = some sub)
    (careful : sub.event = .opening → sub.state ≠ .closed)
    {after : Context Name} (step : context.event sid sub = some after) :
    after.Counted := by
  have fine := counted.fine sub (List.mem_of_getElem? found)
  cases event : sub.event with
  | idle => simp [Context.event, event] at step
  | noting =>
      simp only [Context.event, event, Option.some.injEq] at step
      subst step
      obtain ⟨entered, present⟩ := counted.entry sub.name
      have found' : (context.entry sub.name).subs[sid]? = some sub := by
        rw [entry_subs]
        exact found
      refine entered.put found' (by rfl) (by rfl) (fun _ => present) ?_
      exact ⟨fine.fresh, fine.place, fine.closed, fine.opened⟩
  | opening =>
      simp only [Context.event, event, Option.some.injEq] at step
      subst step
      have open_ := careful event
      refine counted.stay found rfl rfl (fun held => held) ?_
      refine ⟨fun fresh => ?_, fine.place, by simp, fun _ => ?_⟩
      · obtain ⟨checking, flipping, _⟩ := fine.fresh fresh
        exact ⟨checking, flipping, by simp⟩
      · exact fine.opened open_

theorem counted :
    ((system Name).restrict Careful).Invariant Counted where
  initial := by
    intro context start
    subst start
    exact ⟨by simp [Context.start], by simp [Context.start],
      by simp [Context.start]⟩
  preserved context label after before step := by
    obtain ⟨step, careful⟩ := step
    cases label with
    | camonitor name =>
        obtain rfl := Option.some.inj step
        constructor
        · intro other count present
          rw [before.counts other count present]
          simp [live, Subscription.live]
        · intro sub is held
          rcases List.mem_append.mp is with old | isNew
          · exact before.cached sub old held
          · obtain rfl := List.mem_singleton.mp isNew
            cases held
        · intro sub is
          rcases List.mem_append.mp is with old | isNew
          · exact before.fine sub old
          · obtain rfl := List.mem_singleton.mp isNew
            exact ⟨by simp, by simp, by simp, by simp⟩
    | construct sid fails =>
        obtain ⟨sub, found, step⟩ := Option.bind_eq_some_iff.mp step
        exact before.construct found (fun isFail => careful isFail sub found)
          step
    | call sid =>
        obtain ⟨sub, found, step⟩ := Option.bind_eq_some_iff.mp step
        simp only [Option.ite_none_right_eq_some, Option.some.injEq] at step
        obtain ⟨registered, rfl⟩ := step
        have fine := before.fine sub (List.mem_of_getElem? found)
        refine before.stay found rfl rfl (fun held => held) ?_
        exact ⟨by simp [registered], fine.place, fine.closed, fine.opened⟩
    | mark sid statement =>
        obtain ⟨sub, found, step⟩ := Option.bind_eq_some_iff.mp step
        refine before.mark found (fun isCheck => ?_) step
        subst isCheck
        exact careful sub found
    | connected sid =>
        obtain ⟨sub, found, step⟩ := Option.bind_eq_some_iff.mp step
        simp only [Option.ite_none_right_eq_some, Option.some.injEq] at step
        obtain ⟨_, rfl⟩ := step
        have fine := before.fine sub (List.mem_of_getElem? found)
        refine before.stay found rfl rfl (fun held => held) ?_
        exact ⟨fine.fresh, fine.place, fine.closed, fine.opened⟩
    | event sid =>
        obtain ⟨sub, found, step⟩ := Option.bind_eq_some_iff.mp step
        exact before.event found (careful sub found) step
    | caget name =>
        obtain rfl := Option.some.inj step
        exact (before.entry name).1
    | purge =>
        obtain rfl := Option.some.inj step
        refine ⟨fun _ _ present => ?_, fun sub is held => ?_, before.fine⟩
        · cases present
        · rw [careful sub is] at held
          cases held

variable {after : Context Name}

/-- A name that is cached with another count than that of its live
subscriptions. -/
theorem not_exact_of_count {name : Name} {count : Int}
    (present : context.entries name = some count)
    (other : count ≠ context.live name) : ¬context.Exact :=
  fun exact_ => other (exact_.counts name count present)

theorem breaks_of_fail (counted : context.Counted) {sid : Nat}
    {sub : Subscription Name} (found : context.subs[sid]? = some sub)
    (live : sub.live = true)
    (step : context.construct sid sub true = some after) : ¬after.Exact := by
  obtain ⟨count, present⟩ := Option.isSome_iff_exists.mp
    (counted.cached sub (List.mem_of_getElem? found)
      (Subscription.holds_of_live live))
  have failed : after = context.put sid { sub with place := .failed } := by
    cases place : sub.place <;>
      simp [Context.construct, place, Subscription.live] at step live <;>
      exact step.symm
  have changed := live_put { sub with place := .failed } found sub.name
  have none_ : Subscription.live { sub with place := .failed } = false := rfl
  simp only [live, none_, and_self, if_true, and_false, Bool.false_eq_true,
    if_false, Nat.add_zero] at changed
  have before := counted.counts _ count present
  rw [← failed] at changed
  have still : after.entries sub.name = some count := by
    rw [failed]
    exact present
  apply not_exact_of_count still
  omega

theorem breaks_of_missing {sub : Subscription Name}
    (is : sub ∈ context.subs) (live : sub.live = true)
    (missing : context.entries sub.name = none) :
    ((system Name).restrict Careful).Breakable Exact context := by
  apply Transition.Breakable.allowed (.caget sub.name) rfl trivial
  apply Transition.Breakable.now
  have some_ : 0 < (context.entry sub.name).live sub.name := by
    apply List.countP_pos_iff.mpr
    exact ⟨sub, by rw [entry_subs]; exact is, by simp [live]⟩
  have zero : (context.entry sub.name).entries sub.name = some 0 := by
    simp only [Context.entry, missing, Function.update_self]
  apply not_exact_of_count zero
  omega

theorem breaks_of_purge (counted : context.Counted)
    {sub : Subscription Name} (is : sub ∈ context.subs)
    (held : sub.holds = true) :
    ((system Name).restrict Careful).Breakable Exact
      { context with entries := fun _ => none } := by
  obtain ⟨sid, found⟩ := List.mem_iff_getElem?.mp is
  cases live : sub.live with
  | true => exact breaks_of_missing is live rfl
  | false =>
      have place : sub.place = .count := by
        simpa [Subscription.holds, live] using held
      have uncounts :=
        ((counted.fine sub is).early (.inr (.inl place))).2
      apply Transition.Breakable.allowed (.construct sid false)
      · simp only [next, found, Option.bind_some, Context.construct, place]
        rfl
      · simp [Careful]
      · have purged : ({ context with entries := fun _ => none } :
            Context Name).subs[sid]? = some sub := found
        have isThere := put_found purged { sub with place := .add }
        apply breaks_of_missing (List.mem_of_getElem? isThere)
        · simp [Subscription.live, uncounts]
        · rfl

theorem breaks_of_two {sid : Nat} {sub : Subscription Name}
    (found : context.subs[sid]? = some sub)
    (two : 2 ≤ sub.flipping + sub.uncounting + sub.uncounts) :
    ((system Name).restrict Careful).Breakable Exact context := by
  induction flipping : sub.flipping generalizing context sub with
  | succ flipping induction =>
      apply Transition.Breakable.allowed (.mark sid .flip)
      · simp only [next, found, Option.bind_some, Context.mark, flipping]
        rfl
      · exact trivial
      · apply induction (put_found found _)
        · dsimp only
          omega
        · rfl
  | zero =>
      induction uncounting : sub.uncounting generalizing context sub with
      | succ uncounting induction =>
          have found' : (context.addSubscriber sub.name (-1)).subs[sid]? =
              some sub := by
            rw [addSubscriber_subs]
            exact found
          apply Transition.Breakable.allowed (.mark sid .uncount)
          · simp only [next, found, Option.bind_some, Context.mark,
              uncounting]
            rfl
          · exact trivial
          · apply induction (put_found found' _)
            · dsimp only
              omega
            · exact flipping
            · rfl
      | zero =>
          apply Transition.Breakable.now
          intro exact_
          have once := (exact_.once sub (List.mem_of_getElem? found)).1
          omega

theorem breaks_of_open {sid : Nat}
    {sub : Subscription Name} (found : context.subs[sid]? = some sub)
    (registered : sub.registered = true) (opened : sub.state ≠ .closed)
    (once : sub.flipping = 0 ∧ sub.uncounting + sub.uncounts = 1) :
    ((system Name).restrict Careful).Breakable Exact context := by
  have called := put_found found { sub with checking := sub.checking + 1 }
  apply Transition.Breakable.allowed (.call sid)
  · simp only [next, found, Option.bind_some, registered, if_true]
    rfl
  · exact trivial
  · apply Transition.Breakable.allowed (.mark sid .check)
    · rw [registered] at called
      simp only [next, called, Option.bind_some, Context.mark, if_neg opened]
      rfl
    · intro other otherFound _
      rw [registered] at called
      obtain rfl := Option.some.inj (called.symm.trans otherFound)
      exact once.1
    · rw [registered] at called
      apply breaks_of_two (put_found called _)
      dsimp only
      omega

theorem counts_guards (Name : Type) [DecidableEq Name] :
    (system Name).SharplyGuards Careful Exact where
  enough context reachable := (counted.reachable reachable).exact_
  needed context label after reachable step careless := by
    have isCounted := counted.reachable reachable
    cases label with
    | construct sid fails =>
        obtain ⟨sub, found, step⟩ := Option.bind_eq_some_iff.mp step
        simp only [Careful, Classical.not_imp, not_forall,
          Bool.not_eq_false] at careless
        obtain ⟨rfl, other, otherFound, live⟩ := careless
        obtain rfl := Option.some.inj (found.symm.trans otherFound)
        exact .now (breaks_of_fail isCounted found live step)
    | mark sid statement =>
        obtain ⟨sub, found, step⟩ := Option.bind_eq_some_iff.mp step
        cases statement with
        | check =>
            simp only [Careful, Classical.not_imp, not_forall] at careless
            obtain ⟨other, otherFound, open_, flipping⟩ := careless
            obtain rfl := Option.some.inj (found.symm.trans otherFound)
            cases checking : sub.checking with
            | zero => simp [Context.mark, checking] at step
            | succ rest =>
                simp only [Context.mark, checking, if_neg open_,
                  Option.some.injEq] at step
                subst step
                apply breaks_of_two (put_found found _)
                dsimp only
                omega
        | flip => exact absurd trivial careless
        | uncount => exact absurd trivial careless
    | event sid =>
        obtain ⟨sub, found, step⟩ := Option.bind_eq_some_iff.mp step
        simp only [Careful, Classical.not_imp, not_forall, not_not]
          at careless
        obtain ⟨other, otherFound, opening, closed⟩ := careless
        obtain rfl := Option.some.inj (found.symm.trans otherFound)
        have fine := isCounted.fine sub (List.mem_of_getElem? found)
        have registered := fine.registered (.inr (.inr closed))
        simp only [Context.event, opening, Option.some.injEq] at step
        subst step
        refine breaks_of_open (put_found found _) (by exact registered) ?_ ?_
        · simp
        · exact fine.closed closed
    | purge =>
        obtain rfl := Option.some.inj step
        simp only [Careful, not_forall, Bool.not_eq_false] at careless
        obtain ⟨sub, is, held⟩ := careless
        exact breaks_of_purge isCounted is held
    | _ => exact absurd trivial careless

/-- The caches are purged between the start of a subscription and its close,
and the name is looked up again. -/
def purgedWhileOpen : List (Label Unit) :=
  [.camonitor (), .construct 0 false, .construct 0 false, .construct 0 false,
    .construct 0 false, .purge, .caget (), .call 0, .mark 0 .check,
    .mark 0 .flip, .mark 0 .uncount]

theorem count_below_zero :
    ∃ context, (system Unit).Run start purgedWhileOpen context ∧
      context.entries () = some (-1) ∧ ¬context.Exact := by
  refine ⟨(purgedWhileOpen.foldlM next start).get rfl, .of_foldlM rfl, rfl,
    fun exact_ => ?_⟩
  have counts := exact_.counts () (-1) rfl
  exact absurd counts (by decide)

end Context

end Repics.Ca.Counts
