import Repics.Lib.Transition

/-!
# Waiting for the connect hooks

The library raises an edge when the first channel attaches to a PV and when
the last one is closed.  The edges go through the event queue of the PV to the
loop that runs `onFirstConnect` and `onLastDisconnect`, and that also sets and
clears the flag `close(sync=True)` waits for.  The flag says what the loop has
seen, not what is still on the queue.

In the callback flavour the loop is a thread and hooks run to their end.  In
the asyncio flavour the loop is a task, a hook may be a coroutine that goes on
as a task of its own, and `close` first waits for the tasks it finds.  A PV
without a hook is one whose hook does nothing.
-/

namespace Repics.Pva.Server.Hooks

inductive Event where
  | first
  | last
  | operation
  deriving DecidableEq

/-- The channels that are attached to the PV, whether it was removed from its
providers, and its event queue. -/
structure Channels where
  count : Nat
  removed : Bool
  events : List Event

inductive Edge where
  | opens
  | closes
  | remove
  | request

namespace Channels

/-- No channel attaches to a PV that was removed. -/
def edge (channels : Channels) : Edge → Option Channels
  | .opens =>
      if channels.removed then none
      else some { channels with
        count := channels.count + 1
        events := if channels.count = 0 then channels.events ++ [.first]
          else channels.events }
  | .closes =>
      match channels.count with
      | 0 => none
      | count + 1 => some { channels with
          count := count
          events := if count = 0 then channels.events ++ [.last]
            else channels.events }
  | .remove => some { channels with removed := true }
  | .request =>
      some { channels with events := channels.events ++ [.operation] }

def start : Channels :=
  ⟨0, false, []⟩

end Channels

/-- Whether the PV is connected after some events, which alternate. -/
def follow : Bool → List Event → Option Bool
  | connected, [] => some connected
  | connected, .operation :: events => follow connected events
  | false, .first :: events => follow true events
  | true, .last :: events => follow false events
  | _, _ => none

theorem follow_append (connected : Bool) (early late : List Event) :
    follow connected (early ++ late) =
      (follow connected early).bind fun between => follow between late := by
  induction early generalizing connected with
  | nil => rfl
  | cons event early induction =>
      cases event <;> cases connected <;>
        simp only [List.cons_append, follow, Option.bind_none] <;>
        exact induction _

theorem follow_edge {connected : Bool} {head : List Event}
    {channels next : Channels} {edge : Edge}
    (consistent : follow connected (head ++ channels.events) =
      some (decide (0 < channels.count)))
    (step : channels.edge edge = some next) :
    follow connected (head ++ next.events) =
      some (decide (0 < next.count)) := by
  cases edge with
  | opens =>
      simp only [Channels.edge, Option.ite_none_left_eq_some,
        Option.some.injEq] at step
      obtain ⟨_, rfl⟩ := step
      by_cases none_ : channels.count = 0
      · simp only [none_, if_true, ← List.append_assoc]
        rw [follow_append, consistent, none_]
        rfl
      · simp only [none_, if_false]
        rw [consistent]
        simp [Nat.pos_of_ne_zero none_]
  | closes =>
      cases count : channels.count with
      | zero => simp [Channels.edge, count] at step
      | succ rest =>
          simp only [Channels.edge, count, Option.some.injEq] at step
          subst step
          by_cases none_ : rest = 0
          · simp only [none_, if_true, ← List.append_assoc]
            rw [follow_append, consistent, count]
            rfl
          · simp only [none_, if_false]
            rw [consistent, count]
            simp [Nat.pos_of_ne_zero none_]
  | remove =>
      obtain rfl := Option.some.inj step
      exact consistent
  | request =>
      obtain rfl := Option.some.inj step
      simp only [← List.append_assoc]
      rw [follow_append, consistent]
      rfl

/-- Only operations, when a PV that is not connected does not get
connected. -/
theorem follow_false {connected : Bool} {events : List Event}
    (follows : follow false events = some connected)
    (calm : .first ∉ events) :
    connected = false ∧ ∀ event ∈ events, event = .operation := by
  induction events with
  | nil =>
      obtain rfl := Option.some.inj follows
      exact ⟨rfl, by simp⟩
  | cons event events induction =>
      cases event with
      | first => simp at calm
      | last => simp [follow] at follows
      | operation =>
          have rest := induction follows (by simpa using calm)
          exact ⟨rest.1, by simpa using rest.2⟩

theorem edge_removed {channels next : Channels} {edge : Edge}
    (removed : channels.removed)
    (step : channels.edge edge = some next) :
    next.removed ∧ (.first ∈ next.events → .first ∈ channels.events) ∧
      (channels.count = 0 → next.count = 0 ∧
        ∀ event ∈ next.events, event = .operation ∨
          event ∈ channels.events) := by
  cases edge with
  | opens => simp [Channels.edge, removed] at step
  | closes =>
      cases count : channels.count with
      | zero => simp [Channels.edge, count] at step
      | succ rest =>
          simp only [Channels.edge, count, Option.some.injEq] at step
          subst step
          refine ⟨removed, ?_, by simp⟩
          by_cases none_ : rest = 0 <;> simp [none_]
  | remove =>
      obtain rfl := Option.some.inj step
      exact ⟨rfl, fun member => member, fun none_ =>
        ⟨none_, fun _ member => .inr member⟩⟩
  | request =>
      obtain rfl := Option.some.inj step
      refine ⟨removed, by simp, fun none_ => ⟨none_, ?_⟩⟩
      intro event member
      rcases List.mem_append.mp member with old | new
      · exact .inr old
      · exact .inl (List.mem_singleton.mp new)

/-- Where a call of `close(sync=True)` is: it closed the PV, waits for the
tasks it found or for the flag, was woken when the flag was set, returned, or
gave up. -/
inductive Waiter where
  | idle
  | called
  | gathering (tasks : List Nat)
  | waiting
  | woken
  | returned
  | timedOut
  deriving DecidableEq

/-- Setting the flag wakes whoever waits for it. -/
def Waiter.wake : Waiter → Waiter
  | .waiting => .woken
  | waiter => waiter

/-- Where the drain thread is: with nothing, before or in the hook for the
first connection, in the hook for the last disconnection or after it, or in
the handler of an operation. -/
inductive Drain where
  | idle
  | first
  | firstHook
  | last
  | lastDone
  | operation
  deriving DecidableEq

/-- Where the thread is when it has taken an event. -/
def Drain.take : Event → Drain
  | .first => .first
  | .last => .last
  | .operation => .operation

/-- The event that is not reflected in the flag yet. -/
def Drain.pending : Drain → List Event
  | .first => [.first]
  | .last | .lastDone => [.last]
  | _ => []

structure Threaded where
  channels : Channels
  drain : Drain
  disconnected : Bool
  waiters : Nat → Waiter

namespace Threaded

inductive Label where
  | edge (edge : Edge)
  | drain
  | call (id : Nat)
  | wait (id : Nat)
  | resume (id : Nat)
  | timeout (id : Nat)

variable (state : Threaded)

def setWaiter (id : Nat) (waiter : Waiter) : Threaded :=
  { state with waiters := fun other =>
      if other = id then waiter else state.waiters other }

/-- `_dispatch` and `_connected` for the next event.  A hook that raises is
over as well. -/
def advance : Option Threaded :=
  match state.drain with
  | .idle =>
      match state.channels.events with
      | [] => none
      | event :: events => some { state with
          channels := { state.channels with events := events }
          drain := .take event }
  | .first => some { state with drain := .firstHook, disconnected := false }
  | .firstHook => some { state with drain := .idle }
  | .last => some { state with drain := .lastDone }
  | .lastDone => some { state with
      drain := .idle
      disconnected := true
      waiters := fun id => (state.waiters id).wake }
  | .operation => some { state with drain := .idle }

def next : Label → Option Threaded
  | .edge edge =>
      (state.channels.edge edge).map fun channels =>
        { state with channels := channels }
  | .drain => state.advance
  | .call id =>
      if state.channels.removed ∧ state.waiters id = .idle then
        some (state.setWaiter id .called)
      else none
  | .wait id =>
      if state.waiters id = .called then
        some (state.setWaiter id
          (if state.disconnected then .returned else .waiting))
      else none
  | .resume id =>
      if state.waiters id = .woken then some (state.setWaiter id .returned)
      else none
  | .timeout id =>
      if state.waiters id = .waiting then
        some (state.setWaiter id .timedOut)
      else none

def start : Threaded where
  channels := .start
  drain := .idle
  disconnected := true
  waiters _ := .idle

def system : Transition Threaded Label :=
  .ofPartial (fun state => state = start) next

/-- The events that the flag does not reflect. -/
def pending : List Event :=
  state.drain.pending ++ state.channels.events

/-- No channel is left, and both hooks have run as often as they had to. -/
structure Settled : Prop where
  count : state.channels.count = 0
  pending : ∀ event ∈ state.pending, event = .operation
  hook : state.drain ≠ .firstHook

/-- A `close(sync=True)` that returned has waited for the hooks. -/
def Waited : Prop :=
  ∀ id, state.waiters id = .returned → state.Settled

/-- The wait begins when no first connection is still to be dispatched. -/
def InTime : Label → Prop
  | .wait _ => .first ∉ state.pending
  | _ => True

/-- The flag says what the dispatched events come to. -/
structure Tracks : Prop where
  follows : follow (!state.disconnected) state.pending =
    some (decide (0 < state.channels.count))
  hook : state.drain = .firstHook → state.disconnected = false

variable {state : Threaded}

theorem Tracks.edge (tracks : state.Tracks) {edge : Edge}
    {channels : Channels} (step : state.channels.edge edge = some channels) :
    Tracks { state with channels := channels } where
  follows := follow_edge tracks.follows step
  hook := tracks.hook

theorem Tracks.advance (tracks : state.Tracks) {next : Threaded}
    (step : state.advance = some next) : next.Tracks := by
  obtain ⟨follows, hook⟩ := tracks
  unfold pending at follows
  cases drain : state.drain with
  | idle =>
      rw [drain] at follows
      cases events : state.channels.events with
      | nil => simp [Threaded.advance, drain, events] at step
      | cons event rest =>
          simp only [Threaded.advance, drain, events, Option.some.injEq]
            at step
          subst step
          rw [events] at follows
          cases event with
          | operation =>
              refine ⟨?_, by simp [Drain.take]⟩
              cases flag : state.disconnected <;>
                simpa [pending, Drain.take, Drain.pending, follow, flag]
                  using follows
          | _ => exact ⟨follows, by simp [Drain.take]⟩
  | first =>
      simp only [Threaded.advance, drain, Option.some.injEq] at step
      subst step
      rw [drain] at follows
      refine ⟨?_, fun _ => rfl⟩
      cases flag : state.disconnected with
      | true => simpa [pending, Drain.pending, follow, flag] using follows
      | false => simp [Drain.pending, follow, flag] at follows
  | firstHook =>
      simp only [Threaded.advance, drain, Option.some.injEq] at step
      subst step
      rw [drain] at follows
      exact ⟨follows, by simp⟩
  | last =>
      simp only [Threaded.advance, drain, Option.some.injEq] at step
      subst step
      rw [drain] at follows
      exact ⟨follows, by simp⟩
  | lastDone =>
      simp only [Threaded.advance, drain, Option.some.injEq] at step
      subst step
      rw [drain] at follows
      refine ⟨?_, by simp⟩
      cases flag : state.disconnected with
      | true => simp [Drain.pending, follow, flag] at follows
      | false => simpa [pending, Drain.pending, follow, flag] using follows
  | operation =>
      simp only [Threaded.advance, drain, Option.some.injEq] at step
      subst step
      rw [drain] at follows
      exact ⟨follows, by simp⟩

theorem Tracks.setWaiter (tracks : state.Tracks) (id : Nat)
    (waiter : Waiter) : (state.setWaiter id waiter).Tracks :=
  ⟨tracks.follows, tracks.hook⟩

theorem tracks_invariant : system.Invariant Tracks where
  initial state start := by
    subst start
    exact ⟨rfl, by simp [Threaded.start]⟩
  preserved state label next tracks step := by
    cases label with
    | edge edge =>
        obtain ⟨channels, took, rfl⟩ := Option.map_eq_some_iff.mp step
        exact tracks.edge took
    | drain => exact tracks.advance step
    | _ =>
        simp only [system, Transition.ofPartial, Threaded.next,
          Option.ite_none_right_eq_some, Option.some.injEq] at step
        obtain ⟨_, rfl⟩ := step
        exact tracks.setWaiter _ _

/-- Without a first connection to be dispatched, a flag that is set says that
everything is over. -/
theorem Tracks.settled (tracks : state.Tracks)
    (calm : .first ∉ state.pending) (flag : state.disconnected) :
    state.Settled := by
  have follows := tracks.follows
  rw [flag] at follows
  obtain ⟨none_, operations⟩ := follow_false follows calm
  refine ⟨by simpa using none_, operations, ?_⟩
  intro hook
  simp [tracks.hook hook] at flag

/-- A call that passed the wait began it in time, and what woke it or let it
return is the end of the last hook. -/
def Kept (state : Threaded) : Prop :=
  ∀ id, (state.waiters id ≠ .idle → state.channels.removed) ∧
    (state.waiters id = .waiting → .first ∉ state.pending) ∧
    (state.waiters id = .woken ∨ state.waiters id = .returned →
      state.Settled)

theorem advance_pending {next : Threaded}
    (step : state.advance = some next) :
    next.channels.count = state.channels.count ∧
      next.channels.removed = state.channels.removed ∧
      (∀ event ∈ next.pending, event ∈ state.pending) ∧
      (next.drain = .firstHook → .first ∈ state.pending) := by
  cases drain : state.drain with
  | idle =>
      cases events : state.channels.events with
      | nil => simp [Threaded.advance, drain, events] at step
      | cons event rest =>
          simp only [Threaded.advance, drain, events, Option.some.injEq]
            at step
          subst step
          cases event <;>
            simp_all [pending, Drain.take, Drain.pending]
  | _ =>
      simp only [Threaded.advance, drain, Option.some.injEq] at step
      subst step
      simp +contextual [pending, Drain.pending, drain]

theorem Settled.edge (settled : state.Settled) {edge : Edge}
    {channels : Channels} (removed : state.channels.removed)
    (step : state.channels.edge edge = some channels) :
    Settled { state with channels := channels } := by
  obtain ⟨_, _, quiet⟩ := edge_removed removed step
  obtain ⟨none_, events⟩ := quiet settled.count
  refine ⟨none_, ?_, settled.hook⟩
  intro event member
  rcases List.mem_append.mp member with head | inside
  · exact settled.pending event (List.mem_append_left _ head)
  · rcases events event inside with isOperation | old
    · exact isOperation
    · exact settled.pending event (List.mem_append_right _ old)

theorem Settled.calm (settled : state.Settled) : .first ∉ state.pending := by
  intro first
  have operation := settled.pending .first first
  simp at operation

theorem Settled.advance (settled : state.Settled) {next : Threaded}
    (step : state.advance = some next) : next.Settled := by
  obtain ⟨count, _, fewer, hook⟩ := advance_pending step
  refine ⟨count.trans settled.count, ?_, ?_⟩
  · intro event member
    exact settled.pending event (fewer event member)
  · exact fun inHook => settled.calm (hook inHook)

theorem Kept.edge (kept : state.Kept) {edge : Edge} {channels : Channels}
    (step : state.channels.edge edge = some channels) :
    Kept { state with channels := channels } := by
  intro id
  obtain ⟨removed, waiting, settled⟩ := kept id
  refine ⟨?_, ?_, ?_⟩
  · intro there
    exact (edge_removed (removed there) step).1
  · intro waits member
    have isRemoved := removed (by
      intro idle
      exact absurd (idle.symm.trans waits) (by simp))
    rcases List.mem_append.mp member with head | inside
    · exact waiting waits (List.mem_append_left _ head)
    · apply waiting waits
      apply List.mem_append_right
      exact (edge_removed isRemoved step).2.1 inside
  · intro woken
    refine (settled woken).edge (removed ?_) step
    intro idle
    rw [idle] at woken
    simp at woken

theorem Kept.advance (kept : state.Kept) (tracks : state.Tracks)
    {next : Threaded} (step : state.advance = some next) : next.Kept := by
  obtain ⟨_, removed', fewer, _⟩ := advance_pending step
  have waiters : (∀ id, next.waiters id = state.waiters id) ∨
      next.disconnected = true ∧
        ∀ id, next.waiters id = (state.waiters id).wake := by
    cases drain : state.drain with
    | idle =>
        cases events : state.channels.events with
        | nil => simp [Threaded.advance, drain, events] at step
        | cons event rest =>
            simp only [Threaded.advance, drain, events, Option.some.injEq]
              at step
            subst step
            exact .inl fun _ => rfl
    | lastDone =>
        simp only [Threaded.advance, drain, Option.some.injEq] at step
        subst step
        exact .inr ⟨rfl, fun _ => rfl⟩
    | _ =>
        simp only [Threaded.advance, drain, Option.some.injEq] at step
        subst step
        exact .inl fun _ => rfl
  intro id
  obtain ⟨removed, waiting, settled⟩ := kept id
  rcases waiters with same | ⟨flag, woke⟩
  · rw [same id, removed']
    refine ⟨removed, ?_, fun woken => (settled woken).advance step⟩
    intro waits member
    exact waiting waits (fewer _ member)
  · rw [woke id, removed']
    cases now : state.waiters id with
    | waiting =>
        refine ⟨fun _ => removed (by simp [now]), by simp [Waiter.wake], ?_⟩
        intro _
        refine (tracks.advance step).settled ?_ flag
        intro member
        exact waiting now (fewer _ member)
    | _ =>
        rw [now] at removed settled
        refine ⟨removed, by simp [Waiter.wake], ?_⟩
        intro woken
        exact (settled woken).advance step

theorem Kept.setWaiter (kept : state.Kept) {id : Nat} {waiter : Waiter}
    (removed : state.channels.removed)
    (waiting : waiter = .waiting → .first ∉ state.pending)
    (settled : waiter = .woken ∨ waiter = .returned → state.Settled) :
    (state.setWaiter id waiter).Kept := by
  intro other
  by_cases same : other = id
  · simp only [Threaded.setWaiter, same, if_true]
    refine ⟨fun _ => removed, waiting, ?_⟩
    intro woken
    obtain ⟨count, operations, hook⟩ := settled woken
    exact ⟨count, operations, hook⟩
  · obtain ⟨removed', waiting', settled'⟩ := kept other
    simp only [Threaded.setWaiter, same, if_false]
    refine ⟨removed', waiting', ?_⟩
    intro woken
    obtain ⟨count, operations, hook⟩ := settled' woken
    exact ⟨count, operations, hook⟩

theorem kept_invariant :
    (system.restrict InTime).Invariant fun state =>
      state.Tracks ∧ state.Kept := by
  refine (tracks_invariant.restrict InTime).strengthen ?_ ?_
  · intro state start
    subst start
    intro id
    simp [Threaded.start]
  · intro state label next tracks kept step
    obtain ⟨step, inTime⟩ := step
    cases label with
    | edge edge =>
        obtain ⟨channels, took, rfl⟩ := Option.map_eq_some_iff.mp step
        exact kept.edge took
    | drain => exact kept.advance tracks step
    | call id =>
        simp only [system, Transition.ofPartial, Threaded.next,
          Option.ite_none_right_eq_some, Option.some.injEq] at step
        obtain ⟨⟨removed, _⟩, rfl⟩ := step
        exact kept.setWaiter removed (by simp) (by simp)
    | wait id =>
        simp only [system, Transition.ofPartial, Threaded.next,
          Option.ite_none_right_eq_some, Option.some.injEq] at step
        obtain ⟨called, rfl⟩ := step
        have removed := (kept id).1 (by simp [called])
        cases flag : state.disconnected with
        | true =>
            exact kept.setWaiter removed (by simp) fun _ =>
              tracks.settled inTime flag
        | false => exact kept.setWaiter removed (fun _ => inTime) (by simp)
    | resume id =>
        simp only [system, Transition.ofPartial, Threaded.next,
          Option.ite_none_right_eq_some, Option.some.injEq] at step
        obtain ⟨woken, rfl⟩ := step
        have removed := (kept id).1 (by simp [woken])
        exact kept.setWaiter removed (by simp) fun _ =>
          (kept id).2.2 (.inl woken)
    | timeout id =>
        simp only [system, Transition.ofPartial, Threaded.next,
          Option.ite_none_right_eq_some, Option.some.injEq] at step
        obtain ⟨waiting, rfl⟩ := step
        have removed := (kept id).1 (by simp [waiting])
        exact kept.setWaiter removed (by simp) (by simp)

theorem woken_breaks {id : Nat} (woken : state.waiters id = .woken)
    (pending : .first ∈ state.pending) : system.Breakable Waited state := by
  refine .step (.resume id) (if_pos woken) (.now ?_)
  intro waited
  exact (waited id (by simp [Threaded.setWaiter])).calm pending

/-- The last disconnection that set the flag is not the one of the
connection that is still on the queue. -/
theorem last_breaks {id : Nat} (waiting : state.waiters id = .waiting)
    (last : state.drain = .last ∨ state.drain = .lastDone)
    (events : .first ∈ state.channels.events) :
    system.Breakable Waited state := by
  have done : ∀ state : Threaded, state.waiters id = .waiting →
      state.drain = .lastDone → .first ∈ state.channels.events →
      system.Breakable Waited state := by
    intro state waiting lastDone events
    have step : state.next .drain = some { state with
        drain := .idle
        disconnected := true
        waiters := fun id => (state.waiters id).wake } := by
      simp only [Threaded.next, Threaded.advance, lastDone]
    have woken : (state.waiters id).wake = .woken := by
      rw [waiting]
      rfl
    exact .step .drain step
      (woken_breaks woken (List.mem_append_right _ events))
  rcases last with last | lastDone
  · have step : state.next .drain =
        some { state with drain := .lastDone } := by
      simp only [Threaded.next, Threaded.advance, last]
    exact .step .drain step (done _ waiting rfl events)
  · exact done state waiting lastDone events

theorem idle_breaks {id : Nat} (events : List Event) (state : Threaded)
    (queue : state.channels.events = events) (drain : state.drain = .idle)
    (tracks : state.Tracks) (flag : state.disconnected = false)
    (waiting : state.waiters id = .waiting) (first : .first ∈ events) :
    system.Breakable Waited state := by
  induction events generalizing state with
  | nil => simp at first
  | cons event events induction =>
      have step : state.next .drain = some { state with
          channels := { state.channels with events := events }
          drain := .take event } := by
        simp only [Threaded.next, Threaded.advance, drain, queue]
      refine .step .drain step ?_
      have tracks' := tracks.advance step
      cases event with
      | first =>
          have follows := tracks.follows
          simp [pending, drain, Drain.pending, queue, flag, follow]
            at follows
      | last =>
          exact last_breaks waiting (.inl rfl) (by simpa using first)
      | operation =>
          refine .step .drain rfl ?_
          exact induction _ rfl rfl (tracks'.advance rfl) flag waiting
            (by simpa using first)

/-- Whatever the drain thread is doing, a call that waits although a first
connection is still to be dispatched may return before that. -/
theorem waiting_breaks {id : Nat} (tracks : state.Tracks)
    (flag : state.disconnected = false)
    (waiting : state.waiters id = .waiting)
    (first : .first ∈ state.pending) : system.Breakable Waited state := by
  have toIdle : (state.drain = .firstHook ∨ state.drain = .operation) →
      system.Breakable Waited state := by
    intro drain
    have step : state.next .drain = some { state with drain := .idle } := by
      rcases drain with drain | drain <;>
        simp only [Threaded.next, Threaded.advance, drain]
    have queued : .first ∈ state.channels.events := by
      rcases drain with drain | drain <;>
        simpa [pending, drain, Drain.pending] using first
    exact .step .drain step
      (idle_breaks _ _ rfl rfl (tracks.advance step) flag waiting queued)
  cases drain : state.drain with
  | idle =>
      refine idle_breaks _ _ rfl drain tracks flag waiting ?_
      simpa [pending, drain, Drain.pending] using first
  | first =>
      have follows := tracks.follows
      simp [pending, drain, Drain.pending, flag, follow] at follows
  | last =>
      refine last_breaks waiting (.inl drain) ?_
      simpa [pending, drain, Drain.pending] using first
  | lastDone =>
      refine last_breaks waiting (.inr drain) ?_
      simpa [pending, drain, Drain.pending] using first
  | firstHook => exact toIdle (.inl drain)
  | operation => exact toIdle (.inr drain)

theorem waited_guards : system.Guards InTime Waited where
  enough state reachable id returned := by
    have kept := (kept_invariant.reachable reachable).2
    exact (kept id).2.2 (.inr returned)
  needed state label next reachable step late := by
    have tracks := tracks_invariant.reachable reachable
    cases label with
    | wait id =>
        simp only [system, Transition.ofPartial, Threaded.next,
          Option.ite_none_right_eq_some, Option.some.injEq] at step
        obtain ⟨_, rfl⟩ := step
        have first : .first ∈ state.pending := Decidable.not_not.mp late
        cases flag : state.disconnected with
        | true =>
            apply Transition.Breakable.now
            intro waited
            exact (waited id (by simp [Threaded.setWaiter])).calm first
        | false =>
            have waiting : (state.setWaiter id .waiting).waiters id =
                .waiting := if_pos rfl
            exact waiting_breaks (tracks.setWaiter id .waiting) flag waiting
              first
    | _ => exact absurd trivial late

end Threaded

/-- The handler tasks that are not done, and whether they run a connect
hook. -/
structure Looped where
  channels : Channels
  disconnected : Bool
  tasks : List (Nat × Bool)
  nextTask : Nat
  waiters : Nat → Waiter

namespace Looped

/-- What runs on the loop between two awaits is one step. -/
inductive Label where
  | edge (edge : Edge)
  /-- The handler is a coroutine or not. -/
  | dispatch (coroutine : Bool)
  | finish (task : Nat)
  | call (id : Nat)
  | start (id : Nat)
  | gathered (id : Nat)
  | resume (id : Nat)
  | timeout (id : Nat)

variable (state : Looped)

def setWaiter (id : Nat) (waiter : Waiter) : Looped :=
  { state with waiters := fun other =>
      if other = id then waiter else state.waiters other }

/-- `_run`: a coroutine becomes a task, anything else is over. -/
def run (hook coroutine : Bool) : Looped :=
  if coroutine then
    { state with
      tasks := state.tasks ++ [(state.nextTask, hook)]
      nextTask := state.nextTask + 1 }
  else state

/-- `_connected`. -/
def connected (yes : Bool) : Looped :=
  if yes then { state with disconnected := false }
  else { state with
    disconnected := true
    waiters := fun id => (state.waiters id).wake }

/-- `_dispatch` for the next event. -/
def advance (coroutine : Bool) : Option Looped :=
  match state.channels.events with
  | [] => none
  | event :: events =>
      let taken := { state with
        channels := { state.channels with events := events } }
      match event with
      | .first => some ((taken.connected true).run true coroutine)
      | .last => some ((taken.run true coroutine).connected false)
      | .operation => some (taken.run false coroutine)

/-- The wait for the flag, which may be set already. -/
def await (id : Nat) : Looped :=
  state.setWaiter id (if state.disconnected then .returned else .waiting)

def next : Label → Option Looped
  | .edge edge =>
      (state.channels.edge edge).map fun channels =>
        { state with channels := channels }
  | .dispatch coroutine => state.advance coroutine
  | .finish task =>
      if state.tasks.any fun running => running.1 == task then
        some { state with
          tasks := state.tasks.filter fun running => running.1 != task }
      else none
  | .call id =>
      if state.channels.removed ∧ state.waiters id = .idle then
        some (state.setWaiter id .called)
      else none
  | .start id =>
      if state.waiters id = .called then
        some (if state.tasks.isEmpty then state.await id
          else state.setWaiter id (.gathering (state.tasks.map Prod.fst)))
      else none
  | .gathered id =>
      match state.waiters id with
      | .gathering tasks =>
          if state.tasks.all fun running => running.1 ∉ tasks then
            some (state.await id)
          else none
      | _ => none
  | .resume id =>
      if state.waiters id = .woken then some (state.setWaiter id .returned)
      else none
  | .timeout id =>
      if state.waiters id = .waiting then
        some (state.setWaiter id .timedOut)
      else none

def start : Looped where
  channels := .start
  disconnected := true
  tasks := []
  nextTask := 0
  waiters _ := .idle

def system : Transition Looped Label :=
  .ofPartial (fun state => state = start) next

/-- No channel is left, and both hooks have run as often as they had to. -/
structure Settled : Prop where
  count : state.channels.count = 0
  events : ∀ event ∈ state.channels.events, event = .operation
  tasks : ∀ task ∈ state.tasks, task.2 = false

/-- A `close(sync=True)` that returned has waited for the hooks. -/
def Waited : Prop :=
  ∀ id, state.waiters id = .returned → state.Settled

/-- The wait begins when no first connection is still to be dispatched, and
no last disconnection starts a task after the wait has begun. -/
def InTime : Label → Prop
  | .start _ => .first ∉ state.channels.events
  | .dispatch true => state.channels.events.head? = some .last →
      ∀ id, state.waiters id ≠ .waiting ∧
        ∀ tasks, state.waiters id ≠ .gathering tasks
  | _ => True

/-- The flag says what the dispatched events come to. -/
def Tracks : Prop :=
  follow (!state.disconnected) state.channels.events =
    some (decide (0 < state.channels.count))

variable {state : Looped}

/-- What a dispatched event does, apart from the task it may start. -/
theorem advance_cases {next : Looped} {coroutine : Bool}
    (step : state.advance coroutine = some next) :
    ∃ event events, state.channels.events = event :: events ∧
      next.channels = { state.channels with events := events } ∧
      next.disconnected = (match event with
        | .first => false
        | .last => true
        | .operation => state.disconnected) ∧
      next.waiters = (match event with
        | .last => fun id => (state.waiters id).wake
        | _ => state.waiters) ∧
      next.tasks = (if coroutine then
          state.tasks ++ [(state.nextTask, decide (event ≠ .operation))]
        else state.tasks) := by
  cases events : state.channels.events with
  | nil => simp [Looped.advance, events] at step
  | cons event rest =>
      refine ⟨event, rest, rfl, ?_⟩
      cases event <;> cases coroutine <;>
        simp only [Looped.advance, events, connected, run, if_true,
          Option.some.injEq, Bool.false_eq_true, if_false] at step <;>
        subst step <;>
        exact ⟨rfl, rfl, rfl, rfl⟩

theorem Tracks.advance (tracks : state.Tracks) {next : Looped}
    {coroutine : Bool} (step : state.advance coroutine = some next) :
    next.Tracks := by
  obtain ⟨event, events, split, channels, flag, _⟩ := advance_cases step
  unfold Tracks at tracks ⊢
  rw [channels, flag]
  rw [split] at tracks
  cases event <;> cases now : state.disconnected <;> rw [now] at tracks <;>
    first | exact tracks | simp [follow] at tracks

theorem tracks_invariant : system.Invariant Tracks where
  initial state start := by
    subst start
    rfl
  preserved state label next tracks step := by
    cases label with
    | edge edge =>
        obtain ⟨channels, took, rfl⟩ := Option.map_eq_some_iff.mp step
        exact @follow_edge _ [] _ _ _ tracks took
    | dispatch coroutine => exact tracks.advance step
    | start id =>
        simp only [system, Transition.ofPartial, Looped.next,
          Option.ite_none_right_eq_some, Option.some.injEq] at step
        obtain ⟨_, rfl⟩ := step
        cases state.tasks.isEmpty <;> exact tracks
    | gathered id =>
        simp only [system, Transition.ofPartial, Looped.next] at step
        split at step
        · simp only [Option.ite_none_right_eq_some, Option.some.injEq]
            at step
          obtain ⟨_, rfl⟩ := step
          exact tracks
        · simp at step
    | _ =>
        simp only [system, Transition.ofPartial, Looped.next,
          Option.ite_none_right_eq_some, Option.some.injEq] at step
        obtain ⟨_, rfl⟩ := step
        exact tracks

/-- Without a first connection to be dispatched and a hook that is still
running, a flag that is set says that everything is over. -/
theorem Tracks.settled (tracks : state.Tracks)
    (calm : .first ∉ state.channels.events)
    (tasks : ∀ task ∈ state.tasks, task.2 = false)
    (flag : state.disconnected) : state.Settled := by
  unfold Tracks at tracks
  rw [flag] at tracks
  obtain ⟨none_, operations⟩ := follow_false tracks calm
  exact ⟨by simpa using none_, operations, tasks⟩

/-- What holds of a call at each stage when all waits began in time. -/
def Fits (state : Looped) : Waiter → Prop
  | .gathering tasks => .first ∉ state.channels.events ∧
      ∀ task ∈ state.tasks, task.2 = true → task.1 ∈ tasks
  | .waiting => .first ∉ state.channels.events ∧
      ∀ task ∈ state.tasks, task.2 = false
  | .woken | .returned => state.Settled
  | _ => True

def Kept (state : Looped) : Prop :=
  ∀ id, (state.waiters id ≠ .idle → state.channels.removed) ∧
    state.Fits (state.waiters id)

theorem Settled.calm (settled : state.Settled) {event : Event}
    (edge : event ≠ .operation) : event ∉ state.channels.events :=
  fun member => edge (settled.events event member)

theorem Settled.edge (settled : state.Settled) {edge : Edge}
    {channels : Channels} (removed : state.channels.removed)
    (step : state.channels.edge edge = some channels) :
    Settled { state with channels := channels } := by
  obtain ⟨none_, events⟩ :=
    (edge_removed removed step).2.2 settled.count
  refine ⟨none_, ?_, settled.tasks⟩
  intro event member
  rcases events event member with isOperation | old
  · exact isOperation
  · exact settled.events event old

theorem Kept.edge (kept : state.Kept) {edge : Edge} {channels : Channels}
    (step : state.channels.edge edge = some channels) :
    Kept { state with channels := channels } := by
  intro id
  obtain ⟨removed, fits⟩ := kept id
  refine ⟨fun there => (edge_removed (removed there) step).1, ?_⟩
  cases now : state.waiters id with
  | gathering tasks =>
      rw [now] at fits
      have calm := (edge_removed (removed (by simp [now])) step).2.1
      exact ⟨fun member => fits.1 (calm member), fits.2⟩
  | waiting =>
      rw [now] at fits
      have calm := (edge_removed (removed (by simp [now])) step).2.1
      exact ⟨fun member => fits.1 (calm member), fits.2⟩
  | woken =>
      rw [now] at fits
      exact Settled.edge fits (removed (by simp [now])) step
  | returned =>
      rw [now] at fits
      exact Settled.edge fits (removed (by simp [now])) step
  | _ => trivial

/-- Nothing comes on the queue, and no hook runs that did not run before. -/
theorem Fits.fewer {waiter : Waiter} (fits : state.Fits waiter)
    {next : Looped} (count : next.channels.count = state.channels.count)
    (events : ∀ event ∈ next.channels.events,
      event ∈ state.channels.events)
    (tasks : ∀ task ∈ next.tasks, task ∈ state.tasks ∨ task.2 = false) :
    next.Fits waiter := by
  have settled : state.Settled → next.Settled := by
    intro settled
    refine ⟨count.trans settled.count, ?_, ?_⟩
    · intro event member
      exact settled.events event (events event member)
    · intro task member
      rcases tasks task member with old | new
      · exact settled.tasks task old
      · exact new
  cases waiter with
  | gathering found =>
      refine ⟨fun member => fits.1 (events _ member), ?_⟩
      intro task member isHook
      rcases tasks task member with old | new
      · exact fits.2 task old isHook
      · simp [new] at isHook
  | waiting =>
      refine ⟨fun member => fits.1 (events _ member), ?_⟩
      intro task member
      rcases tasks task member with old | new
      · exact fits.2 task old
      · exact new
  | woken => exact settled fits
  | returned => exact settled fits
  | _ => trivial

theorem Kept.advance (kept : state.Kept) (tracks : state.Tracks)
    {next : Looped} {coroutine : Bool}
    (inTime : state.InTime (.dispatch coroutine))
    (step : state.advance coroutine = some next) : next.Kept := by
  have tracks' := tracks.advance step
  obtain ⟨event, events, split, channels, flag, waiters, tasks⟩ :=
    advance_cases step
  have fewer : ∀ other, other ∈ next.channels.events →
      other ∈ state.channels.events := by
    intro other member
    rw [channels] at member
    rw [split]
    exact List.mem_cons_of_mem event member
  have queued : event ∈ state.channels.events := by simp [split]
  intro id
  obtain ⟨removed, fits⟩ := kept id
  cases event with
  | first =>
      rw [waiters, channels]
      dsimp only
      refine ⟨removed, ?_⟩
      cases now : state.waiters id <;> rw [now] at fits
      case gathering => simp [Fits, split] at fits
      case waiting => simp [Fits, split] at fits
      case woken =>
        exact absurd queued (Settled.calm fits (by simp))
      case returned =>
        exact absurd queued (Settled.calm fits (by simp))
      all_goals trivial
  | last =>
      rw [waiters, channels]
      dsimp only
      have head : state.channels.events.head? = some .last := by
        rw [split]
        rfl
      cases now : state.waiters id <;> rw [now] at fits removed
      case gathering found =>
        refine ⟨removed, fun member => fits.1 (fewer _ member), ?_⟩
        cases coroutine with
        | true => exact absurd now ((inTime head id).2 found)
        | false =>
            rw [tasks]
            exact fits.2
      case waiting =>
        refine ⟨fun _ => removed (by simp), ?_⟩
        cases coroutine with
        | true => exact absurd now (inTime head id).1
        | false =>
            refine tracks'.settled (fun member => fits.1 (fewer _ member))
              ?_ flag
            rw [tasks]
            exact fits.2
      case woken =>
        exact absurd queued (Settled.calm fits (by simp))
      case returned =>
        exact absurd queued (Settled.calm fits (by simp))
      all_goals exact ⟨removed, trivial⟩
  | operation =>
      rw [waiters, channels]
      dsimp only
      refine ⟨removed, ?_⟩
      apply fits.fewer (by rw [channels]) fewer
      rw [tasks]
      intro task member
      cases coroutine with
      | true =>
          rcases List.mem_append.mp member with old | new
          · exact .inl old
          · right
            rw [List.mem_singleton.mp new]
            rfl
      | false => exact .inl member

theorem Fits.setWaiter {waiter : Waiter} (fits : state.Fits waiter)
    (id : Nat) (other : Waiter) : (state.setWaiter id other).Fits waiter :=
  fits.fewer rfl (fun _ member => member) fun _ member => .inl member

theorem Kept.setWaiter (kept : state.Kept) {id : Nat} {waiter : Waiter}
    (removed : state.channels.removed) (fits : state.Fits waiter) :
    (state.setWaiter id waiter).Kept := by
  intro other
  have here : (state.setWaiter id waiter).waiters other =
      if other = id then waiter else state.waiters other := rfl
  rw [here]
  by_cases same : other = id
  · rw [if_pos same]
    exact ⟨fun _ => removed, fits.setWaiter id waiter⟩
  · rw [if_neg same]
    obtain ⟨removed', fits'⟩ := kept other
    exact ⟨removed', fits'.setWaiter id waiter⟩

theorem Kept.await (kept : state.Kept) (tracks : state.Tracks) {id : Nat}
    (removed : state.channels.removed)
    (calm : .first ∉ state.channels.events)
    (tasks : ∀ task ∈ state.tasks, task.2 = false) :
    (state.await id).Kept := by
  apply kept.setWaiter removed
  cases flag : state.disconnected with
  | true => exact tracks.settled calm tasks flag
  | false => exact ⟨calm, tasks⟩

theorem kept_invariant :
    (system.restrict InTime).Invariant fun state =>
      state.Tracks ∧ state.Kept := by
  refine (tracks_invariant.restrict InTime).strengthen ?_ ?_
  · intro state start
    subst start
    intro id
    exact ⟨by simp [Looped.start], trivial⟩
  · intro state label next tracks kept step
    obtain ⟨step, inTime⟩ := step
    cases label with
    | edge edge =>
        obtain ⟨channels, took, rfl⟩ := Option.map_eq_some_iff.mp step
        exact kept.edge took
    | dispatch coroutine => exact kept.advance tracks inTime step
    | finish task =>
        simp only [system, Transition.ofPartial, Looped.next,
          Option.ite_none_right_eq_some, Option.some.injEq] at step
        obtain ⟨_, rfl⟩ := step
        intro id
        obtain ⟨removed, fits⟩ := kept id
        refine ⟨removed, fits.fewer rfl (fun _ member => member) ?_⟩
        intro running member
        exact .inl (List.mem_filter.mp member).1
    | call id =>
        simp only [system, Transition.ofPartial, Looped.next,
          Option.ite_none_right_eq_some, Option.some.injEq] at step
        obtain ⟨⟨removed, _⟩, rfl⟩ := step
        exact kept.setWaiter removed trivial
    | start id =>
        simp only [system, Transition.ofPartial, Looped.next,
          Option.ite_none_right_eq_some, Option.some.injEq] at step
        obtain ⟨called, rfl⟩ := step
        have removed := (kept id).1 (by simp [called])
        cases tasks : state.tasks with
        | nil => exact kept.await tracks removed inTime (by simp [tasks])
        | cons task rest =>
            apply kept.setWaiter removed
            refine ⟨inTime, ?_⟩
            intro task member _
            rw [← tasks]
            exact List.mem_map_of_mem member
    | gathered id =>
        simp only [system, Transition.ofPartial, Looped.next] at step
        split at step
        case h_1 found gathering =>
          simp only [Option.ite_none_right_eq_some, Option.some.injEq,
            List.all_eq_true, decide_eq_true_eq] at step
          obtain ⟨finished, rfl⟩ := step
          obtain ⟨removed, fits⟩ := kept id
          rw [gathering] at fits
          apply kept.await tracks (removed (by simp [gathering])) fits.1
          intro task member
          cases isHook : task.2 with
          | false => rfl
          | true =>
              exact absurd (fits.2 task member isHook)
                (finished task member)
        case h_2 => simp at step
    | resume id =>
        simp only [system, Transition.ofPartial, Looped.next,
          Option.ite_none_right_eq_some, Option.some.injEq] at step
        obtain ⟨woken, rfl⟩ := step
        obtain ⟨removed, fits⟩ := kept id
        rw [woken] at fits
        exact kept.setWaiter (removed (by simp [woken])) fits
    | timeout id =>
        simp only [system, Transition.ofPartial, Looped.next,
          Option.ite_none_right_eq_some, Option.some.injEq] at step
        obtain ⟨waiting, rfl⟩ := step
        have removed := (kept id).1 (by simp [waiting])
        exact kept.setWaiter removed trivial

/-- Tasks have numbers below the next one. -/
structure Numbered (state : Looped) : Prop where
  tasks : ∀ task ∈ state.tasks, task.1 < state.nextTask
  gathering : ∀ id tasks, state.waiters id = .gathering tasks →
    ∀ task ∈ tasks, task < state.nextTask

/-- The state in which some tasks are done. -/
def without (state : Looped) (tasks : List Nat) : Looped :=
  { state with
    tasks := state.tasks.filter fun running => running.1 ∉ tasks }

theorem finish_tasks (tasks : List Nat) (state : Looped) :
    ∃ labels, system.Run state labels (state.without tasks) := by
  induction tasks generalizing state with
  | nil =>
      have same : state.without [] = state := by
        unfold without
        rw [List.filter_eq_self.mpr (by simp)]
      rw [same]
      exact ⟨[], .nil state⟩
  | cons task tasks induction =>
      cases there : state.tasks.any fun running => running.1 == task with
      | true =>
          obtain ⟨labels, run⟩ := induction { state with
            tasks := state.tasks.filter fun running => running.1 != task }
          refine ⟨.finish task :: labels, .cons (if_pos there) ?_⟩
          have same : state.without (task :: tasks) = without { state with
              tasks := state.tasks.filter fun running =>
                running.1 != task } tasks := by
            simp only [without, List.filter_filter]
            congr 2
            funext running
            by_cases same : running.1 = task <;> simp [same]
          rw [same]
          exact run
      | false =>
          obtain ⟨labels, run⟩ := induction state
          have same : state.without (task :: tasks) =
              state.without tasks := by
            simp only [without]
            congr 1
            apply List.filter_congr
            intro running member
            have apart := List.any_eq_false.mp there running member
            have differ : running.1 ≠ task := by simpa using apart
            simp [differ]
          rw [same]
          exact ⟨labels, run⟩

/-- A call whose wait ends while something is left of the hooks. -/
theorem over_breaks {id : Nat} (flag : state.disconnected)
    (waiter : state.waiters id = .woken ∧
        (.first ∈ state.channels.events ∨
          ∃ task ∈ state.tasks, task.2 = true) ∨
      ∃ tasks, state.waiters id = .gathering tasks ∧
        (.first ∈ state.channels.events ∨
          ∃ task ∈ state.tasks, task.2 = true ∧ task.1 ∉ tasks)) :
    system.Breakable Waited state := by
  have unsettled : ∀ last : Looped, (.first ∈ last.channels.events ∨
      ∃ task ∈ last.tasks, task.2 = true) →
      last.waiters id = .returned → ¬last.Waited := by
    intro last left returned waited
    have settled := waited id returned
    rcases left with first | ⟨task, member, isHook⟩
    · exact settled.calm (by simp) first
    · have other := settled.tasks task member
      simp [isHook] at other
  rcases waiter with ⟨woken, left⟩ | ⟨tasks, gathering, left⟩
  · refine .step (.resume id) (if_pos woken) (.now ?_)
    exact unsettled _ left (if_pos rfl)
  · obtain ⟨labels, run⟩ := finish_tasks tasks state
    have step : (state.without tasks).next (.gathered id) =
        some ((state.without tasks).await id) := by
      have same : (state.without tasks).waiters id = .gathering tasks :=
        gathering
      simp only [Looped.next, same]
      rw [if_pos]
      simp [without]
    refine ⟨_, _, .snoc run step, unsettled _ ?_ ?_⟩
    · refine left.imp_right ?_
      intro hook
      obtain ⟨task, member, isHook, outside⟩ := hook
      refine ⟨task, List.mem_filter.mpr ⟨member, ?_⟩, isHook⟩
      simpa using outside
    · simp [await, setWaiter, without, flag]

/-- A call that waits for the flag or for some tasks although a first
connection is still to be dispatched may return before that. -/
theorem waits_breaks {id : Nat} (events : List Event) (state : Looped)
    (queue : state.channels.events = events) (tracks : state.Tracks)
    (waiter : state.waiters id = .waiting ∧ state.disconnected = false ∨
      ∃ tasks, state.waiters id = .gathering tasks)
    (first : .first ∈ events) : system.Breakable Waited state := by
  cases flag : state.disconnected with
  | true =>
      refine @over_breaks state id flag (.inr ?_)
      rcases waiter with ⟨_, clear⟩ | ⟨tasks, gathering⟩
      · simp [flag] at clear
      · exact ⟨tasks, gathering, .inl (queue ▸ first)⟩
  | false =>
      induction events generalizing state with
      | nil => simp at first
      | cons event events induction =>
          cases event with
          | first => simp [Tracks, queue, flag, follow] at tracks
          | last =>
              have step : state.next (.dispatch false) =
                  some (connected { state with channels :=
                    { state.channels with events := events } } false) := by
                simp only [Looped.next, advance, queue]
                rfl
              have rest : .first ∈ events := by simpa using first
              refine .step (.dispatch false) step ?_
              refine @over_breaks _ id rfl ?_
              rcases waiter with ⟨waiting, _⟩ | ⟨tasks, gathering⟩
              · left
                refine ⟨?_, .inl rest⟩
                change (state.waiters id).wake = _
                rw [waiting]
                rfl
              · right
                refine ⟨tasks, ?_, .inl rest⟩
                change (state.waiters id).wake = _
                rw [gathering]
                rfl
          | operation =>
              have step : state.next (.dispatch false) =
                  some { state with channels :=
                    { state.channels with events := events } } := by
                simp only [Looped.next, advance, queue]
                rfl
              refine .step (.dispatch false) step ?_
              refine induction _ rfl (tracks.advance step) waiter ?_ flag
              simpa using first

theorem advance_nextTask {next : Looped} {coroutine : Bool}
    (step : state.advance coroutine = some next) :
    next.nextTask = state.nextTask + (if coroutine then 1 else 0) := by
  obtain ⟨event, events, split, _⟩ := advance_cases step
  cases event <;> cases coroutine <;>
    simp only [Looped.advance, split, connected, run, if_true,
      Option.some.injEq, Bool.false_eq_true, if_false] at step <;>
    subst step <;> rfl

theorem Numbered.setWaiter (numbered : state.Numbered) {id : Nat}
    {waiter : Waiter} (known : ∀ tasks, waiter = .gathering tasks →
      ∀ task ∈ tasks, task < state.nextTask) :
    (state.setWaiter id waiter).Numbered where
  tasks := numbered.tasks
  gathering other tasks gathering := by
    by_cases same : other = id
    · simp only [Looped.setWaiter, same, if_true] at gathering
      exact known tasks gathering
    · simp only [Looped.setWaiter, same, if_false] at gathering
      exact numbered.gathering other tasks gathering

theorem Numbered.await (numbered : state.Numbered) (id : Nat) :
    (state.await id).Numbered := by
  apply numbered.setWaiter
  cases state.disconnected <;> simp

theorem numbered_invariant : system.Invariant Numbered where
  initial state start := by
    subst start
    exact ⟨by simp [Looped.start], by simp [Looped.start]⟩
  preserved state label next numbered step := by
    cases label with
    | edge edge =>
        obtain ⟨channels, _, rfl⟩ := Option.map_eq_some_iff.mp step
        exact ⟨numbered.tasks, numbered.gathering⟩
    | dispatch coroutine =>
        have nextTask := advance_nextTask step
        obtain ⟨event, events, _, _, _, waiters, tasks⟩ :=
          advance_cases step
        constructor
        · rw [tasks, nextTask]
          intro task member
          cases coroutine with
          | true =>
              rcases List.mem_append.mp member with old | new
              · exact Nat.lt_succ_of_lt (numbered.tasks task old)
              · rw [List.mem_singleton.mp new]
                exact Nat.lt_succ_self _
          | false => exact numbered.tasks task member
        · rw [waiters, nextTask]
          intro id found gathering task member
          have old : state.waiters id = .gathering found := by
            cases event with
            | last =>
                dsimp only at gathering
                cases now : state.waiters id <;> rw [now] at gathering <;>
                  first | exact gathering | simp [Waiter.wake] at gathering
            | _ => exact gathering
          exact Nat.lt_add_right _
            (numbered.gathering id found old task member)
    | finish task =>
        simp only [system, Transition.ofPartial, Looped.next,
          Option.ite_none_right_eq_some, Option.some.injEq] at step
        obtain ⟨_, rfl⟩ := step
        refine ⟨?_, numbered.gathering⟩
        intro running member
        exact numbered.tasks running (List.mem_filter.mp member).1
    | start id =>
        simp only [system, Transition.ofPartial, Looped.next,
          Option.ite_none_right_eq_some, Option.some.injEq] at step
        obtain ⟨_, rfl⟩ := step
        split
        · exact numbered.await id
        · apply numbered.setWaiter
          intro tasks same task member
          obtain rfl := Waiter.gathering.inj same
          obtain ⟨running, inside, rfl⟩ := List.mem_map.mp member
          exact numbered.tasks running inside
    | gathered id =>
        simp only [system, Transition.ofPartial, Looped.next] at step
        split at step
        · simp only [Option.ite_none_right_eq_some, Option.some.injEq]
            at step
          obtain ⟨_, rfl⟩ := step
          exact numbered.await id
        · simp at step
    | _ =>
        simp only [system, Transition.ofPartial, Looped.next,
          Option.ite_none_right_eq_some, Option.some.injEq] at step
        obtain ⟨_, rfl⟩ := step
        exact numbered.setWaiter (by simp)

theorem waited_guards : system.Guards InTime Waited where
  enough state reachable id returned := by
    have kept := (kept_invariant.reachable reachable).2
    have fits := (kept id).2
    rw [returned] at fits
    exact fits
  needed state label next reachable step late := by
    have tracks := tracks_invariant.reachable reachable
    have numbered := numbered_invariant.reachable reachable
    cases label with
    | start id =>
        simp only [system, Transition.ofPartial, Looped.next,
          Option.ite_none_right_eq_some, Option.some.injEq] at step
        obtain ⟨_, rfl⟩ := step
        have first : .first ∈ state.channels.events :=
          Decidable.not_not.mp late
        split
        · cases flag : state.disconnected with
          | true =>
              apply Transition.Breakable.now
              intro waited
              have settled := waited id (by simp [await, setWaiter, flag])
              exact settled.calm (by simp) first
          | false =>
              refine @waits_breaks id _ _ rfl tracks (.inl ⟨?_, flag⟩) first
              simp [await, setWaiter, flag]
        · refine @waits_breaks id _ _ rfl tracks
            (.inr ⟨state.tasks.map Prod.fst, ?_⟩) first
          exact if_pos rfl
    | dispatch coroutine =>
        cases coroutine with
        | false => exact absurd trivial late
        | true =>
            obtain ⟨event, events, split, _, flag, waiters, tasks⟩ :=
              advance_cases step
            apply Classical.byContradiction
            intro unbroken
            apply late
            intro head id
            rw [split] at head
            obtain rfl := Option.some.inj head
            have new : (state.nextTask, true) ∈ next.tasks := by
              rw [tasks]
              exact List.mem_append_right _ (List.mem_singleton_self _)
            refine ⟨?_, ?_⟩
            · intro waiting
              apply unbroken
              refine @over_breaks next id flag
                (.inl ⟨?_, .inr ⟨_, new, rfl⟩⟩)
              rw [waiters]
              dsimp only
              rw [waiting]
              rfl
            · intro found gathering
              apply unbroken
              refine @over_breaks next id flag
                (.inr ⟨found, ?_, .inr ⟨_, new, rfl, ?_⟩⟩)
              · rw [waiters]
                dsimp only
                rw [gathering]
                rfl
              · intro inside
                exact Nat.lt_irrefl _
                  (numbered.gathering id found gathering _ inside)
    | _ => exact absurd trivial late

end Looped

/-- The last channel is gone before the loop has seen the first one. -/
def unseen : List Threaded.Label :=
  [.edge .opens, .edge .remove, .call 0, .wait 0]

/-- The hook for the last disconnection is a coroutine. -/
def unfinished : List Looped.Label :=
  [.edge .opens, .dispatch false, .edge .remove, .call 0, .start 0,
    .edge .closes, .dispatch true, .resume 0]

/-- `close(sync=True)` waits for the hooks in every run in which every wait
begins when no first connection is still to be dispatched, and in which no
coroutine is started for the last disconnection while a call waits.  Any
other step may be followed by a call that returns before the hooks are
over. -/
theorem close_waits (threaded : Threaded) (looped : Looped) :
    (((Threaded.system.restrict Threaded.InTime).Reachable threaded →
        threaded.Waited) ∧
      ((Looped.system.restrict Looped.InTime).Reachable looped →
        looped.Waited)) ∧
    (∀ label next, Threaded.system.Reachable threaded →
      Threaded.system.step threaded label next → ¬threaded.InTime label →
        Threaded.system.Breakable Threaded.Waited next) ∧
    ∀ label next, Looped.system.Reachable looped →
      Looped.system.step looped label next → ¬looped.InTime label →
        Looped.system.Breakable Looped.Waited next :=
  ⟨⟨Threaded.waited_guards.enough threaded,
      Looped.waited_guards.enough looped⟩,
    Threaded.waited_guards.needed threaded,
    Looped.waited_guards.needed looped⟩

/-- In both flavours a call returns although a hook has not run, or is still
running. -/
theorem close_returns_early :
    (∃ state, Threaded.system.Reachable state ∧ ¬state.Waited) ∧
      ∃ state, Looped.system.Reachable state ∧ ¬state.Waited := by
  constructor
  · have reachable : Threaded.system.Reachable
        ((unseen.foldlM Threaded.next .start).get rfl) :=
      ⟨.start, unseen, rfl, .of_foldlM rfl⟩
    refine ⟨_, reachable, ?_⟩
    intro waited
    have settled := waited 0 rfl
    exact absurd settled.count (by decide)
  · have reachable : Looped.system.Reachable
        ((unfinished.foldlM Looped.next .start).get rfl) :=
      ⟨.start, unfinished, rfl, .of_foldlM rfl⟩
    refine ⟨_, reachable, ?_⟩
    intro waited
    have settled := waited 0 rfl
    exact absurd (settled.tasks (0, true) (List.mem_singleton_self _))
      (by decide)

end Repics.Pva.Server.Hooks
