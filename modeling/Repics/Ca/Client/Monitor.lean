import Mathlib.Algebra.Group.Nat.Defs
import Repics.Lib.Transition

/-!
# What a subscription hands out

A monitor is the handle of the client library with the one item that
`recv_batch` looked at and held back.  Of the handle it is relied on that one
poll of its `recv` takes an item that is there, and that a `recv` that waits
can be dropped.
-/

namespace Repics.Ca

/-- What a stream gives: an update, an error, or its end. -/
abbrev StreamItem (Update Error : Type) : Type :=
  Option (Except Error Update)

/-- What has arrived at a handle and was not taken, and whether the stream has
ended after it. -/
structure MonitorHandle (Update Error : Type) where
  queue : List (Except Error Update)
  ended : Bool

variable {Update Error : Type}

/-- One poll of `recv`. -/
def MonitorHandle.recv (handle : MonitorHandle Update Error) :
    Option (StreamItem Update Error × MonitorHandle Update Error) :=
  match handle.queue with
  | item :: rest => some (some item, { handle with queue := rest })
  | [] => if handle.ended then some (none, handle) else none

structure Monitor (Update Error : Type) where
  handle : MonitorHandle Update Error
  stashed : Option (StreamItem Update Error)

/-- The cap of a batch; `usize::MAX` stands for none. -/
def batchCap (maxItems : Nat) : Nat :=
  if maxItems = 0 then 2 ^ 64 - 1 else maxItems

namespace Monitor

/-- One poll of `next`. -/
def next (monitor : Monitor Update Error) :
    Option (StreamItem Update Error × Monitor Update Error) :=
  match monitor.stashed with
  | some item => some (item, { monitor with stashed := none })
  | none => monitor.handle.recv.map fun taken =>
      (taken.1, { monitor with handle := taken.2 })

/-- The next item if it is already there. -/
def tryNext (monitor : Monitor Update Error) :
    Option (StreamItem Update Error × Monitor Update Error) :=
  match monitor.stashed with
  | some item => some (item, { monitor with stashed := none })
  | none => monitor.handle.recv.map fun taken =>
      (taken.1, { monitor with handle := taken.2 })

/-- Everything that is there, in order. -/
def held (monitor : Monitor Update Error) :
    List (StreamItem Update Error) :=
  monitor.stashed.toList ++ monitor.handle.queue.map some

/-- An item arrives. -/
def push (monitor : Monitor Update Error) (item : Except Error Update) :
    Monitor Update Error :=
  { monitor with
    handle := { monitor.handle with queue := monitor.handle.queue ++ [item] } }

/-- Nothing more arrives. -/
def finish (monitor : Monitor Update Error) : Monitor Update Error :=
  { monitor with handle := { monitor.handle with ended := true } }

/-- Keep an item for the next call. -/
def stash (monitor : Monitor Update Error)
    (item : StreamItem Update Error) : Monitor Update Error :=
  { monitor with stashed := some item }

/-- The loop behind the first item of a batch, when nothing arrives while it
runs. -/
def fill : Nat → Monitor Update Error → List Update × Monitor Update Error
  | 0, monitor => ([], monitor)
  | room + 1, monitor =>
      match monitor.tryNext with
      | none => ([], monitor)
      | some (some (.ok update), rest) =>
          (update :: (fill room rest).1, (fill room rest).2)
      | some (other, rest) => ([], rest.stash other)

end Monitor

/-- The `timeout` of a call; `Duration::from_secs_f64` panics on one that is
too long. -/
inductive Timeout where
  | never
  | seconds
  | unrepresentable
  deriving DecidableEq

/-- A call of `recv` or `recv_batch`. -/
inductive ReceiveCall where
  | recv (timeout : Timeout)
  | recvBatch (maxItems : Nat) (timeout : Timeout)
  deriving DecidableEq

def ReceiveCall.timeout : ReceiveCall → Timeout
  | .recv timeout => timeout
  | .recvBatch _ timeout => timeout

/-- How a call ends. -/
inductive Received (Update Error : Type) where
  | update (update : Update)
  | error (error : Error)
  | none
  | batch (maxItems : Nat) (updates : List Update)
  | timedOut
  | panicked

/-- What a call produces of the stream. -/
def Received.items : Received Update Error →
    List (StreamItem Update Error)
  | .update given => [some (.ok given)]
  | .error given => [some (.error given)]
  | .none => [Option.none]
  | .batch _ updates => updates.map fun given => some (.ok given)
  | .timedOut | .panicked => []

/-- No batch is empty or larger than it may be. -/
def Received.Sized : Received Update Error → Prop
  | .batch maxItems updates =>
      updates ≠ [] ∧ (maxItems = 0 ∨ updates.length ≤ maxItems)
  | _ => True

namespace Receiving

/-- Where the call is: before or after its first poll, or with a batch that
has a first update. -/
inductive Phase (Update : Type) where
  | idle
  | calling (call : ReceiveCall) (polled : Bool)
  | gathering (maxItems : Nat) (updates : List Update)

/-- A subscription with the calls that have returned, and all that has arrived
so far. -/
structure State (Update Error : Type) where
  monitor : Monitor Update Error
  phase : Phase Update
  returned : List (Received Update Error)
  arrived : List (Except Error Update)

inductive Label (Update Error : Type) where
  | arrive (item : Except Error Update)
  | finish
  | call (call : ReceiveCall)
  | poll
  | look
  | giveUp

namespace State

variable (state : State Update Error)

/-- The call returns. -/
def give (received : Received Update Error) : State Update Error :=
  { state with phase := .idle, returned := state.returned ++ [received] }

/-- A call goes on with the first item. -/
def first : ReceiveCall → StreamItem Update Error → State Update Error
  | _, none => state.give .none
  | _, some (.error error) => state.give (.error error)
  | .recv _, some (.ok update) => state.give (.update update)
  | .recvBatch maxItems _, some (.ok update) =>
      { state with phase := .gathering maxItems [update] }

/-- One round of the loop of a batch. -/
def look (maxItems : Nat) (updates : List Update) : State Update Error :=
  if updates.length < batchCap maxItems then
    match state.monitor.tryNext with
    | none => state.give (.batch maxItems updates)
    | some (some (.ok update), rest) =>
        { state with
          monitor := rest
          phase := .gathering maxItems (updates ++ [update]) }
    | some (other, rest) =>
        { state with monitor := rest.stash other }.give
          (.batch maxItems updates)
  else state.give (.batch maxItems updates)

def next : Label Update Error → Option (State Update Error)
  | .arrive item =>
      if state.monitor.handle.ended then none
      else some { state with
        monitor := state.monitor.push item
        arrived := state.arrived ++ [item] }
  | .finish => some { state with monitor := state.monitor.finish }
  | .call call =>
      match state.phase with
      | .idle =>
          if call.timeout = .unrepresentable then
            some (state.give .panicked)
          else some { state with phase := .calling call false }
      | _ => none
  | .poll =>
      match state.phase with
      | .calling call _ =>
          match state.monitor.next with
          | none => some { state with phase := .calling call true }
          | some (item, rest) =>
              some ({ state with monitor := rest }.first call item)
      | _ => none
  | .look =>
      match state.phase with
      | .gathering maxItems updates => some (state.look maxItems updates)
      | _ => none
  | .giveUp =>
      match state.phase with
      | .calling call true =>
          if call.timeout = .seconds then some (state.give .timedOut)
          else none
      | _ => none

/-- The updates of a batch that is not complete. -/
def inHand : List (StreamItem Update Error) :=
  match state.phase with
  | .gathering _ updates => updates.map fun update => some (.ok update)
  | _ => []

end State

/-- A new subscription. -/
def start : State Update Error :=
  ⟨⟨⟨[], false⟩, none⟩, .idle, [], []⟩

/-- The calls on a subscription run one after the other. -/
def system (Update Error : Type) :
    Transition (State Update Error) (Label Update Error) :=
  .ofPartial (· = start) State.next

/-- What the calls have produced, with what a batch has in hand and what is
still there, is what has arrived, and its end any number of times. -/
def State.Exact (state : State Update Error) : Prop :=
  ∃ ends, (0 < ends → state.monitor.handle.ended = true) ∧
    state.returned.flatMap Received.items ++ state.inHand ++
        state.monitor.held =
      state.arrived.map some ++ List.replicate ends none

/-- A batch with room leaves no update behind that is already there. -/
def Thorough (state last : State Update Error) : Prop :=
  ∀ maxItems updates,
    last.returned = state.returned ++ [.batch maxItems updates] →
    updates.length < batchCap maxItems →
      ∀ update rest, last.monitor.held ≠ some (.ok update) :: rest

end Receiving

namespace Monitor

theorem tryNext_eq (monitor : Monitor Update Error) :
    monitor.tryNext = monitor.next :=
  rfl

/-- A poll takes what is held first, or the end when nothing is. -/
theorem next_some {monitor rest : Monitor Update Error}
    {item : StreamItem Update Error}
    (taken : monitor.next = some (item, rest)) :
    rest.stashed = none ∧ rest.handle.ended = monitor.handle.ended ∧
      (monitor.held = item :: rest.held ∨
        monitor.held = [] ∧ monitor.handle.ended = true ∧ item = none ∧
          rest = monitor) := by
  obtain ⟨⟨queue, ended⟩, stashed⟩ := monitor
  cases stashed with
  | some stash =>
      cases taken
      exact ⟨rfl, rfl, .inl rfl⟩
  | none =>
      cases queue with
      | cons first queue =>
          cases taken
          exact ⟨rfl, rfl, .inl rfl⟩
      | nil =>
          cases ended with
          | false => cases taken
          | true =>
              cases taken
              exact ⟨rfl, rfl, .inr ⟨rfl, rfl, rfl, rfl⟩⟩

theorem next_none {monitor : Monitor Update Error}
    (waits : monitor.next = none) : monitor.held = [] := by
  obtain ⟨⟨queue, ended⟩, stashed⟩ := monitor
  cases stashed with
  | some stash => cases waits
  | none =>
      cases queue with
      | cons first queue => cases waits
      | nil => rfl

theorem next_none_running {monitor : Monitor Update Error}
    (waits : monitor.next = none) : monitor.handle.ended = false := by
  obtain ⟨⟨queue, ended⟩, stashed⟩ := monitor
  cases stashed with
  | some stash => cases waits
  | none =>
      cases queue with
      | cons first queue => cases waits
      | nil =>
          cases ended with
          | false => rfl
          | true => cases waits

theorem held_push (monitor : Monitor Update Error)
    (item : Except Error Update) :
    (monitor.push item).held = monitor.held ++ [some item] := by
  rw [held, held, List.append_assoc]
  congr 1
  exact List.map_append

theorem held_stash {monitor : Monitor Update Error}
    (empty : monitor.stashed = none) (item : StreamItem Update Error) :
    (monitor.stash item).held = item :: monitor.held := by
  rw [held, held, empty]
  rfl

end Monitor

namespace Receiving

variable {state last : State Update Error}

/-- What the calls have produced, with what a batch has in hand. -/
def State.produced (state : State Update Error) :
    List (StreamItem Update Error) :=
  state.returned.flatMap Received.items ++ state.inHand

theorem State.produced_give (state : State Update Error)
    (received : Received Update Error) :
    (state.give received).produced =
      state.returned.flatMap Received.items ++ received.items := by
  simp [produced, give, inHand]

/-- The first item is produced, whether or not the call goes on. -/
theorem State.produced_first (state : State Update Error)
    (call : ReceiveCall) (item : StreamItem Update Error) :
    (state.first call item).produced =
        state.returned.flatMap Received.items ++ [item] ∧
      (state.first call item).monitor = state.monitor ∧
      (state.first call item).arrived = state.arrived := by
  cases item with
  | none => exact ⟨state.produced_give .none, rfl, rfl⟩
  | some result =>
      cases result with
      | error error => exact ⟨state.produced_give (.error error), rfl, rfl⟩
      | ok update =>
          cases call with
          | recv timeout =>
              exact ⟨state.produced_give (.update update), rfl, rfl⟩
          | recvBatch maxItems timeout => exact ⟨rfl, rfl, rfl⟩

/-- What a step does: an item arrives, or what was produced and what is held
move against each other, and the end may be produced again. -/
inductive Moved (state last : State Update Error) : Prop where
  | arrived (item : Except Error Update) :
      state.monitor.handle.ended = false →
      last.produced = state.produced →
      last.monitor.held = state.monitor.held ++ [some item] →
      last.arrived = state.arrived ++ [item] → Moved state last
  | kept :
      (state.monitor.handle.ended = true →
        last.monitor.handle.ended = true) →
      last.produced ++ last.monitor.held =
        state.produced ++ state.monitor.held →
      last.arrived = state.arrived → Moved state last
  | ended :
      state.monitor.handle.ended = true →
      last.monitor.handle.ended = true →
      last.produced ++ last.monitor.held =
        state.produced ++ state.monitor.held ++ [none] →
      last.arrived = state.arrived → Moved state last

theorem Moved.taken {rest : Monitor Update Error}
    {item : StreamItem Update Error}
    (taken : state.monitor.next = some (item, rest))
    (ended : last.monitor.handle.ended = rest.handle.ended)
    (moved : last.produced ++ last.monitor.held =
      state.produced ++ item :: rest.held)
    (same : last.arrived = state.arrived) : Moved state last := by
  obtain ⟨-, kept, front | ⟨empty, finished, rfl, rfl⟩⟩ :=
    Monitor.next_some taken
  · refine .kept (fun finished => ?_) ?_ same
    · rw [ended, kept, finished]
    · rw [moved, front]
  · refine .ended finished (ended.trans finished) ?_ same
    rw [moved, empty, List.append_nil]

theorem moved_look (maxItems : Nat) (updates : List Update)
    (phase : state.phase = .gathering maxItems updates) :
    Moved state (state.look maxItems updates) := by
  have inHand : state.produced = state.returned.flatMap Received.items ++
      updates.map fun update => some (.ok update) := by
    rw [State.produced, State.inHand, phase]
  have given : Moved state (state.give (.batch maxItems updates)) := by
    refine .kept id ?_ rfl
    rw [State.produced_give, inHand]
    rfl
  unfold State.look
  by_cases room : updates.length < batchCap maxItems
  · rw [if_pos room, Monitor.tryNext_eq]
    split
    · exact given
    · next update rest taken =>
        refine .taken taken rfl ?_ rfl
        simp [State.produced, State.inHand, phase]
    · next other rest _ taken =>
        have empty := (Monitor.next_some taken).1
        refine .taken taken rfl ?_ rfl
        have held : (State.give { state with monitor := rest.stash other }
            (.batch maxItems updates)).monitor.held = other :: rest.held :=
          Monitor.held_stash empty other
        rw [held, State.produced_give, inHand]
        rfl
  · rw [if_neg room]
    exact given

/-- What a step can be. -/
inductive Stepped (state : State Update Error) :
    State Update Error → Prop where
  | arrived (item : Except Error Update) :
      state.monitor.handle.ended = false →
      Stepped state { state with
        monitor := state.monitor.push item
        arrived := state.arrived ++ [item] }
  | finished : Stepped state { state with monitor := state.monitor.finish }
  | waits (call : ReceiveCall) (polled : Bool) :
      (∀ maxItems updates, state.phase ≠ .gathering maxItems updates) →
      Stepped state { state with phase := .calling call polled }
  | gone (received : Received Update Error) :
      received = .panicked ∨ received = .timedOut →
      (∀ maxItems updates, state.phase ≠ .gathering maxItems updates) →
      Stepped state (state.give received)
  | answered (call : ReceiveCall) (item : StreamItem Update Error)
      (rest : Monitor Update Error) :
      (∀ maxItems updates, state.phase ≠ .gathering maxItems updates) →
      state.monitor.next = some (item, rest) →
      Stepped state ({ state with monitor := rest }.first call item)
  | looked (maxItems : Nat) (updates : List Update) :
      state.phase = .gathering maxItems updates →
      Stepped state (state.look maxItems updates)

theorem step_cases {label : Label Update Error}
    (step : state.next label = some last) : Stepped state last := by
  cases label with
  | arrive item =>
      obtain ⟨running, same⟩ := Option.ite_none_left_eq_some.mp step
      obtain rfl := Option.some.inj same
      exact .arrived item (Bool.eq_false_iff.mpr running)
  | finish =>
      obtain rfl := Option.some.inj step
      exact .finished
  | call call =>
      simp only [State.next] at step
      split at step
      · next idle =>
          have notGathering (maxItems : Nat) (updates : List Update) :
              state.phase ≠ .gathering maxItems updates := by
            rw [idle]
            nofun
          split at step
          · obtain rfl := Option.some.inj step
            exact .gone .panicked (.inl rfl) notGathering
          · obtain rfl := Option.some.inj step
            exact .waits call false notGathering
      · cases step
  | poll =>
      simp only [State.next] at step
      split at step
      · next call polled calling =>
          have notGathering (maxItems : Nat) (updates : List Update) :
              state.phase ≠ .gathering maxItems updates := by
            rw [calling]
            nofun
          split at step
          · obtain rfl := Option.some.inj step
            exact .waits call true notGathering
          · next item rest taken =>
              obtain rfl := Option.some.inj step
              exact .answered call item rest notGathering taken
      · cases step
  | look =>
      simp only [State.next] at step
      split at step
      · next maxItems updates gathering =>
          obtain rfl := Option.some.inj step
          exact .looked maxItems updates gathering
      · cases step
  | giveUp =>
      simp only [State.next] at step
      split at step
      · next call calling =>
          obtain ⟨-, same⟩ := Option.ite_none_right_eq_some.mp step
          obtain rfl := Option.some.inj same
          refine .gone .timedOut (.inr rfl) ?_
          rw [calling]
          nofun
      · cases step

theorem State.produced_of_phase {state : State Update Error}
    (phase : ∀ maxItems updates,
      state.phase ≠ .gathering maxItems updates) :
    state.produced = state.returned.flatMap Received.items := by
  rw [State.produced, State.inHand]
  split
  · next maxItems updates gathering =>
      exact absurd gathering (phase maxItems updates)
  · exact List.append_nil _

theorem Stepped.moved (stepped : Stepped state last) : Moved state last := by
  cases stepped with
  | arrived item running =>
      exact .arrived item running rfl
        (Monitor.held_push state.monitor item) rfl
  | finished => exact .kept (fun _ => rfl) rfl rfl
  | waits call polled phase =>
      refine .kept id ?_ rfl
      rw [State.produced_of_phase phase]
      rw [State.produced_of_phase (by exact fun _ _ => nofun)]
  | gone received is phase =>
      have nothing : received.items = [] := by
        rcases is with rfl | rfl <;> rfl
      refine .kept id ?_ rfl
      rw [State.produced_give, nothing, State.produced_of_phase phase,
        List.append_nil]
      rfl
  | answered call item rest phase taken =>
      obtain ⟨produced, monitor, arrived⟩ :=
        State.produced_first { state with monitor := rest } call item
      refine .taken taken (by rw [monitor]) ?_ arrived
      rw [produced, monitor, State.produced_of_phase phase,
        List.append_assoc]
      rfl
  | looked maxItems updates phase => exact moved_look maxItems updates phase

theorem Moved.exact (moved : Moved state last) (exact_ : state.Exact) :
    last.Exact := by
  obtain ⟨ends, finished, stream⟩ := exact_
  cases moved with
  | arrived item running produced held arrived =>
      have none_ : ends = 0 := by
        refine Nat.eq_zero_of_not_pos fun positive => ?_
        have ended := finished positive
        rw [running] at ended
        cases ended
      subst none_
      refine ⟨0, fun positive => absurd positive (Nat.lt_irrefl 0), ?_⟩
      rw [List.replicate_zero, List.append_nil] at stream ⊢
      rw [arrived, List.map_append, ← stream]
      show last.produced ++ last.monitor.held = _
      rw [produced, held, ← List.append_assoc]
      rfl
  | kept ended same arrived =>
      refine ⟨ends, fun positive => ended (finished positive), ?_⟩
      rw [arrived, ← stream]
      exact same
  | ended before after same arrived =>
      refine ⟨ends + 1, fun _ => after, ?_⟩
      rw [arrived, List.replicate_succ', ← List.append_assoc, ← stream]
      exact same

/-- Every batch fits, also one that is not complete. -/
def State.Within (state : State Update Error) : Prop :=
  (∀ received ∈ state.returned, received.Sized) ∧
    ∀ maxItems updates, state.phase = .gathering maxItems updates →
      updates ≠ [] ∧ updates.length ≤ batchCap maxItems

theorem batchCap_pos (maxItems : Nat) : 0 < batchCap maxItems := by
  unfold batchCap
  split
  · decide
  · next some => exact Nat.pos_of_ne_zero some

theorem sized_of_cap {maxItems : Nat} {updates : List Update}
    (some : updates ≠ []) (fits : updates.length ≤ batchCap maxItems) :
    (Received.batch maxItems updates : Received Update Error).Sized := by
  refine ⟨some, ?_⟩
  by_cases unlimited : maxItems = 0
  · exact .inl unlimited
  · rw [batchCap, if_neg unlimited] at fits
    exact .inr fits

theorem State.Within.give {other : State Update Error}
    (within : state.Within) (same : other.returned = state.returned)
    {received : Received Update Error} (sized : received.Sized) :
    (other.give received).Within := by
  refine ⟨fun given member => ?_, nofun⟩
  rw [State.give, same] at member
  rcases List.mem_append.mp member with earlier | now
  · exact within.1 given earlier
  · rw [List.mem_singleton.mp now]
    exact sized

theorem State.Within.idle {other : State Update Error}
    (within : state.Within) (same : other.returned = state.returned)
    (phase : ∀ maxItems updates,
      other.phase ≠ .gathering maxItems updates) : other.Within := by
  refine ⟨fun given member => within.1 given (same ▸ member), ?_⟩
  intro maxItems updates is
  exact absurd is (phase maxItems updates)

theorem State.Within.first (within : state.Within) (call : ReceiveCall)
    (item : StreamItem Update Error) (rest : Monitor Update Error) :
    ({ state with monitor := rest }.first call item).Within := by
  cases item with
  | none => exact within.give rfl trivial
  | some result =>
      cases result with
      | error error => exact within.give rfl trivial
      | ok update =>
          cases call with
          | recv timeout => exact within.give rfl trivial
          | recvBatch maxItems timeout =>
              refine ⟨within.1, ?_⟩
              rintro _ _ ⟨⟩
              exact ⟨nofun, batchCap_pos maxItems⟩

theorem State.Within.look (within : state.Within) {maxItems : Nat}
    {updates : List Update}
    (phase : state.phase = .gathering maxItems updates) :
    (state.look maxItems updates).Within := by
  obtain ⟨some, fits⟩ := within.2 maxItems updates phase
  have sized : (Received.batch maxItems updates :
      Received Update Error).Sized := sized_of_cap some fits
  unfold State.look
  by_cases room : updates.length < batchCap maxItems
  · rw [if_pos room]
    split
    · exact within.give rfl sized
    · next update rest _ =>
        refine ⟨within.1, ?_⟩
        rintro _ _ ⟨⟩
        refine ⟨by simp, ?_⟩
        rw [List.length_append]
        exact room
    · exact within.give rfl sized
  · rw [if_neg room]
    exact within.give rfl sized

theorem State.Within.step (within : state.Within)
    (stepped : Stepped state last) : last.Within := by
  cases stepped with
  | arrived item running => exact within
  | finished => exact within
  | waits call polled phase => exact within.idle rfl nofun
  | gone received is phase =>
      apply within.give rfl
      rcases is with rfl | rfl <;> trivial
  | answered call item rest phase taken => exact within.first call item rest
  | looked maxItems updates phase => exact within.look phase

theorem Stepped.batch (stepped : Stepped state last) {maxItems : Nat}
    {updates : List Update}
    (given : last.returned = state.returned ++ [.batch maxItems updates]) :
    ∃ maxItems updates, state.phase = .gathering maxItems updates ∧
      last = state.look maxItems updates := by
  have shorter (other : State Update Error)
      (same : other.returned = state.returned) :
      other.returned ≠ state.returned ++ [.batch maxItems updates] := by
    rw [same]
    simp
  have different (other : State Update Error)
      (same : other.returned = state.returned)
      (received : Received Update Error)
      (apart : received ≠ .batch maxItems updates) :
      (other.give received).returned ≠
        state.returned ++ [.batch maxItems updates] := by
    rw [State.give, same]
    simpa using apart
  cases stepped with
  | arrived item running => exact absurd given (shorter _ rfl)
  | finished => exact absurd given (shorter _ rfl)
  | waits call polled phase => exact absurd given (shorter _ rfl)
  | gone received is phase =>
      refine absurd given (different _ rfl _ ?_)
      rcases is with rfl | rfl <;> nofun
  | answered call item rest phase taken =>
      cases item with
      | none => exact absurd given (different _ rfl _ nofun)
      | some result =>
          cases result with
          | error error => exact absurd given (different _ rfl _ nofun)
          | ok update =>
              cases call with
              | recv timeout => exact absurd given (different _ rfl _ nofun)
              | recvBatch maxItems timeout =>
                  exact absurd given (shorter _ rfl)
  | looked maxItems updates phase => exact ⟨maxItems, updates, phase, rfl⟩

/-- A round of the loop goes on, or it returns the batch because that is full
or because nothing it could take is there. -/
theorem look_cases (state : State Update Error) (maxItems : Nat)
    (updates : List Update) :
    (state.look maxItems updates).returned = state.returned ∨
      ∃ monitor, state.look maxItems updates =
          { state with monitor := monitor }.give (.batch maxItems updates) ∧
        (batchCap maxItems ≤ updates.length ∨
          ∀ update rest, monitor.held ≠ some (.ok update) :: rest) := by
  unfold State.look
  split
  · split
    · next waits =>
        refine .inr ⟨state.monitor, rfl, .inr fun update rest => ?_⟩
        rw [Monitor.next_none waits]
        nofun
    · exact .inl rfl
    · next item rest other taken =>
        refine .inr ⟨rest.stash item, rfl, .inr fun update later front => ?_⟩
        rw [Monitor.held_stash (Monitor.next_some taken).1] at front
        exact other update (List.cons.inj front).1
  · next full => exact .inr ⟨state.monitor, rfl, .inl (Nat.not_lt.mp full)⟩

theorem Stepped.thorough (stepped : Stepped state last) :
    Thorough state last := by
  intro maxItems updates given room
  obtain ⟨gathered, inHand, -, rfl⟩ := stepped.batch given
  rcases look_cases state gathered inHand with same | ⟨monitor, is, why⟩
  · rw [same] at given
    simp at given
  · rw [is] at given ⊢
    obtain ⟨rfl, rfl⟩ : gathered = maxItems ∧ inHand = updates := by
      simpa [State.give] using given
    rcases why with full | nothing
    · exact absurd room (Nat.not_lt.mpr full)
    · exact nothing

/-- When nothing arrives meanwhile, the loop of a batch is `fill`. -/
theorem fill_run (state : State Update Error) (maxItems : Nat)
    (updates : List Update)
    (phase : state.phase = .gathering maxItems updates) {room : Nat}
    (left : updates.length + room = batchCap maxItems) :
    ∃ looks, (system Update Error).Run state (List.replicate looks .look)
      ({ state with monitor := (state.monitor.fill room).2 }.give
        (.batch maxItems (updates ++ (state.monitor.fill room).1))) := by
  have step : state.next .look = some (state.look maxItems updates) := by
    simp only [State.next, phase]
  have last {end_ : State Update Error}
      (is : state.look maxItems updates = end_) :
      ∃ looks, (system Update Error).Run state
        (List.replicate looks .look) end_ :=
    ⟨1, .cons (step.trans (congrArg some is)) (.nil end_)⟩
  induction room generalizing state updates with
  | zero =>
      rw [Monitor.fill, List.append_nil]
      apply last
      rw [State.look, if_neg (Nat.not_lt.mpr (by omega))]
  | succ room induction =>
      have within : updates.length < batchCap maxItems := by omega
      rw [Monitor.fill]
      cases taken : state.monitor.tryNext with
      | none =>
          rw [List.append_nil]
          apply last
          simp only [State.look, if_pos within, taken]
      | some found =>
          obtain ⟨item, rest⟩ := found
          cases item with
          | none =>
              rw [List.append_nil]
              apply last
              simp only [State.look, if_pos within, taken]
          | some result =>
              cases result with
              | error error =>
                  rw [List.append_nil]
                  apply last
                  simp only [State.look, if_pos within, taken]
              | ok update =>
                  have longer : (updates ++ [update]).length + room =
                      batchCap maxItems := by
                    rw [List.length_append, List.length_singleton]
                    omega
                  obtain ⟨looks, run⟩ := induction
                    ⟨rest, .gathering maxItems (updates ++ [update]),
                      state.returned, state.arrived⟩
                    (updates ++ [update]) rfl longer rfl
                    fun is => ⟨1, .cons (congrArg some is) (.nil _)⟩
                  refine ⟨looks + 1, ?_⟩
                  have looked : state.look maxItems updates =
                      ⟨rest, .gathering maxItems (updates ++ [update]),
                        state.returned, state.arrived⟩ := by
                    simp only [State.look, if_pos within, taken]
                  rw [looked] at step
                  rw [List.append_assoc] at run
                  exact .cons step run

/-- Whatever arrives, however the calls are capped and however they time out,
what they produce is the stream in order, no batch is empty or too large, and
none leaves out an update that it could have taken. -/
theorem receives_exactly {state : State Update Error}
    (reachable : (system Update Error).Reachable state) :
    state.Exact ∧ (∀ received ∈ state.returned, received.Sized) ∧
      ∀ label last, (system Update Error).step state label last →
        Thorough state last := by
  have invariant : (system Update Error).Invariant fun state =>
      state.Exact ∧ state.Within := by
    constructor
    · rintro _ rfl
      exact ⟨⟨0, nofun, rfl⟩, nofun, nofun⟩
    · rintro state label last ⟨exact_, within⟩ step
      have stepped := step_cases step
      exact ⟨stepped.moved.exact exact_, within.step stepped⟩
  obtain ⟨exact_, within⟩ := invariant.reachable reachable
  exact ⟨exact_, within.1, fun label last step => (step_cases step).thorough⟩

/-- Two updates and an error, and the calls that take them. -/
def errorBehindBatch : List (Label Nat String) :=
  [.arrive (.ok 1), .call (.recvBatch 0 .never), .poll, .arrive (.ok 2),
    .look, .arrive (.error "lost"), .look, .call (.recv .seconds), .poll,
    .call (.recv .seconds), .poll, .giveUp]

theorem errorBehindBatch_possible :
    (errorBehindBatch.foldlM State.next start).isSome = true :=
  rfl

/-- The error ends the batch and is raised by the next call. -/
theorem errorBehindBatch_received :
    let last := (errorBehindBatch.foldlM State.next start).get
      errorBehindBatch_possible
    last.returned = [.batch 0 [1, 2], .error "lost", .timedOut] ∧
      last.Exact ∧ (∀ received ∈ last.returned, received.Sized) ∧
        ∀ label next, (system Nat String).step last label next →
          Thorough last next :=
  ⟨rfl, receives_exactly (.of_foldlM
    (show (system Nat String).init start from rfl) errorBehindBatch
    errorBehindBatch_possible)⟩

end Receiving

end Repics.Ca
