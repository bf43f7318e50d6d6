import Mathlib.Data.Rat.Defs
import Mathlib.Algebra.Order.Field.Rat
import Repics.Lib.Transition

/-!
# The task of one subscription

The task waits for the first connection, subscribes, and forwards what its
monitor and the events of its channel bring.  Where it waits, whatever is ready
may go on, so a step takes any branch that is open at its place.  What the
channel answers is part of the step.

An item is handed to the hub by a send, which waits for room and fails when the
hub is closed.  `sending` holds the items whose sends come next; the task takes
no branch before they are through.  `firstCount` is kept for the record: the
element count of the channel when the wait for its first connection was over.
-/

namespace Repics.Ca.Hub

/-- A floating point number, as far as a duration looks at it. -/
inductive Seconds where
  | nan
  | negativeInfinity
  | infinity
  | finite (value : ℚ)

namespace Seconds

/-- `secs.max(0.0)`; of a NaN and a number it is the number. -/
def maxZero : Seconds → Seconds
  | .nan | .negativeInfinity => .finite 0
  | .infinity => .infinity
  | .finite value => .finite (max value 0)

/-- `Duration::from_secs_f64`, which panics on what a duration cannot hold. -/
def fromSecs : Seconds → Option ℚ
  | .finite value => if 0 ≤ value ∧ value < 2 ^ 64 then some value else none
  | .nan | .negativeInfinity | .infinity => none

end Seconds

structure SubscribeArgs where
  count : Int
  connectTimeout : Option Seconds
  values : Bool
  valuesMaxCount : Option Nat

/-- The deadline of the first connection, `some none` when there is none. -/
def SubscribeArgs.deadline (args : SubscribeArgs) : Option (Option ℚ) :=
  match args.connectTimeout with
  | none => some none
  | some seconds => seconds.maxZero.fromSecs.map some

section Counts

variable {Error : Type}

def SubscribeArgs.wantValues (args : SubscribeArgs)
    (elementCount : Except Error Nat) : Bool :=
  args.values && match args.valuesMaxCount, elementCount with
    | none, _ => true
    | some most, .ok count => decide (count ≤ most)
    | some _, .error _ => false

/-- The element cap a monitor asks for. -/
def monitorCount (elementCount : Except Error Nat) (count : Int) :
    Except Error (Option Nat) :=
  if count = 0 then .ok none
  else if count < 0 then elementCount.map some
  else .ok (some (min count.toNat (2 ^ 32 - 1)))

end Counts

inductive Item (Snapshot Error : Type) where
  | value (id : Nat) (name : String) (snapshot : Snapshot)
  | error (id : Nat) (error : Error)
  | connectTimeout (id : Nat)
  | connected (id : Nat)
  | ended (id : Nat)
  | disconnected (id : Nat)
  | accessRights (id : Nat) (read write : Bool)

inductive Ctrl where
  | pause
  | resume
  | close

inductive ConnectionEvent where
  | connected
  | nativeTypeChanged
  | disconnected
  | accessRightsChanged (read write : Bool)

inductive RecvError where
  | lagged
  | closed

/-- Where the task is. -/
inductive Place where
  | probing
  | arming
  | connecting
  | counting
  | capping
  | subscribing (cap : Option Nat)
  | forwarding
  | leaving
  deriving DecidableEq

/-- What the task finds ready, with what its channel answers.  The event
stream is asked for with the probe that a lag makes. -/
inductive Branch (Snapshot Error : Type) where
  | probe (ok : Bool)
  | arm
  | connect (outcome : Except Error Unit)
  | deadline
  | event (event : Except RecvError ConnectionEvent) (ok : Bool)
  | ctrl (message : Option Ctrl)
  | count (elementCount : Except Error Nat)
  | cap (elementCount : Except Error Nat)
  | subscribe (outcome : Except Error Unit)
  | recv (item : Option (Except Error Snapshot))

inductive Label (Snapshot Error : Type) where
  | closeHub
  | sent
  | take (branch : Branch Snapshot Error)

/-- `handle` is there when the task has a monitor, and says whether that is
paused. -/
structure Task (Snapshot Error : Type) where
  id : Nat
  name : String
  args : SubscribeArgs
  place : Place
  connected : Bool
  paused : Bool
  deadline : Option ℚ
  handle : Option Bool
  sending : List (Item Snapshot Error)
  emitted : List (Item Snapshot Error)
  hubOpen : Bool
  firstCount : Option (Except Error Nat)

namespace Task

variable {Snapshot Error : Type}

def start (id : Nat) (name : String) (args : SubscribeArgs) :
    Task Snapshot Error :=
  ⟨id, name, args, .probing, false, false, none, none, [], [], true, none⟩

def send (task : Task Snapshot Error) (item : Item Snapshot Error) :
    Task Snapshot Error :=
  { task with sending := [item] }

/-- Every way out but a failed send ends with `ended`. -/
def finish (task : Task Snapshot Error)
    (notes : List (Item Snapshot Error)) : Task Snapshot Error :=
  { task with place := .leaving, sending := notes ++ [.ended task.id] }

/-- The state of the channel is forwarded as transitions only. -/
def note (task : Task Snapshot Error) (now : Bool) : Task Snapshot Error :=
  if now = task.connected then task
  else { task with
    connected := now
    sending := [if now then .connected task.id else .disconnected task.id] }

/-- `forward_event!`. -/
def forwardEvent (task : Task Snapshot Error)
    (event : Except RecvError ConnectionEvent) (ok : Bool) :
    Task Snapshot Error :=
  match event with
  | .ok .connected | .ok .nativeTypeChanged => task.note true
  | .ok .disconnected => task.note false
  | .ok (.accessRightsChanged read write) =>
      task.send (.accessRights task.id read write)
  | .error .lagged => task.note ok
  | .error .closed => task.finish []

/-- What the task does with a message of its owner.  While it waits for the
connection it remembers to pause. -/
def onCtrl (task : Task Snapshot Error) (message : Option Ctrl) :
    Task Snapshot Error :=
  match message, task.place with
  | some .pause, .connecting => { task with paused := true }
  | some .resume, .connecting => { task with paused := false }
  | some .pause, _ => { task with handle := task.handle.map fun _ => true }
  | some .resume, _ => { task with handle := task.handle.map fun _ => false }
  | some .close, _ => { task.finish [] with handle := none }
  | none, _ => { task.finish [] with handle := none }

/-- A branch, where it is open.  A panic leaves the task without a word. -/
def take (task : Task Snapshot Error) :
    Branch Snapshot Error → Option (Task Snapshot Error)
  | .probe ok =>
      if task.place = .probing then
        some ({ task with place := .arming }.note ok)
      else none
  | .arm =>
      if task.place = .arming then
        match task.args.deadline with
        | none => some { task with place := .leaving }
        | some deadline =>
            some { task with place := .connecting, deadline := deadline }
      else none
  | .connect outcome =>
      if task.place = .connecting then
        match outcome with
        | .error error => some (task.finish [.error task.id error])
        | .ok () => some ({ task with place := .counting }.note true)
      else none
  | .deadline =>
      if task.place = .connecting ∧ task.deadline.isSome then
        some ({ task with deadline := none }.send (.connectTimeout task.id))
      else none
  | .event event ok =>
      if task.place = .connecting ∨ task.place = .forwarding then
        some (task.forwardEvent event ok)
      else none
  | .ctrl message =>
      if task.place = .connecting ∨ task.place = .forwarding then
        some (task.onCtrl message)
      else none
  | .count elementCount =>
      if task.place = .counting then
        some { task with
          firstCount := some elementCount
          place := if task.args.wantValues elementCount then .capping
            else .forwarding }
      else none
  | .cap elementCount =>
      if task.place = .capping then
        match monitorCount elementCount task.args.count with
        | .error error => some (task.finish [.error task.id error])
        | .ok cap => some { task with place := .subscribing cap }
      else none
  | .subscribe outcome =>
      match task.place, outcome with
      | .subscribing _, .error error =>
          some (task.finish [.error task.id error])
      | .subscribing _, .ok () =>
          some { task with
            place := .forwarding
            handle := some task.paused }
      | _, _ => none
  | .recv item =>
      if task.place = .forwarding ∧ task.handle.isSome then
        match item with
        | none => some (task.finish [])
        | some (.ok snapshot) =>
            some (task.send (.value task.id task.name snapshot))
        | some (.error error) => some (task.send (.error task.id error))
      else none

/-- The send that is under way comes through, or fails because the hub is
closed, and then the task returns. -/
def sent (task : Task Snapshot Error) : Option (Task Snapshot Error) :=
  match task.sending with
  | [] => none
  | item :: rest =>
      if task.hubOpen then
        some { task with sending := rest, emitted := task.emitted ++ [item] }
      else some { task with place := .leaving, sending := [] }

def next (task : Task Snapshot Error) :
    Label Snapshot Error → Option (Task Snapshot Error)
  | .closeHub => some { task with hubOpen := false }
  | .sent => task.sent
  | .take branch =>
      match task.sending with
      | [] => task.take branch
      | _ :: _ => none

def Starts (task : Task Snapshot Error) : Prop :=
  ∃ id name args, task = start id name args

def system (Snapshot Error : Type) :
    Transition (Task Snapshot Error) (Label Snapshot Error) :=
  .ofPartial Starts next

variable {task after : Task Snapshot Error}

theorem next_take {branch : Branch Snapshot Error}
    (step : task.next (.take branch) = some after) :
    task.sending = [] ∧ task.take branch = some after := by
  cases idle : task.sending with
  | nil =>
      simp only [next, idle] at step
      exact ⟨rfl, step⟩
  | cons item rest => simp [next, idle] at step

theorem sent_cases (step : task.sent = some after) :
    (∃ item rest, task.sending = item :: rest ∧ task.hubOpen = true ∧
      after = { task with
        sending := rest
        emitted := task.emitted ++ [item] }) ∨
    (task.hubOpen = false ∧
      after = { task with place := .leaving, sending := [] }) := by
  cases sending : task.sending with
  | nil => simp [sent, sending] at step
  | cons item rest =>
      cases isOpen : task.hubOpen with
      | true =>
          simp only [sent, sending, isOpen, if_true, Option.some.injEq]
            at step
          exact .inl ⟨item, rest, rfl, rfl, isOpen ▸ step.symm⟩
      | false =>
          simp only [sent, sending, isOpen, Bool.false_eq_true, if_false,
            Option.some.injEq] at step
          exact .inr ⟨rfl, isOpen ▸ step.symm⟩

theorem next_cases {label : Label Snapshot Error}
    (step : task.next label = some after) :
    after = { task with hubOpen := false } ∨
    (∃ item rest, task.sending = item :: rest ∧ task.hubOpen = true ∧
      after = { task with
        sending := rest
        emitted := task.emitted ++ [item] }) ∨
    (task.hubOpen = false ∧
      after = { task with place := .leaving, sending := [] }) ∨
    ∃ branch, label = .take branch ∧ task.sending = [] ∧
      task.take branch = some after := by
  cases label with
  | closeHub => exact .inl (Option.some.inj step).symm
  | sent =>
      rcases sent_cases step with through | failed
      · exact .inr (.inl through)
      · exact .inr (.inr (.inl failed))
  | take branch => exact .inr (.inr (.inr ⟨branch, rfl, next_take step⟩))

@[simp] theorem note_connected (task : Task Snapshot Error) (now : Bool) :
    (task.note now).connected = now := by
  unfold note
  split
  · next same => exact same.symm
  · rfl

/-- A change of the connection is all that a note notes. -/
@[simp] theorem note_same (task : Task Snapshot Error) (now : Bool) :
    (task.note now).place = task.place ∧
      (task.note now).deadline = task.deadline ∧
      (task.note now).args = task.args ∧
      (task.note now).hubOpen = task.hubOpen ∧
      (task.note now).firstCount = task.firstCount := by
  unfold note
  split <;> exact ⟨rfl, rfl, rfl, rfl, rfl⟩

theorem note_place (task : Task Snapshot Error) (place : Place) (now : Bool) :
    { task with place := place }.note now =
      { task.note now with place := place } := by
  unfold note
  split <;> rfl

/-- What each branch does, and where it is open. -/
inductive Took (task : Task Snapshot Error) :
    Branch Snapshot Error → Task Snapshot Error → Prop where
  | probe (ok : Bool) : task.place = .probing →
      Took task (.probe ok) ({ task with place := .arming }.note ok)
  | overflow : task.place = .arming → task.args.deadline = none →
      Took task .arm { task with place := .leaving }
  | arm (deadline : Option ℚ) : task.place = .arming →
      task.args.deadline = some deadline →
      Took task .arm { task with place := .connecting, deadline := deadline }
  | connectFailed (error : Error) : task.place = .connecting →
      Took task (.connect (.error error)) (task.finish [.error task.id error])
  | connect : task.place = .connecting →
      Took task (.connect (.ok ())) ({ task with place := .counting }.note true)
  | deadline : task.place = .connecting → task.deadline.isSome = true →
      Took task .deadline
        ({ task with deadline := none }.send (.connectTimeout task.id))
  | event (event : Except RecvError ConnectionEvent) (ok : Bool) :
      task.place = .connecting ∨ task.place = .forwarding →
      Took task (.event event ok) (task.forwardEvent event ok)
  | ctrl (message : Option Ctrl) :
      task.place = .connecting ∨ task.place = .forwarding →
      Took task (.ctrl message) (task.onCtrl message)
  | count (elementCount : Except Error Nat) : task.place = .counting →
      Took task (.count elementCount) { task with
        firstCount := some elementCount
        place := if task.args.wantValues elementCount then .capping
          else .forwarding }
  | capFailed (elementCount : Except Error Nat) (error : Error) :
      task.place = .capping →
      Took task (.cap elementCount) (task.finish [.error task.id error])
  | cap (elementCount : Except Error Nat) (cap : Option Nat) :
      task.place = .capping →
      Took task (.cap elementCount) { task with place := .subscribing cap }
  | subscribeFailed (cap : Option Nat) (error : Error) :
      task.place = .subscribing cap →
      Took task (.subscribe (.error error))
        (task.finish [.error task.id error])
  | subscribe (cap : Option Nat) : task.place = .subscribing cap →
      Took task (.subscribe (.ok ())) { task with
        place := .forwarding
        handle := some task.paused }
  | recvEnd : task.place = .forwarding → task.handle.isSome = true →
      Took task (.recv none) (task.finish [])
  | recv (snapshot : Snapshot) : task.place = .forwarding →
      task.handle.isSome = true →
      Took task (.recv (some (.ok snapshot)))
        (task.send (.value task.id task.name snapshot))
  | recvError (error : Error) : task.place = .forwarding →
      task.handle.isSome = true →
      Took task (.recv (some (.error error)))
        (task.send (.error task.id error))

theorem Took.of_take {branch : Branch Snapshot Error}
    (step : task.take branch = some after) : Took task branch after := by
  cases branch with
  | subscribe outcome =>
      cases here : task.place with
      | subscribing cap =>
          cases outcome with
          | error error =>
              simp only [take, here, Option.some.injEq] at step
              exact step ▸ .subscribeFailed cap error here
          | ok =>
              simp only [take, here, Option.some.injEq] at step
              exact step ▸ .subscribe cap here
      | _ => simp [take, here] at step
  | arm =>
      simp only [take, Option.ite_none_right_eq_some] at step
      obtain ⟨here, step⟩ := step
      cases deadline : task.args.deadline with
      | none =>
          simp only [deadline, Option.some.injEq] at step
          exact step ▸ .overflow here deadline
      | some deadline_ =>
          simp only [deadline, Option.some.injEq] at step
          exact step ▸ .arm deadline_ here deadline
  | connect outcome =>
      simp only [take, Option.ite_none_right_eq_some] at step
      obtain ⟨here, step⟩ := step
      cases outcome with
      | error error => exact Option.some.inj step ▸ .connectFailed error here
      | ok => exact Option.some.inj step ▸ .connect here
  | cap elementCount =>
      simp only [take, Option.ite_none_right_eq_some] at step
      obtain ⟨here, step⟩ := step
      cases count : monitorCount elementCount task.args.count with
      | error error =>
          simp only [count, Option.some.injEq] at step
          exact step ▸ .capFailed elementCount error here
      | ok cap =>
          simp only [count, Option.some.injEq] at step
          exact step ▸ .cap elementCount cap here
  | recv item =>
      simp only [take, Option.ite_none_right_eq_some] at step
      obtain ⟨⟨here, has⟩, step⟩ := step
      match item with
      | none => exact Option.some.inj step ▸ .recvEnd here has
      | some (.ok snapshot) =>
          exact Option.some.inj step ▸ .recv snapshot here has
      | some (.error error) =>
          exact Option.some.inj step ▸ .recvError error here has
  | deadline =>
      simp only [take, Option.ite_none_right_eq_some, Option.some.injEq]
        at step
      exact step.2 ▸ .deadline step.1.1 step.1.2
  | probe ok =>
      simp only [take, Option.ite_none_right_eq_some, Option.some.injEq]
        at step
      exact step.2 ▸ .probe ok step.1
  | event event ok =>
      simp only [take, Option.ite_none_right_eq_some, Option.some.injEq]
        at step
      exact step.2 ▸ .event event ok step.1
  | ctrl message =>
      simp only [take, Option.ite_none_right_eq_some, Option.some.injEq]
        at step
      exact step.2 ▸ .ctrl message step.1
  | count elementCount =>
      simp only [take, Option.ite_none_right_eq_some, Option.some.injEq]
        at step
      exact step.2 ▸ .count elementCount step.1

theorem take_same {branch : Branch Snapshot Error}
    (step : task.take branch = some after) :
    after.args = task.args ∧ after.hubOpen = task.hubOpen := by
  cases Took.of_take step with
  | event event ok =>
      unfold forwardEvent
      split <;> simp [send, finish]
  | ctrl message =>
      unfold onCtrl
      split <;> simp [finish]
  | _ => simp [send, finish]

end Task

end Repics.Ca.Hub
