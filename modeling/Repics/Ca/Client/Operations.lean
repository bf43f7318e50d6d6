import Repics.Ca.Client.Readback
import Repics.Lib.SideBySide

/-!
# Operations on channels

A read, a write and the wait for a connection are futures: each waits for its
channel, asks for the access rights, hands one request to the client library
and waits for the answer, all of it within its timeout.  The library moves the
channels, answers and fails by itself.  An operation on a list spawns one task
for each entry and waits for the tasks in the order of the list.
-/

namespace Repics.Ca.Operations

/-- `_defmsg` -/
def defmsg (sev num : Nat) : Nat :=
  num <<< 3 &&& 0x0000FFF8 ||| sev &&& 0x00000007

def ecaNormal : Nat := defmsg 1 0
def ecaTimeout : Nat := defmsg 0 10
def ecaInternal : Nat := defmsg (2 ||| 4) 17
def ecaDisconn : Nat := defmsg 0 24
def ecaNordaccess : Nat := defmsg 0 46
def ecaNowtaccess : Nat := defmsg 0 47

inductive CaOp where
  | read
  | write
  deriving DecidableEq

/-- The errors of the client library; `other` is for those that `map_ca_op`
does not name. -/
inductive RsCaError where
  | timeout
  | channelNotFound (name : String)
  | disconnected
  | shutdown
  | serverError (code : Nat)
  | writeFailed (code : Nat)
  | other (text : String)
  deriving DecidableEq

inductive Family where
  | caError
  | caTimeout
  | caDisconnected
  deriving DecidableEq

/-- A `CaError`, with its message and its ECA status. -/
structure CaError where
  family : Family
  message : String
  status : Nat
  deriving DecidableEq

/-- What is used of the client library beside its answers: how errors, codes
and seconds are shown, the status of the other errors, and the error for the
type of a channel that has no circuit. -/
structure Library (Double : Type) where
  shown : RsCaError → String
  ecaMessage : Nat → String
  ecaStatus : RsCaError → CaOp → Nat
  seconds : Double → String
  unconnected : RsCaError

namespace Library

variable {Double : Type} (lib : Library Double)

def mapCaOp (error : RsCaError) (op : CaOp) : CaError :=
  match error with
  | .timeout | .channelNotFound _ =>
      ⟨.caTimeout, lib.shown error, ecaTimeout⟩
  | .disconnected | .shutdown =>
      ⟨.caDisconnected, lib.shown error, ecaDisconn⟩
  | .serverError code | .writeFailed code =>
      if code = ecaDisconn then
        ⟨.caDisconnected, lib.ecaMessage code, code⟩
      else ⟨.caError, lib.ecaMessage code, code⟩
  | .other _ => ⟨.caError, lib.shown error, lib.ecaStatus error op⟩

def mapCa (error : RsCaError) : CaError :=
  lib.mapCaOp error .read

def mapCaWrite (error : RsCaError) : CaError :=
  lib.mapCaOp error .write

def timeoutErr (secs : Double) : CaError :=
  ⟨.caTimeout, "timed out after " ++ lib.seconds secs ++ " s", ecaTimeout⟩

def accessDenied (op : CaOp) : CaError :=
  let code := if op = .write then ecaNowtaccess else ecaNordaccess
  ⟨.caError, lib.ecaMessage code, code⟩

end Library

/-- `join_error` -/
def joinError (panic : String) : CaError :=
  ⟨.caError, "task failed: " ++ panic, ecaInternal⟩

/-- What the library has of a channel: the type and the element count while
there is a circuit, and the access rights. -/
structure Channel where
  native : Option (Dbr × Nat)
  read : Bool
  write : Bool

def Channel.allows (channel : Channel) : CaOp → Bool
  | .read => channel.read
  | .write => channel.write

/-- The channels by their handles; two names may share one. -/
abbrev Channels := Nat → Channel

/-- What happens to a channel. -/
inductive Move where
  | connected (channel : Nat) (dbr : Dbr) (count : Nat)
  | lost (channel : Nat)
  | rights (channel : Nat) (read write : Bool)

def Channels.move (channels : Channels) : Move → Channels
  | .connected handle dbr count => fun other =>
      if other = handle then
        { channels handle with native := some (dbr, count) }
      else channels other
  | .lost handle => fun other =>
      if other = handle then { channels handle with native := none }
      else channels other
  | .rights handle read write => fun other =>
      if other = handle then
        { channels handle with read := read, write := write }
      else channels other

/-- A channel may move at any time. -/
def Channels.next (channels : Channels) (move : Move) : Option Channels :=
  some (channels.move move)

variable {Double Put : Type}

/-- What an operation asks for; a write has its value as it goes to the
library. -/
inductive Op (Put : Type) where
  | connect
  | get (request : DbrRequest) (count : Int)
  | put (value : Put) (wait : Bool)

def Op.kind : Op Put → CaOp
  | .put _ _ => .write
  | _ => .read

/-- The timeout: `wait_connected` has its own, reported as a channel that was
not found, and the others are `bounded`. -/
def Op.late (lib : Library Double) (name : String) (secs : Double) :
    Op Put → CaError
  | .connect => lib.mapCa (.channelNotFound name)
  | _ => lib.timeoutErr secs

/-- What is handed to the library. -/
inductive Request (Put : Type) where
  | read (code : Nat) (count : ReqCount)
  | write (value : Put) (wait : Bool)

/-- What a task comes to; `none` is a wait or a write that is done. -/
abbrev Outcome (Double : Type) :=
  Except CaError (Option (Snapshot Double String))

/-- What the library answers to a request; `none` is for a write. -/
abbrev Answer (Double : Type) :=
  Except RsCaError (Option (RsSnapshot Double String))

inductive Ended (Double : Type) where
  | returned (outcome : Outcome Double)
  | panicked (text : String)

/-- Where a future is: not polled yet, waiting for the connection, waiting for
`info`, allowed to go on, waiting for the answer, or at its end. -/
inductive Stage (Double : Type) where
  | ready
  | connecting
  | asking
  | allowed
  | handed
  | ended (ended : Ended Double)

/-- A task.  `issued` and `answers` are kept for the record: what was handed to
the library and what was answered. -/
structure Task (Double Put : Type) where
  name : String
  channel : Nat
  op : Op Put
  timeout : Option Double
  stage : Stage Double
  issued : List (Request Put)
  answers : List (Answer Double)

/-- What a task does, by itself or with what the library says. -/
inductive Act (Double : Type) where
  | poll
  | joined
  | informed
  | issue
  | answered (answer : Answer Double)
  | failed (error : RsCaError)
  | expire
  | panic (text : String)

/-- The base type of `do_get`. -/
def baseOf (request : DbrRequest) (native : Dbr) : Dbr :=
  match request.base with
  | some base => base
  | none =>
      if request.enumAsString ∧ native = .enum then .string else native

namespace Task

variable (lib : Library Double) (task : Task Double Put)

def go (stage : Stage Double) : Task Double Put :=
  { task with stage := stage }

def finish (outcome : Outcome Double) : Task Double Put :=
  task.go (.ended (.returned outcome))

def hand (request : Request Put) : Task Double Put :=
  { task with stage := .handed, issued := task.issued ++ [request] }

def take (answer : Answer Double) (outcome : Outcome Double) :
    Task Double Put :=
  { task with
    stage := .ended (.returned outcome)
    answers := task.answers ++ [answer] }

/-- The first poll.  A wait for the connection always asks the library, and
`ensure_connected` only when there is no type. -/
def poll (channel : Channel) : Task Double Put :=
  match task.op, channel.native with
  | .connect, _ | _, none => task.go .connecting
  | _, some _ => task.go .asking

/-- The library says that the channel is connected. -/
def join : Task Double Put :=
  match task.op with
  | .connect => task.finish (.ok none)
  | _ => task.go .asking

/-- The access gate. -/
def gate (channel : Channel) : Task Double Put :=
  if channel.allows task.op.kind then task.go .allowed
  else task.finish (.error (lib.accessDenied task.op.kind))

/-- `do_get` and `do_put` after the gate. -/
def issue (channel : Channel) : Option (Task Double Put) :=
  match task.op, channel.native with
  | .connect, _ => none
  | .get _ _, none =>
      some (task.finish (.error (lib.mapCa lib.unconnected)))
  | .get request count, some (native, elementCount) =>
      match readCount (.ok elementCount) count with
      | .error error => some (task.finish (.error (lib.mapCa error)))
      | .ok amount =>
          some (task.hand
            (.read ((baseOf request native).code + request.offset) amount))
  | .put value wait, _ => some (task.hand (.write value wait))

/-- The answer of the library becomes the outcome. -/
def answered (answer : Answer Double) : Option (Task Double Put) :=
  match task.op, answer with
  | .get _ _, .ok (some snap) =>
      some (task.take answer (.ok (some (Snapshot.fromRs task.name snap))))
  | .put _ _, .ok none => some (task.take answer (.ok none))
  | .get _ _, .error error =>
      some (task.take answer (.error (lib.mapCa error)))
  | .put _ _, .error error =>
      some (task.take answer (.error (lib.mapCaWrite error)))
  | _, _ => none

/-- One act of a task, with its channel as it is. -/
def act (channel : Channel) (task : Task Double Put) :
    Act Double → Option (Task Double Put)
  | .poll =>
      match task.stage with
      | .ready => some (task.poll channel)
      | _ => none
  | .joined =>
      match task.stage, channel.native with
      | .connecting, some _ => some task.join
      | _, _ => none
  | .informed =>
      match task.stage, channel.native with
      | .asking, some _ => some (task.gate lib channel)
      | _, _ => none
  | .issue =>
      match task.stage with
      | .allowed => task.issue lib channel
      | _ => none
  | .answered answer =>
      match task.stage with
      | .handed => task.answered lib answer
      | _ => none
  | .failed error =>
      match task.stage with
      | .connecting | .asking =>
          some (task.finish (.error (lib.mapCa error)))
      | _ => none
  | .expire =>
      match task.stage, task.timeout with
      | .connecting, some secs | .asking, some secs | .handed, some secs =>
          some (task.finish (.error (task.op.late lib task.name secs)))
      | _, _ => none
  | .panic text =>
      match task.stage with
      | .ended _ => none
      | _ => some (task.go (.ended (.panicked text)))

/-- What `join_all` takes from a task that has ended. -/
def outcome : Option (Outcome Double) :=
  match task.stage with
  | .ended (.returned outcome) => some outcome
  | .ended (.panicked text) => some (.error (joinError text))
  | _ => none

end Task

/-- The tasks, which all stand in the channels of one client. -/
def side (lib : Library Double) :
    SideBySide Channels (Task Double Put) Move (Act Double) where
  move := Channels.next
  act channels task := task.act lib (channels task.channel)

/-- A call with a list: its tasks, the outcomes that `join_all` has, and
whether the caller has given up waiting, as asyncio may. -/
structure Call (Double Put : Type) where
  channels : Channels
  tasks : List (Task Double Put)
  out : List (Outcome Double)
  abandoned : Bool

/-- A step of the channels or of a task, the next task is waited for, or the
caller gives up. -/
inductive Label (Double : Type) where
  | side (label : Move ⊕ Nat × Act Double)
  | await
  | abandon

namespace Call

variable (lib : Library Double) (call : Call Double Put)

def next : Label Double → Option (Call Double Put)
  | .side label =>
      ((side lib).nextMany (call.channels, call.tasks) label).map
        fun (channels, tasks) =>
          { call with channels := channels, tasks := tasks }
  | .await =>
      if call.abandoned then none
      else
        call.tasks[call.out.length]?.bind fun task =>
          task.outcome.map fun outcome =>
            { call with out := call.out ++ [outcome] }
  | .abandon => some { call with abandoned := true }

/-- Every task has just been spawned. -/
structure Begins : Prop where
  ready : ∀ task ∈ call.tasks, task.stage = .ready
  issued : ∀ task ∈ call.tasks, task.issued = []
  answers : ∀ task ∈ call.tasks, task.answers = []
  out : call.out = []

def system : Transition (Call Double Put) (Label Double) :=
  .ofPartial Begins (next lib)

end Call

namespace Task

variable {lib : Library Double} {task after : Task Double Put}
variable {channel : Channel}

/-- What a task is for. -/
def args (task : Task Double Put) : String × Nat × Op Put × Option Double :=
  (task.name, task.channel, task.op, task.timeout)

theorem act_args {act : Act Double}
    (step : task.act lib channel act = some after) :
    after.args = task.args := by
  cases act
  all_goals
    simp only [Task.act, poll, join, gate, issue, Task.answered] at step
    repeat' split at step
    all_goals first
      | simp at step; done
      | obtain rfl := Option.some.inj step; rfl

theorem act_outcome {act : Act Double} {outcome : Outcome Double}
    (ended : task.outcome = some outcome) :
    task.act lib channel act = none := by
  unfold Task.outcome at ended
  split at ended
  case h_3 => simp at ended
  all_goals
    rename_i stage
    cases act
    all_goals simp only [Task.act, stage]

end Task

/-- The part of a label that is about the channels and the tasks. -/
def Label.side? : Label Double → Option (Move ⊕ Nat × Act Double)
  | .side label => some label
  | _ => none

namespace Call

variable {lib : Library Double} {call first last : Call Double Put}

/-- The channels and the tasks, without the one who waits. -/
def working (call : Call Double Put) : Channels × List (Task Double Put) :=
  (call.channels, call.tasks)

/-- What a step does: the channels or a task go on as in any other call, or
only the caller does something. -/
inductive Stepped (lib : Library Double) (call last : Call Double Put) :
    Label Double → Prop where
  | side (label : Move ⊕ Nat × Act Double) :
      (side lib).many.step call.working label last.working →
      last.out = call.out → last.abandoned = call.abandoned →
      Stepped lib call last (.side label)
  | await {task : Task Double Put} {outcome : Outcome Double} :
      call.abandoned = false → call.tasks[call.out.length]? = some task →
      task.outcome = some outcome →
      last = { call with out := call.out ++ [outcome] } →
      Stepped lib call last .await
  | abandon : last = { call with abandoned := true } →
      Stepped lib call last .abandon

theorem step_cases {label : Label Double}
    (step : call.next lib label = some last) : Stepped lib call last label := by
  cases label with
  | side label =>
      simp only [next] at step
      obtain ⟨⟨channels, tasks⟩, moved, rfl⟩ :=
        Option.map_eq_some_iff.mp step
      exact .side label moved rfl rfl
  | await =>
      simp only [next] at step
      split at step
      case isTrue => simp at step
      case isFalse waiting =>
        obtain ⟨task, found, result⟩ := Option.bind_eq_some_iff.mp step
        obtain ⟨outcome, ended, rfl⟩ := Option.map_eq_some_iff.mp result
        exact .await (Bool.eq_false_iff.mpr waiting) found ended rfl
  | abandon =>
      obtain rfl := Option.some.inj step
      exact .abandon rfl

/-- A step of the channels and the tasks is one of the call, whoever waits. -/
theorem next_side {label : Move ⊕ Nat × Act Double}
    {next : Channels × List (Task Double Put)}
    (step : (side lib).many.step call.working label next) :
    call.next lib (.side label) =
      some { call with channels := next.1, tasks := next.2 } := by
  have moved : (side lib).nextMany (call.channels, call.tasks) label =
      some next := step
  simp only [Call.next, moved, Option.map_some]

theorem run_working {labels : List (Label Double)}
    (run : (system lib).Run first labels last) :
    (side lib).many.Run first.working (labels.filterMap Label.side?)
      last.working := by
  induction run with
  | nil => exact .nil _
  | snoc run step induction =>
      rw [List.filterMap_append]
      cases step_cases step with
      | side label moved => exact .snoc induction moved
      | await _ _ _ isLast =>
          rw [isLast]
          exact (List.append_nil _).symm ▸ induction
      | abandon isLast =>
          rw [isLast]
          exact (List.append_nil _).symm ▸ induction

theorem run_side {labels : List (Move ⊕ Nat × Act Double)}
    {next : Channels × List (Task Double Put)}
    (run : (side lib).many.Run first.working labels next) :
    (system lib).Run first (labels.map .side)
      { first with channels := next.1, tasks := next.2 } := by
  generalize begun : first.working = working at run
  induction run with
  | nil =>
      rw [← begun]
      exact .nil first
  | @snoc middle _ _ _ run step induction =>
      rw [List.map_append]
      refine .snoc induction ?_
      have next := @next_side _ _ lib
        { first with channels := middle.1, tasks := middle.2 } _ _ step
      exact next

theorem task_step {label : Move ⊕ Nat × Act Double}
    (moved : (side lib).many.step call.working label last.working) :
    last.tasks = call.tasks ∨
      ∃ index act task after, call.tasks[index]? = some task ∧
        task.act lib (call.channels task.channel) act = some after ∧
        last.tasks = call.tasks.set index after := by
  cases label with
  | inl move =>
      obtain ⟨_, _, same⟩ := SideBySide.many_move_iff.mp moved
      exact .inl (Prod.mk.inj same).2
  | inr label =>
      obtain ⟨index, act⟩ := label
      obtain ⟨task, after, found, acted, same⟩ :=
        SideBySide.many_act_iff.mp moved
      exact .inr ⟨index, act, task, after, found, acted,
        (Prod.mk.inj same).2⟩

theorem run_args {labels : List (Label Double)}
    (run : (system lib).Run first labels last) :
    last.tasks.map Task.args = first.tasks.map Task.args := by
  induction run with
  | nil => rfl
  | snoc _ step induction =>
      rw [← induction]
      cases step_cases step with
      | side _ moved =>
          rcases task_step moved with same | acted
          · rw [same]
          · obtain ⟨index, act, task, after, found, acted, tasks⟩ := acted
            obtain ⟨inside, isTask⟩ := List.getElem?_eq_some_iff.mp found
            rw [tasks, List.map_set, Task.act_args acted, ← isTask,
              ← List.getElem_map Task.args, List.set_getElem_self]
            rwa [List.length_map]
      | await _ _ _ isLast => rw [isLast]
      | abandon isLast => rw [isLast]

end Call

end Repics.Ca.Operations
