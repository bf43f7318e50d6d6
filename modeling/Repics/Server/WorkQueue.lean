import Repics.Lib.Transition

/-!
# Work queues

A server puts every client operation on a queue from which Python takes it.
The operation carries the slot for its answer: `done` uses the slot, and
dropping an operation whose slot is unused fails it.  The pvAccess and the
Channel Access server have the same queue with different operations, and each
has a callback and an asyncio flavour; `Front` says what differs.

An operation is always owned by exactly one of the channel, a drain loop with
its handlers, or nobody any more.
-/

namespace Repics.Server

abbrev Text := List Char

inductive OpKind where
  | put
  | rpc
  deriving DecidableEq

/-- The slot of an operation: a client waits, nobody waits, or it was used. -/
inductive Reply where
  | awaited
  | plain
  | done
  deriving DecidableEq

/-- What a client is told. -/
inductive Answer where
  | completed
  | failed (error : Text)
  | dropped
  deriving DecidableEq

/-- An operation with the answers its client was given. -/
structure Operation where
  kind : OpKind
  reply : Reply
  answers : List Answer
  once : answers.length + (if reply = .awaited then 1 else 0) ≤ 1

/-- How the servers and their flavours differ: the operations and events they
put on the queue, the error text a client sees, and whether a handler may go
on as a task. -/
structure Front where
  accepts : OpKind → Reply → Bool
  connects : Bool
  errorText : Text → Text
  tasks : Bool

/-- Every client of `run_op` waits. -/
def pva (tasks : Bool) : Front where
  accepts _ reply := decide (reply = .awaited)
  connects := true
  errorText text := text
  tasks := tasks

/-- A plain write is answered by nobody; a put callback gets a status only. -/
def ca (tasks : Bool) : Front where
  accepts kind reply := decide (kind = .put ∧ reply ≠ .done)
  connects := false
  errorText _ := "FAILED".toList
  tasks := tasks

namespace Operation

def new (kind : OpKind) (reply : Reply) : Operation where
  kind := kind
  reply := reply
  answers := []
  once := by
    simp only [List.length_nil, Nat.zero_add]
    split
    · exact Nat.le_refl 1
    · exact Nat.zero_le 1

/-- Use the slot for an answer. -/
def answer (op : Operation) (answer : Answer) : Operation :=
  if waits : op.reply = .awaited then
    { op with
      reply := .done
      answers := op.answers ++ [answer]
      once := by
        have once := op.once
        simp only [waits, if_true] at once
        simp only [List.length_append, List.length_singleton, reduceCtorEq,
          if_false]
        exact once }
  else
    { op with
      reply := .done
      once := by
        have once := op.once
        simp only [waits, if_false] at once
        simpa using once }

/-- `done()`; calling it a second time raises and changes nothing. -/
def done (front : Front) (op : Operation) (error : Option Text) :
    Operation × Option Text :=
  if op.reply = .done then (op, some "done() already called".toList)
  else
    match error with
    | none => (op.answer .completed, none)
    | some text => (op.answer (.failed (front.errorText text)), none)

/-- `fail_op` reports an exception unless the handler was done. -/
def fail (front : Front) (op : Operation) (error : Text) : Operation :=
  (op.done front (some error)).1

/-- Nobody holds the operation any more. -/
def drop (op : Operation) : Operation :=
  op.answer .dropped

/-- A client is still waiting. -/
def Unanswered (op : Operation) : Prop :=
  op.reply = .awaited

instance (op : Operation) : Decidable op.Unanswered :=
  inferInstanceAs (Decidable (op.reply = .awaited))

theorem drop_answered (op : Operation) : ¬op.drop.Unanswered := by
  simp only [drop, answer, Unanswered]
  split
  · simp
  · simp

theorem answers_length (op : Operation) : op.answers.length ≤ 1 :=
  Nat.le_trans (Nat.le_add_right _ _) op.once

end Operation

inductive Event where
  | operation (op : Operation)
  | connection

/-- Where Python is with an operation it has taken. -/
inductive Stage where
  | taken
  | running
  | task
  deriving DecidableEq

/-- What Python does with an operation next: keep it, or let go of it. -/
inductive Fate where
  | keep (stage : Stage) (op : Operation)
  | release (op : Operation)

/-- `entered` and `polled` count the calls of `recv` in progress: those that
wait, and those that have seen that the queue is not stopped and are about to
take an event.  `held` is what Python has taken, `finished` what it has let
go of. -/
structure WorkQueue where
  channel : List Event
  stopped : Bool
  entered : Nat
  polled : Nat
  held : List (Stage × Operation)
  finished : List Operation

inductive Step where
  | arrive (kind : OpKind) (reply : Reply)
  | connect
  | recv
  | poll
  | take
  | abandon
  | discard (index : Nat)
  | deliver (index : Nat) (pvAlive handled : Bool)
  | callDone (index : Nat) (error : Option Text)
  | returns (index : Nat)
  | raises (index : Nat) (error : Text)
  | spawn (index : Nat)
  | finish (index : Nat) (failure : Option Text)
  | stop

namespace WorkQueue

def unsupported : OpKind → Text
  | .put => "Put not supported".toList
  | .rpc => "RPC not supported".toList

/-- Python acts on one operation it holds. -/
def act (queue : WorkQueue) (index : Nat)
    (next : Stage → Operation → Option Fate) : Option WorkQueue :=
  match queue.held[index]? with
  | none => none
  | some (stage, op) =>
      match next stage op with
      | none => none
      | some (.keep stage op) =>
          some { queue with held := queue.held.set index (stage, op) }
      | some (.release op) => some { queue with
          held := queue.held.eraseIdx index
          finished := queue.finished ++ [op.drop] }

variable (front : Front)

/-- `deliver` and `_dispatch`: run the handler if there is one. -/
def deliver (pvAlive handled : Bool) : Stage → Operation → Option Fate
  | .taken, op =>
      if pvAlive then
        if handled then some (.keep .running op)
        else some (.release (op.fail front (unsupported op.kind)))
      else
        some (.release (op.fail front "SharedPV no longer exists".toList))
  | _, _ => none

/-- The handler, or its task, calls `done`. -/
def callDone (error : Option Text) : Stage → Operation → Option Fate
  | .taken, _ => none
  | stage, op => some (.keep stage (op.done front error).1)

def returns : Stage → Operation → Option Fate
  | .running, op => some (.release op)
  | _, _ => none

def raises (error : Text) : Stage → Operation → Option Fate
  | .running, op => some (.release (op.fail front error))
  | _, _ => none

/-- The handler is a coroutine and becomes a task. -/
def spawn : Stage → Operation → Option Fate
  | .running, op => if front.tasks then some (.keep .task op) else none
  | _, _ => none

/-- The task ends, by an exception or a cancellation when there is a failure
to report. -/
def finish (failure : Option Text) : Stage → Operation → Option Fate
  | .task, op =>
      match failure with
      | none => some (.release op)
      | some error => some (.release (op.fail front error))
  | _, _ => none

/-- A `recv` that was given up loses what it had taken. -/
def discard : Stage → Operation → Option Fate
  | .taken, op => some (.release op)
  | _, _ => none

def next (queue : WorkQueue) : Step → Option WorkQueue
  | .arrive kind reply =>
      if front.accepts kind reply then
        some { queue with
          channel := queue.channel ++ [.operation (.new kind reply)] }
      else none
  | .connect =>
      if front.connects then
        some { queue with channel := queue.channel ++ [.connection] }
      else none
  | .recv =>
      if queue.stopped then some queue
      else some { queue with entered := queue.entered + 1 }
  | .poll =>
      match queue.entered with
      | 0 => none
      | entered + 1 =>
          if queue.stopped then some { queue with entered := entered }
          else some { queue with
            entered := entered
            polled := queue.polled + 1 }
  | .take =>
      match queue.polled with
      | 0 => none
      | polled + 1 =>
          match queue.channel with
          | [] => some { queue with
              entered := queue.entered + 1
              polled := polled }
          | .connection :: channel =>
              some { queue with channel := channel, polled := polled }
          | .operation op :: channel => some { queue with
              channel := channel
              polled := polled
              held := queue.held ++ [(.taken, op)] }
  | .abandon =>
      match queue.entered with
      | 0 => none
      | entered + 1 => some { queue with entered := entered }
  | .discard index => queue.act index discard
  | .deliver index pvAlive handled =>
      queue.act index (deliver front pvAlive handled)
  | .callDone index error => queue.act index (callDone front error)
  | .returns index => queue.act index returns
  | .raises index error => queue.act index (raises front error)
  | .spawn index => queue.act index (spawn front)
  | .finish index failure => queue.act index (finish front failure)
  | .stop => some { queue with stopped := true }

def empty : WorkQueue :=
  ⟨[], false, 0, 0, [], []⟩

def system : Transition WorkQueue Step :=
  .ofPartial (fun queue => queue = empty) (next front)

/-- Every operation that was accepted. -/
def operations (queue : WorkQueue) : List Operation :=
  (queue.channel.filterMap fun event =>
      match event with
      | .operation op => some op
      | .connection => none) ++
    queue.held.map Prod.snd ++ queue.finished

/-- Stopped, with no `recv` in progress and no handler running. -/
structure Settled (queue : WorkQueue) : Prop where
  stopped : queue.stopped = true
  entered : queue.entered = 0
  polled : queue.polled = 0
  held : queue.held = []

/-- An operation that waits behind everything that will still be taken. -/
def Stranded (queue : WorkQueue) : Prop :=
  queue.stopped = true ∧
    ∃ op, .operation op ∈ queue.channel.drop queue.polled ∧ op.Unanswered

/-- What `stop` finds on the queue, or an operation that arrives later, is
still taken by a `recv` that is about to take an event. -/
def InTime (queue : WorkQueue) : Step → Prop
  | .stop => ∀ op, .operation op ∈ queue.channel.drop queue.polled →
      ¬op.Unanswered
  | .arrive _ reply => queue.stopped = true → reply = .awaited →
      queue.channel.length < queue.polled
  | _ => True

theorem mem_operations_iff {queue : WorkQueue} {op : Operation} :
    op ∈ queue.operations ↔ .operation op ∈ queue.channel ∨
      (∃ stage, (stage, op) ∈ queue.held) ∨ op ∈ queue.finished := by
  have inChannel : op ∈ (queue.channel.filterMap fun event =>
      match event with
      | .operation op => some op
      | .connection => none) ↔ .operation op ∈ queue.channel := by
    rw [List.mem_filterMap]
    constructor
    · intro found
      obtain ⟨event, member, same⟩ := found
      cases event with
      | operation other =>
          obtain rfl : other = op := by simpa using same
          exact member
      | connection => simp at same
    · intro member
      exact ⟨_, member, rfl⟩
  simp only [operations, List.mem_append, inChannel, or_assoc]
  simp

theorem act_cases {queue last : WorkQueue} {index : Nat}
    {next : Stage → Operation → Option Fate}
    (acted : queue.act index next = some last) :
    last.channel = queue.channel ∧ last.stopped = queue.stopped ∧
      last.polled = queue.polled ∧
      ∀ op ∈ last.finished, op ∈ queue.finished ∨
        ∃ other : Operation, op = other.drop := by
  simp only [act] at acted
  split at acted
  case h_1 => simp at acted
  case h_2 stage op found =>
    split at acted
    case h_1 => simp at acted
    case h_2 stage op _ =>
      simp only [Option.some.injEq] at acted
      subst acted
      exact ⟨rfl, rfl, rfl, fun op member => .inl member⟩
    case h_3 released _ =>
      simp only [Option.some.injEq] at acted
      subst acted
      refine ⟨rfl, rfl, rfl, ?_⟩
      intro op member
      rcases List.mem_append.mp member with old | new
      · exact .inl old
      · exact .inr ⟨released, List.mem_singleton.mp new⟩

theorem mem_drop_snoc {α : Type} {items : List α} {last item : α}
    {count : Nat} : item ∈ (items ++ [last]).drop count ↔
      item ∈ items.drop count ∨ count ≤ items.length ∧ item = last := by
  rw [List.drop_append, List.mem_append]
  apply or_congr_right
  rcases Nat.lt_or_ge items.length count with beyond | within
  · have short : ([last] : List α).length ≤ count - items.length := by
      rw [List.length_singleton]
      omega
    rw [List.drop_of_length_le short]
    simp [Nat.not_le.mpr beyond]
  · rw [Nat.sub_eq_zero_of_le within]
    simp [within]

/-- A step neither stops the queue nor adds an operation; once stopped, what
is stranded stays so and nothing else becomes so. -/
structure Moves (queue last : WorkQueue) : Prop where
  stopped : last.stopped = queue.stopped
  behind : queue.stopped = true → ∀ op,
    .operation op ∈ last.channel.drop last.polled ↔
      .operation op ∈ queue.channel.drop queue.polled
  finished : ∀ op ∈ last.finished, op ∈ queue.finished ∨
    ∃ other : Operation, op = other.drop

theorem Moves.of_act {queue last : WorkQueue} {index : Nat}
    {next : Stage → Operation → Option Fate}
    (acted : queue.act index next = some last) : queue.Moves last := by
  obtain ⟨channel, stopped, polled, finished⟩ := act_cases acted
  exact ⟨stopped, by simp [channel, polled], finished⟩

theorem Moves.frame {queue last : WorkQueue}
    (channel : last.channel = queue.channel)
    (stopped : last.stopped = queue.stopped)
    (polled : queue.stopped = true → last.polled = queue.polled)
    (finished : last.finished = queue.finished) : queue.Moves last where
  stopped := stopped
  behind := by
    intro isStopped op
    rw [channel, polled isStopped]
  finished := by
    intro op member
    rw [finished] at member
    exact .inl member

variable {front}

theorem connect_moves {queue last : WorkQueue}
    (step : queue.next front .connect = some last) : queue.Moves last := by
  simp only [next] at step
  split at step
  · simp only [Option.some.injEq] at step
    subst step
    exact ⟨rfl, by simp [mem_drop_snoc], fun op member => .inl member⟩
  · simp at step

theorem recv_moves {queue last : WorkQueue}
    (step : queue.next front .recv = some last) : queue.Moves last := by
  simp only [next] at step
  split at step
  · simp only [Option.some.injEq] at step
    subst step
    apply Moves.frame rfl rfl (fun _ => rfl) rfl
  · simp only [Option.some.injEq] at step
    subst step
    apply Moves.frame
    · rfl
    · rfl
    · simp
    · rfl

theorem poll_moves {queue last : WorkQueue}
    (step : queue.next front .poll = some last) : queue.Moves last := by
  simp only [next] at step
  split at step
  case h_1 => simp at step
  case h_2 =>
    split at step
    case isTrue =>
      simp only [Option.some.injEq] at step
      subst step
      apply Moves.frame
      · rfl
      · rfl
      · simp
      · rfl
    case isFalse running =>
      simp only [Option.some.injEq] at step
      subst step
      apply Moves.frame
      · rfl
      · rfl
      · intro stopped
        exact (running stopped).elim
      · rfl

theorem take_moves {queue last : WorkQueue}
    (step : queue.next front .take = some last) : queue.Moves last := by
  simp only [next] at step
  split at step
  case h_1 => simp at step
  case h_2 polled polledEq =>
    split at step
    case h_1 empty =>
      simp only [Option.some.injEq] at step
      subst step
      exact ⟨rfl, by simp [empty], fun op member => .inl member⟩
    case h_2 channel channelEq =>
      simp only [Option.some.injEq] at step
      subst step
      exact ⟨rfl, by simp [channelEq, polledEq],
        fun op member => .inl member⟩
    case h_3 op channel channelEq =>
      simp only [Option.some.injEq] at step
      subst step
      exact ⟨rfl, by simp [channelEq, polledEq],
        fun op member => .inl member⟩

theorem abandon_moves {queue last : WorkQueue}
    (step : queue.next front .abandon = some last) : queue.Moves last := by
  simp only [next] at step
  split at step
  case h_1 => simp at step
  case h_2 =>
    simp only [Option.some.injEq] at step
    subst step
    apply Moves.frame
    · rfl
    · rfl
    · simp
    · rfl

theorem next_cases {queue last : WorkQueue} {label : Step}
    (step : queue.next front label = some last) :
    (label = .stop ∧ last = { queue with stopped := true }) ∨
      (∃ kind reply, label = .arrive kind reply ∧ last = { queue with
        channel := queue.channel ++ [.operation (.new kind reply)] }) ∨
      (∀ state : WorkQueue, state.InTime label) ∧ queue.Moves last := by
  cases label with
  | stop =>
      simp only [next, Option.some.injEq] at step
      exact .inl ⟨rfl, step.symm⟩
  | arrive kind reply =>
      simp only [next] at step
      split at step
      · simp only [Option.some.injEq] at step
        exact .inr (.inl ⟨kind, reply, rfl, step.symm⟩)
      · simp at step
  | connect => exact .inr (.inr ⟨fun _ => trivial, connect_moves step⟩)
  | recv => exact .inr (.inr ⟨fun _ => trivial, recv_moves step⟩)
  | poll => exact .inr (.inr ⟨fun _ => trivial, poll_moves step⟩)
  | take => exact .inr (.inr ⟨fun _ => trivial, take_moves step⟩)
  | abandon => exact .inr (.inr ⟨fun _ => trivial, abandon_moves step⟩)
  | discard index => exact .inr (.inr ⟨fun _ => trivial, .of_act step⟩)
  | deliver index pvAlive handled =>
      exact .inr (.inr ⟨fun _ => trivial, .of_act step⟩)
  | callDone index error =>
      exact .inr (.inr ⟨fun _ => trivial, .of_act step⟩)
  | returns index => exact .inr (.inr ⟨fun _ => trivial, .of_act step⟩)
  | raises index error => exact .inr (.inr ⟨fun _ => trivial, .of_act step⟩)
  | spawn index => exact .inr (.inr ⟨fun _ => trivial, .of_act step⟩)
  | finish index failure =>
      exact .inr (.inr ⟨fun _ => trivial, .of_act step⟩)

theorem Moves.stranded_iff {queue last : WorkQueue}
    (moves : queue.Moves last) : last.Stranded ↔ queue.Stranded := by
  simp only [Stranded, moves.stopped]
  apply and_congr_right
  intro stopped
  simp only [moves.behind stopped]

theorem stranded_persists {queue last : WorkQueue} {label : Step}
    (step : queue.next front label = some last)
    (stranded : queue.Stranded) : last.Stranded := by
  rcases next_cases step with
    ⟨-, rfl⟩ | ⟨kind, reply, -, rfl⟩ | ⟨-, moves⟩
  · exact ⟨rfl, stranded.2⟩
  · obtain ⟨stopped, op, behind, waits⟩ := stranded
    exact ⟨stopped, op, mem_drop_snoc.mpr (.inl behind), waits⟩
  · exact moves.stranded_iff.mpr stranded

/-- Operations are stranded by stopping too early or arriving too late. -/
theorem inTime_iff {queue last : WorkQueue} {label : Step}
    (step : queue.next front label = some last)
    (good : ¬queue.Stranded) :
    queue.InTime label ↔ ¬last.Stranded := by
  rcases next_cases step with
    ⟨rfl, rfl⟩ | ⟨kind, reply, rfl, rfl⟩ | ⟨inTime, moves⟩
  · simp [InTime, Stranded]
  · simp only [InTime, Stranded, mem_drop_snoc] at good ⊢
    constructor
    · intro early stranded
      obtain ⟨stopped, op, behind | ⟨room, same⟩, waits⟩ := stranded
      · exact good ⟨stopped, op, behind, waits⟩
      · simp only [Event.operation.injEq] at same
        subst same
        exact Nat.not_lt.mpr room (early stopped waits)
    · intro served stopped waits
      apply Nat.not_le.mp
      intro room
      exact served ⟨stopped, .new kind reply, .inr ⟨room, rfl⟩, waits⟩
  · exact iff_of_true (inTime queue) ((not_congr moves.stranded_iff).mpr good)

theorem finished_invariant : (system front).Invariant fun queue =>
    ∀ op ∈ queue.finished, ¬op.Unanswered where
  initial := by
    intro queue start op member
    rw [start] at member
    simp [empty] at member
  preserved := by
    intro queue label last answered step op member
    rcases next_cases step with
      ⟨-, rfl⟩ | ⟨kind, reply, -, rfl⟩ | ⟨-, moves⟩
    · exact answered op member
    · exact answered op member
    · rcases moves.finished op member with old | ⟨other, rfl⟩
      · exact answered op old
      · exact other.drop_answered

/-- In a settled state exactly the stranded operations are unanswered. -/
theorem Settled.answered_iff {queue : WorkQueue} (settled : queue.Settled)
    (finished : ∀ op ∈ queue.finished, ¬op.Unanswered) :
    (∀ op ∈ queue.operations, ¬op.Unanswered) ↔ ¬queue.Stranded := by
  simp only [mem_operations_iff, settled.held, List.not_mem_nil,
    exists_false, false_or, Stranded, settled.stopped, settled.polled,
    List.drop_zero, true_and, not_exists, not_and]
  constructor
  · intro answered op member
    exact answered op (.inl member)
  · intro answered op member
    rcases member with waiting | gone
    · exact answered op waiting
    · exact finished op gone

/-- Every operation gets at most one answer.  Once the queue is stopped and
nothing is in progress, no operation is unanswered exactly when every step of
the run was in time. -/
theorem no_operation_dangles {queue : WorkQueue} {labels : List Step}
    (run : (system front).Run empty labels queue) :
    (∀ op ∈ queue.operations, op.answers.length ≤ 1) ∧
      (queue.Settled → ((∀ op ∈ queue.operations, ¬op.Unanswered) ↔
        ((system front).restrict InTime).Run empty labels queue)) := by
  refine ⟨fun op _ => op.answers_length, ?_⟩
  intro settled
  have finished := finished_invariant.reachable ⟨empty, labels, rfl, run⟩
  have good : ¬empty.Stranded := by
    intro stranded
    simp [empty] at stranded
    exact absurd stranded.1 (by simp)
  rw [settled.answered_iff finished, run.restrict_iff _ _ good]
  · intro state label last step stranded
    apply stranded_persists step stranded
  · intro state label last step fine
    apply inTime_iff step fine

/-- Where a list of steps leads. -/
def ended (front : Front) (labels : List Step) : WorkQueue :=
  (labels.foldlM (next front) empty).getD empty

/-- A handler that returns without `done` before the queue is stopped. -/
def orderly : List Step :=
  [.arrive .put .awaited, .recv, .poll, .take, .deliver 0 true true,
    .returns 0, .recv, .stop, .poll]

theorem no_operation_dangles_orderly :
    ((system (pva false)).restrict InTime).Run empty orderly
        (ended (pva false) orderly) ∧
      (ended (pva false) orderly).operations.map Operation.answers =
        [[.dropped]] := by
  have run : (system (pva false)).Run empty orderly
      (ended (pva false) orderly) := .of_foldlM rfl
  have settled : (ended (pva false) orderly).Settled := ⟨rfl, rfl, rfl, rfl⟩
  refine ⟨((no_operation_dangles run).2 settled).mp ?_, rfl⟩
  decide

/-- `stop` while one operation is handled and another one waits. -/
def stoppedEarly : List Step :=
  [.arrive .put .awaited, .recv, .poll, .take, .deliver 0 true true,
    .arrive .put .awaited, .stop, .callDone 0 none, .returns 0, .recv]

/-- The queue settles with an operation that is never answered. -/
def Strands (front : Front) : Prop :=
  let queue := ended front stoppedEarly
  (system front).Run empty stoppedEarly queue ∧ queue.Settled ∧
    ∃ op ∈ queue.operations, op.Unanswered

/-- The operation that waits is never answered, on either server. -/
theorem stop_strands_operation :
    Strands (pva false) ∧ Strands (ca false) := by
  constructor
  · exact ⟨.of_foldlM rfl, ⟨rfl, rfl, rfl, rfl⟩, by decide⟩
  · exact ⟨.of_foldlM rfl, ⟨rfl, rfl, rfl, rfl⟩, by decide⟩

end WorkQueue

end Repics.Server
