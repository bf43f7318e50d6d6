import Mathlib.Data.List.Basic
import Repics.Pva.Server.Entry
import Repics.Server.WorkQueue

/-!
# Answering an operation

A handler answers an operation by `done`, which uses the slot of the operation
once; what it does afterwards, an exception included, changes nothing.  A
handler of the asyncio flavour may return a coroutine, which becomes a task.
The operation is dropped when nobody holds it any more, and the server's task
reads the slot then at the latest.

The replies that would be given, in the order of time and whether or not the
slot is still free, are the `replies` of a handling; the first of them is what
was answered.
-/

namespace Repics.Pva.Server

/-- What was answered: nothing, a value, or the text of an error. -/
abbrev OpReply := Except Str (Option (FieldDesc × PvField))

/-- The arguments of `done`: a `Value` is a root and the path of a view. -/
structure DoneArgs where
  value : Option (Root × Str)
  error : Option Str

inductive DoneRaises where
  | snapshot (error : PyErr)
  | alreadyCalled

/-- The reply that a call of `done` gives. -/
def OpKind.reply (kind : OpKind) (args : DoneArgs) : Except PyErr OpReply :=
  match args.error, args.value, kind with
  | some msg, _, _ => .ok (.error msg)
  | none, some (root, view), .rpc =>
      match root.snapshot view with
      | .error raised => .error raised
      | .ok (desc, field, _) => .ok (.ok (some (desc, field)))
  | none, _, _ => .ok (.ok none)

/-- The slot of an operation, empty until it is used. -/
abbrev Slot := Option OpReply

def finish (slot : Slot) (reply : OpReply) : Slot × Option DoneRaises :=
  match slot with
  | none => (some reply, none)
  | some _ => (slot, some .alreadyCalled)

def done (kind : OpKind) (slot : Slot) (args : DoneArgs) :
    Slot × Option DoneRaises :=
  match kind.reply args with
  | .error raised => (slot, some (.snapshot raised))
  | .ok reply => finish slot reply

/-- `done(error=...)` -/
def doneError (msg : Str) : DoneArgs :=
  ⟨none, some msg⟩

def callDone (kind : OpKind) (slot : Slot) (calls : List DoneArgs) : Slot :=
  calls.foldl (fun slot args => (done kind slot args).1) slot

/-- An exception: its text, unless `str` raises or it is not UTF-8, and its
class. -/
structure Raised where
  text : Option Str
  cls : Str

/-- `str(exc) or type(exc).__name__` -/
def Raised.message (exc : Raised) : Option Str :=
  exc.text.map fun text => if text = [] then exc.cls else text

/-- A second call of `done` raises, and so may `str`; neither is passed on. -/
def failOp (kind : OpKind) (slot : Slot) (exc : Raised) : Slot :=
  match exc.message with
  | none => slot
  | some msg => (done kind slot (doneError msg)).1

inductive TaskEnding where
  | returned
  | raised (exc : Raised)
  | cancelled

/-- A coroutine, by its calls of `done` and its end. -/
structure Coroutine where
  calls : List DoneArgs
  ending : TaskEnding

inductive Ending where
  | returned (coroutine : Option Coroutine)
  | raised (exc : Raised)

/-- What a handler does with an operation; `later` are the calls of `done` by
others that hold it, after the handler and its task. -/
structure Handling where
  calls : List DoneArgs
  ending : Ending
  later : List DoneArgs

inductive Flavour where
  | threads
  | asyncio
  deriving DecidableEq

/-- `asyncio.CancelledError("handler cancelled")` -/
def handlerCancelled : Raised :=
  ⟨some "handler cancelled".toList, "CancelledError".toList⟩

/-- The task, and what is called when it is done. -/
def Coroutine.run (kind : OpKind) (slot : Slot) (coroutine : Coroutine) :
    Slot :=
  let slot := callDone kind slot coroutine.calls
  match coroutine.ending with
  | .returned => slot
  | .raised exc => failOp kind slot exc
  | .cancelled => failOp kind slot handlerCancelled

/-- `_run`: only the asyncio flavour looks at what the handler returned. -/
def Flavour.run (flavour : Flavour) (kind : OpKind) (slot : Slot)
    (handling : Handling) : Slot :=
  let slot := callDone kind slot handling.calls
  match handling.ending, flavour with
  | .raised exc, _ => failOp kind slot exc
  | .returned (some coroutine), .asyncio => coroutine.run kind slot
  | .returned _, _ => slot

def unsupported : OpKind → Str
  | .put => "Put not supported".toList
  | .rpc => "RPC not supported".toList

/-- What an operation meets: nobody receives from the queue any more, the
program has dropped the PV, the PV has no handler, or it has one. -/
inductive Receiver where
  | stopped
  | gone
  | unhandled
  | handler (handling : Handling)

/-- `deliver` and `_dispatch`, up to the drop of the operation. -/
def Receiver.deliver (flavour : Flavour) (kind : OpKind) (slot : Slot) :
    Receiver → Slot
  | .stopped => slot
  | .gone =>
      (done kind slot (doneError "SharedPV no longer exists".toList)).1
  | .unhandled => (done kind slot (doneError (unsupported kind))).1
  | .handler handling =>
      callDone kind (flavour.run kind slot handling) handling.later

structure OpError where
  text : Str

inductive RpcReply where
  | value (desc : FieldDesc) (value : PvField)
  | empty

def queueStopped : Str :=
  "SharedPV handler queue is stopped".toList

def dropped : Str :=
  "handler dropped the operation without done()".toList

/-- What the server's task reads from the slot. -/
def Slot.read : Slot → Except OpError RpcReply
  | some (.ok (some (desc, value))) => .ok (.value desc value)
  | some (.ok none) => .ok .empty
  | some (.error msg) => .error ⟨msg⟩
  | none => .error ⟨dropped⟩

def runOp (flavour : Flavour) (kind : OpKind) (receiver : Receiver) :
    Except OpError RpcReply :=
  match receiver with
  | .stopped => .error ⟨queueStopped⟩
  | receiver => Slot.read (receiver.deliver flavour kind none)

/-- A served PV, by what the operations on it meet. -/
structure RpcService where
  numbering : PvData
  flavour : Flavour
  receive : ServerOperation → Receiver

/-- The operation of a call whose argument is the given one. -/
def RpcService.operation (service : RpcService) (desc : FieldDesc)
    (value : PvField) : ServerOperation :=
  ⟨.rpc, desc, value, allMarks service.numbering desc⟩

def RpcService.rpc (service : RpcService) (desc : FieldDesc)
    (value : PvField) : Except OpError RpcReply :=
  runOp service.flavour .rpc (service.receive (service.operation desc value))

section Replies

variable (kind : OpKind)

/-- The reply that a call of `done` gives if the slot is free. -/
def DoneArgs.reply? (args : DoneArgs) : Option OpReply :=
  (kind.reply args).toOption

def repliesOf (calls : List DoneArgs) : List OpReply :=
  calls.filterMap (DoneArgs.reply? kind)

def Raised.replies (exc : Raised) : List OpReply :=
  (exc.message.map Except.error).toList

def Coroutine.replies (coroutine : Coroutine) : List OpReply :=
  repliesOf kind coroutine.calls ++
    match coroutine.ending with
    | .returned => []
    | .raised exc => exc.replies
    | .cancelled => handlerCancelled.replies

def Ending.replies (flavour : Flavour) : Ending → List OpReply
  | .raised exc => exc.replies
  | .returned none => []
  | .returned (some coroutine) =>
      match flavour with
      | .threads => []
      | .asyncio => coroutine.replies kind

def Handling.replies (flavour : Flavour) (handling : Handling) :
    List OpReply :=
  repliesOf kind handling.calls ++ handling.ending.replies kind flavour ++
    repliesOf kind handling.later

/-- What an operation is answered, `none` when it is dropped. -/
def Receiver.answer (flavour : Flavour) : Receiver → Option OpReply
  | .stopped => some (.error queueStopped)
  | .gone => some (.error "SharedPV no longer exists".toList)
  | .unhandled => some (.error (unsupported kind))
  | .handler handling => (handling.replies kind flavour).head?

end Replies

def RpcService.answer (service : RpcService) (desc : FieldDesc)
    (value : PvField) : Option OpReply :=
  (service.receive (service.operation desc value)).answer .rpc service.flavour

/-- Offer replies to a slot, one after the other. -/
def Slot.offer (slot : Slot) (replies : List OpReply) : Slot :=
  slot.or replies.head?

@[simp]
theorem Slot.offer_nil (slot : Slot) : Slot.offer slot [] = slot := by
  cases slot with
  | none => rfl
  | some reply => rfl

theorem Slot.offer_append (slot : Slot) (first second : List OpReply) :
    Slot.offer (Slot.offer slot first) second =
      Slot.offer slot (first ++ second) := by
  cases slot with
  | some reply => rfl
  | none => simp [Slot.offer]

section Offers

variable {kind : OpKind} {slot : Slot}

theorem done_offer (args : DoneArgs) :
    (done kind slot args).1 =
      Slot.offer slot (DoneArgs.reply? kind args).toList := by
  simp only [done, DoneArgs.reply?]
  cases kind.reply args with
  | error raised => exact (Slot.offer_nil slot).symm
  | ok reply =>
      cases slot with
      | none => rfl
      | some used => rfl

theorem callDone_offer (calls : List DoneArgs) :
    callDone kind slot calls = Slot.offer slot (repliesOf kind calls) := by
  induction calls generalizing slot with
  | nil => exact (Slot.offer_nil slot).symm
  | cons args calls induction =>
      have split : repliesOf kind (args :: calls) =
          (DoneArgs.reply? kind args).toList ++ repliesOf kind calls := by
        simp only [repliesOf]
        cases given : DoneArgs.reply? kind args with
        | none => simp [given]
        | some reply => simp [given]
      calc callDone kind slot (args :: calls)
          = callDone kind (done kind slot args).1 calls := rfl
        _ = Slot.offer (done kind slot args).1 (repliesOf kind calls) :=
            induction
        _ = Slot.offer slot (repliesOf kind (args :: calls)) := by
            rw [done_offer, Slot.offer_append, split]

theorem failOp_offer (exc : Raised) :
    failOp kind slot exc = Slot.offer slot exc.replies := by
  simp only [failOp, Raised.replies]
  cases exc.message with
  | none => exact (Slot.offer_nil slot).symm
  | some msg => exact done_offer (doneError msg)

theorem Coroutine.run_offer (coroutine : Coroutine) :
    coroutine.run kind slot = Slot.offer slot (coroutine.replies kind) := by
  simp only [Coroutine.run, Coroutine.replies, callDone_offer]
  cases coroutine.ending with
  | returned => simp
  | raised exc => simp only [failOp_offer, Slot.offer_append]
  | cancelled => simp only [failOp_offer, Slot.offer_append]

theorem Flavour.run_offer (flavour : Flavour) (handling : Handling) :
    flavour.run kind slot handling = Slot.offer slot
      (repliesOf kind handling.calls ++
        handling.ending.replies kind flavour) := by
  simp only [Flavour.run, callDone_offer]
  cases handling.ending with
  | raised exc => simp only [failOp_offer, Slot.offer_append, Ending.replies]
  | returned returned =>
      cases returned with
      | none => simp [Ending.replies]
      | some coroutine =>
          cases flavour with
          | threads => simp [Ending.replies]
          | asyncio =>
              simp only [Coroutine.run_offer, Slot.offer_append,
                Ending.replies]

end Offers

theorem Receiver.deliver_handler (flavour : Flavour) (kind : OpKind)
    (handling : Handling) :
    (Receiver.handler handling).deliver flavour kind none =
      (handling.replies kind flavour).head? := by
  simp only [deliver, callDone_offer, Flavour.run_offer, Slot.offer_append]
  exact Option.none_or

theorem runOp_eq (flavour : Flavour) (kind : OpKind) (receiver : Receiver) :
    runOp flavour kind receiver =
      Slot.read (receiver.answer kind flavour) := by
  cases receiver with
  | stopped => rfl
  | gone => rfl
  | unhandled => rfl
  | handler handling =>
      exact congrArg Slot.read
        (Receiver.deliver_handler flavour kind handling)

theorem RpcService.rpc_eq (service : RpcService) (desc : FieldDesc)
    (value : PvField) :
    service.rpc desc value = Slot.read (service.answer desc value) :=
  runOp_eq _ _ _

def OpKind.queued : OpKind → Repics.Server.OpKind
  | .put => .put
  | .rpc => .rpc

/-- What the client is told, without the value. -/
def answerOf : OpReply → Repics.Server.Answer
  | .ok _ => .completed
  | .error msg => .failed msg

/-- The operation on a work queue that has this slot. -/
def operationOf (kind : OpKind) : Slot → Repics.Server.Operation
  | none => .new kind.queued .awaited
  | some reply =>
      (Repics.Server.Operation.new kind.queued .awaited).answer
        (answerOf reply)

theorem answerOf_reply {kind : OpKind} {args : DoneArgs} {reply : OpReply}
    (given : kind.reply args = .ok reply) :
    answerOf reply = args.error.elim .completed .failed := by
  unfold OpKind.reply at given
  split at given
  case h_1 msg error =>
    simp only [Except.ok.injEq] at given
    rw [← given, error]
    rfl
  case h_2 root view error _ =>
    split at given
    case h_1 => simp at given
    case h_2 =>
      simp only [Except.ok.injEq] at given
      rw [← given, error]
      rfl
  case h_3 error _ =>
    simp only [Except.ok.injEq] at given
    rw [← given, error]
    rfl

/-- A call of `done` that gives a reply is one on the work queue. -/
theorem operationOf_done (tasks : Bool) {kind : OpKind} {slot : Slot}
    {args : DoneArgs} {reply : OpReply}
    (given : kind.reply args = .ok reply) :
    operationOf kind (done kind slot args).1 =
      ((operationOf kind slot).done (Repics.Server.pva tasks)
        args.error).1 := by
  have told := answerOf_reply given
  simp only [done, given]
  cases slot with
  | some used => rfl
  | none =>
      simp only [finish, operationOf, told]
      cases args.error with
      | none => rfl
      | some msg => rfl

end Repics.Pva.Server
