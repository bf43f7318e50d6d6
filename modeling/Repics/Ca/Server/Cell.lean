import Repics.Ca.Server.World
import Repics.Lib.Linearizable

/-!
# Calls on one Channel Access PV

Any number of calls on one PV, interleaved at every acquisition of a mutex and
at every `get` and `set` of a database cell.  A call holds the state mutex
while it looks at the state and changes it; where the PV is served, `open`,
`post`, and `current` release the mutex first and use the cell they cloned,
which another call may have taken out of the database in the meantime.

A call is a thread of its own.  Calls that one thread makes in turn are calls
that do not overlap.

Client writes reach the write hook through the cells of a server, which runs
only after it adopted its PVs.
-/

namespace Repics.Ca.Server.Cell

open Linearization (Event History Entry)

inductive PvWrite (Value : Type) where
  | value (value : Value)
  | alarmAck

inductive DbStatus where
  | casAppNoSupport
  deriving DecidableEq

/-- Where the handler's verdict goes. -/
inductive Reply (Done : Type) where
  | notify (done : Done)
  | plain
  | done

/-- A client PUT waiting for the Python handler. -/
structure CaServerOperation (Value Context Done : Type) where
  name : String
  value : Value
  ctx : Context
  reply : Reply Done

section Hook

variable {Value Context Done : Type}

/-- The closure that a hook returns.  It is called once, when the write is
sent, and reads the name of the PV then. -/
abbrev WriteForward (Value Context Done : Type) :=
  Option String → Option Done → CaServerOperation Value Context Done

/-- `make_hook`. -/
def makeHook (write : PvWrite Value) (ctx : Context) :
    Except DbStatus (WriteForward Value Context Done) :=
  match write with
  | .value value => .ok fun name done =>
      { name := name.getD ""
        value := value
        ctx := ctx
        reply := done.elim .plain .notify }
  | .alarmAck => .error .casAppNoSupport

/-- What became of a client's write.  The closure fails when nobody can
receive the operation, which was not sent then. -/
inductive Write (Value Context Done : Type) where
  | none
  | offered (write : PvWrite Value) (ctx : Context)
      (forward : WriteForward Value Context Done)
  | refused (write : PvWrite Value) (ctx : Context) (status : DbStatus)
  | forwarded (write : PvWrite Value) (ctx : Context)
      (operation : CaServerOperation Value Context Done) (sent : Bool)

end Hook

inductive Method (Value : Type) where
  | «open» (value : Value)
  | post (value : Value)
  | close
  | current
  | isOpen
  | adopt (db : Nat) (name : String)

inductive Answer (Value : Type) where
  | done
  | failed
  | value (value : Option Value)
  | flag (flag : Bool)

/-- Where a call is.  From `holding` to `closing` it holds the state mutex. -/
inductive Stage (Value : Type) where
  | idle
  | called (op : Method Value)
  | holding (op : Method Value)
  | registering (op : Method Value)
  | installing (op : Method Value) (db : Nat) (name : String) (value : Value)
  | naming (db : Nat) (name : String) (pv : Nat)
  | recording (db : Nat) (name : String) (pv : Nat)
  | serving (op : Method Value) (pv : Nat)
  | removing (reg : Registration)
  | closing
  | writing (op : Method Value) (pv : Nat) (value : Value)
  | reading (pv : Nat)
  | answered (op : Method Value) (answer : Answer Value)
  | returned (op : Method Value) (answer : Answer Value)

structure State (Value Context Done : Type) where
  world : World Value
  name : Option String
  holder : Option Nat
  stages : Nat → Stage Value
  history : History (Method Value) (Answer Value)
  /-- A server that adopted the PV accepts clients. -/
  bound : Bool
  /-- Somebody can still receive from the work queue. -/
  receiver : Bool
  writes : Nat → Write Value Context Done
  events : List (Nat × CaServerOperation Value Context Done)

inductive Label (Value Context Done : Type) where
  | call (id : Nat) (op : Method Value)
  /-- The next piece of a call; `accepts` is what the database says. -/
  | step (id : Nat) (accepts : Bool)
  | bind (id : Nat)
  | offer (write : Nat) (data : PvWrite Value) (ctx : Context)
  | forward (write : Nat) (done : Option Done)
  | dropQueue

namespace State

variable {Value Context Done : Type} (state : State Value Context Done)

def setStage (id : Nat) (stage : Stage Value) : State Value Context Done :=
  { state with stages := Function.update state.stages id stage }

/-- The call releases the state mutex. -/
def release (id : Nat) (stage : Stage Value) : State Value Context Done :=
  { state.setStage id stage with holder := none }

def answer (id : Nat) (op : Method Value) (answer : Answer Value) :
    State Value Context Done :=
  state.release id (.answered op answer)

variable (entry : Nat)

/-- The call stores the state of the PV, releases the mutex, and is done. -/
def store (id : Nat) (op : Method Value) (value : ValueState Value) :
    State Value Context Done :=
  { state with world := state.world.setState entry value }.answer id op .done

/-- What a call does once it holds the state mutex. -/
def look (id : Nat) : Method Value → State Value Context Done
  | .open value =>
      match (state.world.entries entry).state with
      | .serving pv => state.release id (.writing (.open value) pv value)
      | _ => state.setStage id (.registering (.open value))
  | .post value =>
      match (state.world.entries entry).state with
      | .serving pv => state.release id (.writing (.post value) pv value)
      | .detached _ => state.store entry id (.post value) (.detached value)
      | .closed => state.answer id (.post value) .failed
  | .close =>
      match (state.world.entries entry).state with
      | .serving _ => state.setStage id (.registering .close)
      | _ => state.store entry id .close .closed
  | .current =>
      match (state.world.entries entry).state with
      | .serving pv => state.release id (.reading pv)
      | .detached value => state.answer id .current (.value (some value))
      | .closed => state.answer id .current (.value none)
  | .isOpen => state.answer id .isOpen (.flag (state.world.isOpen entry))
  | .adopt db name =>
      match (state.world.entries entry).state with
      | .detached value =>
          state.setStage id (.installing (.adopt db name) db name value)
      | _ => state.answer id (.adopt db name) .failed

/-- What `open` and `close` do with the registration. -/
def registered (id : Nat) : Method Value → Option (State Value Context Done)
  | .open value =>
      match (state.world.entries entry).reg with
      | some reg =>
          some (state.setStage id
            (.installing (.open value) reg.db reg.name value))
      | none => some (state.store entry id (.open value) (.detached value))
  | .close =>
      match (state.world.entries entry).reg with
      | some reg => some (state.setStage id (.removing reg))
      | none => some (state.store entry id .close .closed)
  | _ => none

/-- `install`, after which `open` stores the cell and `adopt` first records
where the PV is served. -/
def installed (id : Nat) (op : Method Value) (db : Nat) (name : String)
    (value : Value) (accepts : Bool) : State Value Context Done :=
  if accepts then
    { state with world := state.world.install db name value }.setStage id
      (match op with
        | .adopt _ _ => .naming db name state.world.nextPv
        | _ => .serving op state.world.nextPv)
  else state.answer id op .failed

/-- The next piece of a call. -/
def advance (id : Nat) (accepts : Bool) : Option (State Value Context Done) :=
  match state.stages id with
  | .idle => none
  | .called op =>
      if state.holder.isNone then
        some { state.setStage id (.holding op) with holder := some id }
      else none
  | .holding op => some (state.look entry id op)
  | .registering op => state.registered entry id op
  | .installing op db name value =>
      some (state.installed id op db name value accepts)
  | .naming db name pv =>
      some { state.setStage id (.recording db name pv) with
        name := state.name.orElse fun _ => some name }
  | .recording db name pv =>
      some { state.setStage id (.serving (.adopt db name) pv) with
        world := state.world.setEntry entry
          { state.world.entries entry with reg := some ⟨db, name⟩ } }
  | .serving op pv => some (state.store entry id op (.serving pv))
  | .removing reg =>
      some { state.setStage id .closing with
        world := state.world.setName reg.db reg.name none }
  | .closing => some (state.store entry id .close .closed)
  | .writing op pv value =>
      some { state.setStage id (.answered op .done) with
        world := state.world.setPv pv value }
  | .reading pv =>
      some (state.setStage id
        (.answered .current (.value (state.world.pvs pv))))
  | .answered op answer =>
      some { state.setStage id (.returned op answer) with
        history := state.history ++ [.respond id answer] }
  | .returned _ _ => none

def next (state : State Value Context Done) :
    Label Value Context Done → Option (State Value Context Done)
  | .call id op =>
      match state.stages id with
      | .idle => some { state.setStage id (.called op) with
          history := state.history ++ [.invoke id op] }
      | _ => none
  | .step id accepts => state.advance entry id accepts
  | .bind id =>
      match state.stages id with
      | .returned (.adopt _ _) .done => some { state with bound := true }
      | _ => none
  | .offer write data ctx =>
      match state.bound, state.writes write with
      | true, .none =>
          some { state with
            writes := Function.update state.writes write
              (match makeHook data ctx with
                | .ok forward => .offered data ctx forward
                | .error status => .refused data ctx status) }
      | _, _ => none
  | .forward write done =>
      match state.writes write with
      | .offered data ctx forward =>
          some { state with
            writes := Function.update state.writes write
              (.forwarded data ctx (forward state.name done) state.receiver)
            events := if state.receiver then
              state.events ++ [(write, forward state.name done)]
              else state.events }
      | _ => none
  | .dropQueue => some { state with receiver := false }

/-- A PV that was just made, among PVs and databases that may be anything. -/
structure Fresh : Prop where
  entry : state.world.entries entry = ⟨.closed, none⟩
  name : state.name = none
  holder : state.holder = none
  stages : ∀ id, state.stages id = .idle
  history : state.history = []
  bound : state.bound = false
  writes : ∀ write, state.writes write = .none
  events : state.events = []

def system : Transition (State Value Context Done)
    (Label Value Context Done) :=
  .ofPartial (fun state => state.Fresh entry) (next entry)

end State

/-- An optional value with the operations of a PV, each at once. -/
inductive Sequential {Value : Type} :
    Option Value → Method Value → Answer Value → Option Value → Prop where
  | opened (cell : Option Value) (value : Value) :
      Sequential cell (.open value) .done (some value)
  | openRefused (cell : Option Value) (value : Value) :
      Sequential cell (.open value) .failed cell
  | posted (old value : Value) :
      Sequential (some old) (.post value) .done (some value)
  | postClosed (value : Value) :
      Sequential none (.post value) .failed none
  | closed (cell : Option Value) : Sequential cell .close .done none
  | current (cell : Option Value) :
      Sequential cell .current (.value cell) cell
  | isOpen (cell : Option Value) :
      Sequential cell .isOpen (.flag cell.isSome) cell
  | adopted (value : Value) (db : Nat) (name : String) :
      Sequential (some value) (.adopt db name) .done (some value)
  | adoptRefused (cell : Option Value) (db : Nat) (name : String) :
      Sequential cell (.adopt db name) .failed cell

end Repics.Ca.Server.Cell
