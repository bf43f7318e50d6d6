import Mathlib.Data.List.Basic
import Repics.Lib.Transition

/-!
# The threads of the handlers

In the callback flavour of both servers a drain thread takes the arrivals of one
work queue and runs the handlers of the PVs that are bound to it.  A PV is bound
to the queue it is given, or to one that the shared pool hands out in turn.  A
handler may take as long as it likes, which holds up its own queue only.

`arrived`, `log` and `assigned` are kept for the record: the arrivals in their
order, what the drain threads did, and the queues the pool handed out.
-/

namespace Repics.Server

/-- A client operation or a connection edge of a PV, with its number among all
arrivals. -/
structure Arrival where
  pv : Nat
  number : Nat
  deriving DecidableEq

/-- The drain thread of a queue is in `recv` or in a handler, or has ended. -/
inductive Worker where
  | receiving
  | handling (arrival : Arrival)
  | ended
  deriving DecidableEq

def Worker.current : Worker → Option Arrival
  | .handling arrival => some arrival
  | _ => none

structure HandlerQueue where
  channel : List Arrival
  stopped : Bool
  worker : Worker

/-- `_Pool`. -/
structure Pool where
  queues : List (Option Nat)
  next : Nat

/-- A PV with its queue, and whether the program still holds it. -/
structure ServedPv where
  queue : Nat
  alive : Bool

/-- What a drain thread did with an arrival; it is refused when its PV no longer
exists. -/
inductive Entry where
  | started (arrival : Arrival)
  | finished (arrival : Arrival)
  | refused (arrival : Arrival)
  deriving DecidableEq

/-- The arrival that was taken then. -/
def Entry.taken : Entry → Option Arrival
  | .started arrival | .refused arrival => some arrival
  | .finished _ => none

structure Handlers where
  pool : Pool
  queues : List HandlerQueue
  pvs : List ServedPv
  arrived : List Arrival
  log : List (Nat × Entry)
  assigned : List Nat

/-- A handler `escapes` when it raises what `except Exception` does not
catch. -/
inductive HandlerStep where
  | newQueue
  | newPv (queue : Option Nat)
  | arrive (pv : Nat)
  | collect (pv : Nat)
  | recv (queue : Nat)
  | finish (queue : Nat) (escapes : Bool)
  | stop (queue : Nat)

namespace Handlers

/-- `WorkQueue()`, whose thread starts at once. -/
def newQueue : HandlerQueue :=
  ⟨[], false, .receiving⟩

section Step

variable (state : Handlers)

def put (queue : Nat) (changed : HandlerQueue) : Handlers :=
  { state with queues := state.queues.set queue changed }

/-- `_Pool.__call__`: the next slot, which is filled on its first use. -/
def callPool : Option (Nat × Handlers) :=
  let slot := state.pool.next
  let later := (slot + 1) % state.pool.queues.length
  match state.pool.queues[slot]? with
  | none => none
  | some (some queue) => some (queue, { state with
      pool := { state.pool with next := later }
      assigned := state.assigned ++ [queue] })
  | some none => some (state.queues.length, { state with
      pool := ⟨state.pool.queues.set slot (some state.queues.length), later⟩
      queues := state.queues ++ [newQueue]
      assigned := state.assigned ++ [state.queues.length] })

/-- `deliver` for what `recv` returns. -/
def recv (queue : Nat) : Option Handlers :=
  match state.queues[queue]? with
  | some ⟨channel, stopped, .receiving⟩ =>
      if stopped then some (state.put queue ⟨channel, stopped, .ended⟩)
      else
        match channel with
        | [] => none
        | arrival :: channel =>
            if state.pvs[arrival.pv]?.any ServedPv.alive then
              some { state.put queue ⟨channel, stopped, .handling arrival⟩ with
                log := state.log ++ [(queue, .started arrival)] }
            else
              some { state.put queue ⟨channel, stopped, .receiving⟩ with
                log := state.log ++ [(queue, .refused arrival)] }
  | _ => none

/-- The handler returns, or raises, which ends the thread if nothing catches
it. -/
def finish (queue : Nat) (escapes : Bool) : Option Handlers :=
  match state.queues[queue]? with
  | some ⟨channel, stopped, .handling arrival⟩ =>
      some { state.put queue
          ⟨channel, stopped, if escapes then .ended else .receiving⟩ with
        log := state.log ++ [(queue, .finished arrival)] }
  | _ => none

def next : HandlerStep → Option Handlers
  | .newQueue => some { state with queues := state.queues ++ [newQueue] }
  | .newPv (some queue) =>
      if queue < state.queues.length then
        some { state with pvs := state.pvs ++ [⟨queue, true⟩] }
      else none
  | .newPv none => state.callPool.map fun called =>
      { called.2 with pvs := called.2.pvs ++ [⟨called.1, true⟩] }
  | .arrive pv =>
      match state.pvs[pv]? with
      | none => none
      | some served =>
          match state.queues[served.queue]? with
          | none => none
          | some queue =>
              let arrival := ⟨pv, state.arrived.length⟩
              some { state.put served.queue { queue with
                  channel := queue.channel ++ [arrival] } with
                arrived := state.arrived ++ [arrival] }
  | .collect pv =>
      match state.pvs[pv]? with
      | none => none
      | some served =>
          some { state with
            pvs := state.pvs.set pv { served with alive := false } }
  | .recv queue => state.recv queue
  | .finish queue escapes => state.finish queue escapes
  | .stop queue =>
      match state.queues[queue]? with
      | none => none
      | some current =>
          some (state.put queue { current with stopped := true })

end Step

def start (workers : Nat) : Handlers :=
  ⟨⟨List.replicate workers none, 0⟩, [], [], [], [], []⟩

def system (workers : Nat) : Transition Handlers HandlerStep :=
  .ofPartial (fun state => state = start workers) next

/-- One handler at a time: each ends before the next starts. -/
inductive Serial : List Entry → Option Arrival → Prop where
  | nil : Serial [] none
  | started {entries : List Entry} (arrival : Arrival)
      (serial : Serial entries none) :
      Serial (entries ++ [.started arrival]) (some arrival)
  | finished {entries : List Entry} {arrival : Arrival}
      (serial : Serial entries (some arrival)) :
      Serial (entries ++ [.finished arrival]) none
  | refused {entries : List Entry} (arrival : Arrival)
      (serial : Serial entries none) :
      Serial (entries ++ [.refused arrival]) none

section Spec

variable (state : Handlers)

/-- What the thread of one queue did. -/
def logOf (queue : Nat) : List Entry :=
  (state.log.filter fun entry => entry.1 = queue).map Prod.snd

/-- What a queue was to take. -/
def arrivedAt (queue : Nat) : List Arrival :=
  state.arrived.filter fun arrival =>
    state.pvs[arrival.pv]?.map ServedPv.queue = some queue

def taken (queue : Nat) : List Arrival :=
  (state.logOf queue).filterMap Entry.taken

/-- The threads alone take and handle all that waits in one queue, whatever the
handlers of the others do. -/
def WorksOff (workers queue : Nat) : Prop :=
  ∃ labels last, (system workers).Run state labels last ∧
    (∀ label ∈ labels, label = .recv queue ∨ label = .finish queue false) ∧
    last.queues[queue]? = some newQueue ∧
    last.taken queue = last.arrivedAt queue ∧
    ∀ other, other ≠ queue → last.queues[other]? = state.queues[other]?

end Spec

/-- What holds of one queue. -/
structure Serves (state : Handlers) (queue : Nat)
    (current : HandlerQueue) : Prop where
  serial : Serial (state.logOf queue) current.worker.current
  order : state.taken queue ++ current.channel = state.arrivedAt queue

structure Sound (state : Handlers) : Prop where
  known : ∀ arrival ∈ state.arrived, arrival.pv < state.pvs.length
  bound : ∀ served ∈ state.pvs, served.queue < state.queues.length
  logged : ∀ entry ∈ state.log, entry.1 < state.queues.length
  serves : ∀ queue current, state.queues[queue]? = some current →
    Serves state queue current

theorem logOf_snoc (state : Handlers) (queue other : Nat) (entry : Entry) :
    logOf { state with log := state.log ++ [(other, entry)] } queue =
      state.logOf queue ++ if other = queue then [entry] else [] := by
  rw [logOf, logOf, List.filter_append, List.map_append]
  by_cases same : other = queue
  · simp [same]
  · simp [same]

namespace Sound

variable {state last : Handlers} {queue : Nat}
  {current changed : HandlerQueue}

theorem change (sound : state.Sound)
    (queues : last.queues = state.queues.set queue changed)
    (pvs : last.pvs = state.pvs)
    (known : ∀ arrival ∈ last.arrived, arrival.pv < state.pvs.length)
    (bound : queue < state.queues.length)
    (logged : ∀ entry ∈ last.log, entry ∈ state.log ∨ entry.1 = queue)
    (others : ∀ other, other ≠ queue → last.logOf other =
      state.logOf other ∧ last.arrivedAt other = state.arrivedAt other)
    (own : Serves last queue changed) : last.Sound where
  known := pvs ▸ known
  bound := by
    intro served member
    rw [queues, List.length_set]
    exact sound.bound served (pvs ▸ member)
  logged := by
    intro entry member
    rw [queues, List.length_set]
    rcases logged entry member with before | same
    · exact sound.logged entry before
    · exact same ▸ bound
  serves := by
    intro other record found
    rw [queues] at found
    by_cases same : queue = other
    · subst same
      rw [List.getElem?_set_self bound] at found
      obtain rfl := Option.some.inj found
      exact own
    · rw [List.getElem?_set_ne same] at found
      obtain ⟨serial, order⟩ := sound.serves other record found
      obtain ⟨log, arrived⟩ := others other (Ne.symm same)
      constructor
      · rw [log]
        exact serial
      · rw [taken, log, arrived]
        exact order

/-- The arrivals of a queue do not change when its PVs keep their queues. -/
theorem arrivedAt_congr (sound : state.Sound)
    (arrived : last.arrived = state.arrived)
    (pvs : ∀ pv, pv < state.pvs.length →
      last.pvs[pv]?.map ServedPv.queue = state.pvs[pv]?.map ServedPv.queue)
    (queue : Nat) : last.arrivedAt queue = state.arrivedAt queue := by
  rw [arrivedAt, arrivedAt, arrived]
  apply List.filter_congr
  intro arrival member
  rw [pvs arrival.pv (sound.known arrival member)]

theorem rebind (sound : state.Sound) (queues : last.queues = state.queues)
    (arrived : last.arrived = state.arrived) (log : last.log = state.log)
    (length : state.pvs.length ≤ last.pvs.length)
    (bound : ∀ served ∈ last.pvs, served.queue < state.queues.length)
    (pvs : ∀ pv, pv < state.pvs.length → last.pvs[pv]?.map ServedPv.queue =
      state.pvs[pv]?.map ServedPv.queue) : last.Sound where
  known arrival member := Nat.lt_of_lt_of_le
    (sound.known arrival (arrived ▸ member)) length
  bound := queues ▸ bound
  logged := by
    intro entry member
    rw [queues]
    exact sound.logged entry (log ▸ member)
  serves := by
    intro queue current found
    obtain ⟨serial, order⟩ := sound.serves queue current (queues ▸ found)
    have same : last.logOf queue = state.logOf queue := by
      rw [logOf, logOf, log]
    constructor
    · rw [same]
      exact serial
    · rw [taken, same, sound.arrivedAt_congr arrived pvs]
      exact order

theorem made (sound : state.Sound)
    (queues : last.queues = state.queues ++ [newQueue])
    (pvs : last.pvs = state.pvs) (arrived : last.arrived = state.arrived)
    (log : last.log = state.log) : last.Sound := by
  have sameLog (queue : Nat) : last.logOf queue = state.logOf queue := by
    rw [logOf, logOf, log]
  have sameArrived (queue : Nat) :
      last.arrivedAt queue = state.arrivedAt queue := by
    rw [arrivedAt, arrivedAt, arrived, pvs]
  constructor
  case known => exact arrived ▸ pvs ▸ sound.known
  case bound =>
    intro served member
    rw [queues, List.length_append]
    exact Nat.lt_add_right _ (sound.bound served (pvs ▸ member))
  case logged =>
    intro entry member
    rw [queues, List.length_append]
    exact Nat.lt_add_right _ (sound.logged entry (log ▸ member))
  case serves =>
    intro queue current found
    rw [queues] at found
    have before (serves : Serves state queue current) :
        Serves last queue current := by
      constructor
      · rw [sameLog]
        exact serves.serial
      · rw [taken, sameLog, sameArrived]
        exact serves.order
    apply before
    rcases Nat.lt_trichotomy queue state.queues.length with
      old | rfl | beyond
    · rw [List.getElem?_append_left old] at found
      exact sound.serves queue current found
    · rw [List.getElem?_concat_length] at found
      obtain rfl := Option.some.inj found
      have noLog : state.logOf state.queues.length = [] := by
        rw [logOf, List.map_eq_nil_iff, List.filter_eq_nil_iff]
        intro entry member
        simpa using Nat.ne_of_lt (sound.logged entry member)
      constructor
      · rw [noLog]
        exact .nil
      · rw [taken, noLog, arrivedAt, eq_comm]
        apply List.filter_eq_nil_iff.mpr
        intro arrival member
        have inside := sound.known arrival member
        have away := sound.bound _ (List.getElem_mem inside)
        rw [List.getElem?_eq_getElem inside]
        simpa using Nat.ne_of_lt away
    · rw [List.getElem?_eq_none] at found
      · simp at found
      · rw [List.length_append, List.length_singleton]
        exact beyond

theorem arrive (sound : state.Sound) {pv : Nat} {served : ServedPv}
    (found : state.pvs[pv]? = some served)
    (queueFound : state.queues[served.queue]? = some current) :
    Sound { state.put served.queue { current with
        channel := current.channel ++ [⟨pv, state.arrived.length⟩] } with
      arrived := state.arrived ++ [⟨pv, state.arrived.length⟩] } := by
  have inside := (List.getElem?_eq_some_iff.mp found).1
  have bound := (List.getElem?_eq_some_iff.mp queueFound).1
  obtain ⟨serial, order⟩ := sound.serves _ current queueFound
  refine sound.change rfl rfl ?_ bound (fun entry => .inl) ?_ ?_
  · intro arrival member
    rcases List.mem_append.mp member with old | new
    · exact sound.known arrival old
    · obtain rfl := List.mem_singleton.mp new
      exact inside
  · intro other apart
    refine ⟨rfl, ?_⟩
    rw [arrivedAt, arrivedAt, List.filter_append]
    simp [put, found, Ne.symm apart]
  · refine ⟨serial, ?_⟩
    change state.taken served.queue ++ (current.channel ++ _) = _
    rw [← List.append_assoc, order, arrivedAt, arrivedAt,
      List.filter_append]
    simp [put, found]

/-- The thread of a queue does something, and takes an arrival if it does. -/
theorem logs (sound : state.Sound) (bound : queue < state.queues.length)
    {entry : Entry}
    (serial : Serial (state.logOf queue ++ [entry]) changed.worker.current)
    (order : state.taken queue ++ entry.taken.toList ++ changed.channel =
      state.arrivedAt queue) :
    Sound { state.put queue changed with
      log := state.log ++ [(queue, entry)] } := by
  have own := logOf_snoc (state.put queue changed) queue queue entry
  rw [if_pos rfl] at own
  refine sound.change rfl rfl sound.known bound ?_ ?_ ?_
  · intro other member
    rcases List.mem_append.mp member with old | new
    · exact .inl old
    · obtain rfl := List.mem_singleton.mp new
      exact .inr rfl
  · intro other apart
    refine ⟨?_, rfl⟩
    refine (logOf_snoc (state.put queue changed) other queue entry).trans ?_
    rw [if_neg (Ne.symm apart), List.append_nil]
    rfl
  · refine ⟨own ▸ serial, Eq.trans ?_ order⟩
    have takes : List.filterMap Entry.taken [entry] = entry.taken.toList := by
      cases is : entry.taken with
      | none => rw [List.filterMap_cons_none is]; rfl
      | some arrival => rw [List.filterMap_cons_some is]; rfl
    refine (congrArg (fun log => List.filterMap Entry.taken log ++
      changed.channel) own).trans ?_
    rw [List.filterMap_append, takes]
    rfl

theorem recv (sound : state.Sound)
    (step : state.recv queue = some last) : last.Sound := by
  unfold Handlers.recv at step
  split at step
  case h_2 => simp at step
  case h_1 channel stopped found =>
    have bound := (List.getElem?_eq_some_iff.mp found).1
    obtain ⟨serial, order⟩ := sound.serves queue _ found
    split at step
    case isTrue =>
      obtain rfl := Option.some.inj step
      exact sound.change rfl rfl sound.known bound (fun entry => .inl)
        (fun other _ => ⟨rfl, rfl⟩) ⟨serial, order⟩
    case isFalse =>
      split at step
      case h_1 => simp at step
      case h_2 arrival rest =>
        have inOrder : state.taken queue ++ [arrival] ++ rest =
            state.arrivedAt queue := by
          rw [← order, List.append_assoc, List.singleton_append]
        split at step
        case isTrue =>
          obtain rfl := Option.some.inj step
          exact sound.logs bound (.started arrival serial) inOrder
        case isFalse =>
          obtain rfl := Option.some.inj step
          exact sound.logs bound (.refused arrival serial) inOrder

theorem finish (sound : state.Sound) {escapes : Bool}
    (step : state.finish queue escapes = some last) : last.Sound := by
  unfold Handlers.finish at step
  split at step
  case h_2 => simp at step
  case h_1 channel stopped arrival found =>
    obtain rfl := Option.some.inj step
    have bound := (List.getElem?_eq_some_iff.mp found).1
    obtain ⟨serial, order⟩ := sound.serves queue _ found
    refine sound.logs bound ?_ ?_
    · cases escapes with
      | _ => exact .finished serial
    · change state.taken queue ++ [] ++ channel = _
      rw [List.append_nil]
      exact order

theorem newPv (sound : state.Sound) (bound : queue < state.queues.length) :
    Sound { state with pvs := state.pvs ++ [⟨queue, true⟩] } := by
  refine sound.rebind rfl rfl rfl ?_ ?_ ?_
  · simp
  · intro served member
    rcases List.mem_append.mp member with old | new
    · exact sound.bound served old
    · obtain rfl := List.mem_singleton.mp new
      exact bound
  · intro pv inside
    rw [List.getElem?_append_left inside]

theorem collect (sound : state.Sound) {pv : Nat} {served : ServedPv}
    (found : state.pvs[pv]? = some served) :
    Sound { state with
      pvs := state.pvs.set pv { served with alive := false } } := by
  have inside := (List.getElem?_eq_some_iff.mp found).1
  refine sound.rebind rfl rfl rfl ?_ ?_ ?_
  · exact Nat.le_of_eq List.length_set.symm
  · intro other member
    rcases List.mem_or_eq_of_mem_set member with before | rfl
    · exact sound.bound other before
    · exact sound.bound served (List.mem_of_getElem? found)
  · intro other _
    by_cases same : pv = other
    · subst same
      rw [List.getElem?_set_self inside, found]
      rfl
    · rw [List.getElem?_set_ne same]

theorem callPool (sound : state.Sound)
    (filled : ∀ queue, some queue ∈ state.pool.queues →
      queue < state.queues.length) {called : Nat × Handlers}
    (step : state.callPool = some called) :
    called.2.Sound ∧ called.1 < called.2.queues.length := by
  unfold Handlers.callPool at step
  simp only at step
  split at step
  case h_1 => simp at step
  case h_2 queue found =>
    obtain rfl := Option.some.inj step
    have member := List.mem_of_getElem? found
    refine ⟨?_, filled queue member⟩
    refine sound.rebind rfl rfl rfl (Nat.le_refl _) sound.bound ?_
    exact fun _ _ => rfl
  case h_3 =>
    obtain rfl := Option.some.inj step
    refine ⟨sound.made rfl rfl rfl rfl, ?_⟩
    simp

end Sound

/-- The slots are filled in turn, each with a queue of its own, and are handed
out in turn. -/
structure Rotates (workers : Nat) (state : Handlers) : Prop where
  length : state.pool.queues.length = workers
  next : state.pool.next = state.assigned.length % workers
  slots : ∀ slot, slot < workers →
    state.pool.queues[slot]? = some state.assigned[slot]?
  turns : ∀ call queue, state.assigned[call]? = some queue →
    state.assigned[call % workers]? = some queue
  distinct : ∀ slot other queue, slot < workers → other < workers →
    state.assigned[slot]? = some queue →
      state.assigned[other]? = some queue → slot = other
  filled : ∀ queue ∈ state.assigned, queue < state.queues.length
  positive : state.assigned ≠ [] → 0 < workers

namespace Rotates

variable {workers : Nat} {state last : Handlers}

theorem frame (rotates : state.Rotates workers)
    (pool : last.pool = state.pool) (assigned : last.assigned = state.assigned)
    (queues : state.queues.length ≤ last.queues.length) :
    last.Rotates workers where
  length := pool ▸ rotates.length
  next := by rw [pool, assigned, rotates.next]
  slots := by
    rw [pool, assigned]
    exact rotates.slots
  turns := assigned ▸ rotates.turns
  distinct := assigned ▸ rotates.distinct
  filled queue member :=
    Nat.lt_of_lt_of_le (rotates.filled queue (assigned ▸ member)) queues
  positive := assigned ▸ rotates.positive

theorem later (rotates : state.Rotates workers) (queue : Nat) :
    (state.pool.next + 1) % state.pool.queues.length =
      (state.assigned ++ [queue]).length % workers := by
  rw [rotates.length, rotates.next, Nat.mod_add_mod, List.length_append,
    List.length_singleton]

theorem member (rotates : state.Rotates workers) {queue : Nat}
    (member : some queue ∈ state.pool.queues) :
    queue < state.queues.length := by
  obtain ⟨slot, found⟩ := List.mem_iff_getElem?.mp member
  have bound := (List.getElem?_eq_some_iff.mp found).1
  rw [rotates.length] at bound
  rw [rotates.slots slot bound] at found
  have assigned := Option.some.inj found
  exact rotates.filled queue (List.mem_of_getElem? assigned)

theorem again (rotates : state.Rotates workers) {queue : Nat}
    (found : state.pool.queues[state.pool.next]? = some (some queue)) :
    Rotates workers { state with
      pool := ⟨state.pool.queues,
        (state.pool.next + 1) % state.pool.queues.length⟩
      assigned := state.assigned ++ [queue] } := by
  have bound := (List.getElem?_eq_some_iff.mp found).1
  rw [rotates.length] at bound
  rw [rotates.slots _ bound] at found
  have assigned := Option.some.inj found
  have before := (List.getElem?_eq_some_iff.mp assigned).1
  have full : workers ≤ state.assigned.length := by
    apply Nat.not_lt.mp
    intro few
    rw [rotates.next, Nat.mod_eq_of_lt few] at before
    exact Nat.lt_irrefl _ before
  have old {slot : Nat} (inside : slot < workers) :
      (state.assigned ++ [queue])[slot]? = state.assigned[slot]? :=
    List.getElem?_append_left (Nat.lt_of_lt_of_le inside full)
  have positive : 0 < workers := Nat.zero_lt_of_lt bound
  constructor
  case length => exact rotates.length
  case next => exact rotates.later queue
  case slots =>
    intro slot inside
    rw [old inside]
    exact rotates.slots slot inside
  case turns =>
    intro call handed found
    rw [old (Nat.mod_lt call positive)]
    rcases Nat.lt_trichotomy call state.assigned.length with
      early | rfl | beyond
    · rw [List.getElem?_append_left early] at found
      exact rotates.turns call handed found
    · rw [List.getElem?_concat_length] at found
      rw [← rotates.next, assigned]
      exact found
    · rw [List.getElem?_eq_none] at found
      · simp at found
      · rw [List.length_append, List.length_singleton]
        exact beyond
  case distinct =>
    intro slot other handed inside otherInside
    rw [old inside, old otherInside]
    exact rotates.distinct slot other handed inside otherInside
  case filled =>
    intro handed member
    rcases List.mem_append.mp member with old | new
    · exact rotates.filled handed old
    · obtain rfl := List.mem_singleton.mp new
      exact rotates.filled _ (List.mem_of_getElem? assigned)
  case positive => exact fun _ => positive

theorem first (rotates : state.Rotates workers)
    (found : state.pool.queues[state.pool.next]? = some none) :
    Rotates workers { state with
      pool := ⟨state.pool.queues.set state.pool.next
          (some state.queues.length),
        (state.pool.next + 1) % state.pool.queues.length⟩
      queues := state.queues ++ [newQueue]
      assigned := state.assigned ++ [state.queues.length] } := by
  have bound := (List.getElem?_eq_some_iff.mp found).1
  have inSlots := bound
  rw [rotates.length] at bound
  rw [rotates.slots _ bound] at found
  have unassigned := List.getElem?_eq_none_iff.mp (Option.some.inj found)
  have atEnd : state.pool.next = state.assigned.length := by
    apply Nat.le_antisymm _ unassigned
    rw [rotates.next]
    exact Nat.mod_le _ _
  have fresh {slot : Nat} {queue : Nat}
      (found : state.assigned[slot]? = some queue) :
      queue ≠ state.queues.length :=
    Nat.ne_of_lt (rotates.filled queue (List.mem_of_getElem? found))
  have is (slot : Nat) : (state.assigned ++ [state.queues.length])[slot]? =
      if slot = state.assigned.length then some state.queues.length
      else state.assigned[slot]? := by
    rcases Nat.lt_trichotomy slot state.assigned.length with
      early | rfl | beyond
    · rw [List.getElem?_append_left early, if_neg (Nat.ne_of_lt early)]
    · rw [List.getElem?_concat_length, if_pos rfl]
    · rw [if_neg (Nat.ne_of_gt beyond), List.getElem?_eq_none,
        List.getElem?_eq_none (Nat.le_of_lt beyond)]
      rw [List.length_append, List.length_singleton]
      exact beyond
  constructor
  case length => exact List.length_set.trans rotates.length
  case next => exact rotates.later _
  case slots =>
    intro slot inside
    rw [is]
    by_cases same : slot = state.assigned.length
    · rw [if_pos same, same, ← atEnd, List.getElem?_set_self inSlots]
    · rw [if_neg same, List.getElem?_set_ne (by omega)]
      exact rotates.slots slot inside
  case turns =>
    intro call handed found
    rw [is] at found
    split at found
    case isTrue same =>
      rw [same, is, Nat.mod_eq_of_lt (atEnd ▸ bound), if_pos rfl]
      exact found
    case isFalse =>
      have early := (List.getElem?_eq_some_iff.mp found).1
      have few : call < workers :=
        Nat.lt_trans early (atEnd ▸ bound)
      rw [Nat.mod_eq_of_lt few, is, if_neg (Nat.ne_of_lt early)]
      exact found
  case distinct =>
    intro slot other handed inside otherInside found otherFound
    rw [is] at found otherFound
    split at found
    case isTrue same =>
      split at otherFound
      case isTrue otherSame => exact same.trans otherSame.symm
      case isFalse =>
        exact (fresh otherFound (Option.some.inj found).symm).elim
    case isFalse =>
      split at otherFound
      case isTrue otherSame =>
        exact (fresh found (Option.some.inj otherFound).symm).elim
      case isFalse =>
        exact rotates.distinct slot other handed inside otherInside found
          otherFound
  case filled =>
    intro handed member
    rw [List.length_append, List.length_singleton]
    rcases List.mem_append.mp member with old | new
    · exact Nat.lt_succ_of_lt (rotates.filled handed old)
    · obtain rfl := List.mem_singleton.mp new
      exact Nat.lt_succ_self _
  case positive => exact fun _ => Nat.zero_lt_of_lt bound

theorem callPool (rotates : state.Rotates workers)
    {called : Nat × Handlers} (step : state.callPool = some called) :
    called.2.Rotates workers := by
  unfold Handlers.callPool at step
  simp only at step
  split at step
  case h_1 => simp at step
  case h_2 queue found =>
    obtain rfl := Option.some.inj step
    exact rotates.again found
  case h_3 found =>
    obtain rfl := Option.some.inj step
    exact rotates.first found

end Rotates

theorem recv_frame {state last : Handlers} {queue : Nat}
    (step : state.recv queue = some last) :
    last.pool = state.pool ∧ last.assigned = state.assigned ∧
      state.queues.length ≤ last.queues.length := by
  unfold recv at step
  split at step
  case h_2 => simp at step
  case h_1 =>
    split at step
    case isTrue =>
      obtain rfl := Option.some.inj step
      exact ⟨rfl, rfl, Nat.le_of_eq List.length_set.symm⟩
    case isFalse =>
      split at step
      case h_1 => simp at step
      case h_2 =>
        split at step
        · obtain rfl := Option.some.inj step
          exact ⟨rfl, rfl, Nat.le_of_eq List.length_set.symm⟩
        · obtain rfl := Option.some.inj step
          exact ⟨rfl, rfl, Nat.le_of_eq List.length_set.symm⟩

theorem invariant (workers : Nat) : (system workers).Invariant
    fun state => state.Sound ∧ state.Rotates workers where
  initial := by
    intro state begins
    obtain rfl : state = start workers := begins
    constructor
    · refine ⟨?_, ?_, ?_, ?_⟩
      · simp [start]
      · simp [start]
      · simp [start]
      · simp [start]
    · refine ⟨?_, ?_, ?_, ?_, ?_, ?_, ?_⟩
      · simp [start]
      · simp [start]
      · intro slot inside
        simp [start, inside]
      · simp [start]
      · simp [start]
      · simp [start]
      · simp [start]
  preserved := by
    intro state label last both step
    obtain ⟨sound, rotates⟩ := both
    change state.next label = some last at step
    cases label with
    | newQueue =>
        obtain rfl := Option.some.inj step
        refine ⟨sound.made rfl rfl rfl rfl, rotates.frame rfl rfl ?_⟩
        simp
    | newPv queue =>
        cases queue with
        | some queue =>
            simp only [next] at step
            split at step
            case isFalse => simp at step
            case isTrue bound =>
              obtain rfl := Option.some.inj step
              refine ⟨sound.newPv bound, rotates.frame rfl rfl ?_⟩
              exact Nat.le_refl _
        | none =>
            simp only [next, Option.map_eq_some_iff] at step
            obtain ⟨called, handsOut, rfl⟩ := step
            obtain ⟨calledSound, bound⟩ := sound.callPool
              (fun _ member => rotates.member member) handsOut
            refine ⟨calledSound.newPv bound, ?_⟩
            exact (rotates.callPool handsOut).frame rfl rfl (Nat.le_refl _)
    | arrive pv =>
        simp only [next] at step
        split at step
        case h_1 => simp at step
        case h_2 served found =>
          split at step
          case h_1 => simp at step
          case h_2 queue queueFound =>
            obtain rfl := Option.some.inj step
            refine ⟨sound.arrive found queueFound, rotates.frame rfl rfl ?_⟩
            exact Nat.le_of_eq List.length_set.symm
    | collect pv =>
        simp only [next] at step
        split at step
        case h_1 => simp at step
        case h_2 served found =>
          obtain rfl := Option.some.inj step
          refine ⟨sound.collect found, rotates.frame rfl rfl ?_⟩
          exact Nat.le_refl _
    | recv queue =>
        obtain ⟨pool, assigned, queues⟩ := recv_frame step
        exact ⟨sound.recv step, rotates.frame pool assigned queues⟩
    | finish queue escapes =>
        refine ⟨sound.finish step, ?_⟩
        simp only [next, Handlers.finish] at step
        split at step
        case h_2 => simp at step
        case h_1 =>
          obtain rfl := Option.some.inj step
          exact rotates.frame rfl rfl (Nat.le_of_eq List.length_set.symm)
    | stop queue =>
        simp only [next] at step
        split at step
        case h_1 => simp at step
        case h_2 current found =>
          obtain rfl := Option.some.inj step
          have bound := (List.getElem?_eq_some_iff.mp found).1
          obtain ⟨serial, order⟩ := sound.serves queue current found
          refine ⟨?_, rotates.frame rfl rfl ?_⟩
          · exact sound.change rfl rfl sound.known bound (fun entry => .inl)
              (fun other _ => ⟨rfl, rfl⟩) ⟨serial, order⟩
          · exact Nat.le_of_eq List.length_set.symm

/-- How many steps of its thread a queue is from waiting for nothing. -/
def left (current : HandlerQueue) : Nat :=
  2 * current.channel.length + if current.worker = .receiving then 0 else 1

theorem progress {state : Handlers} {queue : Nat} {current : HandlerQueue}
    (found : state.queues[queue]? = some current)
    (goesOn : current.stopped = false) (lives : current.worker ≠ .ended)
    (more : left current ≠ 0) :
    ∃ label last changed,
      (label = .recv queue ∨ label = .finish queue false) ∧
      state.next label = some last ∧
      last.queues = state.queues.set queue changed ∧
      changed.stopped = false ∧ changed.worker ≠ .ended ∧
      left changed < left current := by
  obtain ⟨channel, stopped, worker⟩ := current
  cases worker with
  | ended => exact (lives rfl).elim
  | handling arrival =>
      obtain ⟨last, step, queues⟩ : ∃ last,
          state.next (.finish queue false) = some last ∧ last.queues =
            state.queues.set queue ⟨channel, stopped, .receiving⟩ := by
        simp only [next, Handlers.finish, found]
        exact ⟨_, rfl, rfl⟩
      exact ⟨_, last, _, .inr rfl, step, queues, goesOn, by simp,
        by simp [left]⟩
  | receiving =>
      simp only at goesOn
      subst goesOn
      cases channel with
      | nil => simp [left] at more
      | cons arrival rest =>
          cases alive : state.pvs[arrival.pv]?.any ServedPv.alive with
          | true =>
              obtain ⟨last, step, queues⟩ : ∃ last,
                  state.next (.recv queue) = some last ∧ last.queues =
                    state.queues.set queue
                      ⟨rest, false, .handling arrival⟩ := by
                simp only [next, Handlers.recv, found, alive]
                exact ⟨_, rfl, rfl⟩
              refine ⟨_, last, _, .inl rfl, step, queues, rfl, by simp, ?_⟩
              simp only [left, List.length_cons, reduceCtorEq, if_false,
                if_true]
              omega
          | false =>
              obtain ⟨last, step, queues⟩ : ∃ last,
                  state.next (.recv queue) = some last ∧ last.queues =
                    state.queues.set queue ⟨rest, false, .receiving⟩ := by
                simp only [next, Handlers.recv, found, alive]
                exact ⟨_, rfl, rfl⟩
              refine ⟨_, last, _, .inl rfl, step, queues, rfl, by simp, ?_⟩
              simp only [left, List.length_cons, if_true]
              omega

theorem worksOff {workers : Nat} {state : Handlers} {queue : Nat}
    {current : HandlerQueue} (sound : state.Sound)
    (rotates : state.Rotates workers)
    (found : state.queues[queue]? = some current)
    (goesOn : current.stopped = false) (lives : current.worker ≠ .ended) :
    state.WorksOff workers queue := by
  induction size : left current using Nat.strongRecOn
    generalizing state current with
  | _ size induction =>
      have bound := (List.getElem?_eq_some_iff.mp found).1
      by_cases more : left current = 0
      · obtain ⟨channel, stopped, worker⟩ := current
        have empty : channel = [] := by
          cases channel with
          | nil => rfl
          | cons arrival rest => simp [left] at more
        have receiving : worker = .receiving := by
          by_cases receiving : worker = .receiving
          · exact receiving
          · simp [left, receiving] at more
        simp only at goesOn
        subst empty receiving goesOn
        have order := (sound.serves queue _ found).order
        rw [List.append_nil] at order
        exact ⟨[], state, .nil state, by simp, found, order,
          fun _ _ => rfl⟩
      · obtain ⟨label, middle, changed, own, step, queues, changedGoesOn,
          changedLives, fewer⟩ := progress found goesOn lives more
        obtain ⟨middleSound, middleRotates⟩ := (invariant workers).preserved
          _ _ _ ⟨sound, rotates⟩ step
        have middleFound : middle.queues[queue]? = some changed := by
          rw [queues, List.getElem?_set_self bound]
        obtain ⟨labels, last, run, owns, empty, taken, others⟩ :=
          induction _ (size ▸ fewer) middleSound middleRotates middleFound
            changedGoesOn changedLives rfl
        refine ⟨label :: labels, last, .cons step run, ?_, empty, taken, ?_⟩
        · intro other member
          rcases List.mem_cons.mp member with rfl | late
          · exact own
          · exact owns other late
        · intro other apart
          rw [others other apart, queues, List.getElem?_set_ne (Ne.symm apart)]

/-- In every run each queue runs one handler at a time and takes its arrivals in
their order; so does each PV, which stays with its queue.  The pool makes at
most as many queues as it has slots and hands them out in turn.  A queue that is
not stopped, whose thread no handler has ended, is worked off by that thread
alone, whatever the handlers of other queues do. -/
theorem handlers_in_order {workers : Nat} {state : Handlers}
    (reachable : (system workers).Reachable state) :
    (∀ queue current, state.queues[queue]? = some current →
      Serial (state.logOf queue) current.worker.current ∧
        state.taken queue <+: state.arrivedAt queue) ∧
    (∀ pv served, state.pvs[pv]? = some served →
      ((state.taken served.queue).filter fun arrival => arrival.pv = pv) <+:
        state.arrived.filter fun arrival => arrival.pv = pv) ∧
    (∀ call other queue same, state.assigned[call]? = some queue →
      state.assigned[other]? = some same →
        (queue = same ↔ call % workers = other % workers)) ∧
    (∀ queue ∈ state.assigned, queue ∈ state.assigned.take workers) ∧
    ∀ queue current, state.queues[queue]? = some current →
      current.stopped = false → current.worker ≠ .ended →
        state.WorksOff workers queue := by
  obtain ⟨sound, rotates⟩ := (invariant workers).reachable reachable
  have positive {call queue : Nat}
      (found : state.assigned[call]? = some queue) : 0 < workers :=
    rotates.positive (List.ne_nil_of_mem (List.mem_of_getElem? found))
  have inOrder {queue : Nat} {current : HandlerQueue}
      (found : state.queues[queue]? = some current) :
      state.taken queue <+: state.arrivedAt queue :=
    ⟨current.channel, (sound.serves queue current found).order⟩
  refine ⟨?_, ?_, ?_, ?_, ?_⟩
  · intro queue current found
    exact ⟨(sound.serves queue current found).serial, inOrder found⟩
  · intro pv served found
    have bound := sound.bound served (List.mem_of_getElem? found)
    have prefixes := (inOrder (List.getElem?_eq_getElem bound)).filter
      fun arrival => arrival.pv = pv
    have same : ((state.arrivedAt served.queue).filter fun arrival =>
        arrival.pv = pv) =
          state.arrived.filter fun arrival => arrival.pv = pv := by
      rw [arrivedAt, List.filter_filter]
      apply List.filter_congr
      intro arrival _
      by_cases own : arrival.pv = pv
      · simp [own, found]
      · simp [own]
    rw [same] at prefixes
    exact prefixes
  · intro call other queue same found sameFound
    have turn := rotates.turns call queue found
    have otherTurn := rotates.turns other same sameFound
    constructor
    · intro equal
      subst equal
      exact rotates.distinct _ _ queue (Nat.mod_lt _ (positive found))
        (Nat.mod_lt _ (positive found)) turn otherTurn
    · intro together
      rw [together, otherTurn] at turn
      exact (Option.some.inj turn).symm
  · intro queue member
    obtain ⟨call, found⟩ := List.mem_iff_getElem?.mp member
    have turn := rotates.turns call queue found
    apply List.mem_of_getElem? (i := call % workers)
    rw [List.getElem?_take_of_lt (Nat.mod_lt _ (positive found))]
    exact turn
  · intro queue current found goesOn lives
    exact worksOff sound rotates found goesOn lives

/-- The handler of one PV takes its time while that of another is done. -/
def slowHandler : List HandlerStep :=
  [.newPv none, .newPv none, .arrive 0, .arrive 0, .recv 0, .arrive 1,
    .recv 1, .finish 1 false]

def after (labels : List HandlerStep) : Handlers :=
  (labels.foldlM next (start 4)).getD (start 4)

theorem handlers_in_order_slow :
    (after slowHandler).logOf 0 = [.started ⟨0, 0⟩] ∧
      (after slowHandler).logOf 1 = [.started ⟨1, 2⟩, .finished ⟨1, 2⟩] ∧
        (after slowHandler).WorksOff 4 0 := by
  have run : (system 4).Reachable (after slowHandler) :=
    ⟨start 4, slowHandler, rfl, .of_foldlM rfl⟩
  obtain ⟨-, -, -, -, worksOff⟩ := handlers_in_order run
  exact ⟨rfl, rfl, worksOff 0 _ rfl rfl (by decide)⟩

end Handlers

end Repics.Server
