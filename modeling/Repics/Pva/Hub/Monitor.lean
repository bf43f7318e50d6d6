import Mathlib.Data.List.Count
import Repics.Pva.Snapshot

/-!
# The queue of one monitor

Wire callbacks push decoded values and connection events, and `recv_batch`
takes the whole queue.  A value is squashed into the value at the tail when
the queue holds `limit` values already.  Connection events are never squashed,
and a value behind one is queued whatever the count, so the limit bounds the
values only as long as no value arrives at a full queue behind an event.
-/

namespace Repics.Pva.Hub

structure SocketAddr where
  ip : Str
  port : UInt16
  deriving DecidableEq

/-- What the wire reports about the connection of a monitor. -/
inductive MonitorConnEvent where
  | connected (peer : SocketAddr)
  | disconnected
  | finished
  deriving DecidableEq

inductive Update where
  | value (desc : FieldDesc) (value : PvField) (changed : BitSet)
  | connected (peer : SocketAddr)
  | disconnected
  | finished

namespace Update

def ofEvent : MonitorConnEvent → Update
  | .connected peer => .connected peer
  | .disconnected => .disconnected
  | .finished => .finished

def isValue : Update → Bool
  | .value _ _ _ => true
  | _ => false

def snapshot? : Update → Option Snapshot
  | .value _ field changed => some ⟨field, changed⟩
  | _ => none

/-- A value is merged into a value: newer wins, changed sets union. -/
def squash? : Update → Update → Option Update
  | .value _ _ tailChanged, .value desc field changed =>
      some (.value desc field (tailChanged ∪ changed))
  | _, _ => none

@[simp] theorem isValue_value (desc : FieldDesc) (field : PvField)
    (changed : BitSet) : (Update.value desc field changed).isValue = true :=
  rfl

@[simp] theorem isValue_ofEvent (event : MonitorConnEvent) :
    (ofEvent event).isValue = false := by
  cases event <;> rfl

@[simp] theorem snapshot?_ofEvent (event : MonitorConnEvent) :
    (ofEvent event).snapshot? = none := by
  cases event <;> rfl

theorem squash?_snapshot {tail item merged : Update}
    (squashed : squash? tail item = some merged) :
    ∃ left right both, tail.snapshot? = some left ∧
      item.snapshot? = some right ∧ merged.snapshot? = some both ∧
      left.squash right = some both := by
  cases tail with
  | value _ tailValue tailChanged =>
      cases item with
      | value desc value changed =>
          simp only [squash?, Option.some.injEq] at squashed
          subst squashed
          exact ⟨_, _, _, rfl, rfl, rfl, rfl⟩
      | _ => simp [squash?] at squashed
  | _ => simp [squash?] at squashed

end Update

structure Queue where
  items : List Update
  limit : Nat
  signalled : Bool

namespace Queue

/-- The queue `subscribe` creates. -/
def opened (limit : Nat) : Queue where
  items := [.disconnected]
  limit := limit
  signalled := false

/-- Set the flag; the id has to be sent when it was not set before. -/
def signal (q : Queue) : Queue × Bool :=
  ({ q with signalled := true }, !q.signalled)

def push (q : Queue) (u : Update) : Queue × Bool :=
  { q with items := q.items ++ [u] }.signal

def values (q : Queue) : Nat :=
  q.items.countP Update.isValue

def pushValue (q : Queue) (desc : FieldDesc) (value : PvField)
    (changed : BitSet) : Queue × Bool :=
  if q.limit ≤ q.values then
    match q.items.getLast? with
    | some (.value _ _ tailChanged) =>
        { q with
          items := q.items.dropLast ++
            [Update.value desc value (tailChanged ∪ changed)] }.signal
    | _ => q.push (.value desc value changed)
  else q.push (.value desc value changed)

/-- Everything queued; the next push signals again. -/
def take (q : Queue) : Queue × List Update :=
  ({ q with items := [], signalled := false }, q.items)

/-- The newest item is a connection event. -/
def EventAtTail (q : Queue) : Prop :=
  ∃ item, q.items.getLast? = some item ∧ item.isValue = false

instance (q : Queue) : Decidable q.EventAtTail :=
  match found : q.items.getLast? with
  | none => .isFalse (by simp [EventAtTail, found])
  | some item => decidable_of_iff (item.isValue = false)
      (by simp [EventAtTail, found])

def events (q : Queue) : Nat :=
  q.items.countP fun item => !item.isValue

@[simp] theorem signal_items (q : Queue) : q.signal.1.items = q.items :=
  rfl

@[simp] theorem signal_limit (q : Queue) : q.signal.1.limit = q.limit :=
  rfl

@[simp] theorem push_items (q : Queue) (u : Update) :
    (q.push u).1.items = q.items ++ [u] :=
  rfl

@[simp] theorem push_limit (q : Queue) (u : Update) :
    (q.push u).1.limit = q.limit :=
  rfl

@[simp] theorem take_items (q : Queue) : q.take.1.items = [] :=
  rfl

@[simp] theorem push_signalled (q : Queue) (u : Update) :
    (q.push u).1.signalled = true :=
  rfl

@[simp] theorem push_sends (q : Queue) (u : Update) :
    (q.push u).2 = !q.signalled :=
  rfl

theorem eventAtTail_iff {q : Queue} {front : List Update} {item : Update}
    (split : q.items = front ++ [item]) :
    q.EventAtTail ↔ item.isValue = false := by
  simp [EventAtTail, split]

/-- A value is merged into the value at the tail of a full queue and queued
behind everything else. -/
theorem pushValue_cases (q : Queue) (desc : FieldDesc) (value : PvField)
    (changed : BitSet) :
    (q.limit ≤ q.values ∧ ∃ front tailDesc tailValue tailChanged,
      q.items = front ++ [Update.value tailDesc tailValue tailChanged] ∧
      q.pushValue desc value changed =
        { q with
          items := front ++
            [Update.value desc value (tailChanged ∪ changed)] }.signal) ∨
    ((q.values < q.limit ∨ q.items = [] ∨ q.EventAtTail) ∧
      q.pushValue desc value changed = q.push (.value desc value changed)) := by
  rcases Nat.lt_or_ge q.values q.limit with room | full
  · exact .inr ⟨.inl room, by simp [pushValue, Nat.not_le.mpr room]⟩
  · rcases List.eq_nil_or_concat' q.items with empty | ⟨front, tail, split⟩
    · exact .inr ⟨.inr (.inl empty), by simp [pushValue, empty]⟩
    · cases tail with
      | value tailDesc tailValue tailChanged =>
          exact .inl ⟨full, front, tailDesc, tailValue, tailChanged, split,
            by simp [pushValue, full, split]⟩
      | _ =>
          exact .inr ⟨.inr (.inr ((eventAtTail_iff split).mpr rfl)),
            by simp [pushValue, split]⟩

theorem pushValue_limit (q : Queue) (desc : FieldDesc) (value : PvField)
    (changed : BitSet) :
    (q.pushValue desc value changed).1.limit = q.limit := by
  rcases q.pushValue_cases desc value changed with
    ⟨-, front, _, _, _, -, result⟩ | ⟨-, result⟩ <;> simp [result]

theorem pushValue_signals (q : Queue) (desc : FieldDesc) (value : PvField)
    (changed : BitSet) :
    (q.pushValue desc value changed).1.signalled = true ∧
      (q.pushValue desc value changed).2 = !q.signalled := by
  rcases q.pushValue_cases desc value changed with
    ⟨-, front, _, _, _, -, result⟩ | ⟨-, result⟩ <;> simp [result, signal]

/-- Pushing squashes: nothing that was pushed is lost or reordered. -/
theorem pushValue_squashed {pushed taken : List Update} {q : Queue}
    (squashed : Squashed Update.squash? pushed (taken ++ q.items))
    (desc : FieldDesc) (value : PvField) (changed : BitSet) :
    Squashed Update.squash? (pushed ++ [.value desc value changed])
      (taken ++ (q.pushValue desc value changed).1.items) := by
  rcases q.pushValue_cases desc value changed with
    ⟨-, front, _, _, _, split, result⟩ | ⟨-, result⟩
  · rw [split, ← List.append_assoc] at squashed
    rw [result, signal_items, ← List.append_assoc]
    exact squashed.merge rfl
  · rw [result, push_items, ← List.append_assoc]
    exact squashed.append _

theorem push_squashed {pushed taken : List Update} {q : Queue}
    (squashed : Squashed Update.squash? pushed (taken ++ q.items))
    (u : Update) :
    Squashed Update.squash? (pushed ++ [u])
      (taken ++ (q.push u).1.items) := by
  rw [push_items, ← List.append_assoc]
  exact squashed.append u

/-- What happens to a queue from the outside. -/
inductive Op where
  | value (desc : FieldDesc) (value : PvField) (changed : BitSet)
  | event (event : MonitorConnEvent)
  | take

def apply (q : Queue) : Op → Queue
  | .value desc value changed => (q.pushValue desc value changed).1
  | .event event => (q.push (.ofEvent event)).1
  | .take => q.take.1

/-- A value does not find a full queue with an event at its tail, and an event
finds fewer than `most` events. -/
def Op.Within (most : Nat) (q : Queue) : Op → Prop
  | .value _ _ _ => ¬(q.values = q.limit ∧ q.EventAtTail)
  | .event _ => q.events < most
  | .take => True

/-- Every operation of a run is within the bounds in the state it finds. -/
def Admitted (most : Nat) : Queue → List Op → Prop
  | _, [] => True
  | q, op :: ops => op.Within most q ∧ Admitted most (q.apply op) ops

/-- No value finds a full queue with an event at its tail. -/
def Roomy : Queue → List Op → Prop
  | _, [] => True
  | q, .value desc value changed :: ops =>
      ¬(q.values = q.limit ∧ q.EventAtTail) ∧
        Roomy (q.apply (.value desc value changed)) ops
  | q, op :: ops => Roomy (q.apply op) ops

/-- There are at most so many events between two takes, of which `count` have
come already. -/
def Spaced (most : Nat) : Nat → List Op → Prop
  | _, [] => True
  | count, .event _ :: ops => count < most ∧ Spaced most (count + 1) ops
  | _, .take :: ops => Spaced most 0 ops
  | count, .value _ _ _ :: ops => Spaced most count ops

/-- The states of a run, from the first to the last. -/
def along : Queue → List Op → List Queue
  | q, [] => [q]
  | q, op :: ops => q :: along (q.apply op) ops

theorem length_eq (q : Queue) : q.items.length = q.values + q.events := by
  simpa [values, events] using
    List.length_eq_countP_add_countP Update.isValue (l := q.items)

theorem apply_limit (q : Queue) (op : Op) : (q.apply op).limit = q.limit := by
  cases op with
  | value desc value changed => exact q.pushValue_limit desc value changed
  | event event => rfl
  | take => rfl

theorem values_snoc {q : Queue} {front : List Update} {item : Update}
    (split : q.items = front ++ [item]) :
    q.values = front.countP Update.isValue + if item.isValue then 1 else 0 := by
  simp [values, split, List.countP_cons]

theorem events_snoc {q : Queue} {front : List Update} {item : Update}
    (split : q.items = front ++ [item]) :
    q.events = (front.countP fun item => !item.isValue) +
      if item.isValue then 0 else 1 := by
  cases kind : item.isValue <;> simp [events, split, kind]

/-- A value never adds an event, and adds a value unless it is squashed. -/
theorem pushValue_counts {q : Queue} (positive : 1 ≤ q.limit)
    (fewValues : q.values ≤ q.limit) (desc : FieldDesc) (value : PvField)
    (changed : BitSet) :
    (q.pushValue desc value changed).1.events = q.events ∧
      ((q.pushValue desc value changed).1.values ≤ q.limit ↔
        ¬(q.values = q.limit ∧ q.EventAtTail)) := by
  rcases q.pushValue_cases desc value changed with
    ⟨full, front, _, _, _, split, result⟩ | ⟨unsquashed, result⟩
  · have notEvent : ¬q.EventAtTail := by
      simp [eventAtTail_iff split]
    have oldValues := values_snoc split
    have oldEvents := events_snoc split
    simp only [Update.isValue_value, if_true] at oldValues oldEvents
    simp only [result, notEvent, and_false, not_false_eq_true, iff_true]
    constructor
    · rw [oldEvents]
      simp [events]
    · simpa [values, ← oldValues] using fewValues
  · have newValues := values_snoc (q.push_items (.value desc value changed))
    have newEvents := events_snoc (q.push_items (.value desc value changed))
    simp only [Update.isValue_value, if_true] at newValues newEvents
    rw [result, newValues, newEvents]
    refine ⟨rfl, ?_⟩
    change q.values + 1 ≤ q.limit ↔ _
    rcases unsquashed with room | empty | event
    · simp only [Nat.ne_of_lt room, false_and, not_false_eq_true, iff_true]
      omega
    · have none : q.values = 0 := by simp [values, empty]
      omega
    · simp only [event, and_true]
      omega

/-- One operation keeps the bounds exactly when it is within them. -/
theorem apply_bounded_iff {q : Queue} {most : Nat} (positive : 1 ≤ q.limit)
    (fewValues : q.values ≤ q.limit) (fewEvents : q.events ≤ most) (op : Op) :
    ((q.apply op).values ≤ q.limit ∧ (q.apply op).events ≤ most) ↔
      op.Within most q := by
  cases op with
  | value desc value changed =>
      obtain ⟨sameEvents, few⟩ :=
        pushValue_counts positive fewValues desc value changed
      simp only [apply, Op.Within, sameEvents, few, fewEvents, and_true]
  | event event =>
      have oneMore := events_snoc (q.push_items (.ofEvent event))
      have sameValues := values_snoc (q.push_items (.ofEvent event))
      simp only [Update.isValue_ofEvent, Bool.false_eq_true, if_false]
        at oneMore sameValues
      simp only [apply, Op.Within, oneMore, sameValues]
      simp only [values, events] at fewValues ⊢
      omega
  | take => simp [apply, Op.Within, values, events]

/-- The bounds hold along a run exactly when each operation is within them in
the state it finds. -/
theorem along_bounded_iff {q : Queue} {most : Nat} (positive : 1 ≤ q.limit)
    (fewValues : q.values ≤ q.limit) (fewEvents : q.events ≤ most)
    (ops : List Op) :
    (∀ state ∈ along q ops,
      state.values ≤ q.limit ∧ state.events ≤ most) ↔
      Admitted most q ops := by
  induction ops generalizing q with
  | nil => simp [along, Admitted, fewValues, fewEvents]
  | cons op ops induction =>
      have step := apply_bounded_iff positive fewValues fewEvents op
      have next := @induction (q.apply op)
      simp only [apply_limit] at next
      simp only [along, Admitted, List.forall_mem_cons]
      constructor
      · rintro ⟨-, bounded⟩
        have first : (q.apply op).values ≤ q.limit ∧
            (q.apply op).events ≤ most := by
          refine bounded _ ?_
          cases ops <;> simp [along]
        exact ⟨step.mp first,
          (next positive first.1 first.2).mp bounded⟩
      · rintro ⟨within, admitted⟩
        have first := step.mpr within
        exact ⟨⟨fewValues, fewEvents⟩,
          (next positive first.1 first.2).mpr admitted⟩

/-- The events in the queue are those since the last take. -/
theorem admitted_iff {q : Queue} {most : Nat} (positive : 1 ≤ q.limit)
    (fewValues : q.values ≤ q.limit) (ops : List Op) :
    Admitted most q ops ↔ Roomy q ops ∧ Spaced most q.events ops := by
  induction ops generalizing q with
  | nil => simp [Admitted, Roomy, Spaced]
  | cons op ops induction =>
      have next := @induction (q.apply op)
      simp only [apply_limit] at next
      cases op with
      | value desc value changed =>
          obtain ⟨sameEvents, few⟩ :=
            pushValue_counts positive fewValues desc value changed
          simp only [apply] at next
          rw [sameEvents] at next
          simp only [Admitted, Roomy, Spaced, Op.Within, apply]
          rw [and_assoc]
          exact and_congr_right fun room =>
            next positive (few.mpr room)
      | event event =>
          have oneMore := events_snoc (q.push_items (.ofEvent event))
          have sameValues := values_snoc (q.push_items (.ofEvent event))
          simp only [Update.isValue_ofEvent, Bool.false_eq_true, if_false]
            at oneMore sameValues
          have events : (q.apply (.event event)).events = q.events + 1 :=
            oneMore
          have values : (q.apply (.event event)).values = q.values :=
            sameValues
          rw [events, values] at next
          simp only [Admitted, Roomy, Spaced, Op.Within]
          rw [next positive fewValues, and_left_comm]
      | take =>
          have values : (q.apply .take).values = 0 := rfl
          have events : (q.apply .take).events = 0 := rfl
          rw [events, values] at next
          simp only [Admitted, Roomy, Spaced, Op.Within, true_and]
          exact next positive (Nat.zero_le _)

/-- The queue stays bounded by its limit in every run in which no value
arrives at a full queue behind an event and at most `most limit` events arrive
between two takes, with the one that is there from the start; these are exactly
the runs that keep the values and the events apart within these bounds. -/
theorem queue_bounded (most : Nat → Nat) {limit : Nat}
    (positive : 1 ≤ limit) (someEvent : 1 ≤ most limit) (ops : List Op) :
    (Roomy (opened limit) ops ∧ Spaced (most limit) 1 ops →
      ∀ q ∈ along (opened limit) ops,
        q.values ≤ limit ∧ q.items.length ≤ limit + most limit) ∧
    ((∀ q ∈ along (opened limit) ops,
        q.values ≤ limit ∧ q.items.length ≤ q.values + most limit) ↔
      Roomy (opened limit) ops ∧ Spaced (most limit) 1 ops) := by
  have exactly : (∀ q ∈ along (opened limit) ops,
      q.values ≤ limit ∧ q.events ≤ most limit) ↔
        Roomy (opened limit) ops ∧ Spaced (most limit) 1 ops :=
    (along_bounded_iff (q := opened limit) positive (Nat.zero_le _)
      someEvent ops).trans
        (admitted_iff (q := opened limit) positive (Nat.zero_le _) ops)
  have sameBound (q : Queue) :
      q.items.length ≤ q.values + most limit ↔ q.events ≤ most limit := by
    rw [length_eq]
    omega
  refine ⟨?_, by simpa only [sameBound] using exactly⟩
  intro admitted q member
  obtain ⟨fewValues, fewEvents⟩ := exactly.mpr admitted q member
  refine ⟨fewValues, ?_⟩
  rw [length_eq]
  omega

theorem queue_bounded_reconnecting :
    let ops : List Op := [.event (.connected ⟨"10.0.0.1".toList, 5075⟩),
      .value .variant .null {0}, .value .variant .null {0}, .take,
      .event .disconnected]
    ∀ q ∈ along (opened 1) ops,
      q.values ≤ 1 ∧ q.items.length ≤ 1 + 2 :=
  (queue_bounded (fun limit => limit + 1) (le_refl 1) (by decide) _).1
    (by
      simp only [Roomy, Spaced]
      decide)

/-- A value queued behind an event that found the queue full. -/
theorem queue_exceeds_limit :
    ∃ q ∈ along (opened 1) [.value .variant .null {0}, .event .disconnected,
      .value .variant .null {0}], ¬q.values ≤ 1 := by
  refine ⟨_, List.mem_of_getLast? rfl, ?_⟩
  decide

theorem events_unbounded (q : Queue) (count : Nat) :
    ∃ last ∈ along q (List.replicate count (.event .disconnected)),
      last.items.length = q.items.length + count := by
  induction count generalizing q with
  | zero => exact ⟨q, by simp [along], rfl⟩
  | succ count induction =>
      obtain ⟨last, member, length⟩ :=
        induction (q.apply (.event .disconnected))
      refine ⟨last, ?_, ?_⟩
      · rw [List.replicate_succ, along]
        exact List.mem_cons_of_mem _ member
      · simp only [apply, push_items, List.length_append,
          List.length_singleton] at length
        omega

end Queue

end Repics.Pva.Hub
