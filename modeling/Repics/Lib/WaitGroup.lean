import Mathlib.Data.List.Basic

/-!
# Waiting for a count to be zero

A count is kept under a mutex, with a condition variable that is notified when
the count falls to zero.  A waiter takes the mutex, looks at the count, and
parks while it is positive; it gives the mutex up and parks in one step.  It
may be woken by a notification, by its timeout, or for no reason, and looks
again each time.

Each section under the mutex is one step, since none of them waits inside.
-/

/-- A waiter is parked, is to take the mutex and look, or has returned whether
the count was zero. -/
inductive Waiter where
  | parked
  | awake
  | returned (idle : Bool)
  deriving DecidableEq

structure WaitGroup where
  count : Nat
  waiters : List Waiter

namespace WaitGroup

inductive Step where
  | enter
  | wake (waiter : Nat)
  | look (waiter : Nat) (elapsed : Bool)

def fresh : WaitGroup :=
  ⟨0, []⟩

def notify : Waiter → Waiter
  | .parked => .awake
  | waiter => waiter

def add (group : WaitGroup) : WaitGroup :=
  { group with count := group.count + 1 }

/-- The one that brings the count to zero notifies every waiter. -/
def done (group : WaitGroup) : WaitGroup :=
  if group.count - 1 = 0 then ⟨0, group.waiters.map notify⟩
  else { group with count := group.count - 1 }

/-- What a waiter does when it has the mutex. -/
def look (group : WaitGroup) (elapsed : Bool) : Waiter :=
  if group.count = 0 then .returned true
  else if elapsed then .returned false
  else .parked

def next (group : WaitGroup) : Step → Option WaitGroup
  | .enter => some { group with waiters := group.waiters ++ [.awake] }
  | .wake waiter =>
      match group.waiters[waiter]? with
      | some .parked =>
          some { group with waiters := group.waiters.set waiter .awake }
      | _ => none
  | .look waiter elapsed =>
      match group.waiters[waiter]? with
      | some .awake => some { group with
          waiters := group.waiters.set waiter (group.look elapsed) }
      | _ => none

/-- No waiter sleeps while the count is zero. -/
def Roused (group : WaitGroup) : Prop :=
  .parked ∈ group.waiters → 0 < group.count

@[simp] theorem add_count (group : WaitGroup) :
    group.add.count = group.count + 1 := rfl

@[simp] theorem done_count (group : WaitGroup) :
    group.done.count = group.count - 1 := by
  unfold done
  split
  · next zero => exact zero.symm
  · rfl

theorem fresh_roused : fresh.Roused := by
  simp [Roused, fresh]

theorem add_roused (group : WaitGroup) : group.add.Roused :=
  fun _ => Nat.succ_pos group.count

theorem not_parked_mem_notify (waiters : List Waiter) :
    .parked ∉ waiters.map notify := by
  intro member
  obtain ⟨waiter, -, is⟩ := List.mem_map.mp member
  cases waiter with
  | _ => simp [notify] at is

theorem done_roused (group : WaitGroup) : group.done.Roused := by
  unfold done
  split
  · exact fun parked => (not_parked_mem_notify _ parked).elim
  · next positive => exact fun _ => Nat.pos_of_ne_zero positive

@[simp] theorem next_count {group last : WaitGroup} {step : Step}
    (taken : group.next step = some last) : last.count = group.count := by
  cases step with
  | enter =>
      obtain rfl := Option.some.inj taken
      rfl
  | wake waiter =>
      simp only [next] at taken
      split at taken
      · obtain rfl := Option.some.inj taken
        rfl
      · simp at taken
  | look waiter elapsed =>
      simp only [next] at taken
      split at taken
      · obtain rfl := Option.some.inj taken
        rfl
      · simp at taken

theorem Roused.next {group last : WaitGroup} {step : Step}
    (roused : group.Roused) (taken : group.next step = some last) :
    last.Roused := by
  cases step with
  | enter =>
      obtain rfl := Option.some.inj taken
      intro parked
      apply roused
      simpa using parked
  | wake waiter =>
      simp only [WaitGroup.next] at taken
      split at taken
      · obtain rfl := Option.some.inj taken
        intro parked
        rcases List.mem_or_eq_of_mem_set parked with before | new
        · exact roused before
        · simp at new
      · simp at taken
  | look waiter elapsed =>
      simp only [WaitGroup.next] at taken
      split at taken
      · obtain rfl := Option.some.inj taken
        intro parked
        rcases List.mem_or_eq_of_mem_set parked with before | new
        · exact roused before
        · apply Nat.pos_of_ne_zero
          intro zero
          have empty : group.count = 0 := zero
          simp [look, empty] at new
      · simp at taken

/-- A waiter returns true only when it sees that the count is zero. -/
theorem returns_idle {group last : WaitGroup} {waiter : Nat} {step : Step}
    (taken : group.next step = some last)
    (idle : last.waiters[waiter]? = some (.returned true))
    (before : group.waiters[waiter]? ≠ some (.returned true)) :
    group.count = 0 := by
  cases step with
  | enter =>
      obtain rfl := Option.some.inj taken
      rcases Nat.lt_or_ge waiter group.waiters.length with old | new
      · rw [List.getElem?_append_left old] at idle
        exact (before idle).elim
      · rw [List.getElem?_append_right new] at idle
        have member := List.mem_of_getElem? idle
        simp at member
  | wake other =>
      simp only [next] at taken
      split at taken
      case h_2 => simp at taken
      case h_1 parked =>
        obtain rfl := Option.some.inj taken
        have bound := (List.getElem?_eq_some_iff.mp parked).1
        by_cases same : other = waiter
        · subst same
          rw [List.getElem?_set_self bound] at idle
          simp at idle
        · rw [List.getElem?_set_ne same] at idle
          exact (before idle).elim
  | look other elapsed =>
      simp only [next] at taken
      split at taken
      case h_2 => simp at taken
      case h_1 awake =>
        obtain rfl := Option.some.inj taken
        have bound := (List.getElem?_eq_some_iff.mp awake).1
        by_cases same : other = waiter
        · subst same
          rw [List.getElem?_set_self bound] at idle
          by_cases zero : group.count = 0
          · exact zero
          · cases elapsed with
            | _ => simp [look, zero] at idle
        · rw [List.getElem?_set_ne same] at idle
          exact (before idle).elim

end WaitGroup
