import Mathlib.Algebra.BigOperators.Group.List.Basic
import Mathlib.Algebra.GroupWithZero.Nat
import Repics.Lib.Transition
import Repics.Lib.WaitGroup

/-!
# Futures handed to asyncio

A Rust future that is not ready at once runs on the runtime.  Its outcome goes
through a task and a blocking thread, which posts it to the event loop of the
asyncio future unless that was cancelled meanwhile, and a callback of the loop
settles the asyncio future.  From the hand-over until the blocking thread is
through, the future is counted in `IN_FLIGHT`, and `wait_idle` waits until the
count is zero, so that the interpreter may be finalized then.
-/

namespace Repics.Asyncio

/-- An asyncio future. -/
inductive Future (Value Error : Type) where
  | pending
  | cancelled
  | result (value : Value)
  | exception (error : Error)

/-- What `set_result` or `set_exception` makes of a future. -/
def Future.settled {Value Error : Type} :
    Except Error Value → Future Value Error
  | .ok value => .result value
  | .error error => .exception error

def Future.isCancelled {Value Error : Type} : Future Value Error → Bool
  | .cancelled => true
  | _ => false

def Future.isPending {Value Error : Type} : Future Value Error → Bool
  | .pending => true
  | _ => false

/-- How far a future is: its task runs, the task has ended, with nothing if it
was cancelled, the blocking thread is attached to the interpreter, it has seen
that the asyncio future is not cancelled, it is to drop its guard, or it has
done so. -/
inductive Stage (Value Error : Type) where
  | running
  | ended (result : Option (Except Error Value))
  | attached (result : Except Error Value)
  | posting (result : Except Error Value)
  | leaving
  | gone

/-- A future that was handed over.  `outcome` is kept for the record: what its
task ended with. -/
structure Handed (Value Error : Type) where
  home : Nat
  stage : Stage Value Error
  future : Future Value Error
  relayed : Bool
  outcome : Option (Option (Except Error Value))

/-- What waits in the line of an event loop: `CancelRelay` as the done callback
of a future, or `Completor`. -/
inductive Callback (Value Error : Type) where
  | relay (index : Nat)
  | complete (index : Nat) (result : Except Error Value)

structure EventLoop (Value Error : Type) where
  isOpen : Bool
  line : List (Callback Value Error)

/-- `settlements` is kept for the record: each call of `set_result` or
`set_exception`. -/
structure Runtime (Value Error : Type) where
  inFlight : WaitGroup
  handed : List (Handed Value Error)
  loops : List (EventLoop Value Error)
  initialized : Bool
  settlements : List (Nat × Except Error Value)

inductive Label (Value Error : Type) where
  | newLoop
  | closeLoop (home : Nat)
  | handOver (home : Nat)
  | finish (index : Nat) (result : Except Error Value)
  | drop (index : Nat)
  | attach (index : Nat)
  | check (index : Nat)
  | post (index : Nat)
  | leave (index : Nat)
  | cancel (index : Nat)
  | turn (home : Nat)
  | finalize
  | wait (step : WaitGroup.Step)

variable {Value Error : Type}

def Stage.counts : Stage Value Error → Bool
  | .gone => false
  | _ => true

/-- How many steps a future is from being through. -/
def Stage.left : Stage Value Error → Nat
  | .running => 5
  | .ended _ => 4
  | .attached _ => 3
  | .posting _ => 2
  | .leaving => 1
  | .gone => 0

def Label.isHandOver : Label Value Error → Bool
  | .handOver _ => true
  | _ => false

/-- A step of the task or of the blocking thread of a future. -/
def Label.ofRuntime : Label Value Error → Bool
  | .finish _ _ | .drop _ | .attach _ | .check _ | .post _ | .leave _ => true
  | _ => false

/-- The runtime still owes the future a completion. -/
def Handed.counts (handed : Handed Value Error) : Bool :=
  handed.stage.counts

/-- The index of the future that a callback is for. -/
def Callback.index : Callback Value Error → Nat
  | .relay index => index
  | .complete index _ => index

/-- The result that a callback brings to a future. -/
def Callback.brings (index : Nat) :
    Callback Value Error → Option (Except Error Value)
  | .relay _ => none
  | .complete other result => if other = index then some result else none

namespace Runtime

section Step

variable (state : Runtime Value Error)

def put (index : Nat) (handed : Handed Value Error) :
    Runtime Value Error :=
  { state with handed := state.handed.set index handed }

/-- `call_soon` of a loop, which a closed loop refuses. -/
def callSoon (home : Nat) (callback : Callback Value Error) :
    Runtime Value Error :=
  match state.loops[home]? with
  | some loop =>
      if loop.isOpen then
        { state with
          loops := state.loops.set home ⟨true, loop.line ++ [callback]⟩ }
      else state
  | none => state

/-- The done callbacks of a future are scheduled on its loop. -/
def settle (index : Nat) (handed : Handed Value Error)
    (future : Future Value Error) : Runtime Value Error :=
  (state.put index { handed with future := future }).callSoon handed.home
    (.relay index)

/-- `hand_to_asyncio`, called on a running loop. -/
def handOver (home : Nat) : Option (Runtime Value Error) :=
  match state.loops[home]? with
  | some loop =>
      if loop.isOpen ∧ state.initialized then
        some { state with
          inFlight := state.inFlight.add
          handed := state.handed ++ [⟨home, .running, .pending, false, none⟩] }
      else none
  | none => none

/-- The blocking thread begins: it leaves at once with nothing to post, or
when the interpreter is gone. -/
def attach (index : Nat) : Option (Runtime Value Error) :=
  match state.handed[index]? with
  | some handed =>
      match handed.stage with
      | .ended none => some (state.put index { handed with stage := .leaving })
      | .ended (some result) =>
          some (state.put index { handed with
            stage := if state.initialized then .attached result
              else .leaving })
      | _ => none
  | none => none

/-- The thread reads whether the asyncio future is cancelled. -/
def check (index : Nat) : Option (Runtime Value Error) :=
  match state.handed[index]? with
  | some handed =>
      match handed.stage with
      | .attached result =>
          some (state.put index { handed with
            stage := if handed.future.isCancelled then .leaving
              else .posting result })
      | _ => none
  | none => none

def post (index : Nat) : Option (Runtime Value Error) :=
  match state.handed[index]? with
  | some handed =>
      match handed.stage with
      | .posting result =>
          some ((state.put index { handed with stage := .leaving }).callSoon
            handed.home (.complete index result))
      | _ => none
  | none => none

/-- `InFlight::drop`. -/
def leave (index : Nat) : Option (Runtime Value Error) :=
  match state.handed[index]? with
  | some handed =>
      match handed.stage with
      | .leaving => some { state.put index { handed with stage := .gone } with
          inFlight := state.inFlight.done }
      | _ => none
  | none => none

/-- A callback of a loop: `CancelRelay` sends on a cancellation, `Completor`
settles the future unless it was cancelled. -/
def run : Callback Value Error → Runtime Value Error
  | .relay index =>
      match state.handed[index]? with
      | some handed =>
          if handed.future.isCancelled then
            state.put index { handed with relayed := true }
          else state
      | none => state
  | .complete index result =>
      match state.handed[index]? with
      | some handed =>
          if handed.future.isCancelled then state
          else { state.settle index handed (.settled result) with
            settlements := state.settlements ++ [(index, result)] }
      | none => state

def turn (home : Nat) : Option (Runtime Value Error) :=
  match state.loops[home]? with
  | some ⟨true, callback :: line⟩ =>
      some ({ state with loops := state.loops.set home ⟨true, line⟩ }.run
        callback)
  | _ => none

def next : Label Value Error → Option (Runtime Value Error)
  | .newLoop => some { state with loops := state.loops ++ [⟨true, []⟩] }
  | .closeLoop home =>
      match state.loops[home]? with
      | some _ => some { state with
          loops := state.loops.set home ⟨false, []⟩ }
      | none => none
  | .handOver home => state.handOver home
  | .finish index result =>
      match state.handed[index]? with
      | some handed =>
          match handed.stage with
          | .running => some (state.put index { handed with
              stage := .ended (some result)
              outcome := some (some result) })
          | _ => none
      | none => none
  | .drop index =>
      match state.handed[index]? with
      | some handed =>
          match handed.stage, handed.relayed with
          | .running, true => some (state.put index { handed with
              stage := .ended none
              outcome := some none })
          | _, _ => none
      | none => none
  | .attach index => state.attach index
  | .check index => state.check index
  | .post index => state.post index
  | .leave index => state.leave index
  | .cancel index =>
      match state.handed[index]? with
      | some handed =>
          if handed.future.isPending then
            some (state.settle index handed .cancelled)
          else none
      | none => none
  | .turn home => state.turn home
  | .finalize => some { state with initialized := false }
  | .wait step => (state.inFlight.next step).map fun inFlight =>
      { state with inFlight := inFlight }

end Step

def fresh : Runtime Value Error :=
  ⟨.fresh, [], [], true, []⟩

def system : Transition (Runtime Value Error) (Label Value Error) :=
  .ofPartial (fun state => state = fresh) next

section Spec

variable (state : Runtime Value Error)

/-- The results for a future that wait in the line of its loop. -/
def posted (home index : Nat) : List (Except Error Value) :=
  (state.loops[home]?.elim [] EventLoop.line).filterMap
    (Callback.brings index)

/-- What a future was settled with, once for each time. -/
def made (index : Nat) : List (Except Error Value) :=
  (state.settlements.filter fun entry => entry.1 = index).map Prod.snd

/-- Nobody can be given an outcome any more: the loop is closed or the
interpreter is gone. -/
def Moot (home : Nat) : Prop :=
  state.loops[home]?.any EventLoop.isOpen = false ∨
    state.initialized = false

/-- Nothing was brought to the asyncio future. -/
def Unsettled (handed : Handed Value Error)
    (posted made : List (Except Error Value)) : Prop :=
  (handed.future = .pending ∨ handed.future = .cancelled) ∧
    posted = [] ∧ made = []

/-- The outcome was given up, waits in the line, or has settled the future. -/
inductive Through (moot : Prop) : Future Value Error →
    Option (Except Error Value) → List (Except Error Value) →
    List (Except Error Value) → Prop where
  | cancelled (outcome : Option (Except Error Value)) :
      Through moot .cancelled outcome [] []
  | moot (outcome : Option (Except Error Value)) (is : moot) :
      Through moot .pending outcome [] []
  | posted (future : Future Value Error) (result : Except Error Value)
      (unsettled : future = .pending ∨ future = .cancelled) :
      Through moot future (some result) [result] []
  | settled (result : Except Error Value) :
      Through moot (.settled result) (some result) [] [result]

/-- What the record says of one future. -/
def Coherent (handed : Handed Value Error)
    (posted made : List (Except Error Value)) (moot : Prop) : Prop :=
  match handed.stage with
  | .running => handed.outcome = none ∧ Unsettled handed posted made
  | .ended none => handed.outcome = some none ∧
      handed.future = .cancelled ∧ Unsettled handed posted made
  | .ended (some result) | .attached result | .posting result =>
      handed.outcome = some (some result) ∧ Unsettled handed posted made
  | .leaving | .gone => ∃ outcome, handed.outcome = some outcome ∧
      Through moot handed.future outcome posted made

/-- Every future has a loop, every callback waits on the loop of its future,
and the record of every future is coherent. -/
structure Sound : Prop where
  homes : ∀ handed ∈ state.handed, handed.home < state.loops.length
  homed : ∀ (home : Nat) (loop : EventLoop Value Error),
    state.loops[home]? = some loop → ∀ callback ∈ loop.line, ∃ handed,
      state.handed[callback.index]? = some handed ∧ handed.home = home
  known : ∀ entry ∈ state.settlements, entry.1 < state.handed.length
  relayed : ∀ handed ∈ state.handed,
    handed.relayed = true → handed.future = .cancelled
  coherent : ∀ index handed, state.handed[index]? = some handed →
    Coherent handed (state.posted handed.home index) (state.made index)
      (state.Moot handed.home)

/-- What has become of a future that the runtime is through with. -/
def Answered (index : Nat) (handed : Handed Value Error) : Prop :=
  handed.stage = .gone ∧
    (handed.future = .cancelled ∨ state.Moot handed.home ∨
      ∃ result, handed.outcome = some (some result) ∧
        (state.posted handed.home index = [result] ∨
          handed.future = .settled result))

/-- A future is settled at most once, with what its task ended with, and stays
so. -/
def SettledOnce : Prop :=
  ∀ index, state.made index = [] ∨ ∃ result handed,
    state.made index = [result] ∧ state.handed[index]? = some handed ∧
      handed.outcome = some (some result) ∧ handed.future = .settled result

def IsCancelled (index : Nat) : Prop :=
  ∃ handed, state.handed[index]? = some handed ∧ handed.future = .cancelled

/-- Whatever follows, a future that is cancelled stays so and is not
settled. -/
def NeverSettled : Prop :=
  ∀ index, state.IsCancelled index →
    ∀ labels last, system.Run state labels last →
      last.IsCancelled index ∧ last.made index = []

/-- Unless a future is handed over, nothing of the runtime touches the
interpreter any more. -/
def Quiet : Prop :=
  ∀ labels last, system.Run state labels last →
    (∀ label ∈ labels, Label.isHandOver label = false) →
      ∀ label ∈ labels, Label.ofRuntime label = false

/-- The runtime can by itself bring the count to zero, and nobody who waits for
that sleeps then. -/
def Drains : Prop :=
  ∃ labels last, system.Run state labels last ∧
    (∀ label ∈ labels, Label.ofRuntime label = true) ∧
      last.inFlight.count = 0 ∧ .parked ∉ last.inFlight.waiters

/-- The count is that of the futures that are owed a completion, and nobody
sleeps while it is zero. -/
structure Counted : Prop where
  count : state.inFlight.count = state.handed.countP Handed.counts
  roused : state.inFlight.Roused

end Spec

section Lines

variable {state : Runtime Value Error} {home : Nat}
  {loop : EventLoop Value Error}

theorem posted_of (found : state.loops[home]? = some loop) (index : Nat) :
    state.posted home index =
      loop.line.filterMap (Callback.brings index) := by
  rw [posted, found, Option.elim_some]

theorem posted_set (found : state.loops[home]? = some loop)
    (changed : EventLoop Value Error) (other index : Nat) :
    posted { state with loops := state.loops.set home changed } other index =
      if other = home then changed.line.filterMap (Callback.brings index)
      else state.posted other index := by
  have bound := (List.getElem?_eq_some_iff.mp found).1
  by_cases same : other = home
  · subst same
    simp only [posted, List.getElem?_set_self bound, if_true,
      Option.elim_some]
  · simp only [posted, List.getElem?_set_ne (Ne.symm same), same, if_false]

/-- A loop that stays as it is leaves nothing moot that was not. -/
theorem moot_set (found : state.loops[home]? = some loop)
    {changed : EventLoop Value Error} (same : changed.isOpen = loop.isOpen)
    (other : Nat) :
    Moot { state with loops := state.loops.set home changed } other ↔
      state.Moot other := by
  have bound := (List.getElem?_eq_some_iff.mp found).1
  by_cases own : other = home
  · subst own
    simp only [Moot, List.getElem?_set_self bound, found, Option.any_some,
      same]
  · simp only [Moot, List.getElem?_set_ne (Ne.symm own)]

end Lines

theorem callSoon_cases (state : Runtime Value Error) (home : Nat)
    (callback : Callback Value Error) :
    (state.callSoon home callback = state ∧
      state.loops[home]?.any EventLoop.isOpen = false) ∨
    ∃ loop, state.loops[home]? = some loop ∧ loop.isOpen = true ∧
      state.callSoon home callback = { state with
        loops := state.loops.set home ⟨true, loop.line ++ [callback]⟩ } := by
  unfold callSoon
  cases found : state.loops[home]? with
  | none => exact .inl ⟨rfl, rfl⟩
  | some loop =>
      cases isOpen : loop.isOpen with
      | false => exact .inl ⟨by simp [isOpen], by simp [isOpen]⟩
      | true => exact .inr ⟨loop, rfl, isOpen, by simp [isOpen]⟩

section CallSoon

variable (state : Runtime Value Error) (home : Nat)
  (callback : Callback Value Error)

@[simp] theorem callSoon_handed :
    (state.callSoon home callback).handed = state.handed := by
  rcases callSoon_cases state home callback with
    ⟨same, -⟩ | ⟨loop, -, -, same⟩
  · rw [same]
  · rw [same]

@[simp] theorem callSoon_made (index : Nat) :
    (state.callSoon home callback).made index = state.made index := by
  rcases callSoon_cases state home callback with
    ⟨same, -⟩ | ⟨loop, -, -, same⟩
  · rw [same]
  · rw [same]
    rfl

@[simp] theorem callSoon_settlements :
    (state.callSoon home callback).settlements = state.settlements := by
  rcases callSoon_cases state home callback with
    ⟨same, -⟩ | ⟨loop, -, -, same⟩
  · rw [same]
  · rw [same]

@[simp] theorem callSoon_inFlight :
    (state.callSoon home callback).inFlight = state.inFlight := by
  rcases callSoon_cases state home callback with
    ⟨same, -⟩ | ⟨loop, -, -, same⟩
  · rw [same]
  · rw [same]

@[simp] theorem callSoon_length :
    (state.callSoon home callback).loops.length = state.loops.length := by
  rcases callSoon_cases state home callback with
    ⟨same, -⟩ | ⟨loop, -, -, same⟩
  · rw [same]
  · rw [same, List.length_set]

@[simp] theorem callSoon_moot (other : Nat) :
    (state.callSoon home callback).Moot other ↔ state.Moot other := by
  rcases callSoon_cases state home callback with
    ⟨same, -⟩ | ⟨loop, found, isOpen, same⟩
  · rw [same]
  · rw [same]
    exact moot_set found isOpen.symm other

theorem callSoon_posted {index : Nat} (other : Nat)
    (nothing : callback.brings index = none) :
    (state.callSoon home callback).posted other index =
      state.posted other index := by
  rcases callSoon_cases state home callback with
    ⟨same, -⟩ | ⟨loop, found, isOpen, same⟩
  · rw [same]
  · rw [same, posted_set found]
    split
    · next own =>
        subst own
        rw [List.filterMap_append, List.filterMap_cons_none nothing,
          List.filterMap_nil, List.append_nil, posted_of found]
    · rfl

theorem mem_callSoon {other : Nat} {last : EventLoop Value Error}
    (found : (state.callSoon home callback).loops[other]? = some last)
    {waiting : Callback Value Error} (member : waiting ∈ last.line) :
    (∃ loop, state.loops[other]? = some loop ∧ waiting ∈ loop.line) ∨
      (waiting = callback ∧ other = home) := by
  rcases callSoon_cases state home callback with
    ⟨same, -⟩ | ⟨loop, before, isOpen, same⟩
  · rw [same] at found
    exact .inl ⟨last, found, member⟩
  · rw [same] at found
    have bound := (List.getElem?_eq_some_iff.mp before).1
    by_cases own : home = other
    · subst own
      rw [List.getElem?_set_self bound] at found
      obtain rfl := Option.some.inj found
      rcases List.mem_append.mp member with old | new
      · exact .inl ⟨loop, before, old⟩
      · exact .inr ⟨List.mem_singleton.mp new, rfl⟩
    · rw [List.getElem?_set_ne own] at found
      exact .inl ⟨last, found, member⟩

end CallSoon

theorem Through.mono {moot later : Prop} (implies : moot → later)
    {future : Future Value Error} {outcome : Option (Except Error Value)}
    {posted made : List (Except Error Value)}
    (through : Through moot future outcome posted made) :
    Through later future outcome posted made := by
  cases through with
  | cancelled outcome => exact .cancelled outcome
  | moot outcome is => exact .moot outcome (implies is)
  | posted future result unsettled => exact .posted future result unsettled
  | settled result => exact .settled result

theorem Through.lost {moot later : Prop} (is : later)
    {future : Future Value Error} {outcome : Option (Except Error Value)}
    {posted made : List (Except Error Value)}
    (through : Through moot future outcome posted made) :
    Through later future outcome [] made := by
  cases through with
  | cancelled outcome => exact .cancelled outcome
  | moot outcome _ => exact .moot outcome is
  | settled result => exact .settled result
  | posted future result unsettled =>
      rcases unsettled with rfl | rfl
      · exact .moot _ is
      · exact .cancelled _

theorem Through.cancel {moot : Prop} {future : Future Value Error}
    {outcome : Option (Except Error Value)}
    {posted made : List (Except Error Value)}
    (through : Through moot future outcome posted made)
    (pending : future = .pending) :
    Through moot .cancelled outcome posted made := by
  cases through with
  | cancelled outcome => exact .cancelled outcome
  | moot outcome _ => exact .cancelled outcome
  | posted future result _ => exact .posted _ result (.inr rfl)
  | settled result =>
      cases result with
      | _ => simp [Future.settled] at pending

theorem Coherent.mono {moot later : Prop} (implies : moot → later)
    {handed : Handed Value Error} {posted made : List (Except Error Value)}
    (coherent : Coherent handed posted made moot) :
    Coherent handed posted made later := by
  unfold Coherent at coherent ⊢
  cases stage : handed.stage with
  | leaving =>
      rw [stage] at coherent
      obtain ⟨outcome, is, through⟩ := coherent
      exact ⟨outcome, is, through.mono implies⟩
  | gone =>
      rw [stage] at coherent
      obtain ⟨outcome, is, through⟩ := coherent
      exact ⟨outcome, is, through.mono implies⟩
  | ended result =>
      rw [stage] at coherent
      cases result with
      | none => exact coherent
      | some result => exact coherent
  | _ =>
      rw [stage] at coherent
      exact coherent

namespace Sound

variable {state last : Runtime Value Error} {index : Nat}
  {handed changed : Handed Value Error}

/-- A step that changes one future and brings nothing to any other. -/
theorem change (sound : state.Sound)
    (found : state.handed[index]? = some handed)
    (set : last.handed = state.handed.set index changed)
    (home : changed.home = handed.home)
    (relayed : changed.relayed = true → changed.future = .cancelled)
    (loops : last.loops.length = state.loops.length)
    (homed : ∀ (other : Nat) (loop : EventLoop Value Error),
      last.loops[other]? = some loop → ∀ callback ∈ loop.line,
        (∃ old, state.loops[other]? = some old ∧ callback ∈ old.line) ∨
          (callback.index = index ∧ other = handed.home))
    (known : ∀ entry ∈ last.settlements,
      entry ∈ state.settlements ∨ entry.1 = index)
    (others : ∀ other, other ≠ index → ∀ home,
      last.posted home other = state.posted home other ∧
        last.made other = state.made other)
    (moot : ∀ home, state.Moot home → last.Moot home)
    (own : Coherent changed (last.posted handed.home index)
      (last.made index) (last.Moot handed.home)) :
    last.Sound := by
  have bound := (List.getElem?_eq_some_iff.mp found).1
  have inside := List.mem_of_getElem? found
  constructor
  case homes =>
    intro other member
    rw [set] at member
    rw [loops]
    rcases List.mem_or_eq_of_mem_set member with before | rfl
    · exact sound.homes other before
    · rw [home]
      exact sound.homes handed inside
  case homed =>
    intro other loop loopFound callback member
    have place : ∃ old, state.handed[callback.index]? = some old ∧
        old.home = other := by
      rcases homed other loop loopFound callback member with
        ⟨old, oldFound, before⟩ | ⟨same, atHome⟩
      · exact sound.homed other old oldFound callback before
      · exact ⟨handed, same ▸ found, atHome.symm⟩
    obtain ⟨old, oldFound, oldHome⟩ := place
    rw [set]
    by_cases same : index = callback.index
    · subst same
      obtain rfl := Option.some.inj (found.symm.trans oldFound)
      exact ⟨changed, List.getElem?_set_self bound, home.trans oldHome⟩
    · rw [List.getElem?_set_ne same]
      exact ⟨old, oldFound, oldHome⟩
  case known =>
    intro entry member
    rw [set, List.length_set]
    rcases known entry member with before | same
    · exact sound.known entry before
    · rw [same]
      exact bound
  case relayed =>
    intro other member
    rw [set] at member
    rcases List.mem_or_eq_of_mem_set member with before | rfl
    · exact sound.relayed other before
    · exact relayed
  case coherent =>
    intro other record recordFound
    rw [set] at recordFound
    by_cases same : index = other
    · subst same
      rw [List.getElem?_set_self bound] at recordFound
      obtain rfl := Option.some.inj recordFound
      rw [home]
      exact own
    · rw [List.getElem?_set_ne same] at recordFound
      obtain ⟨posted, made⟩ := others other (Ne.symm same) record.home
      rw [posted, made]
      exact (sound.coherent other record recordFound).mono (moot record.home)

theorem put (sound : state.Sound)
    (found : state.handed[index]? = some handed)
    (set : last.handed = state.handed.set index changed)
    (loops : last.loops = state.loops)
    (settlements : last.settlements = state.settlements)
    (initialized : last.initialized = state.initialized)
    (home : changed.home = handed.home)
    (relayed : changed.relayed = true → changed.future = .cancelled)
    (own : Coherent changed (state.posted handed.home index)
      (state.made index) (state.Moot handed.home)) :
    last.Sound := by
  have posted (home index : Nat) :
      last.posted home index = state.posted home index := by
    rw [Runtime.posted, Runtime.posted, loops]
  have made (index : Nat) : last.made index = state.made index := by
    rw [Runtime.made, Runtime.made, settlements]
  have moot (home : Nat) : last.Moot home ↔ state.Moot home := by
    rw [Moot, Moot, loops, initialized]
  apply sound.change found set home relayed
  · rw [loops]
  · intro other loop loopFound callback member
    exact .inl ⟨loop, loops ▸ loopFound, member⟩
  · intro entry member
    exact .inl (settlements ▸ member)
  · intro other _ home
    exact ⟨posted home other, made other⟩
  · intro home
    exact (moot home).mpr
  · rw [posted, made, moot]
    exact own

theorem frame (sound : state.Sound) (handed : last.handed = state.handed)
    (loops : state.loops.length ≤ last.loops.length)
    (homed : ∀ (home : Nat) (loop : EventLoop Value Error),
      last.loops[home]? = some loop → ∀ callback ∈ loop.line,
        ∃ old, state.loops[home]? = some old ∧ callback ∈ old.line)
    (settlements : last.settlements = state.settlements)
    (coherent : ∀ index handed, state.handed[index]? = some handed →
      Coherent handed (last.posted handed.home index) (last.made index)
        (last.Moot handed.home)) :
    last.Sound where
  homes record member :=
    Nat.lt_of_lt_of_le (sound.homes record (handed ▸ member)) loops
  homed home loop found callback member := by
    obtain ⟨old, oldFound, before⟩ := homed home loop found callback member
    rw [handed]
    exact sound.homed home old oldFound callback before
  known entry member := by
    rw [handed]
    exact sound.known entry (settlements ▸ member)
  relayed record member := sound.relayed record (handed ▸ member)
  coherent index record found := coherent index record (handed ▸ found)

theorem newLoop (sound : state.Sound) :
    Sound { state with loops := state.loops ++ [⟨true, []⟩] } := by
  apply sound.frame
  · rfl
  · simp
  · intro home loop found callback member
    rcases Nat.lt_or_ge home state.loops.length with old | new
    · rw [List.getElem?_append_left old] at found
      exact ⟨loop, found, member⟩
    · rw [List.getElem?_append_right new] at found
      obtain rfl := List.mem_singleton.mp (List.mem_of_getElem? found)
      simp at member
  · rfl
  · intro index record found
    have bound := sound.homes record (List.mem_of_getElem? found)
    have coherent := sound.coherent index record found
    simp only [posted, Moot] at coherent ⊢
    rw [List.getElem?_append_left bound]
    exact coherent

theorem closed {record : Handed Value Error}
    {posted made : List (Except Error Value)} {moot later : Prop}
    (is : later) (coherent : Coherent record posted made moot) :
    Coherent record [] made later := by
  unfold Coherent at coherent ⊢
  cases stage : record.stage with
  | running =>
      rw [stage] at coherent
      obtain ⟨outcome, future, -, made⟩ := coherent
      exact ⟨outcome, future, rfl, made⟩
  | ended result =>
      rw [stage] at coherent
      cases result with
      | none =>
          obtain ⟨outcome, cancelled, future, -, made⟩ := coherent
          exact ⟨outcome, cancelled, future, rfl, made⟩
      | some result =>
          obtain ⟨outcome, future, -, made⟩ := coherent
          exact ⟨outcome, future, rfl, made⟩
  | attached result =>
      rw [stage] at coherent
      obtain ⟨outcome, future, -, made⟩ := coherent
      exact ⟨outcome, future, rfl, made⟩
  | posting result =>
      rw [stage] at coherent
      obtain ⟨outcome, future, -, made⟩ := coherent
      exact ⟨outcome, future, rfl, made⟩
  | leaving =>
      rw [stage] at coherent
      obtain ⟨outcome, ended, through⟩ := coherent
      exact ⟨outcome, ended, through.lost is⟩
  | gone =>
      rw [stage] at coherent
      obtain ⟨outcome, ended, through⟩ := coherent
      exact ⟨outcome, ended, through.lost is⟩

theorem closeLoop (sound : state.Sound) {home : Nat}
    {loop : EventLoop Value Error} (found : state.loops[home]? = some loop) :
    Sound { state with loops := state.loops.set home ⟨false, []⟩ } := by
  have bound := (List.getElem?_eq_some_iff.mp found).1
  apply sound.frame
  · rfl
  · exact Nat.le_of_eq List.length_set.symm
  · intro other last lastFound callback member
    by_cases same : home = other
    · subst same
      rw [List.getElem?_set_self bound] at lastFound
      obtain rfl := Option.some.inj lastFound
      simp at member
    · rw [List.getElem?_set_ne same] at lastFound
      exact ⟨last, lastFound, member⟩
  · rfl
  · intro index record recordFound
    have coherent := sound.coherent index record recordFound
    rw [posted_set found]
    by_cases same : record.home = home
    · rw [if_pos same]
      apply closed _ coherent
      left
      rw [same, List.getElem?_set_self bound]
      rfl
    · rw [if_neg same]
      apply coherent.mono
      simp only [Moot, List.getElem?_set_ne (Ne.symm same)]
      exact id

theorem nothing_posted (sound : state.Sound) {home : Nat}
    {loop : EventLoop Value Error} (found : state.loops[home]? = some loop) :
    state.posted home state.handed.length = [] := by
  rw [posted_of found, List.filterMap_eq_nil_iff]
  intro callback member
  obtain ⟨record, recordFound, -⟩ :=
    sound.homed home loop found callback member
  have bound := (List.getElem?_eq_some_iff.mp recordFound).1
  cases callback with
  | relay index => rfl
  | complete index result => exact if_neg (Nat.ne_of_lt bound)

theorem nothing_made (sound : state.Sound) :
    state.made state.handed.length = [] := by
  rw [made, List.map_eq_nil_iff, List.filter_eq_nil_iff]
  intro entry member
  have bound := sound.known entry member
  simpa using Nat.ne_of_lt bound

theorem handOver (sound : state.Sound) {home : Nat}
    (step : state.handOver home = some last) : last.Sound := by
  unfold Runtime.handOver at step
  split at step
  case h_2 => simp at step
  case h_1 loop found =>
    split at step
    case isFalse => simp at step
    case isTrue ready =>
      obtain rfl := Option.some.inj step
      have bound := (List.getElem?_eq_some_iff.mp found).1
      constructor
      case homes =>
        intro record member
        rcases List.mem_append.mp member with old | new
        · exact sound.homes record old
        · obtain rfl := List.mem_singleton.mp new
          exact bound
      case homed =>
        intro other line lineFound callback member
        obtain ⟨record, recordFound, recordHome⟩ :=
          sound.homed other line lineFound callback member
        refine ⟨record, ?_, recordHome⟩
        rw [List.getElem?_append_left]
        · exact recordFound
        · exact (List.getElem?_eq_some_iff.mp recordFound).1
      case known =>
        intro entry member
        rw [List.length_append]
        exact Nat.lt_add_right _ (sound.known entry member)
      case relayed =>
        intro record member
        rcases List.mem_append.mp member with old | new
        · exact sound.relayed record old
        · obtain rfl := List.mem_singleton.mp new
          simp
      case coherent =>
        intro index record recordFound
        rcases Nat.lt_trichotomy index state.handed.length with
          old | rfl | beyond
        · rw [List.getElem?_append_left old] at recordFound
          exact sound.coherent index record recordFound
        · rw [List.getElem?_concat_length] at recordFound
          obtain rfl := Option.some.inj recordFound
          refine ⟨rfl, .inl rfl, ?_, ?_⟩
          · exact sound.nothing_posted found
          · exact sound.nothing_made
        · rw [List.getElem?_eq_none] at recordFound
          · simp at recordFound
          · rw [List.length_append, List.length_singleton]
            exact beyond

theorem finish (sound : state.Sound)
    (found : state.handed[index]? = some handed)
    (running : handed.stage = .running) (result : Except Error Value) :
    Sound (state.put index { handed with
      stage := .ended (some result), outcome := some (some result) }) := by
  have relayed := sound.relayed handed (List.mem_of_getElem? found)
  have coherent := sound.coherent index handed found
  unfold Coherent at coherent
  rw [running] at coherent
  refine sound.put found rfl rfl rfl rfl rfl relayed ?_
  exact ⟨rfl, coherent.2⟩

theorem drop (sound : state.Sound)
    (found : state.handed[index]? = some handed)
    (running : handed.stage = .running) (relayed : handed.relayed = true) :
    Sound (state.put index { handed with
      stage := .ended none, outcome := some none }) := by
  have cancelled := sound.relayed handed (List.mem_of_getElem? found)
  have coherent := sound.coherent index handed found
  unfold Coherent at coherent
  rw [running] at coherent
  refine sound.put found rfl rfl rfl rfl rfl cancelled ?_
  exact ⟨rfl, cancelled relayed, coherent.2⟩

theorem give_up {outcome : Option (Except Error Value)}
    {posted made : List (Except Error Value)} {moot : Prop}
    (unsettled : Unsettled handed posted made)
    (lost : moot ∨ handed.future = .cancelled) :
    Through moot handed.future outcome posted made := by
  obtain ⟨future, rfl, rfl⟩ := unsettled
  rcases lost with is | cancelled
  · rcases future with pending | cancelled
    · rw [pending]
      exact .moot outcome is
    · rw [cancelled]
      exact .cancelled outcome
  · rw [cancelled]
    exact .cancelled outcome

theorem attach (sound : state.Sound)
    (step : state.attach index = some last) : last.Sound := by
  unfold Runtime.attach at step
  split at step
  case h_2 => simp at step
  case h_1 handed found =>
    have relayed := sound.relayed handed (List.mem_of_getElem? found)
    have coherent := sound.coherent index handed found
    unfold Coherent at coherent
    split at step
    case h_3 => simp at step
    case h_1 stage =>
      obtain rfl := Option.some.inj step
      rw [stage] at coherent
      obtain ⟨outcome, cancelled, unsettled⟩ := coherent
      refine sound.put found rfl rfl rfl rfl rfl relayed ?_
      exact ⟨none, outcome, give_up unsettled (.inr cancelled)⟩
    case h_2 result stage =>
      obtain rfl := Option.some.inj step
      rw [stage] at coherent
      obtain ⟨outcome, unsettled⟩ := coherent
      refine sound.put found rfl rfl rfl rfl rfl relayed ?_
      cases initialized : state.initialized with
      | true => exact ⟨outcome, unsettled⟩
      | false =>
          exact ⟨some result, outcome,
            give_up unsettled (.inl (.inr initialized))⟩

theorem check (sound : state.Sound)
    (step : state.check index = some last) : last.Sound := by
  unfold Runtime.check at step
  split at step
  case h_2 => simp at step
  case h_1 handed found =>
    have relayed := sound.relayed handed (List.mem_of_getElem? found)
    have coherent := sound.coherent index handed found
    unfold Coherent at coherent
    split at step
    case h_2 => simp at step
    case h_1 result stage =>
      obtain rfl := Option.some.inj step
      rw [stage] at coherent
      obtain ⟨outcome, unsettled⟩ := coherent
      refine sound.put found rfl rfl rfl rfl rfl relayed ?_
      rcases unsettled.1 with pending | cancelled
      · have goesOn : handed.future.isCancelled = false := by
          rw [pending]
          rfl
        rw [goesOn]
        exact ⟨outcome, unsettled⟩
      · have stops : handed.future.isCancelled = true := by
          rw [cancelled]
          rfl
        rw [stops]
        exact ⟨some result, outcome, give_up unsettled (.inr cancelled)⟩

theorem leave (sound : state.Sound)
    (step : state.leave index = some last) : last.Sound := by
  unfold Runtime.leave at step
  split at step
  case h_2 => simp at step
  case h_1 handed found =>
    have relayed := sound.relayed handed (List.mem_of_getElem? found)
    have coherent := sound.coherent index handed found
    unfold Coherent at coherent
    split at step
    case h_2 => simp at step
    case h_1 stage =>
      obtain rfl := Option.some.inj step
      rw [stage] at coherent
      exact sound.put found rfl rfl rfl rfl rfl relayed coherent

/-- A callback that is for another future brings this one nothing. -/
theorem brings_other {callback : Callback Value Error} {other : Nat}
    (apart : callback.index ≠ other) : callback.brings other = none := by
  cases callback with
  | relay index => rfl
  | complete index result => exact if_neg apart

theorem post (sound : state.Sound)
    (step : state.post index = some last) : last.Sound := by
  unfold Runtime.post at step
  split at step
  case h_2 => simp at step
  case h_1 handed found =>
    have relayed := sound.relayed handed (List.mem_of_getElem? found)
    have coherent := sound.coherent index handed found
    unfold Coherent at coherent
    split at step
    case h_2 => simp at step
    case h_1 result stage =>
      obtain rfl := Option.some.inj step
      rw [stage] at coherent
      obtain ⟨outcome, unsettled⟩ := coherent
      refine sound.change found (callSoon_handed _ _ _) rfl relayed
        (callSoon_length _ _ _) ?_ ?_ ?_ ?_ ?_
      · intro other loop loopFound callback member
        rcases mem_callSoon _ _ _ loopFound member with old | ⟨rfl, same⟩
        · exact .inl old
        · exact .inr ⟨rfl, same⟩
      · intro entry member
        rw [callSoon_settlements] at member
        exact .inl member
      · intro other apart home
        constructor
        · apply callSoon_posted
          exact brings_other (Ne.symm apart)
        · apply callSoon_made
      · intro home moot
        exact (callSoon_moot _ _ _ home).mpr moot
      · refine ⟨some result, outcome, ?_⟩
        rw [callSoon_made, callSoon_moot]
        rcases callSoon_cases
            (state.put index { handed with stage := .leaving }) handed.home
            (.complete index result) with
          ⟨same, closed⟩ | ⟨loop, loopFound, isOpen, same⟩
        · rw [same]
          exact give_up unsettled (.inl (.inl closed))
        · obtain ⟨future, nothing, unmade⟩ := unsettled
          have before : loop.line.filterMap (Callback.brings index) = [] :=
            (posted_of loopFound index).symm.trans nothing
          have brings : Callback.brings index (.complete index result) =
              some result := if_pos rfl
          have unmadeYet : (state.put index
              { handed with stage := .leaving }).made index = [] := unmade
          rw [same, posted_set loopFound, if_pos rfl, List.filterMap_append,
            before, List.filterMap_cons_some brings, unmadeYet]
          exact .posted handed.future result future

/-- Who cancels a future that is pending finds it as it was else. -/
theorem cancelled {posted made : List (Except Error Value)} {moot : Prop}
    (pending : handed.future = .pending)
    (coherent : Coherent handed posted made moot) :
    Coherent { handed with future := .cancelled } posted made moot := by
  unfold Coherent at coherent ⊢
  cases stage : handed.stage with
  | running =>
      rw [stage] at coherent
      exact ⟨coherent.1, .inr rfl, coherent.2.2⟩
  | ended result =>
      rw [stage] at coherent
      cases result with
      | none => exact ⟨coherent.1, rfl, .inr rfl, coherent.2.2.2⟩
      | some result => exact ⟨coherent.1, .inr rfl, coherent.2.2⟩
  | attached result =>
      rw [stage] at coherent
      exact ⟨coherent.1, .inr rfl, coherent.2.2⟩
  | posting result =>
      rw [stage] at coherent
      exact ⟨coherent.1, .inr rfl, coherent.2.2⟩
  | leaving =>
      rw [stage] at coherent
      obtain ⟨outcome, ended, through⟩ := coherent
      exact ⟨outcome, ended, through.cancel pending⟩
  | gone =>
      rw [stage] at coherent
      obtain ⟨outcome, ended, through⟩ := coherent
      exact ⟨outcome, ended, through.cancel pending⟩

theorem cancel (sound : state.Sound)
    (found : state.handed[index]? = some handed)
    (pending : handed.future = .pending) :
    (state.settle index handed .cancelled).Sound := by
  have coherent := sound.coherent index handed found
  refine sound.change found (callSoon_handed _ _ _) rfl (fun _ => rfl)
    (callSoon_length _ _ _) ?_ ?_ ?_ ?_ ?_
  · intro other loop loopFound callback member
    rcases mem_callSoon _ _ _ loopFound member with old | ⟨rfl, same⟩
    · exact .inl old
    · exact .inr ⟨rfl, same⟩
  · intro entry member
    rw [settle, callSoon_settlements] at member
    exact .inl member
  · intro other _ home
    constructor
    · apply callSoon_posted
      rfl
    · apply callSoon_made
  · intro home moot
    exact (callSoon_moot _ _ _ home).mpr moot
  · rw [settle, callSoon_made, callSoon_moot, callSoon_posted]
    · exact cancelled pending coherent
    · rfl

/-- A result waits for a future that the runtime is through with. -/
theorem brought {result : Except Error Value}
    {rest made : List (Except Error Value)} {moot : Prop}
    (coherent : Coherent handed (result :: rest) made moot) :
    (handed.stage = .leaving ∨ handed.stage = .gone) ∧ rest = [] ∧
      made = [] ∧ handed.outcome = some (some result) ∧
      (handed.future = .pending ∨ handed.future = .cancelled) := by
  unfold Coherent Unsettled at coherent
  have through {outcome : Option (Except Error Value)}
      (ended : handed.outcome = some outcome)
      (through : Through moot handed.future outcome (result :: rest) made) :
      rest = [] ∧ made = [] ∧ handed.outcome = some (some result) ∧
        (handed.future = .pending ∨ handed.future = .cancelled) := by
    generalize handed.future = future at through ⊢
    cases through with
    | posted _ _ unsettled => exact ⟨rfl, rfl, ended, unsettled⟩
  cases stage : handed.stage with
  | leaving =>
      rw [stage] at coherent
      obtain ⟨outcome, ended, is⟩ := coherent
      exact ⟨.inl rfl, through ended is⟩
  | gone =>
      rw [stage] at coherent
      obtain ⟨outcome, ended, is⟩ := coherent
      exact ⟨.inr rfl, through ended is⟩
  | ended result =>
      rw [stage] at coherent
      cases result with
      | _ => simp at coherent
  | _ =>
      rw [stage] at coherent
      simp at coherent

theorem advance (sound : state.Sound) {home : Nat}
    {callback : Callback Value Error} {line : List (Callback Value Error)}
    (found : state.loops[home]? = some ⟨true, callback :: line⟩)
    (own : ∀ handed, state.handed[callback.index]? = some handed →
      handed.home = home → Coherent handed
        (line.filterMap (Callback.brings callback.index))
        (state.made callback.index) (state.Moot home)) :
    Sound { state with loops := state.loops.set home ⟨true, line⟩ } := by
  have bound := (List.getElem?_eq_some_iff.mp found).1
  apply sound.frame
  · rfl
  · exact Nat.le_of_eq List.length_set.symm
  · intro other last lastFound waiting member
    by_cases same : home = other
    · subst same
      rw [List.getElem?_set_self bound] at lastFound
      obtain rfl := Option.some.inj lastFound
      exact ⟨_, found, .tail callback member⟩
    · rw [List.getElem?_set_ne same] at lastFound
      exact ⟨last, lastFound, member⟩
  · rfl
  · intro index record recordFound
    have coherent := sound.coherent index record recordFound
    rw [posted_set found,
      @moot_set _ _ state home _ found ⟨true, line⟩ rfl record.home]
    by_cases same : record.home = home
    · rw [if_pos same]
      by_cases isOwn : callback.index = index
      · subst isOwn
        rw [same]
        exact own record recordFound same
      · have posted := posted_of found index
        rw [List.filterMap_cons_none (brings_other isOwn)] at posted
        rw [same, posted] at coherent
        rw [same]
        exact coherent
    · rw [if_neg same]
      exact coherent

theorem made_snoc (state : Runtime Value Error) (index settled : Nat)
    (result : Except Error Value) (other : Runtime Value Error) :
    made { other with
      settlements := state.settlements ++ [(settled, result)] } index =
      state.made index ++ if settled = index then [result] else [] := by
  rw [made, made, List.filter_append, List.map_append]
  by_cases same : settled = index
  · simp [same]
  · simp [same]

theorem through {outcome : Option (Except Error Value)}
    {posted made : List (Except Error Value)} {moot : Prop}
    (stage : handed.stage = .leaving ∨ handed.stage = .gone)
    (ended : handed.outcome = some outcome)
    (is : Through moot handed.future outcome posted made) :
    Coherent handed posted made moot := by
  unfold Coherent
  rcases stage with leaving | gone
  · rw [leaving]
    exact ⟨outcome, ended, is⟩
  · rw [gone]
    exact ⟨outcome, ended, is⟩

theorem settles (sound : state.Sound) {home : Nat}
    {result : Except Error Value} {line : List (Callback Value Error)}
    (found : state.loops[home]? = some ⟨true, .complete index result :: line⟩)
    (recordFound : state.handed[index]? = some handed)
    (atHome : handed.home = home)
    (rest : line.filterMap (Callback.brings index) = [])
    (unmade : state.made index = [])
    (stage : handed.stage = .leaving ∨ handed.stage = .gone)
    (ended : handed.outcome = some (some result))
    (fresh : handed.relayed = false) :
    Sound { settle { state with loops := state.loops.set home ⟨true, line⟩ }
        index handed (.settled result) with
      settlements := state.settlements ++ [(index, result)] } := by
  have bound := (List.getElem?_eq_some_iff.mp found).1
  refine sound.change recordFound (callSoon_handed _ _ _) rfl ?_ ?_ ?_ ?_ ?_
    ?_ ?_
  · intro relayed
    simp [fresh] at relayed
  · exact (callSoon_length _ _ _).trans List.length_set
  · intro other loop loopFound callback member
    rcases mem_callSoon _ _ _ loopFound member with
      ⟨old, oldFound, before⟩ | ⟨rfl, same⟩
    · by_cases own : home = other
      · subst own
        have oldIs : (state.loops.set home ⟨true, line⟩)[home]? = some old :=
          oldFound
        rw [List.getElem?_set_self bound] at oldIs
        obtain rfl := Option.some.inj oldIs
        exact .inl ⟨_, found, .tail _ before⟩
      · have oldIs : (state.loops.set home ⟨true, line⟩)[other]? = some old :=
          oldFound
        rw [List.getElem?_set_ne own] at oldIs
        exact .inl ⟨old, oldIs, before⟩
    · exact .inr ⟨rfl, same⟩
  · intro entry member
    rcases List.mem_append.mp member with old | new
    · exact .inl old
    · obtain rfl := List.mem_singleton.mp new
      exact .inr rfl
  · intro other apart place
    have brings : Callback.brings other (.complete index result) = none :=
      brings_other (Ne.symm apart)
    constructor
    · refine (callSoon_posted _ _ (.relay index) place rfl).trans ?_
      refine (posted_set found ⟨true, line⟩ place other).trans ?_
      split
      · next same =>
        rw [same, posted_of found, List.filterMap_cons_none brings]
      · rfl
    · refine (made_snoc state other index result _).trans ?_
      rw [if_neg (Ne.symm apart), List.append_nil]
  · intro other moot
    apply (callSoon_moot _ _ _ other).mpr
    exact (@moot_set _ _ state home _ found ⟨true, line⟩ rfl other).mpr moot
  · refine through stage ended ?_
    have posted := (callSoon_posted (Runtime.put { state with
      loops := state.loops.set home ⟨true, line⟩ } index
        { handed with future := .settled result }) handed.home
          (.relay index) handed.home rfl).trans
            (posted_set found ⟨true, line⟩ handed.home index)
    rw [if_pos atHome, rest] at posted
    have made := made_snoc state index index result
      (settle { state with loops := state.loops.set home ⟨true, line⟩ }
        index handed (.settled result))
    rw [if_pos rfl, unmade, List.nil_append] at made
    refine (congrArg₂ (Through _ _ _) posted made).mpr ?_
    exact .settled result

theorem turn (sound : state.Sound) {home : Nat}
    (step : state.turn home = some last) : last.Sound := by
  unfold Runtime.turn at step
  split at step
  case h_2 => simp at step
  case h_1 callback line found =>
    obtain rfl := Option.some.inj step
    obtain ⟨record, recordFound, atHome⟩ :=
      sound.homed home _ found callback List.mem_cons_self
    have coherent := sound.coherent _ record recordFound
    rw [atHome, posted_of found] at coherent
    cases callback with
    | relay index =>
        have advanced := sound.advance found (by
          intro handed handedFound handedHome
          have coherent := sound.coherent _ handed handedFound
          rw [handedHome, posted_of found] at coherent
          exact coherent)
        have same : state.handed[index]? = some record := recordFound
        simp only [run, same]
        split
        · next isCancelled =>
          refine advanced.put same rfl rfl rfl rfl rfl ?_ ?_
          · intro _
            cases future : record.future with
            | cancelled => rfl
            | _ => simp [future, Future.isCancelled] at isCancelled
          · exact advanced.coherent index record same
        · exact advanced
    | complete index result =>
        have brings : Callback.brings index (.complete index result) =
            some result := if_pos rfl
        rw [Callback.index, List.filterMap_cons_some brings] at coherent
        obtain ⟨stage, rest, unmade, ended, future⟩ := brought coherent
        have same : state.handed[index]? = some record := recordFound
        simp only [run, same]
        split
        · next isCancelled =>
          apply sound.advance found
          intro handed handedFound _
          obtain rfl : record = handed :=
            Option.some.inj (recordFound.symm.trans handedFound)
          rw [Callback.index, rest, unmade]
          have cancelled : record.future = .cancelled := by
            rcases future with pending | cancelled
            · simp [pending, Future.isCancelled] at isCancelled
            · exact cancelled
          apply through stage ended
          rw [cancelled]
          exact .cancelled _
        · next goesOn =>
          apply sound.settles found same atHome rest unmade stage ended
          rw [Bool.eq_false_iff]
          intro isRelayed
          apply goesOn
          rw [sound.relayed record (List.mem_of_getElem? same) isRelayed]
          rfl

theorem invariant : (@system Value Error).Invariant Sound where
  initial := by
    intro state start
    rw [start]
    constructor
    case homes => simp [fresh]
    case homed => simp [fresh]
    case known => simp [fresh]
    case relayed => simp [fresh]
    case coherent => simp [fresh]
  preserved := by
    intro state label last sound step
    change state.next label = some last at step
    cases label with
    | newLoop =>
        obtain rfl := Option.some.inj step
        exact sound.newLoop
    | closeLoop home =>
        simp only [next] at step
        split at step
        case h_1 loop found =>
          obtain rfl := Option.some.inj step
          exact sound.closeLoop found
        case h_2 => simp at step
    | handOver home => exact sound.handOver step
    | finish index result =>
        simp only [next] at step
        split at step
        case h_2 => simp at step
        case h_1 handed found =>
          split at step
          case h_1 running =>
            obtain rfl := Option.some.inj step
            exact sound.finish found running result
          case h_2 => simp at step
    | drop index =>
        simp only [next] at step
        split at step
        case h_2 => simp at step
        case h_1 handed found =>
          split at step
          case h_1 running relayed =>
            obtain rfl := Option.some.inj step
            exact sound.drop found running relayed
          case h_2 => simp at step
    | attach index => exact sound.attach step
    | check index => exact sound.check step
    | post index => exact sound.post step
    | leave index => exact sound.leave step
    | cancel index =>
        simp only [next] at step
        split at step
        case h_2 => simp at step
        case h_1 handed found =>
          split at step
          case isTrue isPending =>
            obtain rfl := Option.some.inj step
            apply sound.cancel found
            cases future : handed.future with
            | pending => rfl
            | _ => simp [future, Future.isPending] at isPending
          case isFalse => simp at step
    | turn home => exact sound.turn step
    | finalize =>
        obtain rfl := Option.some.inj step
        apply sound.frame
        · rfl
        · exact Nat.le_refl _
        · intro home loop found callback member
          exact ⟨loop, found, member⟩
        · rfl
        · intro index handed found
          apply (sound.coherent index handed found).mono
          exact fun _ => .inr rfl
    | wait step =>
        simp only [next, Option.map_eq_some_iff] at step
        obtain ⟨inFlight, -, rfl⟩ := step
        apply sound.frame
        · rfl
        · exact Nat.le_refl _
        · intro home loop found callback member
          exact ⟨loop, found, member⟩
        · rfl
        · exact sound.coherent

end Sound

namespace Counted

variable {state last : Runtime Value Error} {index : Nat}
  {handed changed : Handed Value Error}

theorem put (counted : state.Counted)
    (found : state.handed[index]? = some handed)
    (set : last.handed = state.handed.set index changed)
    (counts : changed.counts = handed.counts)
    (inFlight : last.inFlight = state.inFlight) : last.Counted where
  count := by
    obtain ⟨bound, is⟩ := List.getElem?_eq_some_iff.mp found
    have positive : (if handed.counts = true then 1 else 0) ≤
        state.handed.countP Handed.counts := by
      split
      · next counts =>
        apply List.countP_pos_iff.mpr
        exact ⟨handed, List.mem_of_getElem? found, counts⟩
      · exact Nat.zero_le _
    rw [inFlight, set, List.countP_set bound, is, counts, counted.count]
    omega
  roused := inFlight ▸ counted.roused

theorem leave (counted : state.Counted)
    (step : state.leave index = some last) : last.Counted := by
  unfold Runtime.leave at step
  split at step
  case h_2 => simp at step
  case h_1 handed found =>
    split at step
    case h_2 => simp at step
    case h_1 stage =>
      obtain rfl := Option.some.inj step
      obtain ⟨bound, is⟩ := List.getElem?_eq_some_iff.mp found
      have counts : handed.counts = true := by
        rw [Handed.counts, stage]
        rfl
      constructor
      · change state.inFlight.done.count = _
        rw [WaitGroup.done_count, counted.count]
        change _ = (state.handed.set index _).countP _
        rw [List.countP_set bound, is, if_pos counts]
        rfl
      · exact WaitGroup.done_roused _

theorem handOver (counted : state.Counted) {home : Nat}
    (step : state.handOver home = some last) : last.Counted := by
  unfold Runtime.handOver at step
  split at step
  case h_2 => simp at step
  case h_1 loop found =>
    split at step
    case isFalse => simp at step
    case isTrue ready =>
      obtain rfl := Option.some.inj step
      constructor
      · rw [WaitGroup.add_count, counted.count, List.countP_append]
        rfl
      · exact WaitGroup.add_roused _

theorem counts_eq {stage : Stage Value Error} (is : handed.stage = stage)
    (counts : stage.counts = true := by rfl)
    (later : changed.stage.counts = true := by rfl) :
    changed.counts = handed.counts := by
  rw [Handed.counts, Handed.counts, is, later, counts]

theorem attach (counted : state.Counted)
    (step : state.attach index = some last) : last.Counted := by
  unfold Runtime.attach at step
  split at step
  case h_2 => simp at step
  case h_1 handed found =>
    split at step
    case h_3 => simp at step
    case h_1 stage =>
      obtain rfl := Option.some.inj step
      exact counted.put found rfl (counts_eq stage) rfl
    case h_2 result stage =>
      obtain rfl := Option.some.inj step
      refine counted.put found rfl (counts_eq stage rfl ?_) rfl
      split
      · rfl
      · rfl

theorem check (counted : state.Counted)
    (step : state.check index = some last) : last.Counted := by
  unfold Runtime.check at step
  split at step
  case h_2 => simp at step
  case h_1 handed found =>
    split at step
    case h_2 => simp at step
    case h_1 result stage =>
      obtain rfl := Option.some.inj step
      refine counted.put found rfl (counts_eq stage rfl ?_) rfl
      split
      · rfl
      · rfl

theorem post (counted : state.Counted)
    (step : state.post index = some last) : last.Counted := by
  unfold Runtime.post at step
  split at step
  case h_2 => simp at step
  case h_1 handed found =>
    split at step
    case h_2 => simp at step
    case h_1 result stage =>
      obtain rfl := Option.some.inj step
      exact counted.put found (callSoon_handed _ _ _) (counts_eq stage)
        (callSoon_inFlight _ _ _)

theorem turn (counted : state.Counted) {home : Nat}
    (step : state.turn home = some last) : last.Counted := by
  unfold Runtime.turn at step
  split at step
  case h_2 => simp at step
  case h_1 callback line found =>
    obtain rfl := Option.some.inj step
    have same : Counted { state with
        loops := state.loops.set home ⟨true, line⟩ } :=
      ⟨counted.count, counted.roused⟩
    unfold run
    split
    · split
      · next handed recordFound =>
        split
        · exact same.put recordFound rfl rfl rfl
        · exact same
      · exact same
    · split
      · next handed recordFound =>
        split
        · exact same
        · refine same.put recordFound (callSoon_handed _ _ _) ?_
            (callSoon_inFlight _ _ _)
          rfl
      · exact same

theorem invariant : (@system Value Error).Invariant Counted where
  initial := by
    intro state start
    rw [start]
    exact ⟨rfl, WaitGroup.fresh_roused⟩
  preserved := by
    intro state label last counted step
    change state.next label = some last at step
    cases label with
    | newLoop =>
        obtain rfl := Option.some.inj step
        exact ⟨counted.count, counted.roused⟩
    | closeLoop home =>
        simp only [next] at step
        split at step
        case h_1 loop found =>
          obtain rfl := Option.some.inj step
          exact ⟨counted.count, counted.roused⟩
        case h_2 => simp at step
    | handOver home => exact counted.handOver step
    | leave index => exact counted.leave step
    | finalize =>
        obtain rfl := Option.some.inj step
        exact ⟨counted.count, counted.roused⟩
    | wait step =>
        simp only [next, Option.map_eq_some_iff] at step
        obtain ⟨inFlight, taken, rfl⟩ := step
        refine ⟨?_, counted.roused.next taken⟩
        exact (WaitGroup.next_count taken).trans counted.count
    | finish index result =>
        simp only [next] at step
        split at step
        case h_2 => simp at step
        case h_1 handed found =>
          split at step
          case h_1 running =>
            obtain rfl := Option.some.inj step
            exact counted.put found rfl (counts_eq running) rfl
          case h_2 => simp at step
    | drop index =>
        simp only [next] at step
        split at step
        case h_2 => simp at step
        case h_1 handed found =>
          split at step
          case h_1 running relayed =>
            obtain rfl := Option.some.inj step
            exact counted.put found rfl (counts_eq running) rfl
          case h_2 => simp at step
    | attach index => exact counted.attach step
    | check index => exact counted.check step
    | post index => exact counted.post step
    | cancel index =>
        simp only [next] at step
        split at step
        case h_2 => simp at step
        case h_1 handed found =>
          split at step
          case isTrue isPending =>
            obtain rfl := Option.some.inj step
            exact counted.put found (callSoon_handed _ _ _) rfl
              (callSoon_inFlight _ _ _)
          case isFalse => simp at step
    | turn home => exact counted.turn step

end Counted

variable {state last : Runtime Value Error}

theorem Sound.settledOnce (sound : state.Sound) : state.SettledOnce := by
  intro index
  rcases Nat.lt_or_ge index state.handed.length with bound | beyond
  · have found := List.getElem?_eq_getElem bound
    have coherent := sound.coherent index _ found
    generalize state.handed[index] = handed at found coherent
    have through {outcome : Option (Except Error Value)}
        (ended : handed.outcome = some outcome)
        (is : Through (state.Moot handed.home) handed.future outcome
          (state.posted handed.home index) (state.made index)) :
        state.made index = [] ∨ ∃ result handed,
          state.made index = [result] ∧
            state.handed[index]? = some handed ∧
              handed.outcome = some (some result) ∧
                handed.future = .settled result := by
      generalize state.made index = made at is ⊢
      generalize state.posted handed.home index = posted at is
      generalize futureEq : handed.future = future at is
      cases is with
      | settled result =>
          exact .inr ⟨result, handed, rfl, found, ended, futureEq⟩
      | _ => exact .inl rfl
    unfold Coherent Unsettled at coherent
    split at coherent
    · exact .inl coherent.2.2.2
    · exact .inl coherent.2.2.2.2
    · exact .inl coherent.2.2.2
    · exact .inl coherent.2.2.2
    · exact .inl coherent.2.2.2
    · obtain ⟨outcome, ended, is⟩ := coherent
      exact through ended is
    · obtain ⟨outcome, ended, is⟩ := coherent
      exact through ended is
  · left
    rw [made, List.map_eq_nil_iff, List.filter_eq_nil_iff]
    intro entry member
    have known := sound.known entry member
    simpa using Nat.ne_of_lt (Nat.lt_of_lt_of_le known beyond)

/-- The runtime changes one future at a time, and no asyncio future. -/
theorem ofRuntime_changes {label : Label Value Error}
    (step : state.next label = some last) (own : label.ofRuntime = true) :
    ∃ (index : Nat) (handed changed : Handed Value Error),
      state.handed[index]? = some handed ∧
        last.handed = state.handed.set index changed ∧
          changed.future = handed.future := by
  cases label with
  | finish index result =>
      simp only [Runtime.next] at step
      split at step
      case h_2 => simp at step
      case h_1 handed found =>
        split at step
        case h_2 => simp at step
        case h_1 running =>
          obtain rfl := Option.some.inj step
          exact ⟨index, handed, _, found, rfl, rfl⟩
  | drop index =>
      simp only [Runtime.next] at step
      split at step
      case h_2 => simp at step
      case h_1 handed found =>
        split at step
        case h_2 => simp at step
        case h_1 running relayed =>
          obtain rfl := Option.some.inj step
          exact ⟨index, handed, _, found, rfl, rfl⟩
  | attach index =>
      simp only [Runtime.next, Runtime.attach] at step
      split at step
      case h_2 => simp at step
      case h_1 handed found =>
        split at step
        case h_3 => simp at step
        case h_1 stage =>
          obtain rfl := Option.some.inj step
          exact ⟨index, handed, _, found, rfl, rfl⟩
        case h_2 result stage =>
          obtain rfl := Option.some.inj step
          exact ⟨index, handed, _, found, rfl, rfl⟩
  | check index =>
      simp only [Runtime.next, Runtime.check] at step
      split at step
      case h_2 => simp at step
      case h_1 handed found =>
        split at step
        case h_2 => simp at step
        case h_1 result stage =>
          obtain rfl := Option.some.inj step
          exact ⟨index, handed, _, found, rfl, rfl⟩
  | post index =>
      simp only [Runtime.next, Runtime.post] at step
      split at step
      case h_2 => simp at step
      case h_1 handed found =>
        split at step
        case h_2 => simp at step
        case h_1 result stage =>
          obtain rfl := Option.some.inj step
          exact ⟨index, handed, _, found, callSoon_handed _ _ _, rfl⟩
  | leave index =>
      simp only [Runtime.next, Runtime.leave] at step
      split at step
      case h_2 => simp at step
      case h_1 handed found =>
        split at step
        case h_2 => simp at step
        case h_1 stage =>
          obtain rfl := Option.some.inj step
          exact ⟨index, handed, _, found, rfl, rfl⟩
  | _ => cases own

namespace IsCancelled

variable {index : Nat}

theorem put (is : state.IsCancelled index) {other : Nat}
    {before changed : Handed Value Error}
    (found : state.handed[other]? = some before)
    (set : last.handed = state.handed.set other changed)
    (stays : before.future = .cancelled → changed.future = .cancelled) :
    last.IsCancelled index := by
  obtain ⟨handed, own, cancelled⟩ := is
  rw [IsCancelled, set]
  by_cases same : other = index
  · subst same
    cases own.symm.trans found
    have bound := (List.getElem?_eq_some_iff.mp found).1
    exact ⟨changed, List.getElem?_set_self bound, stays cancelled⟩
  · exact ⟨handed, (List.getElem?_set_ne same).trans own, cancelled⟩

theorem turn (is : state.IsCancelled index) {home : Nat}
    (step : state.turn home = some last) : last.IsCancelled index := by
  unfold Runtime.turn at step
  split at step
  case h_2 => simp at step
  case h_1 callback line found =>
    obtain rfl := Option.some.inj step
    have same : IsCancelled { state with
        loops := state.loops.set home ⟨true, line⟩ } index := is
    unfold run
    split
    · split
      · next handed recordFound =>
        split
        · exact same.put recordFound rfl id
        · exact same
      · exact same
    · split
      · next handed recordFound =>
        split
        · exact same
        · next settles =>
          refine same.put recordFound (callSoon_handed _ _ _) ?_
          intro cancelled
          simp [cancelled, Future.isCancelled] at settles
      · exact same

theorem next (is : state.IsCancelled index) {label : Label Value Error}
    (step : state.next label = some last) : last.IsCancelled index := by
  cases label with
  | newLoop | finalize =>
      obtain rfl := Option.some.inj step
      exact is
  | closeLoop home =>
      simp only [Runtime.next] at step
      split at step
      · obtain rfl := Option.some.inj step
        exact is
      · simp at step
  | wait inner =>
      simp only [Runtime.next, Option.map_eq_some_iff] at step
      obtain ⟨inFlight, -, rfl⟩ := step
      exact is
  | turn home => exact is.turn step
  | handOver home =>
      simp only [Runtime.next, Runtime.handOver] at step
      split at step
      case h_2 => simp at step
      case h_1 loop loopFound =>
        split at step
        case isFalse => simp at step
        case isTrue ready =>
          obtain rfl := Option.some.inj step
          obtain ⟨handed, own, cancelled⟩ := is
          have bound := (List.getElem?_eq_some_iff.mp own).1
          exact ⟨handed, (List.getElem?_append_left bound).trans own,
            cancelled⟩
  | cancel other =>
      simp only [Runtime.next] at step
      split at step
      case h_2 => simp at step
      case h_1 handed found =>
        split at step
        case isTrue pending =>
          obtain rfl := Option.some.inj step
          exact is.put found (callSoon_handed _ _ _) fun _ => rfl
        case isFalse => simp at step
  | finish | drop | attach | check | post | leave =>
      obtain ⟨other, before, changed, found, set, same⟩ :=
        ofRuntime_changes step rfl
      exact is.put found set same.trans

end IsCancelled

theorem Sound.neverSettled (sound : state.Sound) : state.NeverSettled := by
  intro index cancelled labels last run
  have kept (first : Runtime Value Error) (label : Label Value Error)
      (after : Runtime Value Error) (is : first.IsCancelled index)
      (step : system.step first label after) : after.IsCancelled index :=
    is.next step
  have stays : last.IsCancelled index := run.preserves kept cancelled
  have lastSound : last.Sound :=
    run.preserves Sound.invariant.preserved sound
  refine ⟨stays, ?_⟩
  obtain ⟨handed, found, is⟩ := stays
  rcases lastSound.settledOnce index with none | settled
  · exact none
  · obtain ⟨result, other, -, otherFound, -, isSettled⟩ := settled
    cases found.symm.trans otherFound
    rw [is] at isSettled
    cases result <;> cases isSettled

theorem Sound.answered (sound : state.Sound) {index : Nat}
    {handed : Handed Value Error}
    (found : state.handed[index]? = some handed)
    (gone : handed.stage = .gone) : state.Answered index handed := by
  have coherent := sound.coherent index handed found
  unfold Coherent at coherent
  rw [gone] at coherent
  obtain ⟨outcome, ended, through⟩ := coherent
  refine ⟨gone, ?_⟩
  generalize futureEq : handed.future = future at through
  generalize postedEq : state.posted handed.home index = posted at through
  generalize state.made index = made at through
  cases through with
  | cancelled outcome => exact .inl rfl
  | moot outcome is => exact .inr (.inl is)
  | posted future result _ =>
      exact .inr (.inr ⟨result, ended, .inl rfl⟩)
  | settled result => exact .inr (.inr ⟨result, ended, .inr rfl⟩)

/-- Nothing is owed to any future. -/
def AllGone (state : Runtime Value Error) : Prop :=
  ∀ handed ∈ state.handed, handed.stage = .gone

theorem Counted.allGone (counted : state.Counted)
    (zero : state.inFlight.count = 0) : state.AllGone := by
  intro handed member
  rw [counted.count, List.countP_eq_zero] at zero
  have through := zero handed member
  rw [Handed.counts] at through
  cases stage : handed.stage with
  | gone => rfl
  | _ => simp [stage, Stage.counts] at through

theorem AllGone.put (gone : state.AllGone) {index : Nat}
    {handed changed : Handed Value Error}
    (found : state.handed[index]? = some handed)
    (set : last.handed = state.handed.set index changed)
    (same : changed.stage = handed.stage) : last.AllGone := by
  intro record member
  rw [set] at member
  rcases List.mem_or_eq_of_mem_set member with before | rfl
  · exact gone record before
  · exact same.trans (gone handed (List.mem_of_getElem? found))

theorem AllGone.turn (gone : state.AllGone) {home : Nat}
    (step : state.turn home = some last) : last.AllGone := by
  unfold Runtime.turn at step
  split at step
  case h_2 => simp at step
  case h_1 callback line found =>
    obtain rfl := Option.some.inj step
    have same : AllGone { state with
        loops := state.loops.set home ⟨true, line⟩ } := gone
    unfold run
    split
    · split
      · next handed recordFound =>
        split
        · exact same.put recordFound rfl rfl
        · exact same
      · exact same
    · split
      · next handed recordFound =>
        split
        · exact same
        · refine same.put recordFound (callSoon_handed _ _ _) ?_
          rfl
      · exact same

/-- Once nothing is owed the runtime has nothing to do, and nothing is owed
again before a future is handed over. -/
theorem AllGone.next (gone : state.AllGone) {label : Label Value Error}
    (step : state.next label = some last)
    (other : label.isHandOver = false) :
    label.ofRuntime = false ∧ last.AllGone := by
  have stageOf {index : Nat} {handed : Handed Value Error}
      (found : state.handed[index]? = some handed) :
      handed.stage = .gone :=
    gone handed (List.mem_of_getElem? found)
  cases label with
  | handOver home => simp [Label.isHandOver] at other
  | newLoop =>
      obtain rfl := Option.some.inj step
      exact ⟨rfl, gone⟩
  | finalize =>
      obtain rfl := Option.some.inj step
      exact ⟨rfl, gone⟩
  | closeLoop home =>
      simp only [Runtime.next] at step
      split at step
      · obtain rfl := Option.some.inj step
        exact ⟨rfl, gone⟩
      · simp at step
  | wait inner =>
      simp only [Runtime.next, Option.map_eq_some_iff] at step
      obtain ⟨inFlight, -, rfl⟩ := step
      exact ⟨rfl, gone⟩
  | cancel index =>
      simp only [Runtime.next] at step
      split at step
      case h_2 => simp at step
      case h_1 handed found =>
        split at step
        case isTrue pending =>
          obtain rfl := Option.some.inj step
          exact ⟨rfl, gone.put found (callSoon_handed _ _ _) rfl⟩
        case isFalse => simp at step
  | turn home => exact ⟨rfl, gone.turn step⟩
  | finish index result =>
      simp only [Runtime.next] at step
      split at step
      · next handed found => simp [stageOf found] at step
      · simp at step
  | drop index =>
      simp only [Runtime.next] at step
      split at step
      · next handed found => simp [stageOf found] at step
      · simp at step
  | attach index =>
      simp only [Runtime.next, Runtime.attach] at step
      split at step
      · next handed found => simp [stageOf found] at step
      · simp at step
  | check index =>
      simp only [Runtime.next, Runtime.check] at step
      split at step
      · next handed found => simp [stageOf found] at step
      · simp at step
  | post index =>
      simp only [Runtime.next, Runtime.post] at step
      split at step
      · next handed found => simp [stageOf found] at step
      · simp at step
  | leave index =>
      simp only [Runtime.next, Runtime.leave] at step
      split at step
      · next handed found => simp [stageOf found] at step
      · simp at step

theorem AllGone.quiet (gone : state.AllGone) : state.Quiet := by
  intro labels last run
  have general : (∀ label ∈ labels, Label.isHandOver label = false) →
      last.AllGone ∧ ∀ label ∈ labels, Label.ofRuntime label = false := by
    induction run with
    | nil => exact fun _ => ⟨gone, by simp⟩
    | snoc _ step induction =>
        intro others
        obtain ⟨allGone, quiet⟩ := induction fun other member =>
          others other (List.mem_append_left _ member)
        obtain ⟨idle, still⟩ := allGone.next step
          (others _ (List.mem_append_right _ (List.mem_singleton_self _)))
        refine ⟨still, ?_⟩
        intro label member
        rcases List.mem_append.mp member with early | late
        · exact quiet label early
        · obtain rfl := List.mem_singleton.mp late
          exact idle
  exact fun others => (general others).2

/-- How many steps all futures are from being through. -/
def left (state : Runtime Value Error) : Nat :=
  (state.handed.map fun handed => handed.stage.left).sum

theorem sum_set_lt {α : Type} (measure : α → Nat) {entries : List α}
    {index : Nat} {entry changed : α} (found : entries[index]? = some entry)
    (less : measure changed < measure entry) :
    ((entries.set index changed).map measure).sum <
      (entries.map measure).sum := by
  induction entries generalizing index with
  | nil => simp at found
  | cons head rest induction =>
      cases index with
      | zero =>
          obtain rfl := Option.some.inj found
          rw [List.set_cons_zero, List.map_cons, List.map_cons,
            List.sum_cons, List.sum_cons]
          omega
      | succ index =>
          have later := induction found
          rw [List.set_cons_succ, List.map_cons, List.map_cons,
            List.sum_cons, List.sum_cons]
          omega

/-- No task runs any more. -/
def Ended (state : Runtime Value Error) : Prop :=
  ∀ handed ∈ state.handed, handed.stage ≠ .running

theorem Ended.progress (ended : state.Ended) {index : Nat}
    {handed : Handed Value Error}
    (found : state.handed[index]? = some handed)
    (more : handed.stage ≠ .gone) :
    ∃ label last changed, state.next label = some last ∧
      Label.ofRuntime label = true ∧
      last.handed = state.handed.set index changed ∧
      changed.stage ≠ .running ∧ changed.stage.left < handed.stage.left := by
  have notRunning := ended handed (List.mem_of_getElem? found)
  cases stage : handed.stage with
  | running => exact (notRunning stage).elim
  | gone => exact (more stage).elim
  | ended result =>
      cases result with
      | none =>
          let changed : Handed Value Error := { handed with stage := .leaving }
          refine ⟨.attach index, state.put index changed, changed, ?_, rfl,
            rfl, by simp [changed], by simp [changed, Stage.left]⟩
          rw [Runtime.next, Runtime.attach, found]
          simp only [stage, changed]
      | some result =>
          let changed : Handed Value Error := { handed with
            stage := if state.initialized then .attached result
              else .leaving }
          refine ⟨.attach index, state.put index changed, changed, ?_, rfl,
            rfl, ?_⟩
          · rw [Runtime.next, Runtime.attach, found]
            simp only [stage, changed]
          · cases initialized : state.initialized with
            | _ => simp [changed, initialized, Stage.left]
  | attached result =>
      let changed : Handed Value Error := { handed with
        stage := if handed.future.isCancelled then .leaving
          else .posting result }
      refine ⟨.check index, state.put index changed, changed, ?_, rfl,
        rfl, ?_⟩
      · rw [Runtime.next, Runtime.check, found]
        simp only [stage, changed]
      · cases cancelled : handed.future.isCancelled with
        | _ => simp [changed, cancelled, Stage.left]
  | posting result =>
      let changed : Handed Value Error := { handed with stage := .leaving }
      refine ⟨.post index, (state.put index changed).callSoon handed.home
        (.complete index result), changed, ?_, rfl, callSoon_handed _ _ _,
        by simp [changed], by simp [changed, Stage.left]⟩
      rw [Runtime.next, Runtime.post, found]
      simp only [stage, changed]
  | leaving =>
      let changed : Handed Value Error := { handed with stage := .gone }
      refine ⟨.leave index, { state.put index changed with
        inFlight := state.inFlight.done }, changed, ?_, rfl, rfl,
        by simp [changed], by simp [changed, Stage.left]⟩
      rw [Runtime.next, Runtime.leave, found]
      simp only [stage, changed]

theorem drained (counted : state.Counted) (ended : state.Ended) :
    state.Drains := by
  induction size : state.left using Nat.strongRecOn
    generalizing state with
  | _ size induction =>
      by_cases gone : state.AllGone
      · have zero : state.inFlight.count = 0 := by
          rw [counted.count, List.countP_eq_zero]
          intro handed member counts
          rw [Handed.counts, gone handed member] at counts
          simp [Stage.counts] at counts
        refine ⟨[], state, .nil state, by simp, zero, ?_⟩
        intro parked
        have positive := counted.roused parked
        omega
      · simp only [AllGone, not_forall] at gone
        obtain ⟨handed, member, more⟩ := gone
        obtain ⟨index, found⟩ := List.mem_iff_getElem?.mp member
        obtain ⟨label, middle, changed, step, ofRuntime, set, still, less⟩ :=
          ended.progress found more
        have fewer : middle.left < state.left := by
          rw [left, left, set]
          exact sum_set_lt _ found less
        have middleEnded : middle.Ended := by
          intro record recordMember
          rw [set] at recordMember
          rcases List.mem_or_eq_of_mem_set recordMember with before | rfl
          · exact ended record before
          · exact still
        have middleCounted := Counted.invariant.preserved _ _ _ counted step
        obtain ⟨labels, last, run, ofRuntimes, zero, awake⟩ :=
          induction _ (size ▸ fewer) middleCounted middleEnded rfl
        refine ⟨label :: labels, last, .cons step run, ?_, zero, awake⟩
        intro other otherMember
        rcases List.mem_cons.mp otherMember with rfl | late
        · exact ofRuntime
        · exact ofRuntimes other late

/-- Somebody waits while the outcome of a future is on its way. -/
def waited : List (Label Nat Unit) :=
  [.newLoop, .handOver 0, .finish 0 (.ok 7), .attach 0, .wait .enter,
    .wait (.look 0 false), .check 0, .post 0, .turn 0, .leave 0]

def after (labels : List (Label Nat Unit)) : Runtime Nat Unit :=
  (labels.foldlM next fresh).getD fresh

end Runtime

end Repics.Asyncio
