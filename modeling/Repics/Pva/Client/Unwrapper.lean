import Mathlib.Logic.Function.Basic
import Repics.Lib.Transition

/-!
# The unwrapper of a context

A context has one `ClientUnwrapper`, which the dispatcher thread of its
monitors and all threads that get or put share.  It keeps the structure id that
it served last and two bound methods of the helper for it, in three attributes
without a lock.  `unwrap` and `assign` compare the id, have the attributes
updated if it differs, and read the method only then, one statement at a time.

A helper that has no methods of its own stands for no helper: `unwrap` gives
back the value and `assign` is the default one.
-/

namespace Repics.Pva.Client

inductive Kind where
  | unwrap
  | assign
  deriving DecidableEq

/-- The statement of a call that comes next; after the lookup a call knows the
helper, if any is registered. -/
inductive Statement (Helper : Type) where
  | check
  | lookup
  | setId (nt : Option Helper)
  | construct (nt : Option Helper)
  | setUnwrap (nt : Option Helper)
  | setAssign (nt : Option Helper)
  | use

/-- The outcome of the lookup, after it. -/
def Statement.found {Helper : Type} :
    Statement Helper → Option (Option Helper)
  | .setId nt => some nt
  | .construct nt => some nt
  | .setUnwrap nt => some nt
  | .setAssign nt => some nt
  | _ => none

/-- A call of `unwrap` or `assign` with a value of a structure id. -/
structure Task (Id Helper : Type) where
  kind : Kind
  id : Id
  statement : Statement Helper

/-- `used` records for each method that was called the id of its value. -/
structure ClientUnwrapper (Thread Id Helper : Type) where
  id : Option Id
  method : Kind → Option Helper
  tasks : Thread → Option (Task Id Helper)
  used : List (Id × Option Helper)

/-- `raises` says whether the construction of a helper or the access to one of
its methods fails. -/
inductive UnwrapStep (Thread Id : Type) where
  | call (thread : Thread) (kind : Kind) (id : Id)
  | run (thread : Thread) (raises : Bool)

namespace ClientUnwrapper

variable {Thread Id Helper : Type}

/-- A new unwrapper, before it has seen a value. -/
def new : ClientUnwrapper Thread Id Helper where
  id := none
  method _ := none
  tasks _ := none
  used := []

section Steps

variable [DecidableEq Thread]

def setTask (state : ClientUnwrapper Thread Id Helper) (thread : Thread)
    (task : Option (Task Id Helper)) : ClientUnwrapper Thread Id Helper :=
  { state with tasks := Function.update state.tasks thread task }

def setMethod (state : ClientUnwrapper Thread Id Helper) (kind : Kind)
    (helper : Option Helper) : ClientUnwrapper Thread Id Helper :=
  { state with method := Function.update state.method kind helper }

variable [DecidableEq Id] (nt : Id → Option Helper)

/-- The statements of `unwrap`, `assign`, and `_update`. -/
def statement (state : ClientUnwrapper Thread Id Helper) (thread : Thread)
    (task : Task Id Helper) (raises : Bool) :
    ClientUnwrapper Thread Id Helper :=
  let next := fun at_ => some { task with statement := at_ }
  match task.statement with
  | .check =>
      if state.id = some task.id then state.setTask thread (next .use)
      else state.setTask thread (next .lookup)
  | .lookup => state.setTask thread (next (.setId (nt task.id)))
  | .setId helper =>
      { state with id := some task.id }.setTask thread
        (next (.construct helper))
  | .construct helper =>
      if raises then state.setTask thread none
      else state.setTask thread (next (.setUnwrap helper))
  | .setUnwrap helper =>
      if raises then state.setTask thread none
      else (state.setMethod .unwrap helper).setTask thread
        (next (.setAssign helper))
  | .setAssign helper =>
      if raises then state.setTask thread none
      else (state.setMethod .assign helper).setTask thread (next .use)
  | .use =>
      { state with used := state.used ++ [(task.id, state.method task.kind)]
        }.setTask thread none

/-- The part of the code of a helper that an update runs may raise. -/
def step (state : ClientUnwrapper Thread Id Helper) :
    UnwrapStep Thread Id → Option (ClientUnwrapper Thread Id Helper)
  | .call thread kind id =>
      match state.tasks thread with
      | none => some (state.setTask thread (some ⟨kind, id, .check⟩))
      | some _ => none
  | .run thread raises =>
      (state.tasks thread).map fun task =>
        state.statement nt thread task (raises && (nt task.id).isSome)

def system :
    Transition (ClientUnwrapper Thread Id Helper) (UnwrapStep Thread Id) :=
  .ofPartial (fun state => state = new) (step nt)

end Steps

variable (nt : Id → Option Helper)

/-- Each value was passed to the helper that is registered for its id. -/
def OwnHelpers (state : ClientUnwrapper Thread Id Helper) : Prop :=
  ∀ id helper, (id, helper) ∈ state.used → helper = nt id

/-- The call will read the method of this kind and not write it before. -/
def Relies (kind : Kind) (task : Task Id Helper) : Prop :=
  task.kind = kind ∧
    (task.statement = .use ∨
      kind = .unwrap ∧ ∃ helper, task.statement = .setAssign helper)

/-- No other call relies on a method of another helper. -/
def Unshared (state : ClientUnwrapper Thread Id Helper) (thread : Thread)
    (kind : Kind) (helper : Option Helper) : Prop :=
  ∀ other, other ≠ thread → ∀ task, state.tasks other = some task →
    Relies kind task → nt task.id = helper

/-- A call finds its id in the cache only with the methods for it, and writes
a method only while no other call relies on another one. -/
def Settled (state : ClientUnwrapper Thread Id Helper) :
    UnwrapStep Thread Id → Prop
  | .call _ _ _ => True
  | .run thread raises => ∀ task, state.tasks thread = some task →
      match task.statement with
      | .check => state.id = some task.id →
          state.method task.kind = nt task.id
      | .setUnwrap helper => (raises && (nt task.id).isSome) = false →
          Unshared nt state thread .unwrap helper
      | .setAssign helper => (raises && (nt task.id).isSome) = false →
          Unshared nt state thread .assign helper
      | _ => True

/-- A call may go on with its own helper. -/
structure TaskReady (state : ClientUnwrapper Thread Id Helper)
    (task : Task Id Helper) : Prop where
  method : ∀ kind, Relies kind task → state.method kind = nt task.id
  found : ∀ helper, task.statement.found = some helper →
    helper = nt task.id

structure Ready (state : ClientUnwrapper Thread Id Helper) : Prop where
  tasks : ∀ thread task, state.tasks thread = some task →
    TaskReady nt state task
  used : OwnHelpers nt state

namespace Ready

variable {nt : Id → Option Helper}
  {state : ClientUnwrapper Thread Id Helper} {thread : Thread}
  {task : Task Id Helper} [DecidableEq Thread]

theorem setTask (ready : Ready nt state) {next : Option (Task Id Helper)}
    (fine : ∀ task, next = some task → TaskReady nt state task) :
    Ready nt (state.setTask thread next) where
  used := ready.used
  tasks := by
    intro other task isTask
    simp only [ClientUnwrapper.setTask] at isTask
    have still : TaskReady nt state task := by
      by_cases own : other = thread
      · rw [own, Function.update_self] at isTask
        exact fine task isTask
      · rw [Function.update_of_ne own] at isTask
        exact ready.tasks other task isTask
    exact ⟨still.method, still.found⟩

theorem drop (ready : Ready nt state) :
    Ready nt (state.setTask thread none) :=
  ready.setTask fun _ isTask => nomatch isTask

theorem write (ready : Ready nt state) {kind : Kind} {helper : Option Helper}
    (unshared : Unshared nt state thread kind helper)
    (fine : TaskReady nt (state.setMethod kind helper) task) :
    Ready nt ((state.setMethod kind helper).setTask thread (some task)) where
  used := ready.used
  tasks := by
    intro other isOther isTask
    simp only [ClientUnwrapper.setTask] at isTask
    by_cases own : other = thread
    · rw [own, Function.update_self] at isTask
      obtain rfl := Option.some.inj isTask
      exact ⟨fine.method, fine.found⟩
    · rw [Function.update_of_ne own] at isTask
      have before := ready.tasks other isOther isTask
      refine ⟨?_, before.found⟩
      intro reading relies
      by_cases same : reading = kind
      · subst same
        change Function.update state.method reading helper reading = _
        rw [Function.update_self]
        exact (unshared other own isOther isTask relies).symm
      · change Function.update state.method kind helper reading = _
        rw [Function.update_of_ne same]
        exact before.method reading relies

variable [DecidableEq Id]

theorem run (ready : Ready nt state) {raises : Bool}
    (isTask : state.tasks thread = some task)
    (settled : Settled nt state (.run thread raises)) :
    Ready nt (state.statement nt thread task
      (raises && (nt task.id).isSome)) := by
  have before := ready.tasks thread task isTask
  replace settled := settled task isTask
  obtain ⟨kind, id, at_⟩ := task
  cases at_ with
  | check =>
      simp only [statement]
      split
      case isTrue same =>
        apply ready.setTask
        rintro _ ⟨⟩
        refine ⟨?_, nofun⟩
        rintro reading ⟨rfl, _⟩
        exact settled same
      case isFalse =>
        apply ready.setTask
        rintro _ ⟨⟩
        exact ⟨by simp [Relies], nofun⟩
  | lookup =>
      apply ready.setTask
      rintro _ ⟨⟩
      exact ⟨by simp [Relies], fun _ same => (Option.some.inj same).symm⟩
  | setId helper =>
      have stored : Ready nt { state with id := some id } :=
        ⟨fun other task isOther =>
          ⟨(ready.tasks other task isOther).method,
            (ready.tasks other task isOther).found⟩, ready.used⟩
      apply stored.setTask
      rintro _ ⟨⟩
      exact ⟨by simp [Relies], before.found⟩
  | construct helper =>
      simp only [statement]
      split
      case isTrue => exact ready.drop
      case isFalse =>
        apply ready.setTask
        rintro _ ⟨⟩
        exact ⟨by simp [Relies], before.found⟩
  | setUnwrap helper =>
      simp only [statement]
      split
      case isTrue => exact ready.drop
      case isFalse fine =>
        apply ready.write (settled (by simpa using fine))
        refine ⟨?_, before.found⟩
        rintro reading ⟨rfl, use | ⟨rfl, _⟩⟩
        · simp at use
        · exact before.found helper rfl
  | setAssign helper =>
      simp only [statement]
      split
      case isTrue => exact ready.drop
      case isFalse fine =>
        apply ready.write (settled (by simpa using fine))
        refine ⟨?_, nofun⟩
        rintro reading ⟨rfl, _⟩
        cases kind with
        | unwrap => exact before.method .unwrap ⟨rfl, .inr ⟨rfl, _, rfl⟩⟩
        | assign => exact before.found helper rfl
  | use =>
      have extended : Ready nt { state with
          used := state.used ++ [(id, state.method kind)] } := by
        refine ⟨fun other task isOther =>
          ⟨(ready.tasks other task isOther).method,
            (ready.tasks other task isOther).found⟩, ?_⟩
        intro other helper member
        rcases List.mem_append.mp member with old | new
        · exact ready.used other helper old
        · obtain ⟨rfl, rfl⟩ := Prod.mk.inj (List.mem_singleton.mp new)
          exact before.method kind ⟨rfl, .inl rfl⟩
      exact extended.drop

theorem invariant :
    ((system nt : Transition (ClientUnwrapper Thread Id Helper)
      (UnwrapStep Thread Id)).restrict (Settled nt)).Invariant
        (Ready nt) where
  initial := by
    intro state start
    rw [start]
    exact ⟨nofun, nofun⟩
  preserved := by
    intro state label after ready step
    obtain ⟨step, settled⟩ := step
    cases label with
    | call thread kind id =>
        change ClientUnwrapper.step nt state _ = some after at step
        simp only [ClientUnwrapper.step] at step
        split at step
        case h_2 => simp at step
        case h_1 =>
          obtain rfl := Option.some.inj step
          apply ready.setTask
          rintro _ ⟨⟩
          exact ⟨by simp [Relies], nofun⟩
    | run thread raises =>
        obtain ⟨task, isTask, rfl⟩ := Option.map_eq_some_iff.mp step
        exact ready.run isTask settled

end Ready

section Broken

variable {nt} {state : ClientUnwrapper Thread Id Helper} {thread : Thread}
  {kind : Kind} {id : Id} [DecidableEq Thread] [DecidableEq Id]

/-- A call that reads a method of another helper passes its value to it. -/
theorem use_breaks
    (isTask : state.tasks thread = some ⟨kind, id, .use⟩)
    (wrong : state.method kind ≠ nt id) :
    (system nt : Transition (ClientUnwrapper Thread Id Helper)
      (UnwrapStep Thread Id)).Breakable (OwnHelpers nt) state := by
  apply Transition.Breakable.step (.run thread false)
  · simp only [step, isTask, Option.map_some]
    rfl
  · apply Transition.Breakable.now
    intro own
    exact wrong (own id (state.method kind)
      (List.mem_append_right _ List.mem_cons_self))

theorem relies_breaks {task : Task Id Helper}
    (isTask : state.tasks thread = some task) (relies : Relies kind task)
    (wrong : state.method kind ≠ nt task.id) :
    (system nt : Transition (ClientUnwrapper Thread Id Helper)
      (UnwrapStep Thread Id)).Breakable (OwnHelpers nt) state := by
  obtain ⟨own, id, at_⟩ := task
  obtain ⟨rfl, use | ⟨isUnwrap, helper, set⟩⟩ := relies
  · obtain rfl := use
    exact use_breaks isTask wrong
  · obtain rfl := set
    obtain rfl := isUnwrap
    apply Transition.Breakable.step (.run thread false)
    · simp only [step, isTask, Option.map_some, Bool.false_and]
      rfl
    · refine @use_breaks _ _ _ nt _ thread .unwrap id _ _ ?_ wrong
      exact Function.update_self ..

theorem write_breaks {other : Thread} {task current : Task Id Helper}
    {helper : Option Helper} (differs : other ≠ thread)
    (isTask : state.tasks other = some task) (relies : Relies kind task)
    (wrong : nt task.id ≠ helper) :
    (system nt : Transition (ClientUnwrapper Thread Id Helper)
      (UnwrapStep Thread Id)).Breakable (OwnHelpers nt)
        ((state.setMethod kind helper).setTask thread (some current)) := by
  refine @relies_breaks _ _ _ nt _ other kind _ _ task ?_ relies ?_
  · change Function.update state.tasks thread (some current) other = _
    rw [Function.update_of_ne differs]
    exact isTask
  · change Function.update state.method kind helper kind ≠ _
    rw [Function.update_self]
    exact Ne.symm wrong

theorem unsettled_breaks {raises : Bool} {task : Task Id Helper}
    (isTask : state.tasks thread = some task)
    (unsettled : ¬Settled nt state (.run thread raises)) :
    (system nt : Transition (ClientUnwrapper Thread Id Helper)
      (UnwrapStep Thread Id)).Breakable (OwnHelpers nt)
        (state.statement nt thread task
          (raises && (nt task.id).isSome)) := by
  simp only [Settled, not_forall] at unsettled
  obtain ⟨same, isSame, unsettled⟩ := unsettled
  obtain rfl := Option.some.inj (isSame.symm.trans isTask)
  obtain ⟨kind, id, at_⟩ := same
  cases at_ with
  | check =>
      obtain ⟨found, wrong⟩ := Classical.not_imp.mp unsettled
      simp only [statement]
      rw [if_pos found]
      refine @use_breaks _ _ _ nt _ thread kind id _ _ ?_ wrong
      exact Function.update_self ..
  | setUnwrap helper =>
      obtain ⟨quiet, shared⟩ := Classical.not_imp.mp unsettled
      simp only [Unshared, not_forall] at shared
      obtain ⟨other, differs, task, isOther, relies, wrong⟩ := shared
      simp only [statement, quiet]
      exact write_breaks differs isOther relies wrong
  | setAssign helper =>
      obtain ⟨quiet, shared⟩ := Classical.not_imp.mp unsettled
      simp only [Unshared, not_forall] at shared
      obtain ⟨other, differs, task, isOther, relies, wrong⟩ := shared
      simp only [statement, quiet]
      exact write_breaks differs isOther relies wrong
  | _ => exact (unsettled trivial).elim

end Broken

/-- Each value is passed to the helper for its own id in every run in which a
call finds its id in the cache only with the methods for it, and no call
writes a method while another one relies on that of another helper; a value
may be passed to another helper after a step that does otherwise. -/
theorem own_helpers [DecidableEq Thread] [DecidableEq Id] :
    (system nt : Transition (ClientUnwrapper Thread Id Helper)
      (UnwrapStep Thread Id)).Guards (Settled nt) (OwnHelpers nt) where
  enough state reachable := (Ready.invariant.reachable reachable).used
  needed state label after _ step unsettled := by
    cases label with
    | call thread kind id => exact (unsettled trivial).elim
    | run thread raises =>
        obtain ⟨task, isTask, rfl⟩ := Option.map_eq_some_iff.mp step
        exact unsettled_breaks isTask unsettled

inductive NtHelper where
  | scalar
  | enum
  | table
  | ndarray
  deriving DecidableEq

/-- The table that a context starts from. -/
def defaultNT (id : String) : Option NtHelper :=
  match id with
  | "epics:nt/NTScalar:1.0" => some .scalar
  | "epics:nt/NTScalarArray:1.0" => some .scalar
  | "epics:nt/NTEnum:1.0" => some .enum
  | "epics:nt/NTTable:1.0" => some .table
  | "epics:nt/NTNDArray:1.0" => some .ndarray
  | _ => none

def run (thread : Nat) : UnwrapStep Nat String :=
  .run thread false

/-- After a scalar was unwrapped, one thread stores the id of an NTEnum, and
another one finds it there before the methods are replaced. -/
def enumAsScalar : List (UnwrapStep Nat String) :=
  .call 0 .unwrap "epics:nt/NTScalar:1.0" :: List.replicate 7 (run 0) ++
    [.call 0 .unwrap "epics:nt/NTEnum:1.0", run 0, run 0, run 0,
      .call 1 .unwrap "epics:nt/NTEnum:1.0", run 1, run 1]

def mixed : ClientUnwrapper Nat String NtHelper :=
  (enumAsScalar.foldlM (step defaultNT) new).get rfl

/-- The NTEnum is unwrapped by the helper for scalars. -/
theorem enum_unwrapped_as_scalar :
    (system defaultNT).Reachable mixed ∧
      mixed.used = [("epics:nt/NTScalar:1.0", some .scalar),
        ("epics:nt/NTEnum:1.0", some .scalar)] ∧
      ¬OwnHelpers defaultNT mixed := by
  refine ⟨⟨_, enumAsScalar, rfl, ?_⟩, rfl, ?_⟩
  · exact Transition.Run.of_foldlM (Option.some_get _).symm
  · intro own
    have wrong := own "epics:nt/NTEnum:1.0" (some .scalar)
      (List.mem_cons_of_mem _ List.mem_cons_self)
    simp [defaultNT] at wrong

end ClientUnwrapper

end Repics.Pva.Client
