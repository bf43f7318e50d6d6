import Repics.Ca.Client.Ending

/-!
# Calls with one name or with a list

`caget`, `caput` and `connect` shape the request, start one operation for each
name and shape what comes of them: a snapshot is augmented, a wait or a write
that is done is a `CaNothing`, and an error is raised or returned.  What they
use of Python objects is a parameter.
-/

namespace Repics.Ca.Operations

variable {Double Put Obj : Type}

/-- What is used of Python objects: the elements of what can be iterated over,
texts and bytes apart, the value that `put_value` shapes for a datatype, and
what `from_py` makes of it. -/
structure Objects (Obj Put : Type) where
  elements : Obj → Option (List Obj)
  putValue : Datatype → Obj → Except Raised Obj
  fromPy : Obj → Except Raised Put

/-- A task that has just been spawned. -/
def spawn (timeout : Option Double) (op : Op Put) (name : String)
    (channel : Nat) : Task Double Put where
  name := name
  channel := channel
  op := op
  timeout := timeout
  stage := .ready
  issued := []
  answers := []

/-- A call whose tasks have been spawned. -/
def Call.begin (channels : Channels) (tasks : List (Task Double Put)) :
    Call Double Put where
  channels := channels
  tasks := tasks
  out := []
  abandoned := false

section Starting

variable (objects : Objects Obj Put) (channels : Channels)
variable (names : List (String × Nat)) (timeout : Option Double)

/-- `connect`, of names with their channels. -/
def connect : Call Double Put :=
  .begin channels (names.map fun (name, channel) =>
    spawn timeout .connect name channel)

/-- `caget` of a list. -/
def cagetList (request : DbrRequest) (count : Int) : Call Double Put :=
  .begin channels (names.map fun (name, channel) =>
    spawn timeout (.get request count) name channel)

/-- `values_for` -/
def valuesFor (count : Nat) (values : Obj) (repeatValue : Bool) :
    Except Raised (List Obj) :=
  match repeatValue, objects.elements values with
  | false, some each =>
      if each.length ≠ count then .error .valueError else .ok each
  | _, _ => .ok (List.replicate count values)

/-- The values of `caput` as they go to the library: all of them are shaped
before any is converted. -/
def putRequests (count : Nat) (values : Obj) (datatype : Datatype)
    (repeatValue : Bool) : Except Raised (List Put) := do
  let each ← valuesFor objects count values repeatValue
  let shaped ← each.mapM (objects.putValue datatype)
  shaped.mapM objects.fromPy

/-- `caput` of a list.  When a value cannot be converted, nothing is spawned. -/
def caputList (values : Obj) (datatype : Datatype) (repeatValue wait : Bool) :
    Except Raised (Call Double Put) :=
  (putRequests objects names.length values datatype repeatValue).map
    fun puts =>
      .begin channels (List.zipWith
        (fun (name, channel) put =>
          spawn timeout (.put put wait) name channel) names puts)

end Starting

/-- What a call returns for one name: an augmented value, or a `CaNothing` with
its errorcode. -/
inductive Result (Double : Type) where
  | value (value : Augmented Double String)
  | nothing (name : String) (errorcode : Nat)

/-- `ok` -/
def Result.ok : Result Double → Bool
  | .value _ => true
  | .nothing _ errorcode => errorcode == ecaNormal

/-- What a call raises: a `CaError`, what Python raises, or, as only a call
with one name does, the panic of its future. -/
inductive Exc where
  | ca (error : CaError)
  | raised (raised : Raised)
  | panic (text : String)

/-- `finish`, of an exception. -/
def finish (throw : Bool) (name : String) (error : CaError) :
    Except Exc (Result Double) :=
  if throw then .error (.ca error) else .ok (.nothing name error.status)

section Returning

variable (python : Python Double String) (throw : Bool)
variable (marker : Option Marker)

/-- What becomes of a snapshot. -/
def augmented (snap : Snapshot Double String) : Except Exc (Result Double) :=
  match python.augment snap marker with
  | .error raised => .error (.raised raised)
  | .ok value => .ok (.value value)

/-- One turn of the loop of `collect`. -/
def entry (name : String) : Outcome Double → Except Exc (Result Double)
  | .ok (some snap) => augmented python marker snap
  | .ok none => .ok (.nothing name ecaNormal)
  | .error error => finish throw name error

/-- The name, when `note_connected` is called for it. -/
def noted (name : String) : Outcome Double → List String
  | .ok _ => [name]
  | .error _ => []

/-- `collect`: the names that are noted, and the list or what is raised. -/
def collect : List String → List (Outcome Double) →
    List String × Except Exc (List (Result Double))
  | name :: names, outcome :: got =>
      match entry python throw marker name outcome with
      | .error exc => (noted name outcome, .error exc)
      | .ok result =>
          let (seen, out) := collect names got
          (noted name outcome ++ seen, out.map (result :: ·))
  | _, _ => ([], .ok [])

/-- `caget` and `caput` of one name, whose future has come to its end. -/
def single (name : String) :
    Ended Double → List String × Except Exc (Result Double)
  | .returned (.error error) => ([], finish throw name error)
  | .returned (.ok (some snap)) => ([name], augmented python marker snap)
  | .returned (.ok none) => ([name], .ok (.nothing name ecaNormal))
  | .panicked text => ([], .error (.panic text))

end Returning

section InTurn

variable {Found Failed α : Type}

/-- Calls one after the other, until one raises. -/
def inTurn : List (List Found × Except Failed α) →
    List Found × Except Failed (List α)
  | [] => ([], .ok [])
  | (seen, .error failed) :: _ => (seen, .error failed)
  | (seen, .ok value) :: calls =>
      let (later, out) := inTurn calls
      (seen ++ later, out.map (value :: ·))

theorem inTurn_ok_iff {calls : List (List Found × Except Failed α)}
    {values : List α} :
    (inTurn calls).2 = .ok values ↔
      List.Forall₂ (fun call value => call.2 = .ok value) calls values := by
  induction calls generalizing values with
  | nil =>
      rw [List.forall₂_nil_left_iff]
      simp [inTurn, eq_comm]
  | cons call calls induction =>
      obtain ⟨seen, result⟩ := call
      rw [List.forall₂_cons_left_iff]
      cases result with
      | error failed => simp [inTurn]
      | ok value =>
          simp only [inTurn]
          cases rest : (inTurn calls).2 with
          | error failed =>
              constructor
              · intro impossible
                simp [Except.map] at impossible
              · intro split
                obtain ⟨_, others, _, each, _⟩ := split
                rw [induction.mpr each] at rest
                simp at rest
          | ok others =>
              have each := induction.mp rest
              constructor
              · intro same
                obtain rfl := Except.ok.inj same
                exact ⟨value, others, rfl, each, rfl⟩
              · intro split
                obtain ⟨_, also, isValue, eachAlso, rfl⟩ := split
                obtain rfl := Except.ok.inj isValue
                rw [induction.mpr eachAlso] at rest
                obtain rfl := Except.ok.inj rest
                rfl

theorem inTurn_error_iff {calls : List (List Found × Except Failed α)}
    {failed : Failed} :
    (inTurn calls).2 = .error failed ↔
      ∃ before values call after, calls = before ++ call :: after ∧
        List.Forall₂ (fun call value => call.2 = .ok value) before values ∧
        call.2 = .error failed := by
  induction calls with
  | nil => simp [inTurn]
  | cons call calls induction =>
      obtain ⟨seen, result⟩ := call
      cases result with
      | error other =>
          simp only [inTurn]
          constructor
          · intro same
            obtain rfl := Except.error.inj same
            exact ⟨[], [], (seen, .error other), calls, rfl, .nil, rfl⟩
          · intro split
            obtain ⟨before, values, call, after, whole, each, isError⟩ := split
            cases each with
            | nil =>
                obtain ⟨rfl, -⟩ := List.cons.inj whole
                obtain rfl := Except.error.inj isError
                rfl
            | cons first each =>
                obtain ⟨rfl, -⟩ := List.cons.inj whole
                simp at first
      | ok value =>
          simp only [inTurn]
          constructor
          · intro same
            cases rest : (inTurn calls).2 with
            | ok others => simp [rest, Except.map] at same
            | error other =>
                rw [rest] at same
                obtain rfl := Except.error.inj same
                obtain ⟨before, values, call, after, rfl, each, isError⟩ :=
                  induction.mp rest
                exact ⟨(seen, .ok value) :: before, value :: values, call,
                  after, rfl, .cons rfl each, isError⟩
          · intro split
            obtain ⟨before, values, call, after, whole, each, isError⟩ := split
            cases each with
            | nil =>
                obtain ⟨rfl, -⟩ := List.cons.inj whole
                simp at isError
            | cons _ each =>
                obtain ⟨-, rfl⟩ := List.cons.inj whole
                rw [induction.mpr ⟨_, _, call, after, rfl, each, isError⟩]
                rfl

end InTurn

section Agrees

variable (python : Python Double String) (throw : Bool)
variable (marker : Option Marker)

/-- What the call of one name gives once its future is at its end. -/
def Task.alone (task : Task Double Put) :
    Option (List String × Except Exc (Result Double)) :=
  match task.stage with
  | .ended ended => some (single python throw marker task.name ended)
  | _ => none

/-- No task has panicked. -/
def Call.Calm (call : Call Double Put) : Prop :=
  ∀ task ∈ call.tasks, ∀ text, task.stage ≠ .ended (.panicked text)

/-- The outcomes of tasks, collected, are what the calls of their names give
one after the other. -/
theorem collect_alone {tasks : List (Task Double Put)}
    {out : List (Outcome Double)}
    (ended : List.Forall₂
      (fun (task : Task Double Put) outcome =>
        task.stage = .ended (.returned outcome)) tasks out) :
    collect python throw marker (tasks.map Task.name) out =
      inTurn (tasks.filterMap (Task.alone python throw marker)) := by
  induction ended with
  | nil => rfl
  | @cons task outcome tasks out stage _ induction =>
      have alone : task.alone python throw marker =
          some (single python throw marker task.name (.returned outcome)) := by
        simp only [Task.alone, stage]
      rw [List.filterMap_cons_some alone, List.map_cons, collect, induction]
      rcases outcome with error | snap
      · simp only [entry, single, noted, finish]
        cases throw with
        | true => rfl
        | false => rfl
      · cases snap with
        | none => rfl
        | some snap =>
            simp only [entry, single, noted]
            cases augmented python marker snap with
            | error exc => rfl
            | ok value => rfl

end Agrees

section Calls

variable {objects : Objects Obj Put} {channels : Channels}
variable {names : List (String × Nat)} {lib : Library Double}
variable {start call : Call Double Put}

/-- A call with a list of names and their channels has spawned its tasks. -/
inductive Starts (objects : Objects Obj Put) (channels : Channels)
    (names : List (String × Nat)) : Call Double Put → Prop where
  | connect (timeout : Option Double) :
      Starts objects channels names (connect channels names timeout)
  | caget (timeout : Option Double) (request : DbrRequest) (count : Int) :
      Starts objects channels names
        (cagetList channels names timeout request count)
  | caput (timeout : Option Double) (values : Obj) (datatype : Datatype)
      (repeatValue wait : Bool) {start : Call Double Put} :
      caputList objects channels names timeout values datatype repeatValue
        wait = .ok start →
      Starts objects channels names start

theorem mapM_length {α β : Type} {action : α → Except Raised β}
    {items : List α} {made : List β} (ok : items.mapM action = .ok made) :
    made.length = items.length := by
  induction items generalizing made with
  | nil =>
      obtain rfl := Except.ok.inj ok
      rfl
  | cons item items induction =>
      rw [List.mapM_cons] at ok
      cases first : action item with
      | error raised => simp [first, bind, Except.bind] at ok
      | ok value =>
          cases rest : items.mapM action with
          | error raised => simp [first, rest, bind, Except.bind] at ok
          | ok others =>
              have same : value :: others = made := by
                simpa [first, rest, bind, Except.bind, pure, Except.pure]
                  using ok
              rw [← same, List.length_cons, List.length_cons, induction rest]

theorem putRequests_length {count : Nat} {values : Obj} {datatype : Datatype}
    {repeatValue : Bool} {puts : List Put}
    (ok : putRequests objects count values datatype repeatValue = .ok puts) :
    puts.length = count := by
  unfold putRequests at ok
  cases each : valuesFor objects count values repeatValue with
  | error raised => simp [each, bind, Except.bind] at ok
  | ok given =>
      cases shaped : given.mapM (objects.putValue datatype) with
      | error raised => simp [each, shaped, bind, Except.bind] at ok
      | ok values =>
          have converted : values.mapM objects.fromPy = .ok puts := by
            simpa [each, shaped, bind, Except.bind] using ok
          rw [mapM_length converted, mapM_length shaped]
          unfold valuesFor at each
          split at each
          case h_1 =>
            split at each
            case isTrue => simp at each
            case isFalse same =>
              obtain rfl := Except.ok.inj each
              exact not_not.mp same
          case h_2 =>
            obtain rfl := Except.ok.inj each
            exact List.length_replicate

theorem begin_begins {tasks : List (Task Double Put)}
    (fresh : ∀ task ∈ tasks, ∃ timeout op name channel,
      task = spawn timeout op name channel) :
    (Call.begin channels tasks).Begins where
  ready task member := by
    obtain ⟨timeout, op, name, channel, rfl⟩ := fresh task member
    rfl
  issued task member := by
    obtain ⟨timeout, op, name, channel, rfl⟩ := fresh task member
    rfl
  answers task member := by
    obtain ⟨timeout, op, name, channel, rfl⟩ := fresh task member
    rfl
  out := rfl

/-- A call starts with one new task for each of its names, in their order. -/
theorem Starts.begins
    (starts : Starts objects channels names start) :
    start.Begins ∧
      start.tasks.map (fun task => (task.name, task.channel)) = names := by
  cases starts with
  | connect timeout =>
      refine ⟨begin_begins ?_, ?_⟩
      · intro task member
        obtain ⟨⟨name, channel⟩, -, rfl⟩ := List.mem_map.mp member
        exact ⟨_, _, name, channel, rfl⟩
      · simp only [Operations.connect, Call.begin, List.map_map]
        exact List.map_id names
  | caget timeout request count =>
      refine ⟨begin_begins ?_, ?_⟩
      · intro task member
        obtain ⟨⟨name, channel⟩, -, rfl⟩ := List.mem_map.mp member
        exact ⟨_, _, name, channel, rfl⟩
      · simp only [cagetList, Call.begin, List.map_map]
        exact List.map_id names
  | caput timeout values datatype repeatValue wait ok =>
      unfold caputList at ok
      cases requests : putRequests objects names.length values datatype
          repeatValue with
      | error raised =>
          rw [requests] at ok
          simp [Except.map] at ok
      | ok puts =>
          rw [requests] at ok
          obtain rfl := Except.ok.inj ok
          have one := putRequests_length requests
          refine ⟨begin_begins ?_, ?_⟩
          · intro task member
            rw [← List.map_uncurry_zip_eq_zipWith] at member
            obtain ⟨⟨⟨name, channel⟩, put⟩, -, rfl⟩ :=
              List.mem_map.mp member
            exact ⟨_, _, name, channel, rfl⟩
          · simp only [Call.begin, List.map_zipWith]
            rw [← List.map_uncurry_zip_eq_zipWith]
            conv_rhs => rw [← List.map_fst_zip (Nat.le_of_eq one.symm)]
            rfl

/-- What comes of an operation that succeeds: a wait saw a circuit, and a read
or a write was issued and answered. -/
theorem Story.succeeded {name : String} {op : Op Put}
    {timeout : Option Double} {history : History Double}
    {issued : List (Request Put)} {answers : List (Answer Double)}
    {result : Option (Snapshot Double String)}
    (story : Story lib name op timeout history issued answers
      (.ended (.returned (.ok result)))) :
    (op = .connect ∧ result = none ∧
      ∃ before here, history = before ++ [(.joined, here)] ∧
        here.native.isSome) ∨
    ∃ request answer before here, issued = [request] ∧
      answers = [.ok answer] ∧
      history = before ++ [(.answered (.ok answer), here)] ∧
      result = answer.map (Snapshot.fromRs name) := by
  cases story with
  | early way => exact way.stage_early.elim
  | connected isOp circuit =>
      exact .inl ⟨isOp, rfl, [_], _, rfl, circuit⟩
  | read snap _ _ => exact .inr ⟨_, some snap, _, _, rfl, rfl, rfl, rfl⟩
  | written _ _ => exact .inr ⟨_, none, _, _, rfl, rfl, rfl, rfl⟩

/-- The whole call, whatever the channels, the library and its timeouts do.
Each task is explained by what it met on its channel, and issues at most one
request; a wait that is done saw a circuit, and a read or a write that is done
was issued and answered; the outcomes come in the order of the names; with a
timeout the call comes to its end without the library; and what is returned or
raised then is what calls with the single names would give, one after the
other.  The first name that would raise, in the order of the list, is what
raises. -/
structure Answers (lib : Library Double) (names : List (String × Nat))
    (start : Call Double Put) (labels : List (Label Double))
    (call : Call Double Put) : Prop where
  named : call.tasks.map (fun task => (task.name, task.channel)) = names
  asked : call.tasks.map Task.args = start.tasks.map Task.args
  explained : ∀ (index : Nat) (task : Task Double Put),
    call.tasks[index]? = some task →
      Story lib task.name task.op task.timeout
        (history start.channels index task.channel
          (labels.filterMap Label.side?))
        task.issued task.answers task.stage
  issued : ∀ task ∈ call.tasks, task.issued.length ≤ 1
  succeeded : ∀ (index : Nat) (task : Task Double Put)
    (result : Option (Snapshot Double String)),
    call.tasks[index]? = some task →
      task.stage = .ended (.returned (.ok result)) →
        (task.op = .connect ∧ result = none ∧
          ∃ before after, labels.filterMap Label.side? =
              before ++ .inr (index, .joined) :: after ∧
            (shown start.channels task.channel before).native.isSome) ∨
        ∃ request answer before after, task.issued = [request] ∧
          labels.filterMap Label.side? =
            before ++ .inr (index, .answered (.ok answer)) :: after ∧
          result = answer.map (Snapshot.fromRs task.name)
  inOrder : ∀ (index : Nat) (outcome : Outcome Double),
    call.out[index]? = some outcome →
      ∃ task : Task Double Put, call.tasks[index]? = some task ∧
        task.outcome = some outcome
  ends : call.abandoned = false → call.Timely →
    ∃ last, call.Flows lib last ∧ last.out.length = last.tasks.length
  agrees : call.out.length = call.tasks.length → call.Calm →
    ∀ (python : Python Double String) (throw : Bool) (marker : Option Marker),
      List.Forall₂
          (fun (task : Task Double Put) ended =>
            task.stage = .ended (.returned ended)) call.tasks call.out ∧
        collect python throw marker (names.map Prod.fst) call.out =
          inTurn (call.tasks.filterMap (Task.alone python throw marker))
  returns : call.out.length = call.tasks.length → call.Calm →
    ∀ (python : Python Double String) (throw : Bool) (marker : Option Marker)
      (values : List (Result Double)),
      (collect python throw marker (names.map Prod.fst) call.out).2 =
          .ok values ↔
        List.Forall₂ (fun alone value => alone.2 = .ok value)
          (call.tasks.filterMap (Task.alone python throw marker)) values
  raises : call.out.length = call.tasks.length → call.Calm →
    ∀ (python : Python Double String) (throw : Bool) (marker : Option Marker)
      (exc : Exc),
      (collect python throw marker (names.map Prod.fst) call.out).2 =
          .error exc ↔
        ∃ before values alone after,
          call.tasks.filterMap (Task.alone python throw marker) =
              before ++ alone :: after ∧
            List.Forall₂ (fun alone value => alone.2 = .ok value) before
              values ∧
            alone.2 = .error exc

/-- When all outcomes are there and no task has panicked, they are what the
futures returned. -/
theorem Call.Sound.returned (sound : call.Sound lib) (calm : call.Calm)
    (all : call.out.length = call.tasks.length) :
    List.Forall₂
      (fun (task : Task Double Put) ended =>
        task.stage = .ended (.returned ended)) call.tasks call.out := by
  rw [List.forall₂_iff_get]
  refine ⟨all.symm, ?_⟩
  intro index inTasks inOut
  obtain ⟨task, found, ended⟩ := sound.inOrder index _
    (List.getElem?_eq_getElem inOut)
  obtain ⟨_, isTask⟩ := List.getElem?_eq_some_iff.mp found
  have member := List.mem_of_getElem? found
  simp only [List.get_eq_getElem]
  rw [isTask]
  unfold Task.outcome at ended
  split at ended
  case h_1 outcome stage =>
    obtain rfl := Option.some.inj ended
    exact stage
  case h_2 text stage => exact (calm task member text stage).elim
  case h_3 => simp at ended

end Calls

/-- Numbers are written as they are. -/
def numbers : Objects Int Int where
  elements _ := none
  putValue _ value := .ok value
  fromPy value := .ok value

def threeNames : List (String × Nat) :=
  [("gone", 0), ("locked", 1), ("there", 2)]

theorem threeWrites_starts :
    Starts numbers threeChannels threeNames threeWrites :=
  .caput (some (some 5)) 7 .native false true rfl

end Repics.Ca.Operations
