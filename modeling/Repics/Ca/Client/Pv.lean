import Repics.Lib.Transition
import Repics.Ca.Client.Value

/-!
# The cached value of a `PV`

One dictionary is written by the monitor, by every read, and by the rendering
of a value, which may itself read the control fields.  An operation is taken as
one step, but the callbacks of an update run between its store and its end.
What the server makes of a read is given with the step.
-/

namespace Repics.Ca

/-- The values of `_CTRL_KEYS` that are known. -/
structure Control (Double Text : Type) where
  units : Option Text
  precision : Option Int
  enumStrs : Option (List Text)
  limit : Limit → Option Double

/-- The other values of `_meta`. -/
structure Times where
  status : Nat
  severity : Nat
  posixseconds : Nat
  nanoseconds : Nat
  count : Nat
  ftype : Dbr
  type : String

/-- How Python shows values: `str` of numbers, of the list of an array and of a
list, a number with some digits, and the text for a large array. -/
structure Shown (Double Text : Type) where
  int : Int → Text
  float : Double → Text
  fixed : Int → Double → Text
  tolist : Items Double → Text
  large : Nat → String → Text
  list : List Text → Text
  bytes : List UInt8 → Text

inductive Origin where
  | update
  | read
  deriving DecidableEq

/-- A Python object for an augmented value, made for an update or by a read. -/
structure Object (Double Text : Type) where
  id : Nat
  origin : Origin
  augmented : Augmented Double Text

/-- `_args`. -/
structure Args (Double Text : Type) where
  value : Option (Object Double Text)
  times : Option Times
  control : Control Double Text
  charValue : Option Text

/-- What a `caget` asks for. -/
structure Request where
  form : Form
  count : Int

/-- What `get` returns: the object, its rendering, or the list of its array. -/
inductive Given (Double Text : Type) where
  | object (object : Object Double Text)
  | text (text : Text)
  | listed (object : Object Double Text)

/-- A `get` that returned: the object that it returned or rendered, the read
that it made, and, for the record, what held when it was called. -/
structure Got (Double Text : Type) where
  given : Given Double Text
  object : Object Double Text
  request : Option Request
  live : Bool
  last : Option (Object Double Text)
  first : Nat

/-- The arguments of `get`. -/
structure GetOptions where
  count : Option Int
  asString : Bool
  asNumpy : Bool
  useMonitor : Bool

/-- A `PV` with its subscription.  `delivering` says that the callbacks of an
update run, and `dispatching` that the thread of the dispatcher does.  Kept for
the record: the last update, the number of reads stored since, the number of
objects, and the answers of `get`. -/
structure Pv (Double Text : Type) where
  form : Form
  count : Option Int
  args : Args Double Text
  ctrl : Option (Control Double Text)
  monitored : Bool
  attached : Bool
  closed : Bool
  dispatching : Bool
  delivering : Bool
  last : Option (Object Double Text)
  reads : Nat
  objects : Nat
  answers : List (Got Double Text)

/-- What a read comes back with. -/
abbrev Read (Double Text Error : Type) :=
  Except Error (Augmented Double Text)

variable {Double Text Error : Type}

def Augmented.control (value : Augmented Double Text) :
    Control Double Text where
  units := value.snap.units
  precision := value.snap.precision
  enumStrs := value.snap.enums
  limit := value.snap.limit

def Augmented.times (value : Augmented Double Text) : Times where
  status := value.snap.status
  severity := value.snap.severity
  posixseconds := value.snap.rawStamp.1
  nanoseconds := value.snap.rawStamp.2
  count := value.snap.elementCount
  ftype := value.snap.dbr
  type := value.snap.dbr.name

namespace Control

def empty : Control Double Text where
  units := none
  precision := none
  enumStrs := none
  limit _ := none

/-- Only what the value has is written. -/
def update (control new : Control Double Text) : Control Double Text where
  units := new.units.or control.units
  precision := new.precision.or control.precision
  enumStrs := new.enumStrs.or control.enumStrs
  limit limit := (new.limit limit).or (control.limit limit)

end Control

namespace Items

def size : Items Double → Nat
  | ints _ elements => elements.length
  | floats _ elements => elements.length

end Items

section Rendering

variable (python : Python Double Text) (shown : Shown Double Text)

def Shown.str : PyValue Double Text → Text
  | .float number => shown.float number
  | .int number => shown.int number
  | .str text => text
  | .ndarray items => shown.tolist items
  | .list texts => shown.list texts
  | .bytes raw => shown.bytes raw

/-- The label of an enum, once its labels are known or are not to be had. -/
def enumText (value : PyValue Double Text) (strs : Option (List Text)) :
    Except (Failure Error) Text :=
  match python.int value with
  | .error raised => .error (.raised raised)
  | .ok index =>
      match strs with
      | none => .ok (shown.int index)
      | some strs =>
          if 0 ≤ index then
            .ok (strs[index.toNat]?.getD (shown.int index))
          else .ok (shown.int index)

def floatText (number : Double) : Option Int → Text
  | some prec => if 0 ≤ prec then shown.fixed prec number
      else shown.float number
  | none => shown.float number

def arrayText (items : Items Double) (dbr : Dbr) : Text :=
  if dbr = .char then python.decode (untilNul (python.astype items))
  else if items.size ≤ 20 then shown.tolist items
  else shown.large items.size dbr.name

end Rendering

namespace Pv

/-- `self._args.update(_meta(value))`, and `_ctrl`. -/
def record (pv : Pv Double Text) (object : Object Double Text)
    (ctrl : Bool) : Pv Double Text :=
  let value := object.augmented
  let control := pv.args.control.update value.control
  { pv with
    args := { pv.args with
      value := some object
      times := some value.times
      control := control }
    ctrl :=
      if ctrl || value.snap.units.isSome || value.snap.enums.isSome then
        some control
      else pv.ctrl
    last := match object.origin with
      | .update => some object
      | .read => pv.last
    reads := match object.origin with
      | .update => 0
      | .read => pv.reads + 1 }

/-- `self._args["char_value"]`, unless the rendering raised. -/
def setCharValue (pv : Pv Double Text) :
    Except (Failure Error) Text →
      Except (Failure Error) Unit × Pv Double Text
  | .ok text =>
      (.ok (), { pv with args := { pv.args with charValue := some text } })
  | .error failure => (.error failure, pv)

section Reading

variable (python : Python Double Text) (shown : Shown Double Text)

/-- `_as_string` when the control fields are known. -/
def known (pv : Pv Double Text) (value : Augmented Double Text) :
    Except (Failure Error) Text :=
  if value.snap.dbr = .enum then
    enumText python shown value.value pv.args.control.enumStrs
  else
    match value.value with
    | .ndarray items => .ok (arrayText python shown items value.snap.dbr)
    | .float number => .ok (floatText shown number pv.args.control.precision)
    | value => .ok (shown.str value)

/-- `get_ctrlvars`, for a read that makes the object `id`.  `record` has set
`_ctrl`, so the rendering does not read again. -/
def getCtrlvars (pv : Pv Double Text) (id : Nat) :
    Read Double Text Error →
      Except (Failure Error) (Control Double Text) × Pv Double Text
  | .error error => (.error (.ca error), pv)
  | .ok value =>
      let stored := pv.record ⟨id, .read, value⟩ true
      let rendered := stored.setCharValue (stored.known python shown value)
      (rendered.1.map fun _ => stored.ctrl.getD Control.empty, rendered.2)

/-- `_ctrlvar`; the channel is asked when it is connected. -/
def ctrlvar {Value : Type} (pv : Pv Double Text)
    (key : Control Double Text → Value) (id : Nat)
    (ask : Option (Read Double Text Error)) :
    Except (Failure Error) Value × Pv Double Text :=
  match pv.ctrl, ask with
  | none, some read =>
      let fetched := pv.getCtrlvars python shown id read
      (fetched.1.map fun _ => key fetched.2.args.control, fetched.2)
  | _, _ => (.ok (key pv.args.control), pv)

/-- `_as_string`. -/
def asString (pv : Pv Double Text) (value : Augmented Double Text) (id : Nat)
    (ask : Option (Read Double Text Error)) :
    Except (Failure Error) Text × Pv Double Text :=
  if value.snap.dbr = .enum then
    let strs := pv.ctrlvar python shown Control.enumStrs id ask
    (strs.1.bind (enumText python shown value.value), strs.2)
  else
    match value.value with
    | .ndarray items => (.ok (arrayText python shown items value.snap.dbr), pv)
    | .float number =>
        let prec := pv.ctrlvar python shown Control.precision id ask
        (prec.1.map (floatText shown number), prec.2)
    | value => (.ok (shown.str value), pv)

/-- `_store`, without `ctrl`. -/
def store (pv : Pv Double Text) (object : Object Double Text) (id : Nat)
    (ask : Option (Read Double Text Error)) :
    Except (Failure Error) Unit × Pv Double Text :=
  let stored := pv.record object false
  let text := stored.asString python shown object.augmented id ask
  text.2.setCharValue text.1

/-- `get_timevars`. -/
def getTimevars (pv : Pv Double Text) (id : Nat)
    (read : Read Double Text Error)
    (ask : Option (Read Double Text Error)) :
    Except (Failure Error) (Option Times) × Pv Double Text :=
  match read with
  | .error error => (.error (.ca error), pv)
  | .ok value =>
      let stored := pv.store python shown ⟨id, .read, value⟩ (id + 1) ask
      (stored.1.map fun _ => stored.2.args.times, stored.2)

/-- The value that `get` need not read. -/
def cached (pv : Pv Double Text) (options : GetOptions) :
    Option (Object Double Text) :=
  if options.useMonitor && options.count.isNone && pv.monitored then
    pv.args.value
  else none

/-- `disconnect`, a callback that raises, and an `End` close the subscription;
a connection or access callback that raises ends the dispatcher. -/
def live (pv : Pv Double Text) : Bool :=
  !pv.closed && pv.dispatching

/-- The value of a `get`, and the read that it made. -/
def fetch (pv : Pv Double Text) (options : GetOptions)
    (read : Read Double Text Error)
    (ask : Option (Read Double Text Error)) :
    Except (Failure Error) (Object Double Text × Option Request) ×
      Pv Double Text :=
  match pv.cached options, read with
  | some object, _ => (.ok (object, none), pv)
  | none, .error error => (.error (.ca error), pv)
  | none, .ok value =>
      let object := ⟨pv.objects, .read, value⟩
      let stored := pv.store python shown object (pv.objects + 1) ask
      let request := {
        form := pv.form
        count := options.count.getD (pv.count.getD 0) }
      (stored.1.map fun _ => (object, some request), stored.2)

/-- What `get` makes of the value. -/
def give (pv : Pv Double Text) (options : GetOptions)
    (object : Object Double Text) (id : Nat)
    (ask : Option (Read Double Text Error)) :
    Except (Failure Error) (Given Double Text) × Pv Double Text :=
  if options.asString then
    let text := pv.asString python shown object.augmented id ask
    (text.1.map .text, text.2)
  else
    match object.augmented.value, options.asNumpy with
    | .ndarray _, false => (.ok (.listed object), pv)
    | _, _ => (.ok (.object object), pv)

/-- `get`; `later` is for the rendering of the value that it returns. -/
def get (pv : Pv Double Text) (options : GetOptions)
    (read : Read Double Text Error)
    (ask later : Option (Read Double Text Error)) :
    Except (Failure Error) (Got Double Text) × Pv Double Text :=
  match pv.fetch python shown options read ask with
  | (.error failure, fetched) => (.error failure, fetched)
  | (.ok (object, request), fetched) =>
      let given :=
        fetched.give python shown options object (pv.objects + 2) later
      (given.1.map fun given => {
        given := given
        object := object
        request := request
        live := pv.live
        last := pv.last
        first := pv.objects }, given.2)

/-- `_on_update` up to its callbacks; `_deliver` closes the subscription if it
raises. -/
def onUpdate (pv : Pv Double Text) (value : Augmented Double Text)
    (ask : Option (Read Double Text Error)) : Pv Double Text :=
  let stored := { pv with monitored := true }.store python shown
    ⟨pv.objects, .update, value⟩ (pv.objects + 1) ask
  match stored.1 with
  | .ok _ => { stored.2 with delivering := true }
  | .error _ => { stored.2 with closed := true }

end Reading

/-- The dispatcher takes the next item. -/
def ready (pv : Pv Double Text) : Bool :=
  pv.dispatching && !pv.delivering

/-- No operation makes more objects than three. -/
def advance (pv : Pv Double Text) : Pv Double Text :=
  { pv with objects := pv.objects + 3 }

def logged (pv : Pv Double Text) :
    Except (Failure Error) (Got Double Text) → Pv Double Text
  | .ok answer => { pv with answers := pv.answers ++ [answer] }
  | .error _ => pv

/-- The items of the dispatcher, the end of the callbacks of an update, and the
operations of the owner.  An `event` is a change of the connection or of the
access rights, whose callbacks raise or not. -/
inductive Label (Double Text Error : Type) where
  | update (value : Augmented Double Text)
      (ask : Option (Read Double Text Error))
  | callbacks (raises : Bool)
  | event (raises : Bool)
  | ended
  | get (options : GetOptions) (read : Read Double Text Error)
      (ask later : Option (Read Double Text Error))
  | getCtrlvars (read : Read Double Text Error)
  | getTimevars (read : Read Double Text Error)
      (ask : Option (Read Double Text Error))
  | ctrlvar (ask : Option (Read Double Text Error))
  | disconnect

section Stepping

variable (python : Python Double Text) (shown : Shown Double Text)

/-- `_event` drops what comes for a subscription that is closed. -/
def next (pv : Pv Double Text) :
    Label Double Text Error → Option (Pv Double Text)
  | .update value ask =>
      if !pv.ready then none
      else if pv.closed then some pv
      else some (pv.onUpdate python shown value ask).advance
  | .callbacks raises =>
      if !pv.delivering then none
      else some { pv with delivering := false, closed := pv.closed || raises }
  | .event raises =>
      if !pv.ready then none
      else if pv.closed then some pv
      else some { pv with dispatching := !raises }
  | .ended => if !pv.ready then none else some { pv with closed := true }
  | .get options read ask later =>
      let got := pv.get python shown options read ask later
      some (got.2.logged got.1).advance
  | .getCtrlvars read =>
      some (pv.getCtrlvars python shown pv.objects read).2.advance
  | .getTimevars read ask =>
      some (pv.getTimevars python shown pv.objects read ask).2.advance
  | .ctrlvar ask =>
      some (pv.ctrlvar python shown id pv.objects ask).2.advance
  | .disconnect =>
      if pv.attached then some { pv with attached := false, closed := true }
      else some pv

end Stepping

/-- A new `PV`, which has its subscription. -/
def start (form : Form) (count : Option Int) : Pv Double Text where
  form := form
  count := count
  args := {
    value := none
    times := none
    control := Control.empty
    charValue := none }
  ctrl := none
  monitored := false
  attached := true
  closed := false
  dispatching := true
  delivering := false
  last := none
  reads := 0
  objects := 0
  answers := []

def system (Error : Type) (python : Python Double Text)
    (shown : Shown Double Text) :
    Transition (Pv Double Text) (Label Double Text Error) :=
  .ofPartial (fun pv => ∃ form count, pv = start form count)
    (next python shown)

end Pv

/-- An answer without a read is the last update of a live subscription, and
one with a read is the object of that read. -/
def Got.Right (answer : Got Double Text) : Prop :=
  match answer.request with
  | none => answer.live = true ∧ answer.last = some answer.object
  | some _ =>
      answer.object.origin = .read ∧ answer.object.id = answer.first

namespace Pv

/-- Every `get` that returned gave the right value. -/
def AnswersRight (pv : Pv Double Text) : Prop :=
  ∀ answer ∈ pv.answers, answer.Right

/-- A `get` that does not read comes while the subscription is live, and no
read was stored since the last update. -/
def Fresh (pv : Pv Double Text) : Label Double Text Error → Prop
  | .get options _ _ _ =>
      (pv.cached options).isSome → pv.live = true ∧ pv.reads = 0
  | _ => True

/-- The cached value is the last update until a read is stored, and after that
it comes from a read. -/
structure Coherent (pv : Pv Double Text) : Prop where
  monitored : pv.monitored = pv.last.isSome
  origin : ∀ object, pv.last = some object → object.origin = .update
  latest : pv.reads = 0 → pv.args.value = pv.last
  later : 0 < pv.reads →
    ∃ object, pv.args.value = some object ∧ object.origin = .read

/-- Some reads, or none, were stored, and nothing else was done. -/
structure Reads (pv after : Pv Double Text) : Prop where
  frame : after = { pv with
    args := after.args
    ctrl := after.ctrl
    reads := after.reads }
  coherent : pv.Coherent → after.Coherent
  reads : pv.reads ≤ after.reads

namespace Reads

variable {pv middle after : Pv Double Text}

theorem refl (pv : Pv Double Text) : pv.Reads pv :=
  ⟨rfl, id, Nat.le_refl _⟩

theorem trans (first : pv.Reads middle) (second : middle.Reads after) :
    pv.Reads after where
  frame := by
    rw [second.frame, first.frame]
  coherent coherent := second.coherent (first.coherent coherent)
  reads := Nat.le_trans first.reads second.reads

theorem answers (stored : pv.Reads after) : after.answers = pv.answers := by
  rw [stored.frame]

theorem live (stored : pv.Reads after) : after.live = pv.live := by
  rw [stored.frame]
  rfl

theorem monitored (stored : pv.Reads after) :
    after.monitored = pv.monitored := by
  rw [stored.frame]

end Reads

theorem Coherent.setArgs {pv : Pv Double Text} (coherent : pv.Coherent)
    {args : Args Double Text} (same : args.value = pv.args.value) :
    { pv with args := args }.Coherent where
  monitored := coherent.monitored
  origin := coherent.origin
  latest none := same.trans (coherent.latest none)
  later some := by
    rw [same]
    exact coherent.later some

theorem setCharValue_reads (pv : Pv Double Text)
    (text : Except (Failure Error) Text) :
    pv.Reads (pv.setCharValue text).2 := by
  cases text with
  | ok text =>
      exact ⟨rfl, fun coherent => coherent.setArgs rfl, Nat.le_refl _⟩
  | error failure => exact .refl pv

theorem record_reads (pv : Pv Double Text) (object : Object Double Text)
    (ctrl : Bool) (isRead : object.origin = .read) :
    pv.Reads (pv.record object ctrl) where
  frame := by simp only [record, isRead]
  coherent coherent := by
    constructor
    · simpa only [record, isRead] using coherent.monitored
    · simpa only [record, isRead] using coherent.origin
    · intro none
      simp [record, isRead] at none
    · intro _
      exact ⟨object, rfl, isRead⟩
  reads := by simp [record, isRead]

/-- After the record of an update it is the cached value, whatever was there
before. -/
theorem record_update (pv : Pv Double Text) (object : Object Double Text)
    (ctrl : Bool) (isUpdate : object.origin = .update) :
    ({ pv with monitored := true }.record object ctrl).Coherent where
  monitored := by simp [record, isUpdate]
  origin last same := by
    obtain rfl : object = last := by simpa [record, isUpdate] using same
    exact isUpdate
  latest _ := by simp [record, isUpdate]
  later some := by simp [record, isUpdate] at some

section Reading

variable (python : Python Double Text) (shown : Shown Double Text)

theorem getCtrlvars_reads (pv : Pv Double Text) (id : Nat)
    (read : Read Double Text Error) :
    pv.Reads (pv.getCtrlvars python shown id read).2 := by
  cases read with
  | error error => exact .refl pv
  | ok value =>
      exact (record_reads pv _ true rfl).trans (setCharValue_reads _ _)

theorem ctrlvar_reads {Value : Type} (pv : Pv Double Text)
    (key : Control Double Text → Value) (id : Nat)
    (ask : Option (Read Double Text Error)) :
    pv.Reads (pv.ctrlvar python shown key id ask).2 := by
  unfold ctrlvar
  split
  · exact getCtrlvars_reads python shown pv id _
  · exact .refl pv

theorem asString_reads (pv : Pv Double Text) (value : Augmented Double Text)
    (id : Nat) (ask : Option (Read Double Text Error)) :
    pv.Reads (pv.asString python shown value id ask).2 := by
  rw [asString]
  split
  · exact ctrlvar_reads python shown pv _ id ask
  · split
    · exact .refl pv
    · exact ctrlvar_reads python shown pv _ id ask
    · exact .refl pv

/-- The rendering that a store asks for comes after the record. -/
theorem store_reads (pv : Pv Double Text) (object : Object Double Text)
    (id : Nat) (ask : Option (Read Double Text Error)) :
    (pv.record object false).Reads
      (pv.store python shown object id ask).2 :=
  (asString_reads python shown _ _ id ask).trans (setCharValue_reads _ _)

theorem getTimevars_reads (pv : Pv Double Text) (id : Nat)
    (read : Read Double Text Error)
    (ask : Option (Read Double Text Error)) :
    pv.Reads (pv.getTimevars python shown id read ask).2 := by
  cases read with
  | error error => exact .refl pv
  | ok value =>
      exact (record_reads pv _ false rfl).trans
        (store_reads python shown pv _ _ ask)

theorem fetch_reads (pv : Pv Double Text) (options : GetOptions)
    (read : Read Double Text Error)
    (ask : Option (Read Double Text Error)) :
    pv.Reads (pv.fetch python shown options read ask).2 := by
  unfold fetch
  split
  · exact .refl pv
  · exact .refl pv
  · exact (record_reads pv _ false rfl).trans
      (store_reads python shown pv _ _ ask)

theorem give_reads (pv : Pv Double Text) (options : GetOptions)
    (object : Object Double Text) (id : Nat)
    (ask : Option (Read Double Text Error)) :
    pv.Reads (pv.give python shown options object id ask).2 := by
  rw [give]
  split
  · exact asString_reads python shown pv _ id ask
  · split <;> exact .refl pv

theorem get_reads (pv : Pv Double Text) (options : GetOptions)
    (read : Read Double Text Error)
    (ask later : Option (Read Double Text Error)) :
    pv.Reads (pv.get python shown options read ask later).2 := by
  have fetched := fetch_reads python shown pv options read ask
  rw [get]
  split
  · next same =>
      rw [same] at fetched
      exact fetched
  · next same =>
      rw [same] at fetched
      exact fetched.trans (give_reads python shown _ options _ _ later)

/-- The object is the cached one, or that of the read. -/
def Fetched (pv : Pv Double Text) (options : GetOptions)
    (object : Object Double Text) : Option Request → Prop
  | none => pv.cached options = some object
  | some _ => object.origin = .read ∧ object.id = pv.objects

theorem fetch_value {pv after : Pv Double Text} {options : GetOptions}
    {read : Read Double Text Error} {ask : Option (Read Double Text Error)}
    {object : Object Double Text} {request : Option Request}
    (fetched : pv.fetch python shown options read ask =
      (.ok (object, request), after)) :
    pv.Fetched options object request := by
  unfold fetch at fetched
  split at fetched
  · next found =>
      cases fetched
      exact found
  · cases fetched
  · have outcome := congrArg Prod.fst fetched
    dsimp only at outcome
    cases stored : (pv.store python shown
        ⟨pv.objects, .read, _⟩ (pv.objects + 1) ask).1 with
    | error failure =>
        rw [stored] at outcome
        cases outcome
    | ok _ =>
        rw [stored] at outcome
        cases outcome
        exact ⟨rfl, rfl⟩

theorem get_answer {pv : Pv Double Text} {options : GetOptions}
    {read : Read Double Text Error}
    {ask later : Option (Read Double Text Error)}
    {answer : Got Double Text}
    (got : (pv.get python shown options read ask later).1 = .ok answer) :
    answer.live = pv.live ∧ answer.last = pv.last ∧
      answer.first = pv.objects ∧
      pv.Fetched options answer.object answer.request := by
  rw [get] at got
  split at got
  · cases got
  · next fetched =>
      have value := fetch_value python shown fetched
      dsimp only at got
      generalize give python shown _ options _ _ later = given at got
      obtain ⟨given, after⟩ := given
      cases given with
      | error failure => cases got
      | ok given =>
          cases got
          exact ⟨rfl, rfl, rfl, value⟩

theorem Coherent.congr {pv after : Pv Double Text} (coherent : pv.Coherent)
    (monitored : after.monitored = pv.monitored)
    (last : after.last = pv.last) (reads : after.reads = pv.reads)
    (value : after.args.value = pv.args.value) : after.Coherent where
  monitored := by rw [monitored, last, coherent.monitored]
  origin := by
    rw [last]
    exact coherent.origin
  latest := by
    rw [reads, value, last]
    exact coherent.latest
  later := by
    rw [reads, value]
    exact coherent.later

theorem start_coherent (form : Form) (count : Option Int) :
    (start form count : Pv Double Text).Coherent where
  monitored := rfl
  origin object same := by cases same
  latest _ := rfl
  later some := by cases some

theorem onUpdate_coherent (pv : Pv Double Text)
    (value : Augmented Double Text)
    (ask : Option (Read Double Text Error)) :
    (pv.onUpdate python shown value ask).Coherent := by
  have recorded := record_update pv ⟨pv.objects, .update, value⟩ false rfl
  have stored := (store_reads python shown { pv with monitored := true }
    ⟨pv.objects, .update, value⟩ (pv.objects + 1) ask).coherent recorded
  unfold onUpdate
  dsimp only
  split <;> exact stored.congr rfl rfl rfl rfl

theorem onUpdate_answers (pv : Pv Double Text)
    (value : Augmented Double Text)
    (ask : Option (Read Double Text Error)) :
    (pv.onUpdate python shown value ask).answers = pv.answers := by
  have same := (store_reads python shown { pv with monitored := true }
    ⟨pv.objects, .update, value⟩ (pv.objects + 1) ask).answers
  unfold onUpdate
  dsimp only
  split <;> exact same

theorem logged_coherent {pv : Pv Double Text} (coherent : pv.Coherent)
    (answer : Except (Failure Error) (Got Double Text)) :
    (pv.logged answer).Coherent := by
  cases answer <;> exact coherent.congr rfl rfl rfl rfl

/-- What a step can be: an update that the subscription takes, a `get`, another
read, or a change of what the subscription and its thread are at. -/
inductive Stepped (pv : Pv Double Text) :
    Label Double Text Error → Pv Double Text → Prop where
  | updated (value : Augmented Double Text)
      (ask : Option (Read Double Text Error)) :
      Stepped pv (.update value ask)
        (pv.onUpdate python shown value ask).advance
  | got (options : GetOptions) (read : Read Double Text Error)
      (ask later : Option (Read Double Text Error)) :
      Stepped pv (.get options read ask later)
        ((pv.get python shown options read ask later).2.logged
          (pv.get python shown options read ask later).1).advance
  | stored {label : Label Double Text Error} {after : Pv Double Text}
      (stored : pv.Reads after) : Stepped pv label after.advance
  | moved {label : Label Double Text Error}
      (attached closed dispatching delivering : Bool) :
      Stepped pv label { pv with
        attached := attached
        closed := closed
        dispatching := dispatching
        delivering := delivering }

theorem step_cases {pv after : Pv Double Text}
    {label : Label Double Text Error}
    (step : pv.next python shown label = some after) :
    Stepped python shown pv label after := by
  cases label with
  | update value ask =>
      rw [next] at step
      split at step
      · cases step
      · split at step <;> cases step
        · exact .moved _ _ _ _
        · exact .updated value ask
  | callbacks raises | ended =>
      rw [next] at step
      split at step <;> cases step
      exact .moved _ _ _ _
  | event raises =>
      rw [next] at step
      split at step
      · cases step
      · split at step <;> cases step <;> exact .moved _ _ _ _
  | get options read ask later =>
      cases step
      exact .got options read ask later
  | getCtrlvars read =>
      cases step
      exact .stored (getCtrlvars_reads python shown pv _ read)
  | getTimevars read ask =>
      cases step
      exact .stored (getTimevars_reads python shown pv _ read ask)
  | ctrlvar ask =>
      cases step
      exact .stored (ctrlvar_reads python shown pv _ _ ask)
  | disconnect =>
      rw [next] at step
      split at step <;> cases step <;> exact .moved _ _ _ _

theorem next_coherent {pv after : Pv Double Text}
    {label : Label Double Text Error} (coherent : pv.Coherent)
    (step : pv.next python shown label = some after) : after.Coherent := by
  cases step_cases python shown step with
  | updated value ask =>
      exact (onUpdate_coherent python shown pv value ask).congr
        rfl rfl rfl rfl
  | got options read ask later =>
      have got := (get_reads python shown pv options read ask later).coherent
        coherent
      exact (logged_coherent got _).congr rfl rfl rfl rfl
  | stored stored => exact (stored.coherent coherent).congr rfl rfl rfl rfl
  | moved => exact coherent.congr rfl rfl rfl rfl

theorem next_answers {pv after : Pv Double Text}
    {label : Label Double Text Error}
    (step : pv.next python shown label = some after) :
    after.answers = pv.answers ∨
      ∃ options read ask later answer,
        label = .get options read ask later ∧
        (pv.get python shown options read ask later).1 = .ok answer ∧
        after.answers = pv.answers ++ [answer] := by
  cases step_cases python shown step with
  | updated value ask => exact .inl (onUpdate_answers python shown pv value ask)
  | got options read ask later =>
      have same := (get_reads python shown pv options read ask later).answers
      cases got : (pv.get python shown options read ask later).1 with
      | ok answer =>
          right
          refine ⟨options, read, ask, later, answer, rfl, got, ?_⟩
          dsimp only [logged, advance]
          rw [same]
      | error failure => exact .inl same
  | stored stored => exact .inl stored.answers
  | moved => exact .inl rfl

theorem coherent_invariant :
    (system Error python shown).Invariant Coherent where
  initial pv start := by
    obtain ⟨form, count, rfl⟩ := start
    exact start_coherent form count
  preserved _ _ _ coherent step := next_coherent python shown coherent step

theorem cached_some {pv : Pv Double Text} {options : GetOptions}
    {object : Object Double Text}
    (cached : pv.cached options = some object) :
    pv.monitored = true ∧ pv.args.value = some object := by
  rw [Pv.cached] at cached
  split at cached
  · next uses =>
      rw [Bool.and_eq_true] at uses
      exact ⟨uses.2, cached⟩
  · cases cached

theorem next_answersRight {pv after : Pv Double Text}
    {label : Label Double Text Error} (coherent : pv.Coherent)
    (fresh : pv.Fresh label)
    (step : pv.next python shown label = some after)
    (right : pv.AnswersRight) : after.AnswersRight := by
  rcases next_answers python shown step with
    same | ⟨options, read, ask, later, answer, rfl, got, same⟩
  · rw [AnswersRight, same]
    exact right
  · intro given member
    rw [same, List.mem_append, List.mem_singleton] at member
    rcases member with earlier | rfl
    · exact right given earlier
    · obtain ⟨live, last, first, fetched⟩ := get_answer python shown got
      unfold Got.Right
      split
      · next none =>
          rw [none] at fetched
          have cached : pv.cached options = some given.object := fetched
          obtain ⟨isLive, noReads⟩ := fresh (Option.isSome_of_mem cached)
          have value := (cached_some cached).2
          rw [coherent.latest noReads] at value
          exact ⟨live.trans isLive, last.trans value⟩
      · next some =>
          rw [some] at fetched
          rw [first]
          exact fetched

/-- `get()`. -/
def plainGet : GetOptions where
  count := none
  asString := false
  asNumpy := true
  useMonitor := true

theorem get_plain {pv : Pv Double Text} {object : Object Double Text}
    (cached : pv.cached plainGet = some object)
    (read : Read Double Text Error)
    (ask later : Option (Read Double Text Error)) :
    pv.get python shown plainGet read ask later = (.ok {
      given := .object object
      object := object
      request := none
      live := pv.live
      last := pv.last
      first := pv.objects }, pv) := by
  unfold get fetch
  rw [cached]
  dsimp only
  rw [give, if_neg (by decide)]
  split
  · next isNumpy => cases isNumpy
  · rfl

/-- Once a value is cached that is not fresh, a plain `get` returns it. -/
theorem stale_breaks {pv : Pv Double Text} (coherent : pv.Coherent)
    (monitored : pv.monitored = true)
    (stale : ¬(pv.live = true ∧ pv.reads = 0))
    (read : Read Double Text Error) :
    (system Error python shown).Breakable AnswersRight pv := by
  obtain ⟨last, isLast⟩ := Option.isSome_iff_exists.mp
    (coherent.monitored.symm.trans monitored)
  have cached : ∃ object, pv.args.value = some object ∧
      (pv.live = true → object ≠ last) := by
    by_cases noReads : pv.reads = 0
    · refine ⟨last, (coherent.latest noReads).trans isLast, ?_⟩
      intro live
      exact absurd ⟨live, noReads⟩ stale
    · obtain ⟨object, value, isRead⟩ :=
        coherent.later (Nat.pos_of_ne_zero noReads)
      refine ⟨object, value, ?_⟩
      rintro - rfl
      have isUpdate := coherent.origin object isLast
      rw [isRead] at isUpdate
      cases isUpdate
  obtain ⟨object, value, other⟩ := cached
  have uses : pv.cached plainGet = some object := by
    rw [Pv.cached, monitored]
    exact value
  apply Transition.Breakable.step (.get plainGet read none none) rfl
  apply Transition.Breakable.now
  intro right
  rw [get_plain python shown uses read none none] at right
  obtain ⟨live, isObject⟩ := right _ List.mem_concat_self
  apply other live
  rw [isLast] at isObject
  exact (Option.some.inj isObject).symm

theorem get_keeps {pv after : Pv Double Text} {options : GetOptions}
    {read : Read Double Text Error}
    {ask later : Option (Read Double Text Error)}
    (step : pv.next python shown (.get options read ask later) =
      some after) :
    after.monitored = pv.monitored ∧ after.live = pv.live ∧
      pv.reads ≤ after.reads := by
  cases step
  have got := get_reads python shown pv options read ask later
  cases (pv.get python shown options read ask later).1 <;>
    exact ⟨got.monitored, got.live, got.reads⟩

/-- What `get` returns without a read is the last update as long as the
subscription is live and no read was stored after it. -/
theorem cachedAnswers_lastUpdate :
    (system Error python shown).Guards Fresh AnswersRight where
  enough pv reachable := by
    obtain ⟨first, labels, start, run⟩ := reachable
    have both : pv.Coherent ∧ pv.AnswersRight := by
      apply run.preserves
      · rintro pv label after ⟨coherent, right⟩ ⟨step, fresh⟩
        exact ⟨next_coherent python shown coherent step,
          next_answersRight python shown coherent fresh step right⟩
      · obtain ⟨form, count, rfl⟩ := start
        exact ⟨start_coherent form count, fun _ member => by cases member⟩
    exact both.2
  needed pv label after reachable step stale := by
    have coherent := (coherent_invariant python shown).reachable reachable
    cases label with
    | get options read ask later =>
        rw [Fresh, Classical.not_imp] at stale
        obtain ⟨isCached, stale⟩ := stale
        obtain ⟨object, cached⟩ := Option.isSome_iff_exists.mp isCached
        obtain ⟨monitored, live, reads⟩ := get_keeps python shown step
        apply stale_breaks python shown
          (next_coherent python shown coherent step)
          (monitored.trans (cached_some cached).1) _ read
        rintro ⟨isLive, noReads⟩
        exact stale ⟨live.symm.trans isLive,
          Nat.eq_zero_of_le_zero (noReads ▸ reads)⟩
    | _ => exact absurd trivial stale

end Reading

/-- A read of a long that carries nothing. -/
def long (number : Int) : Augmented Unit String where
  value := .int number
  snap := {
    name := "demo:long"
    value := .int number
    dbr := .long
    elementCount := 1
    status := 0
    severity := 0
    rawStamp := (0, 0)
    units := none
    precision := none
    limit := fun _ => none
    enums := none
    ackt := none
    acks := none }

/-- Python without floating-point numbers. -/
def wholePython : Python Unit String where
  trunc _ := .error .valueError
  parse _ := .error .valueError
  uint8 _ := 0
  decode _ := ""

def wholeShown : Shown Unit String where
  int number := number.repr
  float _ := ""
  fixed _ _ := ""
  tolist _ := "[]"
  large _ _ := ""
  list _ := "[]"
  bytes _ := ""

/-- `get_ctrlvars` reads the value before it was updated. -/
def readStored : List (Label Unit String Unit) :=
  [.update (long 2) none, .callbacks false, .getCtrlvars (.ok (long 1)),
    .get plainGet (.ok (long 2)) none none]

/-- The callback of the first update raises. -/
def callbackRaised : List (Label Unit String Unit) :=
  [.update (long 1) none, .callbacks true,
    .get plainGet (.ok (long 2)) none none]

/-- In neither run does `get` read, and it returns what was read, and what a
closed subscription left. -/
theorem cachedAnswers_stale :
    (∃ pv, (system Unit wholePython wholeShown).Run (start .time none)
      readStored pv ∧ ¬pv.AnswersRight) ∧
    ∃ pv, (system Unit wholePython wholeShown).Run (start .time none)
      callbackRaised pv ∧ ¬pv.AnswersRight := by
  constructor
  · refine ⟨_, .of_foldlM rfl, ?_⟩
    intro right
    have last := (right _ List.mem_concat_self).2
    cases congrArg (Option.map Object.origin) last
  · refine ⟨_, .of_foldlM rfl, ?_⟩
    intro right
    cases (right _ List.mem_concat_self).1

end Pv

end Repics.Ca
