import Mathlib.Data.Nat.Find
import Repics.Pva.Client.Isolation

/-!
# The two flavours

`get` and `put` without `throw`, of the blocking and of the asyncio context,
on the same arguments and with the same outcomes of the library for every
entry.  The blocking flavour checks the lists and goes on batch by batch; the
asyncio flavour zips the lists and gathers a coroutine for each entry, and the
first of them to raise decides what is raised.

Conversions and readings of the clock are each flavour's own.  The helper that
converts remembers what it saw, and the entries come in another order; the
blocking flavour looks at the clock when a whole batch is committed, the
asyncio flavour when one entry is.
-/

namespace Repics.Pva.Client

inductive ExcClass where
  | pva (cls : PvaClass)
  | valueError
  | indexError
  | other (cls : String)
  deriving DecidableEq

def Exc.cls : Exc → ExcClass
  | .pva error => .pva error.cls
  | .valueError => .valueError
  | .indexError => .indexError
  | .other cls => .other cls

/-- A slot of a list without `throw`: a value or an exception of pvAccess. -/
abbrev Reply (Value : Type) := Except PvaError Value

/-- Equal values, or exceptions of one class. -/
def SameReply {Value : Type} : Reply Value → Reply Value → Prop
  | .ok first, .ok second => first = second
  | .error first, .error second => first.cls = second.cls
  | _, _ => False

inductive Outcome (Value : Type) where
  | returned (replies : List (Reply Value))
  | raised (exc : Exc)

/-- Lists with the same slots, or exceptions of one class. -/
def Outcome.Same {Value : Type} : Outcome Value → Outcome Value → Prop
  | .returned first, .returned second => List.Forall₂ SameReply first second
  | .raised first, .raised second => first.cls = second.cls
  | _, _ => False

/-- Whatever two calls may come to is the same, and one of them comes to an
end if the other does. -/
structure Agree {Value : Type} (first second : Outcome Value → Prop) :
    Prop where
  same : ∀ left right, first left → second right → left.Same right
  ends : (∃ left, first left) ↔ ∃ right, second right

/-- `_one` without `throw`: an exception of pvAccess is returned. -/
def one {Value : Type} : Except Exc Value → Except Exc (Reply Value)
  | .ok value => .ok (.ok value)
  | .error (.pva error) => .ok (.error error)
  | .error exc => .error exc

/-- `asyncio.gather` over coroutines, the entry's end given by `ends`: the
list of what they return, or what the first to raise raises.  The coroutines
are started in their order, and all of them have been before what one waits for
can come; so the first for which `early` holds, which raises before it waits
for anything, raises first. -/
inductive Gather {Value : Type} (count : Nat)
    (ends : Nat → Except Exc (Reply Value) → Prop) (early : Nat → Prop) :
    Outcome Value → Prop where
  | returned (replies : Nat → Reply Value) :
      (∀ entry < count, ends entry (.ok (replies entry))) →
      Gather count ends early (.returned ((List.range count).map replies))
  | refused {entry : Nat} {exc : Exc} :
      entry < count →
      early entry →
      (∀ earlier < entry, ¬early earlier) →
      ends entry (.error exc) →
      Gather count ends early (.raised exc)
  | raised {entry : Nat} {exc : Exc} :
      entry < count →
      (∀ other < count, ¬early other) →
      ends entry (.error exc) →
      Gather count ends early (.raised exc)

/-- The `request` argument: one for all, or a list. -/
inductive Requests where
  | single (request : Option String)
  | each (requests : List (Option String))

def Requests.list (count : Nat) : Requests → List (Option String)
  | .single request => List.replicate count request
  | .each requests => requests

/-- The `process` argument: a boolean, or a word, which the table of
`put_request` does not have. -/
inductive Process where
  | flag (flag : Bool)
  | word (word : String)

/-- `put_request`. -/
def putRequest (process : Option Process) (wait : Option Bool)
    (request : Option String) : Except Exc (Option String) :=
  if process.isNone && wait.isNone then .ok request
  else if request.isSome then .error .valueError
  else
    let block := if wait = some true then "true" else "false"
    match process with
    | none => .ok (some s!"field()record[block={block},process=passive]")
    | some (.flag true) =>
        .ok (some s!"field()record[block={block},process=true]")
    | some (.flag false) =>
        .ok (some s!"field()record[block={block},process=false]")
    | some (.word _) => .error (.other "KeyError")

/-- `parse_request`; `parses` is the parser of the library, which also takes a
blank string. -/
def parseRequest (parses : String → Bool) (request : Option String) :
    Except Exc Unit :=
  if request.all parses then .ok () else .error .valueError

/-- What the library and the unwrapping make of one read. -/
structure Read (Value : Type) where
  failure : Option Failure
  unwrapped : Except Exc Value

def Read.result {Value : Type} (read : Read Value) : Except Exc Value :=
  match read.failure with
  | some failure => .error (.pva failure.error)
  | none => read.unwrapped

/-- The list comprehension of the blocking flavour: the first exception of the
unwrapping that is not one of pvAccess is raised. -/
def settle {Value : Type} : List (Read Value) →
    Except Exc (List (Reply Value))
  | [] => .ok []
  | read :: reads =>
      match one read.result with
      | .error exc => .error exc
      | .ok reply =>
          match settle reads with
          | .error exc => .error exc
          | .ok replies => .ok (reply :: replies)

structure GetArgs where
  names : List String
  requests : Requests

/-- The reads of a call: what the library makes of them is shared by the
flavours, the unwrapping is not. -/
def readsOf {Value : Type} (failures : Nat → Option Failure)
    (unwrapped : Nat → Except Exc Value) (entry : Nat) : Read Value :=
  ⟨failures entry, unwrapped entry⟩

namespace GetArgs

variable {Value : Type} (parses : String → Bool) (args : GetArgs)

def reqs : List (Option String) :=
  args.requests.list args.names.length

/-- `get_many` refuses lists of different lengths, and the first request that
cannot be parsed. -/
def refused : Option Exc :=
  if args.names.length ≠ args.reqs.length then some .valueError
  else if args.reqs.all fun request => request.all parses then none
  else some .valueError

/-- `Context.get` of the blocking flavour. -/
def blocking (reads : Nat → Read Value) (outcome : Outcome Value) : Prop :=
  match args.refused parses with
  | some exc => outcome = .raised exc
  | none =>
      match settle ((List.range args.names.length).map reads) with
      | .error exc => outcome = .raised exc
      | .ok replies => outcome = .returned replies

/-- The entries of the asyncio flavour, as many as the shorter list has. -/
def zipped : Nat :=
  min args.names.length args.reqs.length

/-- The request of an entry cannot be parsed. -/
def early (entry : Nat) : Prop :=
  ∃ request, args.reqs[entry]? = some request ∧
    request.all parses = false

/-- The end of the coroutine of an entry. -/
def ends (reads : Nat → Read Value) (entry : Nat)
    (result : Except Exc (Reply Value)) : Prop :=
  ∃ request, args.reqs[entry]? = some request ∧
    match parseRequest parses request with
    | .error exc => result = .error exc
    | .ok _ => result = one (reads entry).result

/-- `Context.get` of the asyncio flavour. -/
def asyncio (reads : Nat → Read Value) : Outcome Value → Prop :=
  Gather args.zipped (args.ends parses reads) (args.early parses)

end GetArgs

/-- `values` is the length of the list of values, if it is one. -/
structure PutArgs where
  names : List String
  values : Option Nat
  requests : Requests
  process : Option Process
  wait : Option Bool
  timeout : Option Int

/-- What the library and the server make of one attempt. -/
structure Served where
  opening : Option Failure
  executed : Bool
  failure : Option Failure

/-- What they make of every entry in every round. -/
abbrev Library := Nat → Nat → Served

/-- What is a flavour's own: the clock when the deadline of an entry is set,
what is built in an attempt, and the clock when its commit is looked at. -/
structure Course where
  started : Nat → Int
  built : Nat → Nat → Except Exc Leaves
  now : Nat → Nat → Int

def Course.script (course : Course) (library : Library) : Script :=
  fun round entry =>
    let served := library round entry
    ⟨served.opening, course.built round entry,
      ⟨served.executed, served.failure, course.now round entry⟩⟩

def Course.deadline (course : Course) (timeout : Option Int) (entry : Nat) :
    Option Int :=
  timeout.map fun timeout => course.started entry + timeout

/-- The coroutine of an entry after some attempts. -/
def PutOne.after (deadline : Option Int) (script : Script) (entry : Nat) :
    Nat → PutOne
  | 0 => .running
  | round + 1 =>
      match PutOne.after deadline script entry round with
      | .running => (PutOne.round deadline (script round entry)).1
      | ended => ended

/-- What the coroutine returns or raises, once it has ended. -/
def PutOne.result : PutOne → Option (Except Exc Unit)
  | .running => none
  | .returned => some (.ok ())
  | .raised exc => some (.error exc)

/-- A slot of the results, as a reply. -/
def slotReply : Option PvaError → Reply Unit
  | none => .ok ()
  | some error => .error error

namespace PutArgs

variable (parses : String → Bool) (args : PutArgs)

def reqs : List (Option String) :=
  args.requests.list args.names.length

/-- One value for each name. -/
def paired : Bool :=
  decide (args.values = some args.names.length)

/-- The first request of a list that `put_request` or the parser refuses. -/
def firstRefusal (check : Option String → Except Exc Unit) :
    List (Option String) → Option Exc
  | [] => none
  | request :: requests =>
      match check request with
      | .error exc => some exc
      | .ok _ => firstRefusal check requests

/-- `put_request` on every request, also on those beyond the names. -/
def checkPutRequest (request : Option String) : Except Exc Unit :=
  (putRequest args.process args.wait request).map fun _ => ()

/-- `put_request` and then `parse_request`. -/
def checkRequest (request : Option String) : Except Exc Unit :=
  match putRequest args.process args.wait request with
  | .error exc => .error exc
  | .ok request => parseRequest parses request

/-- How a list call of the blocking flavour is refused before any put is
begun: the requests are made for the whole list, indexed by the names, and
parsed. -/
def refused : Option Exc :=
  match firstRefusal args.checkPutRequest args.reqs with
  | some exc => some exc
  | none =>
      if args.reqs.length < args.names.length then some .indexError
      else firstRefusal (args.checkRequest parses)
        (args.reqs.take args.names.length)

/-- `Context.put` of the blocking flavour.  It sets one deadline, when it looks
at the clock first. -/
def blocking (library : Library) (course : Course)
    (outcome : Outcome Unit) : Prop :=
  if args.paired then
    match args.refused parses with
    | some exc => outcome = .raised exc
    | none =>
        ∃ round,
          let call := PutMany.after
            ⟨false, course.deadline args.timeout 0⟩ (course.script library)
            args.names.length round
          match call.status with
          | .pending _ => False
          | .returned => outcome = .returned (call.results.map slotReply)
          | .raised exc => outcome = .raised exc
  else outcome = .raised .valueError

/-- The entries of the asyncio flavour, as many as the shortest list has. -/
def zipped : Nat :=
  min args.names.length args.reqs.length

/-- The request of an entry is refused. -/
def early (entry : Nat) : Prop :=
  ∃ request exc, args.reqs[entry]? = some request ∧
    args.checkRequest parses request = .error exc

/-- The end of the coroutine of an entry. -/
def ends (library : Library) (course : Course) (entry : Nat)
    (result : Except Exc (Reply Unit)) : Prop :=
  ∃ request, args.reqs[entry]? = some request ∧
    match args.checkRequest parses request with
    | .error exc => result = .error exc
    | .ok _ =>
        ∃ round ended,
          (PutOne.after (course.deadline args.timeout entry)
            (course.script library) entry round).result = some ended ∧
            result = one ended

/-- `Context.put` of the asyncio flavour. -/
def asyncio (library : Library) (course : Course)
    (outcome : Outcome Unit) : Prop :=
  if args.paired then
    Gather args.zipped (args.ends parses library course)
      (args.early parses) outcome
  else outcome = .raised .valueError

end PutArgs

/-- Some entry raises, and all that do raise an exception of this class. -/
def AllRaise {Value : Type} (count : Nat)
    (ends : Nat → Except Exc (Reply Value) → Prop) (cls : ExcClass) : Prop :=
  (∃ entry < count, ∃ exc, ends entry (.error exc)) ∧
    ∀ entry < count, ∀ exc, ends entry (.error exc) → exc.cls = cls

section Gather

variable {Value : Type} {count : Nat}
  {ends : Nat → Except Exc (Reply Value) → Prop} {early : Nat → Prop}

theorem sameReply_refl (reply : Reply Value) : SameReply reply reply := by
  cases reply with
  | ok value => exact rfl
  | error error => exact rfl

theorem same_of_eq {left right : Outcome Value} (same : left = right) :
    left.Same right := by
  rw [← same]
  cases left with
  | returned replies =>
      exact List.forall₂_same.mpr fun reply _ => sameReply_refl reply
  | raised exc => exact rfl

theorem same_map {first second : Nat → Reply Value}
    (same : ∀ entry < count, SameReply (first entry) (second entry)) :
    Outcome.Same (.returned ((List.range count).map first))
      (.returned ((List.range count).map second)) := by
  change List.Forall₂ SameReply _ _
  rw [List.forall₂_map_left_iff, List.forall₂_map_right_iff,
    List.forall₂_same]
  intro entry member
  exact same entry (List.mem_range.mp member)

theorem map_same {first second : Nat → Reply Value}
    (same : Outcome.Same (.returned ((List.range count).map first))
      (.returned ((List.range count).map second))) {entry : Nat}
    (bound : entry < count) : SameReply (first entry) (second entry) := by
  change List.Forall₂ SameReply _ _ at same
  rw [List.forall₂_map_left_iff, List.forall₂_map_right_iff,
    List.forall₂_same] at same
  exact same entry (List.mem_range.mpr bound)

/-- What raises exactly one exception agrees with a gathering when the first
coroutine that is refused raises one of that class. -/
theorem agree_refused_iff {blocking : Outcome Value → Prop} {exc : Exc}
    (raises : ∀ outcome, blocking outcome ↔ outcome = .raised exc)
    (functional : ∀ entry first second,
      ends entry first → ends entry second → first = second)
    {entry : Nat} {other : Exc} (bound : entry < count)
    (isEarly : early entry) (first : ∀ earlier < entry, ¬early earlier)
    (isError : ends entry (.error other)) :
    Agree blocking (Gather count ends early) ↔ other.cls = exc.cls := by
  have raised := (raises _).mpr rfl
  have gathers := Gather.refused bound isEarly first isError
  constructor
  · intro agree
    exact (agree.same _ _ raised gathers).symm
  · intro same
    refine ⟨?_, iff_of_true ⟨_, raised⟩ ⟨_, gathers⟩⟩
    intro left right isLeft gathered
    obtain rfl := (raises _).mp isLeft
    cases gathered with
    | returned replies ok =>
        have both := functional entry _ _ isError (ok entry bound)
        cases both
    | raised _ none _ => exact absurd isEarly (none entry bound)
    | @refused found exc _ foundEarly before ends =>
        obtain rfl : found = entry := by
          rcases Nat.lt_trichotomy found entry with less | same | more
          · exact absurd foundEarly (first found less)
          · exact same
          · exact absurd isEarly (before entry more)
        obtain rfl := Except.error.inj (functional _ _ _ isError ends)
        exact same.symm

theorem agree_raised_iff {blocking : Outcome Value → Prop} {exc : Exc}
    (raises : ∀ outcome, blocking outcome ↔ outcome = .raised exc)
    (functional : ∀ entry first second,
      ends entry first → ends entry second → first = second)
    (accepted : ∀ entry < count, ¬early entry) :
    Agree blocking (Gather count ends early) ↔
      AllRaise count ends exc.cls := by
  have raised := (raises _).mpr rfl
  constructor
  · intro agree
    constructor
    · obtain ⟨right, gathered⟩ := agree.ends.mp ⟨_, raised⟩
      have same := agree.same _ _ raised gathered
      cases gathered with
      | returned replies all => exact same.elim
      | refused bound isEarly _ _ => exact absurd isEarly (accepted _ bound)
      | raised bound _ ends => exact ⟨_, bound, _, ends⟩
    · intro entry bound other isError
      have gathers : Gather count ends early _ :=
        .raised bound accepted isError
      exact (agree.same _ _ raised gathers).symm
  · intro all
    obtain ⟨⟨entry, bound, other, isError⟩, cls⟩ := all
    constructor
    · intro left right isLeft gathered
      obtain rfl := (raises _).mp isLeft
      cases gathered with
      | returned replies ok =>
          have both := functional entry _ _ isError (ok entry bound)
          cases both
      | refused bound isEarly _ _ => exact absurd isEarly (accepted _ bound)
      | raised bound _ ends => exact (cls _ bound _ ends).symm
    · exact iff_of_true ⟨_, raised⟩ ⟨_, .raised bound accepted isError⟩

/-- What returns a list agrees with a gathering none of which is refused when
every coroutine returns the same in its place. -/
theorem agree_returned_iff {blocking : Outcome Value → Prop}
    {replies : Nat → Reply Value}
    (returns : ∀ outcome, blocking outcome ↔
      outcome = .returned ((List.range count).map replies))
    (functional : ∀ entry first second,
      ends entry first → ends entry second → first = second)
    (accepted : ∀ entry < count, ¬early entry) :
    Agree blocking (Gather count ends early) ↔
      ∀ entry < count, ∃ reply, ends entry (.ok reply) ∧
        SameReply (replies entry) reply := by
  have returned := (returns _).mpr rfl
  constructor
  · intro agree entry bound
    obtain ⟨right, gathered⟩ := agree.ends.mp ⟨_, returned⟩
    have same := agree.same _ _ returned gathered
    cases gathered with
    | returned others all =>
        exact ⟨others entry, all entry bound, map_same same bound⟩
    | refused | raised => exact same.elim
  · intro all
    have each (entry : Nat) : ∃ reply, entry < count →
        ends entry (.ok reply) ∧ SameReply (replies entry) reply := by
      by_cases bound : entry < count
      · obtain ⟨reply, found⟩ := all entry bound
        exact ⟨reply, fun _ => found⟩
      · exact ⟨.error nothingToPut, fun less => absurd less bound⟩
    choose others found using each
    constructor
    · intro left right isLeft gathered
      obtain rfl := (returns _).mp isLeft
      cases gathered with
      | returned results isResult =>
          apply same_map
          intro entry bound
          have both := functional entry _ _ (found entry bound).1
            (isResult entry bound)
          rw [← Except.ok.inj both]
          exact (found entry bound).2
      | refused bound isEarly _ _ => exact absurd isEarly (accepted _ bound)
      | raised bound _ isError =>
          have both := functional _ _ _ (found _ bound).1 isError
          cases both
    · apply iff_of_true ⟨_, returned⟩
      exact ⟨_, .returned others fun entry bound => (found entry bound).1⟩

theorem gather_silent_iff (accepted : ∀ entry < count, ¬early entry) :
    (∀ outcome, ¬Gather count ends early outcome) ↔
      (∃ entry < count, ∀ result, ¬ends entry result) ∧
        ∀ entry < count, ∀ exc, ¬ends entry (.error exc) := by
  constructor
  · intro silent
    have quiet : ∀ entry < count, ∀ exc, ¬ends entry (.error exc) :=
      fun entry bound exc isError =>
        silent _ (.raised bound accepted isError)
    refine ⟨?_, quiet⟩
    by_contra ending
    have each (entry : Nat) : ∃ reply, entry < count →
        ends entry (.ok reply) := by
      by_cases bound : entry < count
      · have ends : ¬∀ result, ¬ends entry result :=
          fun never => ending ⟨entry, bound, never⟩
        obtain ⟨result, found⟩ := not_forall_not.mp ends
        cases result with
        | ok reply => exact ⟨reply, fun _ => found⟩
        | error exc => exact absurd found (quiet entry bound exc)
      · exact ⟨.error nothingToPut, fun less => absurd less bound⟩
    choose reply found using each
    exact silent _ (.returned reply found)
  · intro never outcome gathered
    obtain ⟨⟨entry, bound, never⟩, quiet⟩ := never
    cases gathered with
    | returned replies all => exact never _ (all entry bound)
    | refused bound isEarly _ _ => exact accepted _ bound isEarly
    | raised bound _ isError => exact quiet _ bound _ isError

/-- What never returns agrees with a gathering that never does. -/
theorem agree_never_iff {blocking : Outcome Value → Prop}
    (never : ∀ outcome, ¬blocking outcome)
    (accepted : ∀ entry < count, ¬early entry) :
    Agree blocking (Gather count ends early) ↔
      (∃ entry < count, ∀ result, ¬ends entry result) ∧
        ∀ entry < count, ∀ exc, ¬ends entry (.error exc) := by
  rw [← gather_silent_iff accepted]
  constructor
  · intro agree outcome gathered
    obtain ⟨left, isLeft⟩ := agree.ends.mpr ⟨outcome, gathered⟩
    exact never left isLeft
  · intro silent
    constructor
    · intro left _ isLeft _
      exact absurd isLeft (never left)
    · constructor
      · intro found
        obtain ⟨left, isLeft⟩ := found
        exact absurd isLeft (never left)
      · intro found
        obtain ⟨right, isRight⟩ := found
        exact absurd isRight (silent right)

end Gather

/-- The exception of the unwrapping that is not returned. -/
def Read.foreign {Value : Type} (read : Read Value) : Option Exc :=
  match one read.result with
  | .error exc => some exc
  | .ok _ => none

theorem Read.foreign_iff {Value : Type} {read : Read Value} {exc : Exc} :
    read.foreign = some exc ↔ one read.result = .error exc := by
  unfold foreign
  cases one read.result with
  | error other => simp
  | ok reply => simp

theorem settle_eq {Value : Type} (reads : List (Read Value)) :
    (∀ exc, reads.findSome? Read.foreign = some exc →
        settle reads = .error exc) ∧
      (reads.findSome? Read.foreign = none → ∃ replies,
        settle reads = .ok replies ∧
          reads.map (fun read => one read.result) = replies.map .ok) := by
  induction reads with
  | nil => simp [settle]
  | cons read reads induction =>
      cases result : one read.result with
      | error exc =>
          have foreign := Read.foreign_iff.mpr result
          simp [settle, result, foreign]
      | ok reply =>
          have own : read.foreign = none := by simp [Read.foreign, result]
          simp only [List.findSome?_cons, own, settle, result]
          constructor
          · intro exc found
            rw [induction.1 exc found]
          · intro silent
            obtain ⟨replies, settled, each⟩ := induction.2 silent
            rw [settled]
            exact ⟨reply :: replies, rfl, by simp [each, result]⟩

theorem replies_range {Value : Type} {count : Nat}
    {ends : Nat → Except Exc (Reply Value)} {replies : List (Reply Value)}
    (each : ((List.range count).map fun entry => ends entry) =
      replies.map .ok) :
    ∃ reply : Nat → Reply Value,
      (∀ entry < count, ends entry = .ok (reply entry)) ∧
        replies = (List.range count).map reply := by
  have length : replies.length = count := by
    simpa using (congrArg List.length each).symm
  refine ⟨fun entry => replies.getD entry (.error nothingToPut), ?_, ?_⟩
  · intro entry bound
    have at_ := congrArg (fun results => results[entry]?) each
    simpa [bound, length] using at_
  · apply List.ext_getElem
    · simp [length]
    · intro entry left right
      simp [left]

/-- What an entry that is read is unwrapped to, by each flavour. -/
def SameUnwrapped {Value : Type} (first second : Except Exc Value) : Prop :=
  ∃ left right, one first = .ok left ∧ one second = .ok right ∧
    SameReply left right

namespace GetArgs

variable {Value : Type} {parses : String → Bool} {args : GetArgs}
  {failures : Nat → Option Failure} {first second : Nat → Except Exc Value}
  {reads : Nat → Read Value}

/-- Of the first `count` entries some is read whose unwrapping raises an
exception that is not one of pvAccess, and all that do raise one of this
class. -/
def AllForeign (count : Nat) (reads : Nat → Read Value) (cls : ExcClass) :
    Prop :=
  (∃ entry < count, ∃ exc, (reads entry).foreign = some exc) ∧
    ∀ entry < count, ∀ exc, (reads entry).foreign = some exc → exc.cls = cls

/-- There is one request for each name and all of them can be parsed; then
every entry that is read is unwrapped alike, or the first that the blocking
flavour cannot unwrap raises an exception of the class of all that the asyncio
flavour cannot.  Or the lists do not match or some request cannot be parsed;
then such a request is one of those that the asyncio flavour zips, or what it
cannot unwrap raises a `ValueError`. -/
def Matching (parses : String → Bool) (args : GetArgs)
    (failures : Nat → Option Failure) (first second : Nat → Except Exc Value) :
    Prop :=
  match args.refused parses with
  | none =>
      (∀ entry < args.names.length, failures entry = none →
        SameUnwrapped (first entry) (second entry)) ∨
      ∃ exc, ((List.range args.names.length).map
          (readsOf failures first)).findSome? Read.foreign = some exc ∧
        AllForeign args.names.length (readsOf failures second) exc.cls
  | some _ =>
      (∃ entry < args.zipped, args.early parses entry) ∨
        AllForeign args.zipped (readsOf failures second) .valueError

theorem ends_functional (entry : Nat) (first second : Except Exc (Reply Value))
    (left : args.ends parses reads entry first)
    (right : args.ends parses reads entry second) : first = second := by
  obtain ⟨request, found, left⟩ := left
  obtain ⟨other, same, right⟩ := right
  obtain rfl := Option.some.inj (found.symm.trans same)
  cases parsed : parseRequest parses request with
  | error exc =>
      simp only [parsed] at left right
      rw [left, right]
  | ok _ =>
      simp only [parsed] at left right
      rw [left, right]

theorem refused_cls {exc : Exc} (refused : args.refused parses = some exc) :
    exc = .valueError := by
  simp only [GetArgs.refused] at refused
  split at refused
  · exact (Option.some.inj refused).symm
  · split at refused
    · simp at refused
    · exact (Option.some.inj refused).symm

theorem accepted (refused : args.refused parses = none) :
    args.zipped = args.names.length ∧
      ∀ entry < args.zipped, ¬args.early parses entry := by
  simp only [GetArgs.refused] at refused
  split at refused
  case isTrue => simp at refused
  case isFalse length =>
    split at refused
    case isFalse => simp at refused
    case isTrue all =>
      constructor
      · rw [zipped, ← not_not.mp length, Nat.min_self]
      · intro entry _ early
        obtain ⟨request, found, unparsed⟩ := early
        have parsed := List.all_eq_true.mp all request
          (List.mem_of_getElem? found)
        simp [parsed] at unparsed

/-- A coroutine whose request can be parsed ends as its read does. -/
theorem ends_iff {entry : Nat} (bound : entry < args.zipped)
    (parsed : ¬args.early parses entry)
    {result : Except Exc (Reply Value)} :
    args.ends parses reads entry result ↔
      result = one (reads entry).result := by
  have inside : entry < args.reqs.length :=
    Nat.lt_of_lt_of_le bound (Nat.min_le_right _ _)
  have found : args.reqs[entry]? = some args.reqs[entry] :=
    List.getElem?_eq_getElem inside
  have parsed : parseRequest parses args.reqs[entry] = .ok () := by
    cases all : args.reqs[entry].all parses with
    | true => simp [parseRequest, all]
    | false => exact absurd ⟨_, found, all⟩ parsed
  constructor
  · intro ends
    obtain ⟨request, same, ends⟩ := ends
    obtain rfl := Option.some.inj (found.symm.trans same)
    simpa only [parsed] using ends
  · intro ends
    refine ⟨_, found, ?_⟩
    simpa only [parsed] using ends

theorem ends_early {entry : Nat} (early : args.early parses entry) :
    args.ends parses reads entry (.error .valueError) := by
  obtain ⟨request, found, unparsed⟩ := early
  refine ⟨request, found, ?_⟩
  simp [parseRequest, unparsed]

theorem allRaise_iff {count : Nat} (within : count ≤ args.zipped)
    (accepted : ∀ entry < count, ¬args.early parses entry)
    (cls : ExcClass) :
    AllRaise count (args.ends parses reads) cls ↔
      AllForeign count reads cls := by
  have ends {entry : Nat} (bound : entry < count) (exc : Exc) :
      args.ends parses reads entry (.error exc) ↔
        (reads entry).foreign = some exc := by
    rw [ends_iff (Nat.lt_of_lt_of_le bound within) (accepted entry bound),
      Read.foreign_iff]
    exact eq_comm
  constructor
  · intro all
    obtain ⟨⟨entry, bound, exc, raises⟩, cls⟩ := all
    refine ⟨⟨entry, bound, exc, (ends bound exc).mp raises⟩, ?_⟩
    intro other less exc foreign
    exact cls other less exc ((ends less exc).mpr foreign)
  · intro all
    obtain ⟨⟨entry, bound, exc, raises⟩, cls⟩ := all
    refine ⟨⟨entry, bound, exc, (ends bound exc).mpr raises⟩, ?_⟩
    intro other less exc foreign
    exact cls other less exc ((ends less exc).mp foreign)

/-- A refused call of the blocking flavour agrees when the asyncio flavour
refuses too, or has nothing but that class to raise. -/
theorem agree_refused {exc : Exc} (refused : args.refused parses = some exc) :
    Agree (args.blocking parses (readsOf failures first))
        (args.asyncio parses (readsOf failures second)) ↔
      (∃ entry < args.zipped, args.early parses entry) ∨
        AllForeign args.zipped (readsOf failures second) .valueError := by
  obtain rfl := refused_cls refused
  have raises : ∀ outcome, args.blocking parses (readsOf failures first)
      outcome ↔ outcome = .raised .valueError := by
    intro outcome
    simp only [blocking, refused]
  by_cases some_ : ∃ entry, entry < args.zipped ∧ args.early parses entry
  · apply iff_of_true _ (.inl some_)
    classical
    have isFirst : ∀ earlier < Nat.find some_,
        ¬args.early parses earlier := by
      intro earlier less early
      have bound := Nat.lt_trans less (Nat.find_spec some_).1
      exact Nat.find_min some_ less ⟨bound, early⟩
    rw [asyncio, agree_refused_iff raises ends_functional
      (Nat.find_spec some_).1 (Nat.find_spec some_).2 isFirst
      (ends_early (Nat.find_spec some_).2)]
  · have none_ : ∀ entry < args.zipped, ¬args.early parses entry :=
      fun entry bound early => some_ ⟨entry, bound, early⟩
    rw [asyncio, agree_raised_iff raises ends_functional none_,
      allRaise_iff (Nat.le_refl _) none_, or_iff_right some_]
    rfl

/-- Replies that are the same are those of reads that fail alike or are
unwrapped alike. -/
theorem sameReply_iff {entry : Nat} {reply : Reply Value}
    (own : one (readsOf failures first entry).result = .ok reply) :
    (∃ other, one (readsOf failures second entry).result = .ok other ∧
        SameReply reply other) ↔
      (failures entry = none →
        SameUnwrapped (first entry) (second entry)) := by
  cases failure : failures entry with
  | some error =>
      simp only [Read.result, readsOf, failure, one, Except.ok.injEq] at own
      apply iff_of_true
      · refine ⟨.error error.error, ?_, ?_⟩
        · simp [Read.result, readsOf, failure, one]
        · rw [← own]
          exact rfl
      · simp
  | none =>
      simp only [Read.result, readsOf, failure] at own
      simp only [Read.result, readsOf, failure, true_imp_iff]
      constructor
      · intro found
        obtain ⟨other, isOther, same⟩ := found
        exact ⟨reply, other, own, isOther, same⟩
      · intro found
        obtain ⟨left, right, isLeft, isRight, same⟩ := found
        obtain rfl := Except.ok.inj (own.symm.trans isLeft)
        exact ⟨right, isRight, same⟩

/-- An entry that is not read, or is unwrapped alike, raises nothing. -/
theorem not_foreign {entry : Nat} {exc : Exc}
    (alike : failures entry = none →
      SameUnwrapped (first entry) (second entry)) :
    one (readsOf failures first entry).result ≠ .error exc := by
  cases failure : failures entry with
  | some error => simp [Read.result, readsOf, failure, one]
  | none =>
      obtain ⟨left, _, isLeft, _⟩ := alike failure
      simp [Read.result, readsOf, failure, isLeft]

theorem agree_iff :
    Agree (args.blocking parses (readsOf failures first))
        (args.asyncio parses (readsOf failures second)) ↔
      args.Matching parses failures first second := by
  cases refused : args.refused parses with
  | some exc =>
      rw [agree_refused refused]
      simp only [Matching, refused]
  | none =>
      obtain ⟨zipped, none_⟩ := accepted refused
      rw [zipped] at none_
      simp only [Matching, refused]
      have settled := settle_eq
        ((List.range args.names.length).map (readsOf failures first))
      cases found : ((List.range args.names.length).map
          (readsOf failures first)).findSome? Read.foreign with
      | some exc =>
          have raises : ∀ outcome, args.blocking parses
              (readsOf failures first) outcome ↔ outcome = .raised exc := by
            intro outcome
            simp only [blocking, refused, settled.1 exc found]
          rw [asyncio, zipped,
            agree_raised_iff raises ends_functional none_,
            allRaise_iff (Nat.le_of_eq zipped.symm) none_]
          constructor
          · intro all
            exact .inr ⟨exc, rfl, all⟩
          · intro either
            rcases either with alike | both
            · obtain ⟨read, member, foreign⟩ :=
                List.exists_of_findSome?_eq_some found
              obtain ⟨entry, inside, rfl⟩ := List.mem_map.mp member
              have own := Read.foreign_iff.mp foreign
              exact absurd own (not_foreign fun failure =>
                alike entry (List.mem_range.mp inside) failure)
            · obtain ⟨other, same, all⟩ := both
              obtain rfl := Option.some.inj same
              exact all
      | none =>
          obtain ⟨replies, isSettled, each⟩ := settled.2 found
          rw [List.map_map] at each
          obtain ⟨reply, own, rfl⟩ := replies_range each
          have returns : ∀ outcome, args.blocking parses
              (readsOf failures first) outcome ↔ outcome =
                .returned ((List.range args.names.length).map reply) := by
            intro outcome
            simp only [blocking, refused, isSettled]
          rw [asyncio, zipped,
            agree_returned_iff returns ends_functional none_]
          simp only [reduceCtorEq, false_and, exists_false, or_false]
          apply forall_congr'
          intro entry
          apply forall_congr'
          intro bound
          rw [← sameReply_iff (own entry bound)]
          apply exists_congr
          intro other
          rw [ends_iff (zipped ▸ bound) (none_ entry bound)]
          exact and_congr_left fun _ => eq_comm

end GetArgs

/-- The state of a coroutine that has come to this. -/
def PutOne.of : Option (Option Exc) → PutOne
  | none => .running
  | some none => .returned
  | some (some exc) => .raised exc

theorem PutOne.round_eq (deadline : Option Int) (attempt : Attempt) :
    (PutOne.round deadline attempt).1 = .of (attempt.outcome deadline) := by
  cases opening : attempt.opening with
  | some failure => simp [PutOne.round, Attempt.outcome, PutOne.of, opening]
  | none =>
      cases built : attempt.built with
      | error exc =>
          simp [PutOne.round, Attempt.outcome, PutOne.of, opening, built]
      | ok leaves =>
          cases refusal : leaves.refusal with
          | some exc =>
              simp [PutOne.round, Attempt.outcome, PutOne.of, opening, built,
                refusal]
          | none =>
              cases again : attempt.commit.again deadline with
              | true =>
                  simp [PutOne.round, Attempt.outcome, PutOne.of, opening,
                    built, refusal, again]
              | false =>
                  cases report : attempt.commit.report with
                  | none =>
                      simp [PutOne.round, Attempt.outcome, PutOne.of, opening,
                        built, refusal, again, report]
                  | some error =>
                      simp [PutOne.round, Attempt.outcome, PutOne.of, opening,
                        built, refusal, again, report]

/-- A coroutine of the asyncio flavour is the entry on its own. -/
theorem PutOne.after_eq (deadline : Option Int) (script : Script)
    (entry round : Nat) :
    PutOne.after deadline script entry round =
      .of (own deadline script entry round) := by
  induction round with
  | zero => rfl
  | succ round induction =>
      rw [PutOne.after, induction, own]
      cases own deadline script entry round with
      | none => exact PutOne.round_eq deadline (script round entry)
      | some ended =>
          cases ended with
          | none => rfl
          | some exc => rfl

theorem own_mono {deadline : Option Int} {script : Script}
    {entry first : Nat} {ended : Option Exc}
    (reached : own deadline script entry first = some ended) (more : Nat) :
    own deadline script entry (first + more) = some ended := by
  induction more with
  | zero => exact reached
  | succ more induction =>
      rw [← Nat.add_assoc, own, induction]
      rfl

theorem own_le {deadline : Option Int} {script : Script}
    {entry first second : Nat} {ended : Option Exc}
    (reached : own deadline script entry first = some ended)
    (order : first ≤ second) :
    own deadline script entry second = some ended := by
  obtain ⟨more, rfl⟩ := Nat.exists_eq_add_of_le order
  apply own_mono reached

theorem own_unique {deadline : Option Int} {script : Script}
    {entry first second : Nat} {left right : Option Exc}
    (isLeft : own deadline script entry first = some left)
    (isRight : own deadline script entry second = some right) :
    left = right := by
  have bigLeft := own_le isLeft (Nat.le_max_left first second)
  have bigRight := own_le isRight (Nat.le_max_right first second)
  exact Option.some.inj (bigLeft.symm.trans bigRight)

/-- What an entry that has ended returns to the caller. -/
def ownResult (ended : Option Exc) : Except Exc (Reply Unit) :=
  match ended with
  | none => .ok (.ok ())
  | some exc => one (.error exc)

/-- The attempt in which an entry ends; the attempts before it are begun
again. -/
structure Last (deadline : Option Int) (script : Script)
    (entry round : Nat) : Prop where
  before : ∀ earlier < round, (script earlier entry).outcome deadline = none
  now : (script round entry).outcome deadline ≠ none

/-- Every attempt of the entry is begun again. -/
def Endless (deadline : Option Int) (script : Script) (entry : Nat) : Prop :=
  ∀ round, (script round entry).outcome deadline = none

theorem own_none_iff {deadline : Option Int} {script : Script}
    {entry round : Nat} :
    own deadline script entry round = none ↔
      ∀ earlier < round, (script earlier entry).outcome deadline = none := by
  induction round with
  | zero => simp [own]
  | succ round induction =>
      rw [own, Option.or_eq_none_iff, induction]
      constructor
      · intro both earlier less
        rcases Nat.lt_succ_iff_lt_or_eq.mp less with before | rfl
        · exact both.1 earlier before
        · exact both.2
      · intro all
        refine ⟨fun earlier less => ?_, all round (Nat.lt_succ_self round)⟩
        exact all earlier (Nat.lt_succ_of_lt less)

theorem comes_iff {deadline : Option Int} {script : Script} {entry : Nat}
    {ended : Option Exc} :
    (∃ round, own deadline script entry round = some ended) ↔
      ∃ round, Last deadline script entry round ∧
        (script round entry).outcome deadline = some ended := by
  constructor
  · intro found
    obtain ⟨round, reached⟩ := found
    induction round with
    | zero => simp [own] at reached
    | succ round induction =>
        cases before : own deadline script entry round with
        | some other =>
            have same := own_unique before reached
            exact induction (before.trans (congrArg some same))
        | none =>
            rw [own, before, Option.none_or] at reached
            refine ⟨round, ⟨own_none_iff.mp before, ?_⟩, reached⟩
            simp [reached]
  · intro found
    obtain ⟨round, last, ends⟩ := found
    refine ⟨round + 1, ?_⟩
    rw [own, own_none_iff.mpr last.before, ends, Option.none_or]

theorem endless_iff {deadline : Option Int} {script : Script} {entry : Nat} :
    Endless deadline script entry ↔
      ∀ round, own deadline script entry round = none := by
  constructor
  · intro endless round
    exact own_none_iff.mpr fun earlier _ => endless earlier
  · intro none_ round
    exact own_none_iff.mp (none_ (round + 1)) round (Nat.lt_succ_self round)

theorem Last.unique {deadline : Option Int} {script : Script}
    {entry first second : Nat} (left : Last deadline script entry first)
    (right : Last deadline script entry second) : first = second := by
  rcases Nat.lt_trichotomy first second with less | same | more
  · exact absurd (right.before first less) left.now
  · exact same
  · exact absurd (left.before second more) right.now

theorem Attempt.outcome_success {deadline : Option Int} {attempt : Attempt}
    (ends : attempt.outcome deadline = some none) :
    attempt.opening = none ∧ attempt.built = .ok .marked ∧
      attempt.commit.failure = none := by
  unfold outcome at ends
  split at ends
  · cases ends
  · next opened =>
    split at ends
    · cases ends
    · next leaves built =>
      cases leaves with
      | unmarked | view => cases ends
      | marked =>
          simp only [Leaves.refusal] at ends
          split at ends
          · cases ends
          · simp only [Option.some.injEq, Option.map_eq_none_iff,
              Commit.report] at ends
            exact ⟨opened, built, ends⟩

/-- An operation that was begun and is not reported as lost is not begun
again. -/
theorem Attempt.outcome_ends {deadline : Option Int} {attempt : Attempt}
    (fine : attempt.commit.failure = none) :
    attempt.outcome deadline ≠ none := by
  unfold outcome
  split
  · simp
  · split
    · simp
    · split
      · simp
      · simp [Commit.again, Commit.report, fine]

/-- The attempt ends its entry with an exception of pvAccess. -/
def Attempt.Fails (deadline : Option Int) (attempt : Attempt)
    (cls : PvaClass) : Prop :=
  ∃ error, attempt.outcome deadline = some (some (.pva error)) ∧
    error.cls = cls

/-- Exceptions that are not of pvAccess. -/
def Foreign : Exc → Prop
  | .pva _ => False
  | _ => True

/-- The last attempt of the entry raises an exception that is not one of
pvAccess. -/
def Raises (deadline : Option Int) (script : Script) (entry : Nat)
    (exc : Exc) : Prop :=
  ∃ round, Last deadline script entry round ∧
    (script round entry).outcome deadline = some (some exc) ∧ Foreign exc

namespace PutArgs

variable {parses : String → Bool} {args : PutArgs} {library : Library}
  {first second : Course}

/-- The exception that ends the round of these entries: of the conversions in
their order, and then of `put_leaves`. -/
def roundRaise (script : Script) (round : Nat) (pending : List Nat) :
    Option Exc :=
  (pending.findSome? fun entry => (script round entry).beginRaise false).or
    ((pending.filter fun entry =>
      (script round entry).opening.isNone).findSome? fun entry =>
        (script round entry).refusal)

/-- The first attempt that is not given a value with a mark, in the order of
the rounds, raises this exception. -/
def FirstUnbuilt (deadline : Option Int) (script : Script) (count : Nat)
    (exc : Exc) : Prop :=
  ∃ round,
    (∀ earlier < round, ∀ entry ∈ unsettled deadline script count earlier,
      (script earlier entry).opening = none →
        (script earlier entry).built = .ok .marked) ∧
    roundRaise script round (unsettled deadline script count round) = some exc

/-- Of the first `count` entries the last attempt of some raises an exception
that is not one of pvAccess, and all that do raise one of this class. -/
def AllForeign (args : PutArgs) (library : Library) (course : Course)
    (count : Nat) (cls : ExcClass) : Prop :=
  (∃ entry < count, ∃ exc, Raises (course.deadline args.timeout entry)
      (course.script library) entry exc) ∧
    ∀ entry < count, ∀ exc, Raises (course.deadline args.timeout entry)
      (course.script library) entry exc → exc.cls = cls

/-- Both flavours end the entry in the same attempt, by their own readings of
the clock and with a value to send if it was begun, or their last attempts fail
with exceptions of pvAccess of one class. -/
def Alike (args : PutArgs) (library : Library) (first second : Course)
    (entry : Nat) : Prop :=
  ∃ early late,
    Last (first.deadline args.timeout 0) (first.script library) entry early ∧
    Last (second.deadline args.timeout entry) (second.script library) entry
      late ∧
    (early = late ∧ ((library late entry).opening = none →
        second.built late entry = .ok .marked) ∨
      ∃ cls, (first.script library early entry).Fails
          (first.deadline args.timeout 0) cls ∧
        (second.script library late entry).Fails
          (second.deadline args.timeout entry) cls)

/-- In both flavours some entry is begun again forever, and no coroutine
raises. -/
def NeverEnds (args : PutArgs) (library : Library) (first second : Course) :
    Prop :=
  (∃ entry < args.names.length, Endless (first.deadline args.timeout 0)
      (first.script library) entry) ∧
    (∃ entry < args.names.length, Endless
      (second.deadline args.timeout entry) (second.script library) entry) ∧
    ∀ entry < args.names.length, ∀ exc, ¬Raises
      (second.deadline args.timeout entry) (second.script library) entry exc

/-- Lists of values that do not match the names are refused by both.  If no
request is refused, every value that the blocking flavour builds can be sent
and all entries end alike in both flavours, or some never ends in either; or
the first value that cannot be sent raises an exception of the class of all
that the asyncio flavour raises.  If some request is refused, the first that
the asyncio flavour refuses is refused with an exception of that class, or it
refuses none and all that it raises are of that class. -/
def Matching (parses : String → Bool) (args : PutArgs) (library : Library)
    (first second : Course) : Prop :=
  args.paired = true →
    match args.refused parses with
    | some exc =>
        match firstRefusal (args.checkRequest parses)
            (args.reqs.take args.zipped) with
        | some other => other.cls = exc.cls
        | none => args.AllForeign library second args.zipped exc.cls
    | none =>
        (PutMany.AllBuilt (first.deadline args.timeout 0)
            (first.script library) args.names.length ∧
          ((∀ entry < args.names.length,
              args.Alike library first second entry) ∨
            args.NeverEnds library first second)) ∨
        ∃ exc, FirstUnbuilt (first.deadline args.timeout 0)
            (first.script library) args.names.length exc ∧
          args.AllForeign library second args.names.length exc.cls

theorem firstRefusal_none {check : Option String → Except Exc Unit}
    {requests : List (Option String)}
    (accepted : firstRefusal check requests = none) :
    ∀ request ∈ requests, check request = .ok () := by
  induction requests with
  | nil => simp
  | cons request requests induction =>
      simp only [firstRefusal] at accepted
      split at accepted
      case h_1 => simp at accepted
      case h_2 value isOk =>
        intro other member
        rcases List.mem_cons.mp member with rfl | inside
        · exact isOk
        · exact induction accepted other inside

theorem firstRefusal_some {check : Option String → Except Exc Unit}
    {requests : List (Option String)} {exc : Exc}
    (refused : firstRefusal check requests = some exc) :
    ∃ (entry : Nat) (request : Option String),
      requests[entry]? = some request ∧ check request = .error exc ∧
      ∀ earlier < entry, ∀ other, requests[earlier]? = some other →
        check other = .ok () := by
  induction requests with
  | nil => simp [firstRefusal] at refused
  | cons request requests induction =>
      simp only [firstRefusal] at refused
      split at refused
      case h_1 other isError =>
        obtain rfl := Option.some.inj refused
        exact ⟨0, request, rfl, isError, by simp⟩
      case h_2 value isOk =>
        obtain ⟨entry, found, at_, isError, before⟩ := induction refused
        refine ⟨entry + 1, found, at_, isError, ?_⟩
        intro earlier less other isOther
        cases earlier with
        | zero =>
            obtain rfl : request = other := by simpa using isOther
            exact isOk
        | succ earlier =>
            apply before earlier (Nat.lt_of_succ_lt_succ less)
            simpa using isOther

theorem accepted (refused : args.refused parses = none) :
    args.zipped = args.names.length ∧
      ∀ entry < args.zipped, ¬args.early parses entry := by
  simp only [PutArgs.refused] at refused
  split at refused
  case h_1 => simp at refused
  case h_2 =>
    split at refused
    case isTrue => simp at refused
    case isFalse length =>
      have zipped : args.zipped = args.names.length :=
        Nat.min_eq_left (Nat.le_of_not_lt length)
      refine ⟨zipped, fun entry bound early => ?_⟩
      obtain ⟨request, exc, found, isError⟩ := early
      have inside : request ∈ args.reqs.take args.names.length := by
        rw [List.mem_take_iff_getElem]
        obtain ⟨less, rfl⟩ := List.getElem?_eq_some_iff.mp found
        exact ⟨entry, by omega, rfl⟩
      rw [firstRefusal_none refused request inside] at isError
      cases isError

theorem result_iff {deadline : Option Int} {script : Script} {entry : Nat}
    {result : Except Exc (Reply Unit)} :
    (∃ round ended,
      (PutOne.after deadline script entry round).result = some ended ∧
        result = one ended) ↔
      ∃ round ended, own deadline script entry round = some ended ∧
        result = ownResult ended := by
  constructor
  · intro found
    obtain ⟨round, ended, isEnded, same⟩ := found
    rw [PutOne.after_eq] at isEnded
    cases reached : own deadline script entry round with
    | none => simp [reached, PutOne.of, PutOne.result] at isEnded
    | some exc =>
        refine ⟨round, exc, reached, ?_⟩
        cases exc with
        | none =>
            obtain rfl : Except.ok () = ended := by
              simpa [reached, PutOne.of, PutOne.result] using isEnded
            exact same
        | some exc =>
            obtain rfl : Except.error exc = ended := by
              simpa [reached, PutOne.of, PutOne.result] using isEnded
            exact same
  · intro found
    obtain ⟨round, ended, reached, same⟩ := found
    cases ended with
    | none =>
        refine ⟨round, .ok (), ?_, same⟩
        rw [PutOne.after_eq, reached]
        rfl
    | some exc =>
        refine ⟨round, .error exc, ?_, same⟩
        rw [PutOne.after_eq, reached]
        rfl

theorem ends_functional {course : Course} (entry : Nat)
    (first second : Except Exc (Reply Unit))
    (left : args.ends parses library course entry first)
    (right : args.ends parses library course entry second) :
    first = second := by
  obtain ⟨request, found, left⟩ := left
  obtain ⟨other, same, right⟩ := right
  obtain rfl := Option.some.inj (found.symm.trans same)
  cases checked : args.checkRequest parses request with
  | error exc =>
      simp only [checked] at left right
      rw [left, right]
  | ok _ =>
      simp only [checked, result_iff] at left right
      obtain ⟨round, ended, reached, rfl⟩ := left
      obtain ⟨later, other, again, rfl⟩ := right
      rw [own_unique reached again]

/-- A coroutine whose request is not refused ends as its last attempt does. -/
theorem ends_iff {course : Course} {entry : Nat} (bound : entry < args.zipped)
    (accepted : ¬args.early parses entry)
    {result : Except Exc (Reply Unit)} :
    args.ends parses library course entry result ↔
      ∃ round ended, Last (course.deadline args.timeout entry)
          (course.script library) entry round ∧
        (course.script library round entry).outcome
          (course.deadline args.timeout entry) = some ended ∧
        result = ownResult ended := by
  have inside : entry < args.reqs.length :=
    Nat.lt_of_lt_of_le bound (Nat.min_le_right _ _)
  have found : args.reqs[entry]? = some args.reqs[entry] :=
    List.getElem?_eq_getElem inside
  have checked : ∃ value, args.checkRequest parses args.reqs[entry] =
      .ok value := by
    cases check : args.checkRequest parses args.reqs[entry] with
    | ok value => exact ⟨value, rfl⟩
    | error exc => exact absurd ⟨_, exc, found, check⟩ accepted
  obtain ⟨value, checked⟩ := checked
  have ends : args.ends parses library course entry result ↔
      ∃ round ended, own (course.deadline args.timeout entry)
          (course.script library) entry round = some ended ∧
        result = ownResult ended := by
    rw [← result_iff]
    constructor
    · intro ends
      obtain ⟨request, same, ends⟩ := ends
      obtain rfl := Option.some.inj (found.symm.trans same)
      simpa only [checked] using ends
    · intro ends
      refine ⟨_, found, ?_⟩
      simpa only [checked] using ends
  rw [ends]
  constructor
  · intro found
    obtain ⟨round, ended, reached, same⟩ := found
    obtain ⟨last, isLast, comes⟩ := comes_iff.mp ⟨round, reached⟩
    exact ⟨last, ended, isLast, comes, same⟩
  · intro found
    obtain ⟨last, ended, isLast, comes, same⟩ := found
    obtain ⟨round, reached⟩ := comes_iff.mpr ⟨last, isLast, comes⟩
    exact ⟨round, ended, reached, same⟩

theorem ownResult_error {ended : Option Exc} {exc : Exc} :
    ownResult ended = .error exc ↔ ended = some exc ∧ Foreign exc := by
  cases ended with
  | none => simp [ownResult]
  | some other =>
      cases other with
      | pva error =>
          simp only [ownResult, one, reduceCtorEq, Option.some.injEq,
            false_iff, not_and]
          intro same
          rw [← same]
          exact id
      | _ =>
          simp only [ownResult, one, Except.error.injEq, Option.some.injEq]
          constructor
          · intro same
            rw [← same]
            exact ⟨rfl, trivial⟩
          · intro same
            exact same.1

/-- The coroutines that raise are those whose last attempt does. -/
theorem ends_error {course : Course} {entry : Nat} {exc : Exc}
    (bound : entry < args.zipped) (accepted : ¬args.early parses entry) :
    args.ends parses library course entry (.error exc) ↔
      Raises (course.deadline args.timeout entry) (course.script library)
        entry exc := by
  rw [ends_iff bound accepted]
  constructor
  · intro found
    obtain ⟨round, ended, last, comes, same⟩ := found
    obtain ⟨rfl, foreign⟩ := ownResult_error.mp same.symm
    exact ⟨round, last, comes, foreign⟩
  · intro found
    obtain ⟨round, last, comes, foreign⟩ := found
    exact ⟨round, some exc, last, comes,
      (ownResult_error.mpr ⟨rfl, foreign⟩).symm⟩

theorem allRaise_iff {course : Course} {count : Nat}
    (within : count ≤ args.zipped)
    (accepted : ∀ entry < count, ¬args.early parses entry)
    (cls : ExcClass) :
    AllRaise count (args.ends parses library course) cls ↔
      args.AllForeign library course count cls := by
  have ends {entry : Nat} (bound : entry < count) (exc : Exc) :=
    @ends_error parses args library course entry exc
      (Nat.lt_of_lt_of_le bound within) (accepted entry bound)
  constructor
  · intro all
    obtain ⟨⟨entry, bound, exc, raises⟩, cls⟩ := all
    refine ⟨⟨entry, bound, exc, (ends bound exc).mp raises⟩, ?_⟩
    intro other less exc foreign
    exact cls other less exc ((ends less exc).mpr foreign)
  · intro all
    obtain ⟨⟨entry, bound, exc, raises⟩, cls⟩ := all
    refine ⟨⟨entry, bound, exc, (ends bound exc).mpr raises⟩, ?_⟩
    intro other less exc foreign
    exact cls other less exc ((ends less exc).mp foreign)

theorem refused_zipped (entry : Nat) (request : Option String)
    (found : (args.reqs.take args.zipped)[entry]? = some request) :
    entry < args.zipped ∧ args.reqs[entry]? = some request := by
  rw [List.getElem?_take] at found
  split at found
  · next bound => exact ⟨bound, found⟩
  · cases found

/-- A refused call of the blocking flavour agrees when the first that the
asyncio flavour refuses raises that class, or all that it has to raise are of
that class. -/
theorem agree_refused (paired : args.paired = true) {exc : Exc}
    (refused : args.refused parses = some exc) :
    Agree (args.blocking parses library first)
        (args.asyncio parses library second) ↔
      match firstRefusal (args.checkRequest parses)
          (args.reqs.take args.zipped) with
      | some other => other.cls = exc.cls
      | none => args.AllForeign library second args.zipped exc.cls := by
  have gather : args.asyncio parses library second =
      Gather args.zipped (args.ends parses library second)
        (args.early parses) := by
    funext outcome
    rw [asyncio, if_pos paired]
  have raises : ∀ outcome, args.blocking parses library first outcome ↔
      outcome = .raised exc := by
    intro outcome
    simp only [blocking, paired, refused, if_true]
  rw [gather]
  cases found : firstRefusal (args.checkRequest parses)
      (args.reqs.take args.zipped) with
  | some other =>
      obtain ⟨entry, request, at_, isError, before⟩ :=
        firstRefusal_some found
      obtain ⟨bound, at_⟩ := refused_zipped entry request at_
      have isFirst : ∀ earlier < entry, ¬args.early parses earlier := by
        intro earlier less early
        obtain ⟨request, exc, found, refusal⟩ := early
        have taken : (args.reqs.take args.zipped)[earlier]? =
            some request := by
          rw [List.getElem?_take, if_pos (Nat.lt_trans less bound), found]
        rw [before earlier less request taken] at refusal
        cases refusal
      have ends : args.ends parses library second entry (.error other) := by
        refine ⟨request, at_, ?_⟩
        rw [isError]
      apply agree_refused_iff raises ends_functional bound _ isFirst ends
      exact ⟨request, other, at_, isError⟩
  | none =>
      have none_ : ∀ entry < args.zipped, ¬args.early parses entry := by
        intro entry bound early
        obtain ⟨request, exc, at_, refusal⟩ := early
        have taken : (args.reqs.take args.zipped)[entry]? = some request := by
          rw [List.getElem?_take, if_pos bound, at_]
        have isOk := firstRefusal_none found request
          (List.mem_of_getElem? taken)
        rw [isOk] at refusal
        cases refusal
      rw [agree_raised_iff raises ends_functional none_,
        allRaise_iff (Nat.le_refl _) none_]

theorem ownResult_slot (slot : Option PvaError) :
    ownResult (slot.map .pva) = .ok (slotReply slot) := by
  cases slot with
  | none => rfl
  | some error => rfl

theorem ownResult_ok {ended : Option Exc} {reply : Reply Unit}
    (own : ownResult ended = .ok reply) :
    (ended = none ∧ reply = .ok ()) ∨
      ∃ error, ended = some (.pva error) ∧ reply = .error error := by
  cases ended with
  | none => exact .inl ⟨rfl, (Except.ok.inj own).symm⟩
  | some exc =>
      cases exc with
      | pva error => exact .inr ⟨error, rfl, (Except.ok.inj own).symm⟩
      | _ => cases own

/-- Attempts that the library makes the same of, with a value to send if they
were begun, end alike if neither is begun again. -/
theorem same_outcome {round entry : Nat} {left right : Option Int}
    (early : (first.script library round entry).outcome left ≠ none)
    (late : (second.script library round entry).outcome right ≠ none)
    (isFirst : (library round entry).opening = none →
      first.built round entry = .ok .marked)
    (isSecond : (library round entry).opening = none →
      second.built round entry = .ok .marked) :
    (first.script library round entry).outcome left =
      (second.script library round entry).outcome right := by
  cases opening : (library round entry).opening with
  | some failure => simp [Course.script, Attempt.outcome, opening]
  | none =>
      simp only [Course.script, Attempt.outcome, opening, isFirst opening,
        isSecond opening, Leaves.refusal] at early late ⊢
      split at early
      · exact absurd rfl early
      · next notFirst =>
        split at late
        · exact absurd rfl late
        · next notSecond =>
          rw [if_neg notFirst, if_neg notSecond]
          rfl

/-- An entry that ends well in the blocking flavour is the same in the other
exactly when it ends alike. -/
theorem alike_iff {entry early : Nat} {ended : Option Exc}
    {reply : Reply Unit}
    (last : Last (first.deadline args.timeout 0) (first.script library)
      entry early)
    (comes : (first.script library early entry).outcome
      (first.deadline args.timeout 0) = some ended)
    (own : ownResult ended = .ok reply)
    (isBuilt : (library early entry).opening = none →
      first.built early entry = .ok .marked) :
    args.Alike library first second entry ↔
      ∃ other, (∃ round ended, Last
          (second.deadline args.timeout entry) (second.script library) entry
          round ∧ (second.script library round entry).outcome
            (second.deadline args.timeout entry) = some ended ∧
          Except.ok other = ownResult ended) ∧ SameReply reply other := by
  constructor
  · intro alike
    obtain ⟨same, late, isFirst, isLast, alike⟩ := alike
    obtain rfl := last.unique isFirst
    rcases alike with ⟨rfl, isMarked⟩ | ⟨cls, firstFails, secondFails⟩
    · have outcomes := same_outcome last.now isLast.now isBuilt isMarked
      rw [comes] at outcomes
      exact ⟨reply, ⟨early, ended, isLast, outcomes.symm, own.symm⟩,
        sameReply_refl reply⟩
    · obtain ⟨left, isLeft, rfl⟩ := firstFails
      obtain ⟨right, isRight, same⟩ := secondFails
      obtain rfl := Option.some.inj (comes.symm.trans isLeft)
      obtain rfl := Except.ok.inj own
      exact ⟨.error right, ⟨late, _, isLast, isRight, rfl⟩, same.symm⟩
  · intro found
    obtain ⟨other, ⟨late, last_, isLast, comesLate, otherOwn⟩, same⟩ := found
    refine ⟨early, late, last, isLast, ?_⟩
    rcases ownResult_ok own with ⟨rfl, rfl⟩ | ⟨left, rfl, rfl⟩
    · rcases ownResult_ok otherOwn.symm with ⟨rfl, rfl⟩ | ⟨right, _, rfl⟩
      · have first_ := (Attempt.outcome_success comes).2.2
        have second_ := Attempt.outcome_success comesLate
        refine .inl ⟨?_, fun _ => second_.2.1⟩
        rcases Nat.lt_trichotomy early late with less | same | more
        · have again := isLast.before early less
          exact absurd again (Attempt.outcome_ends first_)
        · exact same
        · have again := last.before late more
          exact absurd again (Attempt.outcome_ends second_.2.2)
      · exact same.elim
    · rcases ownResult_ok otherOwn.symm with ⟨_, rfl⟩ | ⟨right, rfl, rfl⟩
      · exact same.elim
      · exact .inr ⟨left.cls, ⟨left, comes, rfl⟩,
          ⟨right, comesLate, same.symm⟩⟩

/-- Entries that all come to an end have done so in some round. -/
theorem all_ended {deadline : Option Int} {script : Script} {count : Nat}
    (ends : ∀ entry < count, ¬Endless deadline script entry) :
    ∃ round, unsettled deadline script count round = [] := by
  have together : ∃ round, ∀ entry < count,
      own deadline script entry round ≠ none := by
    induction count with
    | zero => exact ⟨0, by simp⟩
    | succ count induction =>
        obtain ⟨first, before⟩ := induction fun entry bound =>
          ends entry (Nat.lt_succ_of_lt bound)
        have last := ends count (Nat.lt_succ_self count)
        rw [endless_iff, not_forall] at last
        obtain ⟨second, reached⟩ := last
        obtain ⟨ended, reached⟩ := Option.ne_none_iff_exists'.mp reached
        refine ⟨max first second, ?_⟩
        intro entry bound
        rcases Nat.lt_succ_iff_lt_or_eq.mp bound with less | rfl
        · obtain ⟨other, isOther⟩ :=
            Option.ne_none_iff_exists'.mp (before entry less)
          rw [own_le isOther (Nat.le_max_left first second)]
          simp
        · rw [own_le reached (Nat.le_max_right first second)]
          simp
  obtain ⟨round, all⟩ := together
  refine ⟨round, List.eq_nil_iff_forall_not_mem.mpr ?_⟩
  intro entry member
  obtain ⟨bound, running⟩ := mem_unsettled.mp member
  exact all entry bound running

theorem blocking_returns (paired : args.paired = true)
    (refused : args.refused parses = none)
    (built : PutMany.AllBuilt (first.deadline args.timeout 0)
      (first.script library) args.names.length) {outcome : Outcome Unit} :
    args.blocking parses library first outcome ↔
      ∃ round, unsettled (first.deadline args.timeout 0)
          (first.script library) args.names.length round = [] ∧
        outcome = .returned ((PutMany.after
          ⟨false, first.deadline args.timeout 0⟩ (first.script library)
          args.names.length round).results.map slotReply) := by
  simp only [blocking, paired, refused, if_true]
  apply exists_congr
  intro round
  have tracks : PutMany.Tracks (first.deadline args.timeout 0)
      (first.script library) args.names.length round _ :=
    .after fun earlier _ entry member =>
      built earlier entry (mem_unsettled.mp member).1
        (mem_unsettled.mp member).2
  rw [tracks.status]
  cases unsettled (first.deadline args.timeout 0) (first.script library)
      args.names.length round with
  | nil => simp [PutStatus.of]
  | cons entry entries => simp [PutStatus.of]

/-- When no entry is left, the call has returned what they came to. -/
theorem returned_slots {deadline : Option Int} {script : Script}
    {count round : Nat} {call : PutMany}
    (tracks : PutMany.Tracks deadline script count round call)
    (settled : unsettled deadline script count round = []) :
    ∃ reply : Nat → Reply Unit,
      call.results.map slotReply = (List.range count).map reply ∧
      ∀ entry < count, ∃ ended,
        (∃ round, own deadline script entry round = some ended) ∧
          ownResult ended = .ok (reply entry) := by
  obtain ⟨table, results, owned⟩ := tracks.results
  refine ⟨fun entry => slotReply (table entry), ?_, ?_⟩
  · rw [results, List.map_map]
    rfl
  · intro entry bound
    cases reached : own deadline script entry round with
    | none =>
        have member := mem_unsettled.mpr ⟨bound, reached⟩
        simp [settled] at member
    | some ended =>
        have same := owned entry bound
        rw [reached, Option.getD_some] at same
        refine ⟨ended, ⟨round, reached⟩, ?_⟩
        rw [← same, ownResult_slot]

/-- A coroutine whose request is not refused never ends when every attempt is
begun again. -/
theorem ends_never {course : Course} {entry : Nat}
    (bound : entry < args.zipped) (accepted : ¬args.early parses entry) :
    (∀ result, ¬args.ends parses library course entry result) ↔
      Endless (course.deadline args.timeout entry) (course.script library)
        entry := by
  constructor
  · intro never
    rw [endless_iff]
    intro round
    by_contra reached
    obtain ⟨ended, reached⟩ := Option.ne_none_iff_exists'.mp reached
    obtain ⟨last, isLast, comes⟩ := comes_iff.mp ⟨round, reached⟩
    apply never (ownResult ended)
    rw [ends_iff bound accepted]
    exact ⟨last, ended, isLast, comes, rfl⟩
  · intro endless result ends
    obtain ⟨round, _, last, _⟩ := (ends_iff bound accepted).mp ends
    exact last.now (endless round)

section Built

variable (paired : args.paired = true) (refused : args.refused parses = none)
  (built : PutMany.AllBuilt (first.deadline args.timeout 0)
    (first.script library) args.names.length)

include refused

theorem asyncio_eq (paired : args.paired = true) :
    args.asyncio parses library second =
      Gather args.names.length (args.ends parses library second)
        (args.early parses) := by
  funext outcome
  rw [asyncio, if_pos paired, (accepted refused).1]

include paired built

theorem agree_of_endless (endless : ∃ entry < args.names.length,
      Endless (first.deadline args.timeout 0) (first.script library) entry) :
    Agree (args.blocking parses library first)
        (args.asyncio parses library second) ↔
      args.NeverEnds library first second := by
  obtain ⟨zipped, none_⟩ := accepted refused
  rw [zipped] at none_
  have never (outcome : Outcome Unit) :
      ¬args.blocking parses library first outcome := by
    intro found
    obtain ⟨entry, bound, endless⟩ := endless
    obtain ⟨round, settled, _⟩ :=
      (blocking_returns paired refused built).mp found
    have member := mem_unsettled.mpr ⟨bound, endless_iff.mp endless round⟩
    simp [settled] at member
  rw [asyncio_eq refused paired, agree_never_iff never none_, NeverEnds]
  rw [and_iff_right endless]
  have within {entry : Nat} (bound : entry < args.names.length) :
      entry < args.zipped := zipped.symm ▸ bound
  apply and_congr
  · apply exists_congr
    intro entry
    apply and_congr_right
    intro bound
    exact ends_never (within bound) (none_ entry bound)
  · apply forall_congr'
    intro entry
    apply forall_congr'
    intro bound
    apply forall_congr'
    intro exc
    exact not_congr (ends_error (within bound) (none_ entry bound))

theorem agree_of_ending (ends : ∀ entry < args.names.length,
      ¬Endless (first.deadline args.timeout 0) (first.script library) entry) :
    Agree (args.blocking parses library first)
        (args.asyncio parses library second) ↔
      ∀ entry < args.names.length,
        args.Alike library first second entry := by
  obtain ⟨zipped, none_⟩ := accepted refused
  rw [zipped] at none_
  obtain ⟨round, settled⟩ := all_ended ends
  have tracks {round : Nat} : PutMany.Tracks
      (first.deadline args.timeout 0) (first.script library)
      args.names.length round _ :=
    .after fun earlier _ entry member =>
      built earlier entry (mem_unsettled.mp member).1
        (mem_unsettled.mp member).2
  obtain ⟨reply, results, owned⟩ := returned_slots tracks settled
  have returns (outcome : Outcome Unit) :
      args.blocking parses library first outcome ↔ outcome =
        .returned ((List.range args.names.length).map reply) := by
    rw [blocking_returns paired refused built]
    constructor
    · intro found
      obtain ⟨other, isSettled, rfl⟩ := found
      obtain ⟨others, same, otherOwned⟩ := returned_slots tracks isSettled
      rw [same]
      congr 1
      apply List.map_congr_left
      intro entry member
      have bound := List.mem_range.mp member
      obtain ⟨ended, ⟨_, reached⟩, own⟩ := owned entry bound
      obtain ⟨again, ⟨_, otherReached⟩, otherOwn⟩ := otherOwned entry bound
      obtain rfl := own_unique reached otherReached
      exact Except.ok.inj (otherOwn.symm.trans own)
    · intro same
      exact ⟨round, settled, by rw [same, results]⟩
  rw [asyncio_eq refused paired,
    agree_returned_iff returns ends_functional none_]
  apply forall_congr'
  intro entry
  apply forall_congr'
  intro bound
  obtain ⟨ended, reached, own⟩ := owned entry bound
  obtain ⟨early, last, comes⟩ := comes_iff.mp reached
  have isBuilt : (library early entry).opening = none →
      first.built early entry = .ok .marked := fun opened =>
    built early entry bound (own_none_iff.mpr last.before) opened
  rw [alike_iff last comes own isBuilt]
  apply exists_congr
  intro other
  rw [ends_iff (zipped.symm ▸ bound) (none_ entry bound)]

theorem agree_of_built :
    Agree (args.blocking parses library first)
        (args.asyncio parses library second) ↔
      (∀ entry < args.names.length,
          args.Alike library first second entry) ∨
        args.NeverEnds library first second := by
  by_cases endless : ∃ entry < args.names.length,
      Endless (first.deadline args.timeout 0) (first.script library) entry
  · have different : ¬∀ entry < args.names.length,
        args.Alike library first second entry := by
      intro alike
      obtain ⟨entry, bound, endless⟩ := endless
      obtain ⟨round, _, last, _⟩ := alike entry bound
      exact last.now (endless round)
    rw [or_iff_right different]
    exact agree_of_endless paired refused built endless
  · have finite : ¬args.NeverEnds library first second :=
      fun neverEnds => endless neverEnds.1
    rw [or_iff_left finite]
    apply agree_of_ending paired refused built
    intro entry bound isEndless
    exact endless ⟨entry, bound, isEndless⟩

end Built

/-- The first round in which some value is not built. -/
structure Stops (deadline : Option Int) (script : Script)
    (count round : Nat) : Prop where
  before : ∀ earlier < round,
    ∀ entry ∈ unsettled deadline script count earlier,
      (script earlier entry).opening = none →
        (script earlier entry).built = .ok .marked
  now : ∃ entry ∈ unsettled deadline script count round,
    (script round entry).opening = none ∧
      (script round entry).built ≠ .ok .marked

theorem exists_stops {deadline : Option Int} {script : Script} {count : Nat}
    (unbuilt : ¬PutMany.AllBuilt deadline script count) :
    ∃ round, Stops deadline script count round := by
  classical
  have some_ : ∃ round, ∃ entry ∈ unsettled deadline script count round,
      (script round entry).opening = none ∧
        (script round entry).built ≠ .ok .marked := by
    simp only [PutMany.AllBuilt, not_forall] at unbuilt
    obtain ⟨round, entry, bound, reached, opened, notBuilt⟩ := unbuilt
    exact ⟨round, entry, mem_unsettled.mpr ⟨bound, reached⟩, opened,
      notBuilt⟩
  refine ⟨Nat.find some_, ?_, Nat.find_spec some_⟩
  intro earlier less entry member opened
  by_contra notBuilt
  exact Nat.find_min some_ less ⟨entry, member, opened, notBuilt⟩

section Stops

variable {deadline : Option Int} {script : Script} {count round : Nat}

theorem roundRaise_unbuilt {pending : List Nat} {exc : Exc}
    (raises : roundRaise script round pending = some exc) :
    ∃ entry ∈ pending, (script round entry).opening = none ∧
      (script round entry).built ≠ .ok .marked := by
  rw [roundRaise, Option.or_eq_some_iff] at raises
  rcases raises with early | ⟨_, late⟩
  · obtain ⟨entry, member, raises⟩ := List.exists_of_findSome?_eq_some early
    refine ⟨entry, member, ?_⟩
    cases opening : (script round entry).opening with
    | some failure => simp [Attempt.beginRaise, opening] at raises
    | none =>
        refine ⟨rfl, fun isBuilt => ?_⟩
        simp [Attempt.beginRaise, opening, isBuilt] at raises
  · obtain ⟨entry, member, raises⟩ := List.exists_of_findSome?_eq_some late
    obtain ⟨member, opened⟩ := List.mem_filter.mp member
    refine ⟨entry, member, Option.isNone_iff_eq_none.mp opened, ?_⟩
    intro isBuilt
    simp [Attempt.refusal, isBuilt, Leaves.refusal] at raises

theorem not_firstUnbuilt {exc : Exc}
    (built : PutMany.AllBuilt deadline script count) :
    ¬FirstUnbuilt deadline script count exc := by
  intro first
  obtain ⟨round, _, raises⟩ := first
  obtain ⟨entry, member, opened, notBuilt⟩ := roundRaise_unbuilt raises
  obtain ⟨bound, reached⟩ := mem_unsettled.mp member
  exact notBuilt (built round entry bound reached opened)

/-- The first round that is not built ends the call with its exception. -/
theorem Stops.status (stops : Stops deadline script count round) :
    ∃ exc, roundRaise script round
        (unsettled deadline script count round) = some exc ∧
      (PutMany.after ⟨false, deadline⟩ script count (round + 1)).status =
        .raised exc := by
  have tracks : PutMany.Tracks deadline script count round _ :=
    .after stops.before
  rw [PutMany.after_succ tracks.status]
  obtain ⟨entry, member, opened, notBuilt⟩ := stops.now
  split
  case h_1 empty => simp [empty] at member
  case h_2 =>
    have begins : (attempts deadline script count round).findSome?
        (fun entry => entry.2.beginRaise false) =
          (unsettled deadline script count round).findSome? fun entry =>
            (script round entry).beginRaise false := by
      rw [attempts, List.findSome?_map]
      rfl
    have refusals : ((attempts deadline script count round).filter
          fun entry => entry.2.opening.isNone).findSome?
            (fun entry => entry.2.refusal) =
        ((unsettled deadline script count round).filter fun entry =>
          (script round entry).opening.isNone).findSome? fun entry =>
            (script round entry).refusal := by
      rw [attempts, List.filter_map, List.findSome?_map]
      rfl
    cases raises : (unsettled deadline script count round).findSome?
        fun entry => (script round entry).beginRaise false with
    | some exc =>
        refine ⟨exc, by rw [roundRaise, raises, Option.some_or], ?_⟩
        simp [PutMany.round, beginLoop_eq, begins, raises]
    | none =>
        have unmarked : (script round entry).marked = false := by
          by_contra marked
          exact notBuilt (Attempt.built_marked (by simpa using marked))
        rw [raises] at begins
        obtain ⟨exc, found, refused⟩ := PutMany.putCommitMany_error begins
          ⟨(entry, script round entry),
            List.mem_map.mpr ⟨entry, member, rfl⟩, opened, unmarked⟩
        rw [refusals] at found
        refine ⟨exc, by rw [roundRaise, raises, Option.none_or, found], ?_⟩
        simp only [PutMany.round, beginLoop_eq, begins, refused]

theorem Stops.pending {earlier : Nat}
    (stops : Stops deadline script count round) (order : earlier ≤ round) :
    unsettled deadline script count earlier ≠ [] := by
  obtain ⟨entry, member, _⟩ := stops.now
  obtain ⟨bound, running⟩ := mem_unsettled.mp member
  apply List.ne_nil_of_mem (mem_unsettled.mpr ⟨bound, ?_⟩)
  cases reached : own deadline script entry earlier with
  | none => rfl
  | some ended => simp [own_le reached order] at running

theorem after_raised {request : PutRequest} {exc : Exc}
    (raised : (PutMany.after request script count round).status =
      .raised exc) (more : Nat) :
    (PutMany.after request script count (round + more)).status =
      .raised exc := by
  induction more with
  | zero => exact raised
  | succ more induction =>
      rw [← Nat.add_assoc, PutMany.after, induction]
      exact induction

/-- Only one exception is that of the first value that is not built. -/
theorem Stops.unbuilt_iff (stops : Stops deadline script count round)
    {exc other : Exc} (raises : roundRaise script round
      (unsettled deadline script count round) = some exc) :
    FirstUnbuilt deadline script count other ↔ other = exc := by
  constructor
  · intro first
    obtain ⟨found, before, isRaised⟩ := first
    rcases Nat.lt_trichotomy round found with less | rfl | more
    · obtain ⟨entry, member, opened, notBuilt⟩ := stops.now
      exact absurd (before round less entry member opened) notBuilt
    · exact Option.some.inj (isRaised.symm.trans raises)
    · obtain ⟨entry, member, opened, notBuilt⟩ :=
        roundRaise_unbuilt isRaised
      exact absurd (stops.before found more entry member opened) notBuilt
  · intro same
    rw [same]
    exact ⟨round, stops.before, raises⟩

end Stops

theorem blocking_raises (paired : args.paired = true)
    (refused : args.refused parses = none) {round : Nat} {exc : Exc}
    (stops : Stops (first.deadline args.timeout 0) (first.script library)
      args.names.length round)
    (raised : (PutMany.after ⟨false, first.deadline args.timeout 0⟩
      (first.script library) args.names.length (round + 1)).status =
        .raised exc) (outcome : Outcome Unit) :
    args.blocking parses library first outcome ↔ outcome = .raised exc := by
  simp only [blocking, paired, refused, if_true]
  constructor
  · intro found
    obtain ⟨other, found⟩ := found
    rcases Nat.lt_or_ge round other with later | early
    · obtain ⟨more, rfl⟩ := Nat.exists_eq_add_of_le later
      rw [after_raised raised more] at found
      exact found
    · have tracks : PutMany.Tracks (first.deadline args.timeout 0)
          (first.script library) args.names.length other _ :=
        .after fun earlier less =>
          stops.before earlier (Nat.lt_of_lt_of_le less early)
      rw [tracks.status] at found
      cases pending : unsettled (first.deadline args.timeout 0)
          (first.script library) args.names.length other with
      | nil => exact (stops.pending early pending).elim
      | cons entry entries =>
          rw [pending] at found
          exact found.elim
  · intro same
    refine ⟨round + 1, ?_⟩
    rw [raised]
    exact same

theorem agree_of_unbuilt (paired : args.paired = true)
    (refused : args.refused parses = none)
    (unbuilt : ¬PutMany.AllBuilt (first.deadline args.timeout 0)
      (first.script library) args.names.length) :
    Agree (args.blocking parses library first)
        (args.asyncio parses library second) ↔
      ∃ exc, FirstUnbuilt (first.deadline args.timeout 0)
          (first.script library) args.names.length exc ∧
        args.AllForeign library second args.names.length exc.cls := by
  obtain ⟨round, stops⟩ := exists_stops unbuilt
  obtain ⟨exc, raises, raised⟩ := stops.status
  obtain ⟨zipped, none_⟩ := accepted refused
  rw [zipped] at none_
  rw [asyncio_eq refused paired, agree_raised_iff
    (blocking_raises paired refused stops raised) ends_functional none_,
    allRaise_iff (Nat.le_of_eq zipped.symm) none_]
  simp only [stops.unbuilt_iff raises, exists_eq_left]

theorem agree_iff :
    Agree (args.blocking parses library first)
        (args.asyncio parses library second) ↔
      args.Matching parses library first second := by
  cases paired : args.paired with
  | false =>
      apply iff_of_true
      · have raises (course : Course) (outcome : Outcome Unit) :
            args.blocking parses library course outcome ↔
              outcome = .raised .valueError := by
          simp [blocking, paired]
        have gathers (outcome : Outcome Unit) :
            args.asyncio parses library second outcome ↔
              outcome = .raised .valueError := by
          simp [asyncio, paired]
        constructor
        · intro left right isLeft isRight
          apply same_of_eq
          rw [(raises _ _).mp isLeft, (gathers _).mp isRight]
        · exact iff_of_true ⟨_, (raises _ _).mpr rfl⟩
            ⟨_, (gathers _).mpr rfl⟩
      · intro isPaired
        simp [paired] at isPaired
  | true =>
      cases refused : args.refused parses with
      | some exc =>
          simp only [agree_refused paired refused, Matching, paired, refused,
            true_imp_iff]
      | none =>
          simp only [Matching, paired, refused, true_imp_iff]
          by_cases built : PutMany.AllBuilt
              (first.deadline args.timeout 0) (first.script library)
              args.names.length
          · rw [agree_of_built paired refused built]
            simp only [built, true_and, not_firstUnbuilt built, false_and,
              exists_false, or_false]
          · rw [agree_of_unbuilt paired refused built]
            simp only [built, false_and, false_or]

end PutArgs

/-- Two names and one request. -/
def oneRequest : GetArgs :=
  ⟨["a", "b"], .each [none]⟩

/-- Two names with a value for each, and five ticks. -/
def twoPuts : PutArgs :=
  ⟨["a", "b"], some 2, .single none, none, none, some 5⟩

/-- The library executes every PUT. -/
def granting : Library :=
  fun _ _ => ⟨none, true, none⟩

/-- The first of two values has no marked field. -/
def unmarkedFirst : Course :=
  ⟨fun _ => 0, fun _ entry => .ok (if entry = 0 then .unmarked else .marked),
    fun _ _ => 0⟩

/-- The circuit of the first PV is lost and is back for the next attempt; the
second PV is silent. -/
def lostAndSilent : Library :=
  fun round entry =>
    if entry = 0 then
      if round = 0 then ⟨none, false, some (.library (.disconnected "lost"))⟩
      else ⟨none, true, none⟩
    else ⟨none, false, some (.bounded "5")⟩

/-- The clock when commits are looked at. -/
def looking (now : Int) : Course :=
  ⟨fun _ => 0, fun _ _ => .ok .marked, fun _ _ => now⟩

end Repics.Pva.Client
