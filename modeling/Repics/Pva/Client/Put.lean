import Mathlib.Data.List.Nodup
import Repics.Lib.Transition

/-!
# Putting

A put has two phases: it is begun, which reads the current value so that the
new one can be built, and the new one is committed.  Both flavours begin a put
again whose commit is reported as disconnected before the deadline.  What the
library, the server, and the conversions of the caller make of one attempt is
the environment's choice here.

`executed` is kept for the record: the entries whose PUT the server executed,
one mention for each time.
-/

namespace Repics.Pva.Client

/-- The exceptions of pvAccess, all of them derived from `error`. -/
inductive PvaClass where
  | error
  | timeout
  | disconnected
  | remote
  deriving DecidableEq

structure PvaError where
  cls : PvaClass
  text : String
  deriving DecidableEq

/-- What a call may raise; `other` is an exception of any other class. -/
inductive Exc where
  | pva (error : PvaError)
  | valueError
  | indexError
  | other (cls : String)
  deriving DecidableEq

/-- The errors of the client library, each with its text. -/
inductive RsPvaError where
  | timeout (text : String)
  | channelNotFound (text : String)
  | disconnected (text : String)
  | remoteError (text : String)
  | other (text : String)

def mapPva : RsPvaError → PvaError
  | .timeout text => ⟨.timeout, text⟩
  | .channelNotFound text => ⟨.timeout, text⟩
  | .disconnected text => ⟨.disconnected, text⟩
  | .remoteError text => ⟨.remote, text⟩
  | .other text => ⟨.error, text⟩

/-- How an operation that the runtime waits for may fail: in the library, by
`bounded`, or because its task panicked. -/
inductive Failure where
  | library (error : RsPvaError)
  | bounded (secs : String)
  | panicked (text : String)

def Failure.error : Failure → PvaError
  | .library error => mapPva error
  | .bounded secs => ⟨.timeout, s!"timed out after {secs} s"⟩
  | .panicked text => ⟨.error, s!"task failed: {text}"⟩

/-- A commit that was sent: whether the server executes the PUT, what the
client is told, and the clock when it looks at that. -/
structure Commit where
  executed : Bool
  failure : Option Failure
  now : Int

/-- A value that was built, as far as `put_leaves` looks at it: a whole value
with or without a marked field, or a view of a member. -/
inductive Leaves where
  | marked
  | unmarked
  | view
  deriving DecidableEq

/-- One attempt at a put: its beginning, the building of the value, which may
raise, and its commit. -/
structure Attempt where
  opening : Option Failure
  built : Except Exc Leaves
  commit : Commit

def nothingToPut : PvaError :=
  ⟨.error, "nothing to put: no field of the Value is marked changed"⟩

/-- What `put_leaves` raises for the value. -/
def Leaves.refusal : Leaves → Option Exc
  | .marked => none
  | .unmarked => some (.pva nothingToPut)
  | .view => some (.other "TypeError")

/-- The deadline has not passed. -/
def before (deadline : Option Int) (now : Int) : Bool :=
  match deadline with
  | none => true
  | some deadline => decide (now < deadline)

def Commit.report (commit : Commit) : Option PvaError :=
  commit.failure.map Failure.error

/-- The put is begun again. -/
def Commit.again (deadline : Option Int) (commit : Commit) : Bool :=
  match commit.report with
  | none => false
  | some error =>
      decide (error.cls = .disconnected) && before deadline commit.now

/-- The arguments of a call that its loop reads. -/
structure PutRequest where
  throw : Bool
  deadline : Option Int

/-- The slots of the results, `none` where nothing was stored. -/
abbrev Results := List (Option PvaError)

/-- The loop over the operations that were begun: the entries that are ready
to be committed. -/
def beginLoop (throw : Bool) :
    List (Nat × Attempt) → Results →
      Except Exc (List (Nat × Attempt) × Results)
  | [], results => .ok ([], results)
  | (entry, attempt) :: rest, results =>
      match attempt.opening with
      | some failure =>
          if throw then .error (.pva failure.error)
          else beginLoop throw rest (results.set entry (some failure.error))
      | none =>
          match attempt.built with
          | .error raised => .error raised
          | .ok _ =>
              match beginLoop throw rest results with
              | .error raised => .error raised
              | .ok (ready, results) =>
                  .ok ((entry, attempt) :: ready, results)

/-- A value with a marked field was built. -/
def Attempt.marked (attempt : Attempt) : Bool :=
  match attempt.built with
  | .ok leaves => decide (leaves = .marked)
  | .error _ => false

/-- What `put_leaves` raises for the value that was built. -/
def Attempt.refusal (attempt : Attempt) : Option Exc :=
  match attempt.built with
  | .ok leaves => leaves.refusal
  | .error _ => none

/-- `put_commit_many` takes the leaves of every value before it sends any. -/
def putCommitMany (ready : List (Nat × Attempt)) :
    Except Exc (List (Nat × Commit)) :=
  match ready.findSome? fun entry => entry.2.refusal with
  | some exc => .error exc
  | none => .ok (ready.map fun entry => (entry.1, entry.2.commit))

/-- The loop over what was committed: the entries that are begun again. -/
def commitLoop (request : PutRequest) :
    List (Nat × Commit) → Results → Except Exc (List Nat × Results)
  | [], results => .ok ([], results)
  | (entry, commit) :: rest, results =>
      if commit.again request.deadline then
        match commitLoop request rest results with
        | .error raised => .error raised
        | .ok (pending, results) => .ok (entry :: pending, results)
      else
        match commit.report with
        | some error =>
            if request.throw then .error (.pva error)
            else commitLoop request rest (results.set entry (some error))
        | none => commitLoop request rest (results.set entry none)

inductive PutStatus where
  | pending (entries : List Nat)
  | returned
  | raised (exc : Exc)
  deriving DecidableEq

/-- The loop ends when nothing is pending. -/
def PutStatus.of : List Nat → PutStatus
  | [] => .returned
  | entry :: entries => .pending (entry :: entries)

structure PutMany where
  status : PutStatus
  results : Results
  executed : List Nat

/-- The entries whose PUT the server executes. -/
def executions (sent : List (Nat × Commit)) : List Nat :=
  (sent.filter fun entry => entry.2.executed).map Prod.fst

namespace PutMany

/-- The body of the loop of `_put_many`. -/
def round (request : PutRequest) (call : PutMany)
    (entries : List (Nat × Attempt)) : PutMany :=
  match beginLoop request.throw entries call.results with
  | .error raised => { call with status := .raised raised }
  | .ok (ready, results) =>
      match putCommitMany ready with
      | .error raised => { call with
          status := .raised raised, results := results }
      | .ok sent =>
          let executed := call.executed ++ executions sent
          match commitLoop request sent results with
          | .error raised => ⟨.raised raised, results, executed⟩
          | .ok (pending, results) => ⟨.of pending, results, executed⟩

/-- A round takes one attempt for each entry that is pending. -/
def next (request : PutRequest) (call : PutMany) (attempts : List Attempt) :
    Option PutMany :=
  match call.status with
  | .pending entries =>
      if attempts.length = entries.length then
        some (call.round request (entries.zip attempts))
      else none
  | _ => none

/-- A call with `count` entries, a single name counting as one. -/
def fresh (count : Nat) : PutMany :=
  ⟨.of (List.range count), List.replicate count none, []⟩

def system (request : PutRequest) : Transition PutMany (List Attempt) :=
  .ofPartial (fun call => ∃ count, call = fresh count) (next request)

end PutMany

/-- One entry is a coroutine of its own. -/
inductive PutOne where
  | running
  | returned
  | raised (exc : Exc)
  deriving DecidableEq

/-- The body of the loop of `one`, and whether the PUT is executed. -/
def PutOne.round (deadline : Option Int) (attempt : Attempt) :
    PutOne × Bool :=
  match attempt.opening with
  | some failure => (.raised (.pva failure.error), false)
  | none =>
      match attempt.built with
      | .error exc => (.raised exc, false)
      | .ok leaves =>
          match leaves.refusal with
          | some exc => (.raised exc, false)
          | none =>
              if attempt.commit.again deadline then
                (.running, attempt.commit.executed)
              else
                match attempt.commit.report with
                | none => (.returned, attempt.commit.executed)
                | some error =>
                    (.raised (.pva error), attempt.commit.executed)

/-- The coroutines of a call, in the order of its entries.  Each has a deadline
of its own. -/
structure PutGather where
  entries : List PutOne
  executed : List Nat

/-- One entry goes through an attempt, or is cancelled, perhaps with a commit
under way that the server still executes. -/
inductive GatherStep where
  | attempt (entry : Nat) (attempt : Attempt)
  | cancel (entry : Nat) (executed : Bool)

namespace PutGather

def settle (call : PutGather) (entry : Nat) (one : PutOne)
    (executed : Bool) : PutGather where
  entries := call.entries.set entry one
  executed := call.executed ++ if executed then [entry] else []

def next (deadline : Nat → Option Int) (call : PutGather) :
    GatherStep → Option PutGather
  | .attempt entry attempt =>
      if call.entries[entry]? = some .running then
        let (one, executed) := PutOne.round (deadline entry) attempt
        some (call.settle entry one executed)
      else none
  | .cancel entry executed =>
      if call.entries[entry]? = some .running then
        some (call.settle entry (.raised (.other "CancelledError")) executed)
      else none

def fresh (count : Nat) : PutGather :=
  ⟨List.replicate count .running, []⟩

def system (deadline : Nat → Option Int) :
    Transition PutGather GatherStep :=
  .ofPartial (fun call => ∃ count, call = fresh count) (next deadline)

end PutGather

/-- The exception that the first loop of a round ends with at this entry. -/
def Attempt.beginRaise (throw : Bool) (attempt : Attempt) : Option Exc :=
  match attempt.opening with
  | some failure => if throw then some (.pva failure.error) else none
  | none =>
      match attempt.built with
      | .error exc => some exc
      | .ok _ => none

theorem Attempt.refusal_marked {attempt : Attempt}
    (marked : attempt.marked = true) : attempt.refusal = none := by
  cases built : attempt.built with
  | error exc => simp [refusal, built]
  | ok leaves =>
      obtain rfl : leaves = .marked := by
        simpa [Attempt.marked, built] using marked
      simp [refusal, built, Leaves.refusal]

/-- An operation that was begun, neither building nor `put_leaves` raising, has
a value with a marked field. -/
theorem Attempt.marked_of_silent {attempt : Attempt} {throw : Bool}
    (opened : attempt.opening = none)
    (silent : attempt.beginRaise throw = none)
    (accepted : attempt.refusal = none) : attempt.marked = true := by
  cases built : attempt.built with
  | error exc => simp [beginRaise, opened, built] at silent
  | ok leaves =>
      cases leaves with
      | marked => simp [marked, built]
      | unmarked | view => simp [refusal, built, Leaves.refusal] at accepted

theorem Attempt.built_marked {attempt : Attempt}
    (marked : attempt.marked = true) : attempt.built = .ok .marked := by
  cases built : attempt.built with
  | error exc => simp [Attempt.marked, built] at marked
  | ok leaves =>
      obtain rfl : leaves = .marked := by
        simpa [Attempt.marked, built] using marked
      rfl

/-- The exception that the second loop of a round ends with at this entry. -/
def Commit.raise (request : PutRequest) (commit : Commit) : Option Exc :=
  if commit.again request.deadline then none
  else if request.throw then commit.report.map .pva
  else none

def recordBegin (results : Results) (entry : Nat × Attempt) : Results :=
  match entry.2.opening with
  | some failure => results.set entry.1 (some failure.error)
  | none => results

def recordCommit (deadline : Option Int) (results : Results)
    (entry : Nat × Commit) : Results :=
  if entry.2.again deadline then results
  else results.set entry.1 entry.2.report

theorem beginLoop_eq (throw : Bool) (entries : List (Nat × Attempt))
    (results : Results) :
    beginLoop throw entries results =
      match entries.findSome? fun entry => entry.2.beginRaise throw with
      | some exc => .error exc
      | none => .ok (entries.filter fun entry => entry.2.opening.isNone,
          entries.foldl recordBegin results) := by
  induction entries generalizing results with
  | nil => rfl
  | cons entry rest induction =>
      obtain ⟨entry, attempt⟩ := entry
      cases opening : attempt.opening with
      | some failure =>
          cases throw with
          | true => simp [beginLoop, Attempt.beginRaise, opening]
          | false =>
              simp [beginLoop, Attempt.beginRaise, recordBegin, opening,
                induction]
      | none =>
          cases built : attempt.built with
          | error exc =>
              simp [beginLoop, Attempt.beginRaise, opening, built]
          | ok leaves =>
              have silent : attempt.beginRaise throw = none := by
                simp [Attempt.beginRaise, opening, built]
              simp only [beginLoop, opening, built, induction, silent,
                List.findSome?_cons, List.foldl_cons]
              cases rest.findSome? fun entry =>
                  entry.2.beginRaise throw with
              | some exc => rfl
              | none => simp [recordBegin, opening]

theorem commitLoop_eq (request : PutRequest) (sent : List (Nat × Commit))
    (results : Results) :
    commitLoop request sent results =
      match sent.findSome? fun entry => entry.2.raise request with
      | some exc => .error exc
      | none =>
          .ok ((sent.filter fun entry =>
              entry.2.again request.deadline).map Prod.fst,
            sent.foldl (recordCommit request.deadline) results) := by
  induction sent generalizing results with
  | nil => rfl
  | cons entry rest induction =>
      obtain ⟨entry, commit⟩ := entry
      cases again : commit.again request.deadline with
      | true =>
          have silent : commit.raise request = none := by
            simp [Commit.raise, again]
          simp only [commitLoop, again, induction, silent,
            List.findSome?_cons, List.foldl_cons, if_true]
          cases rest.findSome? fun entry => entry.2.raise request with
          | some exc => rfl
          | none => simp [recordCommit, again]
      | false =>
          cases report : commit.report with
          | none =>
              simp [commitLoop, Commit.raise, recordCommit, again, report,
                induction]
          | some error =>
              cases throw : request.throw with
              | true =>
                  simp [commitLoop, Commit.raise, again, report, throw]
              | false =>
                  simp [commitLoop, Commit.raise, recordCommit, again, report,
                    throw, induction]

/-- The server executed the PUT and the client begins it again. -/
def Attempt.Relapses (deadline : Option Int) (attempt : Attempt) : Prop :=
  attempt.opening = none ∧ attempt.built = .ok .marked ∧
    attempt.commit.executed = true ∧ attempt.commit.again deadline = true

/-- The attempt ends the whole blocking call. -/
def Attempt.Stops (request : PutRequest) (attempt : Attempt) : Prop :=
  attempt.beginRaise request.throw ≠ none ∨
    attempt.opening = none ∧
      (attempt.marked = false ∨ attempt.commit.raise request ≠ none)

/-- In a round that does not end the call no entry is begun again whose PUT
the server executed. -/
def PutMany.NoRelapse (request : PutRequest) (_ : PutMany)
    (attempts : List Attempt) : Prop :=
  (∀ attempt ∈ attempts, ¬attempt.Stops request) →
    ∀ attempt ∈ attempts, ¬attempt.Relapses request.deadline

/-- No entry is begun again whose PUT the server executed. -/
def PutGather.NoRelapse (deadline : Nat → Option Int) (_ : PutGather) :
    GatherStep → Prop
  | .attempt entry attempt => ¬attempt.Relapses (deadline entry)
  | .cancel _ _ => True

def AtMostOnce (executed : List Nat) : Prop :=
  ∀ entry, executed.count entry ≤ 1

theorem AtMostOnce.of_nodup {executed : List Nat} (nodup : executed.Nodup) :
    AtMostOnce executed :=
  List.nodup_iff_count_le_one.mp nodup

theorem not_atMostOnce {executed more : List Nat} {entry : Nat}
    (first : entry ∈ executed) (second : entry ∈ more) :
    ¬AtMostOnce (executed ++ more) := by
  intro once
  have count := once entry
  rw [List.count_append] at count
  have one := List.count_pos_iff.mpr first
  have two := List.count_pos_iff.mpr second
  omega

/-- An attempt that succeeds. -/
def Attempt.success : Attempt :=
  ⟨none, .ok .marked, ⟨true, none, 0⟩⟩

namespace PutMany

/-- The entries that may still be sent. -/
def live (call : PutMany) : List Nat :=
  match call.status with
  | .pending entries => entries
  | _ => []

/-- What is still to be sent was not executed, and nothing was executed
twice. -/
structure Clean (call : PutMany) : Prop where
  executed : call.executed.Nodup
  live : call.live.Nodup
  fresh : call.executed.Disjoint call.live

theorem live_of (results : Results) (executed entries : List Nat) :
    (PutMany.mk (.of entries) results executed).live = entries := by
  cases entries with
  | nil => rfl
  | cons entry entries => rfl

/-- The entries that could be begun, with their commits. -/
def sent (entries : List (Nat × Attempt)) : List (Nat × Commit) :=
  (entries.filter fun entry => entry.2.opening.isNone).map
    fun entry => (entry.1, entry.2.commit)

theorem mem_sent {entries : List (Nat × Attempt)} {entry : Nat}
    {commit : Commit} :
    (entry, commit) ∈ sent entries ↔
      ∃ attempt, (entry, attempt) ∈ entries ∧ attempt.opening = none ∧
        attempt.commit = commit := by
  simp only [sent, List.mem_map, List.mem_filter, Prod.mk.injEq]
  constructor
  · intro found
    obtain ⟨⟨source, attempt⟩, ⟨inside, opened⟩, rfl, rfl⟩ := found
    exact ⟨attempt, inside, Option.isNone_iff_eq_none.mp opened, rfl⟩
  · intro found
    obtain ⟨attempt, inside, opened, rfl⟩ := found
    exact ⟨(entry, attempt), ⟨inside, Option.isNone_iff_eq_none.mpr opened⟩,
      rfl, rfl⟩

theorem sent_keys (entries : List (Nat × Attempt)) :
    ((sent entries).map Prod.fst).Sublist (entries.map Prod.fst) := by
  rw [sent, List.map_map]
  apply List.filter_sublist.map

theorem putCommitMany_ok {entries : List (Nat × Attempt)}
    (marks : ∀ entry ∈ entries, entry.2.opening = none →
      entry.2.marked = true) :
    putCommitMany (entries.filter fun entry => entry.2.opening.isNone) =
      .ok (sent entries) := by
  have silent : ((entries.filter fun entry =>
      entry.2.opening.isNone).findSome? fun entry =>
        entry.2.refusal) = none := by
    rw [List.findSome?_eq_none_iff]
    intro entry member
    obtain ⟨inside, opened⟩ := List.mem_filter.mp member
    apply Attempt.refusal_marked
    exact marks entry inside (Option.isNone_iff_eq_none.mp opened)
  rw [putCommitMany, silent]
  rfl

theorem putCommitMany_error {throw : Bool} {entries : List (Nat × Attempt)}
    (begins : (entries.findSome? fun entry =>
      entry.2.beginRaise throw) = none)
    (refused : ∃ entry ∈ entries, entry.2.opening = none ∧
      entry.2.marked = false) :
    ∃ exc, ((entries.filter fun entry =>
        entry.2.opening.isNone).findSome? fun entry =>
          entry.2.refusal) = some exc ∧
      putCommitMany (entries.filter fun entry => entry.2.opening.isNone) =
        .error exc := by
  obtain ⟨entry, member, opened, unmarked⟩ := refused
  have silent := List.findSome?_eq_none_iff.mp begins entry member
  have inside : entry ∈ entries.filter fun entry =>
      entry.2.opening.isNone :=
    List.mem_filter.mpr ⟨member, Option.isNone_iff_eq_none.mpr opened⟩
  cases found : (entries.filter fun entry =>
      entry.2.opening.isNone).findSome? fun entry => entry.2.refusal with
  | none =>
      have accepted := List.findSome?_eq_none_iff.mp found entry inside
      rw [Attempt.marked_of_silent opened silent accepted] at unmarked
      cases unmarked
  | some exc => exact ⟨exc, rfl, by rw [putCommitMany, found]⟩

theorem round_ends {request : PutRequest} {call : PutMany}
    {entries : List (Nat × Attempt)}
    (ends : ∀ entry ∈ entries, ¬entry.2.Stops request) :
    call.round request entries =
      ⟨.of (((sent entries).filter fun entry =>
          entry.2.again request.deadline).map Prod.fst),
        (sent entries).foldl (recordCommit request.deadline)
          (entries.foldl recordBegin call.results),
        call.executed ++ executions (sent entries)⟩ := by
  have begins : (entries.findSome? fun entry =>
      entry.2.beginRaise request.throw) = none := by
    rw [List.findSome?_eq_none_iff]
    intro entry member
    by_contra raises
    exact ends entry member (.inl raises)
  have marks : ∀ entry ∈ entries, entry.2.opening = none →
      entry.2.marked = true := by
    intro entry member opened
    by_contra unmarked
    exact ends entry member (.inr ⟨opened, .inl (by simpa using unmarked)⟩)
  have commits : ((sent entries).findSome? fun entry =>
      entry.2.raise request) = none := by
    rw [List.findSome?_eq_none_iff]
    intro entry member
    obtain ⟨attempt, inside, opened, same⟩ := mem_sent.mp member
    by_contra raises
    rw [← same] at raises
    exact ends _ inside (.inr ⟨opened, .inr raises⟩)
  simp only [round, beginLoop_eq, begins, putCommitMany_ok marks,
    commitLoop_eq, commits]

theorem round_stops {request : PutRequest} {call : PutMany}
    {entries : List (Nat × Attempt)}
    (stops : ∃ entry ∈ entries, entry.2.Stops request) :
    (∃ exc, (call.round request entries).status = .raised exc) ∧
      ((call.round request entries).executed = call.executed ∨
        (call.round request entries).executed =
          call.executed ++ executions (sent entries)) := by
  cases begins : entries.findSome? fun entry =>
      entry.2.beginRaise request.throw with
  | some exc =>
      simp only [round, beginLoop_eq, begins]
      exact ⟨⟨exc, rfl⟩, .inl trivial⟩
  | none =>
      by_cases marks : ∀ entry ∈ entries, entry.2.opening = none →
          entry.2.marked = true
      · cases commits : (sent entries).findSome? fun entry =>
            entry.2.raise request with
        | some exc =>
            simp only [round, beginLoop_eq, begins, putCommitMany_ok marks,
              commitLoop_eq, commits]
            exact ⟨⟨exc, rfl⟩, .inr trivial⟩
        | none =>
            rw [List.findSome?_eq_none_iff] at begins commits
            obtain ⟨entry, member, early | ⟨opened, late⟩⟩ := stops
            · exact (early (begins entry member)).elim
            · rcases late with unmarked | raises
              · simp [marks entry member opened] at unmarked
              · have inside : (entry.1, entry.2.commit) ∈ sent entries :=
                  mem_sent.mpr ⟨entry.2, member, opened, rfl⟩
                exact (raises (commits _ inside)).elim
      · simp only [not_forall, Bool.not_eq_true] at marks
        obtain ⟨entry, member, opened, unmarked⟩ := marks
        obtain ⟨exc, _, refused⟩ :=
          putCommitMany_error begins ⟨entry, member, opened, unmarked⟩
        simp only [round, beginLoop_eq, begins, refused]
        exact ⟨⟨exc, rfl⟩, .inl trivial⟩

theorem mem_executions {sent : List (Nat × Commit)} {entry : Nat} :
    entry ∈ executions sent ↔
      ∃ commit, (entry, commit) ∈ sent ∧ commit.executed = true := by
  simp only [executions, List.mem_map, List.mem_filter]
  constructor
  · intro found
    obtain ⟨⟨entry, commit⟩, ⟨member, executed⟩, rfl⟩ := found
    exact ⟨commit, member, executed⟩
  · intro found
    obtain ⟨commit, member, executed⟩ := found
    exact ⟨(entry, commit), ⟨member, executed⟩, rfl⟩

namespace Clean

variable {call : PutMany} {entries : List (Nat × Attempt)}

theorem sent (clean : call.Clean)
    (pending : entries.map Prod.fst = call.live) :
    (call.executed ++ executions (PutMany.sent entries)).Nodup := by
  have keys := sent_keys entries
  rw [pending] at keys
  have executed : (executions (PutMany.sent entries)).Sublist call.live :=
    (List.filter_sublist.map _).trans keys
  apply List.nodup_append.mpr
  refine ⟨clean.executed, clean.live.sublist executed, ?_⟩
  intro entry before other again same
  rw [same] at before
  exact clean.fresh before (executed.subset again)

theorem round {request : PutRequest} (clean : call.Clean)
    (pending : entries.map Prod.fst = call.live)
    (fine : (∀ entry ∈ entries, ¬entry.2.Stops request) →
      ∀ entry ∈ entries, ¬entry.2.Relapses request.deadline) :
    (call.round request entries).Clean := by
  have nodup := clean.sent pending
  by_cases stops : ∃ entry ∈ entries, entry.2.Stops request
  · obtain ⟨⟨exc, raised⟩, executed⟩ :=
      @round_stops request call entries stops
    have silent : (call.round request entries).live = [] := by
      simp [PutMany.live, raised]
    refine ⟨?_, ?_, ?_⟩
    · rcases executed with same | more
      · rw [same]
        exact clean.executed
      · rw [more]
        exact nodup
    · rw [silent]
      exact List.nodup_nil
    · rw [silent]
      exact List.disjoint_nil_right _
  · have ends : ∀ entry ∈ entries, ¬entry.2.Stops request :=
      fun entry member isStop => stops ⟨entry, member, isStop⟩
    rw [round_ends ends]
    have keys := sent_keys entries
    rw [pending] at keys
    have again : (((PutMany.sent entries).filter fun entry =>
        entry.2.again request.deadline).map Prod.fst).Sublist call.live :=
      (List.filter_sublist.map _).trans keys
    refine ⟨nodup, ?_, ?_⟩
    · rw [live_of]
      apply clean.live.sublist again
    · rw [live_of]
      intro entry executed pending
      rcases List.mem_append.mp executed with before | now
      · exact clean.fresh before (again.subset pending)
      · obtain ⟨commit, member, isExecuted⟩ := mem_executions.mp now
        obtain ⟨⟨other, second⟩, found, rfl⟩ := List.mem_map.mp pending
        obtain ⟨inside, isAgain⟩ := List.mem_filter.mp found
        have same := List.inj_on_of_nodup_map (clean.live.sublist keys)
          member inside rfl
        obtain ⟨_, rfl⟩ := Prod.mk.inj same
        obtain ⟨attempt, attempted, opened, rfl⟩ := mem_sent.mp member
        apply fine ends _ attempted
        refine ⟨opened, ?_, isExecuted, isAgain⟩
        have notStopped := ends _ attempted
        simp only [Attempt.Stops, not_or, not_and, ne_eq, not_not]
          at notStopped
        have marked := (notStopped.2 opened).1
        exact Attempt.built_marked (by simpa using marked)

end Clean

theorem next_eq {request : PutRequest} {call last : PutMany}
    {attempts : List Attempt}
    (step : call.next request attempts = some last) :
    attempts.length = call.live.length ∧
      last = call.round request (call.live.zip attempts) := by
  simp only [next] at step
  split at step
  case h_1 entries pending =>
    have live : call.live = entries := by simp [PutMany.live, pending]
    split at step
    case isTrue length =>
      obtain rfl := Option.some.inj step
      rw [live]
      exact ⟨length, rfl⟩
    case isFalse => simp at step
  case h_2 => simp at step

theorem zip_keys {entries : List Nat} {attempts : List Attempt}
    (length : attempts.length = entries.length) :
    (entries.zip attempts).map Prod.fst = entries := by
  rw [List.map_fst_zip (by omega)]

theorem mem_zip {entries : List Nat} {attempts : List Attempt}
    {attempt : Attempt} (length : attempts.length = entries.length)
    (member : attempt ∈ attempts) :
    ∃ entry, (entry, attempt) ∈ entries.zip attempts := by
  have inside : attempt ∈ (entries.zip attempts).map Prod.snd := by
    rw [List.map_snd_zip (by omega)]
    exact member
  obtain ⟨⟨entry, same⟩, found, rfl⟩ := List.mem_map.mp inside
  exact ⟨entry, found⟩

theorem Clean.invariant (request : PutRequest) :
    ((system request).restrict (NoRelapse request)).Invariant Clean where
  initial := by
    intro call start
    obtain ⟨count, rfl⟩ := start
    refine ⟨List.nodup_nil, ?_, List.disjoint_nil_left _⟩
    rw [PutMany.fresh, live_of]
    exact List.nodup_range
  preserved := by
    intro call attempts last clean step
    obtain ⟨step, fine⟩ := step
    obtain ⟨length, rfl⟩ := next_eq step
    apply clean.round (zip_keys length)
    intro ends entry member
    apply fine
    · intro attempt inside
      obtain ⟨other, found⟩ := mem_zip length inside
      exact ends (other, attempt) found
    · exact (List.of_mem_zip member).2

theorem success_executes (request : PutRequest) (call : PutMany)
    (pending : call.live ≠ []) :
    ∃ last, call.next request
        (List.replicate call.live.length .success) = some last ∧
      last.executed = call.executed ++ call.live := by
  have length : (List.replicate call.live.length Attempt.success).length =
      call.live.length := List.length_replicate
  refine ⟨call.round request
    (call.live.zip (List.replicate call.live.length .success)), ?_, ?_⟩
  · cases status : call.status with
    | pending entries =>
        have live : call.live = entries := by simp [PutMany.live, status]
        simp [next, status, live]
    | returned => simp [PutMany.live, status] at pending
    | raised exc => simp [PutMany.live, status] at pending
  · have all : ∀ entry ∈ call.live.zip
        (List.replicate call.live.length Attempt.success),
        entry.2 = .success := by
      intro entry member
      exact List.eq_of_mem_replicate (List.of_mem_zip member).2
    rw [round_ends]
    · have everything : executions (sent (call.live.zip
          (List.replicate call.live.length Attempt.success))) =
            call.live := by
        rw [executions, List.filter_eq_self.mpr]
        · rw [sent, List.filter_eq_self.mpr]
          · rw [List.map_map]
            exact zip_keys length
          · intro entry member
            rw [all entry member]
            rfl
        · intro entry member
          obtain ⟨attempt, inside, _, same⟩ := mem_sent.mp member
          obtain rfl : attempt = .success := all _ inside
          rw [← same]
          rfl
      rw [everything]
    · intro entry member stops
      rw [all entry member] at stops
      simp [Attempt.Stops, Attempt.success, Attempt.beginRaise,
        Attempt.marked, Commit.raise, Commit.report] at stops

theorem relapse_repeats {request : PutRequest} {call last : PutMany}
    {attempts : List Attempt}
    (step : call.next request attempts = some last)
    (relapse : ¬call.NoRelapse request attempts) :
    (system request).Breakable (fun call => AtMostOnce call.executed)
      last := by
  simp only [NoRelapse, Classical.not_imp, not_forall, not_not] at relapse
  obtain ⟨ends, attempt, member, opened, _, isExecuted, again⟩ := relapse
  obtain ⟨length, rfl⟩ := next_eq step
  obtain ⟨entry, found⟩ := mem_zip length member
  have rounded := @round_ends request call (call.live.zip attempts)
    (fun other inside => ends other.2 (List.of_mem_zip inside).2)
  have sentEntry : (entry, attempt.commit) ∈ sent (call.live.zip attempts) :=
    mem_sent.mpr ⟨attempt, found, opened, rfl⟩
  have executed : entry ∈
      (call.round request (call.live.zip attempts)).executed := by
    rw [rounded]
    apply List.mem_append_right
    exact mem_executions.mpr ⟨_, sentEntry, isExecuted⟩
  have live : entry ∈
      (call.round request (call.live.zip attempts)).live := by
    rw [rounded, live_of]
    exact List.mem_map.mpr
      ⟨_, List.mem_filter.mpr ⟨sentEntry, again⟩, rfl⟩
  obtain ⟨final, next, twice⟩ := success_executes request
    (call.round request (call.live.zip attempts))
    (List.ne_nil_of_mem live)
  apply Transition.Breakable.step _ next
  apply Transition.Breakable.now
  rw [twice]
  apply not_atMostOnce executed live

end PutMany

namespace PutGather

/-- A coroutine that still runs was not executed, and nothing was executed
twice. -/
structure Clean (call : PutGather) : Prop where
  executed : call.executed.Nodup
  fresh : ∀ entry, call.entries[entry]? = some .running →
    entry ∉ call.executed

theorem Clean.settle {call : PutGather} (clean : call.Clean) {entry : Nat}
    (running : call.entries[entry]? = some .running) (one : PutOne)
    (executed : Bool) (fine : executed = true → one ≠ .running) :
    (call.settle entry one executed).Clean := by
  have bound := (List.getElem?_eq_some_iff.mp running).1
  cases executed with
  | false =>
      constructor
      case executed => simpa [PutGather.settle] using clean.executed
      case fresh =>
        intro other found
        simp only [PutGather.settle, List.append_nil, Bool.false_eq_true,
          if_false] at found ⊢
        by_cases same : other = entry
        · rw [same]
          apply clean.fresh entry running
        · rw [List.getElem?_set_ne (Ne.symm same)] at found
          apply clean.fresh other found
  | true =>
      constructor
      case executed =>
        apply List.nodup_append.mpr
        refine ⟨clean.executed, List.nodup_singleton entry, ?_⟩
        intro before member other now same
        obtain rfl := List.mem_singleton.mp now
        exact clean.fresh other running (same ▸ member)
      case fresh =>
        intro other found member
        simp only [PutGather.settle] at found member
        by_cases same : other = entry
        · rw [same, List.getElem?_set_self bound] at found
          exact fine rfl (Option.some.inj found)
        · rw [List.getElem?_set_ne (Ne.symm same)] at found
          rcases List.mem_append.mp member with before | now
          · exact clean.fresh other found before
          · exact same (List.mem_singleton.mp now)

/-- A coroutine that goes on after its PUT was executed has relapsed. -/
theorem round_relapses {deadline : Option Int} {attempt : Attempt}
    (executed : (PutOne.round deadline attempt).2 = true)
    (running : (PutOne.round deadline attempt).1 = .running) :
    attempt.Relapses deadline := by
  unfold PutOne.round at executed running
  split at executed
  case h_1 => simp at executed
  case h_2 opened =>
    simp only [opened] at running
    cases built : attempt.built with
    | error exc => simp [built] at executed
    | ok leaves =>
        cases leaves with
        | unmarked | view => simp [built, Leaves.refusal] at executed
        | marked =>
            simp only [built, Leaves.refusal] at running executed
            split at executed
            case isTrue again => exact ⟨opened, built, executed, again⟩
            case isFalse notAgain =>
              rw [if_neg notAgain] at running
              split at running
              · simp at running
              · simp at running

theorem round_of_relapse {deadline : Option Int} {attempt : Attempt}
    (relapses : attempt.Relapses deadline) :
    PutOne.round deadline attempt = (.running, true) := by
  obtain ⟨opened, built, executed, again⟩ := relapses
  simp [PutOne.round, opened, built, Leaves.refusal, again, executed]

theorem next_settle {deadline : Nat → Option Int} {call last : PutGather}
    {label : GatherStep} (step : call.next deadline label = some last) :
    ∃ entry one executed, call.entries[entry]? = some .running ∧
      last = call.settle entry one executed ∧
      (executed = true → one = .running →
        ¬call.NoRelapse deadline label) := by
  cases label with
  | attempt entry attempt =>
      simp only [next] at step
      split at step
      case isFalse => simp at step
      case isTrue running =>
        obtain rfl := Option.some.inj step
        refine ⟨entry, _, _, running, rfl, ?_⟩
        intro executed goesOn fine
        exact fine (round_relapses executed goesOn)
  | cancel entry executed =>
      simp only [next] at step
      split at step
      case isFalse => simp at step
      case isTrue running =>
        obtain rfl := Option.some.inj step
        refine ⟨entry, _, _, running, rfl, ?_⟩
        intro _ goesOn
        simp at goesOn

theorem Clean.invariant (deadline : Nat → Option Int) :
    ((system deadline).restrict (NoRelapse deadline)).Invariant Clean where
  initial := by
    intro call start
    obtain ⟨count, rfl⟩ := start
    exact ⟨List.nodup_nil, fun _ _ => List.not_mem_nil⟩
  preserved := by
    intro call label last clean step
    obtain ⟨step, fine⟩ := step
    obtain ⟨entry, one, executed, running, rfl, goesOn⟩ := next_settle step
    apply clean.settle running
    intro isExecuted isRunning
    exact goesOn isExecuted isRunning fine

theorem relapse_repeats {deadline : Nat → Option Int}
    {call last : PutGather} {label : GatherStep}
    (step : call.next deadline label = some last)
    (relapse : ¬call.NoRelapse deadline label) :
    (system deadline).Breakable (fun call => AtMostOnce call.executed)
      last := by
  cases label with
  | cancel entry executed => exact (relapse trivial).elim
  | attempt entry attempt =>
      simp only [NoRelapse, not_not] at relapse
      simp only [next, round_of_relapse relapse] at step
      split at step
      case isFalse => simp at step
      case isTrue running =>
        obtain rfl := Option.some.inj step
        have bound := (List.getElem?_eq_some_iff.mp running).1
        apply Transition.Breakable.step (.attempt entry .success)
        · have again : (call.settle entry .running true).entries[entry]? =
              some .running := List.getElem?_set_self bound
          simp only [next, again, if_true]
          rfl
        · apply Transition.Breakable.now
          apply not_atMostOnce
          · exact List.mem_append_right _ (List.mem_singleton_self entry)
          · exact List.mem_singleton_self entry

end PutGather

/-- In either flavour the server executes the PUT of an entry at most once as
long as no entry is begun again whose PUT was executed, and one that is may be
executed again. -/
theorem put_at_most_once (request : PutRequest)
    (deadline : Nat → Option Int) :
    (PutMany.system request).Guards (PutMany.NoRelapse request)
        (fun call => AtMostOnce call.executed) ∧
      (PutGather.system deadline).Guards (PutGather.NoRelapse deadline)
        fun call => AtMostOnce call.executed := by
  constructor
  · constructor
    case enough =>
      intro call reachable
      apply AtMostOnce.of_nodup
      apply ((PutMany.Clean.invariant request).reachable reachable).executed
    case needed =>
      intro call attempts last _ step relapse
      apply PutMany.relapse_repeats step relapse
  · constructor
    case enough =>
      intro call reachable
      apply AtMostOnce.of_nodup
      apply ((PutGather.Clean.invariant deadline).reachable
        reachable).executed
    case needed =>
      intro call label last _ step relapse
      apply PutGather.relapse_repeats step relapse

/-- The circuit is lost while the commit is pending. -/
def lost (executed : Bool) : Attempt :=
  ⟨none, .ok .marked, ⟨executed, some (.library (.disconnected "lost")), 1⟩⟩

/-- A call without `throw` whose deadline is the fifth tick. -/
def untilFive : PutRequest :=
  ⟨false, some 5⟩

def afterRounds (rounds : List (List Attempt)) : PutMany :=
  (rounds.foldlM (PutMany.next untilFive) (.fresh 1)).getD (.fresh 1)

def afterSteps (steps : List GatherStep) : PutGather :=
  (steps.foldlM (PutGather.next fun _ => some 5) (.fresh 1)).getD (.fresh 1)

/-- A PUT that is lost before the server executes it is sent again. -/
theorem put_at_most_once_resent :
    AtMostOnce (afterRounds [[lost false], [.success]]).executed ∧
      AtMostOnce (afterSteps
        [.attempt 0 (lost false), .attempt 0 .success]).executed := by
  have resent : ¬(lost false).Relapses (some 5) := by
    simp [lost, Attempt.Relapses]
  have success : ¬Attempt.success.Relapses (some 5) := by
    simp [Attempt.success, Attempt.Relapses, Commit.again, Commit.report]
  constructor
  · apply (put_at_most_once untilFive fun _ => some 5).1.enough
    refine ⟨.fresh 1, [[lost false], [.success]], ⟨1, rfl⟩, ?_⟩
    refine .restrict_cons rfl ?_ (.restrict_cons rfl ?_ (.nil _))
    · intro _ attempt member
      obtain rfl := List.mem_singleton.mp member
      exact resent
    · intro _ attempt member
      obtain rfl := List.mem_singleton.mp member
      exact success
  · apply (put_at_most_once untilFive fun _ => some 5).2.enough
    refine ⟨.fresh 1, [.attempt 0 (lost false), .attempt 0 .success],
      ⟨1, rfl⟩, ?_⟩
    exact .restrict_cons rfl resent (.restrict_cons rfl success (.nil _))

/-- The server executes the PUT, the circuit is lost before its status
arrives, and the client begins again: one entry is executed twice. -/
theorem executed_put_is_repeated :
    (PutMany.system untilFive).Run (.fresh 1) [[lost true], [.success]]
        (afterRounds [[lost true], [.success]]) ∧
      (afterRounds [[lost true], [.success]]).executed = [0, 0] ∧
      (PutGather.system fun _ => some 5).Run (.fresh 1)
        [.attempt 0 (lost true), .attempt 0 .success]
        (afterSteps [.attempt 0 (lost true), .attempt 0 .success]) ∧
      (afterSteps
        [.attempt 0 (lost true), .attempt 0 .success]).executed =
          [0, 0] := by
  refine ⟨?_, rfl, ?_, rfl⟩
  · apply Transition.Run.of_foldlM rfl
  · apply Transition.Run.of_foldlM rfl

end Repics.Pva.Client
