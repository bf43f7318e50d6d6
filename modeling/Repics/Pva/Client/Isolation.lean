import Repics.Pva.Client.Put

/-!
# The entries of a list put

A blocking call without `throw` goes through its rounds with a shrinking list
of pending entries.  What an entry comes to, when nothing but its own attempts
is looked at, is stated first; the call keeps its entries apart as long as its
slots, its pending list, and the PUTs that the server executes are exactly
those of the single entries.
-/

namespace Repics.Pva.Client

/-- What happens to every entry in every round. -/
abbrev Script := Nat → Nat → Attempt

/-- The end of an entry in an attempt: `none` when it is begun again, and else
the exception it ends with, if any. -/
def Attempt.outcome (deadline : Option Int) (attempt : Attempt) :
    Option (Option Exc) :=
  match attempt.opening with
  | some failure => some (some (.pva failure.error))
  | none =>
      match attempt.built with
      | .error exc => some (some exc)
      | .ok leaves =>
          match leaves.refusal with
          | some exc => some (some exc)
          | none =>
              if attempt.commit.again deadline then none
              else some (attempt.commit.report.map .pva)

/-- What an entry has come to after some rounds of its own. -/
def own (deadline : Option Int) (script : Script) (entry : Nat) :
    Nat → Option (Option Exc)
  | 0 => none
  | round + 1 =>
      (own deadline script entry round).or
        ((script round entry).outcome deadline)

/-- The entries that have not come to an end. -/
def unsettled (deadline : Option Int) (script : Script) (count round : Nat) :
    List Nat :=
  (List.range count).filter fun entry =>
    (own deadline script entry round).isNone

/-- The data of an attempt is sent. -/
def Attempt.sends (attempt : Attempt) : Bool :=
  attempt.opening.isNone && attempt.marked

/-- The PUTs that the server executes when every entry is on its own. -/
def executedAlone (deadline : Option Int) (script : Script) (count : Nat) :
    Nat → List Nat
  | 0 => []
  | round + 1 =>
      executedAlone deadline script count round ++
        (unsettled deadline script count round).filter fun entry =>
          (script round entry).sends && (script round entry).commit.executed

namespace PutMany

/-- The call after some rounds. -/
def after (request : PutRequest) (script : Script) (count : Nat) :
    Nat → PutMany
  | 0 => fresh count
  | round + 1 =>
      let call := after request script count round
      match call.status with
      | .pending entries =>
          call.round request
            (entries.map fun entry => (entry, script round entry))
      | _ => call

/-- The call is what its entries come to, each on its own: it goes on with
those that have not come to an end and returns when there are none, every slot
holds the exception of its entry or nothing, and the server executes every PUT
that it would execute alone. -/
structure Isolated (deadline : Option Int) (script : Script)
    (count round : Nat) (call : PutMany) : Prop where
  status : call.status = .of (unsettled deadline script count round)
  results : call.results.map (Option.map .pva) =
    (List.range count).map fun entry =>
      (own deadline script entry round).getD none
  executed : call.executed = executedAlone deadline script count round

/-- Every operation that is begun is given a value with a marked field. -/
def AllBuilt (deadline : Option Int) (script : Script) (count : Nat) : Prop :=
  ∀ round entry, entry < count → own deadline script entry round = none →
    (script round entry).opening = none →
      (script round entry).built = .ok .marked

end PutMany

theorem foldl_set_range {α : Type} (writes : Nat → Bool) (value table : Nat → α)
    (keys : List Nat) (count : Nat) :
    keys.foldl (fun results key =>
        if writes key then results.set key (value key) else results)
      ((List.range count).map table) =
      (List.range count).map fun index =>
        if index ∈ keys ∧ writes index then value index else table index := by
  induction keys generalizing table with
  | nil => simp
  | cons key keys induction =>
      have first : (if writes key
          then ((List.range count).map table).set key (value key)
          else (List.range count).map table) =
            (List.range count).map fun index =>
              if index = key ∧ writes index then value index
              else table index := by
        apply List.ext_getElem
        · split
          · simp
          · simp
        · intro index left right
          by_cases same : index = key
          · subst same
            split
            case isTrue isWritten => simp [isWritten]
            case isFalse notWritten => simp [notWritten]
          · have other : key ≠ index := Ne.symm same
            split
            · simp [same, List.getElem_set_ne other]
            · simp [same]
      rw [List.foldl_cons, first, induction]
      apply List.map_congr_left
      intro index _
      by_cases same : index = key
      · subst same
        by_cases isWritten : writes index = true
        · simp [isWritten]
        · simp [isWritten]
      · simp [same]

theorem recordBegin_eq (results : Results) (entry : Nat × Attempt) :
    recordBegin results entry =
      if entry.2.opening.isSome
      then results.set entry.1 (entry.2.opening.map Failure.error)
      else results := by
  cases opening : entry.2.opening with
  | none => simp [recordBegin, opening]
  | some failure => simp [recordBegin, opening]

theorem recordCommit_eq (deadline : Option Int) (results : Results)
    (entry : Nat × Commit) :
    recordCommit deadline results entry =
      if !entry.2.again deadline
      then results.set entry.1 entry.2.report else results := by
  cases again : entry.2.again deadline with
  | true => simp [recordCommit, again]
  | false => simp [recordCommit, again]

section Round

variable {deadline : Option Int} {script : Script} {count round : Nat}

theorem mem_unsettled {entry : Nat} :
    entry ∈ unsettled deadline script count round ↔
      entry < count ∧ own deadline script entry round = none := by
  simp [unsettled]

theorem unsettled_succ :
    unsettled deadline script count (round + 1) =
      (unsettled deadline script count round).filter fun entry =>
        ((script round entry).outcome deadline).isNone := by
  rw [unsettled, unsettled, List.filter_filter]
  apply List.filter_congr
  intro entry _
  simp [own, Bool.and_comm]

/-- The attempts of this round. -/
def attempts (deadline : Option Int) (script : Script)
    (count round : Nat) : List (Nat × Attempt) :=
  (unsettled deadline script count round).map fun entry =>
    (entry, script round entry)

theorem sent_attempts :
    PutMany.sent (attempts deadline script count round) =
      ((unsettled deadline script count round).filter fun entry =>
        (script round entry).opening.isNone).map fun entry =>
          (entry, (script round entry).commit) := by
  simp only [PutMany.sent, attempts, List.filter_map, List.map_map]
  rfl

theorem attempts_end
    (built : ∀ entry ∈ unsettled deadline script count round,
      (script round entry).opening = none →
        (script round entry).built = .ok .marked) :
    ∀ entry ∈ attempts deadline script count round,
      ¬entry.2.Stops ⟨false, deadline⟩ := by
  intro entry member stops
  obtain ⟨entry, inside, rfl⟩ := List.mem_map.mp member
  rcases stops with early | ⟨opened, late⟩
  · cases opening : (script round entry).opening with
    | some failure => simp [Attempt.beginRaise, opening] at early
    | none =>
        simp [Attempt.beginRaise, opening, built entry inside opening]
          at early
  · rcases late with unmarked | raises
    · simp [Attempt.marked, built entry inside opened] at unmarked
    · simp [Commit.raise] at raises

theorem again_attempts
    (built : ∀ entry ∈ unsettled deadline script count round,
      (script round entry).opening = none →
        (script round entry).built = .ok .marked) :
    ((PutMany.sent (attempts deadline script count round)).filter
        fun entry => entry.2.again deadline).map Prod.fst =
      unsettled deadline script count (round + 1) := by
  rw [sent_attempts, unsettled_succ, List.filter_map, List.map_map,
    List.filter_filter]
  have keys : (Prod.fst ∘ fun entry =>
      (entry, (script round entry).commit)) = id := rfl
  rw [keys, List.map_id]
  apply List.filter_congr
  intro entry member
  cases opening : (script round entry).opening with
  | some failure => simp [Attempt.outcome, opening]
  | none =>
      cases again : (script round entry).commit.again deadline with
      | true =>
          simp [Attempt.outcome, opening, again,
            built entry member opening, Leaves.refusal]
      | false =>
          simp [Attempt.outcome, opening, again,
            built entry member opening, Leaves.refusal]

theorem executions_attempts
    (built : ∀ entry ∈ unsettled deadline script count round,
      (script round entry).opening = none →
        (script round entry).built = .ok .marked) :
    executions (PutMany.sent (attempts deadline script count round)) =
      (unsettled deadline script count round).filter fun entry =>
        (script round entry).sends &&
          (script round entry).commit.executed := by
  rw [sent_attempts, executions, List.filter_map, List.map_map,
    List.filter_filter]
  have keys : (Prod.fst ∘ fun entry =>
      (entry, (script round entry).commit)) = id := rfl
  rw [keys, List.map_id]
  apply List.filter_congr
  intro entry member
  cases opening : (script round entry).opening with
  | some failure => simp [Attempt.sends, opening]
  | none =>
      simp [Attempt.sends, Attempt.marked, opening,
        built entry member opening]

/-- The slots after the first loop of a round. -/
def begun (script : Script) (round : Nat) (pending : List Nat)
    (table : Nat → Option PvaError) (entry : Nat) : Option PvaError :=
  if entry ∈ pending ∧ (script round entry).opening.isSome
  then (script round entry).opening.map Failure.error
  else table entry

/-- The slots after the second loop of a round. -/
def ended (deadline : Option Int) (script : Script) (round : Nat)
    (pending : List Nat) (table : Nat → Option PvaError) (entry : Nat) :
    Option PvaError :=
  if (entry ∈ pending.filter fun entry =>
      (script round entry).opening.isNone) ∧
    (!(script round entry).commit.again deadline) = true
  then (script round entry).commit.report
  else begun script round pending table entry

/-- Where the attempts are given values, the slots of the entries that end in
this round are written, and no others. -/
theorem results_attempts (table : Nat → Option PvaError) :
    (PutMany.sent (attempts deadline script count round)).foldl
        (recordCommit deadline)
        ((attempts deadline script count round).foldl recordBegin
          ((List.range count).map table)) =
      (List.range count).map (ended deadline script round
        (unsettled deadline script count round) table) := by
  rw [attempts, List.foldl_map]
  simp only [recordBegin_eq]
  rw [foldl_set_range (fun entry => (script round entry).opening.isSome)
    (fun entry => (script round entry).opening.map Failure.error)]
  rw [← attempts, sent_attempts, List.foldl_map]
  simp only [recordCommit_eq]
  exact foldl_set_range (fun entry =>
    !(script round entry).commit.again deadline) (fun entry =>
      (script round entry).commit.report) _ _ _

theorem ended_owned {table : Nat → Option PvaError}
    (built : ∀ entry ∈ unsettled deadline script count round,
      (script round entry).opening = none →
        (script round entry).built = .ok .marked)
    (owned : ∀ entry < count, (table entry).map .pva =
      (own deadline script entry round).getD none) :
    ∀ entry < count, (ended deadline script round
        (unsettled deadline script count round) table entry).map .pva =
      (own deadline script entry (round + 1)).getD none := by
  intro entry bound
  have before := owned entry bound
  cases reached : own deadline script entry round with
  | some exc =>
      simp only [ended, begun, List.mem_filter, mem_unsettled, reached, own]
      simpa [reached] using before
  | none =>
      have empty : table entry = none := by simpa [reached] using before
      have inside := mem_unsettled.mpr ⟨bound, reached⟩
      cases opening : (script round entry).opening with
      | some failure =>
          simp [ended, begun, inside, opening, own, reached, Attempt.outcome]
      | none =>
          have isBuilt := built entry inside opening
          cases again : (script round entry).commit.again deadline with
          | true =>
              simp [ended, begun, opening, again, own, reached,
                Attempt.outcome, isBuilt, Leaves.refusal, empty]
          | false =>
              simp [ended, inside, opening, again, own, reached,
                Attempt.outcome, isBuilt, Leaves.refusal]

end Round

namespace PutMany

variable {deadline : Option Int} {script : Script} {count : Nat}

/-- The slots of a call are those of its entries. -/
structure Tracks (deadline : Option Int) (script : Script)
    (count round : Nat) (call : PutMany) : Prop where
  status : call.status = .of (unsettled deadline script count round)
  results : ∃ table : Nat → Option PvaError,
    call.results = (List.range count).map table ∧
      ∀ entry < count, (table entry).map .pva =
        (own deadline script entry round).getD none
  executed : call.executed = executedAlone deadline script count round

theorem after_succ {request : PutRequest} {round : Nat}
    (status : (after request script count round).status =
      .of (unsettled request.deadline script count round)) :
    after request script count (round + 1) =
      match unsettled request.deadline script count round with
      | [] => after request script count round
      | _ :: _ => (after request script count round).round request
          (attempts request.deadline script count round) := by
  simp only [after, status, attempts]
  cases unsettled request.deadline script count round with
  | nil => rfl
  | cons entry entries => rfl

theorem after_run (request : PutRequest) (script : Script)
    (count round : Nat) :
    ∃ labels, (system request).Run (fresh count) labels
      (after request script count round) := by
  induction round with
  | zero => exact ⟨[], .nil _⟩
  | succ round induction =>
      obtain ⟨labels, run⟩ := induction
      cases status : (after request script count round).status with
      | pending entries =>
          refine ⟨labels ++ [entries.map (script round)], .snoc run ?_⟩
          change next request _ _ = _
          simp only [next, after, status, List.length_map, if_true,
            List.map_prod_left_eq_zip]
      | returned =>
          refine ⟨labels, ?_⟩
          simpa only [after, status] using run
      | raised exc =>
          refine ⟨labels, ?_⟩
          simpa only [after, status] using run

theorem Tracks.fresh :
    Tracks deadline script count 0 (fresh count) where
  status := by simp [PutMany.fresh, unsettled, own]
  results := by
    refine ⟨fun _ => none, ?_, ?_⟩
    · simp [PutMany.fresh]
    · simp [own]
  executed := rfl

theorem Tracks.succ {round : Nat}
    (tracks : Tracks deadline script count round
      (after ⟨false, deadline⟩ script count round))
    (built : ∀ entry ∈ unsettled deadline script count round,
      (script round entry).opening = none →
        (script round entry).built = .ok .marked) :
    Tracks deadline script count (round + 1)
      (after ⟨false, deadline⟩ script count (round + 1)) := by
  obtain ⟨table, results, owned⟩ := tracks.results
  have rounded : after ⟨false, deadline⟩ script count (round + 1) =
      ⟨.of (unsettled deadline script count (round + 1)),
        (List.range count).map (ended deadline script round
          (unsettled deadline script count round) table),
        executedAlone deadline script count (round + 1)⟩ := by
    rw [after_succ tracks.status]
    split
    case h_1 empty =>
      have pending : unsettled deadline script count round = [] := empty
      have still : unsettled deadline script count (round + 1) = [] := by
        rw [unsettled_succ, pending, List.filter_nil]
      have same : ended deadline script round [] table = table := by
        funext entry
        simp [ended, begun]
      have status := tracks.status
      rw [pending] at status
      simp only [still, pending, same, executedAlone, List.filter_nil,
        List.append_nil, ← results, ← tracks.executed]
      rw [← status]
    case h_2 =>
      rw [round_ends (attempts_end built), again_attempts built,
        executions_attempts built, results, results_attempts,
        tracks.executed]
      rfl
  rw [rounded]
  exact ⟨rfl, ⟨_, rfl, ended_owned built owned⟩, rfl⟩

theorem Tracks.after {round : Nat}
    (built : ∀ earlier < round,
      ∀ entry ∈ unsettled deadline script count earlier,
        (script earlier entry).opening = none →
          (script earlier entry).built = .ok .marked) :
    Tracks deadline script count round
      (after ⟨false, deadline⟩ script count round) := by
  induction round with
  | zero => exact Tracks.fresh
  | succ round induction =>
      apply Tracks.succ
      · apply induction
        intro earlier before
        apply built earlier (Nat.lt_succ_of_lt before)
      · apply built round (Nat.lt_succ_self round)

theorem Tracks.isolated {round : Nat} {call : PutMany}
    (tracks : Tracks deadline script count round call) :
    Isolated deadline script count round call where
  status := tracks.status
  results := by
    obtain ⟨table, results, owned⟩ := tracks.results
    rw [results, List.map_map]
    apply List.map_congr_left
    intro entry member
    exact owned entry (List.mem_range.mp member)
  executed := tracks.executed

/-- An entry that is reached and whose operation is not given a value with a
marked field ends the call. -/
theorem unbuilt_raises {round entry : Nat}
    (isolated : Isolated deadline script count round
      (after ⟨false, deadline⟩ script count round))
    (member : entry ∈ unsettled deadline script count round)
    (opened : (script round entry).opening = none)
    (unbuilt : (script round entry).built ≠ .ok .marked) :
    ∃ exc, (after ⟨false, deadline⟩ script count (round + 1)).status =
      .raised exc := by
  rw [after_succ isolated.status]
  split
  case h_1 empty => simp [empty] at member
  case h_2 =>
    apply (round_stops _).1
    refine ⟨(entry, script round entry),
      List.mem_map.mpr ⟨entry, member, rfl⟩, ?_⟩
    cases built : (script round entry).built with
    | error exc =>
        left
        simp [Attempt.beginRaise, opened, built]
    | ok leaves =>
        right
        refine ⟨opened, .inl ?_⟩
        cases leaves with
        | unmarked | view => simp [Attempt.marked, built]
        | marked => exact (unbuilt built).elim

/-- A list put keeps its entries apart exactly when every operation that is
begun is given a value with a marked field. -/
theorem list_puts_isolate (deadline : Option Int) (script : Script)
    (count : Nat) :
    (∀ round, Isolated deadline script count round
      (after ⟨false, deadline⟩ script count round)) ↔
      AllBuilt deadline script count := by
  constructor
  · intro isolated round entry bound reached opened
    by_contra unbuilt
    obtain ⟨exc, raised⟩ := unbuilt_raises (isolated round)
      (mem_unsettled.mpr ⟨bound, reached⟩) opened unbuilt
    have status := (isolated (round + 1)).status
    rw [raised] at status
    cases pending : unsettled deadline script count (round + 1) with
    | nil => simp [pending, PutStatus.of] at status
    | cons first rest => simp [pending, PutStatus.of] at status
  · intro built round
    apply Tracks.isolated
    apply Tracks.after
    intro earlier _ entry member
    obtain ⟨bound, reached⟩ := mem_unsettled.mp member
    exact built earlier entry bound reached

/-- A value without marks beside one that could be put. -/
def oneUnmarked : Script := fun _ entry =>
  if entry = 0 then { Attempt.success with built := .ok .unmarked }
  else .success

/-- The entry without marks ends the call: there is no list of results, and
the other entry, which would have been executed, is not sent. -/
theorem unmarked_value_fails_others :
    (after ⟨false, none⟩ oneUnmarked 2 1).status =
        .raised (.pva nothingToPut) ∧
      (after ⟨false, none⟩ oneUnmarked 2 1).executed = [] ∧
      executedAlone none oneUnmarked 2 1 = [1] ∧
      ¬∀ round, Isolated none oneUnmarked 2 round
        (after ⟨false, none⟩ oneUnmarked 2 round) := by
  refine ⟨rfl, rfl, rfl, ?_⟩
  intro isolated
  have executed : ([] : List Nat) = [1] := (isolated 1).executed
  simp at executed

end PutMany

end Repics.Pva.Client
