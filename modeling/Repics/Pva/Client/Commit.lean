import Mathlib.Data.List.Nodup
import Mathlib.Logic.Function.Basic
import Repics.Pva.Client.Put
import Repics.Pva.Value.Root

/-!
# Committing

A put that was begun is held by its `PutOp` until a commit takes it.  Both ways
to commit take the operation first and look at the value afterwards, and the
batched one does so entry by entry.  So a call that raises keeps what it took,
and an operation that it took is gone although nothing was sent.
-/

namespace Repics.Pva.Client

/-- A `Value` to be put: its root and the path of the view. -/
structure PutValue where
  root : Root
  view : Str

abbrev PutLeaves := List (Str × PvField)

/-- The operations by the `PutOp` that holds them, `none` once taken. -/
abbrev PutOps (Op : Type) := Nat → Option Op

def alreadyCommitted : PvaError :=
  ⟨.error, "put already committed"⟩

section Commit

variable (lib : PvData)

/-- `put_leaves`: a view of a member and a value without marks are refused. -/
def putLeaves (value : PutValue) : Except Exc PutLeaves :=
  match value.root.markedLeaves lib value.view with
  | .error _ => .error (.other "TypeError")
  | .ok [] => .error (.pva nothingToPut)
  | .ok (leaf :: leaves) => .ok (leaf :: leaves)

/-- A value, as far as an attempt at a put tells. -/
def PutValue.leaves (value : PutValue) : Leaves :=
  match value.root.markedLeaves lib value.view with
  | .error _ => .view
  | .ok [] => .unmarked
  | .ok (_ :: _) => .marked

namespace PutOps

variable {Op : Type}

/-- What a call returns or raises, and what the `PutOp`s hold afterwards. -/
abbrev Result (Op α : Type) := Except Exc α × PutOps Op

def take (ops : PutOps Op) (op : Nat) : Result Op Op :=
  match ops op with
  | some inner => (.ok inner, Function.update ops op none)
  | none => (.error (.pva alreadyCommitted), ops)

/-- `take` and `put_leaves` for one entry. -/
def prepare (ops : PutOps Op) (op : Nat) (value : PutValue) :
    Result Op (Op × PutLeaves) :=
  match ops.take op with
  | (.error exc, after) => (.error exc, after)
  | (.ok inner, after) =>
      match putLeaves lib value with
      | .error exc => (.error exc, after)
      | .ok leaves => (.ok (inner, leaves), after)

/-- The loop of `put_commit_many`: what is to be sent when it ends. -/
def prepareAll (ops : PutOps Op) :
    List (Nat × PutValue) → Result Op (List (Op × PutLeaves))
  | [] => (.ok [], ops)
  | (op, value) :: rest =>
      match ops.prepare lib op value with
      | (.error exc, after) => (.error exc, after)
      | (.ok sent, after) =>
          match after.prepareAll rest with
          | (.error exc, last) => (.error exc, last)
          | (.ok others, last) => (.ok (sent :: others), last)

/-- `put_commit_many` up to the moment when every PUT is sent. -/
def putCommitMany (ops : PutOps Op) (entries : List Nat)
    (values : List PutValue) : Result Op (List (Op × PutLeaves)) :=
  if entries.length = values.length then
    ops.prepareAll lib (entries.zip values)
  else (.error .valueError, ops)

/-- `commit_async` up to the moment when the PUT is sent. -/
def commitAsync (ops : PutOps Op) (op : Nat) (value : PutValue) :
    Result Op (Op × PutLeaves) :=
  ops.prepare lib op value

/-- A commit of the `PutOp` with a proper value sends its operation, either
way. -/
def Sends (ops : PutOps Op) (op : Nat) (inner : Op) : Prop :=
  ∀ value leaves, putLeaves lib value = .ok leaves →
    (ops.commitAsync lib op value).1 = .ok (inner, leaves) ∧
      (ops.putCommitMany lib [op] [value]).1 = .ok [(inner, leaves)]

/-- When the call raises, whatever was held before still is and can be
sent. -/
def ConsumesNothing {α : Type} (ops : PutOps Op) (result : Result Op α) :
    Prop :=
  ∀ exc, result.1 = .error exc → ∀ op inner, ops op = some inner →
    result.2 op = some inner ∧ result.2.Sends lib op inner

/-- The value can be sent. -/
def Proper (value : PutValue) : Prop :=
  ∃ leaves, putLeaves lib value = .ok leaves

/-- Nothing can be taken for a call that raises: it is refused for the number
of its values, its first `PutOp` holds nothing, or every entry is in order. -/
def Orderly (ops : PutOps Op) (entries : List Nat)
    (values : List PutValue) : Prop :=
  entries.length ≠ values.length ∨
    (∃ op, entries.head? = some op ∧ ops op = none) ∨
    (entries.Nodup ∧ (∀ op ∈ entries, ops op ≠ none) ∧
      ∀ value ∈ values, Proper lib value)

end PutOps

end Commit

namespace PutOps

variable {Op : Type} {lib : PvData} {ops : PutOps Op}

theorem take_some {op : Nat} {inner : Op} (held : ops op = some inner) :
    ops.take op = (.ok inner, Function.update ops op none) := by
  simp [take, held]

theorem take_none {op : Nat} (held : ops op = none) :
    ops.take op = (.error (.pva alreadyCommitted), ops) := by
  simp [take, held]

theorem prepare_none {op : Nat} (held : ops op = none) (value : PutValue) :
    ops.prepare lib op value = (.error (.pva alreadyCommitted), ops) := by
  rw [prepare, take_none held]

theorem prepare_some {op : Nat} {inner : Op} (held : ops op = some inner)
    (value : PutValue) :
    ops.prepare lib op value =
      ((putLeaves lib value).map fun leaves => (inner, leaves),
        Function.update ops op none) := by
  rw [prepare, take_some held]
  cases putLeaves lib value with
  | error exc => rfl
  | ok leaves => rfl

theorem Sends.of_held {op : Nat} {inner : Op}
    (held : ops op = some inner) : ops.Sends lib op inner := by
  intro value leaves proper
  have prepared : ops.prepare lib op value =
      (.ok (inner, leaves), Function.update ops op none) := by
    rw [prepare_some held, proper]
    rfl
  constructor
  · rw [commitAsync, prepared]
  · simp [putCommitMany, prepareAll, prepared]

theorem ConsumesNothing.of_same {α : Type} {result : Result Op α}
    (same : result.2 = ops) : ops.ConsumesNothing lib result := by
  intro exc raised op inner held
  rw [same]
  exact ⟨held, .of_held held⟩

/-- A call that raises after it has taken something consumes it. -/
theorem not_consumesNothing {α : Type} {result : Result Op α} {exc : Exc}
    {op : Nat} {inner : Op} (raised : result.1 = .error exc)
    (held : ops op = some inner) (gone : result.2 op = none) :
    ¬ops.ConsumesNothing lib result := by
  intro nothing
  have still := (nothing exc raised op inner held).1
  rw [gone] at still
  cases still

theorem prepare_none_stays (lib : PvData) (ops : PutOps Op) (op : Nat)
    (value : PutValue) {other : Nat} (gone : ops other = none) :
    (ops.prepare lib op value).2 other = none := by
  cases held : ops op with
  | none =>
      rw [prepare_none held]
      exact gone
  | some inner =>
      rw [prepare_some held]
      change Function.update ops op none other = none
      by_cases same : other = op
      · rw [same, Function.update_self]
      · rw [Function.update_of_ne same]
        exact gone

theorem prepareAll_none_stays (ops : PutOps Op)
    (entries : List (Nat × PutValue)) {other : Nat}
    (gone : ops other = none) :
    (ops.prepareAll lib entries).2 other = none := by
  fun_induction prepareAll lib ops entries with
  | case1 ops => exact gone
  | case2 ops op value rest exc after prepared =>
      have stays := prepare_none_stays lib ops op value gone
      rwa [prepared] at stays
  | case3 ops op value rest sent after prepared exc last others induction =>
      have stays := prepare_none_stays lib ops op value gone
      rw [prepared] at stays
      have rest := induction stays
      rwa [others] at rest
  | case4 ops op value rest sent after prepared others last is induction =>
      have stays := prepare_none_stays lib ops op value gone
      rw [prepared] at stays
      have rest := induction stays
      rwa [is] at rest

theorem prepareAll_cons_ok (ops : PutOps Op) {op : Nat} {inner : Op}
    (held : ops op = some inner) {value : PutValue} {leaves : PutLeaves}
    (proper : putLeaves lib value = .ok leaves)
    (rest : List (Nat × PutValue)) :
    ops.prepareAll lib ((op, value) :: rest) =
      let others := prepareAll lib (Function.update ops op none) rest
      (others.1.map ((inner, leaves) :: ·), others.2) := by
  rw [prepareAll, prepare_some held, proper]
  simp only [Except.map]
  split <;> simp [*]

theorem prepareAll_ok_iff (ops : PutOps Op)
    (entries : List (Nat × PutValue)) :
    (∃ sent, (ops.prepareAll lib entries).1 = .ok sent) ↔
      (entries.map Prod.fst).Nodup ∧
        (∀ entry ∈ entries, ops entry.1 ≠ none) ∧
        ∀ entry ∈ entries, Proper lib entry.2 := by
  induction entries generalizing ops with
  | nil => simp [prepareAll]
  | cons entry rest induction =>
      obtain ⟨op, value⟩ := entry
      cases held : ops op with
      | none => simp [prepareAll, prepare_none held, held]
      | some inner =>
          cases proper : putLeaves lib value with
          | error exc =>
              simp [prepareAll, prepare_some held, proper, Proper, Except.map]
          | ok leaves =>
              rw [prepareAll_cons_ok ops held proper]
              have fresh := induction (Function.update ops op none)
              have remains : (∃ sent, ((prepareAll lib
                  (Function.update ops op none) rest).1.map
                    ((inner, leaves) :: ·)) = .ok sent) ↔
                  ∃ sent, (prepareAll lib (Function.update ops op none)
                    rest).1 = .ok sent := by
                cases (prepareAll lib (Function.update ops op none) rest).1
                  <;> simp [Except.map]
              have apart : (∀ entry ∈ rest,
                  Function.update ops op none entry.1 ≠ none) ↔
                  op ∉ rest.map Prod.fst ∧
                    ∀ entry ∈ rest, ops entry.1 ≠ none := by
                constructor
                · intro others
                  constructor
                  · intro member
                    obtain ⟨entry, inRest, rfl⟩ := List.mem_map.mp member
                    exact others entry inRest (Function.update_self ..)
                  · intro entry member gone
                    apply others entry member
                    by_cases same : entry.1 = op
                    · rw [same, Function.update_self]
                    · rw [Function.update_of_ne same, gone]
                · rintro ⟨absent, others⟩ entry member
                  have other : entry.1 ≠ op := by
                    rintro rfl
                    exact absent (List.mem_map_of_mem member)
                  rw [Function.update_of_ne other]
                  exact others entry member
              have own : Proper lib value := ⟨leaves, proper⟩
              simp only [remains, fresh, apart, List.map_cons,
                List.nodup_cons, List.forall_mem_cons, held, own]
              simp only [ne_eq, reduceCtorEq, not_false_eq_true, true_and]
              constructor
              · rintro ⟨distinct, ⟨absent, others⟩, values⟩
                exact ⟨⟨absent, distinct⟩, others, values⟩
              · rintro ⟨⟨absent, distinct⟩, others, values⟩
                exact ⟨distinct, ⟨absent, others⟩, values⟩

theorem prepareAll_first (ops : PutOps Op) {op : Nat} {inner : Op}
    (held : ops op = some inner) (value : PutValue)
    (rest : List (Nat × PutValue)) :
    (ops.prepareAll lib ((op, value) :: rest)).2 op = none := by
  have gone : Function.update ops op none op = none :=
    Function.update_self ..
  cases proper : putLeaves lib value with
  | error exc =>
      simpa only [prepareAll, prepare_some held, proper, Except.map]
  | ok leaves =>
      rw [prepareAll_cons_ok ops held proper]
      exact prepareAll_none_stays _ rest gone

theorem zip_orderly_iff {entries : List Nat} {values : List PutValue}
    (length : entries.length = values.length) :
    ((entries.zip values).map Prod.fst).Nodup ∧
        (∀ entry ∈ entries.zip values, ops entry.1 ≠ none) ∧
        (∀ entry ∈ entries.zip values, Proper lib entry.2) ↔
      entries.Nodup ∧ (∀ op ∈ entries, ops op ≠ none) ∧
        ∀ value ∈ values, Proper lib value := by
  have firsts : (entries.zip values).map Prod.fst = entries :=
    List.map_fst_zip (Nat.le_of_eq length)
  have seconds : (entries.zip values).map Prod.snd = values :=
    List.map_snd_zip (Nat.le_of_eq length.symm)
  have held : (∀ entry ∈ entries.zip values, ops entry.1 ≠ none) ↔
      ∀ op ∈ entries, ops op ≠ none := by
    conv_rhs => rw [← firsts]
    simp only [List.forall_mem_map]
  have proper : (∀ entry ∈ entries.zip values, Proper lib entry.2) ↔
      ∀ value ∈ values, Proper lib value := by
    conv_rhs => rw [← seconds]
    simp only [List.forall_mem_map]
  rw [firsts, held, proper]

/-- `put_commit_many` consumes nothing when it raises exactly when it can take
nothing, and `commit_async` when the value is proper or nothing is held. -/
theorem put_consumes_nothing (lib : PvData) (ops : PutOps Op) :
    (∀ entries values,
      ops.ConsumesNothing lib (ops.putCommitMany lib entries values) ↔
        ops.Orderly lib entries values) ∧
    ∀ op value, ops.ConsumesNothing lib (ops.commitAsync lib op value) ↔
      ops op = none ∨ Proper lib value := by
  constructor
  · intro entries values
    rw [putCommitMany, Orderly]
    by_cases length : entries.length = values.length
    · rw [if_pos length]
      simp only [length, ne_eq, not_true_eq_false, false_or]
      rw [← zip_orderly_iff length, ← prepareAll_ok_iff]
      cases ended : (ops.prepareAll lib (entries.zip values)).1 with
      | ok sent =>
          refine iff_of_true (fun exc raised => ?_) (.inr ⟨sent, rfl⟩)
          rw [ended] at raised
          cases raised
      | error exc =>
          simp only [reduceCtorEq, exists_false, or_false]
          cases entries with
          | nil => simp [prepareAll] at ended
          | cons op entries =>
              cases values with
              | nil => cases length
              | cons value values =>
                  rw [List.zip_cons_cons] at ended ⊢
                  cases held : ops op with
                  | none =>
                      refine iff_of_true (.of_same ?_) ⟨op, rfl, held⟩
                      rw [prepareAll, prepare_none held]
                  | some inner =>
                      refine iff_of_false ?_ ?_
                      · exact not_consumesNothing ended held
                          (prepareAll_first ops held value _)
                      · simp [held]
    · rw [if_neg length]
      exact iff_of_true (.of_same rfl) (.inl length)
  · intro op value
    cases held : ops op with
    | none =>
        refine iff_of_true (.of_same ?_) (.inl rfl)
        rw [commitAsync, prepare_none held]
    | some inner =>
        rw [commitAsync, prepare_some held]
        cases proper : putLeaves lib value with
        | ok leaves =>
            refine iff_of_true ?_ (.inr ⟨leaves, proper⟩)
            intro exc raised
            cases raised
        | error exc =>
            refine iff_of_false ?_ ?_
            · exact not_consumesNothing rfl held (Function.update_self ..)
            · simp [Proper, proper]

theorem refusal_leaves (value : PutValue) :
    (value.leaves lib).refusal = none ↔ Proper lib value := by
  unfold PutValue.leaves Proper putLeaves
  cases value.root.markedLeaves lib value.view with
  | error refused => simp [Leaves.refusal]
  | ok leaves =>
      cases leaves with
      | nil => simp [Leaves.refusal]
      | cons leaf leaves => simp [Leaves.refusal]

/-- A round of a list put takes the operations that it began and that nobody
else holds, so it only matters whether the values are proper. -/
theorem putCommitMany_round {entries : List Nat} {values : List PutValue}
    {ready : List (Nat × Attempt)} (distinct : entries.Nodup)
    (held : ∀ op ∈ entries, ops op ≠ none)
    (length : entries.length = values.length)
    (same : List.Forall₂ (fun entry value =>
      entry.2.built = .ok (value.leaves lib)) ready values) :
    (∃ sent, (ops.putCommitMany lib entries values).1 = .ok sent) ↔
      ∃ sent, Client.putCommitMany ready = .ok sent := by
  have values_iff : (∀ value ∈ values, Proper lib value) ↔
      (ready.findSome? fun entry => entry.2.refusal) = none := by
    rw [List.findSome?_eq_none_iff]
    clear length
    induction same with
    | nil => simp
    | cons here _ induction =>
        rw [List.forall_mem_cons, List.forall_mem_cons, induction]
        rw [Attempt.refusal, here]
        exact and_congr_left fun _ => (refusal_leaves _).symm
  rw [putCommitMany, if_pos length, prepareAll_ok_iff,
    zip_orderly_iff length, values_iff, Client.putCommitMany]
  rw [and_iff_right distinct, and_iff_right held]
  split
  · next exc refused => simp [refused]
  · next accepted => simp [accepted]

/-- A structure with one member, none of it marked. -/
def unmarked : PutValue :=
  ⟨⟨.struct [] [("value".toList, .scalar .int)],
    .struct [] [("value".toList, .scalar (.int 0))], ∅⟩, []⟩

/-- The same with its member marked. -/
def marked : PutValue :=
  { unmarked with root := { unmarked.root with marks := {1} } }

/-- Two `PutOp`s that hold an operation each. -/
def begun : PutOps Nat :=
  fun op => if op < 2 then some op else none

def failed : Result Nat (List (Nat × PutLeaves)) :=
  begun.putCommitMany PvData.depthFirst [0, 1] [marked, unmarked]

/-- The value of the second entry has no mark.  Nothing is sent, and neither
operation can be committed any more. -/
theorem failed_commit_consumes :
    failed.1 = .error (.pva nothingToPut) ∧
      (failed.2.commitAsync PvData.depthFirst 0 marked).1 =
        .error (.pva alreadyCommitted) ∧
      (failed.2.commitAsync PvData.depthFirst 1 marked).1 =
        .error (.pva alreadyCommitted) ∧
      ¬begun.ConsumesNothing PvData.depthFirst failed := by
  have raised : failed.1 = .error (.pva nothingToPut) := rfl
  refine ⟨raised, rfl, rfl, ?_⟩
  have held : begun 0 = some 0 := rfl
  exact not_consumesNothing raised held rfl

end PutOps

end Repics.Pva.Client
