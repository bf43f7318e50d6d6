import Repics.Pva.Value.Marks

/-!
# Normative types

An NTScalar value carries `alarm` and `timeStamp` beside its payload.  What
`unwrap` returns keeps the `Value` it came from as `raw`, and wrapping it again
annotates that `Value` with its own time stamp.  The time stamp passes through
a float on the way, which is a parameter here, as are the Python objects that
`__setitem__` is given.
-/

namespace Repics.Pva

/-- A node assigned to gets marks at and below its own path only. -/
theorem Root.marked_assignAt {Obj : Type} {lib : PvData}
    (lawful : lib.Lawful) (conversions : Conversions Obj) {root : Root}
    (fits : PvField.Fits root.desc root.field) {path : List Str}
    (named : Named path) (obj : Obj) (missing : PyErr) {number : Nat}
    (marked : number ∈
      (root.assignAt lib conversions (dotted path) obj missing).1.marks) :
    number ∈ root.marks ∨
      ∃ rest, root.desc.tree.index? (path ++ rest) = some number := by
  cases found : root.desc.atPath? path with
  | none =>
      simp only [Root.assignAt, descAt_dotted _ named, found] at marked
      exact .inl marked
  | some sub =>
      obtain ⟨target, targetFound, targetFits⟩ := fits.atPath? found
      obtain ⟨subtree, bit, index⟩ := exists_index found
      have wrote := @assign_wrote Obj lib conversions lawful sub bit target
        targetFits obj root.marks
      simp only [Root.assignAt, descAt_dotted _ named, found,
        fieldAt_dotted _ named, targetFound,
        lawful.bitForPath_dotted _ _ named, index,
        Option.getD_some] at marked
      rcases (wrote.marked number).mp marked with old | new
      · exact .inl old
      · obtain ⟨rest, -, inner, innerIndex, rfl⟩ := new
        refine .inr ⟨rest, ?_⟩
        rw [LabelTree.index?_append subtree index rest, innerIndex,
          Option.map_some]

namespace Nt

def alarm : FieldDesc :=
  .struct "alarm_t".toList [("severity".toList, .scalar .int),
    ("status".toList, .scalar .int), ("message".toList, .scalar .string)]

def timeStamp : FieldDesc :=
  .struct "time_t".toList [("secondsPastEpoch".toList, .scalar .long),
    ("nanoseconds".toList, .scalar .int), ("userTag".toList, .scalar .int)]

/-- `NTScalar.buildType` of a scalar without further metadata. -/
def scalarType (value : FieldDesc) (extra : List (Str × FieldDesc)) :
    FieldDesc :=
  .struct "epics:nt/NTScalar:1.0".toList
    ([("value".toList, value), ("alarm".toList, alarm),
      ("timeStamp".toList, timeStamp)] ++ extra)

/-- Seconds and nanoseconds. -/
structure Stamp where
  seconds : Int
  nanoseconds : Int
  deriving DecidableEq

/-- The integer in a field, zero where there is none. -/
def intAt (root : Root) (path : Str) : Int :=
  match fieldAt root.field path with
  | some (.scalar (.long value)) => value.toInt
  | some (.scalar (.int value)) => value.toInt
  | _ => 0

def stampOf (root : Root) : Stamp :=
  match descAt root.desc "timeStamp".toList with
  | none => ⟨0, 0⟩
  | some _ => ⟨intAt root "timeStamp.secondsPastEpoch".toList,
      intAt root "timeStamp.nanoseconds".toList⟩

section Annotate

variable {Obj : Type} (lib : PvData) (conversions : Conversions Obj)

/-- Item assignments in order, up to the first that raises. -/
def setItems (root : Root) : List (Str × Obj) → Except PyErr Root
  | [] => .ok root
  | (key, obj) :: rest =>
      match root.setItem lib conversions [] key obj with
      | (_, some error) => .error error
      | (next, none) => setItems next rest

/-- Set the metadata that is given. -/
def annotate (root : Root) (timestamp severity message : Option Obj) :
    Except PyErr Root :=
  setItems lib conversions root
    ((severity.toList.map fun obj => ("alarm.severity".toList, obj)) ++
      (message.toList.map fun obj => ("alarm.message".toList, obj)) ++
      timestamp.toList.map fun obj => ("timeStamp".toList, obj))

variable (viaFloat : Stamp → Stamp) (stampDict : Stamp → Obj)

/-- `NTScalar.wrap` of an augmented value whose `raw` is the given one. -/
def wrapAugmented (raw : Root) : Except PyErr Root :=
  annotate lib conversions raw (some (stampDict (viaFloat (stampOf raw))))
    none none

variable {lib}

theorem covered_wrapAugmented (lawful : lib.Lawful) {raw wrapped : Root}
    (fits : PvField.Fits raw.desc raw.field)
    (result : wrapAugmented lib conversions viaFloat stampDict raw =
      .ok wrapped) :
    wrapped.desc = raw.desc ∧
      ∀ path, wrapped.desc.Covered 0 wrapped.marks path →
        raw.desc.Covered 0 raw.marks path ∨
          ["timeStamp".toList] <+: path := by
  have named : Named ["timeStamp".toList] := by
    simp [Named, Separated.IsKey]
  simp only [wrapAugmented, annotate, Option.toList_none, List.map_nil,
    List.nil_append, Option.toList_some, List.map_cons, setItems] at result
  generalize stampDict (viaFloat (stampOf raw)) = obj at result
  split at result
  case h_1 => simp at result
  case h_2 next equal =>
    simp only [Except.ok.injEq] at result
    subst result
    have assigned : raw.assignAt lib conversions
        (dotted ["timeStamp".toList]) obj (.noSuchField "timeStamp".toList) =
          (next, none) := equal
    have sameDesc : next.desc = raw.desc := by
      have kept : (raw.assignAt lib conversions
          (dotted ["timeStamp".toList]) obj
            (.noSuchField "timeStamp".toList)).1.desc = raw.desc := by
        simp only [Root.assignAt]
        split <;> rfl
      rwa [assigned] at kept
    refine ⟨sameDesc, ?_⟩
    intro path covered
    obtain ⟨front, number, isPrefix, index, member⟩ := covered
    have marked := @Root.marked_assignAt Obj lib lawful conversions raw fits
      ["timeStamp".toList] named obj (.noSuchField "timeStamp".toList)
      (0 + number)
    rw [assigned] at marked
    rw [sameDesc] at index
    rcases marked member with old | new
    · exact .inl ⟨front, number, isPrefix, index, old⟩
    · obtain ⟨rest, newIndex⟩ := new
      rw [Nat.zero_add] at newIndex
      have same := LabelTree.index?_injective newIndex index
      apply Or.inr
      rw [← same] at isPrefix
      apply (List.prefix_append _ rest).trans isPrefix

end Annotate

end Nt

end Repics.Pva
