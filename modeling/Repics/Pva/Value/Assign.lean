import Repics.Lib.Dict
import Repics.Pva.Snapshot

/-!
# Assigning Python objects to fields

`assign` walks a dict and the members of a structure together and marks every
leaf it writes.  It stops at the first error, and what was written before
stays written and marked.  How objects are converted to leaves does not matter
for the marks, so the conversions are parameters.
-/

namespace Repics.Pva

/-- The errors that operations of a `Value` raise. -/
inductive PyErr where
  | noSuchField (key : Str)
  | noSuchUnionField (field : Str)
  | unionHasNoMember (name : Str)
  | viewVanished
  | targetNotStructure
  | viewNotRoot
  | conversion (text : Str)
  deriving DecidableEq

/-- How Python objects are read: the entries of a dict or `Value`, in order,
and the field made from an object for a member that is not a structure. -/
structure Conversions (Obj : Type) where
  entries : Obj → Except PyErr (List (Except PyErr Str × Obj))
  convert : FieldDesc → Obj → Except PyErr PvField
  defaultValueFor : FieldDesc → PvField

/-- What an assignment leaves behind, whether or not it raises. -/
structure Outcome (τ : Type) where
  target : τ
  marks : BitSet
  error : Option PyErr

namespace PvField

/-- Replace the first field with a name. -/
def putNamed (name : Str) (field : PvField) :
    List (Str × PvField) → List (Str × PvField)
  | [] => []
  | (label, other) :: rest =>
      if label = name then (label, field) :: rest
      else (label, other) :: putNamed name field rest

/-- Replace the field at the end of a path. -/
def putAt : PvField → List Str → PvField → PvField
  | _, [], new => new
  | .struct structId fields, name :: path, new =>
      match named? fields name with
      | some child =>
          .struct structId (putNamed name (child.putAt path new) fields)
      | none => .struct structId fields
  | field, _ :: _, _ => field

end PvField

section Assign

variable {Obj : Type} (lib : PvData) (conversions : Conversions Obj)

/-- The loop over the entries of a dict; `members` has the way to assign to
each member. -/
def assignEntries
    (members : List (Str × (PvField → Obj → BitSet → Outcome PvField))) :
    List (Except PyErr Str × Obj) → List (Str × PvField) → BitSet →
      Outcome (List (Str × PvField))
  | [], fields, marks => ⟨fields, marks, none⟩
  | (.error error, _) :: _, fields, marks => ⟨fields, marks, some error⟩
  | (.ok key, value) :: entries, fields, marks =>
      match members.find? (fun member => member.1 = key),
        PvField.named? fields key with
      | some (_, assignMember), some target =>
          let outcome := assignMember target value marks
          let fields := PvField.putNamed key outcome.target fields
          match outcome.error with
          | some error => ⟨fields, outcome.marks, some error⟩
          | none => assignEntries members entries fields outcome.marks
      | _, _ => ⟨fields, marks, some (.noSuchField key)⟩

mutual

/-- Assign `obj` into `target`, a field of type `desc` whose bit is `bit`,
marking what changed. -/
def assign : FieldDesc → Nat → PvField → Obj → BitSet → Outcome PvField
  | .struct _ fields, bit, target, obj, marks =>
      match conversions.entries obj with
      | .error error => ⟨target, marks, some error⟩
      | .ok entries =>
          match target with
          | .struct structId subs =>
              let outcome := assignEntries (assignMembers fields (bit + 1))
                entries subs marks
              ⟨.struct structId outcome.target, outcome.marks, outcome.error⟩
          | _ => ⟨target, marks, some .targetNotStructure⟩
  | desc, bit, target, obj, marks =>
      match conversions.convert desc obj with
      | .error error => ⟨target, marks, some error⟩
      | .ok field => ⟨field, insert bit marks, none⟩

def assignMembers : List (Str × FieldDesc) → Nat →
    List (Str × (PvField → Obj → BitSet → Outcome PvField))
  | [], _ => []
  | (name, desc) :: rest, bit =>
      (name, assign desc bit) ::
        assignMembers rest (bit + lib.totalBits desc)

end

end Assign

section Written

variable {Obj : Type} (conversions : Conversions Obj)

/-- The paths written by the entries of a dict up to the first error, and
whether there was none. -/
def writtenEntries
    (members : List (Str × (Obj → List (List Str) × Bool))) :
    List (Except PyErr Str × Obj) → List (List Str) × Bool
  | [] => ([], true)
  | (.error _, _) :: _ => ([], false)
  | (.ok key, value) :: entries =>
      match members.find? (fun member => member.1 = key) with
      | some (_, writtenMember) =>
          let here := (writtenMember value).1.map (key :: ·)
          if (writtenMember value).2 then
            (here ++ (writtenEntries members entries).1,
              (writtenEntries members entries).2)
          else (here, false)
      | none => ([], false)

mutual

/-- The paths of the leaves that assigning an object writes, and whether the
assignment gets to its end. -/
def written : FieldDesc → Obj → List (List Str) × Bool
  | .struct _ fields, obj =>
      match conversions.entries obj with
      | .error _ => ([], false)
      | .ok entries => writtenEntries (writtenMembers fields) entries
  | desc, obj =>
      match conversions.convert desc obj with
      | .error _ => ([], false)
      | .ok _ => ([[]], true)

def writtenMembers : List (Str × FieldDesc) →
    List (Str × (Obj → List (List Str) × Bool))
  | [] => []
  | (name, desc) :: rest => (name, written desc) :: writtenMembers rest

end

end Written

namespace PvField

theorem FitMembers.putNamed {members : List (Str × FieldDesc)}
    {fields : List (Str × PvField)} (fits : FitMembers members fields)
    {name : Str} {child : FieldDesc} {field : PvField}
    (found : FieldDesc.named? members name = some child)
    (childFits : Fits child field) :
    FitMembers members (putNamed name field fields) := by
  induction members generalizing fields with
  | nil => simp at found
  | cons entry members induction =>
      obtain ⟨label, desc⟩ := entry
      cases fields with
      | nil => simp [FitMembers] at fits
      | cons fieldEntry fields =>
          obtain ⟨fieldLabel, other⟩ := fieldEntry
          simp only [FitMembers] at fits
          obtain ⟨rfl, headFits, tailFits⟩ := fits
          rw [FieldDesc.named?_cons] at found
          by_cases same : fieldLabel = name
          · simp only [same, if_true, Option.some.injEq] at found
            simp only [PvField.putNamed, same, if_true, FitMembers, true_and]
            exact ⟨found ▸ childFits, tailFits⟩
          · simp only [same, if_false] at found
            simp only [PvField.putNamed, same, if_false, FitMembers, true_and]
            exact ⟨headFits, induction tailFits found⟩

theorem Fits.putAt {desc sub : FieldDesc} {field new : PvField}
    (fits : Fits desc field) {path : List Str}
    (found : desc.atPath? path = some sub) (newFits : Fits sub new) :
    Fits desc (field.putAt path new) := by
  induction path generalizing desc field with
  | nil =>
      simp only [FieldDesc.atPath?_nil, Option.some.injEq] at found
      simpa [PvField.putAt, found] using newFits
  | cons name path induction =>
      rw [FieldDesc.atPath?_cons] at found
      obtain ⟨child, childFound, rest⟩ := Option.bind_eq_some_iff.mp found
      cases desc with
      | struct structId members =>
          cases field with
          | struct fieldId fields =>
              simp only [Fits] at fits
              simp only [FieldDesc.member?] at childFound
              obtain ⟨target, targetFound, targetFits⟩ :=
                fits.2.exists_named childFound
              have put : (PvField.struct fieldId fields).putAt
                  (name :: path) new =
                .struct fieldId
                  (putNamed name (target.putAt path new) fields) := by
                simp [PvField.putAt, targetFound]
              rw [put]
              exact ⟨fits.1,
                fits.2.putNamed childFound (induction targetFits rest)⟩
          | _ => simp [Fits] at fits
      | _ => simp [FieldDesc.member?] at childFound

end PvField

/-- The outcome has written the leaves at the paths and nothing else. -/
structure Outcome.Wrote (outcome : Outcome PvField) (desc : FieldDesc)
    (bit : Nat) (marks : BitSet) (result : List (List Str) × Bool) :
    Prop where
  fits : PvField.Fits desc outcome.target
  leaves : ∀ path ∈ result.1, desc.IsLeaf path
  marked : ∀ number, number ∈ outcome.marks ↔ number ∈ marks ∨
    ∃ path ∈ result.1, ∃ index,
      desc.tree.index? path = some index ∧ number = bit + index
  error : outcome.error.isNone = result.2

theorem Outcome.Wrote.nothing {desc : FieldDesc} {target : PvField}
    (fits : PvField.Fits desc target) (bit : Nat) (marks : BitSet)
    (error : Option PyErr) :
    (Outcome.mk target marks error).Wrote desc bit marks
      ([], error.isNone) where
  fits := fits
  leaves := by simp
  marked := by simp
  error := rfl

section Spec

variable {Obj : Type} {lib : PvData} {conversions : Conversions Obj}

theorem find_assignMembers (lawful : lib.Lawful)
    {fields : List (Str × FieldDesc)} {key : Str} {child : FieldDesc}
    {before : Nat} (found : FieldDesc.named? fields key = some child)
    (offset : LabelTree.offset? (FieldDesc.memberTrees fields) key =
      some before) (bit : Nat) :
    (assignMembers lib conversions fields bit).find?
        (fun member => member.1 = key) =
      some (key, assign lib conversions child (bit + before)) := by
  induction fields generalizing bit before with
  | nil => simp at found
  | cons entry rest induction =>
      obtain ⟨label, desc⟩ := entry
      rw [FieldDesc.named?_cons] at found
      simp only [FieldDesc.memberTrees, LabelTree.offset?] at offset
      by_cases same : label = key
      · simp only [same, if_true, Option.some.injEq] at found offset
        subst found offset
        simp [assignMembers, same]
      · simp only [same, if_false, Option.map_eq_some_iff] at found offset
        obtain ⟨later, laterOffset, rfl⟩ := offset
        simpa [assignMembers, same, lawful.totalBits_eq, Nat.add_assoc] using
          induction found laterOffset (bit + lib.totalBits desc)

theorem find_assignMembers_none {fields : List (Str × FieldDesc)}
    {key : Str} (absent : FieldDesc.named? fields key = none) (bit : Nat) :
    (assignMembers lib conversions fields bit).find?
      (fun member => member.1 = key) = none := by
  induction fields generalizing bit with
  | nil => rfl
  | cons entry rest induction =>
      obtain ⟨label, desc⟩ := entry
      rw [FieldDesc.named?_cons] at absent
      by_cases same : label = key
      · simp [same] at absent
      · simp only [same, if_false] at absent
        simpa [assignMembers, same] using induction absent _

theorem writtenMembers_eq (fields : List (Str × FieldDesc)) :
    writtenMembers conversions fields =
      fields.map fun member => (member.1, written conversions member.2) := by
  induction fields with
  | nil => rfl
  | cons entry rest induction =>
      rw [writtenMembers, induction, List.map_cons]

theorem find_writtenMembers (fields : List (Str × FieldDesc)) (key : Str) :
    (writtenMembers conversions fields).find?
        (fun member => member.1 = key) =
      (FieldDesc.named? fields key).map
        fun child => (key, written conversions child) := by
  rw [writtenMembers_eq]
  exact Dict.find?_mapped _ fields key

theorem Outcome.Wrote.member {structId : Str}
    {fields : List (Str × FieldDesc)} {subs : List (Str × PvField)}
    (fit : PvField.FitMembers fields subs) {key : Str} {child : FieldDesc}
    {before bit : Nat} {marks : BitSet} {outcome : Outcome PvField}
    {result : List (List Str) × Bool}
    (wrote : outcome.Wrote child (bit + (1 + before)) marks result)
    (found : FieldDesc.named? fields key = some child)
    (index : (FieldDesc.struct structId fields).tree.index? [key] =
      some (1 + before)) :
    Outcome.Wrote
      ⟨.struct structId (PvField.putNamed key outcome.target subs),
        outcome.marks, outcome.error⟩
      (.struct structId fields) bit marks
      (result.1.map (key :: ·), result.2) where
  fits := by
    simp only [PvField.Fits, true_and]
    exact fit.putNamed found wrote.fits
  leaves := by
    intro path member
    obtain ⟨rest, restMember, rfl⟩ := List.mem_map.mp member
    exact (FieldDesc.isLeaf_cons_iff _ key rest).mpr
      ⟨child, found, wrote.leaves rest restMember⟩
  marked := by
    have memberFound :
        (FieldDesc.struct structId fields).member? key = some child := found
    have below := FieldDesc.index?_member memberFound index
    intro number
    rw [wrote.marked number]
    apply or_congr_right
    constructor
    · intro written
      obtain ⟨path, member, inner, innerIndex, rfl⟩ := written
      exact ⟨key :: path, List.mem_map_of_mem member, 1 + before + inner,
        by rw [below, innerIndex, Option.map_some], by omega⟩
    · intro written
      obtain ⟨_, member, inner, innerIndex, rfl⟩ := written
      obtain ⟨path, pathMember, rfl⟩ := List.mem_map.mp member
      rw [below, Option.map_eq_some_iff] at innerIndex
      obtain ⟨deep, deepIndex, rfl⟩ := innerIndex
      exact ⟨path, pathMember, deep, deepIndex, by omega⟩
  error := wrote.error

theorem Outcome.Wrote.andThen {desc : FieldDesc} {bit : Nat}
    {marks : BitSet} {first second : Outcome PvField}
    {left right : List (List Str) × Bool}
    (firstWrote : first.Wrote desc bit marks left)
    (secondWrote : second.Wrote desc bit first.marks right) :
    second.Wrote desc bit marks (left.1 ++ right.1, right.2) where
  fits := secondWrote.fits
  leaves path member := by
    rcases List.mem_append.mp member with inLeft | inRight
    · exact firstWrote.leaves path inLeft
    · exact secondWrote.leaves path inRight
  marked number := by
    rw [secondWrote.marked, firstWrote.marked, or_assoc]
    simp only [List.mem_append, or_and_right, exists_or]
  error := secondWrote.error

theorem assignEntries_wrote (lawful : lib.Lawful) {structId : Str}
    {fields : List (Str × FieldDesc)}
    (members : ∀ name child, (name, child) ∈ fields →
      ∀ bit target obj marks, PvField.Fits child target →
        (assign lib conversions child bit target obj marks).Wrote child bit
          marks (written conversions child obj))
    (bit : Nat) (entries : List (Except PyErr Str × Obj))
    {subs : List (Str × PvField)} (fit : PvField.FitMembers fields subs)
    (marks : BitSet) {outcome : Outcome (List (Str × PvField))}
    (result : outcome = assignEntries
      (assignMembers lib conversions fields (bit + 1)) entries subs marks) :
    Outcome.Wrote
      ⟨.struct structId outcome.target, outcome.marks, outcome.error⟩
      (.struct structId fields) bit marks
      (writtenEntries (writtenMembers conversions fields) entries) := by
  subst result
  have structFits {subs : List (Str × PvField)}
      (fit : PvField.FitMembers fields subs) :
      PvField.Fits (.struct structId fields) (.struct structId subs) := by
    simpa [PvField.Fits] using fit
  induction entries generalizing subs marks with
  | nil => exact .nothing (structFits fit) bit marks none
  | cons entry entries induction =>
      obtain ⟨key, value⟩ := entry
      cases key with
      | error error => exact .nothing (structFits fit) bit marks (some error)
      | ok key =>
          cases found : FieldDesc.named? fields key with
          | none =>
              simp only [assignEntries, writtenEntries,
                find_assignMembers_none found, find_writtenMembers, found,
                Option.map_none]
              exact .nothing (structFits fit) bit marks (some (.noSuchField key))
          | some child =>
              obtain ⟨before, offset, index⟩ :=
                FieldDesc.named?_offset found structId
              obtain ⟨target, targetFound, targetFits⟩ :=
                fit.exists_named found
              have wrote := members key child (FieldDesc.named?_mem found)
                (bit + (1 + before)) target value marks targetFits
              simp only [assignEntries, writtenEntries,
                find_assignMembers lawful found offset, targetFound,
                find_writtenMembers, found, Option.map_some, Nat.add_assoc]
              have inside := wrote.member fit found index
              cases error : (assign lib conversions child
                  (bit + (1 + before)) target value marks).error with
              | some stopped =>
                  have incomplete := wrote.error
                  simp only [error, Option.isNone_some] at incomplete
                  simpa [← incomplete, error] using inside
              | none =>
                  have complete := wrote.error
                  simp only [error, Option.isNone_none] at complete
                  simpa [← complete] using inside.andThen
                    (induction (fit.putNamed found wrote.fits) _)

/-- An assignment writes the leaves it says and marks exactly these. -/
theorem assign_wrote (lawful : lib.Lawful) (desc : FieldDesc) (bit : Nat)
    {target : PvField} (fits : PvField.Fits desc target) (obj : Obj)
    (marks : BitSet) :
    (assign lib conversions desc bit target obj marks).Wrote desc bit marks
      (written conversions desc obj) := by
  induction desc using FieldDesc.memberInduction
      generalizing bit target obj marks with
  | struct structId fields members =>
      cases target with
      | struct targetId subs =>
          obtain ⟨rfl, fit⟩ : targetId = structId ∧
              PvField.FitMembers fields subs := by
            simpa [PvField.Fits] using fits
          simp only [assign, written]
          cases conversions.entries obj with
          | error error => exact .nothing fits bit marks (some error)
          | ok entries =>
              refine assignEntries_wrote lawful ?_ bit entries fit marks rfl
              intro name child member bit target obj marks childFits
              exact members name child member bit childFits obj marks
      | _ => simp [PvField.Fits] at fits
  | other desc notStructure =>
      have leaf : desc.IsLeaf [] :=
        ⟨desc, FieldDesc.atPath?_nil desc, notStructure⟩
      cases desc with
      | struct _ _ => simp [FieldDesc.IsStructure] at notStructure
      | _ =>
          simp only [assign, written]
          split
          · exact .nothing fits bit marks _
          · exact {
              fits := by simp [PvField.Fits]
              leaves := by simpa using leaf
              marked := by
                intro number
                simp [or_comm]
              error := rfl }

end Spec

end Repics.Pva
