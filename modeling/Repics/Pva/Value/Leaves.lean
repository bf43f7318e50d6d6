import Mathlib.Order.Lattice.Nat
import Repics.Pva.Value.Copy
import Repics.Pva.Value.ChangedSet
import Repics.Pva.Value.Typed

/-!
# What an assignment leaves behind

An assignment is a list of leaves with the objects for them, written one after
the other up to the first error.  So the leaves that it marks are those that
it wrote, whether or not it raises, and all other leaves are as they were.
-/

namespace Repics.Pva

namespace PvField

theorem named?_putNamed_ne {name other : Str} (apart : other ≠ name)
    (new : PvField) (fields : List (Str × PvField)) :
    named? (putNamed name new fields) other = named? fields other := by
  induction fields with
  | nil => rfl
  | cons entry fields induction =>
      obtain ⟨label, field⟩ := entry
      rw [putNamed]
      split
      · rename_i same
        have different : ¬label = other := fun is => apart (is ▸ same)
        rw [named?_cons, named?_cons, if_neg different, if_neg different]
      · rw [named?_cons, named?_cons, induction]

theorem putNamed_self {fields : List (Str × PvField)} {name : Str}
    {field : PvField} (found : named? fields name = some field) :
    putNamed name field fields = fields := by
  induction fields with
  | nil => rfl
  | cons entry fields induction =>
      obtain ⟨label, other⟩ := entry
      rw [named?_cons] at found
      rw [putNamed]
      split
      · rename_i same
        rw [if_pos same] at found
        cases found
        rfl
      · rename_i different
        rw [if_neg different] at found
        rw [induction found]

theorem putNamed_putNamed (name : Str) (first second : PvField)
    (fields : List (Str × PvField)) :
    putNamed name second (putNamed name first fields) =
      putNamed name second fields := by
  induction fields with
  | nil => rfl
  | cons entry fields induction =>
      obtain ⟨label, other⟩ := entry
      by_cases same : label = name
      · simp [putNamed, same]
      · simp [putNamed, same, induction]

theorem putAt_self {field found : PvField} {path : List Str}
    (is : field.atPath? path = some found) :
    field.putAt path found = field := by
  induction path generalizing field with
  | nil =>
      rw [atPath?_nil] at is
      cases is
      rw [putAt]
  | cons name path induction =>
      rw [atPath?_cons] at is
      obtain ⟨child, childFound, rest⟩ := Option.bind_eq_some_iff.mp is
      cases field with
      | struct structId fields =>
          have member : named? fields name = some child := childFound
          simp only [putAt, member]
          rw [induction rest, putNamed_self member]
      | _ => cases childFound

theorem putAt_putAt {field old : PvField} {path : List Str}
    (found : field.atPath? path = some old) (first second : PvField) :
    (field.putAt path first).putAt path second =
      field.putAt path second := by
  induction path generalizing field with
  | nil => simp only [putAt]
  | cons name path induction =>
      rw [atPath?_cons] at found
      obtain ⟨child, childFound, rest⟩ := Option.bind_eq_some_iff.mp found
      cases field with
      | struct structId fields =>
          have member : named? fields name = some child := childFound
          simp only [putAt, member, named?_putNamed member,
            putNamed_putNamed]
          rw [induction rest]
      | _ => cases childFound

theorem putAt_append {field target : PvField} {front : List Str}
    (found : field.atPath? front = some target) (path : List Str)
    (new : PvField) :
    field.putAt (front ++ path) new =
      field.putAt front (target.putAt path new) := by
  induction front generalizing field with
  | nil =>
      rw [atPath?_nil] at found
      cases found
      simp only [List.nil_append, putAt]
  | cons name front induction =>
      rw [atPath?_cons] at found
      obtain ⟨child, childFound, rest⟩ := Option.bind_eq_some_iff.mp found
      cases field with
      | struct structId fields =>
          have member : named? fields name = some child := childFound
          simp only [List.cons_append, putAt, member, induction rest]
      | _ => cases childFound

theorem atPath?_putAt_beside {field new : PvField} {path other : List Str}
    (notAbove : ¬path <+: other) (notBelow : ¬other <+: path) :
    (field.putAt path new).atPath? other = field.atPath? other := by
  induction path generalizing field other with
  | nil => exact absurd List.nil_prefix notAbove
  | cons name path induction =>
      cases other with
      | nil => exact absurd List.nil_prefix notBelow
      | cons label other =>
          cases field with
          | struct structId fields =>
              rw [putAt]
              split
              · rename_i child found
                rw [atPath?_cons, atPath?_cons, member?, member?]
                by_cases same : label = name
                · subst same
                  rw [named?_putNamed found, found, Option.bind_some,
                    Option.bind_some]
                  apply induction
                  · exact fun above => notAbove
                      (List.cons_prefix_cons.mpr ⟨rfl, above⟩)
                  · exact fun below => notBelow
                      (List.cons_prefix_cons.mpr ⟨rfl, below⟩)
                · rw [named?_putNamed_ne same]
              · rfl
          | _ => simp only [putAt]

end PvField

section Leaves

variable {Obj : Type} (conversions : Conversions Obj)

/-- What the entries of a dict name, unless one of them is no member. -/
def namedEntries
    (members : List (Str × (Obj → Option (List (List Str × Obj))))) :
    List (Except PyErr Str × Obj) → Option (List (List Str × Obj))
  | [] => some []
  | (.error _, _) :: _ => none
  | (.ok key, value) :: entries =>
      match members.find? (fun member => member.1 = key) with
      | none => none
      | some (_, leaves) =>
          match leaves value, namedEntries members entries with
          | some here, some rest =>
              some (here.map (fun leaf => (key :: leaf.1, leaf.2)) ++ rest)
          | _, _ => none

mutual

/-- The leaves that an object names, each with the object for it, in their
order; `none` if it names something that is not a member. -/
def namedLeaves : FieldDesc → Obj → Option (List (List Str × Obj))
  | .struct _ fields, obj =>
      match conversions.entries obj with
      | .error _ => none
      | .ok entries => namedEntries (memberLeaves fields) entries
  | _, obj => some [([], obj)]

def memberLeaves : List (Str × FieldDesc) →
    List (Str × (Obj → Option (List (List Str × Obj))))
  | [] => []
  | (name, desc) :: rest => (name, namedLeaves desc) :: memberLeaves rest

end

/-- The part of an object at a path of keys. -/
inductive PartAt : Obj → List Str → Obj → Prop where
  | whole (obj : Obj) : PartAt obj [] obj
  | entry {obj value part : Obj} {entries : List (Except PyErr Str × Obj)}
      {key : Str} {path : List Str} :
      conversions.entries obj = .ok entries → (.ok key, value) ∈ entries →
      PartAt value path part → PartAt obj (key :: path) part

/-- A leaf that was written, with the object it was made from. -/
structure LeafWrite (Obj : Type) where
  path : List Str
  obj : Obj
  field : PvField

def LeafWrite.named (write : LeafWrite Obj) : List Str × Obj :=
  (write.path, write.obj)

/-- The write as one of what has the structure of the leaf at a path. -/
def LeafWrite.under (front : List Str) (write : LeafWrite Obj) :
    LeafWrite Obj :=
  { write with path := front ++ write.path }

/-- The fields of the leaves go to their places. -/
def putLeaves (writes : List (LeafWrite Obj)) (field : PvField) : PvField :=
  writes.foldl (fun field write => field.putAt write.path write.field) field

/-- The write makes a leaf of the type from its object. -/
def LeafWrite.Makes (write : LeafWrite Obj) (desc : FieldDesc) : Prop :=
  ∃ leaf, desc.atPath? write.path = some leaf ∧ ¬leaf.IsStructure ∧
    conversions.convert leaf write.obj = .ok write.field

/-- The outcome is that of some writes of leaves, all of parts that the
argument has, and of all that it names if nothing is raised. -/
structure Outcome.Made (outcome : Outcome PvField) (desc : FieldDesc)
    (bit : Nat) (target : PvField) (marks : BitSet)
    (parts : List Str → Obj → Prop)
    (all : Option (List (List Str × Obj)))
    (writes : List (LeafWrite Obj)) : Prop where
  makes : ∀ write ∈ writes, write.Makes conversions desc
  parts : ∀ write ∈ writes, parts write.path write.obj
  target : outcome.target = putLeaves writes target
  marks : ∀ number, number ∈ outcome.marks ↔ number ∈ marks ∨
    ∃ write ∈ writes, ∃ index,
      desc.tree.index? write.path = some index ∧ number = bit + index
  complete : outcome.error = none → all = some (writes.map LeafWrite.named)

end Leaves

section Made

variable {Obj : Type} {lib : PvData} {conversions : Conversions Obj}
  {desc : FieldDesc} {parts : List Str → Obj → Prop}
  {all : Option (List (List Str × Obj))}

theorem memberLeaves_eq (fields : List (Str × FieldDesc)) :
    memberLeaves conversions fields = fields.map fun member =>
      (member.1, namedLeaves conversions member.2) := by
  induction fields with
  | nil => rfl
  | cons entry rest induction =>
      rw [memberLeaves, induction, List.map_cons]

theorem find_memberLeaves (fields : List (Str × FieldDesc)) (key : Str) :
    (memberLeaves conversions fields).find?
        (fun member => member.1 = key) =
      (FieldDesc.named? fields key).map
        fun child => (key, namedLeaves conversions child) := by
  rw [memberLeaves_eq]
  exact Dict.find?_mapped _ fields key

theorem putLeaves_under {field target : PvField} {front : List Str}
    (found : field.atPath? front = some target)
    (writes : List (LeafWrite Obj)) :
    putLeaves (writes.map (.under front)) field =
      field.putAt front (putLeaves writes target) := by
  induction writes generalizing field target with
  | nil => exact (PvField.putAt_self found).symm
  | cons write writes induction =>
      have put := PvField.putAt_append found write.path write.field
      have after : (field.putAt (front ++ write.path)
          write.field).atPath? front =
            some (target.putAt write.path write.field) := by
        rw [put]
        exact PvField.atPath?_putAt found _
      have rest := induction after
      rw [put, PvField.putAt_putAt found] at rest
      simp only [putLeaves, List.map_cons, List.foldl_cons] at rest ⊢
      rw [← rest, LeafWrite.under, put]

theorem Outcome.Made.nothing (bit : Nat) (target : PvField)
    (marks : BitSet) {error : Option PyErr}
    (raises : error = none → all = some []) :
    (Outcome.mk target marks error).Made conversions desc bit target marks
      parts all [] where
  makes := nofun
  parts := nofun
  target := rfl
  marks := by simp
  complete := raises

theorem Outcome.Made.weaken {bit : Nat} {target : PvField}
    {marks : BitSet} {outcome : Outcome PvField}
    {writes : List (LeafWrite Obj)}
    (made : outcome.Made conversions desc bit target marks parts all writes)
    {more : List Str → Obj → Prop}
    {other : Option (List (List Str × Obj))}
    (within : ∀ path part, parts path part → more path part)
    (same : outcome.error = none → all = other) :
    outcome.Made conversions desc bit target marks more other writes where
  makes := made.makes
  parts write member := within _ _ (made.parts write member)
  target := made.target
  marks := made.marks
  complete ended := same ended ▸ made.complete ended

theorem Outcome.Made.andThen {bit : Nat} {target : PvField}
    {marks : BitSet} {first second : Outcome PvField}
    {left right : List (LeafWrite Obj)}
    {leftAll rightAll : Option (List (List Str × Obj))}
    (firstMade : first.Made conversions desc bit target marks parts leftAll
      left) (complete : first.error = none)
    (secondMade : second.Made conversions desc bit first.target first.marks
      parts rightAll right)
    (joined : ∀ here rest, leftAll = some here → rightAll = some rest →
      all = some (here ++ rest)) :
    second.Made conversions desc bit target marks parts all
      (left ++ right) where
  makes write member := by
    rcases List.mem_append.mp member with inLeft | inRight
    · exact firstMade.makes write inLeft
    · exact secondMade.makes write inRight
  parts write member := by
    rcases List.mem_append.mp member with inLeft | inRight
    · exact firstMade.parts write inLeft
    · exact secondMade.parts write inRight
  target := by
    rw [secondMade.target, firstMade.target, putLeaves, putLeaves, putLeaves,
      List.foldl_append]
  marks number := by
    rw [secondMade.marks, firstMade.marks, or_assoc]
    simp only [List.mem_append, or_and_right, exists_or]
  complete ended := by
    rw [List.map_append]
    exact joined _ _ (firstMade.complete complete)
      (secondMade.complete ended)

theorem Outcome.Made.member {structId : Str}
    {fields : List (Str × FieldDesc)} {subs : List (Str × PvField)}
    {key : Str} {child : FieldDesc} {before bit : Nat} {marks : BitSet}
    {target : PvField} {outcome : Outcome PvField}
    {writes : List (LeafWrite Obj)}
    (made : outcome.Made conversions child (bit + (1 + before)) target marks
      parts all writes)
    (found : FieldDesc.named? fields key = some child)
    (targetFound : PvField.named? subs key = some target)
    (index : (FieldDesc.struct structId fields).tree.index? [key] =
      some (1 + before)) :
    Outcome.Made conversions
      ⟨.struct structId (PvField.putNamed key outcome.target subs),
        outcome.marks, outcome.error⟩
      (.struct structId fields) bit (.struct structId subs) marks
      (fun path part => ∃ rest, path = key :: rest ∧ parts rest part)
      (all.map fun leaves => leaves.map fun leaf =>
        (key :: leaf.1, leaf.2))
      (writes.map (.under [key])) where
  makes write member := by
    obtain ⟨inner, innerMember, rfl⟩ := List.mem_map.mp member
    obtain ⟨leaf, leafFound, isLeaf, converted⟩ :=
      made.makes inner innerMember
    refine ⟨leaf, ?_, isLeaf, converted⟩
    have memberFound :
        (FieldDesc.struct structId fields).member? key = some child := found
    rw [LeafWrite.under, List.singleton_append, FieldDesc.atPath?_cons,
      memberFound]
    exact leafFound
  parts write member := by
    obtain ⟨inner, innerMember, rfl⟩ := List.mem_map.mp member
    exact ⟨inner.path, rfl, made.parts inner innerMember⟩
  target := by
    have at_ : (PvField.struct structId subs).atPath? [key] =
        some target := by
      rw [PvField.atPath?_cons, PvField.member?, targetFound]
      exact PvField.atPath?_nil target
    rw [putLeaves_under at_, ← made.target]
    simp only [PvField.putAt, targetFound]
  marks number := by
    have memberFound :
        (FieldDesc.struct structId fields).member? key = some child := found
    have below := FieldDesc.index?_member memberFound index
    rw [made.marks number]
    apply or_congr_right
    constructor
    · rintro ⟨write, member, inner, innerIndex, rfl⟩
      refine ⟨write.under [key], List.mem_map_of_mem member,
        1 + before + inner, ?_, by omega⟩
      rw [LeafWrite.under, List.singleton_append, below, innerIndex,
        Option.map_some]
    · rintro ⟨_, member, inner, innerIndex, rfl⟩
      obtain ⟨write, writeMember, rfl⟩ := List.mem_map.mp member
      rw [LeafWrite.under, List.singleton_append, below,
        Option.map_eq_some_iff] at innerIndex
      obtain ⟨deep, deepIndex, rfl⟩ := innerIndex
      exact ⟨write, writeMember, deep, deepIndex, by omega⟩
  complete ended := by
    rw [made.complete ended, Option.map_some, List.map_map, List.map_map]
    rfl

/-- The parts that the entries of a dict have. -/
def EntryAt (conversions : Conversions Obj)
    (entries : List (Except PyErr Str × Obj)) (path : List Str)
    (part : Obj) : Prop :=
  ∃ key value rest, path = key :: rest ∧ (.ok key, value) ∈ entries ∧
    PartAt conversions value rest part

theorem assignEntries_made (lawful : lib.Lawful) (structId : Str)
    {fields : List (Str × FieldDesc)}
    (members : ∀ name child, (name, child) ∈ fields →
      ∀ bit target obj marks, PvField.Fits child target →
        ∃ writes, (assign lib conversions child bit target obj marks).Made
          conversions child bit target marks (PartAt conversions obj)
          (namedLeaves conversions child obj) writes)
    (bit : Nat) (entries : List (Except PyErr Str × Obj))
    {subs : List (Str × PvField)} (fit : PvField.FitMembers fields subs)
    (marks : BitSet) {outcome : Outcome (List (Str × PvField))}
    (result : outcome = assignEntries
      (assignMembers lib conversions fields (bit + 1)) entries subs marks) :
    ∃ writes, Outcome.Made conversions
      ⟨.struct structId outcome.target, outcome.marks, outcome.error⟩
      (.struct structId fields) bit (.struct structId subs) marks
      (EntryAt conversions entries)
      (namedEntries (memberLeaves conversions fields) entries) writes := by
  subst result
  induction entries generalizing subs marks with
  | nil => exact ⟨[], .nothing bit _ marks fun _ => rfl⟩
  | cons entry entries induction =>
      obtain ⟨key, value⟩ := entry
      cases key with
      | error error => exact ⟨[], .nothing bit _ marks fun ended => by
          cases ended⟩
      | ok key =>
          cases found : FieldDesc.named? fields key with
          | none =>
              simp only [assignEntries, find_assignMembers_none found]
              exact ⟨[], .nothing bit _ marks (by simp)⟩
          | some child =>
              obtain ⟨before, offset, index⟩ :=
                FieldDesc.named?_offset found structId
              obtain ⟨target, targetFound, targetFits⟩ :=
                fit.exists_named found
              obtain ⟨writes, made⟩ := members key child
                (FieldDesc.named?_mem found) (bit + (1 + before)) target
                value marks targetFits
              have inside := made.member found targetFound index
              have within : ∀ path part,
                  (∃ rest, path = key :: rest ∧
                    PartAt conversions value rest part) →
                  EntryAt conversions ((.ok key, value) :: entries) path
                    part := by
                rintro _ part ⟨rest, rfl, at_⟩
                exact ⟨key, value, rest, rfl, List.mem_cons_self, at_⟩
              simp only [assignEntries, namedEntries,
                find_assignMembers lawful found offset, targetFound,
                find_memberLeaves, found, Option.map_some, Nat.add_assoc]
              cases error : (assign lib conversions child
                  (bit + (1 + before)) target value marks).error with
              | some stopped =>
                  rw [error] at inside
                  exact ⟨_, inside.weaken within (by simp)⟩
              | none =>
                  rw [error] at inside
                  have childFits : PvField.Fits child
                      (assign lib conversions child (bit + (1 + before))
                        target value marks).target :=
                    (assign_wrote lawful child _ targetFits value marks).fits
                  obtain ⟨more, rest⟩ := induction
                    (fit.putNamed found childFits) _
                  refine ⟨_, (inside.weaken within fun _ => rfl).andThen rfl
                    (rest.weaken ?_ fun _ => rfl) ?_⟩
                  · rintro _ part ⟨key, value, rest, rfl, member, at_⟩
                    exact ⟨key, value, rest, rfl,
                      List.mem_cons_of_mem _ member, at_⟩
                  · intro here rest named others
                    obtain ⟨leaves, leavesNamed, rfl⟩ :=
                      Option.map_eq_some_iff.mp named
                    rw [leavesNamed, others]

/-- An assignment writes leaves one after the other, those that the object
names unless it raises. -/
theorem assign_made (lawful : lib.Lawful) (desc : FieldDesc) (bit : Nat)
    {target : PvField} (fits : PvField.Fits desc target) (obj : Obj)
    (marks : BitSet) :
    ∃ writes, (assign lib conversions desc bit target obj marks).Made
      conversions desc bit target marks (PartAt conversions obj)
      (namedLeaves conversions desc obj) writes := by
  induction desc using FieldDesc.memberInduction
      generalizing bit target obj marks with
  | struct structId fields members =>
      cases target with
      | struct targetId subs =>
          obtain ⟨rfl, fit⟩ : targetId = structId ∧
              PvField.FitMembers fields subs := by
            simpa [PvField.Fits] using fits
          simp only [assign, namedLeaves]
          cases read : conversions.entries obj with
          | error error => exact ⟨[], .nothing bit _ marks (by simp)⟩
          | ok entries =>
              obtain ⟨writes, made⟩ := assignEntries_made lawful
                targetId
                (fun name child member bit target obj marks childFits =>
                  members name child member bit childFits obj marks)
                bit entries fit marks rfl
              refine ⟨writes, made.weaken ?_ fun _ => rfl⟩
              rintro _ part ⟨key, value, rest, rfl, member, at_⟩
              exact .entry read member at_
      | _ => simp [PvField.Fits] at fits
  | other desc notStructure =>
      cases desc with
      | struct _ _ => exact absurd trivial notStructure
      | _ =>
          simp only [assign, namedLeaves]
          split
          · exact ⟨[], .nothing bit _ marks (by simp)⟩
          · rename_i field converted
            exact ⟨[⟨[], obj, field⟩], {
              makes := by
                rintro _ (_ | ⟨_, ⟨⟩⟩)
                exact ⟨_, FieldDesc.atPath?_nil _, notStructure, converted⟩
              parts := by
                rintro _ (_ | ⟨_, ⟨⟩⟩)
                exact .whole obj
              target := by
                simp only [putLeaves, List.foldl_cons, List.foldl_nil,
                  PvField.putAt]
              marks := by
                intro number
                simp [or_comm]
              complete := fun _ => rfl }⟩

end Made

theorem FieldDesc.IsLeaf.eq_of_prefix {desc : FieldDesc}
    {path other : List Str} (leaf : desc.IsLeaf path)
    (otherLeaf : desc.IsLeaf other) (above : path <+: other) :
    path = other := by
  obtain ⟨rest, rfl⟩ := above
  obtain ⟨sub, found, notStructure⟩ := leaf
  obtain ⟨last, lastFound, isLeaf⟩ := otherLeaf
  rw [FieldDesc.atPath?_append, found, Option.bind_some] at lastFound
  have here := (FieldDesc.isLeaf_of_not_structure notStructure rest).mp
    ⟨last, lastFound, isLeaf⟩
  rw [here, List.append_nil]

section Writes

variable {Obj : Type} {conversions : Conversions Obj} {desc : FieldDesc}

theorem LeafWrite.Makes.isLeaf {write : LeafWrite Obj}
    (makes : write.Makes conversions desc) : desc.IsLeaf write.path := by
  obtain ⟨leaf, found, notStructure, -⟩ := makes
  exact ⟨leaf, found, notStructure⟩

theorem LeafWrite.Makes.under {sub : FieldDesc} {front : List Str}
    {write : LeafWrite Obj} (makes : write.Makes conversions sub)
    (found : desc.atPath? front = some sub) :
    (write.under front).Makes conversions desc := by
  obtain ⟨leaf, leafFound, notStructure, converted⟩ := makes
  refine ⟨leaf, ?_, notStructure, converted⟩
  rw [LeafWrite.under, FieldDesc.atPath?_append, found, Option.bind_some,
    leafFound]

theorem LeafWrite.Makes.fits {write : LeafWrite Obj}
    (makes : write.Makes conversions desc) {field : PvField}
    (fits : PvField.Fits desc field) :
    PvField.Fits desc (field.putAt write.path write.field) := by
  obtain ⟨leaf, found, notStructure, -⟩ := makes
  apply fits.putAt found
  cases leaf with
  | struct _ _ => exact absurd trivial notStructure
  | _ => simp [PvField.Fits]

theorem putLeaves_frame {writes : List (LeafWrite Obj)}
    (makes : ∀ write ∈ writes, write.Makes conversions desc)
    {path : List Str} (leaf : desc.IsLeaf path)
    (apart : ∀ write ∈ writes, write.path ≠ path) (field : PvField) :
    (putLeaves writes field).atPath? path = field.atPath? path := by
  induction writes generalizing field with
  | nil => rfl
  | cons write writes induction =>
      have here := (makes write List.mem_cons_self).isLeaf
      have different := apart write List.mem_cons_self
      have rest := induction
        (fun write member => makes write (List.mem_cons_of_mem _ member))
        (fun write member => apart write (List.mem_cons_of_mem _ member))
        (field.putAt write.path write.field)
      rw [putLeaves, List.foldl_cons]
      refine rest.trans (PvField.atPath?_putAt_beside ?_ ?_)
      · exact fun above => different (here.eq_of_prefix leaf above)
      · exact fun below => different (leaf.eq_of_prefix here below).symm

theorem putLeaves_written {writes : List (LeafWrite Obj)}
    (makes : ∀ write ∈ writes, write.Makes conversions desc)
    {field : PvField} (fits : PvField.Fits desc field) {path : List Str}
    (written : ∃ write ∈ writes, write.path = path) :
    ∃ write ∈ writes, write.path = path ∧
      (putLeaves writes field).atPath? path = some write.field := by
  induction writes generalizing field with
  | nil =>
      obtain ⟨write, member, -⟩ := written
      cases member
  | cons write writes induction =>
      have here := makes write List.mem_cons_self
      have later : ∀ write ∈ writes, write.Makes conversions desc :=
        fun write member => makes write (List.mem_cons_of_mem _ member)
      by_cases again : ∃ other ∈ writes, other.path = path
      · obtain ⟨other, member, same, found⟩ :=
          induction later (here.fits fits) again
        exact ⟨other, List.mem_cons_of_mem _ member, same, found⟩
      · obtain ⟨other, member, same⟩ := written
        obtain rfl : other = write := by
          rcases List.mem_cons.mp member with is | inRest
          · exact is
          · exact absurd ⟨other, inRest, same⟩ again
        subst same
        refine ⟨other, List.mem_cons_self, rfl, ?_⟩
        have frame := putLeaves_frame later here.isLeaf
          (fun write member same => again ⟨write, member, same⟩)
          (field.putAt other.path other.field)
        obtain ⟨leaf, leafFound, -, -⟩ := here
        obtain ⟨old, oldFound⟩ := fits.atPath? leafFound
        exact frame.trans (PvField.atPath?_putAt oldFound.1 _)

end Writes

section Keys

variable {Obj : Type} {conversions : Conversions Obj}

theorem namedEntries_member {fields : List (Str × FieldDesc)}
    {entries : List (Except PyErr Str × Obj)}
    {leaves : List (List Str × Obj)}
    (named : namedEntries (memberLeaves conversions fields) entries =
      some leaves) {key : Str} {value : Obj}
    (member : (.ok key, value) ∈ entries) :
    ∃ child inner, FieldDesc.named? fields key = some child ∧
      namedLeaves conversions child value = some inner := by
  induction entries generalizing leaves with
  | nil => cases member
  | cons entry entries induction =>
      obtain ⟨read, obj⟩ := entry
      cases read with
      | error error => cases named
      | ok label =>
          rw [namedEntries, find_memberLeaves] at named
          cases found : FieldDesc.named? fields label with
          | none =>
              rw [found] at named
              cases named
          | some child =>
              simp only [found, Option.map_some] at named
              split at named
              · rename_i here rest hereNamed restNamed
                rcases List.mem_cons.mp member with is | inRest
                · cases is
                  exact ⟨child, here, found, hereNamed⟩
                · exact induction restNamed inRest
              · cases named

/-- An object that names leaves has no key that is not a member. -/
theorem namedLeaves_member {desc : FieldDesc} {obj part : Obj}
    {leaves : List (List Str × Obj)}
    (named : namedLeaves conversions desc obj = some leaves)
    {path : List Str} (at_ : PartAt conversions obj path part)
    {structId : Str} {fields : List (Str × FieldDesc)}
    (found : desc.atPath? path = some (.struct structId fields))
    {entries : List (Except PyErr Str × Obj)}
    (read : conversions.entries part = .ok entries) {key : Str} {value : Obj}
    (member : (.ok key, value) ∈ entries) :
    FieldDesc.named? fields key ≠ none := by
  induction at_ generalizing desc leaves with
  | whole obj =>
      rw [FieldDesc.atPath?_nil] at found
      cases found
      rw [namedLeaves, read] at named
      obtain ⟨child, inner, childFound, -⟩ :=
        namedEntries_member named member
      rw [childFound]
      nofun
  | entry outer inEntries _ induction =>
      rw [FieldDesc.atPath?_cons] at found
      obtain ⟨child, childFound, rest⟩ := Option.bind_eq_some_iff.mp found
      cases desc with
      | struct _ members =>
          rw [namedLeaves, outer] at named
          obtain ⟨other, inner, otherFound, innerNamed⟩ :=
            namedEntries_member named inEntries
          cases childFound.symm.trans otherFound
          exact induction innerNamed rest read
      | _ => cases childFound

end Keys

section Values

variable {python : Python}

/-- The object names all leaves of the type. -/
def NamesAll (python : Python) (desc : FieldDesc) (obj : PyObj) : Prop :=
  ∃ named, namedLeaves python.conversions desc obj = some named ∧
    ∀ path, desc.IsLeaf path ↔ ∃ part, (path, part) ∈ named

theorem dictOf_entries {all : List (Str × PvField)}
    {members : List (Str × FieldDesc)} {content : List (Str × PyObj)}
    (fields : ∀ member ∈ members, ∃ field,
      PvField.named? all member.1 = some field ∧
      ∀ obj, toPy python true field member.2 = .ok obj →
        NamesAll python member.2 obj)
    (made : dictOf (converters python all) members = .ok content) :
    List.Forall₂ (fun member entry => entry.1 = member.1 ∧
      NamesAll python member.2 entry.2) members content := by
  induction members generalizing content with
  | nil =>
      cases made
      exact .nil
  | cons member members induction =>
      obtain ⟨name, child⟩ := member
      obtain ⟨field, found, names⟩ := fields _ List.mem_cons_self
      simp only [dictOf, find_converters, found, Option.map_some] at made
      split at made
      · rename_i obj others converted rest
        cases made
        exact .cons ⟨rfl, names obj converted⟩ (induction
          (fun member inMembers =>
            fields member (List.mem_cons_of_mem _ inMembers)) rest)
      · cases made
      · cases made

theorem namedEntries_whole {fields members : List (Str × FieldDesc)}
    {content : List (Str × PyObj)}
    (distinct : (fields.map Prod.fst).Nodup) (within : members ⊆ fields)
    (entries : List.Forall₂ (fun member entry => entry.1 = member.1 ∧
      NamesAll python member.2 entry.2) members content) :
    ∃ named, namedEntries (memberLeaves python.conversions fields)
        (content.map fun entry => (.ok entry.1, entry.2)) = some named ∧
      ∀ path, (∃ part, (path, part) ∈ named) ↔ ∃ member ∈ members,
        ∃ rest, path = member.1 :: rest ∧ member.2.IsLeaf rest := by
  induction entries with
  | nil => exact ⟨[], rfl, by simp⟩
  | @cons member entry members content here _ induction =>
      obtain ⟨name, child⟩ := member
      obtain ⟨label, obj⟩ := entry
      obtain ⟨rfl, inner, innerNamed, innerAll⟩ := here
      obtain ⟨rest, restNamed, restAll⟩ :=
        induction fun member inRest =>
          within (List.mem_cons_of_mem _ inRest)
      have found : FieldDesc.named? fields label = some child :=
        FieldDesc.named?_of_mem distinct (within List.mem_cons_self)
      refine ⟨inner.map (fun leaf => (label :: leaf.1, leaf.2)) ++ rest, ?_,
        fun path => ?_⟩
      · simp only [List.map_cons, namedEntries, find_memberLeaves, found,
          Option.map_some, innerNamed, restNamed]
      · simp only [List.mem_append, exists_or, restAll, List.mem_cons,
          exists_eq_or_imp]
        apply or_congr_left
        constructor
        · rintro ⟨part, member⟩
          obtain ⟨leaf, leafMember, same⟩ := List.mem_map.mp member
          cases same
          exact ⟨leaf.1, rfl, (innerAll _).mpr ⟨leaf.2, leafMember⟩⟩
        · rintro ⟨back, rfl, leaf⟩
          obtain ⟨part, member⟩ := (innerAll back).mp leaf
          exact ⟨part, List.mem_map.mpr ⟨_, member, rfl⟩⟩

theorem names_of_entries {members : List (Str × FieldDesc)}
    {content : List (Str × PyObj)} {Related : Str × FieldDesc →
      Str × PyObj → Prop}
    (entries : List.Forall₂ (fun member entry => entry.1 = member.1 ∧
      Related member entry) members content) :
    content.map Prod.fst = members.map Prod.fst := by
  induction entries with
  | nil => rfl
  | cons here _ induction =>
      rw [List.map_cons, List.map_cons, here.1, induction]

/-- What is read as the dict of a structure names all its leaves. -/
theorem namesAll_of_dict {structId : Str}
    {members : List (Str × FieldDesc)} {fields : List (Str × PvField)}
    (typed : HasType (.struct structId members) (.struct structId fields))
    (children : ∀ name child, (name, child) ∈ members →
      ∀ field obj, HasType child field →
        toPy python true field child = .ok obj → NamesAll python child obj)
    {content : List (Str × PyObj)}
    (made : dictOf (converters python fields) members = .ok content)
    {obj : PyObj} (read : python.conversions.entries obj =
      .ok (content.map fun entry => (.ok entry.1, entry.2))) :
    NamesAll python (.struct structId members) obj ∧
      content.map Prod.fst = members.map Prod.fst := by
  cases typed with
  | struct _ _ _ distinct names typed =>
      have entries := dictOf_entries (fun member inMembers => by
        obtain ⟨field, found, fieldTyped⟩ := HasType.named names typed
          (FieldDesc.named?_of_mem distinct inMembers)
        exact ⟨field, found, fun obj =>
          children _ _ inMembers field obj fieldTyped⟩) made
      obtain ⟨named, leaves, all⟩ :=
        namedEntries_whole distinct (List.Subset.refl _) entries
      refine ⟨⟨named, ?_, fun path => ?_⟩, ?_⟩
      · rw [namedLeaves, read]
        exact leaves
      · rw [all path]
        cases path with
        | nil =>
            apply iff_of_false
            · rintro ⟨sub, found, notStructure⟩
              rw [FieldDesc.atPath?_nil] at found
              cases found
              exact notStructure trivial
            · nofun
        | cons name path =>
            rw [FieldDesc.isLeaf_cons_iff]
            constructor
            · rintro ⟨child, found, leaf⟩
              exact ⟨_, FieldDesc.named?_mem found, path, rfl, leaf⟩
            · rintro ⟨⟨label, child⟩, inMembers, rest, same, leaf⟩
              cases same
              exact ⟨child, FieldDesc.named?_of_mem distinct inMembers, leaf⟩
      · exact names_of_entries entries

theorem namesAll_toPy (desc : FieldDesc) {field : PvField} {obj : PyObj}
    (typed : HasType desc field)
    (made : toPy python true field desc = .ok obj) :
    NamesAll python desc obj := by
  induction desc using FieldDesc.memberInduction generalizing field obj with
  | struct structId members children =>
      cases field with
      | struct fieldId fields =>
          obtain rfl := typed.structId
          cases given : dictOf (converters python fields) members with
          | error error =>
              rw [toPy, given] at made
              cases made
          | ok content =>
              rw [toPy, given] at made
              cases made
              apply (namesAll_of_dict typed (fun name child member field obj
                typed made => children name child member typed made)
                given ?_).1
              simp only [structForm, if_true, Python.conversions,
                List.map_map]
              rfl
      | _ => cases typed
  | other desc notStructure =>
      refine ⟨[([], obj)], ?_, fun path => ?_⟩
      · cases desc with
        | struct _ _ => exact absurd trivial notStructure
        | _ => rfl
      · rw [FieldDesc.isLeaf_of_not_structure notStructure]
        simp

/-- A view names all its members, and so all leaves of its type. -/
theorem viewObj_names {number : Option Nat} {structId : Str}
    {members : List (Str × FieldDesc)} {field : PvField} {obj : PyObj}
    (typed : HasType (.struct structId members) field)
    (made : Handle.viewObj python number (.struct structId members) field =
      .ok obj) :
    NamesAll python (.struct structId members) obj ∧
      ∃ entries, python.conversions.entries obj = .ok entries ∧
        entries.map Prod.fst = members.map fun member => .ok member.1 := by
  cases field with
  | struct fieldId fields =>
      obtain rfl := typed.structId
      cases given : dictOf (converters python fields) members with
      | error error =>
          rw [Handle.viewObj, given] at made
          cases made
      | ok content =>
          rw [Handle.viewObj, given] at made
          cases made
          have read : python.conversions.entries
              (.value number fieldId members content) =
                .ok (content.map fun entry => (.ok entry.1, entry.2)) := rfl
          obtain ⟨all, names⟩ := namesAll_of_dict typed
            (fun name child _ field obj typed made =>
              namesAll_toPy child typed made) given read
          refine ⟨all, _, rfl, ?_⟩
          have same := congrArg
            (List.map (Except.ok : Str → Except PyErr Str)) names
          rw [List.map_map, List.map_map] at same
          rw [List.map_map]
          exact same
  | _ => cases typed

end Values

/-- The number that the program takes for a text is that of the member that
it finds there; a text without a number counts as the root. -/
def Numbered (lib : PvData) (desc : FieldDesc) (text : Str) : Prop :=
  ∀ bit, desc.tree.index? (Separated.segments '.' text) = some bit →
    (lib.bitForPath desc text).getD 0 = bit

theorem numbered_dotted {lib : PvData} (lawful : lib.Lawful)
    (desc : FieldDesc) {path : List Str} (named : Named path) :
    Numbered lib desc (dotted path) := by
  intro bit index
  rw [Separated.segments_render named] at index
  rw [lawful.bitForPath_dotted desc path named, index, Option.getD_some]

namespace Root

/-- One leaf is assigned by its dotted path. -/
def assignLeaf {Obj : Type} (lib : PvData) (conversions : Conversions Obj)
    (root : Root) (leaf : List Str × Obj) : Option Root :=
  match root.setItem lib conversions [] (dotted leaf.1) leaf.2 with
  | (last, none) => some last
  | _ => none

/-- An assignment at a path has written the leaves and nothing else. -/
structure Wrote (python : Python) (root last : Root) (path : List Str)
    (obj : PyObj) (leaves : Set (List Str)) : Prop where
  desc : last.desc = root.desc
  typed : HasType root.desc last.field
  below : ∀ leaf ∈ leaves, root.desc.IsLeaf leaf ∧ path <+: leaf
  frame : ∀ leaf, root.desc.IsLeaf leaf → leaf ∉ leaves →
    last.field.atPath? leaf = root.field.atPath? leaf
  marks : ∀ bit, bit ∈ last.marks ↔ bit ∈ root.marks ∨
    ∃ leaf ∈ leaves, root.desc.tree.index? leaf = some bit
  structures : ∀ node sub bit, root.desc.atPath? node = some sub →
    sub.IsStructure → root.desc.tree.index? node = some bit →
      (bit ∈ last.marks ↔ bit ∈ root.marks)
  built : ∀ leaf ∈ leaves, ∃ rest sub part field, leaf = path ++ rest ∧
    root.desc.atPath? leaf = some sub ∧
    PartAt python.conversions obj rest part ∧
    python.conversions.convert sub part = .ok field ∧
    last.field.atPath? leaf = some field ∧ HasType sub field

/-- What an assignment to the member at a text leaves, and what it raises. -/
structure Exact (lib : PvData) (python : Python) (root : Root) (text : Str)
    (obj : PyObj) (ended : Root × Option PyErr) : Prop where
  missing : descAt root.desc text = none →
    ended.1 = root ∧ ended.2 ≠ none
  foreign : ∀ sub path structId fields part entries key value,
    descAt root.desc text = some sub →
    sub.atPath? path = some (.struct structId fields) →
    PartAt python.conversions obj path part →
    python.conversions.entries part = .ok entries →
    (.ok key, value) ∈ entries → FieldDesc.named? fields key = none →
      ended.2 ≠ none
  wrote : ∀ sub, descAt root.desc text = some sub →
    ∃ leaves, root.Wrote python ended.1 (Separated.segments '.' text) obj
      leaves ∧ (ended.2 = none →
        ∃ named, namedLeaves python.conversions sub obj = some named ∧
          leaves = {leaf | ∃ entry ∈ named,
            leaf = Separated.segments '.' text ++ entry.1} ∧
          (named.map fun entry =>
            (Separated.segments '.' text ++ entry.1, entry.2)).foldlM
              (assignLeaf lib python.conversions) root = some ended.1)

section Assigning

variable {Obj : Type} {lib : PvData} {conversions : Conversions Obj}
  {root : Root}

theorem assign_leaf {desc : FieldDesc} (notStructure : ¬desc.IsStructure)
    {obj : Obj} {field : PvField}
    (converted : conversions.convert desc obj = .ok field) (bit : Nat)
    (target : PvField) (marks : BitSet) :
    assign lib conversions desc bit target obj marks =
      ⟨field, insert bit marks, none⟩ := by
  cases desc with
  | struct _ _ => exact absurd trivial notStructure
  | _ => simp only [assign, converted]

theorem assignAt_found {text : Str} {sub : FieldDesc} {target : PvField}
    (found : descAt root.desc text = some sub)
    (targetFound : fieldAt root.field text = some target) (obj : Obj)
    (missing : PyErr) :
    root.assignAt lib conversions text obj missing =
      let outcome := assign lib conversions sub
        ((lib.bitForPath root.desc text).getD 0) target obj root.marks
      ({ root with
        field := root.field.putAt (Separated.segments '.' text) outcome.target
        marks := outcome.marks }, outcome.error) := by
  rw [assignAt, found, targetFound]

theorem assignLeaf_eq (lawful : lib.Lawful)
    (wellNamed : root.desc.WellNamed)
    (fits : PvField.Fits root.desc root.field) {write : LeafWrite Obj}
    (makes : write.Makes conversions root.desc) :
    ∃ bit, root.desc.tree.index? write.path = some bit ∧
      assignLeaf lib conversions root write.named =
        some { root with
          field := root.field.putAt write.path write.field
          marks := insert bit root.marks } := by
  obtain ⟨leaf, found, notStructure, converted⟩ := makes
  obtain ⟨-, bit, index⟩ := exists_index found
  obtain ⟨old, oldFound, -⟩ := fits.atPath? found
  have named : Named write.path :=
    wellNamed.names ((FieldDesc.isNode_iff _ _).mpr ⟨leaf, found⟩)
  refine ⟨bit, index, ?_⟩
  simp only [assignLeaf, setItem, assignAt, LeafWrite.named, join, if_true,
    descAt_dotted _ named, fieldAt_dotted _ named, found, oldFound,
    lawful.bitForPath_dotted _ _ named, index, Option.getD_some,
    assign_leaf notStructure converted, Separated.segments_render named]

theorem foldlM_assignLeaf (lawful : lib.Lawful)
    (wellNamed : root.desc.WellNamed)
    (fits : PvField.Fits root.desc root.field)
    {writes : List (LeafWrite Obj)}
    (makes : ∀ write ∈ writes, write.Makes conversions root.desc) :
    ∃ last, (writes.map LeafWrite.named).foldlM
        (assignLeaf lib conversions) root = some last ∧
      last.desc = root.desc ∧ last.field = putLeaves writes root.field ∧
      ∀ bit, bit ∈ last.marks ↔ bit ∈ root.marks ∨
        ∃ write ∈ writes, root.desc.tree.index? write.path = some bit := by
  induction writes generalizing root with
  | nil => exact ⟨root, rfl, rfl, rfl, by simp⟩
  | cons write writes induction =>
      have here := makes write List.mem_cons_self
      obtain ⟨number, index, assigned⟩ :=
        assignLeaf_eq lawful wellNamed fits here
      obtain ⟨last, folded, sameDesc, field, marks⟩ :=
        @induction { root with
          field := root.field.putAt write.path write.field
          marks := insert number root.marks } wellNamed (here.fits fits)
          fun write member => makes write (List.mem_cons_of_mem _ member)
      refine ⟨last, ?_, sameDesc, field, fun bit => ?_⟩
      · rw [List.map_cons, List.foldlM_cons, assigned]
        exact folded
      · rw [marks, Finset.mem_insert]
        simp only [List.mem_cons, exists_eq_or_imp, index,
          Option.some.injEq]
        constructor
        · rintro ((rfl | old) | written)
          · exact .inr (.inl rfl)
          · exact .inl old
          · exact .inr (.inr written)
        · rintro (old | rfl | written)
          · exact .inl (.inr old)
          · exact .inl (.inl rfl)
          · exact .inr written

end Assigning

section Exact

variable {lib : PvData} {python : Python} {root : Root}

theorem eq_of_parts {left right : Root} (desc : left.desc = right.desc)
    (field : left.field = right.field)
    (marks : ∀ bit, bit ∈ left.marks ↔ bit ∈ right.marks) :
    left = right := by
  obtain ⟨leftDesc, leftField, leftMarks⟩ := left
  obtain ⟨rightDesc, rightField, rightMarks⟩ := right
  cases desc
  cases field
  congr 1
  exact Finset.ext marks

theorem marks_under {sub : FieldDesc} {path : List Str} {start : Nat}
    (found : root.desc.atPath? path = some sub)
    (index : root.desc.tree.index? path = some start) (rest : List Str)
    (bit : Nat) :
    (∃ inner, sub.tree.index? rest = some inner ∧ bit = start + inner) ↔
      root.desc.tree.index? (path ++ rest) = some bit := by
  rw [LabelTree.index?_append (exists_index found).1 index,
    Option.map_eq_some_iff]
  constructor
  · rintro ⟨inner, innerIndex, rfl⟩
    exact ⟨inner, innerIndex, rfl⟩
  · rintro ⟨inner, innerIndex, rfl⟩
    exact ⟨inner, innerIndex, rfl⟩

theorem wrote_of_made (last : Root)
    (sameDesc : last.desc = root.desc) (typed : HasType root.desc root.field)
    (lastTyped : HasType root.desc last.field) {path : List Str}
    {sub : FieldDesc} (found : root.desc.atPath? path = some sub)
    {obj : PyObj} {writes : List (LeafWrite PyObj)}
    (makes : ∀ write ∈ writes, write.Makes python.conversions sub)
    (parts : ∀ write ∈ writes,
      PartAt python.conversions obj write.path write.obj)
    (field : last.field = putLeaves (writes.map (.under path)) root.field)
    (marks : ∀ bit, bit ∈ last.marks ↔ bit ∈ root.marks ∨
      ∃ write ∈ writes,
        root.desc.tree.index? (path ++ write.path) = some bit) :
    root.Wrote python last path obj
      {leaf | ∃ write ∈ writes, leaf = path ++ write.path} := by
  have under : ∀ write ∈ writes.map (LeafWrite.under path),
      write.Makes python.conversions root.desc := by
    intro write member
    obtain ⟨inner, innerMember, rfl⟩ := List.mem_map.mp member
    exact (makes inner innerMember).under found
  have leaf : ∀ write ∈ writes, root.desc.IsLeaf (path ++ write.path) :=
    fun write member => (under _ (List.mem_map_of_mem member)).isLeaf
  refine ⟨sameDesc, lastTyped, ?_, ?_, ?_, ?_, ?_⟩
  · rintro _ ⟨write, member, rfl⟩
    exact ⟨leaf write member, List.prefix_append _ _⟩
  · intro other isLeaf apart
    rw [field]
    apply putLeaves_frame under isLeaf
    intro write member same
    obtain ⟨inner, innerMember, rfl⟩ := List.mem_map.mp member
    exact apart ⟨inner, innerMember, same.symm⟩
  · intro bit
    rw [marks bit]
    apply or_congr_right
    constructor
    · rintro ⟨write, member, index⟩
      exact ⟨_, ⟨write, member, rfl⟩, index⟩
    · rintro ⟨_, ⟨write, member, rfl⟩, index⟩
      exact ⟨write, member, index⟩
  · intro node structure_ bit nodeFound isStructure index
    rw [marks bit]
    apply or_iff_left
    rintro ⟨write, member, leafIndex⟩
    obtain rfl := LabelTree.index?_injective index leafIndex
    obtain ⟨other, otherFound, notStructure⟩ := leaf write member
    cases nodeFound.symm.trans otherFound
    exact notStructure isStructure
  · rintro _ ⟨write, member, rfl⟩
    obtain ⟨_, lastMember, samePath, isField⟩ :=
      putLeaves_written under typed.fits
        ⟨_, List.mem_map_of_mem member, rfl⟩
    obtain ⟨inner, innerMember, rfl⟩ := List.mem_map.mp lastMember
    obtain ⟨desc, descFound, -, converted⟩ :=
      under _ (List.mem_map_of_mem innerMember)
    rw [samePath] at descFound
    obtain ⟨other, otherFound, otherTyped⟩ := lastTyped.atPath? descFound
    rw [← field] at isField
    cases isField.symm.trans otherFound
    exact ⟨inner.path, desc, inner.obj, _, samePath.symm, descFound,
      parts inner innerMember, converted, isField, otherTyped⟩

/-- An assignment writes what it marks and nothing else, also when it
raises. -/
theorem assignAt_exact (lawful : lib.Lawful) (gives : python.GivesTypes)
    (wellNamed : root.desc.WellNamed) (distinct : root.desc.Distinct)
    (typed : HasType root.desc root.field) {obj : PyObj}
    (objTyped : obj.WellTyped) {text : Str}
    (numbered : Numbered lib root.desc text) (missing : PyErr) :
    Exact lib python root text obj
      (root.assignAt lib python.conversions text obj missing) := by
  cases at_ : descAt root.desc text with
  | none =>
      have ended : root.assignAt lib python.conversions text obj missing =
          (root, some missing) := by
        rw [assignAt, at_]
      rw [ended]
      refine ⟨fun _ => ⟨rfl, by simp⟩, fun _ _ _ _ _ _ _ _ _ _ _ _ _ _ => ?_,
        fun sub found => ?_⟩
      · simp
      · cases at_.symm.trans found
  | some sub =>
      have found : root.desc.atPath? (Separated.segments '.' text) =
          some sub := at_
      obtain ⟨target, targetFound, targetTyped⟩ := typed.atPath? found
      obtain ⟨-, start, index⟩ := exists_index found
      obtain ⟨writes, made⟩ := @assign_made _ lib python.conversions lawful
        sub start target targetTyped.fits obj root.marks
      have ended := @assignAt_found _ lib python.conversions _ _ _ _ at_
        targetFound obj missing
      rw [numbered start index] at ended
      have subTyped := assign_typed lawful gives (distinct.atPath? found)
        start targetTyped objTyped root.marks
      rw [ended]
      refine ⟨fun absent => ?_, ?_, fun other otherFound => ?_⟩
      · cases at_.symm.trans absent
      · intro other path structId fields part entries key value otherFound
          inside partAt read member absent raised
        cases at_.symm.trans otherFound
        exact namedLeaves_member (made.complete raised) partAt inside read
          member absent
      · cases at_.symm.trans otherFound
        have field := (made.target ▸ putLeaves_under targetFound writes).symm
        have marks (bit : Nat) := made.marks bit
        simp only [marks_under found index] at marks
        refine ⟨_, wrote_of_made _ ?_ typed (typed.putAt found subTyped) found
          made.makes made.parts field marks, fun raised =>
            ⟨_, made.complete raised, ?_, ?_⟩⟩
        · rfl
        · ext leaf
          simp [LeafWrite.named]
        · have under : ∀ write ∈ writes.map
              (LeafWrite.under (Separated.segments '.' text)),
                write.Makes python.conversions root.desc := by
            intro write member
            obtain ⟨inner, innerMember, rfl⟩ := List.mem_map.mp member
            exact (made.makes inner innerMember).under found
          obtain ⟨last, folded, sameDesc, lastField, lastMarks⟩ :=
            foldlM_assignLeaf lawful wellNamed typed.fits under
          rw [List.map_map] at folded ⊢
          refine folded.trans (congrArg some ?_)
          refine eq_of_parts sameDesc (lastField.trans field.symm) ?_
          intro bit
          rw [lastMarks, marks]
          simp [LeafWrite.under]

theorem eq_of_shifted {indices : Set Nat} (nonempty : indices.Nonempty)
    {first second : Nat}
    (same : ∀ bit, (∃ index ∈ indices, bit = first + index) ↔
      ∃ index ∈ indices, bit = second + index) : first = second := by
  have least := Nat.sInf_mem nonempty
  obtain ⟨index, member, sum⟩ := (same _).mp ⟨_, least, rfl⟩
  obtain ⟨other, otherMember, otherSum⟩ := (same _).mpr ⟨_, least, rfl⟩
  have le := Nat.sInf_le member
  have otherLe := Nat.sInf_le otherMember
  omega

/-- An assignment to a root without marks that writes a leaf marks the right
bits only if it starts at the right number. -/
theorem Exact.numbered (lawful : lib.Lawful)
    (typed : HasType root.desc root.field) {obj : PyObj} {text : Str}
    {missing : PyErr} {sub : FieldDesc}
    (at_ : descAt root.desc text = some sub)
    {named : List (List Str × PyObj)}
    (names : namedLeaves python.conversions sub obj = some named)
    (writes : named ≠ []) (unmarked : root.marks = ∅)
    (succeeds :
      (root.assignAt lib python.conversions text obj missing).2 = none)
    (exact_ : Exact lib python root text obj
      (root.assignAt lib python.conversions text obj missing)) :
    Numbered lib root.desc text := by
  intro start index
  have found : root.desc.atPath? (Separated.segments '.' text) =
      some sub := at_
  obtain ⟨target, targetFound, targetTyped⟩ := typed.atPath? found
  have wrote := exact_.wrote sub at_
  obtain ⟨done, made⟩ := @assign_made _ lib python.conversions lawful sub
    ((lib.bitForPath root.desc text).getD 0) target targetTyped.fits obj
    root.marks
  rw [assignAt_found at_ targetFound] at wrote succeeds
  obtain ⟨leaves, wrote, complete⟩ := wrote
  obtain ⟨all, allNamed, rfl, -⟩ := complete succeeds
  cases names.symm.trans allNamed
  cases names.symm.trans (made.complete succeeds)
  have nonempty : {index | ∃ write ∈ done,
      sub.tree.index? write.path = some index}.Nonempty := by
    obtain ⟨write, member⟩ := List.exists_mem_of_ne_nil done
      (by simpa using writes)
    obtain ⟨leaf, leafFound, -⟩ := made.makes write member
    obtain ⟨-, index, counted⟩ := exists_index leafFound
    exact ⟨index, write, member, counted⟩
  apply eq_of_shifted nonempty
  intro bit
  have counted := made.marks bit
  have marked := wrote.marks bit
  have under (write : LeafWrite PyObj) := marks_under found index write.path
    bit
  simp only [unmarked, Finset.notMem_empty, false_or] at counted marked
  constructor
  · intro ⟨inner, ⟨write, member, is⟩, sum⟩
    obtain ⟨_, ⟨entry, inAll, rfl⟩, isBit⟩ :=
      marked.mp (counted.mpr ⟨write, member, inner, is, sum⟩)
    obtain ⟨other, otherMember, rfl⟩ := List.mem_map.mp inAll
    obtain ⟨back, isBack, backSum⟩ := (under other).mpr isBit
    exact ⟨back, ⟨other, otherMember, isBack⟩, backSum⟩
  · intro ⟨inner, ⟨write, member, is⟩, sum⟩
    have isBit := (under write).mp ⟨inner, is, sum⟩
    obtain ⟨other, otherMember, back, isBack, backSum⟩ :=
      counted.mp (marked.mpr
        ⟨_, ⟨_, List.mem_map_of_mem member, rfl⟩, isBit⟩)
    exact ⟨back, ⟨other, otherMember, isBack⟩, backSum⟩

end Exact

/-- The root has a field of its type, whose names can stand in paths. -/
structure Conforms (root : Root) : Prop where
  wellNamed : root.desc.WellNamed
  distinct : root.desc.Distinct
  typed : HasType root.desc root.field

end Root

theorem Handle.ofNumber_conforms : Handle.ofNumber.state.Conforms where
  wellNamed := by
    simp [Handle.ofNumber, FieldDesc.WellNamed, FieldDesc.tree,
      FieldDesc.memberTrees, LabelTree.Hereditary,
      LabelTree.ForestHereditary, Separated.IsKey]
  distinct := by
    simp [Handle.ofNumber, FieldDesc.Distinct, DistinctMembers]
  typed := .single _ _ (.single _ _ (.scalar (.long 1)))

/-- Item assignment and construction write exactly what they mark, also when
they raise, and a `Value` names all its members.  That the number of the key is
the right one is needed by every assignment that writes a leaf of a value
without marks. -/
theorem assignment_exact {lib : PvData} {python : Python}
    (lawful : lib.Lawful) (gives : python.GivesTypes) {root : Root}
    (conforms : root.Conforms) {obj : PyObj} (objTyped : obj.WellTyped) :
    (∀ view key, Numbered lib root.desc (join view key) →
      Root.Exact lib python root (join view key) obj
        (root.setItem lib python.conversions view key obj)) ∧
    (∀ view, Numbered lib root.desc view →
      Root.Exact lib python root view obj
        (root.assignRoot lib python.conversions view obj)) ∧
    Root.Exact lib python
      ⟨root.desc, python.defaultValueFor root.desc, ∅⟩ [] obj
      (Root.assignRoot lib python.conversions
        ⟨root.desc, python.defaultValueFor root.desc, ∅⟩ [] obj) ∧
    (∀ number structId members field,
      HasType (.struct structId members) field →
      Handle.viewObj python number (.struct structId members) field =
        .ok obj →
      NamesAll python (.struct structId members) obj ∧
        ∃ entries, python.conversions.entries obj = .ok entries ∧
          entries.map Prod.fst =
            members.map fun member => .ok member.1) ∧
    ∀ view key sub named, descAt root.desc (join view key) = some sub →
      namedLeaves python.conversions sub obj = some named → named ≠ [] →
      root.marks = ∅ →
      (root.setItem lib python.conversions view key obj).2 = none →
        (Root.Exact lib python root (join view key) obj
            (root.setItem lib python.conversions view key obj) ↔
          Numbered lib root.desc (join view key)) := by
  obtain ⟨wellNamed, distinct, typed⟩ := conforms
  refine ⟨fun view key numbered => ?_, fun view numbered => ?_, ?_,
    fun number structId members field typed made => viewObj_names typed made,
    fun view key sub named found names writes unmarked succeeds =>
      ⟨fun exact_ => ?_, fun numbered => ?_⟩⟩
  · exact Root.assignAt_exact lawful gives wellNamed distinct typed objTyped
      numbered _
  · exact Root.assignAt_exact lawful gives wellNamed distinct typed objTyped
      numbered _
  · exact @Root.assignAt_exact lib python
      ⟨root.desc, python.defaultValueFor root.desc, ∅⟩ lawful gives wellNamed
      distinct (gives.default _ distinct) obj objTyped []
      (numbered_dotted lawful root.desc Named.nil) _
  · exact exact_.numbered lawful typed found names writes unmarked succeeds
  · exact Root.assignAt_exact lawful gives wellNamed distinct typed objTyped
      numbered _

theorem assignment_exact_number :
    Root.Exact .depthFirst .simple Handle.ofNumber.state (join [] ['a'])
      (.dict [(.str ['x'], .int 5), (.str ['y'], .int 6)])
      (Handle.ofNumber.state.setItem .depthFirst Python.simple.conversions []
        ['a'] (.dict [(.str ['x'], .int 5), (.str ['y'], .int 6)])) := by
  have objTyped : (PyObj.dict [(.str ['x'], .int 5),
      (.str ['y'], .int 6)]).WellTyped := by
    refine .intro _ (by simp) (by simp) fun child member => ?_
    simp only [PyObj.children, List.flatMap_cons, List.flatMap_nil,
      List.append_nil, List.mem_append, List.mem_cons, List.not_mem_nil,
      or_false] at member
    rcases member with (rfl | rfl) | rfl | rfl <;>
      exact .intro _ (by simp) (by simp) (by simp [PyObj.children])
  have named : Named [['a']] := by simp [Named, Separated.IsKey]
  exact (assignment_exact PvData.depthFirst_lawful
    Python.simple_givesTypes Handle.ofNumber_conforms objTyped).1 []
    ['a'] (numbered_dotted PvData.depthFirst_lawful _ named)

/-- The key `a..x` is accepted as the one of the member `x` of `a`, and what
it assigns is counted as a change of the whole value. -/
theorem empty_part_marks_root :
    Handle.ofNumber.state.Conforms ∧ (PyObj.int 5).WellTyped ∧
    descAt Handle.ofNumber.state.desc ['a', '.', '.', 'x'] =
      some (.scalar .long) ∧
    (Handle.ofNumber.state.setItem .depthFirst Python.simple.conversions []
      ['a', '.', '.', 'x'] (.int 5)).2 = none ∧
    (Handle.ofNumber.state.setItem .depthFirst Python.simple.conversions []
      ['a', '.', '.', 'x'] (.int 5)).1.marks = {0} ∧
    ¬Root.Exact .depthFirst .simple Handle.ofNumber.state
      ['a', '.', '.', 'x'] (.int 5)
      (Handle.ofNumber.state.setItem .depthFirst Python.simple.conversions []
        ['a', '.', '.', 'x'] (.int 5)) := by
  have marks : (Handle.ofNumber.state.setItem .depthFirst
      Python.simple.conversions [] ['a', '.', '.', 'x'] (.int 5)).1.marks =
        {0} := by
    decide
  have found : descAt Handle.ofNumber.state.desc ['a', '.', '.', 'x'] =
      some (.scalar .long) := by
    rfl
  refine ⟨Handle.ofNumber_conforms, .intro _ (by simp) (by simp)
    (by simp [PyObj.children]), found, by rfl, marks, fun exact_ => ?_⟩
  obtain ⟨leaves, wrote, -⟩ := exact_.wrote _ found
  have root := wrote.structures [] _ 0 (FieldDesc.atPath?_nil _) trivial
    (LabelTree.index?_nil _)
  rw [marks] at root
  exact absurd (root.mp (Finset.mem_singleton_self 0)) (Finset.notMem_empty 0)

end Repics.Pva
