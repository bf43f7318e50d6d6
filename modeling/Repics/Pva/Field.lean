import Mathlib.Data.Finset.Basic
import Mathlib.Data.List.Infix
import Repics.Pva.Desc

/-!
# Field values and change sets

`PvField` is the value side of a descriptor.  A field fits a descriptor when
it has the same structures with the same members; what stands in the leaves is
not restricted.  A change set covers a leaf when it contains the bit of the
leaf or of a structure above it, and a field that fits is determined by its
leaves, so copying by change set is described leaf by leaf.
-/

namespace Repics.Pva

/-- The bits of a change set. -/
abbrev BitSet := Finset Nat

/-- A scalar; `float` and `double` hold the IEEE bit pattern. -/
inductive ScalarValue where
  | boolean (value : Bool)
  | byte (value : Int8)
  | ubyte (value : UInt8)
  | short (value : Int16)
  | ushort (value : UInt16)
  | int (value : Int32)
  | uint (value : UInt32)
  | long (value : Int64)
  | ulong (value : UInt64)
  | float (bits : UInt32)
  | double (bits : UInt64)
  | string (value : Str)
  deriving DecidableEq

inductive PvField where
  | scalar (value : ScalarValue)
  | scalarArray (items : List ScalarValue)
  | scalarArrayTyped (scalarType : ScalarType) (items : List ScalarValue)
  | struct (structId : Str) (fields : List (Str × PvField))
  | structArray (items : List (Option (Str × List (Str × PvField))))
  | union (selector : Int) (variantName : Str) (value : PvField)
  | unionArray (items : List (Option (Int × Str × PvField)))
  | variant (desc : Option FieldDesc) (value : PvField)
  | variantArray (items : List (Option (Option FieldDesc × PvField)))
  | null

namespace PvField

/-- The first field with a name. -/
def named? (fields : List (Str × PvField)) (name : Str) : Option PvField :=
  (fields.find? fun member => member.1 = name).map Prod.snd

def member? : PvField → Str → Option PvField
  | .struct _ fields, name => named? fields name
  | _, _ => none

/-- The field at the end of a path of member names. -/
def atPath? : PvField → List Str → Option PvField
  | field, [] => some field
  | field, name :: path =>
      (field.member? name).bind fun child => child.atPath? path

mutual

/-- The field has the structures and members of the descriptor. -/
def Fits : FieldDesc → PvField → Prop
  | .struct structId members, .struct fieldId fields =>
      fieldId = structId ∧ FitMembers members fields
  | .struct _ _, _ => False
  | _, _ => True

def FitMembers : List (Str × FieldDesc) → List (Str × PvField) → Prop
  | [], [] => True
  | (name, desc) :: members, (fieldName, field) :: fields =>
      fieldName = name ∧ Fits desc field ∧ FitMembers members fields
  | _, _ => False

end

mutual

def decideFits : (desc : FieldDesc) → (field : PvField) →
    Decidable (Fits desc field)
  | .struct structId members, field =>
      match field with
      | .struct fieldId fields =>
          have : Decidable (FitMembers members fields) :=
            decideFitMembers members fields
          decidable_of_iff (fieldId = structId ∧ FitMembers members fields)
            (by simp only [Fits])
      | .scalar _ | .scalarArray _ | .scalarArrayTyped _ _ | .structArray _
      | .union _ _ _ | .unionArray _ | .variant _ _ | .variantArray _
      | .null => .isFalse (by simp only [Fits, not_false_eq_true])
  | .scalar _, _ | .scalarArray _, _ | .structArray _ _, _ | .union _ _, _
  | .unionArray _ _, _ | .variant, _ | .variantArray, _ =>
      .isTrue (by simp only [Fits])

def decideFitMembers : (members : List (Str × FieldDesc)) →
    (fields : List (Str × PvField)) → Decidable (FitMembers members fields)
  | [], [] => .isTrue (by simp only [FitMembers])
  | (name, desc) :: members, (fieldName, field) :: fields =>
      have : Decidable (Fits desc field) := decideFits desc field
      have : Decidable (FitMembers members fields) :=
        decideFitMembers members fields
      decidable_of_iff
        (fieldName = name ∧ Fits desc field ∧ FitMembers members fields)
        (by simp only [FitMembers])
  | [], _ :: _ | _ :: _, [] =>
      .isFalse (by simp only [FitMembers, not_false_eq_true])

end

instance (desc : FieldDesc) (field : PvField) :
    Decidable (Fits desc field) :=
  decideFits desc field

@[simp] theorem atPath?_nil (field : PvField) :
    field.atPath? [] = some field := by
  rw [atPath?]

theorem atPath?_cons (field : PvField) (name : Str) (path : List Str) :
    field.atPath? (name :: path) =
      (field.member? name).bind fun child => child.atPath? path := by
  rw [atPath?]

@[simp] theorem named?_nil (name : Str) : named? [] name = none :=
  rfl

theorem named?_cons (label : Str) (field : PvField)
    (rest : List (Str × PvField)) (name : Str) :
    named? ((label, field) :: rest) name =
      if label = name then some field else named? rest name := by
  by_cases same : label = name
  · simp [named?, same]
  · simp [named?, same]

theorem FitMembers.exists_named {members : List (Str × FieldDesc)}
    {fields : List (Str × PvField)} (fits : FitMembers members fields)
    {name : Str} {desc : FieldDesc}
    (found : FieldDesc.named? members name = some desc) :
    ∃ field, named? fields name = some field ∧ Fits desc field := by
  induction members generalizing fields with
  | nil => simp at found
  | cons entry rest induction =>
      obtain ⟨label, other⟩ := entry
      cases fields with
      | nil => simp [FitMembers] at fits
      | cons fieldEntry fields =>
          obtain ⟨fieldLabel, field⟩ := fieldEntry
          simp only [FitMembers] at fits
          obtain ⟨rfl, headFits, tailFits⟩ := fits
          rw [FieldDesc.named?_cons] at found
          rw [named?_cons]
          by_cases same : fieldLabel = name
          · simp only [same, if_true, Option.some.injEq] at found ⊢
            exact ⟨field, rfl, found ▸ headFits⟩
          · simp only [same, if_false] at found ⊢
            exact induction tailFits found

theorem FitMembers.fits_named {members : List (Str × FieldDesc)}
    {fields : List (Str × PvField)} (fits : FitMembers members fields)
    {name : Str} {desc : FieldDesc} {field : PvField}
    (found : FieldDesc.named? members name = some desc)
    (fieldFound : named? fields name = some field) : Fits desc field := by
  obtain ⟨other, otherFound, otherFits⟩ := fits.exists_named found
  obtain rfl : other = field := by simpa [otherFound] using fieldFound
  exact otherFits

theorem Fits.member? {desc child : FieldDesc} {field : PvField}
    (fits : Fits desc field) {name : Str}
    (found : desc.member? name = some child) :
    ∃ sub, field.member? name = some sub ∧ Fits child sub := by
  cases desc with
  | struct structId members =>
      cases field with
      | struct fieldId fields =>
          simp only [Fits] at fits
          exact fits.2.exists_named found
      | _ => simp [Fits] at fits
  | _ => simp [FieldDesc.member?] at found

/-- A field that fits has a fitting field wherever the descriptor has a
member. -/
theorem Fits.atPath? {desc sub : FieldDesc} {field : PvField}
    (fits : Fits desc field) {path : List Str}
    (found : desc.atPath? path = some sub) :
    ∃ target, field.atPath? path = some target ∧ Fits sub target := by
  induction path generalizing desc field with
  | nil =>
      simp only [FieldDesc.atPath?_nil, Option.some.injEq] at found
      exact ⟨field, by simp, found ▸ fits⟩
  | cons name path induction =>
      rw [FieldDesc.atPath?_cons] at found
      obtain ⟨child, childFound, rest⟩ := Option.bind_eq_some_iff.mp found
      obtain ⟨next, nextFound, nextFits⟩ := fits.member? childFound
      obtain ⟨target, targetFound, targetFits⟩ := induction nextFits rest
      exact ⟨target, by simp [atPath?_cons, nextFound, targetFound],
        targetFits⟩

end PvField

def fieldAt (field : PvField) (path : Str) : Option PvField :=
  field.atPath? (Separated.segments '.' path)

@[simp] theorem fieldAt_dotted (field : PvField) {path : List Str}
    (names : ∀ name ∈ path, MemberName name) :
    fieldAt field (dotted path) = field.atPath? path := by
  rw [fieldAt, Separated.segments_render names]

namespace FieldDesc

/-- The path leads to a member that is not a structure. -/
def IsLeaf (desc : FieldDesc) (path : List Str) : Prop :=
  ∃ sub, desc.atPath? path = some sub ∧ ¬sub.IsStructure

/-- The change set contains the bit of the node or of one above it; `bit` is
the bit of the root. -/
def Covered (desc : FieldDesc) (bit : Nat) (marks : BitSet)
    (path : List Str) : Prop :=
  ∃ front number, front <+: path ∧
    desc.tree.index? front = some number ∧ bit + number ∈ marks

instance (desc : FieldDesc) (bit : Nat) (marks : BitSet)
    (path : List Str) : Decidable (desc.Covered bit marks path) :=
  decidable_of_iff
    (∃ front ∈ path.inits, ((desc.tree.index? front).any fun number =>
      decide (bit + number ∈ marks)) = true) (by
    simp only [List.mem_inits, Option.any_eq_true, decide_eq_true_eq]
    constructor
    · intro found
      obtain ⟨front, isPrefix, number, index, member⟩ := found
      exact ⟨front, number, isPrefix, index, member⟩
    · intro covered
      obtain ⟨front, number, isPrefix, index, member⟩ := covered
      exact ⟨front, isPrefix, number, index, member⟩)

theorem Covered.mono {desc : FieldDesc} {bit : Nat} {small large : BitSet}
    {path : List Str} (covered : desc.Covered bit small path)
    (subset : small ⊆ large) : desc.Covered bit large path := by
  obtain ⟨front, number, isPrefix, index, member⟩ := covered
  exact ⟨front, number, isPrefix, index, subset member⟩

theorem covered_union_iff (desc : FieldDesc) (bit : Nat)
    (left right : BitSet) (path : List Str) :
    desc.Covered bit (left ∪ right) path ↔
      desc.Covered bit left path ∨ desc.Covered bit right path := by
  constructor
  · rintro ⟨front, number, isPrefix, index, member⟩
    rcases Finset.mem_union.mp member with inLeft | inRight
    · exact .inl ⟨front, number, isPrefix, index, inLeft⟩
    · exact .inr ⟨front, number, isPrefix, index, inRight⟩
  · rintro (covered | covered)
    · exact covered.mono Finset.subset_union_left
    · exact covered.mono Finset.subset_union_right

end FieldDesc

namespace PvField

/-- Two fields agree on every leaf that the change set does not cover. -/
def AgreeOff (desc : FieldDesc) (marks : BitSet)
    (left right : PvField) : Prop :=
  ∀ path, desc.IsLeaf path → ¬desc.Covered 0 marks path →
    left.atPath? path = right.atPath? path

/-- `result` has the leaves of `new` that the change set covers and those of
`old` elsewhere. -/
structure Copies (desc : FieldDesc) (marks : BitSet)
    (new old result : PvField) : Prop where
  fits : Fits desc result
  covered : ∀ path, desc.IsLeaf path → desc.Covered 0 marks path →
    result.atPath? path = new.atPath? path
  other : AgreeOff desc marks result old

namespace AgreeOff

theorem refl (desc : FieldDesc) (marks : BitSet) (field : PvField) :
    AgreeOff desc marks field field :=
  fun _ _ _ => rfl

theorem trans {desc : FieldDesc} {first second : BitSet}
    {left middle right : PvField}
    (leftAgree : AgreeOff desc first left middle)
    (rightAgree : AgreeOff desc second middle right) :
    AgreeOff desc (first ∪ second) left right := by
  intro path leaf bare
  rw [FieldDesc.covered_union_iff, not_or] at bare
  exact (leftAgree path leaf bare.1).trans (rightAgree path leaf bare.2)

end AgreeOff

theorem FitMembers.ext {members : List (Str × FieldDesc)}
    (distinct : (members.map Prod.fst).Nodup)
    (determined : ∀ name desc, (name, desc) ∈ members →
      ∀ left right, Fits desc left → Fits desc right →
        (∀ path, desc.IsLeaf path →
          left.atPath? path = right.atPath? path) → left = right)
    {left right : List (Str × PvField)}
    (leftFits : FitMembers members left)
    (rightFits : FitMembers members right)
    (same : ∀ name desc path,
      FieldDesc.named? members name = some desc → desc.IsLeaf path →
        ((named? left name).bind fun field => field.atPath? path) =
          ((named? right name).bind fun field => field.atPath? path)) :
    left = right := by
  induction members generalizing left right with
  | nil =>
      cases left with
      | cons => simp [FitMembers] at leftFits
      | nil =>
          cases right with
          | cons => simp [FitMembers] at rightFits
          | nil => rfl
  | cons entry members induction =>
      obtain ⟨name, desc⟩ := entry
      simp only [List.map_cons, List.nodup_cons] at distinct
      cases left with
      | nil => simp [FitMembers] at leftFits
      | cons leftEntry left =>
          obtain ⟨leftName, leftField⟩ := leftEntry
          cases right with
          | nil => simp [FitMembers] at rightFits
          | cons rightEntry right =>
              obtain ⟨rightName, rightField⟩ := rightEntry
              simp only [FitMembers] at leftFits rightFits
              obtain ⟨rfl, leftHead, leftTail⟩ := leftFits
              obtain ⟨rfl, rightHead, rightTail⟩ := rightFits
              have headSame : leftField = rightField := by
                refine determined rightName desc (by simp) _ _
                  leftHead rightHead ?_
                intro path leaf
                have equal := same rightName desc path
                  (by simp [FieldDesc.named?_cons]) leaf
                simpa [named?_cons] using equal
              have tailSame : left = right := by
                refine induction distinct.2
                  (fun key other member =>
                    determined key other (List.mem_cons_of_mem _ member))
                  leftTail rightTail ?_
                intro key other path found leaf
                have different : rightName ≠ key := by
                  rintro rfl
                  exact distinct.1 (List.mem_map.mpr
                    ⟨_, FieldDesc.named?_mem found, rfl⟩)
                have equal := same key other path
                  (by simp [FieldDesc.named?_cons, different, found]) leaf
                simpa [named?_cons, different] using equal
              rw [headSame, tailSame]

mutual

/-- Fields that fit one descriptor and have the same leaves are equal. -/
theorem Fits.ext (desc : FieldDesc) (wellNamed : desc.WellNamed)
    (left right : PvField) (leftFits : Fits desc left)
    (rightFits : Fits desc right)
    (same : ∀ path, desc.IsLeaf path →
      left.atPath? path = right.atPath? path) : left = right := by
  cases desc with
  | struct structId members =>
      cases left with
      | struct leftId leftFields =>
          cases right with
          | struct rightId rightFields =>
              simp only [Fits] at leftFits rightFits
              obtain ⟨rfl, leftMembers⟩ := leftFits
              obtain ⟨rfl, rightMembers⟩ := rightFits
              have distinct : (members.map Prod.fst).Nodup := by
                have good := wellNamed.labels.1
                rwa [← FieldDesc.map_fst_memberTrees]
              have fieldsSame : leftFields = rightFields := by
                refine FitMembers.ext distinct
                  (fun name desc member =>
                    Fits.extMember members wellNamed.forest name desc member)
                  leftMembers rightMembers ?_
                rintro name desc path found ⟨sub, subFound, notStructure⟩
                have leaf : (FieldDesc.struct rightId members).IsLeaf
                    (name :: path) :=
                  ⟨sub, by simp [FieldDesc.atPath?_cons, FieldDesc.member?,
                    found, subFound], notStructure⟩
                have equal := same _ leaf
                rw [atPath?_cons, atPath?_cons] at equal
                exact equal
              rw [fieldsSame]
          | _ => simp [Fits] at rightFits
      | _ => simp [Fits] at leftFits
  | _ =>
      have equal := same []
        ⟨_, FieldDesc.atPath?_nil _, by simp [FieldDesc.IsStructure]⟩
      simpa using equal

theorem Fits.extMember (members : List (Str × FieldDesc))
    (wellNamed : LabelTree.ForestHereditary
      (fun names => names.Nodup ∧ ∀ name ∈ names, MemberName name)
      (FieldDesc.memberTrees members))
    (name : Str) (desc : FieldDesc) (member : (name, desc) ∈ members)
    (left right : PvField) (leftFits : Fits desc left)
    (rightFits : Fits desc right)
    (same : ∀ path, desc.IsLeaf path →
      left.atPath? path = right.atPath? path) : left = right := by
  cases members with
  | nil => simp at member
  | cons entry rest =>
      obtain ⟨label, other⟩ := entry
      simp only [FieldDesc.memberTrees,
        LabelTree.ForestHereditary] at wellNamed
      rcases List.mem_cons.mp member with here | later
      · have equal : desc = other := by
          simpa using congrArg Prod.snd here
        rw [equal] at leftFits rightFits same
        exact Fits.ext other wellNamed.1 left right leftFits rightFits same
      · exact Fits.extMember rest wellNamed.2 name desc later left right
          leftFits rightFits same

end

theorem Copies.eq_of_agreeOff {desc : FieldDesc} {marks : BitSet}
    {new old result : PvField} (wellNamed : desc.WellNamed)
    (newFits : Fits desc new) (copies : Copies desc marks new old result)
    (agree : AgreeOff desc marks new old) : result = new := by
  refine Fits.ext desc wellNamed result new copies.fits newFits ?_
  intro path leaf
  by_cases covered : desc.Covered 0 marks path
  · exact copies.covered path leaf covered
  · exact (copies.other path leaf covered).trans
      (agree path leaf covered).symm

end PvField

end Repics.Pva
