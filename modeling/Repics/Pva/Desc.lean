import Repics.Lib.LabelTree
import Repics.Lib.Separated

/-!
# Type descriptors

`FieldDesc` is the descriptor a `Type` wraps.  Its nodes are the members
reachable through structures only: unions, variants and arrays have no
members that a path could name.  The two numbering functions of the library,
`total_bits` and `bit_for_path`, are parameters; `PvData.Lawful` states the
depth-first numbering of pvData change sets that the code relies on.
-/

namespace Repics.Pva

/-- A string, as the list of its characters. -/
abbrev Str := List Char

instance Str.lawfulBEq : LawfulBEq Str := inferInstance

inductive ScalarType where
  | boolean
  | byte
  | ubyte
  | short
  | ushort
  | int
  | uint
  | long
  | ulong
  | float
  | double
  | string
  deriving DecidableEq, Repr

inductive FieldDesc where
  | scalar (scalarType : ScalarType)
  | scalarArray (scalarType : ScalarType)
  | struct (structId : Str) (fields : List (Str × FieldDesc))
  | structArray (structId : Str) (fields : List (Str × FieldDesc))
  | union (structId : Str) (variants : List (Str × FieldDesc))
  | unionArray (structId : Str) (variants : List (Str × FieldDesc))
  | variant
  | variantArray

namespace FieldDesc

mutual

/-- The derived comparison of descriptors. -/
def beq : FieldDesc → FieldDesc → Bool
  | .scalar left, .scalar right => left == right
  | .scalarArray left, .scalarArray right => left == right
  | .struct leftId left, .struct rightId right
  | .structArray leftId left, .structArray rightId right
  | .union leftId left, .union rightId right
  | .unionArray leftId left, .unionArray rightId right =>
      leftId == rightId && beqMembers left right
  | .variant, .variant => true
  | .variantArray, .variantArray => true
  | _, _ => false

def beqMembers : List (Str × FieldDesc) → List (Str × FieldDesc) → Bool
  | [], [] => true
  | (leftName, left) :: leftRest, (rightName, right) :: rightRest =>
      leftName == rightName && left.beq right && beqMembers leftRest rightRest
  | _, _ => false

end

mutual

theorem beq_iff (left right : FieldDesc) :
    left.beq right = true ↔ left = right := by
  cases left with
  | scalar => cases right <;> simp [beq]
  | scalarArray => cases right <;> simp [beq]
  | struct _ fields => cases right <;> simp [beq, beqMembers_iff fields]
  | structArray _ fields =>
      cases right <;> simp [beq, beqMembers_iff fields]
  | union _ variants => cases right <;> simp [beq, beqMembers_iff variants]
  | unionArray _ variants =>
      cases right <;> simp [beq, beqMembers_iff variants]
  | variant => cases right <;> simp [beq]
  | variantArray => cases right <;> simp [beq]

theorem beqMembers_iff (left right : List (Str × FieldDesc)) :
    beqMembers left right = true ↔ left = right := by
  cases left with
  | nil => cases right <;> simp [beqMembers]
  | cons leftEntry leftRest =>
      obtain ⟨leftName, leftDesc⟩ := leftEntry
      cases right with
      | nil => simp [beqMembers]
      | cons rightEntry rightRest =>
          obtain ⟨rightName, rightDesc⟩ := rightEntry
          simp [beqMembers, beq_iff leftDesc, beqMembers_iff leftRest,
            and_assoc]

end

instance : DecidableEq FieldDesc := fun left right =>
  decidable_of_iff (left.beq right = true) (beq_iff left right)

def IsStructure : FieldDesc → Prop
  | .struct _ _ => True
  | _ => False

instance (desc : FieldDesc) : Decidable desc.IsStructure := by
  cases desc <;> unfold IsStructure <;> infer_instance

mutual

/-- The tree of members that paths can name. -/
def tree : FieldDesc → LabelTree Str
  | .struct _ fields => .node (memberTrees fields)
  | _ => .node []

def memberTrees : List (Str × FieldDesc) → List (Str × LabelTree Str)
  | [] => []
  | (name, desc) :: rest => (name, desc.tree) :: memberTrees rest

end

mutual

/-- What holds of a structure because it holds of its members holds of every
descriptor, if it holds of all others. -/
@[elab_as_elim]
theorem memberInduction {motive : FieldDesc → Prop}
    (struct : ∀ structId fields,
      (∀ name child, (name, child) ∈ fields → motive child) →
        motive (.struct structId fields))
    (other : ∀ desc : FieldDesc, ¬desc.IsStructure → motive desc)
    (desc : FieldDesc) : motive desc := by
  cases desc with
  | struct structId fields =>
      exact struct structId fields (membersInduction struct other fields)
  | _ => exact other _ (by simp [IsStructure])

theorem membersInduction {motive : FieldDesc → Prop}
    (struct : ∀ structId fields,
      (∀ name child, (name, child) ∈ fields → motive child) →
        motive (.struct structId fields))
    (other : ∀ desc : FieldDesc, ¬desc.IsStructure → motive desc)
    (fields : List (Str × FieldDesc)) :
    ∀ name child, (name, child) ∈ fields → motive child := by
  cases fields with
  | nil => simp
  | cons entry rest =>
      obtain ⟨label, desc⟩ := entry
      intro name child member
      rcases List.mem_cons.mp member with here | later
      · obtain ⟨-, rfl⟩ : name = label ∧ child = desc := by simpa using here
        exact memberInduction struct other child
      · exact membersInduction struct other rest name child later

end

/-- The first member with a name. -/
def named? (fields : List (Str × FieldDesc)) (name : Str) :
    Option FieldDesc :=
  (fields.find? fun member => member.1 = name).map Prod.snd

/-- The member a structure has under a name. -/
def member? : FieldDesc → Str → Option FieldDesc
  | .struct _ fields, name => named? fields name
  | _, _ => none

/-- The descriptor at the end of a path of member names. -/
def atPath? : FieldDesc → List Str → Option FieldDesc
  | desc, [] => some desc
  | desc, name :: path =>
      (desc.member? name).bind fun child => child.atPath? path

end FieldDesc

/-- The text of a path of member names. -/
abbrev dotted (path : List Str) : Str :=
  Separated.render '.' path

/-- A member name that a dotted path can contain. -/
abbrev MemberName (name : Str) : Prop :=
  Separated.IsKey '.' name

def join (front key : Str) : Str :=
  if front = [] then key
  else if key = [] then front
  else front ++ '.' :: key

/-- Descend through structure members only. -/
def descAt (desc : FieldDesc) (path : Str) : Option FieldDesc :=
  desc.atPath? (Separated.segments '.' path)

/-- The functions of `epics_pva_rs` that number the members of a
descriptor. -/
structure PvData where
  totalBits : FieldDesc → Nat
  bitForPath : FieldDesc → Str → Option Nat

/-- `(name, child descriptor, bit index)` for each member of a structure
whose own bit is `bit`. -/
def children (lib : PvData) (desc : FieldDesc) (bit : Nat) :
    List (Str × FieldDesc × Nat) :=
  match desc with
  | .struct _ fields => number (bit + 1) fields
  | _ => []
where
  number : Nat → List (Str × FieldDesc) → List (Str × FieldDesc × Nat)
    | _, [] => []
    | next, (name, child) :: rest =>
        (name, child, next) :: number (next + lib.totalBits child) rest

/-- Sibling member names are distinct, nonempty and without dots. -/
def FieldDesc.WellNamed (desc : FieldDesc) : Prop :=
  desc.tree.Hereditary fun names =>
    names.Nodup ∧ ∀ name ∈ names, MemberName name

namespace PvData

/-- A descriptor takes one bit for itself and those of its members, and a path
takes the bit of its node in depth-first order. -/
structure Lawful (lib : PvData) : Prop where
  totalBits_eq : ∀ desc, lib.totalBits desc = desc.tree.size
  bitForPath_dotted : ∀ desc path, (∀ name ∈ path, MemberName name) →
    lib.bitForPath desc (dotted path) = desc.tree.index? path

/-- The numbering computed on the member tree; a path is split at all its
dots, and its empty parts name no member. -/
def depthFirst : PvData where
  totalBits desc := desc.tree.size
  bitForPath desc path :=
    if path = [] then some 0 else desc.tree.index? (path.splitOn '.')

theorem depthFirst_lawful : depthFirst.Lawful where
  totalBits_eq _ := rfl
  bitForPath_dotted desc path names := by
    by_cases empty : path = []
    · simp [depthFirst, empty]
    · simp [depthFirst, Separated.render_ne_nil empty names,
        Separated.splitOn_render empty names]

end PvData

theorem join_dotted {front back : List Str}
    (frontNames : ∀ name ∈ front, MemberName name)
    (backNames : ∀ name ∈ back, MemberName name) :
    join (dotted front) (dotted back) = dotted (front ++ back) := by
  by_cases frontEmpty : front = []
  · simp [join, frontEmpty]
  · by_cases backEmpty : back = []
    · simp [join, backEmpty, Separated.render_ne_nil frontEmpty frontNames]
    · simp [join, Separated.render_ne_nil frontEmpty frontNames,
        Separated.render_ne_nil backEmpty backNames,
        Separated.render_append frontEmpty backEmpty]

theorem join_dotted_name {front : List Str} {name : Str}
    (frontNames : ∀ key ∈ front, MemberName key) (valid : MemberName name) :
    join (dotted front) name = dotted (front ++ [name]) := by
  have single : ∀ key ∈ [name], MemberName key := by simp [valid]
  simpa using join_dotted frontNames single

@[simp] theorem descAt_dotted (desc : FieldDesc) {path : List Str}
    (names : ∀ name ∈ path, MemberName name) :
    descAt desc (dotted path) = desc.atPath? path := by
  rw [descAt, Separated.segments_render names]

namespace FieldDesc

@[simp] theorem atPath?_nil (desc : FieldDesc) :
    desc.atPath? [] = some desc := by
  rw [atPath?]

theorem atPath?_cons (desc : FieldDesc) (name : Str) (path : List Str) :
    desc.atPath? (name :: path) =
      (desc.member? name).bind fun child => child.atPath? path := by
  rw [atPath?]

theorem atPath?_append (desc : FieldDesc) (front back : List Str) :
    desc.atPath? (front ++ back) =
      (desc.atPath? front).bind fun sub => sub.atPath? back := by
  induction front generalizing desc with
  | nil => simp
  | cons name front induction =>
      simp only [List.cons_append, atPath?_cons]
      cases desc.member? name with
      | none => rfl
      | some child => simp [induction]

@[simp] theorem named?_nil (name : Str) : named? [] name = none :=
  rfl

theorem named?_cons (label : Str) (desc : FieldDesc)
    (rest : List (Str × FieldDesc)) (name : Str) :
    named? ((label, desc) :: rest) name =
      if label = name then some desc else named? rest name := by
  by_cases same : label = name
  · simp [named?, same]
  · simp [named?, same]

theorem named?_mem {fields : List (Str × FieldDesc)} {name : Str}
    {desc : FieldDesc} (found : named? fields name = some desc) :
    (name, desc) ∈ fields := by
  induction fields with
  | nil => simp at found
  | cons entry rest induction =>
      obtain ⟨label, other⟩ := entry
      rw [named?_cons] at found
      by_cases same : label = name
      · simp only [same, if_true, Option.some.injEq] at found
        simp [same, found]
      · simp only [same, if_false] at found
        exact List.mem_cons_of_mem _ (induction found)

theorem child?_memberTrees (fields : List (Str × FieldDesc)) (name : Str) :
    LabelTree.child? (memberTrees fields) name =
      (named? fields name).map tree := by
  induction fields with
  | nil => rfl
  | cons entry rest induction =>
      obtain ⟨label, desc⟩ := entry
      by_cases same : label = name
      · simp [memberTrees, LabelTree.child?, named?_cons, same]
      · simp [memberTrees, LabelTree.child?, named?_cons, same, induction]

theorem child?_tree (desc : FieldDesc) (name : Str) :
    LabelTree.child? desc.tree.children name =
      (desc.member? name).map tree := by
  cases desc with
  | struct _ fields => exact child?_memberTrees fields name
  | _ => rfl

/-- Looking up a path commutes with forgetting everything but the members. -/
theorem at?_tree (desc : FieldDesc) (path : List Str) :
    desc.tree.at? path = (desc.atPath? path).map tree := by
  induction path generalizing desc with
  | nil => simp
  | cons name path induction =>
      rw [LabelTree.at?_cons, atPath?_cons, child?_tree]
      cases desc.member? name with
      | none => rfl
      | some child => simpa using induction child

theorem isNode_iff (desc : FieldDesc) (path : List Str) :
    desc.tree.IsNode path ↔ ∃ sub, desc.atPath? path = some sub := by
  rw [LabelTree.IsNode, at?_tree, Option.isSome_map,
    Option.isSome_iff_exists]

theorem map_fst_memberTrees (fields : List (Str × FieldDesc)) :
    (memberTrees fields).map Prod.fst = fields.map Prod.fst := by
  induction fields with
  | nil => rfl
  | cons entry rest induction =>
      obtain ⟨label, desc⟩ := entry
      simp [memberTrees, induction]

namespace WellNamed

theorem names {desc : FieldDesc} (wellNamed : desc.WellNamed)
    {path : List Str} (node : desc.tree.IsNode path) :
    ∀ name ∈ path, MemberName name :=
  LabelTree.Hereditary.mem_path
    (fun _ _ good member => good.2 _ member) wellNamed node

theorem atPath? {desc sub : FieldDesc} (wellNamed : desc.WellNamed)
    {path : List Str} (found : desc.atPath? path = some sub) :
    sub.WellNamed := by
  have subtree : desc.tree.at? path = some sub.tree := by
    rw [at?_tree, found, Option.map_some]
  exact LabelTree.Hereditary.at? wellNamed subtree

end WellNamed

end FieldDesc

namespace PvData.Lawful

variable {lib : PvData}

theorem mem_number_iff (lawful : lib.Lawful)
    {fields : List (Str × FieldDesc)}
    (distinct : (fields.map Prod.fst).Nodup) (next : Nat) (name : Str)
    (child : FieldDesc) (number : Nat) :
    (name, child, number) ∈ children.number lib next fields ↔
      FieldDesc.named? fields name = some child ∧
        ∃ before, LabelTree.offset? (FieldDesc.memberTrees fields) name =
          some before ∧ number = next + before := by
  induction fields generalizing next with
  | nil => simp [children.number]
  | cons entry rest induction =>
      obtain ⟨label, desc⟩ := entry
      simp only [List.map_cons, List.nodup_cons] at distinct
      have tail := induction distinct.2 (next + desc.tree.size)
      by_cases same : label = name
      · subst same
        have absent : FieldDesc.named? rest label = none := by
          cases found : FieldDesc.named? rest label with
          | none => rfl
          | some other =>
              exact (distinct.1 (List.mem_map.mpr
                ⟨_, FieldDesc.named?_mem found, rfl⟩)).elim
        simp only [children.number, lawful.totalBits_eq, List.mem_cons,
          Prod.mk.injEq, true_and, tail, absent, FieldDesc.named?_cons,
          FieldDesc.memberTrees, LabelTree.offset?, if_true,
          Option.some.injEq, reduceCtorEq, false_and, or_false]
        constructor
        · rintro ⟨rfl, rfl⟩
          exact ⟨rfl, 0, rfl, rfl⟩
        · rintro ⟨rfl, before, rfl, rfl⟩
          exact ⟨rfl, rfl⟩
      · have notHere : name ≠ label := fun equal => same equal.symm
        simp only [children.number, lawful.totalBits_eq, List.mem_cons,
          Prod.mk.injEq, notHere, false_and, false_or, tail,
          FieldDesc.named?_cons, same, FieldDesc.memberTrees,
          LabelTree.offset?, if_false, Option.map_eq_some_iff]
        constructor
        · rintro ⟨found, before, offset, rfl⟩
          exact ⟨found, _, ⟨before, offset, rfl⟩, by omega⟩
        · rintro ⟨found, _, ⟨before, offset, rfl⟩, rfl⟩
          exact ⟨found, before, offset, by omega⟩

/-- `children` numbers the members as the depth-first order does. -/
theorem mem_children_iff (lawful : lib.Lawful) {desc : FieldDesc}
    (wellNamed : desc.WellNamed) (bit : Nat) (name : Str)
    (child : FieldDesc) (number : Nat) :
    (name, child, number) ∈ children lib desc bit ↔
      desc.member? name = some child ∧
        ∃ before, desc.tree.index? [name] = some before ∧
          number = bit + before := by
  cases desc with
  | struct structId fields =>
      have distinct : (fields.map Prod.fst).Nodup := by
        have good := wellNamed.labels.1
        rwa [← FieldDesc.map_fst_memberTrees]
      have childFound := FieldDesc.child?_memberTrees fields name
      simp only [children, mem_number_iff lawful distinct,
        FieldDesc.member?]
      constructor
      · rintro ⟨found, before, offset, rfl⟩
        refine ⟨found, 1 + before, ?_, by omega⟩
        rw [found] at childFound
        simp [LabelTree.index?_cons, FieldDesc.tree, LabelTree.children,
          childFound, offset]
      · rintro ⟨found, before, index, rfl⟩
        refine ⟨found, ?_⟩
        rw [found] at childFound
        simp only [LabelTree.index?_cons, FieldDesc.tree,
          LabelTree.children, childFound, Option.map_some,
          Option.bind_some, LabelTree.index?_nil,
          Option.bind_eq_some_iff] at index
        obtain ⟨offset, offsetFound, sum⟩ := index
        simp only [Option.some.injEq] at sum
        exact ⟨offset, offsetFound, by omega⟩
  | _ => simp [children, FieldDesc.member?]

end PvData.Lawful

end Repics.Pva
