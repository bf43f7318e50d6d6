import Mathlib.Data.List.Nodup
import Mathlib.Data.List.Infix

/-!
# Depth-first numbering of labelled trees

The nodes of a tree are named by the labels on the way down from the root, and
numbered in depth-first order.  The subtree below a node occupies exactly the
interval that starts at the node's number and is as long as the subtree is
large.  Lookups take the first child that carries a label; a tree whose
sibling labels are distinct has every number taken by some node.
-/

universe u

/-- A finite tree whose children are labelled. -/
inductive LabelTree (ι : Type u) where
  | node (children : List (ι × LabelTree ι))

namespace LabelTree

variable {ι : Type u}

mutual

/-- Number of nodes of a tree. -/
def size : LabelTree ι → Nat
  | .node children => 1 + forestSize children

/-- Number of nodes of a list of labelled trees. -/
def forestSize : List (ι × LabelTree ι) → Nat
  | [] => 0
  | (_, tree) :: rest => tree.size + forestSize rest

end

def children : LabelTree ι → List (ι × LabelTree ι)
  | .node children => children

mutual

/-- Every node's list of child labels satisfies `good`. -/
def Hereditary (good : List ι → Prop) : LabelTree ι → Prop
  | .node children =>
      good (children.map Prod.fst) ∧ ForestHereditary good children

def ForestHereditary (good : List ι → Prop) :
    List (ι × LabelTree ι) → Prop
  | [] => True
  | (_, tree) :: rest => tree.Hereditary good ∧ ForestHereditary good rest

end

section Lookup

variable [DecidableEq ι]

/-- The first tree with the label. -/
def child? : List (ι × LabelTree ι) → ι → Option (LabelTree ι)
  | [], _ => none
  | (label, tree) :: rest, key =>
      if label = key then some tree else child? rest key

/-- Number of nodes in front of the first tree with the label. -/
def offset? : List (ι × LabelTree ι) → ι → Option Nat
  | [], _ => none
  | (label, tree) :: rest, key =>
      if label = key then some 0
      else (offset? rest key).map (tree.size + ·)

/-- The subtree at the end of a path. -/
def at? : LabelTree ι → List ι → Option (LabelTree ι)
  | tree, [] => some tree
  | tree, key :: path =>
      (child? tree.children key).bind fun child => child.at? path

/-- The depth-first number of the node at the end of a path. -/
def index? : LabelTree ι → List ι → Option Nat
  | _, [] => some 0
  | tree, key :: path =>
      (child? tree.children key).bind fun child =>
        (offset? tree.children key).bind fun before =>
          (child.index? path).map (1 + before + ·)

/-- The path leads to a node. -/
def IsNode (tree : LabelTree ι) (path : List ι) : Prop :=
  (tree.at? path).isSome

instance (tree : LabelTree ι) (path : List ι) :
    Decidable (tree.IsNode path) :=
  inferInstanceAs (Decidable ((tree.at? path).isSome = true))

end Lookup

theorem size_pos (tree : LabelTree ι) : 0 < tree.size := by
  cases tree
  simp only [size]
  omega

theorem size_eq (tree : LabelTree ι) :
    tree.size = 1 + forestSize tree.children := by
  cases tree
  simp [size, children]

theorem Hereditary.labels {good : List ι → Prop} {tree : LabelTree ι}
    (hereditary : tree.Hereditary good) :
    good (tree.children.map Prod.fst) := by
  cases tree
  exact hereditary.1

theorem Hereditary.forest {good : List ι → Prop} {tree : LabelTree ι}
    (hereditary : tree.Hereditary good) :
    ForestHereditary good tree.children := by
  cases tree
  exact hereditary.2

section Lookup

variable [DecidableEq ι]

@[simp] theorem at?_nil (tree : LabelTree ι) : tree.at? [] = some tree := by
  cases tree
  rfl

@[simp] theorem index?_nil (tree : LabelTree ι) :
    tree.index? [] = some 0 := by
  cases tree
  rfl

theorem at?_cons (tree : LabelTree ι) (key : ι) (path : List ι) :
    tree.at? (key :: path) =
      (child? tree.children key).bind fun child => child.at? path := by
  rw [at?]

theorem index?_cons (tree : LabelTree ι) (key : ι) (path : List ι) :
    tree.index? (key :: path) =
      (child? tree.children key).bind fun child =>
        (offset? tree.children key).bind fun before =>
          (child.index? path).map (1 + before + ·) := by
  rw [index?]

theorem at?_append (tree : LabelTree ι) (front back : List ι) :
    tree.at? (front ++ back) =
      (tree.at? front).bind fun subtree => subtree.at? back := by
  induction front generalizing tree with
  | nil => simp
  | cons key front induction =>
      simp only [List.cons_append, at?_cons]
      cases child? tree.children key with
      | none => rfl
      | some child => simp [induction]

theorem IsNode.of_front {tree : LabelTree ι} {front back : List ι}
    (node : tree.IsNode (front ++ back)) : tree.IsNode front := by
  unfold IsNode at node ⊢
  rw [at?_append] at node
  cases found : tree.at? front with
  | none => simp [found] at node
  | some subtree => rfl

theorem offset?_isSome_iff (forest : List (ι × LabelTree ι)) (key : ι) :
    (offset? forest key).isSome = (child? forest key).isSome := by
  induction forest with
  | nil => rfl
  | cons entry rest induction =>
      obtain ⟨label, tree⟩ := entry
      by_cases same : label = key
      · simp [offset?, child?, same]
      · simp [offset?, child?, same, induction]

theorem child?_offset? {forest : List (ι × LabelTree ι)} {key : ι}
    {child : LabelTree ι} (found : child? forest key = some child) :
    ∃ before, offset? forest key = some before := by
  have someOffset := offset?_isSome_iff forest key
  rw [found] at someOffset
  exact Option.isSome_iff_exists.mp someOffset

theorem index?_isSome_iff (tree : LabelTree ι) (path : List ι) :
    (tree.index? path).isSome ↔ tree.IsNode path := by
  unfold IsNode
  induction path generalizing tree with
  | nil => simp
  | cons key path induction =>
      rw [index?_cons, at?_cons]
      cases found : child? tree.children key with
      | none => simp
      | some child =>
          obtain ⟨before, offset⟩ := child?_offset? found
          simpa [offset] using induction child

theorem IsNode.index {tree : LabelTree ι} {path : List ι}
    (node : tree.IsNode path) : ∃ number, tree.index? path = some number :=
  Option.isSome_iff_exists.mp ((index?_isSome_iff tree path).mpr node)

theorem IsNode.subtree {tree : LabelTree ι} {path : List ι}
    (node : tree.IsNode path) : ∃ subtree, tree.at? path = some subtree :=
  Option.isSome_iff_exists.mp node

theorem IsNode.of_index {tree : LabelTree ι} {path : List ι} {number : Nat}
    (index : tree.index? path = some number) : tree.IsNode path :=
  (index?_isSome_iff tree path).mp (by simp [index])

/-- Numbers of a subtree are those of the whole shifted by the number of its
root. -/
theorem index?_append {tree subtree : LabelTree ι} {front : List ι}
    {number : Nat} (found : tree.at? front = some subtree)
    (index : tree.index? front = some number) (back : List ι) :
    tree.index? (front ++ back) = (subtree.index? back).map (number + ·) := by
  induction front generalizing tree number with
  | nil =>
      simp only [at?_nil, Option.some.injEq] at found
      simp only [index?_nil, Option.some.injEq] at index
      subst found index
      simp
  | cons key front induction =>
      rw [at?_cons] at found
      rw [index?_cons] at index
      cases childFound : child? tree.children key with
      | none => simp [childFound] at found
      | some child =>
          obtain ⟨before, offset⟩ := child?_offset? childFound
          simp only [childFound, Option.bind_some] at found
          simp only [childFound, offset, Option.bind_some,
            Option.map_eq_some_iff] at index
          obtain ⟨inner, innerIndex, rfl⟩ := index
          have shifted := induction found innerIndex
          simp only [List.cons_append, index?_cons, childFound, offset,
            Option.bind_some, shifted, Option.map_map, Function.comp_def,
            Nat.add_assoc]

theorem offset?_add_size_le {forest : List (ι × LabelTree ι)} {key : ι}
    {child : LabelTree ι} {before : Nat}
    (found : child? forest key = some child)
    (offset : offset? forest key = some before) :
    before + child.size ≤ forestSize forest := by
  induction forest generalizing before with
  | nil => simp [child?] at found
  | cons entry rest induction =>
      obtain ⟨label, tree⟩ := entry
      by_cases same : label = key
      · simp only [child?, same, if_true, Option.some.injEq] at found
        simp only [offset?, same, if_true, Option.some.injEq] at offset
        subst found offset
        simp [forestSize]
      · simp only [child?, same, if_false] at found
        simp only [offset?, same, if_false, Option.map_eq_some_iff] at offset
        obtain ⟨later, laterOffset, rfl⟩ := offset
        have bound := induction found laterOffset
        simp only [forestSize]
        omega

theorem index?_add_size_le {tree subtree : LabelTree ι} {path : List ι}
    {number : Nat} (found : tree.at? path = some subtree)
    (index : tree.index? path = some number) :
    number + subtree.size ≤ tree.size := by
  induction path generalizing tree number with
  | nil =>
      simp only [at?_nil, Option.some.injEq] at found
      simp only [index?_nil, Option.some.injEq] at index
      subst found index
      simp
  | cons key path induction =>
      rw [at?_cons] at found
      rw [index?_cons] at index
      cases childFound : child? tree.children key with
      | none => simp [childFound] at found
      | some child =>
          obtain ⟨before, offset⟩ := child?_offset? childFound
          simp only [childFound, Option.bind_some] at found
          simp only [childFound, offset, Option.bind_some,
            Option.map_eq_some_iff] at index
          obtain ⟨inner, innerIndex, rfl⟩ := index
          have innerBound := induction found innerIndex
          have childBound := offset?_add_size_le childFound offset
          rw [size_eq tree]
          omega

theorem offset?_disjoint {forest : List (ι × LabelTree ι)} {left right : ι}
    {leftTree rightTree : LabelTree ι} {leftBefore rightBefore : Nat}
    (different : left ≠ right)
    (leftFound : child? forest left = some leftTree)
    (leftOffset : offset? forest left = some leftBefore)
    (rightFound : child? forest right = some rightTree)
    (rightOffset : offset? forest right = some rightBefore) :
    leftBefore + leftTree.size ≤ rightBefore ∨
      rightBefore + rightTree.size ≤ leftBefore := by
  induction forest generalizing leftBefore rightBefore with
  | nil => simp [child?] at leftFound
  | cons entry rest induction =>
      obtain ⟨label, tree⟩ := entry
      by_cases isLeft : label = left
      · have notRight : label ≠ right := fun isRight =>
          different (isLeft.symm.trans isRight)
        simp only [child?, isLeft, if_true, Option.some.injEq] at leftFound
        simp only [offset?, isLeft, if_true, Option.some.injEq] at leftOffset
        simp only [offset?, notRight, if_false,
          Option.map_eq_some_iff] at rightOffset
        obtain ⟨later, _, rfl⟩ := rightOffset
        subst leftFound leftOffset
        left
        omega
      · simp only [child?, isLeft, if_false] at leftFound
        simp only [offset?, isLeft, if_false,
          Option.map_eq_some_iff] at leftOffset
        obtain ⟨leftLater, leftLaterOffset, rfl⟩ := leftOffset
        by_cases isRight : label = right
        · simp only [child?, isRight, if_true,
            Option.some.injEq] at rightFound
          simp only [offset?, isRight, if_true,
            Option.some.injEq] at rightOffset
          subst rightFound rightOffset
          right
          omega
        · simp only [child?, isRight, if_false] at rightFound
          simp only [offset?, isRight, if_false,
            Option.map_eq_some_iff] at rightOffset
          obtain ⟨rightLater, rightLaterOffset, rfl⟩ := rightOffset
          rcases induction leftFound leftLaterOffset rightFound
            rightLaterOffset with before | after
          · left
            omega
          · right
            omega

theorem index?_append_range {tree subtree : LabelTree ι}
    {front back : List ι} {number other : Nat}
    (found : tree.at? front = some subtree)
    (index : tree.index? front = some number)
    (otherIndex : tree.index? (front ++ back) = some other) :
    number ≤ other ∧ other < number + subtree.size := by
  rw [index?_append found index] at otherIndex
  obtain ⟨inner, innerIndex, rfl⟩ := Option.map_eq_some_iff.mp otherIndex
  obtain ⟨deep, deepFound⟩ := (IsNode.of_index innerIndex).subtree
  have bound := index?_add_size_le deepFound innerIndex
  have positive := deep.size_pos
  omega

/-- A number lies in the interval of a subtree exactly when its node lies in
the subtree. -/
theorem index?_mem_range_iff {tree subtree : LabelTree ι}
    {path other : List ι} {number otherNumber : Nat}
    (found : tree.at? path = some subtree)
    (index : tree.index? path = some number)
    (otherIndex : tree.index? other = some otherNumber) :
    (number ≤ otherNumber ∧ otherNumber < number + subtree.size) ↔
      path <+: other := by
  constructor
  · intro inRange
    induction path generalizing tree other number otherNumber with
    | nil => exact List.nil_prefix
    | cons key path induction =>
        rw [at?_cons] at found
        rw [index?_cons] at index
        cases childFound : child? tree.children key with
        | none => simp [childFound] at found
        | some child =>
            obtain ⟨before, offset⟩ := child?_offset? childFound
            simp only [childFound, Option.bind_some] at found
            simp only [childFound, offset, Option.bind_some,
              Option.map_eq_some_iff] at index
            obtain ⟨inner, innerIndex, rfl⟩ := index
            have innerBound := index?_add_size_le found innerIndex
            cases other with
            | nil =>
                simp only [index?_nil, Option.some.injEq] at otherIndex
                omega
            | cons otherKey other =>
                rw [index?_cons] at otherIndex
                cases otherFound : child? tree.children otherKey with
                | none => simp [otherFound] at otherIndex
                | some otherChild =>
                    obtain ⟨otherBefore, otherOffset⟩ :=
                      child?_offset? otherFound
                    simp only [otherFound, otherOffset, Option.bind_some,
                      Option.map_eq_some_iff] at otherIndex
                    obtain ⟨otherInner, otherInnerIndex, rfl⟩ := otherIndex
                    obtain ⟨deep, deepFound⟩ :=
                      (IsNode.of_index otherInnerIndex).subtree
                    have otherBound :=
                      index?_add_size_le deepFound otherInnerIndex
                    have deepPositive := deep.size_pos
                    by_cases same : key = otherKey
                    · subst same
                      rw [childFound] at otherFound
                      rw [offset] at otherOffset
                      cases otherFound
                      cases otherOffset
                      have tailPrefix := induction found innerIndex
                        otherInnerIndex (by omega)
                      exact (List.prefix_cons_inj key).mpr tailPrefix
                    · rcases offset?_disjoint same childFound offset
                        otherFound otherOffset with left | right
                      · omega
                      · omega
  · rintro ⟨back, rfl⟩
    exact index?_append_range found index otherIndex

theorem index?_injective {tree : LabelTree ι} {left right : List ι}
    {number : Nat} (leftIndex : tree.index? left = some number)
    (rightIndex : tree.index? right = some number) : left = right := by
  obtain ⟨leftTree, leftFound⟩ := (IsNode.of_index leftIndex).subtree
  obtain ⟨rightTree, rightFound⟩ := (IsNode.of_index rightIndex).subtree
  have leftPositive := leftTree.size_pos
  have rightPositive := rightTree.size_pos
  have forward : left <+: right :=
    (index?_mem_range_iff leftFound leftIndex rightIndex).mp (by omega)
  have backward : right <+: left :=
    (index?_mem_range_iff rightFound rightIndex leftIndex).mp (by omega)
  exact forward.eq_of_length_le backward.length_le

theorem ForestHereditary.child {good : List ι → Prop}
    {forest : List (ι × LabelTree ι)} {key : ι} {child : LabelTree ι}
    (hereditary : ForestHereditary good forest)
    (found : child? forest key = some child) : child.Hereditary good := by
  induction forest with
  | nil => simp [child?] at found
  | cons entry rest induction =>
      obtain ⟨label, tree⟩ := entry
      simp only [ForestHereditary] at hereditary
      by_cases same : label = key
      · simp only [child?, same, if_true, Option.some.injEq] at found
        exact found ▸ hereditary.1
      · simp only [child?, same, if_false] at found
        exact induction hereditary.2 found

theorem Hereditary.at? {good : List ι → Prop} {tree subtree : LabelTree ι}
    {path : List ι} (hereditary : tree.Hereditary good)
    (found : tree.at? path = some subtree) : subtree.Hereditary good := by
  induction path generalizing tree with
  | nil =>
      simp only [at?_nil, Option.some.injEq] at found
      exact found ▸ hereditary
  | cons key path induction =>
      rw [at?_cons] at found
      cases childFound : child? tree.children key with
      | none => simp [childFound] at found
      | some child =>
          simp only [childFound, Option.bind_some] at found
          exact induction (hereditary.forest.child childFound) found

theorem child?_mem {forest : List (ι × LabelTree ι)} {key : ι}
    {child : LabelTree ι} (found : child? forest key = some child) :
    (key, child) ∈ forest := by
  induction forest with
  | nil => simp [child?] at found
  | cons entry rest induction =>
      obtain ⟨label, tree⟩ := entry
      by_cases same : label = key
      · simp only [child?, same, if_true, Option.some.injEq] at found
        simp [same, found]
      · simp only [child?, same, if_false] at found
        exact List.mem_cons_of_mem _ (induction found)

/-- Every label on the way to a node satisfies what the label lists promise of
their members. -/
theorem Hereditary.mem_path {good : List ι → Prop} {valid : ι → Prop}
    (promise : ∀ labels label, good labels → label ∈ labels → valid label)
    {tree : LabelTree ι} {path : List ι}
    (hereditary : tree.Hereditary good) (node : tree.IsNode path) :
    ∀ label, label ∈ path → valid label := by
  induction path generalizing tree with
  | nil => simp
  | cons key path induction =>
      unfold IsNode at node
      rw [at?_cons] at node
      cases childFound : child? tree.children key with
      | none => simp [childFound] at node
      | some child =>
          simp only [childFound, Option.bind_some] at node
          intro label member
          rcases List.mem_cons.mp member with rfl | later
          · exact promise _ _ hereditary.labels
              (List.mem_map.mpr ⟨_, child?_mem childFound, rfl⟩)
          · exact induction (hereditary.forest.child childFound) node
              label later

mutual

/-- When sibling labels are distinct, every number below the size is taken. -/
theorem exists_index? {good : List ι → Prop}
    (distinct : ∀ labels, good labels → labels.Nodup) (tree : LabelTree ι)
    (hereditary : tree.Hereditary good) {number : Nat}
    (small : number < tree.size) :
    ∃ path, tree.index? path = some number := by
  cases tree with
  | node children =>
      by_cases root : number = 0
      · exact ⟨[], by simp [root]⟩
      · obtain ⟨label, child, before, path, inner, found, offset, index,
          sum⟩ := exists_offset? distinct children hereditary.forest
            (distinct _ hereditary.labels)
            (show number - 1 < forestSize children by
              simp only [size] at small
              omega)
        refine ⟨label :: path, ?_⟩
        simp only [index?_cons, LabelTree.children, found, offset, index,
          Option.bind_some, Option.map_some, Option.some.injEq]
        omega

theorem exists_offset? {good : List ι → Prop}
    (distinct : ∀ labels, good labels → labels.Nodup)
    (forest : List (ι × LabelTree ι))
    (hereditary : ForestHereditary good forest)
    (labels : (forest.map Prod.fst).Nodup) {number : Nat}
    (small : number < forestSize forest) :
    ∃ label child before path inner, child? forest label = some child ∧
      offset? forest label = some before ∧
        child.index? path = some inner ∧ number = before + inner := by
  cases forest with
  | nil => simp [forestSize] at small
  | cons entry rest =>
      obtain ⟨label, tree⟩ := entry
      simp only [forestSize] at small
      simp only [ForestHereditary] at hereditary
      simp only [List.map_cons, List.nodup_cons] at labels
      by_cases here : number < tree.size
      · obtain ⟨path, index⟩ := exists_index? distinct tree hereditary.1 here
        exact ⟨label, tree, 0, path, number, by simp [child?],
          by simp [offset?], index, by omega⟩
      · obtain ⟨other, child, before, path, inner, found, offset, index,
          sum⟩ := exists_offset? distinct rest hereditary.2 labels.2
            (show number - tree.size < forestSize rest by omega)
        have different : label ≠ other := by
          intro same
          exact labels.1 (same ▸ List.mem_map.mpr
            ⟨_, child?_mem found, rfl⟩)
        exact ⟨other, child, tree.size + before, path, inner,
          by simp [child?, different, found],
          by simp [offset?, different, offset], index, by omega⟩

end

end Lookup

end LabelTree
