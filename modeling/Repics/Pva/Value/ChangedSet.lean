import Repics.Pva.Value.Marks

/-!
# Reading change marks

The four traversals that read marks agree on the set of marked nodes: the walk
up the text of a path, the interval of a subtree, and the recursive collection
with and without expanding structures.
-/

namespace Repics.Pva

section Collect

variable {lib : PvData}

theorem mem_collectMembers_iff (fields : List (Str × FieldDesc))
    (next : Nat) (front : Str) (marks : BitSet) (inherited expand : Bool)
    (text : Str) :
    text ∈ collectMembers lib fields next front marks inherited expand ↔
      ∃ name child number,
        (name, child, number) ∈ children.number lib next fields ∧
          text ∈ collectMarked lib child number (join front name) marks
            inherited expand := by
  induction fields generalizing next with
  | nil => simp [collectMembers, children.number]
  | cons entry rest induction =>
      obtain ⟨label, desc⟩ := entry
      simp only [collectMembers, children.number, List.mem_append, induction,
        List.mem_cons, Prod.mk.injEq]
      constructor
      · intro member
        rcases member with here | ⟨name, child, number, later, collected⟩
        · exact ⟨label, desc, next, .inl ⟨rfl, rfl, rfl⟩, here⟩
        · exact ⟨name, child, number, .inr later, collected⟩
      · intro member
        obtain ⟨name, child, number, ⟨rfl, rfl, rfl⟩ | later, collected⟩ :=
          member
        · exact .inl collected
        · exact .inr ⟨name, child, number, later, collected⟩

theorem FieldDesc.WellNamed.exists_member {desc : FieldDesc}
    (wellNamed : desc.WellNamed) {name : Str} {path : List Str}
    (node : desc.tree.IsNode (name :: path)) :
    ∃ child before, desc.member? name = some child ∧
      desc.tree.index? [name] = some before ∧ Named [name] ∧
        child.WellNamed := by
  obtain ⟨sub, found⟩ := (FieldDesc.isNode_iff _ _).mp node
  rw [FieldDesc.atPath?_cons] at found
  obtain ⟨child, childFound, -⟩ := Option.bind_eq_some_iff.mp found
  have single : desc.atPath? [name] = some child := by
    rw [FieldDesc.atPath?_cons, childFound]
    simp
  obtain ⟨-, before, index⟩ := exists_index single
  exact ⟨child, before, childFound, index,
    wellNamed.names (LabelTree.IsNode.of_index index),
    wellNamed.atPath? single⟩

/-- Collecting from the members of a structure, member by member. -/
theorem mem_collectMembers_struct_iff (lawful : lib.Lawful) {structId : Str}
    {fields : List (Str × FieldDesc)}
    (wellNamed : (FieldDesc.struct structId fields).WellNamed) (bit : Nat)
    {front : List Str} (frontNamed : Named front) (marks : BitSet)
    (inherited expand : Bool) (text : Str) :
    text ∈ collectMembers lib fields (bit + 1) (dotted front) marks
        inherited expand ↔
      ∃ name child before,
        (FieldDesc.struct structId fields).member? name = some child ∧
        (FieldDesc.struct structId fields).tree.index? [name] =
          some before ∧
        Named [name] ∧ child.WellNamed ∧
        text ∈ collectMarked lib child (bit + before)
          (dotted (front ++ [name])) marks inherited expand := by
  rw [mem_collectMembers_iff]
  have numbering (name : Str) (child : FieldDesc) (number : Nat) :=
    lawful.mem_children_iff wellNamed bit name child number
  constructor
  · intro member
    obtain ⟨name, child, number, numbered, inside⟩ := member
    obtain ⟨found, before, index, rfl⟩ := (numbering _ _ _).mp numbered
    obtain ⟨other, -, otherFound, -, named, childNamed⟩ :=
      wellNamed.exists_member (LabelTree.IsNode.of_index index)
    obtain rfl : child = other := by simpa [found] using otherFound
    rw [join_dotted_name frontNamed (named name (by simp))] at inside
    exact ⟨name, child, before, found, index, named, childNamed, inside⟩
  · intro member
    obtain ⟨name, child, before, found, index, named, -, inside⟩ := member
    refine ⟨name, child, bit + before,
      (numbering _ _ _).mpr ⟨found, before, index, rfl⟩, ?_⟩
    rw [join_dotted_name frontNamed (named name (by simp))]
    exact inside

theorem FieldDesc.index?_of_not_structure {desc : FieldDesc}
    (notStructure : ¬desc.IsStructure) {path : List Str} {number : Nat}
    (index : desc.tree.index? path = some number) :
    path = [] ∧ number = 0 := by
  cases path with
  | nil => simpa [eq_comm] using index
  | cons name path =>
      cases desc with
      | struct _ _ => simp [IsStructure] at notStructure
      | _ =>
          simp [tree, LabelTree.index?_cons, LabelTree.children,
            LabelTree.child?] at index

theorem FieldDesc.isLeaf_of_not_structure {desc : FieldDesc}
    (notStructure : ¬desc.IsStructure) (path : List Str) :
    desc.IsLeaf path ↔ path = [] := by
  constructor
  · intro leaf
    obtain ⟨sub, found, -⟩ := leaf
    obtain ⟨-, number, index⟩ := exists_index found
    exact (index?_of_not_structure notStructure index).1
  · intro empty
    exact ⟨desc, by simp [empty], notStructure⟩

theorem mem_collectMarked_leaf {desc : FieldDesc}
    (notStructure : ¬desc.IsStructure) (bit : Nat) (front : Str)
    (marks : BitSet) (inherited expand : Bool) (text : Str) :
    text ∈ collectMarked lib desc bit front marks inherited expand ↔
      text = front ∧ front ≠ [] ∧ (inherited = true ∨ bit ∈ marks) := by
  cases desc with
  | struct _ _ => simp [FieldDesc.IsStructure] at notStructure
  | _ =>
      simp only [collectMarked]
      split
      · rename_i marked
        simp only [Bool.and_eq_true, Bool.or_eq_true,
          decide_eq_true_eq] at marked
        simp [marked.1, marked.2]
      · rename_i unmarked
        simp only [Bool.and_eq_true, Bool.or_eq_true,
          decide_eq_true_eq, not_and] at unmarked
        simp only [List.not_mem_nil, false_iff, not_and]
        intro _ nonempty marked
        exact unmarked marked nonempty

theorem mem_collectMarked_expand_iff (lawful : lib.Lawful)
    {desc : FieldDesc} (wellNamed : desc.WellNamed) (bit : Nat)
    {front : List Str} (frontNamed : Named front) (marks : BitSet)
    (inherited : Bool) (text : Str) :
    text ∈ collectMarked lib desc bit (dotted front) marks inherited true ↔
      ∃ path, text = dotted (front ++ path) ∧ front ++ path ≠ [] ∧
        desc.IsLeaf path ∧
          (inherited = true ∨ desc.Covered bit marks path) := by
  induction desc using FieldDesc.memberInduction
      generalizing bit front inherited with
  | struct structId fields members =>
      have collected : collectMarked lib (.struct structId fields) bit
          (dotted front) marks inherited true =
        collectMembers lib fields (bit + 1) (dotted front) marks
          (inherited || decide (bit ∈ marks)) true := by
        simp [collectMarked]
      rw [collected, mem_collectMembers_struct_iff lawful wellNamed bit
        frontNamed]
      constructor
      · intro member
        obtain ⟨name, child, before, found, index, named, childNamed,
          inside⟩ := member
        obtain ⟨path, rfl, nonempty, leaf, marked⟩ :=
          (members name child (FieldDesc.named?_mem found) childNamed
            (bit + before) (frontNamed.append named) _).mp inside
        refine ⟨name :: path, by simp, by simp,
          (FieldDesc.isLeaf_cons_iff _ name path).mpr ⟨child, found, leaf⟩,
          ?_⟩
        rw [FieldDesc.covered_cons_iff found index]
        simpa [or_assoc] using marked
      · intro member
        obtain ⟨path, rfl, nonempty, leaf, marked⟩ := member
        cases path with
        | nil =>
            obtain ⟨sub, subFound, notStructure⟩ := leaf
            simp only [FieldDesc.atPath?_nil, Option.some.injEq] at subFound
            exact (notStructure (subFound ▸ trivial)).elim
        | cons name path =>
            have node : (FieldDesc.struct structId fields).tree.IsNode
                (name :: path) := by
              obtain ⟨sub, subFound, -⟩ := leaf
              exact (FieldDesc.isNode_iff _ _).mpr ⟨sub, subFound⟩
            obtain ⟨child, before, found, index, named, childNamed⟩ :=
              wellNamed.exists_member node
            obtain ⟨other, otherFound, childLeaf⟩ :=
              (FieldDesc.isLeaf_cons_iff _ name path).mp leaf
            obtain rfl : child = other := by simpa [found] using otherFound
            refine ⟨name, child, before, found, index, named, childNamed, ?_⟩
            rw [members name child (FieldDesc.named?_mem found) childNamed
              (bit + before) (frontNamed.append named)]
            rw [FieldDesc.covered_cons_iff found index] at marked
            exact ⟨path, by simp, by simp, childLeaf,
              by simpa [or_assoc] using marked⟩
  | other desc notStructure =>
      rw [mem_collectMarked_leaf notStructure]
      constructor
      · intro member
        obtain ⟨rfl, nonempty, marked⟩ := member
        refine ⟨[], by simp, ?_,
          (FieldDesc.isLeaf_of_not_structure notStructure []).mpr rfl,
          by simpa [FieldDesc.covered_nil_iff] using marked⟩
        intro empty
        rw [List.append_nil] at empty
        exact nonempty (by simp [empty])
      · intro member
        obtain ⟨path, rfl, nonempty, leaf, marked⟩ := member
        obtain rfl :=
          (FieldDesc.isLeaf_of_not_structure notStructure path).mp leaf
        rw [List.append_nil] at nonempty ⊢
        exact ⟨rfl, Separated.render_ne_nil nonempty frontNamed,
          by simpa [FieldDesc.covered_nil_iff] using marked⟩

/-- Nothing above a node is marked when this holds in the member it belongs to
and the structure is not marked. -/
theorem FieldDesc.bare_member_iff {desc child : FieldDesc} {name : Str}
    {before bit : Nat} {marks : BitSet}
    (found : desc.member? name = some child)
    (index : desc.tree.index? [name] = some before)
    (unmarked : bit ∉ marks) (path : List Str) :
    (∀ above other, above <+: name :: path → above ≠ name :: path →
        desc.tree.index? above = some other → bit + other ∉ marks) ↔
      ∀ above other, above <+: path → above ≠ path →
        child.tree.index? above = some other →
          bit + before + other ∉ marks := by
  have below := FieldDesc.index?_member found index
  constructor
  · intro bare above other isPrefix different aboveIndex
    rw [Nat.add_assoc]
    refine bare (name :: above) (before + other)
      ((List.prefix_cons_inj name).mpr isPrefix) ?_ ?_
    · intro same
      exact different (List.cons.inj same).2
    · rw [below, aboveIndex, Option.map_some]
  · intro bare above other isPrefix different aboveIndex
    cases above with
    | nil =>
        simp only [LabelTree.index?_nil, Option.some.injEq] at aboveIndex
        simpa [← aboveIndex] using unmarked
    | cons label above =>
        obtain ⟨rfl, restPrefix⟩ := List.cons_prefix_cons.mp isPrefix
        rw [below, Option.map_eq_some_iff] at aboveIndex
        obtain ⟨inner, innerIndex, rfl⟩ := aboveIndex
        rw [← Nat.add_assoc]
        exact bare above inner restPrefix
          (fun same => different (by rw [same])) innerIndex

/-- Without expanding, the topmost marked nodes are collected. -/
theorem mem_collectMarked_top_iff (lawful : lib.Lawful) {desc : FieldDesc}
    (wellNamed : desc.WellNamed) (bit : Nat) {front : List Str}
    (frontNamed : Named front) (marks : BitSet) (text : Str) :
    text ∈ collectMarked lib desc bit (dotted front) marks false false ↔
      ∃ path number, text = dotted (front ++ path) ∧ front ++ path ≠ [] ∧
        desc.tree.index? path = some number ∧ bit + number ∈ marks ∧
          ∀ above other, above <+: path → above ≠ path →
            desc.tree.index? above = some other → bit + other ∉ marks := by
  induction desc using FieldDesc.memberInduction
      generalizing bit front with
  | struct structId fields members =>
      by_cases marked : bit ∈ marks
      · have collected : collectMarked lib (.struct structId fields) bit
            (dotted front) marks false false =
          if dotted front = [] then [] else [dotted front] := by
          simp [collectMarked, marked]
        rw [collected]
        constructor
        · intro member
          split at member
          · simp at member
          · rename_i nonempty
            obtain rfl : text = dotted front := by simpa using member
            refine ⟨[], 0, by simp, ?_, by simp, by simpa using marked, ?_⟩
            · intro empty
              rw [List.append_nil] at empty
              exact nonempty (by simp [empty])
            · intro above other isPrefix different
              exact (different (List.prefix_nil.mp isPrefix)).elim
        · intro member
          obtain ⟨path, number, rfl, nonempty, index, -, bare⟩ := member
          have top : path = [] := by
            by_contra below
            exact bare [] 0 List.nil_prefix (Ne.symm below) (by simp)
              (by simpa using marked)
          subst top
          rw [List.append_nil] at nonempty ⊢
          simp [Separated.render_ne_nil nonempty frontNamed]
      · have collected : collectMarked lib (.struct structId fields) bit
            (dotted front) marks false false =
          collectMembers lib fields (bit + 1) (dotted front) marks false
            false := by
          simp [collectMarked, marked]
        rw [collected, mem_collectMembers_struct_iff lawful wellNamed bit
          frontNamed]
        constructor
        · intro member
          obtain ⟨name, child, before, found, index, named, childNamed,
            inside⟩ := member
          obtain ⟨path, number, rfl, nonempty, pathIndex, member, bare⟩ :=
            (members name child (FieldDesc.named?_mem found) childNamed
              (bit + before) (frontNamed.append named)).mp inside
          have below := FieldDesc.index?_member found index
          refine ⟨name :: path, before + number, by simp, by simp,
            by rw [below, pathIndex, Option.map_some],
            by simpa [Nat.add_assoc] using member, ?_⟩
          exact (FieldDesc.bare_member_iff found index marked path).mpr bare
        · intro member
          obtain ⟨path, number, rfl, nonempty, pathIndex, member, bare⟩ :=
            member
          cases path with
          | nil =>
              simp only [LabelTree.index?_nil, Option.some.injEq]
                at pathIndex
              exact (marked (by simpa [← pathIndex] using member)).elim
          | cons name path =>
              obtain ⟨child, before, found, index, named, childNamed⟩ :=
                wellNamed.exists_member (LabelTree.IsNode.of_index pathIndex)
              have below := FieldDesc.index?_member found index
              rw [below, Option.map_eq_some_iff] at pathIndex
              obtain ⟨inner, innerIndex, rfl⟩ := pathIndex
              refine ⟨name, child, before, found, index, named, childNamed,
                ?_⟩
              rw [members name child (FieldDesc.named?_mem found) childNamed
                (bit + before) (frontNamed.append named)]
              refine ⟨path, inner, by simp, by simp, innerIndex,
                by simpa [Nat.add_assoc] using member, ?_⟩
              exact (FieldDesc.bare_member_iff found index marked path).mp bare
  | other desc notStructure =>
      rw [mem_collectMarked_leaf notStructure]
      constructor
      · intro member
        obtain ⟨rfl, nonempty, marked⟩ := member
        refine ⟨[], 0, by simp, ?_, by simp, by simpa using marked, ?_⟩
        · intro empty
          rw [List.append_nil] at empty
          exact nonempty (by simp [empty])
        · intro above other isPrefix different
          exact (different (List.prefix_nil.mp isPrefix)).elim
      · intro member
        obtain ⟨path, number, rfl, nonempty, index, marked, -⟩ := member
        obtain ⟨rfl, rfl⟩ :=
          FieldDesc.index?_of_not_structure notStructure index
        rw [List.append_nil] at nonempty ⊢
        exact ⟨rfl, Separated.render_ne_nil nonempty frontNamed,
          by simpa using marked⟩

end Collect

/-- A prefix of a path through a view stops above the view or goes on below
it. -/
theorem prefix_append_iff (node view path : List Str) :
    node <+: view ++ path ↔ (node <+: view ∧ node ≠ view) ∨
      ∃ front, front <+: path ∧ node = view ++ front := by
  constructor
  · intro isPrefix
    rcases List.prefix_or_prefix_of_prefix isPrefix
      (List.prefix_append view path) with above | below
    · by_cases same : node = view
      · exact .inr ⟨[], List.nil_prefix, by simp [same]⟩
      · exact .inl ⟨above, same⟩
    · obtain ⟨front, rfl⟩ := below
      exact .inr ⟨front, (List.prefix_append_right_inj view).mp isPrefix, rfl⟩
  · intro place
    rcases place with ⟨above, -⟩ | ⟨front, isPrefix, rfl⟩
    · exact above.trans (List.prefix_append _ _)
    · exact (List.prefix_append_right_inj view).mpr isPrefix

namespace Root.Refines

variable {root : Root} {nodes : Set (List Str)} {lib : PvData}
variable {view path : List Str}

theorem mem_marks_iff (refines : root.Refines nodes) {number : Nat}
    (index : root.desc.tree.index? path = some number) :
    number ∈ root.marks ↔ path ∈ nodes := by
  rw [refines.marked]
  constructor
  · intro marked
    obtain ⟨node, member, nodeIndex⟩ := marked
    exact LabelTree.index?_injective nodeIndex index ▸ member
  · intro member
    exact ⟨path, member, index⟩

theorem ancestorMarked_iff (refines : root.Refines nodes)
    (lawful : lib.Lawful) (wellNamed : root.desc.WellNamed)
    (node : root.desc.tree.IsNode path) :
    root.ancestorMarked lib (dotted path) = true ↔
      ∃ above ∈ nodes, above ≠ [] ∧ above <+: path ∧ above ≠ path := by
  have named : Named path := wellNamed.names node
  simp only [Root.ancestorMarked, List.any_eq_true,
    Separated.mem_cuts_render_iff named, Option.any_eq_true,
    decide_eq_true_eq]
  have ancestor (above : List Str) (isPrefix : above <+: path) :
      ∃ number, root.desc.tree.index? above = some number ∧
        lib.bitForPath root.desc (dotted above) = some number := by
    obtain ⟨rest, rfl⟩ := isPrefix
    obtain ⟨number, index⟩ := node.of_front.index
    refine ⟨number, index, ?_⟩
    rw [lawful.bitForPath_dotted _ _
      fun name member => named name (List.mem_append_left _ member), index]
  constructor
  · intro marked
    obtain ⟨text, ⟨above, nonempty, isPrefix, different, rfl⟩, bit, found,
      member⟩ := marked
    obtain ⟨number, index, bitEq⟩ := ancestor above isPrefix
    obtain rfl : bit = number := by simpa [bitEq] using found.symm
    exact ⟨above, (refines.mem_marks_iff index).mp member, nonempty,
      isPrefix, different⟩
  · intro marked
    obtain ⟨above, member, nonempty, isPrefix, different⟩ := marked
    obtain ⟨number, index, bitEq⟩ := ancestor above isPrefix
    exact ⟨dotted above, ⟨above, nonempty, isPrefix, different, rfl⟩, number,
      bitEq, (refines.mem_marks_iff index).mpr member⟩

theorem root_marked_iff (refines : root.Refines nodes) :
    0 ∈ root.marks ↔ [] ∈ nodes :=
  refines.mem_marks_iff (LabelTree.index?_nil _)

/-- What a view inherits: the root, or a node above the view, is marked. -/
theorem inherited_iff (refines : root.Refines nodes)
    (lawful : lib.Lawful) (wellNamed : root.desc.WellNamed)
    (node : root.desc.tree.IsNode view) :
    (decide (0 ∈ root.marks) ||
        root.ancestorMarked lib (dotted view)) = true ↔
      ∃ above ∈ nodes, above <+: view ∧ (above ≠ view ∨ above = []) := by
  rw [Bool.or_eq_true, decide_eq_true_eq, refines.root_marked_iff,
    refines.ancestorMarked_iff lawful wellNamed node]
  constructor
  · intro marked
    rcases marked with top | ⟨above, member, -, isPrefix, different⟩
    · exact ⟨[], top, List.nil_prefix, .inr rfl⟩
    · exact ⟨above, member, isPrefix, .inl different⟩
  · intro marked
    obtain ⟨above, member, isPrefix, different⟩ := marked
    by_cases top : above = []
    · exact .inl (top ▸ member)
    · exact .inr ⟨above, member, top, isPrefix,
        different.resolve_right top⟩

theorem touched_iff (refines : root.Refines nodes) (lawful : lib.Lawful)
    (wellNamed : root.desc.WellNamed) {sub : FieldDesc} {start : Nat}
    (found : root.desc.atPath? path = some sub)
    (index : root.desc.tree.index? path = some start) :
    ((List.range' start sub.tree.size).any
          (fun bit => decide (bit ∈ root.marks)) ||
        root.ancestorMarked lib (dotted path) ||
        decide (0 ∈ root.marks)) = true ↔
      ∃ node ∈ nodes, node <+: path ∨ path <+: node := by
  have isNode := LabelTree.IsNode.of_index index
  have inherited := refines.inherited_iff lawful wellNamed isNode
  have below : (List.range' start sub.tree.size).any
        (fun bit => decide (bit ∈ root.marks)) = true ↔
      ∃ node ∈ nodes, path <+: node := by
    simp only [List.any_eq_true, List.mem_range'_1, decide_eq_true_eq,
      mem_span_iff wellNamed found index]
    constructor
    · intro marked
      obtain ⟨bit, ⟨node, isPrefix, nodeIndex⟩, member⟩ := marked
      exact ⟨node, (refines.mem_marks_iff nodeIndex).mp member, isPrefix⟩
    · intro marked
      obtain ⟨node, member, isPrefix⟩ := marked
      obtain ⟨bit, nodeIndex⟩ := (refines.isNode node member).index
      exact ⟨bit, ⟨node, isPrefix, nodeIndex⟩,
        (refines.mem_marks_iff nodeIndex).mpr member⟩
  rw [Bool.or_assoc, Bool.or_comm (root.ancestorMarked _ _), Bool.or_eq_true,
    below, inherited]
  constructor
  · intro marked
    rcases marked with ⟨node, member, isPrefix⟩ | ⟨node, member, isPrefix, -⟩
    · exact ⟨node, member, .inr isPrefix⟩
    · exact ⟨node, member, .inl isPrefix⟩
  · intro marked
    obtain ⟨node, member, above | below⟩ := marked
    · by_cases same : node = path
      · exact .inl ⟨node, member, same ▸ List.prefix_rfl⟩
      · exact .inr ⟨node, member, above, .inl same⟩
    · exact .inl ⟨node, member, below⟩

theorem anyChanged_iff (refines : root.Refines nodes) (lawful : lib.Lawful)
    (wellNamed : root.desc.WellNamed) {paths : List (List Str)}
    (pathNodes : ∀ path ∈ paths, root.desc.tree.IsNode (view ++ path)) :
    ∃ result,
      root.anyChanged lib (dotted view) (paths.map dotted) = .ok result ∧
        (result = true ↔ ∃ path ∈ paths,
          ∃ node ∈ nodes, node <+: view ++ path ∨ view ++ path <+: node) := by
  induction paths with
  | nil => exact ⟨false, rfl, by simp⟩
  | cons path paths induction =>
      have node := pathNodes path (by simp)
      have named : Named (view ++ path) := wellNamed.names node
      have viewNamed : Named view :=
        fun name member => named name (List.mem_append_left _ member)
      have pathNamed : Named path :=
        fun name member => named name (List.mem_append_right _ member)
      obtain ⟨sub, found⟩ := (FieldDesc.isNode_iff _ _).mp node
      obtain ⟨-, start, index⟩ := exists_index found
      have touched := refines.touched_iff lawful wellNamed found index
      simp only [List.map_cons, Root.anyChanged,
        join_view viewNamed pathNamed, descAt_dotted _ named, found,
        lawful.bitForPath_dotted _ _ named, index, Option.getD_some,
        lawful.totalBits_eq]
      split
      · rename_i marked
        exact ⟨true, rfl, by simp [← touched, marked]⟩
      · rename_i unmarked
        obtain ⟨result, rest, rest_iff⟩ := induction
          fun other member => pathNodes other (by simp [member])
        refine ⟨result, rest, ?_⟩
        rw [rest_iff]
        simp [← touched, unmarked]

/-- `changed` sees every marked node above, at or below one of the fields, or
of the view when no field is given. -/
theorem changed_iff (refines : root.Refines nodes) (lawful : lib.Lawful)
    (wellNamed : root.desc.WellNamed) (viewNode : root.desc.tree.IsNode view)
    {paths : List (List Str)}
    (pathNodes : ∀ path ∈ paths, root.desc.tree.IsNode (view ++ path)) :
    ∃ result,
      root.changed lib (dotted view) (paths.map dotted) = .ok result ∧
        (result = true ↔ ∃ path ∈ if paths = [] then [[]] else paths,
          ∃ node ∈ nodes, node <+: view ++ path ∨ view ++ path <+: node) := by
  by_cases empty : paths = []
  · subst empty
    have whole : ∀ path ∈ [[]], root.desc.tree.IsNode (view ++ path) := by
      simpa using viewNode
    exact refines.anyChanged_iff lawful wellNamed whole
  · simpa [Root.changed, empty] using
      refines.anyChanged_iff lawful wellNamed pathNodes

/-- A node below a view is marked when its bit, counted from the view, is. -/
theorem mem_nodes_iff (refines : root.Refines nodes) {sub : FieldDesc}
    {bit : Nat} (found : root.desc.atPath? view = some sub)
    (index : root.desc.tree.index? view = some bit) (front : List Str) :
    view ++ front ∈ nodes ↔ ∃ number,
      sub.tree.index? front = some number ∧ bit + number ∈ root.marks := by
  have below : root.desc.tree.index? (view ++ front) =
      (sub.tree.index? front).map (bit + ·) :=
    LabelTree.index?_append (exists_index found).1 index front
  constructor
  · intro member
    obtain ⟨number, nodeIndex⟩ := (refines.isNode _ member).index
    have marked := (refines.mem_marks_iff nodeIndex).mpr member
    rw [below, Option.map_eq_some_iff] at nodeIndex
    obtain ⟨inner, innerIndex, rfl⟩ := nodeIndex
    exact ⟨inner, innerIndex, marked⟩
  · intro marked
    obtain ⟨number, innerIndex, member⟩ := marked
    rw [innerIndex, Option.map_some] at below
    exact (refines.mem_marks_iff below).mp member

/-- What the collection inherits or covers is what has a marked node above or
at it. -/
theorem reached_iff (refines : root.Refines nodes) (lawful : lib.Lawful)
    (wellNamed : root.desc.WellNamed) {sub : FieldDesc} {bit : Nat}
    (found : root.desc.atPath? view = some sub)
    (index : root.desc.tree.index? view = some bit) (path : List Str) :
    ((decide (0 ∈ root.marks) ||
          root.ancestorMarked lib (dotted view)) = true ∨
        sub.Covered bit root.marks path) ↔
      ∃ node ∈ nodes, node <+: view ++ path := by
  rw [refines.inherited_iff lawful wellNamed
    (LabelTree.IsNode.of_index index)]
  constructor
  · intro reached
    rcases reached with ⟨node, member, isPrefix, -⟩ | covered
    · exact ⟨node, member, isPrefix.trans (List.prefix_append _ _)⟩
    · obtain ⟨front, number, isPrefix, numberEq, marked⟩ := covered
      exact ⟨view ++ front,
        (refines.mem_nodes_iff found index front).mpr
          ⟨number, numberEq, marked⟩,
        (List.prefix_append_right_inj view).mpr isPrefix⟩
  · intro reached
    obtain ⟨node, member, isPrefix⟩ := reached
    rcases (prefix_append_iff node view path).mp isPrefix with
      ⟨above, different⟩ | ⟨front, frontPrefix, rfl⟩
    · exact .inl ⟨node, member, above, .inl different⟩
    · obtain ⟨number, numberEq, marked⟩ :=
        (refines.mem_nodes_iff found index front).mp member
      exact .inr ⟨front, number, frontPrefix, numberEq, marked⟩

/-- With `expand`, the changed set holds the leaves below the view that are
marked or below a marked node. -/
theorem changedSet_expand_iff (refines : root.Refines nodes)
    (lawful : lib.Lawful) (wellNamed : root.desc.WellNamed)
    (node : root.desc.tree.IsNode view) :
    ∃ paths, root.changedSet lib (dotted view) true false = .ok paths ∧
      ∀ text, text ∈ paths ↔ ∃ path, text = dotted path ∧ path ≠ [] ∧
        root.desc.IsLeaf (view ++ path) ∧
          ∃ node ∈ nodes, node <+: view ++ path := by
  have named : Named view := wellNamed.names node
  obtain ⟨sub, found⟩ := (FieldDesc.isNode_iff _ _).mp node
  obtain ⟨subtree, bit, index⟩ := exists_index found
  have inherited := refines.inherited_iff lawful wellNamed node
  simp only [Root.changedSet, descAt_dotted _ named, found,
    lawful.bitForPath_dotted _ _ named, index, Option.getD_some]
  refine ⟨_, rfl, ?_⟩
  intro text
  rw [List.mem_toFinset, show ([] : Str) = dotted [] from rfl,
    mem_collectMarked_expand_iff lawful (wellNamed.atPath? found) bit
      Named.nil]
  have leaf_iff (path : List Str) :
      sub.IsLeaf path ↔ root.desc.IsLeaf (view ++ path) := by
    simp [FieldDesc.IsLeaf, FieldDesc.atPath?_append, found]
  simp only [leaf_iff, refines.reached_iff lawful wellNamed found index,
    List.nil_append]

/-- Without `expand`, it holds the marked nodes below the view that are not
below another marked node. -/
theorem changedSet_iff (refines : root.Refines nodes)
    (lawful : lib.Lawful) (wellNamed : root.desc.WellNamed)
    (node : root.desc.tree.IsNode view) :
    ∃ paths, root.changedSet lib (dotted view) false false = .ok paths ∧
      ∀ text, text ∈ paths ↔ ∃ path, text = dotted path ∧ path ≠ [] ∧
        view ++ path ∈ nodes ∧
          ∀ above ∈ nodes, above <+: view ++ path → above = view ++ path := by
  have named : Named view := wellNamed.names node
  obtain ⟨sub, found⟩ := (FieldDesc.isNode_iff _ _).mp node
  obtain ⟨subtree, bit, index⟩ := exists_index found
  have inherited_iff := refines.inherited_iff lawful wellNamed node
  simp only [Root.changedSet, descAt_dotted _ named, found,
    lawful.bitForPath_dotted _ _ named, index, Option.getD_some]
  refine ⟨_, rfl, ?_⟩
  intro text
  rw [List.mem_toFinset]
  cases inherited : decide (0 ∈ root.marks) ||
      root.ancestorMarked lib (dotted view) with
  | true =>
      obtain ⟨above, member, isPrefix, strict⟩ := inherited_iff.mp inherited
      have nothing : collectMarked lib sub bit [] root.marks true false =
          [] := by
        cases sub <;> simp [collectMarked]
      rw [nothing]
      simp only [List.not_mem_nil, false_iff]
      intro top
      obtain ⟨path, -, nonempty, -, first⟩ := top
      have whole := first above member
        (isPrefix.trans (List.prefix_append _ _))
      rw [whole] at isPrefix
      have length := isPrefix.length_le
      simp only [List.length_append] at length
      have short : path.length = 0 := by omega
      exact nonempty (List.eq_nil_of_length_eq_zero short)
  | false =>
      have nothing : ¬∃ above ∈ nodes, above <+: view ∧
          (above ≠ view ∨ above = []) := by
        rw [← inherited_iff, inherited]
        simp
      have marked_iff := refines.mem_nodes_iff found index
      rw [show ([] : Str) = dotted [] from rfl,
        mem_collectMarked_top_iff lawful (wellNamed.atPath? found) bit
          Named.nil]
      constructor
      · intro collected
        obtain ⟨path, number, textEq, nonempty, numberEq, member, bare⟩ :=
          collected
        refine ⟨path, by simpa using textEq, by simpa using nonempty,
          (marked_iff path).mpr ⟨number, numberEq, member⟩, ?_⟩
        intro above aboveMember isPrefix
        rcases (prefix_append_iff above view path).mp isPrefix with
          ⟨higher, different⟩ | ⟨front, frontPrefix, rfl⟩
        · exact (nothing ⟨above, aboveMember, higher, .inl different⟩).elim
        · by_contra different
          obtain ⟨other, otherEq, marked⟩ :=
            (marked_iff front).mp aboveMember
          exact bare front other frontPrefix
            (fun same => different (by rw [same])) otherEq marked
      · intro top
        obtain ⟨path, textEq, nonempty, member, first⟩ := top
        obtain ⟨number, numberEq, marked⟩ := (marked_iff path).mp member
        refine ⟨path, number, by simpa using textEq, by simpa using nonempty,
          numberEq, marked, ?_⟩
        intro above other isPrefix different otherEq aboveMarked
        have aboveMember := (marked_iff above).mpr
          ⟨other, otherEq, aboveMarked⟩
        have same := first _ aboveMember
          ((List.prefix_append_right_inj view).mpr isPrefix)
        exact different (List.append_cancel_left same)

theorem covered_iff (refines : root.Refines nodes) (path : List Str) :
    root.desc.Covered 0 root.marks path ↔ ∃ node ∈ nodes, node <+: path := by
  have marked_iff := refines.mem_nodes_iff (FieldDesc.atPath?_nil root.desc)
    (LabelTree.index?_nil _)
  constructor
  · intro covered
    obtain ⟨front, number, isPrefix, numberEq, marked⟩ := covered
    exact ⟨front, (marked_iff front).mpr ⟨number, numberEq, marked⟩, isPrefix⟩
  · intro reached
    obtain ⟨node, member, isPrefix⟩ := reached
    obtain ⟨number, numberEq, marked⟩ := (marked_iff node).mp member
    exact ⟨node, number, isPrefix, numberEq, marked⟩

/-- What a put sends: the leaves of the expanded change set of the root, each
with its own field. -/
theorem markedLeaves_iff (refines : root.Refines nodes)
    (lawful : lib.Lawful) (wellNamed : root.desc.WellNamed) :
    ∃ leaves paths, root.markedLeaves lib [] = .ok leaves ∧
      root.changedSet lib [] true false = .ok paths ∧
      (∀ text field, (text, field) ∈ leaves ↔
        text ∈ paths ∧ fieldAt root.field text = some field) ∧
      ∀ text ∈ paths, ∃ field, (text, field) ∈ leaves := by
  have top : root.desc.tree.IsNode [] := by simp [LabelTree.IsNode]
  obtain ⟨paths, pathsEq, paths_iff⟩ :=
    refines.changedSet_expand_iff lawful wellNamed top
  have collected (text : Str) :
      text ∈ collectMarked lib root.desc 0 [] root.marks false true ↔
        text ∈ paths := by
    rw [paths_iff, show ([] : Str) = dotted [] from rfl,
      mem_collectMarked_expand_iff lawful wellNamed 0 Named.nil]
    simp [refines.covered_iff]
  have leaves_iff (text : Str) (field : PvField) :
      (text, field) ∈ (collectMarked lib root.desc 0 [] root.marks false
          true).filterMap (fun path =>
            (fieldAt root.field path).map fun field => (path, field)) ↔
        text ∈ paths ∧ fieldAt root.field text = some field := by
    rw [← collected, List.mem_filterMap]
    constructor
    · intro member
      obtain ⟨path, inside, found⟩ := member
      obtain ⟨other, otherFound, same⟩ := Option.map_eq_some_iff.mp found
      obtain ⟨rfl, rfl⟩ : path = text ∧ other = field := by
        simpa using same
      exact ⟨inside, otherFound⟩
    · intro member
      exact ⟨text, member.1, by simp [member.2]⟩
  refine ⟨_, paths, rfl, pathsEq, leaves_iff, ?_⟩
  intro text member
  obtain ⟨path, rfl, -, leaf, -⟩ := (paths_iff text).mp member
  obtain ⟨sub, found, -⟩ := leaf
  have named : Named path :=
    wellNamed.names ((FieldDesc.isNode_iff _ _).mpr ⟨sub, found⟩)
  obtain ⟨field, fieldFound, -⟩ := refines.fits.atPath? found
  exact ⟨field, (leaves_iff _ _).mpr
    ⟨member, by rw [fieldAt_dotted _ named]; exact fieldFound⟩⟩

end Root.Refines

/-- A value starts with the bits of a set of nodes, of none when it is fresh.
After any edits through any views its bits are still the numbers of that set,
updated in the obvious way, and the queries read the set. -/
theorem marks_refine_nodes {lib : PvData} (lawful : lib.Lawful)
    {Obj : Type} (conversions : Conversions Obj) {start : Root}
    (wellNamed : start.desc.WellNamed) {startNodes : Set (List Str)}
    (startRefines : start.Refines startNodes)
    {edits : List (List Str × Edit (List Str) Obj)}
    (named : ∀ step ∈ edits, Named step.1 ∧ step.2.Named) :
    let desc := start.desc
    let root := start.after lib conversions edits
    let nodes := Edit.nodesAfter conversions desc startNodes edits
    (∀ bit, bit ∈ root.marks ↔
      ∃ node ∈ nodes, desc.tree.index? node = some bit) ∧
    (∀ view, desc.tree.IsNode view →
      (∀ paths, (∀ path ∈ paths, desc.tree.IsNode (view ++ path)) →
        ∃ result,
          root.changed lib (dotted view) (paths.map dotted) = .ok result ∧
          (result = true ↔ ∃ path ∈ if paths = [] then [[]] else paths,
            ∃ node ∈ nodes,
              node <+: view ++ path ∨ view ++ path <+: node)) ∧
      (∃ paths, root.changedSet lib (dotted view) true false = .ok paths ∧
        ∀ text, text ∈ paths ↔ ∃ path, text = dotted path ∧ path ≠ [] ∧
          desc.IsLeaf (view ++ path) ∧
            ∃ node ∈ nodes, node <+: view ++ path) ∧
      (∃ paths, root.changedSet lib (dotted view) false false = .ok paths ∧
        ∀ text, text ∈ paths ↔ ∃ path, text = dotted path ∧ path ≠ [] ∧
          view ++ path ∈ nodes ∧
            ∀ above ∈ nodes, above <+: view ++ path →
              above = view ++ path)) ∧
    (∃ leaves paths, root.markedLeaves lib [] = .ok leaves ∧
      root.changedSet lib [] true false = .ok paths ∧
      (∀ text leaf, (text, leaf) ∈ leaves ↔
        text ∈ paths ∧ fieldAt root.field text = some leaf) ∧
      ∀ text ∈ paths, ∃ leaf, (text, leaf) ∈ leaves) := by
  intro desc root nodes
  obtain ⟨refines, sameDesc⟩ := startRefines.after lawful conversions
    wellNamed named
  have rootNamed : root.desc.WellNamed := sameDesc ▸ wellNamed
  have sameRoot : root.desc = desc := sameDesc
  rw [← sameRoot]
  refine ⟨refines.marked, ?_, refines.markedLeaves_iff lawful rootNamed⟩
  intro view node
  refine ⟨?_, refines.changedSet_expand_iff lawful rootNamed node,
    refines.changedSet_iff lawful rootNamed node⟩
  intro paths pathNodes
  exact refines.changed_iff lawful rootNamed node pathNodes

/-- Integers and dicts of integers. -/
def intObjects : Conversions (List (Str × Int) ⊕ Int) where
  entries
    | .inl items => .ok (items.map fun (key, value) => (.ok key, .inr value))
    | .inr _ => .error
        (.conversion "a structure takes a dict or Value, not int".toList)
  convert
    | .scalar .long, .inr value =>
        .ok (.scalar (.long (Int64.ofInt value)))
    | _, _ => .error (.conversion "must be real number, not dict".toList)
  defaultValueFor _ := .null

def point : FieldDesc :=
  .struct [] [("p".toList, .struct [] [("x".toList, .scalar .long),
    ("y".toList, .scalar .long)])]

/-- A member assigned through a view is changed for the root. -/
theorem marks_refine_nodes_point :
    let zero : PvField := .scalar (.long 0)
    let field : PvField := .struct [] [("p".toList,
      .struct [] [("x".toList, zero), ("y".toList, zero)])]
    let edits : List (List Str × Edit (List Str) _) :=
      [(["p".toList], .setItem ["x".toList] (.inr 7)),
        ([], .mark (some ["p".toList, "y".toList]) false)]
    let root := (Root.mk point field ∅).after .depthFirst intObjects edits
    root.changed .depthFirst [] ["p".toList] = .ok true := by
  intro zero field edits root
  have wellNamed : point.WellNamed := by
    simp [point, FieldDesc.WellNamed, FieldDesc.tree, FieldDesc.memberTrees,
      LabelTree.Hereditary, LabelTree.ForestHereditary, Separated.IsKey]
  have fits : PvField.Fits point field := by
    simp [point, field, PvField.Fits, PvField.FitMembers]
  have named : ∀ step ∈ edits, Named step.1 ∧ step.2.Named := by
    simp [edits, Named, Edit.Named, Separated.IsKey]
  have refined := marks_refine_nodes PvData.depthFirst_lawful intObjects
    wellNamed (Root.Refines.fresh fits) named
  obtain ⟨result, equal, result_iff⟩ :=
    (refined.2.1 [] (by decide)).1 [["p".toList]] (by decide)
  have marked : result = true := by
    rw [result_iff]
    refine ⟨["p".toList], by simp, ["p".toList, "x".toList], ?_, by decide⟩
    exact ⟨.inr ⟨.scalar .long, by decide, [], by decide, rfl⟩, by decide⟩
  rw [marked] at equal
  exact equal

end Repics.Pva
