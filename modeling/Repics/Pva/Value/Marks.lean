import Mathlib.Data.Set.Basic
import Repics.Pva.Value.Root

/-!
# Change marks as a set of tree nodes

The bits of a root are the depth-first numbers of a set of nodes, and every
operation updates that set in the obvious way: marking a field adds it,
marking a view adds its whole subtree, unmarking removes a subtree, assigning
and selecting add the leaves that were written.
-/

namespace Repics.Pva

/-- Every name of the path can stand in a dotted path. -/
def Named (path : List Str) : Prop :=
  ∀ name ∈ path, MemberName name

theorem Named.append {front back : List Str} (frontNamed : Named front)
    (backNamed : Named back) : Named (front ++ back) := by
  intro name member
  rcases List.mem_append.mp member with inFront | inBack
  · exact frontNamed name inFront
  · exact backNamed name inBack

theorem Named.nil : Named [] := by
  simp [Named]

namespace Edit

variable {Obj : Type}

/-- The field name of an edit can stand in a dotted path. -/
def Named : Edit (List Str) Obj → Prop
  | .mark field _ => ∀ path ∈ field, Pva.Named path
  | .setItem key _ => Pva.Named key
  | .assignRoot _ => True
  | .select field _ => Pva.Named field

/-- The nodes an assignment at a path writes. -/
def assigned (conversions : Conversions Obj) (desc : FieldDesc)
    (path : List Str) (obj : Obj) : Set (List Str) :=
  {node | ∃ sub, desc.atPath? path = some sub ∧
    ∃ rest ∈ (written conversions sub obj).1, node = path ++ rest}

/-- The nodes a selection writes: the union itself, if it has the member. -/
def selectedNodes (desc : FieldDesc) (path : List Str)
    (selector : Option Str) : Set (List Str) :=
  {node | node = path ∧ ∃ structId variants,
    desc.atPath? path = some (.union structId variants) ∧
      ∀ name ∈ selector, name ∈ variants.map Prod.fst}

/-- What an edit through a view does to a set of nodes. -/
def onNodes (conversions : Conversions Obj) (desc : FieldDesc)
    (view : List Str) (nodes : Set (List Str)) :
    Edit (List Str) Obj → Set (List Str)
  | .mark (some field) true =>
      nodes ∪ {node | node = view ++ field ∧ desc.tree.IsNode node}
  | .mark none true =>
      nodes ∪ {node | view <+: node ∧ desc.tree.IsNode node}
  | .mark field false =>
      {node ∈ nodes | ¬view ++ field.getD [] <+: node}
  | .setItem key obj =>
      nodes ∪ assigned conversions desc (view ++ key) obj
  | .assignRoot obj => nodes ∪ assigned conversions desc view obj
  | .select field selector =>
      nodes ∪ selectedNodes desc (view ++ field) selector

end Edit

/-- The field of the root fits, and its bits are the numbers of the nodes. -/
structure Root.Refines (root : Root) (nodes : Set (List Str)) : Prop where
  fits : PvField.Fits root.desc root.field
  isNode : ∀ node ∈ nodes, root.desc.tree.IsNode node
  marked : ∀ bit, bit ∈ root.marks ↔
    ∃ node ∈ nodes, root.desc.tree.index? node = some bit

section Paths

variable {lib : PvData} {desc : FieldDesc} {view path : List Str}

theorem join_view (viewNamed : Named view) (named : Named path) :
    join (dotted view) (dotted path) = dotted (view ++ path) :=
  join_dotted viewNamed named

theorem descAt_view (viewNamed : Named view) (named : Named path) :
    descAt desc (join (dotted view) (dotted path)) =
      desc.atPath? (view ++ path) := by
  rw [join_view viewNamed named, descAt_dotted _ (viewNamed.append named)]

theorem bitForPath_view (lawful : lib.Lawful) (viewNamed : Named view)
    (named : Named path) :
    lib.bitForPath desc (join (dotted view) (dotted path)) =
      desc.tree.index? (view ++ path) := by
  rw [join_view viewNamed named,
    lawful.bitForPath_dotted _ _ (viewNamed.append named)]

theorem fieldAt_view {field : PvField} (viewNamed : Named view)
    (named : Named path) :
    fieldAt field (join (dotted view) (dotted path)) =
      field.atPath? (view ++ path) := by
  rw [join_view viewNamed named, fieldAt_dotted _ (viewNamed.append named)]

theorem exists_index {sub : FieldDesc}
    (found : desc.atPath? path = some sub) :
    desc.tree.at? path = some sub.tree ∧
      ∃ bit, desc.tree.index? path = some bit := by
  have subtree : desc.tree.at? path = some sub.tree := by
    rw [FieldDesc.at?_tree, found, Option.map_some]
  have node : desc.tree.IsNode path := by
    simp [LabelTree.IsNode, subtree]
  exact ⟨subtree, node.index⟩

/-- The numbers of a subtree are those of the nodes below its root. -/
theorem mem_span_iff (wellNamed : desc.WellNamed) {sub : FieldDesc}
    {start : Nat} (found : desc.atPath? path = some sub)
    (index : desc.tree.index? path = some start) (bit : Nat) :
    (start ≤ bit ∧ bit < start + sub.tree.size) ↔
      ∃ node, path <+: node ∧ desc.tree.index? node = some bit := by
  have subtree := (exists_index found).1
  constructor
  · intro inside
    obtain ⟨rest, inner⟩ := LabelTree.exists_index?
      (fun _ good => good.1) sub.tree (wellNamed.atPath? found)
      (show bit - start < sub.tree.size by omega)
    refine ⟨path ++ rest, List.prefix_append _ _, ?_⟩
    rw [LabelTree.index?_append subtree index, inner, Option.map_some]
    congr 1
    omega
  · intro below
    obtain ⟨node, isPrefix, nodeIndex⟩ := below
    exact (LabelTree.index?_mem_range_iff subtree index nodeIndex).mpr
      isPrefix

end Paths

namespace Root.Refines

variable {root : Root} {nodes : Set (List Str)} {path : List Str}

theorem fresh {desc : FieldDesc} {field : PvField}
    (fits : PvField.Fits desc field) :
    (Root.mk desc field ∅).Refines ∅ where
  fits := fits
  isNode node member := member.elim
  marked bit := by simp

theorem same_nodes (refines : root.Refines nodes) {other : Set (List Str)}
    (same : ∀ node, node ∈ other ↔ node ∈ nodes) : root.Refines other := by
  have equal : other = nodes := Set.ext same
  exact equal ▸ refines

theorem insertBit (refines : root.Refines nodes) {bit : Nat}
    (index : root.desc.tree.index? path = some bit) {field : PvField}
    (fits : PvField.Fits root.desc field) :
    (Root.mk root.desc field (insert bit root.marks)).Refines
      (nodes ∪ {node | node = path ∧ root.desc.tree.IsNode node}) where
  fits := fits
  isNode node member := by
    rcases member with old | new
    · exact refines.isNode node old
    · exact new.2
  marked number := by
    have isNode := LabelTree.IsNode.of_index index
    simp only [Finset.mem_insert, refines.marked number, Set.mem_union,
      Set.mem_ofPred_eq, or_and_right, exists_or]
    constructor
    · intro marked
      rcases marked with rfl | old
      · exact .inr ⟨path, ⟨rfl, isNode⟩, index⟩
      · exact .inl old
    · intro marked
      rcases marked with old | new
      · exact .inr old
      · obtain ⟨_, ⟨rfl, -⟩, newIndex⟩ := new
        exact .inl (by simpa [index] using newIndex.symm)

theorem setSpan (refines : root.Refines nodes)
    (wellNamed : root.desc.WellNamed) {sub : FieldDesc} {start : Nat}
    (found : root.desc.atPath? path = some sub)
    (index : root.desc.tree.index? path = some start) :
    ({ root with
        marks := root.marks ∪ Finset.Ico start (start + sub.tree.size) } :
      Root).Refines
      (nodes ∪ {node | path <+: node ∧ root.desc.tree.IsNode node}) where
  fits := refines.fits
  isNode node member := by
    rcases member with old | new
    · exact refines.isNode node old
    · exact new.2
  marked number := by
    simp only [Finset.mem_union, Finset.mem_Ico, refines.marked number,
      mem_span_iff wellNamed found index, Set.mem_union, Set.mem_ofPred_eq,
      or_and_right, exists_or]
    apply or_congr_right
    constructor
    · intro below
      obtain ⟨node, isPrefix, nodeIndex⟩ := below
      exact ⟨node, ⟨isPrefix, LabelTree.IsNode.of_index nodeIndex⟩,
        nodeIndex⟩
    · intro below
      obtain ⟨node, ⟨isPrefix, -⟩, nodeIndex⟩ := below
      exact ⟨node, isPrefix, nodeIndex⟩

theorem clearSpan (refines : root.Refines nodes)
    (wellNamed : root.desc.WellNamed) {sub : FieldDesc} {start : Nat}
    (found : root.desc.atPath? path = some sub)
    (index : root.desc.tree.index? path = some start) :
    ({ root with
        marks := root.marks.filter fun bit =>
          bit < start ∨ start + sub.tree.size ≤ bit } : Root).Refines
      {node ∈ nodes | ¬path <+: node} where
  fits := refines.fits
  isNode node member := refines.isNode node member.1
  marked number := by
    have span := mem_span_iff wellNamed found index number
    have outside : (number < start ∨ start + sub.tree.size ≤ number) ↔
        ¬∃ node, path <+: node ∧
          root.desc.tree.index? node = some number := by
      rw [← span]
      omega
    simp only [Finset.mem_filter, refines.marked number, outside,
      Set.mem_ofPred_eq]
    constructor
    · intro kept
      obtain ⟨⟨node, member, nodeIndex⟩, none⟩ := kept
      exact ⟨node, ⟨member, fun isPrefix => none ⟨node, isPrefix, nodeIndex⟩⟩,
        nodeIndex⟩
    · intro kept
      obtain ⟨node, ⟨member, apart⟩, nodeIndex⟩ := kept
      refine ⟨⟨node, member, nodeIndex⟩, ?_⟩
      intro below
      obtain ⟨other, isPrefix, otherIndex⟩ := below
      exact apart (LabelTree.index?_injective nodeIndex otherIndex ▸ isPrefix)

variable {lib : PvData} {view : List Str}

theorem markSpan (refines : root.Refines nodes) (lawful : lib.Lawful)
    (wellNamed : root.desc.WellNamed) (viewNamed : Named view)
    (named : Named path) {val ok : Bool} {changed : Root}
    (result : root.markSpan lib (join (dotted view) (dotted path)) val =
      (changed, ok)) :
    changed.Refines
      (if val then
        nodes ∪ {node | view ++ path <+: node ∧ root.desc.tree.IsNode node}
      else {node ∈ nodes | ¬view ++ path <+: node}) ∧
    (ok = false → changed = root) ∧ changed.desc = root.desc := by
  cases found : root.desc.atPath? (view ++ path) with
  | none =>
      have absent (node : List Str) (isNode : root.desc.tree.IsNode node) :
          ¬view ++ path <+: node := by
        intro isPrefix
        obtain ⟨rest, rfl⟩ := isPrefix
        obtain ⟨sub, subFound⟩ :=
          (FieldDesc.isNode_iff _ _).mp isNode.of_front
        simp [found] at subFound
      simp only [Root.markSpan, descAt_view viewNamed named, found,
        Prod.mk.injEq] at result
      obtain ⟨rfl, -⟩ := result
      refine ⟨refines.same_nodes ?_, fun _ => rfl, rfl⟩
      intro node
      cases val with
      | true =>
          simp only [if_true, Set.mem_union, Set.mem_ofPred_eq,
            or_iff_left_iff_imp]
          intro new
          exact (absent node new.2 new.1).elim
      | false =>
          simp only [Bool.false_eq_true, if_false, Set.mem_ofPred_eq,
            and_iff_left_iff_imp]
          intro member
          exact absent node (refines.isNode node member)
  | some sub =>
      obtain ⟨-, start, index⟩ := exists_index found
      simp only [Root.markSpan, descAt_view viewNamed named, found,
        bitForPath_view lawful viewNamed named, index,
        lawful.totalBits_eq] at result
      cases val with
      | true =>
          simp only [if_true, Prod.mk.injEq] at result
          obtain ⟨rfl, rfl⟩ := result
          exact ⟨refines.setSpan wellNamed found index, by simp, rfl⟩
      | false =>
          simp only [Bool.false_eq_true, if_false, Prod.mk.injEq] at result
          obtain ⟨rfl, rfl⟩ := result
          exact ⟨refines.clearSpan wellNamed found index, by simp, rfl⟩

theorem mark (refines : root.Refines nodes) (lawful : lib.Lawful)
    (wellNamed : root.desc.WellNamed) (viewNamed : Named view)
    {Obj : Type} (conversions : Conversions Obj)
    {field : Option (List Str)} (named : ∀ path ∈ field, Named path)
    (val : Bool) :
    (root.mark lib (dotted view) (field.map dotted) val).1.Refines
        ((Edit.mark field val : Edit (List Str) Obj).onNodes conversions
          root.desc view nodes) ∧
      (root.mark lib (dotted view) (field.map dotted) val).1.desc =
        root.desc := by
  cases field with
  | none =>
      rcases result : root.markSpan lib (join (dotted view) (dotted [])) val
        with ⟨changed, ok⟩
      obtain ⟨spanned, kept, sameDesc⟩ :=
        refines.markSpan lawful wellNamed viewNamed Named.nil result
      have outcome : (root.mark lib (dotted view) none val).1 = changed := by
        have text : dotted ([] : List Str) = [] := rfl
        rw [text] at result
        simp only [Root.mark, Option.getD_none, result]
        cases ok with
        | true => rfl
        | false => exact (kept rfl).symm
      rw [Option.map_none, outcome]
      refine ⟨?_, sameDesc⟩
      cases val with
      | true => simpa [Edit.onNodes] using spanned
      | false => simpa [Edit.onNodes] using spanned
  | some path =>
      have pathNamed : Named path := named path rfl
      simp only [Option.map_some, Root.mark, Option.getD_some,
        bitForPath_view lawful viewNamed pathNamed]
      cases index : root.desc.tree.index? (view ++ path) with
      | none =>
          refine ⟨refines.same_nodes ?_, rfl⟩
          have absent : ¬root.desc.tree.IsNode (view ++ path) := by
            intro isNode
            obtain ⟨bit, found⟩ := isNode.index
            simp [index] at found
          intro node
          cases val with
          | true =>
              simp only [Edit.onNodes, Set.mem_union, Set.mem_ofPred_eq,
                or_iff_left_iff_imp]
              intro new
              exact (absent (new.1 ▸ new.2)).elim
          | false =>
              simp only [Edit.onNodes, Option.getD_some, Set.mem_ofPred_eq,
                and_iff_left_iff_imp]
              intro member isPrefix
              obtain ⟨rest, rfl⟩ := isPrefix
              exact absent (refines.isNode _ member).of_front
      | some bit =>
          cases val with
          | true => exact ⟨refines.insertBit index refines.fits, rfl⟩
          | false =>
              rcases result : root.markSpan lib
                (join (dotted view) (dotted path)) false with ⟨changed, ok⟩
              obtain ⟨spanned, -, sameDesc⟩ :=
                refines.markSpan lawful wellNamed viewNamed pathNamed result
              exact ⟨by simpa [Edit.onNodes, result] using spanned,
                by simpa [result] using sameDesc⟩

theorem assignAt (refines : root.Refines nodes) (lawful : lib.Lawful)
    {Obj : Type} (conversions : Conversions Obj) (named : Named path)
    (obj : Obj) (missing : PyErr) :
    (root.assignAt lib conversions (dotted path) obj missing).1.Refines
        (nodes ∪ Edit.assigned conversions root.desc path obj) ∧
      (root.assignAt lib conversions (dotted path) obj missing).1.desc =
        root.desc := by
  cases found : root.desc.atPath? path with
  | none =>
      simp only [Root.assignAt, descAt_dotted _ named, found]
      exact ⟨refines.same_nodes (by simp [Edit.assigned, found]), trivial⟩
  | some sub =>
      obtain ⟨target, targetFound, targetFits⟩ := refines.fits.atPath? found
      obtain ⟨subtree, bit, index⟩ := exists_index found
      have wrote := @assign_wrote Obj lib conversions lawful sub bit target
        targetFits obj root.marks
      simp only [Root.assignAt, descAt_dotted _ named, found,
        fieldAt_dotted _ named, targetFound,
        lawful.bitForPath_dotted _ _ named, index, Option.getD_some,
        Separated.segments_render named]
      refine ⟨?_, trivial⟩
      exact {
        fits := refines.fits.putAt found wrote.fits
        isNode := by
          intro node member
          rcases member with old | new
          · exact refines.isNode node old
          · obtain ⟨other, otherFound, rest, restMember, rfl⟩ := new
            obtain rfl : sub = other := by simpa [found] using otherFound
            obtain ⟨leaf, leafFound, -⟩ := wrote.leaves rest restMember
            refine (FieldDesc.isNode_iff _ _).mpr ⟨leaf, ?_⟩
            rw [FieldDesc.atPath?_append, found, Option.bind_some, leafFound]
        marked := by
          intro number
          have below (rest : List Str) : root.desc.tree.index? (path ++ rest) =
              (sub.tree.index? rest).map (bit + ·) :=
            LabelTree.index?_append subtree index rest
          rw [wrote.marked number, refines.marked number]
          simp only [Set.mem_union, or_and_right, exists_or]
          apply or_congr_right
          constructor
          · intro new
            obtain ⟨rest, member, inner, innerIndex, rfl⟩ := new
            exact ⟨path ++ rest, ⟨sub, found, rest, member, rfl⟩,
              by rw [below, innerIndex, Option.map_some]⟩
          · intro new
            obtain ⟨_, ⟨other, otherFound, rest, member, rfl⟩, nodeIndex⟩ :=
              new
            obtain rfl : sub = other := by simpa [found] using otherFound
            rw [below, Option.map_eq_some_iff] at nodeIndex
            obtain ⟨inner, innerIndex, rfl⟩ := nodeIndex
            exact ⟨rest, member, inner, innerIndex, rfl⟩ }

theorem selected_isOk_iff {Obj : Type} (conversions : Conversions Obj)
    (variants : List (Str × FieldDesc)) (selector : Option Str) :
    (∃ target, Root.selected conversions variants selector = .ok target) ↔
      ∀ name ∈ selector, name ∈ variants.map Prod.fst := by
  cases selector with
  | none => simp [Root.selected]
  | some name =>
      have names : variants.map Prod.fst =
          (variants.zipIdx.map Prod.fst).map Prod.fst := by
        rw [List.zipIdx_map_fst]
      cases found : variants.zipIdx.find?
          (fun variant => variant.1.1 = name) with
      | none =>
          have absent : name ∉ variants.map Prod.fst := by
            rw [names]
            intro member
            obtain ⟨variant, inside, same⟩ := List.mem_map.mp member
            obtain ⟨numbered, numberedInside, rfl⟩ := List.mem_map.mp inside
            have different := List.find?_eq_none.mp found numbered numberedInside
            simp [same] at different
          simpa [Root.selected, found] using absent
      | some variant =>
          have member := List.mem_of_find?_eq_some found
          have matched := List.find?_some found
          have present : name ∈ variants.map Prod.fst := by
            rw [names]
            have same : variant.1.1 = name := by simpa using matched
            exact same ▸ List.mem_map_of_mem (List.mem_map_of_mem member)
          simpa [Root.selected, found] using present

theorem select (refines : root.Refines nodes) (lawful : lib.Lawful)
    {Obj : Type} (conversions : Conversions Obj) (viewNamed : Named view)
    (named : Named path) (selector : Option Str) :
    (root.select lib conversions (dotted view) (dotted path)
        selector).1.Refines
        (nodes ∪ Edit.selectedNodes root.desc (view ++ path) selector) ∧
      (root.select lib conversions (dotted view) (dotted path)
        selector).1.desc = root.desc := by
  simp only [Root.select, descAt_view viewNamed named]
  split
  · rename_i structId variants found
    obtain ⟨target, targetFound, -⟩ := refines.fits.atPath? found
    obtain ⟨subtree, bit, index⟩ := exists_index found
    simp only [fieldAt_view viewNamed named, targetFound,
      bitForPath_view lawful viewNamed named, index]
    have chosen_iff := selected_isOk_iff conversions variants selector
    cases chosen : Root.selected conversions variants selector with
    | error error =>
        refine ⟨refines.same_nodes ?_, rfl⟩
        intro node
        simp only [Set.mem_union, or_iff_left_iff_imp]
        intro new
        obtain ⟨-, otherId, other, otherFound, names⟩ := new
        obtain ⟨rfl, rfl⟩ : structId = otherId ∧ variants = other := by
          simpa [found] using otherFound
        obtain ⟨target, ok⟩ := chosen_iff.mpr names
        simp [chosen] at ok
    | ok target =>
        have names := chosen_iff.mp ⟨target, chosen⟩
        have targetFits : PvField.Fits (.union structId variants) target := by
          simp [PvField.Fits]
        have marked := refines.insertBit index
          (refines.fits.putAt found targetFits)
        rw [join_view viewNamed named,
          Separated.segments_render (viewNamed.append named)]
        refine ⟨marked.same_nodes ?_, rfl⟩
        intro node
        simp only [Set.mem_union, Edit.selectedNodes, Set.mem_ofPred_eq]
        apply or_congr_right
        apply and_congr_right
        intro same
        subst same
        simp only [LabelTree.IsNode.of_index index, iff_true]
        exact ⟨structId, variants, found, names⟩
  · rename_i notUnion
    refine ⟨refines.same_nodes ?_, rfl⟩
    intro node
    simp only [Set.mem_union, or_iff_left_iff_imp]
    intro new
    obtain ⟨-, structId, variants, found, -⟩ := new
    exact (notUnion structId variants found).elim

/-- Every edit updates the bits as it updates the set of nodes. -/
theorem edit (refines : root.Refines nodes) (lawful : lib.Lawful)
    (wellNamed : root.desc.WellNamed) {Obj : Type}
    (conversions : Conversions Obj) (viewNamed : Named view)
    {edit : Edit (List Str) Obj} (named : edit.Named) :
    (root.edit lib conversions (dotted view) (edit.map dotted)).1.Refines
        (edit.onNodes conversions root.desc view nodes) ∧
      (root.edit lib conversions (dotted view) (edit.map dotted)).1.desc =
        root.desc := by
  cases edit with
  | mark field val =>
      exact refines.mark lawful wellNamed viewNamed conversions named val
  | setItem key obj =>
      have keyNamed : Named key := named
      simp only [Edit.map, Root.edit, Root.setItem,
        join_view viewNamed keyNamed]
      exact refines.assignAt lawful conversions (viewNamed.append keyNamed)
        obj _
  | assignRoot obj =>
      exact refines.assignAt lawful conversions viewNamed obj _
  | select field selector =>
      exact refines.select lawful conversions viewNamed named selector

end Root.Refines

section Runs

variable {Obj : Type}

/-- A value after edits through views. -/
def Root.after (lib : PvData) (conversions : Conversions Obj) (root : Root)
    (edits : List (List Str × Edit (List Str) Obj)) : Root :=
  edits.foldl (fun root (view, edit) =>
    (root.edit lib conversions (dotted view) (edit.map dotted)).1) root

/-- The set of marked nodes after edits through views. -/
def Edit.nodesAfter (conversions : Conversions Obj) (desc : FieldDesc)
    (nodes : Set (List Str))
    (edits : List (List Str × Edit (List Str) Obj)) : Set (List Str) :=
  edits.foldl (fun nodes (view, edit) =>
    edit.onNodes conversions desc view nodes) nodes

theorem Root.Refines.after {lib : PvData} (lawful : lib.Lawful)
    (conversions : Conversions Obj) {root : Root} {nodes : Set (List Str)}
    (refines : root.Refines nodes) (wellNamed : root.desc.WellNamed)
    {edits : List (List Str × Edit (List Str) Obj)}
    (named : ∀ step ∈ edits, Named step.1 ∧ step.2.Named) :
    (root.after lib conversions edits).Refines
        (Edit.nodesAfter conversions root.desc nodes edits) ∧
      (root.after lib conversions edits).desc = root.desc := by
  induction edits generalizing root nodes with
  | nil => exact ⟨refines, rfl⟩
  | cons step edits induction =>
      obtain ⟨viewNamed, editNamed⟩ := named step (by simp)
      obtain ⟨stepRefines, sameDesc⟩ :=
        refines.edit lawful wellNamed conversions viewNamed editNamed
      have rest := induction stepRefines (sameDesc ▸ wellNamed)
        fun other member => named other (by simp [member])
      rw [sameDesc] at rest
      exact rest

end Runs

end Repics.Pva
