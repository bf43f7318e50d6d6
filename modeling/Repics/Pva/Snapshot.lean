import Repics.Lib.Squashed
import Repics.Pva.Field

/-!
# Copying by change set

`copyMarked` takes the marked members of one field into another, the way a
client applies an update.  A `Snapshot` is a complete value together with the
change set it was sent with.  A consumer that copies only what is marked keeps
up with a squashed sequence of snapshots as long as each of them marks what it
changed from the one before.
-/

namespace Repics.Pva

namespace FieldDesc

theorem covered_nil_iff (desc : FieldDesc) (bit : Nat) (marks : BitSet) :
    desc.Covered bit marks [] ↔ bit ∈ marks := by
  constructor
  · rintro ⟨front, number, isPrefix, index, member⟩
    obtain rfl : front = [] := List.prefix_nil.mp isPrefix
    simp only [LabelTree.index?_nil, Option.some.injEq] at index
    simpa [← index] using member
  · intro member
    exact ⟨[], 0, List.prefix_rfl, by simp, by simpa using member⟩

theorem isLeaf_cons_iff (desc : FieldDesc) (name : Str) (path : List Str) :
    desc.IsLeaf (name :: path) ↔
      ∃ child, desc.member? name = some child ∧ child.IsLeaf path := by
  simp only [IsLeaf, atPath?_cons, Option.bind_eq_some_iff]
  constructor
  · rintro ⟨sub, ⟨child, found, subFound⟩, leaf⟩
    exact ⟨child, found, sub, subFound, leaf⟩
  · rintro ⟨child, found, sub, subFound, leaf⟩
    exact ⟨sub, ⟨child, found, subFound⟩, leaf⟩

/-- The bit of a member, counted from the bit of its structure. -/
theorem named?_offset {members : List (Str × FieldDesc)} {name : Str}
    {child : FieldDesc} (found : named? members name = some child)
    (structId : Str) :
    ∃ before, LabelTree.offset? (memberTrees members) name = some before ∧
      (struct structId members).tree.index? [name] = some (1 + before) := by
  have childFound := child?_memberTrees members name
  rw [found] at childFound
  obtain ⟨before, offset⟩ := LabelTree.child?_offset? childFound
  refine ⟨before, offset, ?_⟩
  simp [LabelTree.index?_cons, tree, LabelTree.children, childFound, offset]

/-- Numbers below a member are counted from the number of the member. -/
theorem index?_member {desc child : FieldDesc} {name : Str} {before : Nat}
    (found : desc.member? name = some child)
    (index : desc.tree.index? [name] = some before) (path : List Str) :
    desc.tree.index? (name :: path) =
      (child.tree.index? path).map (before + ·) := by
  have subtree : desc.tree.at? [name] = some child.tree := by
    rw [at?_tree, atPath?_cons, found]
    simp
  exact LabelTree.index?_append subtree index path

/-- A member is covered through the structure or through its own bits. -/
theorem covered_cons_iff {desc child : FieldDesc} {name : Str}
    {before : Nat} (found : desc.member? name = some child)
    (index : desc.tree.index? [name] = some before) (bit : Nat)
    (marks : BitSet) (path : List Str) :
    desc.Covered bit marks (name :: path) ↔
      bit ∈ marks ∨ child.Covered (bit + before) marks path := by
  have below := index?_member found index
  constructor
  · rintro ⟨front, number, isPrefix, numberEq, member⟩
    cases front with
    | nil =>
        simp only [LabelTree.index?_nil, Option.some.injEq] at numberEq
        exact .inl (by simpa [← numberEq] using member)
    | cons label front =>
        obtain ⟨rfl, restPrefix⟩ := List.cons_prefix_cons.mp isPrefix
        rw [below, Option.map_eq_some_iff] at numberEq
        obtain ⟨inner, innerEq, rfl⟩ := numberEq
        exact .inr ⟨front, inner, restPrefix, innerEq,
          by simpa [Nat.add_assoc] using member⟩
  · rintro (member | ⟨front, inner, restPrefix, innerEq, member⟩)
    · exact ⟨[], 0, List.nil_prefix, by simp, by simpa using member⟩
    · refine ⟨name :: front, before + inner,
        List.cons_prefix_cons.mpr ⟨rfl, restPrefix⟩, ?_,
        by simpa [Nat.add_assoc] using member⟩
      rw [below, innerEq, Option.map_some]

end FieldDesc

namespace PvField

mutual

/-- The marked members of `new`, with everything below a marked structure,
and those of `old` elsewhere; `bit` is the bit of the field itself. -/
def copyMarked : FieldDesc → BitSet → Nat → PvField → PvField → PvField
  | .struct _ members, marks, bit, new, old =>
      if bit ∈ marks then new
      else
        match new, old with
        | .struct _ news, .struct structId olds =>
            .struct structId (copyMembers members marks (bit + 1) news olds)
        | _, _ => old
  | _, marks, bit, new, old => if bit ∈ marks then new else old

def copyMembers : List (Str × FieldDesc) → BitSet → Nat →
    List (Str × PvField) → List (Str × PvField) → List (Str × PvField)
  | (name, desc) :: members, marks, bit, (_, new) :: news, (_, old) :: olds =>
      (name, copyMarked desc marks bit new old) ::
        copyMembers members marks (bit + desc.tree.size) news olds
  | _, _, _, _, _ => []

end

mutual

theorem copyMarked_fits (desc : FieldDesc) (marks : BitSet) (bit : Nat)
    {new old : PvField} (newFits : Fits desc new) (oldFits : Fits desc old) :
    Fits desc (copyMarked desc marks bit new old) := by
  cases desc with
  | struct structId members =>
      cases new with
      | struct newId news =>
          cases old with
          | struct oldId olds =>
              simp only [copyMarked]
              split
              · exact newFits
              · simp only [Fits] at newFits oldFits ⊢
                exact ⟨oldFits.1,
                  copyMembers_fit members marks _ newFits.2 oldFits.2⟩
          | _ => simp [Fits] at oldFits
      | _ => simp [Fits] at newFits
  | _ => simp [Fits]

theorem copyMembers_fit (members : List (Str × FieldDesc)) (marks : BitSet)
    (bit : Nat) {news olds : List (Str × PvField)}
    (newFit : FitMembers members news) (oldFit : FitMembers members olds) :
    FitMembers members (copyMembers members marks bit news olds) := by
  cases members with
  | nil => simp [copyMembers, FitMembers]
  | cons entry members =>
      obtain ⟨name, desc⟩ := entry
      cases news with
      | nil => simp [FitMembers] at newFit
      | cons newEntry news =>
          obtain ⟨newName, new⟩ := newEntry
          cases olds with
          | nil => simp [FitMembers] at oldFit
          | cons oldEntry olds =>
              obtain ⟨oldName, old⟩ := oldEntry
              simp only [FitMembers] at newFit oldFit
              simp only [copyMembers, FitMembers, true_and]
              exact ⟨copyMarked_fits desc marks bit newFit.2.1 oldFit.2.1,
                copyMembers_fit members marks _ newFit.2.2 oldFit.2.2⟩

end

theorem named?_copyMembers {members : List (Str × FieldDesc)} {name : Str}
    {child : FieldDesc} {before : Nat}
    (found : FieldDesc.named? members name = some child)
    (offset : LabelTree.offset? (FieldDesc.memberTrees members) name =
      some before) (marks : BitSet) (bit : Nat)
    {news olds : List (Str × PvField)} (newFit : FitMembers members news)
    (oldFit : FitMembers members olds) :
    ∃ new old, named? news name = some new ∧ named? olds name = some old ∧
      named? (copyMembers members marks bit news olds) name =
        some (copyMarked child marks (bit + before) new old) := by
  induction members generalizing bit news olds before with
  | nil => simp at found
  | cons entry members induction =>
      obtain ⟨label, desc⟩ := entry
      cases news with
      | nil => simp [FitMembers] at newFit
      | cons newEntry news =>
          obtain ⟨newName, new⟩ := newEntry
          cases olds with
          | nil => simp [FitMembers] at oldFit
          | cons oldEntry olds =>
              obtain ⟨oldName, old⟩ := oldEntry
              simp only [FitMembers] at newFit oldFit
              obtain ⟨rfl, -, newTail⟩ := newFit
              obtain ⟨rfl, -, oldTail⟩ := oldFit
              rw [FieldDesc.named?_cons] at found
              simp only [FieldDesc.memberTrees, LabelTree.offset?] at offset
              simp only [copyMembers, named?_cons]
              by_cases same : oldName = name
              · simp only [same, if_true, Option.some.injEq] at found offset
                subst found offset
                exact ⟨new, old, by simp [same], by simp [same],
                  by simp [same]⟩
              · simp only [same, if_false, Option.map_eq_some_iff]
                  at found offset
                obtain ⟨rest, restEq, rfl⟩ := offset
                simpa [same, Nat.add_assoc] using
                  induction found restEq (bit + desc.tree.size)
                    newTail oldTail

theorem atPath?_copyMarked {desc : FieldDesc} {new old : PvField}
    (newFits : Fits desc new) (oldFits : Fits desc old) (marks : BitSet)
    (bit : Nat) {path : List Str} (leaf : desc.IsLeaf path) :
    (desc.Covered bit marks path →
      (copyMarked desc marks bit new old).atPath? path = new.atPath? path) ∧
    (¬desc.Covered bit marks path →
      (copyMarked desc marks bit new old).atPath? path =
        old.atPath? path) := by
  induction path generalizing desc new old bit with
  | nil =>
      obtain ⟨sub, found, notStructure⟩ := leaf
      simp only [FieldDesc.atPath?_nil, Option.some.injEq] at found
      subst found
      rw [FieldDesc.covered_nil_iff]
      cases desc with
      | struct _ _ => simp [FieldDesc.IsStructure] at notStructure
      | _ =>
          constructor
          · intro member
            simp [copyMarked, member]
          · intro bare
            simp [copyMarked, bare]
  | cons name path induction =>
      obtain ⟨child, found, childLeaf⟩ :=
        (FieldDesc.isLeaf_cons_iff desc name path).mp leaf
      cases desc with
      | struct structId members =>
          cases new with
          | struct newId news =>
              cases old with
              | struct oldId olds =>
                  obtain ⟨before, offset, index⟩ :=
                    FieldDesc.named?_offset found structId
                  rw [FieldDesc.covered_cons_iff found index]
                  simp only [Fits] at newFits oldFits
                  by_cases marked : bit ∈ marks
                  · simp [copyMarked, marked]
                  · obtain ⟨newSub, oldSub, newFound, oldFound, result⟩ :=
                      named?_copyMembers found offset marks (bit + 1)
                        newFits.2 oldFits.2
                    have below := induction
                      (newFits.2.fits_named found newFound)
                      (oldFits.2.fits_named found oldFound)
                      (bit + (1 + before)) childLeaf
                    simpa [copyMarked, marked, atPath?_cons, member?,
                      newFound, oldFound, result, Nat.add_assoc] using below
              | _ => simp [Fits] at oldFits
          | _ => simp [Fits] at newFits
      | _ => simp [FieldDesc.member?] at found

theorem copyMarked_copies {desc : FieldDesc} {new old : PvField}
    (newFits : Fits desc new) (oldFits : Fits desc old) (marks : BitSet) :
    Copies desc marks new old (copyMarked desc marks 0 new old) where
  fits := copyMarked_fits desc marks 0 newFits oldFits
  covered _ leaf := (atPath?_copyMarked newFits oldFits marks 0 leaf).1
  other _ leaf := (atPath?_copyMarked newFits oldFits marks 0 leaf).2

theorem Copies.eq_copyMarked {desc : FieldDesc} {marks : BitSet}
    {new old result : PvField} (wellNamed : desc.WellNamed)
    (newFits : Fits desc new) (oldFits : Fits desc old)
    (copies : Copies desc marks new old result) :
    result = copyMarked desc marks 0 new old := by
  have copied := copyMarked_copies newFits oldFits marks
  refine Fits.ext desc wellNamed _ _ copies.fits copied.fits ?_
  intro path leaf
  by_cases covered : desc.Covered 0 marks path
  · rw [copies.covered path leaf covered, copied.covered path leaf covered]
  · rw [copies.other path leaf covered, copied.other path leaf covered]

end PvField

/-- A complete value and the change set it was sent with. -/
structure Snapshot where
  value : PvField
  changed : BitSet

namespace Snapshot

/-- The newer value wins and the change sets are united. -/
def squash (tail item : Snapshot) : Option Snapshot :=
  some ⟨item.value, tail.changed ∪ item.changed⟩

/-- Copy the changed fields only. -/
def apply (desc : FieldDesc) (copy : PvField) (item : Snapshot) : PvField :=
  item.value.copyMarked desc item.changed 0 copy

/-- What a consumer holds that copies the changed fields of each item. -/
def consume (desc : FieldDesc) (copy : PvField)
    (items : List Snapshot) : PvField :=
  items.foldl (apply desc) copy

/-- The value of the last item. -/
def latest (start : PvField) (items : List Snapshot) : PvField :=
  (items.getLast?.map value).getD start

/-- The complete value after each partial one, with what that one changed. -/
def completed (desc : FieldDesc) : PvField → List Snapshot → List Snapshot
  | _, [] => []
  | prior, delta :: rest =>
      ⟨apply desc prior delta, delta.changed⟩ ::
        completed desc (apply desc prior delta) rest

/-- Each item fits the descriptor and marks what it changed from the value
before it. -/
def Linked (desc : FieldDesc) (start : PvField)
    (items : List Snapshot) : Prop :=
  ∀ front item, front ++ [item] <+: items →
    PvField.Fits desc item.value ∧
      PvField.AgreeOff desc item.changed item.value (latest start front)

/-- The field is `start` with the marked leaves of each item copied in. -/
inductive Folded (desc : FieldDesc) (start : PvField) :
    List Snapshot → PvField → Prop where
  | nil : Folded desc start [] start
  | snoc {items : List Snapshot} {item : Snapshot} {old new : PvField} :
      Folded desc start items old →
      PvField.Copies desc item.changed item.value old new →
      Folded desc start (items ++ [item]) new

@[simp] theorem consume_nil (desc : FieldDesc) (copy : PvField) :
    consume desc copy [] = copy :=
  rfl

@[simp] theorem consume_snoc (desc : FieldDesc) (copy : PvField)
    (items : List Snapshot) (item : Snapshot) :
    consume desc copy (items ++ [item]) =
      apply desc (consume desc copy items) item := by
  simp [consume]

@[simp] theorem latest_nil (start : PvField) : latest start [] = start :=
  rfl

@[simp] theorem latest_snoc (start : PvField) (items : List Snapshot)
    (item : Snapshot) : latest start (items ++ [item]) = item.value := by
  simp [latest]

theorem latest_append (start : PvField) (front back : List Snapshot) :
    latest start (front ++ back) = latest (latest start front) back := by
  rcases List.eq_nil_or_concat' back with rfl | ⟨before, item, rfl⟩
  · simp
  · rw [← List.append_assoc, latest_snoc, latest_snoc]

theorem consume_cons (desc : FieldDesc) (copy : PvField) (item : Snapshot)
    (items : List Snapshot) :
    consume desc copy (item :: items) =
      consume desc (apply desc copy item) items :=
  rfl

theorem completed_snoc (desc : FieldDesc) (prior : PvField)
    (deltas : List Snapshot) (delta : Snapshot) :
    completed desc prior (deltas ++ [delta]) =
      completed desc prior deltas ++
        [⟨consume desc prior (deltas ++ [delta]), delta.changed⟩] := by
  induction deltas generalizing prior with
  | nil => rfl
  | cons first rest induction =>
      simp only [List.cons_append, completed, induction, consume_cons]

theorem completed_take (desc : FieldDesc) (prior : PvField)
    (deltas : List Snapshot) (count : Nat) :
    (completed desc prior deltas).take count =
      completed desc prior (deltas.take count) := by
  induction deltas generalizing prior count with
  | nil => simp [completed]
  | cons first rest induction =>
      cases count with
      | zero => rfl
      | succ count => simp [completed, induction]

theorem prefix_completed {desc : FieldDesc} {prior : PvField}
    {deltas start : List Snapshot}
    (isPrefix : start <+: completed desc prior deltas) :
    ∃ front, front <+: deltas ∧ start = completed desc prior front := by
  refine ⟨deltas.take start.length, List.take_prefix _ _, ?_⟩
  rw [← completed_take]
  exact List.prefix_iff_eq_take.mp isPrefix

theorem completed_append (desc : FieldDesc) (prior : PvField)
    (front back : List Snapshot) :
    completed desc prior (front ++ back) =
      completed desc prior front ++
        completed desc (consume desc prior front) back := by
  induction front generalizing prior with
  | nil => rfl
  | cons delta rest induction =>
      simp only [List.cons_append, completed, induction, consume_cons]

theorem latest_completed (desc : FieldDesc) (prior : PvField)
    (deltas : List Snapshot) :
    latest prior (completed desc prior deltas) =
      consume desc prior deltas := by
  rcases List.eq_nil_or_concat' deltas with rfl | ⟨front, delta, rfl⟩
  · rfl
  · rw [completed_snoc, latest_snoc]

/-- Items whose values are complete are not changed by completing them. -/
theorem completed_values {desc : FieldDesc} {start : PvField}
    {items : List Snapshot}
    (complete : ∀ front, front <+: items →
      consume desc start front = latest start front) :
    (completed desc start items).map value = items.map value := by
  induction items using List.reverseRecOn with
  | nil => rfl
  | append_singleton items item induction =>
      have front := induction fun other isPrefix =>
        complete other (isPrefix.trans (List.prefix_append _ _))
      have whole := complete (items ++ [item]) List.prefix_rfl
      simp only [completed_snoc, List.map_append, front, whole, latest_snoc,
        List.map_cons, List.map_nil]

theorem apply_fits {desc : FieldDesc} {copy : PvField} {item : Snapshot}
    (fits : PvField.Fits desc item.value)
    (copyFits : PvField.Fits desc copy) :
    PvField.Fits desc (apply desc copy item) :=
  PvField.copyMarked_fits desc item.changed 0 fits copyFits

theorem consume_fits {desc : FieldDesc} {copy : PvField}
    (copyFits : PvField.Fits desc copy) {items : List Snapshot}
    (fits : ∀ item ∈ items, PvField.Fits desc item.value) :
    PvField.Fits desc (consume desc copy items) := by
  induction items using List.reverseRecOn with
  | nil => exact copyFits
  | append_singleton items item induction =>
      rw [consume_snoc]
      exact apply_fits (fits item (by simp))
        (induction fun other member => fits other (by simp [member]))

theorem Folded.fits {desc : FieldDesc} {start value : PvField}
    {items : List Snapshot} (folded : Folded desc start items value)
    (startFits : PvField.Fits desc start) : PvField.Fits desc value := by
  cases folded with
  | nil => exact startFits
  | snoc _ copies => exact copies.fits

theorem latest_squashed {start : PvField} {pushed kept : List Snapshot}
    (squashed : Squashed squash pushed kept) :
    latest start pushed = latest start kept := by
  have looks := squashed.getLast?_map value (by
    intro tail item merged mergedEq
    simp only [squash, Option.some.injEq] at mergedEq
    rw [← mergedEq])
  rw [latest, latest, looks]

namespace Linked

variable {desc : FieldDesc} {start : PvField}

theorem nil : Linked desc start [] := by
  intro front item isPrefix
  simp at isPrefix

theorem of_front {items front : List Snapshot}
    (linked : Linked desc start items) (isPrefix : front <+: items) :
    Linked desc start front :=
  fun before item inside => linked before item (inside.trans isPrefix)

theorem snoc_iff {items : List Snapshot} {item : Snapshot} :
    Linked desc start (items ++ [item]) ↔
      Linked desc start items ∧ PvField.Fits desc item.value ∧
        PvField.AgreeOff desc item.changed item.value
          (latest start items) := by
  constructor
  · intro linked
    exact ⟨linked.of_front (List.prefix_append _ _),
      linked items item List.prefix_rfl⟩
  · rintro ⟨linked, fits, agree⟩ front other isPrefix
    rcases List.prefix_concat_iff.mp isPrefix with whole | inside
    · obtain ⟨rfl, rfl⟩ : front = items ∧ other = item := by
        simpa using whole
      exact ⟨fits, agree⟩
    · exact linked front other inside

theorem of_append {front back : List Snapshot}
    (linked : Linked desc start (front ++ back)) :
    Linked desc (latest start front) back := by
  intro before item isPrefix
  rw [← latest_append]
  apply linked
  rw [List.append_assoc]
  apply (List.prefix_append_right_inj front).mpr isPrefix

theorem latest_fits {items : List Snapshot}
    (linked : Linked desc start items)
    (startFits : PvField.Fits desc start) :
    PvField.Fits desc (latest start items) := by
  rcases List.eq_nil_or_concat' items with rfl | ⟨front, item, rfl⟩
  · simpa using startFits
  · simpa using (linked front item List.prefix_rfl).1

theorem of_completed {deltas : List Snapshot}
    (startFits : PvField.Fits desc start)
    (fits : ∀ delta ∈ deltas, PvField.Fits desc delta.value) :
    Linked desc start (completed desc start deltas) := by
  induction deltas using List.reverseRecOn with
  | nil => exact nil
  | append_singleton deltas delta induction =>
      have frontFits : ∀ delta ∈ deltas, PvField.Fits desc delta.value :=
        fun other member => fits other (by simp [member])
      have copies := PvField.copyMarked_copies (fits delta (by simp))
        (consume_fits startFits frontFits) delta.changed
      rw [completed_snoc, snoc_iff, latest_completed, consume_snoc]
      exact ⟨induction frontFits, copies.fits, copies.other⟩

private theorem apply_eq {copy : PvField} {item : Snapshot}
    (wellNamed : desc.WellNamed) (fits : PvField.Fits desc item.value)
    (copyFits : PvField.Fits desc copy)
    (agree : PvField.AgreeOff desc item.changed item.value copy) :
    apply desc copy item = item.value :=
  (PvField.copyMarked_copies fits copyFits item.changed).eq_of_agreeOff
    wellNamed fits agree

private theorem squashed_step {pushed kept : List Snapshot}
    (linked : Linked desc start pushed)
    (startFits : PvField.Fits desc start) (wellNamed : desc.WellNamed)
    (squashed : Squashed squash pushed kept) :
    consume desc start kept = latest start pushed ∧
      ∀ front tail, kept = front ++ [tail] →
        PvField.Fits desc (consume desc start front) ∧
          PvField.AgreeOff desc tail.changed tail.value
            (consume desc start front) := by
  induction squashed with
  | nil => simp
  | @append pushed kept item _ induction =>
      obtain ⟨before, fits, agree⟩ := snoc_iff.mp linked
      obtain ⟨held, -⟩ := induction before
      have heldFits : PvField.Fits desc (consume desc start kept) :=
        held ▸ before.latest_fits startFits
      rw [← held] at agree
      refine ⟨by simp [apply_eq wellNamed fits heldFits agree], ?_⟩
      intro front tail split
      obtain ⟨rfl, rfl⟩ : kept = front ∧ item = tail := by
        simpa using split
      exact ⟨heldFits, agree⟩
  | @merge pushed front tail item merged squashed mergedEq induction =>
      obtain ⟨before, fits, agree⟩ := snoc_iff.mp linked
      obtain ⟨-, last⟩ := induction before
      obtain ⟨frontFits, tailAgree⟩ := last front tail rfl
      rw [latest_squashed squashed, latest_snoc] at agree
      simp only [squash, Option.some.injEq] at mergedEq
      subst mergedEq
      have both : PvField.AgreeOff desc (tail.changed ∪ item.changed)
          item.value (consume desc start front) := by
        rw [Finset.union_comm]
        exact agree.trans tailAgree
      refine ⟨?_, ?_⟩
      · rw [consume_snoc, latest_snoc]
        exact apply_eq wellNamed fits frontFits both
      · intro other last split
        obtain ⟨rfl, rfl⟩ : front = other ∧ _ = last := by
          simpa using split
        exact ⟨frontFits, both⟩

/-- A consumer that copies the changed fields of every item of a squashed
sequence holds the value that was pushed last. -/
theorem consume_squashed {pushed kept : List Snapshot}
    (linked : Linked desc start pushed)
    (startFits : PvField.Fits desc start) (wellNamed : desc.WellNamed)
    (squashed : Squashed squash pushed kept) :
    consume desc start kept = latest start pushed :=
  (linked.squashed_step startFits wellNamed squashed).1

theorem consume_prefix {pushed kept front : List Snapshot}
    (linked : Linked desc start pushed)
    (startFits : PvField.Fits desc start) (wellNamed : desc.WellNamed)
    (squashed : Squashed squash pushed kept) (isPrefix : front <+: kept) :
    consume desc start front = latest start front := by
  obtain ⟨pushedFront, pushedPrefix, frontSquashed⟩ :=
    squashed.of_front isPrefix
  rw [(linked.of_front pushedPrefix).consume_squashed startFits wellNamed
    frontSquashed, latest_squashed frontSquashed]

end Linked

end Snapshot

end Repics.Pva
