import Repics.Pva.Value.Forms

/-!
# Copying values

A new `Value` of a type is made from another one of that type, or a structure
member of one is assigned to the same member of the other.  Both assign the
Python object of a structure, and both keep what is copyable in it.
-/

namespace Repics.Pva

variable {python : Python}

namespace PvField

theorem named?_putNamed {fields : List (Str × PvField)} {name : Str}
    {old : PvField} (found : named? fields name = some old)
    (new : PvField) : named? (putNamed name new fields) name = some new := by
  induction fields with
  | nil => cases found
  | cons entry rest induction =>
      obtain ⟨label, field⟩ := entry
      rw [named?_cons] at found
      rw [putNamed]
      split
      · rename_i same
        rw [named?_cons, if_pos same]
      · rename_i different
        rw [if_neg different] at found
        rw [named?_cons, if_neg different]
        exact induction found

theorem atPath?_putAt {field old : PvField} {path : List Str}
    (found : field.atPath? path = some old) (new : PvField) :
    (field.putAt path new).atPath? path = some new := by
  induction path generalizing field with
  | nil => rw [putAt, atPath?_nil]
  | cons name path induction =>
      rw [atPath?_cons] at found
      obtain ⟨child, childFound, rest⟩ := Option.bind_eq_some_iff.mp found
      cases field with
      | struct structId fields =>
          have member : named? fields name = some child := childFound
          rw [putAt, member, atPath?_cons, member?,
            named?_putNamed member, Option.bind_some]
          exact induction rest
      | _ => cases childFound

end PvField

namespace HasType

theorem fitMembers {members : List (Str × FieldDesc)}
    {fields : List (Str × PvField)}
    (names : fields.map Prod.fst = members.map Prod.fst)
    (fits : ∀ member field, (member, field) ∈ members.zip fields →
      PvField.Fits member.2 field.2) :
    PvField.FitMembers members fields := by
  induction members generalizing fields with
  | nil =>
      rw [List.map_eq_nil_iff.mp names]
      simp [PvField.FitMembers]
  | cons member members induction =>
      obtain ⟨name, desc⟩ := member
      cases fields with
      | nil => cases names
      | cons entry fields =>
          obtain ⟨label, field⟩ := entry
          obtain ⟨rfl, rest⟩ := List.cons.inj names
          simp only [PvField.FitMembers, true_and]
          exact ⟨fits _ _ List.mem_cons_self, induction rest
            fun member field inRest =>
              fits member field (List.mem_cons_of_mem _ inRest)⟩

theorem fits {desc : FieldDesc} {field : PvField}
    (typed : HasType desc field) : PvField.Fits desc field := by
  induction typed with
  | struct structId members fields _ names _ fits =>
      simp only [PvField.Fits, true_and]
      exact fitMembers names fits
  | _ => simp [PvField.Fits]

end HasType

/-- A view of a structure refers to its root and comes back as the structure
exactly when that is copyable. -/
theorem Handle.viewObj_form (lawful : python.Lawful) {structId : Str}
    {members : List (Str × FieldDesc)} {field : PvField}
    (typed : HasType (.struct structId members) field) (root : Nat) :
    ∃ obj, viewObj python (some root) (.struct structId members) field =
        .ok obj ∧ obj.roots = [root] ∧
      ∀ target, PvField.Fits (.struct structId members) target →
        ((obj.assign python (.struct structId members) target).result =
          .ok field ↔ Copyable python (.struct structId members) field) := by
  cases typed with
  | struct _ _ fields distinct names typed =>
      obtain ⟨content, aligned⟩ := Aligned.exists names
        fun member field inZip => (typed member field inZip).renders
          lawful true
      have made := aligned.dictOf_fields (names ▸ distinct)
      have detached := (aligned.roots fun _ _ _ form => form.detached).1
      refine ⟨.value (some root) structId members content, ?_, ?_, ?_⟩
      · rw [viewObj, made]
        rfl
      · rw [PyObj.roots, detached]
        rfl
      · intro target fits
        exact aligned.struct_back_iff distinct rfl fits

section Copies

variable {lib : PvData}

/-- Assigning at a path leaves there what is built from the object. -/
theorem Root.assignAt_iff (lawful : lib.Lawful) {root : Root}
    {path : List Str} (named : ∀ name ∈ path, MemberName name)
    {sub : FieldDesc} {target : PvField}
    (found : root.desc.atPath? path = some sub)
    (targetFound : root.field.atPath? path = some target) (obj : PyObj)
    (missing : PyErr) (wanted : PvField) :
    ((root.assignAt lib python.conversions (dotted path) obj missing).2 =
        none ∧
      fieldAt (root.assignAt lib python.conversions (dotted path) obj
        missing).1.field (dotted path) = some wanted) ↔
      (obj.assign python sub target).result = .ok wanted := by
  rw [PyObj.assign_result lawful sub
    ((lib.bitForPath root.desc (dotted path)).getD 0) target obj root.marks]
  unfold Root.assignAt Outcome.result
  rw [descAt_dotted _ named, fieldAt_dotted _ named, found, targetFound]
  simp only [fieldAt_dotted _ named, Separated.segments_render named,
    PvField.atPath?_putAt targetFound, Option.some.injEq]
  split
  · rename_i error ended
    rw [ended]
    constructor
    · rintro ⟨impossible, -⟩
      cases impossible
    · intro impossible
      cases impossible
  · rename_i ended
    rw [ended, Except.ok.injEq]
    exact and_iff_right rfl

/-- `Value(T, V)` never waits for itself, succeeds and has the field of
`V`. -/
def CopiedByNew (lib : PvData) (python : Python) (source : Handle) : Prop :=
  ∃ obj, Handle.viewObj python (some source.root) source.state.desc
      source.state.field = .ok obj ∧
    (∀ root, root ≠ source.root →
      ¬(create python source.state.desc (some obj) root).SelfWaits) ∧
    (Root.assignRoot lib python.conversions
      ⟨source.state.desc,
        python.defaultValueFor source.state.desc, ∅⟩ [] obj).2 = none ∧
    (Root.assignRoot lib python.conversions
      ⟨source.state.desc,
        python.defaultValueFor source.state.desc, ∅⟩ [] obj).1.field =
      source.state.field

/-- `D[key] = V[key]` does not wait for itself, succeeds and leaves in `D` the
field of `V`. -/
def CopiedByItem (lib : PvData) (python : Python) (target source : Handle)
    (key : Str) : Prop :=
  ∃ obj, (source.item python key).result = .ok obj ∧
    ¬(target.setItem python key obj).SelfWaits ∧
    (target.state.setItem lib python.conversions target.view key obj).2 =
      none ∧
    fieldAt (target.state.setItem lib python.conversions target.view key
      obj).1.field key = fieldAt source.state.field key

theorem copiedByNew_iff (lawful : python.Lawful)
    (asks : python.AsksWithin) (libLawful : lib.Lawful) (source : Handle)
    (isStructure : source.state.desc.IsStructure)
    (typed : HasType source.state.desc source.state.field) :
    CopiedByNew lib python source ↔
      Copyable python source.state.desc source.state.field := by
  obtain ⟨number, ⟨desc, field, marks⟩, view⟩ := source
  cases desc with
  | struct structId members =>
      obtain ⟨obj, made, refers, back⟩ :=
        Handle.viewObj_form lawful typed number
      have fits := lawful.default_fits (.struct structId members)
      let new : Root := ⟨.struct structId members,
        python.defaultValueFor (.struct structId members), ∅⟩
      have assigned : (new.assignRoot lib python.conversions [] obj).2 =
            none ∧
          fieldAt (new.assignRoot lib python.conversions [] obj).1.field
            [] = some field ↔
          (obj.assign python (.struct structId members)
            new.field).result = .ok field :=
        Root.assignAt_iff libLawful (by simp) (FieldDesc.atPath?_nil _)
          (PvField.atPath?_nil _) obj .viewVanished field
      have none : ∀ name ∈ ([] : List Str), MemberName name := by simp
      have whole (other : PvField) : fieldAt other [] = some other :=
        (fieldAt_dotted other none).trans (PvField.atPath?_nil other)
      rw [back _ fits, whole, Option.some.injEq] at assigned
      rw [← assigned]
      constructor
      · rintro ⟨other, otherMade, -, ended⟩
        cases made.symm.trans otherMade
        exact ended
      · intro ended
        refine ⟨obj, made, ?_, ended⟩
        intro root apart
        apply Handle.assignAt_not_selfWaits asks
        rw [PyObj.Refers, refers]
        simpa using apart
  | _ => cases isStructure

theorem copiedByItem_iff (lawful : python.Lawful)
    (asks : python.AsksWithin) (libLawful : lib.Lawful)
    {source target : Handle}
    (wellNamed : source.state.desc.WellNamed) (whole : source.view = [])
    (typed : HasType source.state.desc source.state.field)
    (apart : target.root ≠ source.root) (targetWhole : target.view = [])
    (sameType : target.state.desc = source.state.desc)
    (targetTyped : HasType target.state.desc target.state.field)
    {path : List Str} {sub : FieldDesc}
    (found : source.state.desc.atPath? path = some sub)
    (isStructure : sub.IsStructure) :
    ∃ field, source.state.field.atPath? path = some field ∧
      (CopiedByItem lib python target source (dotted path) ↔
        Copyable python sub field) := by
  obtain ⟨field, fieldFound, subTyped⟩ := typed.atPath? found
  obtain ⟨old, oldFound, oldTyped⟩ :=
    targetTyped.atPath? (sameType ▸ found)
  refine ⟨field, fieldFound, ?_⟩
  cases sub with
  | struct structId members =>
      obtain ⟨obj, made, refers, back⟩ :=
        Handle.viewObj_form lawful subTyped source.root
      have named := wellNamed.names
        ((FieldDesc.isNode_iff _ _).mpr ⟨_, found⟩)
      have read : (source.item python (dotted path)).result = .ok obj := by
        simp only [Handle.item, Handle.locked, Handle.full, whole, join,
          if_true, descAt_dotted _ named, fieldAt_dotted _ named, found,
          fieldFound, Locking.result_withLock, Locking.result_lift, made]
      have assigned := @Root.assignAt_iff python lib libLawful target.state
        path named _ old (sameType ▸ found) oldFound obj
        (.noSuchField (dotted path)) field
      rw [back old oldTyped.fits] at assigned
      have setItem : target.state.setItem lib python.conversions target.view
          (dotted path) obj = target.state.assignAt lib python.conversions
            (dotted path) obj (.noSuchField (dotted path)) := by
        rw [Root.setItem, targetWhole, join, if_pos rfl]
      rw [← assigned]
      constructor
      · rintro ⟨other, otherRead, -, ended⟩
        cases read.symm.trans otherRead
        rw [setItem, fieldAt_dotted source.state.field named,
          fieldFound] at ended
        exact ended
      · intro ended
        refine ⟨obj, read, ?_, ?_⟩
        · apply Handle.assignAt_not_selfWaits asks
          rw [PyObj.Refers, refers]
          simpa using apart
        · rw [setItem, fieldAt_dotted source.state.field named, fieldFound]
          exact ended
  | _ => cases isStructure

/-- Between values of one type exactly what is copyable is copied. -/
theorem values_copied_iff (lawful : python.Lawful)
    (asks : python.AsksWithin) (libLawful : lib.Lawful) (source : Handle)
    (isStructure : source.state.desc.IsStructure)
    (wellNamed : source.state.desc.WellNamed) (whole : source.view = [])
    (typed : HasType source.state.desc source.state.field) :
    (CopiedByNew lib python source ↔
      Copyable python source.state.desc source.state.field) ∧
    ∀ target : Handle, target.root ≠ source.root → target.view = [] →
      target.state.desc = source.state.desc →
      HasType target.state.desc target.state.field →
      ∀ path sub, source.state.desc.atPath? path = some sub →
        sub.IsStructure →
        ∃ field, source.state.field.atPath? path = some field ∧
          (CopiedByItem lib python target source (dotted path) ↔
            Copyable python sub field) := by
  constructor
  · exact copiedByNew_iff lawful asks libLawful source isStructure typed
  · intro target apart targetWhole sameType targetTyped path sub found
      subStructure
    exact copiedByItem_iff lawful asks libLawful wellNamed whole typed
      apart targetWhole sameType targetTyped found subStructure

end Copies

theorem zeroField_fits (desc : FieldDesc) :
    PvField.Fits desc (zeroField desc) := by
  induction desc using FieldDesc.memberInduction with
  | struct structId fields members =>
      rw [zeroField]
      simp only [PvField.Fits, true_and]
      induction fields with
      | nil => simp [zeroMembers, PvField.FitMembers]
      | cons entry rest induction =>
          obtain ⟨name, desc⟩ := entry
          simp only [zeroMembers, PvField.FitMembers, true_and]
          exact ⟨members name desc List.mem_cons_self, induction
            fun name child member =>
              members name child (List.mem_cons_of_mem _ member)⟩
  | other desc notStructure =>
      cases desc with
      | struct _ _ => exact (notStructure trivial).elim
      | _ => simp [PvField.Fits]

theorem Python.simple_lawful : Python.simple.Lawful where
  parse_string _ := rfl
  text_str _ := rfl
  asarray_array _ _ _ _ := if_pos rfl
  default_fits := zeroField_fits

theorem HasType.single (structId name : Str) {desc : FieldDesc}
    {field : PvField} (typed : HasType desc field) :
    HasType (.struct structId [(name, desc)])
      (.struct structId [(name, field)]) := by
  refine .struct _ _ _ (List.nodup_singleton name) rfl ?_
  intro member entry inZip
  cases List.mem_singleton.mp inZip
  exact typed

theorem Copyable.single (structId name : Str) {desc : FieldDesc}
    {field : PvField} (copyable : Copyable python desc field) :
    Copyable python (.struct structId [(name, desc)])
      (.struct structId [(name, field)]) := by
  refine .struct _ _ _ ?_
  intro member entry inZip
  cases List.mem_singleton.mp inZip
  exact copyable

/-- A `Value` with a structure that has one number. -/
def Handle.ofNumber : Handle where
  root := 0
  state :=
    { desc := .struct [] [(['a'], .struct [] [(['x'], .scalar .long)])]
      field := .struct [] [(['a'], .struct [] [(['x'], .scalar (.long 1))])]
      marks := ∅ }
  view := []

theorem number_copied : CopiedByNew .depthFirst .simple Handle.ofNumber := by
  have typed : HasType Handle.ofNumber.state.desc
      Handle.ofNumber.state.field :=
    .single _ _ (.single _ _ (.scalar (.long 1)))
  have copyable : Copyable .simple Handle.ofNumber.state.desc
      Handle.ofNumber.state.field :=
    .single _ _ (.single _ _ (.scalar .long (.long 1) trivial))
  have wellNamed : Handle.ofNumber.state.desc.WellNamed := by
    simp [Handle.ofNumber, FieldDesc.WellNamed, FieldDesc.tree,
      FieldDesc.memberTrees, LabelTree.Hereditary,
      LabelTree.ForestHereditary, Separated.IsKey]
  exact (values_copied_iff Python.simple_lawful Python.simple_asksWithin
    PvData.depthFirst_lawful Handle.ofNumber trivial wellNamed rfl
    typed).1.mpr copyable

/-- A `Value` with a variant that holds a structure. -/
def Handle.ofHolder : Handle where
  root := 0
  state :=
    { desc := .struct [] [(['v'], .variant)]
      field := .struct [] [(['v'],
        .variant (some (.struct [] [(['x'], .scalar .long)]))
          (.struct [] [(['x'], .scalar (.long 1))]))]
      marks := ∅ }
  view := []

/-- A variant takes a structure from a `Value`, but the copy of the variant
raises. -/
theorem structure_in_variant_not_copied :
    (PyObj.assign .simple
      (.value (some 1) [] [(['x'], .scalar .long)] [(['x'], .int 1)])
        .variant (.variant none .null)).result =
      .ok (.variant (some (.struct [] [(['x'], .scalar .long)]))
        (.struct [] [(['x'], .scalar (.long 1))])) ∧
    HasType Handle.ofHolder.state.desc Handle.ofHolder.state.field ∧
    ¬CopiedByNew .depthFirst .simple Handle.ofHolder := by
  refine ⟨rfl, ?_, ?_⟩
  · exact .single _ _ (.variant _ _ (.single _ _ (.scalar (.long 1))))
  · rintro ⟨obj, made, -, ended, -⟩
    cases made
    cases ended

end Repics.Pva
