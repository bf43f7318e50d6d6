import Repics.Pva.Value.Copyable
import Repics.Pva.Value.Marks

/-!
# Assignment keeps types

Whatever Python object is assigned to a field of a type, the field is one of
that type afterwards.  The types that a variant takes from a `Value` have
distinct member names like any other type.  No edit of a root changes the type
of its field, even if it raises half-way.
-/

namespace Repics.Pva

mutual

/-- Sibling names are distinct, in every structure and union of the type. -/
def FieldDesc.Distinct : FieldDesc → Prop
  | .struct _ fields | .structArray _ fields | .union _ fields
  | .unionArray _ fields =>
      (fields.map Prod.fst).Nodup ∧ DistinctMembers fields
  | .scalar _ | .scalarArray _ | .variant | .variantArray => True

def DistinctMembers : List (Str × FieldDesc) → Prop
  | [] => True
  | (_, desc) :: rest => desc.Distinct ∧ DistinctMembers rest

end

theorem DistinctMembers.mem {fields : List (Str × FieldDesc)}
    (distinct : DistinctMembers fields) {name : Str} {desc : FieldDesc}
    (member : (name, desc) ∈ fields) : desc.Distinct := by
  induction fields with
  | nil => cases member
  | cons entry rest induction =>
      obtain ⟨label, other⟩ := entry
      rw [DistinctMembers] at distinct
      rcases List.mem_cons.mp member with here | later
      · obtain ⟨-, rfl⟩ := Prod.mk.inj here
        exact distinct.1
      · exact induction distinct.2 later

/-- The values and arrays that are or are part of an object have a type. -/
inductive PyObj.WellTyped : PyObj → Prop where
  | intro (obj : PyObj) :
      (∀ root structId members content,
        obj = .value root structId members content →
          (FieldDesc.struct structId members).Distinct) →
      (∀ scalarType items, obj = .array scalarType items →
        ∀ item ∈ items, item.scalarType = scalarType) →
      (∀ child ∈ obj.children, child.WellTyped) → obj.WellTyped

/-- What the libraries give for a type is of that type. -/
structure Python.GivesTypes (python : Python) : Prop where
  parse : ∀ scalarType text value,
    python.parse scalarType text = .ok value →
      value.scalarType = scalarType
  asarray : ∀ scalarType (obj : PyObj) items, obj.WellTyped →
    python.asarray scalarType obj = .ok items →
      ∀ item ∈ items, item.scalarType = scalarType
  default : ∀ desc : FieldDesc, desc.Distinct →
    HasType desc (python.defaultValueFor desc)

/-- Assigning the part leaves fields of the type; the target matters for
structures only. -/
def Part.Keeps (part : Part) : Prop :=
  ∀ desc : FieldDesc, desc.Distinct → ∀ target,
    (desc.IsStructure → HasType desc target) → ∀ field,
      (part.assign desc target).result = .ok field → HasType desc field

structure Node.Keeps (node : Node) : Prop where
  obj : node.obj.WellTyped
  items : ∀ items, node.items = some items → ∀ item ∈ items, item.Keeps
  entries : ∀ entries, node.entries = some entries →
    ∀ entry ∈ entries, entry.2.Keeps

variable {python : Python}

theorem Python.intToScalar_type (value : Int) (scalarType : ScalarType) :
    (python.intToScalar value scalarType).scalarType = scalarType := by
  cases scalarType <;> rfl

theorem Python.floatToScalar_type (bits : UInt64)
    (scalarType : ScalarType) :
    (python.floatToScalar bits scalarType).scalarType = scalarType := by
  cases scalarType <;> rfl

theorem Python.boolToScalar_type (value : Bool) (scalarType : ScalarType) :
    (python.boolToScalar value scalarType).scalarType = scalarType := by
  cases scalarType <;> rfl

theorem Python.extractInt_map {value : Int} {scalarType : ScalarType}
    {scalar : ScalarValue}
    (ended : (extractInt value).map (fun value =>
      python.intToScalar value scalarType) = .ok scalar) :
    scalar.scalarType = scalarType := by
  cases extracted : extractInt value with
  | error error =>
      rw [extracted] at ended
      cases ended
  | ok small =>
      rw [extracted] at ended
      cases ended
      exact intToScalar_type _ _

theorem Python.pyToScalar_type (gives : python.GivesTypes) {obj : PyObj}
    {scalarType : ScalarType} {value : ScalarValue}
    (ended : (python.pyToScalar obj scalarType).result = .ok value) :
    value.scalarType = scalarType := by
  unfold pyToScalar at ended
  split at ended
  · exact gives.parse _ _ _ ended
  · exact gives.parse _ _ _ ended
  · cases ended
    exact boolToScalar_type _ _
  · split at ended
    · rename_i string
      cases ended
      exact string.symm
    · split at ended
      · exact extractInt_map ended
      · cases ended
        exact floatToScalar_type _ _
      · cases ended
        exact floatToScalar_type _ _
      · rw [Locking.result_bind_ok (Locking.result_touch _)] at ended
        split at ended
        · cases ended
          exact intToScalar_type _ _
        · cases ended
          exact floatToScalar_type _ _
        · cases ended

theorem HasType.ofScalar {scalarType : ScalarType} {value : ScalarValue}
    (same : value.scalarType = scalarType) :
    HasType (.scalar scalarType) (.scalar value) :=
  same ▸ .scalar value

theorem zip_putNamed {Holds : FieldDesc → PvField → Prop}
    {members : List (Str × FieldDesc)} {fields : List (Str × PvField)}
    (names : fields.map Prod.fst = members.map Prod.fst)
    (typed : ∀ member field, (member, field) ∈ members.zip fields →
      Holds member.2 field.2) {name : Str} {desc : FieldDesc}
    (found : FieldDesc.named? members name = some desc) {new : PvField}
    (newTyped : Holds desc new) :
    (PvField.putNamed name new fields).map Prod.fst =
        members.map Prod.fst ∧
      ∀ member field,
        (member, field) ∈ members.zip (PvField.putNamed name new fields) →
          Holds member.2 field.2 := by
  induction members generalizing fields with
  | nil => cases found
  | cons member members induction =>
      obtain ⟨label, other⟩ := member
      cases fields with
      | nil => cases names
      | cons entry fields =>
          obtain ⟨fieldLabel, field⟩ := entry
          obtain ⟨rfl, rest⟩ := List.cons.inj names
          have restTyped : ∀ member field,
              (member, field) ∈ members.zip fields →
                Holds member.2 field.2 := fun member field inRest =>
            typed member field (List.mem_cons_of_mem _ inRest)
          rw [FieldDesc.named?_cons] at found
          rw [PvField.putNamed]
          split
          · rename_i same
            rw [if_pos same] at found
            cases found
            refine ⟨names, ?_⟩
            intro member field inZip
            rcases List.mem_cons.mp inZip with here | later
            · cases here
              exact newTyped
            · exact restTyped member field later
          · rename_i different
            rw [if_neg different] at found
            obtain ⟨putNames, putTyped⟩ := induction rest restTyped found
            refine ⟨congrArg (fieldLabel :: ·) putNames, ?_⟩
            intro member field inZip
            rcases List.mem_cons.mp inZip with here | later
            · cases here
              exact typed _ _ List.mem_cons_self
            · exact putTyped member field later

theorem HasType.putNamed {structId : Str}
    {members : List (Str × FieldDesc)} {fields : List (Str × PvField)}
    (typed : HasType (.struct structId members) (.struct structId fields))
    {name : Str} {desc : FieldDesc}
    (found : FieldDesc.named? members name = some desc) {new : PvField}
    (newTyped : HasType desc new) :
    HasType (.struct structId members)
      (.struct structId (PvField.putNamed name new fields)) := by
  cases typed with
  | struct _ _ _ distinct names typed =>
      obtain ⟨putNames, putTyped⟩ := zip_putNamed names typed found newTyped
      exact .struct _ _ _ distinct putNames putTyped

theorem HasType.member {structId : Str}
    {members : List (Str × FieldDesc)} {fields : List (Str × PvField)}
    (typed : HasType (.struct structId members) (.struct structId fields))
    {name : Str} {desc : FieldDesc} {field : PvField}
    (found : FieldDesc.named? members name = some desc)
    (fieldFound : PvField.named? fields name = some field) :
    HasType desc field := by
  cases typed with
  | struct _ _ _ _ names typed =>
      obtain ⟨other, otherFound, otherTyped⟩ :=
        HasType.named names typed found
      cases fieldFound.symm.trans otherFound
      exact otherTyped

theorem HasType.structId {structId fieldId : Str}
    {members : List (Str × FieldDesc)} {fields : List (Str × PvField)}
    (typed : HasType (.struct structId members) (.struct fieldId fields)) :
    fieldId = structId := by
  cases typed
  rfl

theorem Node.assignEntries_keeps {structId : Str}
    {members : List (Str × FieldDesc)}
    (distinct : DistinctMembers members) {entries : List (PyObj × Part)}
    (keeps : ∀ entry ∈ entries, entry.2.Keeps)
    {subs result : List (Str × PvField)}
    (typed : HasType (.struct structId members) (.struct structId subs))
    (ended : (assignEntries members entries subs).result = .ok result) :
    HasType (.struct structId members) (.struct structId result) := by
  induction entries generalizing subs with
  | nil =>
      cases ended
      exact typed
  | cons entry entries induction =>
      obtain ⟨key, part⟩ := entry
      rw [assignEntries] at ended
      obtain ⟨name, -, ended⟩ := (Locking.result_bind_ok_iff _ _ _).mp ended
      split at ended
      · rename_i desc target found targetFound
        obtain ⟨field, assigned, ended⟩ :=
          (Locking.result_bind_ok_iff _ _ _).mp ended
        have fieldTyped : HasType desc field :=
          keeps _ List.mem_cons_self desc
            (distinct.mem (FieldDesc.named?_mem found)) target
            (fun _ => typed.member found targetFound) field assigned
        exact induction
          (fun entry member => keeps entry (List.mem_cons_of_mem _ member))
          (typed.putNamed found fieldTyped) ended
      · cases ended

/-- An array of unions has a union in each element that is not null. -/
theorem HasType.unionElements {structId : Str}
    {variants : List (Str × FieldDesc)}
    {items : List (Option (Int × Str × PvField))}
    (elements : ∀ selector name value,
      some (selector, name, value) ∈ items → selector ≠ -1 ∧
        HasType (.union structId variants) (.union selector name value)) :
    HasType (.unionArray structId variants) (.unionArray items) := by
  apply HasType.unionArray
  · intro selector name value member
    obtain ⟨selected, typed⟩ := elements selector name value member
    cases typed with
    | unselected => exact (selected rfl).elim
    | union _ _ _ _ desc _ found _ => exact .inr ⟨desc, found⟩
  · intro selector name value desc member found
    obtain ⟨selected, typed⟩ := elements selector name value member
    cases typed with
    | unselected => exact (selected rfl).elim
    | union _ _ _ _ other _ otherFound typed =>
        cases found.symm.trans otherFound
        exact typed

theorem HasType.variantElements
    {items : List (Option (Option FieldDesc × PvField))}
    (elements : ∀ stored value, some (stored, value) ∈ items →
      HasType .variant (.variant stored value)) :
    HasType .variantArray (.variantArray items) := by
  apply HasType.variantArray
  · intro value member
    cases elements none value member
    rfl
  · intro desc value member
    cases elements (some desc) value member with
    | variant _ _ typed => exact typed

theorem PyObj.WellTyped.inferred {obj : PyObj} (typed : obj.WellTyped)
    {desc : FieldDesc}
    (inferred : (inferDesc python obj).result = .ok (some desc)) :
    desc.Distinct := by
  cases typed with
  | intro _ value _ _ =>
      cases obj with
      | value root structId members content =>
          cases inferred
          exact value _ _ _ _ rfl
      | other implied iterable locks items =>
          rcases implied with _ | implied
          · cases inferred
          · cases implied <;> cases inferred <;>
              simp only [FieldDesc.Distinct]
      | none => cases inferred
      | tuple items => cases inferred
      | dict entries => cases inferred
      | _ =>
          cases inferred
          simp only [FieldDesc.Distinct]

namespace Node.Keeps

variable {node : Node}

theorem iterated (keeps : node.Keeps) {items : List Part}
    (ended : (node.iterate python).result = .ok items) :
    ∀ item ∈ items, item.Keeps :=
  keeps.items items (Node.iterate_items ended)

theorem pyToArray (gives : python.GivesTypes) (keeps : node.Keeps)
    {scalarType : ScalarType} {values : List ScalarValue}
    (ended : (node.pyToArray python scalarType).result = .ok values) :
    ∀ value ∈ values, value.scalarType = scalarType := by
  unfold Node.pyToArray at ended
  split at ended
  · rename_i string
    rw [string]
    split at ended
    · cases ended
      simp [ScalarValue.scalarType]
    · cases ended
      simp [ScalarValue.scalarType]
    · obtain ⟨items, -, ended⟩ := (Locking.result_bind_ok_iff _ _ _).mp ended
      intro value member
      obtain ⟨item, -, given⟩ := Locking.mem_result_each ended member
      cases given
      rw [ScalarValue.scalarType]
  · rw [Locking.result_bind_ok (Locking.result_touch _)] at ended
    exact gives.asarray scalarType node.obj values keeps.obj ended

theorem assignPlain (gives : python.GivesTypes) (keeps : node.Keeps)
    {desc : FieldDesc} (distinct : desc.Distinct) (plain : desc.IsPlain)
    {target : PvField} (typed : desc.IsStructure → HasType desc target)
    {field : PvField}
    (ended : (node.assignPlain python desc target).result = .ok field) :
    HasType desc field := by
  cases desc with
  | scalar scalarType =>
      obtain ⟨value, converted, ended⟩ :=
        (Locking.result_bind_ok_iff _ _ _).mp ended
      cases ended
      exact .ofScalar (Python.pyToScalar_type gives converted)
  | scalarArray scalarType =>
      obtain ⟨values, converted, ended⟩ :=
        (Locking.result_bind_ok_iff _ _ _).mp ended
      cases ended
      exact .scalarArrayTyped scalarType values
        (keeps.pyToArray gives converted)
  | struct structId fields =>
      have targetTyped := typed trivial
      unfold Node.assignPlain at ended
      cases given : node.entries with
      | none =>
          rw [given] at ended
          cases ended
      | some entries =>
          rw [given] at ended
          simp only [Locking.result_bind_ok (Locking.result_touch _)] at ended
          cases target with
          | struct targetId subs =>
              obtain ⟨result, assigned, ended⟩ :=
                (Locking.result_bind_ok_iff _ _ _).mp ended
              cases ended
              rw [FieldDesc.Distinct] at distinct
              obtain rfl := targetTyped.structId
              exact Node.assignEntries_keeps distinct.2
                (keeps.entries entries given) targetTyped assigned
          | _ => cases ended
  | _ => cases plain

theorem buildPlain (gives : python.GivesTypes) (keeps : node.Keeps)
    {desc : FieldDesc} (distinct : desc.Distinct) (plain : desc.IsPlain)
    {field : PvField}
    (ended : (node.buildPlain python desc).result = .ok field) :
    HasType desc field :=
  keeps.assignPlain gives distinct plain
    (fun _ => gives.default desc distinct) ended

theorem buildUnion (gives : python.GivesTypes) (keeps : node.Keeps)
    (structId : Str) {variants : List (Str × FieldDesc)}
    (distinct : DistinctMembers variants) {field : PvField}
    (ended : (node.buildUnion python variants).result = .ok field) :
    HasType (.union structId variants) field := by
  unfold Node.buildUnion at ended
  split at ended
  · cases ended
    exact .unselected structId variants
  · rename_i member payload isTuple given
    obtain ⟨name, -, ended⟩ := (Locking.result_bind_ok_iff _ _ _).mp ended
    split at ended
    · cases ended
    · rename_i index name desc found
      obtain ⟨value, assigned, ended⟩ :=
        (Locking.result_bind_ok_iff _ _ _).mp ended
      cases ended
      have selected := (findVariant_some found).1
      have descDistinct := distinct.mem (List.mem_of_getElem? selected)
      refine .union structId variants index name desc value selected ?_
      exact keeps.items _ given payload (by simp) desc descDistinct _
        (fun _ => gives.default desc descDistinct) value assigned
  · cases ended
  · obtain ⟨⟨index, name, desc⟩, picked, ended⟩ :=
      (Locking.result_bind_ok_iff _ _ _).mp ended
    obtain ⟨value, built, ended⟩ :=
      (Locking.result_bind_ok_iff _ _ _).mp ended
    cases ended
    obtain ⟨wanted, -, chosen⟩ := pickUnionVariant_iff.mp picked
    obtain ⟨selected, plain⟩ := memberFor_some chosen
    refine .union structId variants index name desc value selected ?_
    exact keeps.buildPlain gives
      (distinct.mem (List.mem_of_getElem? selected)) plain built

theorem buildVariant (gives : python.GivesTypes) (keeps : node.Keeps)
    {field : PvField}
    (ended : (node.buildVariant python).result = .ok field) :
    HasType .variant field := by
  obtain ⟨inferred, implied, ended⟩ :=
    (Locking.result_bind_ok_iff _ _ _).mp ended
  cases inferred with
  | none =>
      cases ended
      exact .empty
  | some desc =>
      obtain ⟨value, built, ended⟩ :=
        (Locking.result_bind_ok_iff _ _ _).mp ended
      cases ended
      exact .variant desc value (keeps.buildPlain gives
        (keeps.obj.inferred implied) (inferDesc_plain implied) built)

theorem buildItems (keeps : node.Keeps) {Item : Type}
    {build : Part → Asking (Option Item)} {values : List (Option Item)}
    (ended : (node.buildItems python build).result = .ok values)
    {value : Item} (member : some value ∈ values) :
    ∃ item : Part, item.Keeps ∧ (build item).result = .ok (some value) := by
  obtain ⟨items, iterated, ended⟩ :=
    (Locking.result_bind_ok_iff _ _ _).mp ended
  obtain ⟨item, itemMember, built⟩ := Locking.mem_result_each ended member
  split at built
  · cases built
  · exact ⟨item, keeps.iterated iterated item itemMember, built⟩

theorem assign (gives : python.GivesTypes) (keeps : node.Keeps)
    {desc : FieldDesc} (distinct : desc.Distinct) {target : PvField}
    (typed : desc.IsStructure → HasType desc target) {field : PvField}
    (ended : (node.assign python desc target).result = .ok field) :
    HasType desc field := by
  cases desc with
  | structArray structId fields =>
      obtain ⟨values, built, ended⟩ :=
        (Locking.result_bind_ok_iff _ _ _).mp ended
      cases ended
      apply HasType.structArray
      intro itemId subs member
      obtain ⟨item, itemKeeps, itemBuilt⟩ := keeps.buildItems built member
      obtain ⟨itemField, assigned, made⟩ :=
        (Locking.result_bind_ok_iff _ _ _).mp itemBuilt
      have elementDistinct : (FieldDesc.struct structId fields).Distinct := by
        simpa only [FieldDesc.Distinct] using distinct
      have itemTyped := itemKeeps _ elementDistinct _
        (fun _ => gives.default _ elementDistinct) itemField assigned
      rw [← PvField.structItem_iff.mp (Except.ok.inj made)]
      exact itemTyped
  | union structId variants =>
      rw [FieldDesc.Distinct] at distinct
      exact keeps.buildUnion gives structId distinct.2 ended
  | unionArray structId variants =>
      obtain ⟨items, iterated, ended⟩ :=
        (Locking.result_bind_ok_iff _ _ _).mp ended
      obtain ⟨values, built, ended⟩ :=
        (Locking.result_bind_ok_iff _ _ _).mp ended
      cases ended
      have elementDistinct : (FieldDesc.union structId variants).Distinct := by
        simpa only [FieldDesc.Distinct] using distinct
      apply HasType.unionElements
      intro selector name value member
      obtain ⟨item, itemMember, itemBuilt⟩ :=
        Locking.mem_result_each built member
      obtain ⟨itemField, assigned, made⟩ :=
        (Locking.result_bind_ok_iff _ _ _).mp itemBuilt
      have itemTyped := keeps.iterated iterated item itemMember _
        elementDistinct .null (fun impossible => impossible.elim) itemField
        assigned
      obtain ⟨selected, rfl⟩ :=
        PvField.unionItem_iff.mp (Except.ok.inj made)
      exact ⟨selected, itemTyped⟩
  | variant => exact keeps.buildVariant gives ended
  | variantArray =>
      obtain ⟨values, built, ended⟩ :=
        (Locking.result_bind_ok_iff _ _ _).mp ended
      cases ended
      apply HasType.variantElements
      intro stored value member
      obtain ⟨item, itemKeeps, itemBuilt⟩ := keeps.buildItems built member
      obtain ⟨itemField, assigned, made⟩ :=
        (Locking.result_bind_ok_iff _ _ _).mp itemBuilt
      have itemTyped := itemKeeps .variant (by simp only [FieldDesc.Distinct])
        .null (fun impossible => impossible.elim) itemField assigned
      rw [← PvField.variantItem_iff.mp (Except.ok.inj made)]
      exact itemTyped
  | scalar scalarType =>
      exact keeps.assignPlain gives distinct trivial typed ended
  | scalarArray scalarType =>
      exact keeps.assignPlain gives distinct trivial typed ended
  | struct structId fields =>
      exact keeps.assignPlain gives distinct trivial typed ended

end Node.Keeps

theorem Node.leafPart_keeps (gives : python.GivesTypes) {obj : PyObj}
    (typed : obj.WellTyped) : (Node.leafPart python obj).Keeps := by
  have leaf : (Node.leaf obj).Keeps := by
    refine ⟨typed, ?_, ?_⟩
    · intro items given
      cases given
    · intro entries given
      cases given
  intro desc distinct target targetTyped field ended
  exact leaf.assign gives distinct targetTyped ended

theorem PyObj.str_wellTyped (text : Str) : (PyObj.str text).WellTyped :=
  .intro _ nofun nofun (by simp [PyObj.children])

theorem PyObj.numpy_wellTyped (value : ScalarValue) :
    (PyObj.numpy value).WellTyped :=
  .intro _ nofun nofun (by simp [PyObj.children])

theorem PyObj.part_keeps (gives : python.GivesTypes) {obj : PyObj}
    (typed : obj.WellTyped) : (obj.part python).Keeps := by
  induction obj using PyObj.childInduction with
  | step obj children =>
      have keeps : ∀ child ∈ obj.children, (child.part python).Keeps := by
        cases typed with
        | intro _ _ _ childTyped =>
            intro child member
            exact children child member (childTyped child member)
      have node : (obj.node python).Keeps := by
        refine ⟨?_, ?_, ?_⟩
        · rw [PyObj.node_obj]
          exact typed
        · intro items given
          exact PyObj.items_of keeps
            (fun text => Node.leafPart_keeps gives (str_wellTyped text))
            (fun value => Node.leafPart_keeps gives (numpy_wellTyped value))
            given
        · intro entries given
          exact PyObj.entries_of keeps given
      intro desc distinct target targetTyped field ended
      rw [PyObj.part, PyObj.assign_eq] at ended
      exact node.assign gives distinct targetTyped ended

variable {lib : PvData}

theorem Python.entries_wellTyped {obj : PyObj} (typed : obj.WellTyped)
    {entries : List (Except PyErr Str × PyObj)}
    (read : python.conversions.entries obj = .ok entries) :
    ∀ entry ∈ entries, entry.2.WellTyped := by
  cases typed with
  | intro _ _ _ childTyped =>
      cases obj with
      | dict objs =>
          cases read
          intro entry member
          obtain ⟨objEntry, objMember, rfl⟩ := List.mem_map.mp member
          exact childTyped objEntry.2
            (List.mem_flatMap.mpr ⟨objEntry, objMember, by simp⟩)
      | value root structId members content =>
          cases read
          intro entry member
          obtain ⟨objEntry, objMember, rfl⟩ := List.mem_map.mp member
          exact childTyped objEntry.2 (List.mem_map_of_mem objMember)
      | _ => cases read

theorem assignEntries_typed (lawful : lib.Lawful) {structId : Str}
    {fields : List (Str × FieldDesc)}
    (members : ∀ name child, (name, child) ∈ fields →
      ∀ bit target (obj : PyObj) marks, HasType child target →
        obj.WellTyped →
          HasType child (Pva.assign lib python.conversions child bit target
            obj marks).target)
    (bit : Nat) {entries : List (Except PyErr Str × PyObj)}
    (entriesTyped : ∀ entry ∈ entries, entry.2.WellTyped)
    {subs : List (Str × PvField)}
    (typed : HasType (.struct structId fields) (.struct structId subs))
    (marks : BitSet) :
    HasType (.struct structId fields) (.struct structId
      (Pva.assignEntries (assignMembers lib python.conversions fields bit)
        entries subs marks).target) := by
  induction entries generalizing subs marks with
  | nil => exact typed
  | cons entry entries induction =>
      obtain ⟨read, obj⟩ := entry
      have objTyped := entriesTyped _ List.mem_cons_self
      have restTyped : ∀ entry ∈ entries, entry.2.WellTyped :=
        fun entry member =>
          entriesTyped entry (List.mem_cons_of_mem _ member)
      cases read with
      | error error => exact typed
      | ok name =>
          cases found : FieldDesc.named? fields name with
          | none =>
              simp only [Pva.assignEntries, find_assignMembers_none found]
              exact typed
          | some child =>
              obtain ⟨before, offset, -⟩ := FieldDesc.named?_offset found []
              simp only [Pva.assignEntries,
                find_assignMembers lawful found offset]
              cases targetFound : PvField.named? subs name with
              | none => exact typed
              | some target =>
                  have childTyped := members name child
                    (FieldDesc.named?_mem found) (bit + before) target obj
                    marks (typed.member found targetFound) objTyped
                  have putTyped := typed.putNamed found childTyped
                  simp only
                  split
                  · exact putTyped
                  · exact induction restTyped putTyped _

/-- An assignment leaves a field of the type even when it raises. -/
theorem assign_typed (lawful : lib.Lawful) (gives : python.GivesTypes)
    {desc : FieldDesc} (distinct : desc.Distinct) (bit : Nat)
    {target : PvField} (typed : HasType desc target) {obj : PyObj}
    (objTyped : obj.WellTyped) (marks : BitSet) :
    HasType desc (Pva.assign lib python.conversions desc bit target obj
      marks).target := by
  induction desc using FieldDesc.memberInduction
      generalizing bit target obj marks with
  | struct structId fields members =>
      rw [Pva.assign]
      split
      · exact typed
      · rename_i entries read
        cases target with
        | struct targetId subs =>
            obtain rfl := typed.structId
            rw [FieldDesc.Distinct] at distinct
            refine assignEntries_typed lawful ?_ (bit + 1)
              (python.entries_wellTyped objTyped read) typed marks
            intro name child member childBit childTarget value valueMarks
              childTyped valueTyped
            exact members name child member (distinct.2.mem member) childBit
              childTyped valueTyped valueMarks
        | _ => exact typed
  | other desc notStructure =>
      have built : ∀ field, python.conversions.convert desc obj = .ok field →
          HasType desc field := fun field converted =>
        PyObj.part_keeps gives objTyped desc distinct .null
          (fun isStructure => (notStructure isStructure).elim) field converted
      cases desc with
      | struct _ _ => exact (notStructure trivial).elim
      | _ =>
          simp only [Pva.assign]
          split
          · exact typed
          · rename_i field converted
            exact built field converted

/-- What stands at a path is replaced by a field of the type there. -/
theorem HasType.putAt {desc sub : FieldDesc} {field new : PvField}
    (typed : HasType desc field) {path : List Str}
    (found : desc.atPath? path = some sub) (newTyped : HasType sub new) :
    HasType desc (field.putAt path new) := by
  induction path generalizing desc field with
  | nil =>
      rw [FieldDesc.atPath?_nil] at found
      cases found
      rw [PvField.putAt]
      exact newTyped
  | cons name path induction =>
      rw [FieldDesc.atPath?_cons] at found
      obtain ⟨child, childFound, rest⟩ := Option.bind_eq_some_iff.mp found
      cases typed with
      | struct structId members fields distinct names typed =>
          obtain ⟨member, memberFound, memberTyped⟩ :=
            named names typed childFound
          rw [PvField.putAt, memberFound]
          exact (HasType.struct _ _ _ distinct names typed).putNamed
            childFound (induction memberTyped rest)
      | _ => cases childFound

theorem FieldDesc.Distinct.atPath? {desc sub : FieldDesc}
    (distinct : desc.Distinct) {path : List Str}
    (found : desc.atPath? path = some sub) : sub.Distinct := by
  induction path generalizing desc with
  | nil =>
      rw [FieldDesc.atPath?_nil] at found
      cases found
      exact distinct
  | cons name path induction =>
      rw [FieldDesc.atPath?_cons] at found
      obtain ⟨child, childFound, rest⟩ := Option.bind_eq_some_iff.mp found
      cases desc with
      | struct structId members =>
          rw [FieldDesc.Distinct] at distinct
          exact induction
            (distinct.2.mem (FieldDesc.named?_mem childFound)) rest
      | _ => cases childFound

/-- The root has a field of a type. -/
structure Root.Typed (desc : FieldDesc) (root : Root) : Prop where
  sameDesc : root.desc = desc
  field : HasType desc root.field

/-- The objects that are assigned. -/
def Edit.objects {Name Obj : Type} : Edit Name Obj → List Obj
  | .setItem _ obj | .assignRoot obj => [obj]
  | .mark _ _ | .select _ _ => []

theorem Edit.objects_map {Name Other Obj : Type} (edit : Edit Name Obj)
    (rename : Name → Other) : (edit.map rename).objects = edit.objects := by
  cases edit <;> rw [Edit.map, Edit.objects, Edit.objects]

namespace Root.Typed

variable {desc : FieldDesc} {root : Root}

theorem withMarks (typed : root.Typed desc) (marks : BitSet) :
    Root.Typed desc { root with marks := marks } :=
  ⟨typed.sameDesc, typed.field⟩

theorem markSpan (typed : root.Typed desc) (path : Str) (val : Bool) :
    (root.markSpan lib path val).1.Typed desc := by
  unfold Root.markSpan
  split
  · split
    · exact typed.withMarks _
    · exact typed.withMarks _
  · exact typed

theorem mark (typed : root.Typed desc) (view : Str) (field : Option Str)
    (val : Bool) : (root.mark lib view field val).1.Typed desc := by
  cases field with
  | none =>
      simp only [Root.mark]
      split
      · rename_i changed ended
        have span := congrArg Prod.fst ended
        exact span ▸ typed.markSpan _ val
      · exact typed
  | some key =>
      simp only [Root.mark]
      split
      · exact typed
      · split
        · exact typed.withMarks _
        · exact typed.markSpan _ false

theorem assignAt (lawful : lib.Lawful) (gives : python.GivesTypes)
    (distinct : desc.Distinct) (typed : root.Typed desc) (path : Str)
    {obj : PyObj} (objTyped : obj.WellTyped) (missing : PyErr) :
    (root.assignAt lib python.conversions path obj missing).1.Typed
      desc := by
  obtain ⟨rootDesc, field, marks⟩ := root
  obtain ⟨rfl, typed⟩ := typed
  unfold Root.assignAt
  split
  · rename_i sub target found targetFound
    obtain ⟨other, otherFound, otherTyped⟩ := typed.atPath? found
    cases targetFound.symm.trans otherFound
    have assigned := assign_typed lawful gives (distinct.atPath? found)
      ((lib.bitForPath rootDesc path).getD 0) otherTyped objTyped marks
    exact ⟨rfl, typed.putAt found assigned⟩
  · exact ⟨rfl, typed⟩

theorem selected (gives : python.GivesTypes)
    {variants : List (Str × FieldDesc)} (distinct : DistinctMembers variants)
    (structId : Str) {selector : Option Str} {target : PvField}
    (chosen : Root.selected python.conversions variants selector =
      .ok target) : HasType (.union structId variants) target := by
  cases selector with
  | none =>
      cases chosen
      exact .unselected structId variants
  | some name =>
      simp only [Root.selected] at chosen
      split at chosen
      · cases chosen
      · rename_i label memberDesc index found
        cases chosen
        have member : variants[index]? = some (label, memberDesc) :=
          List.mem_zipIdx_iff_getElem?.mp (List.mem_of_find?_eq_some found)
        exact .union structId variants index label memberDesc _ member
          (gives.default memberDesc
            (distinct.mem (List.mem_of_getElem? member)))

theorem select (gives : python.GivesTypes) (distinct : desc.Distinct)
    (typed : root.Typed desc) (view field : Str) (selector : Option Str) :
    (root.select lib python.conversions view field selector).1.Typed
      desc := by
  obtain ⟨rootDesc, rootField, marks⟩ := root
  obtain ⟨rfl, typed⟩ := typed
  simp only [Root.select]
  split
  · rename_i structId variants found
    split
    · exact ⟨rfl, typed⟩
    · split
      · exact ⟨rfl, typed⟩
      · rename_i target chosen
        have unionDistinct := distinct.atPath? found
        rw [FieldDesc.Distinct] at unionDistinct
        have targetTyped : HasType (.union structId variants) target :=
          selected gives unionDistinct.2 structId chosen
        exact ⟨rfl, typed.putAt found targetTyped⟩
  · exact ⟨rfl, typed⟩

theorem edit (lawful : lib.Lawful) (gives : python.GivesTypes)
    (distinct : desc.Distinct) (typed : root.Typed desc) (view : Str)
    {edit : Edit Str PyObj} (objects : ∀ obj ∈ edit.objects, obj.WellTyped) :
    (root.edit lib python.conversions view edit).1.Typed desc := by
  cases edit with
  | mark field val => exact typed.mark view field val
  | setItem key obj =>
      exact typed.assignAt lawful gives distinct _
        (objects obj List.mem_cons_self) _
  | assignRoot obj =>
      exact typed.assignAt lawful gives distinct _
        (objects obj List.mem_cons_self) _
  | select field selector =>
      exact typed.select gives distinct view field selector

theorem after (lawful : lib.Lawful) (gives : python.GivesTypes)
    (distinct : desc.Distinct) (typed : root.Typed desc)
    {edits : List (List Str × Edit (List Str) PyObj)}
    (objects : ∀ step ∈ edits, ∀ obj ∈ step.2.objects, obj.WellTyped) :
    (root.after lib python.conversions edits).Typed desc := by
  induction edits generalizing root with
  | nil => exact typed
  | cons step edits induction =>
      have stepTyped : (root.edit lib python.conversions (dotted step.1)
          (step.2.map dotted)).1.Typed desc := by
        apply typed.edit lawful gives distinct
        rw [Edit.objects_map]
        exact objects step List.mem_cons_self
      exact induction stepTyped fun other member =>
        objects other (List.mem_cons_of_mem _ member)

end Root.Typed

/-- Whatever was done to a new value, its field is one of its type. -/
theorem Root.new_typed (lawful : lib.Lawful) (gives : python.GivesTypes)
    {desc : FieldDesc} (distinct : desc.Distinct)
    {edits : List (List Str × Edit (List Str) PyObj)}
    (objects : ∀ step ∈ edits, ∀ obj ∈ step.2.objects, obj.WellTyped) :
    HasType desc ((Root.mk desc (python.defaultValueFor desc) ∅).after lib
      python.conversions edits).field :=
  (Root.Typed.after lawful gives distinct
    ⟨rfl, gives.default desc distinct⟩ objects).field

theorem zeroMembers_eq (fields : List (Str × FieldDesc)) :
    zeroMembers fields =
      fields.map fun member => (member.1, zeroField member.2) := by
  induction fields with
  | nil => rw [zeroMembers, List.map_nil]
  | cons entry rest induction =>
      rw [zeroMembers, induction, List.map_cons]

theorem zeroField_hasType {desc : FieldDesc} (distinct : desc.Distinct) :
    HasType desc (zeroField desc) := by
  induction desc using FieldDesc.memberInduction with
  | struct structId fields members =>
      rw [FieldDesc.Distinct] at distinct
      rw [zeroField, zeroMembers_eq]
      refine .struct _ _ _ distinct.1 (by simp) ?_
      intro member field inZip
      rw [← List.map_prod_left_eq_zip] at inZip
      obtain ⟨⟨name, child⟩, inFields, same⟩ := List.mem_map.mp inZip
      cases same
      exact members name child inFields (distinct.2.mem inFields)
  | other desc notStructure =>
      cases desc with
      | struct _ _ => exact (notStructure trivial).elim
      | scalar scalarType =>
          cases scalarType <;> rw [zeroField] <;> exact .ofScalar rfl
      | scalarArray scalarType => exact .scalarArrayTyped _ _ (by simp)
      | structArray structId fields => exact .structArray _ _ _ (by simp)
      | union structId variants => exact .unselected _ _
      | unionArray structId variants =>
          exact .unionArray _ _ _ (by simp) (by simp)
      | variant => exact .empty
      | variantArray => exact .variantArray _ (by simp) (by simp)

theorem Python.simple_givesTypes : Python.simple.GivesTypes where
  parse scalarType text value parsed := by
    cases scalarType <;> cases parsed
    rfl
  asarray scalarType obj items typed taken := by
    cases obj with
    | array itemType values =>
        simp only [simple] at taken
        split at taken
        · rename_i same
          cases taken
          cases typed with
          | intro _ _ array _ => exact same ▸ array itemType items rfl
        · cases taken
    | _ => cases taken
  default _ distinct := zeroField_hasType distinct

end Repics.Pva
