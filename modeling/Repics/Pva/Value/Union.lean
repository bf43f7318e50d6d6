import Repics.Pva.Value.Copyable

/-!
# The member a bare value selects

What a union is assigned without the name of a member selects one by its kind.
The kinds below and what each selects are those of the documentation; the code
goes through the type that a variant would be given, which knows nothing of
dicts and tells the numbers of numpy apart by their size.
-/

namespace Repics.Pva

/-- The kinds of values that select a member of a union. -/
inductive BareKind where
  | unselected
  | text
  | bool
  | integer
  | float
  | array (item : ScalarType)
  | record
  deriving DecidableEq

def ScalarType.isNumber (scalarType : ScalarType) : Bool :=
  decide (scalarType ≠ .string ∧ scalarType ≠ .boolean)

def ScalarType.bareKind : ScalarType → BareKind
  | .string => .text
  | .boolean => .bool
  | .float | .double => .float
  | _ => .integer

/-- The kind of an object that is known by its `dtype` or as a number: numbers
of numpy of other sizes, arrays without dimensions and of other types. -/
def Implied.bareKind : Implied → BareKind
  | .scalar scalarType => scalarType.bareKind
  | .array scalarType => .array scalarType

/-- The kind of a value; a tuple names its member. -/
def PyObj.bareKind : PyObj → Option BareKind
  | .none => some .unselected
  | .str _ => some .text
  | .bool _ => some .bool
  | .int _ => some .integer
  | .float _ => some .float
  | .numpy scalar => some scalar.scalarType.bareKind
  | .array scalarType _ => some (.array scalarType)
  | .list items => some (.array
      (if items ≠ [] ∧ items.all PyObj.isStr then .string else .double))
  | .dict _ => some .record
  | .value _ _ _ _ => some .record
  | .tuple _ => Option.none
  | .other implied _ _ _ => implied.map Implied.bareKind

namespace FieldDesc

def isScalarOf (accepts : ScalarType → Bool) : FieldDesc → Bool
  | .scalar scalarType => accepts scalarType
  | _ => false

def isArrayOf (accepts : ScalarType → Bool) : FieldDesc → Bool
  | .scalarArray scalarType => accepts scalarType
  | _ => false

def isRecord : FieldDesc → Bool
  | .struct _ _ => true
  | _ => false

end FieldDesc

/-- A member for numbers. -/
abbrev isNumeric : FieldDesc → Bool :=
  FieldDesc.isScalarOf ScalarType.isNumber

abbrev Variants := List (Str × FieldDesc)

def firstMember (accepts : FieldDesc → Bool) (variants : Variants) :
    Option (Nat × Str × FieldDesc) :=
  findVariant (fun _ desc => accepts desc) variants

/-- The member that a value of a kind selects. -/
def BareKind.member (variants : Variants) :
    BareKind → Option (Nat × Str × FieldDesc)
  | .unselected => none
  | .text => firstMember (FieldDesc.isScalarOf (· = .string)) variants
  | .bool => firstMember (FieldDesc.isScalarOf (· = .boolean)) variants
  | .integer => firstMember isNumeric variants
  | .float =>
      (firstMember (FieldDesc.isScalarOf fun scalarType =>
        scalarType = .double ∨ scalarType = .float) variants).or
        (firstMember isNumeric variants)
  | .array item =>
      (firstMember (FieldDesc.isArrayOf (item = ·)) variants).or
        (firstMember (FieldDesc.isArrayOf fun _ => true) variants)
  | .record => firstMember FieldDesc.isRecord variants

section Select

variable (lib : PvData) (python : Python) (variants : Variants)

/-- The `ValueError` for a value that no member accepts. -/
def noMemberAccepts (obj : PyObj) : PyErr :=
  .conversion ("no union member accepts a ".toList ++ python.typeName obj ++
    "; select one with (name, value)".toList)

/-- The field that a value of a kind makes of a union. -/
def selectedField (kind : BareKind) (obj : PyObj) : Except PyErr PvField :=
  if kind = .unselected then .ok (.union (-1) [] .null)
  else
    match kind.member variants with
    | none => .error (noMemberAccepts python obj)
    | some (index, name, desc) =>
        (obj.assign python desc (python.defaultValueFor desc)).result.map
          (.union index name)

/-- What an assignment of a field leaves behind. -/
def Outcome.of (target : PvField) (bit : Nat) (marks : BitSet) :
    Except PyErr PvField → Outcome PvField
  | .error error => ⟨target, marks, some error⟩
  | .ok field => ⟨field, insert bit marks, none⟩

/-- What the code makes of a value that is assigned to a union. -/
def unionOf (obj : PyObj) : Except PyErr PvField :=
  (obj.assign python (.union [] variants) .null).result

/-- A value of a kind selects the member of its kind: alone, and as an element
of what is assigned to an array of unions. -/
structure Selects (obj : PyObj) (kind : BareKind) : Prop where
  picks : kind ≠ .unselected →
    (pickUnionVariant python variants obj).result =
      (kind.member variants).elim (.error (noMemberAccepts python obj)) .ok
  field : ∀ structId bit target marks,
    assign lib python.conversions (.union structId variants) bit target obj
        marks =
      .of target bit marks (selectedField python variants kind obj)
  refused : ∀ container before part after,
    (container.node python).items = some (before ++ part :: after) →
    part.obj = obj →
    (∀ earlier ∈ before, ∃ field, unionOf python variants earlier.obj =
      .ok field) →
    ∀ error, selectedField python variants kind obj = .error error →
      ∀ structId bit target marks,
        assign lib python.conversions (.unionArray structId variants) bit
            target container marks =
          ⟨target, marks, some error⟩
  element : ∀ container before part after,
    (container.node python).items = some (before ++ part :: after) →
    part.obj = obj →
    ∀ structId bit target marks,
      (assign lib python.conversions (.unionArray structId variants) bit
        target container marks).error = none →
      ∃ field items, selectedField python variants kind obj = .ok field ∧
        assign lib python.conversions (.unionArray structId variants) bit
            target container marks =
          ⟨.unionArray items, insert bit marks, none⟩ ∧
        items[before.length]? = some field.unionItem

end Select

/-- A number that implies this type selects a member: the type is one of those
that members are looked for, or there is no member for numbers. -/
def ScalarType.Selectable (variants : Variants) (scalarType : ScalarType) :
    Prop :=
  scalarType ∈ [.string, .boolean, .long, .double] ∨
    ∀ variant ∈ variants, isNumeric variant.2 = false

/-- The value is no dict, and no number of numpy that implies a type other than
`long` and `double` while there is a member for numbers. -/
def Selectable (variants : Variants) : PyObj → Prop
  | .dict _ => False
  | .numpy value => value.scalarType.Selectable variants
  | .other (some (.scalar scalarType)) _ _ _ => scalarType.Selectable variants
  | _ => True

section Member

variable {variants : Variants}

theorem firstMember_none {member : FieldDesc → Bool}
    (never : ∀ desc, member desc = false) :
    firstMember member variants = none :=
  findVariant_none (fun _ => never) variants

theorem eq_isScalarOf {member : FieldDesc → Bool}
    {accepts : ScalarType → Bool}
    (scalar : ∀ scalarType, member (.scalar scalarType) = accepts scalarType)
    (other : ∀ desc, (∀ scalarType, desc ≠ .scalar scalarType) →
      member desc = false) :
    member = FieldDesc.isScalarOf accepts := by
  funext desc
  cases desc with
  | scalar scalarType => exact scalar scalarType
  | _ => exact other _ (by simp)

theorem memberFor_passes {wanted : ScalarType}
    {strict loose : ScalarType → Bool}
    (first : ∀ scalarType,
      accepts (some (.scalar wanted)) (.scalar scalarType) =
        strict scalarType)
    (second : ∀ scalarType,
      acceptsLoosely (some (.scalar wanted)) (.scalar scalarType) =
        loose scalarType) :
    memberFor variants (some (.scalar wanted)) =
      (firstMember (FieldDesc.isScalarOf strict) variants).or
        (firstMember (FieldDesc.isScalarOf loose) variants) := by
  have only (desc : FieldDesc)
      (other : ∀ scalarType, desc ≠ .scalar scalarType) :
      accepts (some (.scalar wanted)) desc = false ∧
        acceptsLoosely (some (.scalar wanted)) desc = false := by
    cases desc with
    | scalar scalarType => exact absurd rfl (other scalarType)
    | _ => cases wanted <;> exact ⟨rfl, rfl⟩
  rw [memberFor,
    eq_isScalarOf first fun desc other => (only desc other).1,
    eq_isScalarOf second fun desc other => (only desc other).2]
  rfl

theorem isScalarOf_false (desc : FieldDesc) :
    FieldDesc.isScalarOf (fun _ => false) desc = false := by
  cases desc <;> rfl

/-- The scalar types that values imply for which members are looked for. -/
abbrev ScalarType.sought : List ScalarType :=
  [.string, .boolean, .long, .double]

/-- The type that a scalar implies selects what its kind does. -/
theorem memberFor_scalar {scalarType : ScalarType}
    (sought : scalarType ∈ ScalarType.sought) :
    memberFor variants (some (.scalar scalarType)) =
      scalarType.bareKind.member variants := by
  have strictly {wanted : ScalarType} {strict : ScalarType → Bool}
      (first : ∀ scalarType,
        accepts (some (.scalar wanted)) (.scalar scalarType) =
          strict scalarType)
      (second : ∀ scalarType,
        acceptsLoosely (some (.scalar wanted)) (.scalar scalarType) =
          false) :
      memberFor variants (some (.scalar wanted)) =
        firstMember (FieldDesc.isScalarOf strict) variants := by
    rw [memberFor_passes first second, firstMember_none isScalarOf_false,
      Option.or_none]
  cases scalarType with
  | string =>
      apply strictly
      · intro scalarType
        cases scalarType <;> rfl
      · exact fun _ => rfl
  | boolean =>
      apply strictly
      · intro scalarType
        cases scalarType <;> rfl
      · exact fun _ => rfl
  | long => exact strictly (fun _ => rfl) fun _ => rfl
  | double => exact memberFor_passes (fun _ => rfl) fun _ => rfl
  | _ => simp at sought

theorem memberFor_unsought {scalarType : ScalarType}
    (unsought : scalarType ∉ ScalarType.sought) :
    memberFor variants (some (.scalar scalarType)) = none := by
  have never : memberFor variants (some (.scalar scalarType)) =
      (firstMember (FieldDesc.isScalarOf fun _ => false) variants).or
        (firstMember (FieldDesc.isScalarOf fun _ => false) variants) := by
    apply memberFor_passes
    · intro other
      cases scalarType <;> first | rfl | simp at unsought
    · intro other
      cases scalarType <;> first | rfl | simp at unsought
  rw [never, firstMember_none isScalarOf_false, Option.none_or]

theorem memberFor_array (item : ScalarType) :
    memberFor variants (some (.scalarArray item)) =
      (BareKind.array item).member variants := by
  have strict : accepts (some (.scalarArray item)) =
      FieldDesc.isArrayOf (item = ·) := by
    funext desc
    cases desc <;> rfl
  have loose : acceptsLoosely (some (.scalarArray item)) =
      FieldDesc.isArrayOf fun _ => true := by
    funext desc
    cases desc <;> rfl
  rw [memberFor, strict, loose]
  rfl

theorem memberFor_record (structId : Str)
    (members : List (Str × FieldDesc)) :
    memberFor variants (some (.struct structId members)) =
      BareKind.record.member variants := by
  have strict : accepts (some (.struct structId members)) =
      FieldDesc.isRecord := by
    funext desc
    cases desc <;> rfl
  have loose (desc : FieldDesc) :
      acceptsLoosely (some (.struct structId members)) desc = false := by
    cases desc <;> rfl
  have second : findVariant (fun _ =>
      acceptsLoosely (some (.struct structId members))) variants = none :=
    findVariant_none (fun _ => loose) variants
  rw [memberFor, strict, second, Option.or_none]
  rfl

theorem firstMember_eq_none_iff {accepts : FieldDesc → Bool} :
    firstMember accepts variants = none ↔
      ∀ variant ∈ variants, accepts variant.2 = false := by
  rw [firstMember, findVariant, Option.map_eq_none_iff, List.find?_eq_none]
  simp only [Bool.not_eq_true]
  constructor
  · intro never variant member
    obtain ⟨index, bound, is⟩ := List.mem_iff_getElem.mp member
    refine never (variant, index) (List.mem_zipIdx_iff_getElem?.mpr ?_)
    exact List.getElem?_eq_some_iff.mpr ⟨bound, is⟩
  · rintro never ⟨variant, index⟩ member
    have at_ := List.mem_zipIdx_iff_getElem?.mp member
    exact never variant (List.mem_of_getElem? at_)

theorem firstMember_isPlain {accepts : FieldDesc → Bool}
    (plain : ∀ desc, accepts desc = true → desc.IsPlain) {index : Nat}
    {name : Str} {desc : FieldDesc}
    (found : firstMember accepts variants = some (index, name, desc)) :
    desc.IsPlain :=
  plain desc (findVariant_some found).2

/-- The members that are selected are those that values can build. -/
theorem member_isPlain {kind : BareKind} {index : Nat} {name : Str}
    {desc : FieldDesc}
    (found : kind.member variants = some (index, name, desc)) :
    desc.IsPlain := by
  have scalar {accepts : ScalarType → Bool} (desc : FieldDesc)
      (accepted : desc.isScalarOf accepts = true) : desc.IsPlain := by
    cases desc with
    | scalar scalarType => trivial
    | _ => cases accepted
  have array {accepts : ScalarType → Bool} (desc : FieldDesc)
      (accepted : desc.isArrayOf accepts = true) : desc.IsPlain := by
    cases desc with
    | scalarArray scalarType => trivial
    | _ => cases accepted
  cases kind with
  | unselected => cases found
  | text => exact firstMember_isPlain scalar found
  | bool => exact firstMember_isPlain scalar found
  | integer => exact firstMember_isPlain scalar found
  | float =>
      rcases Option.or_eq_some_iff.mp found with first | ⟨-, second⟩
      · exact firstMember_isPlain scalar first
      · exact firstMember_isPlain scalar second
  | array item =>
      rcases Option.or_eq_some_iff.mp found with first | ⟨-, second⟩
      · exact firstMember_isPlain array first
      · exact firstMember_isPlain array second
  | record =>
      refine firstMember_isPlain ?_ found
      intro desc accepted
      cases desc with
      | struct structId members => trivial
      | _ => cases accepted

theorem member_unsought {scalarType : ScalarType}
    (unsought : scalarType ∉ ScalarType.sought) :
    scalarType.bareKind.member variants = none ↔
      ∀ variant ∈ variants, isNumeric variant.2 = false := by
  have float (desc : FieldDesc) (not_ : isNumeric desc = false) :
      FieldDesc.isScalarOf (fun scalarType =>
        scalarType = .double ∨ scalarType = .float) desc = false := by
    cases desc with
    | scalar scalarType => cases scalarType <;> first | rfl | cases not_
    | _ => rfl
  cases scalarType with
  | float =>
      rw [ScalarType.bareKind, BareKind.member, Option.or_eq_none_iff,
        firstMember_eq_none_iff, firstMember_eq_none_iff]
      constructor
      · exact fun both => both.2
      · intro never
        exact ⟨fun variant member => float _ (never variant member), never⟩
  | string => simp at unsought
  | boolean => simp at unsought
  | long => simp at unsought
  | double => simp at unsought
  | _ => exact firstMember_eq_none_iff

end Member

section Pick

variable {lib : PvData} {python : Python} {variants : Variants}

theorem pickUnionVariant_inferred {obj : PyObj} (notDict : obj.isDict = false)
    {wanted : Option FieldDesc}
    (inferred : (inferDesc python obj).result = .ok wanted) :
    (pickUnionVariant python variants obj).result =
      (memberFor variants wanted).elim
        (.error (noMemberAccepts python obj)) .ok := by
  rw [pickUnionVariant, Locking.result_bind_ok inferred]
  cases memberFor variants wanted with
  | some found => rfl
  | none =>
      have nothing : findVariant (fun _ desc =>
          obj.isDict && decide desc.IsStructure) variants = none :=
        findVariant_none (fun _ _ => by rw [notDict, Bool.false_and])
          variants
      simp only [nothing]
      rfl

/-- The `TypeError` for a value that implies no type. -/
def cannotInfer (python : Python) (obj : PyObj) : PyErr :=
  .conversion ("cannot infer a pvData type for ".toList ++
    python.typeName obj)

theorem cannotInfer_ne (python : Python) (obj : PyObj) :
    cannotInfer python obj ≠ noMemberAccepts python obj := by
  intro same
  have texts := PyErr.conversion.inj same
  have letters := congrArg List.head? texts
  cases letters

/-- What implies a scalar picks the member of that kind when members are looked
for its type, or when there is none to be found. -/
theorem picks_scalar_iff {obj : PyObj} {scalarType : ScalarType}
    (notDict : obj.isDict = false)
    (inferred : (inferDesc python obj).result =
      .ok (some (.scalar scalarType))) :
    (pickUnionVariant python variants obj).result =
        (scalarType.bareKind.member variants).elim
          (.error (noMemberAccepts python obj)) .ok ↔
      scalarType.Selectable variants := by
  rw [pickUnionVariant_inferred notDict inferred]
  by_cases sought : scalarType ∈ ScalarType.sought
  · rw [memberFor_scalar sought]
    exact iff_of_true rfl (.inl sought)
  · have selectable : scalarType.Selectable variants ↔
        ∀ variant ∈ variants, isNumeric variant.2 = false :=
      or_iff_right sought
    rw [memberFor_unsought sought, selectable, ← member_unsought sought]
    cases scalarType.bareKind.member variants with
    | none => exact iff_of_true rfl rfl
    | some found => exact iff_of_false (by simp) (by simp)

/-- A selectable value picks the member of its kind, and no other does. -/
theorem picks_iff {obj : PyObj} {kind : BareKind}
    (bare : obj.bareKind = some kind) (selected : kind ≠ .unselected) :
    (pickUnionVariant python variants obj).result =
        (kind.member variants).elim
          (.error (noMemberAccepts python obj)) .ok ↔
      Selectable variants obj := by
  have picks (notDict : obj.isDict = false) {wanted : FieldDesc}
      (inferred : (inferDesc python obj).result = .ok wanted)
      (same : memberFor variants wanted = kind.member variants)
      (selectable : Selectable variants obj) :
      (pickUnionVariant python variants obj).result =
          (kind.member variants).elim
            (.error (noMemberAccepts python obj)) .ok ↔
        Selectable variants obj := by
    refine iff_of_true ?_ selectable
    rw [pickUnionVariant_inferred notDict inferred, same]
  cases obj with
  | none =>
      cases bare
      exact absurd rfl selected
  | str text =>
      cases bare
      exact picks rfl rfl (memberFor_scalar (by simp)) trivial
  | bool value =>
      cases bare
      exact picks rfl rfl (memberFor_scalar (by simp)) trivial
  | int value =>
      cases bare
      exact picks rfl rfl (memberFor_scalar (by simp)) trivial
  | float bits =>
      cases bare
      exact picks rfl rfl (memberFor_scalar (by simp)) trivial
  | array scalarType items =>
      cases bare
      exact picks rfl rfl (memberFor_array _) trivial
  | list items =>
      cases bare
      exact picks rfl rfl (memberFor_array _) trivial
  | value root structId members content =>
      cases bare
      exact picks rfl rfl (memberFor_record _ _) trivial
  | tuple items => cases bare
  | other implied iterable locks items =>
      cases implied with
      | none => cases bare
      | some implied =>
          cases implied with
          | array scalarType =>
              cases bare
              exact picks rfl rfl (memberFor_array _) trivial
          | scalar scalarType =>
              cases bare
              exact picks_scalar_iff rfl rfl
  | dict entries =>
      cases bare
      refine iff_of_false ?_ id
      have refused : (inferDesc python (.dict entries)).result =
          .error (cannotInfer python (.dict entries)) := rfl
      rw [pickUnionVariant, Locking.result_bind_error refused]
      cases BareKind.record.member variants with
      | none =>
          intro same
          exact cannotInfer_ne python _ (Except.error.inj same)
      | some found =>
          intro same
          cases same
  | numpy value =>
      cases bare
      exact picks_scalar_iff rfl rfl

end Pick

section Build

variable {lib : PvData} {python : Python} {variants : Variants}

theorem PyObj.assign_union (obj : PyObj) (structId : Str)
    (target : PvField) :
    (obj.assign python (.union structId variants) target).result =
      unionOf python variants obj := by
  rw [unionOf, PyObj.assign_eq]
  rfl

theorem assign_union (structId : Str) (bit : Nat) (target : PvField)
    (obj : PyObj) (marks : BitSet) :
    assign lib python.conversions (.union structId variants) bit target obj
        marks =
      .of target bit marks (unionOf python variants obj) := by
  rw [← PyObj.assign_union obj structId .null]
  rw [assign.eq_def]
  show (match (obj.assign python (.union structId variants) .null).result with
    | .error error => Outcome.mk target marks (some error)
    | .ok field => ⟨field, insert bit marks, none⟩) = _
  cases (obj.assign python (.union structId variants) .null).result with
  | error error => rfl
  | ok field => rfl

theorem bareKind_selects (scalarType : ScalarType) :
    scalarType.bareKind ≠ .unselected := by
  cases scalarType <;> simp [ScalarType.bareKind]

/-- Only `None` unselects, and what selects a member is no tuple. -/
theorem PyObj.bareKind_cases {obj : PyObj} {kind : BareKind}
    (bare : obj.bareKind = some kind) :
    (obj = .none ∧ kind = .unselected) ∨
      obj.isNone = false ∧ obj.isTuple = false ∧ kind ≠ .unselected := by
  cases obj with
  | none =>
      cases bare
      exact .inl ⟨rfl, rfl⟩
  | tuple items => cases bare
  | other implied iterable locks items =>
      refine .inr ⟨rfl, rfl, ?_⟩
      obtain ⟨implied, -, rfl⟩ := Option.map_eq_some_iff.mp bare
      cases implied with
      | array scalarType => simp [Implied.bareKind]
      | scalar scalarType => exact bareKind_selects scalarType
  | numpy value =>
      cases bare
      exact .inr ⟨rfl, rfl, bareKind_selects value.scalarType⟩
  | _ =>
      cases bare
      exact .inr ⟨rfl, rfl, by simp⟩

/-- A value that picks the member of its kind builds that member. -/
theorem unionOf_picked {obj : PyObj} {kind : BareKind}
    (bare : obj.bareKind = some kind)
    (picks : kind ≠ .unselected →
      (pickUnionVariant python variants obj).result =
        (kind.member variants).elim
          (.error (noMemberAccepts python obj)) .ok) :
    unionOf python variants obj = selectedField python variants kind obj := by
  rcases PyObj.bareKind_cases bare with
    ⟨rfl, rfl⟩ | ⟨isNone, isTuple, selects⟩
  · rw [selectedField, if_pos rfl]
    rfl
  have picked := picks selects
  have node : unionOf python variants obj =
      ((obj.node python).buildUnion python variants).result := by
    rw [unionOf, PyObj.assign_eq]
    rfl
  rw [node, PyObj.buildUnion_eq isNone isTuple, selectedField,
    if_neg selects]
  cases found : kind.member variants with
  | none =>
      rw [found] at picked
      exact Locking.result_bind_error picked _
  | some member =>
      obtain ⟨index, name, desc⟩ := member
      rw [found] at picked
      rw [Locking.result_bind_ok picked]
      simp only [PyObj.buildPlain_eq (member_isPlain found),
        Locking.result_bind, Locking.result_pure]
      cases (obj.assign python desc (python.defaultValueFor desc)).result with
      | error error => rfl
      | ok field => rfl

/-- An object that is taken apart no more is assigned to a union as it is with
its parts, if those do not matter for what it can be. -/
theorem Node.leafPart_union {obj : PyObj} (some : obj.isNone = false)
    (single : obj.isTuple = false)
    (plain : ∀ desc, (Node.leaf obj).buildPlain python desc =
      (obj.node python).buildPlain python desc) (structId : Str) :
    ((Node.leafPart python obj).assign (.union structId variants)
        .null).result =
      unionOf python variants obj := by
  rw [← PyObj.assign_union obj structId .null, PyObj.assign_eq]
  show ((Node.leaf obj).buildUnion python variants).result =
    ((obj.node python).buildUnion python variants).result
  rw [Node.buildUnion_eq some single, PyObj.buildUnion_eq some single]
  simp only [plain]
  rfl

/-- What iterating gives is assigned to a union as any other object. -/
theorem PyObj.item_union (variants : Variants) {container : PyObj}
    {items : List Part}
    (given : (container.node python).items = some items) (structId : Str) :
    ∀ part ∈ items,
      (part.assign (.union structId variants) .null).result =
        unionOf python variants part.obj := by
  refine PyObj.items_of ?_ ?_ ?_ given
  · intro child _
    exact PyObj.assign_union child structId .null
  · intro text
    apply Node.leafPart_union rfl rfl
    intro desc
    cases desc <;> rfl
  · intro value
    apply Node.leafPart_union rfl rfl
    intro desc
    cases value <;> cases desc <;> rfl

theorem assign_unionArray {container : PyObj} {items : List Part}
    (given : (container.node python).items = some items) (structId : Str)
    (bit : Nat) (target : PvField) (marks : BitSet) :
    assign lib python.conversions (.unionArray structId variants) bit target
        container marks =
      .of target bit marks (((Locking.each (fun item : Part => do
        let field ← item.assign (.union structId variants) .null
        pure field.unionItem) items).result).map .unionArray) := by
  have built : (container.assign python (.unionArray structId variants)
      .null).result =
      ((Locking.each (fun item : Part => do
        let field ← item.assign (.union structId variants) .null
        pure field.unionItem) items).result).map .unionArray := by
    rw [PyObj.assign_eq, Node.assign,
      Locking.result_bind_ok (Node.result_iterate given)]
    simp only [Locking.result_bind]
    rfl
  rw [← built, assign.eq_def]
  show (match (container.assign python (.unionArray structId variants)
      .null).result with
    | .error error => Outcome.mk target marks (some error)
    | .ok field => ⟨field, insert bit marks, none⟩) = _
  cases (container.assign python (.unionArray structId variants)
      .null).result with
  | error error => rfl
  | ok field => rfl

/-- A value that selects the member of its kind does so in an array too. -/
theorem selects_of {obj : PyObj} {kind : BareKind}
    (bare : obj.bareKind = some kind)
    (picks : kind ≠ .unselected →
      (pickUnionVariant python variants obj).result =
        (kind.member variants).elim
          (.error (noMemberAccepts python obj)) .ok) :
    Selects lib python variants obj kind := by
  have built := unionOf_picked bare picks
  refine ⟨picks, ?field, ?refused, ?element⟩
  case field =>
    intro structId bit target marks
    rw [assign_union, built]
  case refused =>
    intro container before part after given same earlier error refused
      structId bit target marks
    have union := PyObj.item_union variants given structId
    rw [assign_unionArray given]
    have failed : (Locking.each (fun item : Part => do
        let field ← item.assign (.union structId variants) .null
        pure field.unionItem) (before ++ part :: after)).result =
          .error error := by
      apply Locking.result_each_error
      · intro other member
        obtain ⟨field, ended⟩ := earlier other member
        have is := union other (List.mem_append_left _ member)
        refine ⟨field.unionItem, ?_⟩
        rw [Locking.result_bind_ok (is.trans ended)]
        rfl
      · apply Locking.result_bind_error
        rw [union part (by simp), same, built, refused]
    rw [failed]
    rfl
  case element =>
    intro container before part after given same structId bit target marks
      succeeded
    have union := PyObj.item_union variants given structId
    rw [assign_unionArray given] at succeeded ⊢
    generalize looped : (Locking.each (fun item : Part => do
      let field ← item.assign (.union structId variants) .null
      pure field.unionItem) (before ++ part :: after)).result = result
      at succeeded ⊢
    cases result with
    | error error => cases succeeded
    | ok values =>
        have related := (Locking.result_each_ok_iff _ _ _).mp looped
        have later := List.forall₂_drop before.length related
        rw [List.drop_left] at later
        obtain ⟨value, rest, ended, -, dropped⟩ :=
          List.forall₂_cons_left_iff.mp later
        obtain ⟨field, assigned, is⟩ :=
          (Locking.result_bind_ok_iff _ _ _).mp ended
        cases is
        refine ⟨field, values, ?_, rfl, ?_⟩
        · rw [← built, ← same, ← union part (by simp), assigned]
        · rw [← Nat.add_zero before.length, ← List.getElem?_drop, dropped]
          rfl

/-- A union of a number and a structure. -/
def pointOrSize : Variants :=
  [("size".toList, .scalar .int),
    ("point".toList, .struct [] [("x".toList, .scalar .int)])]

/-- A dict for the structure. -/
def pointDict : PyObj :=
  .dict [(.str "x".toList, .int 1)]

/-- Neither does a small integer of numpy select the number. -/
example : unionOf .simple pointOrSize (.numpy (.short 1)) =
    .error (noMemberAccepts .simple (.numpy (.short 1))) :=
  rfl

end Build

end Repics.Pva
