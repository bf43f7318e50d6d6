import Repics.Pva.Desc

/-!
# Type specs

`Type(spec, id=None)` reads a type from Python objects, and `aspy` prints one.
The same objects mean different things in different places: a tuple is a
compound spec, a member list or a member, and a `str` is a type code or a
name.  `Faulty` says, place by place, what is outside the grammar.
-/

namespace Repics.Pva

/-- What the parser of specs tells apart.  An iterable is a list, a dict, a
generator or another object that is neither `str`, tuple nor `Type`, with the
items it yields; `surrogates` is a `str` that has no UTF-8 form. -/
inductive Spec where
  | none
  | str (text : Str)
  | surrogates
  | type (desc : FieldDesc)
  | tuple (items : List Spec)
  | iterable (typeName : Str) (items : List Spec)
  | other (typeName : Str)

/-- The errors, by what their texts say. -/
inductive SpecErr where
  | unknownTypeCode (code : Str)
  | notASpec (typeName : Str)
  | compoundLength
  | compoundCode (code : Str)
  | notAMember
  | memberTypeNotStructure
  | notAStr (typeName : Str)
  | notIterable (typeName : Str)
  | notUnicode
  deriving DecidableEq

/-- The classes that the errors are instances of. -/
inductive ErrorClass where
  | typeError
  | valueError
  | unicodeEncodeError
  deriving DecidableEq

namespace SpecErr

def errorClass : SpecErr → ErrorClass
  | unknownTypeCode _ => .valueError
  | notASpec _ => .typeError
  | compoundLength => .valueError
  | compoundCode _ => .valueError
  | notAMember => .typeError
  | memberTypeNotStructure => .typeError
  | notAStr _ => .typeError
  | notIterable _ => .typeError
  | notUnicode => .unicodeEncodeError

def IsTypeError (error : SpecErr) : Prop :=
  error.errorClass = .typeError

/-- `UnicodeEncodeError` is a subclass of `ValueError`. -/
def IsValueError (error : SpecErr) : Prop :=
  error.errorClass = .valueError ∨ error.errorClass = .unicodeEncodeError

theorem typeError_or_valueError (error : SpecErr) :
    error.IsTypeError ∨ error.IsValueError := by
  cases error <;> simp [IsTypeError, IsValueError, errorClass]

end SpecErr

def scalarCode : ScalarType → Char
  | .boolean => '?'
  | .byte => 'b'
  | .ubyte => 'B'
  | .short => 'h'
  | .ushort => 'H'
  | .int => 'i'
  | .uint => 'I'
  | .long => 'l'
  | .ulong => 'L'
  | .float => 'f'
  | .double => 'd'
  | .string => 's'

def scalarFromCode (code : Char) : Option ScalarType :=
  match code with
  | '?' => some .boolean
  | 'b' => some .byte
  | 'B' => some .ubyte
  | 'h' => some .short
  | 'H' => some .ushort
  | 'i' => some .int
  | 'I' => some .uint
  | 'l' => some .long
  | 'L' => some .ulong
  | 'f' => some .float
  | 'd' => some .double
  | 's' => some .string
  | _ => Option.none

@[simp] theorem scalarFromCode_scalarCode (scalarType : ScalarType) :
    scalarFromCode (scalarCode scalarType) = some scalarType := by
  cases scalarType <;> rfl

/-- `(code, id, members)`, with no id for an empty one. -/
def membersToPy (code structId : Str) (members : List Spec) : Spec :=
  .tuple [.str code, if structId = [] then .none else .str structId,
    .iterable "list".toList members]

mutual

/-- A `str` for scalars, arrays and variants, a tuple `(code, id, members)`
for structures and unions. -/
def descToPy : FieldDesc → Spec
  | .scalar scalarType => .str [scalarCode scalarType]
  | .scalarArray scalarType => .str ['a', scalarCode scalarType]
  | .variant => .str "v".toList
  | .variantArray => .str "av".toList
  | .struct structId fields =>
      membersToPy "S".toList structId (memberItems fields)
  | .structArray structId fields =>
      membersToPy "aS".toList structId (memberItems fields)
  | .union structId variants =>
      membersToPy "U".toList structId (memberItems variants)
  | .unionArray structId variants =>
      membersToPy "aU".toList structId (memberItems variants)

def memberItems : List (Str × FieldDesc) → List Spec
  | [] => []
  | (name, desc) :: rest =>
      .tuple [.str name, descToPy desc] :: memberItems rest

end

namespace Spec

def typeName : Spec → Str
  | .none => "NoneType".toList
  | .str _ | .surrogates => "str".toList
  | .type _ => "Type".toList
  | .tuple _ => "tuple".toList
  | .iterable typeName _ | .other typeName => typeName

/-- `extract::<String>()` -/
def extractText : Spec → Except SpecErr Str
  | .str text => .ok text
  | .surrogates => .error .notUnicode
  | spec => .error (.notAStr spec.typeName)

/-- `None` is the empty id. -/
def extractId : Spec → Except SpecErr Str
  | .none => .ok []
  | spec => spec.extractText

def IsType : Spec → Prop
  | .type _ => True
  | _ => False

instance (spec : Spec) : Decidable spec.IsType := by
  unfold IsType
  split <;> infer_instance

/-- Whether a spec is `(code, id, members)` rather than a member list: a
member is a tuple, never a bare `str` in first position. -/
def IsCompound : Spec → Prop
  | .tuple [.str _, _, _] | .tuple [.surrogates, _, _] => True
  | _ => False

instance (spec : Spec) : Decidable spec.IsCompound := by
  unfold IsCompound
  split <;> infer_instance

end Spec

/-- The descriptor of a type code. -/
def codeDesc (code : Str) : Except SpecErr FieldDesc :=
  match code with
  | [char] =>
      if char = 'v' then .ok .variant
      else
        match scalarFromCode char with
        | some scalarType => .ok (.scalar scalarType)
        | Option.none => .error (.unknownTypeCode code)
  | [array, char] =>
      if array ≠ 'a' then .error (.unknownTypeCode code)
      else if char = 'v' then .ok .variantArray
      else
        match scalarFromCode char with
        | some scalarType => .ok (.scalarArray scalarType)
        | Option.none => .error (.unknownTypeCode code)
  | _ => .error (.unknownTypeCode code)

/-- The descriptor of a compound spec whose members are parsed. -/
def compoundDesc (code structId : Str) (members : List (Str × FieldDesc)) :
    Except SpecErr FieldDesc :=
  if code = "S".toList then .ok (.struct structId members)
  else if code = "aS".toList then .ok (.structArray structId members)
  else if code = "U".toList then .ok (.union structId members)
  else if code = "aU".toList then .ok (.unionArray structId members)
  else .error (.compoundCode code)

mutual

def descFromPy : Spec → Except SpecErr FieldDesc
  | .type desc => .ok desc
  | .str code => codeDesc code
  | .surrogates => .error .notUnicode
  | .tuple [code, structId, members] => do
      let code ← code.extractText
      let structId ← structId.extractId
      let members ← membersFromPy members
      compoundDesc code structId members
  | .tuple _ => .error .compoundLength
  | spec => .error (.notASpec spec.typeName)

/-- A `str` yields its characters, none of which is a tuple. -/
def membersFromPy : Spec → Except SpecErr (List (Str × FieldDesc))
  | .type (.struct _ fields) => .ok fields
  | .type _ => .error .memberTypeNotStructure
  | .tuple items | .iterable _ items => membersOf items
  | .str [] => .ok []
  | .str (_ :: _) | .surrogates => .error .notAMember
  | spec => .error (.notIterable spec.typeName)

def membersOf : List Spec → Except SpecErr (List (Str × FieldDesc))
  | [] => .ok []
  | .tuple [name, spec] :: rest => do
      let name ← name.extractText
      let desc ← descFromPy spec
      (membersOf rest).map ((name, desc) :: ·)
  | _ :: _ => .error .notAMember

end

/-- An explicit id replaces that of a structure. -/
def withId (structId : Option Str) : FieldDesc → FieldDesc
  | .struct oldId fields => .struct (structId.getD oldId) fields
  | desc => desc

/-- `Type(spec, id=None)` -/
def typeNew (spec : Spec) (structId : Option Str) :
    Except SpecErr FieldDesc :=
  let parsed :=
    if spec.IsType ∨ spec.IsCompound then descFromPy spec
    else (membersFromPy spec).map (.struct (structId.getD []))
  parsed.map (withId structId)

theorem descFromPy_membersToPy {items : List Spec}
    {members : List (Str × FieldDesc)} (code structId : Str)
    (read : membersOf items = .ok members) :
    descFromPy (membersToPy code structId items) =
      compoundDesc code structId members := by
  have sameId : (if structId = [] then Spec.none else .str structId).extractId =
      .ok structId := by
    by_cases empty : structId = []
    · simp [empty, Spec.extractId]
    · simp [empty, Spec.extractId, Spec.extractText]
  simp only [membersToPy, descFromPy, membersFromPy, Spec.extractText, sameId,
    read]
  rfl

mutual

theorem descFromPy_descToPy (desc : FieldDesc) :
    descFromPy (descToPy desc) = .ok desc := by
  cases desc with
  | scalar scalarType => cases scalarType <;> rfl
  | scalarArray scalarType => cases scalarType <;> rfl
  | variant => rfl
  | variantArray => rfl
  | struct _ fields =>
      exact descFromPy_membersToPy _ _ (membersOf_memberItems fields)
  | structArray _ fields =>
      exact descFromPy_membersToPy _ _ (membersOf_memberItems fields)
  | union _ variants =>
      exact descFromPy_membersToPy _ _ (membersOf_memberItems variants)
  | unionArray _ variants =>
      exact descFromPy_membersToPy _ _ (membersOf_memberItems variants)

theorem membersOf_memberItems (members : List (Str × FieldDesc)) :
    membersOf (memberItems members) = .ok members := by
  cases members with
  | nil => rfl
  | cons member rest =>
      obtain ⟨name, desc⟩ := member
      simp only [memberItems, membersOf, Spec.extractText,
        descFromPy_descToPy desc, membersOf_memberItems rest]
      rfl

end

/-- The codes of scalars, arrays and variants. -/
def typeCodes : List Str :=
  ["?", "b", "B", "h", "H", "i", "I", "l", "L", "f", "d", "s", "v",
    "a?", "ab", "aB", "ah", "aH", "ai", "aI", "al", "aL", "af", "ad", "as",
    "av"].map String.toList

/-- The codes of structures, unions and their arrays. -/
def compoundCodes : List Str :=
  ["S", "aS", "U", "aU"].map String.toList

/-- Where an object stands in a spec. -/
inductive Position where
  | root
  | field
  | members
  | member

/-- The items an object yields, if it is iterable.  A `Type` is not read item
by item. -/
def Spec.items? : Spec → Option (List Spec)
  | .tuple items | .iterable _ items => some items
  | .str text => some (text.map fun char => .str [char])
  | .surrogates => some [.surrogates]
  | .type _ | .none | .other _ => Option.none

def Spec.IsText (spec : Spec) : Prop :=
  ∃ text, spec = .str text

/-- An object has, at some depth, an element outside the grammar. -/
inductive Faulty : Position → Spec → Prop
  /-- A code that is unknown or too long. -/
  | code {code : Str} (unknown : code ∉ typeCodes) : Faulty .field (.str code)
  | surrogates : Faulty .field .surrogates
  /-- A list as field spec. -/
  | iterable {typeName : Str} {items : List Spec} :
      Faulty .field (.iterable typeName items)
  | none : Faulty .field .none
  | other {typeName : Str} : Faulty .field (.other typeName)
  /-- A compound spec of the wrong length. -/
  | length {items : List Spec} (wrong : items.length ≠ 3) :
      Faulty .field (.tuple items)
  /-- A compound spec with an unknown code. -/
  | compoundCode {code : Str} {structId members : Spec}
      (unknown : code ∉ compoundCodes) :
      Faulty .field (.tuple [.str code, structId, members])
  | compoundCodeText {code structId members : Spec} (noText : ¬code.IsText) :
      Faulty .field (.tuple [code, structId, members])
  | structId {code structId members : Spec} (some : structId ≠ .none)
      (noText : ¬structId.IsText) :
      Faulty .field (.tuple [code, structId, members])
  | compoundMembers {code structId members : Spec}
      (faulty : Faulty .members members) :
      Faulty .field (.tuple [code, structId, members])
  | notStructure {desc : FieldDesc} (other : ¬desc.IsStructure) :
      Faulty .members (.type desc)
  | notIterable {spec : Spec} (noType : ¬spec.IsType)
      (noItems : spec.items? = Option.none) : Faulty .members spec
  | item {spec item : Spec} {items : List Spec}
      (yields : spec.items? = some items) (member : item ∈ items)
      (faulty : Faulty .member item) : Faulty .members spec
  /-- A member that is not a pair. -/
  | notPair {item : Spec} (noPair : ∀ name spec, item ≠ .tuple [name, spec]) :
      Faulty .member item
  | name {name spec : Spec} (noText : ¬name.IsText) :
      Faulty .member (.tuple [name, spec])
  | spec {name spec : Spec} (faulty : Faulty .field spec) :
      Faulty .member (.tuple [name, spec])
  | compound {spec : Spec} (compound : spec.IsCompound)
      (faulty : Faulty .field spec) : Faulty .root spec
  | list {spec : Spec} (noType : ¬spec.IsType) (list : ¬spec.IsCompound)
      (faulty : Faulty .members spec) : Faulty .root spec

def Rejected {α : Type} (result : Except SpecErr α) : Prop :=
  ∃ error, result = .error error

@[simp] theorem rejected_ok {α : Type} (result : α) :
    ¬Rejected (.ok result : Except SpecErr α) := by
  simp [Rejected]

@[simp] theorem rejected_pure {α : Type} (result : α) :
    ¬Rejected (pure result : Except SpecErr α) :=
  rejected_ok result

@[simp] theorem rejected_error {α : Type} (error : SpecErr) :
    Rejected (.error error : Except SpecErr α) :=
  ⟨error, rfl⟩

theorem rejected_bind_iff {α β : Type} {first : Except SpecErr α}
    {next : α → Except SpecErr β} {later : Prop}
    (rest : ∀ result, first = .ok result → (Rejected (next result) ↔ later)) :
    Rejected (first >>= next) ↔ Rejected first ∨ later := by
  cases first with
  | ok result =>
      have same := rest result rfl
      simpa [Bind.bind, Except.bind] using same
  | error error =>
      exact iff_of_true (rejected_error _) (.inl (rejected_error _))

@[simp] theorem rejected_map_iff {α β : Type} {first : Except SpecErr α}
    {next : α → β} : Rejected (first.map next) ↔ Rejected first := by
  cases first <;> simp [Except.map]

theorem extractText_rejected_iff (spec : Spec) :
    Rejected spec.extractText ↔ ¬spec.IsText := by
  cases spec <;> simp [Spec.extractText, Spec.IsText]

theorem eq_str_of_extractText {spec : Spec} {text : Str}
    (read : spec.extractText = .ok text) : spec = .str text := by
  cases spec <;> simp_all [Spec.extractText]

theorem extractId_rejected_iff (spec : Spec) :
    Rejected spec.extractId ↔ spec ≠ .none ∧ ¬spec.IsText := by
  cases spec <;> simp [Spec.extractId, Spec.extractText, Spec.IsText]

theorem scalarFromCode_eq_some_iff {code : Char} {scalarType : ScalarType} :
    scalarFromCode code = some scalarType ↔ code = scalarCode scalarType := by
  constructor
  · intro found
    unfold scalarFromCode at found
    split at found <;> cases found <;> rfl
  · intro same
    rw [same, scalarFromCode_scalarCode]

theorem codeDesc_rejected_iff (code : Str) :
    Rejected (codeDesc code) ↔ code ∉ typeCodes := by
  constructor
  · intro rejected known
    have accepted : ∀ code ∈ typeCodes, ∃ desc, codeDesc code = .ok desc := by
      intro code known
      simp only [typeCodes, List.map_cons, List.map_nil, List.mem_cons,
        List.not_mem_nil, or_false] at known
      rcases known with rfl | rfl | rfl | rfl | rfl | rfl | rfl | rfl | rfl |
        rfl | rfl | rfl | rfl | rfl | rfl | rfl | rfl | rfl | rfl | rfl |
        rfl | rfl | rfl | rfl | rfl | rfl
      all_goals exact ⟨_, rfl⟩
    obtain ⟨desc, read⟩ := accepted code known
    rw [read] at rejected
    exact rejected_ok desc rejected
  · intro unknown
    unfold codeDesc
    split
    · split_ifs with variant
      · subst variant
        exact absurd (by decide) unknown
      · split
        · rename_i scalarType found
          rw [scalarFromCode_eq_some_iff] at found
          subst found
          cases scalarType <;> exact absurd (by decide) unknown
        · exact rejected_error _
    · split_ifs with noArray variant
      · exact rejected_error _
      · obtain rfl := not_not.mp noArray
        subst variant
        exact absurd (by decide) unknown
      · obtain rfl := not_not.mp noArray
        split
        · rename_i scalarType found
          rw [scalarFromCode_eq_some_iff] at found
          subst found
          cases scalarType <;> exact absurd (by decide) unknown
        · exact rejected_error _
    · exact rejected_error _

theorem compoundDesc_rejected_iff (code structId : Str)
    (members : List (Str × FieldDesc)) :
    Rejected (compoundDesc code structId members) ↔ code ∉ compoundCodes := by
  unfold compoundDesc compoundCodes
  split_ifs with struct structArray union unionArray
  · simp [struct]
  · simp [structArray]
  · simp [union]
  · simp [unionArray]
  · simp_all

theorem compound_faulty_iff {code structId members : Spec} :
    Faulty .field (.tuple [code, structId, members]) ↔
      ¬code.IsText ∨ (structId ≠ .none ∧ ¬structId.IsText) ∨
        Faulty .members members ∨
          ∃ text, code = .str text ∧ text ∉ compoundCodes := by
  constructor
  · intro faulty
    cases faulty with
    | length wrong => exact absurd rfl wrong
    | compoundCode unknown => exact .inr (.inr (.inr ⟨_, rfl, unknown⟩))
    | compoundCodeText noText => exact .inl noText
    | structId some noText => exact .inr (.inl ⟨some, noText⟩)
    | compoundMembers faulty => exact .inr (.inr (.inl faulty))
  · rintro (noText | ⟨some, noText⟩ | faulty | ⟨text, rfl, unknown⟩)
    · exact .compoundCodeText noText
    · exact .structId some noText
    · exact .compoundMembers faulty
    · exact .compoundCode unknown

theorem pair_faulty_iff {name spec : Spec} :
    Faulty .member (.tuple [name, spec]) ↔
      ¬name.IsText ∨ Faulty .field spec := by
  constructor
  · intro faulty
    cases faulty with
    | notPair noPair => exact absurd rfl (noPair name spec)
    | name noText => exact .inl noText
    | spec faulty => exact .inr faulty
  · rintro (noText | faulty)
    · exact .name noText
    · exact .spec faulty

theorem members_faulty_iff {spec : Spec} {items : List Spec}
    (yields : spec.items? = some items) :
    Faulty .members spec ↔ ∃ item ∈ items, Faulty .member item := by
  constructor
  · intro faulty
    cases faulty with
    | notStructure => cases yields
    | notIterable noType noItems =>
        rw [yields] at noItems
        cases noItems
    | item yields' member faulty =>
        rw [yields] at yields'
        cases yields'
        exact ⟨_, member, faulty⟩
  · rintro ⟨item, member, faulty⟩
    exact .item yields member faulty

theorem str_not_pair (text : Str) : Faulty .member (.str text) :=
  .notPair (by simp)

mutual

theorem descFromPy_rejected_iff (spec : Spec) :
    Rejected (descFromPy spec) ↔ Faulty .field spec := by
  match spec with
  | .none => exact iff_of_true (rejected_error _) .none
  | .surrogates => exact iff_of_true (rejected_error _) .surrogates
  | .iterable _ _ => exact iff_of_true (rejected_error _) .iterable
  | .other _ => exact iff_of_true (rejected_error _) .other
  | .type _ => exact iff_of_false (rejected_ok _) nofun
  | .str code =>
      rw [descFromPy, codeDesc_rejected_iff]
      constructor
      · exact .code
      · intro faulty
        cases faulty with
        | code unknown => exact unknown
  | .tuple [code, structId, members] =>
      rw [compound_faulty_iff, ← extractText_rejected_iff,
        ← extractId_rejected_iff, ← membersFromPy_rejected_iff members,
        descFromPy]
      apply rejected_bind_iff
      intro text read
      obtain rfl := eq_str_of_extractText read
      apply rejected_bind_iff
      intro _ _
      apply rejected_bind_iff
      intro _ _
      simp [compoundDesc_rejected_iff]
  | .tuple [] => exact iff_of_true (rejected_error _) (.length (by simp))
  | .tuple [_] => exact iff_of_true (rejected_error _) (.length (by simp))
  | .tuple [_, _] => exact iff_of_true (rejected_error _) (.length (by simp))
  | .tuple (_ :: _ :: _ :: _ :: _) =>
      exact iff_of_true (rejected_error _) (.length (by simp))

theorem membersFromPy_rejected_iff (spec : Spec) :
    Rejected (membersFromPy spec) ↔ Faulty .members spec := by
  match spec with
  | .tuple items =>
      rw [members_faulty_iff rfl]
      exact membersOf_rejected_iff items
  | .iterable _ items =>
      rw [members_faulty_iff rfl]
      exact membersOf_rejected_iff items
  | .str [] =>
      rw [members_faulty_iff rfl]
      exact iff_of_false (rejected_ok _) nofun
  | .str (char :: _) =>
      rw [members_faulty_iff rfl]
      exact iff_of_true (rejected_error _)
        ⟨.str [char], List.mem_cons_self, str_not_pair _⟩
  | .surrogates =>
      rw [members_faulty_iff rfl]
      exact iff_of_true (rejected_error _)
        ⟨.surrogates, List.mem_cons_self, .notPair nofun⟩
  | .none => exact iff_of_true (rejected_error _) (.notIterable id rfl)
  | .other _ => exact iff_of_true (rejected_error _) (.notIterable id rfl)
  | .type desc =>
      cases desc with
      | struct structId fields =>
          refine iff_of_false (rejected_ok _) ?_
          intro faulty
          cases faulty with
          | notStructure other => exact other trivial
          | notIterable noType => exact noType trivial
          | item yields => cases yields
      | _ => exact iff_of_true (rejected_error _) (.notStructure nofun)

theorem membersOf_rejected_iff (items : List Spec) :
    Rejected (membersOf items) ↔ ∃ item ∈ items, Faulty .member item := by
  match items with
  | [] => simp [membersOf]
  | item :: rest =>
      rw [List.exists_mem_cons_iff, ← membersOf_rejected_iff rest]
      by_cases pair : ∃ name spec, item = .tuple [name, spec]
      · obtain ⟨name, spec, rfl⟩ := pair
        rw [pair_faulty_iff, ← extractText_rejected_iff,
          ← descFromPy_rejected_iff spec, membersOf, or_assoc]
        apply rejected_bind_iff
        intro _ _
        apply rejected_bind_iff
        intro _ _
        exact rejected_map_iff
      · have noPair : ∀ name spec, item ≠ .tuple [name, spec] :=
          fun name spec same => pair ⟨name, spec, same⟩
        rw [membersOf]
        · exact iff_of_true (rejected_error _) (.inl (.notPair noPair))
        · exact noPair

end

theorem typeNew_rejected_iff (spec : Spec) (structId : Option Str) :
    Rejected (typeNew spec structId) ↔ Faulty .root spec := by
  rw [typeNew, rejected_map_iff]
  split_ifs with direct
  · rw [descFromPy_rejected_iff]
    constructor
    · intro faulty
      rcases direct with isType | compound
      · cases spec with
        | type => cases faulty
        | _ => cases isType
      · exact .compound compound faulty
    · intro faulty
      cases faulty with
      | compound _ faulty => exact faulty
      | list noType list => exact absurd direct (not_or.mpr ⟨noType, list⟩)
  · obtain ⟨noType, list⟩ := not_or.mp direct
    rw [rejected_map_iff, membersFromPy_rejected_iff]
    constructor
    · exact .list noType list
    · intro faulty
      cases faulty with
      | compound compound => exact absurd compound list
      | list _ _ faulty => exact faulty

/-- The item of a member list denotes the member. -/
def Denotes (item : Spec) (member : Str × FieldDesc) : Prop :=
  ∃ spec, item = .tuple [.str member.1, spec] ∧
    descFromPy spec = .ok member.2

theorem membersOf_of_denotes {items : List Spec}
    {members : List (Str × FieldDesc)}
    (denote : List.Forall₂ Denotes items members) :
    membersOf items = .ok members := by
  induction denote with
  | nil => rfl
  | cons first _ induction =>
      obtain ⟨spec, rfl, read⟩ := first
      simp only [membersOf, Spec.extractText, read, induction]
      rfl

/-- A list of members is no compound spec, whatever its length. -/
theorem not_isCompound_of_denotes {spec : Spec} {items : List Spec}
    {members : List (Str × FieldDesc)} (yields : spec.items? = some items)
    (denote : List.Forall₂ Denotes items members) : ¬spec.IsCompound := by
  intro compound
  unfold Spec.IsCompound at compound
  split at compound
  · cases yields
    cases denote with
    | cons first _ =>
        obtain ⟨_, same, _⟩ := first
        cases same
  · cases yields
    cases denote with
    | cons first _ =>
        obtain ⟨_, same, _⟩ := first
        cases same
  · exact compound

theorem membersFromPy_of_denotes {spec : Spec} {items : List Spec}
    {members : List (Str × FieldDesc)} (yields : spec.items? = some items)
    (denote : List.Forall₂ Denotes items members) :
    membersFromPy spec = .ok members := by
  have read := membersOf_of_denotes denote
  cases spec with
  | tuple =>
      cases yields
      exact read
  | iterable =>
      cases yields
      exact read
  | str text =>
      cases yields
      cases text with
      | nil =>
          cases denote
          rfl
      | cons char rest => cases read
  | surrogates =>
      cases yields
      cases read
  | none => cases yields
  | type => cases yields
  | other => cases yields

/-- A structure, a structure array, a union or a union array. -/
def FieldDesc.IsCompound : FieldDesc → Prop
  | .struct _ _ | .structArray _ _ | .union _ _ | .unionArray _ _ => True
  | .scalar _ | .scalarArray _ | .variant | .variantArray => False

theorem typeNew_descToPy {desc : FieldDesc} (compound : desc.IsCompound) :
    typeNew (descToPy desc) .none = .ok desc := by
  have read := descFromPy_descToPy desc
  cases desc with
  | scalar => cases compound
  | scalarArray => cases compound
  | variant => cases compound
  | variantArray => cases compound
  | _ =>
      rw [typeNew, if_pos (.inr trivial), read]
      rfl

theorem typeNew_of_denotes {spec : Spec} {items : List Spec}
    {members : List (Str × FieldDesc)} (structId : Option Str)
    (yields : spec.items? = some items)
    (denote : List.Forall₂ Denotes items members) :
    typeNew spec structId = .ok (.struct (structId.getD []) members) := by
  have noType : ¬spec.IsType := by
    cases spec with
    | type => cases yields
    | _ => exact id
  have list := not_isCompound_of_denotes yields denote
  rw [typeNew, if_neg (not_or.mpr ⟨noType, list⟩),
    membersFromPy_of_denotes yields denote]
  cases structId <;> rfl

/-- A member list of length three is no compound spec. -/
example : typeNew (.tuple [.tuple [.str ['a'], .str ['i']],
      .tuple [.str ['b'], .str ['i']], .tuple [.str ['c'], .str ['i']]]) .none =
    .ok (.struct [] [(['a'], .scalar .int), (['b'], .scalar .int),
      (['c'], .scalar .int)]) := by
  rfl

/-- Type specs round-trip and parse exactly: what a type is printed as denotes
the type, as a spec and as that of a member; an iterable of `(name, spec)`
tuples is a member list; and a spec is rejected, with a `TypeError` or a
`ValueError`, exactly when it has an element outside the grammar. -/
theorem typeSpecs :
    (∀ desc : FieldDesc, desc.IsCompound →
      typeNew (descToPy desc) .none = .ok desc ∧ ∀ name : Str,
        Denotes (.tuple [.str name, descToPy desc]) (name, desc)) ∧
    (∀ (spec : Spec) (items : List Spec) (members : List (Str × FieldDesc))
      (structId : Option Str), spec.items? = some items →
      List.Forall₂ Denotes items members →
        typeNew spec structId = .ok (.struct (structId.getD []) members)) ∧
    ∀ (spec : Spec) (structId : Option Str),
      Faulty .root spec ↔ ∃ error, typeNew spec structId = .error error ∧
        (error.IsTypeError ∨ error.IsValueError) := by
  refine ⟨?_, ?_, ?_⟩
  · intro desc compound
    refine ⟨typeNew_descToPy compound, ?_⟩
    intro name
    exact ⟨_, rfl, descFromPy_descToPy desc⟩
  · intro spec items members structId yields denote
    exact typeNew_of_denotes structId yields denote
  · intro spec structId
    rw [← typeNew_rejected_iff spec structId]
    constructor
    · rintro ⟨error, rejected⟩
      exact ⟨error, rejected, error.typeError_or_valueError⟩
    · rintro ⟨error, rejected, -⟩
      exact ⟨error, rejected⟩

end Repics.Pva
