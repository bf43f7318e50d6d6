import Repics.Lib.Binary64
import Repics.Pva.Value.Create

/-!
# What a variant gives back

A variant takes the type that its object implies: an `int` becomes a `long`, a
list is stored as strings if it has items and all of them are, and as an array
of doubles otherwise.  `Restored` says which of the objects that can be read
are equal to what is read afterwards.
-/

namespace Repics.Pva

namespace PyObj

/-- The number that a finite number stands for. -/
def fraction? : PyObj → Option Rat
  | .bool bit => some (if bit then 1 else 0)
  | .int number => some number
  | .float bits =>
      if Binary64.IsFinite bits then
        some (Rat.divInt (Binary64.numerator bits) (Binary64.denominator bits))
      else .none
  | _ => .none

/-- The elements of a list or an array, as Python numbers. -/
def sequence? (python : Python) : PyObj → Option (List PyObj)
  | .list items => some items
  | .array _ items => some (items.map python.scalarToPy)
  | _ => .none

/-- Equality of what is read.  Numbers are compared by value, and lists and
arrays element by element; a NaN counts as equal to itself.  A `Value` is
compared by identity, so it is not equal to what is read later. -/
inductive Equals (python : Python) : PyObj → PyObj → Prop where
  | none : Equals python .none .none
  | str (text : Str) : Equals python (.str text) (.str text)
  | float (bits : UInt64) : Equals python (.float bits) (.float bits)
  | numpy (value : ScalarValue) :
      Equals python (.numpy value) (.numpy value)
  | number {left right : PyObj} {value : Rat} :
      left.fraction? = some value → right.fraction? = some value →
      Equals python left right
  | sequence {left right : PyObj} {items others : List PyObj} :
      left.sequence? python = some items →
      right.sequence? python = some others →
      List.Forall₂ (Equals python) items others →
      Equals python left right

/-- The objects that reading a field gives. -/
inductive IsRead (python : Python) : PyObj → Prop where
  | none : IsRead python .none
  | bool (value : Bool) : IsRead python (.bool value)
  | int (number : Int) : IsRead python (.int number)
  | float (bits : UInt64) : IsRead python (.float bits)
  | str (text : Str) :
      python.asStrLossy text = text → IsRead python (.str text)
  | array (scalarType : ScalarType) (items : List ScalarValue) :
      scalarType ≠ .string →
      (∀ item ∈ items, item.scalarType = scalarType) →
      IsRead python (.array scalarType items)
  | list (items : List PyObj) :
      (∀ item ∈ items, IsRead python item) → IsRead python (.list items)
  | value (root : Option Nat) (structId : Str)
      (members : List (Str × FieldDesc)) (content : List (Str × PyObj)) :
      IsRead python (.value root structId members content)

/-- A list that is stored as strings. -/
def AllStr (items : List PyObj) : Prop :=
  items ≠ [] ∧ items.all isStr = true

/-- What is read from a variant is equal to the object that was stored. -/
def Restored (python : Python) : PyObj → Prop
  | .none | .bool _ | .float _ | .str _ | .array _ _ => True
  | .int number => -2 ^ 63 ≤ number ∧ number < 2 ^ 63
  | .list items => AllStr items ∨
      ∃ numbers, python.asarray .double (.list items) = .ok numbers ∧
        List.Forall₂ (Equals python) items (numbers.map python.scalarToPy)
  | _ => False

def isValue : PyObj → Bool
  | .value _ _ _ _ => true
  | _ => false

end PyObj

/-- A new field is the zero value of its type, and an empty text is kept. -/
structure Python.Sane (python : Python) : Prop where
  lawful : python.Lawful
  default : ∀ desc, python.defaultValueFor desc = zeroField desc
  empty : python.asStrLossy [] = []

/-- What was read once is read the same again: a text that was made valid, a
`float` that was widened, an array without a type of its own whose elements
have that type.  A text of ASCII characters is valid, and an array made of a
list has the type that was asked for. -/
structure Python.Relays (python : Python) : Prop extends python.Sane where
  text : ∀ text,
    python.asStrLossy (python.asStrLossy text) = python.asStrLossy text
  ascii : ∀ text : Str, (∀ char ∈ text, char.val < 128) →
    python.asStrLossy text = text
  float : ∀ bits,
    python.widen (python.narrow (python.widen bits)) = python.widen bits
  typed : ∀ items scalarType found,
    python.fromScalarValues items scalarType = some found →
      ∀ item ∈ found, item.scalarType = scalarType
  kept : ∀ items scalarType, (∀ item ∈ items, item.scalarType = scalarType) →
    python.fromScalarValues items scalarType = some items
  doubles : ∀ items found, python.asarray .double (.list items) = .ok found →
    ∀ item ∈ found, item.scalarType = .double

/-- The variant holds a scalar, an array of scalars or nothing, and is read as
the object. -/
inductive HoldsLeaf (python : Python) : PvField → PyObj → Prop where
  | empty : HoldsLeaf python (.variant none .null) .none
  | scalar (value : ScalarValue) :
      value.scalarType.implied = value.scalarType → python.Keeps value →
      HoldsLeaf python
        (.variant (some (.scalar value.scalarType)) (.scalar value))
        (python.scalarToPy value)
  | array (scalarType : ScalarType) (items : List ScalarValue) :
      (∀ item ∈ items, item.scalarType = scalarType) →
      (scalarType = .string →
        items ≠ [] ∧ ∀ item ∈ items, python.Keeps item) →
      HoldsLeaf python
        (.variant (some (.scalarArray scalarType))
          (.scalarArrayTyped scalarType items))
        (python.typedArrayToPy scalarType items)

variable {python : Python}

namespace PyObj

theorem equals_scalar (value : ScalarValue) :
    Equals python (python.scalarToPy value) (python.scalarToPy value) := by
  cases value with
  | float bits => exact .float _
  | double bits => exact .float _
  | string text => exact .str _
  | _ => exact .number rfl rfl

theorem equals_scalars (items : List ScalarValue) :
    List.Forall₂ (Equals python) (items.map python.scalarToPy)
      (items.map python.scalarToPy) := by
  rw [List.forall₂_same]
  intro obj member
  obtain ⟨item, -, rfl⟩ := List.mem_map.mp member
  exact equals_scalar item

theorem equals_typedArray (scalarType : ScalarType)
    (items : List ScalarValue) :
    Equals python (python.typedArrayToPy scalarType items)
      (python.typedArrayToPy scalarType items) := by
  by_cases string : scalarType = .string
  · rw [Python.typedArrayToPy, if_pos string]
    exact .sequence rfl rfl (equals_scalars items)
  · rw [Python.typedArrayToPy, if_neg string]
    exact .sequence rfl rfl (equals_scalars items)

theorem equals_int_iff {left right : Int} :
    Equals python (.int left) (.int right) ↔ left = right := by
  constructor
  · intro equals
    cases equals with
    | number leftIs rightIs =>
        exact Rat.intCast_inj.mp
          ((Option.some.inj leftIs).trans (Option.some.inj rightIs).symm)
    | sequence impossible => cases impossible
  · rintro rfl
    exact .number rfl rfl

theorem fraction?_sequence {obj : PyObj} {items : List PyObj}
    (isSequence : obj.sequence? python = some items) :
    obj.fraction? = Option.none := by
  cases obj with
  | list _ => rfl
  | array _ _ => rfl
  | _ => simp [sequence?] at isSequence

theorem equals_sequence_iff {left right : PyObj} {items others : List PyObj}
    (isSequence : left.sequence? python = some items)
    (isOther : right.sequence? python = some others) :
    Equals python left right ↔ List.Forall₂ (Equals python) items others := by
  constructor
  · intro equals
    cases equals with
    | none => cases isSequence
    | str => cases isSequence
    | float => cases isSequence
    | numpy => cases isSequence
    | number leftIs =>
        rw [fraction?_sequence isSequence] at leftIs
        cases leftIs
    | sequence leftItems rightItems each =>
        cases isSequence.symm.trans leftItems
        cases isOther.symm.trans rightItems
        exact each
  · exact .sequence isSequence isOther

theorem Equals.not_value {left right : PyObj}
    (equals : Equals python left right) : left.isValue = false := by
  cases left with
  | value root structId members content =>
      cases equals with
      | number leftIs => simp [fraction?] at leftIs
      | sequence leftItems => simp [sequence?] at leftItems
  | _ => rfl

end PyObj

section Read

theorem scalarToPy_isRead (relays : python.Relays) (value : ScalarValue) :
    (python.scalarToPy value).IsRead python := by
  cases value with
  | boolean bit => exact .bool bit
  | float bits => exact .float _
  | double bits => exact .float bits
  | string text => exact .str _ (relays.text text)
  | _ => exact .int _

theorem scalars_isRead (relays : python.Relays) (items : List ScalarValue) :
    (PyObj.list (items.map python.scalarToPy)).IsRead python := by
  refine .list _ ?_
  intro obj member
  obtain ⟨item, -, rfl⟩ := List.mem_map.mp member
  exact scalarToPy_isRead relays item

theorem typedArrayToPy_isRead (relays : python.Relays)
    {scalarType : ScalarType} {items : List ScalarValue}
    (typed : ∀ item ∈ items, item.scalarType = scalarType) :
    (python.typedArrayToPy scalarType items).IsRead python := by
  unfold Python.typedArrayToPy
  split
  · exact scalars_isRead relays items
  · rename_i number
    exact .array scalarType items number typed

theorem untypedArrayToPy_isRead (relays : python.Relays)
    (scalarType : ScalarType) (items : List ScalarValue) :
    (python.untypedArrayToPy scalarType items).IsRead python := by
  unfold Python.untypedArrayToPy
  split
  · rename_i found taken
    exact typedArrayToPy_isRead relays (relays.typed _ _ found taken)
  · exact scalars_isRead relays items

/-- What holds of `None` and of the forms of the elements of an array holds of
all objects in the list. -/
theorem formList_all {α : Type} {form : α → Except PyErr PyObj}
    {property : PyObj → Prop} (null : property .none)
    {items : List (Option α)}
    (elements : ∀ item, some item ∈ items → ∀ obj, form item = .ok obj →
      property obj) {objs : List PyObj}
    (formed : formList (elementForm form) items = .ok objs) :
    ∀ obj ∈ objs, property obj := by
  induction items generalizing objs with
  | nil =>
      cases formed
      simp
  | cons first rest induction =>
      rw [formList] at formed
      cases here : elementForm form first with
      | error error =>
          rw [here] at formed
          cases formed
      | ok obj =>
          cases later : formList (elementForm form) rest with
          | error error =>
              rw [here, later] at formed
              cases formed
          | ok others =>
              rw [here, later] at formed
              cases formed
              intro other member
              rcases List.mem_cons.mp member with rfl | inRest
              · cases first with
                | none =>
                    cases here
                    exact null
                | some item =>
                    exact elements item List.mem_cons_self other here
              · exact induction (fun item inItems => elements item
                  (List.mem_cons_of_mem _ inItems)) later other inRest

theorem list_isRead {α : Type} {form : α → Except PyErr PyObj}
    {items : List (Option α)}
    (elements : ∀ item, some item ∈ items → ∀ obj, form item = .ok obj →
      obj.IsRead python) {obj : PyObj}
    (made : (formList (elementForm form) items).map .list = .ok obj) :
    obj.IsRead python := by
  cases formed : formList (elementForm form) items with
  | error error =>
      rw [formed] at made
      cases made
  | ok objs =>
      rw [formed] at made
      cases made
      exact .list objs (formList_all .none elements formed)

theorem HasType.isRead (relays : python.Relays) {desc : FieldDesc}
    {field : PvField} (typed : HasType desc field) {obj : PyObj}
    (made : toPy python false field desc = .ok obj) : obj.IsRead python := by
  induction typed generalizing obj with
  | scalar value =>
      rw [toPy] at made
      cases made
      exact scalarToPy_isRead relays value
  | scalarArray scalarType items =>
      rw [toPy] at made
      cases made
      exact untypedArrayToPy_isRead relays scalarType items
  | scalarArrayTyped scalarType items typed =>
      rw [toPy] at made
      cases made
      exact typedArrayToPy_isRead relays typed
  | struct structId members fields =>
      rw [toPy] at made
      cases content : dictOf (converters python fields) members with
      | error error =>
          rw [content] at made
          cases made
      | ok entries =>
          rw [content] at made
          cases made
          exact .value _ _ _ _
  | structArray structId members items _ induction =>
      rw [toPy, structItemsToPy_eq] at made
      exact list_isRead (fun item member _ =>
        induction item.1 item.2 member) made
  | unselected structId variants =>
      rw [toPy] at made
      cases made
      exact .none
  | union structId variants selector name desc value selected _ induction =>
      rw [toPy, selected] at made
      exact induction made
  | unionArray structId variants items shape _ induction =>
      rw [toPy, unionItemsToPy_eq] at made
      refine list_isRead ?_ made
      rintro ⟨selector, name, value⟩ member obj formed
      rw [toPy] at formed
      rcases shape selector name value member with rfl | ⟨desc, selected⟩
      · cases formed
        exact .none
      · rw [selected] at formed
        exact induction selector name value desc member selected formed
  | empty =>
      rw [toPy] at made
      cases made
      exact .none
  | variant desc value typed induction =>
      rw [toPy_variant _ _ _ typed.ne_null] at made
      exact induction made
  | variantArray items empty typed induction =>
      rw [toPy, variantItemsToPy_eq] at made
      refine list_isRead ?_ made
      rintro ⟨stored, value⟩ member obj formed
      cases stored with
      | none =>
          cases empty value member
          rw [toPy] at formed
          cases formed
          exact .none
      | some desc =>
          rw [toPy_variant _ _ _ (typed desc value member).ne_null] at formed
          exact induction desc value member formed

end Read

namespace HoldsLeaf

variable {field : PvField} {obj : PyObj}

theorem typed (holds : HoldsLeaf python field obj) :
    HasType .variant field := by
  cases holds with
  | empty => exact .empty
  | scalar value => exact .variant _ _ (.scalar value)
  | array scalarType items typed =>
      exact .variant _ _ (.scalarArrayTyped scalarType items typed)

theorem copyable (holds : HoldsLeaf python field obj) :
    Copyable python .variant field := by
  cases holds with
  | empty => exact .empty
  | scalar value own kept =>
      refine .variant _ _ ?_ (.scalar _ _ kept)
      rw [impliedType, own]
  | array scalarType items _ strings =>
      by_cases string : scalarType = .string
      · subst string
        obtain ⟨some, kept⟩ := strings rfl
        refine .variant _ _ ?_ (.strings _ kept)
        rw [impliedType, if_neg fun both => some both.2]
      · refine .variant _ _ ?_ (.numbers _ _ string)
        rw [impliedType, if_neg fun both => string both.1]

theorem shown (holds : HoldsLeaf python field obj) (plain : Bool) :
    toPy python plain field .variant = .ok obj := by
  cases holds with
  | empty => rw [toPy]
  | scalar value => rw [toPy_variant _ _ _ PvField.noConfusion, toPy]
  | array scalarType items =>
      rw [toPy_variant _ _ _ PvField.noConfusion, toPy]

end HoldsLeaf

namespace PyObj

theorem assign_doubles (items : List PyObj) (target : PvField) :
    ((PyObj.list items).assign python (.scalarArray .double) target).result =
      (python.asarray .double (.list items)).map
        (.scalarArrayTyped .double) := by
  have number : ScalarType.double ≠ .string := nofun
  rw [assign_eq, Node.assign, Node.assignPlain, Node.pyToArray,
    if_neg number]
  simp only [Locking.result_bind, Locking.result_touch, Locking.result_lift]
  rw [node_obj]
  cases python.asarray .double (.list items) with
  | error error => rfl
  | ok numbers => rfl

/-- Strings that were read are the Python forms of strings that are kept. -/
theorem strings_of_read {items : List PyObj} (strings : items.all isStr = true)
    (read : ∀ item ∈ items, item.IsRead python) :
    ∃ texts : List ScalarValue, items = texts.map python.scalarToPy ∧
      ∀ text ∈ texts, text.scalarType = .string ∧ python.Keeps text := by
  induction items with
  | nil => exact ⟨[], rfl, nofun⟩
  | cons item items induction =>
      rw [List.all_cons, Bool.and_eq_true] at strings
      obtain ⟨texts, rfl, kept⟩ := induction strings.2 fun other member =>
        read other (List.mem_cons_of_mem item member)
      cases read item List.mem_cons_self with
      | str text valid =>
          refine ⟨.string text :: texts, ?_, ?_⟩
          · rw [List.map_cons, Python.scalarToPy, valid]
          · intro other member
            rcases List.mem_cons.mp member with rfl | later
            · exact ⟨rfl, valid⟩
            · exact kept other later
      | _ => cases strings.1

theorem variant_strings (lawful : python.Lawful) {items : List PyObj}
    (strings : AllStr items) (read : ∀ item ∈ items, item.IsRead python)
    (target : PvField) :
    ∃ field, ((PyObj.list items).assign python .variant target).result =
        .ok field ∧ HoldsLeaf python field (.list items) := by
  obtain ⟨texts, rfl, kept⟩ := strings_of_read strings.2 read
  have inferred : (inferDesc python (.list
      (texts.map python.scalarToPy))).result =
        .ok (some (.scalarArray .string)) :=
    congrArg (fun chosen => Except.ok (some (FieldDesc.scalarArray chosen)))
      (if_pos strings)
  have form : python.typedArrayToPy .string texts =
      .list (texts.map python.scalarToPy) := if_pos rfl
  have typed : ∀ text ∈ texts, text.scalarType = .string :=
    fun text member => (kept text member).1
  have keeps : ∀ text ∈ texts, python.Keeps text :=
    fun text member => (kept text member).2
  have built := (array_copied_iff lawful typed
    (python.defaultValueFor (.scalarArray .string))).mpr (.strings texts keeps)
  rw [form] at built
  have some : texts ≠ [] := by
    rintro rfl
    exact strings.1 rfl
  have holds := @HoldsLeaf.array python .string texts typed
    fun _ => ⟨some, keeps⟩
  rw [form] at holds
  refine ⟨_, ?_, holds⟩
  rw [assign_variant inferred, built]
  rfl

theorem variant_doubles {items : List PyObj} (other : ¬AllStr items)
    (target : PvField) :
    ((PyObj.list items).assign python .variant target).result =
      (python.asarray .double (.list items)).map fun numbers =>
        .variant (some (.scalarArray .double))
          (.scalarArrayTyped .double numbers) := by
  have inferred : (inferDesc python (.list items)).result =
      .ok (some (.scalarArray .double)) :=
    congrArg (fun chosen => Except.ok (some (FieldDesc.scalarArray chosen)))
      (if_neg other)
  rw [assign_variant inferred, assign_doubles]
  cases python.asarray .double (.list items) with
  | error error => rfl
  | ok numbers => rfl

theorem variant_int (number : Int) (target : PvField) :
    ((PyObj.int number).assign python .variant target).result =
      (Python.extractInt number).map fun number =>
        .variant (some (.scalar .long))
          (.scalar (.long (Int64.ofInt number))) := by
  have converted : (python.pyToScalar (.int number) .long).result =
      (Python.extractInt number).map fun number =>
        python.intToScalar number .long := by
    simp [Python.pyToScalar]
  rw [@assign_variant python (.int number) (.scalar .long) rfl,
    assign_scalar, converted]
  cases Python.extractInt number with
  | error error => rfl
  | ok small => rfl

theorem toInt_ofInt_iff (number : Int) :
    number = (Int64.ofInt number).toInt ↔
      -2 ^ 63 ≤ number ∧ number < 2 ^ 63 := by
  constructor
  · intro same
    rw [same]
    have low := (Int64.ofInt number).le_toInt
    have high := (Int64.ofInt number).toInt_lt
    omega
  · rintro ⟨low, high⟩
    exact (Int64.toInt_ofInt_of_le low high).symm

theorem variant_array (lawful : python.Lawful) {scalarType : ScalarType}
    {items : List ScalarValue} (number : scalarType ≠ .string)
    (typed : ∀ item ∈ items, item.scalarType = scalarType)
    (target : PvField) :
    ((PyObj.array scalarType items).assign python .variant target).result =
      .ok (.variant (some (.scalarArray scalarType))
        (.scalarArrayTyped scalarType items)) := by
  have form : python.typedArrayToPy scalarType items =
      .array scalarType items := if_neg number
  have built := assign_numbers lawful number typed
    (python.defaultValueFor (.scalarArray scalarType))
  rw [form] at built
  rw [@assign_variant python (.array scalarType items)
    (.scalarArray scalarType) rfl, built]
  rfl

variable {obj : PyObj}

/-- What is read from a variant, after an object that was read has been stored
in it, is equal to the object if that is restored. -/
theorem IsRead.stored (relays : python.Relays) (read : obj.IsRead python)
    (noValue : obj.isValue = false) {target field : PvField}
    (assigned : (obj.assign python .variant target).result = .ok field) :
    ∃ back, HoldsLeaf python field back ∧
      (Equals python obj back ↔ obj.Restored python) := by
  cases read with
  | none =>
      cases assigned
      exact ⟨_, .empty, iff_of_true .none trivial⟩
  | bool bit =>
      cases (assign_variant rfl target).symm.trans assigned
      exact ⟨_, .scalar (.boolean bit) rfl trivial,
        iff_of_true (equals_scalar (.boolean bit)) trivial⟩
  | int number =>
      rw [variant_int, Python.extractInt] at assigned
      split at assigned
      · cases assigned
        exact ⟨_, .scalar (.long (Int64.ofInt number)) rfl trivial,
          equals_int_iff.trans (toInt_ofInt_iff number)⟩
      · cases assigned
  | float bits =>
      cases (assign_variant rfl target).symm.trans assigned
      exact ⟨_, .scalar (.double bits) rfl trivial,
        iff_of_true (.float bits) trivial⟩
  | str text valid =>
      rw [@assign_variant python (.str text) (.scalar .string) rfl,
        assign_str relays.lawful] at assigned
      cases assigned
      refine ⟨_, .scalar (.string text) rfl valid, iff_of_true ?_ trivial⟩
      rw [Python.scalarToPy, valid]
      exact .str text
  | array scalarType items number typed =>
      cases (variant_array relays.lawful number typed target).symm.trans
        assigned
      have holds := @HoldsLeaf.array python scalarType items typed
        fun string => (number string).elim
      have form : python.typedArrayToPy scalarType items =
          .array scalarType items := if_neg number
      rw [form] at holds
      exact ⟨_, holds, iff_of_true (form ▸ equals_typedArray _ _) trivial⟩
  | list items read =>
      by_cases strings : AllStr items
      · obtain ⟨other, built, holds⟩ :=
          variant_strings relays.lawful strings read target
        cases built.symm.trans assigned
        refine ⟨_, holds, iff_of_true ?_ (.inl strings)⟩
        obtain ⟨texts, rfl, -⟩ := strings_of_read strings.2 read
        exact .sequence rfl rfl (equals_scalars texts)
      · rw [variant_doubles strings] at assigned
        cases taken : python.asarray .double (.list items) with
        | error error =>
            rw [taken] at assigned
            cases assigned
        | ok numbers =>
            rw [taken] at assigned
            cases assigned
            refine ⟨_, .array .double numbers
              (relays.doubles items numbers taken) (by simp), ?_⟩
            have form : python.typedArrayToPy .double numbers =
                .array .double numbers := if_neg (by simp)
            rw [form, equals_sequence_iff rfl rfl, Restored, taken]
            simp only [strings, false_or, Except.ok.injEq,
              exists_eq_left']
  | value => cases noValue

theorem Restored.stored (lawful : python.Lawful) (read : obj.IsRead python)
    (restored : obj.Restored python) (target : PvField) :
    ∃ field, (obj.assign python .variant target).result = .ok field := by
  cases read with
  | none => exact ⟨_, rfl⟩
  | bool bit =>
      exact ⟨_, @assign_variant python (.bool bit) (.scalar .boolean) rfl
        target⟩
  | int number =>
      have small : -2 ^ 127 ≤ number ∧ number < 2 ^ 127 := by
        have bounds := restored
        simp only [Restored] at bounds
        omega
      rw [variant_int, Python.extractInt, if_pos small]
      exact ⟨_, rfl⟩
  | float bits =>
      exact ⟨_, @assign_variant python (.float bits) (.scalar .double) rfl
        target⟩
  | str text valid =>
      rw [@assign_variant python (.str text) (.scalar .string) rfl,
        assign_str lawful]
      exact ⟨_, rfl⟩
  | array scalarType items number typed =>
      exact ⟨_, variant_array lawful number typed target⟩
  | list items read =>
      by_cases strings : AllStr items
      · obtain ⟨field, built, -⟩ :=
          variant_strings lawful strings read target
        exact ⟨field, built⟩
      · obtain ⟨numbers, taken, -⟩ := restored.resolve_left strings
        rw [variant_doubles strings, taken]
        exact ⟨_, rfl⟩
  | value => cases restored

end PyObj

theorem formList_ok_iff {α : Type} (form : α → Except PyErr PyObj)
    (items : List α) (objs : List PyObj) :
    formList form items = .ok objs ↔
      List.Forall₂ (fun item obj => form item = .ok obj) items objs := by
  induction items generalizing objs with
  | nil =>
      rw [formList, List.forall₂_nil_left_iff, Except.ok.injEq, eq_comm]
  | cons item items induction =>
      rw [formList, List.forall₂_cons_left_iff]
      cases here : form item with
      | error error =>
          simp [consPy]
      | ok obj =>
          cases later : formList form items with
          | error error =>
              simp only [← induction, later, consPy]
              simp
          | ok others =>
              simp only [← induction, later, consPy, Except.ok.injEq]
              constructor
              · rintro rfl
                exact ⟨obj, others, rfl, rfl, rfl⟩
              · rintro ⟨other, rest, rfl, rfl, rfl⟩
                rfl

/-- `None` is a null element, and any other object goes into a variant. -/
def variantElement (python : Python) (obj : PyObj) :
    Asking (Option (Option FieldDesc × PvField)) :=
  if obj.isNone then pure none else do
    let field ← obj.assign python .variant .null
    pure field.variantItem

/-- How an element is read. -/
def elementShown (python : Python)
    (item : Option (Option FieldDesc × PvField)) : Except PyErr PyObj :=
  elementForm (fun item => toPy python false (.variant item.1 item.2)
    .variant) item

theorem assign_variants_iff (objs : List PyObj) (target field : PvField) :
    ((PyObj.list objs).assign python .variantArray target).result =
        .ok field ↔
      ∃ items, List.Forall₂ (fun obj item =>
        (variantElement python obj).result = .ok item) objs items ∧
          field = .variantArray items := by
  rw [PyObj.assign_eq, Node.assign, Locking.result_bind_ok_iff]
  simp only [buildItems_list, Locking.result_pure, Except.ok.injEq,
    @eq_comm _ _ field]
  refine exists_congr fun items => and_congr_left fun _ => ?_
  rw [← Locking.result_each_ok_iff]
  rfl

theorem toPy_variants_iff (items : List (Option (Option FieldDesc × PvField)))
    (obj : PyObj) :
    toPy python false (.variantArray items) .variantArray = .ok obj ↔
      ∃ objs, List.Forall₂ (fun item obj =>
        elementShown python item = .ok obj) items objs ∧
          obj = .list objs := by
  rw [toPy, variantItemsToPy_eq]
  simp only [← formList_ok_iff]
  change (formList (elementShown python) items).map _ = _ ↔ _
  cases formList (elementShown python) items with
  | error error => simp [Except.map]
  | ok objs => simp [Except.map, eq_comm]

namespace PyObj

variable {obj : PyObj}

/-- What is read from an element, after an object that was read has been
stored in it, is equal to the object if that is restored. -/
theorem IsRead.element (relays : python.Relays) (read : obj.IsRead python)
    (noValue : obj.isValue = false)
    {item : Option (Option FieldDesc × PvField)}
    (built : (variantElement python obj).result = .ok item) :
    ∃ back, elementShown python item = .ok back ∧
      (Equals python obj back ↔ obj.Restored python) := by
  cases isNone : obj.isNone with
  | true =>
      cases obj with
      | none =>
          cases built
          exact ⟨.none, rfl, iff_of_true .none trivial⟩
      | _ => cases isNone
  | false =>
      rw [variantElement, isNone, if_neg Bool.false_ne_true] at built
      obtain ⟨field, assigned, same⟩ :=
        (Locking.result_bind_ok_iff _ _ _).mp built
      obtain ⟨back, holds, equal⟩ := read.stored relays noValue assigned
      have shown := holds.shown false
      refine ⟨back, ?_, equal⟩
      cases holds <;> cases same <;> exact shown

theorem Restored.element (lawful : python.Lawful) (read : obj.IsRead python)
    (restored : obj.Restored python) :
    ∃ item, (variantElement python obj).result = .ok item := by
  rw [variantElement]
  split
  · exact ⟨_, rfl⟩
  · obtain ⟨field, assigned⟩ := restored.stored lawful read .null
    exact ⟨_, Locking.result_bind_ok assigned _⟩

theorem Restored.not_value (restored : obj.Restored python) :
    obj.isValue = false := by
  cases obj with
  | value => cases restored
  | _ => rfl

/-- A list comes back from an array of variants exactly if its elements are
restored. -/
theorem variants_restored_iff (relays : python.Relays) {objs : List PyObj}
    (read : ∀ obj ∈ objs, obj.IsRead python) :
    (∃ items backs,
      List.Forall₂ (fun obj item =>
        (variantElement python obj).result = .ok item) objs items ∧
      List.Forall₂ (fun item back =>
        elementShown python item = .ok back) items backs ∧
      List.Forall₂ (Equals python) objs backs) ↔
      ∀ obj ∈ objs, obj.Restored python := by
  induction objs with
  | nil => exact iff_of_true ⟨[], [], .nil, .nil, .nil⟩ (by simp)
  | cons obj objs induction =>
      have here := read obj List.mem_cons_self
      have rest := induction fun other member =>
        read other (List.mem_cons_of_mem obj member)
      rw [List.forall_mem_cons, ← rest]
      constructor
      · rintro ⟨_, _, builts, showns, equals⟩
        cases builts with
        | cons built builts =>
            cases showns with
            | cons shown showns =>
                cases equals with
                | cons equal equals =>
                    obtain ⟨back, same, restored⟩ :=
                      here.element relays equal.not_value built
                    cases same.symm.trans shown
                    exact ⟨restored.mp equal, _, _, builts, showns, equals⟩
      · rintro ⟨restored, items, backs, builts, showns, equals⟩
        obtain ⟨item, built⟩ := restored.element relays.lawful here
        obtain ⟨back, shown, equal⟩ :=
          here.element relays restored.not_value built
        exact ⟨item :: items, back :: backs, .cons built builts,
          .cons shown showns, .cons (equal.mpr restored) equals⟩

end PyObj

end Repics.Pva
