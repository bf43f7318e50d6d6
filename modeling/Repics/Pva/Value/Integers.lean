import Repics.Lib.Binary64
import Repics.Pva.Value.Create

/-!
# Numbers in integer fields

A number reaches an integer field as a Python or numpy integer, as a float or
as text, on a path through structures and then through the payloads of unions
and variants and the elements of arrays.  The conversion on the way wraps
around: `Storable` says which numbers the field holds afterwards or refuses.
-/

namespace Repics.Pva

namespace ScalarType

def IsInteger : ScalarType → Prop
  | .byte | .ubyte | .short | .ushort | .int | .uint | .long | .ulong => True
  | .boolean | .float | .double | .string => False

/-- The numbers of an integer type. -/
def Holds : ScalarType → Int → Prop
  | .byte, number => -2 ^ 7 ≤ number ∧ number < 2 ^ 7
  | .ubyte, number => 0 ≤ number ∧ number < 2 ^ 8
  | .short, number => -2 ^ 15 ≤ number ∧ number < 2 ^ 15
  | .ushort, number => 0 ≤ number ∧ number < 2 ^ 16
  | .int, number => -2 ^ 31 ≤ number ∧ number < 2 ^ 31
  | .uint, number => 0 ≤ number ∧ number < 2 ^ 32
  | .long, number => -2 ^ 63 ≤ number ∧ number < 2 ^ 63
  | .ulong, number => 0 ≤ number ∧ number < 2 ^ 64
  | _, _ => False

theorem Holds.bounds {scalarType : ScalarType} {number : Int}
    (holds : scalarType.Holds number) :
    -2 ^ 63 ≤ number ∧ number < 2 ^ 64 := by
  cases scalarType <;> simp only [Holds] at holds <;> omega

end ScalarType

/-- The number in an integer scalar. -/
def ScalarValue.integer? : ScalarValue → Option Int
  | .byte value => some value.toInt
  | .ubyte value => some value.toNat
  | .short value => some value.toInt
  | .ushort value => some value.toNat
  | .int value => some value.toInt
  | .uint value => some value.toNat
  | .long value => some value.toInt
  | .ulong value => some value.toNat
  | .boolean _ | .float _ | .double _ | .string _ => none

section Wrapping

variable {python : Python}

/-- A scalar of an integer type reads back as a number of the type. -/
theorem Python.scalarToPy_integer (python : Python) {value : ScalarValue}
    (integer : value.scalarType.IsInteger) :
    ∃ number, python.scalarToPy value = .int number ∧
      value.scalarType.Holds number := by
  cases value with
  | byte value =>
      exact ⟨value.toInt, rfl, value.le_toInt, value.toInt_lt⟩
  | ubyte value =>
      have high := value.toNat_lt
      exact ⟨value.toNat, rfl, by omega, by omega⟩
  | short value =>
      exact ⟨value.toInt, rfl, value.le_toInt, value.toInt_lt⟩
  | ushort value =>
      have high := value.toNat_lt
      exact ⟨value.toNat, rfl, by omega, by omega⟩
  | int value =>
      exact ⟨value.toInt, rfl, value.le_toInt, value.toInt_lt⟩
  | uint value =>
      have high := value.toNat_lt
      exact ⟨value.toNat, rfl, by omega, by omega⟩
  | long value =>
      exact ⟨value.toInt, rfl, value.le_toInt, value.toInt_lt⟩
  | ulong value =>
      have high := value.toNat_lt
      exact ⟨value.toNat, rfl, by omega, by omega⟩
  | _ => cases integer

/-- A number below the size of an unsigned type does not wrap around. -/
theorem toNat_wrapped {number : Int} {size : Nat} (low : 0 ≤ number)
    (high : number < size) :
    ((((number % size).toNat % size : Nat)) : Int) = number := by
  rw [Int.emod_eq_of_lt low high, Nat.mod_eq_of_lt (by omega)]
  exact Int.toNat_of_nonneg low

theorem Python.intToScalar_holds {scalarType : ScalarType} {number : Int}
    (holds : scalarType.Holds number) :
    python.scalarToPy (python.intToScalar number scalarType) =
      .int number := by
  cases scalarType with
  | byte => exact congrArg _ (Int8.toInt_ofInt_of_le holds.1 holds.2)
  | short => exact congrArg _ (Int16.toInt_ofInt_of_le holds.1 holds.2)
  | int => exact congrArg _ (Int32.toInt_ofInt_of_le holds.1 holds.2)
  | long => exact congrArg _ (Int64.toInt_ofInt_of_le holds.1 holds.2)
  | ubyte => exact congrArg _ (toNat_wrapped holds.1 holds.2)
  | ushort => exact congrArg _ (toNat_wrapped holds.1 holds.2)
  | uint => exact congrArg _ (toNat_wrapped holds.1 holds.2)
  | ulong => exact congrArg _ (toNat_wrapped holds.1 holds.2)
  | _ => cases holds

/-- Exactly the numbers of the type are kept, also where others are changed
before they are wrapped around. -/
theorem Python.intToScalar_iff (python : Python) {scalarType : ScalarType}
    (integer : scalarType.IsInteger) {converted number : Int}
    (kept : scalarType.Holds number → converted = number) :
    python.scalarToPy (python.intToScalar converted scalarType) =
        .int number ↔ scalarType.Holds number := by
  constructor
  · intro same
    have sameType := python.intToScalar_type converted scalarType
    have wrapped : (python.intToScalar converted
        scalarType).scalarType.IsInteger := by
      rwa [sameType]
    obtain ⟨read, reads, holds⟩ := python.scalarToPy_integer wrapped
    rw [same, PyObj.int.injEq] at reads
    rwa [reads, ← sameType]
  · intro holds
    rw [kept holds]
    exact intToScalar_holds holds

end Wrapping

/-- What Python and the libraries make of numbers: `__index__` and `__float__`
of numpy scalars, the casts of Rust, and a parser that is exact. -/
structure Python.Counts (python : Python) : Prop where
  index : ∀ value number, value.integer? = some number →
    python.index (.numpy value) = some number
  indexFloat : ∀ bits, python.index (.numpy (.float bits)) = none
  numberFloat : ∀ bits,
    python.number (.numpy (.float bits)) = some (python.widen bits)
  truncate : ∀ bits, python.truncate bits =
    Binary64.toInt (-2 ^ 127) (2 ^ 127 - 1) bits
  parse : ∀ (scalarType : ScalarType) (number : Int) value,
    scalarType.IsInteger →
    python.parse scalarType (toString number).toList = .ok value →
      python.scalarToPy value = .int number

/-- The object is a number, or else, without one, a float that is not
finite. -/
inductive Given (python : Python) : PyObj → Option Int → Prop
  | bool (value : Bool) :
      Given python (.bool value) (some (if value then 1 else 0))
  | int (number : Int) : Given python (.int number) number
  | numpy {value : ScalarValue} {number : Int}
      (integer : value.integer? = some number) :
      Given python (.numpy value) number
  | float {bits : UInt64} {number : Int}
      (integer : Binary64.IsInteger bits number) :
      Given python (.float bits) number
  | double {bits : UInt64} {number : Int}
      (integer : Binary64.IsInteger bits number) :
      Given python (.numpy (.double bits)) number
  | single {bits : UInt32} {number : Int}
      (integer : Binary64.IsInteger (python.widen bits) number) :
      Given python (.numpy (.float bits)) number
  | str (number : Int) : Given python (.str (toString number).toList) number
  | numpyStr (number : Int) :
      Given python (.numpy (.string (toString number).toList)) number
  | floatNotFinite {bits : UInt64} (infinite : ¬Binary64.IsFinite bits) :
      Given python (.float bits) none
  | doubleNotFinite {bits : UInt64} (infinite : ¬Binary64.IsFinite bits) :
      Given python (.numpy (.double bits)) none
  | singleNotFinite {bits : UInt32}
      (infinite : ¬Binary64.IsFinite (python.widen bits)) :
      Given python (.numpy (.float bits)) none

/-- An `int` that no conversion takes. -/
def PyObj.IsHuge : PyObj → Prop
  | .int number => ¬(-2 ^ 127 ≤ number ∧ number < 2 ^ 127)
  | _ => False

/-- The numbers that an integer field holds or refuses: those of its type,
all that are given as text, and an `int` that no conversion takes. -/
def Storable (scalarType : ScalarType) (obj : PyObj) : Option Int → Prop
  | some number =>
      scalarType.Holds number ∨ obj.isStr = true ∨ obj.IsHuge
  | none => False

/-- The number, if there is one, is converted exactly or refused, and what is
not a number is refused. -/
def Exactly (python : Python) (given : Option Int) :
    Except PyErr ScalarValue → Prop
  | .error _ => True
  | .ok value =>
      ∃ number, given = some number ∧ python.scalarToPy value = .int number

section Conversion

variable {python : Python} {scalarType : ScalarType}

theorem ScalarType.IsInteger.ne_string (integer : scalarType.IsInteger) :
    scalarType ≠ .string := by
  intro same
  rw [same] at integer
  exact integer

theorem floatToScalar_integer (integer : scalarType.IsInteger)
    (bits : UInt64) :
    python.floatToScalar bits scalarType =
      python.intToScalar (python.truncate bits) scalarType := by
  cases scalarType <;> first | rfl | cases integer

theorem boolToScalar_integer (integer : scalarType.IsInteger)
    (value : Bool) :
    python.boolToScalar value scalarType =
      python.intToScalar (if value then 1 else 0) scalarType := by
  cases scalarType <;> first | rfl | cases integer

/-- A conversion that wraps around is exact for the numbers of the type. -/
theorem exactly_wrapped_iff (integer : scalarType.IsInteger) {obj : PyObj}
    {converted number : Int}
    (ended : (python.pyToScalar obj scalarType).result =
      .ok (python.intToScalar converted scalarType))
    (kept : scalarType.Holds number → converted = number)
    (noText : obj.isStr = false) (small : ¬obj.IsHuge) :
    Exactly python (some number) (python.pyToScalar obj scalarType).result ↔
      Storable scalarType obj (some number) := by
  have same := python.intToScalar_iff integer kept
  simp [ended, Exactly, Storable, same, noText, small]

theorem not_exactly_none {obj : PyObj} {value : ScalarValue}
    (ended : (python.pyToScalar obj scalarType).result = .ok value) :
    ¬Exactly python none (python.pyToScalar obj scalarType).result := by
  rw [ended]
  rintro ⟨number, impossible, -⟩
  cases impossible

theorem exactly_parsed (counts : python.Counts)
    (integer : scalarType.IsInteger) (number : Int) :
    Exactly python (some number)
      (python.parse scalarType (toString number).toList) := by
  cases parsed : python.parse scalarType (toString number).toList with
  | error error => trivial
  | ok value =>
      exact ⟨number, rfl, counts.parse scalarType number value integer parsed⟩

theorem pyToScalar_float (integer : scalarType.IsInteger) (bits : UInt64) :
    (python.pyToScalar (.float bits) scalarType).result =
      .ok (python.intToScalar (python.truncate bits) scalarType) := by
  simp [Python.pyToScalar, integer.ne_string, floatToScalar_integer integer]

theorem pyToScalar_double (integer : scalarType.IsInteger) (bits : UInt64) :
    (python.pyToScalar (.numpy (.double bits)) scalarType).result =
      .ok (python.intToScalar (python.truncate bits) scalarType) := by
  simp [Python.pyToScalar, integer.ne_string, floatToScalar_integer integer]

theorem pyToScalar_single (counts : python.Counts)
    (integer : scalarType.IsInteger) (bits : UInt32) :
    (python.pyToScalar (.numpy (.float bits)) scalarType).result =
      .ok (python.intToScalar (python.truncate (python.widen bits))
        scalarType) := by
  simp only [Python.pyToScalar, if_neg integer.ne_string]
  rw [Locking.result_bind_ok (Locking.result_touch _)]
  simp [counts.indexFloat, counts.numberFloat, floatToScalar_integer integer]

theorem pyToScalar_index (counts : python.Counts)
    (integer : scalarType.IsInteger) {value : ScalarValue} {number : Int}
    (isNumber : value.integer? = some number) :
    (python.pyToScalar (.numpy value) scalarType).result =
      .ok (python.intToScalar number scalarType) := by
  have index := counts.index value number isNumber
  cases value with
  | boolean => cases isNumber
  | float => cases isNumber
  | double => cases isNumber
  | string => cases isNumber
  | _ =>
      simp only [Python.pyToScalar, if_neg integer.ne_string]
      rw [Locking.result_bind_ok (Locking.result_touch _)]
      simp [index]

theorem exactly_int_iff (integer : scalarType.IsInteger) (number : Int) :
    Exactly python (some number)
        (python.pyToScalar (.int number) scalarType).result ↔
      Storable scalarType (.int number) (some number) := by
  by_cases small : -2 ^ 127 ≤ number ∧ number < 2 ^ 127
  · exact exactly_wrapped_iff integer
      (Python.pyToScalar_int small.1 small.2 integer.ne_string)
      (fun _ => rfl) rfl (not_not_intro small)
  · refine iff_of_true ?_ (.inr (.inr small))
    simp only [Python.pyToScalar, if_neg integer.ne_string,
      Locking.result_lift, Python.extractInt, if_neg small]
    trivial

theorem truncate_of_holds (counts : python.Counts) {bits : UInt64}
    {number : Int} (isInteger : Binary64.IsInteger bits number)
    (holds : scalarType.Holds number) : python.truncate bits = number := by
  have bounds := holds.bounds
  rw [counts.truncate]
  exact Binary64.toInt_of_between isInteger (by omega) (by omega)

theorem isStr_numpy {value : ScalarValue} {number : Int}
    (isNumber : value.integer? = some number) :
    (PyObj.numpy value).isStr = false := by
  cases value with
  | string => cases isNumber
  | _ => rfl

/-- The conversion of a number is exact, or refused, exactly if the number is
storable. -/
theorem exactly_iff (counts : python.Counts) (integer : scalarType.IsInteger)
    {obj : PyObj} {given : Option Int} (isGiven : Given python obj given) :
    Exactly python given (python.pyToScalar obj scalarType).result ↔
      Storable scalarType obj given := by
  have number := integer.ne_string
  cases isGiven with
  | bool value =>
      apply exactly_wrapped_iff integer _ (fun _ => rfl) rfl id
      rw [← boolToScalar_integer integer]
      rfl
  | int number => exact exactly_int_iff integer number
  | numpy isNumber =>
      refine exactly_wrapped_iff integer
        (pyToScalar_index counts integer isNumber) (fun _ => rfl) ?_ id
      exact isStr_numpy isNumber
  | float isInteger =>
      exact exactly_wrapped_iff integer (pyToScalar_float integer _)
        (truncate_of_holds counts isInteger) rfl id
  | double isInteger =>
      exact exactly_wrapped_iff integer (pyToScalar_double integer _)
        (truncate_of_holds counts isInteger) rfl id
  | single isInteger =>
      exact exactly_wrapped_iff integer (pyToScalar_single counts integer _)
        (truncate_of_holds counts isInteger) rfl id
  | str number =>
      exact iff_of_true (exactly_parsed counts integer number)
        (.inr (.inl rfl))
  | numpyStr number =>
      exact iff_of_true (exactly_parsed counts integer number)
        (.inr (.inl rfl))
  | floatNotFinite infinite =>
      exact iff_of_false (not_exactly_none (pyToScalar_float integer _)) id
  | doubleNotFinite infinite =>
      exact iff_of_false (not_exactly_none (pyToScalar_double integer _)) id
  | singleNotFinite infinite =>
      exact iff_of_false
        (not_exactly_none (pyToScalar_single counts integer _)) id

end Conversion

/-- One step from a field to a field below it: to a member, to the selected
member of a union, to the content of a variant, or to the first element of an
array. -/
inductive Step where
  | member (name : Str)
  | selected
  | content
  | item

namespace PvField

def firstItem? : PvField → Option PvField
  | .structArray (item :: _) => item.map fun item => .struct item.1 item.2
  | .unionArray (item :: _) =>
      item.map fun item => .union item.1 item.2.1 item.2.2
  | .variantArray (item :: _) => item.map fun item => .variant item.1 item.2
  | _ => none

def step? (field : PvField) : Step → Option PvField
  | .member name => field.member? name
  | .selected => field.unionItem.map fun item => item.2.2
  | .content => field.variantItem.map Prod.snd
  | .item => field.firstItem?

theorem step?_selected (index : Nat) (name : Str) (field : PvField) :
    (union index name field).step? .selected = some field := by
  have selected : (index : Int) ≠ -1 := by omega
  rw [step?, unionItem, if_neg selected]
  rfl

/-- A field with members is found again as the element of an array. -/
theorem step?_structItem {field sub : PvField} {name : Str}
    (found : field.step? (.member name) = some sub) :
    (structArray [field.structItem]).step? .item = some field := by
  cases field with
  | struct => rfl
  | _ => cases found

theorem step?_unionItem {field sub : PvField}
    (found : field.step? .selected = some sub) :
    (unionArray [field.unionItem]).step? .item = some field := by
  obtain ⟨item, isItem, -⟩ := Option.map_eq_some_iff.mp found
  obtain ⟨-, same⟩ := unionItem_iff.mp isItem
  rw [isItem, same]
  rfl

theorem step?_variantItem {field sub : PvField}
    (found : field.step? .content = some sub) :
    (variantArray [field.variantItem]).step? .item = some field := by
  obtain ⟨item, isItem, -⟩ := Option.map_eq_some_iff.mp found
  rw [isItem, variantItem_iff.mp isItem]
  rfl

def at? : PvField → List Step → Option PvField
  | field, [] => some field
  | field, step :: route => (field.step? step).bind fun sub => sub.at? route

end PvField

/-- An object gives a number to a scalar field: to the field itself, to a
member of a structure, to a member of a union, selected by name or by the
number, to a variant, or to an element of an array. -/
inductive Reaches (python : Python) (number : PyObj)
    (scalarType : ScalarType) : FieldDesc → PyObj → List Step → Prop
  | here : Reaches python number scalarType (.scalar scalarType) number []
  | member {structId name : Str} {fields : List (Str × FieldDesc)}
      {desc : FieldDesc} {obj : PyObj} {route : List Step}
      (found : FieldDesc.named? fields name = some desc)
      (below : Reaches python number scalarType desc obj route) :
      Reaches python number scalarType (.struct structId fields)
        (.dict [(.str name, obj)]) (.member name :: route)
  | selected {structId name : Str} {variants : List (Str × FieldDesc)}
      {index : Nat} {desc : FieldDesc} {obj : PyObj} {route : List Step}
      (found : findVariant (fun label _ => decide (label = name)) variants =
        some (index, name, desc))
      (below : Reaches python number scalarType desc obj route) :
      Reaches python number scalarType (.union structId variants)
        (.tuple [.str name, obj]) (.selected :: route)
  | bare {structId name : Str} {variants : List (Str × FieldDesc)}
      {index : Nat}
      (bare : number.isNone = false ∧ number.isTuple = false)
      (picked : (pickUnionVariant python variants number).result =
        .ok (index, name, .scalar scalarType)) :
      Reaches python number scalarType (.union structId variants) number
        [.selected]
  | variant
      (inferred : (inferDesc python number).result =
        .ok (some (.scalar scalarType))) :
      Reaches python number scalarType .variant number [.content]
  | structItem {structId : Str} {fields : List (Str × FieldDesc)}
      {obj : PyObj} {route : List Step}
      (below : Reaches python number scalarType (.struct structId fields) obj
        route) :
      Reaches python number scalarType (.structArray structId fields)
        (.list [obj]) (.item :: route)
  | unionItem {structId : Str} {variants : List (Str × FieldDesc)}
      {obj : PyObj} {route : List Step}
      (below : Reaches python number scalarType (.union structId variants) obj
        route) :
      Reaches python number scalarType (.unionArray structId variants)
        (.list [obj]) (.item :: route)
  | variantItem {obj : PyObj} {route : List Step}
      (below : Reaches python number scalarType .variant obj route) :
      Reaches python number scalarType .variantArray (.list [obj])
        (.item :: route)

theorem PvField.at?_first {field last : PvField} {step : Step}
    {route : List Step} (found : field.at? (step :: route) = some last) :
    ∃ sub, field.step? step = some sub := by
  obtain ⟨sub, subFound, -⟩ := Option.bind_eq_some_iff.mp found
  exact ⟨sub, subFound⟩

/-- What is built has the scalar at the end of the route, or the error. -/
def Carried (route : List Step) (built : Except PyErr PvField) :
    Except PyErr ScalarValue → Prop
  | .error error => built = .error error
  | .ok value =>
      ∃ field, built = .ok field ∧ field.at? route = some (.scalar value)

/-- An assignment leaves the scalar at the end of the route, or raises and
changes nothing. -/
def Outcome.Carries (outcome : Outcome PvField) (target : PvField)
    (marks : BitSet) (route : List Step) : Except PyErr ScalarValue → Prop
  | .error error => outcome = ⟨target, marks, some error⟩
  | .ok value => outcome.error = none ∧
      outcome.target.at? route = some (.scalar value)

section Ways

variable {lib : PvData} {python : Python} {route : List Step}
  {result : Except PyErr ScalarValue}

theorem Outcome.Carries.carried {outcome : Outcome PvField}
    {target : PvField} {marks : BitSet}
    (carries : outcome.Carries target marks route result) :
    Carried route outcome.result result := by
  cases result with
  | error error =>
      have same : outcome = ⟨target, marks, some error⟩ := carries
      rw [same]
      rfl
  | ok value =>
      obtain ⟨ended, found⟩ := carries
      refine ⟨outcome.target, ?_, found⟩
      rw [Outcome.result, ended]

/-- What is built on the way is wrapped by the step that leads back to it. -/
theorem Carried.wrap {action wrapped : Asking PvField}
    (carried : Carried route action.result result) {step : Step}
    {wrap : PvField → PvField}
    (ends : wrapped.result = action.result.map wrap)
    (back : ∀ field value, field.at? route = some (.scalar value) →
      (wrap field).step? step = some field) :
    Carried (step :: route) wrapped.result result := by
  cases result with
  | error error =>
      have failed : action.result = .error error := carried
      rw [ends, failed]
      rfl
  | ok value =>
      obtain ⟨field, ended, found⟩ := carried
      refine ⟨wrap field, ?_, ?_⟩
      · rw [ends, ended]
        rfl
      · rw [PvField.at?, back field value found]
        exact found

theorem Carried.carries {desc : FieldDesc} (notStructure : ¬desc.IsStructure)
    {obj : PyObj}
    (carried : Carried route (obj.assign python desc .null).result result)
    (bit : Nat) (target : PvField) (marks : BitSet) :
    (assign lib python.conversions desc bit target obj marks).Carries target
      marks route result := by
  cases result with
  | error error =>
      have failed : python.conversions.convert desc obj = .error error :=
        carried
      cases desc with
      | struct => exact absurd trivial notStructure
      | _ =>
          simp only [assign, failed]
          rfl
  | ok value =>
      obtain ⟨field, ended, found⟩ := carried
      have converted : python.conversions.convert desc obj = .ok field := ended
      rw [Root.assign_leaf notStructure converted]
      exact ⟨rfl, found⟩

theorem assign_bare {number : PyObj} {name : Str} {scalarType : ScalarType}
    {variants : List (Str × FieldDesc)} {index : Nat}
    (bare : number.isNone = false ∧ number.isTuple = false)
    (picked : (pickUnionVariant python variants number).result =
      .ok (index, name, .scalar scalarType)) (structId : Str) :
    (number.assign python (.union structId variants) .null).result =
      (number.assign python (.scalar scalarType)
        (python.defaultValueFor (.scalar scalarType))).result.map
        (.union index name) := by
  have union : number.assign python (.union structId variants) .null =
      (number.node python).buildUnion python variants := by
    rw [PyObj.assign_eq]
    rfl
  have plain := @PyObj.buildPlain_eq python (.scalar scalarType) trivial number
  rw [union, PyObj.buildUnion_eq bare.1 bare.2, Locking.result_bind_ok picked,
    ← plain]
  exact result_map _

theorem single_items (python : Python) (obj : PyObj) :
    ((PyObj.list [obj]).node python).items = some [obj.part python] :=
  rfl

theorem buildItems_single {Item : Type} {obj : PyObj}
    (some : obj.isNone = false) (build : Part → Asking (Option Item)) :
    (((PyObj.list [obj]).node python).buildItems python build).result =
      (build (obj.part python)).result.map fun item => [item] := by
  rw [buildItems_list, Locking.result_each_single, some]
  rfl

/-- An array of one structure is built from a list of one dict. -/
theorem assign_structItem {obj : PyObj} (some : obj.isNone = false)
    (structId : Str) (fields : List (Str × FieldDesc)) :
    ((PyObj.list [obj]).assign python (.structArray structId fields)
        .null).result =
      (obj.assign python (.struct structId fields)
        (python.defaultValueFor (.struct structId fields))).result.map
        fun field => .structArray [field.structItem] := by
  rw [PyObj.assign_eq python (.list [obj]), Node.assign, Locking.result_bind,
    buildItems_single some, Locking.result_bind, PyObj.part]
  cases (obj.assign python (.struct structId fields)
    (python.defaultValueFor (.struct structId fields))).result with
  | error error => rfl
  | ok field => rfl

theorem assign_unionItem (obj : PyObj) (structId : Str)
    (variants : List (Str × FieldDesc)) :
    ((PyObj.list [obj]).assign python (.unionArray structId variants)
        .null).result =
      (obj.assign python (.union structId variants) .null).result.map
        fun field => .unionArray [field.unionItem] := by
  rw [PyObj.assign_eq python (.list [obj]), Node.assign,
    Locking.result_bind_ok (Node.result_iterate (single_items python obj)),
    Locking.result_bind, Locking.result_each_single, Locking.result_bind,
    PyObj.part]
  cases (obj.assign python (.union structId variants) .null).result with
  | error error => rfl
  | ok field => rfl

theorem assign_variantItem {obj : PyObj} (some : obj.isNone = false) :
    ((PyObj.list [obj]).assign python .variantArray .null).result =
      (obj.assign python .variant .null).result.map
        fun field => .variantArray [field.variantItem] := by
  rw [PyObj.assign_eq python (.list [obj]), Node.assign, Locking.result_bind,
    buildItems_single some, Locking.result_bind, PyObj.part]
  cases (obj.assign python .variant .null).result with
  | error error => rfl
  | ok field => rfl

theorem pyToScalar_carried (number : PyObj) (scalarType : ScalarType)
    (target : PvField) :
    Carried [] (number.assign python (.scalar scalarType) target).result
      (python.pyToScalar number scalarType).result := by
  rw [PyObj.assign_scalar]
  cases (python.pyToScalar number scalarType).result with
  | error error => rfl
  | ok value => exact ⟨.scalar value, rfl, rfl⟩

theorem Reaches.struct_route {number obj : PyObj} {scalarType : ScalarType}
    {structId : Str} {fields : List (Str × FieldDesc)}
    (reaches : Reaches python number scalarType (.struct structId fields) obj
      route) :
    ∃ name rest, route = .member name :: rest ∧ obj.isNone = false := by
  cases reaches with
  | member => exact ⟨_, _, rfl, rfl⟩

theorem Reaches.union_route {number obj : PyObj} {scalarType : ScalarType}
    {structId : Str} {variants : List (Str × FieldDesc)}
    (reaches : Reaches python number scalarType (.union structId variants) obj
      route) : ∃ rest, route = .selected :: rest := by
  cases reaches with
  | selected => exact ⟨_, rfl⟩
  | bare => exact ⟨_, rfl⟩

theorem Reaches.variant_route {number obj : PyObj} {scalarType : ScalarType}
    (reaches : Reaches python number scalarType .variant obj route) :
    route = [.content] ∧ obj.isNone = false := by
  cases reaches with
  | variant inferred =>
      refine ⟨rfl, ?_⟩
      cases number with
      | none => cases inferred
      | _ => rfl

theorem assign_single (lawful : lib.Lawful) {structId name : Str}
    {fields : List (Str × FieldDesc)} {desc : FieldDesc}
    (found : FieldDesc.named? fields name = some desc)
    {subs : List (Str × PvField)} {sub : PvField}
    (subFound : PvField.named? subs name = some sub) (obj : PyObj)
    (bit : Nat) (marks : BitSet) :
    ∃ childBit,
      assign lib python.conversions (.struct structId fields) bit
          (.struct structId subs) (.dict [(.str name, obj)]) marks =
        let outcome := assign lib python.conversions desc childBit sub obj
          marks
        ⟨.struct structId (PvField.putNamed name outcome.target subs),
          outcome.marks, outcome.error⟩ := by
  obtain ⟨before, offset, -⟩ := FieldDesc.named?_offset found []
  refine ⟨bit + 1 + before, ?_⟩
  simp only [assign, Python.conversions, List.map_cons, List.map_nil,
    PyObj.extractText, assignEntries, find_assignMembers lawful found offset,
    subFound]
  split
  · rename_i stopped
    simp only [stopped]
  · rename_i ended
    simp only [ended]

theorem Outcome.Carries.member {outcome : Outcome PvField} {sub : PvField}
    {marks : BitSet} (carries : outcome.Carries sub marks route result)
    {name : Str} {subs : List (Str × PvField)}
    (found : PvField.named? subs name = some sub) (structId : Str) :
    Outcome.Carries
      ⟨.struct structId (PvField.putNamed name outcome.target subs),
        outcome.marks, outcome.error⟩
      (.struct structId subs) marks (.member name :: route) result := by
  cases result with
  | error error =>
      have same : outcome = ⟨sub, marks, some error⟩ := carries
      rw [same]
      simp only [PvField.putNamed_self found]
      rfl
  | ok value =>
      obtain ⟨ended, reached⟩ := carries
      refine ⟨ended, ?_⟩
      simp only [PvField.at?, PvField.step?, PvField.member?,
        PvField.named?_putNamed found, Option.bind_some, reached]

/-- The number is converted once and stands where the route ends. -/
theorem Reaches.carries (lawful : lib.Lawful) (pythonLawful : python.Lawful)
    {number obj : PyObj} {scalarType : ScalarType} {desc : FieldDesc}
    (reaches : Reaches python number scalarType desc obj route) (bit : Nat)
    {target : PvField} (fits : PvField.Fits desc target) (marks : BitSet) :
    (assign lib python.conversions desc bit target obj marks).Carries target
      marks route (python.pyToScalar number scalarType).result := by
  have built {desc : FieldDesc} {obj : PyObj} {route : List Step}
      (carries : ∀ (bit : Nat) {target : PvField}, PvField.Fits desc target →
        ∀ marks, (assign lib python.conversions desc bit target obj
          marks).Carries target marks route
            (python.pyToScalar number scalarType).result)
      {target : PvField} (fits : PvField.Fits desc target) :
      Carried route (obj.assign python desc target).result
        (python.pyToScalar number scalarType).result := by
    rw [PyObj.assign_result lawful desc 0 target obj ∅]
    exact (carries 0 fits ∅).carried
  induction reaches generalizing bit target marks with
  | here => exact (pyToScalar_carried number scalarType .null).carries id _ _ _
  | member found below induction =>
      cases target with
      | struct targetId subs =>
          obtain ⟨rfl, fitMembers⟩ := fits
          obtain ⟨sub, subFound, subFits⟩ := fitMembers.exists_named found
          obtain ⟨childBit, same⟩ :=
            @assign_single lib python lawful _ _ _ _ found _ _ subFound _ bit
              marks
          rw [same]
          exact (induction childBit subFits marks).member subFound _
      | _ => cases fits
  | @selected structId name variants index desc obj route found below
      induction =>
      apply Carried.carries id
      apply (built induction (pythonLawful.default_fits desc)).wrap
        (assign_selected found structId obj .null)
      intro field value _
      exact PvField.step?_selected _ _ _
  | bare bare picked =>
      apply Carried.carries id
      apply (pyToScalar_carried number scalarType _).wrap
        (assign_bare bare picked _)
      intro field value _
      exact PvField.step?_selected _ _ _
  | variant inferred =>
      apply Carried.carries id
      apply (pyToScalar_carried number scalarType _).wrap
        (PyObj.assign_variant inferred .null)
      intro field value _
      rfl
  | structItem below induction =>
      obtain ⟨name, rest, rfl, some⟩ := below.struct_route
      apply Carried.carries id
      apply (built induction (pythonLawful.default_fits _)).wrap
        (assign_structItem some _ _)
      intro field value found
      obtain ⟨sub, first⟩ := PvField.at?_first found
      exact PvField.step?_structItem first
  | unionItem below induction =>
      obtain ⟨rest, rfl⟩ := below.union_route
      apply Carried.carries id
      apply (built induction trivial).wrap (assign_unionItem _ _ _)
      intro field value found
      obtain ⟨sub, first⟩ := PvField.at?_first found
      exact PvField.step?_unionItem first
  | variantItem below induction =>
      obtain ⟨rfl, some⟩ := below.variant_route
      apply Carried.carries id
      apply (built induction trivial).wrap (assign_variantItem some)
      intro field value found
      obtain ⟨sub, first⟩ := PvField.at?_first found
      exact PvField.step?_variantItem first

end Ways

/-- An assignment raises and leaves the root as it is, or stores the number:
the field at the end of the path and the route reads back as the number. -/
def StoresOrRefuses (python : Python) (root : Root) (text : Str)
    (route : List Step) (given : Option Int)
    (ended : Root × Option PyErr) : Prop :=
  ended.2 ≠ none ∧ ended.1 = root ∨
    ended.2 = none ∧ ∃ number value, given = some number ∧
      ((fieldAt ended.1.field text).bind fun field => field.at? route) =
        some (.scalar value) ∧
      python.scalarToPy value = .int number

/-- An assignment stores or refuses a number as its conversion does. -/
theorem storesOrRefuses_iff {lib : PvData} {python : Python}
    (lawful : lib.Lawful) (pythonLawful : python.Lawful) {root : Root}
    (fits : PvField.Fits root.desc root.field) {text : Str}
    {desc : FieldDesc} (found : descAt root.desc text = some desc)
    {number obj : PyObj} {scalarType : ScalarType} {route : List Step}
    (reaches : Reaches python number scalarType desc obj route)
    (given : Option Int) (missing : PyErr) :
    StoresOrRefuses python root text route given
        (root.assignAt lib python.conversions text obj missing) ↔
      Exactly python given (python.pyToScalar number scalarType).result := by
  obtain ⟨target, targetFound, targetFits⟩ := fits.atPath? found
  have carries := reaches.carries lawful pythonLawful
    ((lib.bitForPath root.desc text).getD 0) targetFits root.marks
  have fieldFound : fieldAt root.field text = some target := targetFound
  rw [Root.assignAt, found, fieldFound]
  simp only
  generalize assign lib python.conversions desc
    ((lib.bitForPath root.desc text).getD 0) target obj root.marks =
      outcome at carries ⊢
  cases converted : (python.pyToScalar number scalarType).result with
  | error error =>
      rw [converted] at carries
      have same : outcome = ⟨target, root.marks, some error⟩ := carries
      rw [same]
      refine iff_of_true (.inl ⟨(by simp), ?_⟩) trivial
      simp only [PvField.putAt_self targetFound]
  | ok value =>
      rw [converted] at carries
      obtain ⟨ended, reached⟩ := carries
      have read : fieldAt (root.field.putAt (Separated.segments '.' text)
          outcome.target) text = some outcome.target :=
        PvField.atPath?_putAt targetFound _
      simp only [StoresOrRefuses, ended, read, Option.bind_some, reached,
        Exactly]
      simp

/-- An integer field, at any depth, stores a number or refuses it, and refuses
what is not finite, exactly if the number is storable. -/
theorem integer_stored_iff {lib : PvData} {python : Python}
    (lawful : lib.Lawful) (pythonLawful : python.Lawful)
    (counts : python.Counts) {root : Root}
    (fits : PvField.Fits root.desc root.field) {text : Str}
    {desc : FieldDesc} (found : descAt root.desc text = some desc)
    {number obj : PyObj} {scalarType : ScalarType}
    (integer : scalarType.IsInteger) {route : List Step}
    (reaches : Reaches python number scalarType desc obj route)
    {given : Option Int} (isGiven : Given python number given)
    (missing : PyErr) :
    StoresOrRefuses python root text route given
        (root.assignAt lib python.conversions text obj missing) ↔
      Storable scalarType number given := by
  rw [storesOrRefuses_iff lawful pythonLawful fits found reaches]
  exact exactly_iff counts integer isGiven

/-- A Python that counts. -/
def Python.counting : Python :=
  { Python.simple with
    index
      | .numpy value => value.integer?
      | _ => none
    number
      | .numpy (.float bits) => some (Python.simple.widen bits)
      | _ => none
    truncate := Binary64.toInt (-2 ^ 127) (2 ^ 127 - 1) }

theorem Python.counting_counts : Python.counting.Counts where
  index _ _ same := same
  indexFloat _ := rfl
  numberFloat _ := rfl
  truncate _ := rfl
  parse scalarType number value integer parsed := by
    cases scalarType with
    | string => cases integer
    | _ => cases parsed

theorem Python.counting_lawful : Python.counting.Lawful where
  parse_string := Python.simple_lawful.parse_string
  text_str := Python.simple_lawful.text_str
  asarray_array := Python.simple_lawful.asarray_array
  default_fits := Python.simple_lawful.default_fits

/-- A structure with a number of eight bits in a union. -/
def Root.ofByte : Root where
  desc := .struct [] [("value".toList, .scalar .byte),
    ("any".toList, .union [] [("byte".toList, .scalar .byte)])]
  field := .struct [] [("value".toList, .scalar (.byte 0)),
    ("any".toList, .union (-1) [] .null)]
  marks := ∅

theorem byte_stored :
    StoresOrRefuses .counting Root.ofByte "any".toList [.selected] (some 5)
        (Root.ofByte.assignAt .depthFirst Python.counting.conversions
          "any".toList (.tuple [.str "byte".toList, .int 5]) .viewVanished) ↔
      Storable .byte (.int 5) (some 5) := by
  have reaches : Reaches .counting (.int 5) .byte
      (.union [] [("byte".toList, .scalar .byte)])
      (.tuple [.str "byte".toList, .int 5]) [.selected] :=
    .selected rfl .here
  have fits : PvField.Fits Root.ofByte.desc Root.ofByte.field := by decide
  have integer : ScalarType.byte.IsInteger := trivial
  exact integer_stored_iff PvData.depthFirst_lawful Python.counting_lawful
    Python.counting_counts fits rfl integer reaches (.int 5) .viewVanished

/-- 300 becomes 44, and a NaN becomes 0. -/
theorem byte_wraps :
    fieldAt (Root.ofByte.setItem .depthFirst Python.counting.conversions []
        "value".toList (.int 300)).1.field "value".toList =
      some (.scalar (.byte 44)) ∧
    ¬StoresOrRefuses .counting Root.ofByte "value".toList [] (some 300)
        (Root.ofByte.setItem .depthFirst Python.counting.conversions []
          "value".toList (.int 300)) ∧
    fieldAt (Root.ofByte.setItem .depthFirst Python.counting.conversions []
        "value".toList (.float 0x7ff8000000000000)).1.field "value".toList =
      some (.scalar (.byte 0)) ∧
    ¬StoresOrRefuses .counting Root.ofByte "value".toList [] none
        (Root.ofByte.setItem .depthFirst Python.counting.conversions []
          "value".toList (.float 0x7ff8000000000000)) := by
  have fits : PvField.Fits Root.ofByte.desc Root.ofByte.field := by decide
  have found : descAt Root.ofByte.desc "value".toList =
      some (.scalar .byte) := rfl
  have converted {number : PyObj} (given : Option Int) (missing : PyErr) :=
    (@storesOrRefuses_iff .depthFirst .counting PvData.depthFirst_lawful
      Python.counting_lawful Root.ofByte fits _ _ found number number .byte []
      .here given missing).mp
  refine ⟨rfl, ?_, rfl, ?_⟩
  · intro stored
    obtain ⟨number, same, read⟩ := converted _ _ stored
    cases same
    cases read
  · intro stored
    obtain ⟨number, same, -⟩ := converted _ _ stored
    cases same

end Repics.Pva
