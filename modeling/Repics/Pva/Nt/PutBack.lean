import Repics.Pva.Client.Unwrapper
import Repics.Pva.Nt.PutImage
import Repics.Pva.Nt.Table

/-!
# Putting what was read

`ClientUnwrapper` picks a helper by the id of a structure, and puts an object
with the `assign` of the helper that has read it.  The helpers that a context
makes have no arguments: the one for tables knows no columns, so it writes
nothing.
-/

namespace Repics.Pva.Nt

open Client.ClientUnwrapper (NtHelper defaultNT)

namespace NTTable

/-- `V["value"] = self.wrap(py)["value"].todict()` -/
def assign (lib : PvData) (python : Python) (table : NTTable) (V : Root)
    (rows : List Row) : Except PyErr Root := do
  let wrapped ← table.wrap lib python rows
  let content ←
    ((Handle.mk 0 wrapped "value".toList).todict python none).result
  setItems lib python.conversions V [("value".toList, .strDict content)]

/-- The helper of a context. -/
def columnless : NTTable where
  columns := []
  extra := []

/-- Equal cells under the same names in order. -/
def SameRow (python : Python) (row back : Row) : Prop :=
  List.Forall₂ (fun entry other =>
    other.1 = entry.1 ∧ entry.2.Equals python other.2) row back

def Same (python : Python) (x back : Unwrapped) : Prop :=
  List.Forall₂ (SameRow python) x.rows back.rows

/-- The columns that are read, as lists of their cells. -/
def columnsRead (python : Python) (V : Root) :
    Except PyErr (List (List PyObj)) := do
  let items ← ((Handle.mk 0 V "value".toList).items python).result
  items.mapM fun item => cells python item.2

/-- There are no columns, or one without cells. -/
def NoRows (python : Python) (V : Root) : Prop :=
  ∃ columns, columnsRead python V = .ok columns ∧
    (columns = [] ∨ [] ∈ columns)

section Put

variable {lib : PvData} {python : Python} {V : Root}
  {columns extra : List (Str × FieldDesc)}

theorem wrap_columnless (lawful : lib.Lawful) (sane : python.Sane)
    (rows : List Row) :
    ∃ wrapped, columnless.wrap lib python rows = .ok wrapped ∧
      ((Handle.mk 0 wrapped "value".toList).todict python none).result =
        .ok [] := by
  have assigned : ∃ subs,
      ((PyObj.strDict (columnless.initial rows)).assign python
        columnless.type (zeroField columnless.type)).result =
          .ok (.struct "epics:nt/NTTable:1.0".toList subs) ∧
      PvField.named? subs "value".toList = some (.struct [] []) :=
    ⟨_, rfl, rfl⟩
  obtain ⟨subs, assigned, read⟩ := assigned
  rw [← sane.default] at assigned
  obtain ⟨wrapped, created, desc, field⟩ :=
    (Root.create_iff lawful _ _ _).mpr assigned
  refine ⟨wrapped, created, ?_⟩
  have viewed : (Handle.mk 0 wrapped "value".toList).viewed wrapped =
      .ok (.struct [] [], .struct [] []) := by
    have inner : fieldAt wrapped.field "value".toList =
        some (.struct [] []) := by
      rw [field]
      exact (PvField.atPath?_single _ _).trans read
    rw [Handle.viewed, desc, inner]
    rfl
  rw [Handle.todict, Handle.locked, Locking.result_withLock,
    Locking.result_lift]
  simp only [viewed]
  rfl

theorem assign_columnless (lawful : lib.Lawful) (sane : python.Sane)
    (value : IsValue V) (desc : V.desc = buildType columns extra)
    (rows : List Row) : columnless.assign lib python V rows = .ok V := by
  obtain ⟨wrapped, made, content⟩ :=
    @wrap_columnless lib python lawful sane rows
  have found : V.desc.atPath? ["value".toList] =
      some (.struct [] columns) := by
    rw [desc]
    rfl
  obtain ⟨target, read, fits⟩ := value.fits.atPath? found
  obtain ⟨fieldId, subs, rfl⟩ : ∃ fieldId subs,
      target = .struct fieldId subs := by
    cases target with
    | struct fieldId subs => exact ⟨fieldId, subs, rfl⟩
    | _ => exact fits.elim
  have descFound : descAt V.desc "value".toList =
      some (.struct [] columns) := found
  have fieldFound : fieldAt V.field "value".toList =
      some (.struct fieldId subs) := read
  have nothing (bit : Nat) : Pva.assign lib python.conversions
      (.struct [] columns) bit (.struct fieldId subs) (.strDict []) V.marks =
        ⟨.struct fieldId subs, V.marks, none⟩ := by
    rw [Pva.assign]
    rfl
  have path : Separated.segments '.' "value".toList = ["value".toList] :=
    Separated.segments_of_isKey (by simp [Separated.IsKey])
  simp only [assign, made, content, bind, Except.bind, setItems,
    Root.setItem, Root.assignAt, join, if_true, descFound, fieldFound,
    nothing, path, PvField.putAt_self read]

theorem labels_read (value : IsValue V)
    (desc : V.desc = buildType columns extra) :
    ∃ obj labels, V.get python "labels".toList = .ok obj ∧
      cells python obj = .ok labels := by
  have found : V.desc.atPath? ["labels".toList] =
      some (.scalarArray .string) := by
    rw [desc]
    rfl
  have named : ∀ name ∈ ["labels".toList], MemberName name := by
    simp [Separated.IsKey]
  obtain ⟨field, read, typed⟩ := value.leaf found id
  have shown := @get_dotted python V _ named _ found id field read
  rw [dotted, Separated.render_singleton] at shown
  cases typed with
  | scalarArray _ items =>
      rw [toPy, Python.untypedArrayToPy] at shown
      cases taken : python.fromScalarValues items .string with
      | none =>
          rw [taken] at shown
          exact ⟨_, _, shown, PyObj.elements_of rfl⟩
      | some strings =>
          rw [taken] at shown
          exact ⟨_, _, shown, cells_typedArray _ _⟩
  | scalarArrayTyped _ items =>
      exact ⟨_, _, shown.trans (toPy_typed _ _ _ _), cells_typedArray _ _⟩

theorem unwrap_noRows_iff (value : IsValue V)
    (desc : V.desc = buildType columns extra) :
    (∃ back, unwrap python V = .ok back ∧ back.rows = []) ↔
      NoRows python V := by
  obtain ⟨obj, labels, got, isLabels⟩ := @labels_read python V columns extra
    value desc
  constructor
  · rintro ⟨back, unwrapped, none⟩
    obtain ⟨items, isItems, unwrapped⟩ := bind_ok unwrapped
    obtain ⟨columns, isColumns, unwrapped⟩ := bind_ok unwrapped
    rw [got] at unwrapped
    obtain ⟨_, -, unwrapped⟩ := bind_ok unwrapped
    obtain ⟨_, -, unwrapped⟩ := bind_ok unwrapped
    cases unwrapped
    refine ⟨columns, ?_, Columns.zipAll_eq_nil_iff.mp
      (List.map_eq_nil_iff.mp none)⟩
    simp only [columnsRead, isItems, isColumns, bind, Except.bind]
  · rintro ⟨columns, isColumns, none⟩
    obtain ⟨items, isItems, isColumns⟩ := bind_ok isColumns
    have noRows := Columns.zipAll_eq_nil_iff.mpr none
    simp only [unwrap, isItems, isColumns, got, isLabels, bind, Except.bind]
    exact ⟨_, rfl, List.map_eq_nil_iff.mpr noRows⟩

/-- Only an empty table is put back, and only into an empty one. -/
theorem puts_back_iff (lawful : lib.Lawful) (sane : python.Sane)
    (value : IsValue V) (desc : V.desc = buildType columns extra)
    (unmarked : V.marks = ∅) (x : Unwrapped) :
    PutsBack (fun V x => columnless.assign lib python V x.rows)
        (unwrap python) (fun x => x.rows = []) (Same python) x V ↔
      x.rows = [] ∧ NoRows python V := by
  have assigned := @assign_columnless lib python V columns extra lawful sane
    value desc x.rows
  have noRows := @unwrap_noRows_iff python V columns extra value desc
  constructor
  · rintro ⟨next, back, put, marked, unwrapped, same⟩
    cases assigned.symm.trans put
    have none : x.rows = [] := by
      by_contra some
      exact marked some unmarked
    rw [Same, none] at same
    exact ⟨none, noRows.mp ⟨back, unwrapped, List.forall₂_nil_left_iff.mp same⟩⟩
  · rintro ⟨none, readable⟩
    obtain ⟨back, unwrapped, backNone⟩ := noRows.mpr readable
    refine ⟨V, back, assigned, fun some => (some none).elim, unwrapped, ?_⟩
    rw [Same, none, backNone]
    exact .nil

end Put

end NTTable

namespace Helper

/-- The types that the helpers build. -/
inductive Built : FieldDesc → Prop where
  | scalar {valtype : Str} {extra : List (Str × FieldDesc)} {flags : Flags}
      {desc : FieldDesc} :
      NTScalar.buildType valtype extra flags = .ok desc → Built desc
  | enum {extra : List (Str × FieldDesc)} {flags : Flags}
      {desc : FieldDesc} :
      NTEnum.buildType extra flags = .ok desc → Built desc
  | table (columns extra : List (Str × FieldDesc)) :
      Built (NTTable.buildType columns extra)
  | ndarray (extra : List (Str × FieldDesc)) :
      Built (NTNDArray.buildType extra)

/-- The helper for the id of a structure. -/
def helperFor : FieldDesc → Option NtHelper
  | .struct structId _ => defaultNT (String.ofList structId)
  | _ => none

/-- What `unwrap` of a helper gives. -/
def Out : NtHelper → Type
  | .scalar => NTScalar.Unwrapped
  | .enum => Client.Ntenum
  | .table => NTTable.Unwrapped
  | .ndarray => NTNDArray.Unwrapped

section Helpers

variable (lib : PvData) (python : Python) (parse : String → Option Int)
  (remembered : List String)

/-- `unwrap` of a helper; that for enumerations remembers choices. -/
def unwrap : (helper : NtHelper) → Root → Except PyErr (Out helper)
  | .scalar, V => NTScalar.unwrap python V
  | .enum, V => NTEnum.unwrapped lib python remembered V
  | .table, V => NTTable.unwrap python V
  | .ndarray, V => NTNDArray.unwrap python V

def assign : (helper : NtHelper) → Root → Out helper → Except PyErr Root
  | .scalar, V, x => NTScalar.assign lib python V x.payload
  | .enum, V, x =>
      NTEnum.assign lib python parse remembered V (.number (some x.index))
  | .table, V, x => NTTable.columnless.assign lib python V x.rows
  | .ndarray, V, x => NTNDArray.assign lib python V x.array

/-- No text, no elements or no rows. -/
def IsEmpty : (helper : NtHelper) → Out helper → Prop
  | .scalar, x => NTScalar.lengthOf x.payload = .ok 0
  | .enum, _ => False
  | .table, x => x.rows = []
  | .ndarray, x => x.array.array.ravel = []

/-- The same number, text, elements, shape, attributes and rows. -/
def Same : (helper : NtHelper) → Out helper → Out helper → Prop
  | .scalar, x, back => x.payload.Equals python back.payload
  | .enum, x, back => NTEnum.Same x back
  | .table, x, back => NTTable.Same python x back
  | .ndarray, x, back => NTNDArray.Same python x back

/-- What holds of every numpy array. -/
def Sized : (helper : NtHelper) → Out helper → Prop
  | .ndarray, x => x.array.Sized
  | _, _ => True

/-- What goes into variants is restored, an image has the attributes and sizes
that are read again, and there are no rows. -/
def Restored : (helper : NtHelper) → Out helper → Root → Prop
  | .scalar, x, V => ∀ desc, V.desc.atPath? ["value".toList] = some desc →
      NTScalar.Restored python desc x.payload
  | .enum, _, _ => True
  | .table, x, V => x.rows = [] ∧ NTTable.NoRows python V
  | .ndarray, x, _ => NTNDArray.Restored python x

end Helpers

section Put

variable {lib : PvData} {python : Python} {parse : String → Option Int}
  {before remembered : List String}

/-- The type of a scalar or an array has an id that the helper for scalars
serves. -/
theorem scalar_type {valtype : Str} {extra : List (Str × FieldDesc)}
    {flags : Flags} {desc : FieldDesc}
    (made : NTScalar.buildType valtype extra flags = .ok desc) :
    ∃ valueDesc, codeDesc valtype = .ok valueDesc ∧
      helperFor desc = some .scalar ∧
      desc.atPath? ["value".toList] = some valueDesc := by
  obtain ⟨valueDesc, parsed, made⟩ := bind_ok made
  obtain ⟨metadata, -, made⟩ := bind_ok made
  obtain rfl := Except.ok.inj made
  refine ⟨valueDesc, parsed, ?_, ?_⟩
  · by_cases array : valtype.head? = some 'a'
    · rw [if_pos array]
      rfl
    · rw [if_neg array]
      rfl
  · exact FieldDesc.atPath?_nil valueDesc

theorem enum_type {extra : List (Str × FieldDesc)} {flags : Flags}
    {desc : FieldDesc} (made : NTEnum.buildType extra flags = .ok desc) :
    helperFor desc = some .enum ∧ ∃ rest,
      desc = .struct "epics:nt/NTEnum:1.0".toList
        (("value".toList, .struct "enum_t".toList NTEnum.enumMembers) ::
          rest) := by
  obtain ⟨metadata, -, made⟩ := bind_ok made
  obtain rfl := Except.ok.inj made
  exact ⟨rfl, _, rfl⟩

theorem Built.served {desc : FieldDesc} (built : Built desc) :
    (helperFor desc).isSome := by
  cases built with
  | scalar made =>
      obtain ⟨-, -, served, -⟩ := scalar_type made
      rw [served]
      rfl
  | enum made =>
      rw [(enum_type made).1]
      rfl
  | table columns extra => rfl
  | ndarray extra => rfl

theorem puts_back_iff (lawful : lib.Lawful) (relays : python.Relays)
    {desc : FieldDesc} (built : Built desc) {helper : NtHelper}
    (served : helperFor desc = some helper) {W V : Root}
    (source : IsValue W) (value : IsValue V) (sourceDesc : W.desc = desc)
    (sameDesc : V.desc = desc) (unmarked : V.marks = ∅) {x : Out helper}
    (isRead : unwrap lib python before helper W = .ok x)
    (sized : Sized helper x) :
    PutsBack (assign lib python parse remembered helper)
        (unwrap lib python remembered helper) (IsEmpty helper)
        (Same python helper) x V ↔ Restored python helper x V := by
  cases built with
  | scalar made =>
      obtain ⟨valueDesc, parsed, isScalar, found⟩ := scalar_type made
      obtain rfl : helper = .scalar :=
        Option.some.inj (served.symm.trans isScalar)
      have valueFound : V.desc.atPath? ["value".toList] = some valueDesc :=
        sameDesc ▸ found
      have restored : Restored python .scalar x V ↔
          NTScalar.Restored python valueDesc x.payload := by
        constructor
        · exact fun all => all valueDesc valueFound
        · intro here other otherFound
          cases valueFound.symm.trans otherFound
          exact here
      rw [restored]
      exact NTScalar.puts_back_iff lawful relays value source parsed
        valueFound (sourceDesc ▸ found) isRead _
  | enum made =>
      obtain ⟨isEnum, rest, shape⟩ := enum_type made
      obtain rfl : helper = .enum :=
        Option.some.inj (served.symm.trans isEnum)
      exact iff_of_true (NTEnum.puts_back lawful relays value source
        (sameDesc.trans shape) (sourceDesc.trans sameDesc.symm) parse before
          remembered isRead _) trivial
  | table columns extra =>
      obtain rfl : helper = .table := (Option.some.inj served).symm
      exact NTTable.puts_back_iff lawful relays.toSane value sameDesc unmarked x
  | ndarray extra =>
      obtain rfl : helper = .ndarray := (Option.some.inj served).symm
      exact NTNDArray.puts_back_iff lawful relays
        (NTNDArray.unwrap_read relays source sourceDesc isRead) sized value
        sameDesc _

/-- Scalars and images are put back exactly if they are restored; tables
without rows stay so, and enumerations are always put back. -/
theorem read_put_back (lawful : lib.Lawful) (relays : python.Relays)
    {desc : FieldDesc} (built : Built desc) {helper : NtHelper}
    (served : helperFor desc = some helper) {W V : Root}
    (source : IsValue W) (value : IsValue V) (sourceDesc : W.desc = desc)
    (sameDesc : V.desc = desc) (unmarked : V.marks = ∅) {x : Out helper}
    (isRead : unwrap lib python before helper W = .ok x)
    (sized : Sized helper x) :
    (Restored python helper x V →
      PutsBack (assign lib python parse remembered helper)
        (unwrap lib python remembered helper) (IsEmpty helper)
        (Same python helper) x V) ∧
    (helper ≠ .table →
      PutsBack (assign lib python parse remembered helper)
        (unwrap lib python remembered helper) (IsEmpty helper)
        (Same python helper) x V →
      Restored python helper x V) := by
  have restoredIff := @puts_back_iff lib python parse before remembered lawful
    relays desc built helper served W V source value sourceDesc sameDesc
    unmarked x isRead sized
  exact ⟨restoredIff.mpr, fun _ => restoredIff.mp⟩

end Put

/-- A Python that makes an array only of items of its type. -/
def checking : Python :=
  { Python.simple with
    fromScalarValues := fun items scalarType =>
      if ∀ item ∈ items, item.scalarType = scalarType then some items
      else none }

theorem checking_relays : checking.Relays where
  lawful := {
    parse_string := Python.simple_lawful.parse_string
    text_str := Python.simple_lawful.text_str
    asarray_array := Python.simple_lawful.asarray_array
    default_fits := Python.simple_lawful.default_fits }
  default _ := rfl
  empty := rfl
  text _ := rfl
  ascii _ _ := rfl
  float bits := by
    have same : bits.toUInt64.toUInt32 = bits := by simp
    exact congrArg UInt32.toUInt64 same
  typed items scalarType found taken := by
    simp only [checking] at taken
    split at taken
    · rename_i all
      cases taken
      exact all
    · cases taken
  kept items scalarType all := if_pos all
  doubles items found taken := by cases taken

/-- A number with its alarm and its time. -/
def reading (bits : UInt64) : Root where
  desc := .struct "epics:nt/NTScalar:1.0".toList
    [("value".toList, .scalar .double), ("alarm".toList, alarm),
      ("timeStamp".toList, timeStamp)]
  field := .struct "epics:nt/NTScalar:1.0".toList
    [("value".toList, .scalar (.double bits)),
      ("alarm".toList, zeroField alarm),
      ("timeStamp".toList, zeroField timeStamp)]
  marks := ∅

theorem reading_isValue (bits : UInt64) : IsValue (reading bits) := by
  refine @IsValue.of_copy checking _ (.struct _ (by simp) rfl ?_)
  intro member field inZip
  simp only [List.zip_cons_cons, List.zip_nil_right, List.mem_cons,
    List.not_mem_nil, or_false] at inZip
  rcases inZip with same | same | same
  · cases same
    exact @IsCopy.scalar checking (.double bits) trivial
  · cases same
    exact alarm_copy rfl
  · cases same
    exact timeStamp_copy rfl

/-- The number 2.5 is put into a value with zero. -/
theorem reading_put_back :
    ∃ x, unwrap .depthFirst checking [] .scalar
        (reading 0x4004000000000000) = .ok x ∧
      PutsBack (assign .depthFirst checking String.toInt? [] .scalar)
        (unwrap .depthFirst checking [] .scalar) (IsEmpty .scalar)
        (Same checking .scalar) x (reading 0) := by
  have built : Built (reading 0).desc :=
    @Built.scalar "d".toList [] ⟨false, false, false, false⟩ _ rfl
  obtain ⟨x, isRead⟩ : ∃ x, unwrap .depthFirst checking [] .scalar
      (reading 0x4004000000000000) = .ok x := ⟨_, rfl⟩
  refine ⟨x, isRead, (read_put_back PvData.depthFirst_lawful checking_relays
    built rfl (reading_isValue 0x4004000000000000) (reading_isValue 0) rfl
    rfl rfl isRead trivial).1 ?_⟩
  intro desc found
  cases found
  trivial

/-- Two rows of three numbers that no attribute is said of. -/
theorem ramp_not_put_back :
    ∃ desc W V x, Built desc ∧ helperFor desc = some .ndarray ∧
      IsValue W ∧ IsValue V ∧ W.desc = desc ∧ V.desc = desc ∧
      V.marks = ∅ ∧
      unwrap .depthFirst checking [] .ndarray W = .ok x ∧
      ¬PutsBack (assign .depthFirst checking String.toInt? [] .ndarray)
        (unwrap .depthFirst checking [] .ndarray) (IsEmpty .ndarray)
        (Same checking .ndarray) x V := by
  obtain ⟨name, W, -, -, stores, copy⟩ := create_stores
    PvData.depthFirst_lawful checking_relays.toSane [] ramp_wrappable.sound
      ramp_wrappable.supported (by decide) .nil
  have unwrapped := stores.unwrap ramp_wrappable.supported
    ramp_wrappable.axes ramp_wrappable.sizes List.nodup_nil
  have source : IsValue W :=
    @IsValue.of_copy checking W (stores.desc ▸ copy rfl)
  have value : IsValue ⟨NTNDArray.buildType [],
      zeroField (NTNDArray.buildType []), ∅⟩ :=
    .of_copy (.zeroStruct _ (by simp [NTNDArray.members])
      (@image_zeros checking rfl))
  have read := NTNDArray.unwrap_read checking_relays source stores.desc
    unwrapped
  have small : ∀ size ∈ Ndarray.ramp.shape, size < 2 ^ 63 :=
    fun size member => (ramp_wrappable.sizes size member).trans (by decide)
  refine ⟨_, W, _, _, .ndarray [], rfl, source, value, stores.desc, rfl, rfl,
    unwrapped, ?_⟩
  intro putsBack
  have restored := (NTNDArray.puts_back_iff PvData.depthFirst_lawful
    checking_relays read ⟨ramp_wrappable.sound.small, small⟩ value rfl
    _).mp putsBack
  rcases restored.color with given | ⟨notPlane, -⟩
  · cases given
  · exact notPlane rfl

end Helper

end Repics.Pva.Nt
