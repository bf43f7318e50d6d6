import Repics.Ca.Client.Value
import Repics.Ca.Hub.Subscription

/-!
# Reads and monitor updates

A read sends its datatype and form to the server as a code, and a monitor takes
the `TIME` class of the native type and imitates the datatype.  The client
library and the server are parameters: a record says what the server has of a
channel, and the library brings its replies.
-/

namespace Repics.Ca

/-- The datatypes of a request; `other` is one that is not supported. -/
inductive Datatype where
  | native
  | str
  | int
  | float
  | bool
  | base (dbr : Dbr)
  | dtype (dtype : DType)
  | strDtype
  | enumStr
  | marker (marker : Marker)
  | other
  deriving DecidableEq

/-- What `request` returns. -/
structure DbrRequest where
  base : Option Dbr
  offset : Nat
  enumAsString : Bool
  marker : Option Marker

inductive ReqCount where
  | autosize (least : Nat)
  | fixed (number : Nat)

inductive EnumReadback where
  | label
  | native
  deriving DecidableEq

/-- `request`. -/
def request (datatype : Datatype) (form : Form) : Except Raised DbrRequest :=
  let typed base := .ok ⟨some base, form.offset, false, none⟩
  match datatype with
  | .native => .ok ⟨none, form.offset, false, none⟩
  | .marker marker => .ok ⟨some .char, form.offset, false, some marker⟩
  | .enumStr => .ok ⟨none, form.offset, true, none⟩
  | .str | .strDtype => typed .string
  | .int | .bool | .dtype .int32 => typed .long
  | .float | .dtype .float64 => typed .double
  | .base dbr => typed dbr
  | .dtype .float32 => typed .float
  | .dtype .int16 => typed .short
  | .dtype .uint8 => typed .char
  | .dtype .uint16 | .other => .error .typeError

/-- The element count a read asks for. -/
def readCount {Error : Type} (elementCount : Except Error Nat)
    (count : Int) : Except Error ReqCount :=
  if count = 0 then .ok (.autosize 0)
  else if count < 0 then .ok (.fixed 0)
  else elementCount.map fun most =>
    .fixed (min (min count.toNat (2 ^ 32 - 1)) most)

/-- The client library for one channel: its native type and element count, a
read with a code and a count, and the update of a monitor with a mask, its
readback, `float_as_string`, and a cap. -/
structure Library (Double Text Error : Type) where
  native : Dbr
  elementCount : Except Error Nat
  get : Nat → ReqCount → Except Error (RsSnapshot Double Text)
  update : Nat → EnumReadback → Bool → Option Nat →
    Except Error (RsSnapshot Double Text)

variable {Double Text Error : Type}

/-- The base type that `do_get` asks for. -/
def Library.base (library : Library Double Text Error) :
    DbrRequest → Dbr
  | ⟨some base, _, _, _⟩ => base
  | ⟨none, _, enumAsString, _⟩ =>
      if enumAsString ∧ library.native = .enum then .string
      else library.native

/-- `do_get`, of a channel that is connected and may be read. -/
def Library.doGet (library : Library Double Text Error)
    (request : DbrRequest) (count : Int) :
    Except Error (RsSnapshot Double Text) :=
  (readCount library.elementCount count).bind
    (library.get ((library.base request).code + request.offset))

namespace Datatype

/-- `MONITOR_DATATYPES`. -/
def monitored : Datatype → Bool
  | .native | .str | .enumStr | .marker _ => true
  | _ => false

/-- `self._marker`. -/
def toMarker : Datatype → Option Marker
  | .marker asked => some asked
  | _ => none

/-- `enum_as_string`, as the hub passes it on. -/
def readback : Datatype → EnumReadback
  | .str | .enumStr => .label
  | _ => .native

end Datatype

/-- `default_mask`. -/
def defaultMask (form : Form) : Option Nat → Nat
  | some mask => mask
  | none =>
      match form with
      | .plain => 1
      | .sts | .time => 1 ||| 4
      | .gr | .ctrl => 1 ||| 4 ||| 8

section Paths

variable (python : Python Double Text)

/-- What becomes of a reply and of an update. -/
def Python.deliver (name : Text) (marker : Option Marker) :
    Except Error (RsSnapshot Double Text) →
      Except (Failure Error) (Augmented Double Text)
  | .error error => .error (.ca error)
  | .ok snap =>
      (python.augment (Snapshot.fromRs name snap) marker).mapError .raised

/-- `caget`. -/
def caget (library : Library Double Text Error) (name : Text) (form : Form)
    (datatype : Datatype) (count : Int) :
    Except (Failure Error) (Augmented Double Text) :=
  match request datatype form with
  | .error raised => .error (.raised raised)
  | .ok request =>
      python.deliver name request.marker (library.doGet request count)

/-- The value that `camonitor` delivers of an update. -/
def camonitor (library : Library Double Text Error) (name : Text)
    (form : Form) (datatype : Datatype) (count : Int) (mask : Option Nat) :
    Except (Failure Error) (Augmented Double Text) :=
  if datatype.monitored then
    python.deliver name datatype.toMarker
      ((Hub.monitorCount library.elementCount count).bind
        (library.update (defaultMask form mask) datatype.readback
          (datatype = .str)))
  else .error (.raised .typeError)

end Paths

/-- What a server has of a channel: its value, as many elements as are asked
for or as there are, what a conversion makes of a value, of a text as a
character and of a floating-point number as one, and what the classes
carry. -/
structure Record (Double Text Error : Type) where
  native : Dbr
  elementCount : Nat
  value : Option Nat → EpicsValue Double Text
  typed : ∀ amount, (value amount).dbr = native
  convert : Dbr → EpicsValue Double Text →
    Except Error (EpicsValue Double Text)
  charOf : Text → Except Error UInt8
  charOfDouble : Double → UInt8
  alarm : Dbr → Form → Alarm
  timestamp : Dbr → Form → Nat × Nat
  display : Dbr → Form → Option (DisplayInfo Double Text)
  control : Dbr → Form → Option (ControlInfo Double)
  enums : Dbr → Form → Option (List Text)

namespace Record

variable (record : Record Double Text Error)

def snapshot (dbr : Dbr) (form : Form) (value : EpicsValue Double Text) :
    RsSnapshot Double Text where
  value := value
  alarm := record.alarm dbr form
  timestamp := record.timestamp dbr form
  display := record.display dbr form
  control := record.control dbr form
  enums := record.enums dbr form

/-- The reply for a type and class, as the library decodes it. -/
def reply (dbr : Dbr) (form : Form) (amount : Option Nat) :
    Except Error (RsSnapshot Double Text) :=
  (record.convert dbr (record.value amount)).map (record.snapshot dbr form)

end Record

/-- The fields that may be `None`. -/
inductive MetaField where
  | units
  | precision
  | limit (limit : Limit)
  | enums
  | ackt
  | acks

/-- The field is not `None`. -/
def Snapshot.has (snap : Snapshot Double Text) : MetaField → Bool
  | .units => snap.units.isSome
  | .precision => snap.precision.isSome
  | .limit limit => (snap.limit limit).isSome
  | .enums => snap.enums.isSome
  | .ackt => snap.ackt.isSome
  | .acks => snap.acks.isSome

/-- The classes with more than an alarm and a time. -/
def Form.rich : Form → Bool
  | .plain | .sts | .time => false
  | .gr | .ctrl => true

/-- What the class of a type carries. -/
def carries (dbr : Dbr) (form : Form) : MetaField → Bool
  | .units | .precision => form.rich && dbr != .string && dbr != .enum
  | .limit .upperCtrl | .limit .lowerCtrl =>
      form == .ctrl && dbr != .string && dbr != .enum
  | .limit _ => form.rich && dbr != .string && dbr != .enum
  | .enums => form.rich && dbr == .enum
  | .ackt | .acks => false

/-- The number of elements that a read asks for; `none` is as many as there
are. -/
def ReqCount.amount (elementCount : Nat) : ReqCount → Option Nat
  | autosize _ => none
  | fixed 0 => some elementCount
  | fixed (number + 1) => some (number + 1)

/-- The number of elements that a monitor asks for. -/
def capAmount (elementCount : Nat) (cap : Option Nat) : Option Nat :=
  cap.map fun number => min number elementCount

/-- The number of elements that a count asks for. -/
def Record.amount (record : Record Double Text Error) (count : Int) :
    Option Nat :=
  if count = 0 then none
  else if count < 0 then some record.elementCount
  else some (min (min count.toNat (2 ^ 32 - 1)) record.elementCount)

/-- The type that a read asks for. -/
def readType (native : Dbr) : Datatype → Dbr
  | .str => .string
  | .enumStr => if native = .enum then .string else native
  | .marker _ => .char
  | _ => native

/-- The type that a monitor takes. -/
def monitoredType (native : Dbr) (readback : EnumReadback)
    (floatAsString : Bool) : Dbr :=
  match native with
  | .enum => if readback = .label then .string else .enum
  | .float | .double => if floatAsString then .string else native
  | native => native

/-- The elements of a number as characters, their low eight bits. -/
def chars (charOfDouble : Double → UInt8) :
    EpicsValue Double Text → Option (Shape UInt8)
  | .string _ => none
  | .short shape | .enum shape | .long shape => some (shape.map lowByte)
  | .char shape => some shape
  | .float shape | .double shape => some (shape.map charOfDouble)

/-- The server converts to the type that is asked for, every value to a text,
and a number to a character by the low eight bits of its whole part, if it has
one; and it fills a class with what it carries. -/
structure Record.Converts (record : Record Double Text Error)
    (python : Python Double Text) : Prop where
  native : ∀ value, record.convert value.dbr value = .ok value
  typed : ∀ dbr value converted,
    record.convert dbr value = .ok converted → converted.dbr = dbr
  text : ∀ value, ∃ converted, record.convert .string value = .ok converted
  char : ∀ value shape, chars record.charOfDouble value = some shape →
    record.convert .char value = .ok (.char shape)
  charOf : ∀ text, record.convert .char (.string (.scalar text)) =
    (record.charOf text).map fun byte => .char (.scalar byte)
  finite : ∀ number whole, python.trunc number = .ok whole →
    record.charOfDouble number = lowByte whole
  fills : ∀ name dbr form value field,
    (Snapshot.fromRs name (record.snapshot dbr form value)).has field =
      carries dbr form field

/-- The library brings the replies of the server; a monitor takes the `TIME`
class. -/
structure Library.Serves (library : Library Double Text Error)
    (record : Record Double Text Error) : Prop where
  native : library.native = record.native
  elementCount : library.elementCount = .ok record.elementCount
  get : ∀ dbr form count,
    library.get (dbr.code + Form.offset form) count =
      record.reply dbr form (count.amount record.elementCount)
  update : ∀ mask readback floatAsString cap,
    library.update mask readback floatAsString cap =
      record.reply (monitoredType record.native readback floatAsString) .time
        (capAmount record.elementCount cap)

/-- Both deliver the same value with the same fields, or both fail. -/
def Agree : Except (Failure Error) (Augmented Double Text) →
    Except (Failure Error) (Augmented Double Text) → Prop
  | .ok read, .ok update =>
      update.value = read.value ∧
        ∀ field, update.snap.has field = read.snap.has field
  | .error _, .error _ => True
  | _, _ => False

/-- When a marker makes the same of a read as `DBR_CHAR` and of the native
value. -/
def CharsCoincide (python : Python Double Text)
    (record : Record Double Text Error) (marker : Marker) (form : Form) :
    EpicsValue Double Text → Prop
  | .string (.scalar text) =>
      match record.charOf text, python.parse text with
      | .ok byte, .ok number =>
          form.rich = false ∧ python.mark marker (untilNul [byte]) =
            python.mark marker (untilNul [lowByte number])
      | .error _, .error _ => True
      | _, _ => False
  | .string (.array texts) =>
      (record.convert .char (.string (.array texts))).isOk = false
  | .float (.scalar number) | .double (.scalar number) =>
      form.rich = false ∧ (python.trunc number).isOk = true
  | .float (.array numbers) | .double (.array numbers) =>
      form.rich = false ∧
        python.mark marker (untilNul (numbers.map record.charOfDouble)) =
          python.mark marker (untilNul (numbers.map python.uint8))
  | _ => form.rich = false

/-- When an update is what a read returns. -/
def Coincide (python : Python Double Text)
    (record : Record Double Text Error) (datatype : Datatype) (form : Form)
    (value : EpicsValue Double Text) : Prop :=
  match datatype with
  | .str => value.dbr ≠ .short ∧ value.dbr ≠ .char ∧ value.dbr ≠ .long
  | .enumStr =>
      value.dbr = .enum ∨ value.dbr = .string ∨ form.rich = false
  | .marker marker => CharsCoincide python record marker form value
  | _ => value.dbr = .string ∨ form.rich = false

theorem readCount_amount (record : Record Double Text Error) (count : Int) :
    ∃ asked, readCount (.ok record.elementCount : Except Error Nat) count =
        .ok asked ∧
      asked.amount record.elementCount = record.amount count := by
  unfold readCount Record.amount
  split
  · exact ⟨_, rfl, rfl⟩
  · split
    · exact ⟨_, rfl, rfl⟩
    · refine ⟨_, rfl, ?_⟩
      dsimp only
      cases least : min (min count.toNat (2 ^ 32 - 1)) record.elementCount with
      | zero =>
          have none : record.elementCount = 0 := by omega
          exact congrArg some none
      | succ number => rfl

theorem monitorCount_amount (record : Record Double Text Error)
    (count : Int) :
    ∃ cap, Hub.monitorCount (.ok record.elementCount : Except Error Nat)
        count = .ok cap ∧
      capAmount record.elementCount cap = record.amount count := by
  unfold Hub.monitorCount Record.amount
  split
  · exact ⟨_, rfl, rfl⟩
  · split
    · exact ⟨_, rfl, congrArg some (Nat.min_self _)⟩
    · exact ⟨_, rfl, rfl⟩

section Serving

variable {python : Python Double Text} {library : Library Double Text Error}
  {record : Record Double Text Error}

theorem request_monitored (library : Library Double Text Error)
    (form : Form) {datatype : Datatype} (accepted : datatype.monitored) :
    ∃ asked, request datatype form = .ok asked ∧
      asked.offset = form.offset ∧ asked.marker = datatype.toMarker ∧
      library.base asked = readType library.native datatype := by
  cases datatype with
  | native | str | marker asked => exact ⟨_, rfl, rfl, rfl, rfl⟩
  | enumStr => exact ⟨_, rfl, rfl, rfl, by simp [Library.base, readType]⟩
  | int | float | bool | base | dtype | strDtype | other => cases accepted

theorem caget_reply (serves : library.Serves record) (name : Text)
    (form : Form) {datatype : Datatype} (accepted : datatype.monitored)
    (count : Int) :
    caget python library name form datatype count =
      python.deliver name datatype.toMarker
        (record.reply (readType record.native datatype) form
          (record.amount count)) := by
  obtain ⟨asked, requested, offset, marker, base⟩ :=
    request_monitored library form accepted
  obtain ⟨number, counted, same⟩ := readCount_amount record count
  have replied : library.doGet asked count =
      record.reply (readType record.native datatype) form
        (record.amount count) := by
    rw [Library.doGet, serves.elementCount, counted, base, offset,
      serves.native, ← same]
    exact serves.get _ form number
  rw [caget, requested]
  dsimp only
  rw [marker, replied]

theorem camonitor_reply (serves : library.Serves record) (name : Text)
    (form : Form) {datatype : Datatype} (accepted : datatype.monitored)
    (count : Int) (mask : Option Nat) :
    camonitor python library name form datatype count mask =
      python.deliver name datatype.toMarker
        (record.reply (monitoredType record.native datatype.readback
          (datatype = .str)) .time (record.amount count)) := by
  obtain ⟨cap, counted, same⟩ := monitorCount_amount record count
  rw [camonitor, if_pos accepted, serves.elementCount, counted, ← same]
  exact congrArg _ (serves.update _ _ _ cap)

theorem carries_time (dbr : Dbr) (field : MetaField) :
    carries dbr .time field = false := by
  cases field with
  | limit limit => cases limit <;> rfl
  | _ => rfl

theorem carries_nothing_iff (dbr : Dbr) (form : Form) :
    (∀ field, carries dbr form field = false) ↔
      dbr = .string ∨ form.rich = false := by
  constructor
  · intro nothing
    have units := nothing .units
    have enums := nothing .enums
    cases rich : form.rich with
    | false => exact .inr rfl
    | true =>
        left
        cases dbr <;> simp [carries, rich] at units enums ⊢
  · rintro (rfl | poor) field
    · cases field with
      | limit limit => cases limit <;> simp [carries]
      | _ => simp [carries]
    · have other : form ≠ .ctrl := by
        rintro rfl
        cases poor
      cases field with
      | limit limit => cases limit <;> simp [carries, poor, other]
      | _ => simp [carries, poor]

theorem Record.Converts.fields_iff (converts : record.Converts python)
    (name : Text) (base taken : Dbr) (form : Form)
    (read update : EpicsValue Double Text) :
    (∀ field,
      (Snapshot.fromRs name (record.snapshot taken .time update)).has field =
        (Snapshot.fromRs name (record.snapshot base form read)).has field) ↔
      base = .string ∨ form.rich = false := by
  rw [← carries_nothing_iff base form]
  simp only [converts.fills, carries_time]
  exact forall_congr' fun field => eq_comm

theorem Record.Converts.agree_iff (converts : record.Converts python)
    (name : Text) {base taken : Dbr} (form : Form) {amount : Option Nat}
    {read update : EpicsValue Double Text}
    (asRead : record.convert base (record.value amount) = .ok read)
    (asUpdate : record.convert taken (record.value amount) = .ok update) :
    Agree (python.deliver name none (record.reply base form amount))
        (python.deliver name none (record.reply taken .time amount)) ↔
      update.toPy = read.toPy ∧ (base = .string ∨ form.rich = false) := by
  rw [Record.reply, Record.reply, asRead, asUpdate]
  exact and_congr_right fun _ =>
    converts.fields_iff name base taken form read update

theorem Record.Converts.agree_same (converts : record.Converts python)
    (name : Text) {base taken : Dbr} (form : Form) {amount : Option Nat}
    {read : EpicsValue Double Text}
    (asRead : record.convert base (record.value amount) = .ok read)
    (same : taken = base) :
    Agree (python.deliver name none (record.reply base form amount))
        (python.deliver name none (record.reply taken .time amount)) ↔
      base = .string ∨ form.rich = false := by
  subst taken
  rw [converts.agree_iff name form asRead asRead]
  exact and_iff_right rfl

theorem Record.Converts.convert_native (converts : record.Converts python)
    (amount : Option Nat) :
    record.convert record.native (record.value amount) =
      .ok (record.value amount) := by
  rw [← record.typed amount]
  exact converts.native _

theorem monitoredType_native (native : Dbr) :
    monitoredType native .native false = native := by
  cases native <;> rfl

theorem Record.Converts.agree_native (converts : record.Converts python)
    (name : Text) (form : Form) (amount : Option Nat) :
    Agree
        (python.deliver name none (record.reply record.native form amount))
        (python.deliver name none (record.reply
          (monitoredType record.native .native false) .time amount)) ↔
      (record.value amount).dbr = .string ∨ form.rich = false := by
  rw [record.typed]
  exact converts.agree_same name form (converts.convert_native amount)
    (monitoredType_native record.native)

theorem toPy_text_ne {text number : EpicsValue Double Text}
    (isText : text.dbr = .string) (isNumber : number.dbr ≠ .string) :
    number.toPy ≠ text.toPy := by
  cases text with
  | string texts =>
      intro same
      cases number with
      | string shape => exact isNumber rfl
      | short shape | float shape | enum shape | char shape | long shape
      | double shape =>
          cases shape <;> cases texts <;> cases same
  | short | float | enum | char | long | double => cases isText

theorem Record.Converts.agree_str (converts : record.Converts python)
    (name : Text) (form : Form) (amount : Option Nat) :
    Agree
        (python.deliver name none (record.reply .string form amount))
        (python.deliver name none (record.reply
          (monitoredType record.native .label true) .time amount)) ↔
      (record.value amount).dbr ≠ .short ∧
        (record.value amount).dbr ≠ .char ∧
        (record.value amount).dbr ≠ .long := by
  obtain ⟨read, asRead⟩ := converts.text (record.value amount)
  have native := converts.convert_native amount
  have isText := converts.typed _ _ _ asRead
  have typed := record.typed amount
  rw [typed]
  cases is : record.native with
  | string | float | enum | double =>
      have agree := converts.agree_same name form asRead rfl
      simpa [monitoredType] using agree
  | short | char | long =>
      rw [is] at native typed
      have other : (record.value amount).dbr ≠ .string := by
        rw [typed]
        decide
      have disagree := converts.agree_iff name form asRead native
      simp only [toPy_text_ne isText other, false_and, iff_false] at disagree
      simpa [monitoredType] using disagree

theorem Record.Converts.agree_enumStr (converts : record.Converts python)
    (name : Text) (form : Form) (amount : Option Nat) :
    Agree
        (python.deliver name none (record.reply
          (readType record.native .enumStr) form amount))
        (python.deliver name none (record.reply
          (monitoredType record.native .label false) .time amount)) ↔
      (record.value amount).dbr = .enum ∨
        (record.value amount).dbr = .string ∨ form.rich = false := by
  have native := converts.convert_native amount
  rw [record.typed]
  cases is : record.native with
  | enum =>
      obtain ⟨read, asRead⟩ := converts.text (record.value amount)
      have agree := converts.agree_same name form asRead rfl
      simpa [readType, monitoredType] using agree
  | string | short | float | char | long | double =>
      rw [is] at native
      have agree := converts.agree_same name form native rfl
      simpa [readType, monitoredType] using agree

theorem lowByte_toNat (byte : UInt8) : lowByte byte.toNat = byte := by
  have small := byte.toNat_lt
  have same : ((byte.toNat : Int) % 2 ^ 8).toNat = byte.toNat := by omega
  rw [lowByte, UInt8.ofInt, same, UInt8.ofNat_toNat]

theorem charBytes_char (python : Python Double Text) (shape : Shape UInt8) :
    python.charBytes (EpicsValue.char shape : EpicsValue Double Text).toPy =
      .ok (untilNul shape.elements) := by
  cases shape with
  | scalar byte =>
      exact congrArg (fun low => Except.ok (untilNul [low]))
        (lowByte_toNat byte)
  | array bytes =>
      have same : (bytes.map fun byte => (byte.toNat : Int)).map lowByte =
          bytes := by
        rw [List.map_map]
        exact List.map_id'' lowByte_toNat bytes
      exact congrArg (fun raw => Except.ok (untilNul raw)) same

theorem charBytes_float (python : Python Double Text) (number : Double) :
    python.charBytes (.float number) =
      (python.trunc number).map fun whole => untilNul [lowByte whole] :=
  rfl

theorem charBytes_str (python : Python Double Text) (text : Text) :
    python.charBytes (.str text) =
      (python.parse text).map fun whole => untilNul [lowByte whole] :=
  rfl

theorem deliver_marked (python : Python Double Text) (name : Text)
    (marker : Marker) {snap : RsSnapshot Double Text}
    {bytes : Except Raised (List UInt8)}
    (made : python.charBytes snap.value.toPy = bytes) :
    (python.deliver name (some marker) (.ok snap) :
      Except (Failure Error) (Augmented Double Text)) =
      (bytes.map fun raw => {
        value := python.mark marker raw
        snap := Snapshot.fromRs name snap }).mapError .raised := by
  rw [← made]
  rfl

/-- The read delivers its bytes; they are compared with those of the native
value, if it has some. -/
theorem Record.Converts.agree_marked (converts : record.Converts python)
    (name : Text) (marker : Marker) (form : Form) {amount : Option Nat}
    {shape : Shape UInt8} {bytes : Except Raised (List UInt8)}
    (asRead : record.convert .char (record.value amount) =
      .ok (.char shape))
    (made : python.charBytes (record.value amount).toPy = bytes) :
    Agree
        (python.deliver name (some marker) (record.reply .char form amount))
        (python.deliver name (some marker)
          (record.reply record.native .time amount)) ↔
      ∃ raw, bytes = .ok raw ∧ form.rich = false ∧
        python.mark marker (untilNul shape.elements) =
          python.mark marker raw := by
  have fields := converts.fields_iff name .char record.native form
    (.char shape) (record.value amount)
  rw [Record.reply, Record.reply, asRead, converts.convert_native]
  dsimp only [Except.map]
  rw [deliver_marked python name marker (charBytes_char python shape),
    deliver_marked python name marker made]
  cases bytes with
  | error raised =>
      constructor
      · exact False.elim
      · rintro ⟨raw, same, _⟩
        cases same
  | ok raw =>
      constructor
      · rintro ⟨same, carried⟩
        exact ⟨raw, rfl, (fields.mp carried).resolve_left (by decide),
          same.symm⟩
      · rintro ⟨other, isOther, poor, same⟩
        cases isOther
        exact ⟨same.symm, fields.mpr (.inr poor)⟩

theorem Record.Converts.agree_bytes (converts : record.Converts python)
    (name : Text) (marker : Marker) (form : Form) {amount : Option Nat}
    {shape : Shape UInt8}
    (isShape : chars record.charOfDouble (record.value amount) = some shape)
    (made : python.charBytes (record.value amount).toPy =
      .ok (untilNul shape.elements)) :
    Agree
        (python.deliver name (some marker) (record.reply .char form amount))
        (python.deliver name (some marker)
          (record.reply record.native .time amount)) ↔
      form.rich = false := by
  rw [converts.agree_marked name marker form
    (converts.char _ _ isShape) made]
  constructor
  · rintro ⟨raw, _, poor, _⟩
    exact poor
  · intro poor
    exact ⟨_, rfl, poor, rfl⟩

/-- A floating-point number gives its low eight bits if it is finite. -/
theorem Record.Converts.agree_double (converts : record.Converts python)
    (name : Text) (marker : Marker) (form : Form) {amount : Option Nat}
    {number : Double}
    (isShape : chars record.charOfDouble (record.value amount) =
      some (.scalar (record.charOfDouble number)))
    (isFloat : (record.value amount).toPy = .float number) :
    Agree
        (python.deliver name (some marker) (record.reply .char form amount))
        (python.deliver name (some marker)
          (record.reply record.native .time amount)) ↔
      form.rich = false ∧ (python.trunc number).isOk = true := by
  cases trunc : python.trunc number with
  | ok whole =>
      have made : python.charBytes (record.value amount).toPy =
          .ok (untilNul [record.charOfDouble number]) := by
        rw [isFloat, charBytes_float, trunc,
          converts.finite number whole trunc]
        rfl
      rw [converts.agree_bytes name marker form isShape made]
      exact (and_iff_left rfl).symm
  | error raised =>
      have made : python.charBytes (record.value amount).toPy =
          .error raised := by
        rw [isFloat, charBytes_float, trunc]
        rfl
      rw [converts.agree_marked name marker form
        (converts.char _ _ isShape) made]
      constructor
      · rintro ⟨raw, same, _⟩
        cases same
      · rintro ⟨_, isOk⟩
        cases isOk

/-- An array of floating-point numbers is cast by numpy, and the read by the
server. -/
theorem Record.Converts.agree_doubles (converts : record.Converts python)
    (name : Text) (marker : Marker) (form : Form) {amount : Option Nat}
    {numbers : List Double}
    (isShape : chars record.charOfDouble (record.value amount) =
      some (.array (numbers.map record.charOfDouble)))
    (made : python.charBytes (record.value amount).toPy =
      .ok (untilNul (numbers.map python.uint8))) :
    Agree
        (python.deliver name (some marker) (record.reply .char form amount))
        (python.deliver name (some marker)
          (record.reply record.native .time amount)) ↔
      form.rich = false ∧
        python.mark marker (untilNul (numbers.map record.charOfDouble)) =
          python.mark marker (untilNul (numbers.map python.uint8)) := by
  rw [converts.agree_marked name marker form
    (converts.char _ _ isShape) made]
  constructor
  · intro ⟨raw, isRaw, both⟩
    cases isRaw
    exact both
  · intro both
    exact ⟨_, rfl, both⟩

/-- When the server refuses the conversion, the monitor must fail too. -/
theorem Record.Converts.agree_refused (converts : record.Converts python)
    (name : Text) (marker : Marker) (form : Form) {amount : Option Nat}
    {bytes : Except Raised (List UInt8)} {error : Error}
    (refused : record.convert .char (record.value amount) = .error error)
    (made : python.charBytes (record.value amount).toPy = bytes) :
    Agree
        (python.deliver name (some marker) (record.reply .char form amount))
        (python.deliver name (some marker)
          (record.reply record.native .time amount)) ↔
      bytes.isOk = false := by
  rw [Record.reply, Record.reply, refused, converts.convert_native]
  dsimp only [Except.map]
  rw [deliver_marked python name marker made]
  cases bytes with
  | error raised => exact iff_of_true trivial rfl
  | ok raw => exact iff_of_false id fun refused => by cases refused

/-- Python reads a text as an integer, and the server as a character. -/
theorem Record.Converts.agree_text (converts : record.Converts python)
    (name : Text) (marker : Marker) (form : Form) {amount : Option Nat}
    {text : Text} (is : record.value amount = .string (.scalar text)) :
    Agree
        (python.deliver name (some marker) (record.reply .char form amount))
        (python.deliver name (some marker)
          (record.reply record.native .time amount)) ↔
      CharsCoincide python record marker form (.string (.scalar text)) := by
  have made : python.charBytes (record.value amount).toPy =
      (python.parse text).map fun whole => untilNul [lowByte whole] := by
    rw [is]
    exact charBytes_str python text
  have asRead := converts.charOf text
  rw [← is] at asRead
  rw [CharsCoincide]
  cases charOf : record.charOf text with
  | ok byte =>
      rw [charOf] at asRead
      rw [converts.agree_marked name marker form asRead made]
      cases python.parse text with
      | ok number =>
          constructor
          · rintro ⟨raw, isRaw, poor, same⟩
            cases isRaw
            exact ⟨poor, same⟩
          · rintro ⟨poor, same⟩
            exact ⟨_, rfl, poor, same⟩
      | error raised =>
          constructor
          · rintro ⟨raw, isRaw, _⟩
            cases isRaw
          · exact False.elim
  | error error =>
      rw [charOf] at asRead
      rw [converts.agree_refused name marker form asRead made]
      cases python.parse text with
      | ok number => exact iff_of_false (fun refused => by cases refused) id
      | error raised => exact iff_of_true rfl trivial

theorem Record.Converts.agree_texts (converts : record.Converts python)
    (name : Text) (marker : Marker) (form : Form) {amount : Option Nat}
    {texts : List Text} (is : record.value amount = .string (.array texts)) :
    Agree
        (python.deliver name (some marker) (record.reply .char form amount))
        (python.deliver name (some marker)
          (record.reply record.native .time amount)) ↔
      CharsCoincide python record marker form (.string (.array texts)) := by
  have made : python.charBytes (record.value amount).toPy =
      .error .typeError := by
    rw [is]
    rfl
  rw [CharsCoincide, ← is]
  cases asRead : record.convert .char (record.value amount) with
  | error error =>
      rw [converts.agree_refused name marker form asRead made]
      exact iff_of_true rfl rfl
  | ok read =>
      have isChar := converts.typed _ _ _ asRead
      cases read with
      | char shape =>
          rw [converts.agree_marked name marker form asRead made]
          constructor
          · rintro ⟨raw, isRaw, _⟩
            cases isRaw
          · intro refused
            cases refused
      | string | short | float | enum | long | double => cases isChar

theorem Record.Converts.agree_chars (converts : record.Converts python)
    (name : Text) (marker : Marker) (form : Form) (amount : Option Nat) :
    Agree
        (python.deliver name (some marker) (record.reply .char form amount))
        (python.deliver name (some marker)
          (record.reply record.native .time amount)) ↔
      CharsCoincide python record marker form (record.value amount) := by
  cases is : record.value amount with
  | string shape =>
      cases shape with
      | scalar text => exact converts.agree_text name marker form is
      | array texts => exact converts.agree_texts name marker form is
  | short shape | enum shape | long shape =>
      apply converts.agree_bytes name marker form
      · rw [is]
        rfl
      · rw [is]
        cases shape <;> rfl
  | char shape =>
      apply converts.agree_bytes name marker form
      · rw [is]
        rfl
      · rw [is]
        exact charBytes_char python shape
  | float shape | double shape =>
      cases shape with
      | scalar number =>
          apply converts.agree_double name marker form
          · rw [is]
            rfl
          · rw [is]
            rfl
      | array numbers =>
          apply converts.agree_doubles name marker form
          · rw [is]
            rfl
          · rw [is]
            rfl

end Serving

section Sample

/-- The floating-point numbers are whole, or NaN.  The cast of an array goes
through a 32-bit integer, as it does on many machines. -/
def samplePython : Python (Option Int) String where
  trunc number := match number with
    | some whole => .ok whole
    | none => .error .valueError
  parse text := match text.toInt? with
    | some whole => .ok whole
    | none => .error .valueError
  uint8 number := match number with
    | some whole =>
        if -2 ^ 31 ≤ whole ∧ whole < 2 ^ 31 then lowByte whole else 0
    | none => 0
  decode raw := String.ofList (raw.map fun byte => Char.ofNat byte.toNat)

def sampleTexts : EpicsValue (Option Int) String → Shape String
  | .string shape => shape
  | .short shape | .enum shape | .long shape => shape.map fun n => n.repr
  | .char shape => shape.map fun byte => byte.toNat.repr
  | .float shape | .double shape =>
      shape.map fun number => (number.map Int.repr).getD "nan"

def sampleCharOf (text : String) : Except Unit UInt8 :=
  match text.toInt? with
  | some whole => .ok (lowByte whole)
  | none => .error ()

/-- The low eight bits, and nothing for NaN. -/
def sampleCharOfDouble (number : Option Int) : UInt8 :=
  lowByte (number.getD 0)

/-- No conversion is needed but to texts and characters. -/
def sampleConvert (dbr : Dbr) (value : EpicsValue (Option Int) String) :
    Except Unit (EpicsValue (Option Int) String) :=
  if dbr = value.dbr then .ok value
  else
    match dbr, chars sampleCharOfDouble value, value with
    | .string, _, value => .ok (.string (sampleTexts value))
    | .char, some shape, _ => .ok (.char shape)
    | .char, none, .string (.scalar text) =>
        (sampleCharOf text).map fun byte => .char (.scalar byte)
    | _, _, _ => .error ()

/-- A channel with one element. -/
def sample (value : EpicsValue (Option Int) String) :
    Record (Option Int) String Unit where
  native := value.dbr
  elementCount := 1
  value _ := value
  typed _ := rfl
  convert := sampleConvert
  charOf := sampleCharOf
  charOfDouble := sampleCharOfDouble
  alarm _ _ := ⟨0, 0, none, none⟩
  timestamp _ _ := (0, 0)
  display dbr form :=
    if form.rich && dbr != .string && dbr != .enum then
      some ⟨"mm", 3, some 10, some (-10), some 9, some (-9), some 8,
        some (-8)⟩
    else none
  control dbr form :=
    if form == .ctrl && dbr != .string && dbr != .enum then
      some ⟨some 10, some (-10)⟩
    else none
  enums dbr form :=
    if form.rich && dbr == .enum then some ["Zero", "One"] else none

/-- The types and classes of the codes. -/
def classOf (code : Nat) : Dbr × Form :=
  (match code % 7 with
    | 0 => .string
    | 1 => .short
    | 2 => .float
    | 3 => .enum
    | 4 => .char
    | 5 => .long
    | _ => .double,
  match code / 7 with
    | 0 => .plain
    | 1 => .sts
    | 2 => .time
    | 3 => .gr
    | _ => .ctrl)

theorem classOf_code (dbr : Dbr) (form : Form) :
    classOf (dbr.code + form.offset) = (dbr, form) := by
  cases dbr <;> cases form <;> rfl

def sampleLibrary (record : Record (Option Int) String Unit) :
    Library (Option Int) String Unit where
  native := record.native
  elementCount := .ok record.elementCount
  get code count :=
    record.reply (classOf code).1 (classOf code).2
      (count.amount record.elementCount)
  update _ readback floatAsString cap :=
    record.reply (monitoredType record.native readback floatAsString) .time
      (capAmount record.elementCount cap)

theorem sampleLibrary_serves (record : Record (Option Int) String Unit) :
    (sampleLibrary record).Serves record where
  native := rfl
  elementCount := rfl
  get dbr form count := by
    dsimp only [sampleLibrary]
    rw [classOf_code]
  update _ _ _ _ := rfl

theorem sampleConvert_typed (dbr : Dbr)
    (value converted : EpicsValue (Option Int) String)
    (made : sampleConvert dbr value = .ok converted) :
    converted.dbr = dbr := by
  unfold sampleConvert at made
  split at made
  · next same =>
      cases made
      exact same.symm
  · split at made
    · cases made
      rfl
    · cases made
      rfl
    · next text _ _ =>
        cases byte : sampleCharOf text with
        | ok read =>
            rw [byte] at made
            cases made
            rfl
        | error error =>
            rw [byte] at made
            cases made
    · cases made

theorem sample_fills (value read : EpicsValue (Option Int) String)
    (name : String) (dbr : Dbr) (form : Form) (field : MetaField) :
    (Snapshot.fromRs name ((sample value).snapshot dbr form read)).has field =
      carries dbr form field := by
  cases field with
  | limit limit =>
      cases limit <;> cases dbr <;> cases form <;> rfl
  | _ => cases dbr <;> cases form <;> rfl

theorem sample_converts (value : EpicsValue (Option Int) String) :
    (sample value).Converts samplePython where
  native value := if_pos rfl
  typed := sampleConvert_typed
  text value := by
    cases value with
    | string shape => exact ⟨_, rfl⟩
    | short | float | enum | char | long | double => exact ⟨_, rfl⟩
  char value shape isShape := by
    cases value with
    | string shape => cases isShape
    | short | float | enum | char | long | double =>
        cases isShape
        rfl
  charOf text := rfl
  finite number whole isWhole := by
    cases number with
    | none => cases isWhole
    | some number =>
        cases isWhole
        rfl
  fills name dbr form read field := sample_fills value read name dbr form field

end Sample

/-- Whatever a channel has, a monitor delivers what a read of the same state
returns, or both fail, exactly when the two coincide. -/
theorem camonitor_agrees_iff {python : Python Double Text}
    {library : Library Double Text Error} {record : Record Double Text Error}
    (converts : record.Converts python)
    (serves : library.Serves record) (name : Text) (form : Form)
    (datatype : Datatype) (accepted : datatype.monitored = true)
    (count : Int) (mask : Option Nat) :
    Agree (caget python library name form datatype count)
        (camonitor python library name form datatype count mask) ↔
      Coincide python record datatype form
        (record.value (record.amount count)) := by
  rw [caget_reply serves name form accepted,
    camonitor_reply serves name form accepted]
  generalize record.amount count = amount
  cases datatype with
  | native => exact converts.agree_native name form amount
  | str => exact converts.agree_str name form amount
  | enumStr => exact converts.agree_enumStr name form amount
  | marker marker =>
      have agree := converts.agree_chars name marker form amount
      rw [← monitoredType_native record.native] at agree
      exact agree
  | int | float | bool | base | dtype | strDtype | other => cases accepted

/-- A read and an update of a channel with one element. -/
def SampleAgrees (value : EpicsValue (Option Int) String) (form : Form)
    (datatype : Datatype) : Prop :=
  Agree
    (caget samplePython (sampleLibrary (sample value)) "demo" form datatype 0)
    (camonitor samplePython (sampleLibrary (sample value)) "demo" form
      datatype 0 none)

theorem camonitor_agrees_long :
    SampleAgrees (.long (.scalar 7)) .time .native ↔
      Coincide samplePython (sample (.long (.scalar 7))) .native .time
        (.long (.scalar 7)) :=
  camonitor_agrees_iff (sample_converts _) (sampleLibrary_serves _)
    "demo" .time .native rfl 0 none

/-- A long stays a number, the units of a control read are not there, a NaN
has no low eight bits, and numpy casts a number that is out of range as it
likes. -/
theorem camonitor_disagrees :
    ¬SampleAgrees (.long (.scalar 7)) .time .str ∧
      ¬SampleAgrees (.long (.scalar 7)) .ctrl .native ∧
      ¬SampleAgrees (.double (.scalar none)) .time (.marker .charStr) ∧
      ¬SampleAgrees (.double (.array [some 4294967361])) .time
        (.marker .charBytes) := by
  refine ⟨?_, ?_, ?_, ?_⟩
  · rintro ⟨value, _⟩
    cases value
  · rintro ⟨_, fields⟩
    cases fields .units
  · exact id
  · rintro ⟨same, _⟩
    revert same
    decide

end Repics.Ca
