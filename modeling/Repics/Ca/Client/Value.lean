import Mathlib.Data.UInt

/-!
# Augmented values

The client library decodes a reply, `Snapshot` keeps it for Python, and
`augment` makes it a Python value that has the metadata.  Floating-point
numbers and texts are parameters; `Python` has what is used of them.
-/

namespace Repics.Ca

/-- The base types of the wire. -/
inductive Dbr where
  | string
  | short
  | float
  | enum
  | char
  | long
  | double
  deriving DecidableEq

/-- The classes that a read may ask for. -/
inductive Form where
  | plain
  | sts
  | time
  | gr
  | ctrl
  deriving DecidableEq

/-- The requests that make a text or bytes of a read as `DBR_CHAR`. -/
inductive Marker where
  | charStr
  | charBytes
  | charUnicode
  deriving DecidableEq

/-- What Python raises. -/
inductive Raised where
  | typeError
  | valueError
  | overflowError
  deriving DecidableEq

/-- A `CaError`, or what Python raises. -/
inductive Failure (Error : Type) where
  | ca (error : Error)
  | raised (raised : Raised)

/-- `DBR_NAMES`. -/
def Dbr.name : Dbr → String
  | .string => "string"
  | .short => "short"
  | .float => "float"
  | .enum => "enum"
  | .char => "char"
  | .long => "long"
  | .double => "double"

/-- The code of a base type. -/
def Dbr.code : Dbr → Nat
  | .string => 0
  | .short => 1
  | .float => 2
  | .enum => 3
  | .char => 4
  | .long => 5
  | .double => 6

/-- `_FORM_OFFSET`. -/
def Form.offset : Form → Nat
  | .plain => 0
  | .sts => 7
  | .time => 14
  | .gr => 21
  | .ctrl => 28

/-- One element, or an array of them. -/
inductive Shape (Element : Type) where
  | scalar (element : Element)
  | array (elements : List Element)
  deriving DecidableEq

namespace Shape

variable {Element Other : Type}

def elements : Shape Element → List Element
  | scalar element => [element]
  | array elements => elements

def count (shape : Shape Element) : Nat :=
  shape.elements.length

def map (convert : Element → Other) : Shape Element → Shape Other
  | scalar element => scalar (convert element)
  | array elements => array (elements.map convert)

end Shape

/-- The values of the wire types. -/
inductive EpicsValue (Double Text : Type) where
  | string (shape : Shape Text)
  | short (shape : Shape Int)
  | float (shape : Shape Double)
  | enum (shape : Shape Int)
  | char (shape : Shape UInt8)
  | long (shape : Shape Int)
  | double (shape : Shape Double)

structure Alarm where
  status : Nat
  severity : Nat
  ackt : Option Nat
  acks : Option Nat

structure DisplayInfo (Double Text : Type) where
  units : Text
  precision : Int
  upperDispLimit : Double
  lowerDispLimit : Double
  upperAlarmLimit : Double
  lowerAlarmLimit : Double
  upperWarningLimit : Double
  lowerWarningLimit : Double

structure ControlInfo (Double : Type) where
  upperCtrlLimit : Double
  lowerCtrlLimit : Double

/-- A snapshot of the client library. -/
structure RsSnapshot (Double Text : Type) where
  value : EpicsValue Double Text
  alarm : Alarm
  timestamp : Nat × Nat
  display : Option (DisplayInfo Double Text)
  control : Option (ControlInfo Double)
  enums : Option (List Text)

inductive DType where
  | float64
  | float32
  | int32
  | int16
  | uint16
  | uint8
  deriving DecidableEq

/-- The elements of a numpy array. -/
inductive Items (Double : Type) where
  | ints (dtype : DType) (elements : List Int)
  | floats (dtype : DType) (elements : List Double)
  deriving DecidableEq

/-- A Python value; a snapshot has none that is `bytes`. -/
inductive PyValue (Double Text : Type) where
  | float (number : Double)
  | int (number : Int)
  | str (text : Text)
  | ndarray (items : Items Double)
  | list (texts : List Text)
  | bytes (raw : List UInt8)
  deriving DecidableEq

inductive Limit where
  | upperDisp
  | lowerDisp
  | upperAlarm
  | lowerAlarm
  | upperWarning
  | lowerWarning
  | upperCtrl
  | lowerCtrl
  deriving DecidableEq

/-- A read of a channel, with `None` for what its class does not carry. -/
structure Snapshot (Double Text : Type) where
  name : Text
  value : PyValue Double Text
  dbr : Dbr
  elementCount : Nat
  status : Nat
  severity : Nat
  rawStamp : Nat × Nat
  units : Option Text
  precision : Option Int
  limit : Limit → Option Double
  enums : Option (List Text)
  ackt : Option Nat
  acks : Option Nat

/-- A value of Python with the snapshot it was made from. -/
structure Augmented (Double Text : Type) where
  value : PyValue Double Text
  snap : Snapshot Double Text

/-- What the code uses of Python and numpy: `int` of a floating-point number
and of a text, the cast of an array to `uint8`, and the decoding of bytes. -/
structure Python (Double Text : Type) where
  trunc : Double → Except Raised Int
  parse : Text → Except Raised Int
  uint8 : Double → UInt8
  decode : List UInt8 → Text

variable {Double Text : Type}

namespace EpicsValue

/-- `db_field_type` and `ca_wire_type`. -/
def dbr : EpicsValue Double Text → Dbr
  | string _ => .string
  | short _ => .short
  | float _ => .float
  | enum _ => .enum
  | char _ => .char
  | long _ => .long
  | double _ => .double

def count : EpicsValue Double Text → Nat
  | string shape => shape.count
  | short shape | enum shape | long shape => shape.count
  | float shape | double shape => shape.count
  | char shape => shape.count

def toPy : EpicsValue Double Text → PyValue Double Text
  | string (.scalar text) => .str text
  | short (.scalar number) => .int number
  | float (.scalar number) => .float number
  | enum (.scalar number) => .int number
  | char (.scalar byte) => .int byte.toNat
  | long (.scalar number) => .int number
  | double (.scalar number) => .float number
  | short (.array elements) => .ndarray (.ints .int16 elements)
  | float (.array elements) => .ndarray (.floats .float32 elements)
  | enum (.array elements) => .ndarray (.ints .uint16 elements)
  | double (.array elements) => .ndarray (.floats .float64 elements)
  | long (.array elements) => .ndarray (.ints .int32 elements)
  | char (.array bytes) =>
      .ndarray (.ints .uint8 (bytes.map fun byte => byte.toNat))
  | string (.array texts) => .list texts

end EpicsValue

namespace RsSnapshot

/-- The limits of the display and of the control information. -/
def limit (snap : RsSnapshot Double Text) : Limit → Option Double
  | .upperDisp => snap.display.map DisplayInfo.upperDispLimit
  | .lowerDisp => snap.display.map DisplayInfo.lowerDispLimit
  | .upperAlarm => snap.display.map DisplayInfo.upperAlarmLimit
  | .lowerAlarm => snap.display.map DisplayInfo.lowerAlarmLimit
  | .upperWarning => snap.display.map DisplayInfo.upperWarningLimit
  | .lowerWarning => snap.display.map DisplayInfo.lowerWarningLimit
  | .upperCtrl => snap.control.map ControlInfo.upperCtrlLimit
  | .lowerCtrl => snap.control.map ControlInfo.lowerCtrlLimit

end RsSnapshot

def Snapshot.fromRs (name : Text) (snap : RsSnapshot Double Text) :
    Snapshot Double Text where
  name := name
  value := snap.value.toPy
  dbr := snap.value.dbr
  elementCount := snap.value.count
  status := snap.alarm.status
  severity := snap.alarm.severity
  rawStamp := snap.timestamp
  units := snap.display.map DisplayInfo.units
  precision := snap.display.map DisplayInfo.precision
  limit := snap.limit
  enums := snap.enums
  ackt := snap.alarm.ackt
  acks := snap.alarm.acks

/-- `& 0xFF`. -/
def lowByte (number : Int) : UInt8 :=
  UInt8.ofInt number

/-- The bytes before the first NUL. -/
def untilNul (raw : List UInt8) : List UInt8 :=
  raw.takeWhile (· ≠ 0)

namespace Python

variable (python : Python Double Text)

/-- `astype(uint8)`. -/
def astype : Items Double → List UInt8
  | .ints _ elements => elements.map lowByte
  | .floats _ elements => elements.map python.uint8

/-- `int`; an array must have one element. -/
def int : PyValue Double Text → Except Raised Int
  | .float number => python.trunc number
  | .int number => .ok number
  | .str text => python.parse text
  | .ndarray (.ints _ [number]) => .ok number
  | .ndarray (.floats _ [number]) => python.trunc number
  | .ndarray _ | .list _ | .bytes _ => .error .typeError

/-- `_char_bytes`. -/
def charBytes : PyValue Double Text → Except Raised (List UInt8)
  | .ndarray items => .ok (untilNul (python.astype items))
  | value => (python.int value).map fun number => untilNul [lowByte number]

/-- What a marker makes of the bytes. -/
def mark : Marker → List UInt8 → PyValue Double Text
  | .charStr, raw | .charUnicode, raw => .str (python.decode raw)
  | .charBytes, raw => .bytes raw

def augment (snap : Snapshot Double Text) :
    Option Marker → Except Raised (Augmented Double Text)
  | some marker => (python.charBytes snap.value).map fun raw =>
      { value := python.mark marker raw, snap := snap }
  | none => .ok { value := snap.value, snap := snap }

end Python

end Repics.Ca
