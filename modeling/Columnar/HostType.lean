import Columnar.DataType.Basic
import Columnar.DataType.Error

/-! The shapes of a program's own data and their engine descriptors. An option changes nothing but
the flag of the container it stands in; a shape without a counterpart is refused by name. -/
namespace Columnar

inductive HostType
  | bool
  | int8
  | int16
  | int32
  | int64
  | uint8
  | uint16
  | uint32
  | uint64
  | float32
  | float64
  | decimal
  | string
  | char
  | bytes
  | date
  | datetime
  | time
  | uuid
  | interval
  | optional (inner : HostType)
  | sequence (element : HostType)
  | dictionary (key value : HostType)
  | record (members : List (String × HostType))

namespace HostType

def name : HostType → String
  | bool => "bool"
  | int8 => "i8"
  | int16 => "i16"
  | int32 => "i32"
  | int64 => "i64"
  | uint8 => "u8"
  | uint16 => "u16"
  | uint32 => "u32"
  | uint64 => "u64"
  | float32 => "f32"
  | float64 => "f64"
  | decimal => "decimal"
  | string => "string"
  | char => "char"
  | bytes => "bytes"
  | date => "date"
  | datetime => "datetime"
  | time => "time"
  | uuid => "uuid"
  | interval => "interval"
  | optional inner => "Option<" ++ inner.name ++ ">"
  | sequence element => "Vec<" ++ element.name ++ ">"
  | dictionary key value => "Map<" ++ key.name ++ ", " ++ value.name ++ ">"
  | record _ => "record"

def isOptional : HostType → Bool
  | optional _ => true
  | _ => false

/-- A growable sequence. One of unsigned bytes is a byte string, not an array of small numbers. -/
def listOf : HostType → HostType
  | uint8 => bytes
  | element => sequence element

mutual

/-- The descriptor of a shape. Unsigned numbers take the next wider signed type. -/
def descriptor : HostType → Except TypeError DataType
  | bool => .ok .boolean
  | int8 => .ok .byte
  | int16 | uint8 => .ok .short
  | int32 | uint16 => .ok .integer
  | int64 => .ok .long
  | float32 => .ok .float
  | float64 => .ok .double
  | decimal => .ok .hostDecimal
  | string => .ok .string
  | bytes => .ok .binary
  | date => .ok .date
  | datetime => .ok .timestamp
  | interval => .ok .interval
  | uint32 => .error (.unsupported uint32.name)
  | uint64 => .error (.unsupported uint64.name)
  | char => .error (.hostOnly char.name)
  | time => .error (.hostOnly time.name)
  | uuid => .error (.hostOnly uuid.name)
  | optional inner => inner.descriptor
  | sequence element => element.descriptor.map fun t => .array t element.isOptional
  | dictionary key value =>
    if key.isOptional then .error (.unsupported (dictionary key value).name)
    else do
      let k ← key.descriptor
      let v ← value.descriptor
      .ok (.map k v value.isOptional)
  | record members => (memberDescriptors members).map .struct

def memberDescriptors : List (String × HostType) → Except TypeError (List StructField)
  | [] => .ok []
  | (name, member) :: rest => do
    let type ← member.descriptor
    let fields ← memberDescriptors rest
    .ok (.mk name type member.isOptional :: fields)

end

end HostType

end Columnar
