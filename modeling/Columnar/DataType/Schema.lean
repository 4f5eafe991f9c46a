import Columnar.DataType.Parser
import Columnar.DataType.Printer
import Columnar.Json.Printer

/-! The JSON form of a descriptor, in which nullability is written. Reading supplies what is missing:
a flag that is absent or not a boolean is true. -/
namespace Columnar.DataType

/-- The JSON name of a type that holds no others. -/
def jsonName : DataType → String
  | byte => "byte"
  | short => "short"
  | integer => "integer"
  | long => "long"
  | t => t.leafText

mutual

def toJson : DataType → Json
  | array element containsNull =>
    .object [("type", .text "array"), ("elementType", element.toJson),
      ("containsNull", .bool containsNull)]
  | map key value valueContainsNull =>
    .object [("type", .text "map"), ("keyType", key.toJson), ("valueType", value.toJson),
      ("valueContainsNull", .bool valueContainsNull)]
  | struct fields => .object [("type", .text "struct"), ("fields", .list (fieldsToJson fields))]
  | t => .text t.jsonName

def fieldToJson : StructField → Json
  | .mk name type nullable =>
    .object [("name", .text name), ("type", type.toJson), ("nullable", .bool nullable),
      ("metadata", .object [])]

def fieldsToJson : List StructField → List Json
  | [] => []
  | f :: fs => fieldToJson f :: fieldsToJson fs

end

/-- A flag of an object, true unless it says otherwise. -/
def flag (key : String) (members : List (String × Json)) : Bool :=
  ((Json.lookup key members).bind Json.bool?).getD true

def kind (members : List (String × Json)) : String :=
  ((Json.lookup "type" members).bind Json.text?).getD ""

def required (whole : Json) (key : String) :
    Option (Except TypeError DataType) → Except TypeError DataType
  | some child => child
  | none => .error (.malformed whole.compact (.missing key))

mutual

/-- Reads the JSON form. The first fault in reading order is reported. -/
def ofJson : Json → Except TypeError DataType
  | .text name => parse name
  | .object members =>
    match kind members with
    | "array" => do
      let element ← required (.object members) "elementType" (child "elementType" members)
      .ok (array element (flag "containsNull" members))
    | "map" => do
      let key ← required (.object members) "keyType" (child "keyType" members)
      let value ← required (.object members) "valueType" (child "valueType" members)
      .ok (map key value (flag "valueContainsNull" members))
    | "struct" =>
      match children members with
      | some fields => fields.map struct
      | none => .error (.malformed (Json.object members).compact (.missing "fields"))
    | other => .error (.malformed (Json.object members).compact (.unknownKind other))
  | other => .error (.malformed other.compact .notTextOrObject)

def child (key : String) : List (String × Json) → Option (Except TypeError DataType)
  | [] => none
  | (k, v) :: rest => if k = key then some (ofJson v) else child key rest

/-- The fields of a struct, if there is a list of them. -/
def children : List (String × Json) → Option (Except TypeError (List StructField))
  | [] => none
  | (k, v) :: rest =>
    if k = "fields" then
      match v with
      | .list items => some (fieldsOfJson items)
      | _ => none
    else children rest

def fieldsOfJson : List Json → Except TypeError (List StructField)
  | [] => .ok []
  | j :: rest => do
    let field ← fieldOfJson j
    let fields ← fieldsOfJson rest
    .ok (field :: fields)

def fieldOfJson : Json → Except TypeError StructField
  | .object members =>
    match (Json.lookup "name" members).bind Json.text? with
    | none => .error (.malformed (Json.object members).compact .fieldWithoutName)
    | some name =>
      match child "type" members with
      | none => .error (.malformed (Json.object members).compact .fieldWithoutType)
      | some type => type.map fun t => .mk name t (flag "nullable" members)
  | other => .error (.malformed other.compact .fieldWithoutName)

end

end Columnar.DataType
