import Columnar.DataType.Basic
import Columnar.Number.Digits
import Columnar.Text.Quoted

/-! The text of a descriptor in expressions and casts. Nullability has no written form. -/
namespace Columnar.DataType

/-- The text of a type that holds no others. -/
def leafText : DataType → String
  | boolean => "boolean"
  | byte => "tinyint"
  | short => "smallint"
  | integer => "int"
  | long => "bigint"
  | float => "float"
  | double => "double"
  | decimal p s => "decimal(" ++ Number.natural p ++ "," ++ Number.natural s ++ ")"
  | string => "string"
  | binary => "binary"
  | date => "date"
  | timestamp => "timestamp"
  | interval => "interval"
  | _ => ""

mutual

def text : DataType → String
  | array element _ => "array<" ++ element.text ++ ">"
  | map key value _ => "map<" ++ key.text ++ "," ++ value.text ++ ">"
  | struct fields => "struct<" ++ fieldsText fields ++ ">"
  | t => t.leafText

def fieldText : StructField → String
  | .mk name type _ => Text.quoteIdentifier name false ++ ":" ++ type.text

def fieldsText : List StructField → String
  | [] => ""
  | [f] => fieldText f
  | f :: fs => fieldText f ++ "," ++ fieldsText fs

end

end Columnar.DataType
