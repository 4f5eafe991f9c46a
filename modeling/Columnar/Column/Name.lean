import Columnar.Column.Type
import Columnar.Literal.Json
import Columnar.Text.Quoted

/-! Names of column types. A struct is called by the name of its record. -/
namespace Columnar.ColumnType

/-- Reads the name of a column type in front of a text; `records` knows the records. The fuel bounds
the nesting. -/
def readName (records : String → Option RecordType) :
    Nat → List Char → Option (ColumnType × List Char)
  | 0, _ => none
  | fuel + 1, cs => do
    let word := String.ofList (cs.takeWhile Text.isWord)
    match word, cs.dropWhile Text.isWord with
    | "array", '<' :: rest =>
      match ← readName records fuel rest with
      | (element, '>' :: rest) => some (array element, rest)
      | _ => none
    | "map", '<' :: rest =>
      match ← readName records fuel rest with
      | (leaf key, ',' :: rest) =>
        match ← readName records fuel rest with
        | (value, '>' :: rest) => some (map key value, rest)
        | _ => none
      | _ => none
    | word, rest =>
      match Leaf.ofName? word with
      | some l => some (leaf l, rest)
      | none => (records word).map (struct ·, rest)

def ofName? (records : String → Option RecordType) (name : String) : Option ColumnType :=
  match readName records (name.length + 1) name.toList with
  | some (type, []) => some type
  | _ => none

end Columnar.ColumnType
