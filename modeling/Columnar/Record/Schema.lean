import Columnar.Column.Eval
import Columnar.Column.ShapeCache
import Columnar.Record.Binding

/-! The schema of rows shaped like a declared record, under an alias or under none. -/
namespace Columnar

structure Schema where
  record : RecordType
  shape : RecordShape
  tableAlias : Option String

namespace Schema

/-- The schema of a record, if the record has a shape. -/
def of (record : RecordType) (tableAlias : Option String) : Except SchemaError Schema :=
  record.shape.map (⟨record, ·, tableAlias⟩)

def withAlias (s : Schema) (tableAlias : String) : Schema := { s with tableAlias := some tableAlias }

def unaliased (s : Schema) : Schema := { s with tableAlias := none }

/-- The fields as columns, under the alias if there is one. -/
def fields (s : Schema) : List BoundField := s.shape.bind (.ofAlias s.tableAlias)

def fieldNames (s : Schema) : List String := s.shape.fieldNames

def dataType (s : Schema) : DataType := s.shape.dataType

/-- Qualifies the fields in an expression text by the alias. -/
def qualify (s : Schema) (text : String) : String :=
  match s.tableAlias with
  | some tableAlias => Columnar.qualify tableAlias s.fieldNames text
  | none => text

/-- The members as variables, each under its name after a common stem. -/
def environment (s : Schema) (stem : String) : Environment :=
  List.zipWith (fun m f => (stem ++ m.name, ⟨.column m.type, f.expr⟩)) s.record.members s.fields

end Schema

end Columnar
