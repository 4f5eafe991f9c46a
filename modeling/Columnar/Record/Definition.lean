import Columnar.DataType.Parser
import Columnar.Record.Binding

/-! Record definitions: records whose column types are written as texts. -/
namespace Columnar

structure FieldDefinition where
  name : String
  column : Option String
  type : String
  getter : Visibility
  setter : Option Visibility

structure RecordDefinition where
  name : String
  fields : List FieldDefinition
  plainFields : List String

/-- The member that a field definition declares. The column is called like the member unless the
definition says otherwise. -/
def FieldDefinition.member (f : FieldDefinition) : Except SchemaError MemberDescriptor :=
  match DataType.parse f.type with
  | .ok type => .ok ⟨f.name, f.column.getD f.name, f.getter, f.setter, .column type⟩
  | .error cause => .error (.badType f.name cause)

namespace RecordDefinition

/-- Reads the types of all fields before any other rule is looked at. -/
def descriptor (d : RecordDefinition) : Except SchemaError RecordDescriptor :=
  if d.plainFields.isEmpty then (d.fields.mapM FieldDefinition.member).map (⟨d.name, ·, []⟩)
  else .error (.fieldsNotAllowed d.name d.plainFields)

def shape (d : RecordDefinition) : Except SchemaError RecordShape := do reflect (← d.descriptor)

def bind (d : RecordDefinition) (tableAlias : Option String) : Except SchemaError (List BoundField) :=
  d.shape.map (·.bind (.ofAlias tableAlias))

end RecordDefinition

end Columnar
