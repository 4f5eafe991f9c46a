import Columnar.Record.Descriptor
import Columnar.Text.Case

/-! The shape of a record: one nullable field for each member, in declaration order, no two with the
same name. A declaration that breaks a rule has no shape; the first violation is reported. -/
namespace Columnar

structure RecordShape where
  name : String
  fields : List StructField

namespace RecordShape

def dataType (s : RecordShape) : DataType := .struct s.fields

def fieldNames (s : RecordShape) : List String := s.fields.map StructField.name

/-- The field of a name, ignoring ASCII case. -/
def field? (s : RecordShape) (name : String) : Option StructField :=
  s.fields.find? fun f => Text.sameName f.name name

end RecordShape

namespace MemberDescriptor

def isTypeDescriptor (m : MemberDescriptor) : Bool :=
  match m.kind with
  | .typeDescriptor => true
  | _ => false

/-- The column type of a member; a member that is not a column is refused for the first rule that it
breaks. -/
def columnType (m : MemberDescriptor) : Except MemberFault DataType :=
  if m.getter = .isPrivate then .error .privateGetter
  else match m.setter with
    | none => .error .noSetter
    | some .isPublic => .error .publicSetter
    | some .isPrivate =>
      match m.kind with
      | .column type => .ok type
      | .other type => .error (.notColumn type)
      | .typeDescriptor => .error (.notColumn m.name)

end MemberDescriptor

/-- The fields of the members of a record, given the lower-case names of the fields in front. -/
def reflectMembers (record : String) :
    List String → List MemberDescriptor → Except SchemaError (List StructField)
  | _, [] => .ok []
  | seen, m :: rest =>
    match m.columnType with
    | .error fault => .error (.invalidMember record m.name fault)
    | .ok type =>
      if Text.lower m.field ∈ seen then .error (.duplicateField record m.field)
      else (reflectMembers record (Text.lower m.field :: seen) rest).map (.mk m.field type true :: ·)

def reflect (d : RecordDescriptor) : Except SchemaError RecordShape :=
  if d.plainFields.isEmpty then
    match d.members.filter (!·.isTypeDescriptor) with
    | [] => .error (.empty d.name)
    | members => (reflectMembers d.name [] members).map (⟨d.name, ·⟩)
  else .error (.fieldsNotAllowed d.name d.plainFields)

end Columnar
