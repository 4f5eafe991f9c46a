import Columnar.DataType.Basic
import Columnar.DataType.Error

/-! What a record type declares about itself, and why a declaration is refused. -/
namespace Columnar

inductive Visibility
  | isPublic
  | isPrivate
  deriving DecidableEq, Repr

inductive MemberKind
  | column (type : DataType)
  | typeDescriptor
  | other (type : String)

/-- A member of a record. Its field is the name of the column it stands for. -/
structure MemberDescriptor where
  name : String
  field : String
  getter : Visibility := .isPublic
  setter : Option Visibility := some .isPrivate
  kind : MemberKind

structure RecordDescriptor where
  name : String
  members : List MemberDescriptor
  plainFields : List String := []

/-- What keeps a member from being a column. -/
inductive MemberFault
  | privateGetter
  | noSetter
  | publicSetter
  | notColumn (type : String)
  deriving DecidableEq, Repr

inductive SchemaError
  | fieldsNotAllowed (record : String) (fields : List String)
  | empty (record : String)
  | invalidMember (record member : String) (fault : MemberFault)
  | duplicateField (record field : String)
  | badType (member : String) (cause : TypeError)
  | unmapped (cause : TypeError)
  | unreadable (detail : String)
  | unparsable (detail : String)

def MemberFault.message : MemberFault → String
  | privateGetter => "getter is not public"
  | noSetter => "no setter"
  | publicSetter => "setter is public"
  | notColumn type => "`" ++ type ++ "` is not a column type"

def SchemaError.message : SchemaError → String
  | fieldsNotAllowed record fields =>
    "Fields are not supported in schema `" ++ record ++ "`; found plain field(s): " ++
      ", ".intercalate fields
  | empty record => "Schema `" ++ record ++ "` is empty; declare at least one column member"
  | invalidMember record member fault =>
    "Member `" ++ member ++ "` of schema `" ++ record ++
      "` must be a column with a public getter and a private setter: " ++ fault.message
  | duplicateField record field =>
    "Schema `" ++ record ++ "` declares field `" ++ field ++ "` more than once"
  | badType member cause => "Invalid type for member `" ++ member ++ "`: " ++ cause.message
  | unmapped cause => cause.message
  | unreadable detail => "Failed to read schema definition: " ++ detail
  | unparsable detail => "Failed to parse schema definition: " ++ detail

end Columnar
