import Columnar.Record.Definition
import Columnar.Yaml.Reader

/-! Record definitions in YAML. -/
namespace Columnar

def Visibility.ofName? : String → Option Visibility
  | "public" => some isPublic
  | "private" => some isPrivate
  | _ => none

def Visibility.ofYaml? (y : Yaml) : Option Visibility := y.text?.bind ofName?

/-- Reads a field definition. A missing setter is private; one that is null is no setter. -/
def FieldDefinition.ofYaml? (y : Yaml) : Option FieldDefinition := do
  match ← y.fields? ["name", "column", "type", "getter", "setter"] with
  | [name, column, type, getter, setter] => do
    let name ← Yaml.orElse Yaml.text? none name
    let column ← Yaml.orElse (Yaml.optional? Yaml.text?) (some none) column
    let type ← Yaml.orElse Yaml.text? none type
    let getter ← Yaml.orElse Visibility.ofYaml? (some .isPublic) getter
    let setter ← Yaml.orElse (Yaml.optional? Visibility.ofYaml?) (some (some .isPrivate)) setter
    some ⟨name, column, type, getter, setter⟩
  | _ => none

namespace RecordDefinition

/-- Reads a record definition; both lists of fields may be missing. -/
def ofYaml? (y : Yaml) : Option RecordDefinition := do
  match ← y.fields? ["name", "fields", "plain_fields"] with
  | [name, fields, plainFields] => do
    let name ← Yaml.orElse Yaml.text? none name
    let fields ← Yaml.orElse Yaml.items? (some []) fields
    let fields ← fields.mapM FieldDefinition.ofYaml?
    let plainFields ← Yaml.orElse Yaml.items? (some []) plainFields
    let plainFields ← plainFields.mapM Yaml.text?
    some ⟨name, fields, plainFields⟩
  | _ => none

/-- Reads a record definition from the content of a file, or from the reason why it was not read. -/
def ofFile (file : Except String String) : Except SchemaError RecordDefinition :=
  match file with
  | .error cause => .error (.unreadable cause)
  | .ok content =>
    match (Yaml.parse? content).bind ofYaml? with
    | some d => .ok d
    | none => .error (.unparsable "not a record definition")

end RecordDefinition

end Columnar
