import Columnar.Config.Basic
import Columnar.Yaml.Reader

/-! Where settings come from: the variables of an environment, or a YAML text. What is missing has its
default, and what is read has to be valid. -/
namespace Columnar

/-- What keeps the text of a variable from being a number or a flag. -/
inductive VariableFault
  | emptyNumber
  | badDigit
  | numberTooLarge
  | notFlag
  deriving DecidableEq, Repr

def VariableFault.message : VariableFault → String
  | emptyNumber => "cannot parse integer from empty string"
  | badDigit => "invalid digit found in string"
  | numberTooLarge => "number too large to fit in target type"
  | notFlag => "provided string was not `true` or `false`"

inductive ConfigError
  | badVariable (name value : String) (fault : VariableFault)
  | unreadable (cause : String)
  | unparsable (content cause : String)
  | invalid (violations : List Config.Violation)

namespace Config

def Setting.name : Setting → String
  | lambdaPrefix => "lambda_prefix"
  | lambdaSuffixLength => "lambda_suffix_len"

def Violation.code : Violation → String
  | prefixLength => "length"
  | prefixNotIdentifier => "lambda_prefix_not_identifier"
  | suffixLength => "range"

def Violation.text (v : Violation) : String :=
  v.setting.name ++ ": " ++ v.message?.getD ("Validation error: " ++ v.code)

end Config

namespace ConfigError

def violationsText (violations : List Config.Violation) : String :=
  "\n".intercalate (violations.map Config.Violation.text)

/-- The reasons for an error, the nearest first. -/
def causes : ConfigError → List String
  | badVariable _ _ fault => [fault.message]
  | unreadable cause => [cause]
  | unparsable _ cause => [cause]
  | invalid violations => [violationsText violations]

def parseText (field value cause : String) : String :=
  "Parse error for " ++ field ++ ": " ++ value ++ " - " ++ cause

def message : ConfigError → String
  | badVariable name value fault => parseText name value fault.message
  | unreadable cause => parseText "yaml_file" "file read failed" cause
  | unparsable content cause => parseText "yaml_content" content cause
  | invalid violations => "Validation error: " ++ violationsText violations

end ConfigError

namespace Config

/-- Reads digits from the left until one is bad or the number outgrows a word of 64 bits. -/
def wordOf (n : Nat) : List Char → Except VariableFault Nat
  | [] => .ok n
  | c :: cs =>
    if c.isDigit then
      let m := 10 * n + (c.toNat - '0'.toNat)
      if m < UInt64.size then wordOf m cs else .error .numberTooLarge
    else .error .badDigit

/-- Reads a number with a plus sign allowed in front. -/
def readNumber (text : String) : Except VariableFault Nat :=
  match text.toList with
  | [] => .error .emptyNumber
  | ['+'] => .error .badDigit
  | '+' :: ds => wordOf 0 ds
  | ds => wordOf 0 ds

def readFlag (text : String) : Except VariableFault Bool :=
  match text with
  | "true" => .ok true
  | "false" => .ok false
  | _ => .error .notFlag

/-- The value of a variable that is set, and the default of one that is not. -/
def valueOf {α : Type} (environment : String → Option String) (name : String)
    (read : String → Except VariableFault α) (default : α) : Except ConfigError α :=
  match environment name with
  | none => .ok default
  | some text => (read text).mapError (.badVariable name text)

/-- The settings if they are valid. -/
def validate (c : Config) : Except ConfigError Config :=
  match c.violations with
  | [] => .ok c
  | broken => .error (.invalid broken)

def prefixVariable : String := "TYPEDFRAME_LAMBDA_PREFIX"

def suffixVariable : String := "TYPEDFRAME_LAMBDA_SUFFIX_LEN"

def quoteVariable : String := "TYPEDFRAME_QUOTE_IDENTIFIERS"

def variableNames : List String := [prefixVariable, suffixVariable, quoteVariable]

def ofEnvironment (environment : String → Option String) : Except ConfigError Config := do
  let defaults : Config := {}
  let stem := (environment prefixVariable).getD defaults.lambdaPrefix
  let length ← valueOf environment suffixVariable readNumber defaults.lambdaSuffixLength
  let quote ← valueOf environment quoteVariable readFlag defaults.quoteIdentifiers
  validate ⟨stem, length, quote⟩

def ofYaml? (y : Yaml) : Option Config := do
  let defaults : Config := {}
  match ← y.fields? ["lambda_prefix", "lambda_suffix_len", "quote_identifiers"] with
  | [stem, length, quote] => do
    let stem ← Yaml.orElse Yaml.text? (some defaults.lambdaPrefix) stem
    let length ← Yaml.orElse Yaml.natural? (some defaults.lambdaSuffixLength) length
    let quote ← Yaml.orElse Yaml.flag? (some defaults.quoteIdentifiers) quote
    some ⟨stem, length, quote⟩
  | _ => none

/-- Reads settings from the content of a YAML file, or from the reason why it was not read. -/
def ofFile (file : Except String String) : Except ConfigError Config :=
  match file with
  | .error cause => .error (.unreadable cause)
  | .ok content =>
    match (Yaml.parse? content).bind ofYaml? with
    | some c => validate c
    | none => .error (.unparsable content "not a configuration")

end Config

end Columnar
