import Columnar.Text.Visible
import Columnar.Number.Digits

/-! Why a text, a JSON value or a host type has no descriptor. -/
namespace Columnar

/-- What is wrong with a malformed text or value. Offsets count bytes from the start of the text. -/
inductive TypeFault
  | unknownName
  | expectedName (offset : Nat)
  | unterminatedName
  | expected (wanted : Char) (offset : Nat) (found : Option Char)
  | badNumber (text : String)
  | badDecimal (precision scale : Nat)
  | trailing (offset : Nat)
  | missing (key : String)
  | fieldWithoutName
  | fieldWithoutType
  | unknownKind (kind : String)
  | notTextOrObject

/-- A host type may have no counterpart at all, or one that cannot be sent to the engine. -/
inductive TypeError
  | unsupported (name : String)
  | hostOnly (name : String)
  | malformed (input : String) (fault : TypeFault)

def TypeFault.message : TypeFault → String
  | unknownName => "unknown type name"
  | expectedName offset => "expected a name at offset " ++ Number.natural offset
  | unterminatedName => "unterminated quoted identifier"
  | expected wanted offset found =>
    "expected `" ++ wanted.toString ++ "` at offset " ++ Number.natural offset ++ ", found " ++
      Text.showFound found
  | badNumber text => "`" ++ text ++ "` is not a valid precision"
  | badDecimal precision scale =>
    "invalid decimal precision/scale (" ++ Number.natural precision ++ "," ++
      Number.natural scale ++ ")"
  | trailing offset => "unexpected trailing input at offset " ++ Number.natural offset
  | missing key => "missing `" ++ key ++ "`"
  | fieldWithoutName => "struct field without a name"
  | fieldWithoutType => "struct field without a type"
  | unknownKind kind => "unknown complex type `" ++ kind ++ "`"
  | notTextOrObject => "expected a string or an object"

def TypeError.message : TypeError → String
  | unsupported name => "Type `" ++ name ++ "` has no corresponding engine type"
  | hostOnly name =>
    "Type `" ++ name ++ "` is supported only outside of interop and cannot be sent to the engine"
  | malformed input fault => "Malformed type name `" ++ input ++ "`: " ++ fault.message

end Columnar
