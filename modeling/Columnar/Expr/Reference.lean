import Columnar.Expr.Basic
import Columnar.Text.Alphanumeric

/-! The expression that a free text refers to: a column when the text is a name or two names with a
dot between, and the text itself otherwise. -/
namespace Columnar

def isNameChar (c : Char) : Bool := Text.isAlphanumeric c || c == '_'

/-- A name of any script: not empty, and without an ASCII digit in front. -/
def isName (cs : List Char) : Bool :=
  match cs with
  | [] => false
  | c :: _ => !c.isDigit && cs.all isNameChar

/-- The parts before and after the first dot. -/
def splitDot : List Char → Option (List Char × List Char)
  | [] => none
  | c :: cs =>
    if c = '.' then some ([], cs)
    else (splitDot cs).map fun (before, rest) => (c :: before, rest)

def Expr.ofReference (text : String) : Expr :=
  match splitDot text.toList with
  | none => if isName text.toList then .column none text else .raw text
  | some (qualifier, name) =>
    if isName qualifier && isName name then
      .column (some (String.ofList qualifier)) (String.ofList name)
    else .raw text

end Columnar
