import Columnar.Expr.Reference
import Columnar.Qualify.Basic
import Columnar.Record.Shape

/-! Binding the fields of a record to the expressions that stand for them: columns in scope, columns
under an alias, or fields of a struct. -/
namespace Columnar

inductive Binding
  | unqualified
  | qualified (tableAlias : String)
  | field (parent : Expr)

/-- The binding under an alias, if there is one. -/
def Binding.ofAlias : Option String → Binding
  | none => unqualified
  | some tableAlias => qualified tableAlias

/-- The expression of a field among the fields of its record. Under an alias the field name is
qualified as a text; a name that comes out as the alias, a dot and itself is one column. -/
def Binding.reference (b : Binding) (siblings : List String) (name : String) : Expr :=
  match b with
  | unqualified => .column none name
  | qualified tableAlias =>
    let qualified := qualify tableAlias siblings name
    if qualified = tableAlias ++ "." ++ name then .column (some tableAlias) name
    else .ofReference qualified
  | field parent => .field parent name

structure BoundField where
  name : String
  type : DataType
  expr : Expr

/-- Each field of a shape with its expression, in declaration order. -/
def RecordShape.bind (s : RecordShape) (b : Binding) : List BoundField :=
  s.fields.map fun f => ⟨f.name, f.type, b.reference s.fieldNames f.name⟩

end Columnar
