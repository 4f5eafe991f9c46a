import Columnar.Column.Eval

/-! Questions about column terms: what a term comes to, whether two are the same, which host value a
literal column holds, and which columns a struct has. -/
namespace Columnar

inductive Statement
  | value (term : Term)
  | same (left right : Term)
  | native (term : Term)
  | members (term : Term)

inductive Answer
  | value (v : Value)
  | same (holds : Bool)
  | native (literal : Option Literal)
  | members (exprs : List Expr)

/-- Whether two values are the same expression; of erased columns the descriptors count too. -/
def Value.same (a b : Value) : Bool :=
  a.expr.same b.expr &&
    match a.kind, b.kind with
    | .untyped t, .untyped u => t = u
    | _, _ => true

/-- The host value of a column that is a literal of its type, as a literal. -/
def Value.native? (v : Value) : Option Literal := do
  let type ← (← v.kind.columnType?).literalType?
  let value ← type.ofLiteral? (← v.expr.literal?)
  some (type.toLiteral value)

def Value.members? (v : Value) : Option (List Expr) :=
  match v.kind with
  | .column (.struct r) => some (r.members.map fun m => .field v.expr m.field)
  | _ => none

/-- The answer to a statement, and the number of the supply that is next. -/
def Statement.answer (r : Rendering) (env : Environment) (s : Statement) (next : Nat) :
    Except TermError (Answer × Nat) :=
  match s with
  | value term => do
    let (v, next) ← term.eval r env .anything next
    .ok (.value v, next)
  | same left right => do
    let (a, next) ← left.eval r env .anything next
    let (b, next) ← right.eval r env .anything next
    .ok (.same (a.same b), next)
  | native term => do
    let (v, next) ← term.eval r env .anyColumn next
    .ok (.native v.native?, next)
  | members term => do
    let (v, next) ← term.eval r env .anyColumn next
    match v.members? with
    | some exprs => .ok (.members exprs, next)
    | none => .error .illTyped

end Columnar
