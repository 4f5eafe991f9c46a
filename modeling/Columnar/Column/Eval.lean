import Columnar.Column.Term

/-! The expression that a column term comes to. Each parameter of a lambda takes the next name of the
supply before the body is looked at, so no two parameters of one term share a number of the supply. -/
namespace Columnar

/-- What terms are rendered and named under. -/
structure Rendering where
  force : Bool
  scope : LambdaScope
  /-- The supply of hexadecimal digits for names. -/
  digits : Nat → String

namespace Rendering

def ofConfig (c : Config) (digits : Nat → String) : Rendering :=
  ⟨c.quoteIdentifiers, .ofConfig c, digits⟩

/-- The name made from a number of the supply. -/
def nameAt (r : Rendering) (n : Nat) : String := r.scope.name (r.digits n)

def namesFrom (r : Rendering) (n count : Nat) : List String :=
  (List.range count).map fun i => r.nameAt (n + i)

end Rendering

/-- Variables with what they stand for; the first of a name counts. -/
abbrev Environment := List (String × Value)

/-- A computation that takes numbers from the supply. -/
abbrev Minting := StateT Nat (Except TermError)

namespace Minting

def fresh (r : Rendering) (count : Nat) : Minting (List String) := do
  let n ← get
  set (n + count)
  pure (r.namesFrom n count)

def require {α : Type} : Option α → Minting α
  | some a => pure a
  | none => throw .illTyped

end Minting

/-- Whether a value may stand where a parameter asks for it. -/
def Param.admits : Param → Kind → Bool
  | .anything, _ => true
  | .anyColumn, .column _ => true
  | .column t, k => k = .column t
  | .sortKey, k => k = .sortKey
  | _, _ => false

inductive Operand
  | value (v : Value)
  | lambda (l : Lambda)

namespace Operand

def value? : Operand → Option Value
  | value v => some v
  | lambda _ => none

def lambda? : Operand → Option Lambda
  | value _ => none
  | lambda l => some l

end Operand

def Param.accept (p : Param) (v : Value) : Minting Operand :=
  if p.admits v.kind then pure (.value v) else throw .illTyped

/-- What a method gives for its operands, the receiver first if there is one. -/
def Method.apply (m : Method) (r : Rendering) (operands : List Operand) : Minting Value := do
  let exprs := (operands.filterMap Operand.value?).map Value.expr
  let e ← Minting.require (m.form.build? r.force exprs (operands.filterMap Operand.lambda?))
  pure ⟨m.result, e⟩

def elementTypes : List Value → Option (List ColumnType)
  | [] => some []
  | ⟨.column (.array e), _⟩ :: vs => (elementTypes vs).map (e :: ·)
  | _ => none

namespace Term

mutual

def evalAt (r : Rendering) (env : Environment) (p : Param) : Term → Minting Operand
  | host value =>
    match p with
    | .column t => do pure (.value ⟨.column t, ← Minting.require (t.promote? value)⟩)
    | _ => throw .illTyped
  | lambda params body =>
    match p with
    | .lambda inputs output => do
      let names ← Minting.fresh r inputs.length
      let values := List.zipWith (fun t n => Value.mk (.column t) (.column none n)) inputs names
      let result ← evalAt r (params.zip values ++ env) (.column output) body
      let v ← Minting.require result.value?
      pure (.lambda ⟨names, v.expr⟩)
    | _ => throw .illTyped
  | var name => do p.accept (← Minting.require (env.lookup name))
  | reference type expr => p.accept ⟨.column type, expr⟩
  | ascribe type term => do
    let o ← evalAt r env (.column type) term
    p.accept (← Minting.require o.value?)
  | scope record =>
    match record.shape with
    | .ok shape => p.accept ⟨.column (.struct record), shape.fromScope⟩
    | .error e => throw (.schema e)
  | range start stop => p.accept ⟨.column (.array .integer), Expr.range start stop⟩
  | make source args => do
    let m := source.method
    let operands ← evalAll r env (m.params.list args.length) args
    p.accept (← m.apply r operands)
  | zip arrays => do
    let operands ← evalAll r env (List.replicate arrays.length .anyColumn) arrays
    let values := operands.filterMap Operand.value?
    let types ← Minting.require (elementTypes values)
    let names ← Minting.fresh r 2
    p.accept ⟨.column (.array (.struct (.tuple types))),
      Expr.zip r.force (values.map Value.expr) names⟩
  | apply _ [] => throw .illTyped
  | apply op [host value, right] => do
    let o ← evalAt r env .anyColumn right
    let v ← Minting.require o.value?
    let t ← Minting.require v.kind.columnType?
    let left ← Minting.require (t.promote? value)
    let m ← Minting.require (op.method? v.kind)
    p.accept (← m.apply r [.value ⟨v.kind, left⟩, o])
  | apply op (receiver :: args) => do
    let o ← evalAt r env .anything receiver
    let v ← Minting.require o.value?
    let m ← Minting.require (op.method? v.kind)
    let operands ← evalAll r env (m.params.list args.length) args
    p.accept (← m.apply r (o :: operands))

def evalAll (r : Rendering) (env : Environment) : List Param → List Term → Minting (List Operand)
  | [], [] => pure []
  | p :: ps, t :: ts => do
    let o ← evalAt r env p t
    let os ← evalAll r env ps ts
    pure (o :: os)
  | _, _ => throw .illTyped

end

/-- The value of a term with a type of its own, and the number of the supply that is next. -/
def eval (r : Rendering) (env : Environment) (p : Param) (t : Term) (next : Nat) :
    Except TermError (Value × Nat) := do
  let (o, next) ← (t.evalAt r env p).run next
  match o with
  | .value v => .ok (v, next)
  | .lambda _ => .error .illTyped

end Term

end Columnar
