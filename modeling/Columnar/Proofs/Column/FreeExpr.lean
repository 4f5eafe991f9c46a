import Columnar.Proofs.Column.RenamedExpr

/-! Expressions that a script supplies as they are. Each of their names and texts is free of the names
of both supplies, so under both they are the same. -/
namespace Columnar

namespace Supplies

mutual

/-- An expression with no name of a supply in its names, texts, literals and types. -/
def FreeExpr (s : Supplies) : Expr → Prop
  | .column qualifier name => (∀ q ∈ qualifier, s.FreeName q) ∧ s.FreeName name
  | .literal value => s.Fixed value.text
  | .raw text => s.Fixed text
  | .aliased e name | .field e name => FreeExpr s e ∧ s.FreeName name
  | .multiAliased e names | .dropFields e names => FreeExpr s e ∧ ∀ n ∈ names, s.FreeName n
  | .unary _ e | .sort e _ _ => FreeExpr s e
  | .binary _ l r | .subscript l r => FreeExpr s l ∧ FreeExpr s r
  | .call function args => s.Fixed function ∧ FreeExprs s args
  | .cast e type => FreeExpr s e ∧ s.Fixed type.text
  | .case branches otherwise => FreeBranches s branches ∧ FreeOption s otherwise
  | .inList e items => FreeExpr s e ∧ FreeExprs s items
  | .between e low high => FreeExpr s e ∧ FreeExpr s low ∧ FreeExpr s high
  | .withField e name value => FreeExpr s e ∧ s.FreeName name ∧ FreeExpr s value
  | .window e partition order _ => FreeExpr s e ∧ FreeExprs s partition ∧ FreeExprs s order

def FreeExprs (s : Supplies) : List Expr → Prop
  | [] => True
  | e :: rest => FreeExpr s e ∧ FreeExprs s rest

def FreeBranches (s : Supplies) : List (Expr × Expr) → Prop
  | [] => True
  | (condition, value) :: rest =>
    FreeExpr s condition ∧ FreeExpr s value ∧ FreeBranches s rest

def FreeOption (s : Supplies) : Option Expr → Prop
  | none => True
  | some e => FreeExpr s e

end

variable {s : Supplies} {bound : Nat}

mutual

/-- An expression with no name of a supply in it is the same under both. -/
theorem FreeExpr.renamed : ∀ e : Expr, s.FreeExpr e → s.RenamedExpr bound e e
  | .column none _, h => .column h.2.renamed fun force => (h.2.identifier force).renamed
  | .column (some _) _, h => .qualified (h.1 _ rfl) h.2
  | .literal _, h => .literal_of_fixed h
  | .raw _, h => .raw (Fixed.renamed h)
  | .aliased e _, h => .aliased h.2 (FreeExpr.renamed e h.1)
  | .multiAliased e _, h => .multiAliased h.2 (FreeExpr.renamed e h.1)
  | .unary op e, h => .unary op (FreeExpr.renamed e h)
  | .binary op l r, h => .binary op (FreeExpr.renamed l h.1) (FreeExpr.renamed r h.2)
  | .call _ args, h => .call h.1 (FreeExprs.renamed args h.2)
  | .cast e _, h => .cast h.2 (FreeExpr.renamed e h.1)
  | .case branches otherwise, h =>
    .case (FreeBranches.renamed branches h.1) (FreeOption.renamed otherwise h.2)
  | .inList e items, h => .inList (FreeExpr.renamed e h.1) (FreeExprs.renamed items h.2)
  | .between e low high, h =>
    .between (FreeExpr.renamed e h.1) (FreeExpr.renamed low h.2.1) (FreeExpr.renamed high h.2.2)
  | .subscript e index, h => .subscript (FreeExpr.renamed e h.1) (FreeExpr.renamed index h.2)
  | .field e _, h => .field h.2 (FreeExpr.renamed e h.1)
  | .withField e _ value, h =>
    .withField h.2.1.renamed (FreeExpr.renamed e h.1) (FreeExpr.renamed value h.2.2)
  | .dropFields e _, h => .dropFields h.2 (FreeExpr.renamed e h.1)
  | .sort e direction nulls, h => .sort direction nulls (FreeExpr.renamed e h)
  | .window e partition order frame, h =>
    .window frame (FreeExpr.renamed e h.1) (FreeExprs.renamed partition h.2.1)
      (FreeExprs.renamed order h.2.2)

theorem FreeExprs.renamed : ∀ es : List Expr, s.FreeExprs es → s.RenamedExprs bound es es
  | [], _ => .nil
  | e :: rest, h => .cons (FreeExpr.renamed e h.1) (FreeExprs.renamed rest h.2)

theorem FreeBranches.renamed :
    ∀ bs : List (Expr × Expr), s.FreeBranches bs → s.RenamedBranches bound bs bs
  | [], _ => .nil
  | (condition, value) :: rest, h =>
    .cons ⟨FreeExpr.renamed condition h.1, FreeExpr.renamed value h.2.1⟩
      (FreeBranches.renamed rest h.2.2)

theorem FreeOption.renamed :
    ∀ o : Option Expr, s.FreeOption o → Option.Rel (s.RenamedExpr bound) o o
  | none, _ => .none
  | some e, h => .some (FreeExpr.renamed e h)

end

end Supplies

end Columnar
