import Columnar.Proofs.Column.Evaluation
import Columnar.Proofs.Column.FreeMethod

/-! How the operands of a script are made under two supplies. The only names of a supply that a
construction brings in are the parameters of a lambda, and in the body of the lambda its own
parameters and those of the lambdas around it. -/
namespace Columnar

namespace Supplies

/-- Operands made under one supply, whose names are `name`: from what the script supplies, from the
parameters in scope, whose numbers are listed, and by forms. A lambda brings its own parameters into
scope for its body. -/
inductive Scoped (s : Supplies) (name : Nat → String) : List Nat → List Operand → Prop
  | nil {scope : List Nat} : Scoped s name scope []
  | cons {scope : List Nat} {o : Operand} {os : List Operand} (h : Scoped s name scope [o])
    (hs : Scoped s name scope os) : Scoped s name scope (o :: os)
  | given {scope : List Nat} {k : Kind} {e : Expr} (he : s.RenamedExpr 0 e e) :
    Scoped s name scope [.value ⟨k, e⟩]
  | parameter {scope : List Nat} {k : Kind} {i : Nat} (hi : i ∈ scope) :
    Scoped s name scope [.value ⟨k, .column none (name i)⟩]
  | form {scope : List Nat} {k : Kind} {form : Form} {os : List Operand} {e : Expr}
    (hform : s.FreeForm form) (h : Scoped s name scope os)
    (he : form.build? s.config.quoteIdentifiers (Operand.exprs os) (Operand.lambdas os) = some e) :
    Scoped s name scope [.value ⟨k, e⟩]
  | lambda {scope params : List Nat} {v : Value} (h : Scoped s name (params ++ scope) [.value v]) :
    Scoped s name scope [.lambda ⟨params.map name, v.expr⟩]

/-- Operands made in the same way under both supplies, from parameters with numbers below the bound.
The items of a membership are the same under both. -/
inductive Alike (s : Supplies) (bound : Nat) : List Nat → List Operand → List Operand → Prop
  | nil {scope : List Nat} : Alike s bound scope [] []
  | cons {scope : List Nat} {o o' : Operand} {os os' : List Operand}
    (h : Alike s bound scope [o] [o']) (hs : Alike s bound scope os os') :
    Alike s bound scope (o :: os) (o' :: os')
  | given {scope : List Nat} {k : Kind} {e : Expr} (hk : s.FreeKind k) (he : s.RenamedExpr 0 e e) :
    Alike s bound scope [.value ⟨k, e⟩] [.value ⟨k, e⟩]
  | parameter {scope : List Nat} {k : Kind} {i : Nat} (hk : s.FreeKind k) (hi : i ∈ scope)
    (hbound : i < bound) :
    Alike s bound scope [.value ⟨k, .column none (s.leftRun.nameAt i)⟩]
      [.value ⟨k, .column none (s.rightRun.nameAt i)⟩]
  | form {scope : List Nat} {k : Kind} {form : Form} {os os' : List Operand} {e e' : Expr}
    (hk : s.FreeKind k) (hform : s.FreeForm form) (h : Alike s bound scope os os')
    (hitems : form = .membership → (Operand.exprs os').tail = (Operand.exprs os).tail)
    (he : form.build? s.config.quoteIdentifiers (Operand.exprs os) (Operand.lambdas os) = some e)
    (he' : form.build? s.config.quoteIdentifiers (Operand.exprs os') (Operand.lambdas os') =
      some e') :
    Alike s bound scope [.value ⟨k, e⟩] [.value ⟨k, e'⟩]
  | lambda {scope params : List Nat} {v v' : Value} (hbound : ∀ i ∈ params, i < bound)
    (h : Alike s bound (params ++ scope) [.value v] [.value v']) :
    Alike s bound scope [.lambda ⟨params.map s.leftRun.nameAt, v.expr⟩]
      [.lambda ⟨params.map s.rightRun.nameAt, v'.expr⟩]

inductive RenamedOperand (s : Supplies) (bound : Nat) : Operand → Operand → Prop
  | value {k : Kind} {e e' : Expr} (hk : s.FreeKind k) (he : s.RenamedExpr bound e e') :
    RenamedOperand s bound (.value ⟨k, e⟩) (.value ⟨k, e'⟩)
  | lambda {l l' : Lambda} (h : s.RenamedLambda bound l l') :
    RenamedOperand s bound (.lambda l) (.lambda l')

variable {s : Supplies} {bound bound' : Nat} {scope scope' : List Nat} {o o' : Operand}
  {os os' : List Operand}

theorem renamedExprs_exprs (h : List.Forall₂ (s.RenamedOperand bound) os os') :
    s.RenamedExprs bound (Operand.exprs os) (Operand.exprs os') := by
  induction h with
  | nil => exact .nil
  | cons h _ ih =>
    cases h with
    | value _ he => exact .cons he ih
    | lambda _ => exact ih

theorem renamedLambdas_lambdas (h : List.Forall₂ (s.RenamedOperand bound) os os') :
    List.Forall₂ (s.RenamedLambda bound) (Operand.lambdas os) (Operand.lambdas os') := by
  induction h with
  | nil => exact .nil
  | cons h _ ih =>
    cases h with
    | value _ _ => exact ih
    | lambda hl => exact .cons hl ih

namespace Alike

theorem mono (h : s.Alike bound scope os os') (hbound : bound ≤ bound') (hscope : scope ⊆ scope') :
    s.Alike bound' scope' os os' := by
  induction h generalizing scope' with
  | nil => exact .nil
  | cons _ _ ih ihs => exact .cons (ih hscope) (ihs hscope)
  | given hk he => exact .given hk he
  | parameter hk hi hlt => exact .parameter hk (hscope hi) (by omega)
  | form hk hform _ hitems he he' ih => exact .form hk hform (ih hscope) hitems he he'
  | lambda hlt _ ih =>
    exact .lambda (fun i hi => Nat.lt_of_lt_of_le (hlt i hi) hbound)
      (ih (List.append_subset.mpr ⟨List.subset_append_left _ _,
        List.Subset.trans hscope (List.subset_append_right _ _)⟩))

/-- Each operand is made on its own. -/
theorem of_cons (h : s.Alike bound scope (o :: os) (o' :: os')) :
    s.Alike bound scope [o] [o'] ∧ s.Alike bound scope os os' := by
  cases h with
  | cons h hs => exact ⟨h, hs⟩
  | given hk he => exact ⟨.given hk he, .nil⟩
  | parameter hk hi hlt => exact ⟨.parameter hk hi hlt, .nil⟩
  | form hk hform h hitems he he' => exact ⟨.form hk hform h hitems he he', .nil⟩
  | lambda hlt h => exact ⟨.lambda hlt h, .nil⟩

/-- What is made in the same way under both supplies differs in their choice alone. -/
theorem renamed (h : s.Alike bound scope os os') :
    List.Forall₂ (s.RenamedOperand bound) os os' := by
  induction h with
  | nil => exact .nil
  | cons _ _ ih ihs =>
    cases ih with
    | cons h _ => exact .cons h ihs
  | given hk he => exact .cons (.value hk (he.mono (Nat.zero_le _))) .nil
  | parameter hk _ hlt => exact .cons (.value hk (.parameter hlt)) .nil
  | form hk hform _ hitems he he' ih =>
    have hbuild := hform.build (renamedExprs_exprs ih) (renamedLambdas_lambdas ih) hitems
      s.config.quoteIdentifiers
    rw [he, he'] at hbuild
    cases hbuild with
    | some hexpr => exact .cons (.value hk hexpr) .nil
  | @lambda _ params v v' hlt _ ih =>
    have hparams : s.RenamedTexts bound (params.map s.leftRun.nameAt)
        (params.map s.rightRun.nameAt) :=
      List.forall₂_map_left_iff.mpr (List.forall₂_map_right_iff.mpr
        (List.forall₂_same.mpr fun i hi => renamedText_name (hlt i hi)))
    cases ih with
    | cons h _ =>
      cases h with
      | value _ he => exact .cons (.lambda ⟨hparams, he⟩) .nil

theorem scoped_left (h : s.Alike bound scope os os') : s.Scoped s.leftRun.nameAt scope os := by
  induction h with
  | nil => exact .nil
  | cons _ _ ih ihs => exact .cons ih ihs
  | given _ he => exact .given he
  | parameter _ hi _ => exact .parameter hi
  | form _ hform _ _ he _ ih => exact .form hform ih he
  | lambda _ _ ih => exact .lambda ih

theorem scoped_right (h : s.Alike bound scope os os') : s.Scoped s.rightRun.nameAt scope os' := by
  induction h with
  | nil => exact .nil
  | cons _ _ ih ihs => exact .cons ih ihs
  | given _ he => exact .given he
  | parameter _ hi _ => exact .parameter hi
  | form _ hform _ _ _ he' ih => exact .form hform ih he'
  | lambda _ _ ih => exact .lambda ih

end Alike

end Supplies

end Columnar
