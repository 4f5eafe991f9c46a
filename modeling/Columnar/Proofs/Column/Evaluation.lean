import Columnar.Column.Eval
import Columnar.Proofs.Result

/-! The evaluation of terms, a step at a time: what its parts gave when it succeeds, and which of them
take numbers from the supply. -/
namespace Columnar

/-! Computations that take numbers from the supply. -/

namespace Minting

variable {α β : Type} {n m : Nat}

theorem run_bind_eq_ok {x : Minting α} {f : α → Minting β} {b : β}
    (h : (x >>= f).run n = .ok (b, m)) :
    ∃ a k, x.run n = .ok (a, k) ∧ (f a).run k = .ok (b, m) := by
  rw [StateT.run_bind] at h
  obtain ⟨⟨a, k⟩, hx, hf⟩ := bind_eq_ok_iff.mp h
  exact ⟨a, k, hx, hf⟩

theorem run_pure_eq_ok {a b : α} (h : (pure a : Minting α).run n = .ok (b, m)) :
    b = a ∧ m = n := by
  obtain ⟨rfl, rfl⟩ := Prod.mk.inj (Except.ok.inj h)
  exact ⟨rfl, rfl⟩

/-- A computation that goes on had what it required. -/
theorem run_require_bind_eq_ok {o : Option α} {f : α → Minting β} {b : β}
    (h : (require o >>= f).run n = .ok (b, m)) : ∃ a, o = some a ∧ (f a).run n = .ok (b, m) := by
  cases o with
  | none => cases h
  | some a => exact ⟨a, rfl, h⟩

theorem run_fresh_bind_eq_ok {r : Rendering} {count : Nat} {f : List String → Minting β} {b : β}
    (h : (fresh r count >>= f).run n = .ok (b, m)) :
    (f (r.namesFrom n count)).run (n + count) = .ok (b, m) := h

theorem run_apply_bind_eq_ok {method : Method} {r : Rendering} {os : List Operand}
    {f : Value → Minting β} {b : β} (h : (method.apply r os >>= f).run n = .ok (b, m)) :
    ∃ v, (f v).run n = .ok (b, m) := by
  unfold Method.apply at h
  rw [bind_assoc] at h
  obtain ⟨e, -, h⟩ := run_require_bind_eq_ok h
  exact ⟨⟨method.result, e⟩, h⟩

theorem run_accept_eq_ok {p : Param} {v : Value} {o : Operand}
    (h : (p.accept v).run n = .ok (o, m)) : o = .value v ∧ m = n := by
  unfold Param.accept at h
  split at h
  · exact run_pure_eq_ok h
  · cases h

theorem require_some (a : α) : require (some a) = pure a := rfl

theorem require_none : require (none : Option α) = throw .illTyped := rfl

theorem throw_bind (e : TermError) (f : α → Minting β) : (throw e >>= f) = throw e := rfl

end Minting

/-! Operands. -/

def Operand.exprs (os : List Operand) : List Expr := (os.filterMap Operand.value?).map Value.expr

def Operand.lambdas (os : List Operand) : List Lambda := os.filterMap Operand.lambda?

/-- The types of the items of zipped arrays are seen from the kinds of the arrays. -/
theorem elementTypes_congr {vs vs' : List Value} (h : vs'.map Value.kind = vs.map Value.kind) :
    elementTypes vs' = elementTypes vs := by
  induction vs generalizing vs' with
  | nil => rw [List.map_eq_nil_iff.mp h]
  | cons v vs ih =>
    obtain ⟨v', vs', rfl, hkind, hkinds⟩ := List.map_eq_cons_iff.mp h
    obtain ⟨k, e⟩ := v
    obtain ⟨k', e'⟩ := v'
    obtain rfl : k' = k := hkind
    match k' with
    | .column (.array _) => rw [elementTypes, elementTypes, ih hkinds]
    | .column (.leaf _) | .column (.map _ _) | .column (.struct _) | .untyped _ | .sortKey
    | .generator _ => rfl

/-! Terms. -/

/-- The columns that stand for the parameters of a lambda in its body. -/
def placeholders (inputs : List ColumnType) (names : List String) : List Value :=
  List.zipWith (fun t name => ⟨.column t, .column none name⟩) inputs names

namespace Term

/-- Whether a term has a type of its own. -/
def isColumn : Term → Bool
  | host _ | lambda _ _ => false
  | _ => true

variable {r : Rendering} {env : Environment} {p : Param}

/-- An operation starts with its receiver, unless a host value takes its type from what follows. -/
theorem evalAt_apply (r : Rendering) (env : Environment) (p : Param) (op : Operation)
    {receiver : Term} {args : List Term}
    (h : ¬ ∃ value right, receiver :: args = [.host value, right]) :
    evalAt r env p (.apply op (receiver :: args)) = (do
      let o ← evalAt r env .anything receiver
      let v ← Minting.require o.value?
      let m ← Minting.require (op.method? v.kind)
      let operands ← evalAll r env (m.params.list args.length) args
      p.accept (← m.apply r (o :: operands))) := by
  rw [evalAt]
  rintro value right rfl rfl
  exact h ⟨value, right, rfl⟩

/-- A column is the same at every place that admits it. -/
theorem evalAt_eq_accept {c : Term} (hc : c.isColumn) : c.evalAt r env p = (do
    let o ← c.evalAt r env .anything
    p.accept (← Minting.require o.value?)) := by
  have hanything (v : Value) : Param.anything.accept v = pure (.value v) := rfl
  have hvalue (v : Value) : Minting.require (Operand.value v).value? = pure v := rfl
  cases c with
  | host _ | lambda _ _ => cases hc
  | scope record =>
    simp only [evalAt]
    cases record.shape <;> rfl
  | apply op args =>
    match args with
    | [] => simp only [evalAt]; rfl
    | receiver :: args =>
      by_cases hhost : ∃ value right, receiver :: args = [.host value, right]
      · obtain ⟨value, right, heq⟩ := hhost
        obtain ⟨rfl, rfl⟩ := List.cons.inj heq
        simp only [evalAt, bind_assoc, hanything, pure_bind, hvalue]
      · simp only [evalAt_apply _ _ _ _ hhost, bind_assoc, hanything, pure_bind, hvalue]
  | _ => simp only [evalAt, bind_assoc, hanything, pure_bind, hvalue]

/-- A lambda has the names of the next numbers as its parameters, and its body is what the term comes
to with the placeholders of these names. -/
theorem lambda_eq_of_evalAt {inputs : List ColumnType} {output : ColumnType}
    {params : List String} {body : Term} {n m : Nat} {o : Operand}
    (h : ((lambda params body).evalAt r env (.lambda inputs output)).run n = .ok (o, m)) :
    ∃ result, o = .lambda ⟨r.namesFrom n inputs.length, result.expr⟩ ∧
      (body.evalAt r (params.zip (placeholders inputs (r.namesFrom n inputs.length)) ++ env)
        (.column output)).run (n + inputs.length) = .ok (.value result, m) := by
  rw [evalAt] at h
  replace h := Minting.run_fresh_bind_eq_ok h
  obtain ⟨o, k, hbody, h⟩ := Minting.run_bind_eq_ok h
  obtain ⟨result, hresult, h⟩ := Minting.run_require_bind_eq_ok h
  obtain ⟨rfl, rfl⟩ := Minting.run_pure_eq_ok h
  cases o with
  | value v =>
    obtain rfl := Option.some.inj hresult
    exact ⟨v, rfl, hbody⟩
  | lambda l => cases hresult

end Term

end Columnar
