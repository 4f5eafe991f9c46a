import Columnar.Proofs.Column.Evaluation
import Columnar.Proofs.Literal.Host

/-! The lookup of a key in a map. The key is an expression; what the map is indexed by is the literal that
the key is, whatever output names it has, as long as it has the kind of the keys, and null for every
other key. -/
namespace Columnar

namespace Expr

/-- A literal under any number of output names. -/
inductive IsLiteral (value : Literal) : Expr → Prop
  | literal : IsLiteral value (.literal value)
  | aliased {operand : Expr} {name : String} : IsLiteral value operand →
      IsLiteral value (.aliased operand name)

theorem literal?_eq_some_iff {e : Expr} {value : Literal} :
    e.literal? = some value ↔ IsLiteral value e := by
  constructor
  · intro h
    induction e using literal?.induct with
    | case1 found =>
      obtain rfl := Option.some.inj h
      exact .literal
    | case2 operand name ih => exact .aliased (ih h)
    | case3 e _ _ => simp [literal?] at h
  · intro h
    induction h with
    | literal => rfl
    | aliased _ ih => exact ih

end Expr

namespace Form

variable {key : Leaf} {e : Expr}

theorem keyLiteral_of_kind {value : Literal} (h : e.IsLiteral value)
    (hkind : value.kind = .leaf key) : keyLiteral key e = value := by
  have hvalue : ∃ v, key.ofLiteral? value = some v :=
    Option.ne_none_iff_exists'.mp fun hnone => Leaf.ofLiteral?_eq_none_iff.mp hnone hkind
  obtain ⟨v, hv⟩ := hvalue
  rw [keyLiteral, Expr.literal?_eq_some_iff.mpr h, Option.bind_some, hv]
  exact Leaf.toLiteral_of_ofLiteral? hv

theorem keyLiteral_of_other (h : ∀ value, e.IsLiteral value → value.kind ≠ .leaf key) :
    keyLiteral key e = .null := by
  have hnone : e.literal?.bind key.ofLiteral? = none := by
    cases hvalue : e.literal? with
    | none => rfl
    | some value =>
      exact Leaf.ofLiteral?_eq_none_iff.mpr (h value (Expr.literal?_eq_some_iff.mp hvalue))
  rw [keyLiteral, hnone]

end Form

namespace Term

variable {r : Rendering} {env : Environment}

/-- A map that is asked for a key comes to the map indexed by the literal of the key. -/
theorem eval_get {key : Leaf} {value : ColumnType} {map index : Term} {m e : Expr} {n n₁ n₂ : Nat}
    (hmap : (map.evalAt r env .anything).run n = .ok (.value ⟨.column (.map key value), m⟩, n₁))
    (hindex : (index.evalAt r env (.column (.leaf key))).run n₁ =
      .ok (.value ⟨.column (.leaf key), e⟩, n₂)) :
    (Term.apply (.method "get") [map, index]).eval r env .anyColumn n =
      .ok (⟨.column value, .subscript m (.literal (Form.keyLiteral key e))⟩, n₂) := by
  have hreceiver : ¬ ∃ host right, [map, index] = [.host host, right] := by
    rintro ⟨host, right, heq⟩
    obtain ⟨rfl, -⟩ := List.cons.inj heq
    cases hmap
  have hmethod : (Operation.method "get").method? (.column (.map key value)) =
      some (.taking [.leaf key] value (.lookup key)) := rfl
  have happly : (Method.taking [.leaf key] value (.lookup key)).apply r
      [.value ⟨.column (.map key value), m⟩, .value ⟨.column (.leaf key), e⟩] =
        pure ⟨.column value, .subscript m (.literal (Form.keyLiteral key e))⟩ := rfl
  have hargs : (evalAll r env [.column (.leaf key)] [index]).run n₁ =
      .ok ([.value ⟨.column (.leaf key), e⟩], n₂) := by
    rw [evalAll, StateT.run_bind, hindex]
    rfl
  have hrun : ((Term.apply (.method "get") [map, index]).evalAt r env .anyColumn).run n =
      .ok (.value ⟨.column value, .subscript m (.literal (Form.keyLiteral key e))⟩, n₂) := by
    rw [evalAt_apply _ _ _ _ hreceiver, StateT.run_bind, hmap]
    change ((do
      let method ← Minting.require ((Operation.method "get").method? (.column (.map key value)))
      let operands ← evalAll r env (method.params.list 1) [index]
      Param.anyColumn.accept (← method.apply r (.value ⟨.column (.map key value), m⟩ :: operands)) :
        Minting Operand).run n₁) = _
    rw [hmethod, Minting.require_some, pure_bind]
    change (evalAll r env [.column (.leaf key)] [index] >>= _).run n₁ = _
    rw [StateT.run_bind, hargs]
    rfl
  rw [eval, hrun]
  rfl

end Term

/-- Host values are recovered from their literals, and literals from their host values; a literal has
no host value of a type exactly if it departs from the type at some depth. A map is therefore indexed
by the literal that a key is, if it has the kind of the keys, and by null for any other key. -/
theorem host_conversions_and_lookup :
    (∀ t : LiteralType,
      (∀ v, t.ofLiteral? (t.toLiteral v) = some v) ∧
      (∀ value v, t.ofLiteral? value = some v → t.toLiteral v = value) ∧
      ∀ value, t.ofLiteral? value = none ↔ t.Departs value) ∧
    ∀ (key : Leaf) (type : ColumnType) (r : Rendering) (env : Environment) (map index : Term)
      (m e : Expr) (n n₁ n₂ : Nat),
      (map.evalAt r env .anything).run n = .ok (.value ⟨.column (.map key type), m⟩, n₁) →
      (index.evalAt r env (.column (.leaf key))).run n₁ =
        .ok (.value ⟨.column (.leaf key), e⟩, n₂) →
      ∃ found, (Term.apply (.method "get") [map, index]).eval r env .anyColumn n =
          .ok (⟨.column type, .subscript m (.literal found)⟩, n₂) ∧
        (∀ value, e.IsLiteral value → value.kind = .leaf key → found = value) ∧
        ((∀ value, e.IsLiteral value → value.kind ≠ .leaf key) → found = .null) := by
  refine ⟨fun t => ⟨t.ofLiteral?_toLiteral, fun _ _ => LiteralType.toLiteral_of_ofLiteral?,
    fun _ => LiteralType.ofLiteral?_eq_none_iff⟩, ?_⟩
  intro key type r env map index m e n n₁ n₂ hmap hindex
  exact ⟨Form.keyLiteral key e, Term.eval_get hmap hindex, fun _ => Form.keyLiteral_of_kind,
    Form.keyLiteral_of_other⟩

theorem host_conversions_and_lookup_scores :
    LiteralType.ofLiteral? (.array (.array .instant)) (.array [.array [], .array [.null]]) = none ∧
    (∃ found, (Term.apply (.method "get") [.reference (.map .string .long) (.column none "scores"),
        .reference .string (.aliased (.aliased (.literal (.string "alice")) "a") "b")]).eval
          (.ofConfig {} fun _ => "") [] .anyColumn 0 =
        .ok (⟨.column .long, .subscript (.column none "scores") (.literal found)⟩, 0) ∧
      found = .string "alice") ∧
    ∃ found, (Term.apply (.method "get") [.reference (.map .string .long) (.column none "scores"),
        .reference .string (.column none "who")]).eval (.ofConfig {} fun _ => "") [] .anyColumn 0 =
        .ok (⟨.column .long, .subscript (.column none "scores") (.literal found)⟩, 0) ∧
      found = .null := by
  obtain ⟨hhosts, hget⟩ := host_conversions_and_lookup
  refine ⟨?_, ?_, ?_⟩
  · have hnull : LiteralType.Departs .instant .null := .here nofun
    exact ((hhosts _).2.2 _).mpr
      (.item (List.mem_cons_of_mem _ (List.mem_singleton_self _)) (.item (by simp) hnull))
  · obtain ⟨found, heval, hkind, -⟩ := hget .string .long (.ofConfig {} fun _ => "") []
      (.reference (.map .string .long) (.column none "scores"))
      (.reference .string (.aliased (.aliased (.literal (.string "alice")) "a") "b"))
      _ _ 0 0 0 rfl rfl
    exact ⟨found, heval, hkind _ (.aliased (.aliased .literal)) rfl⟩
  · obtain ⟨found, heval, -, hother⟩ := hget .string .long (.ofConfig {} fun _ => "") []
      (.reference (.map .string .long) (.column none "scores"))
      (.reference .string (.column none "who")) _ _ 0 0 0 rfl rfl
    exact ⟨found, heval, hother nofun⟩

end Columnar
