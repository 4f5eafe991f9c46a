import Columnar.Column.Eval
import Columnar.Proofs.Expr.Pieces
import Columnar.Proofs.Result

/-! The two ways to write host values as an array: as a call with a literal for each of them, and as
one literal. The texts agree item by item at every depth, so that they differ for the empty array
alone, whose type the call says and the literal does not. -/
namespace Columnar

theorem Expr.text_call_literals (force : Bool) (ls : List Literal) :
    (Expr.call "array" (ls.map .literal)).text force = (Expr.literal (.array ls)).text force := by
  rw [text, text, Literal.text, listText_eq, Literal.itemsText_eq, List.map_map]
  rfl

/-- Literals made into an array have the text of the literal array, unless there are none: the call
says the type of an empty array, and the literal does not. -/
theorem Source.exists_text_arrayOf (element : ColumnType) (force : Bool) (ls : List Literal) :
    ∃ made, (arrayOf element).method.form.build? force (ls.map .literal) [] = some made ∧
      (made.text force = (Expr.literal (.array ls)).text force ↔ ls ≠ []) ∧
      (ls = [] → made.text force =
        "CAST(array() AS " ++ (ColumnType.array element).dataType.text ++ ")") := by
  cases ls with
  | nil =>
    refine ⟨_, rfl, ⟨fun h => ?_, fun h => absurd rfl h⟩, fun _ => rfl⟩
    have hhead := congrArg (·.toList.head?) h
    simp [Expr.text, Literal.text] at hhead
  | cons l ls =>
    refine ⟨_, rfl, ⟨fun _ => List.cons_ne_nil l ls, fun _ => ?_⟩, nofun⟩
    exact Expr.text_call_literals force (l :: ls)

variable {element : ColumnType} {l : LiteralType}

theorem ColumnType.promote?_of_read? (helement : element.literalType? = some l) {j : Json}
    {v : l.Value} (hv : l.read? j = some v) :
    element.promote? j = some (.literal (l.toLiteral v)) := by
  simp only [promote?, helement, hv, Option.map_some]

/-- A list of host values is a host value of the array type. -/
theorem ColumnType.promote?_list (helement : element.literalType? = some l) {items : List Json}
    {vs : List l.Value} (hvs : items.mapM l.read? = some vs) :
    (ColumnType.array element).promote? (.list items) =
      some (.literal ((LiteralType.array l).toLiteral vs)) :=
  promote?_of_read? (l := .array l) (by simp only [literalType?, helement, Option.map_some]) hvs

/-- A method of columns of one type makes its expression of theirs. -/
theorem Method.apply_columns {m : Method} {r : Rendering} {es : List Expr} {e : Expr}
    (t : ColumnType) (h : m.form.build? r.force es [] = some e) :
    m.apply r (es.map fun e => .value ⟨.column t, e⟩) = pure ⟨m.result, e⟩ := by
  have hvalues : (es.map fun e => Operand.value ⟨.column t, e⟩).filterMap Operand.value? =
      es.map fun e => ⟨.column t, e⟩ := by
    simp [List.filterMap_map, Function.comp_def, Operand.value?]
  have hlambdas : (es.map fun e => Operand.value ⟨.column t, e⟩).filterMap Operand.lambda? = [] := by
    simp [Operand.lambda?]
  have hexprs : (es.map fun e => Value.mk (.column t) e).map Value.expr = es := by
    simp [Function.comp_def]
  simp only [apply, hvalues, hlambdas, hexprs, h]
  rfl

namespace Term

variable (r : Rendering) (env : Environment)

/-- Host values are taken at the element type one by one. -/
theorem evalAll_hosts (helement : element.literalType? = some l) {items : List Json}
    {vs : List l.Value} (hvs : items.mapM l.read? = some vs) :
    evalAll r env (List.replicate items.length (.column element)) (items.map .host) =
      pure ((vs.map fun v => .literal (l.toLiteral v)).map
        fun e => .value ⟨.column element, e⟩) := by
  induction items generalizing vs with
  | nil =>
    obtain rfl := Option.some.inj hvs
    rfl
  | cons j items ih =>
    obtain ⟨v, hv, vs, hrest, rfl⟩ := mapM_cons_eq_some_iff.mp hvs
    have hj : evalAt r env (.column element) (.host j) =
        pure (.value ⟨.column element, .literal (l.toLiteral v)⟩) := by
      rw [evalAt, ColumnType.promote?_of_read? helement hv]
      rfl
    rw [List.length_cons, List.replicate_succ, List.map_cons, evalAll, hj, ih hrest]
    rfl

theorem eval_arrayOf_hosts (helement : element.literalType? = some l) {items : List Json}
    {vs : List l.Value} (hvs : items.mapM l.read? = some vs) {made : Expr}
    (hmade : (Source.arrayOf element).method.form.build? r.force
      (vs.map fun v => .literal (l.toLiteral v)) [] = some made) (n : Nat) :
    (Term.make (.arrayOf element) (items.map .host)).eval r env .anyColumn n =
      .ok (⟨.column (.array element), made⟩, n) := by
  have hplaces : (Source.arrayOf element).method.params.list (items.map Term.host).length =
      List.replicate items.length (.column element) := by
    rw [List.length_map]
    rfl
  have happly := Method.apply_columns element hmade
  simp only [eval, evalAt, hplaces, evalAll_hosts r env helement hvs, pure_bind, happly]
  rfl

theorem eval_ascribe_hosts (helement : element.literalType? = some l) {items : List Json}
    {vs : List l.Value} (hvs : items.mapM l.read? = some vs) (n : Nat) :
    (Term.ascribe (.array element) (.host (.list items))).eval r env .anyColumn n =
      .ok (⟨.column (.array element), .literal ((LiteralType.array l).toLiteral vs)⟩, n) := by
  rw [eval, evalAt, evalAt, ColumnType.promote?_list helement hvs]
  rfl

end Term

/-- The two arrays of the same host values have one text if and only if there are values. Values may be
arrays themselves, empty or not. -/
theorem text_arrayOf_eq_text_literal_iff (helement : element.literalType? = some l)
    (vs : List l.Value) (force : Bool) :
    ∃ made, (Source.arrayOf element).method.form.build? force
        (vs.map fun v => .literal (l.toLiteral v)) [] = some made ∧
      (made.text force = (Expr.literal ((LiteralType.array l).toLiteral vs)).text force ↔
        vs ≠ []) ∧
      (vs = [] → made.text force =
        "CAST(array() AS " ++ (ColumnType.array element).dataType.text ++ ")") ∧
      ∀ (items : List Json) (r : Rendering) (env : Environment) (n : Nat),
        items.mapM l.read? = some vs → r.force = force →
        (Term.make (.arrayOf element) (items.map .host)).eval r env .anyColumn n =
          .ok (⟨.column (.array element), made⟩, n) ∧
        (Term.ascribe (.array element) (.host (.list items))).eval r env .anyColumn n =
          .ok (⟨.column (.array element), .literal ((LiteralType.array l).toLiteral vs)⟩, n) := by
  obtain ⟨made, hmade, htext, hempty⟩ :=
    Source.exists_text_arrayOf element force (vs.map l.toLiteral)
  rw [List.map_map] at hmade
  rw [ne_eq, List.map_eq_nil_iff] at htext
  rw [List.map_eq_nil_iff] at hempty
  refine ⟨made, hmade, htext, hempty, ?_⟩
  rintro items r env n hvs rfl
  exact ⟨Term.eval_arrayOf_hosts r env helement hvs hmade n,
    Term.eval_ascribe_hosts r env helement hvs n⟩

theorem text_arrayOf_eq_text_literal_nested :
    ∃ made, (Source.arrayOf (.array .integer)).method.form.build? false
        [.literal (.array []), .literal (.array [.integer 1])] [] = some made ∧
      made.text false = "array(array(), array(1))" := by
  have helement : (ColumnType.array .integer).literalType? = some (.array (.leaf .integer)) := rfl
  obtain ⟨made, hmade, htext, -⟩ :=
    text_arrayOf_eq_text_literal_iff helement [[], [(1 : Int32)]] false
  exact ⟨made, hmade, (htext.mpr (List.cons_ne_nil _ _)).trans (by decide)⟩

theorem text_arrayOf_nil :
    ∃ made written, (Source.arrayOf .integer).method.form.build? false [] [] = some made ∧
      (ColumnType.array .integer).promote? (.list []) = some written ∧
      made.text false = "CAST(array() AS array<int>)" ∧ written.text false = "array()" ∧
      made.text false ≠ written.text false :=
  ⟨_, _, rfl, rfl, by decide, by decide, by decide⟩

end Columnar
