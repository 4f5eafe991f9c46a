import Columnar.Column.Form
import Columnar.Proofs.Expr.Pieces

/-! Positions in an expression, as the numbers of the parts on the way down. A node is written from the
texts of its parts and never looks at the parts themselves, so what stands at a position may be
exchanged for anything with the same text, at any depth. -/
namespace Columnar

namespace Expr

/-- The parts of a node, in the order in which they are written. -/
def parts : Expr → List Expr
  | column _ _ | literal _ | raw _ => []
  | aliased e _ | multiAliased e _ | unary _ e | cast e _ | field e _ | dropFields e _
  | sort e _ _ => [e]
  | binary _ l r => [l, r]
  | call _ args => args
  | case branches otherwise =>
    branches.flatMap (fun (condition, value) => [condition, value]) ++ otherwise.toList
  | inList e items => e :: items
  | between e low high => [e, low, high]
  | subscript e index => [e, index]
  | withField e _ value => [e, value]
  | window e partition order _ => e :: (partition ++ order)

/-- The node with other parts in place of its own. -/
def withParts : Expr → List Expr → Expr
  | column qualifier name, _ => column qualifier name
  | literal value, _ => literal value
  | raw t, _ => raw t
  | aliased e name, es => aliased (es.getD 0 e) name
  | multiAliased e names, es => multiAliased (es.getD 0 e) names
  | unary op e, es => unary op (es.getD 0 e)
  | binary op l r, es => binary op (es.getD 0 l) (es.getD 1 r)
  | call function _, es => call function es
  | cast e type, es => cast (es.getD 0 e) type
  | case _ _, es => case (Form.branches es).1 (Form.branches es).2
  | inList e _, es => inList (es.getD 0 e) es.tail
  | between e low high, es => between (es.getD 0 e) (es.getD 1 low) (es.getD 2 high)
  | subscript e index, es => subscript (es.getD 0 e) (es.getD 1 index)
  | field e name, es => field (es.getD 0 e) name
  | withField e name value, es => withField (es.getD 0 e) name (es.getD 1 value)
  | dropFields e names, es => dropFields (es.getD 0 e) names
  | sort e direction nulls, es => sort (es.getD 0 e) direction nulls
  | window e partition _ frame, es =>
    window (es.getD 0 e) (es.tail.take partition.length) (es.tail.drop partition.length) frame

/-- The part at a position, if the expression goes down that far. -/
def partAt? : Expr → List Nat → Option Expr
  | e, [] => some e
  | e, i :: position => e.parts[i]?.bind (·.partAt? position)

/-- The expression with another part at a position. -/
def replaceAt : Expr → List Nat → Expr → Expr
  | _, [], new => new
  | e, i :: position, new => e.withParts (e.parts.modify i (·.replaceAt position new))

/-! A node is its parts and what it makes of them. -/

theorem branches_parts (branches : List (Expr × Expr)) (otherwise : Option Expr) :
    Form.branches (case branches otherwise).parts = (branches, otherwise) := by
  simp only [parts]
  induction branches with
  | nil => cases otherwise <;> rfl
  | cons branch rest ih =>
    simp only [List.flatMap_cons, List.cons_append, List.nil_append, Form.branches, ih]

theorem parts_branches (es : List Expr) :
    (case (Form.branches es).1 (Form.branches es).2).parts = es := by
  simp only [parts]
  induction es using Form.branches.induct with
  | case1 => rfl
  | case2 => rfl
  | case3 condition value rest _ _ _ ih =>
    simp only [Form.branches, List.flatMap_cons, List.cons_append, List.nil_append, ih]

theorem withParts_parts (e : Expr) : e.withParts e.parts = e := by
  cases e with
  | case branches otherwise =>
    have h := branches_parts branches otherwise
    simp only [withParts, h]
  | window e partition order frame => simp [withParts, parts]
  | _ => rfl

theorem parts_withParts {e : Expr} {es : List Expr} (h : es.length = e.parts.length) :
    (e.withParts es).parts = es := by
  cases e with
  | case branches otherwise => exact parts_branches es
  | call function args => rfl
  | inList e items =>
    obtain ⟨d, ds, rfl⟩ := List.exists_cons_of_length_eq_add_one h
    rfl
  | window e partition order frame =>
    obtain ⟨d, ds, rfl⟩ := List.exists_cons_of_length_eq_add_one h
    simp [withParts, parts]
  | column _ _ | literal _ | raw _ => exact (List.length_eq_zero_iff.mp h).symm
  | binary _ _ _ | subscript _ _ | withField _ _ _ =>
    match es, h with
    | [_, _], _ => rfl
  | between _ _ _ =>
    match es, h with
    | [_, _, _], _ => rfl
  | _ =>
    match es, h with
    | [_], _ => rfl

/-! The text of a node is made of the texts of its parts. -/

/-- The clauses of a case from the texts of its conditions and values, and of the value that is left
over. -/
def clausesText : List String → String
  | [] => ""
  | [otherwise] => " ELSE " ++ otherwise
  | condition :: value :: rest => " WHEN " ++ condition ++ " THEN " ++ value ++ clausesText rest

theorem text_case_branches (force : Bool) (es : List Expr) :
    (case (Form.branches es).1 (Form.branches es).2).text force =
      "CASE" ++ clausesText (es.map (text force)) ++ " END" := by
  have hclauses : branchesText force (Form.branches es).1 ++ elseText force (Form.branches es).2 =
      clausesText (es.map (text force)) := by
    induction es using Form.branches.induct with
    | case1 => rfl
    | case2 e => simp [Form.branches, branchesText, elseText, clausesText]
    | case3 condition value rest _ _ _ ih =>
      simp only [Form.branches, branchesText, List.map_cons, clausesText, ← ih, String.append_assoc]
  rw [text, ← hclauses, ← String.append_assoc]

variable {force : Bool} {es ds : List Expr}

theorem text_getD (h : es.map (text force) = ds.map (text force)) (i : Nat) (e : Expr) :
    (es.getD i e).text force = (ds.getD i e).text force := by
  have hi := congrArg (·[i]?) h
  simp only [List.getElem?_map] at hi
  rw [List.getD_eq_getElem?_getD, List.getD_eq_getElem?_getD, ← Option.getD_map (text force), hi,
    Option.getD_map]

theorem listText_congr (h : es.map (text force) = ds.map (text force)) :
    listText force es = listText force ds := by
  rw [listText_eq, listText_eq, h]

theorem isEmpty_congr (h : es.map (text force) = ds.map (text force)) :
    es.isEmpty = ds.isEmpty := by
  rw [← List.isEmpty_map (f := text force), h, List.isEmpty_map]

theorem text_withParts (e : Expr) (h : es.map (text force) = ds.map (text force)) :
    (e.withParts es).text force = (e.withParts ds).text force := by
  have hpart := text_getD h
  have htail : es.tail.map (text force) = ds.tail.map (text force) := by
    rw [List.map_tail, List.map_tail, h]
  cases e with
  | case branches otherwise => rw [withParts, withParts, text_case_branches, text_case_branches, h]
  | window e partition order frame =>
    have hpartition : (es.tail.take partition.length).map (text force) =
        (ds.tail.take partition.length).map (text force) := by
      rw [List.map_take, List.map_take, htail]
    have horder : (es.tail.drop partition.length).map (text force) =
        (ds.tail.drop partition.length).map (text force) := by
      rw [List.map_drop, List.map_drop, htail]
    simp only [withParts, text, hpart, listText_congr hpartition, listText_congr horder,
      isEmpty_congr hpartition, isEmpty_congr horder]
  | call function args => simp only [withParts, text, listText_congr h]
  | inList e items => simp only [withParts, text, hpart, listText_congr htail]
  | _ => simp only [withParts, text, hpart]

/-! Going down to a position. -/

theorem partAt?_cons_eq_some_iff {e part : Expr} {i : Nat} {position : List Nat} :
    e.partAt? (i :: position) = some part ↔
      ∃ d, e.parts[i]? = some d ∧ d.partAt? position = some part :=
  Option.bind_eq_some_iff

theorem replaceAt_self {e part : Expr} {position : List Nat}
    (h : e.partAt? position = some part) : e.replaceAt position part = e := by
  induction position generalizing e with
  | nil => exact (Option.some.inj h).symm
  | cons i position ih =>
    obtain ⟨d, hd, hpart⟩ := partAt?_cons_eq_some_iff.mp h
    have hparts : e.parts.modify i (·.replaceAt position part) = e.parts := by
      refine List.ext_getElem? fun j => ?_
      rw [List.getElem?_modify]
      split
      · next hij =>
        subst hij
        rw [hd, Option.map_eq_map, Option.map_some, ih hpart]
      · simp
    rw [replaceAt, hparts, withParts_parts]

theorem partAt?_replaceAt {e part : Expr} {position : List Nat}
    (h : e.partAt? position = some part) (new : Expr) :
    (e.replaceAt position new).partAt? position = some new := by
  induction position generalizing e with
  | nil => rfl
  | cons i position ih =>
    obtain ⟨d, hd, hpart⟩ := partAt?_cons_eq_some_iff.mp h
    refine partAt?_cons_eq_some_iff.mpr ⟨d.replaceAt position new, ?_, ih hpart⟩
    rw [replaceAt, parts_withParts (List.length_modify _ _ _), List.getElem?_modify_eq, hd]
    rfl

/-- What stands at a position counts by its text alone. -/
theorem text_replaceAt_congr {a b : Expr} (h : a.text force = b.text force) (e : Expr)
    (position : List Nat) :
    (e.replaceAt position a).text force = (e.replaceAt position b).text force := by
  induction position generalizing e with
  | nil => exact h
  | cons i position ih =>
    refine text_withParts e (List.ext_getElem? fun j => ?_)
    simp only [List.getElem?_map, List.getElem?_modify]
    split
    · cases e.parts[j]? <;> simp [ih]
    · rfl

theorem text_template (function : String) (operands : List Expr) (lambdas : List Lambda) :
    (template force function operands lambdas).text force =
      (call function (operands ++ lambdas.map fun l => raw (l.text force))).text force := by
  simp only [template, text, listText_eq, List.map_append, List.map_map]
  rfl

/-- Splicing text is splicing the expression. With the text of a part in place of the part the whole is
written as before, wherever the part stands; and a template is written like the call of its function on
the operands and the texts of the lambdas. -/
theorem text_replaceAt_raw (force : Bool) {e part : Expr} {position : List Nat}
    (h : e.partAt? position = some part) :
    (∀ new, (e.replaceAt position new).partAt? position = some new) ∧
    (e.replaceAt position (raw (part.text force))).text force = e.text force ∧
    ∀ (function : String) (operands : List Expr) (lambdas : List Lambda),
      (e.replaceAt position (template force function operands lambdas)).text force =
        (e.replaceAt position
          (call function (operands ++ lambdas.map fun l => raw (l.text force)))).text force := by
  refine ⟨partAt?_replaceAt h, ?_, fun function operands lambdas => ?_⟩
  · have htext : (raw (part.text force)).text force = part.text force := rfl
    rw [text_replaceAt_congr htext, replaceAt_self h]
  · exact text_replaceAt_congr (text_template function operands lambdas) e position

/-- A case whose value is a window, ordered by a call. -/
def rankedName : Expr :=
  case [(binary .greater (column none "n") (literal (.integer 1)),
    window (call "rank" []) [column none "dept"]
      [sort (call "lower" [column (some "o") "first name"]) .descending .last] none)] none

theorem text_replaceAt_raw_key :
    rankedName.partAt? [1, 2, 0, 0] = some (column (some "o") "first name") ∧
    rankedName.text false = "CASE WHEN (n > 1) THEN rank() OVER (PARTITION BY dept ORDER BY " ++
      "lower(o.\x60first name\x60) DESC NULLS LAST) END" ∧
    (rankedName.replaceAt [1, 2, 0, 0] (raw "o.\x60first name\x60")).partAt? [1, 2, 0, 0] =
      some (raw "o.\x60first name\x60") ∧
    (rankedName.replaceAt [1, 2, 0, 0] (raw "o.\x60first name\x60")).text false =
      rankedName.text false ∧
    (rankedName.replaceAt [1, 2, 0, 0]
        (template false "filter" [column none "xs"] [⟨["x"], column none "x"⟩])).text false =
      (rankedName.replaceAt [1, 2, 0, 0]
        (call "filter" [column none "xs", raw "(x) -> x"])).text false := by
  have hpart : rankedName.partAt? [1, 2, 0, 0] = some (column (some "o") "first name") := rfl
  obtain ⟨hnew, htext, htemplate⟩ := text_replaceAt_raw false hpart
  exact ⟨hpart, rfl, hnew _, htext, htemplate "filter" _ _⟩

end Expr

end Columnar
