import Columnar.Proofs.Expr.Ending
import Columnar.Proofs.Expr.Pieces
import Columnar.Proofs.Qualify.Loop
import Columnar.Proofs.Text.Blank

/-! Qualifying the text of an expression is qualifying the bare columns of the expression. -/
namespace Columnar

/-- The names in the text of an expression that are no bare columns, apart from those behind a dot
and from the output name. -/
def Expr.fixedNames (e : Expr) : List (List Char) :=
  namesIn .plain none (e.unnamed.erased.text false).toList

theorem Expr.RegularOutput.cases {e : Expr} (h : e.RegularOutput) :
    (e.Regular ∧ e.unnamed = e) ∨
      ∃ operand name, e = aliased operand name ∧ operand.Regular ∧ '\x60' ∉ name.toList := by
  cases e with
  | aliased operand name => exact Or.inr ⟨operand, name, rfl, h⟩
  | _ => exact Or.inl ⟨h, rfl⟩

section Columns

variable {tableAlias : String} (hAlias : Text.isPlain tableAlias.toList) (fields : List String)

include hAlias

/-- A pass puts the qualifier in front of a bare column that is a field. -/
theorem rendersColumns_qualified :
    RendersColumns (tableAlias.toList ++ ['.']) (isNamed fields)
      (fun name => if fields.any (Text.sameName · name) then .column (some tableAlias) name
        else .column none name)
      (fun _ => .literal (.string "")) := by
  intro name hname
  refine ⟨closed_quoteIdentifier hname, closed_quoteString "", fun _ => ?_⟩
  have hfield : isNamed fields name.toList = fields.any (Text.sameName · name) := by
    simp [isNamed]
  have hquote : Text.quoteIdentifier tableAlias false = tableAlias := by
    simp [Text.quoteIdentifier, hAlias]
  simp only [Expr.text, columnText]
  rw [sweep_quoteIdentifier hname, hfield]
  split
  · simp [Expr.text, columnText, hquote]
  · rfl

theorem Expr.Regular.renders_qualified {e : Expr} (h : e.Regular) :
    RendersExpr (tableAlias.toList ++ ['.']) (isNamed fields) e (e.qualified tableAlias fields)
      e.erased :=
  Regular.renders (rendersColumns_qualified hAlias fields) e h

end Columns

/-- A pass over a word AS and an END behind it looks at the AS alone. -/
theorem sweep_clause {inserted : List Char} {fields : List String} {a s : Char}
    (hplain : Text.isPlain [a, s]) (hsame : Text.sameName (String.ofList [a, s]) "AS")
    (hEnd : isNamed fields "END".toList = false) :
    sweep inserted (isNamed fields) .plain none (' ' :: a :: s :: ' ' :: "END".toList) =
      ' ' :: ((if isNamed fields "AS".toList then inserted else []) ++
        a :: s :: ' ' :: "END".toList) := by
  have hword : Closed [a, s] := .of_isInert fun c hc =>
    isInert_of_isWord (Text.isWord_of_isPlain hplain c hc)
  have hblank : sweep inserted (isNamed fields) .plain none [' '] = [' '] := rfl
  have hlast : sweep inserted (isNamed fields) .plain none " END".toList = " END".toList := by
    apply sweep_eq_self
    rw [show namesIn .plain none " END".toList = ["END".toList] by decide]
    simpa using hEnd
  calc sweep inserted (isNamed fields) .plain none (' ' :: a :: s :: ' ' :: "END".toList)
      = sweep inserted (isNamed fields) .plain none ([' '] ++ ([a, s] ++ " END".toList)) := rfl
    _ = [' '] ++ (((if isNamed fields [a, s] then inserted else []) ++ [a, s]) ++
          " END".toList) := by
        rw [sweep_append rfl (Or.inl rfl), sweep_append hword.after_eq (Or.inr rfl), hblank, hlast,
          sweep_word hplain]
    _ = _ := by
        have hAs : isNamed fields [a, s] = isNamed fields "AS".toList :=
          isNamed_congr (by simpa using hsame)
        rw [hAs]
        simp

theorem not_isNamed_end {tableAlias : String} {fields : List String}
    (hAlias : Text.isPlain tableAlias.toList) {e : Expr} (h : e.Regular)
    (hEnd : e.endsOnColumnAs = true)
    (hFixed : ∀ name ∈ namesIn .plain none (e.erased.text false).toList,
      isNamed fields name = false) : isNamed fields "END".toList = false := by
  have hclosed := (h.renders_qualified hAlias fields).closed_erased
  obtain ⟨front, htext⟩ : ∃ front, (e.erased.text false).toList = front ++ " END".toList :=
    Expr.mapColumns_of_endsOnColumnAs _ e hEnd
  rw [htext] at hFixed
  have hfront : Quoting.plain.after front = .plain := by
    have hafter := hclosed.after_eq
    rw [htext, Quoting.after_append] at hafter
    exact eq_plain_of_after (by decide) hafter
  rw [namesIn_append hfront (Or.inr rfl)] at hFixed
  exact hFixed _ (List.mem_append_right _ (by decide))

section Qualify

variable {tableAlias : String} {fields : List String} (hAlias : Text.isPlain tableAlias.toList)
  (hFields : ∀ f ∈ fields, Text.isPlain f.toList)
  (hOther : ∀ f ∈ fields, Text.sameName f tableAlias = false)

include hAlias hFields hOther

theorem Expr.Regular.qualify_text {e : Expr} (h : e.Regular) (hEnd : e.endsOnColumnAs = false)
    (hFixed : ∀ name ∈ namesIn .plain none (e.erased.text false).toList,
      isNamed fields name = false) :
    qualify tableAlias fields (e.text false) = (e.qualified tableAlias fields).text false := by
  have hrenders := h.renders_qualified hAlias fields
  have hsweep := hrenders.sweep_eq hFixed
  have hending := Regular.ending e h
  have htrim : Text.trim (e.text false).toList = (e.text false).toList :=
    Text.trim_eq_self (Regular.head e h) hending.endsShut
  cases hnamed : isNamed fields (e.text false).toList with
  | true =>
    rw [sweep_word (isPlain_of_isNamed hFields hnamed), if_pos hnamed] at hsweep
    rw [qualify_of_isNamed hFields (by rw [htrim, hnamed]), htrim, ← String.toList_inj, ← hsweep]
    simp
  | false =>
    rw [qualify_of_not_isNamed hAlias hFields hOther hrenders.closed.apart (by rw [htrim, hnamed]),
      hending.splitAlias_eq_none hEnd]
    dsimp only [Option.getD_none]
    rw [hsweep, List.append_nil, String.ofList_toList]

theorem Expr.Regular.qualify_aliased {e : Expr} (h : e.Regular) {name : String}
    (hname : '\x60' ∉ name.toList)
    (hFixed : ∀ name ∈ namesIn .plain none (e.erased.text false).toList,
      isNamed fields name = false) :
    qualify tableAlias fields ((aliased e name).text false) =
      ((aliased e name).qualified tableAlias fields).text false := by
  have hending := Regular.ending e h
  have hrenders := h.renders_qualified hAlias fields
  have hquoted := ending_quoteIdentifier True hname
  have htext : ((aliased e name).text false).toList = (e.text false).toList ++
      ' ' :: 'A' :: 'S' :: ' ' :: (Text.quoteIdentifier name false).toList := by
    simp [text]
  have hclosed : Closed ((aliased e name).text false).toList := by
    have hclause : Closed (" AS ".toList ++ (Text.quoteIdentifier name false).toList) :=
      .append (by decide) (closed_quoteIdentifier hname) (Or.inl (by decide))
    rw [htext]
    exact hrenders.closed.append hclause (Or.inr rfl)
  have htrim : Text.trim ((aliased e name).text false).toList =
      ((aliased e name).text false).toList := by
    refine Text.trim_eq_self ?_ ?_
    · rw [htext]
      exact head_append_of_ne_nil hending.ne_nil (Regular.head e h) _
    · have hlast := (endsShut_append ((e.text false).toList ++ " AS ".toList) hquoted.ne_nil).mpr
        hquoted.endsShut
      rw [htext]
      simpa [EndsShut] using hlast
  have hnamed : isNamed fields (Text.trim ((aliased e name).text false).toList) = false := by
    rw [htrim, htext]
    exact not_isNamed_of_mem hFields (c := ' ') (by decide) (by simp)
  rw [qualify_of_not_isNamed hAlias hFields hOther hclosed.apart hnamed, htext,
    splitAlias_append (by decide) (by decide) (aliasName?_quoteIdentifier hname) hending.endsShut]
  dsimp only [Option.getD_some]
  rw [hrenders.sweep_eq hFixed, ← String.toList_inj]
  simp [qualified, mapColumns, text]

/-- The last value AS of a case and its END are taken for an output name and keep clear of the
pass. -/
theorem Expr.Regular.qualify_endsOnColumnAs {e : Expr} (h : e.Regular)
    (hEnd : e.endsOnColumnAs = true)
    (hFixed : ∀ name ∈ namesIn .plain none (e.erased.text false).toList,
      isNamed fields name = false) :
    qualify tableAlias fields (e.text false) = (e.qualified tableAlias fields).text false ↔
      isNamed fields "AS".toList = false := by
  have hrenders := h.renders_qualified hAlias fields
  obtain ⟨front, a, s, htext, hshut, ha, hs, hsame⟩ := text_of_endsOnColumnAs e hEnd
  have htrim : Text.trim (e.text false).toList = (e.text false).toList :=
    Text.trim_eq_self (Regular.head e h) (Regular.ending e h).endsShut
  have hnamed : isNamed fields (Text.trim (e.text false).toList) = false := by
    rw [htrim, htext]
    exact not_isNamed_of_mem hFields (c := ' ') (by decide) (by simp)
  have hplain : Text.isPlain [a, s] := by
    rw [Text.sameName_comm] at hsame
    have hplain := isPlain_of_sameName hsame (by decide)
    rwa [String.toList_ofList] at hplain
  have hinert : ∀ c ∈ [' '] ++ [a, s] ++ " END".toList, isInert c := by
    intro c hc
    rw [List.mem_append, List.mem_append] at hc
    rcases hc with (hc | hc) | hc
    · exact (by decide : ∀ c ∈ [' '], isInert c) c hc
    · exact isInert_of_isWord (Text.isWord_of_isPlain hplain c hc)
    · exact (by decide : ∀ c ∈ " END".toList, isInert c) c hc
  have hfront : Quoting.plain.after front = .plain := by
    have hafter := hrenders.closed.after_eq
    rw [htext, Quoting.after_append] at hafter
    exact eq_plain_of_after hinert hafter
  have hsweep := hrenders.sweep_eq hFixed
  rw [htext, sweep_append hfront (Or.inr rfl), sweep_clause hplain hsame
    (not_isNamed_end hAlias h hEnd hFixed)] at hsweep
  rw [qualify_of_not_isNamed hAlias hFields hOther hrenders.closed.apart hnamed, htext,
    splitAlias_append ha hs (by rfl) hshut]
  dsimp only [Option.getD_some]
  rw [← String.toList_inj, ← hsweep, String.toList_ofList, List.append_cancel_left_eq]
  cases hAs : isNamed fields "AS".toList with
  | false => simp
  | true =>
    simp only [↓reduceIte, Bool.true_eq_false, iff_false]
    intro heq
    have hlength := congrArg List.length heq
    simp only [List.length_cons, List.length_append] at hlength
    omega

/-- The text of an expression is qualified as the expression is, unless the expression is a case
whose last value is a bare column AS and that is a field. -/
theorem qualify_text_eq_iff {e : Expr} (h : e.RegularOutput)
    (hFixed : ∀ name ∈ e.fixedNames, isNamed fields name = false) :
    qualify tableAlias fields (e.text false) = (e.qualified tableAlias fields).text false ↔
      ¬ (e.endsOnColumnAs = true ∧ isNamed fields "AS".toList = true) := by
  rcases h.cases with ⟨hregular, hself⟩ | ⟨operand, name, rfl, hregular, hname⟩
  · rw [Expr.fixedNames, hself] at hFixed
    cases hEnd : e.endsOnColumnAs with
    | false => simp [hregular.qualify_text hAlias hFields hOther hEnd hFixed]
    | true => simp [hregular.qualify_endsOnColumnAs hAlias hFields hOther hEnd hFixed]
  · simp [hregular.qualify_aliased hAlias hFields hOther hname hFixed, Expr.endsOnColumnAs]

end Qualify

theorem qualify_text_price_as_qty :
    Text.isPlain "o".toList = true ∧ (∀ f ∈ ["qty", "Price"], Text.isPlain f.toList = true) ∧
    (∀ f ∈ ["qty", "Price"], Text.sameName f "o" = false) ∧
    (Expr.aliased (.binary .multiply (.column none "price") (.column (some "x") "qty"))
      "qty").RegularOutput ∧
    (∀ name ∈ (Expr.aliased (.binary .multiply (.column none "price") (.column (some "x") "qty"))
      "qty").fixedNames, isNamed ["qty", "Price"] name = false) ∧
    qualify "o" ["qty", "Price"] "(price * x.qty) AS qty" = "(o.price * x.qty) AS qty" := by
  have hAlias : Text.isPlain "o".toList = true := by decide
  have hFields : ∀ f ∈ ["qty", "Price"], Text.isPlain f.toList = true := by decide
  have hOther : ∀ f ∈ ["qty", "Price"], Text.sameName f "o" = false := by decide
  have hRegular : (Expr.aliased (.binary .multiply (.column none "price")
      (.column (some "x") "qty")) "qty").RegularOutput := ⟨⟨⟨by simp, by decide⟩, ⟨by simp, by decide⟩⟩, by decide⟩
  have hFixed : ∀ name ∈ (Expr.aliased (.binary .multiply (.column none "price")
      (.column (some "x") "qty")) "qty").fixedNames, isNamed ["qty", "Price"] name = false := by
    decide
  refine ⟨hAlias, hFields, hOther, hRegular, hFixed, ?_⟩
  exact (qualify_text_eq_iff hAlias hFields hOther hRegular hFixed).mpr (by decide)

/-- The words AS END at the end of a case are taken for an output name. -/
theorem qualify_text_case_as :
    (Expr.case [(.column none "c", .column none "AS")] none).RegularOutput ∧
    Text.isPlain "t".toList = true ∧ Text.isPlain "AS".toList = true ∧
    Text.sameName "AS" "t" = false ∧
    (∀ name ∈ (Expr.case [(.column none "c", .column none "AS")] none).fixedNames,
      isNamed ["AS"] name = false) ∧
    (Expr.case [(.column none "c", .column none "AS")] none).text false =
      "CASE WHEN c THEN AS END" ∧
    qualify "t" ["AS"] "CASE WHEN c THEN AS END" = "CASE WHEN c THEN AS END" ∧
    ((Expr.case [(.column none "c", .column none "AS")] none).qualified "t" ["AS"]).text false =
      "CASE WHEN c THEN t.AS END" := by
  refine ⟨?_, by decide, by decide, by decide, by decide, by decide, by decide, by decide⟩
  exact ⟨⟨⟨by simp, by decide⟩, ⟨by simp, by decide⟩, trivial⟩, trivial⟩

end Columnar
