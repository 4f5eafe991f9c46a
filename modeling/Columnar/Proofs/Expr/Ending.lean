import Columnar.Proofs.Expr.Columns
import Columnar.Proofs.Literal.Text
import Columnar.Proofs.Qualify.Ending

/-! How the text of a regular expression starts and ends. Nothing is split off it as an output name,
unless it is a case whose last value is a bare column AS. -/
namespace Columnar

variable {free : Prop}

theorem ending_quoteIdentifier (free : Prop) {name : String} (h : '\x60' ∉ name.toList) :
    Ending free (Text.quoteIdentifier name false).toList := by
  rw [Text.toList_quoteIdentifier h]
  split
  · next hplain =>
    exact .unspaced (Text.ne_nil_of_isPlain hplain) fun c hc =>
      Text.isBlank_of_isWord (Text.isWord_of_isPlain hplain c hc)
  · change Ending free ([] ++ ('\x60' :: name.toList ++ ['\x60']))
    exact .ticked h rfl

/-- A name behind a dot ends an expression. -/
theorem ending_dot (front : List Char) {name : String} (h : '\x60' ∉ name.toList) :
    Ending free (front ++ (".".toList ++ (Text.quoteIdentifier name false).toList)) := by
  rw [Text.toList_quoteIdentifier h]
  split
  · next hplain =>
    exact .joined (c := '.') (by decide) (by decide) (Text.ne_nil_of_isPlain hplain) fun c hc =>
      isAliasChar_of_isWord (Text.isWord_of_isPlain hplain c hc)
  · rw [← List.append_assoc]
    exact .ticked h ((endsShut_concat front).mpr (by decide))

theorem head_quoteIdentifier {name : String} (h : '\x60' ∉ name.toList) :
    (Text.quoteIdentifier name false).toList.head?.any Text.isBlank = false := by
  rw [Text.toList_quoteIdentifier h]
  split
  · next hplain =>
    have hword := Text.isWord_of_isPlain hplain
    cases hname : name.toList with
    | nil => rfl
    | cons c cs => exact Text.isBlank_of_isWord (hword c (by simp [hname]))
  · rfl

namespace Expr

/-- Of all regular expressions only a bare column is written with the letters A and S alone. -/
theorem exists_other (e : Expr) (h : e.Regular) (hcolumn : ∀ name, e ≠ column none name) :
    ∃ c ∈ (e.text false).toList, isLetterA c = false ∧ isLetterS c = false := by
  cases e with
  | column qualifier name =>
    cases qualifier with
    | none => exact absurd rfl (hcolumn name)
    | some q => exact ⟨'.', by simp [text, columnText], by decide⟩
  | literal value => exact (Literal.outlined_text True value).exists_other
  | raw _ => exact h.elim
  | aliased _ _ => exact h.elim
  | multiAliased _ _ => exact h.elim
  | unary op e =>
    cases op
    case bitwiseNot => exact ⟨'~', by simp [text, UnaryOp.apply], by decide⟩
    all_goals exact ⟨'(', by simp [text, UnaryOp.apply], by decide⟩
  | case branches otherwise => exact ⟨'C', by simp [text], by decide⟩
  | subscript e index => exact ⟨'[', by simp [text], by decide⟩
  | field e name => exact ⟨'.', by simp [text], by decide⟩
  | sort e direction nulls => exact ⟨' ', by simp [text], by decide⟩
  | _ => exact ⟨'(', by simp [text], by decide⟩

theorem isColumnAs_of_text {e : Expr} (h : e.Regular) {a s : Char}
    (htext : (e.text false).toList = [a, s]) (ha : isLetterA a) (hs : isLetterS s) :
    e.isColumnAs = true := by
  by_cases hcolumn : ∃ name, e = column none name
  · obtain ⟨name, rfl⟩ := hcolumn
    simp only [text, columnText, Text.toList_quoteIdentifier h.2] at htext
    split at htext
    · next hplain =>
      have hword : Text.isWord s := Text.isWord_of_isPlain hplain s (by simp [htext])
      have hlower : Text.lower name = "as" := by
        rw [Text.lower, htext]
        simp only [isLetterA, isLetterS, Bool.or_eq_true, beq_iff_eq] at ha hs
        rw [Text.isWord_iff] at hword
        rcases ha with rfl | rfl <;> rcases hs with (rfl | rfl) | hs
        any_goals rfl
        all_goals omega
      rw [isColumnAs, Text.sameName_iff, hlower]
      rfl
    · obtain ⟨rfl, -⟩ := List.cons.inj htext
      exact absurd ha (by decide)
  · obtain ⟨c, hc, hletterA, hletterS⟩ := e.exists_other h fun name heq => hcolumn ⟨name, heq⟩
    rw [htext, List.mem_cons, List.mem_singleton] at hc
    rcases hc with rfl | rfl
    · simp [ha] at hletterA
    · simp [hs] at hletterS

/-- The branches of a case end with the last value. -/
theorem branchesText_eq_append {branches : List (Expr × Expr)} {branch : Expr × Expr}
    (h : branches.getLast? = some branch) :
    ∃ front, (branchesText false branches).toList =
      (front ++ "THEN".toList) ++ ' ' :: (branch.2.text false).toList := by
  induction branches with
  | nil => cases h
  | cons next rest ih =>
    obtain ⟨condition, value⟩ := next
    cases rest with
    | nil =>
      obtain rfl : (condition, value) = branch := by simpa using h
      refine ⟨" WHEN ".toList ++ (condition.text false).toList ++ " ".toList, ?_⟩
      simp [branchesText]
    | cons next' rest =>
      obtain ⟨front, htext⟩ := ih (by simpa using h)
      refine ⟨" WHEN ".toList ++ (condition.text false).toList ++ " THEN ".toList ++
        (value.text false).toList ++ front, ?_⟩
      rw [branchesText]
      simp [htext]

/-- A case whose last value is no bare column AS leaves no word AS in front of its END. -/
theorem ending_case (front : List Char) {e : Expr} (h : e.Regular) {p : Prop}
    (he : Ending p (e.text false).toList) (hfree : free → e.isColumnAs = false) :
    Ending free ((front ++ ' ' :: (e.text false).toList) ++ " END".toList) := by
  have hshut : EndsShut (front ++ ' ' :: (e.text false).toList) := by
    rw [List.append_cons]
    exact (endsShut_append _ he.ne_nil).mpr he.endsShut
  refine .spaced hshut (by decide) (by decide) fun hp has => ?_
  obtain ⟨a, s, htext, ha, hs⟩ := he.eq_of_endsWithAs has
  have hno := hfree hp
  rw [isColumnAs_of_text h htext ha hs] at hno
  cases hno

theorem ending_sort (e : Expr) (direction : Direction) (nulls : NullOrder) :
    Ending free ((sort e direction nulls).text false).toList := by
  have hword : ∃ word, nulls.text.toList = "NULLS".toList ++ ' ' :: word ∧ 3 ≤ word.length ∧
      ∀ c ∈ word, isAliasChar c := by
    cases nulls
    · exact ⟨"FIRST".toList, rfl, by decide, by decide⟩
    · exact ⟨"LAST".toList, rfl, by decide, by decide⟩
  obtain ⟨word, htext, hlength, hchars⟩ := hword
  simp only [text, String.toList_append]
  rw [htext, ← List.append_assoc]
  refine .spaced ((endsShut_append _ (by decide)).mpr (by decide)) hlength hchars fun _ => ?_
  have hnot := not_endsWithAs_append
    ((e.text false).toList ++ " ".toList ++ direction.text.toList ++ " NUL".toList)
    (c := 'L') (d := 'S') (by decide)
  simpa using hnot

mutual

theorem Regular.ending (e : Expr) (h : e.Regular) :
    Ending (e.endsOnColumnAs = false) (e.text false).toList := by
  cases e with
  | column qualifier name =>
    cases qualifier with
    | none => exact ending_quoteIdentifier _ h.2
    | some q =>
      simp only [text, columnText, String.toList_append, List.append_assoc]
      exact ending_dot _ h.2
  | literal value => exact (Literal.outlined_text _ value).ending
  | raw _ => exact h.elim
  | aliased _ _ => exact h.elim
  | multiAliased _ _ => exact h.elim
  | unary op e =>
    cases op
    case bitwiseNot =>
      have he := Regular.ending e h
      simp only [text, UnaryOp.apply, String.toList_append]
      exact he.tilde
    all_goals
      simp only [text, UnaryOp.apply, String.toList_append]
      exact .of_getLast? _ (by decide)
  | case branches otherwise =>
    simp only [text, String.toList_append]
    cases otherwise with
    | some e =>
      have he := Regular.ending e h.2
      have hcase : Ending ((case branches (some e)).endsOnColumnAs = false) _ :=
        ending_case ("CASE".toList ++ (branchesText false branches).toList ++ " ELSE".toList) h.2 he
          fun hno => hno
      simpa [elseText] using hcase
    | none =>
      have hending := Regular.ending_branches branches h.1
      cases hlast : branches.getLast? with
      | none =>
        obtain rfl := List.getLast?_eq_none_iff.mp hlast
        change Ending _ ("CASE".toList ++ ' ' :: "END".toList)
        exact .spaced (by decide) (by decide) (by decide) fun _ =>
          not_endsWithAs_append "CA".toList (by decide)
      | some branch =>
        obtain ⟨front, htext⟩ := branchesText_eq_append hlast
        obtain ⟨hregular, he⟩ := hending branch (List.mem_of_getLast? hlast)
        have hcase : Ending ((case branches none).endsOnColumnAs = false) _ :=
          ending_case ("CASE".toList ++ (front ++ "THEN".toList)) hregular he fun hno => by
            simpa [endsOnColumnAs, hlast] using hno
        simpa [elseText, htext] using hcase
  | field e name =>
    simp only [text, String.toList_append, List.append_assoc]
    exact ending_dot _ h.2
  | sort e direction nulls => exact ending_sort _ direction nulls
  | _ =>
    simp only [text, String.toList_append]
    exact .of_getLast? _ (by decide)

theorem Regular.ending_branches (branches : List (Expr × Expr)) (h : RegularBranches branches) :
    ∀ branch ∈ branches, branch.2.Regular ∧
      Ending (branch.2.endsOnColumnAs = false) (branch.2.text false).toList := by
  match branches with
  | [] => simp
  | (condition, value) :: rest =>
    have hvalue := Regular.ending value h.2.1
    have hrest := Regular.ending_branches rest h.2.2
    intro branch hmem
    rcases List.mem_cons.mp hmem with rfl | hmem
    · exact ⟨h.2.1, hvalue⟩
    · exact hrest branch hmem

end

theorem text_of_isColumnAs {e : Expr} (h : e.isColumnAs = true) :
    ∃ a s, (e.text false).toList = [a, s] ∧ isLetterA a ∧ isLetterS s ∧
      Text.sameName (String.ofList [a, s]) "AS" := by
  match e, h with
  | column none name, h =>
    have hlower : name.toList.map Char.toLower = ['a', 's'] := by
      have := Text.sameName_iff.mp h
      simpa [Text.lower] using congrArg String.toList this
    obtain ⟨a, cs, hname, ha, hcs⟩ := List.map_eq_cons_iff.mp hlower
    obtain ⟨s, ds, rfl, hs, hds⟩ := List.map_eq_cons_iff.mp hcs
    obtain rfl := List.map_eq_nil_iff.mp hds
    have hletterA := isLetterA_of_toLower ha
    have hstart : Text.isWordStart a := by
      simp only [isLetterA, Bool.or_eq_true, beq_iff_eq] at hletterA
      rcases hletterA with rfl | rfl <;> decide
    have hword : Text.isWord s := by
      rw [← Text.isWord_toLower, hs]
      decide
    have hplain : Text.isPlain name.toList := by
      simp [hname, Text.isPlain, hstart, hword]
    have htext : (column none name).text false = name := by
      simp [text, columnText, Text.quoteIdentifier, hplain]
    refine ⟨a, s, by rw [htext, hname], hletterA, isLetterS_of_toLower hs, ?_⟩
    rw [← hname, String.ofList_toList]
    exact h

/-- What a bare column AS in front of the last END looks like. -/
theorem text_of_endsOnColumnAs (e : Expr) (h : e.endsOnColumnAs = true) :
    ∃ front a s, (e.text false).toList = front ++ ' ' :: a :: s :: ' ' :: "END".toList ∧
      EndsShut front ∧ isLetterA a ∧ isLetterS s ∧ Text.sameName (String.ofList [a, s]) "AS" := by
  match e, h with
  | unary .bitwiseNot e, h =>
    obtain ⟨front, a, s, htext, hshut, hletters⟩ := text_of_endsOnColumnAs e h
    refine ⟨'~' :: front, a, s, ?_, hshut.cons (by decide), hletters⟩
    simp [text, UnaryOp.apply, htext]
  | case branches (some e), h =>
    obtain ⟨a, s, htext, hletters⟩ := text_of_isColumnAs h
    refine ⟨"CASE".toList ++ (branchesText false branches).toList ++ " ELSE".toList, a, s, ?_,
      (endsShut_append _ (by decide)).mpr (by decide), hletters⟩
    simp [text, elseText, htext]
  | case branches none, h =>
    obtain ⟨branch, hlast, hvalue⟩ := (Option.any_eq_true ..).mp h
    obtain ⟨a, s, htext, hletters⟩ := text_of_isColumnAs hvalue
    obtain ⟨front, hbranches⟩ := branchesText_eq_append hlast
    refine ⟨"CASE".toList ++ front ++ "THEN".toList, a, s, ?_,
      (endsShut_append _ (by decide)).mpr (by decide), hletters⟩
    simp [text, elseText, hbranches, htext]

/-- Whatever its columns become, such a case ends with its END. -/
theorem mapColumns_of_endsOnColumnAs (f : String → Expr) (e : Expr) (h : e.endsOnColumnAs = true) :
    ∃ front, ((e.mapColumns f).text false).toList = front ++ " END".toList := by
  match e, h with
  | unary .bitwiseNot e, h =>
    obtain ⟨front, htext⟩ := mapColumns_of_endsOnColumnAs f e h
    refine ⟨'~' :: front, ?_⟩
    simp only [mapColumns, text, UnaryOp.apply, String.toList_append, htext]
    rfl
  | case branches otherwise, _ =>
    simp only [mapColumns, text, String.toList_append]
    exact ⟨_, rfl⟩

theorem head_append_of_ne_nil {cs : List Char} (hne : cs ≠ [])
    (h : cs.head?.any Text.isBlank = false) (back : List Char) :
    (cs ++ back).head?.any Text.isBlank = false := by
  obtain ⟨c, cs, rfl⟩ := List.exists_cons_of_ne_nil hne
  exact h

/-- The first character of a regular expression is no blank. -/
theorem Regular.head (e : Expr) (h : e.Regular) :
    (e.text false).toList.head?.any Text.isBlank = false := by
  have operand (e : Expr) (h : e.Regular) := head_append_of_ne_nil (Regular.ending e h).ne_nil
  cases e with
  | column qualifier name =>
    cases qualifier with
    | none => exact head_quoteIdentifier h.2
    | some q =>
      have hq : '\x60' ∉ q.toList := h.1 q rfl
      have hne := (ending_quoteIdentifier True hq).ne_nil
      simp only [text, columnText, String.toList_append, List.append_assoc]
      exact head_append_of_ne_nil hne (head_quoteIdentifier hq) _
  | literal value => exact (Literal.outlined_text True value).head
  | raw _ => exact h.elim
  | aliased _ _ => exact h.elim
  | multiAliased _ _ => exact h.elim
  | unary op e => cases op <;> simp [text, UnaryOp.apply, Text.isBlank]
  | call function args =>
    have hword := Text.isWord_of_isPlain h.1
    obtain ⟨c, cs, hcons⟩ := List.exists_cons_of_ne_nil (Text.ne_nil_of_isPlain h.1)
    simp only [text, String.toList_append, List.append_assoc, hcons]
    exact Text.isBlank_of_isWord (hword c (by simp [hcons]))
  | subscript e index =>
    simp only [text, String.toList_append, List.append_assoc]
    exact operand e h.1 (Regular.head e h.1) _
  | field e name =>
    simp only [text, String.toList_append, List.append_assoc]
    exact operand e h.1 (Regular.head e h.1) _
  | sort e direction nulls =>
    simp only [text, String.toList_append, List.append_assoc]
    exact operand e h (Regular.head e h) _
  | window e partition order frame =>
    simp only [text, String.toList_append, List.append_assoc]
    exact operand e h.1 (Regular.head e h.1) _
  | _ => simp [text, Text.isBlank]

end Expr

end Columnar
