import Columnar.Expr.Printer
import Columnar.Proofs.Literal.Text
import Columnar.Proofs.Number.Numeral

/-! Columns and literals with the same text. A name is written with word characters alone or starts
with a backtick. The text of a literal starts with a digit or has a mark in it that no word has, with
three exceptions: the constants are words, and only quoting tells a column of such a name apart. -/
namespace Columnar

/-- Whether a text has the form of a written name: between backticks, or bare. -/
def isWrittenName (cs : List Char) : Bool := cs.head? == some '\x60' || Text.isPlain cs

theorem isWrittenName_quoteIdentifier (name : String) (force : Bool) :
    isWrittenName (Text.quoteIdentifier name force).toList := by
  unfold Text.quoteIdentifier
  split
  · next hplain =>
    simp only [Bool.and_eq_true] at hplain
    simp [isWrittenName, hplain.2]
  · simp [isWrittenName]

/-- A plain word is written for the column of this name alone, when columns are not quoted. -/
theorem Text.quoteIdentifier_eq_iff {name word : String} {force : Bool}
    (hword : Text.isPlain word.toList) :
    Text.quoteIdentifier name force = word ↔ force = false ∧ name = word := by
  constructor
  · intro h
    unfold Text.quoteIdentifier at h
    split at h
    · next hplain =>
      simp only [Bool.and_eq_true, Bool.not_eq_true'] at hplain
      exact ⟨hplain.1, h⟩
    · rw [← h, Text.toList_backquote] at hword
      cases hword
  · rintro ⟨rfl, rfl⟩
    simp [Text.quoteIdentifier, hword]

/-! Texts that are not written names. -/

theorem not_isWrittenName_of_mark {cs : List Char} {c : Char} (hmem : c ∈ cs)
    (hc : Text.isWord c = false) (hhead : cs.head? ≠ some '\x60') : isWrittenName cs = false := by
  have hplain : Text.isPlain cs = false :=
    Bool.eq_false_iff.mpr fun h => Text.not_mem_of_isPlain h hc hmem
  simp [isWrittenName, hhead, hplain]

theorem SignedNumeral.not_isWrittenName {cs : List Char} (h : SignedNumeral cs) :
    isWrittenName cs = false := by
  obtain ⟨c, rest, rfl, hc⟩ := h.exists_cons
  rcases hc with rfl | hc
  · rfl
  · have htick : c ≠ '\x60' := by
      rintro rfl
      cases hc
    simp [isWrittenName, Text.isPlain, htick, Text.isWordStart_of_isDigit hc]

namespace Literal

theorem not_isWrittenName_suffixed {num suffix : String} (h : SignedNumeral num.toList)
    (hsuffix : ∀ c ∈ suffix.toList, Text.isWord c) :
    isWrittenName (num ++ suffix).toList = false := by
  rw [String.toList_append]
  exact (h.letters hsuffix).not_isWrittenName

theorem not_isWrittenName_floatingText {w : Width} (x : Floating w) {suffix type : String}
    (hsuffix : ∀ c ∈ suffix.toList, Text.isWord c) :
    isWrittenName (floatingText x suffix type).toList = false := by
  unfold floatingText
  split
  · exact not_isWrittenName_of_mark (c := '(') (by simp) (by decide) (by simp)
  · next hnan =>
    split
    · exact not_isWrittenName_of_mark (c := '(') (by simp) (by decide) (by simp)
    · next hinf =>
      refine not_isWrittenName_suffixed ?_ hsuffix
      rw [Floating.text, if_neg hnan, if_neg hinf]
      exact x.signedNumeral_finiteText _

/-- Only the constants are written like names. -/
theorem not_isWrittenName_text {l : Literal} (hnull : l ≠ null) (hboolean : ∀ b, l ≠ boolean b) :
    isWrittenName l.text.toList = false := by
  have hsigned (n : Int) : SignedNumeral (Number.signed n).toList := Number.signedNumeral_signed n
  have hquoted {cs : List Char} (hmem : '\'' ∈ cs) (hhead : cs.head? ≠ some '\x60') :
      isWrittenName cs = false := not_isWrittenName_of_mark hmem (by decide) hhead
  cases l with
  | null => exact absurd rfl hnull
  | boolean b => exact absurd rfl (hboolean b)
  | byte n => exact not_isWrittenName_suffixed (hsigned _) (by decide)
  | short n => exact not_isWrittenName_suffixed (hsigned _) (by decide)
  | integer n => exact (hsigned _).not_isWrittenName
  | long n => exact not_isWrittenName_suffixed (hsigned _) (by decide)
  | float x => exact not_isWrittenName_floatingText x (by decide)
  | double x => exact not_isWrittenName_floatingText x (by decide)
  | decimal d => exact not_isWrittenName_suffixed d.signedNumeral_text (by decide)
  | string s => exact hquoted (by simp [text]) (by simp [text])
  | binary bytes => exact hquoted (by simp [text]) (by simp [text])
  | date d => exact hquoted (by simp [text]) (by simp [text])
  | timestamp t => exact hquoted (by simp [text]) (by simp [text])
  | interval i =>
    exact not_isWrittenName_of_mark (c := ' ') (by simp [text, Interval.text]) (by decide)
      (by simp [text, Interval.text])
  | array items =>
    exact not_isWrittenName_of_mark (c := '(') (by simp [text]) (by decide) (by simp [text])

end Literal

namespace Expr

/-- A column has the text of a literal only when columns are not quoted and its name is the word
of that constant, in this case. -/
theorem text_column_eq_text_literal_iff (name : String) (l : Literal) (force : Bool) :
    (column none name).text force = (literal l).text force ↔
      force = false ∧ (name = "NULL" ∧ l = .null ∨
        name = "true" ∧ l = .boolean true ∨ name = "false" ∧ l = .boolean false) := by
  rw [text, text, columnText]
  constructor
  · intro h
    by_cases hnull : l = .null
    · subst hnull
      obtain ⟨hforce, hname⟩ := (Text.quoteIdentifier_eq_iff (by decide)).mp h
      exact ⟨hforce, .inl ⟨hname, rfl⟩⟩
    · by_cases hboolean : ∃ b, l = .boolean b
      · obtain ⟨b, rfl⟩ := hboolean
        have hword : Text.isPlain (Literal.boolean b).text.toList := by cases b <;> decide
        obtain ⟨hforce, hname⟩ := (Text.quoteIdentifier_eq_iff hword).mp h
        cases b with
        | true => exact ⟨hforce, .inr (.inl ⟨hname, rfl⟩)⟩
        | false => exact ⟨hforce, .inr (.inr ⟨hname, rfl⟩)⟩
      · have hwritten := isWrittenName_quoteIdentifier name force
        rw [h, Literal.not_isWrittenName_text hnull fun b hb => hboolean ⟨b, hb⟩] at hwritten
        cases hwritten
  · rintro ⟨rfl, ⟨rfl, rfl⟩ | ⟨rfl, rfl⟩ | ⟨rfl, rfl⟩⟩ <;> decide

theorem text_column_null :
    (column none "NULL").text false = (literal .null).text false := by decide

end Expr

end Columnar
