import Columnar.Expr.Printer
import Columnar.Literal.Printer
import Columnar.Proofs.Number.Marks
import Columnar.Proofs.Qualify.Ending
import Columnar.Proofs.Qualify.Pieces

/-! The text of a literal as a piece of an expression: it closes its quotes, and no output name is
split off its end. -/
namespace Columnar

open Number

theorem isInert_of_isMark {c : Char} (h : isMark c) : isInert c := by
  simp only [isMark, Bool.or_eq_true, beq_iff_eq] at h
  rcases h with ((((h | rfl) | rfl) | rfl) | rfl) | rfl
  · exact isInert_of_isWord (by simp [Text.isWord, Char.isAlphanum, h])
  all_goals decide

/-- A text without quotes. -/
def Inert (s : String) : Prop := ∀ c ∈ s.toList, isInert c

instance (s : String) : Decidable (Inert s) :=
  inferInstanceAs (Decidable (∀ c ∈ s.toList, isInert c))

theorem Inert.append {s t : String} (h : Inert s) (h' : Inert t) : Inert (s ++ t) := by
  intro c hc
  rw [String.toList_append, List.mem_append] at hc
  exact hc.elim (h c) (h' c)

theorem inert_of_marks {s : String} (h : Marks s) : Inert s :=
  fun c hc => isInert_of_isMark (h c hc)

theorem Date.marks_text (d : Date) : Marks d.text := by
  have hyear : Marks (yearText d.year) := by
    unfold yearText
    dsimp only
    split
    · exact Marks.append (by decide) (marks_padded _ _)
    · split
      · exact Marks.append (by decide) (marks_padded _ _)
      · exact marks_padded _ _
  exact (((hyear.append (by decide)).append (marks_padded _ _)).append (by decide)).append
    (marks_padded _ _)

theorem Timestamp.marks_fractionText (n : Nat) : Marks (fractionText n) := by
  unfold fractionText
  split
  · decide
  · split
    · exact Marks.append (by decide) (marks_padded _ _)
    · split <;> exact Marks.append (by decide) (marks_padded _ _)

theorem Date.inert_text (d : Date) : Inert d.text := inert_of_marks d.marks_text

theorem Timestamp.inert_text (t : Timestamp) : Inert t.text := by
  have hdigits (width n : Nat) : Inert (padded width n) := inert_of_marks (marks_padded width n)
  exact (((((((t.date.inert_text.append (by decide)).append (hdigits _ _)).append
    (by decide)).append (hdigits _ _)).append (by decide)).append (hdigits _ _)).append
    (inert_of_marks (marks_fractionText _)))

theorem Interval.inert_text (i : Interval) : Inert i.text := by
  have hsigned (n : Int) : Inert (signed n) := inert_of_marks (marks_signed n)
  exact (((((Inert.append (by decide) (hsigned _)).append (by decide)).append
    (hsigned _)).append (by decide)).append (hsigned _)).append (by decide)

theorem Inert.closed {s : String} (h : Inert s) : Closed s.toList := Closed.of_isInert h

namespace Literal

theorem itemsText_eq (ls : List Literal) : itemsText ls = ", ".intercalate (ls.map text) := by
  induction ls with
  | nil => rfl
  | cons l ls ih =>
    cases ls with
    | nil => rw [itemsText, List.map_singleton, String.intercalate_singleton]
    | cons l' ls =>
      rw [itemsText, ih]
      · simp
      · simp

theorem inert_hexBytes (bytes : List UInt8) : Inert (String.ofList (bytes.flatMap hexByte)) := by
  have hdigit : ∀ n < 16, isInert (hexDigit n) := by decide
  intro c hc
  rw [String.toList_ofList, List.mem_flatMap] at hc
  obtain ⟨b, -, hc⟩ := hc
  have hb : b.toNat < 256 := b.toNat_lt
  simp only [hexByte, List.mem_cons, List.not_mem_nil, or_false] at hc
  rcases hc with rfl | rfl
  · exact hdigit _ (by omega)
  · exact hdigit _ (by omega)

theorem marks_floating {w : Width} {x : Floating w} (hnan : x.isNaN = false)
    (hinf : x.isInfinite = false) : Marks x.text := by
  unfold Floating.text
  rw [hnan, hinf]
  exact x.marks_finiteText _

theorem closed_floatingText {w : Width} (x : Floating w) {suffix type : String}
    (hsuffix : Inert suffix) (htype : Inert type) : Closed (floatingText x suffix type).toList := by
  have hend : Closed (type ++ ")").toList := (htype.append (by decide)).closed
  unfold floatingText
  split
  · rw [String.append_assoc, String.toList_append]
    exact Closed.append (by decide) hend (Or.inl (by decide))
  · next hnan =>
    split
    · rw [String.append_assoc, String.toList_append]
      refine Closed.append ?_ hend (Or.inl ?_)
      all_goals split
      all_goals decide
    · next hinf =>
      have hmarks := marks_floating (Bool.eq_false_iff.mpr hnan) (Bool.eq_false_iff.mpr hinf)
      exact ((inert_of_marks hmarks).append hsuffix).closed

/-- A literal between single quotes, behind a keyword. -/
theorem closed_quoted (keyword : String) {body : String} (hkeyword : Inert keyword)
    (hbody : Inert body) :
    Closed (keyword.toList ++ ('\'' :: body.toList ++ ['\''])) :=
  hkeyword.closed.append (InLiteral.of_isInert hbody).closed (Or.inr rfl)

theorem closed_signed (n : Int) {suffix : String} (h : Inert suffix) :
    Closed (signed n ++ suffix).toList :=
  ((inert_of_marks (marks_signed n)).append h).closed

mutual

theorem closed_text (l : Literal) : Closed l.text.toList := by
  cases l with
  | null => exact (by decide)
  | boolean b => cases b <;> exact (by decide)
  | byte n => exact closed_signed _ (by decide)
  | short n => exact closed_signed _ (by decide)
  | integer n => exact (inert_of_marks (marks_signed n.toInt)).closed
  | long n => exact closed_signed _ (by decide)
  | float x => exact closed_floatingText x (by decide) (by decide)
  | double x => exact closed_floatingText x (by decide) (by decide)
  | decimal d => exact ((inert_of_marks d.marks_text).append (by decide)).closed
  | string s => exact closed_quoteString s
  | binary bytes => simpa [text] using closed_quoted "X" (by decide) (inert_hexBytes bytes)
  | date d => simpa [text] using closed_quoted "DATE " (by decide) d.inert_text
  | timestamp t =>
    simpa [text] using closed_quoted "TIMESTAMP " (by decide) t.inert_text
  | interval i => exact i.inert_text.closed
  | array items =>
    have hitems := closed_itemsText items
    rw [text, String.toList_append, String.toList_append]
    exact (hitems.behind (by decide)).ended (by decide)

theorem closed_itemsText (items : List Literal) : Closed (itemsText items).toList := by
  match items with
  | [] => exact ⟨rfl, rfl⟩
  | [l] => exact closed_text l
  | l :: m :: ls =>
    have hl := closed_text l
    have hls := closed_itemsText (m :: ls)
    rw [itemsText, String.append_assoc, String.toList_append, String.toList_append]
    · exact hl.append (hls.behind (by decide)) (Or.inr rfl)
    · simp

end

/-! From outside a literal is neither a word that could be part of an output name nor blank at
its ends. -/

/-- A text that neither starts nor ends with a blank, has one of the known endings and is not made
up of the letters of AS. -/
structure Outlined (free : Prop) (cs : List Char) : Prop where
  ending : Ending free cs
  head : cs.head?.any Text.isBlank = false
  exists_other : ∃ c ∈ cs, isLetterA c = false ∧ isLetterS c = false

theorem Outlined.shut {free : Prop} {front : List Char} {c : Char} (hblank : Text.isBlank c = false)
    (hc : isAliasChar c = false) (htick : c ≠ '\x60')
    (hhead : (front ++ [c]).head?.any Text.isBlank = false) : Outlined free (front ++ [c]) where
  ending := .shut hblank hc htick
  head := hhead
  exists_other := by
    refine ⟨c, by simp, Bool.eq_false_iff.mpr fun h => ?_, Bool.eq_false_iff.mpr fun h => ?_⟩
    · simp [isAliasChar_of_isLetterA h] at hc
    · simp [isAliasChar_of_isLetterS h] at hc

theorem Outlined.unspaced {free : Prop} {cs : List Char} (h : ∀ c ∈ cs, Text.isBlank c = false)
    (hother : ∃ c ∈ cs, isLetterA c = false ∧ isLetterS c = false) : Outlined free cs where
  ending := .unspaced (by rintro rfl; simp at hother) h
  head := by
    cases cs with
    | nil => rfl
    | cons c cs => exact h c (by simp)
  exists_other := hother

theorem not_letter_of_isMark {c : Char} (h : isMark c) :
    isLetterA c = false ∧ isLetterS c = false := by
  constructor
  · refine Bool.eq_false_iff.mpr fun hletter => ?_
    simp only [isLetterA, Bool.or_eq_true, beq_iff_eq] at hletter
    rcases hletter with rfl | rfl <;> exact absurd h (by decide)
  · refine Bool.eq_false_iff.mpr fun hletter => ?_
    simp only [isLetterS, Bool.or_eq_true, beq_iff_eq] at hletter
    rcases hletter with (rfl | rfl) | hletter
    · exact absurd h (by decide)
    · exact absurd h (by decide)
    · have : c = Char.ofNat 0x17f := by
        rw [← Char.toNat_inj, hletter]
        rfl
      subst this
      exact absurd h (by decide)

theorem unspaced_append {num suffix : String} (hnum : Marks num)
    (hsuffix : ∀ c ∈ suffix.toList, Text.isBlank c = false) :
    ∀ c ∈ (num ++ suffix).toList, Text.isBlank c = false := by
  intro c hc
  rw [String.toList_append, List.mem_append] at hc
  exact hc.elim (fun hc => isBlank_of_isMark (hnum c hc)) (hsuffix c)

theorem outlined_signed (free : Prop) (n : Int) (suffix : String)
    (hsuffix : ∀ c ∈ suffix.toList, Text.isBlank c = false) :
    Outlined free (signed n ++ suffix).toList := by
  refine .unspaced (unspaced_append (marks_signed n) hsuffix) ?_
  obtain ⟨c, cs, hcons⟩ := List.exists_cons_of_ne_nil (signed_ne_empty n)
  have hc : c ∈ (signed n).toList := by simp [hcons]
  exact ⟨c, by simp [hc], not_letter_of_isMark (marks_signed n c hc)⟩

theorem outlined_floatingText (free : Prop) {w : Width} (x : Floating w) {suffix type : String}
    (hsuffix : ∀ c ∈ suffix.toList, Text.isBlank c = false)
    (hother : ∃ c ∈ suffix.toList, isLetterA c = false ∧ isLetterS c = false) :
    Outlined free (floatingText x suffix type).toList := by
  unfold floatingText
  split
  · rw [String.toList_append]
    exact .shut (by decide) (by decide) (by decide) (by simp [Text.isBlank])
  · next hnan =>
    split
    · rw [String.toList_append]
      exact .shut (by decide) (by decide) (by decide) (by simp [Text.isBlank])
    · next hinf =>
      have hmarks := marks_floating (Bool.eq_false_iff.mpr hnan) (Bool.eq_false_iff.mpr hinf)
      refine .unspaced (unspaced_append hmarks hsuffix) ?_
      obtain ⟨c, hc, hletter⟩ := hother
      exact ⟨c, by simp [hc], hletter⟩

theorem outlined_interval (free : Prop) (i : Interval) : Outlined free i.text.toList where
  ending := by
    obtain ⟨init, c, hlast⟩ := eq_concat_of_ne_nil (signed_ne_empty i.microseconds.toInt)
    have hc : isMark c := marks_signed i.microseconds.toInt c (by simp [hlast])
    unfold Interval.text
    rw [String.toList_append]
    change Ending free (_ ++ ' ' :: "MICROSECONDS".toList)
    refine .spaced ?_ (by decide) (by decide) fun _ has => ?_
    · rw [String.toList_append, hlast, ← List.append_assoc, endsShut_concat]
      exact isBlank_of_isMark hc
    · obtain ⟨front, b, a, s, heq, -, -, hs⟩ := has
      rw [String.toList_append, hlast, ← List.append_assoc, List.append_cons front b,
        List.append_cons _ a] at heq
      obtain rfl := (concat_inj heq).2
      have hnot := (not_letter_of_isMark hc).2
      simp [hs] at hnot
  head := by simp [Interval.text, Text.isBlank]
  exists_other := ⟨'I', by simp [Interval.text], by decide⟩

theorem outlined_text (free : Prop) (l : Literal) : Outlined free l.text.toList := by
  cases l with
  | null => exact .unspaced (by decide) ⟨'N', by decide, by decide⟩
  | boolean b => cases b <;> exact .unspaced (by decide) ⟨'e', by decide, by decide⟩
  | byte n => exact outlined_signed free _ _ (by decide)
  | short n => exact outlined_signed free _ _ (by decide)
  | integer n =>
    have h := outlined_signed free n.toInt "" (by simp)
    rwa [String.append_empty] at h
  | long n => exact outlined_signed free _ _ (by decide)
  | float x => exact outlined_floatingText free x (by decide) ⟨'F', by decide, by decide⟩
  | double x => exact outlined_floatingText free x (by decide) ⟨'D', by decide, by decide⟩
  | decimal d =>
    exact .unspaced (unspaced_append d.marks_text (by decide)) ⟨'B', by simp [text], by decide⟩
  | string s =>
    rw [text, Text.toList_quoteString]
    exact .shut (by decide) (by decide) (by decide) rfl
  | binary bytes =>
    rw [text, String.toList_append]
    exact .shut (by decide) (by decide) (by decide) (by simp [Text.isBlank])
  | date d =>
    rw [text, String.toList_append]
    exact .shut (by decide) (by decide) (by decide) (by simp [Text.isBlank])
  | timestamp t =>
    rw [text, String.toList_append]
    exact .shut (by decide) (by decide) (by decide) (by simp [Text.isBlank])
  | interval i => exact outlined_interval free i
  | array items =>
    rw [text, String.toList_append]
    exact .shut (by decide) (by decide) (by decide) (by simp [Text.isBlank])

end Literal

end Columnar
