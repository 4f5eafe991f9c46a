import Columnar.Proofs.Expr.Reading
import Columnar.Proofs.Literal.Words

/-! The text of a literal is read back as it stands. A number is a run of characters that nothing
behind it prolongs, and a quoted text ends with the first quote that is not escaped. -/
namespace Columnar.Expr

/-! Quoted texts. -/

theorem readQuoted_char {c : Char} (hquote : c ≠ '\'') (hslash : c ≠ '\\') (cs : List Char) :
    readQuoted (c :: cs) = (readQuoted cs).map fun (inner, rest) => (c :: inner, rest) := by
  rw [readQuoted]
  · exact hquote
  · exact fun h _ => hslash h
  · exact fun _ _ h _ => hslash h

theorem readQuoted_inert {body : List Char} (h : ∀ c ∈ body, isInert c) (rest : List Char) :
    readQuoted (body ++ '\'' :: rest) = some (body, rest) := by
  induction body with
  | nil => rfl
  | cons c body ih =>
    have hc : isInert c := h c (by simp)
    simp only [isInert, Bool.and_eq_true, bne_iff_ne] at hc
    rw [List.cons_append, readQuoted_char hc.1.1 hc.2, ih fun d hd => h d (by simp [hd])]
    rfl

theorem readQuoted_escapeChar (c : Char) (cs : List Char) :
    readQuoted (Text.escapeChar c ++ cs) =
      (readQuoted cs).map fun (inner, rest) => (Text.escapeChar c ++ inner, rest) := by
  unfold Text.escapeChar
  split
  case h_6 hslash hquote _ _ _ => exact readQuoted_char hquote hslash cs
  all_goals rfl

theorem readQuoted_escaped (body rest : List Char) :
    readQuoted (body.flatMap Text.escapeChar ++ '\'' :: rest) =
      some (body.flatMap Text.escapeChar, rest) := by
  induction body with
  | nil => rfl
  | cons c body ih =>
    rw [List.flatMap_cons, List.append_assoc, readQuoted_escapeChar, ih]
    rfl

/-! Numerals. -/

/-- A text behind the character `previous` that belongs to a number as a whole. -/
def SpansNumber (previous : Option Char) (cs : List Char) : Prop :=
  ∀ rest, spanNumber previous (cs ++ rest) =
    (cs ++ (spanNumber (lastOf previous cs) rest).1, (spanNumber (lastOf previous cs) rest).2)

namespace SpansNumber

variable {previous : Option Char} {cs ds : List Char}

theorem append (h : SpansNumber previous cs) (h' : SpansNumber (lastOf previous cs) ds) :
    SpansNumber previous (cs ++ ds) := by
  intro rest
  have hlast : lastOf (lastOf previous cs) ds = lastOf previous (cs ++ ds) := by
    simp [lastOf, Option.or_assoc]
  rw [List.append_assoc, h, h', hlast, List.append_assoc]

theorem cons {c : Char} (h : SpansNumber (some c) cs)
    (hc : ∀ rest, Text.isWord c ||
      ((cs ++ rest).head?.any Char.isDigit && joinsDigits previous c)) :
    SpansNumber previous (c :: cs) := by
  intro rest
  rw [List.cons_append, spanNumber, hc, if_pos rfl, h, lastOf_cons]
  rfl

theorem of_isWord (h : ∀ c ∈ cs, Text.isWord c) : SpansNumber previous cs := by
  induction cs generalizing previous with
  | nil => exact fun _ => rfl
  | cons c cs ih =>
    have hc : Text.isWord c := h c (by simp)
    exact .cons (ih fun d hd => h d (by simp [hd])) fun rest => by simp [hc]

theorem joined {c : Char} (hc : joinsDigits previous c) (hne : cs ≠ [])
    (h : ∀ d ∈ cs, d.isDigit) : SpansNumber previous (c :: cs) := by
  refine .cons (.of_isWord fun d hd => Text.isWord_of_isDigit (h d hd)) fun rest => ?_
  obtain ⟨d, ds, rfl⟩ := List.exists_cons_of_ne_nil hne
  have hd : d.isDigit := h d (by simp)
  simp [hc, hd]

theorem of_numeral (h : Numeral cs) : SpansNumber none cs := by
  induction h with
  | digits _ hdigits => exact .of_isWord fun d hd => Text.isWord_of_isDigit (hdigits d hd)
  | fraction _ hne hdigits ih => exact ih.append (.joined rfl hne hdigits)
  | @exponent cs ds mark sign _ hmark hsign hne hdigits ih =>
    refine ih.append (.cons (.joined ?_ hne hdigits) fun rest => ?_)
    · rcases hsign with rfl | rfl <;> rcases hmark with rfl | rfl <;> rfl
    · rcases hmark with rfl | rfl <;> rfl
  | letters _ hletters ih => exact ih.append (.of_isWord hletters)

end SpansNumber

/-- A number ends in front of a text that can stand behind an expression. -/
theorem spanNumber_of_follows {rest : List Char} (h : follows rest) (previous : Option Char) :
    spanNumber previous rest = ([], rest) := by
  cases rest with
  | nil => rfl
  | cons c rest =>
    rw [spanNumber, if_neg]
    simp only [follows, Bool.or_eq_true, beq_iff_eq, Bool.and_eq_true] at h
    rcases h with ((((rfl | rfl) | rfl) | rfl) | rfl) | ⟨rfl, h⟩
    any_goals simp [Text.isWord, joinsDigits]
    simpa using h

theorem readNumber_append {cs rest : List Char} (h : SignedNumeral cs) (hrest : follows rest) :
    readNumber (cs ++ rest) = some (cs, rest) := by
  have hrun {cs : List Char} (h : Numeral cs) : spanNumber none (cs ++ rest) = (cs, rest) := by
    rw [SpansNumber.of_numeral h, spanNumber_of_follows hrest, List.append_nil]
  cases h with
  | positive h =>
    obtain ⟨c, ds, rfl, hc⟩ := h.exists_cons
    have hsign : behind ['-'] (c :: ds ++ rest) = none := by
      have : '-' ≠ c := by
        rintro rfl
        cases hc
      simp [behind, this]
    simp only [readNumber, hsign, hrun h]
    simp [hc]
  | @negative cs h =>
    obtain ⟨c, ds, rfl, hc⟩ := h.exists_cons
    simp only [List.cons_append, readNumber, behind, ↓reduceIte]
    rw [← List.cons_append, hrun h]
    simp [hc]

theorem Primary.number {text : String} (h : SignedNumeral text.toList) :
    Primary text.toList (.raw text) := by
  intro rest hrest
  have hread := readNumber_append h hrest
  obtain ⟨c, cs, hcons, hc⟩ := h.exists_cons
  have hne {d : Char} (hminus : d ≠ '-') (hd : d.isDigit = false) : c ≠ d := by
    rintro rfl
    simp [hminus, hd] at hc
  have hstart : Text.isWordStart c = false := by
    rcases hc with rfl | hc
    · decide
    · exact Text.isWordStart_of_isDigit hc
  refine .step (fun fuel => ?_) (.done _)
  rw [hcons, List.cons_append] at hread ⊢
  rw [readPrimary, if_neg (hne (by decide) (by decide)), if_neg (hne (by decide) (by decide)),
    if_neg (hne (by decide) (by decide)), if_neg (by simp [hstart]), hread, ← hcons]
  simp

/-- A number with the letters that tell its type. -/
theorem Primary.suffixed {num suffix : String} (h : SignedNumeral num.toList)
    (hsuffix : ∀ c ∈ suffix.toList, Text.isWord c) :
    Primary (num ++ suffix).toList (.raw (num ++ suffix)) := by
  refine .number ?_
  rw [String.toList_append]
  exact h.letters hsuffix

/-! Literals. -/

/-- A text between single quotes, as it is read behind the first of them. -/
def Quotable (body : List Char) : Prop :=
  ∀ rest, readQuoted (body ++ '\'' :: rest) = some (body, rest)

theorem Primary.quoted {body : String} (h : Quotable body.toList) :
    Primary ("'" ++ body ++ "'").toList (.raw ("'" ++ body ++ "'")) := by
  intro rest _
  have hread := h rest
  have htext : ("'" ++ body ++ "'").toList ++ rest = '\'' :: (body.toList ++ '\'' :: rest) := by
    simp
  have hraw : String.ofList ('\'' :: body.toList ++ ['\'']) = "'" ++ body ++ "'" := by
    simp [← String.toList_inj]
  rw [htext]
  refine .step (fun fuel => ?_) (.done _)
  change (readQuoted _).map _ = _
  rw [hread, Option.map_some]
  dsimp only
  rw [hraw]

/-- A keyword, what stands between it and a quoted text, and that text. -/
theorem Primary.keywordQuoted (keyword gap : String) {front body : String}
    (hfront : keyword ++ gap = front) (hplain : Text.isPlain keyword.toList)
    (hgap : ∀ rest, (gap.toList ++ rest).head?.any Text.isWord = false)
    (hread : ∀ fuel cs, readWord (fuel + 2) keyword (gap.toList ++ cs) = (do
      let (inner, cs) ← readQuoted cs
      some (.raw (keyword ++ gap ++ String.ofList inner ++ "'"), cs)))
    (h : Quotable body.toList) :
    Primary (front ++ body ++ "'").toList (.raw (front ++ body ++ "'")) := by
  subst hfront
  intro rest _
  have hquoted := h rest
  have htext : (keyword ++ gap ++ body ++ "'").toList ++ rest =
      keyword.toList ++ (gap.toList ++ (body.toList ++ '\'' :: rest)) := by simp
  rw [htext]
  refine reads_word hplain (hgap _) (.step₂ (fun fuel => ?_) (.done _))
  rw [hread, hquoted]
  simp only [Option.bind_eq_bind, Option.bind_some, String.ofList_toList]

theorem Primary.constant {word : String} (hplain : Text.isPlain word.toList)
    (hword : keywords.lookup word = some .constant) : Primary word.toList (.raw word) := by
  intro rest hrest
  refine reads_word hplain (isWord_of_follows hrest) (.step (fun fuel => ?_) (.done _))
  simp only [readWord, hword]

theorem readInterval_text (i : Interval) (rest : List Char) :
    readInterval (' ' :: ((Number.signed i.months.toInt).toList ++ (" MONTHS ".toList ++
      ((Number.signed i.days.toInt).toList ++ (" DAYS ".toList ++
        ((Number.signed i.microseconds.toInt).toList ++ (" MICROSECONDS".toList ++ rest))))))) =
      some (i.text, rest) := by
  have hsigned (n : Int) {rest : List Char} (hrest : follows rest) :
      readNumber ((Number.signed n).toList ++ rest) = some ((Number.signed n).toList, rest) :=
    readNumber_append (Number.signedNumeral_signed n) hrest
  simp only [readInterval, behind, ↓reduceIte, Option.bind_eq_bind, Option.bind_some]
  rw [hsigned _ rfl]
  simp only [behind_append, Option.bind_some]
  rw [hsigned _ rfl]
  simp only [behind_append, Option.bind_some]
  rw [hsigned _ rfl]
  simp only [behind_append, Option.bind_some, String.ofList_toList]
  rfl

theorem Primary.interval (i : Interval) : Primary i.text.toList (.raw i.text) := by
  intro rest _
  have hplain : Text.isPlain "INTERVAL".toList := by decide
  have htext : i.text.toList ++ rest = "INTERVAL".toList ++ ' ' ::
      ((Number.signed i.months.toInt).toList ++ (" MONTHS ".toList ++
        ((Number.signed i.days.toInt).toList ++ (" DAYS ".toList ++
          ((Number.signed i.microseconds.toInt).toList ++ (" MICROSECONDS".toList ++ rest)))))) := by
    simp [Interval.text]
  rw [htext]
  refine reads_word hplain rfl (.step (fun fuel => ?_) (.done _))
  change (readInterval _).map _ = _
  rw [readInterval_text]
  rfl

theorem readWord_array (fuel : Nat) (cs : List Char) :
    readWord (fuel + 1) "array" ('(' :: cs) = (do
      let (items, cs) ← readItems fuel cs
      let cs ← behind [')'] cs
      some (.raw ("array(" ++ ", ".intercalate (items.map rawText) ++ ")"), cs)) := by
  have harray : keywords.lookup "array" = some .array := rfl
  rw [readWord, harray]
  rfl

theorem Items.array {text : String} {items : List Expr} (h : Items text.toList items)
    (htext : ", ".intercalate (items.map rawText) = text) :
    Primary ("array(" ++ text ++ ")").toList (.raw ("array(" ++ text ++ ")")) := by
  intro rest _
  have hread := h (')' :: rest) rfl
  have hplain : Text.isPlain "array".toList := by decide
  have hfront : ("array(" ++ text ++ ")").toList ++ rest =
      "array".toList ++ '(' :: (text.toList ++ ')' :: rest) := by simp
  rw [hfront]
  refine reads_word hplain rfl (.step (fun fuel => readWord_array fuel _) (hread.bind ?_))
  simp only [htext]
  exact .done _

/-- A number without digits, as a cast of its name. -/
theorem Primary.numberCast {name type : String} (hname : ∀ c ∈ name.toList, isInert c)
    (htype : ∀ rest, choose numberTypes ((type ++ ")").toList ++ rest) = some (type, rest)) :
    Primary ("CAST('" ++ name ++ "' AS " ++ type ++ ")").toList
      (.raw ("CAST('" ++ name ++ "' AS " ++ type ++ ")")) := by
  have hquoted : Primary ("'" ++ name ++ "'").toList (.raw ("'" ++ name ++ "'")) :=
    .quoted (readQuoted_inert hname)
  have htext : "CAST('" ++ name ++ "' AS " ++ type ++ ")" =
      "CAST(" ++ ("'" ++ name ++ "'") ++ " AS " ++ type ++ ")" := by
    simp [← String.toList_inj]
  have hcast := hquoted.whole.numberCast htype
  rw [htext]
  simpa using hcast

theorem Primary.floatingText {w : Width} (x : Floating w) {suffix type : String}
    (hsuffix : ∀ c ∈ suffix.toList, Text.isWord c)
    (htype : ∀ rest, choose numberTypes ((type ++ ")").toList ++ rest) = some (type, rest)) :
    Primary (Literal.floatingText x suffix type).toList
      (.raw (Literal.floatingText x suffix type)) := by
  unfold Literal.floatingText
  split
  · have hname : ∀ c ∈ "NaN".toList, isInert c := by decide
    have htext : "CAST('NaN' AS " ++ type ++ ")" =
        "CAST('" ++ "NaN" ++ "' AS " ++ type ++ ")" := by simp
    rw [htext]
    exact .numberCast hname htype
  · next hnan =>
    split
    · generalize hsign : (if x.isNegative then "-" else "") = sign
      have hname : ∀ c ∈ (sign ++ "Infinity").toList, isInert c := by
        rw [← hsign]
        cases x.isNegative <;> decide
      have htext : "CAST('" ++ sign ++ "Infinity' AS " ++ type ++ ")" =
          "CAST('" ++ (sign ++ "Infinity") ++ "' AS " ++ type ++ ")" := by
        simp [← String.toList_inj]
      rw [htext]
      exact .numberCast hname htype
    · next hinf =>
      have hnumeral : SignedNumeral x.text.toList := by
        rw [Floating.text, if_neg hnan, if_neg hinf]
        exact x.signedNumeral_finiteText _
      exact .suffixed hnumeral hsuffix

theorem intercalate_raw (ls : List Literal) :
    ", ".intercalate ((ls.map fun l => raw l.text).map rawText) = Literal.itemsText ls := by
  rw [Literal.itemsText_eq, List.map_map]
  rfl

mutual

/-- A literal is read back as its text. -/
theorem Primary.literal (l : Literal) : Primary l.text.toList (.raw l.text) := by
  cases l with
  | null => exact .constant (by decide) rfl
  | boolean b =>
    cases b
    · exact .constant (by decide) rfl
    · exact .constant (by decide) rfl
  | byte n => exact .suffixed (Number.signedNumeral_signed _) (by decide)
  | short n => exact .suffixed (Number.signedNumeral_signed _) (by decide)
  | integer n => exact .number (Number.signedNumeral_signed _)
  | long n => exact .suffixed (Number.signedNumeral_signed _) (by decide)
  | float x => exact .floatingText x (by decide) fun _ => rfl
  | double x => exact .floatingText x (by decide) fun _ => rfl
  | decimal d => exact .suffixed d.signedNumeral_text (by decide)
  | string s =>
    have htext : Text.quoteString s =
        "'" ++ String.ofList (s.toList.flatMap Text.escapeChar) ++ "'" := by
      simp [← String.toList_inj]
    rw [Literal.text, htext]
    refine .quoted fun rest => ?_
    rw [String.toList_ofList]
    exact readQuoted_escaped s.toList rest
  | binary bytes =>
    exact .keywordQuoted "X" "'" (by decide) (by decide) (fun _ => rfl) (fun _ _ => rfl)
      (readQuoted_inert (Literal.inert_hexBytes bytes))
  | date d =>
    exact .keywordQuoted "DATE" " '" (by decide) (by decide) (fun _ => rfl) (fun _ _ => rfl)
      (readQuoted_inert d.inert_text)
  | timestamp t =>
    exact .keywordQuoted "TIMESTAMP" " '" (by decide) (by decide) (fun _ => rfl) (fun _ _ => rfl)
      (readQuoted_inert t.inert_text)
  | interval i => exact .interval i
  | array items => exact (Items.literals items).array (intercalate_raw items)

theorem Items.literals (ls : List Literal) :
    Items (Literal.itemsText ls).toList (ls.map fun l => .raw l.text) := by
  match ls with
  | [] => exact .nil
  | [l] => exact .single (Primary.literal l).whole.item
  | l :: m :: ls =>
    have hmore := Items.literals (m :: ls)
    have htext : (Literal.itemsText (l :: m :: ls)).toList =
        l.text.toList ++ (", ".toList ++ (Literal.itemsText (m :: ls)).toList) := by
      rw [Literal.itemsText, String.toList_append, String.toList_append, List.append_assoc]
      simp
    rw [htext]
    exact .cons (Primary.literal l).whole.item hmore

end

end Columnar.Expr
