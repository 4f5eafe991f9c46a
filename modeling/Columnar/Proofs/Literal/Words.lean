import Columnar.Proofs.Literal.Text
import Columnar.Proofs.Number.Numeral

/-! The words of a literal that stand outside quotes and could be names. Numbers have none, because
a word of a number starts with a digit. -/
namespace Columnar

open Number

/-- Whether every word of a text behind the character `previous` starts with a digit. -/
def digitsLead (previous : Option Char) : List Char → Bool
  | [] => true
  | c :: cs =>
    (!Text.isWord c || previous.any Text.isWord || c.isDigit) && digitsLead (some c) cs

theorem digitsLead_append (previous : Option Char) (cs ds : List Char) :
    digitsLead previous (cs ++ ds) =
      (digitsLead previous cs && digitsLead (lastOf previous cs) ds) := by
  induction cs generalizing previous with
  | nil => rfl
  | cons c cs ih => simp only [List.cons_append, digitsLead, ih, lastOf_cons, Bool.and_assoc]

theorem digitsLead_of_isDigit (previous : Option Char) {cs : List Char}
    (h : ∀ c ∈ cs, c.isDigit) : digitsLead previous cs := by
  induction cs generalizing previous with
  | nil => rfl
  | cons c cs ih =>
    have hc : c.isDigit := h c (by simp)
    simp [digitsLead, hc, ih (some c) fun d hd => h d (by simp [hd])]

theorem digitsLead_behind_word {previous : Option Char} (hp : previous.any Text.isWord)
    {cs : List Char} (h : ∀ c ∈ cs, Text.isWord c) : digitsLead previous cs := by
  induction cs generalizing previous with
  | nil => rfl
  | cons c cs ih =>
    have hc : Text.isWord c := h c (by simp)
    rw [digitsLead, ih (by simpa using hc) fun d hd => h d (by simp [hd])]
    simp [hp]

theorem any_lastOf {p : Char → Bool} {previous : Option Char} {cs : List Char} (hne : cs ≠ [])
    (h : ∀ c ∈ cs, p c) : (lastOf previous cs).any p := by
  obtain ⟨init, c, rfl⟩ := eq_concat_of_ne_nil hne
  simpa [lastOf] using h c (by simp)

/-- A numeral ends with a word character. -/
theorem Numeral.last {cs : List Char} (h : Numeral cs) (previous : Option Char) :
    (lastOf previous cs).any Text.isWord := by
  have hword {ds : List Char} (hdigits : ∀ d ∈ ds, d.isDigit) : ∀ d ∈ ds, Text.isWord d :=
    fun d hd => Text.isWord_of_isDigit (hdigits d hd)
  induction h with
  | digits hne hdigits => exact any_lastOf hne (hword hdigits)
  | @fraction cs ds _ hne hdigits _ =>
    rw [List.append_cons, lastOf_append _ hne]
    exact any_lastOf hne (hword hdigits)
  | @exponent cs ds mark sign _ _ _ hne hdigits _ =>
    rw [List.append_cons, List.append_cons, lastOf_append _ hne]
    exact any_lastOf hne (hword hdigits)
  | @letters cs ds _ hletters ih =>
    cases ds with
    | nil => simpa using ih
    | cons d ds =>
      rw [lastOf_append _ (by simp)]
      exact any_lastOf (by simp) hletters

/-- The words of a numeral start with a digit. -/
theorem Numeral.digitsLead {cs : List Char} (h : Numeral cs) (previous : Option Char) :
    digitsLead previous cs := by
  induction h with
  | digits _ hdigits => exact digitsLead_of_isDigit _ hdigits
  | fraction _ _ hdigits ih =>
    rw [digitsLead_append, ih, Columnar.digitsLead, digitsLead_of_isDigit _ hdigits]
    simp [Text.isWord]
  | @exponent cs ds mark sign h hmark hsign _ hdigits ih =>
    have hlast := h.last previous
    have hword : Text.isWord sign = false := by
      rcases hsign with rfl | rfl <;> decide
    rw [digitsLead_append, ih, Columnar.digitsLead, Columnar.digitsLead,
      digitsLead_of_isDigit _ hdigits]
    simp [hlast, hword]
  | letters h hletters ih =>
    rw [digitsLead_append, ih, digitsLead_behind_word (h.last previous) hletters]
    rfl

theorem SignedNumeral.digitsLead {cs : List Char} (h : SignedNumeral cs) :
    digitsLead none cs := by
  cases h with
  | positive h => exact h.digitsLead none
  | negative h =>
    rw [Columnar.digitsLead, h.digitsLead]
    simp [Text.isWord]

/-- The plain words of a text that stand outside quotes and not behind a dot. -/
def plainNames (cs : List Char) : List (List Char) := (namesIn .plain none cs).filter Text.isPlain

theorem plainNames_append {cs ds : List Char} (hclosed : Closed cs)
    (hapart : Apart (lastOf none cs) ds) :
    plainNames (cs ++ ds) = plainNames cs ++ plainNames ds := by
  rw [plainNames, namesIn_append hclosed.after_eq hapart, List.filter_append]
  rfl

/-- A text behind another piece that ends neither inside a name nor with a dot. -/
theorem plainNames_behind {front : List Char} (hfront : Leads front) (cs : List Char) :
    plainNames (front ++ cs) = plainNames front ++ plainNames cs :=
  plainNames_append hfront.closed (Or.inl hfront.last)

theorem plainNames_ended {cs back : List Char} (hcs : Closed cs) (hback : Trails back) :
    plainNames (cs ++ back) = plainNames cs ++ plainNames back :=
  plainNames_append hcs (Or.inr hback.head)

theorem plainNames_quoted {cs : List Char} (h : InLiteral cs) :
    plainNames ('\'' :: cs ++ ['\'']) = [] := by
  rw [plainNames, h.namesIn_eq_nil]
  rfl

/-- A word that starts with a digit is not plain. -/
theorem plainNames_of_digitsLead {cs : List Char} (hinert : ∀ c ∈ cs, isInert c)
    (h : digitsLead none cs) : plainNames cs = [] := by
  have hall : ∀ previous, digitsLead previous cs → ∀ name ∈ namesIn .plain previous cs,
      Text.isPlain name = false := by
    clear h
    induction cs with
    | nil => simp [namesIn]
    | cons c cs ih =>
      intro previous h
      have hc : isInert c := hinert c (by simp)
      simp only [isInert, Bool.and_eq_true, bne_iff_ne] at hc
      simp only [digitsLead, Bool.and_eq_true] at h
      have hstep : Quoting.plain.step 0 c = .plain := by simp [Quoting.step, hc]
      intro name hname
      rw [namesIn, hstep, List.mem_append] at hname
      rcases hname with hname | hname
      · simp only [↓reduceIte, nameAt?, if_neg hc.1.2, Option.mem_toList] at hname
        split at hname
        · cases hname
        · split at hname
          · next hword =>
            -- a word starts here, so this character is its first digit
            simp only [Bool.and_eq_true, Bool.not_eq_true'] at hword
            obtain rfl := Option.some.inj hname
            have hdigit : c.isDigit := by simpa [hword] using h.1
            rw [List.takeWhile_cons_of_pos hword.1, Text.isPlain,
              Text.isWordStart_of_isDigit hdigit]
            rfl
          · cases hname
      · exact ih (fun d hd => hinert d (by simp [hd])) (some c) h.2 name hname
  rw [plainNames, List.filter_eq_nil_iff]
  exact fun name hname => by simp [hall none h name hname]

namespace Literal

/-- The words of a floating-point number: those of a cast, when it has no numeral. -/
def castWords {w : Width} (x : Floating w) (type : String) : List String :=
  if x.isNaN || x.isInfinite then ["CAST", "AS", type] else []

mutual

/-- The words in the text of a literal that are neither numbers nor inside quotes. -/
def bareWords : Literal → List String
  | null => ["NULL"]
  | boolean b => [if b then "true" else "false"]
  | byte _ | short _ | integer _ | long _ | decimal _ | string _ => []
  | float x => castWords x "FLOAT"
  | double x => castWords x "DOUBLE"
  | binary _ => ["X"]
  | date _ => ["DATE"]
  | timestamp _ => ["TIMESTAMP"]
  | interval _ => ["INTERVAL", "MONTHS", "DAYS", "MICROSECONDS"]
  | array items => "array" :: itemsWords items

def itemsWords : List Literal → List String
  | [] => []
  | l :: ls => bareWords l ++ itemsWords ls

end

theorem plainNames_numeral {cs : List Char} (h : SignedNumeral cs) : plainNames cs = [] := by
  refine plainNames_of_digitsLead (fun c hc => ?_) h.digitsLead
  rcases h.forall_mem c hc with hc | rfl | rfl | rfl
  · exact isInert_of_isWord hc
  all_goals decide

/-- A number with the letters that tell its type. -/
theorem plainNames_suffixed {num suffix : String} (h : SignedNumeral num.toList)
    (hsuffix : ∀ c ∈ suffix.toList, Text.isWord c) : plainNames (num ++ suffix).toList = [] := by
  rw [String.toList_append]
  exact plainNames_numeral (h.letters hsuffix)

theorem plainNames_floatingText {w : Width} (x : Floating w) {suffix type : String}
    (hsuffix : ∀ c ∈ suffix.toList, Text.isWord c) (htype : Text.isPlain type.toList) :
    plainNames (floatingText x suffix type).toList = (castWords x type).map String.toList := by
  have hword := Text.isWord_of_isPlain htype
  have htail : plainNames (type ++ ")").toList = [type.toList] := by
    have hclosed : Closed type.toList := .of_isInert fun c hc => isInert_of_isWord (hword c hc)
    rw [String.toList_append, plainNames_ended hclosed (by decide), plainNames, namesIn_word htype]
    simp [htype, plainNames, namesIn, nameAt?, Text.isWord]
  unfold floatingText castWords
  split
  · next hnan =>
    have hfront : plainNames "CAST('NaN' AS ".toList = ["CAST".toList, "AS".toList] := by decide
    rw [String.append_assoc, String.toList_append, plainNames_behind (by decide), hfront, htail]
    simp [hnan]
  · next hnan =>
    split
    · next hinf =>
      have hfront : plainNames ("CAST('" ++ (if x.isNegative then "-" else "") ++
          "Infinity' AS ").toList = ["CAST".toList, "AS".toList] := by
        cases x.isNegative <;> decide
      have hleads : Leads ("CAST('" ++ (if x.isNegative then "-" else "") ++
          "Infinity' AS ").toList := by
        cases x.isNegative <;> decide
      rw [String.append_assoc, String.toList_append, plainNames_behind hleads, hfront, htail]
      simp [hinf]
    · next hinf =>
      have hnumeral : SignedNumeral x.text.toList := by
        rw [Floating.text, if_neg hnan, if_neg hinf]
        exact x.signedNumeral_finiteText _
      rw [plainNames_suffixed hnumeral hsuffix]
      simp [hnan, hinf]

/-- A quoted text adds no words to the keyword in front of it. -/
theorem plainNames_keyword (keyword : String) {body : String} {words : List (List Char)}
    (hkeyword : Inert keyword) (hbody : Inert body) (hwords : plainNames keyword.toList = words) :
    plainNames (keyword.toList ++ ('\'' :: body.toList ++ ['\''])) = words := by
  rw [plainNames_append hkeyword.closed (Or.inr rfl), plainNames_quoted (.of_isInert hbody),
    List.append_nil, hwords]

/-- The words on both sides of a number with blanks around it. -/
theorem plainNames_around (front : String) (n : Int) {back : List Char}
    (hfront : Leads front.toList) (hback : Trails back) :
    plainNames (front.toList ++ ((signed n).toList ++ back)) =
      plainNames front.toList ++ plainNames back := by
  have hsigned : Closed (signed n).toList := (inert_of_marks (marks_signed n)).closed
  rw [plainNames_behind hfront, plainNames_ended hsigned hback,
    plainNames_numeral (signedNumeral_signed n), List.nil_append]

theorem plainNames_interval (i : Interval) : plainNames i.text.toList =
    ["INTERVAL".toList, "MONTHS".toList, "DAYS".toList, "MICROSECONDS".toList] := by
  have hsigned (n : Int) : Closed (signed n).toList := (inert_of_marks (marks_signed n)).closed
  have hlast : Trails " MICROSECONDS".toList := by decide
  have hdays : Trails (" DAYS ".toList ++
      ((signed i.microseconds.toInt).toList ++ " MICROSECONDS".toList)) :=
    ⟨((hsigned _).ended hlast).behind (by decide), rfl⟩
  have hmonths : Trails (" MONTHS ".toList ++ ((signed i.days.toInt).toList ++ (" DAYS ".toList ++
      ((signed i.microseconds.toInt).toList ++ " MICROSECONDS".toList)))) :=
    ⟨((hsigned _).ended hdays).behind (by decide), rfl⟩
  simp only [Interval.text, String.toList_append, List.append_assoc]
  rw [plainNames_around _ _ (by decide) hmonths, plainNames_around _ _ (by decide) hdays,
    plainNames_around _ _ (by decide) hlast]
  decide

mutual

theorem plainNames_text (l : Literal) :
    plainNames l.text.toList = l.bareWords.map String.toList := by
  cases l with
  | null => decide
  | boolean b => cases b <;> decide
  | byte n => exact plainNames_suffixed (signedNumeral_signed _) (by decide)
  | short n => exact plainNames_suffixed (signedNumeral_signed _) (by decide)
  | integer n => exact plainNames_numeral (signedNumeral_signed _)
  | long n => exact plainNames_suffixed (signedNumeral_signed _) (by decide)
  | float x => exact plainNames_floatingText x (by decide) (by decide)
  | double x => exact plainNames_floatingText x (by decide) (by decide)
  | decimal d => exact plainNames_suffixed d.signedNumeral_text (by decide)
  | string s =>
    rw [text, Text.toList_quoteString, plainNames_quoted (.flatMap_escapeChar s.toList)]
    rfl
  | binary bytes =>
    have hwords : plainNames "X".toList = ["X".toList] := by decide
    simpa [text, bareWords] using plainNames_keyword "X" (by decide) (inert_hexBytes bytes) hwords
  | date d =>
    have hwords : plainNames "DATE ".toList = ["DATE".toList] := by decide
    simpa [text, bareWords] using plainNames_keyword "DATE " (by decide) d.inert_text hwords
  | timestamp t =>
    have hwords : plainNames "TIMESTAMP ".toList = ["TIMESTAMP".toList] := by decide
    simpa [text, bareWords] using plainNames_keyword "TIMESTAMP " (by decide) t.inert_text hwords
  | interval i => exact plainNames_interval i
  | array items =>
    rw [text, String.append_assoc, String.toList_append, plainNames_behind (by decide),
      String.toList_append, plainNames_ended (closed_itemsText items) (by decide),
      plainNames_itemsText items, bareWords, List.map_cons]
    have hfront : plainNames "array(".toList = ["array".toList] := by decide
    have hback : plainNames ")".toList = [] := by decide
    rw [hfront, hback]
    simp

theorem plainNames_itemsText (items : List Literal) :
    plainNames (itemsText items).toList = (itemsWords items).map String.toList := by
  match items with
  | [] => rfl
  | [l] => simpa [itemsText, itemsWords] using plainNames_text l
  | l :: m :: ls =>
    have hl := plainNames_text l
    have hls := plainNames_itemsText (m :: ls)
    have hcomma : plainNames ", ".toList = [] := by decide
    rw [itemsText, String.append_assoc, String.toList_append, String.toList_append,
      plainNames_append (closed_text l) (Or.inr rfl), plainNames_behind (by decide), hl, hcomma,
      hls]
    · simp [itemsWords]
    · simp

end

end Literal

end Columnar
