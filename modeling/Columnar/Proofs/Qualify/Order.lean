import Columnar.Proofs.Qualify.Ending
import Columnar.Proofs.Qualify.Loop
import Columnar.Proofs.Qualify.Pieces
import Columnar.Proofs.Text.Blank

/-! The names as a set. Lists that hold the same names qualify alike as long as the alias is none of
them. A name that the alias has is found again in the qualifiers that earlier names have put in, so
that then the order of the names and their repetitions show. -/
namespace Columnar

theorem length_qualifiers (word : List Char) (count : Nat) :
    (qualifiers word count).length = count * (word.length + 1) := by
  induction count with
  | zero => simp
  | succ count ih =>
    rw [qualifiers_succ, List.length_append, List.length_cons, ih, Nat.succ_mul]
    omega

theorem qualifiers_inj {word : List Char} {count count' : Nat}
    (h : (qualifiers word count).length = (qualifiers word count').length) : count = count' := by
  rw [length_qualifiers, length_qualifiers] at h
  exact Nat.eq_of_mul_eq_mul_right (Nat.succ_pos _) h

theorem qualifierCount_congr {tableAlias : String} {names : List String} {cs ds : List Char}
    (h : Text.sameName (String.ofList cs) (String.ofList ds)) :
    qualifierCount tableAlias names cs = qualifierCount tableAlias names ds := by
  induction names with
  | nil => rfl
  | cons name names ih =>
    have hname : Text.sameName name (String.ofList cs) = Text.sameName name (String.ofList ds) := by
      simp only [Text.sameName, Text.sameName_iff.mp h]
    rw [qualifierCount, qualifierCount, hname, ih]

theorem qualifierCount_longestFirst {tableAlias : String} {names : List String}
    (hNames : ∀ name ∈ names, Text.isPlain name.toList)
    (hOther : isNamed names tableAlias.toList = false) (field : List Char) :
    qualifierCount tableAlias (longestFirst names) field = if isNamed names field then 1 else 0 := by
  have hLongest : ∀ name ∈ longestFirst names, Text.sameName name tableAlias = false := by
    simp only [isNamed, List.any_eq_false, String.ofList_toList, Bool.not_eq_true] at hOther
    exact fun name h => hOther name (mem_longestFirst.mp h).1
  rw [qualifierCount_of_other hLongest, isNamed_longestFirst hNames]

theorem quotesApart_parenthesized {word : List Char} (h : Text.isPlain word) :
    quotesApart .plain none ('(' :: (word ++ [')'])) := by
  refine (Closed.of_isInert fun c hc => ?_).apart
  simp only [List.mem_cons, List.mem_append, List.not_mem_nil, or_false] at hc
  rcases hc with rfl | hc | rfl
  · decide
  · exact isInert_of_isWord (Text.isWord_of_isPlain h c hc)
  · decide

/-- A pass looks at a word between parentheses once. -/
theorem sweepBy_parenthesized {marks : List Char → List Char} {word : List Char}
    (h : Text.isPlain word) :
    sweepBy marks .plain none ('(' :: (word ++ [')'])) = '(' :: (marks word ++ (word ++ [')'])) := by
  have hword := Text.isWord_of_isPlain h
  have hname : nameAt? (some '(') (word ++ [')']) = some word := by
    obtain ⟨c, rest, rfl⟩ := List.exists_cons_of_ne_nil (Text.ne_nil_of_isPlain h)
    have hclosed := (Closed.of_isInert fun d hd => isInert_of_isWord (hword d hd)).after_eq
    rw [nameAt?_of_apart (Or.inl (by decide)), List.cons_append,
      nameAt?_append hclosed (Or.inr (by decide)), nameAt?_word h]
  have hfront : marksAt marks .plain none ('(' :: (word ++ [')'])) = [] := by
    simp [marksAt, nameAt?, Text.isWord]
  rw [sweepBy, hfront, show Quoting.plain.step 0 '(' = .plain from rfl]
  obtain ⟨c, rest, rfl⟩ := List.exists_cons_of_ne_nil (Text.ne_nil_of_isPlain h)
  have hc : Text.isWord c := hword c (by simp)
  have hrest : ∀ d ∈ rest, Text.isWord d := fun d hd => hword d (by simp [hd])
  have hnone : namesIn .plain (some c) (rest ++ [')']) = [] := by
    rw [namesIn_append (Quoting.after_of_isWord hrest) (Or.inr (by decide)),
      namesIn_behind_word hc hrest]
    rfl
  rw [List.cons_append] at hname ⊢
  rw [sweepBy, step_plain_of_isWord hc, sweepBy_eq_self (by simp [hnone]), marksAt, if_pos rfl,
    hname]
  rfl

section Qualify

variable {tableAlias : String} {fields : List String} (hAlias : Text.isPlain tableAlias.toList)
  (hFields : ∀ f ∈ fields, Text.isPlain f.toList)

include hAlias hFields

/-- Whatever the names, qualification is one pass that puts a number of qualifiers in front of each
field, unless the text is one field as a whole. -/
theorem qualify_eq_sweepBy {text : String} (hText : quotesApart .plain none text.toList) :
    qualify tableAlias fields text =
      if isNamed fields (Text.trim text.toList) then
        tableAlias ++ "." ++ String.ofList (Text.trim text.toList)
      else
        let (body, clause) := (splitAlias text.toList).getD (text.toList, [])
        String.ofList (sweepBy (fun field => qualifiers tableAlias.toList
          (qualifierCount tableAlias (longestFirst fields) field)) .plain none body ++ clause) := by
  have hNames : ∀ name ∈ longestFirst fields, Text.isPlain name.toList :=
    fun name h => hFields name (mem_longestFirst.mp h).1
  rw [← isNamed_longestFirst hFields, isNamed]
  unfold qualify
  dsimp only
  split
  · rfl
  · rw [foldl_qualifyName_eq_sweepBy hAlias hNames (quotesApart_body hText)]

theorem qualify_parenthesized {field : List Char} (hField : Text.isPlain field) :
    qualify tableAlias fields (String.ofList ('(' :: (field ++ [')']))) =
      String.ofList ('(' :: (qualifiers tableAlias.toList
        (qualifierCount tableAlias (longestFirst fields) field) ++ (field ++ [')']))) := by
  have hname : isNamed fields (Text.trim ('(' :: (field ++ [')']))) = false :=
    not_isNamed_of_mem hFields (c := '(') (by decide) (Text.mem_trim (by decide) (by simp))
  have hending : Ending True (('(' :: field) ++ [')']) :=
    .shut (by decide) (by decide) (by decide)
  have hsplit : splitAlias ('(' :: (field ++ [')'])) = none := hending.splitAlias_eq_none trivial
  rw [qualify_eq_sweepBy hAlias hFields (by simpa using quotesApart_parenthesized hField)]
  simp only [String.toList_ofList, hname, hsplit, Bool.false_eq_true, ↓reduceIte,
    Option.getD_none, List.append_nil, sweepBy_parenthesized hField]

end Qualify

/-- Two lists of the same names, in any order and with any repetitions and spellings of them,
qualify every text alike exactly when they put the same number of qualifiers in front of each field.
That number is one when no name is the alias. -/
theorem qualify_eq_iff_qualifierCount {tableAlias : String} {fields others : List String}
    (hAlias : Text.isPlain tableAlias.toList) (hFields : ∀ f ∈ fields, Text.isPlain f.toList)
    (hOthers : ∀ f ∈ others, Text.isPlain f.toList)
    (hSame : ∀ name, isNamed fields name = isNamed others name) :
    ((∀ text : String, quotesApart .plain none text.toList →
        qualify tableAlias fields text = qualify tableAlias others text) ↔
      ∀ f ∈ fields, qualifierCount tableAlias (longestFirst fields) f.toList =
        qualifierCount tableAlias (longestFirst others) f.toList) ∧
    (isNamed fields tableAlias.toList = false →
      ∀ f ∈ fields, qualifierCount tableAlias (longestFirst fields) f.toList = 1 ∧
        qualifierCount tableAlias (longestFirst others) f.toList = 1) := by
  refine ⟨⟨fun h f hf => ?_, fun h text hText => ?_⟩, fun h f hf => ?_⟩
  · -- the field between parentheses shows how many qualifiers it gets
    have hf' := hFields f hf
    have hequal := h (String.ofList ('(' :: (f.toList ++ [')'])))
      (by simpa using quotesApart_parenthesized hf')
    rw [qualify_parenthesized hAlias hFields hf', qualify_parenthesized hAlias hOthers hf',
      String.ofList_inj, List.cons.injEq, List.append_cancel_right_eq] at hequal
    exact qualifiers_inj (congrArg List.length hequal.2)
  · have hcount (name : List Char) : qualifierCount tableAlias (longestFirst fields) name =
        qualifierCount tableAlias (longestFirst others) name := by
      by_cases hname : isNamed fields name
      · obtain ⟨f, hf, hsame⟩ := List.any_eq_true.mp hname
        have hspelling : Text.sameName (String.ofList f.toList) (String.ofList name) := by
          simpa using hsame
        rw [← qualifierCount_congr hspelling, ← qualifierCount_congr hspelling, h f hf]
      · rw [qualifierCount_eq_zero_iff.mpr (by rwa [isNamed_longestFirst hFields]),
          qualifierCount_eq_zero_iff.mpr (by rwa [isNamed_longestFirst hOthers, ← hSame])]
    rw [qualify_eq_sweepBy hAlias hFields hText, qualify_eq_sweepBy hAlias hOthers hText]
    simp only [hcount, hSame]
  · have hnamed : isNamed fields f.toList := List.any_eq_true.mpr ⟨f, hf, by simp⟩
    rw [qualifierCount_longestFirst hFields h, qualifierCount_longestFirst hOthers (hSame _ ▸ h),
      ← hSame, hnamed]
    exact ⟨rfl, rfl⟩

theorem qualify_eq_iff_qualifierCount_price_qty :
    Text.isPlain "o".toList = true ∧ (∀ f ∈ ["qty", "Price"], Text.isPlain f.toList = true) ∧
    (∀ f ∈ ["PRICE", "qty", "price"], Text.isPlain f.toList = true) ∧
    (∀ name, isNamed ["qty", "Price"] name = isNamed ["PRICE", "qty", "price"] name) ∧
    quotesApart .plain none "price * qty".toList = true ∧
    qualify "o" ["qty", "Price"] "price * qty" =
      qualify "o" ["PRICE", "qty", "price"] "price * qty" := by
  have hAlias : Text.isPlain "o".toList = true := by decide
  have hFields : ∀ f ∈ ["qty", "Price"], Text.isPlain f.toList = true := by decide
  have hOthers : ∀ f ∈ ["PRICE", "qty", "price"], Text.isPlain f.toList = true := by decide
  have hSame : ∀ name, isNamed ["qty", "Price"] name = isNamed ["PRICE", "qty", "price"] name := by
    intro name
    have hprice : Text.lower "PRICE" = Text.lower "price" ∧
        Text.lower "Price" = Text.lower "price" := by decide
    simp [isNamed, Text.sameName, hprice, Bool.or_comm]
  have hText : quotesApart .plain none "price * qty".toList = true := by decide
  exact ⟨hAlias, hFields, hOthers, hSame, hText,
    (qualify_eq_iff_qualifierCount hAlias hFields hOthers hSame).1.mpr (by decide) _ hText⟩

/-- A field that is named like the alias: looked for last, it qualifies the qualifier of the other
field, and once for each time that it is listed. -/
theorem qualify_alias_as_field :
    List.Perm ["x", "t"] ["t", "x"] ∧
    qualify "t" ["t", "x"] "x + t" = "t.x + t.t" ∧
    qualify "t" ["x", "t"] "x + t" = "t.t.x + t.t" ∧
    qualify "t" ["t"] "t + 1" = "t.t + 1" ∧
    qualify "t" ["t", "t"] "t + 1" = "t.t.t + 1" := by
  have hAlias : Text.isPlain "t".toList = true := by decide
  refine ⟨List.Perm.swap .., ?_, ?_, ?_, ?_⟩
  all_goals
    rw [qualify_eq_sweepBy hAlias (by decide) (by decide)]
    decide

end Columnar
