import Columnar.Proofs.Qualify.Ending
import Columnar.Proofs.Qualify.Loop
import Columnar.Proofs.Qualify.Pieces
import Columnar.Proofs.Text.Blank

/-! Qualifying a text a second time changes nothing. A pass only puts qualifiers between the
characters of a text, so an output name that the second run splits off was there before the first,
and a second pass over the same body finds a dot in front of every field. -/
namespace Columnar

/-- A text into which another one was put, any number of times, in front of a character. -/
inductive Grown (inserted : List Char) : List Char → List Char → Prop
  | nil : Grown inserted [] []
  | keep {c : Char} {cs ds : List Char} : Grown inserted cs ds → Grown inserted (c :: cs) (c :: ds)
  | insert {c : Char} {cs ds : List Char} : Grown inserted cs ds →
      Grown inserted (c :: cs) (inserted ++ c :: ds)

namespace Grown

variable {inserted : List Char}

theorem sweep (isField : List Char → Bool) (state : Quoting) (previous : Option Char)
    (cs : List Char) : Grown inserted cs (sweep inserted isField state previous cs) := by
  induction cs generalizing state previous with
  | nil => exact .nil
  | cons c cs ih =>
    rw [Columnar.sweep, markAt]
    split
    · exact .insert (ih _ _)
    · exact .keep (ih _ _)

theorem getLast?_eq {cs ds : List Char} (h : Grown inserted cs ds) :
    ds.getLast? = cs.getLast? := by
  induction h with
  | nil => rfl
  | keep _ ih => simp [List.getLast?_cons, ih]
  | insert _ ih => simp [List.getLast?_cons, ih]

theorem length_le {cs ds : List Char} (h : Grown inserted cs ds) : cs.length ≤ ds.length := by
  induction h with
  | nil => exact Nat.le_refl _
  | keep _ ih => simpa using ih
  | insert _ ih =>
    rw [List.length_append, List.length_cons, List.length_cons]
    omega

theorem eq_of_length_le (hne : inserted ≠ []) {cs ds : List Char} (h : Grown inserted cs ds)
    (hlength : ds.length ≤ cs.length) : cs = ds := by
  induction h with
  | nil => rfl
  | keep _ ih => rw [ih (by simpa using hlength)]
  | insert h _ =>
    have hpos := List.length_pos_iff.mpr hne
    have hgrown := h.length_le
    rw [List.length_append, List.length_cons, List.length_cons] at hlength
    omega

theorem eq_of_not_mem {d : Char} (hd : d ∈ inserted) {cs ds : List Char}
    (h : Grown inserted cs ds) (hnot : d ∉ ds) : cs = ds := by
  induction h with
  | nil => rfl
  | keep _ ih => rw [ih fun hmem => hnot (by simp [hmem])]
  | insert _ _ => exact absurd (by simp [hd]) hnot

/-- A character that is not inserted cuts both texts. What is in front of it is the same in both
when it does not contain the character `d` of the insertions. -/
theorem split {d : Char} (hd : d ∈ inserted) {c : Char} (hc : c ∉ inserted)
    {cs front back : List Char} (h : Grown inserted cs (front ++ c :: back)) :
    ∃ front' back', cs = front' ++ c :: back' ∧ Grown inserted back' back ∧ front' ⊆ front ∧
      (d ∉ front → front' = front) := by
  generalize hds : front ++ c :: back = ds at h
  induction h generalizing front with
  | nil => simp at hds
  | @keep e cs ds h ih =>
    cases front with
    | nil =>
      obtain ⟨rfl, rfl⟩ := List.cons.inj hds
      exact ⟨[], cs, rfl, h, by simp, fun _ => rfl⟩
    | cons f front =>
      obtain ⟨rfl, hrest⟩ := List.cons.inj hds
      obtain ⟨front', back', rfl, hback, hsubset, heq⟩ := ih hrest
      refine ⟨f :: front', back', rfl, hback, List.cons_subset_cons f hsubset, fun hnot => ?_⟩
      rw [heq fun hmem => hnot (by simp [hmem])]
  | @insert e cs ds h ih =>
    -- the cut is not inside of what was inserted
    obtain ⟨front, rfl, hrest⟩ :
        ∃ rest, front = inserted ++ rest ∧ rest ++ c :: back = e :: ds := by
      rcases List.append_eq_append_iff.mp hds with ⟨mid, rfl, hmid⟩ | ⟨mid, rfl, hmid⟩
      · cases mid with
        | nil => exact ⟨[], by simp, hmid⟩
        | cons f mid =>
          obtain ⟨rfl, -⟩ := List.cons.inj hmid
          simp at hc
      · exact ⟨mid, rfl, hmid.symm⟩
    cases front with
    | nil =>
      obtain ⟨rfl, rfl⟩ := List.cons.inj hrest
      exact ⟨[], cs, rfl, h, by simp, fun hnot => absurd (by simp [hd]) hnot⟩
    | cons f front =>
      obtain ⟨rfl, htail⟩ := List.cons.inj hrest
      obtain ⟨front', back', rfl, hback, hsubset, -⟩ := ih htail
      refine ⟨f :: front', back', rfl, hback, fun x hx => ?_,
        fun hnot => absurd (by simp [hd]) hnot⟩
      rcases List.mem_cons.mp hx with rfl | hx
      · simp
      · simp [hsubset hx]

end Grown

section Qualifier

variable {word : List Char} (hw : ∀ c ∈ word, Text.isWord c)

include hw

theorem not_mem_qualifier {c : Char} (hc : Text.isWord c = false) (hdot : c ≠ '.') :
    c ∉ word ++ ['.'] := by
  intro hmem
  rcases List.mem_append.mp hmem with hmem | hmem
  · have := hw c hmem
    simp [hc] at this
  · exact hdot (by simpa using hmem)

/-- A name that ends a text with qualifiers ends the text without them. -/
theorem Grown.exists_aliasName? {cs name blanks : List Char}
    (h : Grown (word ++ ['.']) cs (name ++ blanks)) (hname : OutputName name)
    (hblanks : ∀ c ∈ blanks, Text.isBlank c) (hread : aliasName? (name ++ blanks) = some name) :
    ∃ name', aliasName? cs = some name' := by
  have hdot : '.' ∈ word ++ ['.'] := by simp
  have hdotBlanks : '.' ∉ blanks := fun hmem => absurd (hblanks '.' hmem) (by decide)
  cases hname with
  | bare _ hchars =>
    have hdotName : '.' ∉ name := fun hmem => absurd (hchars '.' hmem) (by decide)
    obtain rfl := h.eq_of_not_mem hdot (by simp [hdotName, hdotBlanks])
    exact ⟨name, hread⟩
  | @ticked inner hinner =>
    have htick : '\x60' ∉ word ++ ['.'] := not_mem_qualifier hw (by decide) (by decide)
    have hquoted : Grown (word ++ ['.']) cs ([] ++ '\x60' :: (inner ++ '\x60' :: blanks)) := by
      simpa using h
    obtain ⟨front, tail, rfl, htail, hfront, -⟩ := hquoted.split hdot htick
    obtain rfl : front = [] := List.subset_nil.mp hfront
    obtain ⟨inner', blanks', rfl, hgrown, hsubset, -⟩ := htail.split hdot htick
    obtain rfl := hgrown.eq_of_not_mem hdot hdotBlanks
    exact ⟨_, aliasName?_ticked (fun hmem => hinner (hsubset hmem)) hblanks⟩

theorem Grown.splitAlias_eq_none {cs ds : List Char} (h : Grown (word ++ ['.']) cs ds)
    (hnone : splitAlias cs = none) : splitAlias ds = none := by
  cases hsplit : splitAlias ds with
  | none => rfl
  | some parts =>
    exfalso
    obtain ⟨body, clause⟩ := parts
    obtain ⟨rest, rfl, hclause⟩ := splitAlias_eq_some hsplit
    obtain ⟨lead, a, s, gap, name, blanks, hparts, rfl, hblanks, rfl, hread⟩ :=
      aliasClause?_eq_some hclause
    obtain ⟨lead, b, rfl⟩ := eq_concat_of_ne_nil hparts.lead_ne_nil
    obtain ⟨gap, g, rfl⟩ := eq_concat_of_ne_nil hparts.gap_ne_nil
    have hb : Text.isBlank b := hparts.lead_blank b (by simp)
    have hg : Text.isBlank g := hparts.gap_blank g (by simp)
    have hdot : '.' ∈ word ++ ['.'] := by simp
    have hblank {c : Char} (hc : Text.isBlank c) : c ∉ word ++ ['.'] := by
      refine not_mem_qualifier hw (Bool.eq_false_iff.mpr fun hword => ?_) ?_
      · simp [Text.isBlank_of_isWord hword] at hc
      · rintro rfl
        exact absurd hc (by decide)
    -- the clause has no dot in front of its name, so nothing was put in there
    have hdotWords : '.' ∉ a :: s :: gap := by
      intro hmem
      rcases List.mem_cons.mp hmem with rfl | hmem
      · exact absurd hparts.letterA (by decide)
      · rcases List.mem_cons.mp hmem with rfl | hmem
        · exact absurd hparts.letterS (by decide)
        · exact absurd (hparts.gap_blank '.' (by simp [hmem])) (by decide)
    have hcut : Grown (word ++ ['.']) cs
        ((body ++ lead) ++ b :: ((a :: s :: gap) ++ g :: (name ++ blanks))) := by simpa using h
    obtain ⟨front, back, rfl, hback, -, -⟩ := hcut.split hdot (hblank hb)
    obtain ⟨words, tail, rfl, htail, -, hwords⟩ := hback.split hdot (hblank hg)
    obtain rfl := hwords hdotWords
    obtain ⟨name', hname'⟩ := htail.exists_aliasName? hw hparts.name hblanks hread
    have hparts' : ClauseParts [b] a s (gap ++ [g]) name' :=
      ⟨by simp, by simpa using hb, hparts.letterA, hparts.letterS, by simp, hparts.gap_blank,
        (aliasName?_eq_some hname').1⟩
    refine splitAlias_ne_none front (hparts'.aliasClause?_eq hname') ?_
    simpa using hnone

theorem quotesApart_qualifier (previous : Option Char) (cs : List Char) :
    quotesApart .plain previous (word ++ '.' :: cs) = quotesApart .plain (some '.') cs := by
  induction word generalizing previous with
  | nil => simp [quotesApart, Quoting.step]
  | cons c word ih =>
    have hc : Text.isWord c := hw c (by simp)
    rw [List.cons_append, quotesApart, step_plain_of_isWord hc, ih fun d hd => hw d (by simp [hd])]
    simp [isWord_ne_backtick hc]

/-- A pass opens no identifier directly behind a word character. -/
theorem quotesApart_sweep {isField : List Char → Bool} {state : Quoting} {previous : Option Char}
    {cs : List Char} (h : quotesApart state previous cs) :
    quotesApart state previous (sweep (word ++ ['.']) isField state previous cs) := by
  induction cs generalizing state previous with
  | nil => rfl
  | cons c cs ih =>
    simp only [quotesApart, Bool.and_eq_true] at h
    have hrest := ih h.2
    rw [sweep, markAt]
    split
    · next hmark =>
      obtain ⟨rfl, -⟩ := hmark
      have hdot : Text.isWord '.' = false := by decide
      rw [List.append_assoc, List.singleton_append, quotesApart_qualifier hw, quotesApart, hrest]
      simp [hdot]
    · rw [List.nil_append, quotesApart, hrest, Bool.and_true]
      by_cases hopen : state = .plain ∧ c = '\x60'
      · obtain ⟨rfl, rfl⟩ := hopen
        simpa [splitBacktick_sweep, Quoting.step] using h.1
      · have hno : (state == .plain && c == '\x60') = false := by simpa using hopen
        simp [hno]

theorem sweep_idempotent (hne : word ≠ []) {isField : List Char → Bool} (hf : isField word = false)
    {cs : List Char} (h : quotesApart .plain none cs) :
    sweep (word ++ ['.']) isField .plain none (sweep (word ++ ['.']) isField .plain none cs) =
      sweep (word ++ ['.']) isField .plain none cs := by
  rw [sweep_sweep hw hne hf h]
  simp

end Qualifier

section Qualify

variable {tableAlias : String} {fields : List String} (hAlias : Text.isPlain tableAlias.toList)
  (hFields : ∀ f ∈ fields, Text.isPlain f.toList)
  (hOther : ∀ f ∈ fields, Text.sameName f tableAlias = false)

include hAlias hFields hOther

/-- What a pass leaves of a text without an output name is a result: it is neither a field as a
whole nor does it end with an output name, and a second pass changes nothing. -/
theorem qualify_sweep {cs : List Char} (hcs : quotesApart .plain none cs)
    (hnone : splitAlias cs = none)
    (hnot : '.' ∈ sweep (tableAlias.toList ++ ['.']) (isNamed fields) .plain none cs ∨
      isNamed fields (Text.trim cs) = false) :
    qualify tableAlias fields
        (String.ofList (sweep (tableAlias.toList ++ ['.']) (isNamed fields) .plain none cs)) =
      String.ofList (sweep (tableAlias.toList ++ ['.']) (isNamed fields) .plain none cs) := by
  have hw := Text.isWord_of_isPlain hAlias
  have hf : isNamed fields tableAlias.toList = false := by simpa [isNamed] using hOther
  have hgrown : Grown (tableAlias.toList ++ ['.']) cs
      (sweep (tableAlias.toList ++ ['.']) (isNamed fields) .plain none cs) := .sweep _ _ _ _
  have hname : isNamed fields (Text.trim
      (sweep (tableAlias.toList ++ ['.']) (isNamed fields) .plain none cs)) = false := by
    by_cases hdot : '.' ∈ sweep (tableAlias.toList ++ ['.']) (isNamed fields) .plain none cs
    · exact not_isNamed_of_mem hFields (by decide) (Text.mem_trim (by decide) hdot)
    · rw [← hgrown.eq_of_not_mem (by simp) hdot]
      exact hnot.resolve_left hdot
  have hsplit := hgrown.splitAlias_eq_none hw hnone
  calc qualify tableAlias fields
        (String.ofList (sweep (tableAlias.toList ++ ['.']) (isNamed fields) .plain none cs))
      = String.ofList (sweep (tableAlias.toList ++ ['.']) (isNamed fields) .plain none
          (sweep (tableAlias.toList ++ ['.']) (isNamed fields) .plain none cs) ++ []) :=
        qualify_of_split hAlias hFields hOther (by simpa using hname) (by simp [hsplit])
          (quotesApart_sweep hw hcs)
    _ = _ := by rw [sweep_idempotent hw (Text.ne_nil_of_isPlain hAlias) hf hcs, List.append_nil]

/-- What a pass leaves of the body stays the body in front of the same output name. -/
theorem qualify_sweep_append {cs body clause : List Char} (hcs : quotesApart .plain none cs)
    (hsplit : splitAlias cs = some (body, clause)) :
    qualify tableAlias fields (String.ofList
        (sweep (tableAlias.toList ++ ['.']) (isNamed fields) .plain none body ++ clause)) =
      String.ofList
        (sweep (tableAlias.toList ++ ['.']) (isNamed fields) .plain none body ++ clause) := by
  have hw := Text.isWord_of_isPlain hAlias
  have hf : isNamed fields tableAlias.toList = false := by simpa [isNamed] using hOther
  have hbody : quotesApart .plain none body := by
    have := quotesApart_body hcs
    rwa [hsplit] at this
  have hshut : EndsShut (sweep (tableAlias.toList ++ ['.']) (isNamed fields) .plain none body) := by
    rw [EndsShut, (Grown.sweep _ _ _ _).getLast?_eq]
    exact endsShut_of_splitAlias hsplit
  obtain ⟨rest, rfl, hclause⟩ := splitAlias_eq_some hsplit
  obtain ⟨lead, a, s, gap, name, blanks, hparts, rfl, -, rfl, hread⟩ := aliasClause?_eq_some hclause
  have hsplit' := hparts.splitAlias_append (aliasName?_self hread) hshut
  have hname : isNamed fields (Text.trim
      (sweep (tableAlias.toList ++ ['.']) (isNamed fields) .plain none body ++
        (lead ++ a :: s :: (gap ++ name)))) = false := by
    -- a blank stands between the word AS and the name
    obtain ⟨g, gap, rfl⟩ := List.exists_cons_of_ne_nil hparts.gap_ne_nil
    obtain ⟨n, name, rfl, hn⟩ := hparts.name.exists_cons
    have ha : Text.isBlank a = false :=
      isBlank_of_isAliasChar (isAliasChar_of_isLetterA hparts.letterA)
    have hg : Text.isBlank g := hparts.gap_blank g (by simp)
    have hword : Text.isWord g = false := Bool.eq_false_iff.mpr fun h => by
      simp [Text.isBlank_of_isWord h] at hg
    have hmem := Text.subset_trim ha hn
      (sweep (tableAlias.toList ++ ['.']) (isNamed fields) .plain none body ++ lead)
      (s :: g :: gap) name (show g ∈ s :: g :: gap by simp)
    exact not_isNamed_of_mem hFields hword (by simpa using hmem)
  calc qualify tableAlias fields (String.ofList
        (sweep (tableAlias.toList ++ ['.']) (isNamed fields) .plain none body ++
          (lead ++ a :: s :: (gap ++ name))))
      = String.ofList (sweep (tableAlias.toList ++ ['.']) (isNamed fields) .plain none
          (sweep (tableAlias.toList ++ ['.']) (isNamed fields) .plain none body) ++
            (lead ++ a :: s :: (gap ++ name))) :=
        qualify_of_split hAlias hFields hOther (by rwa [String.toList_ofList])
          (by rw [String.toList_ofList, hsplit', Option.getD_some]) (quotesApart_sweep hw hbody)
    _ = _ := by rw [sweep_idempotent hw (Text.ne_nil_of_isPlain hAlias) hf hbody]

/-- Qualification is idempotent. -/
theorem qualify_qualify {text : String} (hText : quotesApart .plain none text.toList) :
    qualify tableAlias fields (qualify tableAlias fields text) = qualify tableAlias fields text := by
  cases hnamed : isNamed fields (Text.trim text.toList) with
  | true =>
    have hplain := isPlain_of_isNamed hFields hnamed
    have hword := Text.isWord_of_isPlain hplain
    have hresult : tableAlias ++ "." ++ String.ofList (Text.trim text.toList) = String.ofList
        (sweep (tableAlias.toList ++ ['.']) (isNamed fields) .plain none
          (Text.trim text.toList)) := by
      rw [sweep_word hplain, hnamed, ← String.toList_inj]
      simp
    have hending : Ending True (Text.trim text.toList) :=
      .unspaced (Text.ne_nil_of_isPlain hplain) fun c hc => Text.isBlank_of_isWord (hword c hc)
    rw [qualify_of_isNamed hFields hnamed, hresult]
    refine qualify_sweep hAlias hFields hOther
      (Closed.of_isInert fun c hc => isInert_of_isWord (hword c hc)).apart
      (hending.splitAlias_eq_none trivial) (Or.inl ?_)
    rw [sweep_word hplain, hnamed]
    simp
  | false =>
    cases hsplit : splitAlias text.toList with
    | none =>
      rw [qualify_of_split hAlias hFields hOther hnamed (by rw [hsplit, Option.getD_none]) hText,
        List.append_nil]
      exact qualify_sweep hAlias hFields hOther hText hsplit (Or.inr hnamed)
    | some parts =>
      obtain ⟨body, clause⟩ := parts
      have hbody := quotesApart_body hText
      rw [hsplit] at hbody
      rw [qualify_of_split hAlias hFields hOther hnamed (by rw [hsplit, Option.getD_some]) hbody]
      exact qualify_sweep_append hAlias hFields hOther hText hsplit

end Qualify

/-- The blanks behind the output name are gone after the first run. -/
theorem qualify_qualify_price_qty :
    Text.isPlain "o".toList = true ∧ (∀ f ∈ ["qty", "Price"], Text.isPlain f.toList = true) ∧
    (∀ f ∈ ["qty", "Price"], Text.sameName f "o" = false) ∧
    quotesApart .plain none "price * `Qty` as\t qty \n".toList = true ∧
    qualify "o" ["qty", "Price"] (qualify "o" ["qty", "Price"] "price * `Qty` as\t qty \n") =
      "o.price * o.`Qty` as\t qty" := by
  have hAlias : Text.isPlain "o".toList = true := by decide
  have hFields : ∀ f ∈ ["qty", "Price"], Text.isPlain f.toList = true := by decide
  have hOther : ∀ f ∈ ["qty", "Price"], Text.sameName f "o" = false := by decide
  have hText : quotesApart .plain none "price * `Qty` as\t qty \n".toList = true := by decide
  refine ⟨hAlias, hFields, hOther, hText, ?_⟩
  rw [qualify_qualify hAlias hFields hOther hText,
    qualify_of_not_isNamed hAlias hFields hOther hText (by decide)]
  decide

end Columnar
