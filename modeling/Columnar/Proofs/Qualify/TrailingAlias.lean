import Columnar.Proofs.Qualify.Balanced
import Columnar.Proofs.Qualify.Ending
import Columnar.Proofs.Qualify.Insertion

/-! The output name at the end of a text, without the search for it: what a clause is, that the
split takes the longest one, and that quotes are closed in front of it when they are behind it. -/
namespace Columnar

/-- Simple case folding, for the characters that fold into ASCII. -/
def foldCase (c : Char) : Char :=
  if c = '\u017f' then 's' else if c = '\u212a' then 'k' else c.toLower

/-- A name at the end of a clause: a plain identifier up to case folding, or a name between
backticks with none inside. -/
inductive ClauseName : List Char → Prop
  | plain {name : List Char} : Text.isPlain (name.map foldCase) → ClauseName name
  | ticked {inner : List Char} : '\x60' ∉ inner → ClauseName ('\x60' :: inner ++ ['\x60'])

/-- White space, the word AS up to case folding, white space and a name. -/
inductive IsClause : List Char → Prop
  | intro {lead word gap name : List Char} : lead ≠ [] → (∀ c ∈ lead, Text.isBlank c) →
      word.map foldCase = ['a', 's'] → gap ≠ [] → (∀ c ∈ gap, Text.isBlank c) → ClauseName name →
      IsClause (lead ++ word ++ gap ++ name)

/-- A text is a body and a clause, with nothing but white space behind them. -/
def EndsWithClause (cs body clause : List Char) : Prop :=
  IsClause clause ∧ ∃ blanks, (∀ c ∈ blanks, Text.isBlank c) ∧ cs = body ++ clause ++ blanks

section Letters

theorem foldCase_of_foldsToLetter {c : Char} (h : foldsToLetter c) :
    foldCase c = 's' ∨ foldCase c = 'k' := by
  simp only [foldsToLetter, Bool.or_eq_true, beq_iff_eq] at h
  unfold foldCase
  split
  · exact Or.inl rfl
  · next hs =>
    have hk : c.toNat = '\u212a'.toNat := h.resolve_left fun h => hs (Char.toNat_inj.mp h)
    exact Or.inr (if_pos (Char.toNat_inj.mp hk))

theorem foldCase_of_not_foldsToLetter {c : Char} (h : foldsToLetter c = false) :
    foldCase c = c.toLower := by
  unfold foldCase
  split
  · next hc =>
    subst hc
    exact absurd h (by decide)
  · split
    · next hc =>
      subst hc
      exact absurd h (by decide)
    · rfl

theorem isWord_foldCase (c : Char) : Text.isWord (foldCase c) = isAliasChar c := by
  unfold isAliasChar
  cases h : foldsToLetter c with
  | false => rw [foldCase_of_not_foldsToLetter h, Text.isWord_toLower, Bool.or_false]
  | true =>
    rw [Bool.or_true]
    rcases foldCase_of_foldsToLetter h with h | h <;> rw [h] <;> rfl

theorem isWordStart_foldCase (c : Char) : Text.isWordStart (foldCase c) = isAliasStart c := by
  unfold isAliasStart
  cases h : foldsToLetter c with
  | false => rw [foldCase_of_not_foldsToLetter h, Text.isWordStart_toLower, Bool.or_false]
  | true =>
    rw [Bool.or_true]
    rcases foldCase_of_foldsToLetter h with h | h <;> rw [h] <;> rfl

theorem foldCase_eq_a {c : Char} : foldCase c = 'a' ↔ isLetterA c := by
  constructor
  · unfold foldCase
    split
    · exact fun h => absurd h (by decide)
    · split
      · exact fun h => absurd h (by decide)
      · exact isLetterA_of_toLower
  · simp only [isLetterA, Bool.or_eq_true, beq_iff_eq]
    rintro (rfl | rfl) <;> rfl

theorem foldCase_eq_s {c : Char} : foldCase c = 's' ↔ isLetterS c := by
  constructor
  · unfold foldCase
    split
    · next hc => simp [isLetterS, hc]
    · split
      · exact fun h => absurd h (by decide)
      · exact isLetterS_of_toLower
  · simp only [isLetterS, Bool.or_eq_true, beq_iff_eq]
    rintro ((rfl | rfl) | h)
    · rfl
    · rfl
    · obtain rfl : c = '\u017f' := Char.toNat_inj.mp h
      rfl

end Letters

section Clause

theorem ClauseName.outputName {name : List Char} (h : ClauseName name) : OutputName name := by
  cases h with
  | plain hplain =>
    have hne : name ≠ [] := by simpa using Text.ne_nil_of_isPlain hplain
    refine .bare hne fun c hc => ?_
    rw [← isWord_foldCase]
    exact Text.isWord_of_isPlain hplain _ (List.mem_map_of_mem hc)
  | ticked hinner => exact .ticked hinner

theorem isPlain_map_foldCase (c : Char) (cs : List Char) :
    Text.isPlain ((c :: cs).map foldCase) = (isAliasStart c && cs.all isAliasChar) := by
  simp [Text.isPlain, List.all_map, Function.comp_def, isWord_foldCase, isWordStart_foldCase]

theorem clauseName_of_aliasName? {cs name : List Char} (h : aliasName? cs = some name) :
    ClauseName name := by
  obtain ⟨-, -, -, ⟨c, rest, rfl, hstart, hchars⟩ | ⟨inner, rfl, hinner⟩⟩ := aliasName?_cases h
  · refine .plain ?_
    rw [isPlain_map_foldCase, hstart, Bool.true_and, List.all_eq_true]
    exact (List.forall_mem_cons.mp hchars).2
  · exact .ticked hinner

/-- A name in front of white space is read up to it. -/
theorem ClauseName.aliasName?_eq {name blanks : List Char} (h : ClauseName name)
    (hblanks : ∀ c ∈ blanks, Text.isBlank c) : aliasName? (name ++ blanks) = some name := by
  cases h with
  | plain hplain =>
    obtain ⟨c, cs, rfl⟩ := List.exists_cons_of_ne_nil (l := name)
      (by simpa using Text.ne_nil_of_isPlain hplain)
    rw [isPlain_map_foldCase, Bool.and_eq_true] at hplain
    obtain ⟨hstart, hcs⟩ := hplain
    have hchars : ∀ d ∈ c :: cs, isAliasChar d :=
      List.forall_mem_cons.mpr ⟨isAliasChar_of_isAliasStart hstart, List.all_eq_true.mp hcs⟩
    exact aliasName?_bare_append hstart hchars hblanks
  | @ticked inner hinner => simpa using aliasName?_ticked hinner hblanks

/-- The search at one place finds a clause when the text from there on is one, up to white space at
the end. -/
theorem aliasClause?_eq_some_iff {cs clause : List Char} : aliasClause? cs = some clause ↔
    IsClause clause ∧ ∃ blanks, (∀ c ∈ blanks, Text.isBlank c) ∧ cs = clause ++ blanks := by
  constructor
  · intro h
    obtain ⟨lead, a, s, gap, name, blanks, hparts, rfl, hblanks, hcs, hname⟩ :=
      aliasClause?_eq_some h
    refine ⟨?_, blanks, hblanks, hcs⟩
    have hword : [a, s].map foldCase = ['a', 's'] := by
      simp [foldCase_eq_a.mpr hparts.letterA, foldCase_eq_s.mpr hparts.letterS]
    simpa using IsClause.intro hparts.lead_ne_nil hparts.lead_blank hword hparts.gap_ne_nil
      hparts.gap_blank (clauseName_of_aliasName? hname)
  · rintro ⟨⟨hlead, hleadBlank, hword, hgap, hgapBlank, hname⟩, blanks, hblanks, rfl⟩
    obtain ⟨a, rest, rfl, ha, hrest⟩ := List.map_eq_cons_iff.mp hword
    obtain ⟨s, rest, rfl, hs, hnil⟩ := List.map_eq_cons_iff.mp hrest
    obtain rfl := List.map_eq_nil_iff.mp hnil
    have hparts : ClauseParts _ a s _ _ := ⟨hlead, hleadBlank, foldCase_eq_a.mp ha,
      foldCase_eq_s.mp hs, hgap, hgapBlank, hname.outputName⟩
    simpa using hparts.aliasClause?_eq (hname.aliasName?_eq hblanks)

end Clause

section Split

/-- Of all such splits of a text the one with the shortest body. -/
def EndsWithLongest (cs body clause : List Char) : Prop :=
  EndsWithClause cs body clause ∧
    ∀ body' clause', EndsWithClause cs body' clause' → body.length ≤ body'.length

theorem endsWithClause_iff {cs body clause : List Char} : EndsWithClause cs body clause ↔
    ∃ rest, cs = body ++ rest ∧ aliasClause? rest = some clause := by
  constructor
  · rintro ⟨hclause, blanks, hblanks, rfl⟩
    exact ⟨clause ++ blanks, by simp, aliasClause?_eq_some_iff.mpr ⟨hclause, blanks, hblanks, rfl⟩⟩
  · rintro ⟨rest, rfl, hrest⟩
    obtain ⟨hclause, blanks, hblanks, rfl⟩ := aliasClause?_eq_some_iff.mp hrest
    exact ⟨hclause, blanks, hblanks, by simp⟩

theorem splitAlias_eq_none_iff {cs : List Char} :
    splitAlias cs = none ↔ ∀ body clause, ¬ EndsWithClause cs body clause := by
  constructor
  · intro hnone body clause h
    obtain ⟨rest, rfl, hrest⟩ := endsWithClause_iff.mp h
    exact splitAlias_ne_none body hrest hnone
  · intro h
    cases hsplit : splitAlias cs with
    | none => rfl
    | some parts => exact absurd (endsWithClause_iff.mpr (splitAlias_eq_some hsplit)) (h _ _)

/-- The search goes from the left, so that no split has a shorter body. -/
theorem length_le_of_splitAlias {cs body clause body' clause' : List Char}
    (h : splitAlias cs = some (body, clause)) (h' : EndsWithClause cs body' clause') :
    body.length ≤ body'.length := by
  induction cs generalizing body body' with
  | nil => cases h
  | cons c cs ih =>
    rw [splitAlias_cons] at h
    split at h
    · obtain ⟨rfl, -⟩ := Prod.mk.inj (Option.some.inj h)
      exact Nat.zero_le _
    · next hnone =>
      obtain ⟨⟨shorter, found⟩, hsplit, heq⟩ := Option.map_eq_some_iff.mp h
      obtain ⟨rfl, rfl⟩ := Prod.mk.inj heq
      obtain ⟨rest, hcut, hrest⟩ := endsWithClause_iff.mp h'
      cases body' with
      | nil =>
        rw [hcut, List.nil_append] at hnone
        simp [hrest] at hnone
      | cons d body' =>
        have hcs : EndsWithClause cs body' clause' :=
          endsWithClause_iff.mpr ⟨rest, (List.cons.inj hcut).2, hrest⟩
        exact Nat.succ_le_succ (ih hsplit hcs)

theorem splitAlias_eq_some_iff {cs body clause : List Char} :
    splitAlias cs = some (body, clause) ↔ EndsWithLongest cs body clause := by
  constructor
  · intro h
    exact ⟨endsWithClause_iff.mpr (splitAlias_eq_some h), fun _ _ => length_le_of_splitAlias h⟩
  · rintro ⟨hends, hshortest⟩
    cases hsplit : splitAlias cs with
    | none => exact absurd hends (splitAlias_eq_none_iff.mp hsplit body clause)
    | some parts =>
      obtain ⟨body', clause'⟩ := parts
      have hlength : body.length = body'.length :=
        Nat.le_antisymm (hshortest _ _ (endsWithClause_iff.mpr (splitAlias_eq_some hsplit)))
          (length_le_of_splitAlias hsplit hends)
      obtain ⟨rest, rfl, hrest⟩ := endsWithClause_iff.mp hends
      obtain ⟨rest', hcut, hrest'⟩ := splitAlias_eq_some hsplit
      obtain ⟨rfl, rfl⟩ := List.append_inj hcut hlength
      obtain rfl := Option.some.inj (hrest.symm.trans hrest')
      rfl

end Split

section Quotes

theorem isInert_of_class {p : Char → Bool} (hp : ∀ c ∈ ['\'', '\x60', '\\'], p c = false) {c : Char}
    (h : p c) : isInert c := by
  simp only [isInert, Bool.and_eq_true, bne_iff_ne]
  refine ⟨⟨?_, ?_⟩, ?_⟩
  all_goals
    rintro rfl
    rw [hp _ (by simp)] at h
    cases h

theorem isInert_of_isBlank {c : Char} (h : Text.isBlank c) : isInert c :=
  isInert_of_class (by decide) h

theorem isInert_of_isAliasChar {c : Char} (h : isAliasChar c) : isInert c :=
  isInert_of_class (by decide) h

def Quoting.IsIdentifier (state : Quoting) : Prop := state.kind = .identifier 0

theorem Quoting.not_isIdentifier_after {state : Quoting} {cs : List Char}
    (h : ¬ state.IsIdentifier) (hcs : '\x60' ∉ cs) : ¬ (state.after cs).IsIdentifier := by
  induction cs generalizing state with
  | nil => exact h
  | cons c cs ih =>
    simp only [List.mem_cons, not_or] at hcs
    refine ih ?_ hcs.2
    cases state <;> grind [Quoting.step, Quoting.IsIdentifier, Quoting.kind]

/-- A backtick does not open an identifier inside of quotes. -/
theorem Quoting.not_isIdentifier_step {state : Quoting} (h : state ≠ .plain) :
    ¬ (state.step 0 '\x60').IsIdentifier := by
  cases state with
  | plain => exact absurd rfl h
  | literal | escaped | identifier _ => exact Quoting.noConfusion

theorem Quoting.step_ne_plain {state : Quoting} (h : ¬ state.IsIdentifier) :
    state.step 0 '\x60' ≠ .plain := by
  cases state with
  | identifier _ => exact absurd rfl h
  | plain | literal | escaped => exact Quoting.noConfusion

/-- A clause ends outside quotes only when it starts there. Of its characters only the two backticks
around a name can close quotes, and the second opens what the first has closed. -/
theorem IsClause.eq_plain_of_after {state : Quoting} {clause : List Char} (h : IsClause clause)
    (hafter : state.after clause = .plain) : state = .plain := by
  obtain @⟨lead, word, gap, name, -, hlead, hword, -, hgap, hname⟩ := h
  have hwordChar : ∀ c ∈ word, isAliasChar c := by
    intro c hc
    have hfold : foldCase c ∈ ['a', 's'] := hword ▸ List.mem_map_of_mem hc
    have hall : ∀ d ∈ ['a', 's'], Text.isWord d := by decide
    rw [← isWord_foldCase]
    exact hall _ hfold
  have hfront : ∀ c ∈ lead ++ word ++ gap, isInert c := by
    intro c hc
    rcases List.mem_append.mp hc with hc | hc
    · rcases List.mem_append.mp hc with hc | hc
      · exact isInert_of_isBlank (hlead c hc)
      · exact isInert_of_isAliasChar (hwordChar c hc)
    · exact isInert_of_isBlank (hgap c hc)
  rw [Quoting.after_append] at hafter
  by_contra hstate
  have hopen : state.after (lead ++ word ++ gap) ≠ .plain :=
    fun hplain => hstate (Columnar.eq_plain_of_after hfront hplain)
  cases hname with
  | plain hplain =>
    refine hopen (Columnar.eq_plain_of_after (fun c hc => isInert_of_isAliasChar ?_) hafter)
    rw [← isWord_foldCase]
    exact Text.isWord_of_isPlain hplain _ (List.mem_map_of_mem hc)
  | @ticked inner hinner =>
    rw [List.cons_append, Quoting.after_cons, Quoting.after_append] at hafter
    exact Quoting.step_ne_plain
      (Quoting.not_isIdentifier_after (Quoting.not_isIdentifier_step hopen) hinner) hafter

/-- A text that ends outside quotes has the body of any split end there. -/
theorem EndsWithClause.after_body {cs body clause : List Char} (h : EndsWithClause cs body clause)
    (hcs : Quoting.plain.after cs = .plain) : Quoting.plain.after body = .plain := by
  obtain ⟨hclause, blanks, hblanks, rfl⟩ := h
  rw [Quoting.after_append, Quoting.after_append] at hcs
  exact hclause.eq_plain_of_after
    (Columnar.eq_plain_of_after (fun c hc => isInert_of_isBlank (hblanks c hc)) hcs)

end Quotes

/-- A clause at the end of a text is split off where that leaves the shortest body, and goes back as
it was behind the qualified body. Without a clause the whole text is qualified. Where the text ends
outside quotes the body does. -/
theorem qualify_trailing_alias (tableAlias : String) (fields : List String) (text : String)
    (hwhole : ∀ f ∈ fields, f ≠ "" →
      Text.sameName f (String.ofList (Text.trim text.toList)) = false) :
    ((∃ body clause, EndsWithClause text.toList body clause) →
      ∃ body clause, EndsWithLongest text.toList body clause ∧
        splitAlias text.toList = some (body, clause) ∧
        (qualify tableAlias fields text).toList = qualifyBody tableAlias fields body ++ clause ∧
        (Balanced text → Balanced (String.ofList body))) ∧
    ((∀ body clause, ¬ EndsWithClause text.toList body clause) →
      splitAlias text.toList = none ∧
        (qualify tableAlias fields text).toList = qualifyBody tableAlias fields text.toList) := by
  have hqualify := qualify_of_not_whole tableAlias hwhole
  constructor
  · rintro ⟨front, found, hends⟩
    cases hsplit : splitAlias text.toList with
    | none => exact absurd hends (splitAlias_eq_none_iff.mp hsplit front found)
    | some parts =>
      obtain ⟨body, clause⟩ := parts
      have hlongest := splitAlias_eq_some_iff.mp hsplit
      rw [hsplit] at hqualify
      refine ⟨body, clause, hlongest, rfl, hqualify, fun htext => ?_⟩
      rw [balanced_iff, String.toList_ofList]
      exact hlongest.1.after_body (balanced_iff.mp htext)
  · intro hends
    have hsplit := splitAlias_eq_none_iff.mpr hends
    rw [hsplit] at hqualify
    exact ⟨hsplit, by simpa using hqualify⟩

theorem qualify_trailing_alias_total :
    let text := "price AS `the total` "
    (∀ f ∈ ["price"], f ≠ "" →
      Text.sameName f (String.ofList (Text.trim text.toList)) = false) ∧
    EndsWithClause text.toList "price".toList " AS `the total`".toList ∧
    ∃ body clause, EndsWithLongest text.toList body clause ∧
      splitAlias text.toList = some (body, clause) ∧
      (qualify "t" ["price"] text).toList = qualifyBody "t" ["price"] body ++ clause ∧
      (Balanced text → Balanced (String.ofList body)) := by
  intro text
  have hwhole : ∀ f ∈ ["price"], f ≠ "" →
      Text.sameName f (String.ofList (Text.trim text.toList)) = false := by decide
  have hname : ClauseName "`the total`".toList := @ClauseName.ticked "the total".toList (by decide)
  have hclause : IsClause " AS `the total`".toList :=
    @IsClause.intro [' '] ['A', 'S'] [' '] _ (by simp) (by decide) rfl (by simp) (by decide) hname
  have hends : EndsWithClause text.toList "price".toList " AS `the total`".toList :=
    ⟨hclause, [' '], by decide, by decide⟩
  exact ⟨hwhole, hends, (qualify_trailing_alias "t" ["price"] text hwhole).1 ⟨_, _, hends⟩⟩

end Columnar
