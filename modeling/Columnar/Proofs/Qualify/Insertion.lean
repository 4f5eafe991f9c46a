import Mathlib.Logic.Relation
import Columnar.Proofs.Qualify.Search

/-! What qualification does to a text, one insertion after the other. Each puts the qualifier in
front of an occurrence of a field that the text has at that time; the text may hold the insertions
that were made before. -/
namespace Columnar

/-- A place in front of a name, between `front` and `back`, that gets the qualifier. It is outside
quotes, and the name either stands alone behind it or fills an identifier between backticks. -/
inductive QualifiedPlace (needle : List Char) : List Char → List Char → Prop
  | bare {front back : List Char} : Quoting.plain.after front = .plain →
      front.getLast?.any bindsNext = false → startsWithName needle back →
      (back.drop needle.length).head?.any Text.isWord = false → QualifiedPlace needle front back
  | ticked {front inner : List Char} : Quoting.plain.after front = .plain →
      front.getLast? ≠ some '.' → startsWithName needle inner →
      (inner.drop needle.length).head? = some '\x60' →
      QualifiedPlace needle front ('\x60' :: inner)

inductive Insertion (inserted : List Char) (names : List String) : List Char → List Char → Prop
  | intro {name : String} {front back : List Char} : name ∈ names →
      QualifiedPlace (Text.lower name).toList front back →
      Insertion inserted names (front ++ back) (front ++ inserted ++ back)

abbrev Insertions (inserted : List Char) (names : List String) : List Char → List Char → Prop :=
  Relation.ReflTransGen (Insertion inserted names)

theorem QualifiedPlace.plain {needle front back : List Char}
    (h : QualifiedPlace needle front back) : Quoting.plain.after front = .plain := by
  cases h with
  | bare hplain => exact hplain
  | ticked hplain => exact hplain

section Search

variable {needle : List Char}

/-- What the search does at an occurrence: nothing, or an insertion at a place. -/
theorem qualifyAt_cases (inserted left : List Char) {back : List Char}
    (hname : startsWithName needle back) :
    qualifyAt inserted left (back.drop needle.length) = left ∨
      ∃ front behind, QualifiedPlace needle front behind ∧ left.reverse ++ back = front ++ behind ∧
        (qualifyAt inserted left (back.drop needle.length)).reverse ++ back =
          front ++ inserted ++ behind := by
  by_cases hplain : stateBehind left = .plain
  · rw [qualifyAt_plain hplain]
    split
    · exact Or.inl rfl
    · next hstop =>
      simp only [Bool.or_eq_true, not_or, Bool.not_eq_true] at hstop
      exact Or.inr ⟨left.reverse, back, .bare hplain (by simpa using hstop.1) hname hstop.2, rfl,
        by simp⟩
  · by_cases hopened : justOpened left
    · obtain ⟨outer, rfl, houter⟩ := hopened
      rw [qualifyAt_opened houter]
      split
      · next hfilled =>
        exact Or.inr ⟨outer.reverse, '\x60' :: back,
          .ticked houter (by simpa using hfilled.2) hname hfilled.1, by simp, by simp⟩
      · exact Or.inl rfl
    · exact Or.inl (qualifyAt_quoted hplain hopened)

end Search

section Names

variable {inserted : List Char} {names : List String}

theorem qualifyFrom_insertions {name : String} (hmem : name ∈ names) (left : List Char) (skip : Nat)
    (cs : List Char) :
    Insertions inserted names (left.reverse ++ cs)
      (qualifyFrom inserted (Text.lower name).toList left skip cs) := by
  induction cs generalizing left skip with
  | nil =>
    simp only [List.append_nil, qualifyFrom]
    exact .refl
  | cons c cs ih =>
    have hstep (left : List Char) (skip : Nat) : Insertions inserted names (left.reverse ++ c :: cs)
        (qualifyFrom inserted (Text.lower name).toList (c :: left) skip cs) := by
      simpa using ih (c :: left) skip
    cases skip with
    | succ skip => exact hstep left skip
    | zero =>
      rw [qualifyFrom]
      split
      · next hname =>
        dsimp only
        rcases qualifyAt_cases inserted left hname with
          hself | ⟨front, behind, hplace, hcut, hdone⟩
        · rw [hself]
          exact hstep left _
        · have hfirst : Insertion inserted names _ _ := .intro hmem hplace
          rw [← hcut, ← hdone] at hfirst
          exact .head hfirst (hstep _ _)
      · exact hstep left 0

/-- The search for names one after the other makes insertions in front of them. -/
theorem foldl_qualifyName_insertions (tableAlias : String) {searched : List String}
    (hsearched : ∀ name ∈ searched, name ∈ names) (cs : List Char) :
    Insertions (tableAlias.toList ++ ['.']) names cs
      (searched.foldl (fun body name => qualifyName tableAlias name body) cs) := by
  induction searched generalizing cs with
  | nil => exact .refl
  | cons name searched ih =>
    have hfirst : Insertions (tableAlias.toList ++ ['.']) names cs
        (qualifyName tableAlias name cs) :=
      qualifyFrom_insertions (hsearched name (by simp)) [] 0 cs
    exact hfirst.trans (ih (fun other h => hsearched other (by simp [h])) _)

end Names

section Qualify

def qualifyBody (tableAlias : String) (fields : List String) (body : List Char) : List Char :=
  (longestFirst fields).foldl (fun body name => qualifyName tableAlias name body) body

theorem qualifyBody_insertions (tableAlias : String) (fields : List String) (body : List Char) :
    Insertions (tableAlias.toList ++ ['.']) fields body (qualifyBody tableAlias fields body) :=
  foldl_qualifyName_insertions tableAlias (fun _ h => (mem_longestFirst.mp h).1) body

variable (tableAlias : String) {fields : List String} {text : String}

theorem qualify_of_whole {f : String} (hmem : f ∈ fields) (hne : f ≠ "")
    (hsame : Text.sameName f (String.ofList (Text.trim text.toList))) :
    qualify tableAlias fields text =
      tableAlias ++ "." ++ String.ofList (Text.trim text.toList) := by
  have hany : (longestFirst fields).any
      (Text.sameName · (String.ofList (Text.trim text.toList))) = true :=
    List.any_eq_true.mpr ⟨f, mem_longestFirst.mpr ⟨hmem, hne⟩, hsame⟩
  unfold qualify
  dsimp only
  rw [hany, if_pos rfl]

theorem qualify_of_not_whole
    (hwhole : ∀ f ∈ fields, f ≠ "" →
      Text.sameName f (String.ofList (Text.trim text.toList)) = false) :
    (qualify tableAlias fields text).toList =
      qualifyBody tableAlias fields ((splitAlias text.toList).getD (text.toList, [])).1 ++
        ((splitAlias text.toList).getD (text.toList, [])).2 := by
  have hnone : (longestFirst fields).any
      (Text.sameName · (String.ofList (Text.trim text.toList))) = false := by
    rw [List.any_eq_false]
    intro f hf
    obtain ⟨hmem, hne⟩ := mem_longestFirst.mp hf
    rw [hwhole f hmem hne]
    exact Bool.false_ne_true
  unfold qualify
  dsimp only
  rw [hnone, if_neg Bool.false_ne_true, String.toList_ofList]
  rfl

/-- The split leaves blanks at the end of the text only. -/
theorem exists_split (cs : List Char) :
    ∃ body clause blanks, cs = body ++ clause ++ blanks ∧ (∀ c ∈ blanks, Text.isBlank c) ∧
      (splitAlias cs).getD (cs, []) = (body, clause) := by
  cases hsplit : splitAlias cs with
  | none => exact ⟨cs, [], [], by simp, by simp, rfl⟩
  | some parts =>
    obtain ⟨rest, hcs, hclause⟩ := splitAlias_eq_some hsplit
    obtain ⟨-, -, -, -, -, blanks, -, -, hblanks, hrest, -⟩ := aliasClause?_eq_some hclause
    exact ⟨parts.1, parts.2, blanks, by rw [List.append_assoc, ← hrest, hcs], hblanks, rfl⟩

/-- A text that is one field as a whole is qualified as a whole. Any other is split into a body, an
output name and blanks, and all that happens is that insertions are made in the body. -/
theorem qualify_cases (fields : List String) (text : String) :
    (∃ f ∈ fields, f ≠ "" ∧ Text.sameName f (String.ofList (Text.trim text.toList)) = true ∧
      qualify tableAlias fields text =
        tableAlias ++ "." ++ String.ofList (Text.trim text.toList)) ∨
    ∃ body clause blanks body', text.toList = body ++ clause ++ blanks ∧
      (∀ c ∈ blanks, Text.isBlank c) ∧
      (splitAlias text.toList).getD (text.toList, []) = (body, clause) ∧
      Insertions (tableAlias.toList ++ ['.']) fields body body' ∧
      (qualify tableAlias fields text).toList = body' ++ clause := by
  by_cases hwhole : ∃ f ∈ fields, f ≠ "" ∧
      Text.sameName f (String.ofList (Text.trim text.toList)) = true
  · obtain ⟨f, hmem, hne, hsame⟩ := hwhole
    exact Or.inl ⟨f, hmem, hne, hsame, qualify_of_whole tableAlias hmem hne hsame⟩
  · obtain ⟨body, clause, blanks, htext, hblanks, hsplit⟩ := exists_split text.toList
    have hdone : (qualify tableAlias fields text).toList = _ :=
      qualify_of_not_whole tableAlias (by simpa using hwhole)
    rw [hsplit] at hdone
    exact Or.inr ⟨body, clause, blanks, _, htext, hblanks, hsplit,
      qualifyBody_insertions tableAlias fields body, hdone⟩

end Qualify

end Columnar
