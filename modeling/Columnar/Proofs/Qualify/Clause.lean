import Mathlib.Data.List.TakeWhile
import Columnar.Qualify.TrailingAlias
import Columnar.Proofs.Text.Reading

/-! Where the output name at the end of an expression text is split off, and which endings of a text
are taken for one. -/
namespace Columnar

-- the ranges of white space must not be evaluated on a character that is not known
attribute [local irreducible] Text.isBlank in
theorem splitAlias_cons (c : Char) (cs : List Char) : splitAlias (c :: cs) =
    match aliasClause? (c :: cs) with
    | some clause => some ([], clause)
    | none => (splitAlias cs).map fun (body, clause) => (c :: body, clause) := rfl

/-- The split leaves a clause behind the body. -/
theorem splitAlias_eq_some {cs body clause : List Char} (h : splitAlias cs = some (body, clause)) :
    ∃ rest, cs = body ++ rest ∧ aliasClause? rest = some clause := by
  induction cs generalizing body with
  | nil => cases h
  | cons c cs ih =>
    rw [splitAlias_cons] at h
    split at h
    · next found hfound =>
      obtain ⟨rfl, rfl⟩ := Prod.mk.inj (Option.some.inj h)
      exact ⟨c :: cs, rfl, hfound⟩
    · obtain ⟨⟨shorter, found⟩, hsplit, heq⟩ := Option.map_eq_some_iff.mp h
      obtain ⟨rfl, rfl⟩ := Prod.mk.inj heq
      obtain ⟨rest, rfl, hrest⟩ := ih hsplit
      exact ⟨rest, rfl, hrest⟩

theorem isAliasChar_of_isWord {c : Char} (h : Text.isWord c) : isAliasChar c := by
  simp [isAliasChar, h]

theorem isAliasChar_of_isAliasStart {c : Char} (h : isAliasStart c) : isAliasChar c := by
  simp only [isAliasStart, Bool.or_eq_true] at h
  rcases h with h | h
  · exact isAliasChar_of_isWord (Text.isWord_of_isWordStart h)
  · simp [isAliasChar, h]

theorem isAliasChar_of_isLetterA {c : Char} (h : isLetterA c) : isAliasChar c := by
  simp only [isLetterA, Bool.or_eq_true, beq_iff_eq] at h
  rcases h with rfl | rfl <;> decide

theorem isAliasChar_of_isLetterS {c : Char} (h : isLetterS c) : isAliasChar c := by
  simp only [isLetterS, Bool.or_eq_true, beq_iff_eq] at h
  rcases h with (rfl | rfl) | h
  · decide
  · decide
  · simp [isAliasChar, foldsToLetter, h]

theorem toNat_of_toLower {c d : Char} (h : c.toLower = d) :
    c.toNat = d.toNat ∨ c.toNat + 32 = d.toNat := by
  have hn := Text.toNat_toLower c
  rw [h] at hn
  split at hn <;> omega

theorem isLetterA_of_toLower {c : Char} (h : c.toLower = 'a') : isLetterA c := by
  simp only [isLetterA, Bool.or_eq_true, beq_iff_eq, ← Char.toNat_inj]
  have := toNat_of_toLower h
  simp only [Char.reduceToNat] at this ⊢
  omega

theorem isLetterS_of_toLower {c : Char} (h : c.toLower = 's') : isLetterS c := by
  simp only [isLetterS, Bool.or_eq_true, beq_iff_eq, ← Char.toNat_inj]
  have := toNat_of_toLower h
  simp only [Char.reduceToNat] at this ⊢
  omega

theorem isBlank_of_isAliasChar {c : Char} (h : isAliasChar c) : Text.isBlank c = false := by
  simp only [isAliasChar, foldsToLetter, Bool.or_eq_true, beq_iff_eq] at h
  rcases h with h | h | h
  · exact Text.isBlank_of_isWord h
  · simp [Text.isBlank, h]
  · simp [Text.isBlank, h]

theorem not_isAliasChar_of_isBlank {c : Char} (h : Text.isBlank c) : isAliasChar c = false := by
  cases hc : isAliasChar c with
  | false => rfl
  | true =>
    have := isBlank_of_isAliasChar hc
    simp [h] at this

/-- A name that a clause can give: bare, or between backticks. -/
inductive OutputName : List Char → Prop
  | bare {name : List Char} : name ≠ [] → (∀ c ∈ name, isAliasChar c) → OutputName name
  | ticked {inner : List Char} : '\x60' ∉ inner → OutputName ('\x60' :: inner ++ ['\x60'])

/-- The parts of a clause: blanks, the word AS, blanks and a name. -/
structure ClauseParts (lead : List Char) (a s : Char) (gap name : List Char) : Prop where
  lead_ne_nil : lead ≠ []
  lead_blank : ∀ c ∈ lead, Text.isBlank c
  letterA : isLetterA a
  letterS : isLetterS s
  gap_ne_nil : gap ≠ []
  gap_blank : ∀ c ∈ gap, Text.isBlank c
  name : OutputName name

/-- A name that is read is bare or between backticks, and only blanks are behind it. -/
theorem aliasName?_cases {cs name : List Char} (h : aliasName? cs = some name) :
    ∃ blanks, (∀ c ∈ blanks, Text.isBlank c) ∧ cs = name ++ blanks ∧
      ((∃ c rest, name = c :: rest ∧ isAliasStart c ∧ ∀ d ∈ c :: rest, isAliasChar d) ∨
        ∃ inner, name = '\x60' :: inner ++ ['\x60'] ∧ '\x60' ∉ inner) := by
  unfold aliasName? at h
  split at h
  · cases h
  · next c rest =>
    split at h
    · next hc =>
      subst hc
      split at h
      · next inner blanks hsplit =>
        obtain ⟨rfl, hinner⟩ := Text.splitBacktick_eq_some_iff.mp hsplit
        split at h
        · next hblank =>
          obtain rfl := Option.some.inj h
          exact ⟨blanks, List.all_eq_true.mp hblank, by simp, Or.inr ⟨inner, rfl, hinner⟩⟩
        · cases h
      · cases h
    · split at h
      · next hc =>
        simp only [Bool.and_eq_true] at hc
        have hchar : isAliasChar c := isAliasChar_of_isAliasStart hc.1
        obtain rfl := Option.some.inj h
        refine ⟨_, List.all_eq_true.mp hc.2, List.takeWhile_append_dropWhile.symm,
          Or.inl ⟨c, rest.takeWhile isAliasChar, List.takeWhile_cons_of_pos hchar, hc.1, ?_⟩⟩
        exact List.forall_mem_cons.mpr ⟨hchar, List.all_eq_true.mp List.all_takeWhile⟩
      · cases h

theorem aliasName?_eq_some {cs name : List Char} (h : aliasName? cs = some name) :
    OutputName name ∧ ∃ blanks, (∀ c ∈ blanks, Text.isBlank c) ∧ cs = name ++ blanks := by
  obtain ⟨blanks, hblanks, hcs, hname⟩ := aliasName?_cases h
  refine ⟨?_, blanks, hblanks, hcs⟩
  rcases hname with ⟨c, rest, rfl, -, hchars⟩ | ⟨inner, rfl, hinner⟩
  · exact .bare (by simp) hchars
  · exact .ticked hinner

/-- A bare name in front of blanks. -/
theorem aliasName?_bare_append {c : Char} {cs blanks : List Char} (hstart : isAliasStart c)
    (hname : ∀ d ∈ c :: cs, isAliasChar d) (hblanks : ∀ d ∈ blanks, Text.isBlank d) :
    aliasName? (c :: cs ++ blanks) = some (c :: cs) := by
  have htick : c ≠ '\x60' := by
    rintro rfl
    exact absurd hstart (by decide)
  have hrun : blanks.takeWhile isAliasChar = [] ∧ blanks.dropWhile isAliasChar = blanks := by
    cases blanks with
    | nil => exact ⟨rfl, rfl⟩
    | cons d blanks => simp [not_isAliasChar_of_isBlank (hblanks d (by simp))]
  have hread : (c :: cs ++ blanks).takeWhile isAliasChar = c :: cs := by
    rw [List.takeWhile_append_of_pos hname, hrun.1, List.append_nil]
  have hrest : (c :: cs ++ blanks).dropWhile isAliasChar = blanks := by
    rw [List.dropWhile_append_of_pos hname, hrun.2]
  rw [List.cons_append] at hread hrest ⊢
  simp only [aliasName?, if_neg htick, hstart, hrest, hread, List.all_eq_true.mpr hblanks]
  rfl

/-- A bare name that ends a text. -/
theorem aliasName?_bare {c : Char} {cs : List Char} (hstart : isAliasStart c)
    (hname : ∀ d ∈ c :: cs, isAliasChar d) : aliasName? (c :: cs) = some (c :: cs) := by
  simpa using aliasName?_bare_append hstart hname (List.forall_mem_nil _)

/-- A name between backticks in front of blanks. -/
theorem aliasName?_ticked {inner blanks : List Char} (hinner : '\x60' ∉ inner)
    (hblanks : ∀ c ∈ blanks, Text.isBlank c) :
    aliasName? ('\x60' :: (inner ++ '\x60' :: blanks)) = some ('\x60' :: inner ++ ['\x60']) := by
  have hsplit : Text.splitBacktick (inner ++ '\x60' :: blanks) = some (inner, blanks) :=
    Text.splitBacktick_eq_some_iff.mpr ⟨rfl, hinner⟩
  have hall : blanks.all Text.isBlank = true := List.all_eq_true.mpr hblanks
  simp only [aliasName?, ↓reduceIte, hsplit, hall]

/-- A name is read without the blanks behind it just as well. -/
theorem aliasName?_self {cs name : List Char} (h : aliasName? cs = some name) :
    aliasName? name = some name := by
  obtain ⟨-, -, -, ⟨c, rest, rfl, hstart, hchars⟩ | ⟨inner, rfl, hinner⟩⟩ := aliasName?_cases h
  · exact aliasName?_bare hstart hchars
  · exact aliasName?_ticked hinner (by simp)

theorem aliasClause?_eq_some {cs clause : List Char} (h : aliasClause? cs = some clause) :
    ∃ lead a s gap name blanks, ClauseParts lead a s gap name ∧
      clause = lead ++ a :: s :: (gap ++ name) ∧ (∀ c ∈ blanks, Text.isBlank c) ∧
      cs = clause ++ blanks ∧ aliasName? (name ++ blanks) = some name := by
  have hblank : ∀ ds : List Char, ∀ c ∈ ds.takeWhile Text.isBlank, Text.isBlank c := fun ds =>
    List.all_eq_true.mp List.all_takeWhile
  unfold aliasClause? at h
  dsimp only at h
  split at h
  · next a s rest hrest =>
    split at h
    · next hparts =>
      simp only [Bool.and_eq_true, Bool.not_eq_true', List.isEmpty_eq_false_iff] at hparts
      obtain ⟨⟨⟨hlead, ha⟩, hs⟩, hgap⟩ := hparts
      obtain ⟨name, hread, rfl⟩ := Option.map_eq_some_iff.mp h
      obtain ⟨hname, blanks, hblanks, heq⟩ := aliasName?_eq_some hread
      refine ⟨cs.takeWhile Text.isBlank, a, s, rest.takeWhile Text.isBlank, name, blanks,
        ⟨hlead, hblank cs, ha, hs, hgap, hblank rest, hname⟩, by simp, hblanks, ?_,
        by rw [← heq, hread]⟩
      calc cs = cs.takeWhile Text.isBlank ++ cs.dropWhile Text.isBlank :=
            List.takeWhile_append_dropWhile.symm
        _ = cs.takeWhile Text.isBlank ++
              a :: s :: (rest.takeWhile Text.isBlank ++ rest.dropWhile Text.isBlank) := by
            rw [hrest, List.takeWhile_append_dropWhile]
        _ = _ := by
            rw [heq]
            simp
    · cases h
  · cases h

/-- More blanks in front of a clause belong to it. -/
theorem aliasClause?_cons {c : Char} (hc : Text.isBlank c) {cs clause : List Char}
    (h : aliasClause? cs = some clause) : aliasClause? (c :: cs) = some (c :: clause) := by
  unfold aliasClause? at h ⊢
  dsimp only at h ⊢
  rw [List.takeWhile_cons_of_pos hc, List.dropWhile_cons_of_pos hc]
  split at h
  · split at h
    · next hparts =>
      simp only [Bool.and_eq_true] at hparts
      obtain ⟨name, hname, rfl⟩ := Option.map_eq_some_iff.mp h
      simp [hparts, hname]
    · cases h
  · cases h

end Columnar
