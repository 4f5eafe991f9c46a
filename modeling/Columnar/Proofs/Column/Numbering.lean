import Mathlib.Data.List.Forall2
import Columnar.Proofs.Column.Renamed

/-! Numbering the minted names in a text. The scan goes through a text word by word: a whole word that
has the form of a name of the scope is numbered, every other word is copied. Two texts that differ in
the choice of the supply alone have the same numbers at the same places. -/
namespace Columnar

namespace LambdaScope

variable {s : LambdaScope} {previous previous' : Option Char} {cs word : List Char}

theorem matchesAt_congr (h : isWordAt previous' = isWordAt previous) (cs : List Char) :
    s.matchesAt previous' cs = s.matchesAt previous cs := by
  rw [matchesAt, matchesAt, h]

/-- A name in front of a text starts with the start of a word. -/
theorem head_of_matchesAt (hstem : Text.isPlain s.stem.toList) (h : s.matchesAt previous cs = true) :
    isWordAt cs.head? = true ∧ isWordAt previous = false := by
  obtain ⟨c, rest, hc⟩ : ∃ c rest, s.stem.toList = c :: rest :=
    List.exists_cons_of_ne_nil (Text.ne_nil_of_isPlain hstem)
  have hword : Text.isWord c := Text.isWord_of_isPlain hstem c (by rw [hc]; exact List.mem_cons_self)
  simp only [matchesAt, Bool.and_eq_true] at h
  obtain ⟨⟨⟨⟨hlead, -⟩, -⟩, hedge⟩, -⟩ := h
  cases cs with
  | nil => simp [hc] at hlead
  | cons d cs =>
    have hd : d = c := by
      rw [hc] at hlead
      simpa [eq_comm] using (List.cons_prefix_cons.mp (List.isPrefixOf_iff_prefix.mp hlead)).1
    subst hd
    have hlength : s.nameLength = s.nameLength - 1 + 1 := by
      unfold nameLength
      omega
    rw [hlength, List.take_succ_cons, List.head?_cons] at hedge
    have hhead : isWordAt (some d) = true := hword
    refine ⟨hhead, ?_⟩
    rw [hhead] at hedge
    simpa using hedge

theorem takeWhile_run (hword : ∀ c ∈ word, Text.isWord c) (hedge : isWordAt cs.head? = false) :
    (word ++ cs).takeWhile Text.isWord = word := by
  rw [List.takeWhile_append_of_pos hword]
  cases cs with
  | nil => simp
  | cons c cs =>
    have hc : Text.isWord c = false := hedge
    simp [hc]

/-- A text has one maximal run of word characters at its start. -/
theorem run_unique {word' cs' : List Char} (h : word ++ cs = word' ++ cs')
    (hword : ∀ c ∈ word, Text.isWord c) (hedge : isWordAt cs.head? = false)
    (hword' : ∀ c ∈ word', Text.isWord c) (hedge' : isWordAt cs'.head? = false) : word = word' := by
  rw [← takeWhile_run hword hedge, h, takeWhile_run hword' hedge']

theorem IsName.length (h : s.IsName word) : word.length = s.nameLength := by
  obtain ⟨digits, rfl, hlength, -⟩ := h.eq
  rw [List.length_append, List.length_cons, hlength, String.length_toList, nameLength]
  omega

theorem IsName.isWord (hstem : Text.isPlain s.stem.toList) (h : s.IsName word) :
    ∀ c ∈ word, Text.isWord c := Text.isWord_of_isPlain (h.isPlain hstem)

/-- What stands in front of a text has the form of a name when the scan finds one there. -/
theorem isName_of_matchesAt (h : s.matchesAt previous cs = true) :
    s.IsName (cs.take s.nameLength) ∧ isWordAt (cs.take s.nameLength).getLast? ≠
      isWordAt (cs.drop s.nameLength).head? := by
  simp only [matchesAt, Bool.and_eq_true, beq_iff_eq, List.all_eq_true, bne_iff_ne] at h
  obtain ⟨⟨⟨⟨hlead, hlength⟩, hhex⟩, -⟩, hedge⟩ := h
  refine ⟨⟨_, ?_, hlength, hhex⟩, hedge⟩
  have hstem : (s.stem.toList ++ ['_']).length = s.stem.length + 1 := by
    simp [String.length_toList]
  have hname : s.stem.toList ++ ['_'] <+: cs.take s.nameLength := by
    rw [List.prefix_take_iff, hstem]
    exact ⟨List.isPrefixOf_iff_prefix.mp hlead, by unfold nameLength; omega⟩
  have hsplit := List.prefix_iff_eq_append.mp hname
  rw [hstem] at hsplit
  rw [List.append_cons, hsplit]

section Word

variable (hstem : Text.isPlain s.stem.toList) (hword : ∀ c ∈ word, Text.isWord c)
  (hedge : isWordAt cs.head? = false)

include hstem hword hedge

/-- A whole word is a name of the scope when the scan finds one at its start. -/
theorem isName_of_matchesAt_word (h : s.matchesAt previous (word ++ cs) = true) : s.IsName word := by
  obtain ⟨hname, hend⟩ := isName_of_matchesAt h
  have hchars := hname.isWord hstem
  have hrun : ((word ++ cs).take s.nameLength) = word := by
    refine run_unique (List.take_append_drop s.nameLength (word ++ cs)) hchars ?_ hword hedge
    have hne : (word ++ cs).take s.nameLength ≠ [] := by
      obtain ⟨digits, hdigits, -⟩ := hname.eq
      simp [hdigits]
    rw [List.getLast?_eq_some_getLast hne] at hend
    have hlast : isWordAt (some (((word ++ cs).take s.nameLength).getLast hne)) = true :=
      hchars _ (List.getLast_mem hne)
    rw [hlast] at hend
    simpa using hend.symm
  rwa [hrun] at hname

omit hword in
theorem matchesAt_of_isName (hname : s.IsName word) (hprevious : isWordAt previous = false) :
    s.matchesAt previous (word ++ cs) = true := by
  have hword := hname.isWord hstem
  have htake : (word ++ cs).take s.nameLength = word := by
    rw [← hname.length, List.take_left']
    rfl
  have hdrop : (word ++ cs).drop s.nameLength = cs := by
    rw [← hname.length, List.drop_left']
    rfl
  obtain ⟨digits, hdigits, hlength, hhex⟩ := hname.eq
  have hne : word ≠ [] := by simp [hdigits]
  have hhead : isWordAt word.head? = true := by
    rw [List.head?_eq_some_head hne]
    exact hword _ (List.head_mem hne)
  have hlast : isWordAt word.getLast? = true := by
    rw [List.getLast?_eq_some_getLast hne]
    exact hword _ (List.getLast_mem hne)
  have hrest : word.drop (s.stem.length + 1) = digits := by
    rw [hdigits, List.append_cons, List.drop_left']
    simp [String.length_toList]
  have hlead : (s.stem.toList ++ ['_']).isPrefixOf (word ++ cs) = true := by
    rw [List.isPrefixOf_iff_prefix, hdigits]
    exact ⟨digits ++ cs, by simp⟩
  simp only [matchesAt, htake, hdrop, hrest, hlength, hlead, hhead, hlast, hprevious, hedge,
    beq_self_eq_true, Bool.and_eq_true, List.all_eq_true, Bool.bne_true, Bool.bne_false,
    Bool.not_false, and_true, true_and]
  exact hhex

end Word

end LambdaScope

/-! The scan, piece by piece. -/

section Scan

variable {s : LambdaScope} {seen : List String} {previous previous' : Option Char}
  {cs word : List Char}

theorem numberNames_congr (scopes : List LambdaScope) (seen : List String)
    (h : isWordAt previous' = isWordAt previous) (skip : Nat) (cs : List Char) :
    numberNames scopes seen previous' skip cs = numberNames scopes seen previous skip cs := by
  cases cs with
  | nil => cases skip <;> rfl
  | cons c cs =>
    cases skip with
    | succ skip => rfl
    | zero =>
      have hfind : (scopes.find? (·.matchesAt previous' (c :: cs))) =
          scopes.find? (·.matchesAt previous (c :: cs)) := by
        simp only [LambdaScope.matchesAt_congr h]
      rw [numberNames, numberNames, hfind]

theorem numberNames_copy {c : Char} (h : s.matchesAt previous (c :: cs) = false) :
    numberNames [s] seen previous 0 (c :: cs) =
      (c :: (numberNames [s] seen (some c) 0 cs).1, (numberNames [s] seen (some c) 0 cs).2) := by
  rw [numberNames, List.find?_cons_of_neg (by simpa using h)]
  rfl

theorem numberNames_skip (hprevious : isWordAt previous = true)
    (hword : ∀ c ∈ word, Text.isWord c) (cs : List Char) :
    numberNames [s] seen previous word.length (word ++ cs) =
      numberNames [s] seen (some '_') 0 cs := by
  induction word generalizing previous with
  | nil =>
    have h : isWordAt previous = isWordAt (some '_') := hprevious
    exact numberNames_congr _ _ h _ _
  | cons c word ih =>
    rw [List.forall_mem_cons] at hword
    have hc : isWordAt (some c) = true := hword.1
    exact ih hc hword.2

section Stem

variable (hstem : Text.isPlain s.stem.toList)

include hstem

theorem numberNames_mark {c : Char} (hc : Text.isWord c = false) :
    numberNames [s] seen previous 0 (c :: cs) =
      (c :: (numberNames [s] seen (some c) 0 cs).1, (numberNames [s] seen (some c) 0 cs).2) := by
  refine numberNames_copy (Bool.eq_false_iff.mpr fun h => ?_)
  have hhead := (LambdaScope.head_of_matchesAt hstem h).1
  rw [List.head?_cons, isWordAt, Option.any_some, hc] at hhead
  cases hhead

/-- Inside a word nothing is found. -/
theorem numberNames_inside (hprevious : isWordAt previous = true)
    (hword : ∀ c ∈ word, Text.isWord c) (cs : List Char) :
    numberNames [s] seen previous 0 (word ++ cs) =
      (word ++ (numberNames [s] seen (some '_') 0 cs).1,
        (numberNames [s] seen (some '_') 0 cs).2) := by
  induction word generalizing previous with
  | nil =>
    have h : isWordAt previous = isWordAt (some '_') := hprevious
    exact numberNames_congr _ _ h _ _
  | cons c word ih =>
    rw [List.forall_mem_cons] at hword
    have hc : isWordAt (some c) = true := hword.1
    have hmatch : s.matchesAt previous (c :: (word ++ cs)) = false := by
      refine Bool.eq_false_iff.mpr fun h => ?_
      rw [(LambdaScope.head_of_matchesAt hstem h).2] at hprevious
      cases hprevious
    rw [List.cons_append, numberNames_copy hmatch, ih hc hword.2]
    rfl

/-- A whole word that is no name of the scope is copied. -/
theorem numberNames_word (hword : ∀ c ∈ word, Text.isWord c) (hne : word ≠ [])
    (hname : ¬ s.IsName word) (hedge : isWordAt cs.head? = false) :
    numberNames [s] seen previous 0 (word ++ cs) =
      (word ++ (numberNames [s] seen (some '_') 0 cs).1,
        (numberNames [s] seen (some '_') 0 cs).2) := by
  obtain ⟨c, rest, rfl⟩ := List.exists_cons_of_ne_nil hne
  have hmatch : s.matchesAt previous (c :: (rest ++ cs)) = false :=
    Bool.eq_false_iff.mpr fun h =>
      hname (LambdaScope.isName_of_matchesAt_word hstem hword hedge h)
  rw [List.forall_mem_cons] at hword
  have hc : isWordAt (some c) = true := hword.1
  rw [List.cons_append, numberNames_copy hmatch, numberNames_inside hstem hc hword.2]
  rfl

/-- A whole word that is a name of the scope is numbered. -/
theorem numberNames_name (hname : s.IsName word) (hprevious : isWordAt previous = false)
    (hedge : isWordAt cs.head? = false) :
    numberNames [s] seen previous 0 (word ++ cs) =
      (s.stem.toList ++ '_' :: '#' :: Number.digits (numberOf (String.ofList word) seen).1 ++
        (numberNames [s] (numberOf (String.ofList word) seen).2 (some '_') 0 cs).1,
        (numberNames [s] (numberOf (String.ofList word) seen).2 (some '_') 0 cs).2) := by
  have hmatch := LambdaScope.matchesAt_of_isName hstem hedge hname hprevious
  have hword := hname.isWord hstem
  have hlength := hname.length
  obtain ⟨c, rest, rfl⟩ : ∃ c rest, word = c :: rest := List.exists_cons_of_ne_nil (by
    obtain ⟨digits, hdigits, -⟩ := hname.eq
    simp [hdigits])
  rw [List.forall_mem_cons] at hword
  have hc : isWordAt (some c) = true := hword.1
  have htake : (c :: (rest ++ cs)).take s.nameLength = c :: rest := by
    rw [← hlength, ← List.cons_append, List.take_left']
    rfl
  have hskip : s.nameLength - 1 = rest.length := by
    rw [← hlength]
    rfl
  rw [List.cons_append] at hmatch ⊢
  have hfind : [s].find? (·.matchesAt previous (c :: (rest ++ cs))) = some s :=
    List.find?_cons_of_pos hmatch
  rw [numberNames, hfind]
  dsimp only
  rw [htake, hskip, numberNames_skip hc hword.2]

end Stem

end Scan

namespace Supplies

variable {s : Supplies} {bound : Nat} {seen seen' : List String} {a a' b b' : String}
  {previous previous' : Option Char} {cs ds : List Char}

/-- The names that each supply gives to the numbers below the bound are pairwise distinct. -/
structure Distinct (s : Supplies) (bound : Nat) : Prop where
  left : ∀ i < bound, ∀ j < bound, s.leftRun.nameAt i = s.leftRun.nameAt j → i = j
  right : ∀ i < bound, ∀ j < bound, s.rightRun.nameAt i = s.rightRun.nameAt j → i = j

/-- Words that are numbered at the same place under both supplies: the same word, or the names of the
same number. -/
inductive SameWord (s : Supplies) (bound : Nat) : String → String → Prop
  | free {a : String} (h : s.Unminted a.toList) : SameWord s bound a a
  | name {i : Nat} (hi : i < bound) : SameWord s bound (s.leftRun.nameAt i) (s.rightRun.nameAt i)

theorem Unminted.ne_nameAt (h : s.Unminted a.toList) (i : Nat) :
    a ≠ s.leftRun.nameAt i ∧ a ≠ s.rightRun.nameAt i :=
  ⟨fun heq => (h i).1 (by rw [heq]; rfl), fun heq => (h i).2 (by rw [heq]; rfl)⟩

theorem SameWord.beq_eq (hdistinct : s.Distinct bound) (h : s.SameWord bound a a')
    (h' : s.SameWord bound b b') : (a' == b') = (a == b) := by
  rw [Bool.eq_iff_iff, beq_iff_eq, beq_iff_eq]
  cases h with
  | free ha =>
    cases h' with
    | free _ => exact Iff.rfl
    | @name j _ =>
      obtain ⟨hleft, hright⟩ := ha.ne_nameAt j
      exact ⟨fun h => absurd h hright, fun h => absurd h hleft⟩
  | @name i hi =>
    cases h' with
    | free hb =>
      obtain ⟨hleft, hright⟩ := hb.ne_nameAt i
      exact ⟨fun h => absurd h.symm hright, fun h => absurd h.symm hleft⟩
    | @name j hj =>
      constructor
      · intro h
        rw [hdistinct.right i hi j hj h]
      · intro h
        rw [hdistinct.left i hi j hj h]

theorem idxOf?_eq (hdistinct : s.Distinct bound) (h : s.SameWord bound a a')
    (hseen : List.Forall₂ (s.SameWord bound) seen seen') : seen'.idxOf? a' = seen.idxOf? a := by
  induction hseen with
  | nil => rfl
  | cons hb _ ih => rw [List.idxOf?_cons, List.idxOf?_cons, hb.beq_eq hdistinct h, ih]

theorem numberOf_eq (hdistinct : s.Distinct bound) (h : s.SameWord bound a a')
    (hseen : List.Forall₂ (s.SameWord bound) seen seen') :
    (numberOf a' seen').1 = (numberOf a seen).1 ∧
      List.Forall₂ (s.SameWord bound) (numberOf a seen).2 (numberOf a' seen').2 := by
  rw [numberOf, numberOf, idxOf?_eq hdistinct h hseen]
  cases seen.idxOf? a with
  | some i => exact ⟨rfl, hseen⟩
  | none => exact ⟨by rw [hseen.length_eq], List.rel_append hseen (.cons h .nil)⟩

theorem isPlain_stem : Text.isPlain s.scope.stem.toList := s.isSound_config.stem_plain

/-- Two texts that differ in the choice of the supply alone are the same once the names are numbered,
and the names that are seen in them are the same but for that choice. -/
theorem numberNames_renamed (hdistinct : s.Distinct bound) (h : s.Renamed bound cs ds)
    (hprevious : isWordAt previous' = isWordAt previous)
    (hfront : isWordAt previous = true → isWordAt cs.head? = false)
    (hseen : List.Forall₂ (s.SameWord bound) seen seen') :
    (numberNames [s.scope] seen' previous' 0 ds).1 = (numberNames [s.scope] seen previous 0 cs).1 ∧
      List.Forall₂ (s.SameWord bound) (numberNames [s.scope] seen previous 0 cs).2
        (numberNames [s.scope] seen' previous' 0 ds).2 := by
  have hafter : isWordAt (some '_') = isWordAt (some '_') := rfl
  induction h generalizing previous previous' seen seen' with
  | nil => exact ⟨rfl, hseen⟩
  | @mark c cs ds hc _ ih =>
    have hmark : isWordAt (some c) = false := hc
    have hrest := ih rfl (fun h => by rw [hmark] at h; cases h) hseen
    rw [numberNames_mark isPlain_stem hc, numberNames_mark isPlain_stem hc, hrest.1]
    exact ⟨rfl, hrest.2⟩
  | @word word cs ds hword hne hfree hedge hrest ih =>
    have hedge' : isWordAt ds.head? = false := hrest.head.trans hedge
    have hstart : isWordAt previous = false := Bool.eq_false_iff.mpr fun h => by
      have hhead := hfront h
      rw [isWordAt_head_of_ne_nil hword hne] at hhead
      cases hhead
    by_cases hname : s.scope.IsName word
    · have hword : s.SameWord bound (String.ofList word) (String.ofList word) :=
        .free (by rwa [String.toList_ofList])
      obtain ⟨hnumber, hseen⟩ := numberOf_eq hdistinct hword hseen
      have hrest := ih hafter (fun _ => hedge) hseen
      rw [numberNames_name isPlain_stem hname hstart hedge,
        numberNames_name isPlain_stem hname (hprevious.trans hstart) hedge', hnumber, hrest.1]
      exact ⟨rfl, hrest.2⟩
    · have hrest := ih hafter (fun _ => hedge) hseen
      rw [numberNames_word isPlain_stem hword hne hname hedge,
        numberNames_word isPlain_stem hword hne hname hedge', hrest.1]
      exact ⟨rfl, hrest.2⟩
  | @name i cs ds hi hedge hrest ih =>
    have hedge' : isWordAt ds.head? = false := hrest.head.trans hedge
    have hplain := isPlain_left (s := s) i
    have hstart : isWordAt previous = false := Bool.eq_false_iff.mpr fun h => by
      have hhead := hfront h
      rw [isWordAt_head_of_ne_nil (Text.isWord_of_isPlain hplain) (Text.ne_nil_of_isPlain hplain)]
        at hhead
      cases hhead
    have hleft : String.ofList (s.left i) = s.leftRun.nameAt i := String.ofList_toList
    have hright : String.ofList (s.right i) = s.rightRun.nameAt i := String.ofList_toList
    obtain ⟨hnumber, hseen⟩ := numberOf_eq hdistinct (.name hi) hseen
    have hrest := ih hafter (fun _ => hedge) hseen
    rw [numberNames_name isPlain_stem (s.isName_left i) hstart hedge,
      numberNames_name isPlain_stem (s.isName_right i) (hprevious.trans hstart) hedge', hleft, hright,
      hnumber, hrest.1]
    exact ⟨rfl, hrest.2⟩

end Supplies

end Columnar
