import Columnar.Expr.Printer
import Columnar.Proofs.Column.Supplies

/-! Texts that differ in the choice of the supply alone, built up from their parts. Two parts are put
together where a character stands that belongs to no word, so no word runs across the seam. -/
namespace Columnar

namespace Supplies

/-- The second text is the first one with the names of the first supply, those of numbers below the
bound, exchanged for the names that the second supply gives to the same numbers. -/
inductive Renamed (s : Supplies) (bound : Nat) : List Char → List Char → Prop
  | nil : Renamed s bound [] []
  | mark {c : Char} {cs ds : List Char} (hc : Text.isWord c = false) (h : Renamed s bound cs ds) :
    Renamed s bound (c :: cs) (c :: ds)
  | word {word cs ds : List Char} (hword : ∀ c ∈ word, Text.isWord c) (hne : word ≠ [])
    (hfree : s.Unminted word) (hedge : isWordAt cs.head? = false) (h : Renamed s bound cs ds) :
    Renamed s bound (word ++ cs) (word ++ ds)
  | name {i : Nat} {cs ds : List Char} (hi : i < bound) (hedge : isWordAt cs.head? = false)
    (h : Renamed s bound cs ds) : Renamed s bound (s.left i ++ cs) (s.right i ++ ds)

variable {s : Supplies} {bound bound' : Nat} {cs cs' ds ds' word : List Char}

theorem isPlain_left (i : Nat) : Text.isPlain (s.left i) :=
  (s.isName_left i).isPlain s.isSound_config.stem_plain

theorem isPlain_right (i : Nat) : Text.isPlain (s.right i) :=
  (s.isName_right i).isPlain s.isSound_config.stem_plain

theorem isWordAt_head_of_ne_nil (hword : ∀ c ∈ word, Text.isWord c) (hne : word ≠ [])
    (cs : List Char) : isWordAt (word ++ cs).head? = true := by
  cases word with
  | nil => exact absurd rfl hne
  | cons c rest => exact hword c List.mem_cons_self

namespace Renamed

theorem head (h : s.Renamed bound cs ds) : isWordAt ds.head? = isWordAt cs.head? := by
  cases h with
  | nil => rfl
  | mark => rfl
  | word hword hne =>
    rw [isWordAt_head_of_ne_nil hword hne, isWordAt_head_of_ne_nil hword hne]
  | @name i =>
    have hleft := isPlain_left (s := s) i
    have hright := isPlain_right (s := s) i
    rw [isWordAt_head_of_ne_nil (Text.isWord_of_isPlain hleft) (Text.ne_nil_of_isPlain hleft),
      isWordAt_head_of_ne_nil (Text.isWord_of_isPlain hright) (Text.ne_nil_of_isPlain hright)]

theorem mono (h : s.Renamed bound cs ds) (hle : bound ≤ bound') : s.Renamed bound' cs ds := by
  induction h with
  | nil => exact .nil
  | mark hc _ ih => exact .mark hc ih
  | word hword hne hfree hedge _ ih => exact .word hword hne hfree hedge ih
  | name hi hedge _ ih => exact .name (by omega) hedge ih

end Renamed

/-- No word runs across the seam of two texts. -/
def Cut (cs ds : List Char) : Prop := isWordAt cs.getLast? = false ∨ isWordAt ds.head? = false

theorem Cut.tail {front back ds : List Char} (h : Cut (front ++ back) ds) : Cut back ds := by
  rcases h with h | h
  · refine Or.inl ?_
    cases hlast : back.getLast? with
    | none => rfl
    | some c => simpa [List.getLast?_append, hlast] using h
  · exact Or.inr h

/-- In front of a seam behind a word stands the end of that word, or a text that is cut there too. -/
theorem Cut.edge {cs ds : List Char} (hword : ∀ c ∈ word, Text.isWord c) (hne : word ≠ [])
    (h : Cut (word ++ cs) ds) (hedge : isWordAt cs.head? = false) :
    isWordAt (cs ++ ds).head? = false := by
  cases cs with
  | cons c rest => exact hedge
  | nil =>
    rcases h with h | h
    · rw [List.append_nil, List.getLast?_eq_some_getLast hne] at h
      rw [isWordAt, Option.any_some, hword _ (List.getLast_mem hne)] at h
      cases h
    · exact h

theorem Renamed.append (h : s.Renamed bound cs cs') (h' : s.Renamed bound ds ds')
    (hcut : Cut cs ds) : s.Renamed bound (cs ++ ds) (cs' ++ ds') := by
  induction h with
  | nil => exact h'
  | @mark c cs _ hc _ ih =>
    have hcut : Cut ([c] ++ cs) ds := hcut
    exact .mark hc (ih hcut.tail)
  | @word word _ _ hword hne hfree hedge _ ih =>
    rw [List.append_assoc, List.append_assoc]
    exact .word hword hne hfree (hcut.edge hword hne hedge) (ih hcut.tail)
  | @name i _ _ hi hedge _ ih =>
    have hplain := isPlain_left (s := s) i
    rw [List.append_assoc, List.append_assoc]
    exact .name hi (hcut.edge (Text.isWord_of_isPlain hplain) (Text.ne_nil_of_isPlain hplain) hedge)
      (ih hcut.tail)

theorem words_append_cons {c : Char} (hword : ∀ c ∈ word, Text.isWord c)
    (hc : Text.isWord c = false) (cs : List Char) :
    words (word ++ c :: cs) = word :: words cs := by
  rw [words, List.splitOnP_append_cons_of_forall_mem]
  · rfl
  · simpa using hword
  · simp [hc]

theorem words_eq_singleton (hword : ∀ c ∈ word, Text.isWord c) : words word = [word] :=
  List.splitOnP_eq_singleton (by simpa using hword)

theorem unminted_nil : s.Unminted [] := fun i =>
  ⟨(Text.ne_nil_of_isPlain (isPlain_left i)).symm, (Text.ne_nil_of_isPlain (isPlain_right i)).symm⟩

/-- Every text starts with a maximal run of word characters, which may be empty. -/
theorem exists_run (cs : List Char) :
    ∃ word back, cs = word ++ back ∧ (∀ c ∈ word, Text.isWord c) ∧ isWordAt back.head? = false := by
  refine ⟨cs.takeWhile Text.isWord, cs.dropWhile Text.isWord,
    List.takeWhile_append_dropWhile.symm, List.all_eq_true.mp List.all_takeWhile, ?_⟩
  have hhead := List.head?_dropWhile_not Text.isWord cs
  cases h : (cs.dropWhile Text.isWord).head? with
  | none => rfl
  | some c => simpa [h, isWordAt] using hhead

/-- A text without names of the supplies is the same under both. -/
theorem Free.renamed {cs : List Char} (h : s.Free cs) : s.Renamed bound cs cs := by
  obtain ⟨word, back, rfl, hword, hedge⟩ := exists_run cs
  cases back with
  | nil =>
    rw [List.append_nil, Free, words_eq_singleton hword, List.forall_mem_singleton] at h
    cases word with
    | nil => exact .nil
    | cons c word => exact .word hword (List.cons_ne_nil _ _) h rfl .nil
  | cons d back =>
    have hd : Text.isWord d = false := hedge
    rw [Free, words_append_cons hword hd, List.forall_mem_cons] at h
    have hback : s.Renamed bound (d :: back) (d :: back) := .mark hd (Free.renamed h.2)
    cases word with
    | nil => exact hback
    | cons c word => exact .word hword (List.cons_ne_nil _ _) h.1 hedge hback
termination_by cs.length

theorem free_mark {c : Char} (hc : Text.isWord c = false) : s.Free (c :: cs) ↔ s.Free cs := by
  have hwords : words ([] ++ c :: cs) = [] :: words cs :=
    words_append_cons (List.forall_mem_nil _) hc cs
  rw [Free, ← List.nil_append (c :: cs), hwords, List.forall_mem_cons]
  exact and_iff_right unminted_nil

/-- What is the same under both supplies has no name of either in it. -/
theorem Renamed.free (h : s.Renamed 0 cs ds) : s.Free cs := by
  induction h with
  | nil => exact List.forall_mem_singleton.mpr unminted_nil
  | mark hc _ ih => exact (free_mark hc).mpr ih
  | @word word cs _ hword _ hfree hedge _ ih =>
    cases cs with
    | nil =>
      rw [List.append_nil, Free, words_eq_singleton hword, List.forall_mem_singleton]
      exact hfree
    | cons c cs =>
      have hc : Text.isWord c = false := hedge
      rw [Free, words_append_cons hword hc, List.forall_mem_cons]
      exact ⟨hfree, (free_mark hc).mp ih⟩
  | name hi _ _ _ => exact absurd hi (Nat.not_lt_zero _)

/-! Names in their written forms. -/

theorem doubleBackticks_append (hword : ∀ c ∈ word, Text.isWord c) (cs : List Char) :
    Text.doubleBackticks (word ++ cs) = word ++ Text.doubleBackticks cs := by
  induction word with
  | nil => rfl
  | cons c word ih =>
    rw [List.forall_mem_cons] at hword
    have hc : c ≠ '\x60' := by
      rintro rfl
      cases hword.1
    rw [List.cons_append, Text.doubleBackticks, if_neg hc, ih hword.2, List.cons_append]

theorem isWordAt_head_doubleBackticks (cs : List Char) :
    isWordAt (Text.doubleBackticks cs).head? = isWordAt cs.head? := by
  cases cs with
  | nil => rfl
  | cons c cs =>
    rw [Text.doubleBackticks]
    split
    · next hc => rw [hc]; rfl
    · rfl

theorem Renamed.doubleBackticks (h : s.Renamed bound cs ds) :
    s.Renamed bound (Text.doubleBackticks cs) (Text.doubleBackticks ds) := by
  induction h with
  | nil => exact .nil
  | @mark c cs ds hc _ ih =>
    rw [Text.doubleBackticks, Text.doubleBackticks]
    split
    · exact .mark rfl (.mark rfl ih)
    · exact .mark hc ih
  | @word word cs ds hword hne hfree hedge _ ih =>
    rw [doubleBackticks_append hword, doubleBackticks_append hword]
    exact .word hword hne hfree (by rwa [isWordAt_head_doubleBackticks]) ih
  | @name i cs ds hi hedge _ ih =>
    rw [doubleBackticks_append (Text.isWord_of_isPlain (isPlain_left i)),
      doubleBackticks_append (Text.isWord_of_isPlain (isPlain_right i))]
    exact .name hi (by rwa [isWordAt_head_doubleBackticks]) ih

theorem escapeChar_of_isWord {c : Char} (h : Text.isWord c) : Text.escapeChar c = [c] := by
  unfold Text.escapeChar
  split
  case h_6 => rfl
  all_goals cases h

theorem flatMap_escapeChar (hword : ∀ c ∈ word, Text.isWord c) :
    word.flatMap Text.escapeChar = word := by
  induction word with
  | nil => rfl
  | cons c word ih =>
    rw [List.forall_mem_cons] at hword
    rw [List.flatMap_cons, ih hword.2, escapeChar_of_isWord hword.1, List.singleton_append]

/-! Strings, and how expressions are written around the texts of their parts. -/

/-- Two strings that differ in the choice of the supply alone. -/
def RenamedText (s : Supplies) (bound : Nat) (a b : String) : Prop :=
  s.Renamed bound a.toList b.toList

/-- A string that is the same under both supplies. -/
def Fixed (s : Supplies) (a : String) : Prop := s.RenamedText 0 a a

/-- Fixed text of the program that may stand in front of another, behind one, or on either side. -/
def isFront (m : String) : Bool :=
  (words m.toList).all (!looksMinted ·) && m.toList.getLast?.any (!Text.isWord ·)

def isBack (m : String) : Bool :=
  (words m.toList).all (!looksMinted ·) && m.toList.head?.any (!Text.isWord ·)

variable {a a' b b' m front back : String}

/-- A string is the same under both supplies when no word of it is a name of either. -/
theorem fixed_iff : s.Fixed a ↔ s.Free a.toList := ⟨Renamed.free, Free.renamed⟩

theorem fixed_of_words (h : (words a.toList).all (!looksMinted ·) = true) : s.Fixed a :=
  (free_of_words h).renamed

theorem fixed_of_not_mem (h : '_' ∉ a.toList) : s.Fixed a := (free_of_not_mem h).renamed

theorem Fixed.renamed (h : s.Fixed a) : s.RenamedText bound a a := h.mono (Nat.zero_le _)

theorem isWordAt_of_any {c : Option Char} (h : c.any (!Text.isWord ·) = true) :
    isWordAt c = false := by
  cases c with
  | none => rfl
  | some c => simpa [isWordAt] using h

namespace RenamedText

theorem mono (h : s.RenamedText bound a b) (hle : bound ≤ bound') : s.RenamedText bound' a b :=
  Renamed.mono h hle

theorem append (h : s.RenamedText bound a a') (h' : s.RenamedText bound b b')
    (hcut : Cut a.toList b.toList) : s.RenamedText bound (a ++ b) (a' ++ b') := by
  unfold RenamedText
  rw [String.toList_append, String.toList_append]
  exact Renamed.append h h' hcut

theorem behind (h : s.RenamedText bound a a') (m : String) (hm : isFront m = true) :
    s.RenamedText bound (m ++ a) (m ++ a') := by
  rw [isFront, Bool.and_eq_true] at hm
  exact (fixed_of_words hm.1).renamed.append h (.inl (isWordAt_of_any hm.2))

theorem before (h : s.RenamedText bound a a') (m : String) (hm : isBack m = true) :
    s.RenamedText bound (a ++ m) (a' ++ m) := by
  rw [isBack, Bool.and_eq_true] at hm
  exact h.append (fixed_of_words hm.1).renamed (.inr (isWordAt_of_any hm.2))

theorem joined (h : s.RenamedText bound a a') (m : String) (hm : (isFront m && isBack m) = true)
    (h' : s.RenamedText bound b b') : s.RenamedText bound (a ++ m ++ b) (a' ++ m ++ b') := by
  rw [Bool.and_eq_true] at hm
  have hback := hm.2
  rw [isBack, Bool.and_eq_true] at hback
  rw [String.append_assoc, String.append_assoc]
  refine h.append (h'.behind m hm.1) (.inr ?_)
  rw [String.toList_append]
  cases hcs : m.toList with
  | nil =>
    rw [hcs] at hback
    cases hback.2
  | cons c cs =>
    rw [hcs] at hback
    exact isWordAt_of_any hback.2

theorem enclosed (h : s.RenamedText bound a a') (front back : String) (hfront : isFront front = true)
    (hback : isBack back = true) :
    s.RenamedText bound (front ++ a ++ back) (front ++ a' ++ back) :=
  (h.behind front hfront).before back hback

end RenamedText

end Supplies

end Columnar
