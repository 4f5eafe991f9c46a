import Mathlib.Data.List.TakeWhile
import Columnar.Proofs.Qualify.Clause

/-! How an expression text may end, and which endings are taken for an output name: only a last word
behind a blank and a word AS of its own. -/
namespace Columnar

def EndsWithAs (cs : List Char) : Prop :=
  ∃ front b a s, cs = front ++ [b, a, s] ∧ Text.isBlank b ∧ isLetterA a ∧ isLetterS s

/-- The last character, if there is one, is no blank. -/
def EndsShut (cs : List Char) : Prop := cs.getLast?.any Text.isBlank = false

instance (cs : List Char) : Decidable (EndsShut cs) :=
  inferInstanceAs (Decidable (cs.getLast?.any Text.isBlank = false))

/-- The ways in which the text of an expression ends. Under the condition `free` no word AS stands
in front of a last word. -/
inductive Ending (free : Prop) : List Char → Prop
  | unspaced {cs : List Char} : cs ≠ [] → (∀ c ∈ cs, Text.isBlank c = false) → Ending free cs
  | shut {front : List Char} {c : Char} : Text.isBlank c = false → isAliasChar c = false →
      c ≠ '\x60' → Ending free (front ++ [c])
  | ticked {front inner : List Char} : '\x60' ∉ inner → EndsShut front →
      Ending free (front ++ ('\x60' :: inner ++ ['\x60']))
  | joined {front word : List Char} {c : Char} : Text.isBlank c = false → isAliasChar c = false →
      word ≠ [] → (∀ d ∈ word, isAliasChar d) → Ending free (front ++ c :: word)
  | spaced {front word : List Char} : EndsShut front → 3 ≤ word.length →
      (∀ d ∈ word, isAliasChar d) → (free → ¬ EndsWithAs front) → Ending free (front ++ ' ' :: word)

theorem endsShut_append (cs : List Char) {ds : List Char} (hne : ds ≠ []) :
    EndsShut (cs ++ ds) ↔ EndsShut ds := by
  simp [EndsShut, List.getLast?_eq_some_getLast hne]

theorem endsShut_concat (cs : List Char) {c : Char} :
    EndsShut (cs ++ [c]) ↔ Text.isBlank c = false := by
  simp [EndsShut]

theorem EndsShut.cons {cs : List Char} (h : EndsShut cs) {c : Char} (hc : Text.isBlank c = false) :
    EndsShut (c :: cs) := by
  cases cs with
  | nil => simpa [EndsShut] using hc
  | cons d cs => exact (endsShut_append [c] (by simp)).mpr h

theorem concat_inj {xs ys : List Char} {x y : Char} (h : xs ++ [x] = ys ++ [y]) :
    xs = ys ∧ x = y := by
  obtain ⟨hinit, hlast⟩ := List.append_inj' h rfl
  exact ⟨hinit, (List.cons.inj hlast).1⟩

theorem eq_concat_of_ne_nil {cs : List Char} (h : cs ≠ []) : ∃ init c, cs = init ++ [c] :=
  ⟨cs.dropLast, cs.getLast h, (List.dropLast_concat_getLast h).symm⟩

theorem OutputName.eq_concat {name : List Char} (h : OutputName name) :
    ∃ init c, name = init ++ [c] ∧ (isAliasChar c ∨ c = '\x60') := by
  cases h with
  | bare hne hname =>
    obtain ⟨init, c, rfl⟩ := eq_concat_of_ne_nil hne
    exact ⟨init, c, rfl, Or.inl (hname c (by simp))⟩
  | @ticked inner _ => exact ⟨'\x60' :: inner, '\x60', rfl, Or.inr rfl⟩

/-- A run of characters of names that ends a text behind another character is the name of a clause
that ends the text. -/
theorem OutputName.eq_of_run {name run front front' : List Char} {b c : Char} (h : OutputName name)
    (hb : isAliasChar b = false) (hc : isAliasChar c = false) (hne : run ≠ [])
    (hrun : ∀ d ∈ run, isAliasChar d) (heq : front ++ b :: run = front' ++ c :: name) :
    front = front' ∧ b = c ∧ run = name := by
  cases h with
  | bare _ hname =>
    exact eq_of_append_cons_eq (p := fun d => isAliasChar d) hrun hname (by simp [hb])
      (by simp [hc]) heq
  | @ticked inner _ =>
    -- the text would end with a backtick, but its last character is in the run
    obtain ⟨init, d, rfl⟩ := eq_concat_of_ne_nil hne
    have hlast : (front ++ b :: init) ++ [d] = (front' ++ c :: '\x60' :: inner) ++ ['\x60'] := by
      simpa using heq
    obtain rfl := (concat_inj hlast).2
    exact absurd (hrun '\x60' (by simp)) (by decide)

theorem OutputName.eq_of_ticked {name inner front front' : List Char} (h : OutputName name)
    (hinner : '\x60' ∉ inner) (heq : front ++ ('\x60' :: inner ++ ['\x60']) = front' ++ name) :
    front = front' ∧ name = '\x60' :: inner ++ ['\x60'] := by
  cases h with
  | bare hne hname =>
    obtain ⟨init, d, rfl⟩ := eq_concat_of_ne_nil hne
    have hlast : (front ++ '\x60' :: inner) ++ ['\x60'] = (front' ++ init) ++ [d] := by
      simpa using heq
    obtain rfl := (concat_inj hlast).2
    exact absurd (hname '\x60' (by simp)) (by decide)
  | @ticked inner' hinner' =>
    have hcut : (front ++ '\x60' :: inner) ++ ['\x60'] =
        (front' ++ '\x60' :: inner') ++ ['\x60'] := by
      simpa using heq
    obtain ⟨rfl, -, rfl⟩ := eq_of_append_cons_eq (p := fun c => c ≠ '\x60')
      (fun c hc => ne_of_mem_of_not_mem hc hinner) (fun c hc => ne_of_mem_of_not_mem hc hinner')
      (by simp) (by simp) (concat_inj hcut).1
    exact ⟨rfl, rfl⟩

theorem EndsWithAs.of_cons {c : Char} {cs : List Char} (h : EndsWithAs (c :: cs))
    (hc : Text.isBlank c = false) : EndsWithAs cs := by
  obtain ⟨front, b, a, s, heq, hb, ha, hs⟩ := h
  cases front with
  | nil =>
    obtain ⟨rfl, -⟩ := List.cons.inj heq
    simp [hb] at hc
  | cons d front => exact ⟨front, b, a, s, (List.cons.inj heq).2, hb, ha, hs⟩

/-- No blanks are left at the end of a text that does not end with a blank. -/
theorem eq_nil_of_endsShut {front blanks : List Char} (h : EndsShut (front ++ blanks))
    (hblanks : ∀ c ∈ blanks, Text.isBlank c) : blanks = [] := by
  by_contra hne
  obtain ⟨init, c, rfl⟩ := eq_concat_of_ne_nil hne
  have hc : Text.isBlank c := hblanks c (by simp)
  rw [← List.append_assoc, endsShut_concat] at h
  simp [hc] at h

/-- The blanks at the end of a text are cut off in one way. -/
theorem append_blanks_inj {front front' blanks blanks' : List Char} (h : EndsShut front)
    (h' : EndsShut front') (hblanks : ∀ c ∈ blanks, Text.isBlank c)
    (hblanks' : ∀ c ∈ blanks', Text.isBlank c) (heq : front ++ blanks = front' ++ blanks') :
    front = front' ∧ blanks = blanks' := by
  rcases List.append_eq_append_iff.mp heq with ⟨mid, rfl, rfl⟩ | ⟨mid, rfl, rfl⟩
  · obtain rfl := eq_nil_of_endsShut h' fun c hc => hblanks c (by simp [hc])
    simp
  · obtain rfl := eq_nil_of_endsShut h fun c hc => hblanks' c (by simp [hc])
    simp

theorem not_endsWithAs_append (front : List Char) {c d : Char} (hc : isLetterA c = false) :
    ¬ EndsWithAs (front ++ [c, d]) := by
  rintro ⟨front', b, a, s, heq, -, ha, -⟩
  have hcut : (front ++ [c]) ++ [d] = (front' ++ [b, a]) ++ [s] := by simpa using heq
  have hlast : front ++ [c] = (front' ++ [b]) ++ [a] := by simpa using (concat_inj hcut).1
  obtain rfl := (concat_inj hlast).2
  simp [ha] at hc

/-- What is split off a text that does not end with a blank are the parts of a clause; `g` is the
last blank in front of the name. -/
theorem exists_parts_of_splitAlias {cs body clause : List Char} (hshut : EndsShut cs)
    (h : splitAlias cs = some (body, clause)) :
    ∃ lead a s gap g name, ClauseParts lead a s (gap ++ [g]) name ∧ Text.isBlank g ∧
      clause = lead ++ a :: s :: (gap ++ g :: name) ∧ cs = body ++ clause := by
  obtain ⟨rest, rfl, hclause⟩ := splitAlias_eq_some h
  obtain ⟨lead, a, s, gap, name, blanks, hparts, rfl, hblanks, rfl, -⟩ :=
    aliasClause?_eq_some hclause
  obtain ⟨gap, g, rfl⟩ := eq_concat_of_ne_nil hparts.gap_ne_nil
  rw [← List.append_assoc] at hshut
  obtain rfl := eq_nil_of_endsShut hshut hblanks
  exact ⟨lead, a, s, gap, g, name, hparts, hparts.gap_blank g (by simp), by simp, by simp⟩

/-- The blank in front of the name is the only one when no other ends the text before it. -/
theorem ClauseParts.gap_eq_nil {lead gap name front : List Char} {a s g : Char}
    (h : ClauseParts lead a s (gap ++ [g]) name) (hshut : EndsShut (front ++ gap)) : gap = [] :=
  eq_nil_of_endsShut hshut fun c hc => h.gap_blank c (by simp [hc])

namespace Ending

variable {free : Prop} {cs : List Char}

/-- A text that ends in one of these ways is not empty and its last character is no blank. -/
theorem eq_concat (h : Ending free cs) : ∃ init c, cs = init ++ [c] ∧ Text.isBlank c = false := by
  cases h with
  | unspaced hne hblank =>
    obtain ⟨init, c, rfl⟩ := eq_concat_of_ne_nil hne
    exact ⟨init, c, rfl, hblank c (by simp)⟩
  | @shut front c hc _ _ => exact ⟨front, c, rfl, hc⟩
  | @ticked front inner _ _ => exact ⟨front ++ '\x60' :: inner, '\x60', by simp, by decide⟩
  | @joined front word c _ _ hne hword =>
    obtain ⟨init, d, rfl⟩ := eq_concat_of_ne_nil hne
    exact ⟨front ++ c :: init, d, by simp, isBlank_of_isAliasChar (hword d (by simp))⟩
  | @spaced front word _ hlength hword _ =>
    have hne : word ≠ [] := by
      rintro rfl
      simp at hlength
    obtain ⟨init, d, rfl⟩ := eq_concat_of_ne_nil hne
    exact ⟨front ++ ' ' :: init, d, by simp, isBlank_of_isAliasChar (hword d (by simp))⟩

theorem ne_nil (h : Ending free cs) : cs ≠ [] := by
  obtain ⟨init, c, rfl, -⟩ := h.eq_concat
  simp

theorem endsShut (h : Ending free cs) : EndsShut cs := by
  obtain ⟨init, c, rfl, hc⟩ := h.eq_concat
  exact (endsShut_concat init).mpr hc

def isShut (c : Char) : Bool := !Text.isBlank c && !isAliasChar c && c != '\x60'

theorem of_getLast? (front : List Char) {back : List Char} (h : back.getLast?.any isShut) :
    Ending free (front ++ back) := by
  obtain ⟨c, hc, hshut⟩ := (Option.any_eq_true ..).mp h
  obtain ⟨init, rfl⟩ := List.getLast?_eq_some_iff.mp hc
  simp only [isShut, Bool.and_eq_true, Bool.not_eq_true', bne_iff_ne] at hshut
  rw [← List.append_assoc]
  exact .shut hshut.1.1 hshut.1.2 hshut.2

theorem tilde (h : Ending free cs) : Ending free ('~' :: cs) := by
  have ht : Text.isBlank '~' = false := by decide
  cases h with
  | unspaced _ hblank => exact .unspaced (by simp) (by simpa [ht] using hblank)
  | @shut front c hc hname htick =>
    change Ending free (('~' :: front) ++ [c])
    exact .shut hc hname htick
  | @ticked front inner hinner hfront =>
    change Ending free (('~' :: front) ++ ('\x60' :: inner ++ ['\x60']))
    exact .ticked hinner (hfront.cons ht)
  | @joined front word c hc hname hne hword =>
    change Ending free (('~' :: front) ++ c :: word)
    exact .joined hc hname hne hword
  | @spaced front word hfront hlength hword hfree =>
    change Ending free (('~' :: front) ++ ' ' :: word)
    exact .spaced (hfront.cons ht) hlength hword fun hp has => hfree hp (has.of_cons ht)

theorem not_endsWithAs (h : Ending free cs) : ¬ EndsWithAs cs := by
  rintro ⟨front', b, a, s, heq, hb, ha, hs⟩
  have hb' : isAliasChar b = false := not_isAliasChar_of_isBlank hb
  have hrun : ∀ c ∈ [a, s], isAliasChar c := by
    simp [isAliasChar_of_isLetterA ha, isAliasChar_of_isLetterS hs]
  have hconcat : front' ++ [b, a, s] = (front' ++ [b, a]) ++ [s] := by simp
  cases h with
  | unspaced _ hblank =>
    have := hblank b (by simp [heq])
    simp [hb] at this
  | @shut front c _ hc _ =>
    obtain rfl := (concat_inj (heq.trans hconcat)).2
    simp [isAliasChar_of_isLetterS hs] at hc
  | @ticked front inner _ _ =>
    have htick : (front ++ '\x60' :: inner) ++ ['\x60'] = (front' ++ [b, a]) ++ [s] := by
      simpa using heq
    obtain rfl := (concat_inj htick).2
    exact absurd hs (by decide)
  | @joined front word c hblank hc _ hword =>
    obtain ⟨-, rfl, -⟩ := eq_of_append_cons_eq (p := fun d => isAliasChar d) hword hrun
      (by simp [hc]) (by simp [hb']) heq
    simp [hb] at hblank
  | @spaced front word _ hlength hword _ =>
    have hspace : isAliasChar ' ' = false := by decide
    obtain ⟨-, -, rfl⟩ := eq_of_append_cons_eq (p := fun d => isAliasChar d) hword hrun
      (by simp [hspace]) (by simp [hb']) heq
    simp at hlength

/-- Behind a blank, only the word AS itself makes a text end with the word AS. -/
theorem eq_of_endsWithAs (h : Ending free cs) {front : List Char}
    (has : EndsWithAs (front ++ ' ' :: cs)) : ∃ a s, cs = [a, s] ∧ isLetterA a ∧ isLetterS s := by
  obtain ⟨front', b, a, s, heq, hb, ha, hs⟩ := has
  have hnot := h.not_endsWithAs
  rw [List.append_cons] at heq
  rcases List.append_eq_append_iff.mp heq with ⟨mid, -, hcs⟩ | ⟨mid, hmid, hcs⟩
  · exact absurd ⟨mid, b, a, s, hcs, hb, ha, hs⟩ hnot
  · match mid, hmid, hcs with
    | [], _, hcs => exact absurd ⟨[], b, a, s, hcs.symm, hb, ha, hs⟩ hnot
    | [_], _, hcs =>
      obtain ⟨-, rfl⟩ := List.cons.inj hcs
      exact ⟨a, s, rfl, ha, hs⟩
    | [d, c], hmid, hcs =>
      have hlast : front ++ [' '] = (front' ++ [d]) ++ [c] := by simpa using hmid
      obtain rfl := (concat_inj hlast).2
      obtain ⟨-, hrest⟩ := List.cons.inj hcs
      obtain ⟨rfl, -⟩ := List.cons.inj hrest
      exact absurd ha (by decide)
    | _ :: _ :: _ :: mid, _, hcs =>
      have hnil : cs = [] := by
        simp at hcs
        exact hcs.2.2.2.2
      exact absurd hnil h.ne_nil

/-- Nothing is split off a text whose last word does not follow the word AS. -/
theorem splitAlias_eq_none (h : Ending free cs) (hfree : free) : splitAlias cs = none := by
  cases hsplit : splitAlias cs with
  | none => rfl
  | some parts =>
    exfalso
    obtain ⟨body, clause⟩ := parts
    obtain ⟨lead, a, s, gap, g, name, hparts, hg, rfl, hcs⟩ :=
      exists_parts_of_splitAlias h.endsShut hsplit
    have heq : cs = (body ++ lead ++ a :: s :: gap) ++ g :: name := by simp [hcs]
    have hg' : isAliasChar g = false := not_isAliasChar_of_isBlank hg
    cases h with
    | unspaced _ hblank =>
      have := hblank g (by simp [heq])
      simp [hg] at this
    | @shut front c _ hc htick =>
      obtain ⟨init, d, rfl, hd⟩ := hparts.name.eq_concat
      have hlast : front ++ [c] = (body ++ lead ++ a :: s :: gap ++ g :: init) ++ [d] := by
        simpa using heq
      obtain rfl := (concat_inj hlast).2
      rcases hd with hd | hd
      · simp [hd] at hc
      · exact htick hd
    | @ticked front inner hinner hfront =>
      have hcut : front ++ ('\x60' :: inner ++ ['\x60']) =
          (body ++ lead ++ a :: s :: gap ++ [g]) ++ name := by simpa using heq
      obtain ⟨rfl, -⟩ := hparts.name.eq_of_ticked hinner hcut
      rw [endsShut_concat] at hfront
      simp [hg] at hfront
    | @joined front word c hblank hc hne hword =>
      obtain ⟨-, rfl, -⟩ := hparts.name.eq_of_run hc hg' hne hword heq
      simp [hg] at hblank
    | @spaced front word hfront hlength hword hno =>
      have hne : word ≠ [] := by
        rintro rfl
        simp at hlength
      obtain ⟨rfl, -, -⟩ := hparts.name.eq_of_run (by decide) hg' hne hword heq
      rw [List.append_cons, List.append_cons] at hfront
      obtain rfl := hparts.gap_eq_nil hfront
      obtain ⟨init, b, rfl⟩ := eq_concat_of_ne_nil hparts.lead_ne_nil
      exact hno hfree ⟨body ++ init, b, a, s, by simp, hparts.lead_blank b (by simp),
        hparts.letterA, hparts.letterS⟩

end Ending

/-! A text that ends with a clause is split in front of it. -/

theorem aliasName?_quoteIdentifier {name : String} (h : '\x60' ∉ name.toList) :
    aliasName? (Text.quoteIdentifier name false).toList =
      some (Text.quoteIdentifier name false).toList := by
  rw [Text.toList_quoteIdentifier h]
  split
  · next hplain =>
    have hword := Text.isWord_of_isPlain hplain
    cases hname : name.toList with
    | nil => simp [hname, Text.isPlain] at hplain
    | cons c cs =>
      rw [hname] at hplain hword
      have hstart : isAliasStart c := by
        simp only [Text.isPlain, Bool.and_eq_true] at hplain
        simp [isAliasStart, hplain.1]
      exact aliasName?_bare hstart fun d hd => isAliasChar_of_isWord (hword d hd)
  · exact aliasName?_ticked h (by simp)

theorem splitAlias_ne_none (body : List Char) {rest clause : List Char}
    (h : aliasClause? rest = some clause) : splitAlias (body ++ rest) ≠ none := by
  induction body with
  | nil =>
    cases rest with
    | nil => cases h
    | cons c rest =>
      rw [List.nil_append, splitAlias_cons, h]
      simp
  | cons c body ih =>
    rw [List.cons_append, splitAlias_cons]
    split
    · simp
    · simpa using ih

/-- The blanks in front of a clause are all split off with it. -/
theorem endsShut_of_splitAlias {cs body clause : List Char}
    (h : splitAlias cs = some (body, clause)) : EndsShut body := by
  induction cs generalizing body with
  | nil => cases h
  | cons c cs ih =>
    rw [splitAlias_cons] at h
    split at h
    · obtain ⟨rfl, -⟩ := Prod.mk.inj (Option.some.inj h)
      rfl
    · next hnone =>
      obtain ⟨⟨shorter, found⟩, hsplit, heq⟩ := Option.map_eq_some_iff.mp h
      obtain ⟨rfl, rfl⟩ := Prod.mk.inj heq
      have hshut := ih hsplit
      cases shorter with
      | nil =>
        obtain ⟨rest, rfl, hrest⟩ := splitAlias_eq_some hsplit
        refine (endsShut_concat []).mpr (Bool.eq_false_iff.mpr fun hc => ?_)
        simp [aliasClause?_cons hc hrest] at hnone
      | cons d shorter => exact (endsShut_append [c] (by simp)).mpr hshut

theorem OutputName.unique {name name' front front' : List Char} {b c : Char} (h : OutputName name)
    (h' : OutputName name') (hb : Text.isBlank b) (hc : Text.isBlank c)
    (heq : front ++ b :: name = front' ++ c :: name') : front = front' ∧ b = c ∧ name = name' := by
  have hb' := not_isAliasChar_of_isBlank hb
  have hc' := not_isAliasChar_of_isBlank hc
  cases h with
  | bare hne hname => exact h'.eq_of_run hb' hc' hne hname heq
  | @ticked inner hinner =>
    have hcut : (front ++ [b]) ++ ('\x60' :: inner ++ ['\x60']) = (front' ++ [c]) ++ name' := by
      simpa using heq
    obtain ⟨hfront, hname⟩ := h'.eq_of_ticked hinner hcut
    obtain ⟨rfl, rfl⟩ := concat_inj hfront
    exact ⟨rfl, rfl, hname.symm⟩

theorem OutputName.exists_cons {name : List Char} (h : OutputName name) :
    ∃ c cs, name = c :: cs ∧ Text.isBlank c = false := by
  cases h with
  | bare hne hname =>
    obtain ⟨c, cs, rfl⟩ := List.exists_cons_of_ne_nil hne
    exact ⟨c, cs, rfl, isBlank_of_isAliasChar (hname c (by simp))⟩
  | @ticked inner _ => exact ⟨'\x60', inner ++ ['\x60'], rfl, by decide⟩

section Clause

variable {lead gap name : List Char} {a s : Char} (hparts : ClauseParts lead a s gap name)

include hparts

/-- The parts of a clause are read as the clause when the name is read behind them. -/
theorem ClauseParts.aliasClause?_eq {rest : List Char} (hname : aliasName? rest = some name) :
    aliasClause? (lead ++ a :: s :: (gap ++ rest)) = some (lead ++ a :: s :: (gap ++ name)) := by
  obtain ⟨-, blanks, -, rfl⟩ := aliasName?_eq_some hname
  obtain ⟨c, cs, hcons, hc⟩ := hparts.name.exists_cons
  have ha : Text.isBlank a = false :=
    isBlank_of_isAliasChar (isAliasChar_of_isLetterA hparts.letterA)
  have hgapTake : (gap ++ (name ++ blanks)).takeWhile Text.isBlank = gap := by
    rw [List.takeWhile_append_of_pos hparts.gap_blank]
    simp [hcons, hc]
  have hgapDrop : (gap ++ (name ++ blanks)).dropWhile Text.isBlank = name ++ blanks := by
    rw [List.dropWhile_append_of_pos hparts.gap_blank]
    simp [hcons, hc]
  have hlead (rest : List Char) : (lead ++ a :: rest).takeWhile Text.isBlank = lead := by
    rw [List.takeWhile_append_of_pos hparts.lead_blank]
    simp [ha]
  have hrest (rest : List Char) : (lead ++ a :: rest).dropWhile Text.isBlank = a :: rest := by
    rw [List.dropWhile_append_of_pos hparts.lead_blank]
    simp [ha]
  unfold aliasClause?
  simp only [hlead, hrest, hgapTake, hgapDrop, hname, hparts.letterA, hparts.letterS]
  simp [hparts.lead_ne_nil, hparts.gap_ne_nil]

/-- A clause is split off the text in front of it, which does not end with a blank. -/
theorem ClauseParts.splitAlias_append (hname : aliasName? name = some name) {body : List Char}
    (hbody : EndsShut body) :
    splitAlias (body ++ (lead ++ a :: s :: (gap ++ name))) =
      some (body, lead ++ a :: s :: (gap ++ name)) := by
  have hshut : EndsShut (body ++ (lead ++ a :: s :: (gap ++ name))) := by
    obtain ⟨init, c, rfl, hc⟩ := hparts.name.eq_concat
    have hblank : Text.isBlank c = false := by
      rcases hc with hc | rfl
      · exact isBlank_of_isAliasChar hc
      · decide
    rw [show body ++ (lead ++ a :: s :: (gap ++ (init ++ [c]))) =
      (body ++ (lead ++ a :: s :: (gap ++ init))) ++ [c] by simp, endsShut_concat]
    exact hblank
  cases hsplit : splitAlias (body ++ (lead ++ a :: s :: (gap ++ name))) with
  | none => exact absurd hsplit (splitAlias_ne_none body (hparts.aliasClause?_eq hname))
  | some parts =>
    obtain ⟨body', clause'⟩ := parts
    have hbody' : EndsShut body' := endsShut_of_splitAlias hsplit
    obtain ⟨lead', a', s', gap', g', name', hparts', hg', rfl, heq⟩ :=
      exists_parts_of_splitAlias hshut hsplit
    obtain ⟨gap, g, rfl⟩ := eq_concat_of_ne_nil hparts.gap_ne_nil
    have hends : (body ++ lead ++ [a] ++ [s] ++ gap) ++ g :: name =
        (body' ++ lead' ++ [a'] ++ [s'] ++ gap') ++ g' :: name' := by simpa using heq
    obtain ⟨hfront, rfl, rfl⟩ :=
      hparts.name.unique hparts'.name (hparts.gap_blank g (by simp)) hg' hends
    have hletter {c : Char} (hc : isLetterS c) : Text.isBlank c = false :=
      isBlank_of_isAliasChar (isAliasChar_of_isLetterS hc)
    obtain ⟨hwords, rfl⟩ := append_blanks_inj ((endsShut_concat _).mpr (hletter hparts.letterS))
      ((endsShut_concat _).mpr (hletter hparts'.letterS))
      (fun c hc => hparts.gap_blank c (by simp [hc]))
      (fun c hc => hparts'.gap_blank c (by simp [hc])) hfront
    obtain ⟨hword, rfl⟩ := concat_inj hwords
    obtain ⟨hleads, rfl⟩ := concat_inj hword
    obtain ⟨rfl, rfl⟩ :=
      append_blanks_inj hbody hbody' hparts.lead_blank hparts'.lead_blank hleads
    simp

end Clause

/-- A clause of single blanks is split off the text in front of it. -/
theorem splitAlias_append {a s : Char} {name : List Char} (ha : isLetterA a) (hs : isLetterS s)
    (hname : aliasName? name = some name) {body : List Char} (hbody : EndsShut body) :
    splitAlias (body ++ ' ' :: a :: s :: ' ' :: name) =
      some (body, ' ' :: a :: s :: ' ' :: name) := by
  have hparts : ClauseParts [' '] a s [' '] name :=
    ⟨by simp, by decide, ha, hs, by simp, by decide, (aliasName?_eq_some hname).1⟩
  exact hparts.splitAlias_append hname hbody

end Columnar
