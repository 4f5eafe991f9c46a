import Columnar.Proofs.Qualify.Ending
import Columnar.Proofs.Qualify.Literal
import Columnar.Proofs.Qualify.Search
import Columnar.Proofs.Text.Blank

/-! A name between backticks. The search takes each run between two backticks for an identifier of
its own: a name without backticks is qualified as one token, whereas the two backticks that stand
for one end a token and open the next. -/
namespace Columnar

def ticked (qualifier : List Char) (part : List Char) : List Char :=
  qualifier ++ '\x60' :: (part ++ ['\x60'])

theorem not_mem_splitOn_backtick (cs : List Char) :
    ∀ part ∈ cs.splitOn '\x60', '\x60' ∉ part := by
  induction cs with
  | nil => simp
  | cons c cs ih =>
    rw [List.splitOn_cons_eq_if_modifyHead]
    split
    · simpa using ih
    · next hc =>
      obtain ⟨first, rest, hparts⟩ := List.exists_cons_of_ne_nil (List.splitOn_ne_nil '\x60' cs)
      have htick : '\x60' ≠ c := fun h => hc (by simp [← h])
      rw [hparts] at ih ⊢
      simp only [List.mem_cons, forall_eq_or_imp] at ih
      simpa [htick] using ih

/-- The written form of a name is the runs between its backticks, each between backticks. -/
theorem doubleBackticks_eq_flatMap (cs : List Char) :
    '\x60' :: (Text.doubleBackticks cs ++ ['\x60']) = (cs.splitOn '\x60').flatMap (ticked []) := by
  induction cs with
  | nil => rfl
  | cons c cs ih =>
    obtain ⟨first, rest, hparts⟩ := List.exists_cons_of_ne_nil (List.splitOn_ne_nil '\x60' cs)
    rw [List.splitOn_cons_eq_if_modifyHead, Text.doubleBackticks]
    by_cases hc : c = '\x60'
    · simp [hc, ← ih, ticked]
    · rw [hparts] at ih ⊢
      simpa [hc, ticked] using ih

section Piece

variable {inserted needle part : List Char} (hticks : '\x60' ∉ needle) (hne : needle ≠ [])
  (hpart : '\x60' ∉ part)

include hticks hpart

/-- An occurrence behind the opening backtick ends at the closing one when it is the whole run. -/
theorem spells_part : spells needle part =
    (startsWithName needle (part ++ ['\x60']) &&
      ((part ++ ['\x60']).drop needle.length).head? == some '\x60') := by
  have hsplit : Text.splitBacktick (part ++ ['\x60']) = some (part, []) :=
    Text.splitBacktick_eq_some_iff.mpr ⟨rfl, hpart⟩
  rw [startsWithName_eq, ← spells_splitBacktick hticks, hsplit]
  rfl

include hne

/-- Between backticks no occurrence is taken but one that fills them and has no dot in front. -/
theorem qualifyAt_ticked {outer front back : List Char} (houter : stateBehind outer = .plain)
    (hkeep : outer.head? = some '.' ∨ spells needle part = false)
    (heq : '\x60' :: (part ++ ['\x60']) = front ++ back) (hs : startsWithName needle back) :
    qualifyAt inserted (front.reverse ++ outer) (back.drop needle.length) =
      front.reverse ++ outer := by
  cases front with
  | nil =>
    rw [List.nil_append] at heq
    rw [← heq, startsWithName_backtick hticks hne] at hs
    cases hs
  | cons c front =>
    rw [List.cons_append, List.cons.injEq] at heq
    obtain ⟨rfl, hback⟩ := heq
    by_cases hfront : front = []
    · subst hfront
      rw [List.nil_append] at hback
      subst hback
      refine (qualifyAt_opened houter).trans (if_neg ?_)
      rintro ⟨hwhole, hdot⟩
      rcases hkeep with h | h
      · exact hdot h
      · rw [spells_part hticks hpart, hs, hwhole] at h
        cases h
    · have hnonempty : back ≠ [] := by
        rintro rfl
        rw [startsWithName_nil hne] at hs
        cases hs
      obtain ⟨init, e, rfl⟩ := eq_concat_of_ne_nil hnonempty
      obtain ⟨run, d, rfl⟩ := eq_concat_of_ne_nil hfront
      rw [← List.append_assoc] at hback
      have hinside : '\x60' ∉ run ++ [d] := fun h => hpart (by
        rw [(concat_inj hback).1]
        exact List.mem_append_left _ h)
      rw [List.reverse_cons, List.append_assoc, List.singleton_append]
      refine qualifyAt_quoted ?_ ?_
      · rw [stateBehind_append, stateBehind_cons, houter]
        intro h
        rw [show Quoting.plain.step 0 '\x60' = .identifier 0 from rfl, after_identifier hinside] at h
        cases h
      · -- the last character of the run would be a backtick
        rintro ⟨left, hleft, -⟩
        rw [List.reverse_append] at hleft
        obtain ⟨rfl, -⟩ := List.cons.inj hleft
        exact hinside (by simp)

theorem qualifyFrom_ticked_self (hkeep : spells needle part = false) :
    qualifyFrom inserted needle [] 0 (ticked [] part) = ticked [] part := by
  refine qualifyFrom_eq_self (fun front back heq hs => ?_) 0
  exact qualifyAt_ticked hticks hne hpart rfl (Or.inr hkeep) heq hs

/-- A run that the name fills is qualified in front of its opening backtick. -/
theorem qualifyFrom_ticked_whole (hwhole : spells needle part) :
    qualifyFrom inserted needle [] 0 (ticked [] part) = ticked inserted part := by
  have hstarts := spells_part hticks hpart
  rw [hwhole, eq_comm, Bool.and_eq_true, beq_iff_eq] at hstarts
  have hlength : part.length = needle.length := by
    rw [spells, beq_iff_eq] at hwhole
    rw [← hwhole, List.length_map]
  obtain ⟨c, rest, rfl⟩ : ∃ c rest, part = c :: rest :=
    List.exists_cons_of_ne_nil fun h => hne (by simpa [h] using hlength.symm)
  rw [List.length_cons] at hlength
  rw [ticked, List.nil_append, qualifyFrom, startsWithName_backtick hticks hne,
    if_neg Bool.false_ne_true]
  rw [List.cons_append] at hstarts ⊢
  rw [qualifyFrom, if_pos hstarts.1]
  dsimp only
  rw [qualifyAt_opened rfl, if_pos ⟨hstarts.2, by simp⟩, ← hlength, Nat.add_sub_cancel,
    qualifyFrom_skip, qualifyFrom, startsWithName_backtick hticks hne]
  simp [qualifyFrom, ticked]

variable {word : List Char} (hw : ∀ c ∈ word, Text.isWord c)

omit hticks hpart hne in
theorem after_ticked (hpart : '\x60' ∉ part) {qualifier : List Char}
    (hqualifier : Quoting.plain.after qualifier = .plain) :
    Quoting.plain.after (ticked qualifier part) = .plain := by
  rw [ticked, Quoting.after_append, hqualifier, Quoting.after_cons, Quoting.after_append]
  change ((Quoting.identifier 0).after part).after ['\x60'] = .plain
  rw [after_identifier hpart]
  rfl

include hw

omit hticks hne hpart in
/-- No occurrence in a qualifier is taken unless it is the alias, with or without the dot. -/
theorem qualifyAt_word {front mid back : List Char} (hword : spells needle word = false)
    (hdot : spells needle (word ++ ['.']) = false) (heq : word ++ ['.'] = front ++ mid)
    (hmid : mid ≠ []) (hs : startsWithName needle mid) :
    qualifyAt inserted front.reverse ((mid ++ back).drop needle.length) = front.reverse := by
  have hlength := length_le_of_startsWithName hs
  obtain ⟨init, e, rfl⟩ := eq_concat_of_ne_nil hmid
  rw [← List.append_assoc] at heq
  obtain ⟨hinit, rfl⟩ := concat_inj heq
  have hfront : ∀ c ∈ front, Text.isWord c := fun c hc => hw c (by simp [hinit, hc])
  rw [qualifyAt_plain (by rw [stateBehind, List.reverse_reverse, Quoting.after_of_isWord hfront])]
  refine if_pos ?_
  rw [Bool.or_eq_true]
  by_cases hempty : front = []
  · -- an occurrence at the front that is not the whole word is followed by the rest of the word
    right
    subst hempty
    rw [List.nil_append] at hinit
    subst hinit
    rw [startsWithName_eq] at hs
    have hshort : needle.length < word.length := by
      rw [List.length_append, List.length_singleton] at hlength
      by_contra hlong
      rcases Nat.lt_or_eq_of_le hlength with h | h
      · have hall : needle.length = word.length := by omega
        rw [hall, List.take_left, hword] at hs
        cases hs
      · rw [h, List.take_of_length_le (by simp), hdot] at hs
        cases hs
    rw [List.head?_drop, List.append_assoc, List.getElem?_append_left hshort,
      List.getElem?_eq_getElem hshort]
    exact hw _ (List.getElem_mem hshort)
  · left
    obtain ⟨run, c, rfl⟩ := eq_concat_of_ne_nil hempty
    have hc : Text.isWord c := hfront c (by simp)
    simp [bindsNext, hc]

theorem qualifyFrom_ticked_qualified (hword : spells needle word = false)
    (hdot : spells needle (word ++ ['.']) = false) :
    qualifyFrom inserted needle [] 0 (ticked (word ++ ['.']) part) =
      ticked (word ++ ['.']) part := by
  refine qualifyFrom_eq_self (fun front back heq hs => ?_) 0
  have hplain : stateBehind (word ++ ['.']).reverse = .plain := by
    rw [stateBehind, List.reverse_reverse, Quoting.after_append, Quoting.after_of_isWord hw]
    rfl
  rcases List.append_eq_append_iff.mp heq with ⟨mid, rfl, hmid⟩ | ⟨mid, hfront, rfl⟩
  · have hdotted : (word ++ ['.']).reverse.head? = some '.' := by simp
    rw [List.append_nil, List.reverse_append]
    exact qualifyAt_ticked hticks hne hpart hplain (Or.inl hdotted) hmid hs
  · rw [startsWithName_ticked hticks] at hs
    by_cases hmid : mid = []
    · rw [hmid, startsWithName_nil hne] at hs
      cases hs
    · rw [List.append_nil]
      exact qualifyAt_word hw hword hdot hfront hmid hs

end Piece

section Names

variable {tableAlias : String} (hAlias : Text.isPlain tableAlias.toList)

def qualifierIf (tableAlias : String) (named : Bool) : List Char :=
  if named then tableAlias.toList ++ ['.'] else []

/-- A name that can be looked for beside the alias: it has no backtick, and the search does not find
it in a qualifier. -/
structure Separate (tableAlias name : String) : Prop where
  no_backtick : '\x60' ∉ name.toList
  ne_alias : Text.sameName name tableAlias = false
  ne_qualifier : Text.sameName name (tableAlias ++ ".") = false

instance (tableAlias name : String) : Decidable (Separate tableAlias name) :=
  decidable_of_iff ('\x60' ∉ name.toList ∧ Text.sameName name tableAlias = false ∧
    Text.sameName name (tableAlias ++ ".") = false)
    ⟨fun h => ⟨h.1, h.2.1, h.2.2⟩, fun h => ⟨h.1, h.2, h.3⟩⟩

theorem Separate.needle {name : String} (h : Separate tableAlias name) (hempty : name ≠ "") :
    '\x60' ∉ (Text.lower name).toList ∧ (Text.lower name).toList ≠ [] := by
  constructor
  · intro hmem
    simp only [Text.lower, String.toList_ofList, List.mem_map] at hmem
    obtain ⟨c, hc, hlower⟩ := hmem
    rw [Text.toLower_eq_backtick_iff] at hlower
    exact h.no_backtick (hlower ▸ hc)
  · simpa [Text.lower] using hempty

include hAlias

theorem after_qualifierIf (named : Bool) :
    Quoting.plain.after (qualifierIf tableAlias named) = .plain := by
  cases named with
  | true => exact after_qualifier hAlias
  | false => rfl

theorem qualifyName_ticked {name : String} (hName : Separate tableAlias name) (hempty : name ≠ "")
    {part : List Char} (hpart : '\x60' ∉ part) (named : Bool) :
    qualifyName tableAlias name (ticked (qualifierIf tableAlias named) part) =
      ticked (qualifierIf tableAlias (named || isNamed [name] part)) part := by
  have hw := Text.isWord_of_isPlain hAlias
  have hone : isNamed [name] part = spells (Text.lower name).toList part := by
    simp [spells_lower, isNamed]
  obtain ⟨hticks, hne⟩ := hName.needle hempty
  rw [qualifyName, hone]
  cases named with
  | true =>
    refine qualifyFrom_ticked_qualified hticks hne hpart hw ?_ ?_
    · rw [spells_lower, String.ofList_toList, hName.ne_alias]
    · rw [spells_lower]
      simpa using hName.ne_qualifier
  | false =>
    cases hspells : spells (Text.lower name).toList part with
    | true => exact qualifyFrom_ticked_whole hticks hne hpart hspells
    | false => exact qualifyFrom_ticked_self hticks hne hpart hspells

theorem qualifyName_flatMap {name : String} (hName : Separate tableAlias name) (hempty : name ≠ "")
    {parts : List (List Char)} (hparts : ∀ part ∈ parts, '\x60' ∉ part)
    (named : List Char → Bool) (back : List Char) :
    qualifyName tableAlias name
        (parts.flatMap (fun part => ticked (qualifierIf tableAlias (named part)) part) ++ back) =
      parts.flatMap (fun part =>
          ticked (qualifierIf tableAlias (named part || isNamed [name] part)) part) ++
        qualifyName tableAlias name back := by
  obtain ⟨hticks, hne⟩ := hName.needle hempty
  induction parts with
  | nil => rfl
  | cons part parts ih =>
    have hpart : '\x60' ∉ part := hparts part (by simp)
    have hfound := qualifyName_ticked hAlias hName hempty hpart (named part)
    have hclosed := after_ticked hpart
      (after_qualifierIf hAlias (named part || isNamed [name] part))
    simp only [ticked, ← List.cons_append, ← List.append_assoc] at hfound hclosed
    have happend := qualifyFrom_append hticks hne hfound hclosed
      (parts.flatMap (fun part => ticked (qualifierIf tableAlias (named part)) part) ++ back)
    have hrest := ih fun other h => hparts other (by simp [h])
    simp only [qualifyName] at happend hrest ⊢
    rw [hrest] at happend
    simpa [ticked] using happend

theorem foldl_qualifyName_flatMap {names : List String}
    (hNames : ∀ name ∈ names, Separate tableAlias name ∧ name ≠ "") {parts : List (List Char)}
    (hparts : ∀ part ∈ parts, '\x60' ∉ part) (named : List Char → Bool) (back : List Char) :
    names.foldl (fun body name => qualifyName tableAlias name body)
        (parts.flatMap (fun part => ticked (qualifierIf tableAlias (named part)) part) ++ back) =
      parts.flatMap (fun part =>
          ticked (qualifierIf tableAlias (named part || isNamed names part)) part) ++
        names.foldl (fun body name => qualifyName tableAlias name body) back := by
  induction names generalizing named back with
  | nil => simp [isNamed]
  | cons name names ih =>
    obtain ⟨hName, hempty⟩ := hNames name (by simp)
    have hcons (part : List Char) : (named part || isNamed (name :: names) part) =
        ((named part || isNamed [name] part) || isNamed names part) := by
      simp [isNamed, Bool.or_assoc]
    simp only [List.foldl_cons, qualifyName_flatMap hAlias hName hempty hparts, hcons]
    exact ih (fun other h => hNames other (by simp [h])) _ _

variable {fields : List String} (hFields : ∀ f ∈ fields, Separate tableAlias f)

include hFields

omit hAlias in
theorem not_isNamed_of_backtick {cs : List Char} (h : '\x60' ∈ cs) : isNamed fields cs = false := by
  refine Bool.eq_false_iff.mpr fun hnamed => ?_
  obtain ⟨f, hf, hsame⟩ := List.any_eq_true.mp hnamed
  have hlower : '\x60' ∈ (Text.lower f).toList := by
    rw [Text.sameName_iff.mp hsame]
    simp only [Text.lower, String.toList_ofList, List.mem_map]
    exact ⟨'\x60', h, rfl⟩
  by_cases hempty : f = ""
  · simp [hempty, Text.lower] at hlower
  · exact ((hFields f hf).needle hempty).1 hlower

/-- A written name in front of a text without an output name: each run between two of its backticks
is qualified by itself, and the text behind it by itself. -/
theorem qualify_backquote_append (name : String) {back : String}
    (hback : splitAlias ((Text.backquote name).toList ++ back.toList) = none) :
    qualify tableAlias fields (Text.backquote name ++ back) =
      String.ofList ((name.toList.splitOn '\x60').flatMap (fun part =>
          ticked (qualifierIf tableAlias (isNamed fields part && !part.isEmpty)) part) ++
        (longestFirst fields).foldl (fun body name => qualifyName tableAlias name body)
          back.toList) := by
  have hNames : ∀ f ∈ longestFirst fields, Separate tableAlias f ∧ f ≠ "" :=
    fun f h => ⟨hFields f (mem_longestFirst.mp h).1, (mem_longestFirst.mp h).2⟩
  have htick : '\x60' ∈ Text.trim (Text.backquote name ++ back).toList :=
    Text.mem_trim (by decide) (by simp)
  have hwhole : isNamed (longestFirst fields) (Text.trim (Text.backquote name ++ back).toList) =
      false := not_isNamed_of_backtick (fun f h => (hNames f h).1) htick
  have hfold := foldl_qualifyName_flatMap hAlias hNames (not_mem_splitOn_backtick name.toList)
    (fun _ => false) back.toList
  have htext : (Text.backquote name ++ back).toList =
      (name.toList.splitOn '\x60').flatMap (ticked []) ++ back.toList := by
    rw [String.toList_append, Text.toList_backquote, List.cons_append, doubleBackticks_eq_flatMap]
  rw [isNamed] at hwhole
  unfold qualify
  dsimp only
  rw [hwhole, if_neg Bool.false_ne_true, String.toList_append, hback, Option.getD_none,
    ← String.toList_append, htext]
  dsimp only
  simp only [qualifierIf, Bool.false_eq_true, ↓reduceIte, Bool.false_or] at hfold
  rw [hfold]
  simp [qualifierIf, isNamed_longestFirst_eq]

omit hFields hAlias in
/-- The last word of a sum with a number is no output name. -/
theorem splitAlias_sum (front : List Char) : splitAlias (front ++ " + 1".toList) = none := by
  cases hsplit : splitAlias (front ++ " + 1".toList) with
  | none => rfl
  | some parts =>
    exfalso
    obtain ⟨body, clause⟩ := parts
    have hshut : EndsShut (front ++ " + 1".toList) :=
      (endsShut_append front (by decide)).mpr (by decide)
    obtain ⟨lead, a, s, gap, g, word, hparts, hg, rfl, hcs⟩ := exists_parts_of_splitAlias hshut hsplit
    have heq : (front ++ [' ', '+']) ++ ' ' :: ['1'] =
        (body ++ lead ++ a :: s :: gap) ++ g :: word := by simpa using hcs
    obtain ⟨hfront, -, -⟩ := hparts.name.eq_of_run (by decide) (not_isAliasChar_of_isBlank hg)
      (by simp) (by decide) heq
    have hplus : EndsShut ((body ++ lead ++ [a, s]) ++ gap) := by
      have hcut : (body ++ lead ++ [a, s]) ++ gap = front ++ [' ', '+'] := by simp [hfront]
      rw [hcut, endsShut_append front (by simp)]
      decide
    obtain rfl := hparts.gap_eq_nil hplus
    -- the word AS would end with the plus sign
    have hlast : (front ++ [' ']) ++ ['+'] = (body ++ lead ++ [a]) ++ [s] := by simpa using hfront
    obtain rfl := (concat_inj hlast).2
    exact absurd hparts.letterS (by decide)

omit hFields hAlias in
/-- A name with a letter or an underscore is not found in a text without any. -/
theorem startsWithName_of_no_letter {name : String} (hname : name.toList.any Text.isWordStart)
    {cs : List Char} (hcs : ∀ c ∈ cs, Text.isWordStart c = false) :
    startsWithName (Text.lower name).toList cs = false := by
  obtain ⟨c, hc, hletter⟩ := List.any_eq_true.mp hname
  refine Bool.eq_false_iff.mpr fun h => ?_
  rw [startsWithName_eq, spells, beq_iff_eq] at h
  have hmem : c.toLower ∈ (Text.lower name).toList := by
    simpa [Text.lower] using ⟨c, hc, rfl⟩
  rw [← h, List.mem_map] at hmem
  obtain ⟨d, hd, hlower⟩ := hmem
  have hd' : Text.isWordStart d.toLower = false := by
    rw [Text.isWordStart_toLower, hcs d (List.mem_of_mem_take hd)]
  rw [hlower, Text.isWordStart_toLower, hletter] at hd'
  cases hd'

omit hFields hAlias in
theorem foldl_qualifyName_of_no_letter {names : List String}
    (hNames : ∀ name ∈ names, name.toList.any Text.isWordStart) {cs : List Char}
    (hcs : ∀ c ∈ cs, Text.isWordStart c = false) :
    names.foldl (fun body name => qualifyName tableAlias name body) cs = cs := by
  induction names with
  | nil => rfl
  | cons name names ih =>
    have hself : qualifyName tableAlias name cs = cs := by
      refine qualifyFrom_eq_self (fun front back heq hs => ?_) 0
      have hback : ∀ c ∈ back, Text.isWordStart c = false := fun c hc => hcs c (by simp [heq, hc])
      rw [startsWithName_of_no_letter (hNames name (by simp)) hback] at hs
      cases hs
    rw [List.foldl_cons, hself, ih fun other h => hNames other (by simp [h])]

end Names

/-- A name between backticks in front of a sum. Each run between two backticks of its written form
is qualified when it is a field; so a name without backticks is one token, and nothing is put in
between its quotes. What stands behind the name is the same for all names, and it is left as it is
when every field has a letter or an underscore. -/
theorem qualify_backquoted_sum {tableAlias : String} {fields : List String}
    (hAlias : Text.isPlain tableAlias.toList) (hFields : ∀ f ∈ fields, Separate tableAlias f) :
    ∃ back : String,
      ((∀ f ∈ fields, f ≠ "" → f.toList.any Text.isWordStart) → back = " + 1") ∧
      ∀ name : String,
        (qualify tableAlias fields (Text.quoteIdentifier name true ++ " + 1") =
          String.ofList ((name.toList.splitOn '\x60').flatMap fun part =>
            ticked (qualifierIf tableAlias (isNamed fields part && !part.isEmpty)) part) ++ back) ∧
        ('\x60' ∉ name.toList → name ≠ "" →
          qualify tableAlias fields (Text.quoteIdentifier name true ++ " + 1") =
            (if isNamed fields name.toList then tableAlias ++ "." else "") ++
              Text.quoteIdentifier name true ++ back) := by
  refine ⟨String.ofList ((longestFirst fields).foldl
    (fun body name => qualifyName tableAlias name body) " + 1".toList), fun hletters => ?_,
    fun name => ?_⟩
  · rw [foldl_qualifyName_of_no_letter (fun f h => hletters f (mem_longestFirst.mp h).1
      (mem_longestFirst.mp h).2) (by decide), String.ofList_toList]
  · have hparts := qualify_backquote_append hAlias hFields name (splitAlias_sum _)
    have hforced : Text.quoteIdentifier name true = Text.backquote name := rfl
    rw [String.ofList_append] at hparts
    refine ⟨hparts, fun hticks hne => ?_⟩
    have hone : name.toList.splitOn '\x60' = [name.toList] := List.splitOn_eq_singleton hticks
    have hlength : name.toList.isEmpty = false := by simpa using hne
    have hquoted : Text.backquote name = String.ofList (ticked [] name.toList) := by
      rw [← String.toList_inj]
      simp [ticked, Text.doubleBackticks_eq_self hticks]
    rw [hforced, hparts, hone, hquoted, List.flatMap_singleton, hlength]
    cases isNamed fields name.toList <;> simp [qualifierIf, ticked, ← String.toList_inj]

theorem qualify_backquoted_sum_name :
    Text.isPlain "t".toList = true ∧ (∀ f ∈ ["b", "my col"], Separate "t" f) ∧
    qualify "t" ["b", "my col"] (Text.quoteIdentifier "My Col" true ++ " + 1") =
      "t.\x60My Col\x60 + 1" := by
  have hAlias : Text.isPlain "t".toList = true := by decide
  have hFields : ∀ f ∈ ["b", "my col"], Separate "t" f := by decide
  obtain ⟨back, hback, hall⟩ := qualify_backquoted_sum hAlias hFields
  obtain ⟨-, hname⟩ := hall "My Col"
  refine ⟨hAlias, hFields, ?_⟩
  rw [hname (by decide) (by decide), hback (by decide)]
  decide

/-- In the written form of a name with a backtick, a part of the name is taken for a field. -/
theorem qualify_doubled_backtick :
    Text.quoteIdentifier "a\x60b" true ++ " + 1" = "\x60a\x60\x60b\x60 + 1" ∧
    isNamed ["b"] "a\x60b".toList = false ∧
    qualify "t" ["b"] "\x60a\x60\x60b\x60 + 1" = "\x60a\x60t.\x60b\x60 + 1" ∧
    qualify "t" ["a\x60b"] "\x60a\x60\x60b\x60 + 1" = "\x60a\x60\x60b\x60 + 1" := by
  decide

end Columnar
