import Columnar.Proofs.Qualify.Clause
import Columnar.Proofs.Qualify.Sweep

/-! The search for one name after the other, each over the text that the earlier ones have changed,
is one pass for all names at once. -/
namespace Columnar

/-- Whether a run of characters is one of the names, ignoring ASCII case. -/
def isNamed (names : List String) (cs : List Char) : Bool :=
  names.any (Text.sameName · (String.ofList cs))

theorem isNamed_cons (name : String) (names : List String) (cs : List Char) :
    isNamed (name :: names) cs = (Text.sameName name (String.ofList cs) || isNamed names cs) := by
  simp [isNamed]

theorem isNamed_congr {fields : List String} {cs ds : List Char}
    (h : Text.sameName (String.ofList cs) (String.ofList ds)) :
    isNamed fields cs = isNamed fields ds := by
  simp only [isNamed, Text.sameName, Text.sameName_iff.mp h]

theorem isPlain_of_sameName {s t : String} (h : Text.sameName s t) (hs : Text.isPlain s.toList) :
    Text.isPlain t.toList := by
  rwa [← Text.isPlain_lower, ← Text.sameName_iff.mp h, Text.isPlain_lower]

theorem isPlain_of_isNamed {fields : List String} (hFields : ∀ f ∈ fields, Text.isPlain f.toList)
    {cs : List Char} (h : isNamed fields cs) : Text.isPlain cs := by
  obtain ⟨f, hf, hsame⟩ := List.any_eq_true.mp h
  simpa using isPlain_of_sameName hsame (hFields f hf)

/-- Any other character makes the difference between a field and a longer text. -/
theorem not_isNamed_of_mem {fields : List String} (hFields : ∀ f ∈ fields, Text.isPlain f.toList)
    {c : Char} (hc : Text.isWord c = false) {cs : List Char} (h : c ∈ cs) :
    isNamed fields cs = false :=
  Bool.eq_false_iff.mpr fun hnamed =>
    Text.not_mem_of_isPlain (isPlain_of_isNamed hFields hnamed) hc h

/-- Whether a run of characters is the name that is given in lower case. -/
def spells (needle cs : List Char) : Bool := cs.map Char.toLower == needle

theorem startsWithName_eq (needle cs : List Char) :
    startsWithName needle cs = spells needle (cs.take needle.length) := by
  induction needle generalizing cs with
  | nil => simp [startsWithName, spells]
  | cons n needle ih =>
    cases cs with
    | nil => simp [startsWithName, spells]
    | cons c cs => simp [startsWithName, spells, ih]

namespace Quoting

/-- An identifier was opened where the state says, by a backtick outside quotes. -/
theorem opened_of_scan {position opened : Nat} {state : Quoting} {cs : List Char}
    (h : scan position state cs = identifier opened) :
    state = identifier opened ∨ position ≤ opened ∧ opened < position + cs.length := by
  induction cs generalizing position state with
  | nil => exact Or.inl h
  | cons c cs ih =>
    rcases ih h with h | ⟨h₁, h₂⟩
    · cases state <;> grind [step]
    · simp only [List.length_cons]
      omega

/-- If the last character opened an identifier, it is a backtick and the text in front of it ends
outside quotes. -/
theorem scan_eq_plain_of_opened {outer : List Char} {tick : Char}
    (h : scan 0 plain (tick :: outer).reverse = identifier outer.length) :
    tick = '\x60' ∧ scan 0 plain outer.reverse = plain := by
  rw [List.reverse_cons, scan_append] at h
  simp only [scan, List.length_reverse, Nat.zero_add] at h
  cases hs : scan 0 plain outer.reverse with
  | plain => grind [step]
  | literal => grind [step]
  | escaped => grind [step]
  | identifier opened =>
    have := opened_of_scan hs
    grind [step]

end Quoting

/-- The state behind a text that is given last character first. -/
def stateBehind (left : List Char) : Quoting := Quoting.plain.after left.reverse

@[simp] theorem stateBehind_cons (c : Char) (left : List Char) :
    stateBehind (c :: left) = (stateBehind left).step 0 c := by
  simp [stateBehind]

theorem stateBehind_append (inserted left : List Char) :
    stateBehind (inserted.reverse ++ left) = (stateBehind left).after inserted := by
  simp [stateBehind]

theorem scan_eq_plain_iff {left : List Char} :
    Quoting.scan 0 .plain left.reverse = .plain ↔ stateBehind left = .plain := by
  rw [← Quoting.kind_eq_plain, Quoting.kind_scan]
  rfl

def justOpened (left : List Char) : Prop :=
  ∃ outer, left = '\x60' :: outer ∧ stateBehind outer = .plain

theorem not_justOpened_of_isWord {c : Char} (h : Text.isWord c) (left : List Char) :
    ¬ justOpened (c :: left) := by
  rintro ⟨outer, heq, -⟩
  exact isWord_ne_backtick h (List.cons.inj heq).1

section Occurrence

variable {inserted left following : List Char}

theorem qualifyAt_plain (h : stateBehind left = .plain) :
    qualifyAt inserted left following =
      if left.head?.any bindsNext || following.head?.any Text.isWord then left
      else inserted.reverse ++ left := by
  unfold qualifyAt
  rw [scan_eq_plain_iff.mpr h]

theorem qualifyAt_opened (h : stateBehind left = .plain) :
    qualifyAt inserted ('\x60' :: left) following =
      if following.head? = some '\x60' ∧ left.head? ≠ some '.' then
        '\x60' :: (inserted.reverse ++ left)
      else '\x60' :: left := by
  have hs : Quoting.scan 0 .plain ('\x60' :: left).reverse = .identifier left.length := by
    rw [List.reverse_cons, Quoting.scan_append, scan_eq_plain_iff.mpr h]
    simp [Quoting.scan, Quoting.step]
  unfold qualifyAt
  rw [hs]
  simp

theorem qualifyAt_quoted (h : stateBehind left ≠ .plain) (ho : ¬ justOpened left) :
    qualifyAt inserted left following = left := by
  unfold qualifyAt
  split
  · rfl
  · rfl
  · next opened hs =>
    split
    · rfl
    · next tick outer =>
      rw [if_neg]
      rintro ⟨rfl, -⟩
      obtain ⟨rfl, hp⟩ := Quoting.scan_eq_plain_of_opened hs
      exact ho ⟨outer, rfl, scan_eq_plain_iff.mp hp⟩
  · next hs => exact absurd (scan_eq_plain_iff.mp hs) h

end Occurrence

/-- The search from a place on is a pass over the rest. Where the last character opened an
identifier, the pass has still to decide about that backtick; elsewhere `skip` characters of an
occurrence may be left. -/
structure SearchIsSweep (inserted needle cs : List Char) : Prop where
  elsewhere : ∀ left skip, ¬ justOpened left → (skip ≠ 0 → left.head?.any Text.isWord) →
    (∀ c ∈ cs.take skip, Text.isWord c) →
    qualifyFrom inserted needle left skip cs =
      left.reverse ++ sweep inserted (spells needle) (stateBehind left) left.head? cs
  opened : ∀ outer, stateBehind outer = .plain →
    qualifyFrom inserted needle ('\x60' :: outer) 0 cs =
      outer.reverse ++ sweep inserted (spells needle) .plain outer.head? ('\x60' :: cs)

/-- The step over the first character of an occurrence, after which the rest of it is skipped. -/
theorem SearchIsSweep.into {inserted needle : List Char} {c : Char} {cs : List Char}
    (h : SearchIsSweep inserted needle cs) (hc : Text.isWord c) (left : List Char) {skip : Nat}
    (htake : ∀ d ∈ cs.take skip, Text.isWord d) :
    qualifyFrom inserted needle (c :: left) skip cs = left.reverse ++
      c :: sweep inserted (spells needle) ((stateBehind left).step 0 c) (some c) cs := by
  rw [h.elsewhere (c :: left) skip (not_justOpened_of_isWord hc left) (fun _ => by simpa using hc)
    htake]
  simp

/-- A text starts with a name and a backtick exactly when the name fills what is in front of the
first backtick. -/
theorem spells_splitBacktick {needle : List Char} (hticks : '\x60' ∉ needle) (cs : List Char) :
    ((Text.splitBacktick cs).map Prod.fst).any (spells needle) =
      (spells needle (cs.take needle.length) &&
        (cs.drop needle.length).head? == some '\x60') := by
  induction needle generalizing cs with
  | nil =>
    cases cs with
    | nil => rfl
    | cons c cs =>
      by_cases hc : c = '\x60'
      · simp [Text.splitBacktick, spells, hc]
      · cases hs : Text.splitBacktick cs <;> simp [Text.splitBacktick, spells, hc, hs]
  | cons n needle ih =>
    cases cs with
    | nil => rfl
    | cons c cs =>
      simp only [List.mem_cons, not_or] at hticks
      have ih := ih hticks.2 cs
      have hcons (inner : List Char) :
          spells (n :: needle) (c :: inner) = (c.toLower == n && spells needle inner) := by
        simp [spells]
      rw [List.length_cons, List.take_succ_cons, List.drop_succ_cons, hcons, Bool.and_assoc, ← ih]
      by_cases hc : c = '\x60'
      · simp [Text.splitBacktick, spells, hc, hticks.1]
      · cases hs : Text.splitBacktick cs with
        | none => simp [Text.splitBacktick, hc, hs]
        | some parts => simp [Text.splitBacktick, hc, hs, hcons]

section Needle

variable {needle : List Char} (hw : ∀ c ∈ needle, Text.isWord c)

include hw

/-- A text starts with a whole word exactly when its longest run of word characters is that word. -/
theorem spells_takeWhile (cs : List Char) :
    spells needle (cs.takeWhile Text.isWord) =
      (spells needle (cs.take needle.length) &&
        !(cs.drop needle.length).head?.any Text.isWord) := by
  induction needle generalizing cs with
  | nil =>
    cases cs with
    | nil => rfl
    | cons c cs => by_cases hc : Text.isWord c <;> simp [spells, hc]
  | cons n needle ih =>
    cases cs with
    | nil => rfl
    | cons c cs =>
      have ih := ih (fun d hd => hw d (by simp [hd])) cs
      by_cases hc : Text.isWord c
      · simp only [spells] at ih
        simp only [List.takeWhile_cons_of_pos hc, spells, List.map_cons, List.cons_beq_cons, ih,
          List.length_cons, List.take_succ_cons, List.drop_succ_cons, Bool.and_assoc]
      · have hn : c.toLower ≠ n := by
          rintro rfl
          exact hc (by simpa using hw c.toLower (by simp))
        simp [List.takeWhile_cons_of_neg hc, spells, hn]

/-- The name at the front of a text is the word exactly when a search finds it there and takes
it. -/
theorem nameAt?_spells (hne : needle ≠ []) (previous : Option Char) {c : Char} (cs : List Char)
    (hc : c ≠ '\x60') :
    (nameAt? previous (c :: cs)).any (spells needle) =
      (startsWithName needle (c :: cs) && !(previous.any bindsNext ||
        ((c :: cs).drop needle.length).head?.any Text.isWord)) := by
  rw [startsWithName_eq]
  by_cases hd : previous = some '.'
  · simp [hd, bindsNext]
  · have hb : previous.any bindsNext = previous.any Text.isWord := by
      cases previous with
      | none => rfl
      | some d =>
        have : d ≠ '.' := fun h => hd (h ▸ rfl)
        simp [bindsNext, this]
    have hrun := spells_takeWhile hw (c :: cs)
    by_cases hwc : Text.isWord c
    · by_cases hp : previous.any Text.isWord = true
      · simp [nameAt?, hd, hc, hp, hb]
      · rw [Bool.not_eq_true] at hp
        simp only [nameAt?, if_neg hd, if_neg hc, hwc, hp, Bool.not_false, Bool.and_self,
          ↓reduceIte, Option.any_some, hrun, hb, Bool.false_or]
    · have hnone : nameAt? previous (c :: cs) = none := by simp [nameAt?, hd, hc, hwc]
      have hnil : spells needle [] = false := beq_eq_false_iff_ne.mpr (Ne.symm hne)
      rw [List.takeWhile_cons_of_neg hwc, hnil] at hrun
      rw [hnone, hb, Bool.not_or, Bool.and_left_comm, ← hrun]
      simp

/-- Behind a backtick that opens an identifier, the search takes the word when it fills the
identifier and no dot stands in front. -/
theorem nameAt?_spells_quoted (previous : Option Char) (cs : List Char) :
    (nameAt? previous ('\x60' :: cs)).any (spells needle) = true ↔
      startsWithName needle cs = true ∧ (cs.drop needle.length).head? = some '\x60' ∧
        previous ≠ some '.' := by
  rw [startsWithName_eq]
  by_cases hd : previous = some '.'
  · simp [hd]
  · have hq := spells_splitBacktick (fun h => absurd (hw _ h) (by decide)) cs
    simp only [nameAt?, ↓reduceIte, hq, Bool.and_eq_true, beq_iff_eq, ne_eq, hd,
      not_false_eq_true, and_true]

theorem isWord_of_occurrence (hne : needle ≠ []) {c : Char} {cs : List Char}
    (h : startsWithName needle (c :: cs)) :
    Text.isWord c ∧ ∀ d ∈ cs.take (needle.length - 1), Text.isWord d := by
  have hword : ∀ d ∈ (c :: cs).take needle.length, Text.isWord d := by
    intro d hd
    rw [startsWithName_eq, spells, beq_iff_eq] at h
    have := hw d.toLower (h ▸ List.mem_map_of_mem hd)
    simpa using this
  have hlength : needle.length = needle.length - 1 + 1 := by
    have := List.length_pos_iff.mpr hne
    omega
  rw [hlength, List.take_succ_cons] at hword
  simpa using hword

variable {inserted : List Char} (hne : needle ≠ []) (hi : Quoting.plain.after inserted = .plain)

include hne hi

theorem SearchIsSweep.elsewhere_cons {cs : List Char} (h : SearchIsSweep inserted needle cs)
    {c : Char} {left : List Char} {skip : Nat} (ho : ¬ justOpened left)
    (hhead : skip ≠ 0 → left.head?.any Text.isWord)
    (htake : ∀ d ∈ (c :: cs).take skip, Text.isWord d) :
    qualifyFrom inserted needle left skip (c :: cs) = left.reverse ++
      sweep inserted (spells needle) (stateBehind left) left.head? (c :: cs) := by
  cases skip with
  | succ skip =>
    have hc : Text.isWord c := htake c (by simp)
    have hm : markAt inserted (spells needle) (stateBehind left) left.head? (c :: cs) = [] := by
      obtain ⟨d, hd, hword⟩ := (Option.any_eq_true ..).mp (hhead (by simp))
      simp [markAt, hd, nameAt?_behind_word hword (isWord_ne_backtick hc)]
    rw [qualifyFrom, h.into hc left fun d hd => htake d (by simp [hd]), sweep, hm]
    rfl
  | zero =>
    by_cases hs : startsWithName needle (c :: cs) = true
    · obtain ⟨hc, hrest⟩ := isWord_of_occurrence hw hne hs
      rw [qualifyFrom, if_pos hs]
      dsimp only
      rw [h.into hc _ hrest, sweep]
      by_cases hp : stateBehind left = .plain
      · have hname := nameAt?_spells hw hne left.head? cs (isWord_ne_backtick hc)
        rw [hs, Bool.true_and] at hname
        rw [qualifyAt_plain hp, markAt, hname]
        split
        · next hstop =>
          rw [hstop]
          simp
        · next hstop =>
          rw [Bool.eq_false_iff.mpr hstop, stateBehind_append, hp, hi]
          simp
      · rw [qualifyAt_quoted hp ho, markAt_of_ne_plain hp]
        rfl
    · rw [qualifyFrom, if_neg hs]
      by_cases hopen : c = '\x60' ∧ stateBehind left = .plain
      · obtain ⟨rfl, hp⟩ := hopen
        rw [h.opened left hp, hp]
      · have hm : markAt inserted (spells needle) (stateBehind left) left.head? (c :: cs) = [] := by
          rw [markAt, if_neg]
          rintro ⟨hp, hname⟩
          rw [nameAt?_spells hw hne _ _ fun hc => hopen ⟨hc, hp⟩] at hname
          simp [hs] at hname
        have hj : ¬ justOpened (c :: left) := by
          rintro ⟨outer, heq, hp⟩
          obtain ⟨rfl, rfl⟩ := List.cons.inj heq
          exact hopen ⟨rfl, hp⟩
        rw [h.elsewhere (c :: left) 0 hj (by simp) (by simp), sweep, hm]
        simp

theorem SearchIsSweep.opened_cons {cs : List Char} (h : SearchIsSweep inserted needle cs)
    (c : Char) {outer : List Char} (hp : stateBehind outer = .plain) :
    qualifyFrom inserted needle ('\x60' :: outer) 0 (c :: cs) = outer.reverse ++
      sweep inserted (spells needle) .plain outer.head? ('\x60' :: c :: cs) := by
  have hidentifier : stateBehind ('\x60' :: outer) = .identifier 0 := by
    rw [stateBehind_cons, hp]
    rfl
  have hm : markAt inserted (spells needle) (.identifier 0) (some '\x60') (c :: cs) = [] :=
    markAt_of_ne_plain (by simp) _ _
  have hquoted := nameAt?_spells_quoted hw outer.head? (c :: cs)
  rw [sweep, show Quoting.plain.step 0 '\x60' = .identifier 0 from rfl, sweep, hm, List.nil_append]
  by_cases hs : startsWithName needle (c :: cs) = true
  · obtain ⟨hc, hrest⟩ := isWord_of_occurrence hw hne hs
    rw [qualifyFrom, if_pos hs]
    dsimp only
    rw [h.into hc _ hrest, qualifyAt_opened hp, markAt]
    simp only [hquoted, hs, true_and]
    split
    · simp [stateBehind_append, hp, hi, Quoting.step]
    · simp [hidentifier]
  · have hm : markAt inserted (spells needle) .plain outer.head? ('\x60' :: c :: cs) = [] := by
      rw [markAt, if_neg]
      rintro ⟨-, hname⟩
      exact hs (hquoted.mp hname).1
    have hj : ¬ justOpened (c :: '\x60' :: outer) := by
      rintro ⟨left, heq, hplain⟩
      obtain ⟨rfl, rfl⟩ := List.cons.inj heq
      rw [hidentifier] at hplain
      cases hplain
    rw [qualifyFrom, if_neg hs, hm, h.elsewhere (c :: '\x60' :: outer) 0 hj (by simp) (by simp)]
    simp [hidentifier]

theorem searchIsSweep (cs : List Char) : SearchIsSweep inserted needle cs := by
  induction cs with
  | nil =>
    constructor
    · intro left skip _ _ _
      simp [qualifyFrom, sweep]
    · intro outer _
      simp [qualifyFrom, sweep, markAt, nameAt?, Text.splitBacktick]
  | cons c cs ih =>
    exact ⟨fun _ _ => ih.elsewhere_cons hw hne hi, fun _ => ih.opened_cons hw hne hi c⟩

end Needle

theorem Quoting.after_of_isWord {cs : List Char} (h : ∀ c ∈ cs, Text.isWord c) :
    Quoting.plain.after cs = .plain := by
  induction cs with
  | nil => rfl
  | cons c cs ih =>
    rw [Quoting.after_cons, step_plain_of_isWord (h c (by simp)), ih fun d hd => h d (by simp [hd])]

theorem spells_lower (name : String) (cs : List Char) :
    spells (Text.lower name).toList cs = Text.sameName name (String.ofList cs) := by
  rw [Bool.eq_iff_iff, Text.sameName_iff, spells, beq_iff_eq]
  simp only [Text.lower, String.toList_ofList, String.ofList_inj]
  exact eq_comm

/-- How many qualifiers the search for one name after the other puts in front of a field: one for the
first name that the field has, and one for each later name that the alias has, because that name is
found in the qualifier in front. -/
def qualifierCount (tableAlias : String) : List String → List Char → Nat
  | [], _ => 0
  | name :: names, field =>
    if Text.sameName name (String.ofList field) then
      1 + names.countP (Text.sameName · tableAlias)
    else qualifierCount tableAlias names field

theorem qualifierCount_eq_zero_iff {tableAlias : String} {names : List String} {field : List Char} :
    qualifierCount tableAlias names field = 0 ↔ ¬ isNamed names field := by
  induction names with
  | nil => simp [qualifierCount, isNamed]
  | cons name names ih =>
    rw [qualifierCount, isNamed_cons]
    by_cases h : Text.sameName name (String.ofList field) <;> simp [h, ih]

/-- A further name that the alias has adds a qualifier to those that are there. -/
theorem qualifierCount_concat (tableAlias : String) (names : List String) (name : String)
    (field : List Char) :
    qualifierCount tableAlias (names ++ [name]) field =
      if isNamed names field then
        qualifierCount tableAlias names field + if Text.sameName name tableAlias then 1 else 0
      else if Text.sameName name (String.ofList field) then 1 else 0 := by
  induction names with
  | nil => simp [qualifierCount, isNamed]
  | cons first names ih =>
    rw [List.cons_append, qualifierCount, qualifierCount, isNamed_cons]
    by_cases h : Text.sameName first (String.ofList field)
    · simp [h, List.countP_append, List.countP_cons, Nat.add_assoc]
    · simp [h, ih]

theorem requalified_qualifierCount (tableAlias : String) (names : List String) (name : String)
    (field : List Char) :
    requalified tableAlias.toList (isNamed [name]) (qualifierCount tableAlias names) field =
      qualifierCount tableAlias (names ++ [name]) field := by
  have hone (cs : List Char) : isNamed [name] cs = Text.sameName name (String.ofList cs) := by
    simp [isNamed]
  rw [qualifierCount_concat, requalified, hone, hone, String.ofList_toList]
  by_cases h : isNamed names field <;> simp [qualifierCount_eq_zero_iff, h]

theorem qualifierCount_of_other {tableAlias : String} {names : List String}
    (hOther : ∀ name ∈ names, Text.sameName name tableAlias = false) (field : List Char) :
    qualifierCount tableAlias names field = if isNamed names field then 1 else 0 := by
  induction names with
  | nil => rfl
  | cons name names ih =>
    have hrest : ∀ other ∈ names, Text.sameName other tableAlias = false :=
      fun other h => hOther other (by simp [h])
    have hcount : names.countP (Text.sameName · tableAlias) = 0 :=
      List.countP_eq_zero.mpr fun other h => by simp [hrest other h]
    rw [qualifierCount, isNamed_cons, hcount, ih hrest]
    by_cases h : Text.sameName name (String.ofList field) <;> simp [h]

section Names

variable {tableAlias : String} (hAlias : Text.isPlain tableAlias.toList)

include hAlias

theorem qualifyName_eq_sweep {name : String} (hName : Text.isPlain name.toList) (text : List Char) :
    qualifyName tableAlias name text =
      sweep (tableAlias.toList ++ ['.']) (isNamed [name]) .plain none text := by
  have hw : ∀ c ∈ (Text.lower name).toList, Text.isWord c := by
    intro c hc
    simp only [Text.lower, String.toList_ofList, List.mem_map] at hc
    obtain ⟨d, hd, rfl⟩ := hc
    simpa using Text.isWord_of_isPlain hName d hd
  have hne : (Text.lower name).toList ≠ [] := by
    intro h
    simp only [Text.lower, String.toList_ofList, List.map_eq_nil_iff] at h
    simp [h, Text.isPlain] at hName
  have hi : Quoting.plain.after (tableAlias.toList ++ ['.']) = .plain := by
    rw [Quoting.after_append, Quoting.after_of_isWord (Text.isWord_of_isPlain hAlias)]
    rfl
  have hj : ¬ justOpened [] := by
    rintro ⟨_, h, _⟩
    cases h
  have hp : spells (Text.lower name).toList = isNamed [name] := by
    funext cs
    simp [spells_lower, isNamed]
  rw [qualifyName, (searchIsSweep hw hne hi text).elsewhere [] 0 hj (by simp) (by simp), hp]
  rfl

/-- The invariant of the search for one name after the other: the names `done` have put a number of
qualifiers in front of each name, and the next name adds to them. -/
theorem qualifyName_sweepBy {done : List String} {name : String} (hName : Text.isPlain name.toList)
    {text : List Char} (hText : quotesApart .plain none text) :
    qualifyName tableAlias name (sweepBy
        (fun field => qualifiers tableAlias.toList (qualifierCount tableAlias done field))
        .plain none text) =
      sweepBy
        (fun field => qualifiers tableAlias.toList (qualifierCount tableAlias (done ++ [name]) field))
        .plain none text := by
  rw [qualifyName_eq_sweep hAlias hName, sweep_sweepBy (Text.isWord_of_isPlain hAlias)
    (Text.ne_nil_of_isPlain hAlias) _ hText]
  simp only [requalified_qualifierCount]

theorem foldl_qualifyName_eq_sweepBy {names : List String}
    (hNames : ∀ name ∈ names, Text.isPlain name.toList) {text : List Char}
    (hText : quotesApart .plain none text) :
    names.foldl (fun body name => qualifyName tableAlias name body) text =
      sweepBy (fun field => qualifiers tableAlias.toList (qualifierCount tableAlias names field))
        .plain none text := by
  have hrun : ∀ rest done, (∀ name ∈ rest, name ∈ names) →
      rest.foldl (fun body name => qualifyName tableAlias name body) (sweepBy
          (fun field => qualifiers tableAlias.toList (qualifierCount tableAlias done field))
          .plain none text) =
        sweepBy
          (fun field => qualifiers tableAlias.toList
            (qualifierCount tableAlias (done ++ rest) field)) .plain none text := by
    intro rest
    induction rest with
    | nil => simp
    | cons name rest ih =>
      intro done hmem
      rw [List.foldl_cons, qualifyName_sweepBy hAlias (hNames name (hmem name (by simp))) hText,
        ih _ fun other h => hmem other (by simp [h])]
      simp
  have hstart : sweepBy (fun field => qualifiers tableAlias.toList
      (qualifierCount tableAlias [] field)) .plain none text = text :=
    sweepBy_eq_self fun _ _ => rfl
  simpa [hstart] using hrun names [] fun _ h => h

theorem foldl_qualifyName {names : List String} (hNames : ∀ name ∈ names, Text.isPlain name.toList)
    (hOther : ∀ name ∈ names, Text.sameName name tableAlias = false) {text : List Char}
    (hText : quotesApart .plain none text) :
    names.foldl (fun body name => qualifyName tableAlias name body) text =
      sweep (tableAlias.toList ++ ['.']) (isNamed names) .plain none text := by
  have hmarks : (fun field => qualifiers tableAlias.toList (qualifierCount tableAlias names field)) =
      fun field => if isNamed names field then tableAlias.toList ++ ['.'] else [] := by
    funext field
    rw [qualifierCount_of_other hOther]
    by_cases h : isNamed names field <;> simp [h, qualifiers_succ]
  rw [foldl_qualifyName_eq_sweepBy hAlias hNames hText, hmarks, sweep_eq_sweepBy]

end Names

theorem mem_insertByLength {name other : String} {names : List String} :
    other ∈ insertByLength name names ↔ other = name ∨ other ∈ names := by
  induction names with
  | nil => simp [insertByLength]
  | cons next names ih =>
    rw [insertByLength]
    split
    · simp
    · simp only [List.mem_cons, ih]
      exact or_left_comm

theorem mem_longestFirst {name : String} {names : List String} :
    name ∈ longestFirst names ↔ name ∈ names ∧ name ≠ "" := by
  unfold longestFirst
  have hfold : ∀ kept : List String, name ∈ kept.foldr insertByLength [] ↔ name ∈ kept := by
    intro kept
    induction kept with
    | nil => simp
    | cons next kept ih => rw [List.foldr_cons, mem_insertByLength, ih, List.mem_cons]
  rw [hfold]
  simp

theorem sameName_nil {name : String} : Text.sameName name "" = true ↔ name = "" := by
  rw [Text.sameName_iff, ← String.toList_inj, ← String.toList_inj]
  simp [Text.lower]

/-- The names that are looked for are those that are not empty. -/
theorem isNamed_longestFirst_eq (names : List String) (cs : List Char) :
    isNamed (longestFirst names) cs = (isNamed names cs && !cs.isEmpty) := by
  rw [Bool.eq_iff_iff, Bool.and_eq_true, isNamed, isNamed, List.any_eq_true, List.any_eq_true]
  constructor
  · rintro ⟨name, hmem, hsame⟩
    obtain ⟨hmem, hne⟩ := mem_longestFirst.mp hmem
    refine ⟨⟨name, hmem, hsame⟩, ?_⟩
    cases cs with
    | nil => exact absurd (sameName_nil.mp hsame) hne
    | cons c cs => rfl
  · rintro ⟨⟨name, hmem, hsame⟩, hcs⟩
    refine ⟨name, mem_longestFirst.mpr ⟨hmem, ?_⟩, hsame⟩
    rintro rfl
    rw [Text.sameName_comm, sameName_nil, String.ofList_eq_empty_iff] at hsame
    simp [hsame] at hcs

/-- The order in which the names are looked for does not show. -/
theorem isNamed_longestFirst {names : List String}
    (hNames : ∀ name ∈ names, Text.isPlain name.toList) :
    isNamed (longestFirst names) = isNamed names := by
  funext cs
  rw [isNamed_longestFirst_eq]
  cases cs with
  | nil =>
    have hempty : isNamed names [] = false :=
      Bool.eq_false_iff.mpr fun h => absurd (isPlain_of_isNamed hNames h) (by decide)
    rw [hempty, Bool.false_and]
  | cons c cs => simp

section Qualify

variable {tableAlias : String} {fields : List String} (hAlias : Text.isPlain tableAlias.toList)
  (hFields : ∀ f ∈ fields, Text.isPlain f.toList)
  (hOther : ∀ f ∈ fields, Text.sameName f tableAlias = false)

include hAlias hFields hOther

theorem foldl_longestFirst {body : List Char} (hBody : quotesApart .plain none body) :
    (longestFirst fields).foldl (fun body name => qualifyName tableAlias name body) body =
      sweep (tableAlias.toList ++ ['.']) (isNamed fields) .plain none body := by
  have hmem : ∀ name ∈ longestFirst fields, name ∈ fields := fun name h => (mem_longestFirst.mp h).1
  rw [foldl_qualifyName hAlias (fun name h => hFields name (hmem name h))
    (fun name h => hOther name (hmem name h)) hBody, isNamed_longestFirst hFields]

omit hAlias hOther in
/-- A text that is one field as a whole gets the qualifier and loses the blanks around it. -/
theorem qualify_of_isNamed {text : String} (h : isNamed fields (Text.trim text.toList) = true) :
    qualify tableAlias fields text =
      tableAlias ++ "." ++ String.ofList (Text.trim text.toList) := by
  rw [← isNamed_longestFirst hFields] at h
  unfold qualify
  dsimp only
  exact if_pos h

/-- Any other text is swept in front of its trailing output name. -/
theorem qualify_of_split {text : String} (h : isNamed fields (Text.trim text.toList) = false)
    {body clause : List Char}
    (hsplit : (splitAlias text.toList).getD (text.toList, []) = (body, clause))
    (hBody : quotesApart .plain none body) :
    qualify tableAlias fields text = String.ofList
      (sweep (tableAlias.toList ++ ['.']) (isNamed fields) .plain none body ++ clause) := by
  rw [← isNamed_longestFirst hFields, isNamed] at h
  unfold qualify
  dsimp only
  rw [h, if_neg Bool.false_ne_true, hsplit]
  dsimp only
  rw [foldl_longestFirst hAlias hFields hOther hBody]

omit hAlias hFields hOther in
/-- The text in front of a trailing output name keeps the quotes of the whole text. -/
theorem quotesApart_body {cs : List Char} (h : quotesApart .plain none cs) :
    quotesApart .plain none ((splitAlias cs).getD (cs, [])).1 := by
  cases hsplit : splitAlias cs with
  | none => exact h
  | some parts =>
    obtain ⟨body, clause⟩ := parts
    obtain ⟨rest, rfl, -⟩ := splitAlias_eq_some hsplit
    exact quotesApart_of_append h

theorem qualify_of_not_isNamed {text : String} (hText : quotesApart .plain none text.toList)
    (h : isNamed fields (Text.trim text.toList) = false) :
    qualify tableAlias fields text =
      let (body, clause) := (splitAlias text.toList).getD (text.toList, [])
      String.ofList
        (sweep (tableAlias.toList ++ ['.']) (isNamed fields) .plain none body ++ clause) :=
  qualify_of_split hAlias hFields hOther h rfl (quotesApart_body hText)

/-- Qualification is one pass over the text in front of a trailing output name, unless the text is
one field as a whole. -/
theorem qualify_eq_sweep {text : String} (hText : quotesApart .plain none text.toList) :
    qualify tableAlias fields text =
      if isNamed fields (Text.trim text.toList) then
        tableAlias ++ "." ++ String.ofList (Text.trim text.toList)
      else
        let (body, clause) := (splitAlias text.toList).getD (text.toList, [])
        String.ofList
          (sweep (tableAlias.toList ++ ['.']) (isNamed fields) .plain none body ++ clause) := by
  split
  · next h => exact qualify_of_isNamed hFields h
  · next h => exact qualify_of_not_isNamed hAlias hFields hOther hText (Bool.eq_false_iff.mpr h)

end Qualify

theorem qualify_eq_sweep_price_qty :
    Text.isPlain "o".toList = true ∧ (∀ f ∈ ["qty", "Price"], Text.isPlain f.toList = true) ∧
    (∀ f ∈ ["qty", "Price"], Text.sameName f "o" = false) ∧
    quotesApart .plain none "price * `Qty` - x.qty AS qty ".toList = true ∧
    qualify "o" ["qty", "Price"] "price * `Qty` - x.qty AS qty " =
      "o.price * o.`Qty` - x.qty AS qty" := by
  have hAlias : Text.isPlain "o".toList = true := by decide
  have hFields : ∀ f ∈ ["qty", "Price"], Text.isPlain f.toList = true := by decide
  have hOther : ∀ f ∈ ["qty", "Price"], Text.sameName f "o" = false := by decide
  have hText : quotesApart .plain none "price * `Qty` - x.qty AS qty ".toList = true := by decide
  refine ⟨hAlias, hFields, hOther, hText, ?_⟩
  rw [qualify_eq_sweep hAlias hFields hOther hText]
  decide

end Columnar
