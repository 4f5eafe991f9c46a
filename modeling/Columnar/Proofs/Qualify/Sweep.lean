import Columnar.Proofs.Text.Backtick
import Columnar.Qualify.Basic

/-! One pass over an expression text that qualifies every name for which a predicate holds. A pass
leaves the quotes as they are and hides what it has qualified from later passes, so that two passes
are one pass for either predicate. -/
namespace Columnar

namespace Quoting

def kind : Quoting → Quoting
  | identifier _ => identifier 0
  | state => state

def after (state : Quoting) (cs : List Char) : Quoting := cs.foldl (step 0) state

@[simp] theorem after_nil (state : Quoting) : state.after [] = state := rfl

@[simp] theorem after_cons (state : Quoting) (c : Char) (cs : List Char) :
    state.after (c :: cs) = (state.step 0 c).after cs := rfl

@[simp] theorem after_append (state : Quoting) (cs ds : List Char) :
    state.after (cs ++ ds) = (state.after cs).after ds := by
  simp [after]

theorem kind_step (position : Nat) (state : Quoting) (c : Char) :
    (state.step position c).kind = state.kind.step 0 c := by
  cases state <;> grind [step, kind]

theorem kind_scan (position : Nat) (state : Quoting) (cs : List Char) :
    (scan position state cs).kind = state.kind.after cs := by
  induction cs generalizing position state with
  | nil => rfl
  | cons c cs ih => rw [scan, ih, kind_step, after_cons]

theorem kind_eq_plain {state : Quoting} : state.kind = plain ↔ state = plain := by
  cases state <;> simp [kind]

end Quoting

/-- The name that stands at the front of a text outside quotes, behind the character `previous`: a
maximal run of word characters, or what fills a closed back-quoted identifier. A name directly
behind a dot is qualified already. -/
def nameAt? (previous : Option Char) : List Char → Option (List Char)
  | [] => none
  | c :: cs =>
    if previous = some '.' then none
    else if c = '\x60' then (Text.splitBacktick cs).map Prod.fst
    else if Text.isWord c && !previous.any Text.isWord then some ((c :: cs).takeWhile Text.isWord)
    else none

/-- What a pass puts in front of a text: the qualifier where a field stands outside quotes. -/
def markAt (inserted : List Char) (isField : List Char → Bool) (state : Quoting)
    (previous : Option Char) (cs : List Char) : List Char :=
  if state = .plain ∧ (nameAt? previous cs).any isField then inserted else []

/-- One pass from left to right over the rest of a text, in the given state behind the character
`previous`. -/
def sweep (inserted : List Char) (isField : List Char → Bool) :
    Quoting → Option Char → List Char → List Char
  | _, _, [] => []
  | state, previous, c :: cs =>
    markAt inserted isField state previous (c :: cs) ++
      c :: sweep inserted isField (state.step 0 c) (some c) cs

/-- What a pass puts in front of a text where each name has marks of its own. -/
def marksAt (marks : List Char → List Char) (state : Quoting) (previous : Option Char)
    (cs : List Char) : List Char :=
  if state = .plain then (nameAt? previous cs).elim [] marks else []

/-- A pass that puts in front of each name its own marks. -/
def sweepBy (marks : List Char → List Char) : Quoting → Option Char → List Char → List Char
  | _, _, [] => []
  | state, previous, c :: cs =>
    marksAt marks state previous (c :: cs) ++
      c :: sweepBy marks (state.step 0 c) (some c) cs

def namesIn : Quoting → Option Char → List Char → List (List Char)
  | _, _, [] => []
  | state, previous, c :: cs =>
    (if state = .plain then (nameAt? previous (c :: cs)).toList else []) ++
      namesIn (state.step 0 c) (some c) cs

/-- No closed back-quoted identifier starts directly behind a word character. -/
def quotesApart : Quoting → Option Char → List Char → Bool
  | _, _, [] => true
  | state, previous, c :: cs =>
    !(state == .plain && c == '\x60' && previous.any Text.isWord &&
        (Text.splitBacktick cs).isSome) &&
      quotesApart (state.step 0 c) (some c) cs

section Sweep

variable {inserted : List Char} {isField p q : List Char → Bool} {marks : List Char → List Char}

theorem markAt_of_ne_plain {state : Quoting} (h : state ≠ .plain) (previous : Option Char)
    (cs : List Char) : markAt inserted isField state previous cs = [] := by
  simp [markAt, h]

@[simp] theorem nameAt?_behind_dot (cs : List Char) : nameAt? (some '.') cs = none := by
  cases cs <;> simp [nameAt?]

theorem nameAt?_behind_word {previous c : Char} (hp : Text.isWord previous) (hc : c ≠ '\x60')
    (cs : List Char) : nameAt? (some previous) (c :: cs) = none := by
  simp [nameAt?, hp, hc]

theorem isWord_ne_backtick {c : Char} (h : Text.isWord c) : c ≠ '\x60' := by
  rintro rfl
  exact absurd h (by decide)

theorem step_plain_of_isWord {c : Char} (h : Text.isWord c) (position : Nat) :
    Quoting.plain.step position c = .plain := by
  have hq : c ≠ '\'' := by rintro rfl; exact absurd h (by decide)
  simp [Quoting.step, hq, isWord_ne_backtick h]

theorem markAt_eq_marksAt (state : Quoting) (previous : Option Char) (cs : List Char) :
    markAt inserted isField state previous cs =
      marksAt (fun name => if isField name then inserted else []) state previous cs := by
  unfold markAt marksAt
  cases nameAt? previous cs <;> grind

theorem sweep_eq_sweepBy (state : Quoting) (previous : Option Char) (cs : List Char) :
    sweep inserted isField state previous cs =
      sweepBy (fun name => if isField name then inserted else []) state previous cs := by
  induction cs generalizing state previous with
  | nil => rfl
  | cons c cs ih => rw [sweep, sweepBy, markAt_eq_marksAt, ih]

theorem marksAt_of_ne_plain {state : Quoting} (h : state ≠ .plain) (previous : Option Char)
    (cs : List Char) : marksAt marks state previous cs = [] := by
  simp [marksAt, h]

/-- A pass keeps what fills an identifier that is open. -/
theorem splitBacktick_sweepBy (previous : Option Char) (cs : List Char) :
    Text.splitBacktick (sweepBy marks (.identifier 0) previous cs) =
      (Text.splitBacktick cs).map fun (inner, rest) =>
        (inner, sweepBy marks .plain (some '\x60') rest) := by
  induction cs generalizing previous with
  | nil => rfl
  | cons c cs ih =>
    rw [sweepBy, marksAt_of_ne_plain (by simp), List.nil_append, Text.splitBacktick,
      Text.splitBacktick]
    split
    · next h => simp [Quoting.step, h]
    · next h =>
      simp only [Quoting.step, if_neg h]
      rw [ih]
      cases Text.splitBacktick cs <;> rfl

theorem splitBacktick_sweep (previous : Option Char) (cs : List Char) :
    Text.splitBacktick (sweep inserted isField (.identifier 0) previous cs) =
      (Text.splitBacktick cs).map fun (inner, rest) =>
        (inner, sweep inserted isField .plain (some '\x60') rest) := by
  simp only [sweep_eq_sweepBy, splitBacktick_sweepBy]

/-- A pass keeps the end of a word that it is in. -/
theorem takeWhile_sweepBy {c : Char} (hc : Text.isWord c) {cs : List Char}
    (h : quotesApart .plain (some c) cs) :
    (sweepBy marks .plain (some c) cs).takeWhile Text.isWord = cs.takeWhile Text.isWord := by
  induction cs generalizing c with
  | nil => rfl
  | cons d cs ih =>
    simp only [quotesApart, Bool.and_eq_true] at h
    have hm : marksAt marks .plain (some c) (d :: cs) = [] := by
      have hn : nameAt? (some c) (d :: cs) = none := by
        by_cases hd : d = '\x60'
        · have hs : Text.splitBacktick cs = none := by simpa [hd, hc] using h.1
          simp [nameAt?, hd, hs]
        · exact nameAt?_behind_word hc hd cs
      simp [marksAt, hn]
    rw [sweepBy, hm, List.nil_append]
    by_cases hd : Text.isWord d
    · rw [List.takeWhile_cons_of_pos hd, List.takeWhile_cons_of_pos hd]
      rw [step_plain_of_isWord hd] at h ⊢
      rw [ih hd h.2]
    · rw [List.takeWhile_cons_of_neg hd, List.takeWhile_cons_of_neg hd]

/-- The name at the front of a text is the same in front of a swept rest. -/
theorem nameAt?_sweepBy {previous : Option Char} {c : Char} {cs : List Char}
    (h : quotesApart .plain previous (c :: cs)) :
    nameAt? previous (c :: sweepBy marks (Quoting.plain.step 0 c) (some c) cs) =
      nameAt? previous (c :: cs) := by
  simp only [quotesApart, Bool.and_eq_true] at h
  by_cases hc : c = '\x60'
  · subst hc
    simp only [nameAt?, ↓reduceIte]
    have hs : Quoting.plain.step 0 '\x60' = .identifier 0 := rfl
    rw [hs, splitBacktick_sweepBy, Option.map_map]
    rfl
  · by_cases hw : Text.isWord c
    · rw [step_plain_of_isWord hw] at h ⊢
      simp only [nameAt?, if_neg hc, List.takeWhile_cons_of_pos hw, takeWhile_sweepBy hw h.2]
    · simp [nameAt?, hc, hw]

/-- A name stands neither behind a dot nor behind a word character. -/
theorem not_bindsNext_of_nameAt? {previous : Option Char} {c : Char} {cs name : List Char}
    (h : quotesApart .plain previous (c :: cs)) (hname : nameAt? previous (c :: cs) = some name) :
    previous.any bindsNext = false := by
  cases previous with
  | none => rfl
  | some p =>
    simp only [quotesApart, Bool.and_eq_true, beq_self_eq_true, Bool.true_and, Option.any_some] at h
    unfold nameAt? at hname
    have hdot : p ≠ '.' := by grind
    have hword : Text.isWord p = false := by
      by_cases hc : c = '\x60'
      · cases hs : Text.splitBacktick cs <;> simp_all
      · simp [hdot, hc] at hname
        exact hname.1.2
    simp [bindsNext, hdot, hword]

/-- Behind the first character of a qualifier no name starts before the dot. -/
theorem sweep_behind_word {previous : Char} (hp : Text.isWord previous) {word : List Char}
    (hw : ∀ c ∈ word, Text.isWord c) (cs : List Char) :
    sweep inserted isField .plain (some previous) (word ++ '.' :: cs) =
      word ++ '.' :: sweep inserted isField .plain (some '.') cs := by
  induction word generalizing previous with
  | nil =>
    have hn : nameAt? (some previous) ('.' :: cs) = none := nameAt?_behind_word hp (by decide) cs
    simp [sweep, markAt, hn, Quoting.step]
  | cons c word ih =>
    have hc : Text.isWord c := hw c (by simp)
    have hn : nameAt? (some previous) (c :: (word ++ '.' :: cs)) = none :=
      nameAt?_behind_word hp (isWord_ne_backtick hc) _
    rw [List.cons_append, sweep, step_plain_of_isWord hc, ih hc fun d hd => hw d (by simp [hd])]
    simp [markAt, hn]

/-- A pass looks at a qualifier once, at its front. -/
theorem sweep_qualifier {word : List Char} (hw : ∀ c ∈ word, Text.isWord c)
    (previous : Option Char) (cs : List Char) :
    sweep inserted isField .plain previous (word ++ '.' :: cs) =
      markAt inserted isField .plain previous (word ++ '.' :: cs) ++
        (word ++ '.' :: sweep inserted isField .plain (some '.') cs) := by
  cases word with
  | nil => simp [sweep, Quoting.step]
  | cons c rest =>
    have hc : Text.isWord c := hw c (by simp)
    rw [List.cons_append, sweep, step_plain_of_isWord hc,
      sweep_behind_word hc fun d hd => hw d (by simp [hd])]
    rfl

/-- The name at the front of a qualifier is the word in front of its dot. -/
theorem nameAt?_qualifier {word : List Char} (hw : ∀ c ∈ word, Text.isWord c) (hne : word ≠ [])
    {previous : Option Char} (hp : previous.any bindsNext = false) (cs : List Char) :
    nameAt? previous (word ++ '.' :: cs) = some word := by
  obtain ⟨c, rest, rfl⟩ := List.exists_cons_of_ne_nil hne
  have hc : Text.isWord c := hw c (by simp)
  have hrun : (c :: (rest ++ '.' :: cs)).takeWhile Text.isWord = c :: rest := by
    rw [List.takeWhile_cons_of_pos hc,
      List.takeWhile_append_of_pos fun d hd => hw d (by simp [hd])]
    simp [Text.isWord]
  cases previous with
  | none => simp only [List.cons_append, nameAt?, if_neg (isWord_ne_backtick hc), hc, hrun]; simp
  | some p =>
    simp only [Option.any_some, bindsNext, Bool.or_eq_false_iff, beq_eq_false_iff_ne] at hp
    simp only [List.cons_append, nameAt?, if_neg (isWord_ne_backtick hc), hc, hrun]
    simp [hp.1, hp.2]

def qualifiers (word : List Char) (count : Nat) : List Char :=
  (List.replicate count (word ++ ['.'])).flatten

@[simp] theorem qualifiers_zero (word : List Char) : qualifiers word 0 = [] := rfl

theorem qualifiers_succ (word : List Char) (count : Nat) :
    qualifiers word (count + 1) = word ++ '.' :: qualifiers word count := by
  simp [qualifiers, List.replicate_succ]

/-- Behind a dot, a pass takes no qualifier for a field. -/
theorem sweep_qualifiers {word : List Char} (hw : ∀ c ∈ word, Text.isWord c) (count : Nat)
    (cs : List Char) :
    sweep inserted isField .plain (some '.') (qualifiers word count ++ cs) =
      qualifiers word count ++ sweep inserted isField .plain (some '.') cs := by
  induction count with
  | zero => rfl
  | succ count ih =>
    rw [qualifiers_succ, List.append_assoc, List.cons_append, sweep_qualifier hw, ih]
    simp [markAt]

/-- How many qualifiers stand in front of a name after a further pass: the pass takes the first of
those in front of the name for a field, or the name itself where there are none. -/
def requalified (word : List Char) (isField : List Char → Bool) (count : List Char → Nat)
    (name : List Char) : Nat :=
  if count name = 0 then (if isField name then 1 else 0)
  else count name + (if isField word then 1 else 0)

theorem requalified_of_eq_zero {word name : List Char} {count : List Char → Nat}
    (h : count name = 0) :
    requalified word isField count name = if isField name then 1 else 0 := by
  rw [requalified, if_pos h]

theorem requalified_of_eq_succ {word name : List Char} {count : List Char → Nat} {n : Nat}
    (h : count name = n + 1) :
    requalified word isField count name = if isField word then n + 2 else n + 1 := by
  rw [requalified, if_neg (by simp [h]), h]
  split <;> rfl

/-- A pass behind one that has put any number of qualifiers in front of each name. -/
theorem sweep_sweepBy {word : List Char} (hw : ∀ c ∈ word, Text.isWord c) (hne : word ≠ [])
    (count : List Char → Nat) {state : Quoting} {previous : Option Char} {cs : List Char}
    (h : quotesApart state previous cs) :
    sweep (word ++ ['.']) q state previous
        (sweepBy (fun name => qualifiers word (count name)) state previous cs) =
      sweepBy (fun name => qualifiers word (requalified word q count name)) state previous cs := by
  induction cs generalizing state previous with
  | nil => rfl
  | cons c cs ih =>
    have hrest : quotesApart (state.step 0 c) (some c) cs := by
      simp only [quotesApart, Bool.and_eq_true] at h
      exact h.2
    rw [sweepBy, sweepBy]
    by_cases hs : state = .plain
    · subst hs
      cases hname : nameAt? previous (c :: cs) with
      | none =>
        simp only [marksAt, hname, Option.elim_none, ite_self, List.nil_append]
        rw [sweep, ih hrest, markAt, nameAt?_sweepBy h, hname]
        simp
      | some name =>
        simp only [marksAt, hname, Option.elim_some, ↓reduceIte]
        cases hcount : count name with
        | zero =>
          rw [qualifiers_zero, List.nil_append, sweep, ih hrest, markAt, nameAt?_sweepBy h, hname,
            requalified_of_eq_zero hcount]
          by_cases hq : q name <;> simp [hq, qualifiers_succ]
        | succ n =>
          -- the qualifiers in front of the name put a dot between it and the second pass
          have hp := not_bindsNext_of_nameAt? h hname
          rw [qualifiers_succ, List.append_assoc, List.cons_append, sweep_qualifier hw,
            sweep_qualifiers hw, sweep, ih hrest, markAt, nameAt?_qualifier hw hne hp,
            requalified_of_eq_succ hcount]
          by_cases hq : q word <;> simp [hq, markAt, qualifiers_succ]
    · rw [marksAt_of_ne_plain hs, marksAt_of_ne_plain hs, List.nil_append, sweep,
        markAt_of_ne_plain hs, ih hrest]

/-- Two passes with one qualifier, which the second does not take for a field, are one pass. -/
theorem sweep_sweep {word : List Char} (hw : ∀ c ∈ word, Text.isWord c) (hne : word ≠ [])
    (hf : q word = false) {state : Quoting} {previous : Option Char} {cs : List Char}
    (h : quotesApart state previous cs) :
    sweep (word ++ ['.']) q state previous (sweep (word ++ ['.']) p state previous cs) =
      sweep (word ++ ['.']) (fun name => p name || q name) state previous cs := by
  have hpass (r : List Char → Bool) : (fun name => if r name then word ++ ['.'] else []) =
      fun name => qualifiers word (if r name then 1 else 0) := by
    funext name
    by_cases hr : r name <;> simp [hr, qualifiers]
  have hcount : requalified word q (fun name => if p name then 1 else 0) =
      fun name => if (p name || q name) then 1 else 0 := by
    funext name
    by_cases hp : p name <;> simp [requalified, hp, hf]
  have hfirst : sweep (word ++ ['.']) p state previous cs =
      sweepBy (fun name => qualifiers word (if p name then 1 else 0)) state previous cs := by
    rw [sweep_eq_sweepBy, hpass]
  rw [hfirst, sweep_sweepBy hw hne _ h, hcount, sweep_eq_sweepBy, hpass]

theorem quotesApart_of_append {state : Quoting} {previous : Option Char} {cs ds : List Char}
    (h : quotesApart state previous (cs ++ ds)) : quotesApart state previous cs := by
  induction cs generalizing state previous with
  | nil => rfl
  | cons c cs ih =>
    simp only [List.cons_append, quotesApart, Bool.and_eq_true] at h ⊢
    refine ⟨?_, ih h.2⟩
    cases hs : Text.splitBacktick cs with
    | none => simp
    | some parts =>
      have := h.1
      rwa [Text.splitBacktick_append hs ds] at this

theorem sweepBy_eq_self {state : Quoting} {previous : Option Char} {cs : List Char}
    (h : ∀ name ∈ namesIn state previous cs, marks name = []) :
    sweepBy marks state previous cs = cs := by
  induction cs generalizing state previous with
  | nil => rfl
  | cons c cs ih =>
    simp only [namesIn, List.mem_append] at h
    have hm : marksAt marks state previous (c :: cs) = [] := by
      unfold marksAt
      split
      · cases hname : nameAt? previous (c :: cs) with
        | none => rfl
        | some name => exact h name (by simp_all)
      · rfl
    rw [sweepBy, hm, ih fun name hn => h name (Or.inr hn), List.nil_append]

theorem sweep_eq_self {state : Quoting} {previous : Option Char} {cs : List Char}
    (h : ∀ name ∈ namesIn state previous cs, isField name = false) :
    sweep inserted isField state previous cs = cs := by
  rw [sweep_eq_sweepBy]
  exact sweepBy_eq_self fun name hn => by simp [h name hn]

end Sweep

end Columnar
