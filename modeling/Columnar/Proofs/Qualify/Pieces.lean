import Mathlib.Data.List.TakeWhile
import Columnar.Proofs.Qualify.Sweep
import Columnar.Proofs.Text.Word

/-! A pass over a text that is put together from pieces. A piece that closes its quotes is swept by
itself, unless a name or a dot at its end runs into the next piece. -/
namespace Columnar

/-- A character that a name can start with. -/
def opensName (c : Char) : Bool := c == '\x60' || Text.isWord c

/-- A text reads the same behind the character `previous` as at the start. -/
def Apart (previous : Option Char) (cs : List Char) : Prop :=
  previous.any bindsNext = false ∨ cs.head?.any opensName = false

section Append

variable {inserted : List Char} {isField : List Char → Bool} {previous : Option Char}

theorem nameAt?_of_apart {cs : List Char} (h : Apart previous cs) :
    nameAt? previous cs = nameAt? none cs := by
  cases cs with
  | nil => rfl
  | cons c cs =>
    rcases h with h | h
    · cases previous with
      | none => rfl
      | some p =>
        simp only [Option.any_some, bindsNext, Bool.or_eq_false_iff, beq_eq_false_iff_ne] at h
        simp [nameAt?, h.1, h.2]
    · simp only [List.head?_cons, Option.any_some, opensName, Bool.or_eq_false_iff,
        beq_eq_false_iff_ne] at h
      simp [nameAt?, h.1, h.2]

theorem sweep_of_apart {state : Quoting} {cs : List Char} (h : Apart previous cs) :
    sweep inserted isField state previous cs = sweep inserted isField state none cs := by
  cases cs with
  | nil => rfl
  | cons c cs => simp only [sweep, markAt, nameAt?_of_apart h]

theorem namesIn_of_apart {state : Quoting} {cs : List Char} (h : Apart previous cs) :
    namesIn state previous cs = namesIn state none cs := by
  cases cs with
  | nil => rfl
  | cons c cs => simp only [namesIn, nameAt?_of_apart h]

theorem quotesApart_of_apart {state : Quoting} {cs : List Char} (h : Apart previous cs) :
    quotesApart state previous cs = quotesApart state none cs := by
  cases cs with
  | nil => rfl
  | cons c cs =>
    rcases h with h | h
    · cases previous with
      | none => rfl
      | some p =>
        simp only [Option.any_some, bindsNext, Bool.or_eq_false_iff] at h
        simp [quotesApart, h.2]
    · simp only [List.head?_cons, Option.any_some, opensName, Bool.or_eq_false_iff] at h
      simp [quotesApart, h.1]

/-- An identifier that is closed somewhere is split there. -/
theorem exists_splitBacktick {cs : List Char} (h : (Quoting.identifier 0).after cs = .plain) :
    ∃ parts, Text.splitBacktick cs = some parts := by
  induction cs with
  | nil => cases h
  | cons c cs ih =>
    rw [Text.splitBacktick]
    split
    · exact ⟨_, rfl⟩
    · next hc =>
      rw [Quoting.after_cons, Quoting.step, if_neg hc] at h
      obtain ⟨parts, hparts⟩ := ih h
      simp [hparts]

/-- The character in front of what follows a text. -/
def lastOf (previous : Option Char) (cs : List Char) : Option Char := cs.getLast?.or previous

@[simp] theorem lastOf_nil : lastOf previous [] = previous := rfl

@[simp] theorem lastOf_cons (c : Char) (cs : List Char) :
    lastOf previous (c :: cs) = lastOf (some c) cs := by
  simp only [lastOf, List.getLast?_cons, Option.some_or]
  cases cs.getLast? <;> rfl

theorem lastOf_append (cs : List Char) {ds : List Char} (h : ds ≠ []) :
    lastOf previous (cs ++ ds) = lastOf none ds := by
  simp [lastOf, List.getLast?_eq_some_getLast h]

/-- A maximal run of word characters ends within a text that is apart from what follows it. -/
theorem takeWhile_append_of_apart {c : Char} {cs ds : List Char} (hc : Text.isWord c)
    (h : Apart (lastOf (some c) cs) ds) :
    (cs ++ ds).takeWhile Text.isWord = cs.takeWhile Text.isWord := by
  induction cs generalizing c with
  | nil =>
    cases ds with
    | nil => rfl
    | cons d ds =>
      have hd : Text.isWord d = false := by
        rcases h with h | h
        · simp [bindsNext, hc] at h
        · simp only [List.head?_cons, Option.any_some, opensName, Bool.or_eq_false_iff] at h
          exact h.2
      simp [hd]
  | cons d cs ih =>
    by_cases hd : Text.isWord d
    · rw [lastOf_cons] at h
      simp [hd, ih hd h]
    · simp [hd]

theorem nameAt?_append {c : Char} {cs ds : List Char}
    (hclosed : (Quoting.plain.step 0 c).after cs = .plain)
    (hapart : Apart (lastOf (some c) cs) ds) :
    nameAt? previous (c :: (cs ++ ds)) = nameAt? previous (c :: cs) := by
  unfold nameAt?
  by_cases hc : c = '\x60'
  · subst hc
    obtain ⟨⟨inner, rest⟩, hparts⟩ := exists_splitBacktick hclosed
    simp [hparts, Text.splitBacktick_append hparts ds]
  · by_cases hw : Text.isWord c
    · simp [hc, hw, takeWhile_append_of_apart hw hapart]
    · simp [hc, hw]

/-- A pass over two pieces is a pass over each. -/
theorem sweep_append {state : Quoting} {cs ds : List Char} (hclosed : state.after cs = .plain)
    (hapart : Apart (lastOf previous cs) ds) :
    sweep inserted isField state previous (cs ++ ds) =
      sweep inserted isField state previous cs ++ sweep inserted isField .plain none ds := by
  induction cs generalizing state previous with
  | nil =>
    obtain rfl : state = .plain := hclosed
    exact sweep_of_apart hapart
  | cons c cs ih =>
    rw [lastOf_cons] at hapart
    have hmark : markAt inserted isField state previous (c :: (cs ++ ds)) =
        markAt inserted isField state previous (c :: cs) := by
      by_cases hs : state = .plain
      · subst hs
        simp only [markAt, nameAt?_append hclosed hapart]
      · rw [markAt_of_ne_plain hs, markAt_of_ne_plain hs]
    rw [List.cons_append, sweep, sweep, hmark, ih hclosed hapart]
    simp

theorem namesIn_append {state : Quoting} {cs ds : List Char} (hclosed : state.after cs = .plain)
    (hapart : Apart (lastOf previous cs) ds) :
    namesIn state previous (cs ++ ds) = namesIn state previous cs ++ namesIn .plain none ds := by
  induction cs generalizing state previous with
  | nil =>
    obtain rfl : state = .plain := hclosed
    exact namesIn_of_apart hapart
  | cons c cs ih =>
    rw [lastOf_cons] at hapart
    have hname : state = .plain →
        nameAt? previous (c :: (cs ++ ds)) = nameAt? previous (c :: cs) := by
      rintro rfl
      exact nameAt?_append hclosed hapart
    rw [List.cons_append, namesIn, namesIn, ih hclosed hapart, List.append_assoc]
    congr 1
    split
    · next hs => rw [hname hs]
    · rfl

theorem quotesApart_append {state : Quoting} {cs ds : List Char} (hclosed : state.after cs = .plain)
    (hapart : Apart (lastOf previous cs) ds) :
    quotesApart state previous (cs ++ ds) =
      (quotesApart state previous cs && quotesApart .plain none ds) := by
  induction cs generalizing state previous with
  | nil =>
    obtain rfl : state = .plain := hclosed
    simpa [quotesApart] using quotesApart_of_apart hapart
  | cons c cs ih =>
    rw [lastOf_cons] at hapart
    have hsplit : state = .plain ∧ c = '\x60' →
        (Text.splitBacktick (cs ++ ds)).isSome = (Text.splitBacktick cs).isSome := by
      rintro ⟨rfl, rfl⟩
      obtain ⟨⟨inner, rest⟩, hparts⟩ := exists_splitBacktick hclosed
      rw [hparts, Text.splitBacktick_append hparts ds]
      rfl
    rw [List.cons_append, quotesApart, quotesApart, ih hclosed hapart]
    by_cases hopen : state = .plain ∧ c = '\x60'
    · rw [hsplit hopen]
      simp only [Bool.and_assoc]
    · have hno : (state == .plain && c == '\x60') = false := by simpa using hopen
      simp [hno]

end Append

/-- A piece of text that closes its quotes and opens none behind a word character. -/
structure Closed (cs : List Char) : Prop where
  after_eq : Quoting.plain.after cs = .plain
  apart : quotesApart .plain none cs

instance (cs : List Char) : Decidable (Closed cs) :=
  decidable_of_iff (Quoting.plain.after cs = .plain ∧ quotesApart .plain none cs)
    ⟨fun h => ⟨h.1, h.2⟩, fun h => ⟨h.1, h.2⟩⟩

/-- A character that neither opens nor closes quotes. -/
def isInert (c : Char) : Bool := c != '\'' && c != '\x60' && c != '\\'

theorem isInert_of_isWord {c : Char} (h : Text.isWord c) : isInert c := by
  simp only [isInert, Bool.and_eq_true, bne_iff_ne]
  refine ⟨⟨?_, ?_⟩, ?_⟩
  all_goals
    rintro rfl
    exact absurd h (by decide)

theorem Closed.append {cs ds : List Char} (h : Closed cs) (h' : Closed ds)
    (hapart : Apart (lastOf none cs) ds) : Closed (cs ++ ds) where
  after_eq := by rw [Quoting.after_append, h.after_eq, h'.after_eq]
  apart := by rw [quotesApart_append h.after_eq hapart, h.apart, h'.apart]; rfl

/-- A closed piece that can stand in front of any other: it ends neither inside a name nor with a
dot. -/
structure Leads (cs : List Char) : Prop where
  closed : Closed cs
  last : (lastOf none cs).any bindsNext = false

instance (cs : List Char) : Decidable (Leads cs) :=
  decidable_of_iff (Closed cs ∧ (lastOf none cs).any bindsNext = false)
    ⟨fun h => ⟨h.1, h.2⟩, fun h => ⟨h.1, h.2⟩⟩

/-- A closed piece that can stand behind any other: it does not start with a name. -/
structure Trails (cs : List Char) : Prop where
  closed : Closed cs
  head : cs.head?.any opensName = false

instance (cs : List Char) : Decidable (Trails cs) :=
  decidable_of_iff (Closed cs ∧ cs.head?.any opensName = false)
    ⟨fun h => ⟨h.1, h.2⟩, fun h => ⟨h.1, h.2⟩⟩

theorem Closed.behind {front cs : List Char} (h : Closed cs) (hfront : Leads front) :
    Closed (front ++ cs) :=
  hfront.closed.append h (Or.inl hfront.last)

theorem Closed.ended {cs back : List Char} (h : Closed cs) (hback : Trails back) :
    Closed (cs ++ back) :=
  h.append hback.closed (Or.inr hback.head)

/-- What can stand on both sides of other pieces leads with anything in front of it. -/
theorem Leads.append {cs ds : List Char} (hcs : Closed cs) (hds : Leads ds) (hback : Trails ds)
    (hne : ds ≠ []) : Leads (cs ++ ds) where
  closed := hcs.ended hback
  last := by rw [lastOf_append cs hne, hds.last]

theorem Closed.of_isInert {cs : List Char} (h : ∀ c ∈ cs, isInert c) : Closed cs := by
  have hall : ∀ previous, Quoting.plain.after cs = .plain ∧ quotesApart .plain previous cs := by
    induction cs with
    | nil => exact fun _ => ⟨rfl, rfl⟩
    | cons c cs ih =>
      intro previous
      have hc : isInert c := h c (by simp)
      simp only [isInert, Bool.and_eq_true, bne_iff_ne] at hc
      obtain ⟨hafter, hapart⟩ := ih (fun d hd => h d (by simp [hd])) (some c)
      have hstep : Quoting.plain.step 0 c = .plain := by simp [Quoting.step, hc]
      rw [Quoting.after_cons, quotesApart, hstep]
      exact ⟨hafter, by simp [hc, hapart]⟩
  exact ⟨(hall none).1, (hall none).2⟩

/-- Characters that leave quotes as they are end outside quotes only when they start there. -/
theorem eq_plain_of_after {state : Quoting} {cs : List Char} (hcs : ∀ c ∈ cs, isInert c)
    (h : state.after cs = .plain) : state = .plain := by
  induction cs generalizing state with
  | nil => exact h
  | cons c cs ih =>
    have hc : isInert c := hcs c (by simp)
    simp only [isInert, Bool.and_eq_true, bne_iff_ne] at hc
    have hstep := ih (fun d hd => hcs d (by simp [hd])) h
    cases state with
    | plain => rfl
    | literal => simp [Quoting.step, hc] at hstep
    | escaped => cases hstep
    | identifier opened => simp [Quoting.step, hc] at hstep

/-- An escaped character is itself, and no mark of a literal, or a pair with a backslash. -/
theorem escapeChar_cases (c : Char) :
    (Text.escapeChar c = [c] ∧ c ≠ '\'' ∧ c ≠ '\\') ∨ ∃ d, Text.escapeChar c = ['\\', d] := by
  unfold Text.escapeChar
  split
  any_goals exact Or.inr ⟨_, rfl⟩
  next hslash hquote _ _ _ => exact Or.inl ⟨rfl, hquote, hslash⟩

/-- A text that can stand inside a string literal: it neither closes the literal nor ends in the
middle of an escape. -/
structure InLiteral (cs : List Char) : Prop where
  after_eq : Quoting.literal.after cs = .literal
  apart : ∀ previous rest, quotesApart .literal none rest →
    quotesApart .literal previous (cs ++ rest)
  names : ∀ previous rest, namesIn .literal previous (cs ++ rest) = namesIn .literal none rest

namespace InLiteral

theorem quotesApart_literal (previous : Option Char) (cs : List Char) :
    quotesApart .literal previous cs = quotesApart .literal none cs := by
  cases cs <;> rfl

theorem namesIn_literal (previous : Option Char) (cs : List Char) :
    namesIn .literal previous cs = namesIn .literal none cs := by
  cases cs <;> rfl

theorem nil : InLiteral [] :=
  ⟨rfl, fun previous rest h => by rwa [quotesApart_literal] at h ⊢, namesIn_literal⟩

theorem append {cs ds : List Char} (h : InLiteral cs) (h' : InLiteral ds) :
    InLiteral (cs ++ ds) where
  after_eq := by rw [Quoting.after_append, h.after_eq, h'.after_eq]
  apart := by
    intro previous rest hrest
    rw [List.append_assoc]
    exact h.apart _ _ (h'.apart _ _ hrest)
  names := by
    intro previous rest
    rw [List.append_assoc, h.names, h'.names]

theorem char {c : Char} (hquote : c ≠ '\'') (hslash : c ≠ '\\') : InLiteral [c] where
  after_eq := by simp [Quoting.step, hquote, hslash]
  apart := by
    intro previous rest hrest
    simpa [quotesApart, Quoting.step, hquote, hslash, quotesApart_literal (some c)] using hrest
  names := by
    intro previous rest
    simp [namesIn, Quoting.step, hquote, hslash, namesIn_literal (some c)]

theorem escape (c : Char) : InLiteral ['\\', c] where
  after_eq := by simp [Quoting.step]
  apart := by
    intro previous rest hrest
    simpa [quotesApart, Quoting.step, quotesApart_literal (some c)] using hrest
  names := by
    intro previous rest
    simp [namesIn, Quoting.step, namesIn_literal (some c)]

theorem flatMap_escapeChar (cs : List Char) : InLiteral (cs.flatMap Text.escapeChar) := by
  induction cs with
  | nil => exact nil
  | cons c cs ih =>
    rw [List.flatMap_cons]
    refine append ?_ ih
    rcases escapeChar_cases c with ⟨hself, hquote, hslash⟩ | ⟨d, hpair⟩
    · rw [hself]
      exact char hquote hslash
    · rw [hpair]
      exact escape d

theorem of_isInert {cs : List Char} (h : ∀ c ∈ cs, isInert c) : InLiteral cs := by
  induction cs with
  | nil => exact nil
  | cons c cs ih =>
    have hc : isInert c := h c (by simp)
    simp only [isInert, Bool.and_eq_true, bne_iff_ne] at hc
    exact (char hc.1.1 hc.2).append (ih fun d hd => h d (by simp [hd]))

theorem closed {cs : List Char} (h : InLiteral cs) : Closed ('\'' :: cs ++ ['\'']) where
  after_eq := by
    rw [List.cons_append, Quoting.after_cons, Quoting.after_append]
    change (Quoting.literal.after cs).after ['\''] = .plain
    rw [h.after_eq]
    rfl
  apart := h.apart _ _ rfl

/-- No name is inside of a string literal. -/
theorem namesIn_eq_nil {cs : List Char} (h : InLiteral cs) (previous : Option Char) :
    namesIn .plain previous ('\'' :: cs ++ ['\'']) = [] := by
  have hquote : nameAt? previous ('\'' :: (cs ++ ['\''])) = none := by
    simp [nameAt?, Text.isWord]
  rw [List.cons_append, namesIn, hquote]
  change namesIn .literal (some '\'') (cs ++ ['\'']) = []
  rw [h.names]
  rfl

end InLiteral

theorem closed_quoteString (s : String) : Closed (Text.quoteString s).toList := by
  rw [Text.toList_quoteString]
  exact (InLiteral.flatMap_escapeChar s.toList).closed

theorem after_identifier {cs : List Char} (h : '\x60' ∉ cs) :
    (Quoting.identifier 0).after cs = .identifier 0 := by
  induction cs with
  | nil => rfl
  | cons c cs ih =>
    simp only [List.mem_cons, not_or] at h
    rw [Quoting.after_cons, Quoting.step, if_neg (Ne.symm h.1), ih h.2]

theorem quotesApart_identifier {previous : Option Char} {cs : List Char} (h : '\x60' ∉ cs) :
    quotesApart (.identifier 0) previous (cs ++ ['\x60']) := by
  induction cs generalizing previous with
  | nil => rfl
  | cons c cs ih =>
    simp only [List.mem_cons, not_or] at h
    simp [quotesApart, Quoting.step, Ne.symm h.1, ih h.2]

theorem closed_quoteIdentifier {name : String} (h : '\x60' ∉ name.toList) :
    Closed (Text.quoteIdentifier name false).toList := by
  rw [Text.toList_quoteIdentifier h]
  split
  · next hplain =>
    exact Closed.of_isInert fun c hc => isInert_of_isWord (Text.isWord_of_isPlain hplain c hc)
  · refine ⟨?_, ?_⟩
    · change ((Quoting.identifier 0).after (name.toList ++ ['\x60'])) = .plain
      rw [Quoting.after_append, after_identifier h]
      rfl
    · change (_ && quotesApart (.identifier 0) (some '\x60') (name.toList ++ ['\x60'])) = true
      rw [quotesApart_identifier h]
      simp

section Names

variable {inserted : List Char} {isField : List Char → Bool}

/-- Within a word no other name starts. -/
theorem namesIn_behind_word {previous : Char} (hp : Text.isWord previous) {cs : List Char}
    (h : ∀ c ∈ cs, Text.isWord c) : namesIn .plain (some previous) cs = [] := by
  induction cs generalizing previous with
  | nil => rfl
  | cons c cs ih =>
    have hc : Text.isWord c := h c (by simp)
    rw [namesIn, step_plain_of_isWord hc, ih hc fun d hd => h d (by simp [hd]),
      nameAt?_behind_word hp (isWord_ne_backtick hc)]
    rfl

theorem namesIn_identifier {previous : Option Char} {cs : List Char} (h : '\x60' ∉ cs) :
    namesIn (.identifier 0) previous (cs ++ ['\x60']) = [] := by
  induction cs generalizing previous with
  | nil => rfl
  | cons c cs ih =>
    simp only [List.mem_cons, not_or] at h
    have hstep : (Quoting.identifier 0).step 0 c = .identifier 0 := by
      simp [Quoting.step, Ne.symm h.1]
    rw [List.cons_append, namesIn, hstep, ih h.2]
    rfl

/-- A plain word is the one name in it. -/
theorem nameAt?_word {cs : List Char} (h : Text.isPlain cs) : nameAt? none cs = some cs := by
  have hword := Text.isWord_of_isPlain h
  obtain ⟨c, rest, rfl⟩ := List.exists_cons_of_ne_nil (Text.ne_nil_of_isPlain h)
  have hc : Text.isWord c := hword c (by simp)
  simp [nameAt?, isWord_ne_backtick hc, hc, List.takeWhile_eq_self_iff.mpr hword]

theorem namesIn_word {cs : List Char} (h : Text.isPlain cs) : namesIn .plain none cs = [cs] := by
  have hword := Text.isWord_of_isPlain h
  have hfirst := nameAt?_word h
  obtain ⟨c, rest, rfl⟩ := List.exists_cons_of_ne_nil (Text.ne_nil_of_isPlain h)
  have hc : Text.isWord c := hword c (by simp)
  rw [namesIn, step_plain_of_isWord hc, hfirst,
    namesIn_behind_word hc fun d hd => hword d (by simp [hd])]
  simp

/-- A pass over a plain word looks at the word once. -/
theorem sweep_word {cs : List Char} (h : Text.isPlain cs) :
    sweep inserted isField .plain none cs = (if isField cs then inserted else []) ++ cs := by
  have hword := Text.isWord_of_isPlain h
  have hfirst := nameAt?_word h
  obtain ⟨c, rest, rfl⟩ := List.exists_cons_of_ne_nil (Text.ne_nil_of_isPlain h)
  have hc : Text.isWord c := hword c (by simp)
  have hrest : ∀ d ∈ rest, Text.isWord d := fun d hd => hword d (by simp [hd])
  rw [sweep, step_plain_of_isWord hc, sweep_eq_self (by simp [namesIn_behind_word hc hrest])]
  simp [markAt, hfirst]

theorem sweep_ticked {cs : List Char} (h : '\x60' ∉ cs) :
    sweep inserted isField .plain none ('\x60' :: cs ++ ['\x60']) =
      (if isField cs then inserted else []) ++ ('\x60' :: cs ++ ['\x60']) := by
  have hsplit : Text.splitBacktick (cs ++ ['\x60']) = some (cs, []) :=
    Text.splitBacktick_eq_some_iff.mpr ⟨rfl, h⟩
  have hfirst : nameAt? none ('\x60' :: (cs ++ ['\x60'])) = some cs := by
    simp [nameAt?, hsplit]
  have hrest : sweep inserted isField (Quoting.plain.step 0 '\x60') (some '\x60')
      (cs ++ ['\x60']) = cs ++ ['\x60'] := by
    apply sweep_eq_self
    change ∀ found ∈ namesIn (.identifier 0) (some '\x60') (cs ++ ['\x60']), _
    rw [namesIn_identifier h]
    simp
  rw [List.cons_append, sweep, hrest]
  simp [markAt, hfirst]

/-- A pass over a written name looks at the name once. -/
theorem sweep_quoteIdentifier {name : String} (h : '\x60' ∉ name.toList) :
    sweep inserted isField .plain none (Text.quoteIdentifier name false).toList =
      (if isField name.toList then inserted else []) ++
        (Text.quoteIdentifier name false).toList := by
  rw [Text.toList_quoteIdentifier h]
  split
  · next hplain => exact sweep_word hplain
  · exact sweep_ticked h

end Names

/-- How the pieces of an expression go together: the text `cs`, the text `ds` with its fields
qualified, and the text `es` without its fields. When no name outside the fields is taken for a
field, a pass over the first text is the second. -/
structure Renders (inserted : List Char) (isField : List Char → Bool) (cs ds es : List Char) :
    Prop where
  closed : Closed cs
  closed_erased : Closed es
  sweep_eq : (∀ name ∈ namesIn .plain none es, isField name = false) →
    sweep inserted isField .plain none cs = ds

namespace Renders

variable {inserted : List Char} {isField : List Char → Bool} {cs ds es cs' ds' es' : List Char}

theorem refl (h : Closed cs) : Renders inserted isField cs cs cs := ⟨h, h, sweep_eq_self⟩

theorem append (h : Renders inserted isField cs ds es) (h' : Renders inserted isField cs' ds' es')
    (hapart : Apart (lastOf none cs) cs') (herased : Apart (lastOf none es) es') :
    Renders inserted isField (cs ++ cs') (ds ++ ds') (es ++ es') where
  closed := h.closed.append h'.closed hapart
  closed_erased := h.closed_erased.append h'.closed_erased herased
  sweep_eq := by
    intro hnames
    rw [namesIn_append h.closed_erased.after_eq herased] at hnames
    rw [sweep_append h.closed.after_eq hapart,
      h.sweep_eq fun name hn => hnames name (List.mem_append_left _ hn),
      h'.sweep_eq fun name hn => hnames name (List.mem_append_right _ hn)]

theorem behind (h : Renders inserted isField cs ds es) {front : List Char} (hfront : Leads front) :
    Renders inserted isField (front ++ cs) (front ++ ds) (front ++ es) :=
  (refl hfront.closed).append h (Or.inl hfront.last) (Or.inl hfront.last)

/-- Behind an expression goes what does not start with a name. -/
theorem before (h : Renders inserted isField cs ds es)
    (h' : Renders inserted isField cs' ds' es') (hhead : cs'.head?.any opensName = false)
    (herased : es'.head?.any opensName = false) :
    Renders inserted isField (cs ++ cs') (ds ++ ds') (es ++ es') :=
  h.append h' (Or.inr hhead) (Or.inr herased)

theorem ended (h : Renders inserted isField cs ds es) {back : List Char} (hback : Trails back) :
    Renders inserted isField (cs ++ back) (ds ++ back) (es ++ back) :=
  h.before (refl hback.closed) hback.head hback.head

/-- An expression between two fixed pieces. -/
theorem enclosed (h : Renders inserted isField cs ds es) (front back : String)
    (hfront : Leads front.toList) (hback : Trails back.toList) :
    Renders inserted isField (front.toList ++ (cs ++ back.toList))
      (front.toList ++ (ds ++ back.toList)) (front.toList ++ (es ++ back.toList)) :=
  (h.ended hback).behind hfront

end Renders

end Columnar
