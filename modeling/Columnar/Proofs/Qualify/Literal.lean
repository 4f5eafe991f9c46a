import Columnar.Expr.Printer
import Columnar.Proofs.Literal.Words
import Columnar.Proofs.Qualify.Idempotent

/-! What qualification leaves of a literal. The search goes through each piece of a text by itself,
and what it changes only grows, so the text of a literal survives exactly when none of its words
outside quotes is a field. -/
namespace Columnar

section Sweep

variable {inserted : List Char} {isField : List Char → Bool}

/-- A pass leaves the state behind a text as it is. -/
theorem after_sweep (hi : Quoting.plain.after inserted = .plain) (state : Quoting)
    (previous : Option Char) (cs : List Char) :
    state.after (sweep inserted isField state previous cs) = state.after cs := by
  induction cs generalizing state previous with
  | nil => rfl
  | cons c cs ih =>
    rw [sweep, markAt]
    split
    · next hmark =>
      obtain ⟨rfl, -⟩ := hmark
      rw [Quoting.after_append, hi, Quoting.after_cons, ih, Quoting.after_cons]
    · rw [List.nil_append, Quoting.after_cons, ih, Quoting.after_cons]

theorem lastOf_sweep (state : Quoting) (previous : Option Char) (cs : List Char) :
    lastOf none (sweep inserted isField state previous cs) = lastOf none cs := by
  rw [lastOf, lastOf, (Grown.sweep isField state previous cs).getLast?_eq]

/-- A pass puts nothing in front of a text that starts without a name. -/
theorem head_sweep {cs : List Char} (h : cs.head?.any opensName = false) :
    (sweep inserted isField .plain none cs).head? = cs.head? := by
  cases cs with
  | nil => rfl
  | cons c cs =>
    simp only [List.head?_cons, Option.any_some, opensName, Bool.or_eq_false_iff,
      beq_eq_false_iff_ne] at h
    simp [sweep, markAt, nameAt?, h.1, h.2]

theorem Apart.sweep {cs ds : List Char} (h : Apart (lastOf none cs) ds) :
    Apart (lastOf none (Columnar.sweep inserted isField .plain none cs))
      (Columnar.sweep inserted isField .plain none ds) := by
  rcases h with h | h
  · exact Or.inl (by rwa [lastOf_sweep])
  · exact Or.inr (by rwa [head_sweep h])

/-- A pass changes nothing only where no name is a field. -/
theorem sweep_eq_self_iff (hne : inserted ≠ []) {state : Quoting} {previous : Option Char}
    {cs : List Char} : sweep inserted isField state previous cs = cs ↔
      ∀ name ∈ namesIn state previous cs, isField name = false := by
  refine ⟨fun h => ?_, sweep_eq_self⟩
  induction cs generalizing state previous with
  | nil => simp [namesIn]
  | cons c cs ih =>
    rw [sweep, markAt] at h
    split at h
    · -- something was inserted, which makes the text longer
      have hlength := congrArg List.length h
      have hgrown : Grown inserted cs (sweep inserted isField (state.step 0 c) (some c) cs) :=
        .sweep _ _ _ _
      have hle := hgrown.length_le
      have hpos := List.length_pos_iff.mpr hne
      simp only [List.length_append, List.length_cons] at hlength
      omega
    · next hmark =>
      intro name hname
      rw [namesIn, List.mem_append] at hname
      rcases hname with hname | hname
      · split at hname
        · next hstate =>
          rw [Option.mem_toList] at hname
          simpa [hstate, hname] using hmark
        · cases hname
      · exact ih (List.cons.inj h).2 name hname

end Sweep

section Names

variable {tableAlias : String} (hAlias : Text.isPlain tableAlias.toList)

include hAlias

theorem after_qualifier : Quoting.plain.after (tableAlias.toList ++ ['.']) = .plain := by
  rw [Quoting.after_append, Quoting.after_of_isWord (Text.isWord_of_isPlain hAlias)]
  rfl

/-- The search goes through two pieces one by one. -/
theorem foldl_qualifyName_append {names : List String}
    (hNames : ∀ name ∈ names, Text.isPlain name.toList) {cs ds : List Char}
    (hclosed : Quoting.plain.after cs = .plain) (hapart : Apart (lastOf none cs) ds) :
    names.foldl (fun body name => qualifyName tableAlias name body) (cs ++ ds) =
      names.foldl (fun body name => qualifyName tableAlias name body) cs ++
        names.foldl (fun body name => qualifyName tableAlias name body) ds := by
  induction names generalizing cs ds with
  | nil => rfl
  | cons name names ih =>
    have hName : Text.isPlain name.toList := hNames name (by simp)
    have hcs := qualifyName_eq_sweep hAlias hName cs
    have hds := qualifyName_eq_sweep hAlias hName ds
    have happend := qualifyName_eq_sweep hAlias hName (cs ++ ds)
    rw [sweep_append hclosed hapart, ← hcs, ← hds] at happend
    rw [List.foldl_cons, List.foldl_cons, List.foldl_cons, happend]
    refine ih (fun other h => hNames other (by simp [h])) ?_ ?_
    · rw [hcs, after_sweep (after_qualifier hAlias), hclosed]
    · rw [hcs, hds]
      exact hapart.sweep

theorem grown_qualifyName {name : String} (hName : Text.isPlain name.toList) (cs : List Char) :
    Grown (tableAlias.toList ++ ['.']) cs (qualifyName tableAlias name cs) := by
  rw [qualifyName_eq_sweep hAlias hName]
  exact .sweep _ _ _ _

theorem length_le_foldl {names : List String} (hNames : ∀ name ∈ names, Text.isPlain name.toList)
    (cs : List Char) : cs.length ≤
      (names.foldl (fun body name => qualifyName tableAlias name body) cs).length := by
  induction names generalizing cs with
  | nil => exact Nat.le_refl _
  | cons name names ih =>
    have hstep := (grown_qualifyName hAlias (hNames name (by simp)) cs).length_le
    exact Nat.le_trans hstep (ih (fun other h => hNames other (by simp [h])) _)

/-- The search changes nothing exactly when it finds nothing: what one name adds, no later name
takes away. -/
theorem foldl_qualifyName_eq_self_iff {names : List String}
    (hNames : ∀ name ∈ names, Text.isPlain name.toList) {cs : List Char} :
    names.foldl (fun body name => qualifyName tableAlias name body) cs = cs ↔
      ∀ found ∈ namesIn .plain none cs, isNamed names found = false := by
  have hne : tableAlias.toList ++ ['.'] ≠ [] := by simp
  induction names with
  | nil => simp [isNamed]
  | cons name names ih =>
    have hRest : ∀ other ∈ names, Text.isPlain other.toList := fun other h =>
      hNames other (by simp [h])
    have hName : Text.isPlain name.toList := hNames name (by simp)
    have hsweep := qualifyName_eq_sweep hAlias hName cs
    have hcons (found : List Char) :
        isNamed (name :: names) found = (isNamed [name] found || isNamed names found) := by
      simp [isNamed]
    rw [List.foldl_cons]
    constructor
    · intro h
      have hfirst : cs = qualifyName tableAlias name cs := by
        refine (grown_qualifyName hAlias hName cs).eq_of_length_le hne ?_
        have hlength := length_le_foldl hAlias hRest (qualifyName tableAlias name cs)
        rwa [h] at hlength
      rw [← hfirst] at h
      rw [← hfirst, eq_comm, sweep_eq_self_iff hne] at hsweep
      intro found hfound
      rw [hcons, hsweep found hfound, (ih hRest).mp h found hfound]
      rfl
    · intro h
      simp only [hcons, Bool.or_eq_false_iff] at h
      rw [hsweep, sweep_eq_self fun found hfound => (h found hfound).1]
      exact (ih hRest).mpr fun found hfound => (h found hfound).2

end Names

/-! A written name closes its quotes, also where a backtick in it is written twice. -/

theorem after_doubleBackticks (cs : List Char) :
    (Quoting.identifier 0).after (Text.doubleBackticks cs) = .identifier 0 := by
  induction cs with
  | nil => rfl
  | cons c cs ih =>
    rw [Text.doubleBackticks]
    split
    · simpa [Quoting.step] using ih
    · next hc => simpa [Quoting.step, hc] using ih

theorem after_quoteIdentifier (name : String) (force : Bool) :
    Quoting.plain.after (Text.quoteIdentifier name force).toList = .plain := by
  unfold Text.quoteIdentifier
  split
  · next h =>
    simp only [Bool.and_eq_true] at h
    exact Quoting.after_of_isWord (Text.isWord_of_isPlain h.2)
  · rw [Text.toList_backquote, List.cons_append, Quoting.after_cons, Quoting.after_append]
    change ((Quoting.identifier 0).after (Text.doubleBackticks name.toList)).after ['\x60'] = .plain
    rw [after_doubleBackticks]
    rfl

theorem after_columnText (force : Bool) (qualifier : Option String) (name : String) :
    Quoting.plain.after (columnText force qualifier name).toList = .plain := by
  cases qualifier with
  | none => exact after_quoteIdentifier name force
  | some q =>
    simp only [columnText, String.toList_append, Quoting.after_append, after_quoteIdentifier]
    change Quoting.plain.after _ = .plain
    exact after_quoteIdentifier name force

/-- What stands in front of the right operand of a comparison. -/
def comparisonFront (force : Bool) (op : BinaryOp) (qualifier : Option String) (name : String) :
    List Char :=
  '(' :: ((columnText force qualifier name).toList ++ ' ' :: (op.symbol.toList ++ [' ']))

theorem after_comparisonFront (force : Bool) (op : BinaryOp) (qualifier : Option String)
    (name : String) : Quoting.plain.after (comparisonFront force op qualifier name) = .plain := by
  have hsymbol : Quoting.plain.after op.symbol.toList = .plain := by cases op <;> rfl
  have hblank : Quoting.plain.step 0 ' ' = .plain := rfl
  have hopen : Quoting.plain.step 0 '(' = .plain := rfl
  simp only [comparisonFront, Quoting.after_cons, hopen, Quoting.after_append, after_columnText,
    hblank, hsymbol, Quoting.after_nil]

theorem toList_comparison (force : Bool) (op : BinaryOp) (qualifier : Option String)
    (name : String) (l : Literal) :
    ((Expr.binary op (.column qualifier name) (.literal l)).text force).toList =
      comparisonFront force op qualifier name ++ (l.text.toList ++ [')']) := by
  simp [Expr.text, comparisonFront]

section Literal

variable {tableAlias : String} {fields : List String} (hAlias : Text.isPlain tableAlias.toList)
  (hFields : ∀ f ∈ fields, Text.isPlain f.toList)

include hFields

/-- The fields among the names of a literal are among its bare words. -/
theorem forall_namesIn_literal (l : Literal) :
    (∀ found ∈ namesIn .plain none l.text.toList, isNamed fields found = false) ↔
      ∀ word ∈ l.bareWords, isNamed fields word.toList = false := by
  have hwords := l.plainNames_text
  constructor
  · intro h word hword
    have hmem : word.toList ∈ plainNames l.text.toList := by
      rw [hwords]
      exact List.mem_map_of_mem hword
    exact h _ (List.mem_filter.mp hmem).1
  · intro h found hfound
    refine Bool.eq_false_iff.mpr fun hnamed => ?_
    have hmem : found ∈ plainNames l.text.toList :=
      List.mem_filter.mpr ⟨hfound, isPlain_of_isNamed hFields hnamed⟩
    rw [hwords] at hmem
    obtain ⟨word, hword, rfl⟩ := List.mem_map.mp hmem
    simp [h word hword] at hnamed

include hAlias

theorem qualify_comparison (force : Bool) (op : BinaryOp) (qualifier : Option String)
    (name : String) (l : Literal) :
    (qualify tableAlias fields
        ((Expr.binary op (.column qualifier name) (.literal l)).text force)).toList =
      (longestFirst fields).foldl (fun body name => qualifyName tableAlias name body)
          (comparisonFront force op qualifier name) ++
        ((longestFirst fields).foldl (fun body name => qualifyName tableAlias name body)
          l.text.toList ++ [')']) := by
  have htext := toList_comparison force op qualifier name l
  have hNames : ∀ f ∈ longestFirst fields, Text.isPlain f.toList := fun f hf =>
    hFields f (mem_longestFirst.mp hf).1
  have hnamed : isNamed fields (Text.trim
      ((Expr.binary op (.column qualifier name) (.literal l)).text force).toList) = false := by
    refine not_isNamed_of_mem hFields (by decide) (Text.mem_trim (c := ')') (by decide) ?_)
    simp [htext]
  have hending : Ending True
      ((Expr.binary op (.column qualifier name) (.literal l)).text force).toList := by
    rw [htext, ← List.append_assoc]
    exact .shut (by decide) (by decide) (by decide)
  have hclose : (longestFirst fields).foldl (fun body name => qualifyName tableAlias name body)
      [')'] = [')'] :=
    (foldl_qualifyName_eq_self_iff hAlias hNames).mpr (by simp [namesIn, nameAt?, Text.isWord])
  have hfront : Apart (lastOf none (comparisonFront force op qualifier name))
      (l.text.toList ++ [')']) := by
    refine Or.inl ?_
    rw [comparisonFront, lastOf_cons, List.append_cons, ← List.append_assoc,
      lastOf_append _ (by simp)]
    decide
  rw [← isNamed_longestFirst hFields, isNamed] at hnamed
  unfold qualify
  dsimp only
  rw [hnamed, if_neg Bool.false_ne_true, hending.splitAlias_eq_none trivial]
  dsimp only [Option.getD_none]
  rw [List.append_nil, String.toList_ofList, htext,
    foldl_qualifyName_append hAlias hNames (after_comparisonFront force op qualifier name) hfront,
    foldl_qualifyName_append hAlias hNames l.closed_text.after_eq (Or.inr rfl), hclose]

/-- A literal on the right of a column survives qualification exactly when no field is one of its
words outside quotes. -/
theorem qualify_literal_iff (force : Bool) (op : BinaryOp) (qualifier : Option String)
    (name : String) : ∃ front : String, ∀ l : Literal,
      qualify tableAlias fields
          ((Expr.binary op (.column qualifier name) (.literal l)).text force) =
        front ++ l.text ++ ")" ↔
      ∀ word ∈ l.bareWords, ∀ f ∈ fields, Text.sameName f word = false := by
  have hNames : ∀ f ∈ longestFirst fields, Text.isPlain f.toList := fun f hf =>
    hFields f (mem_longestFirst.mp hf).1
  refine ⟨String.ofList ((longestFirst fields).foldl
    (fun body name => qualifyName tableAlias name body)
    (comparisonFront force op qualifier name)), fun l => ?_⟩
  have hwords : (∀ word ∈ l.bareWords, ∀ f ∈ fields, Text.sameName f word = false) ↔
      ∀ word ∈ l.bareWords, isNamed fields word.toList = false := by
    simp [isNamed]
  rw [hwords, ← forall_namesIn_literal hFields, ← isNamed_longestFirst hFields,
    ← foldl_qualifyName_eq_self_iff hAlias hNames, ← String.toList_inj,
    qualify_comparison hAlias hFields]
  simp

end Literal

theorem qualify_literal_iff_date :
    Text.isPlain "t".toList = true ∧ (∀ f ∈ ["date", "qty"], Text.isPlain f.toList = true) ∧
    ∃ front : String, ∀ l : Literal,
      qualify "t" ["date", "qty"]
          ((Expr.binary .greaterEqual (.column none "qty") (.literal l)).text false) =
        front ++ l.text ++ ")" ↔
      ∀ word ∈ l.bareWords, ∀ f ∈ ["date", "qty"], Text.sameName f word = false := by
  have hAlias : Text.isPlain "t".toList = true := by decide
  have hFields : ∀ f ∈ ["date", "qty"], Text.isPlain f.toList = true := by decide
  exact ⟨hAlias, hFields, qualify_literal_iff hAlias hFields false .greaterEqual none "qty"⟩

/-- A field that is named like a unit of an interval breaks the interval. -/
theorem qualify_interval_days :
    Text.isPlain "t".toList = true ∧ Text.isPlain "days".toList = true ∧
    (Expr.binary .less (.column none "c") (.literal (.interval ⟨1, 2, 3⟩))).text false =
      "(c < INTERVAL 1 MONTHS 2 DAYS 3 MICROSECONDS)" ∧
    qualify "t" ["days"] "(c < INTERVAL 1 MONTHS 2 DAYS 3 MICROSECONDS)" =
      "(c < INTERVAL 1 MONTHS 2 t.DAYS 3 MICROSECONDS)" ∧
    ¬ ∃ front back : String, qualify "t" ["days"] "(c < INTERVAL 1 MONTHS 2 DAYS 3 MICROSECONDS)" =
      front ++ (Literal.interval ⟨1, 2, 3⟩).text ++ back := by
  have hAlias : Text.isPlain "t".toList = true := by decide
  have hFields : ∀ f ∈ ["days"], Text.isPlain f.toList = true := by decide
  have hOther : ∀ f ∈ ["days"], Text.sameName f "t" = false := by decide
  have hresult : qualify "t" ["days"] "(c < INTERVAL 1 MONTHS 2 DAYS 3 MICROSECONDS)" =
      "(c < INTERVAL 1 MONTHS 2 t.DAYS 3 MICROSECONDS)" := by
    rw [qualify_of_not_isNamed hAlias hFields hOther (by decide) (by decide)]
    decide
  refine ⟨hAlias, hFields _ (by simp), by decide, hresult, ?_⟩
  rintro ⟨front, back, h⟩
  rw [hresult, ← String.toList_inj, String.toList_append, String.toList_append,
    List.append_assoc] at h
  -- the literal would have to stand at one of the first places
  have hplace : front.toList.length < 9 := by
    have hlength := congrArg List.length h
    have hliteral : (Literal.interval ⟨1, 2, 3⟩).text.toList.length = 39 := by decide
    rw [List.length_append, List.length_append, hliteral] at hlength
    have htext : "(c < INTERVAL 1 MONTHS 2 t.DAYS 3 MICROSECONDS)".toList.length = 47 := by decide
    omega
  have hnone : ∀ place < 9, ("(c < INTERVAL 1 MONTHS 2 t.DAYS 3 MICROSECONDS)".toList.drop
      place).take 39 ≠ (Literal.interval ⟨1, 2, 3⟩).text.toList := by decide
  refine hnone _ hplace ?_
  rw [h, List.drop_left]
  exact List.take_left' (by decide)

end Columnar
