import Columnar.Proofs.Column.Evaluation
import Columnar.Proofs.Column.MintedName

/-! The settings that are active after attempts to install others, and the names of parameters under
them. Whatever is active breaks no rule; so the names are plain, and plain names are spelled alike in
the list of parameters and in the body. -/
namespace Columnar

namespace Config

/-- The settings that are active after attempts to install others. -/
def activeAfter (active : Config) (attempts : List Config) : Config :=
  attempts.foldl (fun active candidate => (candidate.install active).2) active

/-- The attempts that are accepted, in order. -/
def accepted (active : Config) : List Config → List Config
  | [] => []
  | candidate :: rest =>
    match candidate.install active with
    | (.ok _, active) => candidate :: accepted active rest
    | (.error _, active) => accepted active rest

variable {c active candidate : Config}

/-- An attempt either breaks no rule and becomes active, or breaks one and changes nothing. -/
theorem install_cases (candidate active : Config) :
    (candidate.IsSound ∧ candidate.install active = (.ok (), candidate)) ∨
      (¬ candidate.IsSound ∧ ∃ broken, candidate.install active = (.error broken, active)) := by
  rw [← isValid_iff, isValid, List.isEmpty_iff, install]
  cases candidate.violations with
  | nil => exact Or.inl ⟨rfl, rfl⟩
  | cons v vs => exact Or.inr ⟨List.cons_ne_nil v vs, v :: vs, rfl⟩

theorem install_eq_ok_iff : (candidate.install active).1 = .ok () ↔ candidate.IsSound := by
  obtain ⟨hsound, h⟩ | ⟨hbroken, _, h⟩ := install_cases candidate active
  · simp [h, hsound]
  · simp [h, hbroken]

theorem install_eq_active (h : (candidate.install active).1 ≠ .ok ()) :
    (candidate.install active).2 = active := by
  obtain ⟨-, hinstall⟩ | ⟨-, _, hinstall⟩ := install_cases candidate active
  · rw [hinstall] at h
    exact absurd rfl h
  · rw [hinstall]

theorem activeAfter_concat (attempts : List Config) :
    activeAfter active (attempts ++ [candidate]) =
      (candidate.install (activeAfter active attempts)).2 := by
  rw [activeAfter, List.foldl_append]
  rfl

theorem isSound_default : IsSound {} := isValid_iff.mp rfl

theorem isSound_activeAfter (h : active.IsSound) (attempts : List Config) :
    (activeAfter active attempts).IsSound := by
  induction attempts generalizing active with
  | nil => exact h
  | cons candidate attempts ih =>
    rw [activeAfter, List.foldl_cons, ← activeAfter]
    obtain ⟨hsound, hinstall⟩ | ⟨-, _, hinstall⟩ := install_cases candidate active
    · rw [hinstall]
      exact ih hsound
    · rw [hinstall]
      exact ih h

theorem activeAfter_eq_accepted (active : Config) (attempts : List Config) :
    activeAfter active attempts = (accepted active attempts).getLast?.getD active := by
  induction attempts generalizing active with
  | nil => rfl
  | cons candidate attempts ih =>
    rw [activeAfter, List.foldl_cons, ← activeAfter, accepted]
    obtain ⟨-, hinstall⟩ | ⟨-, _, hinstall⟩ := install_cases candidate active
    · rw [hinstall, ih, List.getLast?_cons, Option.getD_some]
    · rw [hinstall, ih]

/-- A name as the settings ask for: a plain identifier of the stem, an underscore and the digits that
they say, which as a column is rendered as it is unless they quote every name. -/
structure Mints (c : Config) (name : String) : Prop where
  plain : Text.isPlain name.toList
  eq : ∃ digits, name = c.lambdaPrefix ++ "_" ++ digits ∧
    digits.toList.length = c.lambdaSuffixLength ∧ ∀ d ∈ digits.toList, isLowerHex d
  text_column : c.quoteIdentifiers = false →
    (Expr.column none name).text c.quoteIdentifiers = name

/-- A plain name is rendered as it is. -/
theorem text_column_of_isPlain {name : String} (h : Text.isPlain name.toList) :
    (Expr.column none name).text false = name := by
  change Text.quoteIdentifier name false = name
  simp [Text.quoteIdentifier, h]

theorem mints_name (hc : c.IsSound) {digits : String} (h : IsDigits digits) :
    c.Mints ((LambdaScope.ofConfig c).name digits) := by
  have hplain := (LambdaScope.isName_name h).isPlain (s := .ofConfig c) hc.stem_plain
  refine ⟨hplain, ⟨String.ofList (digits.toList.take c.lambdaSuffixLength), rfl, ?_, ?_⟩, ?_⟩
  · rw [String.toList_ofList, List.length_take, h.1]
    exact Nat.min_eq_left hc.suffix_length.2
  · rw [String.toList_ofList]
    exact fun d hd => h.2 d (List.mem_of_mem_take hd)
  · intro hquote
    rw [hquote]
    exact text_column_of_isPlain hplain

/-- Placeholders that are rendered bare are rendered as the parameters that they stand for. -/
theorem text_placeholders {force : Bool} {inputs : List ColumnType} {names : List String}
    (hlength : names.length = inputs.length)
    (hnames : ∀ name ∈ names, (Expr.column none name).text force = name) :
    (placeholders inputs names).map (fun p => p.expr.text force) = names := by
  rw [placeholders, List.map_zipWith]
  induction names generalizing inputs with
  | nil => exact List.zipWith_nil_right
  | cons name names ih =>
    obtain ⟨t, inputs, rfl⟩ := List.exists_cons_of_length_eq_add_one hlength.symm
    rw [List.zipWith_cons_cons, hnames name List.mem_cons_self,
      ih (Nat.succ.inj hlength) fun name' h => hnames name' (List.mem_cons_of_mem _ h)]

/-- Whatever was attempted, the last settings that were accepted are active, or else the default ones.
What is active breaks no rule, and one more attempt is accepted just if it breaks none and changes
nothing otherwise. So a name that is minted is plain and has as many digits as the settings say; and
unless names are always quoted, the list of parameters of a lambda has the texts of the placeholders
that its body is made with. -/
theorem activeAfter_mints (attempts : List Config) :
    let active := activeAfter {} attempts
    active = (accepted {} attempts).getLast?.getD {} ∧ active.IsSound ∧
      (∀ candidate : Config, ((candidate.install active).1 = .ok () ↔ candidate.IsSound) ∧
        ((candidate.install active).1 ≠ .ok () →
          activeAfter {} (attempts ++ [candidate]) = active)) ∧
      (∀ digits, IsDigits digits → active.Mints ((LambdaScope.ofConfig active).name digits)) ∧
      ∀ digits : Nat → String, (∀ i, IsDigits (digits i)) → active.quoteIdentifiers = false →
        let r := Rendering.ofConfig active digits
        ∀ env inputs output params body n o m,
          ((Term.lambda params body).evalAt r env (.lambda inputs output)).run n = .ok (o, m) →
          ∃ (l : Lambda) (result : Value), o = .lambda l ∧
            l.params.length = inputs.length ∧ (∀ name ∈ l.params, active.Mints name) ∧
            (body.evalAt r (params.zip (placeholders inputs l.params) ++ env)
              (.column output)).run (n + inputs.length) = .ok (.value result, m) ∧
            l.text r.force = "(" ++ ", ".intercalate ((placeholders inputs l.params).map fun p =>
              p.expr.text r.force) ++ ") -> " ++ result.expr.text r.force := by
  intro active
  have hsound : active.IsSound := isSound_activeAfter isSound_default attempts
  have hmints (digits : String) (h : IsDigits digits) :
      active.Mints ((LambdaScope.ofConfig active).name digits) := mints_name hsound h
  refine ⟨activeAfter_eq_accepted {} attempts, hsound, fun candidate => ⟨install_eq_ok_iff, ?_⟩,
    hmints, ?_⟩
  · intro hrejected
    rw [activeAfter_concat]
    exact install_eq_active hrejected
  · intro digits hdigits hquote r env inputs output params body n o m h
    obtain ⟨result, rfl, hbody⟩ := Term.lambda_eq_of_evalAt h
    have hnames : ∀ name ∈ r.namesFrom n inputs.length, active.Mints name := by
      intro name hname
      obtain ⟨i, -, rfl⟩ := List.mem_map.mp hname
      exact hmints _ (hdigits (n + i))
    have hlength : (r.namesFrom n inputs.length).length = inputs.length := by
      rw [Rendering.namesFrom, List.length_map, List.length_range]
    have htexts : (placeholders inputs (r.namesFrom n inputs.length)).map
        (fun p => p.expr.text r.force) = r.namesFrom n inputs.length :=
      text_placeholders hlength fun name hname => (hnames name hname).text_column hquote
    refine ⟨_, result, rfl, hlength, hnames, hbody, ?_⟩
    simp only [Lambda.text, htexts]

/-! Short names, and the predicate whether an item is above zero. -/

def shortNames : Config := { lambdaPrefix := "p", lambdaSuffixLength := 6 }

def orderedDigits (_ : Nat) : String := "0123456789abcdef0123456789abcdef"

def aboveZero : Term := .lambda ["x"] (.apply (.method "gt") [.var "x", .host (.int 0)])

def shortAboveZero : Lambda :=
  ⟨["p_012345"], .binary .greater (.column none "p_012345") (.literal (.integer 0))⟩

theorem isDigits_orderedDigits (i : Nat) : IsDigits (orderedDigits i) := by
  unfold orderedDigits
  exact ⟨rfl, by decide⟩

theorem evalAt_aboveZero :
    (aboveZero.evalAt (.ofConfig shortNames orderedDigits) [] (.lambda [.integer] .boolean)).run 0 =
      .ok (.lambda shortAboveZero, 1) := rfl

/-- Of three attempts the first breaks no rule, and the others change nothing. -/
theorem activeAfter_mints_short :
    let attempts : List Config :=
      [shortNames, { lambdaPrefix := "1bad" }, { lambdaSuffixLength := 100 }]
    activeAfter {} attempts = shortNames ∧ shortNames.Mints "p_012345" ∧
      shortAboveZero.text false = "(p_012345) -> (p_012345 > 0)" ∧
      shortAboveZero.text false = "(" ++ ", ".intercalate ((placeholders [.integer] shortAboveZero.params).map
        fun p => p.expr.text false) ++ ") -> " ++ shortAboveZero.body.text false := by
  intro attempts
  obtain ⟨-, -, -, hmints, hlambda⟩ := activeAfter_mints attempts
  obtain ⟨_, result, hl, -, -, hbody, htext⟩ :=
    hlambda orderedDigits isDigits_orderedDigits rfl [] _ _ _ _ _ _ _ evalAt_aboveZero
  obtain rfl := Operand.lambda.inj hl
  have hresult : shortAboveZero.body = result.expr := by
    obtain ⟨hresult, -⟩ := Prod.mk.inj (Except.ok.inj hbody)
    exact congrArg Value.expr (Operand.value.inj hresult)
  rw [← hresult] at htext
  exact ⟨rfl, hmints (orderedDigits 0) (isDigits_orderedDigits 0), rfl, htext⟩

end Config

end Columnar
