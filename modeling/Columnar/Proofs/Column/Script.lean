import Columnar.Proofs.Column.TwoRuns

/-! Whole scripts. Each step is evaluated with the values of the steps in front of it bound to their
names. Under two supplies a script comes to the same expressions, up to the choice of the supply, and
in each of them a minted name stands where it is a parameter. -/
namespace Columnar

/-- What the steps of a script come to, and the number of the supply that is next. A value is bound to
the name of its step; a step that fails binds nothing and takes no number. -/
def Term.evalSteps (r : Rendering) :
    Environment → Nat → List (String × Term) → List (Except TermError Value) × Nat
  | _, next, [] => ([], next)
  | env, next, (name, t) :: rest =>
    match t.eval r env .anything next with
    | .ok (v, next) =>
      let (results, last) := evalSteps r ((name, v) :: env) next rest
      (.ok v :: results, last)
    | .error e =>
      let (results, last) := evalSteps r env next rest
      (.error e :: results, last)

namespace Supplies

variable {s : Supplies} {bound bound' n : Nat} {a b : String} {e e' : Expr} {env env' : Environment}
  {scope : List Nat} {seen seen' : List String}

/-! Names numbered in order of first appearance. -/

/-- A text with its minted names numbered on from those that are seen. -/
def numberedFrom (s : Supplies) (seen : List String) (a : String) : String :=
  String.ofList (numberNames [s.scope] seen none 0 a.toList).1

/-- The minted names of a text in order of first appearance. -/
def appearing (s : Supplies) (a : String) : List String :=
  (numberNames [s.scope] [] none 0 a.toList).2

/-- An expression with each minted name replaced by its place in the order of first appearance in the
text of the expression. -/
def numberedExpr (s : Supplies) (e : Expr) : Expr :=
  e.mapTexts (s.numberedFrom (s.appearing (e.text s.config.quoteIdentifiers)))

theorem numberNames_renamedText (hdistinct : s.Distinct bound) (h : s.RenamedText bound a b)
    (hseen : List.Forall₂ (s.SameWord bound) seen seen') :
    (numberNames [s.scope] seen' none 0 b.toList).1 =
        (numberNames [s.scope] seen none 0 a.toList).1 ∧
      List.Forall₂ (s.SameWord bound) (numberNames [s.scope] seen none 0 a.toList).2
        (numberNames [s.scope] seen' none 0 b.toList).2 :=
  numberNames_renamed hdistinct h rfl (fun hword => absurd hword (by decide)) hseen

theorem merges_numberedFrom (hdistinct : s.Distinct bound)
    (hseen : List.Forall₂ (s.SameWord bound) seen seen') :
    s.Merges bound (s.numberedFrom seen) (s.numberedFrom seen') := fun h =>
  congrArg String.ofList (numberNames_renamedText hdistinct h hseen).1

theorem numberedExpr_eq (hdistinct : s.Distinct bound) (h : s.RenamedExpr bound e e') :
    s.numberedExpr e' = s.numberedExpr e := by
  have hseen := (numberNames_renamedText hdistinct (h.text s.config.quoteIdentifiers) .nil).2
  exact h.tree (merges_numberedFrom hdistinct hseen)

/-! Runs. -/

/-- Results that are the same error, or values that are the same once minted names are numbered. -/
inductive SameResult (s : Supplies) : Except TermError Value → Except TermError Value → Prop
  | error (e : TermError) : SameResult s (.error e) (.error e)
  | ok {k : Kind} {e e' : Expr} (tree : s.numberedExpr e' = s.numberedExpr e)
    (text : ∀ force, s.numberedFrom [] (e'.text force) = s.numberedFrom [] (e.text force))
    (left : s.Scoped s.leftRun.nameAt [] [.value ⟨k, e⟩])
    (right : s.Scoped s.rightRun.nameAt [] [.value ⟨k, e'⟩]) :
    SameResult s (.ok ⟨k, e⟩) (.ok ⟨k, e'⟩)

inductive AlikeResult (s : Supplies) (bound : Nat) :
    Except TermError Value → Except TermError Value → Prop
  | error (e : TermError) : AlikeResult s bound (.error e) (.error e)
  | ok {v v' : Value} (h : s.AlikeValue bound [] v v') : AlikeResult s bound (.ok v) (.ok v')

/-- Values made in the same way under both supplies are the same once minted names are numbered. -/
theorem AlikeResult.same {r r' : Except TermError Value} (hdistinct : s.Distinct bound)
    (h : s.AlikeResult bound r r') : s.SameResult r r' := by
  cases h with
  | error e => exact .error e
  | @ok v v' h =>
    cases h.renamed with
    | cons ho _ =>
      cases ho with
      | value _ he =>
        refine .ok (numberedExpr_eq hdistinct he) (fun force => ?_) h.scoped_left h.scoped_right
        exact merges_numberedFrom hdistinct .nil (he.text force)

theorem agree_eval {t : Term} (ht : s.FreeTerm t) (hscript : t.IsScript) {p : Param}
    (hp : s.FreeParam p) (henv : s.AlikeEnvironment n scope env env') :
    Agree (fun m => s.AlikeValue m scope) n (t.eval s.leftRun env p n)
      (t.eval s.rightRun env' p n) := by
  have hagree := agree_evalAt t ht hscript hp henv
  unfold Term.eval
  generalize (t.evalAt s.leftRun env p).run n = r, (t.evalAt s.rightRun env' p).run n = r' at hagree
  cases hagree with
  | error e => exact .error e
  | @ok o o' m hle h =>
    have hrenamed := h.renamed
    cases hrenamed with
    | cons ho _ =>
      cases ho with
      | value _ _ => exact .ok hle h
      | lambda _ => exact .error _

/-- Two runs of the same steps: they leave the same number, and their results are alike. -/
structure AlikeRun (s : Supplies) (n : Nat) (r r' : List (Except TermError Value) × Nat) : Prop where
  last : r'.2 = r.2
  le : n ≤ r.2
  results : List.Forall₂ (s.AlikeResult r.2) r.1 r'.1

theorem alikeRun_evalSteps {steps : List (String × Term)}
    (hsteps : ∀ step ∈ steps, step.2.IsScript ∧ s.FreeTerm step.2)
    (henv : s.AlikeEnvironment n [] env env') :
    s.AlikeRun n (Term.evalSteps s.leftRun env n steps) (Term.evalSteps s.rightRun env' n steps) := by
  induction steps generalizing n env env' with
  | nil => exact ⟨rfl, Nat.le_refl n, .nil⟩
  | cons step steps ih =>
    obtain ⟨name, t⟩ := step
    rw [List.forall_mem_cons] at hsteps
    obtain ⟨⟨hscript, ht⟩, hsteps⟩ := hsteps
    have hagree := agree_eval ht hscript (p := .anything) trivial henv
    rw [Term.evalSteps, Term.evalSteps]
    generalize t.eval s.leftRun env .anything n = r, t.eval s.rightRun env' .anything n = r' at hagree
    cases hagree with
    | error e =>
      have hrest := ih hsteps henv
      exact ⟨hrest.last, hrest.le, .cons (.error e) hrest.results⟩
    | @ok v v' m hle h =>
      have hbound : s.AlikeEnvironment m [] ((name, v) :: env) ((name, v') :: env') :=
        .cons ⟨rfl, h⟩ (henv.mono hle (List.Subset.refl []))
      have hrest := ih hsteps hbound
      refine ⟨hrest.last, hle.trans hrest.le, .cons (.ok ?_) hrest.results⟩
      exact h.mono hrest.le (List.Subset.refl [])

/-- A value that a script starts with, without a name of a supply in it. -/
structure FreeValue (s : Supplies) (v : Value) : Prop where
  kind : s.FreeKind v.kind
  expr : s.FreeExpr v.expr

/-- Minted names matter only up to renaming: a script comes to the same results under both supplies,
once minted names are numbered in order of first appearance, and takes as many names from either. -/
theorem evalSteps_sameResult {steps : List (String × Term)}
    (henv : ∀ x ∈ env, s.FreeValue x.2)
    (hsteps : ∀ step ∈ steps, step.2.IsScript ∧ s.FreeTerm step.2)
    (hdistinct : s.Distinct (Term.evalSteps s.leftRun env n steps).2) :
    (Term.evalSteps s.rightRun env n steps).2 = (Term.evalSteps s.leftRun env n steps).2 ∧
      List.Forall₂ s.SameResult (Term.evalSteps s.leftRun env n steps).1
        (Term.evalSteps s.rightRun env n steps).1 := by
  have halike : s.AlikeEnvironment n [] env env :=
    List.forall₂_same.mpr fun x hx =>
      ⟨rfl, .given (henv x hx).kind (FreeExpr.renamed _ (henv x hx).expr)⟩
  have hrun := alikeRun_evalSteps hsteps halike
  exact ⟨hrun.last, hrun.results.imp fun _ _ h => h.same hdistinct⟩

/-! Of each row the items above the size of the row: the inner lambda reads both parameters. -/

def longItems : List (String × Term) :=
  [("rows", .reference (.array (.array .integer)) (.column none "rows")),
    ("long", .apply (.transform (.array .integer)) [.var "rows", .lambda ["row"]
      (.apply (.method "filter") [.var "row", .lambda ["x"]
        (.apply (.method "gt") [.var "x", .apply (.method "size") [.var "row"]])])])]

def digitsFrom (front : List Char) (i : Nat) : String :=
  String.ofList (front.getD i '0' :: List.replicate 31 '0')

theorem isDigits_digitsFrom {front : List Char} (h : ∀ c ∈ front, isLowerHex c) (i : Nat) :
    IsDigits (digitsFrom front i) := by
  have hfront : isLowerHex (front.getD i '0') := by
    rw [List.getD_eq_getElem?_getD]
    cases hi : front[i]? with
    | none => rfl
    | some c => exact h c (List.mem_of_getElem? hi)
  refine ⟨by simp [digitsFrom], fun c hc => ?_⟩
  rw [digitsFrom, String.toList_ofList, List.mem_cons] at hc
  rcases hc with rfl | hc
  · exact hfront
  · rw [List.eq_of_mem_replicate hc]
    rfl

def twoSupplies : Supplies where
  config := {}
  valid := by decide
  first := digitsFrom ['1', '2']
  second := digitsFrom ['d', 'c']
  first_digits := isDigits_digitsFrom (by decide)
  second_digits := isDigits_digitsFrom (by decide)

theorem free_longItems :
    ∀ step ∈ longItems, step.2.IsScript ∧ twoSupplies.FreeTerm step.2 := by
  have hrows : twoSupplies.FreeName "rows" := freeName_of_isUnminted rfl
  have hrow : twoSupplies.FreeType (.array .integer) := nofun
  have htype : twoSupplies.FreeType (.array (.array .integer)) := nofun
  simp [longItems, Term.IsScript, Term.AreScripts, FreeTerm, FreeTerms, FreeExpr, FreeOperation,
    hrows, hrow, htype]

def resultText? : Except TermError Value → Option String
  | .ok v => some (v.expr.text false)
  | .error _ => none

theorem evalSteps_longItems :
    (Term.evalSteps twoSupplies.leftRun [] 0 longItems).1.map resultText? =
        [some "rows", some ("transform(rows, (x_10000000) -> filter(x_10000000, " ++
          "(x_20000000) -> (x_20000000 > size(x_10000000))))")] ∧
      (Term.evalSteps twoSupplies.rightRun [] 0 longItems).1.map resultText? =
        [some "rows", some ("transform(rows, (x_d0000000) -> filter(x_d0000000, " ++
          "(x_c0000000) -> (x_c0000000 > size(x_d0000000))))")] ∧
      List.Forall₂ twoSupplies.SameResult (Term.evalSteps twoSupplies.leftRun [] 0 longItems).1
        (Term.evalSteps twoSupplies.rightRun [] 0 longItems).1 := by
  have hdistinct : twoSupplies.Distinct (Term.evalSteps twoSupplies.leftRun [] 0 longItems).2 := by
    constructor <;> decide
  exact ⟨rfl, rfl, (evalSteps_sameResult (List.forall_mem_nil _) free_longItems hdistinct).2⟩

end Supplies

end Columnar
