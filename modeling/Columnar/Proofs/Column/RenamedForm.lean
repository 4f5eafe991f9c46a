import Columnar.Column.Form
import Columnar.Proofs.Column.RenamedExpr
import Columnar.Proofs.Literal.Host

/-! What a form makes of operands that differ in the choice of the supply alone. The forms of a script
carry names, texts and types of the script or of the program, in which no name of a supply
occurs. -/
namespace Columnar

namespace Supplies

variable {s : Supplies} {bound bound' : Nat} {e e' : Expr} {es es' : List Expr}

/-- Lambdas that differ in the choice of the supply alone. -/
structure RenamedLambda (s : Supplies) (bound : Nat) (l l' : Lambda) : Prop where
  params : s.RenamedTexts bound l.params l'.params
  body : s.RenamedExpr bound l.body l'.body

theorem RenamedLambda.text {l l' : Lambda} (h : s.RenamedLambda bound l l') (force : Bool) :
    s.RenamedText bound (l.text force) (l'.text force) :=
  ((h.params.intercalate ", " (by decide)).behind "(" (by decide)).joined ") -> " (by decide) (h.body.text force)

/-- A form whose own names, texts, literals and types have no name of a supply in them. -/
def FreeForm (s : Supplies) : Form → Prop
  | .constant e => s.RenamedExpr 0 e e
  | .call function leading => s.Fixed function ∧ ∀ l ∈ leading, s.Fixed l.text
  | .cast type => s.Fixed type.text
  | .rename n | .field n | .withField n => s.FreeName n
  | .migrate plan => (∀ n ∈ plan.added, s.FreeName n) ∧ ∀ n ∈ plan.dropped, s.FreeName n
  | .struct names | .copy names => ∀ n ∈ names, s.FreeName n
  | .generator function | .template function => s.Fixed function
  | .collection function type => s.Fixed function ∧ s.Fixed type.text
  | _ => True

/-! The parts that forms are made of. -/

theorem FreeName.column {n : String} (h : s.FreeName n) :
    s.RenamedExpr bound (.column none n) (.column none n) :=
  .column h.renamed fun force => (h.identifier force).renamed

theorem renamedExprs_namedFields {names : List String} (hnames : ∀ n ∈ names, s.FreeName n)
    (h : s.RenamedExprs bound es es') :
    s.RenamedExprs bound (Form.namedFields names es) (Form.namedFields names es') := by
  induction h generalizing names with
  | nil => cases names <;> exact .nil
  | cons he _ ih =>
    cases names with
    | nil => exact .nil
    | cons n names =>
      rw [List.forall_mem_cons] at hnames
      exact .cons (.literal_of_fixed hnames.1.quoted) (.cons he (ih hnames.2))

theorem renamedExprs_map {α : Type} {as : List α} {f f' : α → Expr}
    (h : ∀ a ∈ as, s.RenamedExpr bound (f a) (f' a)) :
    s.RenamedExprs bound (as.map f) (as.map f') :=
  List.forall₂_map_left_iff.mpr (List.forall₂_map_right_iff.mpr (List.forall₂_same.mpr h))

theorem mem_of_mem_distinct {seen : List Expr} (h : e ∈ Form.distinct seen es) : e ∈ es := by
  induction es generalizing seen with
  | nil => cases h
  | cons a es ih =>
    rw [Form.distinct] at h
    split at h
    · exact List.mem_cons_of_mem _ (ih h)
    · rcases List.mem_cons.mp h with rfl | h
      · exact List.mem_cons_self
      · exact List.mem_cons_of_mem _ (ih h)

theorem renamedBranches_branches : ∀ {es es' : List Expr}, s.RenamedExprs bound es es' →
    s.RenamedBranches bound (Form.branches es).1 (Form.branches es').1 ∧
      Option.Rel (s.RenamedExpr bound) (Form.branches es).2 (Form.branches es').2
  | [], [], .nil => ⟨.nil, .none⟩
  | [_], [_], .cons he .nil => ⟨.nil, .some he⟩
  | _ :: _ :: _, _ :: _ :: _, .cons hcondition (.cons hvalue hrest) =>
    ⟨.cons ⟨hcondition, hvalue⟩ (renamedBranches_branches hrest).1,
      (renamedBranches_branches hrest).2⟩

theorem renamedExprs_windowOf (parts : List WindowPart) (h : s.RenamedExprs bound es es') :
    s.RenamedExprs bound (Form.windowOf parts es).1 (Form.windowOf parts es').1 ∧
      s.RenamedExprs bound (Form.windowOf parts es).2.1 (Form.windowOf parts es').2.1 ∧
      (Form.windowOf parts es').2.2 = (Form.windowOf parts es).2.2 := by
  induction parts generalizing es es' with
  | nil => exact ⟨.nil, .nil, rfl⟩
  | cons part parts ih =>
    cases part with
    | partition =>
      cases h with
      | nil => exact ⟨.nil, .nil, rfl⟩
      | cons he hes => exact ⟨.cons he (ih hes).1, (ih hes).2⟩
    | order =>
      cases h with
      | nil => exact ⟨.nil, .nil, rfl⟩
      | cons he hes => exact ⟨(ih hes).1, .cons he (ih hes).2.1, (ih hes).2.2⟩
    | frame span =>
      exact ⟨(ih h).1, (ih h).2.1, by simp only [Form.windowOf, (ih h).2.2]⟩

/-- The literal of a key is the same under both supplies. -/
theorem renamedExpr_keyLiteral (key : Leaf) (h : s.RenamedExpr bound e e') :
    s.RenamedExpr bound (.literal (Form.keyLiteral key e)) (.literal (Form.keyLiteral key e')) := by
  have hkey : Form.keyLiteral key e' = Form.keyLiteral key e := by
    rw [Form.keyLiteral, Form.keyLiteral, h.literal]
  rw [hkey]
  refine .literal_of_fixed ?_
  unfold Form.keyLiteral
  split
  · next v hv =>
    obtain ⟨l, hl, hv⟩ := Option.bind_eq_some_iff.mp hv
    rw [Leaf.toLiteral_of_ofLiteral? hv]
    exact h.fixedLiteral l hl
  · exact fixed_of_words (by decide)

theorem renamedExpr_migrate {plan : MigrationPlan} (hadded : ∀ n ∈ plan.added, s.FreeName n)
    (hdropped : ∀ n ∈ plan.dropped, s.FreeName n) (h : s.RenamedExpr bound e e') :
    s.RenamedExpr bound (plan.apply e) (plan.apply e') := by
  obtain ⟨added, dropped⟩ := plan
  have hextended : s.RenamedExpr bound
      (added.foldl (fun e name => .withField e name (.column none name)) e)
      (added.foldl (fun e name => .withField e name (.column none name)) e') := by
    clear hdropped
    induction added generalizing e e' with
    | nil => exact h
    | cons n added ih =>
      rw [List.forall_mem_cons] at hadded
      exact ih (h.withField hadded.1.renamed hadded.1.column) hadded.2
  unfold MigrationPlan.apply
  split
  · exact hextended
  · exact hextended.dropFields hdropped

theorem renamedExpr_template {function : String} (hfunction : s.Fixed function)
    (h : s.RenamedExprs bound es es') {ls ls' : List Lambda}
    (hls : List.Forall₂ (s.RenamedLambda bound) ls ls') (force : Bool) :
    s.RenamedExpr bound (template force function es ls) (template force function es' ls') := by
  have hes : s.RenamedTexts bound (es.map (Expr.text force)) (es'.map (Expr.text force)) :=
    List.rel_map (fun _ _ h => h.text force) h
  have hlambdas : s.RenamedTexts bound (ls.map (Lambda.text · force))
      (ls'.map (Lambda.text · force)) := List.rel_map (fun _ _ h => h.text force) hls
  exact .raw ((hfunction.renamed.joined "(" (by decide)
    (RenamedTexts.intercalate (List.rel_append hes hlambdas) ", " (by decide))).before ")" (by decide))

/-- A form makes nothing under both supplies, or expressions that differ in their choice alone. The
items of a membership are compared with each other, so they have to be the same. -/
theorem FreeForm.build {form : Form} (hform : s.FreeForm form) (h : s.RenamedExprs bound es es')
    {ls ls' : List Lambda} (hls : List.Forall₂ (s.RenamedLambda bound) ls ls')
    (hitems : form = .membership → es'.tail = es.tail) (force : Bool) :
    Option.Rel (s.RenamedExpr bound) (form.build? force es ls) (form.build? force es' ls') := by
  cases form with
  | receiver =>
    rcases h with _ | ⟨h, _ | _⟩
    exacts [.none, .some h, .none]
  | constant e => exact .some (hform.mono (Nat.zero_le _))
  | call function leading =>
    have hleading : s.RenamedExprs bound (leading.map .literal) (leading.map .literal) :=
      renamedExprs_map fun l hl => .literal_of_fixed (hform.2 l hl)
    exact .some (.call hform.1 (List.rel_append hleading h))
  | unary op =>
    rcases h with _ | ⟨h, _ | _⟩
    exacts [.none, .some (h.unary op), .none]
  | binary op =>
    rcases h with _ | ⟨hl, _ | ⟨hr, _ | _⟩⟩
    exacts [.none, .none, .some (hl.binary op hr), .none]
  | exchanged op =>
    rcases h with _ | ⟨hl, _ | ⟨hr, _ | _⟩⟩
    exacts [.none, .none, .some (hr.binary op hl), .none]
  | different =>
    rcases h with _ | ⟨hl, _ | ⟨hr, _ | _⟩⟩
    exacts [.none, .none, .some ((hl.binary .equalNullSafe hr).unary .not), .none]
  | quotient =>
    have hdouble : s.Fixed (DataType.text .double) := fixed_of_words (by decide)
    rcases h with _ | ⟨hl, _ | ⟨hr, _ | _⟩⟩
    exacts [.none, .none, .some ((hl.cast hdouble).binary .divide hr), .none]
  | between =>
    rcases h with _ | ⟨h, _ | ⟨hl, _ | ⟨hr, _ | _⟩⟩⟩
    exacts [.none, .none, .none, .some (h.between hl hr), .none]
  | cast type =>
    rcases h with _ | ⟨h, _ | _⟩
    exacts [.none, .some (h.cast hform), .none]
  | rename n =>
    rcases h with _ | ⟨h, _ | _⟩
    exacts [.none, .some (h.rename hform), .none]
  | sort direction nulls =>
    rcases h with _ | ⟨h, _ | _⟩
    exacts [.none, .some (h.sort direction nulls), .none]
  | countDistinct =>
    have hcount : s.Fixed "count" := fixed_of_words (by decide)
    rcases h with _ | ⟨h, _ | _⟩
    exacts [.none, .some (.call hcount (.cons (.raw ((h.text force).behind "DISTINCT " (by decide)))
      .nil)), .none]
  | trimCharacters =>
    rcases h with _ | ⟨h, _ | ⟨hcharacters, _ | _⟩⟩
    exacts [.none, .none, .some (.raw ((((hcharacters.text force).behind "trim(BOTH "
      (by decide)).joined " FROM " (by decide) (h.text force)).before ")" (by decide))), .none]
  | membership =>
    have hitems := hitems rfl
    cases h with
    | nil => exact .none
    | cons h hes =>
      rw [List.tail_cons, List.tail_cons] at hitems
      subst hitems
      refine .some (h.inList (List.forall₂_same.mpr fun e he => ?_))
      exact List.forall₂_same.mp hes e (mem_of_mem_distinct he)
  | subscript =>
    rcases h with _ | ⟨h, _ | ⟨hindex, _ | _⟩⟩
    exacts [.none, .none, .some (h.subscript hindex), .none]
  | lookup key =>
    rcases h with _ | ⟨h, _ | ⟨hkey, _ | _⟩⟩
    exacts [.none, .none, .some (h.subscript (renamedExpr_keyLiteral key hkey)), .none]
  | field n =>
    rcases h with _ | ⟨h, _ | _⟩
    exacts [.none, .some (h.field hform), .none]
  | withField n =>
    rcases h with _ | ⟨h, _ | ⟨hvalue, _ | _⟩⟩
    exacts [.none, .none, .some (h.withField (FreeName.renamed hform) hvalue), .none]
  | withOwnField =>
    rcases h with _ | ⟨h, _ | ⟨hnamed, _ | ⟨hvalue, _ | _⟩⟩⟩
    case cons.cons.cons.nil e e' named named' value value' =>
      simp only [Form.build?]
      match named.outputName?, named'.outputName?, hnamed.outputName with
      | _, _, .some hname => exact .some (h.withField hname hvalue)
      | _, _, .none => exact .some h
    all_goals exact .none
  | migrate plan =>
    rcases h with _ | ⟨h, _ | _⟩
    exacts [.none, .some (renamedExpr_migrate hform.1 hform.2 h), .none]
  | struct names =>
    exact .some (.call (fixed_of_words (by decide)) (renamedExprs_namedFields hform h))
  | copy names =>
    rcases h with _ | ⟨h, _ | _⟩
    · exact .none
    · exact .some (.call (fixed_of_words (by decide)) (renamedExprs_namedFields hform
        (renamedExprs_map fun n hn => h.field (hform n hn))))
    · exact .none
  | generator function =>
    rcases h with _ | ⟨h, _ | _⟩
    · exact .none
    · refine .some ((RenamedExpr.call hform (.cons h .nil)).multiAliased ?_)
      simp only [List.forall_mem_cons]
      exact ⟨⟨fixed_of_words (by decide), fixed_of_words (by decide)⟩,
        ⟨fixed_of_words (by decide), fixed_of_words (by decide)⟩, nofun⟩
    · exact .none
  | collection function type =>
    cases h with
    | nil => exact .some ((RenamedExpr.call hform.1 .nil).cast hform.2)
    | cons h hes => exact .some (.call hform.1 (.cons h hes))
  | case =>
    have hbranches := renamedBranches_branches h
    exact .some (.case hbranches.1 hbranches.2)
  | window parts =>
    cases h with
    | nil => exact .none
    | cons h hes =>
      obtain ⟨hpartition, horder, hframe⟩ := renamedExprs_windowOf parts hes
      simp only [Form.build?, hframe]
      exact .some (h.window _ hpartition horder)
  | template function => exact .some (renamedExpr_template hform h hls force)

end Supplies

end Columnar
