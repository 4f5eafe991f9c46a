import Columnar.Proofs.Expr.Columns
import Columnar.Proofs.Literal.Text
import Columnar.Proofs.Qualify.Pieces

/-! The text of a regular expression is put together from pieces that close their quotes, so that a
pass over the whole is a pass over each bare column. -/
namespace Columnar

theorem closed_nil : Closed [] := ⟨rfl, rfl⟩

namespace DataType

theorem inert_leafText (t : DataType) : Inert t.leafText := by
  cases t with
  | decimal p s =>
    have hnatural (n : Nat) : Inert (Number.natural n) := inert_of_marks (Number.marks_natural n)
    exact ((((Inert.append (by decide) (hnatural p)).append (by decide)).append
      (hnatural s)).append (by decide))
  | array _ _ | map _ _ _ | struct _ => exact (by decide : Inert "")
  | _ => decide

mutual

theorem closed_text (t : DataType) (h : t.Unticked) : Closed t.text.toList := by
  have hleaf : Closed t.leafText.toList := Inert.closed (inert_leafText t)
  cases t with
  | array element _ =>
    have ht := closed_text element h
    simp only [text, String.toList_append, List.append_assoc]
    exact (ht.ended (by decide)).behind (by decide)
  | map key value _ =>
    have hk := closed_text key h.1
    have hv := closed_text value h.2
    simp only [text, String.toList_append, List.append_assoc]
    have hgt : Trails ">".toList := by decide
    have hcomma : Leads ",".toList := by decide
    exact (hk.append ((hv.ended hgt).behind hcomma) (Or.inr rfl)).behind (by decide)
  | struct fields =>
    have hf := closed_fieldsText fields h
    simp only [text, String.toList_append, List.append_assoc]
    exact (hf.ended (by decide)).behind (by decide)
  | _ => exact hleaf

theorem closed_fieldText (f : StructField) (h : UntickedField f) : Closed (fieldText f).toList := by
  cases f with
  | mk name type nullable =>
    have ht := closed_text type h.2
    simp only [fieldText, String.toList_append, List.append_assoc]
    exact (closed_quoteIdentifier h.1).append (ht.behind (by decide)) (Or.inr rfl)

theorem closed_fieldsText (fields : List StructField) (h : UntickedFields fields) :
    Closed (fieldsText fields).toList := by
  match fields with
  | [] => exact closed_nil
  | [f] => exact closed_fieldText f h.1
  | f :: g :: rest =>
    have hf := closed_fieldText f h.1
    have hrest := closed_fieldsText (g :: rest) h.2
    simp only [fieldsText, String.toList_append, List.append_assoc]
    exact hf.append (hrest.behind (by decide)) (Or.inr rfl)

end

end DataType

theorem BinaryOp.inert_symbol (op : BinaryOp) : Inert op.symbol := by
  cases op <;> decide

theorem FrameBound.inert_text (b : FrameBound) : Inert b.text := by
  have hnatural (n : Nat) : Inert (Number.natural n) := inert_of_marks (Number.marks_natural n)
  cases b with
  | preceding n => exact (hnatural _).append (by decide)
  | following n => exact (hnatural _).append (by decide)
  | _ => decide

theorem FrameSpan.inert_text (s : FrameSpan) : Inert s.text := by
  have hunit : Inert s.unit.text := by
    cases s.unit <;> decide
  exact (((hunit.append (by decide)).append s.start.inert_text).append (by decide)).append
    s.stop.inert_text

/-- The texts of two lists of expressions with those of the erased ones, each piece by piece. -/
inductive RendersAll (inserted : List Char) (isField : List Char → Bool) :
    List String → List String → List String → Prop
  | nil : RendersAll inserted isField [] [] []
  | cons {s t u : String} {ss ts us : List String} :
      Renders inserted isField s.toList t.toList u.toList →
      RendersAll inserted isField ss ts us →
      RendersAll inserted isField (s :: ss) (t :: ts) (u :: us)

namespace RendersAll

variable {inserted : List Char} {isField : List Char → Bool} {ss ts us ss' ts' us' : List String}

theorem refl (h : ∀ s ∈ ss, Closed s.toList) : RendersAll inserted isField ss ss ss := by
  induction ss with
  | nil => exact .nil
  | cons s ss ih => exact .cons (.refl (h s (by simp))) (ih fun t ht => h t (by simp [ht]))

theorem append (h : RendersAll inserted isField ss ts us)
    (h' : RendersAll inserted isField ss' ts' us') :
    RendersAll inserted isField (ss ++ ss') (ts ++ ts') (us ++ us') := by
  induction h with
  | nil => exact h'
  | cons hs _ ih => exact .cons hs ih

/-- Pieces are put together with a separator that neither starts nor ends inside a name. -/
theorem intercalate (h : RendersAll inserted isField ss ts us) (separator : String)
    (hfront : Leads separator.toList) (hback : Trails separator.toList)
    (hne : separator.toList ≠ []) :
    Renders inserted isField (separator.intercalate ss).toList (separator.intercalate ts).toList
      (separator.intercalate us).toList := by
  obtain ⟨c, cs, hc⟩ := List.exists_cons_of_ne_nil hne
  induction h with
  | nil => exact .refl closed_nil
  | cons hs hrest ih =>
    cases hrest with
    | nil =>
      simp only [String.intercalate_singleton]
      exact hs
    | cons hs' hrest' =>
      simp only [String.intercalate_cons_cons, String.toList_append, List.append_assoc]
      refine hs.before (ih.behind hfront) ?_ ?_
      all_goals simpa [hc] using hback.head

end RendersAll

/-- A name behind a dot. -/
theorem closed_dot {name : String} (h : '\x60' ∉ name.toList) :
    Closed (".".toList ++ (Text.quoteIdentifier name false).toList) where
  after_eq := (closed_quoteIdentifier h).after_eq
  apart := by
    have hname := (closed_quoteIdentifier h).apart
    change quotesApart .plain (some '.') (Text.quoteIdentifier name false).toList = true
    cases hcs : (Text.quoteIdentifier name false).toList with
    | nil => rfl
    | cons c cs =>
      rw [hcs] at hname
      simpa [quotesApart, Text.isWord] using hname

theorem closed_qualified {qualifier name : String} (hqualifier : '\x60' ∉ qualifier.toList)
    (hname : '\x60' ∉ name.toList) :
    Closed ((Expr.column (some qualifier) name).text false).toList := by
  simp only [Expr.text, columnText, String.toList_append, List.append_assoc]
  exact (closed_quoteIdentifier hqualifier).append (closed_dot hname) (Or.inr rfl)

namespace Expr

theorem listText_eq (force : Bool) (es : List Expr) :
    listText force es = ", ".intercalate (es.map (text force)) := by
  match es with
  | [] => rfl
  | [e] => rw [listText, List.map_singleton, String.intercalate_singleton]
  | e :: e' :: rest =>
    rw [listText, listText_eq force (e' :: rest)]
    · simp
    · simp

theorem head_branchesText (branches : List (Expr × Expr)) :
    (branchesText false branches).toList.head?.any opensName = false := by
  match branches with
  | [] => rfl
  | (condition, value) :: rest =>
    simp only [branchesText, String.toList_append, List.append_assoc]
    rfl

theorem head_elseText (otherwise : Option Expr) :
    (elseText false otherwise).toList.head?.any opensName = false := by
  cases otherwise with
  | none => rfl
  | some e =>
    simp only [elseText, String.toList_append]
    rfl

theorem head_append {cs ds : List Char} (h : cs.head?.any opensName = false)
    (h' : ds.head?.any opensName = false) : (cs ++ ds).head?.any opensName = false := by
  cases cs with
  | nil => exact h'
  | cons c cs => exact h

end Expr

section Nodes

variable {inserted : List Char} {isField : List Char → Bool} {e e' e'' l l' l'' r r' r'' : Expr}
  {es es' es'' fs fs' fs'' : List Expr} {bs bs' bs'' : List (Expr × Expr)} {o o' o'' : Option Expr}

/-- The text of an expression with those of the qualified and of the erased one. -/
def RendersExpr (inserted : List Char) (isField : List Char → Bool) (e e' e'' : Expr) : Prop :=
  Renders inserted isField (e.text false).toList (e'.text false).toList (e''.text false).toList

/-- The texts of a list of expressions. -/
def RendersList (inserted : List Char) (isField : List Char → Bool) (es es' es'' : List Expr) :
    Prop :=
  RendersAll inserted isField (es.map (Expr.text false)) (es'.map (Expr.text false))
    (es''.map (Expr.text false))

def RendersBranches (inserted : List Char) (isField : List Char → Bool)
    (bs bs' bs'' : List (Expr × Expr)) : Prop :=
  Renders inserted isField (Expr.branchesText false bs).toList (Expr.branchesText false bs').toList
    (Expr.branchesText false bs'').toList

def RendersElse (inserted : List Char) (isField : List Char → Bool) (o o' o'' : Option Expr) :
    Prop :=
  Renders inserted isField (Expr.elseText false o).toList (Expr.elseText false o').toList
    (Expr.elseText false o'').toList

theorem RendersList.listText (h : RendersList inserted isField es es' es'') :
    Renders inserted isField (Expr.listText false es).toList (Expr.listText false es').toList
      (Expr.listText false es'').toList := by
  simp only [Expr.listText_eq]
  exact h.intercalate ", " (by decide) (by decide) (by decide)

namespace RendersExpr

theorem unary (op : UnaryOp) (he : RendersExpr inserted isField e e' e'') :
    RendersExpr inserted isField (.unary op e) (.unary op e') (.unary op e'') := by
  unfold RendersExpr at *
  cases op
  all_goals simp only [Expr.text, UnaryOp.apply, String.toList_append, List.append_assoc]
  case not => exact he.enclosed "(NOT " ")" (by decide) (by decide)
  case negate => exact he.enclosed "(- " ")" (by decide) (by decide)
  case bitwiseNot => exact he.behind (by decide)
  case isNull => exact he.enclosed "(" " IS NULL)" (by decide) (by decide)
  case isNotNull => exact he.enclosed "(" " IS NOT NULL)" (by decide) (by decide)

theorem binary (op : BinaryOp) (hl : RendersExpr inserted isField l l' l'')
    (hr : RendersExpr inserted isField r r' r'') :
    RendersExpr inserted isField (.binary op l r) (.binary op l' r') (.binary op l'' r'') := by
  unfold RendersExpr at *
  have hsymbol : Leads (" " ++ op.symbol ++ " ").toList := by
    rw [String.toList_append]
    exact .append (Inert.append (by decide) op.inert_symbol).closed (by decide) (by decide)
      (by decide)
  have hright := hr.enclosed (" " ++ op.symbol ++ " ") ")" hsymbol (by decide)
  simp only [Expr.text, String.toList_append, List.append_assoc] at hright ⊢
  exact (hl.before hright rfl rfl).behind (by decide)

theorem call {function : String} (hplain : Text.isPlain function.toList)
    (hes : RendersList inserted isField es es' es'') :
    RendersExpr inserted isField (.call function es) (.call function es')
      (.call function es'') := by
  have hname : Closed function.toList := .of_isInert fun c hc =>
    isInert_of_isWord (Text.isWord_of_isPlain hplain c hc)
  have hargs := hes.listText.enclosed "(" ")" (by decide) (by decide)
  unfold RendersExpr
  simp only [Expr.text, String.toList_append, List.append_assoc]
  exact (Renders.refl hname).before hargs rfl rfl

theorem cast {type : DataType} (htype : type.Unticked)
    (he : RendersExpr inserted isField e e' e'') :
    RendersExpr inserted isField (.cast e type) (.cast e' type) (.cast e'' type) := by
  have hclosed : Closed (" AS " ++ type.text ++ ")").toList := by
    rw [String.toList_append, String.toList_append]
    exact ((type.closed_text htype).behind (by decide)).ended (by decide)
  have hleft := he.enclosed "CAST(" (" AS " ++ type.text ++ ")") (by decide)
    ⟨hclosed, by simp; decide⟩
  unfold RendersExpr
  simp only [Expr.text, String.toList_append, List.append_assoc] at hleft ⊢
  exact hleft

theorem case (hbs : RendersBranches inserted isField bs bs' bs'')
    (ho : RendersElse inserted isField o o' o'') :
    RendersExpr inserted isField (.case bs o) (.case bs' o') (.case bs'' o'') := by
  have helse (o : Option Expr) :
      ((Expr.elseText false o).toList ++ " END".toList).head?.any opensName = false :=
    Expr.head_append (Expr.head_elseText o) (by decide)
  have hall (bs : List (Expr × Expr)) (o : Option Expr) :
      ((Expr.branchesText false bs).toList ++ ((Expr.elseText false o).toList ++
        " END".toList)).head?.any opensName = false :=
    Expr.head_append (Expr.head_branchesText bs) (helse o)
  have hback : Trails " END".toList := by decide
  have hend := Renders.ended ho hback
  have hright := Renders.before hbs hend (helse o) (helse o'')
  have hcase : Closed "CASE".toList := by decide
  unfold RendersExpr
  simp only [Expr.text, String.toList_append, List.append_assoc]
  exact (Renders.refl hcase).before hright (hall bs o) (hall bs'' o'')

theorem inList (he : RendersExpr inserted isField e e' e'')
    (hes : RendersList inserted isField es es' es'') :
    RendersExpr inserted isField (.inList e es) (.inList e' es') (.inList e'' es'') := by
  have hitems := hes.listText.enclosed " IN (" "))" (by decide) (by decide)
  unfold RendersExpr at *
  simp only [Expr.text, String.toList_append, List.append_assoc]
  exact (he.before hitems rfl rfl).behind (by decide)

theorem between (he : RendersExpr inserted isField e e' e'')
    (hl : RendersExpr inserted isField l l' l'') (hr : RendersExpr inserted isField r r' r'') :
    RendersExpr inserted isField (.between e l r) (.between e' l' r') (.between e'' l'' r'') := by
  unfold RendersExpr at *
  have hbetween : Leads " BETWEEN ".toList := by decide
  have hhigh := hr.enclosed " AND " ")" (by decide) (by decide)
  have hlow := (hl.before hhigh rfl rfl).behind hbetween
  simp only [Expr.text, String.toList_append, List.append_assoc]
  exact (he.before hlow rfl rfl).behind (by decide)

theorem subscript (he : RendersExpr inserted isField e e' e'')
    (hr : RendersExpr inserted isField r r' r'') :
    RendersExpr inserted isField (.subscript e r) (.subscript e' r') (.subscript e'' r'') := by
  unfold RendersExpr at *
  have hindex := hr.enclosed "[" "]" (by decide) (by decide)
  simp only [Expr.text, String.toList_append, List.append_assoc]
  exact he.before hindex rfl rfl

theorem field {name : String} (hname : '\x60' ∉ name.toList)
    (he : RendersExpr inserted isField e e' e'') :
    RendersExpr inserted isField (.field e name) (.field e' name) (.field e'' name) := by
  unfold RendersExpr at *
  simp only [Expr.text, String.toList_append, List.append_assoc]
  exact he.before (.refl (closed_dot hname)) rfl rfl

attribute [local irreducible] Text.quoteString in
theorem withField (name : String) (he : RendersExpr inserted isField e e' e'')
    (hr : RendersExpr inserted isField r r' r'') :
    RendersExpr inserted isField (.withField e name r) (.withField e' name r')
      (.withField e'' name r'') := by
  unfold RendersExpr at *
  have hname : Leads (", " ++ Text.quoteString name ++ ", ").toList := by
    rw [String.toList_append, String.toList_append]
    exact .append ((closed_quoteString name).behind (by decide)) (by decide) (by decide) (by decide)
  have hright := hr.enclosed (", " ++ Text.quoteString name ++ ", ") ")" hname (by decide)
  simp only [Expr.text, String.toList_append, List.append_assoc] at hright ⊢
  exact (he.before hright rfl rfl).behind (by decide)

theorem dropFields (names : List String) (he : RendersExpr inserted isField e e' e'') :
    RendersExpr inserted isField (.dropFields e names) (.dropFields e' names)
      (.dropFields e'' names) := by
  have hquoted : RendersAll inserted isField (names.map Text.quoteString)
      (names.map Text.quoteString) (names.map Text.quoteString) := by
    refine .refl fun s hs => ?_
    obtain ⟨name, -, rfl⟩ := List.mem_map.mp hs
    exact closed_quoteString name
  have hnames := (RendersAll.cons he hquoted).intercalate ", " (by decide) (by decide) (by decide)
  unfold RendersExpr
  simp only [Expr.text, String.toList_append, List.append_assoc]
  exact hnames.enclosed "dropFields(" ")" (by decide) (by decide)

theorem sort (direction : Direction) (nulls : NullOrder)
    (he : RendersExpr inserted isField e e' e'') :
    RendersExpr inserted isField (.sort e direction nulls) (.sort e' direction nulls)
      (.sort e'' direction nulls) := by
  have horder : Trails (" " ++ direction.text ++ " " ++ nulls.text).toList := by
    cases direction <;> cases nulls <;> decide
  have hsort := he.ended horder
  unfold RendersExpr
  simp only [Expr.text, String.toList_append, List.append_assoc] at hsort ⊢
  exact hsort

theorem sectionText (keyword : String) (hkeyword : Leads keyword.toList)
    (hes : RendersList inserted isField es es' es'') :
    RendersAll inserted isField (sectionText keyword (Expr.listText false es) es.isEmpty)
      (sectionText keyword (Expr.listText false es') es'.isEmpty)
      (sectionText keyword (Expr.listText false es'') es''.isEmpty) := by
  have hlist := hes.listText.behind hkeyword
  simp only [← String.toList_append] at hlist
  -- the three lists are empty together
  cases es <;> cases es' <;> cases es''
  case nil.nil.nil => exact .nil
  case cons.cons.cons => exact .cons hlist .nil
  all_goals cases hes

theorem window (frame : Option FrameSpan) (he : RendersExpr inserted isField e e' e'')
    (hes : RendersList inserted isField es es' es'')
    (hfs : RendersList inserted isField fs fs' fs'') :
    RendersExpr inserted isField (.window e es fs frame) (.window e' es' fs' frame)
      (.window e'' es'' fs'' frame) := by
  have hframe : RendersAll inserted isField (frame.map FrameSpan.text).toList
      (frame.map FrameSpan.text).toList (frame.map FrameSpan.text).toList :=
    .refl (by cases frame <;> simp [FrameSpan.inert_text, Inert.closed])
  have hpartition := sectionText "PARTITION BY " (by decide) hes
  have horder := sectionText "ORDER BY " (by decide) hfs
  have hsections := ((hpartition.append horder).append hframe).intercalate " " (by decide)
    (by decide) (by decide)
  unfold RendersExpr at *
  have hover := hsections.enclosed " OVER (" ")" (by decide) (by decide)
  simp only [Expr.text, String.toList_append, List.append_assoc] at hover ⊢
  exact he.before hover rfl rfl

end RendersExpr

theorem RendersBranches.cons (hl : RendersExpr inserted isField l l' l'')
    (hr : RendersExpr inserted isField r r' r'')
    (hbs : RendersBranches inserted isField bs bs' bs'') :
    RendersBranches inserted isField ((l, r) :: bs) ((l', r') :: bs') ((l'', r'') :: bs'') := by
  have hrest := Renders.before hr hbs (Expr.head_branchesText bs) (Expr.head_branchesText bs'')
  have hthen : Leads " THEN ".toList := by decide
  have hvalue := hrest.behind hthen
  unfold RendersBranches
  simp only [Expr.branchesText, String.toList_append, List.append_assoc]
  exact (Renders.before hl hvalue rfl rfl).behind (by decide)

theorem RendersElse.some (he : RendersExpr inserted isField e e' e'') :
    RendersElse inserted isField (some e) (some e') (some e'') := by
  unfold RendersElse
  simp only [Expr.elseText, String.toList_append]
  exact Renders.behind he (by decide)

end Nodes

section Columns

variable {inserted : List Char} {isField : List Char → Bool} {f g : String → Expr}

/-- A bare column is qualified as `f` says and erased as `g` says. -/
def RendersColumns (inserted : List Char) (isField : List Char → Bool) (f g : String → Expr) :
    Prop :=
  ∀ name : String, '\x60' ∉ name.toList →
    RendersExpr inserted isField (.column none name) (f name) (g name)

mutual

/-- A pass over the text of a regular expression is a pass over its bare columns. -/
theorem Expr.Regular.renders (hf : RendersColumns inserted isField f g) (e : Expr) (h : e.Regular) :
    RendersExpr inserted isField e (e.mapColumns f) (e.mapColumns g) := by
  cases e with
  | column qualifier name =>
    cases qualifier with
    | none => exact hf name h.2
    | some q => exact .refl (closed_qualified (h.1 q rfl) h.2)
  | literal value => exact .refl value.closed_text
  | raw _ => exact h.elim
  | aliased _ _ => exact h.elim
  | multiAliased _ _ => exact h.elim
  | unary op e => exact (Regular.renders hf e h).unary op
  | binary op l r => exact (Regular.renders hf l h.1).binary op (Regular.renders hf r h.2)
  | call function args => exact .call h.1 (Regular.rendersList hf args h.2)
  | cast e type => exact (Regular.renders hf e h.1).cast h.2
  | case branches otherwise =>
    exact .case (Regular.rendersBranches hf branches h.1) (Regular.rendersElse hf otherwise h.2)
  | inList e items => exact (Regular.renders hf e h.1).inList (Regular.rendersList hf items h.2)
  | between e low high =>
    exact (Regular.renders hf e h.1).between (Regular.renders hf low h.2.1)
      (Regular.renders hf high h.2.2)
  | subscript e index => exact (Regular.renders hf e h.1).subscript (Regular.renders hf index h.2)
  | field e name => exact (Regular.renders hf e h.1).field h.2
  | withField e name value =>
    exact (Regular.renders hf e h.1).withField name (Regular.renders hf value h.2)
  | dropFields e names => exact (Regular.renders hf e h).dropFields names
  | sort e direction nulls => exact (Regular.renders hf e h).sort direction nulls
  | window e partition order frame =>
    exact (Regular.renders hf e h.1).window frame (Regular.rendersList hf partition h.2.1)
      (Regular.rendersList hf order h.2.2)

theorem Expr.Regular.rendersList (hf : RendersColumns inserted isField f g) (es : List Expr)
    (h : RegularList es) :
    RendersList inserted isField es (mapColumnsList f es) (mapColumnsList g es) := by
  cases es with
  | nil => exact .nil
  | cons e rest => exact .cons (Regular.renders hf e h.1) (Regular.rendersList hf rest h.2)

theorem Expr.Regular.rendersBranches (hf : RendersColumns inserted isField f g)
    (branches : List (Expr × Expr)) (h : RegularBranches branches) :
    RendersBranches inserted isField branches (mapColumnsBranches f branches)
      (mapColumnsBranches g branches) := by
  match branches with
  | [] => exact .refl closed_nil
  | (condition, value) :: rest =>
    exact .cons (Regular.renders hf condition h.1) (Regular.renders hf value h.2.1)
      (Regular.rendersBranches hf rest h.2.2)

theorem Expr.Regular.rendersElse (hf : RendersColumns inserted isField f g)
    (otherwise : Option Expr) (h : RegularOption otherwise) :
    RendersElse inserted isField otherwise (mapColumnsOption f otherwise)
      (mapColumnsOption g otherwise) := by
  cases otherwise with
  | none => exact .refl closed_nil
  | some e => exact .some (Regular.renders hf e h)

end

end Columns

end Columnar
