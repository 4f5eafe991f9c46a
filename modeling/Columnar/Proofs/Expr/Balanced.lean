import Columnar.Column.Lambda
import Columnar.Proofs.Expr.Pieces
import Columnar.Proofs.Qualify.Balanced

/-! The text of an expression closes the quotes it opens, whatever marks stand in its names, strings
and types: each is written in a quoted form that ends outside quotes. Only what is written as it is,
a function name or a text, has to be balanced by itself, and a template is such a text again. -/
namespace Columnar

namespace DataType

mutual

theorem balanced_text (t : DataType) : Balanced t.text := by
  have hleaf : Balanced t.leafText := .of_inert (inert_leafText t)
  cases t with
  | array element _ =>
    have helement := balanced_text element
    exact (Balanced.append (by decide) helement).append (by decide)
  | map key value _ =>
    have hkey := balanced_text key
    have hvalue := balanced_text value
    exact (((Balanced.append (by decide) hkey).append (by decide)).append hvalue).append (by decide)
  | struct fields =>
    have hfields := balanced_fieldsText fields
    exact (Balanced.append (by decide) hfields).append (by decide)
  | _ => exact hleaf

theorem balanced_fieldText (f : StructField) : Balanced (fieldText f) := by
  cases f with
  | mk name type _ =>
    have htype := balanced_text type
    exact ((balanced_quoteIdentifier name false).append (by decide)).append htype

theorem balanced_fieldsText (fields : List StructField) : Balanced (fieldsText fields) := by
  match fields with
  | [] => rfl
  | [f] => exact balanced_fieldText f
  | f :: g :: rest =>
    have hf := balanced_fieldText f
    have hrest := balanced_fieldsText (g :: rest)
    exact (hf.append (by decide)).append hrest

end

end DataType

namespace Expr

mutual

/-- An expression whose function names have no quotes in them and whose texts are balanced. -/
def Balanced : Expr → Prop
  | column _ _ | literal _ => True
  | raw text => Columnar.Balanced text
  | aliased e _ | multiAliased e _ | unary _ e | cast e _ | field e _ | dropFields e _
  | sort e _ _ => e.Balanced
  | binary _ l r | subscript l r | withField l _ r => l.Balanced ∧ r.Balanced
  | call function args => QuoteFree function ∧ BalancedList args
  | case branches otherwise => BalancedBranches branches ∧ BalancedOption otherwise
  | inList e items => e.Balanced ∧ BalancedList items
  | between e low high => e.Balanced ∧ low.Balanced ∧ high.Balanced
  | window e partition order _ => e.Balanced ∧ BalancedList partition ∧ BalancedList order

def BalancedList : List Expr → Prop
  | [] => True
  | e :: rest => e.Balanced ∧ BalancedList rest

def BalancedBranches : List (Expr × Expr) → Prop
  | [] => True
  | (condition, value) :: rest => condition.Balanced ∧ value.Balanced ∧ BalancedBranches rest

def BalancedOption : Option Expr → Prop
  | none => True
  | some e => e.Balanced

end

/-- A section of a window is balanced when its list is. -/
theorem balanced_sectionText {keyword list : String} (hkeyword : Columnar.Balanced keyword)
    (hlist : Columnar.Balanced list) (isAbsent : Bool) :
    ∀ s ∈ sectionText keyword list isAbsent, Columnar.Balanced s := by
  cases isAbsent with
  | true => simp [sectionText]
  | false => simpa [sectionText] using hkeyword.append hlist

variable (force : Bool)

mutual

theorem balanced_text (e : Expr) (h : e.Balanced) : Columnar.Balanced (e.text force) := by
  cases e with
  | column qualifier name => exact balanced_columnText force qualifier name
  | literal value => exact .of_closed value.closed_text
  | raw text => exact h
  | aliased e name =>
    have he := balanced_text e h
    exact (he.append (by decide)).append (balanced_quoteIdentifier name false)
  | multiAliased e names =>
    have he := balanced_text e h
    have hnames : ∀ s ∈ names.map (Text.quoteIdentifier · false), Columnar.Balanced s := by
      intro s hs
      obtain ⟨name, -, rfl⟩ := List.mem_map.mp hs
      exact balanced_quoteIdentifier name false
    exact ((he.append (by decide)).append (.intercalate (by decide) hnames)).append (by decide)
  | unary op e =>
    have he := balanced_text e h
    cases op with
    | not | negate => exact (Balanced.append (by decide) he).append (by decide)
    | bitwiseNot => exact Balanced.append (by decide) he
    | isNull | isNotNull => exact (Balanced.append (by decide) he).append (by decide)
  | binary op l r =>
    have hl := balanced_text l h.1
    have hr := balanced_text r h.2
    have hsymbol : Columnar.Balanced op.symbol := .of_inert op.inert_symbol
    exact (((((Balanced.append (by decide) hl).append (by decide)).append hsymbol).append
      (by decide)).append hr).append (by decide)
  | call function args =>
    have hargs := balanced_listText args h.2
    exact ((h.1.balanced.append (by decide)).append hargs).append (by decide)
  | cast e type =>
    have he := balanced_text e h
    exact (((Balanced.append (by decide) he).append (by decide)).append
      type.balanced_text).append (by decide)
  | case branches otherwise =>
    have hbranches := balanced_branchesText branches h.1
    have helse := balanced_elseText otherwise h.2
    exact ((Balanced.append (by decide) hbranches).append helse).append (by decide)
  | inList e items =>
    have he := balanced_text e h.1
    have hitems := balanced_listText items h.2
    exact (((Balanced.append (by decide) he).append (by decide)).append hitems).append (by decide)
  | between e low high =>
    have he := balanced_text e h.1
    have hlow := balanced_text low h.2.1
    have hhigh := balanced_text high h.2.2
    exact (((((Balanced.append (by decide) he).append (by decide)).append hlow).append
      (by decide)).append hhigh).append (by decide)
  | subscript e index =>
    have he := balanced_text e h.1
    have hindex := balanced_text index h.2
    exact ((he.append (by decide)).append hindex).append (by decide)
  | field e name =>
    have he := balanced_text e h
    exact (he.append (by decide)).append (balanced_quoteIdentifier name false)
  | withField e name value =>
    have he := balanced_text e h.1
    have hvalue := balanced_text value h.2
    exact (((((Balanced.append (by decide) he).append (by decide)).append
      (balanced_quoteString name)).append (by decide)).append hvalue).append (by decide)
  | dropFields e names =>
    have he := balanced_text e h
    have hparts : ∀ s ∈ e.text force :: names.map Text.quoteString, Columnar.Balanced s := by
      refine List.forall_mem_cons.mpr ⟨he, fun s hs => ?_⟩
      obtain ⟨name, -, rfl⟩ := List.mem_map.mp hs
      exact balanced_quoteString name
    exact (Balanced.append (by decide) (.intercalate (by decide) hparts)).append (by decide)
  | sort e direction nulls =>
    have he := balanced_text e h
    have hdirection : Columnar.Balanced direction.text := by cases direction <;> decide
    have hnulls : Columnar.Balanced nulls.text := by cases nulls <;> decide
    exact (((he.append (by decide)).append hdirection).append (by decide)).append hnulls
  | window e partition order frame =>
    have he := balanced_text e h.1
    have hpartition := balanced_listText partition h.2.1
    have horder := balanced_listText order h.2.2
    have hframe : ∀ s ∈ (frame.map FrameSpan.text).toList, Columnar.Balanced s := by
      cases frame <;> simp [Columnar.Balanced.of_inert, FrameSpan.inert_text]
    have hsections : Columnar.Balanced (" ".intercalate
        (sectionText "PARTITION BY " (listText force partition) partition.isEmpty ++
          sectionText "ORDER BY " (listText force order) order.isEmpty ++
          (frame.map FrameSpan.text).toList)) := by
      refine .intercalate (by decide) ?_
      refine List.forall_mem_append.mpr ⟨List.forall_mem_append.mpr ⟨?_, ?_⟩, hframe⟩
      · exact balanced_sectionText (by decide) hpartition _
      · exact balanced_sectionText (by decide) horder _
    exact ((he.append (by decide)).append hsections).append (by decide)

theorem balanced_listText (es : List Expr) (h : BalancedList es) :
    Columnar.Balanced (listText force es) := by
  match es with
  | [] => rfl
  | [e] => exact balanced_text e h.1
  | e :: f :: rest =>
    have he := balanced_text e h.1
    have hrest := balanced_listText (f :: rest) h.2
    exact (he.append (by decide)).append hrest

theorem balanced_branchesText (branches : List (Expr × Expr)) (h : BalancedBranches branches) :
    Columnar.Balanced (branchesText force branches) := by
  match branches with
  | [] => rfl
  | (condition, value) :: rest =>
    have hcondition := balanced_text condition h.1
    have hvalue := balanced_text value h.2.1
    have hrest := balanced_branchesText rest h.2.2
    exact ((((Balanced.append (by decide) hcondition).append (by decide)).append hvalue)).append
      hrest

theorem balanced_elseText (otherwise : Option Expr) (h : BalancedOption otherwise) :
    Columnar.Balanced (elseText force otherwise) := by
  cases otherwise with
  | none => rfl
  | some e =>
    have he := balanced_text e h
    exact Balanced.append (by decide) he

end

end Expr

/-- A lambda whose parameters have no quotes in them and whose body is balanced. -/
structure Lambda.Balanced (l : Lambda) : Prop where
  params : ∀ p ∈ l.params, QuoteFree p
  body : l.body.Balanced

theorem Lambda.balanced_text (l : Lambda) (force : Bool) (h : l.Balanced) :
    Columnar.Balanced (l.text force) := by
  have hparams : Columnar.Balanced (", ".intercalate l.params) :=
    .intercalate (by decide) fun p hp => (h.params p hp).balanced
  have hbody := l.body.balanced_text force h.body
  exact ((Columnar.Balanced.append (by decide) hparams).append (by decide)).append hbody

/-- A template of balanced operands and lambdas is a balanced text. -/
theorem balanced_template (force : Bool) {function : String} (hfunction : QuoteFree function)
    {operands : List Expr} (hoperands : ∀ e ∈ operands, e.Balanced) {lambdas : List Lambda}
    (hlambdas : ∀ l ∈ lambdas, l.Balanced) :
    (template force function operands lambdas).Balanced := by
  have hparts : ∀ s ∈ operands.map (Expr.text force) ++ lambdas.map (Lambda.text · force),
      Balanced s := by
    refine List.forall_mem_append.mpr ⟨fun s hs => ?_, fun s hs => ?_⟩
    · obtain ⟨e, he, rfl⟩ := List.mem_map.mp hs
      exact e.balanced_text force (hoperands e he)
    · obtain ⟨l, hl, rfl⟩ := List.mem_map.mp hs
      exact l.balanced_text force (hlambdas l hl)
  have hlist : Balanced (", ".intercalate (operands.map (Expr.text force) ++
      lambdas.map (Lambda.text · force))) := .intercalate (by decide) hparts
  exact ((hfunction.balanced.append (by decide)).append hlist).append (by decide)

/-- The text of an expression ends outside quotes, so behind it each position is quoted as it is in
the rest alone, and templates of such expressions are such expressions. -/
theorem quotingAt_text_append (force : Bool) :
    (∀ e : Expr, e.Balanced → quotingAt (e.text force) (e.text force).length = .plain ∧
      ∀ (rest : String) (position : Nat),
        quotingAt (e.text force ++ rest) ((e.text force).length + position) =
          (quotingAt rest position).shift (e.text force).length) ∧
    ∀ (function : String) (operands : List Expr) (lambdas : List Lambda), QuoteFree function →
      (∀ e ∈ operands, e.Balanced) → (∀ l ∈ lambdas, l.Balanced) →
        (template force function operands lambdas).Balanced := by
  refine ⟨fun e he => ?_, fun function operands lambdas hfunction hoperands hlambdas => ?_⟩
  · have htext := e.balanced_text force he
    exact ⟨htext, htext.quotingAt_append⟩
  · exact balanced_template force hfunction hoperands hlambdas

theorem quotingAt_text_append_marks :
    (Expr.call "upper" [.column (some "a\x60b") "it's", .raw "'x\\''"]).Balanced ∧
    (Expr.call "upper" [.column (some "a\x60b") "it's", .raw "'x\\''"]).text true =
      "upper(\x60a\x60\x60b\x60.\x60it's\x60, 'x\\'')" ∧
    quotingAt "upper(\x60a\x60\x60b\x60.\x60it's\x60, 'x\\'')" 27 = .plain ∧
    (∀ (rest : String) (position : Nat),
      quotingAt ("upper(\x60a\x60\x60b\x60.\x60it's\x60, 'x\\'')" ++ rest) (27 + position) =
        (quotingAt rest position).shift 27) ∧
    (template true "filter" [.column none "xs"]
      [⟨["x_1"], .call "upper" [.column (some "a\x60b") "it's", .raw "'x\\''"]⟩]).Balanced := by
  obtain ⟨htext, htemplate⟩ := quotingAt_text_append true
  have he : (Expr.call "upper" [.column (some "a\x60b") "it's", .raw "'x\\''"]).Balanced :=
    ⟨by decide, trivial, (by decide : Balanced "'x\\''"), trivial⟩
  have hrendered : (Expr.call "upper" [.column (some "a\x60b") "it's", .raw "'x\\''"]).text true =
      "upper(\x60a\x60\x60b\x60.\x60it's\x60, 'x\\'')" := by decide
  have hlength : "upper(\x60a\x60\x60b\x60.\x60it's\x60, 'x\\'')".length = 27 := by decide
  obtain ⟨hend, hquoting⟩ := htext _ he
  rw [hrendered, hlength] at hend hquoting
  refine ⟨he, hrendered, hend, hquoting, ?_⟩
  exact htemplate "filter" _ _ (by decide) (List.forall_mem_singleton.mpr trivial)
    (List.forall_mem_singleton.mpr ⟨by decide, he⟩)

end Columnar
