import Mathlib.Data.List.Forall2
import Columnar.Proofs.Column.Renamed
import Columnar.Proofs.Expr.Pieces

/-! Expressions that differ in the choice of the supply alone: node by node, what is made of such
parts is such an expression again. -/
namespace Columnar

namespace Expr

mutual

/-- The expression with each of its names and texts exchanged; literals and types stay. -/
def mapTexts (f : String → String) : Expr → Expr
  | column qualifier name => column (qualifier.map f) (f name)
  | literal value => literal value
  | raw text => raw (f text)
  | aliased e name => aliased (e.mapTexts f) (f name)
  | multiAliased e names => multiAliased (e.mapTexts f) (names.map f)
  | unary op e => unary op (e.mapTexts f)
  | binary op l r => binary op (l.mapTexts f) (r.mapTexts f)
  | call function args => call (f function) (mapTextsList f args)
  | cast e type => cast (e.mapTexts f) type
  | case branches otherwise => case (mapTextsBranches f branches) (mapTextsOption f otherwise)
  | inList e items => inList (e.mapTexts f) (mapTextsList f items)
  | between e low high => between (e.mapTexts f) (low.mapTexts f) (high.mapTexts f)
  | subscript e index => subscript (e.mapTexts f) (index.mapTexts f)
  | field e name => field (e.mapTexts f) (f name)
  | withField e name value => withField (e.mapTexts f) (f name) (value.mapTexts f)
  | dropFields e names => dropFields (e.mapTexts f) (names.map f)
  | sort e direction nulls => sort (e.mapTexts f) direction nulls
  | window e partition order frame =>
    window (e.mapTexts f) (mapTextsList f partition) (mapTextsList f order) frame

def mapTextsList (f : String → String) : List Expr → List Expr
  | [] => []
  | e :: rest => e.mapTexts f :: mapTextsList f rest

def mapTextsBranches (f : String → String) : List (Expr × Expr) → List (Expr × Expr)
  | [] => []
  | (condition, value) :: rest =>
    (condition.mapTexts f, value.mapTexts f) :: mapTextsBranches f rest

def mapTextsOption (f : String → String) : Option Expr → Option Expr
  | none => none
  | some e => some (e.mapTexts f)

end

theorem unnamed_mapTexts (f : String → String) (e : Expr) :
    (e.mapTexts f).unnamed = e.unnamed.mapTexts f := by
  cases e <;> rfl

theorem mapTexts_rename (f : String → String) (name : String) (e : Expr) :
    (e.rename name).mapTexts f = .aliased (e.unnamed.mapTexts f) (f name) := by
  cases e <;> rfl

end Expr

namespace Supplies

variable {s : Supplies} {bound bound' : Nat}

/-- Strings that differ pairwise in the choice of the supply alone. -/
abbrev RenamedTexts (s : Supplies) (bound : Nat) : List String → List String → Prop :=
  List.Forall₂ (s.RenamedText bound)

namespace RenamedTexts

variable {as bs : List String}

theorem intercalate (h : s.RenamedTexts bound as bs) (separator : String)
    (hseparator : (isFront separator && isBack separator) = true) :
    s.RenamedText bound (separator.intercalate as) (separator.intercalate bs) := by
  induction h with
  | nil => exact .nil
  | cons ha hrest ih =>
    cases hrest with
    | nil =>
      rw [String.intercalate_singleton, String.intercalate_singleton]
      exact ha
    | cons =>
      rw [String.intercalate_cons_cons, String.intercalate_cons_cons]
      exact ha.joined separator hseparator ih

/-- Strings that are each the same under both supplies. -/
theorem of_fixed (h : ∀ a ∈ as, s.Fixed a) : s.RenamedTexts bound as as :=
  List.forall₂_same.mpr fun a ha => (h a ha).renamed

end RenamedTexts

/-- Names that differ in the choice of the supply alone, bare and between quotes. -/
structure RenamedName (s : Supplies) (bound : Nat) (n n' : String) : Prop where
  bare : s.RenamedText bound n n'
  quoted : s.RenamedText bound (Text.quoteString n) (Text.quoteString n')

theorem RenamedName.mono {n n' : String} (h : s.RenamedName bound n n') (hle : bound ≤ bound') :
    s.RenamedName bound' n n' :=
  ⟨h.bare.mono hle, h.quoted.mono hle⟩

/-- A name that the script supplies. -/
def FreeName (s : Supplies) (name : String) : Prop := s.RenamedName 0 name name

theorem FreeName.renamed {n : String} (h : s.FreeName n) : s.RenamedName bound n n :=
  RenamedName.mono h (Nat.zero_le _)

/-- Names of numbers of the supplies are written alike. -/
theorem Renamed.backquote {n n' : String} (h : s.RenamedText bound n n') :
    s.RenamedText bound (Text.backquote n) (Text.backquote n') := by
  unfold RenamedText at *
  rw [Text.toList_backquote, Text.toList_backquote]
  exact .mark rfl (h.doubleBackticks.append (.mark rfl .nil) (.inr rfl))

theorem RenamedText.quoteIdentifier {n n' : String} (h : s.RenamedText bound n n')
    (hplain : Text.isPlain n'.toList = Text.isPlain n.toList) (force : Bool) :
    s.RenamedText bound (Text.quoteIdentifier n force) (Text.quoteIdentifier n' force) := by
  unfold Text.quoteIdentifier
  rw [hplain]
  split
  · exact h
  · exact Renamed.backquote h

theorem FreeName.identifier {n : String} (h : s.FreeName n) (force : Bool) :
    s.Fixed (Text.quoteIdentifier n force) :=
  (RenamedName.bare h).quoteIdentifier rfl force

theorem renamedText_name {i : Nat} (hi : i < bound) :
    s.RenamedText bound (s.leftRun.nameAt i) (s.rightRun.nameAt i) := by
  have h : s.Renamed bound (s.left i ++ []) (s.right i ++ []) := .name hi rfl .nil
  rwa [List.append_nil, List.append_nil] at h

theorem renamedText_identifier {i : Nat} (hi : i < bound) (force : Bool) :
    s.RenamedText bound (Text.quoteIdentifier (s.leftRun.nameAt i) force)
      (Text.quoteIdentifier (s.rightRun.nameAt i) force) :=
  (renamedText_name hi).quoteIdentifier ((isPlain_right i).trans (isPlain_left i).symm) force

theorem renamedText_quoteString {i : Nat} (hi : i < bound) :
    s.RenamedText bound (Text.quoteString (s.leftRun.nameAt i))
      (Text.quoteString (s.rightRun.nameAt i)) := by
  have hleft := flatMap_escapeChar (Text.isWord_of_isPlain (isPlain_left (s := s) i))
  have hright := flatMap_escapeChar (Text.isWord_of_isPlain (isPlain_right (s := s) i))
  have hname : s.Renamed bound ((s.left i).flatMap Text.escapeChar)
      ((s.right i).flatMap Text.escapeChar) := by
    rw [hleft, hright]
    exact renamedText_name hi
  unfold RenamedText
  rw [Text.toList_quoteString, Text.toList_quoteString]
  exact .mark rfl (hname.append (.mark rfl .nil) (.inr rfl))

theorem renamedName_parameter {i : Nat} (hi : i < bound) :
    s.RenamedName bound (s.leftRun.nameAt i) (s.rightRun.nameAt i) :=
  ⟨renamedText_name hi, renamedText_quoteString hi⟩

/-- Two ways to exchange texts that make the same of two texts which differ in the choice of the
supply alone. -/
def Merges (s : Supplies) (bound : Nat) (f f' : String → String) : Prop :=
  ∀ {a b : String}, s.RenamedText bound a b → f' b = f a

theorem Merges.map {f f' : String → String} (hf : s.Merges bound f f') {names : List String}
    (h : ∀ n ∈ names, s.Fixed n) : names.map f' = names.map f :=
  List.map_congr_left fun n hn => hf ((h n hn).renamed)

/-- Two expressions that differ in the choice of the supply alone: as text, under an output name and
without it, and as trees. They come to the same where they are taken for a literal or for a name. -/
structure RenamedExpr (s : Supplies) (bound : Nat) (e e' : Expr) : Prop where
  tree : ∀ {f f'}, s.Merges bound f f' → e'.mapTexts f' = e.mapTexts f
  text : ∀ force, s.RenamedText bound (e.text force) (e'.text force)
  unnamed : ∀ force, s.RenamedText bound (e.unnamed.text force) (e'.unnamed.text force)
  literal : e'.literal? = e.literal?
  fixedLiteral : ∀ l, e.literal? = some l → s.Fixed l.text
  outputName : Option.Rel (s.RenamedName bound) e.outputName? e'.outputName?

/-- Expressions that differ pairwise in the choice of the supply alone. -/
abbrev RenamedExprs (s : Supplies) (bound : Nat) : List Expr → List Expr → Prop :=
  List.Forall₂ (s.RenamedExpr bound)

/-- Conditions and values that differ pairwise in the choice of the supply alone. -/
abbrev RenamedBranches (s : Supplies) (bound : Nat) :
    List (Expr × Expr) → List (Expr × Expr) → Prop :=
  List.Forall₂ fun b b' => s.RenamedExpr bound b.1 b'.1 ∧ s.RenamedExpr bound b.2 b'.2

namespace RenamedExpr

variable {e e' l l' r r' : Expr} {es es' fs fs' : List Expr}

theorem mono (h : s.RenamedExpr bound e e') (hle : bound ≤ bound') : s.RenamedExpr bound' e e' where
  tree hf := h.tree fun h => hf (RenamedText.mono h hle)
  text force := (h.text force).mono hle
  unnamed force := (h.unnamed force).mono hle
  literal := h.literal
  fixedLiteral := h.fixedLiteral
  outputName :=
    match e.outputName?, e'.outputName?, h.outputName with
    | _, _, .some h => .some (h.mono hle)
    | _, _, .none => .none

/-- A node that is neither named nor a literal is given by its tree and its text. -/
theorem of_text (htree : ∀ {f f'}, s.Merges bound f f' → e'.mapTexts f' = e.mapTexts f)
    (h : ∀ force, s.RenamedText bound (e.text force) (e'.text force))
    (hnode : e.unnamed = e ∧ e.literal? = none ∧ e.outputName? = none)
    (hnode' : e'.unnamed = e' ∧ e'.literal? = none ∧ e'.outputName? = none) :
    s.RenamedExpr bound e e' where
  tree := htree
  text := h
  unnamed force := by
    rw [hnode.1, hnode'.1]
    exact h force
  literal := hnode'.2.1.trans hnode.2.1.symm
  fixedLiteral l hl := by
    rw [hnode.2.1] at hl
    cases hl
  outputName := by
    rw [hnode.2.2, hnode'.2.2]
    exact .none

section Trees

variable {f f' : String → String} (hf : s.Merges bound f f')

include hf

theorem list_tree (h : s.RenamedExprs bound es es') :
    Expr.mapTextsList f' es' = Expr.mapTextsList f es := by
  induction h with
  | nil => rfl
  | cons he _ ih => exact congrArg₂ List.cons (he.tree hf) ih

theorem branches_tree {bs bs' : List (Expr × Expr)} (h : s.RenamedBranches bound bs bs') :
    Expr.mapTextsBranches f' bs' = Expr.mapTextsBranches f bs := by
  induction h with
  | nil => rfl
  | cons hb _ ih =>
    exact congrArg₂ List.cons (congrArg₂ Prod.mk (hb.1.tree hf) (hb.2.tree hf)) ih

theorem option_tree {o o' : Option Expr} (h : Option.Rel (s.RenamedExpr bound) o o') :
    Expr.mapTextsOption f' o' = Expr.mapTextsOption f o := by
  cases h with
  | none => rfl
  | some h => exact congrArg some (h.tree hf)

end Trees

theorem listText (h : s.RenamedExprs bound es es') (force : Bool) :
    s.RenamedText bound (Expr.listText force es) (Expr.listText force es') := by
  rw [Expr.listText_eq, Expr.listText_eq]
  have htexts : s.RenamedTexts bound (es.map (Expr.text force)) (es'.map (Expr.text force)) :=
    List.rel_map (fun _ _ h => h.text force) h
  exact htexts.intercalate ", " (by decide)

theorem isEmpty_eq (h : s.RenamedExprs bound es es') : es'.isEmpty = es.isEmpty := by
  cases h <;> rfl

theorem raw {a a' : String} (h : s.RenamedText bound a a') :
    s.RenamedExpr bound (.raw a) (.raw a') :=
  .of_text (fun hf => congrArg Expr.raw (hf h)) (fun _ => h) ⟨rfl, rfl, rfl⟩ ⟨rfl, rfl, rfl⟩

theorem literal_of_fixed {l : Literal} (h : s.Fixed l.text) :
    s.RenamedExpr bound (.literal l) (.literal l) where
  tree _ := rfl
  text _ := h.renamed
  unnamed _ := h.renamed
  literal := rfl
  fixedLiteral _ hl := Option.some.inj hl ▸ h
  outputName := .none

/-- A column of a name without qualifier. -/
theorem column {n n' : String} (hn : s.RenamedName bound n n')
    (h : ∀ force,
      s.RenamedText bound (Text.quoteIdentifier n force) (Text.quoteIdentifier n' force)) :
    s.RenamedExpr bound (.column none n) (.column none n') where
  tree hf := congrArg (Expr.column none) (hf hn.bare)
  text := h
  unnamed := h
  literal := rfl
  fixedLiteral _ hl := nomatch hl
  outputName := .some hn

/-- The columns of a parameter under both supplies. -/
theorem parameter {i : Nat} (hi : i < bound) :
    s.RenamedExpr bound (.column none (s.leftRun.nameAt i)) (.column none (s.rightRun.nameAt i)) :=
  column (renamedName_parameter hi) (renamedText_identifier hi)

/-- A column whose qualifier is supplied by the script. -/
theorem qualified {q n : String} (hq : s.FreeName q) (hn : s.FreeName n) :
    s.RenamedExpr bound (.column (some q) n) (.column (some q) n) where
  tree hf := congrArg₂ Expr.column (congrArg some (hf (FreeName.renamed hq).bare))
    (hf (FreeName.renamed hn).bare)
  text force := (hq.identifier force).renamed.joined "." (by decide) (hn.identifier force).renamed
  unnamed force := (hq.identifier force).renamed.joined "." (by decide) (hn.identifier force).renamed
  literal := rfl
  fixedLiteral _ hl := nomatch hl
  outputName := .some hn.renamed

theorem aliased {n : String} (hn : s.FreeName n) (h : s.RenamedExpr bound e e') :
    s.RenamedExpr bound (.aliased e n) (.aliased e' n) where
  tree hf := congrArg₂ Expr.aliased (h.tree hf) (hf (FreeName.renamed hn).bare)
  text force := (h.text force).joined " AS " (by decide) (hn.identifier false).renamed
  unnamed := h.text
  literal := h.literal
  fixedLiteral := h.fixedLiteral
  outputName := .some hn.renamed

theorem rename {n : String} (hn : s.FreeName n) (h : s.RenamedExpr bound e e') :
    s.RenamedExpr bound (e.rename n) (e'.rename n) where
  tree hf := by
    rw [Expr.mapTexts_rename, Expr.mapTexts_rename, ← Expr.unnamed_mapTexts, ← Expr.unnamed_mapTexts,
      h.tree hf, hf (FreeName.renamed hn).bare]
  text force := by
    have htext := (h.unnamed force).joined " AS " (by decide) (hn.identifier false).renamed
    cases e <;> cases e' <;> exact htext
  unnamed force := by
    have hunnamed := h.unnamed force
    cases e <;> cases e' <;> exact hunnamed
  literal := by
    have hliteral := h.literal
    cases e <;> cases e' <;> exact hliteral
  fixedLiteral l hl := by
    refine h.fixedLiteral l ?_
    cases e <;> exact hl
  outputName := by
    cases e <;> cases e' <;> exact .some hn.renamed

theorem multiAliased {names : List String} (hnames : ∀ n ∈ names, s.FreeName n)
    (h : s.RenamedExpr bound e e') :
    s.RenamedExpr bound (.multiAliased e names) (.multiAliased e' names) := by
  refine .of_text (fun hf => ?_) (fun force => ?_) ⟨rfl, rfl, rfl⟩ ⟨rfl, rfl, rfl⟩
  · exact congrArg₂ Expr.multiAliased (h.tree hf) (hf.map fun n hn => (hnames n hn).bare)
  have hidentifiers : s.RenamedTexts bound (names.map (Text.quoteIdentifier · false))
      (names.map (Text.quoteIdentifier · false)) :=
    .of_fixed (List.forall_mem_map.mpr fun n hn => (hnames n hn).identifier false)
  have hlist := hidentifiers.intercalate ", " (by decide)
  exact ((h.text force).joined " AS (" (by decide) hlist).before ")" (by decide)

theorem unary (op : UnaryOp) (h : s.RenamedExpr bound e e') :
    s.RenamedExpr bound (.unary op e) (.unary op e') := by
  refine .of_text (fun hf => ?_) (fun force => ?_) ⟨rfl, rfl, rfl⟩ ⟨rfl, rfl, rfl⟩
  · exact congrArg (Expr.unary op) (h.tree hf)
  have htext := h.text force
  cases op with
  | not => exact htext.enclosed "(NOT " ")" (by decide) (by decide)
  | negate => exact htext.enclosed "(- " ")" (by decide) (by decide)
  | bitwiseNot => exact htext.behind "~" (by decide)
  | isNull => exact htext.enclosed "(" " IS NULL)" (by decide) (by decide)
  | isNotNull => exact htext.enclosed "(" " IS NOT NULL)" (by decide) (by decide)

theorem binary (op : BinaryOp) (hl : s.RenamedExpr bound l l') (hr : s.RenamedExpr bound r r') :
    s.RenamedExpr bound (.binary op l r) (.binary op l' r') := by
  refine .of_text (fun hf => ?_) (fun force => ?_) ⟨rfl, rfl, rfl⟩ ⟨rfl, rfl, rfl⟩
  · exact congrArg₂ (Expr.binary op) (hl.tree hf) (hr.tree hf)
  have hsymbol : s.Fixed op.symbol := fixed_of_words (by cases op <;> decide)
  exact ((((hl.text force).behind "(" (by decide)).joined " " (by decide) hsymbol.renamed).joined
    " " (by decide) (hr.text force)).before ")" (by decide)

theorem call {function : String} (hfunction : s.Fixed function)
    (h : s.RenamedExprs bound es es') :
    s.RenamedExpr bound (.call function es) (.call function es') := by
  refine .of_text (fun hf => ?_) (fun force => ?_) ⟨rfl, rfl, rfl⟩ ⟨rfl, rfl, rfl⟩
  · exact congrArg₂ Expr.call (hf hfunction.renamed) (list_tree hf h)
  exact (hfunction.renamed.joined "(" (by decide) (listText h force)).before ")" (by decide)

theorem cast {type : DataType} (htype : s.Fixed type.text) (h : s.RenamedExpr bound e e') :
    s.RenamedExpr bound (.cast e type) (.cast e' type) := by
  refine .of_text (fun hf => ?_) (fun force => ?_) ⟨rfl, rfl, rfl⟩ ⟨rfl, rfl, rfl⟩
  · exact congrArg (Expr.cast · type) (h.tree hf)
  exact (((h.text force).behind "CAST(" (by decide)).joined " AS " (by decide)
    htype.renamed).before ")" (by decide)

theorem inList (h : s.RenamedExpr bound e e') (hs : s.RenamedExprs bound es es') :
    s.RenamedExpr bound (.inList e es) (.inList e' es') := by
  refine .of_text (fun hf => ?_) (fun force => ?_) ⟨rfl, rfl, rfl⟩ ⟨rfl, rfl, rfl⟩
  · exact congrArg₂ Expr.inList (h.tree hf) (list_tree hf hs)
  exact (((h.text force).behind "(" (by decide)).joined " IN (" (by decide)
    (listText hs force)).before "))" (by decide)

theorem between (h : s.RenamedExpr bound e e') (hl : s.RenamedExpr bound l l')
    (hr : s.RenamedExpr bound r r') :
    s.RenamedExpr bound (.between e l r) (.between e' l' r') := by
  refine .of_text (fun hf => ?_) (fun force => ?_) ⟨rfl, rfl, rfl⟩ ⟨rfl, rfl, rfl⟩
  · change Expr.between _ _ _ = Expr.between _ _ _
    rw [h.tree hf, hl.tree hf, hr.tree hf]
  exact ((((h.text force).behind "(" (by decide)).joined " BETWEEN " (by decide)
    (hl.text force)).joined " AND " (by decide) (hr.text force)).before ")" (by decide)

theorem subscript (h : s.RenamedExpr bound e e') (hl : s.RenamedExpr bound l l') :
    s.RenamedExpr bound (.subscript e l) (.subscript e' l') := by
  refine .of_text (fun hf => ?_) (fun force => ?_) ⟨rfl, rfl, rfl⟩ ⟨rfl, rfl, rfl⟩
  · exact congrArg₂ Expr.subscript (h.tree hf) (hl.tree hf)
  exact ((h.text force).joined "[" (by decide) (hl.text force)).before "]" (by decide)

theorem field {n : String} (hn : s.FreeName n) (h : s.RenamedExpr bound e e') :
    s.RenamedExpr bound (.field e n) (.field e' n) := by
  have htext : ∀ force, s.RenamedText bound (Expr.text force (.field e n))
      (Expr.text force (.field e' n)) := fun force =>
    (h.text force).joined "." (by decide) (hn.identifier false).renamed
  refine ⟨fun hf => ?_, htext, htext, rfl, fun _ hl => (nomatch hl), .some hn.renamed⟩
  exact congrArg₂ Expr.field (h.tree hf) (hf (FreeName.renamed hn).bare)

theorem withField {n n' : String} (hn : s.RenamedName bound n n')
    (h : s.RenamedExpr bound e e') (hr : s.RenamedExpr bound r r') :
    s.RenamedExpr bound (.withField e n r) (.withField e' n' r') := by
  refine .of_text (fun hf => ?_) (fun force => ?_) ⟨rfl, rfl, rfl⟩ ⟨rfl, rfl, rfl⟩
  · change Expr.withField _ _ _ = Expr.withField _ _ _
    rw [h.tree hf, hf hn.bare, hr.tree hf]
  exact ((((h.text force).behind "withField(" (by decide)).joined ", " (by decide)
    hn.quoted).joined ", " (by decide) (hr.text force)).before ")" (by decide)

theorem dropFields {names : List String} (hnames : ∀ n ∈ names, s.FreeName n)
    (h : s.RenamedExpr bound e e') :
    s.RenamedExpr bound (.dropFields e names) (.dropFields e' names) := by
  refine .of_text (fun hf => ?_) (fun force => ?_) ⟨rfl, rfl, rfl⟩ ⟨rfl, rfl, rfl⟩
  · exact congrArg₂ Expr.dropFields (h.tree hf) (hf.map fun n hn => (hnames n hn).bare)
  have hquoted : s.RenamedTexts bound (names.map Text.quoteString) (names.map Text.quoteString) :=
    .of_fixed (List.forall_mem_map.mpr fun n hn => (hnames n hn).quoted)
  have hlist := RenamedTexts.intercalate (.cons (h.text force) hquoted) ", " (by decide)
  exact hlist.enclosed "dropFields(" ")" (by decide) (by decide)

theorem sort (direction : Direction) (nulls : NullOrder) (h : s.RenamedExpr bound e e') :
    s.RenamedExpr bound (.sort e direction nulls) (.sort e' direction nulls) := by
  refine .of_text (fun hf => ?_) (fun force => ?_) ⟨rfl, rfl, rfl⟩ ⟨rfl, rfl, rfl⟩
  · exact congrArg (Expr.sort · direction nulls) (h.tree hf)
  have hdirection : s.Fixed direction.text := fixed_of_words (by cases direction <;> decide)
  have hnulls : s.Fixed nulls.text := fixed_of_words (by cases nulls <;> decide)
  exact ((h.text force).joined " " (by decide) hdirection.renamed).joined " " (by decide)
    hnulls.renamed

theorem head_branchesText (force : Bool) (bs : List (Expr × Expr)) :
    isWordAt (Expr.branchesText force bs).toList.head? = false := by
  cases bs with
  | nil => rfl
  | cons b bs =>
    simp only [Expr.branchesText, String.toList_append, List.append_assoc]
    rfl

theorem head_elseText (force : Bool) (o : Option Expr) :
    isWordAt (Expr.elseText force o).toList.head? = false := by
  cases o with
  | none => rfl
  | some e =>
    simp only [Expr.elseText, String.toList_append]
    rfl

theorem branchesText {bs bs' : List (Expr × Expr)} (h : s.RenamedBranches bound bs bs')
    (force : Bool) :
    s.RenamedText bound (Expr.branchesText force bs) (Expr.branchesText force bs') := by
  induction h with
  | nil => exact .nil
  | cons hb _ ih =>
    exact (((hb.1.text force).behind " WHEN " (by decide)).joined " THEN " (by decide)
      (hb.2.text force)).append ih (.inr (head_branchesText force _))

theorem elseText {o o' : Option Expr} (h : Option.Rel (s.RenamedExpr bound) o o') (force : Bool) :
    s.RenamedText bound (Expr.elseText force o) (Expr.elseText force o') := by
  cases h with
  | none => exact .nil
  | some h => exact (h.text force).behind " ELSE " (by decide)

theorem case {bs bs' : List (Expr × Expr)} {o o' : Option Expr}
    (hbs : s.RenamedBranches bound bs bs') (ho : Option.Rel (s.RenamedExpr bound) o o') :
    s.RenamedExpr bound (.case bs o) (.case bs' o') := by
  refine .of_text (fun hf => ?_) (fun force => ?_) ⟨rfl, rfl, rfl⟩ ⟨rfl, rfl, rfl⟩
  · exact congrArg₂ Expr.case (branches_tree hf hbs) (option_tree hf ho)
  have hkeyword : s.Fixed "CASE" := fixed_of_words (by decide)
  exact ((hkeyword.renamed.append (branchesText hbs force) (.inr (head_branchesText force _))).append
    (elseText ho force) (.inr (head_elseText force _))).before " END" (by decide)

theorem sectionText (keyword : String) (hkeyword : isFront keyword = true)
    (h : s.RenamedExprs bound es es') (force : Bool) :
    s.RenamedTexts bound (Columnar.sectionText keyword (Expr.listText force es) es.isEmpty)
      (Columnar.sectionText keyword (Expr.listText force es') es'.isEmpty) := by
  unfold Columnar.sectionText
  rw [isEmpty_eq h]
  split
  · exact .nil
  · exact .cons ((listText h force).behind keyword hkeyword) .nil

theorem fixed_natural (n : Nat) : s.Fixed (Number.natural n) :=
  fixed_of_not_mem (Number.marks_natural n).not_mem_underscore

theorem fixed_frameBound (b : FrameBound) : s.Fixed b.text := by
  cases b with
  | unboundedPreceding => exact fixed_of_words (by decide)
  | currentRow => exact fixed_of_words (by decide)
  | unboundedFollowing => exact fixed_of_words (by decide)
  | preceding n => exact (fixed_natural n.toNat).before " PRECEDING" (by decide)
  | following n => exact (fixed_natural n.toNat).before " FOLLOWING" (by decide)

theorem fixed_frameSpan (f : FrameSpan) : s.Fixed f.text := by
  have hunit : s.Fixed f.unit.text := fixed_of_words (by cases f.unit <;> decide)
  exact (hunit.joined " BETWEEN " (by decide) (fixed_frameBound f.start)).joined " AND " (by decide)
    (fixed_frameBound f.stop)

theorem window (frame : Option FrameSpan) (h : s.RenamedExpr bound e e')
    (hpartition : s.RenamedExprs bound es es') (horder : s.RenamedExprs bound fs fs') :
    s.RenamedExpr bound (.window e es fs frame) (.window e' es' fs' frame) := by
  refine .of_text (fun hf => ?_) (fun force => ?_) ⟨rfl, rfl, rfl⟩ ⟨rfl, rfl, rfl⟩
  · change Expr.window _ _ _ _ = Expr.window _ _ _ _
    rw [h.tree hf, list_tree hf hpartition, list_tree hf horder]
  have hframe : s.RenamedTexts bound (frame.map FrameSpan.text).toList
      (frame.map FrameSpan.text).toList := .of_fixed (by cases frame <;> simp [fixed_frameSpan])
  have hsections := List.rel_append (List.rel_append
    (sectionText "PARTITION BY " (by decide) hpartition force)
    (sectionText "ORDER BY " (by decide) horder force)) hframe
  have hlist := RenamedTexts.intercalate hsections " " (by decide)
  exact ((h.text force).joined " OVER (" (by decide) hlist).before ")" (by decide)

end RenamedExpr

end Supplies

end Columnar
