import Columnar.Proofs.Literal.Decode

/-! The text of an expression shows the expression: two expressions with one text differ at most in
what no text shows. Operators with two operands stand in parentheses, and what stands without them
ends with a bracket or with a word that nothing prolongs. -/
namespace Columnar.Expr

mutual

/-- What the text of an expression shows: the text of a literal, the type of a cast without its
nullability, and a qualified column as a field of the column that has the qualifier as its name. -/
def shown : Expr → Expr
  | column none name => column none name
  | column (some qualifier) name => field (column none qualifier) name
  | literal value => raw value.text
  | raw text => raw text
  | aliased e name => aliased e.shown name
  | multiAliased e names => multiAliased e.shown names
  | unary op e => unary op e.shown
  | binary op l r => binary op l.shown r.shown
  | call function args => call function (shownList args)
  | cast e type => cast e.shown type.relaxed
  | case branches otherwise => case (shownBranches branches) (shownOption otherwise)
  | inList e items => inList e.shown (shownList items)
  | between e low high => between e.shown low.shown high.shown
  | subscript e index => subscript e.shown index.shown
  | field e name => field e.shown name
  | withField e name value => withField e.shown name value.shown
  | dropFields e names => dropFields e.shown names
  | sort e direction nulls => sort e.shown direction nulls
  | window e partition order frame => window e.shown (shownList partition) (shownList order) frame

def shownList : List Expr → List Expr
  | [] => []
  | e :: rest => e.shown :: shownList rest

def shownBranches : List (Expr × Expr) → List (Expr × Expr)
  | [] => []
  | (condition, value) :: rest => (condition.shown, value.shown) :: shownBranches rest

def shownOption : Option Expr → Option Expr
  | none => none
  | some e => some e.shown

end

/-- The words with which the text of a literal, a case, a cast or a negation can start. -/
def openingWords : List String :=
  ["CASE", "CAST", "array", "INTERVAL", "NULL", "true", "false", "DATE", "TIMESTAMP", "NOT"]

def isComplement : Expr → Bool
  | unary .bitwiseNot _ => true
  | _ => false

/-- The expression by which a key of a window orders. -/
def keyOperand : Expr → Expr
  | sort e _ _ => e
  | e => e

/-- An expression of nodes whose texts can be told apart. There are no texts, output names or
changed structs in it and orders are keys of windows only; no name could be taken for the start of
another node; and nothing prolongs a complement, which is written without parentheses. -/
inductive Legible : Expr → Prop
  | column {name} : name ∉ openingWords → Legible (column none name)
  | qualified {qualifier} (name) : qualifier ∉ openingWords → Legible (column (some qualifier) name)
  | literal (value) : Legible (literal value)
  | unary (op) {e} : Legible e → Legible (unary op e)
  | binary (op) {l r} : Legible l → Legible r → Legible (binary op l r)
  | call {function args} : Text.isPlain function.toList → function ∉ openingWords →
      (∀ e ∈ args, Legible e) → Legible (call function args)
  | cast (type) {e} : Legible e → Legible (cast e type)
  | case {branches otherwise} : (∀ b ∈ branches, Legible b.1) → (∀ b ∈ branches, Legible b.2) →
      (∀ e ∈ otherwise, Legible e) → Legible (case branches otherwise)
  | inList {e items} : Legible e → (∀ item ∈ items, Legible item) → Legible (inList e items)
  | between {e low high} : Legible e → Legible low → Legible high → Legible (between e low high)
  | subscript {e index} : Legible e → e.isComplement = false → Legible index →
      Legible (subscript e index)
  | field (name) {e} : Legible e → e.isComplement = false → Legible (field e name)
  | window (frame) {e partition order} : Legible e → e.isComplement = false →
      (∀ key ∈ partition, Legible key) → (∀ key ∈ order, Legible key.keyOperand) →
      Legible (window e partition order frame)

variable {force : Bool}

theorem lookup_keywords {word : String} (h : word ∉ openingWords) :
    keywords.lookup word = none := by
  rw [List.lookup_eq_none_iff]
  intro entry hentry
  have hne : word ≠ entry.1 := by
    rintro rfl
    exact h (List.mem_map_of_mem hentry)
  simpa using hne

theorem isEmpty_shownList (es : List Expr) : (shownList es).isEmpty = es.isEmpty := by
  cases es <;> rfl

/-- The text of an expression reads as what it shows, and what stands behind the text of anything
but a complement may prolong that. -/
structure Readable (force : Bool) (e : Expr) : Prop where
  whole : Whole (e.text force).toList e.shown
  toOpen : e.isComplement = false → Open (e.text force).toList e.shown

theorem Readable.of_open {e : Expr} {cs : List Char} (h : Open cs e.shown)
    (htext : (e.text force).toList = cs) : Readable force e := by
  subst htext
  exact ⟨h.whole, fun _ => h⟩

theorem Readable.of_primary {e : Expr} {cs : List Char} (h : Primary cs e.shown)
    (htext : (e.text force).toList = cs) : Readable force e :=
  .of_open h.toOpen htext

theorem items_listText {es : List Expr}
    (h : ∀ e ∈ es, Item (e.text force).toList e.shown) :
    Items (listText force es).toList (shownList es) := by
  match es with
  | [] => exact .nil
  | [e] => exact .single (h e (by simp))
  | e :: f :: rest =>
    have hmore : Items (listText force (f :: rest)).toList (shownList (f :: rest)) :=
      items_listText fun g hg => h g (List.mem_cons_of_mem e hg)
    have htext : (listText force (e :: f :: rest)).toList =
        (e.text force).toList ++ (", ".toList ++ (listText force (f :: rest)).toList) := by
      simp [listText]
    rw [htext]
    exact .cons (h e (by simp)) hmore

theorem Readable.key {key : Expr} (h : Readable force key.keyOperand) :
    Item (key.text force).toList key.shown := by
  cases key with
  | sort e direction nulls =>
    have htext : ((sort e direction nulls).text force).toList =
        (e.text force).toList ++ (" " ++ direction.text ++ " " ++ nulls.text).toList := by
      simp [text]
    rw [htext]
    exact h.whole.sorted direction nulls
  | _ => exact h.whole.item

theorem branches_branchesText {branches : List (Expr × Expr)}
    (hconditions : ∀ b ∈ branches, Readable force b.1)
    (hvalues : ∀ b ∈ branches, Readable force b.2) :
    Branches (branchesText force branches).toList (shownBranches branches) := by
  induction branches with
  | nil => exact .nil
  | cons branch rest ih =>
    obtain ⟨condition, value⟩ := branch
    have hrest := ih (fun b hb => hconditions b (by simp [hb])) fun b hb => hvalues b (by simp [hb])
    have htext : (branchesText force ((condition, value) :: rest)).toList =
        " WHEN ".toList ++ ((condition.text force).toList ++ (" THEN ".toList ++
          ((value.text force).toList ++ (branchesText force rest).toList))) := by
      simp [branchesText]
    rw [htext]
    exact .cons (hconditions (condition, value) (by simp)).whole
      (hvalues (condition, value) (by simp)).whole hrest

theorem Readable.unary {e : Expr} (h : Readable force e) (op : UnaryOp) :
    Readable force (unary op e) := by
  cases op with
  | bitwiseNot =>
    have htext : ((Expr.unary .bitwiseNot e).text force).toList = '~' :: (e.text force).toList := by
      simp [text, UnaryOp.apply]
    refine ⟨?_, fun hcomplement => by cases hcomplement⟩
    rw [htext]
    exact h.whole.complement
  | not =>
    have hop : ("NOT ", UnaryOp.not) ∈ prefixes := by simp [prefixes]
    exact .of_primary (h.whole.prefixed hop) (by simp [text, UnaryOp.apply])
  | negate =>
    have hop : ("- ", UnaryOp.negate) ∈ prefixes := by simp [prefixes]
    exact .of_primary (h.whole.prefixed hop) (by simp [text, UnaryOp.apply])
  | isNull => exact .of_primary h.whole.isNull (by simp [text, UnaryOp.apply])
  | isNotNull => exact .of_primary h.whole.isNotNull (by simp [text, UnaryOp.apply])

/-- The text of a legible expression reads as what it shows. -/
theorem Legible.readable {e : Expr} (h : e.Legible) (force : Bool) : Readable force e := by
  -- the base of a subscript, a field or a window is no complement, so its text may be prolonged
  induction h with
  | column hname => exact .of_primary (.column (lookup_keywords hname) force) rfl
  | qualified name hqualifier =>
    have hcolumn := (Primary.column (lookup_keywords hqualifier) force).toOpen
    exact .of_open (hcolumn.field name force) (by simp [text, columnText])
  | literal value => exact .of_primary (.literal value) rfl
  | unary op _ ih => exact ih.unary op
  | binary op _ _ ihl ihr => exact .of_primary (ihl.whole.binary op ihr.whole) (by simp [text])
  | call hplain hname _ ih =>
    have hargs := items_listText fun e he => (ih e he).whole.item
    exact .of_primary (.call hplain (lookup_keywords hname) hargs) (by simp [text])
  | cast type _ ih => exact .of_primary (ih.whole.cast type) (by simp [text])
  | @case branches otherwise _ _ _ ihc ihv ihe =>
    have hbranches := branches_branchesText ihc ihv
    cases otherwise with
    | none => exact .of_primary hbranches.case (by simp [text, elseText])
    | some e => exact .of_primary (hbranches.caseElse (ihe e rfl).whole) (by simp [text, elseText])
  | inList _ _ ih ihs =>
    have hitems := items_listText fun e he => (ihs e he).whole.item
    exact .of_primary (ih.whole.inList hitems) (by simp [text])
  | between _ _ _ ih ihl ihh =>
    exact .of_primary (ih.whole.between ihl.whole ihh.whole) (by simp [text])
  | subscript _ hbase _ ih ihi =>
    exact .of_open ((ih.toOpen hbase).subscript ihi.whole) (by simp [text])
  | field name _ hbase ih => exact .of_open ((ih.toOpen hbase).field name false) (by simp [text])
  | @window frame e partition order _ hbase _ _ ih ihp iho =>
    have hpartition := items_listText fun e he => (ihp e he).whole.item
    have horder := items_listText fun e he => (iho e he).key
    exact .of_open ((ih.toOpen hbase).window hpartition horder frame)
      (by simp [text, closing, frameParts, isEmpty_shownList])

/-- Rendering is unambiguous: with or without back-quoted columns, legible expressions with the same
text show the same. -/
theorem Legible.shown_eq_of_text_eq (force : Bool) {e e' : Expr} (h : e.Legible) (h' : e'.Legible)
    (heq : e.text force = e'.text force) : e.shown = e'.shown := by
  have hread := (h.readable force).whole [] rfl
  have hread' := (h'.readable force).whole [] rfl
  rw [heq] at hread
  exact congrArg Prod.fst (hread.unique hread')

/-- Two casts with one text: the operands name the same field in two ways, and the types differ in
what may be null. -/
theorem shown_eq_of_text_eq_cast :
    Legible (cast (column (some "o") "n") (.array .integer true)) ∧
    Legible (cast (field (column none "o") "n") (.array .integer false)) ∧
    (cast (column (some "o") "n") (.array .integer true)).text false =
      (cast (field (column none "o") "n") (.array .integer false)).text false ∧
    (cast (column (some "o") "n") (.array .integer true)).shown =
      (cast (field (column none "o") "n") (.array .integer false)).shown := by
  have h : Legible (cast (column (some "o") "n") (.array .integer true)) :=
    .cast _ (.qualified "n" (by decide))
  have h' : Legible (cast (field (column none "o") "n") (.array .integer false)) :=
    .cast _ (.field "n" (.column (by decide)) rfl)
  exact ⟨h, h', rfl, h.shown_eq_of_text_eq false h' rfl⟩

end Columnar.Expr
