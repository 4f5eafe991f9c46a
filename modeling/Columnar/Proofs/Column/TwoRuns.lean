import Columnar.Proofs.Column.Alike
import Columnar.Proofs.Column.Numbering

/-! The evaluation of one script under two supplies. Both runs take the same numbers from their
supplies and fail for the same reason, and what they come to is made in the same way. -/
namespace Columnar

/-! Two computations that go on side by side. -/

/-- Two results are the same error, or values in relation that leave the same number next, which is
not lower than the first. -/
inductive Agree {α : Type} (P : Nat → α → α → Prop) (n : Nat) :
    Except TermError (α × Nat) → Except TermError (α × Nat) → Prop
  | error (e : TermError) : Agree P n (.error e) (.error e)
  | ok {a b : α} {m : Nat} (hle : n ≤ m) (h : P m a b) : Agree P n (.ok (a, m)) (.ok (b, m))

namespace Agree

variable {α β : Type} {P : Nat → α → α → Prop} {Q : Nat → β → β → Prop} {n : Nat}
  {x y : Minting α} {f g : α → Minting β}

theorem bind (h : Agree P n (x.run n) (y.run n))
    (hf : ∀ {m a b}, n ≤ m → P m a b → Agree Q m ((f a).run m) ((g b).run m)) :
    Agree Q n ((x >>= f).run n) ((y >>= g).run n) := by
  rw [StateT.run_bind, StateT.run_bind]
  generalize x.run n = r, y.run n = r' at h
  cases h with
  | error e => exact .error e
  | ok hle h =>
    have hagree := hf hle h
    change Agree Q n ((f _).run _) ((g _).run _)
    generalize (f _).run _ = r, (g _).run _ = r' at hagree ⊢
    cases hagree with
    | error e => exact .error e
    | ok hle' h' => exact .ok (hle.trans hle') h'

theorem pure {a b : α} (h : P n a b) :
    Agree P n ((Pure.pure a : Minting α).run n) ((Pure.pure b : Minting α).run n) :=
  .ok (Nat.le_refl n) h

theorem throw (e : TermError) :
    Agree P n ((MonadExcept.throw e : Minting α).run n) ((MonadExcept.throw e : Minting α).run n) :=
  .error e

theorem require {R : α → α → Prop} {o o' : Option α} (h : Option.Rel R o o') :
    Agree (fun _ => R) n ((Minting.require o).run n) ((Minting.require o').run n) := by
  cases h with
  | none => exact .error _
  | some h => exact .pure h

theorem require_self (o : Option α) :
    Agree (fun _ a b => b = a ∧ o = some a) n ((Minting.require o).run n)
      ((Minting.require o).run n) := by
  cases o with
  | none => exact .error _
  | some a => exact .pure ⟨rfl, rfl⟩

/-- Runs that are the same under some condition give the same value under it, besides what else
holds of their values. -/
theorem and_eq {c : Prop} {r r' : Except TermError (α × Nat)} (h : Agree P n r r')
    (heq : c → r' = r) : Agree (fun m a b => P m a b ∧ (c → b = a)) n r r' := by
  cases h with
  | error e => exact .error e
  | ok hle h =>
    refine .ok hle ⟨h, fun hc => ?_⟩
    cases heq hc
    rfl

end Agree

namespace Supplies

variable {s : Supplies} {bound bound' n : Nat} {scope scope' : List Nat}

/-! Values and environments. -/

/-- Values made in the same way under both supplies. -/
def AlikeValue (s : Supplies) (bound : Nat) (scope : List Nat) (v v' : Value) : Prop :=
  s.Alike bound scope [.value v] [.value v']

theorem AlikeValue.kind {v v' : Value} (h : s.AlikeValue bound scope v v') :
    v'.kind = v.kind ∧ s.FreeKind v.kind := by
  cases Alike.renamed h with
  | cons h _ =>
    cases h with
    | value hk _ => exact ⟨rfl, hk⟩

theorem AlikeValue.mono {v v' : Value} (h : s.AlikeValue bound scope v v') (hbound : bound ≤ bound')
    (hscope : scope ⊆ scope') : s.AlikeValue bound' scope' v v' :=
  Alike.mono h hbound hscope

/-- Environments with the same variables for values made in the same way. -/
def AlikeEnvironment (s : Supplies) (bound : Nat) (scope : List Nat) :
    Environment → Environment → Prop :=
  List.Forall₂ fun x x' => x'.1 = x.1 ∧ s.AlikeValue bound scope x.2 x'.2

variable {env env' : Environment}

theorem AlikeEnvironment.mono (h : s.AlikeEnvironment bound scope env env') (hbound : bound ≤ bound')
    (hscope : scope ⊆ scope') : s.AlikeEnvironment bound' scope' env env' :=
  List.Forall₂.imp (fun _ _ h => ⟨h.1, h.2.mono hbound hscope⟩) h

theorem AlikeEnvironment.lookup (h : s.AlikeEnvironment bound scope env env') (name : String) :
    Option.Rel (s.AlikeValue bound scope) (env.lookup name) (env'.lookup name) := by
  induction h with
  | nil => exact .none
  | @cons x x' _ _ hx _ ih =>
    obtain ⟨key, v⟩ := x
    obtain ⟨key', v'⟩ := x'
    obtain ⟨rfl, hv⟩ := hx
    rw [List.lookup_cons, List.lookup_cons]
    dsimp only
    cases name == key' with
    | true => exact .some hv
    | false => exact ih

/-- Both operands are values, or neither is. -/
theorem Alike.value? {o o' : Operand} (h : s.Alike bound scope [o] [o']) :
    Option.Rel (fun v v' => (o = .value v ∧ o' = .value v') ∧ s.AlikeValue bound scope v v')
      o.value? o'.value? := by
  have hrenamed := h.renamed
  cases hrenamed with
  | cons ho _ =>
    cases ho with
    | value _ _ => exact .some ⟨⟨rfl, rfl⟩, h⟩
    | lambda _ => exact .none

/-- Both runs accept a value at a place, or neither does. -/
theorem AlikeValue.accept {v v' : Value} (h : s.AlikeValue n scope v v') (p : Param) :
    Agree (fun m o o' => s.Alike m scope [o] [o']) n ((p.accept v).run n) ((p.accept v').run n) := by
  unfold Param.accept
  rw [h.kind.1]
  split
  · exact .pure h
  · exact .throw _

/-- A method makes values of its operands in both runs, or in neither. -/
theorem Alike.apply {m : Method} {os os' : List Operand} (hm : s.FreeMethod m)
    (h : s.Alike n scope os os')
    (hitems : m.form = .membership → (Operand.exprs os').tail = (Operand.exprs os).tail) :
    Agree (fun bound => s.AlikeValue bound scope) n ((m.apply s.leftRun os).run n)
      ((m.apply s.rightRun os').run n) := by
  have hbuild := hm.form.build (renamedExprs_exprs h.renamed) (renamedLambdas_lambdas h.renamed)
    hitems s.config.quoteIdentifiers
  have halike : Option.Rel (fun e e' => s.AlikeValue n scope ⟨m.result, e⟩ ⟨m.result, e'⟩)
      (m.form.build? s.config.quoteIdentifiers (Operand.exprs os) (Operand.lambdas os))
      (m.form.build? s.config.quoteIdentifiers (Operand.exprs os') (Operand.lambdas os')) := by
    cases he : m.form.build? s.config.quoteIdentifiers (Operand.exprs os) (Operand.lambdas os) <;>
      cases he' : m.form.build? s.config.quoteIdentifiers (Operand.exprs os') (Operand.lambdas os') <;>
      rw [he, he'] at hbuild
    · exact .none
    · cases hbuild
    · cases hbuild
    · exact .some (.form hm.result hm.form h hitems he he')
  refine Agree.bind (.require halike) fun hle h => .pure ?_
  exact h.mono hle (List.Subset.refl _)

/-! New parameters. -/

/-- Both runs take the same numbers from their supplies. -/
theorem agree_fresh (n count : Nat) :
    Agree (fun m names names' => m = n + count ∧ names = s.leftRun.namesFrom n count ∧
        names' = s.rightRun.namesFrom n count) n
      ((Minting.fresh s.leftRun count).run n) ((Minting.fresh s.rightRun count).run n) :=
  .ok (Nat.le_add_right n count) ⟨rfl, rfl, rfl⟩

/-- The numbers that a lambda of so many parameters takes. -/
def numbersFrom (n count : Nat) : List Nat := (List.range count).map (n + ·)

theorem namesFrom_eq (r : Rendering) (n count : Nat) :
    r.namesFrom n count = (numbersFrom n count).map r.nameAt := by
  simp [Rendering.namesFrom, numbersFrom]

theorem lt_of_mem_numbersFrom {i n count : Nat} (h : i ∈ numbersFrom n count) : i < n + count := by
  obtain ⟨j, hj, rfl⟩ := List.mem_map.mp h
  have := List.mem_range.mp hj
  omega

/-- The columns of parameters of the given types. -/
def parameterValues (types : List ColumnType) (names : List String) : List Value :=
  List.zipWith (fun t name => ⟨.column t, .column none name⟩) types names

theorem alike_parameters {types : List ColumnType} (htypes : ∀ t ∈ types, s.FreeType t)
    {numbers : List Nat} (hnumbers : ∀ i ∈ numbers, i ∈ scope ∧ i < bound) :
    List.Forall₂ (s.AlikeValue bound scope) (parameterValues types (numbers.map s.leftRun.nameAt))
      (parameterValues types (numbers.map s.rightRun.nameAt)) := by
  induction types generalizing numbers with
  | nil => exact .nil
  | cons t types ih =>
    cases numbers with
    | nil => exact .nil
    | cons i numbers =>
      rw [List.forall_mem_cons] at htypes hnumbers
      exact .cons (.parameter htypes.1 hnumbers.1.1 hnumbers.1.2) (ih htypes.2 hnumbers.2)

theorem AlikeEnvironment.zip {vs vs' : List Value}
    (h : List.Forall₂ (s.AlikeValue bound scope) vs vs') (params : List String) :
    s.AlikeEnvironment bound scope (params.zip vs) (params.zip vs') := by
  induction h generalizing params with
  | nil =>
    rw [List.zip_nil_right]
    exact .nil
  | cons h _ ih =>
    cases params with
    | nil => exact .nil
    | cons param params => exact .cons ⟨rfl, h⟩ (ih params)

/-! Zipped arrays. -/

theorem Alike.values {os os' : List Operand} (h : s.Alike bound scope os os') :
    List.Forall₂ (s.AlikeValue bound scope) (os.filterMap Operand.value?)
      (os'.filterMap Operand.value?) := by
  induction os generalizing os' with
  | nil =>
    cases h
    exact .nil
  | cons o os ih =>
    cases os' with
    | nil => cases h
    | cons o' os' =>
      obtain ⟨ho, hos⟩ := h.of_cons
      rw [List.filterMap_cons, List.filterMap_cons]
      match o.value?, o'.value?, ho.value? with
      | _, _, .some hv => exact .cons hv.2 (ih hos)
      | _, _, .none => exact ih hos

theorem alike_of_values {vs vs' : List Value}
    (h : List.Forall₂ (s.AlikeValue bound scope) vs vs') :
    s.Alike bound scope (vs.map .value) (vs'.map .value) := by
  induction h with
  | nil => exact .nil
  | cons h _ ih => exact .cons h ih

/-- A form makes values in the same way of values made in the same way. -/
theorem alike_form {vs vs' : List Value} {form : Form} {k : Kind} {e e' : Expr}
    (h : List.Forall₂ (s.AlikeValue bound scope) vs vs') (hform : s.FreeForm form)
    (hplain : form ≠ .membership) (hk : s.FreeKind k)
    (he : form.build? s.config.quoteIdentifiers (vs.map Value.expr) [] = some e)
    (he' : form.build? s.config.quoteIdentifiers (vs'.map Value.expr) [] = some e') :
    s.AlikeValue bound scope ⟨k, e⟩ ⟨k, e'⟩ := by
  have hexprs (vs : List Value) : Operand.exprs (vs.map .value) = vs.map Value.expr := by
    simp [Operand.exprs, Operand.value?, Function.comp_def]
  have hlambdas (vs : List Value) : Operand.lambdas (vs.map .value) = [] := by
    simp [Operand.lambdas, Operand.lambda?]
  refine .form hk hform (alike_of_values h) (fun hmembership => absurd hmembership hplain) ?_ ?_
  · rw [hexprs, hlambdas, he]
  · rw [hexprs, hlambdas, he']

theorem elementTypes_eq {vs vs' : List Value}
    (h : List.Forall₂ (s.AlikeValue bound scope) vs vs') :
    elementTypes vs' = elementTypes vs ∧
      ∀ types, elementTypes vs = some types → ∀ t ∈ types, s.FreeType t := by
  induction h with
  | nil => exact ⟨rfl, fun types h => Option.some.inj h ▸ nofun⟩
  | @cons v v' _ _ hv _ ih =>
    obtain ⟨hkind, hfree⟩ := hv.kind
    obtain ⟨k, e⟩ := v
    obtain ⟨k', e'⟩ := v'
    obtain rfl : k' = k := hkind
    match k' with
    | .column (.array e) =>
      refine ⟨congrArg (Option.map (e :: ·)) ih.1, fun types htypes => ?_⟩
      obtain ⟨rest, hrest, rfl⟩ := Option.map_eq_some_iff.mp htypes
      exact List.forall_mem_cons.mpr ⟨hfree, ih.2 rest hrest⟩
    | .column (.leaf _) | .column (.map _ _) | .column (.struct _) | .untyped _ | .sortKey
    | .generator _ => exact ⟨rfl, nofun⟩

theorem freeName_of_word {n : String} (h : ∀ c ∈ n.toList, Text.isWord c ∧ c ≠ '_') :
    s.FreeName n := by
  have hscore : '_' ∉ n.toList := fun hmem => (h _ hmem).2 rfl
  refine ⟨fixed_of_not_mem hscore, fixed_of_not_mem ?_⟩
  rw [Text.toList_quoteString, flatMap_escapeChar fun c hc => (h c hc).1]
  simp [hscore]

/-- The names of the fields of a tuple. -/
theorem freeName_item (i : Nat) : s.FreeName ("item" ++ Number.natural i) := by
  refine freeName_of_word fun c hc => ?_
  rw [String.toList_append, List.mem_append] at hc
  rcases hc with hc | hc
  · revert hc c
    decide
  · refine ⟨Number.isWord_of_mem_digits (by rwa [← Number.toList_natural]), ?_⟩
    rintro rfl
    exact (Number.marks_natural i).not_mem_underscore hc

theorem freeRecord_tuple {types : List ColumnType} (h : ∀ t ∈ types, s.FreeType t) :
    s.FreeRecord (.tuple types) := by
  have hmembers (i : Nat) : ∀ m ∈ RecordType.tupleMembers i types,
      s.FreeName m.field ∧ s.FreeType m.type := by
    induction types generalizing i with
    | nil => exact nofun
    | cons t types ih =>
      rw [List.forall_mem_cons] at h
      rw [RecordType.tupleMembers, List.forall_mem_cons]
      exact ⟨⟨freeName_item i, h.1⟩, ih h.2 (i + 1)⟩
  rw [freeRecord_iff, RecordType.tuple, RecordType.members_ofMembers]
  exact hmembers 1

/-- The items of zipped arrays, taken by the position that is the last parameter. -/
def itemValues (r : Rendering) (n : Nat) (vs : List Value) : List Value :=
  vs.map fun v => ⟨.sortKey, .subscript v.expr (.column none (r.nameAt (n + 1)))⟩

def itemNames (count : Nat) : List String :=
  (List.range count).map fun i => "item" ++ Number.natural (i + 1)

theorem zip_eq (r : Rendering) (n : Nat) (vs : List Value) :
    Expr.zip r.force (vs.map Value.expr) (r.namesFrom n 2) =
      template r.force "transform" [.call "arrays_zip" (vs.map Value.expr)]
        [⟨[n, n + 1].map r.nameAt, .call "named_struct"
          (Form.namedFields (itemNames vs.length) ((itemValues r n vs).map Value.expr))⟩] := by
  simp only [Expr.zip, itemValues, List.map_map, List.length_map]
  rfl

theorem alike_zip {vs vs' : List Value} {k : Kind} (hk : s.FreeKind k)
    (h : List.Forall₂ (s.AlikeValue n scope) vs vs') :
    s.AlikeValue (n + 2) scope
      ⟨k, Expr.zip s.leftRun.force (vs.map Value.expr) (s.leftRun.namesFrom n 2)⟩
      ⟨k, Expr.zip s.rightRun.force (vs'.map Value.expr) (s.rightRun.namesFrom n 2)⟩ := by
  have hindex : s.AlikeValue (n + 2) ([n, n + 1] ++ scope)
      ⟨.sortKey, .column none (s.leftRun.nameAt (n + 1))⟩
      ⟨.sortKey, .column none (s.rightRun.nameAt (n + 1))⟩ :=
    .parameter trivial (by simp) (by omega)
  have hitems : List.Forall₂ (s.AlikeValue (n + 2) ([n, n + 1] ++ scope))
      (itemValues s.leftRun n vs) (itemValues s.rightRun n vs') := by
    have hform : s.FreeForm .subscript := trivial
    refine List.rel_map (fun v v' hv => ?_) h
    have hv := hv.mono (Nat.le_add_right n 2) (List.subset_append_right [n, n + 1] scope)
    exact alike_form (.cons hv (.cons hindex .nil)) hform nofun trivial rfl rfl
  have hbody : s.AlikeValue (n + 2) ([n, n + 1] ++ scope)
      ⟨.sortKey, .call "named_struct"
        (Form.namedFields (itemNames vs.length) ((itemValues s.leftRun n vs).map Value.expr))⟩
      ⟨.sortKey, .call "named_struct"
        (Form.namedFields (itemNames vs.length) ((itemValues s.rightRun n vs').map Value.expr))⟩ := by
    have hform : s.FreeForm (.struct (itemNames vs.length)) :=
      List.forall_mem_map.mpr fun i _ => freeName_item (i + 1)
    exact alike_form hitems hform nofun trivial rfl rfl
  have hzipped : s.AlikeValue (n + 2) scope
      ⟨.sortKey, .call "arrays_zip" (vs.map Value.expr)⟩
      ⟨.sortKey, .call "arrays_zip" (vs'.map Value.expr)⟩ := by
    have hform : s.FreeForm (.call "arrays_zip" []) := freeForm_of_isProgram rfl
    have h := h.imp fun _ _ hv => hv.mono (Nat.le_add_right n 2) (List.Subset.refl scope)
    exact alike_form h hform nofun trivial rfl rfl
  have hlambda := Alike.lambda (by simp) hbody
  have hform : s.FreeForm (.template "transform") := freeForm_of_isProgram rfl
  rw [zip_eq, zip_eq, ← h.length_eq]
  exact .form hk hform (.cons hzipped hlambda) nofun rfl rfl

/-! Evaluation. -/

/-- Host values do not depend on the supply. -/
theorem evalAt_host (r r' : Rendering) (env env' : Environment) (p : Param) (j : Json) :
    Term.evalAt r env p (.host j) = Term.evalAt r' env' p (.host j) := rfl

theorem evalAll_host (r r' : Rendering) (env env' : Environment) {ps : List Param} {ts : List Term}
    (h : ∀ t ∈ ts, ∃ j, t = .host j) : Term.evalAll r env ps ts = Term.evalAll r' env' ps ts := by
  induction ts generalizing ps with
  | nil => cases ps <;> rfl
  | cons t ts ih =>
    rw [List.forall_mem_cons] at h
    obtain ⟨⟨j, rfl⟩, hts⟩ := h
    cases ps with
    | nil => rfl
    | cons p ps => simp only [Term.evalAll, evalAt_host r r' env env', ih hts]

theorem agree_host {j : Json} (hj : ∀ a ∈ j.strings, s.Fixed (Text.quoteString a)) {p : Param}
    (hp : s.FreeParam p) :
    Agree (fun m o o' => s.Alike m scope [o] [o']) n ((Term.evalAt s.leftRun env p (.host j)).run n)
      ((Term.evalAt s.rightRun env' p (.host j)).run n) := by
  cases p with
  | column t =>
    refine Agree.bind (.require_self (t.promote? j)) fun _ h => ?_
    obtain ⟨rfl, he⟩ := h
    exact .pure (.given hp (renamedExpr_promote? hj he))
  | _ => exact .throw _

/-- The columns in scope as a struct. -/
theorem alike_scope {record : RecordType} {shape : RecordShape} (hrecord : s.FreeRecord record)
    (hshape : record.shape = .ok shape) :
    s.AlikeValue bound scope ⟨.column (.struct record), shape.fromScope⟩
      ⟨.column (.struct record), shape.fromScope⟩ := by
  have hnames := shape_fieldNames hrecord hshape
  exact .given hrecord (.call (fixed_of_isUnminted rfl)
    (renamedExprs_namedFields hnames (renamedExprs_map fun n hn => (hnames n hn).column)))

theorem alike_range (start stop : Int32) :
    s.AlikeValue bound scope ⟨.column (.array .integer), Expr.range start stop⟩
      ⟨.column (.array .integer), Expr.range start stop⟩ := by
  have hinteger (i : Int32) : s.RenamedExpr 0 (.literal (.integer i)) (.literal (.integer i)) :=
    .literal_of_fixed (fixed_of_marks (Number.marks_signed i.toInt))
  refine .given nofun ?_
  unfold Expr.range
  split
  · exact (RenamedExpr.call (fixed_of_isUnminted rfl) .nil).cast (fixed_of_isUnminted rfl)
  · exact .call (fixed_of_isUnminted rfl) (.cons (hinteger _) (.cons (hinteger _) .nil))

/-- A lambda whose body is evaluated to a value made in the same way. -/
theorem agree_lambda {params : List String} {body : Term} {inputs : List ColumnType}
    {output : ColumnType} (hp : s.FreeParam (.lambda inputs output))
    (henv : s.AlikeEnvironment n scope env env')
    (hbody : ∀ {n scope env env'}, s.AlikeEnvironment n scope env env' →
      Agree (fun m o o' => s.Alike m scope [o] [o']) n
        ((body.evalAt s.leftRun env (.column output)).run n)
        ((body.evalAt s.rightRun env' (.column output)).run n)) :
    Agree (fun m o o' => s.Alike m scope [o] [o']) n
      ((Term.evalAt s.leftRun env (.lambda inputs output) (.lambda params body)).run n)
      ((Term.evalAt s.rightRun env' (.lambda inputs output) (.lambda params body)).run n) := by
  simp only [Term.evalAt]
  refine Agree.bind (agree_fresh n inputs.length) fun _ h => ?_
  obtain ⟨rfl, rfl, rfl⟩ := h
  have hnew : ∀ i ∈ numbersFrom n inputs.length,
      i ∈ numbersFrom n inputs.length ++ scope ∧ i < n + inputs.length := fun i hi =>
    ⟨List.mem_append_left _ hi, lt_of_mem_numbersFrom hi⟩
  have hparams := AlikeEnvironment.zip (alike_parameters hp.1 hnew) params
  have houter := henv.mono (Nat.le_add_right n inputs.length)
    (List.subset_append_right (numbersFrom n inputs.length) scope)
  rw [namesFrom_eq, namesFrom_eq]
  refine Agree.bind (hbody (List.rel_append hparams houter)) fun hle h => ?_
  refine Agree.bind (.require h.value?) fun hle' h => .pure ?_
  refine .lambda (fun i hi => ?_) (h.2.mono hle' (List.Subset.refl _))
  exact Nat.lt_of_lt_of_le (lt_of_mem_numbersFrom hi) (hle.trans hle')

/-- An operation on a receiver that is made in the same way in both runs. -/
theorem agree_apply {op : Operation} (hop : s.FreeOperation op) {o o' : Operand}
    (ho : s.Alike n scope [o] [o']) {args : List Term}
    (hargs : ∀ {m ps}, n ≤ m → (∀ p ∈ ps, s.FreeParam p) →
      Agree (fun m os os' => s.Alike m scope os os' ∧ (op = .method "is_in" → os' = os)) m
        ((Term.evalAll s.leftRun env ps args).run m) ((Term.evalAll s.rightRun env' ps args).run m))
    (p : Param) :
    Agree (fun m o o' => s.Alike m scope [o] [o']) n
      ((do
        let v ← Minting.require o.value?
        let m ← Minting.require (op.method? v.kind)
        let operands ← Term.evalAll s.leftRun env (m.params.list args.length) args
        p.accept (← m.apply s.leftRun (o :: operands)) : Minting Operand).run n)
      ((do
        let v ← Minting.require o'.value?
        let m ← Minting.require (op.method? v.kind)
        let operands ← Term.evalAll s.rightRun env' (m.params.list args.length) args
        p.accept (← m.apply s.rightRun (o' :: operands)) : Minting Operand).run n) := by
  refine Agree.bind (.require ho.value?) fun hle h => ?_
  obtain ⟨⟨rfl, rfl⟩, hv⟩ := h
  rw [hv.kind.1]
  refine Agree.bind (.require_self _) fun hle' h => ?_
  obtain ⟨rfl, hmethod⟩ := h
  obtain ⟨hmethod, hmembership⟩ := freeMethod_method? hop hv.kind.2 hmethod
  have hle := hle.trans hle'
  refine Agree.bind (hargs hle (hmethod.params.list _)) fun hle' h => ?_
  obtain ⟨hos, hsame⟩ := h
  have hoperands := Alike.cons (ho.mono (hle.trans hle') (List.Subset.refl _)) hos
  refine Agree.bind (hoperands.apply hmethod fun hform => ?_) fun _ h => AlikeValue.accept h p
  rw [hsame (hmembership hform)]
  rfl

/-- An operation on a host value takes the type of its other operand. -/
theorem agree_applyHost {op : Operation} (hop : s.FreeOperation op) {j : Json}
    (hj : ∀ a ∈ j.strings, s.Fixed (Text.quoteString a)) {right : Term}
    (hright : Agree (fun m o o' => s.Alike m scope [o] [o'] ∧ (op = .method "is_in" → o' = o)) n
      ((right.evalAt s.leftRun env .anyColumn).run n)
      ((right.evalAt s.rightRun env' .anyColumn).run n)) (p : Param) :
    Agree (fun m o o' => s.Alike m scope [o] [o']) n
      ((Term.evalAt s.leftRun env p (.apply op [.host j, right])).run n)
      ((Term.evalAt s.rightRun env' p (.apply op [.host j, right])).run n) := by
  simp only [Term.evalAt]
  refine Agree.bind hright fun _ h => ?_
  obtain ⟨ho, hsame⟩ := h
  refine Agree.bind (.require ho.value?) fun hle h => ?_
  obtain ⟨⟨rfl, rfl⟩, hv⟩ := h
  obtain ⟨hkind, hfree⟩ := hv.kind
  rw [hkind]
  refine Agree.bind (.require_self _) fun hle' h => ?_
  obtain ⟨rfl, -⟩ := h
  have hle := hle.trans hle'
  refine Agree.bind (.require_self _) fun hle' h => ?_
  obtain ⟨rfl, hleft⟩ := h
  have hle := hle.trans hle'
  refine Agree.bind (.require_self _) fun hle' h => ?_
  obtain ⟨rfl, hmethod⟩ := h
  obtain ⟨hmethod, hmembership⟩ := freeMethod_method? hop hfree hmethod
  have hoperands := Alike.cons (.given hfree (renamedExpr_promote? hj hleft))
    (ho.mono (hle.trans hle') (List.Subset.refl _))
  refine Agree.bind (hoperands.apply hmethod fun hform => ?_) fun _ h => AlikeValue.accept h p
  rw [hsame (hmembership hform)]

mutual

/-- The evaluation of a term under both supplies. -/
theorem agree_evalAt (t : Term) (ht : s.FreeTerm t) (hscript : t.IsScript) {n : Nat}
    {scope : List Nat} {env env' : Environment} {p : Param} (hp : s.FreeParam p)
    (henv : s.AlikeEnvironment n scope env env') :
    Agree (fun m o o' => s.Alike m scope [o] [o']) n ((t.evalAt s.leftRun env p).run n)
      ((t.evalAt s.rightRun env' p).run n) := by
  match t with
  | .host value => exact agree_host ht hp
  | .var name =>
    simp only [Term.evalAt]
    exact Agree.bind (.require (henv.lookup name)) fun hle h =>
      AlikeValue.accept (h.mono hle (List.Subset.refl _)) p
  | .lambda params body =>
    cases p with
    | lambda inputs output =>
      exact agree_lambda hp henv fun henv => agree_evalAt body ht hscript hp.2 henv
    | _ => exact .throw _
  | .reference type expr =>
    have htype : s.FreeKind (.column type) := ht.1
    simp only [Term.evalAt]
    exact AlikeValue.accept (.given htype (FreeExpr.renamed expr ht.2)) p
  | .ascribe type term =>
    simp only [Term.evalAt]
    have htype : s.FreeParam (.column type) := ht.1
    refine Agree.bind (agree_evalAt term ht.2 hscript htype henv) fun _ h => ?_
    exact Agree.bind (.require h.value?) fun hle h =>
      AlikeValue.accept (h.2.mono hle (List.Subset.refl _)) p
  | .scope record =>
    simp only [Term.evalAt]
    split
    · next hshape => exact AlikeValue.accept (alike_scope ht hshape) p
    · exact .throw _
  | .range start stop =>
    simp only [Term.evalAt]
    exact AlikeValue.accept (alike_range start stop) p
  | .make source args =>
    simp only [Term.evalAt]
    obtain ⟨hmethod, hform⟩ := freeMethod_source ht.1
    refine Agree.bind (agree_evalAll args ht.2 hscript (hmethod.params.list _) henv) fun _ h => ?_
    refine Agree.bind (h.apply hmethod fun hmembership => absurd hmembership hform) fun hle h => ?_
    exact AlikeValue.accept h p
  | .zip arrays =>
    simp only [Term.evalAt]
    have hps : ∀ p ∈ List.replicate arrays.length .anyColumn, s.FreeParam p := fun p hp =>
      List.eq_of_mem_replicate hp ▸ trivial
    refine Agree.bind (agree_evalAll arrays ht hscript hps henv) fun _ h => ?_
    obtain ⟨htypes, hfree⟩ := elementTypes_eq h.values
    rw [htypes]
    refine Agree.bind (.require_self _) fun hle h' => ?_
    obtain ⟨rfl, hsome⟩ := h'
    refine Agree.bind (agree_fresh _ 2) fun _ h' => ?_
    obtain ⟨rfl, rfl, rfl⟩ := h'
    have hvalues := (h.mono hle (List.Subset.refl _)).values
    have hkind : s.FreeKind (.column (.array (.struct (.tuple _)))) :=
      freeRecord_tuple (hfree _ hsome)
    exact AlikeValue.accept (alike_zip hkind hvalues) p
  | .apply op [] => exact .throw _
  | .apply op (receiver :: args) =>
    by_cases hhost : ∃ value right, receiver :: args = [.host value, right]
    · obtain ⟨value, right, heq⟩ := hhost
      obtain ⟨rfl, rfl⟩ := List.cons.inj heq
      refine agree_applyHost ht.1 ht.2.1 (.and_eq
        (agree_evalAt right ht.2.2.1 hscript.2.2.1 trivial henv) fun hin => ?_) p
      obtain ⟨j, rfl⟩ := hscript.1 hin right List.mem_cons_self
      rfl
    · rw [Term.evalAt_apply _ _ _ _ hhost, Term.evalAt_apply _ _ _ _ hhost]
      refine Agree.bind (agree_evalAt receiver ht.2.1 hscript.2.1 trivial henv) fun hle ho => ?_
      refine agree_apply ht.1 ho (fun hle' hps => .and_eq (agree_evalAll args ht.2.2 hscript.2.2 hps
        (henv.mono (hle.trans hle') (List.Subset.refl _))) fun hin => ?_) p
      have hhosts : ∀ t ∈ args, ∃ j, t = .host j := hscript.1 hin
      rw [evalAll_host s.rightRun s.leftRun env' env hhosts]

theorem agree_evalAll (ts : List Term) (hts : s.FreeTerms ts) (hscript : Term.AreScripts ts)
    {n : Nat} {scope : List Nat} {env env' : Environment} {ps : List Param}
    (hps : ∀ p ∈ ps, s.FreeParam p) (henv : s.AlikeEnvironment n scope env env') :
    Agree (fun m os os' => s.Alike m scope os os') n ((Term.evalAll s.leftRun env ps ts).run n)
      ((Term.evalAll s.rightRun env' ps ts).run n) := by
  match ps, ts with
  | [], [] => exact .pure .nil
  | p :: ps, t :: ts =>
    rw [List.forall_mem_cons] at hps
    simp only [Term.evalAll]
    refine Agree.bind (agree_evalAt t hts.1 hscript.1 hps.1 henv) fun hle h => ?_
    have henv := henv.mono hle (List.Subset.refl _)
    refine Agree.bind (agree_evalAll ts hts.2 hscript.2 hps.2 henv) fun hle hs => ?_
    exact .pure (.cons (h.mono hle (List.Subset.refl _)) hs)
  | [], _ :: _ => exact .throw _
  | _ :: _, [] => exact .throw _

end

end Supplies

end Columnar
