import Columnar.Proofs.Column.Evaluation
import Columnar.Proofs.Expr.Pieces
import Columnar.Proofs.Text.Reading

/-! Output names in templates. A template renders its operands and the bodies of its lambdas as they
are, so an output name put on one of them stands in the text of the template, wherever that operand
or body does. -/
namespace Columnar

/-! Texts with holes. -/

/-- Two texts of the same pieces, with holes that `t` fills in the one and `t'` in the other. The flag
says whether there is a hole at all. -/
inductive Spliced (t t' : String) : Bool → String → String → Prop
  | text (s : String) : Spliced t t' false s s
  | hole : Spliced t t' true t t'
  | append {b c : Bool} {s s' u u' : String} (h : Spliced t t' b s s') (h' : Spliced t t' c u u') :
      Spliced t t' (b || c) (s ++ u) (s' ++ u')

namespace Spliced

variable {t t' s s' : String} {b : Bool}

theorem symm (h : Spliced t t' b s s') : Spliced t' t b s' s := by
  induction h with
  | text s => exact .text s
  | hole => exact .hole
  | append _ _ ih ih' => exact ih.append ih'

theorem front (h : Spliced t t' b s s') (u : String) : Spliced t t' b (u ++ s) (u ++ s') :=
  (Spliced.text u).append h

theorem back (h : Spliced t t' b s s') (u : String) : Spliced t t' b (s ++ u) (s' ++ u) := by
  have h := h.append (.text u)
  rwa [Bool.or_false] at h

theorem intercalate (h : Spliced t t' b s s') (separator : String) (before after : List String) :
    Spliced t t' b (separator.intercalate (before ++ s :: after))
      (separator.intercalate (before ++ s' :: after)) := by
  induction before with
  | nil =>
    cases after with
    | nil =>
      rw [List.nil_append, List.nil_append, String.intercalate_singleton,
        String.intercalate_singleton]
      exact h
    | cons u after =>
      rw [List.nil_append, List.nil_append, String.intercalate_cons_cons,
        String.intercalate_cons_cons]
      exact (h.back separator).back (separator.intercalate (u :: after))
  | cons u before ih =>
    rw [List.cons_append, List.cons_append, String.intercalate_cons_of_ne_nil (by simp),
      String.intercalate_cons_of_ne_nil (by simp)]
    exact ih.front (u ++ separator)

theorem length_le (h : Spliced t t' b s s') (hle : t.length ≤ t'.length) : s.length ≤ s'.length := by
  induction h with
  | text s => exact Nat.le_refl _
  | hole => exact hle
  | append _ _ ih ih' =>
    rw [String.length_append, String.length_append]
    exact Nat.add_le_add ih ih'

/-- Since no piece of the longer text is shorter, equal texts have equal pieces. -/
theorem eq_of_length_le (h : Spliced t t' b s s') (hle : t.length ≤ t'.length) (heq : s = s')
    (hb : b = true) : t = t' := by
  induction h with
  | text s => cases hb
  | hole => exact heq
  | @append b c s s' u u' h h' ih ih' =>
    have hlength := congrArg String.length heq
    rw [String.length_append, String.length_append] at hlength
    -- Both pieces are as long as their counterparts, so the two texts are cut at the same place.
    have hs := h.length_le hle
    have hu := h'.length_le hle
    have heq := congrArg String.toList heq
    rw [String.toList_append, String.toList_append] at heq
    obtain ⟨heq, heq'⟩ := List.append_inj heq (by rw [String.length_toList, String.length_toList]; omega)
    rcases Bool.or_eq_true_iff.mp hb with hb | hb
    · exact ih (String.toList_inj.mp heq) hb
    · exact ih' (String.toList_inj.mp heq') hb

theorem eq_iff (h : Spliced t t' true s s') : s' = s ↔ t' = t := by
  constructor
  · intro heq
    rcases Nat.le_total t.length t'.length with hle | hle
    · exact (h.eq_of_length_le hle heq.symm rfl).symm
    · exact h.symm.eq_of_length_le hle heq rfl
  · rintro rfl
    generalize true = b at h
    induction h with
    | text s => rfl
    | hole => rfl
    | append _ _ ih ih' => rw [ih, ih']

end Spliced

/-! Output names. -/

theorem Text.quoteIdentifier_inj {a b : String} {force : Bool} :
    quoteIdentifier a force = quoteIdentifier b force ↔ a = b := by
  refine ⟨fun h => ?_, congrArg (quoteIdentifier · force)⟩
  have hread (name : String) :
      readIdentifier ((quoteIdentifier name force).toList ++ []) = some (name, []) :=
    readIdentifier_quoteIdentifier name force rfl nofun
  have hab := (hread a).symm.trans (h ▸ hread b)
  exact (Prod.mk.inj (Option.some.inj hab)).1

theorem Expr.rename_eq (e : Expr) (name : String) :
    (∃ operand other, e = .aliased operand other) ∨ e.rename name = .aliased e name := by
  cases e with
  | aliased operand other => exact .inl ⟨operand, other, rfl⟩
  | _ => exact .inr rfl

theorem Expr.text_rename_eq_iff {e : Expr} {name : String} {force : Bool} :
    (e.rename name).text force = e.text force ↔ ∃ operand, e = .aliased operand name := by
  rcases e.rename_eq name with ⟨operand, other, rfl⟩ | h
  · simp only [rename, text, String.append_right_inj, Text.quoteIdentifier_inj, aliased.injEq,
      exists_and_right, exists_eq', true_and]
    exact eq_comm
  · rw [h, text]
    constructor
    · intro heq
      have hlength := congrArg String.length heq
      simp only [String.length_append] at hlength
      have hword : " AS ".length = 4 := rfl
      omega
    · rintro ⟨operand, rfl⟩
      cases h

/-! Operands. -/

/-- An operand with the expression `e`, and one with the same expression under an output name. -/
inductive OutputNamed (name : String) (e : Expr) : Operand → Operand → Prop
  | value (k : Kind) : OutputNamed name e (.value ⟨k, e⟩) (.value ⟨k, e.rename name⟩)
  | body (params : List String) :
      OutputNamed name e (.lambda ⟨params, e⟩) (.lambda ⟨params, e.rename name⟩)

/-- Lists that differ in one item, which is in relation with the other. -/
inductive DifferAt {α : Type} (R : α → α → Prop) : List α → List α → Prop
  | intro (front back : List α) {a a' : α} (h : R a a') :
      DifferAt R (front ++ a :: back) (front ++ a' :: back)

theorem DifferAt.cons {α : Type} {R : α → α → Prop} {as as' : List α} (h : DifferAt R as as')
    (a : α) : DifferAt R (a :: as) (a :: as') := by
  cases h with
  | intro front back h => exact .intro (a :: front) back h

/-- The text of a template has a hole for each operand and each body. -/
theorem spliced_template {name function : String} {e : Expr} {os os' : List Operand}
    (h : DifferAt (OutputNamed name e) os os') (r : Rendering) (force : Bool) :
    Spliced (e.text r.force) ((e.rename name).text r.force) true
      ((template r.force function (Operand.exprs os) (Operand.lambdas os)).text force)
      ((template r.force function (Operand.exprs os') (Operand.lambdas os')).text force) := by
  have hwhole {s s' : String} (before after : List String)
      (h : Spliced (e.text r.force) ((e.rename name).text r.force) true s s') :=
    ((h.intercalate ", " before after).front (function ++ "(")).back ")"
  cases h with
  | @intro front back o o' h =>
    cases h with
    | value k =>
      have hvalue := hwhole ((Operand.exprs front).map (Expr.text r.force))
        ((Operand.exprs back).map (Expr.text r.force) ++
          (Operand.lambdas (front ++ back)).map (Lambda.text · r.force)) .hole
      simpa [template, Operand.exprs, Operand.lambdas, Operand.value?, Operand.lambda?, Expr.text,
        List.filterMap_cons] using hvalue
    | body params =>
      have hbody := hwhole ((Operand.exprs (front ++ back)).map (Expr.text r.force) ++
          (Operand.lambdas front).map (Lambda.text · r.force))
        ((Operand.lambdas back).map (Lambda.text · r.force))
        (Spliced.hole.front ("(" ++ ", ".intercalate params ++ ") -> "))
      simpa [template, Operand.exprs, Operand.lambdas, Operand.value?, Operand.lambda?, Expr.text,
        Lambda.text, List.filterMap_cons] using hbody

theorem exists_namedFields {names : List String} {front : List Expr}
    (h : front.length < names.length) (back : List Expr) :
    ∃ before after, ∀ e, Form.namedFields names (front ++ e :: back) = before ++ e :: after := by
  induction front generalizing names with
  | nil =>
    cases names with
    | nil => cases h
    | cons name names => exact ⟨[.literal (.string name)], Form.namedFields names back, fun e => rfl⟩
  | cons x front ih =>
    cases names with
    | nil => cases h
    | cons name names =>
      obtain ⟨before, after, hfields⟩ := ih (Nat.lt_of_succ_lt_succ h)
      refine ⟨.literal (.string name) :: x :: before, after, fun e => ?_⟩
      rw [List.cons_append, Form.namedFields, hfields]
      rfl

theorem Spliced.listText {t t' : String} {force : Bool} {e e' : Expr}
    (h : Spliced t t' true (e.text force) (e'.text force)) (before after : List Expr) :
    Spliced t t' true (Expr.listText force (before ++ e :: after))
      (Expr.listText force (before ++ e' :: after)) := by
  simp only [Expr.listText_eq, List.map_append, List.map_cons]
  exact h.intercalate ", " _ _

/-- The text of zipped arrays has two holes for each of them. -/
theorem spliced_zip (e e' : Expr) (front back : List Expr) (params : List String)
    (inner force : Bool) :
    Spliced (e.text inner) (e'.text inner) true
      ((Expr.zip inner (front ++ e :: back) params).text force)
      ((Expr.zip inner (front ++ e' :: back) params).text force) := by
  have hhole : Spliced (e.text inner) (e'.text inner) true (e.text inner) (e'.text inner) := .hole
  have harrays := hhole.listText front back
  let index := Expr.column none (params.getLast?.getD "")
  let item (a : Expr) := Expr.subscript a index
  let names := (List.range (front.length + (back.length + 1))).map fun i =>
    "item" ++ Number.natural (i + 1)
  have hlength : (front.map item).length < names.length := by simp [names]
  obtain ⟨before, after, hfields⟩ := exists_namedFields hlength (back.map item)
  have hitem : Spliced (e.text inner) (e'.text inner) true ((item e).text inner)
      ((item e').text inner) := ((hhole.back _).back _).back _
  have hitems := hitem.listText before after
  -- The one hole is among the zipped arrays, the other in the item that is taken from the array.
  have hzip (a : Expr) : (Expr.zip inner (front ++ a :: back) params).text force =
      "transform" ++ "(" ++ ("arrays_zip" ++ "(" ++ Expr.listText inner (front ++ a :: back) ++ ")" ++
        ", " ++ ("(" ++ ", ".intercalate params ++ ") -> " ++ ("named_struct" ++ "(" ++
          Expr.listText inner (before ++ item a :: after) ++ ")"))) ++ ")" := by
    rw [← hfields, ← List.map_cons, ← List.map_append]
    simp only [Expr.zip, List.length_append, List.length_cons]
    rfl
  rw [hzip, hzip]
  exact ((((harrays.front _).back _).back _).append (((hitems.front _).back _).front _)).front _
    |>.back _

/-! Terms. -/

/-- Whether an operation of a column is a higher-order function of the engine. -/
def Operation.isHigher : Operation → Bool
  | method name => ["filter", "filter_indexed", "exists", "forall", "sort_by"].contains name
  | transform _ | fold _ | foldThen _ _ => true
  | _ => false

namespace Param

/-- Whether nothing but a column or a lambda may stand at a place. -/
def isColumnar : Param → Bool
  | anyColumn | column _ | lambda _ _ => true
  | anything | sortKey => false

theorem admits_eq_false {p : Param} (hp : p.isColumnar) {k : Kind} (hk : ∀ t, k ≠ .column t) :
    p.admits k = false := by
  cases p with
  | column t => exact decide_eq_false (hk t)
  | anyColumn =>
    cases k with
    | column t => exact absurd rfl (hk t)
    | _ => rfl
  | lambda _ _ => rfl
  | anything | sortKey => cases hp

end Param

structure Method.IsTemplate (m : Method) : Prop where
  form : ∃ function, m.form = .template function
  params : ∀ places, ∀ p ∈ m.params.list places, p.isColumnar

theorem Method.isTemplate_higher (function : String) (inputs : List ColumnType)
    (output result : ColumnType) : (higher function inputs output result).IsTemplate :=
  ⟨⟨function, rfl⟩, fun _ => List.forall_mem_singleton.mpr rfl⟩

theorem Operation.method?_eq_none {op : Operation} (hop : op.isHigher) {k : Kind}
    (hk : ∀ t, k ≠ .column t) : op.method? k = none := by
  cases k with
  | column t => exact absurd rfl (hk t)
  | generator e =>
    cases op with
    | method name =>
      simp only [isHigher, List.contains_iff_mem, List.mem_cons, List.not_mem_nil, or_false] at hop
      rcases hop with rfl | rfl | rfl | rfl | rfl <;> rfl
    | _ => rfl
  | _ => rfl

theorem Operation.isTemplate_of_isHigher {op : Operation} (hop : op.isHigher) {t : ColumnType}
    {m : Method} (h : op.method? (.column t) = some m) : m.IsTemplate := by
  cases op with
  | method name =>
    simp only [isHigher, List.contains_iff_mem, List.mem_cons, List.not_mem_nil, or_false] at hop
    cases t with
    | leaf l => rcases hop with rfl | rfl | rfl | rfl | rfl <;> cases l <;> cases h
    | array e =>
      rcases hop with rfl | rfl | rfl | rfl | rfl <;> cases h <;> exact Method.isTemplate_higher ..
    | map k v =>
      rcases hop with rfl | rfl | rfl | rfl | rfl <;> cases h
      exact Method.isTemplate_higher ..
    | struct r => rcases hop with rfl | rfl | rfl | rfl | rfl <;> cases h
  | transform result =>
    cases t with
    | array e => cases h; exact Method.isTemplate_higher ..
    | _ => cases h
  | fold accumulator =>
    cases t with
    | array e =>
      cases h
      exact ⟨⟨_, rfl⟩, fun _ => by simp [Params.list, Param.isColumnar]⟩
    | _ => cases h
  | foldThen accumulator result =>
    cases t with
    | array e =>
      cases h
      exact ⟨⟨_, rfl⟩, fun _ => by simp [Params.list, Param.isColumnar]⟩
    | _ => cases h
  | _ => cases hop

namespace Term

def withName (c : Term) (name : String) : Term := .apply (.rename name) [c]

/-- A column comes to an expression, in some environment and with some names. -/
def ComesTo (r : Rendering) (c : Term) (e : Expr) : Prop :=
  ∃ env n t m, (c.evalAt r env .anything).run n = .ok (.value ⟨.column t, e⟩, m)

/-- A column with and without an output name, and lambdas with such bodies. -/
inductive Named (name : String) (c : Term) : Term → Term → Prop
  | column : Named name c c (c.withName name)
  | body (params : List String) : Named name c (.lambda params c) (.lambda params (c.withName name))

/-- Templates of which one has an output name on its receiver, on another operand or the body of a
lambda, or on one of the arrays that it zips. -/
inductive NamedIn (name : String) (c : Term) : Term → Term → Prop
  | receiver {op : Operation} (hop : op.isHigher) (args : List Term) :
      NamedIn name c (.apply op (c :: args)) (.apply op (c.withName name :: args))
  | argument {op : Operation} (hop : op.isHigher) {receiver : Term} (hreceiver : receiver.isColumn)
      {args args' : List Term} (h : DifferAt (Named name c) args args') :
      NamedIn name c (.apply op (receiver :: args)) (.apply op (receiver :: args'))
  | zipped (front back : List Term) :
      NamedIn name c (.zip (front ++ c :: back)) (.zip (front ++ c.withName name :: back))

variable {c : Term} {r : Rendering} {env : Environment} {p : Param} {name : String}

/-- What a column is under an output name. -/
def namedAt (p : Param) (name : String) : Operand → Minting Operand
  | .value ⟨.column t, e⟩ => p.accept ⟨.column t, e.rename name⟩
  | _ => throw .illTyped

theorem namedAt_eq_throw {k : Kind} (hk : ∀ t, k ≠ .column t) (e : Expr) :
    namedAt p name (.value ⟨k, e⟩) = throw .illTyped := by
  cases k with
  | column t => exact absurd rfl (hk t)
  | _ => rfl

theorem evalAt_withName :
    (c.withName name).evalAt r env p = c.evalAt r env .anything >>= namedAt p name := by
  have hhost : ¬ ∃ value right, [c] = [.host value, right] := by
    rintro ⟨value, right, heq⟩
    cases heq
  rw [withName, evalAt_apply _ _ _ _ hhost]
  refine bind_congr fun o => ?_
  cases o with
  | value v =>
    obtain ⟨k, e⟩ := v
    cases k <;> rfl
  | lambda l => rfl

end Term

/-! Runs. -/

/-- Two runs with the same error, or with results in relation that leave the same number next. The
relation is on an expression that the column comes to. -/
inductive NamedRun (r : Rendering) (c : Term) {α : Type} (P : Expr → α → α → Prop) :
    Except TermError (α × Nat) → Except TermError (α × Nat) → Prop
  | error (e : TermError) : NamedRun r c P (.error e) (.error e)
  | ok {e : Expr} {a b : α} {m : Nat} (hc : c.ComesTo r e) (h : P e a b) :
      NamedRun r c P (.ok (a, m)) (.ok (b, m))

namespace NamedRun

variable {r : Rendering} {c : Term} {name : String} {α β : Type} {P : Expr → α → α → Prop}
  {Q : Expr → β → β → Prop} {x y : Minting α} {f g : α → Minting β} {n : Nat}

/-- Runs that begin with the same computation. -/
theorem bind_same
    (h : ∀ a m, x.run n = .ok (a, m) → NamedRun r c Q ((f a).run m) ((g a).run m)) :
    NamedRun r c Q ((x >>= f).run n) ((x >>= g).run n) := by
  rw [StateT.run_bind, StateT.run_bind]
  cases hx : x.run n with
  | error e => exact .error e
  | ok result => exact h _ _ hx

theorem bind (hx : NamedRun r c P (x.run n) (y.run n))
    (h : ∀ {e a b m}, c.ComesTo r e → P e a b → NamedRun r c Q ((f a).run m) ((g b).run m)) :
    NamedRun r c Q ((x >>= f).run n) ((y >>= g).run n) := by
  rw [StateT.run_bind, StateT.run_bind]
  generalize x.run n = result, y.run n = result' at hx
  cases hx with
  | error e => exact .error e
  | ok hc hP => exact h hc hP

theorem pure {e : Expr} {a b : α} (hc : c.ComesTo r e) (h : P e a b) :
    NamedRun r c P ((Pure.pure a : Minting α).run n) ((Pure.pure b : Minting α).run n) :=
  .ok hc h

theorem imp {P' : Expr → α → α → Prop} {x y : Except TermError (α × Nat)} (h : NamedRun r c P x y)
    (hP : ∀ {e a b}, P e a b → P' e a b) : NamedRun r c P' x y := by
  cases h with
  | error e => exact .error e
  | ok hc h => exact .ok hc (hP h)

/-- The same computation, whose value is in relation with itself. -/
theorem same {e : Expr} (hc : c.ComesTo r e) (h : ∀ a, P e a a) :
    NamedRun r c P (x.run n) (x.run n) := by
  cases x.run n with
  | error e => exact .error e
  | ok result => exact .ok hc (h result.1)

theorem throw (e : TermError) :
    NamedRun r c P ((MonadExcept.throw e : Minting α).run n)
      ((MonadExcept.throw e : Minting α).run n) :=
  .error e

end NamedRun

/-- A value of a template, and the value with an output name put on a part that comes to `e`: its texts
differ in the text of that part, and so do not differ only if the part has that name already. -/
structure NamedValue (r : Rendering) (name : String) (e : Expr) (v v' : Value) : Prop where
  kind : v'.kind = v.kind
  spliced (force : Bool) : Spliced (e.text r.force) ((e.rename name).text r.force) true
    (v.expr.text force) (v'.expr.text force)
  text_eq_iff (force : Bool) :
    v'.expr.text force = v.expr.text force ↔ ∃ operand, e = .aliased operand name

theorem NamedValue.of_spliced {r : Rendering} {name : String} {e : Expr} {v v' : Value}
    (hkind : v'.kind = v.kind)
    (h : ∀ force, Spliced (e.text r.force) ((e.rename name).text r.force) true (v.expr.text force)
      (v'.expr.text force)) : NamedValue r name e v v' :=
  ⟨hkind, h, fun force => (h force).eq_iff.trans Expr.text_rename_eq_iff⟩

namespace Term

variable {r : Rendering} {c : Term} {name : String} {env : Environment} {p : Param} {n : Nat}

/-- The values of a column with and without an output name. -/
def NamedColumn (name : String) (e : Expr) (o o' : Operand) : Prop :=
  ∃ k, o = .value ⟨k, e⟩ ∧ o' = .value ⟨k, e.rename name⟩

theorem namedRun_column (hc : c.isColumn) (hp : p.isColumnar) :
    NamedRun r c (NamedColumn name) ((c.evalAt r env p).run n)
      (((c.withName name).evalAt r env p).run n) := by
  rw [evalAt_eq_accept hc, evalAt_withName]
  refine .bind_same fun o m ho => ?_
  cases o with
  | lambda l => exact .error _
  | value v =>
    obtain ⟨k, e⟩ := v
    change NamedRun r c _ ((p.accept ⟨k, e⟩).run m) ((namedAt p name (.value ⟨k, e⟩)).run m)
    by_cases hk : ∃ t, k = .column t
    · obtain ⟨t, rfl⟩ := hk
      change NamedRun r c _ _ ((p.accept ⟨.column t, e.rename name⟩).run m)
      unfold Param.accept
      split
      · exact .pure ⟨env, n, t, m, ho⟩ ⟨_, rfl, rfl⟩
      · exact .throw _
    -- Sort keys and generators take no output name, but no such place admits them either.
    · have hk := not_exists.mp hk
      rw [namedAt_eq_throw hk, Param.accept, Param.admits_eq_false hp hk]
      exact .error _

theorem namedRun_named {t t' : Term} (hc : c.isColumn) (h : Named name c t t') (hp : p.isColumnar) :
    NamedRun r c (OutputNamed name) ((t.evalAt r env p).run n) ((t'.evalAt r env p).run n) := by
  cases h with
  | column =>
    have h : NamedRun r c (NamedColumn name) ((c.evalAt r env p).run n)
      (((c.withName name).evalAt r env p).run n) := namedRun_column hc hp
    generalize (c.evalAt r env p).run n = result,
      ((c.withName name).evalAt r env p).run n = result' at h ⊢
    cases h with
    | error e => exact .error e
    | ok hc h =>
      obtain ⟨k, rfl, rfl⟩ := h
      exact .ok hc (.value k)
  | body params =>
    cases p with
    | lambda inputs output =>
      simp only [evalAt]
      refine .bind_same fun names m _ => .bind (namedRun_column hc rfl) fun hc h => ?_
      obtain ⟨k, rfl, rfl⟩ := h
      exact .pure hc (.body names)
    | _ => exact .throw _

/-- The operands differ in the place where the terms do. -/
theorem namedRun_evalAll {R : Expr → Operand → Operand → Prop} {t t' : Term}
    (h : ∀ {p n}, p.isColumnar → NamedRun r c R ((t.evalAt r env p).run n) ((t'.evalAt r env p).run n))
    (front back : List Term) {ps : List Param} (hps : ∀ p ∈ ps, p.isColumnar) :
    NamedRun r c (fun e => DifferAt (R e)) ((evalAll r env ps (front ++ t :: back)).run n)
      ((evalAll r env ps (front ++ t' :: back)).run n) := by
  induction front generalizing ps n with
  | nil =>
    cases ps with
    | nil => exact .throw _
    | cons p ps =>
      simp only [List.nil_append, evalAll]
      refine .bind (h (hps p List.mem_cons_self)) fun hc ho => .bind_same fun os m _ => ?_
      exact .pure hc (.intro [] os ho)
  | cons f front ih =>
    cases ps with
    | nil => exact .throw _
    | cons p ps =>
      rw [List.forall_mem_cons] at hps
      simp only [List.cons_append, evalAll]
      exact .bind_same fun o m _ => .bind (ih hps.2) fun hc h => .pure hc (h.cons o)

theorem namedRun_apply {m : Method} (hm : m.IsTemplate) {e : Expr} (hc : c.ComesTo r e)
    {os os' : List Operand} (h : DifferAt (OutputNamed name e) os os') :
    NamedRun r c (NamedValue r name) ((m.apply r os).run n) ((m.apply r os').run n) := by
  obtain ⟨function, hform⟩ := hm.form
  unfold Method.apply
  rw [hform]
  exact .pure hc (.of_spliced rfl (spliced_template h r))

def NamedOperand (r : Rendering) (name : String) (e : Expr) (o o' : Operand) : Prop :=
  ∃ v v', o = .value v ∧ o' = .value v' ∧ NamedValue r name e v v'

theorem namedRun_accept {e : Expr} (hc : c.ComesTo r e) {v v' : Value} (h : NamedValue r name e v v') :
    NamedRun r c (NamedOperand r name) ((p.accept v).run n) ((p.accept v').run n) := by
  unfold Param.accept
  rw [h.kind]
  split
  · exact .pure hc ⟨v, v', rfl, rfl, h⟩
  · exact .throw _

theorem namedRun_args {op : Operation} (hop : op.isHigher) {t : ColumnType} {o o' : Operand}
    {args args' : List Term} {k : Nat}
    (h : ∀ {ps}, (∀ p ∈ ps, p.isColumnar) → NamedRun r c
      (fun e os os' => DifferAt (OutputNamed name e) (o :: os) (o' :: os'))
        ((evalAll r env ps args).run n) ((evalAll r env ps args').run n)) :
    NamedRun r c (NamedOperand r name)
      ((do
        let m ← Minting.require (op.method? (.column t))
        let operands ← evalAll r env (m.params.list k) args
        p.accept (← m.apply r (o :: operands)) : Minting Operand).run n)
      ((do
        let m ← Minting.require (op.method? (.column t))
        let operands ← evalAll r env (m.params.list k) args'
        p.accept (← m.apply r (o' :: operands)) : Minting Operand).run n) := by
  cases hm : op.method? (.column t) with
  | none => exact .throw _
  | some m =>
    have htemplate := Operation.isTemplate_of_isHigher hop hm
    refine .bind_same fun m' n' hrun => ?_
    obtain ⟨rfl, rfl⟩ := Prod.mk.inj (Except.ok.inj hrun)
    refine .bind (h (htemplate.params k)) fun hc h => ?_
    exact .bind (namedRun_apply htemplate hc h) fun hc h => namedRun_accept hc h

theorem namedRun_receiver {op : Operation} (hop : op.isHigher) (hc : c.isColumn) (args : List Term) :
    NamedRun r c (NamedOperand r name) (((apply op (c :: args)).evalAt r env p).run n)
      (((apply op (c.withName name :: args)).evalAt r env p).run n) := by
  have hhost : ¬ ∃ value right, c :: args = [.host value, right] := by
    rintro ⟨value, right, heq⟩
    cases heq
    cases hc
  have hhost' : ¬ ∃ value right, c.withName name :: args = [.host value, right] := by
    rintro ⟨value, right, heq⟩
    cases heq
  rw [evalAt_apply _ _ _ _ hhost, evalAt_apply _ _ _ _ hhost', evalAt_withName,
    bind_assoc]
  refine .bind_same fun o m ho => ?_
  cases o with
  | lambda l => exact .error _
  | value v =>
    obtain ⟨k, e⟩ := v
    by_cases hk : ∃ t, k = .column t
    · obtain ⟨t, rfl⟩ := hk
      have hcomes : c.ComesTo r e := ⟨env, n, t, m, ho⟩
      exact namedRun_args hop fun hps => .same hcomes fun os => .intro [] os (.value _)
    · have hk := not_exists.mp hk
      simp only [namedAt_eq_throw hk, Operand.value?, Minting.require_some, pure_bind,
        Operation.method?_eq_none hop hk, Minting.require_none, Minting.throw_bind]
      exact .throw _

theorem namedRun_argument {op : Operation} (hop : op.isHigher) (hc : c.isColumn) {receiver : Term}
    (hreceiver : receiver.isColumn) {args args' : List Term} (h : DifferAt (Named name c) args args') :
    NamedRun r c (NamedOperand r name) (((apply op (receiver :: args)).evalAt r env p).run n)
      (((apply op (receiver :: args')).evalAt r env p).run n) := by
  have hhost (ts : List Term) : ¬ ∃ value right, receiver :: ts = [.host value, right] := by
    rintro ⟨value, right, heq⟩
    cases heq
    cases hreceiver
  rw [evalAt_apply _ _ _ _ (hhost _), evalAt_apply _ _ _ _ (hhost _)]
  refine .bind_same fun o m _ => ?_
  cases o with
  | lambda l => exact .error _
  | value v =>
    obtain ⟨k, e⟩ := v
    simp only [Operand.value?, Minting.require_some, pure_bind]
    by_cases hk : ∃ t, k = .column t
    · obtain ⟨t, rfl⟩ := hk
      cases h with
      | @intro front back t t' ht =>
        rw [List.length_append, List.length_append, List.length_cons, List.length_cons]
        refine namedRun_args hop fun hps => ?_
        refine .imp (namedRun_evalAll (fun hp => namedRun_named hc ht hp) front back hps) ?_
        exact fun h => h.cons _
    · simp only [Operation.method?_eq_none hop (not_exists.mp hk), Minting.require_none,
        Minting.throw_bind]
      exact .throw _

theorem namedRun_zip (hc : c.isColumn) (front back : List Term) :
    NamedRun r c (NamedOperand r name) (((zip (front ++ c :: back)).evalAt r env p).run n)
      (((zip (front ++ c.withName name :: back)).evalAt r env p).run n) := by
  simp only [evalAt, List.length_append, List.length_cons]
  have hps : ∀ p ∈ List.replicate (front.length + (back.length + 1)) Param.anyColumn,
      p.isColumnar := fun p hp => List.eq_of_mem_replicate hp ▸ rfl
  refine .bind (namedRun_evalAll (fun hp => namedRun_column hc hp) front back hps)
    fun {e _ _ _} hc h => ?_
  cases h with
  | @intro before after _ _ h =>
    obtain ⟨k, rfl, rfl⟩ := h
    simp only [List.filterMap_append, List.filterMap_cons, Operand.value?]
    generalize before.filterMap Operand.value? = vs, after.filterMap Operand.value? = us
    have htypes : elementTypes (vs ++ ⟨k, e.rename name⟩ :: us) = elementTypes (vs ++ ⟨k, e⟩ :: us) :=
      elementTypes_congr (by simp)
    rw [htypes]
    refine .bind_same fun types m _ => .bind_same fun names m _ => namedRun_accept hc ?_
    refine .of_spliced rfl fun force => ?_
    simp only [List.map_append, List.map_cons]
    exact spliced_zip _ _ _ _ names r.force force

theorem namedRun_evalAt {t t' : Term} (hc : c.isColumn) (h : NamedIn name c t t') :
    NamedRun r c (NamedOperand r name) ((t.evalAt r env p).run n) ((t'.evalAt r env p).run n) := by
  cases h with
  | receiver hop args => exact namedRun_receiver hop hc args
  | argument hop hreceiver h => exact namedRun_argument hop hc hreceiver h
  | zipped front back => exact namedRun_zip hc front back

end Term

/-- No template drops the output name of a part: with it the template fails or comes to a value as it
does without, but the text has the name wherever it has the part, and is another one unless the part
has that name anyway. -/
theorem outputName_kept {name : String} {c t t' : Term} (hc : c.isColumn)
    (h : Term.NamedIn name c t t') (r : Rendering) (env : Environment) (p : Param) (n : Nat) :
    NamedRun r c (NamedValue r name) (t.eval r env p n) (t'.eval r env p n) := by
  have hrun : NamedRun r c (Term.NamedOperand r name) ((t.evalAt r env p).run n)
    ((t'.evalAt r env p).run n) := Term.namedRun_evalAt hc h
  unfold Term.eval
  generalize (t.evalAt r env p).run n = result, (t'.evalAt r env p).run n = result' at hrun
  cases hrun with
  | error e => exact .error e
  | ok hc h =>
    obtain ⟨v, v', rfl, rfl, h⟩ := h
    exact .ok hc h

/-- The items of an array on which a condition holds. -/
def itemsWhere (array condition : Term) : Term :=
  .apply (.method "filter") [array, .lambda ["x"] condition]

def integers : Term := .reference (.array .integer) (.column none "xs")

def aboveTwo : Term := .apply (.method "gt") [.var "x", .host (.int 2)]

def countingRun : Rendering := .ofConfig {} countingDigits

theorem outputName_kept_receiver :
    integers.isColumn ∧
      Term.NamedIn "ys" integers (itemsWhere integers aboveTwo)
        (itemsWhere (integers.withName "ys") aboveTwo) ∧
      NamedRun countingRun integers (NamedValue countingRun "ys")
        ((itemsWhere integers aboveTwo).eval countingRun [] .anything 0)
        ((itemsWhere (integers.withName "ys") aboveTwo).eval countingRun [] .anything 0) :=
  ⟨rfl, .receiver rfl _, outputName_kept rfl (.receiver rfl _) countingRun [] .anything 0⟩

/-- An output name on the array, and one on the condition, stand inside the call. -/
theorem outputName_inside_call :
    let text (array condition : Term) :=
      ((itemsWhere array condition).eval countingRun [] .anything 0).map fun v => v.1.expr.text false
    text integers aboveTwo = .ok "filter(xs, (x_438cdec5) -> (x_438cdec5 > 2))" ∧
      text (integers.withName "ys") aboveTwo =
        .ok "filter(xs AS ys, (x_438cdec5) -> (x_438cdec5 > 2))" ∧
      text integers (aboveTwo.withName "big") =
        .ok "filter(xs, (x_438cdec5) -> (x_438cdec5 > 2) AS big)" :=
  ⟨rfl, rfl, rfl⟩

end Columnar
