import Mathlib.Data.Set.Function
import Mathlib.Order.Interval.Set.Defs
import Mathlib.Data.List.Nodup
import Columnar.Proofs.Column.Script

/-! The parameters of nested lambdas. While a term is evaluated, each lambda takes the next numbers of the
supply for its parameters, and the lambdas in its body take later ones. So no two parameters have a
number in common, and their names differ as far as the digits that are kept of these numbers do. -/
namespace Columnar

/-! The lambdas of a term. -/

/-- A lambda that is evaluated: the numbers of its parameters, and those of the parameters of the
lambdas around it. -/
structure Binder where
  own : List Nat
  enclosing : List Nat

namespace Binder

def names (r : Rendering) (b : Binder) : List String := b.own.map r.nameAt

def enclosingNames (r : Rendering) (b : Binder) : List String := b.enclosing.map r.nameAt

/-- The lambdas of what comes after a computation that leaves a value and the next number. -/
def after {α : Type} (result : Except TermError (α × Nat)) (rest : α → Nat → List Binder) :
    List Binder :=
  match result with
  | .ok (a, next) => rest a next
  | .error _ => []

end Binder

namespace Term

mutual

/-- The lambdas that are met while a term is evaluated, in order, inside lambdas whose parameters have
the numbers `scope`. The items of zipped arrays are put together by a lambda too. -/
def bindersAt (r : Rendering) (scope : List Nat) (env : Environment) (p : Param) (next : Nat) :
    Term → List Binder
  | lambda params body =>
    match p with
    | .lambda inputs output =>
      let own := List.range' next inputs.length
      let values := List.zipWith (fun t n => Value.mk (.column t) (.column none n)) inputs
        (r.namesFrom next inputs.length)
      ⟨own, scope⟩ ::
        bindersAt r (own ++ scope) (params.zip values ++ env) (.column output)
          (next + inputs.length) body
    | _ => []
  | ascribe type term => bindersAt r scope env (.column type) next term
  | make source args => bindersAll r scope env (source.method.params.list args.length) next args
  | zip arrays =>
    let params := List.replicate arrays.length .anyColumn
    bindersAll r scope env params next arrays ++
      Binder.after ((evalAll r env params arrays).run next) fun _ next =>
        [⟨List.range' next 2, scope⟩]
  | apply _ [host _, right] => bindersAt r scope env .anyColumn next right
  | apply op (receiver :: args) =>
    bindersAt r scope env .anything next receiver ++
      Binder.after ((receiver.evalAt r env .anything).run next) fun o next =>
        match o.value?.bind fun v => op.method? v.kind with
        | some m => bindersAll r scope env (m.params.list args.length) next args
        | none => []
  | _ => []

def bindersAll (r : Rendering) (scope : List Nat) (env : Environment) :
    List Param → Nat → List Term → List Binder
  | p :: ps, next, t :: ts =>
    bindersAt r scope env p next t ++
      Binder.after ((t.evalAt r env p).run next) fun _ next => bindersAll r scope env ps next ts
  | _, _, _ => []

end

end Term

/-- The lambdas that take the numbers from `n` up to `m`: each number is a parameter of one of them, in
order, and those of a lambda are no parameters of the lambdas around it. -/
structure Minted (scope : List Nat) (n m : Nat) (bs : List Binder) : Prop where
  le : n ≤ m
  own : bs.flatMap Binder.own = List.range' n (m - n)
  nested : ∀ b ∈ bs, ∃ inner, b.enclosing = inner ++ scope ∧ (b.own ++ inner).Nodup ∧
    ∀ i ∈ b.own ++ inner, n ≤ i ∧ i < m

namespace Minted

variable {scope : List Nat} {n k m count : Nat} {bs bs' : List Binder}

theorem nil : Minted scope n n [] := ⟨Nat.le_refl n, by simp, nofun⟩

theorem append (h : Minted scope n k bs) (h' : Minted scope k m bs') :
    Minted scope n m (bs ++ bs') := by
  have hle := h.le
  have hle' := h'.le
  refine ⟨hle.trans hle', ?_, fun b hb => ?_⟩
  · rw [List.flatMap_append, h.own, h'.own]
    have hk : k = n + 1 * (k - n) := by omega
    have hm : m - n = (k - n) + (m - k) := by omega
    nth_rewrite 2 [hk]
    rw [hm, List.range'_append]
  · rcases List.mem_append.mp hb with hb | hb
    · obtain ⟨inner, hscope, hnodup, hrange⟩ := h.nested b hb
      exact ⟨inner, hscope, hnodup, fun i hi => ⟨(hrange i hi).1, (hrange i hi).2.trans_le hle'⟩⟩
    · obtain ⟨inner, hscope, hnodup, hrange⟩ := h'.nested b hb
      exact ⟨inner, hscope, hnodup, fun i hi => ⟨hle.trans (hrange i hi).1, (hrange i hi).2⟩⟩

theorem lambda (h : Minted (List.range' n count ++ scope) (n + count) m bs) :
    Minted scope n m (⟨List.range' n count, scope⟩ :: bs) := by
  have hle := h.le
  have hnew (i : Nat) : i ∈ List.range' n count ↔ n ≤ i ∧ i < n + count := List.mem_range'_1
  -- For the lambda itself nothing is between it and the scope; for the others it is the outermost.
  refine ⟨by omega, ?_, List.forall_mem_cons.mpr ⟨⟨[], rfl, ?_, ?_⟩, fun b hb => ?_⟩⟩
  · rw [List.flatMap_cons, h.own]
    have hm : m - n = count + (m - (n + count)) := by omega
    rw [hm, ← List.range'_append_1]
  · rw [List.append_nil]
    exact List.nodup_range'
  · intro i hi
    rw [List.append_nil, hnew] at hi
    omega
  · obtain ⟨inner, hscope, hnodup, hrange⟩ := h.nested b hb
    refine ⟨inner ++ List.range' n count, by rw [hscope, List.append_assoc], ?_, fun i hi => ?_⟩
    · rw [← List.append_assoc]
      refine hnodup.append List.nodup_range' fun i hi hi' => ?_
      have hlow := (hrange i hi).1
      have hhigh := (hnew i).mp hi'
      omega
    · rw [← List.append_assoc, List.mem_append, hnew] at hi
      rcases hi with hi | hi
      · have hrange := hrange i hi
        omega
      · omega

end Minted

/-! Evaluation. -/

namespace Term

variable {r : Rendering} {scope : List Nat} {env : Environment} {p : Param} {n m : Nat}

/-- Any other operation starts with its receiver. -/
theorem bindersAt_apply {op : Operation} {receiver : Term} {args : List Term}
    (h : ¬ ∃ value right, receiver :: args = [.host value, right]) :
    bindersAt r scope env p n (.apply op (receiver :: args)) =
      bindersAt r scope env .anything n receiver ++
        Binder.after ((receiver.evalAt r env .anything).run n) fun o next =>
          match o.value?.bind fun v => op.method? v.kind with
          | some m => bindersAll r scope env (m.params.list args.length) next args
          | none => [] := by
  rw [bindersAt]
  rintro value right rfl rfl
  exact h ⟨value, right, rfl⟩

mutual

/-- By induction on the term: each part takes its numbers from where the part in front left off. -/
theorem minted_bindersAt (t : Term) {scope : List Nat} {env : Environment} {p : Param} {n m : Nat}
    {o : Operand} (h : (t.evalAt r env p).run n = .ok (o, m)) :
    Minted scope n m (t.bindersAt r scope env p n) := by
  match t with
  | .host value =>
    cases p with
    | column type =>
      obtain ⟨_, -, h⟩ := Minting.run_require_bind_eq_ok h
      obtain ⟨-, rfl⟩ := Minting.run_pure_eq_ok h
      exact .nil
    | _ => cases h
  | .var name =>
    rw [evalAt] at h
    obtain ⟨_, -, h⟩ := Minting.run_require_bind_eq_ok h
    obtain ⟨-, rfl⟩ := Minting.run_accept_eq_ok h
    exact .nil
  | .lambda params body =>
    cases p with
    | lambda inputs output =>
      rw [evalAt] at h
      replace h := Minting.run_fresh_bind_eq_ok h
      obtain ⟨_, _, hbody, h⟩ := Minting.run_bind_eq_ok h
      obtain ⟨_, -, h⟩ := Minting.run_require_bind_eq_ok h
      obtain ⟨-, rfl⟩ := Minting.run_pure_eq_ok h
      rw [bindersAt]
      exact .lambda (minted_bindersAt body hbody)
    | _ => cases h
  | .reference type expr =>
    rw [evalAt] at h
    obtain ⟨-, rfl⟩ := Minting.run_accept_eq_ok h
    exact .nil
  | .ascribe type term =>
    rw [evalAt] at h
    obtain ⟨_, _, hterm, h⟩ := Minting.run_bind_eq_ok h
    obtain ⟨_, -, h⟩ := Minting.run_require_bind_eq_ok h
    obtain ⟨-, rfl⟩ := Minting.run_accept_eq_ok h
    rw [bindersAt]
    exact minted_bindersAt term hterm
  | .scope record =>
    rw [evalAt] at h
    split at h
    · obtain ⟨-, rfl⟩ := Minting.run_accept_eq_ok h
      exact .nil
    · cases h
  | .range start stop =>
    rw [evalAt] at h
    obtain ⟨-, rfl⟩ := Minting.run_accept_eq_ok h
    exact .nil
  | .make source args =>
    rw [evalAt] at h
    obtain ⟨_, _, hargs, h⟩ := Minting.run_bind_eq_ok h
    obtain ⟨_, h⟩ := Minting.run_apply_bind_eq_ok h
    obtain ⟨-, rfl⟩ := Minting.run_accept_eq_ok h
    rw [bindersAt]
    exact minted_bindersAll args hargs
  | .zip arrays =>
    rw [evalAt] at h
    obtain ⟨_, _, harrays, h⟩ := Minting.run_bind_eq_ok h
    obtain ⟨_, -, h⟩ := Minting.run_require_bind_eq_ok h
    replace h := Minting.run_fresh_bind_eq_ok h
    obtain ⟨-, rfl⟩ := Minting.run_accept_eq_ok h
    rw [bindersAt, harrays]
    exact (minted_bindersAll arrays harrays).append (.lambda .nil)
  | .apply op [] => cases h
  | .apply op (receiver :: args) =>
    by_cases hhost : ∃ value right, receiver :: args = [.host value, right]
    · obtain ⟨value, right, heq⟩ := hhost
      obtain ⟨rfl, rfl⟩ := List.cons.inj heq
      rw [evalAt] at h
      obtain ⟨_, _, hright, h⟩ := Minting.run_bind_eq_ok h
      obtain ⟨_, -, h⟩ := Minting.run_require_bind_eq_ok h
      obtain ⟨_, -, h⟩ := Minting.run_require_bind_eq_ok h
      obtain ⟨_, -, h⟩ := Minting.run_require_bind_eq_ok h
      obtain ⟨_, -, h⟩ := Minting.run_require_bind_eq_ok h
      obtain ⟨_, h⟩ := Minting.run_apply_bind_eq_ok h
      obtain ⟨-, rfl⟩ := Minting.run_accept_eq_ok h
      rw [bindersAt]
      exact minted_bindersAt right hright
    · rw [evalAt_apply _ _ _ _ hhost] at h
      obtain ⟨_, _, hreceiver, h⟩ := Minting.run_bind_eq_ok h
      obtain ⟨_, hv, h⟩ := Minting.run_require_bind_eq_ok h
      obtain ⟨_, hmethod, h⟩ := Minting.run_require_bind_eq_ok h
      obtain ⟨_, _, hargs, h⟩ := Minting.run_bind_eq_ok h
      obtain ⟨_, h⟩ := Minting.run_apply_bind_eq_ok h
      obtain ⟨-, rfl⟩ := Minting.run_accept_eq_ok h
      rw [bindersAt_apply hhost, hreceiver, Binder.after, hv, Option.bind_some, hmethod]
      exact (minted_bindersAt receiver hreceiver).append (minted_bindersAll args hargs)

theorem minted_bindersAll (ts : List Term) {scope : List Nat} {env : Environment} {ps : List Param}
    {n m : Nat} {os : List Operand} (h : (evalAll r env ps ts).run n = .ok (os, m)) :
    Minted scope n m (bindersAll r scope env ps n ts) := by
  match ps, ts with
  | [], [] =>
    obtain ⟨-, rfl⟩ := Minting.run_pure_eq_ok h
    exact .nil
  | p :: ps, t :: ts =>
    rw [evalAll] at h
    obtain ⟨_, _, ht, h⟩ := Minting.run_bind_eq_ok h
    obtain ⟨_, _, hts, h⟩ := Minting.run_bind_eq_ok h
    obtain ⟨-, rfl⟩ := Minting.run_pure_eq_ok h
    rw [bindersAll, ht]
    exact (minted_bindersAt t ht).append (minted_bindersAll ts hts)
  | [], _ :: _ => cases h
  | _ :: _, [] => cases h

end

theorem minted_eval {t : Term} {v : Value} (h : t.eval r env p n = .ok (v, m)) :
    Minted scope n m (t.bindersAt r scope env p n) := by
  unfold eval at h
  obtain ⟨⟨o, k⟩, ho, h⟩ := bind_eq_ok_iff.mp h
  cases o with
  | value w =>
    obtain ⟨rfl, rfl⟩ := Prod.mk.inj (Except.ok.inj h)
    exact minted_bindersAt t ho
  | lambda l => cases h

/-- The lambda that is met first is the one that a lambda term comes to, with its parameters. -/
theorem params_eq_names {inputs : List ColumnType} {output : ColumnType} {params : List String}
    {body : Term} {o : Operand}
    (h : ((lambda params body).evalAt r env (.lambda inputs output)).run n = .ok (o, m)) :
    ∃ b bs e, (lambda params body).bindersAt r scope env (.lambda inputs output) n = b :: bs ∧
      b.enclosing = scope ∧ o = .lambda ⟨b.names r, e⟩ := by
  obtain ⟨v, rfl, -⟩ := lambda_eq_of_evalAt h
  rw [bindersAt]
  refine ⟨_, _, v.expr, rfl, rfl, ?_⟩
  rw [Binder.names, Rendering.namesFrom, List.range'_eq_map_range, List.map_map]
  rfl

/-- The lambdas of the steps of a script that come to a value. -/
def bindersSteps (r : Rendering) : Environment → Nat → List (String × Term) → List Binder
  | _, _, [] => []
  | env, next, (name, t) :: rest =>
    match t.eval r env .anything next with
    | .ok (v, last) =>
      t.bindersAt r [] env .anything next ++ bindersSteps r ((name, v) :: env) last rest
    | .error _ => bindersSteps r env next rest

theorem minted_bindersSteps (steps : List (String × Term)) :
    Minted [] n (evalSteps r env n steps).2 (bindersSteps r env n steps) := by
  induction steps generalizing env n with
  | nil => exact .nil
  | cons step steps ih =>
    obtain ⟨name, t⟩ := step
    rw [evalSteps, bindersSteps]
    cases heval : t.eval r env .anything n with
    | error e => exact ih
    | ok result => exact (minted_eval heval).append ih

end Term

/-! Names. -/

namespace Minted

variable {scope : List Nat} {n m : Nat} {bs : List Binder} {r : Rendering}

theorem names_eq (h : Minted scope n m bs) :
    bs.flatMap (Binder.names r) = (List.range' n (m - n)).map r.nameAt := by
  rw [← h.own, List.map_flatMap]
  rfl

theorem mem_range' (h : Minted scope n m bs) {i : Nat} :
    i ∈ List.range' n (m - n) ↔ i ∈ Set.Ico n m := by
  have hle := h.le
  rw [List.mem_range'_1, Set.mem_Ico]
  omega

theorem nodup_names_iff (h : Minted scope n m bs) :
    (bs.flatMap (Binder.names r)).Nodup ↔ Set.InjOn r.nameAt (Set.Ico n m) := by
  rw [h.names_eq, List.nodup_map_iff_inj_on List.nodup_range']
  simp only [h.mem_range']
  rfl

/-- A lambda shares no name with those around it if no two numbers share one. -/
theorem nodup_names_enclosing (h : Minted [] n m bs) (hinj : Set.InjOn r.nameAt (Set.Ico n m))
    {b : Binder} (hb : b ∈ bs) : (b.names r ++ b.enclosingNames r).Nodup := by
  obtain ⟨inner, hscope, hnodup, hrange⟩ := h.nested b hb
  rw [List.append_nil] at hscope
  rw [Binder.names, Binder.enclosingNames, hscope, ← List.map_append]
  exact hnodup.map_on fun i hi j hj heq => hinj (hrange i hi) (hrange j hj) heq

end Minted

/-- Names differ exactly if the digits that are kept of their numbers do. -/
theorem nameAt_inj {c : Config} {digits : Nat → String} {i j : Nat} :
    (Rendering.ofConfig c digits).nameAt i = (Rendering.ofConfig c digits).nameAt j ↔
      (digits i).toList.take c.lambdaSuffixLength = (digits j).toList.take c.lambdaSuffixLength := by
  change c.lambdaPrefix ++ "_" ++ _ = c.lambdaPrefix ++ "_" ++ _ ↔ _
  rw [String.append_right_inj, String.ofList_inj]
  rfl

/-- The parameters of the lambdas of a script have the names of the numbers that it takes, each once.
They are distinct exactly if the digits that are kept of these numbers are, as they are if all of them
are kept. Then no lambda has a parameter named like another of its own or like one of a lambda around
it. -/
theorem parameters_nodup_iff (c : Config) (digits : Nat → String) (env : Environment) (n : Nat)
    (steps : List (String × Term)) :
    let r := Rendering.ofConfig c digits
    let bs := Term.bindersSteps r env n steps
    let last := (Term.evalSteps r env n steps).2
    bs.flatMap (Binder.names r) = (List.range' n (last - n)).map r.nameAt ∧
      ((bs.flatMap (Binder.names r)).Nodup ↔
        Set.InjOn (fun i => (digits i).toList.take c.lambdaSuffixLength) (Set.Ico n last)) ∧
      ((bs.flatMap (Binder.names r)).Nodup → ∀ b ∈ bs, (b.names r ++ b.enclosingNames r).Nodup) ∧
      (c.lambdaSuffixLength = 32 → (∀ i, IsDigits (digits i)) → Set.InjOn digits (Set.Ico n last) →
        (bs.flatMap (Binder.names r)).Nodup) := by
  intro r bs last
  have hminted : Minted [] n last bs := Term.minted_bindersSteps steps
  have hkept : (bs.flatMap (Binder.names r)).Nodup ↔
      Set.InjOn (fun i => (digits i).toList.take c.lambdaSuffixLength) (Set.Ico n last) := by
    simp only [hminted.nodup_names_iff, Set.InjOn, r, nameAt_inj]
  refine ⟨hminted.names_eq, hkept, fun hnodup b hb => ?_, fun hlength hdigits hinj => hkept.mpr ?_⟩
  · exact hminted.nodup_names_enclosing (hminted.nodup_names_iff.mp hnodup) hb
  · intro i hi j hj heq
    have hall (k : Nat) : (digits k).toList.take c.lambdaSuffixLength = (digits k).toList := by
      rw [List.take_of_length_le]
      rw [hlength, (hdigits k).1]
    simp only [hall] at heq
    exact hinj hi hj (String.toList_inj.mp heq)

theorem injOn_two {α : Type} {f : Nat → α} (h : f 0 ≠ f 1) : Set.InjOn f (Set.Ico 0 2) := by
  rintro i ⟨-, hi⟩ j ⟨-, hj⟩ heq
  obtain rfl | rfl : i = 0 ∨ i = 1 := by omega
  · obtain rfl | rfl : j = 0 ∨ j = 1 := by omega
    · rfl
    · exact absurd heq h
  · obtain rfl | rfl : j = 0 ∨ j = 1 := by omega
    · exact absurd heq.symm h
    · rfl

theorem parameters_nodup_longItems :
    let r := Rendering.ofConfig { lambdaSuffixLength := 32 } (Supplies.digitsFrom ['1', '2'])
    (Term.bindersSteps r [] 0 Supplies.longItems).map Binder.own = [[0], [1]] ∧
      ((Term.bindersSteps r [] 0 Supplies.longItems).flatMap (Binder.names r)).Nodup := by
  refine ⟨rfl, (parameters_nodup_iff { lambdaSuffixLength := 32 } (Supplies.digitsFrom ['1', '2']) [] 0
    Supplies.longItems).2.2.2 rfl (Supplies.isDigits_digitsFrom (by decide)) ?_⟩
  exact injOn_two (by decide)

def lateDigits (i : Nat) : String :=
  String.ofList (List.replicate 31 '0' ++ [if i = 0 then '0' else '1'])

/-- Digits that differ late are cut to the same name: the parameter of the inner lambda hides the one
around it, and the items of a row are compared with themselves. -/
theorem parameters_captured_longItems :
    let c : Config := { lambdaSuffixLength := 4 }
    let r := Rendering.ofConfig c lateDigits
    let last := (Term.evalSteps r [] 0 Supplies.longItems).2
    c.isValid ∧ (∀ i, IsDigits (lateDigits i)) ∧ Set.InjOn lateDigits (Set.Ico 0 last) ∧
      (Term.evalSteps r [] 0 Supplies.longItems).1.map Supplies.resultText? =
        [some "rows", some ("transform(rows, (x_0000) -> filter(x_0000, " ++
          "(x_0000) -> (x_0000 > size(x_0000))))")] ∧
      ¬ ((Term.bindersSteps r [] 0 Supplies.longItems).flatMap (Binder.names r)).Nodup := by
  refine ⟨by decide, fun i => ?_, injOn_two (by decide), rfl, by decide⟩
  unfold lateDigits
  split <;> exact ⟨rfl, by decide⟩

end Columnar
