import Mathlib.Data.List.Forall2

/-! Results that may be errors or missing: how one that is there comes about, alone or from a list that
is gone through item by item. -/
namespace Columnar

theorem bind_eq_ok_iff {ε α β : Type} {x : Except ε α} {f : α → Except ε β} {b : β} :
    (x >>= f) = .ok b ↔ ∃ a, x = .ok a ∧ f a = .ok b := by
  cases x <;> simp [bind, Except.bind]

theorem bind_of_ok {ε α β : Type} {x : Except ε α} {a : α} (h : x = .ok a) (f : α → Except ε β) :
    (x >>= f) = f a := by
  rw [h]
  rfl

theorem bind_of_error {ε α β : Type} {x : Except ε α} {e : ε} (h : x = .error e)
    (f : α → Except ε β) : (x >>= f) = .error e := by
  rw [h]
  rfl

theorem map_eq_ok_iff {ε α β : Type} {x : Except ε α} {f : α → β} {b : β} :
    x.map f = .ok b ↔ ∃ a, x = .ok a ∧ f a = b := by
  cases x <;> simp [Except.map]

theorem mapM_cons_eq_some_iff {α β : Type} {f : α → Option β} {a : α} {as : List α} {bs : List β} :
    (a :: as).mapM f = some bs ↔
      ∃ b, f a = some b ∧ ∃ rest, as.mapM f = some rest ∧ b :: rest = bs := by
  simp only [List.mapM_cons, Option.pure_def, Option.bind_eq_bind, Option.bind_eq_some_iff,
    Option.some.injEq]

theorem mapM_eq_none_iff {α β : Type} {f : α → Option β} {as : List α} :
    as.mapM f = none ↔ ∃ a ∈ as, f a = none := by
  induction as with
  | nil => simp
  | cons a as ih =>
    rw [List.mapM_cons, List.exists_mem_cons_iff, ← ih]
    cases f a <;> cases as.mapM f <;> simp

/-! A list gone through item by item, up to the first error. -/

section Traversal

variable {α β ε : Type} {f : α → Except ε β}

theorem mapM_eq_ok_iff {as : List α} {bs : List β} :
    as.mapM f = .ok bs ↔ List.Forall₂ (fun a b => f a = .ok b) as bs := by
  induction as generalizing bs with
  | nil => simp [pure, Except.pure, eq_comm]
  | cons a as ih =>
    rw [List.mapM_cons, bind_eq_ok_iff, List.forall₂_cons_left_iff]
    refine exists_congr fun b => ?_
    rw [bind_eq_ok_iff]
    simp only [ih, pure, Except.pure, Except.ok.injEq, @eq_comm _ _ bs]
    grind

theorem mapM_of_error {front : List α} {a : α} {e : ε} (hfront : ∀ b ∈ front, ∃ c, f b = .ok c)
    (ha : f a = .error e) (rest : List α) : (front ++ a :: rest).mapM f = .error e := by
  induction front with
  | nil => rw [List.nil_append, List.mapM_cons, ha]; rfl
  | cons b front ih =>
    obtain ⟨c, hb⟩ := hfront b (by simp)
    rw [List.cons_append, List.mapM_cons, hb, ih fun d hd => hfront d (by simp [hd])]
    rfl

theorem exists_error_of_mapM {as : List α} {e : ε} (h : as.mapM f = .error e) :
    ∃ front a rest, as = front ++ a :: rest ∧ (∀ b ∈ front, ∃ c, f b = .ok c) ∧
      f a = .error e := by
  induction as with
  | nil => cases h
  | cons a as ih =>
    cases ha : f a with
    | error e' =>
      rw [List.mapM_cons, ha] at h
      obtain rfl := Except.error.inj h
      exact ⟨[], a, as, rfl, by simp, ha⟩
    | ok b =>
      have hrest : as.mapM f = .error e := by
        rw [List.mapM_cons, ha] at h
        cases has : as.mapM f with
        | error e' => rw [has] at h; exact h
        | ok bs => rw [has] at h; cases h
      obtain ⟨front, c, rest, rfl, hfront, hc⟩ := ih hrest
      exact ⟨a :: front, c, rest, rfl, List.forall_mem_cons.mpr ⟨⟨b, ha⟩, hfront⟩, hc⟩

end Traversal

end Columnar
