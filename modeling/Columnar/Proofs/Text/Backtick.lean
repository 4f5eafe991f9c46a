import Columnar.Text.Quoted

/-! Reading up to a closing backtick, with and without doubled backticks inside. -/
namespace Columnar.Text

theorem splitBacktick_eq_some_iff {cs inner rest : List Char} :
    splitBacktick cs = some (inner, rest) ↔ cs = inner ++ '\x60' :: rest ∧ '\x60' ∉ inner := by
  induction cs generalizing inner with
  | nil => simp [splitBacktick]
  | cons c cs ih =>
    rw [splitBacktick]
    split
    · next h =>
      subst h
      cases inner with
      | nil => simp
      | cons d inner =>
        simp only [Option.some.injEq, Prod.mk.injEq, List.cons_append, List.cons.injEq,
          List.mem_cons, not_or]
        grind
    · next h =>
      cases inner with
      | nil => simp [h]
      | cons d inner =>
        simp only [Option.map_eq_some_iff, Prod.exists, Prod.mk.injEq, List.cons.injEq,
          List.cons_append, List.mem_cons, not_or]
        grind

theorem splitBacktick_append {cs inner rest : List Char} (h : splitBacktick cs = some (inner, rest))
    (ds : List Char) : splitBacktick (cs ++ ds) = some (inner, rest ++ ds) := by
  obtain ⟨rfl, hm⟩ := splitBacktick_eq_some_iff.mp h
  exact splitBacktick_eq_some_iff.mpr ⟨by simp, hm⟩

theorem doubleBackticks_eq_self {cs : List Char} (h : '\x60' ∉ cs) : doubleBackticks cs = cs := by
  induction cs with
  | nil => rfl
  | cons c cs ih =>
    simp only [List.mem_cons, not_or] at h
    rw [doubleBackticks, if_neg (Ne.symm h.1), ih h.2]

/-- The written form of a name without backticks: the name itself, when it is plain. -/
theorem toList_quoteIdentifier {name : String} (h : '\x60' ∉ name.toList) :
    (quoteIdentifier name false).toList =
      if isPlain name.toList then name.toList else '\x60' :: name.toList ++ ['\x60'] := by
  unfold quoteIdentifier
  by_cases hplain : isPlain name.toList = true
  · simp [hplain]
  · simp [hplain, doubleBackticks_eq_self h]

theorem splitDoubled_doubleBackticks (inner : List Char) {rest : List Char}
    (h : rest.head? ≠ some '\x60') :
    splitDoubled (doubleBackticks inner ++ '\x60' :: rest) = some (inner, rest) := by
  induction inner with
  | nil =>
    cases rest with
    | nil => rfl
    | cons c rest =>
      have hc : c ≠ '\x60' := by simpa using h
      simp [doubleBackticks, splitDoubled, hc]
  | cons c inner ih =>
    by_cases hc : c = '\x60'
    · simp [doubleBackticks, splitDoubled, hc, ih]
    · rw [doubleBackticks, if_neg hc]
      -- the reader looks at two characters: the next one is there because the quote is closed
      cases hnext : doubleBackticks inner ++ '\x60' :: rest with
      | nil => simp at hnext
      | cons d ds =>
        rw [List.cons_append, hnext, splitDoubled, if_neg hc, ← hnext, ih]
        rfl

theorem eq_of_splitDoubled {cs inner rest : List Char} (h : splitDoubled cs = some (inner, rest)) :
    cs = doubleBackticks inner ++ '\x60' :: rest ∧ rest.head? ≠ some '\x60' := by
  fun_induction splitDoubled cs generalizing inner with
  | case1 => cases h
  | case2 =>
    obtain ⟨rfl, rfl⟩ := Prod.mk.inj (Option.some.inj h)
    exact ⟨rfl, by simp⟩
  | case3 => cases h
  | case4 cs ih =>
    obtain ⟨⟨found, after⟩, hs, heq⟩ := Option.map_eq_some_iff.mp h
    obtain ⟨rfl, rfl⟩ := Prod.mk.inj heq
    obtain ⟨rfl, hr⟩ := ih hs
    exact ⟨rfl, hr⟩
  | case5 d cs hd =>
    obtain ⟨rfl, rfl⟩ := Prod.mk.inj (Option.some.inj h)
    exact ⟨rfl, by simpa using hd⟩
  | case6 c d cs hc ih =>
    obtain ⟨⟨found, after⟩, hs, heq⟩ := Option.map_eq_some_iff.mp h
    obtain ⟨rfl, rfl⟩ := Prod.mk.inj heq
    obtain ⟨hcs, hr⟩ := ih hs
    rw [hcs, doubleBackticks, if_neg hc]
    exact ⟨rfl, hr⟩

theorem splitDoubled_eq_some_iff {cs inner rest : List Char} :
    splitDoubled cs = some (inner, rest) ↔
      cs = doubleBackticks inner ++ '\x60' :: rest ∧ rest.head? ≠ some '\x60' :=
  ⟨eq_of_splitDoubled, fun ⟨h, hr⟩ => h ▸ splitDoubled_doubleBackticks inner hr⟩

end Columnar.Text
