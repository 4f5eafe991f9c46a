import Columnar.Proofs.Qualify.Loop

/-! The search for a name that need not be plain. It keeps a text in which no occurrence is taken,
and it goes through a text piece by piece where the pieces end with a backtick, as long as the name
has none itself. -/
namespace Columnar

theorem length_le_of_startsWithName {needle cs : List Char} (h : startsWithName needle cs) :
    needle.length ≤ cs.length := by
  rw [startsWithName_eq, spells, beq_iff_eq] at h
  have hlength := congrArg List.length h
  rw [List.length_map, List.length_take] at hlength
  omega

/-- An occurrence of a name does not run into a backtick. -/
theorem startsWithName_ticked {needle : List Char} (h : '\x60' ∉ needle) (cs ds : List Char) :
    startsWithName needle (cs ++ '\x60' :: ds) = startsWithName needle cs := by
  induction needle generalizing cs with
  | nil => simp [startsWithName]
  | cons n needle ih =>
    simp only [List.mem_cons, not_or] at h
    cases cs with
    | nil =>
      have hn : ('\x60'.toLower == n) = false := beq_eq_false_iff_ne.mpr h.1
      change ('\x60'.toLower == n && startsWithName needle ds) = false
      rw [hn, Bool.false_and]
    | cons c cs => simp [startsWithName, ih h.2]

theorem startsWithName_nil {needle : List Char} (h : needle ≠ []) :
    startsWithName needle [] = false := by
  cases needle with
  | nil => exact absurd rfl h
  | cons n needle => rfl

theorem startsWithName_backtick {needle : List Char} (hticks : '\x60' ∉ needle) (hne : needle ≠ [])
    (cs : List Char) : startsWithName needle ('\x60' :: cs) = false := by
  rw [← List.nil_append ('\x60' :: cs), startsWithName_ticked hticks, startsWithName_nil hne]

section Search

variable {inserted needle : List Char}

/-- Where no occurrence is taken, the search changes nothing. -/
theorem qualifyFrom_eq_self {left cs : List Char}
    (h : ∀ front back, cs = front ++ back → startsWithName needle back →
      qualifyAt inserted (front.reverse ++ left) (back.drop needle.length) = front.reverse ++ left)
    (skip : Nat) : qualifyFrom inserted needle left skip cs = left.reverse ++ cs := by
  induction cs generalizing left skip with
  | nil => simp [qualifyFrom]
  | cons c cs ih =>
    have hrest : ∀ front back, cs = front ++ back → startsWithName needle back →
        qualifyAt inserted (front.reverse ++ c :: left) (back.drop needle.length) =
          front.reverse ++ c :: left := by
      intro front back heq hs
      simpa using h (c :: front) back (by simp [heq]) hs
    cases skip with
    | succ skip =>
      rw [qualifyFrom, ih hrest]
      simp
    | zero =>
      rw [qualifyFrom]
      split
      · next hs =>
        have hkeep : qualifyAt inserted left ((c :: cs).drop needle.length) = left :=
          h [] (c :: cs) rfl hs
        dsimp only
        rw [hkeep, ih hrest]
        simp
      · rw [ih hrest]
        simp

/-- What is left of an occurrence is passed over. -/
theorem qualifyFrom_skip (left run cs : List Char) :
    qualifyFrom inserted needle left run.length (run ++ cs) =
      qualifyFrom inserted needle (run.reverse ++ left) 0 cs := by
  induction run generalizing left with
  | nil => rfl
  | cons c run ih =>
    rw [List.length_cons, List.cons_append, qualifyFrom, ih]
    simp

theorem qualifyFrom_rest (left run : List Char) :
    qualifyFrom inserted needle left run.length run = left.reverse ++ run := by
  calc qualifyFrom inserted needle left run.length run
      = qualifyFrom inserted needle left run.length (run ++ []) := by rw [List.append_nil]
    _ = qualifyFrom inserted needle (run.reverse ++ left) 0 [] := qualifyFrom_skip left run []
    _ = left.reverse ++ run := by simp [qualifyFrom]

theorem qualifyAt_congr {left following following' : List Char}
    (h : following.head? = following'.head?) :
    qualifyAt inserted left following = qualifyAt inserted left following' := by
  unfold qualifyAt
  rw [h]

theorem stateBehind_append_of_plain (mid : List Char) {left : List Char}
    (h : stateBehind left = .plain) : stateBehind (mid ++ left) = stateBehind mid := by
  have happend := stateBehind_append mid.reverse left
  rwa [List.reverse_reverse, h] at happend

/-- What stands in front of an occurrence does not count beyond a place outside quotes that is apart
from what follows. -/
theorem qualifyAt_append {left : List Char} (hplain : stateBehind left = .plain)
    (hend : left.head?.any bindsNext = false) (mid following : List Char) :
    qualifyAt inserted (mid ++ left) following = qualifyAt inserted mid following ++ left := by
  have hstate := stateBehind_append_of_plain mid hplain
  by_cases hmid : stateBehind mid = .plain
  · have hhead : (mid ++ left).head?.any bindsNext = mid.head?.any bindsNext := by
      cases mid with
      | nil => exact hend
      | cons c mid => rfl
    rw [qualifyAt_plain hmid, qualifyAt_plain (hstate.trans hmid), hhead]
    split <;> simp
  · by_cases hopened : justOpened mid
    · obtain ⟨outer, rfl, houter⟩ := hopened
      have hdot : (outer ++ left).head? = some '.' ↔ outer.head? = some '.' := by
        cases outer with
        | nil =>
          have : left.head? ≠ some '.' := fun h => by simp [h, bindsNext] at hend
          simpa using this
        | cons c outer => rfl
      have houter' := (stateBehind_append_of_plain outer hplain).trans houter
      rw [List.cons_append, qualifyAt_opened houter, qualifyAt_opened houter']
      simp only [ne_eq, hdot]
      split <;> simp
    · have hopened' : ¬ justOpened (mid ++ left) := by
        rintro ⟨outer, heq, houter⟩
        cases mid with
        | nil => exact hmid rfl
        | cons c mid =>
          obtain ⟨rfl, rfl⟩ := List.cons.inj heq
          exact hopened ⟨mid, rfl, stateBehind_append_of_plain mid hplain ▸ houter⟩
      rw [qualifyAt_quoted hmid hopened, qualifyAt_quoted (hstate ▸ hmid) hopened']

theorem qualifyFrom_append_left {left : List Char} (hplain : stateBehind left = .plain)
    (hend : left.head?.any bindsNext = false) (mid : List Char) (skip : Nat) (cs : List Char) :
    qualifyFrom inserted needle (mid ++ left) skip cs =
      left.reverse ++ qualifyFrom inserted needle mid skip cs := by
  induction cs generalizing mid skip with
  | nil => simp [qualifyFrom]
  | cons c cs ih =>
    cases skip with
    | succ skip => exact ih (c :: mid) skip
    | zero =>
      rw [qualifyFrom, qualifyFrom]
      split
      · dsimp only
        rw [qualifyAt_append hplain hend]
        exact ih (c :: qualifyAt inserted mid ((c :: cs).drop needle.length)) _
      · exact ih (c :: mid) 0

variable (hticks : '\x60' ∉ needle) (hne : needle ≠ [])

include hticks hne

/-- The search stops at a backtick and starts anew behind it. -/
theorem qualifyFrom_ticked (left : List Char) {skip : Nat} {cs : List Char}
    (hskip : skip ≤ cs.length) (ds : List Char) :
    qualifyFrom inserted needle left skip (cs ++ '\x60' :: ds) =
      qualifyFrom inserted needle
        (qualifyFrom inserted needle left skip (cs ++ ['\x60'])).reverse 0 ds := by
  induction cs generalizing left skip with
  | nil =>
    obtain rfl : skip = 0 := Nat.le_zero.mp hskip
    simp [qualifyFrom, startsWithName_backtick hticks hne]
  | cons c cs ih =>
    cases skip with
    | succ skip => exact ih (c :: left) (Nat.le_of_succ_le_succ hskip)
    | zero =>
      have hstarts (es : List Char) : startsWithName needle (c :: (cs ++ '\x60' :: es)) =
          startsWithName needle (c :: cs) :=
        startsWithName_ticked hticks (c :: cs) es
      rw [List.cons_append, List.cons_append, qualifyFrom, qualifyFrom, hstarts, hstarts]
      split
      · next hs =>
        have hlength := length_le_of_startsWithName hs
        have hdrop (es : List Char) : ((c :: (cs ++ '\x60' :: es)).drop needle.length).head? =
            ((c :: cs).drop needle.length ++ ['\x60']).head? := by
          rw [← List.cons_append, List.drop_append_of_le_length hlength]
          cases (c :: cs).drop needle.length <;> rfl
        rw [List.length_cons] at hlength
        dsimp only
        rw [qualifyAt_congr (hdrop ds), qualifyAt_congr (hdrop []), ih _ (by omega)]
      · exact ih (c :: left) (Nat.zero_le _)

/-- A piece that ends with a backtick and leaves no quote open is searched by itself. -/
theorem qualifyFrom_append {front : List Char} {found : List Char}
    (hfound : qualifyFrom inserted needle [] 0 (front ++ ['\x60']) = found ++ ['\x60'])
    (hclosed : Quoting.plain.after (found ++ ['\x60']) = .plain) (ds : List Char) :
    qualifyFrom inserted needle [] 0 (front ++ '\x60' :: ds) =
      found ++ '\x60' :: qualifyFrom inserted needle [] 0 ds := by
  have hplain : stateBehind (found ++ ['\x60']).reverse = .plain := by
    rwa [stateBehind, List.reverse_reverse]
  have hend : (found ++ ['\x60']).reverse.head?.any bindsNext = false := by
    rw [List.reverse_append]
    rfl
  calc qualifyFrom inserted needle [] 0 (front ++ '\x60' :: ds)
      = qualifyFrom inserted needle ([] ++ (found ++ ['\x60']).reverse) 0 ds := by
        rw [qualifyFrom_ticked hticks hne [] (Nat.zero_le _), hfound, List.nil_append]
    _ = (found ++ ['\x60']) ++ qualifyFrom inserted needle [] 0 ds := by
        rw [qualifyFrom_append_left hplain hend, List.reverse_reverse]
    _ = _ := by simp

end Search

end Columnar
