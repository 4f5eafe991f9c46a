import Columnar.Column.Form
import Columnar.Proofs.Expr.FrameOrder
import Columnar.Proofs.Expr.Reading

/-! The frame of a window. It is the span that was set last, its ends lie as the distances do that it
was set with, and the text of the window ends in a text that only this span has. -/
namespace Columnar

/-! A bound is written in two words, so a span is read off the end of a text. -/

namespace FrameBound

theorem blank_not_mem_digits (n : Nat) : ' ' ∉ Number.digits n := fun h =>
  absurd (Number.isDigit_of_mem_digits h) (by decide)

theorem exists_words (b : FrameBound) : ∃ first second,
    b.text.toList = first ++ ' ' :: second ∧ ' ' ∉ first ∧ ' ' ∉ second := by
  cases b with
  | unboundedPreceding =>
    exact ⟨"UNBOUNDED".toList, "PRECEDING".toList, rfl, by decide, by decide⟩
  | preceding offset =>
    refine ⟨Number.digits offset.toNat, "PRECEDING".toList, ?_, blank_not_mem_digits _, by decide⟩
    simp [text]
  | currentRow => exact ⟨"CURRENT".toList, "ROW".toList, rfl, by decide, by decide⟩
  | following offset =>
    refine ⟨Number.digits offset.toNat, "FOLLOWING".toList, ?_, blank_not_mem_digits _, by decide⟩
    simp [text]
  | unboundedFollowing =>
    exact ⟨"UNBOUNDED".toList, "FOLLOWING".toList, rfl, by decide, by decide⟩

theorem text_inj {a b : FrameBound} (h : a.text = b.text) : a = b := by
  have hread := Expr.readBound_text a []
  rw [h, Expr.readBound_text] at hread
  exact (Prod.mk.inj (Option.some.inj hread)).1.symm

theorem append_text_inj {front front' : List Char} {a b : FrameBound}
    (h : front ++ ' ' :: a.text.toList = front' ++ ' ' :: b.text.toList) :
    front = front' ∧ a = b := by
  obtain ⟨first, second, htext, hfirst, hsecond⟩ := exists_words a
  obtain ⟨first', second', htext', hfirst', hsecond'⟩ := exists_words b
  have hfree {word : List Char} (hword : ' ' ∉ word) : ∀ c ∈ word, c ≠ ' ' := by
    rintro c hc rfl
    exact hword hc
  have hwords : (front ++ ' ' :: first) ++ ' ' :: second =
      (front' ++ ' ' :: first') ++ ' ' :: second' := by
    rw [htext, htext'] at h
    simpa using h
  -- neither word has a blank, so the last blank cuts the second off, and the next one the first
  obtain ⟨hfronts, -, rfl⟩ := eq_of_append_cons_eq (p := fun c => c ≠ ' ') (hfree hsecond)
    (hfree hsecond') (by simp) (by simp) hwords
  obtain ⟨rfl, -, rfl⟩ := eq_of_append_cons_eq (p := fun c => c ≠ ' ') (hfree hfirst)
    (hfree hfirst') (by simp) (by simp) hfronts
  exact ⟨rfl, text_inj (String.toList_injective (htext.trans htext'.symm))⟩

end FrameBound

namespace FrameSpan

theorem toList_text (s : FrameSpan) : s.text.toList =
    s.unit.text.toList ++ " BETWEEN".toList ++ ' ' :: s.start.text.toList ++ " AND".toList ++
      ' ' :: s.stop.text.toList := by
  simp [text]

/-- A span is read off the end of a text. -/
theorem append_text_inj {front front' : List Char} {s t : FrameSpan}
    (h : front ++ s.text.toList = front' ++ t.text.toList) : s = t := by
  simp only [toList_text, ← List.append_assoc] at h
  obtain ⟨hstarts, hstop⟩ := FrameBound.append_text_inj h
  obtain ⟨hunits, hstart⟩ := FrameBound.append_text_inj (List.append_cancel_right hstarts)
  have hunit : s.unit = t.unit := by
    -- the last letters differ
    have hlast := congrArg List.getLast? (List.append_cancel_right hunits)
    cases hs : s.unit <;> cases ht : t.unit <;> simp [hs, ht, FrameUnit.text] at hlast ⊢
  cases s
  cases t
  rw [mk.injEq]
  exact ⟨hunit, hstart, hstop⟩

theorem text_inj {s t : FrameSpan} (h : s.text = t.text) : s = t :=
  append_text_inj (congrArg ([] ++ String.toList ·) h)

theorem between_inj {unit unit' : FrameUnit} {start start' stop stop' : Int64} :
    between unit start stop = between unit' start' stop' ↔
      unit = unit' ∧ start = start' ∧ stop = stop' := by
  simp only [between, mk.injEq, FrameBound.ofOffset_injective.eq_iff]

end FrameSpan

theorem exists_intercalate_concat (separator : String) (parts : List String) (last : String) :
    ∃ front, separator.intercalate (parts ++ [last]) = front ++ last := by
  cases parts with
  | nil => exact ⟨"", by simp⟩
  | cons part parts =>
    refine ⟨separator.intercalate (part :: parts) ++ separator, ?_⟩
    rw [String.intercalate_append_of_ne_nil (List.cons_ne_nil _ _) (List.cons_ne_nil _ _),
      String.intercalate_singleton]

namespace Expr

/-- Behind its frame a window is only closed. -/
theorem exists_text_window (force : Bool) (e : Expr) (partition order : List Expr)
    (span : FrameSpan) :
    ∃ front, (window e partition order (some span)).text force = front ++ span.text ++ ")" := by
  obtain ⟨front, hfront⟩ := exists_intercalate_concat " "
    (sectionText "PARTITION BY " (listText force partition) partition.isEmpty ++
      sectionText "ORDER BY " (listText force order) order.isEmpty) span.text
  refine ⟨e.text force ++ " OVER (" ++ front, ?_⟩
  rw [text, Option.map_some, Option.toList_some, hfront]
  simp only [String.append_assoc]

/-- Windows with one text have one frame, whatever they are put over and sorted by. -/
theorem frame_eq_of_text_eq {force force' : Bool} {e e' : Expr}
    {partition order partition' order' : List Expr} {s t : FrameSpan}
    (h : (window e partition order (some s)).text force =
      (window e' partition' order' (some t)).text force') : s = t := by
  obtain ⟨front, hfront⟩ := exists_text_window force e partition order s
  obtain ⟨front', hfront'⟩ := exists_text_window force' e' partition' order' t
  rw [hfront, hfront'] at h
  have hlists := congrArg String.toList h
  simp only [String.toList_append] at hlists
  exact FrameSpan.append_text_inj (List.append_cancel_right hlists)

end Expr

def WindowPart.takesKey : WindowPart → Bool
  | partition => true
  | order => true
  | frame _ => false

/-- Setting a frame replaces the frame that was set before and keeps the keys. -/
theorem Form.windowOf_concat_frame (span : FrameSpan) (parts : List WindowPart) (keys : List Expr)
    (h : parts.countP WindowPart.takesKey ≤ keys.length) :
    windowOf (parts ++ [.frame span]) keys =
      ((windowOf parts keys).1, (windowOf parts keys).2.1, some span) := by
  induction parts generalizing keys with
  | nil => rfl
  | cons part parts ih =>
    cases part with
    | frame other =>
      have hrest := ih keys (by simpa [WindowPart.takesKey] using h)
      simp [windowOf, hrest]
    | partition | order =>
      cases keys with
      | nil => simp [WindowPart.takesKey] at h
      | cons key keys =>
        have hrest := ih keys (by simpa [List.countP_cons, WindowPart.takesKey] using h)
        simp [windowOf, hrest]

/-- Signed distances go into the ends of frames without losing their order. A smaller distance has
an earlier bound, so no two distances share one; the two extreme distances alone have no bound, and
every other one keeps its magnitude. Setting a frame between two distances replaces the frame of a
window, the frame ends no earlier than it starts if and only if the distances are in order, and its
text tells both, also where it stands in the text of a window. -/
theorem distances_embed_into_frames :
    (∀ m n : Int64, m < n ↔ FrameBound.ofOffset m < FrameBound.ofOffset n) ∧
    Function.Injective FrameBound.ofOffset ∧
    (∀ n, FrameBound.ofOffset n = .unboundedPreceding ↔ n = Int64.minValue) ∧
    (∀ n k, FrameBound.ofOffset n = .preceding k ↔
      Int64.minValue < n ∧ n < 0 ∧ (k.toNat : Int) = -n.toInt) ∧
    (∀ n, FrameBound.ofOffset n = .currentRow ↔ n = 0) ∧
    (∀ n k, FrameBound.ofOffset n = .following k ↔
      0 < n ∧ n < Int64.maxValue ∧ (k.toNat : Int) = n.toInt) ∧
    (∀ n, FrameBound.ofOffset n = .unboundedFollowing ↔ n = Int64.maxValue) ∧
    (∀ parts keys, parts.countP WindowPart.takesKey ≤ keys.length → ∀ unit start stop,
      Form.windowOf (parts ++ [.frame (.between unit start stop)]) keys =
        ((Form.windowOf parts keys).1, (Form.windowOf parts keys).2.1,
          some (.between unit start stop))) ∧
    (∀ unit start stop, start ≤ stop ↔
      (FrameSpan.between unit start stop).start ≤ (FrameSpan.between unit start stop).stop) ∧
    (∀ unit start stop unit' start' stop',
      (FrameSpan.between unit start stop).text = (FrameSpan.between unit' start' stop').text ↔
        unit = unit' ∧ start = start' ∧ stop = stop') ∧
    ∀ force e partition order unit start stop force' e' partition' order' unit' start' stop',
      (Expr.window e partition order (some (.between unit start stop))).text force =
          (Expr.window e' partition' order' (some (.between unit' start' stop'))).text force' →
        unit = unit' ∧ start = start' ∧ stop = stop' := by
  refine ⟨fun _ _ => FrameBound.ofOffset_lt_iff.symm, FrameBound.ofOffset_injective,
    fun _ => FrameBound.ofOffset_eq_unboundedPreceding_iff,
    fun _ _ => FrameBound.ofOffset_eq_preceding_iff, fun _ => FrameBound.ofOffset_eq_currentRow_iff,
    fun _ _ => FrameBound.ofOffset_eq_following_iff,
    fun _ => FrameBound.ofOffset_eq_unboundedFollowing_iff, ?window, ?ends, ?spanText, ?windowText⟩
  case window =>
    intro parts keys hkeys unit start stop
    exact Form.windowOf_concat_frame _ parts keys hkeys
  case ends =>
    intro unit start stop
    exact FrameBound.ofOffset_le_iff.symm
  case spanText =>
    intro unit start stop unit' start' stop'
    rw [← FrameSpan.between_inj]
    exact ⟨FrameSpan.text_inj, congrArg FrameSpan.text⟩
  case windowText =>
    intro force e partition order unit start stop force' e' partition' order' unit' start' stop' h
    exact FrameSpan.between_inj.mp (Expr.frame_eq_of_text_eq h)

/-- The outermost distances that have a bound, set on a window in place of an earlier frame. -/
theorem distances_embed_into_frames_outermost :
    FrameBound.ofOffset (-9223372036854775807) < FrameBound.ofOffset 9223372036854775806 ∧
    FrameBound.ofOffset (-9223372036854775807) = .preceding 9223372036854775807 ∧
    [WindowPart.frame (.between .range (-2) 2), .order].countP WindowPart.takesKey ≤
      [Expr.column none "t"].length ∧
    Form.windowOf ([.frame (.between .range (-2) 2), .order] ++
        [.frame (.between .rows (-9223372036854775807) 9223372036854775806)])
        [.column none "t"] =
      ([], [.column none "t"],
        some ⟨.rows, .preceding 9223372036854775807, .following 9223372036854775806⟩) ∧
    (FrameSpan.between .rows Int64.minValue 0).text ≠
      (FrameSpan.between .rows (-9223372036854775807) 0).text ∧
    (Expr.window (.raw "v") [] [] (some (.between .rows (Int64.minValue + 1) 0))).text false =
      (Expr.window (.column none "v") [] []
        (some (.between .rows (-9223372036854775807) 0))).text false ∧
    Int64.minValue + 1 = -9223372036854775807 := by
  obtain ⟨horder, -, -, hpreceding, -, -, -, hwindow, -, hspan, htext⟩ :=
    distances_embed_into_frames
  have hkeys : [WindowPart.frame (.between .range (-2) 2), .order].countP WindowPart.takesKey ≤
      [Expr.column none "t"].length := by decide
  have hsame : (Expr.window (.raw "v") [] []
      (some (.between .rows (Int64.minValue + 1) 0))).text false =
        (Expr.window (.column none "v") [] []
          (some (.between .rows (-9223372036854775807) 0))).text false := rfl
  refine ⟨(horder _ _).mp (by decide), (hpreceding _ _).mpr (by decide), hkeys,
    hwindow _ _ hkeys .rows _ _, fun h => ?_, hsame,
    (htext _ _ _ _ _ _ _ _ _ _ _ _ _ _ hsame).2.1⟩
  exact absurd ((hspan _ _ _ _ _ _).mp h).2.1 (by decide)

end Columnar
