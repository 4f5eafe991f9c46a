import Columnar.Proofs.Qualify.Literal

/-! Texts that close the quotes they open. Scanned from outside quotes, such a text ends outside
quotes, and what stands behind it is scanned as if it stood alone. -/
namespace Columnar

namespace Quoting

/-- The state of the same text at a later place. -/
def shift (offset : Nat) : Quoting → Quoting
  | identifier opened => identifier (offset + opened)
  | state => state

theorem step_shift (offset position : Nat) (state : Quoting) (c : Char) :
    (state.shift offset).step (offset + position) c = (state.step position c).shift offset := by
  cases state <;> grind [step, shift]

theorem scan_shift (offset position : Nat) (state : Quoting) (cs : List Char) :
    scan (offset + position) (state.shift offset) cs = (scan position state cs).shift offset := by
  induction cs generalizing position state with
  | nil => rfl
  | cons c cs ih => rw [scan, scan, step_shift, Nat.add_assoc, ih]

theorem scan_eq_plain {cs : List Char} : scan 0 plain cs = plain ↔ plain.after cs = plain := by
  rw [← kind_eq_plain, kind_scan]
  rfl

end Quoting

/-- How a position of a text is quoted. -/
def quotingAt (text : String) (position : Nat) : Quoting :=
  Quoting.scan 0 .plain (text.toList.take position)

theorem quotingAt_length (text : String) :
    quotingAt text text.length = Quoting.scan 0 .plain text.toList := by
  rw [quotingAt, ← String.length_toList, List.take_length]

/-- A text that ends outside quotes. -/
def Balanced (text : String) : Prop := quotingAt text text.length = .plain

instance (text : String) : Decidable (Balanced text) :=
  inferInstanceAs (Decidable (quotingAt text text.length = .plain))

theorem balanced_iff {text : String} :
    Balanced text ↔ Quoting.plain.after text.toList = .plain := by
  rw [Balanced, quotingAt_length, Quoting.scan_eq_plain]

namespace Balanced

theorem append {s t : String} (h : Balanced s) (h' : Balanced t) : Balanced (s ++ t) := by
  rw [balanced_iff] at *
  rw [String.toList_append, Quoting.after_append, h, h']

theorem of_closed {s : String} (h : Closed s.toList) : Balanced s := balanced_iff.mpr h.after_eq

theorem of_inert {s : String} (h : Inert s) : Balanced s := of_closed h.closed

/-- Behind a balanced text each position is quoted as it is in the rest alone. -/
theorem quotingAt_append {s : String} (h : Balanced s) (t : String) (position : Nat) :
    quotingAt (s ++ t) (s.length + position) = (quotingAt t position).shift s.length := by
  have hshift := Quoting.scan_shift s.length 0 .plain (t.toList.take position)
  have hplain : Quoting.scan 0 .plain s.toList = .plain := (quotingAt_length s).symm.trans h
  unfold quotingAt
  rw [String.toList_append, ← String.length_toList, List.take_length_add_append,
    Quoting.scan_append, hplain, Nat.zero_add, String.length_toList]
  exact hshift

theorem intercalate {separator : String} (hseparator : Balanced separator) {ss : List String}
    (h : ∀ s ∈ ss, Balanced s) : Balanced (separator.intercalate ss) := by
  induction ss with
  | nil => rfl
  | cons s ss ih =>
    have hs := h s (by simp)
    have hss := ih fun t ht => h t (by simp [ht])
    cases ss with
    | nil =>
      rw [String.intercalate_singleton]
      exact hs
    | cons t ss =>
      rw [String.intercalate_cons_cons]
      exact (hs.append hseparator).append hss

end Balanced

/-- A text without the marks that open quotes. -/
def QuoteFree (text : String) : Prop := '\'' ∉ text.toList ∧ '\x60' ∉ text.toList

instance (text : String) : Decidable (QuoteFree text) :=
  inferInstanceAs (Decidable ('\'' ∉ text.toList ∧ '\x60' ∉ text.toList))

/-- Without such marks a text that starts outside quotes stays there. -/
theorem Quoting.after_of_quoteFree {cs : List Char} (hquote : '\'' ∉ cs) (htick : '\x60' ∉ cs) :
    Quoting.plain.after cs = .plain := by
  induction cs with
  | nil => rfl
  | cons c cs ih =>
    simp only [List.mem_cons, not_or] at hquote htick
    have hstep : Quoting.plain.step 0 c = .plain := by
      simp [Quoting.step, Ne.symm hquote.1, Ne.symm htick.1]
    rw [Quoting.after_cons, hstep, ih hquote.2 htick.2]

theorem QuoteFree.balanced {text : String} (h : QuoteFree text) : Balanced text :=
  balanced_iff.mpr (Quoting.after_of_quoteFree h.1 h.2)

/-! The two quoted forms of the language, for names and strings with any marks in them. -/

theorem balanced_quoteIdentifier (name : String) (force : Bool) :
    Balanced (Text.quoteIdentifier name force) :=
  balanced_iff.mpr (after_quoteIdentifier name force)

theorem balanced_columnText (force : Bool) (qualifier : Option String) (name : String) :
    Balanced (columnText force qualifier name) :=
  balanced_iff.mpr (after_columnText force qualifier name)

theorem balanced_quoteString (value : String) : Balanced (Text.quoteString value) :=
  .of_closed (closed_quoteString value)

end Columnar
