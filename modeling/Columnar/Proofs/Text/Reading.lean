import Columnar.Proofs.Text.Backtick
import Columnar.Proofs.Text.Word

/-! Reading a text piece by piece. A reader takes the characters in front of it and returns what it
read with the characters that are left; one that calls itself is given fuel, and what counts is what
it gives once the fuel suffices. -/
namespace Columnar

/-- What a reader gives with enough fuel. -/
def Reads {α : Type} (read : Nat → Option α) (a : α) : Prop :=
  ∃ bound, ∀ fuel, bound ≤ fuel → read fuel = some a

namespace Reads

variable {α β : Type} {read : Nat → Option α} {a b : α}

theorem unique (h : Reads read a) (h' : Reads read b) : a = b := by
  obtain ⟨bound, h⟩ := h
  obtain ⟨bound', h'⟩ := h'
  have hfound := h (max bound bound') (by omega)
  rw [h' (max bound bound') (by omega)] at hfound
  exact (Option.some.inj hfound).symm

theorem done (a : α) : Reads (fun _ => some a) a := ⟨0, fun _ _ => rfl⟩

theorem step {next : Nat → Option α} (heq : ∀ fuel, read (fuel + 1) = next fuel)
    (h : Reads next a) : Reads read a := by
  obtain ⟨bound, h⟩ := h
  refine ⟨bound + 1, fun fuel hfuel => ?_⟩
  obtain ⟨rest, rfl⟩ : ∃ rest, fuel = rest + 1 := ⟨fuel - 1, by omega⟩
  rw [heq]
  exact h rest (by omega)

theorem step₂ {next : Nat → Option α} (heq : ∀ fuel, read (fuel + 2) = next fuel)
    (h : Reads next a) : Reads read a :=
  .step (fun _ => rfl) (.step heq h)

theorem bind {next : Nat → α → Option β} {b : β} (h : Reads read a)
    (hnext : Reads (fun fuel => next fuel a) b) :
    Reads (fun fuel => read fuel >>= next fuel) b := by
  obtain ⟨bound, h⟩ := h
  obtain ⟨bound', hnext⟩ := hnext
  refine ⟨max bound bound', fun fuel hfuel => ?_⟩
  change (read fuel).bind (next fuel) = some b
  rw [h fuel (by omega)]
  exact hnext fuel (by omega)

/-- Where a first reader succeeds, the alternative is not asked. -/
theorem elim {next : Nat → α → Option β} {otherwise : Nat → Option β} {b : β} (h : Reads read a)
    (hnext : Reads (fun fuel => next fuel a) b) :
    Reads (fun fuel => (read fuel).elim (otherwise fuel) (next fuel)) b := by
  obtain ⟨bound, h⟩ := h
  obtain ⟨bound', hnext⟩ := hnext
  refine ⟨max bound bound', fun fuel hfuel => ?_⟩
  change (read fuel).elim (otherwise fuel) (next fuel) = some b
  rw [h fuel (by omega)]
  exact hnext fuel (by omega)

end Reads

/-- What follows a given text in front. -/
def behind : List Char → List Char → Option (List Char)
  | [], cs => some cs
  | _ :: _, [] => none
  | c :: front, d :: cs => if c = d then behind front cs else none

@[simp] theorem behind_append (front rest : List Char) :
    behind front (front ++ rest) = some rest := by
  induction front with
  | nil => rfl
  | cons c front ih => simp [behind, ih]

/-- The first entry of a table whose text is in front, with what follows it. -/
def choose {α : Type} (table : List (String × α)) (cs : List Char) : Option (α × List Char) :=
  table.findSome? fun (front, a) => (behind front.toList cs).map fun rest => (a, rest)

theorem span_append {p : Char → Bool} {run rest : List Char} (h : ∀ c ∈ run, p c)
    (hrest : rest.head?.any p = false) :
    (run ++ rest).takeWhile p = run ∧ (run ++ rest).dropWhile p = rest := by
  have htail : rest.takeWhile p = [] ∧ rest.dropWhile p = rest := by
    cases rest with
    | nil => exact ⟨rfl, rfl⟩
    | cons c rest =>
      have hc : p c = false := hrest
      simp [hc]
  rw [List.takeWhile_append_of_pos h, List.dropWhile_append_of_pos h, htail.1, htail.2,
    List.append_nil]
  exact ⟨rfl, rfl⟩

/-- Where such a run ends is said by the text alone. -/
theorem span_inj {p : Char → Bool} {run run' rest rest' : List Char} (h : ∀ c ∈ run, p c)
    (h' : ∀ c ∈ run', p c) (hrest : rest.head?.any p = false) (hrest' : rest'.head?.any p = false)
    (heq : run ++ rest = run' ++ rest') : run = run' ∧ rest = rest' := by
  obtain ⟨hrun, htail⟩ := span_append h hrest
  obtain ⟨hrun', htail'⟩ := span_append h' hrest'
  rw [heq] at hrun htail
  exact ⟨hrun.symm.trans hrun', htail.symm.trans htail'⟩

/-- Two texts of which each ends in a run of a class, behind a character outside of it. -/
theorem eq_of_append_cons_eq {α : Type} {p : α → Prop} {front front' run run' : List α} {a b : α}
    (hrun : ∀ c ∈ run, p c) (hrun' : ∀ c ∈ run', p c) (ha : ¬ p a) (hb : ¬ p b)
    (h : front ++ a :: run = front' ++ b :: run') : front = front' ∧ a = b ∧ run = run' := by
  rcases List.append_eq_append_iff.mp h with ⟨mid, rfl, hmid⟩ | ⟨mid, rfl, hmid⟩
  · cases mid with
    | nil => simpa using hmid
    | cons c mid =>
      obtain ⟨rfl, rfl⟩ := List.cons.inj hmid
      exact absurd (hrun b (by simp)) hb
  · cases mid with
    | nil => simpa [eq_comm] using hmid
    | cons c mid =>
      obtain ⟨rfl, rfl⟩ := List.cons.inj hmid
      exact absurd (hrun' a (by simp)) ha

def spanWord (cs : List Char) : List Char × List Char :=
  (cs.takeWhile Text.isWord, cs.dropWhile Text.isWord)

theorem spanWord_append {word rest : List Char} (h : ∀ c ∈ word, Text.isWord c)
    (hrest : rest.head?.any Text.isWord = false) : spanWord (word ++ rest) = (word, rest) := by
  obtain ⟨hword, htail⟩ := span_append h hrest
  rw [spanWord, hword, htail]

def readIdentifier (cs : List Char) : Option (String × List Char) :=
  match behind ['\x60'] cs with
  | some quoted => (Text.splitDoubled quoted).map fun (name, rest) => (String.ofList name, rest)
  | none =>
    let (word, rest) := spanWord cs
    if word.isEmpty then none else some (String.ofList word, rest)

theorem readIdentifier_backquote (name : String) {rest : List Char}
    (hrest : rest.head? ≠ some '\x60') :
    readIdentifier ((Text.backquote name).toList ++ rest) = some (name, rest) := by
  have hsplit := Text.splitDoubled_doubleBackticks name.toList hrest
  simp [readIdentifier, behind, hsplit]

theorem readIdentifier_word {word : String} (hne : word.toList ≠ [])
    (h : ∀ c ∈ word.toList, Text.isWord c) {rest : List Char}
    (hrest : rest.head?.any Text.isWord = false) :
    readIdentifier (word.toList ++ rest) = some (word, rest) := by
  obtain ⟨c, cs, hword⟩ := List.exists_cons_of_ne_nil hne
  have htick : '\x60' ≠ c := by
    rintro rfl
    exact absurd (h '\x60' (by simp [hword])) (by decide)
  have hquoted : behind ['\x60'] (word.toList ++ rest) = none := by simp [behind, hword, htick]
  rw [readIdentifier, hquoted]
  dsimp only
  rw [spanWord_append h hrest]
  simp [hne]

/-- A written name is read back in front of a text that does not prolong it. -/
theorem readIdentifier_quoteIdentifier (name : String) (force : Bool) {rest : List Char}
    (hword : rest.head?.any Text.isWord = false) (htick : rest.head? ≠ some '\x60') :
    readIdentifier ((Text.quoteIdentifier name force).toList ++ rest) = some (name, rest) := by
  unfold Text.quoteIdentifier
  split
  · next hplain =>
    simp only [Bool.and_eq_true] at hplain
    exact readIdentifier_word (Text.ne_nil_of_isPlain hplain.2) (Text.isWord_of_isPlain hplain.2)
      hword
  · exact readIdentifier_backquote name htick

end Columnar
