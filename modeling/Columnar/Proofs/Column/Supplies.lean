import Mathlib.Data.List.TakeWhile
import Columnar.Column.Eval
import Columnar.Proofs.Column.MintedName

/-! Two supplies of names under one configuration, and texts that are alike up to the choice between
them: word by word they are equal, except that a name of the first supply stands where the other text
has the name of the same number of the second. -/
namespace Columnar

/-- The maximal runs of word characters of a text, with empty ones where two other characters meet. -/
def words (cs : List Char) : List (List Char) := cs.splitOnP (!Text.isWord ·)

/-- Whether a word has the form of a minted name: an underscore and then four or more hexadecimal
digits at its end. -/
def looksMinted (word : List Char) : Bool :=
  let digits := word.reverse.takeWhile (· != '_')
  digits.length < word.length && 4 ≤ digits.length && digits.all isLowerHex

/-- Two supplies of hexadecimal digits under one valid configuration. -/
structure Supplies where
  config : Config
  valid : config.isValid
  first : Nat → String
  second : Nat → String
  first_digits : ∀ i, IsDigits (first i)
  second_digits : ∀ i, IsDigits (second i)

theorem mem_of_mem_words {word cs : List Char} {c : Char} (hword : word ∈ words cs) (hc : c ∈ word) :
    c ∈ cs := by
  induction cs generalizing word with
  | nil =>
    rw [List.mem_singleton.mp hword] at hc
    exact hc
  | cons d cs ih =>
    rw [words, List.splitOnP_cons_eq_if_modifyHead] at hword
    split at hword
    · rcases List.mem_cons.mp hword with rfl | hword
      · cases hc
      · exact List.mem_cons_of_mem _ (ih hword hc)
    · obtain ⟨first, rest, hwords⟩ := List.exists_cons_of_ne_nil (List.splitOnP_ne_nil _ cs)
      rw [hwords, List.modifyHead_cons, List.mem_cons] at hword
      rw [words, hwords] at ih
      rcases hword with rfl | hword
      · rcases List.mem_cons.mp hc with rfl | hc
        · exact List.mem_cons_self
        · exact List.mem_cons_of_mem _ (ih List.mem_cons_self hc)
      · exact List.mem_cons_of_mem _ (ih (List.mem_cons_of_mem _ hword) hc)

theorem looksMinted_of_not_mem {word : List Char} (h : '_' ∉ word) : looksMinted word = false := by
  have hall : word.reverse.takeWhile (· != '_') = word.reverse := by
    rw [List.takeWhile_eq_self_iff]
    intro c hc
    rw [bne_iff_ne]
    rintro rfl
    exact h (List.mem_reverse.mp hc)
  simp [looksMinted, hall]

namespace Supplies

variable (s : Supplies)

def scope : LambdaScope := .ofConfig s.config

def leftRun : Rendering := .ofConfig s.config s.first

def rightRun : Rendering := .ofConfig s.config s.second

/-- The names that the two supplies give to a number. -/
def left (i : Nat) : List Char := (s.leftRun.nameAt i).toList

def right (i : Nat) : List Char := (s.rightRun.nameAt i).toList

theorem isSound_config : s.config.IsSound := Config.isValid_iff.mp s.valid

theorem isName_left (i : Nat) : s.scope.IsName (s.left i) :=
  LambdaScope.isName_name (s.first_digits i)

theorem isName_right (i : Nat) : s.scope.IsName (s.right i) :=
  LambdaScope.isName_name (s.second_digits i)

variable {s} {word : List Char}

theorem looksMinted_of_isName (h : s.scope.IsName word) : looksMinted word := by
  obtain ⟨digits, rfl, hlength, hhex⟩ := h.eq
  have hfour : 4 ≤ digits.length := by
    rw [hlength]
    exact Nat.le_min.mpr ⟨s.isSound_config.suffix_length.1, by decide⟩
  have hdigits : (s.scope.stem.toList ++ '_' :: digits).reverse.takeWhile (· != '_') =
      digits.reverse := by
    rw [List.reverse_append, List.reverse_cons, List.append_assoc]
    rw [List.takeWhile_append_of_pos]
    · simp
    · intro c hc
      simpa using (isWord_of_isLowerHex (hhex c (List.mem_reverse.mp hc))).2
  simp only [looksMinted, hdigits, List.length_reverse, List.length_append, List.length_cons,
    List.all_reverse, Bool.and_eq_true, decide_eq_true_eq, List.all_eq_true]
  exact ⟨⟨by omega, hfour⟩, hhex⟩

variable (s)

/-- A word that is a name of neither supply. -/
def Unminted (word : List Char) : Prop := ∀ i, word ≠ s.left i ∧ word ≠ s.right i

def Free (cs : List Char) : Prop := ∀ word ∈ words cs, s.Unminted word

variable {s}

theorem unminted_of_not_looksMinted (h : looksMinted word = false) : s.Unminted word := by
  intro i
  constructor
  · rintro rfl
    rw [looksMinted_of_isName (s.isName_left i)] at h
    cases h
  · rintro rfl
    rw [looksMinted_of_isName (s.isName_right i)] at h
    cases h

/-- A fixed text of the program. -/
theorem free_of_words {cs : List Char} (h : (words cs).all (!looksMinted ·) = true) : s.Free cs := by
  intro word hword
  refine unminted_of_not_looksMinted ?_
  simpa using List.all_eq_true.mp h word hword

/-- No text without an underscore contains a name. -/
theorem free_of_not_mem {cs : List Char} (h : '_' ∉ cs) : s.Free cs := fun _ hword =>
  unminted_of_not_looksMinted (looksMinted_of_not_mem fun hmem => h (mem_of_mem_words hword hmem))

end Supplies

end Columnar
