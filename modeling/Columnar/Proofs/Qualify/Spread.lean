import Columnar.Proofs.Qualify.Loop

/-! A text and what has been inserted in it, kept apart: each character of the text has the block in
front of it that was inserted there. -/
namespace Columnar

/-- A text with what has been inserted in front of each of its characters. -/
abbrev Spread := List (List Char × Char)

namespace Spread

/-- The characters of the text that was there before. -/
def source (s : Spread) : List Char := s.map Prod.snd

def text (s : Spread) : List Char := s.flatMap fun (block, c) => block ++ [c]

/-- Something has been inserted between two parts of the text. -/
def Marked (s : Spread) (front back : List Char) : Prop :=
  ∃ s₁ block c s₂, s = s₁ ++ (block, c) :: s₂ ∧ block ≠ [] ∧ front = source s₁ ∧
    back = c :: source s₂

@[simp] theorem source_nil : source [] = [] := rfl

@[simp] theorem source_cons (block : List Char) (c : Char) (s : Spread) :
    source ((block, c) :: s) = c :: source s := rfl

@[simp] theorem source_append (s t : Spread) : source (s ++ t) = source s ++ source t := by
  simp [source]

@[simp] theorem text_nil : text [] = [] := rfl

@[simp] theorem text_cons (block : List Char) (c : Char) (s : Spread) :
    text ((block, c) :: s) = block ++ c :: text s := by
  simp [text]

@[simp] theorem text_append (s t : Spread) : text (s ++ t) = text s ++ text t := by
  simp [text]

/-- The last character of a spread text is one of its own. -/
theorem getLast?_text (s : Spread) : (text s).getLast? = (source s).getLast? := by
  rcases List.eq_nil_or_concat s with rfl | ⟨init, ⟨block, c⟩, rfl⟩
  · rfl
  · simp

/-- A cut of the text goes through what stands in front of one of the characters. -/
theorem exists_cut {s : Spread} {front back : List Char} (h : text s = front ++ back)
    (hback : back ≠ []) :
    ∃ s₁ b₁ b₂ c s₂, s = s₁ ++ (b₁ ++ b₂, c) :: s₂ ∧ front = text s₁ ++ b₁ ∧
      back = b₂ ++ c :: text s₂ := by
  induction s generalizing front with
  | nil => exact absurd (List.append_eq_nil_iff.mp h.symm).2 hback
  | cons head s ih =>
    obtain ⟨block, c⟩ := head
    rw [text_cons] at h
    rcases List.append_eq_append_iff.mp h with ⟨mid, rfl, hmid⟩ | ⟨mid, rfl, rfl⟩
    · cases mid with
      | nil => exact ⟨[], block, [], c, s, by simp, by simp, by simpa using hmid.symm⟩
      | cons d mid =>
        obtain ⟨rfl, hrest⟩ := List.cons.inj hmid
        obtain ⟨s₁, b₁, b₂, d, s₂, rfl, rfl, rfl⟩ := ih hrest
        exact ⟨(block, c) :: s₁, b₁, b₂, d, s₂, by simp, by simp, rfl⟩
    · exact ⟨[], front, mid, c, s, by simp, by simp, rfl⟩

/-- Only the character in front of which a block changes can get or lose a mark. -/
theorem Marked.of_changed {s₁ s₂ : Spread} {block block' : List Char} {c : Char}
    {front back : List Char} (h : Marked (s₁ ++ (block', c) :: s₂) front back) :
    Marked (s₁ ++ (block, c) :: s₂) front back ∨ front = source s₁ ∧ back = c :: source s₂ := by
  obtain ⟨t₁, marks, d, t₂, heq, hmarks, rfl, rfl⟩ := h
  rcases List.append_eq_append_iff.mp heq with ⟨mid, rfl, hmid⟩ | ⟨mid, rfl, hmid⟩
  · cases mid with
    | nil =>
      simp only [List.nil_append, List.cons.injEq, Prod.mk.injEq] at hmid
      obtain ⟨⟨-, rfl⟩, rfl⟩ := hmid
      exact Or.inr ⟨by simp, rfl⟩
    | cons head mid =>
      obtain ⟨rfl, rfl⟩ := List.cons.inj hmid
      exact Or.inl ⟨s₁ ++ (block, c) :: mid, marks, d, t₂, by simp, hmarks, by simp, rfl⟩
  · cases mid with
    | nil =>
      simp only [List.nil_append, List.cons.injEq, Prod.mk.injEq] at hmid
      obtain ⟨⟨-, rfl⟩, rfl⟩ := hmid
      exact Or.inr ⟨by simp, rfl⟩
    | cons head mid =>
      obtain ⟨rfl, rfl⟩ := List.cons.inj hmid
      exact Or.inl ⟨t₁, marks, d, mid ++ (block, c) :: s₂, by simp, hmarks, rfl, by simp⟩

theorem Marked.of_inserted {s₁ s₂ : Spread} {b₁ inserted b₂ : List Char} {c : Char}
    {front back : List Char} (h : Marked (s₁ ++ (b₁ ++ inserted ++ b₂, c) :: s₂) front back) :
    Marked (s₁ ++ (b₁ ++ b₂, c) :: s₂) front back ∨
      b₁ ++ b₂ = [] ∧ front = source s₁ ∧ back = c :: source s₂ := by
  rcases h.of_changed with hold | ⟨rfl, rfl⟩
  · exact Or.inl hold
  · by_cases hblock : b₁ ++ b₂ = []
    · exact Or.inr ⟨hblock, rfl, rfl⟩
    · exact Or.inl ⟨s₁, b₁ ++ b₂, c, s₂, rfl, hblock, rfl, rfl⟩

theorem Marked.inserted {s₁ s₂ : Spread} {b₁ b₂ inserted : List Char} {c : Char}
    {front back : List Char} (h : Marked (s₁ ++ (b₁ ++ b₂, c) :: s₂) front back)
    (hne : inserted ≠ []) : Marked (s₁ ++ (b₁ ++ inserted ++ b₂, c) :: s₂) front back := by
  rcases h.of_changed with hold | ⟨rfl, rfl⟩
  · exact hold
  · exact ⟨s₁, b₁ ++ inserted ++ b₂, c, s₂, rfl, by simp [hne], rfl, rfl⟩

theorem text_eq_source {s : Spread} (h : ∀ p ∈ s, p.1 = []) : text s = source s := by
  induction s with
  | nil => rfl
  | cons head s ih =>
    obtain ⟨block, c⟩ := head
    obtain ⟨rfl, hs⟩ := List.forall_mem_cons.mp h
    rw [text_cons, source_cons, ih hs, List.nil_append]

/-- A text in which nothing has been inserted yet. -/
def ofText (cs : List Char) : Spread := cs.map fun c => ([], c)

theorem mem_ofText (cs : List Char) : ∀ p ∈ ofText cs, p.1 = [] := by
  simp [ofText]

theorem source_ofText (cs : List Char) : source (ofText cs) = cs := by
  simp [source, ofText, Function.comp_def]

/-- A text that starts with a name has the name in it, up to the end or up to the first mark. -/
theorem exists_spelled {needle : List Char} {t : Spread} (h : startsWithName needle (text t)) :
    ∃ t₁ t₂, t = t₁ ++ t₂ ∧ text t₁ = source t₁ ∧ (∀ c ∈ source t₁, c.toLower ∈ needle) ∧
      (spells needle (source t₁) ∨ ∃ block c t₃, t₂ = (block, c) :: t₃ ∧ block ≠ []) := by
  induction needle generalizing t with
  | nil => exact ⟨[], t, rfl, rfl, by simp, Or.inl rfl⟩
  | cons n needle ih =>
    cases t with
    | nil => exact absurd h (by simp [startsWithName])
    | cons head t =>
      obtain ⟨block, c⟩ := head
      by_cases hblock : block = []
      · subst hblock
        rw [text_cons, List.nil_append, startsWithName, Bool.and_eq_true, beq_iff_eq] at h
        obtain ⟨hc, hrest⟩ := h
        obtain ⟨t₁, t₂, rfl, htext, hmem, hend⟩ := ih hrest
        refine ⟨([], c) :: t₁, t₂, rfl, by simp [htext], ?_, hend.imp_left fun hspells => ?_⟩
        · rw [source_cons, List.forall_mem_cons]
          exact ⟨by simp [hc], fun d hd => List.mem_cons_of_mem n (hmem d hd)⟩
        · simpa [spells, hc] using hspells
      · exact ⟨[], (block, c) :: t, rfl, rfl, by simp, Or.inr ⟨block, c, t, rfl, hblock⟩⟩

/-- The quotes of a text stay as they are when a text that closes its quotes goes in outside of
them. -/
theorem after_inserted {s₁ s₂ : Spread} {b₁ b₂ inserted : List Char} {c : Char}
    (h : ∀ t₁ t₂, s₁ ++ (b₁ ++ b₂, c) :: s₂ = t₁ ++ t₂ →
      Quoting.plain.after (text t₁) = Quoting.plain.after (source t₁))
    (hplace : Quoting.plain.after (text s₁ ++ b₁) = .plain)
    (hinserted : Quoting.plain.after inserted = .plain) (t₁ t₂ : Spread)
    (heq : s₁ ++ (b₁ ++ inserted ++ b₂, c) :: s₂ = t₁ ++ t₂) :
    Quoting.plain.after (text t₁) = Quoting.plain.after (source t₁) := by
  rcases List.append_eq_append_iff.mp heq with ⟨mid, rfl, hmid⟩ | ⟨mid, rfl, -⟩
  · cases mid with
    | nil => simpa using h s₁ _ rfl
    | cons head mid =>
      obtain ⟨rfl, rfl⟩ := List.cons.inj hmid
      have hold := h (s₁ ++ (b₁ ++ b₂, c) :: mid) t₂ (by simp)
      rw [Quoting.after_append] at hplace
      simp only [text_append, text_cons, source_append, source_cons, Quoting.after_append,
        hplace, hinserted] at hold ⊢
      exact hold
  · exact h t₁ (mid ++ (b₁ ++ b₂, c) :: s₂) (by simp)

end Spread

end Columnar
