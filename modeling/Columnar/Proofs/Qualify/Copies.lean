import Columnar.Proofs.Qualify.Offsets
import Columnar.Proofs.Qualify.Spread

/-! What the search for a name leaves in a text: the text, with copies of the qualifier in front of
occurrences of the name, or of the backticks that open them. No place gets two copies, because the dot
at the end of a copy keeps the next one away. -/
namespace Columnar

def LeadsName (needle cs : List Char) : Prop :=
  startsWithName needle cs ∨ ∃ inner, cs = '\x60' :: inner ∧ startsWithName needle inner

/-- A text with copies of the qualifier, each in front of a name. -/
structure Spread.Copied (inserted needle : List Char) (s : Spread) : Prop where
  blocks : ∀ p ∈ s, p.1 = [] ∨ p.1 = inserted
  marks : ∀ front back, s.Marked front back → LeadsName needle back

namespace Spread

variable {inserted needle : List Char}

theorem copied_ofText (cs : List Char) : (ofText cs).Copied inserted needle where
  blocks := fun p hp => .inl (mem_ofText cs p hp)
  marks := by
    rintro front back ⟨s₁, block, c, s₂, heq, hblock, -⟩
    exact absurd (mem_ofText cs (block, c) (by simp [heq])) hblock

theorem Copied.insert {s₁ s₂ : Spread} {c : Char} (h : Copied inserted needle (s₁ ++ ([], c) :: s₂))
    (hname : LeadsName needle (c :: s₂.source)) :
    Copied inserted needle (s₁ ++ (inserted, c) :: s₂) where
  blocks := by
    intro p hp
    have hold := h.blocks p
    simp only [List.mem_append, List.mem_cons] at hp hold
    rcases hp with hp | rfl | hp
    · exact hold (.inl hp)
    · exact .inr rfl
    · exact hold (.inr (.inr hp))
  marks := by
    intro front back hmarked
    rcases hmarked.of_changed with hold | ⟨rfl, rfl⟩
    · exact h.marks front back hold
    · exact hname

/-- The backtick that opens a name gets its copy: it has none yet, as no dot stands in front of it. -/
theorem Copied.insert_backtick {s : Spread} {outer : List Char} {c : Char} {cs : List Char}
    (h : Copied inserted needle (s ++ ([], c) :: ofText cs)) (hdot : inserted.getLast? = some '.')
    (hleft : s.text = outer.reverse ++ ['\x60']) (hhead : outer.head? ≠ some '.')
    (hname : startsWithName needle (c :: cs)) :
    ∃ t : Spread, t.source = s.source ∧ t.text = outer.reverse ++ inserted ++ ['\x60'] ∧
      Copied inserted needle (t ++ ([], c) :: ofText cs) := by
  rcases List.eq_nil_or_concat s with rfl | ⟨s₁, ⟨block, d⟩, rfl⟩
  · simp at hleft
  · rw [List.concat_eq_append] at h hleft ⊢
    rw [text_append, text_cons, text_nil, ← List.append_assoc] at hleft
    obtain ⟨houter, htick⟩ := List.append_inj' hleft rfl
    obtain rfl : d = '\x60' := by simpa using htick
    obtain rfl : block = [] := by
      rcases h.blocks (block, '\x60') (by simp) with hblock | hblock
      · exact hblock
      · obtain rfl : block = inserted := hblock
        refine absurd ?_ hhead
        rw [← List.getLast?_reverse, ← houter, List.getLast?_append, hdot, Option.some_or]
    refine ⟨s₁ ++ [(inserted, '\x60')], by simp, ?_, ?_⟩
    · rw [← houter]
      simp
    · rw [List.append_assoc] at h ⊢
      refine h.insert (.inr ⟨_, rfl, ?_⟩)
      simpa [source_ofText] using hname

/-- What the search does to a text with copies: it makes copies more. The induction is on what is
still to be searched. -/
theorem Copied.qualifyFrom (hdot : inserted.getLast? = some '.') {s : Spread} {left cs : List Char}
    (hleft : s.text = left.reverse) (h : Copied inserted needle (s ++ ofText cs)) (skip : Nat) :
    ∃ t : Spread, t.source = s.source ++ cs ∧ t.text = qualifyFrom inserted needle left skip cs ∧
      t.Copied inserted needle := by
  induction cs generalizing s left skip with
  | nil =>
    rw [Columnar.qualifyFrom]
    exact ⟨s, by simp, hleft, by simpa [ofText] using h⟩
  | cons c cs ih =>
    change Copied inserted needle (s ++ ([], c) :: ofText cs) at h
    have hpass {s' : Spread} {left' : List Char} {block : List Char}
        (hsource : s'.source = s.source) (hleft' : s'.text ++ block = left'.reverse)
        (h : Copied inserted needle (s' ++ (block, c) :: ofText cs)) (skip : Nat) :
        ∃ t : Spread, t.source = s.source ++ c :: cs ∧
          t.text = Columnar.qualifyFrom inserted needle (c :: left') skip cs ∧
            t.Copied inserted needle := by
      have htext : (s' ++ [(block, c)] : Spread).text = (c :: left').reverse := by
        rw [text_append, List.reverse_cons, ← hleft']
        simp
      obtain ⟨t, htsource, httext, ht⟩ := ih htext (by simpa using h) skip
      exact ⟨t, by rw [htsource, source_append, hsource]; simp, httext, ht⟩
    have hkept : s.text ++ [] = left.reverse := by rw [hleft, List.append_nil]
    have hkeep := hpass rfl hkept h
    cases skip with
    | succ skip =>
      rw [Columnar.qualifyFrom]
      exact hkeep skip
    | zero =>
      rw [Columnar.qualifyFrom]
      split
      · next hname =>
        dsimp only
        by_cases hplain : stateBehind left = .plain
        · rw [qualifyAt_plain hplain]
          split
          · exact hkeep _
          · refine hpass rfl ?_ (h.insert (.inl ?_)) _
            · rw [hleft]
              simp
            · rwa [source_ofText]
        · by_cases hopened : justOpened left
          · obtain ⟨outer, rfl, houter⟩ := hopened
            rw [qualifyAt_opened houter]
            split
            · next hfilled =>
              rw [List.reverse_cons] at hleft
              obtain ⟨t, hsource, htext, ht⟩ := h.insert_backtick hdot hleft hfilled.2 hname
              exact hpass hsource (by rw [htext]; simp) ht _
            · exact hkeep _
          · rw [qualifyAt_quoted hplain hopened]
            exact hkeep _
      · exact hkeep 0

/-- The offsets, in the text without them, at which something has been inserted. -/
def offsets : Nat → Spread → List Nat
  | _, [] => []
  | offset, (block, c) :: s =>
    if block = [] then offsets (offset + c.utf8Size) s
    else offset :: offsets (offset + c.utf8Size) s

theorem le_of_mem_offsets {offset : Nat} {s : Spread} {p : Nat} (h : p ∈ offsets offset s) :
    offset ≤ p := by
  induction s generalizing offset with
  | nil => cases h
  | cons head s ih =>
    obtain ⟨block, c⟩ := head
    rw [offsets] at h
    split at h
    · exact Nat.le_trans (Nat.le_add_right _ _) (ih h)
    · rcases List.mem_cons.mp h with rfl | h
      · exact Nat.le_refl _
      · exact Nat.le_trans (Nat.le_add_right _ _) (ih h)

theorem pairwise_offsets (offset : Nat) (s : Spread) : (offsets offset s).Pairwise (· < ·) := by
  induction s generalizing offset with
  | nil => exact .nil
  | cons head s ih =>
    obtain ⟨block, c⟩ := head
    rw [offsets]
    split
    · exact ih _
    · refine List.pairwise_cons.mpr ⟨fun p hp => ?_, ih _⟩
      have hle := le_of_mem_offsets hp
      have hpos := c.utf8Size_pos
      omega

theorem marked_of_mem_offsets {offset : Nat} {s : Spread} {p : Nat} (h : p ∈ offsets offset s) :
    ∃ front back, s.source = front ++ back ∧ s.Marked front back ∧
      p = offset + (utf8 front).length := by
  induction s generalizing offset with
  | nil => cases h
  | cons head s ih =>
    obtain ⟨block, c⟩ := head
    have hlater (h : p ∈ offsets (offset + c.utf8Size) s) : ∃ front back,
        source ((block, c) :: s) = front ++ back ∧ Marked ((block, c) :: s) front back ∧
          p = offset + (utf8 front).length := by
      obtain ⟨front, back, hsource, ⟨s₁, marks, d, s₂, rfl, hmarks, rfl, rfl⟩, rfl⟩ := ih h
      refine ⟨c :: source s₁, _, by rw [source_cons, hsource]; rfl,
        ⟨(block, c) :: s₁, marks, d, s₂, rfl, hmarks, rfl, rfl⟩, ?_⟩
      simp [Nat.add_assoc]
    rw [offsets] at h
    split at h
    · exact hlater h
    · next hblock =>
      rcases List.mem_cons.mp h with rfl | h
      · exact ⟨[], c :: source s, rfl, ⟨[], block, c, s, rfl, hblock, rfl, rfl⟩, rfl⟩
      · exact hlater h

end Spread

/-- A text with copies of a block at some of its offsets. The last one goes in first, so that each
offset is one of the text without copies. -/
def insertCopies (block : List UInt8) (offsets : List Nat) (bytes : List UInt8) : List UInt8 :=
  offsets.foldr (fun offset bytes => bytes.take offset ++ block ++ bytes.drop offset) bytes

theorem Spread.insertCopies_offsets {inserted : List Char} {s : Spread}
    (h : ∀ p ∈ s, p.1 = [] ∨ p.1 = inserted) (front : List Char) :
    insertCopies (utf8 inserted) (s.offsets (utf8 front).length) (utf8 (front ++ s.source)) =
      utf8 (front ++ s.text) := by
  induction s generalizing front with
  | nil => rfl
  | cons head s ih =>
    obtain ⟨block, c⟩ := head
    obtain ⟨hblock, hrest⟩ := List.forall_mem_cons.mp h
    have hlater := ih hrest (front ++ [c])
    have hlength : (utf8 (front ++ [c])).length = (utf8 front).length + c.utf8Size := by simp
    rw [hlength, List.append_assoc, List.append_assoc] at hlater
    rw [offsets, source_cons, text_cons]
    split
    · next hnil =>
      rw [hnil]
      exact hlater
    · next hne =>
      obtain rfl : block = inserted := hblock.resolve_left hne
      rw [insertCopies, List.foldr_cons]
      change List.take _ (insertCopies _ _ (utf8 (front ++ ([c] ++ source s)))) ++ _ ++
        List.drop _ (insertCopies _ _ (utf8 (front ++ ([c] ++ source s)))) = _
      rw [hlater, utf8_append, List.take_left, List.drop_left]
      simp

/-- Whether a name, given in lower case, stands at an offset of a text in some case. -/
def namedAt (needle bytes : List UInt8) (offset : Nat) : Bool :=
  needle.isPrefixOf ((bytes.drop offset).map lowerByte)

theorem namedAt_utf8 {needle : List Char} (front : List Char) {back : List Char}
    (h : startsWithName needle back) :
    namedAt (utf8 needle) (utf8 (front ++ back)) (utf8 front).length := by
  rw [namedAt, utf8_append, List.drop_left, map_lowerByte_utf8, List.isPrefixOf_iff_prefix,
    utf8_prefix_iff]
  exact startsWithName_iff_prefix.mp h

/-- The search for a name ends, at offsets of its text alone, and inserts copies of the qualifier in
front of occurrences of the name or of the backticks that open them. -/
theorem search_inserts_copies (tableAlias : String) {name : String} (hne : name ≠ "")
    (text : String) :
    let input := utf8 text.toList
    let qualifier := utf8 (tableAlias.toList ++ ['.'])
    let needle := utf8 (Text.lower name).toList
    ∃ offsets : List Nat, offsets.Pairwise (· < ·) ∧
      (∀ p ∈ offsets, isBoundary input p ∧
        (namedAt needle input p ∨ input[p]? = some 96 ∧ namedAt needle input (p + 1))) ∧
      (∀ turns, text.length < turns → Cursor.search qualifier needle turns ⟨input, 0⟩ =
        .finished (insertCopies qualifier offsets input)) ∧
      utf8 (qualifyName tableAlias name text.toList) = insertCopies qualifier offsets input := by
  intro input qualifier needle
  have hneedle : (Text.lower name).toList ≠ [] := by simpa [Text.lower] using hne
  obtain ⟨s, hsource, htext, hs⟩ := @Spread.Copied.qualifyFrom (tableAlias.toList ++ ['.'])
    (Text.lower name).toList (by simp) [] [] text.toList rfl (Spread.copied_ofText text.toList) 0
  rw [Spread.source_nil, List.nil_append] at hsource
  have hresult : utf8 (qualifyName tableAlias name text.toList) =
      insertCopies qualifier (s.offsets 0) input := by
    have hcopies := Spread.insertCopies_offsets hs.blocks []
    rw [List.nil_append, List.nil_append, hsource, htext] at hcopies
    exact hcopies.symm
  refine ⟨s.offsets 0, s.pairwise_offsets 0, fun p hp => ?_, fun turns hturns => ?_, hresult⟩
  · obtain ⟨front, back, hcut, hmarked, rfl⟩ := Spread.marked_of_mem_offsets hp
    have hinput : input = utf8 (front ++ back) := by rw [← hcut, hsource]
    rw [hinput, Nat.zero_add]
    refine ⟨isBoundary_append front back, ?_⟩
    rcases hs.marks front back hmarked with hname | ⟨inner, rfl, hname⟩
    · exact .inl (namedAt_utf8 front hname)
    · have hbehind := namedAt_utf8 (front ++ ['\x60']) hname
      have hlength : (utf8 (front ++ ['\x60'])).length = (utf8 front).length + 1 := by
        rw [utf8_append, List.length_append, utf8_backtick, List.length_singleton]
      rw [hlength, List.append_assoc, List.singleton_append] at hbehind
      refine .inr ⟨?_, hbehind⟩
      rw [utf8_append, List.getElem?_append_right (Nat.le_refl _), Nat.sub_self,
        ← List.singleton_append, utf8_append, utf8_backtick]
      rfl
  · rw [← hresult]
    exact search_cursorAt hneedle (String.length_toList ▸ hturns) []

theorem search_inserts_copies_prix :
    "prix€" ≠ "" ∧
      Cursor.search (utf8 "é.".toList) (utf8 "prix€".toList) 22
          ⟨utf8 "`Prix€`+prix€ 'prix€'".toList, 0⟩ =
        .finished (utf8 "é.`Prix€`+é.prix€ 'prix€'".toList) := by
  have hne : "prix€" ≠ "" := by decide
  obtain ⟨offsets, -, -, hsearch, hresult⟩ :=
    search_inserts_copies "é" hne "`Prix€`+prix€ 'prix€'"
  have hend := hsearch 22 (by decide)
  have hname : qualifyName "é" "prix€" "`Prix€`+prix€ 'prix€'".toList =
      "é.`Prix€`+é.prix€ 'prix€'".toList := by decide
  rw [← hresult, hname] at hend
  exact ⟨hne, hend⟩

end Columnar
