import Columnar.Expr.Reference
import Columnar.Proofs.Qualify.Balanced
import Columnar.Proofs.Qualify.Insertion
import Columnar.Proofs.Qualify.Spread

/-! Which names of a text are qualified. The search looks for the end of a name at ASCII characters
only, while a name can have letters of any script. So no name is cut behind an ASCII character, and
what is qualified is a whole name as long as no field stands next to a letter of another script. -/
namespace Columnar

/-- An occurrence of a field is a proper part of a longer name, and the characters next to it do not
show it: none of them is an ASCII character of a name, and there is no dot in front. With an alias
that closes its quotes, occurrences inside quotes do not count. -/
def Exposed (tableAlias : String) (fields : List String) (front back : List Char) : Prop :=
  (Balanced tableAlias → Quoting.plain.after front = .plain) ∧
    ∃ run rest, back = run ++ rest ∧ isNamed fields run ∧
      front.getLast?.any bindsNext = false ∧ rest.head?.any Text.isWord = false ∧
      (front.getLast?.any isNameChar ∨ rest.head?.any isNameChar)

def WholeField (fields : List String) (front back : List Char) : Prop :=
  front.getLast?.any isNameChar = false ∧ isNamed fields (back.takeWhile isNameChar)

/-- A name goes on up to a back-quoted name that has been qualified, so that the qualifier has been
joined to it. -/
def Spread.Joined (s : Spread) (front back : List Char) : Prop :=
  ∃ run rest, back = run ++ '\x60' :: rest ∧ run ≠ [] ∧ (∀ c ∈ run, isNameChar c) ∧
    s.Marked (front ++ run) ('\x60' :: rest)

structure Spread.Qualified (tableAlias : String) (fields : List String) (s : Spread) : Prop where
  /-- The quotes of the text are what they were. -/
  quotes : Balanced tableAlias → ∀ s₁ s₂, s = s₁ ++ s₂ →
    Quoting.plain.after s₁.text = Quoting.plain.after s₁.source
  outside {front back : List Char} : Balanced tableAlias → s.Marked front back →
    Quoting.plain.after front = .plain
  /-- No name is cut behind an ASCII character, and no name behind a dot is qualified. -/
  uncut {front back : List Char} : s.Marked front back → front.getLast?.any bindsNext = false ∨
    back.head? = some '\x60' ∧ front.getLast? ≠ some '.'
  /-- What fills the backticks is a field. -/
  ticked {front back : List Char} : Balanced tableAlias → s.Marked front ('\x60' :: back) →
    ∃ run rest, back = run ++ '\x60' :: rest ∧ isNamed fields run
  /-- Without exposed fields only whole names are qualified. -/
  whole : (∀ front back, s.source = front ++ back → ¬ Exposed tableAlias fields front back) →
    ∀ {front back : List Char}, s.Marked front back →
      back.head? = some '\x60' ∨ WholeField fields front back ∨ s.Joined front back

section Characters

theorem isNameChar_of_isWord {c : Char} (h : Text.isWord c) : isNameChar c := by
  simp only [Text.isWord, Bool.or_eq_true] at h
  rcases h with h | h
  · simp [isNameChar, Text.isAlphanumeric_of_isAlphanum h]
  · simp [isNameChar, h]

@[simp] theorem isNameChar_toLower (c : Char) : isNameChar c.toLower = isNameChar c := by
  by_cases hword : Text.isWord c
  · rw [isNameChar_of_isWord hword, isNameChar_of_isWord (by rwa [Text.isWord_toLower])]
  · have hsame : c.toLower = c := by
      have hcapital : ¬ (65 ≤ c.toNat ∧ c.toNat ≤ 90) := fun h =>
        hword (Text.isWord_iff.mpr (Or.inl h))
      rw [← Char.toNat_inj, Text.toNat_toLower, if_neg hcapital]
    rw [hsame]

theorem isNameChar_of_mem_lower {name : String} (hname : isName name.toList) {c : Char}
    (h : c.toLower ∈ (Text.lower name).toList) : isNameChar c := by
  have hall : ∀ d ∈ name.toList, isNameChar d := by
    cases hcs : name.toList with
    | nil => simp
    | cons d cs =>
      simp only [hcs, isName, Bool.and_eq_true, List.all_eq_true] at hname
      exact hname.2
  rw [Text.lower, String.toList_ofList] at h
  obtain ⟨d, hd, heq⟩ := List.mem_map.mp h
  rw [← isNameChar_toLower, ← heq, isNameChar_toLower]
  exact hall d hd

theorem not_isNameChar_backtick : isNameChar '\x60' = false := by decide +kernel

theorem backtick_not_mem_lower {name : String} (hname : isName name.toList) :
    '\x60' ∉ (Text.lower name).toList := by
  intro hmem
  have htick := isNameChar_of_mem_lower hname (c := '\x60') hmem
  rw [not_isNameChar_backtick] at htick
  cases htick

theorem lower_ne_nil {name : String} (hname : isName name.toList) :
    (Text.lower name).toList ≠ [] := by
  intro hnil
  have hempty : name.toList = [] := by simpa [Text.lower] using hnil
  rw [hempty] at hname
  cases hname

theorem bindsNext_of_isWord {c : Char} (h : Text.isWord c) : bindsNext c := by
  simp [bindsNext, h]

end Characters

section Step

variable {tableAlias : String} {fields : List String}

/-- An occurrence of a field is one in the text that was there before, or there is a mark in it. -/
theorem Spread.exists_occurrence {name : String} (hmem : name ∈ fields) (hname : isName name.toList)
    {t : Spread} (h : startsWithName (Text.lower name).toList t.text) :
    ∃ t₁ t₂, t = t₁ ++ t₂ ∧ (∀ c ∈ t₁.source, isNameChar c) ∧
      (isNamed fields t₁.source ∧ t.text.drop (Text.lower name).toList.length = t₂.text ∨
        ∃ block c t₃, t₂ = (block, c) :: t₃ ∧ block ≠ []) := by
  obtain ⟨t₁, t₂, rfl, htext, hlower, hend⟩ := exists_spelled h
  refine ⟨t₁, t₂, rfl, fun c hc => isNameChar_of_mem_lower hname (hlower c hc),
    hend.imp_left fun hspells => ⟨?_, ?_⟩⟩
  · exact List.any_eq_true.mpr ⟨name, hmem, by rwa [← spells_lower]⟩
  · have hlength : (Text.lower name).toList.length = t₁.source.length := by
      rw [spells, beq_iff_eq] at hspells
      rw [← hspells, List.length_map]
    rw [text_append, htext, hlength, List.drop_left]

/-- Behind a part of a name only a back-quoted name can have a mark, or the mark is one of a name
that is joined to such a name; then so is the part in front of it. -/
theorem Spread.Joined.of_marked {s : Spread} {front run back : List Char} (hne : run ≠ [])
    (hrun : ∀ c ∈ run, isNameChar c) (hmark : s.Marked (front ++ run) back)
    (h : back.head? = some '\x60' ∨ WholeField fields (front ++ run) back ∨
      s.Joined (front ++ run) back) : s.Joined front (run ++ back) := by
  rcases h with htick | hwhole | ⟨more, rest, rfl, -, hmore, hjoined⟩
  · obtain ⟨rest, rfl⟩ := List.head?_eq_some_iff.mp htick
    exact ⟨run, rest, rfl, hne, hrun, hmark⟩
  · obtain ⟨init, c, rfl⟩ := eq_concat_of_ne_nil hne
    have hc := hwhole.1
    rw [← List.append_assoc, List.getLast?_concat, Option.any_some, hrun c (by simp)] at hc
    cases hc
  · refine ⟨run ++ more, rest, by simp, by simp [hne], ?_, by simpa using hjoined⟩
    exact fun c hc => (List.mem_append.mp hc).elim (hrun c) (hmore c)

/-- A run that is a field is a whole one when no character of a name is next to it. -/
theorem wholeField_of_run {front run rest : List Char} (hrun : ∀ c ∈ run, isNameChar c)
    (hnamed : isNamed fields run)
    (hends : ¬ (front.getLast?.any isNameChar ∨ rest.head?.any isNameChar)) :
    WholeField fields front (run ++ rest) := by
  simp only [not_or, Bool.not_eq_true] at hends
  refine ⟨hends.1, ?_⟩
  have hstop : rest.takeWhile isNameChar = [] := by
    cases rest with
    | nil => rfl
    | cons d rest => simpa using hends.2
  rw [List.takeWhile_append_of_pos hrun, hstop, List.append_nil]
  exact hnamed

/-- A name gets its first mark as a whole, unless it is joined to a name that is qualified
already. -/
theorem Spread.Qualified.of_bare {s₁ t : Spread} {name : String}
    (h : Qualified tableAlias fields (s₁ ++ t)) (hmem : name ∈ fields) (hname : isName name.toList)
    (hfree : ∀ front back, source (s₁ ++ t) = front ++ back →
      ¬ Exposed tableAlias fields front back)
    (hplain : Quoting.plain.after s₁.text = .plain)
    (hfront : s₁.text.getLast?.any bindsNext = false) (hunmarked : ∀ p ∈ t.head?, p.1 = [])
    (hoccurs : startsWithName (Text.lower name).toList t.text)
    (hback : (t.text.drop (Text.lower name).toList.length).head?.any Text.isWord = false) :
    WholeField fields s₁.source t.source ∨ Joined (s₁ ++ t) s₁.source t.source := by
  obtain ⟨t₁, t₂, rfl, hrun, hend⟩ := exists_occurrence hmem hname hoccurs
  rw [source_append]
  -- in front of a mark the name goes on
  have hjoined {block : List Char} {d : Char} {t₃ : Spread} (ht₂ : t₂ = (block, d) :: t₃)
      (hblock : block ≠ []) : Joined (s₁ ++ (t₁ ++ t₂)) s₁.source (t₁.source ++ t₂.source) := by
    have hne : t₁.source ≠ [] := by
      intro hnil
      obtain rfl : t₁ = [] := List.map_eq_nil_iff.mp hnil
      exact hblock (hunmarked (block, d) (by simp [ht₂]))
    have hmark : Marked (s₁ ++ (t₁ ++ t₂)) (s₁.source ++ t₁.source) t₂.source :=
      ⟨s₁ ++ t₁, block, d, t₃, by simp [ht₂], hblock, by simp, by simp [ht₂]⟩
    exact .of_marked hne hrun hmark (h.whole hfree hmark)
  rcases hend with ⟨hnamed, hrest⟩ | ⟨block, d, t₃, ht₂, hblock⟩
  · rw [hrest] at hback
    have hnext : t₂.source.head?.any Text.isWord = false ∨
        Joined (s₁ ++ (t₁ ++ t₂)) s₁.source (t₁.source ++ t₂.source) := by
      rcases t₂ with _ | ⟨⟨block, d⟩, t₃⟩
      · exact Or.inl rfl
      · by_cases hblock : block = []
        · subst hblock
          exact Or.inl (by simpa using hback)
        · exact Or.inr (hjoined rfl hblock)
    refine hnext.imp_left fun hnext => wholeField_of_run hrun hnamed fun hlonger => ?_
    have hquotes : Balanced tableAlias → Quoting.plain.after s₁.source = .plain := fun halias => by
      rw [← h.quotes halias s₁ _ rfl, hplain]
    rw [getLast?_text] at hfront
    exact hfree _ _ (by simp) ⟨hquotes, _, _, rfl, hnamed, hfront, hnext, hlonger⟩
  · exact Or.inr (hjoined ht₂ hblock)

/-- A back-quoted name gets its first mark as a whole: within the quotes there is none. -/
theorem Spread.Qualified.of_ticked {s₁ s₂ : Spread} {name : String}
    (h : Qualified tableAlias fields (s₁ ++ ([], '\x60') :: s₂)) (halias : Balanced tableAlias)
    (hmem : name ∈ fields) (hname : isName name.toList)
    (hplain : Quoting.plain.after s₁.text = .plain)
    (hoccurs : startsWithName (Text.lower name).toList s₂.text)
    (hclosed : (s₂.text.drop (Text.lower name).toList.length).head? = some '\x60') :
    ∃ run rest, s₂.source = run ++ '\x60' :: rest ∧ isNamed fields run := by
  obtain ⟨t₁, t₂, rfl, hrun, hend⟩ := exists_occurrence hmem hname hoccurs
  have htick : '\x60' ∉ t₁.source := fun htick => by
    simpa [not_isNameChar_backtick] using hrun _ htick
  have hempty {block : List Char} {d : Char} {t₃ : Spread} (ht₂ : t₂ = (block, d) :: t₃) :
      block = [] := by
    by_contra hblock
    have hmark : Marked (s₁ ++ ([], '\x60') :: (t₁ ++ t₂)) (s₁.source ++ '\x60' :: t₁.source)
        t₂.source :=
      ⟨s₁ ++ ([], '\x60') :: t₁, block, d, t₃, by simp [ht₂], hblock, by simp, by simp [ht₂]⟩
    have hquoted := h.outside halias hmark
    rw [Quoting.after_append, ← h.quotes halias s₁ _ rfl, hplain] at hquoted
    exact Quoting.noConfusion ((after_identifier htick).symm.trans hquoted)
  rcases hend with ⟨hnamed, hrest⟩ | ⟨block, d, t₃, ht₂, hblock⟩
  · rw [hrest] at hclosed
    rcases t₂ with _ | ⟨⟨block, d⟩, t₃⟩
    · cases hclosed
    · obtain rfl := hempty rfl
      obtain rfl : d = '\x60' := by simpa using hclosed
      exact ⟨t₁.source, source t₃, by simp, hnamed⟩
  · exact absurd (hempty ht₂) hblock

theorem Spread.Joined.mono {s s' : Spread} {front back : List Char} (h : s.Joined front back)
    (hmarks : ∀ {front back : List Char}, s.Marked front back → s'.Marked front back) :
    s'.Joined front back := by
  obtain ⟨run, rest, hback, hne, hrun, hmark⟩ := h
  exact ⟨run, rest, hback, hne, hrun, hmarks hmark⟩

/-- A place in front of a character of the text is not behind an ASCII character of a name. -/
theorem QualifiedPlace.uncut {needle : List Char} {s₁ s₂ : Spread} {c : Char}
    (h : QualifiedPlace needle s₁.text (c :: s₂.text)) :
    s₁.source.getLast?.any bindsNext = false ∨
      (c :: s₂.source).head? = some '\x60' ∧ s₁.source.getLast? ≠ some '.' := by
  rw [← Spread.getLast?_text]
  cases h with
  | bare _ hfront => exact Or.inl hfront
  | ticked _ hdot => exact Or.inr ⟨rfl, hdot⟩

theorem QualifiedPlace.of_backtick {name : String} {front back : List Char}
    (h : QualifiedPlace (Text.lower name).toList front ('\x60' :: back))
    (hname : isName name.toList) :
    Quoting.plain.after front = .plain ∧ startsWithName (Text.lower name).toList back ∧
      (back.drop (Text.lower name).toList.length).head? = some '\x60' := by
  cases h with
  | bare _ _ hoccurs =>
    rw [startsWithName_backtick (backtick_not_mem_lower hname) (lower_ne_nil hname)] at hoccurs
    cases hoccurs
  | ticked hplain _ hoccurs hclosed => exact ⟨hplain, hoccurs, hclosed⟩

theorem QualifiedPlace.ne_nil {needle front back : List Char} (h : QualifiedPlace needle front back)
    (hneedle : needle ≠ []) : back ≠ [] := by
  cases h with
  | bare _ _ hname =>
    rintro rfl
    rw [startsWithName_nil hneedle] at hname
    cases hname
  | ticked => simp

theorem Spread.Qualified.insertion {s : Spread} {body : List Char}
    (h : s.Qualified tableAlias fields) (hfields : ∀ f ∈ fields, isName f.toList)
    (hstep : Insertion (tableAlias.toList ++ ['.']) fields s.text body) :
    ∃ s' : Spread, s'.source = s.source ∧ s'.text = body ∧ s'.Qualified tableAlias fields := by
  generalize htext : s.text = cs at hstep
  obtain @⟨name, front, back, hmem, hplace⟩ := hstep
  have hname : isName name.toList := hfields name hmem
  obtain ⟨s₁, b₁, b₂, c, s₂, rfl, rfl, rfl⟩ :=
    exists_cut htext (hplace.ne_nil (lower_ne_nil hname))
  have hquotes : Balanced tableAlias → ∀ t₁ t₂,
      s₁ ++ (b₁ ++ (tableAlias.toList ++ ['.']) ++ b₂, c) :: s₂ = t₁ ++ t₂ →
        Quoting.plain.after t₁.text = Quoting.plain.after t₁.source := by
    intro halias
    refine after_inserted (h.quotes halias) hplace.plain ?_
    rw [Quoting.after_append, balanced_iff.mp halias]
    rfl
  have hmarks {front back : List Char} (hold : Marked (s₁ ++ (b₁ ++ b₂, c) :: s₂) front back) :
      Marked (s₁ ++ (b₁ ++ (tableAlias.toList ++ ['.']) ++ b₂, c) :: s₂) front back :=
    hold.inserted (by simp)
  -- a mark was there before, or it is the first in front of its character
  have hfirst : b₁ ++ b₂ = [] → QualifiedPlace (Text.lower name).toList s₁.text (c :: text s₂) := by
    intro hblock
    obtain ⟨rfl, rfl⟩ := List.append_eq_nil_iff.mp hblock
    simpa using hplace
  refine ⟨s₁ ++ (b₁ ++ (tableAlias.toList ++ ['.']) ++ b₂, c) :: s₂, by simp, by simp, hquotes,
    fun halias hmark => ?_, fun hmark => ?_, fun halias hmark => ?_, fun hfree _ _ hmark => ?_⟩
  · rcases hmark.of_inserted with hold | ⟨hblock, rfl, -⟩
    · exact h.outside halias hold
    · rw [← h.quotes halias s₁ _ rfl, (hfirst hblock).plain]
  · rcases hmark.of_inserted with hold | ⟨hblock, rfl, rfl⟩
    · exact h.uncut hold
    · exact (hfirst hblock).uncut
  · rcases hmark.of_inserted with hold | ⟨hblock, rfl, hback⟩
    · exact h.ticked halias hold
    · obtain ⟨rfl, rfl⟩ := List.cons.inj hback
      obtain ⟨hplain, hoccurs, hclosed⟩ := (hfirst hblock).of_backtick hname
      rw [hblock] at h
      exact h.of_ticked halias hmem hname hplain hoccurs hclosed
  · have hfree' : ∀ front back, source (s₁ ++ (b₁ ++ b₂, c) :: s₂) = front ++ back →
        ¬ Exposed tableAlias fields front back := by simpa using hfree
    rcases hmark.of_inserted with hold | ⟨hblock, rfl, rfl⟩
    · exact (h.whole hfree' hold).imp_right (·.imp_right (·.mono hmarks))
    · cases hfirst hblock with
      | bare hplain hfront hoccurs hback =>
        rw [hblock] at h hfree' hmarks
        have hnew := h.of_bare hmem hname hfree' hplain hfront (by simp)
          (by simpa using hoccurs) (by simpa using hback)
        exact Or.inr (hnew.imp_right fun hjoined => hjoined.mono hmarks)
      | ticked => exact Or.inl rfl

theorem Spread.Qualified.insertions {body body' : List Char}
    (hfields : ∀ f ∈ fields, isName f.toList)
    (h : Insertions (tableAlias.toList ++ ['.']) fields body body') :
    ∃ s : Spread, s.source = body ∧ s.text = body' ∧ s.Qualified tableAlias fields := by
  induction h with
  | refl =>
    have hempty := mem_ofText body
    have hunmarked {front back : List Char} : ¬ (ofText body).Marked front back := by
      rintro ⟨s₁, block, c, s₂, heq, hblock, -⟩
      exact hblock (hempty (block, c) (by simp [heq]))
    refine ⟨ofText body, source_ofText body, by rw [text_eq_source hempty, source_ofText],
      fun _ s₁ s₂ heq => ?_, fun _ h => absurd h hunmarked, fun h => absurd h hunmarked,
      fun _ h => absurd h hunmarked, fun _ _ _ h => absurd h hunmarked⟩
    rw [text_eq_source fun p hp => hempty p (by simp [heq, hp])]
  | tail _ hstep ih =>
    obtain ⟨s, rfl, rfl, hs⟩ := ih
    obtain ⟨s', hsource, htext, hs'⟩ := hs.insertion hfields hstep
    exact ⟨s', hsource, htext, hs'⟩

end Step

/-- Where the names of a text have ASCII letters only, no field is exposed. -/
theorem not_exposed_of_isWord {tableAlias : String} {fields : List String}
    {cs front back : List Char} (h : ∀ c ∈ cs, isNameChar c → Text.isWord c)
    (hcs : cs = front ++ back) : ¬ Exposed tableAlias fields front back := by
  have hword {o : Option Char} (ho : ∀ c ∈ o, c ∈ cs) (hname : o.any isNameChar) :
      ∃ c, o = some c ∧ Text.isWord c := by
    cases o with
    | none => cases hname
    | some c => exact ⟨c, rfl, h c (ho c rfl) hname⟩
  rintro ⟨-, run, rest, rfl, -, hfront, hrest, hlonger | hlonger⟩
  · obtain ⟨c, hlast, hc⟩ := hword (fun c hc => by simp [hcs, List.mem_of_getLast? hc]) hlonger
    rw [hlast, Option.any_some, bindsNext_of_isWord hc] at hfront
    cases hfront
  · obtain ⟨c, hhead, hc⟩ := hword (fun c hc => by simp [hcs, List.mem_of_head? hc]) hlonger
    rw [hhead, Option.any_some, hc] at hrest
    cases hrest

/-- Which names are qualified: the text if it is a field as a whole, or names in the body. There
nothing is put in behind an ASCII character of a name, unless in front of a back-quoted field. A
body in which no field is exposed has only whole names qualified, and names that are joined to a
back-quoted one. -/
theorem qualify_whole_names (tableAlias : String) {fields : List String}
    (hfields : ∀ f ∈ fields, isName f.toList) (text : String) :
    (∃ f ∈ fields, Text.sameName f (String.ofList (Text.trim text.toList)) ∧
      qualify tableAlias fields text =
        tableAlias ++ "." ++ String.ofList (Text.trim text.toList)) ∨
    ∃ (s : Spread) (clause blanks : List Char), text.toList = s.source ++ clause ++ blanks ∧
      (∀ c ∈ blanks, Text.isBlank c) ∧
      (splitAlias text.toList).getD (text.toList, []) = (s.source, clause) ∧
      (qualify tableAlias fields text).toList = s.text ++ clause ∧
      s.Qualified tableAlias fields := by
  rcases qualify_cases tableAlias fields text with
    ⟨f, hmem, -, hsame, hdone⟩ | ⟨body, clause, blanks, body', htext, hblanks, hsplit, hbody, hdone⟩
  · exact Or.inl ⟨f, hmem, hsame, hdone⟩
  · obtain ⟨s, rfl, rfl, hs⟩ := Spread.Qualified.insertions hfields hbody
    exact Or.inr ⟨s, clause, blanks, htext, hblanks, hsplit, hdone, hs⟩

theorem qualify_whole_names_name :
    (∀ f ∈ ["name"], isName f.toList) ∧
      ∃ (s : Spread) (clause blanks : List Char),
        "first_name + name".toList = s.source ++ clause ++ blanks ∧
        (qualify "t" ["name"] "first_name + name").toList = s.text ++ clause ∧
        ∀ {front back : List Char}, s.Marked front back →
          back.head? = some '\x60' ∨ WholeField ["name"] front back ∨ s.Joined front back := by
  have hfields : ∀ f ∈ ["name"], isName f.toList := by decide +kernel
  have hascii : ∀ c ∈ "first_name + name".toList, isNameChar c → Text.isWord c := by decide +kernel
  refine ⟨hfields, ?_⟩
  rcases qualify_whole_names "t" hfields "first_name + name" with
    ⟨f, hmem, hsame, -⟩ | ⟨s, clause, blanks, htext, -, -, hdone, hs⟩
  · obtain rfl := List.mem_singleton.mp hmem
    exact absurd hsame (by decide)
  · have hsource : ∀ c ∈ s.source, isNameChar c → Text.isWord c := fun c hc =>
      hascii c (by simp [htext, hc])
    exact ⟨s, clause, blanks, htext, hdone, hs.whole fun _ _ => not_exposed_of_isWord hsource⟩

/-- A name with letters of another script is cut in two in front of the field that ends it. -/
theorem qualify_cuts_name :
    isName "größe".toList ∧ isName "e".toList ∧ qualify "t" ["e"] "größe" = "größt.e" := by
  decide +kernel

end Columnar
