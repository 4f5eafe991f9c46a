import Columnar.Proofs.Qualify.Balanced
import Columnar.Proofs.Qualify.Insertion
import Columnar.Proofs.Text.Blank

/-! A string literal is left alone by qualification. Each qualifier goes in at a place outside
quotes, and within a literal there is no such place. -/
namespace Columnar

/-- A text, and the text with one copy more of something in it. -/
inductive CopyIn (copy : List Char) : List Char → List Char → Prop
  | intro (front back : List Char) : CopyIn copy (front ++ back) (front ++ copy ++ back)

/-- A text, and the text with any number of copies more of something in it. -/
abbrev Copies (copy : List Char) : List Char → List Char → Prop :=
  Relation.ReflTransGen (CopyIn copy)

inductive PlainCopy (copy : List Char) : List Char → List Char → Prop
  | intro {front : List Char} (back : List Char) : Quoting.plain.after front = .plain →
      PlainCopy copy (front ++ back) (front ++ copy ++ back)

theorem Insertion.plainCopy {copy cs ds : List Char} {names : List String}
    (h : Insertion copy names cs ds) : PlainCopy copy cs ds := by
  obtain ⟨-, hplace⟩ := h
  exact .intro _ hplace.plain

theorem PlainCopy.append {copy cs ds : List Char} (h : PlainCopy copy cs ds) (back : List Char) :
    PlainCopy copy (cs ++ back) (ds ++ back) := by
  obtain ⟨rest, hfront⟩ := h
  rw [List.append_assoc, List.append_assoc _ rest]
  exact .intro (rest ++ back) hfront

/-- A text that is in quotes everywhere between its two ends. -/
def Sealed (quoted : List Char) : Prop :=
  ∀ front back, quoted = front ++ back → front ≠ [] → back ≠ [] →
    Quoting.plain.after front ≠ .plain

theorem after_of_prefix_escapeChar {c : Char} {front back : List Char}
    (h : Text.escapeChar c = front ++ back) : Quoting.literal.after front ≠ .plain := by
  cases front with
  | nil => exact Quoting.noConfusion
  | cons e front =>
    rcases escapeChar_cases c with ⟨hself, hc, -⟩ | ⟨d, hpair⟩
    · rw [hself, List.cons_append, List.cons.injEq] at h
      obtain ⟨rfl, hrest⟩ := h
      obtain ⟨rfl, -⟩ := List.append_eq_nil_iff.mp hrest.symm
      simp only [Quoting.after_cons, Quoting.step, Quoting.after_nil, hc]
      split <;> exact Quoting.noConfusion
    · rw [hpair, List.cons_append, List.cons.injEq] at h
      obtain ⟨rfl, hrest⟩ := h
      rcases List.append_eq_singleton_iff.mp hrest.symm with ⟨rfl, -⟩ | ⟨rfl, -⟩
      all_goals exact Quoting.noConfusion

/-- Escaped text does not close the literal that it stands in. -/
theorem after_of_prefix_escaped {cs front back : List Char}
    (h : cs.flatMap Text.escapeChar = front ++ back) : Quoting.literal.after front ≠ .plain := by
  induction cs generalizing front with
  | nil =>
    obtain ⟨rfl, -⟩ := List.append_eq_nil_iff.mp h.symm
    exact Quoting.noConfusion
  | cons c cs ih =>
    rw [List.flatMap_cons] at h
    rcases List.append_eq_append_iff.mp h with ⟨mid, rfl, hmid⟩ | ⟨mid, hmid, -⟩
    · have hchar : Quoting.literal.after (Text.escapeChar c) = .literal := by
        simpa using (InLiteral.flatMap_escapeChar [c]).after_eq
      rw [Quoting.after_append, hchar]
      exact ih hmid
    · exact after_of_prefix_escapeChar hmid

theorem sealed_quoteString (value : String) : Sealed (Text.quoteString value).toList := by
  intro front back h hfront hback
  obtain ⟨c, front, rfl⟩ := List.exists_cons_of_ne_nil hfront
  obtain ⟨init, last, rfl⟩ := eq_concat_of_ne_nil hback
  rw [Text.toList_quoteString, List.cons_append, List.cons_append, List.cons.injEq,
    ← List.append_assoc] at h
  obtain ⟨rfl, hrest⟩ := h
  exact after_of_prefix_escaped (concat_inj hrest).1

theorem Sealed.cut {quoted front back left right : List Char} (h : Sealed quoted)
    (hfront : Quoting.plain.after front = .plain) (hleft : Quoting.plain.after left = .plain)
    (heq : front ++ quoted ++ back = left ++ right) :
    (∃ mid, front = left ++ mid ∧ right = mid ++ quoted ++ back) ∨
      ∃ mid, left = front ++ quoted ++ mid ∧ back = mid ++ right := by
  rcases List.append_eq_append_iff.mp heq with ⟨mid, rfl, rfl⟩ | ⟨mid, hcut, rfl⟩
  · exact Or.inr ⟨mid, rfl, rfl⟩
  · rcases List.append_eq_append_iff.mp hcut with ⟨opened, rfl, hquoted⟩ | ⟨rest, rfl, rfl⟩
    · rw [Quoting.after_append, hfront] at hleft
      by_cases hopened : opened = []
      · subst hopened
        exact Or.inl ⟨[], by simp, by simp [hquoted]⟩
      · by_cases hmid : mid = []
        · subst hmid
          exact Or.inr ⟨[], by simp [hquoted], by simp⟩
        · exact absurd hleft (h _ _ hquoted hopened hmid)
    · exact Or.inl ⟨rest, rfl, by simp⟩

/-- A text between whose ends a quoted part has stayed as it is: copies went in in front of it and
behind it only. -/
def CopiesAround (copy quoted front back cs : List Char) : Prop :=
  ∃ front' back', Copies copy front front' ∧ Copies copy back back' ∧
    Quoting.plain.after front' = .plain ∧ cs = front' ++ quoted ++ back'

section Around

variable {copy quoted : List Char}

/-- A copy outside quotes goes in in front of a quoted part or behind it. -/
theorem CopiesAround.plainCopy {front back cs ds : List Char} (hsealed : Sealed quoted)
    (hcopy : Quoting.plain.after copy = .plain) (h : CopiesAround copy quoted front back cs)
    (hstep : PlainCopy copy cs ds) : CopiesAround copy quoted front back ds := by
  obtain ⟨front', back', hfront, hback, hplain, heq⟩ := h
  cases hstep with
  | @intro left right hleft =>
    rcases hsealed.cut hplain hleft heq.symm with ⟨mid, rfl, rfl⟩ | ⟨mid, rfl, rfl⟩
    · refine ⟨left ++ copy ++ mid, back', hfront.tail (.intro left mid), hback, ?_, by simp⟩
      rw [Quoting.after_append, hleft] at hplain
      rw [Quoting.after_append, Quoting.after_append, hleft, hcopy, hplain]
    · exact ⟨front', mid ++ copy ++ right, hfront, hback.tail (.intro mid right), hplain, by simp⟩

theorem copiesAround_of_plainCopies {front back ds : List Char} (hsealed : Sealed quoted)
    (hcopy : Quoting.plain.after copy = .plain) (hplain : Quoting.plain.after front = .plain)
    (h : Relation.ReflTransGen (PlainCopy copy) (front ++ quoted ++ back) ds) :
    CopiesAround copy quoted front back ds := by
  induction h with
  | refl => exact ⟨front, back, .refl, .refl, hplain, rfl⟩
  | tail _ hstep ih => exact ih.plainCopy hsealed hcopy hstep

end Around

/-- Blanks at the end of a text that has a sealed part are behind that part. -/
theorem append_blanks_of_quoteString {value : String} {front back cs blanks : List Char}
    (hblanks : ∀ c ∈ blanks, Text.isBlank c)
    (h : front ++ (Text.quoteString value).toList ++ back = cs ++ blanks) :
    ∃ kept, cs = front ++ (Text.quoteString value).toList ++ kept ∧ back = kept ++ blanks := by
  rcases List.append_eq_append_iff.mp h with ⟨mid, rfl, rfl⟩ | ⟨mid, hcut, rfl⟩
  · exact ⟨mid, rfl, rfl⟩
  · by_cases hmid : mid = []
    · subst hmid
      exact ⟨[], by simpa using hcut.symm, rfl⟩
    · obtain ⟨init, c, rfl⟩ := eq_concat_of_ne_nil hmid
      rw [Text.toList_quoteString, ← List.append_assoc, ← List.append_assoc] at hcut
      obtain ⟨-, rfl⟩ := concat_inj hcut
      exact absurd (hblanks '\'' (by simp)) (by decide)

theorem trim_quoteString (value : String) (p q : String) :
    Text.trim (p ++ Text.quoteString value ++ q).toList =
      Text.skipBlanks p.toList ++ (Text.quoteString value).toList ++ Text.trimEnd q.toList := by
  have hquote : Text.isBlank '\'' = false := by decide
  have hcut (front back : List Char) : front ++ (Text.quoteString value).toList ++ back =
      front ++ '\'' :: (value.toList.flatMap Text.escapeChar) ++ '\'' :: back := by simp
  rw [String.toList_append, String.toList_append, hcut, hcut, List.append_assoc, List.cons_append,
    Text.trim, Text.skipBlanks_append_cons hquote, ← List.cons_append, ← List.append_assoc,
    Text.trimEnd_append_cons hquote]

/-- Around a string literal only copies of the qualifier go in, and the literal stays as it is.
Blanks at the two ends of the text can go. -/
theorem qualify_around_quoteString (value : String) {tableAlias : String}
    (halias : QuoteFree tableAlias) (fields : List String) {p : String} (hp : Balanced p)
    (q : String) :
    ∃ lead front front' back back' tail : List Char,
      p.toList = lead ++ front ∧ q.toList = back ++ tail ∧
      (∀ c ∈ lead, Text.isBlank c) ∧ (∀ c ∈ tail, Text.isBlank c) ∧
      Copies (tableAlias ++ ".").toList front front' ∧
      Copies (tableAlias ++ ".").toList back back' ∧
      (qualify tableAlias fields (p ++ Text.quoteString value ++ q)).toList =
        front' ++ (Text.quoteString value).toList ++ back' := by
  have hcopy : Quoting.plain.after (tableAlias ++ ".").toList = .plain :=
    balanced_iff.mp (halias.balanced.append (by decide))
  rcases qualify_cases tableAlias fields (p ++ Text.quoteString value ++ q) with
    ⟨-, -, -, -, hdone⟩ | ⟨body, clause, blanks, body', htext, hblanks, -, hbody, hdone⟩
  · obtain ⟨tail, hq, htail⟩ := Text.exists_trimEnd_append q.toList
    refine ⟨p.toList.takeWhile Text.isBlank, Text.skipBlanks p.toList,
      (tableAlias ++ ".").toList ++ Text.skipBlanks p.toList, Text.trimEnd q.toList,
      Text.trimEnd q.toList, tail, List.takeWhile_append_dropWhile.symm, hq,
      List.all_eq_true.mp List.all_takeWhile, htail, .single (.intro [] _), .refl, ?_⟩
    rw [hdone, String.toList_append, String.toList_ofList, String.toList_append, trim_quoteString]
    simp
  · have hplain := balanced_iff.mp hp
    simp only [String.toList_append] at htext
    obtain ⟨back, hkept, hq⟩ := append_blanks_of_quoteString hblanks htext
    have hcopies : Relation.ReflTransGen (PlainCopy (tableAlias ++ ".").toList) (body ++ clause)
        (body' ++ clause) := by
      refine hbody.lift (· ++ clause) fun _ _ hstep => ?_
      rw [String.toList_append]
      exact hstep.plainCopy.append clause
    rw [hkept] at hcopies
    obtain ⟨front', back', hfront, hback, -, heq⟩ :=
      copiesAround_of_plainCopies (sealed_quoteString value) hcopy hplain hcopies
    exact ⟨[], p.toList, front', back, back', blanks, rfl, hq, by simp, hblanks, hfront, hback,
      hdone.trans heq⟩

theorem qualify_around_quoteString_name :
    QuoteFree "p" ∧ Balanced "name = " ∧
      ∃ lead front front' back back' tail : List Char,
        "name = ".toList = lead ++ front ∧ " OR name".toList = back ++ tail ∧
        (∀ c ∈ lead, Text.isBlank c) ∧ (∀ c ∈ tail, Text.isBlank c) ∧
        Copies ("p" ++ ".").toList front front' ∧ Copies ("p" ++ ".").toList back back' ∧
        (qualify "p" ["name"] ("name = " ++ Text.quoteString "it's AS name" ++ " OR name")).toList =
          front' ++ (Text.quoteString "it's AS name").toList ++ back' :=
  ⟨by decide, by decide,
    qualify_around_quoteString "it's AS name" (by decide) ["name"] (by decide) " OR name"⟩

end Columnar
