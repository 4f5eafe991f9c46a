import Mathlib.Logic.Relation
import Columnar.DataType.Schema
import Columnar.Proofs.DataType.Grammar

/-! Places in a text or in a JSON value at which a type is read. Everything that is read before such a
place is well formed; what stands at the place and behind it may be anything. An error at the place
is the error of the whole. -/
namespace Columnar

namespace DataType

mutual

/-- A place in a text at which a type is read when one is read from the text, with all in front of it
well formed. -/
inductive TypePlace (place : List Char) : List Char → Prop
  | here : TypePlace place place
  | element {name cs r₁ r₂} : TypeName name cs r₁ → Text.lower name = "array" →
      Token ['<'] r₁ r₂ → TypePlace place r₂ → TypePlace place cs
  | key {name cs r₁ r₂} : TypeName name cs r₁ → Text.lower name = "map" →
      Token ['<'] r₁ r₂ → TypePlace place r₂ → TypePlace place cs
  | value {name k cs r₁ r₂ r₃ r₄} : TypeName name cs r₁ → Text.lower name = "map" →
      Token ['<'] r₁ r₂ → Derives k r₂ r₃ → Token [','] r₃ r₄ → TypePlace place r₄ →
      TypePlace place cs
  | field {name cs r₁ r₂} : TypeName name cs r₁ → Text.lower name = "struct" →
      Token ['<'] r₁ r₂ → FieldPlace place r₂ → TypePlace place cs

/-- Such a place in the fields of a struct. -/
inductive FieldPlace (place : List Char) : List Char → Prop
  | first {name cs r₁ r₂} : FieldName name cs r₁ → Token [':'] r₁ r₂ → TypePlace place r₂ →
      FieldPlace place cs
  | later {name t cs r₁ r₂ r₃ r₄} : FieldName name cs r₁ → Token [':'] r₁ r₂ →
      Derives t r₂ r₃ → Token [','] r₃ r₄ → FieldPlace place r₄ → FieldPlace place cs

end

/-- What a descriptor holds: itself and those inside it, at any depth. -/
inductive Holds : DataType → DataType → Prop
  | refl {t} : Holds t t
  | element {t u containsNull} : Holds t u → Holds (array t containsNull) u
  | key {k v u valueContainsNull} : Holds k u → Holds (map k v valueContainsNull) u
  | value {k v u valueContainsNull} : Holds v u → Holds (map k v valueContainsNull) u
  | field {fields name t nullable u} : .mk name t nullable ∈ fields → Holds t u →
      Holds (struct fields) u

theorem DerivesFields.exists_place {fields : List StructField} {cs rest : List Char} {name : String}
    {t : DataType} {nullable : Bool} (h : DerivesFields fields cs rest)
    (hmem : .mk name t nullable ∈ fields) :
    ∃ own r, Derives t own r ∧ ∀ place, TypePlace place own → FieldPlace place cs := by
  induction fields generalizing cs with
  | nil => simp at hmem
  | cons f fields ih =>
    cases h with
    | last hname hmid ht =>
      obtain ⟨rfl, rfl, rfl⟩ := StructField.mk.inj (List.mem_singleton.mp hmem)
      exact ⟨_, _, ht, fun _ hplace => .first hname hmid hplace⟩
    | more hname hmid ht hc hmore =>
      rcases List.mem_cons.mp hmem with heq | hmem
      · obtain ⟨rfl, rfl, rfl⟩ := StructField.mk.inj heq
        exact ⟨_, _, ht, fun _ hplace => .first hname hmid hplace⟩
      · obtain ⟨own, r, hown, hplace⟩ := ih hmore hmem
        exact ⟨own, r, hown, fun place h => .later hname hmid ht hc (hplace place h)⟩

/-- What a descriptor holds has a place in every text of the descriptor. -/
theorem Derives.exists_place {t u : DataType} {cs rest : List Char} (h : Derives t cs rest)
    (hu : t.Holds u) : ∃ place r, TypePlace place cs ∧ Derives u place r := by
  induction hu generalizing cs rest with
  | refl => exact ⟨cs, rest, .here, h⟩
  | element _ ih =>
    cases h with
    | leaf _ hleaf => simp [leafNames] at hleaf
    | array hname harray hopen ht _ =>
      obtain ⟨place, r, hplace, hu⟩ := ih ht
      exact ⟨place, r, .element hname harray hopen hplace, hu⟩
  | key _ ih =>
    cases h with
    | leaf _ hleaf => simp [leafNames] at hleaf
    | map hname hmap hopen hk _ _ _ =>
      obtain ⟨place, r, hplace, hu⟩ := ih hk
      exact ⟨place, r, .key hname hmap hopen hplace, hu⟩
  | value _ ih =>
    cases h with
    | leaf _ hleaf => simp [leafNames] at hleaf
    | map hname hmap hopen hk hmid hv _ =>
      obtain ⟨place, r, hplace, hu⟩ := ih hv
      exact ⟨place, r, .value hname hmap hopen hk hmid hplace, hu⟩
  | field hmem _ ih =>
    cases h with
    | leaf _ hleaf => simp [leafNames] at hleaf
    | emptyStruct _ _ _ _ => simp at hmem
    | struct hname hstruct hopen hfields _ =>
      obtain ⟨own, r, hown, hfield⟩ := hfields.exists_place hmem
      obtain ⟨place, r, hplace, hu⟩ := ih hown
      exact ⟨place, r, .field hname hstruct hopen (hfield place hplace), hu⟩

/-! Which phrases stay phrases when what follows them is replaced. A name goes as far as it can, so that
what follows it has to begin in the same way; behind a symbol anything may follow. Between the start
of a text and a place in it each phrase ends with a symbol. -/

/-- Two texts that begin alike, with the blanks in front and without them. -/
structure Alike (rest rest' : List Char) : Prop where
  head : rest.head? = rest'.head?
  skipped : (Text.skipBlanks rest).head? = (Text.skipBlanks rest').head?

theorem Alike.append {rest rest' : List Char} (h : Alike rest rest') (front : List Char) :
    Alike (front ++ rest) (front ++ rest') := by
  induction front with
  | nil => exact h
  | cons c front ih =>
    refine ⟨rfl, ?_⟩
    cases hc : Text.isBlank c with
    | true => simpa [Text.skipBlanks, hc] using ih.skipped
    | false => simp [Text.skipBlanks, hc]

theorem alike_symbol {c : Char} (hc : Text.isBlank c = false) (rest rest' : List Char) :
    Alike (c :: rest) (c :: rest') := by
  refine ⟨rfl, ?_⟩
  simp [Text.skipBlanks, hc]

theorem Alike.no_token {c : Char} {rest rest' : List Char} (h : Alike rest rest')
    (hc : Text.isBlank c = false) (hnone : ∀ r, ¬ Token [c] rest r) (r : List Char) :
    ¬ Token [c] rest' r := by
  intro htoken
  rw [token_iff hc] at htoken
  have hhead : (Text.skipBlanks rest).head? = some c := by rw [h.skipped, htoken]; rfl
  obtain ⟨tail, htail⟩ := List.head?_eq_some_iff.mp hhead
  exact hnone tail ((token_iff hc ..).mpr htail)

/-- The phrase takes the same characters in front of any text that begins alike. -/
def Movable (phrase : List Char → List Char → Prop) (cs rest : List Char) : Prop :=
  ∃ front, cs = front ++ rest ∧ ∀ rest', Alike rest rest' → phrase (front ++ rest') rest'

/-- The phrase takes the same characters in front of any text at all. -/
def Anchored (phrase : List Char → List Char → Prop) (cs rest : List Char) : Prop :=
  ∃ front, cs = front ++ rest ∧ ∀ rest', phrase (front ++ rest') rest'

section Phrases

variable {p q : List Char → List Char → Prop} {cs mid rest : List Char}

theorem Movable.imp (h : Movable p cs rest) (hpq : ∀ cs rest, p cs rest → q cs rest) :
    Movable q cs rest := by
  obtain ⟨front, rfl, hp⟩ := h
  exact ⟨front, rfl, fun rest' halike => hpq _ _ (hp rest' halike)⟩

theorem Anchored.imp (h : Anchored p cs rest) (hpq : ∀ cs rest, p cs rest → q cs rest) :
    Anchored q cs rest := by
  obtain ⟨front, rfl, hp⟩ := h
  exact ⟨front, rfl, fun rest' => hpq _ _ (hp rest')⟩

theorem Anchored.movable (h : Anchored p cs rest) : Movable p cs rest := by
  obtain ⟨front, rfl, hp⟩ := h
  exact ⟨front, rfl, fun rest' _ => hp rest'⟩

theorem Movable.comp (hp : Movable p cs mid) (hq : Movable q mid rest) :
    Movable (Relation.Comp p q) cs rest := by
  obtain ⟨front, rfl, hp⟩ := hp
  obtain ⟨back, rfl, hq⟩ := hq
  refine ⟨front ++ back, (List.append_assoc ..).symm, fun rest' halike => ⟨back ++ rest', ?_, ?_⟩⟩
  · rw [List.append_assoc]
    exact hp _ (halike.append back)
  · exact hq rest' halike

theorem Anchored.comp (hp : Anchored p cs mid) (hq : Anchored q mid rest) :
    Anchored (Relation.Comp p q) cs rest := by
  obtain ⟨front, rfl, hp⟩ := hp
  obtain ⟨back, rfl, hq⟩ := hq
  refine ⟨front ++ back, (List.append_assoc ..).symm, fun rest' => ⟨back ++ rest', ?_, hq rest'⟩⟩
  rw [List.append_assoc]
  exact hp _

theorem Token.anchored {token : List Char} (h : Token token cs rest) :
    Anchored (Token token) cs rest := by
  obtain ⟨blanks, hblanks, rfl⟩ := h
  exact ⟨blanks ++ token, rfl, fun _ => ⟨blanks, hblanks, rfl⟩⟩

theorem Movable.symbol {c : Char} (hc : Text.isBlank c = false) (hp : Movable p cs mid)
    (h : Token [c] mid rest) : Anchored (Relation.Comp p (Token [c])) cs rest := by
  obtain ⟨front, rfl, hp⟩ := hp
  obtain ⟨blanks, hblanks, rfl⟩ := h
  refine ⟨front ++ (blanks ++ [c]), by simp, fun rest' =>
    ⟨blanks ++ [c] ++ rest', ?_, blanks, hblanks, rfl⟩⟩
  rw [List.append_assoc]
  refine hp _ ?_
  simpa using (alike_symbol hc rest rest').append blanks

end Phrases

theorem TypeName.movable {name : String} {cs rest : List Char} (h : TypeName name cs rest) :
    Movable (TypeName name) cs rest := by
  rcases h with ⟨ht, hb⟩ | ⟨ht, hn⟩
  · obtain ⟨front, rfl, hmoved⟩ := ht.anchored
    refine ⟨front, rfl, fun rest' halike => .inl ⟨hmoved rest', hb.ne_empty, hb.isWord, ?_⟩⟩
    rw [← halike.head]
    exact hb.maximal
  · exact (ht.anchored.imp fun _ _ ht => .inr ⟨ht, hn⟩).movable

theorem FieldName.movable {name : String} {cs rest : List Char} (h : FieldName name cs rest) :
    Movable (FieldName name) cs rest := by
  rcases h with ⟨ht, hb⟩ | ⟨ht, htick⟩
  · obtain ⟨front, rfl, hmoved⟩ := ht.anchored
    refine ⟨front, rfl, fun rest' halike => .inl ⟨hmoved rest', hb.ne_empty, hb.isWord, ?_⟩⟩
    rw [← halike.head]
    exact hb.maximal
  · obtain ⟨front, rfl, hmoved⟩ := ht.anchored
    refine ⟨front, rfl, fun rest' halike => .inr ⟨hmoved rest', ?_⟩⟩
    rwa [← halike.head]

theorem Numeral.movable {n : Nat} {cs rest : List Char} (h : Numeral n cs rest) :
    Movable (Numeral n) cs rest := by
  obtain ⟨name, hname, hread⟩ := h
  exact hname.movable.imp fun _ _ hname => ⟨name, hname, hread⟩

mutual

theorem Derives.movable {t : DataType} {cs rest : List Char} (h : Derives t cs rest) :
    Movable (Derives t) cs rest := by
  cases h with
  | leaf hname hleaf => exact hname.movable.imp fun _ _ hname => .leaf hname hleaf
  | plainDecimal hname hdecimal hnone =>
    -- the one phrase that looks behind its end: no arguments may follow
    obtain ⟨front, rfl, hmoved⟩ := hname.movable
    exact ⟨front, rfl, fun rest' halike =>
      .plainDecimal (hmoved rest' halike) hdecimal (halike.no_token (by decide) hnone)⟩
  | decimal hname hdecimal hopen hp hend h₁ h₂ =>
    refine (hname.movable.comp (hopen.anchored.movable.comp
      (hp.movable.comp hend.anchored.movable))).imp ?_
    rintro _ _ ⟨_, hname, _, hopen, _, hp, hend⟩
    exact .decimal hname hdecimal hopen hp hend h₁ h₂
  | scaledDecimal hname hdecimal hopen hp hc hs hend h₁ h₂ h₃ =>
    refine (hname.movable.comp (hopen.anchored.movable.comp (hp.movable.comp
      (hc.anchored.movable.comp (hs.movable.comp hend.anchored.movable))))).imp ?_
    rintro _ _ ⟨_, hname, _, hopen, _, hp, _, hc, _, hs, hend⟩
    exact .scaledDecimal hname hdecimal hopen hp hc hs hend h₁ h₂ h₃
  | array hname harray hopen ht hend =>
    refine (hname.movable.comp (hopen.anchored.movable.comp
      (ht.movable.comp hend.anchored.movable))).imp ?_
    rintro _ _ ⟨_, hname, _, hopen, _, ht, hend⟩
    exact .array hname harray hopen ht hend
  | map hname hmap hopen hk hmid hv hend =>
    refine (hname.movable.comp (hopen.anchored.movable.comp (hk.movable.comp
      (hmid.anchored.movable.comp (hv.movable.comp hend.anchored.movable))))).imp ?_
    rintro _ _ ⟨_, hname, _, hopen, _, hk, _, hmid, _, hv, hend⟩
    exact .map hname hmap hopen hk hmid hv hend
  | emptyStruct hname hstruct hopen hend =>
    refine (hname.movable.comp (hopen.anchored.movable.comp hend.anchored.movable)).imp ?_
    rintro _ _ ⟨_, hname, _, hopen, hend⟩
    exact .emptyStruct hname hstruct hopen hend
  | struct hname hstruct hopen hfields hend =>
    refine (hname.movable.comp (hopen.anchored.movable.comp
      (hfields.movable.comp hend.anchored.movable))).imp ?_
    rintro _ _ ⟨_, hname, _, hopen, _, hfields, hend⟩
    exact .struct hname hstruct hopen hfields hend

theorem DerivesFields.movable {fields : List StructField} {cs rest : List Char}
    (h : DerivesFields fields cs rest) : Movable (DerivesFields fields) cs rest := by
  cases h with
  | last hname hmid ht =>
    refine (hname.movable.comp (hmid.anchored.movable.comp ht.movable)).imp ?_
    rintro _ _ ⟨_, hname, _, hmid, ht⟩
    exact .last hname hmid ht
  | more hname hmid ht hc hmore =>
    refine (hname.movable.comp (hmid.anchored.movable.comp (ht.movable.comp
      (hc.anchored.movable.comp hmore.movable)))).imp ?_
    rintro _ _ ⟨_, hname, _, hmid, _, ht, _, hc, hmore⟩
    exact .more hname hmid ht hc hmore

end

mutual

/-- What stands at the place and behind it may be replaced. -/
theorem TypePlace.anchored {place cs : List Char} (h : TypePlace place cs) :
    Anchored (fun cs place => TypePlace place cs) cs place := by
  have hlt : Text.isBlank '<' = false := by decide
  have hcomma : Text.isBlank ',' = false := by decide
  match h with
  | .here => exact ⟨[], rfl, fun _ => .here⟩
  | .element hname harray hopen h =>
    refine ((hname.movable.symbol hlt hopen).comp h.anchored).imp ?_
    rintro _ _ ⟨_, ⟨_, hname, hopen⟩, h⟩
    exact .element hname harray hopen h
  | .key hname hmap hopen h =>
    refine ((hname.movable.symbol hlt hopen).comp h.anchored).imp ?_
    rintro _ _ ⟨_, ⟨_, hname, hopen⟩, h⟩
    exact .key hname hmap hopen h
  | .value hname hmap hopen hk hmid h =>
    refine ((hname.movable.symbol hlt hopen).comp
      ((hk.movable.symbol hcomma hmid).comp h.anchored)).imp ?_
    rintro _ _ ⟨_, ⟨_, hname, hopen⟩, _, ⟨_, hk, hmid⟩, h⟩
    exact .value hname hmap hopen hk hmid h
  | .field hname hstruct hopen h =>
    refine ((hname.movable.symbol hlt hopen).comp h.anchored).imp ?_
    rintro _ _ ⟨_, ⟨_, hname, hopen⟩, h⟩
    exact .field hname hstruct hopen h

theorem FieldPlace.anchored {place cs : List Char} (h : FieldPlace place cs) :
    Anchored (fun cs place => FieldPlace place cs) cs place := by
  have hcolon : Text.isBlank ':' = false := by decide
  have hcomma : Text.isBlank ',' = false := by decide
  match h with
  | .first hname hmid h =>
    refine ((hname.movable.symbol hcolon hmid).comp h.anchored).imp ?_
    rintro _ _ ⟨_, ⟨_, hname, hmid⟩, h⟩
    exact .first hname hmid h
  | .later hname hmid ht hc h =>
    refine ((hname.movable.symbol hcolon hmid).comp
      ((ht.movable.symbol hcomma hc).comp h.anchored)).imp ?_
    rintro _ _ ⟨_, ⟨_, hname, hmid⟩, _, ⟨_, ht, hc⟩, h⟩
    exact .later hname hmid ht hc h

end

theorem TypePlace.replace {front place : List Char} (h : TypePlace place (front ++ place))
    (place' : List Char) : TypePlace place' (front ++ place') := by
  obtain ⟨front', hfront, h⟩ := h.anchored
  rw [List.append_cancel_right hfront]
  exact h place'

/-- Each descriptor that a text holds stands at a place of the text. -/
theorem exists_place_of_parse {text : String} {t u : DataType} (h : parse text = .ok t)
    (hu : t.Holds u) : ∃ front place rest, text = String.ofList (front ++ place) ∧
      TypePlace place (front ++ place) ∧ Derives u place rest := by
  obtain ⟨_, hderives, -⟩ := denotes_of_parse_eq_ok h
  obtain ⟨place, rest, hplace, hu⟩ := hderives.exists_place hu
  obtain ⟨front, hfront, -⟩ := hplace.anchored
  rw [hfront] at hplace
  exact ⟨front, place, rest, by rw [← hfront, String.ofList_toList], hplace, hu⟩

/-! An error at a place is the error of the whole. -/

section Readers

variable {input : String} {e : TypeError}

/-- Reading a type fails in this way however much fuel there is, if it is enough. -/
def Fails (input : String) (e : TypeError) (place : List Char) : Prop :=
  ∀ fuel, place.length < fuel → readType input fuel place = .error e

theorem FieldPlace.congr {place cs cs' : List Char} (h : FieldPlace place cs)
    (heq : Text.skipBlanks cs = Text.skipBlanks cs') : FieldPlace place cs' := by
  cases h with
  | first hname hmid h => exact .first (hname.congr heq) hmid h
  | later hname hmid ht hc h => exact .later (hname.congr heq) hmid ht hc h

theorem FieldPlace.not_closed {place cs : List Char} (h : FieldPlace place cs) (r : List Char) :
    ¬ Token ['>'] cs r := by
  cases h with
  | first hname _ _ => exact hname.not_closed r
  | later hname _ _ _ _ => exact hname.not_closed r

theorem Token.expect_eq {c : Char} {cs rest : List Char} (h : Token [c] cs rest)
    (hc : Text.isBlank c = false) : expect input c cs = .ok rest :=
  (expect_eq_ok_iff hc).mpr h

section Heads

variable {name : String} {fuel : Nat} {cs r₁ r₂ : List Char} (hname : TypeName name cs r₁)

include hname

theorem readType_error_of_refused (hhead : Head.ofName (Text.lower name) = .refused e) :
    readType input (fuel + 1) cs = .error e := by
  rw [readType, bind_of_ok (readName_eq_ok_iff.mpr hname)]
  simp only [hhead]

variable (hopen : Token ['<'] r₁ r₂)

include hopen

/-- The element of an array and the key of a map are both read right behind the opening. -/
theorem readType_error_of_inner
    (hhead : Head.ofName (Text.lower name) = .array ∨ Head.ofName (Text.lower name) = .map)
    (h : readType input fuel r₂ = .error e) : readType input (fuel + 1) cs = .error e := by
  rw [readType, bind_of_ok (readName_eq_ok_iff.mpr hname)]
  rcases hhead with hhead | hhead
  all_goals
    simp only [hhead]
    rw [bind_of_ok (hopen.expect_eq (by decide)), bind_of_error h]

theorem readType_error_of_value {k : DataType} {r₃ r₄ : List Char}
    (hhead : Head.ofName (Text.lower name) = .map) (hk : readType input fuel r₂ = .ok (k, r₃))
    (hmid : Token [','] r₃ r₄) (h : readType input fuel r₄ = .error e) :
    readType input (fuel + 1) cs = .error e := by
  rw [readType, bind_of_ok (readName_eq_ok_iff.mpr hname)]
  simp only [hhead]
  rw [bind_of_ok (hopen.expect_eq (by decide)), bind_of_ok hk]
  dsimp only
  rw [bind_of_ok (hmid.expect_eq (by decide)), bind_of_error h]

theorem readType_error_of_field (hhead : Head.ofName (Text.lower name) = .struct)
    (hfirst : ∀ r, ¬ Token ['>'] r₂ r)
    (h : readFields input fuel (Text.skipBlanks r₂) = .error e) :
    readType input (fuel + 1) cs = .error e := by
  rw [readType, bind_of_ok (readName_eq_ok_iff.mpr hname)]
  simp only [hhead]
  rw [bind_of_ok (hopen.expect_eq (by decide))]
  split
  · next r heq => exact absurd ((token_iff (by decide) ..).mpr heq) (hfirst r)
  · exact bind_of_error h _

end Heads

section Fields

variable {name : String} {fuel : Nat} {cs r₁ r₂ : List Char} (hname : FieldName name cs r₁)
  (hmid : Token [':'] r₁ r₂)

include hname hmid

theorem readFields_error_of_first (h : readType input fuel r₂ = .error e) :
    readFields input (fuel + 1) cs = .error e := by
  rw [readFields, bind_of_ok (readFieldName_eq_ok_iff.mpr hname)]
  dsimp only
  rw [bind_of_ok (hmid.expect_eq (by decide)), bind_of_error h]

theorem readFields_error_of_later {t : DataType} {r₃ r₄ : List Char}
    (ht : readType input fuel r₂ = .ok (t, r₃)) (hnext : Token [','] r₃ r₄)
    (h : readFields input fuel r₄ = .error e) : readFields input (fuel + 1) cs = .error e := by
  have hnext := (token_iff (by decide) ..).mp hnext
  rw [readFields, bind_of_ok (readFieldName_eq_ok_iff.mpr hname)]
  dsimp only
  rw [bind_of_ok (hmid.expect_eq (by decide)), bind_of_ok ht]
  dsimp only
  rw [hnext]
  exact bind_of_error h _

end Fields

mutual

theorem TypePlace.read_error {place cs : List Char} (h : TypePlace place cs)
    (hplace : Fails input e place) (fuel : Nat) (hfuel : cs.length < fuel) :
    readType input fuel cs = .error e := by
  have hcomma : Text.isBlank ',' = false := by decide
  obtain ⟨fuel, rfl⟩ := Nat.exists_eq_add_one_of_ne_zero (Nat.ne_zero_of_lt hfuel)
  match h with
  | .here => exact hplace _ hfuel
  | .element hname harray hopen h =>
    have := hname.length_lt
    have := hopen.length_lt
    exact readType_error_of_inner hname hopen (.inl (by rw [harray]; rfl))
      (h.read_error hplace fuel (by omega))
  | .key hname hmap hopen h =>
    have := hname.length_lt
    have := hopen.length_lt
    exact readType_error_of_inner hname hopen (.inr (by rw [hmap]; rfl))
      (h.read_error hplace fuel (by omega))
  | .value hname hmap hopen hk hmid h =>
    have := hname.length_lt
    have := hopen.length_lt
    have := hk.length_lt
    have := hmid.length_lt
    obtain ⟨r, hkey, hr⟩ := hk.read fuel (by omega)
    exact readType_error_of_value hname hopen (by rw [hmap]; rfl) hkey
      ((token_congr hcomma hr).mpr hmid) (h.read_error hplace fuel (by omega))
  | @TypePlace.field _ _ _ _ r₂ hname hstruct hopen h =>
    have := hname.length_lt
    have := hopen.length_lt
    have hskip : (Text.skipBlanks r₂).length ≤ r₂.length := Text.length_skipBlanks_le r₂
    have hcongr := h.congr (Text.skipBlanks_skipBlanks r₂).symm
    exact readType_error_of_field hname hopen (by rw [hstruct]; rfl) h.not_closed
      (hcongr.read_error hplace fuel (by omega))

theorem FieldPlace.read_error {place cs : List Char} (h : FieldPlace place cs)
    (hplace : Fails input e place) (fuel : Nat) (hfuel : cs.length < fuel) :
    readFields input fuel cs = .error e := by
  have hcomma : Text.isBlank ',' = false := by decide
  obtain ⟨fuel, rfl⟩ := Nat.exists_eq_add_one_of_ne_zero (Nat.ne_zero_of_lt hfuel)
  match h with
  | .first hname hmid h =>
    have := hname.length_lt
    have := hmid.length_lt
    exact readFields_error_of_first hname hmid (h.read_error hplace fuel (by omega))
  | .later hname hmid ht hnext h =>
    have := hname.length_lt
    have := hmid.length_lt
    have := ht.length_lt
    have := hnext.length_lt
    obtain ⟨r, hread, hr⟩ := ht.read fuel (by omega)
    exact readFields_error_of_later hname hmid hread ((token_congr hcomma hr).mpr hnext)
      (h.read_error hplace fuel (by omega))

end

/-- The names that are refused, in lower case: those of host types that have no counterpart, and of
those whose counterpart cannot be sent to the engine. -/
inductive RefusedAs : String → TypeError → Prop
  | unsupported {name} :
      name ∈ ["uint", "uint32", "u32", "uint64", "u64", "ulong", "usize"] →
      RefusedAs name (.unsupported name)
  | hostOnly {name} : name ∈ ["char", "time", "uuid", "guid"] → RefusedAs name (.hostOnly name)

theorem RefusedAs.ofName_eq {name : String} (h : RefusedAs name e) :
    Head.ofName name = .refused e := by
  cases h with
  | unsupported hname =>
    simp only [List.mem_cons, List.not_mem_nil, or_false] at hname
    rcases hname with rfl | rfl | rfl | rfl | rfl | rfl | rfl <;> rfl
  | hostOnly hname =>
    simp only [List.mem_cons, List.not_mem_nil, or_false] at hname
    rcases hname with rfl | rfl | rfl | rfl <;> rfl

theorem RefusedAs.fails {name : String} {place rest : List Char}
    (h : RefusedAs (Text.lower name) e) (hname : TypeName name place rest) :
    Fails input e place := by
  intro fuel hfuel
  obtain ⟨fuel, rfl⟩ := Nat.exists_eq_add_one_of_ne_zero (Nat.ne_zero_of_lt hfuel)
  exact readType_error_of_refused hname h.ofName_eq

theorem TypePlace.parse_error {place cs : List Char} (h : TypePlace place cs)
    (hplace : ∀ input, Fails input e place) : parse (String.ofList cs) = .error e := by
  rw [parse, String.toList_ofList]
  exact bind_of_error (h.read_error (hplace _) _ (Nat.lt_succ_self _)) _

end Readers

/-! The same for the JSON form, where what is read before the place is the key type of a map, the fields
in front and the name of the field. -/

/-- A place in a JSON value at which a descriptor is read when one is read from the value, with all that
is read before it well formed. Members that are read later are free. -/
inductive JsonPlace (place : Json) : Json → Prop
  | here : JsonPlace place place
  | element {members v} : kind members = "array" → Json.lookup "elementType" members = some v →
      JsonPlace place v → JsonPlace place (.object members)
  | key {members v} : kind members = "map" → Json.lookup "keyType" members = some v →
      JsonPlace place v → JsonPlace place (.object members)
  | value {members key t v} : kind members = "map" → Json.lookup "keyType" members = some key →
      ofJson key = .ok t → Json.lookup "valueType" members = some v →
      JsonPlace place v → JsonPlace place (.object members)
  | field {members front own rest name v} : kind members = "struct" →
      Json.lookup "fields" members = some (.list (front ++ .object own :: rest)) →
      (∀ item ∈ front, ∃ f, fieldOfJson item = .ok f) → Json.lookup "name" own = some (.text name) →
      Json.lookup "type" own = some v → JsonPlace place v → JsonPlace place (.object members)

theorem child_eq (key : String) (members : List (String × Json)) :
    child key members = (Json.lookup key members).map ofJson := by
  induction members with
  | nil => rfl
  | cons m rest ih =>
    rw [child, Json.lookup]
    split
    · rfl
    · exact ih

theorem children_eq {members : List (String × Json)} {items : List Json}
    (h : Json.lookup "fields" members = some (.list items)) :
    children members = some (fieldsOfJson items) := by
  induction members with
  | nil => cases h
  | cons m rest ih =>
    obtain ⟨k, v⟩ := m
    rw [Json.lookup] at h
    split at h
    · next hkey =>
      obtain rfl := Option.some.inj h
      rw [children, if_pos hkey]
    · next hkey =>
      rw [children.eq_def]
      exact (if_neg hkey).trans (ih h)

theorem fieldsOfJson_eq (items : List Json) : fieldsOfJson items = items.mapM fieldOfJson := by
  induction items with
  | nil => rfl
  | cons item rest ih =>
    rw [fieldsOfJson, List.mapM_cons, ih]
    rfl

theorem JsonPlace.read_error {place v : Json} {e : TypeError} (h : JsonPlace place v)
    (hplace : ofJson place = .error e) : ofJson v = .error e := by
  induction h with
  | here => exact hplace
  | element hkind hv _ ih =>
    simp only [ofJson, hkind, child_eq, hv, Option.map_some, required]
    exact bind_of_error ih _
  | key hkind hv _ ih =>
    simp only [ofJson, hkind, child_eq, hv, Option.map_some, required]
    exact bind_of_error ih _
  | value hkind hkey ht hv _ ih =>
    simp only [ofJson, hkind, child_eq, hkey, hv, Option.map_some, required]
    rw [bind_of_ok ht]
    exact bind_of_error ih _
  | @field members front own rest name v hkind hfields hfront hname hv _ ih =>
    have hfield : fieldOfJson (.object own) = .error e := by
      simp only [fieldOfJson, hname, Option.bind_some, Json.text?, child_eq, hv, Option.map_some, ih]
      rfl
    have hitems := mapM_of_error hfront hfield rest
    simp only [ofJson, hkind, children_eq hfields, fieldsOfJson_eq, hitems]
    rfl

end DataType

end Columnar
