import Columnar.DataType.Parser
import Columnar.Proofs.Result
import Columnar.Proofs.Text.Backtick
import Columnar.Proofs.Text.Blank
import Columnar.Proofs.Text.Word

/-! The written form of a descriptor as a grammar, apart from any way to read it. A phrase relates a
text to what is left of it. The reader accepts exactly the texts of the grammar. -/
namespace Columnar

namespace DataType

/-- A token at the front of a text, with blanks before it. -/
def Token (token cs rest : List Char) : Prop :=
  ∃ blanks, (∀ c ∈ blanks, Text.isBlank c) ∧ cs = blanks ++ token ++ rest

/-- A name without quotes is a run of word characters that is not empty and goes as far as it
can. -/
structure BareName (name : String) (rest : List Char) : Prop where
  ne_empty : name ≠ ""
  isWord : ∀ c ∈ name.toList, Text.isWord c
  maximal : rest.head?.any Text.isWord = false

/-- A type name or a number: without quotes, or between backticks with no backtick in it. -/
def TypeName (name : String) (cs rest : List Char) : Prop :=
  Token name.toList cs rest ∧ BareName name rest ∨
    Token ('\x60' :: name.toList ++ ['\x60']) cs rest ∧ '\x60' ∉ name.toList

/-- The name of a field: without quotes, or between backticks with each of its own backticks
doubled. -/
def FieldName (name : String) (cs rest : List Char) : Prop :=
  Token name.toList cs rest ∧ BareName name rest ∨
    Token ('\x60' :: Text.doubleBackticks name.toList ++ ['\x60']) cs rest ∧
      rest.head? ≠ some '\x60'

/-- Digits, perhaps with a plus sign in front, that denote a number of one byte. -/
def ReadsByte (cs : List Char) (n : Nat) : Prop :=
  ∃ ds, (cs = ds ∨ cs = '+' :: ds) ∧ ds ≠ [] ∧ (∀ d ∈ ds, d.isDigit) ∧ Number.ofDigits ds = n ∧
    n < 256

/-- A number is a name that reads as one. -/
def Numeral (n : Nat) (cs rest : List Char) : Prop :=
  ∃ name, TypeName name cs rest ∧ ReadsByte name.toList n

/-- The names of the types that hold no others, in lower case. -/
def leafNames : List (String × DataType) :=
  [("boolean", boolean), ("bool", boolean), ("byte", byte), ("tinyint", byte), ("short", short),
    ("smallint", short), ("int", integer), ("integer", integer), ("long", long), ("bigint", long),
    ("float", float), ("real", float), ("double", double), ("string", string), ("text", string),
    ("varchar", string), ("binary", binary), ("bytes", binary), ("date", date),
    ("timestamp", timestamp), ("datetime", timestamp), ("interval", interval),
    ("calendarinterval", interval)]

def decimalNames : List String := ["decimal", "numeric"]

mutual

/-- The descriptors that a text starts with. A container may hold nulls. -/
inductive Derives : DataType → List Char → List Char → Prop
  | leaf {name t cs rest} : TypeName name cs rest → (Text.lower name, t) ∈ leafNames →
      Derives t cs rest
  | plainDecimal {name cs rest} : TypeName name cs rest → Text.lower name ∈ decimalNames →
      (∀ r, ¬ Token ['('] rest r) → Derives (decimal 10 0) cs rest
  | decimal {name p cs r₁ r₂ r₃ rest} : TypeName name cs r₁ → Text.lower name ∈ decimalNames →
      Token ['('] r₁ r₂ → Numeral p r₂ r₃ → Token [')'] r₃ rest → 1 ≤ p → p ≤ 38 →
      Derives (decimal p 0) cs rest
  | scaledDecimal {name p s cs r₁ r₂ r₃ r₄ r₅ rest} : TypeName name cs r₁ →
      Text.lower name ∈ decimalNames → Token ['('] r₁ r₂ → Numeral p r₂ r₃ → Token [','] r₃ r₄ →
      Numeral s r₄ r₅ → Token [')'] r₅ rest → 1 ≤ p → p ≤ 38 → s ≤ p →
      Derives (decimal p s) cs rest
  | array {name t cs r₁ r₂ r₃ rest} : TypeName name cs r₁ → Text.lower name = "array" →
      Token ['<'] r₁ r₂ → Derives t r₂ r₃ → Token ['>'] r₃ rest → Derives (array t true) cs rest
  | map {name k v cs r₁ r₂ r₃ r₄ r₅ rest} : TypeName name cs r₁ → Text.lower name = "map" →
      Token ['<'] r₁ r₂ → Derives k r₂ r₃ → Token [','] r₃ r₄ → Derives v r₄ r₅ →
      Token ['>'] r₅ rest → Derives (map k v true) cs rest
  | emptyStruct {name cs r₁ r₂ rest} : TypeName name cs r₁ → Text.lower name = "struct" →
      Token ['<'] r₁ r₂ → Token ['>'] r₂ rest → Derives (struct []) cs rest
  | struct {name fields cs r₁ r₂ r₃ rest} : TypeName name cs r₁ → Text.lower name = "struct" →
      Token ['<'] r₁ r₂ → DerivesFields fields r₂ r₃ → Token ['>'] r₃ rest →
      Derives (struct fields) cs rest

/-- One or more fields with a comma between each two. -/
inductive DerivesFields : List StructField → List Char → List Char → Prop
  | last {name t cs r₁ r₂ rest} : FieldName name cs r₁ → Token [':'] r₁ r₂ → Derives t r₂ rest →
      DerivesFields [.mk name t true] cs rest
  | more {name t fields cs r₁ r₂ r₃ r₄ rest} : FieldName name cs r₁ → Token [':'] r₁ r₂ →
      Derives t r₂ r₃ → Token [','] r₃ r₄ → DerivesFields fields r₄ rest →
      DerivesFields (.mk name t true :: fields) cs rest

end

/-- A text has a descriptor when it derives it and nothing but blanks is left. -/
def Denotes (text : String) (t : DataType) : Prop :=
  ∃ rest, Derives t text.toList rest ∧ ∀ c ∈ rest, Text.isBlank c

section Readers

variable {input : String}

theorem token_iff {c : Char} (hc : Text.isBlank c = false) (token cs rest : List Char) :
    Token (c :: token) cs rest ↔ Text.skipBlanks cs = c :: token ++ rest := by
  constructor
  · rintro ⟨blanks, hb, rfl⟩
    rw [Text.skipBlanks, List.append_assoc, List.dropWhile_append_of_pos hb]
    simp [hc]
  · intro h
    refine ⟨cs.takeWhile Text.isBlank, List.all_eq_true.mp List.all_takeWhile, ?_⟩
    rw [List.append_assoc, ← h]
    exact List.takeWhile_append_dropWhile.symm

/-- Two different symbols cannot both stand at the front of a text. -/
theorem Token.ne_of_ne {c d : Char} {token token' cs rest rest' : List Char}
    (h : Token (c :: token) cs rest) (hc : Text.isBlank c = false) (hd : Text.isBlank d = false)
    (hne : c ≠ d) : ¬ Token (d :: token') cs rest' := by
  intro h'
  rw [token_iff hc] at h
  rw [token_iff hd] at h'
  exact hne (List.cons.inj (h.symm.trans h')).1

theorem expect_eq_ok_iff {wanted : Char} (hw : Text.isBlank wanted = false) {cs rest : List Char} :
    expect input wanted cs = .ok rest ↔ Token [wanted] cs rest := by
  rw [token_iff hw, expect]
  cases Text.skipBlanks cs with
  | nil => simp
  | cons c cs =>
    by_cases h : c = wanted <;> simp [h]

theorem BareName.takeWhile {name : String} {rest : List Char} (h : BareName name rest) :
    (name.toList ++ rest).takeWhile Text.isWord = name.toList := by
  rw [List.takeWhile_append_of_pos h.isWord]
  cases rest with
  | nil => simp
  | cons c rest =>
    have hc : Text.isWord c = false := by simpa using h.maximal
    simp [hc]

theorem BareName.dropWhile {name : String} {rest : List Char} (h : BareName name rest) :
    (name.toList ++ rest).dropWhile Text.isWord = rest := by
  rw [List.dropWhile_append_of_pos h.isWord]
  cases rest with
  | nil => rfl
  | cons c rest =>
    have hc : Text.isWord c = false := by simpa using h.maximal
    simp [hc]

/-- A name without quotes starts with a character that is neither blank nor a backtick. -/
theorem BareName.exists_cons {name : String} {rest : List Char} (h : BareName name rest) :
    ∃ c cs, name.toList = c :: cs ∧ Text.isBlank c = false ∧ c ≠ '\x60' := by
  cases hname : name.toList with
  | nil => exact absurd (String.toList_eq_nil_iff.mp hname) h.ne_empty
  | cons c cs =>
    have hc : Text.isWord c := h.isWord c (by simp [hname])
    refine ⟨c, cs, rfl, Text.isBlank_of_isWord hc, ?_⟩
    rintro rfl
    exact absurd hc (by decide)

theorem readWord_eq_ok_iff {name : String} {cs rest : List Char} :
    readWord input cs = .ok (name, rest) ↔ cs = name.toList ++ rest ∧ BareName name rest := by
  unfold readWord
  dsimp only
  constructor
  · intro h
    split at h
    · cases h
    · next hne =>
      obtain ⟨rfl, rfl⟩ := Prod.mk.inj (Except.ok.inj h)
      refine ⟨by simp, ⟨fun hempty => ?_, fun c hc => ?_, ?_⟩⟩
      · rw [← String.toList_inj, String.toList_ofList] at hempty
        simp [hempty] at hne
      · rw [String.toList_ofList] at hc
        exact List.all_eq_true.mp List.all_takeWhile c hc
      · have := List.head?_dropWhile_not Text.isWord cs
        cases hd : (cs.dropWhile Text.isWord).head? with
        | none => rfl
        | some c => simpa [hd] using this
  · rintro ⟨rfl, h⟩
    obtain ⟨c, cs, hname, -⟩ := h.exists_cons
    rw [h.takeWhile, h.dropWhile, if_neg (by simp [hname])]
    simp

/-- Both forms of a name are read behind the blanks: a backtick decides between them. -/
theorem token_bareName_iff {name : String} {cs rest : List Char} :
    Token name.toList cs rest ∧ BareName name rest ↔
      Text.skipBlanks cs = name.toList ++ rest ∧ BareName name rest := by
  constructor
  all_goals
    rintro ⟨ht, hb⟩
    obtain ⟨c, tail, hname, hc, -⟩ := hb.exists_cons
    rw [hname] at ht ⊢
    simpa [token_iff hc, hb] using ht

theorem BareName.ne_backtick {name : String} {rest quoted : List Char} (h : BareName name rest) :
    '\x60' :: quoted ≠ name.toList ++ rest := by
  obtain ⟨c, tail, hname, -, hc⟩ := h.exists_cons
  rw [hname]
  intro heq
  exact hc (List.cons.inj heq).1.symm

/-- Without a backtick at the front of a text only the form without quotes is left. -/
theorem readWord_eq_ok_iff_or {name : String} {cs rest tail : List Char} {condition : Prop}
    (hcs : ∀ quoted, cs ≠ '\x60' :: quoted) :
    readWord input cs = .ok (name, rest) ↔
      cs = name.toList ++ rest ∧ BareName name rest ∨ cs = '\x60' :: tail ∧ condition := by
  rw [readWord_eq_ok_iff]
  constructor
  · exact Or.inl
  · rintro (h | ⟨heq, -⟩)
    · exact h
    · exact absurd heq (hcs tail)

theorem readName_eq_ok_iff {name : String} {cs rest : List Char} :
    readName input cs = .ok (name, rest) ↔ TypeName name cs rest := by
  have hq : Text.isBlank '\x60' = false := by decide
  rw [TypeName, token_bareName_iff, List.cons_append, token_iff hq]
  unfold readName
  split
  · next quoted hcs =>
    rw [hcs]
    constructor
    · intro h
      split at h
      · next inner after hsplit =>
        obtain ⟨rfl, rfl⟩ := Prod.mk.inj (Except.ok.inj h)
        have := Text.splitBacktick_eq_some_iff.mp hsplit
        right
        simpa using this
      · cases h
    · rintro (⟨heq, hb⟩ | ⟨heq, hn⟩)
      · exact absurd heq hb.ne_backtick
      · have hsplit : Text.splitBacktick quoted = some (name.toList, rest) :=
          Text.splitBacktick_eq_some_iff.mpr ⟨by simpa using heq, hn⟩
        rw [hsplit]
        simp
  · next hcs => exact readWord_eq_ok_iff_or hcs

theorem readFieldName_eq_ok_iff {name : String} {cs rest : List Char} :
    readFieldName input cs = .ok (name, rest) ↔ FieldName name cs rest := by
  have hq : Text.isBlank '\x60' = false := by decide
  rw [FieldName, token_bareName_iff, List.cons_append, token_iff hq]
  unfold readFieldName
  split
  · next quoted hcs =>
    rw [hcs]
    constructor
    · intro h
      split at h
      · next inner after hsplit =>
        obtain ⟨rfl, rfl⟩ := Prod.mk.inj (Except.ok.inj h)
        have := Text.splitDoubled_eq_some_iff.mp hsplit
        right
        simpa using this
      · cases h
    · rintro (⟨heq, hb⟩ | ⟨heq, hr⟩)
      · exact absurd heq hb.ne_backtick
      · have hsplit : Text.splitDoubled quoted = some (name.toList, rest) :=
          Text.splitDoubled_eq_some_iff.mpr ⟨by simpa using heq, hr⟩
        rw [hsplit]
        simp
  · next hcs => exact readWord_eq_ok_iff_or hcs

theorem ofDigits?_eq_some_iff {cs : List Char} {n : Nat} :
    Number.ofDigits? cs = some n ↔
      cs ≠ [] ∧ (∀ c ∈ cs, c.isDigit) ∧ Number.ofDigits cs = n := by
  unfold Number.ofDigits?
  split
  · next h => grind
  · next h => grind

/-- A text without the plus sign in front of it, if there is one. -/
def unsigned : List Char → List Char
  | '+' :: ds => ds
  | ds => ds

theorem byteValue?_eq_some_iff_unsigned {cs : List Char} {n : Nat} :
    byteValue? cs = some n ↔ Number.ofDigits? (unsigned cs) = some n ∧ n < 256 := by
  unfold byteValue?
  dsimp only
  split
  · next m hm =>
    change Number.ofDigits? (unsigned cs) = some m at hm
    rw [hm]
    split <;> grind
  · next hm =>
    change Number.ofDigits? (unsigned cs) = none at hm
    simp [hm]

theorem byteValue?_eq_some_iff {cs : List Char} {n : Nat} :
    byteValue? cs = some n ↔ ReadsByte cs n := by
  rw [byteValue?_eq_some_iff_unsigned, ofDigits?_eq_some_iff]
  unfold ReadsByte unsigned
  simp only [and_assoc]
  split
  · next ds =>
    constructor
    · exact fun h => ⟨ds, Or.inr rfl, h⟩
    · rintro ⟨es, rfl | heq, h⟩
      · exact absurd (h.2.1 '+' (by simp)) (by decide)
      · rwa [(List.cons.inj heq).2]
  · next hplus =>
    constructor
    · exact fun h => ⟨cs, Or.inl rfl, h⟩
    · rintro ⟨es, rfl | rfl, h⟩
      · exact h
      · exact absurd rfl (hplus es)

theorem readNumber_eq_ok_iff {n : Nat} {cs rest : List Char} :
    readNumber input cs = .ok (n, rest) ↔ Numeral n cs rest := by
  unfold readNumber Numeral
  have hname (name : String) : TypeName name cs rest ↔ readName input cs = .ok (name, rest) :=
    readName_eq_ok_iff.symm
  simp only [hname, ← byteValue?_eq_some_iff]
  cases readName input cs with
  | error e => simp
  | ok found =>
    obtain ⟨digits, after⟩ := found
    cases hv : byteValue? digits.toList <;> grind

theorem isDecimal_iff {p s : Nat} : isDecimal p s = true ↔ 1 ≤ p ∧ p ≤ 38 ∧ s ≤ p := by
  have hmax : maxPrecision = 38 := rfl
  simp only [isDecimal, Bool.and_eq_true, decide_eq_true_eq]
  omega

/-- What is left of a text counts up to the blanks in front of it. -/
theorem token_congr {c : Char} (hc : Text.isBlank c = false) {token cs cs' rest : List Char}
    (h : Text.skipBlanks cs = Text.skipBlanks cs') :
    Token (c :: token) cs rest ↔ Token (c :: token) cs' rest := by
  rw [token_iff hc, token_iff hc, h]

theorem FieldName.congr {name : String} {cs cs' rest : List Char} (h : FieldName name cs rest)
    (heq : Text.skipBlanks cs = Text.skipBlanks cs') : FieldName name cs' rest := by
  have hq : Text.isBlank '\x60' = false := by decide
  rwa [FieldName, token_bareName_iff, List.cons_append, token_congr hq heq, heq,
    ← token_bareName_iff] at h

theorem DerivesFields.congr {fields : List StructField} {cs cs' rest : List Char}
    (h : DerivesFields fields cs rest) (heq : Text.skipBlanks cs = Text.skipBlanks cs') :
    DerivesFields fields cs' rest := by
  cases h with
  | last hname hmid ht => exact .last (hname.congr heq) hmid ht
  | more hname hmid ht hc hmore => exact .more (hname.congr heq) hmid ht hc hmore

/-- A field starts with its name, never with the end of the list. -/
theorem FieldName.not_closed {name : String} {cs rest : List Char} (h : FieldName name cs rest)
    (r : List Char) : ¬ Token ['>'] cs r := by
  rcases h with ⟨ht, hb⟩ | ⟨ht, -⟩
  · obtain ⟨c, tail, hcons, hblank, -⟩ := hb.exists_cons
    have hc : Text.isWord c := hb.isWord c (by simp [hcons])
    rw [hcons] at ht
    refine ht.ne_of_ne hblank (by decide) ?_
    rintro rfl
    exact absurd hc (by decide)
  · exact Token.ne_of_ne ht (by decide) (by decide) (by decide)

theorem DerivesFields.not_closed {fields : List StructField} {cs rest : List Char}
    (h : DerivesFields fields cs rest) (r : List Char) : ¬ Token ['>'] cs r := by
  cases h with
  | last hname _ _ => exact hname.not_closed r
  | more hname _ _ _ _ => exact hname.not_closed r

/-- The texts in front of which a scale is read: with a comma, or without one for a scale of
zero. -/
def ScalePart (s : Nat) (cs rest : List Char) : Prop :=
  (∃ r, Token [','] cs r ∧ Numeral s r rest) ∨
    (∀ r, ¬ Token [','] cs r) ∧ s = 0 ∧ rest = Text.skipBlanks cs

theorem readScale_eq_ok_iff {s : Nat} {cs rest : List Char} :
    readScale input cs = .ok (s, rest) ↔ ScalePart s cs rest := by
  have hc : Text.isBlank ',' = false := by decide
  simp only [readScale, ScalePart, token_iff hc]
  split
  · next after hcs =>
    rw [hcs, readNumber_eq_ok_iff]
    simp
  · next hcs =>
    simp only [Except.ok.injEq, Prod.mk.injEq]
    grind

theorem readDecimal_eq_ok_iff {t : DataType} {cs rest : List Char} :
    readDecimal input cs = .ok (t, rest) ↔
      (∃ p s r₁ r₂ r₃, Token ['('] cs r₁ ∧ Numeral p r₁ r₂ ∧ ScalePart s r₂ r₃ ∧
        Token [')'] r₃ rest ∧ (1 ≤ p ∧ p ≤ 38 ∧ s ≤ p) ∧ t = decimal p s) ∨
      (∀ r, ¬ Token ['('] cs r) ∧ t = decimal 10 0 ∧ rest = Text.skipBlanks cs := by
  have ho : Text.isBlank '(' = false := by decide
  have hc : Text.isBlank ')' = false := by decide
  simp only [token_iff ho]
  unfold readDecimal
  split
  · next after hcs =>
    simp only [bind_eq_ok_iff, Prod.exists, readNumber_eq_ok_iff, readScale_eq_ok_iff,
      expect_eq_ok_iff hc]
    constructor
    · rintro ⟨p, r₂, hp, s, r₃, hs, r₄, hclose, h⟩
      split at h
      · next hd =>
        obtain ⟨rfl, rfl⟩ := Prod.mk.inj (Except.ok.inj h)
        exact Or.inl ⟨p, s, after, r₂, r₃, hcs, hp, hs, hclose, isDecimal_iff.mp hd, rfl⟩
      · cases h
    · rintro (⟨p, s, r₁, r₂, r₃, hopen, hp, hs, hclose, hd, rfl⟩ | ⟨hnone, -⟩)
      · have hr : after = r₁ := by simpa [hcs] using hopen
        subst hr
        refine ⟨p, r₂, hp, s, r₃, hs, rest, hclose, ?_⟩
        rw [if_pos (isDecimal_iff.mpr hd)]
      · exact absurd hcs (hnone after)
  · next hcs =>
    constructor
    · intro h
      obtain ⟨rfl, rfl⟩ := Prod.mk.inj (Except.ok.inj h)
      exact Or.inr ⟨hcs, rfl, rfl⟩
    · rintro (⟨p, s, r₁, r₂, r₃, hopen, -⟩ | ⟨-, rfl, rfl⟩)
      · exact absurd hopen (hcs r₁)
      · rfl

theorem ofName_of_mem {name : String} {t : DataType} (h : (name, t) ∈ leafNames) :
    Head.ofName name = .leaf t := by
  have hall : ∀ entry ∈ leafNames, Head.ofName entry.1 = .leaf entry.2 := by
    unfold leafNames
    repeat refine List.forall_mem_cons.mpr ⟨rfl, ?_⟩
    exact List.forall_mem_nil _
  exact hall (name, t) h

theorem ofName_of_mem_decimalNames {name : String} (h : name ∈ decimalNames) :
    Head.ofName name = .decimal := by
  simp only [decimalNames, List.mem_cons, List.not_mem_nil, or_false] at h
  rcases h with rfl | rfl <;> rfl

/-- Which names announce what. -/
def Head.IsNamed : Head → String → Prop
  | leaf t, name => (name, t) ∈ leafNames
  | decimal, name => name ∈ decimalNames
  | array, name => name = "array"
  | map, name => name = "map"
  | struct, name => name = "struct"
  | refused _, _ => True

theorem isNamed_ofName (name : String) : (Head.ofName name).IsNamed name := by
  unfold Head.ofName
  split <;> first | exact trivial | exact rfl | (unfold Head.IsNamed; decide)

/-! What is left to read behind the name of a type, for each kind of name. -/

section Heads

variable {name : String} {t : DataType} {fuel : Nat} {cs r₁ rest : List Char}
  (hname : TypeName name cs r₁)

include hname

theorem readType_of_leaf {type : DataType} (hhead : Head.ofName (Text.lower name) = .leaf type) :
    readType input (fuel + 1) cs = .ok (type, r₁) := by
  rw [readType, readName_eq_ok_iff.mpr hname, bind_eq_ok_iff]
  exact ⟨_, rfl, by simp only [hhead]⟩

theorem readType_of_decimal (hhead : Head.ofName (Text.lower name) = .decimal) :
    readType input (fuel + 1) cs = .ok (t, rest) ↔ readDecimal input r₁ = .ok (t, rest) := by
  rw [readType, readName_eq_ok_iff.mpr hname, bind_eq_ok_iff]
  simp only [Except.ok.injEq, exists_eq_left', hhead]

theorem readType_of_refused {error : TypeError}
    (hhead : Head.ofName (Text.lower name) = .refused error) :
    readType input (fuel + 1) cs ≠ .ok (t, rest) := by
  rw [readType, readName_eq_ok_iff.mpr hname, ne_eq, bind_eq_ok_iff]
  simp only [Except.ok.injEq, exists_eq_left', hhead, reduceCtorEq, not_false_eq_true]

theorem readType_of_array (hhead : Head.ofName (Text.lower name) = .array) :
    readType input (fuel + 1) cs = .ok (t, rest) ↔
      ∃ r₂ element r₃, Token ['<'] r₁ r₂ ∧ readType input fuel r₂ = .ok (element, r₃) ∧
        Token ['>'] r₃ rest ∧ t = array element true := by
  have hlt : Text.isBlank '<' = false := by decide
  have hgt : Text.isBlank '>' = false := by decide
  rw [readType, readName_eq_ok_iff.mpr hname, bind_eq_ok_iff]
  simp only [Except.ok.injEq, exists_eq_left', hhead, bind_eq_ok_iff, Prod.exists,
    expect_eq_ok_iff hlt, expect_eq_ok_iff hgt, Prod.mk.injEq]
  grind

theorem readType_of_map (hhead : Head.ofName (Text.lower name) = .map) :
    readType input (fuel + 1) cs = .ok (t, rest) ↔
      ∃ r₂ key r₃ r₄ value r₅, Token ['<'] r₁ r₂ ∧ readType input fuel r₂ = .ok (key, r₃) ∧
        Token [','] r₃ r₄ ∧ readType input fuel r₄ = .ok (value, r₅) ∧ Token ['>'] r₅ rest ∧
        t = map key value true := by
  have hlt : Text.isBlank '<' = false := by decide
  have hgt : Text.isBlank '>' = false := by decide
  have hcomma : Text.isBlank ',' = false := by decide
  rw [readType, readName_eq_ok_iff.mpr hname, bind_eq_ok_iff]
  simp only [Except.ok.injEq, exists_eq_left', hhead, bind_eq_ok_iff, Prod.exists,
    expect_eq_ok_iff hlt, expect_eq_ok_iff hgt, expect_eq_ok_iff hcomma, Prod.mk.injEq]
  grind

theorem readType_of_struct (hhead : Head.ofName (Text.lower name) = .struct) :
    readType input (fuel + 1) cs = .ok (t, rest) ↔
      ∃ r₂, Token ['<'] r₁ r₂ ∧ (Token ['>'] r₂ rest ∧ t = struct [] ∨
        (∀ r, ¬ Token ['>'] r₂ r) ∧ ∃ fields r₃,
          readFields input fuel (Text.skipBlanks r₂) = .ok (fields, r₃) ∧
          Token ['>'] r₃ rest ∧ t = struct fields) := by
  have hlt : Text.isBlank '<' = false := by decide
  have hgt : Text.isBlank '>' = false := by decide
  rw [readType, readName_eq_ok_iff.mpr hname, bind_eq_ok_iff]
  simp only [Except.ok.injEq, exists_eq_left', hhead, bind_eq_ok_iff,
    expect_eq_ok_iff hlt]
  refine exists_congr fun r₂ => and_congr_right fun _ => ?_
  simp only [token_iff hgt]
  split
  · next r heq =>
    rw [heq]
    simp [and_comm, eq_comm]
  · next hno =>
    simp only [bind_eq_ok_iff, Prod.exists, expect_eq_ok_iff hgt, token_iff hgt, Except.ok.injEq,
      Prod.mk.injEq]
    grind

end Heads

theorem readFields_eq_ok_iff {fields : List StructField} {fuel : Nat} {cs rest : List Char} :
    readFields input (fuel + 1) cs = .ok (fields, rest) ↔
      ∃ name r₁ r₂ t r₃, FieldName name cs r₁ ∧ Token [':'] r₁ r₂ ∧
        readType input fuel r₂ = .ok (t, r₃) ∧
        ((∃ r₄ others, Token [','] r₃ r₄ ∧ readFields input fuel r₄ = .ok (others, rest) ∧
            fields = .mk name t true :: others) ∨
          (∀ r, ¬ Token [','] r₃ r) ∧ rest = Text.skipBlanks r₃ ∧ fields = [.mk name t true]) := by
  have hcolon : Text.isBlank ':' = false := by decide
  have hcomma : Text.isBlank ',' = false := by decide
  simp only [readFields, bind_eq_ok_iff, Prod.exists, readFieldName_eq_ok_iff,
    expect_eq_ok_iff hcolon]
  constructor
  · rintro ⟨name, r₁, hname, r₂, hmid, t, r₃, ht, h⟩
    refine ⟨name, r₁, r₂, t, r₃, hname, hmid, ht, ?_⟩
    simp only [token_iff hcomma]
    split at h
    · next r₄ hr =>
      obtain ⟨⟨others, r₅⟩, hothers, h⟩ := bind_eq_ok_iff.mp h
      obtain ⟨rfl, rfl⟩ := Prod.mk.inj (Except.ok.inj h)
      exact Or.inl ⟨r₄, others, hr, hothers, rfl⟩
    · next hno =>
      obtain ⟨rfl, rfl⟩ := Prod.mk.inj (Except.ok.inj h)
      exact Or.inr ⟨hno, rfl, rfl⟩
  · rintro ⟨name, r₁, r₂, t, r₃, hname, hmid, ht, h⟩
    refine ⟨name, r₁, hname, r₂, hmid, t, r₃, ht, ?_⟩
    simp only [token_iff hcomma] at h
    rcases h with ⟨r₄, others, hr, hothers, rfl⟩ | ⟨hno, rfl, rfl⟩
    · rw [hr]
      exact bind_eq_ok_iff.mpr ⟨_, hothers, rfl⟩
    · split
      · next r hr => exact absurd hr (hno r)
      · rfl

theorem exists_typeName {t : DataType} {fuel : Nat} {cs rest : List Char}
    (h : readType input (fuel + 1) cs = .ok (t, rest)) : ∃ name r₁, TypeName name cs r₁ := by
  rw [readType] at h
  obtain ⟨⟨name, r₁⟩, hname, -⟩ := bind_eq_ok_iff.mp h
  exact ⟨name, r₁, readName_eq_ok_iff.mp hname⟩

/-- Reading the arguments of a decimal derives it behind its name. -/
theorem derives_of_readDecimal {name : String} {t : DataType} {cs r₁ rest : List Char}
    (hname : TypeName name cs r₁) (hdecimal : Text.lower name ∈ decimalNames)
    (h : readDecimal input r₁ = .ok (t, rest)) :
    ∃ r, Derives t cs r ∧ Text.skipBlanks r = Text.skipBlanks rest := by
  have hclose : Text.isBlank ')' = false := by decide
  rcases readDecimal_eq_ok_iff.mp h with
    ⟨p, s, r₂, r₃, r₄, hopen, hp, hs, hend, ⟨h₁, h₂, h₃⟩, rfl⟩ | ⟨hnone, rfl, rfl⟩
  · rcases hs with ⟨r₅, hc, hs⟩ | ⟨-, rfl, rfl⟩
    · exact ⟨rest, .scaledDecimal hname hdecimal hopen hp hc hs hend h₁ h₂ h₃, rfl⟩
    · rw [token_congr hclose (Text.skipBlanks_skipBlanks r₃)] at hend
      exact ⟨rest, .decimal hname hdecimal hopen hp hend h₁ h₂, rfl⟩
  · exact ⟨r₁, .plainDecimal hname hdecimal hnone, (Text.skipBlanks_skipBlanks r₁).symm⟩

mutual

/-- Reading a type derives it, up to the blanks in front of what is left. -/
theorem derives_of_readType {t : DataType} {cs rest : List Char} (fuel : Nat)
    (h : readType input fuel cs = .ok (t, rest)) :
    ∃ r, Derives t cs r ∧ Text.skipBlanks r = Text.skipBlanks rest := by
  have hgt : Text.isBlank '>' = false := by decide
  have hcomma : Text.isBlank ',' = false := by decide
  cases fuel with
  | zero => cases h
  | succ fuel =>
    obtain ⟨name, r₁, hname⟩ := exists_typeName h
    have hnamed := isNamed_ofName (Text.lower name)
    cases hhead : Head.ofName (Text.lower name) with
    | leaf type =>
      rw [hhead] at hnamed
      rw [readType_of_leaf hname hhead] at h
      obtain ⟨rfl, rfl⟩ := Prod.mk.inj (Except.ok.inj h)
      exact ⟨r₁, .leaf hname hnamed, rfl⟩
    | decimal =>
      rw [hhead] at hnamed
      rw [readType_of_decimal hname hhead] at h
      exact derives_of_readDecimal hname hnamed h
    | array =>
      rw [hhead] at hnamed
      rw [readType_of_array hname hhead] at h
      obtain ⟨r₂, element, r₃, hopen, helement, hend, rfl⟩ := h
      obtain ⟨r, hderives, hr⟩ := derives_of_readType fuel helement
      rw [← token_congr hgt hr] at hend
      exact ⟨rest, .array hname hnamed hopen hderives hend, rfl⟩
    | map =>
      rw [hhead] at hnamed
      rw [readType_of_map hname hhead] at h
      obtain ⟨r₂, key, r₃, r₄, value, r₅, hopen, hkey, hmid, hvalue, hend, rfl⟩ := h
      obtain ⟨k, hk, hkr⟩ := derives_of_readType fuel hkey
      obtain ⟨v, hv, hvr⟩ := derives_of_readType fuel hvalue
      rw [← token_congr hcomma hkr] at hmid
      rw [← token_congr hgt hvr] at hend
      exact ⟨rest, .map hname hnamed hopen hk hmid hv hend, rfl⟩
    | struct =>
      rw [hhead] at hnamed
      rw [readType_of_struct hname hhead] at h
      obtain ⟨r₂, hopen, ⟨hend, rfl⟩ | ⟨-, fields, r₃, hfields, hend, rfl⟩⟩ := h
      · exact ⟨rest, .emptyStruct hname hnamed hopen hend, rfl⟩
      · obtain ⟨r, hderives, hr⟩ := derivesFields_of_readFields fuel hfields
        rw [← token_congr hgt hr] at hend
        have hderives := hderives.congr (Text.skipBlanks_skipBlanks r₂)
        exact ⟨rest, .struct hname hnamed hopen hderives hend, rfl⟩
    | refused error => exact absurd h (readType_of_refused hname hhead)
termination_by fuel

theorem derivesFields_of_readFields {fields : List StructField} {cs rest : List Char} (fuel : Nat)
    (h : readFields input fuel cs = .ok (fields, rest)) :
    ∃ r, DerivesFields fields cs r ∧ Text.skipBlanks r = Text.skipBlanks rest := by
  have hcomma : Text.isBlank ',' = false := by decide
  cases fuel with
  | zero => cases h
  | succ fuel =>
    obtain ⟨name, r₁, r₂, t, r₃, hname, hmid, ht, h⟩ := readFields_eq_ok_iff.mp h
    obtain ⟨r, hderives, hr⟩ := derives_of_readType fuel ht
    rcases h with ⟨r₄, others, hnext, hothers, rfl⟩ | ⟨-, rfl, rfl⟩
    · obtain ⟨r', hmore, hr'⟩ := derivesFields_of_readFields fuel hothers
      rw [← token_congr hcomma hr] at hnext
      exact ⟨r', .more hname hmid hderives hnext hmore, hr'⟩
    · exact ⟨r, .last hname hmid hderives, hr.trans (Text.skipBlanks_skipBlanks r₃).symm⟩
termination_by fuel

end

/-! Every phrase takes a character at least, which is what the fuel of the reader counts. -/

theorem Token.length_lt {c : Char} {token cs rest : List Char} (h : Token (c :: token) cs rest) :
    rest.length < cs.length := by
  obtain ⟨blanks, -, rfl⟩ := h
  simp only [List.length_append, List.length_cons]
  omega

theorem BareName.length_lt {name : String} {cs rest : List Char} (h : BareName name rest)
    (ht : Token name.toList cs rest) : rest.length < cs.length := by
  obtain ⟨c, tail, hname, -⟩ := h.exists_cons
  rw [hname] at ht
  exact ht.length_lt

theorem TypeName.length_lt {name : String} {cs rest : List Char} (h : TypeName name cs rest) :
    rest.length < cs.length := by
  rcases h with ⟨ht, hb⟩ | ⟨ht, -⟩
  · exact hb.length_lt ht
  · exact Token.length_lt ht

theorem FieldName.length_lt {name : String} {cs rest : List Char} (h : FieldName name cs rest) :
    rest.length < cs.length := by
  rcases h with ⟨ht, hb⟩ | ⟨ht, -⟩
  · exact hb.length_lt ht
  · exact Token.length_lt ht

theorem Numeral.length_lt {n : Nat} {cs rest : List Char} (h : Numeral n cs rest) :
    rest.length < cs.length := by
  obtain ⟨name, hname, -⟩ := h
  exact hname.length_lt

mutual

theorem Derives.length_lt {t : DataType} {cs rest : List Char} (h : Derives t cs rest) :
    rest.length < cs.length := by
  cases h with
  | leaf hname _ => exact hname.length_lt
  | plainDecimal hname _ _ => exact hname.length_lt
  | decimal hname _ hopen hp hend _ _ =>
    have := hname.length_lt
    have := hopen.length_lt
    have := hp.length_lt
    have := hend.length_lt
    omega
  | scaledDecimal hname _ hopen hp hc hs hend _ _ _ =>
    have := hname.length_lt
    have := hopen.length_lt
    have := hp.length_lt
    have := hc.length_lt
    have := hs.length_lt
    have := hend.length_lt
    omega
  | array hname _ hopen ht hend =>
    have := hname.length_lt
    have := hopen.length_lt
    have := ht.length_lt
    have := hend.length_lt
    omega
  | map hname _ hopen hk hmid hv hend =>
    have := hname.length_lt
    have := hopen.length_lt
    have := hk.length_lt
    have := hmid.length_lt
    have := hv.length_lt
    have := hend.length_lt
    omega
  | emptyStruct hname _ hopen hend =>
    have := hname.length_lt
    have := hopen.length_lt
    have := hend.length_lt
    omega
  | struct hname _ hopen hfields hend =>
    have := hname.length_lt
    have := hopen.length_lt
    have := hfields.length_lt
    have := hend.length_lt
    omega

theorem DerivesFields.length_lt {fields : List StructField} {cs rest : List Char}
    (h : DerivesFields fields cs rest) : rest.length < cs.length := by
  cases h with
  | last hname hmid ht =>
    have := hname.length_lt
    have := hmid.length_lt
    have := ht.length_lt
    omega
  | more hname hmid ht hc hmore =>
    have := hname.length_lt
    have := hmid.length_lt
    have := ht.length_lt
    have := hc.length_lt
    have := hmore.length_lt
    omega

end

mutual

/-- What derives a type is read as that type, up to the blanks in front of what is left. -/
theorem Derives.read {t : DataType} {cs rest : List Char} (h : Derives t cs rest) (fuel : Nat)
    (hfuel : cs.length < fuel) :
    ∃ r, readType input fuel cs = .ok (t, r) ∧ Text.skipBlanks r = Text.skipBlanks rest := by
  have hgt : Text.isBlank '>' = false := by decide
  have hcomma : Text.isBlank ',' = false := by decide
  have hclose : Text.isBlank ')' = false := by decide
  obtain ⟨fuel, rfl⟩ := Nat.exists_eq_add_one_of_ne_zero (Nat.ne_zero_of_lt hfuel)
  cases h with
  | leaf hname hleaf => exact ⟨rest, readType_of_leaf hname (ofName_of_mem hleaf), rfl⟩
  | plainDecimal hname hdec hnone =>
    refine ⟨Text.skipBlanks rest, ?_, Text.skipBlanks_skipBlanks rest⟩
    rw [readType_of_decimal hname (ofName_of_mem_decimalNames hdec), readDecimal_eq_ok_iff]
    exact Or.inr ⟨hnone, rfl, rfl⟩
  | decimal hname hdec hopen hp hend h₁ h₂ =>
    refine ⟨rest, ?_, rfl⟩
    rw [readType_of_decimal hname (ofName_of_mem_decimalNames hdec), readDecimal_eq_ok_iff]
    have hscale : ∀ r, ¬ Token [','] _ r := fun r => hend.ne_of_ne hclose hcomma (by decide)
    have hend := (token_congr hclose (Text.skipBlanks_skipBlanks _)).mpr hend
    exact Or.inl ⟨_, 0, _, _, _, hopen, hp, Or.inr ⟨hscale, rfl, rfl⟩, hend,
      ⟨h₁, h₂, Nat.zero_le _⟩, rfl⟩
  | scaledDecimal hname hdec hopen hp hc hs hend h₁ h₂ h₃ =>
    refine ⟨rest, ?_, rfl⟩
    rw [readType_of_decimal hname (ofName_of_mem_decimalNames hdec), readDecimal_eq_ok_iff]
    exact Or.inl ⟨_, _, _, _, _, hopen, hp, Or.inl ⟨_, hc, hs⟩, hend, ⟨h₁, h₂, h₃⟩, rfl⟩
  | array hname harray hopen ht hend =>
    have := hname.length_lt
    have := hopen.length_lt
    obtain ⟨r, hread, hr⟩ := ht.read fuel (by omega)
    refine ⟨rest, ?_, rfl⟩
    rw [readType_of_array hname (by rw [harray]; rfl)]
    exact ⟨_, _, r, hopen, hread, (token_congr hgt hr).mpr hend, rfl⟩
  | map hname hmap hopen hk hmid hv hend =>
    have := hname.length_lt
    have := hopen.length_lt
    have := hk.length_lt
    have := hmid.length_lt
    obtain ⟨k, hkey, hkr⟩ := hk.read fuel (by omega)
    obtain ⟨v, hvalue, hvr⟩ := hv.read fuel (by omega)
    refine ⟨rest, ?_, rfl⟩
    rw [readType_of_map hname (by rw [hmap]; rfl)]
    exact ⟨_, _, k, _, _, v, hopen, hkey, (token_congr hcomma hkr).mpr hmid, hvalue,
      (token_congr hgt hvr).mpr hend, rfl⟩
  | emptyStruct hname hstruct hopen hend =>
    refine ⟨rest, ?_, rfl⟩
    rw [readType_of_struct hname (by rw [hstruct]; rfl)]
    exact ⟨_, hopen, Or.inl ⟨hend, rfl⟩⟩
  | @struct _ _ _ _ r₂ _ _ hname hstruct hopen hfields hend =>
    have := hname.length_lt
    have := hopen.length_lt
    have hskip : (Text.skipBlanks r₂).length ≤ r₂.length := Text.length_skipBlanks_le r₂
    have hcongr := hfields.congr (Text.skipBlanks_skipBlanks r₂).symm
    obtain ⟨r, hread, hr⟩ := hcongr.read fuel (by omega) fun r =>
      hend.ne_of_ne hgt hcomma (by decide)
    refine ⟨rest, ?_, rfl⟩
    rw [readType_of_struct hname (by rw [hstruct]; rfl)]
    exact ⟨_, hopen, Or.inr ⟨hfields.not_closed, _, r, hread, (token_congr hgt hr).mpr hend, rfl⟩⟩

theorem DerivesFields.read {fields : List StructField} {cs rest : List Char}
    (h : DerivesFields fields cs rest) (fuel : Nat) (hfuel : cs.length < fuel)
    (hlast : ∀ r, ¬ Token [','] rest r) :
    ∃ r, readFields input fuel cs = .ok (fields, r) ∧ Text.skipBlanks r = Text.skipBlanks rest := by
  have hcomma : Text.isBlank ',' = false := by decide
  obtain ⟨fuel, rfl⟩ := Nat.exists_eq_add_one_of_ne_zero (Nat.ne_zero_of_lt hfuel)
  cases h with
  | last hname hmid ht =>
    have := hname.length_lt
    have := hmid.length_lt
    obtain ⟨r, hread, hr⟩ := ht.read fuel (by omega)
    refine ⟨Text.skipBlanks r, ?_, (Text.skipBlanks_skipBlanks r).trans hr⟩
    have hlast : ∀ r', ¬ Token [','] r r' := fun r' h => hlast r' ((token_congr hcomma hr).mp h)
    rw [readFields_eq_ok_iff]
    exact ⟨_, _, _, _, r, hname, hmid, hread, Or.inr ⟨hlast, rfl, rfl⟩⟩
  | more hname hmid ht hc hmore =>
    have := hname.length_lt
    have := hmid.length_lt
    have := ht.length_lt
    have := hc.length_lt
    obtain ⟨r, hread, hr⟩ := ht.read fuel (by omega)
    obtain ⟨r', hothers, hr'⟩ := hmore.read fuel (by omega) hlast
    refine ⟨r', ?_, hr'⟩
    rw [readFields_eq_ok_iff]
    exact ⟨_, _, _, _, r, hname, hmid, hread,
      Or.inl ⟨_, _, (token_congr hcomma hr).mpr hc, hothers, rfl⟩⟩

end

end Readers

theorem denotes_of_parse_eq_ok {text : String} {t : DataType} (h : parse text = .ok t) :
    Denotes text t := by
  obtain ⟨⟨type, rest⟩, hread, h⟩ := bind_eq_ok_iff.mp h
  obtain ⟨r, hderives, hr⟩ := derives_of_readType _ hread
  dsimp only at h
  split at h
  · next hrest =>
    obtain rfl := Except.ok.inj h
    exact ⟨r, hderives, Text.skipBlanks_eq_nil_iff.mp (hr.trans hrest)⟩
  · cases h

theorem parse_eq_ok_of_denotes {text : String} {t : DataType} (h : Denotes text t) :
    parse text = .ok t := by
  obtain ⟨rest, hderives, hrest⟩ := h
  obtain ⟨r, hread, hr⟩ := hderives.read _ (Nat.lt_succ_self _)
  refine bind_eq_ok_iff.mpr ⟨_, hread, ?_⟩
  dsimp only
  rw [hr, Text.skipBlanks_eq_nil_iff.mpr hrest]

/-- The reader accepts exactly the texts of the grammar, and a text has one descriptor at most. -/
theorem parse_eq_ok_iff_denotes (text : String) :
    (∀ t, parse text = .ok t ↔ Denotes text t) ∧
      ∀ t t', Denotes text t → Denotes text t' → t = t' := by
  refine ⟨fun t => ⟨denotes_of_parse_eq_ok, parse_eq_ok_of_denotes⟩, fun t t' h h' => ?_⟩
  have heq : parse text = .ok t := parse_eq_ok_of_denotes h
  rw [parse_eq_ok_of_denotes h'] at heq
  exact (Except.ok.inj heq).symm

end DataType

end Columnar
