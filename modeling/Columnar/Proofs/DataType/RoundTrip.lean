import Columnar.DataType.Printer
import Columnar.Proofs.DataType.Grammar
import Columnar.Proofs.Number.Digits

/-! What is read back from the written form of a descriptor: the descriptor itself, with nulls
allowed everywhere, since the written form says nothing about them. -/
namespace Columnar.DataType

mutual

/-- The descriptor with nulls allowed in every container. -/
def relaxed : DataType → DataType
  | array element _ => array element.relaxed true
  | map key value _ => map key.relaxed value.relaxed true
  | struct fields => struct (relaxedFields fields)
  | t => t

def relaxedField : StructField → StructField
  | .mk name type _ => .mk name type.relaxed true

def relaxedFields : List StructField → List StructField
  | [] => []
  | f :: fs => relaxedField f :: relaxedFields fs

end

mutual

/-- Every container allows nulls. -/
def AllNullable : DataType → Prop
  | array element containsNull => containsNull = true ∧ element.AllNullable
  | map key value containsNull => containsNull = true ∧ key.AllNullable ∧ value.AllNullable
  | struct fields => AllNullableFields fields
  | _ => True

def AllNullableField : StructField → Prop
  | .mk _ type nullable => nullable = true ∧ type.AllNullable

def AllNullableFields : List StructField → Prop
  | [] => True
  | f :: fs => AllNullableField f ∧ AllNullableFields fs

end

mutual

/-- Every decimal has a precision and a scale within the bounds. -/
def DecimalsFit : DataType → Prop
  | decimal precision scale => 1 ≤ precision ∧ precision ≤ maxPrecision ∧ scale ≤ precision
  | array element _ => element.DecimalsFit
  | map key value _ => key.DecimalsFit ∧ value.DecimalsFit
  | struct fields => DecimalsFitFields fields
  | _ => True

def DecimalsFitField : StructField → Prop
  | .mk _ type _ => type.DecimalsFit

def DecimalsFitFields : List StructField → Prop
  | [] => True
  | f :: fs => DecimalsFitField f ∧ DecimalsFitFields fs

end

mutual

theorem AllNullable.relaxed_eq : ∀ {t : DataType}, AllNullable t → t.relaxed = t := by
  intro t h
  cases t <;> try rfl
  case array element _ =>
    obtain ⟨rfl, h⟩ := h
    rw [relaxed, h.relaxed_eq]
  case map key value _ =>
    obtain ⟨rfl, hk, hv⟩ := h
    rw [relaxed, hk.relaxed_eq, hv.relaxed_eq]
  case struct fields =>
    rw [relaxed, relaxedFields_eq h]

theorem relaxedField_eq : ∀ {f : StructField}, AllNullableField f → relaxedField f = f := by
  intro f h
  cases f with
  | mk name type nullable =>
    obtain ⟨rfl, h⟩ := h
    rw [relaxedField, h.relaxed_eq]

theorem relaxedFields_eq : ∀ {fs : List StructField}, AllNullableFields fs →
    relaxedFields fs = fs := by
  intro fs h
  cases fs with
  | nil => rfl
  | cons f fs => rw [relaxedFields, relaxedField_eq h.1, relaxedFields_eq h.2]

end

theorem leafNames_all : ∀ entry ∈ leafNames, AllNullable entry.2 ∧ DecimalsFit entry.2 := by
  unfold leafNames
  repeat refine List.forall_mem_cons.mpr ⟨⟨trivial, trivial⟩, ?_⟩
  exact List.forall_mem_nil _

mutual

/-- What the grammar derives allows nulls everywhere, and its decimals are within the bounds. -/
theorem Derives.image {t : DataType} {cs rest : List Char} (h : Derives t cs rest) :
    AllNullable t ∧ DecimalsFit t := by
  cases h with
  | leaf _ hleaf => exact leafNames_all _ hleaf
  | plainDecimal _ _ _ => exact ⟨trivial, by decide, by decide, by decide⟩
  | decimal _ _ _ _ _ h₁ h₂ => exact ⟨trivial, h₁, h₂, Nat.zero_le _⟩
  | scaledDecimal _ _ _ _ _ _ _ h₁ h₂ h₃ => exact ⟨trivial, h₁, h₂, h₃⟩
  | array _ _ _ ht _ =>
    obtain ⟨hn, hd⟩ := ht.image
    exact ⟨⟨rfl, hn⟩, hd⟩
  | map _ _ _ hk _ hv _ =>
    obtain ⟨hn, hd⟩ := hk.image
    obtain ⟨hn', hd'⟩ := hv.image
    exact ⟨⟨rfl, hn, hn'⟩, hd, hd'⟩
  | emptyStruct _ _ _ _ => exact ⟨trivial, trivial⟩
  | struct _ _ _ hfields _ => exact hfields.image

theorem DerivesFields.image {fields : List StructField} {cs rest : List Char}
    (h : DerivesFields fields cs rest) : AllNullableFields fields ∧ DecimalsFitFields fields := by
  cases h with
  | last _ _ ht =>
    obtain ⟨hn, hd⟩ := ht.image
    exact ⟨⟨⟨rfl, hn⟩, trivial⟩, hd, trivial⟩
  | more _ _ ht _ hmore =>
    obtain ⟨hn, hd⟩ := ht.image
    obtain ⟨hn', hd'⟩ := hmore.image
    exact ⟨⟨⟨rfl, hn⟩, hn'⟩, hd, hd'⟩

end

/-! Each printed piece is a phrase of the grammar in front of any text that does not prolong it. -/

theorem token_append (token rest : List Char) : Token token (token ++ rest) rest :=
  ⟨[], by simp, by simp⟩

theorem BareName.typeName {name : String} {rest : List Char} (h : BareName name rest) :
    TypeName name (name.toList ++ rest) rest :=
  Or.inl ⟨token_append _ _, h⟩

theorem numeral_digits {n : Nat} (hn : n < 256) {rest : List Char}
    (hrest : rest.head?.any Text.isWord = false) : Numeral n (Number.digits n ++ rest) rest := by
  have hbare : BareName (Number.natural n) rest := by
    refine ⟨fun h => ?_, fun c hc => ?_, hrest⟩
    · rw [← String.toList_inj, Number.toList_natural] at h
      exact Number.digits_ne_nil n h
    · rw [Number.toList_natural] at hc
      exact Number.isWord_of_mem_digits hc
  have hname := hbare.typeName
  rw [Number.toList_natural] at hname
  refine ⟨Number.natural n, hname, Number.digits n, Or.inl (Number.toList_natural n), ?_⟩
  exact ⟨Number.digits_ne_nil n, fun d => Number.isDigit_of_mem_digits, Number.ofDigits_digits n,
    hn⟩

theorem fieldName_quoteIdentifier (name : String) (rest : List Char) :
    FieldName name ((Text.quoteIdentifier name false).toList ++ ':' :: rest) (':' :: rest) := by
  unfold Text.quoteIdentifier
  split
  · next hplain =>
    have hplain : Text.isPlain name.toList := by simpa using hplain
    have hne : name ≠ "" := by
      rintro rfl
      cases hplain
    exact Or.inl ⟨token_append _ _, hne, Text.isWord_of_isPlain hplain, rfl⟩
  · right
    refine ⟨?_, by simp⟩
    rw [Text.toList_backquote]
    exact token_append _ _

/-- A name of word characters alone is a type name in front of a text that does not prolong it. -/
theorem typeName_append (name : String) (hne : name ≠ "")
    (hword : ∀ c ∈ name.toList, Text.isWord c) {rest : List Char}
    (hrest : rest.head?.any Text.isWord = false) : TypeName name (name.toList ++ rest) rest :=
  BareName.typeName ⟨hne, hword, hrest⟩

theorem derives_leafText {t : DataType} (hleaf : (Text.lower t.leafText, t) ∈ leafNames)
    (hne : t.leafText ≠ "") (hword : ∀ c ∈ t.leafText.toList, Text.isWord c) {rest : List Char}
    (hrest : rest.head?.any Text.isWord = false) : Derives t (t.leafText.toList ++ rest) rest :=
  .leaf (typeName_append t.leafText hne hword hrest) hleaf

theorem derives_decimal {p s : Nat} (hfit : DecimalsFit (decimal p s)) (rest : List Char) :
    Derives (decimal p s) ((decimal p s).leafText.toList ++ rest) rest := by
  obtain ⟨hp, hmax, hs⟩ := hfit
  have h38 : maxPrecision = 38 := rfl
  simp only [leafText, String.toList_append, Number.toList_natural, List.append_assoc]
  refine .scaledDecimal (typeName_append "decimal" (by decide) (by decide) rfl) (by decide)
    (token_append ['('] _) (numeral_digits (by omega) rfl) (token_append [','] _)
    (numeral_digits (by omega) rfl) (token_append [')'] _) hp (by omega) hs

mutual

/-- The written form of a descriptor derives it with nulls allowed, in front of any text that does
not prolong its last name. -/
theorem derives_text (t : DataType) (hfit : t.DecimalsFit) (rest : List Char)
    (hrest : rest.head?.any Text.isWord = false) :
    Derives t.relaxed (t.text.toList ++ rest) rest := by
  cases t with
  | decimal p s => exact derives_decimal hfit rest
  | array element containsNull =>
    have ht := derives_text element hfit ('>' :: rest) rfl
    simp only [text, String.toList_append, List.append_assoc]
    exact .array (typeName_append "array" (by decide) (by decide) rfl) (by decide)
      (token_append ['<'] _) ht (token_append ['>'] _)
  | map key value valueContainsNull =>
    have hv := derives_text value hfit.2 ('>' :: rest) rfl
    have hk := derives_text key hfit.1 (',' :: (value.text.toList ++ '>' :: rest)) rfl
    simp only [text, String.toList_append, List.append_assoc]
    exact .map (typeName_append "map" (by decide) (by decide) rfl) (by decide)
      (token_append ['<'] _) hk (token_append [','] _) hv (token_append ['>'] _)
  | struct fields =>
    simp only [text, String.toList_append, List.append_assoc]
    have hname (r : List Char) : TypeName "struct" ("struct".toList ++ '<' :: r) ('<' :: r) :=
      typeName_append "struct" (by decide) (by decide) rfl
    by_cases hfields : fields = []
    · subst hfields
      exact .emptyStruct (hname _) (by decide) (token_append ['<'] _) (token_append ['>'] _)
    · have hfields := derivesFields_fieldsText fields hfields hfit ('>' :: rest) rfl
      exact .struct (hname _) (by decide) (token_append ['<'] _) hfields (token_append ['>'] _)
  | _ => exact derives_leafText (by decide) (by decide) (by decide) hrest

theorem derivesFields_fieldsText (fields : List StructField) (hne : fields ≠ [])
    (hfit : DecimalsFitFields fields) (rest : List Char)
    (hrest : rest.head?.any Text.isWord = false) :
    DerivesFields (relaxedFields fields) ((fieldsText fields).toList ++ rest) rest := by
  match fields with
  | [] => exact absurd rfl hne
  | [.mk name type nullable] =>
    have ht := derives_text type hfit.1 rest hrest
    simp only [fieldsText, fieldText, String.toList_append, List.append_assoc]
    exact .last (fieldName_quoteIdentifier name _) (token_append [':'] _) ht
  | .mk name type nullable :: g :: gs =>
    have hmore := derivesFields_fieldsText (g :: gs) (by simp) hfit.2 rest hrest
    have ht := derives_text type hfit.1 (',' :: ((fieldsText (g :: gs)).toList ++ rest)) rfl
    simp only [fieldsText, fieldText, String.toList_append, List.append_assoc]
    exact .more (fieldName_quoteIdentifier name _) (token_append [':'] _) ht (token_append [','] _)
      hmore

end

theorem denotes_text {t : DataType} (hfit : t.DecimalsFit) : Denotes t.text t.relaxed := by
  have h := derives_text t hfit [] rfl
  rw [List.append_nil] at h
  exact ⟨[], h, by simp⟩

/-- A descriptor that can be written is read back with nulls allowed everywhere. What is read from
any text is such a descriptor already, so that writing and reading it again changes nothing. -/
theorem parse_text_eq_relaxed (t : DataType) :
    (t.DecimalsFit → parse t.text = .ok t.relaxed) ∧
      ∀ s, parse s = .ok t → t.AllNullable ∧ t.DecimalsFit ∧ parse t.text = .ok t := by
  refine ⟨fun hfit => parse_eq_ok_of_denotes (denotes_text hfit), fun s hs => ?_⟩
  obtain ⟨rest, hderives, -⟩ := denotes_of_parse_eq_ok hs
  obtain ⟨hnullable, hfit⟩ := hderives.image
  have hread := parse_eq_ok_of_denotes (denotes_text hfit)
  rw [hnullable.relaxed_eq] at hread
  exact ⟨hnullable, hfit, hread⟩

theorem parse_text_eq_relaxed_struct :
    DecimalsFit (struct [.mk "a\x60:b" (array (decimal 10 2) false) false, .mk "" long true]) ∧
      parse "struct<\x60a\x60\x60:b\x60:array<decimal(10,2)>,\x60\x60:bigint>" =
        .ok (struct [.mk "a\x60:b" (array (decimal 10 2) true) true, .mk "" long true]) ∧
      parse " MAP < text , \x60Numeric\x60 > " = .ok (map string (decimal 10 0) true) ∧
      parse "map<string,decimal(10,0)>" = .ok (map string (decimal 10 0) true) := by
  have hfit : DecimalsFit (struct
      [.mk "a\x60:b" (array (decimal 10 2) false) false, .mk "" long true]) :=
    ⟨⟨by decide, by decide, by decide⟩, trivial, trivial⟩
  have hread : parse " MAP < text , \x60Numeric\x60 > " = .ok (map string (decimal 10 0) true) := by
    rfl
  exact ⟨hfit, (parse_text_eq_relaxed _).1 hfit, hread,
    ((parse_text_eq_relaxed _).2 _ hread).2.2⟩

end Columnar.DataType
