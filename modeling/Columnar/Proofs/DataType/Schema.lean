import Columnar.DataType.Schema
import Columnar.Proofs.DataType.RoundTrip

/-! The JSON form of a descriptor keeps everything. It is read back exactly when the decimals are
within the bounds, and whatever can be read has such decimals. -/
namespace Columnar.DataType

/-- A reading that ends with the complaint that a text or a value is malformed. -/
def Malformed {α : Type} (reading : Except TypeError α) : Prop :=
  ∃ input fault, reading = .error (.malformed input fault)

theorem Malformed.bind {α β : Type} {reading : Except TypeError α} (h : Malformed reading)
    (next : α → Except TypeError β) : Malformed (reading.bind next) := by
  obtain ⟨input, fault, rfl⟩ := h
  exact ⟨input, fault, rfl⟩

theorem Malformed.map {α β : Type} {reading : Except TypeError α} (h : Malformed reading)
    (f : α → β) : Malformed (reading.map f) := by
  obtain ⟨input, fault, rfl⟩ := h
  exact ⟨input, fault, rfl⟩

/-! The name of a type that holds no others is read by the reader of texts. -/

section Decimal

variable {input : String}

theorem byteValue?_digits (n : Nat) :
    byteValue? (Number.digits n) = if n < 256 then some n else none := by
  have hunsigned : unsigned (Number.digits n) = Number.digits n := by
    unfold unsigned
    split
    · next ds hds =>
      have hplus : '+' ∈ Number.digits n := by simp [hds]
      exact absurd (Number.isDigit_of_mem_digits hplus) (by decide)
    · rfl
  have hread : Number.ofDigits? (Number.digits n) = some n :=
    ofDigits?_eq_some_iff.mpr ⟨Number.digits_ne_nil n, fun _ => Number.isDigit_of_mem_digits,
      Number.ofDigits_digits n⟩
  ext m
  rw [byteValue?_eq_some_iff_unsigned, hunsigned, hread]
  grind

theorem readNumber_digits (n : Nat) {rest : List Char}
    (hrest : rest.head?.any Text.isWord = false) :
    readNumber input (Number.digits n ++ rest) =
      if n < 256 then .ok (n, rest)
      else .error (.malformed input (.badNumber (Number.natural n))) := by
  have hname : readName input (Number.digits n ++ rest) = .ok (Number.natural n, rest) := by
    rw [readName_eq_ok_iff, ← Number.toList_natural]
    refine typeName_append _ (fun h => ?_) (fun c hc => ?_) hrest
    · rw [← String.toList_inj, Number.toList_natural] at h
      exact Number.digits_ne_nil n h
    · rw [Number.toList_natural] at hc
      exact Number.isWord_of_mem_digits hc
  unfold readNumber
  rw [hname]
  simp only [Number.toList_natural, byteValue?_digits]
  by_cases hn : n < 256 <;> simp [hn]

theorem skipBlanks_cons {c : Char} (hc : Text.isBlank c = false) (cs : List Char) :
    Text.skipBlanks (c :: cs) = c :: cs :=
  Text.skipBlanks_eq_self hc

theorem expect_cons {c : Char} (hc : Text.isBlank c = false) (cs : List Char) :
    expect input c (c :: cs) = .ok cs := by
  rw [expect, skipBlanks_cons hc]
  exact if_pos rfl

theorem readScale_comma (cs : List Char) : readScale input (',' :: cs) = readNumber input cs := by
  rw [readScale, skipBlanks_cons (by decide)]
  rfl

/-- A precision or a scale out of bounds is refused, whether or not it fits into a byte. -/
theorem malformed_readDecimal {p s : Nat} (h : ¬ DecimalsFit (decimal p s)) (rest : List Char) :
    Malformed (readDecimal input
      ('(' :: (Number.digits p ++ ',' :: (Number.digits s ++ ')' :: rest)))) := by
  have hbounds : isDecimal p s = false := by
    rw [Bool.eq_false_iff]
    exact fun hd => h (isDecimal_iff.mp hd)
  rw [readDecimal, skipBlanks_cons (by decide)]
  change Malformed (readNumber input _ >>= _)
  rw [readNumber_digits p rfl]
  by_cases hp : p < 256
  · rw [if_pos hp]
    change Malformed (readScale input _ >>= _)
    rw [readScale_comma, readNumber_digits s rfl]
    by_cases hs : s < 256
    · refine ⟨input, .badDecimal p s, ?_⟩
      simp [hs, expect_cons (show Text.isBlank ')' = false by decide), hbounds, bind, Except.bind]
    · rw [if_neg hs]
      exact ⟨_, _, rfl⟩
  · rw [if_neg hp]
    exact ⟨_, _, rfl⟩

end Decimal

theorem malformed_parse_decimal {p s : Nat} (h : ¬ DecimalsFit (decimal p s)) :
    Malformed (parse (decimal p s).leafText) := by
  have htext : (decimal p s).leafText.toList = "decimal".toList ++
      '(' :: (Number.digits p ++ ',' :: (Number.digits s ++ [')'])) := by
    simp [leafText]
  have hname : ∀ rest, TypeName "decimal" ("decimal".toList ++ '(' :: rest) ('(' :: rest) :=
    fun rest => typeName_append "decimal" (by decide) (by decide) rfl
  unfold parse
  refine Malformed.bind ?_ _
  rw [htext, readType, readName_eq_ok_iff.mpr (hname _)]
  exact malformed_readDecimal h []

/-- The name of a type that holds no others denotes it. -/
theorem parse_jsonName {t : DataType} (hleaf : t.isPrimitive = true) (hfit : t.DecimalsFit) :
    parse t.jsonName = .ok t := by
  apply parse_eq_ok_of_denotes
  refine ⟨[], ?_, by simp⟩
  rw [← List.append_nil t.jsonName.toList]
  cases t with
  | array _ _ | map _ _ _ | struct _ => cases hleaf
  | decimal p s => exact derives_decimal hfit []
  | _ => exact .leaf (typeName_append _ (by decide) (by decide) rfl) (by decide)

/-! Containers are read part by part. -/

theorem ofJson_array (element : DataType) (containsNull : Bool) :
    ofJson (array element containsNull).toJson =
      (ofJson element.toJson).map fun t => array t containsNull := by
  rfl

theorem ofJson_map (key value : DataType) (containsNull : Bool) :
    ofJson (map key value containsNull).toJson =
      (ofJson key.toJson).bind fun k =>
        (ofJson value.toJson).map fun v => map k v containsNull := by
  rfl

theorem ofJson_struct (fields : List StructField) :
    ofJson (struct fields).toJson = (fieldsOfJson (fieldsToJson fields)).map struct := by
  rfl

theorem fieldOfJson_mk (name : String) (type : DataType) (nullable : Bool) :
    fieldOfJson (fieldToJson (.mk name type nullable)) =
      (ofJson type.toJson).map fun t => .mk name t nullable := by
  rfl

theorem fieldsOfJson_cons (field : StructField) (fields : List StructField) :
    fieldsOfJson (fieldsToJson (field :: fields)) =
      (fieldOfJson (fieldToJson field)).bind fun f =>
        (fieldsOfJson (fieldsToJson fields)).map fun fs => f :: fs := by
  rfl

mutual

/-- A descriptor is read back from its JSON form, flags and names included. -/
theorem ofJson_toJson (t : DataType) (hfit : t.DecimalsFit) : ofJson t.toJson = .ok t := by
  cases t with
  | array element containsNull =>
    rw [ofJson_array, ofJson_toJson element hfit]
    rfl
  | map key value containsNull =>
    rw [ofJson_map, ofJson_toJson key hfit.1, ofJson_toJson value hfit.2]
    rfl
  | struct fields =>
    rw [ofJson_struct, fieldsOfJson_toJson fields hfit]
    rfl
  | _ =>
    simp only [toJson, ofJson]
    exact parse_jsonName rfl hfit

theorem fieldOfJson_toJson (f : StructField) (hfit : DecimalsFitField f) :
    fieldOfJson (fieldToJson f) = .ok f := by
  cases f with
  | mk name type nullable =>
    rw [fieldOfJson_mk, ofJson_toJson type hfit]
    rfl

theorem fieldsOfJson_toJson (fs : List StructField) (hfit : DecimalsFitFields fs) :
    fieldsOfJson (fieldsToJson fs) = .ok fs := by
  cases fs with
  | nil => rfl
  | cons f fs =>
    rw [fieldsOfJson_cons, fieldOfJson_toJson f hfit.1, fieldsOfJson_toJson fs hfit.2]
    rfl

end

mutual

theorem malformed_ofJson (t : DataType) (h : ¬ t.DecimalsFit) : Malformed (ofJson t.toJson) := by
  cases t with
  | decimal p s => exact malformed_parse_decimal h
  | array element containsNull =>
    rw [ofJson_array]
    exact (malformed_ofJson element h).map _
  | map key value containsNull =>
    rw [ofJson_map]
    by_cases hkey : key.DecimalsFit
    · have hvalue : ¬ value.DecimalsFit := fun hvalue => h ⟨hkey, hvalue⟩
      rw [ofJson_toJson key hkey]
      exact (malformed_ofJson value hvalue).map _
    · exact (malformed_ofJson key hkey).bind _
  | struct fields =>
    rw [ofJson_struct]
    exact (malformed_fieldsOfJson fields h).map _
  | _ => exact absurd trivial h

theorem malformed_fieldOfJson (f : StructField) (h : ¬ DecimalsFitField f) :
    Malformed (fieldOfJson (fieldToJson f)) := by
  cases f with
  | mk name type nullable =>
    rw [fieldOfJson_mk]
    exact (malformed_ofJson type h).map _

theorem malformed_fieldsOfJson (fs : List StructField) (h : ¬ DecimalsFitFields fs) :
    Malformed (fieldsOfJson (fieldsToJson fs)) := by
  cases fs with
  | nil => exact absurd trivial h
  | cons f fs =>
    rw [fieldsOfJson_cons]
    by_cases hf : DecimalsFitField f
    · have hfs : ¬ DecimalsFitFields fs := fun hfs => h ⟨hf, hfs⟩
      rw [fieldOfJson_toJson f hf]
      exact (malformed_fieldsOfJson fs hfs).map _
    · exact (malformed_fieldOfJson f hf).bind _

end

theorem decimalsFit_of_parse {text : String} {t : DataType} (h : parse text = .ok t) :
    t.DecimalsFit := by
  obtain ⟨rest, hderives, -⟩ := denotes_of_parse_eq_ok h
  exact hderives.image.2

theorem required_eq_ok {whole : Json} {key : String} {found : Option (Except TypeError DataType)}
    {t : DataType} (h : required whole key found = .ok t) : found = some (.ok t) := by
  cases found with
  | none => cases h
  | some reading => exact congrArg some h

mutual

/-- Whatever is read from a JSON value has its decimals within the bounds. -/
theorem decimalsFit_of_ofJson (v : Json) {t : DataType} (h : ofJson v = .ok t) :
    t.DecimalsFit := by
  cases v with
  | text name => exact decimalsFit_of_parse h
  | object members =>
    rw [ofJson] at h
    split at h
    · obtain ⟨element, helement, h⟩ := bind_eq_ok_iff.mp h
      obtain rfl := Except.ok.inj h
      have hfit := decimalsFit_of_child members (required_eq_ok helement)
      exact hfit
    · obtain ⟨key, hkey, h⟩ := bind_eq_ok_iff.mp h
      obtain ⟨value, hvalue, h⟩ := bind_eq_ok_iff.mp h
      obtain rfl := Except.ok.inj h
      exact ⟨decimalsFit_of_child members (required_eq_ok hkey),
        decimalsFit_of_child members (required_eq_ok hvalue)⟩
    · split at h
      · next fields hfields =>
        obtain ⟨fs, rfl, rfl⟩ := map_eq_ok_iff.mp h
        exact decimalsFit_of_children members hfields
      · cases h
    · cases h
  | _ => cases h

theorem decimalsFit_of_child (members : List (String × Json)) {key : String} {t : DataType}
    (h : child key members = some (.ok t)) : t.DecimalsFit := by
  match members with
  | [] => cases h
  | (k, v) :: rest =>
    rw [child] at h
    split at h
    · exact decimalsFit_of_ofJson v (Option.some.inj h)
    · exact decimalsFit_of_child rest h

theorem decimalsFit_of_children (members : List (String × Json)) {fs : List StructField}
    (h : children members = some (.ok fs)) : DecimalsFitFields fs := by
  match members with
  | [] => cases h
  | (k, v) :: rest =>
    unfold children at h
    split at h
    · split at h
      · next items => exact decimalsFit_of_fieldsOfJson items (Option.some.inj h)
      · cases h
    · exact decimalsFit_of_children rest h

theorem decimalsFit_of_fieldsOfJson (items : List Json) {fs : List StructField}
    (h : fieldsOfJson items = .ok fs) : DecimalsFitFields fs := by
  cases items with
  | nil =>
    obtain rfl := Except.ok.inj h
    trivial
  | cons item rest =>
    rw [fieldsOfJson] at h
    obtain ⟨f, hf, h⟩ := bind_eq_ok_iff.mp h
    obtain ⟨fs, hfs, h⟩ := bind_eq_ok_iff.mp h
    obtain rfl := Except.ok.inj h
    exact ⟨decimalsFit_of_fieldOfJson item hf, decimalsFit_of_fieldsOfJson rest hfs⟩

theorem decimalsFit_of_fieldOfJson (item : Json) {f : StructField}
    (h : fieldOfJson item = .ok f) : DecimalsFitField f := by
  cases item with
  | object members =>
    rw [fieldOfJson] at h
    split at h
    · cases h
    · split at h
      · cases h
      · next type htype =>
        obtain ⟨t, rfl, rfl⟩ := map_eq_ok_iff.mp h
        exact decimalsFit_of_child members htype
  | _ => cases h

end

/-- The JSON form of a descriptor is read back as it is exactly when its decimals are within the
bounds, and is malformed otherwise. What is read from any value is read back from its own form. -/
theorem ofJson_toJson_iff (t : DataType) :
    (ofJson t.toJson = .ok t ↔ t.DecimalsFit) ∧
      (¬ t.DecimalsFit → Malformed (ofJson t.toJson)) ∧
      ∀ v, ofJson v = .ok t → ofJson t.toJson = .ok t := by
  refine ⟨⟨fun h => ?_, ofJson_toJson t⟩, malformed_ofJson t, fun v h => ?_⟩
  · exact decimalsFit_of_ofJson t.toJson h
  · exact ofJson_toJson t (decimalsFit_of_ofJson v h)

theorem ofJson_toJson_iff_nested :
    DecimalsFit (struct [.mk "" (array (decimal 38 38) false) false, .mk "b\x60" byte true]) ∧
      ofJson (struct [.mk "" (array (decimal 38 38) false) false, .mk "b\x60" byte true]).toJson =
        .ok (struct [.mk "" (array (decimal 38 38) false) false, .mk "b\x60" byte true]) ∧
      ¬ DecimalsFit (map string (array (decimal 5 6) true) false) ∧
      Malformed (ofJson (map string (array (decimal 5 6) true) false).toJson) ∧
      ofJson (.object [("elementType", .text " BIGINT "), ("containsNull", .text "no"),
        ("type", .text "array"), ("extra", .null)]) = .ok (array long true) ∧
      ofJson (array long true).toJson = .ok (array long true) := by
  have hfit : DecimalsFit
      (struct [.mk "" (array (decimal 38 38) false) false, .mk "b\x60" byte true]) :=
    ⟨⟨by decide, by decide, by decide⟩, trivial, trivial⟩
  have hwide : ¬ DecimalsFit (map string (array (decimal 5 6) true) false) :=
    fun h => absurd h.2.2.2 (by decide)
  have hread : ofJson (.object [("elementType", .text " BIGINT "), ("containsNull", .text "no"),
      ("type", .text "array"), ("extra", .null)]) = .ok (array long true) := by
    rfl
  exact ⟨hfit, (ofJson_toJson_iff _).1.mpr hfit, hwide, (ofJson_toJson_iff _).2.1 hwide, hread,
    (ofJson_toJson_iff _).2.2 _ hread⟩

end Columnar.DataType
