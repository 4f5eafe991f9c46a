import Columnar.Column.Term
import Columnar.Proofs.Column.RenamedForm
import Columnar.Proofs.Record.Binding
import Columnar.Proofs.Record.Declared
import Columnar.Proofs.Result

/-! What a script supplies besides operations: host values and types. When no name of a supply occurs
in the strings of a host value or in the field names of a type, none occurs in the text of the literal
or of the type. -/
namespace Columnar

mutual

/-- The strings in a host value. -/
def Json.strings : Json → List String
  | .text a => [a]
  | .list items => Json.stringsOf items
  | _ => []

def Json.stringsOf : List Json → List String
  | [] => []
  | j :: js => j.strings ++ Json.stringsOf js

end

mutual

/-- The names of all fields that a type mentions. -/
def ColumnType.names : ColumnType → List String
  | .leaf _ => []
  | .array element => element.names
  | .map _ value => value.names
  | .struct record => record.names

def RecordType.names : RecordType → List String
  | .mk _ declared _ => DeclaredMember.namesOf declared

def DeclaredMember.namesOf : List DeclaredMember → List String
  | [] => []
  | .column head type :: rest => head.field :: (type.names ++ DeclaredMember.namesOf rest)
  | .typeDescriptor _ :: rest | .other _ _ :: rest => DeclaredMember.namesOf rest

end

namespace Supplies

open Number

variable {s : Supplies} {bound : Nat}

/-! Literals. -/

theorem fixed_of_marks {a : String} (h : Marks a) : s.Fixed a := fixed_of_not_mem h.not_mem_underscore

theorem fixed_suffixed {a suffix : String} (h : Marks a) (hsuffix : '_' ∉ suffix.toList) :
    s.Fixed (a ++ suffix) := by
  refine fixed_of_not_mem ?_
  rw [String.toList_append, List.mem_append, not_or]
  exact ⟨h.not_mem_underscore, hsuffix⟩

theorem fixed_floatingText {w : Width} (x : Floating w) {suffix type : String}
    (hsuffix : '_' ∉ suffix.toList) (htype : '_' ∉ type.toList) :
    s.Fixed (Literal.floatingText x suffix type) := by
  unfold Literal.floatingText
  split
  · refine fixed_of_not_mem ?_
    simp [String.toList_append, htype]
  · next hnan =>
    split
    · refine fixed_of_not_mem ?_
      split <;> simp [String.toList_append, htype]
    · next hinf =>
      exact fixed_suffixed (Literal.marks_floating (Bool.eq_false_iff.mpr hnan)
        (Bool.eq_false_iff.mpr hinf)) hsuffix

theorem fixed_timestamp (t : Timestamp) : s.Fixed t.text := by
  have hpadded (width n : Nat) : s.Fixed (padded width n) := fixed_of_marks (marks_padded width n)
  have hfraction := Timestamp.marks_fractionText (t.nanosecond % 1000000000)
  have hclock := (((fixed_of_marks t.date.marks_text).joined " " (by decide)
    (hpadded 2 t.hour)).joined ":" (by decide) (hpadded 2 t.minute)).joined ":" (by decide)
    (hpadded 2 (t.second + t.nanosecond / 1000000000))
  refine hclock.append (fixed_of_marks hfraction) (.inr ?_)
  unfold Timestamp.fractionText
  split
  · rfl
  · split
    · rw [String.toList_append]
      rfl
    · split <;> rw [String.toList_append] <;> rfl

theorem fixed_interval (i : Interval) : s.Fixed i.text := by
  have hsigned (n : Int) : s.Fixed (signed n) := fixed_of_marks (marks_signed n)
  exact ((((hsigned i.months.toInt).behind "INTERVAL " (by decide)).joined " MONTHS " (by decide)
    (hsigned i.days.toInt)).joined " DAYS " (by decide) (hsigned i.microseconds.toInt)).before
    " MICROSECONDS" (by decide)

theorem fixed_binary (bytes : List UInt8) : s.Fixed (Literal.text (.binary bytes)) := by
  have hdigit : ∀ n < 16, Literal.hexDigit n ≠ '_' := by decide
  refine fixed_of_not_mem ?_
  simp only [Literal.text, String.toList_append, String.toList_ofList, List.mem_append,
    List.mem_flatMap, not_or, not_exists, not_and]
  refine ⟨⟨by decide, fun b _ hb => ?_⟩, by decide⟩
  have := b.toNat_lt
  rcases List.mem_pair.mp hb with hb | hb
  · exact hdigit _ (by omega) hb.symm
  · exact hdigit _ (by omega) hb.symm

/-- The literal of a host value of a leaf, in whose strings no name of a supply occurs. -/
theorem fixed_leaf {l : Leaf} {j : Json} {v : l.Value}
    (hj : ∀ a ∈ j.strings, s.Fixed (Text.quoteString a)) (h : l.read? j = some v) :
    s.Fixed (l.toLiteral v).text := by
  have hsigned (n : Int) : Marks (signed n) := marks_signed n
  cases l with
  | boolean => cases v <;> exact fixed_of_words (by decide)
  | byte => exact fixed_suffixed (hsigned _) (by decide)
  | short => exact fixed_suffixed (hsigned _) (by decide)
  | integer => exact fixed_of_marks (hsigned _)
  | long => exact fixed_suffixed (hsigned _) (by decide)
  | float => exact fixed_floatingText v (by decide) (by decide)
  | double => exact fixed_floatingText v (by decide) (by decide)
  | decimal => exact fixed_suffixed (Decimal.marks_text v) (by decide)
  | string =>
    cases j with
    | text a => exact Option.some.inj h ▸ hj a (List.mem_singleton_self a)
    | _ => cases h
  | binary => exact fixed_binary v
  | date => exact (fixed_of_marks (Date.marks_text v)).enclosed "DATE '" "'" (by decide) (by decide)
  | timestamp => exact (fixed_timestamp v).enclosed "TIMESTAMP '" "'" (by decide) (by decide)
  | interval => exact fixed_interval v

theorem fixed_items {t : LiteralType} (ht : ∀ {j : Json} {v : t.Value},
    (∀ a ∈ j.strings, s.Fixed (Text.quoteString a)) → t.read? j = some v →
      s.Fixed (t.toLiteral v).text) {items : List Json} {vs : List t.Value}
    (hitems : ∀ a ∈ Json.stringsOf items, s.Fixed (Text.quoteString a))
    (h : items.mapM t.read? = some vs) : ∀ l ∈ vs.map t.toLiteral, s.Fixed l.text := by
  induction items generalizing vs with
  | nil =>
    obtain rfl := Option.some.inj h
    exact nofun
  | cons j items ih =>
    rw [Json.stringsOf, List.forall_mem_append] at hitems
    obtain ⟨v, hv, vs, hvs, rfl⟩ := mapM_cons_eq_some_iff.mp h
    rw [List.map_cons, List.forall_mem_cons]
    exact ⟨ht hitems.1 hv, ih hitems.2 hvs⟩

theorem fixed_literal {t : LiteralType} {j : Json} {v : t.Value}
    (hj : ∀ a ∈ j.strings, s.Fixed (Text.quoteString a)) (h : t.read? j = some v) :
    s.Fixed (t.toLiteral v).text := by
  induction t generalizing j with
  | leaf l => exact fixed_leaf hj h
  | instant =>
    exact (fixed_timestamp v.atZeroMeridian).enclosed "TIMESTAMP '" "'" (by decide) (by decide)
  | array t ih =>
    cases j with
    | list items =>
      have hitems : s.Fixed (Literal.itemsText (List.map t.toLiteral v)) := by
        rw [Literal.itemsText_eq]
        refine RenamedTexts.intercalate (.of_fixed ?_) ", " (by decide)
        rw [List.forall_mem_map]
        exact fixed_items ih hj h
      exact hitems.enclosed "array(" ")" (by decide) (by decide)
    | _ => cases h

/-- A host value as an expression, at whatever type it is taken. -/
theorem renamedExpr_promote? {t : ColumnType} {j : Json} {e : Expr}
    (hj : ∀ a ∈ j.strings, s.Fixed (Text.quoteString a)) (h : t.promote? j = some e) :
    s.RenamedExpr bound e e := by
  unfold ColumnType.promote? at h
  split at h
  · obtain ⟨v, hv, rfl⟩ := Option.map_eq_some_iff.mp h
    exact .literal_of_fixed (fixed_literal hj hv)
  · cases h

/-! Types. -/

/-- A type in whose field names no name of a supply occurs. -/
def FreeType (s : Supplies) (t : ColumnType) : Prop := ∀ n ∈ t.names, s.FreeName n

def FreeRecord (s : Supplies) (r : RecordType) : Prop := ∀ n ∈ r.names, s.FreeName n

@[simp] theorem freeType_leaf (l : Leaf) : s.FreeType (.leaf l) := nofun

@[simp] theorem freeType_array {t : ColumnType} : s.FreeType (.array t) ↔ s.FreeType t := Iff.rfl

@[simp] theorem freeType_map {k : Leaf} {t : ColumnType} : s.FreeType (.map k t) ↔ s.FreeType t :=
  Iff.rfl

@[simp] theorem freeType_struct {r : RecordType} : s.FreeType (.struct r) ↔ s.FreeRecord r := Iff.rfl

theorem forall_namesOf {declared : List DeclaredMember} {p : String → Prop} :
    (∀ n ∈ DeclaredMember.namesOf declared, p n) ↔
      ∀ m ∈ DeclaredMember.columns declared, p m.field ∧ ∀ n ∈ m.type.names, p n := by
  induction declared with
  | nil => exact ⟨nofun, nofun⟩
  | cons m declared ih =>
    cases m with
    | typeDescriptor head | other head type => exact ih
    | column head type =>
      rw [DeclaredMember.namesOf, DeclaredMember.columns_cons_column, List.forall_mem_cons, List.forall_mem_append,
        List.forall_mem_cons, ih, and_assoc]

theorem freeRecord_iff {r : RecordType} :
    s.FreeRecord r ↔ ∀ m ∈ r.members, s.FreeName m.field ∧ s.FreeType m.type := by
  obtain ⟨name, declared, plainFields⟩ := r
  exact forall_namesOf

/-- The field names of a record in which no name of a supply occurs. -/
theorem FreeRecord.fieldNames {r : RecordType} (h : s.FreeRecord r) :
    ∀ n ∈ r.fieldNames, s.FreeName n := by
  unfold RecordType.fieldNames
  split
  · next shape hshape =>
    rw [RecordShape.fieldNames, fields_of_shape hshape, List.forall_mem_map, List.forall_mem_map]
    exact fun m hm => (freeRecord_iff.mp h m hm).1
  · exact List.forall_mem_nil _

theorem fixed_fieldsText {fields : List StructField}
    (h : ∀ f ∈ fields, s.FreeName f.name ∧ s.Fixed f.type.text) :
    s.Fixed (DataType.fieldsText fields) := by
  match fields with
  | [] => exact .nil
  | [.mk n t _] =>
    have hf := h _ (List.mem_singleton_self _)
    exact (hf.1.identifier false).joined ":" (by decide) hf.2
  | .mk n t _ :: f' :: fields =>
    have hf := h _ List.mem_cons_self
    have ih := fixed_fieldsText fun f hf => h f (List.mem_cons_of_mem _ hf)
    exact ((hf.1.identifier false).joined ":" (by decide) hf.2).joined "," (by decide) ih

theorem fixed_struct {fields : List StructField}
    (h : ∀ f ∈ fields, s.FreeName f.name ∧ s.Fixed f.type.text) :
    s.Fixed (DataType.text (.struct fields)) :=
  (fixed_fieldsText h).enclosed "struct<" ">" (by decide) (by decide)

mutual

/-- The text of a type in whose field names no name of a supply occurs. -/
theorem fixed_dataType (t : ColumnType) (h : s.FreeType t) : s.Fixed t.dataType.text := by
  match t with
  | .leaf l => exact fixed_of_words (by cases l <;> decide)
  | .array element =>
    exact (fixed_dataType element h).enclosed "array<" ">" (by decide) (by decide)
  | .map key value =>
    have hkey : s.Fixed key.dataType.text := fixed_of_words (by cases key <;> decide)
    exact ((hkey.behind "map<" (by decide)).joined "," (by decide)
      (fixed_dataType value h)).before ">" (by decide)
  | .struct (.mk name declared plainFields) =>
    rw [ColumnType.dataType]
    split
    · next shape hshape =>
      rw [RecordShape.dataType, fields_of_shape hshape]
      refine fixed_struct ?_
      rw [List.forall_mem_map]
      exact fun m hm => ⟨(forall_namesOf.mp h m hm).1, fixed_memberTypes declared h m hm⟩
    · exact fixed_of_words (by decide)

theorem fixed_memberTypes (declared : List DeclaredMember)
    (h : ∀ n ∈ DeclaredMember.namesOf declared, s.FreeName n) :
    ∀ m ∈ DeclaredMember.columns declared, s.Fixed m.type.dataType.text := by
  match declared with
  | [] => exact nofun
  | .typeDescriptor _ :: declared | .other _ _ :: declared => exact fixed_memberTypes declared h
  | .column head type :: declared =>
    rw [DeclaredMember.namesOf, List.forall_mem_cons, List.forall_mem_append] at h
    rw [DeclaredMember.columns_cons_column, List.forall_mem_cons]
    exact ⟨fixed_dataType type h.2.1, fixed_memberTypes declared h.2.2⟩

end

end Supplies

end Columnar
