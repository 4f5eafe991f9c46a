import Columnar.Proofs.Record.Declared

/-! Records inside the columns of a record. A record is accepted whatever the records inside it are, and
its shape has the shape of each of them in its place; one that is refused shows as the empty
struct, which no accepted record has. -/
namespace Columnar

/-- A record that a column type holds at some depth. -/
inductive Holds : ColumnType → RecordType → Prop
  | here {q : RecordType} : Holds (.struct q) q
  | array {t : ColumnType} {q : RecordType} (h : Holds t q) : Holds (.array t) q
  | map {key : Leaf} {t : ColumnType} {q : RecordType} (h : Holds t q) : Holds (.map key t) q
  | member {r : RecordType} {m : RecordMember} {q : RecordType} (hm : m ∈ r.members)
    (h : Holds m.type q) : Holds (.struct r) q

theorem not_holds_leaf {l : Leaf} {q : RecordType} : ¬ Holds (.leaf l) q := nofun

theorem holds_array_iff {t : ColumnType} {q : RecordType} : Holds (.array t) q ↔ Holds t q := by
  constructor
  · rintro (_ | h)
    exact h
  · exact .array

theorem holds_map_iff {key : Leaf} {t : ColumnType} {q : RecordType} :
    Holds (.map key t) q ↔ Holds t q := by
  constructor
  · rintro (_ | _ | h)
    exact h
  · exact .map

theorem holds_struct_iff {r q : RecordType} :
    Holds (.struct r) q ↔ q = r ∨ ∃ m ∈ r.members, Holds m.type q := by
  constructor
  · intro h
    cases h with
    | here => exact .inl rfl
    | member hm h => exact .inr ⟨_, hm, h⟩
  · rintro (rfl | ⟨m, hm, h⟩)
    · exact .here
    · exact .member hm h

/-- The second descriptor stands in the first one where the record stands in the column type. -/
inductive Describes : ColumnType → DataType → RecordType → DataType → Prop
  | here {q : RecordType} {d : DataType} : Describes (.struct q) d q d
  | array {t : ColumnType} {u d : DataType} {q : RecordType} {containsNull : Bool}
    (h : Describes t u q d) : Describes (.array t) (.array u containsNull) q d
  | map {key : Leaf} {t : ColumnType} {k u d : DataType} {q : RecordType} {containsNull : Bool}
    (h : Describes t u q d) : Describes (.map key t) (.map k u containsNull) q d
  | member {r q : RecordType} {fields : List StructField} {i : Nat} {m : RecordMember}
    {f : StructField} {d : DataType} (hm : r.members[i]? = some m) (hf : fields[i]? = some f)
    (h : Describes m.type f.type q d) : Describes (.struct r) (.struct fields) q d

/-- A descriptor with an empty struct at some depth. -/
inductive HasEmptyStruct : DataType → Prop
  | here : HasEmptyStruct (.struct [])
  | array {t : DataType} {containsNull : Bool} (h : HasEmptyStruct t) :
    HasEmptyStruct (.array t containsNull)
  | key {k t : DataType} {containsNull : Bool} (h : HasEmptyStruct k) :
    HasEmptyStruct (.map k t containsNull)
  | value {k t : DataType} {containsNull : Bool} (h : HasEmptyStruct t) :
    HasEmptyStruct (.map k t containsNull)
  | field {fields : List StructField} {f : StructField} (hf : f ∈ fields)
    (h : HasEmptyStruct f.type) : HasEmptyStruct (.struct fields)

theorem dataType_struct (r : RecordType) :
    (ColumnType.struct r).dataType = match r.shape with
      | .ok s => s.dataType
      | .error _ => .struct [] := by
  rw [ColumnType.dataType]
  rfl

theorem dataType_struct_of_ok {r : RecordType} {s : RecordShape} (h : r.shape = .ok s) :
    (ColumnType.struct r).dataType = .struct (r.members.map memberField) := by
  rw [dataType_struct, h]
  exact congrArg DataType.struct (fields_of_shape h)

theorem dataType_struct_of_error {r : RecordType} {e : SchemaError} (h : r.shape = .error e) :
    (ColumnType.struct r).dataType = .struct [] := by
  rw [dataType_struct, h]

theorem dataType_ne_empty {r : RecordType} {s : RecordShape} (h : r.shape = .ok s) :
    s.dataType ≠ .struct [] := by
  obtain ⟨rfl, hdeclared⟩ := shape_eq_ok_iff.mp h
  intro hempty
  exact hdeclared.hasColumn (List.map_eq_nil_iff.mp (DataType.struct.inj hempty))

/-- What stands for a record is the descriptor of its struct column. -/
theorem Describes.eq {t : ColumnType} {u d : DataType} {q : RecordType} (h : Describes t u q d)
    (hu : u = t.dataType) : d = (ColumnType.struct q).dataType := by
  induction h with
  | here => exact hu
  | array _ ih =>
    rw [ColumnType.dataType] at hu
    exact ih (DataType.array.inj hu).1
  | map _ ih =>
    rw [ColumnType.dataType] at hu
    exact ih (DataType.map.inj hu).2.1
  | @member r _ fields i m f _ hm hf _ ih =>
    cases hr : r.shape with
    | ok s =>
      rw [dataType_struct_of_ok hr, DataType.struct.injEq] at hu
      rw [hu, List.getElem?_map, hm, Option.map_some, Option.some.injEq] at hf
      exact ih (congrArg StructField.type hf.symm)
    | error e =>
      rw [dataType_struct_of_error hr, DataType.struct.injEq] at hu
      rw [hu] at hf
      cases hf

/-- Each record inside a column type has its place in the descriptor, or is inside a record that is
refused. -/
theorem Holds.describes {t : ColumnType} {q : RecordType} (h : Holds t q) :
    (∃ d, Describes t t.dataType q d) ∨
      ∃ p, Holds t p ∧ Holds (.struct p) q ∧ ∃ e, p.shape = .error e := by
  induction h with
  | here => exact .inl ⟨_, .here⟩
  | array _ ih =>
    rw [ColumnType.dataType]
    rcases ih with ⟨d, hd⟩ | ⟨p, hp, hq, he⟩
    · exact .inl ⟨d, .array hd⟩
    · exact .inr ⟨p, .array hp, hq, he⟩
  | map _ ih =>
    rw [ColumnType.dataType]
    rcases ih with ⟨d, hd⟩ | ⟨p, hp, hq, he⟩
    · exact .inl ⟨d, .map hd⟩
    · exact .inr ⟨p, .map hp, hq, he⟩
  | @member r m q hm hq ih =>
    cases hr : r.shape with
    | error e => exact .inr ⟨r, .here, .member hm hq, e, hr⟩
    | ok s =>
      rcases ih with ⟨d, hd⟩ | ⟨p, hp, hq, he⟩
      · obtain ⟨i, hi⟩ := List.getElem?_of_mem hm
        have hf : (r.members.map memberField)[i]? = some (memberField m) := by
          rw [List.getElem?_map, hi, Option.map_some]
        rw [dataType_struct_of_ok hr]
        exact .inl ⟨d, .member hi hf hd⟩
      · exact .inr ⟨p, .member hm hp, hq, he⟩

theorem not_hasEmptyStruct_leaf (l : Leaf) : ¬ HasEmptyStruct l.dataType := by
  cases l <;> nofun

theorem HasEmptyStruct.exists_field {fields : List StructField}
    (h : HasEmptyStruct (.struct fields)) (hne : fields ≠ []) :
    ∃ f ∈ fields, HasEmptyStruct f.type := by
  cases h with
  | here => exact absurd rfl hne
  | field hf h => exact ⟨_, hf, h⟩

/-- A record that is refused leaves an empty struct in the descriptor. -/
theorem Holds.hasEmptyStruct {t : ColumnType} {q : RecordType} (h : Holds t q) {e : SchemaError}
    (hq : q.shape = .error e) : HasEmptyStruct t.dataType := by
  induction h with
  | here =>
    rw [dataType_struct_of_error hq]
    exact .here
  | array _ ih =>
    rw [ColumnType.dataType]
    exact .array (ih hq)
  | map _ ih =>
    rw [ColumnType.dataType]
    exact .value (ih hq)
  | @member r m _ hm _ ih =>
    cases hr : r.shape with
    | error e =>
      rw [dataType_struct_of_error hr]
      exact .here
    | ok s =>
      rw [dataType_struct_of_ok hr]
      exact .field (List.mem_map_of_mem hm) (ih hq)

mutual

/-- An empty struct in the descriptor of a column type comes from a record that is refused. -/
theorem exists_refused (t : ColumnType) (h : HasEmptyStruct t.dataType) :
    ∃ q, Holds t q ∧ ∃ e, q.shape = .error e := by
  match t with
  | .leaf l => exact absurd h (not_hasEmptyStruct_leaf l)
  | .array element =>
    rw [ColumnType.dataType] at h
    cases h with
    | array h =>
      obtain ⟨q, hq, he⟩ := exists_refused element h
      exact ⟨q, .array hq, he⟩
  | .map key value =>
    rw [ColumnType.dataType] at h
    cases h with
    | key h => exact absurd h (not_hasEmptyStruct_leaf key)
    | value h =>
      obtain ⟨q, hq, he⟩ := exists_refused value h
      exact ⟨q, .map hq, he⟩
  | .struct (.mk name declared plainFields) =>
    cases hr : RecordType.shape (.mk name declared plainFields) with
    | error e => exact ⟨_, .here, e, hr⟩
    | ok s =>
      have hcolumn := (shape_eq_ok_iff.mp hr).2.hasColumn
      rw [dataType_struct_of_ok hr] at h
      obtain ⟨f, hf, h⟩ := h.exists_field fun hnil => hcolumn (List.map_eq_nil_iff.mp hnil)
      obtain ⟨m, hm, rfl⟩ := List.mem_map.mp hf
      obtain ⟨m, hm, q, hq, he⟩ := exists_refused_member declared ⟨m, hm, h⟩
      exact ⟨q, .member hm hq, he⟩

theorem exists_refused_member (declared : List DeclaredMember)
    (h : ∃ m ∈ DeclaredMember.columns declared, HasEmptyStruct m.type.dataType) :
    ∃ m ∈ DeclaredMember.columns declared,
      ∃ q, Holds m.type q ∧ ∃ e, q.shape = .error e := by
  match declared with
  | [] => exact absurd h nofun
  | .typeDescriptor _ :: declared | .other _ _ :: declared => exact exists_refused_member declared h
  | .column head type :: declared =>
    rw [DeclaredMember.columns_cons_column, List.exists_mem_cons_iff] at h ⊢
    exact h.imp (exists_refused type) (exists_refused_member declared)

end

/-- A record is accepted for its own declaration alone. In its shape every record that it holds has its
shape in its place, or the empty struct if that record is refused; so the shape of a record has an
empty struct at some depth exactly when the record holds one that is refused. -/
theorem shape_shows_refused (r : RecordType) :
    ((∃ s, r.shape = .ok s) ↔ r.WellDeclared) ∧
    ∀ s, r.shape = .ok s →
      (HasEmptyStruct s.dataType ↔ ∃ q, Holds (.struct r) q ∧ ∃ e, q.shape = .error e) ∧
      ∀ q, Holds (.struct r) q →
        ((∃ d, Describes (.struct r) s.dataType q d) ∨
          ∃ p, Holds (.struct r) p ∧ Holds (.struct p) q ∧ ∃ e, p.shape = .error e) ∧
        ∀ d, Describes (.struct r) s.dataType q d →
          (∀ t, q.shape = .ok t → d = t.dataType) ∧
            (d = .struct [] ↔ ∃ e, q.shape = .error e) := by
  constructor
  · constructor
    · rintro ⟨s, hs⟩
      exact (shape_eq_ok_iff.mp hs).2
    · exact fun h => ⟨_, shape_eq_ok_iff.mpr ⟨rfl, h⟩⟩
  · intro s hs
    have hstruct : s.dataType = (ColumnType.struct r).dataType := by
      rw [dataType_struct, hs]
    rw [hstruct]
    constructor
    · constructor
      · exact exists_refused _
      · rintro ⟨q, hq, e, he⟩
        exact hq.hasEmptyStruct he
    · intro q hq
      refine ⟨hq.describes, fun d hd => ?_⟩
      rw [hd.eq rfl, dataType_struct]
      cases hshape : q.shape with
      | ok t => simp [dataType_ne_empty hshape]
      | error e => simp

/-- A parcel whose stops are structs of a record without members. -/
def hollow : RecordType := .declare "Hollow" []

def parcel : RecordType :=
  .declare "Parcel" [⟨"code", "code", .string⟩, ⟨"stops", "stops", .array (.struct hollow)⟩]

theorem holds_parcel : Holds (.struct parcel) hollow :=
  .member (List.mem_of_getElem? (i := 1) rfl) (.array .here)

def parcelShape : RecordShape :=
  ⟨"Parcel", [.mk "code" .string true, .mk "stops" (.array (.struct []) true) true]⟩

theorem shape_shows_refused_parcel :
    parcel.shape = .ok parcelShape ∧ HasEmptyStruct parcelShape.dataType ∧
      Describes (.struct parcel) parcelShape.dataType hollow (.struct []) ∧
      ∃ e, hollow.shape = .error e := by
  have hshape : parcel.shape = .ok parcelShape := rfl
  have hplace : Describes (.struct parcel) parcelShape.dataType hollow (.struct []) :=
    .member (i := 1) rfl rfl (.array .here)
  obtain ⟨hempty, hrecords⟩ := (shape_shows_refused parcel).2 parcelShape hshape
  have hrefused := ((hrecords hollow holds_parcel).2 _ hplace).2.mp rfl
  exact ⟨hshape, hempty.mpr ⟨hollow, holds_parcel, hrefused⟩, hplace, hrefused⟩

/-- A record is accepted although one inside it is refused. -/
theorem shape_accepts_refused_inside :
    Holds (.struct parcel) hollow ∧ hollow.shape = .error (.empty "Hollow") ∧
      parcel.shape = .ok parcelShape :=
  ⟨holds_parcel, rfl, rfl⟩

end Columnar
