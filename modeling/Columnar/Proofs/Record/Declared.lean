import Mathlib.Data.List.Forall2
import Mathlib.Data.List.Nodup
import Columnar.Column.Type
import Columnar.Proofs.Result

/-! The shapes of record types. A record is accepted for its own declaration alone, when it has no
plain fields and at least one column, every member is a column of the wanted visibility or the
descriptor of the record, and no two columns stand for fields of the same name. Its fields are then its
columns, in order. -/
namespace Columnar

/-! What is read of a record when all goes well. -/

/-- The member is read as the field. -/
def MemberDescriptor.ReadAs (m : MemberDescriptor) (f : StructField) : Prop :=
  ∃ t, m.columnType = .ok t ∧ f = .mk m.field t true

/-- By induction along the members: each becomes a field by itself, under a name that is not taken. -/
theorem reflectMembers_eq_ok_iff {record : String} {members : List MemberDescriptor}
    {seen : List String} {fields : List StructField} :
    reflectMembers record seen members = .ok fields ↔
      List.Forall₂ MemberDescriptor.ReadAs members fields ∧
        (∀ m ∈ members, Text.lower m.field ∉ seen) ∧
        (members.map fun m => Text.lower m.field).Nodup := by
  induction members generalizing seen fields with
  | nil => simp [reflectMembers, eq_comm]
  | cons m members ih =>
    rw [List.forall₂_cons_left_iff]
    cases htype : m.columnType with
    | error fault => simp [reflectMembers, MemberDescriptor.ReadAs, htype]
    | ok type =>
      simp only [reflectMembers, htype, List.forall_mem_cons, List.map_cons, List.nodup_cons,
        List.mem_map, not_exists, not_and]
      split
      · next hseen => simp [hseen]
      · next hseen =>
        rw [map_eq_ok_iff]
        constructor
        · rintro ⟨later, hrest, rfl⟩
          obtain ⟨hfields, hnew, hnodup⟩ := ih.mp hrest
          simp only [List.mem_cons, not_or] at hnew
          exact ⟨⟨_, later, ⟨type, htype, rfl⟩, hfields, rfl⟩,
            ⟨hseen, fun n hn => (hnew n hn).2⟩, fun n hn => (hnew n hn).1, hnodup⟩
        · rintro ⟨⟨_, later, ⟨_, hok, rfl⟩, hfields, rfl⟩, ⟨-, hold⟩, hnew, hnodup⟩
          obtain rfl := Except.ok.inj (htype.symm.trans hok)
          have hseen' : ∀ n ∈ members, Text.lower n.field ∉ Text.lower m.field :: seen :=
            fun n hn => List.not_mem_cons_of_ne_of_not_mem (hnew n hn) (hold n hn)
          exact ⟨later, ih.mpr ⟨hfields, hseen', hnodup⟩, rfl⟩

/-- The members of a record that stand for columns. -/
def RecordDescriptor.columns (d : RecordDescriptor) : List MemberDescriptor :=
  d.members.filter (!·.isTypeDescriptor)

theorem reflect_eq_ok_iff {d : RecordDescriptor} {s : RecordShape} :
    reflect d = .ok s ↔ d.plainFields = [] ∧ d.columns ≠ [] ∧
      ∃ fields, reflectMembers d.name [] d.columns = .ok fields ∧ ⟨d.name, fields⟩ = s := by
  unfold reflect RecordDescriptor.columns
  split
  · next hplain =>
    have hplain : d.plainFields = [] := List.isEmpty_iff.mp hplain
    split
    · next hnil => simp [hnil]
    · next hmembers =>
      have hmembers : d.members.filter (!·.isTypeDescriptor) ≠ [] := hmembers
      simp only [map_eq_ok_iff, hplain, hmembers, ne_eq, not_false_eq_true, true_and]
  · next hplain => simp_all

/-- A reflected record has a field for each column that it declares, in order, and no two of them
have the same name. -/
theorem fieldNames_of_reflect {d : RecordDescriptor} {s : RecordShape} (h : reflect d = .ok s) :
    s.fieldNames = d.columns.map MemberDescriptor.field ∧ (s.fieldNames.map Text.lower).Nodup := by
  obtain ⟨-, -, fields, hread, rfl⟩ := reflect_eq_ok_iff.mp h
  obtain ⟨hfields, -, hnodup⟩ := reflectMembers_eq_ok_iff.mp hread
  have hnames : fields.map StructField.name = d.columns.map MemberDescriptor.field := by
    rw [eq_comm, ← List.forall₂_eq_eq_eq, List.forall₂_map_left_iff, List.forall₂_map_right_iff]
    exact hfields.imp fun m f ⟨_, _, hf⟩ => congrArg StructField.name hf.symm
  refine ⟨hnames, ?_⟩
  rw [RecordShape.fieldNames, hnames, List.map_map]
  exact hnodup

/-! What a record type declares. -/

/-- What a column of the wanted visibility declares about itself, and the field that it becomes. -/
def memberDescriptor (m : RecordMember) : MemberDescriptor :=
  ⟨m.name, m.field, .isPublic, some .isPrivate, .column m.type.dataType⟩

def memberField (m : RecordMember) : StructField := .mk m.field m.type.dataType true

/-- What the field of a member is told apart by. -/
def memberKey (m : RecordMember) : String := Text.lower m.field

namespace DeclaredMember

theorem descriptors_eq (declared : List DeclaredMember) :
    descriptors declared = declared.map descriptor := by
  induction declared with
  | nil => rfl
  | cons m declared ih => rw [descriptors, ih, List.map_cons]

/-- A member that keeps the rules. -/
def Fits : DeclaredMember → Prop
  | column head _ => head.getter = .isPublic ∧ head.setter = some .isPrivate
  | typeDescriptor _ => True
  | other _ _ => False

theorem fits_of_columnType {m : DeclaredMember} {t : DataType}
    (h : m.descriptor.columnType = .ok t) : m.Fits := by
  cases m with
  | typeDescriptor head => trivial
  | column head type =>
    obtain ⟨name, field, getter, setter⟩ := head
    match getter, setter with
    | .isPublic, some .isPrivate => exact ⟨rfl, rfl⟩
    | .isPrivate, _ | .isPublic, none | .isPublic, some .isPublic => exact absurd h nofun
  | other head type =>
    obtain ⟨name, field, getter, setter⟩ := head
    match getter, setter with
    | .isPrivate, _ | .isPublic, none | .isPublic, some .isPublic | .isPublic, some .isPrivate =>
      exact absurd h nofun

theorem fits_of_isTypeDescriptor {m : DeclaredMember} (h : m.descriptor.isTypeDescriptor = true) :
    m.Fits := by
  cases m with
  | typeDescriptor head => trivial
  | column head type => cases h
  | other head type => cases h

/-- Of members that keep the rules, those that are reflected are the columns. -/
theorem filter_descriptors {declared : List DeclaredMember} (h : ∀ m ∈ declared, m.Fits) :
    (declared.map descriptor).filter (!·.isTypeDescriptor) =
      (columns declared).map memberDescriptor := by
  induction declared with
  | nil => rfl
  | cons m declared ih =>
    obtain ⟨hm, hdeclared⟩ := List.forall_mem_cons.mp h
    have ih := ih hdeclared
    cases m with
    | typeDescriptor head => exact ih
    | other head type => exact hm.elim
    | column head type =>
      obtain ⟨name, field, getter, setter⟩ := head
      obtain ⟨rfl, rfl⟩ := hm
      exact congrArg (_ :: ·) ih

theorem columns_cons_column (head : MemberHead) (type : ColumnType)
    (declared : List DeclaredMember) :
    columns (column head type :: declared) = ⟨head.name, head.field, type⟩ :: columns declared := rfl

theorem columns_ofMember (members : List RecordMember) :
    columns (members.map ofMember) = members := by
  rw [columns, List.filterMap_map]
  exact List.filterMap_some

end DeclaredMember

namespace RecordType

@[simp] theorem members_ofMembers (name : String) (members : List RecordMember) :
    (ofMembers name members).members = members :=
  DeclaredMember.columns_ofMember members

/-- A declaration that keeps the rules. -/
structure WellDeclared (r : RecordType) : Prop where
  noPlainFields : r.plainFields = []
  fits : ∀ m ∈ r.declared, m.Fits
  hasColumn : r.members ≠ []
  distinct : (r.members.map memberKey).Nodup

end RecordType

/-- Columns that are reflected become their fields. -/
theorem forall₂_memberDescriptor_iff {members : List RecordMember} {fields : List StructField} :
    List.Forall₂ MemberDescriptor.ReadAs
        (members.map memberDescriptor) fields ↔
      fields = members.map memberField := by
  rw [List.forall₂_map_left_iff, eq_comm, ← List.forall₂_eq_eq_eq, List.forall₂_map_left_iff]
  simp [MemberDescriptor.ReadAs, memberDescriptor, memberField, MemberDescriptor.columnType,
    eq_comm]

/-- Members of which all but the descriptor are reflected keep the rules. -/
theorem fits_of_columns {declared : List DeclaredMember} {fields : List StructField}
    (h : List.Forall₂ MemberDescriptor.ReadAs
      ((declared.map DeclaredMember.descriptor).filter (!·.isTypeDescriptor)) fields) :
    ∀ m ∈ declared, m.Fits := by
  have htyped : ∀ m ∈ (declared.map DeclaredMember.descriptor).filter (!·.isTypeDescriptor),
      ∃ t, m.columnType = .ok t :=
    ((List.forall₂_and_left (R := fun _ _ => True) _ _).mp
      (h.imp fun _ _ ⟨t, ht, _⟩ => ⟨⟨t, ht⟩, trivial⟩)).1
  intro m hm
  cases hkind : m.descriptor.isTypeDescriptor with
  | true => exact DeclaredMember.fits_of_isTypeDescriptor hkind
  | false =>
    obtain ⟨t, ht⟩ := htyped m.descriptor
      (List.mem_filter.mpr ⟨List.mem_map_of_mem hm, by rw [hkind, Bool.not_false]⟩)
    exact DeclaredMember.fits_of_columnType ht

/-- A record has a shape exactly when its declaration keeps the rules, whatever its columns hold. -/
theorem shape_eq_ok_iff {r : RecordType} {s : RecordShape} :
    r.shape = .ok s ↔ s = ⟨r.name, r.members.map memberField⟩ ∧ r.WellDeclared := by
  obtain ⟨name, declared, plainFields⟩ := r
  rw [RecordType.shape, reflect_eq_ok_iff, RecordType.descriptor, DeclaredMember.descriptors_eq,
    RecordDescriptor.columns]
  simp only [reflectMembers_eq_ok_iff]
  constructor
  · rintro ⟨hplain, hmembers, fields, ⟨hfields, -, hnodup⟩, rfl⟩
    have hfits := fits_of_columns hfields
    rw [DeclaredMember.filter_descriptors hfits] at hfields hmembers hnodup
    obtain rfl := forall₂_memberDescriptor_iff.mp hfields
    rw [List.map_map] at hnodup
    exact ⟨rfl, hplain, hfits, fun hnil => hmembers (List.map_eq_nil_iff.mpr hnil), hnodup⟩
  · rintro ⟨rfl, hplain, hfits, hcolumn, hnodup⟩
    have hfilter : _ = (DeclaredMember.columns declared).map memberDescriptor :=
      DeclaredMember.filter_descriptors hfits
    rw [hfilter]
    refine ⟨hplain, fun hnil => hcolumn (List.map_eq_nil_iff.mp hnil), _,
      ⟨forall₂_memberDescriptor_iff.mpr rfl, fun _ _ => List.not_mem_nil, ?_⟩, rfl⟩
    rw [List.map_map]
    exact hnodup

/-- The fields of an accepted record are its columns. -/
theorem fields_of_shape {r : RecordType} {s : RecordShape} (h : r.shape = .ok s) :
    s.fields = r.members.map memberField := by
  rw [(shape_eq_ok_iff.mp h).1]

theorem fieldNames_of_shape {r : RecordType} {s : RecordShape} (h : r.shape = .ok s) :
    s.fieldNames = r.members.map RecordMember.field := by
  rw [RecordShape.fieldNames, fields_of_shape h, List.map_map]
  rfl

theorem nodup_fieldNames {r : RecordType} {s : RecordShape} (h : r.shape = .ok s) :
    (s.fieldNames.map Text.lower).Nodup := by
  rw [fieldNames_of_shape h, List.map_map]
  exact (shape_eq_ok_iff.mp h).2.distinct

end Columnar
