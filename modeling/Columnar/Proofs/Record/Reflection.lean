import Mathlib.Data.List.Forall2
import Mathlib.Data.List.Nodup
import Columnar.Proofs.Record.Binding

/-! Which declarations have a shape, and why the others have none. The members are gone through in
order: each becomes a field as long as it declares a column under a name of its own, and the first
that does not is what the whole declaration is refused for. -/
namespace Columnar

namespace MemberDescriptor

/-- A member that declares a column: all may read it, and its record alone may set it. -/
structure IsColumn (m : MemberDescriptor) (type : DataType) : Prop where
  getter : m.getter = .isPublic
  setter : m.setter = some .isPrivate
  kind : m.kind = .column type

/-- The first rule that a member breaks by itself. -/
inductive Breaks (m : MemberDescriptor) : MemberFault → Prop
  | getter (hgetter : m.getter = .isPrivate) : m.Breaks .privateGetter
  | noSetter (hgetter : m.getter = .isPublic) (hsetter : m.setter = none) : m.Breaks .noSetter
  | publicSetter (hgetter : m.getter = .isPublic) (hsetter : m.setter = some .isPublic) :
    m.Breaks .publicSetter
  | kind {type : String} (hgetter : m.getter = .isPublic) (hsetter : m.setter = some .isPrivate)
    (hkind : m.kind = .other type) : m.Breaks (.notColumn type)

/-- The field that a member becomes. -/
def Becomes (m : MemberDescriptor) (f : StructField) : Prop :=
  ∃ type, m.IsColumn type ∧ f = .mk m.field type true

/-- What a member is refused for behind other members. A name that is taken counts last. -/
inductive Offends (record : String) (front : List MemberDescriptor) (m : MemberDescriptor) :
    SchemaError → Prop
  | invalid {fault : MemberFault} (h : m.Breaks fault) :
    Offends record front m (.invalidMember record m.name fault)
  | duplicate {type : DataType} {other : MemberDescriptor} (h : m.IsColumn type)
    (hother : other ∈ front) (hname : Text.sameName other.field m.field) :
    Offends record front m (.duplicateField record m.field)

theorem IsColumn.columnType_eq {m : MemberDescriptor} {type : DataType} (h : m.IsColumn type) :
    m.columnType = .ok type := by
  simp [columnType, h.getter, h.setter, h.kind]

theorem Breaks.columnType_eq {m : MemberDescriptor} {fault : MemberFault} (h : m.Breaks fault) :
    m.columnType = .error fault := by
  cases h with
  | getter hgetter => simp [columnType, hgetter]
  | noSetter hgetter hsetter => simp [columnType, hgetter, hsetter]
  | publicSetter hgetter hsetter => simp [columnType, hgetter, hsetter]
  | kind hgetter hsetter hkind => simp [columnType, hgetter, hsetter, hkind]

/-- A member other than the type descriptor declares a column or breaks a rule. -/
theorem isColumn_or_breaks {m : MemberDescriptor} (h : m.isTypeDescriptor = false) :
    (∃ type, m.IsColumn type) ∨ ∃ fault, m.Breaks fault := by
  cases hgetter : m.getter with
  | isPrivate => exact .inr ⟨_, .getter hgetter⟩
  | isPublic =>
    match hsetter : m.setter with
    | none => exact .inr ⟨_, .noSetter hgetter hsetter⟩
    | some .isPublic => exact .inr ⟨_, .publicSetter hgetter hsetter⟩
    | some .isPrivate =>
      cases hkind : m.kind with
      | column type => exact .inl ⟨type, hgetter, hsetter, hkind⟩
      | other type => exact .inr ⟨_, .kind hgetter hsetter hkind⟩
      | typeDescriptor => simp [isTypeDescriptor, hkind] at h

end MemberDescriptor

open MemberDescriptor

/-- Members that all become fields: each declares a column, no two of them under the same name. -/
structure Accepted (members : List MemberDescriptor) : Prop where
  isColumn : ∀ m ∈ members, ∃ type, m.IsColumn type
  distinct : members.Pairwise fun m n => Text.sameName m.field n.field = false

/-- The names that are taken behind the given members. -/
def takenNames (front : List MemberDescriptor) : List String :=
  front.reverse.map fun m => Text.lower m.field

theorem takenNames_concat (front : List MemberDescriptor) (m : MemberDescriptor) :
    takenNames (front ++ [m]) = Text.lower m.field :: takenNames front := by
  simp [takenNames]

theorem mem_takenNames_iff {front : List MemberDescriptor} {name : String} :
    Text.lower name ∈ takenNames front ↔ ∃ m ∈ front, Text.sameName m.field name := by
  simp [takenNames, Text.sameName_iff]

theorem accepted_concat_iff {front : List MemberDescriptor} {m : MemberDescriptor} :
    Accepted (front ++ [m]) ↔
      Accepted front ∧ (∃ type, m.IsColumn type) ∧ Text.lower m.field ∉ takenNames front := by
  have htaken : Text.lower m.field ∉ takenNames front ↔
      ∀ n ∈ front, Text.sameName n.field m.field = false := by
    simp [mem_takenNames_iff]
  rw [htaken]
  constructor
  · rintro ⟨hcolumn, hdistinct⟩
    obtain ⟨hfront, -, hm⟩ := List.pairwise_append.mp hdistinct
    exact ⟨⟨fun n hn => hcolumn n (by simp [hn]), hfront⟩, hcolumn m (by simp),
      fun n hn => hm n hn m (by simp)⟩
  · rintro ⟨⟨hcolumn, hdistinct⟩, hm, hnew⟩
    refine ⟨fun n hn => ?_, ?_⟩
    · rcases List.mem_append.mp hn with hn | hn
      · exact hcolumn n hn
      · rwa [List.mem_singleton.mp hn]
    · exact List.pairwise_append.mpr ⟨hdistinct, by simp, by simpa using hnew⟩

theorem Accepted.front {front rest : List MemberDescriptor} (h : Accepted (front ++ rest)) :
    Accepted front :=
  ⟨fun m hm => h.isColumn m (by simp [hm]), (List.pairwise_append.mp h.distinct).1⟩

/-! One member: it becomes a field behind the accepted ones, or the reading ends at it. -/

section Members

variable {record : String} {front : List MemberDescriptor}

theorem reflectMembers_cons_of_accepted {m : MemberDescriptor} (h : Accepted (front ++ [m]))
    (rest : List MemberDescriptor) :
    ∃ f, m.Becomes f ∧ reflectMembers record (takenNames front) (m :: rest) =
      (reflectMembers record (takenNames (front ++ [m])) rest).map (f :: ·) := by
  obtain ⟨-, ⟨type, hm⟩, hnew⟩ := accepted_concat_iff.mp h
  refine ⟨_, ⟨type, hm, rfl⟩, ?_⟩
  rw [reflectMembers, hm.columnType_eq, takenNames_concat]
  exact if_neg hnew

theorem reflectMembers_cons_of_offends {m : MemberDescriptor} {e : SchemaError}
    (h : m.Offends record front e) (rest : List MemberDescriptor) :
    reflectMembers record (takenNames front) (m :: rest) = .error e := by
  rw [reflectMembers]
  cases h with
  | invalid h => rw [h.columnType_eq]
  | duplicate h hother hname =>
    rw [h.columnType_eq]
    exact if_pos (mem_takenNames_iff.mpr ⟨_, hother, hname⟩)

theorem accepted_or_offends {m : MemberDescriptor} (h : Accepted front)
    (hm : m.isTypeDescriptor = false) :
    Accepted (front ++ [m]) ∨ ∃ e, m.Offends record front e := by
  rcases isColumn_or_breaks hm with ⟨type, hcolumn⟩ | ⟨fault, hbreaks⟩
  · by_cases htaken : Text.lower m.field ∈ takenNames front
    · obtain ⟨other, hother, hname⟩ := mem_takenNames_iff.mp htaken
      exact .inr ⟨_, .duplicate hcolumn hother hname⟩
    · exact .inl (accepted_concat_iff.mpr ⟨h, ⟨type, hcolumn⟩, htaken⟩)
  · exact .inr ⟨_, .invalid hbreaks⟩

/-! All members, by induction along the list with the accepted ones in front. -/

theorem reflectMembers_of_accepted {members : List MemberDescriptor}
    (h : Accepted (front ++ members)) :
    ∃ fields, reflectMembers record (takenNames front) members = .ok fields ∧
      List.Forall₂ Becomes members fields := by
  induction members generalizing front with
  | nil => exact ⟨[], rfl, .nil⟩
  | cons m rest ih =>
    rw [← List.singleton_append, ← List.append_assoc] at h
    obtain ⟨f, hf, hstep⟩ := reflectMembers_cons_of_accepted h.front rest
    obtain ⟨fields, hread, hfields⟩ := ih h
    exact ⟨f :: fields, by rw [hstep, hread]; rfl, .cons hf hfields⟩

/-- The first member that offends decides, whatever follows it. -/
theorem reflectMembers_of_offends {before : List MemberDescriptor} {m : MemberDescriptor}
    {e : SchemaError} (h : Accepted (front ++ before)) (hm : m.Offends record (front ++ before) e)
    (rest : List MemberDescriptor) :
    reflectMembers record (takenNames front) (before ++ m :: rest) = .error e := by
  induction before generalizing front with
  | nil =>
    rw [List.append_nil] at hm
    exact reflectMembers_cons_of_offends hm rest
  | cons n before ih =>
    rw [← List.singleton_append, ← List.append_assoc] at h hm
    obtain ⟨f, -, hstep⟩ := reflectMembers_cons_of_accepted h.front (before ++ m :: rest)
    rw [List.cons_append, hstep, ih h hm]
    rfl

theorem accepted_or_exists_offends {members : List MemberDescriptor} (h : Accepted front)
    (hmembers : ∀ m ∈ members, m.isTypeDescriptor = false) :
    Accepted (front ++ members) ∨ ∃ before m rest e, members = before ++ m :: rest ∧
      Accepted (front ++ before) ∧ m.Offends record (front ++ before) e := by
  induction members generalizing front with
  | nil => exact .inl (by rwa [List.append_nil])
  | cons m rest ih =>
    rcases accepted_or_offends h (hmembers m (by simp)) with hm | ⟨e, hm⟩
    · rcases ih hm fun n hn => hmembers n (by simp [hn]) with
        hall | ⟨before, n, after, e, rfl, hbefore, hn⟩
      · exact .inl (by simpa using hall)
      · exact .inr ⟨m :: before, n, after, e, rfl, by simpa using hbefore, by simpa using hn⟩
    · exact .inr ⟨[], m, rest, e, rfl, by rwa [List.append_nil], by rwa [List.append_nil]⟩

end Members

namespace RecordDescriptor

/-- A declaration that keeps all rules. -/
structure WellFormed (d : RecordDescriptor) : Prop where
  noPlainFields : d.plainFields = []
  hasColumn : d.columns ≠ []
  accepted : Accepted d.columns

/-- The first rule that a declaration breaks: plain fields count before the members, and of the
members the first one that offends counts. -/
inductive FirstViolation (d : RecordDescriptor) : SchemaError → Prop
  | plainFields (h : d.plainFields ≠ []) :
    d.FirstViolation (.fieldsNotAllowed d.name d.plainFields)
  | empty (hplain : d.plainFields = []) (h : d.columns = []) : d.FirstViolation (.empty d.name)
  | member {front rest : List MemberDescriptor} {m : MemberDescriptor} {e : SchemaError}
    (hplain : d.plainFields = []) (hcolumns : d.columns = front ++ m :: rest)
    (hfront : Accepted front) (hm : m.Offends d.name front e) : d.FirstViolation e

theorem isTypeDescriptor_of_mem_columns {d : RecordDescriptor} {m : MemberDescriptor}
    (h : m ∈ d.columns) : m.isTypeDescriptor = false := by
  simpa using (List.mem_filter.mp h).2

theorem reflect_eq_members {d : RecordDescriptor} (hplain : d.plainFields = [])
    (hcolumns : d.columns ≠ []) :
    reflect d = (reflectMembers d.name (takenNames []) d.columns).map (⟨d.name, ·⟩) := by
  obtain ⟨m, rest, hsplit⟩ := List.exists_cons_of_ne_nil hcolumns
  have hmembers : d.members.filter (!·.isTypeDescriptor) = m :: rest := hsplit
  rw [hsplit, reflect, hplain, hmembers]
  rfl

theorem WellFormed.reflect_eq {d : RecordDescriptor} (h : d.WellFormed) :
    ∃ s, reflect d = .ok s ∧ s.name = d.name ∧ List.Forall₂ Becomes d.columns s.fields := by
  have hall : Accepted ([] ++ d.columns) := h.accepted
  obtain ⟨fields, hread, hfields⟩ := reflectMembers_of_accepted hall
  exact ⟨⟨d.name, fields⟩, by rw [reflect_eq_members h.noPlainFields h.hasColumn, hread]; rfl, rfl,
    hfields⟩

theorem FirstViolation.reflect_eq {d : RecordDescriptor} {e : SchemaError}
    (h : d.FirstViolation e) : reflect d = .error e := by
  cases h with
  | plainFields h => simp [reflect, h]
  | empty hplain h =>
    rw [columns] at h
    simp [reflect, hplain, h]
  | @member front rest m _ hplain hcolumns hfront hm =>
    have hnone : Accepted ([] ++ front) := hfront
    have hread := reflectMembers_of_offends hnone hm rest
    rw [reflect_eq_members hplain (by simp [hcolumns]), hcolumns, hread]
    rfl

theorem wellFormed_or_violation (d : RecordDescriptor) :
    d.WellFormed ∨ ∃ e, d.FirstViolation e := by
  by_cases hplain : d.plainFields = []
  · by_cases hcolumns : d.columns = []
    · exact .inr ⟨_, .empty hplain hcolumns⟩
    · have hnone : Accepted [] := ⟨by simp, .nil⟩
      rcases accepted_or_exists_offends hnone fun m hm => isTypeDescriptor_of_mem_columns hm with
        hall | ⟨front, m, rest, e, hsplit, hfront, hm⟩
      · exact .inl ⟨hplain, hcolumns, hall⟩
      · exact .inr ⟨e, .member hplain hsplit hfront hm⟩
  · exact .inr ⟨_, .plainFields hplain⟩

theorem wellFormed_of_reflect {d : RecordDescriptor} {s : RecordShape} (h : reflect d = .ok s) :
    d.WellFormed := by
  rcases d.wellFormed_or_violation with hd | ⟨e, hd⟩
  · exact hd
  · rw [hd.reflect_eq] at h
    cases h

theorem firstViolation_of_reflect {d : RecordDescriptor} {e : SchemaError}
    (h : reflect d = .error e) : d.FirstViolation e := by
  rcases d.wellFormed_or_violation with hd | ⟨e', hd⟩
  · obtain ⟨s, hs, -⟩ := hd.reflect_eq
    rw [hs] at h
    cases h
  · rw [hd.reflect_eq] at h
    rwa [← Except.error.inj h]

end RecordDescriptor

/-! Looking for a field finds the one of that name. -/

theorem RecordShape.sameName_of_field? {s : RecordShape} {name : String} {f : StructField}
    (h : s.field? name = some f) : f ∈ s.fields ∧ Text.sameName f.name name := by
  rw [RecordShape.field?] at h
  exact ⟨List.mem_of_find?_eq_some h, by simpa using List.find?_some h⟩

theorem RecordShape.field?_eq_some_iff {s : RecordShape} (h : (s.fieldNames.map Text.lower).Nodup)
    {name : String} {f : StructField} :
    s.field? name = some f ↔ f ∈ s.fields ∧ Text.sameName f.name name := by
  constructor
  · exact sameName_of_field?
  · rintro ⟨hmem, hname⟩
    have hsome : (s.field? name).isSome := by
      rw [RecordShape.field?, List.find?_isSome]
      exact ⟨f, hmem, hname⟩
    obtain ⟨g, hg⟩ := Option.isSome_iff_exists.mp hsome
    obtain ⟨hgmem, hgname⟩ := sameName_of_field? hg
    have hsame : Text.lower g.name = Text.lower f.name := by
      rw [Text.sameName_iff.mp hgname, Text.sameName_iff.mp hname]
    rw [RecordShape.fieldNames, List.map_map] at h
    rw [hg, List.inj_on_of_nodup_map h hgmem hmem hsame]

/-- Each declared name finds its own field. -/
theorem RecordShape.map_field?_fieldNames {s : RecordShape}
    (h : (s.fieldNames.map Text.lower).Nodup) :
    s.fieldNames.map s.field? = s.fields.map some := by
  rw [RecordShape.fieldNames, List.map_map]
  exact List.map_congr_left fun f hf =>
    (field?_eq_some_iff h).mpr ⟨hf, Text.sameName_self f.name⟩

/-- A declaration has a shape exactly when it keeps all rules. The shape has the fields of the
members in order, and a name finds the field that it names and no other. A declaration without a
shape is refused for the first rule that it breaks. -/
theorem reflect_ok_iff_wellFormed (d : RecordDescriptor) :
    ((∃ s, reflect d = .ok s) ↔ d.WellFormed) ∧
      (∀ s, reflect d = .ok s →
        s.name = d.name ∧ List.Forall₂ Becomes d.columns s.fields ∧
          (∀ name f, s.field? name = some f ↔ f ∈ s.fields ∧ Text.sameName f.name name) ∧
          s.fieldNames.map s.field? = s.fields.map some ∧ s.fields.Nodup) ∧
      ∀ e, reflect d = .error e ↔ d.FirstViolation e := by
  refine ⟨⟨fun ⟨s, hs⟩ => RecordDescriptor.wellFormed_of_reflect hs, fun h => ?_⟩, fun s hs => ?_,
    fun e => ⟨RecordDescriptor.firstViolation_of_reflect, fun h => h.reflect_eq⟩⟩
  · obtain ⟨s, hs, -⟩ := h.reflect_eq
    exact ⟨s, hs⟩
  · obtain ⟨s', hs', hname, hfields⟩ := (RecordDescriptor.wellFormed_of_reflect hs).reflect_eq
    obtain rfl : s = s' := Except.ok.inj (hs.symm.trans hs')
    have hnodup := (fieldNames_of_reflect hs).2
    refine ⟨hname, hfields, fun _ _ => RecordShape.field?_eq_some_iff hnodup,
      RecordShape.map_field?_fieldNames hnodup, ?_⟩
    rw [RecordShape.fieldNames, List.map_map] at hnodup
    exact .of_map _ hnodup

theorem reflect_ok_iff_wellFormed_person :
    ∃ s, reflect ⟨"Person", [⟨"name", "Name", .isPublic, some .isPrivate, .column .string⟩,
        ⟨"row_type", "row_type", .isPublic, none, .typeDescriptor⟩,
        ⟨"age", "age", .isPublic, some .isPrivate, .column .integer⟩], []⟩ = .ok s ∧
      s.fields = [.mk "Name" .string true, .mk "age" .integer true] ∧
      s.field? "NAME" = some (.mk "Name" .string true) ∧ s.fields.Nodup ∧
      RecordDescriptor.FirstViolation
        ⟨"Person", [⟨"name", "Name", .isPublic, some .isPrivate, .column .string⟩,
          ⟨"alias", "NAME", .isPublic, some .isPrivate, .column .string⟩,
          ⟨"age", "age", .isPrivate, none, .other "i32"⟩], []⟩
        (.duplicateField "Person" "NAME") := by
  have hread : reflect ⟨"Person", [⟨"name", "Name", .isPublic, some .isPrivate, .column .string⟩,
      ⟨"row_type", "row_type", .isPublic, none, .typeDescriptor⟩,
      ⟨"age", "age", .isPublic, some .isPrivate, .column .integer⟩], []⟩ =
      .ok ⟨"Person", [.mk "Name" .string true, .mk "age" .integer true]⟩ := rfl
  obtain ⟨-, -, hfield, -, hnodup⟩ := (reflect_ok_iff_wellFormed _).2.1 _ hread
  exact ⟨_, hread, rfl, (hfield _ _).mpr ⟨by simp, by decide⟩, hnodup,
    ((reflect_ok_iff_wellFormed _).2.2 _).mp rfl⟩

end Columnar
