import Columnar.Proofs.DataType.Place
import Columnar.Proofs.DataType.Schema
import Columnar.Proofs.Record.Reflection

/-! What a record definition comes to. The types of all fields are read first, and only when all of
them can be read are the members looked at, like those of any declaration. The shape of a definition
can be written and read back in both forms, since whatever is read from a text may be null
everywhere. A type name that is refused keeps its error up to the definition. -/
namespace Columnar

namespace FieldDefinition

/-- The member that a field definition stands for, once its type can be read. -/
def Declares (f : FieldDefinition) (m : MemberDescriptor) : Prop :=
  ∃ type, DataType.parse f.type = .ok type ∧
    m = ⟨f.name, f.column.getD f.name, f.getter, f.setter, .column type⟩

/-- The field that a field definition becomes. -/
def Becomes (f : FieldDefinition) (g : StructField) : Prop :=
  g.name = f.column.getD f.name ∧ DataType.parse f.type = .ok g.type ∧ g.nullable = true

theorem Declares.becomes {f : FieldDefinition} {m : MemberDescriptor} {g : StructField}
    (h : f.Declares m) (hg : m.Becomes g) : f.Becomes g := by
  obtain ⟨type, htype, rfl⟩ := h
  obtain ⟨type', hcolumn, rfl⟩ := hg
  obtain rfl : type = type' := MemberKind.column.inj hcolumn.kind
  exact ⟨rfl, htype, rfl⟩

theorem forall_becomes {fs : List FieldDefinition} {ms : List MemberDescriptor}
    {gs : List StructField} (h : List.Forall₂ Declares fs ms)
    (hg : List.Forall₂ MemberDescriptor.Becomes ms gs) : List.Forall₂ Becomes fs gs := by
  induction h generalizing gs with
  | nil =>
    cases hg
    exact .nil
  | cons hf _ ih =>
    cases hg with
    | cons hg hgs => exact .cons (hf.becomes hg) (ih hgs)

theorem member_eq_ok_iff {f : FieldDefinition} {m : MemberDescriptor} :
    f.member = .ok m ↔ f.Declares m := by
  unfold member Declares
  cases DataType.parse f.type <;> simp [eq_comm]

theorem member_eq_error_iff {f : FieldDefinition} {e : SchemaError} :
    f.member = .error e ↔ ∃ cause, DataType.parse f.type = .error cause ∧
      e = .badType f.name cause := by
  unfold member
  cases DataType.parse f.type <;> simp [eq_comm]

theorem exists_member_iff {f : FieldDefinition} :
    (∃ m, f.member = .ok m) ↔ ∃ type, DataType.parse f.type = .ok type := by
  simp [member_eq_ok_iff, Declares]

end FieldDefinition

namespace RecordDefinition

/-- The shape of a definition, or why it has none: plain fields count first, then the first field
whose type cannot be read, and then the members as in any declaration. -/
inductive Yields (d : RecordDefinition) : Except SchemaError RecordShape → Prop
  | plainFields (h : d.plainFields ≠ []) :
    d.Yields (.error (.fieldsNotAllowed d.name d.plainFields))
  | badType {front rest : List FieldDefinition} {f : FieldDefinition} {cause : TypeError}
    (hplain : d.plainFields = []) (hfields : d.fields = front ++ f :: rest)
    (hfront : ∀ g ∈ front, ∃ type, DataType.parse g.type = .ok type)
    (hf : DataType.parse f.type = .error cause) : d.Yields (.error (.badType f.name cause))
  | members {members : List MemberDescriptor} (hplain : d.plainFields = [])
    (hmembers : List.Forall₂ FieldDefinition.Declares d.fields members) :
    d.Yields (reflect ⟨d.name, members, []⟩)

theorem descriptor_eq {d : RecordDefinition} (h : d.plainFields = []) :
    d.descriptor = (d.fields.mapM FieldDefinition.member).map (⟨d.name, ·, []⟩) := by
  simp [descriptor, h]

theorem shape_of_plainFields {d : RecordDefinition} (h : d.plainFields ≠ []) :
    d.shape = .error (.fieldsNotAllowed d.name d.plainFields) := by
  rw [shape, descriptor, if_neg (by simpa using h)]
  rfl

theorem shape_of_badType {d : RecordDefinition} {front rest : List FieldDefinition}
    {f : FieldDefinition} {cause : TypeError} (hplain : d.plainFields = [])
    (hfields : d.fields = front ++ f :: rest)
    (hfront : ∀ g ∈ front, ∃ type, DataType.parse g.type = .ok type)
    (hf : DataType.parse f.type = .error cause) : d.shape = .error (.badType f.name cause) := by
  have hbad : f.member = .error (.badType f.name cause) :=
    FieldDefinition.member_eq_error_iff.mpr ⟨cause, hf, rfl⟩
  have hread := mapM_of_error (fun g hg => FieldDefinition.exists_member_iff.mpr (hfront g hg)) hbad
    rest
  rw [shape, descriptor_eq hplain, hfields, hread]
  rfl

theorem shape_of_members {d : RecordDefinition} {members : List MemberDescriptor}
    (hplain : d.plainFields = [])
    (hmembers : List.Forall₂ FieldDefinition.Declares d.fields members) :
    d.shape = reflect ⟨d.name, members, []⟩ := by
  have hread : d.fields.mapM FieldDefinition.member = .ok members :=
    mapM_eq_ok_iff.mpr (hmembers.imp fun _ _ => FieldDefinition.member_eq_ok_iff.mpr)
  rw [shape, descriptor_eq hplain, hread]
  rfl

/-- Every definition is of one of the three kinds. -/
theorem yields_shape (d : RecordDefinition) : d.Yields d.shape := by
  by_cases hplain : d.plainFields = []
  · cases hread : d.fields.mapM FieldDefinition.member with
    | ok members =>
      have hmembers : List.Forall₂ FieldDefinition.Declares d.fields members :=
        (mapM_eq_ok_iff.mp hread).imp fun _ _ => FieldDefinition.member_eq_ok_iff.mp
      rw [shape_of_members hplain hmembers]
      exact .members hplain hmembers
    | error e =>
      obtain ⟨front, f, rest, hfields, hfront, hf⟩ := exists_error_of_mapM hread
      obtain ⟨cause, hcause, -⟩ := FieldDefinition.member_eq_error_iff.mp hf
      have hfront : ∀ g ∈ front, ∃ type, DataType.parse g.type = .ok type :=
        fun g hg => FieldDefinition.exists_member_iff.mp (hfront g hg)
      rw [shape_of_badType hplain hfields hfront hcause]
      exact .badType hplain hfields hfront hcause
  · rw [shape_of_plainFields hplain]
    exact .plainFields hplain

theorem Yields.shape_eq {d : RecordDefinition} {r : Except SchemaError RecordShape}
    (h : d.Yields r) : d.shape = r := by
  cases h with
  | plainFields h => exact shape_of_plainFields h
  | badType hplain hfields hfront hf => exact shape_of_badType hplain hfields hfront hf
  | members hplain hmembers => exact shape_of_members hplain hmembers

/-! A definition that has a shape: its fields are those of the definition, and they are written and
read back as they are. -/

theorem exists_members_of_shape {d : RecordDefinition} {s : RecordShape} (h : d.shape = .ok s) :
    ∃ members, List.Forall₂ FieldDefinition.Declares d.fields members ∧
      reflect ⟨d.name, members, []⟩ = .ok s := by
  have hyields := d.yields_shape
  generalize d.shape = r at h hyields
  cases hyields with
  | plainFields _ => cases h
  | badType _ _ _ _ => cases h
  | members _ hmembers => exact ⟨_, hmembers, h⟩

theorem columns_of_declares {fields : List FieldDefinition} {members : List MemberDescriptor}
    (h : List.Forall₂ FieldDefinition.Declares fields members) (name : String) :
    RecordDescriptor.columns ⟨name, members, []⟩ = members := by
  rw [RecordDescriptor.columns, List.filter_eq_self]
  induction h with
  | nil => simp
  | cons hf _ ih =>
    obtain ⟨type, -, rfl⟩ := hf
    exact List.forall_mem_cons.mpr ⟨rfl, ih⟩

theorem becomes_of_shape {d : RecordDefinition} {s : RecordShape} (h : d.shape = .ok s) :
    List.Forall₂ FieldDefinition.Becomes d.fields s.fields := by
  obtain ⟨members, hmembers, hreflect⟩ := exists_members_of_shape h
  obtain ⟨s', hs', -, hfields⟩ :=
    (RecordDescriptor.wellFormed_of_reflect hreflect).reflect_eq
  obtain rfl : s = s' := Except.ok.inj (hreflect.symm.trans hs')
  rw [columns_of_declares hmembers] at hfields
  exact FieldDefinition.forall_becomes hmembers hfields

end RecordDefinition

namespace DataType

theorem allNullable_of_parse {text : String} {t : DataType} (h : parse text = .ok t) :
    t.AllNullable := by
  obtain ⟨rest, hderives, -⟩ := denotes_of_parse_eq_ok h
  exact hderives.image.1

theorem image_of_becomes {fs : List FieldDefinition} {gs : List StructField}
    (h : List.Forall₂ FieldDefinition.Becomes fs gs) :
    AllNullableFields gs ∧ DecimalsFitFields gs := by
  induction h with
  | nil => exact ⟨trivial, trivial⟩
  | @cons f g _ _ hg _ ih =>
    obtain ⟨name, type, nullable⟩ := g
    obtain ⟨-, htype, hnullable⟩ := hg
    exact ⟨⟨⟨hnullable, allNullable_of_parse htype⟩, ih.1⟩, decimalsFit_of_parse htype, ih.2⟩

end DataType

namespace RecordDefinition

theorem round_trip_of_shape {d : RecordDefinition} {s : RecordShape} (h : d.shape = .ok s) :
    DataType.parse s.dataType.text = .ok s.dataType ∧
      DataType.ofJson s.dataType.toJson = .ok s.dataType := by
  obtain ⟨hnullable, hfit⟩ := DataType.image_of_becomes (becomes_of_shape h)
  have hnullable : s.dataType.AllNullable := hnullable
  have hfit : s.dataType.DecimalsFit := hfit
  have hread := DataType.parse_eq_ok_of_denotes (DataType.denotes_text hfit)
  rw [hnullable.relaxed_eq] at hread
  exact ⟨hread, DataType.ofJson_toJson s.dataType hfit⟩

theorem bind_of_shape {d : RecordDefinition} {s : RecordShape} (h : d.shape = .ok s)
    (tableAlias : Option String) :
    ∃ bound, d.bind tableAlias = .ok bound ∧
      bound.map (fun b => (b.name, b.type)) = s.fields.map fun f => (f.name, f.type) := by
  refine ⟨s.bind (.ofAlias tableAlias), by rw [bind, h]; rfl, ?_⟩
  rw [RecordShape.bind, List.map_map]
  rfl

/-- A definition is refused for its plain fields, then for the first type that cannot be read, then
for its members. When it has a shape, the fields are those of the definition in order, the shape is
read back from both of its written forms as it is, and under every alias the fields are bound under
their names and types; otherwise binding them fails for the same reason. -/
theorem shape_eq_iff_yields (d : RecordDefinition) :
    (∀ r, d.shape = r ↔ d.Yields r) ∧
      (∀ s, d.shape = .ok s →
        List.Forall₂ FieldDefinition.Becomes d.fields s.fields ∧
          DataType.parse s.dataType.text = .ok s.dataType ∧
          DataType.ofJson s.dataType.toJson = .ok s.dataType ∧
          ∀ tableAlias, ∃ bound, d.bind tableAlias = .ok bound ∧
            bound.map (fun b => (b.name, b.type)) = s.fields.map fun f => (f.name, f.type)) ∧
      ∀ e, d.shape = .error e → ∀ tableAlias, d.bind tableAlias = .error e := by
  refine ⟨fun r => ⟨?_, Yields.shape_eq⟩, fun s hs => ?_, fun e he tableAlias => ?_⟩
  · rintro rfl
    exact d.yields_shape
  · obtain ⟨hparse, hjson⟩ := round_trip_of_shape hs
    exact ⟨becomes_of_shape hs, hparse, hjson, bind_of_shape hs⟩
  · rw [bind, he]
    rfl

theorem shape_eq_iff_yields_visit :
    ∃ s, shape ⟨"Visit", [⟨"at", some "visited at", "timestamp", .isPublic, some .isPrivate⟩,
        ⟨"fees", none, "map<text,decimal(8,2)>", .isPublic, some .isPrivate⟩], []⟩ = .ok s ∧
      s.fields = [.mk "visited at" .timestamp true,
        .mk "fees" (.map .string (.decimal 8 2) true) true] ∧
      DataType.parse s.dataType.text = .ok s.dataType ∧
      (∃ bound, bind ⟨"Visit", [⟨"at", some "visited at", "timestamp", .isPublic, some .isPrivate⟩,
          ⟨"fees", none, "map<text,decimal(8,2)>", .isPublic, some .isPrivate⟩], []⟩ (some "v") =
          .ok bound ∧
        bound.map (fun b => (b.name, b.type)) =
          [("visited at", .timestamp), ("fees", .map .string (.decimal 8 2) true)]) ∧
      bind ⟨"Visit", [⟨"at", none, "date", .isPublic, some .isPrivate⟩,
        ⟨"AT", none, "date", .isPublic, some .isPublic⟩,
        ⟨"by", none, "array<uuid>", .isPublic, some .isPrivate⟩], []⟩ (some "v") =
        .error (.badType "by" (.hostOnly "uuid")) := by
  have hshape : shape ⟨"Visit",
      [⟨"at", some "visited at", "timestamp", .isPublic, some .isPrivate⟩,
        ⟨"fees", none, "map<text,decimal(8,2)>", .isPublic, some .isPrivate⟩], []⟩ =
      .ok ⟨"Visit", [.mk "visited at" .timestamp true,
        .mk "fees" (.map .string (.decimal 8 2) true) true]⟩ := rfl
  obtain ⟨-, hparse, -, hbind⟩ := (shape_eq_iff_yields _).2.1 _ hshape
  exact ⟨_, hshape, rfl, hparse, hbind (some "v"), (shape_eq_iff_yields _).2.2 _ rfl _⟩

end RecordDefinition

/-! A name that is refused is refused in the same way wherever it stands. -/

section Refused

open DataType

/-- A refused name at a place of a text is what the text is refused for, whatever stands behind the
name, and so is every JSON value and every definition whose reading comes to the text with no error
before it. -/
theorem error_of_refused_name {name : String} {e : TypeError} {front leaf place rest : List Char}
    (hrefused : RefusedAs (Text.lower name) e) (hleaf : TypePlace leaf (front ++ leaf))
    (hname : TypeName name place rest) :
    parse (String.ofList (front ++ place)) = .error e ∧
      (∀ v, JsonPlace (.text (String.ofList (front ++ place))) v → ofJson v = .error e) ∧
      ∀ (d : RecordDefinition) (before after : List FieldDefinition) (f : FieldDefinition),
        d.plainFields = [] → d.fields = before ++ f :: after →
        (∀ g ∈ before, ∃ type, parse g.type = .ok type) →
        f.type = String.ofList (front ++ place) → d.shape = .error (.badType f.name e) := by
  have hparse : parse (String.ofList (front ++ place)) = .error e :=
    (hleaf.replace place).parse_error fun _ => hrefused.fails hname
  refine ⟨hparse, fun v hv => hv.read_error hparse, fun d before after f hplain hfields hbefore hf => ?_⟩
  exact RecordDefinition.shape_of_badType hplain hfields hbefore (hf ▸ hparse)

theorem error_of_refused_name_uuid :
    RefusedAs (Text.lower "UUID") (.hostOnly "uuid") ∧
      TypePlace "date>>".toList ("struct<id:int,by:map<text,".toList ++ "date>>".toList) ∧
      TypeName "UUID" " UUID) as".toList ") as".toList ∧
      parse "struct<id:int,by:map<text, UUID) as" = .error (.hostOnly "uuid") ∧
      ofJson (.object [("valueType", .null), ("type", .text "map"),
        ("keyType", .text "struct<id:int,by:map<text, UUID) as")]) = .error (.hostOnly "uuid") ∧
      RecordDefinition.shape ⟨"Visit", [⟨"at", none, "date", .isPublic, some .isPublic⟩,
        ⟨"by", some "AT", "struct<id:int,by:map<text, UUID) as", .isPublic, none⟩,
        ⟨"of", none, "array<", .isPublic, none⟩], []⟩ =
        .error (.badType "by" (.hostOnly "uuid")) := by
  have hrefused : RefusedAs (Text.lower "UUID") (.hostOnly "uuid") := .hostOnly (by decide)
  have htext : Derives .string "text,date>>".toList ",date>>".toList :=
    .leaf ((@readName_eq_ok_iff "" "text" _ _).mp rfl) (by decide)
  have hmap : TypePlace "date>>".toList "map<text,date>>".toList :=
    .value ((@readName_eq_ok_iff "" "map" _ _).mp rfl) rfl ⟨[], nofun, rfl⟩ htext ⟨[], nofun, rfl⟩
      .here
  have hint : Derives .integer "int,by:map<text,date>>".toList ",by:map<text,date>>".toList :=
    .leaf ((@readName_eq_ok_iff "" "int" _ _).mp rfl) (by decide)
  have hby : FieldPlace "date>>".toList "by:map<text,date>>".toList :=
    .first ((@readFieldName_eq_ok_iff "" "by" _ _).mp rfl) ⟨[], nofun, rfl⟩ hmap
  have hleaf : TypePlace "date>>".toList
      ("struct<id:int,by:map<text,".toList ++ "date>>".toList) :=
    .field ((@readName_eq_ok_iff "" "struct" _ _).mp rfl) rfl ⟨[], nofun, rfl⟩
      (.later ((@readFieldName_eq_ok_iff "" "id" _ _).mp rfl) ⟨[], nofun, rfl⟩ hint
        ⟨[], nofun, rfl⟩ hby)
  have hname : TypeName "UUID" " UUID) as".toList ") as".toList :=
    (@readName_eq_ok_iff "" "UUID" _ _).mp rfl
  obtain ⟨hparse, hjson, hshape⟩ := error_of_refused_name hrefused hleaf hname
  refine ⟨hrefused, hleaf, hname, hparse, hjson _ (.key rfl rfl .here), ?_⟩
  refine hshape _ [⟨"at", none, "date", .isPublic, some .isPublic⟩]
    [⟨"of", none, "array<", .isPublic, none⟩]
    ⟨"by", some "AT", "struct<id:int,by:map<text, UUID) as", .isPublic, none⟩ rfl rfl
    (fun g hg => ?_) rfl
  obtain rfl := List.mem_singleton.mp hg
  exact ⟨.date, rfl⟩

end Refused

end Columnar
