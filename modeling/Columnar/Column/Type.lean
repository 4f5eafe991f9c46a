import Columnar.Literal.Host
import Columnar.Record.Shape

/-! The types of typed columns: leaves, arrays, maps with leaf keys, and structs shaped like a record.
A record is what its declaration says, whether or not that keeps the rules. The descriptor of a struct
column is the shape of its record; a record without a shape counts as one without fields. -/
namespace Columnar

/-- What a member declares besides what it holds. -/
structure MemberHead where
  name : String
  field : String
  getter : Visibility := .isPublic
  setter : Option Visibility := some .isPrivate
  deriving DecidableEq

def MemberHead.descriptor (h : MemberHead) (kind : MemberKind) : MemberDescriptor :=
  ⟨h.name, h.field, h.getter, h.setter, kind⟩

mutual

inductive ColumnType
  | leaf (leaf : Leaf)
  | array (element : ColumnType)
  | map (key : Leaf) (value : ColumnType)
  | struct (record : RecordType)

/-- A record type: its name, its members in declaration order, and its fields without accessors. -/
inductive RecordType
  | mk (name : String) (declared : List DeclaredMember) (plainFields : List String)

/-- A member that holds a column, the descriptor of its record, or anything else. -/
inductive DeclaredMember
  | column (head : MemberHead) (type : ColumnType)
  | typeDescriptor (head : MemberHead)
  | other (head : MemberHead) (type : String)

end

/-- A member that holds a column, with the name of the field that it stands for. -/
structure RecordMember where
  name : String
  field : String
  type : ColumnType

namespace DeclaredMember

def column? : DeclaredMember → Option RecordMember
  | column head type => some ⟨head.name, head.field, type⟩
  | typeDescriptor _ | other _ _ => none

/-- The members that hold columns. -/
def columns (declared : List DeclaredMember) : List RecordMember := declared.filterMap column?

/-- A column as the rules want it: all may read it, and its record alone may set it. -/
def ofMember (m : RecordMember) : DeclaredMember := column { name := m.name, field := m.field } m.type

end DeclaredMember

namespace RecordType

def name : RecordType → String
  | mk name _ _ => name

def declared : RecordType → List DeclaredMember
  | mk _ declared _ => declared

def plainFields : RecordType → List String
  | mk _ _ plainFields => plainFields

def members (r : RecordType) : List RecordMember := DeclaredMember.columns r.declared

def member? (r : RecordType) (name : String) : Option RecordMember :=
  r.members.find? (·.name == name)

/-- The record of the given members and nothing else. -/
def ofMembers (name : String) (members : List RecordMember) : RecordType :=
  mk name (members.map .ofMember) []

/-- The record that a declaration of the given members makes. Its own descriptor comes last. -/
def declare (name : String) (members : List RecordMember) : RecordType :=
  mk name (members.map .ofMember ++
    [.typeDescriptor { name := "data_type", field := "data_type", setter := none }]) []

end RecordType

mutual

def ColumnType.same : ColumnType → ColumnType → Bool
  | .leaf a, .leaf b => a == b
  | .array a, .array b => ColumnType.same a b
  | .map j a, .map k b => j == k && ColumnType.same a b
  | .struct a, .struct b => RecordType.same a b
  | _, _ => false
termination_by structural a => a

def RecordType.same : RecordType → RecordType → Bool
  | .mk a ms ps, .mk b ns qs => a == b && DeclaredMember.sameAll ms ns && ps == qs
termination_by structural a => a

def DeclaredMember.same : DeclaredMember → DeclaredMember → Bool
  | .column a t, .column b u => a == b && ColumnType.same t u
  | .typeDescriptor a, .typeDescriptor b => a == b
  | .other a t, .other b u => a == b && t == u
  | _, _ => false
termination_by structural a => a

def DeclaredMember.sameAll : List DeclaredMember → List DeclaredMember → Bool
  | [], [] => true
  | m :: ms, n :: ns => DeclaredMember.same m n && DeclaredMember.sameAll ms ns
  | _, _ => false
termination_by structural a => a

end

mutual

theorem ColumnType.eq_of_same : ∀ {a b : ColumnType}, a.same b = true → a = b := by
  intro a b h
  cases a <;> cases b <;>
    simp_all only [ColumnType.same, Bool.and_eq_true, beq_iff_eq, Bool.false_eq_true]
  case array.array => rw [ColumnType.eq_of_same h]
  case map.map => rw [ColumnType.eq_of_same h.2]
  case struct.struct => rw [RecordType.eq_of_same h]

theorem RecordType.eq_of_same : ∀ {a b : RecordType}, a.same b = true → a = b := by
  intro a b h
  cases a; cases b
  simp only [RecordType.same, Bool.and_eq_true, beq_iff_eq] at h
  rw [h.1.1, DeclaredMember.eq_of_sameAll h.1.2, h.2]

theorem DeclaredMember.eq_of_same : ∀ {a b : DeclaredMember}, a.same b = true → a = b := by
  intro a b h
  cases a <;> cases b <;>
    simp_all only [DeclaredMember.same, Bool.and_eq_true, beq_iff_eq, Bool.false_eq_true]
  case column.column => rw [ColumnType.eq_of_same h.2]

theorem DeclaredMember.eq_of_sameAll :
    ∀ {as bs : List DeclaredMember}, DeclaredMember.sameAll as bs = true → as = bs := by
  intro as bs h
  cases as <;> cases bs <;>
    simp_all only [DeclaredMember.sameAll, Bool.and_eq_true, Bool.false_eq_true]
  rw [DeclaredMember.eq_of_same h.1, DeclaredMember.eq_of_sameAll h.2]

end

mutual

theorem ColumnType.same_self : ∀ a : ColumnType, a.same a = true := by
  intro a
  cases a <;> simp only [ColumnType.same, Bool.and_eq_true, beq_self_eq_true, true_and]
  case array t => exact ColumnType.same_self t
  case map _ t => exact ColumnType.same_self t
  case struct r => exact RecordType.same_self r

theorem RecordType.same_self : ∀ a : RecordType, a.same a = true := by
  intro a
  cases a with
  | mk _ ms _ => simp [RecordType.same, DeclaredMember.sameAll_self ms]

theorem DeclaredMember.same_self : ∀ a : DeclaredMember, a.same a = true := by
  intro a
  cases a with
  | column _ t => simp [DeclaredMember.same, ColumnType.same_self t]
  | typeDescriptor | other => simp [DeclaredMember.same]

theorem DeclaredMember.sameAll_self :
    ∀ as : List DeclaredMember, DeclaredMember.sameAll as as = true := by
  intro as
  cases as with
  | nil => rfl
  | cons a as =>
    simp [DeclaredMember.sameAll, DeclaredMember.same_self a, DeclaredMember.sameAll_self as]

end

instance : DecidableEq ColumnType := fun a b =>
  decidable_of_iff (a.same b = true) ⟨ColumnType.eq_of_same, fun h => h ▸ ColumnType.same_self a⟩

instance : DecidableEq RecordType := fun a b =>
  decidable_of_iff (a.same b = true) ⟨RecordType.eq_of_same, fun h => h ▸ RecordType.same_self a⟩

mutual

def ColumnType.dataType : ColumnType → DataType
  | .leaf l => l.dataType
  | .array element => .array element.dataType true
  | .map key value => .map key.dataType value.dataType true
  | .struct record =>
    match reflect record.descriptor with
    | .ok shape => shape.dataType
    | .error _ => .struct []

def RecordType.descriptor : RecordType → RecordDescriptor
  | .mk name declared plainFields => ⟨name, DeclaredMember.descriptors declared, plainFields⟩

def DeclaredMember.descriptor : DeclaredMember → MemberDescriptor
  | .column head type => head.descriptor (.column type.dataType)
  | .typeDescriptor head => head.descriptor .typeDescriptor
  | .other head type => head.descriptor (.other type)

def DeclaredMember.descriptors : List DeclaredMember → List MemberDescriptor
  | [] => []
  | m :: ms => m.descriptor :: DeclaredMember.descriptors ms

end

def RecordType.shape (r : RecordType) : Except SchemaError RecordShape := reflect r.descriptor

/-- The field names of a record, and none if it has no shape. -/
def RecordType.fieldNames (r : RecordType) : List String :=
  match r.shape with
  | .ok shape => shape.fieldNames
  | .error _ => []

/-- The literal type of a column type whose host values have literals. -/
def ColumnType.literalType? : ColumnType → Option LiteralType
  | .leaf l => some (.leaf l)
  | .array element => element.literalType?.map .array
  | _ => none

namespace ColumnType

abbrev boolean : ColumnType := leaf .boolean
abbrev integer : ColumnType := leaf .integer
abbrev long : ColumnType := leaf .long
abbrev double : ColumnType := leaf .double
abbrev string : ColumnType := leaf .string

end ColumnType

namespace RecordType

/-- The record of the entries of a map. -/
def mapEntry (key : Leaf) (value : ColumnType) : RecordType :=
  .ofMembers "MapEntry" [⟨"key", "key", .leaf key⟩, ⟨"value", "value", value⟩]

def tupleMembers : Nat → List ColumnType → List RecordMember
  | _, [] => []
  | i, t :: ts =>
    ⟨"item" ++ Number.natural i, "item" ++ Number.natural i, t⟩ :: tupleMembers (i + 1) ts

/-- The record of a tuple, with members counted from 1. -/
def tuple (items : List ColumnType) : RecordType :=
  .ofMembers ("Tuple" ++ Number.natural items.length) (tupleMembers 1 items)

end RecordType

end Columnar
