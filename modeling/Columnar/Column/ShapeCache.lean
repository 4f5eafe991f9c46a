import Columnar.Column.Type

/-! Shapes of declared records, kept from one request to the next. Only records that have a shape are
kept, so a refused record is looked at again each time. -/
namespace Columnar

structure ShapeCache where
  entries : List (RecordType × RecordShape) := []

namespace ShapeCache

def find? (c : ShapeCache) (r : RecordType) : Option RecordShape :=
  (c.entries.find? fun entry => entry.1 = r).map Prod.snd

/-- Keeps a shape, unless one is kept for the record already. -/
def insert (c : ShapeCache) (r : RecordType) (s : RecordShape) : ShapeCache :=
  match c.find? r with
  | some _ => c
  | none => ⟨(r, s) :: c.entries⟩

end ShapeCache

mutual

/-- The descriptor of a column type, with the shapes of its records taken from the cache. -/
def ColumnType.dataTypeFrom : ColumnType → ShapeCache → DataType × ShapeCache
  | .leaf l, c => (l.dataType, c)
  | .array element, c =>
    let (t, c) := ColumnType.dataTypeFrom element c
    (.array t true, c)
  | .map key value, c =>
    let (t, c) := ColumnType.dataTypeFrom value c
    (.map key.dataType t true, c)
  | .struct record, c =>
    match RecordType.shapeFrom record c with
    | (.ok shape, c) => (shape.dataType, c)
    | (.error _, c) => (.struct [], c)
termination_by structural t => t

/-- The shape of a record: the one that is kept, or the one that its members give. -/
def RecordType.shapeFrom : RecordType → ShapeCache → Except SchemaError RecordShape × ShapeCache
  | .mk name declared plainFields, c =>
    match c.find? (.mk name declared plainFields) with
    | some shape => (.ok shape, c)
    | none =>
      let (descriptors, c) := DeclaredMember.descriptorsFrom declared c
      match reflect ⟨name, descriptors, plainFields⟩ with
      | .ok shape => (.ok shape, c.insert (.mk name declared plainFields) shape)
      | .error e => (.error e, c)
termination_by structural r => r

def DeclaredMember.descriptorFrom : DeclaredMember → ShapeCache → MemberDescriptor × ShapeCache
  | .column head type, c =>
    let (t, c) := ColumnType.dataTypeFrom type c
    (head.descriptor (.column t), c)
  | .typeDescriptor head, c => (head.descriptor .typeDescriptor, c)
  | .other head type, c => (head.descriptor (.other type), c)
termination_by structural m => m

def DeclaredMember.descriptorsFrom :
    List DeclaredMember → ShapeCache → List MemberDescriptor × ShapeCache
  | [], c => ([], c)
  | m :: ms, c =>
    let (d, c) := m.descriptorFrom c
    let (ds, c) := DeclaredMember.descriptorsFrom ms c
    (d :: ds, c)
termination_by structural ms => ms

end

end Columnar
