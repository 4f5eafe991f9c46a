import Columnar.Column.ShapeCache
import Columnar.Proofs.Record.Nested

/-! Shapes through the cache. Every answer is the one that is given without a cache, and what has been
asked settles what is kept: the shape of each record that the requests hold, if it has one. -/
namespace Columnar

/-- What is asked of the cache: the shape of a record, or the descriptor of a column type. -/
inductive ShapeRequest
  | shape (record : RecordType)
  | dataType (type : ColumnType)

inductive ShapeAnswer
  | shape (result : Except SchemaError RecordShape)
  | dataType (type : DataType)

namespace ShapeRequest

def answerFrom : ShapeRequest → ShapeCache → ShapeAnswer × ShapeCache
  | shape record, c => (record.shapeFrom c).map .shape id
  | dataType type, c => (type.dataTypeFrom c).map .dataType id

def answer : ShapeRequest → ShapeAnswer
  | shape record => .shape record.shape
  | dataType type => .dataType type.dataType

/-- The column type whose records a request looks at. -/
def type : ShapeRequest → ColumnType
  | shape record => .struct record
  | dataType type => type

end ShapeRequest

namespace ShapeCache

def run (c : ShapeCache) : List ShapeRequest → List ShapeAnswer × ShapeCache
  | [] => ([], c)
  | request :: requests =>
    let (answer, c) := request.answerFrom c
    let (answers, c) := c.run requests
    (answer :: answers, c)

theorem run_cons (c : ShapeCache) (request : ShapeRequest) (requests : List ShapeRequest) :
    c.run (request :: requests) =
      ((request.answerFrom c).1 :: ((request.answerFrom c).2.run requests).1,
        ((request.answerFrom c).2.run requests).2) := rfl

/-- A cache that keeps the shapes of the records of a set, as far as they have one, and no others. With
a record the set has all records inside it. -/
structure Keeps (c : ShapeCache) (asked : RecordType → Prop) : Prop where
  find?_eq_some_iff : ∀ r s, c.find? r = some s ↔ asked r ∧ r.shape = .ok s
  closed : ∀ r q, asked r → Holds (.struct r) q → asked q

theorem find?_insert (c : ShapeCache) (r q : RecordType) (s : RecordShape) :
    (c.insert r s).find? q = if q = r then some ((c.find? r).getD s) else c.find? q := by
  unfold insert
  split
  · next kept hkept =>
    split
    · next heq => rw [heq, hkept, Option.getD_some]
    · rfl
  · next hnone =>
    by_cases heq : q = r
    · rw [if_pos heq, hnone, Option.getD_none]
      simp [find?, heq]
    · rw [if_neg heq]
      simp [find?, Ne.symm heq]

theorem keeps_empty : Keeps {} fun _ => False where
  find?_eq_some_iff r s := by simp [find?]
  closed _ _ h := h.elim

namespace Keeps

variable {c : ShapeCache} {asked asked' : RecordType → Prop}

theorem congr (h : c.Keeps asked) (hasked : ∀ q, asked q ↔ asked' q) : c.Keeps asked' := by
  have heq : asked = asked' := funext fun q => propext (hasked q)
  exact heq ▸ h

/-- A record whose members have been asked for is added with its shape, if it has one. -/
theorem reflected (h : c.Keeps asked) {r : RecordType}
    (hmembers : ∀ m ∈ r.members, ∀ q, Holds m.type q → asked q) :
    (match r.shape with
      | .ok s => c.insert r s
      | .error _ => c).Keeps fun q => q = r ∨ asked q := by
  have hclosed : ∀ p q, p = r ∨ asked p → Holds (.struct p) q → q = r ∨ asked q := by
    rintro p q (rfl | hp) hq
    · exact (holds_struct_iff.mp hq).imp_right fun ⟨m, hm, hq⟩ => hmembers m hm q hq
    · exact .inr (h.closed p q hp hq)
  cases hr : r.shape with
  | error e =>
    refine ⟨fun q t => ?_, hclosed⟩
    rw [h.find?_eq_some_iff]
    by_cases heq : q = r <;> simp [heq, hr]
  | ok s =>
    refine ⟨fun q t => ?_, hclosed⟩
    rw [find?_insert]
    split
    · next heq =>
      subst heq
      -- An entry that is there already was put there for the same record.
      have hkept : (c.find? q).getD s = s := by
        cases hfind : c.find? q with
        | none => rfl
        | some u =>
          obtain ⟨-, hu⟩ := (h.find?_eq_some_iff q u).mp hfind
          rw [Option.getD_some]
          exact Except.ok.inj (hu.symm.trans hr)
      simp [hkept, hr]
    · next hne => simp [h.find?_eq_some_iff, hne]

end Keeps

theorem dataTypeFrom_array (element : ColumnType) (c : ShapeCache) :
    (ColumnType.array element).dataTypeFrom c =
      (.array (element.dataTypeFrom c).1 true, (element.dataTypeFrom c).2) := rfl

theorem dataTypeFrom_map (key : Leaf) (value : ColumnType) (c : ShapeCache) :
    (ColumnType.map key value).dataTypeFrom c =
      (.map key.dataType (value.dataTypeFrom c).1 true, (value.dataTypeFrom c).2) := rfl

theorem dataTypeFrom_struct (r : RecordType) (c : ShapeCache) :
    (ColumnType.struct r).dataTypeFrom c =
      (match (r.shapeFrom c).1 with
        | .ok s => s.dataType
        | .error _ => .struct [], (r.shapeFrom c).2) := by
  rw [ColumnType.dataTypeFrom]
  split <;> next heq => rw [heq]

theorem descriptorFrom_column (head : MemberHead) (type : ColumnType) (c : ShapeCache) :
    (DeclaredMember.column head type).descriptorFrom c =
      (head.descriptor (.column (type.dataTypeFrom c).1), (type.dataTypeFrom c).2) := rfl

theorem descriptorsFrom_cons (m : DeclaredMember) (declared : List DeclaredMember)
    (c : ShapeCache) :
    DeclaredMember.descriptorsFrom (m :: declared) c =
      ((m.descriptorFrom c).1 ::
          (DeclaredMember.descriptorsFrom declared (m.descriptorFrom c).2).1,
        (DeclaredMember.descriptorsFrom declared (m.descriptorFrom c).2).2) := rfl

theorem shapeFrom_of_kept {c : ShapeCache} {r : RecordType} {s : RecordShape}
    (h : c.find? r = some s) : r.shapeFrom c = (.ok s, c) := by
  obtain ⟨name, declared, plainFields⟩ := r
  rw [RecordType.shapeFrom, h]

/-- A record that is not kept is reflected from what its members give, and kept if it has a shape. -/
theorem shapeFrom_of_not_kept {c c' : ShapeCache} {r : RecordType}
    (h : c.find? r = none)
    (hmembers : DeclaredMember.descriptorsFrom r.declared c =
      (DeclaredMember.descriptors r.declared, c')) :
    r.shapeFrom c = (r.shape, match r.shape with
      | .ok s => c'.insert r s
      | .error _ => c') := by
  obtain ⟨name, declared, plainFields⟩ := r
  change DeclaredMember.descriptorsFrom declared c = (DeclaredMember.descriptors declared, c')
    at hmembers
  have hshape : reflect ⟨name, DeclaredMember.descriptors declared, plainFields⟩ =
      RecordType.shape (.mk name declared plainFields) := rfl
  rw [RecordType.shapeFrom, h]
  simp only [hmembers, hshape]
  split <;> next heq => rw [heq]

mutual

/-- The descriptor of a column type is the same through any cache, and all records of the type are
asked for on the way. -/
theorem dataTypeFrom_eq {c : ShapeCache} {asked : RecordType → Prop} (t : ColumnType)
    (h : c.Keeps asked) :
    (t.dataTypeFrom c).1 = t.dataType ∧
      (t.dataTypeFrom c).2.Keeps fun q => asked q ∨ Holds t q := by
  match t with
  | .leaf l =>
    rw [ColumnType.dataTypeFrom, ColumnType.dataType]
    exact ⟨rfl, h.congr fun q => by simp [not_holds_leaf]⟩
  | .array element =>
    obtain ⟨heq, hkeeps⟩ := dataTypeFrom_eq element h
    rw [dataTypeFrom_array, ColumnType.dataType, heq]
    exact ⟨rfl, hkeeps.congr fun q => by rw [holds_array_iff]⟩
  | .map key value =>
    obtain ⟨heq, hkeeps⟩ := dataTypeFrom_eq value h
    rw [dataTypeFrom_map, ColumnType.dataType, heq]
    exact ⟨rfl, hkeeps.congr fun q => by rw [holds_map_iff]⟩
  | .struct record =>
    obtain ⟨heq, hkeeps⟩ := shapeFrom_eq record h
    rw [dataTypeFrom_struct, dataType_struct, heq]
    exact ⟨rfl, hkeeps⟩

/-- The shape of a record is the same through any cache, and the record is asked for with all records
inside it. -/
theorem shapeFrom_eq {c : ShapeCache} {asked : RecordType → Prop} (r : RecordType)
    (h : c.Keeps asked) :
    (r.shapeFrom c).1 = r.shape ∧
      (r.shapeFrom c).2.Keeps fun q => asked q ∨ Holds (.struct r) q := by
  cases hfind : c.find? r with
  | some kept =>
    obtain ⟨hasked, hshape⟩ := (h.find?_eq_some_iff r kept).mp hfind
    rw [shapeFrom_of_kept hfind]
    refine ⟨hshape.symm, h.congr fun q => ?_⟩
    constructor
    · exact .inl
    · rintro (hq | hq)
      · exact hq
      · exact h.closed r q hasked hq
  | none =>
    match r with
    | .mk name declared plainFields =>
      obtain ⟨hdescriptors, hkeeps⟩ := descriptorsFrom_eq declared h
      have hmembers : DeclaredMember.descriptorsFrom declared c =
          (DeclaredMember.descriptors declared, (DeclaredMember.descriptorsFrom declared c).2) :=
        Prod.ext hdescriptors rfl
      rw [shapeFrom_of_not_kept hfind hmembers]
      have hreflected := hkeeps.reflected (r := .mk name declared plainFields)
        fun m hm q hq => .inr ⟨m, hm, hq⟩
      refine ⟨rfl, hreflected.congr fun q => ?_⟩
      rw [holds_struct_iff]
      exact or_left_comm

/-- The descriptors of the members of a record are the same through any cache, and all records inside
its columns are asked for, also if the record is going to be refused. -/
theorem descriptorsFrom_eq {c : ShapeCache} {asked : RecordType → Prop}
    (declared : List DeclaredMember) (h : c.Keeps asked) :
    (DeclaredMember.descriptorsFrom declared c).1 = DeclaredMember.descriptors declared ∧
      (DeclaredMember.descriptorsFrom declared c).2.Keeps fun q =>
        asked q ∨ ∃ m ∈ DeclaredMember.columns declared, Holds m.type q := by
  match declared with
  | [] =>
    rw [DeclaredMember.descriptorsFrom, DeclaredMember.descriptors]
    exact ⟨rfl, h.congr fun q => by simp [DeclaredMember.columns]⟩
  | .typeDescriptor head :: declared | .other head _ :: declared =>
    obtain ⟨hrest, hkeeps⟩ := descriptorsFrom_eq declared h
    exact ⟨congrArg (_ :: ·) hrest, hkeeps⟩
  | .column head type :: declared =>
    obtain ⟨htype, hkeeps⟩ := dataTypeFrom_eq type h
    obtain ⟨hrest, hkeeps⟩ := descriptorsFrom_eq declared hkeeps
    rw [descriptorsFrom_cons, descriptorFrom_column, DeclaredMember.descriptors, htype, hrest]
    refine ⟨rfl, hkeeps.congr fun q => ?_⟩
    rw [DeclaredMember.columns_cons_column, List.exists_mem_cons_iff, or_assoc]

end

theorem answerFrom_eq {c : ShapeCache} {asked : RecordType → Prop} (request : ShapeRequest)
    (h : c.Keeps asked) :
    (request.answerFrom c).1 = request.answer ∧
      (request.answerFrom c).2.Keeps fun q => asked q ∨ Holds request.type q := by
  cases request with
  | shape record =>
    obtain ⟨heq, hkeeps⟩ := shapeFrom_eq record h
    exact ⟨congrArg ShapeAnswer.shape heq, hkeeps⟩
  | dataType type =>
    obtain ⟨heq, hkeeps⟩ := dataTypeFrom_eq type h
    exact ⟨congrArg ShapeAnswer.dataType heq, hkeeps⟩

/-- Requests one after the other: by induction on them, with what has been asked so far. -/
theorem run_eq {c : ShapeCache} {asked : RecordType → Prop} (requests : List ShapeRequest)
    (h : c.Keeps asked) :
    (c.run requests).1 = requests.map ShapeRequest.answer ∧
      (c.run requests).2.Keeps fun q => asked q ∨ ∃ request ∈ requests, Holds request.type q := by
  induction requests generalizing c asked with
  | nil => exact ⟨rfl, h.congr fun q => by simp⟩
  | cons request requests ih =>
    obtain ⟨hanswer, hkeeps⟩ := answerFrom_eq request h
    obtain ⟨hanswers, hkeeps⟩ := ih hkeeps
    rw [run_cons, hanswer, hanswers]
    refine ⟨rfl, hkeeps.congr fun q => ?_⟩
    rw [List.exists_mem_cons_iff, or_assoc]

theorem run_append (c : ShapeCache) (requests later : List ShapeRequest) :
    c.run (requests ++ later) =
      ((c.run requests).1 ++ ((c.run requests).2.run later).1, ((c.run requests).2.run later).2) := by
  induction requests generalizing c with
  | nil => rfl
  | cons request requests ih => rw [List.cons_append, run_cons, run_cons, ih, List.cons_append]

/-- Describing the members of a record is a run of requests for their descriptors. -/
theorem descriptorsFrom_eq_run (declared : List DeclaredMember) (c : ShapeCache) :
    (DeclaredMember.descriptorsFrom declared c).2 =
      (c.run ((DeclaredMember.columns declared).map fun m => .dataType m.type)).2 := by
  induction declared generalizing c with
  | nil => rfl
  | cons m declared ih =>
    cases m with
    | typeDescriptor head | other head type => exact ih c
    | column head type => exact ih (type.dataTypeFrom c).2

/-- Asking through the cache, in any order and any number of times, starting with nothing kept: the
answers are those without a cache; a record is kept exactly if a request holds it and it has a shape,
with that shape, and one that is refused is not kept; what is kept stays as it is; and the state
that a request finds while it describes members is again one that requests lead to. -/
theorem run_eq_uncached (requests : List ShapeRequest) :
    (run {} requests).1 = requests.map ShapeRequest.answer ∧
    (∀ r s, (run {} requests).2.find? r = some s ↔
      (∃ request ∈ requests, Holds request.type r) ∧ r.shape = .ok s) ∧
    (∀ r e, r.shape = .error e → (run {} requests).2.find? r = none) ∧
    (∀ later r s, (run {} requests).2.find? r = some s →
      (run {} (requests ++ later)).2.find? r = some s) ∧
    ∀ declared, (DeclaredMember.descriptorsFrom declared (run {} requests).2).2 =
      (run {} (requests ++ (DeclaredMember.columns declared).map fun m =>
        .dataType m.type)).2 := by
  have hkept : ∀ requests r s, (run {} requests).2.find? r = some s ↔
      (∃ request ∈ requests, Holds request.type r) ∧ r.shape = .ok s := by
    intro requests r s
    rw [(run_eq requests keeps_empty).2.find?_eq_some_iff, false_or]
  refine ⟨(run_eq requests keeps_empty).1, hkept requests, ?_, ?_, ?_⟩
  · intro r e he
    rw [Option.eq_none_iff_forall_ne_some]
    intro s hs
    rw [((hkept requests r s).mp hs).2] at he
    cases he
  · intro later r s hs
    obtain ⟨⟨request, hmem, hholds⟩, hshape⟩ := (hkept requests r s).mp hs
    exact (hkept _ r s).mpr ⟨⟨request, List.mem_append_left later hmem, hholds⟩, hshape⟩
  · intro declared
    rw [descriptorsFrom_eq_run, run_append]

/-- A route whose stops are parcels, so that its first stop fills the cache for the others. -/
def route : RecordType :=
  .declare "Route"
    [⟨"first", "first", .struct parcel⟩, ⟨"others", "others", .array (.struct parcel)⟩]

def routeRequests : List ShapeRequest := [.dataType (.struct route), .shape hollow]

theorem run_eq_uncached_route :
    (run {} routeRequests).1 = routeRequests.map ShapeRequest.answer ∧
      hollow.shape = .error (.empty "Hollow") ∧ (run {} routeRequests).2.find? hollow = none ∧
      (run {} routeRequests).2.find? parcel = some parcelShape ∧
      (run {} (routeRequests ++ [.shape parcel])).2.find? parcel = some parcelShape := by
  obtain ⟨hanswers, hkept, hrefused, hlater, -⟩ := run_eq_uncached routeRequests
  have hhollow : hollow.shape = .error (.empty "Hollow") := rfl
  have hheld : Holds (ShapeRequest.dataType (.struct route)).type parcel :=
    .member (List.mem_of_getElem? (i := 0) rfl) .here
  have hparcel := (hkept parcel parcelShape).mpr ⟨⟨_, List.mem_cons_self, hheld⟩, rfl⟩
  exact ⟨hanswers, hhollow, hrefused hollow _ hhollow, hparcel, hlater _ _ _ hparcel⟩

end ShapeCache

end Columnar
