import Columnar.Column.Method
import Columnar.Json.Basic

/-! Column terms: named columns, host values, operations, and lambdas for higher-order operations. A
term is typed from its parts: host values and lambdas have no type of their own and are taken at
the type that their place asks for. -/
namespace Columnar

/-- An operation on a receiver, with what it needs to know beyond its operands. -/
inductive Operation
  | method (name : String)
  | item
  | rename (name : String)
  | cast (type : ColumnType)
  | window (parts : List WindowPart)
  | member (name : String)
  | replaceMember (name : String)
  | migrate (target : RecordType)
  | transform (result : ColumnType)
  | fold (accumulator : ColumnType)
  | foldThen (accumulator result : ColumnType)

inductive Source
  | rowNumber
  | rank
  | denseRank
  | currentDate
  | currentTimestamp
  | difference (type : ColumnType)
  | case (type : ColumnType)
  | arrayOf (element : ColumnType)
  | arrayRepeat (element : ColumnType)
  | sequence (element : ColumnType)
  | mapOf (key : Leaf) (value : ColumnType)
  | mapOfArrays (key : Leaf) (value : ColumnType)
  | mapConcat (key : Leaf) (value : ColumnType)
  | structOf (record : RecordType)

inductive Term
  | host (value : Json)
  | var (name : String)
  | lambda (params : List String) (body : Term)
  | reference (type : ColumnType) (expr : Expr)
  | ascribe (type : ColumnType) (term : Term)
  | scope (record : RecordType)
  | range (start stop : Int32)
  | make (source : Source) (args : List Term)
  | zip (arrays : List Term)
  | apply (operation : Operation) (args : List Term)

/-- What a term comes to: an expression and what it stands for. -/
structure Value where
  kind : Kind
  expr : Expr

inductive TermError
  | illTyped
  | schema (error : SchemaError)

namespace Operation

def onColumn (t : ColumnType) : Operation → Option Method
  | method name => Method.ofColumn t name
  | item =>
    match t with
    | .array e => some (.taking [.integer] e .subscript)
    | _ => none
  | rename name => some (.taking [] t (.rename name))
  | cast type => some (.casting type)
  | window parts =>
    some ⟨.fixed (parts.filterMap fun
      | .partition => some .anyColumn
      | .order => some .sortKey
      | .frame _ => none), .column t, .window parts⟩
  | member name =>
    match t with
    | .struct r => (r.member? name).map fun m => .taking [] m.type (.field m.field)
    | _ => none
  | replaceMember name =>
    match t with
    | .struct r => (r.member? name).map fun m => .taking [m.type] t (.withField m.field)
    | _ => none
  | migrate target =>
    match t with
    | .struct source => some (.taking [] (.struct target)
        (match source.shape, target.shape with
          | .ok s, .ok u => .migrate (.between s.fieldNames u.fieldNames)
          | _, _ => .receiver))
    | _ => none
  | transform result =>
    match t with
    | .array e => some (.higher "transform" [e] result (.array result))
    | _ => none
  | fold accumulator =>
    match t with
    | .array e => some ⟨.fixed [.column accumulator, .lambda [accumulator, e] accumulator],
        .column accumulator, .template "aggregate"⟩
    | _ => none
  | foldThen accumulator result =>
    match t with
    | .array e => some ⟨.fixed [.column accumulator, .lambda [accumulator, e] accumulator,
        .lambda [accumulator] result], .column result, .template "aggregate"⟩
    | _ => none

/-- The columns that a generator makes. They no longer depend on the generator. -/
def onGenerator (element : ColumnType) : Operation → Option Method
  | method "pos" => some (.taking [] .integer (.constant (.column none Form.positionName)))
  | method "col" => some (.taking [] element (.constant (.column none Form.elementName)))
  | _ => none

def method? (op : Operation) : Kind → Option Method
  | .column t => op.onColumn t
  | .generator element => op.onGenerator element
  | _ => none

end Operation

def Source.method : Source → Method
  | rowNumber => .calling "row_number" [] .integer
  | rank => .calling "rank" [] .integer
  | denseRank => .calling "dense_rank" [] .integer
  | currentDate => .calling "current_date" [] (.leaf .date)
  | currentTimestamp => .calling "current_timestamp" [] (.leaf .timestamp)
  | difference type => .taking [type, type] (.leaf .interval) (.binary .minus)
  | case type => ⟨.pairs (.column .boolean) (.column type), .column type, .case⟩
  | arrayOf element => ⟨.many (.column element), .column (.array element),
      .collection "array" (ColumnType.array element).dataType⟩
  | arrayRepeat element => .calling "array_repeat" [element, .integer] (.array element)
  | sequence element => .calling "sequence" [element, element] (.array element)
  | mapOf key value => ⟨.pairs (.column (.leaf key)) (.column value), .column (.map key value),
      .collection "map" (ColumnType.map key value).dataType⟩
  | mapOfArrays key value =>
    .calling "map_from_arrays" [.array (.leaf key), .array value] (.map key value)
  | mapConcat key value => ⟨.many (.column (.map key value)), .column (.map key value),
      .call "map_concat" []⟩
  | structOf record =>
    .taking (record.members.map RecordMember.type) (.struct record) (.struct record.fieldNames)

/-- The whole numbers from `start` up to, not including, `stop`. -/
def Expr.range (start stop : Int32) : Expr :=
  if stop ≤ start then .cast (.call "array" []) (ColumnType.array .integer).dataType
  else .call "sequence" [.literal (.integer start), .literal (.integer (stop - 1))]

def RecordShape.fromScope (s : RecordShape) : Expr :=
  .call "named_struct" (Form.namedFields s.fieldNames (s.fieldNames.map (.column none)))

/-- Arrays zipped into structs of one item from each. The engine names the fields of a zipped array
after its inputs, so the items are taken from the inputs by position instead, which is the last
parameter of the lambda. -/
def Expr.zip (force : Bool) (arrays : List Expr) (params : List String) : Expr :=
  let names := (List.range arrays.length).map fun i => "item" ++ Number.natural (i + 1)
  let index := params.getLast?.getD ""
  let items := arrays.map fun a => Expr.subscript a (.column none index)
  template force "transform" [.call "arrays_zip" arrays]
    [⟨params, .call "named_struct" (Form.namedFields names items)⟩]

def ColumnType.promote? (t : ColumnType) (j : Json) : Option Expr :=
  match t.literalType? with
  | some l => (l.read? j).map fun value => .literal (l.toLiteral value)
  | none => none

end Columnar
