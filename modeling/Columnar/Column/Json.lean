import Columnar.Column.Name
import Columnar.Column.Statement
import Columnar.Expr.Json

/-! Column terms as JSON: each term is a list of the name of an operation and its operands. Where a column
may stand, a host value is marked as a literal; where nothing but a host value may, it stands for
itself. A lambda is an object of its parameters and its body. -/
namespace Columnar

namespace Source

/-- Sources that take nothing. -/
def ofName? : String → Option Source
  | "row_number" => some rowNumber
  | "rank" => some rank
  | "dense_rank" => some denseRank
  | "current_date" => some currentDate
  | "current_timestamp" => some currentTimestamp
  | _ => none

end Source

/-- The type and record names that terms are read with. -/
structure Names where
  record? : String → Option RecordType

namespace Names

def type? (n : Names) (j : Json) : Option ColumnType :=
  match j with
  | .text name => ColumnType.ofName? n.record? name
  | _ => none

def mapType? (n : Names) (j : Json) : Option (Leaf × ColumnType) :=
  match n.type? j with
  | some (.map key value) => some (key, value)
  | _ => none

end Names

namespace Term

/-- Methods whose arguments are all host values. -/
def takesHostValues : String → Bool
  | "lag" | "lead" | "shift_left" | "shift_right" | "like" | "rlike" | "substr" | "lpad" | "rpad"
  | "trim_chars" | "slice" | "join" => true
  | _ => false

mutual

/-- Reads a term, or a literal or lambda at a place of an operation. -/
def ofJson? (n : Names) : Json → Option Term
  | .object [("lit", value)] => some (host value)
  | .object [("fn", params), ("body", body)] => do
    let params ← params.texts?
    let body ← ofJson? n body
    some (lambda params body)
  | .object [("body", body), ("fn", params)] => do
    let params ← params.texts?
    let body ← ofJson? n body
    some (lambda params body)
  | .list (.text name :: parts) => ofParts? n name parts
  | _ => none

def ofParts? (n : Names) (name : String) : List Json → Option Term
  | [] => (Source.ofName? name).map (make · [])
  | [first] =>
    match name with
    | "var" => first.text?.map var
    | "zip" =>
      match first with
      | .list items => (listOfJson? n items).map zip
      | _ => none
    | "struct_from_scope" => (first.text?.bind n.record?).map scope
    | _ => do
      let e ← ofJson? n first
      some (apply (.method name) [e])
  | [first, second] =>
    match name with
    | "named" => do some (reference (← n.type? first) (.column none (← second.text?)))
    | "from_expr" => do some (reference (← n.type? first) (← Expr.ofJson? second))
    | "lit" =>
      match n.type? first with
      | some (.leaf l) => some (ascribe (.leaf l) (host second))
      | _ => none
    | "range" => do
      let start ← Leaf.read? .integer first
      let stop ← Leaf.read? .integer second
      some (range start stop)
    | "array_of" =>
      match second with
      | .list items => do some (make (.arrayOf (← n.type? first)) (← listOfJson? n items))
      | _ => none
    | "map_of" =>
      match second with
      | .list items => do
        let (key, value) ← n.mapType? first
        some (make (.mapOf key value) (← pairsOfJson? n items))
      | _ => none
    | "map_concat" =>
      match second with
      | .list items => do
        let (key, value) ← n.mapType? first
        some (make (.mapConcat key value) (← listOfJson? n items))
      | _ => none
    | "struct_from_record" =>
      match second with
      | .list items => do
        let record ← first.text?.bind n.record?
        some (make (.structOf record) (← listOfJson? n items))
      | _ => none
    | "alias" | "name" => do some (apply (.rename (← second.text?)) [← ofJson? n first])
    | "cast" => do some (apply (.cast (← n.type? second)) [← ofJson? n first])
    | "over" =>
      match second with
      | .list steps => do
        let (parts, keys) ← windowOfJson? n steps
        let e ← ofJson? n first
        some (apply (.window parts) (e :: keys))
      | _ => none
    | "migrate" => do
      let target ← second.text?.bind n.record?
      some (apply (.migrate target) [← ofJson? n first])
    | "is_in" =>
      match second with
      | .list values => do
        let e ← ofJson? n first
        some (apply (.method name) (e :: values.map host))
      | _ => none
    | "greatest" | "least" =>
      match second with
      | .list items => do
        let e ← ofJson? n first
        let es ← listOfJson? n items
        some (apply (.method name) (e :: es))
      | _ => none
    | "get" =>
      match second with
      | .text member => do some (apply (.member member) [← ofJson? n first])
      | .int _ => do some (apply .item [← ofJson? n first, host second])
      | key => do
        let e ← ofJson? n first
        let k ← ofJson? n key
        some (apply (.method name) [e, k])
    | _ => do
      let a ← ofJson? n first
      let b ← if takesHostValues name then some (host second) else ofJson? n second
      some (apply (.method name) [a, b])
  | [first, second, third] =>
    match name with
    | "qualified" => do
      some (reference (← n.type? first) (.column (some (← second.text?)) (← third.text?)))
    | "case" =>
      match second, third with
      | .list items, .null => do some (make (.case (← n.type? first)) (← pairsOfJson? n items))
      | .list items, otherwise => do
        let branches ← pairsOfJson? n items
        let value ← ofJson? n otherwise
        some (make (.case (← n.type? first)) (branches ++ [value]))
      | _, _ => none
    | "difference" => do
      some (make (.difference (← n.type? first)) [← ofJson? n second, ← ofJson? n third])
    | "array_repeat" => do
      some (make (.arrayRepeat (← n.type? first)) [← ofJson? n second, host third])
    | "sequence" => do
      some (make (.sequence (← n.type? first)) [← ofJson? n second, ← ofJson? n third])
    | "map_from_arrays" => do
      let (key, value) ← n.mapType? first
      some (make (.mapOfArrays key value) [← ofJson? n second, ← ofJson? n third])
    | "with_field" => do
      some (apply (.replaceMember (← second.text?)) [← ofJson? n first, ← ofJson? n third])
    | "transform" => do
      some (apply (.transform (← n.type? third)) [← ofJson? n first, ← ofJson? n second])
    | _ => do
      let a ← ofJson? n first
      if takesHostValues name then some (apply (.method name) [a, host second, host third])
      else some (apply (.method name) [a, ← ofJson? n second, ← ofJson? n third])
  | [first, type, zero, merge] =>
    match name with
    | "aggregate" => do
      let e ← ofJson? n first
      let z ← ofJson? n zero
      let m ← ofJson? n merge
      some (apply (.fold (← n.type? type)) [e, z, m])
    | _ => none
  | [first, type, zero, merge, result, finish] =>
    match name with
    | "aggregate_with" => do
      let e ← ofJson? n first
      let z ← ofJson? n zero
      let m ← ofJson? n merge
      let f ← ofJson? n finish
      some (apply (.foldThen (← n.type? type) (← n.type? result)) [e, z, m, f])
    | _ => none
  | _ => none

def listOfJson? (n : Names) : List Json → Option (List Term)
  | [] => some []
  | j :: js => do
    let t ← ofJson? n j
    let ts ← listOfJson? n js
    some (t :: ts)

/-- Reads pairs, one behind the other. -/
def pairsOfJson? (n : Names) : List Json → Option (List Term)
  | [] => some []
  | .list [a, b] :: js => do
    let a ← ofJson? n a
    let b ← ofJson? n b
    let ts ← pairsOfJson? n js
    some (a :: b :: ts)
  | _ => none

/-- Reads the steps of building a window, with the keys that they mention. -/
def windowOfJson? (n : Names) : List Json → Option (List WindowPart × List Term)
  | [] => some ([], [])
  | .list [.text "partition_by", key] :: js => do
    let key ← ofJson? n key
    let (parts, keys) ← windowOfJson? n js
    some (.partition :: parts, key :: keys)
  | .list [.text "order_by", key] :: js => do
    let key ← ofJson? n key
    let (parts, keys) ← windowOfJson? n js
    some (.order :: parts, key :: keys)
  | .list [.text unit, start, stop] :: js => do
    let unit ← match unit with
      | "rows_between" => some FrameUnit.rows
      | "range_between" => some FrameUnit.range
      | _ => none
    let start ← Leaf.read? .long start
    let stop ← Leaf.read? .long stop
    let (parts, keys) ← windowOfJson? n js
    some (.frame (.between unit start stop) :: parts, keys)
  | _ => none

end

end Term

def Statement.ofJson? (n : Names) (j : Json) : Option Statement :=
  match j with
  | .list [.text "same", a, b] => do some (same (← Term.ofJson? n a) (← Term.ofJson? n b))
  | .list [.text "try_native", e] => (Term.ofJson? n e).map native
  | .list [.text "fields", e] => (Term.ofJson? n e).map members
  | j => (Term.ofJson? n j).map value

end Columnar
