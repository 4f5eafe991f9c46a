import Columnar.Column.Form
import Columnar.Column.Type

/-! The operations of typed columns. Which ones a column has, what they take and what they give hangs
on the type of the column alone. -/
namespace Columnar

/-- What a column term stands for. -/
inductive Kind
  | column (type : ColumnType)
  /-- A column of which only the descriptor is kept. -/
  | untyped (type : DataType)
  /-- A key to order rows by. -/
  | sortKey
  /-- A position and an element for each row made of an array. -/
  | generator (element : ColumnType)
  deriving DecidableEq

def Kind.columnType? : Kind → Option ColumnType
  | column t => some t
  | _ => none

/-- What an operation takes at one place. -/
inductive Param
  | anything
  | anyColumn
  | column (type : ColumnType)
  | sortKey
  | lambda (inputs : List ColumnType) (output : ColumnType)

/-- What an operation takes after its receiver. -/
inductive Params
  | fixed (params : List Param)
  /-- Any number of the same. -/
  | many (param : Param)
  /-- Pairs, with one more of the second allowed at the end. -/
  | pairs (first second : Param)

/-- Pairs for a number of places. -/
def Params.alternate (first second : Param) : Nat → List Param
  | 0 => []
  | 1 => [second]
  | n + 2 => first :: second :: alternate first second n

/-- What is taken at each of a number of places. -/
def Params.list (p : Params) (places : Nat) : List Param :=
  match p with
  | fixed params => params
  | many param => List.replicate places param
  | pairs first second => alternate first second places

structure Method where
  params : Params
  result : Kind
  form : Form

namespace Method

/-- A method with a fixed list of column parameters. -/
def taking (types : List ColumnType) (result : ColumnType) (form : Form) : Method :=
  ⟨.fixed (types.map .column), .column result, form⟩

/-- A call of an engine function with the receiver first. -/
def calling (function : String) (types : List ColumnType) (result : ColumnType) : Method :=
  taking types result (.call function [])

def casting (type : ColumnType) : Method := taking [] type (.cast type.dataType)

def sorting (direction : Direction) (nulls : NullOrder) : Method :=
  ⟨.fixed [], .sortKey, .sort direction nulls⟩

def part (name : String) : Method :=
  taking [] .integer (.call "date_part" [.string name])

def ofAny (t : ColumnType) : String → Option Method
  | "equal_to" => some (taking [t] .boolean (.binary .equal))
  | "not_equal" => some (taking [t] .boolean (.binary .notEqual))
  | "equal_null_safe" => some (taking [t] .boolean (.binary .equalNullSafe))
  | "not_equal_null_safe" => some (taking [t] .boolean .different)
  | "is_null" => some (taking [] .boolean (.unary .isNull))
  | "is_not_null" => some (taking [] .boolean (.unary .isNotNull))
  | "asc" => some (sorting .ascending Direction.ascending.defaultNulls)
  | "asc_nulls_first" => some (sorting .ascending .first)
  | "asc_nulls_last" => some (sorting .ascending .last)
  | "desc" => some (sorting .descending Direction.descending.defaultNulls)
  | "desc_nulls_first" => some (sorting .descending .first)
  | "desc_nulls_last" => some (sorting .descending .last)
  | "between" => some (taking [t, t] .boolean .between)
  | "count" => some (calling "count" [] .long)
  | "count_distinct" => some (taking [] .long .countDistinct)
  | "first" => some (calling "first" [] t)
  | "collect_list" => some (calling "collect_list" [] (.array t))
  | "collect_set" => some (calling "collect_set" [] (.array t))
  | "lag" => some (calling "lag" [.integer] t)
  | "lead" => some (calling "lead" [.integer] t)
  | "erase" => some ⟨.fixed [], .untyped t.dataType, .receiver⟩
  | _ => none

/-- Methods of columns whose values are ordered. A column that is less than another is written as the
other being greater. -/
def ofOrdered (t : ColumnType) : String → Option Method
  | "gt" => some (taking [t] .boolean (.binary .greater))
  | "ge" => some (taking [t] .boolean (.binary .greaterEqual))
  | "lt" => some (taking [t] .boolean (.exchanged .greater))
  | "le" => some (taking [t] .boolean (.exchanged .greaterEqual))
  | "min" => some (calling "min" [] t)
  | "max" => some (calling "max" [] t)
  | "greatest" => some ⟨.many (.column t), .column t, .call "greatest" []⟩
  | "least" => some ⟨.many (.column t), .column t, .call "least" []⟩
  | _ => none

def ofCastable : String → Option Method
  | "as_byte" => some (casting (.leaf .byte))
  | "as_short" => some (casting (.leaf .short))
  | "as_integer" => some (casting .integer)
  | "as_long" => some (casting .long)
  | "as_float" => some (casting (.leaf .float))
  | "as_double" => some (casting .double)
  | "as_decimal" => some (casting (.leaf .decimal))
  | "as_string" => some (casting .string)
  | _ => none

def ofNumeric (t : ColumnType) : String → Option Method
  | "+" => some (taking [t] t (.binary .plus))
  | "-" => some (taking [t] t (.binary .minus))
  | "*" => some (taking [t] t (.binary .multiply))
  | "%" => some (taking [t] t (.binary .modulo))
  | "/" | "divide" => some (taking [t] .double .quotient)
  | "neg" | "negate" => some (taking [] t (.unary .negate))
  | "abs" => some (calling "abs" [] t)
  | "sum" => some (calling "sum" [] t)
  | "avg" => some (calling "avg" [] .double)
  | _ => none

def ofIntegral (t : ColumnType) : String → Option Method
  | "&" => some (taking [t] t (.binary .bitwiseAnd))
  | "|" => some (taking [t] t (.binary .bitwiseOr))
  | "^" => some (taking [t] t (.binary .bitwiseXor))
  | "!" => some (taking [] t (.unary .bitwiseNot))
  | "bit_xor_agg" => some (calling "bit_xor" [] t)
  | "bit_and_agg" => some (calling "bit_and" [] t)
  | "bit_or_agg" => some (calling "bit_or" [] t)
  | "bit_count" => some (calling "bit_count" [] .integer)
  | "shift_left" => some (calling "shiftleft" [.integer] t)
  | "shift_right" => some (calling "shiftright" [.integer] t)
  | _ => none

def ofFloating (t : ColumnType) : String → Option Method
  | "is_nan" => some (calling "isnan" [] .boolean)
  | "nan_or" => some (calling "nanvl" [t] t)
  | _ => none

def ofBoolean : String → Option Method
  | "&" | "and" => some (taking [.boolean] .boolean (.binary .and))
  | "|" | "or" => some (taking [.boolean] .boolean (.binary .or))
  | "!" | "not" => some (taking [] .boolean (.unary .not))
  | "is_in" => some ⟨.many (.column .boolean), .column .boolean, .membership⟩
  | "every" => some (calling "bool_and" [] .boolean)
  | "some" => some (calling "bool_or" [] .boolean)
  | _ => none

def ofBinary : String → Option Method
  | "+" => some (calling "concat" [.leaf .binary] (.leaf .binary))
  | "length" => some (calling "octet_length" [] .integer)
  | "hex" => some (calling "hex" [] .string)
  | "base64" => some (calling "base64" [] .string)
  | "as_string" => some (casting .string)
  | _ => none

def ofString : String → Option Method
  | "+" | "plus" => some (calling "concat" [.string] .string)
  | "length" => some (calling "length" [] .integer)
  | "like" => some (taking [.string] .boolean (.binary .like))
  | "rlike" => some (taking [.string] .boolean (.binary .rlike))
  | "starts_with" => some (calling "startswith" [.string] .boolean)
  | "ends_with" => some (calling "endswith" [.string] .boolean)
  | "contains" => some (calling "contains" [.string] .boolean)
  | "is_in" => some ⟨.many (.column .string), .column .boolean, .membership⟩
  | "substr" | "substring" => some (calling "substring" [.integer, .integer] .string)
  | "lpad" => some (calling "lpad" [.integer, .string] .string)
  | "rpad" => some (calling "rpad" [.integer, .string] .string)
  | "trim" => some (calling "trim" [] .string)
  | "ltrim" => some (calling "ltrim" [] .string)
  | "rtrim" => some (calling "rtrim" [] .string)
  | "trim_chars" => some (taking [.string] .string .trimCharacters)
  | "upper" => some (calling "upper" [] .string)
  | "lower" => some (calling "lower" [] .string)
  | "initcap" => some (calling "initcap" [] .string)
  | "as_boolean" => some (casting .boolean)
  | "as_date" => some (casting (.leaf .date))
  | "as_timestamp" => some (casting (.leaf .timestamp))
  | "as_binary" => some (casting (.leaf .binary))
  | _ => none

def ofTemporal : String → Option Method
  | "year" => some (part "YEAR")
  | _ => none

/-- Methods of dates and timestamps: two of them differ by an interval, and an interval shifts them. -/
def ofMoment (t : ColumnType) : String → Option Method
  | "-" => some (taking [t] (.leaf .interval) (.binary .minus))
  | "+" => some (taking [.leaf .interval] t (.binary .plus))
  | "minus_interval" => some (taking [.leaf .interval] t (.binary .minus))
  | "month" => some (part "MONTH")
  | "day_of_month" => some (part "DAY")
  | _ => none

def ofDate : String → Option Method
  | "add_days" => some (calling "date_add" [.integer] (.leaf .date))
  | "days_since" => some (calling "datediff" [.leaf .date] .integer)
  | _ => none

def ofTimestamp : String → Option Method
  | "to_date" => some (casting (.leaf .date))
  | "hour" => some (part "HOUR")
  | "minute" => some (part "MINUTE")
  | _ => none

def ofInterval : String → Option Method
  | "-" => some (taking [.leaf .interval] (.leaf .interval) (.binary .minus))
  | "+" => some (taking [.leaf .interval] (.leaf .interval) (.binary .plus))
  | "neg" | "negate" => some (taking [] (.leaf .interval) (.unary .negate))
  | _ => none

/-- The methods of a table if the column has them, and none otherwise. -/
def whenever (holds : Bool) (table : String → Option Method) (name : String) : Option Method :=
  if holds then table name else none

def ofLeaf (l : Leaf) (name : String) : Option Method :=
  let t := ColumnType.leaf l
  ofOrdered t name
    <|> whenever (l.isNumeric || l == .boolean || l == .string) ofCastable name
    <|> whenever l.isNumeric (ofNumeric t) name
    <|> whenever l.isIntegral (ofIntegral t) name
    <|> whenever l.isFloating (ofFloating t) name
    <|> whenever l.isTemporal ofTemporal name
    <|> whenever l.isMoment (ofMoment t) name
    <|> match l with
      | .boolean => ofBoolean name
      | .binary => ofBinary name
      | .string => ofString name
      | .date => ofDate name
      | .timestamp => ofTimestamp name
      | .interval => ofInterval name
      | _ => none

def higher (function : String) (inputs : List ColumnType) (output result : ColumnType) : Method :=
  ⟨.fixed [.lambda inputs output], .column result, .template function⟩

/-- Methods of arrays with elements of type `e`. The operators are those of sets, and `+` appends. -/
def ofArray (e : ColumnType) (name : String) : Option Method :=
  let t := ColumnType.array e
  match name with
  | "&" | "union" => some (calling "array_union" [t] t)
  | "|" | "intersect" => some (calling "array_intersect" [t] t)
  | "-" | "except" => some (calling "array_except" [t] t)
  | "+" | "concat" => some (calling "concat" [t] t)
  | "size" => some (calling "size" [] .integer)
  | "contains" => some (calling "array_contains" [e] .boolean)
  | "position" => some (calling "array_position" [e] .long)
  | "remove" => some (calling "array_remove" [e] t)
  | "slice" | "slice_by" => some (calling "slice" [.integer, .integer] t)
  | "distinct" => some (calling "array_distinct" [] t)
  | "explode" => some (calling "explode" [] e)
  | "explode_outer" => some (calling "explode_outer" [] e)
  | "posexplode" => some ⟨.fixed [], .generator e, .generator "posexplode"⟩
  | "posexplode_outer" => some ⟨.fixed [], .generator e, .generator "posexplode_outer"⟩
  | "shuffle" => some (calling "shuffle" [] t)
  | "reverse" => some (calling "reverse" [] t)
  | "sort" => some (calling "array_sort" [] t)
  | "sort_by" => some (higher "array_sort" [e, e] .integer t)
  | "filter" => some (higher "filter" [e] .boolean t)
  | "filter_indexed" => some (higher "filter" [e, .integer] .boolean t)
  | "exists" => some (higher "exists" [e] .boolean .boolean)
  | "forall" => some (higher "forall" [e] .boolean .boolean)
  | name =>
    match e, name with
    | .leaf _, "array_min" => some (calling "array_min" [] e)
    | .leaf _, "array_max" => some (calling "array_max" [] e)
    | .leaf .string, "join" => some (calling "array_join" [.string] .string)
    | .array inner, "flatten" => some (calling "flatten" [] (.array inner))
    | _, _ => none

def ofMap (k : Leaf) (v : ColumnType) (name : String) : Option Method :=
  let t := ColumnType.map k v
  match name with
  | "&" | "union" => some (calling "map_concat" [t] t)
  | "size" => some (calling "size" [] .integer)
  | "keys" => some (calling "map_keys" [] (.array (.leaf k)))
  | "values" => some (calling "map_values" [] (.array v))
  | "entries" => some (calling "map_entries" [] (.array (.struct (.mapEntry k v))))
  | "get" => some (taking [.leaf k] v (.lookup k))
  | "get_by" => some (calling "element_at" [.leaf k] v)
  | "filter" => some (higher "map_filter" [.leaf k, v] .boolean t)
  | _ => none

def ofStruct (r : RecordType) : String → Option Method
  | "copy" => some (taking [] (.struct r) (.copy r.fieldNames))
  | "with_foreign" => some (taking [.string, .string] (.struct r) .withOwnField)
  | _ => none

/-- The method of a name that a column has. -/
def ofColumn (t : ColumnType) (name : String) : Option Method :=
  (match t with
    | .leaf l => ofLeaf l name
    | .array e => ofArray e name
    | .map k v => ofMap k v name
    | .struct r => ofStruct r name) <|> ofAny t name

end Method

end Columnar
