import Columnar.Expr.Printer
import Columnar.Text.Case

/-! The bare column references of an expression: what an expression becomes when each is replaced,
and the expressions whose text shows where they stand. -/
namespace Columnar

mutual

def DataType.Unticked : DataType → Prop
  | .array element _ => element.Unticked
  | .map key value _ => key.Unticked ∧ value.Unticked
  | .struct fields => DataType.UntickedFields fields
  | _ => True

def DataType.UntickedField : StructField → Prop
  | .mk name type _ => '\x60' ∉ name.toList ∧ type.Unticked

def DataType.UntickedFields : List StructField → Prop
  | [] => True
  | f :: fs => DataType.UntickedField f ∧ DataType.UntickedFields fs

end

namespace Expr

mutual

/-- The expression with each column reference that has no qualifier replaced. -/
def mapColumns (f : String → Expr) : Expr → Expr
  | column none name => f name
  | column (some qualifier) name => column (some qualifier) name
  | literal value => literal value
  | raw text => raw text
  | aliased e name => aliased (e.mapColumns f) name
  | multiAliased e names => multiAliased (e.mapColumns f) names
  | unary op e => unary op (e.mapColumns f)
  | binary op l r => binary op (l.mapColumns f) (r.mapColumns f)
  | call function args => call function (mapColumnsList f args)
  | cast e type => cast (e.mapColumns f) type
  | case branches otherwise => case (mapColumnsBranches f branches) (mapColumnsOption f otherwise)
  | inList e items => inList (e.mapColumns f) (mapColumnsList f items)
  | between e low high => between (e.mapColumns f) (low.mapColumns f) (high.mapColumns f)
  | subscript e index => subscript (e.mapColumns f) (index.mapColumns f)
  | field e name => field (e.mapColumns f) name
  | withField e name value => withField (e.mapColumns f) name (value.mapColumns f)
  | dropFields e names => dropFields (e.mapColumns f) names
  | sort e direction nulls => sort (e.mapColumns f) direction nulls
  | window e partition order frame =>
    window (e.mapColumns f) (mapColumnsList f partition) (mapColumnsList f order) frame

def mapColumnsList (f : String → Expr) : List Expr → List Expr
  | [] => []
  | e :: rest => e.mapColumns f :: mapColumnsList f rest

def mapColumnsBranches (f : String → Expr) : List (Expr × Expr) → List (Expr × Expr)
  | [] => []
  | (condition, value) :: rest =>
    (condition.mapColumns f, value.mapColumns f) :: mapColumnsBranches f rest

def mapColumnsOption (f : String → Expr) : Option Expr → Option Expr
  | none => none
  | some e => some (e.mapColumns f)

end

/-- The expression with the qualifier given to each bare column whose name is one of the fields. -/
def qualified (tableAlias : String) (fields : List String) : Expr → Expr :=
  mapColumns fun name =>
    if fields.any (Text.sameName · name) then column (some tableAlias) name else column none name

def erased : Expr → Expr := mapColumns fun _ => literal (.string "")

mutual

/-- An expression of its nodes alone: no part is a text or has an output name, functions have plain
names and no name has a backtick in it. -/
def Regular : Expr → Prop
  | column qualifier name => (∀ q ∈ qualifier, '\x60' ∉ q.toList) ∧ '\x60' ∉ name.toList
  | literal _ => True
  | raw _ | aliased _ _ | multiAliased _ _ => False
  | unary _ e => e.Regular
  | binary _ l r => l.Regular ∧ r.Regular
  | call function args => Text.isPlain function.toList ∧ RegularList args
  | cast e type => e.Regular ∧ type.Unticked
  | case branches otherwise => RegularBranches branches ∧ RegularOption otherwise
  | inList e items => e.Regular ∧ RegularList items
  | between e low high => e.Regular ∧ low.Regular ∧ high.Regular
  | subscript e index => e.Regular ∧ index.Regular
  | field e name => e.Regular ∧ '\x60' ∉ name.toList
  | withField e _ value => e.Regular ∧ value.Regular
  | dropFields e _ => e.Regular
  | sort e _ _ => e.Regular
  | window e partition order _ => e.Regular ∧ RegularList partition ∧ RegularList order

def RegularList : List Expr → Prop
  | [] => True
  | e :: rest => e.Regular ∧ RegularList rest

def RegularBranches : List (Expr × Expr) → Prop
  | [] => True
  | (condition, value) :: rest => condition.Regular ∧ value.Regular ∧ RegularBranches rest

def RegularOption : Option Expr → Prop
  | none => True
  | some e => e.Regular

end

def unnamed : Expr → Expr
  | aliased e _ => e
  | e => e

/-- A regular expression, perhaps under an output name without a backtick. -/
def RegularOutput : Expr → Prop
  | aliased e name => e.Regular ∧ '\x60' ∉ name.toList
  | e => e.Regular

/-- Whether an expression is a bare column with the name AS, in either case. -/
def isColumnAs : Expr → Bool
  | column none name => Text.sameName name "AS"
  | _ => false

/-- Whether the text of an expression ends with a bare column AS and the END of a case: the last
value of the case is that column. -/
def endsOnColumnAs : Expr → Bool
  | unary .bitwiseNot e => e.endsOnColumnAs
  | case _ (some otherwise) => otherwise.isColumnAs
  | case branches none => branches.getLast?.any fun branch => branch.2.isColumnAs
  | _ => false

end Expr

end Columnar
