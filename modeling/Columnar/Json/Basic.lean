import Columnar.Number.Floating

/-! JSON values. The members of an object keep their order; a key occurs once. -/
namespace Columnar

inductive Json
  | null
  | bool (value : Bool)
  | int (value : Int)
  | float (value : Floating .double)
  | text (value : String)
  | list (items : List Json)
  | object (members : List (String × Json))
  deriving Inhabited

namespace Json

/-- The value of a key in a list of members. -/
def lookup (key : String) : List (String × Json) → Option Json
  | [] => none
  | (k, v) :: rest => if k = key then some v else lookup key rest

/-- Adds a member at the end; a key that is there already keeps its place and takes the value. -/
def insert (key : String) (value : Json) : List (String × Json) → List (String × Json)
  | [] => [(key, value)]
  | (k, v) :: rest => if k = key then (k, value) :: rest else (k, v) :: insert key value rest

def get? (j : Json) (key : String) : Option Json :=
  match j with
  | object members => lookup key members
  | _ => none

def text? : Json → Option String
  | text s => some s
  | _ => none

def bool? : Json → Option Bool
  | bool b => some b
  | _ => none

def int? : Json → Option Int
  | int i => some i
  | _ => none

def list? : Json → Option (List Json)
  | list items => some items
  | _ => none

end Json

end Columnar
