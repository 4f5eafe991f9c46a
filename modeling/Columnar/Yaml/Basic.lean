/-! YAML documents: scalars with the way they were written, lists, and mappings whose pairs keep their
order, repeated keys included. -/
namespace Columnar

inductive Yaml
  | scalar (text : String) (isQuoted : Bool)
  | list (items : List Yaml)
  | mapping (pairs : List (Yaml × Yaml))
  deriving Inhabited

namespace Yaml

/-- What stands where nothing was written. -/
def empty : Yaml := scalar "" false

def isEmpty : Yaml → Bool
  | scalar text isQuoted => text == "" && !isQuoted
  | _ => false

/-- Whether a plain scalar stands for no value. -/
def isNull : Yaml → Bool
  | scalar text false => text == "" || text == "null" || text == "Null" || text == "NULL" || text == "~"
  | _ => false

end Yaml

end Columnar
