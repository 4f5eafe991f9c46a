import Columnar.Number.Digits
import Columnar.Yaml.Parser

/-! Reading records from YAML. The fields of a record are found by their keys in a mapping, or by their
places in a list; a key of a field that occurs twice is refused, and other keys are passed over. -/
namespace Columnar.Yaml

def text? : Yaml → Option String
  | scalar text _ => some text
  | _ => none

/-- The items of a list; nothing at all is the list of no items. -/
def items? (y : Yaml) : Option (List Yaml) :=
  match y with
  | list items => some items
  | y => if y.isEmpty then some [] else none

def optional? {α : Type} (read : Yaml → Option α) (y : Yaml) : Option (Option α) :=
  if y.isNull then some none else (read y).map some

def flag? : Yaml → Option Bool
  | scalar "true" false | scalar "True" false | scalar "TRUE" false => some true
  | scalar "false" false | scalar "False" false | scalar "FALSE" false => some false
  | _ => none

def digitIn? (base : Nat) (c : Char) : Option Nat :=
  match Json.hexValue? c with
  | some d => if d < base then some d else none
  | none => none

/-- The number that digits of a base denote: at least one digit, and a value of one word. -/
def digitsIn? (base : Nat) (cs : List Char) : Option Nat := do
  let ds ← cs.mapM (digitIn? base)
  let n := ds.foldl (fun n d => base * n + d) 0
  if ds.isEmpty || UInt64.size ≤ n then none else some n

/-- A number without a sign other than a plus; digits after a leading zero make it a text. -/
def naturalOf? (cs : List Char) : Option Nat :=
  let unsigned := match cs with
    | '+' :: rest => rest
    | cs => cs
  match unsigned with
  | '0' :: 'x' :: rest => digitsIn? 16 rest
  | '0' :: 'o' :: rest => digitsIn? 8 rest
  | '0' :: 'b' :: rest => digitsIn? 2 rest
  | '0' :: _ :: _ => none
  | ds => digitsIn? 10 ds

def natural? : Yaml → Option Nat
  | scalar text false => naturalOf? text.toList
  | _ => none

/-- The values of the named fields of a mapping, those of a field that occurs twice refused. -/
def fieldIn? (name : String) : List (Yaml × Yaml) → Option (Option Yaml)
  | [] => some none
  | (key, value) :: rest => do
    let key ← key.text?
    let later ← fieldIn? name rest
    if key = name then (match later with
      | none => some (some value)
      | some _ => none)
    else some later

def fields? (names : List String) (y : Yaml) : Option (List (Option Yaml)) :=
  match y with
  | mapping pairs => names.mapM fun name => fieldIn? name pairs
  | list items =>
    if names.length < items.length then none
    else some (items.map some ++ List.replicate (names.length - items.length) none)
  | y => if y.isEmpty then some (names.map fun _ => none) else none

def orElse {α : Type} (read : Yaml → Option α) (missing : Option α) : Option Yaml → Option α
  | none => missing
  | some y => read y

end Columnar.Yaml
