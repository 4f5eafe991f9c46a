import Columnar.Json.Basic
import Columnar.Number.Shortest

/-! JSON texts: the compact form without blanks, and the form indented by two spaces. -/
namespace Columnar.Json

/-- A hexadecimal digit in lower case. -/
def hexDigit (n : Nat) : Char := if n < 10 then .ofNat (48 + n) else .ofNat (87 + n)

def escapeChar (c : Char) : List Char :=
  match c with
  | '"' => ['\\', '"']
  | '\\' => ['\\', '\\']
  | '\x08' => ['\\', 'b']
  | '\x0c' => ['\\', 'f']
  | '\n' => ['\\', 'n']
  | '\r' => ['\\', 'r']
  | '\t' => ['\\', 't']
  | c =>
    if c.toNat < 0x20 then
      ['\\', 'u', '0', '0', hexDigit (c.toNat / 16), hexDigit (c.toNat % 16)]
    else [c]

def quote (s : String) : String := String.ofList ('"' :: s.toList.flatMap escapeChar ++ ['"'])

/-- A value that holds no others. Numbers that JSON cannot write are null. -/
def scalarText : Json → String
  | bool b => if b then "true" else "false"
  | int i => Number.signed i
  | float x => if x.isFinite then x.finiteText .json else "null"
  | text s => quote s
  | _ => "null"

mutual

def compact : Json → String
  | list items => "[" ++ compactItems items ++ "]"
  | object members => "\x7b" ++ compactMembers members ++ "\x7d"
  | j => j.scalarText

def compactItems : List Json → String
  | [] => ""
  | [j] => j.compact
  | j :: rest => j.compact ++ "," ++ compactItems rest

def compactMembers : List (String × Json) → String
  | [] => ""
  | [(k, v)] => quote k ++ ":" ++ v.compact
  | (k, v) :: rest => quote k ++ ":" ++ v.compact ++ "," ++ compactMembers rest

end

/-- A line break followed by two spaces for each level. -/
def lineBreak (depth : Nat) : String := String.ofList ('\n' :: List.replicate (2 * depth) ' ')

mutual

/-- The indented form of a value inside `depth` containers. -/
def pretty (depth : Nat) : Json → String
  | list [] => "[]"
  | list items =>
    "[" ++ lineBreak (depth + 1) ++ prettyItems (depth + 1) items ++ lineBreak depth ++ "]"
  | object [] => "\x7b\x7d"
  | object members =>
    "\x7b" ++ lineBreak (depth + 1) ++ prettyMembers (depth + 1) members ++ lineBreak depth ++
      "\x7d"
  | j => j.scalarText

def prettyItems (depth : Nat) : List Json → String
  | [] => ""
  | [j] => j.pretty depth
  | j :: rest => j.pretty depth ++ "," ++ lineBreak depth ++ prettyItems depth rest

def prettyMembers (depth : Nat) : List (String × Json) → String
  | [] => ""
  | [(k, v)] => quote k ++ ": " ++ v.pretty depth
  | (k, v) :: rest =>
    quote k ++ ": " ++ v.pretty depth ++ "," ++ lineBreak depth ++ prettyMembers depth rest

end

end Columnar.Json
