import Columnar.Json.Parser

/-! Scalars of YAML. A plain scalar ends in front of a colon with a blank behind it, and of a comment; in
a flow collection also in front of a comma or a bracket. A line break in a scalar is folded: one break
becomes a blank, and each further one stays a break. -/
namespace Columnar.Yaml

def isGap (c : Char) : Bool := c == ' ' || c == '\t'

def isBracket (c : Char) : Bool := c == '[' || c == ']' || c == '\x7b' || c == '\x7d'

def startsGap : List Char → Bool
  | [] => true
  | c :: _ => isGap c || c == '\n'

def isIndicator (c : Char) : Bool :=
  isBracket c || c == ',' || c == '#' || c == '&' || c == '*' || c == '!' || c == '|' || c == '>' ||
    c == '\'' || c == '"' || c == '%' || c == '@' || c == '\x60'

def startsPlain (inFlow : Bool) : List Char → Bool
  | [] => false
  | c :: cs =>
    if c == '-' then !startsGap cs
    else if c == '?' || c == ':' then !inFlow && !startsGap cs
    else !isIndicator c && !isGap c && c != '\n'

/-- Whether the colon of a pair has a mark of the flow collection directly behind it, which is refused. -/
def startsTightColon : List Char → Bool
  | ':' :: d :: _ => d == ',' || d == '?' || isBracket d
  | _ => false

def endsPlain (inFlow : Bool) (c : Char) (cs : List Char) : Bool :=
  (c == ':' && startsGap cs) ||
    (inFlow && (c == ',' || isBracket c || startsTightColon (c :: cs)))

/-- The part of a plain scalar on one line, without the blanks at its end, and what follows. `gap` holds
the blanks just passed, last first. -/
def plainRun (inFlow : Bool) (gap : List Char) : List Char → List Char × List Char
  | [] => ([], [])
  | c :: cs =>
    if c = '\n' || (c == '#' && !gap.isEmpty) || endsPlain inFlow c cs then ([], c :: cs)
    else if isGap c then plainRun inFlow (c :: gap) cs
    else
      let (run, rest) := plainRun inFlow [] cs
      (gap.reverse ++ c :: run, rest)

def foldedBreaks : Nat → List Char
  | 0 => []
  | 1 => [' ']
  | n + 2 => List.replicate (n + 1) '\n'

/-- Folds the lines of a quoted scalar. Each character comes with whether an escape wrote it, which
keeps it as it is; `gap` holds the blanks just passed, and `breaks` counts the line breaks. -/
def foldLines (gap : List Char) (breaks : Nat) : List (Char × Bool) → List Char
  | [] => if breaks = 0 then gap.reverse else foldedBreaks breaks
  | (c, isEscaped) :: rest =>
    if !isEscaped && c == '\n' then foldLines [] (breaks + 1) rest
    else if !isEscaped && isGap c then
      if breaks = 0 then foldLines (c :: gap) 0 rest else foldLines [] breaks rest
    else (if breaks = 0 then gap.reverse else foldedBreaks breaks) ++ c :: foldLines [] 0 rest

/-- The inside of single quotes, where a quote is written twice, and what follows them. -/
def singleQuoted : List Char → Option (List (Char × Bool) × List Char)
  | [] => none
  | [c] => if c = '\'' then some ([], []) else none
  | c :: d :: cs =>
    if c = '\'' then
      if d = '\'' then (singleQuoted cs).map fun (inner, rest) => (('\'', true) :: inner, rest)
      else some ([], d :: cs)
    else (singleQuoted (d :: cs)).map fun (inner, rest) => ((c, false) :: inner, rest)

def escape? (c : Char) : Option Char :=
  match c with
  | '0' => some '\x00'
  | 'a' => some '\x07'
  | 'b' => some '\x08'
  | 't' | '\t' => some '\t'
  | 'n' => some '\n'
  | 'v' => some '\x0b'
  | 'f' => some '\x0c'
  | 'r' => some '\r'
  | 'e' => some '\x1b'
  | ' ' => some ' '
  | '"' => some '"'
  | '/' => some '/'
  | '\\' => some '\\'
  | 'N' => some '\u0085'
  | '_' => some '\u00a0'
  | 'L' => some '\u2028'
  | 'P' => some '\u2029'
  | _ => none

/-- How many hexadecimal digits follow the letter of a numeric escape. -/
def escapeLength? (c : Char) : Option Nat :=
  match c with
  | 'x' => some 2
  | 'u' => some 4
  | 'U' => some 8
  | _ => none

/-- Where a reader of double quotes stands: between characters, after a backslash, inside the digits of
a numeric escape, or in the blanks that start a line after an escaped break. -/
inductive QuoteState
  | plain
  | backslash
  | digits (left value : Nat)
  | continued

/-- The state after a character, with the character that it completes. -/
def quoteStep (state : QuoteState) (c : Char) : Option (Option (Char × Bool) × QuoteState) :=
  match state with
  | .plain => if c = '\\' then some (none, .backslash) else some (some (c, false), .plain)
  | .backslash =>
    if c = '\n' then some (none, .continued)
    else match escapeLength? c with
      | some n => some (none, .digits n 0)
      | none => (escape? c).map fun e => (some (e, true), .plain)
  | .digits left value =>
    match Json.hexValue? c with
    | none => none
    | some d =>
      let value := 16 * value + d
      if left ≤ 1 then
        if value.isValidChar then some (some (Char.ofNat value, true), .plain) else none
      else some (none, .digits (left - 1) value)
  | .continued =>
    if isGap c then some (none, .continued)
    else if c = '\\' then some (none, .backslash)
    else some (some (c, false), .plain)

def doubleQuoted (state : QuoteState) : List Char → Option (List (Char × Bool) × List Char)
  | [] => none
  | c :: cs =>
    let closes := match state with
      | .plain | .continued => c == '"'
      | _ => false
    if closes then some ([], cs)
    else do
      let (piece, next) ← quoteStep state c
      let (inner, rest) ← doubleQuoted next cs
      some (piece.toList ++ inner, rest)

def quoted? : List Char → Option (String × List Char)
  | '\'' :: cs => (singleQuoted cs).map fun (inner, rest) =>
      (String.ofList (foldLines [] 0 inner), rest)
  | '"' :: cs => (doubleQuoted .plain cs).map fun (inner, rest) =>
      (String.ofList (foldLines [] 0 inner), rest)
  | _ => none

end Columnar.Yaml
