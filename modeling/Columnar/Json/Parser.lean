import Columnar.Json.Basic
import Columnar.Number.Digits

/-! Reading JSON texts. Each reader takes the characters in front of it and returns what it read
with the characters that are left. A repeated key keeps its first place and its last value. -/
namespace Columnar.Json

def isSpace (c : Char) : Bool := c == ' ' || c == '\n' || c == '\r' || c == '\t'

def skipSpace (cs : List Char) : List Char := cs.dropWhile isSpace

def hexValue? (c : Char) : Option Nat :=
  if c.isDigit then some (c.toNat - 48)
  else if 'a' ≤ c ∧ c ≤ 'f' then some (c.toNat - 87)
  else if 'A' ≤ c ∧ c ≤ 'F' then some (c.toNat - 55)
  else none

def hex4? (a b c d : Char) : Option Nat := do
  some (4096 * (← hexValue? a) + 256 * (← hexValue? b) + 16 * (← hexValue? c) + (← hexValue? d))

/-- The character a backslash and a letter stand for. -/
def unescape? (c : Char) : Option Char :=
  match c with
  | '"' => some '"'
  | '\\' => some '\\'
  | '/' => some '/'
  | 'b' => some '\x08'
  | 'f' => some '\x0c'
  | 'n' => some '\n'
  | 'r' => some '\r'
  | 't' => some '\t'
  | _ => none

def joinSurrogates? (high low : Nat) : Option Char :=
  if 0xd800 ≤ high ∧ high < 0xdc00 ∧ 0xdc00 ≤ low ∧ low < 0xe000 then
    some (.ofNat (0x10000 + (high - 0xd800) * 0x400 + (low - 0xdc00)))
  else none

/-- Where a string reader stands: between characters, after a backslash, inside the digits of a
numeric escape, or after the first half of a surrogate pair. -/
inductive StringState
  | plain
  | backslash
  | digits (read : List Char)
  | half (high : Nat)
  | halfBackslash (high : Nat)
  | halfDigits (high : Nat) (read : List Char)

def closeEscape (digits : List Char) : Option (Option Char × StringState) :=
  match digits with
  | [d, c, b, a] => do
    let n ← hex4? a b c d
    if 0xd800 ≤ n ∧ n < 0xdc00 then some (none, .half n)
    else if 0xdc00 ≤ n ∧ n < 0xe000 then none
    else some (some (.ofNat n), .plain)
  | digits => some (none, .digits digits)

def closePair (high : Nat) (digits : List Char) : Option (Option Char × StringState) :=
  match digits with
  | [d, c, b, a] => do
    let n ← hex4? a b c d
    let joined ← joinSurrogates? high n
    some (some joined, .plain)
  | digits => some (none, .halfDigits high digits)

/-- One character of a string, other than its closing quote. -/
def stringStep (state : StringState) (c : Char) : Option (Option Char × StringState) :=
  match state with
  | .plain =>
    if c = '\\' then some (none, .backslash)
    else if c.toNat < 0x20 then none
    else some (some c, .plain)
  | .backslash =>
    if c = 'u' then some (none, .digits []) else (unescape? c).map fun e => (some e, .plain)
  | .digits read => closeEscape (c :: read)
  | .half high => if c = '\\' then some (none, .halfBackslash high) else none
  | .halfBackslash high => if c = 'u' then some (none, .halfDigits high []) else none
  | .halfDigits high read => closePair high (c :: read)

/-- Reads a string after its opening quote; `done` holds the characters read so far, last first. -/
def readString (state : StringState) (done : List Char) :
    List Char → Option (String × List Char)
  | [] => none
  | c :: cs =>
    match state, c with
    | .plain, '"' => some (String.ofList done.reverse, cs)
    | state, c =>
      match stringStep state c with
      | some (some e, next) => readString next (e :: done) cs
      | some (none, next) => readString next done cs
      | none => none

/-- A whole number that fits a 64-bit word is kept exactly, any other number as a float. -/
def numberOf (negative : Bool) (whole fraction : List Char) (exponent : Option Int) : Json :=
  let n := Number.ofDigits (whole ++ fraction)
  let asFloat : Json := .float (.ofScientific .double negative n (exponent.getD 0 - fraction.length))
  if fraction.isEmpty && exponent.isNone then
    if negative then (if n = 0 ∨ -(n : Int) < Int64.minValue.toInt then asFloat else .int (-(n : Int)))
    else if n < UInt64.size then .int n else asFloat
  else asFloat

def readDigits? (cs : List Char) : Option (List Char × List Char) :=
  let ds := cs.takeWhile Char.isDigit
  if ds.isEmpty then none else some (ds, cs.dropWhile Char.isDigit)

def readExponent (cs : List Char) : Option (Option Int × List Char) :=
  match cs with
  | c :: rest =>
    if c = 'e' ∨ c = 'E' then do
      let (negative, rest) := match rest with
        | '-' :: r => (true, r)
        | '+' :: r => (false, r)
        | r => (false, r)
      let (ds, rest) ← readDigits? rest
      let n := Number.ofDigits ds
      some (some (if negative then -(n : Int) else n), rest)
    else some (none, cs)
  | [] => some (none, [])

def readNumber (cs : List Char) : Option (Json × List Char) := do
  let (negative, cs) := match cs with
    | '-' :: r => (true, r)
    | r => (false, r)
  let (whole, cs) ← readDigits? cs
  if whole.length > 1 ∧ whole.head? = some '0' then none
  let (fraction, cs) ← match cs with
    | '.' :: r => readDigits? r
    | r => some ([], r)
  let (exponent, cs) ← readExponent cs
  some (numberOf negative whole fraction exponent, cs)

def readWord (word : String) (value : Json) (cs : List Char) : Option (Json × List Char) :=
  if word.toList.isPrefixOf cs then some (value, cs.drop word.length) else none

mutual

/-- Reads a value. The fuel bounds the number of values and brackets still to be read. -/
def readValue : Nat → List Char → Option (Json × List Char)
  | 0, _ => none
  | fuel + 1, cs =>
    match skipSpace cs with
    | '[' :: r =>
      match skipSpace r with
      | ']' :: r => some (.list [], r)
      | r => readItems fuel [] r
    | '\x7b' :: r =>
      match skipSpace r with
      | '\x7d' :: r => some (.object [], r)
      | r => readMembers fuel [] r
    | '"' :: r => (readString .plain [] r).map fun (s, r) => (.text s, r)
    | 't' :: r => readWord "rue" (.bool true) r
    | 'f' :: r => readWord "alse" (.bool false) r
    | 'n' :: r => readWord "ull" .null r
    | r => readNumber r

/-- Reads the items of a list that has at least one more; `done` holds the last one first. -/
def readItems : Nat → List Json → List Char → Option (Json × List Char)
  | 0, _, _ => none
  | fuel + 1, done, cs => do
    let (item, r) ← readValue fuel cs
    match skipSpace r with
    | ',' :: r => readItems fuel (item :: done) r
    | ']' :: r => some (.list (item :: done).reverse, r)
    | _ => none

def readMembers : Nat → List (String × Json) → List Char → Option (Json × List Char)
  | 0, _, _ => none
  | fuel + 1, done, cs =>
    match skipSpace cs with
    | '"' :: r => do
      let (key, r) ← readString .plain [] r
      match skipSpace r with
      | ':' :: r => do
        let (value, r) ← readValue fuel r
        let done := insert key value done
        match skipSpace r with
        | ',' :: r => readMembers fuel done r
        | '\x7d' :: r => some (.object done, r)
        | _ => none
      | _ => none
    | _ => none

end

/-- Reads a text that holds one value and nothing else. -/
def parse? (s : String) : Option Json := do
  let cs := s.toList
  let (value, rest) ← readValue (2 * cs.length + 2) cs
  if (skipSpace rest).isEmpty then some value else none

end Columnar.Json
