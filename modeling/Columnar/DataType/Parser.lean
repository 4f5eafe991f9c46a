import Columnar.DataType.Basic
import Columnar.DataType.Error
import Columnar.Text.Blank
import Columnar.Text.Case
import Columnar.Text.Quoted

/-! Reading the text of a descriptor. A reader takes the characters in front of it and returns what
it read with the characters that are left, always a suffix; an offset in an error is the number of
bytes in front of that suffix. -/
namespace Columnar.DataType

def byteLength (cs : List Char) : Nat := cs.foldr (fun c n => c.utf8Size + n) 0

/-- The offset in `input` at which the characters `rest` are left. -/
def offsetOf (input : String) (rest : List Char) : Nat :=
  byteLength input.toList - byteLength rest

def expect (input : String) (wanted : Char) (cs : List Char) : Except TypeError (List Char) :=
  match Text.skipBlanks cs with
  | [] => .error (.malformed input (.expected wanted (offsetOf input []) none))
  | c :: rest =>
    if c = wanted then .ok rest
    else .error (.malformed input (.expected wanted (offsetOf input (c :: rest)) (some c)))

def readWord (input : String) (cs : List Char) : Except TypeError (String × List Char) :=
  let word := cs.takeWhile Text.isWord
  if word.isEmpty then .error (.malformed input (.expectedName (offsetOf input cs)))
  else .ok (String.ofList word, cs.dropWhile Text.isWord)

/-- Reads a type name or number: a bare word, or anything between two backticks. -/
def readName (input : String) (cs : List Char) : Except TypeError (String × List Char) :=
  match Text.skipBlanks cs with
  | '\x60' :: quoted =>
    match Text.splitBacktick quoted with
    | some (inner, rest) => .ok (String.ofList inner, rest)
    | none => .error (.malformed input .unterminatedName)
  | rest => readWord input rest

def readFieldName (input : String) (cs : List Char) : Except TypeError (String × List Char) :=
  match Text.skipBlanks cs with
  | '\x60' :: quoted =>
    match Text.splitDoubled quoted with
    | some (inner, rest) => .ok (String.ofList inner, rest)
    | none => .error (.malformed input .unterminatedName)
  | rest => readWord input rest

/-- A number of at most one byte: digits, with a plus sign allowed in front. -/
def byteValue? (cs : List Char) : Option Nat :=
  let ds := match cs with
    | '+' :: ds => ds
    | ds => ds
  match Number.ofDigits? ds with
  | some n => if n < 256 then some n else none
  | none => none

def readNumber (input : String) (cs : List Char) : Except TypeError (Nat × List Char) :=
  match readName input cs with
  | .error e => .error e
  | .ok (digits, rest) =>
    match byteValue? digits.toList with
    | some n => .ok (n, rest)
    | none => .error (.malformed input (.badNumber digits))

def isDecimal (precision scale : Nat) : Bool :=
  0 < precision && precision ≤ maxPrecision && scale ≤ precision

def readScale (input : String) (cs : List Char) : Except TypeError (Nat × List Char) :=
  match Text.skipBlanks cs with
  | ',' :: rest => readNumber input rest
  | rest => .ok (0, rest)

def readDecimal (input : String) (cs : List Char) : Except TypeError (DataType × List Char) :=
  match Text.skipBlanks cs with
  | '(' :: rest => do
    let (precision, rest) ← readNumber input rest
    let (scale, rest) ← readScale input rest
    let rest ← expect input ')' rest
    if isDecimal precision scale then .ok (decimal precision scale, rest)
    else .error (.malformed input (.badDecimal precision scale))
  | rest => .ok (plainDecimal, rest)

inductive Head
  | leaf (type : DataType)
  | decimal
  | array
  | map
  | struct
  | refused (error : TypeError)

/-- The meaning of a type name in lower case. Names of host types that the engine lacks are refused
with an error of their own. -/
def Head.ofName (name : String) : Head :=
  match name with
  | "boolean" | "bool" => leaf .boolean
  | "byte" | "tinyint" => leaf .byte
  | "short" | "smallint" => leaf .short
  | "int" | "integer" => leaf .integer
  | "long" | "bigint" => leaf .long
  | "float" | "real" => leaf .float
  | "double" => leaf .double
  | "string" | "text" | "varchar" => leaf .string
  | "binary" | "bytes" => leaf .binary
  | "date" => leaf .date
  | "timestamp" | "datetime" => leaf .timestamp
  | "interval" | "calendarinterval" => leaf .interval
  | "decimal" | "numeric" => decimal
  | "array" => array
  | "map" => map
  | "struct" => struct
  | "uint" | "uint32" | "u32" | "uint64" | "u64" | "ulong" | "usize" => refused (.unsupported name)
  | "char" | "time" | "uuid" | "guid" => refused (.hostOnly name)
  | _ => refused (.malformed name .unknownName)

mutual

/-- Reads a type. The fuel bounds the nesting and the fields still to be read; every level reads a
character, so a fuel above the number of characters is never used up. -/
def readType (input : String) : Nat → List Char → Except TypeError (DataType × List Char)
  | 0, cs => .error (.malformed input (.expectedName (offsetOf input cs)))
  | fuel + 1, cs => do
    let (name, rest) ← readName input cs
    match Head.ofName (Text.lower name) with
    | .leaf type => .ok (type, rest)
    | .decimal => readDecimal input rest
    | .array => do
      let rest ← expect input '<' rest
      let (element, rest) ← readType input fuel rest
      let rest ← expect input '>' rest
      .ok (array element true, rest)
    | .map => do
      let rest ← expect input '<' rest
      let (key, rest) ← readType input fuel rest
      let rest ← expect input ',' rest
      let (value, rest) ← readType input fuel rest
      let rest ← expect input '>' rest
      .ok (map key value true, rest)
    | .struct => do
      let rest ← expect input '<' rest
      match Text.skipBlanks rest with
      | '>' :: rest => .ok (struct [], rest)
      | rest => do
        let (fields, rest) ← readFields input fuel rest
        let rest ← expect input '>' rest
        .ok (struct fields, rest)
    | .refused error => .error error

def readFields (input : String) : Nat → List Char → Except TypeError (List StructField × List Char)
  | 0, cs => .error (.malformed input (.expectedName (offsetOf input cs)))
  | fuel + 1, cs => do
    let (name, rest) ← readFieldName input cs
    let rest ← expect input ':' rest
    let (type, rest) ← readType input fuel rest
    match Text.skipBlanks rest with
    | ',' :: rest => do
      let (fields, rest) ← readFields input fuel rest
      .ok (.mk name type true :: fields, rest)
    | rest => .ok ([.mk name type true], rest)

end

/-- Reads a text that holds one type and nothing else but blanks. Every container may hold nulls. -/
def parse (input : String) : Except TypeError DataType := do
  let cs := input.toList
  let (type, rest) ← readType input (cs.length + 1) cs
  match Text.skipBlanks rest with
  | [] => .ok type
  | rest => .error (.malformed input (.trailing (offsetOf input rest)))

end Columnar.DataType
