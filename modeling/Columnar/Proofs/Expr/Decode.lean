import Columnar.Expr.Printer
import Columnar.Proofs.DataType.Decode

/-! A reader of expression texts. It sees what a text shows: a literal as its text, a cast to a type
without nullability, a qualified column as a field of a column. -/
namespace Columnar.Expr

inductive Keyword
  | case
  | cast
  | array
  | interval
  | constant
  | quoted
  | refused

/-- The words with which the text of an expression can start, names apart. -/
def keywords : List (String × Keyword) :=
  [("CASE", .case), ("CAST", .cast), ("array", .array), ("INTERVAL", .interval),
    ("NULL", .constant), ("true", .constant), ("false", .constant), ("DATE", .quoted),
    ("TIMESTAMP", .quoted), ("NOT", .refused)]

inductive Infix
  | isNull
  | isNotNull
  | inList
  | between
  | binary (op : BinaryOp)

def binaryOps : List BinaryOp :=
  [.equal, .notEqual, .equalNullSafe, .greater, .greaterEqual, .less, .lessEqual, .and, .or, .plus,
    .minus, .multiply, .divide, .modulo, .bitwiseAnd, .bitwiseOr, .bitwiseXor, .like, .rlike]

def infixes : List (String × Infix) :=
  [(" IS NULL)", .isNull), (" IS NOT NULL)", .isNotNull), (" IN (", .inList),
    (" BETWEEN ", .between)] ++ binaryOps.map fun op => (" " ++ op.symbol ++ " ", .binary op)

inductive Suffix
  | subscript
  | field
  | window

def suffixes : List (String × Suffix) := [("[", .subscript), (".", .field), (" OVER (", .window)]

def orders : List (String × (Direction × NullOrder)) :=
  [(" ASC NULLS FIRST", .ascending, .first), (" ASC NULLS LAST", .ascending, .last),
    (" DESC NULLS FIRST", .descending, .first), (" DESC NULLS LAST", .descending, .last)]

def prefixes : List (String × UnaryOp) := [("NOT ", .not), ("- ", .negate)]

def numberTypes : List (String × String) := [("FLOAT)", "FLOAT"), ("DOUBLE)", "DOUBLE")]

def frameUnits : List (String × FrameUnit) :=
  [("ROWS BETWEEN ", .rows), ("RANGE BETWEEN ", .range)]

def fixedBounds : List (String × FrameBound) :=
  [("UNBOUNDED PRECEDING", .unboundedPreceding), ("CURRENT ROW", .currentRow),
    ("UNBOUNDED FOLLOWING", .unboundedFollowing)]

def countedBounds : List (String × (UInt64 → FrameBound)) :=
  [(" PRECEDING", .preceding), (" FOLLOWING", .following)]

def readBound (cs : List Char) : Option (FrameBound × List Char) :=
  match choose fixedBounds cs with
  | some found => some found
  | none => do
    let (offset, cs) := DataType.readDigits cs
    let (bound, cs) ← choose countedBounds cs
    some (bound (.ofNat offset), cs)

def readFrame (cs : List Char) : Option (Option FrameSpan × List Char) :=
  match choose frameUnits cs with
  | none => some (none, cs)
  | some (unit, cs) => do
    let (start, cs) ← readBound cs
    let cs ← behind " AND ".toList cs
    let (stop, cs) ← readBound cs
    some (some ⟨unit, start, stop⟩, cs)

def readOrder (e : Expr) (cs : List Char) : Expr × List Char :=
  match choose orders cs with
  | some ((direction, nulls), cs) => (.sort e direction nulls, cs)
  | none => (e, cs)

/-- What is in front of the quote that closes a string literal, and what follows that quote. -/
def readQuoted : List Char → Option (List Char × List Char)
  | [] => none
  | '\'' :: cs => some ([], cs)
  | ['\\'] => none
  | '\\' :: c :: cs => (readQuoted cs).map fun (inner, rest) => ('\\' :: c :: inner, rest)
  | c :: cs => (readQuoted cs).map fun (inner, rest) => (c :: inner, rest)

/-- Whether a character joins the digits behind it to a numeral: a point does, and behind the mark
of an exponent a sign. -/
def joinsDigits (previous : Option Char) (c : Char) : Bool :=
  c == '.' || ((c == '+' || c == '-') && previous.any fun d => d == 'e' || d == 'E')

/-- The longest run in front that can belong to a numeral, behind the character `previous`: words,
and what joins digits to them. -/
def spanNumber : Option Char → List Char → List Char × List Char
  | _, [] => ([], [])
  | previous, c :: cs =>
    if Text.isWord c || (cs.head?.any Char.isDigit && joinsDigits previous c) then
      let (run, rest) := spanNumber (some c) cs
      (c :: run, rest)
    else ([], c :: cs)

def readNumber (cs : List Char) : Option (List Char × List Char) :=
  match behind ['-'] cs with
  | some unsigned =>
    if unsigned.head?.any Char.isDigit then
      let (run, rest) := spanNumber none unsigned
      some ('-' :: run, rest)
    else none
  | none => if cs.head?.any Char.isDigit then some (spanNumber none cs) else none

def readInterval (cs : List Char) : Option (String × List Char) := do
  let cs ← behind [' '] cs
  let (months, cs) ← readNumber cs
  let cs ← behind " MONTHS ".toList cs
  let (days, cs) ← readNumber cs
  let cs ← behind " DAYS ".toList cs
  let (microseconds, cs) ← readNumber cs
  let cs ← behind " MICROSECONDS".toList cs
  some ("INTERVAL " ++ String.ofList months ++ " MONTHS " ++ String.ofList days ++ " DAYS " ++
    String.ofList microseconds ++ " MICROSECONDS", cs)

def rawText : Expr → String
  | raw text => text
  | _ => ""

mutual

def readExpr : Nat → List Char → Option (Expr × List Char)
  | 0, _ => none
  | fuel + 1, cs =>
    match behind ['~'] cs with
    | some cs => do
      let (e, cs) ← readExpr fuel cs
      some (.unary .bitwiseNot e, cs)
    | none => do
      let (e, cs) ← readPrimary fuel cs
      readSuffixes fuel e cs

def readSuffixes : Nat → Expr → List Char → Option (Expr × List Char)
  | 0, _, _ => none
  | fuel + 1, e, cs =>
    match choose suffixes cs with
    | some (.subscript, cs) => do
      let (index, cs) ← readExpr fuel cs
      let cs ← behind [']'] cs
      readSuffixes fuel (.subscript e index) cs
    | some (.field, cs) => do
      let (name, cs) ← readIdentifier cs
      readSuffixes fuel (.field e name) cs
    | some (.window, cs) => do
      let (partition, cs) ← readSection fuel "PARTITION BY " cs
      let (order, cs) ← readSection fuel "ORDER BY " cs
      let (frame, cs) ← readFrame cs
      let cs ← behind [')'] cs
      readSuffixes fuel (.window e partition order frame) cs
    | none => some (e, cs)

/-- Reads an expression that does not end with another one. -/
def readPrimary : Nat → List Char → Option (Expr × List Char)
  | 0, _ => none
  | _ + 1, [] => none
  | fuel + 1, c :: cs =>
    if c = '(' then
      (readExpr fuel cs).elim (readPrefix fuel cs) fun (e, cs) => readInfix fuel e cs
    else if c = '\'' then
      (readQuoted cs).map fun (inner, rest) =>
        (.raw (String.ofList ('\'' :: inner ++ ['\''])), rest)
    else if c = '\x60' then
      (readIdentifier (c :: cs)).map fun (name, rest) => (.column none name, rest)
    else if Text.isWordStart c then
      let (word, rest) := spanWord (c :: cs)
      readWord fuel (String.ofList word) rest
    else (readNumber (c :: cs)).map fun (run, rest) => (.raw (String.ofList run), rest)

def readPrefix : Nat → List Char → Option (Expr × List Char)
  | 0, _ => none
  | fuel + 1, cs => do
    let (op, cs) ← choose prefixes cs
    let (e, cs) ← readExpr fuel cs
    let cs ← behind [')'] cs
    some (.unary op e, cs)

def readInfix : Nat → Expr → List Char → Option (Expr × List Char)
  | 0, _, _ => none
  | fuel + 1, e, cs =>
    match choose infixes cs with
    | some (.isNull, cs) => some (.unary .isNull e, cs)
    | some (.isNotNull, cs) => some (.unary .isNotNull e, cs)
    | some (.inList, cs) => do
      let (items, cs) ← readItems fuel cs
      let cs ← behind "))".toList cs
      some (.inList e items, cs)
    | some (.between, cs) => do
      let (low, cs) ← readExpr fuel cs
      let cs ← behind " AND ".toList cs
      let (high, cs) ← readExpr fuel cs
      let cs ← behind [')'] cs
      some (.between e low high, cs)
    | some (.binary op, cs) => do
      let (right, cs) ← readExpr fuel cs
      let cs ← behind [')'] cs
      some (.binary op e right, cs)
    | none => none

def readWord : Nat → String → List Char → Option (Expr × List Char)
  | 0, _, _ => none
  | fuel + 1, word, cs =>
    match keywords.lookup word with
    | some .case => do
      let (branches, cs) ← readBranches fuel cs
      match behind " ELSE ".toList cs with
      | some cs => do
        let (otherwise, cs) ← readExpr fuel cs
        let cs ← behind " END".toList cs
        some (.case branches (some otherwise), cs)
      | none => do
        let cs ← behind " END".toList cs
        some (.case branches none, cs)
    | some .cast => do
      let cs ← behind ['('] cs
      let (e, cs) ← readExpr fuel cs
      let cs ← behind " AS ".toList cs
      match choose numberTypes cs with
      | some (type, cs) => some (.raw ("CAST(" ++ rawText e ++ " AS " ++ type ++ ")"), cs)
      | none => do
        let (type, cs) ← DataType.readText fuel cs
        let cs ← behind [')'] cs
        some (.cast e type, cs)
    | some .array => do
      let cs ← behind ['('] cs
      let (items, cs) ← readItems fuel cs
      let cs ← behind [')'] cs
      some (.raw ("array(" ++ ", ".intercalate (items.map rawText) ++ ")"), cs)
    | some .interval => (readInterval cs).map fun (text, rest) => (.raw text, rest)
    | some .constant => some (.raw word, cs)
    | some .quoted => do
      let cs ← behind " '".toList cs
      let (inner, cs) ← readQuoted cs
      some (.raw (word ++ " '" ++ String.ofList inner ++ "'"), cs)
    | some .refused => none
    | none => readName fuel word cs

/-- Reads what follows a word that is not a keyword: a quoted text makes it a byte string, and
arguments make it a call. -/
def readName : Nat → String → List Char → Option (Expr × List Char)
  | 0, _, _ => none
  | fuel + 1, word, cs =>
    match behind ['\''] cs with
    | some cs => do
      let (inner, cs) ← readQuoted cs
      some (.raw (word ++ "'" ++ String.ofList inner ++ "'"), cs)
    | none =>
      match behind ['('] cs with
      | some cs => do
        let (args, cs) ← readItems fuel cs
        let cs ← behind [')'] cs
        some (.call word args, cs)
      | none => some (.column none word, cs)

def readBranches : Nat → List Char → Option (List (Expr × Expr) × List Char)
  | 0, _ => none
  | fuel + 1, cs =>
    match behind " WHEN ".toList cs with
    | some cs => do
      let (condition, cs) ← readExpr fuel cs
      let cs ← behind " THEN ".toList cs
      let (value, cs) ← readExpr fuel cs
      let (branches, cs) ← readBranches fuel cs
      some ((condition, value) :: branches, cs)
    | none => some ([], cs)

def readItems : Nat → List Char → Option (List Expr × List Char)
  | 0, _ => none
  | fuel + 1, cs =>
    (readExpr fuel cs).elim (some ([], cs)) fun (e, cs) =>
      let (item, cs) := readOrder e cs
      match behind ", ".toList cs with
      | some cs => do
        let (items, cs) ← readItems fuel cs
        some (item :: items, cs)
      | none => some ([item], cs)

/-- Reads a section of a window, which is empty without its keyword, and a blank behind it. -/
def readSection : Nat → String → List Char → Option (List Expr × List Char)
  | 0, _, _ => none
  | fuel + 1, keyword, cs =>
    match behind keyword.toList cs with
    | some cs => do
      let (items, cs) ← readItems fuel cs
      some (items, (behind [' '] cs).getD cs)
    | none => some ([], cs)

end

end Columnar.Expr
