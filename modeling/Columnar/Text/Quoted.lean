/-! The two quoted forms of the expression language: a string literal between single quotes with
backslash escapes, and an identifier between backticks with every inner backtick doubled. -/
namespace Columnar.Text

def isWord (c : Char) : Bool := c.isAlphanum || c == '_'

def isWordStart (c : Char) : Bool := c.isAlpha || c == '_'

/-- A name that needs no quotes: a word start followed by word characters. -/
def isPlain (cs : List Char) : Bool :=
  match cs with
  | [] => false
  | c :: cs => isWordStart c && cs.all isWord

def escapeChar (c : Char) : List Char :=
  match c with
  | '\\' => ['\\', '\\']
  | '\'' => ['\\', '\'']
  | '\n' => ['\\', 'n']
  | '\r' => ['\\', 'r']
  | '\t' => ['\\', 't']
  | c => [c]

/-- A string literal: quote, backslash, line feed, carriage return and tab are escaped. -/
def quoteString (s : String) : String :=
  String.ofList ('\'' :: s.toList.flatMap escapeChar ++ ['\''])

def doubleBackticks : List Char → List Char
  | [] => []
  | c :: cs => if c = '\x60' then '\x60' :: '\x60' :: doubleBackticks cs
    else c :: doubleBackticks cs

def backquote (name : String) : String :=
  String.ofList ('\x60' :: doubleBackticks name.toList ++ ['\x60'])

/-- A name as the expression language reads it: bare when it is plain and `force` is off,
between backticks otherwise. -/
def quoteIdentifier (name : String) (force : Bool) : String :=
  if !force && isPlain name.toList then name else backquote name

def splitBacktick : List Char → Option (List Char × List Char)
  | [] => none
  | c :: cs =>
    if c = '\x60' then some ([], cs)
    else (splitBacktick cs).map fun (inner, rest) => (c :: inner, rest)

/-- The name inside backticks, a doubled backtick standing for one, and what follows the quotes. -/
def splitDoubled : List Char → Option (List Char × List Char)
  | [] => none
  | [c] => if c = '\x60' then some ([], []) else none
  | c :: d :: cs =>
    if c = '\x60' then
      if d = '\x60' then (splitDoubled cs).map fun (inner, rest) => ('\x60' :: inner, rest)
      else some ([], d :: cs)
    else (splitDoubled (d :: cs)).map fun (inner, rest) => (c :: inner, rest)

@[simp] theorem toList_quoteString (s : String) :
    (quoteString s).toList = '\'' :: s.toList.flatMap escapeChar ++ ['\''] := by
  simp [quoteString]

@[simp] theorem toList_backquote (s : String) :
    (backquote s).toList = '\x60' :: doubleBackticks s.toList ++ ['\x60'] := by
  simp [backquote]

/-- A backtick inside a name is written twice and every other character once. -/
theorem count_doubleBackticks (x : Char) (cs : List Char) :
    (doubleBackticks cs).count x = (if x = '\x60' then 2 else 1) * cs.count x := by
  induction cs with
  | nil => rfl
  | cons c cs ih => by_cases h : c = '\x60' <;> by_cases hx : x = c <;> grind [doubleBackticks]

end Columnar.Text
