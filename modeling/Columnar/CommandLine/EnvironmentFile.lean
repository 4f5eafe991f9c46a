import Columnar.Text.Alphanumeric
import Columnar.Text.Blank
import Columnar.Text.Quoted

/-! Files of environment vars: one assignment on a line, with comments, quotes, escapes, and
references to variables set before. A line that is not an assignment ends the reading. -/
namespace Columnar.CommandLine

/-- Variables with their values; the first of a name counts. -/
abbrev Variables := List (String × String)

def isKeyChar (c : Char) : Bool := Text.isWord c || c == '.'

/-- Where a reader of a value stands. A reference is read with or without braces; what was read of its
name comes with it, last character first. -/
inductive ValueState
  | bare
  | escaped (isQuoted : Bool)
  | strong
  | weak
  | reference (isQuoted isBraced : Bool) (name : List Char)
  | ended

def ValueState.resume (isQuoted : Bool) : ValueState := if isQuoted then weak else bare

def referred (lookup : String → Option String) (name : List Char) : List Char :=
  ((lookup (String.ofList name.reverse)).getD "").toList

/-- The characters that one character of a value gives, and the state after it. -/
def valueStep (lookup : String → Option String) (state : ValueState) (c : Char) :
    Option (List Char × ValueState) :=
  match state with
  | .ended => if c == ' ' || c == '\t' then some ([], .ended) else none
  | .escaped isQuoted =>
    if c == '\\' || c == '\'' || c == '"' || c == '$' || c == ' ' then
      some ([c], .resume isQuoted)
    else if c = 'n' then some (['\n'], .resume isQuoted)
    else none
  | .strong => if c = '\'' then some ([], .bare) else some ([c], .strong)
  | .reference isQuoted isBraced name =>
    if Text.isAlphanumeric c then some ([], .reference isQuoted isBraced (c :: name))
    else if isBraced then
      if c = '\x7d' then some (referred lookup name, .resume isQuoted)
      else some ([], .reference isQuoted true (c :: name))
    else if c = '\x7b' ∧ name = [] then some ([], .reference isQuoted true [])
    else if c = '$' then some (referred lookup name, .reference isQuoted false [])
    else some (referred lookup name ++ [c], .resume isQuoted)
  | .weak =>
    if c = '$' then some ([], .reference true false [])
    else if c = '"' then some ([], .bare)
    else if c = '\\' then some ([], .escaped true)
    else some ([c], .weak)
  | .bare =>
    if c = '$' then some ([], .reference false false [])
    else if c = '\'' then some ([], .strong)
    else if c = '"' then some ([], .weak)
    else if c = '\\' then some ([], .escaped false)
    else if c == ' ' || c == '\t' then some ([], .ended)
    else some ([c], .bare)

def readValue (lookup : String → Option String) (state : ValueState) : List Char → Option (List Char)
  | [] =>
    match state with
    | .bare | .ended | .escaped false => some []
    | .reference false false name => some (referred lookup name)
    | _ => none
  | c :: cs =>
    match state, c with
    | .ended, '#' => some []
    | state, c => do
      let (cs', next) ← valueStep lookup state c
      let rest ← readValue lookup next cs
      some (cs' ++ rest)

def readKey (cs : List Char) : Option (String × List Char) :=
  match cs with
  | c :: _ =>
    if Text.isWordStart c then
      some (String.ofList (cs.takeWhile isKeyChar), Text.skipBlanks (cs.dropWhile isKeyChar))
    else none
  | [] => none

def splitAssignment (cs : List Char) : Option (String × List Char) := do
  let (key, rest) ← readKey cs
  match rest with
  | '=' :: value => some (key, Text.skipBlanks value)
  | rest =>
    if key = "export" then do
      let (key, rest) ← readKey rest
      match rest with
      | '=' :: value => some (key, Text.skipBlanks value)
      | _ => none
    else none

def isRemark (cs : List Char) : Bool := cs.isEmpty || cs.head? == some '#'

/-- The variables after the lines of a file; one that is set already keeps its value. -/
def readLines (vars : Variables) : List (List Char) → Variables
  | [] => vars
  | line :: rest =>
    let cs := Text.trim line
    if isRemark cs then readLines vars rest
    else
      match splitAssignment cs with
      | none => vars
      | some (key, value) =>
        let text := if isRemark value then some [] else readValue (vars.lookup ·) .bare value
        match text with
        | none => vars
        | some text =>
          if (vars.lookup key).isSome then readLines vars rest
          else readLines ((key, String.ofList text) :: vars) rest

/-- Where the search for the end of a line stands. A quote keeps the line open over a line break; a
blank directly in front of a comment sign makes it one. -/
inductive LineState
  | closed
  | gap
  | escape
  | strong (isEscaped : Bool)
  | weak (isEscaped : Bool)
  deriving DecidableEq, Repr

def LineState.step (state : LineState) (c : Char) : LineState :=
  match state with
  | .escape => .closed
  | .strong true => .strong false
  | .weak true => .weak false
  | .strong false =>
    if c = '\\' then .strong true else if c = '\'' then .closed else .strong false
  | .weak false => if c = '\\' then .weak true else if c = '"' then .closed else .weak false
  | _ =>
    if c = '\\' then .escape
    else if c = '"' then .weak false
    else if c = '\'' then .strong false
    else if state = .closed ∧ Text.isBlank c ∧ c ≠ '\n' ∧ c ≠ '\r' then .gap
    else .closed

/-- The lines of a file without their comments. `done` holds the characters of the line so far, last
first. A line that the end of the file leaves open is dropped. -/
def linesFrom (state : LineState) (inComment : Bool) (done : List Char) : List Char → List (List Char)
  | [] => if state = .closed then [done.reverse] else []
  | c :: cs =>
    if inComment then
      if c = '\n' then done.reverse :: linesFrom .closed false [] cs
      else linesFrom .closed true done cs
    else if c = '#' ∧ (state = .gap ∨ done.all Text.isBlank) then linesFrom .closed true done cs
    else
      let next := state.step c
      if c = '\n' ∧ next = .closed then done.reverse :: linesFrom .closed false [] cs
      else linesFrom next false (c :: done) cs

/-- The lines of a file. A mark that tells the order of its bytes may stand in front. -/
def linesOf (cs : List Char) : List (List Char) :=
  match cs with
  | '\ufeff' :: rest => linesFrom .closed false [] rest
  | cs => linesFrom .closed false [] cs

/-- The variables of an environment completed by a file. -/
def completeFrom (file : String) (vars : Variables) : Variables :=
  readLines vars (linesOf file.toList)

def namesIn (file : String) : List String :=
  (file.toList.splitOnP fun c => !isKeyChar c).filterMap fun word =>
    if word.isEmpty then none else some (String.ofList word)

end Columnar.CommandLine
