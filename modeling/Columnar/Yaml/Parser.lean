import Columnar.Yaml.Basic
import Columnar.Yaml.Scalar

/-! Reading YAML: block collections by their columns, flow collections by their brackets. Each reader
takes the place it stands at and returns what it read with the place of the next token. A text holds
one document; anchors, tags, block scalars and explicit keys are not read. -/
namespace Columnar.Yaml

/-- A place in a text: the characters from there on, and the column. -/
structure Place where
  column : Nat
  rest : List Char

namespace Place

def goTo (p : Place) (rest : List Char) : Place :=
  ⟨p.column + (p.rest.length - rest.length), rest⟩

def skipGap (p : Place) : Place := p.goTo (p.rest.dropWhile isGap)

def skipSpaces (p : Place) : Place := p.goTo (p.rest.dropWhile (· == ' '))

end Place

/-- The next token: past blanks, line breaks and comments. Tabs count as blanks in flow collections and
inside a line. -/
def nextToken (inFlow isLineStart inComment : Bool) (column : Nat) : List Char → Place
  | [] => ⟨column, []⟩
  | c :: cs =>
    if c = '\n' then nextToken inFlow true false 0 cs
    else if inComment then nextToken inFlow isLineStart true (column + 1) cs
    else if c = ' ' || (c == '\t' && (inFlow || !isLineStart)) then
      nextToken inFlow isLineStart false (column + 1) cs
    else if c = '#' then nextToken inFlow isLineStart true (column + 1) cs
    else ⟨column, c :: cs⟩

def isMarker (mark : Char) : List Char → Bool
  | a :: b :: c :: cs => a == mark && b == mark && c == mark && startsGap cs
  | _ => false

def Place.isEnd (p : Place) : Bool :=
  p.rest.isEmpty || (p.column == 0 && (isMarker '-' p.rest || isMarker '.' p.rest))

def Place.isEntry (p : Place) : Bool :=
  match p.rest with
  | '-' :: cs => startsGap cs
  | _ => false

def Place.isLineEnd (p : Place) : Bool :=
  match p.rest with
  | [] => true
  | c :: _ => c == '\n' || c == '#'

def Place.finish (p : Place) : Option Place :=
  let p := p.skipGap
  if p.isLineEnd then some (nextToken false false false p.column p.rest) else none

def skipBreaks (breaks column : Nat) : List Char → Nat × Place
  | [] => (breaks, ⟨column, []⟩)
  | c :: cs =>
    if c = '\n' then skipBreaks (breaks + 1) 0 cs
    else if isGap c then skipBreaks breaks (column + 1) cs
    else (breaks, ⟨column, c :: cs⟩)

/-- The further lines of a plain scalar, at least as deep as `depth`. The fuel bounds the lines. -/
def plainLines (inFlow : Bool) (depth : Nat) : Nat → Place → List Char × Place
  | 0, p => ([], p)
  | fuel + 1, p =>
    let (breaks, q) := skipBreaks 0 p.column p.rest
    if breaks = 0 || q.isEnd || (!inFlow && q.column < depth) || q.rest.head? = some '#' then ([], p)
    else
      match plainRun inFlow [] q.rest with
      | ([], _) => ([], p)
      | (run, rest) =>
        let (more, last) := plainLines inFlow depth fuel (q.goTo rest)
        (foldedBreaks breaks ++ run ++ more, last)

def plainScalar (inFlow : Bool) (depth : Nat) (p : Place) : Option (Yaml × Place) :=
  if startsPlain inFlow p.rest then
    let (run, rest) := plainRun inFlow [] p.rest
    let (more, last) := plainLines inFlow depth rest.length (p.goTo rest)
    if inFlow && startsTightColon last.rest then none
    else some (scalar (String.ofList (run ++ more)) false, last)
  else none

def flowToken (p : Place) : Place := nextToken true false false p.column p.rest

mutual

def flowNode : Nat → Place → Option (Yaml × Place)
  | 0, _ => none
  | fuel + 1, p =>
    match p.rest with
    | '[' :: cs => flowItems fuel [] (flowToken (p.goTo cs))
    | '\x7b' :: cs => flowPairs fuel [] (flowToken (p.goTo cs))
    | '\'' :: _ | '"' :: _ => (quoted? p.rest).map fun (text, rest) => (scalar text true, p.goTo rest)
    | _ => plainScalar true 0 p

/-- Reads the value behind a key of a flow collection; it may be missing. -/
def flowValue : Nat → Place → Option (Yaml × Place)
  | 0, _ => none
  | fuel + 1, p =>
    match p.rest with
    | ',' :: _ | ']' :: _ | '\x7d' :: _ => some (empty, p)
    | _ => do
      let (value, p) ← flowNode fuel p
      some (value, flowToken p)

/-- Reads the items of a flow list; `done` holds the last one first. A pair by itself is a mapping of
one pair. -/
def flowItems : Nat → List Yaml → Place → Option (Yaml × Place)
  | 0, _, _ => none
  | fuel + 1, done, p =>
    match p.rest with
    | ']' :: cs => some (list done.reverse, p.goTo cs)
    | _ => do
      let (first, p) ← flowNode fuel p
      let p := flowToken p
      let (item, p) ← match p.rest with
        | ':' :: cs => do
          let (value, p) ← flowValue fuel (flowToken (p.goTo cs))
          some (mapping [(first, value)], p)
        | _ => some (first, p)
      match p.rest with
      | ',' :: cs => flowItems fuel (item :: done) (flowToken (p.goTo cs))
      | ']' :: cs => some (list (item :: done).reverse, p.goTo cs)
      | _ => none

def flowPairs : Nat → List (Yaml × Yaml) → Place → Option (Yaml × Place)
  | 0, _, _ => none
  | fuel + 1, done, p =>
    match p.rest with
    | '\x7d' :: cs => some (mapping done.reverse, p.goTo cs)
    | _ => do
      let (key, p) ← flowNode fuel p
      let p := flowToken p
      let (value, p) ← match p.rest with
        | ':' :: cs => flowValue fuel (flowToken (p.goTo cs))
        | _ => some (empty, p)
      match p.rest with
      | ',' :: cs => flowPairs fuel ((key, value) :: done) (flowToken (p.goTo cs))
      | '\x7d' :: cs => some (mapping ((key, value) :: done).reverse, p.goTo cs)
      | _ => none

end

def keyScalar (p : Place) : Option (Yaml × Place) :=
  match p.rest with
  | '\'' :: _ | '"' :: _ =>
    match quoted? p.rest with
    | some (text, rest) =>
      if (p.rest.take (p.rest.length - rest.length)).contains '\n' then none
      else some (scalar text true, p.goTo rest)
    | none => none
  | _ =>
    if startsPlain false p.rest then
      let (run, rest) := plainRun false [] p.rest
      some (scalar (String.ofList run) false, p.goTo rest)
    else none

/-- A key with the place behind its colon, if a key stands here. -/
def key? (p : Place) : Option (Yaml × Place) := do
  let (key, q) ← keyScalar p
  let q := q.skipGap
  match q.rest with
  | ':' :: cs => if startsGap cs then some (key, q.goTo cs) else none
  | _ => none

mutual

/-- Reads a value at a token. `depth` is the least column of its further lines; block collections start
only where `isBlock` allows them. -/
def node : Nat → Nat → Bool → Place → Option (Yaml × Place)
  | 0, _, _, _ => none
  | fuel + 1, depth, isBlock, p =>
    if p.isEntry then (if isBlock then entries fuel p.column [] p else none)
    else
      match key? p with
      | some _ => if isBlock then pairs fuel p.column [] p else none
      | none => do
        let (value, q) ← match p.rest with
          | '[' :: _ | '\x7b' :: _ | '\'' :: _ | '"' :: _ => flowNode p.rest.length p
          | _ => plainScalar false depth p
        let q ← q.finish
        some (value, q)

def entries : Nat → Nat → List Yaml → Place → Option (Yaml × Place)
  | 0, _, _, _ => none
  | fuel + 1, column, done, p =>
    if p.isEnd || p.column < column || (p.column == column && !p.isEntry) then
      some (list done.reverse, p)
    else if p.column = column then do
      let q := (p.goTo (p.rest.drop 1)).skipSpaces
      let (value, q) ←
        if q.isLineEnd then
          let q := nextToken false false false q.column q.rest
          if q.isEnd || q.column ≤ column then some (empty, q) else node fuel (column + 1) true q
        else node fuel (column + 1) true q
      entries fuel column (value :: done) q
    else none

def pairs : Nat → Nat → List (Yaml × Yaml) → Place → Option (Yaml × Place)
  | 0, _, _, _ => none
  | fuel + 1, column, done, p =>
    if p.isEnd || p.column < column then some (mapping done.reverse, p)
    else if p.column = column then do
      let (key, q) ← key? p
      let q := q.skipGap
      let (value, q) ←
        if q.isLineEnd then
          let q := nextToken false false false q.column q.rest
          if q.isEnd || q.column < column || (q.column == column && !q.isEntry) then some (empty, q)
          else if q.column = column then entries fuel column [] q
          else node fuel (column + 1) true q
        else node fuel (column + 1) false q
      pairs fuel column ((key, value) :: done) q
    else none

end

def isAllowed (c : Char) : Bool :=
  let n := c.toNat
  n == 9 || n == 10 || n == 13 || (0x20 ≤ n && n ≤ 0x7e) || n == 0x85 ||
    (0xa0 ≤ n && n ≤ 0xfffd && n != 0xfeff) || 0x10000 ≤ n

def normalBreaks : List Char → List Char
  | [] => []
  | '\r' :: '\n' :: cs => '\n' :: normalBreaks cs
  | c :: cs => (if c = '\r' || c == '\u0085' then '\n' else c) :: normalBreaks cs

/-- The text without the mark that tells the order of its bytes. -/
def withoutMark : List Char → List Char
  | c :: cs => if c = '\ufeff' then cs else c :: cs
  | [] => []

def isDocumentEnd (p : Place) : Bool :=
  if isMarker '.' p.rest then (nextToken false true false 3 (p.rest.drop 3)).rest.isEmpty
  else p.rest.isEmpty

/-- Reads a text of one document. A text without any value is empty. -/
def parse? (text : String) : Option Yaml :=
  let cs := withoutMark text.toList
  if cs.all isAllowed then
    let p := nextToken false true false 0 (normalBreaks cs)
    let isMarked := p.column == 0 && isMarker '-' p.rest
    let p := if isMarked then (p.goTo (p.rest.drop 3)).skipGap else p
    let isInline := isMarked && !p.isLineEnd
    let p := if isInline then p else nextToken false (!isMarked) false p.column p.rest
    if p.isEnd then (if isDocumentEnd p then some empty else none)
    else do
      let (value, p) ← node (2 * cs.length + 2) 0 (!isInline) p
      if p.isEnd && isDocumentEnd p then some value else none
  else none

end Columnar.Yaml
