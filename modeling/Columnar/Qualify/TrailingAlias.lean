import Columnar.Text.Blank
import Columnar.Text.Quoted

/-! The output name at the end of an expression text: blanks, the word AS, blanks, and a plain or
back-quoted name, with nothing but blanks after it. The text in front of the first such clause is
the body. Letters are matched under Unicode simple case folding, which identifies two further
characters with ASCII letters. -/
namespace Columnar

def isLetterA (c : Char) : Bool := c == 'a' || c == 'A'

def isLetterS (c : Char) : Bool := c == 's' || c == 'S' || c.toNat == 0x17f

/-- The characters outside ASCII that fold to an ASCII letter: the long s and the Kelvin sign. -/
def foldsToLetter (c : Char) : Bool := c.toNat == 0x17f || c.toNat == 0x212a

def isAliasStart (c : Char) : Bool := Text.isWordStart c || foldsToLetter c

def isAliasChar (c : Char) : Bool := Text.isWord c || foldsToLetter c

def aliasName? (cs : List Char) : Option (List Char) :=
  match cs with
  | [] => none
  | c :: rest =>
    if c = '\x60' then
      match Text.splitBacktick rest with
      | some (inner, after) =>
        if after.all Text.isBlank then some ('\x60' :: inner ++ ['\x60']) else none
      | none => none
    else if isAliasStart c && (cs.dropWhile isAliasChar).all Text.isBlank then
      some (cs.takeWhile isAliasChar)
    else none

/-- The clause that the whole text consists of, less the blanks that end it. -/
def aliasClause? (cs : List Char) : Option (List Char) :=
  let lead := cs.takeWhile Text.isBlank
  match cs.dropWhile Text.isBlank with
  | a :: s :: rest =>
    let gap := rest.takeWhile Text.isBlank
    if !lead.isEmpty && isLetterA a && isLetterS s && !gap.isEmpty then
      (aliasName? (rest.dropWhile Text.isBlank)).map fun name => lead ++ a :: s :: gap ++ name
    else none
  | _ => none

/-- Splits a text into the shortest body that a clause follows, and that clause. -/
def splitAlias : List Char → Option (List Char × List Char)
  | [] => none
  | c :: cs =>
    match aliasClause? (c :: cs) with
    | some clause => some ([], clause)
    | none => (splitAlias cs).map fun (body, clause) => (c :: body, clause)

end Columnar
