import Columnar.Qualify.Quoting
import Columnar.Qualify.TrailingAlias
import Columnar.Text.Case

/-! Qualifying the bare field names of an expression text by an alias. A name is taken for a field
where it stands alone outside quotes, or fills a back-quoted identifier, and no dot precedes it. -/
namespace Columnar

/-- Whether a text starts with a name, ignoring ASCII case; the name is given in lower case. -/
def startsWithName : List Char → List Char → Bool
  | [], _ => true
  | _ :: _, [] => false
  | n :: ns, c :: cs => c.toLower == n && startsWithName ns cs

def bindsNext (c : Char) : Bool := c == '.' || Text.isWord c

/-- Inserts a text in front of an occurrence if that is an unqualified field. `left` holds what is in
front of the occurrence, last character first, and `after` what follows it. A field that fills a
back-quoted identifier is qualified in front of the opening backtick. -/
def qualifyAt (inserted left after : List Char) : List Char :=
  match Quoting.scan 0 .plain left.reverse with
  | .literal | .escaped => left
  | .identifier opened =>
    match left with
    | [] => left
    | tick :: outer =>
      if outer.length = opened ∧ after.head? = some '\x60' ∧ outer.head? ≠ some '.' then
        tick :: (inserted.reverse ++ outer)
      else left
  | .plain =>
    if left.head?.any bindsNext || after.head?.any Text.isWord then left
    else inserted.reverse ++ left

/-- Goes through a text from left to right and looks at each occurrence of a name. `skip` characters
belong to the last occurrence; the search goes on behind it. -/
def qualifyFrom (inserted name : List Char) (left : List Char) : Nat → List Char → List Char
  | _, [] => left.reverse
  | skip + 1, c :: cs => qualifyFrom inserted name (c :: left) skip cs
  | 0, c :: cs =>
    if startsWithName name (c :: cs) then
      let left := qualifyAt inserted left ((c :: cs).drop name.length)
      qualifyFrom inserted name (c :: left) (name.length - 1) cs
    else qualifyFrom inserted name (c :: left) 0 cs

def qualifyName (tableAlias name : String) (text : List Char) : List Char :=
  qualifyFrom (tableAlias.toList ++ ['.']) (Text.lower name).toList [] 0 text

def insertByLength (name : String) : List String → List String
  | [] => [name]
  | other :: rest =>
    if other.utf8ByteSize ≤ name.utf8ByteSize then name :: other :: rest
    else other :: insertByLength name rest

def longestFirst (names : List String) : List String :=
  (names.filter (· ≠ "")).foldr insertByLength []

/-- Qualifies the fields of an expression text. A text that is one field name is qualified as a whole
and loses the blanks around it; a trailing output name is not looked at. -/
def qualify (tableAlias : String) (fields : List String) (text : String) : String :=
  let names := longestFirst fields
  let trimmed := String.ofList (Text.trim text.toList)
  if names.any (Text.sameName · trimmed) then tableAlias ++ "." ++ trimmed
  else
    let (body, clause) := (splitAlias text.toList).getD (text.toList, [])
    String.ofList (names.foldl (fun body name => qualifyName tableAlias name body) body ++ clause)

end Columnar
