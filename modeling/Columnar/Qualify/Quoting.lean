/-! Where a position of an expression text stands with respect to quotes. A single quote opens a
string literal, in which a backslash escapes the next character; a backtick opens an identifier,
which the next backtick closes. -/
namespace Columnar

inductive Quoting
  | plain
  | literal
  | escaped
  | identifier (opened : Nat)
  deriving DecidableEq, Repr

namespace Quoting

/-- The state after the character at the given position. -/
def step (position : Nat) (state : Quoting) (c : Char) : Quoting :=
  match state with
  | plain =>
    if c = '\'' then literal else if c = '\x60' then identifier position else plain
  | literal => if c = '\\' then escaped else if c = '\'' then plain else literal
  | escaped => literal
  | identifier opened => if c = '\x60' then plain else identifier opened

/-- The state after a run of characters that starts at the given position. -/
def scan (position : Nat) (state : Quoting) : List Char → Quoting
  | [] => state
  | c :: cs => scan (position + 1) (step position state c) cs

@[simp] theorem scan_nil (position : Nat) (state : Quoting) : scan position state [] = state := rfl

theorem scan_append (position : Nat) (state : Quoting) (cs ds : List Char) :
    scan position state (cs ++ ds) = scan (position + cs.length) (scan position state cs) ds := by
  induction cs generalizing position state with
  | nil => rfl
  | cons c cs ih => simp [scan, ih, Nat.add_assoc, Nat.add_comm 1]

end Quoting

end Columnar
