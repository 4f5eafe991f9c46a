/-! White space, and its removal from the ends of a text. Skipping drops exactly the leading
blanks: what is left starts with a character of its own. -/
namespace Columnar.Text

/-- The characters of the Unicode property White_Space. -/
def isBlank (c : Char) : Bool :=
  let n := c.toNat
  (0x9 ≤ n && n ≤ 0xd) || n == 0x20 || n == 0x85 || n == 0xa0 || n == 0x1680 ||
    (0x2000 ≤ n && n ≤ 0x200a) || n == 0x2028 || n == 0x2029 || n == 0x202f || n == 0x205f ||
    n == 0x3000

def skipBlanks (cs : List Char) : List Char := cs.dropWhile isBlank

/-- The text up to its last non-blank character. -/
def trimEnd (cs : List Char) : List Char := (skipBlanks cs.reverse).reverse

def trim (cs : List Char) : List Char := trimEnd (skipBlanks cs)

theorem length_skipBlanks_le (cs : List Char) : (skipBlanks cs).length ≤ cs.length :=
  (List.dropWhile_suffix isBlank).length_le

theorem head_skipBlanks {c : Char} {cs rest : List Char} (h : skipBlanks cs = c :: rest) :
    isBlank c = false := by
  have := List.head?_dropWhile_not isBlank cs
  simp only [skipBlanks] at h
  rw [h] at this
  simpa using this

end Columnar.Text
