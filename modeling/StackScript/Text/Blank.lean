/-!
# Blank characters

Tokens are separated by blanks: the characters with the Unicode property White_Space.  Besides the
ASCII blanks these are the next-line control, the non-breaking spaces, the typographic spaces and
the line and paragraph separators.
-/

set_option autoImplicit false

namespace StackScript.Text

/-- Does the character have the Unicode property White_Space? -/
def isBlank (c : Char) : Bool :=
  let n := c.toNat
  (0x09 ≤ n && n ≤ 0x0D) || n == 0x20 || n == 0x85 || n == 0xA0 || n == 0x1680 ||
    (0x2000 ≤ n && n ≤ 0x200A) || n == 0x2028 || n == 0x2029 || n == 0x202F || n == 0x205F ||
    n == 0x3000

end StackScript.Text
