/-!
# Ranges of code points

A Unicode property is given as a list of ranges of code points in increasing order, so a search can
stop at the first range that starts beyond the character sought.
-/

set_option autoImplicit false

namespace StackScript.Text

/-- The code points from the first number to the second, both included. -/
abbrev CodeRange := Nat × Nat

namespace CodeRange

/-- Does one of the ranges, given in increasing order, hold the code point? -/
def covers : List CodeRange → Nat → Bool
  | [], _ => false
  | (low, high) :: ranges, n => low ≤ n && (n ≤ high || covers ranges n)

end CodeRange

end StackScript.Text
