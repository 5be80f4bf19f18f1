/-!
# Rounding to the binary64 grid

A finite, non-negative binary64 number is a natural multiple of `2⁻¹⁰⁷⁴`, and its bit pattern, read
as a natural number, grows with it.

* `magnitude` — the multiple that a bit pattern stands for.
* `nearest` — the bit pattern nearest to a fraction of the grid unit, a tie going to the even
  pattern and anything too large to infinity.
* `ofDecimal` — the number nearest to `coefficient · 10 ^ exponent`.
-/

set_option autoImplicit false

namespace StackScript.Binary64

/-- The weight of the leading bit of a significand, `2 ^ 52`: the lowest bit of the exponent. -/
abbrev leadingBit : Nat := 0x10000000000000

/-- The weight of the sign in a bit pattern, `2 ^ 63`. -/
abbrev signBit : Nat := 0x8000000000000000

/-- The finest grid of the format is that of the multiples of `2 ^ -finest`. -/
abbrev finest : Nat := 1074

/-- The bit pattern of positive infinity: every larger pattern without a sign is not a number. -/
abbrev infinityBits : Nat := 0x7FF0000000000000

/-- How many units of the finest grid a finite bit pattern without a sign stands for. -/
def magnitude (bits : Nat) : Nat :=
  if bits < 2 * leadingBit then bits
  else (leadingBit + bits % leadingBit) * Nat.pow 2 (bits / leadingBit - 1)

/-- The natural number nearest to `n / d`; halfway between two, the even one. -/
def divRound (n d : Nat) : Nat :=
  let quotient := n / d
  let remainder := n % d
  if 2 * remainder < d then quotient
  else if d < 2 * remainder then quotient + 1
  else quotient + quotient % 2

/-- The bit pattern nearest to `n / d` units of the finest grid.  The quotient is cut to 53
significant bits; a carry out of them runs into the exponent, where it belongs. -/
def nearest (n d : Nat) : Nat :=
  let shift := (n / d).log2 - 52
  min infinityBits (shift * leadingBit + divRound n (d * Nat.pow 2 shift))

/-- The bit pattern nearest to `coefficient · 10 ^ exponent`. -/
def decimalBits (coefficient : Nat) (exponent : Int) : Nat :=
  match exponent with
  | .ofNat e => nearest (coefficient * Nat.pow 10 e * Nat.pow 2 finest) 1
  | .negSucc e => nearest (coefficient * Nat.pow 2 finest) (Nat.pow 10 (e + 1))

/-- The number nearest to `coefficient · 10 ^ exponent`. -/
def ofDecimal (coefficient : Nat) (exponent : Int) : Float :=
  Float.ofBits (UInt64.ofNat (decimalBits coefficient exponent))

end StackScript.Binary64
