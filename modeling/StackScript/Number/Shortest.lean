import StackScript.Number.Binary64

/-!
# The shortest decimal that reads back

A number is written with the fewest decimal digits that read back as the same number; of two such
decimals the nearer one is taken, and halfway between them the larger.

A multiple of `2⁻¹⁰⁷⁴` is a multiple of `10⁻¹⁰⁷⁴` too, since `2⁻¹⁰⁷⁴ = 5¹⁰⁷⁴ · 10⁻¹⁰⁷⁴`.  So the
exact decimal expansion is a natural number of units of `10⁻¹⁰⁷⁴`, and shortening it means rounding
that number to a coarser power of ten.

* `expansion` — the exact value in units of `10⁻¹⁰⁷⁴`.
* `shorten` — the coarsest rounding that is still accepted; what is accepted here is what reads back.
* `positional` — the plain decimal notation of a number of units: no exponent, no superfluous
  zeros, and a point only where a fraction follows.
* `display` — the written form of any number.
-/

set_option autoImplicit false

namespace StackScript.Shortest

open Binary64

/-- Units of `10⁻¹⁰⁷⁴` in one unit of `2⁻¹⁰⁷⁴`. -/
def ratio : Nat := Nat.pow 5 finest

/-- Units of `10⁻¹⁰⁷⁴` in one. -/
def one : Nat := Nat.pow 10 finest

/-- The exact value of a finite bit pattern without a sign, in units of `10⁻¹⁰⁷⁴`. -/
def expansion (bits : Nat) : Nat := magnitude bits * ratio

/-- Is the number nearest to `units · 10⁻¹⁰⁷⁴` the one with these bits? -/
def readsBack (bits units : Nat) : Bool := nearest units ratio == bits

/-- The coarsest rounding of `exact` that is accepted, among the multiples of `10 ^ k`, then of
`10 ^ (k - 1)`, and so on down to `exact` itself. -/
def shorten (accepts : Nat → Bool) (exact : Nat) : Nat → Nat
  | 0 => exact
  | k + 1 =>
    let unit := Nat.pow 10 (k + 1)
    let below := exact / unit * unit
    let above := below + unit
    match accepts below, accepts above with
    | true, true => if exact - below < above - exact then below else above
    | true, false => below
    | false, true => above
    | false, false => shorten accepts exact k

/-- The largest power of ten that is at most `n`, by its exponent.  The estimate from the binary
length is at most one too small, for numbers up to five thousand bits. -/
def decimalOrder (n : Nat) : Nat :=
  let estimate := n.log2 * 30102 / 100000
  if Nat.pow 10 (estimate + 1) ≤ n then estimate + 1 else estimate

/-- The digits after the point, without the zeros at their end. -/
def fractionDigits (units : Nat) : List Char :=
  let digits := Nat.toDigits 10 units
  let padded := List.replicate (finest - digits.length) '0' ++ digits
  (padded.reverse.dropWhile (· == '0')).reverse

/-- A number of units of `10⁻¹⁰⁷⁴` in plain decimal notation. -/
def positional (units : Nat) : List Char :=
  let whole := Nat.toDigits 10 (units / one)
  let fraction := fractionDigits (units % one)
  if fraction.isEmpty then whole else whole ++ '.' :: fraction

/-- The written form of a bit pattern without a sign. -/
def displayBits (bits : Nat) : List Char :=
  if bits < infinityBits then
    let exact := expansion bits
    positional (shorten (readsBack bits) exact (decimalOrder exact))
  else "Infinity".toList

/-- The written form of a number: a minus sign where the sign bit is set, zero included, then the
shortest decimal. -/
def display (x : Float) : String :=
  if x.isNaN then "NaN"
  else
    let bits := x.toBits.toNat
    if bits < signBit then String.ofList (displayBits bits)
    else String.ofList ('-' :: displayBits (bits - signBit))

end StackScript.Shortest
