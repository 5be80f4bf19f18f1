import StackScript.Number.Binary64

/-!
# Numerals

Which texts are numbers, and which number each of them is.

* `Infinity`, with or without a sign.
* An optional sign and a body that starts with a digit or a point.  Underscores in the body are
  separators and count for nothing.  What is left of it is
  * `0x`, `0b` or `0o`, in either case, and one or more digits of that radix; the digits are added
    up in floating point, each step rounding, so a long literal may differ in its last bit from the
    same number written in decimal;
  * or a decimal: digits with at most one point among them, at least one digit, and optionally `e`
    or `E`, a sign and one or more digits.  It is rounded once.

The exponent of a decimal is read up to a bound far outside the range of binary64 and grows no
further, so a long row of digits in it costs nothing.

No text is turned away by the characters in it before it is read: `Numeral.looksNumeric`, the test which
would do that, is passed by every numeral but `Infinity`.
-/

set_option autoImplicit false

namespace StackScript.Numeral

/-- The value of a character as a digit of the radix, letters counting on from ten. -/
def digitValue? (radix : Nat) (c : Char) : Option Nat :=
  let value? :=
    if c.isDigit then some (c.toNat - '0'.toNat)
    else if c.isLower then some (c.toNat - 'a'.toNat + 10)
    else if c.isUpper then some (c.toNat - 'A'.toNat + 10)
    else none
  value?.filter (· < radix)

/-- One more digit: the number so far times the radix, plus the digit. -/
def addDigit (radix : Nat) (total : Float) (c : Char) : Option Float :=
  (digitValue? radix c).map fun digit => total * Float.ofNat radix + Float.ofNat digit

/-- One or more digits of the radix, added up from the left in floating point. -/
def readRadix (radix : Nat) (digits : List Char) : Option Float :=
  if digits.isEmpty then none else digits.foldlM (addDigit radix) 0

/-- The radix that a body announces by its first two characters, and the digits after them. -/
def splitRadix : List Char → Option (Nat × List Char)
  | '0' :: mark :: digits =>
    if mark = 'x' ∨ mark = 'X' then some (16, digits)
    else if mark = 'b' ∨ mark = 'B' then some (2, digits)
    else if mark = 'o' ∨ mark = 'O' then some (8, digits)
    else none
  | _ => none

/-- The bound beyond which an exponent grows no further. -/
def exponentBound : Nat := 65536

/-- The value of a row of exponent digits, growing no further once it has reached the bound. -/
def exponentValue (digits : List Char) : Nat :=
  digits.foldl
    (fun e c => if e < exponentBound then 10 * e + (c.toNat - '0'.toNat) else e) 0

/-- One or more digits of an exponent, and nothing else. -/
def readExponentDigits (digits : List Char) : Option Nat :=
  if !digits.isEmpty && digits.all Char.isDigit then some (exponentValue digits) else none

/-- What may follow the digits of a decimal: nothing, or a mark, an optional sign and digits. -/
def readExponent : List Char → Option Int
  | [] => some 0
  | mark :: rest =>
    if mark = 'e' ∨ mark = 'E' then
      match rest with
      | '-' :: digits => (readExponentDigits digits).map fun e => -(e : Int)
      | '+' :: digits => (readExponentDigits digits).map fun e => (e : Int)
      | digits => (readExponentDigits digits).map fun e => (e : Int)
    else none

/-- The digits after a leading point, and what follows them. -/
def splitFraction : List Char → List Char × List Char
  | '.' :: rest => (rest.takeWhile Char.isDigit, rest.dropWhile Char.isDigit)
  | rest => ([], rest)

/-- A decimal without a sign, rounded once. -/
def readDecimal (body : List Char) : Option Float :=
  let whole := body.takeWhile Char.isDigit
  let (fraction, rest) := splitFraction (body.dropWhile Char.isDigit)
  let digits := whole ++ fraction
  if digits.isEmpty then none
  else (readExponent rest).map fun exponent =>
    Binary64.ofDecimal (Nat.ofDigitChars 10 digits 0) (exponent - fraction.length)

/-- A body from which the separators have been deleted. -/
def readBody (body : List Char) : Option Float :=
  match splitRadix body with
  | some (radix, digits) => readRadix radix digits
  | none => readDecimal body

/-- May a body start with this character? -/
def startsBody (c : Char) : Bool := c.isDigit || c == '.'

def readUnsigned (text : List Char) : Option Float :=
  match text with
  | c :: _ => if startsBody c then readBody (text.filter (· != '_')) else none
  | [] => none

def infinity : Float := Float.ofBits (UInt64.ofNat Binary64.infinityBits)

/-- A numeral without a sign. -/
def readMagnitude (text : List Char) : Option Float :=
  if text = "Infinity".toList then some infinity else readUnsigned text

/-- The number that a row of characters stands for, if it is a numeral.  A minus sign flips the
sign of whatever follows it, zero and infinity included. -/
def readChars : List Char → Option Float
  | '-' :: rest => (readMagnitude rest).map fun x => -x
  | '+' :: rest => readMagnitude rest
  | text => readMagnitude text

/-- The number that a text stands for, if it is a numeral. -/
def read? (text : String) : Option Float := readChars text.toList

end StackScript.Numeral
