import StackScript.Text.Unprintable
import StackScript.Text.Extending

/-!
# Quoted texts

Where a text has to be told apart from a number or a name (stack listings, code listings) it is
written between double quotes.

* A quote, a backslash and the usual control characters are written with a backslash; an
  apostrophe is not.
* A character without a printed form, or one that would merge with its neighbour, is written as
  its code point in hexadecimal.
* Every other character stands for itself.
-/

set_option autoImplicit false

namespace StackScript.Text.Quoted

/-- A code point written out: lower-case hexadecimal digits in braces. -/
def codePoint (c : Char) : List Char :=
  "\\u\x7b".toList ++ Nat.toDigits 16 c.toNat ++ "\x7d".toList

/-- How a single character is written inside quotes. -/
def escape (c : Char) : List Char :=
  if c = '"' then ['\\', '"']
  else if c = '\\' then ['\\', '\\']
  else if c = '\n' then ['\\', 'n']
  else if c = '\r' then ['\\', 'r']
  else if c = '\t' then ['\\', 't']
  else if c.toNat = 0 then ['\\', '0']
  else if isExtending c || isUnprintable c then codePoint c
  else [c]

/-- The text between double quotes. -/
def encode (text : String) : String :=
  String.ofList ('"' :: text.toList.flatMap escape ++ ['"'])

end StackScript.Text.Quoted
