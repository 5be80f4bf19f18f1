import StackScript.Fault
import StackScript.Text.Blank

/-!
# Tokens

A source text is a row of tokens with blanks between them.

* A string literal is a `"`, any characters but a quote or a line feed, and a closing `"`.  It starts
  only where a token may start, and whatever stands right after its closing quote is a new token.
* Any other token is a run of characters without blanks; a quote inside it is an ordinary character.

`Token.scan` reads the characters one by one.  What it has to remember between two characters is a
`Reading`: that it is between tokens, inside a word, or inside a string literal.
-/

set_option autoImplicit false

namespace StackScript

/-- A lexeme and the place of its first character.  A string literal keeps its quotes. -/
structure Token where
  location : Location
  text : String
deriving DecidableEq, Repr

namespace Token

/-- The contents of a string literal: what stands between a quote at the start and another at the
end. -/
def string? (token : Token) : Option String :=
  match token.text.toList with
  | '"' :: rest => if rest.getLast? = some '"' then some (String.ofList rest.dropLast) else none
  | _ => none

def isString (token : Token) : Bool := token.string?.isSome

def located (token : Token) : String := token.location.display ++ ": " ++ token.text

/-- What a scan is in the middle of: a gap between two tokens, a word, or a string literal.  The characters seen
so far are kept last first. -/
inductive Reading where
  | gap
  | word (start : Location) (seen : List Char)
  | string (start : Location) (seen : List Char)
deriving DecidableEq, Repr

/-- The token that starts at `start` and whose characters, last first, are `seen`. -/
def ofSeen (start : Location) (seen : List Char) : Token := ⟨start, String.ofList seen.reverse⟩

/-- The tokens of the characters that are left, the first of which stands at `here`. -/
def scanFrom : Reading → Location → List Char → Except Fault (List Token)
  | .gap, _, [] => .ok []
  | .word start seen, _, [] => .ok [ofSeen start seen]
  | .string start _, _, [] => .error (Fault.inSource .endInString start)
  | .gap, here, c :: rest =>
    if Text.isBlank c then scanFrom .gap (here.advance c) rest
    else if c = '"' then scanFrom (.string here [c]) (here.advance c) rest
    else scanFrom (.word here [c]) (here.advance c) rest
  | .word start seen, here, c :: rest =>
    if Text.isBlank c then (scanFrom .gap (here.advance c) rest).map (ofSeen start seen :: ·)
    else scanFrom (.word start (c :: seen)) (here.advance c) rest
  | .string start seen, here, c :: rest =>
    if c = '"' then (scanFrom .gap (here.advance c) rest).map (ofSeen start (c :: seen) :: ·)
    else if c = '\n' then .error (Fault.inSource .newLineInString start)
    else scanFrom (.string start (c :: seen)) (here.advance c) rest

/-- The tokens of a source text.  The path only tags their locations. -/
def scan (path source : String) : Except Fault (List Token) :=
  scanFrom .gap (Location.start path) source.toList

end Token

end StackScript
