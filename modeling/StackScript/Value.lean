import StackScript.Number.Shortest
import StackScript.Text.Quoted
import StackScript.Value.Kind

/-!
# Values

What a script keeps on its stack.

* Numbers are binary64, always.
* A package is a scope, and a host object is something the host handed out: both are known by
  identity only.
* `Value.same` — equality as scripts see it: never between kinds, by number for numbers (so a NaN
  differs from itself and the two zeros are equal), by identity for packages and host objects.
* `Value.display`, `Value.quoted` — the two written forms; they differ on texts alone.

Writing a package needs the names bound in its scope, so both written forms take a function that
gives them.
-/

set_option autoImplicit false

namespace StackScript

/-- Scopes are numbered in the order of their creation. -/
abbrev ScopeId := Nat

/-- Something handed out by the host, which says what kind of thing it is: scripts can move it around and
compare it. -/
structure HostObject where
  id : Nat
  kind : String
deriving DecidableEq, Repr

/-- An element of the stack: a binary64 number, a truth value, a text, a scope that a script has closed, or an
object of the host. -/
inductive Value where
  | number (x : Float)
  | bool (b : Bool)
  | text (s : String)
  | package (scope : ScopeId)
  | host (object : HostObject)
deriving DecidableEq, Repr

instance : Inhabited Value := ⟨.bool false⟩

namespace Value

def kind : Value → ValueKind
  | .number _ => .number
  | .bool _ => .boolean
  | .text _ => .string
  | .package _ => .package
  | .host _ => .hostObject

/-- Equality as scripts see it. -/
def same : Value → Value → Bool
  | .number x, .number y => x == y
  | .bool a, .bool b => a == b
  | .text a, .text b => a == b
  | .package a, .package b => a == b
  | .host a, .host b => a.id == b.id
  | _, _ => false

/-- Does the value count as true?  False, zero, NaN and the empty text do not. -/
def isTruthy : Value → Bool
  | .number x => x != 0 && !x.isNaN
  | .bool b => b
  | .text s => !s.isEmpty
  | .package _ => true
  | .host _ => true

/-- The written form of a value, texts standing for themselves. -/
def display (names : ScopeId → List String) : Value → String
  | .number x => Shortest.display x
  | .bool true => "true"
  | .bool false => "false"
  | .text s => s
  | .package scope => "package\x7b" ++ String.intercalate ", " (names scope) ++ "\x7d"
  | .host object => "<host " ++ object.kind ++ ">"

/-- The written form of a value, texts in quotes so that they can be told apart. -/
def quoted (names : ScopeId → List String) : Value → String
  | .text s => Text.Quoted.encode s
  | value => value.display names

end Value

end StackScript
