/-!
# Primitives

The fixed stack operations of the language.  Their names are reserved: a token that spells one is
always the primitive, whatever has been defined under that name.
-/

set_option autoImplicit false

namespace StackScript

/-- A built-in stack operation.  Addition also joins texts, `spew` writes the top value and leaves it where it
is, and `endPackage` closes the current scope and pushes it. -/
inductive Primitive where
  | dup
  | drop
  | add
  | subtract
  | multiply
  | divide
  | equal
  | greaterThan
  | not
  | spew
  | package
  | endPackage
deriving DecidableEq, Repr

namespace Primitive

def all : List Primitive :=
  [.dup, .drop, .add, .subtract, .multiply, .divide, .equal, .greaterThan, .not, .spew, .package,
    .endPackage]

def name : Primitive → String
  | .dup => "dup"
  | .drop => "drop"
  | .add => "+"
  | .subtract => "-"
  | .multiply => "*"
  | .divide => "/"
  | .equal => "="
  | .greaterThan => ">"
  | .not => "not"
  | .spew => "spew"
  | .package => "package"
  | .endPackage => "endpackage"

/-- The primitive that a name is reserved for. -/
def ofName? (name : String) : Option Primitive := all.find? fun p => p.name == name

theorem mem_all (p : Primitive) : p ∈ all := by cases p <;> decide

theorem name_of_ofName? {name : String} {p : Primitive} (h : ofName? name = some p) :
    p.name = name := by
  simpa using List.find?_some h

@[simp] theorem ofName?_name (p : Primitive) : ofName? p.name = some p := by
  cases p <;> decide

end Primitive

end StackScript
