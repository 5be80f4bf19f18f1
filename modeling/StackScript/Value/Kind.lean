/-!
# Kinds of values

The five kinds of value that the language knows, and their names in error messages.
-/

set_option autoImplicit false

namespace StackScript

/-- The kind of a value. -/
inductive ValueKind where
  | number
  | boolean
  | string
  | package
  | hostObject
deriving DecidableEq, Repr

def ValueKind.name : ValueKind → String
  | .number => "number"
  | .boolean => "boolean"
  | .string => "string"
  | .package => "package"
  | .hostObject => "host object"

end StackScript
