import StackScript.Scope

/-!
# The listing of the visible words

How many words can be seen from a scope, and then one row for each: the name, whether the word is
native, and its description.

The names are set flush left in a column as wide as the longest name is in UTF-8 bytes, while a
name fills as many places of it as it has characters.
-/

set_option autoImplicit false

namespace StackScript

variable {ν : Type}

/-- The text, followed by spaces up to the given number of characters. -/
def padRight (width : Nat) (text : String) : String :=
  text ++ String.ofList (List.replicate (width - text.length) ' ')

/-- What the listing calls the kind of the word. -/
def Word.kindName (word : Word ν) : String := if word.isNative then "native" else "script"

def Word.row (width : Nat) (word : Word ν) : String :=
  padRight width word.name ++ "  " ++ word.kindName ++ "  --  " ++ word.description ++ "\n"

/-- The width of the column of names: the longest of them, in UTF-8 bytes. -/
def nameWidth (words : List (Word ν)) : Nat :=
  words.foldl (fun width word => max width word.name.utf8ByteSize) 0

/-- The listing of the words visible from a scope. -/
def Forest.listing (forest : Forest ν) (scope : ScopeId) : String :=
  let words := forest.merged scope
  toString words.length ++ " words defined.\n\n" ++
    String.join (words.map (Word.row (nameWidth words)))

end StackScript
