/-!
# Places in a source text

Every token, instruction and call of the language remembers where it was written.

* `Location` — a path together with a line and a column, both counted from one.
* `Location.advance` — where the next character stands once one has been read: a line feed opens
  a new line and every other character, however wide, takes one column.
* `Cursor` — the unread rest of a source text and the location of its first character.

Lines and columns count characters, so a carriage return or a combining mark is a column like any
other.
-/

set_option autoImplicit false

namespace StackScript

/-- A place in a source text.  The path names a file or describes the text, as `<eval>` does; lines and
columns count from one. -/
structure Location where
  path : String
  line : Nat
  column : Nat
deriving DecidableEq, Repr

namespace Location

def start (path : String) : Location := ⟨path, 1, 1⟩

/-- The location that stands in wherever one is needed and none is known. -/
def unspecified : Location := start "unspecified"

instance : Inhabited Location := ⟨unspecified⟩

/-- The location of the character after `c`, when `c` stands at `here`. -/
def advance (here : Location) (c : Char) : Location :=
  if c = '\n' then ⟨here.path, here.line + 1, 1⟩
  else ⟨here.path, here.line, here.column + 1⟩

/-- The location of the character after all of `cs`. -/
def advanceBy (here : Location) (cs : List Char) : Location :=
  cs.foldl advance here

/-- The written form: the path and, in brackets, line and column. -/
def display (here : Location) : String :=
  here.path ++ " (" ++ toString here.line ++ ", " ++ toString here.column ++ ")"

/-- Reading order inside one source text: by line, then by column. -/
def Precedes (a b : Location) : Prop :=
  a.line < b.line ∨ (a.line = b.line ∧ a.column < b.column)

instance (a b : Location) : Decidable (Precedes a b) :=
  inferInstanceAs (Decidable (_ ∨ _))

@[simp] theorem advanceBy_nil (here : Location) : here.advanceBy [] = here := rfl

@[simp] theorem advanceBy_cons (here : Location) (c : Char) (cs : List Char) :
    here.advanceBy (c :: cs) = (here.advance c).advanceBy cs := rfl

theorem advanceBy_append (here : Location) (as bs : List Char) :
    here.advanceBy (as ++ bs) = (here.advanceBy as).advanceBy bs :=
  List.foldl_append

theorem precedes_advance (here : Location) (c : Char) : here.Precedes (here.advance c) := by
  unfold Precedes advance
  split
  · exact .inl (Nat.lt_succ_self _)
  · exact .inr ⟨rfl, Nat.lt_succ_self _⟩

end Location

/-- The unread rest of a source text, and where its first character stands. -/
structure Cursor where
  rest : List Char
  location : Location
deriving DecidableEq, Repr

namespace Cursor

def ofSource (path source : String) : Cursor := ⟨source.toList, Location.start path⟩

/-- The next character, left unread. -/
def peek (cursor : Cursor) : Option Char := cursor.rest.head?

/-- The cursor after the next character; at the end of the text it stays where it is. -/
def advance (cursor : Cursor) : Cursor :=
  match cursor.rest with
  | [] => cursor
  | c :: rest => ⟨rest, cursor.location.advance c⟩

end Cursor

end StackScript
