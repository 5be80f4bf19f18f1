import StackScript.Location
import StackScript.Primitive
import StackScript.Value

/-!
# Instructions and code

A program, or the body of a word, is a flat row of instructions.

* Each instruction remembers the place it was compiled from; one that was made by hand may have
  none.
* Jumps lead forward, by an offset relative to the jump itself.
* `Code.same` — equality of code: places count, and constants are compared as scripts compare
  values, so code that holds a NaN differs from itself.
* `Code.listing` — the numbered listing, the body of each word indented beneath its definition.
-/

set_option autoImplicit false

namespace StackScript

/-- One instruction of the machine.  A definition binds in the scope that is current when it is carried
out.  Jumps lead ahead; one of them pops a value, and jumps if that does not count as true. -/
inductive Instruction where
  | primitive (location : Option Location) (operation : Primitive)
  | push (location : Option Location) (value : Value)
  | define (location : Option Location) (name : String) (body : List Instruction)
  | execute (location : Option Location) (name : String)
  | jumpIfFalse (location : Option Location) (offset : Nat)
  | jump (location : Option Location) (offset : Nat)
deriving Repr

/-- A row of instructions: a program or the body of a word. -/
abbrev Code := List Instruction

instance : Inhabited Instruction := ⟨.jump none 1⟩

namespace Instruction

def location : Instruction → Option Location
  | .primitive location _ => location
  | .push location _ => location
  | .define location _ _ => location
  | .execute location _ => location
  | .jumpIfFalse location _ => location
  | .jump location _ => location

/-- The written form of the instruction.  Of a definition it gives the size only. -/
def display (names : ScopeId → List String) : Instruction → String
  | .primitive _ operation => "Primitive         " ++ operation.name
  | .push _ value => "PushConstantValue " ++ value.quoted names
  | .define _ name body =>
    "DefineWord        " ++ name ++ " (" ++ toString body.length ++ " instructions)"
  | .execute _ name => "Execute           " ++ name
  | .jumpIfFalse _ offset => "JumpIfFalse       +" ++ toString offset
  | .jump _ offset => "Jump              +" ++ toString offset

end Instruction

namespace Code

mutual

def sameInstruction : Instruction → Instruction → Bool
  | .primitive l p, .primitive l' p' => l == l' && p == p'
  | .push l v, .push l' v' => l == l' && v.same v'
  | .define l n b, .define l' n' b' => l == l' && n == n' && same b b'
  | .execute l n, .execute l' n' => l == l' && n == n'
  | .jumpIfFalse l o, .jumpIfFalse l' o' => l == l' && o == o'
  | .jump l o, .jump l' o' => l == l' && o == o'
  | _, _ => false

def same : List Instruction → List Instruction → Bool
  | [], [] => true
  | i :: is, j :: js => sameInstruction i j && same is js
  | _, _ => false

end

/-- A number, set flush right in four columns. -/
def lineNumber (n : Nat) : String :=
  let digits := toString n
  String.ofList (List.replicate (4 - digits.length) ' ') ++ digits

def listingLine (depth index : Nat) (text : String) : String :=
  String.ofList (List.replicate (6 * depth) ' ') ++ lineNumber index ++ ": " ++ text ++ "\n"

mutual

/-- The lines of one instruction: its own, and those of the body it defines. -/
def instructionLines (names : ScopeId → List String) (depth index : Nat) :
    Instruction → List String
  | .define location name body =>
    listingLine depth index ((Instruction.define location name body).display names) ::
      linesFrom names (depth + 1) 0 body
  | .primitive location operation =>
    [listingLine depth index ((Instruction.primitive location operation).display names)]
  | .push location value =>
    [listingLine depth index ((Instruction.push location value).display names)]
  | .execute location name =>
    [listingLine depth index ((Instruction.execute location name).display names)]
  | .jumpIfFalse location offset =>
    [listingLine depth index ((Instruction.jumpIfFalse location offset).display names)]
  | .jump location offset =>
    [listingLine depth index ((Instruction.jump location offset).display names)]

/-- The lines of the instructions from number `index` on. -/
def linesFrom (names : ScopeId → List String) (depth index : Nat) :
    List Instruction → List String
  | [] => []
  | i :: is => instructionLines names depth index i ++ linesFrom names depth (index + 1) is

end

/-- The numbered listing of a program. -/
def listing (names : ScopeId → List String) (code : Code) : String :=
  String.join (linesFrom names 0 0 code)

end Code

end StackScript
