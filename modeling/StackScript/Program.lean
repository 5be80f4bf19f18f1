import StackScript.Host.Words

/-!
# Programs

A program is code under a name: the path of its file, or a tag.  Running it changes the stack, the
scopes and the output of the machine, but not the program.

* `Program.compile`, `Program.ofFile` — from a source text, and from what reading a file gave.
* `Program.run` — run it on a machine, starting in a given scope.
* `Program.launch` — run it on an empty stack, in a new scope inside that of the host.
-/

set_option autoImplicit false

namespace StackScript

variable {ν : Type}

/-- How many calls may be in progress at a time, unless one says otherwise. -/
def defaultCallLimit : Nat := 1000

/-- Code under the path or tag it was compiled from. -/
structure Program where
  name : String
  code : Code
deriving Repr

namespace Program

/-- Compile a source text.  The path tags the locations in it. -/
def compile (path source : String) : Except Fault Program :=
  match compileSource path source with
  | .error fault => .error fault
  | .ok code => .ok ⟨path, code⟩

/-- Compile what reading a file gave. -/
def ofFile (path : String) (contents : Except ReadProblem String) : Except Fault Program :=
  match contents with
  | .error problem => .error (Fault.ofInputOutput (.unreadable path problem))
  | .ok source => compile path source

def listing (program : Program) : String := Code.listing (fun _ => []) program.code

/-- Run the program in the scope `root`, on the stack as it is.  No calls are in progress at the
start, and no place is known. -/
def run (host : Host ν) (fuel : Nat) (program : Program) (root : ScopeId) (state : State ν) :
    Option (Outcome ν) :=
  runCode host fuel program.code
    { state with scope := root, location := none, calls := CallStack.empty }

/-- Run the program on an empty stack, in a new scope inside `surface`. -/
def launch (host : Host ν) (fuel : Nat) (program : Program) (surface : ScopeId)
    (state : State ν) : Option (Outcome ν) :=
  program.run host fuel state.forest.size
    { state with stack := [], forest := state.forest.newChild surface }

end Program

def Token.scanFile (path : String) (contents : Except ReadProblem String) :
    Except Fault (List Token) :=
  match contents with
  | .error problem => .error (Fault.ofInputOutput (.unreadable path problem))
  | .ok source => Token.scan path source

/-- More steps than any run will ever take. -/
def ampleFuel : Nat := 1000000000000000

end StackScript
