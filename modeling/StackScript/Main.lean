import StackScript.Command
import StackScript.Directory

/-!
# The program

Reads the script file that the arguments name, if they name one, runs the command line and prints
what it gives.
-/

set_option autoImplicit false

namespace StackScript

/-- The problem behind a failure to read a file. -/
def readProblem (error : IO.Error) : ReadProblem :=
  match error with
  | .noFileOrDirectory _ _ _ => .missing
  | .inappropriateType _ 21 _ => .isDirectory
  | .inappropriateType _ _ _ => .notDirectory
  | error => .other (toString error)

def readText (path : String) : IO (Except ReadProblem String) := do
  match ← (IO.FS.readBinFile path).toBaseIO with
  | .ok bytes => return decodeText bytes
  | .error error => return .error (readProblem error)

/-- What reading the script file of the arguments gives. -/
def readScript (arguments : List String) : IO (Except ReadProblem String) :=
  match Invocation.parse arguments with
  | .ok ⟨.file path, _, _⟩ => readText path
  | _ => return .error .missing

end StackScript

open StackScript in
def main (arguments : List String) : IO UInt32 := do
  let contents ← readScript arguments
  match command ampleFuel (fun _ => contents) arguments with
  | none => return 1
  | some transcript =>
    (← IO.getStdout).putStr transcript.stdout
    (← IO.getStderr).putStr transcript.stderr
    return transcript.exitCode.toUInt32
