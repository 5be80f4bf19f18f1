import StackScript.CallStack
import StackScript.Primitive
import StackScript.Value.Kind

/-!
# Faults

What goes wrong while a script is read, compiled or run.

* `Fault.Kind` — the broad category, for programs that react to a fault.
* `Fault.Cause` — what exactly happened; its wording is `Cause.message`.
* `Fault` — a cause with the place it arose and the calls that led there, as far as they are known.
* `Fault.report` — the full written form, which lists at most `Fault.listedCalls` calls.
-/

set_option autoImplicit false

namespace StackScript

/-- Why a file could not be read.  What has no name here comes in the words of the operating system. -/
inductive ReadProblem where
  | missing
  | isDirectory
  | notDirectory
  | nameTooLong
  | nulInPath
  | notText
  | other (reason : String)
deriving DecidableEq, Repr

def ReadProblem.reason : ReadProblem → String
  | .missing => "No such file or directory (os error 2)"
  | .isDirectory => "Is a directory (os error 21)"
  | .notDirectory => "Not a directory (os error 20)"
  | .nameTooLong => "File name too long (os error 36)"
  | .nulInPath => "file name contained an unexpected NUL byte"
  | .notText => "stream did not contain valid UTF-8"
  | .other reason => reason

namespace Fault

/-- The broad category of a fault. -/
inductive Kind where
  | parse
  | compile
  | undefinedWord
  | stackUnderflow
  | type
  | scope
  | callDepth
  | io
deriving DecidableEq, Repr

def Kind.text : Kind → String
  | .parse => "parse error"
  | .compile => "compile error"
  | .undefinedWord => "undefined word"
  | .stackUnderflow => "stack underflow"
  | .type => "type error"
  | .scope => "scope error"
  | .callDepth => "call depth exceeded"
  | .io => "i/o error"

/-- What happened: to the scan of a source, to its compilation, to a run, or to a file or the sink.  A
`custom` fault has a wording of its own. -/
inductive Cause where
  | newLineInString
  | endInString
  | missingName
  | forbiddenName (name : String)
  | missingSemicolon (name : String)
  | missingThen
  | missingElse
  | undefinedWord (name : String)
  | stackUnderflow
  | cannotAdd (left right : ValueKind)
  | notNumbers (operation : Primitive) (left right : ValueKind)
  | cannotCompare (left right : ValueKind)
  | wrongKind (expected found : ValueKind)
  | noEnclosingScope
  | callDepth (name : String) (limit : Nat)
  | unreadable (path : String) (problem : ReadProblem)
  | sinkFailed (reason : String)
  | custom (kind : Kind) (message : String)
deriving DecidableEq, Repr

namespace Cause

def kind : Cause → Kind
  | .newLineInString => .parse
  | .endInString => .parse
  | .missingName => .compile
  | .forbiddenName _ => .compile
  | .missingSemicolon _ => .compile
  | .missingThen => .compile
  | .missingElse => .compile
  | .undefinedWord _ => .undefinedWord
  | .stackUnderflow => .stackUnderflow
  | .cannotAdd _ _ => .type
  | .notNumbers _ _ _ => .type
  | .cannotCompare _ _ => .type
  | .wrongKind _ _ => .type
  | .noEnclosingScope => .scope
  | .callDepth _ _ => .callDepth
  | .unreadable _ _ => .io
  | .sinkFailed _ => .io
  | .custom kind _ => kind

def message : Cause → String
  | .newLineInString => "Unexpected new line in string literal."
  | .endInString => "Unexpected end of file in string literal."
  | .missingName => "Expected name after ':' word."
  | .forbiddenName name => "A word can not be named '" ++ name ++ "'."
  | .missingSemicolon name => "Expected ';' to end definition of '" ++ name ++ "'."
  | .missingThen => "Expected 'then' to end 'if'."
  | .missingElse => "Expected 'else' to end 'then'."
  | .undefinedWord name => "Word '" ++ name ++ "' is not defined."
  | .stackUnderflow => "Stack underflow."
  | .cannotAdd left right => "Can not add " ++ left.name ++ " and " ++ right.name ++ "."
  | .notNumbers operation left right =>
    "Operator " ++ operation.name ++ " expects two numbers, found " ++ left.name ++ " and " ++
      right.name ++ "."
  | .cannotCompare left right => "Can not compare " ++ left.name ++ " with " ++ right.name ++ "."
  | .wrongKind expected found =>
    "Expected a " ++ expected.name ++ ", found a " ++ found.name ++ "."
  | .noEnclosingScope => "No enclosing scope for 'endpackage' to return to."
  | .callDepth name limit =>
    "Calling '" ++ name ++ "' exceeds the maximum call depth of " ++ toString limit ++ "."
  | .unreadable path problem => "Could not read file " ++ path ++ ": " ++ problem.reason
  | .sinkFailed reason => "I/O error: " ++ reason
  | .custom _ message => message

end Cause

end Fault

/-- A cause, the place it arose at and the calls in progress there.  Faults from before a run, and
faults of reading and writing, know no calls. -/
structure Fault where
  cause : Fault.Cause
  location : Option Location
  calls : Option CallStack
deriving DecidableEq, Repr

namespace Fault

/-- How many of the innermost calls a report lists before it counts the rest. -/
def listedCalls : Nat := 16

/-- A fault found in the source, before anything runs. -/
def inSource (cause : Cause) (location : Location) : Fault := ⟨cause, some location, none⟩

/-- A fault of reading or writing. -/
def ofInputOutput (cause : Cause) : Fault := ⟨cause, none, none⟩

def kind (fault : Fault) : Kind := fault.cause.kind

def message (fault : Fault) : String := fault.cause.message

/-- The calls of a report, innermost first, each on a line of its own. -/
def callLines (calls : CallStack) : String :=
  let listed := calls.items.take listedCalls
  let lines := String.join (listed.map fun item => "  " ++ item.display ++ "\n")
  if listedCalls < calls.depth then
    lines ++ "  ... " ++ toString (calls.depth - listedCalls) ++ " more\n"
  else lines

/-- The first line of a report: the place, the category and the wording. -/
def headline (fault : Fault) : String :=
  let text := fault.kind.text ++ ": " ++ fault.message
  match fault.location with
  | some location => location.display ++ ": " ++ text
  | none => text

/-- The full written form. -/
def report (fault : Fault) : String :=
  match fault.calls with
  | none => fault.headline
  | some calls =>
    if calls.items.isEmpty then fault.headline
    else fault.headline ++ "\n\nCall stack\n" ++ callLines calls

end Fault

end StackScript
