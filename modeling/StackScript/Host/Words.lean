import StackScript.Compile
import StackScript.Machine.Run
import StackScript.Scope.Listing

/-!
# The words of the host

The native words that come with the language, and their routines.

* `HostWord.demonstration` — printing values, the stack and the visible words, and creating host
  objects.
* `HostWord.extended` — those, and words that look at the machine or enter it again: calling a word
  by name, catching its faults, running a text, moving between scopes.

`hostRoutine` gives the routine of each word, and `Forest.install` binds words in a scope.
-/

set_option autoImplicit false

namespace StackScript

/-- The native words.  Of those that call, `call` takes a word by name, `attempt` catches its fault, and
`evaluate` compiles a text and runs it; `raise` fails with the top value as message. -/
inductive HostWord where
  | print
  | printStack
  | printWords
  | createObject
  | square
  | call
  | attempt
  | evaluate
  | currentPlace
  | currentCalls
  | scopeDepth
  | enterPackage
  | raise
deriving DecidableEq, Repr

namespace HostWord

def name : HostWord → String
  | .print => "print"
  | .printStack => ".s"
  | .printWords => ".w"
  | .createObject => "host.object"
  | .square => "square"
  | .call => "call"
  | .attempt => "try"
  | .evaluate => "eval"
  | .currentPlace => "where"
  | .currentCalls => "calls"
  | .scopeDepth => "scope.depth"
  | .enterPackage => "enter"
  | .raise => "fail"

def description : HostWord → String
  | .print => "Pop a value and print it."
  | .printStack => "Print the stack without changing it."
  | .printWords => "List the words visible from the current scope."
  | .createObject =>
    "Create an opaque host object of the kind named by the string on the stack."
  | .square => "Square a number."
  | .call => "Call the word named by a string."
  | .attempt => "Call a word and catch its error."
  | .evaluate => "Compile and run a string."
  | .currentPlace => "Push the current location."
  | .currentCalls => "Push the call stack."
  | .scopeDepth => "Push the scope depth."
  | .enterPackage => "Make a package the current scope."
  | .raise => "Fail with the top value as message."

/-- The words for scripts that compute and print. -/
def demonstration : List HostWord := [.print, .printStack, .printWords, .createObject]

/-- The words for scripts that work on the machine itself, too. -/
def extended : List HostWord :=
  demonstration ++
    [.square, .call, .attempt, .evaluate, .currentPlace, .currentCalls, .scopeDepth,
      .enterPackage, .raise]

/-- The place that native words are defined at. -/
def home : Location := Location.start "<native>"

/-- The place that calls made by native words are noted under. -/
def callSite : Location := ⟨"<native>", 7, 3⟩

def word (w : HostWord) : Word HostWord := ⟨home, w.name, w.description, .native w⟩

end HostWord

/-- Bind native words in a scope. -/
def Forest.install (forest : Forest HostWord) (scope : ScopeId) (words : List HostWord) :
    Forest HostWord :=
  words.foldl (fun forest w => forest.define scope w.word) forest

namespace Routine

variable {ν : Type}

/-- Fail at the current place with the calls in progress. -/
def failWith (cause : Fault.Cause) : Routine ν := .inspect fun state => .fail (state.fault cause)

def conclude : Except Fault Unit → Routine ν
  | .ok _ => .finish
  | .error fault => .fail fault

/-- Pop a value, or fail if there is none. -/
def popValue (next : Value → Routine ν) : Routine ν :=
  .pop fun
    | .ok value => next value
    | .error fault => .fail fault

/-- Pop a number, or fail if the top value is something else. -/
def popNumber (next : Float → Routine ν) : Routine ν :=
  popValue fun
    | .number x => next x
    | value => failWith (.wrongKind .number value.kind)

/-- Pop a text, or fail if the top value is something else. -/
def popText (next : String → Routine ν) : Routine ν :=
  popValue fun
    | .text s => next s
    | value => failWith (.wrongKind .string value.kind)

/-- Write a text and end. -/
def writeLast (text : String) : Routine ν := .write text conclude

theorem perform_writeLast (machine : Reentry ν) (state : State ν) (text : String) :
    (writeLast text).perform machine state = some (state.write text) := by
  simp only [writeLast, perform]
  cases state.write text <;> rfl

/-- Push a value and end. -/
def pushLast (value : Value) : Routine ν := .push value .finish

end Routine

open Routine in
/-- The routine of each native word. -/
def hostRoutine : Host HostWord
  | .print => popValue fun value => .inspect fun state => writeLast (state.display value ++ "\n")
  | .printStack =>
    .inspect fun state =>
      writeLast
        ("<" ++ toString state.stack.length ++ "> " ++
          String.intercalate " " (state.stack.reverse.map state.quoted) ++ "\n")
  | .printWords => .inspect fun state => writeLast (state.forest.listing state.scope)
  | .createObject => popText fun kind => .newObject kind fun object => pushLast (.host object)
  | .square => popNumber fun x => pushLast (.number (x * x))
  | .call => popText fun name => .call HostWord.callSite name conclude
  | .attempt =>
    popText fun name =>
      .call HostWord.callSite name fun
        | .ok _ => pushLast (.bool true)
        | .error fault => .push (.text fault.report) (pushLast (.bool false))
  | .evaluate =>
    popText fun source =>
      match compileSource "<eval-word>" source with
      | .error fault => .fail fault
      | .ok code => .run code conclude
  | .currentPlace =>
    .inspect fun state =>
      match state.location with
      | some location => pushLast (.text location.display)
      | none => pushLast (.text "none")
  | .currentCalls =>
    .inspect fun state =>
      pushLast
        (.text (String.intercalate " | " (state.calls.outermostFirst.map CallItem.display)))
  | .scopeDepth =>
    .inspect fun state => pushLast (.number (Float.ofNat (state.forest.depth state.scope)))
  | .enterPackage =>
    popValue fun
      | .package scope => .enterScope scope .finish
      | value => failWith (.wrongKind .package value.kind)
  | .raise =>
    .inspect fun state =>
      match state.stack with
      | [] => failWith .stackUnderflow
      | value :: _ => failWith (.custom .io (state.display value))

end StackScript
