import StackScript.Program

/-!
# Sessions

One machine, one host and one stack for several programs, each of which runs in the current root
scope.  A fault ends a program but not the session.
-/

set_option autoImplicit false

namespace StackScript

/-- A machine between two programs: the scope of the host, which every other one is inside of, and the scope
that the next program starts in. -/
structure Session where
  state : State HostWord
  surface : ScopeId
  root : ScopeId
deriving Repr

/-- A machine that has not run anything: one scope, which binds the given words of the host. -/
def State.initial (words : List HostWord) (sink : Sink) (callLimit : Nat) : State HostWord where
  stack := []
  forest := (Forest.newHost Forest.empty).install 0 words
  objects := 0
  sink := sink
  callLimit := callLimit
  scope := 0
  location := none
  calls := CallStack.empty

namespace Session

/-- Make a new scope inside another the root. -/
def rootInside (parent : ScopeId) (session : Session) : Session :=
  { session with
    state := { session.state with forest := session.state.forest.newChild parent }
    root := session.state.forest.size }

/-- A session whose root is a new scope inside that of the host. -/
def start (words : List HostWord) (sink : Sink) (callLimit : Nat) : Session :=
  rootInside 0 ⟨State.initial words sink callLimit, 0, 0⟩

/-- Make a new scope inside that of the host the root. -/
def newRoot (session : Session) : Session := session.rootInside session.surface

/-- Make a new scope inside the root the root. -/
def childRoot (session : Session) : Session := session.rootInside session.root

def hostRoot (session : Session) : Session := { session with root := session.surface }

/-- Make the package on top of the stack the root, if there is one. -/
def enterTop (session : Session) : Option Session :=
  match session.state.stack with
  | .package scope :: _ => some { session with root := scope }
  | _ => none

def push (value : Value) (session : Session) : Session :=
  { session with state := session.state.push value }

def clear (session : Session) : Session :=
  { session with state := { session.state with stack := [] } }

/-- Run a program in the root: the session after it, and the fault if it failed. -/
def run (fuel : Nat) (program : Program) (session : Session) : Option (Session × Option Fault) :=
  (program.run hostRoutine fuel session.root session.state).map fun outcome =>
    ({ session with state := outcome.state }, outcome.fault?)

/-- Hand over what has been written so far, and collect from here on. -/
def takeOutput (session : Session) : String × Session :=
  (session.state.sink.written,
    { session with
      state := { session.state with sink := { session.state.sink with written := "" } } })

end Session

end StackScript
