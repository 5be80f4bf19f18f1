import StackScript.Fault
import StackScript.Scope

/-!
# The state of the machine

* `Sink` — where output goes.  A sink is handed one text after the other and may refuse any of them, also
  after taking a part.
* `State` — everything a run can touch: the stack, the scopes, the output, the current scope, the
  place of the instruction being carried out and the calls in progress.
* `Outcome` — how a computation ends.  A failed one keeps the state it failed in, because whoever
  started the run goes on with it.
-/

set_option autoImplicit false

namespace StackScript

variable {ν : Type}

/-- What a sink does with a text: it takes all of it, or it fails after so many characters, for a reason
of its own. -/
inductive Reply where
  | taken
  | refused (count : Nat) (reason : String)
deriving DecidableEq, Repr

/-- Where output goes: what has been taken so far, and the reply to a text after the texts `since`, the
earliest one first.  So a sink may fill up, fail now and then, or fail for good. -/
@[ext] structure Sink where
  written : String
  reply : (since : List String) → (text : String) → Reply

instance : Repr Sink := ⟨fun sink _ => repr sink.written⟩

namespace Sink

/-- A sink that takes everything. -/
def collecting (written : String) : Sink := ⟨written, fun _ _ => .taken⟩

/-- A sink that takes nothing. -/
def closed : Sink := ⟨"", fun _ _ => .refused 0 "sink closed"⟩

/-- The part of a text that the sink takes. -/
def part (sink : Sink) (text : String) : String :=
  match sink.reply [] text with
  | .taken => text
  | .refused count _ => String.ofList (text.toList.take count)

/-- The sink after it was handed a text. -/
def after (sink : Sink) (text : String) : Sink :=
  ⟨sink.written ++ sink.part text, fun since => sink.reply (text :: since)⟩

/-- A text that is taken is written as a whole. -/
theorem written_after {sink : Sink} {text : String} (h : sink.reply [] text = .taken) :
    (sink.after text).written = sink.written ++ text := by
  simp only [after, part, h]

end Sink

/-- Everything a run can touch.  The top of the stack comes first.  The host objects handed out are counted,
and the count is the identity of the next one.  Definitions go to the current scope and lookups start there.
The location is that of the last instruction carried out that had one. -/
structure State (ν : Type) where
  stack : List Value
  forest : Forest ν
  objects : Nat
  sink : Sink
  callLimit : Nat
  scope : ScopeId
  location : Option Location
  calls : CallStack
deriving Repr

/-- How a computation ends: at its end, or at a fault. -/
inductive Outcome (ν : Type) where
  | done (state : State ν)
  | failed (fault : Fault) (state : State ν)
deriving Repr

namespace Outcome

def state : Outcome ν → State ν
  | .done state => state
  | .failed _ state => state

def fault? : Outcome ν → Option Fault
  | .done _ => none
  | .failed fault _ => some fault

/-- What a routine is told about a request that succeeded or failed. -/
def answer : Outcome ν → Except Fault Unit
  | .done _ => .ok ()
  | .failed fault _ => .error fault

def mapState (f : State ν → State ν) : Outcome ν → Outcome ν
  | .done state => .done (f state)
  | .failed fault state => .failed fault (f state)

end Outcome

namespace State

/-- A fault at the current place, with the calls in progress. -/
def fault (state : State ν) (cause : Fault.Cause) : Fault :=
  ⟨cause, state.location, some state.calls⟩

def fail (state : State ν) (cause : Fault.Cause) : Outcome ν :=
  .failed (state.fault cause) state

/-- The names bound in a scope, for writing packages. -/
def names (state : State ν) : ScopeId → List String := state.forest.localNames

/-- The written form of a value. -/
def display (state : State ν) (value : Value) : String := value.display state.names

/-- The written form of a value, texts in quotes. -/
def quoted (state : State ν) (value : Value) : String := value.quoted state.names

def push (value : Value) (state : State ν) : State ν :=
  { state with stack := value :: state.stack }

/-- Note the place of the instruction to be carried out; one without a place changes nothing. -/
def moveTo (location : Option Location) (state : State ν) : State ν :=
  match location with
  | some place => { state with location := some place }
  | none => state

/-- The place that calls and definitions are noted under. -/
def place (state : State ν) : Location := state.location.getD Location.unspecified

/-- The state after its sink was handed a text. -/
def handed (text : String) (state : State ν) : State ν :=
  { state with sink := state.sink.after text }

/-- Hand a text to the sink, which may refuse it. -/
def write (text : String) (state : State ν) : Outcome ν :=
  match state.sink.reply [] text with
  | .taken => .done (state.handed text)
  | .refused _ reason => .failed (Fault.ofInputOutput (.sinkFailed reason)) (state.handed text)

def define (scope : ScopeId) (word : Word ν) (state : State ν) : State ν :=
  { state with forest := state.forest.define scope word }

/-- Find a word and open its call.  A name that is bound nowhere is reported even when no further
call is allowed. -/
def beginCall (location : Location) (name : String) (state : State ν) :
    Except Fault (Word ν × State ν) :=
  match state.forest.lookup state.scope name with
  | none => .error (state.fault (.undefinedWord name))
  | some word =>
    if state.callLimit ≤ state.calls.depth then
      .error (state.fault (.callDepth name state.callLimit))
    else .ok (word, { state with calls := state.calls.push ⟨name, location⟩ })

def endCall (state : State ν) : State ν := { state with calls := state.calls.pop }

/-- Close the innermost call and put back the scope of the caller. -/
def returnTo (scope : ScopeId) (state : State ν) : State ν :=
  { state with scope := scope, calls := state.calls.pop }

end State

end StackScript
