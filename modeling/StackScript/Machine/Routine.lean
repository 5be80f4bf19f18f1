import StackScript.Machine.State

/-!
# Native routines

A word of the host is a routine: a tree of requests to the machine, each followed by what to do with
the answer.  A routine can look at the whole state, but can change it by its requests only, and a
request that fails hands the fault to the routine, which may report it or swallow it.  A routine that
goes on as another word, or as itself, is a loop; what it remembers from one round to the next is part of
the word.

* `Routine` — the requests.
* `Reentry` — how the machine runs code and calls words on behalf of a routine.
* `Routine.perform` — carrying the requests out; `Routine.perform_write`, `Routine.perform_call` and
  `Routine.perform_run` — those that may fail.
* `Host` — the routine of each native word.
-/

set_option autoImplicit false

namespace StackScript

/-- What a native word asks of the machine.  `pop` takes the top value off the stack, `newHost` creates a
scope with nothing around it and `newScope` one inside another.  `call` calls a word by name and notes the
call under the given place; `run` runs code in the current scope.  `become` goes on with the routine of
another native word in place of this one, without a call. -/
inductive Routine (ν : Type) where
  | finish
  | fail (fault : Fault)
  | inspect (next : State ν → Routine ν)
  | push (value : Value) (next : Routine ν)
  | pop (next : Except Fault Value → Routine ν)
  | write (text : String) (next : Except Fault Unit → Routine ν)
  | enterScope (scope : ScopeId) (next : Routine ν)
  | newHost (next : ScopeId → Routine ν)
  | newScope (parent : ScopeId) (next : ScopeId → Routine ν)
  | define (scope : ScopeId) (word : Word ν) (next : Routine ν)
  | newObject (kind : String) (next : HostObject → Routine ν)
  | call (location : Location) (name : String) (next : Except Fault Unit → Routine ν)
  | run (code : Code) (next : Except Fault Unit → Routine ν)
  | become (native : ν)

/-- How the machine is entered again from inside a native word: to run code, to call a word by name, and
to go on as another native word.  There is no answer when the fuel does not suffice. -/
structure Reentry (ν : Type) where
  run : Code → State ν → Option (Outcome ν)
  call : Location → String → State ν → Option (Outcome ν)
  become : ν → State ν → Option (Outcome ν)

/-- The routine of each native word. -/
abbrev Host (ν : Type) := ν → Routine ν

variable {ν : Type}

/-- Carry out the requests of a routine. -/
def Routine.perform (machine : Reentry ν) : Routine ν → State ν → Option (Outcome ν)
  | .finish, state => some (.done state)
  | .fail fault, state => some (.failed fault state)
  | .inspect next, state => (next state).perform machine state
  | .push value next, state => next.perform machine (state.push value)
  | .pop next, state =>
    match state.stack with
    | [] => (next (.error (state.fault .stackUnderflow))).perform machine state
    | value :: rest => (next (.ok value)).perform machine { state with stack := rest }
  | .write text next, state =>
    match state.write text with
    | .done state => (next (.ok ())).perform machine state
    | .failed fault state => (next (.error fault)).perform machine state
  | .enterScope scope next, state => next.perform machine { state with scope := scope }
  | .newHost next, state =>
    (next state.forest.size).perform machine { state with forest := state.forest.newHost }
  | .newScope parent next, state =>
    (next state.forest.size).perform machine
      { state with forest := state.forest.newChild parent }
  | .define scope word next, state => next.perform machine (state.define scope word)
  | .newObject kind next, state =>
    (next ⟨state.objects, kind⟩).perform machine { state with objects := state.objects + 1 }
  | .call location name next, state =>
    match machine.call location name state with
    | none => none
    | some (.done state) => (next (.ok ())).perform machine state
    | some (.failed fault state) => (next (.error fault)).perform machine state
  | .run code next, state =>
    match machine.run code state with
    | none => none
    | some (.done state) => (next (.ok ())).perform machine state
    | some (.failed fault state) => (next (.error fault)).perform machine state
  | .become native, state => machine.become native state

/-! ## Requests that may fail

Whether a request succeeds or fails, the routine goes on with the answer, in the state that is left. -/

namespace Routine

variable {machine : Reentry ν} {state : State ν} {next : Except Fault Unit → Routine ν}

theorem perform_write (text : String) :
    (write text next).perform machine state =
      (next (state.write text).answer).perform machine (state.write text).state := by
  rw [perform]
  cases state.write text <;> rfl

theorem perform_call (location : Location) (name : String) :
    (call location name next).perform machine state =
      (machine.call location name state).bind fun outcome =>
        (next outcome.answer).perform machine outcome.state := by
  rw [perform]
  rcases machine.call location name state with _ | ⟨_⟩ | ⟨_, _⟩ <;> rfl

theorem perform_run (code : Code) :
    (run code next).perform machine state =
      (machine.run code state).bind fun outcome =>
        (next outcome.answer).perform machine outcome.state := by
  rw [perform]
  rcases machine.run code state with _ | ⟨_⟩ | ⟨_, _⟩ <;> rfl

end Routine

end StackScript
