import StackScript.Machine.Effect
import StackScript.Machine.Routine

/-!
# Running code

The machine carries out one instruction at a time.  A call of a scripted word suspends its caller
and goes on in the body of the word; at the end of a body the innermost suspended caller resumes,
in the scope it was suspended in.  So calls nest in the list of suspended callers and not in the
machine itself.

* `Config` — the code being carried out, the position in it, the suspended callers and the state.
* `step` — one instruction, or the return at the end of a body.
* `exec` — steps until the end.
* `runCode` — a whole piece of code; a fault closes the calls that it leaves open and puts back the
  scope of the outermost suspended caller.
* `callWord` — one word, called by name from outside any code.
* `becomeNative` — a native word that another one goes on as.

Native words may enter the machine again, so the four are defined together.  All of them take fuel
and have no answer when it runs out; more fuel never changes an answer.
-/

set_option autoImplicit false

namespace StackScript

variable {ν : Type}

/-- A caller, suspended while the word it called runs, and where it goes on. -/
structure Frame where
  code : Array Instruction
  resume : Nat
  scope : ScopeId
deriving Repr

/-- The machine between two steps: the code being carried out, the position of the next instruction in it,
and the suspended callers, innermost first. -/
structure Config (ν : Type) where
  code : Array Instruction
  position : Nat
  callers : List Frame
  state : State ν
deriving Repr

/-- How the machine comes to a stop: with its code carried out, or at an instruction that fails. -/
inductive Halt (ν : Type) where
  | finished (state : State ν)
  | failed (fault : Fault) (config : Config ν)
deriving Repr

/-- What one step leads to.  A native word that has been called is carried out outside the step. -/
inductive Step (ν : Type) where
  | next (config : Config ν)
  | native (word : ν) (config : Config ν)
  | halt (halt : Halt ν)
deriving Repr

namespace Config

def start (code : Code) (state : State ν) : Config ν := ⟨code.toArray, 0, [], state⟩

def goTo (config : Config ν) (position : Nat) (state : State ν) : Config ν :=
  { config with position := position, state := state }

def advance (config : Config ν) (state : State ν) : Config ν :=
  config.goTo (config.position + 1) state

/-- Suspend the code and go on in the body of a word. -/
def enter (config : Config ν) (body : Code) (state : State ν) : Config ν :=
  { code := body.toArray
    position := 0
    callers := ⟨config.code, config.position + 1, state.scope⟩ :: config.callers
    state := state }

/-- The outcome of an instruction decides whether the machine goes on. -/
def after (config : Config ν) : Outcome ν → Step ν
  | .done state => .next (config.advance state)
  | .failed fault state => .halt (.failed fault { config with state := state })

/-- At the end of a body: resume the innermost caller, or stop if there is none. -/
def leave (config : Config ν) : Step ν :=
  match config.callers with
  | [] => .halt (.finished config.state)
  | frame :: callers =>
    .next
      { code := frame.code
        position := frame.resume
        callers := callers
        state := config.state.returnTo frame.scope }

/-- Carry out an instruction whose place has been noted in `state`. -/
def carryOut (config : Config ν) (state : State ν) : Instruction → Step ν
  | .primitive _ operation => config.after (operation.effect state)
  | .push _ value => .next (config.advance (state.push value))
  | .define _ name body =>
    .next (config.advance (state.define state.scope ⟨state.place, name, "", .scripted body⟩))
  | .execute _ name =>
    match state.beginCall state.place name with
    | .error fault => config.after (.failed fault state)
    | .ok (word, state) =>
      match word.body with
      | .native native => .native native { config with state := state }
      | .scripted body => .next (config.enter body state)
  | .jumpIfFalse _ offset =>
    match state.stack with
    | [] => config.after (state.fail .stackUnderflow)
    | value :: rest =>
      let state := { state with stack := rest }
      if value.isTruthy then .next (config.advance state)
      else .next (config.goTo (config.position + offset) state)
  | .jump _ offset => .next (config.goTo (config.position + offset) state)

def step (config : Config ν) : Step ν :=
  match config.code[config.position]? with
  | none => config.leave
  | some instruction =>
    config.carryOut (config.state.moveTo instruction.location) instruction

end Config

/-- What a stop means for whoever started the code with `depth` calls in progress. -/
def Halt.unwind (depth : Nat) : Halt ν → Outcome ν
  | .finished state => .done state
  | .failed fault config =>
    let scope :=
      match config.callers.getLast? with
      | some outermost => outermost.scope
      | none => config.state.scope
    .failed fault { config.state with scope := scope, calls := config.state.calls.truncate depth }

mutual

/-- Step until the machine stops. -/
def exec (host : Host ν) : Nat → Config ν → Option (Halt ν)
  | 0, _ => none
  | fuel + 1, config =>
    match config.step with
    | .next config => exec host fuel config
    | .halt halt => some halt
    | .native word config =>
      match (host word).perform ⟨runCode host fuel, callWord host fuel, becomeNative host fuel⟩
          config.state with
      | none => none
      | some (.done state) => exec host fuel (config.advance state.endCall)
      | some (.failed fault state) => some (.failed fault { config with state := state })

/-- Run a piece of code in the current scope. -/
def runCode (host : Host ν) : Nat → Code → State ν → Option (Outcome ν)
  | 0, _, _ => none
  | fuel + 1, code, state =>
    (exec host fuel (Config.start code state)).map (Halt.unwind state.calls.depth)

/-- Call a word by name.  The call is noted under the given place and is closed again however it
ends; a scripted word leaves the current scope as it was. -/
def callWord (host : Host ν) : Nat → Location → String → State ν → Option (Outcome ν)
  | 0, _, _, _ => none
  | fuel + 1, location, name, state =>
    match state.beginCall location name with
    | .error fault => some (.failed fault state)
    | .ok (word, inner) =>
      match word.body with
      | .native native =>
        ((host native).perform ⟨runCode host fuel, callWord host fuel, becomeNative host fuel⟩
          inner).map (Outcome.mapState State.endCall)
      | .scripted body =>
        (runCode host fuel body inner).map (Outcome.mapState (State.returnTo state.scope))

/-- Carry out the routine of a native word that another one goes on as. -/
def becomeNative (host : Host ν) : Nat → ν → State ν → Option (Outcome ν)
  | 0, _, _ => none
  | fuel + 1, native, state =>
    (host native).perform ⟨runCode host fuel, callWord host fuel, becomeNative host fuel⟩ state

end

/-- The machine as a native word enters it again, with so much fuel. -/
abbrev Host.reentry (host : Host ν) (fuel : Nat) : Reentry ν :=
  ⟨runCode host fuel, callWord host fuel, becomeNative host fuel⟩

end StackScript
