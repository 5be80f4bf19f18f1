import StackScript.Machine.Run

/-!
# What one step does

Proofs about whole runs never open an instruction.  They go through what is said here once:

* `Primitive.effect_cases` — what a primitive can change.
* `Instruction.move?` — what an instruction other than a call does, without the code around it: it
  moves on by some offset in a new state, or it fails.
* `Config.step_of_end`, `Config.step_of_move` and `Config.step_of_execute` — the three kinds of step.
* `State.beginCall_of_none`, `State.beginCall_of_le` and `State.beginCall_of_lt` — when a call can be
  opened, and why not; `State.beginCall_ok` — what is known when it was.
-/

set_option autoImplicit false

namespace StackScript

variable {ν : Type}

/-! ## Primitives -/

namespace State

/-- The state with another stack and another sink: all that most operations change. -/
def withData (state : State ν) (stack : List Value) (sink : Sink) : State ν :=
  { state with stack := stack, sink := sink }

def withStack (state : State ν) (stack : List Value) : State ν := { state with stack := stack }

/-- **A text is taken or refused**, and either way handed to the sink. -/
theorem write_cases (text : String) (state : State ν) :
    (state.sink.reply [] text = .taken ∧ state.write text = .done (state.handed text)) ∨
      ∃ count reason, state.sink.reply [] text = .refused count reason ∧
        state.write text =
          .failed (Fault.ofInputOutput (.sinkFailed reason)) (state.handed text) := by
  unfold write
  cases h : state.sink.reply [] text with
  | taken => exact Or.inl ⟨rfl, rfl⟩
  | refused count reason => exact Or.inr ⟨count, reason, rfl, rfl⟩

theorem write_state (text : String) (state : State ν) :
    (state.write text).state = state.handed text := by
  rcases state.write_cases text with ⟨-, h⟩ | ⟨count, reason, -, h⟩ <;> rw [h] <;> rfl

theorem write_done {state after : State ν} {text : String} (h : state.write text = .done after) :
    state.sink.reply [] text = .taken ∧ after = state.handed text := by
  rcases state.write_cases text with ⟨htaken, hw⟩ | ⟨count, reason, -, hw⟩
  · rw [hw] at h
    cases h
    exact ⟨htaken, rfl⟩
  · rw [hw] at h
    cases h

theorem withOperands_data (state : State ν) {next : Value → Value → State ν → Outcome ν}
    (h : ∀ b a (s : State ν), ∃ stack sink, (next b a s).state = s.withData stack sink) :
    ∃ stack sink, (state.withOperands next).state = state.withData stack sink := by
  unfold withOperands
  split
  · rename_i a b rest hs
    obtain ⟨stack, sink, he⟩ := h b a { state with stack := rest }
    exact ⟨stack, sink, he⟩
  · exact ⟨[], state.sink, rfl⟩
  · exact ⟨state.stack, state.sink, rfl⟩

theorem arithmetic_data (state : State ν) (operation : Primitive)
    (compute : Float → Float → Float) :
    ∃ stack sink, (state.arithmetic operation compute).state = state.withData stack sink := by
  refine withOperands_data state fun b a s => ?_
  split <;> exact ⟨_, _, rfl⟩

end State

/-- **What a primitive can change**: the stack and the sink, and the scope and the scopes only if it
opens or closes a package. -/
theorem Primitive.effect_cases (operation : Primitive) (state : State ν) :
    (∃ stack sink, (operation.effect state).state = state.withData stack sink) ∨
      (operation = .package ∧ operation.effect state =
        .done { state with
          forest := state.forest.newChild state.scope
          scope := state.forest.size }) ∨
      ∃ parent, operation = .endPackage ∧ state.forest.parent? state.scope = some parent ∧
        operation.effect state =
          .done { state with stack := .package state.scope :: state.stack, scope := parent } := by
  cases operation with
  | dup => left; simp only [effect]; split <;> exact ⟨_, _, rfl⟩
  | drop => left; simp only [effect]; split <;> exact ⟨_, _, rfl⟩
  | add =>
    left
    simp only [effect]
    refine State.withOperands_data state fun b a s => ?_
    split <;> exact ⟨_, _, rfl⟩
  | subtract => exact Or.inl (State.arithmetic_data state _ _)
  | multiply => exact Or.inl (State.arithmetic_data state _ _)
  | divide => exact Or.inl (State.arithmetic_data state _ _)
  | equal =>
    left
    simp only [effect]
    exact State.withOperands_data state fun b a s => ⟨_, _, rfl⟩
  | greaterThan =>
    left
    simp only [effect]
    refine State.withOperands_data state fun b a s => ?_
    split <;> exact ⟨_, _, rfl⟩
  | not => left; simp only [effect]; split <;> exact ⟨_, _, rfl⟩
  | spew =>
    left
    simp only [effect]
    split
    · exact ⟨_, _, rfl⟩
    · exact ⟨_, _, State.write_state _ state⟩
  | package => exact Or.inr (Or.inl ⟨rfl, rfl⟩)
  | endPackage =>
    cases hp : state.forest.parent? state.scope with
    | none => left; simp only [effect, hp]; exact ⟨_, _, rfl⟩
    | some parent => exact Or.inr (Or.inr ⟨parent, rfl, rfl, by simp only [effect, hp]⟩)

/-! ## Instructions -/

/-- What an instruction other than a call leads to: another instruction in a new state, or a fault. -/
inductive Move (ν : Type) where
  | ahead (offset : Nat) (state : State ν)
  | fault (fault : Fault) (state : State ν)

/-- An operation that succeeds moves on to the next instruction. -/
def Outcome.move : Outcome ν → Move ν
  | .done state => .ahead 1 state
  | .failed fault state => .fault fault state

def Move.state : Move ν → State ν
  | .ahead _ state => state
  | .fault _ state => state

theorem Outcome.state_move (outcome : Outcome ν) : outcome.move.state = outcome.state := by
  cases outcome <;> rfl

@[simp] theorem Outcome.state_mapState (f : State ν → State ν) (outcome : Outcome ν) :
    (outcome.mapState f).state = f outcome.state := by
  cases outcome <;> rfl

/-- What an instruction does once its place has been noted; a call is left to the machine. -/
def Instruction.move? (state : State ν) : Instruction → Option (Move ν)
  | .primitive _ operation => some (operation.effect state).move
  | .push _ value => some (.ahead 1 (state.push value))
  | .define _ name body =>
    some (.ahead 1 (state.define state.scope ⟨state.place, name, "", .scripted body⟩))
  | .execute _ _ => none
  | .jumpIfFalse _ offset =>
    match state.stack with
    | [] => some (state.fail .stackUnderflow).move
    | value :: rest =>
      some (.ahead (if value.isTruthy then 1 else offset) { state with stack := rest })
  | .jump _ offset => some (.ahead offset state)

namespace Instruction

/-- Every instruction is a call or moves. -/
theorem execute_or_move (state : State ν) (instruction : Instruction) :
    (∃ location name, instruction = .execute location name) ∨
      ∃ move, instruction.move? state = some move := by
  cases instruction with
  | primitive location operation => exact Or.inr ⟨_, rfl⟩
  | push location value => exact Or.inr ⟨_, rfl⟩
  | define location name body => exact Or.inr ⟨_, rfl⟩
  | execute location name => exact Or.inl ⟨location, name, rfl⟩
  | jumpIfFalse location offset =>
    right
    simp only [move?]
    cases state.stack with
    | nil => exact ⟨_, rfl⟩
    | cons value rest => exact ⟨_, rfl⟩
  | jump location offset => exact Or.inr ⟨_, rfl⟩

theorem not_execute_of_move {state : State ν} {instruction : Instruction} {move : Move ν}
    (h : instruction.move? state = some move) (location : Option Location) (name : String) :
    instruction ≠ .execute location name := by
  rintro rfl
  cases h

/-- An instruction other than a call fails with its primitive, or for want of a condition. -/
theorem fault_cases {state after : State ν} {instruction : Instruction} {fault : Fault}
    (h : instruction.move? state = some (.fault fault after)) :
    (∃ location operation, instruction = .primitive location operation ∧
      operation.effect state = .failed fault after) ∨
    (∃ location offset, instruction = .jumpIfFalse location offset) ∧
      fault = state.fault .stackUnderflow ∧ after = state := by
  cases instruction with
  | primitive location operation =>
    simp only [move?, Option.some.injEq] at h
    cases he : operation.effect state with
    | done final =>
      rw [he] at h
      cases h
    | failed other final =>
      rw [he] at h
      cases h
      exact Or.inl ⟨location, operation, rfl, he⟩
  | push location value => cases h
  | define location name body => cases h
  | execute location name => cases h
  | jumpIfFalse location offset =>
    simp only [move?] at h
    split at h
    · cases h
      exact Or.inr ⟨⟨location, offset, rfl⟩, rfl, rfl⟩
    · cases h
  | jump location offset => cases h

end Instruction

namespace Config

/-- The step that a move amounts to. -/
def follow (config : Config ν) : Move ν → Step ν
  | .ahead offset state => .next (config.goTo (config.position + offset) state)
  | .fault fault state => .halt (.failed fault { config with state := state })

theorem follow_outcome (config : Config ν) (outcome : Outcome ν) :
    config.follow outcome.move = config.after outcome := by
  cases outcome <;> rfl

theorem carryOut_eq_follow {config : Config ν} {state : State ν} {instruction : Instruction}
    {move : Move ν} (h : instruction.move? state = some move) :
    config.carryOut state instruction = config.follow move := by
  cases instruction with
  | primitive location operation => cases h; exact (follow_outcome config _).symm
  | push location value => cases h; rfl
  | define location name body => cases h; rfl
  | execute location name => cases h
  | jumpIfFalse location offset =>
    simp only [Instruction.move?] at h
    simp only [carryOut]
    cases hs : state.stack with
    | nil =>
      rw [hs] at h
      cases h
      exact (follow_outcome config _).symm
    | cons value rest =>
      rw [hs] at h
      cases h
      simp only [follow]
      split <;> rfl
  | jump location offset => cases h; rfl

/-! ## The three kinds of step -/

theorem step_of_end {config : Config ν} (h : config.code[config.position]? = none) :
    config.step = config.leave := by
  simp only [step, h]

theorem step_of_move {config : Config ν} {instruction : Instruction} {move : Move ν}
    (h : config.code[config.position]? = some instruction)
    (hm : instruction.move? (config.state.moveTo instruction.location) = some move) :
    config.step = config.follow move := by
  simp only [step, h]
  exact carryOut_eq_follow hm

/-- A call opens, and then a native word is to be carried out or the body of a scripted one is
entered; or it can not be opened. -/
def call (config : Config ν) (name : String) (state : State ν) : Step ν :=
  match state.beginCall state.place name with
  | .error fault => .halt (.failed fault { config with state := state })
  | .ok (word, inner) =>
    match word.body with
    | .native native => .native native { config with state := inner }
    | .scripted body => .next (config.enter body inner)

theorem step_of_execute {config : Config ν} {location : Option Location} {name : String}
    (h : config.code[config.position]? = some (.execute location name)) :
    config.step = config.call name (config.state.moveTo location) := by
  simp only [step, h, carryOut, Instruction.location, call]
  rfl

end Config

/-! ## Opening a call -/

namespace State

def openCall (item : CallItem) (state : State ν) : State ν :=
  { state with calls := state.calls.push item }

@[simp] theorem openCall_calls (item : CallItem) (state : State ν) :
    (state.openCall item).calls = state.calls.push item := rfl

@[simp] theorem openCall_callLimit (item : CallItem) (state : State ν) :
    (state.openCall item).callLimit = state.callLimit := rfl

@[simp] theorem openCall_scope (item : CallItem) (state : State ν) :
    (state.openCall item).scope = state.scope := rfl

theorem beginCall_of_none {state : State ν} {location : Location} {name : String}
    (h : state.forest.lookup state.scope name = none) :
    state.beginCall location name = .error (state.fault (.undefinedWord name)) := by
  simp only [beginCall, h]

theorem beginCall_of_le {state : State ν} {location : Location} {name : String} {word : Word ν}
    (h : state.forest.lookup state.scope name = some word)
    (hd : state.callLimit ≤ state.calls.depth) :
    state.beginCall location name = .error (state.fault (.callDepth name state.callLimit)) := by
  simp only [beginCall, h, if_pos hd]

theorem beginCall_of_lt {state : State ν} {location : Location} {name : String} {word : Word ν}
    (h : state.forest.lookup state.scope name = some word)
    (hd : state.calls.depth < state.callLimit) :
    state.beginCall location name = .ok (word, state.openCall ⟨name, location⟩) := by
  simp only [beginCall, h, if_neg (Nat.not_le_of_lt hd), openCall]

theorem beginCall_ok {state inner : State ν} {location : Location} {name : String} {word : Word ν}
    (h : state.beginCall location name = .ok (word, inner)) :
    state.forest.lookup state.scope name = some word ∧ state.calls.depth < state.callLimit ∧
      inner = state.openCall ⟨name, location⟩ := by
  unfold beginCall at h
  split at h
  · cases h
  · rename_i found hf
    split at h
    · cases h
    · rename_i hd
      cases h
      exact ⟨hf, by omega, rfl⟩

@[simp] theorem moveTo_calls (state : State ν) (location : Option Location) :
    (state.moveTo location).calls = state.calls := by cases location <;> rfl

@[simp] theorem moveTo_callLimit (state : State ν) (location : Option Location) :
    (state.moveTo location).callLimit = state.callLimit := by cases location <;> rfl

@[simp] theorem moveTo_forest (state : State ν) (location : Option Location) :
    (state.moveTo location).forest = state.forest := by cases location <;> rfl

@[simp] theorem moveTo_scope (state : State ν) (location : Option Location) :
    (state.moveTo location).scope = state.scope := by cases location <;> rfl

@[simp] theorem moveTo_stack (state : State ν) (location : Option Location) :
    (state.moveTo location).stack = state.stack := by cases location <;> rfl

/-- A call opened by an instruction differs from the state before it by the call itself. -/
theorem opened_of_beginCall {state inner : State ν} {location : Option Location}
    {place : Location} {name : String} {word : Word ν}
    (h : (state.moveTo location).beginCall place name = .ok (word, inner)) :
    inner.calls = state.calls.push ⟨name, place⟩ ∧ inner.callLimit = state.callLimit ∧
      inner.scope = (state.moveTo location).scope := by
  obtain ⟨-, -, rfl⟩ := beginCall_ok h
  exact ⟨by rw [openCall_calls, moveTo_calls], by rw [openCall_callLimit, moveTo_callLimit], rfl⟩

end State

end StackScript
