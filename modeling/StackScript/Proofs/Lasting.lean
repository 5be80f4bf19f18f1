import StackScript.Proofs.Step

/-!
# What lasts through every run

Primitives and native words change the state in a few ways only (`State.Change`).  What each of these ways
keeps lasts through whatever runs, on whatever host, whether it succeeds or fails.

* `Lasting` — a relation between a state and a later one that every change keeps.
* `Routine.perform_lasting` — a native routine keeps it, if the machine around it does.
* `LastingThroughout` — one that opening and closing calls keeps, too; `Config.step_lasting` — so does every
  step.

Principal results: `exec_lasting`, `runCode_lasting` and `callWord_lasting`.
-/

set_option autoImplicit false

namespace StackScript

variable {ν : Type}

/-- One change of the state that a primitive makes or a native word asks for. -/
inductive State.Change (state : State ν) : State ν → Prop where
  | stack (stack : List Value) : Change state { state with stack := stack }
  | handed (text : String) : Change state (state.handed text)
  | scope (scope : ScopeId) : Change state { state with scope := scope }
  | newHost : Change state { state with forest := state.forest.newHost }
  | newChild (parent : ScopeId) : Change state { state with forest := state.forest.newChild parent }
  | define (scope : ScopeId) (word : Word ν) : Change state (state.define scope word)
  | newObject : Change state { state with objects := state.objects + 1 }

/-- A relation between a state and a later one that every change keeps. -/
structure Lasting (R : State ν → State ν → Prop) : Prop where
  refl : ∀ state, R state state
  trans : ∀ {a b c}, R a b → R b c → R a c
  change : ∀ {state after}, state.Change after → R state after

/-- It takes no notice of the place and of the calls in progress, either. -/
structure LastingThroughout (R : State ν → State ν → Prop) : Prop extends Lasting R where
  calls : ∀ state location calls, R state { state with location := location, calls := calls }

variable {R : State ν → State ν → Prop}

namespace Lasting

theorem stack (h : Lasting R) (state : State ν) (stack : List Value) :
    R state { state with stack := stack } :=
  h.change (.stack stack)

theorem write (h : Lasting R) (text : String) (state : State ν) : R state (state.write text).state := by
  rw [State.write_state]
  exact h.change (.handed text)

theorem withOperands (h : Lasting R) (state : State ν) {next : Value → Value → State ν → Outcome ν}
    (hnext : ∀ b a s, R s (next b a s).state) : R state (state.withOperands next).state := by
  unfold State.withOperands
  split
  · rename_i a b rest hs
    exact h.trans (h.stack state rest) (hnext b a _)
  · exact h.stack state []
  · exact h.refl state

theorem arithmetic (h : Lasting R) (state : State ν) (operation : Primitive)
    (compute : Float → Float → Float) : R state (state.arithmetic operation compute).state := by
  refine h.withOperands state fun b a s => ?_
  split
  · exact h.stack s _
  · exact h.refl s

end Lasting

/-! ## Primitives and requests -/

theorem Primitive.effect_lasting (h : Lasting R) (operation : Primitive) (state : State ν) :
    R state (operation.effect state).state := by
  cases operation with
  | dup =>
    simp only [effect]
    split
    · exact h.refl state
    · exact h.stack state _
  | drop =>
    simp only [effect]
    split
    · exact h.refl state
    · exact h.stack state _
  | add =>
    simp only [effect]
    refine h.withOperands state fun b a s => ?_
    split
    · exact h.stack s _
    · exact h.refl s
  | subtract => exact h.arithmetic state _ _
  | multiply => exact h.arithmetic state _ _
  | divide => exact h.arithmetic state _ _
  | equal =>
    simp only [effect]
    exact h.withOperands state fun b a s => h.stack s _
  | greaterThan =>
    simp only [effect]
    refine h.withOperands state fun b a s => ?_
    split
    · exact h.stack s _
    · exact h.refl s
  | not =>
    simp only [effect]
    split
    · exact h.refl state
    · exact h.stack state _
  | spew =>
    simp only [effect]
    split
    · exact h.refl state
    · exact h.write _ state
  | package => exact h.trans (h.change (.newChild state.scope)) (h.change (.scope state.forest.size))
  | endPackage =>
    simp only [effect]
    split
    · exact h.refl state
    · rename_i parent hp
      exact h.trans (h.change (.scope parent)) (h.stack { state with scope := parent } _)

/-- **A routine keeps what lasts**, if the machine around it does. -/
theorem Routine.perform_lasting (h : Lasting R) {machine : Reentry ν}
    (hrun : ∀ code state outcome, machine.run code state = some outcome → R state outcome.state)
    (hcall : ∀ location name state outcome, machine.call location name state = some outcome →
      R state outcome.state)
    (hbecome : ∀ native state outcome, machine.become native state = some outcome →
      R state outcome.state)
    (routine : Routine ν) :
    ∀ state outcome, routine.perform machine state = some outcome → R state outcome.state := by
  induction routine with
  | finish => intro state outcome hp; cases hp; exact h.refl state
  | fail fault => intro state outcome hp; cases hp; exact h.refl state
  | inspect next ih => intro state outcome hp; exact ih state state outcome hp
  | push value next ih => intro state outcome hp; exact h.trans (h.stack state _) (ih _ outcome hp)
  | pop next ih =>
    intro state outcome hp
    simp only [Routine.perform] at hp
    split at hp
    · exact ih _ state outcome hp
    · rename_i value rest hs
      exact h.trans (h.stack state rest) (ih _ _ outcome hp)
  | write text next ih =>
    intro state outcome hp
    rw [Routine.perform_write] at hp
    exact h.trans (h.write text state) (ih _ _ outcome hp)
  | enterScope scope next ih =>
    intro state outcome hp
    exact h.trans (h.change (.scope scope)) (ih _ outcome hp)
  | newHost next ih =>
    intro state outcome hp
    exact h.trans (h.change .newHost) (ih _ _ outcome hp)
  | newScope parent next ih =>
    intro state outcome hp
    exact h.trans (h.change (.newChild parent)) (ih _ _ outcome hp)
  | define scope word next ih =>
    intro state outcome hp
    exact h.trans (h.change (.define scope word)) (ih _ outcome hp)
  | newObject kind next ih =>
    intro state outcome hp
    exact h.trans (h.change .newObject) (ih _ _ outcome hp)
  | call location name next ih =>
    intro state outcome hp
    rw [Routine.perform_call] at hp
    obtain ⟨inner, hc, hrest⟩ := Option.bind_eq_some_iff.1 hp
    exact h.trans (hcall _ _ _ _ hc) (ih _ _ outcome hrest)
  | run code next ih =>
    intro state outcome hp
    rw [Routine.perform_run] at hp
    obtain ⟨inner, hr, hrest⟩ := Option.bind_eq_some_iff.1 hp
    exact h.trans (hrun _ _ _ hr) (ih _ _ outcome hrest)
  | become native => intro state outcome hp; exact hbecome _ _ _ hp

/-! ## Steps -/

def Halt.state : Halt ν → State ν
  | .finished state => state
  | .failed _ config => config.state

def Step.state : Step ν → State ν
  | .next config => config.state
  | .native _ config => config.state
  | .halt stop => stop.state

namespace LastingThroughout

theorem moveTo (h : LastingThroughout R) (state : State ν) (location : Option Location) :
    R state (state.moveTo location) := by
  cases location with
  | none => exact h.refl state
  | some place => exact h.calls state (some place) state.calls

theorem openCall (h : LastingThroughout R) (state : State ν) (item : CallItem) :
    R state (state.openCall item) :=
  h.calls state state.location (state.calls.push item)

/-- The calls change and then the scope: at the end of a body, and when a failure is unwound. -/
theorem unwind (h : LastingThroughout R) (state : State ν) (scope : ScopeId) (calls : CallStack) :
    R state { state with scope := scope, calls := calls } :=
  h.trans (h.calls state state.location calls) (h.change (.scope scope))

end LastingThroughout

theorem Instruction.move_lasting (h : Lasting R) {state : State ν} {instruction : Instruction}
    {move : Move ν} (hm : instruction.move? state = some move) : R state move.state := by
  cases instruction with
  | primitive location operation =>
    cases hm
    rw [Outcome.state_move]
    exact operation.effect_lasting h state
  | push location value => cases hm; exact h.stack state _
  | define location name body => cases hm; exact h.change (.define _ _)
  | execute location name => cases hm
  | jumpIfFalse location offset =>
    simp only [Instruction.move?] at hm
    split at hm
    · cases hm; exact h.refl state
    · cases hm; exact h.stack state _
  | jump location offset => cases hm; exact h.refl state

/-- **Every step keeps what lasts.** -/
theorem Config.step_lasting (h : LastingThroughout R) (config : Config ν) :
    R config.state config.step.state := by
  cases hi : config.code[config.position]? with
  | none =>
    rw [step_of_end hi]
    unfold leave
    split
    · exact h.refl config.state
    · exact h.unwind config.state _ _
  | some instruction =>
    have hmoved := h.moveTo config.state instruction.location
    rcases instruction.execute_or_move (config.state.moveTo instruction.location) with
      ⟨location, name, rfl⟩ | ⟨move, hm⟩
    · rw [step_of_execute hi]
      unfold call
      split
      · exact hmoved
      · rename_i word inner hb
        obtain ⟨-, -, rfl⟩ := State.beginCall_ok hb
        have hopened := h.trans hmoved (h.openCall _ ⟨name, (config.state.moveTo location).place⟩)
        split <;> exact hopened
    · rw [step_of_move hi hm]
      have hafter := h.trans hmoved (Instruction.move_lasting h.toLasting hm)
      cases move <;> exact hafter

/-! ## Runs -/

theorem Halt.unwind_lasting (h : LastingThroughout R) (depth : Nat) (halt : Halt ν) :
    R halt.state (halt.unwind depth).state := by
  cases halt with
  | finished state => exact h.refl state
  | failed fault config => exact h.unwind config.state _ _

/-- Stepping, running code, calling words and going on as one, for one amount of fuel. -/
theorem lasting_of_fuel (h : LastingThroughout R) (host : Host ν) (fuel : Nat) :
    (∀ config halt, exec host fuel config = some halt → R config.state halt.state) ∧
    (∀ code state outcome, runCode host fuel code state = some outcome → R state outcome.state) ∧
    (∀ location name state outcome, callWord host fuel location name state = some outcome →
      R state outcome.state) ∧
    (∀ native state outcome, becomeNative host fuel native state = some outcome →
      R state outcome.state) := by
  induction fuel with
  | zero => exact ⟨by simp [exec], by simp [runCode], by simp [callWord], by simp [becomeNative]⟩
  | succ fuel ih =>
    obtain ⟨he, hr, hc, hb⟩ := ih
    have hp : ∀ (routine : Routine ν) state outcome,
        routine.perform (host.reentry fuel) state = some outcome → R state outcome.state :=
      Routine.perform_lasting h.toLasting hr hc hb
    refine ⟨?_, ?_, ?_, fun native => hp (host native)⟩
    · intro config halt hx
      have hs := config.step_lasting h
      rw [exec] at hx
      split at hx
      · rename_i next hn
        rw [hn] at hs
        exact h.trans hs (he next halt hx)
      · rename_i stop hn
        rw [hn] at hs
        cases hx
        exact hs
      · rename_i word next hn
        rw [hn] at hs
        split at hx
        · cases hx
        · rename_i state hw
          have hclosed := h.calls state state.location state.calls.pop
          exact h.trans (h.trans hs (hp _ _ _ hw)) (h.trans hclosed (he _ halt hx))
        · rename_i fault state hw
          cases hx
          exact h.trans hs (hp _ _ _ hw)
    · intro code state outcome hx
      simp only [runCode] at hx
      obtain ⟨halt, hh, rfl⟩ := Option.map_eq_some_iff.1 hx
      exact h.trans (he _ halt hh) (halt.unwind_lasting h _)
    · intro location name state outcome hx
      rw [callWord] at hx
      split at hx
      · cases hx
        exact h.refl state
      · rename_i word inner hopen
        obtain ⟨-, -, rfl⟩ := State.beginCall_ok hopen
        have hopened := h.openCall state ⟨name, location⟩
        split at hx
        · obtain ⟨ran, hran, rfl⟩ := Option.map_eq_some_iff.1 hx
          rw [Outcome.state_mapState]
          exact h.trans (h.trans hopened (hp _ _ _ hran)) (h.calls _ ran.state.location _)
        · obtain ⟨ran, hran, rfl⟩ := Option.map_eq_some_iff.1 hx
          rw [Outcome.state_mapState]
          exact h.trans (h.trans hopened (hr _ _ _ hran)) (h.unwind _ _ _)

section Runs

variable {host : Host ν} {fuel : Nat}

theorem exec_lasting (h : LastingThroughout R) {config : Config ν} {halt : Halt ν}
    (hx : exec host fuel config = some halt) : R config.state halt.state :=
  (lasting_of_fuel h host fuel).1 config halt hx

/-- **Running code keeps what lasts**, whether it succeeds or fails. -/
theorem runCode_lasting (h : LastingThroughout R) {code : Code} {state : State ν}
    {outcome : Outcome ν} (hx : runCode host fuel code state = some outcome) :
    R state outcome.state :=
  (lasting_of_fuel h host fuel).2.1 code state outcome hx

/-- **Calling a word keeps what lasts**, whether it succeeds or fails. -/
theorem callWord_lasting (h : LastingThroughout R) {location : Location} {name : String}
    {state : State ν} {outcome : Outcome ν}
    (hx : callWord host fuel location name state = some outcome) : R state outcome.state :=
  (lasting_of_fuel h host fuel).2.2.1 location name state outcome hx

end Runs

end StackScript
