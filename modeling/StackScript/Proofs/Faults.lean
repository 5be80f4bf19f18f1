import StackScript.Proofs.Trace

/-!
# Where faults come from

A fault knows the place of the instruction that failed and the calls in progress there, unless it is
one of writing.

* `Fault.RaisedIn` — the fault was raised in this state: a fault of writing, or one that carries its
  place and its calls.  Faults of calls that nest too deeply are none of these.
* `Primitive.effect_raises`, `Instruction.fault_raisedIn` — so are the faults of every instruction
  other than a call.
* `Routine.Raises`, `HostWord.raises_of_demonstration` — and those of the demonstration words.
* `State.beginCall_error` — why a call can not be opened.
-/

set_option autoImplicit false

namespace StackScript

variable {ν : Type}

/-- The fault is one of writing, or it carries the place and the calls of this state. -/
def Fault.RaisedIn (state : State ν) (fault : Fault) : Prop :=
  (∃ reason, fault = ofInputOutput (.sinkFailed reason)) ∨
    ∃ cause : Cause, cause.kind ≠ .callDepth ∧ fault = state.fault cause

/-- If there is a fault, it was raised in this state. -/
def Outcome.RaisesIn (state : State ν) : Outcome ν → Prop
  | .done _ => True
  | .failed fault _ => fault.RaisedIn state

theorem Fault.RaisedIn.kind_ne {state : State ν} {fault : Fault} (h : fault.RaisedIn state) :
    fault.kind ≠ .callDepth := by
  rcases h with ⟨reason, rfl⟩ | ⟨cause, hk, rfl⟩
  · exact fun hio => nomatch (hio : Kind.io = .callDepth)
  · exact hk

/-- A fault other than one of reading and writing knows its place and its calls. -/
theorem Fault.RaisedIn.eq_of_kind {state : State ν} {fault : Fault} (h : fault.RaisedIn state)
    (hk : fault.kind ≠ .io) : fault.location = state.location ∧ fault.calls = some state.calls := by
  rcases h with ⟨reason, rfl⟩ | ⟨cause, -, rfl⟩
  · exact absurd rfl hk
  · exact ⟨rfl, rfl⟩

theorem State.fail_raises (state : State ν) {cause : Fault.Cause} (hk : cause.kind ≠ .callDepth) :
    (state.fail cause).RaisesIn state :=
  Or.inr ⟨cause, hk, rfl⟩

theorem State.write_raises (text : String) (state : State ν) :
    (state.write text).RaisesIn state := by
  rcases state.write_cases text with ⟨-, hw⟩ | ⟨count, reason, -, hw⟩
  · rw [hw]
    trivial
  · rw [hw]
    exact Or.inl ⟨reason, rfl⟩

/-! ## Instructions -/

/-- Taking operands off the stack changes neither the place nor the calls. -/
theorem State.withOperands_raises (state : State ν) {next : Value → Value → State ν → Outcome ν}
    (h : ∀ b a (s : State ν), (next b a s).RaisesIn s) : (state.withOperands next).RaisesIn state := by
  unfold withOperands
  split
  · rename_i a b rest hs
    exact h b a { state with stack := rest }
  · exact fail_raises { state with stack := [] } (by decide)
  · exact fail_raises state (by decide)

theorem State.arithmetic_raises (state : State ν) (operation : Primitive)
    (compute : Float → Float → Float) : (state.arithmetic operation compute).RaisesIn state := by
  refine withOperands_raises state fun b a s => ?_
  split
  · trivial
  · exact fail_raises s (by simp [Fault.Cause.kind])

/-- **The faults of a primitive are raised where it is carried out.** -/
theorem Primitive.effect_raises (operation : Primitive) (state : State ν) :
    (operation.effect state).RaisesIn state := by
  cases operation with
  | dup =>
    simp only [effect]
    split
    · exact state.fail_raises (by decide)
    · trivial
  | drop =>
    simp only [effect]
    split
    · exact state.fail_raises (by decide)
    · trivial
  | add =>
    simp only [effect]
    refine state.withOperands_raises fun b a s => ?_
    split
    · trivial
    · exact s.fail_raises (by simp [Fault.Cause.kind])
  | subtract => exact state.arithmetic_raises _ _
  | multiply => exact state.arithmetic_raises _ _
  | divide => exact state.arithmetic_raises _ _
  | equal =>
    simp only [effect]
    exact state.withOperands_raises fun b a s => trivial
  | greaterThan =>
    simp only [effect]
    refine state.withOperands_raises fun b a s => ?_
    split
    · trivial
    · exact s.fail_raises (by simp [Fault.Cause.kind])
  | not =>
    simp only [effect]
    split
    · exact state.fail_raises (by decide)
    · trivial
  | spew =>
    simp only [effect]
    split
    · exact state.fail_raises (by decide)
    · exact state.write_raises _
  | package => trivial
  | endPackage =>
    simp only [effect]
    split
    · exact state.fail_raises (by decide)
    · trivial

theorem Instruction.fault_raisedIn {state after : State ν} {instruction : Instruction}
    {fault : Fault} (h : instruction.move? state = some (.fault fault after)) :
    fault.RaisedIn state := by
  rcases fault_cases h with ⟨location, operation, -, he⟩ | ⟨-, rfl, -⟩
  · have hraises := operation.effect_raises state
    rw [he] at hraises
    exact hraises
  · exact state.fail_raises (by decide)

/-- **Why a call can not be opened.**  The name is looked up first. -/
theorem State.beginCall_error {state : State ν} {location : Location} {name : String}
    {fault : Fault} (h : state.beginCall location name = .error fault) :
    (state.forest.lookup state.scope name = none ∧ fault = state.fault (.undefinedWord name)) ∨
      ∃ word, state.forest.lookup state.scope name = some word ∧
        state.callLimit ≤ state.calls.depth ∧
        fault = state.fault (.callDepth name state.callLimit) := by
  cases hl : state.forest.lookup state.scope name with
  | none =>
    rw [beginCall_of_none hl] at h
    cases h
    exact Or.inl ⟨rfl, rfl⟩
  | some word =>
    by_cases hd : state.callLimit ≤ state.calls.depth
    · rw [beginCall_of_le hl hd] at h
      cases h
      exact Or.inr ⟨word, rfl, hd, rfl⟩
    · rw [beginCall_of_lt hl (Nat.lt_of_not_le hd)] at h
      cases h

/-! ## Native words -/

namespace Routine

/-- The faults of the routine are raised in the state that it starts in. -/
def Raises (routine : Routine ν) : Prop :=
  ∀ machine state outcome, routine.perform machine state = some outcome → outcome.RaisesIn state

theorem raises_finish : (finish : Routine ν).Raises := by
  intro machine state outcome h
  cases h
  trivial

theorem raises_inspect {next : State ν → Routine ν} (h : ∀ state, (next state).Raises) :
    (inspect next).Raises :=
  fun machine state outcome hp => h state machine state outcome hp

theorem raises_push {next : Routine ν} (value : Value) (h : next.Raises) :
    (push value next).Raises :=
  fun machine state outcome hp => h machine (state.push value) outcome hp

theorem raises_newObject {next : HostObject → Routine ν} (kind : String)
    (h : ∀ object, (next object).Raises) : (newObject kind next).Raises :=
  fun machine state outcome hp =>
    h _ machine { state with objects := state.objects + 1 } outcome hp

theorem raises_failWith {cause : Fault.Cause} (hk : cause.kind ≠ .callDepth) :
    (failWith cause : Routine ν).Raises := by
  intro machine state outcome h
  cases h
  exact state.fail_raises hk

theorem raises_popValue {next : Value → Routine ν} (h : ∀ value, (next value).Raises) :
    (popValue next).Raises := by
  intro machine state outcome hp
  simp only [popValue, perform] at hp
  split at hp
  · cases hp
    exact state.fail_raises (by decide)
  · rename_i value rest hs
    exact h value machine { state with stack := rest } outcome hp

theorem raises_writeLast (text : String) : (writeLast text : Routine ν).Raises := by
  intro machine state outcome h
  rw [perform_writeLast] at h
  cases h
  exact state.write_raises text

end Routine

open Routine in
/-- **The faults of the demonstration words are raised where they are called.** -/
theorem HostWord.raises_of_demonstration {word : HostWord} (hw : word ∈ demonstration) :
    (hostRoutine word).Raises := by
  simp only [demonstration, List.mem_cons, List.not_mem_nil, or_false] at hw
  rcases hw with rfl | rfl | rfl | rfl
  · exact raises_popValue fun value => raises_inspect fun state => raises_writeLast _
  · exact raises_inspect fun state => raises_writeLast _
  · exact raises_inspect fun state => raises_writeLast _
  · refine raises_popValue fun value => ?_
    cases value with
    | text kind => exact raises_newObject kind fun object => raises_push _ raises_finish
    | _ => exact raises_failWith (by simp [Fault.Cause.kind])

/-- The fault of a native word that never enters the machine again. -/
theorem Performs.raises {host : Host ν} {routine : Routine ν} {state : State ν}
    {outcome : Outcome ν} (h : Performs host routine state outcome) (hr : routine.Raises) :
    outcome.RaisesIn state := by
  obtain ⟨fuel, hf⟩ := h
  exact hr _ state outcome (hf fuel (Nat.le_refl fuel))

end StackScript
