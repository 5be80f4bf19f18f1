import StackScript.Proofs.Likeness

/-!
# A machine and its image in lockstep

Machines that are alike take the same steps, and their runs come to alike ends with the same fuel.  There
is one exception: if fewer calls are in progress in the image, then the machine may be refused a call that
is opened in the image.

* `Likeness.Wants` — the fault is a call too many, and in the image fewer calls are in progress.
* `Likeness.Configs` — machines that are alike, between two steps.
* `Likeness.Configs.step` — the step lemma; `Likeness.exec_alike` — the run lemma.

Principal result: `Likeness.runCode_alike`.
-/

set_option autoImplicit false

namespace StackScript

namespace Likeness

variable (k : Likeness)

/-! ## One step -/

/-- The fault is a call too many, and in the image fewer calls are in progress. -/
def Wants (fault : Fault) : Prop :=
  fault.kind = .callDepth ∧ k.imageCalls.length < k.calls.length

/-- The machines are at the same position of alike code, and in the machine one call is open for each
suspended caller. -/
structure Configs (config image : Config HostWord) : Prop where
  code : image.code = config.code.map k.instruction
  position : image.position = config.position
  callers : image.callers = config.callers.map k.frame
  state : k.States config.state image.state
  opened : k.calls.length + config.callers.length ≤ config.state.calls.depth

/-- Both machines come to the end, or both fail in the same way. -/
inductive Halts : Halt HostWord → Halt HostWord → Prop where
  | finished {state image : State HostWord} (h : k.States state image) :
      Halts (.finished state) (.finished image)
  | failed {fault fault' : Fault} {config image : Config HostWord} (hf : k.Faults fault fault')
      (h : k.Configs config image) : Halts (.failed fault config) (.failed fault' image)

/-- Both steps lead to alike machines, or the machine is in want of a call. -/
inductive Steps : Step HostWord → Step HostWord → Prop where
  | next {config image : Config HostWord} (h : k.Configs config image) :
      Steps (.next config) (.next image)
  | native {word : HostWord} {config image : Config HostWord} (hw : word ∈ HostWord.demonstration)
      (h : k.Configs config image)
      (hopen : k.calls.length + config.callers.length < config.state.calls.depth) :
      Steps (.native word config) (.native word image)
  | halt {halt image : Halt HostWord} (h : k.Halts halt image) : Steps (.halt halt) (.halt image)
  | wants {fault : Fault} {config : Config HostWord} (h : k.Wants fault) (image : Step HostWord) :
      Steps (.halt (.failed fault config)) image

variable {k} {config image : Config HostWord}

namespace Configs

theorem getElem? (h : k.Configs config image) :
    image.code[image.position]? = (config.code[config.position]?).map k.instruction := by
  rw [h.code, h.position, Array.getElem?_map]

theorem goTo (h : k.Configs config image) (position : Nat) {state state' : State HostWord}
    (hs : k.States state state') (hcalls : state.calls = config.state.calls) :
    k.Configs (config.goTo position state) (image.goTo position state') :=
  ⟨h.code, rfl, h.callers, hs, hcalls ▸ h.opened⟩

theorem withState (h : k.Configs config image) {state state' : State HostWord}
    (hs : k.States state state') (hcalls : state.calls = config.state.calls) :
    k.Configs { config with state := state } { image with state := state' } :=
  ⟨h.code, h.position, h.callers, hs, hcalls ▸ h.opened⟩

/-- At the end of a body both machines resume alike callers, or both stop. -/
theorem leave (h : k.Configs config image) : k.Steps config.leave image.leave := by
  have hopened := h.opened
  unfold Config.leave
  rw [h.callers]
  cases hc : config.callers with
  | nil => exact .halt (.finished h.state)
  | cons frame rest =>
    rw [hc, List.length_cons] at hopened
    have hcalls := h.state.closeCall (by omega)
    refine .next ⟨rfl, rfl, rfl, { h.state with scope := rfl, calls := hcalls }, ?_⟩
    show k.calls.length + rest.length ≤ config.state.calls.depth - 1
    omega

/-- A call is opened in both machines, or refused in both, unless only the machine is refused it. -/
theorem call (h : k.Configs config image) (location : Option Location) (name : String) :
    k.Steps (config.call name (config.state.moveTo location))
      (image.call name (image.state.moveTo (k.location? location))) := by
  have hmoved := h.state.moveTo location
  have hcalls : (config.state.moveTo location).calls = config.state.calls :=
    State.moveTo_calls config.state location
  generalize config.state.moveTo location = state at hmoved hcalls
  generalize image.state.moveTo (k.location? location) = state' at hmoved
  have hlookup := hmoved.forest.lookup state.scope name
  rw [← hmoved.scope] at hlookup
  unfold Config.call
  cases hl : state.forest.lookup state.scope name with
  | none =>
    rw [hl] at hlookup
    rw [State.beginCall_of_none hl, State.beginCall_of_none hlookup]
    exact .halt (.failed (hmoved.fault _) (h.withState hmoved hcalls))
  | some word =>
    rw [hl] at hlookup
    by_cases hd : state.callLimit ≤ state.calls.depth
    · rw [State.beginCall_of_le hl hd]
      by_cases hk : k.imageCalls.length < k.calls.length
      · exact .wants ⟨rfl, hk⟩ _
      · have hd' : state'.callLimit ≤ state'.calls.depth := by
          rw [hmoved.callLimit, hmoved.calls.depth_eq hk]
          exact hd
        rw [State.beginCall_of_le hlookup hd', hmoved.callLimit]
        exact .halt (.failed (hmoved.fault _) (h.withState hmoved hcalls))
    · have hlt : state.calls.depth < state.callLimit := Nat.lt_of_not_le hd
      have hlt' : state'.calls.depth < state'.callLimit := by
        rw [hmoved.callLimit]
        exact Nat.lt_of_le_of_lt hmoved.calls.depth_le hlt
      rw [State.beginCall_of_lt hl hlt, State.beginCall_of_lt hlookup hlt']
      have hopen := hmoved.openCall name
      have hless : k.calls.length + config.callers.length <
          (state.openCall ⟨name, state.place⟩).calls.depth := by
        rw [State.openCall_calls, CallStack.depth_push, hcalls]
        exact Nat.lt_succ_of_le h.opened
      cases hb : word.body with
      | native native =>
        have hdemo := hmoved.settles.lookup hl native hb
        simp only [Likeness.word, hb, WordBody.mapCode]
        exact .native hdemo ⟨h.code, h.position, h.callers, hopen, Nat.le_of_lt hless⟩ hless
      | scripted body =>
        simp only [Likeness.word, hb, WordBody.mapCode]
        refine .next ⟨?_, rfl, ?_, hopen, hless⟩
        · show (k.code body).toArray = body.toArray.map k.instruction
          rw [k.code_eq_map, List.map_toArray]
        · show _ :: _ = List.map k.frame (_ :: _)
          rw [List.map_cons, h.callers, h.position, h.code]
          simp only [State.openCall_scope, hmoved.scope]
          rfl

/-- **One step leads from alike to alike**, unless the machine is in want of a call. -/
theorem step (h : k.Configs config image) : k.Steps config.step image.step := by
  have hinstruction := h.getElem?
  cases hi : config.code[config.position]? with
  | none =>
    rw [hi] at hinstruction
    rw [Config.step_of_end hi, Config.step_of_end hinstruction]
    exact h.leave
  | some instruction =>
    rw [hi] at hinstruction
    have hmoved := h.state.moveTo instruction.location
    rcases instruction.execute_or_move (config.state.moveTo instruction.location) with
      ⟨location, name, rfl⟩ | ⟨move, hm⟩
    · rw [Config.step_of_execute hi, Config.step_of_execute hinstruction]
      exact h.call location name
    · obtain ⟨move', hm', halike⟩ := Instruction.move_alike hmoved hm
      rw [← k.location_instruction] at hm'
      rw [Config.step_of_move hi hm, Config.step_of_move hinstruction hm']
      have hcalls := (State.Balanced.moveTo config.state instruction.location).trans
        (Instruction.move_balanced hm)
      cases halike with
      | ahead offset hs =>
        rw [Config.follow, Config.follow, h.position]
        exact .next (h.goTo _ hs hcalls.calls)
      | fault hf hs => exact .halt (.failed hf (h.withState hs hcalls.calls))

end Configs

/-! ## Whole runs -/

/-- **The image stops as the machine does**, at the same step, unless the machine is in want of a call. -/
theorem exec_alike (fuel : Nat) (h : k.Configs config image) :
    (∃ fault stopped, exec hostRoutine fuel config = some (.failed fault stopped) ∧ k.Wants fault) ∨
      Option.Rel k.Halts (exec hostRoutine fuel config) (exec hostRoutine fuel image) := by
  induction fuel generalizing config image with
  | zero => exact Or.inr .none
  | succ fuel ih =>
    have hstep := h.step
    rw [exec, exec]
    generalize config.step = step at hstep
    generalize image.step = step' at hstep
    cases hstep with
    | next h => exact ih h
    | halt h => exact Or.inr (.some h)
    | wants h image => exact Or.inl ⟨_, _, rfl, h⟩
    | @native word config image hw h hopen =>
      obtain ⟨outcome, outcome', hp, hp', halike⟩ := HostWord.alike_of_demonstration hw
        (hostRoutine.reentry fuel)
        (hostRoutine.reentry fuel) _ _ h.state
      have hcalls := (Routine.perform_machine_balanced hp).calls
      simp only [hp, hp']
      cases halike with
      | @done state state' hs =>
        replace hcalls : state.calls = config.state.calls := hcalls
        rw [← hcalls] at hopen
        refine ih ⟨h.code, ?_, h.callers, { hs with calls := hs.closeCall (by omega) }, ?_⟩
        · show image.position + 1 = config.position + 1
          rw [h.position]
        · show k.calls.length + config.callers.length ≤ state.calls.depth - 1
          omega
      | failed hf hs => exact Or.inr (.some (.failed hf (h.withState hs hcalls)))

theorem entryScope_alike (h : k.Configs config image) :
    image.entryScope = k.scope config.entryScope := by
  unfold Config.entryScope
  rw [h.callers, List.getLast?_map, h.state.scope]
  cases config.callers.getLast? <;> rfl

theorem start_alike {state state' : State HostWord} (h : k.States state state') (code : Code) :
    k.Configs (Config.start code state) (Config.start (k.code code) state') := by
  refine ⟨?_, rfl, rfl, h, ?_⟩
  · show (k.code code).toArray = code.toArray.map k.instruction
    rw [k.code_eq_map, List.map_toArray]
  · obtain ⟨inner, hcalls, -⟩ := h.calls
    show k.calls.length + 0 ≤ state.calls.depth
    rw [state.calls.depth_eq, hcalls, List.length_append]
    omega

/-- **The image of a run is the run of the image**, unless the machine is in want of a call. -/
theorem runCode_alike {state image : State HostWord} (fuel : Nat) (code : Code)
    (h : k.States state image) :
    (∃ fault final, runCode hostRoutine fuel code state = some (.failed fault final) ∧
      k.Wants fault) ∨
    Option.Rel k.Outcomes (runCode hostRoutine fuel code state)
      (runCode hostRoutine fuel (k.code code) image) := by
  cases fuel with
  | zero => exact Or.inr .none
  | succ fuel =>
    rw [runCode, runCode]
    rcases exec_alike fuel (start_alike h code) with ⟨fault, stopped, he, hwants⟩ | halike
    · rw [he]
      exact Or.inl ⟨fault, _, rfl, hwants⟩
    · right
      generalize he : exec hostRoutine fuel (Config.start code state) = halt? at halike
      generalize he' : exec hostRoutine fuel (Config.start (k.code code) image) = halt?' at halike
      cases halike with
      | none => exact .none
      | some halike =>
        have hover := exec_over (Config.over_start code state) he
        have hover' := exec_over (Config.over_start (k.code code) image) he'
        rw [Option.map_some, Option.map_some]
        refine .some ?_
        cases halike with
        | finished hs => exact .done hs
        | failed hf hc =>
          rw [Halt.unwind_failed hover, Halt.unwind_failed hover']
          exact .failed hf { hc.state with scope := entryScope_alike hc, calls := h.calls }

end Likeness

end StackScript
