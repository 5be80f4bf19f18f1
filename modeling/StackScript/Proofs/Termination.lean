import StackScript.Proofs.Derivation
import StackScript.Proofs.Meaning
import StackScript.Proofs.Nested

/-!
# Every run ends

Words may call themselves and each other, and may be bound again while they run, yet every run comes
to an end.  Three things see to that:

* the limit of calls: the body of a called word runs with less `State.room` for further calls;
* the direction of jumps: inside one body every instruction leads forward, except
* a conditional jump of offset zero, which takes a value off the stack each time
  (`Instruction.move_progress`).

The only code that can go on forever is an unconditional jump to itself.  `Code.NeverIdles` and
`Word.NeverIdles` exclude it from the code and from the bound words, and compiled code has none.

Principal result: `runCode_ends`.  Its induction is on the room for calls; inside one body, on the
instructions that are left and then on the size of the stack (`nestedOutcome_ends`).
-/

set_option autoImplicit false

namespace StackScript

variable {ν : Type}

/-- A demonstration word of the host, or a scripted word whose code never idles. -/
def Word.NeverIdles (word : Word HostWord) : Prop :=
  match word.body with
  | .native native => native ∈ HostWord.demonstration
  | .scripted code => code.NeverIdles

theorem Word.Compiled.neverIdles {word : Word HostWord} (h : word.Compiled) : word.NeverIdles := by
  unfold Word.Compiled at h
  unfold Word.NeverIdles
  cases hb : word.body with
  | native native =>
    rw [hb] at h
    exact h
  | scripted code =>
    rw [hb] at h
    obtain ⟨tokens, hc⟩ := h
    exact (compiles_of_compile hc).neverIdles

/-- The run has an answer.  It leaves the calls in progress as they were in `state`, and no word that
idles is bound after it. -/
def Ends (run : Nat → Option (Outcome HostWord)) (state : State HostWord) : Prop :=
  ∃ outcome, Answers run outcome ∧ state.Balanced outcome.state ∧
    outcome.state.forest.EveryWord Word.NeverIdles

/-! ## Inside one body -/

/-- **An instruction leads forward or takes a value off the stack**, unless it is a jump to itself. -/
theorem Instruction.move_progress {state after : State ν} {instruction : Instruction} {offset : Nat}
    (hm : instruction.move? state = some (.ahead offset after))
    (hj : ∀ location, instruction ≠ .jump location 0) :
    0 < offset ∨ after.stack.length < state.stack.length := by
  cases instruction with
  | primitive location operation =>
    left
    simp only [move?, Option.some.injEq] at hm
    cases ho : operation.effect state with
    | done final => rw [ho] at hm; cases hm; omega
    | failed fault final => rw [ho] at hm; cases hm
  | push location value => cases hm; left; omega
  | define location name body => cases hm; left; omega
  | execute location name => cases hm
  | jumpIfFalse location distance =>
    right
    simp only [move?] at hm
    split at hm
    · cases hm
    · rename_i value rest hs
      cases hm
      rw [hs, List.length_cons]
      exact Nat.lt_succ_self _
  | jump location distance =>
    left
    cases hm
    rcases Nat.eq_zero_or_pos offset with rfl | hpos
    · exact absurd rfl (hj location)
    · exact hpos

/-- A body ends if the calls that it makes do.  The measure is the number of instructions that are
left and then the size of the stack; a called word may leave any stack behind, but the instruction
after the call is one further. -/
theorem nestedOutcome_ends {room : Nat}
    (hcall : ∀ location name (state : State HostWord), state.room = room →
      state.forest.EveryWord Word.NeverIdles →
      Ends (fun fuel => nestedCall hostRoutine fuel location name state) state)
    (config : Config HostWord) (hc : config.callers = [])
    (hcode : Code.NeverIdles config.code.toList) (hroom : config.state.room = room)
    (hwords : config.state.forest.EveryWord Word.NeverIdles) :
    Ends (fun fuel => nestedOutcome hostRoutine config.state.calls.depth fuel config)
      config.state := by
  cases hi : config.code[config.position]? with
  | none => exact ⟨_, nestedOutcome_of_end hc hi, .refl _, hwords⟩
  | some instruction =>
    obtain ⟨hlt, hget⟩ := Array.getElem?_eq_some_iff.1 hi
    have hmem : instruction ∈ config.code.toList := by
      rw [← hget]
      exact Array.mem_toList_iff.2 (Array.getElem_mem hlt)
    have hmove := State.Balanced.moveTo config.state instruction.location
    have hwords' : (config.state.moveTo instruction.location).forest.EveryWord
        Word.NeverIdles := by
      rw [State.moveTo_forest]
      exact hwords
    rcases instruction.execute_or_move (config.state.moveTo instruction.location) with
      ⟨location, name, rfl⟩ | ⟨move, hm⟩
    · obtain ⟨outcome, hanswer, hbal, hafter⟩ :=
        hcall (config.state.moveTo location).place name (config.state.moveTo location)
          (hmove.room.trans hroom) hwords'
      cases outcome with
      | done state =>
        have hback : config.state.Balanced state := hmove.trans hbal
        obtain ⟨final, hfinal, hb, hw⟩ := nestedOutcome_ends hcall (config.advance state) hc hcode
          (hback.room.trans hroom) hafter
        rw [show (config.advance state).state.calls = config.state.calls from hback.calls] at hfinal
        exact ⟨final, nestedOutcome_of_call_done hi hanswer hfinal, hback.trans hb, hw⟩
      | failed fault state =>
        have hback : config.state.Balanced state := hmove.trans hbal
        refine ⟨.failed fault state, ?_, hback, hafter⟩
        rw [← Halt.unwind_balanced hc hback]
        exact nestedOutcome_of_call_failed hi hanswer
    · have hafter := Instruction.move_everyWord hm hwords' fun location name body he place =>
        fun l h => hcode l (.inside (he ▸ hmem) h)
      cases move with
      | ahead offset state =>
        have hback : config.state.Balanced state := hmove.trans (Instruction.move_balanced hm)
        have hprogress : 0 < offset ∨ state.stack.length < config.state.stack.length := by
          rw [← State.moveTo_stack config.state instruction.location]
          exact Instruction.move_progress hm fun location he => hcode location (.here (he ▸ hmem))
        obtain ⟨final, hfinal, hb, hw⟩ := nestedOutcome_ends hcall
          (config.goTo (config.position + offset) state) hc hcode (hback.room.trans hroom) hafter
        rw [show (config.goTo (config.position + offset) state).state.calls = config.state.calls
          from hback.calls] at hfinal
        exact ⟨final, nestedOutcome_of_ahead hi hm hfinal, hback.trans hb, hw⟩
      | fault fault state =>
        have hback : config.state.Balanced state := hmove.trans (Instruction.move_balanced hm)
        refine ⟨.failed fault state, ?_, hback, hafter⟩
        rw [← Halt.unwind_balanced hc hback]
        exact nestedOutcome_of_fault hi hm
termination_by (config.code.size - config.position, config.state.stack.length)
decreasing_by
  -- after a call, and after a move
  · apply Prod.Lex.left
    show config.code.size - (config.position + 1) < config.code.size - config.position
    omega
  · rcases Nat.eq_zero_or_pos offset with rfl | hpos
    · apply Prod.Lex.right
      exact hprogress.resolve_left (Nat.lt_irrefl 0)
    · apply Prod.Lex.left
      show config.code.size - (config.position + offset) < config.code.size - config.position
      omega

/-! ## Calls -/

/-- A called word comes to an end if bodies with less room for calls do. -/
theorem nestedCall_ends {location : Location} {name : String} {state : State HostWord}
    (hrun : ∀ (code : Code) (inner : State HostWord), inner.room < state.room → code.NeverIdles →
      inner.forest.EveryWord Word.NeverIdles →
      Ends (fun fuel => nestedRun hostRoutine fuel code inner) inner)
    (hwords : state.forest.EveryWord Word.NeverIdles) :
    Ends (fun fuel => nestedCall hostRoutine fuel location name state) state := by
  cases hb : state.beginCall location name with
  | error fault => exact ⟨_, nestedCall_of_error hb, .refl _, hwords⟩
  | ok opened =>
    obtain ⟨word, inner⟩ := opened
    obtain ⟨hl, hdepth, rfl⟩ := State.beginCall_ok hb
    have hword : word.NeverIdles := hwords.lookup hl
    unfold Word.NeverIdles at hword
    cases hw : word.body with
    | native native =>
      rw [hw] at hword
      obtain ⟨outcome, hp, hdata⟩ := HostWord.settles_of_demonstration hword
        (state.openCall ⟨name, location⟩)
      refine ⟨_, nestedCall_of_native hb hw ⟨0, fun fuel _ => hp _⟩, ?_, ?_⟩
      · exact State.Balanced.close ⟨hdata.calls, hdata.callLimit⟩ fun s => ⟨rfl, rfl⟩
      · rw [Outcome.state_mapState]
        show outcome.state.forest.EveryWord Word.NeverIdles
        rw [hdata.forest]
        exact hwords
    | scripted body =>
      rw [hw] at hword
      obtain ⟨outcome, hanswer, hbal, hafter⟩ := hrun body _
        (State.room_openCall hdepth) hword hwords
      refine ⟨_, nestedCall_of_scripted hb hw hanswer, hbal.close fun s => ⟨rfl, rfl⟩, ?_⟩
      rw [Outcome.state_mapState]
      exact hafter

theorem nestedRun_ends (room : Nat) :
    ∀ (code : Code) (state : State HostWord), state.room = room → code.NeverIdles →
      state.forest.EveryWord Word.NeverIdles →
      Ends (fun fuel => nestedRun hostRoutine fuel code state) state := by
  induction room using Nat.strongRecOn with
  | ind room ih =>
    intro code state hroom hcode hwords
    have hcall : ∀ location name (caller : State HostWord), caller.room = room →
        caller.forest.EveryWord Word.NeverIdles →
        Ends (fun fuel => nestedCall hostRoutine fuel location name caller) caller := by
      intro location name caller hr hw
      refine nestedCall_ends (fun body inner hless => ?_) hw
      exact ih inner.room (hr ▸ hless) body inner rfl
    obtain ⟨outcome, hanswer, hbal, hafter⟩ :=
      nestedOutcome_ends hcall (Config.start code state) rfl hcode hroom hwords
    exact ⟨outcome, nestedRun_of_nestedOutcome hanswer, hbal, hafter⟩

/-- **Running code comes to an end** if neither it nor any bound word idles. -/
theorem runCode_ends {code : Code} {state : State HostWord} (hcode : code.NeverIdles)
    (hwords : state.forest.EveryWord Word.NeverIdles) :
    Ends (fun fuel => runCode hostRoutine fuel code state) state := by
  obtain ⟨outcome, hanswer, hbal, hafter⟩ := nestedRun_ends state.room code state rfl hcode hwords
  exact ⟨outcome, runCode_of_nestedRun hanswer, hbal, hafter⟩

/-! ## Programs -/

/-- A launched program whose code never idles comes to an end. -/
theorem Program.launch_ends {program : Program} {surface : ScopeId} {state : State HostWord}
    (hcode : program.code.NeverIdles) (hwords : state.forest.EveryWord Word.NeverIdles) :
    ∃ outcome, Answers (fun fuel => program.launch hostRoutine fuel surface state) outcome := by
  let begun : State HostWord :=
    { state with
      stack := [], forest := state.forest.newChild surface, scope := state.forest.size
      location := none, calls := CallStack.empty }
  have hbegun : begun.forest.EveryWord Word.NeverIdles := hwords.newChild surface
  obtain ⟨outcome, hanswer, -⟩ := runCode_ends hcode hbegun
  exact ⟨outcome, hanswer⟩

end StackScript
