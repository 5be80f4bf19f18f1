import StackScript.Proofs.CallDiscipline
import StackScript.Proofs.Callers

/-!
# Calls as nested runs

The machine keeps suspended callers in a list and unwinds them all at once when something fails.  A
recursive evaluator needs no such list: it carries out a call by running the body of the word from
its first instruction to its end, and puts the scope back after it, level by level.  Both ways of
calling come to the same.

* `nestedExec`, `nestedRun`, `nestedCall`, `nestedBecome` — the recursive evaluator.  It does what the machine does,
  but makes every call through `nestedCall`, also the calls and runs that native words ask for.
* `exec_of_call_done`, `exec_of_call_failed` — in the machine itself, a call instruction does what a
  call by name does.
* `nestedRun_of_runCode`, `runCode_of_nestedRun` — every outcome of one evaluator is an outcome of
  the other.

Principal result: `runCode_agrees_nestedRun`.  It holds for all code and all native words, and for
success and failure at any depth.
-/

set_option autoImplicit false

namespace StackScript

variable {ν : Type}

mutual

/-- Step until the code has been carried out, making every call a nested run. -/
def nestedExec (host : Host ν) : Nat → Config ν → Option (Halt ν)
  | 0, _ => none
  | fuel + 1, config =>
    match config.code[config.position]? with
    | some (.execute location name) =>
      let state := config.state.moveTo location
      match nestedCall host fuel state.place name state with
      | none => none
      | some (.done state) => nestedExec host fuel (config.advance state)
      | some (.failed fault state) => some (.failed fault { config with state := state })
    | _ =>
      match config.step with
      | .next config => nestedExec host fuel config
      | .halt halt => some halt
      -- never happens: only a call leads to a native word
      | .native _ _ => none

def nestedRun (host : Host ν) : Nat → Code → State ν → Option (Outcome ν)
  | 0, _, _ => none
  | fuel + 1, code, state =>
    (nestedExec host fuel (Config.start code state)).map (Halt.unwind state.calls.depth)

/-- Call a word by name: open the call, run the body, put the scope back, close the call. -/
def nestedCall (host : Host ν) : Nat → Location → String → State ν → Option (Outcome ν)
  | 0, _, _, _ => none
  | fuel + 1, location, name, state =>
    match state.beginCall location name with
    | .error fault => some (.failed fault state)
    | .ok (word, inner) =>
      match word.body with
      | .native native =>
        ((host native).perform ⟨nestedRun host fuel, nestedCall host fuel, nestedBecome host fuel⟩
          inner).map (Outcome.mapState State.endCall)
      | .scripted body =>
        (nestedRun host fuel body inner).map (Outcome.mapState (State.returnTo state.scope))

/-- Carry out the routine of a native word that another one goes on as. -/
def nestedBecome (host : Host ν) : Nat → ν → State ν → Option (Outcome ν)
  | 0, _, _ => none
  | fuel + 1, native, state =>
    (host native).perform ⟨nestedRun host fuel, nestedCall host fuel, nestedBecome host fuel⟩ state

end

/-- The recursive evaluator as a native word enters it again, with so much fuel. -/
abbrev Host.nestedReentry (host : Host ν) (fuel : Nat) : Reentry ν :=
  ⟨nestedRun host fuel, nestedCall host fuel, nestedBecome host fuel⟩

/-! ## The rules of the recursive evaluator -/

section Rules

variable {host : Host ν} {config : Config ν}

theorem nestedExec_of_end (fuel : Nat) (hc : config.callers = [])
    (hi : config.code[config.position]? = none) :
    nestedExec host (fuel + 1) config = some (.finished config.state) := by
  simp only [nestedExec, hi, Config.step_of_end hi, Config.leave, hc]

theorem nestedExec_of_move (fuel : Nat) {instruction : Instruction} {move : Move ν}
    (hi : config.code[config.position]? = some instruction)
    (hm : instruction.move? (config.state.moveTo instruction.location) = some move) :
    nestedExec host (fuel + 1) config =
      match move with
      | .ahead offset state => nestedExec host fuel (config.goTo (config.position + offset) state)
      | .fault fault state => some (.failed fault { config with state := state }) := by
  have hs := Config.step_of_move hi hm
  have hne := Instruction.not_execute_of_move hm
  simp only [nestedExec, hi]
  split
  · rename_i location name he
    cases he
    exact absurd rfl (hne location name)
  · rw [hs]
    cases move <;> rfl

theorem nestedExec_of_execute (fuel : Nat) {location : Option Location} {name : String}
    (hi : config.code[config.position]? = some (.execute location name)) :
    nestedExec host (fuel + 1) config =
      match nestedCall host fuel (config.state.moveTo location).place name
          (config.state.moveTo location) with
      | none => none
      | some (.done state) => nestedExec host fuel (config.advance state)
      | some (.failed fault state) => some (.failed fault { config with state := state }) := by
  simp only [nestedExec, hi]

end Rules

/-! ## Unwinding -/

@[simp] theorem CallStack.truncate_push (item : CallItem) (calls : CallStack) :
    (calls.push item).truncate calls.depth = calls := by
  ext1
  simp only [truncate, depth_push, items_push, Nat.add_sub_cancel_left, List.drop_one,
    List.tail_cons]

/-- The scope that a failure puts back: that of the outermost suspended caller. -/
def Config.entryScope (config : Config ν) : ScopeId :=
  match config.callers.getLast? with
  | some outermost => outermost.scope
  | none => config.state.scope

/-- A failure above the calls of `base` is reported with exactly those calls left. -/
theorem Halt.unwind_failed {base : State ν} {fault : Fault} {config : Config ν}
    (h : (Halt.failed fault config).Over base) :
    (Halt.failed fault config).unwind base.calls.depth =
      .failed fault { config.state with scope := config.entryScope, calls := base.calls } := by
  have hc := h.unwind.calls
  simp only [Halt.unwind, Outcome.state] at hc ⊢
  rw [hc]
  rfl

/-- A failure inside a native word leaves its own call open, which unwinding closes. -/
theorem Halt.unwind_endCall {caller : Config ν} {final : State ν} {fault : Fault}
    {item : CallItem} (h : final.calls = caller.state.calls.push item) :
    (Halt.failed fault { caller with state := final }).unwind caller.state.calls.depth =
      (Halt.failed fault { caller with state := final.endCall }).unwind
        caller.state.calls.depth := by
  simp only [Halt.unwind, State.endCall, h, CallStack.pop_push, CallStack.truncate_push,
    CallStack.truncate_depth]

/-- A failure with no caller suspended and no further call open is reported as it is. -/
theorem Halt.unwind_balanced {config : Config ν} {state : State ν} {fault : Fault}
    (hc : config.callers = []) (h : config.state.Balanced state) :
    (Halt.failed fault { config with state := state }).unwind config.state.calls.depth =
      .failed fault state := by
  simp only [Halt.unwind, hc, List.getLast?_nil, ← h.calls, CallStack.truncate_depth]

/-- Entering a body is starting it above the caller. -/
theorem Config.enter_eq_under (config : Config ν) (body : Code) (state : State ν) :
    config.enter body state =
      (start body state).under (⟨config.code, config.position + 1, state.scope⟩ :: config.callers) :=
  rfl

/-- What a failure in a body means for whoever runs the caller: as if the call by name had failed. -/
theorem Halt.unwind_under {inner : State ν} {item : CallItem} {config caller : Config ν}
    {fault : Fault} {position : Nat} {scope : ScopeId} (hc : caller.callers = [])
    (hcalls : inner.calls = caller.state.calls.push item)
    (hlimit : inner.callLimit = caller.state.callLimit)
    (h : (Halt.failed fault config).Over inner) :
    (Halt.failed fault (config.under [⟨caller.code, position, scope⟩])).unwind
        caller.state.calls.depth =
      (Halt.failed fault { caller with state := ((Halt.failed fault config).unwind
        inner.calls.depth).state.returnTo scope }).unwind caller.state.calls.depth := by
  rw [Halt.unwind_failed h]
  obtain ⟨extra, hl, items, hn, hi⟩ := h
  have hover : (Halt.failed fault (config.under [⟨caller.code, position, scope⟩])).Over
      caller.state := by
    refine ⟨extra, hl.trans hlimit, items ++ [item], ?_, ?_⟩
    · rw [List.length_append, hn]
      simp only [Config.under, List.length_append, List.length_singleton]
      omega
    · show config.state.calls.items = items ++ [item] ++ caller.state.calls.items
      rw [hi, hcalls, List.append_assoc]
      rfl
  rw [Halt.unwind_failed hover]
  simp only [Halt.unwind, hc, Config.under, Config.entryScope, List.getLast?_append,
    List.getLast?_nil, State.returnTo, Outcome.state, hcalls, CallStack.pop_push,
    CallStack.truncate_depth]
  rfl

/-! ## In the machine, a call instruction does what a call by name does -/

section Calls

variable {host : Host ν} {config : Config ν} {location : Option Location} {name : String}

/-- After a call by name that succeeds the machine goes on behind the call instruction. -/
theorem exec_of_call_done (hi : config.code[config.position]? = some (.execute location name))
    {fuel rest : Nat} {state : State ν} {halt : Halt ν}
    (hcall : callWord host fuel (config.state.moveTo location).place name
      (config.state.moveTo location) = some (.done state))
    (hrest : exec host rest (config.advance state) = some halt) :
    exec host (fuel + rest) config = some halt := by
  cases fuel with
  | zero => cases hcall
  | succ fuel =>
    rw [callWord] at hcall
    rw [Nat.succ_add, exec, Config.step_of_execute hi]
    cases hb : (config.state.moveTo location).beginCall (config.state.moveTo location).place name with
    | error fault => simp only [hb] at hcall; cases hcall
    | ok opened =>
      obtain ⟨word, inner⟩ := opened
      obtain ⟨-, -, hinner⟩ := State.beginCall_ok hb
      simp only [hb] at hcall
      simp only [Config.call, hb]
      cases hw : word.body with
      | native native =>
        simp only [hw] at hcall ⊢
        obtain ⟨outcome, ho, hmap⟩ := Option.map_eq_some_iff.1 hcall
        cases outcome with
        | failed fault final => cases hmap
        | done final =>
          cases hmap
          rw [Routine.perform_of_extends
            (reentry_extends_of_le host (Nat.le_add_right fuel rest)) _ _ _ ho]
          exact exec_of_le (Nat.le_add_left rest fuel) hrest
      | scripted body =>
        simp only [hw] at hcall ⊢
        obtain ⟨outcome, ho, hmap⟩ := Option.map_eq_some_iff.1 hcall
        cases fuel with
        | zero => cases ho
        | succ fuel =>
          rw [runCode] at ho
          obtain ⟨stop, hstop, rfl⟩ := Option.map_eq_some_iff.1 ho
          cases stop with
          | failed fault final => cases hmap
          | finished final =>
            cases hmap
            rw [Config.enter_eq_under]
            have hresume : exec host rest (Config.resume
                ⟨config.code, config.position + 1, inner.scope⟩ config.callers final) =
                some halt := by
              rw [← hrest, hinner]
              rfl
            have h := exec_under_of_finished hresume fuel _ hstop
            exact exec_of_le (by omega) h

/-- After a call by name that fails the machine fails at the call instruction. -/
theorem exec_of_call_failed (hc : config.callers = [])
    (hi : config.code[config.position]? = some (.execute location name))
    {fuel : Nat} {fault : Fault} {state : State ν}
    (hcall : callWord host fuel (config.state.moveTo location).place name
      (config.state.moveTo location) = some (.failed fault state)) :
    ∃ stop, exec host fuel config = some stop ∧
      stop.unwind config.state.calls.depth =
        (Halt.failed fault { config with state := state }).unwind config.state.calls.depth := by
  cases fuel with
  | zero => cases hcall
  | succ fuel =>
    rw [callWord] at hcall
    rw [exec, Config.step_of_execute hi]
    cases hb : (config.state.moveTo location).beginCall (config.state.moveTo location).place name with
    | error fault' =>
      simp only [hb] at hcall
      cases hcall
      simp only [Config.call, hb]
      exact ⟨_, rfl, rfl⟩
    | ok opened =>
      obtain ⟨word, inner⟩ := opened
      obtain ⟨hcalls, hlimit, hscope⟩ := State.opened_of_beginCall hb
      simp only [hb] at hcall
      simp only [Config.call, hb]
      cases hw : word.body with
      | native native =>
        simp only [hw] at hcall ⊢
        obtain ⟨outcome, ho, hmap⟩ := Option.map_eq_some_iff.1 hcall
        cases outcome with
        | done final => cases hmap
        | failed fault' final =>
          cases hmap
          rw [ho]
          refine ⟨_, rfl, ?_⟩
          have hf : final.calls = inner.calls := (Routine.perform_machine_balanced ho).calls
          exact Halt.unwind_endCall (hf.trans hcalls)
      | scripted body =>
        simp only [hw] at hcall ⊢
        obtain ⟨outcome, ho, hmap⟩ := Option.map_eq_some_iff.1 hcall
        cases fuel with
        | zero => cases ho
        | succ fuel =>
          rw [runCode] at ho
          obtain ⟨stop, hstop, rfl⟩ := Option.map_eq_some_iff.1 ho
          cases stop with
          | finished final => cases hmap
          | failed fault' final =>
            cases hmap
            have he : config.enter body inner =
                (Config.start body inner).under [⟨config.code, config.position + 1, inner.scope⟩] := by
              rw [Config.enter_eq_under, hc]
            rw [he]
            refine ⟨_, exec_of_le (Nat.le_succ fuel) (exec_under_of_failed _ fuel _ hstop), ?_⟩
            have hover := exec_over (Config.over_start body inner) hstop
            rw [hscope]
            exact Halt.unwind_under hc hcalls hlimit hover

end Calls

/-! ## The two evaluators -/

/-- What nested stepping means for whoever started with `depth` calls in progress. -/
def nestedOutcome (host : Host ν) (depth fuel : Nat) (config : Config ν) : Option (Outcome ν) :=
  (nestedExec host fuel config).map (Halt.unwind depth)

section Answers

variable {host : Host ν} {config : Config ν} {depth : Nat} {outcome : Outcome ν}

theorem nestedOutcome_of_end (hc : config.callers = [])
    (hi : config.code[config.position]? = none) :
    Answers (fun fuel => nestedOutcome host depth fuel config) (.done config.state) := by
  refine (Answers.const (Outcome.done config.state)).succ fun fuel _ => ?_
  rw [nestedOutcome, nestedExec_of_end fuel hc hi]
  rfl

theorem nestedOutcome_of_ahead {instruction : Instruction} {offset : Nat} {state : State ν}
    (hi : config.code[config.position]? = some instruction)
    (hm : instruction.move? (config.state.moveTo instruction.location) =
      some (.ahead offset state))
    (h : Answers (fun fuel => nestedOutcome host depth fuel
      (config.goTo (config.position + offset) state)) outcome) :
    Answers (fun fuel => nestedOutcome host depth fuel config) outcome := by
  refine h.succ fun fuel hf => ?_
  rw [nestedOutcome, nestedExec_of_move fuel hi hm]
  exact hf

theorem nestedOutcome_of_fault {instruction : Instruction} {fault : Fault} {state : State ν}
    (hi : config.code[config.position]? = some instruction)
    (hm : instruction.move? (config.state.moveTo instruction.location) =
      some (.fault fault state)) :
    Answers (fun fuel => nestedOutcome host depth fuel config)
      ((Halt.failed fault { config with state := state }).unwind depth) := by
  refine (Answers.const _).succ fun fuel _ => ?_
  rw [nestedOutcome, nestedExec_of_move fuel hi hm]
  rfl

theorem nestedOutcome_of_call_done {location : Option Location} {name : String} {state : State ν}
    (hi : config.code[config.position]? = some (.execute location name))
    (hcall : Answers (fun fuel => nestedCall host fuel (config.state.moveTo location).place name
      (config.state.moveTo location)) (.done state))
    (h : Answers (fun fuel => nestedOutcome host depth fuel (config.advance state)) outcome) :
    Answers (fun fuel => nestedOutcome host depth fuel config) outcome := by
  refine (hcall.both h fun fuel hc hf => ?_).succ fun fuel hf => hf
  rw [nestedOutcome, nestedExec_of_execute fuel hi, hc]
  exact hf

theorem nestedOutcome_of_call_failed {location : Option Location} {name : String} {fault : Fault}
    {state : State ν} (hi : config.code[config.position]? = some (.execute location name))
    (hcall : Answers (fun fuel => nestedCall host fuel (config.state.moveTo location).place name
      (config.state.moveTo location)) (.failed fault state)) :
    Answers (fun fuel => nestedOutcome host depth fuel config)
      ((Halt.failed fault { config with state := state }).unwind depth) := by
  refine (hcall.both (Answers.const _) fun fuel hc _ => ?_).succ fun fuel hf => hf
  rw [nestedOutcome, nestedExec_of_execute fuel hi, hc]
  rfl

theorem nestedRun_of_nestedOutcome {code : Code} {state : State ν}
    (h : Answers (fun fuel => nestedOutcome host state.calls.depth fuel (Config.start code state))
      outcome) : Answers (fun fuel => nestedRun host fuel code state) outcome :=
  h.succ fun _ hf => hf

section Call

variable {location : Location} {name : String} {state inner : State ν} {word : Word ν}

theorem nestedCall_of_error {fault : Fault}
    (hb : state.beginCall location name = .error fault) :
    Answers (fun fuel => nestedCall host fuel location name state) (.failed fault state) := by
  refine (Answers.const _).succ fun fuel _ => ?_
  rw [nestedCall, hb]

theorem nestedCall_of_native {native : ν} (hb : state.beginCall location name = .ok (word, inner))
    (hw : word.body = .native native)
    (h : Answers (fun fuel => (host native).perform (host.nestedReentry fuel) inner) outcome) :
    Answers (fun fuel => nestedCall host fuel location name state)
      (outcome.mapState State.endCall) := by
  refine (h.map (Outcome.mapState State.endCall)).succ fun fuel hf => ?_
  rw [nestedCall, hb]
  simp only [hw]
  exact hf

theorem nestedCall_of_scripted {body : Code} (hb : state.beginCall location name = .ok (word, inner))
    (hw : word.body = .scripted body)
    (h : Answers (fun fuel => nestedRun host fuel body inner) outcome) :
    Answers (fun fuel => nestedCall host fuel location name state)
      (outcome.mapState (State.returnTo state.scope)) := by
  refine (h.map (Outcome.mapState (State.returnTo state.scope))).succ fun fuel hf => ?_
  rw [nestedCall, hb]
  simp only [hw]
  exact hf

end Call

end Answers

/-! ### From the machine to the recursive evaluator -/

/-- Every answer of the machine with this fuel is an answer of the recursive evaluator. -/
structure NestedFollows (host : Host ν) (fuel : Nat) : Prop
    extends Reentry.Answered (host.reentry fuel) host.nestedReentry where
  exec : ∀ (config : Config ν) halt, config.callers = [] → exec host fuel config = some halt →
    Answers (fun n => nestedOutcome host config.state.calls.depth n config)
      (halt.unwind config.state.calls.depth)

namespace NestedFollows

variable {host : Host ν} {fuel : Nat} {config : Config ν} {halt : Halt ν}

/-- The machine goes on in the same code with the same calls in progress. -/
theorem goTo (ih : NestedFollows host fuel) (hc : config.callers = []) {position : Nat}
    {state : State ν} (hs : state.calls = config.state.calls)
    (h : StackScript.exec host fuel (config.goTo position state) = some halt) :
    Answers (fun n => nestedOutcome host config.state.calls.depth n (config.goTo position state))
      (halt.unwind config.state.calls.depth) := by
  have hrest := ih.exec (config.goTo position state) halt hc h
  rw [show (config.goTo position state).state.calls = config.state.calls from hs] at hrest
  exact hrest

section Call

variable {location : Option Location} {name : String} {word : Word ν} {inner : State ν}

theorem native (ih : NestedFollows host fuel) (hc : config.callers = [])
    (hi : config.code[config.position]? = some (.execute location name))
    (hb : (config.state.moveTo location).beginCall (config.state.moveTo location).place name =
      .ok (word, inner)) {native : ν} (hw : word.body = .native native)
    (h : StackScript.exec host (fuel + 1) config = some halt) :
    Answers (fun n => nestedOutcome host config.state.calls.depth n config)
      (halt.unwind config.state.calls.depth) := by
  obtain ⟨hcalls, -, -⟩ := State.opened_of_beginCall hb
  rw [StackScript.exec, Config.step_of_execute hi] at h
  simp only [Config.call, hb, hw] at h
  cases hp : (host native).perform (host.reentry fuel) inner with
  | none => simp only [hp] at h; cases h
  | some outcome =>
    have hnested := nestedCall_of_native hb hw (Routine.perform_answers ih.toAnswered _ _ _ hp)
    have hbal := Routine.perform_machine_balanced hp
    cases outcome with
    | done final =>
      simp only [hp] at h
      have hback : final.endCall.calls = config.state.calls := by
        show final.calls.pop = config.state.calls
        rw [show final.calls = inner.calls from hbal.calls, hcalls, CallStack.pop_push]
      exact nestedOutcome_of_call_done hi hnested (ih.goTo hc hback h)
    | failed fault final =>
      simp only [hp] at h
      cases h
      have hfinal : final.calls = inner.calls := hbal.calls
      rw [Halt.unwind_endCall (hfinal.trans hcalls)]
      exact nestedOutcome_of_call_failed hi hnested

/-- A scripted word has been called: the machine goes on in its body, above the caller. -/
theorem scripted (ih : NestedFollows host fuel) (hc : config.callers = [])
    (hi : config.code[config.position]? = some (.execute location name))
    (hb : (config.state.moveTo location).beginCall (config.state.moveTo location).place name =
      .ok (word, inner)) {body : Code} (hw : word.body = .scripted body)
    (h : StackScript.exec host (fuel + 1) config = some halt) :
    Answers (fun n => nestedOutcome host config.state.calls.depth n config)
      (halt.unwind config.state.calls.depth) := by
  obtain ⟨hcalls, hlimit, hscope⟩ := State.opened_of_beginCall hb
  rw [StackScript.exec, Config.step_of_execute hi] at h
  simp only [Config.call, hb, hw] at h
  rw [Config.enter_eq_under, hc] at h
  -- the body fails above the caller, or it ends with less fuel and the caller resumes
  rcases exec_under_cases fuel _ h with ⟨fault, final, hbody, rfl⟩ |
    ⟨final, rest, hbody, hlt, hresume⟩
  · have hover := exec_over (Config.over_start body inner) hbody
    have hnested := nestedCall_of_scripted hb hw
      (nestedRun_of_nestedOutcome (ih.exec _ _ rfl hbody))
    rw [hscope, Halt.unwind_under hc hcalls hlimit hover]
    exact nestedOutcome_of_call_failed hi hnested
  · have hnested := nestedCall_of_scripted hb hw
      (nestedRun_of_nestedOutcome (ih.exec _ _ rfl hbody))
    have hfinal : final.calls = inner.calls :=
      (exec_over (Config.over_start body inner) hbody).calls
    have hback : final.calls.pop = config.state.calls := by
      rw [hfinal, hcalls, CallStack.pop_push]
    have hadvance : config.advance (final.returnTo (config.state.moveTo location).scope) =
        Config.resume ⟨config.code, config.position + 1, inner.scope⟩ [] final := by
      rw [hscope]
      simp only [Config.advance, Config.goTo, Config.resume, hc]
    rw [← hadvance] at hresume
    exact nestedOutcome_of_call_done hi hnested
      (ih.goTo hc hback (exec_of_le (Nat.le_of_lt hlt) hresume))

end Call

/-- One step more: a run of the machine that is not above any caller. -/
theorem exec_succ (ih : NestedFollows host fuel) (hc : config.callers = [])
    (h : StackScript.exec host (fuel + 1) config = some halt) :
    Answers (fun n => nestedOutcome host config.state.calls.depth n config)
      (halt.unwind config.state.calls.depth) := by
  cases hi : config.code[config.position]? with
  | none =>
    rw [StackScript.exec, Config.step_of_end hi] at h
    simp only [Config.leave, hc] at h
    cases h
    exact nestedOutcome_of_end hc hi
  | some instruction =>
    rcases instruction.execute_or_move (config.state.moveTo instruction.location) with
      ⟨location, name, rfl⟩ | ⟨move, hm⟩
    · cases hb : (config.state.moveTo location).beginCall (config.state.moveTo location).place
          name with
      | error fault =>
        rw [StackScript.exec, Config.step_of_execute hi] at h
        simp only [Config.call, hb] at h
        cases h
        exact nestedOutcome_of_call_failed hi (nestedCall_of_error hb)
      | ok opened =>
        obtain ⟨word, inner⟩ := opened
        cases hw : word.body with
        | native native => exact ih.native hc hi hb hw h
        | scripted body => exact ih.scripted hc hi hb hw h
    · rw [StackScript.exec, Config.step_of_move hi hm] at h
      have hbal := (State.Balanced.moveTo config.state instruction.location).trans
        (Instruction.move_balanced hm)
      cases move with
      | ahead offset state => exact nestedOutcome_of_ahead hi hm (ih.goTo hc hbal.calls h)
      | fault fault state =>
        cases h
        exact nestedOutcome_of_fault hi hm

end NestedFollows

/-- Every answer of the machine is an answer of the recursive evaluator.  The induction is on the
fuel of the machine: the body of a called word, and what follows the call, both take less. -/
theorem nestedFollows (host : Host ν) (fuel : Nat) : NestedFollows host fuel := by
  induction fuel with
  | zero => exact ⟨⟨by simp [runCode], by simp [callWord], by simp [becomeNative]⟩, by simp [exec]⟩
  | succ fuel ih =>
    refine ⟨⟨?_, ?_, ?_⟩, fun config halt hc h => ih.exec_succ hc h⟩
    · intro code state outcome (h : runCode host (fuel + 1) code state = some outcome)
      rw [runCode] at h
      obtain ⟨halt, hh, rfl⟩ := Option.map_eq_some_iff.1 h
      exact nestedRun_of_nestedOutcome (ih.exec _ halt rfl hh)
    · intro location name state outcome (h : callWord host (fuel + 1) location name state = some outcome)
      rw [callWord] at h
      split at h
      · rename_i fault hb
        cases h
        exact nestedCall_of_error hb
      · rename_i word inner hb
        split at h
        · rename_i native hw
          obtain ⟨o, ho, rfl⟩ := Option.map_eq_some_iff.1 h
          exact nestedCall_of_native hb hw (Routine.perform_answers ih.toAnswered _ _ _ ho)
        · rename_i body hw
          obtain ⟨o, ho, rfl⟩ := Option.map_eq_some_iff.1 h
          exact nestedCall_of_scripted hb hw (ih.run _ _ _ ho)
    · intro native state outcome h
      exact (Routine.perform_answers ih.toAnswered _ _ _ h).succ fun n hn => hn

/-! ### From the recursive evaluator to the machine -/

/-- Every answer of the recursive evaluator with this fuel is an answer of the machine.  Where the
two stop may differ; what the stop means to whoever started the code is the same. -/
structure MachineFollows (host : Host ν) (fuel : Nat) : Prop
    extends Reentry.Answered (host.nestedReentry fuel) host.reentry where
  exec : ∀ (config : Config ν) halt, config.callers = [] →
    nestedExec host fuel config = some halt →
    ∃ stop, Answers (fun n => exec host n config) stop ∧
      stop.unwind config.state.calls.depth = halt.unwind config.state.calls.depth

namespace MachineFollows

variable {host : Host ν} {fuel : Nat} {config : Config ν} {halt : Halt ν}

/-- The recursive evaluator goes on in the same code with the same calls in progress. -/
theorem goTo (ih : MachineFollows host fuel) (hc : config.callers = []) {position : Nat}
    {state : State ν} (hs : state.calls = config.state.calls)
    (h : nestedExec host fuel (config.goTo position state) = some halt) :
    ∃ stop, Answers (fun n => StackScript.exec host n (config.goTo position state)) stop ∧
      stop.unwind config.state.calls.depth = halt.unwind config.state.calls.depth := by
  have hrest := ih.exec (config.goTo position state) halt hc h
  rw [show (config.goTo position state).state.calls = config.state.calls from hs] at hrest
  exact hrest

theorem exec_succ (ih : MachineFollows host fuel) (hc : config.callers = [])
    (h : nestedExec host (fuel + 1) config = some halt) :
    ∃ stop, Answers (fun n => StackScript.exec host n config) stop ∧
      stop.unwind config.state.calls.depth = halt.unwind config.state.calls.depth := by
  cases hi : config.code[config.position]? with
  | none =>
    rw [nestedExec_of_end fuel hc hi] at h
    cases h
    refine ⟨.finished config.state, (Answers.const _).succ fun n _ => ?_, rfl⟩
    rw [StackScript.exec, Config.step_of_end hi]
    simp only [Config.leave, hc]
  | some instruction =>
    have hmove := State.Balanced.moveTo config.state instruction.location
    rcases instruction.execute_or_move (config.state.moveTo instruction.location) with
      ⟨location, name, rfl⟩ | ⟨move, hm⟩
    · rw [nestedExec_of_execute fuel hi] at h
      split at h
      · cases h
      · rename_i state hcall
        obtain ⟨n, hn⟩ := ih.call _ _ _ _ hcall
        have hback : state.calls = config.state.calls :=
          (callWord_balanced (hn n (Nat.le_refl n))).calls.trans hmove.calls
        obtain ⟨stop, ⟨m, hstop⟩, hu⟩ := ih.goTo hc hback h
        exact ⟨stop, exec_answers
          (exec_of_call_done hi (hn n (Nat.le_refl n)) (hstop m (Nat.le_refl m))), hu⟩
      · rename_i fault state hcall
        cases h
        obtain ⟨n, hn⟩ := ih.call _ _ _ _ hcall
        obtain ⟨stop, hstop, hu⟩ := exec_of_call_failed hc hi (hn n (Nat.le_refl n))
        exact ⟨stop, exec_answers hstop, hu⟩
    · rw [nestedExec_of_move fuel hi hm] at h
      have hbal := hmove.trans (Instruction.move_balanced hm)
      cases move with
      | ahead offset state =>
        obtain ⟨stop, hstop, hu⟩ := ih.goTo hc hbal.calls h
        refine ⟨stop, hstop.succ fun n hn => ?_, hu⟩
        rw [StackScript.exec, Config.step_of_move hi hm]
        exact hn
      | fault fault state =>
        cases h
        refine ⟨.failed fault { config with state := state },
          (Answers.const _).succ fun n _ => ?_, rfl⟩
        rw [StackScript.exec, Config.step_of_move hi hm]
        rfl

end MachineFollows

/-- Every answer of the recursive evaluator is an answer of the machine.  The induction is on the
fuel of the recursive evaluator. -/
theorem machineFollows (host : Host ν) (fuel : Nat) : MachineFollows host fuel := by
  induction fuel with
  | zero =>
    exact ⟨⟨by simp [nestedRun], by simp [nestedCall], by simp [nestedBecome]⟩, by simp [nestedExec]⟩
  | succ fuel ih =>
    refine ⟨⟨?_, ?_, ?_⟩, fun config halt hc h => ih.exec_succ hc h⟩
    · intro code state outcome (h : nestedRun host (fuel + 1) code state = some outcome)
      rw [nestedRun] at h
      obtain ⟨halt, hh, rfl⟩ := Option.map_eq_some_iff.1 h
      obtain ⟨stop, hstop, hu⟩ := ih.exec _ halt rfl hh
      have hu' : stop.unwind state.calls.depth = halt.unwind state.calls.depth := hu
      rw [← hu']
      exact (hstop.map (Halt.unwind state.calls.depth)).succ fun n hn => hn
    · intro location name state outcome (h : nestedCall host (fuel + 1) location name state = some outcome)
      show Answers (fun n => callWord host n location name state) outcome
      rw [nestedCall] at h
      split at h
      · rename_i fault hb
        cases h
        refine (Answers.const _).succ fun n _ => ?_
        rw [callWord, hb]
      · rename_i word inner hb
        split at h
        · rename_i native hw
          obtain ⟨o, ho, rfl⟩ := Option.map_eq_some_iff.1 h
          have hp : Answers (fun n => (host native).perform (host.reentry n) inner) o :=
            Routine.perform_answers ih.toAnswered _ _ _ ho
          refine (hp.map (Outcome.mapState State.endCall)).succ fun n hn => ?_
          rw [callWord, hb]
          simp only [hw]
          exact hn
        · rename_i body hw
          obtain ⟨o, ho, rfl⟩ := Option.map_eq_some_iff.1 h
          refine ((ih.run _ _ _ ho).map (Outcome.mapState (State.returnTo state.scope))).succ
            fun n hn => ?_
          rw [callWord, hb]
          simp only [hw]
          exact hn
    · intro native state outcome h
      exact (Routine.perform_answers ih.toAnswered _ _ _ h).succ fun n hn => hn

/-! ## Agreement -/

theorem nestedRun_of_runCode {host : Host ν} {fuel : Nat} {code : Code} {state : State ν}
    {outcome : Outcome ν} (h : runCode host fuel code state = some outcome) :
    Answers (fun n => nestedRun host n code state) outcome :=
  (nestedFollows host fuel).run code state outcome h

theorem runCode_of_nestedRun {host : Host ν} {code : Code} {state : State ν}
    {outcome : Outcome ν} (h : Answers (fun n => nestedRun host n code state) outcome) :
    Answers (fun n => runCode host n code state) outcome := by
  obtain ⟨fuel, hf⟩ := h
  exact (machineFollows host fuel).run code state outcome (hf fuel (Nat.le_refl fuel))

/-- **The two ways of calling agree.**  The machine with its list of suspended callers and the
recursive evaluator both go on forever, or both come to the same outcome: the same success or fault,
in the same state.  So do a call by name in the one and in the other. -/
theorem runCode_agrees_nestedRun (host : Host ν) (state : State ν) :
    (∀ code, Agree (fun fuel => runCode host fuel code state)
      (fun fuel => nestedRun host fuel code state)) ∧
    (∀ location name, Agree (fun fuel => callWord host fuel location name state)
      (fun fuel => nestedCall host fuel location name state)) := by
  refine ⟨fun code => agree_of_answers ?_ ?_, fun location name => agree_of_answers ?_ ?_⟩
  · intro fuel outcome h
    exact ⟨runCode_answers h, nestedRun_of_runCode h⟩
  · intro fuel outcome h
    exact (machineFollows host fuel).run code state outcome h
  · intro fuel outcome h
    exact ⟨callWord_answers h, (nestedFollows host fuel).call location name state outcome h⟩
  · intro fuel outcome h
    exact (machineFollows host fuel).call location name state outcome h

end StackScript
