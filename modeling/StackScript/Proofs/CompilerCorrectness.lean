import StackScript.Proofs.Meaning
import StackScript.Proofs.Nested

/-!
# Compiled code does what the script means

* `CodeAt` — some code stands inside a longer one.
* `Code.Yields` — wherever the code stands, carrying it out leads to an outcome: behind its last
  instruction in a new state, or to a failure.  Code that yields can be put together
  (`Code.Yields.append`), and there is one lemma for each layout that the compiler uses.
* `Evaluates.simulated` — every evaluation of tokens is followed by their code; by induction on the
  evaluation.

Principal result: `runCode_agrees_evaluates` — running compiled code has the one outcome that the
script has.
-/

set_option autoImplicit false

namespace StackScript

variable {ν : Type}

/-! ## Code inside longer code -/

/-- The code stands in a longer one, from `position` on. -/
def CodeAt (full : Array Instruction) : Nat → Code → Prop
  | _, [] => True
  | position, instruction :: code =>
    full[position]? = some instruction ∧ CodeAt full (position + 1) code

theorem codeAt_append {full : Array Instruction} {more : Code} :
    ∀ {code : Code} {position : Nat}, CodeAt full position (code ++ more) ↔
      CodeAt full position code ∧ CodeAt full (position + code.length) more
  | [], position => by simp [CodeAt]
  | instruction :: code, position => by
    rw [List.cons_append, CodeAt, CodeAt, codeAt_append, and_assoc, List.length_cons,
      Nat.add_right_comm, Nat.add_assoc]

theorem codeAt_behind :
    ∀ (before code : Code), CodeAt (before ++ code).toArray before.length code
  | _, [] => trivial
  | before, instruction :: code => by
    have h := codeAt_behind (before ++ [instruction]) code
    rw [List.append_assoc, List.length_append] at h
    exact ⟨by simp, h⟩

theorem codeAt_start (code : Code) : CodeAt code.toArray 0 code := codeAt_behind [] code

/-! ## Code that yields an outcome -/

/-- Carrying out `full` from `position` on has the outcomes that it has from `position'` on. -/
def Reaches (host : Host ν) (full : Array Instruction) (position : Nat) (state : State ν)
    (position' : Nat) (state' : State ν) : Prop :=
  ∀ depth result,
    Answers (fun fuel => nestedOutcome host depth fuel ⟨full, position', [], state'⟩) result →
    Answers (fun fuel => nestedOutcome host depth fuel ⟨full, position, [], state⟩) result

/-- Carrying out `full` from `position` on fails. -/
def Breaks (host : Host ν) (full : Array Instruction) (position : Nat) (state : State ν)
    (fault : Fault) (final : State ν) : Prop :=
  ∀ depth, Answers (fun fuel => nestedOutcome host depth fuel ⟨full, position, [], state⟩)
    ((Halt.failed fault ⟨full, position, [], final⟩).unwind depth)

/-- Wherever the code stands, it leads behind its last instruction, or it fails. -/
def Code.Yields (host : Host ν) (code : Code) (state : State ν) (outcome : Outcome ν) : Prop :=
  ∀ full position, CodeAt full position code →
    match outcome with
    | .done final => Reaches host full position state (position + code.length) final
    | .failed fault final => Breaks host full position state fault final

section Yields

variable {host : Host ν} {state middle : State ν} {outcome : Outcome ν}

theorem Reaches.trans {full : Array Instruction} {p q r : Nat} {a b c : State ν}
    (h : Reaches host full p a q b) (h' : Reaches host full q b r c) : Reaches host full p a r c :=
  fun depth result ha => h depth result (h' depth result ha)

theorem Reaches.breaks {full : Array Instruction} {p q : Nat} {a b final : State ν} {fault : Fault}
    (h : Reaches host full p a q b) (h' : Breaks host full q b fault final) :
    Breaks host full p a fault final :=
  fun depth => h depth _ (h' depth)

theorem reaches_of_ahead {full : Array Instruction} {position offset : Nat} {next : State ν}
    {instruction : Instruction} (hi : full[position]? = some instruction)
    (hm : instruction.move? (state.moveTo instruction.location) = some (.ahead offset next)) :
    Reaches host full position state (position + offset) next :=
  fun _ _ ha => nestedOutcome_of_ahead hi hm ha

namespace Code

theorem yields_nil : Yields host [] state (.done state) := fun _ _ _ _ _ ha => ha

theorem Yields.append {first more : Code} (h : Yields host first state (.done middle))
    (h' : Yields host more middle outcome) : Yields host (first ++ more) state outcome := by
  intro full position hat
  obtain ⟨hfirst, hmore⟩ := codeAt_append.1 hat
  have hreach : Reaches host full position state (position + first.length) middle :=
    h full position hfirst
  have hrest := h' full (position + first.length) hmore
  cases outcome with
  | done final =>
    rw [List.length_append, ← Nat.add_assoc]
    exact hreach.trans hrest
  | failed fault final => exact hreach.breaks hrest

theorem Yields.append_failed {first : Code} {fault : Fault} {final : State ν}
    (h : Yields host first state (.failed fault final)) (more : Code) :
    Yields host (first ++ more) state (.failed fault final) := by
  intro full position hat
  exact h full position (codeAt_append.1 hat).1

theorem yields_of_move {instruction : Instruction}
    (hm : instruction.move? (state.moveTo instruction.location) = some outcome.move) :
    Yields host [instruction] state outcome := by
  intro full position hat
  cases outcome with
  | done final => exact reaches_of_ahead hat.1 hm
  | failed fault final => exact fun depth => nestedOutcome_of_fault hat.1 hm

theorem yields_of_call {location : Option Location} {name : String}
    (hcall : Answers (fun fuel => nestedCall host fuel (state.moveTo location).place name
      (state.moveTo location)) outcome) :
    Yields host [.execute location name] state outcome := by
  intro full position hat
  cases outcome with
  | done final => exact fun depth result ha => nestedOutcome_of_call_done hat.1 hcall ha
  | failed fault final => exact fun depth => nestedOutcome_of_call_failed hat.1 hcall

/-! ### The layout of a conditional -/

section Conditional

variable {l l' : Location} {whenTrue whenFalse : Code} {value : Value} {stack : List Value}

theorem yields_conditional_missing (hs : state.stack = []) :
    Yields host (conditional l l' whenTrue whenFalse) state
      ((state.moveTo (some l)).fail .stackUnderflow) := by
  have htest : Yields host [.jumpIfFalse (some l) (whenTrue.length + 2)] state
      ((state.moveTo (some l)).fail .stackUnderflow) := by
    refine yields_of_move ?_
    simp only [Instruction.move?, Instruction.location, State.moveTo_stack, hs]
  exact htest.append_failed _

/-- A true condition leads into the first branch, and the jump behind it over the second. -/
theorem yields_conditional_true (hs : state.stack = value :: stack) (ht : value.isTruthy = true)
    (h : Yields host whenTrue ((state.moveTo (some l)).withStack stack) outcome) :
    Yields host (conditional l l' whenTrue whenFalse) state (outcome.reach l') := by
  have htest : Yields host [.jumpIfFalse (some l) (whenTrue.length + 2)] state
      (.done ((state.moveTo (some l)).withStack stack)) := by
    refine yields_of_move ?_
    simp only [Instruction.move?, Instruction.location, State.moveTo_stack, hs, ht, if_true,
      Outcome.move, State.withStack]
  have hbranch := htest.append h
  cases outcome with
  | failed fault final => exact hbranch.append_failed _
  | done final =>
    have hjump : Yields host (.jump (some l') (whenFalse.length + 1) :: whenFalse) final
        (.done (final.moveTo (some l'))) := fun full position hat => reaches_of_ahead hat.1 rfl
    exact hbranch.append hjump

/-- A false condition leads over the first branch and the jump behind it. -/
theorem yields_conditional_false (hs : state.stack = value :: stack) (ht : value.isTruthy = false)
    (h : Yields host whenFalse ((state.moveTo (some l)).withStack stack) outcome) :
    Yields host (conditional l l' whenTrue whenFalse) state outcome := by
  intro full position hat
  obtain ⟨hfirst, hsecond⟩ := codeAt_append.1 hat
  have hjump : Reaches host full position state (position + (whenTrue.length + 2))
      ((state.moveTo (some l)).withStack stack) := by
    refine reaches_of_ahead hfirst.1 ?_
    simp only [Instruction.move?, Instruction.location, State.moveTo_stack, hs, ht,
      Bool.false_eq_true, if_false, State.withStack]
  have hbranch := h full (position + (whenTrue.length + 2)) hsecond.2
  cases outcome with
  | failed fault final => exact hjump.breaks hbranch
  | done final =>
    have hend : position + (conditional l l' whenTrue whenFalse).length =
        position + (whenTrue.length + 2) + whenFalse.length := by
      simp only [conditional, List.length_append, List.length_cons]
      omega
    rw [hend]
    exact hjump.trans hbranch

end Conditional

end Code

end Yields

/-- Code that yields an outcome from its first instruction on has it when it is run. -/
theorem Code.Yields.run {host : Host ν} {code : Code} {state : State ν} {outcome : Outcome ν}
    (h : code.Yields host state outcome) (hb : state.Balanced outcome.state) :
    Answers (fun fuel => nestedRun host fuel code state) outcome := by
  refine nestedRun_of_nestedOutcome ?_
  have hstart := h code.toArray 0 (codeAt_start code)
  cases outcome with
  | done final =>
    refine hstart state.calls.depth _ (nestedOutcome_of_end rfl ?_)
    simp
  | failed fault final =>
    have hflat : (Halt.failed fault { Config.start code state with state := final }).unwind
        state.calls.depth = .failed fault final := Halt.unwind_balanced rfl hb
    rw [← hflat]
    exact hstart state.calls.depth

/-! ## The code follows the script -/

/-- What the machine does for a task: it yields the outcome wherever the code of the task stands, or
has it as the answer of the call. -/
def Simulated : Task → State HostWord → Outcome HostWord → Prop
  | .row tokens, state, outcome =>
    ∀ code, Compiles tokens code → code.Yields hostRoutine state outcome
  | .phrase phrase, state, outcome =>
    ∀ code, phrase.HasCode code → code.Yields hostRoutine state outcome
  | .call location name, state, outcome =>
    Answers (fun fuel => nestedCall hostRoutine fuel location name state) outcome

/-- **Whatever a script evaluates to, its code yields.** -/
theorem Evaluates.simulated {task : Task} {state : State HostWord} {outcome : Outcome HostWord}
    (h : Evaluates task state outcome) : Simulated task state outcome := by
  induction h with
  | nil =>
    intro code hc
    cases hc
    exact Code.yields_nil
  | next hcut _ _ ihphrase ihrest =>
    intro code hc
    obtain ⟨first, more, hfirst, hmore, rfl⟩ := hc.of_phrase hcut
    exact (ihphrase first hfirst).append (ihrest more hmore)
  | stop hcut _ ih =>
    intro code hc
    obtain ⟨first, more, hfirst, -, rfl⟩ := hc.of_phrase hcut
    exact (ih first hfirst).append_failed more
  | @primitive token operation state hop =>
    rintro code rfl
    have hi : token.instruction = .primitive (some token.location) operation := by
      simp only [Token.instruction, hop]
    rw [hi]
    exact Code.yields_of_move rfl
  | @text token contents state hop htext =>
    rintro code rfl
    have hi : token.instruction = .push (some token.location) (.text contents) := by
      simp only [Token.instruction, hop, htext]
    rw [hi]
    exact Code.yields_of_move rfl
  | @number token x state hop htext hnumber =>
    rintro code rfl
    have hi : token.instruction = .push (some token.location) (.number x) := by
      simp only [Token.instruction, hop, htext, hnumber]
    rw [hi]
    exact Code.yields_of_move rfl
  | @word token state outcome hop htext hnumber _ ih =>
    rintro code rfl
    have hi : token.instruction = .execute (some token.location) token.text := by
      simp only [Token.instruction, hop, htext, hnumber]
    rw [hi]
    exact Code.yields_of_call ih
  | definition hbody =>
    rintro code ⟨bodyCode, hcompiles, rfl⟩
    rw [compile_of_compiles hcompiles] at hbody
    cases hbody
    exact Code.yields_of_move rfl
  | missing hstack =>
    rintro code ⟨trueCode, falseCode, -, -, rfl⟩
    exact Code.yields_conditional_missing hstack
  | whenTrue hstack htruthy _ ih =>
    rintro code ⟨trueCode, falseCode, htrue, -, rfl⟩
    exact Code.yields_conditional_true hstack htruthy (ih trueCode htrue)
  | whenFalse hstack htruthy _ ih =>
    rintro code ⟨trueCode, falseCode, -, hfalse, rfl⟩
    exact Code.yields_conditional_false hstack htruthy (ih falseCode hfalse)
  | undefined hlookup => exact nestedCall_of_error (State.beginCall_of_none hlookup)
  | tooDeep hlookup hdepth => exact nestedCall_of_error (State.beginCall_of_le hlookup hdepth)
  | native hlookup hdepth hbody hroutine =>
    exact nestedCall_of_native (State.beginCall_of_lt hlookup hdepth) hbody
      ⟨0, fun fuel _ => hroutine _⟩
  | scripted hlookup hdepth hbody hcode hrow ih =>
    -- the body leaves no call open, so its failures are not unwound any further
    refine nestedCall_of_scripted (State.beginCall_of_lt hlookup hdepth) hbody ?_
    exact (ih _ (compiles_of_compile hcode)).run hrow.balanced

/-- Running the code of a row has the outcome of the row. -/
theorem Evaluates.runCode {tokens : List Token} {code : Code} {state : State HostWord}
    {outcome : Outcome HostWord} (h : Evaluates (.row tokens) state outcome)
    (hcode : compile tokens = .ok code) :
    Answers (fun fuel => StackScript.runCode hostRoutine fuel code state) outcome :=
  runCode_of_nestedRun ((h.simulated code (compiles_of_compile hcode)).run h.balanced)

/-- **The compiler is correct.**  In every state whose words are demonstration words or were compiled,
an accepted row of tokens has exactly one outcome, and running its code comes to that outcome: the
same success or fault, and the same state. -/
theorem runCode_agrees_evaluates {tokens : List Token} {code : Code} {state : State HostWord}
    (hcode : compile tokens = .ok code) (hwords : state.forest.EveryWord Word.Compiled) :
    ∃ outcome, (∀ other, Evaluates (.row tokens) state other ↔ other = outcome) ∧
      Answers (fun fuel => runCode hostRoutine fuel code state) outcome := by
  obtain ⟨outcome, he, -⟩ := evaluates_total hcode hwords
  refine ⟨outcome, fun other => ⟨fun ho => ?_, ?_⟩, he.runCode hcode⟩
  · exact (ho.runCode hcode).unique (he.runCode hcode)
  · rintro rfl
    exact he

/-- A word that calls itself from a branch until the value on top does not count as true, and then writes
that value. -/
theorem runCode_agrees_evaluates_countdown :
    ∃ tokens code final, tokens.map Token.text = [":", "down", "1", "-", "dup", "if", "down", "then",
        "print", "else", ";", "3", "down"] ∧ compile tokens = .ok code ∧
      (∀ other, Evaluates (.row tokens)
          (State.initial HostWord.demonstration (.collecting "") 10) other ↔ other = .done final) ∧
      Answers (fun fuel => runCode hostRoutine fuel code
        (State.initial HostWord.demonstration (.collecting "") 10)) (.done final) ∧
      final.stack = [] ∧ final.sink.written = "0\n" := by
  let token (text : String) : Token := ⟨.unspecified, text⟩
  let place : Option Location := some .unspecified
  let code : Code :=
    [.define place "down" [(token "1").instruction, (token "-").instruction,
      (token "dup").instruction, .jumpIfFalse place 3, (token "down").instruction, .jump place 2,
      (token "print").instruction], (token "3").instruction, (token "down").instruction]
  have hcode : compile ([":", "down", "1", "-", "dup", "if", "down", "then", "print", "else", ";",
      "3", "down"].map token) = .ok code := by
    simp [compile, splitAtText, conditional, token, code, place]
  have hwords : (State.initial HostWord.demonstration (.collecting "") 10).forest.EveryWord
      Word.Compiled := State.initial_everyWord _ _ fun w hw => hw
  have hrun : (runCode hostRoutine 40 code
      (State.initial HostWord.demonstration (.collecting "") 10)).map (fun outcome =>
        (outcome.fault?, outcome.state.stack.length, outcome.state.sink.written)) =
      some (none, 0, "0\n") := by
    decide +kernel
  obtain ⟨ran, hran, he⟩ := Option.map_eq_some_iff.1 hrun
  obtain ⟨outcome, hevaluates, hanswers⟩ := runCode_agrees_evaluates hcode hwords
  obtain rfl : outcome = ran := hanswers.unique (runCode_answers hran)
  simp only [Prod.mk.injEq] at he
  obtain ⟨hfault, hstack, hwritten⟩ := he
  cases outcome with
  | failed fault final => cases hfault
  | done final =>
    exact ⟨_, code, final, by simp [token], hcode, hevaluates, hanswers,
      List.length_eq_zero_iff.1 hstack, hwritten⟩

end StackScript
