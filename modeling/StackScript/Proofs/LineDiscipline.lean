import StackScript.Command
import StackScript.Proofs.FaultReports
import StackScript.Proofs.Lines
import StackScript.Proofs.Output
import StackScript.Proofs.Termination

/-!
# Every value is written on one line

No script can bring a line feed into a text, the kind of a host object or the name of a word: literals do
not extend over a line, and texts are made by joining written forms, which fit on a line themselves.

* `Code.OneLine` — all that the code pushes or binds fits on a line.
* `Word.OneLine` — so do the name of the word and its body; `State.OneLine` — so do all values on the
  stack, and all bound words.
* `Config.OneLine` — so does, besides, all code that is being carried out.
* `Config.AtOutput` — the instruction at hand writes the top value.
* `Config.OneLine.passage` — the step lemma; `Path.oneLine` — the run lemma.

Principal result: `values_written_on_one_line`.
-/

set_option autoImplicit false

namespace StackScript

/-! ## Code and words -/

/-- All that the code pushes or binds fits on a line. -/
structure Code.OneLine (code : Code) : Prop where
  values : ∀ location value, code.Holds (.push location value) → value.OneLine
  names : ∀ location name body, code.Holds (.define location name body) → Text.OneLine name

theorem Code.OneLine.of_define {code body : Code} {location : Option Location} {name : String}
    (h : code.OneLine) (hd : code.Holds (.define location name body)) : body.OneLine :=
  ⟨fun location value hp => h.values location value (hd.of_define hp),
    fun location name body hb => h.names location name body (hd.of_define hb)⟩

/-- What comes from lexemes fits on a line, as they do. -/
theorem Compiles.oneLine {tokens : List Token} {code : Code} (h : Compiles tokens code)
    (hvalid : ∀ token ∈ tokens, Lexeme.Valid token.text) : code.OneLine := by
  refine ⟨fun location value hp => ?_, fun location name body hd => ?_⟩
  · rcases h.pushed hp with ⟨token, hm, contents, hs, rfl⟩ | ⟨x, rfl⟩
    · exact Token.oneLine_of_string? (hvalid token hm) hs
    · trivial
  · obtain ⟨token, hm, rfl⟩ := h.bound hd
    exact (hvalid token hm).oneLine

theorem Program.oneLine_of_compile {path source : String} {program : Program}
    (h : Program.compile path source = .ok program) : program.code.OneLine := by
  obtain ⟨-, tokens, hscan, hc⟩ := Program.compile_eq_ok_iff.1 h
  exact hc.oneLine (Token.scanFrom_eq_ok_iff.1 hscan).valid

/-- The name of the word fits on a line, and so does all that its body pushes or binds. -/
structure Word.OneLine (word : Word HostWord) : Prop where
  name : Text.OneLine word.name
  settles : word.Settles
  body : ∀ code, word.body = .scripted code → code.OneLine

theorem HostWord.oneLine_word {word : HostWord} (h : word ∈ demonstration) : word.word.OneLine where
  name := by
    revert word
    decide
  settles := fun native hb => by
    cases hb
    exact h
  body := fun code hb => by cases hb

/-! ## States -/

/-- All values on the stack and all bound words fit on a line. -/
structure State.OneLine (state : State HostWord) : Prop where
  values : ∀ value ∈ state.stack, value.OneLine
  words : state.forest.EveryWord Word.OneLine

namespace State.OneLine

variable {state : State HostWord}

theorem names (h : state.OneLine) (scope : ScopeId) : ∀ name ∈ state.names scope, Text.OneLine name := by
  intro name hm
  obtain ⟨word, hw, rfl⟩ := List.mem_map.1 hm
  exact (h.words scope word hw).name

theorem of_eq {after : State HostWord} (h : state.OneLine) (hstack : after.stack = state.stack)
    (hforest : after.forest = state.forest) : after.OneLine :=
  ⟨hstack ▸ h.values, hforest ▸ h.words⟩

theorem withStack (h : state.OneLine) {stack : List Value} (hs : ∀ value ∈ stack, value.OneLine) :
    { state with stack := stack }.OneLine := ⟨hs, h.words⟩

theorem push (h : state.OneLine) {value : Value} (hv : value.OneLine) : (state.push value).OneLine := by
  refine h.withStack fun other hm => ?_
  rcases List.mem_cons.1 hm with rfl | hm
  · exact hv
  · exact h.values other hm

theorem pop (h : state.OneLine) {value : Value} {rest : List Value} (hs : state.stack = value :: rest) :
    value.OneLine ∧ { state with stack := rest }.OneLine := by
  have hvalues := h.values
  rw [hs] at hvalues
  exact ⟨hvalues value List.mem_cons_self,
    h.withStack fun other hm => hvalues other (List.mem_cons_of_mem value hm)⟩

theorem write (h : state.OneLine) (text : String) : (state.write text).state.OneLine := by
  rw [State.write_state]
  exact ⟨h.values, h.words⟩

theorem withOperands (h : state.OneLine) {next : Value → Value → State HostWord → Outcome HostWord}
    (hnext : ∀ b a after, b.OneLine → a.OneLine → after.OneLine → (next b a after).state.OneLine) :
    (state.withOperands next).state.OneLine := by
  unfold State.withOperands
  split
  · rename_i a b rest hs
    obtain ⟨ha, hrest⟩ := h.pop hs
    obtain ⟨hb, hrest⟩ := hrest.pop rfl
    exact hnext b a _ hb ha hrest
  · exact h.withStack fun value hm => absurd hm List.not_mem_nil
  · exact h

theorem arithmetic (h : state.OneLine) (operation : Primitive) (compute : Float → Float → Float) :
    (state.arithmetic operation compute).state.OneLine := by
  refine h.withOperands fun b a after _ _ hafter => ?_
  split
  · exact hafter.push trivial
  · exact hafter

end State.OneLine

/-- **A primitive keeps every value on its line.** -/
theorem Primitive.effect_oneLine (operation : Primitive) {state : State HostWord}
    (h : state.OneLine) : (operation.effect state).state.OneLine := by
  cases operation <;> simp only [Primitive.effect]
  case dup =>
    split
    · exact h
    · rename_i value rest hs
      exact h.push (h.pop hs).1
  case drop =>
    split
    · exact h
    · rename_i value rest hs
      exact (h.pop hs).2
  case add =>
    refine h.withOperands fun b a after hb ha hafter => ?_
    split
    · rename_i value hsum
      exact hafter.push (hb.sum? ha hafter.names hsum)
    · exact hafter
  case subtract => exact h.arithmetic _ _
  case multiply => exact h.arithmetic _ _
  case divide => exact h.arithmetic _ _
  case equal =>
    refine h.withOperands fun b a after _ _ hafter => ?_
    exact hafter.push trivial
  case greaterThan =>
    refine h.withOperands fun b a after _ _ hafter => ?_
    split
    · exact hafter.push trivial
    · exact hafter
  case not =>
    split
    · exact h
    · rename_i value rest hs
      have hpushed : (State.push (.bool !value.isTruthy) { state with stack := rest }).OneLine :=
        (h.pop hs).2.push trivial
      exact hpushed
  case spew =>
    split
    · exact h
    · exact h.write _
  case package => exact ⟨h.values, h.words.newChild _⟩
  case endPackage =>
    split
    · exact h
    · have hpushed : (state.push (.package state.scope)).OneLine := h.push trivial
      exact ⟨hpushed.values, h.words⟩

/-- So does an instruction of code that keeps to its lines. -/
theorem Instruction.move_oneLine {state : State HostWord} {instruction : Instruction}
    {move : Move HostWord} (hm : instruction.move? state = some move) (h : state.OneLine)
    {code : Code} (hcode : code.OneLine) (hi : code.Holds instruction) : move.state.OneLine := by
  cases instruction with
  | primitive location operation =>
    cases hm
    rw [Outcome.state_move]
    exact operation.effect_oneLine h
  | push location value =>
    cases hm
    exact h.push (hcode.values location value hi)
  | define location name body =>
    cases hm
    refine ⟨h.values, h.words.define _ ⟨hcode.names location name body hi, ?_, ?_⟩⟩
    · exact fun native hb => by cases hb
    · exact fun code hb => by cases hb; exact hcode.of_define hi
  | execute location name => cases hm
  | jumpIfFalse location offset =>
    simp only [Instruction.move?] at hm
    split at hm
    · cases hm
      exact h
    · rename_i value rest hs
      split at hm <;> cases hm <;> exact (h.pop hs).2
  | jump location offset =>
    cases hm
    exact h

/-! ## The words of the host -/

namespace Routine

variable {machine : Reentry HostWord} {state : State HostWord} {outcome : Outcome HostWord}

theorem writeLast_oneLine {text : String}
    (hp : (writeLast text : Routine HostWord).perform machine state = some outcome)
    (h : state.OneLine) : outcome.state.OneLine := by
  rw [perform_writeLast] at hp
  cases hp
  exact h.write text

/-- A routine that takes the top value has failed for want of one, or has gone on with it. -/
theorem popValue_cases {next : Value → Routine HostWord}
    (hp : (popValue next).perform machine state = some outcome) :
    outcome.state = state ∧ outcome.fault?.isSome = true ∨
      ∃ value rest, state.stack = value :: rest ∧
        (next value).perform machine { state with stack := rest } = some outcome := by
  simp only [popValue, perform] at hp
  split at hp
  · cases hp
    exact Or.inl ⟨rfl, rfl⟩
  · rename_i value rest hs
    exact Or.inr ⟨value, rest, hs, hp⟩

end Routine

open Routine in
/-- **The demonstration words keep every value on its line.** -/
theorem HostWord.perform_oneLine {word : HostWord} (hw : word ∈ demonstration)
    {machine : Reentry HostWord} {state : State HostWord} {outcome : Outcome HostWord}
    (hp : (hostRoutine word).perform machine state = some outcome) (h : state.OneLine) :
    outcome.state.OneLine := by
  simp only [demonstration, List.mem_cons, List.not_mem_nil, or_false] at hw
  rcases hw with rfl | rfl | rfl | rfl
  · rcases popValue_cases hp with ⟨he, -⟩ | ⟨value, rest, hs, hp⟩
    · rw [he]
      exact h
    · exact writeLast_oneLine hp (h.pop hs).2
  · exact writeLast_oneLine hp h
  · exact writeLast_oneLine hp h
  · rcases popValue_cases hp with ⟨he, -⟩ | ⟨value, rest, hs, hp⟩
    · rw [he]
      exact h
    · obtain ⟨hvalue, hrest⟩ := h.pop hs
      cases value with
      | text kind =>
        cases hp
        have hobject : Value.OneLine (.host ⟨state.objects, kind⟩) := hvalue
        exact (hrest.push hobject).of_eq rfl rfl
      | number x => cases hp; exact hrest
      | bool b => cases hp; exact hrest
      | package scope => cases hp; exact hrest
      | host object => cases hp; exact hrest

/-! ## Runs -/

namespace Config

/-- All values, all bound words and all code that is being carried out keep to their lines. -/
structure OneLine (config : Config HostWord) : Prop where
  state : config.state.OneLine
  code : Code.OneLine config.code.toList
  callers : ∀ frame ∈ config.callers, Code.OneLine frame.code.toList

variable {config next : Config HostWord}

namespace OneLine

theorem moveTo (h : config.OneLine) (location : Option Location) :
    (config.state.moveTo location).OneLine :=
  h.state.of_eq (State.moveTo_stack _ _) (State.moveTo_forest _ _)

theorem opened (h : config.OneLine) (location : Option Location) (name : String) :
    (config.opened location name).OneLine :=
  (h.moveTo location).of_eq rfl rfl

/-- What an instruction at hand leads to, that is no call. -/
theorem move (h : config.OneLine) {instruction : Instruction} {move : Move HostWord}
    (hi : config.code[config.position]? = some instruction)
    (hm : instruction.move? (config.state.moveTo instruction.location) = some move) :
    move.state.OneLine := by
  rw [← Array.getElem?_toList] at hi
  exact Instruction.move_oneLine hm (h.moveTo _) h.code (.here (List.mem_of_getElem? hi))

/-- What a native word leads to that is called here. -/
theorem native (h : config.OneLine) {location : Option Location} {name : String}
    {word : Word HostWord} {native : HostWord} {outcome : Outcome HostWord}
    (ho : config.Opens location name word) (hb : word.body = .native native)
    (hp : Performs hostRoutine (hostRoutine native) (config.opened location name) outcome) :
    outcome.state.OneLine := by
  obtain ⟨fuel, hf⟩ := hp
  have hdemonstration := (h.state.words.lookup ho.lookup).settles native hb
  exact HostWord.perform_oneLine hdemonstration (hf fuel (Nat.le_refl fuel)) (h.opened location name)

/-- **From head to head every value keeps to its line.** -/
theorem passage (h : config.OneLine) (hp : config.Passage hostRoutine next) : next.OneLine := by
  cases hp with
  | leave hi hc =>
    have hcallers := h.callers
    rw [hc] at hcallers
    exact ⟨h.state.of_eq rfl rfl, hcallers _ List.mem_cons_self,
      fun frame hm => hcallers frame (List.mem_cons_of_mem _ hm)⟩
  | move hi hm => exact ⟨h.move hi hm, h.code, h.callers⟩
  | @enter location name word body ho hb =>
    refine ⟨h.opened location name, (h.state.words.lookup ho.lookup).body body hb, ?_⟩
    intro frame hm
    rcases List.mem_cons.1 hm with rfl | hm
    · exact h.code
    · exact h.callers frame hm
  | native ho hb hp => exact ⟨(h.native ho hb hp).of_eq rfl rfl, h.code, h.callers⟩

/-- Whatever stops the machine keeps every value on its line. -/
theorem ending (h : config.OneLine) {halt : Halt HostWord} (hs : config.Ending hostRoutine halt)
    (depth : Nat) : (halt.unwind depth).state.OneLine := by
  cases hs with
  | finished hi hc => exact h.state
  | fault hi hm => exact (h.move hi hm).of_eq rfl rfl
  | refused hi hb => exact (h.moveTo _).of_eq rfl rfl
  | native ho hb hp => exact (h.native ho hb hp).of_eq rfl rfl

end OneLine

end Config

theorem Path.oneLine {start config : Config HostWord} {heads : List (Config HostWord)}
    (h : Path hostRoutine start heads config) (hs : start.OneLine) : config.OneLine := by
  induction h with
  | nil => exact hs
  | snoc _ hg ih => exact ih.passage hg.passage

theorem runCode_oneLine {fuel : Nat} {code : Code} {state : State HostWord}
    {outcome : Outcome HostWord} (h : (Config.start code state).OneLine)
    (hrun : runCode hostRoutine fuel code state = some outcome) : outcome.state.OneLine := by
  obtain ⟨heads, last, halt, hpath, hstop, rfl⟩ := runCode_path hrun
  exact (hpath.oneLine h).ending hstop.ending _

/-! ## Output -/

/-- The instruction at hand writes the top value: it is the primitive that does so, or calls the word of
the host that does. -/
def Config.AtOutput (config : Config HostWord) : Prop :=
  (∃ location, config.code[config.position]? = some (.primitive location .spew)) ∨
    ∃ location name word, config.Opens location name word ∧ word.body = .native .print

/-- The sink takes the written form of the top value and a line feed, and is handed nothing else. -/
def Config.WritesLine (config next : Config HostWord) : Prop :=
  ∃ value, config.state.stack.head? = some value ∧
    config.state.sink.reply [] (config.state.display value ++ "\n") = .taken ∧
    next.state.sink = config.state.sink.after (config.state.display value ++ "\n")

theorem State.sink_of_write {state after : State HostWord} {text : String}
    (h : state.write text = .done after) :
    state.sink.reply [] text = .taken ∧ after.sink = state.sink.after text := by
  obtain ⟨htaken, rfl⟩ := State.write_done h
  exact ⟨htaken, rfl⟩

theorem Primitive.write_of_spew {state after : State HostWord}
    (h : Primitive.spew.effect state = .done after) :
    ∃ value, state.stack.head? = some value ∧
      state.write (state.display value ++ "\n") = .done after := by
  simp only [Primitive.effect] at h
  split at h
  · cases h
  · rename_i value rest hs
    rw [hs]
    exact ⟨value, rfl, h⟩

theorem HostWord.write_of_print {machine : Reentry HostWord} {state after : State HostWord}
    (h : (hostRoutine .print).perform machine state = some (.done after)) :
    ∃ value rest, state.stack = value :: rest ∧
      { state with stack := rest }.write (state.display value ++ "\n") = .done after := by
  rcases Routine.popValue_cases h with ⟨-, hf⟩ | ⟨value, rest, hs, hp⟩
  · cases hf
  · have hwrite := (Routine.perform_writeLast _ _ _).symm.trans hp
    exact ⟨value, rest, hs, Option.some.inj hwrite⟩

theorem State.display_moveTo (state : State HostWord) (location : Option Location) (value : Value) :
    (state.moveTo location).display value = state.display value := by
  cases location <;> rfl

theorem Outcome.eq_done_of_move {outcome : Outcome HostWord} {offset : Nat} {state : State HostWord}
    (h : outcome.move = .ahead offset state) : outcome = .done state := by
  cases outcome with
  | done after => cases h; rfl
  | failed fault after => cases h

/-- **Output is written line by line**, if it succeeds. -/
theorem Config.AtOutput.writesLine {config next : Config HostWord} (h : config.AtOutput)
    (hg : config.Goes hostRoutine next) : config.WritesLine next := by
  rcases h with ⟨location, hspew⟩ | ⟨location, name, word, ho, hb⟩
  · cases hg.passage with
    | leave hi hc => cases hspew.symm.trans hi
    | @move instruction offset state hi hm =>
      cases hspew.symm.trans hi
      have heffect := Outcome.eq_done_of_move (Option.some.inj hm)
      obtain ⟨value, hs, hw⟩ := Primitive.write_of_spew heffect
      obtain ⟨htaken, hsink⟩ := State.sink_of_write hw
      rw [State.moveTo_stack] at hs
      rw [State.moveTo_sink, State.display_moveTo] at htaken hsink
      exact ⟨value, hs, htaken, hsink⟩
    | enter ho hb => cases hspew.symm.trans ho.instruction
    | native ho hb hp => cases hspew.symm.trans ho.instruction
  · cases hg with
    | step hs => cases hs.symm.trans (ho.step_of_native hb)
    | native hs hp =>
      cases hs.symm.trans (ho.step_of_native hb)
      obtain ⟨fuel, hf⟩ := hp
      -- the word has taken the value off the stack before it writes, which its written form does not show
      obtain ⟨value, rest, hstack, hw⟩ := HostWord.write_of_print (hf fuel (Nat.le_refl fuel))
      obtain ⟨htaken, hsink⟩ := State.sink_of_write hw
      have hopened : (config.opened location name).display value = config.state.display value :=
        State.display_moveTo config.state location value
      have hsame : (config.opened location name).sink = config.state.sink :=
        State.moveTo_sink config.state location
      refine ⟨value, ?_, ?_, ?_⟩
      · rw [← State.moveTo_stack config.state location]
        exact congrArg List.head? hstack
      · rw [← hopened, ← hsame]
        exact htaken
      · rw [← hopened, ← hsame]
        exact hsink

/-- A single line is written. -/
theorem Config.OneLine.lines {config next : Config HostWord} (h : config.OneLine)
    (hat : config.AtOutput) (hg : config.Goes hostRoutine next) :
    ∃ text value, config.state.stack.head? = some value ∧
      next.state.sink = config.state.sink.after text ∧
      next.state.sink.written = config.state.sink.written ++ text ∧
      Text.Lines [config.state.display value] text := by
  obtain ⟨value, hvalue, htaken, hsink⟩ := hat.writesLine hg
  have hmem : value ∈ config.state.stack := List.mem_of_mem_head? hvalue
  have hline := (h.state.values value hmem).display h.state.names
  refine ⟨_, value, hvalue, hsink, ?_, Text.lines_singleton hline⟩
  rw [hsink]
  exact Sink.written_after htaken

/-! ## Programs and the command line -/

theorem State.initial_oneLine {words : List HostWord} (hwords : words ⊆ HostWord.demonstration)
    (sink : Sink) (callLimit : Nat) :
    (State.initial words sink callLimit).forest.EveryWord Word.OneLine :=
  State.initial_everyWord sink callLimit fun _ hm => HostWord.oneLine_word (hwords hm)

theorem Config.oneLine_launched {code : Code} (hcode : code.OneLine) {state : State HostWord}
    (hwords : state.forest.EveryWord Word.OneLine) (surface : ScopeId) :
    (Config.start code (state.launched surface)).OneLine where
  state := ⟨fun _ hm => absurd hm List.not_mem_nil, hwords.newChild surface⟩
  code := hcode
  callers := fun _ hm => absurd hm List.not_mem_nil

namespace Invocation

theorem compile_of_program {invocation : Invocation} {read : String → Except ReadProblem String}
    {program : Program} (h : invocation.program read = .ok program) :
    ∃ path source, Program.compile path source = .ok program := by
  unfold Invocation.program at h
  split at h
  · unfold Program.ofFile at h
    split at h
    · cases h
    · exact ⟨_, _, h⟩
  · exact ⟨_, _, h⟩

theorem lines_stackLines {state : State HostWord} (h : state.OneLine) :
    Text.Lines (state.stack.reverse.map state.quoted) (stackLines state) := by
  have hquoted : ∀ line ∈ state.stack.reverse.map state.quoted, Text.OneLine line := by
    intro line hm
    obtain ⟨value, hv, rfl⟩ := List.mem_map.1 hm
    exact (h.values value (List.mem_reverse.1 hv)).quoted h.names
  have hlines := Text.lines_join hquoted
  rw [List.map_map] at hlines
  exact hlines

/-- The command line runs the program and prints what came of it: after a run that succeeds, the final
stack behind what the run has written. -/
theorem command_eq_map {read : String → Except ReadProblem String} {arguments : List String}
    {invocation : Invocation} {program : Program}
    (hparse : Invocation.parse arguments = .ok invocation)
    (hprogram : invocation.program read = .ok program) :
    ∃ print : Outcome HostWord → Transcript,
      (∀ fuel, command fuel read arguments = (program.launch hostRoutine fuel 0
        (State.initial HostWord.demonstration (.collecting "") invocation.callLimit)).map print) ∧
      ∃ before, (invocation.dump = false → before = "") ∧
        ∀ final, (print (.done final)).exitCode = 0 ∧
          (print (.done final)).stdout = before ++ final.sink.written ++ stackLines final := by
  have hcommand : ∀ fuel, command fuel read arguments = _ := fun fuel => by
    simp only [command, hparse, Invocation.run, hprogram]
    rfl
  refine ⟨_, hcommand, _, fun hdump => if_neg ?_, fun final => ⟨rfl, rfl⟩⟩
  rw [hdump]
  exact Bool.false_ne_true

end Invocation

/-- **Every value is written on one line.**  Launched on a machine whose bound words keep to their lines,
as demonstration words do, a compiled program finds and leaves no text, no kind of a host object and no
name of a word with a line feed in it, at any head of its run and at the end.  So whatever writes the top
value writes a single line, if it succeeds.  After a run that succeeds, the command line prints one line
for each value of the final stack, bottom first, behind what the run has written. -/
theorem values_written_on_one_line :
    (∀ words sink callLimit, words ⊆ HostWord.demonstration →
      (State.initial words sink callLimit).forest.EveryWord Word.OneLine) ∧
    (∀ path source program surface (state : State HostWord),
      Program.compile path source = .ok program → state.forest.EveryWord Word.OneLine →
      (∀ heads head,
        Path hostRoutine (Config.start program.code (state.launched surface)) heads head →
        head.state.OneLine ∧
        ∀ next, head.AtOutput → head.Goes hostRoutine next →
          ∃ text value, head.state.stack.head? = some value ∧
            next.state.sink = head.state.sink.after text ∧
            next.state.sink.written = head.state.sink.written ++ text ∧
            Text.Lines [head.state.display value] text) ∧
      ∀ outcome, Answers (fun fuel => program.launch hostRoutine fuel surface state) outcome →
        outcome.state.OneLine) ∧
    ∀ read arguments invocation program, Invocation.parse arguments = .ok invocation →
      invocation.program read = .ok program →
      ∃ outcome transcript,
        Answers (fun fuel => program.launch hostRoutine fuel 0
          (State.initial HostWord.demonstration (.collecting "") invocation.callLimit)) outcome ∧
        Answers (fun fuel => command fuel read arguments) transcript ∧
        ∀ final, outcome = .done final → transcript.exitCode = 0 ∧
          ∃ before text, (invocation.dump = false → before = "") ∧
            transcript.stdout = before ++ final.sink.written ++ text ∧
            Text.Lines (final.stack.reverse.map final.quoted) text := by
  refine ⟨fun words sink callLimit hwords => State.initial_oneLine hwords sink callLimit, ?_, ?_⟩
  · intro path source program surface state hcompile hwords
    have hstart := Config.oneLine_launched (Program.oneLine_of_compile hcompile) hwords surface
    refine ⟨fun heads head hpath => ⟨(hpath.oneLine hstart).state, fun next hat hgoes => ?_⟩, ?_⟩
    · exact (hpath.oneLine hstart).lines hat hgoes
    · rintro outcome ⟨enough, ha⟩
      exact runCode_oneLine hstart (ha enough (Nat.le_refl enough))
  · intro read arguments invocation program hparse hprogram
    obtain ⟨path, source, hcompile⟩ := Invocation.compile_of_program hprogram
    obtain ⟨-, tokens, -, hc⟩ := Program.compile_eq_ok_iff.1 hcompile
    have hwords := State.initial_oneLine (fun _ hm => hm) (.collecting "") invocation.callLimit
    obtain ⟨outcome, hrun⟩ := Program.launch_ends hc.neverIdles
      (State.initial_everyWord (.collecting "") invocation.callLimit fun w hm => hm)
    obtain ⟨print, hcommand, before, hbefore, hprint⟩ := Invocation.command_eq_map hparse hprogram
    refine ⟨outcome, print outcome, hrun, ?_, ?_⟩
    · simp only [hcommand]
      exact hrun.map print
    · rintro final rfl
      have hstart := Config.oneLine_launched (Program.oneLine_of_compile hcompile) hwords 0
      obtain ⟨enough, ha⟩ := hrun
      have hfinal : final.OneLine := runCode_oneLine hstart (ha enough (Nat.le_refl enough))
      exact ⟨(hprint final).1, before, _, hbefore, (hprint final).2,
        Invocation.lines_stackLines hfinal⟩

/-- A package that binds a name with a blank in it is joined to a text, which is written, and then becomes
the kind of a host object, too. -/
theorem values_written_on_one_line_joined :
    ∃ (program : Program) (final : State HostWord) (transcript : Transcript) (text : String),
      Program.compile "<eval>"
        "package : \"p q\" drop ; endpackage \"k\" + spew dup host.object" = .ok program ∧
      (State.initial HostWord.demonstration (.collecting "") 1000).forest.EveryWord Word.OneLine ∧
      Answers (fun fuel => program.launch hostRoutine fuel 0
        (State.initial HostWord.demonstration (.collecting "") 1000)) (.done final) ∧
      final.OneLine ∧
      Answers (fun fuel => command fuel (fun _ => .error .missing)
        ["-e", "package : \"p q\" drop ; endpackage \"k\" + spew dup host.object"]) transcript ∧
      transcript.stdout = "package\x7b\"p q\"\x7dk\n" ++ text ∧
      Text.Lines ["\"package\x7b\\\"p q\\\"\x7dk\"", "<host package\x7b\"p q\"\x7dk>"] text := by
  obtain ⟨program, hprogram⟩ : ∃ program : Program, program = ⟨"<eval>",
    [.primitive (some ⟨"<eval>", 1, 1⟩) .package,
      .define (some ⟨"<eval>", 1, 9⟩) "\"p q\"" [.primitive (some ⟨"<eval>", 1, 17⟩) .drop],
      .primitive (some ⟨"<eval>", 1, 24⟩) .endPackage, .push (some ⟨"<eval>", 1, 35⟩) (.text "k"),
      .primitive (some ⟨"<eval>", 1, 39⟩) .add, .primitive (some ⟨"<eval>", 1, 41⟩) .spew,
      .primitive (some ⟨"<eval>", 1, 46⟩) .dup,
      .execute (some ⟨"<eval>", 1, 50⟩) "host.object"]⟩ := ⟨_, rfl⟩
  have hcompile : Program.compile "<eval>"
      "package : \"p q\" drop ; endpackage \"k\" + spew dup host.object" = .ok program := by
    have hplain : ∀ column text, text ≠ ":" ∧ text ≠ "if" →
        Token.IsPlain ⟨⟨"<eval>", 1, column⟩, text⟩ := fun column text h => h
    have hobject : Compiles [⟨⟨"<eval>", 1, 50⟩, "host.object"⟩]
        [.execute (some ⟨"<eval>", 1, 50⟩) "host.object"] :=
      .call _ (by decide) rfl (by simp [Token.string?]) rfl
    have hdup := Compiles.plain (hplain 46 "dup" (by decide)) hobject
    have hspew := Compiles.plain (hplain 41 "spew" (by decide)) hdup
    have hadd := Compiles.plain (hplain 39 "+" (by decide)) hspew
    have hkind := Compiles.plain (hplain 35 "\"k\"" (by decide)) hadd
    have hclose := Compiles.plain (hplain 24 "endpackage" (by decide)) hkind
    have hdrop := Compiles.plain (hplain 17 "drop" (by decide)) .nil
    have hdefine := @Compiles.definition ⟨⟨"<eval>", 1, 9⟩, ":"⟩ ⟨⟨"<eval>", 1, 11⟩, "\"p q\""⟩
      ⟨⟨"<eval>", 1, 22⟩, ";"⟩ _ _ _ _ rfl (by decide) rfl (by unfold Lacks; decide) hdrop hclose
    have hopen := Compiles.plain (hplain 1 "package" (by decide)) hdefine
    subst hprogram
    exact Program.compile_eq_ok_iff.2 ⟨rfl, _, rfl, hopen⟩
  have hrun : (program.launch hostRoutine 20 0
      (State.initial HostWord.demonstration (.collecting "") 1000)).map (fun outcome =>
        (outcome.fault?, outcome.state.sink.written,
          outcome.state.stack.reverse.map outcome.state.quoted)) =
      some (none, "package\x7b\"p q\"\x7dk\n",
        ["\"package\x7b\\\"p q\\\"\x7dk\"", "<host package\x7b\"p q\"\x7dk>"]) := by
    subst hprogram
    decide +kernel
  have hparse : Invocation.parse
      ["-e", "package : \"p q\" drop ; endpackage \"k\" + spew dup host.object"] =
      .ok ⟨.text "package : \"p q\" drop ; endpackage \"k\" + spew dup host.object", false, 1000⟩ := rfl
  obtain ⟨hinitial, hlaunch, hcommand⟩ := values_written_on_one_line
  have hwords := hinitial HostWord.demonstration (.collecting "") 1000 fun _ hm => hm
  obtain ⟨outcome, transcript, houtcome, htranscript, hprints⟩ :=
    hcommand (fun _ => .error .missing) _ _ program hparse hcompile
  obtain ⟨other, hother, he⟩ := Option.map_eq_some_iff.1 hrun
  obtain rfl : outcome = other := houtcome.unique (runCode_answers hother)
  cases outcome with
  | failed fault final => cases congrArg Prod.fst he
  | done final =>
    simp only [Prod.mk.injEq, Outcome.state] at he
    obtain ⟨-, hwritten, hquoted⟩ := he
    obtain ⟨-, before, text, hbefore, hstdout, hlines⟩ := hprints final rfl
    have hfinal := (hlaunch _ _ program 0 _ hcompile hwords).2 _ houtcome
    refine ⟨program, final, transcript, text, hcompile, hwords, houtcome, hfinal, htranscript, ?_, ?_⟩
    · rw [hstdout, hbefore rfl, hwritten, String.empty_append]
    · rw [← hquoted]
      exact hlines

end StackScript
