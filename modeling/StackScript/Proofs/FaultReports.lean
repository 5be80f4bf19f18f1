import StackScript.Proofs.Faults
import StackScript.Proofs.Grammar

/-!
# What a fault reports is true

The place that a fault reports is kept in one cell, which every instruction overwrites, and the calls
in a list beside the suspended callers.  Still a fault of a compiled program reports the place of the
instruction that failed and exactly the calls that are active there.

* `Instruction.SpelledBy` — the token that an instruction was compiled from.  Every instruction of
  compiled code has one (`Compiles.spelled`).
* `Config.Belongs` — all code that is being carried out, and every word that can be called, belongs to
  the program.
* `ActiveCalls` — the suspended callers match the calls in progress, one by one: each call was made at an
  earlier head, by the instruction at its place, in the body that the call around it led to.
  `ActiveCalls.passage` is the step lemma and `Path.activeCalls` the run lemma.
* `Config.FailsIn` — the calls in progress where an instruction fails, that of a failing native word
  included.

Principal result: `fault_reports_active_calls`.
-/

set_option autoImplicit false

namespace StackScript

/-! ## Places in the source -/

/-- The instruction was compiled from this token, and has its place. -/
def Instruction.SpelledBy (token : Token) (instruction : Instruction) : Prop :=
  instruction.location = some token.location ∧
    match instruction with
    | .primitive _ operation => Primitive.ofName? token.text = some operation
    | .push _ _ => True
    | .define _ _ _ => token.text = ":"
    | .execute _ name => token.text = name
    | .jumpIfFalse _ _ => token.text = "if"
    | .jump _ _ => token.text = "then"

theorem Token.instruction_spelledBy (token : Token) : token.instruction.SpelledBy token := by
  rcases token.instruction_cases with ⟨operation, ho, he⟩ | ⟨value, he⟩ | he
  · rw [he]
    exact ⟨rfl, ho⟩
  · rw [he]
    exact ⟨rfl, trivial⟩
  · rw [he]
    exact ⟨rfl, rfl⟩

/-- **Every instruction of compiled code was compiled from one of the tokens.** -/
theorem Compiles.spelled {tokens : List Token} {code : Code} {instruction : Instruction}
    (h : Compiles tokens code) (hi : Code.Holds instruction code) :
    ∃ token ∈ tokens, instruction.SpelledBy token := by
  induction h with
  | nil => exact absurd hi Code.not_holds_nil
  | @plain token rest code _ _ ih =>
    rcases Code.holds_cons.1 hi with (rfl | ⟨location, name, body, he, -⟩) | hi
    · exact ⟨token, List.mem_cons_self, token.instruction_spelledBy⟩
    · rcases token.instruction_cases with ⟨operation, -, ht⟩ | ⟨value, ht⟩ | ht
      · rw [ht] at he; cases he
      · rw [ht] at he; cases he
      · rw [ht] at he; cases he
    · obtain ⟨found, hm, hs⟩ := ih hi
      exact ⟨found, List.mem_cons_of_mem _ hm, hs⟩
  | @definition colon name semicolon row after bodyCode code hcolon _ _ _ _ _ ihbody ihafter =>
    rcases Code.holds_cons.1 hi with (rfl | ⟨location, name, body, he, hi⟩) | hi
    · exact ⟨colon, List.mem_cons_self, rfl, hcolon⟩
    · cases he
      obtain ⟨found, hm, hs⟩ := ihbody hi
      exact ⟨found, by simp [hm], hs⟩
    · obtain ⟨found, hm, hs⟩ := ihafter hi
      exact ⟨found, by simp [hm], hs⟩
  | @conditional opening middle closing whenTrue whenFalse after trueCode falseCode code hopening
      hmiddle _ _ _ _ _ _ ihtrue ihfalse ihafter =>
    simp only [StackScript.conditional, List.cons_append, List.append_assoc, Code.holds_cons,
      Code.holds_append, reduceCtorEq, false_and, exists_false, or_false] at hi
    rcases hi with rfl | hi | rfl | hi | hi
    · exact ⟨opening, List.mem_cons_self, rfl, hopening⟩
    · obtain ⟨found, hm, hs⟩ := ihtrue hi
      exact ⟨found, by simp [hm], hs⟩
    · exact ⟨middle, by simp, rfl, hmiddle⟩
    · obtain ⟨found, hm, hs⟩ := ihfalse hi
      exact ⟨found, by simp [hm], hs⟩
    · obtain ⟨found, hm, hs⟩ := ihafter hi
      exact ⟨found, by simp [hm], hs⟩

/-! ## The code of a program -/

theorem Code.Holds.of_define {code body : Code} {instruction : Instruction}
    {location : Option Location} {name : String}
    (hd : Code.Holds (.define location name body) code) (h : Code.Holds instruction body) :
    Code.Holds instruction code := by
  induction hd with
  | here hm => exact .inside hm h
  | inside hm _ ih => exact .inside hm ih

theorem Code.IsBodyOf.holds {code body : Code} {instruction : Instruction}
    (hb : code.IsBodyOf body) (h : Code.Holds instruction body) : Code.Holds instruction code := by
  rcases hb with rfl | ⟨location, name, hd⟩
  · exact h
  · exact hd.of_define h

/-- A demonstration word of the host, or a word that the program defines. -/
def Word.DefinedIn (code : Code) (word : Word HostWord) : Prop :=
  match word.body with
  | .native native => native ∈ HostWord.demonstration
  | .scripted body => ∃ location name, Code.Holds (.define location name body) code

theorem Word.DefinedIn.settles {code : Code} {word : Word HostWord} (h : word.DefinedIn code) :
    word.Settles := by
  intro native hb
  simpa only [DefinedIn, hb] using h

namespace Config

/-- All code being carried out, and every bound word, belongs to the program. -/
structure Belongs (code : Code) (config : Config HostWord) : Prop where
  body : code.IsBodyOf config.code.toList
  callers : ∀ frame ∈ config.callers, code.IsBodyOf frame.code.toList
  words : config.state.forest.EveryWord (Word.DefinedIn code)

variable {code : Code} {config next : Config HostWord}

theorem Belongs.settles (h : config.Belongs code) :
    config.state.forest.EveryWord Word.Settles :=
  fun scope word hm => (h.words scope word hm).settles

theorem Belongs.holds (h : config.Belongs code) {instruction : Instruction}
    (hi : config.code[config.position]? = some instruction) : Code.Holds instruction code := by
  rw [← Array.getElem?_toList] at hi
  exact h.body.holds (.here (List.mem_of_getElem? hi))

/-- **Code that belongs to a program leads to such code only.** -/
theorem Belongs.passage (h : config.Belongs code) (hp : config.Passage hostRoutine next) :
    next.Belongs code := by
  have hwords : next.state.forest.EveryWord (Word.DefinedIn code) := by
    refine hp.everyWord (fun word hw => hw.settles) ?_ h.words
    intro location name body hi place
    exact ⟨location, name, h.holds hi⟩
  cases hp with
  | leave hi hc =>
    have hcallers := h.callers
    rw [hc] at hcallers
    exact ⟨hcallers _ List.mem_cons_self, fun frame hm => hcallers frame (List.mem_cons_of_mem _ hm),
      hwords⟩
  | move hi hm => exact ⟨h.body, h.callers, hwords⟩
  | @enter location name word body ho hb =>
    have hword : word.DefinedIn code := h.words.lookup ho.lookup
    simp only [Word.DefinedIn, hb] at hword
    refine ⟨Or.inr ?_, ?_, hwords⟩
    · exact hword
    · intro frame hm
      rcases List.mem_cons.1 hm with rfl | hm
      · exact h.body
      · exact h.callers frame hm
  | native ho hb hp => exact ⟨h.body, h.callers, hwords⟩

/-- Every instruction that is carried out has its place in the source. -/
theorem Belongs.spelled (h : config.Belongs code) {tokens : List Token} (hc : Compiles tokens code)
    {instruction : Instruction} (hi : config.code[config.position]? = some instruction) :
    ∃ token ∈ tokens, instruction.SpelledBy token :=
  hc.spelled (h.holds hi)

end Config

theorem Path.belongs {code : Code} {start config : Config HostWord} {heads : List (Config HostWord)}
    (h : Path hostRoutine start heads config) (hs : start.Belongs code) : config.Belongs code := by
  induction h with
  | nil => exact hs
  | snoc _ hg ih => exact ih.passage hg.passage

/-! ## The chain of calls -/

/-- The instruction at hand is the call that `item` notes, and its word is bound to `word`. -/
structure Config.Calls (config : Config HostWord) (item : CallItem) (word : Word HostWord) :
    Prop where
  instruction : config.code[config.position]? = some (.execute (some item.location) item.word)
  lookup : config.state.forest.lookup config.state.scope item.word = some word

/-- The callers that are suspended and the calls that are in progress, innermost first, while `code` is
being carried out.  Without any, that is the code of the program.  Else the innermost call was made at
one of the heads, by an instruction of the code that the calls around it led to, and `code` is the body
of the word that was found then. -/
inductive ActiveCalls (heads : List (Config HostWord)) (program : Array Instruction) :
    List Frame → List CallItem → Array Instruction → Prop where
  | none : ActiveCalls heads program [] [] program
  | call {caller : Config HostWord} {item : CallItem} {word : Word HostWord} {body : Code}
      (hcaller : caller ∈ heads)
      (hactive : ActiveCalls heads program caller.callers caller.state.calls.items caller.code)
      (hcalls : caller.Calls item word) (hbody : word.body = .scripted body) :
      ActiveCalls heads program
        (⟨caller.code, caller.position + 1, caller.state.scope⟩ :: caller.callers)
        (item :: caller.state.calls.items) body.toArray

/-- The calls in progress where the instruction at hand fails: it stands in the body of the innermost call or
in the program, or it is that call itself, of a native word. -/
inductive Config.FailsIn (heads : List (Config HostWord)) (program : Array Instruction)
    (config : Config HostWord) : List CallItem → Prop where
  | body {items : List CallItem}
      (hactive : ActiveCalls heads program config.callers items config.code) :
      FailsIn heads program config items
  | native {item : CallItem} {items : List CallItem} {word : Word HostWord} {native : HostWord}
      (hcalls : config.Calls item word) (hbody : word.body = .native native)
      (hactive : ActiveCalls heads program config.callers items config.code) :
      FailsIn heads program config (item :: items)

namespace ActiveCalls

variable {heads : List (Config HostWord)} {program : Array Instruction}

theorem mono {more : List (Config HostWord)} (hsub : heads ⊆ more) {frames : List Frame}
    {items : List CallItem} {code : Array Instruction}
    (h : ActiveCalls heads program frames items code) :
    ActiveCalls more program frames items code := by
  induction h with
  | none => exact .none
  | call hcaller _ hcalls hbody ih => exact .call (hsub hcaller) ih hcalls hbody

/-- When the innermost call ends, its caller goes on. -/
theorem tail {frame : Frame} {frames : List Frame} {items : List CallItem}
    {code : Array Instruction} (h : ActiveCalls heads program (frame :: frames) items code) :
    ActiveCalls heads program frames items.tail frame.code := by
  cases h with
  | call _ hactive _ _ => exact hactive

/-- **From head to head the suspended callers match the calls in progress**, as long as call
instructions know their places. -/
theorem passage {config next : Config HostWord}
    (h : ActiveCalls heads program config.callers config.state.calls.items config.code)
    (hp : config.Passage hostRoutine next) (hwords : config.state.forest.EveryWord Word.Settles)
    (hplaced : ∀ location name, config.code[config.position]? = some (.execute location name) →
      ∃ place, location = some place) :
    ActiveCalls (heads ++ [config]) program next.callers next.state.calls.items next.code := by
  have hmore := h.mono (List.subset_append_left heads [config])
  cases hp with
  | leave hi hc =>
    rw [hc] at hmore
    exact hmore.tail
  | @move instruction offset state hi hm =>
    have hbalanced := (State.Balanced.moveTo config.state instruction.location).trans
      (Instruction.move_balanced hm)
    show ActiveCalls _ _ config.callers state.calls.items config.code
    rw [show state.calls = config.state.calls from hbalanced.calls]
    exact hmore
  | @enter location name word body ho hb =>
    obtain ⟨place, rfl⟩ := hplaced location name ho.instruction
    exact .call (List.mem_append_right _ (List.mem_singleton_self config)) hmore
      ⟨ho.instruction, ho.lookup⟩ hb
  | @native location name word native state ho hb hp =>
    have hdata := ho.dataOnly hb hp hwords
    have hcalls : state.endCall.calls = config.state.calls := by
      show state.calls.pop = config.state.calls
      rw [show state.calls = (config.opened location name).calls from hdata.calls]
      simp only [Config.opened, State.openCall_calls, CallStack.pop_push, State.moveTo_calls]
    show ActiveCalls _ _ config.callers state.endCall.calls.items config.code
    rw [hcalls]
    exact hmore

end ActiveCalls

/-- **At every head of a compiled program, the suspended callers match the calls in progress.** -/
theorem Path.activeCalls {tokens : List Token} {code : Code} {state : State HostWord}
    {heads : List (Config HostWord)} {config : Config HostWord} (hc : Compiles tokens code)
    (hs : (Config.start code state).Belongs code) (hcalls : state.calls.items = [])
    (h : Path hostRoutine (Config.start code state) heads config) :
    ActiveCalls heads code.toArray config.callers config.state.calls.items config.code := by
  induction h with
  | nil =>
    show ActiveCalls [] code.toArray [] state.calls.items code.toArray
    rw [hcalls]
    exact .none
  | snoc hpath hg ih =>
    have hbelongs := hpath.belongs hs
    refine ih.passage hg.passage hbelongs.settles ?_
    intro location name hi
    obtain ⟨token, -, hlocation, -⟩ := hbelongs.spelled hc hi
    exact ⟨token.location, hlocation⟩

/-! ## The fault at the end -/

/-- **A fault reports the place of the instruction that failed and the calls in progress there.** -/
theorem Config.Ending.reports {heads : List (Config HostWord)} {program : Array Instruction}
    {config stopped : Config HostWord} {fault : Fault} {place : Location}
    {instruction : Instruction} (h : config.Ending hostRoutine (.failed fault stopped))
    (hi : config.code[config.position]? = some instruction)
    (hplace : instruction.location = some place)
    (hwords : config.state.forest.EveryWord Word.Settles)
    (hactive : ActiveCalls heads program config.callers config.state.calls.items config.code)
    (hkind : fault.kind ≠ .io) :
    fault.location = some place ∧
      ∃ calls, fault.calls = some calls ∧ config.FailsIn heads program calls.items := by
  cases h with
  | @fault other _ state hother hm =>
    rw [hi] at hother
    cases hother
    rw [hplace] at hm
    obtain ⟨hlocation, hcalls⟩ := (Instruction.fault_raisedIn hm).eq_of_kind hkind
    exact ⟨hlocation, _, hcalls, .body hactive⟩
  | @refused location name _ hother hb =>
    rw [hi] at hother
    cases hother
    obtain rfl : location = some place := hplace
    rcases State.beginCall_error hb with ⟨-, rfl⟩ | ⟨word, -, -, rfl⟩
    · exact ⟨rfl, _, rfl, .body hactive⟩
    · exact ⟨rfl, _, rfl, .body hactive⟩
  | @native location name word native _ state ho hb hp =>
    have hother := ho.instruction
    rw [hi] at hother
    cases hother
    obtain rfl : location = some place := hplace
    have hraises := hp.raises
      (HostWord.raises_of_demonstration (hwords.lookup ho.lookup native hb))
    obtain ⟨hlocation, hcalls⟩ := Fault.RaisedIn.eq_of_kind hraises hkind
    exact ⟨hlocation, _, hcalls, .native ⟨ho.instruction, ho.lookup⟩ hb hactive⟩

theorem Config.Ending.instruction {ν : Type} {host : Host ν} {config stopped : Config ν}
    {fault : Fault} (h : config.Ending host (.failed fault stopped)) :
    ∃ instruction, config.code[config.position]? = some instruction := by
  cases h with
  | fault hi _ => exact ⟨_, hi⟩
  | refused hi _ => exact ⟨_, hi⟩
  | native ho _ _ => exact ⟨_, ho.instruction⟩

/-- Unwinding reports the fault as it was raised. -/
theorem Halt.unwind_eq_failed {ν : Type} {halt : Halt ν} {depth : Nat} {fault : Fault}
    {final : State ν} (h : .failed fault final = halt.unwind depth) :
    ∃ stopped, halt = .failed fault stopped := by
  cases halt with
  | finished state => cases h
  | failed other stopped =>
    cases h
    exact ⟨stopped, rfl⟩

/-! ## Launched programs -/

def Word.IsDemonstration (word : Word HostWord) : Prop :=
  ∃ native ∈ HostWord.demonstration, word.body = .native native

def State.launched {ν : Type} (surface : ScopeId) (state : State ν) : State ν :=
  { state with
    stack := []
    forest := state.forest.newChild surface
    scope := state.forest.size
    location := none
    calls := CallStack.empty }

theorem Program.launch_eq {ν : Type} (host : Host ν) (fuel : Nat) (program : Program)
    (surface : ScopeId) (state : State ν) :
    program.launch host fuel surface state = runCode host fuel program.code (state.launched surface) :=
  rfl

theorem Config.belongs_launched {state : State HostWord} (code : Code) (surface : ScopeId)
    (hwords : state.forest.EveryWord Word.IsDemonstration) :
    (Config.start code (state.launched surface)).Belongs code := by
  refine ⟨Or.inl rfl, fun frame hm => absurd hm List.not_mem_nil, ?_⟩
  have hdefined : state.forest.EveryWord (Word.DefinedIn code) := by
    intro scope word hm
    obtain ⟨native, hn, hb⟩ := hwords scope word hm
    simpa only [Word.DefinedIn, hb] using hn
  exact hdefined.newChild surface

/-- **Faults tell the truth.**  Let a program compiled from a source fail, launched on a machine that
binds demonstration words or none, and not in writing.  Then the fault reports the place of the token
that the failing instruction was compiled from, and exactly the active calls: the outermost was made by
the program itself, at its place, and each further one in the body that the name of the call around it
was bound to when it was called.  The failing instruction stands in the body of the innermost call, or
is that call itself if it is one of a native word. -/
theorem fault_reports_active_calls {path source : String} {program : Program} {surface : ScopeId}
    {state final : State HostWord} {fuel : Nat} {fault : Fault}
    (hcompile : Program.compile path source = .ok program)
    (hwords : state.forest.EveryWord Word.IsDemonstration)
    (hrun : program.launch hostRoutine fuel surface state = some (.failed fault final))
    (hkind : fault.kind ≠ .io) :
    ∃ tokens token heads last stopped instruction calls,
      Token.scan path source = .ok tokens ∧ token ∈ tokens ∧
      Path hostRoutine (Config.start program.code (state.launched surface)) heads last ∧
      last.Stops hostRoutine (.failed fault stopped) ∧
      last.code[last.position]? = some instruction ∧ instruction.SpelledBy token ∧
      fault.location = some token.location ∧ fault.calls = some calls ∧
      last.FailsIn heads program.code.toArray calls.items := by
  obtain ⟨-, tokens, hscan, hc⟩ := Program.compile_eq_ok_iff.1 hcompile
  rw [Program.launch_eq] at hrun
  obtain ⟨heads, last, halt, hpath, hstop, hunwind⟩ := runCode_path hrun
  obtain ⟨stopped, rfl⟩ := Halt.unwind_eq_failed hunwind
  have hstart := Config.belongs_launched program.code surface hwords
  have hbelongs := hpath.belongs hstart
  have hactive := hpath.activeCalls hc hstart rfl
  obtain ⟨instruction, hi⟩ := hstop.ending.instruction
  obtain ⟨token, hm, hspelled⟩ := hbelongs.spelled hc hi
  obtain ⟨hlocation, calls, hcalls, hfails⟩ :=
    hstop.ending.reports hi hspelled.1 hbelongs.settles hactive hkind
  exact ⟨tokens, token, heads, last, stopped, instruction, calls, hscan, hm, hpath, hstop, hi,
    hspelled, hlocation, hcalls, hfails⟩

/-- A name by itself compiles to its call. -/
theorem Compiles.call (location : Location) {name : String} (hplain : name ≠ ":" ∧ name ≠ "if")
    (hop : Primitive.ofName? name = none) (hstring : Token.string? ⟨location, name⟩ = none)
    (hnumber : Numeral.read? name = none) :
    Compiles [⟨location, name⟩] [.execute (some location) name] := by
  have hi : (Token.mk location name).instruction = .execute (some location) name := by
    simp only [Token.instruction, hop, hstring, hnumber]
  rw [← hi]
  exact .plain hplain .nil

/-- A native word fails for want of a value, called by a word that the program calls. -/
theorem fault_reports_active_calls_native :
    ∃ program fault final heads last calls,
      Program.compile "show" ": show print ; show" = .ok program ∧
      program.launch hostRoutine 20 0 (State.initial HostWord.demonstration .closed 10) =
        some (.failed fault final) ∧
      fault.kind = .stackUnderflow ∧ fault.location = some ⟨"show", 1, 8⟩ ∧
      fault.calls = some calls ∧
      calls.items = [⟨"print", ⟨"show", 1, 8⟩⟩, ⟨"show", ⟨"show", 1, 16⟩⟩] ∧
      Config.FailsIn heads program.code.toArray last calls.items := by
  have hbody : Compiles [⟨⟨"show", 1, 8⟩, "print"⟩] [.execute (some ⟨"show", 1, 8⟩) "print"] :=
    .call _ (by decide) rfl (by simp [Token.string?]) rfl
  have hcall : Compiles [⟨⟨"show", 1, 16⟩, "show"⟩] [.execute (some ⟨"show", 1, 16⟩) "show"] :=
    .call _ (by decide) rfl (by simp [Token.string?]) rfl
  have hcode := @Compiles.definition ⟨⟨"show", 1, 1⟩, ":"⟩ ⟨⟨"show", 1, 3⟩, "show"⟩
    ⟨⟨"show", 1, 14⟩, ";"⟩ _ _ _ _ rfl (by decide) rfl (by unfold Lacks; decide) hbody hcall
  have hcompile : Program.compile "show" ": show print ; show" = .ok ⟨"show", _⟩ :=
    Program.compile_eq_ok_iff.2 ⟨rfl, _, rfl, hcode⟩
  have hwords : (State.initial HostWord.demonstration .closed 10).forest.EveryWord
      Word.IsDemonstration := State.initial_everyWord .closed 10 fun word hm => ⟨word, hm, rfl⟩
  have hfault : (Program.launch hostRoutine 20 ⟨"show", [.define (some ⟨"show", 1, 1⟩) "show"
      [.execute (some ⟨"show", 1, 8⟩) "print"], .execute (some ⟨"show", 1, 16⟩) "show"]⟩ 0
      (State.initial HostWord.demonstration .closed 10)).map Outcome.fault? =
        some (some ⟨.stackUnderflow, some ⟨"show", 1, 8⟩, some (CallStack.ofItems
          [⟨"print", ⟨"show", 1, 8⟩⟩, ⟨"show", ⟨"show", 1, 16⟩⟩])⟩) := rfl
  obtain ⟨outcome, hrun, he⟩ := Option.map_eq_some_iff.1 hfault
  cases outcome with
  | done final => cases he
  | failed fault final =>
    cases he
    obtain ⟨-, -, heads, last, -, -, calls, -, -, -, -, -, -, -, hcalls, hfails⟩ :=
      fault_reports_active_calls hcompile hwords hrun (by decide)
    cases hcalls
    exact ⟨_, _, final, heads, last, _, hcompile, hrun, rfl, rfl, rfl, rfl, hfails⟩

end StackScript
