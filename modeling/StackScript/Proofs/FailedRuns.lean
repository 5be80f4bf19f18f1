import StackScript.Proofs.LineDiscipline
import StackScript.Proofs.Room

/-!
# What a failed run leaves behind

A run that fails is not undone: whoever started it goes on with the stack, the scopes and the output as
the failing instruction found them, less the values that it had already taken off the stack.  If it failed
because the sink refused a text, then a part of that text may have been written.

* `Fault.Leaves` — what a fault means for the sink.
* `State.Loses` — between two states some topmost values are lost, and nothing else has happened.
* `Outcome.FailsTaking` — an operation that fails does so after taking such values, and nothing else:
  `Primitive.effect_taking` for primitives, `HostWord.perform_taking` for the demonstration words.
* `Config.Takes` — what the instruction at hand takes off the stack when it fails, and
  `Config.Ending.takes`, which says that this is all it does.

Principal result: `failed_run_keeps_work`.
-/

set_option autoImplicit false

namespace StackScript

variable {ν : Type}

/-! ## Values that are lost -/

/-- The sink refuses the text, or the rest of it. -/
def Sink.Refuses (sink : Sink) (text : String) : Prop :=
  ∃ count reason, sink.reply [] text = .refused count reason

/-- The sink is as it was, unless the fault says that it has refused a text. -/
inductive Fault.Leaves (before : Sink) : Fault → Sink → Prop where
  | same (fault : Fault) : Leaves before fault before
  | refused {text : String} {count : Nat} {reason : String}
      (h : before.reply [] text = .refused count reason) :
      Leaves before (ofInputOutput (.sinkFailed reason)) (before.after text)

theorem Fault.Leaves.eq_of_kind {before after : Sink} {fault : Fault} (h : fault.Leaves before after)
    (hk : fault.kind ≠ .io) : after = before := by
  cases h with
  | same => rfl
  | refused hr => exact absurd rfl hk

/-- The values `taken` are gone from the top of the stack, and all else is as the fault leaves it: the
values below them, the scopes and what they bind, and the output. -/
structure State.Loses (before : State ν) (fault : Fault) (taken : List Value) (after : State ν) :
    Prop where
  stack : before.stack = taken ++ after.stack
  forest : after.forest = before.forest
  sink : fault.Leaves before.sink after.sink

theorem State.loses_nothing (state : State ν) (fault : Fault) : state.Loses fault [] state :=
  ⟨rfl, rfl, .same fault⟩

/-- What an operation starts from differs from the state before by its place and its call only. -/
theorem State.Loses.congr {before other after : State ν} {fault : Fault} {taken : List Value}
    (h : other.Loses fault taken after) (hstack : other.stack = before.stack)
    (hforest : other.forest = before.forest) (hsink : other.sink = before.sink) :
    before.Loses fault taken after :=
  ⟨hstack ▸ h.stack, hforest ▸ h.forest, hsink ▸ h.sink⟩

/-- If the operation fails, then it has lost values that `P` allows, and done nothing else. -/
def Outcome.FailsTaking (state : State ν) (P : List Value → Prop) : Outcome ν → Prop
  | .done _ => True
  | .failed fault after => ∃ taken, P taken ∧ state.Loses fault taken after

theorem State.fail_taking (state : State ν) (cause : Fault.Cause) {P : List Value → Prop}
    (h : P []) : (state.fail cause).FailsTaking state P :=
  ⟨[], h, state.loses_nothing _⟩

/-- Writing takes no value, and fails where the sink refuses the text. -/
theorem State.write_taking (state : State ν) (text : String) {P : List Value → Prop}
    (h : state.sink.Refuses text → P []) : (state.write text).FailsTaking state P := by
  rcases state.write_cases text with ⟨-, hw⟩ | ⟨count, reason, hr, hw⟩
  · rw [hw]
    trivial
  · rw [hw]
    exact ⟨[], h ⟨count, reason, hr⟩, rfl, rfl, .refused hr⟩

/-! ## Primitives -/

/-- Does the operation take two operands? -/
def Primitive.isBinary : Primitive → Bool
  | .add | .subtract | .multiply | .divide | .equal | .greaterThan => true
  | .dup | .drop | .not | .spew | .package | .endPackage => false

/-- Operands are lost as far as they are there, if nothing else goes wrong with them. -/
theorem State.withOperands_taking (state : State ν) {next : Value → Value → State ν → Outcome ν}
    (h : ∀ b a (s : State ν), (next b a s).FailsTaking s (· = [])) :
    (state.withOperands next).FailsTaking state (· = state.stack.take 2) := by
  unfold withOperands
  split
  · rename_i a b rest hs
    have hnext := h b a { state with stack := rest }
    cases hn : next b a { state with stack := rest } with
    | done after => trivial
    | failed fault after =>
      rw [hn] at hnext
      obtain ⟨taken, rfl, hlost⟩ := hnext
      have hrest : rest = after.stack := hlost.stack
      refine ⟨[a, b], by rw [hs]; rfl, ?_, hlost.forest, hlost.sink⟩
      rw [hs, hrest]
      rfl
  · rename_i a hs
    exact ⟨[a], by rw [hs]; rfl, hs, rfl, .same _⟩
  · rename_i hs
    exact state.fail_taking _ (by rw [hs]; rfl)

theorem State.arithmetic_taking (state : State ν) (operation : Primitive)
    (compute : Float → Float → Float) :
    (state.arithmetic operation compute).FailsTaking state (· = state.stack.take 2) := by
  refine state.withOperands_taking fun b a s => ?_
  split
  · trivial
  · exact s.fail_taking _ rfl

theorem Outcome.FailsTaking.imp {state : State ν} {P Q : List Value → Prop} {outcome : Outcome ν}
    (h : outcome.FailsTaking state P) (hi : ∀ taken, P taken → Q taken) :
    outcome.FailsTaking state Q := by
  cases outcome with
  | done after => trivial
  | failed fault after =>
    obtain ⟨taken, htaken, hlost⟩ := h
    exact ⟨taken, hi taken htaken, hlost⟩

/-- **A primitive that fails loses its operands if it takes two, and nothing otherwise.** -/
theorem Primitive.effect_taking (operation : Primitive) (state : State ν) :
    (operation.effect state).FailsTaking state fun taken =>
      taken = [] ∨ operation.isBinary = true ∧ taken = state.stack.take 2 := by
  have hbinary : ∀ {outcome : Outcome ν}, operation.isBinary = true →
      outcome.FailsTaking state (· = state.stack.take 2) →
      outcome.FailsTaking state fun taken =>
        taken = [] ∨ operation.isBinary = true ∧ taken = state.stack.take 2 :=
    fun hb h => h.imp fun taken ht => Or.inr ⟨hb, ht⟩
  cases operation with
  | dup =>
    simp only [effect]
    split
    · exact state.fail_taking _ (Or.inl rfl)
    · trivial
  | drop =>
    simp only [effect]
    split
    · exact state.fail_taking _ (Or.inl rfl)
    · trivial
  | add =>
    refine hbinary rfl ?_
    simp only [effect]
    refine state.withOperands_taking fun b a s => ?_
    split
    · trivial
    · exact s.fail_taking _ rfl
  | subtract => exact hbinary rfl (state.arithmetic_taking _ _)
  | multiply => exact hbinary rfl (state.arithmetic_taking _ _)
  | divide => exact hbinary rfl (state.arithmetic_taking _ _)
  | equal =>
    refine hbinary rfl ?_
    simp only [effect]
    exact state.withOperands_taking fun b a s => trivial
  | greaterThan =>
    refine hbinary rfl ?_
    simp only [effect]
    refine state.withOperands_taking fun b a s => ?_
    split
    · trivial
    · exact s.fail_taking _ rfl
  | not =>
    simp only [effect]
    split
    · exact state.fail_taking _ (Or.inl rfl)
    · trivial
  | spew =>
    simp only [effect]
    split
    · exact state.fail_taking _ (Or.inl rfl)
    · exact state.write_taking _ fun _ => Or.inl rfl
  | package => trivial
  | endPackage =>
    simp only [effect]
    split
    · exact state.fail_taking _ (Or.inl rfl)
    · trivial

/-! ## Native words -/

theorem Routine.writeLast_taking {machine : Reentry ν} {state : State ν} {outcome : Outcome ν}
    {text : String} (hp : (writeLast text).perform machine state = some outcome) :
    outcome.FailsTaking state fun taken => taken = [] ∧ state.sink.Refuses text := by
  rw [perform_writeLast] at hp
  cases hp
  exact state.write_taking text fun hr => ⟨rfl, hr⟩

/-- A value that is popped first is lost with whatever is lost after it. -/
theorem Outcome.FailsTaking.cons {state : State ν} {value : Value} {rest : List Value}
    {P : List Value → Prop} {outcome : Outcome ν} (hs : state.stack = value :: rest)
    (h : outcome.FailsTaking { state with stack := rest } P) :
    outcome.FailsTaking state fun taken => ∃ others, taken = value :: others ∧ P others := by
  cases outcome with
  | done after => trivial
  | failed fault after =>
    obtain ⟨others, hothers, hlost⟩ := h
    have hrest : rest = others ++ after.stack := hlost.stack
    exact ⟨value :: others, ⟨others, rfl, hothers⟩, by rw [hs, hrest]; rfl, hlost.forest, hlost.sink⟩

/-- The word takes this value and fails: one that is no text but should name a kind of object, or one
whose written form the sink refuses. -/
def HostWord.FailsOn (state : State ν) (word : HostWord) (value : Value) : Prop :=
  word = .createObject ∧ value.kind ≠ .string ∨
    word = .print ∧ state.sink.Refuses (state.display value ++ "\n")

open Routine in
/-- **A demonstration word that fails loses the value it fails on, or nothing.** -/
theorem HostWord.perform_taking {word : HostWord} (hw : word ∈ demonstration)
    {machine : Reentry HostWord} {state : State HostWord} {outcome : Outcome HostWord}
    (hp : (hostRoutine word).perform machine state = some outcome) :
    outcome.FailsTaking state fun taken =>
      taken = [] ∨ ∃ value, taken = [value] ∧ word.FailsOn state value := by
  -- for want of a value the state is left as it is
  have hwant : outcome.state = state → outcome.FailsTaking state fun taken =>
      taken = [] ∨ ∃ value, taken = [value] ∧ word.FailsOn state value := by
    intro he
    cases outcome with
    | done after => trivial
    | failed fault after =>
      obtain rfl : after = state := he
      exact ⟨[], Or.inl rfl, after.loses_nothing fault⟩
  simp only [demonstration, List.mem_cons, List.not_mem_nil, or_false] at hw
  rcases hw with rfl | rfl | rfl | rfl
  · rcases popValue_cases hp with ⟨he, -⟩ | ⟨value, rest, hs, hp⟩
    · exact hwant he
    · refine ((writeLast_taking hp).cons hs).imp ?_
      rintro taken ⟨others, rfl, rfl, hrefuses⟩
      exact Or.inr ⟨value, rfl, Or.inr ⟨rfl, hrefuses⟩⟩
  · exact (writeLast_taking hp).imp fun taken h => Or.inl h.1
  · exact (writeLast_taking hp).imp fun taken h => Or.inl h.1
  · rcases popValue_cases hp with ⟨he, -⟩ | ⟨value, rest, hs, hp⟩
    · exact hwant he
    · have hother : value.kind ≠ .string → outcome.FailsTaking { state with stack := rest } (· = []) →
          outcome.FailsTaking state fun taken =>
            taken = [] ∨ ∃ value, taken = [value] ∧ HostWord.FailsOn state .createObject value := by
        intro hk h
        refine (h.cons hs).imp ?_
        rintro taken ⟨others, rfl, rfl⟩
        exact Or.inr ⟨value, rfl, Or.inl ⟨rfl, hk⟩⟩
      cases value with
      | text kind =>
        cases hp
        trivial
      | number x => cases hp; exact hother (by simp [Value.kind]) (State.fail_taking _ _ rfl)
      | bool b => cases hp; exact hother (by simp [Value.kind]) (State.fail_taking _ _ rfl)
      | package scope => cases hp; exact hother (by simp [Value.kind]) (State.fail_taking _ _ rfl)
      | host object => cases hp; exact hother (by simp [Value.kind]) (State.fail_taking _ _ rfl)

/-! ## The failing instruction -/

/-- What the instruction at hand takes off the stack when it fails.  Most take nothing; an operation on two
values takes its operands, as far as they are there, and a native word the value that it fails on. -/
inductive Config.Takes (config : Config HostWord) : List Value → Prop where
  | nothing : Takes config []
  | operands {location : Option Location} {operation : Primitive}
      (hi : config.code[config.position]? = some (.primitive location operation))
      (hb : operation.isBinary = true) : Takes config (config.state.stack.take 2)
  | value {location : Option Location} {name : String} {word : Word HostWord} {native : HostWord}
      {value : Value} (ho : config.Opens location name word) (hb : word.body = .native native)
      (hv : native.FailsOn config.state value) : Takes config [value]

theorem Config.Takes.length_le {config : Config HostWord} {taken : List Value}
    (h : config.Takes taken) : taken.length ≤ 2 := by
  cases h with
  | nothing => simp
  | operands hi hb => exact List.length_take_le 2 _
  | value ho hb hv => simp

/-- **Where the machine fails, nothing has happened but what the failing instruction takes.** -/
theorem Config.Ending.takes {config stopped : Config HostWord} {fault : Fault}
    (h : config.Ending hostRoutine (.failed fault stopped))
    (hwords : config.state.forest.EveryWord Word.Settles) :
    ∃ taken, config.Takes taken ∧ config.state.Loses fault taken stopped.state := by
  have hmoved : ∀ location, config.state.Loses fault [] (config.state.moveTo location) :=
    fun location => (State.loses_nothing _ fault).congr (State.moveTo_stack _ _)
      (State.moveTo_forest _ _) (State.moveTo_sink _ _)
  cases h with
  | @fault instruction _ state hi hm =>
    rcases Instruction.fault_cases hm with ⟨location, operation, rfl, he⟩ | ⟨-, -, rfl⟩
    · have hfails := operation.effect_taking (config.state.moveTo location)
      rw [show operation.effect (config.state.moveTo location) = _ from he] at hfails
      obtain ⟨taken, htaken, hlost⟩ := hfails
      refine ⟨taken, ?_, hlost.congr (State.moveTo_stack _ _) (State.moveTo_forest _ _)
        (State.moveTo_sink _ _)⟩
      rcases htaken with rfl | ⟨hb, rfl⟩
      · exact .nothing
      · rw [State.moveTo_stack]
        exact .operands hi hb
    · exact ⟨[], .nothing, hmoved _⟩
  | @refused location name _ hi hb => exact ⟨[], .nothing, hmoved location⟩
  | @native location name word native _ state ho hb hp =>
    obtain ⟨fuel, hf⟩ := hp
    have hsink : (config.opened location name).sink = config.state.sink := State.moveTo_sink _ _
    obtain ⟨taken, htaken, hlost⟩ := HostWord.perform_taking
      (hwords.lookup ho.lookup native hb) (hf fuel (Nat.le_refl fuel))
    refine ⟨taken, ?_, hlost.congr (State.moveTo_stack _ _) (opened_forest _ _) hsink⟩
    rcases htaken with rfl | ⟨value, rfl, hv⟩
    · exact .nothing
    · refine .value ho hb ?_
      have hdisplay : (config.opened location name).display value = config.state.display value :=
        State.display_moveTo config.state location value
      unfold HostWord.FailsOn at hv ⊢
      rwa [hsink, hdisplay] at hv

/-- **A failed run keeps what was done before the failing instruction.**  Let every native word in sight be
a demonstration word, and let some code fail.  At the head where it fails, at whatever depth of calls, the
stack is that of the end with at most two more values on top: the operands of an operation on two values, a
value that is no text but should name a kind of object, or a value whose written form the sink refused.  The
scopes and what they bind are those of the end, and so is the output, but for a part of the text that the
sink refused, if that is the fault. -/
theorem failed_run_keeps_work {code : Code} {state final : State HostWord} {fuel : Nat}
    {fault : Fault} (hwords : state.forest.EveryWord Word.Settles)
    (hrun : runCode hostRoutine fuel code state = some (.failed fault final)) :
    ∃ heads last stopped instruction taken,
      Path hostRoutine (Config.start code state) heads last ∧
      last.Stops hostRoutine (.failed fault stopped) ∧
      last.code[last.position]? = some instruction ∧
      last.state.stack = taken ++ final.stack ∧ taken.length ≤ 2 ∧ last.Takes taken ∧
      final.forest = last.state.forest ∧ fault.Leaves last.state.sink final.sink ∧
      (fault.kind ≠ .io → final.sink = last.state.sink) := by
  obtain ⟨heads, last, halt, hpath, hstop, hunwind⟩ := runCode_path hrun
  obtain ⟨stopped, rfl⟩ := Halt.unwind_eq_failed hunwind
  obtain ⟨instruction, hi⟩ := hstop.ending.instruction
  obtain ⟨taken, htakes, hlost⟩ := hstop.ending.takes (hpath.settles hwords)
  -- unwinding puts back the scope and the calls only
  cases hunwind
  exact ⟨heads, last, stopped, instruction, taken, hpath, hstop, hi, hlost.stack, htakes.length_le,
    htakes, hlost.forest, hlost.sink, hlost.sink.eq_of_kind⟩

/-- A word subtracts a truth value from another one, two calls deep: the text below the two is kept, and so
is the package that the word opened. -/
theorem failed_run_keeps_work_nested :
    ∃ (code : Code) (final : State HostWord) (fault : Fault) (heads : List (Config HostWord))
      (last : Config HostWord) (taken : List Value),
      code = [.push none (.text "kept"), .define none "inner" [.primitive none .package,
        .push none (.bool true), .push none (.bool false), .primitive none .subtract],
        .define none "outer" [.execute none "inner"], .execute none "outer"] ∧
      runCode hostRoutine 20 code (State.initial HostWord.demonstration .closed 5) =
        some (.failed fault final) ∧
      fault.kind = .type ∧ final.stack = [.text "kept"] ∧ final.forest.size = 2 ∧
      Path hostRoutine (Config.start code (State.initial HostWord.demonstration .closed 5)) heads last ∧
      last.Takes taken ∧ last.state.stack = taken ++ [.text "kept"] ∧ taken.length ≤ 2 ∧
      last.state.forest.size = 2 := by
  have hwords : (State.initial HostWord.demonstration .closed 5).forest.EveryWord Word.Settles := by
    refine State.initial_everyWord .closed 5 fun word hm native hb => ?_
    cases hb
    exact hm
  have hend : (runCode hostRoutine 20 [.push none (.text "kept"), .define none "inner"
      [.primitive none .package, .push none (.bool true), .push none (.bool false),
        .primitive none .subtract],
      .define none "outer" [.execute none "inner"], .execute none "outer"]
      (State.initial HostWord.demonstration .closed 5)).map
        (fun outcome => (outcome.fault?.map Fault.kind, outcome.state.stack,
          outcome.state.forest.size)) = some (some .type, [.text "kept"], 2) := rfl
  obtain ⟨outcome, hrun, he⟩ := Option.map_eq_some_iff.1 hend
  cases outcome with
  | done final => cases he
  | failed fault final =>
    obtain ⟨hkind, hstack, hsize⟩ : fault.kind = .type ∧ final.stack = [.text "kept"] ∧
      final.forest.size = 2 := by simpa [Outcome.fault?, Outcome.state] using he
    obtain ⟨heads, last, -, -, taken, hpath, -, -, htaken, hlength, htakes, hforest, -⟩ :=
      failed_run_keeps_work hwords hrun
    rw [hstack] at htaken
    exact ⟨_, final, fault, heads, last, taken, rfl, hrun, hkind, hstack, hsize, hpath, htakes, htaken,
      hlength, by rw [← hforest, hsize]⟩

end StackScript
