import StackScript.Proofs.CallDiscipline
import StackScript.Proofs.Derivation
import StackScript.Proofs.Dictionary

/-!
# What a script means

A reference semantics that walks over the tokens of a script and knows neither instructions nor
jumps.

* `Evaluates` — the rules, one for each thing that can happen: to a row of tokens, to a phrase at its
  beginning, to a word called by name.
* `Word.Compiled` — a demonstration word of the host, or a word compiled from tokens.  The rules run
  the tokens, whichever they were.
* `Evaluates.balanced` — whatever is evaluated closes the calls that it opens.

Principal result: `evaluates_total` — the rules give every compilable row an outcome, in every state
whose words were compiled.  The induction is on the room for calls and then on the number of tokens.
-/

set_option autoImplicit false

namespace StackScript

/-- What is evaluated: a row of tokens, one phrase, or a word by name, its call noted under a place. -/
inductive Task where
  | row (tokens : List Token)
  | phrase (phrase : Phrase)
  | call (location : Location) (name : String)

/-- Whoever succeeds gets to the token at `location`. -/
def Outcome.reach {ν : Type} (location : Location) : Outcome ν → Outcome ν
  | .done state => .done (state.moveTo (some location))
  | .failed fault state => .failed fault state

/-- How scripts are evaluated.  A phrase is cut off the row and evaluated, and then the rest, unless the
phrase fails.  A plain token is a primitive, a string literal, a numeral or else the name of a word; of
a conditional one branch is evaluated. -/
inductive Evaluates : Task → State HostWord → Outcome HostWord → Prop where
  | nil {state : State HostWord} : Evaluates (.row []) state (.done state)
  | next {phrase : Phrase} {rest : List Token} {state middle : State HostWord}
      {outcome : Outcome HostWord} (hcut : phrase.Cut)
      (hphrase : Evaluates (.phrase phrase) state (.done middle))
      (hrest : Evaluates (.row rest) middle outcome) :
      Evaluates (.row (phrase.tokens ++ rest)) state outcome
  | stop {phrase : Phrase} {rest : List Token} {state final : State HostWord} {fault : Fault}
      (hcut : phrase.Cut) (hphrase : Evaluates (.phrase phrase) state (.failed fault final)) :
      Evaluates (.row (phrase.tokens ++ rest)) state (.failed fault final)
  | primitive {token : Token} {operation : Primitive} {state : State HostWord}
      (hop : Primitive.ofName? token.text = some operation) :
      Evaluates (.phrase (.plain token)) state
        (operation.effect (state.moveTo (some token.location)))
  | text {token : Token} {contents : String} {state : State HostWord}
      (hop : Primitive.ofName? token.text = none) (htext : token.string? = some contents) :
      Evaluates (.phrase (.plain token)) state
        (.done ((state.moveTo (some token.location)).push (.text contents)))
  | number {token : Token} {x : Float} {state : State HostWord}
      (hop : Primitive.ofName? token.text = none) (htext : token.string? = none)
      (hnumber : Numeral.read? token.text = some x) :
      Evaluates (.phrase (.plain token)) state
        (.done ((state.moveTo (some token.location)).push (.number x)))
  | word {token : Token} {state : State HostWord} {outcome : Outcome HostWord}
      (hop : Primitive.ofName? token.text = none) (htext : token.string? = none)
      (hnumber : Numeral.read? token.text = none)
      (hcall : Evaluates (.call token.location token.text) (state.moveTo (some token.location))
        outcome) :
      Evaluates (.phrase (.plain token)) state outcome
  | definition {colon name semicolon : Token} {body : List Token} {code : Code}
      {state : State HostWord} (hbody : compile body = .ok code) :
      Evaluates (.phrase (.definition colon name body semicolon)) state
        (.done ((state.moveTo (some colon.location)).define state.scope
          ⟨colon.location, name.text, "", .scripted code⟩))
  | missing {opening middle closing : Token} {whenTrue whenFalse : List Token}
      {state : State HostWord} (hstack : state.stack = []) :
      Evaluates (.phrase (.conditional opening whenTrue middle whenFalse closing)) state
        ((state.moveTo (some opening.location)).fail .stackUnderflow)
  | whenTrue {opening middle closing : Token} {whenTrue whenFalse : List Token}
      {state : State HostWord} {value : Value} {stack : List Value} {outcome : Outcome HostWord}
      (hstack : state.stack = value :: stack) (htruthy : value.isTruthy = true)
      (hbranch : Evaluates (.row whenTrue)
        ((state.moveTo (some opening.location)).withStack stack) outcome) :
      Evaluates (.phrase (.conditional opening whenTrue middle whenFalse closing)) state
        (outcome.reach middle.location)
  | whenFalse {opening middle closing : Token} {whenTrue whenFalse : List Token}
      {state : State HostWord} {value : Value} {stack : List Value} {outcome : Outcome HostWord}
      (hstack : state.stack = value :: stack) (htruthy : value.isTruthy = false)
      (hbranch : Evaluates (.row whenFalse)
        ((state.moveTo (some opening.location)).withStack stack) outcome) :
      Evaluates (.phrase (.conditional opening whenTrue middle whenFalse closing)) state outcome
  | undefined {location : Location} {name : String} {state : State HostWord}
      (hlookup : state.forest.lookup state.scope name = none) :
      Evaluates (.call location name) state (state.fail (.undefinedWord name))
  | tooDeep {location : Location} {name : String} {state : State HostWord} {word : Word HostWord}
      (hlookup : state.forest.lookup state.scope name = some word)
      (hdepth : state.callLimit ≤ state.calls.depth) :
      Evaluates (.call location name) state (state.fail (.callDepth name state.callLimit))
  | native {location : Location} {name : String} {state : State HostWord} {word : Word HostWord}
      {native : HostWord} {outcome : Outcome HostWord}
      (hlookup : state.forest.lookup state.scope name = some word)
      (hdepth : state.calls.depth < state.callLimit) (hbody : word.body = .native native)
      (hroutine : ∀ machine, (hostRoutine native).perform machine
        (state.openCall ⟨name, location⟩) = some outcome) :
      Evaluates (.call location name) state (outcome.mapState State.endCall)
  -- the tokens of the body are evaluated from the scope of the caller on, and the caller goes on in
  -- its own scope
  | scripted {location : Location} {name : String} {state : State HostWord} {word : Word HostWord}
      {tokens : List Token} {code : Code} {outcome : Outcome HostWord}
      (hlookup : state.forest.lookup state.scope name = some word)
      (hdepth : state.calls.depth < state.callLimit) (hbody : word.body = .scripted code)
      (hcode : compile tokens = .ok code)
      (hrow : Evaluates (.row tokens) (state.openCall ⟨name, location⟩) outcome) :
      Evaluates (.call location name) state (outcome.mapState (State.returnTo state.scope))

/-! ## Calls -/

theorem Outcome.reach_balanced {ν : Type} {state : State ν} {outcome : Outcome ν}
    {location : Location} (h : state.Balanced outcome.state) :
    state.Balanced (outcome.reach location).state := by
  cases outcome with
  | done final => exact h.trans (.moveTo final (some location))
  | failed fault final => exact h

/-- A routine that asks nothing of the machine opens no call. -/
theorem Routine.balanced_of_perform {ν : Type} {routine : Routine ν} {state : State ν}
    {outcome : Outcome ν} (h : ∀ machine, routine.perform machine state = some outcome) :
    state.Balanced outcome.state := by
  let silent : Reentry ν := ⟨fun _ _ => none, fun _ _ _ => none, fun _ _ => none⟩
  exact routine.perform_lasting State.Balanced.lasting
    (fun _ _ _ (hr : none = some _) => nomatch hr) (fun _ _ _ _ (hc : none = some _) => nomatch hc)
    (fun _ _ _ (hb : none = some _) => nomatch hb) state outcome (h silent)

/-- **Whatever is evaluated closes the calls that it opens.** -/
theorem Evaluates.balanced {task : Task} {state : State HostWord} {outcome : Outcome HostWord}
    (h : Evaluates task state outcome) : state.Balanced outcome.state := by
  induction h with
  | nil => exact .refl _
  | next _ _ _ ihphrase ihrest => exact ihphrase.trans ihrest
  | stop _ _ ih => exact ih
  | primitive => exact (State.Balanced.moveTo _ _).trans (Primitive.effect_lasting State.Balanced.lasting _ _)
  | text => exact ⟨rfl, rfl⟩
  | number => exact ⟨rfl, rfl⟩
  | word _ _ _ _ ih => exact (State.Balanced.moveTo _ _).trans ih
  | definition => exact ⟨rfl, rfl⟩
  | missing => exact ⟨rfl, rfl⟩
  | whenTrue _ _ _ ih => exact Outcome.reach_balanced ⟨ih.calls, ih.callLimit⟩
  | whenFalse _ _ _ ih => exact ⟨ih.calls, ih.callLimit⟩
  | undefined => exact .refl _
  | tooDeep => exact .refl _
  | native _ _ _ hroutine =>
    exact (Routine.balanced_of_perform hroutine).close fun s => ⟨rfl, rfl⟩
  | scripted _ _ _ _ _ ih => exact ih.close fun s => ⟨rfl, rfl⟩

/-! ## Every compilable row has a meaning -/

/-- A demonstration word of the host, or a word that was compiled from tokens. -/
def Word.Compiled (word : Word HostWord) : Prop :=
  match word.body with
  | .native native => native ∈ HostWord.demonstration
  | .scripted code => ∃ tokens, compile tokens = .ok code

/-- The task has an outcome, and all words that are bound after it were compiled. -/
def Meaningful (task : Task) (state : State HostWord) : Prop :=
  ∃ outcome, Evaluates task state outcome ∧ outcome.state.forest.EveryWord Word.Compiled

/-- A called word has a meaning if rows with less room for calls do. -/
theorem meaningful_call {location : Location} {name : String} {state : State HostWord}
    (hrow : ∀ tokens code (inner : State HostWord), inner.room < state.room →
      compile tokens = .ok code → inner.forest.EveryWord Word.Compiled →
      Meaningful (.row tokens) inner)
    (hwords : state.forest.EveryWord Word.Compiled) : Meaningful (.call location name) state := by
  cases hl : state.forest.lookup state.scope name with
  | none => exact ⟨_, .undefined hl, hwords⟩
  | some word =>
    by_cases hd : state.callLimit ≤ state.calls.depth
    · exact ⟨_, .tooDeep hl hd, hwords⟩
    · have hlt : state.calls.depth < state.callLimit := Nat.lt_of_not_le hd
      have hword : word.Compiled := hwords.lookup hl
      unfold Word.Compiled at hword
      cases hb : word.body with
      | native native =>
        rw [hb] at hword
        obtain ⟨outcome, hp, hdata⟩ := HostWord.settles_of_demonstration hword
          (state.openCall ⟨name, location⟩)
        refine ⟨_, .native hl hlt hb hp, ?_⟩
        rw [Outcome.state_mapState]
        show outcome.state.forest.EveryWord Word.Compiled
        rw [hdata.forest]
        exact hwords
      | scripted code =>
        rw [hb] at hword
        obtain ⟨tokens, hcode⟩ := hword
        obtain ⟨outcome, he, hafter⟩ :=
          hrow tokens code (state.openCall ⟨name, location⟩) (State.room_openCall hlt) hcode hwords
        refine ⟨_, .scripted hl hlt hb hcode he, ?_⟩
        rw [Outcome.state_mapState]
        exact hafter

/-- A phrase has a meaning if the calls of words do, and the rows inside it. -/
theorem meaningful_phrase {phrase : Phrase} {code : Code} {state : State HostWord}
    (hcode : phrase.HasCode code)
    (hcall : ∀ location name (caller : State HostWord), caller.room = state.room →
      caller.forest.EveryWord Word.Compiled → Meaningful (.call location name) caller)
    (hrow : ∀ tokens code (inner : State HostWord), tokens.length < phrase.tokens.length →
      Compiles tokens code → inner.room = state.room → inner.forest.EveryWord Word.Compiled →
      Meaningful (.row tokens) inner)
    (hwords : state.forest.EveryWord Word.Compiled) : Meaningful (.phrase phrase) state := by
  cases phrase with
  | plain token =>
    cases hop : Primitive.ofName? token.text with
    | some operation => exact ⟨_, .primitive hop, operation.effect_everyWord hwords⟩
    | none =>
      cases htext : token.string? with
      | some contents => exact ⟨_, .text hop htext, hwords⟩
      | none =>
        cases hnumber : Numeral.read? token.text with
        | some x => exact ⟨_, .number hop htext hnumber, hwords⟩
        | none =>
          obtain ⟨outcome, he, hafter⟩ := hcall token.location token.text
            (state.moveTo (some token.location)) rfl hwords
          exact ⟨outcome, .word hop htext hnumber he, hafter⟩
  | definition colon name body semicolon =>
    obtain ⟨bodyCode, hbody, -⟩ := hcode
    have hcompile := compile_of_compiles hbody
    exact ⟨_, .definition hcompile, hwords.define _ ⟨body, hcompile⟩⟩
  | conditional opening whenTrue middle whenFalse closing =>
    obtain ⟨trueCode, falseCode, htrue, hfalse, -⟩ := hcode
    cases hstack : state.stack with
    | nil => exact ⟨_, .missing hstack, hwords⟩
    | cons value stack =>
      cases htruthy : value.isTruthy with
      | true =>
        have hlen : whenTrue.length <
            (Phrase.conditional opening whenTrue middle whenFalse closing).tokens.length := by
          simp only [Phrase.tokens, List.length_cons, List.length_append]
          omega
        obtain ⟨outcome, he, hafter⟩ := hrow whenTrue trueCode
          ((state.moveTo (some opening.location)).withStack stack) hlen htrue rfl hwords
        refine ⟨_, .whenTrue hstack htruthy he, ?_⟩
        cases outcome with
        | done final => exact hafter
        | failed fault final => exact hafter
      | false =>
        have hlen : whenFalse.length <
            (Phrase.conditional opening whenTrue middle whenFalse closing).tokens.length := by
          simp only [Phrase.tokens, List.length_cons, List.length_append]
          omega
        obtain ⟨outcome, he, hafter⟩ := hrow whenFalse falseCode
          ((state.moveTo (some opening.location)).withStack stack) hlen hfalse rfl hwords
        exact ⟨outcome, .whenFalse hstack htruthy he, hafter⟩

theorem Phrase.length_pos (phrase : Phrase) : 0 < phrase.tokens.length := by
  cases phrase <;> simp [tokens]

/-- A row has a meaning if the calls of words do.  The induction is on the number of tokens. -/
theorem meaningful_row {room : Nat}
    (hcall : ∀ location name (caller : State HostWord), caller.room = room →
      caller.forest.EveryWord Word.Compiled → Meaningful (.call location name) caller)
    (size : Nat) :
    ∀ tokens code (state : State HostWord), tokens.length = size → Compiles tokens code →
      state.room = room → state.forest.EveryWord Word.Compiled →
      Meaningful (.row tokens) state := by
  induction size using Nat.strongRecOn with
  | ind size ih =>
    intro tokens code state hsize hcode hroom hwords
    rcases hcode.eq_nil_or_phrase with ⟨rfl, -⟩ | ⟨phrase, rest, first, more, hcut, rfl, hfirst,
      hmore, rfl⟩
    · exact ⟨_, .nil, hwords⟩
    · rw [List.length_append] at hsize
      have hpos := phrase.length_pos
      have hphrase : Meaningful (.phrase phrase) state := by
        refine meaningful_phrase hfirst (fun location name caller hr => ?_) ?_ hwords
        · exact hcall location name caller (hr.trans hroom)
        · intro inside code inner hlen hinside hr
          exact ih inside.length (by omega) inside code inner rfl hinside (hr.trans hroom)
      obtain ⟨outcome, he, hafter⟩ := hphrase
      cases outcome with
      | failed fault final => exact ⟨_, .stop hcut he, hafter⟩
      | done middle =>
        obtain ⟨final, hf, hfinal⟩ := ih rest.length (by omega) rest more middle rfl hmore
          (he.balanced.room.trans hroom) hafter
        exact ⟨final, .next hcut he hf, hfinal⟩

theorem meaningful_of_room (room : Nat) :
    ∀ tokens code (state : State HostWord), state.room = room → compile tokens = .ok code →
      state.forest.EveryWord Word.Compiled → Meaningful (.row tokens) state := by
  induction room using Nat.strongRecOn with
  | ind room ih =>
    intro tokens code state hroom hcode hwords
    refine meaningful_row (fun location name caller hr hw => ?_) tokens.length tokens code state rfl
      (compiles_of_compile hcode) hroom hwords
    refine meaningful_call (fun inside code inner hless => ?_) hw
    exact ih inner.room (hr ▸ hless) inside code inner rfl

/-- **Every compilable row has an outcome**, in every state whose words were compiled. -/
theorem evaluates_total {tokens : List Token} {code : Code} {state : State HostWord}
    (hcode : compile tokens = .ok code) (hwords : state.forest.EveryWord Word.Compiled) :
    ∃ outcome, Evaluates (.row tokens) state outcome ∧
      outcome.state.forest.EveryWord Word.Compiled :=
  meaningful_of_room state.room tokens code state rfl hcode hwords

end StackScript
