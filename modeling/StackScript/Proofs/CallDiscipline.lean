import StackScript.Proofs.Answers
import StackScript.Proofs.Lasting

/-!
# Calls are closed again

Whatever a piece of code or a called word does, afterwards the calls in progress are those from
before it, and so is their limit.  Native words are arbitrary here: they may enter the machine again
and swallow the faults of what they called.

* `State.Balanced` — the same calls under the same limit.
* `Config.Over` — between two steps one call is open for each suspended caller, above those that
  were in progress at the start; a native word being carried out has one more.
* Principal results: `Config.over_step` — a step keeps that; `exec_over`, `runCode_balanced` and
  `callWord_balanced` — so whole runs do.
-/

set_option autoImplicit false

namespace StackScript

variable {ν : Type}

/-- The same calls are in progress, under the same limit. -/
structure State.Balanced (before after : State ν) : Prop where
  calls : after.calls = before.calls
  callLimit : after.callLimit = before.callLimit

namespace State.Balanced

theorem refl (state : State ν) : state.Balanced state := ⟨rfl, rfl⟩

theorem trans {a b c : State ν} (h : a.Balanced b) (h' : b.Balanced c) : a.Balanced c :=
  ⟨h'.calls.trans h.calls, h'.callLimit.trans h.callLimit⟩

theorem moveTo (state : State ν) (location : Option Location) :
    state.Balanced (state.moveTo location) :=
  ⟨moveTo_calls state location, moveTo_callLimit state location⟩

/-- No change opens or closes a call. -/
theorem lasting : Lasting (State.Balanced : State ν → State ν → Prop) where
  refl := refl
  trans := trans
  change := by
    intro state after h
    cases h <;> exact ⟨rfl, rfl⟩

/-- A called word sees one more call in progress, and that one is closed after it. -/
theorem close {state : State ν} {item : CallItem} {outcome : Outcome ν} {f : State ν → State ν}
    (h : (state.openCall item).Balanced outcome.state)
    (hf : ∀ s, (f s).calls = s.calls.pop ∧ (f s).callLimit = s.callLimit) :
    state.Balanced (outcome.mapState f).state := by
  rw [Outcome.state_mapState]
  refine ⟨?_, (hf _).2.trans h.callLimit⟩
  rw [(hf _).1, h.calls, openCall_calls, CallStack.pop_push]

end State.Balanced

/-- How many further calls may be opened. -/
def State.room (state : State ν) : Nat := state.callLimit - state.calls.depth

theorem State.Balanced.room {before after : State ν} (h : before.Balanced after) :
    after.room = before.room := by
  unfold State.room
  rw [h.calls, h.callLimit]

theorem State.room_openCall {state : State ν} {item : CallItem}
    (h : state.calls.depth < state.callLimit) : (state.openCall item).room < state.room := by
  unfold State.room
  rw [openCall_calls, openCall_callLimit, CallStack.depth_push]
  omega

theorem Instruction.move_balanced {state : State ν} {instruction : Instruction} {move : Move ν}
    (h : instruction.move? state = some move) : state.Balanced move.state :=
  Instruction.move_lasting State.Balanced.lasting h

/-! ## One step -/

/-- Above the calls of `base` one call is open for each suspended caller, and `extra` further ones. -/
structure Config.Over (base : State ν) (extra : Nat) (config : Config ν) : Prop where
  callLimit : config.state.callLimit = base.callLimit
  calls : ∃ items, items.length = config.callers.length + extra ∧
    config.state.calls.items = items ++ base.calls.items

/-- The machine stops with every call closed, or fails above the calls of `base`. -/
def Halt.Over (base : State ν) : Halt ν → Prop
  | .finished state => base.Balanced state
  | .failed _ config => ∃ extra, config.Over base extra

/-- What a step leads to is above the calls of `base`. -/
def Step.Over (base : State ν) : Step ν → Prop
  | .next config => config.Over base 0
  | .native _ config => config.Over base 1
  | .halt stop => stop.Over base

namespace Config

theorem over_start (code : Code) (state : State ν) : (start code state).Over state 0 :=
  ⟨rfl, [], rfl, rfl⟩

theorem Over.congr {base : State ν} {extra : Nat} {config other : Config ν}
    (h : config.Over base extra) (hs : config.state.Balanced other.state)
    (hc : other.callers = config.callers) : other.Over base extra := by
  obtain ⟨hl, items, hn, hi⟩ := h
  exact ⟨hs.callLimit.trans hl, items, by rw [hn, hc], by rw [hs.calls, hi]⟩

theorem Over.endCall {base : State ν} {extra : Nat} {config : Config ν} (position : Nat)
    (h : config.Over base (extra + 1)) :
    (config.goTo position config.state.endCall).Over base extra := by
  obtain ⟨hl, items, hn, hi⟩ := h
  cases items with
  | nil => simp at hn
  | cons item items =>
    refine ⟨hl, items, ?_, ?_⟩
    · simp only [List.length_cons] at hn
      show items.length = config.callers.length + extra
      omega
    · show config.state.calls.items.tail = items ++ base.calls.items
      rw [hi]
      rfl

/-- **A step keeps one open call for each suspended caller.** -/
theorem over_step {base : State ν} {config : Config ν} (h : config.Over base 0) :
    config.step.Over base := by
  cases hi : config.code[config.position]? with
  | none =>
    rw [step_of_end hi]
    unfold leave
    obtain ⟨hl, items, hn, hc⟩ := h
    split
    · rename_i hf
      rw [hf] at hn
      have hnil : items = [] := List.length_eq_zero_iff.1 hn
      refine ⟨?_, hl⟩
      ext1
      rw [hc, hnil]
      rfl
    · rename_i frame callers hf
      cases items with
      | nil => rw [hf] at hn; simp at hn
      | cons item items =>
        rw [hf] at hn
        refine ⟨hl, items, by simpa using hn, ?_⟩
        show config.state.calls.items.tail = items ++ base.calls.items
        rw [hc]
        rfl
  | some instruction =>
    have hm := State.Balanced.moveTo config.state instruction.location
    rcases instruction.execute_or_move (config.state.moveTo instruction.location) with
      ⟨location, name, rfl⟩ | ⟨move, hmove⟩
    · rw [step_of_execute hi]
      unfold call
      split
      · exact ⟨0, h.congr hm rfl⟩
      · rename_i word inner hb
        obtain ⟨-, -, rfl⟩ := State.beginCall_ok hb
        obtain ⟨hl, items, hn, hc⟩ := h
        have hitems : ∀ item, item :: (config.state.moveTo location).calls.items =
            (item :: items) ++ base.calls.items := by
          intro item
          rw [State.moveTo_calls, hc]
          rfl
        split
        · exact ⟨(State.moveTo_callLimit _ _).trans hl, _ :: items,
            by simp only [List.length_cons, hn], hitems _⟩
        · refine ⟨(State.moveTo_callLimit _ _).trans hl, _ :: items, ?_, hitems _⟩
          simp only [List.length_cons, hn, enter]
    · rw [step_of_move hi hmove]
      have hb := hm.trans (Instruction.move_balanced hmove)
      cases move with
      | ahead offset state => exact h.congr hb rfl
      | fault fault state => exact ⟨0, h.congr hb rfl⟩

end Config

/-! ## Whole runs -/

/-- Unwinding a stop above the calls of `base` closes all calls but those. -/
theorem Halt.Over.unwind {base : State ν} {halt : Halt ν} (h : halt.Over base) :
    base.Balanced (halt.unwind base.calls.depth).state := by
  cases halt with
  | finished state => exact h
  | failed fault config =>
    obtain ⟨extra, hl, items, -, hi⟩ := h
    refine ⟨?_, hl⟩
    ext1
    show config.state.calls.items.drop (config.state.calls.depth - base.calls.depth) =
      base.calls.items
    rw [config.state.calls.depth_eq, base.calls.depth_eq, hi, List.length_append,
      Nat.add_sub_cancel, List.drop_left]

/-- Stepping, running code, calling words and going on as one, for one amount of fuel. -/
theorem balanced_of_fuel (host : Host ν) (fuel : Nat) :
    (∀ config base halt, Config.Over base 0 config → exec host fuel config = some halt →
      halt.Over base) ∧
    (∀ code state outcome, runCode host fuel code state = some outcome →
      State.Balanced state outcome.state) ∧
    (∀ location name state outcome, callWord host fuel location name state = some outcome →
      State.Balanced state outcome.state) ∧
    (∀ native state outcome, becomeNative host fuel native state = some outcome →
      State.Balanced state outcome.state) := by
  induction fuel with
  | zero => exact ⟨by simp [exec], by simp [runCode], by simp [callWord], by simp [becomeNative]⟩
  | succ fuel ih =>
    obtain ⟨he, hr, hc, hb⟩ := ih
    have hp : ∀ (routine : Routine ν) state outcome,
        routine.perform (host.reentry fuel) state = some outcome →
          State.Balanced state outcome.state :=
      Routine.perform_lasting State.Balanced.lasting hr hc hb
    refine ⟨?_, ?_, ?_, fun native => hp (host native)⟩
    · intro config base halt ho h
      have hs := Config.over_step ho
      rw [exec] at h
      split at h
      · rename_i next hn
        rw [hn] at hs
        exact he next base halt hs h
      · rename_i stop hn
        rw [hn] at hs
        cases h
        exact hs
      · rename_i word next hn
        rw [hn] at hs
        split at h
        · cases h
        · rename_i state hw
          have ho' : Config.Over base 1 { next with state := state } :=
            hs.congr (hp _ _ _ hw) rfl
          exact he _ base halt (ho'.endCall _) h
        · rename_i fault state hw
          cases h
          exact ⟨1, hs.congr (hp _ _ _ hw) rfl⟩
    · intro code state outcome h
      simp only [runCode] at h
      obtain ⟨halt, hh, rfl⟩ := Option.map_eq_some_iff.1 h
      exact (he _ state halt (Config.over_start code state) hh).unwind
    · intro location name state outcome h
      rw [callWord] at h
      split at h
      · cases h
        exact .refl state
      · rename_i word inner hb
        obtain ⟨-, -, rfl⟩ := State.beginCall_ok hb
        split at h
        · obtain ⟨o, ho, rfl⟩ := Option.map_eq_some_iff.1 h
          exact (hp _ _ _ ho).close fun s => ⟨rfl, rfl⟩
        · obtain ⟨o, ho, rfl⟩ := Option.map_eq_some_iff.1 h
          exact (hr _ _ _ ho).close fun s => ⟨rfl, rfl⟩

/-- Where the machine stops, every call is closed or is going to be. -/
theorem exec_over {host : Host ν} {fuel : Nat} {config : Config ν} {base : State ν}
    {halt : Halt ν} (ho : config.Over base 0) (h : exec host fuel config = some halt) :
    halt.Over base :=
  (balanced_of_fuel host fuel).1 config base halt ho h

/-- A native word closes every call that it opens. -/
theorem Routine.perform_machine_balanced {host : Host ν} {fuel : Nat} {routine : Routine ν}
    {state : State ν} {outcome : Outcome ν}
    (h : routine.perform (host.reentry fuel) state = some outcome) :
    state.Balanced outcome.state :=
  have hfuel := balanced_of_fuel host fuel
  routine.perform_lasting State.Balanced.lasting hfuel.2.1 hfuel.2.2.1 hfuel.2.2.2 state outcome h

/-- **Running code closes every call that it opens.** -/
theorem runCode_balanced {host : Host ν} {fuel : Nat} {code : Code} {state : State ν}
    {outcome : Outcome ν} (h : runCode host fuel code state = some outcome) :
    state.Balanced outcome.state :=
  (balanced_of_fuel host fuel).2.1 code state outcome h

/-- **Calling a word closes every call that it opens.** -/
theorem callWord_balanced {host : Host ν} {fuel : Nat} {location : Location} {name : String}
    {state : State ν} {outcome : Outcome ν}
    (h : callWord host fuel location name state = some outcome) :
    state.Balanced outcome.state :=
  (balanced_of_fuel host fuel).2.2.1 location name state outcome h

end StackScript
