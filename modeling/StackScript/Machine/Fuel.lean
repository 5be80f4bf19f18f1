import StackScript.Machine.Run

/-!
# More fuel keeps an answer

A run that has an answer has the same answer with any larger amount of fuel, so it makes sense to
speak of the answer of a run without naming the fuel.

* `Reentry.Extends` — one way to enter the machine again answers whatever another one answers.
* `Routine.perform_of_extends` — a routine keeps its answer when the machine around it answers more.
* Principal results: `exec_of_le`, `runCode_of_le`, `callWord_of_le` and `becomeNative_of_le`.
-/

set_option autoImplicit false

namespace StackScript

variable {ν : Type}

/-- Whatever `machine` answers, `other` answers too. -/
structure Reentry.Extends (machine other : Reentry ν) : Prop where
  run : ∀ code state outcome,
    machine.run code state = some outcome → other.run code state = some outcome
  call : ∀ location name state outcome,
    machine.call location name state = some outcome →
      other.call location name state = some outcome
  become : ∀ native state outcome,
    machine.become native state = some outcome → other.become native state = some outcome

/-- A routine keeps its answer when the machine around it answers more. -/
theorem Routine.perform_of_extends {machine other : Reentry ν} (h : machine.Extends other)
    (routine : Routine ν) :
    ∀ state outcome, routine.perform machine state = some outcome →
      routine.perform other state = some outcome := by
  induction routine with
  | finish => intro state outcome hs; exact hs
  | fail fault => intro state outcome hs; exact hs
  | inspect next ih => intro state outcome hs; exact ih state state outcome hs
  | push value next ih => intro state outcome hs; exact ih _ outcome hs
  | pop next ih =>
    intro state outcome hs
    simp only [Routine.perform] at hs ⊢
    split at hs <;> exact ih _ _ outcome hs
  | write text next ih =>
    intro state outcome hs
    rw [Routine.perform_write] at hs ⊢
    exact ih _ _ outcome hs
  | enterScope scope next ih => intro state outcome hs; exact ih _ outcome hs
  | newHost next ih => intro state outcome hs; exact ih _ _ outcome hs
  | newScope parent next ih => intro state outcome hs; exact ih _ _ outcome hs
  | define scope word next ih => intro state outcome hs; exact ih _ outcome hs
  | newObject kind next ih => intro state outcome hs; exact ih _ _ outcome hs
  | call location name next ih =>
    intro state outcome hs
    rw [Routine.perform_call] at hs ⊢
    obtain ⟨inner, hc, hrest⟩ := Option.bind_eq_some_iff.1 hs
    exact Option.bind_eq_some_iff.2 ⟨inner, h.call _ _ _ _ hc, ih _ _ outcome hrest⟩
  | run code next ih =>
    intro state outcome hs
    rw [Routine.perform_run] at hs ⊢
    obtain ⟨inner, hr, hrest⟩ := Option.bind_eq_some_iff.1 hs
    exact Option.bind_eq_some_iff.2 ⟨inner, h.run _ _ _ hr, ih _ _ outcome hrest⟩
  | become native => intro state outcome hs; exact h.become native state outcome hs

/-! ## One unit more -/

/-- Stepping keeps its answer when every way of entering the machine again does. -/
theorem exec_succ_of_extends (host : Host ν) (fuel : Nat)
    (hm : (host.reentry fuel).Extends (host.reentry (fuel + 1)))
    (ih : ∀ config halt, exec host fuel config = some halt →
      exec host (fuel + 1) config = some halt)
    (config : Config ν) (halt : Halt ν) (hc : exec host (fuel + 1) config = some halt) :
    exec host (fuel + 2) config = some halt := by
  rw [exec] at hc ⊢
  split at hc
  · exact ih _ _ hc
  · exact hc
  · split at hc
    · simp at hc
    · next hp => rw [Routine.perform_of_extends hm _ _ _ hp]; exact ih _ _ hc
    · next hp => rw [Routine.perform_of_extends hm _ _ _ hp]; exact hc

theorem callWord_succ_of_extends (host : Host ν) (fuel : Nat)
    (hm : (host.reentry fuel).Extends (host.reentry (fuel + 1)))
    (location : Location) (name : String) (state : State ν) (outcome : Outcome ν)
    (hc : callWord host (fuel + 1) location name state = some outcome) :
    callWord host (fuel + 2) location name state = some outcome := by
  rw [callWord] at hc ⊢
  split at hc
  · exact hc
  · split at hc
    · obtain ⟨inner, hp, rfl⟩ := Option.map_eq_some_iff.1 hc
      rw [Routine.perform_of_extends hm _ _ _ hp]; rfl
    · obtain ⟨inner, hr, rfl⟩ := Option.map_eq_some_iff.1 hc
      rw [show runCode host (fuel + 1) _ _ = some inner from hm.run _ _ _ hr]; rfl

/-- One unit of fuel more keeps every answer. -/
theorem answers_succ (host : Host ν) (fuel : Nat) :
    (∀ config halt, exec host fuel config = some halt →
      exec host (fuel + 1) config = some halt) ∧
    (host.reentry fuel).Extends (host.reentry (fuel + 1)) := by
  induction fuel with
  | zero => exact ⟨by simp [exec], by simp [runCode], by simp [callWord], by simp [becomeNative]⟩
  | succ fuel ih =>
    obtain ⟨he, hm⟩ := ih
    refine ⟨exec_succ_of_extends host fuel hm he, ?_, callWord_succ_of_extends host fuel hm, ?_⟩
    · intro code state outcome hc
      simp only [runCode] at hc ⊢
      obtain ⟨halt, hh, rfl⟩ := Option.map_eq_some_iff.1 hc
      rw [he _ _ hh]; rfl
    · intro native state outcome hc
      exact Routine.perform_of_extends hm _ _ _ hc

/-! ## Any amount more -/

/-- More fuel keeps where the machine stops. -/
theorem exec_of_le {host : Host ν} {fuel larger : Nat} (h : fuel ≤ larger) {config : Config ν}
    {halt : Halt ν} (hc : exec host fuel config = some halt) :
    exec host larger config = some halt := by
  induction h with
  | refl => exact hc
  | step _ ih => exact (answers_succ host _).1 _ _ ih

theorem runCode_of_le {host : Host ν} {fuel larger : Nat} (h : fuel ≤ larger) {code : Code}
    {state : State ν} {outcome : Outcome ν} (hc : runCode host fuel code state = some outcome) :
    runCode host larger code state = some outcome := by
  induction h with
  | refl => exact hc
  | step _ ih => exact (answers_succ host _).2.run _ _ _ ih

theorem callWord_of_le {host : Host ν} {fuel larger : Nat} (h : fuel ≤ larger)
    {location : Location} {name : String} {state : State ν} {outcome : Outcome ν}
    (hc : callWord host fuel location name state = some outcome) :
    callWord host larger location name state = some outcome := by
  induction h with
  | refl => exact hc
  | step _ ih => exact (answers_succ host _).2.call _ _ _ _ ih

theorem becomeNative_of_le {host : Host ν} {fuel larger : Nat} (h : fuel ≤ larger) {native : ν}
    {state : State ν} {outcome : Outcome ν}
    (hc : becomeNative host fuel native state = some outcome) :
    becomeNative host larger native state = some outcome := by
  induction h with
  | refl => exact hc
  | step _ ih => exact (answers_succ host _).2.become _ _ _ ih

end StackScript
