import StackScript.Machine.Fuel

/-!
# Answers of runs

A run takes fuel and may have no answer for want of it.  This file speaks of runs without naming
the fuel:

* `Answers` — with enough fuel the run has this answer, whatever the fuel.
* `Diverges` — no amount of fuel is enough.
* `Agree` — two runs both diverge, or both have the same answer.

Principal results: `runCode_answers` and `callWord_answers` — one answer for some fuel is the answer
for all larger fuel; `Routine.perform_answers` — a native routine has the same answer around any
machine that answers its requests in the same way.
-/

set_option autoImplicit false

namespace StackScript

variable {ν : Type} {α β : Type}

/-- With enough fuel the run has this answer. -/
def Answers (run : Nat → Option α) (answer : α) : Prop :=
  ∃ enough, ∀ fuel, enough ≤ fuel → run fuel = some answer

/-- No amount of fuel is enough. -/
def Diverges (run : Nat → Option α) : Prop := ∀ fuel, run fuel = none

/-- Both runs diverge, or both have the same answer. -/
def Agree (run other : Nat → Option α) : Prop :=
  (Diverges run ∧ Diverges other) ∨ ∃ answer, Answers run answer ∧ Answers other answer

namespace Answers

theorem unique {run : Nat → Option α} {a b : α} (ha : Answers run a) (hb : Answers run b) :
    a = b := by
  obtain ⟨n, hn⟩ := ha
  obtain ⟨m, hm⟩ := hb
  have h := hn (max n m) (Nat.le_max_left n m)
  rw [hm (max n m) (Nat.le_max_right n m)] at h
  exact (Option.some.inj h).symm

theorem const (a : α) : Answers (fun _ => some a) a := ⟨0, fun _ _ => rfl⟩

theorem succ {run rest : Nat → Option α} {a : α} (hr : Answers rest a)
    (h : ∀ fuel, rest fuel = some a → run (fuel + 1) = some a) : Answers run a := by
  obtain ⟨n, hn⟩ := hr
  refine ⟨n + 1, fun fuel hf => ?_⟩
  obtain ⟨m, rfl⟩ : ∃ m, fuel = m + 1 := ⟨fuel - 1, by omega⟩
  exact h m (hn m (by omega))

theorem both {first : Nat → Option α} {second run : Nat → Option β} {a : α} {b : β}
    (ha : Answers first a) (hb : Answers second b)
    (h : ∀ fuel, first fuel = some a → second fuel = some b → run fuel = some b) :
    Answers run b := by
  obtain ⟨n, hn⟩ := ha
  obtain ⟨m, hm⟩ := hb
  exact ⟨max n m, fun fuel hf => h fuel (hn fuel (by omega)) (hm fuel (by omega))⟩

theorem map {run : Nat → Option α} {a : α} (h : Answers run a) (f : α → β) :
    Answers (fun fuel => (run fuel).map f) (f a) := by
  obtain ⟨n, hn⟩ := h
  exact ⟨n, fun fuel hf => by simp [hn fuel hf]⟩

theorem not_diverges {run : Nat → Option α} {a : α} (h : Answers run a) : ¬ Diverges run := by
  intro hd
  obtain ⟨n, hn⟩ := h
  have := hn n (Nat.le_refl n)
  rw [hd n] at this
  cases this

end Answers

/-- Two runs agree as soon as every answer of either is an answer of the other. -/
theorem agree_of_answers {run other : Nat → Option α}
    (h : ∀ fuel answer, run fuel = some answer → Answers run answer ∧ Answers other answer)
    (h' : ∀ fuel answer, other fuel = some answer → Answers run answer) : Agree run other := by
  by_cases hd : Diverges run
  · refine Or.inl ⟨hd, fun fuel => ?_⟩
    cases ho : other fuel with
    | none => rfl
    | some answer => exact absurd hd (h' fuel answer ho).not_diverges
  · obtain ⟨fuel, hf⟩ := Classical.not_forall.1 hd
    obtain ⟨answer, ha⟩ := Option.ne_none_iff_exists'.1 hf
    exact Or.inr ⟨answer, h fuel answer ha⟩

/-! ## The machine -/

theorem exec_answers {host : Host ν} {fuel : Nat} {config : Config ν} {halt : Halt ν}
    (h : exec host fuel config = some halt) :
    Answers (fun fuel => exec host fuel config) halt :=
  ⟨fuel, fun _ hf => exec_of_le hf h⟩

theorem runCode_answers {host : Host ν} {fuel : Nat} {code : Code} {state : State ν}
    {outcome : Outcome ν} (h : runCode host fuel code state = some outcome) :
    Answers (fun fuel => runCode host fuel code state) outcome :=
  ⟨fuel, fun _ hf => runCode_of_le hf h⟩

theorem callWord_answers {host : Host ν} {fuel : Nat} {location : Location} {name : String}
    {state : State ν} {outcome : Outcome ν}
    (h : callWord host fuel location name state = some outcome) :
    Answers (fun fuel => callWord host fuel location name state) outcome :=
  ⟨fuel, fun _ hf => callWord_of_le hf h⟩

/-- More fuel answers more requests. -/
theorem reentry_extends_of_le (host : Host ν) {fuel larger : Nat} (h : fuel ≤ larger) :
    (host.reentry fuel).Extends (host.reentry larger) :=
  ⟨fun _ _ _ hr => runCode_of_le h hr, fun _ _ _ _ hc => callWord_of_le h hc,
    fun _ _ _ hb => becomeNative_of_le h hb⟩

/-! ## Native routines -/

/-- Whatever the machine answers, the others answer with enough fuel. -/
structure Reentry.Answered (machine : Reentry ν) (others : Nat → Reentry ν) : Prop where
  run : ∀ code state outcome, machine.run code state = some outcome →
    Answers (fun fuel => (others fuel).run code state) outcome
  call : ∀ location name state outcome, machine.call location name state = some outcome →
    Answers (fun fuel => (others fuel).call location name state) outcome
  become : ∀ native state outcome, machine.become native state = some outcome →
    Answers (fun fuel => (others fuel).become native state) outcome

/-- **A routine has the same answer around every machine that answers its requests alike.** -/
theorem Routine.perform_answers {machine : Reentry ν} {others : Nat → Reentry ν}
    (h : machine.Answered others) (routine : Routine ν) :
    ∀ state outcome, routine.perform machine state = some outcome →
      Answers (fun fuel => routine.perform (others fuel) state) outcome := by
  induction routine with
  | finish => intro state outcome hp; cases hp; exact Answers.const _
  | fail fault => intro state outcome hp; cases hp; exact Answers.const _
  | inspect next ih => intro state outcome hp; exact ih state state outcome hp
  | push value next ih => intro state outcome hp; exact ih _ outcome hp
  | pop next ih =>
    intro state outcome hp
    simp only [Routine.perform] at hp ⊢
    split at hp <;> exact ih _ _ outcome hp
  | write text next ih =>
    intro state outcome hp
    simp only [Routine.perform_write] at hp ⊢
    exact ih _ _ outcome hp
  | enterScope scope next ih => intro state outcome hp; exact ih _ outcome hp
  | newHost next ih => intro state outcome hp; exact ih _ _ outcome hp
  | newScope parent next ih => intro state outcome hp; exact ih _ _ outcome hp
  | define scope word next ih => intro state outcome hp; exact ih _ outcome hp
  | newObject kind next ih => intro state outcome hp; exact ih _ _ outcome hp
  | call location name next ih =>
    intro state outcome hp
    simp only [Routine.perform_call] at hp ⊢
    obtain ⟨inner, hc, hrest⟩ := Option.bind_eq_some_iff.1 hp
    exact (h.call _ _ _ _ hc).both (ih _ _ outcome hrest) fun fuel hcalled hgone =>
      Option.bind_eq_some_iff.2 ⟨inner, hcalled, hgone⟩
  | run code next ih =>
    intro state outcome hp
    simp only [Routine.perform_run] at hp ⊢
    obtain ⟨inner, hr, hrest⟩ := Option.bind_eq_some_iff.1 hp
    exact (h.run _ _ _ hr).both (ih _ _ outcome hrest) fun fuel hran hgone =>
      Option.bind_eq_some_iff.2 ⟨inner, hran, hgone⟩
  | become native => intro state outcome hp; exact h.become _ _ _ hp

end StackScript
