import StackScript.Proofs.Answers
import StackScript.Proofs.Step

/-!
# Callers beneath

The callers that were suspended before a run play no part in it until it is over.

* `Config.under` — the same machine with further suspended callers beneath those it has.
* `Config.step_under` — a step does not see them, unless it is the return to the first of them.
* `exec_under_of_failed`, `exec_under_of_finished` — a run fails above them as it fails by itself, and
  where it finishes by itself the first of them is resumed.
* `exec_under_cases` — conversely, a run above suspended callers begins with the run by itself.
-/

set_option autoImplicit false

namespace StackScript

variable {ν : Type}

namespace Config

/-- The machine with further suspended callers beneath those it has. -/
def under (callers : List Frame) (config : Config ν) : Config ν :=
  { config with callers := config.callers ++ callers }

def resume (frame : Frame) (callers : List Frame) (state : State ν) : Config ν :=
  { code := frame.code
    position := frame.resume
    callers := callers
    state := state.returnTo frame.scope }

end Config

/-- What a step leads to with further suspended callers beneath. -/
def Step.under (callers : List Frame) : Step ν → Step ν
  | .next config => .next (config.under callers)
  | .native word config => .native word (config.under callers)
  | .halt (.finished state) => .halt (.finished state)
  | .halt (.failed fault config) => .halt (.failed fault (config.under callers))

namespace Config

/-- The machine finishes only at the end of the code, with no caller left. -/
theorem finished_of_step {config : Config ν} {state : State ν}
    (h : config.step = .halt (.finished state)) :
    config.code[config.position]? = none ∧ config.callers = [] ∧ state = config.state := by
  cases hi : config.code[config.position]? with
  | none =>
    rw [step_of_end hi] at h
    unfold leave at h
    split at h
    · rename_i hc
      cases h
      exact ⟨rfl, hc, rfl⟩
    · cases h
  | some instruction =>
    rcases instruction.execute_or_move (config.state.moveTo instruction.location) with
      ⟨location, name, rfl⟩ | ⟨move, hm⟩
    · rw [step_of_execute hi] at h
      unfold call at h
      split at h
      · cases h
      · split at h <;> cases h
    · rw [step_of_move hi hm] at h
      cases move <;> cases h

theorem step_under_of_finished {config : Config ν} {state : State ν} {frame : Frame}
    {callers : List Frame} (h : config.step = .halt (.finished state)) :
    (config.under (frame :: callers)).step = .next (resume frame callers state) := by
  obtain ⟨hi, hc, rfl⟩ := finished_of_step h
  have he : (config.under (frame :: callers)).code[(config.under (frame :: callers)).position]? =
      none := hi
  rw [step_of_end he]
  simp only [leave, under, hc, List.nil_append]
  rfl

/-- **A step does not see the callers beneath**, unless it is the return to the first of them. -/
theorem step_under {config : Config ν} (callers : List Frame)
    (h : ∀ state, config.step ≠ .halt (.finished state)) :
    (config.under callers).step = config.step.under callers := by
  have hu : (config.under callers).code[(config.under callers).position]? =
      config.code[config.position]? := rfl
  cases hi : config.code[config.position]? with
  | none =>
    rw [step_of_end (hu.trans hi), step_of_end hi]
    rw [step_of_end hi] at h
    unfold leave at h ⊢
    cases hc : config.callers with
    | nil => rw [hc] at h; exact absurd rfl (h config.state)
    | cons frame rest =>
      simp only [under, hc, List.cons_append]
      rfl
  | some instruction =>
    rcases instruction.execute_or_move (config.state.moveTo instruction.location) with
      ⟨location, name, rfl⟩ | ⟨move, hm⟩
    · rw [step_of_execute (hu.trans hi), step_of_execute hi]
      simp only [call, under]
      split
      · rfl
      · split <;> rfl
    · rw [step_of_move (hu.trans hi) hm, step_of_move hi hm]
      cases move <;> rfl

end Config

/-! ## Whole runs -/

theorem exec_under_of_failed {host : Host ν} {fault : Fault} {final : Config ν}
    (callers : List Frame) : ∀ (fuel : Nat) (config : Config ν),
      exec host fuel config = some (.failed fault final) →
      exec host fuel (config.under callers) = some (.failed fault (final.under callers)) := by
  intro fuel
  induction fuel with
  | zero => intro config h; cases h
  | succ fuel ih =>
    intro config h
    rw [exec] at h ⊢
    have hne : ∀ state, config.step ≠ .halt (.finished state) := by
      intro state hs
      rw [hs] at h
      cases h
    rw [Config.step_under callers hne]
    cases hs : config.step with
    | next next =>
      rw [hs] at h
      exact ih next h
    | halt stop =>
      rw [hs] at h
      cases h
      rfl
    | native word next =>
      rw [hs] at h
      simp only [Step.under] at h ⊢
      split at h
      · cases h
      · rename_i state hp
        have hp' : (host word).perform (host.reentry fuel)
            (next.under callers).state = some (.done state) := hp
        rw [hp']
        exact ih _ h
      · rename_i fault' state hp
        have hp' : (host word).perform (host.reentry fuel)
            (next.under callers).state = some (.failed fault' state) := hp
        rw [hp']
        cases h
        rfl

/-- Where a run finishes by itself, the first of the callers beneath is resumed. -/
theorem exec_under_of_finished {host : Host ν} {state : State ν} {frame : Frame}
    {callers : List Frame} {rest : Nat} {halt : Halt ν}
    (hr : exec host rest (Config.resume frame callers state) = some halt) :
    ∀ (fuel : Nat) (config : Config ν), exec host fuel config = some (.finished state) →
      exec host (fuel + rest) (config.under (frame :: callers)) = some halt := by
  intro fuel
  induction fuel with
  | zero => intro config h; cases h
  | succ fuel ih =>
    intro config h
    rw [exec] at h
    rw [Nat.succ_add, exec]
    cases hs : config.step with
    | next next =>
      rw [hs] at h
      rw [Config.step_under _ (by simp [hs]), hs]
      exact ih next h
    | halt stop =>
      rw [hs] at h
      cases h
      rw [Config.step_under_of_finished hs]
      exact exec_of_le (Nat.le_add_left rest fuel) hr
    | native word next =>
      rw [hs] at h
      rw [Config.step_under _ (by simp [hs]), hs]
      simp only [Step.under] at h ⊢
      split at h
      · cases h
      · rename_i inner hp
        have hp' : (host word).perform (host.reentry (fuel + rest))
            (next.under (frame :: callers)).state = some (.done inner) :=
          Routine.perform_of_extends (reentry_extends_of_le host (Nat.le_add_right fuel rest))
            _ _ _ hp
        rw [hp']
        exact ih _ h
      · cases h

/-- **A run above suspended callers begins with the run by itself.**  If that fails, so does the
whole; if it finishes, the rest of the whole is that of the first caller. -/
theorem exec_under_cases {host : Host ν} {frame : Frame} {callers : List Frame} {halt : Halt ν} :
    ∀ (fuel : Nat) (config : Config ν),
      exec host fuel (config.under (frame :: callers)) = some halt →
      (∃ fault final, exec host fuel config = some (.failed fault final) ∧
        halt = .failed fault (final.under (frame :: callers))) ∨
      ∃ state rest, exec host fuel config = some (.finished state) ∧ rest < fuel ∧
        exec host rest (Config.resume frame callers state) = some halt := by
  intro fuel
  induction fuel with
  | zero => intro config h; cases h
  | succ fuel ih =>
    intro config h
    -- the run by itself goes the same way, so what is known about its rest is known about it
    have hmore : ∀ next : Config ν, exec host (fuel + 1) config = exec host fuel next →
        exec host fuel (next.under (frame :: callers)) = some halt →
        (∃ fault final, exec host (fuel + 1) config = some (.failed fault final) ∧
          halt = .failed fault (final.under (frame :: callers))) ∨
        ∃ state rest, exec host (fuel + 1) config = some (.finished state) ∧ rest < fuel + 1 ∧
          exec host rest (Config.resume frame callers state) = some halt := by
      intro next he hn
      rw [he]
      rcases ih next hn with hf | ⟨state, rest, hd, hlt, hrest⟩
      · exact Or.inl hf
      · exact Or.inr ⟨state, rest, hd, Nat.lt_succ_of_lt hlt, hrest⟩
    rw [exec] at h
    cases hs : config.step with
    | next next =>
      rw [Config.step_under _ (by simp [hs]), hs] at h
      exact hmore next (by rw [exec, hs]) h
    | halt stop =>
      cases stop with
      | finished state =>
        rw [Config.step_under_of_finished hs] at h
        exact Or.inr ⟨state, fuel, by rw [exec, hs], Nat.lt_succ_self fuel, h⟩
      | failed fault final =>
        rw [Config.step_under _ (by simp [hs]), hs] at h
        cases h
        exact Or.inl ⟨fault, final, by rw [exec, hs], rfl⟩
    | native word next =>
      rw [Config.step_under _ (by simp [hs]), hs] at h
      simp only [Step.under] at h
      split at h
      · cases h
      · rename_i inner hp
        have hp' : (host word).perform (host.reentry fuel) next.state =
            some (.done inner) := hp
        exact hmore (next.advance inner.endCall) (by rw [exec, hs]; simp only [hp']) h
      · rename_i fault inner hp
        have hp' : (host word).perform (host.reentry fuel) next.state =
            some (.failed fault inner) := hp
        cases h
        exact Or.inl ⟨fault, { next with state := inner }, by rw [exec, hs]; simp only [hp'], rfl⟩

end StackScript
