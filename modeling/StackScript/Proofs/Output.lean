import StackScript.Proofs.Lasting

/-!
# Output only grows

What has been written stays written, whatever runs after it and whether or not that fails.  This holds of
every host, since a routine can only ask for a text to be written, and of every sink, since a text that is
refused leaves at most a part of itself.

* `Sink.Grows` — a sink holds what another one held, and maybe more behind it.

Principal results: `exec_grows` and `runCode_grows`.
-/

set_option autoImplicit false

namespace StackScript

variable {ν : Type}

/-- The second sink holds what the first one held, and maybe more behind it. -/
def Sink.Grows (before after : Sink) : Prop := ∃ more, after.written = before.written ++ more

namespace Sink.Grows

theorem refl (sink : Sink) : sink.Grows sink := ⟨"", String.append_empty.symm⟩

theorem trans {a b c : Sink} (h : a.Grows b) (h' : b.Grows c) : a.Grows c := by
  obtain ⟨more, hb⟩ := h
  obtain ⟨more', hc⟩ := h'
  exact ⟨more ++ more', by rw [hc, hb, String.append_assoc]⟩

theorem after (sink : Sink) (text : String) : sink.Grows (sink.after text) := ⟨sink.part text, rfl⟩

/-- Only a text handed to the sink changes it. -/
theorem lasting : LastingThroughout fun before after : State ν => before.sink.Grows after.sink where
  refl state := refl state.sink
  trans := trans
  change := by
    intro state after h
    cases h with
    | handed text => exact .after state.sink text
    | _ => exact refl state.sink
  calls state _ _ := refl state.sink

end Sink.Grows

theorem exec_grows {host : Host ν} {fuel : Nat} {config : Config ν} {halt : Halt ν}
    (h : exec host fuel config = some halt) : config.state.sink.Grows halt.state.sink :=
  exec_lasting Sink.Grows.lasting h

/-- **Running code only adds to the output**, whether it succeeds or fails. -/
theorem runCode_grows {host : Host ν} {fuel : Nat} {code : Code} {state : State ν}
    {outcome : Outcome ν} (h : runCode host fuel code state = some outcome) :
    state.sink.Grows outcome.state.sink :=
  runCode_lasting Sink.Grows.lasting h

@[simp] theorem State.moveTo_sink (state : State ν) (location : Option Location) :
    (state.moveTo location).sink = state.sink := by cases location <;> rfl

theorem Halt.unwind_sink (depth : Nat) (halt : Halt ν) :
    (halt.unwind depth).state.sink = halt.state.sink := by
  cases halt <;> rfl

end StackScript
