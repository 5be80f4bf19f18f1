import StackScript.Proofs.Step
import StackScript.Session

/-!
# What is known of every bound word

An invariant of the words of a machine says something about every word bound in any of its scopes.

* `Forest.EveryWord` — all bound words have a property.  Binding such a word and creating a scope
  keep it (`EveryWord.define`, `EveryWord.newChild`), and a lookup finds only such words
  (`EveryWord.lookup`).
* `Primitive.effect_everyWord`, `Instruction.move_everyWord` — so do the primitives, and every
  instruction whose definitions have the property.
* `Routine.Settles` — a native routine comes to an end by itself, without entering the machine again,
  and leaves scopes and calls alone; `HostWord.settles_of_demonstration`: the demonstration words do.
-/

set_option autoImplicit false

namespace StackScript

variable {ν : Type} {P : Word ν → Prop}

/-- Every word bound in any scope has the property. -/
def Forest.EveryWord (P : Word ν → Prop) (forest : Forest ν) : Prop :=
  ∀ scope, ∀ word ∈ forest.words scope, P word

theorem mem_insertWord {word other : Word ν} {words : List (Word ν)}
    (h : other ∈ insertWord word words) : other = word ∨ other ∈ words := by
  induction words with
  | nil => exact Or.inl (List.mem_singleton.1 h)
  | cons first rest ih =>
    unfold insertWord at h
    split at h
    · exact List.mem_cons.1 h
    · split at h
      · rcases List.mem_cons.1 h with h | h
        · exact Or.inl h
        · exact Or.inr (List.mem_cons_of_mem _ h)
      · rcases List.mem_cons.1 h with h | h
        · exact Or.inr (List.mem_cons.2 (Or.inl h))
        · rcases ih h with h | h
          · exact Or.inl h
          · exact Or.inr (List.mem_cons_of_mem _ h)

namespace Forest.EveryWord

variable {forest : Forest ν}

theorem define (h : forest.EveryWord P) (scope : ScopeId) {word : Word ν} (hw : P word) :
    (forest.define scope word).EveryWord P := by
  intro s other hm
  simp only [words, Forest.define, Array.getElem?_modify] at hm
  split at hm
  · rename_i found hf
    split at hf
    · rename_i hs
      obtain ⟨old, ho, rfl⟩ := Option.map_eq_some_iff.1 hf
      rcases mem_insertWord hm with rfl | hm
      · exact hw
      · exact h s other (by simp only [words, ho, hm])
    · exact h s other (by simp only [words, hf, hm])
  · cases hm

theorem push (h : forest.EveryWord P) (ancestors : List ScopeId) :
    (⟨forest.scopes.push ⟨ancestors, []⟩⟩ : Forest ν).EveryWord P := by
  intro s other hm
  simp only [words, Array.getElem?_push] at hm
  split at hm
  · rename_i found hf
    split at hf
    · cases hf; cases hm
    · exact h s other (by simp only [words, hf, hm])
  · cases hm

theorem newChild (h : forest.EveryWord P) (parent : ScopeId) :
    (forest.newChild parent).EveryWord P := h.push _

theorem newHost (h : forest.EveryWord P) : forest.newHost.EveryWord P := h.push _

theorem empty : (Forest.empty : Forest ν).EveryWord P := by
  intro s other hm
  simp [words, Forest.empty] at hm

theorem lookup (h : forest.EveryWord P) {scope : ScopeId} {name : String} {word : Word ν}
    (hl : forest.lookup scope name = some word) : P word := by
  obtain ⟨s, -, hs⟩ := List.exists_of_findSome?_eq_some hl
  exact h s word (List.mem_of_find?_eq_some hs)

theorem install {P : Word HostWord → Prop} (scope : ScopeId) :
    ∀ (words : List HostWord) (forest : Forest HostWord), forest.EveryWord P →
      (∀ w ∈ words, P w.word) → (forest.install scope words).EveryWord P
  | [], _, h, _ => h
  | w :: words, forest, h, hw =>
    install scope words (forest.define scope w.word) (h.define scope (hw w List.mem_cons_self))
      fun w' hm => hw w' (List.mem_cons_of_mem _ hm)

end Forest.EveryWord

theorem State.initial_everyWord {P : Word HostWord → Prop} {words : List HostWord} (sink : Sink)
    (callLimit : Nat) (h : ∀ w ∈ words, P w.word) :
    (State.initial words sink callLimit).forest.EveryWord P :=
  Forest.EveryWord.install 0 words _ Forest.EveryWord.empty.newHost h

/-! ## Instructions -/

theorem Primitive.effect_everyWord (operation : Primitive) {state : State ν}
    (h : state.forest.EveryWord P) : (operation.effect state).state.forest.EveryWord P := by
  rcases operation.effect_cases state with ⟨stack, sink, he⟩ | ⟨-, he⟩ | ⟨parent, -, -, he⟩
  · rw [he]; exact h
  · rw [he]; exact h.newChild _
  · rw [he]; exact h

theorem Instruction.move_everyWord {state : State ν} {instruction : Instruction} {move : Move ν}
    (hm : instruction.move? state = some move) (h : state.forest.EveryWord P)
    (hd : ∀ location name body, instruction = .define location name body →
      ∀ place, P ⟨place, name, "", .scripted body⟩) :
    move.state.forest.EveryWord P := by
  cases instruction with
  | primitive location operation =>
    cases hm
    rw [Outcome.state_move]
    exact operation.effect_everyWord h
  | push location value => cases hm; exact h
  | define location name body => cases hm; exact h.define _ (hd location name body rfl _)
  | execute location name => cases hm
  | jumpIfFalse location offset =>
    simp only [Instruction.move?] at hm
    split at hm <;> cases hm <;> exact h
  | jump location offset => cases hm; exact h

/-! ## Routines that never enter the machine again -/

/-- Nothing but the stack, the sink and the number of host objects differs. -/
structure State.DataOnly (before after : State ν) : Prop where
  forest : after.forest = before.forest
  scope : after.scope = before.scope
  location : after.location = before.location
  calls : after.calls = before.calls
  callLimit : after.callLimit = before.callLimit

namespace Routine

/-- The routine comes to an end by itself, whatever machine it runs on, and changes data only. -/
def Settles (routine : Routine ν) : Prop :=
  ∀ state, ∃ outcome, (∀ machine, routine.perform machine state = some outcome) ∧
    state.DataOnly outcome.state

theorem settles_finish : (finish : Routine ν).Settles :=
  fun state => ⟨.done state, fun _ => rfl, ⟨rfl, rfl, rfl, rfl, rfl⟩⟩

theorem settles_fail (fault : Fault) : (fail fault : Routine ν).Settles :=
  fun state => ⟨.failed fault state, fun _ => rfl, ⟨rfl, rfl, rfl, rfl, rfl⟩⟩

theorem settles_inspect {next : State ν → Routine ν} (h : ∀ state, (next state).Settles) :
    (inspect next).Settles :=
  fun state => h state state

theorem settles_push {next : Routine ν} (value : Value) (h : next.Settles) :
    (push value next).Settles := by
  intro state
  obtain ⟨outcome, hp, hd⟩ := h (state.push value)
  exact ⟨outcome, hp, { hd with }⟩

theorem settles_pop {next : Except Fault Value → Routine ν} (h : ∀ answer, (next answer).Settles) :
    (pop next).Settles := by
  intro state
  simp only [perform]
  cases hs : state.stack with
  | nil => exact h _ state
  | cons value rest =>
    obtain ⟨outcome, hp, hd⟩ := h (.ok value) { state with stack := rest }
    exact ⟨outcome, hp, { hd with }⟩

theorem settles_write {next : Except Fault Unit → Routine ν} (text : String)
    (h : ∀ answer, (next answer).Settles) : (write text next).Settles := by
  intro state
  simp only [perform_write, State.write_state]
  obtain ⟨outcome, hp, hd⟩ := h (state.write text).answer (state.handed text)
  exact ⟨outcome, hp, { hd with }⟩

theorem settles_newObject {next : HostObject → Routine ν} (kind : String)
    (h : ∀ object, (next object).Settles) : (newObject kind next).Settles := by
  intro state
  obtain ⟨outcome, hp, hd⟩ := h ⟨state.objects, kind⟩ { state with objects := state.objects + 1 }
  exact ⟨outcome, hp, { hd with }⟩

theorem settles_popValue {next : Value → Routine ν} (h : ∀ value, (next value).Settles) :
    (popValue next).Settles := by
  refine settles_pop fun answer => ?_
  cases answer with
  | error fault => exact settles_fail fault
  | ok value => exact h value

theorem settles_writeLast (text : String) : (writeLast text : Routine ν).Settles := by
  refine settles_write text fun answer => ?_
  cases answer with
  | error fault => exact settles_fail fault
  | ok done => exact settles_finish

end Routine

open Routine in
/-- **The demonstration words come to an end by themselves and change data only.** -/
theorem HostWord.settles_of_demonstration {word : HostWord} (hw : word ∈ demonstration) :
    (hostRoutine word).Settles := by
  simp only [demonstration, List.mem_cons, List.not_mem_nil, or_false] at hw
  rcases hw with rfl | rfl | rfl | rfl
  · exact settles_popValue fun value => settles_inspect fun state => settles_writeLast _
  · exact settles_inspect fun state => settles_writeLast _
  · exact settles_inspect fun state => settles_writeLast _
  · refine settles_popValue fun value => ?_
    cases value with
    | text kind => exact settles_newObject kind fun object => settles_push _ settles_finish
    | _ => exact settles_inspect fun state => settles_fail _

end StackScript
