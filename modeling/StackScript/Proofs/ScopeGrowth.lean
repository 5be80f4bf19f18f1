import StackScript.Proofs.Output
import StackScript.Proofs.Renaming

/-!
# Scopes only grow

Whatever runs, on whatever host, the scopes change in two ways only: one is created, or a word is bound in
one.  So no scope is lost or moves, and a name that is bound stays bound.

* `Forest.Grown` — a forest comes from another by creating scopes and binding words.
* `runCode_grown`, `callWord_grown` — so do the scopes of a machine, whatever runs.
* `Forest.Reaches` — any sequence of operations, whole runs among them.
* `Forest.Extends`, `Forest.Grown.extends` — what growing leaves as it was.
* `Forest.Ordered`, `Forest.Grown.ordered` — the words of a scope are kept in the order of their names.
* `Forest.local?_define` — what a scope binds after a definition.
-/

set_option autoImplicit false

namespace StackScript

variable {ν : Type}

namespace Forest

/-! ## Growing -/

/-- The second forest comes from the first by creating scopes and binding words. -/
inductive Grown (before : Forest ν) : Forest ν → Prop where
  | refl : Grown before before
  | newHost {after : Forest ν} (h : Grown before after) : Grown before after.newHost
  | newChild {after : Forest ν} (h : Grown before after) (parent : ScopeId) :
      Grown before (after.newChild parent)
  | define {after : Forest ν} (h : Grown before after) (scope : ScopeId) (word : Word ν) :
      Grown before (after.define scope word)

theorem Grown.trans {a b c : Forest ν} (h : a.Grown b) (h' : b.Grown c) : a.Grown c := by
  induction h' with
  | refl => exact h
  | newHost _ ih => exact .newHost ih
  | newChild _ parent ih => exact .newChild ih parent
  | define _ scope word ih => exact .define ih scope word

end Forest

/-! ## Whole runs -/

/-- Scopes are only created, and words only bound. -/
theorem Forest.Grown.lasting :
    LastingThroughout fun before after : State ν => before.forest.Grown after.forest where
  refl _ := .refl
  trans := trans
  change := by
    intro state after h
    cases h with
    | newHost => exact .newHost .refl
    | newChild parent => exact .newChild .refl parent
    | define scope word => exact .define .refl scope word
    | _ => exact .refl
  calls _ _ _ := .refl

theorem Halt.unwind_forest (depth : Nat) (halt : Halt ν) :
    (halt.unwind depth).state.forest = halt.state.forest := by
  cases halt <;> rfl

/-- **Running code only creates scopes and binds words**, whether it succeeds or fails. -/
theorem runCode_grown {host : Host ν} {fuel : Nat} {code : Code} {state : State ν}
    {outcome : Outcome ν} (h : runCode host fuel code state = some outcome) :
    state.forest.Grown outcome.state.forest :=
  runCode_lasting Forest.Grown.lasting h

theorem callWord_grown {host : Host ν} {fuel : Nat} {location : Location} {name : String}
    {state : State ν} {outcome : Outcome ν}
    (h : callWord host fuel location name state = some outcome) :
    state.forest.Grown outcome.state.forest :=
  callWord_lasting Forest.Grown.lasting h

namespace Forest

/-! ## Sequences of operations -/

/-- One operation on the scopes: one is created, a word is bound, some code runs or some word is called on
some machine with some host. -/
inductive Operation : Forest ν → Forest ν → Prop where
  | newHost (forest : Forest ν) : Operation forest forest.newHost
  | newChild (forest : Forest ν) (parent : ScopeId) : Operation forest (forest.newChild parent)
  | define (forest : Forest ν) (scope : ScopeId) (word : Word ν) :
      Operation forest (forest.define scope word)
  | run {host : Host ν} {fuel : Nat} {code : Code} {state : State ν} {outcome : Outcome ν}
      (h : runCode host fuel code state = some outcome) :
      Operation state.forest outcome.state.forest
  | call {host : Host ν} {fuel : Nat} {location : Location} {name : String} {state : State ν}
      {outcome : Outcome ν} (h : callWord host fuel location name state = some outcome) :
      Operation state.forest outcome.state.forest

/-- The second forest comes from the first by any sequence of operations. -/
inductive Reaches (before : Forest ν) : Forest ν → Prop where
  | refl : Reaches before before
  | tail {middle after : Forest ν} (h : Reaches before middle) (ho : Operation middle after) :
      Reaches before after

theorem Operation.grown {before after : Forest ν} (h : Operation before after) :
    before.Grown after := by
  cases h with
  | newHost => exact .newHost .refl
  | newChild _ parent => exact .newChild .refl parent
  | define _ scope word => exact .define .refl scope word
  | run h => exact runCode_grown h
  | call h => exact callWord_grown h

theorem Reaches.grown {before after : Forest ν} (h : before.Reaches after) : before.Grown after := by
  induction h with
  | refl => exact .refl
  | tail _ ho ih => exact ih.trans ho.grown

/-! ## What growing leaves as it was -/

variable (forest : Forest ν)

@[simp] theorem size_newHost : forest.newHost.size = forest.size + 1 := by
  simp only [newHost, size, Array.size_push]

theorem ancestors_newHost (scope : ScopeId) :
    forest.newHost.ancestors scope = forest.ancestors scope := by
  unfold ancestors newHost
  rw [Array.getElem?_push]
  by_cases h : scope = forest.scopes.size
  · rw [if_pos h, h, Array.getElem?_eq_none (Nat.le_refl _)]
  · rw [if_neg h]

theorem words_newHost (scope : ScopeId) : forest.newHost.words scope = forest.words scope := by
  unfold words newHost
  rw [Array.getElem?_push]
  by_cases h : scope = forest.scopes.size
  · rw [if_pos h, h, Array.getElem?_eq_none (Nat.le_refl _)]
  · rw [if_neg h]

end Forest

/-- What is bound to a name once a word has been bound among others. -/
theorem find?_insertWord (word : Word ν) (words : List (Word ν)) (name : String) :
    (insertWord word words).find? (fun other => other.name == name) =
      if word.name = name then some word else words.find? fun other => other.name == name := by
  induction words with
  | nil =>
    by_cases h : word.name = name
    · simp [insertWord, h]
    · simp [insertWord, h]
  | cons other rest ih =>
    unfold insertWord
    split
    · by_cases h : word.name = name
      · simp [h]
      · simp [h]
    · split
      · rename_i he
        by_cases h : word.name = name
        · simp [h]
        · simp [h, ← he]
      · rename_i hne
        rw [List.find?_cons, List.find?_cons, ih]
        by_cases h : word.name = name
        · have ho : (other.name == name) = false :=
            beq_eq_false_iff_ne.2 fun he => hne (h.trans he.symm)
          rw [ho, if_pos h]
        · simp [h]

namespace Forest

variable (forest : Forest ν)

theorem local?_newHost (scope : ScopeId) (name : String) :
    forest.newHost.local? scope name = forest.local? scope name := by
  rw [local?, words_newHost, local?]

theorem local?_newChild (parent scope : ScopeId) (name : String) :
    (forest.newChild parent).local? scope name = forest.local? scope name := by
  rw [local?, words_newChild, local?]

/-- **A definition binds its name in its scope**, and changes nothing else that a scope binds. -/
theorem local?_define (scope other : ScopeId) (word : Word ν) (name : String) :
    (forest.define scope word).local? other name =
      if scope = other ∧ other < forest.size ∧ word.name = name then some word
      else forest.local? other name := by
  rw [local?, words_define]
  by_cases h : scope = other ∧ other < forest.size
  · rw [if_pos h, find?_insertWord]
    simp only [h, true_and]
    rfl
  · rw [if_neg h, if_neg fun hc => h ⟨hc.1, hc.2.1⟩]
    rfl

/-- Scopes may have been created and words bound, but the scopes that existed lie where they lay and bind
what they bound, though maybe to other words. -/
structure Extends (before after : Forest ν) : Prop where
  size : before.size ≤ after.size
  ancestors : ∀ scope < before.size, after.ancestors scope = before.ancestors scope
  bound : ∀ scope name, before.bindsLocally scope name = true → after.bindsLocally scope name = true

variable {forest}

/-- **Growing extends.**  The induction is on the operations, and each of them has a lemma for what can be
asked about a scope. -/
theorem Grown.extends {before after : Forest ν} (h : before.Grown after) : before.Extends after := by
  induction h with
  | refl => exact ⟨Nat.le_refl _, fun _ _ => rfl, fun _ _ hb => hb⟩
  | @newHost after _ ih =>
    refine ⟨?_, fun scope hs => ?_, fun scope name hb => ?_⟩
    · rw [size_newHost]
      exact Nat.le_succ_of_le ih.size
    · rw [ancestors_newHost, ih.ancestors scope hs]
    · rw [bindsLocally, local?_newHost]
      exact ih.bound scope name hb
  | @newChild after _ parent ih =>
    refine ⟨?_, fun scope hs => ?_, fun scope name hb => ?_⟩
    · rw [size_newChild]
      exact Nat.le_succ_of_le ih.size
    · rw [ancestors_newChild, if_neg (Nat.ne_of_lt (Nat.lt_of_lt_of_le hs ih.size)),
        ih.ancestors scope hs]
    · rw [bindsLocally, local?_newChild]
      exact ih.bound scope name hb
  | @define after _ scope word ih =>
    refine ⟨?_, fun other hs => ?_, fun other name hb => ?_⟩
    · rw [size_define]
      exact ih.size
    · rw [ancestors_define, ih.ancestors other hs]
    · rw [bindsLocally, local?_define]
      split
      · rfl
      · exact ih.bound other name hb

theorem Extends.parent? {before after : Forest ν} (h : before.Extends after) {scope : ScopeId}
    (hs : scope < before.size) : after.parent? scope = before.parent? scope := by
  rw [Forest.parent?, h.ancestors scope hs, Forest.parent?]

theorem Extends.depth {before after : Forest ν} (h : before.Extends after) {scope : ScopeId}
    (hs : scope < before.size) : after.depth scope = before.depth scope := by
  rw [Forest.depth, h.ancestors scope hs, Forest.depth]

end Forest

/-! ## The order of words -/

/-- The words stand in the order of their names, so that no name is bound twice. -/
def InOrder (words : List (Word ν)) : Prop := words.Pairwise fun a b => a.name < b.name

theorem InOrder.insertWord {words : List (Word ν)} (h : InOrder words) (word : Word ν) :
    InOrder (StackScript.insertWord word words) := by
  induction words with
  | nil => exact List.pairwise_singleton _ _
  | cons other rest ih =>
    obtain ⟨hother, hrest⟩ := List.pairwise_cons.1 h
    unfold StackScript.insertWord
    split
    · rename_i hlt
      refine .cons (fun later hm => ?_) h
      rcases List.mem_cons.1 hm with rfl | hm
      · exact hlt
      · exact String.lt_trans hlt (hother later hm)
    · rename_i hlt
      split
      · rename_i he
        exact .cons (fun later hm => he ▸ hother later hm) hrest
      · rename_i hne
        refine .cons (fun later hm => ?_) (ih hrest)
        rcases mem_insertWord hm with rfl | hm
        · exact Std.lt_of_le_of_ne (String.not_lt.1 hlt) (Ne.symm hne)
        · exact hother later hm

/-- In order, a word is what its name is bound to. -/
theorem InOrder.find?_eq {words : List (Word ν)} (h : InOrder words) {word : Word ν}
    (hm : word ∈ words) : words.find? (fun other => other.name == word.name) = some word := by
  induction words with
  | nil => cases hm
  | cons first rest ih =>
    obtain ⟨hfirst, hrest⟩ := List.pairwise_cons.1 h
    rcases List.mem_cons.1 hm with rfl | hm
    · simp
    · have hne : first.name ≠ word.name := fun he =>
        String.lt_irrefl word.name (he ▸ hfirst word hm)
      rw [List.find?_cons_of_neg (by simpa using hne)]
      exact ih hrest hm

namespace Forest

/-- In every scope the words stand in the order of their names. -/
def Ordered (forest : Forest ν) : Prop := ∀ scope, InOrder (forest.words scope)

theorem Ordered.empty : (Forest.empty : Forest ν).Ordered := fun scope => by
  rw [words_of_size_le (Nat.zero_le scope)]
  exact .nil

/-- **Growing keeps the order of words.** -/
theorem Grown.ordered {before after : Forest ν} (h : before.Grown after) (ho : before.Ordered) :
    after.Ordered := by
  induction h with
  | refl => exact ho
  | newHost _ ih =>
    intro scope
    rw [words_newHost]
    exact ih scope
  | newChild _ parent ih =>
    intro scope
    rw [words_newChild]
    exact ih scope
  | define _ scope word ih =>
    intro other
    rw [words_define]
    split
    · exact (ih other).insertWord word
    · exact ih other

theorem Reaches.ordered {forest : Forest ν} (h : Forest.empty.Reaches forest) : forest.Ordered :=
  h.grown.ordered .empty

end Forest

end StackScript
