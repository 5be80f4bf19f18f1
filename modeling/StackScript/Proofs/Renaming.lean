import StackScript.Proofs.CallEffects

/-!
# Renaming scopes and host objects

Scopes and host objects are known by their numbers, and nothing a script can see depends on which numbers
they are.

* `Renaming` — other numbers for scopes and for host objects, different ones for different ones.
* `Renaming.value` — a value under its other number.  Comparing, adding and writing values commutes with
  it: `Renaming.same_value`, `Renaming.sum?_value`, `Renaming.display_value`, `Renaming.quoted_value`.
* `Code.relabel` — code with other constants and other places, at any depth.
* `Code.relabel_eq_self` — code keeps its form if all constants in it and all places do.
* `Forest.ancestors_newChild`, `Forest.ancestors_define`, `Forest.words_define` — scopes change in these
  ways only.
-/

set_option autoImplicit false

namespace StackScript

variable {ν : Type}

/-- Other numbers for scopes and for host objects; what is different stays different. -/
structure Renaming where
  scope : ScopeId → ScopeId
  object : Nat → Nat
  scope_injective : Function.Injective scope
  object_injective : Function.Injective object

namespace Renaming

/-- Every number stays as it is. -/
def identity : Renaming := ⟨id, id, Function.injective_id, Function.injective_id⟩

/-- A value under its other number; numbers, truth values and texts have none. -/
def value (ρ : Renaming) : Value → Value
  | .package scope => .package (ρ.scope scope)
  | .host object => .host { object with id := ρ.object object.id }
  | .number x => .number x
  | .bool b => .bool b
  | .text s => .text s

variable (ρ : Renaming)

theorem value_identity (value : Value) : identity.value value = value := by
  cases value <;> rfl

@[simp] theorem kind_value (value : Value) : (ρ.value value).kind = value.kind := by
  cases value <;> rfl

@[simp] theorem isTruthy_value (value : Value) :
    (ρ.value value).isTruthy = value.isTruthy := by
  cases value <;> rfl

/-- Equality as scripts see it does not depend on the numbers. -/
@[simp] theorem same_value (a b : Value) :
    (ρ.value a).same (ρ.value b) = a.same b := by
  cases a with
  | package i =>
    cases b with
    | package j =>
      rw [Bool.eq_iff_iff]
      simp only [value, Value.same, beq_iff_eq]
      exact ρ.scope_injective.eq_iff
    | _ => rfl
  | host object =>
    cases b with
    | host other =>
      rw [Bool.eq_iff_iff]
      simp only [value, Value.same, beq_iff_eq]
      exact ρ.object_injective.eq_iff
    | _ => rfl
  | _ => cases b <;> rfl

@[simp] theorem greater?_value (b a : Value) :
    Value.greater? (ρ.value b) (ρ.value a) = Value.greater? b a := by
  cases b <;> cases a <;> rfl

section Written

variable {ρ : Renaming} {names names' : ScopeId → List String}

/-- A package is written by the names bound in it, so these have to be the same. -/
theorem display_value (h : ∀ scope, names' (ρ.scope scope) = names scope) (value : Value) :
    (ρ.value value).display names' = value.display names := by
  cases value with
  | package scope => simp only [Renaming.value, Value.display, h scope]
  | bool b => cases b <;> rfl
  | _ => rfl

theorem quoted_value (h : ∀ scope, names' (ρ.scope scope) = names scope) (value : Value) :
    (ρ.value value).quoted names' = value.quoted names := by
  cases value with
  | text s => rfl
  | package scope => exact display_value h (.package scope)
  | host object => rfl
  | number x => rfl
  | bool b => exact display_value h (.bool b)

theorem sum?_value (h : ∀ scope, names' (ρ.scope scope) = names scope) (b a : Value) :
    Value.sum? names' (ρ.value b) (ρ.value a) =
      (Value.sum? names b a).map ρ.value := by
  cases b with
  | text s =>
    show some (Value.text (s ++ (ρ.value a).display names')) = _
    rw [display_value h]
    rfl
  | number y =>
    cases a with
    | _ => rfl
  | bool c =>
    cases a with
    | text s =>
      show some (Value.text ((ρ.value (.bool c)).display names' ++ s)) = _
      rw [display_value h]
      rfl
    | _ => rfl
  | package scope =>
    cases a with
    | text s =>
      show some (Value.text ((ρ.value (.package scope)).display names' ++ s)) = _
      rw [display_value h]
      rfl
    | _ => rfl
  | host object =>
    cases a with
    | _ => rfl

end Written

end Renaming

/-! ## Code -/

mutual

/-- The instruction with other places and other constants, also in the body that it defines. -/
def Instruction.relabel (place : Option Location → Option Location) (value : Value → Value) :
    Instruction → Instruction
  | .primitive location operation => .primitive (place location) operation
  | .push location constant => .push (place location) (value constant)
  | .define location name body => .define (place location) name (Code.relabel place value body)
  | .execute location name => .execute (place location) name
  | .jumpIfFalse location offset => .jumpIfFalse (place location) offset
  | .jump location offset => .jump (place location) offset

/-- The code with other places and other constants. -/
def Code.relabel (place : Option Location → Option Location) (value : Value → Value) :
    List Instruction → List Instruction
  | [] => []
  | first :: rest => Instruction.relabel place value first :: Code.relabel place value rest

end

section Relabel

variable {place : Option Location → Option Location} {value : Value → Value}

theorem Code.relabel_eq_map (code : Code) :
    Code.relabel place value code = code.map (Instruction.relabel place value) := by
  induction code with
  | nil => rfl
  | cons first rest ih => rw [Code.relabel, ih, List.map_cons]

@[simp] theorem Instruction.location_relabel (instruction : Instruction) :
    (instruction.relabel place value).location = place instruction.location := by
  cases instruction <;> rfl

mutual

theorem Instruction.relabel_eq_self (hplace : ∀ location, place location = location)
    (instruction : Instruction)
    (h : ∀ location constant, Code.Holds (.push location constant) [instruction] →
      value constant = constant) :
    instruction.relabel place value = instruction := by
  match instruction with
  | .primitive location operation => simp only [Instruction.relabel, hplace]
  | .push location constant =>
    simp only [Instruction.relabel, hplace, h location constant (.here (List.mem_singleton_self _))]
  | .define location name body =>
    have hbody := Code.relabel_eq_self hplace body fun location constant hc =>
      h location constant (.inside (List.mem_singleton_self _) hc)
    simp only [Instruction.relabel, hplace, hbody]
  | .execute location name => simp only [Instruction.relabel, hplace]
  | .jumpIfFalse location offset => simp only [Instruction.relabel, hplace]
  | .jump location offset => simp only [Instruction.relabel, hplace]

/-- **Code keeps its form** if the places and all constants in it do. -/
theorem Code.relabel_eq_self (hplace : ∀ location, place location = location) (code : Code)
    (h : ∀ location constant, code.Holds (.push location constant) → value constant = constant) :
    Code.relabel place value code = code := by
  match code with
  | [] => rfl
  | first :: rest =>
    have hfirst := Instruction.relabel_eq_self hplace first fun location constant hc =>
      h location constant (show Code.Holds _ ([first] ++ rest) from Code.holds_append.2 (Or.inl hc))
    have hrest := Code.relabel_eq_self hplace rest fun location constant hc =>
      h location constant (show Code.Holds _ ([first] ++ rest) from Code.holds_append.2 (Or.inr hc))
    rw [Code.relabel, hfirst, hrest]

end

end Relabel

/-- The body with other code in place of its own. -/
def WordBody.mapCode (change : Code → Code) : WordBody ν → WordBody ν
  | .native word => .native word
  | .scripted code => .scripted (change code)

/-! ## Words in order -/

/-- Binding a word among others goes by the names alone. -/
theorem map_insertWord {change : Word ν → Word ν} (h : ∀ word, (change word).name = word.name)
    (word : Word ν) (words : List (Word ν)) :
    (insertWord word words).map change = insertWord (change word) (words.map change) := by
  induction words with
  | nil => rfl
  | cons other rest ih =>
    simp only [insertWord, List.map_cons, h]
    split
    · rfl
    · split
      · rfl
      · rw [List.map_cons, ih]

theorem map_mergeWords {change : Word ν → Word ν} (h : ∀ word, (change word).name = word.name)
    (outer inner : List (Word ν)) :
    (Forest.mergeWords outer inner).map change =
      Forest.mergeWords (outer.map change) (inner.map change) := by
  unfold Forest.mergeWords
  induction inner generalizing outer with
  | nil => rfl
  | cons word rest ih =>
    rw [List.map_cons, List.foldl_cons, List.foldl_cons, ih, map_insertWord h]

/-! ## How scopes change -/

namespace Forest

variable (forest : Forest ν)

@[simp] theorem size_newChild (parent : ScopeId) :
    (forest.newChild parent).size = forest.size + 1 := by
  simp only [newChild, size, Array.size_push]

@[simp] theorem size_define (scope : ScopeId) (word : Word ν) :
    (forest.define scope word).size = forest.size := by
  simp only [define, size, Array.size_modify]

theorem ancestors_of_size_le {forest : Forest ν} {scope : ScopeId} (h : forest.size ≤ scope) :
    forest.ancestors scope = [] := by
  unfold ancestors
  rw [Array.getElem?_eq_none h]

theorem ancestors_newChild (parent scope : ScopeId) :
    (forest.newChild parent).ancestors scope =
      if scope = forest.size then forest.chain parent else forest.ancestors scope := by
  unfold ancestors newChild size
  rw [Array.getElem?_push]
  by_cases h : scope = forest.scopes.size
  · simp only [if_pos h]
  · simp only [if_neg h]

theorem ancestors_define (scope other : ScopeId) (word : Word ν) :
    (forest.define scope word).ancestors other = forest.ancestors other := by
  unfold ancestors define
  rw [Array.getElem?_modify]
  by_cases h : scope = other
  · rw [if_pos h]
    cases forest.scopes[other]? <;> rfl
  · rw [if_neg h]

/-- A word is bound in its scope, if that exists, and nowhere else. -/
theorem words_define (scope other : ScopeId) (word : Word ν) :
    (forest.define scope word).words other =
      if scope = other ∧ other < forest.size then insertWord word (forest.words other)
      else forest.words other := by
  by_cases hsize : other < forest.size
  · obtain ⟨found, hfound⟩ : ∃ found, forest.scopes[other]? = some found :=
      ⟨_, Array.getElem?_eq_getElem hsize⟩
    unfold words define
    rw [Array.getElem?_modify, hfound]
    by_cases h : scope = other
    · rw [if_pos h, if_pos ⟨h, hsize⟩]
      rfl
    · rw [if_neg h, if_neg fun hc => h hc.1]
  · rw [if_neg fun hc => hsize hc.2, words_of_size_le (Nat.le_of_not_lt hsize)]
    exact words_of_size_le (by rw [size_define]; exact Nat.le_of_not_lt hsize)

/-- A forest is known by the number of its scopes and by what can be asked about each of them. -/
theorem ext_of {forest other : Forest ν} (hsize : other.size = forest.size)
    (hancestors : ∀ scope, other.ancestors scope = forest.ancestors scope)
    (hwords : ∀ scope, other.words scope = forest.words scope) : other = forest := by
  obtain ⟨scopes⟩ := forest
  obtain ⟨others⟩ := other
  refine congrArg Forest.mk (Array.ext hsize fun i hi hi' => ?_)
  have ha := hancestors i
  have hw := hwords i
  simp only [ancestors, words, Array.getElem?_eq_getElem hi, Array.getElem?_eq_getElem hi'] at ha hw
  cases h : others[i]
  cases h' : scopes[i]
  rw [h, h'] at ha hw
  exact congr (congrArg Scope.mk ha) hw

end Forest

end StackScript
