import StackScript.Proofs.Output
import StackScript.Proofs.Renaming
import StackScript.Proofs.Room

/-!
# Machines that are alike

Two machines may differ in what no script can tell: in the numbers of scopes and host objects, in the
places that instructions and calls remember, in what was written before and in the calls that were in
progress before.  Then one is called the image of the other.

* `Likeness` — how a machine and its image differ.
* `Likeness.Forests`, `Likeness.States` — scopes and states that differ in this way only.  There may be
  scopes in the image that answer to none of the machine.
* `Likeness.Outcomes`, `Likeness.Moves` — the same of what operations and instructions lead to.

Principal results: `Primitive.effect_alike`, `Instruction.move_alike` and
`HostWord.alike_of_demonstration` — operations lead from alike to alike.
-/

set_option autoImplicit false

namespace StackScript

variable {ν : Type}

/-- How a machine and its image differ: in the numbers of scopes and host objects, maybe in places, which the
image may forget, and in what had been written and which calls were in progress before.  The image is not
nearer to its limit of calls. -/
structure Likeness extends Renaming where
  keepsPlaces : Bool
  written : String
  imageWritten : String
  calls : List CallItem
  imageCalls : List CallItem
  fewer : imageCalls.length ≤ calls.length

namespace Likeness

variable (k : Likeness)

/-! ## Images -/

def location? (location : Option Location) : Option Location :=
  if k.keepsPlaces then location else none

def location (location : Location) : Location :=
  if k.keepsPlaces then location else .unspecified

def instruction : Instruction → Instruction := Instruction.relabel k.location? k.value

def code : Code → Code := Code.relabel k.location? k.value

def word (word : Word ν) : Word ν :=
  { word with location := k.location word.location, body := word.body.mapCode k.code }

def item (item : CallItem) : CallItem := { item with location := k.location item.location }

def frame (frame : Frame) : Frame :=
  ⟨frame.code.map k.instruction, frame.resume, k.scope frame.scope⟩

theorem getD_location? (location : Option Location) :
    (k.location? location).getD .unspecified = k.location (location.getD .unspecified) := by
  unfold location? Likeness.location
  split <;> rfl

@[simp] theorem location_instruction (instruction : Instruction) :
    (k.instruction instruction).location = k.location? instruction.location :=
  Instruction.location_relabel instruction

theorem code_eq_map (code : Code) : k.code code = code.map k.instruction :=
  Code.relabel_eq_map code

@[simp] theorem name_word (word : Word ν) : (k.word word).name = word.name := rfl

theorem row_word (width : Nat) (word : Word ν) : (k.word word).row width = word.row width := by
  obtain ⟨place, name, description, body⟩ := word
  cases body <;> rfl

/-! ## What is alike -/

/-- Every scope of the first forest has an image in the second, and the next new scopes have, too. -/
structure Forests (forest image : Forest ν) : Prop where
  ancestors : ∀ scope, image.ancestors (k.scope scope) = (forest.ancestors scope).map k.scope
  words : ∀ scope, image.words (k.scope scope) = (forest.words scope).map k.word
  inside : ∀ scope, scope < forest.size → k.scope scope < image.size
  next : ∀ n, k.scope (forest.size + n) = image.size + n

/-- The same has been written since, and the same is going to be taken and refused. -/
structure Sinks (sink image : Sink) : Prop where
  reply : image.reply = sink.reply
  written : ∃ more, sink.written = k.written ++ more ∧ image.written = k.imageWritten ++ more

/-- The same calls have been opened since. -/
def CallStacks (calls image : CallStack) : Prop :=
  ∃ inner, calls.items = inner ++ k.calls ∧ image.items = inner.map k.item ++ k.imageCalls

/-- The states differ as the likeness says. -/
structure States (state image : State HostWord) : Prop where
  stack : image.stack = state.stack.map k.value
  forest : k.Forests state.forest image.forest
  objects : ∀ n, k.object (state.objects + n) = image.objects + n
  sink : k.Sinks state.sink image.sink
  callLimit : image.callLimit = state.callLimit
  scope : image.scope = k.scope state.scope
  location : image.location = k.location? state.location
  calls : k.CallStacks state.calls image.calls
  settles : state.forest.EveryWord Word.Settles

/-- The faults have the same cause. -/
structure Faults (fault image : Fault) : Prop where
  cause : image.cause = fault.cause
  location : image.location = k.location? fault.location
  calls : Option.Rel k.CallStacks fault.calls image.calls

/-- Both computations succeed or both fail, in the same way. -/
inductive Outcomes : Outcome HostWord → Outcome HostWord → Prop where
  | done {state image : State HostWord} (h : k.States state image) :
      Outcomes (.done state) (.done image)
  | failed {fault fault' : Fault} {state image : State HostWord} (hf : k.Faults fault fault')
      (h : k.States state image) : Outcomes (.failed fault state) (.failed fault' image)

/-- Both instructions go on at the same offset or both fail, in the same way. -/
inductive Moves : Move HostWord → Move HostWord → Prop where
  | ahead (offset : Nat) {state image : State HostWord} (h : k.States state image) :
      Moves (.ahead offset state) (.ahead offset image)
  | fault {fault fault' : Fault} {state image : State HostWord} (hf : k.Faults fault fault')
      (h : k.States state image) : Moves (.fault fault state) (.fault fault' image)

variable {k}

theorem Outcomes.move {outcome image : Outcome HostWord} (h : k.Outcomes outcome image) :
    k.Moves outcome.move image.move := by
  cases h with
  | done h => exact .ahead 1 h
  | failed hf h => exact .fault hf h

/-! ## Scopes -/

namespace Forests

variable {forest image : Forest ν}

theorem size (h : k.Forests forest image) : k.scope forest.size = image.size := h.next 0

/-- A scope is new in the image if it is new. -/
theorem scope_eq_size_iff (h : k.Forests forest image) (scope : ScopeId) :
    k.scope scope = image.size ↔ scope = forest.size := by
  rw [← h.size]
  exact k.scope_injective.eq_iff

theorem scope_lt_size_iff (h : k.Forests forest image) (scope : ScopeId) :
    k.scope scope < image.size ↔ scope < forest.size := by
  refine ⟨fun hlt => Nat.lt_of_not_le fun hge => ?_, h.inside scope⟩
  obtain ⟨n, rfl⟩ := Nat.exists_eq_add_of_le hge
  rw [h.next n] at hlt
  exact Nat.not_lt.2 (Nat.le_add_right image.size n) hlt

theorem chain (h : k.Forests forest image) (scope : ScopeId) :
    image.chain (k.scope scope) = (forest.chain scope).map k.scope := by
  unfold Forest.chain
  rw [h.ancestors, List.map_cons]

theorem parent? (h : k.Forests forest image) (scope : ScopeId) :
    image.parent? (k.scope scope) = (forest.parent? scope).map k.scope := by
  unfold Forest.parent?
  rw [h.ancestors, List.head?_map]

theorem newChild (h : k.Forests forest image) (parent : ScopeId) :
    k.Forests (forest.newChild parent) (image.newChild (k.scope parent)) := by
  refine ⟨fun scope => ?_, fun scope => ?_, fun scope hs => ?_, fun n => ?_⟩
  · simp only [Forest.ancestors_newChild, h.scope_eq_size_iff]
    split
    · exact h.chain parent
    · exact h.ancestors scope
  · rw [Forest.words_newChild, Forest.words_newChild, h.words]
  · rw [Forest.size_newChild] at hs ⊢
    rcases Nat.lt_succ_iff_lt_or_eq.1 hs with hlt | rfl
    · exact Nat.lt_succ_of_lt (h.inside scope hlt)
    · rw [h.size]
      exact Nat.lt_succ_self _
  · rw [Forest.size_newChild, Forest.size_newChild, Nat.add_assoc, h.next, Nat.add_assoc]

theorem define (h : k.Forests forest image) (scope : ScopeId) (word : Word ν) :
    k.Forests (forest.define scope word) (image.define (k.scope scope) (k.word word)) := by
  refine ⟨fun other => ?_, fun other => ?_, fun other hs => ?_, fun n => ?_⟩
  · rw [Forest.ancestors_define, Forest.ancestors_define, h.ancestors]
  · simp only [Forest.words_define, h.scope_lt_size_iff, k.scope_injective.eq_iff]
    split
    · rw [map_insertWord k.name_word, h.words]
    · exact h.words other
  · rw [Forest.size_define] at hs ⊢
    exact h.inside other hs
  · rw [Forest.size_define, Forest.size_define, h.next]

theorem local? (h : k.Forests forest image) (scope : ScopeId) (name : String) :
    image.local? (k.scope scope) name = (forest.local? scope name).map k.word := by
  unfold Forest.local?
  rw [h.words, List.find?_map]
  rfl

/-- A name means the image of what it means. -/
theorem lookup (h : k.Forests forest image) (scope : ScopeId) (name : String) :
    image.lookup (k.scope scope) name = (forest.lookup scope name).map k.word := by
  unfold Forest.lookup
  rw [h.chain, List.findSome?_map]
  induction forest.chain scope with
  | nil => rfl
  | cons first rest ih =>
    simp only [List.findSome?_cons, Function.comp_apply, h.local?]
    cases forest.local? first name with
    | none => exact ih
    | some word => rfl

theorem localNames (h : k.Forests forest image) (scope : ScopeId) :
    image.localNames (k.scope scope) = forest.localNames scope := by
  unfold Forest.localNames
  rw [h.words, List.map_map]
  rfl

theorem merged (h : k.Forests forest image) (scope : ScopeId) :
    image.merged (k.scope scope) = (forest.merged scope).map k.word := by
  unfold Forest.merged
  rw [h.chain, List.foldr_map]
  induction forest.chain scope with
  | nil => rfl
  | cons first rest ih =>
    rw [List.foldr_cons, List.foldr_cons, map_mergeWords k.name_word, ← ih, h.words]

/-- The listing of the visible words shows neither places nor numbers. -/
theorem listing (h : k.Forests forest image) (scope : ScopeId) :
    image.listing (k.scope scope) = forest.listing scope := by
  unfold Forest.listing
  have hwidth : nameWidth ((forest.merged scope).map k.word) = nameWidth (forest.merged scope) := by
    unfold nameWidth
    rw [List.foldl_map]
    rfl
  simp only [h.merged, List.length_map, List.map_map, hwidth]
  congr 3
  funext word
  exact k.row_word _ word

end Forests

/-- If all numbers stay as they are, then alike forests differ in their words only. -/
theorem forests_iff (hk : k.toRenaming = .identity) {forest image : Forest ν} :
    k.Forests forest image ↔ image.size = forest.size ∧
      (∀ scope, image.ancestors scope = forest.ancestors scope) ∧
      ∀ scope, image.words scope = (forest.words scope).map k.word := by
  have hscope : k.scope = id := congrArg Renaming.scope hk
  constructor
  · rintro ⟨hancestors, hwords, -, hnext⟩
    simp only [hscope, id_eq, List.map_id] at hancestors hwords hnext
    exact ⟨(hnext 0).symm, hancestors, hwords⟩
  · rintro ⟨hsize, hancestors, hwords⟩
    refine ⟨?_, ?_, ?_, ?_⟩
    · simpa only [hscope, id_eq, List.map_id] using hancestors
    · simpa only [hscope, id_eq] using hwords
    · simp only [hscope, id_eq, hsize]
      exact fun scope hs => hs
    · simp only [hscope, id_eq, hsize, implies_true]

theorem value_eq_id (hk : k.toRenaming = .identity) : k.value = id := by
  rw [hk]
  exact funext Renaming.value_identity

/-! ## States -/

/-- If nothing had been written before, then the same has been written. -/
theorem sinks_iff_eq (hw : k.written = "") (hi : k.imageWritten = "") {sink image : Sink} :
    k.Sinks sink image ↔ image = sink := by
  constructor
  · rintro ⟨hreply, more, hsink, himage⟩
    rw [hw] at hsink
    rw [hi] at himage
    exact Sink.ext (himage.trans hsink.symm) hreply
  · rintro rfl
    exact ⟨rfl, image.written, by rw [hw, String.empty_append], by rw [hi, String.empty_append]⟩

/-- Alike sinks take the same part of a text. -/
theorem Sinks.after {sink image : Sink} (h : k.Sinks sink image) (text : String) :
    k.Sinks (sink.after text) (image.after text) := by
  obtain ⟨hreply, more, hsink, himage⟩ := h
  have hpart : image.part text = sink.part text := by
    unfold Sink.part
    rw [hreply]
  refine ⟨?_, more ++ sink.part text, ?_, ?_⟩
  · simp only [Sink.after, hreply]
  · simp only [Sink.after, hsink, String.append_assoc]
  · simp only [Sink.after, himage, hpart, String.append_assoc]

theorem CallStacks.depth_le {calls image : CallStack} (h : k.CallStacks calls image) :
    image.depth ≤ calls.depth := by
  obtain ⟨inner, hcalls, himage⟩ := h
  rw [calls.depth_eq, image.depth_eq, hcalls, himage, List.length_append, List.length_append,
    List.length_map]
  exact Nat.add_le_add_left k.fewer _

theorem CallStacks.depth_eq {calls image : CallStack} (h : k.CallStacks calls image)
    (hk : ¬ k.imageCalls.length < k.calls.length) : image.depth = calls.depth := by
  obtain ⟨inner, hcalls, himage⟩ := h
  have hfewer := k.fewer
  rw [calls.depth_eq, image.depth_eq, hcalls, himage, List.length_append, List.length_append,
    List.length_map]
  omega

namespace States

variable {state image : State HostWord}

theorem names (h : k.States state image) (scope : ScopeId) :
    image.names (k.scope scope) = state.names scope :=
  h.forest.localNames scope

theorem display (h : k.States state image) (value : Value) :
    image.display (k.value value) = state.display value :=
  Renaming.display_value h.names value

theorem quoted (h : k.States state image) (value : Value) :
    image.quoted (k.value value) = state.quoted value :=
  Renaming.quoted_value h.names value

theorem place (h : k.States state image) : image.place = k.location state.place := by
  unfold State.place
  rw [h.location, k.getD_location?]

theorem fault (h : k.States state image) (cause : Fault.Cause) :
    k.Faults (state.fault cause) (image.fault cause) :=
  ⟨rfl, h.location, .some h.calls⟩

theorem fail (h : k.States state image) (cause : Fault.Cause) :
    k.Outcomes (state.fail cause) (image.fail cause) :=
  .failed (h.fault cause) h

theorem push (h : k.States state image) (value : Value) :
    k.States (state.push value) (image.push (k.value value)) :=
  { h with stack := by simp only [State.push, h.stack, List.map_cons] }

theorem withStack (h : k.States state image) (stack : List Value) :
    k.States { state with stack := stack } { image with stack := stack.map k.value } :=
  { h with stack := rfl }

theorem moveTo (h : k.States state image) (location : Option Location) :
    k.States (state.moveTo location) (image.moveTo (k.location? location)) := by
  have hlocation : (image.moveTo (k.location? location)).location =
      k.location? (state.moveTo location).location := by
    have hknown := h.location
    unfold location? at hknown ⊢
    split
    · rename_i hk
      rw [if_pos hk] at hknown
      cases location with
      | none => exact hknown
      | some place => rfl
    · rename_i hk
      rw [if_neg hk] at hknown
      exact hknown
  refine ⟨?_, ?_, ?_, ?_, ?_, ?_, hlocation, ?_, ?_⟩
  · simpa using h.stack
  · simpa using h.forest
  · cases location <;> cases k.location? _ <;> exact h.objects
  · simpa using h.sink
  · simpa using h.callLimit
  · simpa using h.scope
  · simpa using h.calls
  · simpa using h.settles

theorem define (h : k.States state image) (name : String) (body : Code) :
    k.States
      (state.define state.scope ⟨state.place, name, "", .scripted body⟩)
      (image.define image.scope ⟨image.place, name, "", .scripted (k.code body)⟩) := by
  have hforest := h.forest.define state.scope ⟨state.place, name, "", .scripted body⟩
  have hsettles := h.settles.define state.scope
    (show Word.Settles ⟨state.place, name, "", .scripted body⟩ from fun native hb => by cases hb)
  rw [h.scope, h.place]
  exact { h with forest := hforest, settles := hsettles }

theorem openCall (h : k.States state image) (name : String) :
    k.States (state.openCall ⟨name, state.place⟩) (image.openCall ⟨name, image.place⟩) := by
  obtain ⟨inner, hcalls, himage⟩ := h.calls
  refine { h with calls := ⟨⟨name, state.place⟩ :: inner, ?_, ?_⟩ }
  · rw [State.openCall_calls, CallStack.items_push, hcalls, List.cons_append]
  · rw [State.openCall_calls, CallStack.items_push, himage, List.map_cons, List.cons_append, h.place]
    rfl

/-- Closing the innermost call, if it is one of those that were opened since. -/
theorem closeCall (h : k.States state image) (hopen : k.calls.length < state.calls.depth) :
    k.CallStacks state.calls.pop image.calls.pop := by
  obtain ⟨inner, hcalls, himage⟩ := h.calls
  cases inner with
  | nil =>
    rw [state.calls.depth_eq, hcalls, List.nil_append] at hopen
    exact absurd hopen (Nat.lt_irrefl _)
  | cons item inner =>
    refine ⟨inner, ?_, ?_⟩
    · show state.calls.items.tail = _
      rw [hcalls, List.cons_append, List.tail_cons]
    · show image.calls.items.tail = _
      rw [himage, List.map_cons, List.cons_append, List.tail_cons]

theorem write (h : k.States state image) (text : String) :
    k.Outcomes (state.write text) (image.write text) := by
  have hhanded : k.States (state.handed text) (image.handed text) :=
    { h with sink := h.sink.after text }
  unfold State.write
  rw [h.sink.reply]
  cases state.sink.reply [] text with
  | taken => exact .done hhanded
  | refused count reason =>
    refine .failed ⟨rfl, ?_, .none⟩ hhanded
    show none = k.location? none
    unfold location?
    split <;> rfl

theorem withOperands (h : k.States state image)
    {next next' : Value → Value → State HostWord → Outcome HostWord}
    (hnext : ∀ b a s t, k.States s t → k.Outcomes (next b a s) (next' (k.value b) (k.value a) t)) :
    k.Outcomes (state.withOperands next) (image.withOperands next') := by
  unfold State.withOperands
  rw [h.stack]
  cases state.stack with
  | nil => exact h.fail _
  | cons a rest =>
    cases rest with
    | nil => exact (h.withStack []).fail _
    | cons b rest => exact hnext b a _ _ (h.withStack rest)

theorem arithmetic (h : k.States state image) (operation : Primitive)
    (compute : Float → Float → Float) :
    k.Outcomes (state.arithmetic operation compute) (image.arithmetic operation compute) := by
  refine h.withOperands fun b a s t hs => ?_
  cases b with
  | number y =>
    cases a with
    | number x => exact .done (hs.push (.number (compute y x)))
    | _ => exact hs.fail _
  | _ => cases a <;> exact hs.fail _

end States

end Likeness

/-! ## Operations -/

/-- **A primitive leads from alike to alike.** -/
theorem Primitive.effect_alike {k : Likeness} {state image : State HostWord} (operation : Primitive)
    (h : k.States state image) : k.Outcomes (operation.effect state) (operation.effect image) := by
  cases operation with
  | dup =>
    simp only [effect, h.stack]
    cases state.stack with
    | nil => exact h.fail _
    | cons value rest => exact .done (h.push value)
  | drop =>
    simp only [effect, h.stack]
    cases state.stack with
    | nil => exact h.fail _
    | cons value rest => exact .done (h.withStack rest)
  | add =>
    simp only [effect]
    refine h.withOperands fun b a s t hs => ?_
    rw [Renaming.sum?_value hs.names]
    cases Value.sum? s.names b a with
    | none =>
      rw [Option.map_none]
      simp only [Renaming.kind_value]
      exact hs.fail _
    | some value => exact .done (hs.push value)
  | subtract => exact h.arithmetic _ _
  | multiply => exact h.arithmetic _ _
  | divide => exact h.arithmetic _ _
  | equal =>
    simp only [effect]
    refine h.withOperands fun b a s t hs => ?_
    rw [Renaming.same_value]
    exact .done (hs.push (.bool (b.same a)))
  | greaterThan =>
    simp only [effect]
    refine h.withOperands fun b a s t hs => ?_
    rw [Renaming.greater?_value]
    cases Value.greater? b a with
    | none =>
      simp only [Renaming.kind_value]
      exact hs.fail _
    | some answer => exact .done (hs.push (.bool answer))
  | not =>
    simp only [effect, h.stack]
    cases state.stack with
    | nil => exact h.fail _
    | cons value rest =>
      simp only [List.map_cons, Renaming.isTruthy_value]
      exact .done (h.withStack (.bool (!value.isTruthy) :: rest))
  | spew =>
    simp only [effect, h.stack]
    cases state.stack with
    | nil => exact h.fail _
    | cons value rest =>
      simp only [List.map_cons, h.display]
      exact h.write _
  | package =>
    have hscope : k.scope state.forest.size = image.forest.size := h.forest.size
    refine .done { h with
      forest := ?_
      scope := hscope.symm
      settles := h.settles.newChild _ }
    rw [h.scope]
    exact h.forest.newChild state.scope
  | endPackage =>
    simp only [effect]
    rw [h.scope, h.forest.parent?]
    cases state.forest.parent? state.scope with
    | none => exact h.fail _
    | some parent =>
      refine .done { h with stack := ?_, scope := rfl }
      rw [h.stack]
      rfl

/-- **An instruction other than a call leads from alike to alike.** -/
theorem Instruction.move_alike {k : Likeness} {state image : State HostWord}
    {instruction : Instruction} {move : Move HostWord} (h : k.States state image)
    (hm : instruction.move? state = some move) :
    ∃ move', (k.instruction instruction).move? image = some move' ∧ k.Moves move move' := by
  cases instruction with
  | primitive location operation =>
    cases hm
    exact ⟨_, rfl, (operation.effect_alike h).move⟩
  | push location value => cases hm; exact ⟨_, rfl, .ahead 1 (h.push value)⟩
  | define location name body => cases hm; exact ⟨_, rfl, .ahead 1 (h.define name body)⟩
  | execute location name => cases hm
  | jumpIfFalse location offset =>
    have hstack := h.stack
    show ∃ move', Instruction.move? image (.jumpIfFalse _ offset) = some move' ∧ _
    cases hs : state.stack with
    | nil =>
      rw [hs] at hstack
      simp only [move?, hs] at hm
      simp only [move?, hstack, List.map_nil]
      cases hm
      exact ⟨_, rfl, (h.fail _).move⟩
    | cons value rest =>
      rw [hs] at hstack
      simp only [move?, hs] at hm
      simp only [move?, hstack, List.map_cons, Renaming.isTruthy_value]
      cases hm
      exact ⟨_, rfl, .ahead _ (h.withStack rest)⟩
  | jump location offset => cases hm; exact ⟨_, rfl, .ahead offset h⟩

/-! ## Native words -/

namespace Routine

/-- Carried out in alike states, the routines come to alike ends by themselves. -/
def Alike (k : Likeness) (routine image : Routine HostWord) : Prop :=
  ∀ machine machine' s t, k.States s t →
    ∃ outcome outcome', routine.perform machine s = some outcome ∧
      image.perform machine' t = some outcome' ∧ k.Outcomes outcome outcome'

variable {k : Likeness}

theorem alike_inspect {next next' : State HostWord → Routine HostWord}
    (h : ∀ s t, k.States s t → (next s).Alike k (next' t)) :
    (inspect next).Alike k (inspect next') :=
  fun machine machine' s t hs => h s t hs machine machine' s t hs

theorem alike_failWith (cause : Fault.Cause) :
    (failWith cause : Routine HostWord).Alike k (failWith cause) :=
  fun _ _ _ _ hs => ⟨_, _, rfl, rfl, hs.fail cause⟩

theorem alike_pushLast (value : Value) :
    (pushLast value : Routine HostWord).Alike k (pushLast (k.value value)) :=
  fun _ _ _ _ hs => ⟨_, _, rfl, rfl, .done (hs.push value)⟩

theorem alike_writeLast (text : String) :
    (writeLast text : Routine HostWord).Alike k (writeLast text) := by
  intro machine machine' s t hs
  rw [perform_writeLast, perform_writeLast]
  exact ⟨_, _, rfl, rfl, hs.write text⟩

theorem alike_popValue {next next' : Value → Routine HostWord}
    (h : ∀ value, (next value).Alike k (next' (k.value value))) :
    (popValue next).Alike k (popValue next') := by
  intro machine machine' s t hs
  simp only [popValue, perform]
  rw [hs.stack]
  cases s.stack with
  | nil => exact ⟨_, _, rfl, rfl, hs.fail .stackUnderflow⟩
  | cons value rest => exact h value machine machine' _ _ (hs.withStack rest)

theorem alike_newObject {next next' : HostObject → Routine HostWord} (kind : String)
    (h : ∀ id, (next ⟨id, kind⟩).Alike k (next' ⟨k.object id, kind⟩)) :
    (newObject kind next).Alike k (newObject kind next') := by
  intro machine machine' s t hs
  have hnew : k.States { s with objects := s.objects + 1 } { t with objects := t.objects + 1 } := by
    refine { hs with objects := fun n => ?_ }
    rw [Nat.add_assoc, hs.objects, Nat.add_assoc]
  have hid : k.object s.objects = t.objects := hs.objects 0
  obtain ⟨outcome, outcome', hp, hp', halike⟩ := h s.objects machine machine' _ _ hnew
  rw [hid] at hp'
  exact ⟨outcome, outcome', hp, hp', halike⟩

end Routine

open Routine in
/-- **The demonstration words lead from alike to alike.** -/
theorem HostWord.alike_of_demonstration {k : Likeness} {word : HostWord}
    (hw : word ∈ demonstration) : (hostRoutine word).Alike k (hostRoutine word) := by
  simp only [demonstration, List.mem_cons, List.not_mem_nil, or_false] at hw
  rcases hw with rfl | rfl | rfl | rfl
  · refine alike_popValue fun value => alike_inspect fun s t hs => ?_
    rw [hs.display]
    exact alike_writeLast _
  · refine alike_inspect fun s t hs => ?_
    have hquoted : t.stack.reverse.map t.quoted = s.stack.reverse.map s.quoted := by
      rw [hs.stack, ← List.map_reverse, List.map_map]
      exact congrArg (s.stack.reverse.map ·) (funext hs.quoted)
    rw [hquoted, hs.stack, List.length_map]
    exact alike_writeLast _
  · refine alike_inspect fun s t hs => ?_
    rw [hs.scope, hs.forest.listing]
    exact alike_writeLast _
  · refine alike_popValue fun value => ?_
    cases value with
    | text kind => exact alike_newObject kind fun id => alike_pushLast (.host ⟨id, kind⟩)
    | _ => exact alike_failWith _

end StackScript
