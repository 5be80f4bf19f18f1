import StackScript.Proofs.Lockstep

/-!
# Places are for reports only

Where a token stands, and in which file, makes no difference to what is compiled from it and to what that
does.  It shows in the places that a fault reports, and nowhere else.

* `Code.unplaced`, `State.unplaced`, `Outcome.unplaced` — code, states and outcomes with all their places
  forgotten.
* `CompiledAlike`, `compile_alike` — rows of tokens with the same texts compile to the same code but for
  its places, or fail for the same cause.
* `runCode_unplaced` — forgetting the places commutes with running.

Principal result: `layout_immaterial`.
-/

set_option autoImplicit false

namespace StackScript

variable {ν : Type}

/-! ## Forgetting places -/

/-- The instruction without its place, and without those in the body that it defines. -/
def Instruction.unplaced : Instruction → Instruction := Instruction.relabel (fun _ => none) id

def Code.unplaced : Code → Code := Code.relabel (fun _ => none) id

/-- The word without the place of its definition and those in its body. -/
def Word.unplaced (word : Word ν) : Word ν :=
  { word with location := .unspecified, body := word.body.mapCode Code.unplaced }

/-- The scopes with every bound word unplaced. -/
def Forest.unplaced (forest : Forest ν) : Forest ν :=
  ⟨forest.scopes.map fun scope => { scope with words := scope.words.map Word.unplaced }⟩

/-- The calls without the places they were made at: the words called. -/
def CallStack.unplaced (calls : CallStack) : CallStack :=
  .ofItems (calls.items.map fun item => { item with location := .unspecified })

def State.unplaced (state : State ν) : State ν :=
  { state with forest := state.forest.unplaced, location := none, calls := state.calls.unplaced }

/-- The fault without any place: its cause, and the words called. -/
def Fault.unplaced (fault : Fault) : Fault :=
  { fault with location := none, calls := fault.calls.map CallStack.unplaced }

def Outcome.unplaced : Outcome ν → Outcome ν
  | .done state => .done state.unplaced
  | .failed fault state => .failed fault.unplaced state.unplaced

theorem Word.name_unplaced (word : Word ν) : word.unplaced.name = word.name := rfl

namespace Forest

variable (forest : Forest ν)

theorem size_unplaced : forest.unplaced.size = forest.size := by
  simp only [unplaced, size, Array.size_map]

theorem ancestors_unplaced (scope : ScopeId) :
    forest.unplaced.ancestors scope = forest.ancestors scope := by
  simp only [unplaced, ancestors, Array.getElem?_map]
  cases forest.scopes[scope]? <;> rfl

theorem words_unplaced (scope : ScopeId) :
    forest.unplaced.words scope = (forest.words scope).map Word.unplaced := by
  simp only [unplaced, words, Array.getElem?_map]
  cases forest.scopes[scope]? <;> rfl

theorem unplaced_define (scope : ScopeId) (word : Word ν) :
    (forest.define scope word).unplaced = forest.unplaced.define scope word.unplaced := by
  refine ext_of ?_ (fun other => ?_) fun other => ?_
  · rw [size_unplaced, size_define, size_define, size_unplaced]
  · rw [ancestors_unplaced, ancestors_define, ancestors_define, ancestors_unplaced]
  · rw [words_unplaced, words_define, words_define, words_unplaced, size_unplaced]
    split
    · exact map_insertWord Word.name_unplaced word (forest.words other)
    · rfl

end Forest

/-! ## Compiling -/

/-- Two rows of tokens compile to the same code but for its places, or fail for the same cause. -/
inductive CompiledAlike : Except Fault Code → Except Fault Code → Prop where
  | ok {code other : Code} (h : code.unplaced = other.unplaced) : CompiledAlike (.ok code) (.ok other)
  | error {fault other : Fault} (h : fault.cause = other.cause) :
      CompiledAlike (.error fault) (.error other)

theorem Code.unplaced_eq_map (code : Code) : code.unplaced = code.map Instruction.unplaced :=
  Code.relabel_eq_map code

theorem Code.unplaced_append (code other : Code) :
    Code.unplaced (code ++ other) = code.unplaced ++ other.unplaced := by
  simp only [Code.unplaced_eq_map, List.map_append]

theorem Code.length_eq_of_unplaced {code other : Code} (h : code.unplaced = other.unplaced) :
    code.length = other.length := by
  rw [Code.unplaced_eq_map, Code.unplaced_eq_map] at h
  simpa using congrArg List.length h

/-- Without its place, the instruction of a token depends on the text alone. -/
theorem Token.instruction_unplaced {token other : Token} (h : token.text = other.text) :
    token.instruction.unplaced = other.instruction.unplaced := by
  unfold Token.instruction Token.string?
  rw [h]
  split
  · rfl
  · split
    · rfl
    · split <;> rfl

theorem conditional_unplaced {l l' m m' : Location} {whenTrue whenFalse other other' : Code}
    (htrue : whenTrue.unplaced = other.unplaced) (hfalse : whenFalse.unplaced = other'.unplaced) :
    (conditional l m whenTrue whenFalse).unplaced = (conditional l' m' other other').unplaced := by
  have hlength := Code.length_eq_of_unplaced htrue
  have hlength' := Code.length_eq_of_unplaced hfalse
  rw [Code.unplaced_eq_map, Code.unplaced_eq_map] at htrue hfalse ⊢
  simp only [conditional, List.map_append, List.map_cons, htrue, hfalse, hlength, hlength']
  rfl

/-- The tokens have the same texts, one by one. -/
def SameTexts (tokens other : List Token) : Prop := tokens.map Token.text = other.map Token.text

/-- Rows with the same texts are cut at the same token, or not at all. -/
theorem SameTexts.splitAtText {tokens other : List Token} (h : SameTexts tokens other)
    (text : String) :
    (splitAtText text tokens = none ∧ splitAtText text other = none) ∨
    ∃ before found after before' found' after',
      splitAtText text tokens = some (before, found, after) ∧
      splitAtText text other = some (before', found', after') ∧
      SameTexts before before' ∧ SameTexts after after' := by
  induction tokens generalizing other with
  | nil =>
    obtain rfl : other = [] := List.map_eq_nil_iff.1 h.symm
    exact Or.inl ⟨rfl, rfl⟩
  | cons token rest ih =>
    obtain ⟨token', rest', rfl, htext, hrest⟩ := List.map_eq_cons_iff.1 h.symm
    by_cases hfound : token.text = text
    · refine Or.inr ⟨[], token, rest, [], token', rest', ?_, ?_, rfl, hrest.symm⟩
      · rw [StackScript.splitAtText, if_pos hfound]
      · rw [StackScript.splitAtText, if_pos (htext.trans hfound)]
    · have hfound' : token'.text ≠ text := htext ▸ hfound
      rw [StackScript.splitAtText, StackScript.splitAtText, if_neg hfound, if_neg hfound']
      rcases ih hrest.symm with
        ⟨hs, hs'⟩ | ⟨before, found, after, before', found', after', hs, hs', hbefore, hafter⟩
      · rw [hs, hs']
        exact Or.inl ⟨rfl, rfl⟩
      · rw [hs, hs']
        refine Or.inr ⟨_, _, _, _, _, _, rfl, rfl, ?_, hafter⟩
        show List.map _ _ = List.map _ _
        rw [List.map_cons, List.map_cons, htext, hbefore]

namespace CompiledAlike

theorem bind {result result' : Except Fault Code} {next next' : Code → Except Fault Code}
    (h : CompiledAlike result result')
    (hnext : ∀ code code', code.unplaced = code'.unplaced → CompiledAlike (next code) (next' code')) :
    CompiledAlike (result.bind next) (result'.bind next') := by
  cases h with
  | ok h => exact hnext _ _ h
  | error h => exact .error h

theorem map {result result' : Except Fault Code} {change change' : Code → Code}
    (h : CompiledAlike result result')
    (hchange : ∀ code code', code.unplaced = code'.unplaced →
      (change code).unplaced = (change' code').unplaced) :
    CompiledAlike (result.map change) (result'.map change') := by
  cases h with
  | ok h => exact .ok (hchange _ _ h)
  | error h => exact .error h

end CompiledAlike

/-- All shorter rows with the same texts compile alike. -/
def AlikeBelow (n : Nat) : Prop :=
  ∀ tokens other : List Token, tokens.length < n → SameTexts tokens other →
    CompiledAlike (compile tokens) (compile other)

theorem AlikeBelow.definition {colon colon' name name' : Token} {rest rest' : List Token}
    (h : AlikeBelow rest.length) (hcolon : colon.text = ":") (hcolon' : colon'.text = ":")
    (hname : name'.text = name.text) (hrest : SameTexts rest rest') :
    CompiledAlike (compile (colon :: name :: rest)) (compile (colon' :: name' :: rest')) := by
  by_cases hforbidden : name.text = ";" ∨ name.text = ":"
  · rw [compile_forbiddenName hcolon hforbidden,
      compile_forbiddenName hcolon' (hname.symm ▸ hforbidden), hname]
    exact .error rfl
  · rw [compile_colon hcolon hforbidden, compile_colon hcolon' (hname.symm ▸ hforbidden), hname]
    rcases hrest.splitAtText ";" with
      ⟨hs, hs'⟩ | ⟨body, semicolon, after, body', semicolon', after', hs, hs', hbody, hafter⟩
    · rw [hs, hs']
      exact .error rfl
    · obtain ⟨hbodylt, hafterlt⟩ := length_of_splitAtText hs
      rw [hs, hs']
      refine (h body body' hbodylt hbody).bind fun bodyCode bodyCode' hbodyCode => ?_
      refine (h after after' hafterlt hafter).map fun code code' hcode => ?_
      show Instruction.define none name.text bodyCode.unplaced :: code.unplaced =
        Instruction.define none name.text bodyCode'.unplaced :: code'.unplaced
      rw [hbodyCode, hcode]

theorem AlikeBelow.conditional {opening opening' : Token} {rest rest' : List Token}
    (h : AlikeBelow rest.length) (hopening : opening.text = "if") (hopening' : opening'.text = "if")
    (hrest : SameTexts rest rest') :
    CompiledAlike (compile (opening :: rest)) (compile (opening' :: rest')) := by
  rw [compile_if hopening, compile_if hopening']
  rcases hrest.splitAtText "then" with
    ⟨hs, hs'⟩ | ⟨whenTrue, middle, more, whenTrue', middle', more', hs, hs', htrue, hmore⟩
  · rw [hs, hs']
    exact .error rfl
  · obtain ⟨htruelt, hmorelt⟩ := length_of_splitAtText hs
    rw [hs, hs']
    refine (h whenTrue whenTrue' htruelt htrue).bind fun trueCode trueCode' htrueCode => ?_
    rcases hmore.splitAtText "else" with
      ⟨hs, hs'⟩ | ⟨whenFalse, closing, after, whenFalse', closing', after', hs, hs', hfalse, hafter⟩
    · rw [hs, hs']
      exact .error rfl
    · obtain ⟨hfalselt, hafterlt⟩ := length_of_splitAtText hs
      rw [hs, hs']
      refine (h whenFalse whenFalse' (by omega) hfalse).bind fun falseCode falseCode' hfalseCode => ?_
      refine (h after after' (by omega) hafter).map fun code code' hcode => ?_
      rw [Code.unplaced_append, Code.unplaced_append, hcode,
        conditional_unplaced htrueCode hfalseCode]

/-- **Rows with the same texts compile to the same code but for its places**, or fail for the same
cause. -/
theorem compile_alike {tokens other : List Token} (h : SameTexts tokens other) :
    CompiledAlike (compile tokens) (compile other) := by
  -- by the length of the row: what is cut off is shorter
  induction hn : tokens.length using Nat.strongRecOn generalizing tokens other with
  | ind n ih =>
    have hbelow : AlikeBelow n := fun part part' hlt hsame => ih _ hlt hsame rfl
    subst hn
    cases tokens with
    | nil =>
      obtain rfl : other = [] := List.map_eq_nil_iff.1 h.symm
      rw [compile]
      exact .ok rfl
    | cons token rest =>
      obtain ⟨token', rest', rfl, htext, hrest⟩ := List.map_eq_cons_iff.1 h.symm
      have hshorter : AlikeBelow rest.length :=
        fun part part' hlt => hbelow part part' (Nat.lt_succ_of_lt hlt)
      by_cases hcolon : token.text = ":"
      · cases rest with
        | nil =>
          obtain rfl : rest' = [] := List.map_eq_nil_iff.1 hrest
          rw [compile_missingName hcolon, compile_missingName (htext.trans hcolon)]
          exact .error rfl
        | cons name rest =>
          obtain ⟨name', rest', rfl, hname, hrest⟩ := List.map_eq_cons_iff.1 hrest
          refine AlikeBelow.definition (fun part part' hlt => ?_) hcolon (htext.trans hcolon) hname
            hrest.symm
          exact hshorter part part' (Nat.lt_succ_of_lt hlt)
      · by_cases hif : token.text = "if"
        · exact hshorter.conditional hif (htext.trans hif) hrest.symm
        · have hplain : token.IsPlain := ⟨hcolon, hif⟩
          have hplain' : token'.IsPlain := ⟨htext ▸ hcolon, htext ▸ hif⟩
          rw [compile_plain hplain, compile_plain hplain']
          refine (hbelow rest rest' (Nat.lt_succ_self _) hrest.symm).map fun code code' hcode => ?_
          show token.instruction.unplaced :: code.unplaced =
            token'.instruction.unplaced :: code'.unplaced
          rw [hcode, Token.instruction_unplaced htext]

/-! ## Running -/

namespace Likeness

/-- The image differs in places only, which it forgets. -/
def placesForgotten : Likeness where
  toRenaming := .identity
  keepsPlaces := false
  written := ""
  imageWritten := ""
  calls := []
  imageCalls := []
  fewer := Nat.le_refl _

theorem placesForgotten_value : placesForgotten.value = id := value_eq_id rfl

theorem placesForgotten_code : placesForgotten.code = Code.unplaced := by
  unfold Likeness.code Code.unplaced
  rw [placesForgotten_value]
  rfl

theorem placesForgotten_word : @placesForgotten.word HostWord = Word.unplaced := by
  funext word
  unfold Likeness.word Word.unplaced
  rw [placesForgotten_code]
  rfl

theorem placesForgotten_callStacks {calls image : CallStack} :
    placesForgotten.CallStacks calls image ↔ image = calls.unplaced := by
  unfold CallStacks
  constructor
  · rintro ⟨inner, hcalls, himage⟩
    ext1
    simp only [placesForgotten, List.append_nil] at hcalls himage
    rw [himage, ← hcalls]
    rfl
  · rintro rfl
    refine ⟨calls.items, ?_, ?_⟩
    · exact (List.append_nil _).symm
    · exact (List.append_nil _).symm

theorem placesForgotten_forests {forest image : Forest HostWord} :
    placesForgotten.Forests forest image ↔ image = forest.unplaced := by
  rw [forests_iff rfl, placesForgotten_word]
  constructor
  · rintro ⟨hsize, hancestors, hwords⟩
    refine Forest.ext_of (hsize.trans forest.size_unplaced.symm) (fun scope => ?_) fun scope => ?_
    · rw [hancestors, forest.ancestors_unplaced]
    · rw [hwords, forest.words_unplaced]
  · rintro rfl
    exact ⟨forest.size_unplaced, forest.ancestors_unplaced, forest.words_unplaced⟩

/-- **The image is the state without its places.** -/
theorem placesForgotten_states {state image : State HostWord} :
    placesForgotten.States state image ↔
      image = state.unplaced ∧ state.forest.EveryWord Word.Settles := by
  have hvalues : ∀ values : List Value, values.map placesForgotten.value = values := fun values => by
    rw [placesForgotten_value, List.map_id]
  constructor
  · intro h
    refine ⟨?_, h.settles⟩
    have hobjects : state.objects = image.objects := h.objects 0
    obtain ⟨stack, forest, objects, sink, callLimit, scope, location, calls⟩ := image
    obtain rfl : stack = state.stack := h.stack.trans (hvalues _)
    obtain rfl : forest = state.forest.unplaced := placesForgotten_forests.1 h.forest
    obtain rfl : sink = state.sink := (sinks_iff_eq rfl rfl).1 h.sink
    obtain rfl : calls = state.calls.unplaced := placesForgotten_callStacks.1 h.calls
    obtain rfl : callLimit = state.callLimit := h.callLimit
    obtain rfl : scope = state.scope := h.scope
    obtain rfl : location = none := h.location
    obtain rfl : state.objects = objects := hobjects
    rfl
  · rintro ⟨rfl, hsettles⟩
    exact ⟨(hvalues _).symm, placesForgotten_forests.2 rfl, fun n => rfl, (sinks_iff_eq rfl rfl).2 rfl,
      rfl, rfl, rfl, placesForgotten_callStacks.2 rfl, hsettles⟩

theorem placesForgotten_faults {fault image : Fault} (h : placesForgotten.Faults fault image) :
    image = fault.unplaced := by
  obtain ⟨cause, location, calls⟩ := image
  obtain rfl : cause = fault.cause := h.cause
  obtain rfl : location = none := h.location
  have hcalls := h.calls
  unfold Fault.unplaced
  generalize fault.calls = known at hcalls
  cases hcalls with
  | none => rfl
  | some hcalls => rw [Option.map_some, placesForgotten_callStacks.1 hcalls]

theorem placesForgotten_outcomes {outcome image : Outcome HostWord}
    (h : placesForgotten.Outcomes outcome image) : image = outcome.unplaced := by
  cases h with
  | done h => exact congrArg Outcome.done (placesForgotten_states.1 h).1
  | failed hf h =>
    rw [placesForgotten_faults hf, (placesForgotten_states.1 h).1]
    rfl

end Likeness

/-- **Forgetting the places commutes with running.** -/
theorem runCode_unplaced (fuel : Nat) (code : Code) {state : State HostWord}
    (hwords : state.forest.EveryWord Word.Settles) :
    runCode hostRoutine fuel code.unplaced state.unplaced =
      (runCode hostRoutine fuel code state).map Outcome.unplaced := by
  rcases Likeness.runCode_alike fuel code (Likeness.placesForgotten_states.2 ⟨rfl, hwords⟩) with
    ⟨fault, final, -, hwants⟩ | halike
  · exact absurd hwants.2 (Nat.lt_irrefl 0)
  · rw [Likeness.placesForgotten_code] at halike
    generalize runCode hostRoutine fuel code state = ran at halike ⊢
    generalize runCode hostRoutine fuel code.unplaced state.unplaced = ran' at halike ⊢
    cases halike with
    | none => rfl
    | some halike => rw [Option.map_some, Likeness.placesForgotten_outcomes halike]

theorem Forest.EveryWord.settles_of_unplaced {forest other : Forest HostWord}
    (h : forest.EveryWord Word.Settles) (hsame : forest.unplaced = other.unplaced) :
    other.EveryWord Word.Settles := by
  intro scope word hm native hb
  have hm' : word.unplaced ∈ other.unplaced.words scope := by
    rw [other.words_unplaced]
    exact List.mem_map_of_mem hm
  rw [← hsame, forest.words_unplaced] at hm'
  obtain ⟨word', hword', he⟩ := List.mem_map.1 hm'
  refine h scope word' hword' native ?_
  have hbody : word'.body.mapCode Code.unplaced = word.body.mapCode Code.unplaced :=
    congrArg Word.body he
  rw [hb] at hbody
  cases hw : word'.body with
  | native other =>
    rw [hw] at hbody
    cases hbody
    rfl
  | scripted code =>
    rw [hw] at hbody
    cases hbody

/-- **Layout and path do not matter.**  Let two rows of tokens have the same texts, one by one, and stand
wherever they may.  If one can not be compiled, then neither can the other, for the same cause.  If one
can be compiled, then so can the other; and from states that differ in places only, over demonstration
words or none, the two come to outcomes that differ in places only, with the same fuel. -/
theorem layout_immaterial {tokens other : List Token} (htexts : SameTexts tokens other) :
    (∀ fault, compile tokens = .error fault →
      ∃ fault', compile other = .error fault' ∧ fault'.cause = fault.cause) ∧
    ∀ code, compile tokens = .ok code →
      ∃ code', compile other = .ok code' ∧
        ∀ (fuel : Nat) (state state' : State HostWord), state.forest.EveryWord Word.Settles →
          state.unplaced = state'.unplaced →
          (runCode hostRoutine fuel code state).map Outcome.unplaced =
            (runCode hostRoutine fuel code' state').map Outcome.unplaced := by
  have halike := compile_alike htexts
  refine ⟨fun fault hc => ?_, fun code hc => ?_⟩
  · rw [hc] at halike
    generalize compile other = result at halike ⊢
    cases halike with
    | error h => exact ⟨_, rfl, h.symm⟩
  · rw [hc] at halike
    generalize compile other = result at halike ⊢
    cases halike with
    | @ok _ code' hsame =>
      refine ⟨code', rfl, fun fuel state state' hwords hstates => ?_⟩
      have hforests : state.forest.unplaced = state'.forest.unplaced := congrArg State.forest hstates
      rw [← runCode_unplaced fuel code hwords,
        ← runCode_unplaced fuel code' (hwords.settles_of_unplaced hforests), hsame, hstates]

/-- A definition and a call of it, in two files and on different lines.  The word calls another one, which
is bound at different places too and fails for want of a value: so the faults are reported at different
places, and are the same without them. -/
theorem layout_immaterial_apart :
    ∃ (tokens other : List Token) (code code' : Code) (state state' : State HostWord),
      SameTexts tokens other ∧ compile tokens = .ok code ∧ compile other = .ok code' ∧
      state.forest.EveryWord Word.Settles ∧ state.unplaced = state'.unplaced ∧
      (runCode hostRoutine 20 code state).map (fun outcome => outcome.fault?.bind Fault.location) =
        some (some ⟨"lib", 1, 5⟩) ∧
      (runCode hostRoutine 20 code' state').map (fun outcome => outcome.fault?.bind Fault.location) =
        some (some ⟨"old/lib", 3, 5⟩) ∧
      (runCode hostRoutine 20 code state).map Outcome.unplaced =
        (runCode hostRoutine 20 code' state').map Outcome.unplaced := by
  let row (path : String) (line : Nat) : List Token :=
    [⟨⟨path, line, 1⟩, ":"⟩, ⟨⟨path, line, 3⟩, "f"⟩, ⟨⟨path, line + 1, line⟩, "g"⟩,
      ⟨⟨path, line + 1, 7⟩, ";"⟩, ⟨⟨path, line + 2, line⟩, "f"⟩]
  let code (path : String) (line : Nat) : Code :=
    [.define (some ⟨path, line, 1⟩) "f" [.execute (some ⟨path, line + 1, line⟩) "g"],
      .execute (some ⟨path, line + 2, line⟩) "f"]
  have hcompile : ∀ path line, compile (row path line) = .ok (code path line) := by
    intro path line
    have hcall : ∀ location, Compiles [⟨location, "g"⟩] [.execute (some location) "g"] :=
      fun location => .call _ (by decide) rfl (by simp [Token.string?]) rfl
    have hcall' : ∀ location, Compiles [⟨location, "f"⟩] [.execute (some location) "f"] :=
      fun location => .call _ (by decide) rfl (by simp [Token.string?]) rfl
    exact compile_of_compiles (@Compiles.definition ⟨⟨path, line, 1⟩, ":"⟩ ⟨⟨path, line, 3⟩, "f"⟩
      ⟨⟨path, line + 1, 7⟩, ";"⟩ _ _ _ _ rfl ⟨by simp, by simp⟩ rfl
      (by unfold Lacks; simp) (hcall ⟨path, line + 1, line⟩) (hcall' ⟨path, line + 2, line⟩))
  let state (path : String) (line : Nat) : State HostWord :=
    (State.initial [] (.collecting "") 9).define 0
      ⟨⟨path, line, 1⟩, "g", "", .scripted [.primitive (some ⟨path, line, 5⟩) .drop]⟩
  have hwords : (state "lib" 1).forest.EveryWord Word.Settles :=
    (State.initial_everyWord (.collecting "") 9 (by simp)).define 0 fun native hb => by cases hb
  have hstates : (state "lib" 1).unplaced = (state "old/lib" 3).unplaced := by
    simp only [state, State.define, State.unplaced, Forest.unplaced_define]
    rfl
  have hfault : (runCode hostRoutine 20 (code "main" 1) (state "lib" 1)).map
      (fun outcome => outcome.fault?.bind Fault.location) = some (some ⟨"lib", 1, 5⟩) := by
    unfold code state
    rfl
  have hfault' : (runCode hostRoutine 20 (code "old/main" 4) (state "old/lib" 3)).map
      (fun outcome => outcome.fault?.bind Fault.location) = some (some ⟨"old/lib", 3, 5⟩) := by
    unfold code state
    rfl
  have htexts : SameTexts (row "main" 1) (row "old/main" 4) := rfl
  obtain ⟨other, hother, hruns⟩ := (layout_immaterial htexts).2 _ (hcompile "main" 1)
  obtain rfl : code "old/main" 4 = other := Except.ok.inj ((hcompile "old/main" 4).symm.trans hother)
  exact ⟨row "main" 1, row "old/main" 4, _, _, state "lib" 1, state "old/lib" 3, htexts,
    hcompile "main" 1, hother, hwords, hstates, hfault, hfault', hruns 20 _ _ hwords hstates⟩

end StackScript
