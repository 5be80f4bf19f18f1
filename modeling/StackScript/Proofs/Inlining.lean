import StackScript.Proofs.FaultReports
import StackScript.Proofs.Lockstep
import StackScript.Proofs.ScopeIsolation

/-!
# A word means its body

Calling a scripted word and running its body in place come to the same, but for the call itself: while the
word runs, one more call is in progress, and a fault reports it.

* `runCode_of_execute` — a call instruction runs the body inside the call, and closes it.
* `Likeness.inlined` — with the call and without it; `Likeness.inlined_states` — nothing else differs.
* `runCode_moveTo` — compiled code does not depend on the place at which it is started.
* `runCode_scope` — code without packages leaves the current scope as it was.
* `Fault.InsideCall` — the faults of the called and of the inlined body.

Principal result: `factoring_keeps_meaning`.
-/

set_option autoImplicit false

namespace StackScript

variable {ν : Type}

/-! ## A call instruction by itself -/

section Calls

variable {host : Host ν} {state : State ν} {location : Option Location} {name : String} {word : Word ν}
  {outcome : Outcome ν}

/-- The answers of a run are the stops of the machine. -/
theorem exec_of_runCode {code : Code}
    (h : Answers (fun fuel => runCode host fuel code state) outcome) :
    ∃ halt, Answers (fun fuel => exec host fuel (Config.start code state)) halt ∧
      outcome = halt.unwind state.calls.depth := by
  obtain ⟨heads, last, halt, hpath, hstop, rfl⟩ := runCode_answers_iff.1 h
  exact ⟨halt, hpath.answers_iff.2 hstop.answers, rfl⟩

/-- The calls are opened as long as there is room for them. -/
theorem room_of_runCode (hl : state.forest.lookup state.scope name = some word)
    (h : Answers (fun fuel => runCode host fuel [.execute location name] state) outcome)
    (hkind : outcome.fault?.map Fault.kind ≠ some .callDepth) :
    state.calls.depth < state.callLimit := by
  refine Nat.lt_of_not_le fun hd => hkind ?_
  obtain ⟨halt, hexec, rfl⟩ := exec_of_runCode h
  have hfound : (state.moveTo location).forest.lookup (state.moveTo location).scope name =
      some word := by
    rw [State.moveTo_forest, State.moveTo_scope]
    exact hl
  have hfull : (state.moveTo location).callLimit ≤ (state.moveTo location).calls.depth := by
    rw [State.moveTo_calls, State.moveTo_callLimit]
    exact hd
  have hstop := (@Config.Ending.refused _ host (Config.start [.execute location name] state)
    location name _ rfl (State.beginCall_of_le hfound hfull)).stops
  rw [hexec.unique hstop.answers]
  rfl

/-- A call instruction by itself does what the call by name does. -/
theorem runCode_of_callWord
    (h : Answers (fun fuel => callWord host fuel (state.moveTo location).place name
      (state.moveTo location)) outcome) :
    Answers (fun fuel => runCode host fuel [.execute location name] state) outcome := by
  obtain ⟨enough, ha⟩ := h
  have hcall := ha enough (Nat.le_refl enough)
  let caller := Config.start [.execute location name] state
  cases outcome with
  | done after =>
    have hrest : exec host 1 (caller.advance after) = some (.finished after) := rfl
    have hexec : exec host (enough + 1) caller = some (.finished after) :=
      exec_of_call_done rfl hcall hrest
    have hrun : runCode host (enough + 2) [.execute location name] state = some (.done after) := by
      rw [runCode, hexec]
      rfl
    exact runCode_answers hrun
  | failed fault after =>
    obtain ⟨stop, hexec, hunwind⟩ := @exec_of_call_failed _ host caller location name rfl rfl _ _ _ hcall
    have hbalanced : caller.state.Balanced after :=
      (State.Balanced.moveTo state location).trans (callWord_balanced hcall)
    have hrun : runCode host (enough + 1) [.execute location name] state =
        some (.failed fault after) := by
      rw [runCode, hexec]
      exact congrArg some (hunwind.trans (Halt.unwind_balanced rfl hbalanced))
    exact runCode_answers hrun

/-- **A call instruction runs the body inside the call**, and then closes it and puts back the scope. -/
theorem runCode_of_execute {body : Code} (hl : state.forest.lookup state.scope name = some word)
    (hb : word.body = .scripted body) (hd : state.calls.depth < state.callLimit)
    (h : Answers (fun fuel => runCode host fuel [.execute location name] state) outcome) :
    ∃ ran, Answers (fun fuel => runCode host fuel body
        ((state.moveTo location).openCall ⟨name, (state.moveTo location).place⟩)) ran ∧
      outcome = ran.mapState (State.returnTo state.scope) := by
  let caller := Config.start [.execute location name] state
  have hopens : caller.Opens location name word := ⟨rfl, hl, hd⟩
  -- the run of the call begins with that of the body, so the body comes to an end
  have hends : ∃ ran, Answers (fun fuel => runCode host fuel body (caller.opened location name)) ran := by
    obtain ⟨halt, hexec, -⟩ := exec_of_runCode h
    have hpassage : caller.Passage host (caller.enter body (caller.opened location name)) :=
      .enter hopens hb
    obtain ⟨enough, ha⟩ := hpassage.goes.answers_iff.1 hexec
    have hrun := ha enough (Nat.le_refl enough)
    rw [Config.enter_eq_under] at hrun
    have hstops : ∃ stop, exec host enough (Config.start body (caller.opened location name)) =
        some stop := by
      rcases exec_under_cases enough _ hrun with ⟨fault, final, he, -⟩ | ⟨after, rest, he, -⟩
      · exact ⟨_, he⟩
      · exact ⟨_, he⟩
    obtain ⟨stop, he⟩ := hstops
    have hran : runCode host (enough + 1) body (caller.opened location name) =
        some (stop.unwind (caller.opened location name).calls.depth) := by
      rw [runCode, he]
      rfl
    exact ⟨_, runCode_answers hran⟩
  obtain ⟨ran, hran⟩ := hends
  have hcall : Answers (fun fuel => callWord host fuel (state.moveTo location).place name
      (state.moveTo location)) (ran.mapState (State.returnTo state.scope)) := by
    refine (hran.map (Outcome.mapState (State.returnTo state.scope))).succ fun fuel hf => ?_
    have hbegin : (state.moveTo location).beginCall (state.moveTo location).place name =
      .ok (word, caller.opened location name) := hopens.beginCall
    rw [callWord, hbegin]
    simp only [hb, State.moveTo_scope]
    exact hf
  exact ⟨ran, hran, h.unique (runCode_of_callWord hcall)⟩

end Calls

/-! ## With the call and without it -/

namespace Likeness

/-- The image differs in one call only, which is not in progress in it: the one right above the calls
`outer`. -/
def inlined (item : CallItem) (outer : List CallItem) : Likeness where
  toRenaming := .identity
  keepsPlaces := true
  written := ""
  imageWritten := ""
  calls := item :: outer
  imageCalls := outer
  fewer := Nat.le_succ _

variable {item : CallItem} {outer : List CallItem}

theorem inlined_value : (inlined item outer).value = id := value_eq_id rfl

theorem inlined_code : (inlined item outer).code = id := by
  funext code
  exact Code.relabel_eq_self (fun location => rfl) code fun _ constant _ =>
    Renaming.value_identity constant

theorem inlined_word : @(inlined item outer).word HostWord = id := by
  funext word
  obtain ⟨location, name, description, body⟩ := word
  unfold Likeness.word
  rw [inlined_code]
  cases body <;> rfl

theorem inlined_forests {forest image : Forest HostWord} :
    (inlined item outer).Forests forest image ↔ image = forest := by
  rw [forests_iff rfl, inlined_word]
  simp only [List.map_id]
  constructor
  · rintro ⟨hsize, hancestors, hwords⟩
    exact Forest.ext_of hsize hancestors hwords
  · rintro rfl
    exact ⟨rfl, fun _ => rfl, fun _ => rfl⟩

theorem inlined_callStacks {calls image : CallStack} :
    (inlined item outer).CallStacks calls image ↔
      ∃ inner, calls = .ofItems (inner ++ item :: outer) ∧ image = .ofItems (inner ++ outer) := by
  have hitems : ∀ items : List CallItem, items.map (inlined item outer).item = items :=
    fun items => List.map_id items
  unfold CallStacks
  constructor
  · rintro ⟨inner, hcalls, himage⟩
    rw [hitems] at himage
    exact ⟨inner, CallStack.ext hcalls, CallStack.ext himage⟩
  · rintro ⟨inner, rfl, rfl⟩
    refine ⟨inner, rfl, ?_⟩
    rw [hitems]
    rfl

/-- **Nothing but the calls differs.** -/
theorem inlined_states {state image : State HostWord}
    (h : (inlined item outer).States state image) : image = { state with calls := image.calls } := by
  have hobjects : state.objects = image.objects := h.objects 0
  obtain ⟨stack, forest, objects, sink, callLimit, scope, location, calls⟩ := image
  obtain rfl : stack = state.stack := by
    have hstack := h.stack
    rw [inlined_value, List.map_id] at hstack
    exact hstack
  obtain rfl : forest = state.forest := inlined_forests.1 h.forest
  obtain rfl : sink = state.sink := (sinks_iff_eq rfl rfl).1 h.sink
  obtain rfl : callLimit = state.callLimit := h.callLimit
  obtain rfl : scope = state.scope := h.scope
  obtain rfl : location = state.location := h.location
  obtain rfl : state.objects = objects := hobjects
  rfl

/-- A call that has just been opened. -/
theorem inlined_openCall {state : State HostWord} (hwords : state.forest.EveryWord Word.Settles)
    (item : CallItem) : (inlined item state.calls.items).States (state.openCall item) state where
  stack := by
    rw [inlined_value, List.map_id]
    rfl
  forest := inlined_forests.2 rfl
  objects := fun n => rfl
  sink := (sinks_iff_eq rfl rfl).2 rfl
  callLimit := rfl
  scope := rfl
  location := rfl
  calls := inlined_callStacks.2 ⟨[], CallStack.ext rfl, CallStack.ext rfl⟩
  settles := hwords

end Likeness

/-! ## Where the body is started -/

/-- The state before an instruction counts only as it is once the place of that has been noted. -/
theorem Config.step_congr {config : Config ν} {instruction : Instruction} {state : State ν}
    (hi : config.code[config.position]? = some instruction)
    (hm : state.moveTo instruction.location = config.state.moveTo instruction.location) :
    { config with state := state }.step = config.step := by
  have hi' : { config with state := state }.code[{ config with state := state }.position]? =
      some instruction := hi
  rcases instruction.execute_or_move (config.state.moveTo instruction.location) with
    ⟨location, name, rfl⟩ | ⟨move, hmove⟩
  · rw [step_of_execute hi, step_of_execute hi']
    simp only [Instruction.location] at hm
    show call { config with state := state } name (state.moveTo location) = _
    rw [hm]
    unfold call
    split
    · rfl
    · split <;> rfl
  · have hmove' : instruction.move? (state.moveTo instruction.location) = some move := by
      rw [hm]
      exact hmove
    rw [step_of_move hi hmove, step_of_move hi' hmove']
    cases move <;> rfl

/-- **Code that begins with a place does not depend on the place it is started at.** -/
theorem runCode_moveTo {host : Host ν} {first : Instruction} {rest : Code} {place : Location}
    (hplace : first.location = some place) (fuel : Nat) (state : State ν)
    (location : Option Location) :
    runCode host fuel (first :: rest) (state.moveTo location) =
      runCode host fuel (first :: rest) state := by
  have hm : (state.moveTo location).moveTo first.location = state.moveTo first.location := by
    rw [hplace]
    cases location <;> rfl
  have hstep : (Config.start (first :: rest) (state.moveTo location)).step =
      (Config.start (first :: rest) state).step :=
    @Config.step_congr _ (Config.start (first :: rest) state) first _ rfl hm
  cases fuel with
  | zero => rfl
  | succ fuel =>
    rw [runCode, runCode, State.moveTo_calls]
    cases fuel with
    | zero => rfl
    | succ fuel => rw [exec, exec, hstep]

/-- **Compiled code comes to the same end wherever it is started**, and empty code leaves the place
alone. -/
theorem Compiles.runCode_unmoved {host : Host ν} {tokens : List Token} {code : Code} {state : State ν}
    {location : Option Location} {moved : Outcome ν} (hc : Compiles tokens code)
    (h : Answers (fun fuel => runCode host fuel code (state.moveTo location)) moved) :
    ∃ outcome, Answers (fun fuel => runCode host fuel code state) outcome ∧
      outcome.fault? = moved.fault? ∧
      outcome.state = { moved.state with location := outcome.state.location } := by
  cases code with
  | nil =>
    have hmoved : runCode host 2 [] (state.moveTo location) = some (.done (state.moveTo location)) := rfl
    have hrun : runCode host 2 [] state = some (.done state) := rfl
    obtain rfl := h.unique (runCode_answers hmoved)
    refine ⟨_, runCode_answers hrun, rfl, ?_⟩
    cases location <;> rfl
  | cons first rest =>
    obtain ⟨token, -, hplace, -⟩ := hc.spelled (.here List.mem_cons_self)
    simp only [runCode_moveTo hplace] at h
    exact ⟨moved, h, rfl, rfl⟩

/-! ## The scope after it -/

/-- The instruction neither opens nor closes a package. -/
def Instruction.KeepsScope (instruction : Instruction) : Prop :=
  ∀ location, instruction ≠ .primitive location .package ∧ instruction ≠ .primitive location .endPackage

theorem Instruction.KeepsScope.cursorAfter {instruction : Instruction} (h : instruction.KeepsScope)
    (forest : Forest ν) (cursor : ScopeId) :
    instruction.cursorAfter forest cursor = some cursor := by
  cases instruction with
  | primitive location operation =>
    obtain ⟨hpackage, hend⟩ := h location
    cases operation with
    | package => exact absurd rfl hpackage
    | endPackage => exact absurd rfl hend
    | _ => rfl
  | _ => rfl

/-- A body of such instructions never moves its cursor. -/
theorem replay_of_keepsScope {code : Code} (h : ∀ instruction ∈ code, instruction.KeepsScope)
    (level : Nat) (heads : List (Config ν)) (cursor : ScopeId) :
    replay code.toArray level heads cursor = some cursor := by
  have hhead : ∀ head : Config ν, head.cursorAfter code.toArray level cursor = some cursor := by
    intro head
    unfold Config.cursorAfter
    split
    · split
      · rename_i instruction hi
        rw [List.getElem?_toArray] at hi
        exact (h instruction (List.mem_of_getElem? hi)).cursorAfter _ _
      · rfl
    · rfl
  unfold replay
  induction heads with
  | nil => rfl
  | cons head heads ih =>
    rw [List.foldlM_cons, hhead]
    exact ih

/-- **Code without packages leaves the current scope as it was**, also when it fails. -/
theorem runCode_scope {code : Code} {state : State HostWord} {outcome : Outcome HostWord}
    (hcode : ∀ instruction ∈ code, instruction.KeepsScope)
    (hwords : state.forest.EveryWord Word.Settles)
    (h : Answers (fun fuel => runCode hostRoutine fuel code state) outcome) :
    outcome.state.scope = state.scope := by
  obtain ⟨heads, last, halt, hpath, hstop, rfl⟩ := runCode_answers_iff.1 h
  obtain ⟨cursor, hreplay, hbody⟩ := hpath.inBody hwords fun head _ => Nat.zero_le _
  have hkept : replay code.toArray 0 heads state.scope = some state.scope :=
    replay_of_keepsScope hcode 0 heads state.scope
  obtain rfl : state.scope = cursor := Option.some.inj (hkept.symm.trans hreplay)
  exact hbody.unwind hstop.ending (hpath.settles hwords) _

/-! ## Called and inlined -/

/-- The fault of a called body and that of the same body in place.  They are the same, but for the item of
the call, which is missing in the second; a fault of writing knows no calls. -/
structure Fault.InsideCall (item : CallItem) (outer : List CallItem) (called inline : Fault) : Prop where
  cause : inline.cause = called.cause
  location : inline.location = called.location
  calls : (called.calls = none ∧ inline.calls = none) ∨
    ∃ inner, called.calls = some (.ofItems (inner ++ item :: outer)) ∧
      inline.calls = some (.ofItems (inner ++ outer))

theorem Likeness.inlined_faults {item : CallItem} {outer : List CallItem} {fault image : Fault}
    (h : (inlined item outer).Faults fault image) : fault.InsideCall item outer image := by
  refine ⟨h.cause, h.location, ?_⟩
  have hcalls := h.calls
  generalize fault.calls = known at hcalls
  generalize image.calls = known' at hcalls
  cases hcalls with
  | none => exact Or.inl ⟨rfl, rfl⟩
  | some hcalls =>
    obtain ⟨inner, rfl, rfl⟩ := inlined_callStacks.1 hcalls
    exact Or.inr ⟨inner, rfl, rfl⟩

/-- A body inside a call and the same body without it, from the same place. -/
theorem runCode_inlined {state : State HostWord} {item : CallItem} {body : Code}
    {ran : Outcome HostWord} (hwords : state.forest.EveryWord Word.Settles)
    (hran : Answers (fun fuel => runCode hostRoutine fuel body (state.openCall item)) ran)
    (hkind : ran.fault?.map Fault.kind ≠ some .callDepth) :
    ∃ inline, Answers (fun fuel => runCode hostRoutine fuel body state) inline ∧
      inline.state = { ran.state with calls := state.calls } ∧
      Option.Rel (Fault.InsideCall item state.calls.items) ran.fault? inline.fault? := by
  obtain ⟨enough, ha⟩ := hran
  have hcalled := ha enough (Nat.le_refl enough)
  rcases Likeness.runCode_alike enough body (Likeness.inlined_openCall hwords item) with
    ⟨fault, final, hfailed, hwants⟩ | halike
  · rw [show runCode hostRoutine enough body (state.openCall item) = some ran from hcalled] at hfailed
    cases hfailed
    exact absurd (congrArg some hwants.1) hkind
  · rw [show runCode hostRoutine enough body (state.openCall item) = some ran from hcalled,
      Likeness.inlined_code, id_eq] at halike
    cases hrun : runCode hostRoutine enough body state with
    | none =>
      rw [hrun] at halike
      cases halike
    | some inline =>
      have hcalls := (runCode_balanced hrun).calls
      rw [hrun] at halike
      refine ⟨inline, runCode_answers hrun, ?_⟩
      rw [← hcalls]
      cases halike with
      | some halike =>
        cases halike with
        | done hs => exact ⟨Likeness.inlined_states hs, .none⟩
        | failed hf hs => exact ⟨Likeness.inlined_states hs, .some (hcalls ▸ Likeness.inlined_faults hf)⟩

/-- **Factoring code into a word keeps its meaning.**  Let a name mean a scripted word, the words of the
host being demonstration words, and let its body be compiled from tokens and neither open nor close a
package.  If calling the word comes to an end, and not by a call too many, then the body comes to an end
in place.  The stack, the scopes, the host objects, the output, the current scope and the calls in
progress are then the same, and so are the cause and the place of a fault; of the calls that it reports,
the one of the word is missing. -/
theorem factoring_keeps_meaning {state : State HostWord} {location : Option Location} {name : String}
    {word : Word HostWord} {tokens : List Token} {body : Code} {outcome : Outcome HostWord}
    (hwords : state.forest.EveryWord Word.Settles)
    (hlookup : state.forest.lookup state.scope name = some word)
    (hbody : word.body = .scripted body) (hcompile : compile tokens = .ok body)
    (hpackages : ∀ instruction ∈ body, instruction.KeepsScope)
    (hcall : Answers (fun fuel => runCode hostRoutine fuel [.execute location name] state) outcome)
    (hkind : outcome.fault?.map Fault.kind ≠ some .callDepth) :
    ∃ inline, Answers (fun fuel => runCode hostRoutine fuel body state) inline ∧
      inline.state = { outcome.state with location := inline.state.location } ∧
      Option.Rel (Fault.InsideCall ⟨name, (state.moveTo location).place⟩ state.calls.items)
        outcome.fault? inline.fault? := by
  have hroom := room_of_runCode hlookup hcall hkind
  obtain ⟨ran, hran, rfl⟩ := runCode_of_execute hlookup hbody hroom hcall
  have hfault : (ran.mapState (State.returnTo state.scope)).fault? = ran.fault? := by cases ran <;> rfl
  have hmoved : (state.moveTo location).forest.EveryWord Word.Settles := by
    rw [State.moveTo_forest]
    exact hwords
  rw [hfault] at hkind ⊢
  obtain ⟨moved, hinline, hstate, hfaults⟩ := runCode_inlined hmoved hran hkind
  obtain ⟨inline, hrun, hsame, hrest⟩ := (compiles_of_compile hcompile).runCode_unmoved hinline
  have hscope : inline.state.scope = state.scope := runCode_scope hpackages hwords hrun
  have hcalls : ran.state.calls.pop = state.calls := by
    obtain ⟨enough, ha⟩ := hran
    rw [(runCode_balanced (ha enough (Nat.le_refl enough))).calls, State.openCall_calls,
      CallStack.pop_push, State.moveTo_calls]
  refine ⟨inline, hrun, ?_, ?_⟩
  · rw [hstate, State.moveTo_calls] at hrest
    have hkept : ran.state.scope = state.scope := (congrArg State.scope hrest).symm.trans hscope
    refine hrest.trans ?_
    rw [Outcome.state_mapState, State.returnTo, hcalls, ← hkept]
  · rw [hsame, ← State.moveTo_calls state location]
    exact hfaults

/-- A word that writes the top value and then calls another one, which takes two values where there is one.
The fault reports both calls, or without the call of the word only the one inside it. -/
theorem factoring_keeps_meaning_nested :
    ∃ (state : State HostWord) (outcome inline : Outcome HostWord),
      state.stack = [.text "a"] ∧
      Answers (fun fuel => runCode hostRoutine fuel [.execute (some ⟨"main", 1, 1⟩) "f"] state)
        outcome ∧
      outcome.state.sink.written = "a\n" ∧
      outcome.fault?.map (fun fault => (fault.kind, fault.calls.map CallStack.items)) =
        some (.stackUnderflow, some [⟨"g", ⟨"lib", 1, 6⟩⟩, ⟨"f", ⟨"main", 1, 1⟩⟩]) ∧
      Answers (fun fuel => runCode hostRoutine fuel
        [.primitive (some ⟨"lib", 1, 1⟩) .spew, .execute (some ⟨"lib", 1, 6⟩) "g"] state) inline ∧
      inline.state = { outcome.state with location := inline.state.location } ∧
      Option.Rel (Fault.InsideCall ⟨"f", ⟨"main", 1, 1⟩⟩ []) outcome.fault? inline.fault? := by
  obtain ⟨body, hbody⟩ : ∃ body : Code, body =
      [.primitive (some ⟨"lib", 1, 1⟩) .spew, .execute (some ⟨"lib", 1, 6⟩) "g"] := ⟨_, rfl⟩
  have hcompile : compile [⟨⟨"lib", 1, 1⟩, "spew"⟩, ⟨⟨"lib", 1, 6⟩, "g"⟩] = .ok body := by
    have hcall : Compiles [⟨⟨"lib", 1, 6⟩, "g"⟩] [.execute (some ⟨"lib", 1, 6⟩) "g"] :=
      .call _ (by decide) rfl (by simp [Token.string?]) rfl
    rw [hbody]
    exact compile_of_compiles (@Compiles.plain ⟨⟨"lib", 1, 1⟩, "spew"⟩ _ _
      (show "spew" ≠ ":" ∧ "spew" ≠ "if" by decide) hcall)
  obtain ⟨state, hstate⟩ : ∃ state : State HostWord, state =
      (((State.initial HostWord.demonstration (.collecting "") 9).define 0
        ⟨⟨"lib", 2, 1⟩, "g", "", .scripted [.primitive none .drop, .primitive none .drop]⟩).define 0
        ⟨⟨"lib", 1, 1⟩, "f", "", .scripted body⟩).push (.text "a") := ⟨_, rfl⟩
  have hwords : state.forest.EveryWord Word.Settles := by
    have hhost := State.initial_everyWord (.collecting "") 9
      (show ∀ w ∈ HostWord.demonstration, Word.Settles w.word from
        fun w hm native hb => by cases hb; exact hm)
    subst hstate
    exact (hhost.define 0 fun native hb => by cases hb).define 0 fun native hb => by cases hb
  have hlookup : state.forest.lookup state.scope "f" =
      some ⟨⟨"lib", 1, 1⟩, "f", "", .scripted body⟩ := by
    subst hstate hbody
    rfl
  have hpackages : ∀ instruction ∈ body, instruction.KeepsScope := by
    subst hbody
    intro instruction hm location
    simp only [List.mem_cons, List.not_mem_nil, or_false] at hm
    rcases hm with rfl | rfl <;> simp
  have hcalled : (runCode hostRoutine 20 [.execute (some ⟨"main", 1, 1⟩) "f"] state).map
      (fun outcome => (outcome.state.sink.written,
        outcome.fault?.map fun fault => (fault.kind, fault.calls.map CallStack.items))) =
      some ("a\n", some (.stackUnderflow,
        some [⟨"g", ⟨"lib", 1, 6⟩⟩, ⟨"f", ⟨"main", 1, 1⟩⟩])) := by
    subst hstate hbody
    rfl
  obtain ⟨outcome, hrun, he⟩ := Option.map_eq_some_iff.1 hcalled
  obtain ⟨hwritten, hfault⟩ := Prod.mk.inj he
  have hkind : outcome.fault?.map Fault.kind ≠ some .callDepth := by
    cases hf : outcome.fault? with
    | none => simp
    | some fault =>
      rw [hf, Option.map_some, Option.some.injEq, Prod.mk.injEq] at hfault
      rw [Option.map_some, hfault.1]
      decide
  obtain ⟨inline, hinline, hsame, hfaults⟩ := factoring_keeps_meaning hwords hlookup rfl hcompile
    hpackages (runCode_answers hrun) hkind
  refine ⟨state, outcome, inline, by subst hstate; rfl, runCode_answers hrun, hwritten, hfault,
    hbody ▸ hinline, hsame, ?_⟩
  have houter : state.calls.items = [] := by subst hstate; rfl
  rw [houter] at hfaults
  exact hfaults

end StackScript
