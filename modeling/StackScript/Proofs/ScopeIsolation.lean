import StackScript.Proofs.Trace

/-!
# Scopes are a matter of each body

There is one current scope, and every body that runs moves it.  Still each body has a cursor of its
own: only the packages that the body itself opens and closes count for it, and whatever the words do
that it calls, it finds its cursor where it left it, also when one of them fails.

* `Instruction.cursorAfter` — where an instruction moves the cursor.
* `replay` — the cursor after the heads that belong to one body.
* `Config.InBody` — a body is being carried out with its cursor at some scope: it is at hand itself, or
  it has called a word.  `Config.InBody.passage` is the step lemma and `Path.inBody` the run lemma.
* `Config.Began`, `Path.began` — when the body at hand, or that of a suspended caller, was entered.

Principal result: `scopes_isolated`.
-/

set_option autoImplicit false

namespace StackScript

variable {ν : Type}

/-! ## The cursor of a body -/

/-- Where a primitive moves the cursor.  A new scope has the next number of the forest. -/
def Primitive.cursorAfter (forest : Forest ν) (cursor : ScopeId) : Primitive → Option ScopeId
  | .package => some forest.size
  | .endPackage => forest.parent? cursor
  | _ => some cursor

/-- Where an instruction moves the cursor. -/
def Instruction.cursorAfter (forest : Forest ν) (cursor : ScopeId) : Instruction → Option ScopeId
  | .primitive _ operation => operation.cursorAfter forest cursor
  | _ => some cursor

/-- Where a head moves the cursor of the body `code` with `level` callers: by the instruction of that
body, unless the head belongs to another body. -/
def Config.cursorAfter (code : Array Instruction) (level : Nat) (cursor : ScopeId)
    (head : Config ν) : Option ScopeId :=
  if head.callers.length = level then
    match code[head.position]? with
    | some instruction => instruction.cursorAfter head.state.forest cursor
    | none => some cursor
  else some cursor

/-- The cursor of the body `code` with `level` callers, after these heads. -/
def replay (code : Array Instruction) (level : Nat) (heads : List (Config ν)) (cursor : ScopeId) :
    Option ScopeId :=
  heads.foldlM (Config.cursorAfter code level) cursor

theorem replay_snoc (code : Array Instruction) (level : Nat) (heads : List (Config ν))
    (head : Config ν) (cursor : ScopeId) :
    replay code level (heads ++ [head]) cursor =
      (replay code level heads cursor).bind fun cursor => head.cursorAfter code level cursor := by
  simp [replay, List.foldlM_append]

theorem Config.cursorAfter_of_ne {code : Array Instruction} {level : Nat} {cursor : ScopeId}
    {head : Config ν} (h : head.callers.length ≠ level) :
    head.cursorAfter code level cursor = some cursor := by
  rw [cursorAfter, if_neg h]

/-- The number of a new scope leads to the scope that it was created in. -/
@[simp] theorem Forest.parent?_newChild (forest : Forest ν) (scope : ScopeId) :
    (forest.newChild scope).parent? forest.size = some scope := by
  simp [parent?, ancestors, newChild, size, chain]

/-! ## One instruction -/

theorem Primitive.effect_scope (operation : Primitive) (state : State ν)
    (hpackage : operation ≠ .package) (hend : operation ≠ .endPackage) :
    (operation.effect state).state.scope = state.scope := by
  rcases operation.effect_cases state with ⟨stack, sink, he⟩ | ⟨hp, -⟩ | ⟨parent, hp, -⟩
  · rw [he]
    rfl
  · exact absurd hp hpackage
  · exact absurd hp hend

theorem Primitive.cursorAfter_eq {operation : Primitive} {state after : State ν}
    (h : operation.effect state = .done after) :
    operation.cursorAfter state.forest state.scope = some after.scope := by
  by_cases hpackage : operation = .package
  · subst hpackage
    cases h
    rfl
  · by_cases hend : operation = .endPackage
    · subst hend
      simp only [effect] at h
      split at h
      · cases h
      · rename_i parent hp
        cases h
        exact hp
    · have hscope := operation.effect_scope state hpackage hend
      rw [h] at hscope
      have hcursor : operation.cursorAfter state.forest state.scope = some state.scope := by
        cases operation with
        | package => exact absurd rfl hpackage
        | endPackage => exact absurd rfl hend
        | _ => rfl
      rw [hcursor, ← hscope]
      rfl

/-- **Where an instruction goes on, its cursor is the current scope.** -/
theorem Instruction.cursorAfter_eq {state after : State ν} {instruction : Instruction}
    {offset : Nat} (h : instruction.move? state = some (.ahead offset after)) :
    instruction.cursorAfter state.forest state.scope = some after.scope := by
  cases instruction with
  | primitive location operation =>
    simp only [move?, Option.some.injEq] at h
    cases he : operation.effect state with
    | done final =>
      rw [he] at h
      cases h
      exact Primitive.cursorAfter_eq he
    | failed fault final =>
      rw [he] at h
      cases h
  | push location value => cases h; rfl
  | define location name body => cases h; rfl
  | execute location name => cases h
  | jumpIfFalse location offset =>
    simp only [move?] at h
    split at h
    · cases h
    · cases h
      rfl
  | jump location offset => cases h; rfl

theorem Instruction.scope_of_fault {state after : State ν} {instruction : Instruction}
    {fault : Fault} (h : instruction.move? state = some (.fault fault after)) :
    after.scope = state.scope := by
  rcases fault_cases h with ⟨location, operation, -, he⟩ | ⟨-, -, rfl⟩
  · rcases operation.effect_cases state with ⟨stack, sink, hdata⟩ | ⟨-, hdone⟩ | ⟨parent, -, -, hdone⟩
    · rw [he] at hdata
      have hafter : after = state.withData stack sink := hdata
      rw [hafter]
      rfl
    · rw [he] at hdone
      cases hdone
    · rw [he] at hdone
      cases hdone
  · rfl

/-! ## A body, from head to head -/

namespace Config

/-- The body `code`, called by `callers`, is being carried out with its cursor at `cursor`: it is
at hand itself, or it has called a word and is suspended. -/
inductive InBody (code : Array Instruction) (callers : List Frame) (cursor : ScopeId)
    (config : Config ν) : Prop where
  | own (hcode : config.code = code) (hcallers : config.callers = callers)
      (hscope : config.state.scope = cursor)
  | called (inner : List Frame) (frame : Frame) (hcallers : config.callers = inner ++ frame :: callers)
      (hcode : frame.code = code) (hscope : frame.scope = cursor)

variable {code : Array Instruction} {callers : List Frame} {cursor : ScopeId}

theorem inBody_self (config : Config ν) :
    config.InBody config.code config.callers config.state.scope := .own rfl rfl rfl

theorem length_ne_of_called {config : Config ν} {inner : List Frame} {frame : Frame}
    (h : config.callers = inner ++ frame :: callers) : config.callers.length ≠ callers.length := by
  rw [h, List.length_append, List.length_cons]
  omega

/-- A body that is at hand has its cursor at the current scope. -/
theorem InBody.eq_of_callers {config : Config ν} (h : config.InBody code callers cursor)
    (hc : config.callers = callers) : config.code = code ∧ config.state.scope = cursor := by
  cases h with
  | own hcode _ hscope => exact ⟨hcode, hscope⟩
  | called inner frame hcallers _ _ => exact absurd (by rw [hc]) (length_ne_of_called hcallers)

/-- A head of the body itself moves the cursor by its instruction. -/
theorem cursorAfter_of_own {config : Config ν} {instruction : Instruction}
    (hcode : config.code = code) (hcallers : config.callers = callers)
    (hi : config.code[config.position]? = some instruction) :
    config.cursorAfter code callers.length cursor =
      instruction.cursorAfter config.state.forest cursor := by
  subst hcode
  rw [cursorAfter, if_pos (by rw [hcallers]), hi]

/-- **From head to head, only the instructions of the body itself move its cursor**, as long as the
body has not ended. -/
theorem InBody.passage {config next : Config HostWord} (h : config.InBody code callers cursor)
    (hp : config.Passage hostRoutine next) (hwords : config.state.forest.EveryWord Word.Settles)
    (hstays : callers.length ≤ next.callers.length) :
    ∃ moved, config.cursorAfter code callers.length cursor = some moved ∧
      next.InBody code callers moved := by
  cases h with
  | own hcode hcallers hscope =>
    cases hp with
    | @leave frame rest hi hc =>
      -- the body itself would end here
      rw [← hcallers, hc] at hstays
      exact absurd hstays (Nat.not_succ_le_self rest.length)
    | @move instruction offset state hi hm =>
      have hmoved := Instruction.cursorAfter_eq hm
      rw [State.moveTo_forest, State.moveTo_scope, hscope] at hmoved
      exact ⟨state.scope, (cursorAfter_of_own hcode hcallers hi).trans hmoved,
        .own hcode hcallers rfl⟩
    | @enter location name word body ho hb =>
      refine ⟨cursor, cursorAfter_of_own hcode hcallers ho.instruction,
        .called [] ⟨config.code, config.position + 1, (config.opened location name).scope⟩ ?_ hcode ?_⟩
      · rw [List.nil_append, ← hcallers]
        rfl
      · rw [← hscope]
        exact opened_scope location name
    | @native location name word native state ho hb hp =>
      have hdata := ho.dataOnly hb hp hwords
      refine ⟨cursor, cursorAfter_of_own hcode hcallers ho.instruction, .own hcode hcallers ?_⟩
      show state.scope = cursor
      rw [← hscope]
      exact hdata.scope.trans (opened_scope location name)
  | called inner frame hcallers hcode hscope =>
    refine ⟨cursor, cursorAfter_of_ne (length_ne_of_called hcallers), ?_⟩
    cases hp with
    | @leave last rest hi hc =>
      rw [hcallers] at hc
      cases inner with
      | nil =>
        cases hc
        exact .own hcode rfl hscope
      | cons first inner =>
        cases hc
        exact .called inner frame rfl hcode hscope
    | move hi hm => exact .called inner frame hcallers hcode hscope
    | @enter location name word body ho hb =>
      refine .called (⟨config.code, config.position + 1, (config.opened location name).scope⟩ :: inner)
        frame ?_ hcode hscope
      rw [List.cons_append, ← hcallers]
      rfl
    | native ho hb hp => exact .called inner frame hcallers hcode hscope

/-- **Wherever a run stops, the scope of its own code is put back.** -/
theorem InBody.unwind {config : Config HostWord} {halt : Halt HostWord}
    (h : config.InBody code [] cursor) (hs : config.Ending hostRoutine halt)
    (hwords : config.state.forest.EveryWord Word.Settles) (depth : Nat) :
    (halt.unwind depth).state.scope = cursor := by
  -- a fault leaves the current scope as it was, so the configuration it is reported in is in the body
  have hfailed : ∀ fault (final : State HostWord), final.scope = config.state.scope →
      ((Halt.failed fault { config with state := final }).unwind depth).state.scope = cursor := by
    intro fault final hfinal
    cases h with
    | own hcode hcallers hscope =>
      simp only [Halt.unwind, Outcome.state, hcallers, List.getLast?_nil]
      rw [hfinal, hscope]
    | called inner frame hcallers hcode hscope =>
      simp only [Halt.unwind, Outcome.state, hcallers, List.getLast?_append, List.getLast?_singleton,
        Option.some_or]
      exact hscope
  cases hs with
  | finished hi hc => exact (h.eq_of_callers hc).2
  | fault hi hm =>
    refine hfailed _ _ ?_
    rw [Instruction.scope_of_fault hm, State.moveTo_scope]
  | @refused location name fault hi hb => exact hfailed _ _ (State.moveTo_scope _ _)
  | @native location name word native fault state ho hb hp =>
    refine hfailed _ _ ?_
    rw [← opened_scope location name]
    exact (ho.dataOnly hb hp hwords).scope

end Config

/-- **Along a run, the cursor of a body is what its own instructions make it.** -/
theorem Path.inBody {entry config : Config HostWord} {heads : List (Config HostWord)}
    (h : Path hostRoutine entry heads config)
    (hwords : entry.state.forest.EveryWord Word.Settles)
    (hstays : ∀ head ∈ heads ++ [config], entry.callers.length ≤ head.callers.length) :
    ∃ cursor, replay entry.code entry.callers.length heads entry.state.scope = some cursor ∧
      config.InBody entry.code entry.callers cursor := by
  induction h with
  | nil => exact ⟨entry.state.scope, rfl, entry.inBody_self⟩
  | @snoc heads config next hpath hg ih =>
    obtain ⟨cursor, hreplay, hbody⟩ := ih fun head hm => hstays head (List.mem_append_left _ hm)
    obtain ⟨moved, hmoved, hnext⟩ := hbody.passage hg.passage (hpath.settles hwords)
      (hstays next (List.mem_append_right _ (List.mem_singleton_self next)))
    refine ⟨moved, ?_, hnext⟩
    rw [replay_snoc, hreplay]
    exact hmoved

/-! ## When a body was entered -/

/-- The heads `inside` lead from `entry`, the first instruction of a body with the given callers, to
`config`, and the body has not ended in between. -/
structure Config.Began (host : Host ν) (outer : List Frame) (entry : Config ν)
    (inside : List (Config ν)) (config : Config ν) : Prop where
  path : Path host entry inside config
  position : entry.position = 0
  callers : entry.callers = outer
  stays : ∀ head ∈ inside, outer.length ≤ head.callers.length

/-- **Every body that is being carried out was entered.**  That goes for the body at hand and for those
of the suspended callers. -/
theorem Path.began {host : Host ν} {code : Code} {state : State ν} {heads : List (Config ν)}
    {config : Config ν} (h : Path host (Config.start code state) heads config) :
    ∀ inner callers, config.callers = inner ++ callers →
      ∃ before entry inside, heads = before ++ inside ∧
        Path host (Config.start code state) before entry ∧
        Config.Began host callers entry inside config := by
  induction h with
  | nil =>
    intro inner callers hc
    obtain ⟨-, rfl⟩ := List.append_eq_nil_iff.1 hc.symm
    exact ⟨[], _, [], rfl, .nil, .nil, rfl, rfl, by simp⟩
  | @snoc heads config next hpath hg ih =>
    intro inner callers hc
    -- a body that was entered before goes on
    have hgoes : ∀ inner, config.callers = inner ++ callers →
        ∃ before entry inside, heads ++ [config] = before ++ inside ∧
          Path host (Config.start code state) before entry ∧
          Config.Began host callers entry inside next := by
      intro inner hc
      obtain ⟨before, entry, inside, rfl, hbefore, hbegan⟩ := ih inner callers hc
      refine ⟨before, entry, inside ++ [config], List.append_assoc .., hbefore, hbegan.path.snoc hg,
        hbegan.position, hbegan.callers, ?_⟩
      intro head hm
      rcases List.mem_append.1 hm with hm | hm
      · exact hbegan.stays head hm
      · rw [List.mem_singleton.1 hm, hc, List.length_append]
        omega
    cases hg.passage with
    | @leave frame rest _ hcallers =>
      refine hgoes (frame :: inner) ?_
      rw [hcallers, List.cons_append, ← hc]
      rfl
    | move _ _ => exact hgoes inner hc
    | native _ _ _ => exact hgoes inner hc
    | @enter location name word body ho hb =>
      cases inner with
      | nil =>
        refine ⟨heads ++ [config], _, [], (List.append_nil _).symm, hpath.snoc hg, .nil, rfl, hc, ?_⟩
        simp
      | cons first inner =>
        exact hgoes inner (List.cons.inj hc).2

/-- **The body at hand has its cursor at the current scope.** -/
theorem Path.cursor {code : Code} {state : State HostWord} {heads : List (Config HostWord)}
    {config : Config HostWord} (h : Path hostRoutine (Config.start code state) heads config)
    (hwords : state.forest.EveryWord Word.Settles) :
    ∃ before entry inside, heads = before ++ inside ∧
      Path hostRoutine (Config.start code state) before entry ∧
      Config.Began hostRoutine config.callers entry inside config ∧
      replay config.code config.callers.length inside entry.state.scope =
        some config.state.scope := by
  obtain ⟨before, entry, inside, rfl, hbefore, hbegan⟩ := h.began [] config.callers rfl
  have hstays : ∀ head ∈ inside ++ [config], entry.callers.length ≤ head.callers.length := by
    intro head hm
    rw [hbegan.callers]
    rcases List.mem_append.1 hm with hm | hm
    · exact hbegan.stays head hm
    · obtain rfl := List.mem_singleton.1 hm
      exact Nat.le_refl _
  obtain ⟨cursor, hreplay, hbody⟩ := hbegan.path.inBody (hbefore.settles hwords) hstays
  obtain ⟨hcode, hscope⟩ := hbody.eq_of_callers hbegan.callers.symm
  refine ⟨before, entry, inside, rfl, hbefore, hbegan, ?_⟩
  rw [hcode, hscope, ← hbegan.callers]
  exact hreplay

/-! ## Packages -/

namespace Config

/-- A package is a new scope inside the current one. -/
theorem goes_of_package {host : Host ν} {config : Config ν} {location : Option Location}
    (hi : config.code[config.position]? = some (.primitive location .package)) :
    ∃ next, config.Goes host next ∧ next.state.scope = config.state.forest.size ∧
      next.state.forest.parent? next.state.scope = some config.state.scope := by
  refine ⟨_, .step (step_of_move hi rfl), ?_, ?_⟩
  · show (config.state.moveTo location).forest.size = config.state.forest.size
    rw [State.moveTo_forest]
  · show ((config.state.moveTo location).forest.newChild (config.state.moveTo location).scope).parent?
      (config.state.moveTo location).forest.size = some config.state.scope
    rw [Forest.parent?_newChild, State.moveTo_scope]

/-- **A package can not be closed exactly if the current scope has no scope around it.** -/
theorem stops_of_endPackage_iff {host : Host ν} {config : Config ν} {location : Option Location}
    (hi : config.code[config.position]? = some (.primitive location .endPackage)) :
    (∃ fault final, config.Stops host (.failed fault final) ∧ fault.kind = .scope) ↔
      config.state.forest.parent? config.state.scope = none := by
  have hparent : (config.state.moveTo location).forest.parent? (config.state.moveTo location).scope =
      config.state.forest.parent? config.state.scope := by
    rw [State.moveTo_forest, State.moveTo_scope]
  cases hp : config.state.forest.parent? config.state.scope with
  | none =>
    refine ⟨fun _ => rfl, fun _ => ?_⟩
    have hm : (Instruction.primitive location .endPackage).move? (config.state.moveTo location) =
        some (.fault ((config.state.moveTo location).fault .noEnclosingScope)
          (config.state.moveTo location)) := by
      simp only [Instruction.move?, Primitive.effect, hparent, hp]
      rfl
    exact ⟨_, _, .step (step_of_move hi hm), rfl⟩
  | some parent =>
    refine ⟨?_, fun h => by cases h⟩
    rintro ⟨fault, final, hs, -⟩
    have hm : (Instruction.primitive location .endPackage).move? (config.state.moveTo location) =
        some (.ahead 1 { config.state.moveTo location with
          stack := .package (config.state.moveTo location).scope ::
            (config.state.moveTo location).stack
          scope := parent }) := by
      simp only [Instruction.move?, Primitive.effect, hparent, hp]
      rfl
    have hstep := step_of_move hi hm
    cases hs with
    | step hs => rw [hstep] at hs; cases hs
    | native hs _ => rw [hstep] at hs; cases hs

end Config

/-- A scripted word that is called by name leaves the scope as it was. -/
theorem callWord_scope {host : Host ν} {fuel : Nat} {location : Location} {name : String}
    {state : State ν} {outcome : Outcome ν} {word : Word ν} {body : Code}
    (hl : state.forest.lookup state.scope name = some word) (hb : word.body = .scripted body)
    (h : callWord host fuel location name state = some outcome) :
    outcome.state.scope = state.scope := by
  cases fuel with
  | zero => cases h
  | succ fuel =>
    rw [callWord] at h
    split at h
    · cases h
      rfl
    · rename_i found inner hc
      obtain ⟨hfound, -, -⟩ := State.beginCall_ok hc
      rw [hl] at hfound
      cases hfound
      simp only [hb] at h
      obtain ⟨ran, -, rfl⟩ := Option.map_eq_some_iff.1 h
      rw [Outcome.state_mapState]
      rfl

/-- **Scopes are isolated.**  Let every native word in sight be a demonstration word.  Then, however a
run ends, the current scope is where the packages opened and closed by the code itself lead to, from
the scope it started in; what words did that the code called does not count.  A scripted word called by
name leaves the scope as it was.  At every head the current scope is the cursor of the body at hand: a
package is opened inside of it, and can not be closed exactly if it has no scope around it. -/
theorem scopes_isolated {state : State HostWord} (hwords : state.forest.EveryWord Word.Settles) :
    (∀ code fuel outcome, runCode hostRoutine fuel code state = some outcome →
      ∃ heads last halt, Path hostRoutine (Config.start code state) heads last ∧
        last.Stops hostRoutine halt ∧ outcome = halt.unwind state.calls.depth ∧
        replay code.toArray 0 heads state.scope = some outcome.state.scope) ∧
    (∀ location name word body fuel outcome,
      state.forest.lookup state.scope name = some word → word.body = .scripted body →
      callWord hostRoutine fuel location name state = some outcome →
      outcome.state.scope = state.scope) ∧
    (∀ code heads config, Path hostRoutine (Config.start code state) heads config →
      ∃ before entry inside cursor, heads = before ++ inside ∧
        Path hostRoutine (Config.start code state) before entry ∧
        Config.Began hostRoutine config.callers entry inside config ∧
        replay config.code config.callers.length inside entry.state.scope = some cursor ∧
        (∀ location, config.code[config.position]? = some (.primitive location .package) →
          ∃ next, config.Goes hostRoutine next ∧ next.state.scope = config.state.forest.size ∧
            next.state.forest.parent? next.state.scope = some cursor) ∧
        (∀ location, config.code[config.position]? = some (.primitive location .endPackage) →
          ((∃ fault final, config.Stops hostRoutine (.failed fault final) ∧ fault.kind = .scope) ↔
            config.state.forest.parent? cursor = none))) := by
  refine ⟨?_, ?_, ?_⟩
  · intro code fuel outcome hrun
    obtain ⟨heads, last, halt, hpath, hstop, rfl⟩ := runCode_path hrun
    obtain ⟨cursor, hreplay, hbody⟩ := hpath.inBody hwords fun head _ => Nat.zero_le _
    have hscope := hbody.unwind hstop.ending (hpath.settles hwords) state.calls.depth
    exact ⟨heads, last, halt, hpath, hstop, rfl, by rw [hscope]; exact hreplay⟩
  · intro location name word body fuel outcome hl hb hcall
    exact callWord_scope hl hb hcall
  · intro code heads config hpath
    obtain ⟨before, entry, inside, hheads, hbefore, hbegan, hreplay⟩ := hpath.cursor hwords
    exact ⟨before, entry, inside, config.state.scope, hheads, hbefore, hbegan, hreplay,
      fun location hi => Config.goes_of_package hi,
      fun location hi => Config.stops_of_endPackage_iff hi⟩

/-- A word opens two packages and fails, called by code that has opened one itself: of the three new
scopes the current one is that of the code.  In the outermost scope a package can not be closed. -/
theorem scopes_isolated_failing :
    (∃ (code : Code) (heads : List (Config HostWord)) (outcome : Outcome HostWord),
      code = [.define none "dig" [.primitive none .package, .primitive none .package,
        .execute none "nowhere"], .primitive none .package, .execute none "dig"] ∧
      runCode hostRoutine 20 code (State.initial HostWord.demonstration .closed 5) = some outcome ∧
      outcome.fault?.map Fault.kind = some .undefinedWord ∧ outcome.state.forest.size = 4 ∧
      replay code.toArray 0 heads 0 = some outcome.state.scope ∧ outcome.state.scope = 1) ∧
    ∃ fault final, (Config.start [.primitive none .endPackage]
      (State.initial HostWord.demonstration .closed 5)).Stops hostRoutine (.failed fault final) ∧
      fault.kind = .scope := by
  have hwords : (State.initial HostWord.demonstration .closed 5).forest.EveryWord Word.Settles := by
    refine State.initial_everyWord .closed 5 fun word hm native hb => ?_
    cases hb
    exact hm
  obtain ⟨hruns, -, hheads⟩ := scopes_isolated hwords
  constructor
  · have hend : (runCode hostRoutine 20
        [.define none "dig" [.primitive none .package, .primitive none .package,
          .execute none "nowhere"], .primitive none .package, .execute none "dig"]
        (State.initial HostWord.demonstration .closed 5)).map
          (fun outcome => (outcome.fault?.map Fault.kind, outcome.state.forest.size,
            outcome.state.scope)) = some (some .undefinedWord, 4, 1) := rfl
    obtain ⟨outcome, hrun, he⟩ := Option.map_eq_some_iff.1 hend
    obtain ⟨hkind, hsize, hscope⟩ : outcome.fault?.map Fault.kind = some .undefinedWord ∧
      outcome.state.forest.size = 4 ∧ outcome.state.scope = 1 := by simpa using he
    obtain ⟨heads, -, -, -, -, -, hreplay⟩ := hruns _ _ _ hrun
    exact ⟨_, heads, outcome, rfl, hrun, hkind, hsize, hreplay, hscope⟩
  · obtain ⟨-, -, -, cursor, -, -, -, -, -, hstops⟩ :=
      hheads [.primitive none .endPackage] [] _ .nil
    -- the forest has one scope only, and nothing is around it
    have hparent : (State.initial HostWord.demonstration .closed 5).forest.parent? cursor = none := by
      cases cursor <;> rfl
    exact (hstops none rfl).2 hparent

end StackScript
