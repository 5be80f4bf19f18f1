import StackScript.Proofs.FaultReports
import StackScript.Proofs.Termination

/-!
# Calls leave the dictionary alone

A definition ends at the first `;`, so no definition stands inside the body of a word, and a word that
is called can bind nothing.  What it may do is create scopes, and those stay empty.

* `Forest.SameBindings` — every scope binds what it bound before, and the new ones bind nothing.
* `Config.Passage.sameBindings`, `Config.Ending.sameBindings` — so it is from head to head, unless a
  definition is at hand.
* `Word.Defined` — a demonstration word, or one that some compiled script defines.
* `Config.BindsNothing` — all code being carried out, but for the outermost bodies, is without
  definitions.  `Config.BindsNothing.passage` is the step lemma and `Path.sameBindings` the run lemma.
* `Config.Runs`, `Path.runs` — a compiled program at every head.

Principal result: `calls_keep_dictionary`.
-/

set_option autoImplicit false

namespace StackScript

variable {ν : Type}

/-! ## Bindings -/

/-- Scopes may have been created, but no scope binds anything that it did not bind before. -/
structure Forest.SameBindings (before after : Forest ν) : Prop where
  size : before.size ≤ after.size
  existing : ∀ scope < before.size, after.words scope = before.words scope
  created : ∀ scope, before.size ≤ scope → after.words scope = []

namespace Forest

theorem words_of_size_le {forest : Forest ν} {scope : ScopeId} (h : forest.size ≤ scope) :
    forest.words scope = [] := by
  unfold words
  rw [Array.getElem?_eq_none h]

theorem words_newChild (forest : Forest ν) (parent scope : ScopeId) :
    (forest.newChild parent).words scope = forest.words scope := by
  unfold words newChild
  rw [Array.getElem?_push]
  by_cases h : scope = forest.scopes.size
  · rw [if_pos h, h, Array.getElem?_eq_none (Nat.le_refl _)]
  · rw [if_neg h]

namespace SameBindings

theorem refl (forest : Forest ν) : forest.SameBindings forest :=
  ⟨Nat.le_refl _, fun _ _ => rfl, fun _ => words_of_size_le⟩

theorem trans {a b c : Forest ν} (h : a.SameBindings b) (h' : b.SameBindings c) :
    a.SameBindings c := by
  refine ⟨Nat.le_trans h.size h'.size, fun scope hs => ?_, fun scope hs => ?_⟩
  · rw [h'.existing scope (Nat.lt_of_lt_of_le hs h.size), h.existing scope hs]
  · by_cases hb : scope < b.size
    · rw [h'.existing scope hb, h.created scope hs]
    · exact h'.created scope (Nat.le_of_not_lt hb)

theorem newChild (forest : Forest ν) (parent : ScopeId) :
    forest.SameBindings (forest.newChild parent) := by
  refine ⟨?_, fun scope _ => forest.words_newChild parent scope, fun scope hs => ?_⟩
  · simp only [Forest.newChild, Forest.size, Array.size_push]
    exact Nat.le_succ _
  · rw [words_newChild, words_of_size_le hs]

end SameBindings

end Forest

theorem Primitive.effect_sameBindings (operation : Primitive) (state : State ν) :
    state.forest.SameBindings (operation.effect state).state.forest := by
  rcases operation.effect_cases state with ⟨stack, sink, he⟩ | ⟨-, he⟩ | ⟨parent, -, -, he⟩
  · rw [he]; exact .refl _
  · rw [he]; exact .newChild _ _
  · rw [he]; exact .refl _

/-- An instruction that is no definition binds nothing. -/
theorem Instruction.move_sameBindings {state : State ν} {instruction : Instruction} {move : Move ν}
    (hm : instruction.move? state = some move)
    (hd : ∀ location name body, instruction ≠ .define location name body) :
    state.forest.SameBindings move.state.forest := by
  cases instruction with
  | primitive location operation =>
    cases hm
    rw [Outcome.state_move]
    exact operation.effect_sameBindings state
  | push location value => cases hm; exact .refl _
  | define location name body => exact absurd rfl (hd location name body)
  | execute location name => cases hm
  | jumpIfFalse location offset =>
    simp only [Instruction.move?] at hm
    split at hm <;> cases hm <;> exact .refl _
  | jump location offset => cases hm; exact .refl _

namespace Config

variable {config next : Config HostWord}

def AtDefinition (config : Config ν) : Prop :=
  ∃ location name body, config.code[config.position]? = some (.define location name body)

/-- **From head to head nothing is bound**, unless a definition is at hand. -/
theorem Passage.sameBindings (hp : config.Passage hostRoutine next)
    (hwords : config.state.forest.EveryWord Word.Settles) (hd : ¬ config.AtDefinition) :
    config.state.forest.SameBindings next.state.forest := by
  cases hp with
  | leave hi hc => exact .refl _
  | @move instruction offset state hi hm =>
    have hsame := Instruction.move_sameBindings hm fun location name body he =>
      hd ⟨location, name, body, he ▸ hi⟩
    rw [State.moveTo_forest] at hsame
    exact hsame
  | @enter location name word body ho hb =>
    show config.state.forest.SameBindings (config.opened location name).forest
    rw [opened_forest]
    exact .refl _
  | @native location name word native state ho hb hp =>
    have hdata := ho.dataOnly hb hp hwords
    show config.state.forest.SameBindings state.forest
    rw [show state.forest = _ from hdata.forest, opened_forest]
    exact .refl _

theorem Ending.sameBindings {fault : Fault} {stopped : Config HostWord}
    (h : config.Ending hostRoutine (.failed fault stopped))
    (hwords : config.state.forest.EveryWord Word.Settles) :
    config.state.forest.SameBindings stopped.state.forest := by
  cases h with
  | @fault instruction _ state hi hm =>
    have hsame := Instruction.move_sameBindings hm fun location name body he => by
      rw [he] at hm
      cases hm
    rw [State.moveTo_forest] at hsame
    exact hsame
  | refused hi hb =>
    show config.state.forest.SameBindings (config.state.moveTo _).forest
    rw [State.moveTo_forest]
    exact .refl _
  | @native location name word native _ state ho hb hp =>
    have hdata := ho.dataOnly hb hp hwords
    show config.state.forest.SameBindings state.forest
    rw [show state.forest = _ from hdata.forest, opened_forest]
    exact .refl _

end Config

/-! ## Words that scripts define -/

theorem Word.Compiled.settles {word : Word HostWord} (h : word.Compiled) : word.Settles := by
  intro native hb
  unfold Word.Compiled at h
  rw [hb] at h
  exact h

/-- A demonstration word of the host, or a word that some compiled script defines. -/
def Word.Defined (word : Word HostWord) : Prop :=
  ∃ tokens code, compile tokens = .ok code ∧ word.DefinedIn code

namespace Word.Defined

variable {word : Word HostWord}

/-- The body of a defined word was compiled from a row without a `;`. -/
theorem row {body : Code} (h : word.Defined) (hb : word.body = .scripted body) :
    ∃ row, Lacks ";" row ∧ Compiles row body := by
  obtain ⟨tokens, code, hc, hd⟩ := h
  simp only [DefinedIn, hb] at hd
  obtain ⟨location, name, hd⟩ := hd
  exact (compiles_of_compile hc).body_of_holds hd

theorem neverDefines {body : Code} (h : word.Defined) (hb : word.body = .scripted body) :
    body.NeverDefines := by
  obtain ⟨row, hlacks, hrow⟩ := h.row hb
  exact hrow.neverDefines hlacks

theorem compiled (h : word.Defined) : word.Compiled := by
  unfold Word.Compiled
  cases hb : word.body with
  | native native =>
    obtain ⟨tokens, code, -, hd⟩ := h
    exact hd.settles native hb
  | scripted body =>
    obtain ⟨row, -, hrow⟩ := h.row hb
    exact ⟨row, compile_of_compiles hrow⟩

theorem settles (h : word.Defined) : word.Settles := h.compiled.settles

end Word.Defined

/-! ## Bodies without definitions -/

namespace Config

/-- All code being carried out: that at hand, and that of the suspended callers, innermost first. -/
def bodies (config : Config ν) : List Code :=
  config.code.toList :: config.callers.map fun frame => frame.code.toList

/-- But for the `outer` outermost bodies, all code being carried out is without definitions. -/
def BindsNothing (outer : Nat) (config : Config ν) : Prop :=
  ∀ level code, config.bodies[level]? = some code → level + outer < config.bodies.length →
    code.NeverDefines

variable {outer : Nat} {config next : Config HostWord}

theorem length_bodies (config : Config ν) : config.bodies.length = config.callers.length + 1 := by
  simp [bodies]

/-- Where the code at hand is none of the outermost bodies, it holds no definition. -/
theorem BindsNothing.not_atDefinition {config : Config ν} (h : config.BindsNothing outer)
    (hlevel : outer ≤ config.callers.length) : ¬ config.AtDefinition := by
  rintro ⟨location, name, body, hi⟩
  have hown : Code.NeverDefines config.code.toList := by
    refine h 0 config.code.toList rfl ?_
    rw [length_bodies]
    omega
  rw [← Array.getElem?_toList] at hi
  exact hown location name body (.here (List.mem_of_getElem? hi))

/-- **Code without definitions calls only such code.** -/
theorem BindsNothing.passage (h : config.BindsNothing outer) (hp : config.Passage hostRoutine next)
    (hwords : config.state.forest.EveryWord Word.Defined) : next.BindsNothing outer := by
  cases hp with
  | @leave frame callers hi hc =>
    have hbodies : config.bodies =
        config.code.toList :: (resume frame callers config.state).bodies := by
      simp only [bodies, hc, resume, List.map_cons]
    intro level code hcode hlevel
    refine h (level + 1) code ?_ ?_
    · rw [hbodies]
      exact hcode
    · rw [hbodies, List.length_cons]
      omega
  | move hi hm => exact h
  | @enter location name word body ho hb =>
    intro level code hcode hlevel
    cases level with
    | zero =>
      cases hcode
      exact (hwords.lookup ho.lookup).neverDefines hb
    | succ level =>
      refine h level code hcode ?_
      simp only [length_bodies, enter, List.length_cons] at hlevel ⊢
      omega
  | native ho hb hp => exact h

end Config

theorem Forest.EveryWord.settles {forest : Forest HostWord} (h : forest.EveryWord Word.Defined) :
    forest.EveryWord Word.Settles :=
  fun scope word hm => (h scope word hm).settles

/-- **As long as no definition of the outermost bodies is at hand, nothing is bound.** -/
theorem Path.sameBindings {outer : Nat} {start last : Config HostWord}
    {heads : List (Config HostWord)} (h : Path hostRoutine start heads last)
    (hwords : start.state.forest.EveryWord Word.Defined) (hbinds : start.BindsNothing outer)
    (hheads : ∀ head ∈ heads, outer ≤ head.callers.length ∨ ¬ head.AtDefinition) :
    start.state.forest.SameBindings last.state.forest ∧
      last.state.forest.EveryWord Word.Defined ∧ last.BindsNothing outer := by
  induction h with
  | nil => exact ⟨.refl _, hwords, hbinds⟩
  | @snoc heads config next _ hg ih =>
    obtain ⟨hsame, hmiddle, hkeeps⟩ := ih fun head hm => hheads head (List.mem_append_left _ hm)
    have hnone : ¬ config.AtDefinition := by
      rcases hheads config (List.mem_append_right _ (List.mem_singleton_self config)) with hl | hd
      · exact hkeeps.not_atDefinition hl
      · exact hd
    refine ⟨hsame.trans (hg.passage.sameBindings hmiddle.settles hnone), ?_,
      hkeeps.passage hg.passage hmiddle⟩
    refine hg.passage.everyWord (fun word hw => hw.settles) ?_ hmiddle
    intro location name body hi
    exact absurd ⟨location, name, body, hi⟩ hnone

/-! ## Calls by name -/

/-- A stop binds nothing, as it looks to whoever started the code. -/
theorem Config.Stops.sameBindings {config : Config HostWord} {halt : Halt HostWord}
    (h : config.Stops hostRoutine halt) (hwords : config.state.forest.EveryWord Word.Defined)
    (depth : Nat) : config.state.forest.SameBindings (halt.unwind depth).state.forest := by
  cases halt with
  | finished state =>
    cases h.ending with
    | finished hi hc => exact .refl _
  | failed fault stopped => exact h.ending.sameBindings hwords.settles

theorem runCode_sameBindings {fuel : Nat} {code : Code} {state : State HostWord}
    {outcome : Outcome HostWord} (hcode : code.NeverDefines)
    (hwords : state.forest.EveryWord Word.Defined)
    (h : runCode hostRoutine fuel code state = some outcome) :
    state.forest.SameBindings outcome.state.forest := by
  obtain ⟨heads, last, halt, hpath, hstop, rfl⟩ := runCode_path h
  have hbinds : (Config.start code state).BindsNothing 0 := by
    intro level body hbody hlevel
    have hlast : level = 0 := by
      simp only [Config.length_bodies, Config.start, List.length_nil] at hlevel
      omega
    subst hlast
    cases hbody
    exact hcode
  obtain ⟨hsame, hlast, -⟩ := hpath.sameBindings hwords hbinds fun head _ => Or.inl (Nat.zero_le _)
  exact hsame.trans (hstop.sameBindings hlast _)

/-- **A word called by name binds nothing.** -/
theorem callWord_sameBindings {fuel : Nat} {location : Location} {name : String}
    {state : State HostWord} {outcome : Outcome HostWord}
    (hwords : state.forest.EveryWord Word.Defined)
    (h : callWord hostRoutine fuel location name state = some outcome) :
    state.forest.SameBindings outcome.state.forest := by
  cases fuel with
  | zero => cases h
  | succ fuel =>
    rw [callWord] at h
    split at h
    · cases h
      exact .refl _
    · rename_i word inner hc
      obtain ⟨hfound, -, rfl⟩ := State.beginCall_ok hc
      have hword := hwords.lookup hfound
      split at h
      · rename_i native hb
        obtain ⟨ran, hran, rfl⟩ := Option.map_eq_some_iff.1 h
        have hdata := (performs_of_fuel hran).dataOnly
          (HostWord.settles_of_demonstration (hword.settles native hb))
        rw [Outcome.state_mapState]
        show state.forest.SameBindings ran.state.forest
        rw [hdata.forest]
        exact .refl _
      · rename_i body hb
        obtain ⟨ran, hran, rfl⟩ := Option.map_eq_some_iff.1 h
        have hopened : (state.openCall ⟨name, location⟩).forest.EveryWord Word.Defined := hwords
        have hsame := runCode_sameBindings (hword.neverDefines hb) hopened hran
        rw [Outcome.state_mapState]
        exact hsame

theorem callWord_ends {location : Location} {name : String} {state : State HostWord}
    (hwords : state.forest.EveryWord Word.NeverIdles) :
    ∃ outcome, Answers (fun fuel => callWord hostRoutine fuel location name state) outcome := by
  obtain ⟨outcome, ⟨enough, ha⟩, -⟩ : Ends (fun fuel => nestedCall hostRoutine fuel location name
      state) state :=
    nestedCall_ends (fun code inner _ => nestedRun_ends inner.room code inner rfl) hwords
  exact ⟨outcome, (machineFollows hostRoutine enough).call _ _ _ _ (ha enough (Nat.le_refl _))⟩

/-! ## Calls by an instruction -/

theorem Path.start_cases {host : Host ν} {start last : Config ν} {heads : List (Config ν)}
    (h : Path host start heads last) :
    (heads = [] ∧ last = start) ∨ ∃ rest, heads = start :: rest := by
  induction h with
  | nil => exact Or.inl ⟨rfl, rfl⟩
  | @snoc heads config next _ _ ih =>
    rcases ih with ⟨rfl, rfl⟩ | ⟨rest, rfl⟩
    · exact Or.inr ⟨[], rfl⟩
    · exact Or.inr ⟨rest ++ [config], rfl⟩

/-- **A word called by an instruction binds nothing**, as long as the call has not returned, and not
when it does or fails either. -/
theorem Path.sameBindings_of_call {start last : Config HostWord} {heads : List (Config HostWord)}
    {location : Option Location} {name : String} (h : Path hostRoutine start heads last)
    (hi : start.code[start.position]? = some (.execute location name))
    (hwords : start.state.forest.EveryWord Word.Defined)
    (hinside : ∀ head ∈ heads.tail, start.callers.length < head.callers.length) :
    start.state.forest.SameBindings last.state.forest ∧
      last.state.forest.EveryWord Word.Defined := by
  have hbinds : start.BindsNothing (start.callers.length + 1) := by
    intro level code _ hlevel
    rw [Config.length_bodies] at hlevel
    omega
  have hcall : ¬ start.AtDefinition := by
    rintro ⟨place, bound, body, hd⟩
    rw [hi] at hd
    cases hd
  have hheads : ∀ head ∈ heads,
      start.callers.length + 1 ≤ head.callers.length ∨ ¬ head.AtDefinition := by
    intro head hm
    rcases h.start_cases with ⟨rfl, -⟩ | ⟨rest, rfl⟩
    · cases hm
    · rcases List.mem_cons.1 hm with rfl | hm
      · exact Or.inr hcall
      · exact Or.inl (hinside head hm)
  obtain ⟨hsame, hlast, -⟩ := h.sameBindings hwords hbinds hheads
  exact ⟨hsame, hlast⟩

/-! ## Programs -/

/-- A compiled program is being run: it is the outermost of the bodies, and the only one that may hold
definitions. -/
structure Config.Runs (code : Code) (config : Config HostWord) : Prop where
  words : config.state.forest.EveryWord Word.Defined
  binds : config.BindsNothing 1
  program : config.bodies.getLast? = some code

namespace Config.Runs

variable {tokens : List Token} {code : Code} {config next : Config HostWord}

theorem start {state : State HostWord} (hwords : state.forest.EveryWord Word.Defined)
    (code : Code) : (Config.start code state).Runs code := by
  refine ⟨hwords, ?_, rfl⟩
  intro level body _ hlevel
  simp only [length_bodies, Config.start, List.length_nil] at hlevel
  omega

theorem own (h : config.Runs code) (hd : config.AtDefinition) :
    config.callers = [] ∧ config.code = code.toArray := by
  have hcallers : config.callers = [] := by
    refine List.length_eq_zero_iff.1 (Nat.eq_zero_of_not_pos fun hpos => ?_)
    exact h.binds.not_atDefinition hpos hd
  have hprogram := h.program
  simp only [bodies, hcallers, List.map_nil, List.getLast?_singleton, Option.some.injEq] at hprogram
  exact ⟨hcallers, by rw [← hprogram]⟩

/-- **Running a compiled program binds words of that program only.** -/
theorem passage (h : config.Runs code) (hc : compile tokens = .ok code)
    (hp : config.Passage hostRoutine next) : next.Runs code := by
  refine ⟨?_, h.binds.passage hp h.words, ?_⟩
  · refine hp.everyWord (fun word hw => hw.settles) ?_ h.words
    intro location name body hi place
    obtain ⟨-, hcode⟩ := h.own ⟨location, name, body, hi⟩
    refine ⟨tokens, code, hc, location, name, .here ?_⟩
    rw [hcode, List.getElem?_toArray] at hi
    exact List.mem_of_getElem? hi
  · have hprogram := h.program
    cases hp with
    | @leave frame callers hi hcallers =>
      simp only [bodies, hcallers, List.map_cons, List.getLast?_cons_cons] at hprogram
      exact hprogram
    | move hi hm => exact hprogram
    | @enter location name word body ho hb =>
      simp only [bodies, enter, List.map_cons, List.getLast?_cons_cons]
      exact hprogram
    | native ho hb hp => exact hprogram

end Config.Runs

theorem Path.runs {tokens : List Token} {code : Code} {state : State HostWord}
    {config : Config HostWord} {heads : List (Config HostWord)} (hc : compile tokens = .ok code)
    (hwords : state.forest.EveryWord Word.Defined)
    (h : Path hostRoutine (Config.start code state) heads config) : config.Runs code := by
  induction h with
  | nil => exact .start hwords code
  | snoc _ hg ih => exact ih.passage hc hg.passage

theorem Forest.SameBindings.everyWord {P : Word ν → Prop} {before after : Forest ν}
    (h : before.SameBindings after) (hwords : before.EveryWord P) : after.EveryWord P := by
  intro scope word hm
  by_cases hs : scope < before.size
  · rw [h.existing scope hs] at hm
    exact hwords scope word hm
  · rw [h.created scope (Nat.le_of_not_lt hs)] at hm
    cases hm

/-- **Calls leave the dictionary alone.**  Let every bound word be a demonstration word or one that a
compiled script defines.  A word called by name comes to an end, and whether it succeeds or fails, every
scope then binds what it bound before and every new one binds nothing.  So it is at every head of a call
by an instruction, where it returns and where it fails.  In a run of a compiled script something is bound
only where the script itself, and no word that it calls, carries out a definition; and after the run
every bound word is again one that a compiled script defines. -/
theorem calls_keep_dictionary {state : State HostWord}
    (hwords : state.forest.EveryWord Word.Defined) :
    (∀ location name, ∃ outcome,
      Answers (fun fuel => callWord hostRoutine fuel location name state) outcome ∧
        state.forest.SameBindings outcome.state.forest) ∧
    (∀ (config : Config HostWord) location name, config.state = state →
      config.code[config.position]? = some (.execute location name) →
      ∀ heads last, Path hostRoutine config heads last →
        (∀ head ∈ heads.tail, config.callers.length < head.callers.length) →
        state.forest.SameBindings last.state.forest ∧
          ∀ fault stopped, last.Stops hostRoutine (.failed fault stopped) →
            state.forest.SameBindings stopped.state.forest) ∧
    (∀ tokens code, compile tokens = .ok code →
      (∀ heads config next, Path hostRoutine (Config.start code state) heads config →
        config.Goes hostRoutine next →
        config.state.forest.SameBindings next.state.forest ∨
          config.AtDefinition ∧ config.callers = [] ∧ config.code = code.toArray) ∧
      ∃ outcome, Answers (fun fuel => runCode hostRoutine fuel code state) outcome ∧
        outcome.state.forest.EveryWord Word.Defined) := by
  have hidles : state.forest.EveryWord Word.NeverIdles :=
    fun scope word hm => (hwords scope word hm).compiled.neverIdles
  refine ⟨?_, ?_, ?_⟩
  · intro location name
    obtain ⟨outcome, enough, ha⟩ := callWord_ends hidles
    exact ⟨outcome, ⟨enough, ha⟩, callWord_sameBindings hwords (ha enough (Nat.le_refl enough))⟩
  · rintro config location name rfl hi heads last hpath hinside
    obtain ⟨hsame, hlast⟩ := hpath.sameBindings_of_call hi hwords hinside
    refine ⟨hsame, fun fault stopped hstop => ?_⟩
    exact hsame.trans (hstop.ending.sameBindings hlast.settles)
  · intro tokens code hc
    refine ⟨?_, ?_⟩
    · intro heads config next hpath hg
      have hruns := hpath.runs hc hwords
      by_cases hd : config.AtDefinition
      · exact Or.inr ⟨hd, hruns.own hd⟩
      · exact Or.inl (hg.passage.sameBindings hruns.words.settles hd)
    · obtain ⟨outcome, ⟨enough, ha⟩, -⟩ :=
        runCode_ends (compiles_of_compile hc).neverIdles hidles
      refine ⟨outcome, ⟨enough, ha⟩, ?_⟩
      obtain ⟨heads, last, halt, hpath, hstop, rfl⟩ := runCode_path (ha enough (Nat.le_refl enough))
      have hruns := hpath.runs hc hwords
      exact (hstop.sameBindings hruns.words _).everyWord hruns.words

/-- A word opens a package and then fails for want of a value: the new scope stays empty. -/
theorem calls_keep_dictionary_failing :
    ∃ (body : Code) (state : State HostWord) (outcome : Outcome HostWord),
      body = [.primitive (some Location.unspecified) .package,
        .execute (some Location.unspecified) "print"] ∧
      state = (State.initial HostWord.demonstration .closed 5).define 0
        ⟨Location.unspecified, "dig", "", .scripted body⟩ ∧
      Answers (fun fuel => callWord hostRoutine fuel Location.unspecified "dig" state) outcome ∧
      outcome.fault?.map Fault.kind = some .stackUnderflow ∧ outcome.state.forest.size = 2 ∧
      state.forest.SameBindings outcome.state.forest := by
  have hcall : Compiles [⟨Location.unspecified, "print"⟩]
      [.execute (some Location.unspecified) "print"] :=
    .call _ (by decide) rfl (by simp [Token.string?]) rfl
  have hbody := @Compiles.plain ⟨Location.unspecified, "package"⟩ _ _
    (show "package" ≠ ":" ∧ "package" ≠ "if" by decide) hcall
  have hscript := @Compiles.definition ⟨Location.unspecified, ":"⟩ ⟨Location.unspecified, "dig"⟩
    ⟨Location.unspecified, ";"⟩ _ _ _ _ rfl (by decide) rfl (by unfold Lacks; decide) hbody .nil
  have hwords : ((State.initial HostWord.demonstration .closed 5).define 0
      ⟨Location.unspecified, "dig", "", .scripted [.primitive (some Location.unspecified) .package,
        .execute (some Location.unspecified) "print"]⟩).forest.EveryWord Word.Defined := by
    refine Forest.EveryWord.define (State.initial_everyWord .closed 5 fun w hm => ?_) 0 ?_
    · exact ⟨[], [], compile_of_compiles .nil, hm⟩
    · exact ⟨_, _, compile_of_compiles hscript, _, "dig", .here List.mem_cons_self⟩
  have hend : (callWord hostRoutine 10 Location.unspecified "dig"
      ((State.initial HostWord.demonstration .closed 5).define 0 ⟨Location.unspecified, "dig", "",
        .scripted [.primitive (some Location.unspecified) .package,
          .execute (some Location.unspecified) "print"]⟩)).map
      (fun outcome => (outcome.fault?.map Fault.kind, outcome.state.forest.size)) =
        some (some .stackUnderflow, 2) := rfl
  obtain ⟨outcome, hrun, he⟩ := Option.map_eq_some_iff.1 hend
  obtain ⟨other, ha, hsame⟩ := (calls_keep_dictionary hwords).1 Location.unspecified "dig"
  obtain rfl : outcome = other := (callWord_answers hrun).unique ha
  obtain ⟨hkind, hsize⟩ : outcome.fault?.map Fault.kind = some .stackUnderflow ∧
    outcome.state.forest.size = 2 := by simpa using he
  exact ⟨_, _, outcome, rfl, rfl, ha, hkind, hsize, hsame⟩

end StackScript
