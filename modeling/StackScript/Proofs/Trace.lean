import StackScript.Proofs.CallDiscipline
import StackScript.Proofs.Callers
import StackScript.Proofs.Dictionary

/-!
# Runs, head by head

A run of the machine passes through a row of configurations, one at each head of its loop.  What
holds at every moment of a run is said of these, whether or not the run comes to an end.

* `Performs` — a native routine has this outcome.
* `Config.Goes`, `Config.Stops` — from one head to the next, and the stop at the last one.
* `Config.Passage`, `Config.Ending` — the same, taken apart: all that can happen at one head.  Proofs
  about runs go through these two and never open a step, in either direction (`Config.Goes.passage` and
  `Config.Passage.goes`, `Config.Stops.ending` and `Config.Ending.stops`).
* `Path` — the heads that a run has passed, and the one it is at.
* `Word.Settles` — a scripted word or a demonstration word.  Over such words
  `Config.Opens.dataOnly` says what native words change, and `Config.Passage.everyWord` carries what is
  known of every bound word from head to head.

Principal results: `runCode_answers_iff` — the answers of a run are the stops of its paths;
`Path.answers_iff` — they can be told from any head on the way; `Path.overStart` — at every head one call
is open for each suspended caller.
-/

set_option autoImplicit false

namespace StackScript

variable {ν : Type}

/-- Carrying out a native routine has this outcome. -/
def Performs (host : Host ν) (routine : Routine ν) (state : State ν) (outcome : Outcome ν) : Prop :=
  Answers (fun fuel => routine.perform (host.reentry fuel) state) outcome

theorem performs_of_fuel {host : Host ν} {fuel : Nat} {routine : Routine ν} {state : State ν}
    {outcome : Outcome ν}
    (h : routine.perform (host.reentry fuel) state = some outcome) :
    Performs host routine state outcome :=
  ⟨fuel, fun _ hf => Routine.perform_of_extends (reentry_extends_of_le host hf) _ _ _ h⟩

theorem Performs.balanced {host : Host ν} {routine : Routine ν} {state : State ν}
    {outcome : Outcome ν} (h : Performs host routine state outcome) :
    state.Balanced outcome.state := by
  obtain ⟨fuel, hf⟩ := h
  exact Routine.perform_machine_balanced (hf fuel (Nat.le_refl fuel))

/-! ## One head -/

namespace Config

/-- From one head of the loop to the next: by a step, or by a native word that succeeds. -/
inductive Goes (host : Host ν) : Config ν → Config ν → Prop where
  | step {config next : Config ν} (h : config.step = .next next) : Goes host config next
  | native {config inner : Config ν} {word : ν} {state : State ν}
      (h : config.step = .native word inner)
      (hp : Performs host (host word) inner.state (.done state)) :
      Goes host config (inner.advance state.endCall)

/-- The loop stops here: by a step, or by a native word that fails. -/
inductive Stops (host : Host ν) : Config ν → Halt ν → Prop where
  | step {config : Config ν} {halt : Halt ν} (h : config.step = .halt halt) : Stops host config halt
  | native {config inner : Config ν} {word : ν} {fault : Fault} {state : State ν}
      (h : config.step = .native word inner)
      (hp : Performs host (host word) inner.state (.failed fault state)) :
      Stops host config (.failed fault { inner with state := state })

/-- The state in which a word runs that is called here. -/
def opened (config : Config ν) (location : Option Location) (name : String) : State ν :=
  (config.state.moveTo location).openCall ⟨name, (config.state.moveTo location).place⟩

/-- The instruction at hand calls `word` by its name, and there is room for the call. -/
structure Opens (config : Config ν) (location : Option Location) (name : String) (word : Word ν) :
    Prop where
  instruction : config.code[config.position]? = some (.execute location name)
  lookup : config.state.forest.lookup config.state.scope name = some word
  room : config.state.calls.depth < config.state.callLimit

/-- How the machine gets to the next head: a body has ended and its caller goes on, an instruction other than a
call has been carried out, a scripted word has been entered, or a native one has been carried out. -/
inductive Passage (host : Host ν) (config : Config ν) : Config ν → Prop where
  | leave {frame : Frame} {callers : List Frame} (hi : config.code[config.position]? = none)
      (hc : config.callers = frame :: callers) :
      Passage host config (resume frame callers config.state)
  | move {instruction : Instruction} {offset : Nat} {state : State ν}
      (hi : config.code[config.position]? = some instruction)
      (hm : instruction.move? (config.state.moveTo instruction.location) =
        some (.ahead offset state)) :
      Passage host config (config.goTo (config.position + offset) state)
  | enter {location : Option Location} {name : String} {word : Word ν} {body : Code}
      (ho : config.Opens location name word) (hb : word.body = .scripted body) :
      Passage host config (config.enter body (config.opened location name))
  | native {location : Option Location} {name : String} {word : Word ν} {native : ν}
      {state : State ν} (ho : config.Opens location name word) (hb : word.body = .native native)
      (hp : Performs host (host native) (config.opened location name) (.done state)) :
      Passage host config (config.advance state.endCall)

/-- How the machine comes to a stop: its code has been carried out, an instruction other than a call fails, a
call can not be opened, or a native word fails. -/
inductive Ending (host : Host ν) (config : Config ν) : Halt ν → Prop where
  | finished (hi : config.code[config.position]? = none) (hc : config.callers = []) :
      Ending host config (.finished config.state)
  | fault {instruction : Instruction} {fault : Fault} {state : State ν}
      (hi : config.code[config.position]? = some instruction)
      (hm : instruction.move? (config.state.moveTo instruction.location) =
        some (.fault fault state)) :
      Ending host config (.failed fault { config with state := state })
  | refused {location : Option Location} {name : String} {fault : Fault}
      (hi : config.code[config.position]? = some (.execute location name))
      (hb : (config.state.moveTo location).beginCall (config.state.moveTo location).place name =
        .error fault) :
      Ending host config (.failed fault { config with state := config.state.moveTo location })
  | native {location : Option Location} {name : String} {word : Word ν} {native : ν}
      {fault : Fault} {state : State ν} (ho : config.Opens location name word)
      (hb : word.body = .native native)
      (hp : Performs host (host native) (config.opened location name) (.failed fault state)) :
      Ending host config (.failed fault { config with state := state })

theorem call_cases {config : Config ν} {location : Option Location} {name : String}
    (hi : config.code[config.position]? = some (.execute location name)) :
    (∃ fault, (config.state.moveTo location).beginCall (config.state.moveTo location).place name =
        .error fault ∧
      config.step = .halt (.failed fault { config with state := config.state.moveTo location })) ∨
    ∃ word, config.Opens location name word ∧
      ((∃ native, word.body = .native native ∧
          config.step = .native native { config with state := config.opened location name }) ∨
        ∃ body, word.body = .scripted body ∧
          config.step = .next (config.enter body (config.opened location name))) := by
  rw [step_of_execute hi]
  unfold call
  cases hb : (config.state.moveTo location).beginCall (config.state.moveTo location).place name with
  | error fault => exact Or.inl ⟨fault, rfl, rfl⟩
  | ok found =>
    obtain ⟨word, inner⟩ := found
    obtain ⟨hl, hd, rfl⟩ := State.beginCall_ok hb
    rw [State.moveTo_forest, State.moveTo_scope] at hl
    rw [State.moveTo_calls, State.moveTo_callLimit] at hd
    refine Or.inr ⟨word, ⟨hi, hl, hd⟩, ?_⟩
    cases hw : word.body with
    | native native => exact Or.inl ⟨native, rfl, by simp only [hw]; rfl⟩
    | scripted body => exact Or.inr ⟨body, rfl, by simp only [hw]; rfl⟩

/-- A native word is carried out only for a call instruction. -/
theorem native_of_step {config inner : Config ν} {native : ν}
    (h : config.step = .native native inner) :
    ∃ location name word, config.Opens location name word ∧ word.body = .native native ∧
      inner = { config with state := config.opened location name } := by
  cases hi : config.code[config.position]? with
  | none =>
    rw [step_of_end hi] at h
    unfold leave at h
    split at h <;> cases h
  | some instruction =>
    rcases instruction.execute_or_move (config.state.moveTo instruction.location) with
      ⟨location, name, rfl⟩ | ⟨move, hm⟩
    · rcases call_cases hi with ⟨fault, -, hs⟩ | ⟨word, ho, ⟨other, hw, hs⟩ | ⟨body, -, hs⟩⟩
      · rw [hs] at h; cases h
      · rw [hs] at h; cases h; exact ⟨location, name, word, ho, hw, rfl⟩
      · rw [hs] at h; cases h
    · rw [step_of_move hi hm] at h
      cases move <;> cases h

/-- **All that can happen between two heads.** -/
theorem Goes.passage {host : Host ν} {config next : Config ν} (h : config.Goes host next) :
    config.Passage host next := by
  cases h with
  | native hs hp =>
    obtain ⟨location, name, word, ho, hw, rfl⟩ := native_of_step hs
    exact .native ho hw hp
  | step hs =>
    cases hi : config.code[config.position]? with
    | none =>
      rw [step_of_end hi] at hs
      unfold leave at hs
      split at hs
      · cases hs
      · rename_i frame callers hc
        cases hs
        exact .leave hi hc
    | some instruction =>
      rcases instruction.execute_or_move (config.state.moveTo instruction.location) with
        ⟨location, name, rfl⟩ | ⟨move, hm⟩
      · rcases call_cases hi with ⟨fault, -, he⟩ | ⟨word, ho, ⟨native, -, he⟩ | ⟨body, hw, he⟩⟩
        · rw [he] at hs; cases hs
        · rw [he] at hs; cases hs
        · rw [he] at hs; cases hs; exact .enter ho hw
      · rw [step_of_move hi hm] at hs
        cases move with
        | ahead offset state => cases hs; exact .move hi hm
        | fault fault state => cases hs

/-- **All that can happen at the last head.** -/
theorem Stops.ending {host : Host ν} {config : Config ν} {halt : Halt ν}
    (h : config.Stops host halt) : config.Ending host halt := by
  cases h with
  | native hs hp =>
    obtain ⟨location, name, word, ho, hw, rfl⟩ := native_of_step hs
    exact .native ho hw hp
  | step hs =>
    cases hi : config.code[config.position]? with
    | none =>
      rw [step_of_end hi] at hs
      unfold leave at hs
      split at hs
      · rename_i hc
        cases hs
        exact .finished hi hc
      · cases hs
    | some instruction =>
      rcases instruction.execute_or_move (config.state.moveTo instruction.location) with
        ⟨location, name, rfl⟩ | ⟨move, hm⟩
      · rcases call_cases hi with ⟨fault, hb, he⟩ | ⟨word, ho, ⟨native, -, he⟩ | ⟨body, -, he⟩⟩
        · rw [he] at hs; cases hs; exact .refused hi hb
        · rw [he] at hs; cases hs
        · rw [he] at hs; cases hs
      · rw [step_of_move hi hm] at hs
        cases move with
        | ahead offset state => cases hs
        | fault fault state => cases hs; exact .fault hi hm

theorem Opens.beginCall {config : Config ν} {location : Option Location} {name : String}
    {word : Word ν} (h : config.Opens location name word) :
    (config.state.moveTo location).beginCall (config.state.moveTo location).place name =
      .ok (word, config.opened location name) := by
  refine State.beginCall_of_lt ?_ ?_
  · rw [State.moveTo_forest, State.moveTo_scope]
    exact h.lookup
  · rw [State.moveTo_calls, State.moveTo_callLimit]
    exact h.room

theorem Opens.step_of_native {config : Config ν} {location : Option Location} {name : String}
    {word : Word ν} {native : ν} (h : config.Opens location name word)
    (hb : word.body = .native native) :
    config.step = .native native { config with state := config.opened location name } := by
  rw [step_of_execute h.instruction]
  simp only [call, h.beginCall, hb]

/-- Whatever can happen between two heads does lead from one to the other. -/
theorem Passage.goes {host : Host ν} {config next : Config ν} (h : config.Passage host next) :
    config.Goes host next := by
  cases h with
  | leave hi hc =>
    refine .step ?_
    rw [step_of_end hi]
    simp only [Config.leave, hc, resume]
  | move hi hm => exact .step (step_of_move hi hm)
  | enter ho hb =>
    refine .step ?_
    rw [step_of_execute ho.instruction]
    simp only [call, ho.beginCall, hb]
  | native ho hb hp =>
    have hg := Goes.native (ho.step_of_native hb) hp
    exact hg

/-- Whatever can happen at the last head does stop the machine. -/
theorem Ending.stops {host : Host ν} {config : Config ν} {halt : Halt ν}
    (h : config.Ending host halt) : config.Stops host halt := by
  cases h with
  | finished hi hc =>
    refine .step ?_
    rw [step_of_end hi]
    simp only [Config.leave, hc]
  | fault hi hm => exact .step (step_of_move hi hm)
  | refused hi hb =>
    refine .step ?_
    rw [step_of_execute hi]
    simp only [call, hb]
  | native ho hb hp =>
    have hs := Stops.native (ho.step_of_native hb) hp
    exact hs

/-- Where the machine stops can be told from the next head as well. -/
theorem Goes.answers_iff {host : Host ν} {config next : Config ν} {halt : Halt ν}
    (h : config.Goes host next) :
    Answers (fun fuel => exec host fuel config) halt ↔
      Answers (fun fuel => exec host fuel next) halt := by
  cases h with
  | step hs =>
    constructor
    · rintro ⟨enough, ha⟩
      have hmore : exec host (enough + 1) config = some halt := ha _ (Nat.le_succ enough)
      rw [exec, hs] at hmore
      exact exec_answers hmore
    · intro ha
      refine ha.succ fun fuel hf => ?_
      rw [exec, hs]
      exact hf
  | @native inner word state hs hp =>
    constructor
    · rintro ⟨enough, ha⟩
      obtain ⟨enough', hp⟩ := hp
      have hmore : exec host (max enough enough' + 1) config = some halt := ha _ (by omega)
      rw [exec, hs] at hmore
      simp only [hp (max enough enough') (by omega)] at hmore
      exact exec_answers hmore
    · intro ha
      refine (hp.both ha fun fuel h1 h2 => ?_).succ fun fuel hf => hf
      rw [exec, hs]
      simp only [h1, h2]

theorem Stops.answers {host : Host ν} {config : Config ν} {halt : Halt ν}
    (h : config.Stops host halt) : Answers (fun fuel => exec host fuel config) halt := by
  cases h with
  | step hs =>
    refine (Answers.const halt).succ fun fuel _ => ?_
    rw [exec, hs]
  | native hs hp =>
    refine (hp.both (Answers.const _) fun fuel h1 _ => ?_).succ fun fuel hf => hf
    rw [exec, hs]
    simp only [h1]

end Config

/-! ## Whole runs -/

/-- The run has passed these heads, and is at the head `last`. -/
inductive Path (host : Host ν) (start : Config ν) : List (Config ν) → Config ν → Prop where
  | nil : Path host start [] start
  | snoc {heads : List (Config ν)} {config next : Config ν} (h : Path host start heads config)
      (hg : config.Goes host next) : Path host start (heads ++ [config]) next

namespace Path

theorem cons {host : Host ν} {config next last : Config ν} {heads : List (Config ν)}
    (hg : config.Goes host next) (h : Path host next heads last) :
    Path host config (config :: heads) last := by
  induction h with
  | nil => exact .snoc .nil hg
  | snoc _ hg' ih => exact .snoc ih hg'

/-- At every head one call is open for each suspended caller. -/
theorem overStart {host : Host ν} {code : Code} {state : State ν} {heads : List (Config ν)}
    {config : Config ν} (h : Path host (Config.start code state) heads config) :
    config.Over state 0 := by
  induction h with
  | nil => exact Config.over_start code state
  | @snoc heads config next _ hg ih =>
    have hover := Config.over_step ih
    cases hg with
    | step hs => rw [hs] at hover; exact hover
    | @native inner word final hs hp =>
      rw [hs] at hover
      have hinner : Config.Over state 1 { inner with state := final } :=
        Config.Over.congr hover hp.balanced rfl
      exact hinner.endCall _

end Path

theorem exec_path {host : Host ν} {fuel : Nat} {config : Config ν} {halt : Halt ν}
    (h : exec host fuel config = some halt) :
    ∃ heads last, Path host config heads last ∧ last.Stops host halt := by
  induction fuel generalizing config with
  | zero => cases h
  | succ fuel ih =>
    rw [exec] at h
    split at h
    · rename_i next hs
      obtain ⟨heads, last, hpath, hstop⟩ := ih h
      exact ⟨config :: heads, last, .cons (.step hs) hpath, hstop⟩
    · rename_i stop hs
      cases h
      exact ⟨[], config, .nil, .step hs⟩
    · rename_i word inner hs
      split at h
      · cases h
      · rename_i state hp
        obtain ⟨heads, last, hpath, hstop⟩ := ih h
        exact ⟨config :: heads, last, .cons (.native hs (performs_of_fuel hp)) hpath, hstop⟩
      · rename_i fault state hp
        cases h
        exact ⟨[], config, .nil, .native hs (performs_of_fuel hp)⟩

/-- **Every answer of a run is the stop of a path**, as it looks to whoever started the code. -/
theorem runCode_path {host : Host ν} {fuel : Nat} {code : Code} {state : State ν}
    {outcome : Outcome ν} (h : runCode host fuel code state = some outcome) :
    ∃ heads last halt, Path host (Config.start code state) heads last ∧ last.Stops host halt ∧
      outcome = halt.unwind state.calls.depth := by
  cases fuel with
  | zero => cases h
  | succ fuel =>
    rw [runCode] at h
    obtain ⟨halt, hh, rfl⟩ := Option.map_eq_some_iff.1 h
    obtain ⟨heads, last, hpath, hstop⟩ := exec_path hh
    exact ⟨heads, last, halt, hpath, hstop, rfl⟩

/-- Where a run stops can be told from any head on its path. -/
theorem Path.answers_iff {host : Host ν} {start config : Config ν} {heads : List (Config ν)}
    {halt : Halt ν} (h : Path host start heads config) :
    Answers (fun fuel => exec host fuel start) halt ↔
      Answers (fun fuel => exec host fuel config) halt := by
  induction h with
  | nil => exact Iff.rfl
  | snoc _ hg ih => exact ih.trans hg.answers_iff

/-- **The answers of a run are the stops of its paths.** -/
theorem runCode_answers_iff {host : Host ν} {code : Code} {state : State ν} {outcome : Outcome ν} :
    Answers (fun fuel => runCode host fuel code state) outcome ↔
      ∃ heads last halt, Path host (Config.start code state) heads last ∧ last.Stops host halt ∧
        outcome = halt.unwind state.calls.depth := by
  constructor
  · rintro ⟨enough, ha⟩
    exact runCode_path (ha enough (Nat.le_refl enough))
  · rintro ⟨heads, last, halt, hpath, hstop, rfl⟩
    have hexec := hpath.answers_iff.2 hstop.answers
    exact (hexec.map (Halt.unwind state.calls.depth)).succ fun fuel hf => hf

/-! ## Words that settle -/

theorem Performs.dataOnly {host : Host ν} {routine : Routine ν} {state : State ν}
    {outcome : Outcome ν} (h : Performs host routine state outcome) (hs : routine.Settles) :
    state.DataOnly outcome.state := by
  obtain ⟨fuel, hf⟩ := h
  obtain ⟨settled, hp, hd⟩ := hs state
  have he : some settled = some outcome := (hp _).symm.trans (hf fuel (Nat.le_refl fuel))
  cases he
  exact hd

/-- If the word is one of the host, it is a demonstration word. -/
def Word.Settles (word : Word HostWord) : Prop :=
  ∀ native, word.body = .native native → native ∈ HostWord.demonstration

namespace Config

variable {config next : Config HostWord}

theorem Opens.dataOnly {location : Option Location} {name : String} {word : Word HostWord}
    {native : HostWord} {outcome : Outcome HostWord} (ho : config.Opens location name word)
    (hb : word.body = .native native)
    (hp : Performs hostRoutine (hostRoutine native) (config.opened location name) outcome)
    (hwords : config.state.forest.EveryWord Word.Settles) :
    (config.opened location name).DataOnly outcome.state :=
  hp.dataOnly (HostWord.settles_of_demonstration (hwords.lookup ho.lookup native hb))

@[simp] theorem opened_forest (location : Option Location) (name : String) :
    (config.opened location name).forest = config.state.forest :=
  State.moveTo_forest config.state location

@[simp] theorem opened_scope (location : Option Location) (name : String) :
    (config.opened location name).scope = config.state.scope :=
  State.moveTo_scope config.state location

/-- **What is known of every bound word stays known**, if the definition at hand keeps to it. -/
theorem Passage.everyWord {P : Word HostWord → Prop} (hp : config.Passage hostRoutine next)
    (hsettles : ∀ word, P word → word.Settles)
    (hdefine : ∀ location name body,
      config.code[config.position]? = some (.define location name body) →
      ∀ place, P ⟨place, name, "", .scripted body⟩)
    (hwords : config.state.forest.EveryWord P) : next.state.forest.EveryWord P := by
  cases hp with
  | leave hi hc => exact hwords
  | @move instruction offset state hi hm =>
    refine Instruction.move_everyWord hm ?_ ?_
    · rw [State.moveTo_forest]
      exact hwords
    · rintro location name body rfl
      exact hdefine location name body hi
  | @enter location name word body ho hb =>
    show (config.opened location name).forest.EveryWord P
    rw [opened_forest]
    exact hwords
  | @native location name word native state ho hb hp =>
    have hdata := ho.dataOnly hb hp fun scope word hm => hsettles word (hwords scope word hm)
    show state.forest.EveryWord P
    rw [show state.forest = _ from hdata.forest, opened_forest]
    exact hwords

end Config

/-- Whatever the code, it binds scripted words only. -/
theorem Path.settles {start config : Config HostWord} {heads : List (Config HostWord)}
    (h : Path hostRoutine start heads config)
    (hwords : start.state.forest.EveryWord Word.Settles) :
    config.state.forest.EveryWord Word.Settles := by
  induction h with
  | nil => exact hwords
  | snoc _ hg ih =>
    refine hg.passage.everyWord (fun word hw => hw) ?_ ih
    intro location name body _ place native hb
    cases hb

end StackScript
