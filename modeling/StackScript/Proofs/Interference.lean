import StackScript.Proofs.FaultReports
import StackScript.Proofs.Lockstep

/-!
# Runs on one host do not interfere

The programs that are launched one after the other on a host share its scope.  Each runs in a new scope
inside it, but one that closes more packages than it opens gets out to the host, and may bind words there
for all that follow.  That is the only way in which one can make a difference to another on the host.  They
share the sink as well, which may fill up or break down; so the runs are compared where the sink takes and
refuses the same texts.

* `Program.SparesHost` — the program binds nothing in the scope of the host.
* `Used` — the states of a machine after any number of such programs, that may have failed.
* `Sink.AnswersLike` — two sinks take and refuse the same from here on; `Used.answersLike` — use makes no
  difference to a sink that does not remember what it was handed.
* `Forest.Keeps` — a scope binds what it bound; `Path.keeps` — so does the host along such a run.
* `Likeness.afterUse` — how the used machine differs from the fresh one.

Principal result: `runs_do_not_interfere`.
-/

set_option autoImplicit false

namespace StackScript

variable {ν : Type}

/-! ## A scope that is spared -/

/-- The scope exists, and it binds what it bound and lies where it lay. -/
structure Forest.Keeps (scope : ScopeId) (before after : Forest ν) : Prop where
  inside : scope < after.size
  words : after.words scope = before.words scope
  ancestors : after.ancestors scope = before.ancestors scope

namespace Forest.Keeps

variable {scope : ScopeId}

theorem refl {forest : Forest ν} (h : scope < forest.size) : forest.Keeps scope forest := ⟨h, rfl, rfl⟩

theorem trans {a b c : Forest ν} (h : a.Keeps scope b) (h' : b.Keeps scope c) : a.Keeps scope c :=
  ⟨h'.inside, h'.words.trans h.words, h'.ancestors.trans h.ancestors⟩

theorem newChild {forest : Forest ν} (h : scope < forest.size) (parent : ScopeId) :
    forest.Keeps scope (forest.newChild parent) := by
  refine ⟨?_, forest.words_newChild parent scope, ?_⟩
  · rw [size_newChild]
    exact Nat.lt_succ_of_lt h
  · rw [ancestors_newChild, if_neg (Nat.ne_of_lt h)]

theorem define {forest : Forest ν} (h : scope < forest.size) {other : ScopeId} (hne : other ≠ scope)
    (word : Word ν) : forest.Keeps scope (forest.define other word) := by
  refine ⟨?_, ?_, forest.ancestors_define other scope word⟩
  · rw [size_define]
    exact h
  · rw [words_define, if_neg fun hc => hne hc.1]

end Forest.Keeps

theorem Primitive.effect_keeps (operation : Primitive) {state : State ν} {scope : ScopeId}
    (h : scope < state.forest.size) :
    state.forest.Keeps scope (operation.effect state).state.forest := by
  rcases operation.effect_cases state with ⟨stack, sink, he⟩ | ⟨-, he⟩ | ⟨parent, -, -, he⟩
  · rw [he]; exact .refl h
  · rw [he]; exact .newChild h _
  · rw [he]; exact .refl h

/-- An instruction changes a scope only if it binds a word there. -/
theorem Instruction.move_keeps {state : State ν} {instruction : Instruction} {move : Move ν}
    {scope : ScopeId} (hm : instruction.move? state = some move) (h : scope < state.forest.size)
    (hd : ∀ location name body, instruction = .define location name body → state.scope ≠ scope) :
    state.forest.Keeps scope move.state.forest := by
  cases instruction with
  | primitive location operation =>
    cases hm
    rw [Outcome.state_move]
    exact operation.effect_keeps h
  | push location value => cases hm; exact .refl h
  | define location name body => cases hm; exact .define h (hd location name body rfl) _
  | execute location name => cases hm
  | jumpIfFalse location offset =>
    simp only [Instruction.move?] at hm
    split at hm <;> cases hm <;> exact .refl h
  | jump location offset => cases hm; exact .refl h

namespace Config

variable {config next : Config HostWord} {scope : ScopeId}

/-- **From head to head a scope is kept**, unless a word is bound in it. -/
theorem Passage.keeps (hp : config.Passage hostRoutine next)
    (hwords : config.state.forest.EveryWord Word.Settles)
    (hd : config.AtDefinition → config.state.scope ≠ scope) (h : scope < config.state.forest.size) :
    config.state.forest.Keeps scope next.state.forest := by
  cases hp with
  | leave hi hc => exact .refl h
  | @move instruction offset state hi hm =>
    have hkeeps := @Instruction.move_keeps _ _ _ _ scope hm
    rw [State.moveTo_forest, State.moveTo_scope] at hkeeps
    exact hkeeps h fun location name body he => hd ⟨location, name, body, he ▸ hi⟩
  | @enter location name word body ho hb =>
    show config.state.forest.Keeps scope (config.opened location name).forest
    rw [opened_forest]
    exact .refl h
  | @native location name word native state ho hb hp =>
    have hdata := ho.dataOnly hb hp hwords
    show config.state.forest.Keeps scope state.forest
    rw [show state.forest = _ from hdata.forest, opened_forest]
    exact .refl h

/-- Whatever stops the machine leaves the scope as it is. -/
theorem Ending.keeps {halt : Halt HostWord} (hs : config.Ending hostRoutine halt)
    (hwords : config.state.forest.EveryWord Word.Settles) (h : scope < config.state.forest.size)
    (depth : Nat) : config.state.forest.Keeps scope (halt.unwind depth).state.forest := by
  cases hs with
  | finished hi hc => exact .refl h
  | @fault instruction fault state hi hm =>
    have hkeeps := @Instruction.move_keeps _ _ _ _ scope hm
    rw [State.moveTo_forest, State.moveTo_scope] at hkeeps
    refine hkeeps h fun location name body he => ?_
    rw [he] at hm
    cases hm
  | @refused location name fault hi hb =>
    show config.state.forest.Keeps scope (config.state.moveTo location).forest
    rw [State.moveTo_forest]
    exact .refl h
  | @native location name word native fault state ho hb hp =>
    have hdata := ho.dataOnly hb hp hwords
    show config.state.forest.Keeps scope state.forest
    rw [show state.forest = _ from hdata.forest, opened_forest]
    exact .refl h

end Config

/-- **Along a run a scope is kept**, unless a word is bound in it. -/
theorem Path.keeps {start last : Config HostWord} {heads : List (Config HostWord)} {scope : ScopeId}
    (h : Path hostRoutine start heads last)
    (hwords : start.state.forest.EveryWord Word.Settles) (hinside : scope < start.state.forest.size)
    (hd : ∀ heads head, Path hostRoutine start heads head → head.AtDefinition →
      head.state.scope ≠ scope) :
    start.state.forest.Keeps scope last.state.forest := by
  induction h with
  | nil => exact .refl hinside
  | @snoc heads config next hpath hg ih =>
    exact ih.trans (hg.passage.keeps (hpath.settles hwords) (hd heads config hpath) ih.inside)

/-! ## The one course of a run -/

theorem Config.Goes.unique {host : Host ν} {config next other : Config ν}
    (h : config.Goes host next) (h' : config.Goes host other) : next = other := by
  cases h with
  | step hs =>
    cases h' with
    | step hs' => exact Step.next.inj (hs.symm.trans hs')
    | native hs' hp' => exact nomatch hs.symm.trans hs'
  | native hs hp =>
    cases h' with
    | step hs' => exact nomatch hs.symm.trans hs'
    | native hs' hp' =>
      obtain ⟨rfl, rfl⟩ := Step.native.inj (hs.symm.trans hs')
      cases hp.unique hp'
      rfl

/-- A path is at its start, or it goes on from the next head. -/
theorem Path.eq_or_next {host : Host ν} {start next last : Config ν} {heads : List (Config ν)}
    (hg : start.Goes host next) (h : Path host start heads last) :
    last = start ∨ ∃ rest, Path host next rest last := by
  induction h with
  | nil => exact Or.inl rfl
  | @snoc heads config after hpath hgoes ih =>
    right
    rcases ih with rfl | ⟨rest, hrest⟩
    · cases hg.unique hgoes
      exact ⟨[], .nil⟩
    · exact ⟨_, hrest.snoc hgoes⟩

/-- A path does not lead on from where the loop stops. -/
theorem Path.eq_of_halt {host : Host ν} {start last : Config ν} {heads : List (Config ν)}
    {halt : Halt ν} (hs : start.step = .halt halt) (h : Path host start heads last) :
    last = start := by
  induction h with
  | nil => rfl
  | snoc hpath hgoes ih =>
    subst ih
    cases hgoes with
    | step hs' => exact nomatch hs.symm.trans hs'
    | native hs' hp' => exact nomatch hs.symm.trans hs'

/-! ## A machine that has been used -/

/-- Launched in this state, the program binds nothing in the scope of the host. -/
def Program.SparesHost (program : Program) (surface : ScopeId) (state : State HostWord) : Prop :=
  ∀ heads head, Path hostRoutine (Config.start program.code (state.launched surface)) heads head →
    head.AtDefinition → head.state.scope ≠ surface

/-- The states of a machine on which programs have been launched that spared the host, whether they
succeeded or failed. -/
inductive Used (fresh : State HostWord) : State HostWord → Prop where
  | untouched : Used fresh fresh
  | launch {state : State HostWord} {path source : String} {program : Program}
      {outcome : Outcome HostWord} (h : Used fresh state)
      (hcompile : Program.compile path source = .ok program) (hspares : program.SparesHost 0 state)
      (hrun : Answers (fun fuel => program.launch hostRoutine fuel 0 state) outcome) :
      Used fresh outcome.state

/-- What use leaves as it was. -/
structure KeepsHost (fresh used : State HostWord) : Prop where
  host : fresh.forest.Keeps 0 used.forest
  callLimit : used.callLimit = fresh.callLimit
  settles : used.forest.EveryWord Word.Settles

namespace KeepsHost

variable {fresh state : State HostWord}

/-- **A program that spares the host keeps it.** -/
theorem launch {program : Program} {outcome : Outcome HostWord} (h : KeepsHost fresh state)
    (hspares : program.SparesHost 0 state)
    (hrun : Answers (fun fuel => program.launch hostRoutine fuel 0 state) outcome) :
    KeepsHost fresh outcome.state := by
  obtain ⟨enough, ha⟩ := hrun
  have hcode : runCode hostRoutine enough program.code (state.launched 0) = some outcome :=
    ha enough (Nat.le_refl enough)
  have hlimit : outcome.state.callLimit = state.callLimit := (runCode_balanced hcode).callLimit
  obtain ⟨heads, last, halt, hpath, hstop, rfl⟩ := runCode_path hcode
  have hstart : (state.launched 0).forest.EveryWord Word.Settles := h.settles.newChild 0
  have hbegun : state.forest.Keeps 0 (state.launched 0).forest := .newChild h.host.inside 0
  have hkept := hpath.keeps hstart hbegun.inside hspares
  have hlast := hpath.settles hstart
  have hend := hstop.ending.keeps hlast hkept.inside (state.launched 0).calls.depth
  refine ⟨h.host.trans (hbegun.trans (hkept.trans hend)), hlimit.trans h.callLimit, ?_⟩
  -- stopping binds nothing, so the words at the end are those of the last head
  cases halt with
  | finished final =>
    cases hstop.ending with
    | finished hi hc => exact hlast
  | failed fault stopped => exact (hstop.ending.sameBindings hlast).everyWord hlast

theorem of_used {used : State HostWord} (hu : Used fresh used) (hinside : 0 < fresh.forest.size)
    (hwords : fresh.forest.EveryWord Word.Settles) : KeepsHost fresh used := by
  induction hu with
  | untouched => exact ⟨.refl hinside, rfl, hwords⟩
  | launch _ hcompile hspares hrun ih => exact ih.launch hspares hrun

end KeepsHost

/-! ## The sink of a used machine -/

namespace Sink

/-- From here on both sinks take and refuse the same. -/
def AnswersLike (sink other : Sink) : Prop := sink.reply = other.reply

/-- The sink answers a text always in the same way, whatever it was handed before. -/
def Forgets (sink : Sink) : Prop := ∀ since text, sink.reply since text = sink.reply [] text

theorem Forgets.answersLike {sink other : Sink} (h : sink.Forgets) (ha : other.AnswersLike sink) :
    other.Forgets := by
  unfold Forgets
  rw [show other.reply = sink.reply from ha]
  exact h

theorem Forgets.after {sink : Sink} (h : sink.Forgets) (text : String) :
    (sink.after text).AnswersLike sink := by
  funext since later
  exact (h (text :: since) later).trans (h since later).symm

theorem collecting_forgets (written : String) : (collecting written).Forgets := fun _ _ => rfl

/-- What a sink that forgets does is the same after every run. -/
theorem Forgets.lasting : LastingThroughout fun before after : State ν =>
    before.sink.Forgets → after.sink.AnswersLike before.sink where
  refl _ _ := rfl
  trans h h' hf := (h' (hf.answersLike (h hf))).trans (h hf)
  change := by
    intro state after h hf
    cases h with
    | handed text => exact hf.after text
    | _ => rfl
  calls _ _ _ _ := rfl

end Sink

/-- Use makes no difference to what a sink does that forgets. -/
theorem Used.answersLike {fresh used : State HostWord} (hu : Used fresh used)
    (hf : fresh.sink.Forgets) : used.sink.AnswersLike fresh.sink := by
  induction hu with
  | untouched => rfl
  | @launch state _ _ program _ _ _ _ hrun ih =>
    obtain ⟨enough, ha⟩ := hrun
    have hcode : runCode hostRoutine enough program.code (state.launched 0) = some _ :=
      ha enough (Nat.le_refl enough)
    exact (runCode_lasting Sink.Forgets.lasting hcode (hf.answersLike ih)).trans ih

/-! ## The used machine as an image of the fresh one -/

/-- The host keeps its number, and all other scopes and all host objects have higher ones. -/
def Renaming.shift (scopes objects : Nat) : Renaming where
  scope
    | 0 => 0
    | scope + 1 => scope + 1 + scopes
  object := fun object => object + objects
  scope_injective := by
    intro a b h
    cases a with
    | zero =>
      cases b with
      | zero => rfl
      | succ b => exact absurd h.symm (Nat.ne_of_gt (Nat.add_pos_left b.succ_pos scopes))
    | succ a =>
      cases b with
      | zero => exact absurd h (Nat.ne_of_gt (Nat.add_pos_left a.succ_pos scopes))
      | succ b => exact Nat.add_right_cancel h
  object_injective := fun _ _ h => Nat.add_right_cancel h

/-- A machine that had one scope only differs from a used one in the numbers of what is new, and in what
was written before. -/
def Likeness.afterUse (fresh used : State HostWord) : Likeness where
  toRenaming := .shift (used.forest.size - 1) used.objects
  keepsPlaces := true
  written := fresh.sink.written
  imageWritten := used.sink.written
  calls := []
  imageCalls := []
  fewer := Nat.le_refl 0

namespace Likeness

/-- Words of the host have no code, so they stay as they are. -/
theorem word_of_isNative {k : Likeness} (hk : k.keepsPlaces = true) {word : Word ν}
    (h : word.isNative = true) : k.word word = word := by
  obtain ⟨location, name, description, body⟩ := word
  cases body with
  | native native => simp only [Likeness.word, Likeness.location, hk, WordBody.mapCode, if_true]
  | scripted code => cases h

/-- If places are kept and no calls were in progress before, then alike faults are the same. -/
theorem Faults.eq {k : Likeness} (hk : k.keepsPlaces = true) (hcalls : k.calls = [])
    (himage : k.imageCalls = []) {fault image : Fault} (h : k.Faults fault image) : image = fault := by
  have hlocation := h.location
  simp only [location?, hk, if_true] at hlocation
  have hitem : k.item = id := by
    funext call
    simp only [item, Likeness.location, hk, if_true, id]
  have hstack : ∀ calls calls', k.CallStacks calls calls' → calls' = calls := by
    rintro calls calls' ⟨inner, hinner, hinner'⟩
    rw [hcalls] at hinner
    rw [himage, hitem, List.map_id] at hinner'
    exact CallStack.ext (hinner'.trans hinner.symm)
  obtain ⟨cause, location, calls⟩ := fault
  obtain ⟨cause', location', calls'⟩ := image
  obtain rfl : cause' = cause := h.cause
  obtain rfl : location' = location := hlocation
  have hrel : Option.Rel k.CallStacks calls calls' := h.calls
  cases hrel with
  | none => rfl
  | some hrel => rw [hstack _ _ hrel]

theorem Outcomes.states {k : Likeness} {outcome image : Outcome HostWord}
    (h : k.Outcomes outcome image) : k.States outcome.state image.state := by
  cases h with
  | done h => exact h
  | failed hf h => exact h

theorem Outcomes.fault?_eq {k : Likeness} (hk : k.keepsPlaces = true) (hcalls : k.calls = [])
    (himage : k.imageCalls = []) {outcome image : Outcome HostWord} (h : k.Outcomes outcome image) :
    image.fault? = outcome.fault? := by
  cases h with
  | done h => rfl
  | failed hf h => exact congrArg some (hf.eq hk hcalls himage)

/-- Compiled code holds no number of a scope or an object, so it stays as it is. -/
theorem code_of_compiles {k : Likeness} (hk : k.keepsPlaces = true) {tokens : List Token}
    {code : Code} (h : Compiles tokens code) : k.code code = code := by
  refine Code.relabel_eq_self (fun location => ?_) code fun location constant hc => ?_
  · simp only [location?, hk, if_true]
  · rcases h.pushed hc with ⟨token, -, contents, -, rfl⟩ | ⟨x, rfl⟩ <;> rfl

end Likeness

namespace Forest

theorem size_install (forest : Forest HostWord) (scope : ScopeId) (words : List HostWord) :
    (forest.install scope words).size = forest.size := by
  unfold install
  induction words generalizing forest with
  | nil => rfl
  | cons word rest ih => rw [List.foldl_cons, ih, size_define]

theorem ancestors_install (forest : Forest HostWord) (scope other : ScopeId) (words : List HostWord) :
    (forest.install scope words).ancestors other = forest.ancestors other := by
  unfold install
  induction words generalizing forest with
  | nil => rfl
  | cons word rest ih => rw [List.foldl_cons, ih, ancestors_define]

end Forest

section AfterUse

variable {words : List HostWord} {sink : Sink} {callLimit : Nat} {used : State HostWord}

theorem State.initial_settles (hwords : words ⊆ HostWord.demonstration) :
    (State.initial words sink callLimit).forest.EveryWord Word.Settles := by
  refine State.initial_everyWord sink callLimit fun w hm native hb => ?_
  cases hb
  exact hwords hm

theorem State.initial_size : (State.initial words sink callLimit).forest.size = 1 :=
  Forest.size_install _ _ _

theorem State.initial_ancestors (scope : ScopeId) :
    (State.initial words sink callLimit).forest.ancestors scope = [] := by
  refine (Forest.ancestors_install _ _ _ _).trans ?_
  cases scope with
  | zero => rfl
  | succ scope => exact Forest.ancestors_of_size_le (Nat.succ_le_succ scope.zero_le)

/-- The scope of the host binds what it bound, and no other scope existed before. -/
theorem KeepsHost.forests (h : KeepsHost (State.initial words sink callLimit) used) :
    (Likeness.afterUse (State.initial words sink callLimit) used).Forests
      (State.initial words sink callLimit).forest used.forest := by
  have hsize : (State.initial words sink callLimit).forest.size = 1 := State.initial_size
  have hpos : 0 < used.forest.size := h.host.inside
  have hshift : ∀ n : Nat, n + 1 + (used.forest.size - 1) = used.forest.size + n :=
    fun n => by omega
  have hnew : ∀ n : Nat, used.forest.size ≤ n + 1 + (used.forest.size - 1) :=
    fun n => hshift n ▸ Nat.le_add_right _ n
  -- every scope but that of the host is new on both sides, so it has no words and no scopes around it
  refine ⟨fun scope => ?_, fun scope => ?_, fun scope hs => ?_, fun n => ?_⟩
  · rw [State.initial_ancestors, List.map_nil]
    cases scope with
    | zero => exact h.host.ancestors.trans (State.initial_ancestors 0)
    | succ scope => exact Forest.ancestors_of_size_le (hnew scope)
  · cases scope with
    | zero =>
      have hnative : (State.initial words sink callLimit).forest.EveryWord (·.isNative = true) :=
        State.initial_everyWord sink callLimit fun w _ => rfl
      refine h.host.words.trans ?_
      rw [List.map_congr_left fun word hm => Likeness.word_of_isNative rfl (hnative 0 word hm),
        List.map_id']
    | succ scope =>
      have hempty : (State.initial words sink callLimit).forest.words (scope + 1) = [] := by
        apply Forest.words_of_size_le
        rw [hsize]
        exact Nat.succ_le_succ scope.zero_le
      rw [hempty, List.map_nil]
      exact Forest.words_of_size_le (hnew scope)
  · rw [hsize] at hs
    obtain rfl : scope = 0 := Nat.lt_one_iff.1 hs
    exact hpos
  · rw [hsize, Nat.add_comm 1 n]
    exact hshift n

/-- **A program starts on the used machine as on the fresh one**, if their sinks do the same. -/
theorem KeepsHost.states (h : KeepsHost (State.initial words sink callLimit) used)
    (hwords : words ⊆ HostWord.demonstration) (hsink : sink.AnswersLike used.sink) :
    (Likeness.afterUse (State.initial words sink callLimit) used).States
      ((State.initial words sink callLimit).launched 0) (used.launched 0) := by
  have hsettles : (State.initial words sink callLimit).forest.EveryWord Word.Settles :=
    State.initial_settles hwords
  refine ⟨rfl, h.forests.newChild 0, fun n => ?_, ?_, h.callLimit, h.forests.size.symm, rfl,
    ⟨[], rfl, rfl⟩, hsettles.newChild 0⟩
  · show 0 + n + used.objects = used.objects + n
    rw [Nat.zero_add, Nat.add_comm]
  · exact ⟨hsink.symm, "", String.append_empty.symm, String.append_empty.symm⟩

end AfterUse

/-- **Runs on one host do not interfere.**  Let any number of compiled programs have been launched on a
machine with demonstration words or none, and let them have bound nothing in the scope of the host,
whether they succeeded or failed.  Then a compiled program comes to the same end on this machine as on
one that has not run anything: with the same fault or with none, after writing the same, with the same
values on the stack but for the numbers of scopes and host objects, and with the same names in these
scopes.  The other machine may write to the sink that the used one has by now, or to any that takes and
refuses the same from here on: to that of the start, if it does not remember what it was handed. -/
theorem runs_do_not_interfere {words : List HostWord} {sink fresh : Sink} {callLimit : Nat}
    {used : State HostWord} {path source : String} {program : Program}
    (hwords : words ⊆ HostWord.demonstration)
    (hused : Used (State.initial words sink callLimit) used)
    (hsink : fresh.AnswersLike used.sink)
    (hcompile : Program.compile path source = .ok program) :
    ∃ (first again : Outcome HostWord) (ρ : Renaming) (text : String),
      Answers (fun fuel =>
        program.launch hostRoutine fuel 0 (State.initial words fresh callLimit)) first ∧
      Answers (fun fuel => program.launch hostRoutine fuel 0 used) again ∧
      again.fault? = first.fault? ∧
      first.state.sink.written = fresh.written ++ text ∧
      again.state.sink.written = used.sink.written ++ text ∧
      again.state.stack = first.state.stack.map ρ.value ∧
      ∀ scope, again.state.names (ρ.scope scope) = first.state.names scope := by
  obtain ⟨-, tokens, -, hc⟩ := Program.compile_eq_ok_iff.1 hcompile
  have huse := KeepsHost.of_used hused (State.initial_size ▸ Nat.one_pos)
    (State.initial_settles hwords)
  -- nothing but the sink depends on the sink
  have hkeeps : KeepsHost (State.initial words fresh callLimit) used :=
    ⟨huse.host, huse.callLimit, huse.settles⟩
  obtain ⟨first, hfirst⟩ := program.launch_ends hc.neverIdles
    (State.initial_everyWord fresh callLimit fun w hm => hwords hm)
  obtain ⟨enough, ha⟩ := hfirst
  have hrun : runCode hostRoutine enough program.code
      ((State.initial words fresh callLimit).launched 0) = some first :=
    ha enough (Nat.le_refl enough)
  have hstates := hkeeps.states hwords hsink
  -- both machines start without a call in progress, so none can be refused on one of them only
  rcases Likeness.runCode_alike enough program.code hstates with ⟨_, _, -, -, hless⟩ | halike
  · exact absurd hless (Nat.lt_irrefl 0)
  rw [Likeness.code_of_compiles rfl hc, hrun] at halike
  generalize hagain : runCode hostRoutine enough program.code (used.launched 0) = again? at halike
  cases halike with
  | @some _ again halike =>
  obtain ⟨text, hwritten, hwritten'⟩ := halike.states.sink.written
  exact ⟨first, again, _, text, ⟨enough, ha⟩, runCode_answers hagain,
    halike.fault?_eq rfl rfl rfl,
    hwritten, hwritten', halike.states.stack, halike.states.names⟩

/-- A sink with room for so many characters. -/
def Sink.withRoom (room : Nat) : Sink where
  written := ""
  reply since text :=
    let left := room - (String.join since).length
    if text.length ≤ left then .taken else .refused left "failed to write whole buffer"

/-- On a sink with room for three characters two characters are written once, and in part when they are
written again. -/
example :
    ((Program.launch hostRoutine 9 ⟨"twice", [.push none (.text "a"), .primitive none .spew]⟩ 0
      (State.initial [] (.withRoom 3) 9)).bind fun first =>
        (Program.launch hostRoutine 9 ⟨"twice", [.push none (.text "a"), .primitive none .spew]⟩ 0
          first.state).map fun again =>
            (first.fault?.map Fault.message, again.fault?.map Fault.message,
              again.state.sink.written)) =
      some (none, some "I/O error: failed to write whole buffer", "a\na") := by
  decide +kernel

/-- A program that binds a word, leaves its scope for that of the host, writes the scope and looks for the
word in vain.  Launched twice, it does the same twice, with other scopes and objects. -/
theorem runs_do_not_interfere_twice :
    ∃ (program : Program) (first again : Outcome HostWord) (ρ : Renaming),
      Program.compile "twice" ": v drop ; endpackage spew \"k\" host.object v" = .ok program ∧
      program.SparesHost 0 (State.initial HostWord.demonstration (.collecting "") 9) ∧
      Answers (fun fuel => program.launch hostRoutine fuel 0
        (State.initial HostWord.demonstration (.collecting "") 9)) first ∧
      Answers (fun fuel => program.launch hostRoutine fuel 0 first.state) again ∧
      first.fault?.map Fault.cause = some (.undefinedWord "v") ∧
      first.state.sink.written = "package\x7bv\x7d\n" ∧
      first.state.stack = [.host ⟨0, "k"⟩, .package 1] ∧
      again.state.stack = [.host ⟨1, "k"⟩, .package 2] ∧
      again.fault? = first.fault? ∧
      again.state.sink.written = first.state.sink.written ++ first.state.sink.written ∧
      again.state.stack = first.state.stack.map ρ.value := by
  obtain ⟨program, hprogram⟩ : ∃ program : Program, program = ⟨"twice",
    [.define (some ⟨"twice", 1, 1⟩) "v" [.primitive (some ⟨"twice", 1, 5⟩) .drop],
      .primitive (some ⟨"twice", 1, 12⟩) .endPackage, .primitive (some ⟨"twice", 1, 23⟩) .spew,
      .push (some ⟨"twice", 1, 28⟩) (.text "k"), .execute (some ⟨"twice", 1, 32⟩) "host.object",
      .execute (some ⟨"twice", 1, 44⟩) "v"]⟩ := ⟨_, rfl⟩
  have hcompile : Program.compile "twice" ": v drop ; endpackage spew \"k\" host.object v" =
      .ok program := by
    have hv : Compiles [⟨⟨"twice", 1, 44⟩, "v"⟩] [.execute (some ⟨"twice", 1, 44⟩) "v"] :=
      .call _ (by decide) rfl (by simp [Token.string?]) rfl
    have hplain : ∀ column text, text ≠ ":" ∧ text ≠ "if" →
        Token.IsPlain ⟨⟨"twice", 1, column⟩, text⟩ := fun column text h => h
    have hdrop := Compiles.plain (hplain 5 "drop" (by decide)) .nil
    have hobject := Compiles.plain (hplain 32 "host.object" (by decide)) hv
    have hkind := Compiles.plain (hplain 28 "\"k\"" (by decide)) hobject
    have hspew := Compiles.plain (hplain 23 "spew" (by decide)) hkind
    have hclose := Compiles.plain (hplain 12 "endpackage" (by decide)) hspew
    have hcode := @Compiles.definition ⟨⟨"twice", 1, 1⟩, ":"⟩ ⟨⟨"twice", 1, 3⟩, "v"⟩
      ⟨⟨"twice", 1, 10⟩, ";"⟩ _ _ _ _ rfl (by decide) rfl (by unfold Lacks; decide) hdrop hclose
    subst hprogram
    exact Program.compile_eq_ok_iff.2 ⟨rfl, _, rfl, hcode⟩
  have hspares : program.SparesHost 0
      (State.initial HostWord.demonstration (.collecting "") 9) := by
    subst hprogram
    intro heads head hpath hd
    have hother : ∀ instruction, head.code[head.position]? = some instruction →
        (∀ location name body, instruction ≠ .define location name body) → ¬ head.AtDefinition := by
      rintro instruction hi hne ⟨location, name, body, hdefine⟩
      exact hne _ _ _ (Option.some.inj (hi.symm.trans hdefine))
    rcases hpath.eq_or_next (.step rfl) with rfl | ⟨heads, hpath⟩
    · show ¬ 1 = 0
      decide
    rcases hpath.eq_or_next (.step rfl) with rfl | ⟨heads, hpath⟩
    · exact absurd hd (hother (.primitive _ .endPackage) rfl (by simp))
    rcases hpath.eq_or_next (.step rfl) with rfl | ⟨heads, hpath⟩
    · exact absurd hd (hother (.primitive _ .spew) rfl (by simp))
    rcases hpath.eq_or_next (.step rfl) with rfl | ⟨heads, hpath⟩
    · exact absurd hd (hother (.push _ _) rfl (by simp))
    rcases hpath.eq_or_next (.native rfl ⟨0, fun _ _ => rfl⟩) with rfl | ⟨heads, hpath⟩
    · exact absurd hd (hother (.execute _ _) rfl (by simp))
    obtain rfl := hpath.eq_of_halt rfl
    exact absurd hd (hother (.execute _ _) rfl (by simp))
  have hboth : ((program.launch hostRoutine 20 0
      (State.initial HostWord.demonstration (.collecting "") 9)).bind fun first =>
        (program.launch hostRoutine 20 0 first.state).map fun again =>
          (first.fault?.map Fault.cause, first.state.sink.written, first.state.stack,
            again.state.stack)) =
      some (some (.undefinedWord "v"), "package\x7bv\x7d\n", [.host ⟨0, "k"⟩, .package 1],
        [.host ⟨1, "k"⟩, .package 2]) := by
    subst hprogram
    decide +kernel
  obtain ⟨first, hfirst, hboth⟩ := Option.bind_eq_some_iff.1 hboth
  obtain ⟨again, hagain, he⟩ := Option.map_eq_some_iff.1 hboth
  simp only [Prod.mk.injEq] at he
  obtain ⟨hcause, hwritten, hstack, hstack'⟩ := he
  have hused : Used (State.initial HostWord.demonstration (.collecting "") 9) first.state :=
    .launch .untouched hcompile hspares (runCode_answers hfirst)
  obtain ⟨first', again', ρ, text, hfirst', hagain', hfault, htext, htext', hrenamed, -⟩ :=
    runs_do_not_interfere (fun _ hm => hm) hused
      (hused.answersLike (Sink.collecting_forgets "")).symm hcompile
  obtain rfl : first' = first := hfirst'.unique (runCode_answers hfirst)
  obtain rfl : again' = again := hagain'.unique (runCode_answers hagain)
  refine ⟨program, first', again', ρ, hcompile, hspares, hfirst', hagain', hcause, hwritten, hstack,
    hstack', hfault, ?_, hrenamed⟩
  replace htext : first'.state.sink.written = text := htext.trans String.empty_append
  rw [htext', ← htext]

end StackScript
