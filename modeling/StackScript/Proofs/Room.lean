import StackScript.Proofs.Faults

/-!
# Machines with more room

A machine can be given more room: values beneath its stack, and a higher limit of calls.  A run does not
notice the difference, unless it stops for want of what there is more of.

* `Room` — how much more, and `Room.widen` — a state with it.
* `Room.Wants` — the fault is for want of a value where there are some beneath, or of a call where more
  are allowed.
* `Room.Lifts` — with more room an operation has the same outcome, or there was such a want.  So it is with
  every primitive (`Primitive.effect_lifts`), every instruction (`Instruction.move_lifts`) and the
  demonstration words (`HostWord.steady_of_demonstration`), of which only one looks at the whole stack.
* `Config.Passage.widen`, `Config.Ending.widen` — hence the two machines go from head to head together;
  `Path.widen` is the run lemma.
* `Word.LooksOnTop` — a scripted word, or a demonstration word that does not write the whole stack.

Principal results: `Room.runCode_widen`, and for the stack alone `values_beneath_untouched`.
-/

set_option autoImplicit false

namespace StackScript

variable {ν : Type}

/-- More room for a machine: values beneath its stack, and a limit of calls that is not lowered. -/
structure Room where
  beneath : List Value
  limit : Nat
  raised : Nat
  le : limit ≤ raised

namespace Room

/-- A state with more room. -/
def widen (room : Room) (state : State ν) : State ν :=
  { state with stack := state.stack ++ room.beneath, callLimit := room.raised }

/-- The fault is for want of what there is more of. -/
def Wants (room : Room) (fault : Fault) : Prop :=
  fault.kind = .stackUnderflow ∧ room.beneath ≠ [] ∨
    fault.kind = .callDepth ∧ room.limit < room.raised

/-- With more room the outcome is the same, unless there was a want. -/
def Lifts (room : Room) : Outcome ν → Outcome ν → Prop
  | .done final, wide => wide = .done (room.widen final)
  | .failed fault final, wide => room.Wants fault ∨ wide = .failed fault (room.widen final)

/-- With more room an instruction does the same, unless there was a want. -/
def LiftsMove (room : Room) : Move ν → Move ν → Prop
  | .ahead offset state, wide => wide = .ahead offset (room.widen state)
  | .fault fault state, wide => room.Wants fault ∨ wide = .fault fault (room.widen state)

variable {room : Room}

@[simp] theorem widen_forest (state : State ν) : (room.widen state).forest = state.forest := rfl

@[simp] theorem widen_scope (state : State ν) : (room.widen state).scope = state.scope := rfl

@[simp] theorem widen_names (state : State ν) : (room.widen state).names = state.names := rfl

theorem widen_stack_nil {state : State ν} (h : state.stack = []) :
    (room.widen state).stack = room.beneath := by
  simp only [widen, h, List.nil_append]

theorem widen_stack_cons {state : State ν} {value : Value} {rest : List Value}
    (h : state.stack = value :: rest) :
    (room.widen state).stack = value :: (rest ++ room.beneath) := by
  simp only [widen, h, List.cons_append]

theorem widen_moveTo (state : State ν) (location : Option Location) :
    (room.widen state).moveTo location = room.widen (state.moveTo location) := by
  cases location <;> rfl

theorem Lifts.move {outcome wide : Outcome ν} (h : room.Lifts outcome wide) :
    room.LiftsMove outcome.move wide.move := by
  cases outcome with
  | done final =>
    obtain rfl : wide = _ := h
    rfl
  | failed fault final =>
    rcases h with h | rfl
    · exact Or.inl h
    · exact Or.inr rfl

/-! ## Primitives -/

theorem lifts_fail (state : State ν) (cause : Fault.Cause) :
    room.Lifts (state.fail cause) ((room.widen state).fail cause) := Or.inr rfl

/-- A missing value is a want, unless there is nothing beneath. -/
theorem lifts_underflow {state : State ν} {wide : Outcome ν}
    (h : room.beneath = [] → wide = (room.widen state).fail .stackUnderflow) :
    room.Lifts (state.fail .stackUnderflow) wide := by
  by_cases hb : room.beneath = []
  · rw [h hb]
    exact lifts_fail state _
  · exact Or.inl (Or.inl ⟨rfl, hb⟩)

theorem lifts_top {state : State ν} {operation : State ν → Outcome ν}
    (hnil : ∀ s : State ν, s.stack = [] → operation s = s.fail .stackUnderflow)
    (hcons : ∀ value rest, state.stack = value :: rest →
      (room.widen state).stack = value :: (rest ++ room.beneath) →
      room.Lifts (operation state) (operation (room.widen state))) :
    room.Lifts (operation state) (operation (room.widen state)) := by
  cases hs : state.stack with
  | nil =>
    rw [hnil state hs]
    exact lifts_underflow fun hb => hnil _ ((widen_stack_nil hs).trans hb)
  | cons value rest => exact hcons value rest hs (widen_stack_cons hs)

theorem lifts_withOperands (state : State ν) {next : Value → Value → State ν → Outcome ν}
    (h : ∀ b a (s : State ν), room.Lifts (next b a s) (next b a (room.widen s))) :
    room.Lifts (state.withOperands next) ((room.widen state).withOperands next) := by
  cases hs : state.stack with
  | nil =>
    simp only [State.withOperands, widen, hs, List.nil_append]
    refine lifts_underflow fun hb => ?_
    simp only [hb, widen, hs, List.nil_append]
  | cons a rest =>
    cases rest with
    | nil =>
      simp only [State.withOperands, widen, hs, List.cons_append, List.nil_append]
      refine lifts_underflow fun hb => ?_
      simp only [hb, widen, List.nil_append]
    | cons b rest =>
      simp only [State.withOperands, widen, hs, List.cons_append]
      exact h b a { state with stack := rest }

theorem lifts_arithmetic (state : State ν) (operation : Primitive)
    (compute : Float → Float → Float) :
    room.Lifts (state.arithmetic operation compute)
      ((room.widen state).arithmetic operation compute) := by
  refine lifts_withOperands state fun b a s => ?_
  split
  · rfl
  · exact lifts_fail s _

theorem lifts_write (state : State ν) (text : String) :
    room.Lifts (state.write text) ((room.widen state).write text) := by
  unfold State.write
  rw [show (room.widen state).sink = state.sink from rfl]
  split
  · rfl
  · exact Or.inr rfl

end Room

/-- **A primitive looks at the values on top only.** -/
theorem Primitive.effect_lifts (room : Room) (operation : Primitive) (state : State ν) :
    room.Lifts (operation.effect state) (operation.effect (room.widen state)) := by
  cases operation with
  | dup =>
    refine Room.lifts_top (fun s hs => by simp only [effect, hs]) fun value rest hs hw => ?_
    simp only [effect, hs, hw]
    rfl
  | drop =>
    refine Room.lifts_top (fun s hs => by simp only [effect, hs]) fun value rest hs hw => ?_
    simp only [effect, hs, hw]
    rfl
  | add =>
    simp only [effect]
    refine Room.lifts_withOperands state fun b a s => ?_
    simp only [Room.widen_names]
    split
    · rfl
    · exact Room.lifts_fail s _
  | subtract => exact Room.lifts_arithmetic state _ _
  | multiply => exact Room.lifts_arithmetic state _ _
  | divide => exact Room.lifts_arithmetic state _ _
  | equal =>
    simp only [effect]
    exact Room.lifts_withOperands state fun b a s => rfl
  | greaterThan =>
    simp only [effect]
    refine Room.lifts_withOperands state fun b a s => ?_
    split
    · rfl
    · exact Room.lifts_fail s _
  | not =>
    refine Room.lifts_top (fun s hs => by simp only [effect, hs]) fun value rest hs hw => ?_
    simp only [effect, hs, hw]
    rfl
  | spew =>
    refine Room.lifts_top (fun s hs => by simp only [effect, hs]) fun value rest hs hw => ?_
    simp only [effect, hs, hw]
    exact Room.lifts_write state _
  | package => rfl
  | endPackage =>
    simp only [effect, Room.widen_forest, Room.widen_scope]
    split
    · exact Room.lifts_fail state _
    · rfl

/-! ## Instructions -/

/-- **An instruction other than a call does the same with more room**, unless it was for want of it that
it failed. -/
theorem Instruction.move_lifts (room : Room) {state : State ν} {instruction : Instruction}
    {move : Move ν} (h : instruction.move? state = some move) :
    ∃ wide, instruction.move? (room.widen state) = some wide ∧ room.LiftsMove move wide := by
  cases instruction with
  | primitive location operation =>
    cases h
    exact ⟨_, rfl, (operation.effect_lifts room state).move⟩
  | push location value => cases h; exact ⟨_, rfl, rfl⟩
  | define location name body => cases h; exact ⟨_, rfl, rfl⟩
  | execute location name => cases h
  | jumpIfFalse location offset =>
    cases hs : state.stack with
    | nil =>
      simp only [move?, hs] at h
      cases h
      cases hb : room.beneath with
      | nil =>
        refine ⟨((room.widen state).fail .stackUnderflow).move, ?_, (Room.lifts_fail state _).move⟩
        simp only [move?, Room.widen_stack_nil hs, hb]
      | cons value rest =>
        simp only [move?, Room.widen_stack_nil hs, hb]
        exact ⟨_, rfl, Or.inl (Or.inl ⟨rfl, by rw [hb]; exact List.cons_ne_nil value rest⟩)⟩
    | cons value rest =>
      simp only [move?, hs] at h
      cases h
      simp only [move?, Room.widen_stack_cons hs]
      exact ⟨_, rfl, rfl⟩
  | jump location offset => cases h; exact ⟨_, rfl, rfl⟩

/-! ## Native words -/

namespace Routine

/-- The routine has the same outcome with more room, unless it was for want of it that it failed. -/
def Steady (room : Room) (routine : Routine ν) : Prop :=
  ∀ machine state outcome wide, routine.perform machine state = some outcome →
    routine.perform machine (room.widen state) = some wide → room.Lifts outcome wide

variable {room : Room}

theorem steady_finish : (finish : Routine ν).Steady room := by
  intro machine state outcome wide h hw
  cases h
  cases hw
  rfl

theorem steady_fail (fault : Fault) : (fail fault : Routine ν).Steady room := by
  intro machine state outcome wide h hw
  cases h
  cases hw
  exact Or.inr rfl

/-- What is looked at has to be the same with more room. -/
theorem steady_inspect {next : State ν → Routine ν}
    (hsame : ∀ state, next (room.widen state) = next state)
    (h : ∀ state, (next state).Steady room) : (inspect next).Steady room := by
  intro machine state outcome wide hp hw
  simp only [perform, hsame] at hp hw
  exact h state machine state outcome wide hp hw

theorem steady_push {next : Routine ν} (value : Value) (h : next.Steady room) :
    (push value next).Steady room :=
  fun machine state outcome wide hp hw => h machine (state.push value) outcome wide hp hw

theorem steady_newObject {next : HostObject → Routine ν} (kind : String)
    (h : ∀ object, (next object).Steady room) : (newObject kind next).Steady room :=
  fun machine state outcome wide hp hw =>
    h _ machine { state with objects := state.objects + 1 } outcome wide hp hw

theorem steady_failWith (cause : Fault.Cause) : (failWith cause : Routine ν).Steady room :=
  steady_inspect (fun _ => rfl) fun _ => steady_fail _

theorem steady_popValue {next : Value → Routine ν} (h : ∀ value, (next value).Steady room) :
    (popValue next).Steady room := by
  intro machine state outcome wide hp hw
  simp only [popValue, perform] at hp hw
  cases hs : state.stack with
  | nil =>
    rw [hs] at hp
    cases hp
    refine Room.lifts_underflow fun hb => ?_
    rw [Room.widen_stack_nil hs, hb] at hw
    cases hw
    rfl
  | cons value rest =>
    rw [hs] at hp
    rw [Room.widen_stack_cons hs] at hw
    exact h value machine { state with stack := rest } outcome wide hp hw

theorem steady_writeLast (text : String) : (writeLast text : Routine ν).Steady room := by
  intro machine state outcome wide hp hw
  rw [perform_writeLast] at hp hw
  cases hp
  cases hw
  exact Room.lifts_write state text

end Routine

open Routine in
/-- **The demonstration words look at the values on top only**, but for the one that writes the whole
stack. -/
theorem HostWord.steady_of_demonstration {room : Room} {word : HostWord} (hw : word ∈ demonstration)
    (hstack : word = .printStack → room.beneath = []) : (hostRoutine word).Steady room := by
  simp only [demonstration, List.mem_cons, List.not_mem_nil, or_false] at hw
  rcases hw with rfl | rfl | rfl | rfl
  · exact steady_popValue fun value =>
      steady_inspect (fun _ => rfl) fun state => steady_writeLast _
  · refine steady_inspect (fun state => ?_) fun state => steady_writeLast _
    have hsame : (room.widen state).stack = state.stack := by
      simp only [Room.widen, hstack rfl, List.append_nil]
    rw [hsame]
    rfl
  · exact steady_inspect (fun _ => rfl) fun state => steady_writeLast _
  · refine steady_popValue fun value => ?_
    cases value with
    | text kind => exact steady_newObject kind fun object => steady_push _ steady_finish
    | _ => exact steady_failWith _

theorem Performs.lifts {host : Host ν} {room : Room} {routine : Routine ν} {state : State ν}
    {outcome : Outcome ν} (h : Performs host routine state outcome) (hs : routine.Settles)
    (hr : routine.Steady room) :
    ∃ wide, Performs host routine (room.widen state) wide ∧ room.Lifts outcome wide := by
  obtain ⟨fuel, hf⟩ := h
  obtain ⟨wide, hw, -⟩ := hs (room.widen state)
  exact ⟨wide, ⟨0, fun _ _ => hw _⟩, hr _ state outcome wide (hf fuel (Nat.le_refl fuel)) (hw _)⟩

/-! ## One head -/

namespace Room

def config (room : Room) (config : Config ν) : Config ν :=
  { config with state := room.widen config.state }

def halt (room : Room) : Halt ν → Halt ν
  | .finished state => .finished (room.widen state)
  | .failed fault stopped => .failed fault (room.config stopped)

/-- If the word is one of the host, it is a demonstration word that does not look beneath. -/
def Admits (room : Room) (word : Word HostWord) : Prop :=
  ∀ native, word.body = .native native →
    native ∈ HostWord.demonstration ∧ (native = .printStack → room.beneath = [])

/-- The state is one that the room is for. -/
structure Fits (room : Room) (state : State HostWord) : Prop where
  limit : state.callLimit = room.limit
  words : state.forest.EveryWord room.Admits

/-- A call that can not be opened can not be opened with more room either, unless there was a want. -/
theorem beginCall_of_error {room : Room} {state : State ν} {location : Location} {name : String}
    {fault : Fault} (hlimit : state.callLimit = room.limit)
    (h : state.beginCall location name = .error fault) :
    room.Wants fault ∨ (room.widen state).beginCall location name = .error fault := by
  rcases State.beginCall_error h with ⟨hl, rfl⟩ | ⟨word, hl, hd, rfl⟩
  · exact Or.inr (State.beginCall_of_none hl)
  · by_cases hr : room.limit < room.raised
    · exact Or.inl (Or.inr ⟨rfl, hr⟩)
    · have hsame : (room.widen state).callLimit = state.callLimit := by
        have hle := room.le
        show room.raised = state.callLimit
        omega
      have hfound : (room.widen state).forest.lookup (room.widen state).scope name = some word := hl
      right
      rw [State.beginCall_of_le hfound (by rw [hsame]; exact hd), hsame]
      rfl

theorem Fits.settles {room : Room} {state : State HostWord} (h : room.Fits state) :
    state.forest.EveryWord Word.Settles :=
  fun scope word hm native hb => (h.words scope word hm native hb).1

end Room

namespace Config

variable {room : Room} {config next : Config HostWord}

theorem Opens.widen {location : Option Location} {name : String} {word : Word HostWord}
    (h : config.Opens location name word) (hfits : room.Fits config.state) :
    (room.config config).Opens location name word := by
  refine ⟨h.instruction, h.lookup, ?_⟩
  show config.state.calls.depth < room.raised
  have hroom := h.room
  rw [hfits.limit] at hroom
  exact Nat.lt_of_lt_of_le hroom room.le

theorem opened_widen (config : Config ν) (room : Room) (location : Option Location) (name : String) :
    (room.config config).opened location name = room.widen (config.opened location name) := by
  cases location <;> rfl

/-- A native word that is called here does the same with more room. -/
theorem Opens.lifts {location : Option Location} {name : String} {word : Word HostWord}
    {native : HostWord} {outcome : Outcome HostWord} (h : config.Opens location name word)
    (hb : word.body = .native native)
    (hp : Performs hostRoutine (hostRoutine native) (config.opened location name) outcome)
    (hfits : room.Fits config.state) :
    ∃ wide, Performs hostRoutine (hostRoutine native) ((room.config config).opened location name)
      wide ∧ room.Lifts outcome wide := by
  obtain ⟨hdemo, hstack⟩ := hfits.words.lookup h.lookup native hb
  rw [opened_widen]
  exact hp.lifts (HostWord.settles_of_demonstration hdemo)
    (HostWord.steady_of_demonstration hdemo hstack)

theorem Passage.callLimit {host : Host ν} {config next : Config ν} (h : config.Passage host next) :
    next.state.callLimit = config.state.callLimit := by
  cases h with
  | leave hi hc => rfl
  | move hi hm => exact (Instruction.move_balanced hm).callLimit.trans (State.moveTo_callLimit _ _)
  | enter ho hb => exact State.moveTo_callLimit _ _
  | native ho hb hp => exact hp.balanced.callLimit.trans (State.moveTo_callLimit _ _)

theorem Passage.fits (h : config.Passage hostRoutine next) (hfits : room.Fits config.state) :
    room.Fits next.state := by
  refine ⟨h.callLimit.trans hfits.limit, h.everyWord ?_ ?_ hfits.words⟩
  · exact fun word hw native hb => (hw native hb).1
  · intro location name body _ place native hb
    cases hb

/-- **The machine with more room gets to the next head in the same way.** -/
theorem Passage.widen (h : config.Passage hostRoutine next) (hfits : room.Fits config.state) :
    (room.config config).Passage hostRoutine (room.config next) := by
  cases h with
  | leave hi hc => exact .leave hi hc
  | @move instruction offset state hi hm =>
    obtain ⟨wide, hwide, hlifts⟩ := Instruction.move_lifts room hm
    obtain rfl : wide = _ := hlifts
    rw [← Room.widen_moveTo] at hwide
    exact .move hi hwide
  | @enter location name word body ho hb =>
    show (room.config config).Passage hostRoutine
      ((room.config config).enter body (room.widen (config.opened location name)))
    rw [← opened_widen]
    exact .enter (ho.widen hfits) hb
  | @native location name word native state ho hb hp =>
    obtain ⟨wide, hwide, hlifts⟩ := ho.lifts hb hp hfits
    obtain rfl : wide = _ := hlifts
    exact .native (ho.widen hfits) hb hwide

/-- **The machine with more room stops in the same way**, unless there was a want. -/
theorem Ending.widen {halt : Halt HostWord} (h : config.Ending hostRoutine halt)
    (hfits : room.Fits config.state) :
    (∃ fault stopped, halt = .failed fault stopped ∧ room.Wants fault) ∨
      (room.config config).Ending hostRoutine (room.halt halt) := by
  cases h with
  | finished hi hc => exact Or.inr (.finished hi hc)
  | @fault instruction fault state hi hm =>
    obtain ⟨wide, hwide, hlifts⟩ := Instruction.move_lifts room hm
    rcases hlifts with hwants | rfl
    · exact Or.inl ⟨fault, _, rfl, hwants⟩
    · rw [← Room.widen_moveTo] at hwide
      exact Or.inr (.fault hi hwide)
  | @refused location name fault hi hb =>
    have hlimit := (State.moveTo_callLimit config.state location).trans hfits.limit
    rcases Room.beginCall_of_error hlimit hb with hwants | hwide
    · exact Or.inl ⟨fault, _, rfl, hwants⟩
    · have hstop : (room.config config).Ending hostRoutine (.failed fault
          { room.config config with state := (room.widen config.state).moveTo location }) := by
        refine .refused hi ?_
        show ((room.widen config.state).moveTo location).beginCall
          ((room.widen config.state).moveTo location).place name = .error fault
        rw [Room.widen_moveTo]
        exact hwide
      rw [Room.widen_moveTo] at hstop
      exact Or.inr hstop
  | @native location name word native fault state ho hb hp =>
    obtain ⟨wide, hwide, hlifts⟩ := ho.lifts hb hp hfits
    rcases hlifts with hwants | rfl
    · exact Or.inl ⟨fault, _, rfl, hwants⟩
    · exact Or.inr (.native (ho.widen hfits) hb hwide)

end Config

/-! ## Whole runs -/

/-- **The machine with more room passes the same heads.** -/
theorem Path.widen {room : Room} {start last : Config HostWord} {heads : List (Config HostWord)}
    (h : Path hostRoutine start heads last) (hfits : room.Fits start.state) :
    Path hostRoutine (room.config start) (heads.map room.config) (room.config last) ∧
      room.Fits last.state := by
  induction h with
  | nil => exact ⟨.nil, hfits⟩
  | @snoc heads config next _ hg ih =>
    obtain ⟨hpath, hmiddle⟩ := ih
    rw [List.map_append]
    exact ⟨.snoc hpath (hg.passage.widen hmiddle).goes, hg.passage.fits hmiddle⟩

theorem Room.unwind_halt (room : Room) (depth : Nat) (halt : Halt ν) :
    (room.halt halt).unwind depth = (halt.unwind depth).mapState room.widen := by
  cases halt <;> rfl

/-- **A run is the same with more room**, unless there was a want. -/
theorem Room.runCode_widen {room : Room} {code : Code} {state : State HostWord}
    {outcome : Outcome HostWord} (hfits : room.Fits state)
    (h : Answers (fun fuel => runCode hostRoutine fuel code state) outcome) :
    (∃ fault, outcome.fault? = some fault ∧ room.Wants fault) ∨
      Answers (fun fuel => runCode hostRoutine fuel code (room.widen state))
        (outcome.mapState room.widen) := by
  obtain ⟨heads, last, halt, hpath, hstop, rfl⟩ := runCode_answers_iff.1 h
  obtain ⟨hwide, hlast⟩ := hpath.widen hfits
  rcases hstop.ending.widen hlast with ⟨fault, stopped, rfl, hwants⟩ | hending
  · exact Or.inl ⟨fault, rfl, hwants⟩
  · refine Or.inr (runCode_answers_iff.2 ⟨_, _, _, hwide, hending.stops, ?_⟩)
    exact (room.unwind_halt state.calls.depth halt).symm

namespace Room

/-- Room for further values only. -/
def forValues (beneath : List Value) (state : State ν) : Room :=
  ⟨beneath, state.callLimit, state.callLimit, Nat.le_refl _⟩

theorem forValues_wants {beneath : List Value} {state : State ν} {fault : Fault}
    (h : (forValues beneath state).Wants fault) : fault.kind = .stackUnderflow := by
  rcases h with ⟨hk, -⟩ | ⟨-, hlt⟩
  · exact hk
  · exact absurd hlt (Nat.lt_irrefl _)

theorem forValues_widen {beneath : List Value} {state final : State ν}
    (h : final.callLimit = state.callLimit) :
    (forValues beneath state).widen final = { final with stack := final.stack ++ beneath } := by
  show { final with stack := final.stack ++ beneath, callLimit := state.callLimit } = _
  rw [← h]

end Room

/-- If the word is one of the host, it is a demonstration word, and not the one that writes the whole
stack. -/
def Word.LooksOnTop (word : Word HostWord) : Prop :=
  ∀ native, word.body = .native native →
    native ∈ HostWord.demonstration ∧ native ≠ .printStack

/-- Code runs above further values as it does without, unless it fails for want of a value. -/
theorem runCode_above {state : State HostWord} {code : Code} {outcome : Outcome HostWord}
    (hwords : state.forest.EveryWord Word.LooksOnTop) (beneath : List Value)
    (h : Answers (fun fuel => runCode hostRoutine fuel code state) outcome)
    (hkind : ∀ fault, outcome.fault? = some fault → fault.kind ≠ .stackUnderflow) :
    Answers (fun fuel => runCode hostRoutine fuel code { state with stack := state.stack ++ beneath })
      (outcome.mapState fun final => { final with stack := final.stack ++ beneath }) := by
  have hfits : (Room.forValues beneath state).Fits state := by
    refine ⟨rfl, fun scope word hm native hb => ?_⟩
    obtain ⟨hdemo, hstack⟩ := hwords scope word hm native hb
    exact ⟨hdemo, fun he => absurd he hstack⟩
  have hlimit : outcome.state.callLimit = state.callLimit := by
    obtain ⟨enough, ha⟩ := h
    exact (runCode_balanced (ha enough (Nat.le_refl enough))).callLimit
  have hsame : outcome.mapState (Room.forValues beneath state).widen =
      outcome.mapState fun final => { final with stack := final.stack ++ beneath } := by
    cases outcome with
    | done final => exact congrArg _ (Room.forValues_widen hlimit)
    | failed fault final => exact congrArg _ (Room.forValues_widen hlimit)
  rcases Room.runCode_widen hfits h with ⟨fault, hf, hwants⟩ | hwide
  · exact absurd (Room.forValues_wants hwants) (hkind fault hf)
  · rw [hsame, Room.forValues_widen rfl] at hwide
    exact hwide

/-- **Values beneath are not touched.**  Let the words of the host that are bound in any scope be
demonstration words, other than the one that writes the whole stack.  If code runs to its end, then above
any further values it does so too, with the same values above them and everything else the same.  If it
fails, and not for want of a value, then above further values it fails with the same fault. -/
theorem values_beneath_untouched {state final : State HostWord} {code : Code}
    (hwords : state.forest.EveryWord Word.LooksOnTop) (beneath : List Value) :
    (Answers (fun fuel => runCode hostRoutine fuel code state) (.done final) →
      Answers (fun fuel => runCode hostRoutine fuel code
          { state with stack := state.stack ++ beneath })
        (.done { final with stack := final.stack ++ beneath })) ∧
    ∀ fault, fault.kind ≠ .stackUnderflow →
      Answers (fun fuel => runCode hostRoutine fuel code state) (.failed fault final) →
      Answers (fun fuel => runCode hostRoutine fuel code
          { state with stack := state.stack ++ beneath })
        (.failed fault { final with stack := final.stack ++ beneath }) := by
  refine ⟨fun h => runCode_above hwords beneath h ?_, fun fault hkind h => ?_⟩
  · intro fault hf
    cases hf
  · refine runCode_above hwords beneath h fun other hf => ?_
    cases hf
    exact hkind

/-- A text is written, and then a value of the wrong kind is popped: above another text both happen as
they do without it. -/
theorem values_beneath_untouched_popped :
    ∃ state : State HostWord,
      state = { State.initial [.print, .createObject] (.collecting "") 5 with
        stack := [.text "top", .bool true] } ∧
      Answers (fun fuel => runCode hostRoutine fuel [.execute none "print"]
          { state with stack := state.stack ++ [.text "deep"] })
        (.done { state with stack := [.bool true, .text "deep"], sink := .collecting "top\n" }) ∧
      Answers (fun fuel => runCode hostRoutine fuel
          [.execute none "print", .execute none "host.object"]
          { state with stack := state.stack ++ [.text "deep"] })
        (.failed
          ⟨.wrongKind .string .boolean, none,
            some (CallStack.ofItems [⟨"host.object", Location.unspecified⟩])⟩
          { state with stack := [.text "deep"], sink := .collecting "top\n" }) := by
  obtain ⟨state, hstate⟩ : ∃ state : State HostWord,
      state = { State.initial [.print, .createObject] (.collecting "") 5 with
        stack := [.text "top", .bool true] } := ⟨_, rfl⟩
  have hwords : state.forest.EveryWord Word.LooksOnTop := by
    subst hstate
    refine State.initial_everyWord (.collecting "") 5 fun w hm native hb => ?_
    cases hb
    revert w
    decide
  have hdone : runCode hostRoutine 10 [.execute none "print"] state =
      some (.done { state with stack := [.bool true], sink := .collecting "top\n" }) := by
    subst hstate
    rfl
  have hfailed : runCode hostRoutine 10 [.execute none "print", .execute none "host.object"] state =
      some (.failed
        ⟨.wrongKind .string .boolean, none,
          some (CallStack.ofItems [⟨"host.object", Location.unspecified⟩])⟩
        { state with stack := [], sink := .collecting "top\n" }) := by
    subst hstate
    rfl
  refine ⟨state, hstate, ?_, ?_⟩
  · exact (values_beneath_untouched hwords [.text "deep"]).1 (runCode_answers hdone)
  · exact (values_beneath_untouched hwords [.text "deep"]).2 _ (by decide) (runCode_answers hfailed)

end StackScript
