import StackScript.Proofs.Faults

/-!
# Calls stay within their limit

At no moment of a run are more calls in progress than the limit allows, whatever the code and whatever
the native words do: they may run code and call words themselves, and swallow the faults of what they
called.

* `Activity` — what the machine is in the middle of: entering code or a word, at a head of its loop, or
  between two requests of a native routine.
* `Activity.Leads` — what an activity goes on with, or starts inside itself.  `Activity.Reaches` follows
  it, so from the start of a run it leads to every moment of the run, at any depth of nesting.
* `runCode_reaches`, `Routine.perform_reaches` — runs and routines are followed to their ends.
* `State.Within` — the calls in progress are within the limit.  `Config.Passage.within` and
  `Activity.Leads.within` — every step keeps that.

Principal result: `calls_closed_within_limit`.
-/

set_option autoImplicit false

namespace StackScript

variable {ν : Type}

/-! ## Every moment of a run -/

/-- The next request of a routine, met by the machine: what is left of the routine and the state it
goes on in.  Running code, calling words and going on as another word are not met here. -/
def Routine.met? : Routine ν → State ν → Option (Routine ν × State ν)
  | .finish, _ => none
  | .fail _, _ => none
  | .inspect next, state => some (next state, state)
  | .push value next, state => some (next, state.push value)
  | .pop next, state =>
    match state.stack with
    | [] => some (next (.error (state.fault .stackUnderflow)), state)
    | value :: rest => some (next (.ok value), { state with stack := rest })
  | .write text next, state => some (next (state.write text).answer, (state.write text).state)
  | .enterScope scope next, state => some (next, { state with scope := scope })
  | .newHost next, state =>
    some (next state.forest.size, { state with forest := state.forest.newHost })
  | .newScope parent next, state =>
    some (next state.forest.size, { state with forest := state.forest.newChild parent })
  | .define scope word next, state => some (next, state.define scope word)
  | .newObject kind next, state =>
    some (next ⟨state.objects, kind⟩, { state with objects := state.objects + 1 })
  | .call _ _ _, _ => none
  | .run _ _, _ => none
  | .become _, _ => none

/-- What the machine is in the middle of: it enters a piece of code, calls a word by name, is at a head of
its loop, or carries out what is left of a native routine. -/
inductive Activity (ν : Type) where
  | run (code : Code) (state : State ν)
  | call (location : Location) (name : String) (state : State ν)
  | loop (config : Config ν)
  | routine (routine : Routine ν) (state : State ν)

namespace Activity

def state : Activity ν → State ν
  | .run _ state => state
  | .call _ _ state => state
  | .loop config => config.state
  | .routine _ state => state

/-- What an activity goes on with, or starts inside itself. -/
inductive Leads (host : Host ν) : Activity ν → Activity ν → Prop where
  | start (code : Code) (state : State ν) :
      Leads host (.run code state) (.loop (Config.start code state))
  | next {config next : Config ν} (hg : config.Goes host next) :
      Leads host (.loop config) (.loop next)
  | native {config inner : Config ν} {word : ν} (hs : config.step = .native word inner) :
      Leads host (.loop config) (.routine (host word) inner.state)
  | callNative {location : Location} {name : String} {state inner : State ν} {word : Word ν}
      {native : ν} (hc : state.beginCall location name = .ok (word, inner))
      (hb : word.body = .native native) :
      Leads host (.call location name state) (.routine (host native) inner)
  | callScripted {location : Location} {name : String} {state inner : State ν} {word : Word ν}
      {body : Code} (hc : state.beginCall location name = .ok (word, inner))
      (hb : word.body = .scripted body) :
      Leads host (.call location name state) (.run body inner)
  | request {routine rest : Routine ν} {state after : State ν}
      (hr : routine.met? state = some (rest, after)) :
      Leads host (.routine routine state) (.routine rest after)
  -- the two requests that enter the machine again: into the run, and on behind it
  | calling (location : Location) (name : String) (next : Except Fault Unit → Routine ν)
      (state : State ν) :
      Leads host (.routine (.call location name next) state) (.call location name state)
  | called {location : Location} {name : String} {next : Except Fault Unit → Routine ν}
      {state : State ν} {outcome : Outcome ν}
      (ha : Answers (fun fuel => callWord host fuel location name state) outcome) :
      Leads host (.routine (.call location name next) state)
        (.routine (next outcome.answer) outcome.state)
  | running (code : Code) (next : Except Fault Unit → Routine ν) (state : State ν) :
      Leads host (.routine (.run code next) state) (.run code state)
  | ran {code : Code} {next : Except Fault Unit → Routine ν} {state : State ν}
      {outcome : Outcome ν} (ha : Answers (fun fuel => runCode host fuel code state) outcome) :
      Leads host (.routine (.run code next) state) (.routine (next outcome.answer) outcome.state)
  | becoming (native : ν) (state : State ν) :
      Leads host (.routine (.become native) state) (.routine (host native) state)

/-- The activity leads to the other one, in any number of steps. -/
inductive Reaches (host : Host ν) (first : Activity ν) : Activity ν → Prop where
  | refl : Reaches host first first
  | tail {activity next : Activity ν} (h : Reaches host first activity)
      (hl : activity.Leads host next) : Reaches host first next

end Activity

/-! ## To the end of a run -/

theorem Activity.Reaches.head {host : Host ν} {first next last : Activity ν}
    (hl : first.Leads host next) (h : next.Reaches host last) : first.Reaches host last := by
  induction h with
  | refl => exact .tail .refl hl
  | tail _ hl' ih => exact .tail ih hl'

theorem Path.reaches {host : Host ν} {start config : Config ν} {heads : List (Config ν)}
    (h : Path host start heads config) : (Activity.loop start).Reaches host (.loop config) := by
  induction h with
  | nil => exact .refl
  | snoc _ hg ih => exact .tail ih (.next hg)

theorem runCode_reaches {host : Host ν} {fuel : Nat} {code : Code} {state : State ν}
    {outcome : Outcome ν} (h : runCode host fuel code state = some outcome) :
    ∃ last halt, (Activity.run code state).Reaches host (.loop last) ∧ last.Stops host halt ∧
      outcome = halt.unwind state.calls.depth := by
  obtain ⟨heads, last, halt, hpath, hstop, he⟩ := runCode_path h
  exact ⟨last, halt, hpath.reaches.head (.start code state), hstop, he⟩

/-- The routine asks for nothing more. -/
def Routine.IsEnd (routine : Routine ν) : Prop := routine = .finish ∨ ∃ fault, routine = .fail fault

/-- The routine reaches an end that leaves the state of the outcome. -/
def Routine.ReachesEnd (host : Host ν) (routine : Routine ν) (state : State ν) (outcome : Outcome ν) :
    Prop :=
  ∃ rest : Routine ν, rest.IsEnd ∧
    (Activity.routine routine state).Reaches host (.routine rest outcome.state)

theorem Routine.ReachesEnd.head {host : Host ν} {routine next : Routine ν} {state after : State ν}
    {outcome : Outcome ν} (hl : (Activity.routine routine state).Leads host (.routine next after))
    (h : next.ReachesEnd host after outcome) : routine.ReachesEnd host state outcome := by
  obtain ⟨rest, hend, hreach⟩ := h
  exact ⟨rest, hend, hreach.head hl⟩

/-- A native routine reaches its end, request by request, if every word does that it goes on as. -/
theorem Routine.reachesEnd_of_become {host : Host ν} {fuel : Nat}
    (hbecome : ∀ native state outcome, becomeNative host fuel native state = some outcome →
      (host native).ReachesEnd host state outcome) (routine : Routine ν) :
    ∀ state outcome, routine.perform (host.reentry fuel) state = some outcome →
      routine.ReachesEnd host state outcome := by
  induction routine with
  | finish => rintro state outcome ⟨⟩; exact ⟨.finish, Or.inl rfl, .refl⟩
  | fail fault => rintro state outcome ⟨⟩; exact ⟨.fail fault, Or.inr ⟨fault, rfl⟩, .refl⟩
  | inspect next ih => intro state outcome h; exact .head (.request rfl) (ih state state outcome h)
  | push value next ih => intro state outcome h; exact .head (.request rfl) (ih _ outcome h)
  | pop next ih =>
    intro state outcome h
    rw [perform] at h
    cases hs : state.stack with
    | nil =>
      rw [hs] at h
      exact .head (.request (by rw [met?, hs])) (ih _ state outcome h)
    | cons value stack =>
      rw [hs] at h
      exact .head (.request (by rw [met?, hs])) (ih _ _ outcome h)
  | write text next ih =>
    intro state outcome h
    rw [perform_write] at h
    exact .head (.request rfl) (ih _ _ outcome h)
  | enterScope scope next ih => intro state outcome h; exact .head (.request rfl) (ih _ outcome h)
  | newHost next ih => intro state outcome h; exact .head (.request rfl) (ih _ _ outcome h)
  | newScope parent next ih => intro state outcome h; exact .head (.request rfl) (ih _ _ outcome h)
  | define scope word next ih => intro state outcome h; exact .head (.request rfl) (ih _ outcome h)
  | newObject kind next ih => intro state outcome h; exact .head (.request rfl) (ih _ _ outcome h)
  | call location name next ih =>
    intro state outcome h
    rw [perform_call] at h
    obtain ⟨inner, hc, hrest⟩ := Option.bind_eq_some_iff.1 h
    exact .head (.called (callWord_answers hc)) (ih _ _ outcome hrest)
  | run code next ih =>
    intro state outcome h
    rw [perform_run] at h
    obtain ⟨inner, hr, hrest⟩ := Option.bind_eq_some_iff.1 h
    exact .head (.ran (runCode_answers hr)) (ih _ _ outcome hrest)
  | become native =>
    intro state outcome h
    exact .head (.becoming native state) (hbecome native state outcome h)

/-- **A native routine reaches its end.**  Going on as another word takes fuel, so the induction is on
that. -/
theorem Routine.perform_reaches {host : Host ν} (fuel : Nat) :
    ∀ (routine : Routine ν) (state : State ν) (outcome : Outcome ν),
      routine.perform (host.reentry fuel) state = some outcome →
      routine.ReachesEnd host state outcome := by
  induction fuel with
  | zero => exact reachesEnd_of_become (by simp [becomeNative])
  | succ fuel ih => exact reachesEnd_of_become fun native => ih (host native)

/-! ## Within the limit -/

/-- Meeting a request opens and closes no call. -/
theorem Routine.met_balanced {routine rest : Routine ν} {state after : State ν}
    (h : routine.met? state = some (rest, after)) : state.Balanced after := by
  cases routine with
  | pop next =>
    simp only [met?] at h
    split at h <;> cases h <;> exact ⟨rfl, rfl⟩
  | write text next =>
    cases h
    exact State.Balanced.lasting.write text state
  | finish => cases h
  | fail fault => cases h
  | call location name next => cases h
  | run code next => cases h
  | become native => cases h
  | _ => cases h; exact ⟨rfl, rfl⟩

/-- At most `limit` calls are in progress, and that is the limit of the machine. -/
structure State.Within (limit : Nat) (state : State ν) : Prop where
  callLimit : state.callLimit = limit
  depth : state.calls.depth ≤ limit

namespace State.Within

variable {limit : Nat} {state after : State ν}

theorem congr (h : state.Within limit) (hb : state.Balanced after) : after.Within limit :=
  ⟨hb.callLimit.trans h.callLimit, by rw [hb.calls]; exact h.depth⟩

theorem openCall (h : state.Within limit) (hroom : state.calls.depth < state.callLimit)
    (item : CallItem) : (state.openCall item).Within limit := by
  refine ⟨h.callLimit, ?_⟩
  rw [openCall_calls, CallStack.depth_push, ← h.callLimit]
  exact hroom

theorem endCall (h : state.Within limit) : state.endCall.Within limit :=
  ⟨h.callLimit, Nat.le_trans (Nat.sub_le _ 1) h.depth⟩

theorem returnTo (h : state.Within limit) (scope : ScopeId) : (state.returnTo scope).Within limit :=
  ⟨h.callLimit, Nat.le_trans (Nat.sub_le _ 1) h.depth⟩

theorem beginCall (h : state.Within limit) {location : Location} {name : String} {word : Word ν}
    (hc : state.beginCall location name = .ok (word, after)) : after.Within limit := by
  obtain ⟨-, hroom, rfl⟩ := beginCall_ok hc
  exact h.openCall hroom _

end State.Within

theorem Config.Opens.within {limit : Nat} {config : Config ν} {location : Option Location}
    {name : String} {word : Word ν} (ho : config.Opens location name word)
    (h : config.state.Within limit) : (config.opened location name).Within limit := by
  have hmoved := h.congr (State.Balanced.moveTo config.state location)
  refine hmoved.openCall ?_ _
  rw [State.moveTo_calls, State.moveTo_callLimit]
  exact ho.room

/-- **From head to head the calls stay within the limit.** -/
theorem Config.Passage.within {host : Host ν} {limit : Nat} {config next : Config ν}
    (hp : config.Passage host next) (h : config.state.Within limit) : next.state.Within limit := by
  cases hp with
  | leave _ _ => exact h.returnTo _
  | move _ hm =>
    exact h.congr ((State.Balanced.moveTo _ _).trans (Instruction.move_balanced hm))
  | enter ho _ => exact ho.within h
  | native ho _ hp => exact ((ho.within h).congr hp.balanced).endCall

/-- **From one moment to the next, and into every nested run, the calls stay within the limit.** -/
theorem Activity.Leads.within {host : Host ν} {limit : Nat} {activity next : Activity ν}
    (hl : activity.Leads host next) (h : activity.state.Within limit) : next.state.Within limit := by
  cases hl with
  | start code state => exact h
  | next hg => exact hg.passage.within h
  | native hs =>
    obtain ⟨location, name, word, ho, -, rfl⟩ := Config.native_of_step hs
    exact ho.within h
  | callNative hc _ => exact State.Within.beginCall h hc
  | callScripted hc _ => exact State.Within.beginCall h hc
  | request hr => exact State.Within.congr h (Routine.met_balanced hr)
  | calling location name next state => exact h
  | called ha =>
    obtain ⟨fuel, hf⟩ := ha
    exact State.Within.congr h (callWord_balanced (hf fuel (Nat.le_refl fuel)))
  | running code next state => exact h
  | ran ha =>
    obtain ⟨fuel, hf⟩ := ha
    exact State.Within.congr h (runCode_balanced (hf fuel (Nat.le_refl fuel)))
  | becoming native state => exact h

theorem Activity.Reaches.within {host : Host ν} {limit : Nat} {first activity : Activity ν}
    (hr : first.Reaches host activity) (h : first.state.Within limit) :
    activity.state.Within limit := by
  induction hr with
  | refl => exact h
  | tail _ hl ih => exact hl.within ih

/-! ## When a call is refused -/

/-- **A call is refused for its depth exactly if the word is found and the limit is reached.** -/
theorem State.Within.refuses_iff {limit : Nat} {state : State ν} (h : state.Within limit)
    (location : Location) (name : String) :
    (∃ fault, state.beginCall location name = .error fault ∧ fault.kind = .callDepth) ↔
      (∃ word, state.forest.lookup state.scope name = some word) ∧ state.calls.depth = limit := by
  constructor
  · rintro ⟨fault, hb, hk⟩
    rcases State.beginCall_error hb with ⟨-, rfl⟩ | ⟨word, hl, hd, -⟩
    · cases hk
    · rw [h.callLimit] at hd
      exact ⟨⟨word, hl⟩, Nat.le_antisymm h.depth hd⟩
  · rintro ⟨⟨word, hl⟩, hd⟩
    have hfull : state.callLimit ≤ state.calls.depth := Nat.le_of_eq (h.callLimit.trans hd.symm)
    exact ⟨_, State.beginCall_of_le hl hfull, rfl⟩

/-- **No other instruction fails for the depth of calls.** -/
theorem Config.refuses_iff {limit : Nat} {config : Config ν} (h : config.state.Within limit) :
    (∃ fault final, config.step = .halt (.failed fault final) ∧ fault.kind = .callDepth) ↔
      ∃ location name word, config.code[config.position]? = some (.execute location name) ∧
        config.state.forest.lookup config.state.scope name = some word ∧
        config.state.calls.depth = limit := by
  -- the step as an ending, over a host that is of no matter
  constructor
  · rintro ⟨fault, final, hs, hk⟩
    have hend := (Stops.step hs : config.Stops (fun _ => .finish) _).ending
    cases hend with
    | fault _ hm => exact absurd hk (Instruction.fault_raisedIn hm).kind_ne
    | @refused location name _ hi hb =>
      have hmoved := h.congr (State.Balanced.moveTo config.state location)
      obtain ⟨⟨word, hl⟩, hd⟩ := (hmoved.refuses_iff _ name).1 ⟨fault, hb, hk⟩
      rw [State.moveTo_forest, State.moveTo_scope] at hl
      rw [State.moveTo_calls] at hd
      exact ⟨location, name, word, hi, hl, hd⟩
    | native ho hb hp =>
      obtain ⟨fuel, hf⟩ := hp
      cases hf fuel (Nat.le_refl fuel)
  · rintro ⟨location, name, word, hi, hl, hd⟩
    have hmoved := h.congr (State.Balanced.moveTo config.state location)
    rcases call_cases hi with ⟨fault, hb, hs⟩ | ⟨other, ho, -⟩
    · refine ⟨fault, _, hs, ?_⟩
      have hfull : (config.state.moveTo location).callLimit ≤
          (config.state.moveTo location).calls.depth := by
        apply Nat.le_of_eq
        rw [hmoved.callLimit, State.moveTo_calls, hd]
      rw [← State.moveTo_forest config.state location,
        ← State.moveTo_scope config.state location] at hl
      rw [State.beginCall_of_le hl hfull] at hb
      cases hb
      rfl
    · have hroom := ho.room
      rw [h.callLimit, hd] at hroom
      exact absurd hroom (Nat.lt_irrefl limit)

theorem Config.Over.depth {base : State ν} {config : Config ν} (h : config.Over base 0) :
    config.state.calls.depth = base.calls.depth + config.callers.length := by
  obtain ⟨-, items, hn, hi⟩ := h
  rw [config.state.calls.depth_eq, base.calls.depth_eq, hi, List.length_append, hn]
  omega

/-- **Calls are closed again and never exceed their limit.**  After a run, and after a call by name,
the calls in progress are item for item those from before it.  At each head of the loop there is one
more for each suspended caller.  At no moment, also inside native words and the runs that they start,
are there more than the limit allows; the moments that count lead runs and routines to their ends.  A
call is refused for its depth exactly if its word is found and the limit is reached; a name that is
bound nowhere is reported as such, even then. -/
theorem calls_closed_within_limit {host : Host ν} {state : State ν}
    (h : state.calls.depth ≤ state.callLimit) :
    (∀ code fuel outcome, runCode host fuel code state = some outcome →
      outcome.state.calls.items = state.calls.items) ∧
    (∀ location name fuel outcome, callWord host fuel location name state = some outcome →
      outcome.state.calls.items = state.calls.items) ∧
    (∀ code heads config, Path host (Config.start code state) heads config →
      config.state.calls.depth = state.calls.depth + config.callers.length) ∧
    (∀ code fuel outcome, runCode host fuel code state = some outcome →
      ∃ last halt, (Activity.run code state).Reaches host (.loop last) ∧ last.Stops host halt ∧
        outcome = halt.unwind state.calls.depth) ∧
    (∀ routine outcome, Performs host routine state outcome →
      ∃ rest : Routine ν, rest.IsEnd ∧
        (Activity.routine routine state).Reaches host (.routine rest outcome.state)) ∧
    (∀ first activity : Activity ν, first.state = state → first.Reaches host activity →
      activity.state.calls.depth ≤ state.callLimit ∧
      (∀ location name,
        ((∃ fault, activity.state.beginCall location name = .error fault ∧
            fault.kind = .callDepth) ↔
          (∃ word, activity.state.forest.lookup activity.state.scope name = some word) ∧
            activity.state.calls.depth = state.callLimit) ∧
        (activity.state.forest.lookup activity.state.scope name = none →
          ∃ fault, activity.state.beginCall location name = .error fault ∧
            fault.kind = .undefinedWord)) ∧
      (∀ config, activity = .loop config →
        ((∃ fault final, config.step = .halt (.failed fault final) ∧ fault.kind = .callDepth) ↔
          ∃ location name word, config.code[config.position]? = some (.execute location name) ∧
            config.state.forest.lookup config.state.scope name = some word ∧
            config.state.calls.depth = state.callLimit))) := by
  refine ⟨?_, ?_, ?_, fun code fuel outcome hr => runCode_reaches hr, ?_, ?_⟩
  · intro code fuel outcome hr
    rw [(runCode_balanced hr).calls]
  · intro location name fuel outcome hc
    rw [(callWord_balanced hc).calls]
  · intro code heads config hpath
    exact hpath.overStart.depth
  · rintro routine outcome ⟨fuel, hf⟩
    exact Routine.perform_reaches fuel routine state outcome (hf fuel (Nat.le_refl fuel))
  · intro first activity hfirst hreach
    have hwithin : activity.state.Within state.callLimit := by
      refine hreach.within ?_
      rw [hfirst]
      exact ⟨rfl, h⟩
    refine ⟨hwithin.depth, fun location name => ⟨hwithin.refuses_iff location name, ?_⟩, ?_⟩
    · intro hl
      exact ⟨_, State.beginCall_of_none hl, rfl⟩
    · rintro config rfl
      exact Config.refuses_iff hwithin

/-- A word that calls itself without end, called by a native word that swallows the fault: the calls
are closed again.  A machine with as many calls in progress as it allows refuses a word that it
finds, and reports a name that is bound nowhere. -/
theorem calls_closed_within_limit_swallowed :
    (∃ outcome, runCode hostRoutine 30
        [.define none "spin" [.execute none "spin"], .push none (.text "spin"), .execute none "try"]
        (State.initial HostWord.extended .closed 2) = some outcome ∧
      outcome.state.stack.length = 2 ∧ outcome.state.calls.items = []) ∧
    ∃ full : State HostWord, full.calls.depth = 1 ∧ full.callLimit = 1 ∧
      (∃ fault, full.beginCall HostWord.callSite "try" = .error fault ∧ fault.kind = .callDepth) ∧
      ∃ fault, full.beginCall HostWord.callSite "nowhere" = .error fault ∧
        fault.kind = .undefinedWord := by
  constructor
  · have hlength : (runCode hostRoutine 30
        [.define none "spin" [.execute none "spin"], .push none (.text "spin"), .execute none "try"]
        (State.initial HostWord.extended .closed 2)).map
          (fun outcome => outcome.state.stack.length) = some 2 := rfl
    obtain ⟨outcome, hrun, hstack⟩ := Option.map_eq_some_iff.1 hlength
    exact ⟨outcome, hrun, hstack, (calls_closed_within_limit (by decide)).1 _ 30 outcome hrun⟩
  · let full : State HostWord :=
      { State.initial HostWord.extended .closed 1 with
        calls := CallStack.ofItems [⟨"eval", HostWord.callSite⟩] }
    obtain ⟨-, hcalls, -⟩ := (@calls_closed_within_limit _ hostRoutine full (by decide)).2.2.2.2.2
      (.call HostWord.callSite "try" full) _ rfl .refl
    exact ⟨full, rfl, rfl, (hcalls HostWord.callSite "try").1.2 ⟨⟨_, rfl⟩, rfl⟩,
      (hcalls HostWord.callSite "nowhere").2 rfl⟩

end StackScript
