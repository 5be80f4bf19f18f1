import StackScript.Proofs.CallEffects
import StackScript.Proofs.Output
import StackScript.Proofs.Room

/-!
# Raising the limit of calls

The limit of calls decides nothing but whether a call is refused.

* `Room.forCalls` — room for further calls only.
* `Config.Ending.sink_of_callDepth` — only a refused call is reported as one too many, and it writes
  nothing.
* `runCode_raised` — a run that is refused no call is the same under a higher limit.
* `runCode_raised_output` — one that is refused a call has by then written what it writes under a higher
  limit, too.

Principal result: `raised_limit_keeps_runs`.
-/

set_option autoImplicit false

namespace StackScript

variable {ν : Type}

namespace Room

/-- Room for further calls only. -/
def forCalls {limit raised : Nat} (h : limit ≤ raised) : Room := ⟨[], limit, raised, h⟩

variable {limit raised : Nat} (hle : limit ≤ raised)

theorem forCalls_widen :
    (forCalls hle).widen = fun state : State ν => { state with callLimit := raised } := by
  funext state
  show { state with stack := state.stack ++ [], callLimit := raised } = _
  rw [List.append_nil]

theorem forCalls_wants {fault : Fault} (h : (forCalls hle).Wants fault) :
    fault.kind = .callDepth := by
  rcases h with ⟨-, hb⟩ | ⟨hk, -⟩
  · exact absurd rfl hb
  · exact hk

/-- Without values beneath, every demonstration word is admitted. -/
theorem forCalls_fits {state : State HostWord} (hlimit : state.callLimit = limit)
    (hwords : state.forest.EveryWord Word.Settles) : (forCalls hle).Fits state :=
  ⟨hlimit, fun scope word hm native hb => ⟨hwords scope word hm native hb, fun _ => rfl⟩⟩

end Room

/-- A call too many is reported by the machine itself, and by then nothing has been written at this
head. -/
theorem Config.Ending.sink_of_callDepth {config stopped : Config HostWord} {fault : Fault}
    (h : config.Ending hostRoutine (.failed fault stopped))
    (hwords : config.state.forest.EveryWord Word.Settles) (hk : fault.kind = .callDepth) :
    stopped.state.sink = config.state.sink := by
  cases h with
  | fault hi hm => exact absurd hk (Instruction.fault_raisedIn hm).kind_ne
  | refused hi hb => exact State.moveTo_sink config.state _
  | native ho hb hp =>
    have hraised := hp.raises
      (HostWord.raises_of_demonstration (hwords.lookup ho.lookup _ hb))
    exact absurd hk (Fault.RaisedIn.kind_ne hraised)

section Runs

variable {limit raised : Nat} {code : Code} {state : State HostWord} {outcome : Outcome HostWord}

/-- **A run that is refused no call is the same under a higher limit.** -/
theorem runCode_raised (hle : limit ≤ raised) (hlimit : state.callLimit = limit)
    (hwords : state.forest.EveryWord Word.Settles)
    (h : Answers (fun fuel => runCode hostRoutine fuel code state) outcome)
    (hk : outcome.fault?.map Fault.kind ≠ some .callDepth) :
    Answers (fun fuel => runCode hostRoutine fuel code { state with callLimit := raised })
      (outcome.mapState fun final => { final with callLimit := raised }) := by
  have hfits := Room.forCalls_fits hle hlimit hwords
  rcases Room.runCode_widen hfits h with ⟨fault, hf, hwants⟩ | hwide
  · refine absurd ?_ hk
    rw [hf, Option.map_some, Room.forCalls_wants hle hwants]
  · rw [Room.forCalls_widen] at hwide
    exact hwide

/-- **What a run writes until it is refused a call, it writes under a higher limit, too.**  Under the
higher limit the run passes the head at which the call was refused, and writes no less after it. -/
theorem runCode_raised_output {wide : Outcome HostWord} (hle : limit ≤ raised)
    (hlimit : state.callLimit = limit) (hwords : state.forest.EveryWord Word.Settles)
    (h : Answers (fun fuel => runCode hostRoutine fuel code state) outcome)
    (hk : outcome.fault?.map Fault.kind = some .callDepth)
    (hwide : Answers (fun fuel => runCode hostRoutine fuel code { state with callLimit := raised })
      wide) :
    outcome.state.sink.Grows wide.state.sink := by
  obtain ⟨heads, last, halt, hpath, hstop, rfl⟩ := runCode_answers_iff.1 h
  obtain ⟨heads', last', halt', hpath', hstop', rfl⟩ := runCode_answers_iff.1 hwide
  obtain ⟨hpassed, hlast⟩ := hpath.widen (Room.forCalls_fits hle hlimit hwords)
  have hstart : (Room.forCalls hle).config (Config.start code state) =
      Config.start code { state with callLimit := raised } := by
    simp only [Room.config, Config.start, Room.forCalls_widen]
  rw [hstart] at hpassed
  obtain ⟨fuel, hfuel⟩ := hpassed.answers_iff.1 (hpath'.answers_iff.2 hstop'.answers)
  have hgrows := exec_grows (hfuel fuel (Nat.le_refl fuel))
  rw [Halt.unwind_sink, Halt.unwind_sink]
  cases halt with
  | finished state => cases hk
  | failed fault stopped =>
    have hkind : fault.kind = .callDepth := Option.some.inj hk
    have hsink := hstop.ending.sink_of_callDepth hlast.settles hkind
    show stopped.state.sink.Grows halt'.state.sink
    rw [hsink]
    exact hgrows

end Runs

/-! ## Programs -/

/-- **A higher limit of calls keeps runs as they are.**  Let a program be compiled from a source and all
scripted words in scope be compiled too, the words of the host being demonstration words.  The program
comes to an end under either of two limits.  If it ends under the lower one, and not by a call too many,
then under the higher one it ends in the same way, with the same fault and the same state.  If it is
refused a call, then what it has written is the beginning of what it writes under the higher limit. -/
theorem raised_limit_keeps_runs {path source : String} {program : Program} {root : ScopeId}
    {state : State HostWord} {limit raised : Nat}
    (hcompile : Program.compile path source = .ok program)
    (hwords : state.forest.EveryWord Word.Compiled) (hle : limit ≤ raised) :
    ∃ outcome wide,
      Answers (fun fuel => program.run hostRoutine fuel root { state with callLimit := limit })
        outcome ∧
      Answers (fun fuel => program.run hostRoutine fuel root { state with callLimit := raised })
        wide ∧
      (outcome.fault?.map Fault.kind ≠ some .callDepth →
        wide = outcome.mapState fun final => { final with callLimit := raised }) ∧
      (outcome.fault?.map Fault.kind = some .callDepth →
        ∃ more, wide.state.sink.written = outcome.state.sink.written ++ more) := by
  obtain ⟨-, tokens, -, hc⟩ := Program.compile_eq_ok_iff.1 hcompile
  -- The state in which the program starts, under either limit.
  let begun (callLimit : Nat) : State HostWord :=
    { state with scope := root, location := none, calls := CallStack.empty, callLimit := callLimit }
  have hidles : state.forest.EveryWord Word.NeverIdles :=
    fun scope word hm => (hwords scope word hm).neverIdles
  have hsettles : (begun limit).forest.EveryWord Word.Settles :=
    fun scope word hm => (hwords scope word hm).settles
  obtain ⟨outcome, hrun, -⟩ := @runCode_ends program.code (begun limit) hc.neverIdles hidles
  obtain ⟨wide, hwide, -⟩ := @runCode_ends program.code (begun raised) hc.neverIdles hidles
  refine ⟨outcome, wide, hrun, hwide, fun hk => ?_, fun hk => ?_⟩
  · exact hwide.unique (runCode_raised hle rfl hsettles hrun hk)
  · exact runCode_raised_output hle rfl hsettles hrun hk hwide

/-- A word that writes and drops the values one by one and then calls itself.  With two values it is
refused a call under the limit one, where it has written the first, and fails for want of a value under
the limits three and seven. -/
theorem raised_limit_keeps_runs_down :
    ∃ (program : Program) (state : State HostWord),
      Program.compile "down" ": down spew drop down ; down" = .ok program ∧
      state = { State.initial HostWord.demonstration (.collecting "") defaultCallLimit with
        stack := [.text "a", .text "b"] } ∧
      (∃ wide more,
        Answers (fun fuel => program.run hostRoutine fuel 0 { state with callLimit := 3 }) wide ∧
          wide.state.sink.written = "a\n" ++ more) ∧
      ∃ outcome : Outcome HostWord, outcome.fault?.map Fault.kind = some .stackUnderflow ∧
        Answers (fun fuel => program.run hostRoutine fuel 0 { state with callLimit := 3 }) outcome ∧
        Answers (fun fuel => program.run hostRoutine fuel 0 { state with callLimit := 7 })
          (outcome.mapState fun final => { final with callLimit := 7 }) := by
  have hcall : ∀ column, Compiles [⟨⟨"down", 1, column⟩, "down"⟩]
      [.execute (some ⟨"down", 1, column⟩) "down"] :=
    fun column => .call _ (by decide) rfl (by simp [Token.string?]) rfl
  have hdrop := @Compiles.plain ⟨⟨"down", 1, 13⟩, "drop"⟩ _ _
    (show "drop" ≠ ":" ∧ "drop" ≠ "if" by decide) (hcall 18)
  have hbody := @Compiles.plain ⟨⟨"down", 1, 8⟩, "spew"⟩ _ _
    (show "spew" ≠ ":" ∧ "spew" ≠ "if" by decide) hdrop
  have hcode := @Compiles.definition ⟨⟨"down", 1, 1⟩, ":"⟩ ⟨⟨"down", 1, 3⟩, "down"⟩
    ⟨⟨"down", 1, 23⟩, ";"⟩ _ _ _ _ rfl (by decide) rfl (by unfold Lacks; decide) hbody (hcall 25)
  obtain ⟨program, hprogram⟩ : ∃ program : Program, program = ⟨"down",
      [.define (some ⟨"down", 1, 1⟩) "down"
        [.primitive (some ⟨"down", 1, 8⟩) .spew, .primitive (some ⟨"down", 1, 13⟩) .drop,
          .execute (some ⟨"down", 1, 18⟩) "down"],
        .execute (some ⟨"down", 1, 25⟩) "down"]⟩ := ⟨_, rfl⟩
  have hcompile : Program.compile "down" ": down spew drop down ; down" = .ok program := by
    subst hprogram
    exact Program.compile_eq_ok_iff.2 ⟨rfl, _, rfl, hcode⟩
  obtain ⟨state, hstate⟩ : ∃ state : State HostWord,
      state = { State.initial HostWord.demonstration (.collecting "") defaultCallLimit with
        stack := [.text "a", .text "b"] } := ⟨_, rfl⟩
  have hwords : state.forest.EveryWord Word.Compiled := by
    subst hstate
    exact State.initial_everyWord (.collecting "") defaultCallLimit fun w hm => hm
  have hrefused : (program.run hostRoutine 20 0 { state with callLimit := 1 }).map
      (fun outcome => (outcome.fault?.map Fault.kind, outcome.state.sink.written)) =
        some (some .callDepth, "a\n") := by
    subst hprogram hstate
    rfl
  have hempty : (program.run hostRoutine 20 0 { state with callLimit := 3 }).map
      (fun outcome => outcome.fault?.map Fault.kind) = some (some .stackUnderflow) := by
    subst hprogram hstate
    rfl
  refine ⟨program, state, hcompile, hstate, ?_, ?_⟩
  · obtain ⟨outcome, wide, hrun, hwide, -, hwrites⟩ :=
      @raised_limit_keeps_runs _ _ _ 0 _ 1 3 hcompile hwords (by decide)
    obtain ⟨refused, hr, he⟩ := Option.map_eq_some_iff.1 hrefused
    obtain rfl : refused = outcome := (runCode_answers hr).unique hrun
    obtain ⟨hkind, hwritten⟩ : refused.fault?.map Fault.kind = some .callDepth ∧
      refused.state.sink.written = "a\n" := by simpa using he
    obtain ⟨more, hmore⟩ := hwrites hkind
    exact ⟨wide, more, hwide, hwritten ▸ hmore⟩
  · obtain ⟨outcome, wide, hrun, hwide, hsame, -⟩ :=
      @raised_limit_keeps_runs _ _ _ 0 _ 3 7 hcompile hwords (by decide)
    obtain ⟨failed, hf, hkind⟩ := Option.map_eq_some_iff.1 hempty
    obtain rfl : failed = outcome := (runCode_answers hf).unique hrun
    refine ⟨failed, hkind, hrun, ?_⟩
    rw [← hsame (by rw [hkind]; decide)]
    exact hwide

end StackScript
