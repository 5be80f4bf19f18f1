import StackScript.Proofs.CompilerCorrectness

/-!
# One script after another

Two scripts that compile may be written one after the other: the whole compiles to the two codes one
after the other, and running it is running the first and then, if that succeeds, the second.

* `compile_append` — a row that compiles never borrows a terminator from what follows it.
* `Instruction.reach`, `Code.JumpsInside` — no jump leads behind the end of the code, as it is with all
  compiled code (`Compiles.jumpsInside`).
* `nestedOutcome_within`, `nestedOutcome_of_within` — so code leads to its end, or fails, inside longer
  code exactly as it does by itself.
* `runInTurn` — running two codes one after the other.

Principal result: `scripts_compose`.  The host is arbitrary: its words may fail, enter the machine
again or go on forever.
-/

set_option autoImplicit false

namespace StackScript

variable {ν : Type}

/-! ## Compiling -/

/-- **Behind a row that compiles, compiling goes on as if nothing stood before.** -/
theorem compile_append {tokens : List Token} {code : Code} (h : Compiles tokens code)
    (more : List Token) : compile (tokens ++ more) = (compile more).map (code ++ ·) := by
  induction h with
  | nil => cases hm : compile more <;> simp [hm, Except.map]
  | plain hplain _ ih =>
    rw [List.cons_append, compile_plain hplain, ih]
    cases compile more <;> rfl
  | @definition colon name semicolon body after bodyCode code hcolon hname hsemicolon hlacks hbody
      _ _ ih =>
    have happend : colon :: name :: (body ++ semicolon :: after) ++ more =
        colon :: name :: (body ++ semicolon :: (after ++ more)) := by simp
    rw [happend, compile_definition hcolon hname hsemicolon hlacks (compile_of_compiles hbody), ih]
    cases compile more <;> rfl
  | @conditional opening middle closing whenTrue whenFalse after trueCode falseCode code hopening
      hmiddle hclosing hthen helse htrue hfalse _ _ _ ih =>
    have happend : opening :: (whenTrue ++ middle :: (whenFalse ++ closing :: after)) ++ more =
        opening :: (whenTrue ++ middle :: (whenFalse ++ closing :: (after ++ more))) := by simp
    rw [happend, compile_conditional hopening hmiddle hclosing hthen helse
      (compile_of_compiles htrue) (compile_of_compiles hfalse), ih]
    cases compile more with
    | error fault => rfl
    | ok rest => simp only [Except.map, List.append_assoc]

/-! ## Jumps -/

/-- How far an instruction may lead. -/
def Instruction.reach : Instruction → Nat
  | .jumpIfFalse _ offset => max 1 offset
  | .jump _ offset => offset
  | _ => 1

theorem Instruction.offset_le_reach {state after : State ν} {instruction : Instruction}
    {offset : Nat} (h : instruction.move? state = some (.ahead offset after)) :
    offset ≤ instruction.reach := by
  cases instruction with
  | primitive location operation =>
    simp only [move?, Option.some.injEq] at h
    cases he : operation.effect state with
    | done final => rw [he] at h; cases h; exact Nat.le_refl 1
    | failed fault final => rw [he] at h; cases h
  | push location value => cases h; exact Nat.le_refl 1
  | define location name body => cases h; exact Nat.le_refl 1
  | execute location name => cases h
  | jumpIfFalse location distance =>
    simp only [move?] at h
    split at h
    · cases h
    · cases h
      simp only [reach]
      split <;> omega
  | jump location distance => cases h; exact Nat.le_refl _

namespace Code

/-- No jump leads behind the end. -/
def JumpsInside : Code → Prop
  | [] => True
  | instruction :: rest => instruction.reach ≤ rest.length + 1 ∧ JumpsInside rest

theorem JumpsInside.append {more : Code} (hm : more.JumpsInside) :
    ∀ {code : Code}, code.JumpsInside → JumpsInside (code ++ more)
  | [], _ => hm
  | instruction :: code, h => by
    have hfirst := h.1
    have hlength : (code ++ more).length = code.length + more.length := List.length_append
    exact ⟨show instruction.reach ≤ (code ++ more).length + 1 by omega, hm.append h.2⟩

theorem JumpsInside.le {instruction : Instruction} :
    ∀ {code : Code} {position : Nat}, code.JumpsInside → code[position]? = some instruction →
      position + instruction.reach ≤ code.length
  | first :: code, 0, h, hi => by
    cases hi
    rw [List.length_cons, Nat.zero_add]
    exact h.1
  | first :: code, position + 1, h, hi => by
    have := JumpsInside.le h.2 hi
    rw [List.length_cons]
    omega

end Code

/-- **No jump of compiled code leads behind its end.** -/
theorem Compiles.jumpsInside {tokens : List Token} {code : Code} (h : Compiles tokens code) :
    code.JumpsInside := by
  induction h with
  | nil => trivial
  | @plain token rest code _ _ ih =>
    refine ⟨?_, ih⟩
    rcases token.instruction_cases with ⟨operation, -, he⟩ | ⟨value, he⟩ | he
    · rw [he]; exact Nat.le_add_left 1 _
    · rw [he]; exact Nat.le_add_left 1 _
    · rw [he]; exact Nat.le_add_left 1 _
  | definition _ _ _ _ _ _ _ ih => exact ⟨Nat.le_add_left 1 _, ih⟩
  | @conditional opening middle closing whenTrue whenFalse after trueCode falseCode code _ _ _ _ _ _ _
      _ ihtrue ihfalse ihafter =>
    have hjump : Code.JumpsInside
        (.jump (some middle.location) (falseCode.length + 1) :: falseCode) :=
      ⟨Nat.le_refl _, ihfalse⟩
    have htest : Code.JumpsInside
        (StackScript.conditional opening.location middle.location trueCode falseCode) := by
      refine ⟨?_, hjump.append ihtrue⟩
      show max 1 (trueCode.length + 2) ≤
        (trueCode ++ .jump (some middle.location) (falseCode.length + 1) :: falseCode).length + 1
      rw [List.length_append, List.length_cons]
      omega
    exact ihafter.append htest

/-! ## Code inside longer code -/

theorem codeAt_getElem? {full : Array Instruction} {instruction : Instruction} :
    ∀ {code : Code} {base position : Nat}, CodeAt full base code →
      code[position]? = some instruction → full[base + position]? = some instruction
  | first :: code, base, 0, hat, hi => by
    cases hi
    exact hat.1
  | first :: code, base, position + 1, hat, hi => by
    have := codeAt_getElem? hat.2 hi
    rwa [Nat.add_assoc, Nat.add_comm 1 position] at this

theorem nestedCall_answers {host : Host ν} {fuel : Nat} {location : Location} {name : String}
    {state : State ν} {outcome : Outcome ν}
    (h : nestedCall host fuel location name state = some outcome) :
    Answers (fun fuel => nestedCall host fuel location name state) outcome := by
  obtain ⟨enough, ha⟩ := (machineFollows host fuel).call location name state outcome h
  exact (nestedFollows host enough).call location name state outcome (ha enough (Nat.le_refl _))

section Within

variable {host : Host ν} {full : Array Instruction} {code : Code} {base depth : Nat}

/-- From `position` on, `full` leads to `target` where the outcome is a success, and fails likewise
where it is a failure. -/
def Outcome.LeadsIn (host : Host ν) (full : Array Instruction) (depth position : Nat)
    (state : State ν) (target : Nat) : Outcome ν → Prop
  | .done final => Reaches host full position state target final
  | .failed fault final =>
    Answers (fun fuel => nestedOutcome host depth fuel ⟨full, position, [], state⟩)
      (.failed fault final)

theorem Reaches.leadsIn {p q target : Nat} {a b : State ν} {outcome : Outcome ν}
    (h : Reaches host full p a q b) (ho : outcome.LeadsIn host full depth q b target) :
    outcome.LeadsIn host full depth p a target := by
  cases outcome with
  | done final => exact h.trans ho
  | failed fault final => exact h depth _ ho

/-- **Inside longer code, code leads to its end or fails as it does by itself.** -/
theorem nestedOutcome_within (hat : CodeAt full base code) (hjumps : code.JumpsInside) :
    ∀ (fuel position : Nat) (state : State ν) (outcome : Outcome ν), position ≤ code.length →
      nestedOutcome host depth fuel ⟨code.toArray, position, [], state⟩ = some outcome →
      outcome.LeadsIn host full depth (base + position) state (base + code.length) := by
  intro fuel
  induction fuel with
  | zero => intro position state outcome _ h; cases h
  | succ fuel ih =>
    intro position state outcome hle h
    cases hi : code[position]? with
    | none =>
      have hend : code.toArray[position]? = none := by simpa using hi
      have hlast : position = code.length := by
        have := List.getElem?_eq_none_iff.1 hi
        omega
      rw [nestedOutcome, nestedExec_of_end fuel rfl hend] at h
      cases h
      rw [hlast]
      exact fun _ _ ha => ha
    | some instruction =>
      have hown : code.toArray[position]? = some instruction := by simpa using hi
      have hfull := codeAt_getElem? hat hi
      have hreach := hjumps.le hi
      rcases instruction.execute_or_move (state.moveTo instruction.location) with
        ⟨location, name, rfl⟩ | ⟨move, hm⟩
      · rw [nestedOutcome, nestedExec_of_execute fuel hown] at h
        cases hcall : nestedCall host fuel (state.moveTo location).place name
            (state.moveTo location) with
        | none => simp only [hcall] at h; cases h
        | some called =>
          simp only [hcall] at h
          have hanswer := nestedCall_answers hcall
          cases called with
          | done next =>
            have hrest := ih (position + 1) next outcome hreach h
            have hfirst : Reaches host full (base + position) state (base + (position + 1)) next :=
              fun _ _ ha => nestedOutcome_of_call_done hfull hanswer ha
            exact hfirst.leadsIn hrest
          | failed fault next =>
            cases h
            exact nestedOutcome_of_call_failed hfull hanswer
      · rw [nestedOutcome, nestedExec_of_move fuel hown hm] at h
        cases move with
        | ahead offset next =>
          have hle' : position + offset ≤ code.length := by
            have := Instruction.offset_le_reach hm
            omega
          have hrest := ih (position + offset) next outcome hle' h
          have hfirst : Reaches host full (base + position) state (base + position + offset) next :=
            reaches_of_ahead hfull hm
          rw [Nat.add_assoc] at hfirst
          exact hfirst.leadsIn hrest
        | fault fault next =>
          cases h
          exact nestedOutcome_of_fault hfull hm

/-- Conversely, where longer code comes to an outcome, so does the code by itself, and if that is a
success the longer code goes on behind it. -/
theorem nestedOutcome_of_within (hat : CodeAt full base code) (hjumps : code.JumpsInside) :
    ∀ (fuel position : Nat) (state : State ν) (halt : Halt ν), position ≤ code.length →
      nestedExec host fuel ⟨full, base + position, [], state⟩ = some halt →
      ∃ own, Answers (fun fuel => nestedOutcome host depth fuel
          ⟨code.toArray, position, [], state⟩) own ∧
        ∀ middle, own = .done middle →
          ∃ rest, nestedExec host rest ⟨full, base + code.length, [], middle⟩ = some halt := by
  intro fuel
  induction fuel with
  | zero => intro position state halt _ h; cases h
  | succ fuel ih =>
    intro position state halt hle h
    cases hi : code[position]? with
    | none =>
      have hend : code.toArray[position]? = none := by simpa using hi
      have hlast : position = code.length := by
        have := List.getElem?_eq_none_iff.1 hi
        omega
      refine ⟨.done state, nestedOutcome_of_end rfl hend, ?_⟩
      rintro middle ⟨⟩
      exact ⟨fuel + 1, by rw [← hlast]; exact h⟩
    | some instruction =>
      have hown : code.toArray[position]? = some instruction := by simpa using hi
      have hfull := codeAt_getElem? hat hi
      have hreach := hjumps.le hi
      rcases instruction.execute_or_move (state.moveTo instruction.location) with
        ⟨location, name, rfl⟩ | ⟨move, hm⟩
      · rw [nestedExec_of_execute fuel hfull] at h
        cases hcall : nestedCall host fuel (state.moveTo location).place name
            (state.moveTo location) with
        | none => simp only [hcall] at h; cases h
        | some called =>
          simp only [hcall] at h
          have hanswer := nestedCall_answers hcall
          cases called with
          | done next =>
            obtain ⟨own, hrest, hon⟩ := ih (position + 1) next halt hreach h
            exact ⟨own, nestedOutcome_of_call_done hown hanswer hrest, hon⟩
          | failed fault next =>
            refine ⟨_, nestedOutcome_of_call_failed hown hanswer, ?_⟩
            rintro middle ⟨⟩
      · rw [nestedExec_of_move fuel hfull hm] at h
        cases move with
        | ahead offset next =>
          have hle' : position + offset ≤ code.length := by
            have := Instruction.offset_le_reach hm
            omega
          simp only [Config.goTo, Nat.add_assoc] at h
          obtain ⟨own, hrest, hon⟩ := ih (position + offset) next halt hle' h
          exact ⟨own, nestedOutcome_of_ahead hown hm hrest, hon⟩
        | fault fault next =>
          refine ⟨_, nestedOutcome_of_fault hown hm, ?_⟩
          rintro middle ⟨⟩

end Within

/-! ## Running -/

/-- Run one code and then, if that succeeds, another in the state it left. -/
def runInTurn (host : Host ν) (fuel : Nat) (first second : Code) (state : State ν) :
    Option (Outcome ν) :=
  match runCode host fuel first state with
  | some (.done middle) => runCode host fuel second middle
  | answer => answer

section Run

variable {host : Host ν} {first second : Code} {state : State ν} {outcome : Outcome ν}

theorem runCode_of_nestedOutcome {code : Code}
    (h : Answers (fun fuel => nestedOutcome host state.calls.depth fuel (Config.start code state))
      outcome) : Answers (fun fuel => runCode host fuel code state) outcome :=
  runCode_of_nestedRun (nestedRun_of_nestedOutcome h)

theorem nestedOutcome_of_runCode {code : Code}
    (h : Answers (fun fuel => runCode host fuel code state) outcome) :
    ∃ fuel, nestedOutcome host state.calls.depth fuel (Config.start code state) = some outcome := by
  obtain ⟨enough, ha⟩ := h
  obtain ⟨fuel, hf⟩ := nestedRun_of_runCode (ha enough (Nat.le_refl enough))
  exact ⟨fuel, hf (fuel + 1) (Nat.le_succ fuel)⟩

theorem runInTurn_of_failed {fault : Fault} {final : State ν}
    (h : Answers (fun fuel => runCode host fuel first state) (.failed fault final)) :
    Answers (fun fuel => runInTurn host fuel first second state) (.failed fault final) := by
  obtain ⟨enough, ha⟩ := h
  refine ⟨enough, fun fuel hf => ?_⟩
  simp only [runInTurn, ha fuel hf]

theorem runInTurn_of_done {middle : State ν}
    (h : Answers (fun fuel => runCode host fuel first state) (.done middle))
    (h' : Answers (fun fuel => runCode host fuel second middle) outcome) :
    Answers (fun fuel => runInTurn host fuel first second state) outcome := by
  refine h.both h' fun fuel h1 h2 => ?_
  simp only [runInTurn, h1, h2]

theorem codeAt_both (first second : Code) :
    CodeAt (first ++ second).toArray 0 first ∧
      CodeAt (first ++ second).toArray (0 + first.length) second :=
  codeAt_append.1 (codeAt_start (first ++ second))

theorem runCode_append_of_failed (hjumps : first.JumpsInside) (second : Code) {fault : Fault}
    {final : State ν}
    (h : Answers (fun fuel => runCode host fuel first state) (.failed fault final)) :
    Answers (fun fuel => runCode host fuel (first ++ second) state) (.failed fault final) := by
  obtain ⟨fuel, hf⟩ := nestedOutcome_of_runCode h
  exact runCode_of_nestedOutcome
    (nestedOutcome_within (codeAt_both first second).1 hjumps fuel 0 state _ (Nat.zero_le _) hf)

theorem runCode_append_of_done (hfirst : first.JumpsInside) (hsecond : second.JumpsInside)
    {middle : State ν} (h : Answers (fun fuel => runCode host fuel first state) (.done middle))
    (h' : Answers (fun fuel => runCode host fuel second middle) outcome) :
    Answers (fun fuel => runCode host fuel (first ++ second) state) outcome := by
  have hcalls : middle.calls = state.calls := by
    obtain ⟨enough, ha⟩ := h
    exact (runCode_balanced (ha enough (Nat.le_refl enough))).calls
  obtain ⟨hat, hat'⟩ := codeAt_both first second
  obtain ⟨fuel, hf⟩ := nestedOutcome_of_runCode h
  obtain ⟨fuel', hf'⟩ := nestedOutcome_of_runCode h'
  rw [hcalls] at hf'
  have hreach : Reaches host (first ++ second).toArray 0 state (0 + first.length) middle :=
    nestedOutcome_within hat hfirst fuel 0 state _ (Nat.zero_le _) hf
  have hrest := hreach.leadsIn
    (nestedOutcome_within hat' hsecond fuel' 0 middle outcome (Nat.zero_le _) hf')
  refine runCode_of_nestedOutcome ?_
  cases outcome with
  | failed fault final => exact hrest
  | done final =>
    -- behind the second code there is nothing left
    refine hrest _ _ (nestedOutcome_of_end rfl ?_)
    simp

/-- Where both codes come to an outcome as one, they come to one in turn. -/
theorem runInTurn_of_append (hfirst : first.JumpsInside) (hsecond : second.JumpsInside)
    (h : Answers (fun fuel => runCode host fuel (first ++ second) state) outcome) :
    Answers (fun fuel => runInTurn host fuel first second state) outcome := by
  obtain ⟨hat, hat'⟩ := codeAt_both first second
  obtain ⟨fuel, hf⟩ := nestedOutcome_of_runCode h
  obtain ⟨halt, hexec, -⟩ := Option.map_eq_some_iff.1 hf
  obtain ⟨own, hown, hon⟩ :=
    nestedOutcome_of_within hat hfirst fuel 0 state halt (Nat.zero_le _) hexec
  have hrun := runCode_of_nestedOutcome hown
  cases own with
  | failed fault final =>
    rw [h.unique (runCode_append_of_failed hfirst second hrun)]
    exact runInTurn_of_failed hrun
  | done middle =>
    obtain ⟨rest, hrest⟩ := hon middle rfl
    obtain ⟨other, hother, -⟩ :=
      nestedOutcome_of_within hat' hsecond rest 0 middle halt (Nat.zero_le _) hrest
    have hrun' := runCode_of_nestedOutcome hother
    rw [h.unique (runCode_append_of_done hfirst hsecond hrun hrun')]
    exact runInTurn_of_done hrun hrun'

/-- Where two codes come to an outcome in turn, they come to it as one. -/
theorem runCode_append_of_inTurn (hfirst : first.JumpsInside) (hsecond : second.JumpsInside)
    {fuel : Nat} (h : runInTurn host fuel first second state = some outcome) :
    Answers (fun fuel => runCode host fuel (first ++ second) state) outcome := by
  unfold runInTurn at h
  split at h
  · rename_i middle hrun
    exact runCode_append_of_done hfirst hsecond (runCode_answers hrun) (runCode_answers h)
  · rename_i hne
    cases outcome with
    | done final => exact absurd h (hne final)
    | failed fault final => exact runCode_append_of_failed hfirst second (runCode_answers h)

end Run

/-- **Scripts compose.**  Behind a row of tokens that compiles, a further row compiles as by itself, to
the same code or with the same fault.  If both compile then running the two codes as one and running
them in turn, the second only if the first succeeds, both go on forever or come to the same outcome, on
every host and in every state. -/
theorem scripts_compose {xs ys : List Token} {c : Code} (hc : compile xs = .ok c) :
    compile (xs ++ ys) = (compile ys).map (c ++ ·) ∧
    ∀ d, compile ys = .ok d → ∀ (host : Host ν) (state : State ν),
      Agree (fun fuel => runCode host fuel (c ++ d) state)
        (fun fuel => runInTurn host fuel c d state) := by
  refine ⟨compile_append (compiles_of_compile hc) ys, fun d hd host state => ?_⟩
  have hfirst := (compiles_of_compile hc).jumpsInside
  have hsecond := (compiles_of_compile hd).jumpsInside
  refine agree_of_answers ?_ ?_
  · intro fuel outcome h
    exact ⟨runCode_answers h, runInTurn_of_append hfirst hsecond (runCode_answers h)⟩
  · intro fuel outcome h
    exact runCode_append_of_inTurn hfirst hsecond h

/-- A conditional, and behind it the terminators that it might have been cut at. -/
theorem scripts_compose_terminators :
    ∃ xs ys c d, xs.map Token.text = [":", "f", "if", "a", "then", "b", "else", ";", "f"] ∧
      ys.map Token.text = ["else", "then", ";", "f"] ∧
      compile xs = .ok c ∧ compile ys = .ok d ∧ compile (xs ++ ys) = .ok (c ++ d) ∧
      Agree (fun fuel => runCode hostRoutine fuel (c ++ d)
          (State.initial HostWord.extended (.collecting "") 10))
        (fun fuel => runInTurn hostRoutine fuel c d
          (State.initial HostWord.extended (.collecting "") 10)) := by
  have hxs : ∃ c, compile ([":", "f", "if", "a", "then", "b", "else", ";", "f"].map
      (Token.mk Location.unspecified)) = .ok c := by
    simp [compile, splitAtText]
  have hys : ∃ d, compile (["else", "then", ";", "f"].map (Token.mk Location.unspecified)) =
      .ok d := by
    simp [compile]
  obtain ⟨c, hc⟩ := hxs
  obtain ⟨d, hd⟩ := hys
  obtain ⟨happend, hagree⟩ := scripts_compose hc
  refine ⟨_, _, c, d, by simp, by simp, hc, hd, ?_, hagree d hd hostRoutine _⟩
  rw [happend, hd]
  rfl

end StackScript
