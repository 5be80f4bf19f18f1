import Mathlib.Logic.ExistsUnique
import StackScript.Proofs.CallEffects
import StackScript.Proofs.Sequencing

/-!
# The jumps of compiled code

A conditional is two jumps: the test at its head leads behind the jump that ends the true branch, and
that jump leads behind the false branch.  In compiled code there are no other jumps, and conditionals
stand side by side.

* `Code.TestAt`, `Code.JumpAt`, `Code.ConditionalAt` — where the jumps are, and which belong together.
* `Code.JumpsPaired` — each jump has its partner inside the code, and no jump stands between the two or
  in the false branch.  Rows with this property may be written one after the other
  (`Code.JumpsPaired.append`), so compiled code has it (`Compiles.jumpsPaired`).
* `Code.Structured` — what follows from it: conditionals do not overlap, and no jump enters one.
* `Config.InBounds` — in a run, no position lies behind the end of its code, and compiled code is all
  that is run.

Principal result: `jumps_structured`.
-/

set_option autoImplicit false

namespace StackScript

namespace Code

/-! ## Where the jumps are -/

/-- A conditional jump over `offset` stands at `index`. -/
def TestAt (code : Code) (index offset : Nat) : Prop :=
  ∃ location, code[index]? = some (.jumpIfFalse location offset)

/-- A jump over `offset` that is not conditional stands at `index`. -/
def JumpAt (code : Code) (index offset : Nat) : Prop :=
  ∃ location, code[index]? = some (.jump location offset)

def LeapAt (code : Code) (index offset : Nat) : Prop :=
  code.TestAt index offset ∨ code.JumpAt index offset

/-- A test at `i` over `o`, and the jump over `k` just before the place that the test leads to.  The
conditional ends where that jump leads, at `i + o - 1 + k`. -/
structure ConditionalAt (code : Code) (i o k : Nat) : Prop where
  test : code.TestAt i o
  jump : code.JumpAt (i + o - 1) k

section Lookup

variable {code more : Code} {i o k : Nat}

theorem TestAt.lt (h : code.TestAt i o) : i < code.length := by
  obtain ⟨location, hi⟩ := h
  exact (List.getElem?_eq_some_iff.1 hi).1

theorem JumpAt.lt (h : code.JumpAt i k) : i < code.length := by
  obtain ⟨location, hi⟩ := h
  exact (List.getElem?_eq_some_iff.1 hi).1

theorem LeapAt.lt (h : code.LeapAt i o) : i < code.length := h.elim TestAt.lt JumpAt.lt

theorem TestAt.unique {o' : Nat} (h : code.TestAt i o) (h' : code.TestAt i o') : o = o' := by
  obtain ⟨location, hi⟩ := h
  obtain ⟨location', hi'⟩ := h'
  rw [hi] at hi'
  cases hi'
  rfl

theorem JumpAt.unique {k' : Nat} (h : code.JumpAt i k) (h' : code.JumpAt i k') : k = k' := by
  obtain ⟨location, hi⟩ := h
  obtain ⟨location', hi'⟩ := h'
  rw [hi] at hi'
  cases hi'
  rfl

theorem TestAt.not_jumpAt (h : code.TestAt i o) : ¬ code.JumpAt i k := by
  rintro ⟨location, hj⟩
  obtain ⟨location', hi⟩ := h
  rw [hi] at hj
  cases hj

theorem testAt_append_left (h : i < code.length) : TestAt (code ++ more) i o ↔ code.TestAt i o := by
  unfold TestAt
  rw [List.getElem?_append_left h]

theorem jumpAt_append_left (h : i < code.length) : JumpAt (code ++ more) i k ↔ code.JumpAt i k := by
  unfold JumpAt
  rw [List.getElem?_append_left h]

theorem testAt_append_right : TestAt (code ++ more) (code.length + i) o ↔ more.TestAt i o := by
  unfold TestAt
  rw [List.getElem?_append_right (Nat.le_add_right _ _), Nat.add_sub_cancel_left]

theorem jumpAt_append_right : JumpAt (code ++ more) (code.length + i) k ↔ more.JumpAt i k := by
  unfold JumpAt
  rw [List.getElem?_append_right (Nat.le_add_right _ _), Nat.add_sub_cancel_left]

theorem index_cases (code : Code) (i : Nat) : i < code.length ∨ ∃ i', i = code.length + i' := by
  by_cases h : i < code.length
  · exact Or.inl h
  · exact Or.inr ⟨i - code.length, by omega⟩

theorem leapAt_append_left (h : i < code.length) : LeapAt (code ++ more) i o ↔ code.LeapAt i o := by
  unfold LeapAt
  rw [testAt_append_left h, jumpAt_append_left h]

theorem leapAt_append_right : LeapAt (code ++ more) (code.length + i) o ↔ more.LeapAt i o := by
  unfold LeapAt
  rw [testAt_append_right, jumpAt_append_right]

theorem NeverJumps.not_leapAt (h : code.NeverJumps) : ¬ code.LeapAt i o := by
  rintro (⟨location, hi⟩ | ⟨location, hi⟩)
  · exact (h location o).1 (.here (List.mem_of_getElem? hi))
  · exact (h location o).2 (.here (List.mem_of_getElem? hi))

end Lookup

/-! ## Pairs of jumps -/

/-- Every jump belongs to a conditional that lies inside the code and holds no further jump: a test is
followed by its `partner`, the jump at the end of its true branch, and a jump has a test as `owner`. -/
structure JumpsPaired (code : Code) : Prop where
  partner : ∀ i o, code.TestAt i o → 2 ≤ o ∧ i + o ≤ code.length ∧
    ∃ k, code.JumpAt (i + o - 1) k ∧ 1 ≤ k ∧ i + o - 1 + k ≤ code.length
  owner : ∀ j k, code.JumpAt j k → ∃ i o, code.ConditionalAt i o k ∧ i + o - 1 = j
  alone : ∀ i o k, code.ConditionalAt i o k → ∀ j d, code.LeapAt j d → i ≤ j → j < i + o - 1 + k →
    j = i ∨ j = i + o - 1

namespace JumpsPaired

variable {code more : Code}

theorem of_not_leapAt (h : ∀ i o, ¬ code.LeapAt i o) : code.JumpsPaired where
  partner i o ht := absurd (Or.inl ht) (h i o)
  owner j k hj := absurd (Or.inr hj) (h j k)
  alone i o _ hc := absurd (Or.inl hc.test) (h i o)

theorem bounds (h : code.JumpsPaired) {i o k : Nat} (hc : code.ConditionalAt i o k) :
    2 ≤ o ∧ 1 ≤ k ∧ i + o - 1 + k ≤ code.length := by
  obtain ⟨ho, -, k', hj, hk, hend⟩ := h.partner i o hc.test
  obtain rfl := hc.jump.unique hj
  exact ⟨ho, hk, hend⟩

/-- A conditional of a row of two parts is one of either part. -/
theorem conditionalAt_append (h : code.JumpsPaired) (h' : more.JumpsPaired) {i o k : Nat} :
    ConditionalAt (code ++ more) i o k ↔
      code.ConditionalAt i o k ∨ ∃ i', i = code.length + i' ∧ more.ConditionalAt i' o k := by
  constructor
  · rintro ⟨ht, hj⟩
    rcases code.index_cases i with hi | ⟨i', rfl⟩
    · rw [testAt_append_left hi] at ht
      obtain ⟨ho, hend, -⟩ := h.partner i o ht
      rw [jumpAt_append_left (by omega)] at hj
      exact Or.inl ⟨ht, hj⟩
    · rw [testAt_append_right] at ht
      obtain ⟨ho, -⟩ := h'.partner i' o ht
      rw [show code.length + i' + o - 1 = code.length + (i' + o - 1) by omega,
        jumpAt_append_right] at hj
      exact Or.inr ⟨i', rfl, ht, hj⟩
  · rintro (hc | ⟨i', rfl, hc⟩)
    · exact ⟨(testAt_append_left hc.test.lt).2 hc.test, (jumpAt_append_left hc.jump.lt).2 hc.jump⟩
    · obtain ⟨ho, -⟩ := h'.bounds hc
      refine ⟨testAt_append_right.2 hc.test, ?_⟩
      rw [show code.length + i' + o - 1 = code.length + (i' + o - 1) by omega]
      exact jumpAt_append_right.2 hc.jump

/-- **Two rows of conditionals make one.** -/
theorem append (h : code.JumpsPaired) (h' : more.JumpsPaired) : JumpsPaired (code ++ more) where
  partner i o ht := by
    rcases code.index_cases i with hi | ⟨i', rfl⟩
    · rw [testAt_append_left hi] at ht
      obtain ⟨ho, hle, k, hj, hk, hend⟩ := h.partner i o ht
      rw [List.length_append]
      exact ⟨ho, by omega, k, (jumpAt_append_left hj.lt).2 hj, hk, by omega⟩
    · rw [testAt_append_right] at ht
      obtain ⟨ho, hle, k, hj, hk, hend⟩ := h'.partner i' o ht
      have hc := (h.conditionalAt_append h').2 (Or.inr ⟨i', rfl, ht, hj⟩)
      rw [List.length_append]
      exact ⟨ho, by omega, k, hc.jump, hk, by omega⟩
  owner j k hj := by
    rcases code.index_cases j with hlt | ⟨j', rfl⟩
    · rw [jumpAt_append_left hlt] at hj
      obtain ⟨i, o, hc, hij⟩ := h.owner j k hj
      exact ⟨i, o, (h.conditionalAt_append h').2 (Or.inl hc), hij⟩
    · rw [jumpAt_append_right] at hj
      obtain ⟨i, o, hc, hij⟩ := h'.owner j' k hj
      obtain ⟨ho, -⟩ := h'.bounds hc
      exact ⟨code.length + i, o, (h.conditionalAt_append h').2 (Or.inr ⟨i, rfl, hc⟩), by omega⟩
  alone i o k hc j d hleap hle hlt := by
    rcases (h.conditionalAt_append h').1 hc with hc | ⟨i', rfl, hc'⟩
    · obtain ⟨-, -, hend⟩ := h.bounds hc
      rw [leapAt_append_left (by omega)] at hleap
      exact h.alone i o k hc j d hleap hle hlt
    · obtain ⟨ho, -⟩ := h'.bounds hc'
      obtain ⟨j', rfl⟩ : ∃ j', j = code.length + j' := ⟨j - code.length, by omega⟩
      rw [leapAt_append_right] at hleap
      have := h'.alone i' o k hc' j' d hleap (by omega) (by omega)
      omega

/-- **A conditional whose branches hold no jump.** -/
theorem conditional {whenTrue whenFalse : Code} (ht : whenTrue.NeverJumps)
    (hf : whenFalse.NeverJumps) (l l' : Location) :
    JumpsPaired (StackScript.conditional l l' whenTrue whenFalse) := by
  have hlength : (StackScript.conditional l l' whenTrue whenFalse).length =
      whenTrue.length + whenFalse.length + 2 := by
    simp only [StackScript.conditional, List.cons_append, List.length_cons, List.length_append]
    omega
  have htest : TestAt (StackScript.conditional l l' whenTrue whenFalse) 0 (whenTrue.length + 2) :=
    ⟨some l, rfl⟩
  have hjump : JumpAt (StackScript.conditional l l' whenTrue whenFalse) (whenTrue.length + 1)
      (whenFalse.length + 1) := ⟨some l', by simp [StackScript.conditional]⟩
  -- any other place is one of a branch
  have hleap : ∀ i o, LeapAt (StackScript.conditional l l' whenTrue whenFalse) i o →
      i = 0 ∨ i = whenTrue.length + 1 := by
    intro i o h
    cases i with
    | zero => exact Or.inl rfl
    | succ i =>
      have h : LeapAt (whenTrue ++ .jump (some l') (whenFalse.length + 1) :: whenFalse) i o := h
      rcases whenTrue.index_cases i with hi | ⟨i', rfl⟩
      · rw [leapAt_append_left hi] at h
        exact absurd h ht.not_leapAt
      · rw [leapAt_append_right] at h
        cases i' with
        | zero => exact Or.inr rfl
        | succ i' => exact absurd h (@NeverJumps.not_leapAt whenFalse i' o hf)
  refine ⟨?_, ?_, ?_⟩
  · intro i o h
    rcases hleap i o (Or.inl h) with rfl | rfl
    · obtain rfl := h.unique htest
      exact ⟨by omega, by omega, _, by simpa using hjump, by omega, by omega⟩
    · exact absurd hjump h.not_jumpAt
  · intro j k h
    rcases hleap j k (Or.inr h) with rfl | rfl
    · exact absurd h htest.not_jumpAt
    · exact ⟨0, whenTrue.length + 2, ⟨htest, by simpa using h⟩, by omega⟩
  · intro i o k hc j d h _ _
    rcases hleap i o (Or.inl hc.test) with rfl | rfl
    · obtain rfl := hc.test.unique htest
      have := hleap j d h
      omega
    · exact absurd hjump hc.test.not_jumpAt

end JumpsPaired

/-! ## Structured code -/

/-- The jumps form conditionals side by side.  Each test leads behind a jump, its `partner`, which leads ahead,
neither of them behind the end, and each jump has exactly one test as `owner`.  A conditional holds no jump
but its own two, ends before another begins or the other way round, and no jump but the test at its head
leads between its first instruction and its end. -/
structure Structured (code : Code) : Prop where
  partner : ∀ i o, code.TestAt i o → 2 ≤ o ∧ i + o ≤ code.length ∧
    ∃ k, code.JumpAt (i + o - 1) k ∧ 1 ≤ k ∧ i + o - 1 + k ≤ code.length
  owner : ∀ j k, code.JumpAt j k → ∃! i, ∃ o, code.ConditionalAt i o k ∧ i + o - 1 = j
  alone : ∀ i o k, code.ConditionalAt i o k → ∀ j d, code.LeapAt j d → i ≤ j → j < i + o - 1 + k →
    j = i ∨ j = i + o - 1
  apart : ∀ i o k i' o' k', code.ConditionalAt i o k → code.ConditionalAt i' o' k' → i ≠ i' →
    i + o - 1 + k ≤ i' ∨ i' + o' - 1 + k' ≤ i
  uncrossed : ∀ i o k, code.ConditionalAt i o k → ∀ j d, code.LeapAt j d →
    j + d ≤ i ∨ i + o - 1 + k ≤ j + d ∨ j = i ∧ d = o

namespace JumpsPaired

variable {code : Code} {i o k i' o' k' : Nat}

/-- A conditional does not begin inside another. -/
theorem le_of_lt (h : code.JumpsPaired) (hc : code.ConditionalAt i o k)
    (hc' : code.ConditionalAt i' o' k') (hlt : i < i') : i + o - 1 + k ≤ i' := by
  refine Nat.le_of_not_lt fun hinside => ?_
  rcases h.alone i o k hc i' o' (Or.inl hc'.test) (Nat.le_of_lt hlt) hinside with he | he
  · omega
  · exact hc'.test.not_jumpAt (he ▸ hc.jump)

theorem apart (h : code.JumpsPaired) (hc : code.ConditionalAt i o k)
    (hc' : code.ConditionalAt i' o' k') (hne : i ≠ i') :
    i + o - 1 + k ≤ i' ∨ i' + o' - 1 + k' ≤ i :=
  (Nat.lt_or_gt_of_ne hne).imp (h.le_of_lt hc hc') (h.le_of_lt hc' hc)

/-- Every jump is the test or the jump of some conditional. -/
theorem conditional_of_leapAt (h : code.JumpsPaired) {j d : Nat} (hleap : code.LeapAt j d) :
    ∃ i o k, code.ConditionalAt i o k ∧ (j = i ∧ d = o ∨ j = i + o - 1 ∧ d = k) := by
  rcases hleap with ht | hj
  · obtain ⟨-, -, k, hj, -⟩ := h.partner j d ht
    exact ⟨j, d, k, ⟨ht, hj⟩, Or.inl ⟨rfl, rfl⟩⟩
  · obtain ⟨i, o, hc, rfl⟩ := h.owner j d hj
    exact ⟨i, o, d, hc, Or.inr ⟨rfl, rfl⟩⟩

theorem structured (h : code.JumpsPaired) : code.Structured where
  partner := h.partner
  owner j k hj := by
    obtain ⟨i, o, hc, hij⟩ := h.owner j k hj
    refine ⟨i, ⟨o, hc, hij⟩, ?_⟩
    rintro i' ⟨o', hc', hij'⟩
    by_cases he : i = i'
    · exact he.symm
    · have hb := h.bounds hc
      have hb' := h.bounds hc'
      have := h.apart hc hc' he
      omega
  alone := h.alone
  apart i o k i' o' k' hc hc' hne := h.apart hc hc' hne
  uncrossed i o k hc j d hleap := by
    obtain ⟨i', o', k', hc', hj⟩ := h.conditional_of_leapAt hleap
    have hb := h.bounds hc
    have hb' := h.bounds hc'
    by_cases he : i = i'
    · subst he
      obtain rfl := hc.test.unique hc'.test
      obtain rfl := hc.jump.unique hc'.jump
      omega
    · have := h.apart hc hc' he
      omega

end JumpsPaired

end Code

theorem Token.not_leapAt_instruction (token : Token) (i o : Nat) :
    ¬ Code.LeapAt [token.instruction] i o := by
  rintro (⟨location, hi⟩ | ⟨location, hi⟩)
  all_goals
    have hmem := List.mem_of_getElem? hi
    rcases token.instruction_cases with ⟨operation, -, he⟩ | ⟨value, he⟩ | he
    all_goals simp [he] at hmem

/-- **The jumps of compiled code come in pairs.** -/
theorem Compiles.jumpsPaired {tokens : List Token} {code : Code} (h : Compiles tokens code) :
    code.JumpsPaired := by
  induction h with
  | nil => exact .of_not_leapAt fun i o hleap => absurd hleap.lt (Nat.not_lt_zero i)
  | @plain token rest code _ _ ih =>
    exact (Code.JumpsPaired.of_not_leapAt token.not_leapAt_instruction).append ih
  | @definition colon name semicolon body after bodyCode code _ _ _ _ _ _ _ ih =>
    have hfirst : ∀ i o,
        ¬ Code.LeapAt [.define (some colon.location) name.text bodyCode] i o := by
      rintro i o (⟨location, hi⟩ | ⟨location, hi⟩)
      · simpa using List.mem_of_getElem? hi
      · simpa using List.mem_of_getElem? hi
    exact (Code.JumpsPaired.of_not_leapAt hfirst).append ih
  | @conditional opening middle closing whenTrue whenFalse after trueCode falseCode code _ _ _ hthen
      helse htrue hfalse _ _ _ ih =>
    have hbranches := Code.JumpsPaired.conditional (htrue.neverJumps (Or.inl hthen))
      (hfalse.neverJumps (Or.inr helse)) opening.location middle.location
    exact hbranches.append ih

/-! ## Runs -/

/-- The code at hand and that of every suspended caller is compiled, neither goes on behind its end, and
so it is with every word that may be called. -/
structure Config.InBounds (config : Config HostWord) : Prop where
  words : config.state.forest.EveryWord Word.Compiled
  compiled : ∃ tokens, Compiles tokens config.code.toList
  position : config.position ≤ config.code.size
  callers : ∀ frame ∈ config.callers,
    (∃ tokens, Compiles tokens frame.code.toList) ∧ frame.resume ≤ frame.code.size

namespace Config.InBounds

variable {config next : Config HostWord}

theorem start {tokens : List Token} {code : Code} {state : State HostWord}
    (hc : Compiles tokens code) (hwords : state.forest.EveryWord Word.Compiled) :
    (Config.start code state).InBounds where
  words := hwords
  compiled := ⟨tokens, hc⟩
  position := Nat.zero_le _
  callers frame hm := by cases hm

/-- No instruction leads behind the end of the code at hand. -/
theorem reach_le (h : config.InBounds) {instruction : Instruction}
    (hi : config.code[config.position]? = some instruction) :
    config.position + instruction.reach ≤ config.code.size := by
  obtain ⟨tokens, hc⟩ := h.compiled
  rw [← Array.getElem?_toList] at hi
  have hle := hc.jumpsInside.le hi
  rwa [Array.length_toList] at hle

/-- A word that is bound here is compiled in its turn. -/
theorem definition (h : config.InBounds) {location : Option Location} {name : String} {body : Code}
    (hi : config.code[config.position]? = some (.define location name body)) (place : Location) :
    Word.Compiled ⟨place, name, "", .scripted body⟩ := by
  obtain ⟨tokens, hc⟩ := h.compiled
  rw [← Array.getElem?_toList] at hi
  obtain ⟨row, -, hrow⟩ := hc.body_of_holds (.here (List.mem_of_getElem? hi))
  exact ⟨row, compile_of_compiles hrow⟩

/-- **From one head of the loop to the next.** -/
theorem passage (h : config.InBounds) (hp : config.Passage hostRoutine next) : next.InBounds := by
  have hwords : next.state.forest.EveryWord Word.Compiled := by
    refine hp.everyWord (fun word hw => hw.settles) ?_ h.words
    intro location name body hi place
    exact h.definition hi place
  cases hp with
  | @leave frame callers hi hc =>
    obtain ⟨hframe, hresume⟩ := h.callers frame (by rw [hc]; exact List.mem_cons_self)
    refine ⟨hwords, hframe, hresume, fun other hm => h.callers other ?_⟩
    rw [hc]
    exact List.mem_cons_of_mem frame hm
  | @move instruction offset state hi hm =>
    refine ⟨hwords, h.compiled, ?_, h.callers⟩
    have hreach := h.reach_le hi
    have hoffset := Instruction.offset_le_reach hm
    show config.position + offset ≤ config.code.size
    omega
  | @enter location name word body ho hb =>
    have hword : word.Compiled := h.words.lookup ho.lookup
    unfold Word.Compiled at hword
    rw [hb] at hword
    obtain ⟨tokens, hc⟩ := hword
    refine ⟨hwords, ⟨tokens, compiles_of_compile hc⟩, Nat.zero_le _, fun frame hm => ?_⟩
    rcases List.mem_cons.1 hm with rfl | hm
    · exact ⟨h.compiled, h.reach_le ho.instruction⟩
    · exact h.callers frame hm
  | native ho hb hp => exact ⟨hwords, h.compiled, h.reach_le ho.instruction, h.callers⟩

end Config.InBounds

theorem Path.inBounds {start config : Config HostWord} {heads : List (Config HostWord)}
    (h : Path hostRoutine start heads config) (hstart : start.InBounds) : config.InBounds := by
  induction h with
  | nil => exact hstart
  | snoc _ hg ih => exact ih.passage hg.passage

/-- **The jumps of compiled code are well structured.**  In the code of an accepted row, and in the body
of every word that it defines at any depth, the jumps form conditionals side by side: every test has its
jump and every jump its test, no conditional reaches into another, and no jump leads into one from
outside.  So at every head of a run, over words of the demonstration host and compiled ones, the position
in the code at hand is at most its length, and so is the position at which each suspended caller goes
on in its own. -/
theorem jumps_structured {tokens : List Token} {code : Code} (hc : compile tokens = .ok code) :
    (∀ body, code.IsBodyOf body → body.Structured) ∧
    ∀ state : State HostWord, state.forest.EveryWord Word.Compiled →
      ∀ heads config, Path hostRoutine (Config.start code state) heads config →
        config.position ≤ config.code.size ∧
          ∀ frame ∈ config.callers, frame.resume ≤ frame.code.size := by
  have h := compiles_of_compile hc
  refine ⟨?_, ?_⟩
  · rintro body (rfl | ⟨location, name, hd⟩)
    · exact h.jumpsPaired.structured
    · obtain ⟨row, -, hrow⟩ := h.body_of_holds hd
      exact hrow.jumpsPaired.structured
  · intro state hwords heads config hpath
    have hbounds := hpath.inBounds (.start h hwords)
    exact ⟨hbounds.position, fun frame hm => (hbounds.callers frame hm).2⟩

/-- The body of a word is two conditionals side by side, each with an empty branch.  The word is called
over the demonstration host with a value that does not count as true, so the first test leads to the
second one. -/
theorem jumps_structured_adjacent :
    ∃ (tokens : List Token) (code body : Code) (state : State HostWord)
      (heads : List (Config HostWord)) (config : Config HostWord),
      tokens.map Token.text = [":", "f", "if", "a", "then", "else", "if", "then", "b", "else", ";",
        "f"] ∧
      compile tokens = .ok code ∧ code.IsBodyOf body ∧
      body.ConditionalAt 0 3 1 ∧ body.ConditionalAt 3 2 2 ∧ body.Structured ∧
      state.forest.EveryWord Word.Compiled ∧
      Path hostRoutine (Config.start code state) heads config ∧
      config.code = body.toArray ∧ config.position = 3 ∧ config.callers.length = 1 ∧
      config.position ≤ config.code.size ∧
      ∀ frame ∈ config.callers, frame.resume ≤ frame.code.size := by
  let place := Location.unspecified
  let body : Code := conditional place place [.execute (some place) "a"] [] ++
    conditional place place [] [.execute (some place) "b"]
  let code : Code := [.define (some place) "f" body, .execute (some place) "f"]
  let state : State HostWord :=
    { State.initial HostWord.demonstration .closed 5 with stack := [.bool false] }
  let bound := (Config.start code state).advance
    ((state.moveTo (some place)).define 0 ⟨place, "f", "", .scripted body⟩)
  let called := bound.enter body (bound.opened (some place) "f")
  have hcall : ∀ name ∈ ["a", "b", "f"],
      (Token.mk place name).instruction = .execute (some place) name := by
    have hread : ∀ name ∈ ["a", "b", "f"], Primitive.ofName? name = none ∧
        Token.string? ⟨place, name⟩ = none ∧ Numeral.read? name = none := by decide
    exact fun name hm => Token.instruction_eq_execute (hread name hm)
  have hcompile : compile ([":", "f", "if", "a", "then", "else", "if", "then", "b", "else", ";",
      "f"].map (Token.mk place)) = .ok code := by
    simp [compile, splitAtText, hcall, code, body]
  have hpath : ∃ heads config, Path hostRoutine (Config.start code state) heads config ∧
      config.code = body.toArray ∧ config.position = 3 ∧ config.callers.length = 1 := by
    have hbind : (Config.start code state).Passage hostRoutine bound := .move rfl rfl
    have hopens : bound.Opens (some place) "f" ⟨place, "f", "", .scripted body⟩ :=
      ⟨rfl, by cbv, by decide⟩
    have henter : bound.Passage hostRoutine called := .enter hopens rfl
    refine ⟨_, _, .cons hbind.goes (.cons henter.goes (.cons (.step rfl) .nil)), ?_⟩
    exact ⟨rfl, rfl, rfl⟩
  obtain ⟨heads, config, hrun, hcode, hposition, hcallers⟩ := hpath
  obtain ⟨hstructured, hbounds⟩ := jumps_structured hcompile
  have hbody : code.IsBodyOf body := Or.inr ⟨_, _, .here List.mem_cons_self⟩
  have hwords : state.forest.EveryWord Word.Compiled :=
    State.initial_everyWord .closed 5 fun word hm => hm
  obtain ⟨hle, hframes⟩ := hbounds state hwords heads config hrun
  exact ⟨_, code, body, state, heads, config, by simp, hcompile, hbody, ⟨⟨_, rfl⟩, ⟨_, rfl⟩⟩,
    ⟨⟨_, rfl⟩, ⟨_, rfl⟩⟩, hstructured body hbody, hwords, hrun, hcode, hposition, hcallers, hle, hframes⟩

end StackScript
