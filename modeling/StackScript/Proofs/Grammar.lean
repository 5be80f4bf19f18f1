import StackScript.Proofs.Derivation

/-!
# The grammar of scripts

A terminator is found by its text alone, without regard to nesting, so little nests: the language
that `compile` accepts is flat.

* `Grammar.Definition`, `Grammar.Conditional` — `: name body ;` and `if T then F else`, whose pieces
  do not hold the terminator that ends them.
* `Grammar.Script` — what may stand where: a definition may hold conditionals and a conditional may
  hold definitions, but what is inside those is plain tokens only.
* `Grammar.Compilable` — being derived by the rules of `Compiles`, which nest without a bound.
* `Compilable.script`, `Script.compilable` — the two are the same; the first direction rests on a
  missing `;`, `then` or `else`, which rules a definition or a conditional out.
* `Compiles.neverDefines`, `Compiles.neverJumps` — the same for the code of such rows.
* Principal result: `compile_accepts_script`.
-/

set_option autoImplicit false

namespace StackScript

namespace Grammar

/-- A row that is put together from rows of one kind. -/
inductive Sequence (Part : List Token → Prop) : List Token → Prop where
  | nil : Sequence Part []
  | cons {part rest : List Token} (hp : Part part) (hr : Sequence Part rest) :
      Sequence Part (part ++ rest)

/-- One token that opens nothing. -/
def Plain (row : List Token) : Prop := ∃ token : Token, token.IsPlain ∧ row = [token]

/-- `: name body ;` -/
def Definition (Body : List Token → Prop) (row : List Token) : Prop :=
  ∃ colon name semicolon body, row = colon :: name :: (body ++ [semicolon]) ∧
    colon.text = ":" ∧ (name.text ≠ ";" ∧ name.text ≠ ":") ∧ semicolon.text = ";" ∧
    Lacks ";" body ∧ Body body

/-- `if T then F else` -/
def Conditional (Branch : List Token → Prop) (row : List Token) : Prop :=
  ∃ opening middle closing whenTrue whenFalse,
    row = opening :: (whenTrue ++ middle :: (whenFalse ++ [closing])) ∧
    opening.text = "if" ∧ middle.text = "then" ∧ closing.text = "else" ∧
    (Lacks "then" whenTrue ∧ Branch whenTrue) ∧ Lacks "else" whenFalse ∧ Branch whenFalse

/-- Plain tokens only. -/
def PlainRow : List Token → Prop := Sequence Plain

/-- The body of a definition outside conditionals. -/
def Body : List Token → Prop := Sequence fun row => Plain row ∨ Conditional PlainRow row

/-- A branch of a conditional outside definitions. -/
def Branch : List Token → Prop := Sequence fun row => Plain row ∨ Definition PlainRow row

/-- A whole script. -/
def Script : List Token → Prop :=
  Sequence fun row => Plain row ∨ Definition Body row ∨ Conditional Branch row

/-- The rules of compiling derive some code. -/
def Compilable (row : List Token) : Prop := ∃ code, Compiles row code

/-! ## Rows and their parts -/

theorem Definition.imp {P Q : List Token → Prop} {row : List Token} (h : Definition P row)
    (hb : ∀ body ⊆ row, Lacks ";" body → P body → Q body) : Definition Q row := by
  obtain ⟨colon, name, semicolon, body, rfl, hcolon, hname, hsemicolon, hlacks, hp⟩ := h
  refine ⟨colon, name, semicolon, body, rfl, hcolon, hname, hsemicolon, hlacks, hb body ?_ hlacks hp⟩
  intro t ht
  simp [ht]

theorem Conditional.imp {P Q : List Token → Prop} {row : List Token} (h : Conditional P row)
    (hb : ∀ branch ⊆ row, Lacks "then" branch ∨ Lacks "else" branch → P branch → Q branch) :
    Conditional Q row := by
  obtain ⟨opening, middle, closing, whenTrue, whenFalse, rfl, ho, hm, hc, ⟨hlt, ht⟩, hlf, hf⟩ := h
  refine ⟨opening, middle, closing, whenTrue, whenFalse, rfl, ho, hm, hc, ⟨hlt, ?_⟩, hlf, ?_⟩
  · refine hb whenTrue (fun t hmem => ?_) (Or.inl hlt) ht
    simp [hmem]
  · refine hb whenFalse (fun t hmem => ?_) (Or.inr hlf) hf
    simp [hmem]

/-- There is no definition without a `;`. -/
theorem Definition.not_lacks {P : List Token → Prop} {row : List Token} (h : Definition P row) :
    ¬ Lacks ";" row := by
  obtain ⟨colon, name, semicolon, body, rfl, -, -, hsemicolon, -⟩ := h
  intro hl
  exact hl semicolon (by simp) hsemicolon

/-- There is no conditional without a `then`, and none without an `else`. -/
theorem Conditional.not_lacks {P : List Token → Prop} {row : List Token} (h : Conditional P row) :
    ¬ (Lacks "then" row ∨ Lacks "else" row) := by
  obtain ⟨opening, middle, closing, whenTrue, whenFalse, rfl, -, hmiddle, hclosing, -⟩ := h
  rintro (hl | hl)
  · exact hl middle (by simp) hmiddle
  · exact hl closing (by simp) hclosing

theorem Sequence.imp {P Q : List Token → Prop} {row : List Token} (h : Sequence P row)
    (hp : ∀ part ⊆ row, P part → Q part) : Sequence Q row := by
  induction h with
  | nil => exact .nil
  | @cons part rest hpart _ ih =>
    refine .cons (hp part (List.subset_append_left _ _) hpart) (ih fun other hsub => ?_)
    exact hp other (List.Subset.trans hsub (List.subset_append_right part rest))

/-- **The rules of compiling as a grammar**: a sequence of plain tokens, definitions and conditionals
whose pieces are such sequences again. -/
theorem compilable_iff {row : List Token} :
    Compilable row ↔
      Sequence (fun part => Plain part ∨ Definition Compilable part ∨ Conditional Compilable part)
        row := by
  constructor
  · rintro ⟨code, h⟩
    induction h with
    | nil => exact .nil
    | @plain token rest code hplain _ ih =>
      have hpart : Plain [token] := ⟨token, hplain, rfl⟩
      exact .cons (Or.inl hpart) ih
    | @definition colon name semicolon body after bodyCode code hcolon hname hsemicolon hlacks hbody
        _ _ ih =>
      have hpart : Definition Compilable (colon :: name :: (body ++ [semicolon])) :=
        ⟨colon, name, semicolon, body, rfl, hcolon, hname, hsemicolon, hlacks, bodyCode, hbody⟩
      have h := Sequence.cons (Or.inr (Or.inl hpart)) ih
      simpa using h
    | @conditional opening middle closing whenTrue whenFalse after trueCode falseCode code hopening
        hmiddle hclosing hthen helse htrue hfalse _ _ _ ih =>
      have hpart : Conditional Compilable
          (opening :: (whenTrue ++ middle :: (whenFalse ++ [closing]))) :=
        ⟨opening, middle, closing, whenTrue, whenFalse, rfl, hopening, hmiddle, hclosing,
          ⟨hthen, trueCode, htrue⟩, helse, falseCode, hfalse⟩
      have h := Sequence.cons (Or.inr (Or.inr hpart)) ih
      simpa using h
  · intro h
    induction h with
    | nil => exact ⟨[], .nil⟩
    | @cons part rest hpart _ ih =>
      obtain ⟨code, hrest⟩ := ih
      rcases hpart with ⟨token, htoken, rfl⟩ | hpart | hpart
      · exact ⟨_, .plain htoken hrest⟩
      · obtain ⟨colon, name, semicolon, body, rfl, hcolon, hname, hsemicolon, hlacks, bodyCode, hbody⟩ :=
          hpart
        have h := Compiles.definition hcolon hname hsemicolon hlacks hbody hrest
        exact ⟨_, by simpa using h⟩
      · obtain ⟨opening, middle, closing, whenTrue, whenFalse, rfl, hopening, hmiddle, hclosing,
          ⟨hthen, trueCode, htrue⟩, helse, falseCode, hfalse⟩ := hpart
        have h := Compiles.conditional hopening hmiddle hclosing hthen helse htrue hfalse hrest
        exact ⟨_, by simpa using h⟩

/-! ## Little nests -/

theorem Compilable.plainRow {row : List Token} (h : Compilable row) (hd : Lacks ";" row)
    (hc : Lacks "then" row ∨ Lacks "else" row) : PlainRow row := by
  refine (compilable_iff.1 h).imp fun part hsub hpart => ?_
  rcases hpart with hp | hp | hp
  · exact hp
  · exact absurd (hd.mono hsub) hp.not_lacks
  · exact absurd (hc.imp (.mono hsub) (.mono hsub)) hp.not_lacks

/-- Without a `;` there are conditionals at most, and nothing in their branches. -/
theorem Compilable.body {row : List Token} (h : Compilable row) (hd : Lacks ";" row) : Body row := by
  refine (compilable_iff.1 h).imp fun part hsub hpart => ?_
  rcases hpart with hp | hp | hp
  · exact Or.inl hp
  · exact absurd (hd.mono hsub) hp.not_lacks
  · refine Or.inr (hp.imp fun branch hbranch hlacks hcompiles => ?_)
    exact Compilable.plainRow hcompiles (hd.mono (List.Subset.trans hbranch hsub)) hlacks

/-- Without a `then` or an `else` there are definitions at most, and nothing in their bodies. -/
theorem Compilable.branch {row : List Token} (h : Compilable row)
    (hc : Lacks "then" row ∨ Lacks "else" row) : Branch row := by
  refine (compilable_iff.1 h).imp fun part hsub hpart => ?_
  rcases hpart with hp | hp | hp
  · exact Or.inl hp
  · refine Or.inr (hp.imp fun body hbody hlacks hcompiles => ?_)
    have hsub' := List.Subset.trans hbody hsub
    exact Compilable.plainRow hcompiles hlacks (hc.imp (.mono hsub') (.mono hsub'))
  · exact absurd (hc.imp (.mono hsub) (.mono hsub)) hp.not_lacks

theorem Compilable.script {row : List Token} (h : Compilable row) : Script row := by
  refine (compilable_iff.1 h).imp fun part _ hpart => ?_
  rcases hpart with hp | hp | hp
  · exact Or.inl hp
  · exact Or.inr (Or.inl (hp.imp fun _ _ hlacks hbody => Compilable.body hbody hlacks))
  · exact Or.inr (Or.inr (hp.imp fun _ _ hlacks hbranch => Compilable.branch hbranch hlacks))

theorem PlainRow.compilable {row : List Token} (h : PlainRow row) : Compilable row :=
  compilable_iff.2 (h.imp fun _ _ => Or.inl)

theorem Body.compilable {row : List Token} (h : Body row) : Compilable row := by
  refine compilable_iff.2 (h.imp fun part _ hpart => ?_)
  exact hpart.imp_right fun hp => Or.inr (hp.imp fun _ _ _ => PlainRow.compilable)

theorem Branch.compilable {row : List Token} (h : Branch row) : Compilable row := by
  refine compilable_iff.2 (h.imp fun part _ hpart => ?_)
  exact hpart.imp_right fun hp => Or.inl (hp.imp fun _ _ _ => PlainRow.compilable)

theorem Script.compilable {row : List Token} (h : Script row) : Compilable row := by
  refine compilable_iff.2 (h.imp fun part _ hpart => ?_)
  refine hpart.imp_right (Or.imp (fun hp => ?_) fun hp => ?_)
  · exact hp.imp fun _ _ _ => Body.compilable
  · exact hp.imp fun _ _ _ => Branch.compilable

end Grammar

/-! ## The code of such rows -/

namespace Code

def NeverDefines (code : Code) : Prop :=
  ∀ location name body, ¬ Holds (.define location name body) code

/-- There is no jump in the code, nor in the body of a word that it defines. -/
def NeverJumps (code : Code) : Prop :=
  ∀ location offset, ¬ Holds (.jumpIfFalse location offset) code ∧
    ¬ Holds (.jump location offset) code

/-- The code itself, or the body of a word that is defined in it, at any depth. -/
def IsBodyOf (code body : Code) : Prop :=
  body = code ∨ ∃ location name, Holds (.define location name body) code

end Code

/-- Definitions need a `;`. -/
theorem Compiles.neverDefines {tokens : List Token} {code : Code} (h : Compiles tokens code)
    (hl : Lacks ";" tokens) : code.NeverDefines := by
  intro location name body
  induction h with
  | nil => exact Code.not_holds_nil
  | @plain token rest code _ _ ih =>
    have hrest := ih (hl.mono (List.subset_cons_self token rest))
    rcases token.instruction_cases with ⟨operation, -, he⟩ | ⟨value, he⟩ | he
    · simp [Code.holds_cons, he, hrest]
    · simp [Code.holds_cons, he, hrest]
    · simp [Code.holds_cons, he, hrest]
  | @definition colon name semicolon body after bodyCode code _ _ hsemicolon =>
    exact absurd hsemicolon (hl semicolon (by simp))
  | @conditional opening middle closing whenTrue whenFalse after trueCode falseCode code _ _ _ _ _ _
      _ _ ihtrue ihfalse ihafter =>
    have htrue := ihtrue (hl.mono fun t ht => by simp [ht])
    have hfalse := ihfalse (hl.mono fun t ht => by simp [ht])
    have hafter := ihafter (hl.mono fun t ht => by simp [ht])
    simp [StackScript.conditional, Code.holds_cons, Code.holds_append, htrue, hfalse, hafter]

/-- Conditionals need a `then` and an `else`. -/
theorem Compiles.neverJumps {tokens : List Token} {code : Code} (h : Compiles tokens code)
    (hl : Lacks "then" tokens ∨ Lacks "else" tokens) : code.NeverJumps := by
  intro location offset
  induction h with
  | nil => exact ⟨Code.not_holds_nil, Code.not_holds_nil⟩
  | @plain token rest code _ _ ih =>
    have hsub := List.subset_cons_self token rest
    have hrest := ih (hl.imp (.mono hsub) (.mono hsub))
    rcases token.instruction_cases with ⟨operation, -, he⟩ | ⟨value, he⟩ | he
    · simp [Code.holds_cons, he, hrest]
    · simp [Code.holds_cons, he, hrest]
    · simp [Code.holds_cons, he, hrest]
  | @definition colon name semicolon body after bodyCode code _ _ _ _ _ _ ihbody ihafter =>
    have hbody := ihbody (hl.imp (.mono fun t ht => by simp [ht]) (.mono fun t ht => by simp [ht]))
    have hafter := ihafter (hl.imp (.mono fun t ht => by simp [ht]) (.mono fun t ht => by simp [ht]))
    simp [Code.holds_cons, hbody, hafter]
  | @conditional opening middle closing whenTrue whenFalse after trueCode falseCode code _ hmiddle
      hclosing =>
    rcases hl with hl | hl
    · exact absurd hmiddle (hl middle (by simp))
    · exact absurd hclosing (hl closing (by simp))

/-- **The body of every defined word is compiled from a row without a `;`.** -/
theorem Compiles.body_of_holds {tokens : List Token} {code body : Code}
    {location : Option Location} {name : String} (h : Compiles tokens code)
    (hd : Code.Holds (.define location name body) code) :
    ∃ row, Lacks ";" row ∧ Compiles row body := by
  induction h with
  | nil => exact absurd hd Code.not_holds_nil
  | @plain token rest code _ _ ih =>
    rcases Code.holds_cons.1 hd with hd | hd
    · rcases token.instruction_cases with ⟨operation, -, he⟩ | ⟨value, he⟩ | he
      · simp [he] at hd
      · simp [he] at hd
      · simp [he] at hd
    · exact ih hd
  | @definition colon name semicolon row after bodyCode code _ _ _ hlacks hrow _ ihbody ihafter =>
    rcases Code.holds_cons.1 hd with (he | ⟨_, _, _, he, hd⟩) | hd
    · cases he
      exact ⟨row, hlacks, hrow⟩
    · cases he
      exact ihbody hd
    · exact ihafter hd
  | conditional _ _ _ _ _ _ _ _ ihtrue ihfalse ihafter =>
    simp only [StackScript.conditional, Code.holds_append, List.cons_append, Code.holds_cons,
      reduceCtorEq, false_and, exists_false, or_false, false_or] at hd
    rcases hd with (hd | hd) | hd
    · exact ihtrue hd
    · exact ihfalse hd
    · exact ihafter hd

/-- The offsets of a conditional tell where its branches end. -/
theorem conditional_append_inj {l l' m m' : Location} {whenTrue whenFalse rest : Code}
    {otherTrue otherFalse otherRest : Code}
    (h : conditional l l' whenTrue whenFalse ++ rest =
      conditional m m' otherTrue otherFalse ++ otherRest) :
    whenTrue = otherTrue ∧ whenFalse = otherFalse ∧ rest = otherRest := by
  simp only [conditional, List.cons_append, List.append_assoc, List.cons.injEq,
    Instruction.jumpIfFalse.injEq] at h
  obtain ⟨⟨-, hlen⟩, htail⟩ := h
  obtain ⟨htrue, hjump⟩ := List.append_inj htail (by omega)
  simp only [List.cons.injEq, Instruction.jump.injEq] at hjump
  obtain ⟨⟨-, hlen'⟩, htail'⟩ := hjump
  obtain ⟨hfalse, hrest⟩ := List.append_inj htail' (by omega)
  exact ⟨htrue, hfalse, hrest⟩

/-- An instruction that a row does not hold stands behind it. -/
theorem exists_of_append_eq_append_cons {middle rest before after : Code} {x : Instruction}
    (h : middle ++ rest = before ++ x :: after) (hx : x ∉ middle) :
    ∃ before', rest = before' ++ x :: after := by
  rcases List.append_eq_append_iff.1 h with ⟨before', -, he⟩ | ⟨behind, hm, he⟩
  · exact ⟨before', he⟩
  · cases behind with
    | nil => exact ⟨[], he.symm⟩
    | cons y behind =>
      cases he
      exact absurd (by rw [hm]; simp) hx

/-- **The branches of every conditional are compiled from rows without their terminator.** -/
theorem Compiles.branches {tokens : List Token} {code : Code} (h : Compiles tokens code) :
    ∀ {before after whenTrue whenFalse : Code} {l l' : Location},
      code = before ++ (StackScript.conditional l l' whenTrue whenFalse ++ after) →
      (∃ row, Lacks "then" row ∧ Compiles row whenTrue) ∧
        ∃ row, Lacks "else" row ∧ Compiles row whenFalse := by
  induction h with
  | nil =>
    intro before after whenTrue whenFalse l l' he
    simp [StackScript.conditional] at he
  | @plain token rest code _ _ ih =>
    intro before after whenTrue whenFalse l l' he
    cases before with
    | nil =>
      have hhead : token.instruction = .jumpIfFalse (some l) (whenTrue.length + 2) :=
        (List.cons.inj he).1
      rcases token.instruction_cases with ⟨operation, -, hi⟩ | ⟨value, hi⟩ | hi
      · rw [hi] at hhead; cases hhead
      · rw [hi] at hhead; cases hhead
      · rw [hi] at hhead; cases hhead
    | cons first before => exact ih (List.cons.inj he).2
  | definition _ _ _ _ _ _ _ ih =>
    intro before after whenTrue whenFalse l l' he
    cases before with
    | nil => cases (List.cons.inj he).1
    | cons first before => exact ih (List.cons.inj he).2
  | @conditional opening middle closing rowTrue rowFalse rowAfter trueCode falseCode code _ _ _ hthen
      helse htrue hfalse _ _ _ ih =>
    intro before after whenTrue whenFalse l l' he
    cases before with
    | nil =>
      obtain ⟨rfl, rfl, -⟩ := conditional_append_inj he
      exact ⟨⟨rowTrue, hthen, htrue⟩, rowFalse, helse, hfalse⟩
    | cons first before =>
      -- the branches of this conditional hold no jump, so the other one starts behind it
      have htail := (List.cons.inj he).2
      have hnone : ∀ offset, Instruction.jumpIfFalse (some l) offset ∉
          trueCode ++ .jump (some middle.location) (falseCode.length + 1) :: falseCode := by
        intro offset hmem
        rcases List.mem_append.1 hmem with hmem | hmem
        · exact (htrue.neverJumps (Or.inl hthen) _ _).1 (.here hmem)
        · rcases List.mem_cons.1 hmem with hmem | hmem
          · cases hmem
          · exact (hfalse.neverJumps (Or.inr helse) _ _).1 (.here hmem)
      obtain ⟨before', hcode⟩ := exists_of_append_eq_append_cons htail (hnone _)
      exact ih hcode

/-- **The compiler accepts exactly the flat grammar.**  In the code of an accepted row no definition
stands in the body of another, and no jump in a branch of a conditional, at any depth.  Any other row
has a fault of compiling at one of its tokens. -/
theorem compile_accepts_script (tokens : List Token) :
    ((∃ code, compile tokens = .ok code) ↔ Grammar.Script tokens) ∧
    (∀ code, compile tokens = .ok code →
      (∀ location name (body : Code), Code.Holds (.define location name body) code →
        body.NeverDefines) ∧
      (∀ body, code.IsBodyOf body → ∀ before after whenTrue whenFalse l l',
        body = before ++ (conditional l l' whenTrue whenFalse ++ after) →
        whenTrue.NeverJumps ∧ whenFalse.NeverJumps)) ∧
    (¬ Grammar.Script tokens → ∃ fault, compile tokens = .error fault ∧ fault.AtTokenOf tokens) := by
  have haccepts : (∃ code, compile tokens = .ok code) ↔ Grammar.Script tokens := by
    simp only [compile_eq_ok_iff]
    exact ⟨Grammar.Compilable.script, Grammar.Script.compilable⟩
  refine ⟨haccepts, ?_, ?_⟩
  · intro code hc
    have h := compiles_of_compile hc
    refine ⟨?_, ?_⟩
    · intro location name body hd
      obtain ⟨row, hlacks, hrow⟩ := h.body_of_holds hd
      exact hrow.neverDefines hlacks
    · intro body hbody before after whenTrue whenFalse l l' he
      have hcompiled : ∃ row, Compiles row body := by
        rcases hbody with rfl | ⟨location, name, hd⟩
        · exact ⟨tokens, h⟩
        · obtain ⟨row, -, hrow⟩ := h.body_of_holds hd
          exact ⟨row, hrow⟩
      obtain ⟨row, hrow⟩ := hcompiled
      obtain ⟨⟨rowTrue, hthen, htrue⟩, rowFalse, helse, hfalse⟩ := hrow.branches he
      exact ⟨htrue.neverJumps (Or.inl hthen), hfalse.neverJumps (Or.inr helse)⟩
  · intro hn
    cases hc : compile tokens with
    | ok code => exact absurd (haccepts.1 ⟨code, hc⟩) hn
    | error fault => exact ⟨fault, rfl, compile_error hc⟩

/-- A definition that holds a conditional, then a conditional that holds a definition. -/
theorem compile_accepts_script_mixed :
    Grammar.Script ([":", "f", "if", "a", "then", "b", "else", ";", "if", ":", "g", "c", ";", "then",
      "d", "else"].map (Token.mk Location.unspecified)) := by
  refine (compile_accepts_script _).1.1 ?_
  simp [compile, splitAtText]

end StackScript
