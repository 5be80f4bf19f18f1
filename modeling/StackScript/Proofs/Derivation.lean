import StackScript.Program

/-!
# Derivations of code

`compile` cuts a row of tokens at the first terminator that it finds and goes on in the pieces.  Seen
from its results it follows four rules, and the rules know nothing of the search:

* `Compiles` — the rules: nothing, a token that opens nothing, a definition, a conditional.
* `compile_plain`, `compile_missingName`, `compile_forbiddenName`, `compile_colon`, `compile_if` — one
  equation for each way a row may begin.
* `compile_eq_ok_iff` — code is compiled from tokens exactly if the rules derive it.
* `compile_error` — where no rule applies the fault is one of compiling, and it stands at one of the
  tokens.
* `Code.Holds` — the instructions of some code, those of the words it defines included.
* `Compiles.neverIdles` — no jump of compiled code leads to itself.
* `Compiles.comesFrom` — every instruction comes from one of the tokens; `Compiles.pushed`,
  `Compiles.bound` — what is pushed and what is bound.

Proofs about compiled code go by induction on its derivation.
-/

set_option autoImplicit false

namespace StackScript

/-- The token opens neither a definition nor a conditional. -/
def Token.IsPlain (token : Token) : Prop := token.text ≠ ":" ∧ token.text ≠ "if"

def Lacks (text : String) (row : List Token) : Prop := ∀ t ∈ row, t.text ≠ text

theorem Lacks.mono {text : String} {part row : List Token} (h : part ⊆ row) (hl : Lacks text row) :
    Lacks text part := fun t ht => hl t (h ht)

/-- The code that a row of tokens has.  A definition reaches to the first `;` after its name, a conditional to
the first `else` after its first `then`, and any other token is one instruction. -/
inductive Compiles : List Token → Code → Prop where
  | nil : Compiles [] []
  | plain {token : Token} {rest : List Token} {code : Code} (hplain : token.IsPlain)
      (hrest : Compiles rest code) :
      Compiles (token :: rest) (token.instruction :: code)
  | definition {colon name semicolon : Token} {body after : List Token} {bodyCode code : Code}
      (hcolon : colon.text = ":") (hname : name.text ≠ ";" ∧ name.text ≠ ":")
      (hsemicolon : semicolon.text = ";") (hlacks : Lacks ";" body)
      (hbody : Compiles body bodyCode) (hafter : Compiles after code) :
      Compiles (colon :: name :: (body ++ semicolon :: after))
        (.define (some colon.location) name.text bodyCode :: code)
  | conditional {opening middle closing : Token} {whenTrue whenFalse after : List Token}
      {trueCode falseCode code : Code} (hopening : opening.text = "if")
      (hmiddle : middle.text = "then") (hclosing : closing.text = "else")
      (hthen : Lacks "then" whenTrue) (helse : Lacks "else" whenFalse)
      (htrue : Compiles whenTrue trueCode) (hfalse : Compiles whenFalse falseCode)
      (hafter : Compiles after code) :
      Compiles (opening :: (whenTrue ++ middle :: (whenFalse ++ closing :: after)))
        (conditional opening.location middle.location trueCode falseCode ++ code)

/-! ## The rules and the function -/

theorem splitAtText_append {text : String} {found : Token} (hf : found.text = text)
    (after : List Token) :
    ∀ before : List Token, Lacks text before →
      splitAtText text (before ++ found :: after) = some (before, found, after)
  | [], _ => by rw [List.nil_append, splitAtText, if_pos hf]
  | token :: before, hb => by
    have ih := splitAtText_append hf after before fun t ht => hb t (List.mem_cons_of_mem _ ht)
    rw [List.cons_append, splitAtText, if_neg (hb token List.mem_cons_self), ih]
    rfl

theorem compile_plain {token : Token} (hplain : token.IsPlain) (rest : List Token) :
    compile (token :: rest) = (compile rest).map (token.instruction :: ·) := by
  rw [compile.eq_def]
  simp only [if_neg hplain.1, if_neg hplain.2]
  cases compile rest <;> rfl

theorem compile_missingName {colon : Token} (hcolon : colon.text = ":") :
    compile [colon] = .error (Fault.inSource .missingName colon.location) := by
  rw [compile.eq_def]
  simp only [if_pos hcolon]

theorem compile_forbiddenName {colon name : Token} (hcolon : colon.text = ":")
    (hname : name.text = ";" ∨ name.text = ":") (rest : List Token) :
    compile (colon :: name :: rest) =
      .error (Fault.inSource (.forbiddenName name.text) name.location) := by
  rw [compile.eq_def]
  simp only [if_pos hcolon, if_pos hname]

/-- How a definition is compiled, whether or not it is complete. -/
theorem compile_colon {colon name : Token} (hcolon : colon.text = ":")
    (hname : ¬ (name.text = ";" ∨ name.text = ":")) (rest : List Token) :
    compile (colon :: name :: rest) =
      match splitAtText ";" rest with
      | none => .error (Fault.inSource (.missingSemicolon name.text) name.location)
      | some (body, _, after) => (compile body).bind fun bodyCode =>
          (compile after).map (.define (some colon.location) name.text bodyCode :: ·) := by
  rw [compile.eq_def]
  simp only [if_pos hcolon, if_neg hname]
  cases hs : splitAtText ";" rest with
  | none => rfl
  | some cut =>
    obtain ⟨body, semicolon, after⟩ := cut
    dsimp only
    cases compile body with
    | error fault => rfl
    | ok bodyCode => cases compile after <;> rfl

/-- How a conditional is compiled, whether or not it is complete. -/
theorem compile_if {opening : Token} (hopening : opening.text = "if") (rest : List Token) :
    compile (opening :: rest) =
      match splitAtText "then" rest with
      | none => .error (Fault.inSource .missingThen opening.location)
      | some (whenTrue, middle, rest') => (compile whenTrue).bind fun trueCode =>
          match splitAtText "else" rest' with
          | none => .error (Fault.inSource .missingElse middle.location)
          | some (whenFalse, _, after) => (compile whenFalse).bind fun falseCode =>
              (compile after).map
                (conditional opening.location middle.location trueCode falseCode ++ ·) := by
  have hne : opening.text ≠ ":" := by rw [hopening]; decide
  rw [compile.eq_def]
  simp only [if_neg hne, if_pos hopening]
  cases hs : splitAtText "then" rest with
  | none => rfl
  | some cut =>
    obtain ⟨whenTrue, middle, rest'⟩ := cut
    dsimp only
    cases compile whenTrue with
    | error fault => rfl
    | ok trueCode =>
      simp only [Except.bind]
      cases hs' : splitAtText "else" rest' with
      | none => rfl
      | some cut' =>
        obtain ⟨whenFalse, closing, after⟩ := cut'
        dsimp only
        cases compile whenFalse with
        | error fault => rfl
        | ok falseCode => cases compile after <;> rfl

/-- A definition is compiled by itself, once its body is known to compile. -/
theorem compile_definition {colon name semicolon : Token} {body : List Token} {bodyCode : Code}
    (hcolon : colon.text = ":") (hname : name.text ≠ ";" ∧ name.text ≠ ":")
    (hsemicolon : semicolon.text = ";") (hlacks : Lacks ";" body)
    (hbody : compile body = .ok bodyCode) (after : List Token) :
    compile (colon :: name :: (body ++ semicolon :: after)) =
      (compile after).map (.define (some colon.location) name.text bodyCode :: ·) := by
  rw [compile_colon hcolon (not_or.2 hname), splitAtText_append hsemicolon after body hlacks]
  simp only [hbody, Except.bind]

/-- A conditional is compiled by itself, once its branches are known to compile. -/
theorem compile_conditional {opening middle closing : Token} {whenTrue whenFalse : List Token}
    {trueCode falseCode : Code} (hopening : opening.text = "if") (hmiddle : middle.text = "then")
    (hclosing : closing.text = "else") (hthen : Lacks "then" whenTrue)
    (helse : Lacks "else" whenFalse) (htrue : compile whenTrue = .ok trueCode)
    (hfalse : compile whenFalse = .ok falseCode) (after : List Token) :
    compile (opening :: (whenTrue ++ middle :: (whenFalse ++ closing :: after))) =
      (compile after).map
        (conditional opening.location middle.location trueCode falseCode ++ ·) := by
  have hcut := splitAtText_append hmiddle (whenFalse ++ closing :: after) whenTrue hthen
  have hcut' := splitAtText_append hclosing after whenFalse helse
  rw [compile_if hopening, hcut]
  simp only [htrue, hcut', hfalse, Except.bind]

theorem compile_of_compiles {tokens : List Token} {code : Code} (h : Compiles tokens code) :
    compile tokens = .ok code := by
  induction h with
  | nil => rw [compile]
  | plain hplain _ ih => rw [compile_plain hplain, ih]; rfl
  | definition hcolon hname hsemicolon hlacks _ _ ihbody ihafter =>
    rw [compile_definition hcolon hname hsemicolon hlacks ihbody, ihafter]; rfl
  | conditional hopening hmiddle hclosing hthen helse _ _ _ ihtrue ihfalse ihafter =>
    rw [compile_conditional hopening hmiddle hclosing hthen helse ihtrue ihfalse, ihafter]; rfl

theorem compiles_of_compile {tokens : List Token} {code : Code} (h : compile tokens = .ok code) :
    Compiles tokens code := by
  fun_induction compile tokens generalizing code with
  | case1 => cases h; exact .nil
  | case7 colon hcolon name rest hname body semicolon after hcut _ _ _ _ _ ihbody ihafter =>
    cases h
    obtain ⟨rfl, hsemicolon, hlacks⟩ := eq_of_splitAtText hcut
    refine .definition hcolon (not_or.1 hname) hsemicolon hlacks (ihbody ?_) (ihafter ?_)
    · assumption
    · assumption
  | case13 opening rest _ hopening whenTrue middle rest' hcut _ _ _ whenFalse closing after hcut'
      _ _ _ _ _ ihtrue ihfalse ihafter =>
    cases h
    obtain ⟨rfl, hmiddle, hthen⟩ := eq_of_splitAtText hcut
    obtain ⟨rfl, hclosing, helse⟩ := eq_of_splitAtText hcut'
    refine .conditional hopening hmiddle hclosing hthen helse (ihtrue ?_) (ihfalse ?_) (ihafter ?_)
    · assumption
    · assumption
    · assumption
  | case15 token rest hcolon hif code _ ih =>
    cases h
    refine .plain ⟨hcolon, hif⟩ (ih ?_)
    assumption
  | _ => cases h

/-- **Code is compiled from tokens exactly if the rules derive it.** -/
theorem compile_eq_ok_iff {tokens : List Token} {code : Code} :
    compile tokens = .ok code ↔ Compiles tokens code :=
  ⟨compiles_of_compile, compile_of_compiles⟩

theorem Program.compile_eq_ok_iff {path source : String} {program : Program} :
    Program.compile path source = .ok program ↔ program.name = path ∧
      ∃ tokens, Token.scan path source = .ok tokens ∧ Compiles tokens program.code := by
  unfold Program.compile compileSource
  constructor
  · intro h
    cases hs : Token.scan path source with
    | error fault => simp only [hs] at h; cases h
    | ok tokens =>
      simp only [hs] at h
      cases hc : StackScript.compile tokens with
      | error fault => simp only [hc] at h; cases h
      | ok code =>
        simp only [hc] at h
        cases h
        exact ⟨rfl, tokens, rfl, compiles_of_compile hc⟩
  · rintro ⟨rfl, tokens, hs, hc⟩
    simp only [hs, compile_of_compiles hc]

/-! ## Phrases -/

/-- What a row of tokens may begin with: a token that opens nothing, a definition `: name body ;`, or a
conditional `if T then F else`. -/
inductive Phrase where
  | plain (token : Token)
  | definition (colon name : Token) (body : List Token) (semicolon : Token)
  | conditional (opening : Token) (whenTrue : List Token) (middle : Token) (whenFalse : List Token)
      (closing : Token)

namespace Phrase

def tokens : Phrase → List Token
  | .plain token => [token]
  | .definition colon name body semicolon => colon :: name :: (body ++ [semicolon])
  | .conditional opening whenTrue middle whenFalse closing =>
    opening :: (whenTrue ++ middle :: (whenFalse ++ [closing]))

/-- The phrase opens as its kind does, and ends at the first terminator. -/
def Cut : Phrase → Prop
  | .plain token => token.IsPlain
  | .definition colon name body semicolon =>
    colon.text = ":" ∧ (name.text ≠ ";" ∧ name.text ≠ ":") ∧ semicolon.text = ";" ∧ Lacks ";" body
  | .conditional opening whenTrue middle whenFalse closing =>
    opening.text = "if" ∧ middle.text = "then" ∧ closing.text = "else" ∧
      Lacks "then" whenTrue ∧ Lacks "else" whenFalse

def HasCode : Phrase → Code → Prop
  | .plain token, code => code = [token.instruction]
  | .definition colon name body _, code =>
    ∃ bodyCode, Compiles body bodyCode ∧ code = [.define (some colon.location) name.text bodyCode]
  | .conditional opening whenTrue middle whenFalse _, code =>
    ∃ trueCode falseCode, Compiles whenTrue trueCode ∧ Compiles whenFalse falseCode ∧
      code = StackScript.conditional opening.location middle.location trueCode falseCode

end Phrase

/-- There is one way to cut a row at the first token with some text. -/
theorem cut_unique {text : String} {before before' after after' : List Token} {found found' : Token}
    (h : before ++ found :: after = before' ++ found' :: after') (hf : found.text = text)
    (hf' : found'.text = text) (hl : Lacks text before) (hl' : Lacks text before') :
    before = before' ∧ found = found' ∧ after = after' := by
  have hcut := splitAtText_append hf after before hl
  rw [h, splitAtText_append hf' after' before' hl'] at hcut
  cases hcut
  exact ⟨rfl, rfl, rfl⟩

/-- A compiled row is empty or begins with a phrase. -/
theorem Compiles.eq_nil_or_phrase {tokens : List Token} {code : Code} (h : Compiles tokens code) :
    (tokens = [] ∧ code = []) ∨ ∃ (phrase : Phrase) (rest : List Token) (first more : Code),
      phrase.Cut ∧ tokens = phrase.tokens ++ rest ∧ phrase.HasCode first ∧ Compiles rest more ∧
      code = first ++ more := by
  cases h with
  | nil => exact Or.inl ⟨rfl, rfl⟩
  | @plain token rest code hplain hrest =>
    exact Or.inr ⟨.plain token, rest, _, code, hplain, rfl, rfl, hrest, rfl⟩
  | @definition colon name semicolon body after bodyCode code hcolon hname hsemicolon hlacks hbody
      hafter =>
    refine Or.inr ⟨.definition colon name body semicolon, after, _, code,
      ⟨hcolon, hname, hsemicolon, hlacks⟩, ?_, ⟨bodyCode, hbody, rfl⟩, hafter, rfl⟩
    simp [Phrase.tokens]
  | @conditional opening middle closing whenTrue whenFalse after trueCode falseCode code hopening
      hmiddle hclosing hthen helse htrue hfalse hafter =>
    refine Or.inr ⟨.conditional opening whenTrue middle whenFalse closing, after, _, code,
      ⟨hopening, hmiddle, hclosing, hthen, helse⟩, ?_, ⟨trueCode, falseCode, htrue, hfalse, rfl⟩,
      hafter, rfl⟩
    simp [Phrase.tokens]

/-- There is one way to cut a phrase off a row. -/
theorem Phrase.cut_inj {phrase other : Phrase} {rest rest' : List Token} (hcut : phrase.Cut)
    (hcut' : other.Cut) (h : phrase.tokens ++ rest = other.tokens ++ rest') :
    phrase = other ∧ rest = rest' := by
  cases phrase with
  | plain token =>
    cases other with
    | plain token' => cases h; exact ⟨rfl, rfl⟩
    | definition => cases h; exact absurd hcut'.1 hcut.1
    | conditional => cases h; exact absurd hcut'.1 hcut.2
  | definition colon name body semicolon =>
    obtain ⟨hcolon, -, hsemicolon, hlacks⟩ := hcut
    cases other with
    | plain token' => cases h; exact absurd hcolon hcut'.1
    | definition colon' name' body' semicolon' =>
      obtain ⟨-, -, hsemicolon', hlacks'⟩ := hcut'
      simp only [tokens, List.cons_append, List.append_assoc, List.cons.injEq,
        List.nil_append] at h
      obtain ⟨rfl, rfl, h⟩ := h
      obtain ⟨rfl, rfl, rfl⟩ := cut_unique h hsemicolon hsemicolon' hlacks hlacks'
      exact ⟨rfl, rfl⟩
    | conditional opening' =>
      have hhead : colon = opening' := (List.cons.inj h).1
      have htext := hcut'.1
      rw [← hhead, hcolon] at htext
      exact absurd htext (by decide)
  | conditional opening whenTrue middle whenFalse closing =>
    obtain ⟨hopening, hmiddle, hclosing, hthen, helse⟩ := hcut
    cases other with
    | plain token' => cases h; exact absurd hopening hcut'.2
    | definition colon' =>
      have hhead : opening = colon' := (List.cons.inj h).1
      have htext := hcut'.1
      rw [← hhead, hopening] at htext
      exact absurd htext (by decide)
    | conditional opening' whenTrue' middle' whenFalse' closing' =>
      obtain ⟨-, hmiddle', hclosing', hthen', helse'⟩ := hcut'
      simp only [tokens, List.cons_append, List.append_assoc, List.cons.injEq,
        List.nil_append] at h
      obtain ⟨rfl, h⟩ := h
      obtain ⟨rfl, rfl, hrest⟩ := cut_unique h hmiddle hmiddle' hthen hthen'
      obtain ⟨rfl, rfl, rfl⟩ := cut_unique hrest hclosing hclosing' helse helse'
      exact ⟨rfl, rfl⟩

/-- **A row that begins with a phrase has the code of the phrase and then that of the rest.** -/
theorem Compiles.of_phrase {phrase : Phrase} {rest : List Token} {code : Code} (hcut : phrase.Cut)
    (h : Compiles (phrase.tokens ++ rest) code) :
    ∃ first more, phrase.HasCode first ∧ Compiles rest more ∧ code = first ++ more := by
  rcases h.eq_nil_or_phrase with ⟨hnil, -⟩ | ⟨other, rest', first, more, hcut', he, hfirst, hmore, rfl⟩
  · cases phrase <;> simp [Phrase.tokens] at hnil
  · obtain ⟨rfl, rfl⟩ := Phrase.cut_inj hcut hcut' he
    exact ⟨first, more, hfirst, hmore, rfl⟩

/-! ## Faults -/

/-- A fault of compiling that stands at one of the tokens. -/
def Fault.AtTokenOf (tokens : List Token) (fault : Fault) : Prop :=
  ∃ cause, ∃ token ∈ tokens, cause.kind = .compile ∧ fault = Fault.inSource cause token.location

theorem Fault.AtTokenOf.mono {part tokens : List Token} {fault : Fault} (h : part ⊆ tokens)
    (hf : fault.AtTokenOf part) : fault.AtTokenOf tokens := by
  obtain ⟨cause, token, ht, hk, he⟩ := hf
  exact ⟨cause, token, h ht, hk, he⟩

/-- Both sides of a cut, and the token between them, are part of the whole. -/
theorem subset_of_splitAtText {text : String} {tokens before after : List Token} {found : Token}
    (h : splitAtText text tokens = some (before, found, after)) :
    before ⊆ tokens ∧ found ∈ tokens ∧ after ⊆ tokens := by
  obtain ⟨rfl, -, -⟩ := eq_of_splitAtText h
  refine ⟨List.subset_append_left _ _, by simp, fun t ht => ?_⟩
  exact List.mem_append_right _ (List.mem_cons_of_mem _ ht)

/-- **A row of tokens that does not compile has a fault of compiling at one of its tokens.** -/
theorem compile_error {tokens : List Token} {fault : Fault} (h : compile tokens = .error fault) :
    fault.AtTokenOf tokens := by
  fun_induction compile tokens generalizing fault with
  | case1 => cases h
  | case2 token => cases h; exact ⟨_, token, by simp, rfl, rfl⟩
  | case3 colon _ name rest => cases h; exact ⟨_, name, by simp, rfl, rfl⟩
  | case4 colon _ name rest => cases h; exact ⟨_, name, by simp, rfl, rfl⟩
  | case5 colon _ name rest _ body semicolon after hcut _ _ hbody ih =>
    cases h
    have hsub := (subset_of_splitAtText hcut).1
    exact (ih hbody).mono fun t ht => by simp [hsub ht]
  | case6 colon _ name rest _ body semicolon after hcut _ _ _ _ hafter _ ih =>
    cases h
    have hsub := (subset_of_splitAtText hcut).2.2
    exact (ih hafter).mono fun t ht => by simp [hsub ht]
  | case7 => cases h
  | case8 opening => cases h; exact ⟨_, opening, by simp, rfl, rfl⟩
  | case9 opening rest _ _ whenTrue middle rest' hcut _ _ htrue ih =>
    cases h
    have hsub := (subset_of_splitAtText hcut).1
    exact (ih htrue).mono fun t ht => by simp [hsub ht]
  | case10 opening rest _ _ whenTrue middle rest' hcut =>
    cases h
    have hmem := (subset_of_splitAtText hcut).2.1
    exact ⟨_, middle, by simp [hmem], rfl, rfl⟩
  | case11 opening rest _ _ whenTrue middle rest' hcut _ _ _ whenFalse closing after hcut' _ _ hfalse
      _ ih =>
    cases h
    have hsub := (subset_of_splitAtText hcut).2.2
    have hsub' := (subset_of_splitAtText hcut').1
    exact (ih hfalse).mono fun t ht => by simp [hsub (hsub' ht)]
  | case12 opening rest _ _ whenTrue middle rest' hcut _ _ _ whenFalse closing after hcut' _ _ _ _
      hafter _ _ ih =>
    cases h
    have hsub := (subset_of_splitAtText hcut).2.2
    have hsub' := (subset_of_splitAtText hcut').2.2
    exact (ih hafter).mono fun t ht => by simp [hsub (hsub' ht)]
  | case13 => cases h
  | case14 token rest _ _ _ hrest ih =>
    cases h
    exact (ih hrest).mono fun t ht => by simp [ht]
  | case15 => cases h

/-! ## What code holds -/

/-- A token that opens nothing is an operation, a constant or a call. -/
theorem Token.instruction_cases (token : Token) :
    (∃ operation, Primitive.ofName? token.text = some operation ∧
      token.instruction = .primitive (some token.location) operation) ∨
    (∃ value, token.instruction = .push (some token.location) value) ∨
    token.instruction = .execute (some token.location) token.text := by
  unfold Token.instruction
  split
  · rename_i operation ho
    exact Or.inl ⟨operation, ho, rfl⟩
  · split
    · exact Or.inr (Or.inl ⟨_, rfl⟩)
    · split
      · exact Or.inr (Or.inl ⟨_, rfl⟩)
      · exact Or.inr (Or.inr rfl)

/-- A token that is neither a primitive nor a literal calls a word. -/
theorem Token.instruction_eq_execute {token : Token} (h : Primitive.ofName? token.text = none ∧
    token.string? = none ∧ Numeral.read? token.text = none) :
    token.instruction = .execute (some token.location) token.text := by
  obtain ⟨hname, hstring, hnumber⟩ := h
  simp only [Token.instruction, hname, hstring, hnumber]

/-- The instruction stands in the code, or in the body of a word that is defined there, at any
depth. -/
inductive Code.Holds (instruction : Instruction) : Code → Prop where
  | here {code : Code} (h : instruction ∈ code) : Code.Holds instruction code
  | inside {code body : Code} {location : Option Location} {name : String}
      (hd : Instruction.define location name body ∈ code) (h : Code.Holds instruction body) :
      Code.Holds instruction code

namespace Code

variable {instruction first : Instruction} {code other : Code}

theorem not_holds_nil : ¬ Holds instruction [] := by
  rintro (h | ⟨hd, -⟩)
  · cases h
  · cases hd

theorem holds_append :
    Holds instruction (code ++ other) ↔ Holds instruction code ∨ Holds instruction other := by
  constructor
  · rintro (h | ⟨hd, h⟩)
    · exact (List.mem_append.1 h).imp .here .here
    · exact (List.mem_append.1 hd).imp (.inside · h) (.inside · h)
  · rintro ((h | ⟨hd, h⟩) | (h | ⟨hd, h⟩))
    · exact .here (List.mem_append_left _ h)
    · exact .inside (List.mem_append_left _ hd) h
    · exact .here (List.mem_append_right _ h)
    · exact .inside (List.mem_append_right _ hd) h

theorem holds_cons :
    Holds instruction (first :: code) ↔ (instruction = first ∨
      ∃ location name body, first = .define location name body ∧ Holds instruction body) ∨
      Holds instruction code := by
  constructor
  · rintro (h | ⟨hd, h⟩)
    · exact (List.mem_cons.1 h).imp Or.inl .here
    · rcases List.mem_cons.1 hd with rfl | hd
      · exact Or.inl (Or.inr ⟨_, _, _, rfl, h⟩)
      · exact Or.inr (.inside hd h)
  · rintro ((rfl | ⟨location, name, body, rfl, h⟩) | (h | ⟨hd, h⟩))
    · exact .here List.mem_cons_self
    · exact .inside List.mem_cons_self h
    · exact .here (List.mem_cons_of_mem _ h)
    · exact .inside (List.mem_cons_of_mem _ hd) h

/-- No jump leads to itself, neither in the code nor in the body of a word that it defines. -/
def NeverIdles (code : Code) : Prop := ∀ location, ¬ Holds (.jump location 0) code

end Code

/-- The jumps of compiled code lead over at least the instruction after them. -/
theorem Compiles.neverIdles {tokens : List Token} {code : Code} (h : Compiles tokens code) :
    code.NeverIdles := by
  intro location
  induction h with
  | nil => exact Code.not_holds_nil
  | @plain token rest code _ _ ih =>
    rw [Code.holds_cons]
    rcases token.instruction_cases with ⟨operation, -, he⟩ | ⟨value, he⟩ | he
    · simp [he, ih]
    · simp [he, ih]
    · simp [he, ih]
  | definition _ _ _ _ _ _ ihbody ihafter => simp [Code.holds_cons, ihbody, ihafter]
  | conditional _ _ _ _ _ _ _ _ ihtrue ihfalse ihafter =>
    simp [StackScript.conditional, Code.holds_cons, Code.holds_append, ihtrue, ihfalse, ihafter]

/-- Where an instruction of compiled code comes from: it stands for one token, binds the text of one, or is
a jump of a conditional. -/
inductive Instruction.ComesFrom (tokens : List Token) : Instruction → Prop where
  | plain {token : Token} (h : token ∈ tokens) : ComesFrom tokens token.instruction
  | definition {name : Token} (location : Option Location) (body : Code) (h : name ∈ tokens) :
      ComesFrom tokens (.define location name.text body)
  | jumpIfFalse (location : Option Location) (offset : Nat) :
      ComesFrom tokens (.jumpIfFalse location offset)
  | jump (location : Option Location) (offset : Nat) : ComesFrom tokens (.jump location offset)

theorem Instruction.ComesFrom.mono {part tokens : List Token} {instruction : Instruction}
    (hsub : part ⊆ tokens) (h : instruction.ComesFrom part) : instruction.ComesFrom tokens := by
  cases h with
  | plain h => exact .plain (hsub h)
  | definition location body h => exact .definition location body (hsub h)
  | jumpIfFalse location offset => exact .jumpIfFalse location offset
  | jump location offset => exact .jump location offset

/-- **Whatever compiled code holds comes from the tokens.** -/
theorem Compiles.comesFrom {tokens : List Token} {code : Code} {instruction : Instruction}
    (h : Compiles tokens code) (hi : Code.Holds instruction code) :
    instruction.ComesFrom tokens := by
  induction h with
  | nil => exact absurd hi Code.not_holds_nil
  | @plain token rest code _ _ ih =>
    rcases Code.holds_cons.1 hi with (rfl | ⟨location, name, body, he, -⟩) | hi
    · exact .plain List.mem_cons_self
    · rcases token.instruction_cases with ⟨operation, -, ht⟩ | ⟨value, ht⟩ | ht
      · rw [ht] at he; cases he
      · rw [ht] at he; cases he
      · rw [ht] at he; cases he
    · exact (ih hi).mono fun t ht => List.mem_cons_of_mem _ ht
  | @definition colon name semicolon body after bodyCode code _ _ _ _ _ _ ihbody ihafter =>
    rcases Code.holds_cons.1 hi with (rfl | ⟨location, name', body', he, hi⟩) | hi
    · exact .definition _ _ (by simp)
    · cases he
      exact (ihbody hi).mono fun t ht => by simp [ht]
    · exact (ihafter hi).mono fun t ht => by simp [ht]
  | @conditional opening middle closing whenTrue whenFalse after trueCode falseCode code _ _ _ _ _ _ _ _
      ihtrue ihfalse ihafter =>
    simp only [StackScript.conditional, Code.holds_append, Code.holds_cons, List.cons_append] at hi
    rcases hi with (rfl | ⟨_, _, _, he, -⟩) | (hi | (rfl | ⟨_, _, _, he, -⟩) | hi) | hi
    · exact .jumpIfFalse _ _
    · cases he
    · exact (ihtrue hi).mono fun t ht => by simp [ht]
    · exact .jump _ _
    · cases he
    · exact (ihfalse hi).mono fun t ht => by simp [ht]
    · exact (ihafter hi).mono fun t ht => by simp [ht]

/-- A constant is the contents of a string literal, or a number. -/
theorem Token.constant_cases {token : Token} {location : Option Location} {value : Value}
    (h : token.instruction = .push location value) :
    (∃ contents, token.string? = some contents ∧ value = .text contents) ∨ ∃ x, value = .number x := by
  unfold Token.instruction at h
  split at h
  · cases h
  · split at h
    · rename_i contents hs
      cases h
      exact Or.inl ⟨contents, hs, rfl⟩
    · split at h
      · rename_i x hx
        cases h
        exact Or.inr ⟨x, rfl⟩
      · cases h

theorem Compiles.pushed {tokens : List Token} {code : Code} (h : Compiles tokens code)
    {location : Option Location} {value : Value} (hp : code.Holds (.push location value)) :
    (∃ token ∈ tokens, ∃ contents, token.string? = some contents ∧ value = .text contents) ∨
      ∃ x, value = .number x := by
  have hfrom := h.comesFrom hp
  generalize he : Instruction.push location value = instruction at hfrom
  cases hfrom with
  | @plain token hm =>
    rcases token.constant_cases he.symm with ⟨contents, hs, hv⟩ | hx
    · exact Or.inl ⟨token, hm, contents, hs, hv⟩
    · exact Or.inr hx
  | definition location body hm => cases he
  | jumpIfFalse location offset => cases he
  | jump location offset => cases he

theorem Compiles.bound {tokens : List Token} {code body : Code} (h : Compiles tokens code)
    {location : Option Location} {name : String} (hd : code.Holds (.define location name body)) :
    ∃ token ∈ tokens, token.text = name := by
  have hfrom := h.comesFrom hd
  generalize he : Instruction.define location name body = instruction at hfrom
  cases hfrom with
  | @plain token hm =>
    rcases token.instruction_cases with ⟨operation, -, hi⟩ | ⟨value, hi⟩ | hi <;> rw [hi] at he <;>
      cases he
  | @definition token location body hm =>
    cases he
    exact ⟨token, hm, rfl⟩
  | jumpIfFalse location offset => cases he
  | jump location offset => cases he

end StackScript
