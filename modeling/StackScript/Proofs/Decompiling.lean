import Mathlib.Data.List.Forall2
import StackScript.Proofs.Grammar
import StackScript.Proofs.Layout

/-!
# From code back to tokens

Code tells the row of tokens that it was compiled from, but for where they stood and for the spelling of
numbers.

* `Spelling` — what is known of one token: its text, or the number that it stands for.
* `Code.decompile` — the spellings of the tokens.  The end of a true branch is told by the jump that stands
  there, the end of a false branch by the distance of that jump.
* `Code.decompile_unplaced` — places are not looked at.
* `Compiles.spelled_by_code` — decompiling inverts compiling.

Principal result: `compile_lossless`.
-/

set_option autoImplicit false

namespace StackScript

/-- What code tells of a token: its text, or that it is some numeral for a number. -/
inductive Spelling where
  | exactly (text : String)
  | numeral (x : Float)
deriving DecidableEq, Repr

def Spelling.Spells : Spelling → Token → Prop
  | .exactly text, token => token.text = text
  | .numeral x, token => Numeral.read? token.text = some x

/-- The tokens have the same text, or are numerals for the same number. -/
def Token.SpelledAlike (token other : Token) : Prop :=
  token.text = other.text ∨
    ∃ x, Numeral.read? token.text = some x ∧ Numeral.read? other.text = some x

theorem Spelling.Spells.alike {spelling : Spelling} {token other : Token}
    (h : spelling.Spells token) (h' : spelling.Spells other) : token.SpelledAlike other := by
  cases spelling with
  | exactly text => exact Or.inl (Eq.trans h (Eq.symm h'))
  | numeral x => exact Or.inr ⟨x, h, h'⟩

/-- The spelling of a constant.  No token stands for a constant of any other kind. -/
def Value.spelling : Value → List Spelling
  | .text s => [.exactly ("\"" ++ s ++ "\"")]
  | .number x => [.numeral x]
  | _ => []

namespace Code

theorem sizeOf_le_of_sublist {part code : Code} (h : part.Sublist code) :
    sizeOf part ≤ sizeOf code := by
  induction h with
  | slnil => exact Nat.le_refl _
  | cons first _ ih =>
    simp only [List.cons.sizeOf_spec]
    omega
  | cons_cons first _ ih =>
    simp only [List.cons.sizeOf_spec]
    omega

/-- The tokens that some code stands for.  A conditional jump opens a conditional; the jump behind the
true branch is its `then`, and leads behind its `else`. -/
def decompile : Code → List Spelling
  | [] => []
  | .primitive _ operation :: rest => .exactly operation.name :: decompile rest
  | .push _ value :: rest => value.spelling ++ decompile rest
  | .define _ name body :: rest =>
    .exactly ":" :: .exactly name :: (decompile body ++ .exactly ";" :: decompile rest)
  | .execute _ name :: rest => .exactly name :: decompile rest
  | .jumpIfFalse _ _ :: rest => .exactly "if" :: decompile rest
  | .jump _ offset :: rest =>
    .exactly "then" :: (decompile (rest.take (offset - 1)) ++
      .exactly "else" :: decompile (rest.drop (offset - 1)))
termination_by code => sizeOf code
decreasing_by
  any_goals simp only [List.cons.sizeOf_spec, Instruction.define.sizeOf_spec]; omega
  · have := sizeOf_le_of_sublist (List.take_sublist (offset - 1) rest)
    simp only [List.cons.sizeOf_spec]
    omega
  · have := sizeOf_le_of_sublist (List.drop_sublist (offset - 1) rest)
    simp only [List.cons.sizeOf_spec]
    omega

/-- **Where the code was compiled from does not matter.** -/
theorem decompile_unplaced (code : Code) : code.unplaced.decompile = code.decompile := by
  fun_induction decompile code with
  | case1 => simp [unplaced, relabel, decompile]
  | case2 location operation rest ih =>
    show decompile (.primitive none operation :: unplaced rest) = _
    rw [decompile, ih]
  | case3 location value rest ih =>
    show decompile (.push none value :: unplaced rest) = _
    rw [decompile, ih]
  | case4 location name body rest ihbody ih =>
    show decompile (.define none name (unplaced body) :: unplaced rest) = _
    rw [decompile, ihbody, ih]
  | case5 location name rest ih =>
    show decompile (.execute none name :: unplaced rest) = _
    rw [decompile, ih]
  | case6 location offset rest ih =>
    show decompile (.jumpIfFalse none offset :: unplaced rest) = _
    rw [decompile, ih]
  | case7 location offset rest ihtake ihdrop =>
    show decompile (.jump none offset :: unplaced rest) = _
    rw [unplaced_eq_map] at ihtake ihdrop ⊢
    rw [decompile, ← List.map_take, ← List.map_drop, ihtake, ihdrop]

/-- Code without a jump is decompiled by itself. -/
theorem decompile_append {code : Code} (h : code.NeverJumps) (more : Code) :
    decompile (code ++ more) = code.decompile ++ decompile more := by
  induction code with
  | nil => simp [decompile]
  | cons first rest ih =>
    have hrest : NeverJumps rest := fun location offset =>
      ⟨fun hh => (h location offset).1 (holds_cons.2 (Or.inr hh)),
        fun hh => (h location offset).2 (holds_cons.2 (Or.inr hh))⟩
    have ih := ih hrest
    cases first with
    | primitive location operation => simp [decompile, ih]
    | push location value => simp [decompile, ih]
    | define location name body => simp [decompile, ih]
    | execute location name => simp [decompile, ih]
    | jumpIfFalse location offset => simp [decompile, ih]
    | jump location offset => exact absurd (.here List.mem_cons_self) (h location offset).2

/-- The jumps of a conditional tell its two branches from what comes behind. -/
theorem decompile_conditional {whenTrue : Code} (h : whenTrue.NeverJumps) (l l' : Location)
    (whenFalse more : Code) :
    decompile (conditional l l' whenTrue whenFalse ++ more) =
      .exactly "if" :: (whenTrue.decompile ++ .exactly "then" ::
        (whenFalse.decompile ++ .exactly "else" :: more.decompile)) := by
  simp [conditional, decompile, decompile_append h]

end Code

theorem Token.text_of_string? {token : Token} {contents : String}
    (h : token.string? = some contents) : token.text = "\"" ++ contents ++ "\"" := by
  unfold Token.string? at h
  split at h
  · rename_i rest hlist
    split at h
    · rename_i hlast
      cases h
      have hrest := List.dropLast_append_getLast? '"' hlast
      apply String.toList_injective
      simp [hlist, hrest]
    · cases h
  · cases h

/-- A token that opens nothing can be told from its instruction. -/
theorem Token.spelled_by_instruction (token : Token) :
    ∃ spelling : Spelling, spelling.Spells token ∧
      ∀ rest : Code, Code.decompile (token.instruction :: rest) = spelling :: rest.decompile := by
  unfold Token.instruction
  split
  · rename_i operation ho
    exact ⟨.exactly operation.name, (Primitive.name_of_ofName? ho).symm, by simp [Code.decompile]⟩
  · split
    · rename_i contents hs
      exact ⟨.exactly ("\"" ++ contents ++ "\""), text_of_string? hs,
        by simp [Code.decompile, Value.spelling]⟩
    · split
      · rename_i x hx
        exact ⟨.numeral x, hx, by simp [Code.decompile, Value.spelling]⟩
      · exact ⟨.exactly token.text, rfl, by simp [Code.decompile]⟩

/-- **Decompiling inverts compiling.** -/
theorem Compiles.spelled_by_code {tokens : List Token} {code : Code} (h : Compiles tokens code) :
    List.Forall₂ Spelling.Spells code.decompile tokens := by
  induction h with
  | nil => simp [Code.decompile]
  | @plain token rest code _ _ ih =>
    obtain ⟨spelling, hspells, hcode⟩ := token.spelled_by_instruction
    rw [hcode]
    exact .cons hspells ih
  | @definition colon name semicolon body after bodyCode code hcolon hname hsemicolon hlacks hbody
      _ ihbody ih =>
    rw [Code.decompile]
    exact .cons hcolon (.cons rfl (List.rel_append ihbody (.cons hsemicolon ih)))
  | @conditional opening middle closing whenTrue whenFalse after trueCode falseCode code hopening
      hmiddle hclosing hthen helse htrue hfalse _ ihtrue ihfalse ih =>
    rw [Code.decompile_conditional (htrue.neverJumps (Or.inl hthen))]
    exact .cons hopening (List.rel_append ihtrue (.cons hmiddle
      (List.rel_append ihfalse (.cons hclosing ih))))

theorem Spelling.spelledAlike {spellings : List Spelling} {tokens other : List Token}
    (h : List.Forall₂ Spells spellings tokens) (h' : List.Forall₂ Spells spellings other) :
    List.Forall₂ Token.SpelledAlike tokens other := by
  induction h generalizing other with
  | nil =>
    cases h'
    exact .nil
  | cons hfirst _ ih =>
    cases h' with
    | cons hfirst' hrest' => exact .cons (hfirst.alike hfirst') (ih hrest')

/-- **Compiling loses nothing but the places and the spelling of numbers.**  From the code of an accepted
row, without its places, the row can be decompiled up to the spelling of numbers.  So if two accepted rows
have the same code but for its places, they are of one length, and at each position they have the same
text or two numerals for the same number. -/
theorem compile_lossless {xs ys : List Token} {c d : Code} (hc : compile xs = .ok c)
    (hd : compile ys = .ok d) :
    List.Forall₂ Spelling.Spells c.unplaced.decompile xs ∧
    (c.unplaced = d.unplaced → xs.length = ys.length ∧
      ∀ (i : Nat) (x y : Token), xs[i]? = some x → ys[i]? = some y → x.SpelledAlike y) := by
  have hxs : List.Forall₂ Spelling.Spells c.unplaced.decompile xs := by
    rw [Code.decompile_unplaced]
    exact (compiles_of_compile hc).spelled_by_code
  have hys : List.Forall₂ Spelling.Spells d.unplaced.decompile ys := by
    rw [Code.decompile_unplaced]
    exact (compiles_of_compile hd).spelled_by_code
  refine ⟨hxs, fun hsame => ?_⟩
  rw [← hsame] at hys
  have halike := Spelling.spelledAlike hxs hys
  refine ⟨halike.length_eq, fun i x y hx hy => ?_⟩
  obtain ⟨hi, rfl⟩ := List.getElem?_eq_some_iff.1 hx
  obtain ⟨hi', rfl⟩ := List.getElem?_eq_some_iff.1 hy
  exact halike.get hi hi'

/-- Two spellings of a number in the true branch of a conditional, and behind it terminators that end
nothing. -/
theorem compile_lossless_sixteen :
    ∃ (xs ys : List Token) (c d : Code),
      xs.map Token.text = ["if", "16", "then", "else", "then", ";"] ∧
      ys.map Token.text = ["if", "0x10", "then", "else", "then", ";"] ∧
      compile xs = .ok c ∧ compile ys = .ok d ∧ c.unplaced = d.unplaced ∧
      c.unplaced.decompile = [.exactly "if", .numeral 16, .exactly "then", .exactly "else",
        .exactly "then", .exactly ";"] ∧
      xs.length = ys.length ∧
      ∀ (i : Nat) (x y : Token), xs[i]? = some x → ys[i]? = some y → x.SpelledAlike y := by
  let place := Location.unspecified
  let row (number : String) : List Token :=
    ["if", number, "then", "else", "then", ";"].map (Token.mk place)
  let code : Code := conditional place place [.push (some place) (.number 16)] [] ++
    [.execute (some place) "then", .execute (some place) ";"]
  have hnumber : ∀ text ∈ ["16", "0x10"], (Token.mk place text).instruction =
      .push (some place) (.number 16) := by
    have hread : ∀ text ∈ ["16", "0x10"], Primitive.ofName? text = none ∧
        Token.string? ⟨place, text⟩ = none ∧ Numeral.read? text = some 16 := by decide +kernel
    intro text hm
    obtain ⟨hname, hstring, hvalue⟩ := hread text hm
    simp only [Token.instruction, hname, hstring, hvalue]
  have hcall : ∀ text ∈ ["then", ";"], (Token.mk place text).instruction =
      .execute (some place) text := by
    have hread : ∀ text ∈ ["then", ";"], Primitive.ofName? text = none ∧
        Token.string? ⟨place, text⟩ = none ∧ Numeral.read? text = none := by decide
    exact fun text hm => Token.instruction_eq_execute (hread text hm)
  have hcompile : ∀ text ∈ ["16", "0x10"], compile (row text) = .ok code := by
    intro text hm
    obtain rfl | rfl : text = "16" ∨ text = "0x10" := by simpa using hm
    · simp [row, code, compile, splitAtText, hnumber, hcall]
    · simp [row, code, compile, splitAtText, hnumber, hcall]
  obtain ⟨-, hlossless⟩ := compile_lossless (hcompile "16" (by simp)) (hcompile "0x10" (by simp))
  obtain ⟨hlength, halike⟩ := hlossless rfl
  refine ⟨row "16", row "0x10", code, code, by simp [row], by simp [row], hcompile _ (by simp),
    hcompile _ (by simp), rfl, ?_, hlength, halike⟩
  rw [Code.decompile_unplaced]
  simp [code, conditional, Code.decompile, Value.spelling]

end StackScript
