import StackScript.Proofs.NumeralGrammar
import StackScript.Proofs.ReservedNames

/-!
# Equality of code

Code that pushes something which is not a number differs from itself, so equality of code is not
reflexive.  On compiled code it is, since a source can not write such a constant.

* `Numeral.isNaN_of_read?` — whatever a numeral stands for is a number.
* `Value.same_self_iff` — the values that equal themselves.
* `Code.same_self_iff` — code equals itself exactly if all its constants do, those in the bodies of its
  words included.
* `Compiles.pushed_number` — a number that compiled code pushes is written in one of the tokens.

Principal result: `compiled_twice_same`.
-/

set_option autoImplicit false

namespace StackScript

/-! ## Constants -/

/-- **No numeral is read as what is not a number**: without its sign it has a bit pattern up to that of
infinity, and the sign changes nothing about that. -/
theorem Numeral.isNaN_of_read? {text : String} {x : Float} (h : Numeral.read? text = some x) :
    x.isNaN = false := by
  unfold Numeral.read? at h
  rcases Numeral.sign_cases text.toList with ⟨rest, hrest⟩ | ⟨rest, hrest⟩ | hunsigned
  · rw [hrest, Numeral.readChars] at h
    obtain ⟨magnitude, hmagnitude, rfl⟩ := Option.map_eq_some_iff.1 h
    obtain ⟨bits, hbits, rfl⟩ := Numeral.readMagnitude_pattern hmagnitude
    exact Binary64.isNaN_neg_ofPattern hbits
  · rw [hrest, Numeral.readChars] at h
    obtain ⟨bits, hbits, rfl⟩ := Numeral.readMagnitude_pattern h
    exact Binary64.isNaN_ofPattern hbits
  · rw [Numeral.readChars_of_unsigned hunsigned] at h
    obtain ⟨bits, hbits, rfl⟩ := Numeral.readMagnitude_pattern h
    exact Binary64.isNaN_ofPattern hbits

theorem Value.same_self_iff (value : Value) :
    value.same value = true ↔ ∀ x, value = .number x → x.isNaN = false := by
  cases value with
  | number x => simp [Value.same]
  | bool b => simp [Value.same]
  | text s => simp [Value.same]
  | package scope => simp [Value.same]
  | host object => simp [Value.same]

/-! ## Code -/

/-- Every constant of the code equals itself, at any depth. -/
def Code.ConstantsSame (code : Code) : Prop :=
  ∀ location value, code.Holds (.push location value) → value.same value = true

namespace Code

theorem constantsSame_nil : ConstantsSame [] := fun _ _ h => absurd h not_holds_nil

theorem constantsSame_cons {first : Instruction} {code : Code} :
    ConstantsSame (first :: code) ↔ ConstantsSame [first] ∧ ConstantsSame code := by
  unfold ConstantsSame
  constructor
  · intro h
    refine ⟨fun location value hv => ?_, fun location value hv => h _ _ (holds_cons.2 (Or.inr hv))⟩
    exact h _ _ (holds_cons.2 (Or.inl ((holds_cons.1 hv).resolve_right not_holds_nil)))
  · rintro ⟨hfirst, hcode⟩ location value hv
    rcases holds_cons.1 hv with hv | hv
    · exact hfirst _ _ (holds_cons.2 (Or.inl hv))
    · exact hcode _ _ hv

mutual

theorem sameInstruction_self_iff :
    ∀ instruction : Instruction,
      sameInstruction instruction instruction = true ↔ ConstantsSame [instruction]
  | .push location value => by
    simp [sameInstruction, ConstantsSame, holds_cons, not_holds_nil]
  | .define location name body => by
    -- the only instruction that holds others
    have hbody := same_self_iff body
    simpa [sameInstruction, ConstantsSame, holds_cons, not_holds_nil] using hbody
  | .primitive location operation => by
    simp [sameInstruction, ConstantsSame, holds_cons, not_holds_nil]
  | .execute location name => by
    simp [sameInstruction, ConstantsSame, holds_cons, not_holds_nil]
  | .jumpIfFalse location offset => by
    simp [sameInstruction, ConstantsSame, holds_cons, not_holds_nil]
  | .jump location offset => by
    simp [sameInstruction, ConstantsSame, holds_cons, not_holds_nil]

/-- **Code equals itself exactly if all its constants do.** -/
theorem same_self_iff : ∀ code : Code, same code code = true ↔ ConstantsSame code
  | [] => by simpa [same] using constantsSame_nil
  | first :: code => by
    rw [same, Bool.and_eq_true, sameInstruction_self_iff first, same_self_iff code,
      ← constantsSame_cons]

end

end Code

/-! ## Compiled code -/

/-- A number that a token pushes is what the token is read as. -/
theorem Token.read?_of_push_number {token : Token} {location : Option Location} {x : Float}
    (h : token.instruction = .push location (.number x)) : Numeral.read? token.text = some x := by
  unfold Token.instruction at h
  split at h
  · cases h
  · split at h
    · cases h
    · split at h
      · rename_i y hy
        cases h
        exact hy
      · cases h

/-- Every number that compiled code pushes is written in one of the tokens. -/
theorem Compiles.pushed_number {tokens : List Token} {code : Code} (h : Compiles tokens code)
    {location : Option Location} {x : Float} (hp : code.Holds (.push location (.number x))) :
    ∃ token ∈ tokens, Numeral.read? token.text = some x := by
  have hfrom := h.comesFrom hp
  generalize he : Instruction.push location (.number x) = instruction at hfrom
  cases hfrom with
  | @plain token hm => exact ⟨token, hm, token.read?_of_push_number he.symm⟩
  | definition location body hm => cases he
  | jumpIfFalse location offset => cases he
  | jump location offset => cases he

theorem Compiles.constantsSame {tokens : List Token} {code : Code} (h : Compiles tokens code) :
    code.ConstantsSame := by
  intro location value hv
  rw [Value.same_self_iff]
  rintro x rfl
  obtain ⟨token, -, hx⟩ := h.pushed_number hv
  exact Numeral.isNaN_of_read? hx

/-- **Compiling a source twice gives equal code**, although equality of code is not reflexive: no text is
read as what is not a number, so no constant of compiled code, in however deep a body, differs from
itself. -/
theorem compiled_twice_same {path source : String} {code : Code}
    (h : compileSource path source = .ok code) :
    (∀ text x, Numeral.read? text = some x → x.isNaN = false) ∧
    (∀ other, compileSource path source = .ok other → Code.same code other = true) ∧
    (∀ location value, code.Holds (.push location value) → value.same value = true) := by
  have hconstants : code.ConstantsSame := by
    unfold compileSource at h
    split at h
    · cases h
    · exact (compiles_of_compile h).constantsSame
  refine ⟨fun _ _ => Numeral.isNaN_of_read?, fun other hother => ?_, hconstants⟩
  obtain rfl : code = other := Except.ok.inj (h.symm.trans hother)
  exact (Code.same_self_iff code).2 hconstants

/-- A word that pushes a number beyond the range, and calls `NaN`, which is a name; code made by hand that
pushes what is not a number differs from itself. -/
theorem compiled_twice_same_overflow :
    (∃ code, compileSource "far" ": far 1e999 NaN ;" = .ok code ∧ Code.same code code = true) ∧
      ¬ Code.same [.push none (.number (0 / 0))] [.push none (.number (0 / 0))] = true := by
  constructor
  · have hbody : Compiles [⟨⟨"far", 1, 7⟩, "1e999"⟩, ⟨⟨"far", 1, 13⟩, "NaN"⟩]
        [(Token.mk ⟨"far", 1, 7⟩ "1e999").instruction, (Token.mk ⟨"far", 1, 13⟩ "NaN").instruction] :=
      .plain (show "1e999" ≠ ":" ∧ "1e999" ≠ "if" by decide)
        (.plain (show "NaN" ≠ ":" ∧ "NaN" ≠ "if" by decide) .nil)
    have hcode := @Compiles.definition ⟨⟨"far", 1, 1⟩, ":"⟩ ⟨⟨"far", 1, 3⟩, "far"⟩ ⟨⟨"far", 1, 17⟩, ";"⟩
      _ [] _ [] rfl (by decide) rfl (by unfold Lacks; decide) hbody .nil
    have hcompile : compileSource "far" ": far 1e999 NaN ;" = .ok _ :=
      (compileSource_of_scan rfl).trans (compile_of_compiles hcode)
    exact ⟨_, hcompile, (compiled_twice_same hcompile).2.1 _ hcompile⟩
  · decide +kernel

end StackScript
