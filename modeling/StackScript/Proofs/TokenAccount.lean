import StackScript.Proofs.Derivation
import StackScript.Proofs.TokenPlaces

/-!
# Every token is accounted for

Compiled code can be walked as it is listed, each definition followed by the body that it defines.  The
places met on the way are those of the tokens, in their order: nothing is left out but what only closes or
names something.

* `Code.walk` — the instructions of some code in the order of its listing.
* `Kept` — what is left of a row of tokens when every definition has lost its name and its `;`, and every
  conditional its `else`.
* `Kept.compiles` — such a row compiles, and the walk of its code passes the places of the tokens that are
  left.

Principal result: `tokens_accounted_for`.
-/

set_option autoImplicit false

namespace StackScript

/-! ## Walking code -/

mutual

/-- The instruction, and behind a definition those of the body that it defines. -/
def Instruction.walk : Instruction → List Instruction
  | .define location name body => .define location name body :: Code.walk body
  | .primitive location operation => [.primitive location operation]
  | .push location value => [.push location value]
  | .execute location name => [.execute location name]
  | .jumpIfFalse location offset => [.jumpIfFalse location offset]
  | .jump location offset => [.jump location offset]

/-- The instructions of the code in the order of its listing. -/
def Code.walk : Code → List Instruction
  | [] => []
  | first :: rest => Instruction.walk first ++ Code.walk rest

end

/-- The places met on a walk. -/
def Code.places (code : Code) : List (Option Location) := (Code.walk code).map Instruction.location

namespace Code

theorem places_cons (first : Instruction) (rest : Code) :
    places (first :: rest) = first.walk.map Instruction.location ++ places rest := by
  rw [places, walk, List.map_append, places]

theorem places_append (code more : Code) : places (code ++ more) = places code ++ places more := by
  induction code with
  | nil => rfl
  | cons first rest ih => rw [List.cons_append, places_cons, places_cons, ih, List.append_assoc]

theorem places_define (location : Option Location) (name : String) (body rest : Code) :
    places (.define location name body :: rest) = location :: (places body ++ places rest) := by
  rw [places_cons, Instruction.walk]
  rfl

theorem places_conditional (l l' : Location) (whenTrue whenFalse : Code) :
    places (conditional l l' whenTrue whenFalse) =
      some l :: (places whenTrue ++ some l' :: places whenFalse) := by
  rw [conditional, List.cons_append, places_cons, places_append, places_cons]
  rfl

end Code

/-- A token that opens nothing has its place, and nothing behind it. -/
theorem Token.walk_instruction (token : Token) :
    token.instruction.walk.map Instruction.location = [some token.location] := by
  rcases token.instruction_cases with ⟨operation, -, he⟩ | ⟨value, he⟩ | he
  · rw [he]; rfl
  · rw [he]; rfl
  · rw [he]; rfl

/-! ## What is left of a row -/

/-- What is left of a row when every definition has lost its name and its `;`, and every conditional its
`else`. -/
inductive Kept : List Token → List Token → Prop where
  | nil : Kept [] []
  | plain {token : Token} {rest kept : List Token} (hcut : (Phrase.plain token).Cut)
      (hrest : Kept rest kept) : Kept (token :: rest) (token :: kept)
  | definition {colon name semicolon : Token} {body after keptBody kept : List Token}
      (hcut : (Phrase.definition colon name body semicolon).Cut) (hbody : Kept body keptBody)
      (hafter : Kept after kept) :
      Kept (colon :: name :: (body ++ semicolon :: after)) (colon :: (keptBody ++ kept))
  | conditional {opening middle closing : Token} {whenTrue whenFalse after : List Token}
      {keptTrue keptFalse kept : List Token}
      (hcut : (Phrase.conditional opening whenTrue middle whenFalse closing).Cut)
      (htrue : Kept whenTrue keptTrue) (hfalse : Kept whenFalse keptFalse) (hafter : Kept after kept) :
      Kept (opening :: (whenTrue ++ middle :: (whenFalse ++ closing :: after)))
        (opening :: (keptTrue ++ middle :: (keptFalse ++ kept)))

namespace Kept

variable {row kept : List Token}

/-- Nothing is added, and nothing changes its place. -/
theorem sublist (h : Kept row kept) : kept.Sublist row := by
  induction h with
  | nil => exact .slnil
  | plain _ _ ih => exact ih.cons_cons _
  | @definition colon name semicolon _ _ _ _ _ _ _ ihbody ihafter =>
    exact .cons_cons colon (.cons name (ihbody.append (.cons semicolon ihafter)))
  | @conditional opening middle closing _ _ _ _ _ _ _ _ _ _ ihtrue ihfalse ihafter =>
    exact .cons_cons opening
      (ihtrue.append (.cons_cons middle (ihfalse.append (.cons closing ihafter))))

/-- **The walk of the code passes the places of what is left.** -/
theorem compiles (h : Kept row kept) :
    ∃ code, Compiles row code ∧ code.places = kept.map fun token => some token.location := by
  induction h with
  | nil => exact ⟨[], .nil, rfl⟩
  | @plain token rest kept hcut _ ih =>
    obtain ⟨code, hcode, hplaces⟩ := ih
    refine ⟨_, .plain hcut hcode, ?_⟩
    rw [Code.places_cons, token.walk_instruction, hplaces]
    rfl
  | definition hcut _ _ ihbody ihafter =>
    obtain ⟨hcolon, hname, hsemicolon, hlacks⟩ := hcut
    obtain ⟨bodyCode, hbody, hplaces⟩ := ihbody
    obtain ⟨code, hafter, hplaces'⟩ := ihafter
    refine ⟨_, .definition hcolon hname hsemicolon hlacks hbody hafter, ?_⟩
    rw [Code.places_define, hplaces, hplaces', List.map_cons, List.map_append]
  | conditional hcut _ _ _ ihtrue ihfalse ihafter =>
    obtain ⟨hopening, hmiddle, hclosing, hthen, helse⟩ := hcut
    obtain ⟨trueCode, htrue, hplaces⟩ := ihtrue
    obtain ⟨falseCode, hfalse, hplaces'⟩ := ihfalse
    obtain ⟨code, hafter, hplaces''⟩ := ihafter
    refine ⟨_, .conditional hopening hmiddle hclosing hthen helse htrue hfalse hafter, ?_⟩
    rw [Code.places_append, Code.places_conditional, hplaces, hplaces', hplaces'']
    simp

/-- Something is left of every row that compiles. -/
theorem of_compiles {code : Code} (h : Compiles row code) : ∃ kept, Kept row kept := by
  induction h with
  | nil => exact ⟨[], .nil⟩
  | plain hplain _ ih =>
    obtain ⟨kept, hkept⟩ := ih
    exact ⟨_, .plain hplain hkept⟩
  | definition hcolon hname hsemicolon hlacks _ _ ihbody ihafter =>
    obtain ⟨keptBody, hbody⟩ := ihbody
    obtain ⟨kept, hafter⟩ := ihafter
    exact ⟨_, .definition ⟨hcolon, hname, hsemicolon, hlacks⟩ hbody hafter⟩
  | conditional hopening hmiddle hclosing hthen helse _ _ _ ihtrue ihfalse ihafter =>
    obtain ⟨keptTrue, htrue⟩ := ihtrue
    obtain ⟨keptFalse, hfalse⟩ := ihfalse
    obtain ⟨kept, hafter⟩ := ihafter
    exact ⟨_, .conditional ⟨hopening, hmiddle, hclosing, hthen, helse⟩ htrue hfalse hafter⟩

end Kept

/-- **Every token is accounted for, in order.**  On a walk of compiled code every instruction has a place,
and these are the places of the tokens, one after the other, but for the name and the `;` of every
definition and the `else` of every conditional.  If the tokens are those of a source, then the places are
in its file, and each stands behind the one before. -/
theorem tokens_accounted_for {tokens : List Token} {code : Code} (h : compile tokens = .ok code) :
    (∃ kept, Kept tokens kept) ∧
    (∀ kept, Kept tokens kept → kept.Sublist tokens ∧
      code.walk.map Instruction.location = kept.map fun token => some token.location) ∧
    (∀ path source, Token.scan path source = .ok tokens →
      ∃ places : List Location, code.walk.map Instruction.location = places.map some ∧
        places.Pairwise Location.Precedes ∧ ∀ place ∈ places, place.path = path) := by
  have hplaces : ∀ kept, Kept tokens kept →
      code.places = kept.map fun token => some token.location := by
    intro kept hkept
    obtain ⟨other, hother, hplaces⟩ := hkept.compiles
    obtain rfl : other = code := Except.ok.inj ((compile_of_compiles hother).symm.trans h)
    exact hplaces
  obtain ⟨kept, hkept⟩ := Kept.of_compiles (compiles_of_compile h)
  refine ⟨⟨kept, hkept⟩, fun other hother => ⟨hother.sublist, hplaces other hother⟩, ?_⟩
  intro path source hscan
  obtain ⟨horder, hpaths⟩ := Token.scan_pairwise hscan
  refine ⟨kept.map Token.location, ?_, ?_, ?_⟩
  · rw [List.map_map]
    exact hplaces kept hkept
  · exact List.pairwise_map.2 (horder.sublist hkept.sublist)
  · intro place hm
    obtain ⟨token, ht, rfl⟩ := List.mem_map.1 hm
    exact hpaths token (hkept.sublist.subset ht)

/-- A definition that holds a conditional, and a call behind it: the `f` at column 3, the `else` at column
17 and the `;` at column 22 are passed over. -/
theorem tokens_accounted_for_nested :
    ∃ tokens code, Token.scan "<test>" ": f if x then y else ; f" = .ok tokens ∧
      compile tokens = .ok code ∧
      code.walk.map Instruction.location =
        [1, 5, 8, 10, 15, 24].map (fun column => some ⟨"<test>", 1, column⟩) ∧
      ∃ places : List Location, code.walk.map Instruction.location = places.map some ∧
        places.Pairwise Location.Precedes := by
  have hplain : ∀ column text, text ≠ ":" ∧ text ≠ "if" →
      Kept [⟨⟨"<test>", 1, column⟩, text⟩] [⟨⟨"<test>", 1, column⟩, text⟩] :=
    fun column text h => .plain h .nil
  have hif := @Kept.conditional ⟨⟨"<test>", 1, 5⟩, "if"⟩ ⟨⟨"<test>", 1, 10⟩, "then"⟩
    ⟨⟨"<test>", 1, 17⟩, "else"⟩ _ _ _ _ _ _
    ⟨rfl, rfl, rfl, by unfold Lacks; decide, by unfold Lacks; decide⟩
    (hplain 8 "x" (by decide)) (hplain 15 "y" (by decide)) .nil
  have hkept := @Kept.definition ⟨⟨"<test>", 1, 1⟩, ":"⟩ ⟨⟨"<test>", 1, 3⟩, "f"⟩
    ⟨⟨"<test>", 1, 22⟩, ";"⟩ _ _ _ _ ⟨rfl, by decide, rfl, by unfold Lacks; decide⟩
    hif (hplain 24 "f" (by decide))
  obtain ⟨code, hcode, -⟩ := hkept.compiles
  obtain ⟨-, hwalk, hplaces⟩ := tokens_accounted_for (compile_of_compiles hcode)
  obtain ⟨places, he, horder, -⟩ := hplaces "<test>" ": f if x then y else ; f" rfl
  exact ⟨_, code, rfl, compile_of_compiles hcode, (hwalk _ hkept).2, places, he, horder⟩

end StackScript
