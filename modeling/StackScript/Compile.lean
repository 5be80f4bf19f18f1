import StackScript.Instruction
import StackScript.Number.Numeral
import StackScript.Token

/-!
# From tokens to code

* `: name body ;` becomes one instruction that binds `name`.  The definition ends at the first `;`
  after the name.
* `if T then F else` becomes a conditional jump over `T` and a jump over `F`.  The first `then`
  ends `T` and the first `else` after it ends `F`.
* Every other token is one instruction: a primitive if it spells one, else a constant if it is a
  string literal or a numeral, else a call by name.

The spans of a definition and of a conditional are compiled by themselves, and always before the
tokens after them, so of two faults the one that stands first is reported.
-/

set_option autoImplicit false

namespace StackScript

/-- The instruction for a token that opens neither a definition nor a conditional. -/
def Token.instruction (token : Token) : Instruction :=
  let location := some token.location
  match Primitive.ofName? token.text with
  | some operation => .primitive location operation
  | none =>
    match token.string? with
    | some text => .push location (.text text)
    | none =>
      match Numeral.read? token.text with
      | some x => .push location (.number x)
      | none => .execute location token.text

/-- Cut a row of tokens at the first one that spells `text`: what stands before it, the token
itself, and what stands after it. -/
def splitAtText (text : String) : List Token → Option (List Token × Token × List Token)
  | [] => none
  | token :: rest =>
    if token.text = text then some ([], token, rest)
    else (splitAtText text rest).map fun (before, found, after) => (token :: before, found, after)

/-- The cut loses nothing, and falls on the first token with that text. -/
theorem eq_of_splitAtText {text : String} {tokens before after : List Token} {found : Token}
    (h : splitAtText text tokens = some (before, found, after)) :
    tokens = before ++ found :: after ∧ found.text = text ∧ ∀ t ∈ before, t.text ≠ text := by
  induction tokens generalizing before with
  | nil => simp [splitAtText] at h
  | cons token rest ih =>
    simp only [splitAtText] at h
    split at h
    · simp only [Option.some.injEq, Prod.mk.injEq] at h
      obtain ⟨rfl, rfl, rfl⟩ := h
      exact ⟨rfl, by assumption, by simp⟩
    · obtain ⟨⟨before', found', after'⟩, hs, he⟩ := Option.map_eq_some_iff.1 h
      simp only [Prod.mk.injEq] at he
      obtain ⟨rfl, rfl, rfl⟩ := he
      obtain ⟨rfl, hf, hb⟩ := ih hs
      refine ⟨rfl, hf, ?_⟩
      simpa using ⟨by assumption, hb⟩

theorem length_of_splitAtText {text : String} {tokens before after : List Token} {found : Token}
    (h : splitAtText text tokens = some (before, found, after)) :
    before.length < tokens.length ∧ after.length < tokens.length := by
  rw [(eq_of_splitAtText h).1, List.length_append, List.length_cons]
  omega

/-- The layout of a conditional: over the true branch and the jump at its end if the condition does
not hold, and over the false branch after the true one. -/
def conditional (ifLocation thenLocation : Location) (whenTrue whenFalse : Code) : Code :=
  .jumpIfFalse (some ifLocation) (whenTrue.length + 2) ::
    whenTrue ++ .jump (some thenLocation) (whenFalse.length + 1) :: whenFalse

/-- The code of a row of tokens. -/
def compile (tokens : List Token) : Except Fault Code :=
  match tokens with
  | [] => .ok []
  | token :: rest =>
    if token.text = ":" then
      match rest with
      | [] => .error (Fault.inSource .missingName token.location)
      | name :: rest =>
        if name.text = ";" ∨ name.text = ":" then
          .error (Fault.inSource (.forbiddenName name.text) name.location)
        else
          match h : splitAtText ";" rest with
          | none => .error (Fault.inSource (.missingSemicolon name.text) name.location)
          | some (body, _, after) =>
            have := length_of_splitAtText h
            match compile body with
            | .error fault => .error fault
            | .ok bodyCode =>
              match compile after with
              | .error fault => .error fault
              | .ok code => .ok (.define (some token.location) name.text bodyCode :: code)
    else if token.text = "if" then
      match h : splitAtText "then" rest with
      | none => .error (Fault.inSource .missingThen token.location)
      | some (whenTrue, thenToken, rest') =>
        have := length_of_splitAtText h
        match compile whenTrue with
        | .error fault => .error fault
        | .ok trueCode =>
          match h' : splitAtText "else" rest' with
          | none => .error (Fault.inSource .missingElse thenToken.location)
          | some (whenFalse, _, after) =>
            have := length_of_splitAtText h'
            match compile whenFalse with
            | .error fault => .error fault
            | .ok falseCode =>
              match compile after with
              | .error fault => .error fault
              | .ok code =>
                .ok (conditional token.location thenToken.location trueCode falseCode ++ code)
    else
      match compile rest with
      | .error fault => .error fault
      | .ok code => .ok (token.instruction :: code)
termination_by tokens.length

/-- The code of a source text.  The path only tags its locations. -/
def compileSource (path source : String) : Except Fault Code :=
  match Token.scan path source with
  | .error fault => .error fault
  | .ok tokens => compile tokens

end StackScript
