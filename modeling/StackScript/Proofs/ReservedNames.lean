import StackScript.Proofs.Derivation

/-!
# Reserved names and definitions

The names of the primitives are reserved, and so are the two words around a definition.  A definition
of `:` or of `;` is refused.  One of a primitive is not: it compiles and binds the name, though every
token that spells the name still means the primitive.

* `Reserved` — the reserved names.
* `NamedIn` — a name stands right behind a `:`, which is what makes it the name of a definition.
* `Compiles.binds_iff` — the names that compiled code binds are exactly those, wherever the definition
  stands: at the top, in a branch or in a body.
* `Compiles.calls_unreserved` — compiled code never calls a word by the name of a primitive.

Principal result: `reserved_names_bound_iff`, which tells the rows that bind a reserved name from those
that do not.
-/

set_option autoImplicit false

namespace StackScript

/-- The name of a primitive, or one of the two words around a definition. -/
def Reserved (name : String) : Prop :=
  (Primitive.ofName? name).isSome ∨ name = ":" ∨ name = ";"

instance (name : String) : Decidable (Reserved name) := inferInstanceAs (Decidable (_ ∨ _ ∨ _))

/-- In the row, a token that spells the name stands right behind a `:`. -/
def NamedIn (name : String) : List Token → Prop
  | [] => False
  | token :: rest =>
    (token.text = ":" ∧ rest.head?.map Token.text = some name) ∨ NamedIn name rest

/-- The code, or the body of a word that is defined there, binds the name. -/
def Code.Binds (code : Code) (name : String) : Prop :=
  ∃ location body, code.Holds (.define location name body)

namespace NamedIn

variable {name : String}

theorem append_right (before : List Token) {row : List Token} (h : NamedIn name row) :
    NamedIn name (before ++ row) := by
  induction before with
  | nil => exact h
  | cons token before ih => exact Or.inr ih

theorem append_left (after : List Token) {row : List Token} (h : NamedIn name row) :
    NamedIn name (row ++ after) := by
  induction row with
  | nil => exact h.elim
  | cons token row ih =>
    rcases h with ⟨hcolon, hname⟩ | h
    · cases row with
      | nil => cases hname
      | cons next row => exact Or.inl ⟨hcolon, hname⟩
    · exact Or.inr (ih h)

/-- A token other than `:` names nothing by itself. -/
theorem of_cons {token : Token} {row : List Token} (htoken : token.text ≠ ":")
    (h : NamedIn name (token :: row)) : NamedIn name row :=
  h.resolve_left fun hcolon => htoken hcolon.1

end NamedIn

namespace Code.Binds

variable {name : String} {first : Instruction} {code other : Code}

theorem cons (h : code.Binds name) : Binds (first :: code) name := by
  obtain ⟨location, body, hd⟩ := h
  exact ⟨location, body, Code.holds_cons.2 (Or.inr hd)⟩

theorem body {location : Option Location} {bound : String} (h : Binds other name) :
    Binds (.define location bound other :: code) name := by
  obtain ⟨place, body, hd⟩ := h
  exact ⟨place, body, Code.holds_cons.2 (Or.inl (Or.inr ⟨_, _, _, rfl, hd⟩))⟩

theorem append_left (h : code.Binds name) : Binds (code ++ other) name := by
  obtain ⟨location, body, hd⟩ := h
  exact ⟨location, body, Code.holds_append.2 (Or.inl hd)⟩

theorem append_right (h : other.Binds name) : Binds (code ++ other) name := by
  obtain ⟨location, body, hd⟩ := h
  exact ⟨location, body, Code.holds_append.2 (Or.inr hd)⟩

end Code.Binds

/-! ## Names behind a colon -/

/-- A name behind a `:` is bound by the code, unless it stands behind the compiled row: no `:` of a
compiled row is its last token. -/
theorem Compiles.binds_or_named {tokens : List Token} {code : Code} {name : String}
    (h : Compiles tokens code) :
    ∀ {more : List Token}, NamedIn name (tokens ++ more) → code.Binds name ∨ NamedIn name more := by
  induction h with
  | nil => exact fun hn => Or.inr hn
  | plain hplain _ ih => exact fun hn => (ih (hn.of_cons hplain.1)).imp_left .cons
  | @definition colon token semicolon body after bodyCode code _ hname hsemicolon _ _ _ ihbody
      ihafter =>
    intro more hn
    rcases hn with ⟨-, htoken⟩ | hn
    · obtain rfl : token.text = name := Option.some.inj htoken
      exact Or.inl ⟨_, _, .here List.mem_cons_self⟩
    · have hsplit : NamedIn name (body ++ (semicolon :: (after ++ more))) := by
        simpa using NamedIn.of_cons hname.2 hn
      rcases ihbody hsplit with hb | hn
      · exact Or.inl hb.body
      · have hne : semicolon.text ≠ ":" := by rw [hsemicolon]; decide
        exact (ihafter (hn.of_cons hne)).imp_left .cons
  | @conditional opening middle closing whenTrue whenFalse after trueCode falseCode code hopening
      hmiddle hclosing _ _ _ _ _ ihtrue ihfalse ihafter =>
    intro more hn
    have hopen : opening.text ≠ ":" := by rw [hopening]; decide
    have hmid : middle.text ≠ ":" := by rw [hmiddle]; decide
    have hclose : closing.text ≠ ":" := by rw [hclosing]; decide
    have hsplit : NamedIn name
        (whenTrue ++ (middle :: (whenFalse ++ (closing :: (after ++ more))))) := by
      simpa using hn.of_cons hopen
    rcases ihtrue hsplit with hb | hn
    · exact Or.inl (Code.Binds.append_left (Code.Binds.cons hb.append_left))
    · rcases ihfalse (hn.of_cons hmid) with hb | hn
      · exact Or.inl (Code.Binds.append_left (Code.Binds.cons (Code.Binds.append_right hb.cons)))
      · exact (ihafter (hn.of_cons hclose)).imp_left .append_right

/-- Whatever compiled code binds stands behind a `:`, and is neither `:` nor `;`. -/
theorem Compiles.named_of_binds {tokens : List Token} {code : Code} {name : String}
    (h : Compiles tokens code) (hb : code.Binds name) :
    NamedIn name tokens ∧ name ≠ ":" ∧ name ≠ ";" := by
  obtain ⟨location, bound, hd⟩ := hb
  induction h with
  | nil => exact absurd hd Code.not_holds_nil
  | @plain token rest code _ _ ih =>
    rcases Code.holds_cons.1 hd with hd | hd
    · rcases token.instruction_cases with ⟨operation, -, he⟩ | ⟨value, he⟩ | he <;> simp [he] at hd
    · exact (ih hd).imp_left Or.inr
  | @definition colon token semicolon body after bodyCode code hcolon hname _ _ _ _ ihbody ihafter =>
    rcases Code.holds_cons.1 hd with (he | ⟨_, _, _, he, hd⟩) | hd
    · cases he
      exact ⟨Or.inl ⟨hcolon, rfl⟩, hname.2, hname.1⟩
    · cases he
      exact (ihbody hd).imp_left fun hn => Or.inr (Or.inr (hn.append_left _))
    · refine (ihafter hd).imp_left fun hn => Or.inr (Or.inr ?_)
      exact NamedIn.append_right body (Or.inr hn)
  | @conditional opening middle closing whenTrue whenFalse after trueCode falseCode code _ _ _ _ _ _ _
      _ ihtrue ihfalse ihafter =>
    simp only [StackScript.conditional, Code.holds_append, List.cons_append, Code.holds_cons,
      reduceCtorEq, false_and, exists_false, or_false, false_or] at hd
    rcases hd with (hd | hd) | hd
    · exact (ihtrue hd).imp_left fun hn => Or.inr (hn.append_left _)
    · refine (ihfalse hd).imp_left fun hn => Or.inr ?_
      exact NamedIn.append_right whenTrue (Or.inr (hn.append_left _))
    · refine (ihafter hd).imp_left fun hn => Or.inr ?_
      exact NamedIn.append_right whenTrue (Or.inr (NamedIn.append_right whenFalse (Or.inr hn)))

/-- **Compiled code binds exactly the names that stand behind a `:`.** -/
theorem Compiles.binds_iff {tokens : List Token} {code : Code} (h : Compiles tokens code)
    (name : String) : code.Binds name ↔ NamedIn name tokens := by
  refine ⟨fun hb => (h.named_of_binds hb).1, fun hn => ?_⟩
  have hmore : NamedIn name (tokens ++ []) := hn.append_left []
  exact (h.binds_or_named hmore).resolve_right id

/-- A token that spells a primitive is never a call. -/
theorem Compiles.calls_unreserved {tokens : List Token} {code : Code} {location : Option Location}
    {name : String} (h : Compiles tokens code) (he : code.Holds (.execute location name)) :
    Primitive.ofName? name = none := by
  have hfrom := h.comesFrom he
  generalize hi : Instruction.execute location name = instruction at hfrom
  cases hfrom with
  | @plain token hm =>
    unfold Token.instruction at hi
    split at hi
    · cases hi
    · rename_i hnone
      split at hi
      · cases hi
      · split at hi
        · cases hi
        · cases hi
          exact hnone
  | definition location body hm => cases hi
  | jumpIfFalse location offset => cases hi
  | jump location offset => cases hi

/-! ## Sources -/

theorem compileSource_of_scan {path source : String} {tokens : List Token}
    (hscan : Token.scan path source = .ok tokens) : compileSource path source = compile tokens := by
  simp only [compileSource, hscan]

/-- **Which reserved names can be defined.**  A source with a `:` or a `;` behind a `:` has a fault of
compiling.  Any other source that compiles binds no reserved name exactly if no name of a primitive
stands behind a `:`; those names are bound like any other, at every depth.  What is bound under them
can not be reached by a token, since no instruction calls a word by the name of a primitive. -/
theorem reserved_names_bound_iff {path source : String} {tokens : List Token}
    (hscan : Token.scan path source = .ok tokens) :
    (NamedIn ":" tokens ∨ NamedIn ";" tokens →
      ∃ fault, compileSource path source = .error fault ∧ fault.AtTokenOf tokens) ∧
    ∀ code, compileSource path source = .ok code →
      ((∀ location name body, code.Holds (.define location name body) → ¬ Reserved name) ↔
        ∀ operation : Primitive, ¬ NamedIn operation.name tokens) ∧
      (∀ name, code.Binds name ↔ NamedIn name tokens) ∧
      ∀ location name, code.Holds (.execute location name) → Primitive.ofName? name = none := by
  rw [compileSource_of_scan hscan]
  constructor
  · intro hnamed
    cases hc : compile tokens with
    | error fault => exact ⟨fault, rfl, compile_error hc⟩
    | ok code =>
      have h := compiles_of_compile hc
      rcases hnamed with hn | hn
      · exact absurd rfl (h.named_of_binds ((h.binds_iff _).2 hn)).2.1
      · exact absurd rfl (h.named_of_binds ((h.binds_iff _).2 hn)).2.2
  · intro code hc
    have h := compiles_of_compile hc
    refine ⟨⟨fun hnone operation hn => ?_, fun hnone location name body hd hr => ?_⟩, h.binds_iff,
      fun _ _ => h.calls_unreserved⟩
    · obtain ⟨location, body, hd⟩ := (h.binds_iff _).2 hn
      exact hnone location operation.name body hd (Or.inl (by simp))
    · obtain ⟨hn, hcolon, hsemicolon⟩ := h.named_of_binds ⟨location, body, hd⟩
      rcases hr with hr | hr
      · obtain ⟨operation, ho⟩ := Option.isSome_iff_exists.1 hr
        refine hnone operation ?_
        rw [Primitive.name_of_ofName? ho]
        exact hn
      · exact hr.elim hcolon hsemicolon

/-- A primitive bound in a branch of a conditional, and a `:` that is refused as a name. -/
theorem reserved_names_bound_iff_branch :
    (∃ code, compileSource "branch" "if : + ; then else" = .ok code ∧ code.Binds "+") ∧
      ∃ fault, compileSource "branch" ": : ;" = .error fault ∧ fault.kind = .compile := by
  constructor
  · have hname : Compiles [⟨⟨"branch", 1, 4⟩, ":"⟩, ⟨⟨"branch", 1, 6⟩, "+"⟩, ⟨⟨"branch", 1, 8⟩, ";"⟩]
        [.define (some ⟨"branch", 1, 4⟩) "+" []] :=
      @Compiles.definition ⟨⟨"branch", 1, 4⟩, ":"⟩ ⟨⟨"branch", 1, 6⟩, "+"⟩ ⟨⟨"branch", 1, 8⟩, ";"⟩ [] []
        [] [] rfl (by decide) rfl (by unfold Lacks; decide) .nil .nil
    have hcode := @Compiles.conditional ⟨⟨"branch", 1, 1⟩, "if"⟩ ⟨⟨"branch", 1, 10⟩, "then"⟩
      ⟨⟨"branch", 1, 15⟩, "else"⟩ _ [] [] _ [] [] rfl rfl rfl (by unfold Lacks; decide)
      (by unfold Lacks; decide) hname .nil .nil
    have hcompile : compileSource "branch" "if : + ; then else" = .ok _ :=
      (compileSource_of_scan rfl).trans (compile_of_compiles hcode)
    refine ⟨_, hcompile, (((reserved_names_bound_iff rfl).2 _ hcompile).2.1 "+").2 ?_⟩
    exact Or.inr (Or.inl ⟨rfl, rfl⟩)
  · obtain ⟨fault, hfault, cause, token, -, hkind, rfl⟩ :=
      (@reserved_names_bound_iff "branch" ": : ;" _ rfl).1 (Or.inl (Or.inl ⟨rfl, rfl⟩))
    exact ⟨_, hfault, hkind⟩

/-- A definition of a primitive is not refused. -/
theorem primitive_name_defined :
    ∃ code location body, compileSource "<test>" ": dup 1 ;" = .ok code ∧
      code.Holds (.define location "dup" body) ∧ Reserved "dup" := by
  have hone : Compiles [⟨⟨"<test>", 1, 7⟩, "1"⟩] [(Token.mk ⟨"<test>", 1, 7⟩ "1").instruction] :=
    .plain (show "1" ≠ ":" ∧ "1" ≠ "if" by decide) .nil
  have hcode := @Compiles.definition ⟨⟨"<test>", 1, 1⟩, ":"⟩ ⟨⟨"<test>", 1, 3⟩, "dup"⟩
    ⟨⟨"<test>", 1, 9⟩, ";"⟩ _ [] _ [] rfl (by decide) rfl (by unfold Lacks; decide) hone .nil
  have hcompile : compileSource "<test>" ": dup 1 ;" = .ok _ :=
    (compileSource_of_scan rfl).trans (compile_of_compiles hcode)
  exact ⟨_, _, _, hcompile, .here List.mem_cons_self, by decide⟩

end StackScript
