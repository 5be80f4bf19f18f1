import StackScript.Proofs.Derivation

/-!
# Compiling by index

`compile` takes a row of tokens apart from its front.  The same can be done in place: a loop keeps an
index into the row, terminators are looked for from an index on, and the spans of definitions and
conditionals are cut out by their bounds.  Done so, a bound might lie outside the row, and the loop might
not come to its end.

* `Access`, `Work` — what is done with a row, and work that keeps account of it.  A token or a span that
  is not there stops the work, and so does the end of the fuel.
* `findText` — where the next token with some text stands; `definitionAt`, `conditionalAt`, `phraseAt`,
  `compileFrom` — a row compiled by index.
* `Work.Meets`, `Work.EndsAs` — every access was in range, and what came of the work.
* `findText_cases` — a search by index against a cut.
* `TakesPhrase` — what one turn of the loop does (`meets_definitionAt`, `meets_conditionalAt`,
  `meets_phraseAt`); `endsAs_compileFrom` — the whole loop.

Principal result: `indices_in_range`.
-/

set_option autoImplicit false

namespace StackScript

namespace ByIndex

/-! ## Work that keeps account of its accesses -/

/-- What is done with a row: the token at an index is read, the tokens from one index up to another are cut
out, a part is compiled by itself, or the loop over the row goes on at another index. -/
inductive Access where
  | token (row : List Token) (index : Nat)
  | slice (row : List Token) (lower upper : Nat)
  | descent (row part : List Token)
  | advance (row : List Token) (index next : Nat)
deriving DecidableEq, Repr

/-- The access stays inside the row, and leaves less of it. -/
def Access.InRange : Access → Prop
  | .token row index => index < row.length
  | .slice row lower upper => lower ≤ upper ∧ upper ≤ row.length
  | .descent row part => part.length < row.length
  | .advance row index next => index < next ∧ next ≤ row.length

/-- Why work stops early: the tokens form no program, a token or a span is not there, or the fuel is used
up. -/
inductive Stop where
  | fault (fault : Fault)
  | outside
  | unfinished
deriving DecidableEq, Repr

/-- Work by index: everything that was done, first to last, and what came of it. -/
structure Work (α : Type) where
  accesses : List Access
  result : Except Stop α

namespace Work

variable {α β : Type}

/-- Some work, and then more unless it stops.  What was done before a stop stays on the account. -/
def andThen (work : Work α) (next : α → Work β) : Work β :=
  match work.result with
  | .error stop => ⟨work.accesses, .error stop⟩
  | .ok value => ⟨work.accesses ++ (next value).accesses, (next value).result⟩

instance : Monad Work where
  pure value := ⟨[], .ok value⟩
  bind := andThen

def note (access : Access) : Work Unit := ⟨[access], .ok ()⟩

def stop (reason : Stop) : Work α := ⟨[], .error reason⟩

end Work

/-! ## A row compiled by index -/

def tokenAt (row : List Token) (index : Nat) : Work Token := do
  Work.note (.token row index)
  match row[index]? with
  | some token => pure token
  | none => Work.stop .outside

def slice (row : List Token) (lower upper : Nat) : Work (List Token) := do
  Work.note (.slice row lower upper)
  if lower ≤ upper ∧ upper ≤ row.length then pure ((row.take upper).drop lower)
  else Work.stop .outside

/-- Compile the tokens from one index up to another by themselves. -/
def compileSpan (inner : List Token → Work Code) (row : List Token) (lower upper : Nat) :
    Work Code := do
  let part ← slice row lower upper
  Work.note (.descent row part)
  inner part

/-- Where the first token that spells `text` stands, at `start` or behind it. -/
def findText (row : List Token) (start : Nat) (text : String) : Option Nat :=
  ((row.drop start).findIdx? fun token => token.text == text).map (start + ·)

/-- Add the definition whose `:` stands at `start` to the code, and find the index behind it. -/
def definitionAt (inner : List Token → Work Code) (row : List Token) (start : Nat) (code : Code) :
    Work (Code × Nat) := do
  let colon ← tokenAt row start
  match row[start + 1]? with
  | none => Work.stop (.fault (Fault.inSource .missingName colon.location))
  | some name =>
    if name.text = ";" ∨ name.text = ":" then
      Work.stop (.fault (Fault.inSource (.forbiddenName name.text) name.location))
    else
      -- the search begins at the name, which is no `;`
      match findText row (start + 1) ";" with
      | none => Work.stop (.fault (Fault.inSource (.missingSemicolon name.text) name.location))
      | some close => do
        let bodyCode ← compileSpan inner row (start + 2) close
        pure (code ++ [.define (some colon.location) name.text bodyCode], close + 1)

/-- Add the conditional whose `if` stands at `start` to the code, and find the index behind it. -/
def conditionalAt (inner : List Token → Work Code) (row : List Token) (start : Nat) (code : Code) :
    Work (Code × Nat) := do
  let opening ← tokenAt row start
  -- both searches begin at a token that spells something else
  match findText row start "then" with
  | none => Work.stop (.fault (Fault.inSource .missingThen opening.location))
  | some thenIndex => do
    let trueCode ← compileSpan inner row (start + 1) thenIndex
    match findText row thenIndex "else" with
    | none => do
      let middle ← tokenAt row thenIndex
      Work.stop (.fault (Fault.inSource .missingElse middle.location))
    | some elseIndex => do
      let falseCode ← compileSpan inner row (thenIndex + 1) elseIndex
      let middle ← tokenAt row thenIndex
      pure (code ++ conditional opening.location middle.location trueCode falseCode, elseIndex + 1)

/-- Add what begins at `index` to the code, and find the index behind it. -/
def phraseAt (inner : List Token → Work Code) (row : List Token) (index : Nat) (code : Code) :
    Work (Code × Nat) := do
  let token ← tokenAt row index
  if token.text = ":" then definitionAt inner row index code
  else if token.text = "if" then conditionalAt inner row index code
  else pure (code ++ [token.instruction], index + 1)

/-- Add what the row holds from `index` on to the code.  A turn of the loop takes one unit of fuel, and so
does the compiling of a part. -/
def compileFrom : Nat → List Token → Nat → Code → Work Code
  | 0, _, _, _ => Work.stop .unfinished
  | fuel + 1, row, index, code =>
    if index < row.length then do
      let (code, next) ← phraseAt (fun part => compileFrom fuel part 0 []) row index code
      Work.note (.advance row index next)
      compileFrom fuel row next code
    else pure code

/-! ## What comes of work -/

namespace Work

variable {α β : Type}

/-- Every access was in range, and what came of the work is as said. -/
structure Meets (work : Work α) (post : Except Stop α → Prop) : Prop where
  inRange : ∀ access ∈ work.accesses, access.InRange
  result : post work.result

/-- Every access was in range, and the work ends with the given result. -/
def EndsAs (work : Work α) (result : Except Fault α) : Prop :=
  work.Meets (· = result.mapError .fault)

theorem meets_pure {post : Except Stop α → Prop} {value : α} (h : post (.ok value)) :
    (pure value : Work α).Meets post :=
  ⟨fun _ hm => absurd hm List.not_mem_nil, h⟩

theorem meets_stop {post : Except Stop α → Prop} {reason : Stop} (h : post (.error reason)) :
    (stop reason : Work α).Meets post :=
  ⟨fun _ hm => absurd hm List.not_mem_nil, h⟩

theorem endsAs_note (access : Access) (h : access.InRange) : (note access).EndsAs (.ok ()) :=
  ⟨fun _ hm => List.mem_singleton.1 hm ▸ h, rfl⟩

theorem Meets.bind {work : Work α} {next : α → Work β} {post : Except Stop α → Prop}
    {post' : Except Stop β → Prop} (h : work.Meets post)
    (hok : ∀ value, post (.ok value) → (next value).Meets post')
    (herror : ∀ stop, post (.error stop) → post' (.error stop)) :
    (work >>= next).Meets post' := by
  obtain ⟨hrange, hpost⟩ := h
  show (work.andThen next).Meets post'
  unfold andThen
  cases hr : work.result with
  | error reason =>
    rw [hr] at hpost
    exact ⟨hrange, herror reason hpost⟩
  | ok value =>
    rw [hr] at hpost
    obtain ⟨hrange', hpost'⟩ := hok value hpost
    refine ⟨fun access hm => ?_, hpost'⟩
    exact (List.mem_append.1 hm).elim (hrange access) (hrange' access)

theorem EndsAs.andThen {work : Work α} {next : α → Work β} {value : α}
    {post : Except Stop β → Prop} (h : work.EndsAs (.ok value)) (hnext : (next value).Meets post) :
    (work >>= next).Meets post := by
  refine Meets.bind h (fun other he => ?_) fun reason he => ?_
  · cases he
    exact hnext
  · cases he

theorem EndsAs.bind {work : Work α} {next : α → Work β} {result : Except Fault α}
    {post : Except Stop β → Prop} (h : work.EndsAs result)
    (hok : ∀ value, result = .ok value → (next value).Meets post)
    (herror : ∀ fault, result = .error fault → post (.error (.fault fault))) :
    (work >>= next).Meets post := by
  cases result with
  | ok value => exact h.andThen (hok value rfl)
  | error fault =>
    refine Meets.bind h (fun value he => ?_) fun reason he => ?_
    · cases he
    · cases he
      exact herror fault rfl

end Work

/-! ## Reading, cutting and searching -/

open Work

variable {row done rest : List Token}

theorem endsAs_tokenAt {token : Token} {index : Nat} (hrow : row = done ++ token :: rest)
    (hindex : index = done.length) : (tokenAt row index).EndsAs (.ok token) := by
  subst hrow hindex
  have hlt : done.length < (done ++ token :: rest).length := by
    rw [List.length_append, List.length_cons]
    omega
  have hget : (done ++ token :: rest)[done.length]? = some token := by
    rw [List.getElem?_append_right (Nat.le_refl _), Nat.sub_self]
    rfl
  refine (endsAs_note (.token _ _) hlt).andThen ?_
  rw [hget]
  exact meets_pure rfl

theorem endsAs_slice {part after : List Token} {lower upper : Nat}
    (hrow : row = done ++ (part ++ after)) (hlower : lower = done.length)
    (hupper : upper = lower + part.length) : (slice row lower upper).EndsAs (.ok part) := by
  have hbounds : lower ≤ upper ∧ upper ≤ row.length := by
    rw [hrow, List.length_append, List.length_append]
    omega
  have hpart : (row.take upper).drop lower = part := by
    subst hrow hlower hupper
    rw [List.take_length_add_append, List.drop_left, List.take_left]
  refine (endsAs_note (.slice row lower upper) hbounds).andThen ?_
  rw [if_pos hbounds, hpart]
  exact meets_pure rfl

/-- `inner` compiles all rows with fewer tokens. -/
def CompilesBelow (inner : List Token → Work Code) (n : Nat) : Prop :=
  ∀ part : List Token, part.length < n → (inner part).EndsAs (compile part)

/-- A span is shorter than the row, since what opens it is not in it. -/
theorem endsAs_compileSpan {inner : List Token → Work Code} {part after : List Token}
    {n lower upper : Nat} (hinner : CompilesBelow inner n) (hlt : part.length < n)
    (hrow : row = done ++ (part ++ after)) (hlower : lower = done.length)
    (hupper : upper = lower + part.length) (hpos : 0 < lower) :
    (compileSpan inner row lower upper).EndsAs (compile part) := by
  have hshorter : part.length < row.length := by
    rw [hrow, List.length_append, List.length_append]
    omega
  refine (endsAs_slice hrow hlower hupper).andThen ?_
  exact (endsAs_note (.descent row part) hshorter).andThen (hinner part hlt)

/-- The search by index finds what the cut finds. -/
theorem findIdx?_eq_splitAtText (text : String) (rest : List Token) :
    (rest.findIdx? fun token => token.text == text) =
      (splitAtText text rest).map fun cut => cut.1.length := by
  induction rest with
  | nil => rfl
  | cons token rest ih =>
    rw [List.findIdx?_cons, splitAtText, ih]
    by_cases h : token.text = text
    · simp [h]
    · simp only [beq_iff_eq, if_neg h, Option.map_map]
      rfl

/-- **A search that begins at a token with another text finds what a cut of the tokens behind it
finds.** -/
theorem findText_cases {text : String} {token : Token} {start : Nat} (hrow : row = done ++ token :: rest)
    (hstart : start = done.length) (htoken : token.text ≠ text) :
    (findText row start text = none ∧ splitAtText text rest = none) ∨
    ∃ before found after, findText row start text = some (start + 1 + before.length) ∧
      splitAtText text rest = some (before, found, after) ∧ rest = before ++ found :: after ∧
      found.text = text := by
  have hfind : findText row start text =
      (splitAtText text rest).map fun cut => start + 1 + cut.1.length := by
    rw [findText, hrow, hstart, List.drop_left, findIdx?_eq_splitAtText, splitAtText, if_neg htoken,
      Option.map_map, Option.map_map]
    congr 1
    funext cut
    simp only [Function.comp_apply, List.length_cons]
    omega
  cases hs : splitAtText text rest with
  | none =>
    rw [hs] at hfind
    exact Or.inl ⟨hfind, rfl⟩
  | some cut =>
    obtain ⟨before, found, after⟩ := cut
    rw [hs] at hfind
    obtain ⟨hrest, hfound, -⟩ := eq_of_splitAtText hs
    exact Or.inr ⟨before, found, after, hfind, rfl, hrest, hfound⟩

/-! ## One turn of the loop -/

/-- What comes of one turn of the loop, where `rest` is what the row holds from `start` on: a fault, and
then `rest` has that fault, or code to add, and an index further on from which the remaining code of `rest`
is to be had. -/
inductive TakesPhrase (row rest : List Token) (start : Nat) (code : Code) :
    Except Stop (Code × Nat) → Prop where
  | fault {fault : Fault} (h : compile rest = .error fault) :
      TakesPhrase row rest start code (.error (.fault fault))
  | phrase {done after : List Token} {first : Code} {next : Nat} (hrow : row = done ++ after)
      (hnext : next = done.length) (hlt : start < next)
      (h : compile rest = (compile after).map (first ++ ·)) :
      TakesPhrase row rest start code (.ok (code ++ first, next))

variable {inner : List Token → Work Code} {code : Code}

theorem meets_definitionAt {colon : Token} (hrow : row = done ++ colon :: rest)
    (hcolon : colon.text = ":") (hinner : CompilesBelow inner rest.length) :
    (definitionAt inner row done.length code).Meets
      (TakesPhrase row (colon :: rest) done.length code) := by
  refine (endsAs_tokenAt hrow rfl).andThen ?_
  cases rest with
  | nil =>
    have hget : row[done.length + 1]? = none := by simp [hrow]
    rw [hget]
    exact meets_stop (.fault (compile_missingName hcolon))
  | cons name rest =>
    have hget : row[done.length + 1]? = some name := by simp [hrow]
    rw [hget]
    by_cases hname : name.text = ";" ∨ name.text = ":"
    · simp only [if_pos hname]
      exact meets_stop (.fault (compile_forbiddenName hcolon hname rest))
    · have hcompile := compile_colon hcolon hname rest
      have hfrom : row = (done ++ [colon]) ++ name :: rest := by simp [hrow]
      have hstart : done.length + 1 = (done ++ [colon]).length := by simp
      simp only [if_neg hname]
      -- the name is no `;`, so what is found stands behind it and the bounds of the body do not cross
      rcases findText_cases hfrom hstart (not_or.1 hname).1 with
        ⟨hfind, hs⟩ | ⟨body, semicolon, after, hfind, hs, rfl, -⟩
      · simp only [hs] at hcompile
        simp only [hfind]
        exact meets_stop (.fault hcompile)
      · have hbody : row = (done ++ [colon, name]) ++ (body ++ semicolon :: after) := by simp [hrow]
        have hbehind : row = (done ++ colon :: name :: (body ++ [semicolon])) ++ after := by
          simp [hrow]
        have hlt : body.length < (name :: (body ++ semicolon :: after)).length := by
          simp only [List.length_cons, List.length_append]
          omega
        simp only [hs] at hcompile
        simp only [hfind]
        refine (endsAs_compileSpan hinner hlt hbody (by simp) rfl (by omega)).bind
          (fun bodyCode hok => ?_) fun fault herror => ?_
        · rw [hok] at hcompile
          refine meets_pure (.phrase hbehind ?_ (by omega) hcompile)
          simp only [List.length_append, List.length_cons, List.length_nil]
          omega
        · rw [herror] at hcompile
          exact .fault hcompile

theorem meets_conditionalAt {opening : Token} (hrow : row = done ++ opening :: rest)
    (hopening : opening.text = "if") (hinner : CompilesBelow inner rest.length) :
    (conditionalAt inner row done.length code).Meets
      (TakesPhrase row (opening :: rest) done.length code) := by
  have hcompile := compile_if hopening rest
  have hne : opening.text ≠ "then" := by rw [hopening]; decide
  refine (endsAs_tokenAt hrow rfl).andThen ?_
  rcases findText_cases hrow rfl hne with
    ⟨hfind, hs⟩ | ⟨whenTrue, middle, rest', hfind, hs, rfl, hmiddle⟩
  · simp only [hs] at hcompile
    simp only [hfind]
    exact meets_stop (.fault hcompile)
  · have htrue : row = (done ++ [opening]) ++ (whenTrue ++ middle :: rest') := by simp [hrow]
    have hthen : row = (done ++ opening :: whenTrue) ++ middle :: rest' := by simp [hrow]
    have hindex : done.length + 1 + whenTrue.length = (done ++ opening :: whenTrue).length := by
      simp only [List.length_append, List.length_cons]
      omega
    have hlt : whenTrue.length < (whenTrue ++ middle :: rest').length := by simp
    have hne : middle.text ≠ "else" := by rw [hmiddle]; decide
    simp only [hs] at hcompile
    simp only [hfind]
    refine (endsAs_compileSpan hinner hlt htrue (by simp) rfl (by omega)).bind
      (fun trueCode hok => ?_) fun fault herror => ?_
    · simp only [hok, Except.bind] at hcompile
      -- an `else` before the `then` is not seen, and the `then` is none itself
      rcases findText_cases hthen hindex hne with
        ⟨hfind, hs⟩ | ⟨whenFalse, closing, after, hfind, hs, rfl, -⟩
      · simp only [hs] at hcompile
        simp only [hfind]
        exact (endsAs_tokenAt hthen hindex).andThen (meets_stop (.fault hcompile))
      · have hfalse : row = (done ++ opening :: (whenTrue ++ [middle])) ++
            (whenFalse ++ closing :: after) := by simp [hrow]
        have hbehind : row = (done ++ opening :: (whenTrue ++ middle :: (whenFalse ++ [closing]))) ++
            after := by simp [hrow]
        have hlt : whenFalse.length < (whenTrue ++ middle :: (whenFalse ++ closing :: after)).length := by
          simp only [List.length_append, List.length_cons]
          omega
        have hlower : done.length + 1 + whenTrue.length + 1 =
            (done ++ opening :: (whenTrue ++ [middle])).length := by
          simp only [List.length_append, List.length_cons, List.length_nil]
          omega
        simp only [hs] at hcompile
        simp only [hfind]
        refine (endsAs_compileSpan hinner hlt hfalse hlower rfl (by omega)).bind
          (fun falseCode hok => ?_) fun fault herror => ?_
        · simp only [hok] at hcompile
          refine (endsAs_tokenAt hthen hindex).andThen
            (meets_pure (.phrase hbehind ?_ (by omega) hcompile))
          simp only [List.length_append, List.length_cons, List.length_nil]
          omega
        · rw [herror] at hcompile
          exact .fault hcompile
    · rw [herror] at hcompile
      exact .fault hcompile

/-- **One turn of the loop takes one phrase.** -/
theorem meets_phraseAt {token : Token} (hrow : row = done ++ token :: rest)
    (hinner : CompilesBelow inner rest.length) :
    (phraseAt inner row done.length code).Meets
      (TakesPhrase row (token :: rest) done.length code) := by
  refine (endsAs_tokenAt hrow rfl).andThen ?_
  by_cases hcolon : token.text = ":"
  · rw [if_pos hcolon]
    exact meets_definitionAt hrow hcolon hinner
  · by_cases hif : token.text = "if"
    · rw [if_neg hcolon, if_pos hif]
      exact meets_conditionalAt hrow hif hinner
    · rw [if_neg hcolon, if_neg hif]
      have hbehind : row = (done ++ [token]) ++ rest := by simp [hrow]
      exact meets_pure (.phrase hbehind (by simp) (by omega) (compile_plain ⟨hcolon, hif⟩ rest))

/-! ## The whole loop -/

theorem map_nil_append (result : Except Fault Code) : result.map ([] ++ ·) = result := by
  cases result <;> rfl

theorem map_append_map (code first : Code) (result : Except Fault Code) :
    (result.map (first ++ ·)).map (code ++ ·) = result.map (code ++ first ++ ·) := by
  cases result with
  | error fault => rfl
  | ok more => simp only [Except.map, List.append_assoc]

/-- **The loop adds the code of what is left of the row**, and more fuel than there are tokens left is
enough for it. -/
theorem endsAs_compileFrom {fuel index : Nat} (hrow : row = done ++ rest) (hindex : index = done.length)
    (hfuel : rest.length < fuel) :
    (compileFrom fuel row index code).EndsAs ((compile rest).map (code ++ ·)) := by
  -- by the fuel, for all rows at once: the parts that are compiled by themselves are rows of their own
  induction fuel generalizing row done rest index code with
  | zero => omega
  | succ fuel ih =>
    subst hindex
    rw [compileFrom]
    cases rest with
    | nil =>
      have hend : ¬ done.length < row.length := by simp [hrow]
      rw [if_neg hend, compile]
      refine meets_pure ?_
      show Except.ok code = Except.ok (code ++ [])
      rw [List.append_nil]
    | cons token rest =>
      have hlength : row.length = done.length + (rest.length + 1) := by
        rw [hrow, List.length_append, List.length_cons]
      rw [List.length_cons] at hfuel
      rw [if_pos (by omega)]
      refine (meets_phraseAt hrow fun part hpart => ?_).bind ?_ ?_
      · have hinner := @ih part [] part [] 0 rfl rfl (by omega)
        rwa [map_nil_append] at hinner
      · rintro ⟨code', next⟩ hphrase
        cases hphrase with
        | @phrase before after first _ hrow' hnext hlt h =>
          have hlength' : row.length = before.length + after.length := by
            rw [hrow', List.length_append]
          refine (endsAs_note (.advance row done.length next) ⟨hlt, by omega⟩).andThen ?_
          rw [h, map_append_map]
          exact ih hrow' hnext (by omega)
      · intro reason hphrase
        cases hphrase with
        | fault h =>
          rw [h]
          rfl

end ByIndex

open ByIndex

/-- **Compiling by index stays inside the row and ends.**  Whatever the tokens are: every token that is
read on the way is there; every span that is cut out begins at or before its end, which is not beyond the
end of its row; every part that is compiled by itself is shorter than the row it was cut from; and every
turn of the loop goes on at a later index, which is not beyond the end of its row.  More fuel than there
are tokens is enough, and what comes of it is what `compile` gives, be it code or a fault. -/
theorem indices_in_range {tokens : List Token} {fuel : Nat} (hfuel : tokens.length < fuel) :
    (∀ row index, .token row index ∈ (compileFrom fuel tokens 0 []).accesses → index < row.length) ∧
    (∀ row lower upper, .slice row lower upper ∈ (compileFrom fuel tokens 0 []).accesses →
      lower ≤ upper ∧ upper ≤ row.length) ∧
    (∀ row part, .descent row part ∈ (compileFrom fuel tokens 0 []).accesses →
      part.length < row.length) ∧
    (∀ row index next, .advance row index next ∈ (compileFrom fuel tokens 0 []).accesses →
      index < next ∧ next ≤ row.length) ∧
    (compileFrom fuel tokens 0 []).result = (compile tokens).mapError .fault := by
  obtain ⟨hrange, hresult⟩ := @endsAs_compileFrom tokens [] tokens [] fuel 0 rfl rfl hfuel
  rw [map_nil_append] at hresult
  exact ⟨fun row index => hrange _, fun row lower upper => hrange _, fun row part => hrange _,
    fun row index next => hrange _, hresult⟩

/-- Spans without a token: the bounds of both branches touch, and the loop ends right behind the last word.
The body of `f` is a row of three tokens, the whole is one of seven. -/
theorem indices_in_range_touching :
    ∃ tokens, Token.scan "<test>" ": f if then else ; f" = .ok tokens ∧ tokens.length < 8 ∧
      ((compileFrom 8 tokens 0 []).accesses.filterMap fun
        | .slice row lower upper => some (row.length, lower, upper)
        | _ => none) = [(7, 2, 5), (3, 1, 1), (3, 2, 2)] ∧
      ((compileFrom 8 tokens 0 []).accesses.filterMap fun
        | .advance row index next => some (row.length, index, next)
        | _ => none) = [(3, 0, 3), (7, 0, 6), (7, 6, 7)] ∧
      (∀ row part, .descent row part ∈ (compileFrom 8 tokens 0 []).accesses →
        part.length < row.length) ∧
      (compileFrom 8 tokens 0 []).result = (compile tokens).mapError .fault := by
  refine ⟨[⟨⟨"<test>", 1, 1⟩, ":"⟩, ⟨⟨"<test>", 1, 3⟩, "f"⟩, ⟨⟨"<test>", 1, 5⟩, "if"⟩,
    ⟨⟨"<test>", 1, 8⟩, "then"⟩, ⟨⟨"<test>", 1, 13⟩, "else"⟩, ⟨⟨"<test>", 1, 18⟩, ";"⟩,
    ⟨⟨"<test>", 1, 20⟩, "f"⟩], rfl, by decide, rfl, rfl, ?_⟩
  exact ⟨(indices_in_range (by decide)).2.2.1, (indices_in_range (by decide)).2.2.2.2⟩

end StackScript
