import StackScript.Proofs.Lexemes

/-!
# Where tokens stand

A scan counts lines and columns as it goes.  What it counts is the place of each lexeme in the source as
a whole, which depends on the characters before it and on nothing else:

* `Location.behind` — the place behind some characters of a source, by counting them from its start.
* `Lexeme.placed` — the tokens of lexemes that are laid out, each with the place behind all that stands
  before it.
* `Lexeme.Unclosed` — characters that open a string literal and do not close it on its line.
* `Token.scanFrom_layout` — a scan reads lexemes that are laid out, and goes on behind them.
* `Lexeme.parted` — every source is laid out, to its end or up to a string literal that is not closed.

Principal result: `scan_places_exact`.
-/

set_option autoImplicit false

namespace StackScript

/-! ## Places by counting -/

namespace Location

/-- The place behind some characters: a line more than there are line feeds among them, and a column more
than there are characters since the last of these. -/
def behind (path : String) (before : List Char) : Location :=
  ⟨path, 1 + before.count '\n', 1 + (before.reverse.takeWhile (· ≠ '\n')).length⟩

theorem behind_concat (path : String) (before : List Char) (c : Char) :
    behind path (before ++ [c]) = (behind path before).advance c := by
  unfold behind advance
  by_cases hc : c = '\n'
  · subst hc
    simp [Nat.add_assoc]
  · simp [hc, Nat.add_comm]

theorem advanceBy_behind (path : String) (before more : List Char) :
    (behind path before).advanceBy more = behind path (before ++ more) := by
  induction more generalizing before with
  | nil => rw [advanceBy_nil, List.append_nil]
  | cons c more ih =>
    rw [advanceBy_cons, ← behind_concat, ih, List.append_assoc, List.singleton_append]

theorem Precedes.trans {a b c : Location} (h : a.Precedes b) (h' : b.Precedes c) : a.Precedes c := by
  unfold Precedes at *
  omega

theorem precedes_behind (path : String) (before : List Char) {more : List Char} (h : more ≠ []) :
    (behind path before).Precedes (behind path (before ++ more)) := by
  induction more generalizing before with
  | nil => exact absurd rfl h
  | cons c more ih =>
    have hnext := precedes_advance (behind path before) c
    rw [← behind_concat] at hnext
    rw [List.append_cons]
    cases more with
    | nil => rwa [List.append_nil]
    | cons d more => exact hnext.trans (ih _ (List.cons_ne_nil d more))

end Location

/-! ## Lexemes with their places -/

namespace Lexeme

/-- The tokens of lexemes that stand behind some characters. -/
def placed (path : String) : List Char → List Piece → List Token
  | _, [] => []
  | before, piece :: pieces =>
    ⟨Location.behind path before, piece.text⟩ :: placed path (layout before [piece]) pieces

theorem layout_nil (gap : List Char) : layout gap [] = gap := by
  rw [layout, List.flatMap_nil, List.append_nil]

theorem WellSpaced.nil {gap : List Char} (h : Text.Blanks gap) : WellSpaced gap [] :=
  ⟨h, by simp, by simp, by simp⟩

theorem layout_append (gap : List Char) (pieces more : List Piece) :
    layout gap (pieces ++ more) = layout (layout gap pieces) more := by
  simp [layout]

theorem length_placed (path : String) (before : List Char) (pieces : List Piece) :
    (placed path before pieces).length = pieces.length := by
  induction pieces generalizing before with
  | nil => rfl
  | cons piece pieces ih => rw [placed, List.length_cons, List.length_cons, ih]

/-- The place of a lexeme is behind all that is laid out before it. -/
theorem getElem?_placed (path : String) (gap : List Char) (before : List Piece) (piece : Piece)
    (after : List Piece) : (placed path gap (before ++ piece :: after))[before.length]? =
      some ⟨Location.behind path (layout gap before), piece.text⟩ := by
  induction before generalizing gap with
  | nil =>
    rw [List.nil_append, List.length_nil, placed, List.getElem?_cons_zero, layout_nil]
  | cons first before ih =>
    rw [List.cons_append, List.length_cons, placed, List.getElem?_cons_succ, ih, ← layout_append]
    rfl

theorem exists_of_mem_placed {path : String} {gap : List Char} {pieces : List Piece} {token : Token}
    (h : token ∈ placed path gap pieces) :
    ∃ more, token.location = Location.behind path (gap ++ more) := by
  induction pieces generalizing gap with
  | nil => cases h
  | cons piece pieces ih =>
    rcases List.mem_cons.1 h with rfl | h
    · exact ⟨[], by rw [List.append_nil]⟩
    · obtain ⟨more, he⟩ := ih h
      rw [layout, List.append_assoc] at he
      exact ⟨_, he⟩

/-- **Tokens stand in the order of their places**, since no lexeme is empty. -/
theorem pairwise_placed {pieces : List Piece} (path : String) (gap : List Char)
    (h : ∀ piece ∈ pieces, Valid piece.text) :
    (placed path gap pieces).Pairwise fun a b => a.location.Precedes b.location := by
  induction pieces generalizing gap with
  | nil => exact .nil
  | cons piece pieces ih =>
    refine .cons (fun token hm => ?_) (ih _ fun other ho => h other (List.mem_cons_of_mem piece ho))
    obtain ⟨more, he⟩ := exists_of_mem_placed hm
    obtain ⟨c, cs, hc, -⟩ := (h piece List.mem_cons_self).head
    rw [he, layout, List.append_assoc]
    refine Location.precedes_behind path gap ?_
    simp [hc]

/-! ## Where a source breaks off -/

/-- The characters open a string literal and reach the end of the source, or that of the line, before it
is closed. -/
inductive Unclosed : Fault.Cause → List Char → Prop where
  | atEnd {contents : List Char} (h : ∀ c ∈ contents, c ≠ '"' ∧ c ≠ '\n') :
      Unclosed .endInString ('"' :: contents)
  | atNewLine {contents : List Char} (h : ∀ c ∈ contents, c ≠ '"' ∧ c ≠ '\n') (rest : List Char) :
      Unclosed .newLineInString ('"' :: (contents ++ '\n' :: rest))

/-- A new token may start behind each of the lexemes. -/
def Apart (pieces : List Piece) : Prop := ∀ piece ∈ pieces, piece.gap ≠ [] ∨ Quoted piece.text

theorem Unclosed.head {cause : Fault.Cause} {cs : List Char} (h : Unclosed cause cs) :
    ∃ rest, cs = '"' :: rest := by
  cases h with
  | atEnd h => exact ⟨_, rfl⟩
  | atNewLine h rest => exact ⟨_, rfl⟩

end Lexeme

theorem Text.BlankHead.append {cs more : List Char} (h : Text.BlankHead cs)
    (hmore : cs = [] → Text.BlankHead more) : Text.BlankHead (cs ++ more) := by
  cases cs with
  | nil => exact hmore rfl
  | cons c cs =>
    intro d rest he
    cases he
    exact h c cs rfl

theorem Text.BlankHead.left {cs more : List Char} (h : Text.BlankHead (cs ++ more)) :
    Text.BlankHead cs := by
  rintro c rest rfl
  exact h c (rest ++ more) rfl

namespace Token

open Lexeme

/-! ## Scanning what is laid out -/

/-- **A scan reads the lexemes that are laid out and goes on behind them**, unless what follows runs into
the last one. -/
theorem scanFrom_layout (path : String) (tail : List Char) {pieces : List Piece} :
    ∀ {gap : List Char} (before : List Char), WellSpaced gap pieces →
      Text.BlankHead tail ∨ Apart pieces →
      scanFrom .gap (Location.behind path before) (layout gap pieces ++ tail) =
        (scanFrom .gap (Location.behind path (layout (before ++ gap) pieces)) tail).map
          (placed path (before ++ gap) pieces ++ ·) := by
  induction pieces with
  | nil =>
    intro gap before h _
    rw [layout_nil, layout_nil, scanFrom_gap_blanks h.first, Location.advanceBy_behind]
    cases scanFrom .gap (Location.behind path (before ++ gap)) tail <;> rfl
  | cons piece pieces ih =>
    intro gap before h htail
    have hnext : Text.BlankHead tail ∨ Apart pieces :=
      htail.imp_right fun ha other ho => ha other (List.mem_cons_of_mem piece ho)
    have hrest := ih (before ++ gap ++ piece.text.toList) h.tail hnext
    have hbehind : before ++ gap ++ piece.text.toList ++ piece.gap = layout (before ++ gap) [piece] := by
      simp [layout]
    have hall : layout (layout (before ++ gap) [piece]) pieces = layout (before ++ gap) (piece :: pieces) :=
      (layout_append (before ++ gap) [piece] pieces).symm
    rw [hbehind, hall] at hrest
    rw [layout_cons, List.append_assoc, List.append_assoc, scanFrom_gap_blanks h.first,
      Location.advanceBy_behind]
    -- the first lexeme is read, and the induction hypothesis is about what follows it
    have hfirst : scanFrom .gap (Location.behind path (before ++ gap))
        (piece.text.toList ++ (layout piece.gap pieces ++ tail)) =
          (scanFrom .gap (Location.behind path (before ++ gap ++ piece.text.toList))
            (layout piece.gap pieces ++ tail)).map
              (⟨Location.behind path (before ++ gap), piece.text⟩ :: ·) := by
      by_cases hq : Quoted piece.text
      · obtain ⟨contents, hs⟩ := hq
        rw [scanFrom_gap_string _ _ hs, Location.advanceBy_behind, String.ofList_toList]
      · have hw := (h.lexemes piece List.mem_cons_self).resolve_left hq
        have hhead : Text.BlankHead (layout piece.gap pieces ++ tail) := by
          refine (h.blankHead hq).append fun hnil => htail.resolve_right fun ha => ?_
          have hgap : piece.gap = [] := (List.append_eq_nil_iff.1 hnil).1
          exact (ha piece List.mem_cons_self).elim (absurd hgap) hq
        rw [scanFrom_gap_word _ hw hhead, Location.advanceBy_behind, String.ofList_toList]
    rw [hfirst, hrest]
    cases scanFrom .gap (Location.behind path (layout (before ++ gap) (piece :: pieces))) tail <;> rfl

theorem scan_layout (path : String) {source : String} {gap : List Char} {pieces : List Piece}
    (h : WellSpaced gap pieces) (hs : source.toList = layout gap pieces) :
    scan path source = .ok (placed path gap pieces) := by
  have hend : Text.BlankHead [] := by simp [Text.BlankHead]
  have hscan := scanFrom_layout path [] [] h (Or.inl hend)
  rw [List.append_nil, List.nil_append, ← hs] at hscan
  rw [scan]
  refine hscan.trans ?_
  rw [scanFrom]
  exact congrArg Except.ok (List.append_nil _)

/-- Inside a string literal a scan goes on to the next quote or line feed. -/
theorem scanFrom_string_contents (start : Location) {contents : List Char} (tail : List Char)
    (hs : ∀ c ∈ contents, c ≠ '"' ∧ c ≠ '\n') :
    ∀ (seen : List Char) (here : Location), ∃ seen' here',
      scanFrom (.string start seen) here (contents ++ tail) =
        scanFrom (.string start seen') here' tail := by
  induction contents with
  | nil => exact fun seen here => ⟨seen, here, rfl⟩
  | cons c contents ih =>
    intro seen here
    obtain ⟨hq, hn⟩ := hs c List.mem_cons_self
    rw [List.cons_append, scanFrom, if_neg hq, if_neg hn]
    exact ih (fun d hd => hs d (List.mem_cons_of_mem c hd)) _ _

theorem scanFrom_gap_unclosed (here : Location) {cause : Fault.Cause} {cs : List Char}
    (h : Unclosed cause cs) : scanFrom .gap here cs = .error (Fault.inSource cause here) := by
  have hblank : ¬ Text.isBlank '"' = true := by decide
  cases h with
  | @atEnd contents h =>
    obtain ⟨seen, there, he⟩ := scanFrom_string_contents here [] h ['"'] (here.advance '"')
    rw [List.append_nil] at he
    rw [scanFrom, if_neg hblank, if_pos rfl, he, scanFrom]
  | @atNewLine contents h rest =>
    obtain ⟨seen, there, he⟩ := scanFrom_string_contents here ('\n' :: rest) h ['"'] (here.advance '"')
    rw [scanFrom, if_neg hblank, if_pos rfl, he, scanFrom, if_neg (by decide), if_pos rfl]

theorem scan_unclosed (path : String) {source : String} {gap tail : List Char} {pieces : List Piece}
    {cause : Fault.Cause} (h : WellSpaced gap pieces) (ha : Apart pieces) (ht : Unclosed cause tail)
    (hs : source.toList = layout gap pieces ++ tail) :
    scan path source = .error (Fault.inSource cause (Location.behind path (layout gap pieces))) := by
  have hscan := scanFrom_layout path tail [] h (Or.inr ha)
  rw [← hs, List.nil_append, scanFrom_gap_unclosed _ ht] at hscan
  exact hscan

end Token

/-! ## Every source is laid out, or breaks off -/

/-- The longest run of such characters at the start. -/
theorem Text.exists_run (p : Char → Bool) (cs : List Char) :
    ∃ run rest, cs = run ++ rest ∧ (∀ c ∈ run, p c = true) ∧
      ∀ c more, rest = c :: more → p c = false := by
  induction cs with
  | nil => exact ⟨[], [], rfl, by simp, by simp⟩
  | cons c cs ih =>
    cases hc : p c with
    | false => exact ⟨[], c :: cs, rfl, by simp, fun d more he => by cases he; exact hc⟩
    | true =>
      obtain ⟨run, rest, rfl, hrun, hrest⟩ := ih
      refine ⟨c :: run, rest, rfl, fun d hd => ?_, hrest⟩
      rcases List.mem_cons.1 hd with rfl | hd
      · exact hc
      · exact hrun d hd

namespace Lexeme

/-- Behind the lexemes there is nothing, or a string literal that is not closed. -/
def Stops (pieces : List Piece) (tail : List Char) : Prop :=
  tail = [] ∨ Apart pieces ∧ ∃ cause, Unclosed cause tail

/-- A word is followed by a blank, so by a gap. -/
theorem gap_ne_nil {gap tail : List Char} {pieces : List Piece} {cause : Fault.Cause}
    (hhead : Text.BlankHead (layout gap pieces ++ tail)) (h : WellSpaced gap pieces)
    (ht : Unclosed cause tail) : gap ≠ [] := by
  rintro rfl
  have hfirst : ∃ c rest, layout [] pieces ++ tail = c :: rest ∧ Text.isBlank c = false := by
    cases pieces with
    | nil =>
      obtain ⟨rest, rfl⟩ := ht.head
      exact ⟨'"', rest, rfl, by decide⟩
    | cons piece pieces =>
      obtain ⟨c, cs, he, hc⟩ := (h.lexemes piece List.mem_cons_self).head
      refine ⟨c, cs ++ layout piece.gap pieces ++ tail, ?_, hc⟩
      rw [layout_cons, he]
      simp
  obtain ⟨c, rest, he, hc⟩ := hfirst
  rw [hhead c rest he] at hc
  cases hc

/-- The characters are laid out as far as they can be. -/
def Parted (cs : List Char) : Prop :=
  ∃ gap pieces tail, WellSpaced gap pieces ∧ Stops pieces tail ∧ cs = layout gap pieces ++ tail

theorem Parted.cons {gap w rest : List Char} (hgap : Text.Blanks gap) (hw : Valid (String.ofList w))
    (hapart : Text.BlankHead rest ∨ Quoted (String.ofList w)) (h : Parted rest) :
    Parted (gap ++ (w ++ rest)) := by
  obtain ⟨gap', pieces, tail, hspaced, hstops, rfl⟩ := h
  refine ⟨gap, ⟨String.ofList w, gap'⟩ :: pieces, tail, ?_, ?_, ?_⟩
  · exact .cons hgap hw hspaced (hapart.imp_left Text.BlankHead.left)
  · refine hstops.imp_right ?_
    rintro ⟨ha, cause, ht⟩
    refine ⟨fun piece hp => ?_, cause, ht⟩
    rcases List.mem_cons.1 hp with rfl | hp
    · exact hapart.imp_left fun hhead => gap_ne_nil hhead hspaced ht
    · exact ha piece hp
  · rw [layout_cons, String.toList_ofList, List.append_assoc, List.append_assoc]

theorem Parted.string {gap : List Char} (hgap : Text.Blanks gap) (rest : List Char)
    (h : ∀ more : List Char, more.length < rest.length → Parted more) :
    Parted (gap ++ '"' :: rest) := by
  have hunclosed : ∀ {cause tail}, Unclosed cause tail → Parted (gap ++ tail) := by
    intro cause tail ht
    exact ⟨gap, [], tail, .nil hgap, Or.inr ⟨by simp [Apart], cause, ht⟩, by rw [layout_nil]⟩
  obtain ⟨contents, tail, rfl, hcontents, htail⟩ :=
    Text.exists_run (fun c => decide (c ≠ '"' ∧ c ≠ '\n')) rest
  have hplain : ∀ c ∈ contents, c ≠ '"' ∧ c ≠ '\n' := fun c hc => of_decide_eq_true (hcontents c hc)
  cases tail with
  | nil =>
    rw [List.append_nil]
    exact hunclosed (.atEnd hplain)
  | cons c tail =>
    have hc : ¬ (c ≠ '"' ∧ c ≠ '\n') := of_decide_eq_false (htail c tail rfl)
    by_cases hq : c = '"'
    · subst hq
      have hquoted : Quoted (String.ofList ('"' :: (contents ++ ['"']))) :=
        ⟨contents, String.toList_ofList, hplain⟩
      have hparted := Parted.cons hgap (Or.inl hquoted) (Or.inr hquoted)
        (h tail (by rw [List.length_append, List.length_cons]; omega))
      simpa using hparted
    · have hn : c = '\n' := Classical.not_not.1 fun hn => hc ⟨hq, hn⟩
      subst hn
      exact hunclosed (.atNewLine hplain tail)

/-- **Every source is laid out, to its end or up to a string literal that is not closed.**  The induction is
on the number of characters, and takes a lexeme with the blanks before it off the front. -/
theorem parted (cs : List Char) : Parted cs := by
  induction hn : cs.length using Nat.strongRecOn generalizing cs with
  | ind n ih =>
    subst hn
    obtain ⟨gap, rest, rfl, hgap, hrest⟩ := Text.exists_run Text.isBlank cs
    rw [List.length_append] at ih
    cases rest with
    | nil => exact ⟨gap, [], [], .nil hgap, Or.inl rfl, by rw [layout_nil]⟩
    | cons c rest =>
      have hc : Text.isBlank c = false := hrest c rest rfl
      rw [List.length_cons] at ih
      by_cases hq : c = '"'
      · subst hq
        exact .string hgap rest fun more hm => ih more.length (by omega) more rfl
      · obtain ⟨w, more, rfl, hw, hmore⟩ := Text.exists_run (fun d => !Text.isBlank d) rest
        have hword : IsWord (c :: w) := .of_cons hc hq fun d hd => by simpa using hw d hd
        have hhead : Text.BlankHead more := fun d later he => by simpa using hmore d later he
        have hvalid : Valid (String.ofList (c :: w)) := Or.inr (by rwa [String.toList_ofList])
        rw [List.length_append] at ih
        exact .cons hgap hvalid (Or.inl hhead) (ih more.length (by omega) more rfl)

end Lexeme

namespace Token

open Lexeme

/-- The tokens of a source are the lexemes that it is laid out as, with their places. -/
theorem scan_eq_ok {path source : String} {tokens : List Token} (h : scan path source = .ok tokens) :
    ∃ gap pieces, WellSpaced gap pieces ∧ source.toList = layout gap pieces ∧
      placed path gap pieces = tokens := by
  obtain ⟨gap, pieces, tail, hspaced, hstops, hs⟩ := parted source.toList
  rcases hstops with rfl | ⟨ha, cause, ht⟩
  · rw [List.append_nil] at hs
    exact ⟨gap, pieces, hspaced, hs, Except.ok.inj ((scan_layout path hspaced hs).symm.trans h)⟩
  · exact nomatch (scan_unclosed path hspaced ha ht hs).symm.trans h

/-- The tokens of a source come one after the other, in the file that the path names. -/
theorem scan_pairwise {path source : String} {tokens : List Token} (h : scan path source = .ok tokens) :
    (tokens.Pairwise fun a b => a.location.Precedes b.location) ∧
      ∀ token ∈ tokens, token.location.path = path := by
  obtain ⟨gap, pieces, hspaced, -, rfl⟩ := scan_eq_ok h
  refine ⟨pairwise_placed path gap hspaced.lexemes, fun token hm => ?_⟩
  obtain ⟨more, he⟩ := exists_of_mem_placed hm
  rw [he]
  rfl

end Token

open Lexeme in
/-- **The places of tokens and of faults of reading are exact.**  The tokens of a source are the lexemes that
it is laid out as, in one way or any other, and each has the place behind all that stands before it; these
places come one after the other.  A source has a fault of reading exactly if it is laid out up to a string
literal that is not closed: the fault has the place of the opening quote, and tells whether the line or the
source ends first. -/
theorem scan_places_exact (path source : String) :
    (∀ tokens, Token.scan path source = .ok tokens →
      (∃ gap pieces, WellSpaced gap pieces ∧ source.toList = layout gap pieces) ∧
      (∀ gap pieces, WellSpaced gap pieces → source.toList = layout gap pieces →
        tokens.length = pieces.length ∧
          ∀ before piece after, pieces = before ++ piece :: after →
            tokens[before.length]? =
              some ⟨Location.behind path (layout gap before), piece.text⟩) ∧
      tokens.Pairwise fun a b => a.location.Precedes b.location) ∧
    (∀ fault, Token.scan path source = .error fault ↔
      ∃ gap pieces tail cause, WellSpaced gap pieces ∧ Apart pieces ∧ Unclosed cause tail ∧
        source.toList = layout gap pieces ++ tail ∧
        fault = Fault.inSource cause (Location.behind path (layout gap pieces))) ∧
    Fault.Cause.message .newLineInString = "Unexpected new line in string literal." ∧
    Fault.Cause.message .endInString = "Unexpected end of file in string literal." := by
  refine ⟨fun tokens hok => ⟨?_, ?_, (Token.scan_pairwise hok).1⟩,
    fun fault => ⟨fun hfault => ?_, ?_⟩, rfl, rfl⟩
  · obtain ⟨gap, pieces, hspaced, hs, -⟩ := Token.scan_eq_ok hok
    exact ⟨gap, pieces, hspaced, hs⟩
  · intro gap pieces hspaced hs
    obtain rfl : placed path gap pieces = tokens :=
      Except.ok.inj ((Token.scan_layout path hspaced hs).symm.trans hok)
    refine ⟨length_placed path gap pieces, ?_⟩
    rintro before piece after rfl
    exact getElem?_placed path gap before piece after
  · obtain ⟨gap, pieces, tail, hspaced, hstops, hs⟩ := parted source.toList
    rcases hstops with rfl | ⟨ha, cause, ht⟩
    · rw [List.append_nil] at hs
      exact nomatch (Token.scan_layout path hspaced hs).symm.trans hfault
    · exact ⟨gap, pieces, tail, cause, hspaced, ha, ht, hs,
        Except.error.inj (hfault.symm.trans (Token.scan_unclosed path hspaced ha ht hs))⟩
  · rintro ⟨gap, pieces, tail, cause, hspaced, ha, ht, hs, rfl⟩
    exact Token.scan_unclosed path hspaced ha ht hs

open Lexeme in
/-- A string literal that touches a word, then a new line with a wide character on it; and in place of that
a string literal without an end. -/
theorem scan_places_exact_touching :
    (∃ tokens, Token.scan "<test>" "\"a\"b\r\n ✓" = .ok tokens ∧
      tokens[1]? = some ⟨⟨"<test>", 1, 4⟩, "b"⟩ ∧ tokens[2]? = some ⟨⟨"<test>", 2, 2⟩, "✓"⟩ ∧
      tokens.Pairwise fun a b => a.location.Precedes b.location) ∧
    Token.scan "<test>" "\"a\"b\r\n \"c" =
      .error (Fault.inSource .endInString ⟨"<test>", 2, 2⟩) := by
  have hquoted : Quoted "\"a\"" := ⟨['a'], rfl, by simp⟩
  have hblanks : Text.Blanks ['\r', '\n', ' '] := by
    simp only [Text.Blanks, List.forall_mem_cons]
    exact ⟨by decide, by decide, by decide, by simp⟩
  have hnone : Text.Blanks [] := by simp [Text.Blanks]
  have hfront : ∀ {pieces}, WellSpaced ['\r', '\n', ' '] pieces →
      WellSpaced [] (⟨"\"a\"", []⟩ :: ⟨"b", ['\r', '\n', ' ']⟩ :: pieces) := by
    intro pieces h
    have hword : Valid "b" := Or.inr (.of_cons (by decide) (by decide) (by simp))
    refine .cons hnone (Or.inl hquoted) (.cons hnone hword h (Or.inl ?_)) (Or.inr hquoted)
    intro c rest he
    cases he
    decide
  refine ⟨?_, ?_⟩
  · have hcheck : Valid "✓" := Or.inr (.of_cons (by decide) (by decide) (by simp))
    have hlast : WellSpaced ['\r', '\n', ' '] [⟨"✓", []⟩] :=
      .cons hblanks hcheck (.nil hnone) (Or.inl (by simp [Text.BlankHead, layout]))
    obtain ⟨-, hplaces, horder⟩ := (scan_places_exact "<test>" "\"a\"b\r\n ✓").1 _ rfl
    have hat := (hplaces _ _ (hfront hlast) rfl).2
    exact ⟨_, rfl, hat [_] _ _ rfl, hat [_, _] _ _ rfl, horder⟩
  · refine ((scan_places_exact "<test>" _).2.1 _).2
      ⟨[], _, ['"', 'c'], _, hfront (.nil hblanks), ?_, .atEnd (by simp), rfl, rfl⟩
    intro piece hp
    rcases List.mem_cons.1 hp with rfl | hp
    · exact Or.inr hquoted
    · obtain rfl := List.mem_singleton.1 hp
      exact Or.inl (by decide)

end StackScript
