import StackScript.Token

/-!
# The lexical grammar

`Token.scan` reads a source character by character.  Seen as a whole, a source is a row of lexemes
with blanks around them:

* `Lexeme.IsString`, `Lexeme.IsWord` — the two kinds of lexeme, as properties of their characters.
* `Lexeme.LaidOut` — a source is made of these texts: blanks, and each lexeme with the blanks behind
  it.  Only a string literal may touch the lexeme after it.
* `Token.Reads` — the same with the tokens and their places, in the form that proofs go by.
* `Token.scanFrom_gap_word`, `Token.scanFrom_gap_string` — what a scan does with one lexeme.

Principal results: `Token.scanFrom_eq_ok_iff` — the scan succeeds exactly with the tokens that the
characters read as; `Lexeme.laidOut_iff` — the texts of these tokens are those the source is made of;
`scan_accepts_laid_out`, which puts the two together.
-/

set_option autoImplicit false

namespace StackScript

def Text.Blanks (cs : List Char) : Prop := ∀ c ∈ cs, isBlank c = true

/-- What follows a word: nothing, or a blank. -/
def Text.BlankHead (cs : List Char) : Prop := ∀ c rest, cs = c :: rest → isBlank c = true

namespace Lexeme

/-- A string literal: any characters but a quote or a line feed, between two quotes. -/
def IsString (contents cs : List Char) : Prop :=
  cs = '"' :: (contents ++ ['"']) ∧ ∀ c ∈ contents, c ≠ '"' ∧ c ≠ '\n'

/-- A word: a run of characters without blanks that does not start with a quote. -/
def IsWord (cs : List Char) : Prop :=
  cs ≠ [] ∧ cs.head? ≠ some '"' ∧ ∀ c ∈ cs, Text.isBlank c = false

/-- The text is a string literal. -/
def Quoted (text : String) : Prop := ∃ contents, IsString contents text.toList

def Valid (text : String) : Prop := Quoted text ∨ IsWord text.toList

/-- A lexeme, and what stands between it and the next one. -/
structure Piece where
  text : String
  gap : List Char

/-- The characters of a source: blanks, and each lexeme with the blanks behind it. -/
def layout (gap : List Char) (pieces : List Piece) : List Char :=
  gap ++ pieces.flatMap fun piece => piece.text.toList ++ piece.gap

/-- Lexemes with blanks around them.  Of all but the last one, only a string literal may touch what
comes next. -/
structure WellSpaced (gap : List Char) (pieces : List Piece) : Prop where
  first : Text.Blanks gap
  lexemes : ∀ piece ∈ pieces, Valid piece.text
  gaps : ∀ piece ∈ pieces, Text.Blanks piece.gap
  apart : ∀ piece ∈ pieces.dropLast, piece.gap ≠ [] ∨ Quoted piece.text

/-- The characters are made of exactly these texts, in this order. -/
def LaidOut (cs : List Char) (texts : List String) : Prop :=
  ∃ gap pieces, WellSpaced gap pieces ∧ cs = layout gap pieces ∧ pieces.map Piece.text = texts

theorem IsWord.of_cons {c : Char} {cs : List Char} (hc : Text.isBlank c = false) (hq : c ≠ '"')
    (h : ∀ d ∈ cs, Text.isBlank d = false) : IsWord (c :: cs) := by
  refine ⟨by simp, by simpa using hq, fun d hd => ?_⟩
  rcases List.mem_cons.1 hd with rfl | hd
  · exact hc
  · exact h d hd

theorem Valid.head {text : String} (h : Valid text) :
    ∃ c cs, text.toList = c :: cs ∧ Text.isBlank c = false := by
  rcases h with ⟨contents, he, -⟩ | ⟨hne, -, hb⟩
  · exact ⟨'"', _, he, by decide⟩
  · obtain ⟨c, cs, he⟩ := List.exists_cons_of_ne_nil hne
    exact ⟨c, cs, he, hb c (by simp [he])⟩

end Lexeme

namespace Token

open Lexeme

/-! ## What a scan does with one lexeme -/

theorem scanFrom_gap_blanks {gap : List Char} (hgap : Text.Blanks gap) (rest : List Char) :
    ∀ here : Location, scanFrom .gap here (gap ++ rest) =
      scanFrom .gap (here.advanceBy gap) rest := by
  induction gap with
  | nil => intro here; rfl
  | cons c gap ih =>
    intro here
    rw [List.cons_append, scanFrom, if_pos (hgap c List.mem_cons_self),
      ih (fun d hd => hgap d (List.mem_cons_of_mem c hd)), Location.advanceBy_cons]

theorem scanFrom_word {w rest : List Char} (start : Location)
    (hw : ∀ c ∈ w, Text.isBlank c = false) (hrest : Text.BlankHead rest) :
    ∀ (seen : List Char) (here : Location), scanFrom (.word start seen) here (w ++ rest) =
      (scanFrom .gap (here.advanceBy w) rest).map (ofSeen start (w.reverse ++ seen) :: ·) := by
  induction w with
  | nil =>
    intro seen here
    cases rest with
    | nil => rfl
    | cons c rest =>
      have hc := hrest c rest rfl
      simp only [List.nil_append, scanFrom, if_pos hc, Location.advanceBy_nil, List.reverse_nil]
  | cons c w ih =>
    intro seen here
    have hc : ¬ Text.isBlank c = true := by simp [hw c List.mem_cons_self]
    rw [List.cons_append, scanFrom, if_neg hc, ih fun d hd => hw d (List.mem_cons_of_mem c hd)]
    simp [Location.advanceBy_cons]

theorem scanFrom_string {contents : List Char} (start : Location) (rest : List Char)
    (hs : ∀ c ∈ contents, c ≠ '"' ∧ c ≠ '\n') :
    ∀ (seen : List Char) (here : Location),
      scanFrom (.string start seen) here (contents ++ '"' :: rest) =
        (scanFrom .gap (here.advanceBy (contents ++ ['"'])) rest).map
          (ofSeen start ('"' :: (contents.reverse ++ seen)) :: ·) := by
  induction contents with
  | nil => intro seen here; rw [List.nil_append, scanFrom, if_pos rfl]; rfl
  | cons c contents ih =>
    intro seen here
    obtain ⟨hq, hn⟩ := hs c List.mem_cons_self
    rw [List.cons_append, scanFrom, if_neg hq, if_neg hn,
      ih fun d hd => hs d (List.mem_cons_of_mem c hd)]
    simp [Location.advanceBy_cons]

theorem scanFrom_gap_word {w rest : List Char} (here : Location) (hw : IsWord w)
    (hrest : Text.BlankHead rest) : scanFrom .gap here (w ++ rest) =
      (scanFrom .gap (here.advanceBy w) rest).map (⟨here, String.ofList w⟩ :: ·) := by
  obtain ⟨hne, hq, hb⟩ := hw
  obtain ⟨c, w, rfl⟩ := List.exists_cons_of_ne_nil hne
  have hc : ¬ Text.isBlank c = true := by simp [hb c List.mem_cons_self]
  have hq' : c ≠ '"' := by simpa using hq
  rw [List.cons_append, scanFrom, if_neg hc, if_neg hq',
    scanFrom_word here (fun d hd => hb d (List.mem_cons_of_mem c hd)) hrest]
  simp [ofSeen, Location.advanceBy_cons]

theorem scanFrom_gap_string {contents cs : List Char} (here : Location) (rest : List Char)
    (hs : IsString contents cs) : scanFrom .gap here (cs ++ rest) =
      (scanFrom .gap (here.advanceBy cs) rest).map (⟨here, String.ofList cs⟩ :: ·) := by
  obtain ⟨rfl, hs⟩ := hs
  have hblank : ¬ Text.isBlank '"' = true := by decide
  have hcut : '"' :: (contents ++ ['"']) ++ rest = '"' :: (contents ++ '"' :: rest) := by simp
  rw [hcut, scanFrom, if_neg hblank, if_pos rfl, scanFrom_string here rest hs]
  simp [ofSeen, Location.advanceBy_cons]

/-! ## Tokens with their places -/

/-- What the characters from `here` on read as: blanks, a lexeme whose token stands behind them, and
the rest.  A word is followed by a blank or by nothing. -/
inductive Reads : Location → List Char → List Token → Prop where
  | nil {here : Location} {gap : List Char} (hgap : Text.Blanks gap) : Reads here gap []
  | word {here : Location} {gap w rest : List Char} {tokens : List Token}
      (hgap : Text.Blanks gap) (hw : IsWord w) (hhead : Text.BlankHead rest)
      (hrest : Reads (here.advanceBy (gap ++ w)) rest tokens) :
      Reads here (gap ++ (w ++ rest)) (⟨here.advanceBy gap, String.ofList w⟩ :: tokens)
  | string {here : Location} {gap contents cs rest : List Char} {tokens : List Token}
      (hgap : Text.Blanks gap) (hs : IsString contents cs)
      (hrest : Reads (here.advanceBy (gap ++ cs)) rest tokens) :
      Reads here (gap ++ (cs ++ rest)) (⟨here.advanceBy gap, String.ofList cs⟩ :: tokens)

theorem Reads.blank {here : Location} {c : Char} {cs : List Char} {tokens : List Token}
    (hc : Text.isBlank c = true) (h : Reads (here.advance c) cs tokens) :
    Reads here (c :: cs) tokens := by
  have hgaps : ∀ gap, Text.Blanks gap → Text.Blanks (c :: gap) := by
    intro gap hgap d hd
    rcases List.mem_cons.1 hd with rfl | hd
    · exact hc
    · exact hgap d hd
  cases h with
  | nil hgap => exact .nil (hgaps _ hgap)
  | word hgap hw hhead hrest => exact .word (hgaps _ hgap) hw hhead hrest
  | string hgap hs hrest => exact .string (hgaps _ hgap) hs hrest

/-- What is known of a scan that succeeds in the middle of something: the lexeme in progress ends,
and the rest reads as the later tokens. -/
def Resumes : Reading → Location → List Char → List Token → Prop
  | .gap, here, cs, tokens => Reads here cs tokens
  | .word start seen, here, cs, tokens =>
    ∃ w rest later, cs = w ++ rest ∧ (∀ c ∈ w, Text.isBlank c = false) ∧ Text.BlankHead rest ∧
      tokens = ofSeen start (w.reverse ++ seen) :: later ∧ Reads (here.advanceBy w) rest later
  | .string start seen, here, cs, tokens =>
    ∃ contents rest later, cs = contents ++ '"' :: rest ∧ (∀ c ∈ contents, c ≠ '"' ∧ c ≠ '\n') ∧
      tokens = ofSeen start ('"' :: (contents.reverse ++ seen)) :: later ∧
      Reads (here.advanceBy (contents ++ ['"'])) rest later

theorem Resumes.startWord {here : Location} {c : Char} {cs : List Char} {tokens : List Token}
    (hc : Text.isBlank c = false) (hq : c ≠ '"')
    (h : Resumes (.word here [c]) (here.advance c) cs tokens) : Reads here (c :: cs) tokens := by
  obtain ⟨w, rest, later, rfl, hw, hhead, rfl, hrest⟩ := h
  have hgap : Text.Blanks [] := by simp [Text.Blanks]
  have hread := Reads.word hgap (IsWord.of_cons hc hq hw) hhead hrest
  simpa [ofSeen] using hread

theorem Resumes.startString {here : Location} {cs : List Char} {tokens : List Token}
    (h : Resumes (.string here ['"']) (here.advance '"') cs tokens) :
    Reads here ('"' :: cs) tokens := by
  obtain ⟨contents, rest, later, rfl, hs, rfl, hrest⟩ := h
  have hgap : Text.Blanks [] := by simp [Text.Blanks]
  have hread := Reads.string hgap ⟨rfl, hs⟩ hrest
  simpa [ofSeen] using hread

theorem Resumes.moreWord {start here : Location} {c : Char} {seen cs : List Char}
    {tokens : List Token} (hc : Text.isBlank c = false)
    (h : Resumes (.word start (c :: seen)) (here.advance c) cs tokens) :
    Resumes (.word start seen) here (c :: cs) tokens := by
  obtain ⟨w, rest, later, rfl, hw, hhead, rfl, hrest⟩ := h
  refine ⟨c :: w, rest, later, rfl, fun d hd => ?_, hhead, by simp, hrest⟩
  rcases List.mem_cons.1 hd with rfl | hd
  · exact hc
  · exact hw d hd

theorem Resumes.moreString {start here : Location} {c : Char} {seen cs : List Char}
    {tokens : List Token} (hq : c ≠ '"') (hn : c ≠ '\n')
    (h : Resumes (.string start (c :: seen)) (here.advance c) cs tokens) :
    Resumes (.string start seen) here (c :: cs) tokens := by
  obtain ⟨contents, rest, later, rfl, hs, rfl, hrest⟩ := h
  refine ⟨c :: contents, rest, later, rfl, fun d hd => ?_, by simp, hrest⟩
  rcases List.mem_cons.1 hd with rfl | hd
  · exact ⟨hq, hn⟩
  · exact hs d hd

/-- A scan that succeeds has read what was there.  The induction is on the scan itself, so there is a
case for each character it may meet in each of the three situations. -/
theorem resumes_of_scanFrom {reading : Reading} {here : Location} {cs : List Char}
    {tokens : List Token} (h : scanFrom reading here cs = .ok tokens) :
    Resumes reading here cs tokens := by
  fun_induction scanFrom reading here cs generalizing tokens with
  | case1 here => cases h; exact .nil (by simp [Text.Blanks])
  | case2 start seen here =>
    cases h
    exact ⟨[], [], [], rfl, by simp, by simp [Text.BlankHead], rfl, .nil (by simp [Text.Blanks])⟩
  | case3 => cases h
  | case4 here c rest hc ih => exact (ih h).blank hc
  | case5 here rest _ ih => exact (ih h).startString
  | case6 here c rest hc hq ih => exact (ih h).startWord (by simpa using hc) hq
  | case7 start seen here c rest hc ih =>
    cases hrest : scanFrom .gap (here.advance c) rest with
    | error fault => rw [hrest] at h; cases h
    | ok later =>
      rw [hrest] at h
      cases h
      refine ⟨[], c :: rest, later, rfl, by simp, ?_, rfl, Reads.blank hc (ih hrest)⟩
      intro d more he
      cases he
      exact hc
  | case8 start seen here c rest hc ih => exact (ih h).moreWord (by simpa using hc)
  | case9 start seen here rest ih =>
    cases hrest : scanFrom .gap (here.advance '"') rest with
    | error fault => rw [hrest] at h; cases h
    | ok later =>
      rw [hrest] at h
      cases h
      exact ⟨[], rest, later, rfl, by simp, rfl, ih hrest⟩
  | case10 => cases h
  | case11 start seen here c rest hq hn ih => exact (ih h).moreString hq hn

theorem scanFrom_of_reads {here : Location} {cs : List Char} {tokens : List Token}
    (h : Reads here cs tokens) : scanFrom .gap here cs = .ok tokens := by
  induction h with
  | @nil here gap hgap =>
    have hscan := scanFrom_gap_blanks hgap [] here
    rw [List.append_nil] at hscan
    rw [hscan, scanFrom]
  | word hgap hw hhead _ ih =>
    rw [Location.advanceBy_append] at ih
    rw [scanFrom_gap_blanks hgap, scanFrom_gap_word _ hw hhead, ih]
    rfl
  | string hgap hs _ ih =>
    rw [Location.advanceBy_append] at ih
    rw [scanFrom_gap_blanks hgap, scanFrom_gap_string _ _ hs, ih]
    rfl

/-- **A scan succeeds exactly with the tokens that the characters read as.** -/
theorem scanFrom_eq_ok_iff {here : Location} {cs : List Char} {tokens : List Token} :
    scanFrom .gap here cs = .ok tokens ↔ Reads here cs tokens :=
  ⟨resumes_of_scanFrom, scanFrom_of_reads⟩

theorem kind_of_scanFrom {reading : Reading} {here : Location} {cs : List Char} {fault : Fault}
    (h : scanFrom reading here cs = .error fault) : fault.kind = .parse := by
  fun_induction scanFrom reading here cs with
  | case1 => cases h
  | case2 => cases h
  | case3 => cases h; rfl
  | case4 _ _ _ _ ih => exact ih h
  | case5 _ _ _ ih => exact ih h
  | case6 _ _ _ _ _ ih => exact ih h
  | case7 _ _ here c rest _ ih =>
    cases hrest : scanFrom .gap (here.advance c) rest with
    | error other => rw [hrest] at h; cases h; exact ih hrest
    | ok later => rw [hrest] at h; cases h
  | case8 _ _ _ _ _ _ ih => exact ih h
  | case9 _ _ here rest ih =>
    cases hrest : scanFrom .gap (here.advance '"') rest with
    | error other => rw [hrest] at h; cases h; exact ih hrest
    | ok later => rw [hrest] at h; cases h
  | case10 => cases h; rfl
  | case11 _ _ _ _ _ _ _ ih => exact ih h

end Token

/-! ## Texts and the blanks between them -/

namespace Lexeme

theorem layout_cons (gap : List Char) (piece : Piece) (pieces : List Piece) :
    layout gap (piece :: pieces) = gap ++ (piece.text.toList ++ layout piece.gap pieces) := by
  simp [layout]

theorem WellSpaced.tail {gap : List Char} {piece : Piece} {pieces : List Piece}
    (h : WellSpaced gap (piece :: pieces)) : WellSpaced piece.gap pieces where
  first := h.gaps piece List.mem_cons_self
  lexemes := fun p hp => h.lexemes p (List.mem_cons_of_mem piece hp)
  gaps := fun p hp => h.gaps p (List.mem_cons_of_mem piece hp)
  apart := by
    intro p hp
    cases pieces with
    | nil => cases hp
    | cons next rest => exact h.apart p (by simp [List.dropLast_cons_of_ne_nil, hp])

/-- One lexeme more in front.  What follows it must not run into it, unless it is a string literal. -/
theorem WellSpaced.cons {gap gap' : List Char} {text : String} {pieces : List Piece}
    (hgap : Text.Blanks gap) (htext : Valid text) (h : WellSpaced gap' pieces)
    (hapart : Text.BlankHead (layout gap' pieces) ∨ Quoted text) :
    WellSpaced gap (⟨text, gap'⟩ :: pieces) where
  first := hgap
  lexemes := by
    intro p hp
    rcases List.mem_cons.1 hp with rfl | hp
    · exact htext
    · exact h.lexemes p hp
  gaps := by
    intro p hp
    rcases List.mem_cons.1 hp with rfl | hp
    · exact h.first
    · exact h.gaps p hp
  apart := by
    intro p hp
    cases pieces with
    | nil => cases hp
    | cons next rest =>
      rw [List.dropLast_cons_of_ne_nil (by simp)] at hp
      rcases List.mem_cons.1 hp with rfl | hp
      · refine hapart.imp (fun hhead hnil => ?_) id
        -- the next lexeme would start with a blank
        obtain ⟨c, cs, he, hc⟩ := (h.lexemes next List.mem_cons_self).head
        have hblank := hhead c (cs ++ layout next.gap rest) (by
          rw [layout_cons, he]
          simp only at hnil
          rw [hnil]
          rfl)
        rw [hc] at hblank
        cases hblank
      · exact h.apart p hp

theorem laidOut_of_reads {here : Location} {cs : List Char} {tokens : List Token}
    (h : Token.Reads here cs tokens) : LaidOut cs (tokens.map Token.text) := by
  induction h with
  | @nil here gap hgap => exact ⟨gap, [], ⟨hgap, by simp, by simp, by simp⟩, by simp [layout], rfl⟩
  | @word here gap w rest tokens hgap hw hhead _ ih =>
    obtain ⟨gap', pieces, hspaced, rfl, htexts⟩ := ih
    have hvalid : Valid (String.ofList w) := Or.inr (by rw [String.toList_ofList]; exact hw)
    refine ⟨gap, ⟨String.ofList w, gap'⟩ :: pieces, .cons hgap hvalid hspaced (Or.inl hhead), ?_, ?_⟩
    · rw [layout_cons, String.toList_ofList]
    · rw [List.map_cons, List.map_cons, htexts]
  | @string here gap contents cs rest tokens hgap hs _ ih =>
    obtain ⟨gap', pieces, hspaced, rfl, htexts⟩ := ih
    have hquoted : Quoted (String.ofList cs) := ⟨contents, by rw [String.toList_ofList]; exact hs⟩
    refine ⟨gap, ⟨String.ofList cs, gap'⟩ :: pieces,
      .cons hgap (Or.inl hquoted) hspaced (Or.inr hquoted), ?_, ?_⟩
    · rw [layout_cons, String.toList_ofList]
    · rw [List.map_cons, List.map_cons, htexts]

/-- What follows a word that is laid out starts with a blank, or there is nothing. -/
theorem WellSpaced.blankHead {gap : List Char} {piece : Piece} {pieces : List Piece}
    (h : WellSpaced gap (piece :: pieces)) (hword : ¬ Quoted piece.text) :
    Text.BlankHead (layout piece.gap pieces) := by
  intro c rest he
  cases hg : piece.gap with
  | cons d gap' =>
    rw [hg, layout, List.cons_append] at he
    cases he
    exact h.gaps piece List.mem_cons_self c (by rw [hg]; exact List.mem_cons_self)
  | nil =>
    cases pieces with
    | nil => simp [hg, layout] at he
    | cons next more =>
      have hlast : piece ∈ (piece :: next :: more).dropLast := by
        simp [List.dropLast_cons_of_ne_nil]
      rcases h.apart piece hlast with hne | hq
      · exact absurd hg hne
      · exact absurd hq hword

theorem reads_of_wellSpaced {pieces : List Piece} :
    ∀ {gap : List Char} (here : Location), WellSpaced gap pieces →
      ∃ tokens, Token.Reads here (layout gap pieces) tokens ∧
        tokens.map Token.text = pieces.map Piece.text := by
  induction pieces with
  | nil =>
    intro gap here h
    exact ⟨[], by rw [layout, List.flatMap_nil, List.append_nil]; exact .nil h.first, rfl⟩
  | cons piece pieces ih =>
    intro gap here h
    obtain ⟨tokens, hreads, htexts⟩ := ih (here.advanceBy (gap ++ piece.text.toList)) h.tail
    refine ⟨⟨here.advanceBy gap, String.ofList piece.text.toList⟩ :: tokens, ?_, by simp [htexts]⟩
    rw [layout_cons]
    by_cases hq : Quoted piece.text
    · obtain ⟨contents, hs⟩ := hq
      exact .string h.first hs hreads
    · have hw := (h.lexemes piece List.mem_cons_self).resolve_left hq
      exact .word h.first hw (h.blankHead hq) hreads

/-- **The texts of the tokens that characters read as are those they are made of.** -/
theorem laidOut_iff {cs : List Char} {texts : List String} (here : Location) :
    LaidOut cs texts ↔ ∃ tokens, Token.Reads here cs tokens ∧ tokens.map Token.text = texts := by
  constructor
  · rintro ⟨gap, pieces, hspaced, rfl, rfl⟩
    exact reads_of_wellSpaced here hspaced
  · rintro ⟨tokens, hreads, rfl⟩
    exact laidOut_of_reads hreads

theorem filter_blanks {gap : List Char} (h : Text.Blanks gap) :
    gap.filter (fun c => !Text.isBlank c) = [] := by
  rw [List.filter_eq_nil_iff]
  intro c hc
  simp [h c hc]

end Lexeme

namespace Token

open Lexeme

/-- Besides blanks, the tokens hold the characters of the source, in their order. -/
theorem Reads.filter_texts {here : Location} {cs : List Char} {tokens : List Token}
    (h : Reads here cs tokens) :
    (tokens.flatMap fun token => token.text.toList).filter (fun c => !Text.isBlank c) =
      cs.filter (fun c => !Text.isBlank c) := by
  induction h with
  | nil hgap => rw [filter_blanks hgap]; rfl
  | word hgap _ _ _ ih =>
    rw [List.flatMap_cons, List.filter_append, List.filter_append, List.filter_append,
      filter_blanks hgap, ih, String.toList_ofList, List.nil_append]
  | string hgap _ _ ih =>
    rw [List.flatMap_cons, List.filter_append, List.filter_append, List.filter_append,
      filter_blanks hgap, ih, String.toList_ofList, List.nil_append]

theorem string?_of_isString {token : Token} {contents : List Char}
    (h : IsString contents token.text.toList) : token.string? = some (String.ofList contents) := by
  unfold string?
  rw [h.1]
  simp

theorem string?_of_isWord {token : Token} (h : IsWord token.text.toList) : token.string? = none := by
  unfold string?
  split
  · rename_i rest he
    exact absurd (by simp [he]) h.2.1
  · rfl

theorem Reads.valid {here : Location} {cs : List Char} {tokens : List Token}
    (h : Reads here cs tokens) : ∀ token ∈ tokens, Valid token.text := by
  intro token hmem
  obtain ⟨gap, pieces, hspaced, -, htexts⟩ := laidOut_of_reads h
  have htext : token.text ∈ pieces.map Piece.text := htexts ▸ List.mem_map_of_mem hmem
  obtain ⟨piece, hp, he⟩ := List.mem_map.1 htext
  exact he ▸ hspaced.lexemes piece hp

/-- Of the tokens of a source, the string literals have contents and the words do not. -/
theorem string?_eq_some_iff {token : Token} (h : Valid token.text) (contents : String) :
    token.string? = some contents ↔ IsString contents.toList token.text.toList := by
  rcases h with ⟨cs, hs⟩ | hw
  · rw [string?_of_isString hs, Option.some.injEq]
    constructor
    · rintro rfl
      rw [String.toList_ofList]
      exact hs
    · intro h
      have he := hs.1.symm.trans h.1
      rw [List.cons.injEq] at he
      rw [List.append_cancel_right he.2, String.ofList_toList]
  · rw [string?_of_isWord hw]
    constructor
    · intro h
      cases h
    · intro h
      exact absurd (by rw [h.1]; rfl) hw.2.1

end Token

open Lexeme in
/-- **The scan accepts exactly the lexical grammar.**  It succeeds with the texts that the source is
made of, if it is made of lexemes, and else fails with a fault of reading.  Nothing but blanks is lost,
lexemes with any blanks between them are read back, and the tokens with contents are the string
literals. -/
theorem scan_accepts_laid_out (path source : String) :
    (∀ texts, (∃ tokens, Token.scan path source = .ok tokens ∧ tokens.map Token.text = texts) ↔
      LaidOut source.toList texts) ∧
    ((∃ fault, Token.scan path source = .error fault) ↔ ¬ ∃ texts, LaidOut source.toList texts) ∧
    (∀ fault, Token.scan path source = .error fault → fault.kind = .parse) ∧
    (∀ tokens, Token.scan path source = .ok tokens →
      (tokens.flatMap fun token => token.text.toList).filter (fun c => !Text.isBlank c) =
        source.toList.filter (fun c => !Text.isBlank c) ∧
      ∀ token ∈ tokens, ∀ contents,
        token.string? = some contents ↔ IsString contents.toList token.text.toList) ∧
    (∀ gap pieces, source.toList = layout gap pieces → Text.Blanks gap →
      (∀ piece ∈ pieces, Valid piece.text ∧ Text.Blanks piece.gap) →
      (∀ piece ∈ pieces.dropLast, piece.gap ≠ []) →
      ∃ tokens, Token.scan path source = .ok tokens ∧
        tokens.map Token.text = pieces.map Piece.text) := by
  have haccepts : ∀ texts, (∃ tokens, Token.scan path source = .ok tokens ∧
      tokens.map Token.text = texts) ↔ LaidOut source.toList texts := by
    intro texts
    rw [laidOut_iff (Location.start path)]
    simp only [Token.scan, Token.scanFrom_eq_ok_iff]
  refine ⟨haccepts, ⟨?_, ?_⟩, fun fault h => Token.kind_of_scanFrom h, ?_, ?_⟩
  · rintro ⟨fault, hfault⟩ ⟨texts, hlaid⟩
    obtain ⟨tokens, hok, -⟩ := (haccepts texts).2 hlaid
    rw [hfault] at hok
    cases hok
  · intro hnone
    cases hscan : Token.scan path source with
    | error fault => exact ⟨fault, rfl⟩
    | ok tokens => exact absurd ⟨_, (haccepts _).1 ⟨tokens, hscan, rfl⟩⟩ hnone
  · intro tokens hok
    have hreads := Token.scanFrom_eq_ok_iff.1 hok
    exact ⟨hreads.filter_texts, fun token hm contents =>
      Token.string?_eq_some_iff (hreads.valid token hm) contents⟩
  · intro gap pieces hsource hgap hpieces hapart
    refine (haccepts _).2 ⟨gap, pieces, ⟨hgap, ?_, ?_, ?_⟩, hsource, rfl⟩
    · exact fun piece hp => (hpieces piece hp).1
    · exact fun piece hp => (hpieces piece hp).2
    · exact fun piece hp => Or.inl (hapart piece hp)

open Lexeme in
/-- A string literal that touches a word, a word with quotes inside, and a literal without an end. -/
theorem scan_accepts_laid_out_touching :
    LaidOut "\"a  b\"dup say\"hi\" ".toList ["\"a  b\"", "dup", "say\"hi\""] ∧
      ¬ ∃ texts, LaidOut "1 \"open".toList texts :=
  ⟨((scan_accepts_laid_out "<test>" _).1 _).1 ⟨_, rfl, rfl⟩,
    (scan_accepts_laid_out "<test>" _).2.1.1 ⟨_, rfl⟩⟩

end StackScript
