import StackScript.Machine.Effect
import StackScript.Proofs.Lexemes

/-!
# Written forms that fit on a line

* `Text.cut` — a text cut at its line feeds; `Text.Lines` — the lines that a text is made of.
* `Text.OneLine` — a text without a line feed.
* `Value.OneLine` — a value that holds such texts only.

Principal results: `Text.lines_join` — texts that fit on a line, each with a line feed behind it, are the
lines of what they make up; `Shortest.oneLine_display`, `Text.Quoted.oneLine_encode` — numbers and quoted
texts always fit on a line; `Value.OneLine.display`, `Value.OneLine.quoted`, `Value.OneLine.sum?` — other
values do if the texts in them and the names in packages do.
-/

set_option autoImplicit false

namespace StackScript

/-! ## Lines -/

namespace Text

def OneLine (text : String) : Prop := '\n' ∉ text.toList

instance (text : String) : Decidable (OneLine text) := inferInstanceAs (Decidable ('\n' ∉ text.toList))

/-- A text cut at its line feeds: the lines that have an end, and what follows them. -/
def cut : List Char → List (List Char) × List Char
  | [] => ([], [])
  | c :: rest =>
    if c = '\n' then ([] :: (cut rest).1, (cut rest).2)
    else
      match cut rest with
      | ([], unended) => ([], c :: unended)
      | (line :: lines, unended) => ((c :: line) :: lines, unended)

/-- The text is made of exactly these lines, and the last one has an end, too. -/
def Lines (lines : List String) (text : String) : Prop :=
  cut text.toList = (lines.map String.toList, [])

theorem cut_line {line : List Char} (h : '\n' ∉ line) (rest : List Char) :
    cut (line ++ '\n' :: rest) = (line :: (cut rest).1, (cut rest).2) := by
  induction line with
  | nil => rw [List.nil_append, cut, if_pos rfl]
  | cons c line ih =>
    have hc : c ≠ '\n' := fun he => h (he ▸ List.mem_cons_self)
    have hline : '\n' ∉ line := fun hm => h (List.mem_cons_of_mem c hm)
    rw [List.cons_append, cut, if_neg hc, ih hline]

/-- **Texts without line feeds are the lines that they make up.** -/
theorem lines_join {lines : List String} (h : ∀ line ∈ lines, OneLine line) :
    Lines lines (String.join (lines.map (· ++ "\n"))) := by
  unfold Lines
  rw [String.toList_join, List.flatMap_map]
  induction lines with
  | nil => rfl
  | cons line rest ih =>
    have hrest := ih fun other hm => h other (List.mem_cons_of_mem line hm)
    have hline : (line ++ "\n").toList = line.toList ++ ['\n'] := String.toList_append
    rw [List.flatMap_cons, hline, List.append_assoc, List.singleton_append,
      cut_line (h line List.mem_cons_self), hrest, List.map_cons]

theorem oneLine_append {s t : String} : OneLine (s ++ t) ↔ OneLine s ∧ OneLine t := by
  unfold OneLine
  rw [String.toList_append, List.mem_append, not_or]

theorem oneLine_ofList {cs : List Char} : OneLine (String.ofList cs) ↔ '\n' ∉ cs := by
  unfold OneLine
  rw [String.toList_ofList]

theorem lines_singleton {line : String} (h : OneLine line) : Lines [line] (line ++ "\n") := by
  unfold Lines
  rw [String.toList_append]
  exact cut_line h []

theorem oneLine_intercalate {separator : String} (hs : OneLine separator) {texts : List String}
    (h : ∀ text ∈ texts, OneLine text) : OneLine (String.intercalate separator texts) := by
  induction texts with
  | nil => exact List.not_mem_nil
  | cons text rest ih =>
    have htext := h text List.mem_cons_self
    have hrest := ih fun other hm => h other (List.mem_cons_of_mem text hm)
    cases rest with
    | nil =>
      rw [String.intercalate_singleton]
      exact htext
    | cons next rest =>
      rw [String.intercalate_cons_cons, oneLine_append, oneLine_append]
      exact ⟨⟨htext, hs⟩, hrest⟩

end Text

/-! ## Numbers and quoted texts -/

theorem newline_not_mem_toDigits {base : Nat} (hb : 1 < base) (n : Nat) :
    '\n' ∉ Nat.toDigits base n := by
  have hdigit : ∀ digit, '\n' ≠ Nat.digitChar digit := fun digit => (Nat.digitChar_ne _ rfl).symm
  induction n using Nat.strongRecOn with
  | ind n ih =>
    by_cases hlt : n < base
    · rw [Nat.toDigits_of_lt_base hlt, List.mem_singleton]
      exact hdigit n
    · have hle : base ≤ n := Nat.le_of_not_lt hlt
      have hless : n / base < n := Nat.div_lt_self (by omega) hb
      rw [Nat.toDigits_of_base_le hb hle, List.mem_append, List.mem_singleton, not_or]
      exact ⟨ih _ hless, hdigit _⟩

namespace Shortest

theorem newline_not_mem_fractionDigits (units : Nat) : '\n' ∉ fractionDigits units := by
  intro hm
  have hpadded := (List.dropWhile_sublist _).subset (List.mem_reverse.1 hm)
  rcases List.mem_append.1 (List.mem_reverse.1 hpadded) with hzero | hdigit
  · exact absurd (List.eq_of_mem_replicate hzero) (by decide)
  · exact newline_not_mem_toDigits (by decide) units hdigit

theorem newline_not_mem_positional (units : Nat) : '\n' ∉ positional units := by
  have hwhole := @newline_not_mem_toDigits 10 (by decide) (units / one)
  have hfraction := newline_not_mem_fractionDigits (units % one)
  unfold positional
  dsimp only
  split
  · exact hwhole
  · simp only [List.mem_append, List.mem_cons, not_or]
    exact ⟨hwhole, by decide, hfraction⟩

theorem oneLine_display (x : Float) : Text.OneLine (display x) := by
  have hbits : ∀ bits, '\n' ∉ displayBits bits := by
    intro bits
    unfold displayBits
    split
    · exact newline_not_mem_positional _
    · decide
  unfold display
  split
  · decide
  · dsimp only
    split
    · exact Text.oneLine_ofList.2 (hbits _)
    · rw [Text.oneLine_ofList, List.mem_cons, not_or]
      exact ⟨by decide, hbits _⟩

end Shortest

namespace Text.Quoted

theorem newline_not_mem_codePoint (c : Char) : '\n' ∉ codePoint c := by
  have hdigits := @newline_not_mem_toDigits 16 (by decide) c.toNat
  unfold codePoint
  rw [List.mem_append, List.mem_append, not_or, not_or]
  exact ⟨⟨by decide, hdigits⟩, by decide⟩

theorem newline_not_mem_escape (c : Char) : '\n' ∉ escape c := by
  have hcode := newline_not_mem_codePoint c
  unfold escape
  by_cases hc : c = '\n'
  · rw [hc]
    decide
  · rw [if_neg hc]
    repeat' split
    · decide
    · decide
    · decide
    · decide
    · decide
    · exact hcode
    · exact fun hm => hc (List.mem_singleton.1 hm).symm

theorem oneLine_encode (text : String) : OneLine (encode text) := by
  unfold encode
  rw [oneLine_ofList]
  simp only [List.mem_append, List.mem_cons, List.mem_flatMap, List.not_mem_nil, or_false, not_or,
    not_exists, not_and]
  exact ⟨⟨by decide, fun c _ => newline_not_mem_escape c⟩, by decide⟩

end Text.Quoted

/-! ## Values -/

/-- The texts in the value have no line feed. -/
def Value.OneLine : Value → Prop
  | .text s => Text.OneLine s
  | .host object => Text.OneLine object.kind
  | _ => True

namespace Value.OneLine

variable {names : ScopeId → List String} {value : Value}

/-- The written form fits on a line if the texts in the value and all names do. -/
theorem display (h : value.OneLine) (hnames : ∀ scope, ∀ name ∈ names scope, Text.OneLine name) :
    Text.OneLine (value.display names) := by
  cases value with
  | number x => exact Shortest.oneLine_display x
  | bool b =>
    cases b
    · exact show Text.OneLine "false" by decide
    · exact show Text.OneLine "true" by decide
  | text s => exact h
  | package scope =>
    have hjoined : Text.OneLine (String.intercalate ", " (names scope)) :=
      Text.oneLine_intercalate (by decide) (hnames scope)
    simp only [Value.display, Text.oneLine_append]
    exact ⟨⟨by decide, hjoined⟩, by decide⟩
  | host object =>
    simp only [Value.display, Text.oneLine_append]
    exact ⟨⟨by decide, h⟩, by decide⟩

theorem quoted (h : value.OneLine) (hnames : ∀ scope, ∀ name ∈ names scope, Text.OneLine name) :
    Text.OneLine (value.quoted names) := by
  cases value with
  | text s => exact Text.Quoted.oneLine_encode s
  | number x => exact h.display hnames
  | bool b => exact h.display hnames
  | package scope => exact h.display hnames
  | host object => exact h.display hnames

theorem sum? {b a : Value} (hb : b.OneLine) (ha : a.OneLine)
    (hnames : ∀ scope, ∀ name ∈ names scope, Text.OneLine name)
    (h : Value.sum? names b a = some value) : value.OneLine := by
  have hb' := hb.display hnames
  have ha' := ha.display hnames
  unfold Value.sum? at h
  split at h
  · cases h
    trivial
  · cases h
    exact Text.oneLine_append.2 ⟨hb, ha'⟩
  · cases h
    exact Text.oneLine_append.2 ⟨hb', ha⟩
  · cases h

end Value.OneLine

/-! ## Lexemes -/

theorem Lexeme.Valid.oneLine {text : String} (h : Lexeme.Valid text) : Text.OneLine text := by
  intro hm
  rcases h with ⟨contents, he, hcontents⟩ | ⟨-, -, hblank⟩
  · rw [he, List.mem_cons, List.mem_append, List.mem_singleton] at hm
    rcases hm with hq | hc | hq
    · exact absurd hq (by decide)
    · exact (hcontents _ hc).2 rfl
    · exact absurd hq (by decide)
  · exact absurd (hblank _ hm) (by decide)

theorem Token.oneLine_of_string? {token : Token} {contents : String} (hv : Lexeme.Valid token.text)
    (h : token.string? = some contents) : Text.OneLine contents := by
  obtain ⟨-, hcontents⟩ := (Token.string?_eq_some_iff hv contents).1 h
  exact fun hm => (hcontents _ hm).2 rfl

end StackScript
