import StackScript.Proofs.RadixLiterals
import StackScript.Proofs.SignedNumbers

/-!
# The grammar of numerals

Which texts are numbers, said by their form and not by how they are read.

* `IsRadixLiteral`, `IsDecimal` — the two forms of a body without separators.
* `IsNumeral` — a sign or none, and `Infinity` or a body.
* `readDecimal_of_cut` — a decimal is its digits and its exponent, rounded once; `exists_cut` — every row
  of characters can be cut at that place.
* `readMagnitude_pattern` — a numeral without a sign has no sign, and is a number.
* `looksNumeric` — the cheap test by which most names are told from numerals.  Reading does not make it:
  `readChars_eq_none` says that a text which fails it, and is not `Infinity`, is no numeral anyway.

Principal results: `readChars_isSome_iff` — a text is read exactly if it follows the grammar;
`numerals_exact`, which adds what the number depends on.
-/

set_option autoImplicit false

namespace StackScript.Numeral

open Binary64

/-! ## The grammar -/

/-- One or more decimal digits. -/
def IsDigits (cs : List Char) : Prop := cs ≠ [] ∧ ∀ c ∈ cs, c.isDigit = true

/-- A sign of a number, or none. -/
def signs : List (List Char) := [[], ['+'], ['-']]

/-- A sign or none, and something that has the property `P`. -/
def Signed (P : List Char → Prop) (cs : List Char) : Prop :=
  ∃ sign ∈ signs, ∃ rest, P rest ∧ cs = sign ++ rest

/-- The digits of a radix, in either case. -/
def radixDigits : Nat → List Char
  | 2 => "01".toList
  | 8 => "01234567".toList
  | 16 => "0123456789abcdefABCDEF".toList
  | _ => []

/-- A zero, the mark of a radix and one or more of its digits. -/
def IsRadixLiteral (cs : List Char) : Prop :=
  ∃ mark radix digits, (mark, radix) ∈ radixMarks ∧ digits ≠ [] ∧
    (∀ c ∈ digits, c ∈ radixDigits radix) ∧ cs = '0' :: mark :: digits

/-- Nothing, or a mark, a sign or none, and one or more digits. -/
def IsExponent (cs : List Char) : Prop :=
  cs = [] ∨ ∃ mark ∈ ['e', 'E'], ∃ rest, Signed IsDigits rest ∧ cs = mark :: rest

/-- One or more digits with at most one point before, among or behind them, and an exponent or none. -/
def IsDecimal (cs : List Char) : Prop :=
  ∃ whole fraction exponent, IsDigits (whole ++ fraction) ∧ IsExponent exponent ∧
    (cs = whole ++ '.' :: (fraction ++ exponent) ∨ fraction = [] ∧ cs = whole ++ exponent)

def StartsBody (cs : List Char) : Prop := ∃ c rest, cs = c :: rest ∧ (c.isDigit = true ∨ c = '.')

/-- The characters that count. -/
def withoutSeparators (cs : List Char) : List Char := cs.filter (· != '_')

/-- A body starts with a digit or a point, and without its separators it has one of the two forms. -/
def IsBody (cs : List Char) : Prop :=
  StartsBody cs ∧ (IsRadixLiteral (withoutSeparators cs) ∨ IsDecimal (withoutSeparators cs))

/-- A sign or none, and `Infinity` or a body. -/
def IsNumeral (cs : List Char) : Prop := Signed (fun rest => rest = "Infinity".toList ∨ IsBody rest) cs

def Unsigned (cs : List Char) : Prop := ∀ rest, cs ≠ '+' :: rest ∧ cs ≠ '-' :: rest

/-! ## Signs -/

theorem sign_cases (cs : List Char) :
    (∃ rest, cs = '-' :: rest) ∨ (∃ rest, cs = '+' :: rest) ∨ Unsigned cs := by
  by_cases hminus : ∃ rest, cs = '-' :: rest
  · exact Or.inl hminus
  by_cases hplus : ∃ rest, cs = '+' :: rest
  · exact Or.inr (Or.inl hplus)
  · exact Or.inr (Or.inr fun rest => ⟨fun he => hplus ⟨rest, he⟩, fun he => hminus ⟨rest, he⟩⟩)

section Signed

variable {P : List Char → Prop} (hP : ∀ cs, P cs → Unsigned cs) {cs : List Char}

include hP

/-- What has a sign has one only. -/
theorem signed_minus_iff : Signed P ('-' :: cs) ↔ P cs := by
  constructor
  · rintro ⟨sign, hsign, rest, hrest, he⟩
    simp only [signs, List.mem_cons, List.not_mem_nil, or_false] at hsign
    rcases hsign with rfl | rfl | rfl
    · exact absurd he.symm (hP rest hrest cs).2
    · cases he
    · cases he
      exact hrest
  · exact fun h => ⟨['-'], by decide, cs, h, rfl⟩

theorem signed_plus_iff : Signed P ('+' :: cs) ↔ P cs := by
  constructor
  · rintro ⟨sign, hsign, rest, hrest, he⟩
    simp only [signs, List.mem_cons, List.not_mem_nil, or_false] at hsign
    rcases hsign with rfl | rfl | rfl
    · exact absurd he.symm (hP rest hrest cs).1
    · cases he
      exact hrest
    · cases he
  · exact fun h => ⟨['+'], by decide, cs, h, rfl⟩

omit hP in
theorem signed_iff_of_unsigned (hu : Unsigned cs) : Signed P cs ↔ P cs := by
  constructor
  · rintro ⟨sign, hsign, rest, hrest, rfl⟩
    simp only [signs, List.mem_cons, List.not_mem_nil, or_false] at hsign
    rcases hsign with rfl | rfl | rfl
    · exact hrest
    · exact absurd rfl (hu rest).1
    · exact absurd rfl (hu rest).2
  · exact fun h => ⟨[], by decide, cs, h, rfl⟩

end Signed

/-! ## Digits -/

theorem ne_of_isDigit {c other : Char} (hc : c.isDigit = true) (ho : other.isDigit = false) :
    c ≠ other := by
  rintro rfl
  rw [hc] at ho
  cases ho

/-- What follows a run of digits: nothing, or something else than a digit. -/
def NoDigitHead (cs : List Char) : Prop := ∀ c rest, cs = c :: rest → c.isDigit = false

theorem span_isDigit {digits rest : List Char} (hd : ∀ c ∈ digits, c.isDigit = true)
    (hr : NoDigitHead rest) :
    (digits ++ rest).takeWhile Char.isDigit = digits ∧
      (digits ++ rest).dropWhile Char.isDigit = rest := by
  rw [List.takeWhile_append_of_pos hd, List.dropWhile_append_of_pos hd]
  cases rest with
  | nil => simp
  | cons c rest => simp [hr c rest rfl]

/-- Only ASCII characters have a value as digits. -/
theorem toNat_lt_of_digitValue? {radix : Nat} {c : Char} (h : (digitValue? radix c).isSome) :
    c.toNat < 128 := by
  by_cases hdigit : c.isDigit = true
  · have hle : c.toNat ≤ 57 := (Char.isDigit_iff_toNat.1 hdigit).2
    omega
  by_cases hlower : c.isLower = true
  · have hle : c.toNat ≤ 122 := by
      simp only [Char.isLower, Bool.and_eq_true, decide_eq_true_eq, UInt32.le_iff_toNat_le] at hlower
      exact hlower.2
    omega
  by_cases hupper : c.isUpper = true
  · have hle : c.toNat ≤ 90 := by
      simp only [Char.isUpper, decide_eq_true_eq, UInt32.le_iff_toNat_le] at hupper
      exact hupper.2
    omega
  · simp [digitValue?, hdigit, hlower, hupper] at h

theorem toNat_lt_of_mem_radixDigits {radix : Nat} (hradix : radix ∈ [16, 2, 8]) {c : Char}
    (h : c ∈ radixDigits radix) : c.toNat < 128 := by
  have hall : ∀ radix ∈ [16, 2, 8], (radixDigits radix).all (·.toNat < 128) = true := by decide
  exact of_decide_eq_true (List.all_eq_true.1 (hall radix hradix) c h)

theorem digitValue?_isSome_of_ascii :
    ∀ n < 128, ∀ radix ∈ [16, 2, 8],
      ((digitValue? radix (Char.ofNat n)).isSome ↔ Char.ofNat n ∈ radixDigits radix) := by
  decide +kernel

/-- The digits of a radix are the characters that have a value in it. -/
theorem digitValue?_isSome_iff {radix : Nat} (hradix : radix ∈ [16, 2, 8]) (c : Char) :
    (digitValue? radix c).isSome ↔ c ∈ radixDigits radix := by
  by_cases hascii : c.toNat < 128
  · have hcode := digitValue?_isSome_of_ascii c.toNat hascii radix hradix
    rwa [Char.ofNat_toNat] at hcode
  · exact ⟨fun h => absurd (toNat_lt_of_digitValue? h) hascii,
      fun h => absurd (toNat_lt_of_mem_radixDigits hradix h) hascii⟩

/-! ## Literals with a radix -/

theorem splitRadix_eq_some_iff {cs digits : List Char} {radix : Nat} :
    splitRadix cs = some (radix, digits) ↔
      ∃ mark, (mark, radix) ∈ radixMarks ∧ cs = '0' :: mark :: digits := by
  constructor
  · intro h
    unfold splitRadix at h
    split at h
    · rename_i mark rest
      refine ⟨mark, ?_⟩
      split at h
      · rename_i hmark
        cases h
        rcases hmark with rfl | rfl <;> exact ⟨by decide, rfl⟩
      · split at h
        · rename_i hmark
          cases h
          rcases hmark with rfl | rfl <;> exact ⟨by decide, rfl⟩
        · split at h
          · rename_i hmark
            cases h
            rcases hmark with rfl | rfl <;> exact ⟨by decide, rfl⟩
          · cases h
    · cases h
  · rintro ⟨mark, hmark, rfl⟩
    simp only [radixMarks, List.mem_cons, Prod.mk.injEq, List.not_mem_nil, or_false] at hmark
    rcases hmark with ⟨rfl, rfl⟩ | ⟨rfl, rfl⟩ | ⟨rfl, rfl⟩ | ⟨rfl, rfl⟩ | ⟨rfl, rfl⟩ | ⟨rfl, rfl⟩ <;>
      rfl

theorem radix_mem {mark : Char} {radix : Nat} (h : (mark, radix) ∈ radixMarks) :
    radix ∈ [16, 2, 8] := by
  have hall : ∀ pair ∈ radixMarks, pair.2 ∈ [16, 2, 8] := by decide
  exact hall _ h

/-- A digit that has no value ends the reading. -/
theorem isSome_of_foldlM_addDigit {radix : Nat} {digits : List Char} {total : Float}
    (h : (digits.foldlM (addDigit radix) total).isSome) :
    ∀ c ∈ digits, (digitValue? radix c).isSome := by
  induction digits generalizing total with
  | nil => simp
  | cons c rest ih =>
    rw [List.foldlM_cons] at h
    cases hc : digitValue? radix c with
    | none =>
      simp [addDigit, hc] at h
    | some d =>
      simp only [addDigit, hc, Option.map_some, Option.bind_eq_bind, Option.bind_some] at h
      intro c' hc'
      rcases List.mem_cons.1 hc' with rfl | hc'
      · rw [hc]
        rfl
      · exact ih h c' hc'

theorem readRadix_isSome_iff {mark : Char} {radix : Nat} (hmark : (mark, radix) ∈ radixMarks)
    (digits : List Char) :
    (readRadix radix digits).isSome ↔ digits ≠ [] ∧ ∀ c ∈ digits, c ∈ radixDigits radix := by
  have hdigit := fun c => digitValue?_isSome_iff (radix_mem hmark) c
  constructor
  · intro h
    unfold readRadix at h
    split at h
    · cases h
    · rename_i hne
      exact ⟨by simpa using hne, fun c hc => (hdigit c).1 (isSome_of_foldlM_addDigit h c hc)⟩
  · rintro ⟨hne, hdigits⟩
    obtain ⟨k, rfl, hk⟩ := radix_eq_pow hmark
    rw [readRadix_eq hk hne fun c hc => (hdigit c).2 (hdigits c hc)]
    rfl

/-! ## Decimals -/

theorem readExponentDigits_isSome_iff (digits : List Char) :
    (readExponentDigits digits).isSome ↔ IsDigits digits := by
  unfold readExponentDigits IsDigits
  split
  · rename_i h
    simpa using h
  · rename_i h
    simpa using h

theorem unsigned_of_head {c : Char} (hplus : c ≠ '+') (hminus : c ≠ '-') (rest : List Char) :
    Unsigned (c :: rest) :=
  fun _ => ⟨fun he => hplus (List.cons.inj he).1, fun he => hminus (List.cons.inj he).1⟩

theorem IsDigits.unsigned {cs : List Char} (h : IsDigits cs) : Unsigned cs := by
  obtain ⟨c, rest, rfl⟩ := List.exists_cons_of_ne_nil h.1
  have hc := h.2 c List.mem_cons_self
  exact unsigned_of_head (ne_of_isDigit hc rfl) (ne_of_isDigit hc rfl) rest

theorem isExponent_cons_iff {mark : Char} {rest : List Char} :
    IsExponent (mark :: rest) ↔ (mark = 'e' ∨ mark = 'E') ∧ Signed IsDigits rest := by
  simp only [IsExponent, reduceCtorEq, List.mem_cons, List.not_mem_nil, or_false, List.cons.injEq,
    false_or]
  constructor
  · rintro ⟨mark', hmark, rest', hrest, rfl, rfl⟩
    exact ⟨hmark, hrest⟩
  · rintro ⟨hmark, hrest⟩
    exact ⟨mark, hmark, rest, hrest, rfl, rfl⟩

theorem readExponent_isSome_iff (cs : List Char) : (readExponent cs).isSome ↔ IsExponent cs := by
  cases cs with
  | nil => exact ⟨fun _ => Or.inl rfl, fun _ => rfl⟩
  | cons mark rest =>
    rw [isExponent_cons_iff]
    rcases sign_cases rest with ⟨digits, rfl⟩ | ⟨digits, rfl⟩ | hu
    · rw [signed_minus_iff fun _ => IsDigits.unsigned, readExponent,
        ← readExponentDigits_isSome_iff]
      cases readExponentDigits digits <;> split <;> simp [*]
    · rw [signed_plus_iff fun _ => IsDigits.unsigned, readExponent,
        ← readExponentDigits_isSome_iff]
      cases readExponentDigits digits <;> split <;> simp [*]
    · rw [signed_iff_of_unsigned hu, readExponent,
        ← readExponentDigits_isSome_iff]
      · cases readExponentDigits rest <;> split <;> simp [*]
      · exact fun digits he => (hu digits).2 he
      · exact fun digits he => (hu digits).1 he

/-- Where a decimal is cut: `rest` is what follows its digits, of which `fraction` stand behind a point,
if there is one. -/
inductive Cut (whole fraction rest : List Char) : List Char → Prop where
  | plain (hf : fraction = []) (hr : ∀ more, rest ≠ '.' :: more) : Cut whole fraction rest (whole ++ rest)
  | point : Cut whole fraction rest (whole ++ '.' :: (fraction ++ rest))

/-- **What a decimal is**: its digits, with the point moved to their end, rounded once. -/
theorem readDecimal_of_cut {whole fraction rest cs : List Char}
    (hdigits : ∀ c ∈ whole ++ fraction, c.isDigit = true) (hrest : NoDigitHead rest)
    (h : Cut whole fraction rest cs) :
    readDecimal cs = if (whole ++ fraction).isEmpty then none else (readExponent rest).map fun exponent =>
      ofDecimal (Nat.ofDigitChars 10 (whole ++ fraction) 0) (exponent - fraction.length) := by
  have hwhole : ∀ c ∈ whole, c.isDigit = true := fun c hc => hdigits c (List.mem_append_left _ hc)
  have hfraction : ∀ c ∈ fraction, c.isDigit = true :=
    fun c hc => hdigits c (List.mem_append_right _ hc)
  unfold readDecimal
  cases h with
  | plain hf hr =>
    obtain ⟨htake, hdrop⟩ := span_isDigit hwhole hrest
    have hsplit : splitFraction rest = ([], rest) := by
      unfold splitFraction
      split
      · exact absurd rfl (hr _)
      · rfl
    subst hf
    simp only [htake, hdrop, hsplit]
  | point =>
    have hpoint : NoDigitHead ('.' :: (fraction ++ rest)) := by
      rintro c more he
      cases he
      rfl
    obtain ⟨htake, hdrop⟩ := span_isDigit hwhole hpoint
    obtain ⟨htake', hdrop'⟩ := span_isDigit hfraction hrest
    simp only [htake, hdrop, splitFraction, htake', hdrop']

theorem noDigitHead_dropWhile (cs : List Char) : NoDigitHead (cs.dropWhile Char.isDigit) := by
  rintro c rest he
  have hhead := List.head?_dropWhile_not Char.isDigit cs
  rwa [he] at hhead

/-- Every row of characters can be cut so. -/
theorem exists_cut (cs : List Char) :
    ∃ whole fraction rest, (∀ c ∈ whole ++ fraction, c.isDigit = true) ∧ NoDigitHead rest ∧
      Cut whole fraction rest cs := by
  have hall : ∀ row : List Char, ∀ c ∈ row.takeWhile Char.isDigit, c.isDigit = true :=
    fun row => List.all_eq_true.1 List.all_takeWhile
  have hcut := @List.takeWhile_append_dropWhile Char Char.isDigit cs
  by_cases hpoint : ∃ more, cs.dropWhile Char.isDigit = '.' :: more
  · obtain ⟨more, he⟩ := hpoint
    refine ⟨cs.takeWhile Char.isDigit, more.takeWhile Char.isDigit, more.dropWhile Char.isDigit, ?_,
      noDigitHead_dropWhile more, ?_⟩
    · intro c hc
      exact (List.mem_append.1 hc).elim (hall cs c) (hall more c)
    · have hpointed := @Cut.point (cs.takeWhile Char.isDigit) (more.takeWhile Char.isDigit)
        (more.dropWhile Char.isDigit)
      rwa [List.takeWhile_append_dropWhile, ← he, hcut] at hpointed
  · refine ⟨cs.takeWhile Char.isDigit, [], cs.dropWhile Char.isDigit, ?_, noDigitHead_dropWhile cs, ?_⟩
    · rw [List.append_nil]
      exact hall cs
    · have hplain := @Cut.plain (cs.takeWhile Char.isDigit) [] (cs.dropWhile Char.isDigit) rfl
        fun more he => hpoint ⟨more, he⟩
      rwa [hcut] at hplain

theorem IsExponent.noDigitHead {cs : List Char} (h : IsExponent cs) :
    NoDigitHead cs ∧ ∀ more, cs ≠ '.' :: more := by
  cases cs with
  | nil => exact ⟨fun c rest he => (by cases he), by simp⟩
  | cons mark rest =>
    have hmark := (isExponent_cons_iff.1 h).1
    constructor
    · rintro c more he
      cases he
      rcases hmark with rfl | rfl <;> rfl
    · rintro more he
      cases he
      rcases hmark with h | h <;> cases h

theorem readDecimal_isSome_iff (cs : List Char) : (readDecimal cs).isSome ↔ IsDecimal cs := by
  constructor
  · intro h
    obtain ⟨whole, fraction, rest, hdigits, hrest, hcut⟩ := exists_cut cs
    rw [readDecimal_of_cut hdigits hrest hcut] at h
    split at h
    · cases h
    · rename_i hne
      rw [Option.isSome_map, readExponent_isSome_iff] at h
      refine ⟨whole, fraction, rest, ⟨by simpa using hne, hdigits⟩, h, ?_⟩
      cases hcut with
      | plain hf hr => exact Or.inr ⟨hf, rfl⟩
      | point => exact Or.inl rfl
  · rintro ⟨whole, fraction, exponent, ⟨hne, hdigits⟩, hexponent, hcs⟩
    have hcut : Cut whole fraction exponent cs := by
      rcases hcs with rfl | ⟨rfl, rfl⟩
      · exact .point
      · exact .plain rfl hexponent.noDigitHead.2
    rw [readDecimal_of_cut hdigits hexponent.noDigitHead.1 hcut, if_neg (by simpa using hne),
      Option.isSome_map, readExponent_isSome_iff]
    exact hexponent

/-! ## Bodies -/

theorem IsDecimal.mem {cs : List Char} (h : IsDecimal cs) {c : Char} (hc : c ∈ cs) :
    c.isDigit = true ∨ c ∈ ['.', 'e', 'E', '+', '-'] := by
  obtain ⟨whole, fraction, exponent, ⟨-, hdigits⟩, hexponent, hcs⟩ := h
  have hcases : c ∈ whole ++ fraction ∨ c = '.' ∨ c ∈ exponent := by
    rcases hcs with rfl | ⟨rfl, rfl⟩
    · simp only [List.mem_append, List.mem_cons] at hc ⊢
      rcases hc with hc | rfl | hc | hc <;> simp_all
    · simp only [List.append_nil, List.mem_append] at hc ⊢
      exact hc.imp_right Or.inr
  rcases hcases with hc | rfl | hc
  · exact Or.inl (hdigits c hc)
  · exact Or.inr (by decide)
  · rcases hexponent with rfl | ⟨mark, hmark, -, ⟨sign, hsign, digits, hd, rfl⟩, rfl⟩
    · cases hc
    · rcases List.mem_cons.1 hc with rfl | hc
      · right
        simp only [List.mem_cons, List.not_mem_nil, or_false] at hmark
        rcases hmark with rfl | rfl <;> decide
      · rcases List.mem_append.1 hc with hc | hc
        · right
          simp only [signs, List.mem_cons, List.not_mem_nil, or_false] at hsign
          rcases hsign with rfl | rfl | rfl
          · cases hc
          · rw [List.mem_singleton.1 hc]
            decide
          · rw [List.mem_singleton.1 hc]
            decide
        · exact Or.inl (hd.2 c hc)

/-- A decimal has no mark of a radix. -/
theorem IsDecimal.splitRadix {cs : List Char} (h : IsDecimal cs) : splitRadix cs = none := by
  cases hs : Numeral.splitRadix cs with
  | none => rfl
  | some found =>
    obtain ⟨mark, hmark, rfl⟩ := splitRadix_eq_some_iff.1 hs
    have hall : ∀ pair ∈ radixMarks,
        ¬ (pair.1.isDigit = true ∨ pair.1 ∈ ['.', 'e', 'E', '+', '-']) := by decide
    exact absurd (h.mem (by simp)) (hall _ hmark)

theorem IsDecimal.withoutSeparators {cs : List Char} (h : IsDecimal cs) :
    withoutSeparators cs = cs := by
  refine List.filter_eq_self.2 fun c hc => bne_iff_ne.2 ?_
  rintro rfl
  exact absurd (h.mem hc) (by decide)

theorem readBody_isSome_iff (cs : List Char) :
    (readBody cs).isSome ↔ IsRadixLiteral cs ∨ IsDecimal cs := by
  unfold readBody
  cases hs : splitRadix cs with
  | none =>
    rw [← readDecimal_isSome_iff]
    refine ⟨Or.inr, fun h => h.resolve_left ?_⟩
    rintro ⟨mark, radix, digits, hmark, -, -, rfl⟩
    rw [splitRadix_eq_some_iff.2 ⟨mark, hmark, rfl⟩] at hs
    cases hs
  | some found =>
    obtain ⟨radix, digits⟩ := found
    obtain ⟨mark, hmark, rfl⟩ := splitRadix_eq_some_iff.1 hs
    show (readRadix radix digits).isSome ↔ _
    rw [readRadix_isSome_iff hmark]
    constructor
    · rintro ⟨hne, hdigits⟩
      exact Or.inl ⟨mark, radix, digits, hmark, hne, hdigits, rfl⟩
    -- a body with a mark is read as nothing else, so what it announces settles it
    · rintro (⟨mark', radix', digits', hmark', hne, hdigits, he⟩ | hdecimal)
      · have hother := splitRadix_eq_some_iff.2 ⟨mark', hmark', he⟩
        rw [hs] at hother
        cases hother
        exact ⟨hne, hdigits⟩
      · rw [hdecimal.splitRadix] at hs
        cases hs

/-! ## Numerals -/

theorem StartsBody.unsigned {cs : List Char} (h : StartsBody cs) : Unsigned cs := by
  obtain ⟨c, rest, rfl, hc | rfl⟩ := h
  · exact unsigned_of_head (ne_of_isDigit hc rfl) (ne_of_isDigit hc rfl) rest
  · exact unsigned_of_head (by decide) (by decide) rest

theorem StartsBody.ne_infinity {cs : List Char} (h : StartsBody cs) : cs ≠ "Infinity".toList := by
  rintro rfl
  obtain ⟨c, rest, he, hc⟩ := h
  cases he
  revert hc
  decide

/-- A body is read by the characters that count. -/
theorem readMagnitude_of_startsBody {cs : List Char} (h : StartsBody cs) :
    readMagnitude cs = readBody (withoutSeparators cs) := by
  unfold readMagnitude
  rw [if_neg h.ne_infinity]
  obtain ⟨c, rest, rfl, hc⟩ := h
  have hstarts : startsBody c = true := by simpa [startsBody] using hc
  simp only [readUnsigned, hstarts, if_true, withoutSeparators]

theorem readUnsigned_of_not_startsBody {cs : List Char} (h : ¬ StartsBody cs) :
    readUnsigned cs = none := by
  cases cs with
  | nil => rfl
  | cons c rest =>
    have hstarts : ¬ startsBody c = true := by
      intro hc
      exact h ⟨c, rest, rfl, by simpa [startsBody] using hc⟩
    rw [readUnsigned, if_neg hstarts]

theorem readMagnitude_isSome_iff (cs : List Char) :
    (readMagnitude cs).isSome ↔ cs = "Infinity".toList ∨ IsBody cs := by
  by_cases hbody : StartsBody cs
  · rw [readMagnitude_of_startsBody hbody, readBody_isSome_iff]
    exact ⟨fun h => Or.inr ⟨hbody, h⟩, fun h => (h.resolve_left hbody.ne_infinity).2⟩
  · unfold readMagnitude
    split
    · rename_i he
      exact ⟨fun _ => Or.inl he, fun _ => rfl⟩
    · rename_i hne
      rw [readUnsigned_of_not_startsBody hbody]
      exact ⟨fun h => (by cases h), fun h => absurd (h.resolve_left hne).1 hbody⟩

theorem readChars_of_unsigned {cs : List Char} (h : Unsigned cs) :
    readChars cs = readMagnitude cs := by
  unfold readChars
  split
  · exact absurd rfl (h _).2
  · exact absurd rfl (h _).1
  · rfl

/-- **A text is a number exactly if it follows the grammar.** -/
theorem readChars_isSome_iff (cs : List Char) : (readChars cs).isSome ↔ IsNumeral cs := by
  have hunsigned : ∀ rest, rest = "Infinity".toList ∨ IsBody rest → Unsigned rest := by
    rintro rest (rfl | h)
    · exact unsigned_of_head (by decide) (by decide) _
    · exact h.1.unsigned
  unfold IsNumeral
  rcases sign_cases cs with ⟨rest, rfl⟩ | ⟨rest, rfl⟩ | hu
  · rw [signed_minus_iff hunsigned, ← readMagnitude_isSome_iff, readChars, Option.isSome_map]
  · rw [signed_plus_iff hunsigned, ← readMagnitude_isSome_iff, readChars]
  · rw [signed_iff_of_unsigned hu, ← readMagnitude_isSome_iff, readChars_of_unsigned hu]

/-! ## The characters of numerals -/

/-- The characters that a numeral is made of: letters and digits, the point, the signs and the
separator. -/
def isNumeralChar (c : Char) : Bool := c.isAlphanum || ['.', '-', '+', '_'].contains c

/-- Does a text look like a number?  One that does not, and is not `Infinity` either, can be refused
without reading it. -/
def looksNumeric (cs : List Char) : Bool := cs.any Char.isDigit && cs.all isNumeralChar

/-- They stand among the ASCII characters from `+` to `z`. -/
theorem toNat_of_isNumeralChar {c : Char} (h : isNumeralChar c = true) :
    '+'.toNat ≤ c.toNat ∧ c.toNat ≤ 'z'.toNat := by
  simp only [isNumeralChar, Char.isAlphanum, Char.isAlpha, Char.isUpper, Char.isLower,
    Char.isDigit_iff_toNat, Bool.or_eq_true, Bool.and_eq_true, decide_eq_true_eq,
    UInt32.le_iff_toNat_le, ge_iff_le, List.contains_iff_mem] at h
  rcases h with ((⟨hlow, hhigh⟩ | ⟨hlow, hhigh⟩) | ⟨hlow, hhigh⟩) | hmark
  · exact ⟨Nat.le_trans (by decide) hlow, Nat.le_trans hhigh (by decide)⟩
  · exact ⟨Nat.le_trans (by decide) hlow, hhigh⟩
  · exact ⟨Nat.le_trans (by decide) hlow, Nat.le_trans hhigh (by decide)⟩
  · simp only [List.mem_cons, List.not_mem_nil, or_false] at hmark
    rcases hmark with rfl | rfl | rfl | rfl <;> decide

theorem isNumeralChar_of_isDigit {c : Char} (h : c.isDigit = true) : isNumeralChar c = true := by
  simp [isNumeralChar, Char.isAlphanum, h]

theorem IsRadixLiteral.looksNumeric {cs : List Char} (h : IsRadixLiteral cs) :
    looksNumeric cs = true := by
  obtain ⟨mark, radix, digits, hmark, -, hdigits, rfl⟩ := h
  have hmarks : ∀ pair ∈ radixMarks, isNumeralChar pair.1 = true := by decide
  have hall : ∀ radix ∈ [16, 2, 8], (radixDigits radix).all isNumeralChar = true := by decide
  refine Bool.and_eq_true_iff.2 ⟨rfl, List.all_eq_true.2 fun c hc => ?_⟩
  rcases List.mem_cons.1 hc with rfl | hc
  · rfl
  rcases List.mem_cons.1 hc with rfl | hc
  · exact hmarks _ hmark
  · exact List.all_eq_true.1 (hall radix (radix_mem hmark)) c (hdigits c hc)

theorem IsDecimal.looksNumeric {cs : List Char} (h : IsDecimal cs) : looksNumeric cs = true := by
  have hmarks : ['.', 'e', 'E', '+', '-'].all isNumeralChar = true := by decide
  refine Bool.and_eq_true_iff.2 ⟨?_, List.all_eq_true.2 fun c hc => ?_⟩
  · obtain ⟨whole, fraction, exponent, ⟨hne, hdigits⟩, -, hcs⟩ := h
    obtain ⟨digit, hdigit⟩ := List.exists_mem_of_ne_nil _ hne
    refine List.any_eq_true.2 ⟨digit, ?_, hdigits digit hdigit⟩
    rcases hcs with rfl | ⟨rfl, rfl⟩
    · simp only [List.mem_append, List.mem_cons] at hdigit ⊢
      exact hdigit.imp_right fun hdigit => Or.inr (Or.inl hdigit)
    · rw [List.append_nil] at hdigit
      exact List.mem_append_left _ hdigit
  · exact (h.mem hc).elim isNumeralChar_of_isDigit (List.all_eq_true.1 hmarks c)

theorem IsBody.looksNumeric {cs : List Char} (h : IsBody cs) : looksNumeric cs = true := by
  have hcounts : Numeral.looksNumeric (withoutSeparators cs) = true :=
    h.2.elim IsRadixLiteral.looksNumeric IsDecimal.looksNumeric
  obtain ⟨hdigit, hchars⟩ := Bool.and_eq_true_iff.1 hcounts
  refine Bool.and_eq_true_iff.2 ⟨?_, List.all_eq_true.2 fun c hc => ?_⟩
  · obtain ⟨digit, hmem, hdigit⟩ := List.any_eq_true.1 hdigit
    exact List.any_eq_true.2 ⟨digit, (List.mem_filter.1 hmem).1, hdigit⟩
  · by_cases hseparator : c = '_'
    · subst hseparator
      rfl
    · exact List.all_eq_true.1 hchars c (List.mem_filter.2 ⟨hc, bne_iff_ne.2 hseparator⟩)

/-- A numeral other than `Infinity` looks like a number. -/
theorem IsNumeral.looksNumeric {cs : List Char} (h : IsNumeral cs) :
    Signed (· = "Infinity".toList) cs ∨ looksNumeric cs = true := by
  obtain ⟨sign, hsign, rest, rfl | hbody, rfl⟩ := h
  · exact Or.inl ⟨sign, hsign, _, rfl, rfl⟩
  · have hsigns : ∀ sign ∈ signs, sign.all isNumeralChar = true := by decide
    obtain ⟨hdigit, hchars⟩ := Bool.and_eq_true_iff.1 hbody.looksNumeric
    refine Or.inr ?_
    rw [Numeral.looksNumeric, List.any_append, List.all_append, hdigit, hchars, hsigns sign hsign,
      Bool.or_true, Bool.and_self, Bool.and_self]

/-- **Refusing at a glance loses nothing**: what neither is `Infinity` nor looks like a number is no
numeral. -/
theorem readChars_eq_none {cs : List Char} (hinfinity : ¬ Signed (· = "Infinity".toList) cs)
    (hlooks : looksNumeric cs = false) : readChars cs = none := by
  rw [← Option.not_isSome_iff_eq_none, readChars_isSome_iff]
  intro hnumeral
  rcases hnumeral.looksNumeric with hsigned | hlooks'
  · exact hinfinity hsigned
  · rw [hlooks] at hlooks'
    cases hlooks'

theorem IsNumeral.isNumeralChar {cs : List Char} (h : IsNumeral cs) {c : Char} (hc : c ∈ cs) :
    isNumeralChar c = true := by
  rcases h.looksNumeric with ⟨sign, hsign, rest, rfl, rfl⟩ | hlooks
  · have hall : ∀ sign ∈ signs, (sign ++ "Infinity".toList).all Numeral.isNumeralChar = true := by
      decide
    exact List.all_eq_true.1 (hall sign hsign) c hc
  · exact List.all_eq_true.1 (Bool.and_eq_true_iff.1 hlooks).2 c hc

/-! ## Values -/

theorem ofDecimal_pattern (coefficient : Nat) (exponent : Int) :
    ∃ bits ≤ infinityBits, ofDecimal coefficient exponent = ofPattern bits := by
  refine ⟨decimalBits coefficient exponent, ?_, rfl⟩
  cases exponent <;> exact Nat.min_le_left _ _

theorem readBody_pattern {cs : List Char} {x : Float} (h : readBody cs = some x) :
    ∃ bits ≤ infinityBits, x = ofPattern bits := by
  unfold readBody at h
  split at h
  · rename_i radix digits hs
    obtain ⟨mark, hmark, -⟩ := splitRadix_eq_some_iff.1 hs
    obtain ⟨hne, hdigits⟩ := (readRadix_isSome_iff hmark digits).1 (by rw [h]; rfl)
    have hvalues : ∀ c ∈ digits, (digitValue? radix c).isSome :=
      fun c hc => (digitValue?_isSome_iff (radix_mem hmark) c).2 (hdigits c hc)
    obtain ⟨k, rfl, hk⟩ := radix_eq_pow hmark
    rw [readRadix_eq hk hne hvalues] at h
    cases h
    exact ofDecimal_pattern _ 0
  · obtain ⟨whole, fraction, rest, hdigits, hrest, hcut⟩ := exists_cut cs
    rw [readDecimal_of_cut hdigits hrest hcut] at h
    split at h
    · cases h
    · obtain ⟨exponent, -, rfl⟩ := Option.map_eq_some_iff.1 h
      exact ofDecimal_pattern _ _

/-- **A numeral without a sign has none in its bits, and is a number.** -/
theorem readMagnitude_pattern {cs : List Char} {x : Float} (h : readMagnitude cs = some x) :
    ∃ bits ≤ infinityBits, x = ofPattern bits := by
  by_cases hbody : StartsBody cs
  · rw [readMagnitude_of_startsBody hbody] at h
    exact readBody_pattern h
  · unfold readMagnitude at h
    split at h
    · cases h
      exact ⟨infinityBits, Nat.le_refl _, rfl⟩
    · rw [readUnsigned_of_not_startsBody hbody] at h
      cases h

theorem read?_ofList (cs : List Char) : read? (String.ofList cs) = readChars cs := by
  unfold read?
  rw [String.toList_ofList]

/-- What a sign does to the number behind it. -/
theorem readChars_signed {sign rest : List Char} (hsign : sign ∈ signs) (hrest : Unsigned rest) :
    readChars (sign ++ rest) =
      (readMagnitude rest).map fun x => if sign = ['-'] then -x else x := by
  simp only [signs, List.mem_cons, List.not_mem_nil, or_false] at hsign
  rcases hsign with rfl | rfl | rfl
  · rw [List.nil_append, readChars_of_unsigned hrest]
    simp
  · show readMagnitude rest = _
    simp
  · show (readMagnitude rest).map _ = _
    simp

/-- **Numerals are exactly the documented language.**  A text is a number if and only if it is a sign or
none followed by `Infinity` or by a body: one that starts with a digit or a point and that, without its
separators, is a literal with a radix or a decimal.  The number depends on the sign and on the body
without its separators only.  Before a text without a sign, a plus changes nothing, and a minus sets the
sign bit, that of zero and of infinity too. -/
theorem numerals_exact :
    (∀ text : String, (read? text).isSome = true ↔ IsNumeral text.toList) ∧
    (∀ sign ∈ signs, ∀ body other, StartsBody body → StartsBody other →
      withoutSeparators body = withoutSeparators other →
      read? (String.ofList (sign ++ body)) = read? (String.ofList (sign ++ other))) ∧
    (∀ text, Unsigned text →
      read? (String.ofList ('+' :: text)) = read? (String.ofList text) ∧
      read? (String.ofList ('-' :: text)) = (read? (String.ofList text)).map (fun x => -x) ∧
      ∀ x, read? (String.ofList text) = some x → (-x).toBits.toNat = signBit + x.toBits.toNat) := by
  refine ⟨fun text => readChars_isSome_iff text.toList, ?_, ?_⟩
  · intro sign hsign body other hbody hother he
    rw [read?_ofList, read?_ofList, readChars_signed hsign hbody.unsigned,
      readChars_signed hsign hother.unsigned, readMagnitude_of_startsBody hbody,
      readMagnitude_of_startsBody hother, he]
  · intro text hu
    simp only [read?_ofList, readChars_of_unsigned hu]
    refine ⟨rfl, rfl, fun x hx => ?_⟩
    obtain ⟨bits, hbits, rfl⟩ := readMagnitude_pattern hx
    rw [toBits_neg_ofPattern hbits, toBits_ofPattern hbits]

/-- A separator may stand inside the mark of a radix, and behind the point and the mark of an exponent;
a mark without digits is no number, and neither is a sign behind a sign. -/
theorem numerals_exact_separated :
    IsNumeral "-0_X_f__F".toList ∧ IsNumeral "+._5e_-3".toList ∧ ¬ IsNumeral "0b".toList ∧
      ¬ IsNumeral "--5".toList ∧ read? "-0_X_f__F" = read? "-0XfF" ∧
      ∃ x, read? "0" = some x ∧ read? "-0" = some (-x) ∧ (-x).toBits.toNat = signBit + x.toBits.toNat := by
  obtain ⟨hlanguage, hbody, hsign⟩ := numerals_exact
  refine ⟨(hlanguage _).1 (by decide +kernel), (hlanguage _).1 (by decide +kernel),
    fun h => absurd ((hlanguage _).2 h) (by decide +kernel),
    fun h => absurd ((hlanguage _).2 h) (by decide +kernel), ?_, ?_⟩
  · exact hbody ['-'] (by decide) "0_X_f__F".toList "0XfF".toList ⟨'0', _, rfl, Or.inl rfl⟩
      ⟨'0', _, rfl, Or.inl rfl⟩ (by decide)
  · obtain ⟨-, hminus, hbits⟩ := hsign ['0'] (unsigned_of_head (by decide) (by decide) [])
    obtain ⟨x, hx⟩ := Option.isSome_iff_exists.1 (show (read? "0").isSome by decide +kernel)
    have hminus : read? "-0" = (read? "0").map fun x => -x := hminus
    rw [hx] at hminus
    exact ⟨x, hx, hminus, hbits x hx⟩

end StackScript.Numeral
