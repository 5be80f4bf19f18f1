import StackScript.Proofs.Lexemes
import StackScript.Proofs.NumeralGrammar
import StackScript.Proofs.ReservedNames

/-!
# Written numbers read back

The writer of numbers and the reader of numerals know nothing of each other.  That they agree follows
from three facts, each about one of them or about rounding alone.

* `Binary64.nearest_mul_right` — rounding a fraction does not depend on how it is written;
  `nearest_decimal` — so units of a power of ten may be read as a decimal with a point.
* `Shortest.accepts_shorten` — however far an expansion is shortened, it is nearest to the same bits.
* `Shortest.coefficient_positional` — the digits that are written are the units, up to zeros at the end.

From these, `Shortest.read?_display`.  Apart from that, `Numeral.compileSource_of_read?`: every numeral,
written or not, is one token, and its code pushes the number.

Principal result: `written_numbers_read_back`.
-/

set_option autoImplicit false

namespace StackScript

/-! ## Rounding a fraction -/

namespace Binary64

theorem nearest_mul_right {t : Nat} (ht : 0 < t) (n d : Nat) : nearest (n * t) (d * t) = nearest n d := by
  unfold nearest
  simp only [Nat.mul_div_mul_right n d ht]
  rw [Nat.mul_right_comm d t, divRound_mul_right ht]

/-- What a finite bit pattern stands for is nearest to that bit pattern. -/
theorem nearest_magnitude {bits : Nat} (h : bits < infinityBits) : nearest (magnitude bits) 1 = bits := by
  rw [nearest_one, rounded_magnitude]
  exact Nat.min_eq_right (Nat.le_of_lt h)

/-- Units of `10 ^ -f`, measured in those of `2 ^ -f`, against a decimal with `k` digits behind its
point. -/
theorem nearest_decimal {k f : Nat} (hk : k ≤ f) (c : Nat) :
    nearest (c * 10 ^ (f - k)) (5 ^ f) = nearest (c * 2 ^ f) (10 ^ k) := by
  have htwo : 0 < 2 ^ f := Nat.two_pow_pos f
  have hten : 0 < 10 ^ (f - k) := Nat.pow_pos (by decide)
  have hunits : 5 ^ f * 2 ^ f = 10 ^ k * 10 ^ (f - k) := by
    rw [← Nat.mul_pow, ← Nat.pow_add, Nat.add_sub_cancel' hk]
  calc nearest (c * 10 ^ (f - k)) (5 ^ f)
      = nearest (c * 10 ^ (f - k) * 2 ^ f) (5 ^ f * 2 ^ f) := (nearest_mul_right htwo _ _).symm
    _ = nearest (c * 2 ^ f * 10 ^ (f - k)) (10 ^ k * 10 ^ (f - k)) := by
        rw [hunits, Nat.mul_right_comm]
    _ = nearest (c * 2 ^ f) (10 ^ k) := nearest_mul_right hten _ _

theorem decimalBits_neg (c k : Nat) : decimalBits c (0 - k) = nearest (c * 2 ^ finest) (10 ^ k) := by
  cases k with
  | zero =>
    have hzero : (0 - (0 : Nat) : Int) = .ofNat 0 := rfl
    rw [hzero, decimalBits, Nat.pow_eq, Nat.pow_eq, Nat.pow_zero, Nat.mul_one]
  | succ k =>
    have hneg : (0 - (k + 1 : Nat) : Int) = .negSucc k := by omega
    rw [hneg, decimalBits, Nat.pow_eq, Nat.pow_eq]

end Binary64

open Binary64

/-! ## Written digits -/

namespace Shortest

theorem ratio_eq : ratio = 5 ^ finest := by
  unfold ratio
  rw [Nat.pow_eq]

theorem one_eq : one = 10 ^ finest := by
  unfold one
  rw [Nat.pow_eq]

theorem readsBack_iff {bits units : Nat} : readsBack bits units = true ↔ nearest units ratio = bits :=
  beq_iff_eq

theorem readsBack_expansion {bits : Nat} (h : bits < infinityBits) :
    readsBack bits (expansion bits) = true := by
  have hratio : 0 < ratio := by
    rw [ratio_eq]
    exact Nat.pow_pos (by decide)
  have hscaled := nearest_mul_right hratio (magnitude bits) 1
  rw [Nat.one_mul, nearest_magnitude h] at hscaled
  exact readsBack_iff.2 hscaled

/-- **However far a number is shortened, it is accepted**: each candidate is tried before it is taken, and
the last one is the number itself. -/
theorem accepts_shorten {accepts : Nat → Bool} {exact : Nat} (h : accepts exact = true) (k : Nat) :
    accepts (shorten accepts exact k) = true := by
  fun_induction shorten accepts exact k with
  | case1 => exact h
  | case2 k unit below above habove hbelow _ => exact hbelow
  | case3 k unit below above habove hbelow _ => exact habove
  | case4 k unit below above _ hbelow => exact hbelow
  | case5 k unit below above habove _ => exact habove
  | case6 k unit below above _ _ ih => exact ih

/-- The zeros at the end that are not written. -/
theorem exists_zeros (padded : List Char) :
    ∃ zeros, padded = (padded.reverse.dropWhile (· == '0')).reverse ++ List.replicate zeros '0' := by
  refine ⟨(padded.reverse.takeWhile (· == '0')).length, ?_⟩
  have hzeros : padded.reverse.takeWhile (· == '0') =
      List.replicate (padded.reverse.takeWhile (· == '0')).length '0' := by
    refine List.eq_replicate_length.2 fun c hc => ?_
    exact beq_iff_eq.1 (List.all_eq_true.1 List.all_takeWhile c hc)
  have hcut := congrArg List.reverse (@List.takeWhile_append_dropWhile _ (· == '0') padded.reverse)
  rw [List.reverse_append, List.reverse_reverse, hzeros, List.reverse_replicate] at hcut
  exact hcut.symm

/-- Before the zeros at its end are dropped, a fraction has all its digits. -/
theorem fractionDigits_padded {units : Nat} (h : units < one) :
    ∃ zeros padded, padded = fractionDigits units ++ List.replicate zeros '0' ∧
      padded.length = finest ∧ Nat.ofDigitChars 10 padded 0 = units := by
  have hlength : (Nat.toDigits 10 units).length ≤ finest :=
    (Nat.length_toDigits_le_iff (by decide) (by decide)).2 (one_eq ▸ h)
  obtain ⟨zeros, hzeros⟩ := exists_zeros
    (List.replicate (finest - (Nat.toDigits 10 units).length) '0' ++ Nat.toDigits 10 units)
  refine ⟨zeros, _, hzeros, ?_, ?_⟩
  · rw [List.length_append, List.length_replicate]
    exact Nat.sub_add_cancel hlength
  · rw [Nat.ofDigitChars_append, Nat.ofDigitChars_replicate_zero, Nat.mul_zero,
      Nat.ofDigitChars_ten_toDigits]

/-- **The digits on both sides of the point are the units**, up to the zeros that are not written. -/
theorem coefficient_positional (units : Nat) :
    (fractionDigits (units % one)).length ≤ finest ∧
      Nat.ofDigitChars 10 (Nat.toDigits 10 (units / one) ++ fractionDigits (units % one)) 0 *
        10 ^ (finest - (fractionDigits (units % one)).length) = units := by
  have hone : 0 < one := by
    rw [one_eq]
    exact Nat.pow_pos (by decide)
  obtain ⟨zeros, padded, hpadded, hlength, hvalue⟩ := fractionDigits_padded (Nat.mod_lt units hone)
  have hcount : (fractionDigits (units % one)).length + zeros = finest := by
    rw [← hlength, hpadded, List.length_append, List.length_replicate]
  refine ⟨by omega, ?_⟩
  have hzeros : finest - (fractionDigits (units % one)).length = zeros := by omega
  -- with all its zeros the fraction has a fixed length, so both sides of the point are one number
  have hdigits : Nat.ofDigitChars 10 (Nat.toDigits 10 (units / one) ++ padded) 0 = units := by
    rw [Nat.ofDigitChars_append, Nat.ofDigitChars_eq_ofDigitChars_zero, hlength, hvalue,
      Nat.ofDigitChars_ten_toDigits, ← one_eq, Nat.div_add_mod]
  rw [hpadded, ← List.append_assoc, Nat.ofDigitChars_append, Nat.ofDigitChars_replicate_zero,
    Nat.mul_comm] at hdigits
  rw [hzeros]
  exact hdigits

theorem isDigit_of_mem_fractionDigits {units : Nat} {c : Char} (h : c ∈ fractionDigits units) :
    c.isDigit = true := by
  have hpadded := (List.dropWhile_sublist _).subset (List.mem_reverse.1 h)
  rcases List.mem_append.1 (List.mem_reverse.1 hpadded) with hzero | hdigit
  · rw [List.eq_of_mem_replicate hzero]
    rfl
  · exact Nat.isDigit_of_mem_toDigits (by decide) (by decide) hdigit

/-! ## Reading them -/

open Numeral

theorem positional_cut (units : Nat) :
    Cut (Nat.toDigits 10 (units / one)) (fractionDigits (units % one)) [] (positional units) := by
  unfold positional
  dsimp only
  split
  · rename_i hempty
    have hplain := @Cut.plain (Nat.toDigits 10 (units / one)) (fractionDigits (units % one)) []
      (List.isEmpty_iff.1 hempty) (by simp)
    rwa [List.append_nil] at hplain
  · have hpoint := @Cut.point (Nat.toDigits 10 (units / one)) (fractionDigits (units % one)) []
    rwa [List.append_nil] at hpoint

theorem isDigit_of_mem_written {units : Nat} {c : Char}
    (h : c ∈ Nat.toDigits 10 (units / one) ++ fractionDigits (units % one)) : c.isDigit = true :=
  (List.mem_append.1 h).elim (Nat.isDigit_of_mem_toDigits (by decide) (by decide))
    isDigit_of_mem_fractionDigits

/-- What is written for a number of units is read as the number nearest to them. -/
theorem readDecimal_positional (units : Nat) :
    readDecimal (positional units) = some (ofPattern (nearest units ratio)) := by
  obtain ⟨hlength, hunits⟩ := coefficient_positional units
  have hrest : NoDigitHead [] := fun c rest he => by cases he
  have hne : ¬ (Nat.toDigits 10 (units / one) ++ fractionDigits (units % one)).isEmpty = true := by
    simp [Nat.toDigits_ne_nil]
  have hnearest := nearest_decimal hlength (Nat.ofDigitChars 10
    (Nat.toDigits 10 (units / one) ++ fractionDigits (units % one)) 0)
  rw [hunits, ← decimalBits_neg, ← ratio_eq] at hnearest
  rw [readDecimal_of_cut (fun _ => isDigit_of_mem_written) hrest (positional_cut units), if_neg hne,
    hnearest]
  rfl

theorem isDecimal_positional (units : Nat) : IsDecimal (positional units) :=
  (readDecimal_isSome_iff _).1 (by rw [readDecimal_positional]; rfl)

theorem startsBody_positional (units : Nat) : StartsBody (positional units) := by
  obtain ⟨c, rest, he⟩ := List.exists_cons_of_ne_nil (@Nat.toDigits_ne_nil (units / one) 10)
  have hc : c.isDigit = true := isDigit_of_mem_written (by rw [he]; simp)
  have hcut := positional_cut units
  rw [he] at hcut
  generalize positional units = cs at hcut
  cases hcut with
  | plain => exact ⟨c, _, rfl, Or.inl hc⟩
  | point => exact ⟨c, _, rfl, Or.inl hc⟩

/-- **Bits without a sign read back**, those of infinity included. -/
theorem readMagnitude_displayBits {bits : Nat} (h : bits ≤ infinityBits) :
    readMagnitude (displayBits bits) = some (ofPattern bits) := by
  unfold displayBits
  split
  · rename_i hfinite
    dsimp only
    -- of the shortened expansion nothing matters but that it has been accepted
    have hback := accepts_shorten (readsBack_expansion hfinite) (decimalOrder (expansion bits))
    generalize shorten (readsBack bits) (expansion bits) (decimalOrder (expansion bits)) = units at hback
    have hdecimal := isDecimal_positional units
    rw [readMagnitude_of_startsBody (startsBody_positional units), hdecimal.withoutSeparators, readBody,
      hdecimal.splitRadix]
    show readDecimal (positional units) = _
    rw [readDecimal_positional, readsBack_iff.1 hback]
  · rename_i hinfinite
    obtain rfl : bits = infinityBits := Nat.le_antisymm h (Nat.le_of_not_lt hinfinite)
    rfl

theorem unsigned_displayBits (bits : Nat) : Unsigned (displayBits bits) := by
  unfold displayBits
  split
  · exact (startsBody_positional _).unsigned
  · exact unsigned_of_head (by decide) (by decide) _

/-- **Every number reads back as itself**, the sign of zero included. -/
theorem read?_display {x : Float} (h : x.isNaN = false) : read? (display x) = some x := by
  unfold display
  rw [if_neg (by rw [h]; decide)]
  dsimp only
  rcases eq_ofPattern_or_neg h with ⟨hlt, hle, hx⟩ | ⟨hge, hle, hx⟩
  · rw [if_pos hlt, read?_ofList, readChars_of_unsigned (unsigned_displayBits _),
      readMagnitude_displayBits hle, ← hx]
  · rw [if_neg (Nat.not_lt.2 hge), read?_ofList, readChars, readMagnitude_displayBits hle,
      Option.map_some, ← hx]

end Shortest

/-! ## Numerals as tokens -/

namespace Numeral

theorem not_isBlank_of_isNumeralChar {c : Char} (h : isNumeralChar c = true) :
    Text.isBlank c = false := by
  obtain ⟨hlow, hhigh⟩ := toNat_of_isNumeralChar h
  have hlow : 43 ≤ c.toNat := hlow
  have hhigh : c.toNat ≤ 122 := hhigh
  rw [Bool.eq_false_iff]
  intro hblank
  simp only [Text.isBlank, Bool.or_eq_true, Bool.and_eq_true, decide_eq_true_eq, beq_iff_eq] at hblank
  omega

theorem ne_quote_of_isNumeralChar {c : Char} (h : isNumeralChar c = true) : c ≠ '"' := by
  rintro rfl
  exact absurd h (by decide)

section Tokens

variable {text : String} {x : Float} (h : read? text = some x)

include h

/-- **A numeral is one lexeme**: a word. -/
theorem isWord_of_read? : Lexeme.IsWord text.toList := by
  have hnumeral : IsNumeral text.toList := (readChars_isSome_iff _).1 (by rw [← read?, h]; rfl)
  have hne : text.toList ≠ [] := by
    intro he
    rw [read?, he] at h
    cases h
  obtain ⟨c, cs, he⟩ := List.exists_cons_of_ne_nil hne
  rw [he] at hnumeral ⊢
  have hhead := hnumeral.isNumeralChar List.mem_cons_self
  refine .of_cons (not_isBlank_of_isNumeralChar hhead) (ne_quote_of_isNumeralChar hhead) fun d hd => ?_
  exact not_isBlank_of_isNumeralChar (hnumeral.isNumeralChar (List.mem_cons_of_mem c hd))

theorem ofName?_of_read? : Primitive.ofName? text = none := by
  have hnames : ∀ operation ∈ Primitive.all, read? operation.name = none := by decide +kernel
  cases ho : Primitive.ofName? text with
  | none => rfl
  | some operation =>
    have hnone := hnames operation operation.mem_all
    rw [Primitive.name_of_ofName? ho, h] at hnone
    cases hnone

theorem scan_of_read? (path : String) : Token.scan path text = .ok [⟨Location.start path, text⟩] := by
  have hend : Text.BlankHead [] := by simp [Text.BlankHead]
  have hscan := Token.scanFrom_gap_word (Location.start path) (isWord_of_read? h) hend
  rw [List.append_nil, String.ofList_toList] at hscan
  exact hscan

/-- **A numeral is compiled to one instruction**, which pushes the number. -/
theorem compileSource_of_read? (path : String) :
    compileSource path text = .ok [.push (some (Location.start path)) (.number x)] := by
  -- no word with a meaning of its own is a numeral
  have hother : ∀ other, read? other = none → text ≠ other := by
    rintro other hnone rfl
    rw [h] at hnone
    cases hnone
  have hplain : Token.IsPlain ⟨Location.start path, text⟩ :=
    ⟨hother ":" (by decide +kernel), hother "if" (by decide +kernel)⟩
  have hstring : Token.string? ⟨Location.start path, text⟩ = none :=
    Token.string?_of_isWord (isWord_of_read? h)
  have hcode := compile_of_compiles (.plain hplain .nil)
  simp only [Token.instruction, ofName?_of_read? h, hstring, h] at hcode
  exact (compileSource_of_scan (scan_of_read? h path)).trans hcode

end Tokens

end Numeral

/-! ## The result -/

/-- **Written numbers read back.**  The written form of any number, whatever its sign and its size, is one
lexeme and no name of a primitive.  It reads back as the same bits, and its code is one instruction, which
pushes the number. -/
theorem written_numbers_read_back {x : Float} (h : x.isNaN = false) (names : ScopeId → List String)
    (path : String) :
    Token.scan path ((Value.number x).display names) =
      .ok [⟨Location.start path, (Value.number x).display names⟩] ∧
    Lexeme.IsWord ((Value.number x).display names).toList ∧
    Primitive.ofName? ((Value.number x).display names) = none ∧
    (Numeral.read? ((Value.number x).display names)).map Float.toBits = some x.toBits ∧
    compileSource path ((Value.number x).display names) =
      .ok [.push (some (Location.start path)) (.number x)] := by
  have hread : Numeral.read? ((Value.number x).display names) = some x := Shortest.read?_display h
  refine ⟨Numeral.scan_of_read? hread path, Numeral.isWord_of_read? hread,
    Numeral.ofName?_of_read? hread, ?_, Numeral.compileSource_of_read? hread path⟩
  rw [hread]
  rfl

/-- A fraction that has no exact decimal as short as the written one, and the two numbers whose sign is
easily lost. -/
theorem written_numbers_read_back_signed :
    compileSource "signed" "0.1" =
      .ok [.push (some (Location.start "signed")) (.number (Float.ofBits 0x3FB999999999999A))] ∧
    compileSource "signed" "-0" =
      .ok [.push (some (Location.start "signed")) (.number (Float.ofBits 0x8000000000000000))] ∧
    compileSource "signed" "-Infinity" =
      .ok [.push (some (Location.start "signed")) (.number (Float.ofBits 0xFFF0000000000000))] := by
  have hfraction : Shortest.display (Float.ofBits 0x3FB999999999999A) = "0.1" := by decide +kernel
  have hzero : Shortest.display (Float.ofBits 0x8000000000000000) = "-0" := by decide +kernel
  have hinfinite : Shortest.display (Float.ofBits 0xFFF0000000000000) = "-Infinity" := by
    decide +kernel
  rw [← hfraction, ← hzero, ← hinfinite]
  exact ⟨(written_numbers_read_back (by decide +kernel) (fun _ => []) "signed").2.2.2.2,
    (written_numbers_read_back (by decide +kernel) (fun _ => []) "signed").2.2.2.2,
    (written_numbers_read_back (by decide +kernel) (fun _ => []) "signed").2.2.2.2⟩

end StackScript
