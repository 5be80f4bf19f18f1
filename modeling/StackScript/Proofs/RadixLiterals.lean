import StackScript.Number.Numeral
import StackScript.Proofs.NaturalNumbers

/-!
# Literals with a radix

The digits behind `0x`, `0b` and `0o` are added up in floating point, so that a long literal is rounded
once for each digit, where the same number written in decimal is rounded once.

* `valueOf`, `keptValue` — the number that the digits stand for, and what is left of it if the digits from
  `2 ^ 53` on count as zeros.  A literal is the latter, rounded once (`readRadix_eq`).
* `read?_toString` — a number written in decimal is rounded once.
* `RoundsTwice` — the digits up to some point stand half way between two numbers and are rounded down, and
  digits behind that point would have had them rounded up.

Principal result: `radix_literals_round_each_digit`.
-/

set_option autoImplicit false

namespace StackScript.Numeral

open Binary64

/-! ## Digits -/

def digitOf (radix : Nat) (c : Char) : Nat := (digitValue? radix c).getD 0

/-- One more digit, exactly. -/
def appendDigit (radix n : Nat) (c : Char) : Nat := n * radix + digitOf radix c

/-- The number that a row of digits stands for. -/
def valueOf (radix : Nat) (digits : List Char) : Nat := digits.foldl (appendDigit radix) 0

/-- One more digit, which is lost from `2 ^ 53` on. -/
def keepDigit (radix n : Nat) (c : Char) : Nat :=
  if n < 2 ^ 53 then appendDigit radix n c else n * radix

/-- What is left of the number that a row of digits stands for. -/
def keptValue (radix : Nat) (digits : List Char) : Nat := digits.foldl (keepDigit radix) 0

section Digits

variable {radix : Nat}

theorem digitOf_lt (hradix : 0 < radix) (c : Char) : digitOf radix c < radix := by
  unfold digitOf
  cases hc : digitValue? radix c with
  | none => exact hradix
  | some d =>
    unfold digitValue? at hc
    obtain ⟨-, hd⟩ := Option.filter_eq_some_iff.1 hc
    simpa using hd

theorem foldl_appendDigit (n : Nat) (digits : List Char) :
    digits.foldl (appendDigit radix) n = n * radix ^ digits.length + valueOf radix digits := by
  unfold valueOf
  induction digits generalizing n with
  | nil => simp
  | cons c rest ih =>
    rw [List.foldl_cons, List.foldl_cons, ih, ih (appendDigit radix 0 c), List.length_cons]
    unfold appendDigit
    rw [Nat.zero_mul, Nat.zero_add, Nat.pow_succ', Nat.add_mul, Nat.mul_assoc, Nat.add_assoc]

theorem valueOf_append (head tail : List Char) :
    valueOf radix (head ++ tail) = valueOf radix head * radix ^ tail.length + valueOf radix tail := by
  unfold valueOf
  rw [List.foldl_append, foldl_appendDigit]
  rfl

theorem valueOf_lt (hradix : 0 < radix) (digits : List Char) :
    valueOf radix digits < radix ^ digits.length := by
  induction digits with
  | nil => simp [valueOf]
  | cons c rest ih =>
    have hd := Nat.mul_le_mul_right (radix ^ rest.length) (Nat.succ_le_of_lt (digitOf_lt hradix c))
    rw [Nat.succ_mul] at hd
    have hfirst : valueOf radix (c :: rest) =
        digitOf radix c * radix ^ rest.length + valueOf radix rest := by
      rw [← List.singleton_append, valueOf_append]
      simp [valueOf, appendDigit]
    rw [hfirst, List.length_cons, Nat.pow_succ']
    omega

/-- From `2 ^ 53` on digits count as zeros. -/
theorem foldl_keepDigit_of_le (hradix : 0 < radix) {n : Nat} (hn : 2 ^ 53 ≤ n) (digits : List Char) :
    digits.foldl (keepDigit radix) n = n * radix ^ digits.length := by
  induction digits generalizing n with
  | nil => simp
  | cons c rest ih =>
    have hstep : keepDigit radix n c = n * radix := if_neg (Nat.not_lt_of_le hn)
    have hle : n ≤ n * radix := Nat.le_mul_of_pos_right n hradix
    rw [List.foldl_cons, hstep, ih (Nat.le_trans hn hle), List.length_cons, Nat.pow_succ', Nat.mul_assoc]

/-- Digits are kept up to some point and lost from there on. -/
theorem foldl_keepDigit_cases (hradix : 0 < radix) (n : Nat) (digits : List Char) :
    ∃ head tail, digits = head ++ tail ∧
      digits.foldl (keepDigit radix) n = head.foldl (appendDigit radix) n * radix ^ tail.length ∧
      (tail = [] ∨ 2 ^ 53 ≤ head.foldl (appendDigit radix) n) := by
  induction digits generalizing n with
  | nil => exact ⟨[], [], rfl, (Nat.mul_one n).symm, Or.inl rfl⟩
  | cons c rest ih =>
    by_cases hn : n < 2 ^ 53
    · obtain ⟨head, tail, rfl, hfold, htail⟩ := ih (appendDigit radix n c)
      refine ⟨c :: head, tail, rfl, ?_, htail⟩
      rw [List.foldl_cons, List.foldl_cons, ← hfold]
      unfold keepDigit
      rw [if_pos hn]
    · have hle := Nat.le_of_not_lt hn
      exact ⟨[], c :: rest, rfl, foldl_keepDigit_of_le hradix hle _, Or.inr hle⟩

theorem keptValue_cases (hradix : 0 < radix) (digits : List Char) :
    ∃ head tail, digits = head ++ tail ∧
      keptValue radix digits = valueOf radix head * radix ^ tail.length ∧
      (tail = [] ∨ 2 ^ 53 ≤ valueOf radix head) := foldl_keepDigit_cases hradix 0 digits

end Digits

/-! ## Reading -/

/-- The marks behind the zero of a literal, and the radix that they announce. -/
def radixMarks : List (Char × Nat) := [('x', 16), ('X', 16), ('b', 2), ('B', 2), ('o', 8), ('O', 8)]

theorem radix_eq_pow {mark : Char} {radix : Nat} (h : (mark, radix) ∈ radixMarks) :
    ∃ k, radix = 2 ^ k ∧ k ≤ 4 := by
  have hradix : radix = 2 ^ 4 ∨ radix = 2 ^ 1 ∨ radix = 2 ^ 3 := by
    simp [radixMarks] at h
    omega
  rcases hradix with rfl | rfl | rfl
  · exact ⟨4, rfl, by decide⟩
  · exact ⟨1, rfl, by decide⟩
  · exact ⟨3, rfl, by decide⟩

theorem ofNat_eq_ofDecimal : ∀ n ≤ 16, Float.ofNat n = ofDecimal n 0 := by decide +kernel

/-- **Adding digits up in floating point** loses them from `2 ^ 53` on, and rounds what is left once. -/
theorem foldlM_addDigit {k : Nat} (hk : k ≤ 4) {digits : List Char}
    (hdigits : ∀ c ∈ digits, (digitValue? (2 ^ k) c).isSome) (n : Nat) :
    digits.foldlM (addDigit (2 ^ k)) (ofDecimal n 0) =
      some (ofDecimal (digits.foldl (keepDigit (2 ^ k)) n) 0) := by
  induction digits generalizing n with
  | nil => rfl
  | cons c rest ih =>
    obtain ⟨d, hd⟩ := Option.isSome_iff_exists.1 (hdigits c List.mem_cons_self)
    have hradix : 2 ^ k ≤ 2 ^ 4 := Nat.pow_le_pow_right (by decide) hk
    have hdigit : digitOf (2 ^ k) c = d := by
      unfold digitOf
      rw [hd, Option.getD_some]
    have hlt : d < 2 ^ k := hdigit ▸ digitOf_lt (Nat.two_pow_pos k) c
    have hstep : addDigit (2 ^ k) (ofDecimal n 0) c =
        some (ofDecimal (keepDigit (2 ^ k) n c) 0) := by
      unfold addDigit keepDigit appendDigit
      rw [hd, hdigit, Option.map_some, ofNat_eq_ofDecimal (2 ^ k) hradix,
        ofNat_eq_ofDecimal d (by omega), ofDecimal_add_digit (by omega) hlt]
    rw [List.foldlM_cons, hstep, List.foldl_cons]
    exact ih (fun c' hc' => hdigits c' (List.mem_cons_of_mem c hc')) _

theorem readRadix_eq {k : Nat} (hk : k ≤ 4) {digits : List Char} (hne : digits ≠ [])
    (hdigits : ∀ c ∈ digits, (digitValue? (2 ^ k) c).isSome) :
    readRadix (2 ^ k) digits = some (ofDecimal (keptValue (2 ^ k) digits) 0) := by
  have hzero : (0 : Float) = ofDecimal 0 0 := by decide +kernel
  unfold readRadix
  rw [if_neg (by simpa using hne), hzero]
  exact foldlM_addDigit hk hdigits 0

theorem ne_underscore {radix : Nat} {c : Char} (h : (digitValue? radix c).isSome) : c ≠ '_' := by
  rintro rfl
  cases h

/-- A literal with a mark is read by its radix. -/
theorem read?_radix {mark : Char} {radix : Nat} {digits : List Char}
    (hmark : (mark, radix) ∈ radixMarks)
    (hdigits : ∀ c ∈ digits, (digitValue? radix c).isSome) :
    read? (String.ofList ('0' :: mark :: digits)) = readRadix radix digits := by
  have hfilter : digits.filter (· != '_') = digits := by
    refine List.filter_eq_self.2 fun c hc => ?_
    simpa using ne_underscore (hdigits c hc)
  have hcases : ∀ pair ∈ radixMarks, pair.1 ≠ '_' ∧
      ∀ rest, splitRadix ('0' :: pair.1 :: rest) = some (pair.2, rest) := by
    simp [radixMarks, splitRadix]
  obtain ⟨hplain, hsplit⟩ := hcases _ hmark
  have hbody : readBody ('0' :: mark :: digits) = readRadix radix digits := by
    unfold readBody
    rw [hsplit]
  have hall : ('0' :: mark :: digits).filter (· != '_') = '0' :: mark :: digits := by
    simp [hfilter, hplain]
  unfold read?
  rw [String.toList_ofList]
  show readMagnitude ('0' :: mark :: digits) = _
  unfold readMagnitude readUnsigned
  rw [if_neg (by simp), hall]
  exact hbody

theorem splitRadix_of_isDigit {cs : List Char} (hdigits : ∀ c ∈ cs, c.isDigit) :
    splitRadix cs = none := by
  unfold splitRadix
  split
  · rename_i mark digits
    have hmark : mark.isDigit := hdigits mark (by simp)
    have hne : ∀ c : Char, c.isDigit = false → mark ≠ c := by
      rintro c hc rfl
      rw [hc] at hmark
      cases hmark
    simp [hne 'x' rfl, hne 'X' rfl, hne 'b' rfl, hne 'B' rfl, hne 'o' rfl, hne 'O' rfl]
  · rfl

theorem readDecimal_of_isDigit {cs : List Char} (hne : cs ≠ []) (hdigits : ∀ c ∈ cs, c.isDigit) :
    readDecimal cs = some (ofDecimal (Nat.ofDigitChars 10 cs 0) 0) := by
  have hwhole : cs.takeWhile Char.isDigit = cs := by
    simpa using @List.takeWhile_append_of_pos Char Char.isDigit cs [] hdigits
  have hrest : cs.dropWhile Char.isDigit = [] := by
    simpa using @List.dropWhile_append_of_pos Char Char.isDigit cs [] hdigits
  unfold readDecimal
  simp [hwhole, hrest, splitFraction, readExponent, hne]

theorem readChars_of_isDigit {cs : List Char} (hne : cs ≠ []) (hdigits : ∀ c ∈ cs, c.isDigit) :
    readChars cs = some (ofDecimal (Nat.ofDigitChars 10 cs 0) 0) := by
  have hfilter : cs.filter (· != '_') = cs := by
    refine List.filter_eq_self.2 fun c hc => ?_
    have hdigit := hdigits c hc
    rw [bne_iff_ne]
    rintro rfl
    cases hdigit
  cases cs with
  | nil => exact absurd rfl hne
  | cons c rest =>
    have hdigit : c.isDigit := hdigits c List.mem_cons_self
    have hother : ∀ other : Char, other.isDigit = false → c ≠ other := by
      rintro other ho rfl
      rw [ho] at hdigit
      cases hdigit
    have hmagnitude : readChars (c :: rest) = readMagnitude (c :: rest) := by
      unfold readChars
      split
      · rename_i heq
        exact absurd (List.cons.inj heq).1 (hother '-' rfl)
      · rename_i heq
        exact absurd (List.cons.inj heq).1 (hother '+' rfl)
      · rfl
    rw [hmagnitude]
    unfold readMagnitude readUnsigned readBody startsBody
    rw [if_neg (by simp [hother 'I' rfl])]
    simp only [hdigit, Bool.true_or, if_true, hfilter, splitRadix_of_isDigit hdigits]
    exact readDecimal_of_isDigit hne hdigits

theorem read?_toString (n : Nat) : read? (toString n) = some (ofDecimal n 0) := by
  have hdigits : ∀ c ∈ Nat.toDigits 10 n, c.isDigit :=
    fun c hc => Nat.isDigit_of_mem_toDigits (by decide) (by decide) hc
  have hchars : (toString n).toList = Nat.toDigits 10 n := Nat.toList_repr
  unfold read?
  rw [hchars, readChars_of_isDigit Nat.toDigits_ne_nil hdigits, Nat.ofDigitChars_toDigits]
  all_goals decide

/-! ## Rounding once and rounding each time -/

/-- The digits up to some point are rounded down as a tie, though further digits tell that they are not
one; and the number is not so large that it is infinite in any case. -/
def RoundsTwice (radix : Nat) (digits : List Char) : Prop :=
  valueOf radix digits < 2 ^ 1024 ∧ ∃ head tail, digits = head ++ tail ∧
    HalfwayAboveEven (valueOf radix head) ∧ valueOf radix tail ≠ 0

/-- Behind the first 54 bits of a tie there are zeros only, so none of its digits is lost. -/
theorem keptValue_of_halfway {k : Nat} {digits : List Char}
    (h : HalfwayAboveEven (valueOf (2 ^ k) digits)) :
    keptValue (2 ^ k) digits = valueOf (2 ^ k) digits := by
  obtain ⟨head, tail, rfl, hkept, htail⟩ := keptValue_cases (Nat.two_pow_pos k) digits
  have hvalue := @valueOf_append (2 ^ k) head tail
  rcases htail with rfl | hhead
  · simpa [valueOf] using hkept
  have hlt := valueOf_lt (Nat.two_pow_pos k) tail
  obtain ⟨a, t, htie, -, hhigh⟩ := h
  rw [← Nat.pow_mul] at hlt hvalue hkept
  rw [hkept, hvalue]
  generalize k * tail.length = q at *
  -- the digits behind `head` are within the zeros
  have hle : q ≤ t := by
    refine Nat.le_of_not_lt fun hgt => ?_
    have hlow := Nat.mul_le_mul hhead (Nat.pow_le_pow_right (show 0 < 2 by decide) hgt)
    have hbound := Nat.mul_lt_mul_of_pos_right hhigh (Nat.two_pow_pos t)
    rw [Nat.succ_eq_add_one, Nat.pow_succ] at hlow
    omega
  have hdvd : 2 ^ q ∣ valueOf (2 ^ k) head * 2 ^ q + valueOf (2 ^ k) tail := by
    rw [← hvalue, htie]
    exact Nat.dvd_trans (Nat.pow_dvd_pow 2 hle) (Nat.dvd_mul_left _ _)
  have hzero : valueOf (2 ^ k) tail = 0 :=
    Nat.eq_zero_of_dvd_of_lt ((Nat.dvd_add_right (Nat.dvd_mul_left _ _)).1 hdvd) hlt
  rw [hzero, Nat.add_zero]

/-- **When the two ways to round differ.** -/
theorem keptValue_rounds_iff {k : Nat} (digits : List Char) :
    ofDecimal (keptValue (2 ^ k) digits) 0 = ofDecimal (valueOf (2 ^ k) digits) 0 ↔
      ¬ RoundsTwice (2 ^ k) digits := by
  rw [ofDecimal_zero_exponent, ofDecimal_zero_exponent,
    ofPattern_inj (naturalBits_le _) (naturalBits_le _)]
  constructor
  · rintro hsame ⟨hshort, head, tail, rfl, htie, htail⟩
    have hlong := htie.le
    have hkept : keptValue (2 ^ k) (head ++ tail) = valueOf (2 ^ k) head * (2 ^ k) ^ tail.length := by
      rw [← keptValue_of_halfway htie] at hlong ⊢
      unfold keptValue at *
      rw [List.foldl_append, foldl_keepDigit_of_le (Nat.two_pow_pos k) hlong]
    have hlt := valueOf_lt (Nat.two_pow_pos k) tail
    rw [hkept, valueOf_append, ← Nat.pow_mul] at hsame
    rw [valueOf_append, ← Nat.pow_mul] at hshort
    rw [← Nat.pow_mul] at hlt
    exact (naturalBits_add_eq_iff hlong hlt).1 hsame ⟨hshort, htie, htail⟩
  · intro hnot
    obtain ⟨head, tail, rfl, hkept, htail⟩ := keptValue_cases (Nat.two_pow_pos k) digits
    rcases htail with rfl | hlong
    · rw [hkept]
      simp
    · have hlt := valueOf_lt (Nat.two_pow_pos k) tail
      rw [hkept, valueOf_append, ← Nat.pow_mul]
      rw [← Nat.pow_mul] at hlt
      refine (naturalBits_add_eq_iff hlong hlt).2 ?_
      rintro ⟨hshort, htie, htail⟩
      refine hnot ⟨?_, head, tail, rfl, htie, htail⟩
      rwa [valueOf_append, ← Nat.pow_mul]

/-- **Literals with a radix are rounded with each digit.**  Let one or more digits of the radix follow the
mark.  The literal is the number nearest to what is left of its value when digits from `2 ^ 53` on count
as zeros, where the same value written in decimal is the number nearest to it.  The two are the same
unless the digits up to some point are a tie that is rounded down and digits other than zero follow. -/
theorem radix_literals_round_each_digit {mark : Char} {radix : Nat} {digits : List Char}
    (hmark : (mark, radix) ∈ radixMarks) (hne : digits ≠ [])
    (hdigits : ∀ c ∈ digits, (digitValue? radix c).isSome) :
    read? (String.ofList ('0' :: mark :: digits)) =
      some (ofDecimal (keptValue radix digits) 0) ∧
    read? (toString (valueOf radix digits)) = some (ofDecimal (valueOf radix digits) 0) ∧
    (read? (String.ofList ('0' :: mark :: digits)) = read? (toString (valueOf radix digits)) ↔
      ¬ RoundsTwice radix digits) := by
  obtain ⟨k, rfl, hk⟩ := radix_eq_pow hmark
  have hliteral : read? (String.ofList ('0' :: mark :: digits)) =
      some (ofDecimal (keptValue (2 ^ k) digits) 0) := by
    rw [read?_radix hmark hdigits, readRadix_eq hk hne hdigits]
  have hdecimal := read?_toString (valueOf (2 ^ k) digits)
  refine ⟨hliteral, hdecimal, ?_⟩
  rw [hliteral, hdecimal, Option.some.injEq]
  exact keptValue_rounds_iff digits

/-- The last two of sixteen digits are lost, and it makes no difference. -/
theorem radix_literals_round_each_digit_ones :
    read? "0xFFFFFFFFFFFFFFFF" = read? "18446744073709551615" ∧
      ¬ RoundsTwice 16 "FFFFFFFFFFFFFFFF".toList := by
  have hsame : read? "0xFFFFFFFFFFFFFFFF" = read? "18446744073709551615" := by decide +kernel
  have hliteral : String.ofList ('0' :: 'x' :: "FFFFFFFFFFFFFFFF".toList) = "0xFFFFFFFFFFFFFFFF" := by
    decide +kernel
  have hvalue : toString (valueOf 16 "FFFFFFFFFFFFFFFF".toList) = "18446744073709551615" := by
    decide +kernel
  have hdigits : ∀ c ∈ "FFFFFFFFFFFFFFFF".toList, (digitValue? 16 c).isSome :=
    List.all_eq_true.1 (by decide +kernel)
  have hrounds := (@radix_literals_round_each_digit 'x' 16 "FFFFFFFFFFFFFFFF".toList (by decide)
    (by decide) hdigits).2.2
  rw [hliteral, hvalue] at hrounds
  exact ⟨hsame, hrounds.1 hsame⟩

/-- A literal that is not the number nearest to its value: up to the last digit it is a tie, and the last
digit is lost. -/
theorem hex_literal_not_nearest :
    valueOf 16 "200000000000011".toList = 144115188075855889 ∧
      read? "0x200000000000011" ≠ read? "144115188075855889" := by
  decide +kernel

end StackScript.Numeral
