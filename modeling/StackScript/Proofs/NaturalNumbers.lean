import StackScript.Proofs.FloatArithmetic

/-!
# Natural numbers in floating point

What becomes of a natural number to which digits are added one by one, in a radix that is a power of two.

* `naturalBits` — the bit pattern nearest to a natural number.
* `ofDecimal_mul_pow` — a power of two as a factor moves the exponent only.
* `ofDecimal_add_digit` — one more digit: below `2 ^ 53` it is added exactly and the sum is rounded, from
  there on it is lost.
* `HalfwayAboveEven` — a tie that is rounded down.  `naturalBits_add_eq_iff` — only there does it matter
  whether digits are lost.
-/

set_option autoImplicit false

namespace StackScript.Binary64

/-! ## Natural numbers -/

/-- A natural number in units of the finest grid. -/
def units (v : Nat) : Nat := v * 2 ^ finest

/-- The bit pattern nearest to a natural number. -/
def naturalBits (v : Nat) : Nat := min infinityBits (rounded (units v))

theorem naturalBits_le (v : Nat) : naturalBits v ≤ infinityBits := Nat.min_le_left _ _

theorem ofDecimal_zero_exponent (v : Nat) : ofDecimal v 0 = ofPattern (naturalBits v) := by
  have hunits : v * Nat.pow 10 0 * Nat.pow 2 finest = units v := by
    simp only [units, Nat.pow_eq, Nat.pow_zero, Nat.mul_one]
  unfold ofPattern naturalBits
  rw [← nearest_one, ← hunits]
  rfl

theorem log2_units {v : Nat} (h : v ≠ 0) : (units v).log2 = v.log2 + 1074 := log2_mul_pow h finest

theorem units_mul (v c : Nat) : units (v * c) = units v * c := Nat.mul_right_comm v c (2 ^ finest)

theorem units_add (v w : Nat) : units (v + w) = units v + units w := Nat.add_mul v w (2 ^ finest)

theorem naturalBits_zero : naturalBits 0 = 0 := by
  have hzero : units 0 = 0 := Nat.zero_mul _
  unfold naturalBits
  rw [hzero, rounded_of_lt (by decide)]
  decide

/-- The exponent alone tells whether a number is finite. -/
theorem rounded_lt_infinity {u : Nat} (h : 52 ≤ u.log2) (hlog : u.log2 < 2097) :
    rounded u < infinityBits := by
  obtain ⟨-, hle⟩ := divRound_bounds h
  have hgrid := log2_eq_grid h
  unfold rounded
  generalize divRound u (2 ^ grid u) = q at *
  unfold infinityBits leadingBit at *
  omega

/-- A power of two has a significand without further bits. -/
theorem naturalBits_pow {k : Nat} (hk : k < 1024) :
    naturalBits (2 ^ k) = (1022 + k) * leadingBit + leadingBit := by
  have hone : rounded (2 ^ 52) = leadingBit := rounded_of_lt (by decide)
  have hunits : units (2 ^ k) = 2 ^ 52 * 2 ^ (1022 + k) := by
    have hexponent : k + finest = 52 + (1022 + k) := by
      unfold finest
      omega
    unfold units
    rw [← Nat.pow_add, ← Nat.pow_add, hexponent]
  unfold naturalBits
  rw [hunits, rounded_mul_pow (by decide), hone, Nat.min_eq_right]
  unfold infinityBits leadingBit
  omega

theorem naturalBits_pow_lt {k : Nat} (hk : k < 1024) :
    0 < naturalBits (2 ^ k) ∧ naturalBits (2 ^ k) < infinityBits := by
  rw [naturalBits_pow hk]
  unfold infinityBits leadingBit
  omega

theorem magnitude_mul_pow {bits : Nat} (h : leadingBit ≤ bits) (k : Nat) :
    rounded (magnitude bits * 2 ^ k) = k * leadingBit + bits := by
  have hlog : (magnitude bits).log2 = 52 + scale bits :=
    @log2_magnitude_add bits 0 h (Nat.two_pow_pos _)
  rw [rounded_mul_pow (by omega), rounded_magnitude]

/-- **A power of two as a factor moves the exponent only.** -/
theorem ofPattern_mul_pow {bits k : Nat} (hk : k < 1024) (h : leadingBit ≤ bits)
    (hfinite : bits < infinityBits) (hscale : 52 ≤ scale bits) :
    ofPattern bits * ofPattern (naturalBits (2 ^ k)) =
      ofPattern (min infinityBits (k * leadingBit + bits)) := by
  have hfactor := naturalBits_pow hk
  have hsignificand : significand ((1022 + k) * leadingBit + leadingBit) = leadingBit := by
    unfold significand leadingBit
    split <;> omega
  have hfactorScale : scale ((1022 + k) * leadingBit + leadingBit) = 1022 + k := by
    unfold scale leadingBit
    omega
  have hproduct : significand bits * leadingBit * 2 ^ (scale bits + (1022 + k) - 1074) =
      magnitude bits * 2 ^ k := by
    have hexponent : 52 + (scale bits + (1022 + k) - 1074) = scale bits + k := by omega
    rw [magnitude_eq, Nat.mul_assoc, Nat.mul_assoc, show leadingBit = 2 ^ 52 from rfl, ← Nat.pow_add,
      ← Nat.pow_add, hexponent]
  have hlt := (naturalBits_pow_lt hk).2
  rw [hfactor] at hlt ⊢
  rw [ofPattern_mul (Nat.lt_of_lt_of_le (by decide) h) hfinite (Nat.le_add_left _ _) hlt
    (by rw [hfactorScale]; omega), hsignificand, hfactorScale, hproduct, magnitude_mul_pow h]

theorem ofDecimal_mul_pow {k : Nat} (hk : k < 1024) (v : Nat) :
    ofDecimal v 0 * ofDecimal (2 ^ k) 0 = ofDecimal (v * 2 ^ k) 0 := by
  obtain ⟨hpos, hfactor⟩ := naturalBits_pow_lt hk
  simp only [ofDecimal_zero_exponent]
  rcases Nat.eq_zero_or_pos v with rfl | hv
  · rw [Nat.zero_mul, naturalBits_zero, ofPattern_zero_mul hpos hfactor]
  have hlog := log2_units (Nat.ne_of_gt hv)
  have hnormal : 52 ≤ (units v).log2 := by omega
  have hproduct : naturalBits (v * 2 ^ k) =
      min infinityBits (k * leadingBit + rounded (units v)) := by
    unfold naturalBits
    rw [units_mul, rounded_mul_pow hnormal]
  rw [hproduct]
  by_cases hlarge : infinityBits ≤ rounded (units v)
  · have hinfinite : naturalBits v = infinityBits := Nat.min_eq_left hlarge
    rw [hinfinite, ofPattern_infinity_mul hpos hfactor, Nat.min_eq_left (by omega)]
  · have hbits : naturalBits v = rounded (units v) := Nat.min_eq_right (by omega)
    have hscale : 52 ≤ scale (rounded (units v)) := by
      have := (magnitude_rounded hnormal).2
      have := log2_eq_grid hnormal
      omega
    rw [hbits, ofPattern_mul_pow hk (leadingBit_le_rounded hnormal) (by omega) hscale]

/-- A number of 53 bits with zeros behind it is exact. -/
theorem magnitude_naturalBits {w k : Nat} (hw : w < 2 ^ 53) (hk : k ≤ 53) :
    naturalBits (w * 2 ^ k) < infinityBits ∧
      magnitude (naturalBits (w * 2 ^ k)) = units (w * 2 ^ k) := by
  rcases Nat.eq_zero_or_pos w with rfl | hpos
  · rw [Nat.zero_mul, naturalBits_zero]
    exact ⟨by decide, (Nat.zero_mul _).symm⟩
  have hlog : w.log2 < 53 := (Nat.log2_lt (Nat.ne_of_gt hpos)).2 hw
  have hlog' := log2_units (Nat.ne_of_gt (Nat.mul_pos hpos (Nat.two_pow_pos k)))
  have hshifted := log2_mul_pow (Nat.ne_of_gt hpos) k
  have hfinite : rounded (units (w * 2 ^ k)) < infinityBits :=
    rounded_lt_infinity (by omega) (by omega)
  have hbits : naturalBits (w * 2 ^ k) = rounded (units (w * 2 ^ k)) :=
    Nat.min_eq_right (Nat.le_of_lt hfinite)
  rw [hbits]
  refine ⟨hfinite, magnitude_rounded_of_dvd (by omega) ?_⟩
  -- what is cut lies within the zeros
  have hgrid : grid (units (w * 2 ^ k)) ≤ k + finest := by
    unfold grid finest
    omega
  have hzeros : units (w * 2 ^ k) = w * 2 ^ (k + finest) := by
    unfold units
    rw [Nat.mul_assoc, ← Nat.pow_add]
  refine Nat.dvd_trans (Nat.pow_dvd_pow 2 hgrid) ?_
  rw [hzeros]
  exact Nat.dvd_mul_left _ w

/-- **One more digit.**  Below `2 ^ 53` it is added exactly and the sum is rounded; above it is lost. -/
theorem ofDecimal_add_digit {k d : Nat} (hk : k ≤ 53) (hd : d < 2 ^ k) (v : Nat) :
    ofDecimal v 0 * ofDecimal (2 ^ k) 0 + ofDecimal d 0 =
      ofDecimal (if v < 2 ^ 53 then v * 2 ^ k + d else v * 2 ^ k) 0 := by
  have hle : 2 ^ k ≤ 2 ^ 53 := Nat.pow_le_pow_right (by decide) hk
  obtain ⟨hdigit, hvalue⟩ := @magnitude_naturalBits d 0 (by omega) (by omega)
  rw [Nat.pow_zero, Nat.mul_one] at hdigit hvalue
  rw [ofDecimal_mul_pow (by omega)]
  simp only [ofDecimal_zero_exponent]
  split
  · rename_i hv
    obtain ⟨hfinite, hmagnitude⟩ := magnitude_naturalBits hv hk
    rw [ofPattern_add hfinite hdigit, hmagnitude, hvalue, ← units_add]
    rfl
  · rename_i hv
    by_cases hlarge : infinityBits ≤ rounded (units (v * 2 ^ k))
    · have hinfinite : naturalBits (v * 2 ^ k) = infinityBits := Nat.min_eq_left hlarge
      rw [hinfinite, ofPattern_infinity_add hdigit]
    · have hbits : naturalBits (v * 2 ^ k) = rounded (units (v * 2 ^ k)) :=
        Nat.min_eq_right (by omega)
      have hlog : 53 ≤ v.log2 := (Nat.le_log2 (by omega)).2 (by omega)
      have hpos : v * 2 ^ k ≠ 0 := Nat.mul_ne_zero (by omega) (Nat.ne_of_gt (Nat.two_pow_pos k))
      have hunits := log2_units hpos
      have hshifted := @log2_mul_pow v (by omega) k
      have hnormal : 52 ≤ (units (v * 2 ^ k)).log2 := by omega
      have hscale : k + 1075 ≤ scale (rounded (units (v * 2 ^ k))) := by
        have := (magnitude_rounded hnormal).2
        have := log2_eq_grid hnormal
        omega
      -- the digit is less than half of the last bit
      have hsmall : 2 * units d < 2 ^ scale (rounded (units (v * 2 ^ k))) := by
        refine Nat.lt_of_lt_of_le ?_ (Nat.pow_le_pow_right (by decide) hscale)
        rw [show k + 1075 = 1 + (k + finest) by unfold finest; omega, Nat.pow_add, Nat.pow_add]
        exact Nat.mul_lt_mul_of_pos_left
          (Nat.mul_lt_mul_of_pos_right hd (Nat.two_pow_pos finest)) (by decide)
      rw [hbits, ofPattern_add (by omega) hdigit, hvalue,
        rounded_add_of_lt (leadingBit_le_rounded hnormal) hsmall, Nat.min_eq_right (by omega)]

/-! ## Digits that are lost -/

/-- Half way between two numbers of 53 bits, the lower one of which is even: such a number is rounded
down. -/
def HalfwayAboveEven (p : Nat) : Prop :=
  ∃ a t, p = (4 * a + 1) * 2 ^ t ∧ 2 ^ 53 ≤ 4 * a + 1 ∧ 4 * a + 1 < 2 ^ 54

theorem HalfwayAboveEven.le {p : Nat} (h : HalfwayAboveEven p) : 2 ^ 53 ≤ p := by
  obtain ⟨a, t, rfl, hle, -⟩ := h
  exact Nat.le_trans hle (Nat.le_mul_of_pos_right _ (Nat.two_pow_pos t))

theorem two_pow_grid {p : Nat} (h : 53 ≤ p.log2) : 2 ^ grid p = 2 * 2 ^ (grid p - 1) := by
  have hgrid : grid p = grid p - 1 + 1 := by
    unfold grid
    omega
  rw [← Nat.pow_succ', Nat.succ_eq_add_one, ← hgrid]

/-- What is cut is one half, and what is left is even. -/
theorem halfwayAboveEven_iff {p : Nat} (h : 53 ≤ p.log2) :
    HalfwayAboveEven p ↔ p % 2 ^ grid p = 2 ^ (grid p - 1) ∧ p / 2 ^ grid p % 2 = 0 := by
  constructor
  · rintro ⟨a, t, rfl, hle, hlt⟩
    have hlog : (4 * a + 1).log2 = 53 := (Nat.log2_eq_iff (by omega)).2 ⟨hle, hlt⟩
    have hgrid : grid ((4 * a + 1) * 2 ^ t) = t + 1 := by
      unfold grid
      rw [log2_mul_pow (by omega), hlog]
      omega
    rw [hgrid, Nat.pow_succ', Nat.mul_mod_mul_right, Nat.mul_div_mul_right _ _ (Nat.two_pow_pos t),
      Nat.add_sub_cancel, show (4 * a + 1) % 2 = 1 by omega, Nat.one_mul]
    exact ⟨rfl, by omega⟩
  · rintro ⟨hrest, heven⟩
    obtain ⟨hlow, hhigh⟩ := div_grid_bounds (show 52 ≤ p.log2 by omega)
    have hparts := Nat.div_add_mod p (2 ^ grid p)
    rw [hrest, two_pow_grid h] at hparts
    rw [two_pow_grid h] at heven hlow hhigh
    generalize p / (2 * 2 ^ (grid p - 1)) = q at *
    refine ⟨q / 2, grid p - 1, ?_, ?_, ?_⟩
    · rw [show 4 * (q / 2) + 1 = 2 * q + 1 by omega, Nat.succ_mul, Nat.mul_right_comm]
      exact hparts.symm
    · unfold leadingBit at *
      omega
    · unfold leadingBit at *
      omega

theorem log2_mul_pow_add {p t q : Nat} (hp : p ≠ 0) (ht : t < 2 ^ q) :
    (p * 2 ^ q + t).log2 = p.log2 + q := by
  obtain ⟨hle, hlt⟩ := (Nat.log2_eq_iff hp).1 rfl
  have hlow := Nat.mul_le_mul_right (2 ^ q) hle
  have hhigh := Nat.mul_le_mul_right (2 ^ q) (Nat.succ_le_of_lt hlt)
  rw [Nat.succ_mul] at hhigh
  have hpos := Nat.mul_pos (Nat.two_pow_pos p.log2) (Nat.two_pow_pos q)
  refine (Nat.log2_eq_iff (by omega)).2 ⟨?_, ?_⟩
  · rw [Nat.pow_add]
    omega
  · rw [Nat.add_right_comm, Nat.pow_add]
    omega

/-- The length of a number does not depend on its last digits. -/
theorem mul_pow_add_lt_iff {p t q n : Nat} (hp : p ≠ 0) (ht : t < 2 ^ q) :
    p * 2 ^ q + t < 2 ^ n ↔ p.log2 + q < n := by
  have hpos := Nat.mul_pos (Nat.pos_of_ne_zero hp) (Nat.two_pow_pos q)
  rw [← log2_mul_pow_add hp ht]
  exact (Nat.log2_lt (by omega)).symm

theorem rounded_units {v : Nat} (h : 52 ≤ v.log2) :
    rounded (units v) = 1074 * leadingBit + rounded v := rounded_mul_pow h finest

/-- A tie goes to the even side if nothing follows, and up if something does. -/
theorem rounded_mul_pow_add {p q t : Nat} (h : 53 ≤ p.log2) (ht : t < 2 ^ q) :
    rounded (p * 2 ^ q + t) =
      (grid p + q) * leadingBit + if p % 2 ^ grid p = 2 ^ (grid p - 1) ∧ 0 < t then p / 2 ^ grid p + 1
        else divRound p (2 ^ grid p) := by
  have hgrid : grid (p * 2 ^ q + t) = grid p + q := by
    have hlog := log2_mul_pow_add (pos_of_log2 (show 52 ≤ p.log2 by omega)) ht
    unfold grid
    omega
  unfold rounded
  rw [hgrid, Nat.pow_add, two_pow_grid h, divRound_add ht]

/-- The two ways to round a tie differ if the lower number is even and finite. -/
theorem min_tie_eq_iff {e m : Nat} (hlow : leadingBit ≤ m) (hhigh : m < 2 * leadingBit) :
    min infinityBits (e * leadingBit + (m + m % 2)) = min infinityBits (e * leadingBit + (m + 1)) ↔
      ¬ (e < 2046 ∧ m % 2 = 0) := by
  unfold infinityBits leadingBit at *
  omega

/-- **When digits that are lost make a difference.**  Behind a number of 54 bits or more stand the digits
that count for `t`. -/
theorem naturalBits_add_eq_iff {p q t : Nat} (hp : 2 ^ 53 ≤ p) (ht : t < 2 ^ q) :
    naturalBits (p * 2 ^ q) = naturalBits (p * 2 ^ q + t) ↔
      ¬ (p * 2 ^ q + t < 2 ^ 1024 ∧ HalfwayAboveEven p ∧ t ≠ 0) := by
  have hlog : 53 ≤ p.log2 := (Nat.le_log2 (by omega)).2 hp
  have hlength := log2_mul_pow_add (show p ≠ 0 by omega) ht
  have hzeros := log2_mul_pow (show p ≠ 0 by omega) q
  have hgrid := log2_eq_grid (show 52 ≤ p.log2 by omega)
  obtain ⟨hlow, hhigh⟩ := div_grid_bounds (show 52 ≤ p.log2 by omega)
  have hkept : rounded (p * 2 ^ q) = (grid p + q) * leadingBit + divRound p (2 ^ grid p) := by
    have := @rounded_mul_pow_add p q 0 hlog (Nat.two_pow_pos q)
    rwa [if_neg (by omega), Nat.add_zero] at this
  have hsum : ∀ m, 1074 * leadingBit + ((grid p + q) * leadingBit + m) =
      (1074 + (grid p + q)) * leadingBit + m := by
    intro m
    rw [← Nat.add_assoc, ← Nat.add_mul]
  unfold naturalBits
  rw [rounded_units (by omega), rounded_units (by omega), hkept, rounded_mul_pow_add hlog ht, hsum, hsum,
    mul_pow_add_lt_iff (by omega) ht, halfwayAboveEven_iff hlog]
  by_cases htie : p % 2 ^ grid p = 2 ^ (grid p - 1) ∧ 0 < t
  · have htied : divRound p (2 ^ grid p) = p / 2 ^ grid p + p / 2 ^ grid p % 2 := by
      have hhalf := two_pow_grid hlog
      unfold divRound
      simp only [htie.1]
      rw [if_neg (by omega), if_neg (by omega)]
    rw [if_pos htie, htied, min_tie_eq_iff hlow hhigh]
    omega
  · rw [if_neg htie]
    simp only [true_iff]
    omega

end StackScript.Binary64
