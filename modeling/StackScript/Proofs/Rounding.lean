import Mathlib.Algebra.Group.Nat.Defs
import StackScript.Number.Binary64

/-!
# Rounding whole units

`nearest` on a whole number of units of the finest grid, that is, rounding to 53 significant bits.

* `grid`, `rounded` — how many low bits are cut, and the bit pattern if it is not too large
  (`nearest_one`).
* `significand`, `scale` — the two parts of a bit pattern: what it stands for is the significand times a
  power of two (`magnitude_eq`).
* `rounded_mul_pow` — doubling adds one to the exponent and changes nothing else.
* `magnitude_rounded` — what a rounded number stands for.
* `rounded_add_of_lt` — a bit pattern absorbs anything below half a unit of its last bit.
* `divRound_add` — rounding with digits to come: they count for the tie only.
-/

set_option autoImplicit false

namespace StackScript.Binary64

/-! ## Dividing -/

theorem divRound_cases (n d : Nat) : divRound n d = n / d ∨ divRound n d = n / d + 1 := by
  unfold divRound
  dsimp only
  split
  · omega
  · split <;> omega

theorem divRound_mul_right {c : Nat} (hc : 0 < c) (n d : Nat) :
    divRound (n * c) (d * c) = divRound n d := by
  have hlt : 2 * (n % d * c) < d * c ↔ 2 * (n % d) < d := by
    rw [← Nat.mul_assoc]
    exact Nat.mul_lt_mul_right hc
  have hgt : d * c < 2 * (n % d * c) ↔ d < 2 * (n % d) := by
    rw [← Nat.mul_assoc]
    exact Nat.mul_lt_mul_right hc
  unfold divRound
  simp only [Nat.mul_div_mul_right n d hc, Nat.mul_mod_mul_right, hlt, hgt]

/-- Less than half of the divisor is dropped. -/
theorem divRound_add_of_lt {d δ : Nat} (h : 2 * δ < d) (m : Nat) : divRound (m * d + δ) d = m := by
  have hquotient : (m * d + δ) / d = m := by
    rw [Nat.mul_comm, Nat.mul_add_div (by omega), Nat.div_eq_of_lt (by omega), Nat.add_zero]
  have hremainder : (m * d + δ) % d = δ := by
    rw [Nat.mul_comm, Nat.mul_add_mod, Nat.mod_eq_of_lt (by omega)]
  unfold divRound
  simp only [hquotient, hremainder, if_pos h]

/-- **Dividing with digits to come.**  Of the digits behind `n`, which count for `t` out of `r`, nothing
matters but whether they are all zero, and that only if `n` alone is a tie. -/
theorem divRound_add {r t : Nat} (ht : t < r) (n half : Nat) :
    divRound (n * r + t) (2 * half * r) =
      if n % (2 * half) = half ∧ 0 < t then n / (2 * half) + 1 else divRound n (2 * half) := by
  have hwhole : (n * r + t) / r = n := by
    rw [Nat.mul_comm, Nat.mul_add_div (by omega), Nat.div_eq_of_lt ht, Nat.add_zero]
  have hquotient : (n * r + t) / (2 * half * r) = n / (2 * half) := by
    rw [Nat.mul_comm (2 * half), ← Nat.div_div_eq_div_mul, hwhole]
  have hremainder : (n * r + t) % (2 * half * r) = n % (2 * half) * r + t := by
    rw [Nat.mul_comm (2 * half), Nat.mod_mul, hwhole, Nat.mul_comm n, Nat.mul_add_mod,
      Nat.mod_eq_of_lt ht, Nat.mul_comm r, Nat.add_comm]
  generalize hrest : n % (2 * half) = rest at *
  unfold divRound
  simp only [hquotient, hremainder, hrest]
  have hle : ∀ {a b : Nat}, a < b → a * r + r ≤ b * r := by
    intro a b h
    rw [← Nat.succ_mul]
    exact Nat.mul_le_mul_right r h
  rw [Nat.mul_assoc 2 half r]
  rcases Nat.lt_trichotomy rest half with hlt | rfl | hgt
  · have := hle hlt
    rw [if_pos (by omega), if_neg (by omega), if_pos (by omega)]
  · by_cases hpos : 0 < t
    · rw [if_neg (by omega), if_pos (by omega), if_pos ⟨rfl, hpos⟩]
    · rw [if_neg (by omega), if_neg (by omega), if_neg (by omega), if_neg (by omega),
        if_neg (by omega)]
  · have := hle hgt
    rw [if_neg (by omega), if_pos (by omega), if_neg (by omega), if_neg (by omega),
      if_pos (by omega)]

/-! ## The parts of a bit pattern -/

/-- The significand of a bit pattern without a sign, the leading bit included. -/
def significand (bits : Nat) : Nat :=
  if bits < 2 * leadingBit then bits else leadingBit + bits % leadingBit

/-- The exponent of a bit pattern without a sign, counted from that of the finest grid. -/
def scale (bits : Nat) : Nat := bits / leadingBit - 1

theorem magnitude_eq (bits : Nat) : magnitude bits = significand bits * 2 ^ scale bits := by
  unfold magnitude significand scale
  split
  · rename_i h
    have hzero : bits / leadingBit - 1 = 0 := by
      unfold leadingBit at h ⊢
      omega
    rw [hzero, Nat.pow_zero, Nat.mul_one]
  · rfl

theorem scale_mul_add (bits : Nat) : scale bits * leadingBit + significand bits = bits := by
  unfold scale significand leadingBit
  split <;> omega

theorem significand_lt (bits : Nat) : significand bits < 2 * leadingBit := by
  unfold significand leadingBit
  split <;> omega

theorem le_significand {bits : Nat} (h : leadingBit ≤ bits) : leadingBit ≤ significand bits := by
  unfold significand
  split <;> omega

theorem significand_pos {bits : Nat} (h : 0 < bits) : 0 < significand bits := by
  unfold significand leadingBit
  split <;> omega

theorem scale_eq_zero {bits : Nat} (h : bits < leadingBit) : scale bits = 0 := by
  unfold leadingBit at h
  unfold scale leadingBit
  omega

/-- A significand and a scale make a bit pattern, also where the significand has run over. -/
theorem magnitude_of_parts {m : Nat} (hle : leadingBit ≤ m) (hge : m ≤ 2 * leadingBit) (g : Nat) :
    magnitude (g * leadingBit + m) = m * 2 ^ g ∧ g ≤ scale (g * leadingBit + m) := by
  rw [magnitude_eq]
  by_cases hfull : m = 2 * leadingBit
  · subst hfull
    have hsignificand : significand (g * leadingBit + 2 * leadingBit) = leadingBit := by
      unfold significand leadingBit
      split <;> omega
    have hscale : scale (g * leadingBit + 2 * leadingBit) = g + 1 := by
      unfold scale leadingBit
      omega
    rw [hsignificand, hscale, Nat.pow_succ]
    exact ⟨by rw [Nat.mul_comm (2 ^ g), ← Nat.mul_assoc, Nat.mul_comm leadingBit], Nat.le_succ g⟩
  · unfold leadingBit at hle hge hfull
    have hsignificand : significand (g * leadingBit + m) = m := by
      unfold significand leadingBit
      split <;> omega
    have hscale : scale (g * leadingBit + m) = g := by
      unfold scale leadingBit
      omega
    rw [hsignificand, hscale]
    exact ⟨rfl, Nat.le_refl g⟩

/-! ## Rounding -/

/-- How many low bits of a number of units are cut. -/
def grid (u : Nat) : Nat := u.log2 - 52

/-- The bit pattern of a number of units, as if exponents had no end. -/
def rounded (u : Nat) : Nat := grid u * leadingBit + divRound u (2 ^ grid u)

theorem nearest_one (u : Nat) : nearest u 1 = min infinityBits (rounded u) := by
  unfold nearest rounded grid
  simp only [Nat.div_one, Nat.one_mul, Nat.pow_eq]

theorem log2_mul_pow {u : Nat} (h : u ≠ 0) (k : Nat) : (u * 2 ^ k).log2 = u.log2 + k := by
  induction k with
  | zero => simp
  | succ k ih =>
    have hne : u * 2 ^ k ≠ 0 := Nat.mul_ne_zero h (Nat.ne_of_gt (Nat.two_pow_pos k))
    rw [Nat.pow_succ, ← Nat.mul_assoc, Nat.mul_comm _ 2, Nat.log2_two_mul hne, ih]
    omega

/-- Of 53 bits or less none is cut. -/
theorem grid_eq_zero {u : Nat} (h : u < 2 * leadingBit) : grid u = 0 := by
  unfold grid
  by_cases hu : u = 0
  · rw [hu]
    decide
  · have := (Nat.log2_lt (k := 53) hu).2 h
    omega

/-- A number of 53 bits or less is its own bit pattern. -/
theorem rounded_of_lt {u : Nat} (h : u < 2 * leadingBit) : rounded u = u := by
  unfold rounded
  rw [grid_eq_zero h]
  unfold divRound
  simp [Nat.mod_one]

section Normal

variable {u : Nat}

theorem pos_of_log2 (h : 52 ≤ u.log2) : u ≠ 0 := by
  rintro rfl
  rw [Nat.log2_zero] at h
  omega

theorem log2_eq_grid (h : 52 ≤ u.log2) : u.log2 = 52 + grid u := by
  unfold grid
  omega

/-- Cut to 53 bits, a number has 53. -/
theorem div_grid_bounds (h : 52 ≤ u.log2) :
    leadingBit ≤ u / 2 ^ grid u ∧ u / 2 ^ grid u < 2 * leadingBit := by
  have hpos := Nat.two_pow_pos (grid u)
  obtain ⟨hle, hlt⟩ := (Nat.log2_eq_iff (pos_of_log2 h)).1 (log2_eq_grid h)
  constructor
  · rw [Nat.le_div_iff_mul_le hpos]
    rwa [Nat.pow_add] at hle
  · rw [Nat.div_lt_iff_lt_mul hpos]
    rwa [Nat.add_right_comm, Nat.pow_add] at hlt

/-- Rounded to 53 bits, a number has 53, or one more if they were all ones. -/
theorem divRound_bounds (h : 52 ≤ u.log2) :
    leadingBit ≤ divRound u (2 ^ grid u) ∧ divRound u (2 ^ grid u) ≤ 2 * leadingBit := by
  obtain ⟨hlow, hhigh⟩ := div_grid_bounds h
  rcases divRound_cases u (2 ^ grid u) with he | he <;> omega

theorem leadingBit_le_rounded (h : 52 ≤ u.log2) : leadingBit ≤ rounded u :=
  Nat.le_trans (divRound_bounds h).1 (Nat.le_add_left _ _)

/-- **Doubling moves the exponent only.** -/
theorem rounded_mul_pow (h : 52 ≤ u.log2) (k : Nat) :
    rounded (u * 2 ^ k) = k * leadingBit + rounded u := by
  have hgrid : grid (u * 2 ^ k) = grid u + k := by
    unfold grid
    rw [log2_mul_pow (pos_of_log2 h)]
    omega
  unfold rounded
  rw [hgrid, Nat.pow_add, divRound_mul_right (Nat.two_pow_pos k), Nat.add_mul]
  omega

/-- **What a rounded number stands for.** -/
theorem magnitude_rounded (h : 52 ≤ u.log2) :
    magnitude (rounded u) = divRound u (2 ^ grid u) * 2 ^ grid u ∧ grid u ≤ scale (rounded u) :=
  magnitude_of_parts (divRound_bounds h).1 (divRound_bounds h).2 (grid u)

/-- A number that is cut where its low bits are zero stands for itself. -/
theorem magnitude_rounded_of_dvd (h : 52 ≤ u.log2) (hd : 2 ^ grid u ∣ u) :
    magnitude (rounded u) = u := by
  obtain ⟨m, hm⟩ := hd
  have hround : divRound u (2 ^ grid u) = m := by
    have := @divRound_add_of_lt (2 ^ grid u) 0 (Nat.two_pow_pos _) m
    rwa [Nat.add_zero, Nat.mul_comm, ← hm] at this
  rw [(magnitude_rounded h).1, hround, Nat.mul_comm, ← hm]

end Normal

/-- Up to the next bit pattern the length stays the same. -/
theorem log2_magnitude_add {bits δ : Nat} (h : leadingBit ≤ bits) (hδ : δ < 2 ^ scale bits) :
    (magnitude bits + δ).log2 = 52 + scale bits := by
  have hlow := Nat.mul_le_mul_right (2 ^ scale bits) (le_significand h)
  have hhigh := Nat.mul_le_mul_right (2 ^ scale bits) (Nat.succ_le_of_lt (significand_lt bits))
  rw [Nat.succ_mul] at hhigh
  rw [magnitude_eq]
  refine (Nat.log2_eq_iff ?_).2 ⟨?_, ?_⟩
  · have := Nat.mul_pos (show 0 < leadingBit by decide) (Nat.two_pow_pos (scale bits))
    omega
  · rw [Nat.pow_add]
    exact Nat.le_trans hlow (Nat.le_add_right _ _)
  · rw [Nat.add_right_comm, Nat.pow_add]
    exact Nat.lt_of_lt_of_le (Nat.add_lt_add_left hδ _) hhigh

/-- **A bit pattern absorbs what is less than half of its last bit.** -/
theorem rounded_add_of_lt {bits δ : Nat} (h : leadingBit ≤ bits) (hδ : 2 * δ < 2 ^ scale bits) :
    rounded (magnitude bits + δ) = bits := by
  have hgrid : grid (magnitude bits + δ) = scale bits := by
    unfold grid
    rw [log2_magnitude_add h (by omega)]
    omega
  unfold rounded
  rw [hgrid, magnitude_eq, divRound_add_of_lt hδ, scale_mul_add]

/-- A bit pattern is that of what it stands for. -/
theorem rounded_magnitude (bits : Nat) : rounded (magnitude bits) = bits := by
  by_cases h : bits < leadingBit
  · have he : magnitude bits = bits := by
      unfold magnitude
      rw [if_pos (by omega)]
    rw [he, rounded_of_lt (by omega)]
  · exact @rounded_add_of_lt bits 0 (by omega) (Nat.two_pow_pos _)

end StackScript.Binary64
