import StackScript.Proofs.Rounding

/-!
# Sums and products of numbers without a sign

Sums and products of binary64 numbers are what `nearest` gives for the exact results.  Numbers are
unpacked, operated on exactly, rounded and packed again; each of these is put in terms of bit patterns.

* `roundedMantissa_shiftRight` — shifting bits out and rounding by the two bits that are kept of them is
  division to the nearest.
* `pack_round`, `pack_roundWithAccuracy` — rounding and packing give `rounded`.
* `unpack_ofNat`, `pack_unpacked` — unpacking gives significand and scale, and packing inverts it.
* Principal results: `ofPattern_add`, `ofPattern_mul`.
-/

set_option autoImplicit false

namespace StackScript.Binary64

open Float.Model Float.Model.UnpackedFloat

/-! ## Shifting -/

/-- A mantissa of which nothing has been shifted out yet. -/
abbrev whole (m : Nat) : ExtendedMantissa := ⟨m, false, false⟩

theorem shiftRight_succ (em : ExtendedMantissa) (s : Nat) :
    em >>> (s + 1) = (em >>> s).shiftRightOne := rfl

/-- The two bits tell how what has been shifted out compares to zero and to one half. -/
theorem whole_shiftRight (m s : Nat) :
    (whole m >>> s).mantissa = m / 2 ^ s ∧
    ((whole m >>> s).roundBit = true ↔ 2 ^ s ≤ 2 * (m % 2 ^ s)) ∧
    ((whole m >>> s).stickyBit = true ↔ m % 2 ^ s ≠ 0 ∧ 2 * (m % 2 ^ s) ≠ 2 ^ s) := by
  induction s with
  | zero =>
    refine ⟨(Nat.div_one m).symm, ?_, ?_⟩
    · simp [Nat.mod_one]
      rfl
    · simp [Nat.mod_one]
      rfl
  | succ s ih =>
    obtain ⟨hmantissa, hround, hsticky⟩ := ih
    have hlt := Nat.mod_lt m (Nat.two_pow_pos s)
    have hrest : m % 2 ^ (s + 1) = m % 2 ^ s + 2 ^ s * (m / 2 ^ s % 2) := by
      rw [Nat.pow_succ, Nat.mod_mul]
    rw [shiftRight_succ, hrest, Nat.pow_succ]
    generalize 2 ^ s = p at *
    simp only [ExtendedMantissa.shiftRightOne, hmantissa, Bool.or_eq_true, hround, hsticky,
      bne_iff_ne, Nat.div_div_eq_div_mul, true_and]
    rcases Nat.mod_two_eq_zero_or_one (m / p) with hbit | hbit
    · rw [hbit, Nat.mul_zero]
      omega
    · rw [hbit, Nat.mul_one]
      omega

/-- **Shifting and rounding is division to the nearest.** -/
theorem roundedMantissa_shiftRight (m s : Nat) :
    (whole m >>> s).roundedMantissa = divRound m (2 ^ s) := by
  obtain ⟨hmantissa, hround, hsticky⟩ := whole_shiftRight m s
  have hlt := Nat.mod_lt m (Nat.two_pow_pos s)
  generalize whole m >>> s = em at *
  obtain ⟨mantissa, roundBit, stickyBit⟩ := em
  simp only at hmantissa hround hsticky
  subst hmantissa
  unfold divRound ExtendedMantissa.roundedMantissa
  cases roundBit with
  | false =>
    have hlow : 2 * (m % 2 ^ s) < 2 ^ s := by simpa using hround
    simp only [if_pos hlow]
    cases stickyBit <;> rfl
  | true =>
    have hhigh : 2 ^ s ≤ 2 * (m % 2 ^ s) := by simpa using hround
    have hpos := Nat.two_pow_pos s
    cases stickyBit with
    | false =>
      have htie : 2 * (m % 2 ^ s) = 2 ^ s := by
        simp only [Bool.false_eq_true, false_iff] at hsticky
        omega
      simp only [htie, Nat.lt_irrefl, if_false]
      rfl
    | true =>
      have habove : 2 ^ s < 2 * (m % 2 ^ s) := by
        have := hsticky.1 rfl
        omega
      simp only [if_neg (Nat.not_lt_of_le hhigh), if_pos habove]
      rfl

/-! ## Packing -/

/-- The fields of a bit pattern without a sign. -/
theorem packComponents_ofNat {e f : Nat} (he : e < 2048) (hf : f < leadingBit) :
    packComponents Format.binary64 .positive (BitVec.ofNat 11 e) (BitVec.ofNat 52 f) =
      BitVec.ofNat 64 (e * leadingBit + f) := by
  have hsign : (Sign.positive.toBitVec ++ BitVec.ofNat 11 e).toNat = e := by
    have hzero : Sign.positive.toBitVec.toNat = 0 := rfl
    rw [BitVec.toNat_append, hzero, Nat.zero_shiftLeft, Nat.zero_or, BitVec.toNat_ofNat,
      Nat.mod_eq_of_lt he]
  have hfraction : (BitVec.ofNat 52 f).toNat = f := by
    rw [BitVec.toNat_ofNat, Nat.mod_eq_of_lt hf]
  have hbits : (BitVec.ofNat 64 (e * leadingBit + f)).toNat = e * leadingBit + f := by
    rw [BitVec.toNat_ofNat, Nat.mod_eq_of_lt]
    unfold leadingBit at hf ⊢
    omega
  apply BitVec.eq_of_toNat_eq
  unfold packComponents
  rw [BitVec.toNat_append, hsign, hfraction, ← Nat.shiftLeft_add_eq_or_of_lt hf, Nat.shiftLeft_eq]
  exact hbits.symm

theorem packedInfinity_eq :
    packedInfinity Format.binary64 .positive = BitVec.ofNat 64 infinityBits := rfl

/-- A significand in its place is packed to the bit pattern with that scale. -/
theorem pack_finite {m g : Nat} (hpos : 0 < m) (hm : m < 2 * leadingBit)
    (hg : leadingBit ≤ m ∨ g = 0) :
    UnpackedFloat.pack Format.binary64 (.finite .positive m (g - 1074) hpos) =
      BitVec.ofNat 64 (min infinityBits (g * leadingBit + m)) := by
  have hbiased : ((g : Int) - 1074 + Format.binary64.exponentBias +
      Format.binary64.mantissaBitsWithoutImplicit).toNat = g + 1 := by
    show ((g : Int) - 1074 + 1023 + 52).toNat = g + 1
    omega
  have hwidth : Format.binary64.mantissaBits = 53 := rfl
  unfold UnpackedFloat.pack
  simp only [hbiased, hwidth]
  by_cases hlarge : 2046 ≤ g
  · have hmin : min infinityBits (g * leadingBit + m) = infinityBits := by
      unfold infinityBits leadingBit at *
      omega
    rw [if_pos (show 2 ^ 11 ≤ g + 1 + 1 by omega), hmin]
    exact packedInfinity_eq
  · rw [if_neg (show ¬ 2 ^ 11 ≤ g + 1 + 1 by omega)]
    by_cases hnormal : leadingBit ≤ m
    · have hlog : m.log2 = 52 := (Nat.log2_eq_iff (by omega)).2 ⟨hnormal, hm⟩
      have hfraction : BitVec.ofNat 52 m = BitVec.ofNat 52 (m - leadingBit) := by
        apply BitVec.eq_of_toNat_eq
        rw [BitVec.toNat_ofNat, BitVec.toNat_ofNat]
        unfold leadingBit at *
        omega
      have hbits : min infinityBits (g * leadingBit + m) = (g + 1) * leadingBit + (m - leadingBit) := by
        unfold infinityBits leadingBit at *
        omega
      rw [if_pos (by omega), hfraction, hbits]
      exact packComponents_ofNat (by omega) (by omega)
    · obtain rfl : g = 0 := hg.resolve_left hnormal
      have hlog : m.log2 < 52 := (Nat.log2_lt (by omega)).2 (Nat.lt_of_not_le hnormal)
      have hbits : min infinityBits (0 * leadingBit + m) = 0 * leadingBit + m := by
        unfold infinityBits leadingBit at *
        omega
      rw [if_neg (by omega), hbits]
      exact packComponents_ofNat (by omega) (Nat.lt_of_not_le hnormal)

theorem targetExponent_eq (m j : Nat) :
    Format.binary64.targetExponent (totalExponent m (j - 1074)) =
      ((m.log2 + j - 52 : Nat) : Int) - 1074 := by
  have hmin : Format.binary64.minExponent = -1074 := rfl
  have hbits : Format.binary64.mantissaBits = 53 := rfl
  unfold Format.targetExponent totalExponent
  rw [hmin, hbits]
  omega

/-- Whatever the exponent, as many low bits are cut as there are beyond 53. -/
theorem shiftToTargetExponent_eq (m j : Nat) :
    shiftToTargetExponent Format.binary64 m (j - 1074) .exact =
      (whole m >>> grid m, ((j + grid m : Nat) : Int) - 1074) := by
  have hshift : (((m.log2 + j - 52 : Nat) : Int) - 1074 - (j - 1074)).toNat = grid m := by
    unfold grid
    omega
  unfold shiftToTargetExponent shiftToExponent
  rw [targetExponent_eq]
  simp only [hshift, ExtendedMantissa.ofMantissaAndAccuracy, Prod.mk.injEq, true_and]
  omega

/-- Rounding may carry into a 54th bit.  The rounded mantissa then is a power of two, and cutting off
that bit raises the scale and loses nothing. -/
theorem divRound_grid_cases {m j : Nat} (hpos : 0 < m) (h : 52 ≤ m.log2 ∨ j = 0) :
    ∃ m' g', 0 < m' ∧ m' < 2 * leadingBit ∧ (leadingBit ≤ m' ∨ j + grid m + g' = 0) ∧
      divRound m (2 ^ grid m) = m' * 2 ^ g' ∧ grid (m' * 2 ^ g') = g' ∧
      (j + grid m + g') * leadingBit + m' = rounded (m * 2 ^ j) := by
  by_cases hlog : 52 ≤ m.log2
  · obtain ⟨hlow, hhigh⟩ := divRound_bounds hlog
    have hbits : rounded (m * 2 ^ j) = (j + grid m) * leadingBit + divRound m (2 ^ grid m) := by
      rw [rounded_mul_pow hlog, rounded, Nat.add_mul, Nat.add_assoc]
    rw [hbits]
    generalize divRound m (2 ^ grid m) = q at *
    by_cases hfull : q = 2 * leadingBit
    · refine ⟨leadingBit, 1, by decide, by decide, Or.inl (Nat.le_refl _), ?_, by decide, ?_⟩
      · omega
      · rw [hfull, Nat.succ_mul]
        omega
    · refine ⟨q, 0, ?_, by omega, Or.inl hlow, (Nat.mul_one q).symm, ?_, rfl⟩
      · exact Nat.lt_of_lt_of_le (by decide) hlow
      · rw [Nat.pow_zero, Nat.mul_one]
        exact grid_eq_zero (by omega)
  · obtain rfl : j = 0 := h.resolve_left hlog
    have hlt : m < leadingBit := (Nat.log2_lt (by omega)).1 (Nat.lt_of_not_le hlog)
    have hgrid : grid m = 0 := grid_eq_zero (by omega)
    have hround := rounded_of_lt (show m < 2 * leadingBit by omega)
    refine ⟨m, 0, hpos, by omega, Or.inr (by omega), ?_, ?_, ?_⟩
    · unfold rounded at hround
      rw [hgrid] at hround ⊢
      omega
    · rw [Nat.pow_zero, Nat.mul_one, hgrid]
    · rw [Nat.pow_zero, Nat.mul_one, hround, hgrid]
      omega

/-- **Rounding an exact result**, where its exponent needs not be lowered. -/
theorem pack_roundWithAccuracy {m j : Nat} (hpos : 0 < m) (h : 52 ≤ m.log2 ∨ j = 0) :
    UnpackedFloat.pack Format.binary64
        (roundWithAccuracy Format.binary64 .positive m (j - 1074) .exact) =
      BitVec.ofNat 64 (min infinityBits (rounded (m * 2 ^ j))) := by
  obtain ⟨m', g', hpos', hlt, hplace, hround, hgrid, hbits⟩ := divRound_grid_cases hpos h
  have hfinal : (whole (m' * 2 ^ g') >>> g').mantissa = m' := by
    rw [(whole_shiftRight _ _).1, Nat.mul_div_cancel _ (Nat.two_pow_pos g')]
  unfold roundWithAccuracy
  -- the first shift is rounded, and the second cuts off what was carried
  rw [shiftToTargetExponent_eq]
  dsimp only
  rw [roundedMantissa_shiftRight, hround, shiftToTargetExponent_eq, hgrid]
  dsimp only
  rw [hfinal, dif_neg (Nat.ne_of_gt hpos'), pack_finite hpos' hlt hplace, hbits]

/-- **Rounding an exact result.** -/
theorem pack_round {m j : Nat} (hpos : 0 < m) :
    UnpackedFloat.pack Format.binary64 (UnpackedFloat.round Format.binary64 .positive m (j - 1074)) =
      BitVec.ofNat 64 (min infinityBits (rounded (m * 2 ^ j))) := by
  -- the exponent is lowered as far as there is room in the significand, but not below the finest
  have hlower : ∃ t, t ≤ j ∧ (((j : Int) - 1074) - (((m.log2 + j - 52 : Nat) : Int) - 1074)).toNat = t ∧
      (52 ≤ m.log2 + t ∨ j - t = 0) :=
    ⟨j - (m.log2 + j - 52), by omega, by omega, by omega⟩
  obtain ⟨t, hle, hshift, hplace⟩ := hlower
  have hexponent : (j : Int) - 1074 - t = ((j - t : Nat) : Int) - 1074 := by omega
  have hlog := log2_mul_pow (Nat.ne_of_gt hpos) t
  have hpos' : 0 < m * 2 ^ t := Nat.mul_pos hpos (Nat.two_pow_pos t)
  unfold UnpackedFloat.round decreaseExponent
  simp only [targetExponent_eq, hshift, Nat.shiftLeft_eq, hexponent]
  rw [pack_roundWithAccuracy hpos' (by rwa [hlog]), Nat.mul_assoc, ← Nat.pow_add,
    Nat.add_sub_cancel' hle]

/-! ## Unpacking -/

/-- What a bit pattern without a sign unpacks to. -/
def unpacked (bits : Nat) : UnpackedFloat :=
  if h : bits = 0 then .zero .positive
  else if bits < infinityBits then
    .finite .positive (significand bits) (scale bits - 1074) (significand_pos (Nat.pos_of_ne_zero h))
  else .infinity .positive

theorem unpacked_finite {bits : Nat} (hpos : 0 < bits) (h : bits < infinityBits) :
    unpacked bits =
      .finite .positive (significand bits) (scale bits - 1074) (significand_pos hpos) := by
  unfold unpacked
  rw [dif_neg (Nat.ne_of_gt hpos), if_pos h]

theorem unpackSign_packComponents (e : BitVec 11) (f : BitVec 52) :
    unpackSign (packComponents Format.binary64 .positive e f) = 0#1 := by
  show (Sign.positive.toBitVec ++ e ++ f).extractLsb' 63 1 = 0#1
  rw [BitVec.extractLsb'_append_eq_of_le (by decide), BitVec.extractLsb'_append_eq_of_le (by decide)]
  rfl

section Fields

variable {b : BitVec 64} {e : BitVec 11} {f : BitVec 52}
  (hsign : @unpackSign Format.binary64 b = 0#1) (hexponent : @unpackExponent Format.binary64 b = e)
  (hfraction : @unpackMantissa Format.binary64 b = f)

include hsign hexponent hfraction

theorem unpack_subnormal (he : e = 0#11) (hpos : 0 < f.toNat) :
    UnpackedFloat.unpack Format.binary64 b = .finite .positive f.toNat (-1074) hpos := by
  subst hfraction
  rw [he] at hexponent
  have hnonzero : @unpackMantissa Format.binary64 b ≠ 0#52 := by
    intro hzero
    rw [hzero] at hpos
    exact Nat.lt_irrefl 0 hpos
  unfold UnpackedFloat.unpack
  dsimp only
  rw [if_neg (by rw [hexponent]; decide), if_pos hexponent, dif_neg hnonzero, hsign, hexponent]
  rfl

/-- The leading bit of a number that is not subnormal is not written. -/
theorem unpack_normal (he : e ≠ 0#11) (hfinite : e ≠ -1#11) :
    UnpackedFloat.unpack Format.binary64 b =
      .finite .positive (leadingBit + f.toNat) (e.toNat - 1075) (Nat.add_pos_left (by decide) _) := by
  have happend : (1#1 ++ f).toNat = leadingBit + f.toNat := by
    rw [BitVec.toNat_append, ← Nat.shiftLeft_add_eq_or_of_lt f.isLt]
    rfl
  subst hexponent hfraction
  unfold UnpackedFloat.unpack
  dsimp only
  rw [if_neg hfinite, if_neg he, hsign, UnpackedFloat.finite.injEq]
  exact ⟨rfl, happend, rfl⟩

end Fields

theorem unpack_ofNat {bits : Nat} (h : bits ≤ infinityBits) :
    UnpackedFloat.unpack Format.binary64 (BitVec.ofNat 64 bits) = unpacked bits := by
  by_cases hzero : bits = 0
  · rw [hzero]
    rfl
  by_cases hinfinite : bits = infinityBits
  · rw [hinfinite]
    rfl
  have hlt : bits / leadingBit < 2047 := by
    unfold infinityBits at h hinfinite
    unfold leadingBit
    omega
  have hmod : bits % leadingBit < leadingBit := Nat.mod_lt _ (by decide)
  have hparts : BitVec.ofNat 64 bits = packComponents Format.binary64 .positive
      (BitVec.ofNat 11 (bits / leadingBit)) (BitVec.ofNat 52 (bits % leadingBit)) := by
    rw [packComponents_ofNat (by omega) hmod, Nat.div_add_mod']
  have hsign : @unpackSign Format.binary64 (BitVec.ofNat 64 bits) = 0#1 := by
    rw [hparts, unpackSign_packComponents]
  have hexponent : @unpackExponent Format.binary64 (BitVec.ofNat 64 bits) =
      BitVec.ofNat 11 (bits / leadingBit) := by
    rw [hparts, unpackExponent_packComponents]
  have hfraction : @unpackMantissa Format.binary64 (BitVec.ofNat 64 bits) =
      BitVec.ofNat 52 (bits % leadingBit) := by
    rw [hparts, unpackMantissa_packComponents]
  have he : (BitVec.ofNat 11 (bits / leadingBit)).toNat = bits / leadingBit := by
    rw [BitVec.toNat_ofNat, Nat.mod_eq_of_lt (by omega)]
  have hf : (BitVec.ofNat 52 (bits % leadingBit)).toNat = bits % leadingBit := by
    rw [BitVec.toNat_ofNat, Nat.mod_eq_of_lt hmod]
  rw [unpacked_finite (Nat.pos_of_ne_zero hzero) (by omega)]
  by_cases hsubnormal : bits / leadingBit = 0
  · have hbits : bits % leadingBit = bits := by
      have := Nat.div_add_mod bits leadingBit
      rw [hsubnormal] at this
      omega
    rw [unpack_subnormal hsign hexponent hfraction (by rw [hsubnormal]) (by omega),
      UnpackedFloat.finite.injEq, hf, hbits]
    refine ⟨rfl, ?_, ?_⟩
    · unfold significand leadingBit at *
      split <;> omega
    · unfold scale
      omega
  · have hnormal : BitVec.ofNat 11 (bits / leadingBit) ≠ 0#11 := by
      intro hall
      rw [hall] at he
      exact hsubnormal he.symm
    have hfinite : BitVec.ofNat 11 (bits / leadingBit) ≠ -1#11 := by
      intro hall
      rw [hall] at he
      have : (-1#11).toNat = 2047 := rfl
      omega
    rw [unpack_normal hsign hexponent hfraction hnormal hfinite, UnpackedFloat.finite.injEq, hf, he]
    refine ⟨rfl, ?_, ?_⟩
    · unfold significand leadingBit at *
      split <;> omega
    · unfold scale
      omega

/-- Packing inverts unpacking. -/
theorem pack_unpacked {bits : Nat} (h : bits ≤ infinityBits) :
    UnpackedFloat.pack Format.binary64 (unpacked bits) = BitVec.ofNat 64 bits := by
  rcases Nat.eq_zero_or_pos bits with rfl | hpos
  · rfl
  rcases Nat.lt_or_eq_of_le h with hlt | rfl
  · have hplace : leadingBit ≤ significand bits ∨ scale bits = 0 := by
      by_cases hnormal : leadingBit ≤ bits
      · exact Or.inl (le_significand hnormal)
      · exact Or.inr (scale_eq_zero (Nat.lt_of_not_le hnormal))
    rw [unpacked_finite hpos hlt, pack_finite _ (significand_lt bits) hplace, scale_mul_add,
      Nat.min_eq_right h]
  · exact packedInfinity_eq

/-! ## Arithmetic -/

/-- The number with a bit pattern. -/
def ofPattern (bits : Nat) : Float := Float.ofBits (UInt64.ofNat bits)

theorem ofPattern_of_pack {f : UnpackedFloat} {bits : Nat} (h : bits ≤ infinityBits)
    (hf : UnpackedFloat.pack Format.binary64 f = BitVec.ofNat 64 bits) :
    Float.ofModel (Float.Model.pack f) = ofPattern bits := by
  have hbits : UnpackedFloat.pack Format.binary64
      (UnpackedFloat.unpack Format.binary64 (UInt64.ofNat bits).toBitVec) = BitVec.ofNat 64 bits := by
    rw [show (UInt64.ofNat bits).toBitVec = BitVec.ofNat 64 bits from rfl, unpack_ofNat h,
      pack_unpacked h]
  unfold ofPattern Float.ofBits Float.Model.ofBits
  unfold Float.Model.pack
  congr 2
  rw [hf, hbits]

theorem unpack_ofPattern {bits : Nat} (h : bits ≤ infinityBits) :
    (ofPattern bits).toModel.unpack = unpacked bits := by
  rw [← ofPattern_of_pack h (pack_unpacked h)]
  show UnpackedFloat.unpack Format.binary64 (UnpackedFloat.pack Format.binary64 (unpacked bits)) = _
  rw [pack_unpacked h, unpack_ofNat h]

/-- Different bit patterns are different numbers. -/
theorem ofPattern_inj {bits other : Nat} (h : bits ≤ infinityBits) (h' : other ≤ infinityBits) :
    ofPattern bits = ofPattern other ↔ bits = other := by
  refine ⟨fun he => ?_, fun he => by rw [he]⟩
  have hunpacked := congrArg (fun x : Float => UnpackedFloat.pack Format.binary64 x.toModel.unpack) he
  simp only [unpack_ofPattern h, unpack_ofPattern h', pack_unpacked h, pack_unpacked h'] at hunpacked
  have hbits : bits % 2 ^ 64 = other % 2 ^ 64 := congrArg BitVec.toNat hunpacked
  unfold infinityBits at h h'
  omega

/-- The sum of two finite numbers is exact before it is rounded. -/
theorem add_finite {m g m' g' : Nat} (hpos : 0 < m) (hpos' : 0 < m') :
    UnpackedFloat.add Format.binary64 (.finite .positive m (g - 1074) hpos)
        (.finite .positive m' (g' - 1074) hpos') =
      UnpackedFloat.round Format.binary64 .positive (m * 2 ^ (g - min g g') + m' * 2 ^ (g' - min g g'))
        ((min g g' : Nat) - 1074) := by
  have hmin : min ((g : Int) - 1074) (g' - 1074) = (min g g' : Nat) - 1074 := by omega
  have hshift : ((g : Int) - 1074 - ((min g g' : Nat) - 1074)).toNat = g - min g g' := by omega
  have hshift' : ((g' : Int) - 1074 - ((min g g' : Nat) - 1074)).toNat = g' - min g g' := by omega
  have hsum : 0 < m * 2 ^ (g - min g g') := Nat.mul_pos hpos (Nat.two_pow_pos _)
  unfold UnpackedFloat.add decreaseExponent
  simp only [hmin, hshift, hshift', Nat.shiftLeft_eq]
  generalize m * 2 ^ (g - min g g') = x at *
  generalize m' * 2 ^ (g' - min g g') = y at *
  have hcompare : compare (Sign.positive.apply x + Sign.positive.apply y) 0 = .gt := by
    refine Int.compare_eq_gt.2 ?_
    show (0 : Int) < x + y
    omega
  unfold UnpackedFloat.normalize
  rw [hcompare]
  rfl

/-- **The sum of two finite numbers.** -/
theorem ofPattern_add {a b : Nat} (ha : a < infinityBits) (hb : b < infinityBits) :
    ofPattern a + ofPattern b =
      ofPattern (min infinityBits (rounded (magnitude a + magnitude b))) := by
  show Float.ofModel (Float.Model.pack (UnpackedFloat.add Format.binary64 (ofPattern a).toModel.unpack
    (ofPattern b).toModel.unpack)) = _
  rw [unpack_ofPattern (Nat.le_of_lt ha), unpack_ofPattern (Nat.le_of_lt hb)]
  refine ofPattern_of_pack (Nat.min_le_left _ _) ?_
  rcases Nat.eq_zero_or_pos a with rfl | hpos
  · -- zero is dropped without rounding
    have hsum : UnpackedFloat.add Format.binary64 (unpacked 0) (unpacked b) = unpacked b := by
      rcases Nat.eq_zero_or_pos b with rfl | hpos'
      · rfl
      · rw [unpacked_finite hpos' hb]
        rfl
    have hbits : rounded (magnitude 0 + magnitude b) = b := by
      rw [show magnitude 0 = 0 from rfl, Nat.zero_add, rounded_magnitude]
    rw [hsum, hbits, Nat.min_eq_right (Nat.le_of_lt hb), pack_unpacked (Nat.le_of_lt hb)]
  rcases Nat.eq_zero_or_pos b with rfl | hpos'
  · have hsum : UnpackedFloat.add Format.binary64 (unpacked a) (unpacked 0) = unpacked a := by
      rw [unpacked_finite hpos ha]
      rfl
    have hbits : rounded (magnitude a + magnitude 0) = a := by
      rw [show magnitude 0 = 0 from rfl, Nat.add_zero, rounded_magnitude]
    rw [hsum, hbits, Nat.min_eq_right (Nat.le_of_lt ha), pack_unpacked (Nat.le_of_lt ha)]
  · have hexact : ∀ (m : Nat) {g d : Nat}, d ≤ g → m * 2 ^ (g - d) * 2 ^ d = m * 2 ^ g := by
      intro m g d hle
      rw [Nat.mul_assoc, ← Nat.pow_add, Nat.sub_add_cancel hle]
    have hleft := Nat.mul_pos (significand_pos hpos)
      (Nat.two_pow_pos (scale a - min (scale a) (scale b)))
    rw [unpacked_finite hpos ha, unpacked_finite hpos' hb, add_finite,
      pack_round (Nat.add_pos_left hleft _), Nat.add_mul, hexact _ (Nat.min_le_left _ _),
      hexact _ (Nat.min_le_right _ _), ← magnitude_eq, ← magnitude_eq]

/-- **The product of two finite numbers** that is not below the finest grid. -/
theorem ofPattern_mul {a b : Nat} (hpos : 0 < a) (ha : a < infinityBits) (hnormal : leadingBit ≤ b)
    (hb : b < infinityBits) (hscale : 1074 ≤ scale a + scale b) :
    ofPattern a * ofPattern b = ofPattern (min infinityBits (rounded
      (significand a * significand b * 2 ^ (scale a + scale b - 1074)))) := by
  have hpos' : 0 < b := Nat.lt_of_lt_of_le (by decide) hnormal
  have hproduct := Nat.mul_pos (significand_pos hpos) (significand_pos hpos')
  have hlog : 52 ≤ (significand a * significand b).log2 := by
    refine (Nat.le_log2 (Nat.ne_of_gt hproduct)).2 ?_
    exact Nat.le_trans (le_significand hnormal) (Nat.le_mul_of_pos_left _ (significand_pos hpos))
  have hexponent : (scale a : Int) - 1074 + (scale b - 1074) =
      (scale a + scale b - 1074 : Nat) - 1074 := by omega
  show Float.ofModel (Float.Model.pack (UnpackedFloat.mul Format.binary64 (ofPattern a).toModel.unpack
    (ofPattern b).toModel.unpack)) = _
  rw [unpack_ofPattern (Nat.le_of_lt ha), unpack_ofPattern (Nat.le_of_lt hb), unpacked_finite hpos ha,
    unpacked_finite hpos' hb]
  refine ofPattern_of_pack (Nat.min_le_left _ _) ?_
  show UnpackedFloat.pack Format.binary64 (roundWithAccuracy Format.binary64 .positive
    (significand a * significand b) ((scale a : Int) - 1074 + (scale b - 1074)) .exact) = _
  rw [hexponent]
  exact pack_roundWithAccuracy hproduct (Or.inl hlog)

/-- Infinity stays what it is. -/
theorem ofPattern_infinity_add {b : Nat} (hb : b < infinityBits) :
    ofPattern infinityBits + ofPattern b = ofPattern infinityBits := by
  show Float.ofModel (Float.Model.pack (UnpackedFloat.add Format.binary64
    (ofPattern infinityBits).toModel.unpack (ofPattern b).toModel.unpack)) = _
  rw [unpack_ofPattern (Nat.le_refl _), unpack_ofPattern (Nat.le_of_lt hb)]
  rcases Nat.eq_zero_or_pos b with rfl | hpos
  · exact ofPattern_of_pack (Nat.le_refl _) packedInfinity_eq
  · rw [unpacked_finite hpos hb]
    exact ofPattern_of_pack (Nat.le_refl _) packedInfinity_eq

theorem ofPattern_infinity_mul {b : Nat} (hpos : 0 < b) (hb : b < infinityBits) :
    ofPattern infinityBits * ofPattern b = ofPattern infinityBits := by
  show Float.ofModel (Float.Model.pack (UnpackedFloat.mul Format.binary64
    (ofPattern infinityBits).toModel.unpack (ofPattern b).toModel.unpack)) = _
  rw [unpack_ofPattern (Nat.le_refl _), unpack_ofPattern (Nat.le_of_lt hb), unpacked_finite hpos hb]
  exact ofPattern_of_pack (Nat.le_refl _) packedInfinity_eq

theorem ofPattern_zero_mul {b : Nat} (hpos : 0 < b) (hb : b < infinityBits) :
    ofPattern 0 * ofPattern b = ofPattern 0 := by
  show Float.ofModel (Float.Model.pack (UnpackedFloat.mul Format.binary64
    (ofPattern 0).toModel.unpack (ofPattern b).toModel.unpack)) = _
  rw [unpack_ofPattern (by decide), unpack_ofPattern (Nat.le_of_lt hb), unpacked_finite hpos hb]
  exact ofPattern_of_pack (by decide) rfl

end StackScript.Binary64
