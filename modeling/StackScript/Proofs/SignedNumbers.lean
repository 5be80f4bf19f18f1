import Mathlib
import StackScript.Proofs.FloatArithmetic

/-!
# Signs, and what is not a number

* `isNaN_iff` — which bits are not a number.
* `toBits_ofPattern`, `toBits_neg_ofPattern` — the bits of a number without a sign and of its negation,
  which differ in the sign bit only.
* `eq_ofPattern_or_neg` — every number is one of these two.
-/

set_option autoImplicit false

namespace StackScript.Binary64

open Float.Model Float.Model.UnpackedFloat

/-! ## What is not a number -/

theorem toNat_unpackExponent (b : BitVec 64) :
    (@unpackExponent Format.binary64 b).toNat = b.toNat / leadingBit % 2048 := by
  show (b.extractLsb 62 52).toNat = _
  rw [BitVec.extractLsb_toNat, Nat.shiftRight_eq_div_pow]

theorem toNat_unpackMantissa (b : BitVec 64) :
    (@unpackMantissa Format.binary64 b).toNat = b.toNat % leadingBit := by
  show (b.extractLsb 51 0).toNat = _
  rw [BitVec.extractLsb_toNat, Nat.shiftRight_eq_div_pow, Nat.pow_zero, Nat.div_one]

theorem isNaN_unpack (b : BitVec 64) :
    (UnpackedFloat.unpack Format.binary64 b).isNaN = true ↔
      @unpackExponent Format.binary64 b = -1#11 ∧ @unpackMantissa Format.binary64 b ≠ 0#52 := by
  unfold UnpackedFloat.unpack
  dsimp only
  split
  · rename_i hexponent
    split
    · rename_i hfraction
      exact ⟨fun h => (by cases h), fun h => absurd hfraction h.2⟩
    · rename_i hfraction
      exact ⟨fun _ => ⟨hexponent, hfraction⟩, fun _ => rfl⟩
  · rename_i hexponent
    refine ⟨fun h => ?_, fun h => absurd h.1 hexponent⟩
    split at h
    · split at h <;> cases h
    · cases h

/-- **What is not a number** has bits behind those of infinity, whatever its sign. -/
theorem isNaN_iff (x : Float) : x.isNaN = true ↔ infinityBits < x.toBits.toNat % signBit := by
  have hexponent := toNat_unpackExponent x.toBits.toBitVec
  have hfraction := toNat_unpackMantissa x.toBits.toBitVec
  have hones : (-1#11).toNat = 2047 := rfl
  have hall : @unpackExponent Format.binary64 x.toBits.toBitVec = -1#11 ↔
      x.toBits.toNat / leadingBit % 2048 = 2047 := by
    rw [← BitVec.toNat_inj, hexponent, hones, UInt64.toNat_toBitVec]
  have hzero : @unpackMantissa Format.binary64 x.toBits.toBitVec = 0#52 ↔
      x.toBits.toNat % leadingBit = 0 := by
    rw [← BitVec.toNat_inj, hfraction, UInt64.toNat_toBitVec]
    rfl
  show (UnpackedFloat.unpack Format.binary64 x.toBits.toBitVec).isNaN = true ↔ _
  rw [isNaN_unpack, hall, Ne, hzero]
  unfold infinityBits signBit leadingBit
  omega

/-! ## The sign -/

theorem toNat_packComponents (s : Sign) (e : BitVec 11) (f : BitVec 52) :
    (packComponents Format.binary64 s e f).toNat =
      s.toBitVec.toNat * signBit + e.toNat * leadingBit + f.toNat := by
  show (s.toBitVec ++ e ++ f).toNat = _
  rw [BitVec.toNat_append, BitVec.toNat_append, ← Nat.shiftLeft_add_eq_or_of_lt f.isLt,
    ← Nat.shiftLeft_add_eq_or_of_lt e.isLt, Nat.shiftLeft_eq, Nat.shiftLeft_eq]
  unfold signBit leadingBit
  omega

/-- The sign is a bit of its own. -/
theorem toNat_packComponents_negative (e : BitVec 11) (f : BitVec 52) :
    (packComponents Format.binary64 .negative e f).toNat =
      signBit + (packComponents Format.binary64 .positive e f).toNat := by
  have hset : Sign.negative.toBitVec.toNat = 1 := rfl
  have hclear : Sign.positive.toBitVec.toNat = 0 := rfl
  rw [toNat_packComponents, toNat_packComponents, hset, hclear]
  omega

/-- Negating what has been unpacked sets the sign bit. -/
theorem toNat_pack_neg_unpacked (bits : Nat) :
    (UnpackedFloat.pack Format.binary64 (unpacked bits).neg).toNat =
      signBit + (UnpackedFloat.pack Format.binary64 (unpacked bits)).toNat := by
  unfold unpacked
  split
  · exact toNat_packComponents_negative _ _
  · split
    · unfold UnpackedFloat.neg UnpackedFloat.pack
      dsimp only
      split
      · exact toNat_packComponents_negative _ _
      · split <;> exact toNat_packComponents_negative _ _
    · exact toNat_packComponents_negative _ _

section Patterns

variable {bits : Nat} (h : bits ≤ infinityBits)

include h

theorem toNat_pack_unpacked :
    (UnpackedFloat.pack Format.binary64 (unpacked bits)).toNat = bits := by
  rw [pack_unpacked h]
  unfold infinityBits at h
  exact Nat.mod_eq_of_lt (by omega)

theorem toBits_ofPattern : (ofPattern bits).toBits.toNat = bits := by
  rw [← ofPattern_of_pack h (pack_unpacked h)]
  exact toNat_pack_unpacked h

theorem isNaN_ofPattern : (ofPattern bits).isNaN = false := by
  rw [Bool.eq_false_iff, Ne, isNaN_iff, toBits_ofPattern h]
  unfold infinityBits at h
  unfold infinityBits signBit
  omega

/-- **Negation sets the sign bit**, of zero and of infinity too. -/
theorem toBits_neg_ofPattern : (-(ofPattern bits)).toBits.toNat = signBit + bits := by
  show (UnpackedFloat.pack Format.binary64 (ofPattern bits).toModel.unpack.neg).toNat = _
  rw [unpack_ofPattern h, toNat_pack_neg_unpacked, toNat_pack_unpacked h]

theorem isNaN_neg_ofPattern : (-(ofPattern bits)).isNaN = false := by
  rw [Bool.eq_false_iff, Ne, isNaN_iff, toBits_neg_ofPattern h]
  unfold infinityBits at h
  unfold infinityBits signBit
  omega

end Patterns

/-- **Every number has a bit pattern without a sign, or is the negation of one that has.** -/
theorem eq_ofPattern_or_neg {x : Float} (h : x.isNaN = false) :
    (x.toBits.toNat < signBit ∧ x.toBits.toNat ≤ infinityBits ∧ x = ofPattern x.toBits.toNat) ∨
      (signBit ≤ x.toBits.toNat ∧ x.toBits.toNat - signBit ≤ infinityBits ∧
        x = -(ofPattern (x.toBits.toNat - signBit))) := by
  have hnumber : x.toBits.toNat % signBit ≤ infinityBits := by
    rw [Bool.eq_false_iff, Ne, isNaN_iff] at h
    omega
  have hword := x.toBits.toNat_lt
  by_cases hsign : x.toBits.toNat < signBit
  · have hle : x.toBits.toNat ≤ infinityBits := by
      rwa [Nat.mod_eq_of_lt hsign] at hnumber
    refine Or.inl ⟨hsign, hle, Float.toBits_inj.1 (UInt64.toNat_inj.1 ?_)⟩
    rw [toBits_ofPattern hle]
  · have hle : x.toBits.toNat - signBit ≤ infinityBits := by
      unfold signBit infinityBits at *
      omega
    refine Or.inr ⟨Nat.le_of_not_lt hsign, hle, Float.toBits_inj.1 (UInt64.toNat_inj.1 ?_)⟩
    rw [toBits_neg_ofPattern hle]
    omega

end StackScript.Binary64
