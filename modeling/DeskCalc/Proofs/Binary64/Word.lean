import DeskCalc.Binary64.Basic
import Mathlib

/-!
Doubles as words. A word has a sign, an exponent field and a fraction field; the two fields together are the
ordinal of the magnitude. A double is the word of its bits, and so it is known by its sign and its ordinal:
it is finite exactly if the ordinal is below that of infinity, and negation changes nothing but the sign.
-/

namespace DeskCalc.Binary64
open Float.Model UnpackedFloat

/-- The number with the given sign, exponent field and fraction field. -/
def ofFields (s : UnpackedFloat.Sign) (e : BitVec 11) (m : BitVec 52) : UnpackedFloat :=
  if e = -1#11 then if m = 0#52 then .infinity s else .notANumber
  else if e = 0#11 then
    if h : m = 0#52 then .zero s
    else .finite s m.toNat (-1074) (by simpa [BitVec.toNat_pos, BitVec.pos_iff_ne_zero])
  else .finite s (binade + m.toNat) (e.toNat - 1075) (Nat.add_pos_left (by decide) _)

section Fields

variable (b : BitVec Format.binary64.numBits) (s : UnpackedFloat.Sign) (e : BitVec 11) (m : BitVec 52)

theorem toNat_one_append : (1#1 ++ m).toNat = binade + m.toNat := by
  rw [BitVec.toNat_append, ← Nat.shiftLeft_add_eq_or_of_lt m.isLt]
  rfl

theorem log2_toNat_lt : m.toNat.log2 < 52 := by
  have hm := m.isLt
  by_cases h : m.toNat = 0
  · rw [h]
    decide
  · exact (Nat.log2_lt h).2 hm

theorem log2_binade_add : (binade + m.toNat).log2 = 52 := by
  have hm : m.toNat < binade := m.isLt
  have hpos : binade + m.toNat ≠ 0 := Nat.ne_of_gt (Nat.add_pos_left (by decide) _)
  rw [Nat.log2_eq_iff hpos]
  constructor
  · exact Nat.le_add_right _ _
  · exact Nat.add_lt_add_left hm binade

theorem unpack_eq_ofFields :
    UnpackedFloat.unpack Format.binary64 b =
      ofFields (.ofBitVec (unpackSign b)) (unpackExponent b) (unpackMantissa b) := by
  have hbias : (Format.binary64.exponentBias : Int) + Format.binary64.mantissaBitsWithoutImplicit =
      1075 := rfl
  simp only [UnpackedFloat.unpack, ofFields, hbias, toNat_one_append]
  split
  · rfl
  · split
    · rename_i hzero
      simp only [hzero]
      rfl
    · rfl

theorem neg_ofFields : (ofFields s e m).neg = ofFields (-s) e m := by
  unfold ofFields
  split
  · split <;> rfl
  · split
    · split <;> rfl
    · rfl

theorem pack_finite {n : Nat} {k : Int} (h : 0 < n) :
    UnpackedFloat.pack Format.binary64 (.finite s n k h) =
      if 2048 ≤ (k + 1075).toNat + 1 then packedInfinity Format.binary64 s
      else if n.log2 = 52 then
        packComponents Format.binary64 s (BitVec.ofNat 11 (k + 1075).toNat) (BitVec.ofNat 52 n)
      else packComponents Format.binary64 s 0#11 (BitVec.ofNat 52 n) := by
  have hbias : (k + Format.binary64.exponentBias + Format.binary64.mantissaBitsWithoutImplicit) =
      k + 1075 := Int.add_assoc _ _ _
  have hbits : (n.log2 + 1 = Format.binary64.mantissaBits) = (n.log2 = 52) :=
    propext Nat.succ_inj
  simp only [UnpackedFloat.pack, hbias, hbits]

theorem pack_ofFields (h : e = -1#11 → m = 0#52) :
    UnpackedFloat.pack Format.binary64 (ofFields s e m) = packComponents Format.binary64 s e m := by
  unfold ofFields
  split
  · rename_i hspecial
    rw [if_pos (h hspecial), hspecial, h hspecial]
    rfl
  · rename_i hspecial
    split
    · rename_i hzero
      split
      · rename_i hmantissa
        rw [hzero, hmantissa]
        rfl
      · rw [pack_finite, if_neg (by decide), if_neg (Nat.ne_of_lt (log2_toNat_lt m)), hzero,
          BitVec.ofNat_toNat, BitVec.setWidth_eq]
    · have hlt : e.toNat < 2047 := by
        have hne : e.toNat ≠ 2047 := fun heq => hspecial (BitVec.eq_of_toNat_eq heq)
        have := e.isLt
        omega
      have hexponent : ((e.toNat : Int) - 1075 + 1075).toNat = e.toNat := by omega
      have hfraction : BitVec.ofNat 52 (binade + m.toNat) = m := by
        apply BitVec.eq_of_toNat_eq
        rw [BitVec.toNat_ofNat, binade]
        have := m.isLt
        omega
      rw [pack_finite, hexponent, if_neg (by omega), if_pos (log2_binade_add m), BitVec.ofNat_toNat,
        BitVec.setWidth_eq, hfraction]

end Fields

section Words

variable (b : BitVec Format.binary64.numBits)

theorem toNat_unpackMantissa : (unpackMantissa b).toNat = b.toNat % binade := by
  simp [unpackMantissa, binade]

theorem toNat_unpackExponent : (unpackExponent b).toNat = b.toNat / binade % 2048 := by
  simp [unpackExponent, binade, Nat.shiftRight_eq_div_pow]

theorem toNat_unpackSign : (unpackSign b).toNat = b.toNat / signBit := by
  have hlt : b.toNat < 2 ^ 64 := b.isLt
  simp only [unpackSign, BitVec.toNat_cast, BitVec.extractLsb_toNat, Nat.shiftRight_eq_div_pow, signBit]
  omega

theorem toNat_packComponents (s : UnpackedFloat.Sign) (e : BitVec 11) (m : BitVec 52) :
    (packComponents Format.binary64 s e m).toNat =
      s.toBitVec.toNat * signBit + (e.toNat * binade + m.toNat) := by
  simp only [packComponents, BitVec.toNat_append]
  rw [← Nat.shiftLeft_add_eq_or_of_lt m.isLt, ← Nat.shiftLeft_add_eq_or_of_lt e.isLt]
  simp only [Nat.shiftLeft_eq, signBit, binade]
  omega

theorem toBitVec_ofBitVec (v : BitVec 1) : (UnpackedFloat.Sign.ofBitVec v).toBitVec = v := by
  rcases BitVec.eq_zero_or_eq_one v with h | h <;> rw [h] <;> rfl

theorem toNat_toBitVec_neg (s : UnpackedFloat.Sign) : (-s).toBitVec.toNat = 1 - s.toBitVec.toNat := by
  cases s <;> rfl

/-- The fields of the magnitude make up its ordinal. -/
theorem toNat_fields :
    (unpackExponent b).toNat * binade + (unpackMantissa b).toNat = b.toNat % signBit := by
  rw [toNat_unpackExponent, toNat_unpackMantissa]
  simp only [signBit, binade]
  omega

theorem packComponents_unpack :
    packComponents Format.binary64 (.ofBitVec (unpackSign b)) (unpackExponent b) (unpackMantissa b) = b := by
  apply BitVec.eq_of_toNat_eq
  rw [toNat_packComponents, toBitVec_ofBitVec, toNat_fields, toNat_unpackSign, Nat.div_add_mod']

theorem unpackExponent_eq_iff : unpackExponent b = -1#11 ↔ infinite ≤ b.toNat % signBit := by
  have hbits := toNat_fields b
  have hm : (unpackMantissa b).toNat < binade := (unpackMantissa b).isLt
  have he : (unpackExponent b).toNat < 2048 := (unpackExponent b).isLt
  have heq : unpackExponent b = -1#11 ↔ (unpackExponent b).toNat = 2047 :=
    ⟨fun h => by rw [h]; rfl, fun h => BitVec.eq_of_toNat_eq h⟩
  rw [heq]
  simp only [infinite, binade] at *
  omega

theorem isNumber_iff :
    (unpackExponent b = -1#11 → unpackMantissa b = 0#52) ↔ b.toNat % signBit ≤ infinite := by
  have hbits := toNat_fields b
  have hm : (unpackMantissa b).toNat < binade := (unpackMantissa b).isLt
  have he : (unpackExponent b).toNat < 2048 := (unpackExponent b).isLt
  have heq : unpackExponent b = -1#11 ↔ (unpackExponent b).toNat = 2047 :=
    ⟨fun h => by rw [h]; rfl, fun h => BitVec.eq_of_toNat_eq h⟩
  have hzero : unpackMantissa b = 0#52 ↔ (unpackMantissa b).toNat = 0 :=
    ⟨fun h => by rw [h]; rfl, fun h => BitVec.eq_of_toNat_eq h⟩
  rw [heq, hzero]
  simp only [infinite, binade] at *
  omega

theorem pack_unpack (h : b.toNat % signBit ≤ infinite) :
    UnpackedFloat.pack Format.binary64 (UnpackedFloat.unpack Format.binary64 b) = b := by
  rw [unpack_eq_ofFields, pack_ofFields _ _ _ ((isNumber_iff b).2 h), packComponents_unpack]

end Words

section Doubles

variable {x y : Float} {k : Nat}

/-- A double is the word of its bits. -/
theorem ofBits_toBits (x : Float) : Float.ofBits x.toBits = x := by
  obtain ⟨⟨bits, hvalid⟩⟩ := x
  let b : BitVec Format.binary64.numBits := bits.toBitVec
  have hpack : UnpackedFloat.pack Format.binary64 (UnpackedFloat.unpack Format.binary64 b) = b := by
    by_cases h : unpackExponent b = -1#11 ∧ unpackMantissa b ≠ 0#52
    · rw [unpack_eq_ofFields, ofFields, if_pos h.1, if_neg h.2]
      exact (hvalid.eq_packedNaN h.1 h.2).symm
    · refine pack_unpack _ ((isNumber_iff _).1 fun he => ?_)
      exact Decidable.byContradiction fun hm => h ⟨he, hm⟩
  have hbits : UInt64.ofBitVec (UnpackedFloat.pack Format.binary64 (UnpackedFloat.unpack Format.binary64 b)) =
      bits := congrArg UInt64.ofBitVec hpack
  rw [Float.ofBits, Float.Model.ofBits, Float.Model.pack]
  congr

theorem toBits_ofBits {w : UInt64} (h : w.toNat % signBit ≤ infinite) : (Float.ofBits w).toBits = w := by
  simp only [Float.ofBits, Float.toBits, Float.Model.ofBits, Float.Model.pack, pack_unpack _ h]

theorem isNegative_iff : isNegative x = true ↔ signBit ≤ x.toBits.toNat := decide_eq_true_iff

theorem toNat_toBits (x : Float) :
    x.toBits.toNat = (if isNegative x then signBit else 0) + ordinal x := by
  have hlt : x.toBits.toNat < 2 ^ 64 := x.toBits.toNat_lt
  simp only [isNegative_iff, ordinal]
  by_cases hsign : signBit ≤ x.toBits.toNat
  · rw [if_pos hsign]
    simp only [signBit] at *
    omega
  · rw [if_neg hsign]
    simp only [signBit] at *
    omega

/-- A double is known by its sign and its magnitude. -/
theorem ext_ordinal (hsign : isNegative x = isNegative y) (h : ordinal x = ordinal y) : x = y := by
  have hbits : x.toBits = y.toBits := by
    rw [← UInt64.toNat_inj, toNat_toBits, toNat_toBits, hsign, h]
  rw [← ofBits_toBits x, hbits, ofBits_toBits]

theorem isFinite_iff : x.isFinite = true ↔ ordinal x < infinite := by
  have hunpack : x.isFinite = (UnpackedFloat.unpack Format.binary64 x.toBits.toBitVec).isFinite := rfl
  have hordinal : ordinal x = x.toBits.toBitVec.toNat % signBit := rfl
  rw [hunpack, hordinal, ← Nat.not_le, ← unpackExponent_eq_iff, unpack_eq_ofFields, ofFields]
  split
  · split <;> simp_all [UnpackedFloat.isFinite]
  · split
    · split <;> simp_all [UnpackedFloat.isFinite]
    · simp_all [UnpackedFloat.isFinite]

theorem toNat_toBits_neg (h : ordinal x ≤ infinite) :
    (-x).toBits.toNat = (if isNegative x then 0 else signBit) + ordinal x := by
  have hneg : (-x).toBits.toBitVec =
      UnpackedFloat.pack Format.binary64 (UnpackedFloat.unpack Format.binary64 x.toBits.toBitVec).neg := rfl
  have hlt : x.toBits.toNat < 2 ^ 64 := x.toBits.toNat_lt
  rw [← UInt64.toNat_toBitVec, hneg, unpack_eq_ofFields, neg_ofFields,
    pack_ofFields _ _ _ ((isNumber_iff _).2 h), toNat_packComponents, toNat_toBitVec_neg, toBitVec_ofBitVec,
    toNat_unpackSign, toNat_fields, UInt64.toNat_toBitVec]
  simp only [isNegative_iff, ordinal]
  by_cases hsign : signBit ≤ x.toBits.toNat
  · rw [if_pos hsign]
    simp only [signBit] at *
    omega
  · rw [if_neg hsign]
    simp only [signBit] at *
    omega

theorem ordinal_lt (x : Float) : ordinal x < signBit := Nat.mod_lt _ (by decide)

@[simp] theorem ordinal_neg (h : ordinal x ≤ infinite) : ordinal (-x) = ordinal x := by
  have hlt := ordinal_lt x
  rw [ordinal, toNat_toBits_neg h]
  simp only [signBit] at *
  split <;> omega

theorem isNegative_neg (h : ordinal x ≤ infinite) : isNegative (-x) = !isNegative x := by
  have hlt := ordinal_lt x
  rw [Bool.eq_iff_iff, isNegative_iff, toNat_toBits_neg h]
  cases isNegative x <;> simp [hlt]

theorem isFinite_neg (h : ordinal x ≤ infinite) : (-x).isFinite = x.isFinite := by
  rw [Bool.eq_iff_iff, isFinite_iff, isFinite_iff, ordinal_neg h]

theorem toBits_ofOrdinal (h : k ≤ infinite) : (ofOrdinal k).toBits.toNat = k := by
  have hk : (UInt64.ofNat k).toNat = k := by
    rw [UInt64.toNat_ofNat']
    simp only [infinite, binade] at h
    omega
  have hlt : k % signBit ≤ infinite := Nat.le_trans (Nat.mod_le _ _) h
  rw [ofOrdinal, toBits_ofBits (by rwa [hk]), hk]

theorem ordinal_ofOrdinal (h : k ≤ infinite) : ordinal (ofOrdinal k) = k := by
  rw [ordinal, toBits_ofOrdinal h]
  simp only [infinite, binade, signBit] at *
  omega

theorem isNegative_ofOrdinal (h : k ≤ infinite) : isNegative (ofOrdinal k) = false := by
  rw [← Bool.not_eq_true, isNegative_iff, toBits_ofOrdinal h]
  simp only [infinite, binade, signBit] at *
  omega

end Doubles

end DeskCalc.Binary64
