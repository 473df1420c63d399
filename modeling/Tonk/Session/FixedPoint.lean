import Tonk.Lib.Mantissa

set_option autoImplicit false

namespace Tonk.Session

/-- The highest bit set, whatever the name says. Only used where x ≠ 0. -/
def nonzeroLowestBitIndex (x : BitVec 32) : Nat := 31 - x.clz.toNat

def fixedPointCompress (mantissaBits : Nat) (word : BitVec 32) : BitVec 32 :=
  if word = 0 then 0
  else
    let nonzeroBits := nonzeroLowestBitIndex word + 1
    if nonzeroBits ≤ mantissaBits then word
    else
      let shift := nonzeroBits - mantissaBits
      word >>> shift ||| BitVec.ofNat 32 shift <<< mantissaBits

def fixedPointDecompress (mantissaBits : Nat) (fpword : BitVec 32) : BitVec 32 :=
  (fpword &&& BitVec.ofNat 32 (2 ^ mantissaBits - 1)) <<< (fpword >>> mantissaBits).toNat

def fixedPointCompress32to16 (word : BitVec 32) : BitVec 16 := (fixedPointCompress 11 word).setWidth 16

def fixedPointDecompress16to32 (fpword : BitVec 16) : BitVec 32 :=
  fixedPointDecompress 11 (fpword.setWidth 32)

def fixedPointCompress16to8 (word : BitVec 16) : BitVec 8 :=
  (fixedPointCompress 4 (word.setWidth 32)).setWidth 8

def fixedPointDecompress8to16 (fpword : BitVec 8) : BitVec 16 :=
  (fixedPointDecompress 4 (fpword.setWidth 32)).setWidth 16

theorem nonzeroLowestBitIndex_eq {x : BitVec 32} (hx : x ≠ 0) :
    nonzeroLowestBitIndex x = x.toNat.log2 := by
  have hne : x.toNat ≠ 0 := fun h => hx (BitVec.eq_of_toNat_eq h)
  have hclz : x.clz.toNat < 32 := by
    simpa [BitVec.lt_def] using BitVec.clz_lt_iff_ne_zero.2 hx
  have hlow := BitVec.two_pow_sub_clz_le_toNat_of_ne_zero (by decide) hx
  have hhigh : x.toNat < 2 ^ (32 - x.clz.toNat) := BitVec.toNat_lt_two_pow_sub_clz
  rw [nonzeroLowestBitIndex]
  refine le_antisymm ((Nat.le_log2 hne).2 ?_) (Nat.lt_succ_iff.1 ((Nat.log2_lt hne).2 ?_))
  · rwa [show 31 - x.clz.toNat = 32 - 1 - x.clz.toNat by omega]
  · rwa [show (31 - x.clz.toNat).succ = 32 - x.clz.toNat by omega]

section Codes

variable {mantissaBits : Nat} (hpos : 0 < mantissaBits) (hle : mantissaBits ≤ 32)
  (hfits : (32 - mantissaBits + 1) * 2 ^ mantissaBits ≤ 2 ^ 32)

include hpos hle hfits

theorem encode_lt_two_pow (word : BitVec 32) : Mantissa.encode mantissaBits word.toNat < 2 ^ 32 :=
  (Mantissa.encode_lt hpos word.isLt hle).trans_le hfits

theorem toNat_fixedPointCompress (word : BitVec 32) :
    (fixedPointCompress mantissaBits word).toNat = Mantissa.encode mantissaBits word.toNat := by
  have hlt := encode_lt_two_pow hpos hle hfits word
  rw [fixedPointCompress]
  by_cases hzero : word = 0
  · subst hzero
    have hshift := Mantissa.shift_eq_zero (Nat.two_pow_pos mantissaBits) hpos
    simp [Mantissa.encode, hshift]
  simp only [if_neg hzero, nonzeroLowestBitIndex_eq hzero]
  by_cases hsmall : word.toNat.log2 + 1 ≤ mantissaBits
  · have hshift : Mantissa.shift mantissaBits word.toNat = 0 := Nat.sub_eq_zero_of_le hsmall
    rw [if_pos hsmall, Mantissa.encode, hshift, Nat.pow_zero, Nat.div_one, Nat.zero_mul, Nat.add_zero]
  · have hmantissa := Mantissa.div_lt mantissaBits word.toNat
    change _ = word.toNat / 2 ^ (word.toNat.log2 + 1 - mantissaBits) +
      (word.toNat.log2 + 1 - mantissaBits) * 2 ^ mantissaBits
    change word.toNat / 2 ^ (word.toNat.log2 + 1 - mantissaBits) < _ at hmantissa
    change word.toNat / 2 ^ (word.toNat.log2 + 1 - mantissaBits) +
      (word.toNat.log2 + 1 - mantissaBits) * 2 ^ mantissaBits < _ at hlt
    generalize word.toNat.log2 + 1 - mantissaBits = shift at hmantissa hlt ⊢
    have hshifted : shift * 2 ^ mantissaBits < 2 ^ 32 := (Nat.le_add_left _ _).trans_lt hlt
    have hshift : shift < 2 ^ 32 :=
      (Nat.le_mul_of_pos_right shift (Nat.two_pow_pos mantissaBits)).trans_lt hshifted
    rw [if_neg hsmall, BitVec.toNat_or, BitVec.toNat_ushiftRight, BitVec.toNat_shiftLeft,
      BitVec.toNat_ofNat, Nat.mod_eq_of_lt hshift, Nat.shiftLeft_eq, Nat.mod_eq_of_lt hshifted,
      Nat.shiftRight_eq_div_pow, Nat.or_comm, ← Nat.shiftLeft_eq,
      ← Nat.shiftLeft_add_eq_or_of_lt hmantissa, Nat.add_comm]

end Codes

theorem toNat_fixedPointDecompress {mantissaBits : Nat} (hle : mantissaBits ≤ 32)
    {word fpword : BitVec 32} (hcode : fpword.toNat = Mantissa.encode mantissaBits word.toNat) :
    (fixedPointDecompress mantissaBits fpword).toNat = Mantissa.truncate mantissaBits word.toNat := by
  have hmask : (BitVec.ofNat 32 (2 ^ mantissaBits - 1)).toNat = 2 ^ mantissaBits - 1 := by
    have hpow : 2 ^ mantissaBits ≤ 2 ^ 32 := Nat.pow_le_pow_right (by decide) hle
    have hone := Nat.two_pow_pos mantissaBits
    rw [BitVec.toNat_ofNat, Nat.mod_eq_of_lt (by omega)]
  have hdecode := Mantissa.decode_encode mantissaBits word.toNat
  rw [← hcode, Mantissa.decode] at hdecode
  have hlt := (Mantissa.truncate_le mantissaBits word.toNat).trans_lt word.isLt
  rw [fixedPointDecompress, BitVec.toNat_shiftLeft, BitVec.toNat_and, hmask, Nat.and_two_pow_sub_one_eq_mod,
    BitVec.toNat_ushiftRight, Nat.shiftRight_eq_div_pow, Nat.shiftLeft_eq, hdecode, Nat.mod_eq_of_lt hlt]

theorem toNat_fixedPointCompress32to16 (word : BitVec 32) :
    (fixedPointCompress32to16 word).toNat = Mantissa.encode 11 word.toNat := by
  have hlt := Mantissa.encode_lt (by decide : 0 < 11) word.isLt (by decide)
  rw [fixedPointCompress32to16, BitVec.toNat_setWidth,
    toNat_fixedPointCompress (by decide) (by decide) (by decide), Nat.mod_eq_of_lt (by omega)]

theorem toNat_fixedPointDecompress16to32 (word : BitVec 32) :
    (fixedPointDecompress16to32 (fixedPointCompress32to16 word)).toNat =
      Mantissa.truncate 11 word.toNat := by
  refine toNat_fixedPointDecompress (by decide) ?_
  rw [BitVec.toNat_setWidth, toNat_fixedPointCompress32to16, Nat.mod_eq_of_lt]
  exact encode_lt_two_pow (by decide) (by decide) (by decide) word

theorem fixedPointCompress32to16_decompress (word : BitVec 32) :
    fixedPointCompress32to16 (fixedPointDecompress16to32 (fixedPointCompress32to16 word)) =
      fixedPointCompress32to16 word := by
  apply BitVec.eq_of_toNat_eq
  rw [toNat_fixedPointCompress32to16, toNat_fixedPointDecompress16to32,
    Mantissa.encode_truncate (by decide), toNat_fixedPointCompress32to16]

theorem toNat_fixedPointCompress16to8 (word : BitVec 16) :
    (fixedPointCompress16to8 word).toNat = Mantissa.encode 4 word.toNat := by
  have hlt := Mantissa.encode_lt (by decide : 0 < 4) word.isLt (by decide)
  have hword : (word.setWidth 32).toNat = word.toNat := by
    rw [BitVec.toNat_setWidth, Nat.mod_eq_of_lt (by omega)]
  rw [fixedPointCompress16to8, BitVec.toNat_setWidth,
    toNat_fixedPointCompress (by decide) (by decide) (by decide), hword, Nat.mod_eq_of_lt (by omega)]

theorem toNat_fixedPointDecompress8to16 (word : BitVec 16) :
    (fixedPointDecompress8to16 (fixedPointCompress16to8 word)).toNat =
      Mantissa.truncate 4 word.toNat := by
  have hword : (word.setWidth 32).toNat = word.toNat := by
    rw [BitVec.toNat_setWidth, Nat.mod_eq_of_lt (by omega)]
  have hcode : ((fixedPointCompress16to8 word).setWidth 32).toNat =
      Mantissa.encode 4 (word.setWidth 32).toNat := by
    rw [BitVec.toNat_setWidth, toNat_fixedPointCompress16to8, hword, Nat.mod_eq_of_lt]
    exact (Mantissa.encode_lt (by decide) word.isLt (by decide)).trans (by decide)
  have hle := Mantissa.truncate_le 4 word.toNat
  rw [fixedPointDecompress8to16, BitVec.toNat_setWidth, toNat_fixedPointDecompress (by decide) hcode,
    hword, Nat.mod_eq_of_lt (by omega)]

/-- The code of a 32-bit word loses little, keeps the order, and is the code of what it stands for. -/
theorem fixedPoint32to16 (v w : BitVec 32) (hle : v ≤ w) :
    fixedPointDecompress16to32 (fixedPointCompress32to16 w) ≤ w ∧
      (w.toNat - (fixedPointDecompress16to32 (fixedPointCompress32to16 w)).toNat : ℚ) ≤
        (w.toNat : ℚ) / 1024 ∧
      (w.toNat < 2048 → fixedPointDecompress16to32 (fixedPointCompress32to16 w) = w) ∧
      fixedPointDecompress16to32 (fixedPointCompress32to16 v) ≤
        fixedPointDecompress16to32 (fixedPointCompress32to16 w) ∧
      fixedPointCompress32to16 (fixedPointDecompress16to32 (fixedPointCompress32to16 w)) =
        fixedPointCompress32to16 w := by
  have hw := toNat_fixedPointDecompress16to32 w
  have hv := toNat_fixedPointDecompress16to32 v
  have htruncate := Mantissa.truncate_le 11 w.toNat
  refine ⟨?_, ?_, fun hsmall => ?_, ?_, fixedPointCompress32to16_decompress w⟩
  · rw [BitVec.le_def, hw]
    exact htruncate
  · have herror := Mantissa.sub_truncate_mul_le (by decide : 0 < 11) w.toNat
    rw [hw, le_div_iff₀ (by norm_num), ← Nat.cast_sub htruncate]
    exact_mod_cast herror
  · apply BitVec.eq_of_toNat_eq
    rw [hw]
    exact Mantissa.truncate_of_lt hsmall (by decide)
  · rw [BitVec.le_def, hv, hw]
    exact Mantissa.truncate_mono (by decide) (BitVec.le_def.1 hle)

theorem fixedPoint32to16_wide : fixedPointDecompress16to32 (fixedPointCompress32to16 0xffffffff) ≤
    0xffffffff ∧ fixedPointDecompress16to32 (fixedPointCompress32to16 4096) ≤
      fixedPointDecompress16to32 (fixedPointCompress32to16 0xffffffff) :=
  have h := fixedPoint32to16 4096 0xffffffff (by decide)
  ⟨h.1, h.2.2.2.1⟩

example : fixedPointCompress32to16 0xffffffff = 0xafff := by decide

end Tonk.Session
