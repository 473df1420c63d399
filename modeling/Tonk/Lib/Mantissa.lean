import Mathlib.Tactic

set_option autoImplicit false

namespace Mantissa

def shift (m w : Nat) : Nat := w.log2 + 1 - m

def truncate (m w : Nat) : Nat := w / 2 ^ shift m w * 2 ^ shift m w

def encode (m w : Nat) : Nat := w / 2 ^ shift m w + shift m w * 2 ^ m

def decode (m code : Nat) : Nat := code % 2 ^ m * 2 ^ (code / 2 ^ m)

variable {m v w : Nat}

theorem shift_eq_zero (h : w < 2 ^ m) (hm : 0 < m) : shift m w = 0 := by
  rw [shift]
  by_cases hw : w = 0
  · subst hw
    simp only [Nat.log2_zero]
    omega
  · have := (Nat.log2_lt hw).2 h
    omega

theorem div_lt (m w : Nat) : w / 2 ^ shift m w < 2 ^ m := by
  rw [Nat.div_lt_iff_lt_mul (Nat.two_pow_pos _), ← Nat.pow_add]
  have hlt : w < 2 ^ (w.log2 + 1) := Nat.lt_log2_self
  exact hlt.trans_le (Nat.pow_le_pow_right (by decide) (by rw [shift]; omega))

theorem decode_encode (m w : Nat) : decode m (encode m w) = truncate m w := by
  have hlt := div_lt m w
  rw [decode, encode, Nat.add_mul_mod_self_right, Nat.mod_eq_of_lt hlt,
    Nat.add_mul_div_right _ _ (Nat.two_pow_pos m), Nat.div_eq_of_lt hlt, Nat.zero_add, truncate]

theorem truncate_le (m w : Nat) : truncate m w ≤ w := Nat.div_mul_le_self w _

theorem truncate_of_lt (h : w < 2 ^ m) (hm : 0 < m) : truncate m w = w := by
  rw [truncate, shift_eq_zero h hm, Nat.pow_zero, Nat.div_one, Nat.mul_one]

theorem sub_truncate_mul_le (hm : 0 < m) (w : Nat) : (w - truncate m w) * 2 ^ (m - 1) ≤ w := by
  have hrest : w - truncate m w = w % 2 ^ shift m w := by
    have := Nat.div_add_mod' w (2 ^ shift m w)
    rw [truncate]
    omega
  rw [hrest]
  by_cases hshift : shift m w = 0
  · rw [hshift, Nat.pow_zero, Nat.mod_one, Nat.zero_mul]
    exact Nat.zero_le _
  · have hw : w ≠ 0 := by
      rintro rfl
      exact hshift (shift_eq_zero (Nat.two_pow_pos m) hm)
    calc w % 2 ^ shift m w * 2 ^ (m - 1) ≤ 2 ^ shift m w * 2 ^ (m - 1) :=
          Nat.mul_le_mul_right _ (Nat.mod_lt _ (Nat.two_pow_pos _)).le
      _ = 2 ^ (shift m w + (m - 1)) := (Nat.pow_add _ _ _).symm
      _ ≤ 2 ^ w.log2 := Nat.pow_le_pow_right (by decide) (by
          rw [shift] at hshift ⊢
          omega)
      _ ≤ w := Nat.log2_self_le hw

theorem two_pow_log2_le_truncate (hm : 0 < m) (hw : w ≠ 0) : 2 ^ w.log2 ≤ truncate m w := by
  have hle : shift m w ≤ w.log2 := by
    rw [shift]
    omega
  have hsplit : 2 ^ w.log2 = 2 ^ (w.log2 - shift m w) * 2 ^ shift m w := by
    rw [← Nat.pow_add, Nat.sub_add_cancel hle]
  rw [truncate, hsplit]
  refine Nat.mul_le_mul_right _ ((Nat.le_div_iff_mul_le (Nat.two_pow_pos _)).2 ?_)
  rw [← Nat.pow_add, Nat.sub_add_cancel hle]
  exact Nat.log2_self_le hw

theorem log2_truncate (hm : 0 < m) (w : Nat) : (truncate m w).log2 = w.log2 := by
  by_cases hw : w = 0
  · rw [hw, truncate, Nat.zero_div, Nat.zero_mul]
  · have hle := two_pow_log2_le_truncate hm hw
    have hne : truncate m w ≠ 0 := by
      have := Nat.two_pow_pos w.log2
      omega
    refine le_antisymm ?_ ((Nat.le_log2 hne).2 hle)
    exact Nat.lt_succ_iff.1 ((Nat.log2_lt hne).2 ((truncate_le m w).trans_lt Nat.lt_log2_self))

theorem encode_truncate (hm : 0 < m) (w : Nat) : encode m (truncate m w) = encode m w := by
  have hshift : shift m (truncate m w) = shift m w := by rw [shift, shift, log2_truncate hm]
  rw [encode, encode, hshift]
  congr 1
  rw [truncate, Nat.mul_div_cancel _ (Nat.two_pow_pos _)]

theorem truncate_mono (hm : 0 < m) (h : v ≤ w) : truncate m v ≤ truncate m w := by
  by_cases hv : v = 0
  · rw [hv, truncate, Nat.zero_div, Nat.zero_mul]
    exact Nat.zero_le _
  have hw : w ≠ 0 := by omega
  have hlog : v.log2 ≤ w.log2 := (Nat.le_log2 hw).2 ((Nat.log2_self_le hv).trans h)
  obtain heq | hlt := Nat.eq_or_lt_of_le hlog
  · have hshift : shift m v = shift m w := by rw [shift, shift, heq]
    rw [truncate, truncate, hshift]
    exact Nat.mul_le_mul_right _ (Nat.div_le_div_right h)
  · calc truncate m v ≤ v := truncate_le m v
      _ ≤ 2 ^ (v.log2 + 1) := Nat.lt_log2_self.le
      _ ≤ 2 ^ w.log2 := Nat.pow_le_pow_right (by decide) hlt
      _ ≤ truncate m w := two_pow_log2_le_truncate hm hw

theorem encode_lt {bits : Nat} (hm : 0 < m) (h : w < 2 ^ bits) (hle : m ≤ bits) :
    encode m w < (bits - m + 1) * 2 ^ m := by
  have hlt := div_lt m w
  have hshift : shift m w ≤ bits - m := by
    rw [shift]
    by_cases hw : w = 0
    · rw [hw, Nat.log2_zero]
      omega
    · have := (Nat.log2_lt hw).2 h
      omega
  calc encode m w < 2 ^ m + shift m w * 2 ^ m := Nat.add_lt_add_right hlt _
    _ = (shift m w + 1) * 2 ^ m := by rw [Nat.add_mul, Nat.one_mul, Nat.add_comm]
    _ ≤ (bits - m + 1) * 2 ^ m := Nat.mul_le_mul_right _ (by omega)

end Mantissa
