import Mathlib.Algebra.Field.Basic
import Mathlib.Data.BitVec
import Mathlib.Tactic

set_option autoImplicit false

structure GF256 where
  byte : BitVec 8
  deriving DecidableEq, Repr

namespace GF256

@[ext] theorem ext {a b : GF256} (h : a.byte = b.byte) : a = b := by
  cases a
  cases b
  exact congrArg mk h

def ofNat (n : Nat) : GF256 := ⟨BitVec.ofNat 8 n⟩

instance : Zero GF256 := ⟨⟨0⟩⟩
instance : One GF256 := ⟨⟨1⟩⟩
instance : Add GF256 := ⟨fun a b => ⟨a.byte ^^^ b.byte⟩⟩

def double (a : GF256) : GF256 :=
  ⟨if a.byte.msb then (a.byte <<< 1) ^^^ 0x4d else a.byte <<< 1⟩

def expTable : List GF256 := List.iterate double 1 255

def exp (n : Nat) : GF256 := expTable.getD (n % 255) 0

def log (a : GF256) : Nat := expTable.idxOf a

instance : Mul GF256 := ⟨fun a b => if a = 0 ∨ b = 0 then 0 else exp (log a + log b)⟩
instance : Inv GF256 := ⟨fun a => if a = 0 then 0 else exp (255 - log a)⟩

@[simp] theorem byte_zero : (0 : GF256).byte = 0 := rfl

@[simp] theorem byte_add (a b : GF256) : (a + b).byte = a.byte ^^^ b.byte := rfl

theorem double_add (a b : GF256) : double (a + b) = double a + double b := by
  apply ext
  have hshift : (a.byte ^^^ b.byte) <<< 1 = (a.byte <<< 1) ^^^ (b.byte <<< 1) :=
    BitVec.shiftLeft_xor_distrib _ _ _
  simp only [double, byte_add, BitVec.msb_xor, hshift]
  generalize a.byte <<< 1 = x
  generalize b.byte <<< 1 = y
  cases a.byte.msb with
  | false =>
    cases b.byte.msb with
    | false => rfl
    | true =>
      simp only [Bool.false_bne, if_true, Bool.false_eq_true, if_false]
      ac_rfl
  | true =>
    cases b.byte.msb with
    | false =>
      simp only [Bool.true_bne, Bool.not_false, if_true, Bool.false_eq_true, if_false]
      ac_rfl
    | true =>
      have hcancel : x ^^^ 0x4d ^^^ (y ^^^ 0x4d) = x ^^^ y ^^^ (0x4d ^^^ 0x4d) := by ac_rfl
      simp only [bne_self_eq_false, if_true, Bool.false_eq_true, if_false]
      rw [hcancel, BitVec.xor_self, BitVec.xor_zero]

theorem iterate_double_add (n : Nat) (a b : GF256) :
    double^[n] (a + b) = double^[n] a + double^[n] b := by
  induction n generalizing a b with
  | zero => rfl
  | succ n ih =>
    simp only [Function.iterate_succ, Function.comp_apply]
    rw [double_add, ih]

theorem double_zero : double 0 = 0 := rfl

theorem iterate_double_zero (n : Nat) : double^[n] 0 = 0 :=
  Function.iterate_fixed double_zero n

theorem double_period : double^[255] 1 = 1 := by decide +kernel

theorem iterate_double_mod (n : Nat) : double^[n] 1 = double^[n % 255] 1 := by
  conv_lhs => rw [← Nat.div_add_mod n 255]
  rw [Nat.add_comm, Function.iterate_add_apply, Function.iterate_mul,
    Function.iterate_fixed double_period]

theorem exp_eq (n : Nat) : exp n = double^[n] 1 := by
  have hlt : n % 255 < 255 := Nat.mod_lt _ (by decide)
  rw [exp, expTable, iterate_double_mod, List.getD_eq_getElem?_getD,
    List.getElem?_eq_getElem (by rw [List.length_iterate]; exact hlt), List.getElem_iterate]
  rfl

theorem exp_add (m n : Nat) : exp (m + n) = double^[m] (exp n) := by
  rw [exp_eq, exp_eq, Function.iterate_add_apply]

def bits : List GF256 → Nat
  | [] => 0
  | a :: as => bits as ||| 1 <<< a.byte.toNat

theorem testBit_bits (as : List GF256) (b : GF256) :
    (bits as).testBit b.byte.toNat = true ↔ b ∈ as := by
  induction as with
  | nil => simp [bits]
  | cons a as ih =>
    have hbyte : a.byte.toNat = b.byte.toNat ↔ b = a :=
      ⟨fun h => ext (BitVec.eq_of_toNat_eq h.symm), fun h => by rw [h]⟩
    rw [bits, Nat.testBit_or, Bool.or_eq_true, ih, Nat.one_shiftLeft, Nat.testBit_two_pow,
      decide_eq_true_iff, hbyte, List.mem_cons, or_comm]

theorem bits_expTable : bits expTable = 2 ^ 256 - (1 + 1) := by decide +kernel

theorem mem_expTable {a : GF256} : a ∈ expTable ↔ a ≠ 0 := by
  have hzero : a.byte.toNat = 0 ↔ a = 0 :=
    ⟨fun h => ext (BitVec.eq_of_toNat_eq h), fun h => by rw [h]; rfl⟩
  rw [← testBit_bits, bits_expTable, Nat.testBit_two_pow_sub_succ (by decide),
    decide_eq_true a.byte.isLt, Bool.true_and, Bool.not_eq_true', ← Bool.not_eq_true,
    Nat.testBit_one_eq_true_iff_self_eq_zero, hzero]

theorem log_lt {a : GF256} (h : a ≠ 0) : log a < 255 := by
  have hlt := List.idxOf_lt_length_of_mem (mem_expTable.mpr h)
  rwa [expTable, List.length_iterate] at hlt

theorem exp_log {a : GF256} (h : a ≠ 0) : exp (log a) = a := by
  have hlt := List.idxOf_lt_length_of_mem (mem_expTable.mpr h)
  rw [exp, Nat.mod_eq_of_lt (log_lt h), log, List.getD_eq_getElem?_getD,
    List.getElem?_eq_getElem hlt, List.getElem_idxOf hlt, Option.getD_some]

theorem exp_ne_zero (n : Nat) : exp n ≠ 0 := by
  have hlt : n % 255 < expTable.length := by
    rw [expTable, List.length_iterate]
    exact Nat.mod_lt _ (by decide)
  rw [exp, List.getD_eq_getElem?_getD, List.getElem?_eq_getElem hlt, Option.getD_some]
  exact mem_expTable.mp (List.getElem_mem hlt)

theorem mul_eq_iterate (a : GF256) {b : GF256} (hb : b ≠ 0) : a * b = double^[log b] a := by
  by_cases ha : a = 0
  · subst ha
    rw [iterate_double_zero]
    exact if_pos (.inl rfl)
  · have hmul : a * b = exp (log a + log b) := if_neg (by simp [ha, hb])
    rw [hmul, Nat.add_comm, exp_add, exp_log ha]

theorem mul_eq_exp {a b : GF256} (ha : a ≠ 0) (hb : b ≠ 0) : a * b = exp (log a + log b) :=
  if_neg (by simp [ha, hb])

theorem zero_mul' (a : GF256) : 0 * a = 0 := if_pos (.inl rfl)

theorem mul_zero' (a : GF256) : a * 0 = 0 := if_pos (.inr rfl)

theorem mul_comm' (a b : GF256) : a * b = b * a := by
  by_cases ha : a = 0
  · rw [ha, zero_mul', mul_zero']
  · by_cases hb : b = 0
    · rw [hb, zero_mul', mul_zero']
    · rw [mul_eq_exp ha hb, mul_eq_exp hb ha, Nat.add_comm]

theorem mul_exp (a : GF256) (n : Nat) : a * exp n = double^[n] a := by
  by_cases ha : a = 0
  · rw [ha, zero_mul', iterate_double_zero]
  · calc a * exp n = double^[log (exp n)] (exp (log a)) := by
          rw [mul_eq_iterate a (exp_ne_zero n), exp_log ha]
      _ = exp (log a + log (exp n)) := by rw [Nat.add_comm, exp_add]
      _ = double^[log a] (exp n) := by rw [exp_add, exp_log (exp_ne_zero n)]
      _ = exp (n + log a) := by rw [← exp_add, Nat.add_comm]
      _ = double^[n] a := by rw [exp_add, exp_log ha]

theorem exp_mul_exp (m n : Nat) : exp m * exp n = exp (m + n) := by
  rw [mul_exp, Nat.add_comm, exp_add]

theorem add_mul' (a b c : GF256) : (a + b) * c = a * c + b * c := by
  by_cases hc : c = 0
  · rw [hc, mul_zero', mul_zero', mul_zero']
    rfl
  · rw [← exp_log hc, mul_exp, mul_exp, mul_exp, iterate_double_add]

theorem mul_assoc' (a b c : GF256) : a * b * c = a * (b * c) := by
  by_cases ha : a = 0
  · rw [ha, zero_mul', zero_mul', zero_mul']
  · by_cases hb : b = 0
    · rw [hb, mul_zero', zero_mul', mul_zero']
    · by_cases hc : c = 0
      · rw [hc, mul_zero', mul_zero', mul_zero']
      · rw [← exp_log ha, ← exp_log hb, ← exp_log hc, exp_mul_exp, exp_mul_exp, exp_mul_exp,
          exp_mul_exp, Nat.add_assoc]

theorem one_mul' (a : GF256) : 1 * a = a := by
  rw [mul_comm']
  exact mul_exp a 0

theorem mul_inv' {a : GF256} (h : a ≠ 0) : a * a⁻¹ = 1 := by
  have hlog := log_lt h
  have hinv : a⁻¹ = exp (255 - log a) := if_neg h
  calc a * a⁻¹ = exp (log a) * exp (255 - log a) := by rw [hinv, exp_log h]
    _ = exp 255 := by rw [exp_mul_exp, Nat.add_sub_cancel' (by omega)]
    _ = 1 := rfl

theorem add_self (a : GF256) : a + a = 0 := ext (BitVec.xor_self)

instance : Neg GF256 := ⟨id⟩

instance : Field GF256 where
  add_assoc a b c := ext (BitVec.xor_assoc _ _ _)
  zero_add a := ext (BitVec.zero_xor)
  add_zero a := ext (BitVec.xor_zero)
  add_comm a b := ext (BitVec.xor_comm _ _)
  neg_add_cancel := add_self
  left_distrib a b c := by rw [mul_comm', add_mul', mul_comm' b, mul_comm' c]
  right_distrib := add_mul'
  zero_mul := zero_mul'
  mul_zero := mul_zero'
  mul_assoc := mul_assoc'
  one_mul := one_mul'
  mul_one a := by rw [mul_comm', one_mul']
  mul_comm := mul_comm'
  exists_pair_ne := ⟨0, 1, by decide⟩
  mul_inv_cancel a h := mul_inv' h
  inv_zero := rfl
  nsmul := nsmulRec
  zsmul := zsmulRec
  nnqsmul := _
  nnqsmul_def := fun _ _ => rfl
  qsmul := _
  qsmul_def := fun _ _ => rfl

theorem sub_eq_add (a b : GF256) : a - b = a + b := rfl

end GF256
