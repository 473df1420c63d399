import Tonk.Lib.ByteMemory
import Tonk.Lib.GF256

set_option autoImplicit false

namespace Tonk.Gf256
open ByteMemory

def gf256GenPoly : List Nat :=
  [0x8e, 0x95, 0x96, 0xa6, 0xaf, 0xb1, 0xb2, 0xb4, 0xb8, 0xc3, 0xc6, 0xd4, 0xe1, 0xe7, 0xf3, 0xfa]

def kDefaultPolynomialIndex : Nat := 3

def polynomial : Nat := gf256GenPoly.getD kDefaultPolynomialIndex 0 <<< 1 ||| 1

structure ExpLogTables where
  exptab : Nat → BitVec 8
  logtab : Nat → Nat

def explogStep (t : ExpLogTables) (jj : Nat) : ExpLogTables :=
  let next := (t.exptab (jj - 1)).toNat * 2
  let next := if 256 ≤ next then next ^^^ polynomial else next
  let exptab := Function.update t.exptab jj (BitVec.ofNat 8 next)
  ⟨exptab, Function.update t.logtab (exptab jj).toNat jj⟩

def explogStart : ExpLogTables :=
  ⟨Function.update (fun _ => 0) 0 1, Function.update (fun _ => 0) 0 512⟩

def explogInit : ExpLogTables :=
  let t := (List.range' 1 254).foldl explogStep explogStart
  let exptab := Function.update t.exptab 255 (t.exptab 0)
  let logtab := Function.update t.logtab (exptab 255).toNat 255
  let exptab := (List.range' 256 254).foldl
    (fun e jj => Function.update e jj (e (jj % 255))) exptab
  let exptab := Function.update exptab (2 * 255) 1
  let exptab := (List.range' (2 * 255 + 1) 509).foldl (fun e jj => Function.update e jj 0) exptab
  ⟨exptab, logtab⟩

def mulTable (i : Nat) : BitVec 8 :=
  let y := i / 256
  let x := i % 256
  if y = 0 then 0
  else
    let logY := explogInit.logtab y % 256
    if x = 0 then 0 else explogInit.exptab (explogInit.logtab x + logY)

def gf256_mul (x y : BitVec 8) : BitVec 8 := mulTable (y.toNat <<< 8 + x.toNat)

/-! The tables hold the powers of 2, and their exponents. -/

theorem ofNat_next (p : BitVec 8) :
    BitVec.ofNat 8 (if 256 ≤ p.toNat * 2 then p.toNat * 2 ^^^ polynomial else p.toNat * 2) =
      (GF256.double ⟨p⟩).byte := by
  have hdouble : BitVec.ofNat 8 (p.toNat * 2) = p <<< 1 := by
    apply BitVec.eq_of_toNat_eq
    rw [BitVec.toNat_ofNat, BitVec.toNat_shiftLeft, Nat.shiftLeft_eq]
  have hmsb : p.msb = decide (256 ≤ p.toNat * 2) := by
    rw [BitVec.msb_eq_decide]
    congr 1
    simp only [eq_iff_iff]
    omega
  simp only [GF256.double, hmsb, decide_eq_true_eq]
  split_ifs
  · rw [BitVec.ofNat_xor, hdouble]
    rfl
  · exact hdouble

structure Filled (t : ExpLogTables) (n : Nat) : Prop where
  exptab_eq : ∀ j, j ≤ n → t.exptab j = (GF256.exp j).byte
  logtab_eq : ∀ j, 1 ≤ j → j ≤ n → 1 ≤ t.logtab (GF256.exp j).byte.toNat ∧
    t.logtab (GF256.exp j).byte.toNat ≤ n ∧
    GF256.exp (t.logtab (GF256.exp j).byte.toNat) = GF256.exp j

theorem exp_succ (n : Nat) : GF256.exp (n + 1) = GF256.double (GF256.exp n) := by
  rw [Nat.add_comm, GF256.exp_add]
  rfl

theorem filled_start : Filled explogStart 0 where
  exptab_eq j hj := by
    rw [Nat.le_zero.1 hj]
    rfl
  logtab_eq j hpos hj := by omega

theorem Filled.step {t : ExpLogTables} {n : Nat} (h : Filled t n) :
    Filled (explogStep t (n + 1)) (n + 1) := by
  have hnext : (explogStep t (n + 1)).exptab (n + 1) = (GF256.exp (n + 1)).byte := by
    simp only [explogStep, Function.update_self, Nat.add_sub_cancel]
    rw [h.exptab_eq n le_rfl, ofNat_next, exp_succ]
  have hlog (i : Nat) : (explogStep t (n + 1)).logtab i =
      if i = (GF256.exp (n + 1)).byte.toNat then n + 1 else t.logtab i := by
    rw [← hnext]
    exact Function.update_apply ..
  refine ⟨fun j hj => ?_, fun j hpos hj => ?_⟩
  · by_cases hlast : j = n + 1
    · rw [hlast, hnext]
    · rw [← h.exptab_eq j (by omega)]
      exact Function.update_of_ne hlast _ _
  · rw [hlog]
    split_ifs with hsame
    · refine ⟨by omega, le_rfl, GF256.ext (BitVec.eq_of_toNat_eq hsame.symm)⟩
    · have hne : j ≠ n + 1 := fun hj' => hsame (by rw [hj'])
      obtain ⟨hlow, hhigh, hexp⟩ := h.logtab_eq j hpos (by omega)
      exact ⟨hlow, by omega, hexp⟩

theorem filled_loop (n : Nat) : Filled ((List.range' 1 n).foldl explogStep explogStart) n := by
  induction n with
  | zero => exact filled_start
  | succ n ih =>
    rw [List.range'_concat, List.foldl_append, Nat.one_mul, Nat.add_comm 1 n]
    exact ih.step

theorem foldl_update (e : Nat → BitVec 8) (value : (Nat → BitVec 8) → Nat → BitVec 8) (start : Nat)
    (hvalue : ∀ e' j, (∀ i, i < start → e' i = e i) → value e' j = value e j) (n i : Nat) :
    ((List.range' start n).foldl (fun e j => Function.update e j (value e j)) e) i =
      if start ≤ i ∧ i < start + n then value e i else e i := by
  induction n generalizing i with
  | zero =>
    rw [if_neg (by omega)]
    rfl
  | succ n ih =>
    rw [List.range'_concat, List.foldl_append, List.foldl_cons, List.foldl_nil, Function.update_apply,
      hvalue _ _ fun j hj => by rw [ih j, if_neg (by omega)], ih i]
    split_ifs with hlast hin hin' <;> first | rfl | omega | skip
    rw [hlast]

theorem exptab_eq {j : Nat} (hj : j ≤ 510) : explogInit.exptab j = (GF256.exp j).byte := by
  have hfilled := filled_loop 254
  have hexp (i : Nat) : GF256.exp i = GF256.exp (i % 255) := by simp [GF256.exp]
  simp only [explogInit]
  rw [foldl_update _ (fun _ _ => 0) _ (fun _ _ _ => rfl), if_neg (by omega), Function.update_apply]
  by_cases hlast : j = 2 * 255
  · rw [if_pos hlast, hlast, hexp]
    rfl
  rw [if_neg hlast, foldl_update _ (fun e jj => e (jj % 255)) _ (fun e' i he => he _ (by omega))]
  by_cases hsecond : 256 ≤ j ∧ j < 256 + 254
  · rw [if_pos hsecond, Function.update_of_ne (by omega), hfilled.exptab_eq _ (by omega), ← hexp]
  rw [if_neg hsecond, Function.update_apply]
  by_cases hwrap : j = 255
  · rw [if_pos hwrap, hfilled.exptab_eq 0 (by omega), hwrap, hexp 255]
  · rw [if_neg hwrap, hfilled.exptab_eq j (by omega)]

theorem logtab_eq {a : GF256} (ha : a ≠ 0) : 1 ≤ explogInit.logtab a.byte.toNat ∧
    explogInit.logtab a.byte.toNat ≤ 255 ∧ GF256.exp (explogInit.logtab a.byte.toNat) = a := by
  have hfilled := filled_loop 254
  have hone : (Function.update ((List.range' 1 254).foldl explogStep explogStart).exptab 255
      (((List.range' 1 254).foldl explogStep explogStart).exptab 0)) 255 = (GF256.exp 0).byte := by
    rw [Function.update_self, hfilled.exptab_eq 0 (by omega)]
  simp only [explogInit]
  rw [hone, Function.update_apply]
  by_cases hlast : a.byte.toNat = (GF256.exp 0).byte.toNat
  · rw [if_pos hlast]
    refine ⟨by decide, le_rfl, ?_⟩
    rw [GF256.ext (BitVec.eq_of_toNat_eq hlast)]
    simp [GF256.exp]
  · have hpos : 1 ≤ GF256.log a := by
      by_contra hzero
      rw [← Nat.lt_one_iff.1 (Nat.lt_of_not_le hzero), GF256.exp_log ha] at hlast
      exact hlast rfl
    have hlt := GF256.log_lt ha
    obtain ⟨hlow, hhigh, hexp⟩ := hfilled.logtab_eq (GF256.log a) hpos (by omega)
    rw [GF256.exp_log ha] at hlow hhigh hexp
    rw [if_neg hlast]
    exact ⟨hlow, by omega, hexp⟩

theorem gf256_mul_eq (x y : BitVec 8) : gf256_mul x y = ((⟨x⟩ : GF256) * ⟨y⟩).byte := by
  have hy : (y.toNat <<< 8 + x.toNat) / 256 = y.toNat := by
    rw [Nat.shiftLeft_eq]
    omega
  have hx : (y.toNat <<< 8 + x.toNat) % 256 = x.toNat := by
    rw [Nat.shiftLeft_eq]
    omega
  have hzero (b : BitVec 8) : b.toNat = 0 ↔ (⟨b⟩ : GF256) = 0 :=
    ⟨fun h => GF256.ext (BitVec.eq_of_toNat_eq h), fun h => by
      rw [show b = 0 from congrArg GF256.byte h]
      rfl⟩
  simp only [gf256_mul, mulTable, hx, hy, hzero]
  by_cases hy0 : (⟨y⟩ : GF256) = 0
  · rw [if_pos hy0, hy0, GF256.mul_zero']
    rfl
  by_cases hx0 : (⟨x⟩ : GF256) = 0
  · rw [if_neg hy0, if_pos hx0, hx0, GF256.zero_mul']
    rfl
  obtain ⟨-, hxle, hxexp⟩ := logtab_eq hx0
  obtain ⟨-, hyle, hyexp⟩ := logtab_eq hy0
  simp only at hxle hxexp hyle hyexp
  rw [if_neg hy0, if_neg hx0, Nat.mod_eq_of_lt (by omega), exptab_eq (by omega),
    ← GF256.exp_mul_exp, hxexp, hyexp]

theorem gf256_mul_zero (x : BitVec 8) : gf256_mul x 0 = 0 := by
  rw [gf256_mul_eq]
  exact congrArg GF256.byte (GF256.mul_zero' ⟨x⟩)

theorem gf256_mul_one (x : BitVec 8) : gf256_mul x 1 = x := by
  rw [gf256_mul_eq]
  exact congrArg GF256.byte (mul_one (⟨x⟩ : GF256))

theorem gf256_mul_xor (x x' y : BitVec 8) :
    gf256_mul (x ^^^ x') y = gf256_mul x y ^^^ gf256_mul x' y := by
  simp only [gf256_mul_eq]
  exact congrArg GF256.byte (GF256.add_mul' ⟨x⟩ ⟨x'⟩ ⟨y⟩)

/-! Vectors of 16 bytes, or of two lanes of 16. -/

def set1Epi8 (n : Nat) (b : BitVec 8) : BitVec (8 * n) := ofBytes (fun _ => b) n

def srliEpi64 {n : Nat} (v : BitVec (8 * n)) (count : Nat) : BitVec (8 * n) :=
  ofBytes (fun k => byte (v.extractLsb' (64 * (k / 8)) 64 >>> count) (k % 8)) n

def shuffleEpi8 {n : Nat} (table index : BitVec (8 * n)) : BitVec (8 * n) :=
  ofBytes (fun k =>
    if (byte index k).msb then 0 else byte table (16 * (k / 16) + (byte index k).toNat % 16)) n

def tableLoY (n : Nat) (y : BitVec 8) : BitVec (8 * n) :=
  let lo := ofBytes (fun x => gf256_mul (BitVec.ofNat 8 x) y) 16
  ofBytes (fun k => byte lo (k % 16)) n

def tableHiY (n : Nat) (y : BitVec 8) : BitVec (8 * n) :=
  let hi := ofBytes (fun x => gf256_mul (BitVec.ofNat 8 (x <<< 4)) y) 16
  ofBytes (fun k => byte hi (k % 16)) n

def clrMask (n : Nat) : BitVec (8 * n) := set1Epi8 n 0x0f

def mulVector {n : Nat} (y : BitVec 8) (x : BitVec (8 * n)) : BitVec (8 * n) :=
  let l0 := x &&& clrMask n
  let x0 := srliEpi64 x 4
  let h0 := x0 &&& clrMask n
  let l0 := shuffleEpi8 (tableLoY n y) l0
  let h0 := shuffleEpi8 (tableHiY n y) h0
  l0 ^^^ h0

section Vector

variable {n k : Nat}

theorem byte_shuffleEpi8 (table index : BitVec (8 * n)) (hk : k < n)
    (hindex : (byte index k).toNat < 16) :
    byte (shuffleEpi8 table index) k = byte table (16 * (k / 16) + (byte index k).toNat) := by
  have hmsb : (byte index k).msb = false := by
    rw [BitVec.msb_eq_false_iff_two_mul_lt]
    omega
  rw [shuffleEpi8, byte_ofBytes _ hk, hmsb, if_neg (by decide), Nat.mod_eq_of_lt hindex]

theorem byte_tableLoY (y : BitVec 8) {i : Nat} (hi : i < 16) (hk : 16 * (k / 16) + i < n) :
    byte (tableLoY n y) (16 * (k / 16) + i) = gf256_mul (BitVec.ofNat 8 i) y := by
  rw [tableLoY, byte_ofBytes _ hk, byte_ofBytes _ (Nat.mod_lt _ (by decide)), Nat.mul_add_mod,
    Nat.mod_eq_of_lt hi]

theorem byte_tableHiY (y : BitVec 8) {i : Nat} (hi : i < 16) (hk : 16 * (k / 16) + i < n) :
    byte (tableHiY n y) (16 * (k / 16) + i) = gf256_mul (BitVec.ofNat 8 (i <<< 4)) y := by
  rw [tableHiY, byte_ofBytes _ hk, byte_ofBytes _ (Nat.mod_lt _ (by decide)), Nat.mul_add_mod,
    Nat.mod_eq_of_lt hi]

theorem byte_clrMask (hk : k < n) : byte (clrMask n) k = 0x0f := byte_ofBytes _ hk

theorem toNat_and_mask (b : BitVec 8) : (b &&& 0x0f).toNat = b.toNat % 16 := by
  rw [BitVec.toNat_and]
  exact Nat.and_two_pow_sub_one_eq_mod b.toNat 4

theorem byte_srliEpi64_and_mask (x : BitVec (8 * n)) (hk : k < n) :
    byte (srliEpi64 x 4) k &&& (0x0f : BitVec 8) = byte x k >>> 4 := by
  have hmask (i : Nat) (hi : i < 8) : (0x0f : BitVec 8).getLsbD i = decide (i < 4) := by
    revert i
    decide
  apply BitVec.eq_of_getLsbD_eq
  intro i hi
  rw [BitVec.getLsbD_and, hmask i hi, srliEpi64, byte_ofBytes _ hk, getLsbD_byte _ _ hi,
    BitVec.getLsbD_ushiftRight, BitVec.getLsbD_extractLsb', BitVec.getLsbD_ushiftRight]
  by_cases hlow : i < 4
  · rw [getLsbD_byte _ _ (by omega), decide_eq_true hlow, Bool.and_true,
      decide_eq_true (by omega : 4 + (8 * (k % 8) + i) < 64), Bool.true_and,
      show 64 * (k / 8) + (4 + (8 * (k % 8) + i)) = 8 * k + (4 + i) by omega]
  · rw [decide_eq_false hlow, Bool.and_false, byte, BitVec.getLsbD_extractLsb',
      decide_eq_false (by omega), Bool.false_and]

theorem nibbles_xor (b : BitVec 8) :
    BitVec.ofNat 8 (b.toNat % 16) ^^^ BitVec.ofNat 8 ((b >>> 4).toNat <<< 4) = b := by
  revert b
  decide +kernel

theorem byte_mulVector (y : BitVec 8) (x : BitVec (8 * n)) (hn : n % 16 = 0) (hk : k < n) :
    byte (mulVector y x) k = gf256_mul (byte x k) y := by
  have hl : byte (x &&& clrMask n) k = byte x k &&& 0x0f := by rw [byte_and, byte_clrMask hk]
  have hh : byte (srliEpi64 x 4 &&& clrMask n) k = byte x k >>> 4 := by
    rw [byte_and, byte_clrMask hk, byte_srliEpi64_and_mask x hk]
  have hlow : (byte (x &&& clrMask n) k).toNat < 16 := by
    rw [hl, toNat_and_mask]
    exact Nat.mod_lt _ (by decide)
  have hhigh : (byte (srliEpi64 x 4 &&& clrMask n) k).toNat < 16 := by
    have := (byte x k).isLt
    rw [hh, BitVec.toNat_ushiftRight, Nat.shiftRight_eq_div_pow]
    omega
  simp only [mulVector]
  rw [byte_xor, byte_shuffleEpi8 _ _ hk hlow, byte_shuffleEpi8 _ _ hk hhigh,
    byte_tableLoY y hlow (by omega), byte_tableHiY y hhigh (by omega), ← gf256_mul_xor, hl, hh,
    toNat_and_mask, nibbles_xor]

end Vector

end Tonk.Gf256
