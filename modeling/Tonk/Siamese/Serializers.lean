import Mathlib.Data.Nat.Bitwise
import Tonk.Protocol.Frame

set_option autoImplicit false

namespace Tonk.Siamese
open Protocol

def siamesePacketNumCount : Nat := 2 ^ 22
def kMaxLossRangeFieldBytes : Nat := 7

def serializeHeaderPacketNum (packetNum : Nat) : Bytes :=
  if packetNum ≤ 0x7f then [UInt8.ofNat packetNum]
  else if packetNum ≤ 0x3fff then
    [UInt8.ofNat (0x80 ||| packetNum >>> 8), UInt8.ofNat packetNum]
  else
    [UInt8.ofNat (0xC0 ||| packetNum >>> 16), UInt8.ofNat (packetNum >>> 8),
      UInt8.ofNat packetNum]

def byteAt (buffer : Bytes) (i : Nat) : Nat := (buffer.getD i 0).toNat

def deserializeHeaderPacketNum (buffer : Bytes) : Option (Nat × Nat) :=
  if buffer.length < 1 then none
  else
    let byteCount := byteAt buffer 0 >>> 6
    if byteCount ≤ 1 then some (byteAt buffer 0, 1)
    else if buffer.length < byteCount then none
    else if byteCount = 2 then
      some ((byteAt buffer 0 <<< 8 ||| byteAt buffer 1) &&& 0x3fff, byteCount)
    else
      some ((byteAt buffer 0 <<< 16 ||| byteAt buffer 1 <<< 8 ||| byteAt buffer 2) &&& 0x3fffff,
        byteCount)

def serializeLossOffset (relativeStart lossCountM1 : Nat) : Bytes :=
  let byte0 := (if lossCountM1 ≤ 2 then lossCountM1 else 3) ||| relativeStart <<< 3
  if 1 <<< 5 ≤ relativeStart then
    let byte1 := relativeStart >>> 5
    if 1 <<< (5 + 7) ≤ relativeStart then
      let byte2 := relativeStart >>> (5 + 7)
      if 1 <<< (5 + 7 + 7) ≤ relativeStart then
        [UInt8.ofNat (byte0 ||| 4), UInt8.ofNat (byte1 ||| 0x80), UInt8.ofNat (byte2 ||| 0x80),
          UInt8.ofNat (relativeStart >>> (5 + 7 + 7))]
      else [UInt8.ofNat (byte0 ||| 4), UInt8.ofNat (byte1 ||| 0x80), UInt8.ofNat byte2]
    else [UInt8.ofNat (byte0 ||| 4), UInt8.ofNat byte1]
  else [UInt8.ofNat byte0]

def serializeLossCount (n : Nat) : Bytes :=
  if 1 <<< 7 ≤ n then
    if 1 <<< (7 + 7) ≤ n then
      [UInt8.ofNat (n ||| 0x80), UInt8.ofNat (n >>> 7 ||| 0x80), UInt8.ofNat (n >>> (7 + 7))]
    else [UInt8.ofNat (n ||| 0x80), UInt8.ofNat (n >>> 7)]
  else [UInt8.ofNat n]

def serializeHeaderNACKLossRange (relativeStart lossCountM1 : Nat) : Bytes :=
  serializeLossOffset relativeStart lossCountM1 ++
    if 3 ≤ lossCountM1 then serializeLossCount (lossCountM1 - 3) else []

def deserializeLossOffset (buffer : Bytes) : Nat × Nat :=
  let relativeStart := byteAt buffer 0 >>> 3
  if byteAt buffer 0 &&& 4 ≠ 0 then
    let relativeStart := relativeStart ||| (byteAt buffer 1 &&& 0x7f) <<< 5
    if byteAt buffer 1 &&& 0x80 ≠ 0 then
      let relativeStart := relativeStart ||| (byteAt buffer 2 &&& 0x7f) <<< (5 + 7)
      if byteAt buffer 2 &&& 0x80 ≠ 0 then (relativeStart ||| byteAt buffer 3 <<< (5 + 7 + 7), 4)
      else (relativeStart, 3)
    else (relativeStart, 2)
  else (relativeStart, 1)

def deserializeLossCount (buffer : Bytes) : Nat × Nat :=
  let lossCountM1 := byteAt buffer 0 &&& 0x7f
  if byteAt buffer 0 &&& 0x80 ≠ 0 then
    let lossCountM1 := lossCountM1 + (byteAt buffer 1 &&& 0x7f) <<< 7
    if byteAt buffer 1 &&& 0x80 ≠ 0 then (lossCountM1 + byteAt buffer 2 <<< (7 + 7), 3)
    else (lossCountM1, 2)
  else (lossCountM1, 1)

structure LossRange where
  relativeStart : Nat
  lossCountM1 : Nat
  bytes : Nat
  deriving DecidableEq, Repr

def deserializeHeaderNACKLossRange (buffer : Bytes) : Option LossRange :=
  if buffer.length < kMaxLossRangeFieldBytes then none
  else
    let lossCountM1 := byteAt buffer 0 &&& 3
    let (relativeStart, byteCount) := deserializeLossOffset buffer
    if lossCountM1 = 3 then
      let (more, countBytes) := deserializeLossCount (buffer.drop byteCount)
      some ⟨relativeStart, lossCountM1 + more, byteCount + countBytes⟩
    else some ⟨relativeStart, lossCountM1, byteCount⟩

section Bytes

theorem and_three (x : Nat) : x &&& 3 = x % 4 := Nat.and_two_pow_sub_one_eq_mod x 2
theorem and_0x7f (x : Nat) : x &&& 0x7f = x % 128 := Nat.and_two_pow_sub_one_eq_mod x 7
theorem and_0x3fff (x : Nat) : x &&& 0x3fff = x % 2 ^ 14 := Nat.and_two_pow_sub_one_eq_mod x 14
theorem and_0x3fffff (x : Nat) : x &&& 0x3fffff = x % 2 ^ 22 :=
  Nat.and_two_pow_sub_one_eq_mod x 22

theorem or_shiftLeft {a k : Nat} (h : a < 2 ^ k) (b : Nat) : a ||| b <<< k = a + b * 2 ^ k := by
  rw [Nat.or_comm, ← Nat.shiftLeft_add_eq_or_of_lt h, Nat.shiftLeft_eq, Nat.add_comm]

theorem shiftLeft_or {a k : Nat} (h : a < 2 ^ k) (b : Nat) : b <<< k ||| a = a + b * 2 ^ k := by
  rw [Nat.or_comm, or_shiftLeft h]

theorem and_two_pow_ne_zero (x k : Nat) : x &&& 2 ^ k ≠ 0 ↔ 2 ^ k ≤ x % 2 ^ (k + 1) := by
  rw [Nat.and_two_pow]
  have hbit : x.testBit k = decide (2 ^ k ≤ x % 2 ^ (k + 1)) := by
    rw [Nat.testBit_eq_decide_div_mod_eq]
    have hpos : 0 < 2 ^ k := Nat.two_pow_pos k
    rw [pow_succ, Nat.mod_mul]
    have hlt := Nat.mod_lt x hpos
    rcases Nat.mod_two_eq_zero_or_one (x / 2 ^ k) with h | h
    · simp [h, hlt]
    · simp [h]
  rw [hbit]
  by_cases h : 2 ^ k ≤ x % 2 ^ (k + 1) <;> simp [h]

theorem and_four (x : Nat) : x &&& 4 ≠ 0 ↔ 4 ≤ x % 8 := and_two_pow_ne_zero x 2
theorem and_0x80 (x : Nat) : x &&& 0x80 ≠ 0 ↔ 128 ≤ x % 256 := and_two_pow_ne_zero x 7

theorem and_0x80_eq_zero {x : Nat} (h : x % 256 < 128) : x &&& 0x80 = 0 := by
  by_contra hc
  have := (and_0x80 x).mp hc
  omega

theorem or_0x80 (x : Nat) : (x ||| 0x80) % 256 = x % 128 + 128 := by
  have h : (x ||| 0x80) % 2 ^ 8 = x % 2 ^ 8 ||| 0x80 % 2 ^ 8 := Nat.or_mod_two_pow
  have hall : ∀ b < 256, b ||| 0x80 = b % 128 + 128 := by decide +kernel
  have hb := hall (x % 2 ^ 8) (Nat.mod_lt _ (by decide))
  have : (0x80 % 2 ^ 8 : Nat) = 0x80 := rfl
  rw [this] at h
  omega

theorem or_four (x : Nat) (hx : x % 8 < 4) : (x ||| 4) % 256 = x % 256 + 4 := by
  have h : (x ||| 4) % 2 ^ 8 = x % 2 ^ 8 ||| 4 % 2 ^ 8 := Nat.or_mod_two_pow
  have hall : ∀ b < 256, b % 8 < 4 → b ||| 4 = b + 4 := by decide +kernel
  have hb := hall (x % 2 ^ 8) (Nat.mod_lt _ (by decide)) (by omega)
  have : (4 % 2 ^ 8 : Nat) = 4 := rfl
  rw [this] at h
  omega

@[simp] theorem byteAt_cons_zero (b : UInt8) (bs : Bytes) : byteAt (b :: bs) 0 = b.toNat := rfl

@[simp] theorem byteAt_cons_succ (b : UInt8) (bs : Bytes) (i : Nat) :
    byteAt (b :: bs) (i + 1) = byteAt bs i := rfl

@[simp] theorem byteAt_cons_one (b : UInt8) (bs : Bytes) : byteAt (b :: bs) 1 = byteAt bs 0 := rfl
@[simp] theorem byteAt_cons_two (b : UInt8) (bs : Bytes) : byteAt (b :: bs) 2 = byteAt bs 1 := rfl
@[simp] theorem byteAt_cons_three (b : UInt8) (bs : Bytes) : byteAt (b :: bs) 3 = byteAt bs 2 :=
  rfl

theorem toNat_ofNat (x : Nat) : (UInt8.ofNat x).toNat = x % 256 := by simp

end Bytes

theorem deserializeHeaderPacketNum_serialize {packetNum : Nat}
    (h : packetNum < siamesePacketNumCount) (rest : Bytes) :
    deserializeHeaderPacketNum (serializeHeaderPacketNum packetNum ++ rest) =
      some (packetNum, (serializeHeaderPacketNum packetNum).length) := by
  have hcount : siamesePacketNumCount = 2 ^ 22 := rfl
  have hlast := toNat_ofNat packetNum
  unfold serializeHeaderPacketNum
  generalize UInt8.ofNat packetNum = last at hlast
  split
  · have hlow : last.toNat >>> 6 ≤ 1 := by
      rw [Nat.shiftRight_eq_div_pow]
      omega
    have hnum : last.toNat = packetNum := by omega
    rw [hnum] at hlow
    simp [deserializeHeaderPacketNum, hnum, hlow]
  · split
    · have hb₀ : (UInt8.ofNat (0x80 ||| packetNum >>> 8)).toNat = packetNum / 256 + 128 := by
        rw [toNat_ofNat, Nat.or_comm, or_0x80, Nat.shiftRight_eq_div_pow]
        omega
      generalize UInt8.ofNat (0x80 ||| packetNum >>> 8) = b₀ at hb₀
      have hcnt : b₀.toNat >>> 6 = 2 := by
        rw [hb₀, Nat.shiftRight_eq_div_pow]
        omega
      have hnum : (b₀.toNat <<< 8 ||| last.toNat) &&& 0x3fff = packetNum := by
        rw [shiftLeft_or (by omega), and_0x3fff]
        omega
      simp [deserializeHeaderPacketNum, hcnt, hnum]
    · have hb₀ : (UInt8.ofNat (0xC0 ||| packetNum >>> 16)).toNat = packetNum / 2 ^ 16 + 192 := by
        have hlt : packetNum >>> 16 < 2 ^ 6 := by
          rw [Nat.shiftRight_eq_div_pow]
          omega
        have hor : 0xC0 ||| packetNum >>> 16 = packetNum >>> 16 + 3 * 2 ^ 6 := shiftLeft_or hlt 3
        rw [toNat_ofNat, hor, Nat.shiftRight_eq_div_pow]
        omega
      have hb₁ : (UInt8.ofNat (packetNum >>> 8)).toNat = packetNum / 256 % 256 := by
        rw [toNat_ofNat, Nat.shiftRight_eq_div_pow]
      generalize UInt8.ofNat (0xC0 ||| packetNum >>> 16) = b₀ at hb₀
      generalize UInt8.ofNat (packetNum >>> 8) = b₁ at hb₁
      have hcnt : b₀.toNat >>> 6 = 3 := by
        rw [hb₀, Nat.shiftRight_eq_div_pow]
        omega
      have hnum : (b₀.toNat <<< 16 ||| b₁.toNat <<< 8 ||| last.toNat) &&& 0x3fffff =
          packetNum := by
        have hlow := shiftLeft_or (k := 8) (show last.toNat < 2 ^ 8 by omega) b₁.toNat
        rw [Nat.or_assoc, hlow, shiftLeft_or (by omega), and_0x3fffff]
        omega
      simp [deserializeHeaderPacketNum, hcnt, hnum]

theorem deserializeLossOffset_serialize {relativeStart : Nat} (lossCountM1 : Nat)
    (h : relativeStart < siamesePacketNumCount) (rest : Bytes) :
    deserializeLossOffset (serializeLossOffset relativeStart lossCountM1 ++ rest) =
      (relativeStart, (serializeLossOffset relativeStart lossCountM1).length) ∧
    byteAt (serializeLossOffset relativeStart lossCountM1 ++ rest) 0 &&& 3 =
      min lossCountM1 3 := by
  have hcount : siamesePacketNumCount = 2 ^ 22 := rfl
  have hmin : (if lossCountM1 ≤ 2 then lossCountM1 else 3) = min lossCountM1 3 := by
    split <;> omega
  have hbyte₀ : min lossCountM1 3 ||| relativeStart <<< 3 =
      min lossCountM1 3 + relativeStart * 2 ^ 3 := or_shiftLeft (by omega) _
  have hlast₁ : (UInt8.ofNat (relativeStart >>> 5)).toNat = relativeStart / 2 ^ 5 % 256 := by
    rw [toNat_ofNat, Nat.shiftRight_eq_div_pow]
  have hlast₂ : (UInt8.ofNat (relativeStart >>> (5 + 7))).toNat =
      relativeStart / 2 ^ 12 % 256 := by
    rw [toNat_ofNat, Nat.shiftRight_eq_div_pow]
  have hlast₃ : (UInt8.ofNat (relativeStart >>> (5 + 7 + 7))).toNat =
      relativeStart / 2 ^ 19 % 256 := by
    rw [toNat_ofNat, Nat.shiftRight_eq_div_pow]
  have hfirst : (UInt8.ofNat (min lossCountM1 3 + relativeStart * 2 ^ 3 ||| 4)).toNat =
      (min lossCountM1 3 + relativeStart * 2 ^ 3) % 256 + 4 := by
    rw [toNat_ofNat, or_four _ (by omega)]
  have hmore₁ : (UInt8.ofNat (relativeStart >>> 5 ||| 0x80)).toNat =
      relativeStart / 2 ^ 5 % 128 + 128 := by
    rw [toNat_ofNat, or_0x80, Nat.shiftRight_eq_div_pow]
  have hmore₂ : (UInt8.ofNat (relativeStart >>> (5 + 7) ||| 0x80)).toNat =
      relativeStart / 2 ^ 12 % 128 + 128 := by
    rw [toNat_ofNat, or_0x80, Nat.shiftRight_eq_div_pow]
  unfold serializeLossOffset
  rw [hmin, hbyte₀]
  simp only
  generalize UInt8.ofNat (min lossCountM1 3 + relativeStart * 2 ^ 3 ||| 4) = b₀ at hfirst ⊢
  generalize UInt8.ofNat (relativeStart >>> 5 ||| 0x80) = b₁ at hmore₁ ⊢
  generalize UInt8.ofNat (relativeStart >>> (5 + 7) ||| 0x80) = b₂ at hmore₂ ⊢
  generalize UInt8.ofNat (relativeStart >>> 5) = e₁ at hlast₁ ⊢
  generalize UInt8.ofNat (relativeStart >>> (5 + 7)) = e₂ at hlast₂ ⊢
  generalize UInt8.ofNat (relativeStart >>> (5 + 7 + 7)) = e₃ at hlast₃ ⊢
  split
  · have h₀ : b₀.toNat &&& 4 ≠ 0 := (and_four _).mpr (by omega)
    have hthree : b₀.toNat &&& 3 = min lossCountM1 3 := by rw [and_three]; omega
    have hlow : b₀.toNat >>> 3 = relativeStart % 2 ^ 5 := by
      rw [Nat.shiftRight_eq_div_pow]
      omega
    split
    · have h₁ : b₁.toNat &&& 0x80 ≠ 0 := (and_0x80 _).mpr (by omega)
      have hmid : b₀.toNat >>> 3 ||| (b₁.toNat &&& 0x7f) <<< 5 = relativeStart % 2 ^ 12 := by
        rw [hlow, or_shiftLeft (by omega), and_0x7f]
        omega
      split
      · have h₂ : b₂.toNat &&& 0x80 ≠ 0 := (and_0x80 _).mpr (by omega)
        have hall : relativeStart % 2 ^ 12 ||| (b₂.toNat &&& 0x7f) <<< (5 + 7) |||
            e₃.toNat <<< (5 + 7 + 7) = relativeStart := by
          rw [and_0x7f, or_shiftLeft (k := 5 + 7) (by omega), or_shiftLeft (by omega)]
          omega
        refine ⟨?_, hthree⟩
        simpa [deserializeLossOffset, h₀, h₁, h₂, hmid] using hall
      · have h₂ : e₂.toNat &&& 0x80 = 0 := and_0x80_eq_zero (by omega)
        have hall : relativeStart % 2 ^ 12 ||| (e₂.toNat &&& 0x7f) <<< (5 + 7) =
            relativeStart := by
          rw [or_shiftLeft (by omega), and_0x7f]
          omega
        refine ⟨?_, hthree⟩
        simpa [deserializeLossOffset, h₀, h₁, h₂, hmid] using hall
    · have h₁ : e₁.toNat &&& 0x80 = 0 := and_0x80_eq_zero (by omega)
      have hall : b₀.toNat >>> 3 ||| (e₁.toNat &&& 0x7f) <<< 5 = relativeStart := by
        rw [hlow, or_shiftLeft (by omega), and_0x7f]
        omega
      refine ⟨?_, hthree⟩
      simp [deserializeLossOffset, h₀, h₁, hall]
  · have hone : (UInt8.ofNat (min lossCountM1 3 + relativeStart * 2 ^ 3)).toNat =
        min lossCountM1 3 + relativeStart * 2 ^ 3 := by
      rw [toNat_ofNat]
      omega
    generalize UInt8.ofNat (min lossCountM1 3 + relativeStart * 2 ^ 3) = e₀ at hone ⊢
    have h₀ : e₀.toNat &&& 4 = 0 := by
      by_contra hc
      have := (and_four _).mp hc
      omega
    have hall : e₀.toNat >>> 3 = relativeStart := by
      rw [Nat.shiftRight_eq_div_pow]
      omega
    refine ⟨?_, by rw [List.cons_append, byteAt_cons_zero, and_three]; omega⟩
    simp [deserializeLossOffset, h₀, hall]

theorem deserializeLossCount_serialize {n : Nat} (h : n < siamesePacketNumCount) (rest : Bytes) :
    deserializeLossCount (serializeLossCount n ++ rest) = (n, (serializeLossCount n).length) := by
  have hcount : siamesePacketNumCount = 2 ^ 22 := rfl
  have hlast₁ : (UInt8.ofNat n).toNat = n % 256 := toNat_ofNat n
  have hlast₂ : (UInt8.ofNat (n >>> 7)).toNat = n / 2 ^ 7 % 256 := by
    rw [toNat_ofNat, Nat.shiftRight_eq_div_pow]
  have hlast₃ : (UInt8.ofNat (n >>> (7 + 7))).toNat = n / 2 ^ 14 % 256 := by
    rw [toNat_ofNat, Nat.shiftRight_eq_div_pow]
  have hmore₁ : (UInt8.ofNat (n ||| 0x80)).toNat = n % 128 + 128 := by
    rw [toNat_ofNat, or_0x80]
  have hmore₂ : (UInt8.ofNat (n >>> 7 ||| 0x80)).toNat = n / 2 ^ 7 % 128 + 128 := by
    rw [toNat_ofNat, or_0x80, Nat.shiftRight_eq_div_pow]
  unfold serializeLossCount
  generalize UInt8.ofNat (n ||| 0x80) = b₁ at hmore₁ ⊢
  generalize UInt8.ofNat (n >>> 7 ||| 0x80) = b₂ at hmore₂ ⊢
  generalize UInt8.ofNat n = e₁ at hlast₁ ⊢
  generalize UInt8.ofNat (n >>> 7) = e₂ at hlast₂ ⊢
  generalize UInt8.ofNat (n >>> (7 + 7)) = e₃ at hlast₃ ⊢
  split
  · have h₁ : b₁.toNat &&& 0x80 ≠ 0 := (and_0x80 _).mpr (by omega)
    split
    · have h₂ : b₂.toNat &&& 0x80 ≠ 0 := (and_0x80 _).mpr (by omega)
      have hall : (b₁.toNat &&& 0x7f) + (b₂.toNat &&& 0x7f) <<< 7 + e₃.toNat <<< (7 + 7) = n := by
        rw [and_0x7f, and_0x7f, Nat.shiftLeft_eq, Nat.shiftLeft_eq]
        omega
      simp [deserializeLossCount, h₁, h₂, hall]
    · have h₂ : e₂.toNat &&& 0x80 = 0 := and_0x80_eq_zero (by omega)
      have hall : (b₁.toNat &&& 0x7f) + (e₂.toNat &&& 0x7f) <<< 7 = n := by
        rw [and_0x7f, and_0x7f, Nat.shiftLeft_eq]
        omega
      simp [deserializeLossCount, h₁, h₂, hall]
  · have h₁ : e₁.toNat &&& 0x80 = 0 := and_0x80_eq_zero (by omega)
    have hall : e₁.toNat &&& 0x7f = n := by
      rw [and_0x7f]
      omega
    simp [deserializeLossCount, h₁, hall]

/-- A loss range is read back as it was written, whatever follows it, as long as there is enough
to pass for the longest range. -/
theorem deserializeHeaderNACKLossRange_serialize {relativeStart lossCountM1 : Nat}
    (hs : relativeStart < siamesePacketNumCount) (hc : lossCountM1 < siamesePacketNumCount)
    {rest : Bytes} (hrest : kMaxLossRangeFieldBytes ≤
      (serializeHeaderNACKLossRange relativeStart lossCountM1).length + rest.length) :
    deserializeHeaderNACKLossRange (serializeHeaderNACKLossRange relativeStart lossCountM1 ++ rest)
      = some ⟨relativeStart, lossCountM1,
        (serializeHeaderNACKLossRange relativeStart lossCountM1).length⟩ := by
  have hlen : ¬ (serializeHeaderNACKLossRange relativeStart lossCountM1 ++ rest).length <
      kMaxLossRangeFieldBytes := by
    rw [List.length_append]
    omega
  unfold deserializeHeaderNACKLossRange
  rw [if_neg hlen]
  unfold serializeHeaderNACKLossRange
  split
  · rw [List.append_assoc]
    obtain ⟨hoff, hflag⟩ := deserializeLossOffset_serialize lossCountM1 hs
      (serializeLossCount (lossCountM1 - 3) ++ rest)
    have hcnt := deserializeLossCount_serialize (n := lossCountM1 - 3) (by omega) rest
    rw [hoff, hflag]
    simp only [List.drop_left, hcnt]
    rw [if_pos (by omega), List.length_append]
    congr 2
    omega
  · rw [List.append_nil]
    obtain ⟨hoff, hflag⟩ := deserializeLossOffset_serialize lossCountM1 hs rest
    rw [hoff, hflag]
    simp only
    rw [if_neg (by omega)]
    congr 2
    omega

theorem serializeHeaderNACKLossRange_pos (relativeStart lossCountM1 : Nat) :
    0 < (serializeHeaderNACKLossRange relativeStart lossCountM1).length := by
  simp only [serializeHeaderNACKLossRange, serializeLossOffset, List.length_append]
  repeat' split
  all_goals simp

end Tonk.Siamese
