import Tonk.Siamese.Buffers

set_option autoImplicit false

namespace Tonk.Siamese
open Finset

def kColumnSumCount : Nat := 3

def getNextLaneElement (element laneIndex : Nat) : Nat :=
  let nextElement := element - element % kColumnLaneCount + laneIndex
  if nextElement < element then nextElement + kColumnLaneCount else nextElement

def turns (element elementEnd : Nat) : Nat :=
  (elementEnd - element + (kColumnLaneCount - 1)) / kColumnLaneCount

def accumulate (sumIndex : Nat) (sum : DataBuffer) (original : OriginalPacket) : DataBuffer :=
  let sum := sum.growZeroPadded original.buffer.length
  if sumIndex = 0 then sum.addMem original.buffer
  else
    let cx := getColumnValue original.column
    let cx := if sumIndex = 2 then cx * cx else cx
    sum.mulAddMem cx original.buffer

theorem turns_spec {element elementEnd : Nat} (h : element < elementEnd) :
    elementEnd ≤ element + turns element elementEnd * kColumnLaneCount ∧
      element + turns element elementEnd * kColumnLaneCount < elementEnd + kColumnLaneCount := by
  simp only [turns, kColumnLaneCount]
  omega

theorem getNextLaneElement_spec (element : Nat) {laneIndex : Nat}
    (hlane : laneIndex < kColumnLaneCount) :
    element ≤ getNextLaneElement element laneIndex ∧
      getNextLaneElement element laneIndex < element + kColumnLaneCount ∧
      getNextLaneElement element laneIndex % kColumnLaneCount = laneIndex := by
  unfold getNextLaneElement
  simp only
  split
  · next hless =>
    simp only [kColumnLaneCount] at hlane hless ⊢
    omega
  · next hnot =>
    simp only [kColumnLaneCount] at hlane hnot ⊢
    omega

theorem accumulate_padded {sumIndex : Nat} (hsum : sumIndex < kColumnSumCount) (sum : DataBuffer)
    (original : OriginalPacket) : (accumulate sumIndex sum original).padded =
      sum.padded + getColumnValue original.column ^ sumIndex • original.buffer.padded := by
  have hgrown : original.buffer.length ≤ (sum.growZeroPadded original.buffer.length).length := by
    rw [DataBuffer.length_growZeroPadded]
    exact Nat.le_max_right _ _
  unfold accumulate
  match sumIndex, hsum with
  | 0, _ =>
    rw [if_pos rfl, ← DataBuffer.mulAddMem_one, DataBuffer.padded_mulAddMem 1 hgrown,
      DataBuffer.padded_growZeroPadded, pow_zero]
  | 1, _ =>
    simp only [Nat.one_ne_zero, if_false, OfNat.one_ne_ofNat, pow_one]
    rw [DataBuffer.padded_mulAddMem _ hgrown, DataBuffer.padded_growZeroPadded]
  | 2, _ =>
    simp only [OfNat.ofNat_ne_zero, if_false, if_true, pow_two]
    rw [DataBuffer.padded_mulAddMem _ hgrown, DataBuffer.padded_growZeroPadded]

theorem accumulate_ne_nil (sumIndex : Nat) (sum : DataBuffer) {original : OriginalPacket}
    (h : original.buffer ≠ []) : accumulate sumIndex sum original ≠ [] := by
  have hpos : 0 < (sum.growZeroPadded original.buffer.length).length := by
    rw [DataBuffer.length_growZeroPadded]
    have := List.length_pos_iff.mpr h
    omega
  intro hnil
  have hlength := congrArg List.length hnil
  unfold accumulate at hlength
  simp only at hlength
  split at hlength
  · rw [← DataBuffer.mulAddMem_one, DataBuffer.length_mulAddMem, List.length_nil] at hlength
    omega
  · rw [DataBuffer.length_mulAddMem, List.length_nil] at hlength
    omega

/-- What a packet adds to a sum; one that is not there adds nothing. -/
def summand (contents : Nat → Option DataBuffer) (sumIndex n : Nat) : Nat → GF256 :=
  getColumnValue (columnOf n) ^ sumIndex • (contents n).elim 0 DataBuffer.padded

/-- The sum over the packets of a lane from `start` up to `stop`, each with a power of the value of
its column. -/
def laneSum (contents : Nat → Option DataBuffer) (laneIndex sumIndex start stop : Nat) :
    Nat → GF256 :=
  ∑ n ∈ Ico start stop with n % kColumnLaneCount = laneIndex, summand contents sumIndex n

section LaneSum

variable {contents contents' : Nat → Option DataBuffer} {laneIndex start stop stop' : Nat}

theorem laneSum_self (contents : Nat → Option DataBuffer) (laneIndex sumIndex start : Nat) :
    laneSum contents laneIndex sumIndex start start = 0 := by
  simp [laneSum]

theorem laneSum_stop (sumIndex : Nat)
    (h : ∀ n, start ≤ n → n % kColumnLaneCount = laneIndex → (n < stop ↔ n < stop')) :
    laneSum contents laneIndex sumIndex start stop =
      laneSum contents laneIndex sumIndex start stop' := by
  refine sum_congr (Finset.ext fun n => ?_) fun _ _ => rfl
  simp only [mem_filter, mem_Ico]
  constructor
  · rintro ⟨⟨hstart, hstop⟩, hlane⟩
    exact ⟨⟨hstart, (h n hstart hlane).mp hstop⟩, hlane⟩
  · rintro ⟨⟨hstart, hstop⟩, hlane⟩
    exact ⟨⟨hstart, (h n hstart hlane).mpr hstop⟩, hlane⟩

theorem laneSum_start {start' : Nat} (sumIndex : Nat)
    (h : ∀ n, n % kColumnLaneCount = laneIndex → (start ≤ n ↔ start' ≤ n)) :
    laneSum contents laneIndex sumIndex start stop =
      laneSum contents laneIndex sumIndex start' stop := by
  refine sum_congr (Finset.ext fun n => ?_) fun _ _ => rfl
  simp only [mem_filter, mem_Ico]
  constructor
  · rintro ⟨⟨hstart, hstop⟩, hlane⟩
    exact ⟨⟨(h n hlane).mp hstart, hstop⟩, hlane⟩
  · rintro ⟨⟨hstart, hstop⟩, hlane⟩
    exact ⟨⟨(h n hlane).mpr hstart, hstop⟩, hlane⟩

theorem laneSum_eq_zero (contents : Nat → Option DataBuffer) (sumIndex : Nat)
    (h : ∀ n, start ≤ n → n % kColumnLaneCount = laneIndex → stop ≤ n) :
    laneSum contents laneIndex sumIndex start stop = 0 := by
  rw [← laneSum_self contents laneIndex sumIndex start]
  refine laneSum_stop sumIndex fun n hn hlane => ?_
  have hle := h n hn hlane
  omega

theorem laneSum_next {n : Nat} (sumIndex : Nat) (hstart : start ≤ n)
    (hlane : n % kColumnLaneCount = laneIndex) :
    laneSum contents laneIndex sumIndex start (n + kColumnLaneCount) =
      laneSum contents laneIndex sumIndex start n + summand contents sumIndex n := by
  have hinsert : {k ∈ Ico start (n + kColumnLaneCount) | k % kColumnLaneCount = laneIndex} =
      insert n {k ∈ Ico start n | k % kColumnLaneCount = laneIndex} := by
    ext k
    simp only [mem_filter, mem_Ico, mem_insert]
    simp only [kColumnLaneCount] at hlane ⊢
    omega
  rw [laneSum, hinsert, sum_insert (by simp), add_comm]
  rfl

theorem laneSum_congr (sumIndex : Nat) (h : ∀ n, start ≤ n → n < stop →
    n % kColumnLaneCount = laneIndex → contents n = contents' n) :
    laneSum contents laneIndex sumIndex start stop =
      laneSum contents' laneIndex sumIndex start stop := by
  refine sum_congr rfl fun n hn => ?_
  simp only [mem_filter, mem_Ico] at hn
  rw [summand, h n hn.1.1 hn.1.2 hn.2]
  rfl

theorem laneSum_fill {n : Nat} (sumIndex : Nat) (hnone : contents n = none)
    (hsame : ∀ k, k ≠ n → contents' k = contents k) (hstart : start ≤ n) (hstop : n < stop)
    (hlane : n % kColumnLaneCount = laneIndex) :
    laneSum contents' laneIndex sumIndex start stop =
      laneSum contents laneIndex sumIndex start stop + summand contents' sumIndex n := by
  have hmem : n ∈ {k ∈ Ico start stop | k % kColumnLaneCount = laneIndex} := by
    simp only [mem_filter, mem_Ico]
    exact ⟨⟨hstart, hstop⟩, hlane⟩
  have hzero : summand contents sumIndex n = 0 := by
    rw [summand, hnone]
    exact smul_zero _
  rw [laneSum, laneSum, ← add_sum_erase _ _ hmem, ← add_sum_erase _ (summand contents sumIndex) hmem,
    hzero, zero_add, add_comm]
  congr 1
  refine sum_congr rfl fun k hk => ?_
  rw [summand, hsame k (ne_of_mem_erase hk)]
  rfl

end LaneSum
end Tonk.Siamese
