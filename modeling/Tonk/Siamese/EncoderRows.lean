import Tonk.Siamese.CauchyRows
import Tonk.Siamese.EncoderRuns

set_option autoImplicit false

namespace Tonk.Siamese
open Protocol Transition Finset

def lightCoefficient (metadata : RecoveryMetadata) (packetEnd : Nat) :
    Nat → PCGRandom → Nat → GF256
  | 0, _, _ => 0
  | k + 1, prng, n =>
    let (random1, prng) := prng.next
    let (randomRX, prng) := prng.next
    (if n = packetEnd - metadata.ldpcCount + random1.toNat % metadata.ldpcCount then 1 else 0) +
      (if n = packetEnd - metadata.ldpcCount + randomRX.toNat % metadata.ldpcCount then
        getRowValue metadata.row else 0) +
      lightCoefficient metadata packetEnd k prng n

/-- The coefficient of the packet with the number `n` in a recovery packet that was made when
`packetEnd` packets had been added. -/
def coefficient (metadata : RecoveryMetadata) (packetEnd n : Nat) : GF256 :=
  rowValue metadata (columnOf n) + lightCoefficient metadata packetEnd (lightPairs metadata)
    (.seed (.ofNat metadata.row) (.ofNat metadata.ldpcCount)) n

/-- The bytes of a recovery packet are those of the packets of its range, each times its
coefficient. None of the packets that were not removed is longer, a parity or Cauchy packet is of
these alone, and a packet by itself is in row 0. -/
structure Combines (metadata : RecoveryMetadata) (recovery : DataBuffer) (packets : List Bytes) :
    Prop where
  endsAt : metadata.EndsAt packets.length
  few_eq : metadata.sumCount ≤ siameseCauchyThreshold → metadata.ldpcCount = metadata.sumCount
  single_row : metadata.sumCount = 1 → metadata.row = 0
  byte_eq : ∀ i < recovery.length, recovery.padded i =
    ∑ n ∈ Ico (packets.length - metadata.sumCount) packets.length,
      coefficient metadata packets.length n * (packetOf packets n).buffer.padded i
  fits : ∀ n, packets.length - metadata.ldpcCount ≤ n → n < packets.length →
    (packetOf packets n).buffer.length ≤ recovery.length

theorem foldl_max_le_iff {ι : Type} (size : ι → Nat) (elements : List ι) (start bound : Nat) :
    elements.foldl (fun longest e => max longest (size e)) start ≤ bound ↔
      start ≤ bound ∧ ∀ e ∈ elements, size e ≤ bound := by
  induction elements generalizing start with
  | nil => simp
  | cons e rest ih => simp [ih, and_assoc]

def denseValue (row laneIndex bit : Nat) : GF256 :=
  if (getRowOpcode laneIndex row).testBit bit then
    if bit < kColumnSumCount then 1 else getRowValue row
  else 0

theorem sumValue_eq (row column : Nat) : sumValue row column =
    ∑ bit ∈ range (2 * kColumnSumCount), denseValue row (column % kColumnLaneCount) bit *
      getColumnValue column ^ (bit % kColumnSumCount) := by
  simp only [sumValue, denseValue, kColumnSumCount, sum_range_succ, sum_range_zero, ite_mul,
    zero_mul, zero_add]
  norm_num [pow_two, mul_comm]

namespace DataBuffer

theorem padded_addMem {zs xs : DataBuffer} (h : xs.length ≤ zs.length) :
    (addMem zs xs).padded = zs.padded + xs.padded := by
  rw [← mulAddMem_one, padded_mulAddMem 1 h, one_smul]

@[simp] theorem length_addMem (zs xs : DataBuffer) : (addMem zs xs).length = zs.length := by
  rw [← mulAddMem_one, length_mulAddMem]

theorem padded_take (buffer : DataBuffer) {n i : Nat} (hi : i < n) :
    padded (buffer.take n) i = buffer.padded i := by
  simp only [padded, List.getD_eq_getElem?_getD, List.getElem?_take, if_pos hi]

theorem padded_replicate_zero (n : Nat) : padded (List.replicate n 0) = 0 := by
  funext i
  simp only [padded, List.getD_eq_getElem?_getD, List.getElem?_replicate, Pi.zero_apply]
  split <;> rfl

theorem padded_map_mul (y : GF256) (buffer : DataBuffer) :
    padded (buffer.map (· * y)) = y • buffer.padded := by
  funext i
  simp only [padded, List.getD_eq_getElem?_getD, List.getElem?_map, Pi.smul_apply, smul_eq_mul]
  cases buffer[i]? with
  | none => simp
  | some x => simp [mul_comm]

end DataBuffer

/-! The sums of a lane go into the packet or into the product. -/

namespace EncoderData

theorem getSum_longestPacket (d : EncoderData) (laneIndex sumIndex elementEnd : Nat) :
    (d.getSum laneIndex sumIndex elementEnd).1.longestPacket = d.longestPacket := by
  unfold getSum
  simp only
  split <;> rfl

theorem SumsFrom.getSum_all {d : EncoderData} {packets : List Bytes} {base first start : Nat}
    (h : d.SumsFrom packets base first start) (hholds : d.Holds packets base first)
    (hpos : 0 < d.window.count) {laneIndex sumIndex : Nat} (hlane : laneIndex < kColumnLaneCount)
    (hsum : sumIndex < kColumnSumCount) :
    (d.getSum laneIndex sumIndex d.window.count).2.padded =
      naiveSum packets laneIndex sumIndex start packets.length := by
  have hcount := hholds.count_eq hpos
  have hmod := hholds.base_mod
  have hold := h.next_lt (.inl hpos) laneIndex hlane sumIndex hsum
  obtain ⟨hlane', -, hpadded⟩ :=
    (h.sums laneIndex hlane sumIndex hsum).getSum hholds h.first_le hsum (Nat.le_refl _)
  have hnext := d.getSum_next laneIndex sumIndex d.window.count
  rw [hpadded]
  refine laneSum_stop _ fun n _ hn => ?_
  simp only [kColumnLaneCount] at *
  omega

end EncoderData

def contentsOf (packets : List Bytes) (n : Nat) : Option DataBuffer :=
  some (packetOf packets n).buffer

def denseLane (contents : Nat → Option DataBuffer) (row start stop laneIndex i : Nat) : GF256 :=
  ∑ bit ∈ range (2 * kColumnSumCount), denseValue row laneIndex bit *
    laneSum contents laneIndex (bit % kColumnSumCount) start stop i

theorem sum_denseLane (contents : Nat → Option DataBuffer) (row start stop i : Nat) :
    ∑ laneIndex ∈ range kColumnLaneCount, denseLane contents row start stop laneIndex i =
      ∑ n ∈ Ico start stop,
        sumValue row (columnOf n) * (contents n).elim 0 DataBuffer.padded i := by
  have hlane : ∀ n, columnOf n % kColumnLaneCount = n % kColumnLaneCount := fun n =>
    Nat.mod_mod_of_dvd _ (by decide)
  have hmaps : ∀ n ∈ Ico start stop, n % kColumnLaneCount ∈ range kColumnLaneCount :=
    fun n _ => mem_range.mpr (Nat.mod_lt _ (by decide))
  rw [← sum_fiberwise_of_maps_to hmaps]
  refine sum_congr rfl fun laneIndex _ => ?_
  simp only [denseLane, laneSum, Finset.sum_apply, mul_sum]
  rw [sum_comm]
  refine sum_congr rfl fun n hn => ?_
  rw [sumValue_eq, hlane, (mem_filter.mp hn).2, sum_mul]
  refine sum_congr rfl fun bit _ => ?_
  simp only [summand, Pi.smul_apply, smul_eq_mul, mul_assoc]

namespace SumWorkspace

def byte (s : SumWorkspace) (row i : Nat) : GF256 :=
  s.recovery.padded i + getRowValue row * s.product.padded i

/-- The workspaces while the packet is made, with the window as it was in `d`. -/
structure Adding (s : SumWorkspace) (d : EncoderData) (packets : List Bytes)
    (base first start : Nat) : Prop where
  holds : s.data.Holds packets base first
  sums : s.data.SumsFrom packets base first start
  window_eq : s.data.window = d.window
  longest_eq : s.data.longestPacket = d.longestPacket
  recovery_length : s.recovery.length = d.longestPacket
  product_length : s.product.length = d.longestPacket

variable {s : SumWorkspace} {d : EncoderData} {packets : List Bytes} {base first start row : Nat}

theorem adding_reset (hholds : d.Holds packets base first)
    (hsums : d.SumsFrom packets base first start) :
    (reset d).Adding d packets base first start :=
  ⟨hholds, hsums, rfl, rfl, List.length_replicate, List.length_replicate⟩

theorem byte_reset (d : EncoderData) (row i : Nat) : (reset d).byte row i = 0 := by
  simp [byte, reset, DataBuffer.padded_replicate_zero]

theorem Adding.addDenseSum (h : s.Adding d packets base first start) (hpos : 0 < d.window.count)
    {laneIndex : Nat} (hlane : laneIndex < kColumnLaneCount) (row bit : Nat) :
    (addDenseSum laneIndex row s bit).Adding d packets base first start ∧
      ∀ i < d.longestPacket, (SumWorkspace.addDenseSum laneIndex row s bit).byte row i =
        s.byte row i + denseValue row laneIndex bit *
          naiveSum packets laneIndex (bit % kColumnSumCount) start packets.length i := by
  have hindex : bit % kColumnSumCount < kColumnSumCount := Nat.mod_lt _ (by decide)
  have hcount : s.data.window.count = d.window.count := by rw [h.window_eq]
  obtain ⟨hwindow, -⟩ :=
    s.data.getSum_window laneIndex (bit % kColumnSumCount) s.data.window.count
  have hlongest :=
    s.data.getSum_longestPacket laneIndex (bit % kColumnSumCount) s.data.window.count
  have hpadded := h.sums.getSum_all h.holds (hcount ▸ hpos) hlane hindex
  have hholds' := h.holds.getSum laneIndex (bit % kColumnSumCount) s.data.window.count
  have hsums' : (s.data.getSum laneIndex (bit % kColumnSumCount) s.data.window.count).1.SumsFrom
      packets base first start := h.sums.getSum h.holds (Nat.le_refl _)
  unfold SumWorkspace.addDenseSum denseValue
  by_cases hset : (getRowOpcode laneIndex row).testBit bit = true
  · rw [if_pos hset, if_pos hset]
    generalize s.data.getSum laneIndex (bit % kColumnSumCount) s.data.window.count = made at *
    have htake : (made.2.take made.1.longestPacket).length ≤ d.longestPacket := by
      rw [hlongest, h.longest_eq]
      exact List.length_take_le _ _
    have hbyte : ∀ i < d.longestPacket, DataBuffer.padded (made.2.take made.1.longestPacket) i =
        naiveSum packets laneIndex (bit % kColumnSumCount) start packets.length i := by
      intro i hi
      rw [DataBuffer.padded_take _ (by rw [hlongest, h.longest_eq]; exact hi), hpadded]
    simp only
    by_cases hlow : bit < kColumnSumCount
    · rw [if_pos hlow, if_pos hlow]
      refine ⟨⟨hholds', hsums', hwindow.trans h.window_eq, hlongest.trans h.longest_eq, ?_,
        h.product_length⟩, fun i hi => ?_⟩
      · rw [DataBuffer.length_addMem]
        exact h.recovery_length
      · rw [byte, DataBuffer.padded_addMem (by rw [h.recovery_length]; exact htake), Pi.add_apply,
          hbyte i hi, byte]
        ring
    · rw [if_neg hlow, if_neg hlow]
      refine ⟨⟨hholds', hsums', hwindow.trans h.window_eq, hlongest.trans h.longest_eq,
        h.recovery_length, ?_⟩, fun i hi => ?_⟩
      · rw [DataBuffer.length_addMem]
        exact h.product_length
      · rw [byte, DataBuffer.padded_addMem (by rw [h.product_length]; exact htake), Pi.add_apply,
          hbyte i hi, byte]
        ring
  · rw [if_neg hset, if_neg hset]
    exact ⟨h, fun i _ => by ring⟩

theorem Adding.addDenseLane (h : s.Adding d packets base first start) (hpos : 0 < d.window.count)
    {laneIndex : Nat} (hlane : laneIndex < kColumnLaneCount) (row : Nat) :
    ((List.range (2 * kColumnSumCount)).foldl (SumWorkspace.addDenseSum laneIndex row) s).Adding
        d packets base first start ∧
      ∀ i < d.longestPacket,
        ((List.range (2 * kColumnSumCount)).foldl
          (SumWorkspace.addDenseSum laneIndex row) s).byte row i =
            s.byte row i +
              denseLane (contentsOf packets) row start packets.length laneIndex i := by
  refine foldl_range_invariant (P := fun bits (s' : SumWorkspace) =>
    s'.Adding d packets base first start ∧
    ∀ i < d.longestPacket, s'.byte row i = s.byte row i + ∑ bit ∈ range bits,
      denseValue row laneIndex bit *
        naiveSum packets laneIndex (bit % kColumnSumCount) start packets.length i)
    ⟨h, fun i _ => by simp⟩ fun bit _ s' hs' => ?_
  obtain ⟨hadding, hbyte⟩ := hs'.1.addDenseSum hpos hlane row bit
  refine ⟨hadding, fun i hi => ?_⟩
  rw [hbyte i hi, hs'.2 i hi, sum_range_succ, add_assoc]

theorem Adding.addDenseColumns (h : s.Adding d packets base first start)
    (hpos : 0 < d.window.count) (row : Nat) :
    ∃ s' : SumWorkspace, s'.Adding d packets base first start ∧
      s.addDenseColumns row = { s' with data := { s'.data with window := { s'.data.window with
        sumEndElement := s'.data.window.count } } } ∧
      ∀ i < d.longestPacket, s'.byte row i = s.byte row i + ∑ n ∈ Ico start packets.length,
        sumValue row (columnOf n) * (packetOf packets n).buffer.padded i := by
  have hlanes : ∀ laneIndex < kColumnLaneCount, ∀ s' : SumWorkspace,
      (s'.Adding d packets base first start ∧ ∀ i < d.longestPacket, s'.byte row i =
        s.byte row i +
          ∑ l ∈ range laneIndex, denseLane (contentsOf packets) row start packets.length l i) →
      ((List.range (2 * kColumnSumCount)).foldl (SumWorkspace.addDenseSum laneIndex row) s').Adding
          d packets base first start ∧
        ∀ i < d.longestPacket, ((List.range (2 * kColumnSumCount)).foldl
          (SumWorkspace.addDenseSum laneIndex row) s').byte row i =
            s.byte row i + ∑ l ∈ range (laneIndex + 1),
              denseLane (contentsOf packets) row start packets.length l i := by
    intro laneIndex hlane s' hs'
    obtain ⟨hadding, hbyte⟩ := hs'.1.addDenseLane hpos hlane row
    refine ⟨hadding, fun i hi => ?_⟩
    rw [hbyte i hi, hs'.2 i hi, sum_range_succ, add_assoc]
  obtain ⟨hadding, hbyte⟩ := foldl_range_invariant (P := fun lanes (s' : SumWorkspace) =>
    s'.Adding d packets base first start ∧ ∀ i < d.longestPacket, s'.byte row i =
      s.byte row i +
        ∑ l ∈ range lanes, denseLane (contentsOf packets) row start packets.length l i)
    ⟨h, fun i _ => by simp⟩ hlanes
  refine ⟨_, hadding, rfl, fun i hi => ?_⟩
  rw [hbyte i hi, sum_denseLane]
  rfl

theorem byte_addLightPairs (packets : List Bytes) (metadata : RecoveryMetadata)
    (startElement stop bytes : Nat) (hldpc : 0 < metadata.ldpcCount)
    (hend : metadata.ldpcCount ≤ packets.length)
    (hstop : stop ≤ packets.length - metadata.ldpcCount)
    (hfits : ∀ k < metadata.ldpcCount,
      (packetOf packets (packets.length - metadata.ldpcCount + k)).buffer.length ≤ bytes)
    (pairs : Nat) (prng : PCGRandom) (s : SumWorkspace)
    (helement : ∀ k < metadata.ldpcCount, s.data.getWindowElement (startElement + k) =
      packetOf packets (packets.length - metadata.ldpcCount + k))
    (hrecovery : s.recovery.length = bytes) (hproduct : s.product.length = bytes) :
    (addLightPairs startElement metadata.ldpcCount pairs prng s).recovery.length = bytes ∧
      (addLightPairs startElement metadata.ldpcCount pairs prng s).product.length = bytes ∧
      ∀ i, (addLightPairs startElement metadata.ldpcCount pairs prng s).byte metadata.row i =
        s.byte metadata.row i + ∑ n ∈ Ico stop packets.length,
          lightCoefficient metadata packets.length pairs prng n *
            (packetOf packets n).buffer.padded i := by
  induction pairs generalizing prng s with
  | zero => exact ⟨hrecovery, hproduct, fun i => by simp [addLightPairs, lightCoefficient]⟩
  | succ pairs ih =>
    have hmod1 := Nat.mod_lt prng.next.1.toNat hldpc
    have hmodRX := Nat.mod_lt prng.next.2.next.1.toNat hldpc
    have hone := helement _ hmod1
    have hrx := helement _ hmodRX
    have hfit1 := hfits _ hmod1
    have hfitRX := hfits _ hmodRX
    have hmem : ∀ k < metadata.ldpcCount,
        packets.length - metadata.ldpcCount + k ∈ Ico stop packets.length := fun k hk =>
      mem_Ico.mpr ⟨by omega, by omega⟩
    have hmem1 := hmem _ hmod1
    have hmemRX := hmem _ hmodRX
    obtain ⟨hlength, hlength', hbyte⟩ := ih prng.next.2.next.2 { s with
        recovery := s.recovery.addMem (packetOf packets (packets.length - metadata.ldpcCount +
          prng.next.1.toNat % metadata.ldpcCount)).buffer
        product := s.product.addMem (packetOf packets (packets.length - metadata.ldpcCount +
          prng.next.2.next.1.toNat % metadata.ldpcCount)).buffer }
      helement (by simp [hrecovery]) (by simp [hproduct])
    simp only [addLightPairs, hone, hrx]
    refine ⟨hlength, hlength', fun i => ?_⟩
    rw [hbyte]
    simp only [lightCoefficient, add_mul, ite_mul, one_mul, zero_mul, sum_add_distrib,
      sum_ite_eq', hmem1, hmemRX, if_true]
    rw [byte, byte, DataBuffer.padded_addMem (by rw [hrecovery]; exact hfit1),
      DataBuffer.padded_addMem (by rw [hproduct]; exact hfitRX), Pi.add_apply, Pi.add_apply]
    ring

end SumWorkspace

/-! The rows of parity and Cauchy packets. -/

namespace EncoderData

theorem unremoved_eq {d : EncoderData} (h : d.window.firstUnremovedElement < d.window.count) :
    d.unremoved = d.window.firstUnremovedElement :: d.unremoved.tail := by
  obtain ⟨n, hn⟩ : ∃ n, d.window.count - d.window.firstUnremovedElement = n + 1 :=
    ⟨d.window.count - d.window.firstUnremovedElement - 1, by omega⟩
  rw [unremoved, hn, List.range'_succ, List.tail_cons]

theorem mem_unremoved {d : EncoderData} {e : Nat} : e ∈ d.unremoved ↔
    d.window.firstUnremovedElement ≤ e ∧ e < d.window.count := by
  rw [unremoved, List.mem_range'_1]
  omega

def originals (d : EncoderData) : List (Nat → GF256) :=
  d.unremoved.map fun e => (d.getWindowElement e).buffer.padded

variable {d : EncoderData}

theorem usedBytes_le_iff {bytes : Nat} : d.usedBytes ≤ bytes ↔
    ∀ e, d.window.firstUnremovedElement ≤ e → e < d.window.count →
      (d.getWindowElement e).buffer.length ≤ bytes := by
  rw [usedBytes, foldl_max_le_iff]
  simp only [Nat.zero_le, true_and, mem_unremoved, and_imp]

theorem foldl_addMem_padded (elements : List Nat) (recovery : DataBuffer)
    (hfit : ∀ e ∈ elements, (d.getWindowElement e).buffer.length ≤ recovery.length) :
    (elements.foldl (fun recovery e => recovery.addMem (d.getWindowElement e).buffer)
        recovery).length = recovery.length ∧
      (elements.foldl (fun recovery e => recovery.addMem (d.getWindowElement e).buffer)
        recovery).padded = (elements.map fun e => (d.getWindowElement e).buffer.padded).foldl
          (fun sum original => sum + original) recovery.padded := by
  induction elements generalizing recovery with
  | nil => exact ⟨rfl, rfl⟩
  | cons e rest ih =>
    have hhead := hfit e List.mem_cons_self
    obtain ⟨hlength, hpadded⟩ := ih (recovery.addMem (d.getWindowElement e).buffer)
      fun e' he' => by
        rw [DataBuffer.length_addMem]
        exact hfit e' (List.mem_cons_of_mem _ he')
    refine ⟨hlength.trans (DataBuffer.length_addMem _ _), hpadded.trans ?_⟩
    rw [List.map_cons, List.foldl_cons, DataBuffer.padded_addMem hhead]

theorem addCauchyOriginals_padded (cauchyRow cauchyColumn : Nat) (elements : List Nat)
    (recovery : DataBuffer)
    (hfit : ∀ e ∈ elements, (d.getWindowElement e).buffer.length ≤ recovery.length) :
    (d.addCauchyOriginals cauchyRow elements cauchyColumn recovery).length = recovery.length ∧
      (d.addCauchyOriginals cauchyRow elements cauchyColumn recovery).padded =
        addCauchyColumns cauchyRow cauchyColumn recovery.padded
          (elements.map fun e => (d.getWindowElement e).buffer.padded) := by
  induction elements generalizing recovery cauchyColumn with
  | nil => exact ⟨rfl, rfl⟩
  | cons e rest ih =>
    have hhead := hfit e List.mem_cons_self
    obtain ⟨hlength, hpadded⟩ := ih ((cauchyColumn + 1) % kCauchyMaxColumns)
      (recovery.mulAddMem (cauchyElement cauchyRow
        ((cauchyColumn + 1) % kCauchyMaxColumns)) (d.getWindowElement e).buffer) fun e' he' => by
        rw [DataBuffer.length_mulAddMem]
        exact hfit e' (List.mem_cons_of_mem _ he')
    refine ⟨hlength.trans (DataBuffer.length_mulAddMem _ _ _), hpadded.trans ?_⟩
    rw [List.map_cons, addCauchyColumns, DataBuffer.padded_mulAddMem _ hhead]

theorem cauchyBytes_eq (hlt : d.window.firstUnremovedElement < d.window.count)
    (hfit : ∀ e, d.window.firstUnremovedElement ≤ e → e < d.window.count →
      (d.getWindowElement e).buffer.length ≤ d.longestPacket) (metadata : RecoveryMetadata) :
    (if metadata.row = 0 then d.parityData
        else d.cauchyData (metadata.row - 1) metadata.columnStart).length = d.usedBytes ∧
      ∀ i < d.usedBytes, DataBuffer.padded (if metadata.row = 0 then d.parityData
          else d.cauchyData (metadata.row - 1) metadata.columnStart) i =
        cauchyPacketData metadata d.originals i := by
  have hused : d.usedBytes ≤ d.longestPacket := usedBytes_le_iff.mpr hfit
  have horiginals : d.originals =
      (d.getWindowElement d.window.firstUnremovedElement).buffer.padded ::
        d.unremoved.tail.map fun e => (d.getWindowElement e).buffer.padded := by
    rw [originals, unremoved_eq hlt, List.map_cons, List.tail_cons]
  have hrest : ∀ e ∈ d.unremoved.tail, (d.getWindowElement e).buffer.length ≤ d.longestPacket := by
    intro e he
    obtain ⟨hge, hin⟩ := mem_unremoved.mp (List.mem_of_mem_tail he)
    exact hfit e hge hin
  have hfirst := hfit _ (Nat.le_refl _) hlt
  rw [horiginals, cauchyPacketData]
  by_cases hrow : metadata.row = 0
  · simp only [if_pos hrow]
    have hgrown : ((d.getWindowElement d.window.firstUnremovedElement).buffer.growZeroPadded
        d.longestPacket).length = d.longestPacket := by
      rw [DataBuffer.length_growZeroPadded, Nat.max_eq_right hfirst]
    obtain ⟨hlength, hpadded⟩ := foldl_addMem_padded (d := d) d.unremoved.tail
      ((d.getWindowElement d.window.firstUnremovedElement).buffer.growZeroPadded
        d.longestPacket) (by rw [hgrown]; exact hrest)
    rw [parityData, List.length_take, hlength, hgrown, Nat.min_eq_left hused]
    refine ⟨rfl, fun i hi => ?_⟩
    rw [DataBuffer.padded_take _ hi, hpadded, DataBuffer.padded_growZeroPadded]
  · simp only [if_neg hrow]
    have hgrown : (DataBuffer.growZeroPadded ((d.getWindowElement
        d.window.firstUnremovedElement).buffer.map (· * cauchyElement (metadata.row - 1)
          (metadata.columnStart % kCauchyMaxColumns))) d.longestPacket).length =
        d.longestPacket := by
      rw [DataBuffer.length_growZeroPadded, List.length_map, Nat.max_eq_right hfirst]
    obtain ⟨hlength, hpadded⟩ := addCauchyOriginals_padded (d := d) (metadata.row - 1)
      (metadata.columnStart % kCauchyMaxColumns) d.unremoved.tail
      (DataBuffer.growZeroPadded ((d.getWindowElement
        d.window.firstUnremovedElement).buffer.map (· * cauchyElement (metadata.row - 1)
          (metadata.columnStart % kCauchyMaxColumns))) d.longestPacket)
      (by rw [hgrown]; exact hrest)
    simp only [cauchyData]
    rw [List.length_take, hlength, hgrown, Nat.min_eq_left hused]
    refine ⟨rfl, fun i hi => ?_⟩
    rw [DataBuffer.padded_take _ hi, hpadded, DataBuffer.padded_growZeroPadded,
      DataBuffer.padded_map_mul]

end EncoderData

/-! The window with its sums over any calls. -/

/-- Running sums start with a packet that is not behind the first unremoved one. -/
structure EncoderPacketWindow.SumsAt (w : EncoderPacketWindow) (base start : Nat) : Prop where
  place : start + w.sumErasedCount = base + w.sumStartElement
  le_first : start ≤ base + w.firstUnremovedElement
  end_le : w.sumEndElement ≤ w.count

namespace EncoderData

/-- The packets are in their places, the sums are those from where they start, unless they are to be
reset, and none of the packets that were not removed is longer than LongestPacket. -/
structure Summed (d : EncoderData) (packets : List Bytes) (base first : Nat) : Prop where
  holds : d.Holds packets base first
  sums : 0 < d.window.count → d.window.sumStartElement < d.window.sumEndElement →
    ∃ start, d.SumsFrom packets base first start ∧ d.window.SumsAt base start
  fits : ∀ n, base + d.window.firstUnremovedElement ≤ n → n < packets.length →
    (packetOf packets n).buffer.length ≤ d.longestPacket

theorem summed_initial : initial.Summed [] 0 0 :=
  ⟨holds_initial, fun hpos => absurd hpos (Nat.lt_irrefl 0),
    fun n _ hn => absurd hn (Nat.not_lt_zero n)⟩

variable {d : EncoderData} {packets : List Bytes} {base first : Nat}

theorem Holds.unacknowledged (h : d.Holds packets base first) (hpos : 0 < d.window.count) :
    d.window.getUnacknowledgedCount = d.window.count - d.window.firstUnremovedElement := by
  have hmax := h.count_le
  simp only [siameseMaxPackets] at hmax
  exact unsignedSub_eq (Nat.le_of_lt (h.first_lt hpos)) (by omega)

theorem Holds.elementToColumn (h : d.Holds packets base first) (element : Nat) :
    d.window.elementToColumn element = columnOf (base + element) := by
  rw [EncoderPacketWindow.elementToColumn, h.columnStart_eq, addColumns_columnOf_right]

theorem add_longestPacket {nowMsec : Nat} (data : Bytes)
    (hok : (d.window.add nowMsec).2 = .success) : (d.add nowMsec data).1.longestPacket =
      max (if 0 < d.window.count then d.longestPacket else 0)
        (OriginalPacket.initialized d.window.nextColumn data).buffer.length := by
  have happend : d.appendSubwindow.longestPacket = d.longestPacket := by
    unfold appendSubwindow
    split <;> rfl
  unfold add
  simp only [hok, if_true, appendSubwindow_window]
  split
  · simp only [updateLongest, setWindowElement, happend]
  · simp only [updateLongest, setWindowElement, startNewWindow]

theorem Summed.add (h : d.Summed packets base first) (hpos : 0 < d.window.count) {nowMsec : Nat}
    (data : Bytes) (hok : (d.window.add nowMsec).2 = .success) :
    (d.add nowMsec data).1.Summed (packets ++ [data]) base first := by
  obtain ⟨-, hwindow, -⟩ := add_success data hok rfl
  have hlongest := add_longestPacket data hok
  rw [if_pos hpos] at hlongest
  have hsame : (d.window.add nowMsec).1.sumStartElement = d.window.sumStartElement ∧
      (d.window.add nowMsec).1.sumEndElement = d.window.sumEndElement ∧
      (d.window.add nowMsec).1.sumErasedCount = d.window.sumErasedCount ∧
      (d.window.add nowMsec).1.count = d.window.count + 1 := by
    unfold EncoderPacketWindow.add at hok ⊢
    split at hok
    · exact absurd hok (by simp)
    · next hfree =>
      rw [if_neg hfree]
      simp only [hpos, if_true, true_and]
  have hfirst := EncoderPacketWindow.add_firstUnremovedElement hpos nowMsec
  obtain ⟨hstart, hend, herased, hcount⟩ := hsame
  refine ⟨h.holds.add hpos data hok, fun _ hrun => ?_, fun n hn hlt => ?_⟩
  · rw [hwindow, hstart, hend] at hrun
    obtain ⟨start, hsums, hat⟩ := h.sums hpos hrun
    refine ⟨start, hsums.add h.holds.base_mod (.inl hpos) (h.holds.count_eq hpos) data hok, ?_⟩
    rw [hwindow]
    refine ⟨?_, ?_, ?_⟩
    · rw [hstart, herased]
      exact hat.place
    · rw [hfirst]
      exact hat.le_first
    · rw [hend, hcount]
      exact Nat.le_succ_of_le hat.end_le
  · rw [hwindow, hfirst] at hn
    rw [hlongest]
    rw [List.length_append, List.length_singleton] at hlt
    rcases Nat.lt_succ_iff_lt_or_eq.mp hlt with hold | rfl
    · rw [packetOf_append_of_lt packets data hold]
      exact (h.fits n hn hold).trans (Nat.le_max_left _ _)
    · rw [packetOf_append_length, ← h.holds.nextColumn_eq]
      exact Nat.le_max_right _ _

theorem Summed.add_empty (h : d.Summed packets base first) (hempty : d.window.count = 0)
    {nowMsec : Nat} (data : Bytes) (hok : (d.window.add nowMsec).2 = .success) :
    (d.add nowMsec data).1.Summed (packets ++ [data])
      (packets.length - packets.length % kColumnLaneCount) packets.length := by
  obtain ⟨-, hwindow, -⟩ := add_success data hok rfl
  have hlongest := add_longestPacket data hok
  obtain ⟨-, -, hfirst⟩ := EncoderPacketWindow.add_empty hempty h.holds.nextColumn_eq nowMsec
  have hnone : (d.window.add nowMsec).1.sumStartElement =
      (d.window.add nowMsec).1.sumEndElement := by
    unfold EncoderPacketWindow.add
    rw [if_neg (by simp [EncoderPacketWindow.getRemainingSlots, hempty, siameseMaxPackets])]
    simp only [hempty, Nat.lt_irrefl, if_false, EncoderPacketWindow.startNewWindow]
  refine ⟨h.holds.add_empty hempty data hok, fun _ hrun => ?_, fun n hn hlt => ?_⟩
  · rw [hwindow, hnone] at hrun
    exact absurd hrun (Nat.lt_irrefl _)
  · have hmod := Nat.mod_le packets.length kColumnLaneCount
    rw [hwindow, hfirst] at hn
    rw [List.length_append, List.length_singleton] at hlt
    obtain rfl : n = packets.length := by omega
    rw [hlongest, packetOf_append_length, ← h.holds.nextColumn_eq]
    exact Nat.le_max_right _ _

theorem Summed.removeBefore (h : d.Summed packets base first) (firstKeptColumn : Nat) :
    (d.removeBefore firstKeptColumn).Summed packets base first := by
  have hholds := h.holds.removeBefore firstKeptColumn
  have hsome : 0 < d.window.count → packets ≠ [] := by
    intro hpos hnil
    have hcount := h.holds.count_eq hpos
    rw [hnil, List.length_nil] at hcount
    omega
  have hsums : ∀ start, d.SumsFrom packets base first start →
      (d.removeBefore firstKeptColumn).SumsFrom packets base first start := fun start hstart =>
    hstart.removeBefore firstKeptColumn hsome
  have hwindow : (d.removeBefore firstKeptColumn).window = d.window.removeBefore firstKeptColumn :=
    rfl
  rcases d.window.removeBefore_cases firstKeptColumn with
    ⟨hsame, -⟩ | ⟨hempty, -, -⟩ | ⟨hmoved, -, hless⟩
  · have hd : d.removeBefore firstKeptColumn = d := by
      rw [EncoderData.removeBefore, hsame]
    rw [hd]
    exact h
  · rw [hempty] at hwindow
    refine ⟨hholds, fun hpos => ?_, fun n hn hlt => ?_⟩
    · rw [hwindow] at hpos
      exact absurd hpos (Nat.lt_irrefl 0)
    · rw [hwindow] at hn
      exact h.fits n hn hlt
  · rw [hmoved] at hwindow
    refine ⟨hholds, fun hpos hrun => ?_, fun n hn hlt => ?_⟩
    · rw [hwindow] at hpos hrun
      obtain ⟨start, hstart, hat⟩ := h.sums hpos hrun
      refine ⟨start, hsums start hstart, ?_⟩
      rw [hwindow]
      exact ⟨hat.place, hat.le_first.trans (Nat.add_le_add_left (Nat.le_of_lt hless) _), hat.end_le⟩
    · rw [hwindow] at hn
      exact h.fits n ((Nat.add_le_add_left (Nat.le_of_lt hless) _).trans hn) hlt

theorem removeElements_longestPacket (d : EncoderData) :
    d.removeElements.longestPacket = d.removeElements.usedBytes := by
  unfold removeElements
  simp only
  split
  · split <;> rfl
  · split <;> rfl

theorem Summed.removeElements (h : d.Summed packets base first) (hpos : 0 < d.window.count) :
    d.removeElements.Summed packets
      (base + d.window.firstUnremovedElement / kSubwindowSize * kSubwindowSize) first := by
  have hholds := h.holds.removeElements hpos
  have hlt := h.holds.first_lt hpos
  have hremoved : d.window.firstUnremovedElement / kSubwindowSize * kSubwindowSize ≤
      d.window.firstUnremovedElement := Nat.div_mul_le_self _ _
  obtain ⟨-, -, hc, hf⟩ := d.window.removeElements_positions
  rw [← removeElements_window] at hc hf
  refine ⟨hholds, fun _ hrun => ?_, fun n hn hend => ?_⟩
  · have hgo : ¬d.removeElements.window.sumEndElement ≤ d.removeElements.window.sumStartElement :=
      Nat.not_le.mpr hrun
    rcases d.window.removeElements_sums with ⟨hstop, -⟩ | ⟨-, heq, hran⟩
    · rw [← removeElements_window] at hstop
      exact absurd hstop hgo
    · obtain ⟨start, hsums, hat⟩ := h.sums hpos hran
      refine ⟨start, hsums.removeElements h.holds hpos hgo, ?_⟩
      obtain ⟨hplace, hle, hend⟩ := hat
      rw [removeElements_window, heq]
      unfold EncoderPacketWindow.slid
      simp only [if_pos hran]
      generalize d.window.firstUnremovedElement / kSubwindowSize * kSubwindowSize = removed at *
      refine ⟨?_, ?_, ?_⟩
      · simp only
        split <;> omega
      · simp only
        omega
      · simp only
        omega
  · have hcount := hholds.count_eq (by omega)
    have hle := hholds.first_le (by omega)
    rw [removeElements_longestPacket]
    generalize base + d.window.firstUnremovedElement / kSubwindowSize * kSubwindowSize = base' at *
    obtain ⟨e, rfl⟩ : ∃ e, n = base' + e := ⟨n - base', by omega⟩
    rw [← hholds.contents e (by omega) (by omega)]
    exact usedBytes_le_iff.mp (Nat.le_refl _) e (by omega) (by omega)

end EncoderData

/-! The packets of Encode. -/

namespace FullEncoder

variable {e : FullEncoder} {packets : List Bytes} {base first : Nat}

theorem generateSinglePacket_combines (h : e.data.Summed packets base first)
    (hpos : 0 < e.data.window.count)
    (hone : e.data.window.count - e.data.window.firstUnremovedElement = 1) :
    Combines e.generateSinglePacket.2.1 e.generateSinglePacket.2.2 packets := by
  have hcount := h.holds.count_eq hpos
  have hlt := h.holds.first_lt hpos
  have hcontents := h.holds.contents _ hlt (h.holds.first_le hpos)
  have hlast : base + e.data.window.firstUnremovedElement = packets.length - 1 := by omega
  rw [hlast] at hcontents
  unfold generateSinglePacket
  simp only [hcontents]
  refine ⟨⟨Nat.one_pos, Nat.le_refl 1, by simp only; omega, rfl⟩, fun _ => rfl, fun _ => rfl,
    fun i _ => ?_, fun n hge hn => ?_⟩
  · simp only
    have hrange : Ico (packets.length - 1) packets.length = {packets.length - 1} := by
      ext n
      simp only [mem_Ico, mem_singleton]
      omega
    have hthreshold : 1 ≤ siameseCauchyThreshold := by decide
    rw [hrange, sum_singleton]
    simp only [coefficient, rowValue, lightPairs, hthreshold, if_true, lightCoefficient, add_zero,
      one_mul]
  · obtain rfl : n = packets.length - 1 := by
      simp only at hge
      omega
    exact Nat.le_refl _

/-- GenerateCauchyPacket, whatever window it is called with that holds the packets. -/
theorem generateCauchyPacket_combines (hholds : e.data.Holds packets base first)
    (hfits : ∀ n, base + e.data.window.firstUnremovedElement ≤ n → n < packets.length →
      (packetOf packets n).buffer.length ≤ e.data.longestPacket)
    (hpos : 0 < e.data.window.count) (hfew : e.data.window.count -
      e.data.window.firstUnremovedElement ≤ siameseCauchyThreshold)
    (hne : e.data.window.count - e.data.window.firstUnremovedElement ≠ 1) :
    Combines e.generateCauchyPacket.2.1 e.generateCauchyPacket.2.2 packets := by
  have hcount := hholds.count_eq hpos
  have hlt := hholds.first_lt hpos
  have hle := hholds.first_le hpos
  have hcontents : ∀ element, e.data.window.firstUnremovedElement ≤ element →
      element < e.data.window.count →
      e.data.getWindowElement element = packetOf packets (base + element) := fun element hge hin =>
    hholds.contents element hin (by omega)
  obtain ⟨row, nextParityColumn, nextCauchyRow, heq⟩ := e.positions.generateCauchyPacket_eq
  have hmade : e.positions.generateCauchyPacket.2 =
      ⟨row, columnOf (base + e.data.window.firstUnremovedElement),
        e.data.window.count - e.data.window.firstUnremovedElement,
        e.data.window.count - e.data.window.firstUnremovedElement⟩ := by
    rw [heq]
    simp only [positions, hholds.elementToColumn, hholds.unacknowledged hpos]
  unfold generateCauchyPacket
  simp only [hmade]
  generalize hmetadata : (⟨row, columnOf (base + e.data.window.firstUnremovedElement),
    e.data.window.count - e.data.window.firstUnremovedElement,
    e.data.window.count - e.data.window.firstUnremovedElement⟩ : RecoveryMetadata) = metadata
  have hrow : row = metadata.row := by rw [← hmetadata]
  have hcolumn : columnOf (base + e.data.window.firstUnremovedElement) = metadata.columnStart := by
    rw [← hmetadata]
  have hsum : metadata.sumCount =
      e.data.window.count - e.data.window.firstUnremovedElement := by rw [← hmetadata]
  have hldpc : metadata.ldpcCount = metadata.sumCount := by rw [← hmetadata]
  have hstart : packets.length - metadata.sumCount =
      base + e.data.window.firstUnremovedElement := by omega
  rw [hrow, hcolumn]
  obtain ⟨hlength, hbyte⟩ := EncoderData.cauchyBytes_eq hlt (fun element hge hin => by
    rw [hcontents element hge hin]
    exact hfits _ (by omega) (by omega)) metadata
  refine ⟨⟨by omega, by omega, by omega, ?_⟩, fun _ => hldpc, fun hone => absurd hone (by omega),
    fun i hi => ?_, fun n hge hn => ?_⟩
  · rw [hstart, hcolumn]
  · rw [hlength] at hi
    have hsmall : metadata.sumCount ≤ siameseCauchyThreshold := by omega
    have horiginals : e.data.originals.length = metadata.sumCount := by
      rw [EncoderData.originals, List.length_map, EncoderData.unremoved, List.length_range', hsum]
    rw [hbyte i hi, cauchyPacketData_eq hsmall, horiginals, Finset.sum_apply, sum_Ico_eq_sum_range,
      Nat.sub_sub_self (by omega)]
    refine sum_congr rfl fun k hk => ?_
    rw [mem_range] at hk
    have hget : e.data.originals.getD k 0 =
        (packetOf packets (packets.length - metadata.sumCount + k)).buffer.padded := by
      rw [EncoderData.originals, List.getD_eq_getElem?_getD, List.getElem?_map,
        EncoderData.unremoved, List.getElem?_range' (by omega), Option.map_some, Option.getD_some,
        hcontents _ (by omega) (by omega), hstart, Nat.one_mul, Nat.add_assoc]
    simp only [Pi.smul_apply, smul_eq_mul]
    rw [hget, coefficient, lightPairs, if_pos hsmall, lightCoefficient, add_zero, ← hcolumn,
      addColumns_columnOf, hstart]
  · obtain ⟨element, rfl⟩ : ∃ element, n = base + element := ⟨n - base, by omega⟩
    rw [hlength, ← hcontents element (by omega) (by omega)]
    exact EncoderData.usedBytes_le_iff.mp (Nat.le_refl _) element (by omega) (by omega)

theorem generateSumPacket_combines {start : Nat} (hholds : e.data.Holds packets base first)
    (hsums : e.data.SumsFrom packets base first start)
    (hplace : start + e.data.window.sumErasedCount = base + e.data.window.sumStartElement)
    (hle : start ≤ base + e.data.window.firstUnremovedElement)
    (hin : e.data.window.sumStartElement ≤ e.data.window.count)
    (hfits : ∀ n, base + e.data.window.firstUnremovedElement ≤ n → n < packets.length →
      (packetOf packets n).buffer.length ≤ e.data.longestPacket)
    (hpos : 0 < e.data.window.count) (hmany : siameseCauchyThreshold <
      e.data.window.count - e.data.window.sumStartElement + e.data.window.sumErasedCount) :
    Combines e.generateSumPacket.2.1 e.generateSumPacket.2.2 packets ∧
      e.generateSumPacket.1.data.Summed packets base first := by
  have hcount := hholds.count_eq hpos
  have hlt := hholds.first_lt hpos
  have hfirst := hholds.first_le hpos
  obtain ⟨s, hadding, hdense, hbyte⟩ :=
    (SumWorkspace.adding_reset hholds hsums).addDenseColumns hpos e.nextRow
  obtain ⟨hholds', hsums', hwindow, hlongest, hrecovery, hproduct⟩ := hadding
  unfold generateSumPacket SumWorkspace.addLightColumns
  simp only [hdense, SumWorkspace.addLightPairs_data, hwindow, hholds.unacknowledged hpos]
  generalize hmetadata : (⟨e.nextRow, e.data.window.sumColumnStart,
    e.data.window.count - e.data.window.sumStartElement + e.data.window.sumErasedCount,
    e.data.window.count - e.data.window.firstUnremovedElement⟩ : RecoveryMetadata) = metadata
  have hrow : e.nextRow = metadata.row := by rw [← hmetadata]
  have hcolumn : metadata.columnStart = columnOf start := by
    rw [← hmetadata]
    exact hsums.column_eq
  have hsum : metadata.sumCount = e.data.window.count - e.data.window.sumStartElement +
      e.data.window.sumErasedCount := by rw [← hmetadata]
  have hldpc : e.data.window.count - e.data.window.firstUnremovedElement =
      metadata.ldpcCount := by rw [← hmetadata]
  have hstart : packets.length - metadata.sumCount = start := by omega
  have hlarge : ¬metadata.sumCount ≤ siameseCauchyThreshold := by omega
  have hpairs : (metadata.ldpcCount + kPairAddRate - 1) / kPairAddRate = lightPairs metadata :=
    (if_neg hlarge).symm
  rw [hldpc, hrow, hpairs]
  obtain ⟨hlength, hlength', hlight⟩ := SumWorkspace.byte_addLightPairs packets metadata
    e.data.window.firstUnremovedElement start e.data.longestPacket (by omega) (by omega) (by omega)
    (fun k hk => hfits _ (by omega) (by omega)) (lightPairs metadata)
    (.seed (.ofNat metadata.row) (.ofNat metadata.ldpcCount))
    { s with data := { s.data with window := { e.data.window with
      sumEndElement := e.data.window.count } } } (fun k hk => by
        have hcontents := hholds'.contents (e.data.window.firstUnremovedElement + k)
          (by rw [hwindow]; omega) (by omega)
        rw [show packets.length - metadata.ldpcCount + k =
          base + (e.data.window.firstUnremovedElement + k) by omega]
        exact hcontents) hrecovery hproduct
  have hthreshold : 1 ≤ siameseCauchyThreshold := by decide
  refine ⟨⟨⟨by omega, by omega, by omega, ?_⟩, fun hsmall => absurd hsmall hlarge,
    fun hone => absurd hone (by omega), fun i hi => ?_, fun n hge hn => ?_⟩, ?_⟩
  · rw [hcolumn, hstart]
  · rw [DataBuffer.length_mulAddMem, hlength] at hi
    rw [DataBuffer.padded_mulAddMem _ (by rw [hlength, hlength'])]
    refine (hlight i).trans ?_
    have hsame : (SumWorkspace.byte { s with data := { s.data with window := { e.data.window with
        sumEndElement := e.data.window.count } } } metadata.row i) = s.byte e.nextRow i := by
      rw [hrow]
      rfl
    rw [hsame, hbyte i hi, SumWorkspace.byte_reset, zero_add, hstart, ← sum_add_distrib]
    refine sum_congr rfl fun n _ => ?_
    rw [coefficient, rowValue, if_neg hlarge, hrow, add_mul]
  · rw [DataBuffer.length_mulAddMem, hlength]
    exact hfits n (by omega) hn
  · obtain ⟨hcolumn', hfirst', hsums', hnext'⟩ := hsums'
    rw [hwindow] at hcolumn' hnext'
    refine ⟨hholds'.of_eq (by rw [hwindow]) (by rw [hwindow]) (by rw [hwindow]) (by rw [hwindow])
      rfl, fun _ _ => ⟨start, ⟨hcolumn', hfirst', hsums', hnext'⟩, hplace, hle, Nat.le_refl _⟩,
      fun n hn hend => ?_⟩
    rw [hlongest]
    exact hfits n hn hend

/-- Whatever Encode chooses, once the front of the window has been removed. -/
theorem chosenPacket_combines (h : e.data.Summed packets base first)
    (hpos : 0 < e.data.window.count) :
    Combines e.chosenPacket.2.1 e.chosenPacket.2.2 packets ∧
      e.chosenPacket.1.data.Summed packets base first := by
  have hlt := h.holds.first_lt hpos
  have hreset := h.holds.sumsFrom_resetSums hlt (h.holds.first_le hpos)
  have hunacknowledged := h.holds.unacknowledged hpos
  unfold chosenPacket
  rcases e.data.window.encodeBranch_cases with ⟨hbranch, hone⟩ | ⟨hbranch, hone, hfew⟩ |
    ⟨hbranch, hmany⟩ | ⟨hbranch, hone, hrun, hfew⟩ | ⟨hbranch, hrun, hmany, hless⟩
  all_goals rw [hbranch]
  · rw [hunacknowledged] at hone
    exact ⟨generateSinglePacket_combines h hpos hone, h⟩
  · rw [hunacknowledged] at hone hfew
    exact ⟨generateCauchyPacket_combines h.holds h.fits hpos hfew hone, h⟩
  · rw [hunacknowledged] at hmany
    exact generateSumPacket_combines
      (e := { e with data := e.data.resetSums e.data.window.firstUnremovedElement })
      (h.holds.resetSums _) hreset rfl (Nat.le_refl _) (Nat.le_of_lt hlt) h.fits hpos hmany
  · rw [hunacknowledged] at hone hfew
    obtain ⟨start, hsums, hplace, hle, hend⟩ := h.sums hpos hrun
    have hreset : siameseSumResetThreshold ≤ siameseCauchyThreshold := by decide
    have hholds : ({ e.data with window := { e.data.window with
        sumEndElement := e.data.window.sumStartElement } } : EncoderData).Holds packets base
          first := h.holds.of_eq rfl rfl rfl rfl rfl
    have hcount := h.holds.count_eq hpos
    refine ⟨generateCauchyPacket_combines (e := { e with data := { e.data with
      window := { e.data.window with sumEndElement := e.data.window.sumStartElement } } })
      hholds h.fits hpos (by simp only; omega) hone, hholds, fun _ hrun => ?_, h.fits⟩
    exact absurd hrun (Nat.lt_irrefl _)
  · obtain ⟨start, hsums, hplace, hle, hend⟩ := h.sums hpos hrun
    exact generateSumPacket_combines h.holds hsums hplace hle (by omega) h.fits hpos hmany

end FullEncoder

namespace TracedEncoder

/-- The encoder's data stand for the packets added, whatever was called. -/
def Summed (t : TracedEncoder) : Prop := t.encoder.data.Summed t.packets t.base t.first

theorem Summed.add {t : TracedEncoder} (h : t.Summed) (nowMsec : Nat) (data : Bytes) :
    (t.step (.add nowMsec data)).Summed := by
  simp only [step, FullEncoder.add]
  cases t.encoder.emergencyDisabled with
  | true => exact h
  | false =>
    simp only [Bool.false_eq_true, if_false]
    by_cases hok : (t.encoder.data.window.add nowMsec).2 = .success
    · obtain ⟨hsuccess, -, -⟩ := EncoderData.add_success data hok rfl
      rw [if_pos hsuccess]
      by_cases hpos : 0 < t.encoder.data.window.count
      · simp only [hpos, if_true]
        exact EncoderData.Summed.add h hpos data hok
      · simp only [hpos, if_false]
        exact EncoderData.Summed.add_empty h (Nat.eq_zero_of_not_pos hpos) data hok
    · have hsame : t.encoder.data.add nowMsec data =
          (t.encoder.data, (t.encoder.data.window.add nowMsec).2) := by
        unfold EncoderData.add
        exact if_neg hok
      rw [hsame]
      simp only [hok, if_false]
      exact h

theorem Summed.acknowledge {t : TracedEncoder} (h : t.Summed) (nowMsec : Nat) (data : Bytes) :
    (t.step (.acknowledge nowMsec data)).Summed := by
  simp only [step, FullEncoder.acknowledge]
  cases t.encoder.emergencyDisabled with
  | true => exact h
  | false =>
    simp only [Bool.false_eq_true, if_false, true_and]
    rcases t.encoder.ack.onAcknowledgementData_scan t.encoder.data.window nowMsec data with
      ⟨-, hwindow⟩ | ⟨-, hwindow⟩
    · simp only [Summed, hwindow]
      exact h
    · simp only [Summed, hwindow]
      exact EncoderData.Summed.removeBefore h _

theorem Summed.encode {t : TracedEncoder} (h : t.Summed) : (t.step .encode).Summed ∧
    ∀ m recovery, t.encoder.encode.2 = some (m, recovery) → Combines m recovery t.packets := by
  simp only [step]
  by_cases hlive : t.encoder.emergencyDisabled = false ∧ 0 < t.encoder.data.window.count
  · obtain ⟨hon, hpos⟩ := hlive
    obtain ⟨e, base, hchosen, hbase, hsummed, hpos'⟩ : ∃ e base,
        (if kEncoderRemoveThreshold ≤ t.encoder.data.window.firstUnremovedElement then
          { t.encoder with data := t.encoder.data.removeElements } else t.encoder) = e ∧
        (if t.encoder.emergencyDisabled = false ∧ 0 < t.encoder.data.window.count ∧
            kEncoderRemoveThreshold ≤ t.encoder.data.window.firstUnremovedElement then
          t.base + t.encoder.data.window.firstUnremovedElement / kSubwindowSize * kSubwindowSize
          else t.base) = base ∧
        e.data.Summed t.packets base t.first ∧ 0 < e.data.window.count := by
      by_cases hremove : kEncoderRemoveThreshold ≤ t.encoder.data.window.firstUnremovedElement
      · refine ⟨_, _, if_pos hremove, if_pos ⟨hon, hpos, hremove⟩,
          EncoderData.Summed.removeElements h hpos, ?_⟩
        have hlt := h.holds.first_lt hpos
        have hle : t.encoder.data.window.firstUnremovedElement / kSubwindowSize * kSubwindowSize ≤
            t.encoder.data.window.firstUnremovedElement := Nat.div_mul_le_self _ _
        obtain ⟨-, -, hc, -⟩ := t.encoder.data.window.removeElements_positions
        rw [← EncoderData.removeElements_window] at hc
        simp only [hc]
        omega
      · exact ⟨_, _, if_neg hremove, if_neg fun hall => hremove hall.2.2, h, hpos⟩
    rw [FullEncoder.encode_eq hon hpos, hbase]
    simp only [hchosen, Option.some.injEq]
    obtain ⟨hcombines, hafter⟩ := FullEncoder.chosenPacket_combines hsummed hpos'
    refine ⟨hafter, fun m recovery hmade => ?_⟩
    rw [hmade] at hcombines
    exact hcombines
  · have hnone : t.encoder.encode = (t.encoder, none) := by
      unfold FullEncoder.encode
      by_cases hon : t.encoder.emergencyDisabled = true
      · rw [if_pos hon]
      · rw [if_neg hon, if_pos (by simp_all)]
    have hstays : ¬(t.encoder.emergencyDisabled = false ∧ 0 < t.encoder.data.window.count ∧
        kEncoderRemoveThreshold ≤ t.encoder.data.window.firstUnremovedElement) :=
      fun hall => hlive ⟨hall.1, hall.2.1⟩
    rw [hnone, if_neg hstays]
    exact ⟨h, fun _ _ hmade => absurd hmade (by simp)⟩

theorem Summed.step {t : TracedEncoder} (h : t.Summed) (call : EncoderCall) :
    (t.step call).Summed := by
  cases call with
  | add nowMsec data => exact h.add nowMsec data
  | removeBefore firstKeptColumn =>
    simp only [TracedEncoder.step, FullEncoder.removeBefore]
    cases t.encoder.emergencyDisabled with
    | true => exact h
    | false => exact EncoderData.Summed.removeBefore h firstKeptColumn
  | acknowledge nowMsec data => exact h.acknowledge nowMsec data
  | retransmit nowMsec retransmitMsec =>
    obtain ⟨lastSendMsec, heq⟩ := t.encoder.retransmit_data nowMsec retransmitMsec
    obtain ⟨hholds, hsums, hfits⟩ := h
    simp only [TracedEncoder.step, Summed, heq]
    refine ⟨hholds.of_eq rfl rfl rfl rfl rfl, fun hpos hrun => ?_, hfits⟩
    obtain ⟨start, ⟨hcolumn, hfirst, hsums, hnext⟩, hplace, hle, hend⟩ := hsums hpos hrun
    exact ⟨start, ⟨hcolumn, hfirst, hsums, hnext⟩, hplace, hle, hend⟩
  | encode => exact h.encode.1

theorem summed_run (calls : List EncoderCall) : (initial.run calls).Summed := by
  have hrun : ∀ (calls : List EncoderCall) (t : TracedEncoder), t.Summed →
      (t.run calls).Summed := by
    intro calls
    induction calls with
    | nil => exact fun t h => h
    | cons call calls ih => exact fun t h => ih _ (h.step call)
  exact hrun calls initial EncoderData.summed_initial

theorem encode_combines (calls : List EncoderCall) {e' : FullEncoder} {m : RecoveryMetadata}
    {recovery : DataBuffer}
    (hmade : (initial.run calls).encoder.encode = (e', some (m, recovery))) :
    Combines m recovery (initial.run calls).packets :=
  (summed_run calls).encode.2 m recovery (by rw [hmade])

end TracedEncoder
end Tonk.Siamese
