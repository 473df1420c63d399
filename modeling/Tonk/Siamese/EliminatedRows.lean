import Tonk.Siamese.SumState

set_option autoImplicit false

namespace Tonk.Siamese
open Protocol Transition Finset

/-- The bytes of a packet that is there, and zeros for one that is not. -/
def heldBytes (received : Nat → Option OriginalPacket) (n : Nat) : Nat → GF256 :=
  ((received n).map OriginalPacket.buffer).elim 0 DataBuffer.padded

namespace DataBuffer

variable {d : DecoderData} {received : Nat → Option OriginalPacket} {base element : Nat}

@[simp] theorem length_addElement (w : DecoderPacketWindow OriginalPacket) (element : Nat)
    (buffer : DataBuffer) : (buffer.addElement w element).length = buffer.length := by
  unfold addElement
  split
  · rfl
  · exact length_addMem _ _

theorem padded_addElement (h : d.Holds received base) (element : Nat) (buffer : DataBuffer) {i : Nat}
    (hi : i < buffer.length) : (buffer.addElement d.window element).padded i =
      buffer.padded i + heldBytes received (base + element) i := by
  have hcontents := h.contents element
  unfold addElement heldBytes
  cases hget : d.window.getWindowElement element with
  | none =>
    rw [hget] at hcontents
    simp [← hcontents]
  | some original =>
    rw [hget] at hcontents
    rw [← hcontents]
    simp only [padded_addMem (List.length_take_le _ _), Pi.add_apply, padded_take _ hi,
      Option.map_some, Option.elim_some]

end DataBuffer

namespace DecoderData

variable {d : DecoderData} {received : Nat → Option OriginalPacket} {base start : Nat}

@[simp] theorem length_eliminateElement (metadata : RecoveryMetadata) (recovery : DataBuffer)
    (j : Nat) : (d.eliminateElement metadata recovery j).length = recovery.length := by
  unfold eliminateElement
  split
  · rfl
  · simp only
    split
    · exact DataBuffer.length_addMem _ _
    · exact DataBuffer.length_mulAddMem _ _ _

theorem padded_eliminateElement (h : d.Holds received base) {metadata : RecoveryMetadata}
    (hfew : metadata.sumCount ≤ siameseCauchyThreshold) (recovery : DataBuffer) (j : Nat) {i : Nat}
    (hi : i < recovery.length) : (d.eliminateElement metadata recovery j).padded i =
      recovery.padded i +
        rowValue metadata (columnOf (base + j)) * heldBytes received (base + j) i := by
  have hcontents := h.contents j
  unfold eliminateElement heldBytes
  cases hget : d.window.getWindowElement j with
  | none =>
    rw [hget] at hcontents
    simp [← hcontents]
  | some original =>
    rw [hget] at hcontents
    obtain ⟨hcolumn, -⟩ := h.packets _ _ hcontents.symm
    rw [← hcontents, rowValue, if_pos hfew]
    simp only [Option.map_some, Option.elim_some, hcolumn]
    split
    · rw [DataBuffer.padded_addMem (List.length_take_le _ _), Pi.add_apply,
        DataBuffer.padded_take _ hi, one_mul]
    · rw [DataBuffer.padded_mulAddMem _ (List.length_take_le _ _), Pi.add_apply, Pi.smul_apply,
        DataBuffer.padded_take _ hi, smul_eq_mul]

theorem padded_eliminateCauchy (h : d.Holds received base) {r : RecoveryPacket RecoveryData}
    (hfew : r.metadata.sumCount ≤ siameseCauchyThreshold) (hle : r.elementStart ≤ r.elementEnd) :
    (d.eliminateCauchy r).length = r.buffer.bytes.length ∧
      ∀ i < r.buffer.bytes.length, (d.eliminateCauchy r).padded i = r.buffer.bytes.padded i +
        ∑ n ∈ Ico (base + r.elementStart) (base + r.elementEnd),
          rowValue r.metadata (columnOf n) * heldBytes received n i := by
  have hloop : ∀ count, (((List.range' r.elementStart count).foldl
      (d.eliminateElement r.metadata) r.buffer.bytes)).length = r.buffer.bytes.length ∧
      ∀ i < r.buffer.bytes.length, (((List.range' r.elementStart count).foldl
        (d.eliminateElement r.metadata) r.buffer.bytes)).padded i = r.buffer.bytes.padded i +
          ∑ n ∈ Ico (base + r.elementStart) (base + r.elementStart + count),
            rowValue r.metadata (columnOf n) * heldBytes received n i := by
    intro count
    induction count with
    | zero => exact ⟨rfl, fun i _ => by simp⟩
    | succ count ih =>
      obtain ⟨hlength, hpadded⟩ := ih
      rw [List.range'_1_concat, List.foldl_append, List.foldl_cons, List.foldl_nil]
      refine ⟨by rw [length_eliminateElement, hlength], fun i hi => ?_⟩
      rw [padded_eliminateElement h hfew _ _ (by rw [hlength]; exact hi), hpadded i hi, add_assoc,
        ← Nat.add_assoc base, ← sum_Ico_succ_top (Nat.le_add_right _ _), Nat.add_assoc _ count]
  have hend : base + r.elementStart + (r.elementEnd - r.elementStart) = base + r.elementEnd := by
    omega
  have hall := hloop (r.elementEnd - r.elementStart)
  rw [hend] at hall
  exact hall

end DecoderData

namespace EliminateWorkspace

def byte (s : EliminateWorkspace) (row i : Nat) : GF256 :=
  s.recovery.padded i + getRowValue row * s.product.padded i

/-- The workspaces while a row of sums is eliminated. Only the sums of `d` change. -/
structure Eliminating (s : EliminateWorkspace) (d : DecoderData)
    (received : Nat → Option OriginalPacket) (base start elementEnd bytes : Nat) : Prop where
  holds : s.data.Holds received base
  sums : s.data.SumsFrom received [] base start
  within : s.data.Within elementEnd
  frame : { s.data with sums := d.sums } = d
  recovery_length : s.recovery.length = bytes
  product_length : s.product.length = bytes

variable {s : EliminateWorkspace} {d : DecoderData} {received : Nat → Option OriginalPacket}
variable {base start elementEnd bytes : Nat}

theorem Eliminating.eliminateSum (h : s.Eliminating d received base start elementEnd bytes)
    {laneIndex : Nat} (hlane : laneIndex < kColumnLaneCount) (row bit : Nat) :
    (eliminateSum laneIndex row elementEnd s bit).Eliminating d received base start elementEnd
        bytes ∧
      ∀ i < bytes, (EliminateWorkspace.eliminateSum laneIndex row elementEnd s bit).byte row i =
        s.byte row i + denseValue row laneIndex bit *
          laneSum (fun n => (received n).map OriginalPacket.buffer) laneIndex
            (bit % kColumnSumCount) start (base + elementEnd) i := by
  have hindex : bit % kColumnSumCount < kColumnSumCount := Nat.mod_lt _ (by decide)
  have hpadded := h.sums.padded_getSum h.holds h.within hlane hindex
  have hsums : (s.data.getSum laneIndex (bit % kColumnSumCount) elementEnd).1.SumsFrom received []
      base start := h.sums.getSum h.holds hindex elementEnd
  have hwithin := h.within.getSum hlane hindex
  have hholds : (s.data.getSum laneIndex (bit % kColumnSumCount) elementEnd).1.Holds received
      base := h.holds.of_window rfl
  have hframe : { (s.data.getSum laneIndex (bit % kColumnSumCount) elementEnd).1 with
      sums := d.sums } = d := h.frame
  unfold EliminateWorkspace.eliminateSum denseValue
  by_cases hset : (getRowOpcode laneIndex row).testBit bit = true
  · rw [if_pos hset, if_pos hset]
    generalize s.data.getSum laneIndex (bit % kColumnSumCount) elementEnd = made at *
    have htake : (made.2.take s.recovery.length).length ≤ bytes := by
      rw [h.recovery_length]
      exact List.length_take_le _ _
    have hbyte : ∀ i < bytes, DataBuffer.padded (made.2.take s.recovery.length) i =
        laneSum (fun n => (received n).map OriginalPacket.buffer) laneIndex
          (bit % kColumnSumCount) start (base + elementEnd) i := by
      intro i hi
      rw [DataBuffer.padded_take _ (by rw [h.recovery_length]; exact hi), hpadded]
    simp only
    by_cases hlow : bit < kColumnSumCount
    · rw [if_pos hlow, if_pos hlow]
      refine ⟨⟨hholds, hsums, hwithin, hframe, ?_, h.product_length⟩, fun i hi => ?_⟩
      · rw [DataBuffer.length_addMem]
        exact h.recovery_length
      · rw [byte, DataBuffer.padded_addMem (htake.trans h.recovery_length.ge), Pi.add_apply,
          hbyte i hi, byte]
        ring
    · rw [if_neg hlow, if_neg hlow]
      refine ⟨⟨hholds, hsums, hwithin, hframe, h.recovery_length, ?_⟩, fun i hi => ?_⟩
      · rw [DataBuffer.length_addMem]
        exact h.product_length
      · rw [byte, DataBuffer.padded_addMem (htake.trans h.product_length.ge), Pi.add_apply,
          hbyte i hi, byte]
        ring
  · rw [if_neg hset, if_neg hset]
    exact ⟨h, fun i _ => by ring⟩

theorem Eliminating.eliminateLane (h : s.Eliminating d received base start elementEnd bytes)
    {laneIndex : Nat} (hlane : laneIndex < kColumnLaneCount) (row : Nat) :
    ((List.range (2 * kColumnSumCount)).foldl
        (EliminateWorkspace.eliminateSum laneIndex row elementEnd) s).Eliminating d received base
          start elementEnd bytes ∧
      ∀ i < bytes, ((List.range (2 * kColumnSumCount)).foldl
        (EliminateWorkspace.eliminateSum laneIndex row elementEnd) s).byte row i =
          s.byte row i + denseLane (fun n => (received n).map OriginalPacket.buffer) row start
            (base + elementEnd) laneIndex i := by
  refine foldl_range_invariant (P := fun bits (s' : EliminateWorkspace) =>
    s'.Eliminating d received base start elementEnd bytes ∧
    ∀ i < bytes, s'.byte row i = s.byte row i + ∑ bit ∈ range bits,
      denseValue row laneIndex bit *
        laneSum (fun n => (received n).map OriginalPacket.buffer) laneIndex
          (bit % kColumnSumCount) start (base + elementEnd) i)
    ⟨h, fun i _ => by simp⟩ fun bit _ s' hs' => ?_
  obtain ⟨heliminating, hbyte⟩ := hs'.1.eliminateSum hlane row bit
  refine ⟨heliminating, fun i hi => ?_⟩
  rw [hbyte i hi, hs'.2 i hi, sum_range_succ, add_assoc]

theorem Eliminating.eliminateDense (h : s.Eliminating d received base start elementEnd bytes)
    (row : Nat) :
    (s.eliminateDense row elementEnd).Eliminating d received base start elementEnd bytes ∧
      ∀ i < bytes, (s.eliminateDense row elementEnd).byte row i = s.byte row i +
        ∑ n ∈ Ico start (base + elementEnd),
          sumValue row (columnOf n) * heldBytes received n i := by
  have hlanes : (s.eliminateDense row elementEnd).Eliminating d received base start elementEnd
      bytes ∧ ∀ i < bytes, (s.eliminateDense row elementEnd).byte row i = s.byte row i +
        ∑ l ∈ range kColumnLaneCount,
          denseLane (fun n => (received n).map OriginalPacket.buffer) row start
            (base + elementEnd) l i := by
    refine foldl_range_invariant (P := fun lanes (s' : EliminateWorkspace) =>
      s'.Eliminating d received base start elementEnd bytes ∧
      ∀ i < bytes, s'.byte row i = s.byte row i + ∑ l ∈ range lanes,
        denseLane (fun n => (received n).map OriginalPacket.buffer) row start
          (base + elementEnd) l i)
      ⟨h, fun i _ => by simp⟩ fun laneIndex hlane s' hs' => ?_
    obtain ⟨heliminating, hbyte⟩ := hs'.1.eliminateLane hlane row
    refine ⟨heliminating, fun i hi => ?_⟩
    rw [hbyte i hi, hs'.2 i hi, sum_range_succ, add_assoc]
  obtain ⟨heliminating, hbyte⟩ := hlanes
  refine ⟨heliminating, fun i hi => ?_⟩
  rw [hbyte i hi, sum_denseLane]
  rfl

theorem Eliminating.eliminateLight {metadata : RecoveryMetadata}
    {elementStart packetEnd stop : Nat} (hldpc : 0 < metadata.ldpcCount)
    (hplace : base + elementStart + metadata.ldpcCount = packetEnd)
    (hstop : stop ≤ base + elementStart) (pairs : Nat) (prng : PCGRandom)
    (s : EliminateWorkspace) (h : s.Eliminating d received base start elementEnd bytes) :
    (eliminateLight elementStart metadata.ldpcCount pairs prng s).Eliminating d received base start
        elementEnd bytes ∧
      ∀ i < bytes, (EliminateWorkspace.eliminateLight elementStart metadata.ldpcCount pairs prng
        s).byte metadata.row i = s.byte metadata.row i + ∑ n ∈ Ico stop packetEnd,
          lightCoefficient metadata packetEnd pairs prng n * heldBytes received n i := by
  induction pairs generalizing prng s with
  | zero =>
    exact ⟨h, fun i _ => by simp [EliminateWorkspace.eliminateLight, lightCoefficient]⟩
  | succ pairs ih =>
    have hmod1 := Nat.mod_lt prng.next.1.toNat hldpc
    have hmodRX := Nat.mod_lt prng.next.2.next.1.toNat hldpc
    have hmem : ∀ k < metadata.ldpcCount,
        packetEnd - metadata.ldpcCount + k ∈ Ico stop packetEnd := fun k hk =>
      mem_Ico.mpr ⟨by omega, by omega⟩
    have hmem1 := hmem _ hmod1
    have hmemRX := hmem _ hmodRX
    have hnumber : ∀ k, base + (elementStart + k) = packetEnd - metadata.ldpcCount + k := by
      intro k
      omega
    obtain ⟨heliminating, hbyte⟩ := ih prng.next.2.next.2 { s with
        recovery := s.recovery.addElement s.data.window
          (elementStart + prng.next.1.toNat % metadata.ldpcCount)
        product := s.product.addElement s.data.window
          (elementStart + prng.next.2.next.1.toNat % metadata.ldpcCount) }
      ⟨h.holds, h.sums, h.within, h.frame, by simp [h.recovery_length],
        by simp [h.product_length]⟩
    simp only [EliminateWorkspace.eliminateLight]
    refine ⟨heliminating, fun i hi => ?_⟩
    rw [hbyte i hi]
    simp only [lightCoefficient, add_mul, ite_mul, one_mul, zero_mul, sum_add_distrib,
      sum_ite_eq', hmem1, hmemRX, if_true]
    rw [byte, byte, DataBuffer.padded_addElement h.holds _ _ (by rw [h.recovery_length]; exact hi),
      DataBuffer.padded_addElement h.holds _ _ (by rw [h.product_length]; exact hi), hnumber,
      hnumber]
    ring

end EliminateWorkspace

namespace DecoderData

variable {d d' : DecoderData} {received : Nat → Option OriginalPacket} {base sumStart bound : Nat}
variable {r : RecoveryPacket RecoveryData} {packetEnd : Nat} {out : DataBuffer}

/-- A row whose packet ends at `packetEnd`, in a window that starts at `base`. -/
structure RowAt (d : DecoderData) (base packetEnd : Nat) (r : RecoveryPacket RecoveryData) :
    Prop where
  stored : r.StoredIn d.window
  endsAt : r.metadata.EndsAt packetEnd
  few_eq : r.metadata.sumCount ≤ siameseCauchyThreshold → r.metadata.ldpcCount = r.metadata.sumCount
  place : base + r.elementEnd = packetEnd

def heldSum (received : Nat → Option OriginalPacket) (metadata : RecoveryMetadata)
    (packetEnd i : Nat) : GF256 :=
  ∑ n ∈ Ico (packetEnd - metadata.sumCount) packetEnd,
    coefficient metadata packetEnd n * heldBytes received n i

theorem RowAt.eliminateCauchy (h : d.RowAt base packetEnd r) (hholds : d.Holds received base)
    (hfew : r.metadata.sumCount ≤ siameseCauchyThreshold) :
    (d.eliminateCauchy r).length = r.buffer.bytes.length ∧
      ∀ i < r.buffer.bytes.length, (d.eliminateCauchy r).padded i =
        r.buffer.bytes.padded i + heldSum received r.metadata packetEnd i := by
  have hplace := h.place
  have hstart := h.stored.start_eq
  have heq := h.few_eq hfew
  obtain ⟨hlength, hpadded⟩ := padded_eliminateCauchy hholds hfew (by omega)
  refine ⟨hlength, fun i hi => ?_⟩
  rw [hpadded i hi, heldSum, hplace,
    show base + r.elementStart = packetEnd - r.metadata.sumCount by omega]
  simp only [coefficient, lightPairs, hfew, if_true, lightCoefficient, add_zero]

theorem Running.eliminating (h : d.Running received [] base sumStart) (hwithin : d.Within bound)
    (hholds : d.Holds received base) (recovery : DataBuffer) :
    (EliminateWorkspace.mk d recovery (List.replicate recovery.length 0)).Eliminating d received
      base sumStart bound recovery.length :=
  ⟨hholds, h.sums, hwithin, rfl, rfl, List.length_replicate⟩

end DecoderData

namespace EliminateWorkspace

variable {s : EliminateWorkspace} {d : DecoderData} {received : Nat → Option OriginalPacket}
variable {base start elementEnd bytes : Nat}

theorem Eliminating.eq_data (h : s.Eliminating d received base start elementEnd bytes) :
    s.data = { d with sums := s.data.sums } := by
  rw [← h.frame]

theorem Eliminating.running (h : s.Eliminating d received base start elementEnd bytes)
    (hrunning : d.Running received [] base start) : s.data.Running received [] base start := by
  have heq := h.eq_data
  refine ⟨?_, ?_, List.nodup_nil, nofun, h.sums⟩
  · rw [heq]
    exact hrunning.column_eq
  · rw [heq]
    exact hrunning.columns_eq

end EliminateWorkspace

namespace DecoderData

variable {d d' : DecoderData} {received : Nat → Option OriginalPacket} {base sumStart bound : Nat}
variable {r : RecoveryPacket RecoveryData} {packetEnd : Nat} {out : DataBuffer}

theorem RowAt.eliminateSums (h : d.RowAt base packetEnd r) (hholds : d.Holds received base)
    (hmany : ¬ r.metadata.sumCount ≤ siameseCauchyThreshold)
    (hrunning : d.Running received [] base (packetEnd - r.metadata.sumCount))
    (hwithin : d.Within r.elementEnd) :
    let recovery := r.buffer.bytes
    let s := ((EliminateWorkspace.mk d recovery (List.replicate recovery.length 0)).eliminateDense
      r.metadata.row r.elementEnd).eliminateLight r.elementStart r.metadata.ldpcCount
        ((r.metadata.ldpcCount + kPairAddRate - 1) / kPairAddRate)
        (.seed (.ofNat r.metadata.row) (.ofNat r.metadata.ldpcCount))
    s.Eliminating d received base (packetEnd - r.metadata.sumCount) r.elementEnd recovery.length ∧
      ∀ i < recovery.length, s.byte r.metadata.row i =
        recovery.padded i + heldSum received r.metadata packetEnd i := by
  intro recovery s
  have hplace := h.place
  have hstart := h.stored.start_eq
  have hldpc := h.endsAt.ldpc_le
  have hpairs : (r.metadata.ldpcCount + kPairAddRate - 1) / kPairAddRate = lightPairs r.metadata :=
    (if_neg hmany).symm
  have hrange : base + r.elementStart + r.metadata.ldpcCount = packetEnd := by omega
  have hstop : packetEnd - r.metadata.sumCount ≤ base + r.elementStart := by omega
  obtain ⟨hdense, hdenseByte⟩ :=
    (hrunning.eliminating hwithin hholds recovery).eliminateDense r.metadata.row
  obtain ⟨hlight, hlightByte⟩ := EliminateWorkspace.Eliminating.eliminateLight h.stored.ldpc_pos
    hrange hstop ((r.metadata.ldpcCount + kPairAddRate - 1) / kPairAddRate)
    (.seed (.ofNat r.metadata.row) (.ofNat r.metadata.ldpcCount)) _ hdense
  refine ⟨hlight, fun i hi => ?_⟩
  have hfirst : (EliminateWorkspace.mk d recovery (List.replicate recovery.length 0)).byte
      r.metadata.row i = recovery.padded i := by
    simp [EliminateWorkspace.byte, DataBuffer.padded_replicate_zero]
  rw [hlightByte i hi, hdenseByte i hi, hfirst, hplace, add_assoc, ← sum_add_distrib, heldSum]
  refine congrArg (recovery.padded i + ·) (sum_congr rfl fun n _ => ?_)
  rw [coefficient, rowValue, if_neg hmany, hpairs, add_mul]

def SameStart (d : DecoderData) (sumStart packetEnd : Nat) (metadata : RecoveryMetadata) : Prop :=
  siameseCauchyThreshold < metadata.sumCount → metadata.columnStart = d.sumColumnStart →
    packetEnd - metadata.sumCount = sumStart

theorem RowAt.span (h : d.RowAt base packetEnd r) (hholds : d.Holds received base) :
    base + d.window.count ≤ packetEnd - r.metadata.sumCount + kColumnPeriod := by
  have hplace := h.place
  have hcount := hholds.sound.count_le
  have hsum := h.stored.readable.sum_le
  simp only [kColumnPeriod] at *
  omega

theorem SumState.eliminateRow {stored : List (RecoveryPacket RecoveryData)}
    (hstate : d.SumState stored received base sumStart bound) (hholds : d.Holds received base)
    (hr : r ∈ stored) (h : d.RowAt base r.buffer.packetEnd r) (hbound : bound ≤ r.elementEnd)
    (hsame : d.SameStart sumStart r.buffer.packetEnd r.metadata)
    (hmade : d.eliminateRow r = some (d', out)) :
    (out.length = r.buffer.bytes.length ∧ ∀ i < r.buffer.bytes.length, out.padded i =
      r.buffer.bytes.padded i + heldSum received r.metadata r.buffer.packetEnd i) ∧
    (d' = d ∨ siameseCauchyThreshold < r.metadata.sumCount ∧
      d' = { d with
        sums := d'.sums
        recoveredColumns := []
        sumColumnStart := r.metadata.columnStart
        sumColumnCount := r.metadata.sumCount } ∧
      d'.Running received [] base (r.buffer.packetEnd - r.metadata.sumCount) ∧
        d'.Within r.elementEnd) := by
  unfold DecoderData.eliminateRow at hmade
  simp only at hmade
  split at hmade
  · next hfew =>
    obtain ⟨rfl, rfl⟩ := Prod.mk.injEq .. ▸ Option.some.inj hmade
    exact ⟨h.eliminateCauchy hholds hfew, .inl rfl⟩
  · next hmany =>
    have hmany' := Nat.lt_of_not_le hmany
    have hplace := h.place
    have hend := h.stored.end_le
    have hpos := h.stored.readable.sum_pos
    have hsum := h.endsAt.sum_le
    obtain ⟨made, hstarted, hrest⟩ := Option.map_eq_some_iff.mp hmade
    obtain ⟨heq, hrunning, hwithin⟩ := hstate.startRow hholds h.endsAt.columnStart_eq (hsame hmany')
      (h.span hholds) (by omega) (fun hgiven => hgiven.stored_ge r hr hmany') hstarted
    have hwindow : made.window = d.window := by rw [heq]
    have hwithin' : made.Within r.elementEnd := hwithin.mono (by omega)
    have hholds' : made.Holds received base := hholds.of_window hwindow
    have hrow : made.RowAt base r.buffer.packetEnd r :=
      ⟨by rw [hwindow]; exact h.stored, h.endsAt, h.few_eq, hplace⟩
    obtain ⟨heliminating, hbyte⟩ := hrow.eliminateSums hholds' hmany hrunning hwithin'
    obtain ⟨rfl, rfl⟩ := Prod.mk.injEq .. ▸ hrest
    refine ⟨⟨?_, fun i hi => ?_⟩, .inr ⟨hmany', ?_, ?_, heliminating.within⟩⟩
    · rw [DataBuffer.length_mulAddMem]
      exact heliminating.recovery_length
    · rw [DataBuffer.padded_mulAddMem _
        (heliminating.product_length.trans heliminating.recovery_length.symm).le]
      exact hbyte i hi
    · rw [heliminating.eq_data, heq, h.endsAt.columnStart_eq]
    · exact heliminating.running hrunning

/-- Which packets the sums of a decoder are of after some rows of EliminateOriginalData. -/
def SumsOf (d d' : DecoderData) (received : Nat → Option OriginalPacket) (base : Nat)
    (packets : List (RecoveryPacket RecoveryData)) : Prop :=
  d' = d ∨ ∃ r ∈ packets, siameseCauchyThreshold < r.metadata.sumCount ∧
    d' = { d with
      sums := d'.sums
      recoveredColumns := []
      sumColumnStart := r.metadata.columnStart
      sumColumnCount := r.metadata.sumCount } ∧
    d'.Running received [] base (r.buffer.packetEnd - r.metadata.sumCount) ∧
      d'.Within r.elementEnd

def Eliminated (received : Nat → Option OriginalPacket) (r : RecoveryPacket RecoveryData)
    (out : DataBuffer) : Prop :=
  out.length = r.buffer.bytes.length ∧ ∀ i < r.buffer.bytes.length, out.padded i =
    r.buffer.bytes.padded i + heldSum received r.metadata r.buffer.packetEnd i

theorem RowAt.sameStart {r' : RecoveryPacket RecoveryData} (h : d.RowAt base r.buffer.packetEnd r)
    (h' : d.RowAt base r'.buffer.packetEnd r') (hholds : d.Holds received base) {made : DecoderData}
    (hmade : made.sumColumnStart = r.metadata.columnStart) :
    made.SameStart (r.buffer.packetEnd - r.metadata.sumCount) r'.buffer.packetEnd r'.metadata := by
  intro _ heq
  have hplace := h.place
  have hplace' := h'.place
  have hend := h.stored.end_le
  have hend' := h'.stored.end_le
  have hcolumn := h.endsAt.columnStart_eq
  have hcolumn' := h'.endsAt.columnStart_eq
  have hpos := h.stored.readable.sum_pos
  have hpos' := h'.stored.readable.sum_pos
  have hsum := h.endsAt.sum_le
  have hsum' := h'.endsAt.sum_le
  have hspan := h.span hholds
  have hspan' := h'.span hholds
  rw [hmade, hcolumn, hcolumn'] at heq
  simp only [columnOf, kColumnPeriod] at *
  omega

theorem RowAt.of_window {d' : DecoderData} (h : d.RowAt base packetEnd r)
    (hwindow : d'.window = d.window) : d'.RowAt base packetEnd r :=
  ⟨by rw [hwindow]; exact h.stored, h.endsAt, h.few_eq, h.place⟩

theorem SumState.eliminateOriginalRows {m : RecoveryMatrixState}
    {stored packets : List (RecoveryPacket RecoveryData)} {row : Nat} {buffers : List DataBuffer}
    (hstate : d.SumState stored received base sumStart bound) (hholds : d.Holds received base)
    (hmem : ∀ r ∈ packets, r ∈ stored) (hrows : ∀ r ∈ packets, d.RowAt base r.buffer.packetEnd r)
    (hordered : packets.Pairwise fun r r' => r.elementEnd ≤ r'.elementEnd)
    (hbound : ∀ r ∈ packets, bound ≤ r.elementEnd)
    (hsame : ∀ r ∈ packets, d.SameStart sumStart r.buffer.packetEnd r.metadata)
    (hmade : m.eliminateOriginalRows packets row d = some (d', buffers)) :
    (∀ i r, packets[i]? = some r → m.usedForSolution (row + i) = true →
      Eliminated received r (buffers.getD i [])) ∧ d.SumsOf d' received base packets := by
  induction packets generalizing d row sumStart bound d' buffers with
  | nil =>
    obtain ⟨rfl, rfl⟩ := Prod.mk.injEq .. ▸ Option.some.inj hmade
    exact ⟨fun i r hget => absurd hget (by simp), .inl rfl⟩
  | cons r rest ih =>
    obtain ⟨hfirst, hordered'⟩ := List.pairwise_cons.mp hordered
    have hrow := hrows r List.mem_cons_self
    have hrest := fun x hx => hrows x (List.mem_cons_of_mem r hx)
    have hmem' := fun x hx => hmem x (List.mem_cons_of_mem r hx)
    have hsame' := fun x hx => hsame x (List.mem_cons_of_mem r hx)
    unfold RecoveryMatrixState.eliminateOriginalRows at hmade
    split at hmade
    · next hused =>
      split at hmade
      · cases hmade
      · next made out hout =>
        obtain ⟨⟨d₁, outs⟩, hrec, heq⟩ := Option.map_eq_some_iff.mp hmade
        obtain ⟨rfl, rfl⟩ := Prod.mk.injEq .. ▸ heq
        obtain ⟨heliminated, hsums⟩ := hstate.eliminateRow hholds (hmem r List.mem_cons_self) hrow
          (hbound r List.mem_cons_self) (hsame r List.mem_cons_self) hout
        have hrec' : (∀ i x, rest[i]? = some x → m.usedForSolution (row + 1 + i) = true →
            Eliminated received x (outs.getD i [])) ∧
              d.SumsOf d₁ received base (r :: rest) := by
          rcases hsums with rfl | ⟨hmany, hframe, hrunning, hwithin⟩
          · obtain ⟨hall, hlast⟩ := ih hstate hholds hmem' hrest hordered'
              (fun x hx => hbound x (List.mem_cons_of_mem r hx)) hsame' hrec
            refine ⟨hall, hlast.imp_right fun ⟨x, hx, hx'⟩ => ⟨x, List.mem_cons_of_mem r hx, hx'⟩⟩
          · have hwindow : made.window = d.window := by rw [hframe]
            obtain ⟨hall, hlast⟩ := ih (.running [] hrunning hwithin) (hholds.of_window hwindow)
              hmem' (fun x hx => (hrest x hx).of_window hwindow) hordered' hfirst
              (fun x hx => hrow.sameStart (hrest x hx) hholds (by rw [hframe])) hrec
            refine ⟨hall, .inr ?_⟩
            rcases hlast with rfl | ⟨x, hx, hmany', hframe', hrunning', hwithin'⟩
            · exact ⟨r, List.mem_cons_self, hmany, hframe, hrunning, hwithin⟩
            · refine ⟨x, List.mem_cons_of_mem r hx, hmany', ?_, hrunning', hwithin'⟩
              rw [hframe', hframe]
        obtain ⟨hall, hlast⟩ := hrec'
        refine ⟨fun i x hget hx => ?_, hlast⟩
        cases i with
        | zero =>
          obtain rfl := Option.some.inj hget
          exact heliminated
        | succ i =>
          rw [show row + (i + 1) = row + 1 + i by omega] at hx
          exact hall i x hget hx
    · next hunused =>
      obtain ⟨⟨d₁, outs⟩, hrec, heq⟩ := Option.map_eq_some_iff.mp hmade
      obtain ⟨rfl, rfl⟩ := Prod.mk.injEq .. ▸ heq
      obtain ⟨hall, hlast⟩ := ih hstate hholds hmem' hrest hordered'
        (fun x hx => hbound x (List.mem_cons_of_mem r hx)) hsame' hrec
      refine ⟨fun i x hget hx => ?_,
        hlast.imp_right fun ⟨x, hx, hx'⟩ => ⟨x, List.mem_cons_of_mem r hx, hx'⟩⟩
      cases i with
      | zero => exact absurd hx hunused
      | succ i =>
        rw [show row + (i + 1) = row + 1 + i by omega] at hx
        exact hall i x hget hx

end DecoderData
end Tonk.Siamese
