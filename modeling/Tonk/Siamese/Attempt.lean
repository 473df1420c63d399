import Tonk.Siamese.RegionMatrix

set_option autoImplicit false

namespace Tonk.Siamese
open Elimination

variable {α β : Type}

/-- The checked region is that of the first packets of the list. -/
structure CheckedRegionState.Over (region : CheckedRegionState) (w : DecoderPacketWindow α)
    (packets : List (RecoveryPacket β)) : Prop where
  pos : 0 < region.recoveryCount
  le_length : region.recoveryCount ≤ packets.length
  start_eq : region.elementStart = regionStart packets
  end_eq : region.nextCheckStart = regionEnd packets region.recoveryCount
  lost_eq : region.lostCount = (regionLost w packets region.recoveryCount).length
  counts_eq : ∀ i, i < region.recoveryCount →
    region.lostCounts.getD i 0 = (regionLost w packets (i + 1)).length
  counts_length : region.lostCounts.length = region.recoveryCount

/-- The matrix is that of the first packets of the list, as far as an elimination has gone, and the
losses point to its columns. -/
structure RecoveryMatrixState.Over (m : RecoveryMatrixState) (w : DecoderPacketWindow α)
    (packets : List (RecoveryPacket β)) (originalColumn : Nat → Nat) : Prop where
  le_length : m.rowCount ≤ packets.length
  columns_eq : m.columns = regionColumns w packets m.rowCount
  previous_le : m.previousNextCheckStart ≤ regionEnd packets m.rowCount
  previous_lost : w.lost (max m.previousNextCheckStart (regionStart packets))
    (regionEnd packets m.rowCount) = []
  ready : m.Ready (regionMatrix w packets m.rowCount)
  counts_eq : m.geResumePivot = 0 → ∀ i, i < m.rowCount →
    m.matrixColumnCount i = (regionLost w packets (i + 1)).length
  points : ∀ c e, (regionLost w packets m.rowCount)[c]? = some e → originalColumn e = c

section

variable {w : DecoderPacketWindow α} {packets : List (RecoveryPacket β)} {originalColumn : Nat → Nat}

theorem RecoveryMatrixState.over_reset :
    RecoveryMatrixState.reset.Over w packets originalColumn where
  le_length := Nat.zero_le _
  columns_eq := by
    rw [regionColumns, show RecoveryMatrixState.reset.rowCount = 0 from rfl, regionLost_zero]
    rfl
  previous_le := Nat.zero_le _
  previous_lost := by
    simp [RecoveryMatrixState.reset, regionEnd, DecoderPacketWindow.lost]
  ready := by
    have huntouched : RecoveryMatrixState.reset.Untouched (regionMatrix w packets 0) :=
      ⟨rfl, fun i hi => absurd hi (Nat.not_lt_zero i), fun i hi => absurd hi (Nat.not_lt_zero i),
        fun i j _ hj => absurd hj (Nat.not_lt_zero j)⟩
    exact ⟨huntouched.eliminated, fun _ => huntouched, fun hpos => absurd hpos (Nat.lt_irrefl 0),
      fun hpos => absurd hpos (Nat.lt_irrefl 0)⟩
  counts_eq _ i hi := absurd hi (Nat.not_lt_zero i)
  points c e hget := by
    rw [show RecoveryMatrixState.reset.rowCount = 0 from rfl, regionLost_zero] at hget
    exact absurd hget (by simp)

theorem points_append {old found : List Nat} (hold : ∀ c e, old[c]? = some e → originalColumn e = c)
    (hnodup : (old ++ found).Nodup) (c e : Nat) (hget : (old ++ found)[c]? = some e) :
    (if e ∈ found then old.length + found.idxOf e else originalColumn e) = c := by
  have hdisjoint := List.disjoint_of_nodup_append hnodup
  by_cases hc : c < old.length
  · rw [List.getElem?_append_left hc] at hget
    rw [if_neg (hdisjoint (List.mem_of_getElem? hget)), hold c e hget]
  · rw [List.getElem?_append_right (Nat.le_of_not_lt hc)] at hget
    obtain ⟨hlt, heq⟩ := List.getElem?_eq_some_iff.mp hget
    rw [if_pos (List.mem_of_getElem? hget), ← heq,
      (List.Nodup.of_append_right hnodup).idxOf_getElem _ hlt]
    omega

theorem RecoveryMatrixState.Over.regionLost_append {m : RecoveryMatrixState}
    (hm : m.Over w packets originalColumn) (h : Stocked w packets) {n : Nat} (hn : 0 < n)
    (hne : packets ≠ []) (hle : m.rowCount ≤ n) :
    max m.previousNextCheckStart (regionStart packets) ≤ regionEnd packets n ∧
      regionLost w packets m.rowCount ++ w.lost
        (max m.previousNextCheckStart (regionStart packets)) (regionEnd packets n) =
          regionLost w packets n := by
  have hprevious := hm.previous_le
  have hstart := h.regionStart_le
  rcases Nat.eq_zero_or_pos m.rowCount with hzero | hpos
  · have hlt := h.next_lt hn hne
    rw [hzero] at hprevious ⊢
    have hnone : m.previousNextCheckStart = 0 := Nat.le_zero.mp hprevious
    rw [hnone, regionLost_zero, Nat.zero_max]
    exact ⟨by omega, rfl⟩
  · have hlt := h.next_lt hpos hne
    have hmono : regionEnd packets m.rowCount ≤ regionEnd packets n := regionEnd_mono hle
    refine ⟨by omega, ?_⟩
    rw [← h.regionLost_append hpos hle hne, ← w.lost_append (j := regionEnd packets m.rowCount)
      (by omega) hmono, hm.previous_lost, List.nil_append]

end

namespace Solver

variable {s : Solver α β}

theorem populateColumns_eq (h : Stocked s.decoder.window s.decoder.recoveryPackets)
    (hregion : s.checkedRegion.Over s.decoder.window s.decoder.recoveryPackets)
    (hm : s.recoveryMatrix.Over s.decoder.window s.decoder.recoveryPackets s.originalColumn)
    (hle : s.recoveryMatrix.rowCount ≤ s.checkedRegion.recoveryCount) :
    ∃ previous originalColumn, s.populateColumns s.checkedRegion.lostCount = { s with
        recoveryMatrix := { s.recoveryMatrix with
          columns := regionColumns s.decoder.window s.decoder.recoveryPackets
            s.checkedRegion.recoveryCount
          previousNextCheckStart := previous }
        originalColumn := originalColumn } ∧
      previous ≤ regionEnd s.decoder.recoveryPackets s.checkedRegion.recoveryCount ∧
      s.decoder.window.lost (max previous (regionStart s.decoder.recoveryPackets))
        (regionEnd s.decoder.recoveryPackets s.checkedRegion.recoveryCount) = [] ∧
      ∀ c e, (regionLost s.decoder.window s.decoder.recoveryPackets
        s.checkedRegion.recoveryCount)[c]? = some e → originalColumn e = c := by
  have hne : s.decoder.recoveryPackets ≠ [] := fun hnil => by
    have := hregion.pos
    have := hregion.le_length
    rw [hnil, List.length_nil] at this
    omega
  obtain ⟨hbefore, happend⟩ := hm.regionLost_append h hregion.pos hne hle
  have hlength := congrArg List.length happend
  rw [List.length_append, ← hregion.lost_eq] at hlength
  have hcolumns : s.recoveryMatrix.columns.length = (regionLost s.decoder.window
      s.decoder.recoveryPackets s.recoveryMatrix.rowCount).length := by
    rw [hm.columns_eq, length_regionColumns]
  unfold populateColumns
  simp only
  split
  · next hsame =>
    have hnone : s.decoder.window.lost (max s.recoveryMatrix.previousNextCheckStart
        (regionStart s.decoder.recoveryPackets))
          (regionEnd s.decoder.recoveryPackets s.checkedRegion.recoveryCount) = [] :=
      List.length_eq_zero_iff.mp (by omega)
    rw [hnone, List.append_nil] at happend
    refine ⟨s.recoveryMatrix.previousNextCheckStart, s.originalColumn, ?_,
      hm.previous_le.trans (regionEnd_mono hle), hnone, happend ▸ hm.points⟩
    rw [regionColumns, ← happend, ← regionColumns, ← hm.columns_eq]
  · next hmore =>
    have hscan : s.decoder.window.lostFrom
        ((s.checkedRegion.nextCheckStart + kSubwindowSize - 1) / kSubwindowSize -
          max s.recoveryMatrix.previousNextCheckStart s.checkedRegion.elementStart / kSubwindowSize)
        (max s.recoveryMatrix.previousNextCheckStart s.checkedRegion.elementStart / kSubwindowSize)
        (max s.recoveryMatrix.previousNextCheckStart s.checkedRegion.elementStart % kSubwindowSize) =
        s.decoder.window.lost (max s.recoveryMatrix.previousNextCheckStart
          (regionStart s.decoder.recoveryPackets))
          (regionEnd s.decoder.recoveryPackets s.checkedRegion.recoveryCount) ++
        s.decoder.window.lost (regionEnd s.decoder.recoveryPackets s.checkedRegion.recoveryCount)
          ((s.checkedRegion.nextCheckStart + kSubwindowSize - 1) / kSubwindowSize *
            kSubwindowSize) := by
      rw [hregion.start_eq, hregion.end_eq]
      generalize max s.recoveryMatrix.previousNextCheckStart
        (regionStart s.decoder.recoveryPackets) = first at *
      generalize regionEnd s.decoder.recoveryPackets s.checkedRegion.recoveryCount = stop at *
      have hsize : kSubwindowSize = 64 := rfl
      have hindex : first / kSubwindowSize ≤ (stop + kSubwindowSize - 1) / kSubwindowSize := by
        rw [hsize]
        omega
      rw [h.sound.counted.lostFrom_eq _ _ (Nat.le_of_lt (Nat.mod_lt _ (by decide))),
        Nat.div_add_mod', Nat.add_sub_cancel' hindex, s.decoder.window.lost_append hbefore]
      rw [hsize]
      omega
    have hnodup : (regionLost s.decoder.window s.decoder.recoveryPackets
        s.checkedRegion.recoveryCount).Nodup := s.decoder.window.lost_nodup _ _
    generalize s.decoder.window.lost (max s.recoveryMatrix.previousNextCheckStart
      (regionStart s.decoder.recoveryPackets))
      (regionEnd s.decoder.recoveryPackets s.checkedRegion.recoveryCount) = found at *
    have htake : s.checkedRegion.lostCount - s.recoveryMatrix.columns.length = found.length := by
      omega
    refine ⟨regionEnd s.decoder.recoveryPackets s.checkedRegion.recoveryCount, fun element =>
      if element ∈ found then s.recoveryMatrix.columns.length + found.idxOf element
      else s.originalColumn element, ?_, Nat.le_refl _, ?_, ?_⟩
    · rw [hscan, htake, List.take_left, if_neg (Nat.lt_irrefl _), hregion.end_eq, hcolumns,
        hm.columns_eq, regionColumns, ← List.map_append, happend, regionColumns]
    · have hlt := h.next_lt hregion.pos hne
      have hstart := h.regionStart_le
      rw [Nat.max_eq_left (by omega), DecoderPacketWindow.lost_self]
    · rw [← happend, hcolumns]
      exact points_append hm.points (happend ▸ hnodup)

def filledMatrix (s : Solver α β) (previous : Nat) (originalColumn : Nat → Nat) :
    RecoveryMatrixState :=
  let rows := s.checkedRegion.recoveryCount
  let oldRows := s.recoveryMatrix.rowCount
  let oldColumns := s.recoveryMatrix.columns.length
  let columns := regionColumns s.decoder.window s.decoder.recoveryPackets rows
  let startRow := if s.checkedRegion.lostCount ≤ oldColumns then oldRows else 0
  { s.recoveryMatrix with
    columns := columns
    previousNextCheckStart := previous
    rowCount := max oldRows rows
    matrixColumnCount := fun i => if oldRows ≤ i then s.checkedRegion.lostCounts.getD i 0
      else s.recoveryMatrix.matrixColumnCount i
    matrix := fun i =>
      match s.decoder.recoveryPackets[i]? with
      | none => s.recoveryMatrix.matrix i
      | some recovery =>
        if startRow ≤ i ∧ i < rows then
          fillRow s.decoder.window originalColumn recovery columns
            (if i < oldRows then oldColumns else 0) (s.recoveryMatrix.matrix i)
        else s.recoveryMatrix.matrix i }

theorem generateMatrix_eq (h : Stocked s.decoder.window s.decoder.recoveryPackets)
    (hregion : s.checkedRegion.Over s.decoder.window s.decoder.recoveryPackets)
    (hm : s.recoveryMatrix.Over s.decoder.window s.decoder.recoveryPackets s.originalColumn)
    (hle : s.recoveryMatrix.rowCount ≤ s.checkedRegion.recoveryCount) :
    ∃ previous originalColumn, s.generateMatrix = { s with
        recoveryMatrix := (s.filledMatrix previous originalColumn).resumeGE
          s.recoveryMatrix.rowCount s.checkedRegion.recoveryCount
        originalColumn := originalColumn } ∧
      previous ≤ regionEnd s.decoder.recoveryPackets s.checkedRegion.recoveryCount ∧
      s.decoder.window.lost (max previous (regionStart s.decoder.recoveryPackets))
        (regionEnd s.decoder.recoveryPackets s.checkedRegion.recoveryCount) = [] ∧
      ∀ c e, (regionLost s.decoder.window s.decoder.recoveryPackets
        s.checkedRegion.recoveryCount)[c]? = some e → originalColumn e = c := by
  obtain ⟨previous, originalColumn, hpopulate, hprevious, hnone, hpoints⟩ :=
    populateColumns_eq h hregion hm hle
  refine ⟨previous, originalColumn, ?_, hprevious, hnone, hpoints⟩
  have hlost : s.recoveryMatrix.columns.length ≤ s.checkedRegion.lostCount := by
    rw [hm.columns_eq, length_regionColumns, hregion.lost_eq]
    exact h.regionLost_mono hle
  unfold generateMatrix
  simp only
  rw [if_neg (by omega), hpopulate]
  simp only [populateRows]
  by_cases hresume : 0 < s.recoveryMatrix.geResumePivot
  · rw [if_pos hresume]
    rfl
  · rw [if_neg hresume]
    have hzero : (s.filledMatrix previous originalColumn).geResumePivot = 0 := by
      simp only [filledMatrix]
      omega
    rw [RecoveryMatrixState.resumeGE, hzero]
    rfl

theorem filledMatrix_grown (h : Stocked s.decoder.window s.decoder.recoveryPackets)
    (hregion : s.checkedRegion.Over s.decoder.window s.decoder.recoveryPackets)
    (hm : s.recoveryMatrix.Over s.decoder.window s.decoder.recoveryPackets s.originalColumn)
    (hle : s.recoveryMatrix.rowCount ≤ s.checkedRegion.recoveryCount) (previous : Nat)
    {originalColumn : Nat → Nat} (hpoints : ∀ c e, (regionLost s.decoder.window
      s.decoder.recoveryPackets s.checkedRegion.recoveryCount)[c]? = some e → originalColumn e = c) :
    s.recoveryMatrix.Grown (s.filledMatrix previous originalColumn)
      (regionMatrix s.decoder.window s.decoder.recoveryPackets s.recoveryMatrix.rowCount)
      (regionMatrix s.decoder.window s.decoder.recoveryPackets s.checkedRegion.recoveryCount) := by
  have hlength := hregion.le_length
  have hrows : (s.filledMatrix previous originalColumn).rowCount = s.checkedRegion.recoveryCount :=
    Nat.max_eq_right hle
  have hcolumns : s.recoveryMatrix.columns.length = (regionLost s.decoder.window
      s.decoder.recoveryPackets s.recoveryMatrix.rowCount).length := by
    rw [hm.columns_eq, length_regionColumns]
  have hcolumns' : (s.filledMatrix previous originalColumn).columns.length = (regionLost s.decoder.window
      s.decoder.recoveryPackets s.checkedRegion.recoveryCount).length := length_regionColumns
  have hmono : (regionLost s.decoder.window s.decoder.recoveryPackets
      s.recoveryMatrix.rowCount).length ≤ (regionLost s.decoder.window
        s.decoder.recoveryPackets s.checkedRegion.recoveryCount).length := h.regionLost_mono hle
  have hmatrix : ∀ i, ∀ hi : i < s.decoder.recoveryPackets.length,
      (s.filledMatrix previous originalColumn).matrix i =
        if (if s.checkedRegion.lostCount ≤ s.recoveryMatrix.columns.length then
            s.recoveryMatrix.rowCount else 0) ≤ i ∧ i < s.checkedRegion.recoveryCount then
          fillRow s.decoder.window (listedColumn s.decoder.window
            (regionColumns s.decoder.window s.decoder.recoveryPackets s.checkedRegion.recoveryCount))
            (s.decoder.recoveryPackets.get ⟨i, hi⟩)
            (regionColumns s.decoder.window s.decoder.recoveryPackets s.checkedRegion.recoveryCount)
            (if i < s.recoveryMatrix.rowCount then s.recoveryMatrix.columns.length else 0)
            (s.recoveryMatrix.matrix i)
        else s.recoveryMatrix.matrix i := by
    intro i hi
    have hget := List.getElem?_eq_getElem hi
    simp only [filledMatrix, hget]
    refine if_ctx_congr Iff.rfl (fun hfill => ?_) fun _ => rfl
    exact h.fillRow_points hget hfill.2 hpoints _
  refine ⟨by rw [hrows]; exact hle, by rw [hcolumns, hcolumns']; exact hmono, rfl, rfl,
    fun i hi c hc => ⟨?_, ?_⟩, fun i hi c hge hc => ⟨?_, ?_⟩, fun i hge hi c hc => ?_,
    fun i hi => ?_, fun i hge hi c hcount hc => ?_, fun hresume i j hij hj => ?_⟩
  · rw [hcolumns] at hc
    exact h.regionMatrix_old (by omega) hi hle hc
  · rw [hmatrix i (by omega), if_pos hi]
    by_cases hfill : (if s.checkedRegion.lostCount ≤ s.recoveryMatrix.columns.length then
        s.recoveryMatrix.rowCount else 0) ≤ i ∧ i < s.checkedRegion.recoveryCount
    · rw [if_pos hfill]
      exact fillRow_of_lt hc
    · rw [if_neg hfill]
  · rw [hcolumns] at hge
    rw [hcolumns'] at hc
    exact h.regionMatrix_right (by omega) hi hle hge hc
  · rw [hcolumns'] at hc
    have hlost := hregion.lost_eq
    have hfill : (if s.checkedRegion.lostCount ≤ s.recoveryMatrix.columns.length then
        s.recoveryMatrix.rowCount else 0) ≤ i ∧ i < s.checkedRegion.recoveryCount := by
      rw [if_neg (by omega)]
      omega
    rw [hmatrix i (by omega), if_pos hi, if_pos hfill]
    exact h.fillRow_right (List.getElem?_eq_getElem (by omega)) hi hle (by omega) hc hge
  · rw [hrows] at hi
    rw [hcolumns'] at hc
    rw [hmatrix i (by omega), if_neg (show ¬ i < s.recoveryMatrix.rowCount by omega), if_pos]
    · exact h.fillRow_new (List.getElem?_eq_getElem (by omega)) hc
    · refine ⟨?_, hi⟩
      split <;> omega
  · exact if_neg (by omega)
  · rw [hrows] at hi
    rw [hcolumns'] at hc
    have hcount' : (s.filledMatrix previous originalColumn).matrixColumnCount i =
        s.checkedRegion.lostCounts.getD i 0 := if_pos hge
    rw [hcount', hregion.counts_eq i hi] at hcount
    exact h.regionMatrix_right (by omega) (Nat.lt_succ_self i) hi hcount hc
  · rw [hrows] at hj
    have hcounts : ∀ k, k < s.checkedRegion.recoveryCount →
        (s.filledMatrix previous originalColumn).matrixColumnCount k =
          (regionLost s.decoder.window s.decoder.recoveryPackets (k + 1)).length := by
      intro k hk
      by_cases hold : s.recoveryMatrix.rowCount ≤ k
      · exact (if_pos hold).trans (hregion.counts_eq k hk)
      · exact (if_neg hold).trans (hm.counts_eq hresume k (by omega))
    rw [hcounts i (by omega), hcounts j hj]
    exact h.regionLost_mono (by omega)

theorem generateMatrix_over (h : Stocked s.decoder.window s.decoder.recoveryPackets)
    (hregion : s.checkedRegion.Over s.decoder.window s.decoder.recoveryPackets)
    (hm : s.recoveryMatrix.Over s.decoder.window s.decoder.recoveryPackets s.originalColumn)
    (hle : s.recoveryMatrix.rowCount ≤ s.checkedRegion.recoveryCount) :
    ∃ m originalColumn, s.generateMatrix = { s with
        recoveryMatrix := m
        originalColumn := originalColumn } ∧
      m.Over s.decoder.window s.decoder.recoveryPackets originalColumn ∧
      m.rowCount = s.checkedRegion.recoveryCount := by
  obtain ⟨previous, originalColumn, heq, hprevious, hnone, hpoints⟩ :=
    generateMatrix_eq h hregion hm hle
  have hgrown := filledMatrix_grown h hregion hm hle previous hpoints
  have hrows : (s.filledMatrix previous originalColumn).rowCount = s.checkedRegion.recoveryCount :=
    Nat.max_eq_right hle
  obtain ⟨hframe, hready⟩ := hm.ready.resumeGE hgrown
  rw [hrows] at hframe hready
  have hcount := hframe.rowCount.trans hrows
  refine ⟨_, originalColumn, heq, ⟨?_, ?_, ?_, ?_, ?_, ?_, ?_⟩, hcount⟩
  · rw [hcount]
    exact hregion.le_length
  · rw [hcount]
    exact hframe.columns
  · rw [hcount, hframe.previousNextCheckStart]
    exact hprevious
  · rw [hcount, hframe.previousNextCheckStart]
    exact hnone
  · rw [hcount]
    exact hready
  · intro hzero i hi
    rw [hcount] at hi
    rw [hframe.geResumePivot] at hzero
    have hsame : (s.filledMatrix previous originalColumn).resumeGE s.recoveryMatrix.rowCount
        s.checkedRegion.recoveryCount = s.filledMatrix previous originalColumn := by
      rw [RecoveryMatrixState.resumeGE, hzero]
      rfl
    rw [hsame]
    by_cases hold : s.recoveryMatrix.rowCount ≤ i
    · exact (if_pos hold).trans (hregion.counts_eq i hi)
    · exact (if_neg hold).trans (hm.counts_eq (hgrown.geResumePivot ▸ hzero) i (by omega))
  · rw [hcount]
    exact hpoints

end Solver

/-- An attempt on the matrix of the first packets succeeds exactly when it has full column rank, and
leaves a matrix to go on from when it fails. -/
theorem RecoveryMatrixState.Over.gaussianElimination {w : DecoderPacketWindow α}
    {packets : List (RecoveryPacket β)} {originalColumn : Nat → Nat} {m : RecoveryMatrixState}
    (hm : m.Over w packets originalColumn)
    (hle : (regionLost w packets m.rowCount).length ≤ m.rowCount) :
    (m.gaussianElimination.2 = true ↔ FullColumnRank (regionMatrix w packets m.rowCount) m.rowCount
      (regionLost w packets m.rowCount).length) ∧
    (m.gaussianElimination.2 = true →
      m.gaussianElimination.1.Solved (regionMatrix w packets m.rowCount) ∧
      m.gaussianElimination.1.columns = m.columns ∧
      m.gaussianElimination.1.rowCount = m.rowCount) ∧
    (m.gaussianElimination.2 = false → m.gaussianElimination.1.Over w packets originalColumn ∧
      m.gaussianElimination.1.rowCount = m.rowCount) := by
  have hlength : m.columns.length = (regionLost w packets m.rowCount).length := by
    rw [hm.columns_eq, length_regionColumns]
  have hrows : m.columns.length ≤ m.rowCount := by
    rw [hlength]
    exact hle
  have hiff := hm.ready.gaussianElimination_iff hrows
  rw [hlength] at hiff
  obtain ⟨hcolumns, hcount, hprevious, htrue, hfalse⟩ := hm.ready.gaussianElimination hrows
  refine ⟨hiff, fun hyes => ⟨htrue hyes, hcolumns, hcount⟩, fun hno => ⟨?_, hcount⟩⟩
  obtain ⟨-, hready, huntouched⟩ := hfalse hno
  refine ⟨?_, ?_, ?_, ?_, ?_, ?_, ?_⟩
  · rw [hcount]
    exact hm.le_length
  · rw [hcount, hcolumns]
    exact hm.columns_eq
  · rw [hcount, hprevious]
    exact hm.previous_le
  · rw [hcount, hprevious]
    exact hm.previous_lost
  · rw [hcount]
    exact hready
  · intro hzero i hi
    obtain ⟨hzero', hcounts⟩ := huntouched hzero
    rw [hcounts]
    exact hm.counts_eq hzero' i (hcount ▸ hi)
  · rw [hcount]
    exact hm.points

end Tonk.Siamese
