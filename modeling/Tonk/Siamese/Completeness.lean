import Tonk.Lib.Run
import Tonk.Siamese.CheckedRegion
import Tonk.Siamese.Substitution

set_option autoImplicit false

namespace Tonk.Siamese
open Elimination Transition

variable {α β : Type}

/-- The recovery matrix of the first `m` packets has full column rank. -/
def RegionFullRank (w : DecoderPacketWindow α) (packets : List (RecoveryPacket β)) (m : Nat) : Prop :=
  FullColumnRank (regionMatrix w packets m) m (regionLost w packets m).length

/-- The losses in the region of the first `m` packets can be recovered from these packets. -/
def Solvable (w : DecoderPacketWindow α) (packets : List (RecoveryPacket β)) (m : Nat) : Prop :=
  Eligible w packets m ∧ RegionFullRank w packets m

namespace Solver

variable {s : Solver α β}

/-- What an attempt needs to find. -/
structure Attempting (s : Solver α β) : Prop where
  stocked : Stocked s.decoder.window s.decoder.recoveryPackets
  region : s.checkedRegion.Over s.decoder.window s.decoder.recoveryPackets
  matrix : s.recoveryMatrix.Over s.decoder.window s.decoder.recoveryPackets s.originalColumn
  rows_le : s.recoveryMatrix.rowCount ≤ s.checkedRegion.recoveryCount
  enough : s.checkedRegion.lostCount ≤ s.checkedRegion.recoveryCount

theorem decrementElementCounters_decoder (s : Solver α β) (elementCount : Nat) :
    (s.decrementElementCounters elementCount).decoder = s.decoder := by
  unfold decrementElementCounters
  simp only
  split <;> rfl

theorem removeElements_decoder (s : Solver α β) :
    s.removeElements.decoder = s.decoder.removeElements := by
  rw [removeElements, decrementElementCounters_decoder]

theorem removeElements_resetRegion (s : Solver α β) : s.removeElements.resetRegion =
    { s with
      decoder := s.decoder.removeElements
      originalColumn := fun element => s.originalColumn (element + s.decoder.removedElementCount)
    }.resetRegion := by
  unfold removeElements decrementElementCounters
  simp only
  split <;> rfl

theorem Attempting.generated (h : s.Attempting) : ∃ m originalColumn, s.generateMatrix = { s with
      recoveryMatrix := m
      originalColumn := originalColumn } ∧
    m.Over s.decoder.window s.decoder.recoveryPackets originalColumn ∧
    m.rowCount = s.checkedRegion.recoveryCount ∧ (regionLost s.decoder.window
      s.decoder.recoveryPackets m.rowCount).length ≤ m.rowCount := by
  obtain ⟨m, originalColumn, heq, hover, hcount⟩ :=
    generateMatrix_over h.stocked h.region h.matrix h.rows_le
  have henough := h.enough
  rw [h.region.lost_eq] at henough
  exact ⟨m, originalColumn, heq, hover, hcount, by rw [hcount]; exact henough⟩

theorem Attempting.iterateNextExpected (h : s.Attempting) : s.decoder.iterateNextExpected
    s.checkedRegion.elementStart s.checkedRegion.nextCheckStart = true := by
  have hne : s.decoder.recoveryPackets ≠ [] := fun hnil => by
    have hpos := h.region.pos
    have hle := h.region.le_length
    rw [hnil, List.length_nil] at hle
    omega
  have hmem := h.stocked.next_mem_regionLost h.region.pos hne
  rw [regionLost, ← h.region.start_eq, ← h.region.end_eq] at hmem
  exact List.any_eq_true.mpr ⟨_, hmem, beq_self_eq_true _⟩

theorem Attempting.succeeds (h : s.Attempting) (hrank : RegionFullRank s.decoder.window
    s.decoder.recoveryPackets s.checkedRegion.recoveryCount) (solution : Option (Solution α)) :
    ∃ m originalColumn, s.decodeCheckedRegion solution =
      match solution with
      | none => ({ s with
          recoveryMatrix := m
          originalColumn := originalColumn }.disable, .disabled, [])
      | some solution =>
        let decoder := s.decoder.solve s.checkedRegion.elementStart s.checkedRegion.nextCheckStart
          solution.data solution.sumColumnStart solution.sumColumnCount
        ({ s with
          decoder := decoder
          originalColumn := originalColumn }.resetRegion, .success, decoder.recoveredPackets) := by
  obtain ⟨m, originalColumn, heq, hover, hcount, hle⟩ := h.generated
  obtain ⟨hiff, -, -⟩ := hover.gaussianElimination hle
  rw [hcount] at hiff
  unfold decodeCheckedRegion
  rw [heq]
  simp only [hiff.mpr hrank, if_true, h.iterateNextExpected]
  cases solution with
  | none => exact ⟨m.gaussianElimination.1, originalColumn, rfl⟩
  | some solution =>
    simp only [Decoder.solve]
    split
    · rw [removeElements_resetRegion, removeElements_decoder]
      exact ⟨m, _, rfl⟩
    · exact ⟨m, originalColumn, rfl⟩

theorem Attempting.fails (h : s.Attempting) (hrank : ¬ RegionFullRank s.decoder.window
    s.decoder.recoveryPackets s.checkedRegion.recoveryCount) (solution : Option (Solution α)) :
    ∃ m originalColumn, s.decodeCheckedRegion solution = ({ s with
        checkedRegion := { s.checkedRegion with solveFailed := true }
        recoveryMatrix := m
        originalColumn := originalColumn }, .needMoreData, []) ∧
      m.Over s.decoder.window s.decoder.recoveryPackets originalColumn ∧
      m.rowCount = s.checkedRegion.recoveryCount := by
  obtain ⟨m, originalColumn, heq, hover, hcount, hle⟩ := h.generated
  obtain ⟨hiff, -, hfalse⟩ := hover.gaussianElimination hle
  rw [hcount] at hiff
  have hno : m.gaussianElimination.2 = false := by
    cases hresult : m.gaussianElimination.2 with
    | true => exact absurd (hiff.mp hresult) hrank
    | false => rfl
  obtain ⟨hover', hcount'⟩ := hfalse hno
  refine ⟨m.gaussianElimination.1, originalColumn, ?_, hover', hcount'.trans hcount⟩
  unfold decodeCheckedRegion
  rw [heq]
  simp only [hno, Bool.false_eq_true, if_false]

theorem Attempting.turn (h : s.Attempting) (hrank : ¬ RegionFullRank s.decoder.window
    s.decoder.recoveryPackets s.checkedRegion.recoveryCount) (solution : Option (Solution α))
    {region : CheckedRegionState}
    (hfailed : s.checkedRegion.solveFailed = true ∨ region.lostCount ≤ region.recoveryCount) :
    ∃ s', (if region.lostCount ≤ region.recoveryCount then s.decodeCheckedRegion solution
        else (s, .needMoreData, [])) = (s', .needMoreData, []) ∧
      s'.decoder = s.decoder ∧ s'.Attempting ∧ s'.checkedRegion.solveFailed = true ∧
      s'.checkedRegion.recoveryCount = s.checkedRegion.recoveryCount := by
  by_cases henough : region.lostCount ≤ region.recoveryCount
  · obtain ⟨m, originalColumn, heq, hover, hcount⟩ := h.fails hrank solution
    rw [if_pos henough, heq]
    exact ⟨_, rfl, rfl, ⟨h.stocked, h.region.withFailed true, hover, Nat.le_of_eq hcount, h.enough⟩,
      rfl, rfl⟩
  · rw [if_neg henough]
    exact ⟨s, rfl, rfl, h, hfailed.resolve_right henough, rfl⟩

/-- Once the region has failed, Decode goes to the end of the list without trying another one: it
attempts the same region again. -/
theorem Attempting.decodeLoop_fails (h : s.Attempting) (hrank : ¬ RegionFullRank s.decoder.window
    s.decoder.recoveryPackets s.checkedRegion.recoveryCount) (solution : Option (Solution α))
    {rest : List (RecoveryPacket β)} {region : CheckedRegionState}
    (hregion : region.Over s.decoder.window s.decoder.recoveryPackets)
    (hle : s.checkedRegion.recoveryCount ≤ region.recoveryCount)
    (hrest : rest = s.decoder.recoveryPackets.drop region.recoveryCount)
    (hfailed : s.checkedRegion.solveFailed = true ∨ region.lostCount ≤ region.recoveryCount) :
    ∃ s', decodeLoop solution rest region s = (s', .needMoreData, []) ∧ s'.decoder = s.decoder ∧
      s'.Checked ∧ s'.checkedRegion.solveFailed = true ∧
      s'.checkedRegion.recoveryCount = s.decoder.recoveryPackets.length := by
  induction rest generalizing s region with
  | nil =>
    obtain ⟨s₁, hturn, hdecoder, hattempting, hfailed₁, hcount⟩ := h.turn hrank solution hfailed
    have hlength : region.recoveryCount = s.decoder.recoveryPackets.length := by
      have hdrop := congrArg List.length hrest
      have := hregion.le_length
      rw [List.length_drop, List.length_nil] at hdrop
      omega
    rw [decodeLoop, hturn]
    simp only [if_true]
    refine ⟨_, rfl, hdecoder, .inr ⟨?_, hattempting.matrix, ?_⟩, hfailed₁, hlength⟩
    · simp only [hdecoder]
      exact hregion.withFailed _
    · have := hattempting.rows_le
      simp only
      omega
  | cons recovery rest ih =>
    obtain ⟨s₁, hturn, hdecoder, hattempting, hfailed₁, hcount⟩ := h.turn hrank solution hfailed
    have hget : s.decoder.recoveryPackets[region.recoveryCount]? = some recovery := by
      rw [← List.head?_drop, ← hrest]
      rfl
    have hrest' : rest = s₁.decoder.recoveryPackets.drop (region.recoveryCount + 1) := by
      rw [hdecoder, ← List.drop_drop, ← hrest]
      rfl
    rw [decodeLoop, hturn]
    simp only [if_true]
    rw [← hdecoder] at hregion hrank ⊢
    rw [← hcount] at hrank hle
    exact ih hattempting hrank (hregion.extend hattempting.stocked (hdecoder ▸ hget))
      (by simp only [CheckedRegionState.extend]; omega) hrest' (.inl hfailed₁)

/-- What a call of Decode does when it has no packets to hand out. The packets it tries are fixed by
the state it starts from. -/
inductive Decoded (s : Solver α β) (solution : Option (Solution α)) :
    Solver α β × SiameseResult × List (Nat × α) → Prop where
  | needMoreData (s' : Solver α β) : s'.decoder = s.decoder → s'.Checked →
      (∀ m, s.Tried m → ¬ RegionFullRank s.decoder.window s.decoder.recoveryPackets m) →
      Decoded s solution (s', .needMoreData, [])
  | disabled (s' : Solver α β) (m : Nat) : s.Tried m →
      RegionFullRank s.decoder.window s.decoder.recoveryPackets m → solution = none →
      s'.decoder = s.decoder.disable → Decoded s solution (s', .disabled, [])
  | solved (s' : Solver α β) (m : Nat) (found : Solution α) : s.Tried m →
      RegionFullRank s.decoder.window s.decoder.recoveryPackets m → solution = some found →
      s'.decoder = s.decoder.solve (regionStart s.decoder.recoveryPackets)
        (regionEnd s.decoder.recoveryPackets m) found.data found.sumColumnStart
        found.sumColumnCount → s'.checkedRegion = .reset → s'.recoveryMatrix = .reset →
      Decoded s solution (s', .success, s'.decoder.recoveredPackets)

theorem decode_decoded (hok : s.decoder.emergencyDisabled = false)
    (hnone : s.decoder.hasRecoveredPackets = false)
    (hstocked : Stocked s.decoder.window s.decoder.recoveryPackets) (hchecked : s.Checked)
    (solution : Option (Solution α)) : s.Decoded solution (s.decode solution) := by
  have hadvanced := checkRecoveryPossible_advanced hok hstocked hchecked
  unfold decode
  simp only [hok, hnone, Bool.false_eq_true, if_false]
  generalize s.checkRecoveryPossible.1 = s₁ at *
  generalize s.checkRecoveryPossible.2 = possible at *
  have hdecoder := hadvanced.decoder_eq
  cases possible with
  | false =>
    exact .needMoreData s₁ hdecoder hadvanced.checked fun m htried =>
      absurd htried.eligible (hadvanced.no rfl m htried.past)
  | true =>
    obtain ⟨hover, hfailed, htried⟩ := hadvanced.yes rfl
    have henough := htried.eligible.1.2.2
    rw [← hover.lost_eq] at henough
    obtain ⟨hmatrix, hrows⟩ := hadvanced.checked.matrix
    rw [← hdecoder] at hover
    have hattempting : s₁.Attempting :=
      ⟨hdecoder ▸ hstocked, hover, hmatrix, hrows, henough⟩
    simp only [if_true]
    by_cases hrank : RegionFullRank s₁.decoder.window s₁.decoder.recoveryPackets
        s₁.checkedRegion.recoveryCount
    · obtain ⟨m, originalColumn, heq⟩ := hattempting.succeeds hrank solution
      rw [hdecoder] at hrank
      unfold decodeLoop
      simp only [if_pos henough, heq]
      cases solution with
      | none =>
        simp only [reduceCtorEq, if_false]
        refine .disabled _ _ htried hrank rfl ?_
        simp only [disable, hdecoder]
      | some found =>
        simp only [reduceCtorEq, if_false]
        refine .solved _ _ found htried hrank rfl ?_ rfl rfl
        simp only [resetRegion, hover.start_eq, hover.end_eq, hdecoder]
    · obtain ⟨s₂, heq, hdecoder₂, hchecked₂, -⟩ := hattempting.decodeLoop_fails hrank solution hover
        (Nat.le_refl _) rfl (.inr henough)
      rw [heq]
      refine .needMoreData s₂ (hdecoder₂.trans hdecoder) hchecked₂ fun m hm => ?_
      rw [← hdecoder, hm.unique htried]
      exact hrank

end Solver
end Tonk.Siamese
