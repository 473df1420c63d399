import Tonk.Siamese.Attempt

set_option autoImplicit false

namespace Tonk.Siamese
open Elimination

variable {α β : Type}

def Enough (w : DecoderPacketWindow α) (packets : List (RecoveryPacket β)) (m : Nat) : Prop :=
  0 < m ∧ m ≤ packets.length ∧ (regionLost w packets m).length ≤ m

/-- The first packets Decode may try to solve: enough of them, and no more losses than it supports. -/
def Eligible (w : DecoderPacketWindow α) (packets : List (RecoveryPacket β)) (m : Nat) : Prop :=
  Enough w packets m ∧ (regionLost w packets m).length ≤ kMaximumLossRecoveryCount

/-- The packets at the front of the list whose region Decode does not look at any more. -/
def CheckedRegionState.ruledOut (region : CheckedRegionState) : Nat :=
  if region.solveFailed then region.recoveryCount else region.recoveryCount - 1

section Extend

variable {w : DecoderPacketWindow α} {packets : List (RecoveryPacket β)}
  {region : CheckedRegionState}

theorem CheckedRegionState.Over.extend (hregion : region.Over w packets) (h : Stocked w packets)
    {recovery : RecoveryPacket β} (hget : packets[region.recoveryCount]? = some recovery) :
    (region.extend w recovery).Over w packets := by
  have hpos := hregion.pos
  have hne : packets ≠ [] := fun hnil => by
    rw [hnil] at hget
    exact absurd hget (by simp)
  have hlt : region.recoveryCount < packets.length := List.getElem?_eq_some_iff.mp hget |>.1
  have hend : max recovery.elementEnd region.nextCheckStart =
      regionEnd packets (region.recoveryCount + 1) := by
    rw [regionEnd_succ hget, hregion.end_eq]
  have hlost : region.lostCount + w.rangeLostPackets region.nextCheckStart
      (max recovery.elementEnd region.nextCheckStart) =
        (regionLost w packets (region.recoveryCount + 1)).length := by
    rw [h.sound.counted.rangeLostPackets_eq, hend, hregion.end_eq, hregion.lost_eq,
      ← h.regionLost_append hpos (Nat.le_succ _) hne, List.length_append]
  refine ⟨Nat.succ_pos _, hlt, hregion.start_eq, hend, hlost, fun i hi => ?_, ?_⟩
  · simp only [CheckedRegionState.extend] at hi ⊢
    rcases Nat.lt_succ_iff_lt_or_eq.mp hi with hold | rfl
    · rw [List.getD_append _ _ _ _ (by rw [hregion.counts_length]; exact hold)]
      exact hregion.counts_eq i hold
    · rw [List.getD_append_right _ _ _ _ (by rw [hregion.counts_length]), hregion.counts_length,
        Nat.sub_self]
      exact hlost
  · simp only [CheckedRegionState.extend, List.length_append, hregion.counts_length,
      List.length_singleton]

theorem CheckedRegionState.Over.withFailed (hregion : region.Over w packets) (failed : Bool) :
    ({ region with solveFailed := failed } : CheckedRegionState).Over w packets :=
  ⟨hregion.pos, hregion.le_length, hregion.start_eq, hregion.end_eq, hregion.lost_eq,
    hregion.counts_eq, hregion.counts_length⟩

theorem CheckedRegionState.Over.extendWhile (hregion : region.Over w packets)
    (h : Stocked w packets) {rest : List (RecoveryPacket β)}
    (hrest : rest = packets.drop region.recoveryCount) :
    (extendWhile w rest region).Over w packets ∧
      region.recoveryCount ≤ (extendWhile w rest region).recoveryCount ∧
      (∀ k, region.ruledOut < k → k < (extendWhile w rest region).recoveryCount →
        ¬ Enough w packets k) ∧
      ((extendWhile w rest region).solveFailed = false →
        region.ruledOut < (extendWhile w rest region).recoveryCount) ∧
      ((extendWhile w rest region).solveFailed = true →
        (extendWhile w rest region) = region ∧ region.recoveryCount = packets.length) ∧
      ((extendWhile w rest region).recoveryCount < (extendWhile w rest region).lostCount →
        (extendWhile w rest region).recoveryCount = packets.length) := by
  induction rest generalizing region with
  | nil =>
    have hlength : region.recoveryCount = packets.length := by
      have hle := hregion.le_length
      have hdrop := congrArg List.length hrest
      rw [List.length_drop, List.length_nil] at hdrop
      omega
    have hpos := hregion.pos
    refine ⟨hregion, Nat.le_refl _, fun k hk hlt => ?_, fun hfailed => ?_, fun _ => ⟨rfl, hlength⟩,
      fun _ => hlength⟩
    · simp only [ruledOut, CheckedRegionState.extendWhile] at hk hlt
      split at hk <;> omega
    · simp only [CheckedRegionState.extendWhile] at hfailed
      simp only [ruledOut, hfailed, CheckedRegionState.extendWhile]
      exact Nat.sub_lt hpos Nat.one_pos
  | cons recovery rest ih =>
    have hget : packets[region.recoveryCount]? = some recovery := by
      rw [← List.head?_drop, ← hrest]
      rfl
    have hpos := hregion.pos
    rw [CheckedRegionState.extendWhile]
    split
    · next hmore =>
      have hrest' : rest = packets.drop (region.recoveryCount + 1) := by
        rw [← List.drop_drop, ← hrest]
        rfl
      have hover' := (hregion.extend h hget).withFailed false
      generalize hnext : ({ region.extend w recovery with solveFailed := false } :
        CheckedRegionState) = next at hover' ⊢
      have hcount : next.recoveryCount = region.recoveryCount + 1 := by
        rw [← hnext]
        rfl
      have hruled' : next.ruledOut = region.recoveryCount := by
        rw [← hnext]
        rfl
      obtain ⟨hover, hle, hnone, hruled, hfailed, hshort⟩ := ih hover' (by rw [hcount]; exact hrest')
      rw [hruled'] at hnone hruled
      rw [hcount] at hle
      refine ⟨hover, by omega, fun k hk hlt => ?_, fun hno => ?_, fun hyes => ?_, hshort⟩
      · by_cases hbefore : region.recoveryCount < k
        · exact hnone k hbefore hlt
        · -- the region itself was looked at, and was too small
          simp only [ruledOut] at hk
          split at hk
          · omega
          · next hfailed' =>
            have heq : k = region.recoveryCount := by omega
            intro henough
            have hlost := hregion.lost_eq
            have hle' := henough.2.2
            rw [heq] at hle'
            rcases hmore with hless | hfailed''
            · omega
            · exact hfailed' hfailed''
      · have hlt : region.ruledOut ≤ region.recoveryCount := by
          simp only [ruledOut]
          split <;> omega
        have := hruled hno
        omega
      · have hsame := (hfailed hyes).1
        rw [hsame, ← hnext] at hyes
        exact Bool.noConfusion hyes
    · next hstop =>
      rw [not_or] at hstop
      have hno : region.solveFailed = false := by simpa using hstop.2
      have hruled : region.ruledOut = region.recoveryCount - 1 := by
        simp only [ruledOut, hno]
        rfl
      refine ⟨hregion, Nat.le_refl _, fun k hk hlt => ?_, fun _ => ?_, fun hyes => ?_,
        fun hless => absurd hless hstop.1⟩
      · omega
      · omega
      · rw [hno] at hyes
        exact absurd hyes (by decide)

end Extend

namespace Solver

variable {s : Solver α β}

/-- The checked region and the matrix are reset, or those of the first packets of the list. -/
def Checked (s : Solver α β) : Prop :=
  s.checkedRegion = .reset ∧ s.recoveryMatrix = .reset ∨
    s.checkedRegion.Over s.decoder.window s.decoder.recoveryPackets ∧
      s.recoveryMatrix.Over s.decoder.window s.decoder.recoveryPackets s.originalColumn ∧
      s.recoveryMatrix.rowCount ≤ s.checkedRegion.recoveryCount

theorem Checked.matrix (h : s.Checked) :
    s.recoveryMatrix.Over s.decoder.window s.decoder.recoveryPackets s.originalColumn ∧
      s.recoveryMatrix.rowCount ≤ s.checkedRegion.recoveryCount := by
  rcases h with ⟨hregion, hmatrix⟩ | ⟨-, hmatrix, hle⟩
  · rw [hregion, hmatrix]
    exact ⟨RecoveryMatrixState.over_reset, Nat.le_refl 0⟩
  · exact ⟨hmatrix, hle⟩

structure Tried (s : Solver α β) (m : Nat) : Prop where
  eligible : Eligible s.decoder.window s.decoder.recoveryPackets m
  past : s.checkedRegion.ruledOut < m
  first : ∀ k, s.checkedRegion.ruledOut < k → k < m →
    ¬ Enough s.decoder.window s.decoder.recoveryPackets k

theorem Tried.unique {m n : Nat} (hm : s.Tried m) (hn : s.Tried n) : m = n := by
  rcases Nat.lt_trichotomy m n with hlt | heq | hgt
  · exact absurd hm.eligible.1 (hn.first m hm.past hlt)
  · exact heq
  · exact absurd hn.eligible.1 (hm.first n hn.past hgt)

structure Advanced (s s' : Solver α β) (possible : Bool) : Prop where
  decoder_eq : s'.decoder = s.decoder
  matrix_eq : s'.recoveryMatrix = s.recoveryMatrix
  checked : s'.Checked
  yes : possible = true → s'.checkedRegion.Over s.decoder.window s.decoder.recoveryPackets ∧
    s'.checkedRegion.solveFailed = false ∧ s.Tried s'.checkedRegion.recoveryCount
  no : possible = false → ∀ k, s.checkedRegion.ruledOut < k →
    ¬ Eligible s.decoder.window s.decoder.recoveryPackets k

theorem advanced_extendWhile (hstocked : Stocked s.decoder.window s.decoder.recoveryPackets)
    (hmatrix : s.recoveryMatrix.Over s.decoder.window s.decoder.recoveryPackets s.originalColumn)
    {region : CheckedRegionState}
    (hregion : region.Over s.decoder.window s.decoder.recoveryPackets)
    (hle : s.recoveryMatrix.rowCount ≤ region.recoveryCount)
    (hruled : region.ruledOut = s.checkedRegion.ruledOut) {rest : List (RecoveryPacket β)}
    (hrest : rest = s.decoder.recoveryPackets.drop region.recoveryCount) :
    s.Advanced { s with
      checkedRegion := CheckedRegionState.extendWhile s.decoder.window rest region }
      (CheckedRegionState.extendWhile s.decoder.window rest region).possible := by
  obtain ⟨hover, hmore, hnone, hpast, hfailed, hshort⟩ := hregion.extendWhile hstocked hrest
  rw [hruled] at hnone hpast
  generalize CheckedRegionState.extendWhile s.decoder.window rest region = region' at *
  have hlost := hover.lost_eq
  refine ⟨rfl, rfl, .inr ⟨hover, hmatrix, by simp only; omega⟩, fun hyes => ?_, fun hno k hk => ?_⟩
  · simp only [CheckedRegionState.possible, decide_eq_true_eq] at hyes
    obtain ⟨hmax, henough, hok⟩ := hyes
    refine ⟨hover, hok, ⟨⟨⟨hover.pos, hover.le_length, ?_⟩, ?_⟩, hpast hok, hnone⟩⟩
    · simp only
      omega
    · simp only
      omega
  · rintro ⟨⟨hpos, hlen, henough⟩, hmax⟩
    by_cases hlt : k < region'.recoveryCount
    · exact hnone k hk hlt ⟨hpos, hlen, henough⟩
    · have hmono := hstocked.regionLost_mono (Nat.le_of_not_lt hlt)
      simp only [CheckedRegionState.possible, decide_eq_false_iff_not, not_and] at hno
      by_cases hfew : region'.recoveryCount < region'.lostCount
      · have hend := hshort hfew
        have heq : k = region'.recoveryCount := by omega
        rw [heq] at henough
        omega
      · have hyes : region'.solveFailed = true := by
          simpa using hno (by omega) (by omega)
        obtain ⟨hsame, hlength⟩ := hfailed hyes
        rw [hsame] at hyes hlt
        rw [← hruled, CheckedRegionState.ruledOut, if_pos hyes] at hk
        omega

theorem checkRecoveryPossible_advanced (hok : s.decoder.emergencyDisabled = false)
    (hstocked : Stocked s.decoder.window s.decoder.recoveryPackets) (hchecked : s.Checked) :
    s.Advanced s.checkRecoveryPossible.1 s.checkRecoveryPossible.2 := by
  obtain ⟨hmatrix, hle⟩ := hchecked.matrix
  unfold checkRecoveryPossible
  simp only [hok, Bool.false_eq_true, if_false]
  split
  · next hzero =>
    rcases hchecked with ⟨hregion, hreset⟩ | ⟨hregion, -⟩
    · split
      · next hnil =>
        refine ⟨rfl, rfl, .inl ⟨hregion, hreset⟩, fun hyes => Bool.noConfusion hyes,
          fun _ k hk heligible => ?_⟩
        have hlen := heligible.1.2.1
        rw [hnil, List.length_nil] at hlen
        omega
      · next head rest hcons =>
        have hover : CheckedRegionState.Over ⟨head.elementStart, head.elementEnd, 1,
            s.decoder.window.rangeLostPackets head.elementStart head.elementEnd, false,
            [s.decoder.window.rangeLostPackets head.elementStart head.elementEnd]⟩
            s.decoder.window s.decoder.recoveryPackets := by
          have hlost : s.decoder.window.rangeLostPackets head.elementStart head.elementEnd =
              (regionLost s.decoder.window s.decoder.recoveryPackets 1).length := by
            rw [hstocked.sound.counted.rangeLostPackets_eq, hcons]
            simp [regionLost, regionStart, regionEnd]
          refine ⟨Nat.one_pos, ?_, ?_, ?_, hlost, fun i hi => ?_, rfl⟩
          · rw [hcons]
            simp
          · rw [hcons]
            rfl
          · rw [hcons]
            simp [regionEnd]
          · have heq : i = 0 := by
              simp only at hi
              omega
            rw [heq]
            exact hlost
        refine advanced_extendWhile hstocked hmatrix hover ?_ ?_ ?_
        · simp only
          omega
        · rw [hregion]
          rfl
        · rw [hcons]
          rfl
    · have := hregion.pos
      omega
  · next hpos =>
    rcases hchecked with ⟨hregion, -⟩ | ⟨hregion, -, -⟩
    · rw [hregion] at hpos
      exact absurd rfl hpos
    · have hlost := hregion.lost_eq
      have hcount := hregion.pos
      split
      · next hready =>
        have hruled : s.checkedRegion.ruledOut = s.checkedRegion.recoveryCount - 1 := by
          simp only [CheckedRegionState.ruledOut, hready.2]
          rfl
        refine ⟨rfl, rfl, .inr ⟨hregion, hmatrix, hle⟩, fun hyes => ?_, fun hno k hk => ?_⟩
        · simp only [decide_eq_true_eq] at hyes
          have htried : s.Tried s.checkedRegion.recoveryCount :=
            ⟨⟨⟨hcount, hregion.le_length, by omega⟩, by omega⟩, by omega, fun k hk hlt => by omega⟩
          exact ⟨hregion, hready.2, htried⟩
        · rintro ⟨-, hmax⟩
          have hmono := hstocked.regionLost_mono (show s.checkedRegion.recoveryCount ≤ k by omega)
          simp only [decide_eq_false_iff_not] at hno
          omega
      · exact advanced_extendWhile hstocked hmatrix hregion hle rfl rfl

end Solver

end Tonk.Siamese
