import Tonk.Siamese.CheckedRegion

set_option autoImplicit false

namespace Tonk.Siamese

variable {α β : Type}

/-- A recovery packet in a window that has slid by `k` elements. -/
def RecoveryPacket.slid (r : RecoveryPacket β) (k : Nat) : RecoveryPacket β :=
  { r with elementStart := r.elementStart - k, elementEnd := r.elementEnd - k }

/-- The first `n` packets and the window below their end are the same, `k` elements further back. -/
structure Moved (w w' : DecoderPacketWindow α) (packets packets' : List (RecoveryPacket β))
    (n k : Nat) : Prop where
  stocked : Stocked w packets
  stocked' : Stocked w' packets'
  pos : 0 < n
  le_length : n ≤ packets.length
  le_length' : n ≤ packets'.length
  packets_eq : ∀ i, i < n → packets'[i]? = packets[i]?.map fun r => r.slid k
  start_ge : ∀ r ∈ packets, k ≤ r.elementStart
  column_eq : ∀ e, k ≤ e → w'.elementToColumn (e - k) = w.elementToColumn e
  got_eq : ∀ e, k ≤ e → e < regionEnd packets n → w'.isGot (e - k) = w.isGot e

section Moved

variable {w w' : DecoderPacketWindow α} {packets packets' : List (RecoveryPacket β)} {n k m : Nat}

theorem Moved.regionStart_eq (h : Moved w w' packets packets' n k) :
    regionStart packets' = regionStart packets - k ∧ k ≤ regionStart packets := by
  have hzero := h.packets_eq 0 h.pos
  have hpos := h.pos
  have hlength := h.le_length
  cases hpackets : packets with
  | nil =>
    rw [hpackets, List.length_nil] at hlength
    omega
  | cons head rest =>
    rw [hpackets] at hzero
    cases packets' with
    | nil => exact absurd hzero (by simp)
    | cons head' rest' =>
      simp only [List.getElem?_cons_zero, Option.map_some, Option.some.injEq] at hzero
      rw [hzero]
      exact ⟨rfl, h.start_ge head (by rw [hpackets]; exact List.mem_cons_self)⟩

theorem Moved.regionEnd_eq (h : Moved w w' packets packets' n k) (hm : m ≤ n) :
    regionEnd packets' m = regionEnd packets m - k := by
  induction m with
  | zero => exact (Nat.zero_sub k).symm
  | succ m ih =>
    have hlt : m < packets.length := by
      have := h.le_length
      omega
    have hget := List.getElem?_eq_getElem hlt
    have hget' := h.packets_eq m hm
    rw [hget] at hget'
    rw [regionEnd_succ hget, regionEnd_succ hget', ih (by omega)]
    simp only [RecoveryPacket.slid]
    omega

theorem Moved.regionLost_eq (h : Moved w w' packets packets' n k) (hm : m ≤ n) :
    regionLost w packets m = (regionLost w' packets' m).map fun e => k + e := by
  obtain ⟨hstart, hge⟩ := h.regionStart_eq
  have hend := h.regionEnd_eq hm
  have hmono : regionEnd packets m ≤ regionEnd packets n := regionEnd_mono hm
  rw [regionLost, regionLost, DecoderPacketWindow.lost, DecoderPacketWindow.lost, hstart, hend]
  have hlength : regionEnd packets m - k - (regionStart packets - k) =
      regionEnd packets m - regionStart packets := by omega
  have hfirst : List.range' (regionStart packets) (regionEnd packets m - regionStart packets) =
      (List.range' (regionStart packets - k)
        (regionEnd packets m - regionStart packets)).map fun e => k + e := by
    rw [List.map_add_range', Nat.add_sub_cancel' hge]
  rw [hlength, hfirst, List.filter_map]
  congr 1
  refine List.filter_congr fun e he => ?_
  rw [List.mem_range'_1] at he
  have hgot := h.got_eq (k + e) (Nat.le_add_right k e) (by omega)
  rw [Nat.add_sub_cancel_left] at hgot
  simp only [Function.comp_apply, hgot]

theorem Moved.length_regionLost (h : Moved w w' packets packets' n k) (hm : m ≤ n) :
    (regionLost w' packets' m).length = (regionLost w packets m).length := by
  rw [h.regionLost_eq hm, List.length_map]

theorem Moved.regionColumns_eq (h : Moved w w' packets packets' n k) (hm : m ≤ n) :
    regionColumns w' packets' m = regionColumns w packets m := by
  rw [regionColumns, regionColumns, h.regionLost_eq hm, List.map_map]
  refine List.map_congr_left fun e _ => ?_
  have hcolumn := h.column_eq (k + e) (Nat.le_add_right k e)
  rw [Nat.add_sub_cancel_left] at hcolumn
  exact hcolumn

theorem Moved.regionMatrix_eq (h : Moved w w' packets packets' n k) (hm : m ≤ n) {i : Nat}
    (hi : i < n) : regionMatrix w' packets' m i = regionMatrix w packets m i := by
  have hlt : i < packets.length := Nat.lt_of_lt_of_le hi h.le_length
  have hget := List.getElem?_eq_getElem hlt
  have hget' : packets'[i]? = some ((packets[i]).slid k) := by
    rw [h.packets_eq i hi, hget]
    rfl
  rw [regionMatrix_of_get hget, regionMatrix_of_get hget', h.regionColumns_eq hm]
  have hstored := h.stocked.get hget
  have hge := h.start_ge _ (List.mem_of_getElem? hget)
  have hstart := hstored.start_eq
  have hend := le_regionEnd hi hget
  have hmove : ∀ j, (packets[i]).elementStart - k + j = (packets[i]).elementStart + j - k := by
    intro j
    omega
  have hmetadata : ((packets[i]).slid k).metadata = (packets[i]).metadata := rfl
  refine fillRow_congr hmetadata hstored.ldpc_pos (fun j hj => ?_) (fun j hj _ => ?_) _ _ _
  · simp only [RecoveryPacket.slid, hmove]
    rw [← h.stocked.sound.got_eq, ← h.stocked'.sound.got_eq]
    exact h.got_eq _ (by omega) (by omega)
  · simp only [RecoveryPacket.slid, hmove, listedColumn]
    rw [h.column_eq _ (by omega)]

theorem CheckedRegionState.Over.moved {region : CheckedRegionState} (hregion : region.Over w packets)
    (h : Moved w w' packets packets' region.recoveryCount k) :
    ({ region with
      elementStart := region.elementStart - k
      nextCheckStart := region.nextCheckStart - k } : CheckedRegionState).Over w' packets' := by
  refine ⟨hregion.pos, h.le_length', ?_, ?_, ?_, fun i hi => ?_, hregion.counts_length⟩
  · simp only
    rw [hregion.start_eq, h.regionStart_eq.1]
  · simp only
    rw [hregion.end_eq, h.regionEnd_eq (Nat.le_refl _)]
  · simp only
    rw [hregion.lost_eq, h.length_regionLost (Nat.le_refl _)]
  · simp only at hi ⊢
    rw [hregion.counts_eq i hi, h.length_regionLost hi]

theorem RecoveryMatrixState.Ready.congr {state : RecoveryMatrixState} {a a' : Nat → Nat → GF256}
    (h : state.Ready a) (ha : ∀ i, i < state.rowCount → a' i = a i) (previous : Nat) :
    ({ state with previousNextCheckStart := previous } : RecoveryMatrixState).Ready a' := by
  have hechelon := h.eliminated.echelon
  refine ⟨⟨⟨hechelon.fixed, fun i hi c hc => ?_, hechelon.pivot_ne, hechelon.le_rows,
    hechelon.le_columns⟩, h.eliminated.bounded⟩, fun hzero => ?_, h.lt, h.zero⟩
  · simp only at hi hc ⊢
    rw [ha _ (Elimination.piv_lt hechelon.fixed hi)]
    exact hechelon.factored i hi c hc
  · have huntouched := h.untouched hzero
    refine ⟨huntouched.pivots_eq, fun i hi c hc => ?_, huntouched.bounded, huntouched.mono⟩
    simp only at hi hc ⊢
    rw [ha i hi]
    exact huntouched.matrix_eq i hi c hc

theorem RecoveryMatrixState.Over.moved {state : RecoveryMatrixState} {originalColumn : Nat → Nat}
    (hm : state.Over w packets originalColumn) (h : Moved w w' packets packets' n k)
    (hle : state.rowCount ≤ n) :
    ({ state with
      previousNextCheckStart := state.previousNextCheckStart - k } : RecoveryMatrixState).Over w'
        packets' fun element => originalColumn (element + k) := by
  obtain ⟨hstart, hge⟩ := h.regionStart_eq
  refine ⟨hle.trans h.le_length', ?_, ?_, ?_, ?_, fun hzero i hi => ?_, fun c e hget => ?_⟩
  · simp only
    rw [h.regionColumns_eq hle, hm.columns_eq]
  · simp only
    rw [h.regionEnd_eq hle]
    exact Nat.sub_le_sub_right hm.previous_le k
  · refine List.eq_nil_iff_forall_not_mem.mpr fun e he => ?_
    simp only [DecoderPacketWindow.mem_lost] at he
    rw [hstart, h.regionEnd_eq hle] at he
    obtain ⟨hfirst, hlt, hmissing⟩ := he
    have hend : regionEnd packets state.rowCount ≤ regionEnd packets n := regionEnd_mono hle
    have hgot := h.got_eq (k + e) (Nat.le_add_right k e) (by omega)
    rw [Nat.add_sub_cancel_left, hmissing] at hgot
    have hmem : k + e ∈ w.lost (max state.previousNextCheckStart (regionStart packets))
        (regionEnd packets state.rowCount) :=
      DecoderPacketWindow.mem_lost.mpr ⟨by omega, by omega, hgot.symm⟩
    rw [hm.previous_lost] at hmem
    exact absurd hmem List.not_mem_nil
  · simp only
    exact hm.ready.congr (fun i hi => h.regionMatrix_eq hle (Nat.lt_of_lt_of_le hi hle)) _
  · simp only at hzero hi ⊢
    rw [hm.counts_eq hzero i hi, h.length_regionLost (by omega)]
  · simp only at hget
    refine hm.points c (e + k) ?_
    rw [h.regionLost_eq hle, List.getElem?_map, hget, Option.map_some, Nat.add_comm]

end Moved

end Tonk.Siamese
