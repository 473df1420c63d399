import Tonk.Siamese.RecoveredData

set_option autoImplicit false

namespace Tonk.Siamese
open Protocol

namespace DecoderData

variable {d d' : DecoderData} {received : Nat → Option OriginalPacket} {base start : Nat}

/-- No sum has gone further than a lane behind `bound`. -/
def Within (d : DecoderData) (bound : Nat) : Prop :=
  ∀ laneIndex < kColumnLaneCount, ∀ sumIndex < kColumnSumCount,
    (d.sums laneIndex sumIndex).elementEnd < bound + kColumnLaneCount

theorem Within.mono {bound bound' : Nat} (h : d.Within bound) (hle : bound ≤ bound') :
    d.Within bound' := fun l hl i hi =>
  Nat.lt_of_lt_of_le (h l hl i hi) (Nat.add_le_add_right hle _)

theorem Within.goneSum {elementEnd : Nat} (h : d.Within elementEnd) {laneIndex sumIndex : Nat}
    (hlane : laneIndex < kColumnLaneCount) (hindex : sumIndex < kColumnSumCount) :
    elementEnd ≤ (d.goneSum laneIndex sumIndex elementEnd).elementEnd ∧
      (d.goneSum laneIndex sumIndex elementEnd).elementEnd < elementEnd + kColumnLaneCount := by
  have hold := h laneIndex hlane sumIndex hindex
  rcases d.goneSum_elementEnd laneIndex sumIndex elementEnd with ⟨hle, heq⟩ | ⟨-, hle, hlt⟩
  · rw [heq]
    exact ⟨hle, hold⟩
  · exact ⟨hle, hlt⟩

theorem getSum_sums (d : DecoderData) (laneIndex sumIndex elementEnd l i : Nat) :
    (d.getSum laneIndex sumIndex elementEnd).1.sums l i =
      if l = laneIndex ∧ i = sumIndex then d.goneSum laneIndex sumIndex elementEnd
      else d.sums l i := by
  simp only [getSum]
  by_cases hl : l = laneIndex
  · subst hl
    rw [Function.update_self]
    by_cases hi : i = sumIndex
    · subst hi
      rw [Function.update_self, if_pos ⟨rfl, rfl⟩]
    · rw [Function.update_of_ne hi, if_neg fun h => hi h.2]
  · rw [Function.update_of_ne hl, if_neg fun h => hl h.1]

theorem SumsFrom.getSum (h : d.SumsFrom received [] base start) (hholds : d.Holds received base)
    {laneIndex sumIndex : Nat} (hindex : sumIndex < kColumnSumCount) (elementEnd : Nat) :
    (d.getSum laneIndex sumIndex elementEnd).1.SumsFrom received [] base start := by
  intro l hl i hi
  rw [getSum_sums]
  split
  · next heq =>
    obtain ⟨rfl, rfl⟩ := heq
    exact (h l hl i hi).goneSum hholds hi elementEnd
  · exact h l hl i hi

theorem Within.getSum {elementEnd : Nat} (h : d.Within elementEnd) {laneIndex sumIndex : Nat}
    (hlane : laneIndex < kColumnLaneCount) (hindex : sumIndex < kColumnSumCount) :
    (d.getSum laneIndex sumIndex elementEnd).1.Within elementEnd := by
  intro l hl i hi
  rw [getSum_sums]
  split
  · exact (h.goneSum hlane hindex).2
  · exact h l hl i hi

theorem SumsFrom.padded_getSum {elementEnd : Nat} (h : d.SumsFrom received [] base start)
    (hholds : d.Holds received base) (hwithin : d.Within elementEnd) {laneIndex sumIndex : Nat}
    (hlane : laneIndex < kColumnLaneCount) (hindex : sumIndex < kColumnSumCount) :
    (d.getSum laneIndex sumIndex elementEnd).2.padded =
      laneSum (fun n => (received n).map OriginalPacket.buffer) laneIndex sumIndex start
        (base + elementEnd) := by
  obtain ⟨hmod, -, -, hpadded, -⟩ :=
    (h laneIndex hlane sumIndex hindex).goneSum hholds hindex elementEnd
  obtain ⟨hge, hlt⟩ := hwithin.goneSum hlane hindex
  have hbase := hholds.base_mod
  calc (d.getSum laneIndex sumIndex elementEnd).2.padded
    _ = laneSum (settled received []) laneIndex sumIndex start
        (base + (d.goneSum laneIndex sumIndex elementEnd).elementEnd) := hpadded
    _ = laneSum (settled received []) laneIndex sumIndex start (base + elementEnd) := by
      refine laneSum_stop _ fun n _ hn => ?_
      simp only [kColumnLaneCount] at *
      omega
    _ = _ := laneSum_congr _ fun n _ _ _ => settled_nil received n

section Start

variable {elementStart bufferBytes column : Nat}

theorem plugColumn_eq (h : plugColumn elementStart d column = some d') :
    d' = { d with sums := d'.sums } ∧ ∀ l i, (d'.sums l i).elementEnd = (d.sums l i).elementEnd ∧
      ((d.sums l i).elementEnd ≤ getNextLaneElement elementStart l →
        d'.sums l i = d.sums l i) := by
  unfold plugColumn at h
  simp only at h
  split at h
  · cases h
    exact ⟨rfl, fun l i => ⟨rfl, fun _ => rfl⟩⟩
  · split at h
    · split at h
      · cases h
      · cases h
        exact ⟨rfl, fun l i => ⟨rfl, fun _ => rfl⟩⟩
    · cases h
      refine ⟨rfl, fun l i => ?_⟩
      by_cases hl : l = column % kColumnLaneCount
      · subst hl
        simp only [Function.update_self]
        split
        · next hhole =>
          refine ⟨rfl, fun hle => ?_⟩
          omega
        · exact ⟨rfl, fun _ => rfl⟩
      · simp [Function.update_of_ne hl]

theorem plugColumns_eq {columns : List Nat}
    (h : columns.foldlM (plugColumn elementStart) d = some d') :
    d' = { d with sums := d'.sums } ∧ ∀ l i, (d'.sums l i).elementEnd = (d.sums l i).elementEnd ∧
      ((d.sums l i).elementEnd ≤ getNextLaneElement elementStart l →
        d'.sums l i = d.sums l i) := by
  induction columns generalizing d with
  | nil =>
    cases h
    exact ⟨rfl, fun l i => ⟨rfl, fun _ => rfl⟩⟩
  | cons column columns ih =>
    rw [List.foldlM_cons] at h
    obtain ⟨plugged, hplug, hrest⟩ := Option.bind_eq_some_iff.mp h
    obtain ⟨heq, hsums⟩ := plugColumn_eq hplug
    obtain ⟨heq', hsums'⟩ := ih hrest
    refine ⟨heq'.trans (by rw [heq]), fun l i => ?_⟩
    obtain ⟨hend, hsame⟩ := hsums l i
    obtain ⟨hend', hsame'⟩ := hsums' l i
    exact ⟨hend'.trans hend, fun hle => (hsame' (hend.trans_le hle)).trans (hsame hle)⟩

theorem startSums_eq (h : d.startSums elementStart bufferBytes = some d') :
    d' = { d with sums := d'.sums, recoveredColumns := [] } ∧
      ∀ l i, (d'.sums l i).elementEnd =
          (startSum elementStart bufferBytes l (d.sums l i)).elementEnd ∧
        ((startSum elementStart bufferBytes l (d.sums l i)).elementEnd ≤
          getNextLaneElement elementStart l →
            d'.sums l i = startSum elementStart bufferBytes l (d.sums l i)) := by
  unfold startSums plugSumHoles at h
  simp only at h
  split at h
  · split at h
    · cases h
    · next plugged hplug =>
      obtain ⟨heq, hsums⟩ := plugColumns_eq hplug
      cases h
      exact ⟨by rw [heq]; rfl, hsums⟩
  · next hzero =>
    have hnil : d.recoveredColumns = [] := List.length_eq_zero_iff.mp (not_not.mp hzero)
    cases h
    refine ⟨?_, fun l i => ⟨rfl, fun _ => rfl⟩⟩
    simp only [startLanes, hnil]

theorem startSum_elementEnd (laneIndex : Nat) (sum : DecoderSum) :
    (startSum elementStart bufferBytes laneIndex sum).elementEnd =
        getNextLaneElement elementStart laneIndex ∨
      (startSum elementStart bufferBytes laneIndex sum).elementEnd = sum.elementEnd := by
  unfold startSum
  simp only
  split
  · exact .inl rfl
  · split
    · exact .inl rfl
    · exact .inr rfl

theorem startSum_anew {laneIndex : Nat} {sum : DecoderSum} (h : sum.buffer = [] ∨
    sum.elementStart ≠ getNextLaneElement elementStart laneIndex) :
    startSum elementStart bufferBytes laneIndex sum =
      startSum elementStart bufferBytes laneIndex ⟨0, 0, []⟩ := by
  unfold startSum
  simp only
  by_cases hnil : sum.buffer.length = 0
  · have hbuffer : sum.buffer = [] := List.length_eq_zero_iff.mp hnil
    simp [hbuffer]
  · have hne := h.resolve_left fun hbuffer => hnil (by rw [hbuffer]; rfl)
    simp [hnil, hne]

end Start

/-- The sums go on from the packet `start`, with the packets recovered since they were last started
still to be plugged in. -/
structure Running (d : DecoderData) (received : Nat → Option OriginalPacket) (pending : List Nat)
    (base start : Nat) : Prop where
  column_eq : d.sumColumnStart = columnOf start
  columns_eq : d.recoveredColumns = pending.map columnOf
  nodup : pending.Nodup
  plugs : ∀ n ∈ pending, base ≤ n ∧ n < base + d.window.count ∧ (received n).isSome
  sums : d.SumsFrom received pending base start

/-- The sums were left behind when elements were removed. If their start comes up again it lies
elsewhere in the window, so that they begin anew, and the rows of sums that are stored start in the
window. -/
structure GivenUp (d : DecoderData) (stored : List (RecoveryPacket RecoveryData)) (base start : Nat) :
    Prop where
  column_eq : d.sumColumnStart = columnOf start
  count_eq : d.sumColumnCount = 0
  anew : base ≤ start → ∀ laneIndex < kColumnLaneCount, ∀ sumIndex < kColumnSumCount,
    (d.sums laneIndex sumIndex).buffer = [] ∨
      getNextLaneElement (start - base) laneIndex < (d.sums laneIndex sumIndex).elementStart
  stored_ge : ∀ r ∈ stored, siameseCauchyThreshold < r.metadata.sumCount →
    base ≤ r.buffer.packetEnd - r.metadata.sumCount

/-- The sums as they are between calls. -/
inductive SumState (d : DecoderData) (stored : List (RecoveryPacket RecoveryData))
    (received : Nat → Option OriginalPacket) (base start bound : Nat) : Prop where
  | running (pending : List Nat) : d.Running received pending base start → d.Within bound →
      SumState d stored received base start bound
  | givenUp : d.GivenUp stored base start → SumState d stored received base start bound

variable {stored : List (RecoveryPacket RecoveryData)}

theorem Holds.sumElementStart (h : d.Holds received base) (hspan : base + d.window.count ≤
    start + kColumnPeriod) (hlt : start < base + d.window.count) :
    (d.window.invalidElement (d.window.columnToElement (columnOf start)) = false ↔ base ≤ start) ∧
      (if d.window.invalidElement (d.window.columnToElement (columnOf start)) then 0
        else d.window.columnToElement (columnOf start)) = start - base := by
  have hcount := h.sound.count_le
  by_cases hbase : base ≤ start
  · have helement := h.columnToElement hbase hlt
    have hvalid : d.window.invalidElement (start - base) = false := by
      simp only [DecoderPacketWindow.invalidElement, decide_eq_false_iff_not]
      omega
    rw [helement, hvalid]
    exact ⟨⟨fun _ => hbase, fun _ => rfl⟩, if_neg Bool.false_ne_true⟩
  · have hsub := subtractColumns_cast (columnOf start) (columnOf base)
    have hinvalid : d.window.invalidElement
        (d.window.columnToElement (columnOf start)) = true := by
      rw [DecoderPacketWindow.columnToElement, h.columnStart_eq]
      simp only [DecoderPacketWindow.invalidElement, decide_eq_true_eq]
      simp only [columnOf, kColumnPeriod] at hsub hspan hcount ⊢
      omega
    rw [hinvalid, if_pos rfl]
    exact ⟨⟨fun hfalse => Bool.noConfusion hfalse, fun hle => absurd hle hbase⟩,
      by omega⟩

theorem resetSums_running (h : d.Holds received base) (hbase : base ≤ start) :
    let d' := { d.resetSums (start - base) with sumColumnStart := columnOf start }
    d'.Running received [] base start ∧ d'.Within (start - base) := by
  refine ⟨⟨rfl, rfl, List.nodup_nil, nofun, fun l hl i _ => ?_⟩, fun l hl i _ => ?_⟩
  · exact resetSum_spec h.base_mod hl hbase
  · exact (getNextLaneElement_spec (start - base) hl).2.1

theorem SumState.startSums {bound bufferBytes : Nat}
    (h : d.SumState stored received base start bound) (hholds : d.Holds received base)
    (hgiven : d.GivenUp stored base start → base ≤ start)
    (hstarted : d.startSums (start - base) bufferBytes = some d') :
    d' = { d with sums := d'.sums, recoveredColumns := [] } ∧
      d'.Running received [] base start ∧ d'.Within (max bound (start - base)) := by
  obtain ⟨heq, hsums⟩ := startSums_eq hstarted
  refine ⟨heq, ?_⟩
  have hcolumn : d'.sumColumnStart = d.sumColumnStart := by rw [heq]
  have hcolumns : d'.recoveredColumns = [] := by rw [heq]
  cases h with
  | running pending hrunning hwithin =>
    obtain ⟨sums, hok, hall⟩ := startSums_spec hrunning.nodup hholds hrunning.columns_eq
      hrunning.plugs (fun l hl i hi => .inl (hrunning.sums l hl i hi)) bufferBytes
    rw [hstarted] at hok
    obtain rfl := Option.some.inj hok
    refine ⟨⟨hrunning.column_eq, rfl, List.nodup_nil, nofun, hall⟩, fun l hl i hi => ?_⟩
    have hold := hwithin l hl i hi
    have hlane := (getNextLaneElement_spec (start - base) hl).2.1
    rw [(hsums l i).1]
    rcases startSum_elementEnd l (d.sums l i) with hend | hend
    · rw [hend]
      exact Nat.lt_of_lt_of_le hlane (Nat.add_le_add_right (Nat.le_max_right _ _) _)
    · rw [hend]
      exact Nat.lt_of_lt_of_le hold (Nat.add_le_add_right (Nat.le_max_left _ _) _)
  | givenUp hgivenUp =>
    have hbase := hgiven hgivenUp
    have hanew : ∀ l < kColumnLaneCount, ∀ i < kColumnSumCount, d'.sums l i =
        startSum (start - base) bufferBytes l ⟨0, 0, []⟩ := by
      intro l hl i hi
      have hrestart : startSum (start - base) bufferBytes l (d.sums l i) =
          startSum (start - base) bufferBytes l ⟨0, 0, []⟩ :=
        startSum_anew ((hgivenUp.anew hbase l hl i hi).imp_right fun hlt => Nat.ne_of_gt hlt)
      have hend : (startSum (start - base) bufferBytes l (d.sums l i)).elementEnd =
          getNextLaneElement (start - base) l := by
        rw [hrestart]
        rfl
      rw [(hsums l i).2 hend.le, hrestart]
    refine ⟨⟨hcolumn.trans hgivenUp.column_eq, hcolumns, List.nodup_nil, nofun,
      fun l hl i hi => ?_⟩, fun l hl i hi => ?_⟩
    · rw [hanew l hl i hi]
      exact startSum_spec hholds.base_mod hl bufferBytes hholds.past nofun
        (.inr ⟨rfl, fun n hn hless => absurd hless (by omega)⟩)
    · rw [hanew l hl i hi]
      exact Nat.lt_of_lt_of_le (getNextLaneElement_spec (start - base) hl).2.1
        (Nat.add_le_add_right (Nat.le_max_right _ _) _)

theorem SumState.startRow {bound sumStart recoveryBytes : Nat} {metadata : RecoveryMetadata}
    (h : d.SumState stored received base sumStart bound) (hholds : d.Holds received base)
    (hcolumn : metadata.columnStart = columnOf start)
    (hsame : metadata.columnStart = d.sumColumnStart → start = sumStart)
    (hspan : base + d.window.count ≤ start + kColumnPeriod) (hlt : start < base + d.window.count)
    (hgiven : d.GivenUp stored base start → base ≤ start)
    (hstarted : d.startRow metadata recoveryBytes = some d') :
    d' = { d with
        sums := d'.sums
        recoveredColumns := []
        sumColumnStart := columnOf start
        sumColumnCount := metadata.sumCount } ∧
      d'.Running received [] base start ∧ d'.Within (max bound (start - base)) := by
  obtain ⟨hvalid, helement⟩ := hholds.sumElementStart hspan hlt
  unfold DecoderData.startRow at hstarted
  simp only [hcolumn] at hstarted hsame
  obtain ⟨made, hmade, rfl⟩ := Option.map_eq_some_iff.mp hstarted
  split at hmade
  · split at hmade
    · cases hmade
    · next hin =>
      have hbase := hvalid.mp (Bool.eq_false_of_not_eq_true hin)
      rw [if_neg hin] at helement
      rw [helement] at hmade
      cases hmade
      obtain ⟨⟨hcol, hcols, hnodup, hpending, hsums⟩, hwithin⟩ := resetSums_running hholds hbase
      exact ⟨rfl, ⟨hcol, hcols, hnodup, hpending, hsums⟩, hwithin.mono (Nat.le_max_right _ _)⟩
  · next hkeeps =>
    rw [helement] at hmade
    have hcol : columnOf start = d.sumColumnStart := not_not.mp fun hne => hkeeps (.inl hne)
    obtain rfl := hsame hcol
    obtain ⟨heq, ⟨hcol', hcols, hnodup, hpending, hsums⟩, hwithin⟩ := h.startSums hholds hgiven hmade
    refine ⟨?_, ⟨hcol', hcols, hnodup, hpending, hsums⟩, hwithin⟩
    simp only
    rw [heq]
    simp only [hcol]

end DecoderData
end Tonk.Siamese
