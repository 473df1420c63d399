import Tonk.Siamese.Encoder

/-!
The packet numbers behind the columns. An encoder numbers its packets without bound; here is which
of them its window and a recovery packet stand for, and that each operation keeps them in place.
-/

set_option autoImplicit false

namespace Tonk.Siamese
open Protocol Search

structure RecoveryMetadata.EndsAt (m : RecoveryMetadata) (packetEnd : Nat) : Prop where
  ldpc_pos : 0 < m.ldpcCount
  ldpc_le : m.ldpcCount ≤ m.sumCount
  sum_le : m.sumCount ≤ packetEnd
  columnStart_eq : m.columnStart = columnOf (packetEnd - m.sumCount)

theorem RecoveryMetadata.EndsAt.subtract {m : RecoveryMetadata} {packetEnd : Nat}
    (h : m.EndsAt packetEnd) (b : Nat) :
    subtractColumns (m.columnStart + m.sumCount) b = subtractColumns (columnOf packetEnd) b := by
  have hsum := h.sum_le
  have h₁ := subtractColumns_cast (m.columnStart + m.sumCount) b
  have h₂ := subtractColumns_cast (columnOf packetEnd) b
  rw [h.columnStart_eq] at h₁ ⊢
  simp only [columnOf, kColumnPeriod] at h₁ h₂ ⊢
  omega

namespace EncoderPacketWindow

/-- The window stands for the packets from `base` up to `added`. Running sums start with a packet
that is not behind the first unremoved one. -/
structure Holding (w : EncoderPacketWindow) (base added : Nat) : Prop where
  nextColumn_eq : w.nextColumn = columnOf added
  columnStart_eq : w.columnStart = columnOf base
  count_eq : base + w.count = added
  first_lt : w.firstUnremovedElement < w.count
  count_le : w.count ≤ siameseMaxPackets
  sums : w.sumStartElement < w.sumEndElement → ∃ sumStart, w.sumColumnStart = columnOf sumStart ∧
    sumStart + w.sumErasedCount = base + w.sumStartElement ∧
    sumStart ≤ base + w.firstUnremovedElement ∧ w.sumEndElement ≤ w.count

theorem Holding.unacknowledged {w : EncoderPacketWindow} {base added : Nat}
    (h : w.Holding base added) :
    w.getUnacknowledgedCount = w.count - w.firstUnremovedElement := by
  have hlt := h.first_lt
  have hle := h.count_le
  simp only [siameseMaxPackets] at hle
  exact unsignedSub_eq (Nat.le_of_lt hlt) (by omega)

theorem Holding.add {w : EncoderPacketWindow} {base added : Nat} (h : w.Holding base added)
    (nowMsec : Nat) (hok : (w.add nowMsec).2 = .success) :
    (w.add nowMsec).1.Holding base (added + 1) ∧
      (w.add nowMsec).1.firstUnremovedElement = w.firstUnremovedElement := by
  have hlt := h.first_lt
  have hpos : 0 < w.count := by omega
  unfold EncoderPacketWindow.add at hok ⊢
  split at hok
  · exact absurd hok (by simp)
  · next hroom =>
    simp only [getRemainingSlots] at hroom
    have hcount := h.count_eq
    rw [if_neg (by simpa [getRemainingSlots] using hroom)]
    simp only [hpos, if_true]
    refine ⟨⟨?_, h.columnStart_eq, ?_, ?_, ?_, fun hrun => ?_⟩, trivial⟩
    · simp only [h.nextColumn_eq, incrementColumn1_columnOf]
    · simp only
      omega
    · simp only
      omega
    · simp only
      omega
    · obtain ⟨s, hs, hplace, hle, hend⟩ := h.sums hrun
      exact ⟨s, hs, hplace, hle, Nat.le_succ_of_le hend⟩

theorem add_empty {w : EncoderPacketWindow} {added : Nat} (hcount : w.count = 0)
    (hcolumn : w.nextColumn = columnOf added) (nowMsec : Nat) :
    (w.add nowMsec).2 = .success ∧
      (w.add nowMsec).1.Holding (added - added % kColumnLaneCount) (added + 1) ∧
      (w.add nowMsec).1.firstUnremovedElement = added % kColumnLaneCount := by
  have hlane : columnOf added % kColumnLaneCount = added % kColumnLaneCount := by
    simp only [columnOf, kColumnPeriod, kColumnLaneCount]
    omega
  unfold EncoderPacketWindow.add
  rw [if_neg (by simp [getRemainingSlots, hcount, siameseMaxPackets])]
  simp only [hcount, Nat.lt_irrefl, if_false, startNewWindow, hcolumn, hlane]
  refine ⟨trivial, ⟨?_, ?_, ?_, ?_, ?_, fun hrun => absurd hrun (Nat.lt_irrefl _)⟩, trivial⟩
  · simp only [incrementColumn1_columnOf]
  · simp only [columnOf, kColumnPeriod, kColumnLaneCount]
    omega
  · simp only [kColumnLaneCount]
    omega
  · simp only
    omega
  · simp only [kColumnLaneCount, siameseMaxPackets]
    omega

theorem Holding.resetSums {w : EncoderPacketWindow} {base added : Nat} (h : w.Holding base added)
    (e : Nat) : (w.resetSums e).Holding base added :=
  ⟨h.nextColumn_eq, h.columnStart_eq, h.count_eq, h.first_lt, h.count_le,
    fun hrun => absurd hrun (Nat.lt_irrefl _)⟩

theorem Holding.removeBefore {w : EncoderPacketWindow} {base added : Nat}
    (h : w.Holding base added) {next : Nat} (hbase : base ≤ next) (hnext : next ≤ added) :
    next = added ∧ w.removeBefore (columnOf next) = { w with count := 0 } ∨
      next < added ∧ (w.removeBefore (columnOf next)).Holding base added ∧
        base + (w.removeBefore (columnOf next)).firstUnremovedElement =
          max next (base + w.firstUnremovedElement) := by
  have hcount := h.count_eq
  have hle := h.count_le
  have hlt := h.first_lt
  simp only [siameseMaxPackets] at hle
  have helement : w.columnToElement (columnOf next) = next - base := by
    rw [columnToElement, h.columnStart_eq]
    exact subtractColumns_columnOf hbase (by simp only [kColumnPeriod]; omega)
  unfold EncoderPacketWindow.removeBefore
  simp only [helement]
  by_cases hall : w.count ≤ next - base
  · have hpos : isColumnDeltaNegative (next - base) = false := by
      rw [isColumnDeltaNegative_eq_false_iff]
      simp only [kColumnPeriod]
      omega
    refine .inl ⟨by omega, ?_⟩
    rw [if_pos hall, hpos]
    rfl
  · refine .inr ⟨by omega, ?_⟩
    rw [if_neg hall]
    split
    · next hmove =>
      refine ⟨⟨h.nextColumn_eq, h.columnStart_eq, hcount, by simp only; omega, h.count_le,
        fun hrun => ?_⟩, ?_⟩
      · obtain ⟨s, hs, hplace, hle, hend⟩ := h.sums hrun
        exact ⟨s, hs, hplace, by simp only; omega, hend⟩
      · simp only
        omega
    · exact ⟨h, by omega⟩

theorem removeBefore_empty {w : EncoderPacketWindow} (hcount : w.count = 0) (column : Nat) :
    w.removeBefore column = w := by
  unfold removeBefore
  simp only [hcount, Nat.zero_le, if_true]
  split
  · rfl
  · rw [← hcount]

theorem Holding.removeElements {w : EncoderPacketWindow} {base added : Nat}
    (h : w.Holding base added) : ∃ base', w.removeElements.Holding base' added ∧
      base' + w.removeElements.firstUnremovedElement = base + w.firstUnremovedElement := by
  have hcount := h.count_eq
  have hle := h.count_le
  have hlt := h.first_lt
  have hremoved : w.firstUnremovedElement / kSubwindowSize * kSubwindowSize ≤
      w.firstUnremovedElement := Nat.div_mul_le_self _ _
  refine ⟨base + w.firstUnremovedElement / kSubwindowSize * kSubwindowSize, ?_⟩
  unfold EncoderPacketWindow.removeElements
  simp only
  generalize w.firstUnremovedElement / kSubwindowSize * kSubwindowSize = removed at hremoved ⊢
  have hcolumn : addColumns removed w.columnStart = columnOf (base + removed) := by
    rw [h.columnStart_eq, addColumns_columnOf_right]
  by_cases hrun : w.sumStartElement < w.sumEndElement
  · obtain ⟨s, hs, hplace, hsle, hend⟩ := h.sums hrun
    simp only [hrun, if_true, elementToColumn]
    split
    · next hstop =>
      refine ⟨Holding.resetSums ⟨?_, ?_, ?_, ?_, ?_, fun hc => absurd hc hstop.not_gt⟩ _, ?_⟩
      · exact h.nextColumn_eq
      · exact hcolumn
      · simp only
        omega
      · simp only
        omega
      · simp only
        omega
      · simp only [EncoderPacketWindow.resetSums]
        omega
    · next hgo =>
      refine ⟨⟨h.nextColumn_eq, hcolumn, by simp only; omega, by simp only; omega,
        by simp only; omega, fun _ => ⟨s, hs, ?_, by simp only; omega, by simp only; omega⟩⟩, ?_⟩
      · simp only
        split <;> omega
      · simp only
        omega
  · simp only [hrun, if_false, elementToColumn]
    rw [if_pos (by omega)]
    refine ⟨Holding.resetSums ⟨?_, ?_, ?_, ?_, ?_, ?_⟩ _, ?_⟩
    · exact h.nextColumn_eq
    · exact hcolumn
    · simp only
      omega
    · simp only
      omega
    · simp only
      omega
    · exact fun hc => absurd hc hrun
    · simp only [EncoderPacketWindow.resetSums]
      omega

end EncoderPacketWindow

namespace EncoderAcknowledgementState

theorem decodeNextRange_nextColumnExpected (s : EncoderAcknowledgementState) :
    s.decodeNextRange.1.nextColumnExpected = s.nextColumnExpected := by
  unfold decodeNextRange
  split
  · rfl
  · split
    · rfl
    · simp only
      split <;> rfl

theorem takeLossRanges_window (s : EncoderAcknowledgementState) (w : EncoderPacketWindow)
    (nowMsec : Nat) : (s.takeLossRanges w nowMsec).state.nextColumnExpected = s.nextColumnExpected ∧
      ((s.takeLossRanges w nowMsec).window = w ∨
        (s.takeLossRanges w nowMsec).window = w.removeBefore s.nextColumnExpected) := by
  have hkeep : (if 0 < s.data.length then s.decodeNextRange else (s, true)).1.nextColumnExpected =
      s.nextColumnExpected := by
    split
    · exact s.decodeNextRange_nextColumnExpected
    · rfl
  unfold takeLossRanges
  generalize (if 0 < s.data.length then s.decodeNextRange else (s, true)) = decoded at hkeep ⊢
  obtain ⟨s', ok⟩ := decoded
  simp only at hkeep ⊢
  split
  · exact ⟨hkeep, .inr (by rw [hkeep])⟩
  · exact ⟨hkeep, .inl rfl⟩

/-- All that an acknowledgement does to the window: either it is an older one and nothing changes,
or its next expected column is taken over and what is in front of it may be removed. -/
theorem onAcknowledgementData_window (s : EncoderAcknowledgementState) (w : EncoderPacketWindow)
    (nowMsec : Nat) {data : Bytes} {column headerBytes : Nat}
    (hread : deserializeHeaderPacketNum data = some (column, headerBytes)) :
    isColumnDeltaNegative (subtractColumns column s.nextColumnExpected) = true ∧
        (s.onAcknowledgementData w nowMsec data).state = s ∧
        (s.onAcknowledgementData w nowMsec data).window = w ∨
      isColumnDeltaNegative (subtractColumns column s.nextColumnExpected) = false ∧
        (s.onAcknowledgementData w nowMsec data).state.nextColumnExpected = column ∧
        ((s.onAcknowledgementData w nowMsec data).window = w ∨
          (s.onAcknowledgementData w nowMsec data).window = w.removeBefore column) := by
  unfold onAcknowledgementData
  rw [hread]
  simp only
  split
  · next hold => exact .inl ⟨hold, rfl, rfl⟩
  · next hnew =>
    refine .inr ⟨by simpa using hnew, ?_⟩
    split
    · next hsame => exact ⟨hsame.1, .inl rfl⟩
    · exact takeLossRanges_window _ w nowMsec

end EncoderAcknowledgementState

namespace Encoder

/-- The encoder has `added` packets behind it and holds those from `acknowledged` on, which is the
next expected packet of the last acknowledgement it took. -/
structure Following (e : Encoder) (added acknowledged : Nat) : Prop where
  ack_eq : e.ack.nextColumnExpected = columnOf acknowledged
  window : e.window.count = 0 ∧ e.window.nextColumn = columnOf added ∧ added ≤ acknowledged ∨
    ∃ base, e.window.Holding base added ∧ base + e.window.firstUnremovedElement ≤ acknowledged

theorem following_initial : initial.Following 0 0 := ⟨rfl, .inl ⟨rfl, rfl, Nat.le_refl 0⟩⟩

theorem Following.added_le {e : Encoder} {added acknowledged : Nat}
    (h : e.Following added acknowledged) : added ≤ acknowledged + siameseMaxPackets := by
  rcases h.window with ⟨-, -, hle⟩ | ⟨base, hold, hle⟩
  · omega
  · have hcount := hold.count_eq
    have hmax := hold.count_le
    omega

theorem Following.add {e : Encoder} {added acknowledged : Nat} (h : e.Following added acknowledged)
    (nowMsec : Nat) (hok : (e.add nowMsec).2 = .success) :
    (e.add nowMsec).1.Following (added + 1) acknowledged := by
  refine ⟨h.ack_eq, .inr ?_⟩
  rcases h.window with ⟨hcount, hcolumn, hle⟩ | ⟨base, hold, hle⟩
  · obtain ⟨-, hold, hfirst⟩ := EncoderPacketWindow.add_empty hcount hcolumn nowMsec
    refine ⟨_, hold, ?_⟩
    have hmod : added % kColumnLaneCount ≤ added := Nat.mod_le _ _
    have hplace : added - added % kColumnLaneCount +
        (e.window.add nowMsec).1.firstUnremovedElement ≤ acknowledged := by omega
    exact hplace
  · obtain ⟨hold', hfirst⟩ := hold.add nowMsec hok
    refine ⟨base, hold', ?_⟩
    have hplace : base + (e.window.add nowMsec).1.firstUnremovedElement ≤ acknowledged := by omega
    exact hplace

theorem generateCauchyPacket_eq (e : Encoder) : ∃ row nextParityColumn nextCauchyRow,
    e.generateCauchyPacket =
      ({ e with nextParityColumn := nextParityColumn, nextCauchyRow := nextCauchyRow },
        ⟨row, e.window.elementToColumn e.window.firstUnremovedElement,
          e.window.getUnacknowledgedCount, e.window.getUnacknowledgedCount⟩) := by
  by_cases hparity : e.parityIsNext = true
  · exact ⟨_, _, _, if_pos hparity⟩
  · exact ⟨_, _, _, if_neg hparity⟩

theorem generateCauchyPacket_endsAt {e : Encoder} {base added : Nat}
    (h : e.window.Holding base added) : e.generateCauchyPacket.2.EndsAt added ∧
      e.generateCauchyPacket.2.ldpcCount = e.window.count - e.window.firstUnremovedElement ∧
      e.generateCauchyPacket.1.window = e.window ∧ e.generateCauchyPacket.1.ack = e.ack := by
  have hcount := h.count_eq
  have hlt := h.first_lt
  have hcolumn : e.window.elementToColumn e.window.firstUnremovedElement =
      columnOf (added - (e.window.count - e.window.firstUnremovedElement)) := by
    rw [EncoderPacketWindow.elementToColumn, h.columnStart_eq, addColumns_columnOf_right]
    congr 1
    omega
  obtain ⟨row, nextParityColumn, nextCauchyRow, heq⟩ := e.generateCauchyPacket_eq
  rw [heq, h.unacknowledged]
  exact ⟨⟨by simp only; omega, Nat.le_refl _, by simp only; omega, hcolumn⟩, rfl, rfl, rfl⟩

theorem generateSumPacket_endsAt {e : Encoder} {base added : Nat}
    (h : e.window.Holding base added) (sumStart : Nat)
    (hcolumn : e.window.sumColumnStart = columnOf sumStart)
    (hplace : sumStart + e.window.sumErasedCount = base + e.window.sumStartElement)
    (hle : sumStart ≤ base + e.window.firstUnremovedElement)
    (hin : e.window.sumStartElement ≤ e.window.count) :
    e.generateSumPacket.2.EndsAt added ∧
      e.generateSumPacket.2.ldpcCount = e.window.count - e.window.firstUnremovedElement ∧
      e.generateSumPacket.1.window.Holding base added ∧
      e.generateSumPacket.1.window.firstUnremovedElement = e.window.firstUnremovedElement ∧
      e.generateSumPacket.1.ack = e.ack := by
  have hcount := h.count_eq
  have hlt := h.first_lt
  have hsum : e.window.count - e.window.sumStartElement + e.window.sumErasedCount =
      added - sumStart := by omega
  unfold generateSumPacket
  simp only [h.unacknowledged, hsum]
  refine ⟨⟨by simp only; omega, by simp only; omega, by simp only; omega, ?_⟩, trivial, ?_, trivial,
    trivial⟩
  · simp only [hcolumn]
    congr 1
    omega
  · exact ⟨h.nextColumn_eq, h.columnStart_eq, hcount, hlt, h.count_le,
      fun _ => ⟨sumStart, hcolumn, hplace, hle, Nat.le_refl _⟩⟩

theorem generateSinglePacket_endsAt {e : Encoder} {base added : Nat}
    (h : e.window.Holding base added)
    (hone : e.window.count - e.window.firstUnremovedElement = 1) :
    e.generateSinglePacket.2.EndsAt added := by
  have hcount := h.count_eq
  refine ⟨Nat.one_pos, Nat.le_refl 1, by simp only [generateSinglePacket]; omega, ?_⟩
  simp only [generateSinglePacket, EncoderPacketWindow.elementToColumn, h.columnStart_eq,
    addColumns_columnOf_right]
  congr 1
  omega

theorem encode_eq (e : Encoder) (hpos : 0 < e.window.count) :
    e.encode = (e.removeFront.chosenPacket.1, some e.removeFront.chosenPacket.2) := by
  unfold encode
  rw [if_neg (by omega)]

theorem removeFront_rest (e : Encoder) : e.removeFront.ack = e.ack ∧
    e.removeFront.nextRow = e.nextRow ∧ e.removeFront.nextCauchyRow = e.nextCauchyRow := by
  unfold removeFront
  split <;> exact ⟨rfl, rfl, rfl⟩

theorem removeFront_holding {e : Encoder} {base added : Nat} (h : e.window.Holding base added) :
    ∃ base', e.removeFront.window.Holding base' added ∧
      base' + e.removeFront.window.firstUnremovedElement =
        base + e.window.firstUnremovedElement := by
  unfold removeFront
  split
  · exact h.removeElements
  · exact ⟨base, h, rfl⟩

theorem chosenPacket_endsAt {e : Encoder} {base added : Nat} (h : e.window.Holding base added) :
    e.chosenPacket.2.EndsAt added ∧
      e.chosenPacket.2.ldpcCount = e.window.count - e.window.firstUnremovedElement ∧
      e.chosenPacket.1.window.Holding base added ∧
      e.chosenPacket.1.window.firstUnremovedElement = e.window.firstUnremovedElement ∧
      e.chosenPacket.1.ack = e.ack := by
  have hcount := h.count_eq
  have hlt := h.first_lt
  have hcauchy : ∀ e : Encoder, e.window.Holding base added →
      e.generateCauchyPacket.2.EndsAt added ∧
        e.generateCauchyPacket.2.ldpcCount = e.window.count - e.window.firstUnremovedElement ∧
        e.generateCauchyPacket.1.window.Holding base added ∧
        e.generateCauchyPacket.1.window.firstUnremovedElement = e.window.firstUnremovedElement ∧
        e.generateCauchyPacket.1.ack = e.ack := fun e h => by
    obtain ⟨hends, hldpc, hwindow, hack⟩ := generateCauchyPacket_endsAt h
    exact ⟨hends, hldpc, by rw [hwindow]; exact h, by rw [hwindow], hack⟩
  unfold chosenPacket
  rcases e.window.encodeBranch_cases with ⟨hbranch, hone⟩ | ⟨hbranch, -⟩ | ⟨hbranch, -⟩ |
    ⟨hbranch, -⟩ | ⟨hbranch, hrun, -⟩
  all_goals rw [hbranch]
  · rw [h.unacknowledged] at hone
    exact ⟨generateSinglePacket_endsAt h hone, hone.symm, h, rfl, rfl⟩
  · exact hcauchy e h
  · refine generateSumPacket_endsAt (h.resetSums _) (base + e.window.firstUnremovedElement) ?_ rfl
      (Nat.le_refl _) (Nat.le_of_lt hlt)
    simp only [EncoderPacketWindow.resetSums, EncoderPacketWindow.elementToColumn,
      h.columnStart_eq, addColumns_columnOf_right]
  · exact hcauchy { e with window := { e.window with sumEndElement := e.window.sumStartElement } }
      ⟨h.nextColumn_eq, h.columnStart_eq, hcount, hlt, h.count_le,
        fun hc => absurd hc (Nat.lt_irrefl _)⟩
  · obtain ⟨s, hs, hplace, hle, hend⟩ := h.sums hrun
    exact generateSumPacket_endsAt h s hs hplace hle (by omega)

theorem Following.encode {e : Encoder} {added acknowledged : Nat}
    (h : e.Following added acknowledged) {e' : Encoder} {m : RecoveryMetadata}
    (hmade : e.encode = (e', some m)) :
    e'.Following added acknowledged ∧ m.EndsAt added ∧ added ≤ acknowledged + m.ldpcCount := by
  rcases h.window with ⟨hcount, -, -⟩ | ⟨base, hold, hle⟩
  · unfold Encoder.encode at hmade
    rw [if_pos (by omega)] at hmade
    simp at hmade
  · have hlt := hold.first_lt
    rw [encode_eq e (by omega)] at hmade
    obtain ⟨base', hold', hfirst⟩ := removeFront_holding hold
    obtain ⟨hack, -⟩ := e.removeFront_rest
    obtain ⟨hends, hldpc, hwindow, hfirst', hack'⟩ := chosenPacket_endsAt hold'
    have hcount' := hold'.count_eq
    have hlt' := hold'.first_lt
    simp only [Prod.mk.injEq, Option.some.injEq] at hmade
    obtain ⟨rfl, rfl⟩ := hmade
    refine ⟨⟨?_, .inr ⟨base', hwindow, ?_⟩⟩, hends, ?_⟩
    · rw [hack', hack]
      exact h.ack_eq
    · omega
    · omega

theorem Following.acknowledge {e : Encoder} {added acknowledged next : Nat}
    (h : e.Following added acknowledged) (hnext : next ≤ added)
    (htimely : acknowledged ≤ next + kColumnPeriod / 2) (nowMsec : Nat) {data : Bytes}
    {headerBytes : Nat} (hread : deserializeHeaderPacketNum data = some (columnOf next, headerBytes)) :
    (e.acknowledge nowMsec data).1.Following added (if isColumnDeltaNegative
      (subtractColumns (columnOf next) e.ack.nextColumnExpected) then acknowledged else next) ∧
    (isColumnDeltaNegative (subtractColumns (columnOf next) e.ack.nextColumnExpected) = true ↔
      next < acknowledged) := by
  have hmax := h.added_le
  simp only [siameseMaxPackets] at hmax
  have hdelta : isColumnDeltaNegative (subtractColumns (columnOf next) e.ack.nextColumnExpected) =
      true ↔ next < acknowledged := by
    rw [h.ack_eq, isColumnDeltaNegative_iff]
    simp only [kColumnPeriod] at htimely
    by_cases hlt : next < acknowledged
    · rw [subtractColumns_columnOf_neg hlt (by simp only [kColumnPeriod]; omega)]
      simp only [kColumnPeriod]
      omega
    · rw [subtractColumns_columnOf (by omega) (by simp only [kColumnPeriod]; omega)]
      simp only [kColumnPeriod]
      omega
  refine ⟨?_, hdelta⟩
  rcases e.ack.onAcknowledgementData_window e.window nowMsec hread with
    ⟨hold, hstate, hwindow⟩ | ⟨hnew, hstate, hwindow⟩
  · rw [if_pos hold]
    refine ⟨?_, ?_⟩
    · simp only [Encoder.acknowledge, hstate]
      exact h.ack_eq
    · simp only [Encoder.acknowledge, hwindow]
      exact h.window
  · have hle : acknowledged ≤ next := by
      by_contra hlt
      rw [hdelta.mpr (by omega)] at hnew
      exact absurd hnew (by decide)
    rw [hnew, if_neg (by decide)]
    refine ⟨hstate, ?_⟩
    simp only [Encoder.acknowledge]
    rcases h.window with ⟨hcount, hcolumn, hall⟩ | ⟨base, hholds, hfirst⟩
    · refine .inl ⟨?_, ?_, by omega⟩
      · rcases hwindow with hwindow | hwindow
        · rw [hwindow]
          exact hcount
        · rw [hwindow, EncoderPacketWindow.removeBefore_empty hcount]
          exact hcount
      · rcases hwindow with hwindow | hwindow
        · rw [hwindow]
          exact hcolumn
        · rw [hwindow, EncoderPacketWindow.removeBefore_empty hcount]
          exact hcolumn
    · rcases hwindow with hwindow | hwindow
      · rw [hwindow]
        exact .inr ⟨base, hholds, by omega⟩
      · rw [hwindow]
        have hbase : base ≤ next := by omega
        rcases hholds.removeBefore hbase hnext with
          ⟨hend, hempty⟩ | ⟨-, hkept, hplace⟩
        · rw [hempty]
          exact .inl ⟨rfl, hholds.nextColumn_eq, Nat.le_of_eq hend.symm⟩
        · exact .inr ⟨base, hkept, by omega⟩

end Encoder
end Tonk.Siamese
