import Tonk.Lib.Run
import Tonk.Siamese.EncoderPositions

set_option autoImplicit false

namespace Tonk.Siamese
open Protocol Transition

/-- A copy of one packet, the sum of all packets, a Cauchy row, or a row of Siamese sums. -/
inductive RowKind where
  | single
  | parity
  | cauchy (cauchyRow : Nat)
  | sum (row : Nat)
  deriving DecidableEq, Repr

/-- How the decoder reads a recovery packet: AddRecovery looks for a copy, GenerateMatrix tells the
other rows apart. -/
def RecoveryMetadata.rowKind (m : RecoveryMetadata) : RowKind :=
  if m.sumCount = 1 then .single
  else if m.sumCount ≤ siameseCauchyThreshold then
    if m.row = 0 then .parity else .cauchy (m.row - 1)
  else .sum m.row

/-- What SerializeFooter_RecoveryMetadata has room for. -/
structure RecoveryMetadata.InRange (m : RecoveryMetadata) : Prop where
  sum_pos : 1 ≤ m.sumCount
  sum_le : m.sumCount ≤ siameseMaxPackets
  ldpc_pos : 1 ≤ m.ldpcCount
  ldpc_le : m.ldpcCount ≤ m.sumCount
  column_lt : m.columnStart < kColumnPeriod
  row_lt : m.row < 256

namespace Encoder

/-- The branch GenerateCauchyPacket takes. -/
def cauchyKind (e : Encoder) : RowKind :=
  if e.parityIsNext then .parity else .cauchy e.nextCauchyRow

def chosenKind (e : Encoder) : RowKind :=
  match e.window.encodeBranch with
  | .single => .single
  | .cauchy => e.cauchyKind
  | .restartSums => .sum e.nextRow
  | .stopSums => e.cauchyKind
  | .sums => .sum e.nextRow

/-- The formula Encode builds the payload with. -/
def builtKind (e : Encoder) : RowKind := e.removeFront.chosenKind

inductive Call where
  | add (nowMsec : Nat)
  | removeBefore (column : Nat)
  | acknowledge (nowMsec : Nat) (data : Bytes)
  | encode

def call (e : Encoder) : Call → Encoder
  | .add nowMsec => (e.add nowMsec).1
  | .removeBefore column => { e with window := e.window.removeBefore column }
  | .acknowledge nowMsec data => (e.acknowledge nowMsec data).1
  | .encode => e.encode.1

def Calls (e : Encoder) (c : Call) (e' : Encoder) : Prop := e.call c = e'

/-- What every call keeps. -/
structure Sane (e : Encoder) : Prop where
  window : ∃ added, e.window.count = 0 ∧ e.window.nextColumn = columnOf added ∨
    ∃ base, e.window.Holding base added
  nextRow_lt : e.nextRow < kRowPeriod
  nextCauchyRow_lt : e.nextCauchyRow < kCauchyMaxRows

theorem sane_initial : initial.Sane := ⟨⟨0, .inl ⟨rfl, rfl⟩⟩, by decide, by decide⟩

theorem generateCauchyPacket_rowKind {e : Encoder} {base added : Nat}
    (h : e.window.Holding base added) (hrow : e.nextCauchyRow < kCauchyMaxRows)
    (hone : e.window.count - e.window.firstUnremovedElement ≠ 1)
    (hfew : e.window.count - e.window.firstUnremovedElement ≤ siameseCauchyThreshold) :
    e.generateCauchyPacket.2.rowKind = e.cauchyKind ∧ e.generateCauchyPacket.2.InRange ∧
      e.generateCauchyPacket.1.nextRow = e.nextRow ∧
      e.generateCauchyPacket.1.nextCauchyRow < kCauchyMaxRows := by
  have hlt := h.first_lt
  have hrows : kCauchyMaxRows = 192 := rfl
  have hthreshold : siameseCauchyThreshold = 64 := rfl
  have hmax : siameseMaxPackets = 16000 := rfl
  have hcolumn : e.window.elementToColumn e.window.firstUnremovedElement < kColumnPeriod :=
    Nat.mod_lt _ (by decide)
  by_cases hparity : e.parityIsNext = true
  · have hmade : e.generateCauchyPacket =
        ({ e with
          nextParityColumn := addColumns (e.window.elementToColumn e.window.firstUnremovedElement)
            e.window.getUnacknowledgedCount },
          ⟨0, e.window.elementToColumn e.window.firstUnremovedElement,
            e.window.getUnacknowledgedCount, e.window.getUnacknowledgedCount⟩) := if_pos hparity
    have hkind : e.cauchyKind = .parity := if_pos hparity
    rw [hmade, hkind, h.unacknowledged]
    refine ⟨?_, ⟨?_, ?_, ?_, ?_, hcolumn, Nat.zero_lt_succ 255⟩, rfl, hrow⟩
    · simp only [RecoveryMetadata.rowKind, hone, hfew, if_true, if_false]
    · simp only
      omega
    · simp only
      omega
    · simp only
      omega
    · simp only
      omega
  · have hmade : e.generateCauchyPacket =
        ({ e with
          nextCauchyRow := if kCauchyMaxRows ≤ e.nextCauchyRow + 1 then 0 else
            e.nextCauchyRow + 1 },
          ⟨e.nextCauchyRow + 1, e.window.elementToColumn e.window.firstUnremovedElement,
            e.window.getUnacknowledgedCount, e.window.getUnacknowledgedCount⟩) := if_neg hparity
    have hkind : e.cauchyKind = .cauchy e.nextCauchyRow := if_neg hparity
    rw [hmade, hkind, h.unacknowledged]
    refine ⟨?_, ⟨?_, ?_, ?_, ?_, hcolumn, ?_⟩, rfl, ?_⟩
    · simp only [RecoveryMetadata.rowKind, hone, hfew, if_true, if_false, Nat.add_eq_zero_iff,
        Nat.one_ne_zero, and_false, Nat.add_sub_cancel]
    · simp only
      omega
    · simp only
      omega
    · simp only
      omega
    · simp only
      omega
    · simp only
      omega
    · simp only
      split <;> omega

theorem generateSumPacket_rowKind {e : Encoder} {base added : Nat}
    (h : e.window.Holding base added) (hrow : e.nextRow < kRowPeriod)
    (hcolumn : e.window.sumColumnStart < kColumnPeriod)
    (hmany : siameseCauchyThreshold <
      e.window.count - e.window.sumStartElement + e.window.sumErasedCount)
    (hmax : e.window.count - e.window.sumStartElement + e.window.sumErasedCount ≤ siameseMaxPackets)
    (hldpc : e.window.count - e.window.firstUnremovedElement ≤
      e.window.count - e.window.sumStartElement + e.window.sumErasedCount) :
    e.generateSumPacket.2.rowKind = .sum e.nextRow ∧ e.generateSumPacket.2.InRange ∧
      e.generateSumPacket.1.nextRow < kRowPeriod ∧
      e.generateSumPacket.1.nextCauchyRow = e.nextCauchyRow := by
  have hlt := h.first_lt
  have hperiod : kRowPeriod = 255 := rfl
  have hthreshold : siameseCauchyThreshold = 64 := rfl
  have hmade : e.generateSumPacket.2 = ⟨e.nextRow, e.window.sumColumnStart,
      e.window.count - e.window.sumStartElement + e.window.sumErasedCount,
      e.window.getUnacknowledgedCount⟩ := rfl
  have hnext : e.generateSumPacket.1.nextRow =
      if kRowPeriod ≤ e.nextRow + 1 then 0 else e.nextRow + 1 := rfl
  rw [hmade, hnext, h.unacknowledged]
  refine ⟨?_, ⟨?_, hmax, ?_, hldpc, hcolumn, ?_⟩, ?_, rfl⟩
  · rw [RecoveryMetadata.rowKind, if_neg (by simp only; omega), if_neg (by simp only; omega)]
  · simp only
    omega
  · simp only
    omega
  · simp only
    omega
  · split <;> omega

theorem chosenPacket_rowKind {e : Encoder} {base added : Nat} (h : e.window.Holding base added)
    (hrow : e.nextRow < kRowPeriod) (hcauchy : e.nextCauchyRow < kCauchyMaxRows) :
    e.chosenPacket.2.rowKind = e.chosenKind ∧ e.chosenPacket.2.InRange ∧
      e.chosenPacket.1.nextRow < kRowPeriod ∧
      e.chosenPacket.1.nextCauchyRow < kCauchyMaxRows := by
  have hlt := h.first_lt
  have hcount := h.count_eq
  have hmax := h.count_le
  unfold chosenPacket chosenKind
  have hunacknowledged := h.unacknowledged
  rcases e.window.encodeBranch_cases with ⟨hbranch, hone⟩ | ⟨hbranch, hone, hfew⟩ |
    ⟨hbranch, hmany⟩ | ⟨hbranch, hone, hrun, hfew⟩ | ⟨hbranch, hrun, hmany, hless⟩
  all_goals rw [hbranch]
  · refine ⟨rfl, ⟨Nat.le_refl 1, ?_, Nat.le_refl 1, Nat.le_refl 1, ?_, Nat.zero_lt_succ 255⟩, hrow,
      hcauchy⟩
    · exact Nat.le_add_left 1 15999
    · exact Nat.mod_lt _ (by decide)
  · rw [hunacknowledged] at hone hfew
    obtain ⟨hkind, hrange, hsame, hless⟩ := generateCauchyPacket_rowKind h hcauchy hone hfew
    exact ⟨hkind, hrange, hsame ▸ hrow, hless⟩
  · rw [hunacknowledged] at hmany
    obtain ⟨hkind, hrange, hless, hsame⟩ := generateSumPacket_rowKind
      (e := { e with window := e.window.resetSums e.window.firstUnremovedElement })
      (h.resetSums _) hrow (Nat.mod_lt _ (by decide))
      (by simp only [EncoderPacketWindow.resetSums]; omega)
      (by simp only [EncoderPacketWindow.resetSums]; omega) (Nat.le_refl _)
    exact ⟨hkind, hrange, hless, hsame ▸ hcauchy⟩
  · rw [hunacknowledged] at hone hfew
    obtain ⟨s, hs, hplace, hle, hend⟩ := h.sums hrun
    have hreset : siameseSumResetThreshold ≤ siameseCauchyThreshold := by decide
    have hstopped : ({ e.window with sumEndElement := e.window.sumStartElement } :
        EncoderPacketWindow).Holding base added :=
      ⟨h.nextColumn_eq, h.columnStart_eq, hcount, hlt, hmax,
        fun hc => absurd hc (Nat.lt_irrefl _)⟩
    obtain ⟨hkind, hrange, hsame, hless⟩ := generateCauchyPacket_rowKind
      (e := { e with window := { e.window with sumEndElement := e.window.sumStartElement } })
      hstopped hcauchy hone (by simp only; omega)
    refine ⟨hkind, hrange, ?_, hless⟩
    rw [hsame]
    exact hrow
  · obtain ⟨s, hs, hplace, hle, hend⟩ := h.sums hrun
    obtain ⟨hkind, hrange, hless, hsame⟩ := generateSumPacket_rowKind h hrow
      (by rw [hs]; exact columnOf_lt s) (by omega) (by omega) (by omega)
    exact ⟨hkind, hrange, hless, hsame ▸ hcauchy⟩

theorem chosenKind_rows {e : Encoder} (hrow : e.nextRow < kRowPeriod)
    (hcauchy : e.nextCauchyRow < kCauchyMaxRows) :
    (∀ row, e.chosenKind = .cauchy row → row < kCauchyMaxRows) ∧
      ∀ row, e.chosenKind = .sum row → row < kRowPeriod := by
  have hkinds : e.chosenKind = .single ∨ e.chosenKind = .parity ∨
      e.chosenKind = .cauchy e.nextCauchyRow ∨ e.chosenKind = .sum e.nextRow := by
    have hcauchyKind : e.cauchyKind = .parity ∨ e.cauchyKind = .cauchy e.nextCauchyRow := by
      unfold cauchyKind
      split
      · exact .inl rfl
      · exact .inr rfl
    unfold chosenKind
    cases e.window.encodeBranch with
    | single => exact .inl rfl
    | cauchy => exact .inr (hcauchyKind.imp_right .inl)
    | restartSums => exact .inr (.inr (.inr rfl))
    | stopSums => exact .inr (hcauchyKind.imp_right .inl)
    | sums => exact .inr (.inr (.inr rfl))
  rcases hkinds with hkind | hkind | hkind | hkind <;> rw [hkind]
  · exact ⟨fun _ h => (nomatch h), fun _ h => (nomatch h)⟩
  · exact ⟨fun _ h => (nomatch h), fun _ h => (nomatch h)⟩
  · refine ⟨fun row h => ?_, fun _ h => nomatch h⟩
    cases h
    exact hcauchy
  · refine ⟨fun _ h => (nomatch h), fun row h => ?_⟩
    cases h
    exact hrow

theorem Sane.removeBefore {e : Encoder} (h : e.Sane) (column : Nat) :
    ({ e with window := e.window.removeBefore column } : Encoder).Sane := by
  obtain ⟨added, hwindow⟩ := h.window
  refine ⟨⟨added, ?_⟩, h.nextRow_lt, h.nextCauchyRow_lt⟩
  rcases hwindow with ⟨hcount, hcolumn⟩ | ⟨base, hold⟩
  · rw [EncoderPacketWindow.removeBefore_empty hcount]
    exact .inl ⟨hcount, hcolumn⟩
  · unfold EncoderPacketWindow.removeBefore
    simp only
    split
    · split
      · exact .inr ⟨base, hold⟩
      · exact .inl ⟨rfl, hold.nextColumn_eq⟩
    · next hin =>
      split
      · next hmove =>
        refine .inr ⟨base, hold.nextColumn_eq, hold.columnStart_eq, hold.count_eq, by simp only; omega,
          hold.count_le, fun hrun => ?_⟩
        obtain ⟨s, hs, hplace, hle, hend⟩ := hold.sums hrun
        exact ⟨s, hs, hplace, by simp only; omega, hend⟩
      · exact .inr ⟨base, hold⟩

theorem Sane.acknowledge {e : Encoder} (h : e.Sane) (nowMsec : Nat) (data : Bytes) :
    (e.acknowledge nowMsec data).1.Sane := by
  have hsame : ∀ ack, ({ e with ack := ack } : Encoder).Sane :=
    fun _ => ⟨h.window, h.nextRow_lt, h.nextCauchyRow_lt⟩
  simp only [Encoder.acknowledge]
  cases hread : deserializeHeaderPacketNum data with
  | none =>
    have hnothing : e.ack.onAcknowledgementData e.window nowMsec data =
        ⟨e.ack, e.window, none, false⟩ := by
      unfold EncoderAcknowledgementState.onAcknowledgementData
      rw [hread]
    rw [hnothing]
    exact h
  | some header =>
    obtain ⟨column, headerBytes⟩ := header
    rcases e.ack.onAcknowledgementData_window e.window nowMsec hread with
      ⟨-, -, hwindow⟩ | ⟨-, -, hwindow | hwindow⟩
    · rw [hwindow]
      exact hsame _
    · rw [hwindow]
      exact hsame _
    · rw [hwindow]
      have hremoved := h.removeBefore column
      exact ⟨hremoved.window, hremoved.nextRow_lt, hremoved.nextCauchyRow_lt⟩

theorem Sane.add {e : Encoder} (h : e.Sane) (nowMsec : Nat) : (e.add nowMsec).1.Sane := by
  obtain ⟨added, hwindow⟩ := h.window
  rcases hwindow with ⟨hcount, hcolumn⟩ | ⟨base, hold⟩
  · obtain ⟨-, hheld, -⟩ := EncoderPacketWindow.add_empty hcount hcolumn nowMsec
    exact ⟨⟨added + 1, .inr ⟨_, hheld⟩⟩, h.nextRow_lt, h.nextCauchyRow_lt⟩
  · by_cases hfull : e.window.getRemainingSlots ≤ 0
    · have hsame : e.window.add nowMsec = (e.window, .maxPacketsReached) := if_pos hfull
      simp only [Encoder.add, hsame]
      exact ⟨⟨added, .inr ⟨base, hold⟩⟩, h.nextRow_lt, h.nextCauchyRow_lt⟩
    · have hok : (e.window.add nowMsec).2 = .success := by
        unfold EncoderPacketWindow.add
        rw [if_neg hfull]
      exact ⟨⟨added + 1, .inr ⟨base, (hold.add nowMsec hok).1⟩⟩, h.nextRow_lt, h.nextCauchyRow_lt⟩

theorem Sane.encode {e : Encoder} (h : e.Sane) (hpos : 0 < e.window.count) :
    ∃ e' m, e.encode = (e', some m) ∧ e'.Sane ∧ m.rowKind = e.builtKind ∧ m.InRange ∧
      (∀ row, e.builtKind = .cauchy row → row < kCauchyMaxRows) ∧
      ∀ row, e.builtKind = .sum row → row < kRowPeriod := by
  obtain ⟨added, hwindow⟩ := h.window
  rcases hwindow with ⟨hcount, -⟩ | ⟨base, hold⟩
  · omega
  · obtain ⟨base', hold', -⟩ := removeFront_holding hold
    obtain ⟨-, hnextRow, hnextCauchyRow⟩ := e.removeFront_rest
    rw [encode_eq e hpos]
    unfold builtKind
    generalize e.removeFront = e₁ at hold' hnextRow hnextCauchyRow ⊢
    have hrow₁ : e₁.nextRow < kRowPeriod := by
      rw [hnextRow]
      exact h.nextRow_lt
    have hcauchy₁ : e₁.nextCauchyRow < kCauchyMaxRows := by
      rw [hnextCauchyRow]
      exact h.nextCauchyRow_lt
    obtain ⟨hkind, hrange, hrow, hcauchy⟩ := chosenPacket_rowKind hold' hrow₁ hcauchy₁
    obtain ⟨-, -, hheld, -, -⟩ := chosenPacket_endsAt hold'
    exact ⟨_, _, rfl, ⟨⟨added, .inr ⟨base', hheld⟩⟩, hrow, hcauchy⟩, hkind, hrange,
      chosenKind_rows hrow₁ hcauchy₁⟩

theorem Sane.call {e : Encoder} (h : e.Sane) (c : Call) : (e.call c).Sane := by
  cases c with
  | add nowMsec => exact h.add nowMsec
  | removeBefore column => exact h.removeBefore column
  | acknowledge nowMsec data => exact h.acknowledge nowMsec data
  | encode =>
    by_cases hpos : 0 < e.window.count
    · obtain ⟨e', m, hmade, hsane, -⟩ := h.encode hpos
      rw [Encoder.call, hmade]
      exact hsane
    · have hnothing : e.encode = (e, none) := if_pos (by omega)
      rw [Encoder.call, hnothing]
      exact h

/-- Whatever was called before: the metadata of the packet Encode emits fit their fields, and the
decoder takes it for what it was built as. So a sum of one packet is a copy, one of up to the
threshold a parity or a Cauchy row, and a longer one a row of Siamese sums. -/
theorem row_kinds_agree (calls : List Call) (e e' : Encoder) (m : RecoveryMetadata)
    (hrun : Run Calls initial calls e) (hmade : e.encode = (e', some m)) :
    m.InRange ∧ m.rowKind = e.builtKind ∧ (m.sumCount = 1 ↔ e.builtKind = .single) ∧
      (2 ≤ m.sumCount ∧ m.sumCount ≤ siameseCauchyThreshold ↔
        e.builtKind = .parity ∧ m.row = 0 ∨
          ∃ cauchyRow, e.builtKind = .cauchy cauchyRow ∧ m.row = cauchyRow + 1 ∧
            cauchyRow < kCauchyMaxRows) ∧
      (siameseCauchyThreshold < m.sumCount ↔
        ∃ row, e.builtKind = .sum row ∧ m.row = row ∧ row < kRowPeriod) := by
  have hsane : e.Sane := hrun.invariant (P := Sane) sane_initial fun _ c _ h hcall => hcall ▸ h.call c
  have hpos : 0 < e.window.count := by
    by_contra hzero
    have hnothing : e.encode = (e, none) := if_pos (by omega)
    rw [hnothing] at hmade
    cases hmade
  obtain ⟨e₁, m₁, hmade₁, -, hkind, hrange, hcauchy, hsum⟩ := hsane.encode hpos
  rw [hmade] at hmade₁
  cases hmade₁
  have hthreshold : siameseCauchyThreshold = 64 := rfl
  refine ⟨hrange, hkind, ?_⟩
  rw [← hkind] at hcauchy hsum ⊢
  by_cases hone : m.sumCount = 1
  · have hread : m.rowKind = .single := if_pos hone
    rw [hread]
    simp [hone, hthreshold]
  · by_cases hfew : m.sumCount ≤ siameseCauchyThreshold
    · have hsumPos := hrange.sum_pos
      have htwo : 2 ≤ m.sumCount := by omega
      have hread : m.rowKind = if m.row = 0 then .parity else .cauchy (m.row - 1) := by
        rw [RecoveryMetadata.rowKind, if_neg hone, if_pos hfew]
      by_cases hzero : m.row = 0
      · rw [if_pos hzero] at hread
        rw [hread]
        simp [hone, hfew, htwo, hzero, Nat.not_lt.mpr hfew]
      · rw [if_neg hzero] at hread
        have hlt := hcauchy (m.row - 1) hread
        have hrow : m.row = m.row - 1 + 1 := by omega
        rw [hread]
        refine ⟨by simp [hone], ?_, by simp [Nat.not_lt.mpr hfew]⟩
        simp only [htwo, hfew, and_self, true_iff]
        exact .inr ⟨m.row - 1, rfl, hrow, hlt⟩
    · have hread : m.rowKind = .sum m.row := by
        rw [RecoveryMetadata.rowKind, if_neg hone, if_neg hfew]
      have hlt := hsum m.row hread
      rw [hread]
      simp [hone, hfew, Nat.lt_of_not_le hfew, hlt]

/-- Two packets held: a parity row, then a Cauchy row, both over two packets. -/
theorem row_kinds_agree_twoPackets : ∃ e e' m,
    Run Calls initial [.add 0, .add 0, .encode] e ∧ e.encode = (e', some m) ∧
      m = ⟨1, 0, 2, 2⟩ ∧ e.builtKind = .cauchy 0 ∧ m.rowKind = e.builtKind := by
  obtain ⟨e, e', hrun, hmade, hkind⟩ : ∃ e e', Run Calls initial [.add 0, .add 0, .encode] e ∧
      e.encode = (e', some ⟨1, 0, 2, 2⟩) ∧ e.builtKind = .cauchy 0 :=
    ⟨_, _, .cons rfl <| .cons rfl <| .cons rfl (.nil _), rfl, rfl⟩
  exact ⟨e, e', _, hrun, hmade, rfl, hkind, (row_kinds_agree _ e e' _ hrun hmade).2.1⟩

end Encoder
end Tonk.Siamese
