import Tonk.Siamese.EncoderRows
import Tonk.Siamese.RowKind
import Tonk.Siamese.RetransmitChoice

set_option autoImplicit false

namespace Tonk.Siamese
open Protocol

theorem EncoderData.add_window (d : EncoderData) (nowMsec : Nat) (data : Bytes) :
    (d.add nowMsec data).1.window = (d.window.add nowMsec).1 ∧
      (d.add nowMsec data).2 = (d.window.add nowMsec).2 := by
  have hfull : (d.window.add nowMsec).2 ≠ .success → (d.window.add nowMsec).1 = d.window := by
    unfold EncoderPacketWindow.add
    split
    · exact fun _ => rfl
    · exact fun hok => absurd rfl hok
  unfold EncoderData.add
  simp only
  split
  · exact ⟨rfl, rfl⟩
  · next hok => exact ⟨(hfull hok).symm, rfl⟩

theorem SumWorkspace.addDenseColumns_window (d : EncoderData) (row : Nat) :
    ((reset d).addDenseColumns row).data.window =
      { d.window with sumEndElement := d.window.count } := by
  have hend : ((reset d).addDenseColumns row).data.window.sumEndElement =
      ((reset d).addDenseColumns row).data.window.count := rfl
  have hsame : ({ ((reset d).addDenseColumns row).data.window with
      sumEndElement := ((reset d).addDenseColumns row).data.window.count } : EncoderPacketWindow) =
      { d.window with sumEndElement := d.window.count } := by
    refine addDenseColumns_induct
      (P := fun d' => ({ d'.window with sumEndElement := d'.window.count } : EncoderPacketWindow) =
        { d.window with sumEndElement := d.window.count })
      (fun d' laneIndex sumIndex _ _ h => ?_) (fun d' h => h) rfl row
    rw [(d'.getSum_window laneIndex sumIndex _).1]
    exact h
  rw [← hsame, ← hend]

namespace FullEncoder

variable {e : FullEncoder}

theorem generateCauchyPacket_positions (e : FullEncoder) :
    e.generateCauchyPacket.1.positions = e.positions.generateCauchyPacket.1 ∧
      e.generateCauchyPacket.2.1 = e.positions.generateCauchyPacket.2 := by
  obtain ⟨row, nextParityColumn, nextCauchyRow, heq⟩ := e.positions.generateCauchyPacket_eq
  unfold generateCauchyPacket
  rw [heq]
  exact ⟨rfl, rfl⟩

theorem generateSumPacket_positions (e : FullEncoder) :
    e.generateSumPacket.1.positions = e.positions.generateSumPacket.1 ∧
      e.generateSumPacket.2.1 = e.positions.generateSumPacket.2 := by
  unfold generateSumPacket SumWorkspace.addLightColumns positions
  simp only [SumWorkspace.addLightPairs_data, SumWorkspace.addDenseColumns_window]
  exact ⟨rfl, rfl⟩

variable {packets : List Bytes} {base first : Nat}

theorem chosenPacket_positions (h : e.data.Holds packets base first)
    (hpos : 0 < e.data.window.count) :
    e.chosenPacket.1.positions = e.positions.chosenPacket.1 ∧
      e.chosenPacket.2.1 = e.positions.chosenPacket.2 := by
  have hwindow : e.positions.window = e.data.window := rfl
  unfold chosenPacket Encoder.chosenPacket
  rw [hwindow]
  cases e.data.window.encodeBranch with
  | single =>
    have hlt := h.first_lt hpos
    have hcontents := h.contents e.data.window.firstUnremovedElement hlt (h.first_le hpos)
    refine ⟨rfl, ?_⟩
    simp only [generateSinglePacket, Encoder.generateSinglePacket, hcontents, positions,
      EncoderData.Holds.elementToColumn h]
    rfl
  | cauchy => exact e.generateCauchyPacket_positions
  | restartSums =>
    exact generateSumPacket_positions
      { e with data := e.data.resetSums e.data.window.firstUnremovedElement }
  | stopSums =>
    exact generateCauchyPacket_positions { e with data := { e.data with window :=
      { e.data.window with sumEndElement := e.data.window.sumStartElement } } }
  | sums => exact e.generateSumPacket_positions

theorem add_positions (hon : e.emergencyDisabled = false) (nowMsec : Nat) (data : Bytes) :
    (e.add nowMsec data).1.positions = (e.positions.add nowMsec).1 ∧
      (e.add nowMsec data).2 = (e.positions.add nowMsec).2 := by
  obtain ⟨hwindow, hresult⟩ := e.data.add_window nowMsec data
  unfold add Encoder.add positions
  rw [if_neg (by rw [hon]; decide)]
  exact ⟨by simp only [hwindow], hresult⟩

theorem acknowledge_positions (hon : e.emergencyDisabled = false) (nowMsec : Nat) (data : Bytes) :
    (e.acknowledge nowMsec data).1.positions = (e.positions.acknowledge nowMsec data).1 := by
  unfold acknowledge
  rw [if_neg (by rw [hon]; decide)]
  rfl

def SameRows (e e' : FullEncoder) : Prop :=
  e'.nextRow = e.nextRow ∧ e'.nextParityColumn = e.nextParityColumn ∧
    e'.nextCauchyRow = e.nextCauchyRow

theorem attemptRetransmit_sameRows (e : FullEncoder) (nowMsec element : Nat) :
    e.SameRows (e.attemptRetransmit nowMsec element).1 := by
  unfold attemptRetransmit
  simp only
  split <;> exact ⟨rfl, rfl, rfl⟩

theorem searchOldest_sameRows (e : FullEncoder) (nowMsec retransmitMsec firstElement : Nat) :
    e.SameRows (e.searchOldest nowMsec retransmitMsec firstElement).1 := by
  unfold searchOldest
  simp only
  split
  · exact e.attemptRetransmit_sameRows nowMsec firstElement
  · split
    · next element _ =>
      have hattempt : ∀ ack, e.SameRows ({ e with ack := ack }.attemptRetransmit nowMsec element).1 :=
        fun ack => attemptRetransmit_sameRows { e with ack := ack } nowMsec element
      exact hattempt _
    · exact ⟨rfl, rfl, rfl⟩

theorem retransmit_sameRows (e : FullEncoder) (nowMsec retransmitMsec : Nat) :
    e.SameRows (e.retransmit nowMsec retransmitMsec).1 := by
  unfold retransmit
  simp only
  split
  · exact ⟨rfl, rfl, rfl⟩
  · split
    · exact ⟨rfl, rfl, rfl⟩
    · split
      · exact ⟨rfl, rfl, rfl⟩
      · split
        · split
          · exact ⟨rfl, rfl, rfl⟩
          · exact attemptRetransmit_sameRows { e with foundOldest := false } _ _
        · exact searchOldest_sameRows { e with foundOldest := false } _ _ _

theorem retransmit_positions (e : FullEncoder) (nowMsec retransmitMsec : Nat) :
    ∃ ack lastSendMsec, ack.nextColumnExpected = e.ack.nextColumnExpected ∧
      (e.retransmit nowMsec retransmitMsec).1.positions = { e.positions with
        ack := ack
        window := { e.data.window with lastSendMsec := lastSendMsec } } := by
  have hany : e.Candidates fun _ => True :=
    ⟨fun _ _ _ => ⟨trivial, fun _ _ _ _ _ => trivial, fun _ _ _ _ => trivial,
      fun _ => ⟨fun _ _ _ => trivial, fun _ _ _ => trivial⟩⟩⟩
  have hnext := (hany.retransmit nowMsec retransmitMsec).ack_next
  obtain ⟨lastSendMsec, hdata⟩ := e.retransmit_data nowMsec retransmitMsec
  refine ⟨(e.retransmit nowMsec retransmitMsec).1.ack, lastSendMsec, hnext, ?_⟩
  obtain ⟨hrow, hparity, hcauchy⟩ := e.retransmit_sameRows nowMsec retransmitMsec
  simp only [positions, hdata, hrow, hparity, hcauchy]

theorem encode_positions (h : e.data.Holds packets base first)
    (hon : e.emergencyDisabled = false) :
    e.encode.1.positions = e.positions.encode.1 ∧
      e.encode.2.map Prod.fst = e.positions.encode.2 := by
  by_cases hpos : 0 < e.data.window.count
  · rw [encode_eq hon hpos, Encoder.encode_eq e.positions hpos]
    by_cases hremove : kEncoderRemoveThreshold ≤ e.data.window.firstUnremovedElement
    · have hlt := h.first_lt hpos
      have hdiv := Nat.div_mul_le_self e.data.window.firstUnremovedElement kSubwindowSize
      obtain ⟨-, -, hcount, -⟩ := e.data.window.removeElements_positions
      have hwindow := EncoderData.removeElements_window e.data
      have hremoved : ({ e with data := e.data.removeElements } : FullEncoder).positions =
          { e.positions with window := e.data.window.removeElements } := by
        simp only [positions, hwindow]
      obtain ⟨hmade, hmetadata⟩ := chosenPacket_positions
        (e := { e with data := e.data.removeElements }) (h.removeElements hpos)
        (by simp only [hwindow, hcount]; omega)
      have hfront : e.positions.removeFront =
          { e.positions with window := e.data.window.removeElements } := if_pos hremove
      rw [hremoved] at hmade hmetadata
      simp only [if_pos hremove, hfront, Option.map_some, hmade, hmetadata, and_self]
    · have hfront : e.positions.removeFront = e.positions := if_neg hremove
      obtain ⟨hmade, hmetadata⟩ := chosenPacket_positions h hpos
      simp only [if_neg hremove, hfront, Option.map_some, hmade, hmetadata, and_self]
  · have hnone : e.encode = (e, none) := by
      unfold encode
      rw [if_neg (by rw [hon]; decide), if_pos (by omega)]
    have hnone' : e.positions.encode = (e.positions, none) := if_pos (Nat.le_of_not_lt hpos)
    rw [hnone, hnone']
    exact ⟨rfl, rfl⟩

end FullEncoder

namespace Encoder

theorem Sane.retransmit {e : Encoder} (h : e.Sane) (ack : EncoderAcknowledgementState)
    (lastSendMsec : Nat → Nat) : ({ e with
      ack := ack
      window := { e.window with lastSendMsec := lastSendMsec } } : Encoder).Sane := by
  obtain ⟨⟨added, hwindow⟩, hrow, hcauchy⟩ := h
  refine ⟨⟨added, ?_⟩, hrow, hcauchy⟩
  rcases hwindow with hempty | ⟨base, hold⟩
  · exact .inl hempty
  · exact .inr ⟨base, hold.nextColumn_eq, hold.columnStart_eq, hold.count_eq, hold.first_lt,
      hold.count_le, hold.sums⟩

end Encoder

namespace TracedEncoder

/-- What is known of the encoder without its data and of the packets. -/
structure Sane (t : TracedEncoder) : Prop where
  positions : t.encoder.positions.Sane
  summed : t.Summed

theorem Sane.step {t : TracedEncoder} (h : t.Sane) (call : EncoderCall) : (t.step call).Sane := by
  refine ⟨?_, h.summed.step call⟩
  cases hoff : t.encoder.emergencyDisabled with
  | true =>
    have hsame : (t.step call).encoder = t.encoder := by
      cases call with
      | add nowMsec data =>
        simp [TracedEncoder.step, FullEncoder.add, hoff]
      | removeBefore firstKeptColumn => simp [TracedEncoder.step, FullEncoder.removeBefore, hoff]
      | acknowledge nowMsec data => simp [TracedEncoder.step, FullEncoder.acknowledge, hoff]
      | retransmit nowMsec retransmitMsec => simp [TracedEncoder.step, FullEncoder.retransmit, hoff]
      | encode => simp [TracedEncoder.step, FullEncoder.encode, hoff]
    rw [hsame]
    exact h.positions
  | false =>
    cases call with
    | add nowMsec data =>
      have hpositions : (t.step (.add nowMsec data)).encoder.positions =
          (t.encoder.positions.add nowMsec).1 := by
        rw [← (FullEncoder.add_positions hoff nowMsec data).1]
        simp only [TracedEncoder.step]
        split <;> rfl
      rw [hpositions]
      exact h.positions.add nowMsec
    | removeBefore firstKeptColumn =>
      have hpositions : (t.step (.removeBefore firstKeptColumn)).encoder.positions =
          { t.encoder.positions with
            window := t.encoder.positions.window.removeBefore firstKeptColumn } := by
        simp only [TracedEncoder.step, FullEncoder.removeBefore, hoff]
        rfl
      rw [hpositions]
      exact h.positions.removeBefore firstKeptColumn
    | acknowledge nowMsec data =>
      have hpositions := FullEncoder.acknowledge_positions hoff nowMsec data
      simp only [TracedEncoder.step, hpositions]
      exact h.positions.acknowledge nowMsec data
    | retransmit nowMsec retransmitMsec =>
      obtain ⟨ack, lastSendMsec, -, hpositions⟩ :=
        t.encoder.retransmit_positions nowMsec retransmitMsec
      simp only [TracedEncoder.step, hpositions]
      exact h.positions.retransmit ack lastSendMsec
    | encode =>
      have hpositions := (FullEncoder.encode_positions h.summed.holds hoff).1
      simp only [TracedEncoder.step, hpositions]
      exact h.positions.call .encode

theorem sane_run (calls : List EncoderCall) : (initial.run calls).Sane := by
  have hrun : ∀ (calls : List EncoderCall) (t : TracedEncoder), t.Sane → (t.run calls).Sane := by
    intro calls
    induction calls with
    | nil => exact fun t h => h
    | cons call calls ih => exact fun t h => ih _ (h.step call)
  exact hrun calls initial ⟨Encoder.sane_initial, EncoderData.summed_initial⟩

theorem Sane.encode {t : TracedEncoder} (h : t.Sane) {m : RecoveryMetadata} {recovery : DataBuffer}
    (hmade : t.encoder.encode.2 = some (m, recovery)) :
    Combines m recovery t.packets ∧ m.InRange := by
  refine ⟨h.summed.encode.2 m recovery hmade, ?_⟩
  cases hoff : t.encoder.emergencyDisabled with
  | true =>
    have hnone : t.encoder.encode.2 = none := by simp [FullEncoder.encode, hoff]
    rw [hnone] at hmade
    cases hmade
  | false =>
    have hmetadata := (FullEncoder.encode_positions h.summed.holds hoff).2
    rw [hmade] at hmetadata
    have hpos : 0 < t.encoder.positions.window.count := by
      by_contra hzero
      have hnone : t.encoder.positions.encode = (t.encoder.positions, none) := if_pos (by omega)
      rw [hnone] at hmetadata
      cases hmetadata
    obtain ⟨e', m', hmade', -, -, hrange, -⟩ := h.positions.encode hpos
    rw [hmade'] at hmetadata
    cases hmetadata
    exact hrange

end TracedEncoder
end Tonk.Siamese
