import Tonk.Siamese.Acknowledgement
import Tonk.Siamese.Decoder

/-!
`Encoder`: which recovery packet Encode makes next and what its metadata say. The data are not part
of this module.
-/

set_option autoImplicit false

namespace Tonk.Siamese
open Protocol

def siameseSumResetThreshold : Nat := 32
def kRowPeriod : Nat := 255
def kCauchyMaxColumns : Nat := siameseCauchyThreshold
def kCauchyMaxRows : Nat := 256 - kCauchyMaxColumns
def kEncoderRemoveThreshold : Nat := 2 * kSubwindowSize

/-- The branches of Encode: a copy of one packet, a parity or Cauchy row, or a row of sums. A run of
sums is started anew, or stopped, before the row is made. -/
inductive EncodeBranch where
  | single
  | cauchy
  | restartSums
  | stopSums
  | sums

def EncoderPacketWindow.encodeBranch (w : EncoderPacketWindow) : EncodeBranch :=
  let unacknowledgedCount := w.getUnacknowledgedCount
  if unacknowledgedCount = 1 then .single
  else
    let newSumCountUB := w.count - w.sumStartElement + w.sumErasedCount
    if w.sumEndElement ≤ w.sumStartElement ∨ siameseMaxPackets ≤ newSumCountUB then
      if unacknowledgedCount ≤ siameseCauchyThreshold then .cauchy else .restartSums
    else if unacknowledgedCount ≤ siameseSumResetThreshold ∨
        newSumCountUB ≤ siameseCauchyThreshold then .stopSums
    else .sums

theorem EncoderPacketWindow.encodeBranch_cases (w : EncoderPacketWindow) :
    w.encodeBranch = .single ∧ w.getUnacknowledgedCount = 1 ∨
    w.encodeBranch = .cauchy ∧ w.getUnacknowledgedCount ≠ 1 ∧
      w.getUnacknowledgedCount ≤ siameseCauchyThreshold ∨
    w.encodeBranch = .restartSums ∧ siameseCauchyThreshold < w.getUnacknowledgedCount ∨
    w.encodeBranch = .stopSums ∧ w.getUnacknowledgedCount ≠ 1 ∧ w.sumStartElement < w.sumEndElement ∧
      (w.getUnacknowledgedCount ≤ siameseSumResetThreshold ∨
        w.count - w.sumStartElement + w.sumErasedCount ≤ siameseCauchyThreshold) ∨
    w.encodeBranch = .sums ∧ w.sumStartElement < w.sumEndElement ∧
      siameseCauchyThreshold < w.count - w.sumStartElement + w.sumErasedCount ∧
      w.count - w.sumStartElement + w.sumErasedCount < siameseMaxPackets := by
  simp only [encodeBranch]
  split
  · next hone => exact .inl ⟨rfl, hone⟩
  · next hone =>
    refine .inr ?_
    split
    · split
      · next hfew => exact .inl ⟨rfl, hone, hfew⟩
      · next hmany => exact .inr (.inl ⟨rfl, Nat.lt_of_not_le hmany⟩)
    · next hrun =>
      refine .inr (.inr ?_)
      split
      · next hfew => exact .inl ⟨rfl, hone, by omega, hfew⟩
      · exact .inr ⟨rfl, by omega, by omega, by omega⟩

structure Encoder where
  window : EncoderPacketWindow
  ack : EncoderAcknowledgementState
  nextRow : Nat
  nextParityColumn : Nat
  nextCauchyRow : Nat

namespace Encoder

def initial : Encoder := ⟨.initial, .initial, 0, 0, 0⟩

def add (e : Encoder) (nowMsec : Nat) : Encoder × SiameseResult :=
  let (window, result) := e.window.add nowMsec
  ({ e with window := window }, result)

def acknowledge (e : Encoder) (nowMsec : Nat) (data : Bytes) : Encoder × SiameseResult :=
  let outcome := e.ack.onAcknowledgementData e.window nowMsec data
  ({ e with ack := outcome.state, window := outcome.window },
    if outcome.ok then .success else .invalidInput)

def generateSinglePacket (e : Encoder) : Encoder × RecoveryMetadata :=
  (e, {
    sumCount := 1
    ldpcCount := 1
    columnStart := e.window.elementToColumn e.window.firstUnremovedElement
    row := 0 })

def parityIsNext (e : Encoder) : Bool :=
  let nextParityElement := e.window.columnToElement e.nextParityColumn
  nextParityElement ≤ e.window.firstUnremovedElement || isColumnDeltaNegative nextParityElement

def generateCauchyPacket (e : Encoder) : Encoder × RecoveryMetadata :=
  let unacknowledgedCount := e.window.getUnacknowledgedCount
  let columnStart := e.window.elementToColumn e.window.firstUnremovedElement
  if e.parityIsNext then
    ({ e with nextParityColumn := addColumns columnStart unacknowledgedCount },
      ⟨0, columnStart, unacknowledgedCount, unacknowledgedCount⟩)
  else
    ({ e with nextCauchyRow := if kCauchyMaxRows ≤ e.nextCauchyRow + 1 then 0 else
        e.nextCauchyRow + 1 },
      ⟨e.nextCauchyRow + 1, columnStart, unacknowledgedCount, unacknowledgedCount⟩)

def generateSumPacket (e : Encoder) : Encoder × RecoveryMetadata :=
  let unacknowledgedCount := e.window.getUnacknowledgedCount
  let row := e.nextRow
  let e := { e with
    nextRow := if kRowPeriod ≤ e.nextRow + 1 then 0 else e.nextRow + 1
    window := { e.window with sumEndElement := e.window.count } }
  (e, {
    sumCount := e.window.sumEndElement - e.window.sumStartElement + e.window.sumErasedCount
    ldpcCount := unacknowledgedCount
    columnStart := e.window.sumColumnStart
    row := row })

def chosenPacket (e : Encoder) : Encoder × RecoveryMetadata :=
  match e.window.encodeBranch with
  | .single => e.generateSinglePacket
  | .cauchy => e.generateCauchyPacket
  | .restartSums =>
    { e with window := e.window.resetSums e.window.firstUnremovedElement }.generateSumPacket
  | .stopSums =>
    { e with window := { e.window with sumEndElement := e.window.sumStartElement }
      }.generateCauchyPacket
  | .sums => e.generateSumPacket

def removeFront (e : Encoder) : Encoder :=
  if kEncoderRemoveThreshold ≤ e.window.firstUnremovedElement then
    { e with window := e.window.removeElements }
  else e

def encode (e : Encoder) : Encoder × Option RecoveryMetadata :=
  if e.window.count ≤ 0 then (e, none)
  else
    let made := e.removeFront.chosenPacket
    (made.1, some made.2)

end Encoder
end Tonk.Siamese
