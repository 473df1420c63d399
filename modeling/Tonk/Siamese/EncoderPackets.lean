import Tonk.Siamese.EncoderSums

set_option autoImplicit false

namespace Tonk.Siamese
open Protocol

/-- The workspaces of Encode and the window they are filled from. -/
structure SumWorkspace where
  data : EncoderData
  recovery : DataBuffer
  product : DataBuffer

namespace SumWorkspace

def reset (d : EncoderData) : SumWorkspace :=
  ⟨d, List.replicate d.longestPacket 0, List.replicate d.longestPacket 0⟩

def addDenseSum (laneIndex row : Nat) (s : SumWorkspace) (bit : Nat) : SumWorkspace :=
  if (getRowOpcode laneIndex row).testBit bit then
    let (d, sum) := s.data.getSum laneIndex (bit % kColumnSumCount) s.data.window.count
    let sum := sum.take d.longestPacket
    if bit < kColumnSumCount then { s with data := d, recovery := s.recovery.addMem sum }
    else { s with data := d, product := s.product.addMem sum }
  else s

def addDenseColumns (s : SumWorkspace) (row : Nat) : SumWorkspace :=
  let s := (List.range kColumnLaneCount).foldl (fun s laneIndex =>
    (List.range (2 * kColumnSumCount)).foldl (addDenseSum laneIndex row) s) s
  { s with data := { s.data with window := { s.data.window with
      sumEndElement := s.data.window.count } } }

def addLightPairs (startElement count : Nat) : Nat → PCGRandom → SumWorkspace → SumWorkspace
  | 0, _, s => s
  | n + 1, prng, s =>
    let (random1, prng) := prng.next
    let original1 := s.data.getWindowElement (startElement + random1.toNat % count)
    let (randomRX, prng) := prng.next
    let originalRX := s.data.getWindowElement (startElement + randomRX.toNat % count)
    addLightPairs startElement count n prng { s with
      recovery := s.recovery.addMem original1.buffer
      product := s.product.addMem originalRX.buffer }

def addLightColumns (s : SumWorkspace) (row : Nat) : SumWorkspace :=
  let startElement := s.data.window.firstUnremovedElement
  let count := s.data.window.sumEndElement - startElement
  let pairCount := (count + kPairAddRate - 1) / kPairAddRate
  addLightPairs startElement count pairCount (.seed (.ofNat row) (.ofNat count)) s

end SumWorkspace

namespace EncoderData

def unremoved (d : EncoderData) : List Nat :=
  List.range' d.window.firstUnremovedElement (d.window.count - d.window.firstUnremovedElement)

def usedBytes (d : EncoderData) : Nat :=
  d.unremoved.foldl (fun used e => max used (d.getWindowElement e).buffer.length) 0

def parityData (d : EncoderData) : DataBuffer :=
  let recovery := (d.getWindowElement d.window.firstUnremovedElement).buffer.growZeroPadded
    d.longestPacket
  (d.unremoved.tail.foldl (fun recovery e => recovery.addMem (d.getWindowElement e).buffer)
    recovery).take d.usedBytes

def addCauchyOriginals (d : EncoderData) (cauchyRow : Nat) :
    List Nat → Nat → DataBuffer → DataBuffer
  | [], _, recovery => recovery
  | element :: rest, cauchyColumn, recovery =>
    let cauchyColumn := (cauchyColumn + 1) % kCauchyMaxColumns
    d.addCauchyOriginals cauchyRow rest cauchyColumn
      (recovery.mulAddMem (cauchyElement cauchyRow cauchyColumn) (d.getWindowElement element).buffer)

def cauchyData (d : EncoderData) (cauchyRow columnStart : Nat) : DataBuffer :=
  let cauchyColumn := columnStart % kCauchyMaxColumns
  let y := cauchyElement cauchyRow cauchyColumn
  let recovery := DataBuffer.growZeroPadded
    ((d.getWindowElement d.window.firstUnremovedElement).buffer.map (· * y)) d.longestPacket
  (d.addCauchyOriginals cauchyRow d.unremoved.tail cauchyColumn recovery).take d.usedBytes

end EncoderData

/-- `Encoder` with the data and the state of Retransmit. -/
structure FullEncoder where
  data : EncoderData
  ack : EncoderAcknowledgementState
  nextRow : Nat
  nextParityColumn : Nat
  nextCauchyRow : Nat
  foundOldest : Bool
  oldestColumn : Nat
  emergencyDisabled : Bool

namespace FullEncoder

def initial : FullEncoder := ⟨.initial, .initial, 0, 0, 0, false, 0, false⟩

def positions (e : FullEncoder) : Encoder :=
  ⟨e.data.window, e.ack, e.nextRow, e.nextParityColumn, e.nextCauchyRow⟩

def add (e : FullEncoder) (nowMsec : Nat) (data : Bytes) : FullEncoder × SiameseResult :=
  if e.emergencyDisabled then (e, .disabled)
  else
    let (d, result) := e.data.add nowMsec data
    ({ e with data := d }, result)

def removeBefore (e : FullEncoder) (firstKeptColumn : Nat) : FullEncoder :=
  if e.emergencyDisabled then e else { e with data := e.data.removeBefore firstKeptColumn }

def acknowledge (e : FullEncoder) (nowMsec : Nat) (data : Bytes) : FullEncoder × SiameseResult :=
  if e.emergencyDisabled then (e, .disabled)
  else
    let outcome := e.ack.onAcknowledgementData e.data.window nowMsec data
    ({ e with ack := outcome.state, data := { e.data with window := outcome.window } },
      if outcome.ok then .success else .invalidInput)

def generateSinglePacket (e : FullEncoder) : FullEncoder × RecoveryMetadata × DataBuffer :=
  let original := e.data.getWindowElement e.data.window.firstUnremovedElement
  (e, { sumCount := 1, ldpcCount := 1, columnStart := original.column, row := 0 }, original.buffer)

def generateCauchyPacket (e : FullEncoder) : FullEncoder × RecoveryMetadata × DataBuffer :=
  let (made, metadata) := e.positions.generateCauchyPacket
  ({ e with nextParityColumn := made.nextParityColumn, nextCauchyRow := made.nextCauchyRow },
    metadata,
    if metadata.row = 0 then e.data.parityData
    else e.data.cauchyData (metadata.row - 1) metadata.columnStart)

def generateSumPacket (e : FullEncoder) : FullEncoder × RecoveryMetadata × DataBuffer :=
  let unacknowledgedCount := e.data.window.getUnacknowledgedCount
  let row := e.nextRow
  let s := (SumWorkspace.reset e.data).addDenseColumns row
  let s := s.addLightColumns row
  let window := s.data.window
  ({ e with
      nextRow := if kRowPeriod ≤ e.nextRow + 1 then 0 else e.nextRow + 1
      data := s.data },
    { sumCount := window.sumEndElement - window.sumStartElement + window.sumErasedCount
      ldpcCount := unacknowledgedCount
      columnStart := window.sumColumnStart
      row := row },
    s.recovery.mulAddMem (getRowValue row) s.product)

def chosenPacket (e : FullEncoder) : FullEncoder × RecoveryMetadata × DataBuffer :=
  match e.data.window.encodeBranch with
  | .single => e.generateSinglePacket
  | .cauchy => e.generateCauchyPacket
  | .restartSums =>
    { e with data := e.data.resetSums e.data.window.firstUnremovedElement }.generateSumPacket
  | .stopSums =>
    { e with data := { e.data with window := { e.data.window with
      sumEndElement := e.data.window.sumStartElement } } }.generateCauchyPacket
  | .sums => e.generateSumPacket

def encode (e : FullEncoder) : FullEncoder × Option (RecoveryMetadata × DataBuffer) :=
  if e.emergencyDisabled then (e, none)
  else if e.data.window.count ≤ 0 then (e, none)
  else
    let e := if kEncoderRemoveThreshold ≤ e.data.window.firstUnremovedElement then
        { e with data := e.data.removeElements } else e
    (e.chosenPacket.1, some e.chosenPacket.2)

theorem encode_eq {e : FullEncoder} (hon : e.emergencyDisabled = false)
    (hpos : 0 < e.data.window.count) :
    e.encode = (let e := if kEncoderRemoveThreshold ≤ e.data.window.firstUnremovedElement then
        { e with data := e.data.removeElements } else e
      (e.chosenPacket.1, some e.chosenPacket.2)) := by
  unfold encode
  rw [if_neg (by simp [hon]), if_neg (by omega)]

end FullEncoder

/-- GetSum goes only through the sums, so what the sums keep the dense part of a packet keeps. -/
theorem SumWorkspace.addDenseColumns_induct {P : EncoderData → Prop}
    (hsum : ∀ d laneIndex sumIndex, laneIndex < kColumnLaneCount → sumIndex < kColumnSumCount →
      P d → P (d.getSum laneIndex sumIndex d.window.count).1)
    (hend : ∀ d : EncoderData, P d → P { d with window := { d.window with
      sumEndElement := d.window.count } }) {s : SumWorkspace} (h : P s.data) (row : Nat) :
    P (s.addDenseColumns row).data := by
  have hbit : ∀ laneIndex, laneIndex < kColumnLaneCount → ∀ bits : List Nat,
      ∀ s : SumWorkspace, P s.data → P (bits.foldl (addDenseSum laneIndex row) s).data := by
    intro laneIndex hlane bits
    induction bits with
    | nil => exact fun s hs => hs
    | cons bit bits ih =>
      intro s hs
      refine ih _ ?_
      have hindex : bit % kColumnSumCount < kColumnSumCount := Nat.mod_lt _ (by decide)
      unfold addDenseSum
      split
      · simp only
        split
        · exact hsum _ _ _ hlane hindex hs
        · exact hsum _ _ _ hlane hindex hs
      · exact hs
  have hlanes : ∀ lanes : List Nat, (∀ l ∈ lanes, l < kColumnLaneCount) → ∀ s : SumWorkspace,
      P s.data → P (lanes.foldl (fun s laneIndex =>
        (List.range (2 * kColumnSumCount)).foldl (addDenseSum laneIndex row) s) s).data := by
    intro lanes
    induction lanes with
    | nil => exact fun _ s hs => hs
    | cons l lanes ih =>
      intro hall s hs
      exact ih (fun l' hl' => hall l' (List.mem_cons_of_mem _ hl')) _
        (hbit l (hall l List.mem_cons_self) _ s hs)
  exact hend _ (hlanes _ (fun l hl => List.mem_range.mp hl) s h)

theorem SumWorkspace.addLightPairs_data (startElement count n : Nat) (prng : PCGRandom)
    (s : SumWorkspace) : (addLightPairs startElement count n prng s).data = s.data := by
  induction n generalizing prng s with
  | zero => rfl
  | succ n ih => exact ih _ _

structure EncoderData.SamePackets (d d' : EncoderData) : Prop where
  nextColumn : d'.window.nextColumn = d.window.nextColumn
  columnStart : d'.window.columnStart = d.window.columnStart
  count : d'.window.count = d.window.count
  firstUnremovedElement : d'.window.firstUnremovedElement = d.window.firstUnremovedElement
  subwindows : d'.subwindows = d.subwindows

theorem EncoderData.SamePackets.refl (d : EncoderData) : d.SamePackets d :=
  ⟨rfl, rfl, rfl, rfl, rfl⟩

theorem EncoderData.SamePackets.trans {d d' d'' : EncoderData} (h : d.SamePackets d')
    (h' : d'.SamePackets d'') : d.SamePackets d'' :=
  ⟨h'.nextColumn.trans h.nextColumn, h'.columnStart.trans h.columnStart, h'.count.trans h.count,
    h'.firstUnremovedElement.trans h.firstUnremovedElement, h'.subwindows.trans h.subwindows⟩

theorem EncoderData.Holds.same {d d' : EncoderData} {packets : List Bytes} {base first : Nat}
    (h : d.Holds packets base first) (hsame : d.SamePackets d') : d'.Holds packets base first :=
  h.of_eq hsame.nextColumn hsame.columnStart hsame.count hsame.firstUnremovedElement
    hsame.subwindows

theorem EncoderData.getSum_samePackets (d : EncoderData) (laneIndex sumIndex elementEnd : Nat) :
    d.SamePackets (d.getSum laneIndex sumIndex elementEnd).1 := by
  obtain ⟨hwindow, hsub⟩ := d.getSum_window laneIndex sumIndex elementEnd
  exact ⟨by rw [hwindow], by rw [hwindow], by rw [hwindow], by rw [hwindow], hsub⟩

namespace FullEncoder

theorem generateSumPacket_samePackets (e : FullEncoder) :
    e.data.SamePackets e.generateSumPacket.1.data := by
  have hdense : e.data.SamePackets
      ((SumWorkspace.reset e.data).addDenseColumns e.nextRow).data :=
    SumWorkspace.addDenseColumns_induct
      (fun d laneIndex sumIndex _ _ h => h.trans (d.getSum_samePackets laneIndex sumIndex _))
      (fun d h => h.trans ⟨rfl, rfl, rfl, rfl, rfl⟩) (.refl e.data) e.nextRow
  unfold generateSumPacket SumWorkspace.addLightColumns
  simp only [SumWorkspace.addLightPairs_data]
  exact hdense

theorem chosenPacket_samePackets (e : FullEncoder) :
    e.data.SamePackets e.chosenPacket.1.data := by
  have hreset : e.data.SamePackets (e.data.resetSums e.data.window.firstUnremovedElement) :=
    ⟨rfl, rfl, rfl, rfl, rfl⟩
  unfold chosenPacket
  cases e.data.window.encodeBranch with
  | single => exact .refl e.data
  | cauchy => exact .refl e.data
  | restartSums =>
    exact hreset.trans (generateSumPacket_samePackets
      { e with data := e.data.resetSums e.data.window.firstUnremovedElement })
  | stopSums => exact ⟨rfl, rfl, rfl, rfl, rfl⟩
  | sums => exact e.generateSumPacket_samePackets

end FullEncoder
end Tonk.Siamese
