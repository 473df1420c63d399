import Tonk.Siamese.Common

/-!
`EncoderPacketWindow`: which columns the encoder holds, which of them it still protects, and over
which columns its running sums go. The data and the sums themselves are not part of this module.
-/

set_option autoImplicit false

namespace Tonk.Siamese

structure EncoderPacketWindow where
  nextColumn : Nat
  count : Nat
  columnStart : Nat
  firstUnremovedElement : Nat
  sumStartElement : Nat
  sumEndElement : Nat
  sumColumnStart : Nat
  sumErasedCount : Nat
  lastSendMsec : Nat → Nat

namespace EncoderPacketWindow

def initial : EncoderPacketWindow := ⟨0, 0, 0, 0, 0, 0, 0, 0, fun _ => 0⟩

def columnToElement (w : EncoderPacketWindow) (column : Nat) : Nat :=
  subtractColumns column w.columnStart

def elementToColumn (w : EncoderPacketWindow) (element : Nat) : Nat :=
  addColumns element w.columnStart

def getRemainingSlots (w : EncoderPacketWindow) : Nat := siameseMaxPackets - w.count

/-- An unsigned difference: with an empty window it wraps. -/
def getUnacknowledgedCount (w : EncoderPacketWindow) : Nat :=
  unsignedSub w.count w.firstUnremovedElement

def startNewWindow (w : EncoderPacketWindow) (column : Nat) : EncoderPacketWindow :=
  let element := column % kColumnLaneCount
  { w with
    columnStart := column - element
    sumStartElement := element
    sumEndElement := element
    firstUnremovedElement := element
    count := element + 1 }

def add (w : EncoderPacketWindow) (nowMsec : Nat) : EncoderPacketWindow × SiameseResult :=
  if w.getRemainingSlots ≤ 0 then (w, .maxPacketsReached)
  else
    let column := w.nextColumn
    let element := if 0 < w.count then w.count else column % kColumnLaneCount
    let w := if 0 < w.count then { w with count := w.count + 1 } else w.startNewWindow column
    ({ w with
      lastSendMsec := Function.update w.lastSendMsec element (nowMsec % 2 ^ 32)
      nextColumn := incrementColumn1 w.nextColumn }, .success)

def removeBefore (w : EncoderPacketWindow) (firstKeptColumn : Nat) : EncoderPacketWindow :=
  let firstKeptElement := w.columnToElement firstKeptColumn
  if w.count ≤ firstKeptElement then
    if isColumnDeltaNegative firstKeptElement then w else { w with count := 0 }
  else if w.firstUnremovedElement < firstKeptElement then
    { w with firstUnremovedElement := firstKeptElement }
  else w

def resetSums (w : EncoderPacketWindow) (elementStart : Nat) : EncoderPacketWindow :=
  { w with
    sumStartElement := elementStart
    sumEndElement := elementStart
    sumColumnStart := w.elementToColumn elementStart
    sumErasedCount := 0 }

def removeElements (w : EncoderPacketWindow) : EncoderPacketWindow :=
  let removedElementCount := w.firstUnremovedElement / kSubwindowSize * kSubwindowSize
  let w := if w.sumStartElement < w.sumEndElement then
      { w with
        sumErasedCount := if w.sumStartElement < removedElementCount then
          w.sumErasedCount + (removedElementCount - w.sumStartElement) else w.sumErasedCount
        sumEndElement := w.sumEndElement - removedElementCount
        sumStartElement := w.sumStartElement - removedElementCount }
    else w
  let w := { w with
    lastSendMsec := fun element => w.lastSendMsec (element + removedElementCount)
    count := w.count - removedElementCount
    columnStart := w.elementToColumn removedElementCount
    firstUnremovedElement := w.firstUnremovedElement - removedElementCount }
  if w.sumEndElement ≤ w.sumStartElement then w.resetSums w.firstUnremovedElement else w

end EncoderPacketWindow
end Tonk.Siamese
