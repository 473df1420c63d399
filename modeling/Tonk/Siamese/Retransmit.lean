import Tonk.Siamese.EncoderPackets

set_option autoImplicit false

namespace Tonk.Siamese
open Protocol Serial

namespace EncoderAcknowledgementState

def hasNegativeAcknowledgements (s : EncoderAcknowledgementState) : Bool := 0 < s.data.length

def restartLossIterator (s : EncoderAcknowledgementState) : EncoderAcknowledgementState :=
  { s with offset := 0, lossColumn := s.nextColumnExpected, lossCount := 0 }.decodeNextRange.1

def lossCalls (s : EncoderAcknowledgementState) : Nat := s.data.length * 2 ^ 23 + 1

end EncoderAcknowledgementState

/-- Where a search has got to: the element to be sent, if there is one, and otherwise the oldest
element so far, when it was sent, and the last element looked at. -/
structure RetransmitSearch where
  sent : Option Nat
  oldestElement : Nat
  oldestSendMsec : Nat
  nackElement : Nat

namespace RetransmitSearch

def look (w : EncoderPacketWindow) (nowMsec retransmitMsec : Nat) (search : RetransmitSearch)
    (element : Nat) : RetransmitSearch :=
  let lastSendMsec := w.lastSendMsec element
  if retransmitMsec ≤ unsignedSub nowMsec lastSendMsec then { search with sent := some element }
  else if 0 < signed 32 (unsignedSub search.oldestSendMsec lastSendMsec) then
    { search with oldestElement := element, oldestSendMsec := lastSendMsec }
  else search

def nackLoop (w : EncoderPacketWindow) (nowMsec retransmitMsec : Nat) :
    Nat → EncoderAcknowledgementState → RetransmitSearch →
      EncoderAcknowledgementState × RetransmitSearch
  | 0, ack, search => (ack, search)
  | calls + 1, ack, search =>
    match ack.getNextLossColumn with
    | (ack, none) => (ack, search)
    | (ack, some column) =>
      let nackElement := w.columnToElement column
      let search := { search with nackElement := nackElement }
      if w.count ≤ nackElement then (ack, search)
      else
        let search := search.look w nowMsec retransmitMsec nackElement
        if search.sent.isSome then (ack, search)
        else nackLoop w nowMsec retransmitMsec calls ack search

def flightLoop (w : EncoderPacketWindow) (nowMsec retransmitMsec : Nat) :
    Nat → Nat → RetransmitSearch → RetransmitSearch
  | 0, _, search => search
  | n + 1, element, search =>
    let search := search.look w nowMsec retransmitMsec element
    if search.sent.isSome then search
    else flightLoop w nowMsec retransmitMsec n (element + 1) search

end RetransmitSearch

namespace FullEncoder

/-- The last send time is set, and LoadOriginal gives the packet unless it is empty. -/
def attemptRetransmit (e : FullEncoder) (nowMsec element : Nat) :
    FullEncoder × SiameseResult × Option OriginalPacket :=
  let original := e.data.getWindowElement element
  let e := { e with data := { e.data with window := { e.data.window with
    lastSendMsec := Function.update e.data.window.lastSendMsec element nowMsec } } }
  if original.buffer.length - original.headerBytes = 0 then
    ({ e with emergencyDisabled := true }, .disabled, none)
  else (e, .success, some original)

/-- The search from the first element on, when there is no oldest column to start with. -/
def searchOldest (e : FullEncoder) (nowMsec retransmitMsec firstElement : Nat) :
    FullEncoder × SiameseResult × Option OriginalPacket :=
  let w := e.data.window
  let oldestSendMsec := w.lastSendMsec firstElement
  if retransmitMsec ≤ unsignedSub nowMsec oldestSendMsec then
    e.attemptRetransmit nowMsec firstElement
  else
    let search : RetransmitSearch := ⟨none, firstElement, oldestSendMsec, firstElement⟩
    let (ack, search) := if e.ack.hasNegativeAcknowledgements then
        search.nackLoop w nowMsec retransmitMsec e.ack.lossCalls e.ack.restartLossIterator
      else (e.ack, search)
    let e := { e with ack := ack }
    let search := if search.sent.isSome then search else
      search.flightLoop w nowMsec retransmitMsec (w.count - (search.nackElement + 1))
        (search.nackElement + 1)
    match search.sent with
    | some element => e.attemptRetransmit nowMsec element
    | none => ({ e with
        foundOldest := true
        oldestColumn := (e.data.getWindowElement search.oldestElement).column }, .needMoreData, none)

def retransmit (e : FullEncoder) (nowMsec retransmitMsec : Nat) :
    FullEncoder × SiameseResult × Option OriginalPacket :=
  let w := e.data.window
  if e.emergencyDisabled then (e, .disabled, none)
  else if w.getUnacknowledgedCount ≤ 0 then ({ e with foundOldest := false }, .needMoreData, none)
  else
    let firstElement := subtractColumns e.ack.nextColumnExpected w.columnStart
    if isColumnDeltaNegative firstElement ∨ firstElement < w.firstUnremovedElement ∨
        w.count ≤ firstElement then (e, .needMoreData, none)
    else
      let nowMsec := nowMsec % 2 ^ 32
      let element := subtractColumns e.oldestColumn w.columnStart
      if e.foundOldest ∧ isColumnDeltaNegative element = false ∧ firstElement ≤ element ∧
          element < w.count then
        if unsignedSub nowMsec (w.lastSendMsec element) < retransmitMsec then
          (e, .needMoreData, none)
        else { e with foundOldest := false }.attemptRetransmit nowMsec element
      else { e with foundOldest := false }.searchOldest nowMsec retransmitMsec firstElement

def SentAgain (d d' : EncoderData) : Prop :=
  ∃ lastSendMsec, d' = { d with window := { d.window with lastSendMsec := lastSendMsec } }

theorem attemptRetransmit_data (e : FullEncoder) (nowMsec element : Nat) :
    SentAgain e.data (e.attemptRetransmit nowMsec element).1.data := by
  unfold attemptRetransmit
  simp only
  split <;> exact ⟨_, rfl⟩

theorem searchOldest_data (e : FullEncoder) (nowMsec retransmitMsec firstElement : Nat) :
    SentAgain e.data (e.searchOldest nowMsec retransmitMsec firstElement).1.data := by
  unfold searchOldest
  simp only
  split
  · exact e.attemptRetransmit_data nowMsec firstElement
  · split
    · next element _ =>
      have hattempt : ∀ ack, SentAgain e.data
          ({ e with ack := ack }.attemptRetransmit nowMsec element).1.data := fun ack =>
        attemptRetransmit_data { e with ack := ack } nowMsec element
      exact hattempt _
    · exact ⟨e.data.window.lastSendMsec, rfl⟩

theorem retransmit_data (e : FullEncoder) (nowMsec retransmitMsec : Nat) :
    SentAgain e.data (e.retransmit nowMsec retransmitMsec).1.data := by
  unfold retransmit
  simp only
  split
  · exact ⟨e.data.window.lastSendMsec, rfl⟩
  · split
    · exact ⟨e.data.window.lastSendMsec, rfl⟩
    · split
      · exact ⟨e.data.window.lastSendMsec, rfl⟩
      · split
        · split
          · exact ⟨e.data.window.lastSendMsec, rfl⟩
          · exact attemptRetransmit_data { e with foundOldest := false } _ _
        · exact searchOldest_data { e with foundOldest := false } _ _ _

theorem retransmit_samePackets (e : FullEncoder) (nowMsec retransmitMsec : Nat) :
    e.data.SamePackets (e.retransmit nowMsec retransmitMsec).1.data := by
  obtain ⟨lastSendMsec, heq⟩ := e.retransmit_data nowMsec retransmitMsec
  rw [heq]
  exact ⟨rfl, rfl, rfl, rfl, rfl⟩

end FullEncoder
end Tonk.Siamese
