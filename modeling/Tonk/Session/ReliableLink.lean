import Tonk.Session.Datagram
import Tonk.Siamese.Link

/-!
Reliable packets from a session to its peer. SessionOutgoing numbers them and cuts the numbers to a
few bytes, SessionIncoming expands the numbers, keeps the packets in the Siamese decoder and handles
their messages. The network brings whatever was sent at any time and any number of times.
-/

set_option autoImplicit false

namespace Tonk.Session
open Protocol Serial Siamese Transition

variable {α : Type}

/-- A message in a reliable packet. Unordered ones are delivered as soon as the packet is seen. -/
inductive ReliableMessage (α : Type) where
  | unordered (data : α)
  | ordered (data : α)
  deriving DecidableEq, Repr

def unorderedMessages (packet : List (ReliableMessage α)) : List α :=
  packet.filterMap fun
    | .unordered data => some data
    | .ordered _ => none

def orderedMessages (packet : List (ReliableMessage α)) : List α :=
  packet.filterMap fun
    | .unordered _ => none
    | .ordered data => some data

/-- A datagram with reliable data. `nonce` and `packetNum` are counted without bound. -/
structure ReliableDatagram (α : Type) where
  nonce : Nat
  nonceBytes : Nat
  sequenceBytes : Nat
  packetNum : Nat
  packet : List (ReliableMessage α)

def ReliableDatagram.partialSeq (d : ReliableDatagram α) : Nat :=
  columnOf d.packetNum % 2 ^ (8 * d.sequenceBytes)

/-- A recovery packet is kept with the number of the packet it ends before and, for a copy of one
packet, that packet. -/
inductive SentDatagram (α : Type) where
  | reliable (d : ReliableDatagram α)
  | recovery (nonce : Nat) (metadata : RecoveryMetadata) (packetEnd : Nat)
      (single : Option (List (ReliableMessage α)))
  | unreliable (nonce : Nat)

def expandSequence (nextExpected part bytes : Nat) : Nat :=
  if bytes = 1 then expand 22 8 nextExpected part
  else if bytes = 2 then expand 22 16 nextExpected part
  else part

def InRange (nextExpected packetNum bytes : Nat) : Prop :=
  bytes = 3 ∨ -2 ^ (8 * bytes - 1) ≤ signed 22 (subtractColumns (columnOf packetNum) nextExpected) ∧
    signed 22 (subtractColumns (columnOf packetNum) nextExpected) < 2 ^ (8 * bytes - 1)

theorem expandSequence_eq_iff {nextExpected packetNum bytes : Nat} (hpos : 0 < bytes)
    (hle : bytes ≤ 3) (hnext : nextExpected < kColumnPeriod) :
    expandSequence nextExpected (columnOf packetNum % 2 ^ (8 * bytes)) bytes = columnOf packetNum ↔
      InRange nextExpected packetNum bytes := by
  have hcolumn : columnOf packetNum < 2 ^ 22 := columnOf_lt packetNum
  have hbytes : bytes = 1 ∨ bytes = 2 ∨ bytes = 3 := by omega
  rcases hbytes with rfl | rfl | rfl
  · rw [expandSequence, if_pos rfl, InRange]
    exact (expand_eq_iff (by decide) (by decide) hnext hcolumn).trans (by simp [subtractColumns])
  · rw [expandSequence, if_neg (by decide), if_pos rfl, InRange]
    exact (expand_eq_iff (by decide) (by decide) hnext hcolumn).trans (by simp [subtractColumns])
  · have hfull : columnOf packetNum % 2 ^ (8 * 3) = columnOf packetNum := Nat.mod_eq_of_lt (by omega)
    rw [expandSequence, if_neg (by decide), if_neg (by decide), hfull, InRange]
    simp

/-- SessionIncoming, as far as reliable data go. `decoding` is set while attemptDecode runs. The last
three fields are what came of it: the messages handled in order, the unordered ones delivered, and
for each datagram the packet number it was sent with and the one it was taken for. -/
structure ReliableIncoming (α : Type) where
  antiReplay : StrikeRegister
  fecDecoder : Decoder (List (ReliableMessage α)) Nat
  fecNextExpectedPacketNum : Nat
  isShutdown : Bool
  decoding : Bool
  handled : List α
  delivered : List α
  taken : List (Nat × Nat)

namespace ReliableIncoming

def initial : ReliableIncoming α := ⟨.initial, .initial, 0, false, false, [], [], []⟩

def fail (r : ReliableIncoming α) : ReliableIncoming α :=
  { r with isShutdown := true, decoding := false }

/-- The loop of ProcessDatagram over the messages. `firstSeen` is firstSeenOutOfSequence, once it
has been checked. -/
def processMessages (relseqNum : Nat) (inSequence : Bool) :
    Option Bool → List (ReliableMessage α) → ReliableIncoming α → ReliableIncoming α
  | _, [], r => r
  | some true, .unordered data :: rest, r =>
    processMessages relseqNum inSequence (some true) rest
      { r with delivered := r.delivered ++ [data] }
  | some false, .unordered _ :: rest, r => processMessages relseqNum inSequence (some false) rest r
  | none, .unordered data :: rest, r =>
    match (r.fecDecoder.get relseqNum).1 with
    | .needMoreData =>
      processMessages relseqNum inSequence (some true) rest
        { r with delivered := r.delivered ++ [data] }
    | .success => processMessages relseqNum inSequence (some false) rest r
    | _ => r.fail
  | firstSeen, .ordered data :: rest, r =>
    processMessages relseqNum inSequence firstSeen rest
      (if inSequence then { r with handled := r.handled ++ [data] } else r)

/-- The loop of resumeProcessing. A packet that is found is in the window, so the loop turns no more
often than the window has elements. -/
def resumeLoop : Nat → ReliableIncoming α → ReliableIncoming α
  | 0, r => r
  | turns + 1, r =>
    match r.fecDecoder.get r.fecNextExpectedPacketNum with
    | (.needMoreData, _) => r
    | (.success, some packet) =>
      resumeLoop turns { r with
        fecNextExpectedPacketNum := incrementColumn1 r.fecNextExpectedPacketNum
        handled := r.handled ++ orderedMessages packet }
    | _ => r.fail

def resumeProcessing (r : ReliableIncoming α) : ReliableIncoming α :=
  r.resumeLoop (r.fecDecoder.window.count + 1)

/-- decoderAddOriginal up to attemptDecode. -/
def decoderAddOriginal (r : ReliableIncoming α) (relseqNum : Nat)
    (packet : List (ReliableMessage α)) : ReliableIncoming α :=
  match r.fecDecoder.addOriginal relseqNum packet with
  | (decoder, .duplicateData) => { r with fecDecoder := decoder }
  | (decoder, .success) =>
    let r := { r with fecDecoder := decoder, decoding := true }
    if relseqNum = r.fecNextExpectedPacketNum then
      { r with
        fecNextExpectedPacketNum := incrementColumn1 r.fecNextExpectedPacketNum }.resumeProcessing
    else r
  | (decoder, _) => { r with fecDecoder := decoder }.fail

/-- The sequence number has less precision than the nonce and the datagram was overtaken. -/
def ignoresReordered (r : ReliableIncoming α) (d : ReliableDatagram α) : Bool :=
  d.sequenceBytes < d.nonceBytes &&
    counterLt 64 (wrap 64 (d.nonce + 1)) r.antiReplay.getNextExpected

def processReliable (r : ReliableIncoming α) (relseqNum : Nat) (packet : List (ReliableMessage α)) :
    ReliableIncoming α :=
  let inSequence := r.fecNextExpectedPacketNum = relseqNum
  let r := r.processMessages relseqNum inSequence none packet
  if r.isShutdown then r else r.decoderAddOriginal relseqNum packet

/-- A datagram is dropped here if its nonce was seen. -/
def accepting (r : ReliableIncoming α) (nonce : Nat)
    (process : ReliableIncoming α → ReliableIncoming α) : ReliableIncoming α :=
  if r.antiReplay.isDuplicate (wrap 64 nonce) then r
  else process { r with antiReplay := r.antiReplay.accept (wrap 64 nonce) }

/-- ProcessDatagram from the check for duplicates on, for a datagram with reliable data whose nonce
was read right. -/
def processDatagram (r : ReliableIncoming α) (d : ReliableDatagram α) : ReliableIncoming α :=
  r.accepting d.nonce fun r =>
    if r.ignoresReordered d then r
    else
      let relseqNum := expandSequence r.fecNextExpectedPacketNum d.partialSeq d.sequenceBytes
      { r with taken := r.taken ++ [(columnOf d.packetNum, relseqNum)] }.processReliable relseqNum
        d.packet

/-- OnRecovery up to attemptDecode. AddRecovery reports some of the failures that disable the
decoder: `reported` is whether it does. -/
def onRecovery (r : ReliableIncoming α) (nonce : Nat) (metadata : RecoveryMetadata) (packetEnd : Nat)
    (single : Option (List (ReliableMessage α))) (checkedPastThreshold reported : Bool) :
    ReliableIncoming α :=
  r.accepting nonce fun r =>
    let r := { r with
      fecDecoder := r.fecDecoder.addRecovery metadata packetEnd single checkedPastThreshold
      decoding := true }
    if r.fecDecoder.emergencyDisabled && reported then r.fail else r

/-- One turn of attemptDecode: the packets that Decode gives are looked through for unordered
messages, and processing resumes. -/
def decoded (r : ReliableIncoming α) (recovered : List (Nat × List (ReliableMessage α)))
    (decoder : Decoder (List (ReliableMessage α)) Nat) : ReliableIncoming α :=
  { r with
    fecDecoder := decoder
    delivered := r.delivered ++ recovered.flatMap (fun p => unorderedMessages p.2)
      : ReliableIncoming α }.resumeProcessing

end ReliableIncoming

/-- `windowStart` is the number of the first packet in the decoder's window, `acknowledged` the next
expected packet of the last acknowledgement the encoder took; both are counted without bound. An
acknowledgement is kept with its next expected packet. -/
structure ReliableLink (α : Type) where
  outgoing : SessionOutgoing
  encoder : Encoder
  sent : List (List (ReliableMessage α))
  datagrams : List (SentDatagram α)
  incoming : ReliableIncoming α
  windowStart : Nat
  acknowledged : Nat
  acks : List (Bytes × Nat)

namespace ReliableLink

def initial (encryptor : SimpleCipher) : ReliableLink α :=
  ⟨⟨encryptor, 0, 0, 0, 0, true, none, false⟩, .initial, [], [], .initial, 0, 0, []⟩

def sendPacket (s : ReliableLink α) (packetNum : Nat) (packet : List (ReliableMessage α)) :
    ReliableLink α :=
  { s with
    outgoing := { s.outgoing with nextNonce := s.outgoing.nextNonce + 1 }
    datagrams := .reliable ⟨s.outgoing.nextNonce, s.outgoing.nonceBytes,
      s.outgoing.getPacketNumBytes (columnOf packetNum), packetNum, packet⟩ :: s.datagrams }

def sendQueuedReliable (s : ReliableLink α) (nowMsec : Nat) (packet : List (ReliableMessage α)) :
    ReliableLink α :=
  let s' := s.sendPacket s.sent.length packet
  { s' with
    encoder := (s.encoder.add nowMsec).1
    sent := s.sent ++ [packet]
    outgoing := { s'.outgoing with
      nextSequenceNumber := incrementColumn1 (columnOf s.sent.length) } }

def withIncoming (s : ReliableLink α) (incoming : ReliableIncoming α) : ReliableLink α :=
  { s with
    incoming := incoming
    windowStart := s.windowStart + subtractColumns incoming.fecDecoder.window.columnStart
      s.incoming.fecDecoder.window.columnStart }

/-- OnAcknowledgements; the nonce it reports is whatever the peer has accepted. -/
def acknowledge (s : ReliableLink α) (nowMsec : Nat) (ack : Bytes × Nat)
    (peerNextExpectedNonce : Nat) : ReliableLink α :=
  let encoder := (s.encoder.acknowledge nowMsec ack.1).1
  { s with
    encoder := encoder
    outgoing := { s.outgoing with
      peerNextExpectedNonce := peerNextExpectedNonce
      peerNextExpectedSeqNum := encoder.ack.nextColumnExpected }
    acknowledged := if isColumnDeltaNegative
      (subtractColumns (columnOf ack.2) s.encoder.ack.nextColumnExpected) then s.acknowledged
      else ack.2 }

inductive Event (α : Type) where
  | send (packet : List (ReliableMessage α)) (nowMsec : Nat)
  | retransmit (packetNum : Nat)
  | sendRecovery
  | sendUnreliable
  | disableSequenceNumberCompress
  | receive (d : ReliableDatagram α)
  | receiveRecovery (nonce : Nat) (metadata : RecoveryMetadata) (packetEnd : Nat)
      (checkedPastThreshold reported : Bool)
  | receiveUnreliable (nonce : Nat)
  | decode
  | decodeDone
  | postAcknowledgements (byteLimit : Nat)
  | acknowledge (ack : Bytes × Nat) (nowMsec peerNextExpectedNonce : Nat)

def Genuine (s : ReliableLink α) (recovered : List (Nat × List (ReliableMessage α))) : Prop :=
  ∀ p ∈ recovered, ∀ n, s.windowStart ≤ n → n < s.windowStart + kColumnPeriod →
    columnOf n = p.1 → s.sent[n]? = some p.2

def Idle (s : ReliableLink α) : Prop :=
  s.incoming.isShutdown = false ∧ s.incoming.decoding = false

inductive Steps : ReliableLink α → Event α → ReliableLink α → Prop where
  | send (s : ReliableLink α) (packet : List (ReliableMessage α)) (nowMsec : Nat) :
      (s.encoder.add nowMsec).2 = .success →
      Steps s (.send packet nowMsec) (s.sendQueuedReliable nowMsec packet)
  /-- Retransmit sends a packet that is not acknowledged, and notes the time. -/
  | retransmit (s : ReliableLink α) (packetNum : Nat) (packet : List (ReliableMessage α))
      (lastSendMsec : Nat → Nat) (ack : EncoderAcknowledgementState) :
      s.acknowledged ≤ packetNum → s.sent[packetNum]? = some packet →
      ack.nextColumnExpected = s.encoder.ack.nextColumnExpected →
      Steps s (.retransmit packetNum) { s.sendPacket packetNum packet with
        encoder := { s.encoder with
          window := { s.encoder.window with lastSendMsec := lastSendMsec }
          ack := ack } }
  | sendRecovery (s : ReliableLink α) (encoder : Encoder) (metadata : RecoveryMetadata) :
      s.encoder.encode = (encoder, some metadata) →
      Steps s .sendRecovery { s with
        outgoing := { s.outgoing with nextNonce := s.outgoing.nextNonce + 1 }
        encoder := encoder
        datagrams := .recovery s.outgoing.nextNonce metadata s.sent.length s.sent.getLast? ::
          s.datagrams }
  | sendUnreliable (s : ReliableLink α) :
      Steps s .sendUnreliable { s with
        outgoing := { s.outgoing with nextNonce := s.outgoing.nextNonce + 1 }
        datagrams := .unreliable s.outgoing.nextNonce :: s.datagrams }
  | disableSequenceNumberCompress (s : ReliableLink α) :
      Steps s .disableSequenceNumberCompress { s with
        outgoing := { s.outgoing with shouldCompressSequenceNumbers := false } }
  | receive (s : ReliableLink α) (d : ReliableDatagram α) : s.Idle → .reliable d ∈ s.datagrams →
      Steps s (.receive d) (s.withIncoming (s.incoming.processDatagram d))
  | receiveRecovery (s : ReliableLink α) (nonce : Nat) (metadata : RecoveryMetadata)
      (packetEnd : Nat) (single : Option (List (ReliableMessage α)))
      (checkedPastThreshold reported : Bool) : s.Idle →
      .recovery nonce metadata packetEnd single ∈ s.datagrams →
      Steps s (.receiveRecovery nonce metadata packetEnd checkedPastThreshold reported)
        (s.withIncoming (s.incoming.onRecovery nonce metadata packetEnd single
          checkedPastThreshold reported))
  | receiveUnreliable (s : ReliableLink α) (nonce : Nat) : s.Idle →
      .unreliable nonce ∈ s.datagrams →
      Steps s (.receiveUnreliable nonce) (s.withIncoming (s.incoming.accepting nonce id))
  | decode (s : ReliableLink α) (recovered : List (Nat × List (ReliableMessage α)))
      (decoder : Decoder (List (ReliableMessage α)) Nat) : s.incoming.decoding = true →
      s.incoming.fecDecoder.Decode recovered decoder → s.Genuine recovered →
      Steps s .decode (s.withIncoming (s.incoming.decoded recovered decoder))
  /-- attemptDecode ends, and with it ProcessDatagram. -/
  | decodeDone (s : ReliableLink α) : s.incoming.decoding = true →
      s.incoming.fecDecoder.hasRecoveredPackets = false →
      Steps s .decodeDone { s with incoming := { s.incoming with decoding := false } }
  | postAcknowledgements (s : ReliableLink α) (byteLimit : Nat) (message : Bytes) : s.Idle →
      byteLimit < 2 ^ 32 →
      s.incoming.fecDecoder.emergencyDisabled = false →
      s.incoming.fecDecoder.window.generateAcknowledgement byteLimit = some message →
      Steps s (.postAcknowledgements byteLimit) { s with acks := (message,
        s.windowStart + s.incoming.fecDecoder.window.nextExpectedElement) :: s.acks }
  | acknowledge (s : ReliableLink α) (ack : Bytes × Nat) (nowMsec peerNextExpectedNonce : Nat) :
      ack ∈ s.acks →
      Steps s (.acknowledge ack nowMsec peerNextExpectedNonce)
        (s.acknowledge nowMsec ack peerNextExpectedNonce)

def Readable (s : ReliableLink α) (d : ReliableDatagram α) : Prop :=
  s.incoming.antiReplay.isDuplicate (wrap 64 d.nonce) = true ∨
    { s.incoming with antiReplay := s.incoming.antiReplay.accept (wrap 64 d.nonce)
      : ReliableIncoming α }.ignoresReordered d = true ∨
    InRange s.incoming.fecNextExpectedPacketNum d.packetNum d.sequenceBytes

theorem getPacketNumBytes_mem (s : SessionOutgoing) (packetNum : Nat) :
    0 < s.getPacketNumBytes packetNum ∧ s.getPacketNumBytes packetNum ≤ 3 := by
  unfold SessionOutgoing.getPacketNumBytes
  split
  · simp only
    split
    · decide
    · split <;> decide
  · decide

end ReliableLink
end Tonk.Session
