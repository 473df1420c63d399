import Tonk.Protocol.Footer
import Tonk.Session.Nonce
import Tonk.Session.SimpleCipher
import Tonk.Session.TimeSync

/-!
Datagrams on the wire: the three functions of `SessionOutgoing` that build one, and what
`SessionIncoming::ProcessDatagram` makes of it before it looks at the messages.
-/

set_option autoImplicit false

namespace Tonk.Session
open Protocol Serial LittleEndian

def kDummyBytes : Nat := 1300

def tonkRandPadExp : List Nat := [
  15, 14, 14, 14, 14, 14, 13, 13, 13, 13, 13, 13, 12, 12, 12, 12, 12, 12, 12,
  15, 14, 14, 14, 14, 14, 13, 13, 13, 13, 13, 13, 12, 12, 12, 12, 12, 12, 12,
  15, 14, 14, 14, 14, 14, 13, 13, 13, 13, 13, 13, 12, 12, 12, 12, 12, 12, 12,
  11, 11, 11, 11, 11, 11, 11, 10, 10, 10, 10, 10, 10, 10, 10, 10, 9, 9, 9, 9,
  9, 9, 9, 9, 9, 9, 8, 8, 8, 8, 8, 8, 8, 8, 8, 8, 8, 7, 7, 7, 7, 7, 7, 7, 7,
  7, 7, 7, 7, 6, 6, 6, 6, 6, 6, 6, 6, 6, 6, 6, 6, 6, 6, 5, 5, 5, 5, 5, 5, 5,
  5, 5, 5, 5, 5, 5, 5, 5, 5, 5, 4, 4, 4, 4, 4, 4, 4, 4, 4, 4, 4, 4, 4, 4, 4,
  4, 4, 4, 3, 3, 3, 3, 3, 3, 3, 3, 3, 3, 3, 3, 3, 3, 3, 3, 3, 3, 3, 3, 2, 2,
  2, 2, 2, 2, 2, 2, 2, 2, 2, 2, 2, 2, 2, 2, 2, 2, 2, 2, 2, 2, 2, 2, 1, 1, 1,
  1, 1, 1, 1, 1, 1, 1, 1, 1, 1, 1, 1, 1, 1, 1, 1, 1, 1, 1, 1, 1, 1, 1, 0, 0,
  0, 0, 0, 0, 0, 0, 0, 0, 0, 0, 0, 0, 0, 0, 0, 0, 0, 0, 0, 0, 0, 0, 0, 0, 0,
  0, 0, 0, 0]

/-- What SessionOutgoing reads to build a datagram. `handshake` is none while ShouldAttachHandshake
is false. -/
structure SessionOutgoing where
  encryptor : SimpleCipher
  nextNonce : Nat
  peerNextExpectedNonce : Nat
  peerNextExpectedSeqNum : Nat
  nextSequenceNumber : Nat
  shouldCompressSequenceNumbers : Bool
  handshake : Option Handshake
  enablePadding : Bool
  deriving DecidableEq, Repr

/-- The padding frame that is put behind the messages, if there is room and one is drawn. -/
def paddingFrame (enablePadding : Bool) (random messageBytes : Nat) : Bytes :=
  if enablePadding ∧ messageBytes + kMessageFrameBytes ≤ maxMessageSectionBytes then
    let drawn := tonkRandPadExp.getD (random % 256) 0
    let targetPadBytes :=
      if maxMessageSectionBytes < messageBytes + drawn then maxMessageSectionBytes - messageBytes
      else drawn
    if kMessageFrameBytes ≤ targetPadBytes then
      Frame.wire ⟨messageTypePadding, List.replicate (targetPadBytes - kMessageFrameBytes) 0⟩
    else []
  else []

namespace SessionOutgoing

def nonceBytes (s : SessionOutgoing) : Nat :=
  nonceFieldBytes s.shouldCompressSequenceNumbers s.nextNonce s.peerNextExpectedNonce

/-- Bytes of a reliable sequence number: enough for its distance from the number the peer has
acknowledged and from the next one to be sent. -/
def getPacketNumBytes (s : SessionOutgoing) (packetNum : Nat) : Nat :=
  if s.shouldCompressSequenceNumbers then
    let mag := max |(packetNum : Int) - s.peerNextExpectedSeqNum|
      |(packetNum : Int) - s.nextSequenceNumber| + 1
    if mag < 0x80 then 1
    else if mag < 0x8000 then 2
    else 3
  else 3

def footerFlags (s : SessionOutgoing) (flags sequenceNumberBytes : Nat) : Nat :=
  let flags := if s.shouldCompressSequenceNumbers then flags ||| kSeqCompMask else flags
  let flags := if 0 < sequenceNumberBytes then flags ||| sequenceNumberBytes else flags
  let flags := flags ||| s.nonceBytes <<< 2
  if s.handshake.isSome then flags ||| kHandshakeMask else flags

/-- Writes the sequence number, the nonce and the handshake, and returns where they end. -/
def writeFields (s : SessionOutgoing) (buffer : Bytes)
    (footer sequenceNumberBytes sequenceNumber : Nat) : Bytes × Nat :=
  let buffer :=
    if 0 < sequenceNumberBytes then writeFooterField buffer footer sequenceNumber else buffer
  let footer := footer + sequenceNumberBytes
  let buffer := writeFooterField buffer footer s.nextNonce
  let footer := footer + s.nonceBytes
  match s.handshake with
  | none => (buffer, footer)
  | some h => (writeAt buffer footer h.wire, footer + kHandshakeBytes)

def writeSealed (t1ha : T1ha) (s : SessionOutgoing) (flags : Nat) (buffer : Bytes)
    (messageBytes taggedBytes nowUsec : Nat) : Bytes :=
  let buffer := writeAt buffer (taggedBytes + kTimestampBytes) [UInt8.ofNat flags]
  let buffer := writeAt buffer 0 (s.encryptor.cipher (buffer.take messageBytes) s.nextNonce)
  let tag := s.encryptor.tag t1ha (buffer.take taggedBytes) s.nextNonce
  let timestamp24 := (nowUsec >>> kTime23LostBits) % 2 ^ 32
  let tag := tag ^^^ s.encryptor.tagInt (timestampFlagTagInt timestamp24 flags)
  let buffer := writeAt buffer taggedBytes (LittleEndian.bytes 3 timestamp24)
  let buffer := writeAt buffer (taggedBytes + kTimestampBytes + kFlagsBytes)
    (LittleEndian.bytes 2 tag)
  buffer.take (taggedBytes + kUntaggedDatagramBytes)

def writeDatagram (t1ha : T1ha) (s : SessionOutgoing) (flags : Nat) (buffer : Bytes)
    (messageBytes sequenceNumberBytes sequenceNumber nowUsec : Nat) : SessionOutgoing × Bytes :=
  let (buffer, taggedBytes) := s.writeFields buffer messageBytes sequenceNumberBytes sequenceNumber
  let flags := s.footerFlags flags sequenceNumberBytes
  ({ s with nextNonce := wrap 64 (s.nextNonce + 1) },
    s.writeSealed t1ha flags buffer messageBytes taggedBytes nowUsec)

/-- `scratch` is what the allocated datagram holds behind the messages. -/
def sendQueuedDatagram (t1ha : T1ha) (s : SessionOutgoing) (messages scratch : Bytes)
    (random sequenceNumberBytes sequenceNumber nowUsec : Nat) : SessionOutgoing × Bytes :=
  let padding := paddingFrame s.enablePadding random messages.length
  let buffer := writeAt (messages ++ scratch) messages.length padding
  s.writeDatagram t1ha kConnectionMask buffer (messages.length + padding.length)
    sequenceNumberBytes sequenceNumber nowUsec

def dummyMessage : Bytes :=
  Frame.wire ⟨messageTypePadding, List.replicate (kDummyBytes - kMessageFrameBytes) 0⟩

def postDummyDatagram (t1ha : T1ha) (s : SessionOutgoing) (scratch : Bytes) (nowUsec : Nat) :
    SessionOutgoing × Bytes :=
  s.writeDatagram t1ha kConnectionMask (dummyMessage ++ scratch) kDummyBytes 0 0 nowUsec

def postRecovery (t1ha : T1ha) (s : SessionOutgoing) (recovery scratch : Bytes) (nowUsec : Nat) :
    SessionOutgoing × Bytes :=
  s.writeDatagram t1ha (kOnlyFECMask ||| kConnectionMask) (recovery ++ scratch) recovery.length
    0 0 nowUsec

def disableSequenceNumberCompress (s : SessionOutgoing) : SessionOutgoing :=
  { s with shouldCompressSequenceNumbers := false }

end SessionOutgoing

inductive HandshakeResult where
  | dropDatagram
  | continueProcessing
  deriving DecidableEq, Repr

def kHandshakeRightOffset : Nat := kUntaggedDatagramBytes + kHandshakeBytes

/-- Connection::OnUnauthenticatedHandshake, without what it does to the connection. -/
def onUnauthenticatedHandshake (data : Bytes) : Except Access HandshakeResult :=
  if data.length < kHandshakeRightOffset then .ok .dropDatagram
  else do
    let handshakeData ← readAt data (data.length - kHandshakeRightOffset) kHandshakeBytes
    return match getType handshakeData with
      | .s2cUnknownSourceAddress | .disconnect | .s2cCookieResponse => .dropDatagram
      | _ => .continueProcessing

structure SessionIncoming where
  isShutdown : Bool
  decryptor : SimpleCipher
  antiReplay : StrikeRegister

structure OpenedDatagram where
  flags : FlagsReader
  remoteSendTS24 : Nat
  handshake : Bytes
  partialNonce : Nat
  nonce : Nat
  partialSeq : Nat
  messagePayload : Bytes
  deriving DecidableEq, Repr

inductive Opening where
  | ignoredDuringDisco
  | handshakeDropped
  | ignoredDupe
  | badChecksum
  | opened : OpenedDatagram → Opening
  deriving DecidableEq, Repr

namespace SessionIncoming

/-- ProcessDatagram from the tag check on. -/
def openTagged (t1ha : T1ha) (r : SessionIncoming) (data : Bytes) (flags : FlagsReader)
    (remoteSendTS24 : Nat) (handshake : Bytes) (footer : Int) (partialNonce nonce : Nat) :
    Except Access Opening := do
  let tagged ← readAt data 0 (sub 32 data.length kUntaggedDatagramBytes)
  let expectedTag := r.decryptor.tag t1ha tagged nonce
  let tag ← readAt data (data.length - kEncryptionTagBytes) 2
  let flagsInt := timestampFlagTagInt remoteSendTS24 flags.flagsByte
  if value tag ^^^ r.decryptor.tagInt flagsInt ≠ expectedTag then return .badChecksum
  else
    let payload ← readAt data 0 (sub 32 data.length flags.connectedFooterBytes)
    let messagePayload := r.decryptor.cipher payload nonce
    let partialSeq ← readFooterField data footer flags.sequenceNumberBytes
    return .opened
      { flags, remoteSendTS24, handshake, partialNonce, nonce, partialSeq, messagePayload }

def readPartialNonce (data : Bytes) (footer : Int) (nonceBytes : Nat) : Except Access Nat :=
  if nonceBytes = 0 then .ok 0 else readFooterField data footer nonceBytes

def openFields (t1ha : T1ha) (r : SessionIncoming) (data : Bytes) (flags : FlagsReader)
    (remoteSendTS24 : Nat) (handshake : Bytes) (footer : Int) : Except Access Opening := do
  let nonceBytes := flags.encryptionNonceBytes
  let partialNonce ← readPartialNonce data footer nonceBytes
  let nonce := r.antiReplay.readNonce partialNonce nonceBytes
  if r.antiReplay.isDuplicate nonce then return .ignoredDupe
  else r.openTagged t1ha data flags remoteSendTS24 handshake (footer - nonceBytes) partialNonce nonce

def handleHandshake (data : Bytes) (handshakeBytes : Nat) : Except Access HandshakeResult :=
  if 0 < handshakeBytes then onUnauthenticatedHandshake data else .ok .continueProcessing

def openDatagram (t1ha : T1ha) (r : SessionIncoming) (data : Bytes) : Except Access Opening := do
  if r.isShutdown then return .ignoredDuringDisco
  else
    let footer : Int := data.length - kFlagsBytes - kEncryptionTagBytes
    let flagsField ← readAt data footer kFlagsBytes
    let flags : FlagsReader := ⟨value flagsField⟩
    let footer := footer - kTimestampBytes
    let remoteSendTS24 ← readU24LEMin4Bytes data footer
    let footer := footer - flags.handshakeBytes
    let handshake ← readAt data footer flags.handshakeBytes
    match ← handleHandshake data flags.handshakeBytes with
    | .dropDatagram => return .handshakeDropped
    | .continueProcessing => r.openFields t1ha data flags remoteSendTS24 handshake footer

def TagVerifies (t1ha : T1ha) (r : SessionIncoming) (data : Bytes) (remoteSendTS24 nonce : Nat) :
    Prop :=
  value (data.drop (data.length - kEncryptionTagBytes)) ^^^
      r.decryptor.tagInt (timestampFlagTagInt remoteSendTS24 (datagramFlags data).flagsByte) =
    r.decryptor.tag t1ha (data.take (data.length - kUntaggedDatagramBytes)) nonce

instance (t1ha : T1ha) (r : SessionIncoming) (data : Bytes) (remoteSendTS24 nonce : Nat) :
    Decidable (r.TagVerifies t1ha data remoteSendTS24 nonce) :=
  inferInstanceAs (Decidable (_ = _))

theorem sub32_of_le {a b : Nat} (ha : a < 2 ^ 32) (h : b ≤ a) : sub 32 a b = a - b := by
  have hc := sub_cast 32 a b
  zify [h]
  rw [hc]
  omega

theorem sub32_of_lt {a b : Nat} (hb : b < 2 ^ 32) (h : a < b) : a < sub 32 a b := by
  have hc := sub_cast 32 a b
  zify
  rw [hc]
  omega

variable {t1ha : T1ha} {r : SessionIncoming} {data handshake : Bytes} {footer : Int}
  {remoteSendTS24 partialNonce nonce : Nat}

theorem openTagged_eq (hlen : data.length < 2 ^ 32) (hle : kUntaggedDatagramBytes ≤ data.length) :
    r.openTagged t1ha data (datagramFlags data) remoteSendTS24 handshake footer partialNonce nonce =
      if r.TagVerifies t1ha data remoteSendTS24 nonce then do
        let flags := datagramFlags data
        let payload ← readAt data 0 (sub 32 data.length flags.connectedFooterBytes)
        let partialSeq ← readFooterField data footer flags.sequenceNumberBytes
        return .opened ⟨flags, remoteSendTS24, handshake, partialNonce, nonce, partialSeq,
          r.decryptor.cipher payload nonce⟩
      else .ok .badChecksum := by
  have htagged : readAt data 0 (sub 32 data.length kUntaggedDatagramBytes) =
      .ok (data.take (data.length - kUntaggedDatagramBytes)) := by
    rw [sub32_of_le hlen hle]
    exact readAt_zero (Nat.sub_le _ _)
  have htag : readAt data (data.length - kEncryptionTagBytes) 2 =
      .ok (data.drop (data.length - kEncryptionTagBytes)) := by
    simp only [kUntaggedDatagramBytes, kEncryptionTagBytes] at hle ⊢
    have hoff : ((data.length : Int) - (2 : Nat)).toNat = data.length - 2 := by omega
    rw [readAt_inside (by omega) (by omega), hoff, List.take_of_length_le]
    rw [List.length_drop]
    omega
  rw [openTagged, htagged, htag]
  by_cases h : r.TagVerifies t1ha data remoteSendTS24 nonce
  · rw [if_pos h]
    exact if_neg (not_not.mpr h)
  · rw [if_neg h]
    exact if_pos h

theorem openFields_eq
    (hle : kUntaggedDatagramBytes + (datagramFlags data).handshakeBytes +
      (datagramFlags data).encryptionNonceBytes ≤ data.length) :
    r.openFields t1ha data (datagramFlags data) remoteSendTS24 handshake (handshakeStart data) =
      let flags := datagramFlags data
      let nonce := r.antiReplay.readNonce (datagramNonce data) flags.encryptionNonceBytes
      if r.antiReplay.isDuplicate nonce then .ok .ignoredDupe
      else r.openTagged t1ha data flags remoteSendTS24 handshake (nonceStart data)
        (datagramNonce data) nonce := by
  have hstart : (handshakeStart data : Int) - (datagramFlags data).encryptionNonceBytes =
      nonceStart data := by
    simp only [nonceStart, handshakeStart, timestampStart]
    omega
  have hread : readPartialNonce data (handshakeStart data)
      (datagramFlags data).encryptionNonceBytes = .ok (datagramNonce data) := by
    unfold datagramNonce readPartialNonce
    split
    · next h => rw [if_pos h]
    · next h =>
      rw [if_neg h, readFooterField, hstart, readAt_inside (by omega)]
      · rfl
      · simp only [nonceStart, handshakeStart, timestampStart, kUntaggedDatagramBytes] at hle ⊢
        omega
  simp only [openFields, hread, hstart]
  rfl

def DropsHandshake (data : Bytes) : Prop :=
  0 < (datagramFlags data).handshakeBytes ∧
    onUnauthenticatedHandshake data = .ok .dropDatagram

theorem onUnauthenticatedHandshake_ok (data : Bytes) :
    onUnauthenticatedHandshake data = .ok .dropDatagram ∨
      onUnauthenticatedHandshake data = .ok .continueProcessing := by
  unfold onUnauthenticatedHandshake
  split
  · exact .inl rfl
  · next h =>
    rw [readAt_inside (by omega) (by simp only [kHandshakeRightOffset] at h ⊢; omega)]
    generalize (data.drop _).take kHandshakeBytes = handshakeData
    cases hresult : getType handshakeData
    all_goals simp [bind, Except.bind, pure, Except.pure, hresult]

open Classical in
theorem openDatagram_eq (hshutdown : r.isShutdown = false)
    (hle : kUntaggedDatagramBytes + (datagramFlags data).handshakeBytes ≤ data.length) :
    r.openDatagram t1ha data =
      if DropsHandshake data then .ok .handshakeDropped
      else r.openFields t1ha data (datagramFlags data) (datagramTimestamp data)
        (datagramHandshake data) (handshakeStart data) := by
  have hroom : kEncryptionTagBytes + kFlagsBytes ≤ data.length := by
    simp only [kUntaggedDatagramBytes, kEncryptionTagBytes, kFlagsBytes] at hle ⊢
    omega
  have hflags := readAt_flags hroom
  have htimestamp : readU24LEMin4Bytes data
      (data.length - kFlagsBytes - kEncryptionTagBytes - kTimestampBytes) =
      .ok (datagramTimestamp data) := by
    have hoff : ((data.length : Int) - kFlagsBytes - kEncryptionTagBytes - kTimestampBytes) =
        timestampStart data := by
      simp only [timestampStart, kUntaggedDatagramBytes, kFlagsBytes, kEncryptionTagBytes,
        kTimestampBytes] at hle ⊢
      omega
    rw [readU24LEMin4Bytes, hoff, readAt_inside (by omega)]
    · rfl
    · simp only [timestampStart, kUntaggedDatagramBytes] at hle ⊢
      omega
  have hoff : ((data.length : Int) - kFlagsBytes - kEncryptionTagBytes - kTimestampBytes -
      (datagramFlags data).handshakeBytes) = handshakeStart data := by
    simp only [handshakeStart, timestampStart, kUntaggedDatagramBytes, kFlagsBytes,
      kEncryptionTagBytes, kTimestampBytes] at hle ⊢
    omega
  have hhandshake : readAt data (handshakeStart data) (datagramFlags data).handshakeBytes =
      .ok (datagramHandshake data) := by
    rw [readAt_inside (by omega)]
    · rfl
    · simp only [handshakeStart, timestampStart, kUntaggedDatagramBytes] at hle ⊢
      omega
  unfold openDatagram
  simp only [hshutdown, Bool.false_eq_true, if_false, hflags, bind, Except.bind, flags_value,
    htimestamp, hoff, hhandshake, handleHandshake]
  by_cases hbytes : 0 < (datagramFlags data).handshakeBytes
  · rcases onUnauthenticatedHandshake_ok data with h | h
    · rw [if_pos hbytes, if_pos ⟨hbytes, h⟩, h]
      rfl
    · have hkeep : ¬ DropsHandshake data := by
        rintro ⟨-, hdrop⟩
        rw [h] at hdrop
        cases hdrop
      rw [if_pos hbytes, if_neg hkeep, h]
  · rw [if_neg hbytes, if_neg fun h => hbytes h.1]

theorem le_of_openDatagram {o : Opening} (hshutdown : r.isShutdown = false)
    (hle : kEncryptionTagBytes + kFlagsBytes ≤ data.length) (h : r.openDatagram t1ha data = .ok o) :
    kUntaggedDatagramBytes + (datagramFlags data).handshakeBytes ≤ data.length := by
  unfold openDatagram at h
  rw [hshutdown, if_neg Bool.false_ne_true] at h
  obtain ⟨_, hflags, h⟩ := bind_eq_ok h
  rw [readAt_flags hle] at hflags
  cases hflags
  obtain ⟨_, -, h⟩ := bind_eq_ok h
  obtain ⟨_, hhandshake, -⟩ := bind_eq_ok h
  have hinside := (readAt_eq_ok hhandshake).1
  rw [flags_value] at hinside
  simp only [kFlagsBytes, kEncryptionTagBytes, kTimestampBytes, kUntaggedDatagramBytes] at hinside ⊢
  omega

theorem le_of_openFields {o : Opening}
    (hle : kUntaggedDatagramBytes + (datagramFlags data).handshakeBytes ≤ data.length)
    (h : r.openFields t1ha data (datagramFlags data) remoteSendTS24 handshake (handshakeStart data) =
      .ok o) :
    kUntaggedDatagramBytes + (datagramFlags data).handshakeBytes +
      (datagramFlags data).encryptionNonceBytes ≤ data.length := by
  obtain ⟨_, hnonce, -⟩ := bind_eq_ok h
  rw [readPartialNonce] at hnonce
  split at hnonce
  · omega
  · obtain ⟨_, hfield, -⟩ := bind_eq_ok hnonce
    have hinside := (readAt_eq_ok hfield).1
    simp only [handshakeStart, timestampStart] at hinside
    omega

theorem connectedFooterBytes_lt (f : FlagsReader) : f.connectedFooterBytes < 2 ^ 32 := by
  have hseq : f.sequenceNumberBytes ≤ 3 := Nat.and_le_right
  have hmask : f.flagsByte &&& kEncryptionNonceMask ≤ 3 <<< 2 := Nat.and_le_right
  have hnonce : f.encryptionNonceBytes ≤ 3 <<< 2 := by
    rw [FlagsReader.encryptionNonceBytes, Nat.shiftRight_eq_div_pow]
    exact (Nat.div_le_self _ _).trans hmask
  have hhandshake : f.handshakeBytes ≤ 12 := by
    rw [FlagsReader.handshakeBytes]
    split
    · exact Nat.le_refl 12
    · exact Nat.zero_le 12
  simp only [FlagsReader.connectedFooterBytes, kEncryptionTagBytes, kFlagsBytes, kTimestampBytes]
  norm_num at hnonce ⊢
  omega

theorem le_of_openTagged {o : Opening} (hlen : data.length < 2 ^ 32)
    (hle : kUntaggedDatagramBytes ≤ data.length)
    (hverifies : r.TagVerifies t1ha data remoteSendTS24 nonce)
    (h : r.openTagged t1ha data (datagramFlags data) remoteSendTS24 handshake footer partialNonce
      nonce = .ok o) : (datagramFlags data).connectedFooterBytes ≤ data.length := by
  rw [openTagged_eq hlen hle, if_pos hverifies] at h
  obtain ⟨_, hpayload, -⟩ := bind_eq_ok h
  have hinside := (readAt_eq_ok hpayload).2
  by_contra hlt
  have hwraps := sub32_of_lt (connectedFooterBytes_lt (datagramFlags data)) (Nat.lt_of_not_le hlt)
  omega

def matchingHash (c : SimpleCipher) (data : Bytes) : T1ha := fun _ _ =>
  (value (data.drop (data.length - kEncryptionTagBytes)) ^^^
    c.tagInt (timestampFlagTagInt (datagramTimestamp data) (datagramFlags data).flagsByte)) <<< 19

theorem tagVerifies_matchingHash (r : SessionIncoming) (nonce : Nat)
    (hle : kEncryptionTagBytes ≤ data.length) :
    r.TagVerifies (matchingHash r.decryptor data) data (datagramTimestamp data) nonce := by
  have htag : value (data.drop (data.length - kEncryptionTagBytes)) < 2 ^ 16 := by
    have hlt := value_lt (data.drop (data.length - kEncryptionTagBytes))
    have htwo : (data.drop (data.length - kEncryptionTagBytes)).length = 2 := by
      rw [List.length_drop]
      simp only [kEncryptionTagBytes] at hle ⊢
      omega
    rw [htwo] at hlt
    norm_num at hlt ⊢
    exact hlt
  have hxor := Nat.xor_lt_two_pow htag (r.decryptor.tagInt_lt
    (timestampFlagTagInt (datagramTimestamp data) (datagramFlags data).flagsByte))
  exact (r.decryptor.tag_shiftLeft hxor _ nonce).symm

theorem isDuplicate_reset (base : Nat) : (StrikeRegister.reset base).isDuplicate base = false := by
  have hzero : sub 64 base base = 0 := by
    zify
    rw [sub_cast, sub_self, Int.zero_emod]
  simp only [StrikeRegister.isDuplicate, StrikeRegister.reset, counterLt, hzero]
  decide

theorem exists_fresh (data : Bytes) : ∃ register : StrikeRegister,
    register.isDuplicate (register.readNonce (datagramNonce data)
      (datagramFlags data).encryptionNonceBytes) = false := by
  by_cases hzero : (datagramFlags data).encryptionNonceBytes = 0
  · refine ⟨.initial, ?_⟩
    rw [hzero]
    change StrikeRegister.initial.isDuplicate StrikeRegister.initial.getNextExpected = false
    decide
  · refine ⟨.reset (datagramNonce data), ?_⟩
    have hle : (datagramFlags data).encryptionNonceBytes ≤ 3 := by
      have hmask : (datagramFlags data).flagsByte &&& kEncryptionNonceMask ≤ 12 := Nat.and_le_right
      rw [FlagsReader.encryptionNonceBytes, Nat.shiftRight_eq_div_pow]
      omega
    have hlt : datagramNonce data < 2 ^ (8 * (datagramFlags data).encryptionNonceBytes) := by
      rw [datagramNonce, if_neg hzero, pow_mul]
      exact Nat.mod_lt _ (by positivity)
    generalize (datagramFlags data).encryptionNonceBytes = n at hzero hle hlt
    generalize datagramNonce data = part at hlt
    have hwide : part < 2 ^ 64 := lt_of_lt_of_le hlt (Nat.pow_le_pow_right (by decide) (by omega))
    have hexpand := expand_wrap (w := 64) (s := 8 * n) (r := part) (x := part) (by omega)
      (by omega) (by simp) (by simp)
    rw [wrap_natCast, wrap_natCast, Nat.mod_eq_of_lt hlt, Nat.mod_eq_of_lt hwide] at hexpand
    have hread : (StrikeRegister.reset part).readNonce part n = part := by
      rw [StrikeRegister.readNonce, if_neg hzero]
      exact hexpand
    rw [hread]
    exact isDuplicate_reset part

theorem openDatagram_isOk_of_le (hlen : data.length < 2 ^ 32)
    (hle : (datagramFlags data).connectedFooterBytes ≤ data.length) :
    (r.openDatagram t1ha data).isOk = true := by
  have hfooter : kUntaggedDatagramBytes + (datagramFlags data).handshakeBytes +
      (datagramFlags data).encryptionNonceBytes + (datagramFlags data).sequenceNumberBytes ≤
      data.length := by
    simp only [FlagsReader.connectedFooterBytes, kUntaggedDatagramBytes, kEncryptionTagBytes,
      kFlagsBytes, kTimestampBytes] at hle ⊢
    omega
  cases hshutdown : r.isShutdown with
  | true =>
    rw [openDatagram, hshutdown]
    rfl
  | false =>
    classical
    rw [openDatagram_eq hshutdown (by omega)]
    split
    · rfl
    rw [openFields_eq (by omega)]
    simp only
    split
    · rfl
    rw [openTagged_eq hlen (by omega)]
    split
    · have hpayload : readAt data 0 (sub 32 data.length (datagramFlags data).connectedFooterBytes) =
          .ok (data.take (data.length - (datagramFlags data).connectedFooterBytes)) := by
        rw [sub32_of_le hlen hle]
        exact readAt_zero (Nat.sub_le _ _)
      have hstart : (nonceStart data : Int) - (datagramFlags data).sequenceNumberBytes ≥ 0 := by
        simp only [nonceStart, handshakeStart, timestampStart]
        omega
      simp only [hpayload, readFooterField]
      rw [readAt_inside hstart]
      · rfl
      · simp only [nonceStart, handshakeStart, timestampStart, kUntaggedDatagramBytes] at hfooter ⊢
        omega
    · rfl

/-- UDPSocket::onUDPDatagram for a source address in the map: the datagram goes to the connection,
and from there to ProcessDatagram. A truncated one is freed. -/
def onUDPDatagram (t1ha : T1ha) (r : SessionIncoming) (data : Bytes) :
    Except Access (Option Opening) :=
  if datagramIsTruncated data then .ok none else some <$> r.openDatagram t1ha data

theorem onUDPDatagram_isOk :
    (r.onUDPDatagram t1ha data).isOk = true ↔
      datagramIsTruncated data = true ∨ (r.openDatagram t1ha data).isOk = true := by
  rw [onUDPDatagram]
  split
  · next h => exact iff_of_true rfl (.inl h)
  · next h =>
    cases hopen : r.openDatagram t1ha data with
    | error access => simp [h, Except.isOk, Except.toBool, Functor.map, Except.map]
    | ok opening => simp [Except.isOk, Except.toBool, Functor.map, Except.map]

/-- Every pointer and length that is computed for a datagram lies inside it exactly when its flags
byte has the connection bit, which is when DatagramIsTruncated looks at the length, or when the
footer fits anyhow, or when a handshake that fits ends the processing. -/
theorem datagram_read_inside_iff (data : Bytes) (hlen : data.length < 2 ^ 32) :
    (∀ t1ha r, (onUDPDatagram t1ha r data).isOk = true) ↔
      datagramIsTruncated data = true ∨ (datagramFlags data).isConnectionDatagram = true ∨
        (datagramFlags data).connectedFooterBytes ≤ data.length ∨
        kHandshakeRightOffset ≤ data.length ∧ DropsHandshake data := by
  constructor
  · intro h
    by_contra hnot
    obtain ⟨htruncated, -, hfooter, hdrop⟩ := by simpa only [not_or] using hnot
    have hmin : kEncryptionTagBytes + kFlagsBytes ≤ data.length := by
      by_contra hshort
      exact htruncated (if_pos (by omega))
    obtain ⟨register, hfresh⟩ := exists_fresh data
    let c := SimpleCipher.initializeKey 0
    have hok := (onUDPDatagram_isOk.mp (h (matchingHash c data) ⟨false, c, register⟩)).resolve_left
      htruncated
    cases hopen : openDatagram (matchingHash c data) ⟨false, c, register⟩ data with
    | error access =>
      rw [hopen] at hok
      cases hok
    | ok opening =>
      have hhandshake := le_of_openDatagram rfl hmin hopen
      have hkeep : ¬ DropsHandshake data := by
        intro hdrops
        have hbytes := hdrops.1
        refine hdrop ⟨?_, hdrops⟩
        simp only [FlagsReader.handshakeBytes] at hbytes hhandshake
        split at hbytes
        · next hmask =>
          rw [if_pos hmask] at hhandshake
          exact hhandshake
        · cases hbytes
      rw [openDatagram_eq rfl hhandshake, if_neg hkeep] at hopen
      have hnonce := le_of_openFields hhandshake hopen
      rw [openFields_eq hnonce] at hopen
      simp only [hfresh, Bool.false_eq_true, if_false] at hopen
      have hverifies := tagVerifies_matchingHash ⟨false, c, register⟩
        (register.readNonce (datagramNonce data) (datagramFlags data).encryptionNonceBytes)
        (Nat.le_of_add_right_le hmin)
      exact hfooter (le_of_openTagged hlen (by omega) hverifies hopen)
  · intro h t1ha r
    rw [onUDPDatagram_isOk]
    by_cases htruncated : datagramIsTruncated data = true
    · exact .inl htruncated
    · right
      rcases h with h | hconnection | hfooter | ⟨hle, hdrops⟩
      · exact absurd h htruncated
      · refine openDatagram_isOk_of_le hlen ?_
        by_contra hshort
        refine htruncated ?_
        rw [datagramIsTruncated]
        split
        · rfl
        · simp only [hconnection, Bool.true_and, decide_eq_true_eq]
          omega
      · exact openDatagram_isOk_of_le hlen hfooter
      · cases hshutdown : r.isShutdown with
        | true =>
          rw [openDatagram, hshutdown]
          rfl
        | false =>
          have hbytes : (datagramFlags data).handshakeBytes ≤ kHandshakeBytes := by
            rw [FlagsReader.handshakeBytes]
            split
            · exact Nat.le_refl _
            · exact Nat.zero_le _
          rw [openDatagram_eq hshutdown (by rw [kHandshakeRightOffset] at hle; omega),
            if_pos hdrops]
          rfl

/-- The smallest datagram that is not truncated, of unconnected type 0. -/
def shortUnconnected : Bytes := [0, 0, 0]

theorem datagram_read_outside_shortUnconnected :
    datagramIsTruncated shortUnconnected = false ∧
      onUDPDatagram (fun _ _ => 0) ⟨false, .initializeKey 0, .initial⟩ shortUnconnected =
        .error ⟨-3, 4⟩ := ⟨by decide, rfl⟩

/-- An empty padding frame would fit in front of this footer, which has no optional field. -/
def emptyDatagram : Bytes := [0, 0, 0, 0x80, 0, 0]

theorem datagram_read_inside_emptyDatagram :
    emptyDatagram.length < 2 ^ 32 ∧
      ∀ t1ha r, (onUDPDatagram t1ha r emptyDatagram).isOk = true :=
  ⟨by decide, (datagram_read_inside_iff emptyDatagram (by decide)).mpr (.inr (.inl (by decide)))⟩

end SessionIncoming

end Tonk.Session
