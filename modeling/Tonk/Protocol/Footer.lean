import Tonk.Lib.LittleEndian
import Tonk.Protocol.Frame

/-!
The footer of a datagram: the flags byte, the fields in front of it, and the handshakes of
`TonkineseProtocol.cpp`. A datagram is read backwards from its last byte, by offsets that nothing
but its length keeps inside.
-/

set_option autoImplicit false

namespace Tonk.Protocol
open LittleEndian

def kUntaggedDatagramBytes : Nat := 3 + 1 + 2

def kConnectionMask : Nat := 0x80
def kHandshakeMask : Nat := 0x40
def kSeqCompMask : Nat := 0x20
def kOnlyFECMask : Nat := 0x10
def kEncryptionNonceMask : Nat := 3 <<< 2
def kSequenceNumberMask : Nat := 3

structure FlagsReader where
  flagsByte : Nat
  deriving DecidableEq, Repr

namespace FlagsReader

def isConnectionDatagram (f : FlagsReader) : Bool := f.flagsByte &&& kConnectionMask ≠ 0
def isOnlyFEC (f : FlagsReader) : Bool := 0 ≠ f.flagsByte &&& kOnlyFECMask
def shouldCompressSequenceNumbers (f : FlagsReader) : Bool := 0 ≠ f.flagsByte &&& kSeqCompMask
def sequenceNumberBytes (f : FlagsReader) : Nat := f.flagsByte &&& kSequenceNumberMask
def encryptionNonceBytes (f : FlagsReader) : Nat := (f.flagsByte &&& kEncryptionNonceMask) >>> 2

def handshakeBytes (f : FlagsReader) : Nat :=
  if f.flagsByte &&& kHandshakeMask ≠ 0 then kHandshakeBytes else 0

def connectedFooterBytes (f : FlagsReader) : Nat :=
  kEncryptionTagBytes + kFlagsBytes + kTimestampBytes +
    f.handshakeBytes + f.encryptionNonceBytes + f.sequenceNumberBytes

end FlagsReader

def datagramFlags (data : Bytes) : FlagsReader :=
  ⟨(data.getD (data.length - kFlagsBytes - kEncryptionTagBytes) 0).toNat⟩

def timestampStart (data : Bytes) : Nat := data.length - kUntaggedDatagramBytes

def handshakeStart (data : Bytes) : Nat :=
  timestampStart data - (datagramFlags data).handshakeBytes

def nonceStart (data : Bytes) : Nat :=
  handshakeStart data - (datagramFlags data).encryptionNonceBytes

/-- The 3-byte timestamp of a datagram. -/
def datagramTimestamp (data : Bytes) : Nat := value ((data.drop (timestampStart data)).take 4) % 2 ^ 24

def datagramHandshake (data : Bytes) : Bytes :=
  (data.drop (handshakeStart data)).take (datagramFlags data).handshakeBytes

def datagramNonce (data : Bytes) : Nat :=
  let n := (datagramFlags data).encryptionNonceBytes
  if n = 0 then 0 else value ((data.drop (nonceStart data)).take 4) % 256 ^ n

def datagramIsTruncated (data : Bytes) : Bool :=
  if data.length < kEncryptionTagBytes + kFlagsBytes then true
  else
    let flags := datagramFlags data
    flags.isConnectionDatagram && data.length < flags.connectedFooterBytes

structure Access where
  offset : Int
  bytes : Nat
  deriving DecidableEq, Repr

/-- The bytes of a range of a datagram; a range that is not inside it is returned as the error. -/
def readAt (data : Bytes) (offset : Int) (n : Nat) : Except Access Bytes :=
  if 0 ≤ offset ∧ offset + n ≤ data.length then .ok ((data.drop offset.toNat).take n)
  else .error ⟨offset, n⟩

def readU24LEMin4Bytes (data : Bytes) (offset : Int) : Except Access Nat := do
  let field ← readAt data offset 4
  return value field % 2 ^ 24

def readFooterField (data : Bytes) (footer : Int) (n : Nat) : Except Access Nat := do
  let field ← readAt data (footer - n) 4
  return value field % 256 ^ n

def writeAt (buffer : Bytes) (offset : Nat) (field : Bytes) : Bytes :=
  buffer.take offset ++ field ++ buffer.drop (offset + field.length)

/-- Stores 4 bytes whatever the size of the field: the fields behind it are written later. -/
def writeFooterField (buffer : Bytes) (footer field : Nat) : Bytes :=
  writeAt buffer footer (LittleEndian.bytes 4 field)

def timestampFlagTagInt (timestamp24 flags : Nat) : Nat := timestamp24 <<< 8 % 2 ^ 32 ||| flags

def kMagicC2SConnectionRequest : Nat := 0x6b6e6f54
def kMagicS2CCookieResponse : Nat := 0x546f6e6b
def kMagicP2PConnectionRequest : Nat := 0x50325054

inductive HandshakeType where
  | notHandshake
  | c2sConnectionRequest
  | s2cCookieResponse
  | disconnect
  | s2cUnknownSourceAddress
  | c2sUpdateSourceAddress
  | peer2PeerConnect
  deriving DecidableEq, Repr

def handshakeTypeDisconnect : Nat := 3
def handshakeTypeS2CUnknownSourceAddress : Nat := 4
def handshakeTypeC2SUpdateSourceAddress : Nat := 5

def getType (data : Bytes) : HandshakeType :=
  let type := value (data.take 4)
  if type = kMagicC2SConnectionRequest then .c2sConnectionRequest
  else if type = kMagicS2CCookieResponse then .s2cCookieResponse
  else if type = kMagicP2PConnectionRequest then .peer2PeerConnect
  else if type = handshakeTypeDisconnect then .disconnect
  else if type = handshakeTypeS2CUnknownSourceAddress then .s2cUnknownSourceAddress
  else if type % 256 = handshakeTypeC2SUpdateSourceAddress then .c2sUpdateSourceAddress
  else .notHandshake

/-- What the three StartHandshake functions of SessionOutgoing can have put into Handshake. -/
inductive Handshake where
  | c2sConnectionRequest : Nat → Handshake
  | p2pConnectionRequest : Nat → Handshake
  | c2sUpdateSourceAddress : Nat → Nat → Handshake
  deriving DecidableEq, Repr

def Handshake.wire : Handshake → Bytes
  | .c2sConnectionRequest key =>
    LittleEndian.bytes 4 kMagicC2SConnectionRequest ++ LittleEndian.bytes 8 key
  | .p2pConnectionRequest key =>
    LittleEndian.bytes 4 kMagicP2PConnectionRequest ++ LittleEndian.bytes 8 key
  | .c2sUpdateSourceAddress key id =>
    LittleEndian.bytes 4 (id <<< 8 ||| handshakeTypeC2SUpdateSourceAddress) ++
      LittleEndian.bytes 8 key

def Handshake.type : Handshake → HandshakeType
  | .c2sConnectionRequest _ => .c2sConnectionRequest
  | .p2pConnectionRequest _ => .peer2PeerConnect
  | .c2sUpdateSourceAddress _ _ => .c2sUpdateSourceAddress

theorem Handshake.wire_length (h : Handshake) : h.wire.length = kHandshakeBytes := by
  cases h <;> simp [wire, kHandshakeBytes]

theorem getType_wire (h : Handshake) : getType h.wire = h.type := by
  have hmagic : ∀ v rest, value ((LittleEndian.bytes 4 v ++ rest).take 4) = v % 256 ^ 4 := by
    intro v rest
    rw [List.take_append_of_le_length (by simp), List.take_of_length_le (by simp), value_bytes]
  cases h with
  | c2sConnectionRequest key =>
    simp only [getType, Handshake.wire, hmagic]
    rfl
  | p2pConnectionRequest key =>
    simp only [getType, Handshake.wire, hmagic]
    rfl
  | c2sUpdateSourceAddress key id =>
    have hor : id <<< 8 ||| handshakeTypeC2SUpdateSourceAddress = id * 256 + 5 := by
      have h := Nat.two_pow_add_eq_or_of_lt (i := 8) (b := 5) (by decide) id
      rw [Nat.shiftLeft_eq, Nat.mul_comm, handshakeTypeC2SUpdateSourceAddress, ← h]
    have hlow : (id * 256 + 5) % 256 ^ 4 % 256 = 5 := by omega
    have hne : ∀ magic, magic % 256 ≠ 5 → (id * 256 + 5) % 256 ^ 4 ≠ magic := by
      rintro magic hmagic rfl
      exact hmagic hlow
    simp only [getType, Handshake.wire, hmagic, hor]
    rw [if_neg (hne _ (by decide)), if_neg (hne _ (by decide)), if_neg (hne _ (by decide)),
      if_neg (hne _ (by decide)), if_neg (hne _ (by decide))]
    exact if_pos hlow

theorem readAt_inside {data : Bytes} {offset : Int} {n : Nat} (h : 0 ≤ offset)
    (hend : offset + n ≤ data.length) :
    readAt data offset n = .ok ((data.drop offset.toNat).take n) := if_pos ⟨h, hend⟩

theorem readAt_eq_ok {data field : Bytes} {offset : Int} {n : Nat}
    (h : readAt data offset n = .ok field) : 0 ≤ offset ∧ offset + n ≤ data.length := by
  unfold readAt at h
  split at h
  · assumption
  · cases h

theorem bind_eq_ok {ε α β : Type} {x : Except ε α} {f : α → Except ε β} {b : β}
    (h : (x >>= f) = .ok b) : ∃ a, x = .ok a ∧ f a = .ok b := by
  cases x with
  | error e => cases h
  | ok a => exact ⟨a, rfl, h⟩

theorem readAt_zero {data : Bytes} {n : Nat} (h : n ≤ data.length) :
    readAt data 0 n = .ok (data.take n) := by
  rw [readAt_inside (Int.le_refl 0) (by omega)]
  rfl

theorem readAt_flags {data : Bytes} (h : kEncryptionTagBytes + kFlagsBytes ≤ data.length) :
    readAt data (data.length - kFlagsBytes - kEncryptionTagBytes) kFlagsBytes =
      .ok [data.getD (data.length - kFlagsBytes - kEncryptionTagBytes) 0] := by
  simp only [kEncryptionTagBytes, kFlagsBytes] at h ⊢
  have hlt : data.length - 1 - 2 < data.length := by omega
  have hoff : ((data.length : Int) - (1 : Nat) - (2 : Nat)).toNat = data.length - 1 - 2 := by omega
  rw [readAt_inside (by omega) (by omega), hoff, List.drop_eq_getElem_cons hlt,
    List.getD_eq_getElem?_getD, List.getElem?_eq_getElem hlt]
  rfl

theorem flags_value (data : Bytes) :
    (⟨value [data.getD (data.length - kFlagsBytes - kEncryptionTagBytes) 0]⟩ : FlagsReader) =
      datagramFlags data := by
  simp [value, datagramFlags]

theorem readAt_field (pre field post : Bytes) (hfield : field.length ≤ 4)
    (hpost : 4 ≤ field.length + post.length) :
    readAt (pre ++ (field ++ post)) pre.length 4 =
      .ok (field ++ post.take (4 - field.length)) := by
  rw [readAt, if_pos ⟨by omega, by simp; omega⟩]
  simp [List.take_append, List.take_of_length_le hfield]

theorem writeAt_append (pre rest field : Bytes) :
    writeAt (pre ++ rest) pre.length field = pre ++ field ++ rest.drop field.length := by
  simp [writeAt, List.drop_append]

theorem timestampFlagTagInt_mod (timestamp flags : Nat) :
    timestampFlagTagInt (timestamp % 2 ^ 24) flags = timestampFlagTagInt timestamp flags := by
  have h : (timestamp % 2 ^ 24) <<< 8 % 2 ^ 32 = timestamp <<< 8 % 2 ^ 32 := by
    rw [Nat.shiftLeft_eq, Nat.shiftLeft_eq]
    omega
  rw [timestampFlagTagInt, timestampFlagTagInt, h]

end Tonk.Protocol
