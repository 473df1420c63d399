import Mathlib.Tactic

set_option autoImplicit false

namespace Tonk.Protocol

abbrev Bytes := List UInt8

def tonkChannelCount : Nat := 6

def kTimestampBytes : Nat := 3
def kSequenceNumberBytes : Nat := 3
def kHandshakeBytes : Nat := 12
def kNonceBytes : Nat := 3
def kFlagsBytes : Nat := 1
def kEncryptionTagBytes : Nat := 2

def kMaxOverheadBytes : Nat :=
  kTimestampBytes + kSequenceNumberBytes + kHandshakeBytes + kNonceBytes + kFlagsBytes +
    kEncryptionTagBytes

def kMessageFrameBytes : Nat := 2
def kMessageLengthBits : Nat := 11
def kMessageLengthMask : Nat := 2047
def kMessageSplitMinimumBytes : Nat := 20

def kUDPIPV4MaxDatagramBytes : Nat := 1350
def kUDPIPV6MaxDatagramBytes : Nat := 1330
def kMaxPossibleDatagramByteLimit : Nat := kUDPIPV4MaxDatagramBytes
def kMinPossibleDatagramByteLimit : Nat := kUDPIPV6MaxDatagramBytes

/-- SessionOutgoing::Initialize assumes the worst-case MTU and never changes it again. -/
def maxMessageSectionBytes : Nat := kMinPossibleDatagramByteLimit - kMaxOverheadBytes

def kCompressionAllocateBytes : Nat := kMaxPossibleDatagramByteLimit - kMaxOverheadBytes

/-! The enumerators of `protocol::MessageType`. The sources compute with them, so they are
kept as numbers. -/

def messageTypeTimeSync : Nat := 0
def messageTypeAcknowledgements : Nat := 1
def messageTypeAckAck : Nat := 2
def messageTypeUnreliable : Nat := 3
def messageTypePadding : Nat := 4
def messageTypeStartOfReliables : Nat := 5
def messageTypeCompressed : Nat := 5
def messageTypeReliable : Nat := 6
def kLowPriStartChannel0 : Nat := tonkChannelCount * 2
def kLowPriEndChannel0 : Nat := tonkChannelCount * 3
def kControlChannel : Nat := tonkChannelCount * 4
def kUnorderedChannel : Nat := tonkChannelCount * 4 + 1
def messageTypeLowPri : Nat := messageTypeReliable + kLowPriStartChannel0
def messageTypeControl : Nat := messageTypeReliable + kControlChannel
def messageTypeUnordered : Nat := messageTypeReliable + kUnorderedChannel

def writeU16LE (value : Nat) : Bytes := [UInt8.ofNat value, UInt8.ofNat (value >>> 8)]

def writeMessageFrameHeader (messageType messageBytes : Nat) : Bytes :=
  writeU16LE ((messageType <<< kMessageLengthBits ||| messageBytes) % 2 ^ 16)

structure Frame where
  messageType : Nat
  messageData : Bytes
  deriving DecidableEq, Repr

def Frame.wire (f : Frame) : Bytes :=
  writeMessageFrameHeader f.messageType f.messageData.length ++ f.messageData

def Frame.Fits (f : Frame) : Prop := f.messageType < 32 ∧ f.messageData.length < 2048

def wireFrames (fs : List Frame) : Bytes := (fs.map Frame.wire).flatten

/-- The outcome of one turn of `while (frameReader.Remaining() >= kMessageFrameBytes)`. -/
inductive FrameRead where
  | done : FrameRead
  | leftover : FrameRead
  | truncated : FrameRead
  | frame : Frame → Bytes → FrameRead
  deriving DecidableEq, Repr

def readFrame : Bytes → FrameRead
  | [] => .done
  | [_] => .leftover
  | lo :: hi :: rest =>
    let header := lo.toNat + hi.toNat * 256
    let messageBytes := header &&& kMessageLengthMask
    if rest.length < messageBytes then .truncated
    else .frame ⟨header >>> kMessageLengthBits, rest.take messageBytes⟩ (rest.drop messageBytes)

theorem readFrame_shorter {data rest : Bytes} {f : Frame} (h : readFrame data = .frame f rest) :
    rest.length < data.length := by
  match data with
  | [] => simp [readFrame] at h
  | [_] => simp [readFrame] at h
  | lo :: hi :: tail =>
    simp only [readFrame] at h
    split at h
    · cases h
    · simp only [FrameRead.frame.injEq] at h
      obtain ⟨_, rfl⟩ := h
      simp only [List.length_drop, List.length_cons]
      omega

inductive FrameError where
  | truncatedMessage
  | invalidFrame
  deriving DecidableEq, Repr

/-- The frame loop: `handle` runs on each frame as it is read, so the effects of the frames in
front of a malformed one have happened when the error is returned. `offset` is BytesRead. -/
def frameLoop {σ ε : Type} (lift : FrameError → ε)
    (handle : σ → Nat → Frame → Except ε σ) (s : σ) (offset : Nat) (data : Bytes) : Except ε σ :=
  match _h : readFrame data with
  | .done => .ok s
  | .leftover => .error (lift .invalidFrame)
  | .truncated => .error (lift .truncatedMessage)
  | .frame f rest =>
    match handle s offset f with
    | .error e => .error e
    | .ok s' =>
      frameLoop lift handle s' (offset + kMessageFrameBytes + f.messageData.length) rest
termination_by data.length
decreasing_by exact readFrame_shorter _h

theorem header_word {t l : Nat} (hl : l < 2048) : t <<< 11 ||| l = t * 2048 + l := by
  have h := Nat.two_pow_add_eq_or_of_lt (i := 11) hl t
  rw [Nat.shiftLeft_eq, Nat.mul_comm, ← h]

theorem header_bytes {t l : Nat} (ht : t < 32) (hl : l < 2048) :
    let w := (t <<< kMessageLengthBits ||| l) % 2 ^ 16
    (UInt8.ofNat w).toNat + (UInt8.ofNat (w >>> 8)).toNat * 256 = t * 2048 + l := by
  have h := header_word (t := t) hl
  simp only [kMessageLengthBits, h, UInt8.toNat_ofNat', Nat.shiftRight_eq_div_pow]
  omega

theorem header_length {t l : Nat} (hl : l < 2048) : (t * 2048 + l) &&& kMessageLengthMask = l := by
  have h := Nat.and_two_pow_sub_one_eq_mod (t * 2048 + l) 11
  simp only [kMessageLengthMask]
  norm_num at h
  rw [h]
  omega

theorem header_type {t l : Nat} (hl : l < 2048) : (t * 2048 + l) >>> kMessageLengthBits = t := by
  rw [kMessageLengthBits, Nat.shiftRight_eq_div_pow]
  omega

theorem readFrame_wire {f : Frame} (hf : f.Fits) (rest : Bytes) :
    readFrame (f.wire ++ rest) = .frame f rest := by
  obtain ⟨ht, hl⟩ := hf
  have hb := header_bytes ht hl
  have hlen := header_length (t := f.messageType) hl
  have htype := header_type (t := f.messageType) hl
  simp only [Frame.wire, writeMessageFrameHeader, writeU16LE, List.cons_append,
    List.nil_append, readFrame]
  rw [hb, hlen, htype]
  simp

theorem Frame.wire_length (f : Frame) :
    f.wire.length = kMessageFrameBytes + f.messageData.length := by
  simp [Frame.wire, writeMessageFrameHeader, writeU16LE, kMessageFrameBytes]
  omega

@[simp] theorem wireFrames_nil : wireFrames [] = [] := rfl

@[simp] theorem wireFrames_cons (f : Frame) (fs : List Frame) :
    wireFrames (f :: fs) = f.wire ++ wireFrames fs := rfl

@[simp] theorem wireFrames_append (fs gs : List Frame) :
    wireFrames (fs ++ gs) = wireFrames fs ++ wireFrames gs := by
  simp [wireFrames]

def handleFrames {σ ε : Type} (handle : σ → Nat → Frame → Except ε σ) :
    σ → Nat → List Frame → Except ε σ
  | s, _, [] => .ok s
  | s, offset, f :: fs =>
    match handle s offset f with
    | .error e => .error e
    | .ok s' => handleFrames handle s' (offset + kMessageFrameBytes + f.messageData.length) fs

theorem frameLoop_wireFrames {σ ε : Type} (lift : FrameError → ε)
    (handle : σ → Nat → Frame → Except ε σ) (fs : List Frame) (hf : ∀ f ∈ fs, f.Fits)
    (s : σ) (offset : Nat) :
    frameLoop lift handle s offset (wireFrames fs) = handleFrames handle s offset fs := by
  induction fs generalizing s offset with
  | nil => rw [frameLoop]; simp [readFrame, handleFrames]
  | cons f fs ih =>
    have hr := readFrame_wire (hf f (by simp)) (wireFrames fs)
    rw [wireFrames_cons, frameLoop]
    split <;> rename_i heq <;> rw [hr] at heq <;> cases heq
    simp only [handleFrames]
    cases handle s offset f with
    | error e => rfl
    | ok s' => exact ih (fun g hg => hf g (by simp [hg])) s' _

theorem handleFrames_foldlM {σ ε : Type} (handle : σ → Frame → Except ε σ) (fs : List Frame)
    (s : σ) (offset : Nat) :
    handleFrames (fun s _ f => handle s f) s offset fs = fs.foldlM handle s := by
  induction fs generalizing s offset with
  | nil => rfl
  | cons f fs ih =>
    rw [handleFrames, List.foldlM_cons]
    cases handle s f with
    | error e => rfl
    | ok s' => exact ih s' _

end Tonk.Protocol
