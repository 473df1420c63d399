import Tonk.Session.Reassembly

/-!
`PacketCompression.cpp`: the compressor and the decompressor with their history ring buffers.
Zstd itself is a parameter, of which only the round trip under equal histories is used.
-/

set_option autoImplicit false

namespace Tonk.Session
open Protocol

def kCompressionDictBytes : Nat := 24 * 1000

/-- A region of the history buffer as it was committed: its offset and its bytes. -/
abbrev Block := Nat × Bytes

/-- RingBuffer<kCompressionDictBytes>. The contents of Buffer are kept as the regions committed to
it, oldest first: this is the sequence of allocations and commits. -/
structure RingBuffer where
  nextWriteOffset : Nat
  blocks : List Block
  deriving DecidableEq, Repr

namespace RingBuffer

def empty : RingBuffer := ⟨0, []⟩

def allocate (h : RingBuffer) (bytes : Nat) : Nat :=
  if kCompressionDictBytes < h.nextWriteOffset + bytes then 0 else h.nextWriteOffset

/-- Allocate a packet's worth of bytes, copy `data` there and commit its length. -/
def insert (h : RingBuffer) (data : Bytes) : RingBuffer :=
  let offset := h.allocate kCompressionAllocateBytes
  ⟨offset + data.length, h.blocks ++ [(offset, data)]⟩

end RingBuffer

inductive ZstdError where
  | dstSizeTooSmall
  | other
  deriving DecidableEq, Repr

/-- The block functions of zstd. A context is determined by the blocks it has seen and where they
lie, so both functions get these and the offset of the new block. -/
structure Zstd where
  compressBlock : List Block → Nat → Bytes → Except ZstdError Bytes
  decompressBlock : List Block → Nat → Bytes → Except ZstdError Bytes
  decompress_compress : ∀ (history : List Block) (offset : Nat) (data c : Bytes),
    compressBlock history offset data = .ok c → c ≠ [] → c.length < data.length →
    decompressBlock history offset c = .ok data

def compress (z : Zstd) (history : RingBuffer) (data : Bytes) :
    Except ZstdError (RingBuffer × Option Bytes) :=
  let history' := history.insert data
  match z.compressBlock history.blocks (history.allocate kCompressionAllocateBytes) data with
  | .error .dstSizeTooSmall => .ok (history', none)
  | .error .other => .error .other
  | .ok c => if c.length = 0 ∨ data.length ≤ c.length then .ok (history', none)
    else .ok (history', some c)

def insertBlock (history : RingBuffer) (data : Bytes) : RingBuffer :=
  if kCompressionAllocateBytes < data.length then history else history.insert data

def decompress (z : Zstd) (history : RingBuffer) (data : Bytes) :
    Except ZstdError (RingBuffer × Bytes) :=
  match z.decompressBlock history.blocks (history.allocate kCompressionAllocateBytes) data with
  | .error e => .error e
  | .ok [] => .error .other
  | .ok out => .ok (history.insert out, out)

theorem compress_history {z : Zstd} {h h' : RingBuffer} {data : Bytes} {c : Option Bytes}
    (hc : compress z h data = .ok (h', c)) : h' = h.insert data := by
  unfold compress at hc
  split at hc
  · cases hc
    rfl
  · cases hc
  · split at hc
    · cases hc
      rfl
    · cases hc
      rfl

theorem decompress_of_compress {z : Zstd} {h h' : RingBuffer} {data c : Bytes}
    (hc : compress z h data = .ok (h', some c)) :
    c ≠ [] ∧ c.length < data.length ∧ decompress z h c = .ok (h', data) := by
  have hh := compress_history hc
  unfold compress at hc
  split at hc
  · cases hc
  · cases hc
  · rename_i hz
    split at hc
    · cases hc
    · rename_i hlen
      cases hc
      have hne : c ≠ [] := by
        intro e
        simp [e] at hlen
      have hlt : c.length < data.length := by omega
      refine ⟨hne, hlt, ?_⟩
      unfold decompress
      rw [z.decompress_compress _ _ _ _ hz hne hlt]
      cases data with
      | nil => simp at hlt
      | cons b bs => rw [hh]

end Tonk.Session
