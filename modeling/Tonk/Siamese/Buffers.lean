import Tonk.Siamese.Coefficients

set_option autoImplicit false

namespace Tonk.Siamese
open Protocol

abbrev DataBuffer := List GF256

namespace DataBuffer

def growZeroPadded (buffer : DataBuffer) (bytes : Nat) : DataBuffer :=
  buffer ++ List.replicate (bytes - buffer.length) 0

def addMem : DataBuffer → DataBuffer → DataBuffer
  | x :: xs, y :: ys => (x + y) :: addMem xs ys
  | xs, _ => xs

def mulAddMem (y : GF256) : DataBuffer → DataBuffer → DataBuffer
  | z :: zs, x :: xs => (z + y * x) :: mulAddMem y zs xs
  | zs, _ => zs

def padded (buffer : DataBuffer) : Nat → GF256 := fun i => buffer.getD i 0

@[simp] theorem padded_nil : padded [] = 0 := rfl

@[simp] theorem padded_growZeroPadded (buffer : DataBuffer) (bytes : Nat) :
    (buffer.growZeroPadded bytes).padded = buffer.padded := by
  funext i
  simp only [padded, growZeroPadded, List.getD_eq_getElem?_getD]
  by_cases hi : i < buffer.length
  · rw [List.getElem?_append_left hi]
  · rw [List.getElem?_append_right (by omega), List.getElem?_replicate,
      List.getElem?_eq_none (Nat.le_of_not_lt hi)]
    split <;> rfl

@[simp] theorem length_growZeroPadded (buffer : DataBuffer) (bytes : Nat) :
    (buffer.growZeroPadded bytes).length = max buffer.length bytes := by
  simp only [growZeroPadded, List.length_append, List.length_replicate]
  omega

theorem mulAddMem_one (zs xs : DataBuffer) : mulAddMem 1 zs xs = addMem zs xs := by
  induction zs generalizing xs with
  | nil => cases xs <;> rfl
  | cons z zs ih =>
    cases xs with
    | nil => rfl
    | cons x xs => rw [mulAddMem, addMem, ih, one_mul]

@[simp] theorem length_mulAddMem (y : GF256) (zs xs : DataBuffer) :
    (mulAddMem y zs xs).length = zs.length := by
  induction zs generalizing xs with
  | nil => cases xs <;> rfl
  | cons z zs ih =>
    cases xs with
    | nil => rfl
    | cons x xs => rw [mulAddMem, List.length_cons, ih, List.length_cons]

theorem padded_mulAddMem (y : GF256) {zs xs : DataBuffer} (h : xs.length ≤ zs.length) :
    (mulAddMem y zs xs).padded = zs.padded + y • xs.padded := by
  funext i
  simp only [padded, Pi.add_apply, Pi.smul_apply, smul_eq_mul]
  induction zs generalizing xs i with
  | nil =>
    obtain rfl : xs = [] := List.length_eq_zero_iff.mp (Nat.le_zero.mp h)
    simp [mulAddMem]
  | cons z zs ih =>
    cases xs with
    | nil => simp [mulAddMem]
    | cons x xs =>
      cases i with
      | zero => simp [mulAddMem]
      | succ i =>
        simp only [mulAddMem, List.getD_cons_succ]
        exact ih (by simpa using h) i

end DataBuffer

def byteElement (b : UInt8) : GF256 := ⟨b.toBitVec⟩

def serializeHeaderPacketLength (length : Nat) : Bytes :=
  if length ≤ 0x7f then [.ofNat length]
  else if length ≤ 0x3fff then [.ofNat (0x80 ||| length >>> 8), .ofNat length]
  else if length ≤ 0x1fffff then
    [.ofNat (0xC0 ||| length >>> 16), .ofNat (length >>> 8), .ofNat length]
  else
    [.ofNat (0xE0 ||| length >>> 24), .ofNat (length >>> 16), .ofNat (length >>> 8), .ofNat length]

structure OriginalPacket where
  column : Nat
  headerBytes : Nat
  buffer : DataBuffer
  deriving DecidableEq, Repr

def OriginalPacket.initialized (packetNum : Nat) (data : Bytes) : OriginalPacket :=
  let header := serializeHeaderPacketLength data.length
  ⟨packetNum, header.length, (header ++ data).map byteElement⟩

theorem serializeHeaderPacketLength_ne_nil (length : Nat) :
    serializeHeaderPacketLength length ≠ [] := by
  unfold serializeHeaderPacketLength
  split
  · exact List.cons_ne_nil _ _
  · split
    · exact List.cons_ne_nil _ _
    · split <;> exact List.cons_ne_nil _ _

theorem OriginalPacket.initialized_ne_nil (packetNum : Nat) (data : Bytes) :
    (OriginalPacket.initialized packetNum data).buffer ≠ [] := by
  intro hnil
  have happend := List.map_eq_nil_iff.mp hnil
  exact serializeHeaderPacketLength_ne_nil _ (List.append_eq_nil_iff.mp happend).1

end Tonk.Siamese
