import Tonk.Siamese.CoefficientAgreement
import Tonk.Siamese.DecoderSums

/-!
The data of Decode once the recovery matrix is solved. EliminateOriginalData takes the packets that
are there off the recovery packets, MultiplyLowerTriangle and BackSubstitution repeat the elimination
on what is left, and every packet that comes out starts with its length.
-/

set_option autoImplicit false

namespace Tonk.Siamese
open Protocol Finset

def kAlignmentBytes : Nat := 16

def deserializeHeaderPacketLength (buffer : Bytes) : Option (Nat × Nat) :=
  if buffer.length < 1 then none
  else
    let byteCount := byteAt buffer 0 >>> 6
    if byteCount ≤ 1 then some (byteAt buffer 0, 1)
    else if byteCount = 2 then
      if buffer.length < 2 then none
      else some ((byteAt buffer 0 <<< 8 ||| byteAt buffer 1) &&& 0x3fff, 2)
    else if byteAt buffer 0 &&& 0xE0 = 0xC0 then
      if buffer.length < 3 then none
      else
        some ((byteAt buffer 0 <<< 16 ||| byteAt buffer 1 <<< 8 ||| byteAt buffer 2) &&& 0x1fffff, 3)
    else if buffer.length < 4 then none
    else
      some ((byteAt buffer 0 <<< 24 ||| byteAt buffer 1 <<< 16 ||| byteAt buffer 2 <<< 8 |||
        byteAt buffer 3) &&& 0x1fffffff, 4)

theorem and_0x1fffff (x : Nat) : x &&& 0x1fffff = x % 2 ^ 21 := Nat.and_two_pow_sub_one_eq_mod x 21
theorem and_0x1fffffff (x : Nat) : x &&& 0x1fffffff = x % 2 ^ 29 :=
  Nat.and_two_pow_sub_one_eq_mod x 29

theorem serializeHeaderPacketLength_length (length : Nat) :
    0 < (serializeHeaderPacketLength length).length ∧
      (serializeHeaderPacketLength length).length ≤ 4 := by
  unfold serializeHeaderPacketLength
  split
  · simp
  · split
    · simp
    · split <;> simp

theorem deserializeHeaderPacketLength_serialize {length : Nat} (h : length ≤ 0x1fffffff)
    (rest : Bytes) :
    deserializeHeaderPacketLength (serializeHeaderPacketLength length ++ rest) =
      some (length, (serializeHeaderPacketLength length).length) := by
  have hlast := toNat_ofNat length
  have hb₁ : (UInt8.ofNat (length >>> 8)).toNat = length / 2 ^ 8 % 256 := by
    rw [toNat_ofNat, Nat.shiftRight_eq_div_pow]
  have hb₂ : (UInt8.ofNat (length >>> 16)).toNat = length / 2 ^ 16 % 256 := by
    rw [toNat_ofNat, Nat.shiftRight_eq_div_pow]
  unfold serializeHeaderPacketLength
  generalize UInt8.ofNat length = last at hlast
  generalize UInt8.ofNat (length >>> 8) = b₁ at hb₁
  generalize UInt8.ofNat (length >>> 16) = b₂ at hb₂
  split
  · have hlow : last.toNat >>> 6 ≤ 1 := by
      rw [Nat.shiftRight_eq_div_pow]
      omega
    have hnum : last.toNat = length := by omega
    rw [hnum] at hlow
    simp [deserializeHeaderPacketLength, hnum, hlow]
  · split
    · have hb₀ : (UInt8.ofNat (0x80 ||| length >>> 8)).toNat = length / 2 ^ 8 + 128 := by
        rw [toNat_ofNat, Nat.or_comm, or_0x80, Nat.shiftRight_eq_div_pow]
        omega
      generalize UInt8.ofNat (0x80 ||| length >>> 8) = b₀ at hb₀
      have hcnt : b₀.toNat >>> 6 = 2 := by
        rw [hb₀, Nat.shiftRight_eq_div_pow]
        omega
      have hnum : (b₀.toNat <<< 8 ||| last.toNat) &&& 0x3fff = length := by
        rw [shiftLeft_or (by omega), and_0x3fff]
        omega
      simp [deserializeHeaderPacketLength, hcnt, hnum]
    · split
      · have hb₀ : (UInt8.ofNat (0xC0 ||| length >>> 16)).toNat = length / 2 ^ 16 + 192 := by
          have hlt : length >>> 16 < 2 ^ 6 := by
            rw [Nat.shiftRight_eq_div_pow]
            omega
          have hor : 0xC0 ||| length >>> 16 = length >>> 16 + 3 * 2 ^ 6 := shiftLeft_or hlt 3
          rw [toNat_ofNat, hor, Nat.shiftRight_eq_div_pow]
          omega
        generalize UInt8.ofNat (0xC0 ||| length >>> 16) = b₀ at hb₀
        have hcnt : b₀.toNat >>> 6 = 3 := by
          rw [hb₀, Nat.shiftRight_eq_div_pow]
          omega
        have hkind : b₀.toNat &&& 0xE0 = 0xC0 := by
          have hsmall : b₀.toNat < 224 ∧ 192 ≤ b₀.toNat := by omega
          generalize b₀.toNat = x at hsmall
          obtain ⟨hlt, hge⟩ := hsmall
          interval_cases x <;> rfl
        have hnum : (b₀.toNat <<< 16 ||| b₁.toNat <<< 8 ||| last.toNat) &&& 0x1fffff = length := by
          have hlow := shiftLeft_or (k := 8) (show last.toNat < 2 ^ 8 by omega) b₁.toNat
          rw [Nat.or_assoc, hlow, shiftLeft_or (by omega), and_0x1fffff]
          omega
        simp [deserializeHeaderPacketLength, hcnt, hkind, hnum]
      · have hb₀ : (UInt8.ofNat (0xE0 ||| length >>> 24)).toNat = length / 2 ^ 24 + 224 := by
          have hlt : length >>> 24 < 2 ^ 5 := by
            rw [Nat.shiftRight_eq_div_pow]
            omega
          have hor : 0xE0 ||| length >>> 24 = length >>> 24 + 7 * 2 ^ 5 := shiftLeft_or hlt 7
          rw [toNat_ofNat, hor, Nat.shiftRight_eq_div_pow]
          omega
        generalize UInt8.ofNat (0xE0 ||| length >>> 24) = b₀ at hb₀
        have hcnt : b₀.toNat >>> 6 = 3 := by
          rw [hb₀, Nat.shiftRight_eq_div_pow]
          omega
        have hkind : b₀.toNat &&& 0xE0 ≠ 0xC0 := by
          have hsmall : b₀.toNat < 256 ∧ 224 ≤ b₀.toNat := by omega
          generalize b₀.toNat = x at hsmall
          obtain ⟨hlt, hge⟩ := hsmall
          interval_cases x <;> decide
        have hnum : (b₀.toNat <<< 24 ||| b₂.toNat <<< 16 ||| b₁.toNat <<< 8 ||| last.toNat) &&&
            0x1fffffff = length := by
          have hlow := shiftLeft_or (k := 8) (show last.toNat < 2 ^ 8 by omega) b₁.toNat
          have hmid := shiftLeft_or (k := 16)
            (show last.toNat + b₁.toNat * 2 ^ 8 < 2 ^ 16 by omega) b₂.toNat
          rw [Nat.or_assoc, Nat.or_assoc, hlow, hmid, shiftLeft_or (by omega), and_0x1fffffff]
          omega
        simp [deserializeHeaderPacketLength, hcnt, hkind, hnum]

/-- A recovery packet as the decoder stores it. `packetEnd` is how many packets had been added when it
was made; the decoder knows nothing of it. -/
structure RecoveryData where
  bytes : DataBuffer
  packetEnd : Nat

namespace DataBuffer

def toBytes (buffer : DataBuffer) : Bytes := buffer.map fun x => .ofBitVec x.byte

/-- A packet of the window is added to a buffer, no further than the buffer goes. -/
def addElement (w : DecoderPacketWindow OriginalPacket) (element : Nat) (buffer : DataBuffer) :
    DataBuffer :=
  match w.getWindowElement element with
  | none => buffer
  | some original => buffer.addMem (original.buffer.take buffer.length)

end DataBuffer

namespace DecoderData

def eliminateElement (d : DecoderData) (metadata : RecoveryMetadata) (recovery : DataBuffer)
    (j : Nat) : DataBuffer :=
  match d.window.getWindowElement j with
  | none => recovery
  | some original =>
    let data := original.buffer.take recovery.length
    if metadata.row = 0 then recovery.addMem data
    else recovery.mulAddMem
      (cauchyElement (metadata.row - 1) (original.column % kCauchyMaxColumns)) data

def eliminateCauchy (d : DecoderData) (r : RecoveryPacket RecoveryData) : DataBuffer :=
  (List.range' r.elementStart (r.elementEnd - r.elementStart)).foldl (d.eliminateElement r.metadata)
    r.buffer.bytes

def startRow (d : DecoderData) (metadata : RecoveryMetadata) (recoveryBytes : Nat) :
    Option DecoderData :=
  let sumElementStart := d.window.columnToElement metadata.columnStart
  let started :=
    if metadata.columnStart ≠ d.sumColumnStart ∨ metadata.sumCount < d.sumColumnCount then
      if d.window.invalidElement sumElementStart then none
      else some { d.resetSums sumElementStart with sumColumnStart := metadata.columnStart }
    else
      d.startSums (if d.window.invalidElement sumElementStart then 0 else sumElementStart)
        recoveryBytes
  started.map fun d => { d with sumColumnCount := metadata.sumCount }

end DecoderData

/-- The buffer of a row of sums and the ProductSum, with the sums they are filled from. -/
structure EliminateWorkspace where
  data : DecoderData
  recovery : DataBuffer
  product : DataBuffer

namespace EliminateWorkspace

def eliminateSum (laneIndex row elementEnd : Nat) (s : EliminateWorkspace) (bit : Nat) :
    EliminateWorkspace :=
  if (getRowOpcode laneIndex row).testBit bit then
    let (d, sum) := s.data.getSum laneIndex (bit % kColumnSumCount) elementEnd
    let sum := sum.take s.recovery.length
    if bit < kColumnSumCount then { s with data := d, recovery := s.recovery.addMem sum }
    else { s with data := d, product := s.product.addMem sum }
  else s

def eliminateDense (s : EliminateWorkspace) (row elementEnd : Nat) : EliminateWorkspace :=
  (List.range kColumnLaneCount).foldl (fun s laneIndex =>
    (List.range (2 * kColumnSumCount)).foldl (eliminateSum laneIndex row elementEnd) s) s

def eliminateLight (elementStart count : Nat) : Nat → PCGRandom → EliminateWorkspace →
    EliminateWorkspace
  | 0, _, s => s
  | n + 1, prng, s =>
    let (random1, prng) := prng.next
    let element1 := elementStart + random1.toNat % count
    let (randomRX, prng) := prng.next
    let elementRX := elementStart + randomRX.toNat % count
    eliminateLight elementStart count n prng { s with
      recovery := s.recovery.addElement s.data.window element1
      product := s.product.addElement s.data.window elementRX }

end EliminateWorkspace

namespace DecoderData

def eliminateRow (d : DecoderData) (r : RecoveryPacket RecoveryData) :
    Option (DecoderData × DataBuffer) :=
  let metadata := r.metadata
  if metadata.sumCount ≤ siameseCauchyThreshold then some (d, d.eliminateCauchy r)
  else
    let recoveryBytes := r.buffer.bytes.length
    (d.startRow metadata recoveryBytes).map fun d =>
      let s : EliminateWorkspace := ⟨d, r.buffer.bytes, List.replicate recoveryBytes 0⟩
      let s := s.eliminateDense metadata.row r.elementEnd
      let pairCount := (metadata.ldpcCount + kPairAddRate - 1) / kPairAddRate
      let s := s.eliminateLight r.elementStart metadata.ldpcCount pairCount
        (.seed (.ofNat metadata.row) (.ofNat metadata.ldpcCount))
      (s.data, s.recovery.mulAddMem (getRowValue metadata.row) s.product)

end DecoderData

namespace RecoveryMatrixState

def usedForSolution (m : RecoveryMatrixState) (row : Nat) : Bool :=
  (List.range m.columns.length).any fun j => m.pivots j = row

def eliminateOriginalRows (m : RecoveryMatrixState) : List (RecoveryPacket RecoveryData) → Nat →
    DecoderData → Option (DecoderData × List DataBuffer)
  | [], _, d => some (d, [])
  | r :: rest, row, d =>
    if m.usedForSolution row then
      match d.eliminateRow r with
      | none => none
      | some (d, buffer) =>
        (m.eliminateOriginalRows rest (row + 1) d).map fun (d, buffers) => (d, buffer :: buffers)
    else
      (m.eliminateOriginalRows rest (row + 1) d).map fun (d, buffers) =>
        (d, r.buffer.bytes :: buffers)

def eliminateOriginalData (m : RecoveryMatrixState) (packets : List (RecoveryPacket RecoveryData))
    (d : DecoderData) : Option (DecoderData × List DataBuffer) :=
  m.eliminateOriginalRows (packets.take m.rowCount) 0 d

def multiplyColumnData (m : RecoveryMatrixState) (recovery : Nat → DataBuffer) (col_i : Nat) :
    Nat → DataBuffer :=
  (List.range' (col_i + 1) (m.columns.length - (col_i + 1))).foldl (fun recovery col_j =>
    let y := m.matrix (m.pivots col_j) col_i
    if y = 0 then recovery
    else
      let src := recovery (m.pivots col_i)
      Function.update recovery (m.pivots col_j)
        (((recovery (m.pivots col_j)).growZeroPadded src.length).mulAddMem y src)) recovery

def multiplyLowerTriangleData (m : RecoveryMatrixState) (recovery : Nat → DataBuffer) :
    Nat → DataBuffer :=
  (List.range (m.columns.length - 1)).foldl m.multiplyColumnData recovery

/-- A recovered packet is taken off the pivot rows above it, no further than these go. -/
def substituteColumnData (m : RecoveryMatrixState) (recovery : Nat → DataBuffer) (col_i : Nat)
    (original : DataBuffer) : Nat → DataBuffer :=
  (List.range col_i).foldl (fun recovery col_j =>
    let x := m.matrix (m.pivots col_j) col_i
    if x = 0 then recovery
    else
      let buffer := recovery (m.pivots col_j)
      Function.update recovery (m.pivots col_j)
        (buffer.mulAddMem x (original.take buffer.length))) recovery

/-- The packet in the buffer of a pivot row, if its first bytes are a length that fits. The source
multiplies these first and then as much of the rest as the length says. -/
def revealPacket (column : Nat) (inv_y : GF256) (buffer : DataBuffer) : Option OriginalPacket :=
  let revealed := buffer.map (· * inv_y)
  match deserializeHeaderPacketLength (DataBuffer.toBytes (revealed.take kAlignmentBytes)) with
  | none => none
  | some (length, headerBytes) =>
    if length = 0 ∨ buffer.length < headerBytes + length then none
    else some ⟨column, headerBytes, revealed.take (headerBytes + length)⟩

/-- BackSubstitution from column `n` down; `original` are the packets recovered. -/
def backSubstitutionFromData (m : RecoveryMatrixState) : Nat → (Nat → DataBuffer) →
    (Nat → OriginalPacket) → Option (Nat → OriginalPacket)
  | 0, _, original => some original
  | n + 1, recovery, original =>
    let y := m.matrix (m.pivots n) n
    match revealPacket (m.columns.getD n 0) y⁻¹ (recovery (m.pivots n)) with
    | none => none
    | some packet =>
      m.backSubstitutionFromData n (m.substituteColumnData recovery n packet.buffer)
        (Function.update original n packet)

def backSubstitutionData (m : RecoveryMatrixState) (recovery : Nat → DataBuffer) :
    Option (Nat → OriginalPacket) :=
  m.backSubstitutionFromData m.columns.length recovery fun _ => ⟨0, 0, []⟩

/-- What DecodeCheckedRegion does once the matrix is solved, up to the window. -/
def recoverData (m : RecoveryMatrixState) (packets : List (RecoveryPacket RecoveryData))
    (d : DecoderData) : Option (DecoderData × (Nat → OriginalPacket)) :=
  match m.eliminateOriginalData packets d with
  | none => none
  | some (d, buffers) =>
    (m.backSubstitutionData (m.multiplyLowerTriangleData fun row => buffers.getD row [])).map
      fun original => (d, original)

end RecoveryMatrixState

end Tonk.Siamese
