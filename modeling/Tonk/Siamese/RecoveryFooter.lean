import Tonk.Siamese.Decoder
import Tonk.Siamese.Serializers

set_option autoImplicit false

namespace Tonk.Siamese
open Protocol Serial

def serializeFooterPacketNum (packetNum : Nat) : Bytes :=
  if packetNum ≤ 0x7f then [UInt8.ofNat packetNum]
  else if packetNum ≤ 0x3fff then
    [UInt8.ofNat packetNum, UInt8.ofNat (0x80 ||| packetNum >>> 8)]
  else
    [UInt8.ofNat packetNum, UInt8.ofNat (packetNum >>> 8),
      UInt8.ofNat (0xC0 ||| packetNum >>> 16)]

def byteFromEnd (buffer : Bytes) (space i : Nat) : Nat := byteAt buffer (space - 1 - i)

/-- The space is taken as an int. -/
def deserializeFooterPacketNum (buffer : Bytes) (space : Nat) : Option (Nat × Nat) :=
  if signed 32 space < 1 then none
  else
    let byteCount := byteFromEnd buffer space 0 >>> 6
    if byteCount ≤ 1 then some (byteFromEnd buffer space 0, 1)
    else if signed 32 space < byteCount then none
    else if byteCount = 2 then
      some ((byteFromEnd buffer space 0 <<< 8 ||| byteFromEnd buffer space 1) &&& 0x3fff, byteCount)
    else
      some ((byteFromEnd buffer space 0 <<< 16 ||| byteFromEnd buffer space 1 <<< 8 |||
        byteFromEnd buffer space 2) &&& 0x3fffff, byteCount)

def serializeFooterPacketCount (count : Nat) : Bytes :=
  if count ≤ 127 then [UInt8.ofNat count]
  else [UInt8.ofNat count, UInt8.ofNat (0x80 ||| count >>> 8)]

def deserializeFooterPacketCount (buffer : Bytes) (space : Nat) : Option (Nat × Nat) :=
  if space < 1 then none
  else if byteFromEnd buffer space 0 &&& 0x80 = 0 then some (byteFromEnd buffer space 0, 1)
  else if space < 2 then none
  else some ((byteFromEnd buffer space 0 <<< 8 ||| byteFromEnd buffer space 1) &&& 0x7fff, 2)

/-- The row and the LDPC count are left out where the sum is of one packet. -/
def serializeFooterRecoveryMetadata (metadata : RecoveryMetadata) : Bytes :=
  (if 1 < metadata.sumCount then
    UInt8.ofNat metadata.row :: serializeFooterPacketCount metadata.ldpcCount else []) ++
  (serializeFooterPacketNum metadata.columnStart ++
    serializeFooterPacketCount (metadata.sumCount - 1))

def deserializeFooterRecoveryMetadata (buffer : Bytes) (originalBufferSpace : Nat) :
    Option (RecoveryMetadata × Nat) := do
  let (sumCountM1, fieldSize) ← deserializeFooterPacketCount buffer originalBufferSpace
  let bufferSpaceBytes := unsignedSub originalBufferSpace fieldSize
  let (columnStart, fieldSize) ← deserializeFooterPacketNum buffer bufferSpaceBytes
  let bufferSpaceBytes := unsignedSub bufferSpaceBytes fieldSize
  if sumCountM1 + 1 ≤ 1 then
    return (⟨0, columnStart, sumCountM1 + 1, 1⟩, unsignedSub originalBufferSpace bufferSpaceBytes)
  else
    let (ldpcCount, fieldSize) ← deserializeFooterPacketCount buffer bufferSpaceBytes
    let bufferSpaceBytes := unsignedSub bufferSpaceBytes fieldSize
    if sumCountM1 + 1 < ldpcCount then none
    else if 1 ≤ bufferSpaceBytes then
      return (⟨byteAt buffer (bufferSpaceBytes - 1), columnStart, sumCountM1 + 1, ldpcCount⟩,
        unsignedSub originalBufferSpace (bufferSpaceBytes - 1))
    else none

section FromEnd

theorem byteFromEnd_eq {buffer front field rest : Bytes} {b : UInt8} {i : Nat}
    (h : buffer = front ++ field ++ rest) (hb : field.reverse[i]? = some b) :
    byteFromEnd buffer (front ++ field).length i = b.toNat := by
  obtain ⟨hi, hget⟩ := List.getElem?_eq_some_iff.mp hb
  rw [List.length_reverse] at hi
  rw [List.getElem_reverse] at hget
  have hindex : (front ++ field).length - 1 - i = front.length + (field.length - 1 - i) := by
    rw [List.length_append]
    omega
  rw [byteFromEnd, hindex, byteAt, h, List.append_assoc, List.getD_eq_getElem?_getD,
    List.getElem?_append_right (Nat.le_add_right _ _), Nat.add_sub_cancel_left,
    List.getElem?_append_left (by omega), List.getElem?_eq_getElem (by omega), hget]
  rfl

theorem deserializeFooterPacketCount_serialize {count : Nat} (h : count < 2 ^ 15)
    (buffer front rest : Bytes)
    (hbuffer : buffer = front ++ serializeFooterPacketCount count ++ rest) :
    deserializeFooterPacketCount buffer (front ++ serializeFooterPacketCount count).length =
      some (count, (serializeFooterPacketCount count).length) := by
  have hread := fun (i : Nat) (b : UInt8) => byteFromEnd_eq (b := b) (i := i) hbuffer
  generalize hspace : (front ++ serializeFooterPacketCount count).length = space at hread ⊢
  rw [List.length_append] at hspace
  unfold serializeFooterPacketCount at hread hspace ⊢
  unfold deserializeFooterPacketCount
  split at hread
  · next hsmall =>
    rw [if_pos hsmall] at hspace ⊢
    have hlast := hread 0 _ rfl
    rw [toNat_ofNat, Nat.mod_eq_of_lt (by omega)] at hlast
    have hclear : count &&& 0x80 = 0 := and_0x80_eq_zero (by omega)
    simp only [List.length_singleton] at hspace
    rw [if_neg (by omega), hlast, if_pos hclear]
    rfl
  · next hlarge =>
    rw [if_neg hlarge] at hspace ⊢
    have hlast := hread 0 _ rfl
    have hfirst := hread 1 _ rfl
    rw [toNat_ofNat, Nat.or_comm, or_0x80, Nat.shiftRight_eq_div_pow] at hlast
    rw [toNat_ofNat] at hfirst
    have hset : byteFromEnd buffer space 0 &&& 0x80 ≠ 0 := (and_0x80 _).mpr (by omega)
    have hcount : (byteFromEnd buffer space 0 <<< 8 ||| byteFromEnd buffer space 1) &&& 0x7fff =
        count := by
      rw [shiftLeft_or (by omega), Nat.and_two_pow_sub_one_eq_mod _ 15]
      omega
    simp only [List.length_cons, List.length_nil] at hspace
    rw [if_neg (by omega), if_neg hset, if_neg (by omega), hcount]
    rfl

theorem deserializeFooterPacketNum_serialize {packetNum : Nat}
    (h : packetNum < siamesePacketNumCount) (buffer front rest : Bytes)
    (hbuffer : buffer = front ++ serializeFooterPacketNum packetNum ++ rest)
    (hint : (front ++ serializeFooterPacketNum packetNum).length < 2 ^ 31) :
    deserializeFooterPacketNum buffer (front ++ serializeFooterPacketNum packetNum).length =
      some (packetNum, (serializeFooterPacketNum packetNum).length) := by
  have hread := fun (i : Nat) (b : UInt8) => byteFromEnd_eq (b := b) (i := i) hbuffer
  generalize hspace : (front ++ serializeFooterPacketNum packetNum).length = space at hread hint ⊢
  rw [List.length_append] at hspace
  have hcount : siamesePacketNumCount = 2 ^ 22 := rfl
  have hsigned : signed 32 space = space := if_neg (by omega)
  unfold serializeFooterPacketNum at hread hspace ⊢
  unfold deserializeFooterPacketNum
  rw [hsigned]
  split at hread
  · next hsmall =>
    rw [if_pos hsmall] at hspace ⊢
    have hlast := hread 0 _ rfl
    rw [toNat_ofNat, Nat.mod_eq_of_lt (by omega)] at hlast
    have hlow : packetNum >>> 6 ≤ 1 := by
      rw [Nat.shiftRight_eq_div_pow]
      omega
    simp only [List.length_singleton] at hspace
    rw [if_neg (by omega), hlast]
    simp only
    rw [if_pos hlow]
    rfl
  · next hlarge =>
    rw [if_neg hlarge] at hspace ⊢
    split at hread
    · next hmiddle =>
      rw [if_pos hmiddle] at hspace ⊢
      have hlast := hread 0 _ rfl
      have hfirst := hread 1 _ rfl
      rw [toNat_ofNat, Nat.or_comm, or_0x80, Nat.shiftRight_eq_div_pow] at hlast
      rw [toNat_ofNat] at hfirst
      have hbytes : byteFromEnd buffer space 0 >>> 6 = 2 := by
        rw [Nat.shiftRight_eq_div_pow]
        omega
      have hnum : (byteFromEnd buffer space 0 <<< 8 ||| byteFromEnd buffer space 1) &&& 0x3fff =
          packetNum := by
        rw [shiftLeft_or (by omega), and_0x3fff]
        omega
      simp only [List.length_cons, List.length_nil] at hspace
      simp only [hbytes, hnum]
      rw [if_neg (by omega), if_neg (by omega), if_neg (by omega), if_pos trivial]
      rfl
    · next hmiddle =>
      rw [if_neg hmiddle] at hspace ⊢
      have hlast := hread 0 _ rfl
      have hmid := hread 1 _ rfl
      have hfirst := hread 2 _ rfl
      have hlt : packetNum >>> 16 < 2 ^ 6 := by
        rw [Nat.shiftRight_eq_div_pow]
        omega
      have hor : 0xC0 ||| packetNum >>> 16 = packetNum >>> 16 + 3 * 2 ^ 6 := shiftLeft_or hlt 3
      rw [toNat_ofNat, hor, Nat.shiftRight_eq_div_pow] at hlast
      rw [toNat_ofNat, Nat.shiftRight_eq_div_pow] at hmid
      rw [toNat_ofNat] at hfirst
      have hbytes : byteFromEnd buffer space 0 >>> 6 = 3 := by
        rw [Nat.shiftRight_eq_div_pow]
        omega
      have hnum : (byteFromEnd buffer space 0 <<< 16 ||| byteFromEnd buffer space 1 <<< 8 |||
          byteFromEnd buffer space 2) &&& 0x3fffff = packetNum := by
        have hlow := shiftLeft_or (k := 8) (show byteFromEnd buffer space 2 < 2 ^ 8 by omega)
          (byteFromEnd buffer space 1)
        rw [Nat.or_assoc, hlow, shiftLeft_or (by omega), and_0x3fffff]
        omega
      simp only [List.length_cons, List.length_nil] at hspace
      simp only [hbytes, hnum]
      rw [if_neg (by omega), if_neg (by omega), if_neg (by omega), if_neg (by omega)]
      rfl

theorem deserializeFooterPacketCount_le {buffer : Bytes} {space count fieldSize : Nat}
    (h : deserializeFooterPacketCount buffer space = some (count, fieldSize)) :
    fieldSize ≤ space := by
  unfold deserializeFooterPacketCount at h
  split at h
  · cases h
  · split at h
    · cases h
      omega
    · split at h
      · cases h
      · cases h
        omega

theorem deserializeFooterPacketNum_le {buffer : Bytes} {space packetNum fieldSize : Nat}
    (h : deserializeFooterPacketNum buffer space = some (packetNum, fieldSize)) :
    fieldSize ≤ space := by
  have hle : signed 32 space ≤ space := by
    unfold signed
    split <;> omega
  unfold deserializeFooterPacketNum at h
  simp only at h
  split at h
  · cases h
  · split at h
    · cases h
      omega
    · split at h
      · cases h
      · split at h
        · cases h
          omega
        · cases h
          omega

end FromEnd

/-- What the footer can hold. -/
structure RecoveryMetadata.Writable (m : RecoveryMetadata) : Prop where
  sum_pos : 1 ≤ m.sumCount
  sum_le : m.sumCount ≤ siameseMaxPackets
  ldpc_le : m.ldpcCount ≤ m.sumCount
  column_lt : m.columnStart < siamesePacketNumCount
  row_lt : m.row < 256

/-- The metadata as the other side sees them: a sum of one packet has neither a row nor an LDPC
count of its own. -/
def RecoveryMetadata.transmitted (m : RecoveryMetadata) : RecoveryMetadata :=
  if 1 < m.sumCount then m else { m with row := 0, ldpcCount := 1 }

theorem deserializeFooterRecoveryMetadata_serialize {m : RecoveryMetadata} (h : m.Writable)
    (payload : Bytes)
    (hint : (payload ++ serializeFooterRecoveryMetadata m).length <
      2 ^ 31 + (serializeFooterPacketCount (m.sumCount - 1)).length) :
    deserializeFooterRecoveryMetadata (payload ++ serializeFooterRecoveryMetadata m)
        (payload ++ serializeFooterRecoveryMetadata m).length =
      some (m.transmitted, (serializeFooterRecoveryMetadata m).length) := by
  have hmax : siameseMaxPackets < 2 ^ 15 := by decide
  have hsumLe := h.sum_le
  have hldpcLe := h.ldpc_le
  unfold serializeFooterRecoveryMetadata at hint ⊢
  generalize hrow : (if 1 < m.sumCount then
    UInt8.ofNat m.row :: serializeFooterPacketCount m.ldpcCount else []) = rowField at hint ⊢
  generalize hnumField : serializeFooterPacketNum m.columnStart = numField at hint ⊢
  generalize hsumField : serializeFooterPacketCount (m.sumCount - 1) = sumField at hint ⊢
  generalize hbuffer : payload ++ (rowField ++ (numField ++ sumField)) = buffer at hint ⊢
  have hsum := deserializeFooterPacketCount_serialize (show m.sumCount - 1 < 2 ^ 15 by omega)
    buffer (payload ++ rowField ++ numField) [] (by simp [← hbuffer, hsumField])
  have hnum := deserializeFooterPacketNum_serialize h.column_lt buffer (payload ++ rowField) sumField
    (by simp [← hbuffer, hnumField])
    (by
      rw [hnumField]
      simp only [← hbuffer, List.length_append] at hint ⊢
      omega)
  rw [hsumField, show payload ++ rowField ++ numField ++ sumField = buffer by simp [← hbuffer]]
    at hsum
  rw [hnumField] at hnum
  have hlength : buffer.length = (payload ++ rowField ++ numField).length + sumField.length := by
    rw [← hbuffer, ← List.length_append]
    simp
  have hfooter : buffer.length = payload.length + (rowField ++ (numField ++ sumField)).length := by
    rw [← hbuffer, List.length_append]
  have hsumLen : sumField.length ≤ 2 := by
    rw [← hsumField, serializeFooterPacketCount]
    split <;> simp
  have hsumCount : m.sumCount - 1 + 1 = m.sumCount := by
    have := h.sum_pos
    omega
  have hafterSum : unsignedSub buffer.length sumField.length =
      (payload ++ rowField ++ numField).length := by
    rw [unsignedSub_eq (by omega) (by omega)]
    omega
  have hafterNum : unsignedSub (payload ++ rowField ++ numField).length numField.length =
      (payload ++ rowField).length := by
    have hsplit : (payload ++ rowField ++ numField).length =
        (payload ++ rowField).length + numField.length := List.length_append
    rw [hsplit, unsignedSub_eq (by omega) (by omega), Nat.add_sub_cancel]
  unfold deserializeFooterRecoveryMetadata
  rw [hsum]
  simp only [Option.bind_eq_bind, Option.bind_some, hsumCount]
  rw [hafterSum, hnum]
  simp only [Option.bind_some]
  rw [hafterNum]
  rw [List.length_append] at hlength
  unfold RecoveryMetadata.transmitted
  by_cases hone : 1 < m.sumCount
  · rw [if_pos hone] at hrow ⊢
    rw [if_neg (by omega)]
    have hldpc := deserializeFooterPacketCount_serialize (show m.ldpcCount < 2 ^ 15 by omega)
      buffer (payload ++ [UInt8.ofNat m.row]) (numField ++ sumField) (by simp [← hbuffer, ← hrow])
    rw [show payload ++ [UInt8.ofNat m.row] ++ serializeFooterPacketCount m.ldpcCount =
      payload ++ rowField by simp [← hrow]] at hldpc
    have hrowByte : byteAt buffer payload.length = m.row := by
      simp [← hbuffer, ← hrow, byteAt, Nat.mod_eq_of_lt h.row_lt]
    have hrowLen : (payload ++ rowField).length =
        payload.length + 1 + (serializeFooterPacketCount m.ldpcCount).length := by
      rw [← hrow, List.length_append, List.length_cons]
      omega
    have hafterLdpc : unsignedSub (payload ++ rowField).length
        (serializeFooterPacketCount m.ldpcCount).length = payload.length + 1 := by
      rw [unsignedSub_eq (by omega) (by omega)]
      omega
    rw [hldpc]
    simp only [Option.bind_some]
    rw [hafterLdpc, if_neg (by omega), if_pos (by omega), Nat.add_sub_cancel, hrowByte,
      unsignedSub_eq (by omega) (by omega), hfooter, Nat.add_sub_cancel_left]
    rfl
  · rw [if_neg hone] at hrow ⊢
    have hsingle : m.sumCount = 1 := by
      have := h.sum_pos
      omega
    rw [if_pos (by omega), unsignedSub_eq (by omega) (by omega), hfooter, ← hrow, List.append_nil,
      Nat.add_sub_cancel_left, hsingle]
    rfl

theorem deserializeFooterRecoveryMetadata_le {buffer : Bytes} {space n : Nat}
    (hspace : space < 2 ^ 32) {m : RecoveryMetadata}
    (h : deserializeFooterRecoveryMetadata buffer space = some (m, n)) : n ≤ space := by
  unfold deserializeFooterRecoveryMetadata at h
  obtain ⟨⟨sumCountM1, sumBytes⟩, hsum, h⟩ := Option.bind_eq_some_iff.mp h
  obtain ⟨⟨columnStart, numBytes⟩, hnum, h⟩ := Option.bind_eq_some_iff.mp h
  have hsumLe := deserializeFooterPacketCount_le hsum
  have hafterSum := unsignedSub_eq hsumLe hspace
  rw [hafterSum] at hnum h
  have hnumLe := deserializeFooterPacketNum_le hnum
  have hafterNum := unsignedSub_eq hnumLe (Nat.lt_of_le_of_lt (Nat.sub_le _ _) hspace)
  simp only at h
  rw [hafterNum] at h
  split at h
  · cases h
    rw [unsignedSub_eq (by omega) hspace]
    omega
  · obtain ⟨⟨ldpcCount, ldpcBytes⟩, hldpc, h⟩ := Option.bind_eq_some_iff.mp h
    have hldpcLe := deserializeFooterPacketCount_le hldpc
    have hafterLdpc := unsignedSub_eq hldpcLe (show space - sumBytes - numBytes < 2 ^ 32 by omega)
    simp only at h
    rw [hafterLdpc] at h
    split at h
    · cases h
    · split at h
      · cases h
        rw [unsignedSub_eq (by omega) hspace]
        omega
      · cases h

/-- What the footer says comes back, up to what a sum of one packet leaves out, and no footer reaches
further than the buffer does. -/
theorem recovery_footer_round_trip :
    (∀ (m : RecoveryMetadata) (payload : Bytes), m.Writable →
      (payload ++ serializeFooterRecoveryMetadata m).length <
        2 ^ 31 + (serializeFooterPacketCount (m.sumCount - 1)).length →
      deserializeFooterRecoveryMetadata (payload ++ serializeFooterRecoveryMetadata m)
          (payload ++ serializeFooterRecoveryMetadata m).length =
        some (m.transmitted, (serializeFooterRecoveryMetadata m).length)) ∧
    ∀ (buffer : Bytes) (m : RecoveryMetadata) (n : Nat), buffer.length < 2 ^ 32 →
      deserializeFooterRecoveryMetadata buffer buffer.length = some (m, n) → n ≤ buffer.length :=
  ⟨fun _ payload h hint => deserializeFooterRecoveryMetadata_serialize h payload hint,
    fun _ _ _ hlength h => deserializeFooterRecoveryMetadata_le hlength h⟩

/-- A Siamese row over 300 packets that starts close to the end of the column period. -/
theorem recovery_footer_round_trip_wideSum :
    deserializeFooterRecoveryMetadata
        ([1, 2, 3] ++ serializeFooterRecoveryMetadata ⟨7, 4194300, 300, 40⟩)
        ([1, 2, 3] ++ serializeFooterRecoveryMetadata ⟨7, 4194300, 300, 40⟩).length =
      some (⟨7, 4194300, 300, 40⟩, 7) ∧
    ∀ m n, deserializeFooterRecoveryMetadata [7, 0xff] 2 = some (m, n) → n ≤ 2 :=
  ⟨recovery_footer_round_trip.1 ⟨7, 4194300, 300, 40⟩ [1, 2, 3]
      ⟨by decide, by decide, by decide, by decide, by decide⟩ (by decide),
    fun m n h => recovery_footer_round_trip.2 [7, 0xff] m n (by decide) h⟩

/-- Behind a payload of 2 GiB the space left for the packet number is negative as an int. -/
theorem deserializeFooterRecoveryMetadata_int {payload : Bytes} (h : payload.length = 2 ^ 31) :
    deserializeFooterRecoveryMetadata (payload ++ serializeFooterRecoveryMetadata ⟨0, 0, 1, 1⟩)
      (payload ++ serializeFooterRecoveryMetadata ⟨0, 0, 1, 1⟩).length = none := by
  have hfooter : serializeFooterRecoveryMetadata ⟨0, 0, 1, 1⟩ = [0, 0] := rfl
  have hcount := deserializeFooterPacketCount_serialize (show 0 < 2 ^ 15 by decide)
    (payload ++ [0, 0]) (payload ++ [0]) [] (by simp [serializeFooterPacketCount])
  have hlength : (payload ++ [0] ++ serializeFooterPacketCount 0).length = 2 ^ 31 + 2 := by
    rw [List.length_append, List.length_append, h]
    rfl
  have hnum : deserializeFooterPacketNum (payload ++ [0, 0])
      (unsignedSub (2 ^ 31 + 2) (serializeFooterPacketCount 0).length) = none :=
    if_pos (by decide)
  rw [hlength] at hcount
  rw [hfooter, List.length_append, h]
  unfold deserializeFooterRecoveryMetadata
  rw [show 2 ^ 31 + [(0 : UInt8), 0].length = 2 ^ 31 + 2 from rfl, hcount]
  simp only [Option.bind_eq_bind, Option.bind_some]
  rw [hnum]
  rfl

/-- The row of a sum of one packet is not sent, and a payload of 2 GiB is too long for an int. -/
theorem recovery_footer_not_returned :
    (⟨5, 0, 1, 1⟩ : RecoveryMetadata).Writable ∧
    deserializeFooterRecoveryMetadata (serializeFooterRecoveryMetadata ⟨5, 0, 1, 1⟩)
        (serializeFooterRecoveryMetadata ⟨5, 0, 1, 1⟩).length ≠
      some (⟨5, 0, 1, 1⟩, (serializeFooterRecoveryMetadata ⟨5, 0, 1, 1⟩).length) ∧
    (⟨0, 0, 1, 1⟩ : RecoveryMetadata).Writable ∧
    ∃ payload : Bytes, deserializeFooterRecoveryMetadata
      (payload ++ serializeFooterRecoveryMetadata ⟨0, 0, 1, 1⟩)
      (payload ++ serializeFooterRecoveryMetadata ⟨0, 0, 1, 1⟩).length = none :=
  ⟨⟨by decide, by decide, by decide, by decide, by decide⟩, by decide,
    ⟨by decide, by decide, by decide, by decide, by decide⟩,
    List.replicate (2 ^ 31) 0, deserializeFooterRecoveryMetadata_int List.length_replicate⟩

end Tonk.Siamese
