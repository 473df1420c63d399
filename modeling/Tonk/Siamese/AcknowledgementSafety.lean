import Tonk.Siamese.RetransmitRuns

/-!
Acknowledge and Retransmit with every access they make: the bytes of the message, of its copy and of
the guard behind the copy, and the elements of the window. For any message the loops come to their
end, no access is out of range, and the results are those of the unchecked functions.
-/

set_option autoImplicit false

namespace Tonk.Siamese
open Protocol Serial

/-- A byte outside the buffer that is read, an element not below Count, a copy that is longer than
what was allocated for it, or a loop that has not ended. -/
inductive Fault where
  | byte (i : Nat)
  | element (element : Nat)
  | copy (bytes : Nat)
  | unfinished
  deriving DecidableEq, Repr

/-- Not by `rfl`: comparing loops, the kernel would count down their bounds. -/
theorem ok_bind {α β : Type} (a : α) (f : α → Except Fault β) : (Except.ok a >>= f) = f a :=
  pure_bind a f

def readByte (buffer : Bytes) (i : Nat) : Except Fault Nat :=
  if i < buffer.length then .ok (byteAt buffer i) else .error (.byte i)

theorem readByte_eq {buffer : Bytes} {i : Nat} (h : i < buffer.length) :
    readByte buffer i = .ok (byteAt buffer i) := if_pos h

theorem byteAt_drop (buffer : Bytes) (offset i : Nat) :
    byteAt (buffer.drop offset) i = byteAt buffer (offset + i) := by
  simp [byteAt, List.getD_eq_getElem?_getD]

def readHeaderPacketNum (buffer : Bytes) : Except Fault (Option (Nat × Nat)) := do
  let bufferSpaceBytes := signed 32 buffer.length
  if bufferSpaceBytes < 1 then return none
  else
    let byte0 ← readByte buffer 0
    let byteCount := byte0 >>> 6
    if byteCount ≤ 1 then return some (byte0, 1)
    else if bufferSpaceBytes < byteCount then return none
    else
      let byte1 ← readByte buffer 1
      if byteCount = 2 then return some ((byte0 <<< 8 ||| byte1) &&& 0x3fff, byteCount)
      else
        let byte2 ← readByte buffer 2
        return some ((byte0 <<< 16 ||| byte1 <<< 8 ||| byte2) &&& 0x3fffff, byteCount)

def readLossOffset (buffer : Bytes) (offset : Nat) : Except Fault (Nat × Nat) := do
  let byte0 ← readByte buffer offset
  let relativeStart := byte0 >>> 3
  if byte0 &&& 4 ≠ 0 then
    let byte1 ← readByte buffer (offset + 1)
    let relativeStart := relativeStart ||| (byte1 &&& 0x7f) <<< 5
    if byte1 &&& 0x80 ≠ 0 then
      let byte2 ← readByte buffer (offset + 2)
      let relativeStart := relativeStart ||| (byte2 &&& 0x7f) <<< (5 + 7)
      if byte2 &&& 0x80 ≠ 0 then
        let byte3 ← readByte buffer (offset + 3)
        return (relativeStart ||| byte3 <<< (5 + 7 + 7), 4)
      else return (relativeStart, 3)
    else return (relativeStart, 2)
  else return (relativeStart, 1)

def readLossCount (buffer : Bytes) (offset : Nat) : Except Fault (Nat × Nat) := do
  let byte1 ← readByte buffer offset
  let lossCountM1 := byte1 &&& 0x7f
  if byte1 &&& 0x80 ≠ 0 then
    let byte2 ← readByte buffer (offset + 1)
    let lossCountM1 := lossCountM1 + (byte2 &&& 0x7f) <<< 7
    if byte2 &&& 0x80 ≠ 0 then
      let byte3 ← readByte buffer (offset + 2)
      return (lossCountM1 + byte3 <<< (7 + 7), 3)
    else return (lossCountM1, 2)
  else return (lossCountM1, 1)

def readLossRange (buffer : Bytes) (offset bufferSpaceBytes : Nat) :
    Except Fault (Option LossRange) := do
  if bufferSpaceBytes < kMaxLossRangeFieldBytes then return none
  else
    let byte0 ← readByte buffer offset
    let (relativeStart, byteCount) ← readLossOffset buffer offset
    if byte0 &&& 3 = 3 then
      let (more, countBytes) ← readLossCount buffer (offset + byteCount)
      return some ⟨relativeStart, (byte0 &&& 3) + more, byteCount + countBytes⟩
    else return some ⟨relativeStart, byte0 &&& 3, byteCount⟩

theorem signed_of_lt {n : Nat} (h : n < 2 ^ 31) : signed 32 n = n := by
  rw [signed]
  split <;> omega

theorem signed_of_le {n : Nat} (h : 2 ^ 31 ≤ n) (hlt : n < 2 ^ 32) : signed 32 n < 0 := by
  rw [signed]
  split <;> omega

theorem readHeaderPacketNum_eq {buffer : Bytes} (h : buffer.length < 2 ^ 31) :
    readHeaderPacketNum buffer = .ok (deserializeHeaderPacketNum buffer) := by
  unfold readHeaderPacketNum deserializeHeaderPacketNum
  simp only [signed_of_lt h]
  by_cases hempty : buffer.length < 1
  · rw [if_pos (by omega), if_pos hempty]
    rfl
  · rw [if_neg (by omega), if_neg hempty, readByte_eq (show 0 < buffer.length by omega)]
    simp only [bind, Except.bind]
    split
    · rfl
    · by_cases hshort : buffer.length < byteAt buffer 0 >>> 6
      · rw [if_pos (by omega), if_pos hshort]
        rfl
      · rw [if_neg (by omega), if_neg hshort, readByte_eq (show 1 < buffer.length by omega)]
        simp only
        split
        · rfl
        · rw [readByte_eq (show 2 < buffer.length by omega)]
          rfl

theorem readHeaderPacketNum_long {buffer : Bytes} (h : 2 ^ 31 ≤ buffer.length)
    (hlt : buffer.length < 2 ^ 32) : readHeaderPacketNum buffer = .ok none := by
  have hneg := signed_of_le h hlt
  unfold readHeaderPacketNum
  simp only
  rw [if_pos (by omega)]
  rfl

theorem readLossOffset_eq {buffer : Bytes} {offset : Nat} (h : offset + 4 ≤ buffer.length) :
    readLossOffset buffer offset = .ok (deserializeLossOffset (buffer.drop offset)) := by
  unfold readLossOffset deserializeLossOffset
  simp only [byteAt_drop, readByte_eq (show offset < buffer.length by omega),
    readByte_eq (show offset + 1 < buffer.length by omega),
    readByte_eq (show offset + 2 < buffer.length by omega),
    readByte_eq (show offset + 3 < buffer.length by omega), bind, Except.bind, pure, Except.pure,
    Nat.add_zero]
  split
  · split
    · split <;> rfl
    · rfl
  · rfl

theorem readLossCount_eq {buffer : Bytes} {offset : Nat} (h : offset + 3 ≤ buffer.length) :
    readLossCount buffer offset = .ok (deserializeLossCount (buffer.drop offset)) := by
  unfold readLossCount deserializeLossCount
  simp only [byteAt_drop, readByte_eq (show offset < buffer.length by omega),
    readByte_eq (show offset + 1 < buffer.length by omega),
    readByte_eq (show offset + 2 < buffer.length by omega), bind, Except.bind, pure, Except.pure,
    Nat.add_zero]
  split
  · split <;> rfl
  · rfl

theorem deserializeLossOffset_bytes (buffer : Bytes) :
    1 ≤ (deserializeLossOffset buffer).2 ∧ (deserializeLossOffset buffer).2 ≤ 4 := by
  unfold deserializeLossOffset
  simp only
  split
  · split
    · split <;> simp
    · simp
  · simp

theorem readLossRange_eq {buffer : Bytes} {offset : Nat} (h : offset ≤ buffer.length) :
    readLossRange buffer offset (buffer.length - offset) =
      .ok (deserializeHeaderNACKLossRange (buffer.drop offset)) := by
  unfold readLossRange deserializeHeaderNACKLossRange
  rw [List.length_drop]
  by_cases hspace : buffer.length - offset < kMaxLossRangeFieldBytes
  · rw [if_pos hspace, if_pos hspace]
    rfl
  · rw [if_neg hspace, if_neg hspace]
    simp only [kMaxLossRangeFieldBytes] at hspace
    have hbytes := (deserializeLossOffset_bytes (buffer.drop offset)).2
    have hcount := readLossCount_eq
      (show offset + (deserializeLossOffset (buffer.drop offset)).2 + 3 ≤ buffer.length by omega)
    simp only [byteAt_drop, readByte_eq (show offset < buffer.length by omega),
      readLossOffset_eq (show offset + 4 ≤ buffer.length by omega), hcount, bind, Except.bind, pure,
      Except.pure, Nat.add_zero, List.drop_drop]
    split <;> rfl

theorem deserializeHeaderNACKLossRange_bounds {buffer : Bytes} {range : LossRange}
    (h : deserializeHeaderNACKLossRange buffer = some range) :
    1 ≤ range.bytes ∧ range.lossCountM1 + 1 < 2 ^ 23 := by
  have hbyte : ∀ buffer : Bytes, ∀ i, byteAt buffer i < 256 := fun buffer i => UInt8.toNat_lt _
  have hcount : ∀ buffer : Bytes, (deserializeLossCount buffer).1 < 2 ^ 22 := by
    intro buffer
    have h₀ := hbyte buffer 0
    have h₁ := hbyte buffer 1
    have h₂ := hbyte buffer 2
    unfold deserializeLossCount
    simp only [and_0x7f, Nat.shiftLeft_eq]
    split
    · split
      · simp only
        omega
      · simp only
        omega
    · simp only
      omega
  have hoffset := (deserializeLossOffset_bytes buffer).1
  unfold deserializeHeaderNACKLossRange at h
  split at h
  · exact absurd h (by simp)
  · simp only [and_three] at h
    split at h
    · have hmore := hcount (buffer.drop (deserializeLossOffset buffer).2)
      cases h
      exact ⟨by simp only; omega, by simp only; omega⟩
    · cases h
      exact ⟨hoffset, by simp only; omega⟩

/-- The time an element was sent, behind GetWindowElementTimestampPtr. -/
def EncoderPacketWindow.readSendMsec (w : EncoderPacketWindow) (element : Nat) : Except Fault Nat :=
  if element < w.count then .ok (w.lastSendMsec element) else .error (.element element)

theorem EncoderPacketWindow.readSendMsec_eq {w : EncoderPacketWindow} {element : Nat}
    (h : element < w.count) : w.readSendMsec element = .ok (w.lastSendMsec element) := if_pos h

namespace EncoderAcknowledgementState

def copied (s : EncoderAcknowledgementState) : Bytes := s.data ++ padding

def checkedDecodeNextRange (s : EncoderAcknowledgementState) :
    Except Fault (EncoderAcknowledgementState × Bool) := do
  if s.data.length ≤ s.offset then return (s, false)
  else
    let space := unsignedSub ((s.data.length + kPaddingBytes) % 2 ^ 32) s.offset
    match ← readLossRange s.copied s.offset space with
    | none => return (s, false)
    | some range =>
      let s := { s with offset := s.offset + range.bytes }
      if s.data.length < s.offset then return (s, false)
      else
        return ({ s with
          lossColumn := addColumns s.lossColumn range.relativeStart
          lossCount := range.lossCountM1 + 1 }, true)

def checkedGetNextLossColumn (s : EncoderAcknowledgementState) :
    Except Fault (EncoderAcknowledgementState × Option Nat) := do
  if s.lossCount ≤ 0 then
    match ← { s with lossColumn := incrementColumn1 s.lossColumn }.checkedDecodeNextRange with
    | (s, false) => return (s, none)
    | (s, true) => return s.takeLossColumn
  else return s.takeLossColumn

def checkedRestartLossIterator (s : EncoderAcknowledgementState) :
    Except Fault EncoderAcknowledgementState := do
  let (s, _) ← { s with
    offset := 0, lossColumn := s.nextColumnExpected, lossCount := 0 }.checkedDecodeNextRange
  return s

def checkedAckDelayMsec (w : EncoderPacketWindow) (nowMsec longestAckDelayMsec element : Nat) :
    Except Fault Nat := do
  let sendMsec ← w.readSendMsec element
  let delayMsec := signed 32 (sub 32 nowMsec sendMsec)
  if (longestAckDelayMsec : Int) < delayMsec ∧ 0 < delayMsec then return delayMsec.toNat
  else return longestAckDelayMsec

def checkedScanRollup (w : EncoderPacketWindow) (nowMsec : Nat) :
    Nat → Nat → Nat → Except Fault (Nat × Nat)
  | 0, element, longestAckDelayMsec => return (element, longestAckDelayMsec)
  | n + 1, element, longestAckDelayMsec => do
    let longest ← checkedAckDelayMsec w nowMsec longestAckDelayMsec element
    checkedScanRollup w nowMsec n (element + 1) longest

def checkedScanAcknowledged (w : EncoderPacketWindow) (nowMsec : Nat) :
    Nat → Nat → Nat → Except Fault (Option (Nat × Nat))
  | 0, element, longestAckDelayMsec => return some (element, longestAckDelayMsec)
  | n + 1, element, longestAckDelayMsec => do
    if w.count ≤ element then return none
    else
      let longest ← checkedAckDelayMsec w nowMsec longestAckDelayMsec element
      checkedScanAcknowledged w nowMsec n (element + 1) longest

def checkedScanLossRanges (w : EncoderPacketWindow) (nowMsec : Nat) (buffer : Bytes) :
    Nat → Nat → Nat → Nat → Nat → Nat → Except Fault RTOScan
  | 0, _, remaining, element, _, longestAckDelayMsec =>
    if remaining ≤ 0 then .ok ⟨[], some (element, longestAckDelayMsec)⟩ else .error .unfinished
  | fuel + 1, offset, remaining, element, firstLoss, longestAckDelayMsec => do
    if remaining ≤ 0 then return ⟨[], some (element, longestAckDelayMsec)⟩
    else
      match ← readLossRange buffer offset ((remaining + kPaddingBytes) % 2 ^ 32) with
      | none => return ⟨[], none⟩
      | some range =>
        if signed 32 remaining < range.bytes then return ⟨[], none⟩
        else
          let element := if element + 1 < firstLoss then firstLoss - 1 else element
          let firstLoss := (firstLoss + range.relativeStart) % 2 ^ 32
          let walked := (firstLoss, range.lossCountM1 + 1)
          match ← checkedScanAcknowledged w nowMsec (firstLoss - element) element
              longestAckDelayMsec with
          | none => return ⟨[walked], none⟩
          | some (element, longestAckDelayMsec) =>
            let rest ← checkedScanLossRanges w nowMsec buffer fuel (offset + range.bytes)
              (remaining - range.bytes) element
              ((firstLoss + (range.lossCountM1 + 2)) % 2 ^ 32) longestAckDelayMsec
            return ⟨walked :: rest.ranges, rest.result⟩

def checkedUpdateRTO (s : EncoderAcknowledgementState) (w : EncoderPacketWindow) (nowMsec : Nat) :
    Except Fault RTOScan := do
  let firstLoss := w.columnToElement s.nextColumnExpected
  if w.count ≤ firstLoss then return ⟨[], none⟩
  else
    let element := w.columnToElement s.nextRTOColumn
    let element := if w.count ≤ element then w.firstUnremovedElement else element
    let (element, longestAckDelayMsec) ←
      checkedScanRollup w nowMsec (firstLoss - element) element 0
    checkedScanLossRanges w nowMsec s.copied s.data.length 0 s.data.length element firstLoss
      longestAckDelayMsec

def checkedTakeLossRanges (s : EncoderAcknowledgementState) (w : EncoderPacketWindow)
    (nowMsec : Nat) : Except Fault Outcome := do
  let (s, decoded) ← (if 0 < s.data.length then s.checkedDecodeNextRange else .ok (s, true))
  if decoded then
    let scan ← s.checkedUpdateRTO w nowMsec
    let nextRTOColumn := match scan.result with
      | none => s.nextRTOColumn
      | some (element, _) => w.elementToColumn element
    return ⟨{ s with nextRTOColumn := nextRTOColumn }, w.removeBefore s.nextColumnExpected,
      some scan, true⟩
  else return ⟨s, w, none, false⟩

/-- The ranges are copied into a buffer whose size is an unsigned. -/
def checkedOnAcknowledgementData (s : EncoderAcknowledgementState) (w : EncoderPacketWindow)
    (nowMsec : Nat) (data : Bytes) : Except Fault Outcome := do
  match ← readHeaderPacketNum data with
  | none => return ⟨s, w, none, false⟩
  | some (nextColumnExpected, headerBytes) =>
    let data := data.drop headerBytes
    if isColumnDeltaNegative (subtractColumns nextColumnExpected s.nextColumnExpected) then
      return ⟨s, w, none, true⟩
    else if s.nextColumnExpected = nextColumnExpected ∧ s.hasData ∧ data = s.data then
      return ⟨s, w, none, true⟩
    else if (data.length + kPaddingBytes) % 2 ^ 32 < data.length + kPaddingBytes then
      .error (.copy data.length)
    else
      let s := { s with
        nextColumnExpected := nextColumnExpected
        offset := 0
        lossColumn := nextColumnExpected
        lossCount := 0
        data := data
        hasData := s.hasData || 0 < data.length }
      s.checkedTakeLossRanges w nowMsec

theorem length_copied (s : EncoderAcknowledgementState) :
    s.copied.length = s.data.length + kPaddingBytes := by
  simp [copied, padding]

theorem checkedDecodeNextRange_eq {s : EncoderAcknowledgementState}
    (hsmall : s.data.length < 2 ^ 31) : s.checkedDecodeNextRange = .ok s.decodeNextRange := by
  unfold checkedDecodeNextRange decodeNextRange
  split
  · rfl
  · next hmore =>
    have hlength := s.length_copied
    have hspace : unsignedSub ((s.data.length + kPaddingBytes) % 2 ^ 32) s.offset =
        s.copied.length - s.offset := by
      rw [hlength, Nat.mod_eq_of_lt (by simp only [kPaddingBytes]; omega)]
      exact unsignedSub_eq (by omega) (by simp only [kPaddingBytes]; omega)
    have hread : readLossRange s.copied s.offset (s.copied.length - s.offset) =
        .ok (deserializeHeaderNACKLossRange ((s.data ++ padding).drop s.offset)) :=
      readLossRange_eq (by omega)
    simp only [hspace, hread, bind, Except.bind]
    cases deserializeHeaderNACKLossRange ((s.data ++ padding).drop s.offset) with
    | none => rfl
    | some range =>
      simp only
      split <;> rfl

theorem checkedGetNextLossColumn_eq {s : EncoderAcknowledgementState}
    (hsmall : s.data.length < 2 ^ 31) : s.checkedGetNextLossColumn = .ok s.getNextLossColumn := by
  unfold checkedGetNextLossColumn getNextLossColumn
  split
  · rw [checkedDecodeNextRange_eq (s := { s with lossColumn := incrementColumn1 s.lossColumn })
      hsmall]
    generalize { s with lossColumn := incrementColumn1 s.lossColumn }.decodeNextRange = decoded
    obtain ⟨s', ok⟩ := decoded
    cases ok <;> rfl
  · rfl

theorem checkedRestartLossIterator_eq {s : EncoderAcknowledgementState}
    (hsmall : s.data.length < 2 ^ 31) :
    s.checkedRestartLossIterator = .ok s.restartLossIterator := by
  unfold checkedRestartLossIterator
  rw [checkedDecodeNextRange_eq (s := { s with
    offset := 0, lossColumn := s.nextColumnExpected, lossCount := 0 }) hsmall]
  rfl

variable {w : EncoderPacketWindow} {nowMsec : Nat}

theorem checkedAckDelayMsec_eq {element : Nat} (h : element < w.count) (longestAckDelayMsec : Nat) :
    checkedAckDelayMsec w nowMsec longestAckDelayMsec element =
      .ok (ackDelayMsec w nowMsec longestAckDelayMsec element) := by
  unfold checkedAckDelayMsec ackDelayMsec
  rw [EncoderPacketWindow.readSendMsec_eq h]
  simp only [bind, Except.bind]
  split <;> rfl

theorem checkedScanRollup_eq {n element : Nat} (h : n = 0 ∨ element + n ≤ w.count)
    (longestAckDelayMsec : Nat) : checkedScanRollup w nowMsec n element longestAckDelayMsec =
      .ok (scanRollup w nowMsec n element longestAckDelayMsec) := by
  induction n generalizing element longestAckDelayMsec with
  | zero => rfl
  | succ n ih =>
    rw [checkedScanRollup, checkedAckDelayMsec_eq (by omega)]
    exact ih (by omega) _

theorem checkedScanAcknowledged_eq (n element longestAckDelayMsec : Nat) :
    checkedScanAcknowledged w nowMsec n element longestAckDelayMsec =
      .ok (scanAcknowledged w nowMsec n element longestAckDelayMsec) := by
  induction n generalizing element longestAckDelayMsec with
  | zero => rfl
  | succ n ih =>
    rw [checkedScanAcknowledged, scanAcknowledged]
    split
    · rfl
    · next hin =>
      rw [checkedAckDelayMsec_eq (Nat.lt_of_not_le hin)]
      exact ih _ _

theorem checkedScanLossRanges_eq {data : Bytes} (hsmall : data.length < 2 ^ 31)
    {fuel offset remaining : Nat} (hplace : offset + remaining = data.length)
    (hfuel : remaining ≤ fuel) (element firstLoss longestAckDelayMsec : Nat) :
    checkedScanLossRanges w nowMsec (data ++ padding) fuel offset remaining element firstLoss
        longestAckDelayMsec =
      .ok (scanLossRanges w nowMsec fuel (data.drop offset) element firstLoss
        longestAckDelayMsec) := by
  induction fuel generalizing offset remaining element firstLoss longestAckDelayMsec with
  | zero =>
    rw [checkedScanLossRanges, if_pos hfuel]
    rfl
  | succ fuel ih =>
    have hlength : (data.drop offset).length = remaining := by
      rw [List.length_drop]
      omega
    have hbuffer : (data ++ padding).length = data.length + kPaddingBytes := by simp [padding]
    have hread : readLossRange (data ++ padding) offset ((remaining + kPaddingBytes) % 2 ^ 32) =
        .ok (deserializeHeaderNACKLossRange (data.drop offset ++ padding)) := by
      rw [← List.drop_append_of_le_length (by omega), ← readLossRange_eq (by omega), hbuffer,
        Nat.mod_eq_of_lt (by simp only [kPaddingBytes]; omega)]
      congr 1
      omega
    rw [checkedScanLossRanges, scanLossRanges, hlength, hread]
    split
    · rfl
    · next hmore =>
      cases hrange : deserializeHeaderNACKLossRange (data.drop offset ++ padding) with
      | none => rfl
      | some range =>
        have hpos := (deserializeHeaderNACKLossRange_bounds hrange).1
        simp only [bind, Except.bind, signed_of_lt (show remaining < 2 ^ 31 by omega)]
        by_cases hlong : remaining < range.bytes
        · rw [if_pos (by omega), if_pos hlong]
          rfl
        · rw [if_neg (by omega), if_neg hlong, checkedScanAcknowledged_eq]
          simp only
          generalize (if element + 1 < firstLoss then firstLoss - 1 else element) = rolled
          cases scanAcknowledged w nowMsec ((firstLoss + range.relativeStart) % 2 ^ 32 - rolled)
              rolled longestAckDelayMsec with
          | none => rfl
          | some reached =>
            simp only
            rw [ih (by omega) (by omega), ← List.drop_drop]
            rfl

theorem checkedUpdateRTO_eq {s : EncoderAcknowledgementState} (hsmall : s.data.length < 2 ^ 31) :
    s.checkedUpdateRTO w nowMsec = .ok (s.updateRTO w nowMsec) := by
  unfold checkedUpdateRTO updateRTO
  simp only
  split
  · rfl
  · rw [checkedScanRollup_eq (by omega)]
    exact checkedScanLossRanges_eq hsmall (Nat.zero_add _) (Nat.le_refl _) _ _ _

theorem checkedTakeLossRanges_eq {s : EncoderAcknowledgementState}
    (hsmall : s.data.length < 2 ^ 31) :
    s.checkedTakeLossRanges w nowMsec = .ok (s.takeLossRanges w nowMsec) := by
  have hdecode : (if 0 < s.data.length then s.checkedDecodeNextRange else .ok (s, true)) =
      .ok (if 0 < s.data.length then s.decodeNextRange else (s, true)) := by
    split
    · exact checkedDecodeNextRange_eq hsmall
    · rfl
  have hkept : (if 0 < s.data.length then s.decodeNextRange else (s, true)).1.data = s.data := by
    split
    · exact s.decodeNextRange_keeps.1
    · rfl
  unfold checkedTakeLossRanges takeLossRanges
  rw [hdecode]
  generalize (if 0 < s.data.length then s.decodeNextRange else (s, true)) = decoded at hkept
  obtain ⟨s', ok⟩ := decoded
  simp only [bind, Except.bind]
  split
  · rw [checkedUpdateRTO_eq (hkept ▸ hsmall)]
    rfl
  · rfl

theorem checkedOnAcknowledgementData_eq (s : EncoderAcknowledgementState) {data : Bytes}
    (hlt : data.length < 2 ^ 31) : s.checkedOnAcknowledgementData w nowMsec data =
      .ok (s.onAcknowledgementData w nowMsec data) := by
  unfold checkedOnAcknowledgementData onAcknowledgementData
  rw [readHeaderPacketNum_eq hlt]
  cases deserializeHeaderPacketNum data with
  | none => rfl
  | some header =>
    obtain ⟨nextColumnExpected, headerBytes⟩ := header
    have hshort : (data.drop headerBytes).length < 2 ^ 31 := by
      rw [List.length_drop]
      omega
    simp only [bind, Except.bind]
    split
    · rfl
    · split
      · rfl
      · rw [if_neg (by rw [Nat.mod_eq_of_lt (by simp only [kPaddingBytes]; omega)]; omega)]
        exact checkedTakeLossRanges_eq hshort

theorem checkedOnAcknowledgementData_long (s : EncoderAcknowledgementState) {data : Bytes}
    (h : 2 ^ 31 ≤ data.length) (hlt : data.length < 2 ^ 32) :
    s.checkedOnAcknowledgementData w nowMsec data = .ok ⟨s, w, none, false⟩ := by
  unfold checkedOnAcknowledgementData
  rw [readHeaderPacketNum_long h hlt]
  rfl

end EncoderAcknowledgementState

namespace EncoderAcknowledgementState

def pendingLosses (s : EncoderAcknowledgementState) : Nat :=
  s.lossCount + (s.data.length - s.offset) * 2 ^ 23

theorem decodeNextRange_pendingLosses (s : EncoderAcknowledgementState) :
    s.decodeNextRange.2 = true →
      0 < s.decodeNextRange.1.lossCount ∧
        s.decodeNextRange.1.pendingLosses ≤ (s.data.length - s.offset) * 2 ^ 23 := by
  unfold decodeNextRange
  split
  · exact fun hok => absurd hok Bool.false_ne_true
  · cases hrange : deserializeHeaderNACKLossRange ((s.data ++ padding).drop s.offset) with
    | none => exact fun hok => absurd hok Bool.false_ne_true
    | some range =>
      obtain ⟨hpos, hcount⟩ := deserializeHeaderNACKLossRange_bounds hrange
      simp only
      split
      · exact fun hok => absurd hok Bool.false_ne_true
      · refine fun _ => ⟨Nat.succ_pos _, ?_⟩
        simp only [pendingLosses]
        omega

theorem decodeNextRange_pendingLosses_le (s : EncoderAcknowledgementState) :
    s.decodeNextRange.1.pendingLosses ≤ s.pendingLosses := by
  cases hok : s.decodeNextRange.2 with
  | true =>
    have hle := (s.decodeNextRange_pendingLosses hok).2
    exact hle.trans (Nat.le_add_left _ _)
  | false =>
    unfold decodeNextRange at hok ⊢
    split at hok
    · next hend =>
      rw [if_pos hend]
    · next hmore =>
      rw [if_neg hmore]
      generalize deserializeHeaderNACKLossRange ((s.data ++ padding).drop s.offset) = read at hok ⊢
      cases read with
      | none => exact Nat.le_refl _
      | some range =>
        simp only at hok ⊢
        by_cases hlong : s.data.length < s.offset + range.bytes
        · rw [if_pos hlong]
          simp only [pendingLosses]
          omega
        · rw [if_neg hlong] at hok
          exact absurd hok (by simp)

theorem getNextLossColumn_pendingLosses {s : EncoderAcknowledgementState} {column : Nat}
    (h : s.getNextLossColumn.2 = some column) :
    s.getNextLossColumn.1.pendingLosses < s.pendingLosses := by
  unfold getNextLossColumn at h ⊢
  split at h
  · next hnone =>
    rw [if_pos hnone]
    have hdecode := decodeNextRange_pendingLosses { s with lossColumn := incrementColumn1 s.lossColumn }
    generalize { s with lossColumn := incrementColumn1 s.lossColumn }.decodeNextRange = decoded
      at h hdecode
    obtain ⟨s', ok⟩ := decoded
    cases ok with
    | false => exact absurd h (by simp)
    | true =>
      obtain ⟨hpos, hle⟩ := hdecode rfl
      simp only [takeLossColumn, pendingLosses] at hpos hle ⊢
      omega
  · next hsome =>
    rw [if_neg hsome]
    simp only [takeLossColumn, pendingLosses]
    omega

theorem restartLossIterator_pendingLosses (s : EncoderAcknowledgementState) :
    s.restartLossIterator.pendingLosses < s.lossCalls := by
  have hdecode := decodeNextRange_pendingLosses_le { s with
    offset := 0, lossColumn := s.nextColumnExpected, lossCount := 0 }
  simp only [pendingLosses, Nat.zero_add, Nat.sub_zero] at hdecode ⊢
  exact Nat.lt_succ_of_le hdecode

end EncoderAcknowledgementState

namespace RetransmitSearch

def checkedLook (w : EncoderPacketWindow) (nowMsec retransmitMsec : Nat)
    (search : RetransmitSearch) (element : Nat) : Except Fault RetransmitSearch := do
  let lastSendMsec ← w.readSendMsec element
  if retransmitMsec ≤ unsignedSub nowMsec lastSendMsec then
    return { search with sent := some element }
  else if 0 < signed 32 (unsignedSub search.oldestSendMsec lastSendMsec) then
    return { search with oldestElement := element, oldestSendMsec := lastSendMsec }
  else return search

def checkedNackLoop (w : EncoderPacketWindow) (nowMsec retransmitMsec : Nat) :
    Nat → EncoderAcknowledgementState → RetransmitSearch →
      Except Fault (EncoderAcknowledgementState × RetransmitSearch)
  | 0, _, _ => .error .unfinished
  | calls + 1, ack, search => do
    match ← ack.checkedGetNextLossColumn with
    | (ack, none) => return (ack, search)
    | (ack, some column) =>
      let nackElement := w.columnToElement column
      let search := { search with nackElement := nackElement }
      if w.count ≤ nackElement then return (ack, search)
      else
        let search ← search.checkedLook w nowMsec retransmitMsec nackElement
        if search.sent.isSome then return (ack, search)
        else checkedNackLoop w nowMsec retransmitMsec calls ack search

def checkedFlightLoop (w : EncoderPacketWindow) (nowMsec retransmitMsec : Nat) :
    Nat → Nat → RetransmitSearch → Except Fault RetransmitSearch
  | 0, _, search => return search
  | n + 1, element, search => do
    let search ← search.checkedLook w nowMsec retransmitMsec element
    if search.sent.isSome then return search
    else checkedFlightLoop w nowMsec retransmitMsec n (element + 1) search

variable {w : EncoderPacketWindow} {nowMsec retransmitMsec : Nat}

theorem checkedLook_eq (search : RetransmitSearch) {element : Nat} (h : element < w.count) :
    search.checkedLook w nowMsec retransmitMsec element =
      .ok (search.look w nowMsec retransmitMsec element) := by
  unfold checkedLook look
  rw [EncoderPacketWindow.readSendMsec_eq h]
  simp only [bind, Except.bind]
  split
  · rfl
  · split <;> rfl

theorem checkedNackLoop_eq {ack : EncoderAcknowledgementState} (hsmall : ack.data.length < 2 ^ 31)
    {calls : Nat} (hcalls : ack.pendingLosses < calls) (search : RetransmitSearch) :
    search.checkedNackLoop w nowMsec retransmitMsec calls ack =
      .ok (search.nackLoop w nowMsec retransmitMsec calls ack) := by
  induction calls generalizing ack search with
  | zero => exact absurd hcalls (Nat.not_lt_zero _)
  | succ calls ih =>
    have hkeeps := ack.getNextLossColumn_keeps
    have hfewer := @EncoderAcknowledgementState.getNextLossColumn_pendingLosses ack
    rw [checkedNackLoop, nackLoop,
      EncoderAcknowledgementState.checkedGetNextLossColumn_eq hsmall]
    generalize ack.getNextLossColumn = next at hkeeps hfewer
    obtain ⟨ack', column⟩ := next
    cases column with
    | none => rfl
    | some column =>
      have hless := hfewer rfl
      simp only [bind, Except.bind]
      split
      · rfl
      · next hin =>
        rw [checkedLook_eq _ (Nat.lt_of_not_le hin)]
        simp only
        split
        · rfl
        · exact ih (hkeeps.1 ▸ hsmall) (by simp only at hless; omega) _

theorem checkedNackLoop_restart {ack : EncoderAcknowledgementState}
    (hsmall : ack.data.length < 2 ^ 31) (search : RetransmitSearch) :
    (do
      let restarted ← ack.checkedRestartLossIterator
      search.checkedNackLoop w nowMsec retransmitMsec ack.lossCalls restarted) =
      .ok (search.nackLoop w nowMsec retransmitMsec ack.lossCalls ack.restartLossIterator) := by
  have hsmall' : ack.restartLossIterator.data.length < 2 ^ 31 := by
    rw [ack.restartLossIterator_keeps.1]
    exact hsmall
  rw [EncoderAcknowledgementState.checkedRestartLossIterator_eq hsmall, ok_bind]
  exact checkedNackLoop_eq hsmall' ack.restartLossIterator_pendingLosses search

theorem checkedFlightLoop_eq {n element : Nat} (h : n = 0 ∨ element + n ≤ w.count)
    (search : RetransmitSearch) :
    search.checkedFlightLoop w nowMsec retransmitMsec n element =
      .ok (search.flightLoop w nowMsec retransmitMsec n element) := by
  induction n generalizing element search with
  | zero => rfl
  | succ n ih =>
    rw [checkedFlightLoop, flightLoop, checkedLook_eq search (by omega)]
    simp only [bind, Except.bind]
    split
    · rfl
    · exact ih (by omega) _

end RetransmitSearch

namespace FullEncoder

def checkedAttemptRetransmit (e : FullEncoder) (nowMsec element : Nat) :
    Except Fault (FullEncoder × SiameseResult × Option OriginalPacket) :=
  if element < e.data.window.count then .ok (e.attemptRetransmit nowMsec element)
  else .error (.element element)

def checkedSearchOldest (e : FullEncoder) (nowMsec retransmitMsec firstElement : Nat) :
    Except Fault (FullEncoder × SiameseResult × Option OriginalPacket) := do
  let w := e.data.window
  let oldestSendMsec ← w.readSendMsec firstElement
  if retransmitMsec ≤ unsignedSub nowMsec oldestSendMsec then
    e.checkedAttemptRetransmit nowMsec firstElement
  else
    let search : RetransmitSearch := ⟨none, firstElement, oldestSendMsec, firstElement⟩
    let (ack, search) ← (if e.ack.hasNegativeAcknowledgements then do
        let ack ← e.ack.checkedRestartLossIterator
        search.checkedNackLoop w nowMsec retransmitMsec e.ack.lossCalls ack
      else .ok (e.ack, search))
    let e := { e with ack := ack }
    let search ← (if search.sent.isSome then .ok search else
      search.checkedFlightLoop w nowMsec retransmitMsec (w.count - (search.nackElement + 1))
        (search.nackElement + 1))
    match search.sent with
    | some element => e.checkedAttemptRetransmit nowMsec element
    | none => return ({ e with
        foundOldest := true
        oldestColumn := (e.data.getWindowElement search.oldestElement).column }, .needMoreData, none)

def checkedRetransmit (e : FullEncoder) (nowMsec retransmitMsec : Nat) :
    Except Fault (FullEncoder × SiameseResult × Option OriginalPacket) := do
  let w := e.data.window
  if e.emergencyDisabled then return (e, .disabled, none)
  else if w.getUnacknowledgedCount ≤ 0 then
    return ({ e with foundOldest := false }, .needMoreData, none)
  else
    let firstElement := subtractColumns e.ack.nextColumnExpected w.columnStart
    if isColumnDeltaNegative firstElement ∨ firstElement < w.firstUnremovedElement ∨
        w.count ≤ firstElement then return (e, .needMoreData, none)
    else
      let nowMsec := nowMsec % 2 ^ 32
      let element := subtractColumns e.oldestColumn w.columnStart
      if e.foundOldest ∧ isColumnDeltaNegative element = false ∧ firstElement ≤ element ∧
          element < w.count then
        let lastSendMsec ← w.readSendMsec element
        if unsignedSub nowMsec lastSendMsec < retransmitMsec then
          return (e, .needMoreData, none)
        else
          let e := { e with foundOldest := false }
          e.checkedAttemptRetransmit nowMsec element
      else
        let e := { e with foundOldest := false }
        e.checkedSearchOldest nowMsec retransmitMsec firstElement

def checkedAcknowledge (e : FullEncoder) (nowMsec : Nat) (data : Bytes) :
    Except Fault (FullEncoder × SiameseResult) := do
  if e.emergencyDisabled then return (e, .disabled)
  else
    let outcome ← e.ack.checkedOnAcknowledgementData e.data.window nowMsec data
    return ({ e with ack := outcome.state, data := { e.data with window := outcome.window } },
      if outcome.ok then .success else .invalidInput)

theorem checkedAttemptRetransmit_eq (e : FullEncoder) (nowMsec : Nat) {element : Nat}
    (h : element < e.data.window.count) :
    e.checkedAttemptRetransmit nowMsec element = .ok (e.attemptRetransmit nowMsec element) :=
  if_pos h

theorem checkedSearchOldest_eq {e : FullEncoder} (hsmall : e.ack.data.length < 2 ^ 31)
    (nowMsec retransmitMsec : Nat) {firstElement : Nat}
    (hfirst : firstElement < e.data.window.count) :
    e.checkedSearchOldest nowMsec retransmitMsec firstElement =
      .ok (e.searchOldest nowMsec retransmitMsec firstElement) := by
  have hstart : RetransmitSearch.Among e.data.window nowMsec retransmitMsec
      (· < e.data.window.count)
      ⟨none, firstElement, e.data.window.lastSendMsec firstElement, firstElement⟩ := ⟨nofun, hfirst⟩
  unfold checkedSearchOldest searchOldest
  simp only [EncoderPacketWindow.readSendMsec_eq hfirst, ok_bind]
  split
  · exact e.checkedAttemptRetransmit_eq nowMsec hfirst
  · -- The element that is sent was looked at, so it is in the window.
    have hnack : (if e.ack.hasNegativeAcknowledgements = true then do
          let ack ← e.ack.checkedRestartLossIterator
          RetransmitSearch.checkedNackLoop e.data.window nowMsec retransmitMsec e.ack.lossCalls ack
            ⟨none, firstElement, e.data.window.lastSendMsec firstElement, firstElement⟩
        else .ok (e.ack, ⟨none, firstElement, e.data.window.lastSendMsec firstElement,
          firstElement⟩)) =
        .ok (if e.ack.hasNegativeAcknowledgements = true then
          RetransmitSearch.nackLoop e.data.window nowMsec retransmitMsec e.ack.lossCalls
            e.ack.restartLossIterator
            ⟨none, firstElement, e.data.window.lastSendMsec firstElement, firstElement⟩
        else (e.ack, ⟨none, firstElement, e.data.window.lastSendMsec firstElement,
          firstElement⟩)) := by
      split
      · exact RetransmitSearch.checkedNackLoop_restart hsmall _
      · rfl
    have hamong : (if e.ack.hasNegativeAcknowledgements = true then
          RetransmitSearch.nackLoop e.data.window nowMsec retransmitMsec e.ack.lossCalls
            e.ack.restartLossIterator
            ⟨none, firstElement, e.data.window.lastSendMsec firstElement, firstElement⟩
        else (e.ack, ⟨none, firstElement, e.data.window.lastSendMsec firstElement,
          firstElement⟩)).2.Among e.data.window nowMsec retransmitMsec
          (· < e.data.window.count) := by
      split
      · rw [RetransmitSearch.nackLoop_eq]
        exact hstart.visit fun _ _ hin => hin
      · exact hstart
    rw [hnack, ok_bind]
    generalize (if e.ack.hasNegativeAcknowledgements = true then
        RetransmitSearch.nackLoop e.data.window nowMsec retransmitMsec e.ack.lossCalls
          e.ack.restartLossIterator
          ⟨none, firstElement, e.data.window.lastSendMsec firstElement, firstElement⟩
      else (e.ack, ⟨none, firstElement, e.data.window.lastSendMsec firstElement, firstElement⟩)) =
      searched at hamong
    obtain ⟨ack, search⟩ := searched
    simp only at hamong ⊢
    have hflight : (if search.sent.isSome = true then .ok search else
        search.checkedFlightLoop e.data.window nowMsec retransmitMsec
          (e.data.window.count - (search.nackElement + 1)) (search.nackElement + 1)) =
        .ok (if search.sent.isSome = true then search else
          search.flightLoop e.data.window nowMsec retransmitMsec
            (e.data.window.count - (search.nackElement + 1)) (search.nackElement + 1)) := by
      split
      · rfl
      · exact RetransmitSearch.checkedFlightLoop_eq (by omega) _
    have hamong' : (if search.sent.isSome = true then search else
        search.flightLoop e.data.window nowMsec retransmitMsec
          (e.data.window.count - (search.nackElement + 1)) (search.nackElement + 1)).Among
          e.data.window nowMsec retransmitMsec (· < e.data.window.count) := by
      split
      · exact hamong
      · exact hamong.flightLoop fun element hle hlt => by omega
    rw [hflight, ok_bind]
    generalize (if search.sent.isSome = true then search else
        search.flightLoop e.data.window nowMsec retransmitMsec
          (e.data.window.count - (search.nackElement + 1)) (search.nackElement + 1)) = found
      at hamong'
    cases hsent : found.sent with
    | none => rfl
    | some element =>
      exact checkedAttemptRetransmit_eq { e with ack := ack } nowMsec (hamong'.sent element hsent).1

theorem checkedRetransmit_eq {e : FullEncoder} (hsmall : e.ack.data.length < 2 ^ 31)
    (nowMsec retransmitMsec : Nat) :
    e.checkedRetransmit nowMsec retransmitMsec = .ok (e.retransmit nowMsec retransmitMsec) := by
  unfold checkedRetransmit retransmit
  simp only
  split
  · rfl
  · split
    · rfl
    · split
      · rfl
      · next hin =>
        rw [not_or, not_or] at hin
        split
        · next hfound =>
          rw [EncoderPacketWindow.readSendMsec_eq hfound.2.2.2]
          simp only [bind, Except.bind]
          split
          · rfl
          · exact checkedAttemptRetransmit_eq { e with foundOldest := false } _ hfound.2.2.2
        · exact checkedSearchOldest_eq (e := { e with foundOldest := false }) hsmall _ _
            (Nat.lt_of_not_le hin.2.2)

theorem checkedAcknowledge_eq (e : FullEncoder) (nowMsec : Nat) {data : Bytes}
    (hlt : data.length < 2 ^ 31) :
    e.checkedAcknowledge nowMsec data = .ok (e.acknowledge nowMsec data) := by
  unfold checkedAcknowledge acknowledge
  split
  · rfl
  · rw [EncoderAcknowledgementState.checkedOnAcknowledgementData_eq _ hlt]
    rfl

theorem checkedAcknowledge_long (e : FullEncoder) (nowMsec : Nat) {data : Bytes}
    (h : 2 ^ 31 ≤ data.length) (hlt : data.length < 2 ^ 32) :
    ∃ result, e.checkedAcknowledge nowMsec data = .ok (e, result) := by
  unfold checkedAcknowledge
  split
  · exact ⟨_, rfl⟩
  · rw [EncoderAcknowledgementState.checkedOnAcknowledgementData_long _ h hlt]
    exact ⟨_, rfl⟩

theorem acknowledge_data_lt {e : FullEncoder} (hsmall : e.ack.data.length < 2 ^ 31) (nowMsec : Nat)
    {data : Bytes} (hlt : data.length < 2 ^ 31) :
    (e.acknowledge nowMsec data).1.ack.data.length < 2 ^ 31 := by
  unfold acknowledge
  split
  · exact hsmall
  · simp only
    unfold EncoderAcknowledgementState.onAcknowledgementData
    cases deserializeHeaderPacketNum data with
    | none => exact hsmall
    | some header =>
      simp only
      split
      · exact hsmall
      · split
        · exact hsmall
        · rw [EncoderAcknowledgementState.takeLossRanges_data, List.length_drop]
          omega

end FullEncoder

/-- The calls of an encoder. The length of a message is an unsigned. -/
inductive CheckedCall where
  | add (nowMsec : Nat) (data : Bytes)
  | removeBefore (firstKeptColumn : Nat)
  | acknowledge (nowMsec : Nat) (data : Bytes) (bytes_lt : data.length < 2 ^ 32)
  | retransmit (nowMsec retransmitMsec : Nat)
  | encode

namespace FullEncoder

def checkedCall (e : FullEncoder) : CheckedCall → Except Fault FullEncoder
  | .add nowMsec data => .ok (e.add nowMsec data).1
  | .removeBefore firstKeptColumn => .ok (e.removeBefore firstKeptColumn)
  | .acknowledge nowMsec data _ => do
    let (e, _) ← e.checkedAcknowledge nowMsec data
    return e
  | .retransmit nowMsec retransmitMsec => do
    let (e, _, _) ← e.checkedRetransmit nowMsec retransmitMsec
    return e
  | .encode => .ok e.encode.1

def checkedRun (e : FullEncoder) (calls : List CheckedCall) : Except Fault FullEncoder :=
  calls.foldlM checkedCall e

end FullEncoder

structure CountedEncoder where
  encoder : FullEncoder
  dataBytes_lt : encoder.ack.data.length < 2 ^ 31

namespace CountedEncoder

def initial : CountedEncoder := ⟨.initial, by decide⟩

theorem retransmit_data (e : FullEncoder) (nowMsec retransmitMsec : Nat) :
    (e.retransmit nowMsec retransmitMsec).1.ack.data = e.ack.data := by
  have hany : e.Candidates fun _ => True :=
    ⟨fun _ _ _ => ⟨trivial, fun _ _ _ _ _ => trivial, fun _ _ _ _ => trivial,
      fun _ => ⟨fun _ _ _ => trivial, fun _ _ _ => trivial⟩⟩⟩
  exact (hany.retransmit nowMsec retransmitMsec).ack_data

theorem checkedCall_ok (e : CountedEncoder) (call : CheckedCall) :
    ∃ e' : CountedEncoder, e.encoder.checkedCall call = .ok e'.encoder := by
  have hsmall := e.dataBytes_lt
  cases call with
  | add nowMsec data =>
    have hack : (e.encoder.add nowMsec data).1.ack = e.encoder.ack := by
      unfold FullEncoder.add
      split <;> rfl
    exact ⟨⟨_, by rw [hack]; exact hsmall⟩, rfl⟩
  | removeBefore firstKeptColumn =>
    have hack : (e.encoder.removeBefore firstKeptColumn).ack = e.encoder.ack := by
      unfold FullEncoder.removeBefore
      split <;> rfl
    exact ⟨⟨e.encoder.removeBefore firstKeptColumn, by rw [hack]; exact hsmall⟩, rfl⟩
  | acknowledge nowMsec data bytes_lt =>
    rcases Nat.lt_or_ge data.length (2 ^ 31) with hlt | hlong
    · refine ⟨⟨_, FullEncoder.acknowledge_data_lt hsmall nowMsec hlt⟩, ?_⟩
      rw [FullEncoder.checkedCall, e.encoder.checkedAcknowledge_eq nowMsec hlt, ok_bind]
      rfl
    · obtain ⟨result, hsame⟩ := e.encoder.checkedAcknowledge_long nowMsec hlong bytes_lt
      refine ⟨e, ?_⟩
      rw [FullEncoder.checkedCall, hsame, ok_bind]
      rfl
  | retransmit nowMsec retransmitMsec =>
    refine ⟨⟨(e.encoder.retransmit nowMsec retransmitMsec).1, by
      rw [retransmit_data]
      exact hsmall⟩, ?_⟩
    rw [FullEncoder.checkedCall, FullEncoder.checkedRetransmit_eq hsmall, ok_bind]
    rfl
  | encode =>
    exact ⟨⟨_, by rw [e.encoder.encode_keepsSends.ack_eq]; exact hsmall⟩, rfl⟩

/-- Whatever an encoder is given, it reads the message, its copy and its window where they are, and
its loops end. -/
theorem checkedRun_ok (e : CountedEncoder) (calls : List CheckedCall) :
    ∃ e' : CountedEncoder, e.encoder.checkedRun calls = .ok e'.encoder := by
  induction calls generalizing e with
  | nil => exact ⟨e, rfl⟩
  | cons call calls ih =>
    obtain ⟨e', hcall⟩ := e.checkedCall_ok call
    obtain ⟨e'', hrun⟩ := ih e'
    refine ⟨e'', ?_⟩
    rw [FullEncoder.checkedRun, List.foldlM_cons, hcall, ok_bind]
    exact hrun

end CountedEncoder
end Tonk.Siamese
