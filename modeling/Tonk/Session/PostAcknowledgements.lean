import Tonk.Lib.Run
import Tonk.Session.OutgoingQueue
import Tonk.Siamese.Acknowledgement
import Tonk.Siamese.Decoder

set_option autoImplicit false

namespace Tonk.Siamese
open Protocol Search

def Decoder.generateAcknowledgement {α β : Type} (d : Decoder α β) (byteLimit : Nat) :
    SiameseResult × Bytes :=
  if d.emergencyDisabled then (.disabled, [])
  else
    match d.window.generateAcknowledgement byteLimit with
    | none => (.needMoreData, [])
    | some data => (.success, data)

theorem serializeHeaderPacketNum_length_le (packetNum : Nat) :
    (serializeHeaderPacketNum packetNum).length ≤ 3 := by
  unfold serializeHeaderPacketNum
  split
  · exact Nat.le_add_left 1 2
  · split
    · exact Nat.le_add_left 2 1
    · exact Nat.le_refl 3

namespace DecoderPacketWindow

variable {α : Type}

/-- The loss ranges from `rangeOffset` on, and the end of the window behind the last one. -/
def lossRanges (w : DecoderPacketWindow α) : Nat → Nat → List (Nat × Nat)
  | 0, _ => []
  | fuel + 1, rangeOffset =>
    let rangeStart := w.findNextLostElement rangeOffset
    if w.count ≤ rangeStart then
      if rangeOffset ≤ w.count then [(w.count - rangeOffset, 0)] else []
    else
      let rangeEnd := w.findNextGotElement (rangeStart + 1)
      (rangeStart - rangeOffset, rangeEnd - rangeStart - 1) :: w.lossRanges fuel (rangeEnd + 1)

/-- The next expected column and every loss range of the window. -/
def lossReport (w : DecoderPacketWindow α) : Bytes :=
  if w.count = 0 then []
  else
    let header := serializeHeaderPacketNum (w.elementToColumn w.nextExpectedElement)
    if w.invalidElement w.nextExpectedElement then header
    else header ++ wireRanges (w.lossRanges (w.count + 2) w.nextExpectedElement)

theorem findNextElement_ge (w : DecoderPacketWindow α) (mayHave : DecoderSubwindow α → Bool)
    (findFirst : DecoderSubwindow α → Nat → Nat) (hfind : ∀ s bit, bit ≤ findFirst s bit)
    (n i bit : Nat) (hbit : bit ≤ kSubwindowSize) :
    w.findNextElement mayHave findFirst n i bit = w.count ∨
      i * kSubwindowSize + bit ≤ w.findNextElement mayHave findFirst n i bit := by
  have hnext : ∀ n, (w.findNextElement mayHave findFirst n (i + 1) 0 = w.count ∨
      (i + 1) * kSubwindowSize + 0 ≤ w.findNextElement mayHave findFirst n (i + 1) 0) →
      w.findNextElement mayHave findFirst n (i + 1) 0 = w.count ∨
        i * kSubwindowSize + bit ≤ w.findNextElement mayHave findFirst n (i + 1) 0 := by
    intro n h
    rw [Nat.succ_mul] at h
    omega
  induction n generalizing i bit with
  | zero => exact .inl rfl
  | succ n ih =>
    rw [findNextElement]
    simp only
    split
    · split
      · exact hnext n (ih (i + 1) 0 (Nat.zero_le _) fun n h => by rw [Nat.succ_mul] at h; omega)
      · have hge := hfind (w.subwindows i) bit
        split
        · exact .inl rfl
        · exact .inr (by omega)
    · exact hnext n (ih (i + 1) 0 (Nat.zero_le _) fun n h => by rw [Nat.succ_mul] at h; omega)

theorem findNextLostElement_ge {w : DecoderPacketWindow α} {e : Nat}
    (hlost : w.findNextLostElement e < w.count) : e ≤ w.findNextLostElement e := by
  unfold findNextLostElement at hlost ⊢
  split
  · next hpast =>
    rw [if_pos hpast] at hlost
    omega
  · next hin =>
    rw [if_neg hin] at hlost
    rcases w.findNextElement_ge (fun s => s.gotCount < kSubwindowSize)
      DecoderSubwindow.findFirstClear (fun _ _ => le_firstFrom)
      (w.subwindowEnd - e / kSubwindowSize) (e / kSubwindowSize) (e % kSubwindowSize)
      (Nat.le_of_lt (Nat.mod_lt _ (by decide))) with h | h
    · omega
    · rw [Nat.div_add_mod'] at h
      exact h

theorem findNextGotElement_ge {w : DecoderPacketWindow α} {e : Nat} (he : e ≤ w.count) :
    e ≤ w.findNextGotElement e := by
  unfold findNextGotElement
  split
  · exact he
  · rcases w.findNextElement_ge (fun s => 0 < s.gotCount)
      DecoderSubwindow.findFirstSet (fun _ _ => le_firstFrom)
      (w.subwindowEnd - e / kSubwindowSize) (e / kSubwindowSize) (e % kSubwindowSize)
      (Nat.le_of_lt (Nat.mod_lt _ (by decide))) with h | h
    · omega
    · rw [Nat.div_add_mod'] at h
      exact h

theorem writeLossRanges_or (w : DecoderPacketWindow α) (rangeOffset byteLimit fuel : Nat)
    (hfuel : w.count + 2 ≤ fuel + rangeOffset) (hpos : 0 < fuel) :
    w.writeLossRanges rangeOffset byteLimit = wireRanges (w.lossRanges fuel rangeOffset) ∨
      byteLimit < (w.writeLossRanges rangeOffset byteLimit).length + kMaxLossRangeFieldBytes ∧
        (w.writeLossRanges rangeOffset byteLimit).length ≤
          (wireRanges (w.lossRanges fuel rangeOffset)).length := by
  obtain ⟨fuel, rfl⟩ : ∃ f, fuel = f + 1 := ⟨fuel - 1, by omega⟩
  fun_induction writeLossRanges w rangeOffset byteLimit generalizing fuel with
  | case1 rangeOffset byteLimit hlimit rangeStart hall hin =>
    refine .inl ?_
    rw [lossRanges, if_pos hall, if_pos hin]
    simp [wireRanges]
  | case2 rangeOffset byteLimit hlimit rangeStart hall hout =>
    refine .inl ?_
    rw [lossRanges, if_pos hall, if_neg hout]
    rfl
  | case3 rangeOffset byteLimit hlimit rangeStart hlost rangeEnd range ih =>
    have hstart : rangeOffset ≤ rangeStart := findNextLostElement_ge (Nat.lt_of_not_le hlost)
    have hend : rangeStart + 1 ≤ rangeEnd := findNextGotElement_ge (by omega)
    have hranges : w.lossRanges (fuel + 1) rangeOffset =
        (rangeStart - rangeOffset, rangeEnd - rangeStart - 1) ::
          w.lossRanges fuel (rangeEnd + 1) := by
      rw [lossRanges, if_neg hlost]
    rw [hranges, wireRanges_cons]
    have hfuel' : 0 < fuel := by
      by_contra hzero
      omega
    obtain ⟨fuel, rfl⟩ : ∃ f, fuel = f + 1 := ⟨fuel - 1, by omega⟩
    rcases ih fuel (by omega) (by omega) with hsame | ⟨hused, hle⟩
    · exact .inl (by rw [hsame])
    · refine .inr ⟨?_, ?_⟩
      · rw [List.length_append]
        simp only [range] at hused ⊢
        omega
      · rw [List.length_append, List.length_append]
        exact Nat.add_le_add_left hle _
  | case4 rangeOffset byteLimit hlimit =>
    refine .inr ⟨?_, Nat.zero_le _⟩
    simp only [List.length_nil]
    omega

theorem generateAcknowledgement_length_iff (w : DecoderPacketWindow α) {byteLimit : Nat} (bound : Nat)
    (hlimit : byteLimit < 2 ^ 32) (hheader : 3 ≤ byteLimit)
    (hbound : bound + kMaxLossRangeFieldBytes ≤ byteLimit + 1) {data : Bytes}
    (hdata : w.generateAcknowledgement byteLimit = some data) :
    data.length < bound ↔ w.lossReport.length < bound := by
  unfold generateAcknowledgement at hdata
  unfold lossReport
  split at hdata
  · exact absurd hdata (by simp)
  · next hcount =>
    rw [if_neg hcount]
    simp only at hdata ⊢
    have hlen := serializeHeaderPacketNum_length_le (w.elementToColumn w.nextExpectedElement)
    generalize serializeHeaderPacketNum (w.elementToColumn w.nextExpectedElement) = header at *
    have hwrap : (byteLimit + 2 ^ 32 - header.length) % 2 ^ 32 = byteLimit - header.length := by omega
    split at hdata
    · next hall =>
      rw [if_pos hall]
      cases hdata
      rfl
    · next hlost =>
      rw [if_neg hlost, hwrap] at *
      cases hdata
      rcases w.writeLossRanges_or w.nextExpectedElement (byteLimit - header.length) (w.count + 2)
        (by omega) (by omega) with hsame | ⟨hused, hle⟩
      · rw [hsame]
      · rw [List.length_append, List.length_append]
        omega

/-- A window in which only every other packet, from the second one on, has arrived. -/
structure EveryOther (w : DecoderPacketWindow α) (k : Nat) : Prop where
  sound : w.Sound
  columnStart_eq : w.columnStart = 0
  count_eq : w.count = 2 * k
  isGot_iff : ∀ e, w.isGot e = true ↔ e % 2 = 1 ∧ e < 2 * k

theorem everyOther_initial : (initial : DecoderPacketWindow α).EveryOther 0 :=
  ⟨sound_initial, rfl, rfl, fun e => by simp [initial, isGot, DecoderSubwindow.fresh]⟩

theorem EveryOther.addOriginal {w : DecoderPacketWindow α} {k : Nat} (h : w.EveryOther k)
    (hk : 2 * k + 1 < kColumnPeriod / 2) (data : α) :
    (w.addOriginal (2 * k + 1) data).1.EveryOther (k + 1) := by
  have hhalf : kColumnPeriod / 2 < kColumnPeriod := by decide
  have hcolumn : w.columnToElement (2 * k + 1) = 2 * k + 1 := by
    have hsub := subtractColumns_columnOf (Nat.zero_le (2 * k + 1)) (by omega)
    rw [columnOf_eq_self (by omega)] at hsub
    rw [columnToElement, h.columnStart_eq]
    exact hsub
  have hpositive : isColumnDeltaNegative (2 * k + 1) = false :=
    isColumnDeltaNegative_eq_false_iff.mpr hk
  have hmissing : (w.getWindowElement (2 * k + 1)).isSome = false := by
    rw [← h.sound.got_eq]
    cases hgot : w.isGot (2 * k + 1) with
    | false => rfl
    | true =>
      have := (h.isGot_iff _).mp hgot
      omega
  have hadd : w.addOriginal (2 * k + 1) data =
      ((w.growWindow (2 * k + 1 + 1)).fill (2 * k + 1) data, .success) := by
    unfold DecoderPacketWindow.addOriginal
    simp only [hcolumn, hpositive, growWindow_getWindowElement, hmissing, Bool.false_eq_true,
      if_false]
  have hsound := h.sound.addOriginal (2 * k + 1) data
  rw [hadd] at hsound ⊢
  refine ⟨hsound, ?_, ?_, fun e => ?_⟩
  · rw [fill_columnStart, growWindow_columnStart]
    exact h.columnStart_eq
  · rw [fill_count, growWindow_count, h.count_eq]
    omega
  · rw [fill_isGot, growWindow_isGot]
    split
    · simp only [true_iff]
      omega
    · rw [h.isGot_iff]
      omega

theorem EveryOther.lossRanges_length {w : DecoderPacketWindow α} {k : Nat} (h : w.EveryOther k)
    (fuel j : Nat) (hfuel : k ≤ fuel + j) : k ≤ (w.lossRanges fuel (2 * j)).length + j := by
  induction fuel generalizing j with
  | zero => omega
  | succ fuel ih =>
    by_cases hj : k ≤ j
    · omega
    · have hlost : w.findNextLostElement (2 * j) = 2 * j := by
        rw [h.sound.counted.findNextLostElement_eq (by rw [h.count_eq]; omega)]
        refine firstFrom_eq (Nat.le_refl _) (by rw [h.count_eq]; omega) (fun e he he' => ?_)
          fun _ => ?_
        · omega
        · simp only [Bool.not_eq_eq_eq_not, Bool.not_true]
          by_contra hgot
          have := (h.isGot_iff _).mp (Bool.of_not_eq_false hgot)
          omega
      have hgot : w.findNextGotElement (2 * j + 1) = 2 * j + 1 := by
        rw [h.sound.counted.findNextGotElement_eq (by rw [h.count_eq]; omega)]
        refine firstFrom_eq (Nat.le_refl _) (by rw [h.count_eq]; omega) (fun e he he' => ?_)
          fun _ => ?_
        · omega
        · exact (h.isGot_iff _).mpr ⟨by omega, by omega⟩
      have hnext := ih (j + 1) (by omega)
      rw [lossRanges]
      simp only [hlost, hgot]
      rw [if_neg (by rw [h.count_eq]; omega), List.length_cons]
      have heq : 2 * j + 1 + 1 = 2 * (j + 1) := by omega
      rw [heq]
      omega

end DecoderPacketWindow

theorem length_le_wireRanges (rs : List (Nat × Nat)) : rs.length ≤ (wireRanges rs).length := by
  induction rs with
  | nil => exact Nat.zero_le _
  | cons r rs ih =>
    have hpos := serializeHeaderNACKLossRange_pos r.1 r.2
    rw [wireRanges_cons, List.length_append, List.length_cons]
    omega

end Tonk.Siamese

namespace Tonk.Session
open Protocol Siamese

def tonkMaxUnreliableBytes : Nat := 1280

def kAckOverheadBytes : Nat := 3 + (2 + 1)

def OutgoingQueue.queueMessage (q : OutgoingQueue) (messageType : Nat) (data : Bytes) :
    Except String OutgoingQueue :=
  if tonkMaxUnreliableBytes ≤ data.length then
    .error (toString data.length ++ " byte message too large")
  else
    match q.append messageType data with
    | (q, true) => .ok q
    | (q, false) =>
      match q.pushAndGetFreshBuffer.append messageType data with
      | (q, true) => .ok q
      | (_, false) => .error (toString data.length ++ " byte message caused Append failure")

/-- The state PostAcknowledgements reads: `shape` is the compressed bandwidth shape. -/
structure AcknowledgementSource (α β : Type) where
  lastAckAckSeq : Nat
  fecNextExpectedPacketNum : Nat
  nextExpectedNonce24 : Nat
  shape : UInt8 × UInt8 × UInt8
  fecDecoder : Decoder α β

def writeU24LE (value : Nat) : Bytes :=
  [UInt8.ofNat value, UInt8.ofNat (value >>> 8), UInt8.ofNat (value >>> 16)]

def postAcknowledgements {α β : Type} (s : AcknowledgementSource α β) (q : OutgoingQueue) :
    Except String OutgoingQueue :=
  if s.lastAckAckSeq = s.fecNextExpectedPacketNum then .ok q
  else
    let overhead := writeU24LE s.nextExpectedNonce24 ++ [s.shape.1, s.shape.2.1, s.shape.2.2]
    match s.fecDecoder.generateAcknowledgement
        (kMinPossibleDatagramByteLimit - kAckOverheadBytes) with
    | (.success, data) => q.queueMessage messageTypeAcknowledgements (overhead ++ data)
    | (.needMoreData, _) => q.queueMessage messageTypeAcknowledgements overhead
    | _ => .error "siamese_decoder_ack failed"

/-- A message below the limit fits into a fresh buffer if not into the open one. -/
theorem OutgoingQueue.queueMessage_isOk (q : OutgoingQueue) (messageType : Nat) (data : Bytes) :
    (q.queueMessage messageType data).isOk = true ↔ data.length < tonkMaxUnreliableBytes := by
  have hfresh : ∀ q : OutgoingQueue, data.length < tonkMaxUnreliableBytes →
      ∃ q', q.pushAndGetFreshBuffer.append messageType data = (q', true) := by
    intro q hlt
    have hroom : ¬ ([] : Bytes).length + (kMessageFrameBytes + data.length) >
        maxMessageSectionBytes := by
      have hmax : maxMessageSectionBytes = 1306 := rfl
      simp only [List.length_nil, kMessageFrameBytes, tonkMaxUnreliableBytes] at hlt ⊢
      omega
    unfold append
    rw [q.pushAndGetFreshBuffer_outBuffer]
    simp only
    rw [if_neg hroom]
    exact ⟨_, rfl⟩
  unfold queueMessage
  split
  · next hlarge => simp [Except.isOk, Except.toBool, Nat.not_lt.mpr hlarge]
  · next hsmall =>
    have hlt := Nat.lt_of_not_le hsmall
    simp only [hlt, iff_true]
    split
    · rfl
    · next q' _ =>
      obtain ⟨q'', hq''⟩ := hfresh q' hlt
      rw [hq'']
      rfl

theorem postAcknowledgements_queues_iff {α β : Type} (s : AcknowledgementSource α β)
    (q : OutgoingQueue) (henabled : s.fecDecoder.emergencyDisabled = false)
    (hother : s.lastAckAckSeq ≠ s.fecNextExpectedPacketNum) :
    (postAcknowledgements s q).isOk = true ↔
      kAckOverheadBytes + s.fecDecoder.window.lossReport.length < tonkMaxUnreliableBytes := by
  unfold postAcknowledgements
  rw [if_neg hother]
  simp only
  have hoverhead : (writeU24LE s.nextExpectedNonce24 ++
      [s.shape.1, s.shape.2.1, s.shape.2.2]).length = kAckOverheadBytes := rfl
  generalize writeU24LE s.nextExpectedNonce24 ++ [s.shape.1, s.shape.2.1, s.shape.2.2] = overhead
    at hoverhead ⊢
  have hunreliable : tonkMaxUnreliableBytes = 1280 := rfl
  have hack : kAckOverheadBytes = 6 := rfl
  unfold Decoder.generateAcknowledgement
  rw [if_neg (by simp [henabled])]
  cases hdata : s.fecDecoder.window.generateAcknowledgement
      (kMinPossibleDatagramByteLimit - kAckOverheadBytes) with
  | none =>
    have hcount : s.fecDecoder.window.count = 0 := by
      unfold DecoderPacketWindow.generateAcknowledgement at hdata
      by_contra hne
      rw [if_neg hne] at hdata
      simp only at hdata
      split at hdata <;> exact absurd hdata (by simp)
    have hreport : s.fecDecoder.window.lossReport = [] := if_pos hcount
    simp only [OutgoingQueue.queueMessage_isOk, hreport, List.length_nil]
    omega
  | some data =>
    have hiff := s.fecDecoder.window.generateAcknowledgement_length_iff 1274
      (by decide) (by decide) (by decide) hdata
    simp only [OutgoingQueue.queueMessage_isOk, List.length_append]
    omega

/-- Posting an acknowledgement succeeds exactly when there is nothing new to acknowledge or all
losses of the window, reported in full, stay below the limit for unreliable messages. -/
theorem postAcknowledgements_isOk_iff {α β : Type} (s : AcknowledgementSource α β)
    (q : OutgoingQueue) (henabled : s.fecDecoder.emergencyDisabled = false) :
    (postAcknowledgements s q).isOk = true ↔
      s.lastAckAckSeq = s.fecNextExpectedPacketNum ∨
        kAckOverheadBytes + s.fecDecoder.window.lossReport.length < tonkMaxUnreliableBytes := by
  by_cases hsame : s.lastAckAckSeq = s.fecNextExpectedPacketNum
  · have hnothing : postAcknowledgements s q = .ok q := if_pos hsame
    rw [hnothing]
    simp [hsame, Except.isOk, Except.toBool]
  · rw [postAcknowledgements_queues_iff s q henabled hsame]
    simp only [hsame, false_or]

/-- One packet has arrived and is acknowledged. -/
theorem postAcknowledgements_isOk_onePacket :
    ((Decoder.initial : Decoder Unit Unit).addOriginal 0 ()).1.emergencyDisabled = false ∧
      (postAcknowledgements ⟨0x800000, 1, 1, (0, 0, 0),
        ((Decoder.initial : Decoder Unit Unit).addOriginal 0 ()).1⟩ .empty).isOk = true :=
  ⟨rfl, (postAcknowledgements_isOk_iff _ _ rfl).mpr (.inr (by decide))⟩

/-- The odd ones of the first `2 * k` packets arrive, and the even ones are lost. -/
def everyOther (k : Nat) : Decoder Unit Unit :=
  (List.range k).foldl (fun d i => (d.addOriginal (2 * i + 1) ()).1) .initial

theorem everyOther_window (k : Nat) (hk : 2 * k < kColumnPeriod / 2) :
    (everyOther k).window.EveryOther k ∧ (everyOther k).emergencyDisabled = false := by
  induction k with
  | zero => exact ⟨DecoderPacketWindow.everyOther_initial, rfl⟩
  | succ k ih =>
    obtain ⟨hwindow, henabled⟩ := ih (by omega)
    have hnext := hwindow.addOriginal (by omega) ()
    have hstep : everyOther (k + 1) = ((everyOther k).addOriginal (2 * k + 1) ()).1 := by
      rw [everyOther, List.range_succ, List.foldl_append]
      rfl
    rw [hstep]
    unfold Decoder.addOriginal
    rw [if_neg (by simp [henabled])]
    simp only
    generalize (everyOther k).window.addOriginal (2 * k + 1) () = added at hnext ⊢
    obtain ⟨w, result⟩ := added
    simp only at hnext ⊢
    split
    · exact ⟨hnext, henabled⟩
    · exact ⟨hnext, henabled⟩

theorem everyOther_lossReport {k : Nat} (hpos : 0 < k) (hk : 2 * k < kColumnPeriod / 2) :
    k ≤ (everyOther k).window.lossReport.length := by
  obtain ⟨hwindow, -⟩ := everyOther_window k hk
  have hcount := hwindow.count_eq
  have hranges := hwindow.lossRanges_length ((everyOther k).window.count + 2) 0 (by omega)
  have hbytes := length_le_wireRanges
    ((everyOther k).window.lossRanges ((everyOther k).window.count + 2) (2 * 0))
  have hnext : (everyOther k).window.nextExpectedElement = 0 := by
    by_contra hne
    have hgot := hwindow.sound.before_next 0 (by omega)
    rw [hwindow.isGot_iff] at hgot
    omega
  unfold DecoderPacketWindow.lossReport
  rw [if_neg (by omega)]
  simp only [DecoderPacketWindow.invalidElement, hnext]
  rw [if_neg (by simp only [decide_eq_true_eq]; omega), List.length_append]
  simp only [Nat.mul_zero] at hbytes hranges
  omega

theorem postAcknowledgements_everyOther {k : Nat} (hk : 1274 ≤ k) (hk' : 2 * k < kColumnPeriod / 2) :
    (everyOther k).emergencyDisabled = false ∧
      (postAcknowledgements ⟨0x800000, 0, 0, (0, 0, 0), everyOther k⟩ .empty).isOk = false := by
  obtain ⟨-, henabled⟩ := everyOther_window k hk'
  have hreport := everyOther_lossReport (by omega) hk'
  refine ⟨henabled, ?_⟩
  have hnew : (0x800000 : Nat) ≠ 0 := by decide
  rw [← Bool.not_eq_true, postAcknowledgements_queues_iff _ _ henabled hnew]
  simp only [kAckOverheadBytes, tonkMaxUnreliableBytes]
  omega

/-- Every other one of 2600 packets is lost: the acknowledgement is too long for the queue. -/
theorem postAcknowledgements_fails_everyOther :
    (everyOther 1300).emergencyDisabled = false ∧
      (postAcknowledgements ⟨0x800000, 0, 0, (0, 0, 0), everyOther 1300⟩ .empty).isOk = false :=
  postAcknowledgements_everyOther (by decide) (by decide)

end Tonk.Session
