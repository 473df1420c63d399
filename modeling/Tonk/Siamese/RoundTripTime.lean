import Tonk.Siamese.Retransmit

set_option autoImplicit false

namespace Tonk.Siamese
open Protocol Serial

structure WindowedMinMax.Sample (α : Type) where
  value : α
  timestamp : Nat

def WindowedMinMax.Sample.timeoutExpired {α : Type} (sample : WindowedMinMax.Sample α)
    (now timeout : Nat) : Bool :=
  timeout < sub 64 now sample.timestamp

/-- The Samples array. -/
structure WindowedMinMax (α : Type) where
  samples0 : WindowedMinMax.Sample α
  samples1 : WindowedMinMax.Sample α
  samples2 : WindowedMinMax.Sample α

namespace WindowedMinMax

variable {α : Type} [Zero α] [DecidableEq α]

def initial : WindowedMinMax α := ⟨⟨0, 0⟩, ⟨0, 0⟩, ⟨0, 0⟩⟩

def isValid (w : WindowedMinMax α) : Bool := w.samples0.value ≠ 0

def getBest (w : WindowedMinMax α) : α := w.samples0.value

def reset (sample : Sample α) : WindowedMinMax α := ⟨sample, sample, sample⟩

def place (compare : α → α → Bool) (w : WindowedMinMax α) (sample : Sample α) :
    WindowedMinMax α :=
  if compare sample.value w.samples1.value then { w with samples1 := sample, samples2 := sample }
  else if compare sample.value w.samples2.value then { w with samples2 := sample }
  else w

def expire (w : WindowedMinMax α) (sample : Sample α) (windowLengthTime : Nat) :
    WindowedMinMax α :=
  if w.samples0.timeoutExpired sample.timestamp windowLengthTime then
    if w.samples1.timeoutExpired sample.timestamp windowLengthTime then
      ⟨w.samples2, sample, sample⟩
    else ⟨w.samples1, w.samples2, sample⟩
  else if w.samples1.value = w.samples0.value ∧
      w.samples1.timeoutExpired sample.timestamp (windowLengthTime / 4) then
    { w with samples1 := sample, samples2 := sample }
  else if w.samples2.value = w.samples1.value ∧
      w.samples2.timeoutExpired sample.timestamp (windowLengthTime / 2) then
    { w with samples2 := sample }
  else w

def update (compare : α → α → Bool) (w : WindowedMinMax α) (value : α)
    (timestamp windowLengthTime : Nat) : WindowedMinMax α :=
  let sample : Sample α := ⟨value, timestamp⟩
  if w.isValid = false ∨ compare value w.samples0.value ∨
      w.samples2.timeoutExpired timestamp windowLengthTime then reset sample
  else (w.place compare sample).expire sample windowLengthTime

end WindowedMinMax

def windowedMaxCompare (x y : Nat) : Bool := y ≤ x

def kInitialRetransmitTimeoutMsec : Nat := 500
def kMinimumRTOMsec : Nat := 20
def kMinWindowMsec : Nat := 100
def kMaxWindowMsec : Nat := 4000

/-- RetransmitTimeoutMsec and MaxWindowedRTT of EncoderAcknowledgementState. -/
structure RTOEstimate where
  retransmitTimeoutMsec : Nat
  maxWindowedRTT : WindowedMinMax Nat

namespace RTOEstimate

def initial : RTOEstimate := ⟨kInitialRetransmitTimeoutMsec, .initial⟩

def windowMsec (r : RTOEstimate) : Nat :=
  let windowMsec := r.retransmitTimeoutMsec * 2 % 2 ^ 32
  if windowMsec < kMinWindowMsec then kMinWindowMsec
  else if kMaxWindowMsec < windowMsec then kMaxWindowMsec
  else windowMsec

/-- The end of UpdateRTO, when there is a delay. The products are unsigned. -/
def measure (r : RTOEstimate) (nowMsec64 longestAckDelayMsec : Nat) : RTOEstimate :=
  let maxWindowedRTT := r.maxWindowedRTT.update windowedMaxCompare longestAckDelayMsec nowMsec64
    r.windowMsec
  let retransmitTimeoutMsec := maxWindowedRTT.getBest * 3 % 2 ^ 32 / 2
  ⟨if retransmitTimeoutMsec < kMinimumRTOMsec then kMinimumRTOMsec else retransmitTimeoutMsec,
    maxWindowedRTT⟩

def update (r : RTOEstimate) (nowMsec64 : Nat)
    (scan : Option EncoderAcknowledgementState.RTOScan) : RTOEstimate :=
  match scan with
  | none => r
  | some scan =>
    match scan.result with
    | none => r
    | some (_, longestAckDelayMsec) =>
      if longestAckDelayMsec ≤ 0 then r else r.measure nowMsec64 longestAckDelayMsec

end RTOEstimate

/-- `FullEncoder` with the estimates of the round trip time. -/
structure TimedEncoder where
  encoder : FullEncoder
  rto : RTOEstimate

namespace TimedEncoder

def initial : TimedEncoder := ⟨.initial, .initial⟩

def acknowledge (e : TimedEncoder) (nowMsec64 : Nat) (data : Bytes) : TimedEncoder × SiameseResult :=
  let (encoder, result) := e.encoder.acknowledge nowMsec64 data
  if e.encoder.emergencyDisabled then (e, result)
  else
    let outcome := e.encoder.ack.onAcknowledgementData e.encoder.data.window nowMsec64 data
    (⟨encoder, e.rto.update nowMsec64 outcome.scan⟩, result)

def retransmit (e : TimedEncoder) (nowMsec : Nat) :
    TimedEncoder × SiameseResult × Option OriginalPacket :=
  let (encoder, result, original) := e.encoder.retransmit nowMsec e.rto.retransmitTimeoutMsec
  ({ e with encoder := encoder }, result, original)

end TimedEncoder

namespace EncoderAcknowledgementState

/-- A message that was overtaken: it expects an earlier packet than the last one taken. -/
def OutOfOrder (s : EncoderAcknowledgementState) (data : Bytes) : Prop :=
  ∃ next headerBytes, deserializeHeaderPacketNum data = some (next, headerBytes) ∧
    isColumnDeltaNegative (subtractColumns next s.nextColumnExpected) = true

/-- A message that is not overtaken and not the last one again, whose loss ranges start with one that
is longer than they are. -/
def FirstRangeTruncated (s : EncoderAcknowledgementState) (data : Bytes) : Prop :=
  ∃ next headerBytes, deserializeHeaderPacketNum data = some (next, headerBytes) ∧
    isColumnDeltaNegative (subtractColumns next s.nextColumnExpected) = false ∧
    ¬ (s.nextColumnExpected = next ∧ s.hasData ∧ data.drop headerBytes = s.data) ∧
    0 < (data.drop headerBytes).length ∧
    ∀ range, deserializeHeaderNACKLossRange (data.drop headerBytes ++ padding) = some range →
      (data.drop headerBytes).length < range.bytes

theorem decodeNextRange_keeps (s : EncoderAcknowledgementState) :
    s.decodeNextRange.1.data = s.data ∧ s.decodeNextRange.1.hasData = s.hasData ∧
      s.decodeNextRange.1.nextColumnExpected = s.nextColumnExpected ∧
      s.decodeNextRange.1.nextRTOColumn = s.nextRTOColumn := by
  unfold decodeNextRange
  split
  · exact ⟨rfl, rfl, rfl, rfl⟩
  · split
    · exact ⟨rfl, rfl, rfl, rfl⟩
    · simp only
      split <;> exact ⟨rfl, rfl, rfl, rfl⟩

theorem decodeNextRange_front {s : EncoderAcknowledgementState} (hoffset : s.offset = 0)
    (hpos : 0 < s.data.length) : s.decodeNextRange.2 = false ↔
      ∀ range, deserializeHeaderNACKLossRange (s.data ++ padding) = some range →
        s.data.length < range.bytes := by
  unfold decodeNextRange
  rw [if_neg (by omega), hoffset, List.drop_zero]
  cases hread : deserializeHeaderNACKLossRange (s.data ++ padding) with
  | none => simp
  | some range =>
    simp only [Nat.zero_add, Option.some.injEq, forall_eq']
    split
    · next hlong => simp [hlong]
    · next hfits => simp [hfits]

theorem takeLossRanges_data (s : EncoderAcknowledgementState) (w : EncoderPacketWindow)
    (nowMsec : Nat) : (s.takeLossRanges w nowMsec).state.data = s.data := by
  have hkeep : (if 0 < s.data.length then s.decodeNextRange else (s, true)).1.data = s.data := by
    split
    · exact s.decodeNextRange_keeps.1
    · rfl
  unfold takeLossRanges
  generalize (if 0 < s.data.length then s.decodeNextRange else (s, true)) = decoded at hkeep ⊢
  obtain ⟨s', ok⟩ := decoded
  simp only
  split <;> exact hkeep

theorem takeLossRanges_rejected {s : EncoderAcknowledgementState} (w : EncoderPacketWindow)
    (nowMsec : Nat) (hpos : 0 < s.data.length) (hfails : s.decodeNextRange.2 = false) :
    s.takeLossRanges w nowMsec = ⟨s.decodeNextRange.1, w, none, false⟩ := by
  unfold takeLossRanges
  rw [if_pos hpos]
  generalize s.decodeNextRange = decoded at hfails
  obtain ⟨s', ok⟩ := decoded
  simp only at hfails
  simp [hfails]

theorem takeLossRanges_ok {s : EncoderAcknowledgementState} (w : EncoderPacketWindow)
    (nowMsec : Nat) (h : s.data.length = 0 ∨ s.decodeNextRange.2 = true) :
    (s.takeLossRanges w nowMsec).ok = true := by
  unfold takeLossRanges
  have hdecoded : (if 0 < s.data.length then s.decodeNextRange else (s, true)).2 = true := by
    split
    · rcases h with h | h
      · omega
      · exact h
    · rfl
  generalize (if 0 < s.data.length then s.decodeNextRange else (s, true)) = decoded at hdecoded
  obtain ⟨s', ok⟩ := decoded
  simp only at hdecoded
  simp [hdecoded]

/-- Without a truncated first range whatever is not taken leaves everything in its place. -/
theorem onAcknowledgementData_keeps {s : EncoderAcknowledgementState} (w : EncoderPacketWindow)
    (nowMsec : Nat) {data : Bytes} (hranges : ¬ s.FirstRangeTruncated data)
    (hrejected : (s.onAcknowledgementData w nowMsec data).ok = false ∨ s.OutOfOrder data) :
    (s.onAcknowledgementData w nowMsec data).state = s ∧
      (s.onAcknowledgementData w nowMsec data).window = w ∧
      (s.onAcknowledgementData w nowMsec data).scan = none := by
  unfold onAcknowledgementData at hrejected ⊢
  cases hread : deserializeHeaderPacketNum data with
  | none => exact ⟨rfl, rfl, rfl⟩
  | some header =>
    obtain ⟨next, headerBytes⟩ := header
    simp only [hread] at hrejected ⊢
    by_cases hold : isColumnDeltaNegative (subtractColumns next s.nextColumnExpected) = true
    · rw [if_pos hold]
      exact ⟨rfl, rfl, rfl⟩
    · have hnew : isColumnDeltaNegative (subtractColumns next s.nextColumnExpected) = false := by
        simpa using hold
      rw [if_neg hold] at hrejected ⊢
      by_cases hsame : s.nextColumnExpected = next ∧ s.hasData ∧ data.drop headerBytes = s.data
      · rw [if_pos hsame]
        exact ⟨rfl, rfl, rfl⟩
      · rw [if_neg hsame] at hrejected ⊢
        rcases hrejected with hfails | ⟨next', headerBytes', hread', hneg⟩
        · exfalso
          refine absurd hfails ?_
          rw [Bool.not_eq_false]
          apply takeLossRanges_ok
          by_contra hnot
          rw [not_or] at hnot
          refine hranges ⟨next, headerBytes, hread, hnew, hsame, Nat.pos_of_ne_zero hnot.1, ?_⟩
          exact (decodeNextRange_front rfl (Nat.pos_of_ne_zero hnot.1)).mp (by simpa using hnot.2)
        · rw [hread] at hread'
          cases hread'
          exact absurd hneg hold

theorem onAcknowledgementData_truncated {s : EncoderAcknowledgementState} (w : EncoderPacketWindow)
    (nowMsec : Nat) {data : Bytes} (h : s.FirstRangeTruncated data) :
    (s.onAcknowledgementData w nowMsec data).ok = false ∧
      (s.onAcknowledgementData w nowMsec data).window = w ∧
      (s.onAcknowledgementData w nowMsec data).state ≠ s := by
  obtain ⟨next, headerBytes, hread, hnew, hother, hpos, hlong⟩ := h
  unfold onAcknowledgementData
  simp only [hread]
  rw [hnew, if_neg (by decide), if_neg hother,
    takeLossRanges_rejected w nowMsec hpos ((decodeNextRange_front rfl hpos).mpr hlong)]
  refine ⟨rfl, rfl, fun hsame => hother ?_⟩
  obtain ⟨hdata, hallocated, hcolumn, -⟩ := decodeNextRange_keeps { s with
    nextColumnExpected := next, offset := 0, lossColumn := next, lossCount := 0
    data := data.drop headerBytes, hasData := s.hasData || 0 < (data.drop headerBytes).length }
  simp only at hsame
  rw [hsame] at hdata hallocated hcolumn
  exact ⟨hcolumn, by rw [hallocated, decide_eq_true hpos, Bool.or_true], hdata.symm⟩

end EncoderAcknowledgementState

namespace TimedEncoder

def Rejects (e : TimedEncoder) (nowMsec64 : Nat) (data : Bytes) : Prop :=
  (e.acknowledge nowMsec64 data).2 ≠ .success ∨ e.encoder.ack.OutOfOrder data

/-- A rejected acknowledgement leaves the encoder as it was, unless it is a new message whose first
loss range is truncated. -/
theorem acknowledge_keeps_iff (e : TimedEncoder) (nowMsec64 : Nat) (data : Bytes) :
    (e.Rejects nowMsec64 data → (e.acknowledge nowMsec64 data).1 = e) ↔
      e.encoder.emergencyDisabled = true ∨ ¬ e.encoder.ack.FirstRangeTruncated data := by
  unfold Rejects acknowledge FullEncoder.acknowledge
  cases hdisabled : e.encoder.emergencyDisabled with
  | true => simp
  | false =>
    simp only [Bool.false_eq_true, if_false, false_or]
    constructor
    · intro hkeeps hranges
      obtain ⟨hfails, -, hchanged⟩ := EncoderAcknowledgementState.onAcknowledgementData_truncated
        e.encoder.data.window nowMsec64 hranges
      have hsame := hkeeps (.inl (by simp [hfails]))
      exact hchanged (congrArg (fun e : TimedEncoder => e.encoder.ack) hsame)
    · intro hranges hrejected
      have hfails : (e.encoder.ack.onAcknowledgementData e.encoder.data.window nowMsec64 data).ok =
          false ∨ e.encoder.ack.OutOfOrder data := by
        refine hrejected.imp_left fun hresult => ?_
        by_contra hok
        exact hresult (if_pos (by simpa using hok))
      obtain ⟨hstate, hwindow, hscan⟩ := EncoderAcknowledgementState.onAcknowledgementData_keeps
        e.encoder.data.window nowMsec64 hranges hfails
      rw [hstate, hwindow, hscan]
      obtain ⟨⟨data, ack, nextRow, nextParityColumn, nextCauchyRow, foundOldest, oldestColumn,
        emergencyDisabled⟩, rto⟩ := e
      simp only at hdisabled
      rw [hdisabled]
      rfl

/-- The next expected packet 5 and the first byte of a longer range. -/
theorem acknowledge_truncated : ¬ ∀ (e : TimedEncoder) (nowMsec64 : Nat) (data : Bytes),
    e.Rejects nowMsec64 data → (e.acknowledge nowMsec64 data).1 = e := by
  intro hall
  have hsame := hall initial 1 [5, 0xFF] (.inl (by decide))
  have hcolumn := congrArg (fun e : TimedEncoder => e.encoder.ack.nextColumnExpected) hsame
  exact absurd hcolumn (by decide)

end TimedEncoder
end Tonk.Siamese
