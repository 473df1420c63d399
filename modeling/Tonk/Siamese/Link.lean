import Tonk.Lib.Run
import Tonk.Siamese.DecoderPositions

/-!
An encoder and a decoder over a network that loses, repeats and reorders originals, recovery packets
and acknowledgements. Whatever has been sent can arrive at any time, any number of times. The counts
of packets are kept without bound next to the columns they are sent as.
-/

set_option autoImplicit false

namespace Tonk.Siamese
open Protocol Transition

/-- `windowStart` is the number of the first packet in the decoder's window, `acknowledged` the next
expected packet of the last acknowledgement the encoder took. A recovery packet is kept with the
number of packets added when it was made, an acknowledgement with its next expected packet. -/
structure Link where
  encoder : Encoder
  decoder : Decoder Unit Nat
  added : Nat
  windowStart : Nat
  acknowledged : Nat
  recoveries : List (RecoveryMetadata × Nat)
  acks : List (Bytes × Nat)

namespace Link

def initial : Link := ⟨.initial, .initial, 0, 0, 0, [], []⟩

def nextExpected (s : Link) : Nat := s.windowStart + s.decoder.window.nextExpectedElement

def withDecoder (s : Link) (decoder : Decoder Unit Nat) : Link :=
  { s with
    decoder := decoder
    windowStart := s.windowStart +
      subtractColumns decoder.window.columnStart s.decoder.window.columnStart }

def acknowledge (s : Link) (nowMsec : Nat) (ack : Bytes × Nat) : Link :=
  { s with
    encoder := (s.encoder.acknowledge nowMsec ack.1).1
    acknowledged := if isColumnDeltaNegative
      (subtractColumns (columnOf ack.2) s.encoder.ack.nextColumnExpected) then s.acknowledged
      else ack.2 }

inductive Event where
  | add (nowMsec : Nat)
  | encode
  | original (packet : Nat)
  | recovery (packet : RecoveryMetadata × Nat) (checkedPastThreshold : Bool)
  | decode
  | generateAcknowledgement (byteLimit : Nat)
  | acknowledge (ack : Bytes × Nat) (nowMsec : Nat)

inductive Steps : Link → Event → Link → Prop where
  | add (s : Link) (nowMsec : Nat) : (s.encoder.add nowMsec).2 = .success →
      Steps s (.add nowMsec) { s with
        encoder := (s.encoder.add nowMsec).1
        added := s.added + 1 }
  | encode (s : Link) (encoder : Encoder) (metadata : RecoveryMetadata) :
      s.encoder.encode = (encoder, some metadata) →
      Steps s .encode { s with
        encoder := encoder
        recoveries := (metadata, s.added) :: s.recoveries }
  | original (s : Link) (packet : Nat) : packet < s.added →
      Steps s (.original packet) (s.withDecoder (s.decoder.addOriginal (columnOf packet) ()).1)
  | recovery (s : Link) (packet : RecoveryMetadata × Nat) (checkedPastThreshold : Bool) :
      packet ∈ s.recoveries →
      Steps s (.recovery packet checkedPastThreshold) (s.withDecoder
        (s.decoder.addRecovery packet.1 packet.2 (some ()) checkedPastThreshold))
  | decode (s : Link) (recovered : List (Nat × Unit)) (decoder : Decoder Unit Nat) :
      s.decoder.Decode recovered decoder → Steps s .decode (s.withDecoder decoder)
  | generateAcknowledgement (s : Link) (byteLimit : Nat) (message : Bytes) :
      byteLimit < 2 ^ 32 → s.decoder.emergencyDisabled = false →
      s.decoder.window.generateAcknowledgement byteLimit = some message →
      Steps s (.generateAcknowledgement byteLimit)
        { s with acks := (message, s.nextExpected) :: s.acks }
  | acknowledge (s : Link) (ack : Bytes × Nat) (nowMsec : Nat) : ack ∈ s.acks →
      Steps s (.acknowledge ack nowMsec) (s.acknowledge nowMsec ack)

/-- Nothing is used more than half a column period late: no message that arrives, and not the
metadata of the last recovery packet either, which RemoveElements falls back on. -/
def Timely (s : Link) : Event → Prop
  | .original packet => s.windowStart ≤ packet + kColumnPeriod / 2
  | .recovery packet _ => s.windowStart ≤ packet.2 + kColumnPeriod / 2 ∧
      s.windowStart ≤ s.decoder.lastEnd + kColumnPeriod / 2
  | .decode => s.windowStart ≤ s.decoder.lastEnd + kColumnPeriod / 2
  | .acknowledge ack _ => s.acknowledged ≤ ack.2 + kColumnPeriod / 2
  | _ => True

/-- What the three views have to do with each other. -/
structure WindowsAgree (s : Link) : Prop where
  windowStart_eq : s.decoder.window.columnStart = columnOf s.windowStart
  /-- The encoder's first unremoved column is not past the decoder's next expected one. -/
  first_le : 0 < s.encoder.window.count → isColumnDeltaNegative (subtractColumns
    (s.decoder.window.elementToColumn s.decoder.window.nextExpectedElement)
    (s.encoder.window.elementToColumn s.encoder.window.firstUnremovedElement)) = false
  /-- The LDPC range and the sum of a recovery packet that may still arrive start no later than
  any packet the decoder misses. -/
  inFlight : ∀ r ∈ s.recoveries, r.1.EndsAt r.2 ∧ ∀ e, s.decoder.window.isGot e = false →
    r.2 - r.1.ldpcCount ≤ s.windowStart + e ∧ r.2 - r.1.sumCount ≤ s.windowStart + e
  /-- So do those of a stored one. -/
  stored : ∀ r ∈ s.decoder.recoveryPackets, r.metadata.EndsAt (s.windowStart + r.elementEnd) ∧
    r.elementEnd = r.elementStart + r.metadata.ldpcCount ∧
    ∀ e, s.decoder.window.isGot e = false → r.elementStart ≤ e ∧
      s.windowStart + r.elementEnd - r.metadata.sumCount ≤ s.windowStart + e
  /-- The encoder holds every packet from the one the decoder expects next. -/
  held : ∀ n, s.nextExpected ≤ n → n < s.added →
    s.encoder.window.firstUnremovedElement ≤ s.encoder.window.columnToElement (columnOf n) ∧
      s.encoder.window.columnToElement (columnOf n) < s.encoder.window.count

structure Inv (s : Link) : Prop where
  encoder : s.encoder.Following s.added s.acknowledged
  decoder : s.decoder.Placed s.windowStart s.added
  acknowledged_le : s.acknowledged ≤ s.nextExpected
  recoveries : ∀ r ∈ s.recoveries, r.1.EndsAt r.2 ∧ r.2 ≤ s.added ∧
    r.2 ≤ s.nextExpected + r.1.ldpcCount
  acks : ∀ a ∈ s.acks, a.2 ≤ s.nextExpected ∧
    ∃ headerBytes, deserializeHeaderPacketNum a.1 = some (columnOf a.2, headerBytes)

theorem inv_initial : initial.Inv :=
  ⟨Encoder.following_initial, Decoder.placed_initial, Nat.le_refl 0, by simp [initial],
    by simp [initial]⟩

theorem Inv.nextExpected_le {s : Link} (h : s.Inv) : s.nextExpected ≤ s.added := by
  have hnext := h.decoder.sound.next_le
  have hcount := h.decoder.count_le
  unfold nextExpected
  omega

theorem Inv.added_le {s : Link} (h : s.Inv) : s.added ≤ s.nextExpected + siameseMaxPackets := by
  have hadded := h.encoder.added_le
  have hle := h.acknowledged_le
  omega

theorem Inv.withDecoder {s : Link} (h : s.Inv) {decoder : Decoder Unit Nat}
    (hadvances : s.decoder.Advances s.windowStart s.added decoder) : (s.withDecoder decoder).Inv := by
  obtain ⟨slid, hslid, hplaced, hnext⟩ := hadvances
  have hstart : (s.withDecoder decoder).windowStart = s.windowStart + slid := by
    have hsub : subtractColumns (columnOf (s.windowStart + slid)) (columnOf s.windowStart) = slid := by
      rw [subtractColumns_columnOf (Nat.le_add_right _ _) (by omega)]
      omega
    simp only [Link.withDecoder]
    rw [hplaced.columnStart_eq, h.decoder.columnStart_eq, hsub]
  have hexpected : s.nextExpected ≤ (s.withDecoder decoder).nextExpected := by
    unfold nextExpected
    rw [hstart]
    simp only [Link.withDecoder]
    omega
  refine ⟨h.encoder, ?_, h.acknowledged_le.trans hexpected, fun r hr => ?_, fun a ha => ?_⟩
  · rw [hstart]
    exact hplaced
  · obtain ⟨hends, hle, hneeded⟩ := h.recoveries r hr
    exact ⟨hends, hle, by omega⟩
  · obtain ⟨hle, hread⟩ := h.acks a ha
    exact ⟨hle.trans hexpected, hread⟩

theorem Inv.step {s s' : Link} {event : Event} (h : s.Inv) (htimely : s.Timely event)
    (hstep : Steps s event s') : s'.Inv := by
  have hnear := h.added_le
  have hcount := h.decoder.sound.count_le
  have hnext := h.decoder.sound.next_le
  have hmax : s.added < s.windowStart + kColumnPeriod := by
    unfold nextExpected at hnear
    simp only [siameseMaxPackets, kColumnPeriod] at hnear hcount ⊢
    omega
  cases hstep with
  | add nowMsec hok =>
    have hplaced : s.decoder.Placed s.windowStart (s.added + 1) :=
      ⟨h.decoder.sound, h.decoder.columnStart_eq, Nat.le_succ_of_le h.decoder.count_le,
        h.decoder.empty, h.decoder.stored, h.decoder.last⟩
    refine ⟨h.encoder.add nowMsec hok, hplaced, h.acknowledged_le, fun r hr => ?_, h.acks⟩
    obtain ⟨hends, hle, hneeded⟩ := h.recoveries r hr
    exact ⟨hends, Nat.le_succ_of_le hle, hneeded⟩
  | encode encoder metadata hmade =>
    obtain ⟨hfollowing, hends, hle⟩ := h.encoder.encode hmade
    have hack := h.acknowledged_le
    refine ⟨hfollowing, h.decoder, h.acknowledged_le, fun r hr => ?_, h.acks⟩
    rcases List.mem_cons.mp hr with rfl | hr
    · exact ⟨hends, Nat.le_refl _, Nat.le_trans hle (Nat.add_le_add_right hack _)⟩
    · exact h.recoveries r hr
  | original packet hsent =>
    exact h.withDecoder (h.decoder.addOriginal hsent htimely hmax ())
  | recovery packet checkedPastThreshold hsent =>
    obtain ⟨hends, hle, hneeded⟩ := h.recoveries packet hsent
    exact h.withDecoder (h.decoder.addRecovery hends hle hneeded hnear htimely.1 htimely.2 (some ())
      checkedPastThreshold)
  | decode recovered decoder hdecode => exact h.withDecoder (h.decoder.decode htimely hdecode)
  | generateAcknowledgement byteLimit message hlimit _ hmessage =>
    refine ⟨h.encoder, h.decoder, h.acknowledged_le, h.recoveries, fun a ha => ?_⟩
    rcases List.mem_cons.mp ha with rfl | ha
    · obtain ⟨rs, hmsg, -⟩ := h.decoder.sound.generateAcknowledgement_spec hlimit hmessage
      have hcolumn : s.decoder.window.elementToColumn s.decoder.window.nextExpectedElement =
          columnOf s.nextExpected := by
        rw [DecoderPacketWindow.elementToColumn, h.decoder.columnStart_eq,
          addColumns_columnOf_right]
        rfl
      refine ⟨Nat.le_refl _, (serializeHeaderPacketNum (columnOf s.nextExpected)).length, ?_⟩
      simp only
      rw [hmsg, hcolumn]
      exact deserializeHeaderPacketNum_serialize (columnOf_lt _) _
    · exact h.acks a ha
  | acknowledge ack nowMsec hsent =>
    obtain ⟨hle, headerBytes, hread⟩ := h.acks ack hsent
    obtain ⟨hfollowing, -⟩ := h.encoder.acknowledge (hle.trans h.nextExpected_le) htimely nowMsec hread
    refine ⟨hfollowing, h.decoder, ?_, h.recoveries, h.acks⟩
    simp only [Link.acknowledge]
    split
    · exact h.acknowledged_le
    · exact hle

theorem Inv.windowsAgree {s : Link} (h : s.Inv) : s.WindowsAgree := by
  have hle := h.nextExpected_le
  have hack := h.acknowledged_le
  have hplaced := h.decoder
  refine ⟨hplaced.columnStart_eq, fun hpos => ?_, fun r hr => ?_, fun r hr => ?_, fun n hn hlt => ?_⟩
  · rcases h.encoder.window with ⟨hzero, -, -⟩ | ⟨base, hold, hfirst⟩
    · omega
    · have hcount := hold.count_eq
      have hmax := hold.count_le
      have hnext : s.decoder.window.elementToColumn s.decoder.window.nextExpectedElement =
          columnOf s.nextExpected := by
        rw [DecoderPacketWindow.elementToColumn, hplaced.columnStart_eq, addColumns_columnOf_right]
        rfl
      have hunremoved : s.encoder.window.elementToColumn s.encoder.window.firstUnremovedElement =
          columnOf (base + s.encoder.window.firstUnremovedElement) := by
        rw [EncoderPacketWindow.elementToColumn, hold.columnStart_eq, addColumns_columnOf_right]
      simp only [siameseMaxPackets] at hmax
      rw [hnext, hunremoved, subtractColumns_columnOf (by omega) (by simp only [kColumnPeriod]; omega),
        isColumnDeltaNegative_eq_false_iff]
      simp only [kColumnPeriod]
      omega
  · obtain ⟨hends, -, hneeded⟩ := h.recoveries r hr
    have hldpc := hends.ldpc_le
    unfold nextExpected at hneeded
    refine ⟨hends, fun e hmissing => ?_⟩
    have hge := hplaced.sound.missing_ge hmissing
    omega
  · have hr' := hplaced.stored r hr
    have hends := hr'.ends
    have hldpc := hends.ldpc_le
    have hstart := hr'.start_eq
    have hsle := hr'.start_le
    refine ⟨hr'.end_eq ▸ hends, hstart.symm, fun e hmissing => ?_⟩
    have hge := hplaced.sound.missing_ge hmissing
    omega
  · rcases h.encoder.window with ⟨-, -, hall⟩ | ⟨base, hold, hfirst⟩
    · omega
    · have hcount := hold.count_eq
      have hmax := hold.count_le
      simp only [siameseMaxPackets] at hmax
      rw [EncoderPacketWindow.columnToElement, hold.columnStart_eq,
        subtractColumns_columnOf (by omega) (by simp only [kColumnPeriod]; omega)]
      omega

/-- In every run in which nothing is used half a column period late, the encoder keeps what the
decoder may still need, and every recovery packet reaches back to what the decoder misses. -/
theorem windows_agree (events : List Event) (s : Link)
    (hrun : Run (Restrict Timely Steps) initial events s) : s.WindowsAgree :=
  (hrun.invariant (P := Inv) inv_initial fun _ _ _ h hstep => h.step hstep.1 hstep.2).windowsAgree

/-- The first of two packets is lost, and a recovery packet for both is under way. -/
theorem windows_agree_lostFirst : ∃ s,
    Run (Restrict Timely Steps) initial [.add 0, .add 0, .original 1, .encode] s ∧
      s.nextExpected = 0 ∧ s.decoder.window.count = 2 ∧
      s.recoveries = [(⟨0, 0, 2, 2⟩, 2)] ∧ s.WindowsAgree := by
  obtain ⟨s, hrun, hnext, hcount, hrecoveries⟩ : ∃ s,
      Run (Restrict Timely Steps) initial [.add 0, .add 0, .original 1, .encode] s ∧
        s.nextExpected = 0 ∧ s.decoder.window.count = 2 ∧ s.recoveries = [(⟨0, 0, 2, 2⟩, 2)] :=
    ⟨_, .cons ⟨trivial, .add _ 0 rfl⟩ <| .cons ⟨trivial, .add _ 0 rfl⟩ <|
      .cons ⟨Nat.zero_le _, .original _ 1 (by decide)⟩ <|
      .cons ⟨trivial, .encode _ _ ⟨0, 0, 2, 2⟩ rfl⟩ (.nil _), rfl, rfl, rfl⟩
  exact ⟨s, hrun, hnext, hcount, hrecoveries, windows_agree _ s hrun⟩

/-! Half a column period is not far enough. Packets arrive one by one and are acknowledged at once,
and the very first acknowledgement turns up again at the end. -/

theorem onAcknowledgementData_header {a : EncoderAcknowledgementState} (w : EncoderPacketWindow)
    (nowMsec : Nat) {column : Nat} (hcolumn : column < siamesePacketNumCount)
    (hnew : isColumnDeltaNegative (subtractColumns column a.nextColumnExpected) = false)
    (hother : a.nextColumnExpected ≠ column) :
    (a.onAcknowledgementData w nowMsec (serializeHeaderPacketNum column)).window =
      w.removeBefore column := by
  have hread := deserializeHeaderPacketNum_serialize hcolumn []
  rw [List.append_nil] at hread
  unfold EncoderAcknowledgementState.onAcknowledgementData
  rw [hread]
  simp only [List.drop_length]
  rw [hnew, if_neg (by decide), if_neg fun hsame => hother hsame.1]
  rfl

/-- `k` packets were added, all of them have arrived and been acknowledged, and the acknowledgement
of the first one can still arrive. -/
structure CaughtUp (s : Link) (k : Nat) : Prop where
  inv : s.Inv
  added_eq : s.added = k
  acknowledged_eq : s.acknowledged = k
  nextExpected_eq : s.nextExpected = k
  empty : s.encoder.window.count = 0
  enabled : s.decoder.emergencyDisabled = false
  none_stored : s.decoder.recoveryPackets = []
  latest_le : s.decoder.latestColumn ≤ k
  first_ack : 0 < k → (serializeHeaderPacketNum 1, 1) ∈ s.acks

theorem caughtUp_initial : initial.CaughtUp 0 :=
  ⟨inv_initial, rfl, rfl, rfl, rfl, rfl, rfl, Nat.le_refl 0, fun h => absurd h (Nat.lt_irrefl 0)⟩

def addOne (s : Link) : Link :=
  { s with encoder := (s.encoder.add 0).1, added := s.added + 1 }

theorem CaughtUp.addOne {s : Link} {k : Nat} (h : s.CaughtUp k) :
    Steps s (.add 0) s.addOne ∧ s.addOne.Inv ∧
      s.addOne.encoder.window.Holding (k - k % kColumnLaneCount) (k + 1) ∧
      s.addOne.encoder.window.firstUnremovedElement = k % kColumnLaneCount := by
  have hcolumn : s.encoder.window.nextColumn = columnOf k := by
    rcases h.inv.encoder.window with ⟨-, hcolumn, -⟩ | ⟨base, hold, -⟩
    · rw [hcolumn, h.added_eq]
    · rw [hold.nextColumn_eq, h.added_eq]
  obtain ⟨hok, hold, hfirst⟩ := EncoderPacketWindow.add_empty h.empty hcolumn 0
  have hstep : Steps s (.add 0) s.addOne := .add s 0 hok
  have htimely : s.Timely (.add 0) := trivial
  exact ⟨hstep, h.inv.step htimely hstep, hold, hfirst⟩

theorem original_next {s : Link} {k : Nat} (h : s.Inv) (hadded : s.added = k + 1)
    (hnext : s.nextExpected = k) (hcount : s.decoder.window.count = s.decoder.window.nextExpectedElement)
    (henabled : s.decoder.emergencyDisabled = false) (hnone : s.decoder.recoveryPackets = [])
    (hroom : k < s.windowStart + kColumnPeriod / 2) :
    ∃ s', Steps s (.original k) s' ∧ s'.Inv ∧ s'.windowStart = s.windowStart ∧
      s'.nextExpected = k + 1 ∧ s'.decoder.emergencyDisabled = false ∧
      s'.decoder.recoveryPackets = [] ∧ s'.decoder.latestColumn = s.decoder.latestColumn ∧
      s'.encoder = s.encoder ∧ s'.added = s.added ∧ s'.acknowledged = s.acknowledged ∧
      s'.recoveries = s.recoveries ∧ s'.acks = s.acks := by
  have hstep : Steps s (.original k) _ := .original s k (by omega)
  have hplaced := h.decoder
  have hle : s.windowStart ≤ k := by
    unfold nextExpected at hnext
    omega
  have htimely : s.Timely (.original k) := Nat.le_add_right_of_le hle
  have hInv := h.step htimely hstep
  have helement : s.decoder.window.columnToElement (columnOf k) =
      s.decoder.window.nextExpectedElement := by
    have hhalf : kColumnPeriod / 2 ≤ kColumnPeriod := by decide
    rw [hplaced.columnToElement_of_ge hle (by omega)]
    unfold nextExpected at hnext
    omega
  have hpositive : isColumnDeltaNegative s.decoder.window.nextExpectedElement = false := by
    rw [isColumnDeltaNegative_eq_false_iff]
    unfold nextExpected at hnext
    omega
  have hmissing : s.decoder.window.getWindowElement s.decoder.window.nextExpectedElement = none := by
    have hgot := hplaced.sound.got_eq s.decoder.window.nextExpectedElement
    cases hg : s.decoder.window.isGot s.decoder.window.nextExpectedElement with
    | true =>
      have := hplaced.sound.got_lt _ hg
      omega
    | false =>
      rw [hg] at hgot
      exact Option.isNone_iff_eq_none.mp (by simpa using hgot.symm)
  have hadd : s.decoder.addOriginal (columnOf k) () =
      ({ s.decoder with
        window := (s.decoder.window.growWindow (s.decoder.window.nextExpectedElement + 1)).fill
          s.decoder.window.nextExpectedElement ()
        recoveryPackets := [] }, .success) := by
    unfold Decoder.addOriginal DecoderPacketWindow.addOriginal
    simp only [henabled, helement, hpositive, DecoderPacketWindow.growWindow_getWindowElement,
      hmissing, hnone]
    rfl
  have hwindow : (s.decoder.addOriginal (columnOf k) ()).1.window =
      (s.decoder.window.growWindow (s.decoder.window.nextExpectedElement + 1)).fill
        s.decoder.window.nextExpectedElement () := by rw [hadd]
  have hstart : (s.withDecoder (s.decoder.addOriginal (columnOf k) ()).1).windowStart =
      s.windowStart := by
    have hzero : subtractColumns s.decoder.window.columnStart s.decoder.window.columnStart = 0 := by
      rw [hplaced.columnStart_eq, subtractColumns_columnOf (Nat.le_refl _) (by simp [kColumnPeriod])]
      omega
    simp only [Link.withDecoder, hwindow, DecoderPacketWindow.fill_columnStart,
      DecoderPacketWindow.growWindow_columnStart, hzero, Nat.add_zero]
  refine ⟨_, hstep, hInv, hstart, ?_, ?_, ?_, ?_, rfl, rfl, rfl, rfl, rfl⟩
  · have hsound := hInv.decoder.sound
    have hnext' := hsound.next_le
    simp only [Link.withDecoder] at hsound hnext'
    have hcount' : (s.decoder.addOriginal (columnOf k) ()).1.window.count =
        s.decoder.window.nextExpectedElement + 1 := by
      rw [hwindow, DecoderPacketWindow.fill_count, DecoderPacketWindow.growWindow_count]
      omega
    have hgot : ∀ e, e < s.decoder.window.nextExpectedElement + 1 →
        (s.decoder.addOriginal (columnOf k) ()).1.window.isGot e = true := by
      intro e he
      rw [hwindow, DecoderPacketWindow.fill_isGot]
      split
      · rfl
      · rw [DecoderPacketWindow.growWindow_isGot]
        exact hplaced.sound.before_next e (by omega)
    have hend : (s.decoder.addOriginal (columnOf k) ()).1.window.nextExpectedElement =
        s.decoder.window.nextExpectedElement + 1 := by
      by_contra hne
      have hlost := hsound.at_next (by omega)
      rw [hgot _ (by omega)] at hlost
      exact absurd hlost (by decide)
    have hsum : s.windowStart + (s.decoder.window.nextExpectedElement + 1) = k + 1 := by
      unfold nextExpected at hnext
      omega
    unfold nextExpected
    rw [hstart]
    simp only [Link.withDecoder, hend]
    exact hsum
  · simp only [Link.withDecoder, hadd, henabled]
  · simp only [Link.withDecoder, hadd]
  · simp only [Link.withDecoder, hadd]

theorem acknowledge_all {s : Link} {k : Nat} (h : s.Inv) (hadded : s.added = k + 1)
    (hacknowledged : s.acknowledged = k) (hnext : s.nextExpected = k + 1)
    (henabled : s.decoder.emergencyDisabled = false) (hnone : s.decoder.recoveryPackets = [])
    (hlatest : s.decoder.latestColumn ≤ k + 1) (hheld : 0 < s.encoder.window.count)
    (hfirst : 0 < k → (serializeHeaderPacketNum 1, 1) ∈ s.acks) :
    ∃ events s', Run Steps s events s' ∧ s'.CaughtUp (k + 1) ∧ s'.windowStart = s.windowStart ∧
      s'.decoder = s.decoder := by
  have hplaced := h.decoder
  have hcount : s.decoder.window.count = s.decoder.window.nextExpectedElement := by
    have hle := hplaced.count_le
    have hle' := hplaced.sound.next_le
    unfold nextExpected at hnext
    omega
  have hpos : s.decoder.window.count ≠ 0 := by
    intro hzero
    have hstart := hplaced.empty hzero
    unfold nextExpected at hnext
    omega
  have hcolumn : s.decoder.window.elementToColumn s.decoder.window.nextExpectedElement =
      columnOf (k + 1) := by
    rw [DecoderPacketWindow.elementToColumn, hplaced.columnStart_eq, addColumns_columnOf_right,
      ← hnext]
    rfl
  have hmessage : s.decoder.window.generateAcknowledgement 100 =
      some (serializeHeaderPacketNum (columnOf (k + 1))) := by
    unfold DecoderPacketWindow.generateAcknowledgement
    rw [if_neg hpos, hcolumn]
    simp only
    rw [if_pos (by simp [DecoderPacketWindow.invalidElement, hcount])]
  let ack : Bytes × Nat := (serializeHeaderPacketNum (columnOf (k + 1)), k + 1)
  let s₁ : Link := { s with acks := ack :: s.acks }
  have hsent : Steps s (.generateAcknowledgement 100) s₁ := by
    have hstep := Steps.generateAcknowledgement s 100 _ (by decide) henabled hmessage
    rw [hnext] at hstep
    exact hstep
  have hsentTimely : s.Timely (.generateAcknowledgement 100) := trivial
  have h₁ : s₁.Inv := h.step hsentTimely hsent
  have htaken : Steps s₁ (.acknowledge ack 0) (s₁.acknowledge 0 ack) :=
    .acknowledge s₁ ack 0 List.mem_cons_self
  have htimely : s₁.Timely (.acknowledge ack 0) := by
    have hle : s.acknowledged ≤ k + 1 + kColumnPeriod / 2 := by omega
    exact hle
  have hnew : isColumnDeltaNegative
      (subtractColumns (columnOf (k + 1)) s.encoder.ack.nextColumnExpected) = false := by
    rw [h.encoder.ack_eq, hacknowledged, subtractColumns_columnOf (Nat.le_succ k)
      (by simp only [kColumnPeriod]; omega), isColumnDeltaNegative_eq_false_iff]
    simp only [kColumnPeriod]
    omega
  have hother : s.encoder.ack.nextColumnExpected ≠ columnOf (k + 1) := by
    rw [h.encoder.ack_eq, hacknowledged]
    intro hsame
    have := columnOf_inj hsame (Nat.le_succ k) (by simp only [kColumnPeriod]; omega)
    omega
  have hempty : (s.encoder.acknowledge 0 ack.1).1.window.count = 0 := by
    have hwindow := onAcknowledgementData_header s.encoder.window 0 (columnOf_lt (k + 1)) hnew hother
    simp only [Encoder.acknowledge]
    rw [hwindow]
    rcases h.encoder.window with ⟨hzero, -, -⟩ | ⟨base, hold, hfirst⟩
    · omega
    · rcases hold.removeBefore (show base ≤ k + 1 by omega) (Nat.le_of_eq hadded.symm) with
        ⟨-, hgone⟩ | ⟨hlt, -, -⟩
      · rw [hgone]
      · omega
  refine ⟨[.generateAcknowledgement 100, .acknowledge ack 0], s₁.acknowledge 0 ack,
    .cons hsent (.cons htaken (.nil _)), ⟨h₁.step htimely htaken, hadded, ?_, hnext, hempty, henabled,
      hnone, hlatest, fun _ => ?_⟩, rfl, rfl⟩
  · simp only [Link.acknowledge, ack, s₁]
    rw [hnew]
    rfl
  · by_cases hk : 0 < k
    · exact List.mem_cons_of_mem _ (hfirst hk)
    · have hzero : k = 0 := by omega
      subst hzero
      exact List.mem_cons_self

theorem CaughtUp.count_eq {s : Link} {k : Nat} (h : s.CaughtUp k) :
    s.decoder.window.count = s.decoder.window.nextExpectedElement := by
  have hle := h.inv.decoder.count_le
  have hle' := h.inv.decoder.sound.next_le
  have hnext := h.nextExpected_eq
  have hadded := h.added_eq
  unfold nextExpected at hnext
  omega

theorem CaughtUp.round {s : Link} {k : Nat} (h : s.CaughtUp k)
    (hroom : k < s.windowStart + kColumnPeriod / 2) :
    ∃ events s', Run Steps s events s' ∧ s'.CaughtUp (k + 1) ∧ s'.windowStart = s.windowStart := by
  obtain ⟨hadd, h₁, hold, -⟩ := h.addOne
  obtain ⟨s₂, horiginal, h₂, hstart, hnext, henabled, hnone, hlatest, hencoder, hadded, hack, -,
    hacks⟩ := original_next h₁ (show s.added + 1 = k + 1 by rw [h.added_eq]) h.nextExpected_eq h.count_eq
      h.enabled h.none_stored hroom
  have hfirst : 0 < s₂.encoder.window.count := by
    have hlt := hold.first_lt
    rw [hencoder]
    omega
  obtain ⟨events, s₃, hrun, hcaught, hstart₃, -⟩ := acknowledge_all h₂
    (by rw [hadded]; exact congrArg (· + 1) h.added_eq) (by rw [hack]; exact h.acknowledged_eq)
    hnext henabled hnone (by rw [hlatest]; exact Nat.le_succ_of_le h.latest_le) hfirst
    (by rw [hacks]; exact h.first_ack)
  exact ⟨_, s₃, .cons hadd (.cons horiginal hrun), hcaught, hstart₃.trans hstart⟩

theorem CaughtUp.rounds {s : Link} {k : Nat} (h : s.CaughtUp k) (n : Nat)
    (hroom : k + n ≤ s.windowStart + kColumnPeriod / 2) :
    ∃ events s', Run Steps s events s' ∧ s'.CaughtUp (k + n) ∧ s'.windowStart = s.windowStart := by
  induction n with
  | zero => exact ⟨[], s, .nil s, h, rfl⟩
  | succ n ih =>
    obtain ⟨events, s₁, hrun, hcaught, hstart⟩ := ih (by omega)
    obtain ⟨events', s₂, hrun', hcaught', hstart'⟩ := hcaught.round (by omega)
    exact ⟨events ++ events', s₂, hrun.append hrun', hcaught', hstart'.trans hstart⟩

theorem encode_single {e : Encoder} {base k : Nat} (hold : e.window.Holding base (k + 1))
    (hfirst : base + e.window.firstUnremovedElement = k)
    (hnear : e.window.firstUnremovedElement < kEncoderRemoveThreshold) :
    e.encode = (e, some ⟨0, columnOf k, 1, 1⟩) := by
  have hcount := hold.count_eq
  have hlt := hold.first_lt
  have hcolumn : e.window.elementToColumn e.window.firstUnremovedElement = columnOf k := by
    rw [EncoderPacketWindow.elementToColumn, hold.columnStart_eq, addColumns_columnOf_right, hfirst]
  have hfront : e.removeFront = e := if_neg (by omega)
  have hbranch : e.window.encodeBranch = .single := if_pos (by rw [hold.unacknowledged]; omega)
  rw [Encoder.encode_eq e (by omega), hfront, Encoder.chosenPacket, hbranch]
  simp only [Encoder.generateSinglePacket, hcolumn]

theorem removeElements_single {d : Decoder Unit Nat} {windowStart added k : Nat}
    (h : d.Placed windowStart added) (hnone : d.recoveryPackets = [])
    (hnext : windowStart + d.window.nextExpectedElement = k + 1)
    (hfar : kDecoderRemoveThreshold ≤ k - windowStart)
    (hnear : k + 1 < windowStart + kColumnPeriod / 2) :
    ({ d with lastRecovery := some (⟨0, columnOf k, 1, 1⟩, k + 1) } :
      Decoder Unit Nat).removeElements =
    ({ d with
      lastRecovery := some (⟨0, columnOf k, 1, 1⟩, k + 1)
      sumColumnCount := 0 } : Decoder Unit Nat).shift ((k - windowStart) / kSubwindowSize) := by
  have hcount := h.sound.count_le
  have hle := h.sound.next_le
  have hends : RecoveryMetadata.EndsAt ⟨0, columnOf k, 1, 1⟩ (k + 1) :=
    ⟨Nat.one_pos, Nat.le_refl 1, Nat.le_add_left 1 k, rfl⟩
  have hthreshold : kDecoderRemoveThreshold = 128 := rfl
  have helement : d.window.columnToElement (columnOf k + 1) = k + 1 - windowStart := by
    rw [Decoder.Placed.columnToElement_end hends]
    exact h.columnToElement_of_ge (by omega) (by simp only [kColumnPeriod] at hcount ⊢; omega)
  have hplan : ({ d with lastRecovery := some (⟨0, columnOf k, 1, 1⟩, k + 1) } :
      Decoder Unit Nat).planRemoval = some ⟨k - windowStart, columnOf k, 1, false⟩ := by
    have hpositive : ¬ (isColumnDeltaNegative (k + 1 - windowStart) = true ∨
        k + 1 - windowStart < 1) := by
      rw [isColumnDeltaNegative_iff]
      omega
    unfold Decoder.planRemoval
    simp only [hnone, Decoder.lastRecoveryMetadata, helement]
    rw [if_neg hpositive]
    have hlast : k + 1 - windowStart - 1 = k - windowStart := by omega
    rw [hlast]
    rfl
  unfold Decoder.removeElements
  rw [if_neg (by simp only; omega), hplan]
  simp only
  rw [if_neg (by omega)]
  rfl

theorem addRecovery_single {d : Decoder Unit Nat} {windowStart added k : Nat}
    (h : d.Placed windowStart added) (hnone : d.recoveryPackets = [])
    (henabled : d.emergencyDisabled = false) (hlatest : d.latestColumn ≤ k)
    (hnext : windowStart + d.window.nextExpectedElement = k + 1)
    (hfar : kDecoderRemoveThreshold ≤ k - windowStart) (hnear : k + 1 < kColumnPeriod / 2) :
    d.addRecovery ⟨0, columnOf k, 1, 1⟩ (k + 1) (some ()) false =
      ({ d with
        latestColumn := columnOf (k + 1)
        lastRecovery := some (⟨0, columnOf k, 1, 1⟩, k + 1)
        sumColumnCount := 0 } : Decoder Unit Nat).shift ((k - windowStart) / kSubwindowSize) := by
  have hle := h.sound.next_le
  have hthreshold : kDecoderRemoveThreshold = 128 := rfl
  have hcolumn : columnOf k = k := columnOf_eq_self (by simp only [kColumnPeriod] at hnear ⊢; omega)
  have horder : isColumnDeltaNegative (unsignedSub (columnOf k + 1) d.latestColumn) = false := by
    rw [hcolumn, unsignedSub_eq (by omega) (by simp only [kColumnPeriod] at hnear; omega),
      isColumnDeltaNegative_eq_false_iff]
    omega
  have hends : RecoveryMetadata.EndsAt ⟨0, columnOf k, 1, 1⟩ (k + 1) :=
    ⟨Nat.one_pos, Nat.le_refl 1, Nat.le_add_left 1 k, rfl⟩
  have helement : d.window.columnToElement (columnOf k + 1) = k + 1 - windowStart := by
    rw [Decoder.Placed.columnToElement_end hends]
    exact h.columnToElement_of_ge (by omega) (by simp only [kColumnPeriod] at hnear ⊢; omega)
  have hpositive : isColumnDeltaNegative (k + 1 - windowStart) = false := by
    rw [isColumnDeltaNegative_eq_false_iff]
    omega
  have hlast : k + 1 - windowStart - 1 = k - windowStart := by omega
  unfold Decoder.addRecovery Decoder.placeRecovery
  rw [if_neg (by simp [henabled])]
  simp only [horder, helement, hpositive, hlast, Bool.false_eq_true, if_false,
    addColumns_columnOf]
  rw [if_neg (by omega), if_neg (by omega), if_pos (by omega), if_pos (by omega)]
  exact removeElements_single (h.latestColumn (columnOf (k + 1))) hnone hnext hfar (by omega)

theorem CaughtUp.slide {s : Link} {k : Nat} (h : s.CaughtUp k) (hstart : s.windowStart = 0)
    (hfar : kDecoderRemoveThreshold ≤ k) (hnear : k + 1 < kColumnPeriod / 2) :
    ∃ events s', Run Steps s events s' ∧ s'.CaughtUp (k + 1) ∧
      s'.windowStart = k / kSubwindowSize * kSubwindowSize := by
  obtain ⟨hadd, h₁, hold, hfirst⟩ := h.addOne
  have hlane : k % kColumnLaneCount < 8 := Nat.mod_lt _ (by decide)
  have hmade := encode_single hold (by rw [hfirst]; have := Nat.mod_le k kColumnLaneCount; omega)
    (by rw [hfirst]; simp only [kEncoderRemoveThreshold, kSubwindowSize, kColumnLaneCount] at *; omega)
  have hencode := Steps.encode s.addOne _ _ hmade
  have htimely₁ : s.addOne.Timely .encode := trivial
  have h₂ := h₁.step htimely₁ hencode
  obtain ⟨s₃, horiginal, h₃, hstart₃, hnext, henabled, hnone, hlatest, hencoder, hadded, hack,
    hrecoveries, hacks⟩ := original_next h₂ (show s.added + 1 = k + 1 by rw [h.added_eq])
      h.nextExpected_eq h.count_eq h.enabled h.none_stored
      (show k < s.windowStart + kColumnPeriod / 2 by omega)
  have hstart₃' : s₃.windowStart = 0 := hstart₃.trans hstart
  let packet : RecoveryMetadata × Nat := (⟨0, columnOf k, 1, 1⟩, k + 1)
  have hmem : packet ∈ s₃.recoveries := by
    rw [hrecoveries]
    have hk : s.addOne.added = k + 1 := congrArg (· + 1) h.added_eq
    rw [hk]
    exact List.mem_cons_self
  have hrecovery : Steps s₃ (.recovery packet false) _ := .recovery s₃ packet false hmem
  have htimely₃ : s₃.Timely (.recovery packet false) := by
    refine ⟨?_, ?_⟩ <;> rw [hstart₃'] <;> exact Nat.zero_le _
  have h₄ := h₃.step htimely₃ hrecovery
  have hnext' : 0 + s₃.decoder.window.nextExpectedElement = k + 1 := by
    unfold nextExpected at hnext
    rw [hstart₃'] at hnext
    exact hnext
  have hplaced : s₃.decoder.Placed 0 s₃.added := hstart₃' ▸ h₃.decoder
  have hdecoder := addRecovery_single hplaced hnone henabled
    (by rw [hlatest]; exact h.latest_le) hnext' (by omega) hnear
  have hremoved := Nat.div_mul_le_self k kSubwindowSize
  have hslid := hplaced.sound.shift_next (k := k / kSubwindowSize) (by omega)
  have hstart₄ : (s₃.withDecoder (s₃.decoder.addRecovery packet.1 packet.2 (some ())
      false)).windowStart = k / kSubwindowSize * kSubwindowSize := by
    simp only [Link.withDecoder, packet, hdecoder, Decoder.shift, DecoderPacketWindow.shift,
      DecoderPacketWindow.elementToColumn, hplaced.columnStart_eq, addColumns_columnOf_right,
      hstart₃', Nat.sub_zero]
    rw [subtractColumns_columnOf (Nat.le_add_right _ _)
      (by simp only [kColumnPeriod] at hnear ⊢; omega)]
    omega
  obtain ⟨events, s₅, hrun, hcaught, hstart₅, -⟩ := acknowledge_all h₄
    (show s₃.added = k + 1 by rw [hadded]; exact congrArg (· + 1) h.added_eq)
    (show s₃.acknowledged = k by rw [hack]; exact h.acknowledged_eq)
    (by
      unfold nextExpected
      rw [hstart₄]
      simp only [Link.withDecoder, packet, hdecoder, Decoder.shift, Nat.sub_zero, hslid]
      omega)
    (by simp only [Link.withDecoder, packet, hdecoder, Decoder.shift, henabled])
    (by simp [Link.withDecoder, packet, hdecoder, Decoder.shift, hnone, decrementElementCounters])
    (by
      simp only [Link.withDecoder, packet, hdecoder, Decoder.shift]
      exact Nat.mod_le _ _)
    (show 0 < s₃.encoder.window.count by
      have hlt := hold.first_lt
      rw [hencoder]
      simp only
      omega)
    (show 0 < k → (serializeHeaderPacketNum 1, 1) ∈ s₃.acks by rw [hacks]; exact h.first_ack)
  exact ⟨_, s₅, .cons hadd (.cons hencode (.cons horiginal (.cons hrecovery hrun))), hcaught,
    hstart₅.trans hstart₄⟩

/-- One acknowledgement more than half a column period late empties the encoder's window while the
decoder still waits for the packet in it. -/
theorem late_acknowledgement_empties_window :
    ¬ ∀ events s, Run Steps initial events s → s.WindowsAgree := by
  intro hall
  obtain ⟨events₁, s₁, hrun₁, h₁, hstart₁⟩ := caughtUp_initial.rounds 128 (by decide)
  obtain ⟨events₂, s₂, hrun₂, h₂, hstart₂⟩ := h₁.slide hstart₁ (by decide) (by decide)
  obtain ⟨events₃, s₃, hrun₃, h₃, hstart₃⟩ := h₂.rounds (2 ^ 21 - 121) (by rw [hstart₂]; decide)
  have hpackets : 0 + 128 + 1 + (2 ^ 21 - 121) = 2 ^ 21 + 8 := by decide
  rw [hpackets] at h₃
  obtain ⟨hadd, -, hold, -⟩ := h₃.addOne
  have hack := Steps.acknowledge s₃.addOne (serializeHeaderPacketNum 1, 1) 0
    (h₃.first_ack (by omega))
  have hagree := hall _ _ (((hrun₁.append hrun₂).append hrun₃).snoc hadd |>.snoc hack)
  have hempty : (s₃.addOne.encoder.acknowledge 0 (serializeHeaderPacketNum 1)).1.window.count =
      0 := by
    have hcolumn : s₃.addOne.encoder.ack.nextColumnExpected = columnOf (2 ^ 21 + 8) := by
      have heq := h₃.inv.encoder.ack_eq
      rw [h₃.acknowledged_eq] at heq
      exact heq
    have hwindow := onAcknowledgementData_header s₃.addOne.encoder.window 0
      (show 1 < siamesePacketNumCount by decide) (by rw [hcolumn]; decide) (by rw [hcolumn]; decide)
    have hstart := hold.columnStart_eq
    have hcount := hold.count_eq
    have hlost : s₃.addOne.encoder.window.columnToElement 1 = 2 ^ 21 - 7 := by
      rw [EncoderPacketWindow.columnToElement, hstart]
      decide
    have hone : s₃.addOne.encoder.window.count = 1 := by
      simp only [kColumnLaneCount] at hcount
      omega
    simp only [Encoder.acknowledge]
    rw [hwindow, EncoderPacketWindow.removeBefore, hlost, hone]
    rfl
  have hnext : (s₃.addOne.acknowledge 0 (serializeHeaderPacketNum 1, 1)).nextExpected =
      2 ^ 21 + 8 := h₃.nextExpected_eq
  have hadded : (s₃.addOne.acknowledge 0 (serializeHeaderPacketNum 1, 1)).added = 2 ^ 21 + 8 + 1 :=
    congrArg (· + 1) h₃.added_eq
  have hheld := (hagree.held (2 ^ 21 + 8) (by omega) (by omega)).2
  simp only [Link.acknowledge] at hheld
  rw [hempty] at hheld
  exact absurd hheld (Nat.not_lt_zero _)

end Link
end Tonk.Siamese
