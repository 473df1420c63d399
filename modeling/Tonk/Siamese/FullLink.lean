import Tonk.Siamese.DecodedRegion
import Tonk.Siamese.RecoveryWire
import Tonk.Siamese.Link

/-!
An encoder and a decoder with their data, over a network that loses, repeats and reorders originals,
recovery packets and acknowledgements. What the decoder hands out are the packets the encoder was
given, each of them once.
-/

set_option autoImplicit false

namespace Tonk.Siamese
open Protocol Transition

/-- What Get and Decode hand out of a packet: the bytes behind its length. -/
def OriginalPacket.data (original : OriginalPacket) : Bytes :=
  DataBuffer.toBytes (original.buffer.drop original.headerBytes)

theorem packetOf_data (packets : List Bytes) (n : Nat) :
    (packetOf packets n).data = packets.getD n [] := by
  unfold OriginalPacket.data packetOf OriginalPacket.initialized
  simp only
  rw [← List.map_drop, List.drop_left, DataBuffer.toBytes_map_byteElement]

/-- A row of sums that starts with the packet `n`. -/
def sumsStartAt (m : RecoveryMetadata) (buffer : RecoveryData) (n : Nat) : Bool :=
  decide (siameseCauchyThreshold < m.sumCount) && buffer.packetEnd - m.sumCount == n

namespace FullDecoder

def get (f : FullDecoder) (packetNum : Nat) : SiameseResult × Option Bytes :=
  let (result, original) := f.solver.decoder.get packetNum
  (result, original.map OriginalPacket.data)

/-- Whether the sums the decoder keeps, or a row of sums it has stored or has the metadata of, may
start with the packet `n`. -/
def usesStart (f : FullDecoder) (n : Nat) : Bool :=
  let d := f.solver.decoder
  columnOf n == d.sumColumnStart ||
    d.recoveryPackets.any (fun r => sumsStartAt r.metadata r.buffer n) ||
    d.lastRecovery.any (fun (m, buffer) => sumsStartAt m buffer n)

namespace Correct

variable {f : FullDecoder} {packets : List Bytes} {starts delivered : List Nat}
variable {received : Nat → Option OriginalPacket} {base sumStart : Nat}

theorem received_of_lt (h : f.Correct packets starts received base sumStart delivered) {n : Nat}
    (hn : n < base + f.solver.decoder.window.nextExpectedElement) : (received n).isSome = true := by
  by_cases hpast : n < base
  · exact h.holds.past n hpast
  · have hgot := h.holds.sound.before_next (n - base) (by simp only [data]; omega)
    rw [h.holds.sound.got_eq, h.holds.contents, Nat.add_sub_cancel' (Nat.le_of_not_lt hpast)] at hgot
    exact hgot

theorem addPacket (h : f.Correct packets starts received base sumStart delivered) {data : Bytes}
    (hdata : Addable data) :
    f.Correct (packets ++ [data]) starts received base sumStart delivered := by
  have harrived : ∀ m buffer, Arrived packets starts m buffer →
      Arrived (packets ++ [data]) starts m buffer := by
    intro m buffer ha
    refine ⟨ha.readable, ?_, ?_, ha.start_mem⟩
    · rw [List.take_append_of_le_length ha.end_le]
      exact ha.combines
    · rw [List.length_append]
      exact Nat.le_add_right_of_le ha.end_le
  have hsame : ∀ n < packets.length, packetOf (packets ++ [data]) n = packetOf packets n :=
    fun n hn => EncoderData.packetOf_append_of_lt packets data hn
  refine ⟨h.working, h.holds, ⟨fun d hd => ?_, fun n original hn => ?_⟩,
    fun r hr => harrived _ _ (h.arrived r hr), h.place, h.sums, h.start_mem, h.apart,
    fun m buffer hm => ?_, ?_, h.empty⟩
  · rcases List.mem_append.mp hd with hd | hd
    · exact h.sent.addable d hd
    · rw [List.mem_singleton.mp hd]
      exact hdata
  · obtain ⟨hlt, heq⟩ := h.sent.received n original hn
    rw [List.length_append, hsame n hlt]
    exact ⟨Nat.lt_add_right _ hlt, heq⟩
  · obtain ⟨ha, hend, hneeded⟩ := h.last m buffer hm
    exact ⟨harrived m buffer ha, hend, hneeded⟩
  · obtain ⟨numbers, hpending, hnodup, hall⟩ := h.delivers
    refine ⟨numbers, hpending.trans (List.map_congr_left fun n hn => ?_), hnodup, hall⟩
    obtain ⟨original, hsome⟩ :=
      Option.isSome_iff_exists.mp ((hall n).mpr (List.mem_append_left delivered hn))
    rw [hsame n (h.sent.received n original hsome).1]

/-- One more row of sums may arrive, if its start is no different packet with the same column as the
start of another. -/
theorem addStart (h : f.Correct packets starts received base sumStart delivered) {start : Nat}
    (hapart : ∀ n ∈ starts, columnOf n = columnOf start → n = start) :
    f.Correct packets (start :: starts) received base sumStart delivered := by
  have hsub : ∀ n ∈ starts, n ∈ start :: starts := fun n hn => List.mem_cons_of_mem _ hn
  refine ⟨h.working, h.holds, h.sent, fun r hr => (h.arrived r hr).mono hsub, h.place, h.sums,
    hsub _ h.start_mem, fun n hn n' hn' heq => ?_, fun m buffer hm => ?_, h.delivers, h.empty⟩
  · rcases List.mem_cons.mp hn with rfl | hold
    · rcases List.mem_cons.mp hn' with rfl | hold'
      · rfl
      · exact (hapart n' hold' heq.symm).symm
    · rcases List.mem_cons.mp hn' with rfl | hold'
      · exact hapart n hold heq
      · exact h.apart n hold n' hold' heq
  · obtain ⟨ha, hend, hneeded⟩ := h.last m buffer hm
    exact ⟨ha.mono hsub, hend, hneeded⟩

theorem prune (h : f.Correct packets starts received base sumStart delivered) :
    f.Correct packets (starts.filter f.usesStart) received base sumStart delivered := by
  have hcolumn : columnOf sumStart = f.solver.decoder.sumColumnStart := by
    cases h.sums with
    | running pending hrunning => exact hrunning.column_eq.symm
    | givenUp hgiven => exact hgiven.column_eq.symm
  have harrived : ∀ m buffer, (∀ n, sumsStartAt m buffer n = true → f.usesStart n = true) →
      Arrived packets starts m buffer →
      Arrived packets (starts.filter f.usesStart) m buffer := by
    intro m buffer huses ha
    refine ⟨ha.readable, ha.combines, ha.end_le, fun hmany => ?_⟩
    refine List.mem_filter.mpr ⟨ha.start_mem hmany, huses _ ?_⟩
    simp only [sumsStartAt, hmany, decide_true, beq_self_eq_true, Bool.and_self]
  refine ⟨h.working, h.holds, h.sent, fun r hr => harrived _ _ (fun n hn => ?_) (h.arrived r hr),
    h.place, h.sums, ?_, fun n hn n' hn' => ?_, fun m buffer hm => ?_, h.delivers, h.empty⟩
  · have hany : f.solver.decoder.recoveryPackets.any
        (fun r => sumsStartAt r.metadata r.buffer n) = true := List.any_eq_true.mpr ⟨r, hr, hn⟩
    simp only [usesStart, hany, Bool.or_true, Bool.true_or]
  · refine List.mem_filter.mpr ⟨h.start_mem, ?_⟩
    simp only [usesStart, hcolumn, beq_self_eq_true, Bool.true_or]
  · exact h.apart n (List.mem_filter.mp hn).1 n' (List.mem_filter.mp hn').1
  · obtain ⟨ha, hend, hneeded⟩ := h.last m buffer hm
    refine ⟨harrived m buffer (fun n hn => ?_) ha, hend, hneeded⟩
    simp only [usesStart, hm, Option.any_some, hn, Bool.or_true]

end Correct
end FullDecoder

namespace TracedEncoder

/-- The encoder has all packets from `acknowledged` on. -/
def Following (t : TracedEncoder) (acknowledged : Nat) : Prop :=
  t.encoder.positions.Following t.packets.length acknowledged

variable {t : TracedEncoder} {acknowledged : Nat}

theorem Following.add (h : t.Following acknowledged) (nowMsec : Nat) (data : Bytes) :
    (t.step (.add nowMsec data)).Following acknowledged := by
  cases hoff : t.encoder.emergencyDisabled with
  | true =>
    have hsame : t.step (.add nowMsec data) = t := by
      simp [TracedEncoder.step, FullEncoder.add, hoff]
    rw [hsame]
    exact h
  | false =>
    obtain ⟨hpositions, hresult⟩ := FullEncoder.add_positions hoff nowMsec data
    simp only [TracedEncoder.step]
    split
    · next hok =>
      simp only [Following, List.length_append, List.length_singleton]
      rw [hpositions]
      exact Encoder.Following.add h nowMsec (hresult ▸ hok)
    · next hfull =>
      have hsame : (t.encoder.positions.add nowMsec).1 = t.encoder.positions := by
        rw [hresult] at hfull
        simp only [Encoder.add, EncoderPacketWindow.add] at hfull ⊢
        split
        · rfl
        · next hroom => simp [hroom] at hfull
      simp only [Following]
      rw [hpositions, hsame]
      exact h

theorem Following.retransmit (h : t.Following acknowledged) (nowMsec retransmitMsec : Nat) :
    (t.step (.retransmit nowMsec retransmitMsec)).Following acknowledged := by
  obtain ⟨ack, lastSendMsec, hnext, hpositions⟩ :=
    t.encoder.retransmit_positions nowMsec retransmitMsec
  simp only [TracedEncoder.step, Following, hpositions]
  refine ⟨hnext.trans h.ack_eq, ?_⟩
  rcases h.window with hempty | ⟨base, hold, hfirst⟩
  · exact .inl hempty
  · exact .inr ⟨base, ⟨hold.nextColumn_eq, hold.columnStart_eq, hold.count_eq, hold.first_lt,
      hold.count_le, hold.sums⟩, hfirst⟩

theorem Following.encode (h : t.Following acknowledged) (hsane : t.Sane) :
    (t.step .encode).Following acknowledged ∧ ∀ m recovery,
      t.encoder.encode.2 = some (m, recovery) → t.packets.length ≤ acknowledged + m.ldpcCount := by
  cases hoff : t.encoder.emergencyDisabled with
  | true =>
    have hnone : t.encoder.encode = (t.encoder, none) := by simp [FullEncoder.encode, hoff]
    simp only [TracedEncoder.step, Following, hnone]
    refine ⟨h, fun m recovery hmade => ?_⟩
    cases hmade
  | false =>
    obtain ⟨hpositions, hmetadata⟩ := FullEncoder.encode_positions hsane.summed.holds hoff
    simp only [TracedEncoder.step, Following, hpositions]
    cases hencoded : t.encoder.positions.encode with
    | mk e made =>
      rw [hencoded] at hmetadata
      cases made with
      | none =>
        have hempty : t.encoder.positions.window.count = 0 := by
          by_contra hpos
          rw [Encoder.encode_eq _ (Nat.pos_of_ne_zero hpos)] at hencoded
          simp at hencoded
        have hsame : e = t.encoder.positions := by
          unfold Encoder.encode at hencoded
          rw [if_pos (Nat.le_of_eq hempty)] at hencoded
          exact (congrArg Prod.fst hencoded).symm
        refine ⟨hsame ▸ h, fun m recovery hmade => ?_⟩
        rw [hmade] at hmetadata
        cases hmetadata
      | some metadata =>
        obtain ⟨hfollowing, -, hle⟩ := Encoder.Following.encode h hencoded
        refine ⟨hfollowing, fun m recovery hmade => ?_⟩
        rw [hmade] at hmetadata
        cases hmetadata
        exact hle

theorem Following.acknowledge (h : t.Following acknowledged) {next : Nat}
    (hnext : next ≤ t.packets.length) (htimely : acknowledged ≤ next + kColumnPeriod / 2)
    (nowMsec : Nat) {message : Bytes} {headerBytes : Nat}
    (hread : deserializeHeaderPacketNum message = some (columnOf next, headerBytes)) :
    (t.step (.acknowledge nowMsec message)).Following
      (if t.encoder.emergencyDisabled ∨ isColumnDeltaNegative
        (subtractColumns (columnOf next) t.encoder.ack.nextColumnExpected) then acknowledged
      else next) := by
  cases hoff : t.encoder.emergencyDisabled with
  | true =>
    simp only [TracedEncoder.step, Following, FullEncoder.acknowledge, hoff, if_true, true_or]
    exact h
  | false =>
    have hpositions := FullEncoder.acknowledge_positions hoff nowMsec message
    have hack : t.encoder.positions.ack = t.encoder.ack := rfl
    simp only [TracedEncoder.step, Following, hpositions, Bool.false_eq_true, false_or]
    rw [← hack]
    exact (Encoder.Following.acknowledge h hnext htimely nowMsec hread).1

end TracedEncoder

/-- `windowStart` is the number of the first packet in the decoder's window, `acknowledged` the next
expected packet of the last acknowledgement the encoder took, `sumStarts` the packets that rows of
sums the decoder knows of start with. What has been handed out is in `delivered`, the newest first. -/
structure FullLink where
  encoder : TracedEncoder
  decoder : FullDecoder
  windowStart : Nat
  acknowledged : Nat
  sumStarts : List Nat
  recoveries : List (RecoveryMetadata × RecoveryData)
  acks : List (Bytes × Nat)
  delivered : List (Nat × Bytes)

namespace FullLink

def initial : FullLink := ⟨.initial, .initial, 0, 0, [0], [], [], []⟩

def packets (s : FullLink) : List Bytes := s.encoder.packets

def nextExpected (s : FullLink) : Nat :=
  s.windowStart + s.decoder.solver.decoder.window.nextExpectedElement

def disabled (s : FullLink) : Bool := s.decoder.solver.decoder.emergencyDisabled

def withDecoder (s : FullLink) (decoder : FullDecoder) : FullLink :=
  { s with
    decoder := decoder
    windowStart := s.windowStart + subtractColumns decoder.solver.decoder.window.columnStart
      s.decoder.solver.decoder.window.columnStart
    sumStarts := s.sumStarts.filter decoder.usesStart }

/-- The data of an original reach the application unless the decoder has them already. -/
def addOriginal (s : FullLink) (n : Nat) : FullLink :=
  let (decoder, result) := s.decoder.addOriginal (columnOf n) (s.packets.getD n [])
  let delivered := if result = .success then (columnOf n, s.packets.getD n []) :: s.delivered
    else s.delivered
  { s.withDecoder decoder with delivered := delivered }

def addRecovery (s : FullLink) (r : RecoveryMetadata × RecoveryData) : FullLink :=
  let sumStarts := if siameseCauchyThreshold < r.1.sumCount then
    (r.2.packetEnd - r.1.sumCount) :: s.sumStarts else s.sumStarts
  { s with sumStarts := sumStarts }.withDecoder
    (s.decoder.addRecoveryPacket (recoveryPacketBytes r.1 r.2.bytes) r.2.packetEnd)

def decode (s : FullLink) : FullLink :=
  let (decoder, _, recovered) := s.decoder.decode
  { s.withDecoder decoder with
    delivered := recovered.map (fun (column, original) => (column, original.data)) ++ s.delivered }

def acknowledge (s : FullLink) (nowMsec : Nat) (ack : Bytes × Nat) : FullLink :=
  let e := s.encoder.encoder
  { s with
    encoder := s.encoder.step (.acknowledge nowMsec ack.1)
    acknowledged := if e.emergencyDisabled ∨ isColumnDeltaNegative
      (subtractColumns (columnOf ack.2) e.ack.nextColumnExpected) then s.acknowledged else ack.2 }

inductive Event where
  | add (nowMsec : Nat) (data : Bytes)
  | encode
  | retransmit (nowMsec retransmitMsec : Nat)
  | original (n : Nat)
  | recovery (r : RecoveryMetadata × RecoveryData)
  | decode
  | generateAcknowledgement (byteLimit : Nat)
  | acknowledge (ack : Bytes × Nat) (nowMsec : Nat)

inductive Steps : FullLink → Event → FullLink → Prop where
  | add (s : FullLink) (nowMsec : Nat) (data : Bytes) : Addable data →
      Steps s (.add nowMsec data) { s with encoder := s.encoder.step (.add nowMsec data) }
  | encode (s : FullLink) (m : RecoveryMetadata) (recovery : DataBuffer) :
      s.encoder.encoder.encode.2 = some (m, recovery) →
      Steps s .encode { s with
        encoder := s.encoder.step .encode
        recoveries := (m, ⟨recovery, s.packets.length⟩) :: s.recoveries }
  | retransmit (s : FullLink) (nowMsec retransmitMsec : Nat) :
      Steps s (.retransmit nowMsec retransmitMsec)
        { s with encoder := s.encoder.step (.retransmit nowMsec retransmitMsec) }
  | original (s : FullLink) (n : Nat) : n < s.packets.length →
      Steps s (.original n) (s.addOriginal n)
  | recovery (s : FullLink) (r : RecoveryMetadata × RecoveryData) : r ∈ s.recoveries →
      Steps s (.recovery r) (s.addRecovery r)
  | decode (s : FullLink) : Steps s .decode s.decode
  | generateAcknowledgement (s : FullLink) (byteLimit : Nat) (message : Bytes) :
      byteLimit < 2 ^ 32 → s.disabled = false →
      s.decoder.solver.decoder.window.generateAcknowledgement byteLimit = some message →
      Steps s (.generateAcknowledgement byteLimit)
        { s with acks := (message, s.nextExpected) :: s.acks }
  | acknowledge (s : FullLink) (ack : Bytes × Nat) (nowMsec : Nat) : ack ∈ s.acks →
      Steps s (.acknowledge ack nowMsec) (s.acknowledge nowMsec ack)

/-- Nothing is used more than half a column period late, as in `Link`, and a row of sums does not
start with another packet of the same column than a row the decoder knows of. -/
def Timely (s : FullLink) : Event → Prop
  | .original n => s.windowStart ≤ n + kColumnPeriod / 2
  | .recovery r => s.windowStart ≤ r.2.packetEnd + kColumnPeriod / 2 ∧
      s.windowStart ≤ s.decoder.solver.decoder.lastPacketEnd + kColumnPeriod / 2 ∧
      (siameseCauchyThreshold < r.1.sumCount → ∀ n ∈ s.sumStarts,
        columnOf n = columnOf (r.2.packetEnd - r.1.sumCount) → n = r.2.packetEnd - r.1.sumCount)
  | .decode => s.windowStart ≤ s.decoder.solver.decoder.lastPacketEnd + kColumnPeriod / 2
  | .acknowledge ack _ => s.acknowledged ≤ ack.2 + kColumnPeriod / 2
  | _ => True

/-- Packets wait for Decode as pointers into the buffers of the window, which a later packet may be
written to: Decode hands them out before the next packet comes. -/
def HandedOut (s : FullLink) : Event → Prop
  | .original _ | .recovery _ => s.decoder.solver.decoder.hasRecoveredPackets = false
  | _ => True

/-- What the two sides and the messages between them have to do with each other, when the packets of
`numbers` have been handed out. -/
structure Agrees (s : FullLink) (numbers : List Nat) : Prop where
  encoder : s.encoder.Following s.acknowledged
  decoder : ∃ received sumStart, s.decoder.Correct s.packets s.sumStarts received s.windowStart
    sumStart numbers
  acknowledged_le : s.acknowledged ≤ s.nextExpected
  recoveries : ∀ r ∈ s.recoveries, r.2.packetEnd ≤ s.nextExpected + r.1.ldpcCount
  acks : ∀ a ∈ s.acks, a.2 ≤ s.nextExpected ∧
    ∃ headerBytes, deserializeHeaderPacketNum a.1 = some (columnOf a.2, headerBytes)

/-- What has been handed out are packets of these numbers, and as long as the decoder is not disabled
the two sides agree about the rest. -/
structure Inv (s : FullLink) (numbers : List Nat) : Prop where
  sane : s.encoder.Sane
  addable : ∀ data ∈ s.packets, Addable data
  made : ∀ r ∈ s.recoveries, Combines r.1 r.2.bytes (s.packets.take r.2.packetEnd) ∧
    r.2.packetEnd ≤ s.packets.length ∧ r.1.InRange
  sent : numbers.Nodup ∧ ∀ n ∈ numbers, n < s.packets.length
  delivered_eq : s.delivered = numbers.map fun n => (columnOf n, s.packets.getD n [])
  agrees : s.disabled = true ∨ s.Agrees numbers

theorem inv_initial : initial.Inv [] := by
  refine ⟨TracedEncoder.sane_run [], ?_, ?_, ⟨List.nodup_nil, ?_⟩, rfl, .inr ⟨?_, ?_, ?_, ?_, ?_⟩⟩
  · exact fun data hdata => absurd hdata List.not_mem_nil
  · exact fun r hr => absurd hr List.not_mem_nil
  · exact fun n hn => absurd hn List.not_mem_nil
  · exact Encoder.following_initial
  · exact ⟨_, _, FullDecoder.correct_initial fun data hdata => absurd hdata List.not_mem_nil⟩
  · exact Nat.le_refl 0
  · exact fun r hr => absurd hr List.not_mem_nil
  · exact fun a ha => absurd ha List.not_mem_nil

variable {s : FullLink} {numbers numbers' : List Nat}

theorem Agrees.nextExpected_le (h : s.Agrees numbers) : s.nextExpected ≤ s.packets.length := by
  obtain ⟨received, sumStart, hcorrect⟩ := h.decoder
  by_contra hlt
  have hless : s.nextExpected - 1 < s.nextExpected := by omega
  obtain ⟨original, hsome⟩ := Option.isSome_iff_exists.mp (hcorrect.received_of_lt hless)
  have hsent := (hcorrect.sent.received _ original hsome).1
  omega

theorem Agrees.packets_lt (h : s.Agrees numbers) :
    s.packets.length < s.windowStart + kColumnPeriod := by
  obtain ⟨received, sumStart, hcorrect⟩ := h.decoder
  have hadded := h.encoder.added_le
  have hle := h.acknowledged_le
  have hnext := hcorrect.holds.sound.next_le
  have hcount := hcorrect.holds.sound.count_le
  simp only [nextExpected, packets, FullDecoder.data, siameseMaxPackets, kColumnPeriod] at *
  omega

theorem Agrees.withDecoder (h : s.Agrees numbers) {starts : List Nat} {decoder : FullDecoder}
    (hstays : decoder.StaysCorrect s.packets starts s.windowStart s.nextExpected numbers') :
    decoder.solver.decoder.emergencyDisabled = true ∨
      ({ s with sumStarts := starts }.withDecoder decoder).Agrees numbers' := by
  refine hstays.2.imp_right ?_
  rintro ⟨received, slid, sumStart, hslid, hexpected, hcorrect⟩
  obtain ⟨received₀, sumStart₀, hold⟩ := h.decoder
  have hstart : ({ s with sumStarts := starts }.withDecoder decoder).windowStart =
      s.windowStart + slid := by
    have hnew : decoder.solver.decoder.window.columnStart = columnOf (s.windowStart + slid) :=
      hcorrect.holds.columnStart_eq
    have hold' : s.decoder.solver.decoder.window.columnStart = columnOf s.windowStart :=
      hold.holds.columnStart_eq
    have hhalf : kColumnPeriod / 2 < kColumnPeriod := by decide
    simp only [FullLink.withDecoder, hnew, hold']
    rw [subtractColumns_columnOf (Nat.le_add_right _ _) (by omega), Nat.add_sub_cancel_left]
  have hless : s.nextExpected ≤
      ({ s with sumStarts := starts }.withDecoder decoder).nextExpected := by
    have hless : s.nextExpected ≤ ({ s with sumStarts := starts }.withDecoder decoder).windowStart +
        decoder.solver.decoder.window.nextExpectedElement := by rw [hstart]; exact hexpected
    exact hless
  refine ⟨h.encoder, ⟨received, sumStart, ?_⟩, h.acknowledged_le.trans hless,
    fun r hr => (h.recoveries r hr).trans (Nat.add_le_add_right hless _),
    fun a ha => ⟨(h.acks a ha).1.trans hless, (h.acks a ha).2⟩⟩
  rw [hstart]
  exact hcorrect.prune

theorem Inv.withDecoder (h : s.Inv numbers) (starts : List Nat) (decoder : FullDecoder)
    {delivered : List (Nat × Bytes)}
    (hsent : numbers'.Nodup ∧ ∀ n ∈ numbers', n < s.packets.length)
    (hdelivered : delivered = numbers'.map fun n => (columnOf n, s.packets.getD n []))
    (hagrees : decoder.solver.decoder.emergencyDisabled = true ∨
      ({ s with sumStarts := starts }.withDecoder decoder).Agrees numbers') :
    Inv { { s with sumStarts := starts }.withDecoder decoder with delivered := delivered }
      numbers' :=
  ⟨h.sane, h.addable, h.made, hsent, hdelivered,
    hagrees.imp_right fun ha => ⟨ha.encoder, ha.decoder, ha.acknowledged_le, ha.recoveries, ha.acks⟩⟩

theorem Inv.addOriginal (h : s.Inv numbers) {n : Nat} (hn : n < s.packets.length)
    (htimely : s.windowStart ≤ n + kColumnPeriod / 2) :
    ∃ numbers', (s.addOriginal n).Inv numbers' := by
  rcases h.agrees with hdisabled | hagrees
  · have hdisabled' : s.decoder.solver.decoder.emergencyDisabled = true := hdisabled
    have hsame : s.decoder.addOriginal (columnOf n) (s.packets.getD n []) =
        (s.decoder, .disabled) := by
      unfold FullDecoder.addOriginal Solver.addOriginal Decoder.addOriginal
      simp only [hdisabled', if_true, reduceCtorEq, false_and, if_false]
      rfl
    refine ⟨numbers, ?_⟩
    simp only [FullLink.addOriginal, hsame, reduceCtorEq, if_false]
    exact h.withDecoder s.sumStarts s.decoder h.sent h.delivered_eq (.inl hdisabled)
  · obtain ⟨received, sumStart, hcorrect⟩ := hagrees.decoder
    have hstays := hcorrect.addOriginal hn htimely (hn.trans hagrees.packets_lt)
    unfold FullLink.addOriginal
    generalize s.decoder.addOriginal (columnOf n) (s.packets.getD n []) = added at hstays ⊢
    obtain ⟨decoder, result⟩ := added
    simp only at hstays ⊢
    refine ⟨_, h.withDecoder s.sumStarts decoder hstays.1 ?_ (hagrees.withDecoder hstays)⟩
    split
    · rw [List.map_cons, h.delivered_eq]
    · exact h.delivered_eq

theorem Inv.addRecovery (h : s.Inv numbers) {r : RecoveryMetadata × RecoveryData}
    (hr : r ∈ s.recoveries) (htimely : s.Timely (.recovery r)) : (s.addRecovery r).Inv numbers := by
  obtain ⟨hcombines, hend, hrange⟩ := h.made r hr
  obtain ⟨hlate, hlast, hapart⟩ := htimely
  have hmade := s.decoder.addRecoveryPacket_made hcombines hrange r.2.packetEnd
  unfold FullLink.addRecovery
  generalize s.decoder.addRecoveryPacket (recoveryPacketBytes r.1 r.2.bytes) r.2.packetEnd =
    decoder at hmade
  simp only
  generalize hsum : (if siameseCauchyThreshold < r.1.sumCount then
    (r.2.packetEnd - r.1.sumCount) :: s.sumStarts else s.sumStarts) = starts
  refine h.withDecoder starts decoder h.sent h.delivered_eq ?_
  rcases h.agrees with hdisabled | hagrees
  · refine .inl ?_
    rcases hmade with rfl | rfl
    · exact hdisabled
    · have hoff : s.decoder.solver.decoder.emergencyDisabled = true := hdisabled
      unfold FullDecoder.addRecovery
      rw [if_pos hoff]
      exact hoff
  · obtain ⟨received, sumStart, hcorrect⟩ := hagrees.decoder
    refine hagrees.withDecoder ?_
    have hstarts : s.decoder.Correct s.packets starts received s.windowStart sumStart numbers := by
      rw [← hsum]
      split
      · next hmany => exact hcorrect.addStart (hapart hmany)
      · exact hcorrect
    rcases hmade with rfl | rfl
    · exact .of_correct hstarts (Nat.le_refl _)
    · refine hstarts.addRecovery ⟨hrange.readable, hcombines, hend, fun hmany => ?_⟩ hlate
        (hagrees.recoveries r hr) hlast
      rw [← hsum, if_pos hmany]
      exact List.mem_cons_self

theorem Inv.decode (h : s.Inv numbers) (htimely : s.Timely .decode) :
    ∃ numbers', s.decode.Inv numbers' := by
  rcases h.agrees with hdisabled | hagrees
  · have hdisabled' : s.decoder.solver.decoder.emergencyDisabled = true := hdisabled
    have hsame : s.decoder.decode = (s.decoder, .disabled, []) := if_pos hdisabled'
    refine ⟨numbers, ?_⟩
    simp only [FullLink.decode, hsame, List.map_nil, List.nil_append]
    exact h.withDecoder s.sumStarts s.decoder h.sent h.delivered_eq (.inl hdisabled)
  · obtain ⟨received, sumStart, hcorrect⟩ := hagrees.decoder
    obtain ⟨recovered, hrecovered, hstays⟩ := hcorrect.decode htimely
    unfold FullLink.decode
    generalize s.decoder.decode = decoded at hrecovered hstays ⊢
    obtain ⟨decoder, result, originals⟩ := decoded
    simp only at hrecovered hstays ⊢
    refine ⟨recovered ++ numbers,
      h.withDecoder s.sumStarts decoder hstays.1 ?_ (hagrees.withDecoder hstays)⟩
    rw [hrecovered, List.map_map, List.map_append, h.delivered_eq]
    congr 1
    exact List.map_congr_left fun n _ => by simp only [Function.comp, packetOf_data]

theorem Inv.withEncoder (h : s.Inv numbers) (e : TracedEncoder) (hsane : e.Sane)
    (hpackets : e.packets = s.packets ∨ ∃ data, Addable data ∧ e.packets = s.packets ++ [data])
    (hfollowing : s.encoder.Following s.acknowledged → e.Following s.acknowledged) :
    Inv { s with encoder := e } numbers := by
  rcases hpackets with hsame | ⟨data, hdata, hmore⟩
  · have hsame' : packets { s with encoder := e } = s.packets := hsame
    refine ⟨hsane, hsame' ▸ h.addable, hsame' ▸ h.made, hsame' ▸ h.sent, hsame' ▸ h.delivered_eq,
      h.agrees.imp_right fun ha => ⟨hfollowing ha.encoder, hsame' ▸ ha.decoder, ha.acknowledged_le,
        ha.recoveries, ha.acks⟩⟩
  · have hmore' : packets { s with encoder := e } = s.packets ++ [data] := hmore
    have hlength : s.packets.length ≤ (s.packets ++ [data]).length := by
      rw [List.length_append]
      exact Nat.le_add_right _ _
    refine ⟨hsane, ?_, fun r hr => ?_, ⟨h.sent.1, fun n hn => ?_⟩, ?_,
      h.agrees.imp_right fun ha => ⟨hfollowing ha.encoder, ?_, ha.acknowledged_le, ha.recoveries,
        ha.acks⟩⟩
    · rw [hmore']
      intro d hd
      rcases List.mem_append.mp hd with hd | hd
      · exact h.addable d hd
      · rw [List.mem_singleton.mp hd]
        exact hdata
    · obtain ⟨hcombines, hend, hrange⟩ := h.made r hr
      rw [hmore', List.take_append_of_le_length hend]
      exact ⟨hcombines, hend.trans hlength, hrange⟩
    · rw [hmore']
      exact (h.sent.2 n hn).trans_le hlength
    · refine h.delivered_eq.trans (List.map_congr_left fun n hn => ?_)
      rw [hmore', List.getD_append _ _ _ _ (h.sent.2 n hn)]
    · obtain ⟨received, sumStart, hcorrect⟩ := ha.decoder
      rw [hmore']
      exact ⟨received, sumStart, hcorrect.addPacket hdata⟩

theorem Inv.add (h : s.Inv numbers) (nowMsec : Nat) {data : Bytes} (hdata : Addable data) :
    Inv { s with encoder := s.encoder.step (.add nowMsec data) } numbers := by
  refine h.withEncoder _ (h.sane.step _) ?_ fun hfollowing => hfollowing.add nowMsec data
  simp only [TracedEncoder.step]
  split
  · exact .inr ⟨data, hdata, rfl⟩
  · exact .inl rfl

theorem Inv.encode (h : s.Inv numbers) {m : RecoveryMetadata} {recovery : DataBuffer}
    (hmade : s.encoder.encoder.encode.2 = some (m, recovery)) :
    Inv { s with
      encoder := s.encoder.step .encode
      recoveries := (m, ⟨recovery, s.packets.length⟩) :: s.recoveries } numbers := by
  obtain ⟨hsane, haddable, hold, hsent, hdelivered, -⟩ :=
    h.withEncoder (s.encoder.step .encode) (h.sane.step .encode) (.inl rfl)
      fun hfollowing => (hfollowing.encode h.sane).1
  obtain ⟨hcombines, hrange⟩ := h.sane.encode hmade
  refine ⟨hsane, haddable, fun r hr => ?_, hsent, hdelivered, h.agrees.imp_right fun ha => ?_⟩
  · rcases List.mem_cons.mp hr with rfl | hr
    · have hall : (s.encoder.step .encode).packets = s.encoder.packets := rfl
      simp only [packets, hall, List.take_length]
      exact ⟨hcombines, Nat.le_refl _, hrange⟩
    · exact hold r hr
  · obtain ⟨hfollowing, hreach⟩ := ha.encoder.encode h.sane
    refine ⟨hfollowing, ha.decoder, ha.acknowledged_le, fun r hr => ?_, ha.acks⟩
    rcases List.mem_cons.mp hr with rfl | hr
    · exact (hreach m recovery hmade).trans (Nat.add_le_add_right ha.acknowledged_le _)
    · exact ha.recoveries r hr

theorem Inv.generateAcknowledgement (h : s.Inv numbers) {byteLimit : Nat} {message : Bytes}
    (hlimit : byteLimit < 2 ^ 32) (hmessage :
      s.decoder.solver.decoder.window.generateAcknowledgement byteLimit = some message) :
    Inv { s with acks := (message, s.nextExpected) :: s.acks } numbers := by
  refine ⟨h.sane, h.addable, h.made, h.sent, h.delivered_eq, h.agrees.imp_right fun ha =>
    ⟨ha.encoder, ha.decoder, ha.acknowledged_le, ha.recoveries, fun a hmem => ?_⟩⟩
  rcases List.mem_cons.mp hmem with rfl | hold
  · obtain ⟨received, sumStart, hcorrect⟩ := ha.decoder
    obtain ⟨rs, hwritten, -⟩ := hcorrect.holds.sound.generateAcknowledgement_spec hlimit hmessage
    have hcolumn : s.decoder.data.window.elementToColumn s.decoder.data.window.nextExpectedElement =
        columnOf s.nextExpected := by
      rw [DecoderPacketWindow.elementToColumn, hcorrect.holds.columnStart_eq,
        addColumns_columnOf_right]
      rfl
    refine ⟨Nat.le_refl _, (serializeHeaderPacketNum (columnOf s.nextExpected)).length, ?_⟩
    simp only
    rw [hwritten, hcolumn]
    exact deserializeHeaderPacketNum_serialize (columnOf_lt _) _
  · exact ha.acks a hold

theorem Inv.acknowledge (h : s.Inv numbers) {ack : Bytes × Nat} (hack : ack ∈ s.acks)
    (htimely : s.acknowledged ≤ ack.2 + kColumnPeriod / 2) (nowMsec : Nat) :
    (s.acknowledge nowMsec ack).Inv numbers := by
  refine ⟨h.sane.step (.acknowledge nowMsec ack.1), h.addable, h.made, h.sent, h.delivered_eq,
    h.agrees.imp_right fun ha => ?_⟩
  obtain ⟨hle, headerBytes, hread⟩ := ha.acks ack hack
  refine ⟨ha.encoder.acknowledge (hle.trans ha.nextExpected_le) htimely nowMsec hread, ha.decoder,
    ?_, ha.recoveries, ha.acks⟩
  simp only [FullLink.acknowledge]
  split
  · exact ha.acknowledged_le
  · exact hle

theorem Inv.step {s' : FullLink} {event : Event} (h : s.Inv numbers) (htimely : s.Timely event)
    (hstep : Steps s event s') : ∃ numbers', s'.Inv numbers' := by
  cases hstep with
  | add nowMsec data hdata => exact ⟨_, h.add nowMsec hdata⟩
  | encode m recovery hmade => exact ⟨_, h.encode hmade⟩
  | retransmit nowMsec retransmitMsec =>
    exact ⟨_, h.withEncoder _ (h.sane.step _) (.inl rfl)
      fun hfollowing => hfollowing.retransmit nowMsec retransmitMsec⟩
  | original n hn => exact h.addOriginal hn htimely
  | recovery r hr => exact ⟨_, h.addRecovery hr htimely⟩
  | decode => exact h.decode htimely
  | generateAcknowledgement byteLimit message hlimit _ hmessage =>
    exact ⟨_, h.generateAcknowledgement hlimit hmessage⟩
  | acknowledge ack nowMsec hack => exact ⟨_, h.acknowledge hack htimely nowMsec⟩

theorem inv_run {events : List Event} {s : FullLink}
    (hrun : Run (Restrict Timely Steps) initial events s) : ∃ numbers, s.Inv numbers :=
  hrun.invariant (P := fun s => ∃ numbers, s.Inv numbers) ⟨[], inv_initial⟩
    fun _ _ _ ⟨_, h⟩ hstep => h.step hstep.1 hstep.2

def twoAdded : FullLink :=
  { initial with
    encoder := (TracedEncoder.initial.step (.add 0 [1, 2, 3])).step (.add 0 [4, 5]) }

def twoAddedRecovery : RecoveryMetadata × RecoveryData :=
  (⟨0, 0, 2, 2⟩, ⟨[⟨1⟩, ⟨5⟩, ⟨7⟩, ⟨3⟩], 2⟩)

def firstRecovered : List Event :=
  [.add 0 [1, 2, 3], .add 0 [4, 5], .encode, .original 1, .recovery twoAddedRecovery, .decode]

theorem firstRecovered_run : ∃ s,
    Run (Restrict (fun s e => s.Timely e ∧ s.HandedOut e) Steps) initial firstRecovered s ∧
    s.packets = [[1, 2, 3], [4, 5]] ∧ s.delivered = [(0, [1, 2, 3]), (1, [4, 5])] ∧
    s.disabled = false ∧ s.windowStart = 0 ∧ s.nextExpected = 2 := by
  have hencoded : twoAdded.encoder.encoder.encode.2 = some (⟨0, 0, 2, 2⟩, [⟨1⟩, ⟨5⟩, ⟨7⟩, ⟨3⟩]) := by
    decide +kernel
  let s₁ : FullLink := { twoAdded with
    encoder := twoAdded.encoder.step .encode
    recoveries := [twoAddedRecovery] }
  have hencode : Steps twoAdded .encode s₁ := .encode twoAdded _ _ hencoded
  have hadded : Run (Restrict (fun s e => s.Timely e ∧ s.HandedOut e) Steps) initial
      [.add 0 [1, 2, 3], .add 0 [4, 5]] twoAdded :=
    .cons ⟨⟨trivial, trivial⟩, .add _ 0 _ ⟨by decide, by decide⟩⟩ <|
      .cons ⟨⟨trivial, trivial⟩, .add _ 0 _ ⟨by decide, by decide⟩⟩ (.nil _)
  have hstart : (s₁.addOriginal 1).windowStart = 0 := by decide +kernel
  have hstart' : ((s₁.addOriginal 1).addRecovery twoAddedRecovery).windowStart = 0 := by
    decide +kernel
  have hrecovery : (s₁.addOriginal 1).Timely (.recovery twoAddedRecovery) :=
    ⟨hstart ▸ Nat.zero_le _, hstart ▸ Nat.zero_le _, fun hmany => absurd hmany (by decide)⟩
  have hnone : (s₁.addOriginal 1).decoder.solver.decoder.hasRecoveredPackets = false := by
    decide +kernel
  have hdecode : ((s₁.addOriginal 1).addRecovery twoAddedRecovery).Timely .decode := by
    simp only [Timely, hstart', Nat.zero_le]
  refine ⟨((s₁.addOriginal 1).addRecovery twoAddedRecovery).decode,
    hadded.append <| .cons ⟨⟨trivial, trivial⟩, hencode⟩ <|
      .cons ⟨⟨Nat.zero_le _, rfl⟩, .original s₁ 1 (by decide +kernel)⟩ <|
      .cons ⟨⟨hrecovery, hnone⟩, .recovery _ _ List.mem_cons_self⟩ <|
      .cons ⟨⟨hdecode, trivial⟩, .decode _⟩ (.nil _), ?_⟩
  decide +kernel

/-- In every run in which nothing is used half a column period late and no packet comes while another
waits for Decode, what has been handed out are packets that were added, each of them once. None that
the decoder no longer waits for is missing, except those it hands out next. -/
theorem packets_delivered_once (events : List Event) (s : FullLink)
    (hrun : Run (Restrict (fun s e => s.Timely e ∧ s.HandedOut e) Steps) initial events s) :
    ∃ numbers : List Nat, numbers.Nodup ∧ (∀ n ∈ numbers, n < s.packets.length) ∧
      s.delivered = numbers.map (fun n => (columnOf n, s.packets.getD n [])) ∧
      (s.disabled = false → ∀ n < s.nextExpected,
        n ∈ numbers ∨ (columnOf n, packetOf s.packets n) ∈ s.decoder.pendingPackets) := by
  obtain ⟨numbers, h⟩ := inv_run (hrun.mono fun _ _ _ hstep => ⟨hstep.1.1, hstep.2⟩)
  refine ⟨numbers, h.sent.1, h.sent.2, h.delivered_eq, fun henabled n hn => ?_⟩
  rcases h.agrees with hdisabled | hagrees
  · rw [henabled] at hdisabled
    exact Bool.noConfusion hdisabled
  · obtain ⟨received, sumStart, hcorrect⟩ := hagrees.decoder
    obtain ⟨pending, hpending, -, hall⟩ := hcorrect.delivers
    rcases List.mem_append.mp ((hall n).mp (hcorrect.received_of_lt hn)) with hwaits | hout
    · refine .inr ?_
      rw [hpending]
      exact List.mem_map_of_mem hwaits
    · exact .inl hout

theorem packets_delivered_once_firstRecovered : ∃ s,
    Run (Restrict (fun s e => s.Timely e ∧ s.HandedOut e) Steps) initial firstRecovered s ∧
      s.delivered = [(0, [1, 2, 3]), (1, [4, 5])] ∧
      ∃ numbers : List Nat, numbers.Nodup ∧
        s.delivered = numbers.map (fun n => (columnOf n, s.packets.getD n [])) ∧
        ∀ n < 2, n ∈ numbers ∨ (columnOf n, packetOf s.packets n) ∈ s.decoder.pendingPackets := by
  obtain ⟨s, hrun, -, hdelivered, henabled, -, hnext⟩ := firstRecovered_run
  obtain ⟨numbers, hnodup, -, hall, hmissing⟩ := packets_delivered_once firstRecovered s hrun
  exact ⟨s, hrun, hdelivered, numbers, hnodup, hall, hnext ▸ hmissing henabled⟩

/-- In every run in which nothing is used half a column period late, Get finds the packet that was added
under a number in the window, or says that it needs more data. It never says so for a packet the
decoder no longer waits for. -/
theorem get_finds_added (events : List Event) (s : FullLink)
    (hrun : Run (Restrict Timely Steps) initial events s) (henabled : s.disabled = false) {n : Nat}
    (hge : s.windowStart ≤ n) (hlt : n < s.windowStart + kColumnPeriod) :
    n < s.packets.length ∧ s.decoder.get (columnOf n) = (.success, some (s.packets.getD n [])) ∨
      s.nextExpected ≤ n ∧ s.decoder.get (columnOf n) = (.needMoreData, none) := by
  obtain ⟨numbers, h⟩ := inv_run hrun
  rcases h.agrees with hdisabled | hagrees
  · rw [henabled] at hdisabled
    exact Bool.noConfusion hdisabled
  obtain ⟨received, sumStart, hcorrect⟩ := hagrees.decoder
  have hnone : received n = none → s.nextExpected ≤ n := by
    intro hn
    by_contra hless
    have hsome := hcorrect.received_of_lt (Nat.lt_of_not_le hless)
    rw [hn] at hsome
    exact Bool.noConfusion hsome
  have hcolumn : s.decoder.solver.decoder.window.columnStart = columnOf s.windowStart :=
    hcorrect.holds.columnStart_eq
  have helement : s.decoder.solver.decoder.window.columnToElement (columnOf n) =
      n - s.windowStart := by
    rw [DecoderPacketWindow.columnToElement, hcolumn, subtractColumns_columnOf hge (by omega)]
  have hcontents : s.decoder.solver.decoder.window.getWindowElement (n - s.windowStart) =
      received n := by
    have hsame := hcorrect.holds.contents (n - s.windowStart)
    rw [Nat.add_sub_cancel' hge] at hsame
    exact hsame
  have henabled' : s.decoder.solver.decoder.emergencyDisabled = false := henabled
  unfold FullDecoder.get Decoder.get
  simp only [henabled', helement, hcontents, Bool.false_eq_true, if_false]
  split
  · next hinvalid =>
    refine .inr ⟨hnone ?_, rfl⟩
    have hgot := hcorrect.holds.sound.got_lt (n - s.windowStart)
    rw [hcorrect.holds.sound.got_eq] at hgot
    simp only [FullDecoder.data, hcontents] at hgot
    simp only [DecoderPacketWindow.invalidElement, decide_eq_true_eq] at hinvalid
    by_contra hsome
    exact absurd (hgot (Option.isSome_iff_ne_none.mpr hsome)) (Nat.not_lt.mpr hinvalid)
  · cases hfound : received n with
    | none => exact .inr ⟨hnone hfound, rfl⟩
    | some original =>
      obtain ⟨hsent, rfl⟩ := hcorrect.sent.received n original hfound
      refine .inl ⟨hsent, ?_⟩
      simp only [Option.map_some, packetOf_data]

theorem get_finds_added_firstRecovered : ∃ s, Run (Restrict Timely Steps) initial
    firstRecovered s ∧ s.decoder.get (columnOf 0) = (.success, some [1, 2, 3]) := by
  obtain ⟨s, hrun, hpackets, -, henabled, hstart, hnext⟩ := firstRecovered_run
  have htimely : Run (Restrict Timely Steps) initial firstRecovered s :=
    hrun.mono fun _ _ _ hstep => ⟨hstep.1.1, hstep.2⟩
  refine ⟨s, htimely, ?_⟩
  rcases get_finds_added firstRecovered s htimely henabled (n := 0) (by rw [hstart])
    (by rw [hstart]; decide) with ⟨-, hfound⟩ | ⟨hmissing, -⟩
  · rw [hfound, hpackets]
    rfl
  · rw [hnext] at hmissing
    exact absurd hmissing (by decide)

end FullLink
end Tonk.Siamese
