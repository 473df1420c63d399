import Tonk.Lib.LittleEndian
import Tonk.Session.PostAcknowledgements
import Tonk.Session.Replay
import Tonk.Siamese.Encoder

set_option autoImplicit false

namespace Tonk.Siamese
open Protocol

/-- A message of the form GenerateAcknowledgement gives it is never invalid input, whatever the
encoder has taken before. -/
theorem EncoderAcknowledgementState.onAcknowledgementData_ok (s : EncoderAcknowledgementState)
    {next : Nat} (hnext : next < siamesePacketNumCount) {rs : List (Nat × Nat)} (hfit : RangesFit rs)
    (w : EncoderPacketWindow) (nowMsec : Nat) :
    (s.onAcknowledgementData w nowMsec (serializeHeaderPacketNum next ++ wireRanges rs)).ok =
      true := by
  by_cases hnew : s.TakesAsNew (serializeHeaderPacketNum next ++ wireRanges rs)
  · obtain ⟨o, ho, hok, -⟩ := onAcknowledgementData_new hnext hfit hnew w nowMsec
    rw [ho]
    exact hok
  · have hread := deserializeHeaderPacketNum_serialize hnext (wireRanges rs)
    unfold onAcknowledgementData
    rw [hread]
    simp only
    split
    · rfl
    · next hlater =>
      split
      · rfl
      · next hother =>
        refine absurd ?_ hnew
        intro next' headerBytes hread'
        rw [hread] at hread'
        cases hread'
        exact ⟨by simpa using hlater, hother⟩

end Tonk.Siamese

namespace Tonk.Session
open Protocol Siamese Serial Transition

/-- What OnAcknowledgements reads and writes: LastAck, the encoder, and what PeerCaughtUp and the
AckAck need. -/
structure LastAck where
  nextAcceptableNonce : Nat
  peerNextExpectedNonce : Nat
  peerNextExpectedSeqNum : Nat
  nextSequenceNumber : Nat
  fecEncoder : Encoder
  unreliable : OutgoingQueue

namespace LastAck

def initial : LastAck := ⟨0, 0, 0, 0, .initial, .empty⟩

def ackAck (s : LastAck) : LastAck × Except String Unit :=
  if s.peerNextExpectedSeqNum = s.nextSequenceNumber then
    match s.unreliable.queueMessage messageTypeAckAck (writeU24LE s.peerNextExpectedSeqNum) with
    | .ok q => ({ s with unreliable := q }, .ok ())
    | .error e => (s, .error e)
  else (s, .ok ())

def onAcknowledgements (s : LastAck) (nowMsec : Nat) (data : Bytes) (ackNonce : Nat) :
    LastAck × Except String Unit :=
  if data.length < kAckOverheadBytes then (s, .error "Truncated Ack")
  else if counterLt 64 ackNonce s.nextAcceptableNonce then (s, .ok ())
  else
    let s := { s with nextAcceptableNonce := wrap 64 (ackNonce + 1) }
    let partialNonce := LittleEndian.value (data.take 3)
    let recovered := expand 64 24 s.peerNextExpectedNonce partialNonce
    if counterLt 64 recovered s.peerNextExpectedNonce then
      (s, .error "Ack was sent out of order")
    else if kAckOverheadBytes < data.length then
      match s.fecEncoder.acknowledge nowMsec (data.drop kAckOverheadBytes) with
      | (encoder, .success) =>
        { s with
          fecEncoder := encoder
          peerNextExpectedSeqNum := encoder.ack.nextColumnExpected
          peerNextExpectedNonce := recovered }.ackAck
      | (encoder, _) => ({ s with fecEncoder := encoder }, .error "siamese_encoder_ack failed")
    else { s with peerNextExpectedNonce := recovered }.ackAck

def updateNextExpectedNonceFromTimeSync (s : LastAck) (nextExpectedNonce24 : Nat) : LastAck :=
  let recovered := expand 64 24 s.peerNextExpectedNonce nextExpectedNonce24
  if counterLt 64 s.peerNextExpectedNonce recovered then
    { s with peerNextExpectedNonce := recovered }
  else s

end LastAck

/-- An acknowledgement on its way, with the nonce of the datagram it is in and the next expected
nonce of the peer when it was posted, both counted without bound. -/
structure PostedAck where
  ackNonce : Nat
  expected : Nat
  data : Bytes

/-- A session and its peer. `expected` is the LargestSequence of the peer plus 1, and `nextNonce`
its own NextNonce. The last fields are for reasoning only: the smallest acceptable nonce, the
largest next expected nonce that an acknowledgement and that a TimeSync has reported, all counted
without bound. -/
structure AckLink where
  lastAck : LastAck
  expected : Nat
  nextNonce : Nat
  acks : List PostedAck
  timeSyncs : List Nat
  errors : List String
  acceptable : Nat
  acknowledged : Nat
  synced : Nat

namespace AckLink

def initial : AckLink := ⟨.initial, 1, 0, [], [], [], 0, 0, 0⟩

def ackData {α : Type} (expected : Nat) (shape : UInt8 × UInt8 × UInt8)
    (w : DecoderPacketWindow α) : Bytes :=
  writeU24LE (wrap 24 expected) ++ [shape.1, shape.2.1, shape.2.2] ++
    (w.generateAcknowledgement (kMinPossibleDatagramByteLimit - kAckOverheadBytes)).getD []

def reported (s : AckLink) : Nat := max s.acknowledged s.synced

def onAcknowledgements (s : AckLink) (ack : PostedAck) (nowMsec : Nat) : AckLink :=
  let (lastAck, result) := s.lastAck.onAcknowledgements nowMsec ack.data (wrap 64 ack.ackNonce)
  { s with
    lastAck
    errors := match result with
      | .ok () => s.errors
      | .error e => e :: s.errors
    acceptable := if ack.ackNonce < s.acceptable then s.acceptable else ack.ackNonce + 1
    acknowledged := if ack.ackNonce < s.acceptable then s.acknowledged else ack.expected }

def onTimeSync (s : AckLink) (expected : Nat) : AckLink :=
  { s with
    lastAck := s.lastAck.updateNextExpectedNonceFromTimeSync (wrap 24 expected)
    synced := max s.synced expected }

/-- `accept` is a datagram of the session that the peer accepts. Acknowledgements and TimeSyncs that
were posted are taken in any order, again, or not at all; what the session sends changes its encoder
and its queue in any way. -/
inductive Event where
  | accept (nonce : Nat)
  | sendDatagram
  | postAcknowledgements
  | postTimeSync
  | onAcknowledgements (ack : PostedAck) (nowMsec : Nat)
  | onTimeSync (expected : Nat)
  | outgoing

inductive Steps : AckLink → Event → AckLink → Prop where
  | accept (s : AckLink) (nonce : Nat) :
      Steps s (.accept nonce) { s with expected := max s.expected (nonce + 1) }
  | sendDatagram (s : AckLink) : Steps s .sendDatagram { s with nextNonce := s.nextNonce + 1 }
  | postAcknowledgements (s : AckLink) (shape : UInt8 × UInt8 × UInt8) {α : Type}
      (w : DecoderPacketWindow α) : w.Sound →
      Steps s .postAcknowledgements { s with
        acks := ⟨s.nextNonce, s.expected, ackData s.expected shape w⟩ :: s.acks }
  | postTimeSync (s : AckLink) :
      Steps s .postTimeSync { s with timeSyncs := s.expected :: s.timeSyncs }
  | onAcknowledgements (s : AckLink) (ack : PostedAck) (nowMsec : Nat) : ack ∈ s.acks →
      Steps s (.onAcknowledgements ack nowMsec) (s.onAcknowledgements ack nowMsec)
  | onTimeSync (s : AckLink) (expected : Nat) : expected ∈ s.timeSyncs →
      Steps s (.onTimeSync expected) (s.onTimeSync expected)
  | outgoing (s : AckLink) (encoder : Encoder) (nextSequenceNumber : Nat) (q : OutgoingQueue) :
      Steps s .outgoing { s with lastAck := { s.lastAck with
        fecEncoder := encoder
        nextSequenceNumber := nextSequenceNumber
        unreliable := q } }

/-- An acknowledgement that is newer than the last one taken comes before every TimeSync that
reports more than it does, and no report is half the range of its 24 bits away from the largest one
so far. The peer does not run through half of its 64-bit nonces. -/
def InOrder (s : AckLink) : Event → Prop
  | .onAcknowledgements ack _ =>
    s.acceptable ≤ ack.ackNonce → s.synced ≤ ack.expected ∧ ack.expected < s.reported + 2 ^ 23
  | .onTimeSync expected => s.reported ≤ expected + 2 ^ 23 ∧ expected < s.reported + 2 ^ 23
  | .sendDatagram => s.nextNonce + 1 < 2 ^ 63
  | _ => True

theorem writeU24LE_eq (v : Nat) : writeU24LE v = LittleEndian.bytes 3 v := by
  simp [writeU24LE, LittleEndian.bytes, Nat.shiftRight_eq_div_pow, Nat.div_div_eq_div_mul]

theorem ackAck_ok (l : LastAck) : ∃ l', l.ackAck = (l', .ok ()) ∧
    l'.nextAcceptableNonce = l.nextAcceptableNonce ∧
    l'.peerNextExpectedNonce = l.peerNextExpectedNonce := by
  unfold LastAck.ackAck
  split
  · have hqueued := (l.unreliable.queueMessage_isOk messageTypeAckAck
      (writeU24LE l.peerNextExpectedSeqNum)).mpr (by simp [writeU24LE, tonkMaxUnreliableBytes])
    cases hq : l.unreliable.queueMessage messageTypeAckAck (writeU24LE l.peerNextExpectedSeqNum) with
    | ok q => exact ⟨{ l with unreliable := q }, rfl, rfl, rfl⟩
    | error e =>
      rw [hq] at hqueued
      cases hqueued
  · exact ⟨l, rfl, rfl, rfl⟩

variable {α : Type}

theorem acknowledge_success {w : DecoderPacketWindow α} (hw : w.Sound) (e : Encoder) (nowMsec : Nat)
    {message : Bytes}
    (hmessage : w.generateAcknowledgement (kMinPossibleDatagramByteLimit - kAckOverheadBytes) =
      some message) : ∃ e', e.acknowledge nowMsec message = (e', .success) := by
  obtain ⟨rs, rfl, hfit, -⟩ := hw.generateAcknowledgement_spec (by decide) hmessage
  have hnext := columnOf_lt (w.columnStart + w.nextExpectedElement)
  rw [← DecoderPacketWindow.elementToColumn_eq] at hnext
  have hok := e.ack.onAcknowledgementData_ok hnext hfit e.window nowMsec
  simp only [Encoder.acknowledge, hok, if_true]
  exact ⟨_, rfl⟩

theorem onAcknowledgements_ok {w : DecoderPacketWindow α} (hw : w.Sound)
    (shape : UInt8 × UInt8 × UInt8) (l : LastAck) (nowMsec ackNonce : Nat) {expected reported : Nat}
    (hnew : counterLt 64 ackNonce l.nextAcceptableNonce = false)
    (hpeer : l.peerNextExpectedNonce = wrap 64 reported) (hle : reported ≤ expected)
    (hlt : expected < reported + 2 ^ 23) :
    ∃ l', l.onAcknowledgements nowMsec (ackData expected shape w) ackNonce = (l', .ok ()) ∧
      l'.nextAcceptableNonce = wrap 64 (ackNonce + 1) ∧
      l'.peerNextExpectedNonce = wrap 64 expected := by
  have hvalue : LittleEndian.value ((ackData expected shape w).take 3) = wrap 24 expected := by
    have htake : (ackData expected shape w).take 3 = writeU24LE (wrap 24 expected) := rfl
    rw [htake, writeU24LE_eq, LittleEndian.value_bytes]
    exact Nat.mod_eq_of_lt (wrap_lt 24 expected)
  have hrecovered : expand 64 24 l.peerNextExpectedNonce (wrap 24 expected) = wrap 64 expected := by
    rw [hpeer]
    exact expand_wrap (by decide) (by decide) (by omega) (by omega)
  have horder : counterLt 64 (wrap 64 expected) l.peerNextExpectedNonce = false := by
    rw [hpeer]
    exact StrikeRegister.not_lt_wrap hle (by omega)
  unfold LastAck.onAcknowledgements
  rw [if_neg (by simp [ackData, writeU24LE, kAckOverheadBytes]), hnew, if_neg Bool.false_ne_true]
  simp only [hvalue, hrecovered, horder, Bool.false_eq_true, if_false]
  split
  · have hdrop : (ackData expected shape w).drop kAckOverheadBytes =
        (w.generateAcknowledgement (kMinPossibleDatagramByteLimit - kAckOverheadBytes)).getD [] := rfl
    cases hmessage : w.generateAcknowledgement (kMinPossibleDatagramByteLimit - kAckOverheadBytes) with
    | none =>
      next hdata =>
      rw [ackData, hmessage] at hdata
      simp [writeU24LE, kAckOverheadBytes] at hdata
    | some message =>
      obtain ⟨e, he⟩ := acknowledge_success hw l.fecEncoder nowMsec hmessage
      simp only [hdrop, hmessage, Option.getD_some, he]
      exact ackAck_ok _
  · exact ackAck_ok _

/-- The messages on their way, and how they relate to what the session has been told. -/
structure Inv (s : AckLink) : Prop where
  nonce_lt : s.nextNonce < 2 ^ 63
  acceptable_le : s.acceptable ≤ s.nextNonce + 1
  acceptable_eq : s.lastAck.nextAcceptableNonce = s.acceptable
  peer_eq : s.lastAck.peerNextExpectedNonce = wrap 64 s.reported
  posted : ∀ a ∈ s.acks, a.ackNonce ≤ s.nextNonce ∧ a.expected ≤ s.expected
  honest : ∀ a ∈ s.acks, ∃ (α : Type) (shape : UInt8 × UInt8 × UInt8) (w : DecoderPacketWindow α),
    w.Sound ∧ a.data = ackData a.expected shape w
  order : ∀ a ∈ s.acks, ∀ b ∈ s.acks, a.ackNonce < b.ackNonce → a.expected ≤ b.expected
  later : ∀ a ∈ s.acks, s.acceptable ≤ a.ackNonce → s.acknowledged ≤ a.expected
  acknowledged_le : s.acknowledged ≤ s.expected
  errors_eq : s.errors = []

theorem inv_initial : initial.Inv where
  nonce_lt := by decide
  acceptable_le := by decide
  acceptable_eq := rfl
  peer_eq := rfl
  posted _ h := nomatch h
  honest _ h := nomatch h
  order _ h := nomatch h
  later _ h := nomatch h
  acknowledged_le := by decide
  errors_eq := rfl

theorem Inv.post {s : AckLink} (h : s.Inv) (shape : UInt8 × UInt8 × UInt8)
    {w : DecoderPacketWindow α} (hw : w.Sound) :
    { s with acks := ⟨s.nextNonce, s.expected, ackData s.expected shape w⟩ :: s.acks }.Inv := by
  refine ⟨h.nonce_lt, h.acceptable_le, h.acceptable_eq, h.peer_eq, ?_, ?_, ?_, ?_,
    h.acknowledged_le, h.errors_eq⟩
  · intro a ha
    rcases List.mem_cons.mp ha with rfl | ha
    · exact ⟨Nat.le_refl _, Nat.le_refl _⟩
    · exact h.posted a ha
  · intro a ha
    rcases List.mem_cons.mp ha with rfl | ha
    · exact ⟨α, shape, w, hw, rfl⟩
    · exact h.honest a ha
  · intro a ha b hb hlt
    rcases List.mem_cons.mp ha with rfl | ha
    · rcases List.mem_cons.mp hb with rfl | hb
      · exact Nat.le_refl _
      · have := (h.posted b hb).1
        simp only at hlt
        omega
    · rcases List.mem_cons.mp hb with rfl | hb
      · exact (h.posted a ha).2
      · exact h.order a ha b hb hlt
  · intro a ha hle
    rcases List.mem_cons.mp ha with rfl | ha
    · exact h.acknowledged_le
    · exact h.later a ha hle

theorem counterLt_iff {a b : Nat} (ha : a < 2 ^ 63) (hb : b ≤ 2 ^ 63) :
    counterLt 64 a b = true ↔ a < b := by
  have hc := sub_cast 64 a b
  simp only [counterLt, decide_eq_true_eq]
  omega

theorem Inv.acknowledge {s : AckLink} (h : s.Inv) {ack : PostedAck} (nowMsec : Nat)
    (hack : ack ∈ s.acks) (horder : s.InOrder (.onAcknowledgements ack nowMsec)) :
    (s.onAcknowledgements ack nowMsec).Inv := by
  obtain ⟨α, shape, w, hw, hdata⟩ := h.honest ack hack
  have hposted := h.posted ack hack
  have hnonce := h.nonce_lt
  have hself : wrap 64 ack.ackNonce = ack.ackNonce := AntiReplay.wrap_self (by omega)
  have hcounter := counterLt_iff (a := ack.ackNonce) (b := s.acceptable) (by omega)
    (h.acceptable_le.trans (by omega))
  by_cases hold : ack.ackNonce < s.acceptable
  · have hignored : s.lastAck.onAcknowledgements nowMsec ack.data (wrap 64 ack.ackNonce) =
        (s.lastAck, .ok ()) := by
      rw [hdata, hself, LastAck.onAcknowledgements,
        if_neg (by simp [ackData, writeU24LE, kAckOverheadBytes]), h.acceptable_eq,
        hcounter.mpr hold, if_pos rfl]
    have heq : s.onAcknowledgements ack nowMsec = s := by
      simp only [onAcknowledgements, hignored, if_pos hold]
    rw [heq]
    exact h
  · obtain ⟨hsynced, hfar⟩ := horder (Nat.le_of_not_lt hold)
    have hle : s.reported ≤ ack.expected :=
      max_le (h.later ack hack (Nat.le_of_not_lt hold)) hsynced
    have hnew : counterLt 64 ack.ackNonce s.lastAck.nextAcceptableNonce = false := by
      rw [h.acceptable_eq]
      exact Bool.eq_false_iff.mpr fun hlt => hold (hcounter.mp hlt)
    obtain ⟨l, hl, hnext, hpeer⟩ := onAcknowledgements_ok hw shape s.lastAck nowMsec ack.ackNonce
      hnew h.peer_eq hle hfar
    simp only [onAcknowledgements, hself, hdata, hl, if_neg hold]
    refine ⟨hnonce, by simp only; omega, ?_, ?_, h.posted, h.honest, h.order, ?_, hposted.2,
      h.errors_eq⟩
    · simp only [hnext]
      exact_mod_cast AntiReplay.wrap_self (by omega)
    · simp only [hpeer, reported, Nat.max_eq_left hsynced]
    · intro b hb hlt
      exact h.order ack hack b hb hlt

theorem Inv.sync {s : AckLink} (h : s.Inv) {expected : Nat}
    (horder : s.InOrder (.onTimeSync expected)) : (s.onTimeSync expected).Inv := by
  obtain ⟨hlo, hhi⟩ := horder
  have hrecovered : expand 64 24 s.lastAck.peerNextExpectedNonce (wrap 24 expected) =
      wrap 64 expected := by
    rw [h.peer_eq]
    exact expand_wrap (by decide) (by decide) (by omega) (by omega)
  have hreported : (s.onTimeSync expected).reported = max s.reported expected := by
    simp only [reported, onTimeSync, max_assoc]
  have hupdate : s.lastAck.updateNextExpectedNonceFromTimeSync (wrap 24 expected) =
      { s.lastAck with peerNextExpectedNonce := wrap 64 (max s.reported expected : Nat) } := by
    rw [LastAck.updateNextExpectedNonceFromTimeSync, hrecovered, h.peer_eq]
    by_cases hlt : s.reported < expected
    · rw [StrikeRegister.lt_wrap hlt (by omega), if_pos rfl, Nat.max_eq_right (Nat.le_of_lt hlt)]
    · rw [StrikeRegister.not_lt_wrap (Nat.le_of_not_lt hlt) (by omega), if_neg Bool.false_ne_true,
        Nat.max_eq_left (Nat.le_of_not_lt hlt), ← h.peer_eq]
  refine ⟨h.nonce_lt, h.acceptable_le, ?_, ?_, h.posted, h.honest, h.order, h.later,
    h.acknowledged_le, h.errors_eq⟩
  · simp only [onTimeSync, hupdate]
    exact h.acceptable_eq
  · rw [hreported]
    simp only [onTimeSync, hupdate]

theorem Inv.step {s t : AckLink} {e : Event} (h : s.Inv) (horder : s.InOrder e)
    (hstep : Steps s e t) : t.Inv := by
  cases hstep with
  | accept nonce =>
    exact ⟨h.nonce_lt, h.acceptable_le, h.acceptable_eq, h.peer_eq,
      fun a ha => ⟨(h.posted a ha).1, (h.posted a ha).2.trans (le_max_left _ _)⟩, h.honest, h.order,
      h.later, h.acknowledged_le.trans (le_max_left _ _), h.errors_eq⟩
  | sendDatagram =>
    exact ⟨horder, h.acceptable_le.trans (by simp only; omega), h.acceptable_eq, h.peer_eq,
      fun a ha => ⟨(h.posted a ha).1.trans (Nat.le_succ _), (h.posted a ha).2⟩, h.honest, h.order,
      h.later, h.acknowledged_le, h.errors_eq⟩
  | postAcknowledgements shape w hw => exact h.post shape hw
  | postTimeSync => exact ⟨h.nonce_lt, h.acceptable_le, h.acceptable_eq, h.peer_eq, h.posted,
      h.honest, h.order, h.later, h.acknowledged_le, h.errors_eq⟩
  | onAcknowledgements ack nowMsec hack => exact h.acknowledge nowMsec hack horder
  | onTimeSync expected hexpected => exact h.sync horder
  | outgoing encoder nextSequenceNumber q => exact ⟨h.nonce_lt, h.acceptable_le, h.acceptable_eq,
      h.peer_eq, h.posted, h.honest, h.order, h.later, h.acknowledged_le, h.errors_eq⟩

/-- In a run in which no TimeSync overtakes an acknowledgement that reports less, and no report is
half the range of its field away from the last, OnAcknowledgements never returns an error. -/
theorem acknowledgements_accepted (evs : List Event) (s : AckLink)
    (hrun : Run (Restrict InOrder Steps) initial evs s) : s.errors = [] :=
  (hrun.invariant (P := Inv) inv_initial fun _ _ _ h hstep => h.step hstep.1 hstep.2).errors_eq

/-- The acknowledgement of a peer that has received nothing, in its first datagram. -/
def firstAck : PostedAck :=
  ⟨0, 1, ackData 1 (0, 0, 0) (DecoderPacketWindow.initial : DecoderPacketWindow Unit)⟩

def posting : List Event := [.postAcknowledgements, .sendDatagram, .accept 5, .postTimeSync]

theorem run_posting : ∃ s, Run (Restrict InOrder Steps) initial posting s ∧
    s = { initial with expected := 6, nextNonce := 1, acks := [firstAck], timeSyncs := [6] } :=
  ⟨_, .cons ⟨trivial, .postAcknowledgements _ (0, 0, 0) _ DecoderPacketWindow.sound_initial⟩ <|
    .cons ⟨by simp [InOrder, initial], .sendDatagram _⟩ <| .cons ⟨trivial, .accept _ 5⟩ <|
    .cons ⟨trivial, .postTimeSync _⟩ (.nil _), rfl⟩

theorem acknowledgements_accepted_posting :
    ∃ s, Run (Restrict InOrder Steps) initial
        (posting ++ [.onAcknowledgements firstAck 0, .onTimeSync 6]) s ∧
      s.lastAck.peerNextExpectedNonce = 6 ∧ s.errors = [] := by
  obtain ⟨s, hrun, rfl⟩ := run_posting
  have hrun' := (hrun.snoc ⟨?_, .onAcknowledgements _ firstAck 0 (by simp)⟩).snoc
    ⟨?_, .onTimeSync _ 6 (by simp [onAcknowledgements])⟩
  · rw [List.append_assoc] at hrun'
    exact ⟨_, hrun', by decide, acknowledgements_accepted _ _ hrun'⟩
  · exact fun _ => ⟨by decide, by decide⟩
  · exact ⟨by decide, by decide⟩

/-- The TimeSync overtakes the acknowledgement, which is then taken for one sent out of order. -/
theorem overtaken_acknowledgement_fails :
    ∃ s, Run Steps initial (posting ++ [.onTimeSync 6, .onAcknowledgements firstAck 0]) s ∧
      s.errors = ["Ack was sent out of order"] := by
  obtain ⟨s, hrun, rfl⟩ := run_posting
  have hrun' := ((hrun.mono fun _ _ _ h => h.2).snoc (.onTimeSync _ 6 (by simp))).snoc
    (.onAcknowledgements _ firstAck 0 (by simp [onTimeSync]))
  rw [List.append_assoc] at hrun'
  exact ⟨_, hrun', by decide⟩

end AckLink

end Tonk.Session
