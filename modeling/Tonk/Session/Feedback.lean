import Tonk.Lib.Run
import Tonk.Session.RoundTrip

/-!
Two sessions that exchange datagrams, and the bit of the flags byte that is to tell the peer not to
compress its numbers. A session that drops a datagram clears the bit in all it sends; the bit is
read by nobody.
-/

set_option autoImplicit false

namespace Tonk.Session
open Protocol Transition

structure Connection where
  outgoing : SessionOutgoing
  incoming : SessionIncoming

/-- A datagram to be sent. A reliable one has a packet number, new or retransmitted. -/
inductive Send where
  | queued (messages : Bytes) (random : Nat) (packetNum : Option Nat)
  | dummy
  | recovery (data : Bytes)

def Send.builder (s : SessionOutgoing) : Send → Builder
  | .queued messages random none => .sendQueuedDatagram messages random 0 0
  | .queued messages random (some packetNum) =>
    .sendQueuedDatagram messages random (s.getPacketNumBytes packetNum) packetNum
  | .dummy => .postDummyDatagram
  | .recovery data => .postRecovery data

namespace Connection

def processDatagram (t1ha : T1ha) (p : Connection) (data : Bytes) : Connection :=
  match p.incoming.onUDPDatagram t1ha data with
  | .ok (some .ignoredDupe) => { p with outgoing := p.outgoing.disableSequenceNumberCompress }
  | .ok (some .badChecksum) => { p with outgoing := p.outgoing.disableSequenceNumberCompress }
  | .ok (some (.opened d)) =>
    { p with incoming := { p.incoming with antiReplay := p.incoming.antiReplay.accept d.nonce } }
  | _ => p

def accepts (t1ha : T1ha) (p : Connection) (data : Bytes) : Bool :=
  match p.incoming.onUDPDatagram t1ha data with
  | .ok (some (.opened _)) => true
  | _ => false

end Connection

structure NumberBytes where
  nonceBytes : Nat
  sequenceNumberBytes : Nat
  deriving DecidableEq, Repr

/-- Two sessions and every datagram they have built. `fromA` says with each datagram whether A had
called DisableSequenceNumberCompress before it built it, `informed` whether B has accepted one of
these, and `late` has the sizes in all that B built after that. -/
structure Feedback where
  a : Connection
  b : Connection
  fromA : List (Bytes × Bool)
  fromB : List Bytes
  informed : Bool
  late : List NumberBytes

namespace Feedback

/-- A and B take turns in any order; datagrams are lost, or arrive in any order and number. The
numbers that acknowledgements and new packets change are changed in any way, and handshakes are
started and stopped at any time. -/
inductive Event where
  | sendA (x : Send) (scratch : Bytes) (nowUsec : Nat)
  | sendB (x : Send) (scratch : Bytes) (nowUsec : Nat)
  | receiveA (data : Bytes)
  | receiveB (data : Bytes)
  | numbersA (peerNextExpectedNonce peerNextExpectedSeqNum nextSequenceNumber : Nat)
  | numbersB (peerNextExpectedNonce peerNextExpectedSeqNum nextSequenceNumber : Nat)
  | handshakeA (handshake : Option Handshake)
  | handshakeB (handshake : Option Handshake)

def withNumbers (p : Connection) (nonce seqNum next : Nat) : Connection :=
  { p with outgoing := { p.outgoing with
      peerNextExpectedNonce := nonce
      peerNextExpectedSeqNum := seqNum
      nextSequenceNumber := next } }

def withHandshake (p : Connection) (handshake : Option Handshake) : Connection :=
  { p with outgoing := { p.outgoing with handshake } }

def sendA (t1ha : T1ha) (s : Feedback) (x : Send) (scratch : Bytes) (nowUsec : Nat) : Feedback :=
  let built := (x.builder s.a.outgoing).build t1ha s.a.outgoing scratch nowUsec
  { s with
    a := { s.a with outgoing := built.1 }
    fromA := (built.2, !s.a.outgoing.shouldCompressSequenceNumbers) :: s.fromA }

def sendB (t1ha : T1ha) (s : Feedback) (x : Send) (scratch : Bytes) (nowUsec : Nat) : Feedback :=
  let built := (x.builder s.b.outgoing).build t1ha s.b.outgoing scratch nowUsec
  let sizes : NumberBytes :=
    ⟨s.b.outgoing.nonceBytes, (x.builder s.b.outgoing).sequenceNumberBytes⟩
  { s with
    b := { s.b with outgoing := built.1 }
    fromB := built.2 :: s.fromB
    late := if s.informed then sizes :: s.late else s.late }

def receiveA (t1ha : T1ha) (s : Feedback) (data : Bytes) : Feedback :=
  { s with a := s.a.processDatagram t1ha data }

def receiveB (t1ha : T1ha) (s : Feedback) (data : Bytes) (cleared : Bool) : Feedback :=
  { s with
    b := s.b.processDatagram t1ha data
    informed := s.informed || (cleared && s.b.accepts t1ha data) }

inductive Steps (t1ha : T1ha) : Feedback → Event → Feedback → Prop where
  | sendA (s : Feedback) (x : Send) (scratch : Bytes) (nowUsec : Nat) :
      Steps t1ha s (.sendA x scratch nowUsec) (s.sendA t1ha x scratch nowUsec)
  | sendB (s : Feedback) (x : Send) (scratch : Bytes) (nowUsec : Nat) :
      Steps t1ha s (.sendB x scratch nowUsec) (s.sendB t1ha x scratch nowUsec)
  | receiveA (s : Feedback) (data : Bytes) : data ∈ s.fromB →
      Steps t1ha s (.receiveA data) (s.receiveA t1ha data)
  | receiveB (s : Feedback) (data : Bytes) (cleared : Bool) : (data, cleared) ∈ s.fromA →
      Steps t1ha s (.receiveB data) (s.receiveB t1ha data cleared)
  | numbersA (s : Feedback) (nonce seqNum next : Nat) :
      Steps t1ha s (.numbersA nonce seqNum next) { s with a := withNumbers s.a nonce seqNum next }
  | numbersB (s : Feedback) (nonce seqNum next : Nat) :
      Steps t1ha s (.numbersB nonce seqNum next) { s with b := withNumbers s.b nonce seqNum next }
  | handshakeA (s : Feedback) (handshake : Option Handshake) :
      Steps t1ha s (.handshakeA handshake) { s with a := withHandshake s.a handshake }
  | handshakeB (s : Feedback) (handshake : Option Handshake) :
      Steps t1ha s (.handshakeB handshake) { s with b := withHandshake s.b handshake }

/-- Two sessions with one key that have sent nothing. A may have a handshake to attach. -/
def initial (key : Nat) (padding : Bool) (handshake : Option Handshake) : Feedback :=
  let outgoing : SessionOutgoing :=
    { encryptor := .initializeKey key
      nextNonce := 0
      peerNextExpectedNonce := 0
      peerNextExpectedSeqNum := 0
      nextSequenceNumber := 0
      shouldCompressSequenceNumbers := true
      handshake := none
      enablePadding := padding }
  let incoming : SessionIncoming := ⟨false, .initializeKey key, .initial⟩
  { a := ⟨{ outgoing with handshake }, incoming⟩
    b := ⟨outgoing, incoming⟩
    fromA := []
    fromB := []
    informed := false
    late := [] }

def FarNumbers (s : SessionOutgoing) (x : Send) : Prop :=
  0x8000 ≤ |Serial.signed 32 (Serial.sub 32 s.nextNonce s.peerNextExpectedNonce)| + 1 ∧
    ∀ messages random packetNum, x = .queued messages random (some packetNum) →
      0x8000 ≤ max |(packetNum : Int) - s.peerNextExpectedSeqNum|
        |(packetNum : Int) - s.nextSequenceNumber| + 1

def SeesReordering (s : Feedback) : Event → Prop
  | .sendB x _ _ => s.informed = true →
    s.b.outgoing.shouldCompressSequenceNumbers = false ∨ FarNumbers s.b.outgoing x
  | _ => True

theorem nonceBytes_of_far {s : SessionOutgoing} {x : Send}
    (h : s.shouldCompressSequenceNumbers = false ∨ FarNumbers s x) : s.nonceBytes = 3 := by
  rw [SessionOutgoing.nonceBytes, nonceFieldBytes]
  split
  · next hcompress =>
    rcases h with h | ⟨hfar, -⟩
    · rw [hcompress] at h
      cases h
    · simp only
      rw [if_neg (by intro hone; rw [hone] at hfar; norm_num at hfar), if_neg (by omega),
        if_neg (by omega)]
  · rfl

theorem sequenceNumberBytes_of_far {s : SessionOutgoing} {x : Send}
    (h : s.shouldCompressSequenceNumbers = false ∨ FarNumbers s x) :
    (x.builder s).sequenceNumberBytes = 0 ∨ (x.builder s).sequenceNumberBytes = 3 := by
  cases x with
  | dummy => exact .inl rfl
  | recovery data => exact .inl rfl
  | queued messages random packetNum =>
    cases packetNum with
    | none => exact .inl rfl
    | some packetNum =>
      right
      simp only [Send.builder, Builder.sequenceNumberBytes, SessionOutgoing.getPacketNumBytes]
      split
      · next hcompress =>
        rcases h with h | ⟨-, hfar⟩
        · rw [hcompress] at h
          cases h
        · have := hfar messages random packetNum rfl
          rw [if_neg (by omega), if_neg (by omega)]
      · rfl

/-- The numbers of all that B has built since it was informed have 3 bytes. -/
def Effective (s : Feedback) : Prop := ∀ sizes ∈ s.late, sizes.nonceBytes = 3 ∧
  (sizes.sequenceNumberBytes = 0 ∨ sizes.sequenceNumberBytes = 3)

theorem Effective.step {t1ha : T1ha} {s t : Feedback} {e : Event} (h : s.Effective)
    (hsees : s.SeesReordering e) (hstep : Steps t1ha s e t) : t.Effective := by
  cases hstep with
  | sendA x scratch nowUsec => exact h
  | sendB x scratch nowUsec =>
    intro sizes hmem
    simp only [sendB] at hmem
    split at hmem
    · next hinformed =>
      rcases List.mem_cons.mp hmem with rfl | hmem
      · have hfar := hsees hinformed
        exact ⟨nonceBytes_of_far hfar, sequenceNumberBytes_of_far hfar⟩
      · exact h sizes hmem
    · exact h sizes hmem
  | receiveA data hmem => exact h
  | receiveB data cleared hmem => exact h
  | numbersA nonce seqNum next => exact h
  | numbersB nonce seqNum next => exact h
  | handshakeA handshake => exact h
  | handshakeB handshake => exact h

/-- In a run in which B has dropped a datagram itself before it builds one, or its numbers are far
apart, all its numbers have 3 bytes from the moment it has accepted a datagram with the bit clear. -/
theorem reordering_feedback (t1ha : T1ha) (key : Nat) (padding : Bool)
    (handshake : Option Handshake) (evs : List Event) (s : Feedback)
    (hrun : Run (Restrict SeesReordering (Steps t1ha)) (initial key padding handshake) evs s) :
    s.Effective :=
  hrun.invariant (P := Effective) (fun _ hmem => nomatch hmem)
    fun _ _ _ h hstep => h.step hstep.1 hstep.2

def plainHash : T1ha := fun _ _ => 0

def plainSend : Send := .recovery []

def scratch : Bytes := List.replicate kMaxOverheadBytes 0

/-- A gets the first datagram of B twice and sends one with the bit clear, which B accepts. The
next datagram of B still leaves its nonce out. -/
def informing : List Event :=
  [.sendB plainSend scratch 0, .receiveA [0, 0, 0, 0, 0xb4, 0, 0],
    .receiveA [0, 0, 0, 0, 0xb4, 0, 0], .sendA plainSend scratch 0,
    .receiveB [0, 0, 0, 0, 0, 0, 0x9c, 0, 0], .sendB plainSend scratch 0]

theorem reordering_feedback_ignored :
    ∃ s, Run (Steps plainHash) (initial 0 false none) informing s ∧ ¬ s.Effective := by
  refine ⟨_, .cons (.sendB _ _ _ _) <| .cons (.receiveA _ _ ?_) <| .cons (.receiveA _ _ ?_) <|
    .cons (.sendA _ _ _ _) <| .cons (.receiveB _ _ true ?_) <| .cons (.sendB _ _ _ _) (.nil _), ?_⟩
  · decide
  · decide
  · decide
  · intro h
    have hsizes := (h ⟨0, 0⟩ (by decide)).1
    cases hsizes

def informingDropped : List Event :=
  [.sendA plainSend scratch 0, .receiveB [0, 0, 0, 0, 0xb4, 0, 0],
    .receiveB [0, 0, 0, 0, 0xb4, 0, 0], .sendB plainSend scratch 0,
    .receiveA [0, 0, 0, 0, 0, 0, 0x9c, 0, 0], .receiveA [0, 0, 0, 0, 0, 0, 0x9c, 0, 0],
    .sendA plainSend scratch 0, .receiveB [1, 0, 0, 0, 0, 0, 0x9c, 0, 0],
    .sendB plainSend scratch 0]

theorem reordering_feedback_informingDropped :
    ∃ s, Run (Restrict SeesReordering (Steps plainHash)) (initial 0 false none) informingDropped s ∧
      s.late = [⟨3, 0⟩] ∧ s.Effective := by
  obtain ⟨s, hrun, hlate⟩ : ∃ s, Run (Restrict SeesReordering (Steps plainHash))
      (initial 0 false none) informingDropped s ∧ s.late = [⟨3, 0⟩] := by
    refine ⟨_, .cons ⟨trivial, .sendA _ _ _ _⟩ <| .cons ⟨trivial, .receiveB _ _ false ?_⟩ <|
      .cons ⟨trivial, .receiveB _ _ false ?_⟩ <| .cons ⟨?_, .sendB _ _ _ _⟩ <|
      .cons ⟨trivial, .receiveA _ _ ?_⟩ <| .cons ⟨trivial, .receiveA _ _ ?_⟩ <|
      .cons ⟨trivial, .sendA _ _ _ _⟩ <| .cons ⟨trivial, .receiveB _ _ true ?_⟩ <|
      .cons ⟨fun _ => .inl ?_, .sendB _ _ _ _⟩ (.nil _), ?_⟩
    · decide
    · decide
    · exact fun hinformed => absurd hinformed (by decide)
    · decide
    · decide
    · decide
    · decide
    · decide
  exact ⟨s, hrun, hlate, reordering_feedback _ _ _ _ _ _ hrun⟩

end Feedback

end Tonk.Session
