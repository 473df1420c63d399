import Tonk.Lib.Run
import Tonk.Session.StrikeRegister

set_option autoImplicit false

namespace Tonk.Session
open Serial Transition

def nonceFieldBytes (shouldCompress : Bool) (nonce peerNextExpectedNonce : Nat) : Nat :=
  if shouldCompress then
    let mag := signed 32 (sub 32 nonce peerNextExpectedNonce)
    if mag = 1 then 0
    else if |mag| + 1 < 0x80 then 1
    else if |mag| + 1 < 0x8000 then 2
    else 3
  else 3

/-- A datagram on its way: its nonce, counted without bound, and the size of the nonce field. -/
structure NonceField where
  nonce : Nat
  bytes : Nat
  deriving DecidableEq, Repr

def NonceField.part (d : NonceField) : Nat := wrap (8 * d.bytes) d.nonce

/-- An acknowledgement or TimeSync of the peer's: the nonce of the datagram it comes in, and the
24 bits of the next expected nonce. -/
structure NonceAck where
  ackNonce : Nat
  nextExpectedNonce24 : Nat
  deriving DecidableEq, Repr

/-- A sender, a receiver and what is between them. `lostInARow` counts the datagrams lost since the
last one that arrived; nonce 0 is left out, for the receiver starts out as if it had accepted it.
`decoded` pairs the nonce of each datagram that arrived with the nonce it was read as. -/
structure NonceLink where
  nextNonce : Nat
  peerNextExpectedNonce : Nat
  nextAcceptableNonce : Nat
  shouldCompress : Bool
  inFlight : List NonceField
  acks : List NonceAck
  antiReplay : StrikeRegister
  lostInARow : Nat
  decoded : List (Nat × Nat)

namespace NonceLink

def initial : NonceLink := ⟨0, 0, 0, true, [], [], .initial, 0, []⟩

def writeNonce (s : NonceLink) : NonceLink :=
  let bytes := nonceFieldBytes s.shouldCompress (wrap 64 s.nextNonce) s.peerNextExpectedNonce
  { s with nextNonce := s.nextNonce + 1, inFlight := s.inFlight ++ [⟨s.nextNonce, bytes⟩] }

/-- ProcessDatagram up to Accept. A datagram read under another nonce passes the tag check only by
chance. -/
def processDatagram (s : NonceLink) (d : NonceField) (tagCollides : Bool) : NonceLink :=
  let nonce := s.antiReplay.readNonce d.part d.bytes
  let s := { s with decoded := s.decoded ++ [(wrap 64 d.nonce, nonce)] }
  if s.antiReplay.isDuplicate nonce then s
  else if nonce = wrap 64 d.nonce ∨ tagCollides then
    { s with antiReplay := s.antiReplay.accept nonce }
  else s

def onAcknowledgements (s : NonceLink) (ack : NonceAck) : NonceLink :=
  if counterLt 64 ack.ackNonce s.nextAcceptableNonce then s
  else
    let s := { s with nextAcceptableNonce := wrap 64 (ack.ackNonce + 1) }
    let recovered := expand 64 24 s.peerNextExpectedNonce ack.nextExpectedNonce24
    if counterLt 64 recovered s.peerNextExpectedNonce then s
    else { s with peerNextExpectedNonce := recovered }

def updateNextExpectedNonceFromTimeSync (s : NonceLink) (ack : NonceAck) : NonceLink :=
  let recovered := expand 64 24 s.peerNextExpectedNonce ack.nextExpectedNonce24
  if counterLt 64 s.peerNextExpectedNonce recovered then
    { s with peerNextExpectedNonce := recovered }
  else s

/-- Acknowledgements are delivered from all that were ever posted: late, reordered, again, or not
at all. -/
inductive Event where
  | send : Event
  | lose : Event
  | deliver : Bool → Event
  | postAcknowledgements : Nat → Event
  | onAcknowledgements : NonceAck → Event
  | onTimeSync : NonceAck → Event
  | disableSequenceNumberCompress : Event
  deriving DecidableEq, Repr

inductive Steps : NonceLink → Event → NonceLink → Prop where
  | send (s : NonceLink) : Steps s .send s.writeNonce
  | lose (s : NonceLink) (d : NonceField) (ds : List NonceField) : s.inFlight = d :: ds →
      Steps s .lose { s with
        inFlight := ds
        lostInARow := if d.nonce = 0 then 0 else s.lostInARow + 1 }
  | deliver (s : NonceLink) (d : NonceField) (ds : List NonceField) (tagCollides : Bool) :
      s.inFlight = d :: ds →
      Steps s (.deliver tagCollides)
        ({ s with inFlight := ds, lostInARow := 0 }.processDatagram d tagCollides)
  | postAcknowledgements (s : NonceLink) (ackNonce : Nat) :
      Steps s (.postAcknowledgements ackNonce)
        { s with acks := ⟨ackNonce, wrap 24 s.antiReplay.getNextExpected⟩ :: s.acks }
  | onAcknowledgements (s : NonceLink) (ack : NonceAck) : ack ∈ s.acks →
      Steps s (.onAcknowledgements ack) (s.onAcknowledgements ack)
  | onTimeSync (s : NonceLink) (ack : NonceAck) : ack ∈ s.acks →
      Steps s (.onTimeSync ack) (s.updateNextExpectedNonceFromTimeSync ack)
  | disableSequenceNumberCompress (s : NonceLink) :
      Steps s .disableSequenceNumberCompress { s with shouldCompress := false }

/-- The next datagram to arrive can be told apart after the losses in front of it: none if its
nonce is omitted, and fewer than half the range of its nonce field otherwise. -/
def Recoverable (s : NonceLink) : Event → Prop
  | .deliver _ => ∀ d ds, s.inFlight = d :: ds →
    if d.bytes = 0 then s.lostInARow = 0 else s.lostInARow + 1 < 2 ^ (8 * d.bytes - 1)
  | _ => True

/-- `k` is the nonce of the next datagram to arrive or to be sent, `largest` the largest one
accepted. -/
structure Inv (s : NonceLink) (k base largest : Nat) : Prop where
  covers : s.antiReplay.Covers base largest
  inFlight_eq : s.inFlight.map NonceField.nonce = List.range' k s.inFlight.length
  next_eq : s.nextNonce = k + s.inFlight.length
  bytes_le : ∀ d ∈ s.inFlight, d.bytes ≤ 3
  first_bytes : ∀ d ∈ s.inFlight, d.nonce = 0 → d.bytes ≠ 0
  first_acks : s.nextNonce = 0 → s.peerNextExpectedNonce ≤ 1 ∧
    ∀ ack ∈ s.acks, ack.nextExpectedNonce24 = 1
  gap : (k = 0 ∧ largest = 0 ∧ s.antiReplay = .initial) ∨ k = largest + 1 + s.lostInARow
  agree : ∀ p ∈ s.decoded, p.1 = p.2

theorem inv_initial : initial.Inv 0 0 0 where
  covers := StrikeRegister.covers_initial
  inFlight_eq := rfl
  next_eq := rfl
  bytes_le := by simp [initial]
  first_bytes := by simp [initial]
  first_acks _ := by simp [initial]
  gap := .inl ⟨rfl, rfl, rfl⟩
  agree := by simp [initial]

theorem nonceFieldBytes_le (shouldCompress : Bool) (nonce peer : Nat) :
    nonceFieldBytes shouldCompress nonce peer ≤ 3 := by
  unfold nonceFieldBytes
  split
  · simp only
    split
    · omega
    · split
      · omega
      · split <;> omega
  · omega

theorem nonceFieldBytes_zero {shouldCompress : Bool} {peer : Nat} (hp : peer ≤ 1) :
    nonceFieldBytes shouldCompress (wrap 64 (0 : Nat)) peer ≠ 0 := by
  have hcases : peer = 0 ∨ peer = 1 := by omega
  cases shouldCompress <;> rcases hcases with rfl | rfl <;> decide

theorem Inv.writeNonce {s : NonceLink} {k base largest : Nat} (h : s.Inv k base largest) :
    s.writeNonce.Inv k base largest where
  covers := h.covers
  inFlight_eq := by
    simp only [NonceLink.writeNonce, List.map_append, List.map_cons, List.map_nil,
      List.length_append, List.length_cons, List.length_nil, h.inFlight_eq, h.next_eq]
    rw [Nat.zero_add, List.range'_concat, Nat.one_mul]
  next_eq := by
    simp only [NonceLink.writeNonce, List.length_append, List.length_cons, List.length_nil,
      h.next_eq]
    omega
  bytes_le d hd := by
    rcases List.mem_append.mp hd with hd | hd
    · exact h.bytes_le d hd
    · rw [List.mem_singleton.mp hd]
      exact nonceFieldBytes_le _ _ _
  first_bytes d hd hz := by
    rcases List.mem_append.mp hd with hd | hd
    · exact h.first_bytes d hd hz
    · rw [List.mem_singleton.mp hd] at hz ⊢
      have hpeer := (h.first_acks hz).1
      show nonceFieldBytes s.shouldCompress (wrap 64 s.nextNonce) s.peerNextExpectedNonce ≠ 0
      rw [show s.nextNonce = 0 from hz]
      exact nonceFieldBytes_zero hpeer
  first_acks hz := absurd hz (Nat.succ_ne_zero _)
  gap := h.gap
  agree := h.agree

theorem Inv.head {s : NonceLink} {k base largest : Nat} (h : s.Inv k base largest)
    {d : NonceField} {ds : List NonceField} (hd : s.inFlight = d :: ds) :
    d.nonce = k ∧ ds.map NonceField.nonce = List.range' (k + 1) ds.length := by
  have hmap := h.inFlight_eq
  rw [hd, List.map_cons, List.length_cons, List.range'_succ, List.cons.injEq] at hmap
  exact hmap

theorem Inv.pop {s : NonceLink} {k base largest : Nat} (h : s.Inv k base largest) {d : NonceField}
    {ds : List NonceField} (hd : s.inFlight = d :: ds) {s' : NonceLink} {base' largest' : Nat}
    (hin : s'.inFlight = ds) (hnext : s'.nextNonce = s.nextNonce)
    (hcovers : s'.antiReplay.Covers base' largest')
    (hgap : k + 1 = largest' + 1 + s'.lostInARow) (hagree : ∀ p ∈ s'.decoded, p.1 = p.2) :
    s'.Inv (k + 1) base' largest' where
  covers := hcovers
  inFlight_eq := by rw [hin]; exact (h.head hd).2
  next_eq := by
    rw [hnext, h.next_eq, hin, hd, List.length_cons]
    omega
  bytes_le e he := h.bytes_le e (by rw [hd]; rw [hin] at he; exact List.mem_cons_of_mem _ he)
  first_bytes e he := h.first_bytes e (by rw [hd]; rw [hin] at he; exact List.mem_cons_of_mem _ he)
  first_acks hz := by
    rw [hnext, h.next_eq, hd, List.length_cons] at hz
    omega
  gap := .inr hgap
  agree := hagree

theorem Inv.lose {s : NonceLink} {k base largest : Nat} (h : s.Inv k base largest)
    {d : NonceField} {ds : List NonceField} (hd : s.inFlight = d :: ds) :
    { s with inFlight := ds, lostInARow := if d.nonce = 0 then 0 else s.lostInARow + 1 }.Inv
      (k + 1) base largest := by
  refine h.pop hd rfl rfl h.covers ?_ h.agree
  have hk := (h.head hd).1
  simp only
  rcases h.gap with ⟨hk₀, hl, _⟩ | hk₁
  · rw [if_pos (by omega)]
    omega
  · rw [if_neg (by omega)]
    omega

theorem Inv.readNonce {s : NonceLink} {k base largest : Nat} (h : s.Inv k base largest)
    {d : NonceField} {ds : List NonceField} (hd : s.inFlight = d :: ds)
    (hrec : if d.bytes = 0 then s.lostInARow = 0 else s.lostInARow + 1 < 2 ^ (8 * d.bytes - 1)) :
    s.antiReplay.readNonce d.part d.bytes = wrap 64 k := by
  have hk := (h.head hd).1
  have hmem : d ∈ s.inFlight := by rw [hd]; exact List.mem_cons_self
  by_cases hb : d.bytes = 0
  · rw [if_pos hb] at hrec
    rcases h.gap with ⟨hk₀, _⟩ | hk₁
    · exact absurd hb (h.first_bytes d hmem (by omega))
    · rw [hb, h.covers.readNonce_omitted, hk₁, hrec]
  · rw [if_neg hb] at hrec
    have hbytes := h.bytes_le d hmem
    rw [NonceField.part, hk]
    refine h.covers.readNonce_bytes (Nat.pos_of_ne_zero hb) hbytes ?_ ?_
    · rcases h.gap with ⟨hk₀, hl, _⟩ | hk₁ <;> omega
    · rcases h.gap with ⟨hk₀, hl, _⟩ | hk₁
      · rw [hk₀, Nat.zero_sub]
        positivity
      · omega

theorem Inv.deliver {s : NonceLink} {k base largest : Nat} (h : s.Inv k base largest)
    {d : NonceField} {ds : List NonceField} (hd : s.inFlight = d :: ds) (tagCollides : Bool)
    (hrec : s.Recoverable (.deliver tagCollides)) :
    ∃ base' largest', ({ s with inFlight := ds, lostInARow := 0 }.processDatagram d
      tagCollides).Inv (k + 1) base' largest' := by
  have hrec' := hrec d ds hd
  have hread := h.readNonce hd hrec'
  have hk := (h.head hd).1
  have hbytes := h.bytes_le d (by rw [hd]; exact List.mem_cons_self)
  have hagree : ∀ p ∈ s.decoded ++ [(wrap 64 d.nonce, wrap 64 k)], p.1 = p.2 := by
    intro p hp
    rcases List.mem_append.mp hp with hp | hp
    · exact h.agree p hp
    · rw [List.mem_singleton.mp hp, hk]
  have hclose : k - largest < 2 ^ 24 := by
    rcases h.gap with ⟨hk₀, _⟩ | hk₁
    · omega
    · have hle : 2 ^ (8 * d.bytes - 1) ≤ 2 ^ 23 := Nat.pow_le_pow_right (by omega) (by omega)
      split at hrec' <;> omega
  have hdup : s.antiReplay.isDuplicate (wrap 64 k) = false := by
    rcases h.gap with ⟨hk₀, _, hinit⟩ | hk₁
    · rw [hinit, hk₀]
      decide
    · exact h.covers.isDuplicate_eq_false (by omega) (by omega)
  have heq : { s with inFlight := ds, lostInARow := 0 }.processDatagram d tagCollides =
      { s with
        inFlight := ds
        lostInARow := 0
        decoded := s.decoded ++ [(wrap 64 d.nonce, wrap 64 k)]
        antiReplay := s.antiReplay.accept (wrap 64 k) } := by
    simp [NonceLink.processDatagram, hread, hdup, hk]
  rw [heq]
  rcases h.gap with ⟨hk₀, hl, hinit⟩ | hk₁
  · have hcov : (s.antiReplay.accept (wrap 64 k)).Covers 0 0 := by
      rw [hinit, hk₀]
      exact StrikeRegister.covers_initial.accept_old (Nat.le_refl 0) (Nat.le_refl 0)
    exact ⟨0, 0, h.pop hd rfl rfl hcov (show k + 1 = 0 + 1 + 0 by omega) hagree⟩
  · obtain ⟨base', hcov⟩ := h.covers.accept (m := k) (by omega) (by omega)
    exact ⟨base', k, h.pop hd rfl rfl hcov rfl hagree⟩

theorem Inv.acks {s s' : NonceLink} {k base largest : Nat} (h : s.Inv k base largest)
    (hin : s'.inFlight = s.inFlight) (hnext : s'.nextNonce = s.nextNonce)
    (hreg : s'.antiReplay = s.antiReplay) (hlost : s'.lostInARow = s.lostInARow)
    (hdec : s'.decoded = s.decoded)
    (hacks : s.nextNonce = 0 → s'.peerNextExpectedNonce ≤ 1 ∧
      ∀ ack ∈ s'.acks, ack.nextExpectedNonce24 = 1) : s'.Inv k base largest where
  covers := by rw [hreg]; exact h.covers
  inFlight_eq := by rw [hin]; exact h.inFlight_eq
  next_eq := by rw [hnext, hin]; exact h.next_eq
  bytes_le := by rw [hin]; exact h.bytes_le
  first_bytes := by rw [hin]; exact h.first_bytes
  first_acks := by rw [hnext]; exact hacks
  gap := by rw [hlost, hreg]; exact h.gap
  agree := by rw [hdec]; exact h.agree

theorem recovered_le_one {peer : Nat} (hp : peer ≤ 1) : expand 64 24 peer 1 ≤ 1 := by
  have hcases : peer = 0 ∨ peer = 1 := by omega
  rcases hcases with rfl | rfl <;> decide

theorem Inv.step {s s' : NonceLink} {ev : Event} {k base largest : Nat}
    (h : s.Inv k base largest) (hstep : Restrict Recoverable Steps s ev s') :
    ∃ k' base' largest', s'.Inv k' base' largest' := by
  obtain ⟨hrec, hstep⟩ := hstep
  cases hstep with
  | send => exact ⟨k, base, largest, h.writeNonce⟩
  | lose d ds hd => exact ⟨k + 1, base, largest, h.lose hd⟩
  | deliver d ds tagCollides hd =>
    obtain ⟨base', largest', h'⟩ := h.deliver hd tagCollides hrec
    exact ⟨k + 1, base', largest', h'⟩
  | postAcknowledgements ackNonce =>
    refine ⟨k, base, largest, h.acks rfl rfl rfl rfl rfl fun hz => ⟨(h.first_acks hz).1, ?_⟩⟩
    intro ack hack
    rcases List.mem_cons.mp hack with rfl | hack
    · have hl : largest = 0 := by
        have := h.next_eq
        rcases h.gap with ⟨_, hl, _⟩ | hk₁ <;> omega
      simp [StrikeRegister.getNextExpected, h.covers.largest_eq, hl]
      decide
    · exact (h.first_acks hz).2 ack hack
  | onAcknowledgements ack hack =>
    refine ⟨k, base, largest, ?_⟩
    unfold NonceLink.onAcknowledgements
    split
    · exact h
    · simp only
      split
      · exact h.acks rfl rfl rfl rfl rfl h.first_acks
      · refine h.acks rfl rfl rfl rfl rfl fun hz => ⟨?_, (h.first_acks hz).2⟩
        simp only
        rw [(h.first_acks hz).2 ack hack]
        exact recovered_le_one (h.first_acks hz).1
  | onTimeSync ack hack =>
    refine ⟨k, base, largest, ?_⟩
    unfold NonceLink.updateNextExpectedNonceFromTimeSync
    simp only
    split
    · refine h.acks rfl rfl rfl rfl rfl fun hz => ⟨?_, (h.first_acks hz).2⟩
      simp only
      rw [(h.first_acks hz).2 ack hack]
      exact recovered_le_one (h.first_acks hz).1
    · exact h
  | disableSequenceNumberCompress =>
    exact ⟨k, base, largest, h.acks rfl rfl rfl rfl rfl h.first_acks⟩

/-- In a run whose arrivals are all recoverable, every datagram is read under the nonce it was sent
with, whatever becomes of the acknowledgements. -/
theorem nonces_agree (evs : List Event) (s : NonceLink)
    (hrun : Run (Restrict Recoverable Steps) initial evs s) : ∀ p ∈ s.decoded, p.1 = p.2 := by
  obtain ⟨k, base, largest, h⟩ :=
    hrun.invariant (P := fun s => ∃ k base largest, s.Inv k base largest)
      ⟨0, 0, 0, inv_initial⟩ fun _ _ _ ⟨_, _, _, h⟩ hstep => h.step hstep
  exact h.agree

def acknowledgedPair : List Event :=
  [.send, .deliver false, .send, .deliver false, .postAcknowledgements 0,
    .onAcknowledgements ⟨0, 2⟩, .send, .send]

def pairInFlight : NonceLink :=
  ⟨4, 2, 1, true, [⟨2, 1⟩, ⟨3, 0⟩], [⟨0, 2⟩], (StrikeRegister.initial.accept 0).accept 1, 0,
    [(0, 0), (1, 1)]⟩

theorem run_acknowledgedPair :
    Run (Restrict Recoverable Steps) initial acknowledgedPair pairInFlight := by
  refine .cons ⟨trivial, .send _⟩ <| .cons ⟨?_, .deliver _ ⟨0, 1⟩ [] false (by rfl)⟩ <|
    .cons ⟨trivial, .send _⟩ <| .cons ⟨?_, .deliver _ ⟨1, 0⟩ [] false (by rfl)⟩ <|
    .cons ⟨trivial, .postAcknowledgements _ 0⟩ <|
    .cons ⟨trivial, .onAcknowledgements _ ⟨0, 2⟩ ?_⟩ <|
    .cons ⟨trivial, .send _⟩ <| .cons ⟨trivial, .send _⟩ (.nil _)
  · intro d ds hd
    cases hd
    decide
  · intro d ds hd
    cases hd
    decide
  · exact List.mem_cons_self

theorem processDatagram_decoded (s : NonceLink) (d : NonceField) (tagCollides : Bool) :
    (s.processDatagram d tagCollides).decoded =
      s.decoded ++ [(wrap 64 d.nonce, s.antiReplay.readNonce d.part d.bytes)] := by
  unfold processDatagram
  simp only
  split
  · rfl
  · split <;> rfl

/-- Both of the two arrive, the second with its nonce omitted. -/
theorem nonces_agree_acknowledgedPair :
    ∃ s, Run (Restrict Recoverable Steps) initial
        (acknowledgedPair ++ [.deliver false] ++ [.deliver false]) s ∧
      s.decoded = [(0, 0), (1, 1), (2, 2), (3, 3)] ∧ ∀ p ∈ s.decoded, p.1 = p.2 := by
  have hfirst : pairInFlight.Recoverable (.deliver false) := by
    intro d ds hd
    cases hd
    decide
  have hsecond : ({ pairInFlight with inFlight := [⟨3, 0⟩], lostInARow := 0 }.processDatagram
      ⟨2, 1⟩ false).Recoverable (.deliver false) := by
    intro d ds hd
    cases hd
    decide
  have hrun := (run_acknowledgedPair.snoc ⟨hfirst, .deliver _ ⟨2, 1⟩ _ false rfl⟩).snoc
    ⟨hsecond, .deliver _ ⟨3, 0⟩ [] false rfl⟩
  exact ⟨_, hrun, rfl, nonces_agree _ _ hrun⟩

/-- The first of the two is lost, and the second, its nonce omitted, is read as the first. -/
theorem omitted_nonce_misread : ∃ s,
    Run Steps initial (acknowledgedPair ++ [.lose, .deliver false]) s ∧ (3, 2) ∈ s.decoded := by
  have hrun := ((run_acknowledgedPair.mono fun _ _ _ h => h.2).snoc (.lose _ _ _ rfl)).snoc
    (.deliver _ ⟨3, 0⟩ [] false rfl)
  rw [List.append_assoc] at hrun
  refine ⟨_, hrun, ?_⟩
  rw [processDatagram_decoded]
  exact List.mem_append_right _ (List.mem_singleton.mpr (by decide))

end NonceLink
end Tonk.Session
