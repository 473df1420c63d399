import Tonk.Session.Overtaken

/-!
What reaches the receiver over whole runs: packet numbers are read as they were sent, and ordered
messages are handled once and in order. Each theorem is followed by a run in which a retransmission
is overtaken and the code breaks it.
-/

set_option autoImplicit false

namespace Tonk.Session
open Protocol Serial Siamese Transition

variable {α : Type}

namespace ReliableIncoming

theorem resumeLoop_next_lt (turns : Nat) {r : ReliableIncoming α}
    (h : r.fecNextExpectedPacketNum < kColumnPeriod) :
    (r.resumeLoop turns).fecNextExpectedPacketNum < kColumnPeriod := by
  induction turns generalizing r with
  | zero => exact h
  | succ turns ih =>
    unfold resumeLoop
    split
    · exact h
    · exact ih (incrementColumn1_lt _)
    · exact h

theorem decoderAddOriginal_next_lt {r : ReliableIncoming α}
    (h : r.fecNextExpectedPacketNum < kColumnPeriod) (relseqNum : Nat)
    (packet : List (ReliableMessage α)) :
    (r.decoderAddOriginal relseqNum packet).fecNextExpectedPacketNum < kColumnPeriod := by
  unfold decoderAddOriginal
  split
  · exact h
  · simp only
    split
    · exact resumeLoop_next_lt _ (incrementColumn1_lt _)
    · exact h
  · exact h

theorem processReliable_next_lt {r : ReliableIncoming α}
    (h : r.fecNextExpectedPacketNum < kColumnPeriod) (relseqNum : Nat)
    (packet : List (ReliableMessage α)) :
    (r.processReliable relseqNum packet).fecNextExpectedPacketNum < kColumnPeriod ∧
      (r.processReliable relseqNum packet).taken = r.taken := by
  have hdone := processMessages_processed relseqNum
    (decide (r.fecNextExpectedPacketNum = relseqNum)) none packet r
  unfold processReliable
  simp only
  generalize r.processMessages relseqNum (decide (r.fecNextExpectedPacketNum = relseqNum)) none
    packet = r₁ at hdone ⊢
  have hlt : r₁.fecNextExpectedPacketNum < kColumnPeriod := hdone.next_eq ▸ h
  split
  · exact ⟨hlt, hdone.same.taken⟩
  · obtain ⟨-, -, htaken, -⟩ := r₁.decoderAddOriginal_keeps relseqNum packet
    exact ⟨decoderAddOriginal_next_lt hlt relseqNum packet, htaken.trans hdone.same.taken⟩

end ReliableIncoming

namespace ReliableLink

def NumbersAgree (s : ReliableLink α) : Prop := ∀ p ∈ s.incoming.taken, p.1 = p.2

structure Sized (s : ReliableLink α) : Prop where
  next_lt : s.incoming.fecNextExpectedPacketNum < kColumnPeriod
  bytes : ∀ d, .reliable d ∈ s.datagrams → 0 < d.sequenceBytes ∧ d.sequenceBytes ≤ 3

theorem sized_initial (encryptor : SimpleCipher) : (initial encryptor : ReliableLink α).Sized :=
  ⟨show 0 < kColumnPeriod by decide, by simp [initial]⟩

theorem processDatagram_taken {r : ReliableIncoming α} {d : ReliableDatagram α}
    (hnext : r.fecNextExpectedPacketNum < kColumnPeriod) :
    (r.processDatagram d).fecNextExpectedPacketNum < kColumnPeriod ∧
      (r.processDatagram d).taken = r.taken ++
        if r.antiReplay.isDuplicate (wrap 64 d.nonce) = true ∨
            { r with antiReplay := r.antiReplay.accept (wrap 64 d.nonce) }.ignoresReordered d = true then
          []
        else [(columnOf d.packetNum,
          expandSequence r.fecNextExpectedPacketNum d.partialSeq d.sequenceBytes)] := by
  unfold ReliableIncoming.processDatagram ReliableIncoming.accepting
  simp only
  split
  · next hdup => simp [hdup, hnext]
  · next hfresh =>
    split
    · next hignored => simp [hignored, hnext]
    · next hordered =>
      rw [if_neg (by simp [hfresh, hordered])]
      exact ReliableIncoming.processReliable_next_lt (r := { r with
        antiReplay := r.antiReplay.accept (wrap 64 d.nonce)
        taken := _ }) hnext _ _

def Legible (s : ReliableLink α) : Event α → Prop
  | .receive d => s.Readable d
  | _ => True

theorem Sized.step {s s' : ReliableLink α} {event : Event α} (h : s.Sized)
    (hstep : Steps s event s') :
    s'.Sized ∧ (s'.NumbersAgree ↔ s.NumbersAgree ∧ s.Legible event) := by
  have hsame : ∀ s' : ReliableLink α, s'.incoming.taken = s.incoming.taken →
      (s'.NumbersAgree ↔ s.NumbersAgree ∧ True) := by
    intro s' htaken
    unfold NumbersAgree
    rw [htaken, and_true]
  have hsends : ∀ s' : ReliableLink α, s'.incoming = s.incoming →
      (∀ d, .reliable d ∈ s'.datagrams → .reliable d ∈ s.datagrams ∨
        0 < d.sequenceBytes ∧ d.sequenceBytes ≤ 3) → s'.Sized := by
    intro s' hincoming hdatagrams
    refine ⟨hincoming ▸ h.next_lt, fun d hd => ?_⟩
    rcases hdatagrams d hd with hold | hnew
    · exact h.bytes d hold
    · exact hnew
  cases hstep with
  | send packet nowMsec =>
    refine ⟨hsends _ rfl fun d hd => ?_, hsame _ rfl⟩
    rcases List.mem_cons.mp hd with heq | hold
    · cases heq
      exact .inr (getPacketNumBytes_mem _ _)
    · exact .inl hold
  | retransmit packetNum packet =>
    refine ⟨hsends _ rfl fun d hd => ?_, hsame _ rfl⟩
    rcases List.mem_cons.mp hd with heq | hold
    · cases heq
      exact .inr (getPacketNumBytes_mem _ _)
    · exact .inl hold
  | sendRecovery =>
    refine ⟨hsends _ rfl fun d hd => ?_, hsame _ rfl⟩
    rcases List.mem_cons.mp hd with heq | hold
    · cases heq
    · exact .inl hold
  | sendUnreliable =>
    refine ⟨hsends _ rfl fun d hd => ?_, hsame _ rfl⟩
    rcases List.mem_cons.mp hd with heq | hold
    · cases heq
    · exact .inl hold
  | disableSequenceNumberCompress => exact ⟨hsends _ rfl fun d hd => .inl hd, hsame _ rfl⟩
  | receive d hidle hsent =>
    obtain ⟨hnext, htaken⟩ := processDatagram_taken (d := d) h.next_lt
    obtain ⟨hpos, hle⟩ := h.bytes d hsent
    have hread : expandSequence s.incoming.fecNextExpectedPacketNum d.partialSeq d.sequenceBytes =
        columnOf d.packetNum ↔ _ := expandSequence_eq_iff hpos hle h.next_lt
    refine ⟨⟨hnext, h.bytes⟩, ?_⟩
    unfold NumbersAgree Legible Readable
    simp only [withIncoming, htaken, ← or_assoc]
    split
    · next hdropped => simp [hdropped]
    · next hkept =>
      simp only [hkept, false_or, ← hread, List.mem_append, List.mem_singleton]
      constructor
      · intro hall
        exact ⟨fun p hp => hall p (.inl hp), (hall _ (.inr rfl)).symm⟩
      · rintro ⟨hold, hnew⟩ p (hp | rfl)
        · exact hold p hp
        · exact hnew.symm
  | receiveRecovery nonce metadata packetEnd single checked reported =>
    have hfields : (s.incoming.onRecovery nonce metadata packetEnd single checked
        reported).fecNextExpectedPacketNum = s.incoming.fecNextExpectedPacketNum ∧
        (s.incoming.onRecovery nonce metadata packetEnd single checked reported).taken =
          s.incoming.taken := by
      unfold ReliableIncoming.onRecovery ReliableIncoming.accepting
      simp only
      split
      · exact ⟨rfl, rfl⟩
      · split <;> exact ⟨rfl, rfl⟩
    exact ⟨⟨hfields.1 ▸ h.next_lt, h.bytes⟩, hsame _ hfields.2⟩
  | receiveUnreliable nonce =>
    have hfields : (s.incoming.accepting nonce id).fecNextExpectedPacketNum =
        s.incoming.fecNextExpectedPacketNum ∧
        (s.incoming.accepting nonce id).taken = s.incoming.taken := by
      unfold ReliableIncoming.accepting
      split <;> exact ⟨rfl, rfl⟩
    exact ⟨⟨hfields.1 ▸ h.next_lt, h.bytes⟩, hsame _ hfields.2⟩
  | decode recovered decoder =>
    refine ⟨⟨ReliableIncoming.resumeLoop_next_lt _ h.next_lt, h.bytes⟩, hsame _ ?_⟩
    exact (ReliableIncoming.resumeLoop_keeps _ _).1.taken
  | decodeDone => exact ⟨⟨h.next_lt, h.bytes⟩, hsame _ rfl⟩
  | postAcknowledgements => exact ⟨⟨h.next_lt, h.bytes⟩, hsame _ rfl⟩
  | acknowledge => exact ⟨⟨h.next_lt, h.bytes⟩, hsame _ rfl⟩

theorem run_sized {encryptor : SimpleCipher} {events : List (Event α)} {s : ReliableLink α}
    (hrun : Run Steps (initial encryptor) events s) : s.Sized :=
  hrun.invariant (sized_initial encryptor) fun _ _ _ h hstep => (h.step hstep).1

/-- In every run, no datagram is taken for another packet if and only if each one that comes in is
dropped, or has a packet number less than half the range of its field away from the next expected
one. -/
theorem sequence_numbers_agree_iff (encryptor : SimpleCipher) (events : List (Event α))
    (s : ReliableLink α) (hrun : Run Steps (initial encryptor) events s) :
    s.NumbersAgree ↔ Run (Restrict Legible Steps) (initial encryptor) events s := by
  constructor
  · intro hagree
    induction hrun with
    | nil => exact .nil _
    | snoc hrun hstep ih =>
      obtain ⟨hbefore, hlegible⟩ := ((run_sized hrun).step hstep).2.mp hagree
      exact .snoc (ih hbefore) ⟨hlegible, hstep⟩
  · intro hlegible
    refine (hlegible.invariant (P := fun s => s.Sized ∧ s.NumbersAgree)
      ⟨sized_initial encryptor, fun p hp => by cases hp⟩ fun t event u ⟨hsized, hagree⟩ hstep => ?_).2
    obtain ⟨hsized', hiff⟩ := hsized.step hstep.2
    exact ⟨hsized', hiff.mpr ⟨hagree, hstep.1⟩⟩

def noCipher : SimpleCipher := ⟨0, 0, 0, 0⟩

def swapped : List (Event Nat) :=
  [.send [.ordered 5] 0, .send [.ordered 6] 0, .receive ⟨1, 0, 1, 1, [.ordered 6]⟩, .decodeDone,
    .receive ⟨0, 1, 1, 0, [.ordered 5]⟩, .decodeDone]

theorem swapped_run : ∃ s, Run Steps (initial noCipher) swapped s ∧
    s.incoming.taken = [(1, 1), (0, 0)] ∧ s.incoming.handled = [5, 6] := by
  refine ⟨_, .cons (.send _ _ 0 rfl) <| .cons (.send _ _ 0 rfl) <|
    .cons (.receive _ _ ⟨rfl, rfl⟩ ?_) <| .cons (.decodeDone _ rfl rfl) <|
    .cons (.receive _ _ ⟨rfl, rfl⟩ ?_) <| .cons (.decodeDone _ rfl rfl) (.nil _), rfl, rfl⟩
  · exact List.mem_cons_self
  · exact List.mem_cons_of_mem _ List.mem_cons_self

theorem sequence_numbers_agree_swapped : ∃ s, Run Steps (initial noCipher) swapped s ∧
    s.incoming.taken = [(1, 1), (0, 0)] ∧
    Run (Restrict Legible Steps) (initial noCipher) swapped s := by
  obtain ⟨s, hrun, htaken, -⟩ := swapped_run
  refine ⟨s, hrun, htaken, (sequence_numbers_agree_iff _ _ s hrun).mp fun p hp => ?_⟩
  rw [htaken] at hp
  rcases List.mem_cons.mp hp with rfl | hp
  · rfl
  · rw [List.mem_singleton.mp hp]

/-- Packet 0, sent a second time, is taken for packet 256. -/
theorem retransmission_misread :
    ¬ ∀ events, ∀ s : ReliableLink Nat, Run Steps (initial noCipher) events s → s.NumbersAgree := by
  intro hall
  obtain ⟨events, s, -, hrun, -, -, -, -, -, -, htaken, -⟩ := overtaken_retransmission noCipher 5
  exact absurd (hall events s hrun _ htaken) (by decide)

/-- The ordered messages are handled in the order of the packet numbers, none twice and none left
out in front of the next expected packet, and the receiver agrees with the decoder on that packet
whenever ProcessDatagram has returned. -/
def HandledInOrder (s : ReliableLink α) : Prop :=
  s.incoming.handled <+: s.sent.flatMap orderedMessages ∧
    (s.incoming.isShutdown = false → ∃ k, k ≤ s.sent.length ∧
      s.incoming.fecNextExpectedPacketNum = columnOf k ∧
      s.incoming.handled = (s.sent.take k).flatMap orderedMessages) ∧
    (s.Idle → s.incoming.handled = (s.sent.take s.nextExpected).flatMap orderedMessages ∧
      s.incoming.fecNextExpectedPacketNum = s.incoming.fecDecoder.window.elementToColumn
        s.incoming.fecDecoder.window.nextExpectedElement)

theorem Sound.handledInOrder {s : ReliableLink α} (h : s.Sound) : s.HandledInOrder := by
  rcases h with ⟨hopen, k, h⟩ | ⟨hshutdown, -, hhandled⟩
  · refine ⟨?_, fun _ => ⟨k, ?_, h.next_eq, h.handled_eq⟩, fun hidle => ?_⟩
    · rw [h.handled_eq]
      exact take_flatMap_initial s.sent k
    · exact h.next_le.trans h.nextExpected_le
    · have hk := h.caught_up (h.idle hidle.2)
      refine ⟨hk ▸ h.handled_eq, ?_⟩
      rw [h.next_eq, DecoderPacketWindow.elementToColumn, h.decoder.columnStart_eq,
        addColumns_columnOf_right, hk]
      rfl
  · refine ⟨hhandled, fun hopen => ?_, fun hidle => ?_⟩
    · exact absurd (hshutdown.symm.trans hopen) (by decide)
    · exact absurd (hshutdown.symm.trans hidle.1) (by decide)

/-- In every run in which nothing is used half a column period late or early and every packet number
is in range, the ordered messages are handled once and in order. -/
theorem ordered_messages_handled_once (encryptor : SimpleCipher) (events : List (Event α))
    (s : ReliableLink α) (hrun : Run (Restrict Regular Steps) (initial encryptor) events s) :
    s.HandledInOrder := by
  have hsound : s.Sound := hrun.invariant (sound_initial encryptor) fun t event u h hstep =>
    h.step hstep.1 hstep.2
  exact hsound.handledInOrder

theorem ordered_messages_handled_once_swapped : ∃ s,
    Run (Restrict Regular Steps) (initial noCipher) swapped s ∧ s.incoming.handled = [5, 6] ∧
      s.HandledInOrder := by
  obtain ⟨s, hrun, hhandled⟩ : ∃ s, Run (Restrict Regular Steps) (initial noCipher) swapped s ∧
      s.incoming.handled = [5, 6] := by
    refine ⟨_, .cons ⟨trivial, .send _ _ 0 rfl⟩ <| .cons ⟨trivial, .send _ _ 0 rfl⟩ <|
      .cons ⟨?_, .receive _ _ ⟨rfl, rfl⟩ ?_⟩ <| .cons ⟨trivial, .decodeDone _ rfl rfl⟩ <|
      .cons ⟨?_, .receive _ _ ⟨rfl, rfl⟩ ?_⟩ <| .cons ⟨trivial, .decodeDone _ rfl rfl⟩ (.nil _), rfl⟩
    · exact .inr (.inr ⟨.inr (by decide), by decide, by decide, by decide⟩)
    · exact List.mem_cons_self
    · exact .inr (.inr ⟨.inr (by decide), by decide, by decide, by decide⟩)
    · exact List.mem_cons_of_mem _ List.mem_cons_self
  exact ⟨s, hrun, hhandled, ordered_messages_handled_once _ _ s hrun⟩

theorem flatMap_empty (count : Nat) :
    (List.replicate count ([] : List (ReliableMessage α))).flatMap orderedMessages = [] := by
  rw [List.flatMap_replicate]
  exact List.flatten_replicate_nil

/-- When packet 255 has come in, the second copy of packet 0 is handled as packet 256. -/
theorem retransmission_handled_twice :
    ¬ ∀ events, ∀ s : ReliableLink Nat, Run Steps (initial noCipher) events s →
      s.HandledInOrder := by
  intro hall
  obtain ⟨events, s, g, hrun, hsent, hg, hreceives, ⟨accepted, hstruck, hbelow⟩, hlargest, hoffers, -⟩ :=
    overtaken_retransmission noCipher 5
  have hempty : ∀ i, 1 ≤ i → i < 256 → g.sent[i]? = some [] := by
    intro i hge hlt
    rw [hg]
    exact getElem?_between hge (by omega)
  obtain ⟨events', r, hrun', hreceives', -⟩ := receive_range (c := 1) hreceives hstruck hlargest hbelow
    126 (by decide) fun i hge hlt => ⟨by simp; omega, [], hempty i (by omega) (by omega),
      hoffers i hge (by omega)⟩
  obtain ⟨hinv, -⟩ := hreceives'.next_eq (j := 257)
    (fun n hn => by simp only [upTo, List.mem_singleton]; omega) (by simp [upTo])
  have hhandled : r.handled = [5, 5] := by
    have heq : r.handled = (g.sent.take 257).flatMap orderedMessages := hinv.handled_eq
    have hall : g.sent.take 257 = g.sent := by
      refine List.take_of_length_le ?_
      rw [hg, List.length_append, List.length_cons, List.length_replicate, List.length_singleton]
    rw [heq, hall, hg, List.cons_append, List.flatMap_cons, List.flatMap_append, flatMap_empty]
    rfl
  have hin := (hall _ _ (hrun.append hrun')).1
  simp only [hhandled, hsent, List.flatMap_cons, flatMap_empty] at hin
  exact absurd hin.length_le (by decide)

end ReliableLink
end Tonk.Session
