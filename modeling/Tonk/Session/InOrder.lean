import Tonk.Session.ReliableLink
import Tonk.Siamese.DecoderContents

/-!
`SessionIncoming` handles the ordered messages of every packet once and in the order of the packet
numbers. The packet number it expects next is followed without bound beside the 22 bits the code
keeps of it.
-/

set_option autoImplicit false

namespace Tonk.Session
open Protocol Serial Siamese Transition

variable {α : Type}

namespace ReliableIncoming

structure SameDecoder (r r' : ReliableIncoming α) : Prop where
  antiReplay : r'.antiReplay = r.antiReplay
  fecDecoder : r'.fecDecoder = r.fecDecoder
  taken : r'.taken = r.taken

theorem SameDecoder.refl (r : ReliableIncoming α) : r.SameDecoder r := ⟨rfl, rfl, rfl⟩

theorem SameDecoder.trans {r r' r'' : ReliableIncoming α} (h : r.SameDecoder r')
    (h' : r'.SameDecoder r'') : r.SameDecoder r'' :=
  ⟨h'.antiReplay.trans h.antiReplay, h'.fecDecoder.trans h.fecDecoder, h'.taken.trans h.taken⟩

/-- What the loop over the messages of a packet has done when it ends: all of them are dealt with,
or the decoder was disabled and the connection shuts down on the way. -/
structure Processed (r r' : ReliableIncoming α) (inSequence firstSeen : Bool)
    (packet : List (ReliableMessage α)) : Prop where
  same : r.SameDecoder r'
  next_eq : r'.fecNextExpectedPacketNum = r.fecNextExpectedPacketNum
  handled : ∃ part, part <+: orderedMessages packet ∧
    r'.handled = r.handled ++ (if inSequence then part else []) ∧
    (r'.isShutdown = r.isShutdown → r.isShutdown = false → part = orderedMessages packet)
  delivered : ∃ part, part <+: unorderedMessages packet ∧
    r'.delivered = r.delivered ++ (if firstSeen then part else []) ∧
    (r'.isShutdown = r.isShutdown → r.isShutdown = false → part = unorderedMessages packet)
  ended : r'.isShutdown = r.isShutdown ∧ r'.decoding = r.decoding ∨
    r.fecDecoder.emergencyDisabled = true ∧ r'.isShutdown = true ∧ r'.decoding = false

def seesFirst (r : ReliableIncoming α) (relseqNum : Nat) : Option Bool → Bool
  | some firstSeen => firstSeen
  | none => (r.fecDecoder.get relseqNum).1 = .needMoreData

theorem get_fst (d : Decoder (List (ReliableMessage α)) Nat) (packetNum : Nat) :
    (d.get packetNum).1 = .disabled ∧ d.emergencyDisabled = true ∨
      (d.get packetNum).1 = .needMoreData ∧ d.emergencyDisabled = false ∨
      (d.get packetNum).1 = .success ∧ d.emergencyDisabled = false := by
  unfold Decoder.get
  by_cases hdisabled : d.emergencyDisabled = true
  · exact .inl ⟨by simp [hdisabled], hdisabled⟩
  · have henabled : d.emergencyDisabled = false := by simpa using hdisabled
    rw [if_neg hdisabled]
    simp only
    split
    · exact .inr (.inl ⟨rfl, henabled⟩)
    · split
      · exact .inr (.inl ⟨rfl, henabled⟩)
      · exact .inr (.inr ⟨rfl, henabled⟩)

theorem Processed.ordered {r r' : ReliableIncoming α} {inSequence firstSeen : Bool}
    {packet : List (ReliableMessage α)} {data : α}
    (h : (if inSequence then { r with handled := r.handled ++ [data] } else r).Processed r' inSequence
      firstSeen packet) : r.Processed r' inSequence firstSeen (.ordered data :: packet) := by
  cases inSequence with
  | false =>
    obtain ⟨hsame, hnext, ⟨part, -, hhandled, -⟩, hdelivered, hended⟩ := h
    exact ⟨hsame, hnext, ⟨_, List.prefix_refl _, by simpa using hhandled, fun _ _ => rfl⟩, hdelivered,
      hended⟩
  | true =>
    obtain ⟨hsame, hnext, ⟨part, hpart, hhandled, hall⟩, hdelivered, hended⟩ := h
    refine ⟨⟨hsame.1, hsame.2, hsame.3⟩, hnext, ⟨data :: part, ?_, ?_, fun hs hr => ?_⟩, hdelivered,
      hended⟩
    · exact List.prefix_cons_inj data |>.mpr hpart
    · simpa using hhandled
    · rw [hall hs hr]
      rfl

theorem Processed.unordered_new {r r' : ReliableIncoming α} {inSequence : Bool}
    {packet : List (ReliableMessage α)} {data : α}
    (h : { r with delivered := r.delivered ++ [data] }.Processed r' inSequence true packet) :
    r.Processed r' inSequence true (.unordered data :: packet) := by
  obtain ⟨hsame, hnext, hhandled, ⟨part, hpart, hdelivered, hall⟩, hended⟩ := h
  refine ⟨⟨hsame.1, hsame.2, hsame.3⟩, hnext, hhandled, ⟨data :: part, ?_, ?_, fun hs hr => ?_⟩,
    hended⟩
  · exact List.prefix_cons_inj data |>.mpr hpart
  · simpa using hdelivered
  · rw [hall hs hr]
    rfl

theorem Processed.unordered_old {r r' : ReliableIncoming α} {inSequence : Bool}
    {packet : List (ReliableMessage α)} {data : α} (h : r.Processed r' inSequence false packet) :
    r.Processed r' inSequence false (.unordered data :: packet) := by
  obtain ⟨hsame, hnext, hhandled, ⟨part, -, hdelivered, -⟩, hended⟩ := h
  exact ⟨hsame, hnext, hhandled, ⟨_, List.prefix_refl _, by simpa using hdelivered, fun _ _ => rfl⟩,
    hended⟩

theorem processed_fail {r : ReliableIncoming α} (hdisabled : r.fecDecoder.emergencyDisabled = true)
    (inSequence firstSeen : Bool) (packet : List (ReliableMessage α)) :
    r.Processed r.fail inSequence firstSeen packet := by
  have hstop : r.fail.isShutdown = r.isShutdown → r.isShutdown = false → False := by
    intro hs hr
    rw [hr] at hs
    exact absurd hs (by simp [fail])
  refine ⟨⟨rfl, rfl, rfl⟩, rfl, ⟨[], List.nil_prefix, ?_, fun hs hr => (hstop hs hr).elim⟩,
    ⟨[], List.nil_prefix, ?_, fun hs hr => (hstop hs hr).elim⟩, .inr ⟨hdisabled, rfl, rfl⟩⟩
  · simp [fail]
  · simp [fail]

theorem processMessages_processed (relseqNum : Nat) (inSequence : Bool) (seen : Option Bool)
    (packet : List (ReliableMessage α)) (r : ReliableIncoming α) :
    r.Processed (r.processMessages relseqNum inSequence seen packet) inSequence
      (r.seesFirst relseqNum seen) packet := by
  induction packet generalizing r seen with
  | nil =>
    have hsame : r.processMessages relseqNum inSequence seen [] = r := by
      unfold processMessages
      rfl
    rw [hsame]
    exact ⟨.refl r, rfl, ⟨[], List.prefix_refl _, by simp, fun _ _ => rfl⟩,
      ⟨[], List.prefix_refl _, by simp, fun _ _ => rfl⟩, .inl ⟨rfl, rfl⟩⟩
  | cons message packet ih =>
    cases message with
    | ordered data =>
      have hseen : (if inSequence then { r with handled := r.handled ++ [data] } else r).seesFirst
          relseqNum seen = r.seesFirst relseqNum seen := by
        cases inSequence <;> cases seen <;> rfl
      have h := ih seen (if inSequence then { r with handled := r.handled ++ [data] } else r)
      rw [hseen] at h
      unfold processMessages
      exact h.ordered
    | unordered data =>
      cases seen with
      | some firstSeen =>
        cases firstSeen with
        | true =>
          unfold processMessages
          exact (ih (some true) _).unordered_new
        | false =>
          unfold processMessages
          exact (ih (some false) r).unordered_old
      | none =>
        unfold processMessages seesFirst
        rcases get_fst r.fecDecoder relseqNum with ⟨hget, hdisabled⟩ | ⟨hget, -⟩ | ⟨hget, -⟩
        · rw [hget]
          exact processed_fail hdisabled _ _ _
        · rw [hget]
          exact (ih (some true) _).unordered_new
        · rw [hget]
          exact (ih (some false) r).unordered_old

theorem get_before_next {d : Decoder (List (ReliableMessage α)) Nat} {windowStart added k : Nat}
    (h : d.Placed windowStart added) (henabled : d.emergencyDisabled = false) (hge : windowStart ≤ k)
    (hlt : k < windowStart + d.window.nextExpectedElement) :
    ∃ packet, d.window.getWindowElement (k - windowStart) = some packet ∧
      d.get (columnOf k) = (.success, some packet) := by
  have hcount := h.sound.count_le
  have hnext := h.sound.next_le
  have helement := h.columnToElement_of_ge hge (by simp only [kColumnPeriod] at hcount ⊢; omega)
  have hgot := h.sound.before_next (k - windowStart) (by omega)
  rw [h.sound.got_eq] at hgot
  obtain ⟨packet, hpacket⟩ := Option.isSome_iff_exists.mp hgot
  refine ⟨packet, hpacket, ?_⟩
  unfold Decoder.get
  rw [if_neg (by simp [henabled])]
  simp only [helement]
  rw [if_neg (by simp only [DecoderPacketWindow.invalidElement, decide_eq_true_eq]; omega), hpacket]

theorem get_at_next {d : Decoder (List (ReliableMessage α)) Nat} {windowStart added : Nat}
    (h : d.Placed windowStart added) (henabled : d.emergencyDisabled = false) :
    d.get (columnOf (windowStart + d.window.nextExpectedElement)) = (.needMoreData, none) := by
  have hcount := h.sound.count_le
  have hnext := h.sound.next_le
  have helement := h.columnToElement_of_ge (n := windowStart + d.window.nextExpectedElement)
    (Nat.le_add_right _ _) (by simp only [kColumnPeriod] at hcount ⊢; omega)
  rw [Nat.add_sub_cancel_left] at helement
  unfold Decoder.get
  rw [if_neg (by simp [henabled])]
  simp only [helement]
  split
  · rfl
  · next hvalid =>
    have hlost := h.sound.at_next (by
      simpa [DecoderPacketWindow.invalidElement] using hvalid)
    rw [h.sound.got_eq] at hlost
    have hnone : d.window.getWindowElement d.window.nextExpectedElement = none := by
      simpa using hlost
    rw [hnone]

theorem resumeLoop_eq {sent : List (List (ReliableMessage α))} {windowStart added : Nat}
    (turns : Nat) (r : ReliableIncoming α) (k : Nat)
    (h : r.fecDecoder.Placed windowStart added) (henabled : r.fecDecoder.emergencyDisabled = false)
    (hcontents : ∀ e packet, r.fecDecoder.window.getWindowElement e = some packet →
      sent[windowStart + e]? = some packet)
    (hnext : r.fecNextExpectedPacketNum = columnOf k) (hge : windowStart ≤ k)
    (hle : k ≤ windowStart + r.fecDecoder.window.nextExpectedElement)
    (hhandled : r.handled = (sent.take k).flatMap orderedMessages)
    (hturns : windowStart + r.fecDecoder.window.nextExpectedElement < k + turns) :
    r.resumeLoop turns = { r with
      fecNextExpectedPacketNum :=
        columnOf (windowStart + r.fecDecoder.window.nextExpectedElement)
      handled := (sent.take (windowStart + r.fecDecoder.window.nextExpectedElement)).flatMap
        orderedMessages } := by
  induction turns generalizing r k with
  | zero => omega
  | succ turns ih =>
    unfold resumeLoop
    rw [hnext]
    by_cases hlast : k = windowStart + r.fecDecoder.window.nextExpectedElement
    · rw [hlast, get_at_next h henabled]
      rw [hlast] at hnext hhandled
      simp only [← hnext, ← hhandled]
    · obtain ⟨packet, hpacket, hget⟩ := get_before_next h henabled hge (by omega)
      have hsent := hcontents _ _ hpacket
      rw [Nat.add_sub_cancel' hge] at hsent
      rw [hget]
      simp only [incrementColumn1_columnOf]
      refine ih _ (k + 1) h henabled hcontents rfl (by omega) ?_ ?_ ?_
      · simp only
        omega
      · simp only [hhandled]
        rw [List.take_add_one, hsent]
        simp
      · simp only
        omega

theorem resumeProcessing_eq {sent : List (List (ReliableMessage α))} {windowStart added : Nat}
    (r : ReliableIncoming α) (k : Nat) (h : r.fecDecoder.Placed windowStart added)
    (henabled : r.fecDecoder.emergencyDisabled = false)
    (hcontents : ∀ e packet, r.fecDecoder.window.getWindowElement e = some packet →
      sent[windowStart + e]? = some packet)
    (hnext : r.fecNextExpectedPacketNum = columnOf k) (hge : windowStart ≤ k)
    (hle : k ≤ windowStart + r.fecDecoder.window.nextExpectedElement)
    (hhandled : r.handled = (sent.take k).flatMap orderedMessages) :
    r.resumeProcessing = { r with
      fecNextExpectedPacketNum :=
        columnOf (windowStart + r.fecDecoder.window.nextExpectedElement)
      handled := (sent.take (windowStart + r.fecDecoder.window.nextExpectedElement)).flatMap
        orderedMessages } := by
  have hcount := h.sound.next_le
  exact resumeLoop_eq _ r k h henabled hcontents hnext hge hle hhandled (by omega)

theorem resumeProcessing_disabled {r : ReliableIncoming α}
    (hdisabled : r.fecDecoder.emergencyDisabled = true) : r.resumeProcessing = r.fail := by
  unfold resumeProcessing resumeLoop
  simp [Decoder.get, hdisabled]

theorem decoderAddOriginal_duplicate {r : ReliableIncoming α} {relseqNum : Nat}
    {packet : List (ReliableMessage α)} {d : Decoder (List (ReliableMessage α)) Nat}
    (hadd : r.fecDecoder.addOriginal relseqNum packet = (d, .duplicateData)) :
    r.decoderAddOriginal relseqNum packet = { r with fecDecoder := d } := by
  unfold decoderAddOriginal
  rw [hadd]

theorem decoderAddOriginal_next {r : ReliableIncoming α} {relseqNum : Nat}
    {packet : List (ReliableMessage α)} {d : Decoder (List (ReliableMessage α)) Nat}
    (hadd : r.fecDecoder.addOriginal relseqNum packet = (d, .success))
    (hnext : relseqNum = r.fecNextExpectedPacketNum) :
    r.decoderAddOriginal relseqNum packet = { r with
      fecDecoder := d
      decoding := true
      fecNextExpectedPacketNum :=
        incrementColumn1 r.fecNextExpectedPacketNum }.resumeProcessing := by
  unfold decoderAddOriginal
  rw [hadd]
  exact if_pos hnext

theorem decoderAddOriginal_later {r : ReliableIncoming α} {relseqNum : Nat}
    {packet : List (ReliableMessage α)} {d : Decoder (List (ReliableMessage α)) Nat}
    (hadd : r.fecDecoder.addOriginal relseqNum packet = (d, .success))
    (hnext : relseqNum ≠ r.fecNextExpectedPacketNum) :
    r.decoderAddOriginal relseqNum packet = { r with fecDecoder := d, decoding := true } := by
  unfold decoderAddOriginal
  rw [hadd]
  exact if_neg hnext

theorem decoderAddOriginal_disabled {r : ReliableIncoming α}
    (hdisabled : r.fecDecoder.emergencyDisabled = true) (relseqNum : Nat)
    (packet : List (ReliableMessage α)) : r.decoderAddOriginal relseqNum packet = r.fail := by
  unfold decoderAddOriginal Decoder.addOriginal
  rw [if_pos hdisabled]

end ReliableIncoming

namespace ReliableLink

def nextExpected (s : ReliableLink α) : Nat :=
  s.windowStart + s.incoming.fecDecoder.window.nextExpectedElement

/-- Nothing is used more than half a column period late, a packet is not half a period ahead of the
window that is to hold it, and its number is in range. What is dropped before the decoder sees it
need not be so. -/
def Regular (s : ReliableLink α) : Event α → Prop
  | .receive d =>
    s.incoming.antiReplay.isDuplicate (wrap 64 d.nonce) = true ∨
      { s.incoming with antiReplay := s.incoming.antiReplay.accept (wrap 64 d.nonce)
        : ReliableIncoming α }.ignoresReordered d = true ∨
      InRange s.incoming.fecNextExpectedPacketNum d.packetNum d.sequenceBytes ∧
        s.windowStart ≤ d.packetNum + kColumnPeriod / 2 ∧
        s.nextExpected < d.packetNum + kColumnPeriod ∧
        d.packetNum < s.windowStart + kColumnPeriod / 2
  | .receiveRecovery nonce _ packetEnd _ _ =>
    s.incoming.antiReplay.isDuplicate (wrap 64 nonce) = true ∨
      s.windowStart ≤ packetEnd + kColumnPeriod / 2 ∧
        s.windowStart ≤ s.incoming.fecDecoder.lastEnd + kColumnPeriod / 2
  | .decode => s.windowStart ≤ s.incoming.fecDecoder.lastEnd + kColumnPeriod / 2
  | .acknowledge ack _ _ => s.acknowledged ≤ ack.2 + kColumnPeriod / 2
  | _ => True

/-- `k` is the unbounded value of FECNextExpectedPacketNum. -/
structure Inv (s : ReliableLink α) (k : Nat) : Prop where
  encoder : s.encoder.Following s.sent.length s.acknowledged
  decoder : s.incoming.fecDecoder.Placed s.windowStart s.sent.length
  kept : s.incoming.fecDecoder.Kept s.windowStart k
  next_eq : s.incoming.fecNextExpectedPacketNum = columnOf k
  next_le : k ≤ s.nextExpected
  caught_up : s.incoming.fecDecoder.hasRecoveredPackets = false → k = s.nextExpected
  idle : s.incoming.decoding = false → s.incoming.fecDecoder.hasRecoveredPackets = false
  contents : ∀ e packet, s.incoming.fecDecoder.window.getWindowElement e = some packet →
    s.sent[s.windowStart + e]? = some packet
  acknowledged_le : s.acknowledged ≤ k
  reliables : ∀ d, .reliable d ∈ s.datagrams → s.sent[d.packetNum]? = some d.packet ∧
    0 < d.sequenceBytes ∧ d.sequenceBytes ≤ 3
  recoveries : ∀ nonce m packetEnd single, .recovery nonce m packetEnd single ∈ s.datagrams →
    m.EndsAt packetEnd ∧ packetEnd ≤ s.sent.length ∧ packetEnd ≤ k + m.ldpcCount ∧
      single = s.sent[packetEnd - 1]?
  acks : ∀ a ∈ s.acks, a.2 ≤ k ∧
    ∃ headerBytes, deserializeHeaderPacketNum a.1 = some (columnOf a.2, headerBytes)
  handled_eq : s.incoming.handled = (s.sent.take k).flatMap orderedMessages

theorem inv_initial (encryptor : SimpleCipher) : (initial encryptor : ReliableLink α).Inv 0 where
  encoder := Encoder.following_initial
  decoder := Decoder.placed_initial
  kept := Decoder.kept_initial
  next_eq := rfl
  next_le := Nat.le_refl 0
  caught_up _ := rfl
  idle _ := rfl
  contents _ _ h := nomatch h
  acknowledged_le := Nat.le_refl 0
  reliables := by simp [initial]
  recoveries := by simp [initial]
  acks := by simp [initial]
  handled_eq := by simp [initial, ReliableIncoming.initial]

theorem Inv.nextExpected_le {s : ReliableLink α} {k : Nat} (h : s.Inv k) :
    s.nextExpected ≤ s.sent.length := by
  have hnext := h.decoder.sound.next_le
  have hcount := h.decoder.count_le
  unfold nextExpected
  omega

theorem Inv.sent_le {s : ReliableLink α} {k : Nat} (h : s.Inv k) :
    s.sent.length ≤ k + siameseMaxPackets := by
  have hadded := h.encoder.added_le
  have hle := h.acknowledged_le
  omega

theorem next_missing {w : DecoderPacketWindow (List (ReliableMessage α))} (h : w.Sound) :
    w.getWindowElement w.nextExpectedElement = none := by
  have hgot : w.isGot w.nextExpectedElement = false := by
    by_contra hgot
    have hgot' : w.isGot w.nextExpectedElement = true := by simpa using hgot
    rw [h.at_next (h.got_lt _ hgot')] at hgot'
    exact absurd hgot' (by decide)
  rw [h.got_eq] at hgot
  simpa using hgot

theorem Inv.moved {s : ReliableLink α} {k slid : Nat} (h : s.Inv k) (incoming : ReliableIncoming α)
    {filled : List (Nat × List (ReliableMessage α))}
    (hadvances : s.incoming.fecDecoder.Advances s.windowStart s.sent.length incoming.fecDecoder)
    (hmoves : s.incoming.fecDecoder.Moves incoming.fecDecoder s.windowStart k slid filled) :
    (s.withIncoming incoming).windowStart = s.windowStart + slid ∧
      incoming.fecDecoder.Placed (s.windowStart + slid) s.sent.length ∧
      s.nextExpected ≤ (s.withIncoming incoming).nextExpected := by
  obtain ⟨slid', hslid', hplaced, hnext⟩ := hadvances
  have hslid := hmoves.slid_lt
  have hcolumn : columnOf (s.windowStart + slid') = columnOf (s.windowStart + slid) := by
    rw [← hplaced.columnStart_eq, hmoves.columnStart_eq]
  have hsame : slid' = slid := by
    rcases Nat.le_total slid' slid with hle | hle
    · have := columnOf_inj hcolumn (by omega) (by omega)
      omega
    · have := columnOf_inj hcolumn.symm (by omega) (by omega)
      omega
  subst hsame
  have hstart : (s.withIncoming incoming).windowStart = s.windowStart + slid' := by
    have hsub : subtractColumns (columnOf (s.windowStart + slid')) (columnOf s.windowStart) =
        slid' := by
      rw [subtractColumns_columnOf (Nat.le_add_right _ _) (by omega)]
      omega
    simp only [ReliableLink.withIncoming]
    rw [hplaced.columnStart_eq, h.decoder.columnStart_eq, hsub]
  refine ⟨hstart, hplaced, ?_⟩
  unfold nextExpected
  rw [hstart]
  simp only [ReliableLink.withIncoming]
  omega

theorem Inv.moved_next {s : ReliableLink α} {k slid : Nat} (h : s.Inv k)
    (incoming : ReliableIncoming α) {filled : List (Nat × List (ReliableMessage α))}
    (hadvances : s.incoming.fecDecoder.Advances s.windowStart s.sent.length incoming.fecDecoder)
    (hmoves : s.incoming.fecDecoder.Moves incoming.fecDecoder s.windowStart k slid filled)
    (hfilled : ∀ p ∈ filled, p.1 ≠ s.incoming.fecDecoder.window.nextExpectedElement) :
    (s.withIncoming incoming).nextExpected = s.nextExpected := by
  obtain ⟨hstart, hplaced, hle⟩ := h.moved incoming hadvances hmoves
  have hstart_le := hmoves.kept.start_le
  have hk := h.next_le
  unfold nextExpected at hk hle ⊢
  rw [hstart] at hle ⊢
  have hmissing : incoming.fecDecoder.window.getWindowElement
      (s.incoming.fecDecoder.window.nextExpectedElement - slid) = none := by
    cases hget : incoming.fecDecoder.window.getWindowElement
      (s.incoming.fecDecoder.window.nextExpectedElement - slid) with
    | none => rfl
    | some packet =>
      have hold := (hmoves.contents _ _).mp hget
      rw [Nat.add_sub_cancel' (by omega), next_missing h.decoder.sound] at hold
      rcases hold with hold | hold
      · cases hold
      · exact absurd rfl (hfilled _ hold)
  have hlost : incoming.fecDecoder.window.isGot
      (s.incoming.fecDecoder.window.nextExpectedElement - slid) = false := by
    rw [hplaced.sound.got_eq, hmissing]
    rfl
  have hge := hplaced.sound.missing_ge hlost
  simp only [ReliableLink.withIncoming] at hle ⊢
  omega

theorem Inv.moved_contents {s : ReliableLink α} {k slid : Nat} (h : s.Inv k)
    {d : Decoder (List (ReliableMessage α)) Nat} {filled : List (Nat × List (ReliableMessage α))}
    (hmoves : s.incoming.fecDecoder.Moves d s.windowStart k slid filled)
    (hfilled : ∀ p ∈ filled, s.sent[s.windowStart + p.1]? = some p.2) :
    ∀ e packet, d.window.getWindowElement e = some packet →
      s.sent[s.windowStart + slid + e]? = some packet := by
  intro e packet hget
  rw [Nat.add_assoc]
  rcases (hmoves.contents e packet).mp hget with hold | hnew
  · exact h.contents _ _ hold
  · exact hfilled _ hnew

theorem getElem?_extended {l l' : List (List (ReliableMessage α))} (h : l <+: l') {n : Nat}
    (hn : n < l.length) : l'[n]? = l[n]? := by
  obtain ⟨t, rfl⟩ := h
  exact List.getElem?_append_left hn

theorem getElem?_some_extended {l l' : List (List (ReliableMessage α))} (h : l <+: l') {n : Nat}
    {packet : List (ReliableMessage α)} (hn : l[n]? = some packet) : l'[n]? = some packet := by
  rw [getElem?_extended h (List.getElem?_eq_some_iff.mp hn).1, hn]

theorem Inv.sends {s s' : ReliableLink α} {k : Nat} (h : s.Inv k)
    (hincoming : s'.incoming = s.incoming) (hwindow : s'.windowStart = s.windowStart)
    (hacks : s'.acks = s.acks) (hacknowledged : s'.acknowledged = s.acknowledged)
    (hsent : s.sent <+: s'.sent)
    (hencoder : s'.encoder.Following s'.sent.length s'.acknowledged)
    (hreliables : ∀ d, .reliable d ∈ s'.datagrams → .reliable d ∈ s.datagrams ∨
      s'.sent[d.packetNum]? = some d.packet ∧ 0 < d.sequenceBytes ∧ d.sequenceBytes ≤ 3)
    (hrecoveries : ∀ nonce m packetEnd single, .recovery nonce m packetEnd single ∈ s'.datagrams →
      .recovery nonce m packetEnd single ∈ s.datagrams ∨ m.EndsAt packetEnd ∧
        packetEnd ≤ s'.sent.length ∧ packetEnd ≤ k + m.ldpcCount ∧
        single = s'.sent[packetEnd - 1]?) : s'.Inv k := by
  have hlength := hsent.length_le
  have hadded := h.nextExpected_le
  have hk := h.next_le
  have hnext : s'.nextExpected = s.nextExpected := by
    unfold nextExpected
    rw [hincoming, hwindow]
  refine ⟨hencoder, ?_, ?_, ?_, ?_, ?_, ?_, ?_, ?_, fun d hd => ?_, fun nonce m packetEnd single hr => ?_,
    ?_, ?_⟩
  · rw [hincoming, hwindow]
    exact ⟨h.decoder.sound, h.decoder.columnStart_eq, h.decoder.count_le.trans hlength,
      h.decoder.empty, h.decoder.stored, h.decoder.last⟩
  · rw [hincoming, hwindow]
    exact h.kept
  · rw [hincoming]
    exact h.next_eq
  · rw [hnext]
    exact h.next_le
  · rw [hincoming, hnext]
    exact h.caught_up
  · rw [hincoming]
    exact h.idle
  · rw [hincoming, hwindow]
    exact fun e packet hget => getElem?_some_extended hsent (h.contents e packet hget)
  · rw [hacknowledged]
    exact h.acknowledged_le
  · rcases hreliables d hd with hold | hnew
    · obtain ⟨hpacket, hbytes⟩ := h.reliables d hold
      exact ⟨getElem?_some_extended hsent hpacket, hbytes⟩
    · exact hnew
  · rcases hrecoveries nonce m packetEnd single hr with hold | hnew
    · obtain ⟨hends, hle, hneeded, hsingle⟩ := h.recoveries nonce m packetEnd single hold
      have hldpc := hends.ldpc_pos
      have hsum := hends.ldpc_le
      have hend := hends.sum_le
      refine ⟨hends, hle.trans hlength, hneeded, ?_⟩
      rw [hsingle, getElem?_extended hsent (by omega)]
    · exact hnew
  · rw [hacks]
    exact h.acks
  · obtain ⟨t, ht⟩ := hsent
    rw [hincoming, h.handled_eq, ← ht, List.take_append_of_le_length (by omega)]

theorem Inv.send {s : ReliableLink α} {k : Nat} (h : s.Inv k) (packet : List (ReliableMessage α))
    {nowMsec : Nat} (hok : (s.encoder.add nowMsec).2 = .success) :
    (s.sendQueuedReliable nowMsec packet).Inv k := by
  refine h.sends rfl rfl rfl rfl (List.prefix_append _ _) ?_ (fun d hd => ?_)
    (fun nonce m packetEnd single hr => ?_)
  · change (s.encoder.add nowMsec).1.Following (s.sent ++ [packet]).length s.acknowledged
    rw [List.length_append]
    exact h.encoder.add nowMsec hok
  · rcases List.mem_cons.mp hd with heq | hold
    · cases heq
      exact .inr ⟨by simp [sendQueuedReliable], getPacketNumBytes_mem _ _⟩
    · exact .inl hold
  · rcases List.mem_cons.mp hr with heq | hold
    · cases heq
    · exact .inl hold

theorem Inv.retransmit {s : ReliableLink α} {k packetNum : Nat} (h : s.Inv k)
    {packet : List (ReliableMessage α)} (hpacket : s.sent[packetNum]? = some packet)
    (lastSendMsec : Nat → Nat) {ack : EncoderAcknowledgementState}
    (hack : ack.nextColumnExpected = s.encoder.ack.nextColumnExpected) :
    { s.sendPacket packetNum packet with
      encoder := { s.encoder with
        window := { s.encoder.window with lastSendMsec := lastSendMsec }
        ack := ack } }.Inv k := by
  refine h.sends rfl rfl rfl rfl (List.prefix_refl _) ?_ (fun d hd => ?_)
    (fun nonce m packetEnd single hr => ?_)
  · refine ⟨hack.trans h.encoder.ack_eq, ?_⟩
    rcases h.encoder.window with hempty | ⟨base, hold, hle⟩
    · exact .inl hempty
    · exact .inr ⟨base, ⟨hold.nextColumn_eq, hold.columnStart_eq, hold.count_eq, hold.first_lt,
        hold.count_le, hold.sums⟩, hle⟩
  · rcases List.mem_cons.mp hd with heq | hold
    · cases heq
      exact .inr ⟨hpacket, getPacketNumBytes_mem _ _⟩
    · exact .inl hold
  · rcases List.mem_cons.mp hr with heq | hold
    · cases heq
    · exact .inl hold

theorem Inv.sendRecovery {s : ReliableLink α} {k : Nat} (h : s.Inv k) {encoder : Encoder}
    {metadata : RecoveryMetadata} (hmade : s.encoder.encode = (encoder, some metadata)) :
    { s with
      outgoing := { s.outgoing with nextNonce := s.outgoing.nextNonce + 1 }
      encoder := encoder
      datagrams := .recovery s.outgoing.nextNonce metadata s.sent.length s.sent.getLast? ::
        s.datagrams }.Inv k := by
  obtain ⟨hfollowing, hends, hneeded⟩ := h.encoder.encode hmade
  have hack := h.acknowledged_le
  refine h.sends rfl rfl rfl rfl (List.prefix_refl _) hfollowing (fun d hd => ?_)
    (fun nonce m packetEnd single hr => ?_)
  · rcases List.mem_cons.mp hd with heq | hold
    · cases heq
    · exact .inl hold
  · rcases List.mem_cons.mp hr with heq | hold
    · cases heq
      exact .inr ⟨hends, Nat.le_refl _, by omega, List.getLast?_eq_getElem?⟩
    · exact .inl hold

theorem Inv.sendUnreliable {s : ReliableLink α} {k : Nat} (h : s.Inv k) :
    { s with
      outgoing := { s.outgoing with nextNonce := s.outgoing.nextNonce + 1 }
      datagrams := .unreliable s.outgoing.nextNonce :: s.datagrams }.Inv k := by
  refine h.sends rfl rfl rfl rfl (List.prefix_refl _) h.encoder (fun d hd => ?_)
    (fun nonce m packetEnd single hr => ?_)
  · rcases List.mem_cons.mp hd with heq | hold
    · cases heq
    · exact .inl hold
  · rcases List.mem_cons.mp hr with heq | hold
    · cases heq
    · exact .inl hold

theorem Inv.postAcknowledgements {s : ReliableLink α} {k byteLimit : Nat} (h : s.Inv k)
    {message : Bytes} (hidle : s.Idle) (hlimit : byteLimit < 2 ^ 32)
    (hmessage : s.incoming.fecDecoder.window.generateAcknowledgement byteLimit = some message) :
    { s with acks := (message,
      s.windowStart + s.incoming.fecDecoder.window.nextExpectedElement) :: s.acks }.Inv k := by
  have hk := h.caught_up (h.idle hidle.2)
  refine ⟨h.encoder, h.decoder, h.kept, h.next_eq, h.next_le, h.caught_up, h.idle, h.contents,
    h.acknowledged_le, h.reliables, h.recoveries, fun a ha => ?_, h.handled_eq⟩
  rcases List.mem_cons.mp ha with rfl | ha
  · obtain ⟨rs, hmsg, -⟩ := h.decoder.sound.generateAcknowledgement_spec hlimit hmessage
    have hcolumn : s.incoming.fecDecoder.window.elementToColumn
        s.incoming.fecDecoder.window.nextExpectedElement = columnOf s.nextExpected := by
      rw [DecoderPacketWindow.elementToColumn, h.decoder.columnStart_eq, addColumns_columnOf_right]
      rfl
    refine ⟨Nat.le_of_eq hk.symm, (serializeHeaderPacketNum (columnOf s.nextExpected)).length, ?_⟩
    simp only
    rw [hmsg, hcolumn]
    exact deserializeHeaderPacketNum_serialize (columnOf_lt _) _
  · exact h.acks a ha

theorem Inv.acknowledge {s : ReliableLink α} {k : Nat} (h : s.Inv k) {ack : Bytes × Nat}
    (hsent : ack ∈ s.acks) (htimely : s.acknowledged ≤ ack.2 + kColumnPeriod / 2)
    (nowMsec peerNextExpectedNonce : Nat) :
    (s.acknowledge nowMsec ack peerNextExpectedNonce).Inv k := by
  obtain ⟨hle, headerBytes, hread⟩ := h.acks ack hsent
  have hadded := h.nextExpected_le
  have hk := h.next_le
  obtain ⟨hfollowing, -⟩ := h.encoder.acknowledge (by omega) htimely nowMsec hread
  refine ⟨hfollowing, h.decoder, h.kept, h.next_eq, h.next_le, h.caught_up, h.idle, h.contents, ?_,
    h.reliables, h.recoveries, h.acks, h.handled_eq⟩
  simp only [ReliableLink.acknowledge]
  split
  · exact h.acknowledged_le
  · exact hle

theorem Inv.sameDecoder {s : ReliableLink α} {k : Nat} (h : s.Inv k) {incoming : ReliableIncoming α}
    (hdecoder : incoming.fecDecoder = s.incoming.fecDecoder)
    (hnext : incoming.fecNextExpectedPacketNum = s.incoming.fecNextExpectedPacketNum)
    (hdecoding : incoming.decoding = s.incoming.decoding)
    (hhandled : incoming.handled = s.incoming.handled) : (s.withIncoming incoming).Inv k := by
  have hstart : (s.withIncoming incoming).windowStart = s.windowStart := by
    simp only [withIncoming, hdecoder]
    rw [h.decoder.columnStart_eq, subtractColumns_columnOf (Nat.le_refl _) (by simp [kColumnPeriod])]
    omega
  have hexpected : (s.withIncoming incoming).nextExpected = s.nextExpected := by
    unfold nextExpected
    rw [hstart]
    simp only [withIncoming, hdecoder]
  refine ⟨h.encoder, ?_, ?_, hnext.trans h.next_eq, hexpected ▸ h.next_le, ?_, ?_, ?_,
    h.acknowledged_le, h.reliables, h.recoveries, h.acks, hhandled.trans h.handled_eq⟩
  · rw [hstart]
    simp only [withIncoming, hdecoder]
    exact h.decoder
  · rw [hstart]
    simp only [withIncoming, hdecoder]
    exact h.kept
  · rw [hexpected]
    simp only [withIncoming, hdecoder]
    exact h.caught_up
  · simp only [withIncoming, hdecoder, hdecoding]
    exact h.idle
  · rw [hstart]
    simp only [withIncoming, hdecoder]
    exact h.contents

/-- A step of the decoder after which the receiver has caught up with it, or has not been told of
the packets that were filled in. -/
theorem Inv.stepDecoder {s : ReliableLink α} {k k' slid : Nat} (h : s.Inv k)
    {incoming : ReliableIncoming α} {filled : List (Nat × List (ReliableMessage α))}
    (hadvances : s.incoming.fecDecoder.Advances s.windowStart s.sent.length incoming.fecDecoder)
    (hmoves : s.incoming.fecDecoder.Moves incoming.fecDecoder s.windowStart k slid filled)
    (hfilled : ∀ p ∈ filled, s.sent[s.windowStart + p.1]? = some p.2)
    (hle : k ≤ k') (hnext : incoming.fecNextExpectedPacketNum = columnOf k')
    (hk : k' ≤ (s.withIncoming incoming).nextExpected)
    (hcaught : incoming.fecDecoder.hasRecoveredPackets = false →
      k' = (s.withIncoming incoming).nextExpected)
    (hidle : incoming.decoding = false → incoming.fecDecoder.hasRecoveredPackets = false)
    (hhandled : incoming.handled = (s.sent.take k').flatMap orderedMessages) :
    (s.withIncoming incoming).Inv k' := by
  obtain ⟨hstart, hplaced, -⟩ := h.moved incoming hadvances hmoves
  refine ⟨h.encoder, hstart ▸ hplaced, hstart ▸ hmoves.kept.mono hle, hnext, hk, hcaught, hidle,
    hstart ▸ h.moved_contents hmoves hfilled, h.acknowledged_le.trans hle, h.reliables,
    fun nonce m packetEnd single hr => ?_, fun a ha => ?_, hhandled⟩
  · obtain ⟨hends, hadded, hneeded, hsingle⟩ := h.recoveries nonce m packetEnd single hr
    exact ⟨hends, hadded, by omega, hsingle⟩
  · obtain ⟨hack, hread⟩ := h.acks a ha
    exact ⟨hack.trans hle, hread⟩

theorem addOriginal_enabled (d : Decoder (List (ReliableMessage α)) Nat) (column : Nat)
    (packet : List (ReliableMessage α)) :
    (d.addOriginal column packet).1.emergencyDisabled = d.emergencyDisabled := by
  unfold Decoder.addOriginal
  split
  · rfl
  · simp only
    split <;> rfl

theorem Inv.element_of_original {s : ReliableLink α} {k n : Nat} (h : s.Inv k)
    (hlate : s.windowStart ≤ n + kColumnPeriod / 2) (hearly : n < s.windowStart + kColumnPeriod / 2)
    (hpos : isColumnDeltaNegative
      (s.incoming.fecDecoder.window.columnToElement (columnOf n)) = false) :
    s.windowStart ≤ n ∧
      s.incoming.fecDecoder.window.columnToElement (columnOf n) = n - s.windowStart := by
  have hge : s.windowStart ≤ n := by
    by_contra hlt
    rw [h.decoder.columnToElement_of_lt (by omega) hlate] at hpos
    exact absurd hpos (by decide)
  refine ⟨hge, h.decoder.columnToElement_of_ge hge ?_⟩
  simp only [kColumnPeriod] at hearly ⊢
  omega

theorem Inv.next_fresh {s : ReliableLink α} {k : Nat} (h : s.Inv k) (hk : k = s.nextExpected)
    (hearly : k < s.windowStart + kColumnPeriod / 2) :
    isColumnDeltaNegative (s.incoming.fecDecoder.window.columnToElement (columnOf k)) = false ∧
      s.incoming.fecDecoder.window.getWindowElement
        (s.incoming.fecDecoder.window.columnToElement (columnOf k)) = none := by
  unfold nextExpected at hk
  have helement : s.incoming.fecDecoder.window.columnToElement (columnOf k) =
      s.incoming.fecDecoder.window.nextExpectedElement := by
    rw [h.decoder.columnToElement_of_ge (by omega) (by simp only [kColumnPeriod] at hearly ⊢; omega)]
    omega
  rw [helement]
  refine ⟨?_, next_missing h.decoder.sound⟩
  rw [isColumnDeltaNegative_eq_false_iff]
  omega

theorem Inv.original_passes {s : ReliableLink α} {k n : Nat} (h : s.Inv k) (hk : k = s.nextExpected)
    (incoming : ReliableIncoming α) {packet : List (ReliableMessage α)}
    (hadvances : s.incoming.fecDecoder.Advances s.windowStart s.sent.length incoming.fecDecoder)
    (hmoves : s.incoming.fecDecoder.Moves incoming.fecDecoder s.windowStart k 0
      [(n - s.windowStart, packet)]) (hin : n = k) :
    k + 1 ≤ (s.withIncoming incoming).nextExpected := by
  obtain ⟨hstart, hplaced, hle⟩ := h.moved incoming hadvances hmoves
  unfold nextExpected at hk hle ⊢
  rw [hstart, Nat.add_zero] at hle ⊢
  have hthere : incoming.fecDecoder.window.getWindowElement (n - s.windowStart) = some packet := by
    rw [hmoves.contents, Nat.zero_add]
    exact .inr List.mem_cons_self
  by_contra hlt
  simp only [withIncoming] at hle hlt
  have hnextEl : n - s.windowStart = incoming.fecDecoder.window.nextExpectedElement := by omega
  rw [hnextEl, next_missing hplaced.sound] at hthere
  cases hthere

theorem Inv.decoderAddOriginal {s : ReliableLink α} {k n : Nat} (h : s.Inv k)
    (hk : k = s.nextExpected) (hhas : s.incoming.fecDecoder.hasRecoveredPackets = false)
    {r : ReliableIncoming α} {packet : List (ReliableMessage α)}
    (hdecoder : r.fecDecoder = s.incoming.fecDecoder) (hnextEq : r.fecNextExpectedPacketNum = columnOf k)
    (hshutdown : r.isShutdown = false)
    (hhandled : r.handled = (s.sent.take (if n = k then k + 1 else k)).flatMap orderedMessages)
    (hpacket : s.sent[n]? = some packet) (hlate : s.windowStart ≤ n + kColumnPeriod / 2)
    (hperiod : s.nextExpected < n + kColumnPeriod)
    (hearly : n < s.windowStart + kColumnPeriod / 2)
    (henabled : s.incoming.fecDecoder.emergencyDisabled = false) :
    (r.decoderAddOriginal (columnOf n) packet).isShutdown = false ∧
      ∃ k', (s.withIncoming (r.decoderAddOriginal (columnOf n) packet)).Inv k' := by
  have hn : n < s.sent.length := (List.getElem?_eq_some_iff.mp hpacket).1
  have hnear : s.sent.length < s.windowStart + kColumnPeriod := by
    have hsent := h.sent_le
    have hcount := h.decoder.sound.count_le
    have hnext := h.decoder.sound.next_le
    unfold nextExpected at hk
    simp only [siameseMaxPackets, kColumnPeriod] at hsent hcount ⊢
    omega
  have hsame : columnOf n = columnOf k ↔ n = k := by
    refine ⟨fun hcolumn => ?_, fun heq => heq ▸ rfl⟩
    rcases Nat.le_total n k with hle | hle
    · exact columnOf_inj hcolumn hle (by omega)
    · unfold nextExpected at hk
      refine (columnOf_inj hcolumn.symm hle ?_).symm
      simp only [kColumnPeriod] at hearly ⊢
      omega
  have hadvances := h.decoder.addOriginal hn hlate hnear packet
  have hstill := addOriginal_enabled s.incoming.fecDecoder (columnOf n) packet
  obtain ⟨filled, hmoves, -, hhas', hresult⟩ := h.decoder.addOriginal_moves h.kept henabled
    (columnOf n) packet
  cases hadd : s.incoming.fecDecoder.addOriginal (columnOf n) packet with
  | mk d result =>
  rw [hadd] at hadvances hmoves hhas' hresult hstill
  rw [← hdecoder] at hadd
  rcases hresult with ⟨rfl, rfl, hdup⟩ | ⟨rfl, rfl, hpos⟩
  · rw [ReliableIncoming.decoderAddOriginal_duplicate hadd]
    have hne : n ≠ k := by
      rintro rfl
      obtain ⟨hpos, hmissing⟩ := h.next_fresh hk hearly
      rcases hdup with hneg | hhave
      · rw [hpos] at hneg
        cases hneg
      · rw [hmissing] at hhave
        cases hhave
    have hsameNext := h.moved_next { r with fecDecoder := d } hadvances hmoves (by simp)
    refine ⟨hshutdown, k, h.stepDecoder hadvances hmoves (by simp) (Nat.le_refl k) hnextEq
      (hsameNext ▸ h.next_le) (fun _ => hsameNext ▸ hk) (fun _ => hhas'.trans hhas) ?_⟩
    rw [if_neg hne] at hhandled
    exact hhandled
  · obtain ⟨hge, helement⟩ := h.element_of_original hlate hearly hpos
    rw [helement] at hmoves
    have hfilled : ∀ p ∈ [(n - s.windowStart, packet)], s.sent[s.windowStart + p.1]? = some p.2 := by
      intro p hp
      rw [List.mem_singleton.mp hp, Nat.add_sub_cancel' hge]
      exact hpacket
    by_cases hin : n = k
    · rw [ReliableIncoming.decoderAddOriginal_next hadd (by rw [hnextEq]; exact hsame.mpr hin), hnextEq,
        incrementColumn1_columnOf]
      have hpassed := h.original_passes hk { r with fecDecoder := d } hadvances hmoves hin
      obtain ⟨hstart, hplaced, -⟩ := h.moved { r with fecDecoder := d } hadvances hmoves
      unfold nextExpected at hk hpassed
      rw [hstart] at hpassed
      rw [ReliableIncoming.resumeProcessing_eq { r with
          fecDecoder := d
          decoding := true
          fecNextExpectedPacketNum := columnOf (k + 1) } (k + 1) hplaced (hstill.trans henabled)
        (h.moved_contents hmoves hfilled) rfl (by omega) hpassed (by rw [hhandled, if_pos hin])]
      refine ⟨hshutdown, _, h.stepDecoder hadvances hmoves hfilled ?_ rfl ?_ (fun _ => ?_)
        (fun hfalse => absurd hfalse (by simp)) rfl⟩
      · exact Nat.le_of_succ_le hpassed
      · unfold nextExpected
        exact Nat.le_of_eq (congrArg (· + d.window.nextExpectedElement) hstart.symm)
      · unfold nextExpected
        exact congrArg (· + d.window.nextExpectedElement) hstart.symm
    · rw [ReliableIncoming.decoderAddOriginal_later hadd
        (by rw [hnextEq]; exact fun hcolumn => hin (hsame.mp hcolumn))]
      have hsameNext := h.moved_next { r with fecDecoder := d, decoding := true } hadvances hmoves (by
        intro p hp
        rw [List.mem_singleton.mp hp]
        unfold nextExpected at hk
        simp only
        omega)
      refine ⟨hshutdown, k, h.stepDecoder hadvances hmoves hfilled (Nat.le_refl k) hnextEq
        (hsameNext ▸ h.next_le) (fun _ => hsameNext ▸ hk) (fun hfalse => absurd hfalse (by simp)) ?_⟩
      rw [if_neg hin] at hhandled
      exact hhandled

theorem take_flatMap_initial (sent : List (List (ReliableMessage α))) (k : Nat) :
    (sent.take k).flatMap orderedMessages <+: sent.flatMap orderedMessages := by
  refine ⟨(sent.drop k).flatMap orderedMessages, ?_⟩
  rw [← List.flatMap_append, List.take_append_drop]

theorem take_flatMap_succ {sent : List (List (ReliableMessage α))} {k : Nat}
    {packet : List (ReliableMessage α)} (h : sent[k]? = some packet) :
    (sent.take (k + 1)).flatMap orderedMessages =
      (sent.take k).flatMap orderedMessages ++ orderedMessages packet := by
  rw [List.take_add_one, h]
  simp

/-- A receiver that is shut down has handled no more than was sent. -/
def Ended (s : ReliableLink α) (incoming : ReliableIncoming α) : Prop :=
  incoming.isShutdown = true ∧ incoming.decoding = false ∧
    incoming.handled <+: s.sent.flatMap orderedMessages

theorem Inv.handled_part {s : ReliableLink α} {k n : Nat} (h : s.Inv k)
    {packet : List (ReliableMessage α)} (hpacket : s.sent[n]? = some packet)
    {inSequence : Bool} (hin : inSequence = true → n = k) {part : List α}
    (hpart : part <+: orderedMessages packet) :
    s.incoming.handled ++ (if inSequence then part else []) <+: s.sent.flatMap orderedMessages := by
  rw [h.handled_eq]
  cases inSequence with
  | false =>
    simp only [Bool.false_eq_true, if_false, List.append_nil]
    exact take_flatMap_initial s.sent k
  | true =>
    rw [hin rfl] at hpacket
    have hinitial := take_flatMap_initial s.sent (k + 1)
    rw [take_flatMap_succ hpacket] at hinitial
    simp only [if_true]
    exact (List.prefix_append_right_inj _ |>.mpr hpart).trans hinitial

theorem Inv.processReliable {s : ReliableLink α} {k n : Nat} (h : s.Inv k)
    (hk : k = s.nextExpected) (hhas : s.incoming.fecDecoder.hasRecoveredPackets = false)
    {r : ReliableIncoming α} {packet : List (ReliableMessage α)}
    (hdecoder : r.fecDecoder = s.incoming.fecDecoder) (hnextEq : r.fecNextExpectedPacketNum = columnOf k)
    (hshutdown : r.isShutdown = false) (hhandled : r.handled = s.incoming.handled)
    (hpacket : s.sent[n]? = some packet) (hlate : s.windowStart ≤ n + kColumnPeriod / 2)
    (hperiod : s.nextExpected < n + kColumnPeriod)
    (hearly : n < s.windowStart + kColumnPeriod / 2) :
    s.incoming.fecDecoder.emergencyDisabled = true ∧
        s.Ended (r.processReliable (columnOf n) packet) ∨
      (r.processReliable (columnOf n) packet).isShutdown = false ∧
        ∃ k', (s.withIncoming (r.processReliable (columnOf n) packet)).Inv k' := by
  have hsame : columnOf k = columnOf n ↔ n = k := by
    refine ⟨fun hcolumn => ?_, fun heq => heq ▸ rfl⟩
    rcases Nat.le_total n k with hle | hle
    · exact columnOf_inj hcolumn.symm hle (by omega)
    · unfold nextExpected at hk
      refine (columnOf_inj hcolumn hle ?_).symm
      simp only [kColumnPeriod] at hearly ⊢
      omega
  have hin : decide (r.fecNextExpectedPacketNum = columnOf n) = true → n = k := by
    rw [hnextEq, decide_eq_true_eq]
    exact hsame.mp
  have hdone := ReliableIncoming.processMessages_processed (columnOf n)
    (decide (r.fecNextExpectedPacketNum = columnOf n)) none packet r
  unfold ReliableIncoming.processReliable
  simp only
  generalize r.processMessages (columnOf n) (decide (r.fecNextExpectedPacketNum = columnOf n)) none
    packet = r₁ at hdone ⊢
  obtain ⟨part, hpart, hhandled₁, hall⟩ := hdone.handled
  have hinitial := h.handled_part hpacket hin hpart
  rw [← hhandled, ← hhandled₁] at hinitial
  rcases hdone.ended with ⟨hsame₁, -⟩ | ⟨hdisabled, hended, hstopped⟩
  · rw [if_neg (by rw [hsame₁, hshutdown]; decide)]
    cases henabled : s.incoming.fecDecoder.emergencyDisabled with
    | true =>
      rw [ReliableIncoming.decoderAddOriginal_disabled (by rw [hdone.same.fecDecoder, hdecoder, henabled])]
      exact .inl ⟨rfl, rfl, rfl, hinitial⟩
    | false =>
      refine .inr (h.decoderAddOriginal hk hhas (hdone.same.fecDecoder.trans hdecoder)
        (hdone.next_eq.trans hnextEq) (hsame₁.trans hshutdown) ?_ hpacket hlate hperiod hearly henabled)
      rw [hhandled₁, hhandled, hall hsame₁ hshutdown, hnextEq, h.handled_eq]
      by_cases heq : n = k
      · rw [heq] at hpacket
        rw [if_pos heq, take_flatMap_succ hpacket]
        simp [hsame.mpr heq]
      · rw [if_neg heq]
        simp [mt hsame.mp heq]
  · rw [if_pos hended]
    exact .inl ⟨hdecoder ▸ hdisabled, hended, hstopped, hinitial⟩

theorem Inv.receive {s : ReliableLink α} {k : Nat} (h : s.Inv k) (hidle : s.Idle)
    {d : ReliableDatagram α} (hsent : .reliable d ∈ s.datagrams) (hregular : s.Regular (.receive d)) :
    s.Ended (s.incoming.processDatagram d) ∨
      (s.incoming.processDatagram d).isShutdown = false ∧
        ∃ k', (s.withIncoming (s.incoming.processDatagram d)).Inv k' := by
  have hhas := h.idle hidle.2
  have hk := h.caught_up hhas
  obtain ⟨hpacket, hpos, hle⟩ := h.reliables d hsent
  have hlt : s.incoming.fecNextExpectedPacketNum < kColumnPeriod := by
    rw [h.next_eq]
    exact columnOf_lt k
  unfold ReliableIncoming.processDatagram ReliableIncoming.accepting
  simp only
  split
  · exact .inr ⟨hidle.1, k, h.sameDecoder rfl rfl rfl rfl⟩
  · next hfresh =>
    split
    · exact .inr ⟨hidle.1, k, h.sameDecoder rfl rfl rfl rfl⟩
    · next hordered =>
      rcases hregular with hdup | hignored | ⟨hrange, hlate, hperiod, hearly⟩
      · exact absurd hdup hfresh
      · exact absurd hignored hordered
      · have hread := (expandSequence_eq_iff hpos hle hlt).mpr hrange
        rw [ReliableDatagram.partialSeq, hread]
        rcases h.processReliable (r := { s.incoming with
            antiReplay := s.incoming.antiReplay.accept (wrap 64 d.nonce)
            taken := s.incoming.taken ++ [(columnOf d.packetNum, columnOf d.packetNum)] }) hk hhas rfl
          h.next_eq hidle.1 rfl hpacket hlate hperiod hearly with ⟨-, hended⟩ | hkeeps
        · exact .inl hended
        · exact .inr hkeeps

theorem Inv.ended {s : ReliableLink α} {k : Nat} (h : s.Inv k) {incoming : ReliableIncoming α}
    (hhandled : incoming.handled = s.incoming.handled) : s.Ended incoming.fail := by
  refine ⟨rfl, rfl, ?_⟩
  change incoming.handled <+: _
  rw [hhandled, h.handled_eq]
  exact take_flatMap_initial s.sent k

theorem Inv.addRecovery {s : ReliableLink α} {k nonce packetEnd : Nat} (h : s.Inv k)
    (hidle : s.Idle) {metadata : RecoveryMetadata} {single : Option (List (ReliableMessage α))}
    (hsent : .recovery nonce metadata packetEnd single ∈ s.datagrams)
    (htimely : s.windowStart ≤ packetEnd + kColumnPeriod / 2)
    (hlast : s.windowStart ≤ s.incoming.fecDecoder.lastEnd + kColumnPeriod / 2)
    (checkedPastThreshold : Bool) :
    ∃ slid filled, s.incoming.fecDecoder.Advances s.windowStart s.sent.length
        (s.incoming.fecDecoder.addRecovery metadata packetEnd single checkedPastThreshold) ∧
      s.incoming.fecDecoder.Moves
        (s.incoming.fecDecoder.addRecovery metadata packetEnd single checkedPastThreshold)
        s.windowStart k slid filled ∧
      s.incoming.fecDecoder.Reports
        (s.incoming.fecDecoder.addRecovery metadata packetEnd single checkedPastThreshold)
        s.windowStart filled ∧
      ∀ p ∈ filled, s.sent[s.windowStart + p.1]? = some p.2 := by
  have hk := h.caught_up (h.idle hidle.2)
  obtain ⟨hends, hadded, hneeded, hsingle⟩ := h.recoveries nonce metadata packetEnd single hsent
  have hnear := h.sent_le
  rw [hk] at hnear
  have hreach : packetEnd ≤ s.windowStart + s.incoming.fecDecoder.window.nextExpectedElement +
      metadata.ldpcCount := by
    unfold nextExpected at hk
    omega
  obtain ⟨slid, filled, hmoves, hreports, hfilled⟩ := h.decoder.addRecovery_moves h.kept hends
    hadded hreach hneeded hnear htimely hlast single checkedPastThreshold
  refine ⟨slid, filled, h.decoder.addRecovery hends hadded hreach hnear htimely hlast single
    checkedPastThreshold, hmoves, hreports, fun p hp => ?_⟩
  obtain ⟨-, hplace, hdata⟩ := hfilled p hp
  rw [← hdata, hsingle, ← hplace, Nat.add_sub_cancel]

theorem Inv.receiveRecovery {s : ReliableLink α} {k nonce packetEnd : Nat} (h : s.Inv k)
    (hidle : s.Idle) {metadata : RecoveryMetadata} {single : Option (List (ReliableMessage α))}
    (hsent : .recovery nonce metadata packetEnd single ∈ s.datagrams)
    {checkedPastThreshold reported : Bool}
    (hregular : s.Regular (.receiveRecovery nonce metadata packetEnd checkedPastThreshold reported)) :
    s.Ended (s.incoming.onRecovery nonce metadata packetEnd single checkedPastThreshold reported) ∨
      (s.incoming.onRecovery nonce metadata packetEnd single checkedPastThreshold
        reported).isShutdown = false ∧
        ∃ k', (s.withIncoming (s.incoming.onRecovery nonce metadata packetEnd single
          checkedPastThreshold reported)).Inv k' := by
  have hk := h.caught_up (h.idle hidle.2)
  unfold ReliableIncoming.onRecovery ReliableIncoming.accepting
  simp only
  split
  · exact .inr ⟨hidle.1, k, h.sameDecoder rfl rfl rfl rfl⟩
  · next hfresh =>
    split
    · exact .inl (h.ended rfl)
    · rcases hregular with hdup | ⟨htimely, hlast⟩
      · exact absurd hdup hfresh
      obtain ⟨slid, filled, hadvances, hmoves, hreports, hgenuine⟩ :=
        h.addRecovery hidle hsent htimely hlast checkedPastThreshold
      refine .inr ⟨hidle.1, k, h.stepDecoder hadvances hmoves hgenuine (Nat.le_refl k) h.next_eq ?_ ?_
        (fun hfalse => absurd hfalse (by simp)) h.handled_eq⟩
      · exact h.next_le.trans (h.moved _ hadvances hmoves).2.2
      · intro hnone
        rcases hreports with ⟨rfl, -⟩ | ⟨-, hsome, -⟩
        · rw [h.moved_next _ hadvances hmoves (by simp)]
          exact hk
        · rw [hsome] at hnone
          cases hnone

theorem Inv.decode_genuine {s : ReliableLink α} {k : Nat} (h : s.Inv k)
    {recovered filled : List (Nat × List (ReliableMessage α))} (hgenuine : s.Genuine recovered)
    (hrecovered : filled = [] ∨
      recovered = filled.map fun p => (columnOf (s.windowStart + p.1), p.2))
    (hwithin : ∀ p ∈ filled, s.windowStart + p.1 < s.sent.length) :
    ∀ p ∈ filled, s.sent[s.windowStart + p.1]? = some p.2 := by
  intro p hp
  rcases hrecovered with rfl | rfl
  · cases hp
  · have hlt := hwithin p hp
    have hsent := h.sent_le
    have hle := h.next_le
    have hcount := h.decoder.sound.count_le
    have hnext := h.decoder.sound.next_le
    refine hgenuine _ (List.mem_map_of_mem hp) _ (Nat.le_add_right _ _) ?_ rfl
    unfold nextExpected at hle
    simp only [siameseMaxPackets, kColumnPeriod] at hsent hcount ⊢
    omega

theorem Inv.decode {s : ReliableLink α} {k : Nat} (h : s.Inv k)
    (hopen : s.incoming.isShutdown = false) (hdecoding : s.incoming.decoding = true)
    {recovered : List (Nat × List (ReliableMessage α))}
    {decoder : Decoder (List (ReliableMessage α)) Nat}
    (hdecode : s.incoming.fecDecoder.Decode recovered decoder) (hgenuine : s.Genuine recovered)
    (hlast : s.windowStart ≤ s.incoming.fecDecoder.lastEnd + kColumnPeriod / 2) :
    s.Ended (s.incoming.decoded recovered decoder) ∨
      (s.incoming.decoded recovered decoder).isShutdown = false ∧
        ∃ k', (s.withIncoming (s.incoming.decoded recovered decoder)).Inv k' := by
  have hadvances := h.decoder.decode hlast hdecode
  obtain ⟨slid, filled, hmoves, hwithin, hcases⟩ := h.decoder.decode_moves h.kept hlast hdecode
  have hfilled := h.decode_genuine hgenuine (by
    rcases hcases with ⟨hnone, -⟩ | ⟨hnone, -⟩ | ⟨-, -, hfound⟩
    · exact .inl hnone
    · exact .inl hnone
    · exact .inr hfound) hwithin
  unfold ReliableIncoming.decoded
  cases henabled : decoder.emergencyDisabled with
  | true =>
    rw [ReliableIncoming.resumeProcessing_disabled henabled]
    exact .inl (h.ended rfl)
  | false =>
    obtain ⟨hstart, hplaced, hle⟩ := h.moved { s.incoming with
      fecDecoder := decoder
      delivered := s.incoming.delivered ++ recovered.flatMap fun p => unorderedMessages p.2 }
      hadvances hmoves
    have hpassed := h.next_le.trans hle
    unfold nextExpected at hpassed
    rw [hstart] at hpassed
    rw [ReliableIncoming.resumeProcessing_eq _ k hplaced henabled (h.moved_contents hmoves hfilled)
      h.next_eq hmoves.kept.start_le hpassed h.handled_eq]
    refine .inr ⟨hopen, _, h.stepDecoder hadvances hmoves hfilled hpassed rfl ?_ (fun _ => ?_)
      (fun hfalse => ?_) rfl⟩
    · unfold nextExpected
      exact Nat.le_of_eq (congrArg (· + decoder.window.nextExpectedElement) hstart.symm)
    · unfold nextExpected
      exact congrArg (· + decoder.window.nextExpectedElement) hstart.symm
    · simp only [hdecoding] at hfalse
      cases hfalse

theorem Inv.decodeDone {s : ReliableLink α} {k : Nat} (h : s.Inv k)
    (hnone : s.incoming.fecDecoder.hasRecoveredPackets = false) :
    { s with incoming := { s.incoming with decoding := false } }.Inv k :=
  ⟨h.encoder, h.decoder, h.kept, h.next_eq, h.next_le, h.caught_up, fun _ => hnone, h.contents,
    h.acknowledged_le, h.reliables, h.recoveries, h.acks, h.handled_eq⟩

def Sound (s : ReliableLink α) : Prop :=
  s.incoming.isShutdown = false ∧ (∃ k, s.Inv k) ∨ s.Ended s.incoming

theorem sound_initial (encryptor : SimpleCipher) : (initial encryptor : ReliableLink α).Sound :=
  .inl ⟨rfl, 0, inv_initial encryptor⟩

theorem Ended.step {s s' : ReliableLink α} {event : Event α} (h : s.Ended s.incoming)
    (hstep : Steps s event s') : s'.Ended s'.incoming := by
  obtain ⟨hshutdown, hdecoding, hhandled⟩ := h
  have hbusy : ¬ s.Idle := by
    rintro ⟨hopen, -⟩
    rw [hshutdown] at hopen
    cases hopen
  cases hstep with
  | send packet nowMsec =>
    refine ⟨hshutdown, hdecoding, hhandled.trans ?_⟩
    change _ <+: (s.sent ++ [packet]).flatMap orderedMessages
    rw [List.flatMap_append]
    exact List.prefix_append _ _
  | retransmit => exact ⟨hshutdown, hdecoding, hhandled⟩
  | sendRecovery => exact ⟨hshutdown, hdecoding, hhandled⟩
  | sendUnreliable => exact ⟨hshutdown, hdecoding, hhandled⟩
  | disableSequenceNumberCompress => exact ⟨hshutdown, hdecoding, hhandled⟩
  | receive _ hidle => exact absurd hidle hbusy
  | receiveRecovery _ _ _ _ _ _ hidle => exact absurd hidle hbusy
  | receiveUnreliable _ hidle => exact absurd hidle hbusy
  | decode _ _ hbegun => exact absurd (hdecoding.symm.trans hbegun) (by decide)
  | decodeDone hbegun => exact absurd (hdecoding.symm.trans hbegun) (by decide)
  | postAcknowledgements _ _ hidle => exact absurd hidle hbusy
  | acknowledge => exact ⟨hshutdown, hdecoding, hhandled⟩

theorem Sound.step {s s' : ReliableLink α} {event : Event α} (h : s.Sound)
    (hregular : s.Regular event) (hstep : Steps s event s') : s'.Sound := by
  rcases h with ⟨hopen, k, h⟩ | hended
  · cases hstep with
    | send packet nowMsec hok => exact .inl ⟨hopen, k, h.send packet hok⟩
    | retransmit packetNum packet lastSendMsec ack _ hpacket hack =>
      exact .inl ⟨hopen, k, h.retransmit hpacket lastSendMsec hack⟩
    | sendRecovery encoder metadata hmade => exact .inl ⟨hopen, k, h.sendRecovery hmade⟩
    | sendUnreliable => exact .inl ⟨hopen, k, h.sendUnreliable⟩
    | disableSequenceNumberCompress =>
      exact .inl ⟨hopen, k, h.sends rfl rfl rfl rfl (List.prefix_refl _) h.encoder
        (fun d hd => .inl hd) (fun _ _ _ _ hr => .inl hr)⟩
    | receive d hidle hsent =>
      rcases h.receive hidle hsent hregular with hended | hkeeps
      · exact .inr hended
      · exact .inl hkeeps
    | receiveRecovery nonce metadata packetEnd single checked reported hidle hsent =>
      rcases h.receiveRecovery hidle hsent hregular with hended | hkeeps
      · exact .inr hended
      · exact .inl hkeeps
    | receiveUnreliable nonce hidle =>
      refine .inl ⟨?_, k, h.sameDecoder ?_ ?_ ?_ ?_⟩
      all_goals
        unfold ReliableIncoming.accepting
        split
      all_goals first | exact hopen | rfl
    | decode recovered decoder hdecoding hdecode hgenuine =>
      rcases h.decode hopen hdecoding hdecode hgenuine hregular with hended | hkeeps
      · exact .inr hended
      · exact .inl hkeeps
    | decodeDone _ hnone => exact .inl ⟨hopen, k, h.decodeDone hnone⟩
    | postAcknowledgements byteLimit message hidle hlimit _ hmessage =>
      exact .inl ⟨hopen, k, h.postAcknowledgements hidle hlimit hmessage⟩
    | acknowledge ack nowMsec peerNextExpectedNonce hsent =>
      exact .inl ⟨hopen, k, h.acknowledge hsent hregular nowMsec peerNextExpectedNonce⟩
  · exact .inr (hended.step hstep)

end ReliableLink
end Tonk.Session
