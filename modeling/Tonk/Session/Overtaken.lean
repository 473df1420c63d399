import Tonk.Session.InOrder
import Tonk.Session.Replay

/-!
A retransmission that arrives after packets that were sent later. The other packets arrive in the
order of their numbers. What the receiver makes of them is what it would make of the packets of a
second sender, whose packet numbers are the ones that are read.
-/

set_option autoImplicit false

namespace Tonk.Session
open Protocol Serial Siamese Transition

variable {α : Type}

namespace ReliableIncoming

theorem resumeLoop_keeps (turns : Nat) (r : ReliableIncoming α) :
    r.SameDecoder (r.resumeLoop turns) ∧ (r.resumeLoop turns).delivered = r.delivered ∧
      ((r.resumeLoop turns).isShutdown = false → (r.resumeLoop turns).decoding = r.decoding) := by
  induction turns generalizing r with
  | zero => exact ⟨.refl r, rfl, fun _ => rfl⟩
  | succ turns ih =>
    unfold resumeLoop
    split
    · exact ⟨.refl r, rfl, fun _ => rfl⟩
    · obtain ⟨hsame, hdelivered, hdecoding⟩ := ih { r with
        fecNextExpectedPacketNum := incrementColumn1 r.fecNextExpectedPacketNum
        handled := _ }
      exact ⟨⟨hsame.1, hsame.2, hsame.3⟩, hdelivered, hdecoding⟩
    · exact ⟨⟨rfl, rfl, rfl⟩, rfl, fun hopen => absurd hopen (by simp [fail])⟩

theorem decoderAddOriginal_keeps (r : ReliableIncoming α) (relseqNum : Nat)
    (packet : List (ReliableMessage α)) :
    (r.decoderAddOriginal relseqNum packet).fecDecoder =
        (r.fecDecoder.addOriginal relseqNum packet).1 ∧
      (r.decoderAddOriginal relseqNum packet).antiReplay = r.antiReplay ∧
      (r.decoderAddOriginal relseqNum packet).taken = r.taken ∧
      (r.decoderAddOriginal relseqNum packet).delivered = r.delivered ∧
      ((r.fecDecoder.addOriginal relseqNum packet).2 = .success →
        (r.decoderAddOriginal relseqNum packet).isShutdown = false →
        (r.decoderAddOriginal relseqNum packet).decoding = true) := by
  unfold decoderAddOriginal
  split
  · next heq => simp [heq]
  · next d heq =>
    simp only
    split
    · obtain ⟨hsame, hdelivered, hdecoding⟩ := resumeLoop_keeps (d.window.count + 1) { r with
        fecDecoder := d
        decoding := true
        fecNextExpectedPacketNum := incrementColumn1 r.fecNextExpectedPacketNum }
      refine ⟨?_, hsame.antiReplay, hsame.taken, hdelivered, fun _ => hdecoding⟩
      rw [heq]
      exact hsame.fecDecoder
    · simp [heq]
  · next d result hdup hok heq =>
    refine ⟨by rw [heq]; rfl, rfl, rfl, rfl, fun hsuccess => ?_⟩
    rw [heq] at hsuccess
    exact absurd hsuccess hok

theorem processReliable_keeps {r : ReliableIncoming α} (hopen : r.isShutdown = false)
    (henabled : r.fecDecoder.emergencyDisabled = false) (relseqNum : Nat)
    (packet : List (ReliableMessage α)) :
    (r.processReliable relseqNum packet).fecDecoder =
        (r.fecDecoder.addOriginal relseqNum packet).1 ∧
      (r.processReliable relseqNum packet).antiReplay = r.antiReplay ∧
      (r.processReliable relseqNum packet).taken = r.taken ∧
      (r.processReliable relseqNum packet).delivered = r.delivered ++
        (if (r.fecDecoder.get relseqNum).1 = .needMoreData then unorderedMessages packet else []) ∧
      ((r.fecDecoder.addOriginal relseqNum packet).2 = .success →
        (r.processReliable relseqNum packet).isShutdown = false →
        (r.processReliable relseqNum packet).decoding = true) := by
  have hdone := processMessages_processed relseqNum
    (decide (r.fecNextExpectedPacketNum = relseqNum)) none packet r
  unfold processReliable
  simp only
  generalize r.processMessages relseqNum (decide (r.fecNextExpectedPacketNum = relseqNum)) none
    packet = r₁ at hdone ⊢
  obtain ⟨part, -, hdelivered, hall⟩ := hdone.delivered
  rcases hdone.ended with ⟨hsame, -⟩ | ⟨hdisabled, -⟩
  · rw [if_neg (by rw [hsame, hopen]; decide)]
    obtain ⟨hdecoder, hregister, htaken, hkept, hdecoding⟩ :=
      r₁.decoderAddOriginal_keeps relseqNum packet
    rw [hdone.same.fecDecoder] at hdecoder hdecoding
    refine ⟨hdecoder, hregister.trans hdone.same.antiReplay, htaken.trans hdone.same.taken, ?_,
      hdecoding⟩
    rw [hkept, hdelivered, hall hsame hopen]
    simp [seesFirst]
  · rw [henabled] at hdisabled
    cases hdisabled

end ReliableIncoming

namespace ReliableLink

/-- The receiver `r` has the packets `held` of the sender of `g`, in a window that has not moved. -/
structure Receives (g : ReliableLink α) (r : ReliableIncoming α) (held : Nat → Prop) : Prop where
  inv : ∃ k, { g with incoming := r }.Inv k
  start : g.windowStart = 0
  isOpen : r.isShutdown = false
  idle : r.decoding = false
  enabled : r.fecDecoder.emergencyDisabled = false
  held_iff : ∀ n, (r.fecDecoder.window.getWindowElement n).isSome = true ↔ held n

theorem Receives.next_eq {g : ReliableLink α} {r : ReliableIncoming α} {held : Nat → Prop} {j : Nat}
    (h : g.Receives r held) (hbefore : ∀ n, n < j → held n) (hnot : ¬ held j) :
    { g with incoming := r }.Inv j ∧ r.fecDecoder.window.nextExpectedElement = j := by
  obtain ⟨k, hinv⟩ := h.inv
  have hk : k = { g with incoming := r }.nextExpected := hinv.caught_up (hinv.idle h.idle)
  have hsound := hinv.decoder.sound
  have hmissing := next_missing hsound
  have hnext : r.fecDecoder.window.nextExpectedElement = j := by
    rcases Nat.lt_trichotomy r.fecDecoder.window.nextExpectedElement j with hlt | heq | hgt
    · have hheld := (h.held_iff _).mpr (hbefore _ hlt)
      simp only at hmissing
      rw [hmissing] at hheld
      cases hheld
    · exact heq
    · have hgot := hsound.before_next j hgt
      rw [hsound.got_eq] at hgot
      exact absurd ((h.held_iff j).mp hgot) hnot
  have hkj : k = j := by
    unfold nextExpected at hk
    rw [h.start, hnext] at hk
    omega
  exact ⟨hkj ▸ hinv, hnext⟩

theorem Receives.original {g : ReliableLink α} {r : ReliableIncoming α} {held : Nat → Prop} {n : Nat}
    (h : g.Receives r held) {packet : List (ReliableMessage α)} (hpacket : g.sent[n]? = some packet)
    (hsmall : n < kColumnPeriod / 2) (hnew : ¬ held n) (register : StrikeRegister)
    (taken : List (Nat × Nat)) {r' : ReliableIncoming α}
    (hr' : r' = { r with antiReplay := register, taken := taken }.processReliable (columnOf n) packet) :
    r'.isShutdown = false ∧ r'.decoding = true ∧ r'.fecDecoder.hasRecoveredPackets = false ∧
      g.Receives { r' with decoding := false } (fun m => held m ∨ m = n) ∧
      r'.antiReplay = register ∧ r'.taken = taken ∧
      r'.delivered = r.delivered ++ unorderedMessages packet ∧
      r'.fecDecoder.window.columnStart = r.fecDecoder.window.columnStart := by
  obtain ⟨k, hinv⟩ := h.inv
  have hhas : r.fecDecoder.hasRecoveredPackets = false := hinv.idle h.idle
  have hk : k = { g with incoming := r }.nextExpected := hinv.caught_up hhas
  have hplaced : r.fecDecoder.Placed g.windowStart g.sent.length := hinv.decoder
  have hstart := h.start
  have hlate : g.windowStart ≤ n + kColumnPeriod / 2 := by omega
  have hearly : n < g.windowStart + kColumnPeriod / 2 := by omega
  have hcount := hplaced.sound.count_le
  have hnext := hplaced.sound.next_le
  have hperiod : { g with incoming := r }.nextExpected < n + kColumnPeriod := by
    unfold nextExpected
    simp only [kColumnPeriod] at hcount ⊢
    omega
  have hnone : r.fecDecoder.window.getWindowElement n = none := by
    have hnot := mt (h.held_iff n).mp hnew
    simpa using hnot
  have helement : r.fecDecoder.window.columnToElement (columnOf n) = n := by
    rw [hplaced.columnToElement_of_ge (by omega) (by simp only [kColumnPeriod] at hsmall ⊢; omega)]
    omega
  obtain ⟨hdecoder, hregister, htaken, hdelivered, hdecoding⟩ :=
    ReliableIncoming.processReliable_keeps (r := { r with antiReplay := register, taken := taken })
      h.isOpen h.enabled (columnOf n) packet
  rw [← hr'] at hdecoder hregister htaken hdelivered hdecoding
  obtain ⟨filled, hmoves, -, hhas', hresult⟩ := hplaced.addOriginal_moves hinv.kept h.enabled
    (columnOf n) packet
  rw [helement] at hresult
  have hpos : isColumnDeltaNegative n = false := by
    rw [isColumnDeltaNegative_eq_false_iff]
    simp only [kColumnPeriod] at hsmall
    omega
  rcases hresult with ⟨-, -, hneg | hsome⟩ | ⟨rfl, hok, -⟩
  · rw [hpos] at hneg
    cases hneg
  · rw [hnone] at hsome
    cases hsome
  have hcolumn : r'.fecDecoder.window.columnStart = r.fecDecoder.window.columnStart := by
    have hmoved := hmoves.columnStart_eq
    rw [← hdecoder, Nat.add_zero] at hmoved
    exact hmoved.trans hplaced.columnStart_eq.symm
  rcases hinv.processReliable (r := { r with antiReplay := register, taken := taken }) hk hhas rfl
    hinv.next_eq h.isOpen rfl hpacket hlate hperiod hearly with ⟨hdisabled, -⟩ | ⟨hstays, k', hinv'⟩
  · exact absurd (h.enabled.symm.trans hdisabled) (by decide)
  rw [← hr'] at hstays hinv'
  have hlink : { g with incoming := r }.withIncoming r' = { g with incoming := r' } := by
    unfold withIncoming
    simp only [hcolumn]
    rw [hplaced.columnStart_eq, subtractColumns_columnOf (Nat.le_refl _) (by simp [kColumnPeriod])]
    simp
  rw [hlink] at hinv'
  have hhas'' : r'.fecDecoder.hasRecoveredPackets = false := by
    rw [hdecoder]
    exact hhas'.trans hhas
  refine ⟨hstays, hdecoding hok hstays, hhas'', ⟨⟨k', hinv'.decodeDone hhas''⟩, h.start, hstays, rfl,
    ?_, fun m => ?_⟩, hregister, htaken, ?_, hcolumn⟩
  · simp only [hdecoder]
    exact (addOriginal_enabled _ _ _).trans h.enabled
  · simp only [hdecoder]
    rw [Option.isSome_iff_exists, ← h.held_iff, Option.isSome_iff_exists]
    simp only [hmoves.contents, Nat.zero_add, List.mem_singleton, Prod.mk.injEq]
    constructor
    · rintro ⟨data, hold | ⟨hm, -⟩⟩
      · exact .inl ⟨data, hold⟩
      · exact .inr hm
    · rintro (⟨data, hold⟩ | hm)
      · exact ⟨data, .inl hold⟩
      · exact ⟨packet, .inr ⟨hm, rfl⟩⟩
  · rw [hdelivered, if_pos]
    unfold Decoder.get
    simp only [h.enabled, helement, hnone]
    split
    · exact absurd ‹_› (by decide)
    · split <;> rfl

/-- The register has struck the nonces `accepted` and has not slid. -/
structure Struck (r : StrikeRegister) (accepted : List Nat) : Prop where
  recorded : AntiReplay.Recorded r accepted
  base_eq : r.windowBase = 0
  largest_lt : r.largestSequence < kStrikeRegisterBits

theorem struck_initial : Struck .initial [] :=
  ⟨AntiReplay.recorded_initial, rfl, by decide⟩

theorem Struck.isDuplicate_iff {r : StrikeRegister} {accepted : List Nat} (h : Struck r accepted)
    {m : Nat} (hm : m < kStrikeRegisterBits) :
    r.isDuplicate (wrap 64 m) = true ↔ m ∈ accepted := by
  have hbits : kStrikeRegisterBits = 4096 := rfl
  rw [AntiReplay.wrap_self (by omega), h.recorded.isDuplicate_iff (by omega), h.base_eq]
  simp

theorem counterLt_small {a b : Nat} (ha : a < kStrikeRegisterBits) (hb : b < kStrikeRegisterBits) :
    counterLt 64 a b = decide (a < b) := by
  have hbits : kStrikeRegisterBits = 4096 := rfl
  rcases Nat.lt_or_ge a b with hlt | hge
  · have h := StrikeRegister.lt_wrap hlt (by omega)
    rw [AntiReplay.wrap_self (by omega), AntiReplay.wrap_self (by omega)] at h
    simp [h, hlt]
  · have h := StrikeRegister.not_lt_wrap hge (by omega)
    rw [AntiReplay.wrap_self (by omega), AntiReplay.wrap_self (by omega)] at h
    simp [h, hge]

theorem Struck.accept {r : StrikeRegister} {accepted : List Nat} (h : Struck r accepted) {m : Nat}
    (hm : m < kStrikeRegisterBits) : Struck (r.accept (wrap 64 m)) (m :: accepted) ∧
      (r.accept (wrap 64 m)).largestSequence = max r.largestSequence m := by
  have hbits : kStrikeRegisterBits = 4096 := rfl
  have hlargest := h.largest_lt
  have hrecorded := h.recorded.accept (m := m) (by omega) (by rw [h.base_eq]; omega)
    (.inl (by rw [h.base_eq]; omega))
  have hnot := StrikeRegister.not_lt_wrap (m := m) (Nat.zero_le m) (by omega)
  have hdistance := StrikeRegister.sub_wrap (m := m) (Nat.zero_le m) (by omega)
  rw [AntiReplay.wrap_self (by omega), AntiReplay.wrap_self (by omega)] at hnot hdistance
  rw [AntiReplay.wrap_self (by omega)]
  have hfields : (r.accept m).windowBase = 0 ∧
      (r.accept m).largestSequence = max r.largestSequence m := by
    unfold StrikeRegister.accept
    rw [counterLt_small hlargest hm]
    by_cases hlt : r.largestSequence < m
    · simp only [hlt, decide_true, if_true, h.base_eq, hnot, hdistance, Bool.false_eq_true, if_false]
      rw [if_neg (by omega)]
      exact ⟨rfl, by simp only [StrikeRegister.strike]; omega⟩
    · simp only [hlt, decide_false, Bool.false_eq_true, if_false, h.base_eq, hnot, hdistance]
      rw [if_neg (by omega)]
      exact ⟨h.base_eq, by simp only [StrikeRegister.strike]; omega⟩
  exact ⟨⟨hrecorded, hfields.1, by rw [hfields.2]; omega⟩, hfields.2⟩

theorem receive_held {s g : ReliableLink α} {held : Nat → Prop} (h : g.Receives s.incoming held)
    {d : ReliableDatagram α} (hsent : .reliable d ∈ s.datagrams)
    (hfresh : s.incoming.antiReplay.isDuplicate (wrap 64 d.nonce) = false)
    (hordered : { s.incoming with antiReplay := s.incoming.antiReplay.accept (wrap 64 d.nonce)
      : ReliableIncoming α }.ignoresReordered d = false) {n : Nat}
    (hread : expandSequence s.incoming.fecNextExpectedPacketNum d.partialSeq d.sequenceBytes =
      columnOf n) (hpacket : g.sent[n]? = some d.packet) (hsmall : n < kColumnPeriod / 2)
    (hnew : ¬ held n) :
    ∃ r, Run Steps s [.receive d, .decodeDone] { s with incoming := r } ∧
      g.Receives r (fun m => held m ∨ m = n) ∧
      r.antiReplay = s.incoming.antiReplay.accept (wrap 64 d.nonce) ∧
      r.taken = s.incoming.taken ++ [(columnOf d.packetNum, columnOf n)] ∧
      r.delivered = s.incoming.delivered ++ unorderedMessages d.packet := by
  have hdone : s.incoming.processDatagram d = { s.incoming with
      antiReplay := s.incoming.antiReplay.accept (wrap 64 d.nonce)
      taken := s.incoming.taken ++ [(columnOf d.packetNum, columnOf n)] }.processReliable
        (columnOf n) d.packet := by
    unfold ReliableIncoming.processDatagram ReliableIncoming.accepting
    simp only [hfresh, hordered, hread]
    rfl
  obtain ⟨hopen, hdecoding, hhas, hreceives, hregister, htaken, hdelivered, hcolumn⟩ :=
    h.original hpacket hsmall hnew _ _ hdone
  have hstep := Steps.receive s d ⟨h.isOpen, h.idle⟩ hsent
  generalize s.incoming.processDatagram d = r at *
  have hplace : s.incoming.fecDecoder.window.columnStart = columnOf g.windowStart := by
    obtain ⟨k, hinv⟩ := h.inv
    exact hinv.decoder.columnStart_eq
  have hlink : s.withIncoming r = { s with incoming := r } := by
    unfold withIncoming
    rw [hcolumn, hplace, subtractColumns_columnOf (Nat.le_refl _) (by simp [kColumnPeriod])]
    simp
  rw [hlink] at hstep
  exact ⟨{ r with decoding := false }, .cons hstep (.cons (.decodeDone _ hdecoding hhas) (.nil _)),
    hreceives, hregister, htaken, hdelivered⟩

def upTo (extra : List Nat) (j n : Nat) : Prop := n < j ∨ n ∈ extra

theorem receive_next {s g : ReliableLink α} {extra accepted : List Nat} {j : Nat}
    (h : g.Receives s.incoming (upTo extra j)) (hstruck : Struck s.incoming.antiReplay accepted)
    {d : ReliableDatagram α} (hsent : .reliable d ∈ s.datagrams) (hnumber : d.packetNum = j)
    (hpos : 0 < d.sequenceBytes) (hle : d.sequenceBytes ≤ 3) (hnonce : d.nonce < kStrikeRegisterBits)
    (hlargest : s.incoming.antiReplay.largestSequence ≤ d.nonce) (hunused : d.nonce ∉ accepted)
    (hpacket : g.sent[j]? = some d.packet) (hsmall : j < kColumnPeriod / 2) (hextra : j ∉ extra) :
    ∃ r, Run Steps s [.receive d, .decodeDone] { s with incoming := r } ∧
      g.Receives r (upTo extra (j + 1)) ∧ Struck r.antiReplay (d.nonce :: accepted) ∧
      r.antiReplay.largestSequence = d.nonce ∧
      r.delivered = s.incoming.delivered ++ unorderedMessages d.packet := by
  have hnew : ¬ upTo extra j j := by
    rintro (hlt | hmem)
    · omega
    · exact hextra hmem
  obtain ⟨hinv, -⟩ := h.next_eq (fun n hn => .inl hn) hnew
  have hnextEq : s.incoming.fecNextExpectedPacketNum = columnOf j := hinv.next_eq
  have hread : expandSequence s.incoming.fecNextExpectedPacketNum d.partialSeq d.sequenceBytes =
      columnOf j := by
    rw [ReliableDatagram.partialSeq, hnumber]
    refine (expandSequence_eq_iff hpos hle (hnextEq ▸ columnOf_lt j)).mpr (.inr ?_)
    rw [hnextEq, subtractColumns_columnOf (Nat.le_refl j) (by simp [kColumnPeriod]), Nat.sub_self]
    have hzero : signed 22 0 = 0 := by decide
    rw [hzero]
    have : (0 : Int) < 2 ^ (8 * d.sequenceBytes - 1) := by positivity
    omega
  have hfresh : s.incoming.antiReplay.isDuplicate (wrap 64 d.nonce) = false := by
    rw [Bool.eq_false_iff]
    exact mt (hstruck.isDuplicate_iff hnonce).mp hunused
  obtain ⟨hstruck', hlargest'⟩ := hstruck.accept hnonce
  rw [Nat.max_eq_right hlargest] at hlargest'
  have hordered : { s.incoming with antiReplay := s.incoming.antiReplay.accept (wrap 64 d.nonce)
      : ReliableIncoming α }.ignoresReordered d = false := by
    unfold ReliableIncoming.ignoresReordered StrikeRegister.getNextExpected
    simp only
    rw [hlargest', ← Nat.cast_succ, StrikeRegister.not_lt_wrap (Nat.le_refl _) (by simp),
      Bool.and_false]
  obtain ⟨r, hrun, hreceives, hregister, -, hdelivered⟩ := receive_held h hsent hfresh hordered hread
    hpacket hsmall hnew
  refine ⟨r, hrun, ?_, hregister ▸ hstruck', hregister ▸ hlargest', hdelivered⟩
  have hheld : (fun m => upTo extra j m ∨ m = j) = upTo extra (j + 1) := by
    funext m
    simp only [upTo, eq_iff_iff]
    constructor
    · rintro ((hlt | hmem) | heq)
      · exact .inl (by omega)
      · exact .inr hmem
      · exact .inl (by omega)
    · rintro (hlt | hmem)
      · rcases Nat.lt_succ_iff_lt_or_eq.mp hlt with hlt | heq
        · exact .inl (.inl hlt)
        · exact .inr heq
      · exact .inl (.inr hmem)
  rw [← hheld]
  exact hreceives

def Offers (s : ReliableLink α) (nonce n : Nat) (packet : List (ReliableMessage α)) : Prop :=
  ∃ nonceBytes sequenceBytes, 0 < sequenceBytes ∧ sequenceBytes ≤ 3 ∧
    .reliable ⟨nonce, nonceBytes, sequenceBytes, n, packet⟩ ∈ s.datagrams

theorem receive_range {s g : ReliableLink α} {extra accepted : List Nat} {j c : Nat}
    (h : g.Receives s.incoming (upTo extra j)) (hstruck : Struck s.incoming.antiReplay accepted)
    (hlargest : s.incoming.antiReplay.largestSequence ≤ j + c)
    (hbelow : ∀ m ∈ accepted, m < j + c) (count : Nat) (hsmall : j + count + c ≤ kStrikeRegisterBits)
    (hoffers : ∀ i, j ≤ i → i < j + count → i ∉ extra ∧ ∃ packet, g.sent[i]? = some packet ∧
      s.Offers (i + c) i packet) :
    ∃ events r, Run Steps s events { s with incoming := r } ∧
      g.Receives r (upTo extra (j + count)) ∧
      (∃ accepted', Struck r.antiReplay accepted' ∧ (∀ m ∈ accepted', m < j + count + c) ∧
        ∀ m ∈ accepted', m ∈ accepted ∨ j + c ≤ m) ∧
      r.antiReplay.largestSequence ≤ j + count + c ∧
      s.incoming.delivered.length ≤ r.delivered.length := by
  induction count with
  | zero =>
    exact ⟨[], s.incoming, .nil s, h, ⟨accepted, hstruck, hbelow, fun m hm => .inl hm⟩, hlargest,
      Nat.le_refl _⟩
  | succ count ih =>
    obtain ⟨events, r, hrun, hreceives, ⟨accepted', hstruck', hbelow', hnew'⟩, hlargest', hlength⟩ :=
      ih (by omega) fun i hge hlt => hoffers i hge (by omega)
    obtain ⟨hextra, packet, hpacket, nonceBytes, sequenceBytes, hpos, hle, hsent⟩ :=
      hoffers (j + count) (by omega) (by omega)
    have hbits : kStrikeRegisterBits = 4096 := rfl
    obtain ⟨r', hrun', hreceives', hstruck'', hlargest'', hdelivered⟩ :=
      receive_next (s := { s with incoming := r }) hreceives hstruck' hsent rfl hpos hle
        (by simp only; omega) hlargest' (fun hmem => Nat.lt_irrefl _ (hbelow' _ hmem)) hpacket
        (by simp only [kColumnPeriod]; omega) hextra
    refine ⟨events ++ _, r', hrun.append hrun', hreceives', ⟨_, hstruck'', fun m hm => ?_,
      fun m hm => ?_⟩, ?_, ?_⟩
    · rcases List.mem_cons.mp hm with rfl | hm
      · simp only
        omega
      · have := hbelow' m hm
        omega
    · rcases List.mem_cons.mp hm with rfl | hm
      · exact .inr (by simp only; omega)
      · exact hnew' m hm
    · rw [hlargest'']
      simp only
      omega
    · rw [hdelivered, List.length_append]
      simp only
      omega

theorem following_add_ok {e : Encoder} {added acknowledged : Nat}
    (h : e.Following added acknowledged) (hroom : added < siameseMaxPackets) (nowMsec : Nat) :
    (e.add nowMsec).2 = .success := by
  rcases h.window with ⟨hcount, hcolumn, -⟩ | ⟨base, hold, -⟩
  · exact (EncoderPacketWindow.add_empty hcount hcolumn nowMsec).1
  · have hcount := hold.count_eq
    unfold Encoder.add EncoderPacketWindow.add EncoderPacketWindow.getRemainingSlots
    simp only
    rw [if_neg (by omega)]

theorem exists_following (n : Nat) (hroom : n ≤ siameseMaxPackets) :
    ∃ e : Encoder, e.Following n 0 := by
  induction n with
  | zero => exact ⟨_, Encoder.following_initial⟩
  | succ n ih =>
    obtain ⟨e, he⟩ := ih (by omega)
    exact ⟨_, he.add 0 (following_add_ok he (by omega) 0)⟩

/-- A sender that has heard nothing from its peer. -/
structure Sending (encryptor : SimpleCipher) (s : ReliableLink α) (nonce : Nat) : Prop where
  outgoing : s.outgoing = ⟨encryptor, nonce, 0, 0, columnOf s.sent.length, true, none, false⟩
  encoder : s.encoder.Following s.sent.length 0
  incoming : s.incoming = .initial
  start : s.windowStart = 0
  acknowledged : s.acknowledged = 0

theorem sending_initial (encryptor : SimpleCipher) :
    Sending encryptor (initial encryptor : ReliableLink α) 0 :=
  ⟨rfl, Encoder.following_initial, rfl, rfl, rfl⟩

theorem Sending.send {encryptor : SimpleCipher} {s : ReliableLink α} {nonce : Nat}
    (h : Sending encryptor s nonce) (hroom : s.sent.length < siameseMaxPackets)
    (packet : List (ReliableMessage α)) :
    ∃ s', Steps s (.send packet 0) s' ∧ Sending encryptor s' (nonce + 1) ∧
      s'.sent = s.sent ++ [packet] ∧ s'.Offers nonce s.sent.length packet ∧
      ∀ d ∈ s.datagrams, d ∈ s'.datagrams := by
  have hok := following_add_ok h.encoder hroom 0
  refine ⟨_, .send s packet 0 hok, ⟨?_, ?_, h.incoming, h.start, h.acknowledged⟩, rfl, ?_,
    fun d hd => List.mem_cons_of_mem _ hd⟩
  · simp only [sendQueuedReliable, sendPacket, h.outgoing, incrementColumn1_columnOf,
      List.length_append, List.length_singleton]
  · change (s.encoder.add 0).1.Following (s.sent ++ [packet]).length 0
    rw [List.length_append]
    exact h.encoder.add 0 hok
  · obtain ⟨hpos, hle⟩ := getPacketNumBytes_mem s.outgoing (columnOf s.sent.length)
    refine ⟨s.outgoing.nonceBytes, _, hpos, hle, ?_⟩
    simp only [sendQueuedReliable, sendPacket]
    rw [h.outgoing]
    exact List.mem_cons_self

theorem Sending.sends {encryptor : SimpleCipher} {s : ReliableLink α} {nonce : Nat}
    (h : Sending encryptor s nonce) (count : Nat)
    (hroom : s.sent.length + count ≤ siameseMaxPackets) :
    ∃ events s', Run Steps s events s' ∧ Sending encryptor s' (nonce + count) ∧
      s'.sent = s.sent ++ List.replicate count [] ∧
      (∀ i, i < count → s'.Offers (nonce + i) (s.sent.length + i) []) ∧
      ∀ d ∈ s.datagrams, d ∈ s'.datagrams := by
  induction count with
  | zero => exact ⟨[], s, .nil s, h, by simp, fun i hi => absurd hi (Nat.not_lt_zero i), fun d hd => hd⟩
  | succ count ih =>
    obtain ⟨events, s₁, hrun, h₁, hsent, hoffers, hkept⟩ := ih (by omega)
    have hlength : s₁.sent.length = s.sent.length + count := by simp [hsent]
    obtain ⟨s₂, hstep, h₂, hsent₂, hoffer, hkept₂⟩ := h₁.send (by omega) []
    refine ⟨_, s₂, hrun.snoc hstep, h₂, ?_, fun i hi => ?_, fun d hd => hkept₂ d (hkept d hd)⟩
    · rw [hsent₂, hsent, List.append_assoc, ← List.replicate_succ']
    · rcases Nat.lt_succ_iff_lt_or_eq.mp hi with hlt | rfl
      · obtain ⟨nonceBytes, sequenceBytes, hpos, hle, hmem⟩ := hoffers i hlt
        exact ⟨nonceBytes, sequenceBytes, hpos, hle, hkept₂ _ hmem⟩
      · rw [hlength] at hoffer
        exact hoffer

theorem Sending.retransmit {encryptor : SimpleCipher} {s : ReliableLink α} {nonce n : Nat}
    (h : Sending encryptor s nonce) {packet : List (ReliableMessage α)}
    (hpacket : s.sent[n]? = some packet) :
    ∃ s', Steps s (.retransmit n) s' ∧ Sending encryptor s' (nonce + 1) ∧ s'.sent = s.sent ∧
      .reliable ⟨nonce, s.outgoing.nonceBytes, s.outgoing.getPacketNumBytes (columnOf n), n,
        packet⟩ ∈ s'.datagrams ∧ ∀ d ∈ s.datagrams, d ∈ s'.datagrams := by
  refine ⟨_, .retransmit s n packet s.encoder.window.lastSendMsec s.encoder.ack
    (by rw [h.acknowledged]; exact Nat.zero_le n) hpacket rfl, ⟨?_, h.encoder, h.incoming, h.start,
    h.acknowledged⟩, rfl, ?_, fun d hd => List.mem_cons_of_mem _ hd⟩
  · simp only [sendPacket, h.outgoing]
  · simp only [sendPacket]
    rw [h.outgoing]
    exact List.mem_cons_self

theorem receives_initial (encryptor : SimpleCipher) (sent : List (List (ReliableMessage α)))
    (hroom : sent.length ≤ siameseMaxPackets) :
    ∃ g : ReliableLink α, g.sent = sent ∧ g.Receives .initial (upTo [] 0) := by
  obtain ⟨e, he⟩ := exists_following sent.length hroom
  have hinv : { initial encryptor with sent := sent, encoder := e : ReliableLink α }.Inv 0 :=
    (inv_initial encryptor).sends rfl rfl rfl rfl List.nil_prefix he (fun d hd => .inl hd)
      (fun _ _ _ _ hr => .inl hr)
  refine ⟨{ initial encryptor with sent := sent, encoder := e }, rfl, ⟨0, hinv⟩, rfl, rfl, rfl, rfl,
    fun n => ?_⟩
  simp [upTo, ReliableIncoming.initial, Decoder.initial, DecoderPacketWindow.getWindowElement,
    DecoderPacketWindow.initial, DecoderSubwindow.fresh]

def bothKinds (data : α) : List (ReliableMessage α) := [.unordered data, .ordered data]

theorem getElem?_between {packet : List (ReliableMessage α)} {count i : Nat} (hpos : 1 ≤ i)
    (hle : i ≤ count) : (packet :: List.replicate count [] ++ [packet])[i]? = some [] := by
  obtain ⟨i, rfl⟩ := Nat.exists_eq_add_of_le' hpos
  rw [List.getElem?_append_left (by rw [List.length_cons, List.length_replicate]; omega),
    List.getElem?_cons_succ, List.getElem?_replicate, if_pos (by omega)]

theorem Offers.kept {s s' : ReliableLink α} {nonce n : Nat} {packet : List (ReliableMessage α)}
    (h : s.Offers nonce n packet) (hkept : ∀ d ∈ s.datagrams, d ∈ s'.datagrams) :
    s'.Offers nonce n packet := by
  obtain ⟨nonceBytes, sequenceBytes, hpos, hle, hmem⟩ := h
  exact ⟨nonceBytes, sequenceBytes, hpos, hle, hkept _ hmem⟩

theorem sent_twice (encryptor : SimpleCipher) (data : α) :
    ∃ events, ∃ s : ReliableLink α, Run Steps (initial encryptor) events s ∧
      s.sent = bothKinds data :: List.replicate 255 [] ∧ s.incoming = .initial ∧
      s.Offers 0 0 (bothKinds data) ∧ (∀ i, 1 ≤ i → i < 126 → s.Offers i i []) ∧
      (∀ i, 126 ≤ i → i < 256 → s.Offers (i + 1) i []) ∧
      .reliable ⟨126, 1, 1, 0, bothKinds data⟩ ∈ s.datagrams := by
  have hmax : siameseMaxPackets = 16000 := rfl
  obtain ⟨s₁, hstep₁, h₁, hsent₁, hoffer₁, -⟩ := (sending_initial encryptor).send
    (show 0 < siameseMaxPackets by decide) (bothKinds data)
  have hsent₁' : s₁.sent = [bothKinds data] := hsent₁
  obtain ⟨events₂, s₂, hrun₂, h₂, hsent₂, hoffers₂, hkept₂⟩ := h₁.sends 125
    (by rw [hsent₁', List.length_singleton]; omega)
  rw [hsent₁', List.length_singleton] at hoffers₂
  have hfirst : s₂.sent[0]? = some (bothKinds data) := by
    rw [hsent₂, hsent₁']
    rfl
  obtain ⟨s₃, hstep₃, h₃, hsent₃, hlate, hkept₃⟩ := h₂.retransmit hfirst
  have hlength : s₂.sent.length = 126 := by
    rw [hsent₂, hsent₁', List.length_append, List.length_replicate, List.length_singleton]
  obtain ⟨events₄, s₄, hrun₄, h₄, hsent₄, hoffers₄, hkept₄⟩ := h₃.sends 130
    (by rw [hsent₃, hlength]; omega)
  rw [hsent₃, hlength] at hoffers₄
  refine ⟨_, s₄, (((Run.nil _).snoc hstep₁ |>.append hrun₂).snoc hstep₃).append hrun₄, ?_, h₄.incoming,
    ((hoffer₁.kept hkept₂).kept hkept₃).kept hkept₄, fun i hge hlt => ?_, fun i hge hlt => ?_, ?_⟩
  · rw [hsent₄, hsent₃, hsent₂, hsent₁']
    rfl
  · have hoffer := hoffers₂ (i - 1) (by omega)
    rw [Nat.zero_add, Nat.add_sub_cancel' hge] at hoffer
    exact (hoffer.kept hkept₃).kept hkept₄
  · have hoffer := hoffers₄ (i - 126) (by omega)
    rw [show 0 + 1 + 125 + 1 + (i - 126) = i + 1 by omega,
      show 126 + (i - 126) = i by omega] at hoffer
    exact hoffer
  · have hbytes : s₂.outgoing.nonceBytes = 1 ∧ s₂.outgoing.getPacketNumBytes (columnOf 0) = 1 := by
      have hnonce : nonceFieldBytes true 126 0 = 1 := by decide
      rw [h₂.outgoing, hlength]
      exact ⟨hnonce, by simp [SessionOutgoing.getPacketNumBytes, columnOf, kColumnPeriod]⟩
    rw [hbytes.1, hbytes.2] at hlate
    exact hkept₄ _ hlate

theorem overtaken_retransmission (encryptor : SimpleCipher) (data : α) :
    ∃ events s, ∃ g : ReliableLink α, Run Steps (initial encryptor) events s ∧
      s.sent = bothKinds data :: List.replicate 255 [] ∧
      g.sent = bothKinds data :: List.replicate 255 [] ++ [bothKinds data] ∧
      g.Receives s.incoming (upTo [256] 130) ∧
      (∃ accepted, Struck s.incoming.antiReplay accepted ∧ ∀ m ∈ accepted, m < 131) ∧
      s.incoming.antiReplay.largestSequence ≤ 131 ∧
      (∀ i, 130 ≤ i → i < 256 → s.Offers (i + 1) i []) ∧
      (0, 256) ∈ s.incoming.taken ∧ 2 ≤ s.incoming.delivered.length := by
  have hbits : kStrikeRegisterBits = 4096 := rfl
  have hmax : siameseMaxPackets = 16000 := rfl
  obtain ⟨events₁, s, hrun, hsent, hincoming, hoffer, hoffers₁, hoffers₂, hlate⟩ :=
    sent_twice encryptor data
  obtain ⟨g, hg, hreceives⟩ := receives_initial encryptor
    (bothKinds data :: List.replicate 255 [] ++ [bothKinds data]) (by
      rw [List.length_append, List.length_cons, List.length_replicate, List.length_singleton]
      omega)
  have hfront : (bothKinds data :: List.replicate 255 []).length = 256 := by
    rw [List.length_cons, List.length_replicate]
  have hempty : ∀ i, 1 ≤ i → i < 256 → g.sent[i]? = some [] := by
    intro i hge hlt
    rw [hg]
    exact getElem?_between hge (by omega)
  have hlast : g.sent[256]? = some (bothKinds data) := by
    rw [hg, List.getElem?_append_right (Nat.le_of_eq hfront), hfront]
    rfl
  rw [← hincoming] at hreceives
  -- the packets up to 125, the four after the second copy, and then the second copy
  obtain ⟨nonceBytes, sequenceBytes, hpos, hle, hmem⟩ := hoffer
  have hstruck : Struck s.incoming.antiReplay [] := hincoming ▸ struck_initial
  obtain ⟨r₁, hrun₁, hreceives₁, hstruck₁, hlargest₁, hdelivered₁⟩ := receive_next
    hreceives hstruck hmem rfl hpos hle
    (show 0 < kStrikeRegisterBits by decide) (by rw [hincoming]; exact Nat.le_refl 0) (by simp) (by rw [hg]; rfl) (by decide) (by simp)
  obtain ⟨events₂, r₂, hrun₂, hreceives₂, ⟨accepted₂, hstruck₂, hbelow₂, -⟩, hlargest₂, hlength₂⟩ :=
    receive_range (s := { s with incoming := r₁ }) (c := 0) hreceives₁ hstruck₁
      (by simp only [hlargest₁]; omega) (by simp) 125 (by omega)
      fun i hge hlt => ⟨by simp, [], hempty i (by omega) (by omega), hoffers₁ i hge (by omega)⟩
  obtain ⟨events₃, r₃, hrun₃, hreceives₃, ⟨accepted₃, hstruck₃, hbelow₃, hnew₃⟩, hlargest₃, hlength₃⟩ :=
    receive_range (s := { s with incoming := r₂ }) (c := 1) hreceives₂ hstruck₂
      (Nat.le_succ_of_le hlargest₂) (fun m hm => Nat.lt_succ_of_lt (hbelow₂ m hm)) 4 (by omega)
      fun i hge hlt => ⟨by simp, [], hempty i (by omega) (by omega), hoffers₂ i (by omega) (by omega)⟩
  have hunused : 126 ∉ accepted₃ := by
    intro hmem
    rcases hnew₃ 126 hmem with hold | hnew
    · exact absurd (hbelow₂ 126 hold) (by omega)
    · omega
  obtain ⟨hinv₃, -⟩ := hreceives₃.next_eq (j := 130) (fun n hn => .inl hn) (by simp [upTo])
  have hnext₃ : r₃.fecNextExpectedPacketNum = columnOf 130 := hinv₃.next_eq
  have hfresh : r₃.antiReplay.isDuplicate (wrap 64 (126 : Nat)) = false := by
    rw [Bool.eq_false_iff]
    exact mt (hstruck₃.isDuplicate_iff (by omega)).mp hunused
  obtain ⟨r₄, hrun₄, hreceives₄, hregister₄, htaken₄, hdelivered₄⟩ := receive_held
    (s := { s with incoming := r₃ }) hreceives₃ hlate hfresh
    (by simp [ReliableIncoming.ignoresReordered]) (n := 256) (by simp only [hnext₃]; rfl) hlast
    (by decide) (by simp [upTo])
  obtain ⟨hstruck₄, hlargest₄⟩ := hstruck₃.accept (m := 126) (by omega)
  have hheld : (fun m => upTo [] (0 + 1 + 125 + 4) m ∨ m = 256) = upTo [256] 130 := by
    funext m
    simp [upTo]
  refine ⟨_, { s with incoming := r₄ }, g, (((hrun.append hrun₁).append hrun₂).append hrun₃).append hrun₄,
    hsent, hg, hheld ▸ hreceives₄, ⟨126 :: accepted₃, ?_, fun m hm => ?_⟩, ?_,
    fun i hge hlt => hoffers₂ i (by omega) hlt, ?_, ?_⟩
  · simp only [hregister₄]
    exact hstruck₄
  · rcases List.mem_cons.mp hm with rfl | hm
    · omega
    · have := hbelow₃ m hm
      omega
  · simp only [hregister₄, hlargest₄]
    omega
  · simp only [htaken₄]
    exact List.mem_append_right _ (by simp [columnOf, kColumnPeriod])
  · have hone : r₁.delivered.length = 1 := by
      rw [hdelivered₁, hincoming]
      rfl
    simp only at hlength₂ hlength₃
    simp only [hdelivered₄, List.length_append]
    simp only [bothKinds, unorderedMessages, List.filterMap_cons, List.filterMap_nil,
      List.length_singleton]
    omega

end ReliableLink
end Tonk.Session
