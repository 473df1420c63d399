import Tonk.Session.Delivery

set_option autoImplicit false

namespace Tonk.Session
open Protocol Serial Siamese Transition

variable {α : Type}

namespace ReliableIncoming

/-- The packets the decoder has recovered and not handed out yet. -/
def pending (r : ReliableIncoming α) : List (Nat × List (ReliableMessage α)) :=
  if r.fecDecoder.hasRecoveredPackets then r.fecDecoder.recoveredPackets else []

def owed (r : ReliableIncoming α) : List α :=
  r.delivered ++ r.pending.flatMap fun p => unorderedMessages p.2

theorem processReliable_disabled {r : ReliableIncoming α}
    (hdisabled : r.fecDecoder.emergencyDisabled = true) (relseqNum : Nat)
    (packet : List (ReliableMessage α)) :
    (r.processReliable relseqNum packet).isShutdown = true ∧
      (r.processReliable relseqNum packet).delivered = r.delivered := by
  have hdone := processMessages_processed relseqNum
    (decide (r.fecNextExpectedPacketNum = relseqNum)) none packet r
  have hunseen : r.seesFirst relseqNum none = false := by
    simp [seesFirst, Decoder.get, hdisabled]
  unfold processReliable
  simp only
  generalize r.processMessages relseqNum (decide (r.fecNextExpectedPacketNum = relseqNum)) none
    packet = r₁ at hdone ⊢
  obtain ⟨part, -, hdelivered, -⟩ := hdone.delivered
  have hsame : r₁.delivered = r.delivered := by
    rw [hdelivered, hunseen]
    simp
  split
  · next hended => exact ⟨hended, hsame⟩
  · rw [decoderAddOriginal_disabled (by rw [hdone.same.fecDecoder, hdisabled])]
    exact ⟨rfl, hsame⟩

end ReliableIncoming

namespace ReliableLink

def arrived (s : ReliableLink α) (n : Nat) : Bool :=
  n < s.windowStart || (s.incoming.fecDecoder.window.getWindowElement (n - s.windowStart)).isSome

def arrivedPackets (s : ReliableLink α) : List Nat :=
  (List.range s.sent.length).filter s.arrived

def arrivedMessages (s : ReliableLink α) : List α :=
  s.arrivedPackets.flatMap fun n => unorderedMessages (s.sent.getD n [])

theorem mem_arrivedPackets {s : ReliableLink α} {n : Nat} :
    n ∈ s.arrivedPackets ↔ n < s.sent.length ∧ s.arrived n = true := by
  simp [arrivedPackets]

theorem nodup_arrivedPackets (s : ReliableLink α) : s.arrivedPackets.Nodup :=
  List.nodup_range.filter _

theorem arrived_iff {s : ReliableLink α} {n : Nat} : s.arrived n = true ↔ n < s.windowStart ∨
    ∃ packet, s.incoming.fecDecoder.window.getWindowElement (n - s.windowStart) = some packet := by
  simp [arrived, Option.isSome_iff_exists]

theorem flatMap_range_getD (sent : List (List (ReliableMessage α))) :
    (List.range sent.length).flatMap (fun n => unorderedMessages (sent.getD n [])) =
      sent.flatMap unorderedMessages := by
  have hmap : (List.range sent.length).map (fun n => sent.getD n []) = sent := by
    refine List.ext_getElem (by simp) fun n h₁ h₂ => ?_
    simp [List.getD_eq_getElem?_getD, h₂]
  rw [← List.flatMap_map, hmap]

theorem arrivedMessages_sublist (s : ReliableLink α) :
    s.arrivedMessages.Sublist (s.sent.flatMap unorderedMessages) := by
  rw [← flatMap_range_getD]
  exact List.filter_sublist.flatMap _

theorem Inv.arrived_lt {s : ReliableLink α} {k n : Nat} (h : s.Inv k) (harrived : s.arrived n = true) :
    n < s.sent.length := by
  have hcount := h.decoder.count_le
  rcases arrived_iff.mp harrived with hlt | ⟨packet, hpacket⟩
  · omega
  · have hgot : s.incoming.fecDecoder.window.isGot (n - s.windowStart) = true := by
      rw [h.decoder.sound.got_eq, hpacket]
      rfl
    have := h.decoder.sound.got_lt _ hgot
    omega

theorem Inv.arrived_before {s : ReliableLink α} {k n : Nat} (h : s.Inv k) (hlt : n < s.nextExpected) :
    s.arrived n = true := by
  rw [arrived_iff]
  by_cases hstart : n < s.windowStart
  · exact .inl hstart
  · unfold nextExpected at hlt
    have hgot := h.decoder.sound.before_next (n - s.windowStart) (by omega)
    rw [h.decoder.sound.got_eq] at hgot
    exact .inr (Option.isSome_iff_exists.mp hgot)

theorem Inv.arrived_moved {s : ReliableLink α} {k slid : Nat} (h : s.Inv k)
    (incoming : ReliableIncoming α) {filled : List (Nat × List (ReliableMessage α))}
    (hadvances : s.incoming.fecDecoder.Advances s.windowStart s.sent.length incoming.fecDecoder)
    (hmoves : s.incoming.fecDecoder.Moves incoming.fecDecoder s.windowStart k slid filled) (n : Nat) :
    (s.withIncoming incoming).arrived n = true ↔
      s.arrived n = true ∨ n ∈ filled.map fun p => s.windowStart + p.1 := by
  obtain ⟨hstart, -, -⟩ := h.moved incoming hadvances hmoves
  have hle := hmoves.kept.start_le
  have hk := h.next_le
  rw [arrived_iff, hstart]
  by_cases hfront : n < s.windowStart + slid
  · have hbefore := h.arrived_before (n := n) (by omega)
    simp [hfront, hbefore]
  · have helement : slid + (n - (s.windowStart + slid)) = n - s.windowStart := by omega
    rw [arrived_iff]
    simp only [hfront, false_or, withIncoming, hmoves.contents, helement, List.mem_map,
      show ¬ n < s.windowStart by omega]
    constructor
    · rintro ⟨packet, hold | hnew⟩
      · exact .inl ⟨packet, hold⟩
      · exact .inr ⟨_, hnew, by simp only; omega⟩
    · rintro (⟨packet, hold⟩ | ⟨p, hp, heq⟩)
      · exact ⟨packet, .inl hold⟩
      · have hp' : p = (n - s.windowStart, p.2) := Prod.ext (by simp only; omega) rfl
        exact ⟨p.2, .inr (hp' ▸ hp)⟩

theorem Inv.arrivedMessages_moved {s : ReliableLink α} {k slid : Nat} (h : s.Inv k)
    (incoming : ReliableIncoming α) {filled : List (Nat × List (ReliableMessage α))}
    (hadvances : s.incoming.fecDecoder.Advances s.windowStart s.sent.length incoming.fecDecoder)
    (hmoves : s.incoming.fecDecoder.Moves incoming.fecDecoder s.windowStart k slid filled)
    (hfilled : ∀ p ∈ filled, s.sent[s.windowStart + p.1]? = some p.2) :
    (s.withIncoming incoming).arrivedMessages.Perm
      (s.arrivedMessages ++ filled.flatMap fun p => unorderedMessages p.2) := by
  have hnew : (filled.map fun p => s.windowStart + p.1).Nodup := by
    have hmap : (filled.map fun p => s.windowStart + p.1) =
        (filled.map Prod.fst).map (s.windowStart + ·) := by simp
    rw [hmap]
    exact hmoves.nodup.map fun a b heq => Nat.add_left_cancel heq
  have hdisjoint : ∀ n ∈ s.arrivedPackets, n ∉ filled.map fun p => s.windowStart + p.1 := by
    intro n hn hmem
    obtain ⟨p, hp, rfl⟩ := List.mem_map.mp hmem
    rcases arrived_iff.mp (mem_arrivedPackets.mp hn).2 with hlt | ⟨packet, hpacket⟩
    · omega
    · rw [Nat.add_sub_cancel_left, hmoves.missing p hp] at hpacket
      cases hpacket
  have hpackets : (s.withIncoming incoming).arrivedPackets.Perm
      (s.arrivedPackets ++ filled.map fun p => s.windowStart + p.1) := by
    refine (List.perm_ext_iff_of_nodup (nodup_arrivedPackets _) ?_).mpr fun n => ?_
    · exact List.nodup_append.mpr ⟨nodup_arrivedPackets s, hnew, fun n hn m hm heq =>
        hdisjoint n hn (heq ▸ hm)⟩
    · rw [mem_arrivedPackets, h.arrived_moved incoming hadvances hmoves, List.mem_append,
        mem_arrivedPackets]
      constructor
      · rintro ⟨hlt, hold | hfill⟩
        · exact .inl ⟨hlt, hold⟩
        · exact .inr hfill
      · rintro (⟨hlt, hold⟩ | hfill)
        · exact ⟨hlt, .inl hold⟩
        · refine ⟨?_, .inr hfill⟩
          obtain ⟨p, hp, rfl⟩ := List.mem_map.mp hfill
          exact (List.getElem?_eq_some_iff.mp (hfilled p hp)).1
  have hdata : (filled.map fun p => s.windowStart + p.1).flatMap
      (fun n => unorderedMessages (s.sent.getD n [])) =
      filled.flatMap fun p => unorderedMessages p.2 := by
    rw [List.flatMap_map]
    refine List.flatMap_congr fun p hp => ?_
    rw [List.getD_eq_getElem?_getD, hfilled p hp]
    rfl
  have hperm := hpackets.flatMap_right fun n => unorderedMessages (s.sent.getD n [])
  rw [List.flatMap_append, hdata] at hperm
  exact hperm

/-- Every unordered message that was put into a packet is delivered at most once, and once its packet
has arrived it was delivered or is about to be. -/
structure Accounted (s : ReliableLink α) : Prop where
  once : s.incoming.delivered.Subperm (s.sent.flatMap unorderedMessages)
  all : s.incoming.isShutdown = false → s.incoming.owed.Perm s.arrivedMessages

theorem accounted_initial (encryptor : SimpleCipher) :
    (initial encryptor : ReliableLink α).Accounted :=
  ⟨List.Sublist.subperm (List.Sublist.refl _), fun _ => List.Perm.refl _⟩

theorem subperm_of_owed {s : ReliableLink α} {delivered rest : List α}
    (h : (delivered ++ rest).Perm s.arrivedMessages) :
    delivered.Subperm (s.sent.flatMap unorderedMessages) :=
  (List.sublist_append_left delivered rest).subperm.trans
    (h.subperm.trans s.arrivedMessages_sublist.subperm)

theorem Accounted.sends {s s' : ReliableLink α} {k : Nat} (h : s.Accounted) (hinv : s.Inv k)
    (hincoming : s'.incoming = s.incoming) (hwindow : s'.windowStart = s.windowStart)
    (hsent : s.sent <+: s'.sent) : s'.Accounted := by
  have harrived : s'.arrived = s.arrived := by
    funext n
    simp only [arrived, hincoming, hwindow]
  have hpackets : s'.arrivedPackets.Perm s.arrivedPackets := by
    refine (List.perm_ext_iff_of_nodup (nodup_arrivedPackets _) (nodup_arrivedPackets _)).mpr fun n => ?_
    have hlength := hsent.length_le
    rw [mem_arrivedPackets, mem_arrivedPackets, harrived]
    constructor
    · rintro ⟨-, hn⟩
      exact ⟨hinv.arrived_lt hn, hn⟩
    · rintro ⟨hlt, hn⟩
      exact ⟨by omega, hn⟩
  have hmessages : s'.arrivedMessages.Perm s.arrivedMessages := by
    refine (hpackets.flatMap_right _).trans (List.Perm.of_eq (List.flatMap_congr fun n hn => ?_))
    rw [List.getD_eq_getElem?_getD, List.getD_eq_getElem?_getD,
      getElem?_extended hsent (mem_arrivedPackets.mp hn).1]
  refine ⟨?_, fun hopen => ?_⟩
  · rw [hincoming]
    exact h.once.trans (hsent.sublist.flatMap _).subperm
  · rw [hincoming] at hopen ⊢
    exact (h.all hopen).trans hmessages.symm

theorem Accounted.stepDecoder {s : ReliableLink α} {k slid : Nat} (h : s.Accounted) (hinv : s.Inv k)
    (hopen : s.incoming.isShutdown = false) {incoming : ReliableIncoming α}
    {filled : List (Nat × List (ReliableMessage α))}
    (hadvances : s.incoming.fecDecoder.Advances s.windowStart s.sent.length incoming.fecDecoder)
    (hmoves : s.incoming.fecDecoder.Moves incoming.fecDecoder s.windowStart k slid filled)
    (hfilled : ∀ p ∈ filled, s.sent[s.windowStart + p.1]? = some p.2)
    (howed : incoming.owed.Perm
      (s.incoming.owed ++ filled.flatMap fun p => unorderedMessages p.2)) :
    (s.withIncoming incoming).Accounted := by
  have hall : incoming.owed.Perm (s.withIncoming incoming).arrivedMessages :=
    howed.trans (((h.all hopen).append_right _).trans
      (hinv.arrivedMessages_moved incoming hadvances hmoves hfilled).symm)
  exact ⟨subperm_of_owed hall, fun _ => hall⟩

theorem Accounted.sameDecoder {s : ReliableLink α} {k : Nat} (h : s.Accounted) (hinv : s.Inv k)
    {incoming : ReliableIncoming α} (hdecoder : incoming.fecDecoder = s.incoming.fecDecoder)
    (hdelivered : incoming.delivered = s.incoming.delivered)
    (hopen : s.incoming.isShutdown = false) : (s.withIncoming incoming).Accounted := by
  have hstart : (s.withIncoming incoming).windowStart = s.windowStart := by
    simp only [withIncoming, hdecoder]
    rw [hinv.decoder.columnStart_eq,
      subtractColumns_columnOf (Nat.le_refl _) (by simp [kColumnPeriod])]
    omega
  have hmessages : (s.withIncoming incoming).arrivedMessages = s.arrivedMessages := by
    unfold arrivedMessages arrivedPackets arrived
    rw [hstart]
    simp only [withIncoming, hdecoder]
  have howed : incoming.owed = s.incoming.owed := by
    unfold ReliableIncoming.owed ReliableIncoming.pending
    rw [hdecoder, hdelivered]
  refine ⟨?_, fun _ => ?_⟩
  · simp only [withIncoming, hdelivered]
    exact h.once
  · rw [hmessages]
    simp only [withIncoming, howed]
    exact h.all hopen

/-- A packet that comes in is not in front of the decoder's window, or has no unordered messages. -/
def Prompt (s : ReliableLink α) : Event α → Prop
  | .receive d =>
    s.incoming.antiReplay.isDuplicate (wrap 64 d.nonce) = true ∨
      { s.incoming with antiReplay := s.incoming.antiReplay.accept (wrap 64 d.nonce)
        : ReliableIncoming α }.ignoresReordered d = true ∨
      s.windowStart ≤ d.packetNum ∨ unorderedMessages d.packet = []
  | _ => True

theorem Inv.get_window {s : ReliableLink α} {k n : Nat} (h : s.Inv k)
    (henabled : s.incoming.fecDecoder.emergencyDisabled = false) (hge : s.windowStart ≤ n)
    (hlt : n < s.windowStart + kColumnPeriod) :
    (s.incoming.fecDecoder.get (columnOf n)).1 = .needMoreData ↔
      s.incoming.fecDecoder.window.getWindowElement (n - s.windowStart) = none := by
  have helement := h.decoder.columnToElement_of_ge hge hlt
  unfold Decoder.get
  simp only [henabled, helement, Bool.false_eq_true, if_false]
  split
  · next hinvalid =>
    refine iff_of_true rfl ?_
    have hpast : s.incoming.fecDecoder.window.count ≤ n - s.windowStart := by
      simpa [DecoderPacketWindow.invalidElement] using hinvalid
    have hgot := h.decoder.sound.got_eq (n - s.windowStart)
    cases hg : s.incoming.fecDecoder.window.isGot (n - s.windowStart) with
    | true =>
      have := h.decoder.sound.got_lt _ hg
      omega
    | false =>
      rw [hg] at hgot
      simpa using hgot.symm
  · split
    · next hnone => exact iff_of_true rfl hnone
    · next packet hsome => simp [hsome]

theorem Accounted.processReliable {s : ReliableLink α} {k n : Nat} (h : s.Accounted) (hinv : s.Inv k)
    (hopen : s.incoming.isShutdown = false) (hk : k = s.nextExpected)
    {r : ReliableIncoming α} {packet : List (ReliableMessage α)}
    (hdecoder : r.fecDecoder = s.incoming.fecDecoder) (hr : r.isShutdown = false)
    (hdelivered : r.delivered = s.incoming.delivered)
    (hpacket : s.sent[n]? = some packet) (hlate : s.windowStart ≤ n + kColumnPeriod / 2)
    (hearly : n < s.windowStart + kColumnPeriod / 2)
    (henabled : s.incoming.fecDecoder.emergencyDisabled = false)
    (hprompt : s.windowStart ≤ n ∨ unorderedMessages packet = []) :
    (s.withIncoming (r.processReliable (columnOf n) packet)).Accounted := by
  have hn : n < s.sent.length := (List.getElem?_eq_some_iff.mp hpacket).1
  have hnear : s.sent.length < s.windowStart + kColumnPeriod := by
    have hsent := hinv.sent_le
    have hcount := hinv.decoder.sound.count_le
    have hnext := hinv.decoder.sound.next_le
    unfold nextExpected at hk
    simp only [siameseMaxPackets, kColumnPeriod] at hsent hcount ⊢
    omega
  obtain ⟨hadded, -, -, hgiven, -⟩ :=
    ReliableIncoming.processReliable_keeps hr (hdecoder ▸ henabled) (columnOf n) packet
  rw [hdecoder] at hadded hgiven
  have hadvances := hinv.decoder.addOriginal hn hlate hnear packet
  obtain ⟨filled, hmoves, hrecovered, hhas, hresult⟩ := hinv.decoder.addOriginal_moves hinv.kept
    henabled (columnOf n) packet
  rw [← hadded] at hadvances hmoves hrecovered hhas
  have hpending : (r.processReliable (columnOf n) packet).pending = s.incoming.pending := by
    unfold ReliableIncoming.pending
    rw [hhas, hrecovered]
  rcases hresult with ⟨rfl, -, hdup⟩ | ⟨rfl, -, hpos⟩
  · refine h.stepDecoder hinv hopen hadvances hmoves (by simp) ?_
    have hnothing : (if (s.incoming.fecDecoder.get (columnOf n)).1 = .needMoreData then
        unorderedMessages packet else []) = [] := by
      rcases hprompt with hge | hnone
      · have helement := hinv.decoder.columnToElement_of_ge hge (by omega)
        rw [helement] at hdup
        refine if_neg fun hget => ?_
        rw [hinv.get_window henabled hge (by omega)] at hget
        rcases hdup with hneg | hhave
        · rw [isColumnDeltaNegative_iff] at hneg
          omega
        · rw [hget] at hhave
          cases hhave
      · rw [hnone, ite_self]
    unfold ReliableIncoming.owed
    rw [hpending, hgiven, hnothing, hdelivered]
    simp
  · obtain ⟨hge, helement⟩ := hinv.element_of_original hlate hearly hpos
    rw [helement] at hmoves
    have hmissing := hmoves.missing _ List.mem_cons_self
    refine h.stepDecoder hinv hopen hadvances hmoves (fun p hp => ?_) ?_
    · rw [List.mem_singleton.mp hp, Nat.add_sub_cancel' hge]
      exact hpacket
    · have hfirst := (hinv.get_window henabled hge (by omega)).mpr hmissing
      unfold ReliableIncoming.owed
      rw [hpending, hgiven, if_pos hfirst, hdelivered, List.append_assoc, List.append_assoc]
      refine List.Perm.append_left _ ?_
      simpa using List.perm_append_comm

theorem Accounted.ended {s : ReliableLink α} (h : s.Accounted) {incoming : ReliableIncoming α}
    (hshutdown : incoming.isShutdown = true)
    (hdelivered : incoming.delivered = s.incoming.delivered) :
    (s.withIncoming incoming).Accounted := by
  refine ⟨?_, fun hopen => absurd (hshutdown.symm.trans hopen) (by decide)⟩
  simp only [withIncoming, hdelivered]
  exact h.once

theorem Accounted.receive {s : ReliableLink α} {k : Nat} (h : s.Accounted) (hinv : s.Inv k)
    (hidle : s.Idle) {d : ReliableDatagram α} (hsent : .reliable d ∈ s.datagrams)
    (hregular : s.Regular (.receive d)) (hprompt : s.Prompt (.receive d)) :
    (s.withIncoming (s.incoming.processDatagram d)).Accounted := by
  obtain ⟨hpacket, hpos, hle⟩ := hinv.reliables d hsent
  have hlt : s.incoming.fecNextExpectedPacketNum < kColumnPeriod := by
    rw [hinv.next_eq]
    exact columnOf_lt k
  unfold ReliableIncoming.processDatagram ReliableIncoming.accepting
  simp only
  split
  · exact h.sameDecoder hinv rfl rfl hidle.1
  · next hfresh =>
    split
    · exact h.sameDecoder hinv rfl rfl hidle.1
    · next hordered =>
      rcases hregular with hdup | hignored | ⟨hrange, hlate, -, hearly⟩
      · exact absurd hdup hfresh
      · exact absurd hignored hordered
      rcases hprompt with hdup | hignored | hprompt
      · exact absurd hdup hfresh
      · exact absurd hignored hordered
      rw [ReliableDatagram.partialSeq, (expandSequence_eq_iff hpos hle hlt).mpr hrange]
      cases henabled : s.incoming.fecDecoder.emergencyDisabled with
      | true =>
        obtain ⟨hshutdown, hdelivered⟩ := ReliableIncoming.processReliable_disabled
          (r := { s.incoming with
            antiReplay := s.incoming.antiReplay.accept (wrap 64 d.nonce)
            taken := s.incoming.taken ++ [(columnOf d.packetNum, columnOf d.packetNum)] }) henabled
          (columnOf d.packetNum) d.packet
        exact h.ended hshutdown hdelivered
      | false =>
        exact h.processReliable hinv hidle.1 (hinv.caught_up (hinv.idle hidle.2)) rfl hidle.1 rfl hpacket
          hlate hearly henabled hprompt

theorem Accounted.receiveRecovery {s : ReliableLink α} {k nonce packetEnd : Nat} (h : s.Accounted)
    (hinv : s.Inv k) (hidle : s.Idle) {metadata : RecoveryMetadata}
    {single : Option (List (ReliableMessage α))}
    (hsent : .recovery nonce metadata packetEnd single ∈ s.datagrams)
    {checkedPastThreshold reported : Bool}
    (hregular : s.Regular (.receiveRecovery nonce metadata packetEnd checkedPastThreshold reported)) :
    (s.withIncoming (s.incoming.onRecovery nonce metadata packetEnd single checkedPastThreshold
      reported)).Accounted := by
  have hhas := hinv.idle hidle.2
  unfold ReliableIncoming.onRecovery ReliableIncoming.accepting
  simp only
  split
  · exact h.sameDecoder hinv rfl rfl hidle.1
  · next hfresh =>
    split
    · exact h.ended rfl rfl
    · rcases hregular with hdup | htimely
      · exact absurd hdup hfresh
      obtain ⟨slid, filled, hadvances, hmoves, hreports, hgenuine⟩ :=
        hinv.addRecovery hidle hsent htimely.1 htimely.2 checkedPastThreshold
      refine h.stepDecoder hinv hidle.1 hadvances hmoves hgenuine ?_
      have hnone : s.incoming.pending = [] := by
        unfold ReliableIncoming.pending
        rw [hhas]
        rfl
      unfold ReliableIncoming.owed
      rw [hnone]
      unfold ReliableIncoming.pending
      rcases hreports with ⟨rfl, -, hhas'⟩ | ⟨-, hhas', hrecovered⟩
      · rw [hhas', hhas]
        simp
      · rw [hhas', hrecovered, hhas]
        simp [List.flatMap_map]

theorem Accounted.decode {s : ReliableLink α} {k : Nat} (h : s.Accounted) (hinv : s.Inv k)
    (hopen : s.incoming.isShutdown = false)
    {recovered : List (Nat × List (ReliableMessage α))}
    {decoder : Decoder (List (ReliableMessage α)) Nat}
    (hdecode : s.incoming.fecDecoder.Decode recovered decoder) (hgenuine : s.Genuine recovered)
    (hlast : s.windowStart ≤ s.incoming.fecDecoder.lastEnd + kColumnPeriod / 2) :
    (s.withIncoming (s.incoming.decoded recovered decoder)).Accounted := by
  have hadvances := hinv.decoder.decode hlast hdecode
  obtain ⟨slid, filled, hmoves, hwithin, hcases⟩ := hinv.decoder.decode_moves hinv.kept hlast hdecode
  have hfilled := hinv.decode_genuine hgenuine (by
    rcases hcases with ⟨hnone, -⟩ | ⟨hnone, -⟩ | ⟨-, -, hfound⟩
    · exact .inl hnone
    · exact .inl hnone
    · exact .inr hfound) hwithin
  obtain ⟨hsame, hdelivered, -⟩ := ReliableIncoming.resumeLoop_keeps (decoder.window.count + 1)
    { s.incoming with
      fecDecoder := decoder
      delivered := s.incoming.delivered ++ recovered.flatMap fun p => unorderedMessages p.2 }
  change (s.incoming.decoded recovered decoder).delivered = _ at hdelivered
  have hdecoder : (s.incoming.decoded recovered decoder).fecDecoder = decoder := hsame.fecDecoder
  refine h.stepDecoder hinv hopen (by rw [hdecoder]; exact hadvances)
    (by rw [hdecoder]; exact hmoves) hfilled ?_
  unfold ReliableIncoming.owed
  rw [hdelivered]
  unfold ReliableIncoming.pending
  rw [hdecoder]
  rcases hcases with ⟨rfl, hhas, hhas', rfl⟩ | ⟨rfl, rfl, hrecovered, hhas⟩ | ⟨hhas, hhas', rfl⟩
  · rw [hhas, hhas']
    simp
  · rw [hhas, hrecovered]
    simp
  · rw [hhas, hhas']
    simp [List.flatMap_map]

theorem Accounted.step_ended {s s' : ReliableLink α} {event : Event α} (h : s.Accounted)
    (hended : s.Ended s.incoming) (hstep : Steps s event s') : s'.Accounted := by
  obtain ⟨hshutdown, hdecoding, -⟩ := hended
  have hbusy : ¬ s.Idle := by
    rintro ⟨hopen, -⟩
    rw [hshutdown] at hopen
    cases hopen
  have hkeeps : ∀ s' : ReliableLink α, s'.incoming = s.incoming → s.sent <+: s'.sent →
      s'.Accounted := by
    intro s' hincoming hsent
    refine ⟨?_, fun hopen => ?_⟩
    · rw [hincoming]
      exact h.once.trans (hsent.sublist.flatMap _).subperm
    · rw [hincoming, hshutdown] at hopen
      cases hopen
  cases hstep with
  | send packet nowMsec => exact hkeeps _ rfl (List.prefix_append _ _)
  | retransmit => exact hkeeps _ rfl (List.prefix_refl _)
  | sendRecovery => exact hkeeps _ rfl (List.prefix_refl _)
  | sendUnreliable => exact hkeeps _ rfl (List.prefix_refl _)
  | disableSequenceNumberCompress => exact hkeeps _ rfl (List.prefix_refl _)
  | receive _ hidle => exact absurd hidle hbusy
  | receiveRecovery _ _ _ _ _ _ hidle => exact absurd hidle hbusy
  | receiveUnreliable _ hidle => exact absurd hidle hbusy
  | decode _ _ hbegun => exact absurd (hdecoding.symm.trans hbegun) (by decide)
  | decodeDone hbegun => exact absurd (hdecoding.symm.trans hbegun) (by decide)
  | postAcknowledgements _ _ hidle => exact absurd hidle hbusy
  | acknowledge => exact hkeeps _ rfl (List.prefix_refl _)

theorem Accounted.step {s s' : ReliableLink α} {event : Event α} (h : s.Accounted) (hsound : s.Sound)
    (hregular : s.Regular event) (hprompt : s.Prompt event) (hstep : Steps s event s') :
    s'.Accounted := by
  rcases hsound with ⟨hopen, k, hinv⟩ | hended
  · cases hstep with
    | send packet nowMsec => exact h.sends hinv rfl rfl (List.prefix_append _ _)
    | retransmit => exact h.sends hinv rfl rfl (List.prefix_refl _)
    | sendRecovery => exact h.sends hinv rfl rfl (List.prefix_refl _)
    | sendUnreliable => exact h.sends hinv rfl rfl (List.prefix_refl _)
    | disableSequenceNumberCompress => exact h.sends hinv rfl rfl (List.prefix_refl _)
    | receive d hidle hsent => exact h.receive hinv hidle hsent hregular hprompt
    | receiveRecovery nonce metadata packetEnd single checked reported hidle hsent =>
      exact h.receiveRecovery hinv hidle hsent hregular
    | receiveUnreliable nonce =>
      refine h.sameDecoder hinv ?_ ?_ hopen
      all_goals
        unfold ReliableIncoming.accepting
        split <;> rfl
    | decode recovered decoder _ hdecode hgenuine =>
      exact h.decode hinv hopen hdecode hgenuine hregular
    | decodeDone => exact ⟨h.once, h.all⟩
    | postAcknowledgements => exact ⟨h.once, h.all⟩
    | acknowledge => exact h.sends hinv rfl rfl (List.prefix_refl _)
  · exact h.step_ended hended hstep

/-- No unordered message is delivered more often than it was sent, and when ProcessDatagram has
returned exactly those of the packets that have arrived are delivered, each once; everything in front
of the next expected packet has arrived. -/
def DeliveredOnce (s : ReliableLink α) : Prop :=
  s.incoming.delivered.Subperm (s.sent.flatMap unorderedMessages) ∧
    (s.Idle → s.incoming.delivered.Perm s.arrivedMessages ∧
      ∀ n, n < s.nextExpected → n ∈ s.arrivedPackets)

/-- In every run that meets the conditions for ordered messages, and in which no packet with
unordered messages comes in that is in front of the decoder's window, the unordered messages are
delivered once. -/
theorem unordered_messages_delivered_once (encryptor : SimpleCipher) (events : List (Event α))
    (s : ReliableLink α)
    (hrun : Run (Restrict (fun s event => s.Regular event ∧ s.Prompt event) Steps) (initial encryptor)
      events s) : s.DeliveredOnce := by
  obtain ⟨hsound, haccounted⟩ : s.Sound ∧ s.Accounted :=
    hrun.invariant (P := fun s => s.Sound ∧ s.Accounted)
      ⟨sound_initial encryptor, accounted_initial encryptor⟩
      fun t event u ⟨hsound, h⟩ ⟨⟨hregular, hprompt⟩, hstep⟩ =>
        ⟨hsound.step hregular hstep, h.step hsound hregular hprompt hstep⟩
  refine ⟨haccounted.once, fun hidle => ?_⟩
  rcases hsound with ⟨hopen, k, hinv⟩ | ⟨hshutdown, -⟩
  · have howed := haccounted.all hopen
    unfold ReliableIncoming.owed ReliableIncoming.pending at howed
    rw [hinv.idle hidle.2] at howed
    refine ⟨by simpa using howed, fun n hn => ?_⟩
    have harrived := hinv.arrived_before hn
    exact mem_arrivedPackets.mpr ⟨hinv.arrived_lt harrived, harrived⟩
  · exact absurd (hshutdown.symm.trans hidle.1) (by decide)

def lostFirst : List (Event Nat) :=
  [.send [.unordered 5] 0, .send [.unordered 6] 0, .receive ⟨1, 0, 1, 1, [.unordered 6]⟩, .decodeDone,
    .retransmit 0, .receive ⟨2, 1, 1, 0, [.unordered 5]⟩, .decodeDone,
    .receive ⟨2, 1, 1, 0, [.unordered 5]⟩]

theorem unordered_messages_delivered_once_lostFirst : ∃ s,
    Run (Restrict (fun s event => s.Regular event ∧ s.Prompt event) Steps) (initial noCipher) lostFirst
      s ∧ s.incoming.delivered = [6, 5] ∧ s.DeliveredOnce := by
  obtain ⟨s, hrun, hdelivered⟩ : ∃ s,
      Run (Restrict (fun s event => s.Regular event ∧ s.Prompt event) Steps) (initial noCipher)
        lostFirst s ∧ s.incoming.delivered = [6, 5] := by
    refine ⟨_, .cons ⟨⟨trivial, trivial⟩, .send _ _ 0 rfl⟩ <|
      .cons ⟨⟨trivial, trivial⟩, .send _ _ 0 rfl⟩ <| .cons ⟨⟨?_, ?_⟩, .receive _ _ ⟨rfl, rfl⟩ ?_⟩ <|
      .cons ⟨⟨trivial, trivial⟩, .decodeDone _ rfl rfl⟩ <|
      .cons ⟨⟨trivial, trivial⟩, .retransmit _ 0 _ (fun _ => 0) .initial (Nat.le_refl 0) rfl rfl⟩ <|
      .cons ⟨⟨?_, ?_⟩, .receive _ _ ⟨rfl, rfl⟩ ?_⟩ <|
      .cons ⟨⟨trivial, trivial⟩, .decodeDone _ rfl rfl⟩ <|
      .cons ⟨⟨.inl (by decide), .inl (by decide)⟩, .receive _ _ ⟨rfl, rfl⟩ ?_⟩ (.nil _), rfl⟩
    · exact .inr (.inr ⟨.inr (by decide), by decide, by decide, by decide⟩)
    · exact .inr (.inr (.inl (Nat.zero_le _)))
    · exact List.mem_cons_self
    · exact .inr (.inr ⟨.inr (by decide), by decide, by decide, by decide⟩)
    · exact .inr (.inr (.inl (by decide)))
    · exact List.mem_cons_self
    · exact List.mem_cons_self
  exact ⟨s, hrun, hdelivered, unordered_messages_delivered_once _ _ s hrun⟩

theorem flatMap_unordered_empty (count : Nat) :
    (List.replicate count ([] : List (ReliableMessage α))).flatMap unorderedMessages = [] := by
  rw [List.flatMap_replicate]
  exact List.flatten_replicate_nil

/-- The second copy of packet 0 is not found in the decoder under the number it is read as, and its
message is delivered again. -/
theorem retransmission_delivered_twice :
    ¬ ∀ events, ∀ s : ReliableLink Nat, Run Steps (initial noCipher) events s →
      s.DeliveredOnce := by
  intro hall
  obtain ⟨events, s, -, hrun, hsent, -, -, -, -, -, -, hlength⟩ := overtaken_retransmission noCipher 5
  have hle := (hall events s hrun).1.length_le
  rw [hsent, List.flatMap_cons, flatMap_unordered_empty] at hle
  have hone : (unorderedMessages (bothKinds 5) ++ [] : List Nat).length = 1 := rfl
  omega

end ReliableLink
end Tonk.Session
