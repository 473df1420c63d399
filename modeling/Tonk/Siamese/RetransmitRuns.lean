import Tonk.Siamese.EncoderRuns
import Tonk.Siamese.Link
import Tonk.Siamese.RetransmitChoice

set_option autoImplicit false

namespace Tonk.Siamese
open Protocol Search Transition

namespace DecoderPacketWindow

variable {α : Type}

def lossRangesFit (w : DecoderPacketWindow α) (rangeOffset byteLimit : Nat) : Bool :=
  if _h : kMaxLossRangeFieldBytes ≤ byteLimit then
    let rangeStart := w.findNextLostElement rangeOffset
    if w.count ≤ rangeStart then true
    else
      let rangeEnd := w.findNextGotElement (rangeStart + 1)
      let range := serializeHeaderNACKLossRange (rangeStart - rangeOffset)
        (rangeEnd - rangeStart - 1)
      w.lossRangesFit (rangeEnd + 1) (byteLimit - range.length)
  else false
termination_by byteLimit
decreasing_by
  have hpos := serializeHeaderNACKLossRange_pos (w.findNextLostElement rangeOffset - rangeOffset)
    (w.findNextGotElement (w.findNextLostElement rangeOffset + 1) -
      w.findNextLostElement rangeOffset - 1)
  simp only [kMaxLossRangeFieldBytes] at _h
  omega

def untruncated (w : DecoderPacketWindow α) (byteLimit : Nat) : Bool :=
  let header := serializeHeaderPacketNum (w.elementToColumn w.nextExpectedElement)
  w.invalidElement w.nextExpectedElement ||
    w.lossRangesFit w.nextExpectedElement ((byteLimit + 2 ^ 32 - header.length) % 2 ^ 32)

theorem Sound.lossRangesFit_spec {w : DecoderPacketWindow α} (h : w.Sound)
    (rangeOffset byteLimit : Nat) (hle : rangeOffset ≤ w.count + 1)
    (hprev : rangeOffset = w.count + 1 → w.isGot (w.count - 1) = false)
    (hwhole : w.lossRangesFit rangeOffset byteLimit = true) :
    ∃ rs, w.writeLossRanges rangeOffset byteLimit = wireRanges rs ∧ RangesFit rs ∧
      (lossElements rangeOffset rs = w.missingFrom rangeOffset ++ [w.count] ∨
        lossElements rangeOffset rs = w.missingFrom rangeOffset ∧
          w.isGot (w.count - 1) = false) := by
  have hcount := h.count_le
  have hperiod : kColumnPeriod / 2 < siamesePacketNumCount := by decide
  fun_induction writeLossRanges w rangeOffset byteLimit with
  | case1 rangeOffset byteLimit hlimit rangeStart hall hin =>
    have hfirst : rangeStart = firstFrom (fun e => !w.isGot e) rangeOffset w.count :=
      h.counted.findNextLostElement_eq hin
    have hgot : ∀ k, rangeOffset ≤ k → k < w.count → w.isGot k = true := fun k hk hlt => by
      have hk' := firstFrom_before hk
        (show k < firstFrom (fun e => !w.isGot e) rangeOffset w.count by omega)
      simpa using hk'
    refine ⟨[(w.count - rangeOffset, 0)], by simp [wireRanges], fun r hr => ?_, .inl ?_⟩
    · rw [List.mem_singleton.mp hr]
      exact ⟨by simp only; omega, show 0 < siamesePacketNumCount by decide⟩
    · rw [missingFrom_eq_nil hgot, lossElements_cons]
      simp only [Nat.add_sub_cancel' hin]
      rfl
  | case2 rangeOffset byteLimit hlimit rangeStart hall hout =>
    refine ⟨[], rfl, by simp [RangesFit], .inr ⟨?_, hprev (by omega)⟩⟩
    rw [missingFrom_eq_nil fun k hk hk' => absurd hk' (by omega)]
    rfl
  | case3 rangeOffset byteLimit hlimit rangeStart hlost rangeEnd range ih =>
    have hoffset : rangeOffset ≤ w.count := by
      by_contra hgt
      refine hlost (Nat.le_of_eq ?_)
      simp only [rangeStart, findNextLostElement]
      rw [if_pos (by omega)]
    obtain ⟨hge, hlt, hend, hgot, hmissing⟩ :=
      h.missingFrom_cons (Nat.lt_of_not_le hlost) hoffset
    change rangeOffset ≤ rangeStart at hge
    change rangeStart < rangeEnd at hlt
    change rangeEnd ≤ w.count at hend
    change w.missingFrom rangeOffset = List.range' rangeStart (rangeEnd - rangeStart) ++
      w.missingFrom (rangeEnd + 1) at hmissing
    have hlast : rangeEnd + 1 = w.count + 1 → w.isGot (w.count - 1) = false := by
      intro heq
      have hmem : w.count - 1 ∈ w.missingFrom rangeOffset := by
        rw [hmissing]
        exact List.mem_append_left _ (List.mem_range'_1.mpr (by omega))
      simpa using (List.mem_filter.mp hmem).2
    have hwhole' : w.lossRangesFit (rangeEnd + 1) (byteLimit - range.length) = true := by
      rw [lossRangesFit, dif_pos hlimit] at hwhole
      simpa [rangeStart, hlost] using hwhole
    obtain ⟨rs, hwire, hfit, hcases⟩ := ih (by omega) hlast hwhole'
    have helements : lossElements rangeOffset
        ((rangeStart - rangeOffset, rangeEnd - rangeStart - 1) :: rs) =
        List.range' rangeStart (rangeEnd - rangeStart) ++ lossElements (rangeEnd + 1) rs := by
      rw [lossElements_cons]
      simp only
      rw [Nat.add_sub_cancel' hge, show rangeEnd - rangeStart - 1 + 1 = rangeEnd - rangeStart by
        omega, show rangeStart + (rangeEnd - rangeStart - 1) + 2 = rangeEnd + 1 by omega]
    refine ⟨(rangeStart - rangeOffset, rangeEnd - rangeStart - 1) :: rs, ?_, ?_, ?_⟩
    · rw [wireRanges_cons, hwire]
    · intro r hr
      rcases List.mem_cons.mp hr with rfl | hr
      · exact ⟨by simp only; omega, by simp only; omega⟩
      · exact hfit r hr
    · rw [helements, hmissing]
      rcases hcases with hmarked | ⟨hfull, hnot⟩
      · exact .inl (by rw [hmarked, List.append_assoc])
      · exact .inr ⟨by rw [hfull], hnot⟩
  | case4 rangeOffset byteLimit hlimit =>
    rw [lossRangesFit, dif_neg hlimit] at hwhole
    exact absurd hwhole Bool.false_ne_true

end DecoderPacketWindow

theorem le_of_mem_lossElements {offset : Nat} {rs : List (Nat × Nat)} {l : Nat}
    (hl : l ∈ lossElements offset rs) : offset ≤ l := by
  rw [← Nat.add_zero offset, lossElements_add] at hl
  obtain ⟨x, -, rfl⟩ := List.mem_map.mp hl
  omega

theorem lossElements_pairwise (offset : Nat) (rs : List (Nat × Nat)) :
    (lossElements offset rs).Pairwise (· < ·) := by
  induction rs generalizing offset with
  | nil => exact .nil
  | cons r rs ih =>
    rw [lossElements_cons]
    refine List.pairwise_append.mpr ⟨List.pairwise_lt_range', ih _, fun a ha b hb => ?_⟩
    have hle := le_of_mem_lossElements hb
    rw [List.mem_range'_1] at ha
    omega

theorem le_getLast_lossElements {offset : Nat} {rs : List (Nat × Nat)} {l m : Nat}
    (hlast : (lossElements offset rs).getLast? = some m) (hl : l ∈ lossElements offset rs) :
    l ≤ m := by
  obtain ⟨front, heq⟩ := List.getLast?_eq_some_iff.mp hlast
  have hsorted := lossElements_pairwise offset rs
  rw [heq] at hsorted hl
  rcases List.mem_append.mp hl with hl | hl
  · exact ((List.pairwise_append.mp hsorted).2.2 l hl m (List.mem_singleton_self m)).le
  · exact (List.mem_singleton.mp hl).le

/-- An acknowledgement with the decoder's window it was generated from and the number of the first
packet of that window. -/
structure DecoderAck (α : Type) where
  window : DecoderPacketWindow α
  windowStart : Nat
  byteLimit : Nat
  message : Bytes

/-- The next expected packet and the ranges of an acknowledgement, against the packets it reports as
received. -/
structure Describes (reported : Nat → Bool) (next : Nat) (rs : List (Nat × Nat)) (added : Nat) :
    Prop where
  fit : RangesFit rs
  next_le : next ≤ added
  next_not : reported next = false
  losses : ∀ l ∈ lossElements next rs, reported l = false ∧ l ≤ next + kColumnPeriod / 2
  received : ∀ n, reported n = true → n < next ∨ ∃ l ∈ lossElements next rs, n < l
  received_lt : ∀ n, reported n = true → n < added ∧ n < next + kColumnPeriod / 2

theorem Describes.more {reported : Nat → Bool} {next added added' : Nat}
    {rs : List (Nat × Nat)} (h : Describes reported next rs added) (hle : added ≤ added') :
    Describes reported next rs added' :=
  ⟨h.fit, h.next_le.trans hle, h.next_not, h.losses, h.received, fun n hn =>
    ⟨(h.received_lt n hn).1.trans_le hle, (h.received_lt n hn).2⟩⟩

namespace DecoderAck

variable {α : Type}

def next (a : DecoderAck α) : Nat := a.windowStart + a.window.nextExpectedElement

def reports (a : DecoderAck α) (n : Nat) : Bool :=
  n < a.windowStart || a.window.isGot (n - a.windowStart)

/-- A whole acknowledgement of a decoder that has seen no more than `added` packets. -/
structure Generated (a : DecoderAck α) (added : Nat) : Prop where
  sound : a.window.Sound
  columnStart_eq : a.window.columnStart = columnOf a.windowStart
  count_le : a.windowStart + a.window.count ≤ added
  limit_lt : a.byteLimit < 2 ^ 32
  message_eq : a.window.generateAcknowledgement a.byteLimit = some a.message
  untruncated : a.window.untruncated a.byteLimit = true

theorem reports_add (a : DecoderAck α) (e : Nat) :
    a.reports (a.windowStart + e) = a.window.isGot e := by
  simp [reports]

theorem Generated.describes {a : DecoderAck α} {added : Nat} (h : a.Generated added) :
    ∃ rs, a.message = serializeHeaderPacketNum (columnOf a.next) ++ wireRanges rs ∧
      Describes a.reports a.next rs added := by
  have hnext := h.sound.next_le
  have hhalf := h.sound.count_le
  have hcount := h.count_le
  have hcolumn : a.window.elementToColumn a.window.nextExpectedElement = columnOf a.next := by
    rw [DecoderPacketWindow.elementToColumn, h.columnStart_eq, addColumns_columnOf_right, next]
  have hnot : a.window.isGot a.window.nextExpectedElement = false := by
    by_cases hlt : a.window.nextExpectedElement < a.window.count
    · exact h.sound.at_next hlt
    · by_contra hgot
      exact hlt (h.sound.got_lt _ (by simpa using hgot))
  have hreceived : ∀ n, a.reports n = true →
      n < a.windowStart ∨ ∃ e, n = a.windowStart + e ∧ a.window.isGot e = true ∧
        e < a.window.count := by
    intro n hn
    by_cases hlt : n < a.windowStart
    · exact .inl hlt
    · have hgot : a.window.isGot (n - a.windowStart) = true := by simpa [reports, hlt] using hn
      exact .inr ⟨n - a.windowStart, by omega, hgot, h.sound.got_lt _ hgot⟩
  have hends : ∀ n, a.reports n = true → n < added ∧ n < a.next + kColumnPeriod / 2 := by
    intro n hn
    unfold next
    rcases hreceived n hn with hlt | ⟨e, rfl, -, hlt⟩
    · simp only [kColumnPeriod] at hhalf ⊢
      omega
    · omega
  have hmessage := h.message_eq
  have hwhole := h.untruncated
  unfold DecoderPacketWindow.generateAcknowledgement at hmessage
  unfold DecoderPacketWindow.untruncated at hwhole
  split at hmessage
  · exact absurd hmessage (by simp)
  · simp only [hcolumn] at hmessage hwhole
    split at hmessage
    · next hall =>
      have hall' : a.window.count ≤ a.window.nextExpectedElement := by
        simpa [DecoderPacketWindow.invalidElement] using hall
      refine ⟨[], by simpa [wireRanges] using (Option.some.inj hmessage).symm, by simp [RangesFit],
        by unfold next; omega, by rw [next, reports_add, hnot], by simp [lossElements, rangesFrom],
        fun n hn => .inl ?_, hends⟩
      unfold next
      rcases hreceived n hn with hlt | ⟨e, rfl, -, hlt⟩ <;> omega
    · next hlost =>
      have hlt : a.window.nextExpectedElement < a.window.count := by
        simpa [DecoderPacketWindow.invalidElement] using hlost
      rw [Bool.or_eq_true] at hwhole
      obtain ⟨rs, hwire, hfit, hcases⟩ := h.sound.lossRangesFit_spec _ _ (by omega) (by omega)
        (hwhole.resolve_left hlost)
      have hshift : lossElements a.next rs =
          (lossElements a.window.nextExpectedElement rs).map (a.windowStart + ·) :=
        lossElements_add _ _ _
      have hmissing : ∀ e ∈ a.window.missingFrom a.window.nextExpectedElement,
          a.window.isGot e = false ∧ e < a.window.count := by
        intro e he
        exact ⟨by simpa using (List.mem_filter.mp he).2,
          (DecoderPacketWindow.mem_missingFrom he).2⟩
      have hend : a.window.isGot a.window.count = false := by
        by_contra hgot
        exact absurd (h.sound.got_lt _ (by simpa using hgot)) (Nat.lt_irrefl _)
      refine ⟨rs, by rw [← hwire]; exact (Option.some.inj hmessage).symm, hfit,
        by unfold next; omega, by rw [next, reports_add, hnot], fun l hl => ?_, fun n hn => ?_,
        hends⟩
      · rw [hshift] at hl
        obtain ⟨e, he, rfl⟩ := List.mem_map.mp hl
        simp only [reports_add]
        have hle : a.window.isGot e = false ∧ e ≤ a.window.count := by
          rcases hcases with hmarked | ⟨hfull, -⟩
          · rw [hmarked] at he
            rcases List.mem_append.mp he with he | he
            · exact ⟨(hmissing e he).1, (hmissing e he).2.le⟩
            · rw [List.mem_singleton.mp he]
              exact ⟨hend, Nat.le_refl _⟩
          · rw [hfull] at he
            exact ⟨(hmissing e he).1, (hmissing e he).2.le⟩
        refine ⟨hle.1, ?_⟩
        unfold next
        omega
      · rcases hreceived n hn with hbefore | ⟨e, rfl, hgot, hin⟩
        · exact .inl (by unfold next; omega)
        · refine .inr ?_
          rw [hshift]
          rcases hcases with hmarked | ⟨hfull, hlast⟩
          · exact ⟨a.windowStart + a.window.count, List.mem_map.mpr ⟨a.window.count,
              by rw [hmarked]; simp, rfl⟩, by omega⟩
          · have hne : e ≠ a.window.count - 1 := by
              rintro rfl
              rw [hlast] at hgot
              exact absurd hgot (by decide)
            refine ⟨a.windowStart + (a.window.count - 1), List.mem_map.mpr
              ⟨a.window.count - 1, ?_, rfl⟩, by omega⟩
            rw [hfull]
            refine List.mem_filter.mpr ⟨List.mem_range'_1.mpr (by omega), ?_⟩
            simp [hlast]

theorem generated_of_link {events : List Link.Event} {s : Link}
    (hrun : Run (Restrict Link.Timely Link.Steps) Link.initial events s) {byteLimit : Nat}
    (hlimit : byteLimit < 2 ^ 32) {message : Bytes}
    (hmessage : s.decoder.window.generateAcknowledgement byteLimit = some message)
    (hwhole : s.decoder.window.untruncated byteLimit = true) :
    Generated ⟨s.decoder.window, s.windowStart, byteLimit, message⟩ s.added := by
  have hinv := hrun.invariant (P := Link.Inv) Link.inv_initial
    fun _ _ _ h hstep => h.step hstep.1 hstep.2
  exact ⟨hinv.decoder.sound, hinv.decoder.columnStart_eq, hinv.decoder.count_le, hlimit, hmessage,
    hwhole⟩

end DecoderAck

namespace EncoderAcknowledgementState

theorem onAcknowledgementData_kept (s : EncoderAcknowledgementState) (w : EncoderPacketWindow)
    (nowMsec next : Nat) (rs : List (Nat × Nat)) :
    let message := serializeHeaderPacketNum (columnOf next) ++ wireRanges rs
    let ignored := isColumnDeltaNegative (subtractColumns (columnOf next) s.nextColumnExpected)
    ignored = true ∧ (s.onAcknowledgementData w nowMsec message).state = s ∨
      ignored = false ∧
        (s.onAcknowledgementData w nowMsec message).state.nextColumnExpected = columnOf next ∧
        (s.onAcknowledgementData w nowMsec message).state.data = wireRanges rs := by
  have hread := deserializeHeaderPacketNum_serialize (columnOf_lt next) (wireRanges rs)
  simp only
  unfold onAcknowledgementData
  rw [hread]
  simp only [List.drop_left]
  split
  · next hold => exact .inl ⟨hold, rfl⟩
  · next hnew =>
    refine .inr ⟨by simpa using hnew, ?_⟩
    split
    · next hsame => exact ⟨hsame.1, hsame.2.2.symm⟩
    · exact ⟨(takeLossRanges_window _ w nowMsec).1, takeLossRanges_data _ w nowMsec⟩

theorem length_lossElements_le {rs : List (Nat × Nat)} (hfit : RangesFit rs) (offset : Nat) :
    (lossElements offset rs).length ≤ (wireRanges rs).length * siamesePacketNumCount := by
  induction rs generalizing offset with
  | nil => simp [lossElements, rangesFrom]
  | cons r rs ih =>
    have hpos := serializeHeaderNACKLossRange_pos r.1 r.2
    have hr := (hfit r List.mem_cons_self).2
    have hrest := ih (fun x hx => hfit x (List.mem_cons_of_mem _ hx)) (offset + r.1 + r.2 + 2)
    rw [lossElements_cons, wireRanges_cons, List.length_append, List.length_append,
      List.length_range', Nat.add_mul]
    have := Nat.mul_le_mul_right siamesePacketNumCount hpos
    omega

theorem lossColumns_restart {s : EncoderAcknowledgementState} {next : Nat} {rs : List (Nat × Nat)}
    (hnext : s.nextColumnExpected = columnOf next) (hdata : s.data = wireRanges rs)
    (hfit : RangesFit rs) (hpos : s.hasNegativeAcknowledgements = true) :
    lossColumns s.lossCalls s.restartLossIterator = (lossElements next rs).map columnOf := by
  have hpend : { s with
      offset := 0, lossColumn := s.nextColumnExpected, lossCount := 0 }.Pending next 0 rs :=
    ⟨hnext, rfl, hdata, Nat.zero_le _, hfit⟩
  have hlength := length_lossElements_le hfit next
  cases rs with
  | nil => simp [hasNegativeAcknowledgements, hdata, wireRanges] at hpos
  | cons r rs =>
    obtain ⟨s', hdec, hpend', -⟩ := hpend.decodeNextRange_cons
    have hend : next + r.1 + (r.2 + 1) + 1 = next + r.1 + r.2 + 2 := by omega
    rw [restartLossIterator, hdec, hpend'.lossColumns, hend, ← lossElements_cons,
      List.take_of_length_le]
    rw [List.length_map, lossCalls, hdata]
    exact hlength.trans (Nat.le_succ_of_le (Nat.mul_le_mul_left _ (by decide)))

end EncoderAcknowledgementState

theorem EncoderPacketWindow.add_lastSendMsec {w : EncoderPacketWindow} {nowMsec : Nat}
    (hok : (w.add nowMsec).2 = .success) : (w.add nowMsec).1.lastSendMsec =
      Function.update w.lastSendMsec (if 0 < w.count then w.count else
        w.nextColumn % kColumnLaneCount) (nowMsec % 2 ^ 32) := by
  unfold EncoderPacketWindow.add at hok ⊢
  split at hok
  · exact absurd hok (by simp)
  · next hroom =>
    rw [if_neg hroom]
    simp only
    split <;> rfl

theorem EncoderPacketWindow.removeBefore_lastSendMsec (w : EncoderPacketWindow) (column : Nat) :
    (w.removeBefore column).lastSendMsec = w.lastSendMsec := by
  rcases w.removeBefore_cases column with ⟨hcase, -⟩ | ⟨hcase, -⟩ | ⟨hcase, -⟩ <;> rw [hcase]

theorem TracedEncoder.kept_le_keptAfter (t : TracedEncoder) (column : Nat) :
    t.kept ≤ t.keptAfter column := by
  unfold keptAfter
  simp only
  split
  · exact Nat.le_refl _
  · exact Nat.le_max_left _ _

namespace FullEncoder

/-- What Encode does not touch: the last acknowledgement, the oldest column and the send times, up to
elements that have been removed. -/
structure KeepsSends (e e' : FullEncoder) (removed : Nat) : Prop where
  ack_eq : e'.ack = e.ack
  foundOldest_eq : e'.foundOldest = e.foundOldest
  oldestColumn_eq : e'.oldestColumn = e.oldestColumn
  lastSendMsec_eq : e'.data.window.lastSendMsec = fun element =>
    e.data.window.lastSendMsec (element + removed)

theorem generateSumPacket_keepsSends (e : FullEncoder) : e.KeepsSends e.generateSumPacket.1 0 := by
  refine ⟨rfl, rfl, rfl, ?_⟩
  unfold generateSumPacket SumWorkspace.addLightColumns
  simp only [SumWorkspace.addLightPairs_data, Nat.add_zero]
  exact SumWorkspace.addDenseColumns_induct
    (P := fun d => d.window.lastSendMsec = e.data.window.lastSendMsec)
    (fun d laneIndex sumIndex _ _ hd => by rw [(d.getSum_window laneIndex sumIndex _).1, hd])
    (fun d hd => hd) rfl e.nextRow

theorem chosenPacket_keepsSends (e : FullEncoder) : e.KeepsSends e.chosenPacket.1 0 := by
  have hsum := generateSumPacket_keepsSends
  unfold chosenPacket
  cases e.data.window.encodeBranch with
  | single => exact ⟨rfl, rfl, rfl, rfl⟩
  | cauchy => exact ⟨rfl, rfl, rfl, rfl⟩
  | restartSums =>
    obtain ⟨hack, hfound, holdest, hsends⟩ :=
      hsum { e with data := e.data.resetSums e.data.window.firstUnremovedElement }
    exact ⟨hack, hfound, holdest, hsends⟩
  | stopSums => exact ⟨rfl, rfl, rfl, rfl⟩
  | sums => exact hsum e

theorem add_cases (e : FullEncoder) (nowMsec : Nat) (data : Bytes) :
    (e.add nowMsec data).2 ≠ .success ∧ (e.add nowMsec data).1 = e ∨
      (e.add nowMsec data).2 = .success ∧ (e.data.window.add nowMsec).2 = .success ∧
        (e.add nowMsec data).1.data.window = (e.data.window.add nowMsec).1 := by
  unfold FullEncoder.add
  split
  · exact .inl ⟨by simp, rfl⟩
  · by_cases hok : (e.data.window.add nowMsec).2 = .success
    · obtain ⟨hsuccess, hwindow, -⟩ := EncoderData.add_success data hok rfl
      exact .inr ⟨hsuccess, hok, hwindow⟩
    · have hsame : e.data.add nowMsec data = (e.data, (e.data.window.add nowMsec).2) := by
        unfold EncoderData.add
        exact if_neg hok
      rw [hsame]
      exact .inl ⟨hok, rfl⟩

theorem removeElements_lastSendMsec (w : EncoderPacketWindow) :
    w.removeElements.lastSendMsec = fun element =>
      w.lastSendMsec (element + w.firstUnremovedElement / kSubwindowSize * kSubwindowSize) := by
  simp only [EncoderPacketWindow.removeElements, EncoderPacketWindow.resetSums,
    apply_ite EncoderPacketWindow.lastSendMsec, ite_self]

theorem encode_keepsSends (e : FullEncoder) : e.KeepsSends e.encode.1
    (if e.emergencyDisabled = false ∧ 0 < e.data.window.count ∧
        kEncoderRemoveThreshold ≤ e.data.window.firstUnremovedElement then
      e.data.window.firstUnremovedElement / kSubwindowSize * kSubwindowSize else 0) := by
  cases hoff : e.emergencyDisabled with
  | true =>
    have hnone : e.encode.1 = e := by simp [encode, hoff]
    rw [hnone]
    exact ⟨rfl, rfl, rfl, rfl⟩
  | false =>
    by_cases hpos : 0 < e.data.window.count
    · simp only [encode_eq hoff hpos, true_and, hpos]
      by_cases hremove : kEncoderRemoveThreshold ≤ e.data.window.firstUnremovedElement
      · simp only [hremove, if_true]
        obtain ⟨hack, hfound, holdest, hsends⟩ :=
          chosenPacket_keepsSends { e with data := e.data.removeElements }
        refine ⟨hack, hfound, holdest, hsends.trans ?_⟩
        simp only [EncoderData.removeElements_window, removeElements_lastSendMsec, Nat.add_zero]
      · simp only [hremove, if_false]
        exact e.chosenPacket_keepsSends
    · have hnone : e.encode.1 = e := by simp [encode, Nat.eq_zero_of_not_pos hpos]
      rw [hnone]
      simp only [hpos, false_and, and_false, if_false]
      exact ⟨rfl, rfl, rfl, rfl⟩

end FullEncoder

/-- The encoder and its packets, the timeout, the time of the last call, what the last acknowledgement
taken reports as received, and when which packet was added or returned by Retransmit. -/
structure Retransmissions where
  traced : TracedEncoder
  rto : RTOEstimate
  now : Nat
  reported : Nat → Bool
  sends : List (Nat × Nat)

namespace Retransmissions

inductive Event (α : Type) where
  | add (nowMsec : Nat) (data : Bytes)
  | removeBefore (firstKeptColumn : Nat)
  | acknowledge (ack : DecoderAck α) (nowMsec : Nat)
  | retransmit (nowMsec : Nat)
  | encode

variable {α : Type}

def initial : Retransmissions := ⟨.initial, .initial, 0, fun _ => false, []⟩

def timed (s : Retransmissions) : TimedEncoder := ⟨s.traced.encoder, s.rto⟩

/-- The encoder takes the acknowledgement, unless it is an older one. -/
def takes (s : Retransmissions) (ack : DecoderAck α) : Bool :=
  !s.traced.encoder.emergencyDisabled && !isColumnDeltaNegative
    (subtractColumns (columnOf ack.next) s.traced.encoder.ack.nextColumnExpected)

def numberOf (s : Retransmissions) (column : Nat) : Nat :=
  s.traced.base + subtractColumns column (columnOf s.traced.base)

def apply (s : Retransmissions) : Event α → Retransmissions
  | .add nowMsec data =>
    { s with
      traced := s.traced.step (.add nowMsec data)
      now := nowMsec
      sends := if (s.traced.encoder.add nowMsec data).2 = .success then
        (s.traced.packets.length, nowMsec) :: s.sends else s.sends }
  | .removeBefore firstKeptColumn =>
    { s with traced := s.traced.step (.removeBefore firstKeptColumn) }
  | .acknowledge ack nowMsec =>
    { s with
      traced := s.traced.step (.acknowledge nowMsec ack.message)
      rto := (s.timed.acknowledge nowMsec ack.message).1.rto
      now := nowMsec
      reported := if s.takes ack then ack.reports else s.reported }
  | .retransmit nowMsec =>
    let (_, _, original) := s.timed.retransmit nowMsec
    { s with
      traced := s.traced.step (.retransmit nowMsec s.rto.retransmitTimeoutMsec)
      now := nowMsec
      sends := match original with
        | none => s.sends
        | some original => (s.numberOf original.column, nowMsec) :: s.sends }
  | .encode => { s with traced := s.traced.step .encode }

/-- Time does not go back, and acknowledgements come from a decoder. -/
def Permitted (s : Retransmissions) : Event α → Prop
  | .add nowMsec _ => s.now ≤ nowMsec
  | .acknowledge ack nowMsec => ack.Generated s.traced.packets.length ∧ s.now ≤ nowMsec
  | .retransmit nowMsec => s.now ≤ nowMsec
  | _ => True

def Step (s : Retransmissions) (event : Event α) (s' : Retransmissions) : Prop :=
  s.Permitted event ∧ s' = s.apply event

/-- An acknowledgement that is taken while a column is remembered as the oldest does not report the
packet of that column as received. -/
def OldestMissing (s : Retransmissions) : Event α → Prop
  | .acknowledge ack _ => s.takes ack = true → s.traced.encoder.foundOldest = true →
    ∀ n, s.traced.kept ≤ n → n < s.traced.packets.length →
      columnOf n = s.traced.encoder.oldestColumn → ack.reports n = false
  | _ => True

structure Described (s : Retransmissions) : Prop where
  traced : s.traced.Inv
  acked : ∃ next rs, s.traced.encoder.ack.nextColumnExpected = columnOf next ∧
    s.traced.encoder.ack.data = wireRanges rs ∧
    Describes s.reported next rs s.traced.packets.length

theorem described_initial : initial.Described :=
  ⟨TracedEncoder.inv_initial, 0, [], rfl, rfl, by simp [RangesFit], Nat.le_refl 0, rfl,
    by simp [lossElements, rangesFrom], nofun, nofun⟩

/-- The elements that Retransmit may choose are not removed, and all but the one remembered stand
for packets that are not reported. -/
theorem Described.candidates {s : Retransmissions} (h : s.Described) {Q : Nat → Prop}
    (hmissing : ∀ element, s.reported (s.traced.base + element) = false → Q element)
    (holdest : s.traced.encoder.foundOldest = true → ∀ element,
      element = subtractColumns s.traced.encoder.oldestColumn
        s.traced.encoder.data.window.columnStart →
      s.traced.encoder.data.window.firstUnremovedElement ≤ element →
      element < s.traced.encoder.data.window.count → Q element) :
    s.traced.encoder.Candidates fun element =>
      s.traced.encoder.data.window.firstUnremovedElement ≤ element ∧
        element < s.traced.encoder.data.window.count ∧ Q element := by
  obtain ⟨next, rs, hnext, hdata, hdesc⟩ := h.acked
  refine ⟨fun hpos hkept hlt => ?_⟩
  have hcount := h.traced.holds.count_eq (by omega)
  have hmax := h.traced.holds.count_le
  have hstart := h.traced.holds.columnStart_eq
  have hle := hdesc.next_le
  rw [isColumnDeltaNegative_eq_false_iff] at hpos
  rw [hnext, hstart] at hpos hkept hlt ⊢
  generalize hfirst : subtractColumns (columnOf next) (columnOf s.traced.base) = firstElement
    at hpos hkept hlt ⊢
  -- The next expected packet is where its column says, or it is so old that nothing is reported.
  have hplace : next = s.traced.base + firstElement ∨
      ∀ n, s.traced.base ≤ n → s.reported n = false := by
    simp only [siameseMaxPackets] at hmax
    rcases Nat.lt_or_ge next s.traced.base with hbehind | hahead
    · refine .inr fun n hn => ?_
      by_contra hreported
      obtain ⟨-, hnear⟩ := hdesc.received_lt n (by simpa using hreported)
      simp only [kColumnPeriod] at hpos hnear
      rw [subtractColumns_columnOf_neg hbehind (by simp only [kColumnPeriod]; omega)] at hfirst
      simp only [kColumnPeriod] at hfirst
      omega
    · rw [subtractColumns_columnOf hahead (by simp only [kColumnPeriod]; omega)] at hfirst
      exact .inl (by omega)
  have hloss : ∀ l ∈ lossElements next rs, next ≤ l ∧
      s.traced.encoder.data.window.columnToElement (columnOf l) = firstElement + (l - next) := by
    intro l hl
    have hnear := (hdesc.losses l hl).2
    have hge := le_of_mem_lossElements hl
    have hcast := subtractColumns_cast (columnOf l) (columnOf s.traced.base)
    have hcast' := subtractColumns_cast (columnOf next) (columnOf s.traced.base)
    refine ⟨hge, ?_⟩
    rw [EncoderPacketWindow.columnToElement, hstart]
    rw [hfirst] at hcast'
    simp only [siameseMaxPackets, kColumnPeriod, columnOf] at hcast hcast' hmax hnear ⊢
    omega
  have hunreported : ∀ element, firstElement ≤ element →
      (next = s.traced.base + firstElement → s.reported (s.traced.base + element) = false) →
      element < s.traced.encoder.data.window.count →
      s.traced.encoder.data.window.firstUnremovedElement ≤ element ∧
        element < s.traced.encoder.data.window.count ∧ Q element := by
    intro element hge hreported hlt
    refine ⟨hkept.trans hge, hlt, hmissing element ?_⟩
    rcases hplace with hplace | hnone
    · exact hreported hplace
    · exact hnone _ (Nat.le_add_right _ _)
  refine ⟨hunreported _ (Nat.le_refl _) (fun hplace => by rw [← hplace, hdesc.next_not]) hlt,
    fun hfound element helement hge hlt => ?_, fun hnone element hge hlt => ?_, fun hsome => ?_⟩
  · exact ⟨hkept.trans hge, hlt, holdest hfound element (by rw [helement, hstart])
      (hkept.trans hge) hlt⟩
  · refine hunreported element hge.le (fun hplace => ?_) hlt
    have hrs : lossElements next rs = [] := by
      cases rs with
      | nil => rfl
      | cons r rs =>
        have hpos := serializeHeaderNACKLossRange_pos r.1 r.2
        simp only [EncoderAcknowledgementState.hasNegativeAcknowledgements, hdata, wireRanges_cons,
          List.length_append, decide_eq_false_iff_not] at hnone
        omega
    by_contra hreported
    rcases hdesc.received _ (by simpa using hreported) with hbefore | ⟨l, hl, -⟩
    · omega
    · rw [hrs] at hl
      exact absurd hl List.not_mem_nil
  · rw [EncoderAcknowledgementState.lossColumns_restart hnext hdata hdesc.fit hsome]
    refine ⟨fun column hcolumn hlt => ?_, fun element hlast hlt => ?_⟩
    · obtain ⟨l, hl, rfl⟩ := List.mem_map.mp hcolumn
      obtain ⟨hge, hplaced⟩ := hloss l hl
      rw [hplaced] at hlt ⊢
      refine hunreported _ (Nat.le_add_right _ _) (fun hplace => ?_) hlt
      rw [show s.traced.base + (firstElement + (l - next)) = l by omega]
      exact (hdesc.losses l hl).1
    · rw [List.getLast?_map, Option.map_map] at hlast
      cases hlosses : (lossElements next rs).getLast? with
      | none =>
        rw [hlosses] at hlast
        refine hunreported element hlast.le (fun hplace => ?_) hlt
        by_contra hreported
        rcases hdesc.received _ (by simpa using hreported) with hbefore | ⟨l, hl, -⟩
        · simp only [Option.map_none, Option.getD_none] at hlast
          omega
        · rw [List.getLast?_eq_none_iff.mp hlosses] at hl
          exact absurd hl List.not_mem_nil
      | some m =>
        rw [hlosses] at hlast
        obtain ⟨hge, hplaced⟩ := hloss m (List.mem_of_getLast? hlosses)
        simp only [Option.map_some, Option.getD_some, Function.comp_apply, hplaced] at hlast
        refine hunreported element (by omega) (fun hplace => ?_) hlt
        by_contra hreported
        rcases hdesc.received _ (by simpa using hreported) with hbefore | ⟨l, hl, hlater⟩
        · omega
        · have hle := le_getLast_lossElements hlosses hl
          omega

/-- What the calls other than Acknowledge and Retransmit leave alone. -/
structure KeepsAck (s s' : Retransmissions) : Prop where
  ack_eq : s'.traced.encoder.ack = s.traced.encoder.ack
  foundOldest_eq : s'.traced.encoder.foundOldest = s.traced.encoder.foundOldest
  oldestColumn_eq : s'.traced.encoder.oldestColumn = s.traced.encoder.oldestColumn
  reported_eq : s'.reported = s.reported
  kept_le : s.traced.kept ≤ s'.traced.kept
  length_le : s.traced.packets.length ≤ s'.traced.packets.length

theorem keepsAck_add (s : Retransmissions) (nowMsec : Nat) (data : Bytes) :
    s.KeepsAck (s.apply (.add nowMsec data : Event α)) := by
  have hadd : (s.traced.encoder.add nowMsec data).1.ack = s.traced.encoder.ack ∧
      (s.traced.encoder.add nowMsec data).1.foundOldest = s.traced.encoder.foundOldest ∧
      (s.traced.encoder.add nowMsec data).1.oldestColumn = s.traced.encoder.oldestColumn := by
    unfold FullEncoder.add
    split <;> exact ⟨rfl, rfl, rfl⟩
  simp only [apply, TracedEncoder.step]
  split
  · exact ⟨hadd.1, hadd.2.1, hadd.2.2, rfl, Nat.le_refl _, by simp⟩
  · exact ⟨hadd.1, hadd.2.1, hadd.2.2, rfl, Nat.le_refl _, Nat.le_refl _⟩

theorem keepsAck_removeBefore (s : Retransmissions) (column : Nat) :
    s.KeepsAck (s.apply (.removeBefore column : Event α)) := by
  simp only [apply, TracedEncoder.step, FullEncoder.removeBefore]
  split
  · exact ⟨rfl, rfl, rfl, rfl, Nat.le_refl _, Nat.le_refl _⟩
  · exact ⟨rfl, rfl, rfl, rfl, TracedEncoder.kept_le_keptAfter _ _, Nat.le_refl _⟩

theorem keepsAck_encode (s : Retransmissions) : s.KeepsAck (s.apply (.encode : Event α)) := by
  obtain ⟨hack, hfound, holdest, -⟩ := s.traced.encoder.encode_keepsSends
  exact ⟨hack, hfound, holdest, rfl, Nat.le_refl _, Nat.le_refl _⟩

theorem Described.of_keepsAck {s s' : Retransmissions} (h : s.Described) (hkeeps : s.KeepsAck s')
    (htraced : s'.traced.Inv) : s'.Described := by
  obtain ⟨next, rs, hnext, hdata, hdesc⟩ := h.acked
  refine ⟨htraced, next, rs, ?_, ?_, ?_⟩
  · rw [hkeeps.ack_eq, hnext]
  · rw [hkeeps.ack_eq, hdata]
  · rw [hkeeps.reported_eq]
    exact hdesc.more hkeeps.length_le

theorem Described.acknowledge {s : Retransmissions} (h : s.Described) {ack : DecoderAck α}
    (hack : ack.Generated s.traced.packets.length) (nowMsec : Nat) :
    (s.apply (.acknowledge ack nowMsec)).Described := by
  obtain ⟨next, rs, hnext, hdata, hdesc⟩ := h.acked
  obtain ⟨rs', hmessage, hdesc'⟩ := hack.describes
  refine ⟨h.traced.acknowledge nowMsec ack.message, ?_⟩
  simp only [apply, takes, TracedEncoder.step, FullEncoder.acknowledge]
  by_cases hoff : s.traced.encoder.emergencyDisabled = true
  · simp only [hoff, if_true, Bool.not_true, Bool.false_and, Bool.false_eq_true, if_false]
    exact ⟨next, rs, hnext, hdata, hdesc⟩
  · simp only [hoff, Bool.false_eq_true, if_false, Bool.not_false, Bool.true_and]
    have hkept := s.traced.encoder.ack.onAcknowledgementData_kept s.traced.encoder.data.window
      nowMsec ack.next rs'
    rw [← hmessage] at hkept
    rcases hkept with ⟨hignored, hsame⟩ | ⟨htaken, hnext', hdata'⟩
    · rw [hignored, hsame]
      exact ⟨next, rs, hnext, hdata, hdesc⟩
    · rw [htaken]
      exact ⟨ack.next, rs', hnext', hdata', hdesc'⟩

theorem Described.retransmitted {s : Retransmissions} (h : s.Described) {Q : Nat → Prop}
    (hmissing : ∀ element, s.reported (s.traced.base + element) = false → Q element)
    (holdest : s.traced.encoder.foundOldest = true → ∀ element,
      element = subtractColumns s.traced.encoder.oldestColumn
        s.traced.encoder.data.window.columnStart →
      s.traced.encoder.data.window.firstUnremovedElement ≤ element →
      element < s.traced.encoder.data.window.count → Q element) (nowMsec : Nat) :
    s.traced.encoder.Retransmitted (s.timed.retransmit nowMsec).1.encoder (nowMsec % 2 ^ 32)
      s.rto.retransmitTimeoutMsec (fun element =>
        s.traced.encoder.data.window.firstUnremovedElement ≤ element ∧
          element < s.traced.encoder.data.window.count ∧ Q element)
      (s.timed.retransmit nowMsec).2.2 :=
  (h.candidates hmissing holdest).retransmit nowMsec s.rto.retransmitTimeoutMsec

theorem Described.retransmit {s : Retransmissions} (h : s.Described) (nowMsec : Nat) :
    (s.apply (.retransmit nowMsec : Event α)).Described := by
  obtain ⟨next, rs, hnext, hdata, hdesc⟩ := h.acked
  have hspec := h.retransmitted (Q := fun _ => True) (fun _ _ => trivial)
    (fun _ _ _ _ _ => trivial) nowMsec
  refine ⟨h.traced.step (.retransmit nowMsec s.rto.retransmitTimeoutMsec), next, rs, ?_, ?_, hdesc⟩
  · exact hspec.ack_next.trans hnext
  · exact hspec.ack_data.trans hdata

theorem Described.step {s s' : Retransmissions} (h : s.Described) {event : Event α}
    (hstep : s.Step event s') : s'.Described := by
  obtain ⟨hpermitted, rfl⟩ := hstep
  cases event with
  | add nowMsec data =>
    exact h.of_keepsAck (s.keepsAck_add nowMsec data) (h.traced.step (.add nowMsec data))
  | removeBefore column =>
    exact h.of_keepsAck (s.keepsAck_removeBefore column) (h.traced.step (.removeBefore column))
  | acknowledge ack nowMsec => exact h.acknowledge hpermitted.1 nowMsec
  | retransmit nowMsec => exact h.retransmit nowMsec
  | encode => exact h.of_keepsAck s.keepsAck_encode (h.traced.step .encode)

theorem Described.packet {s : Retransmissions} (h : s.Described) {element : Nat}
    (hge : s.traced.encoder.data.window.firstUnremovedElement ≤ element)
    (hlt : element < s.traced.encoder.data.window.count) :
    s.traced.encoder.data.getWindowElement element =
        packetOf s.traced.packets (s.traced.base + element) ∧
      s.traced.kept ≤ s.traced.base + element ∧
      s.traced.base + element < s.traced.packets.length ∧
      s.numberOf (columnOf (s.traced.base + element)) = s.traced.base + element := by
  have hpos : 0 < s.traced.encoder.data.window.count := by omega
  have hcount := h.traced.holds.count_eq hpos
  have hfirst := h.traced.holds.first_le hpos
  have hmax := h.traced.holds.count_le
  have hkept := h.traced.kept_eq
  rw [if_pos hpos] at hkept
  refine ⟨h.traced.holds.contents element hlt (by omega), by omega, by omega, ?_⟩
  simp only [siameseMaxPackets] at hmax
  rw [numberOf, subtractColumns_columnOf (Nat.le_add_right _ _) (by simp only [kColumnPeriod]; omega)]
  omega

/-- The remembered column is not that of a packet that has been reported. -/
structure OldestUnreported (s : Retransmissions) : Prop where
  column_lt : s.traced.encoder.foundOldest = true →
    s.traced.encoder.oldestColumn < kColumnPeriod
  unreported : s.traced.encoder.foundOldest = true → ∀ n, s.traced.kept ≤ n →
    n < s.traced.packets.length → columnOf n = s.traced.encoder.oldestColumn → s.reported n = false

theorem OldestUnreported.of_keepsAck {s s' : Retransmissions} (h : s.OldestUnreported)
    (hdescribed : s.Described) (hkeeps : s.KeepsAck s') : s'.OldestUnreported := by
  obtain ⟨next, rs, -, -, hdesc⟩ := hdescribed.acked
  refine ⟨?_, fun hfound n hkept hlt hcolumn => ?_⟩
  · rw [hkeeps.oldestColumn_eq, hkeeps.foundOldest_eq]
    exact h.column_lt
  rw [hkeeps.foundOldest_eq] at hfound
  rw [hkeeps.oldestColumn_eq] at hcolumn
  rw [hkeeps.reported_eq]
  by_cases hold : n < s.traced.packets.length
  · exact h.unreported hfound n (hkeeps.kept_le.trans hkept) hold hcolumn
  · by_contra hreported
    exact hold (hdesc.received_lt n (by simpa using hreported)).1

theorem OldestUnreported.acknowledge {s : Retransmissions} (h : s.OldestUnreported)
    {ack : DecoderAck α} {nowMsec : Nat} (hmissing : s.OldestMissing (.acknowledge ack nowMsec)) :
    (s.apply (.acknowledge ack nowMsec)).OldestUnreported := by
  have hsame : (s.traced.encoder.acknowledge nowMsec ack.message).1.foundOldest =
        s.traced.encoder.foundOldest ∧
      (s.traced.encoder.acknowledge nowMsec ack.message).1.oldestColumn =
        s.traced.encoder.oldestColumn := by
    unfold FullEncoder.acknowledge
    split <;> exact ⟨rfl, rfl⟩
  have hkept : s.traced.kept ≤ (s.apply (.acknowledge ack nowMsec)).traced.kept := by
    simp only [apply, TracedEncoder.step]
    split
    · exact TracedEncoder.kept_le_keptAfter _ _
    · exact Nat.le_refl _
  refine ⟨fun hfound => hsame.2.trans_lt (h.column_lt (hsame.1 ▸ hfound)),
    fun hfound n hn hlt hcolumn => ?_⟩
  have hfound' : s.traced.encoder.foundOldest = true := hsame.1 ▸ hfound
  have hcolumn' : columnOf n = s.traced.encoder.oldestColumn := hcolumn.trans hsame.2
  simp only [apply]
  split
  · next htakes => exact hmissing htakes hfound' n (hkept.trans hn) hlt hcolumn'
  · exact h.unreported hfound' n (hkept.trans hn) hlt hcolumn'

theorem Described.unreported {s : Retransmissions} (h : s.Described) (hold : s.OldestUnreported)
    (nowMsec : Nat) :
    s.traced.encoder.Retransmitted (s.timed.retransmit nowMsec).1.encoder (nowMsec % 2 ^ 32)
      s.rto.retransmitTimeoutMsec (fun element =>
        s.traced.encoder.data.window.firstUnremovedElement ≤ element ∧
          element < s.traced.encoder.data.window.count ∧
          s.reported (s.traced.base + element) = false)
      (s.timed.retransmit nowMsec).2.2 := by
  refine h.retransmitted (fun _ hmissing => hmissing) (fun hfound element helement hge hlt => ?_)
    nowMsec
  obtain ⟨-, hkept, hin, -⟩ := h.packet hge hlt
  refine hold.unreported hfound _ hkept hin ?_
  have hlt' := hold.column_lt hfound
  have hcast := subtractColumns_cast s.traced.encoder.oldestColumn (columnOf s.traced.base)
  rw [helement, h.traced.holds.columnStart_eq]
  simp only [columnOf, kColumnPeriod] at hcast hlt' ⊢
  omega

theorem OldestUnreported.retransmit {s : Retransmissions} (h : s.OldestUnreported)
    (hdescribed : s.Described) (nowMsec : Nat) :
    (s.apply (.retransmit nowMsec : Event α)).OldestUnreported := by
  have hspec := hdescribed.unreported h nowMsec
  have hremembered : (s.timed.retransmit nowMsec).1.encoder.foundOldest = true →
      (s.timed.retransmit nowMsec).1.encoder.oldestColumn < kColumnPeriod ∧
        ∀ n, s.traced.kept ≤ n → n < s.traced.packets.length →
          columnOf n = (s.timed.retransmit nowMsec).1.encoder.oldestColumn →
          s.reported n = false := by
    intro hfound
    rcases hspec.chosen with ⟨-, -, hchosen⟩ | ⟨element, -, hattempt⟩
    · rcases hchosen hfound with ⟨hfound, hcolumn⟩ | ⟨element, ⟨hge, hlt, hmissing⟩, hcolumn⟩
      · rw [hcolumn]
        exact ⟨h.column_lt hfound, h.unreported hfound⟩
      · obtain ⟨hpacket, hkept, hin, -⟩ := hdescribed.packet hge hlt
        have hmax := hdescribed.traced.holds.count_le
        have hcount := hdescribed.traced.holds.count_eq (by omega)
        have hkept_eq := hdescribed.traced.kept_eq
        rw [if_pos (by omega)] at hkept_eq
        simp only [siameseMaxPackets] at hmax
        rw [hcolumn, hpacket]
        refine ⟨columnOf_lt _, fun n hn hn' hsame => ?_⟩
        have hsame' : columnOf n = columnOf (s.traced.base + element) := hsame
        have heq : n = s.traced.base + element := by
          rcases Nat.le_total n (s.traced.base + element) with hle | hle
          · exact columnOf_inj hsame' hle (by simp only [kColumnPeriod]; omega)
          · exact (columnOf_inj hsame'.symm hle (by simp only [kColumnPeriod]; omega)).symm
        rw [heq, hmissing]
    · rw [hattempt.foundOldest_eq] at hfound
      exact absurd hfound Bool.false_ne_true
  exact ⟨fun hfound => (hremembered hfound).1, fun hfound => (hremembered hfound).2⟩

theorem OldestUnreported.step {s s' : Retransmissions} (h : s.OldestUnreported)
    (hdescribed : s.Described) {event : Event α} (hmissing : s.OldestMissing event)
    (hstep : s.Step event s') : s'.OldestUnreported := by
  obtain ⟨hpermitted, rfl⟩ := hstep
  cases event with
  | add nowMsec data => exact h.of_keepsAck hdescribed (s.keepsAck_add nowMsec data)
  | removeBefore column => exact h.of_keepsAck hdescribed (s.keepsAck_removeBefore column)
  | acknowledge ack nowMsec => exact h.acknowledge hmissing
  | retransmit nowMsec => exact h.retransmit hdescribed nowMsec
  | encode => exact h.of_keepsAck hdescribed s.keepsAck_encode

/-- The send time of a packet not removed is that of its last entry in the log, up to overflow. -/
structure Waited (s : Retransmissions) : Prop where
  times : ∀ n, s.traced.kept ≤ n → n < s.traced.packets.length → ∃ sentAt, sentAt ≤ s.now ∧
    s.traced.encoder.data.window.lastSendMsec (n - s.traced.base) = sentAt % 2 ^ 32 ∧
    ∀ t, (n, t) ∈ s.sends → t ≤ sentAt
  sends_lt : ∀ send ∈ s.sends, send.1 < s.traced.packets.length

theorem waited_initial : initial.Waited :=
  ⟨fun _ _ hlt => absurd hlt (Nat.not_lt_zero _), nofun⟩

theorem Waited.same {s s' : Retransmissions} (h : s.Waited) (hsends : s'.sends = s.sends)
    (hnow : s.now ≤ s'.now) (hkept : s.traced.kept ≤ s'.traced.kept)
    (hlength : s'.traced.packets.length = s.traced.packets.length)
    (htimes : ∀ n, s'.traced.kept ≤ n → n < s.traced.packets.length →
      s'.traced.encoder.data.window.lastSendMsec (n - s'.traced.base) =
        s.traced.encoder.data.window.lastSendMsec (n - s.traced.base)) : s'.Waited := by
  refine ⟨fun n hn hlt => ?_, fun send hsend => ?_⟩
  · rw [hlength] at hlt
    obtain ⟨sentAt, hle, htime, hlog⟩ := h.times n (hkept.trans hn) hlt
    exact ⟨sentAt, hle.trans hnow, (htimes n hn hlt).trans htime, by rw [hsends]; exact hlog⟩
  · rw [hlength]
    exact h.sends_lt send (hsends ▸ hsend)

theorem Waited.add {s : Retransmissions} (h : s.Waited) (htraced : s.traced.Inv) {nowMsec : Nat}
    (hnow : s.now ≤ nowMsec) (data : Bytes) :
    (s.apply (.add nowMsec data : Event α)).Waited := by
  rcases s.traced.encoder.add_cases nowMsec data with ⟨hfull, hsame⟩ | ⟨hok, hroom, hwindow⟩
  · refine h.same ?_ hnow ?_ ?_ fun n _ _ => ?_ <;>
      simp only [apply, TracedEncoder.step, if_neg hfull, hsame]
    exact Nat.le_refl _
  · have hsends : (s.apply (.add nowMsec data : Event α)).sends =
        (s.traced.packets.length, nowMsec) :: s.sends := if_pos hok
    have hlength : (s.apply (.add nowMsec data : Event α)).traced.packets.length =
        s.traced.packets.length + 1 := by
      simp only [apply, TracedEncoder.step, if_pos hok, List.length_append, List.length_singleton]
    have hkept : (s.apply (.add nowMsec data : Event α)).traced.kept = s.traced.kept := by
      simp only [apply, TracedEncoder.step, if_pos hok]
    have hbase : (s.apply (.add nowMsec data : Event α)).traced.base =
        if 0 < s.traced.encoder.data.window.count then s.traced.base else
          s.traced.packets.length - s.traced.packets.length % kColumnLaneCount := by
      simp only [apply, TracedEncoder.step, if_pos hok]
    have htimes : (s.apply (.add nowMsec data : Event α)).traced.encoder.data.window.lastSendMsec =
        Function.update s.traced.encoder.data.window.lastSendMsec
          (if 0 < s.traced.encoder.data.window.count then s.traced.encoder.data.window.count else
            s.traced.encoder.data.window.nextColumn % kColumnLaneCount) (nowMsec % 2 ^ 32) := by
      simp only [apply, TracedEncoder.step, if_pos hok, hwindow]
      exact EncoderPacketWindow.add_lastSendMsec hroom
    have hlane : s.traced.encoder.data.window.nextColumn % kColumnLaneCount =
        s.traced.packets.length % kColumnLaneCount := by
      rw [htraced.holds.nextColumn_eq, columnOf]
      simp only [kColumnPeriod, kColumnLaneCount]
      omega
    have hmod := Nat.mod_le s.traced.packets.length kColumnLaneCount
    have hkept_eq := htraced.kept_eq
    refine ⟨fun n hn hlt => ?_, fun send hsend => ?_⟩
    · rw [hkept] at hn
      rw [hlength] at hlt
      rw [hsends, hbase, htimes, hlane]
      by_cases hnew : n = s.traced.packets.length
      · refine ⟨nowMsec, Nat.le_refl _, ?_, fun t ht => ?_⟩
        · by_cases hpos : 0 < s.traced.encoder.data.window.count
          · have hcount := htraced.holds.count_eq hpos
            simp only [if_pos hpos]
            rw [show n - s.traced.base = s.traced.encoder.data.window.count by omega,
              Function.update_self]
          · simp only [if_neg hpos]
            rw [show n - (s.traced.packets.length - s.traced.packets.length % kColumnLaneCount) =
              s.traced.packets.length % kColumnLaneCount by omega, Function.update_self]
        · rcases List.mem_cons.mp ht with ht | ht
          · cases ht
            exact Nat.le_refl _
          · exact absurd (h.sends_lt _ ht) (by simp only; omega)
      · have hpos : 0 < s.traced.encoder.data.window.count := by
          by_contra hempty
          rw [if_neg hempty] at hkept_eq
          omega
        have hcount := htraced.holds.count_eq hpos
        obtain ⟨sentAt, hle, htime, hlog⟩ := h.times n hn (by omega)
        refine ⟨sentAt, hle.trans hnow, ?_, fun t ht => ?_⟩
        · simp only [if_pos hpos]
          rw [if_pos hpos] at hkept_eq
          rw [Function.update_of_ne (by omega), htime]
        · rcases List.mem_cons.mp ht with ht | ht
          · exact absurd (congrArg Prod.fst ht) hnew
          · exact hlog t ht
    · rw [hlength]
      rw [hsends] at hsend
      rcases List.mem_cons.mp hsend with rfl | hsend
      · exact Nat.lt_succ_self _
      · exact (h.sends_lt send hsend).trans (Nat.lt_succ_self _)

theorem Waited.removeBefore {s : Retransmissions} (h : s.Waited) (column : Nat) :
    (s.apply (.removeBefore column : Event α)).Waited := by
  refine h.same rfl (Nat.le_refl _) (s.keepsAck_removeBefore (α := α) column).kept_le rfl
    fun n _ _ => ?_
  simp only [apply, TracedEncoder.step, FullEncoder.removeBefore]
  split
  · rfl
  · rw [EncoderData.removeBefore, EncoderPacketWindow.removeBefore_lastSendMsec]

theorem Waited.acknowledge {s : Retransmissions} (h : s.Waited) (ack : DecoderAck α) {nowMsec : Nat}
    (hnow : s.now ≤ nowMsec) : (s.apply (.acknowledge ack nowMsec)).Waited := by
  refine h.same rfl hnow ?_ rfl fun n _ _ => ?_
  · simp only [apply, TracedEncoder.step]
    split
    · exact TracedEncoder.kept_le_keptAfter _ _
    · exact Nat.le_refl _
  · simp only [apply, TracedEncoder.step, FullEncoder.acknowledge]
    split
    · rfl
    · rcases s.traced.encoder.ack.onAcknowledgementData_scan s.traced.encoder.data.window nowMsec
        ack.message with ⟨-, hwindow⟩ | ⟨-, hwindow⟩
      · simp only [hwindow]
      · simp only [hwindow, EncoderPacketWindow.removeBefore_lastSendMsec]

theorem Waited.encode {s : Retransmissions} (h : s.Waited) (htraced : s.traced.Inv) :
    (s.apply (.encode : Event α)).Waited := by
  refine h.same rfl (Nat.le_refl _) (Nat.le_refl _) rfl fun n hn hlt => ?_
  have hsends := s.traced.encoder.encode_keepsSends.lastSendMsec_eq
  have hkept := htraced.kept_eq
  have hremoved : s.traced.encoder.data.window.firstUnremovedElement / kSubwindowSize *
      kSubwindowSize ≤ s.traced.encoder.data.window.firstUnremovedElement := Nat.div_mul_le_self _ _
  have hn' : s.traced.kept ≤ n := hn
  simp only [apply, TracedEncoder.step, hsends]
  split
  · next hremove =>
    rw [if_pos hremove.2.1] at hkept
    congr 1
    omega
  · rfl

theorem Waited.retransmit {s : Retransmissions} (h : s.Waited) (hdescribed : s.Described)
    {nowMsec : Nat} (hnow : s.now ≤ nowMsec) : (s.apply (.retransmit nowMsec : Event α)).Waited := by
  have hspec := hdescribed.retransmitted (Q := fun _ => True) (fun _ _ => trivial)
    (fun _ _ _ _ _ => trivial) nowMsec
  rcases hspec.chosen with ⟨hnone, hdata, -⟩ | ⟨element, ⟨hge, hlt, -⟩, hattempt⟩
  · refine h.same ?_ hnow (Nat.le_refl _) rfl fun n _ _ => ?_
    · simp only [apply, hnone]
    · exact congrArg (fun d : EncoderData => d.window.lastSendMsec (n - s.traced.base)) hdata
  · obtain ⟨hpacket, hkept, hin, hnumber⟩ := hdescribed.packet hge hlt
    have hsends : ∀ send ∈ (s.apply (.retransmit nowMsec : Event α)).sends,
        send = (s.traced.base + element, nowMsec) ∨ send ∈ s.sends := by
      intro send hsend
      cases hreturned : (s.timed.retransmit nowMsec).2.2 with
      | none =>
        simp only [apply, hreturned] at hsend
        exact .inr hsend
      | some original =>
        have hcolumn : original.column = columnOf (s.traced.base + element) := by
          rw [hattempt.original_eq original hreturned, hpacket]
          rfl
        simp only [apply, hreturned, hcolumn, hnumber] at hsend
        exact List.mem_cons.mp hsend
    have hwindow : (s.apply (.retransmit nowMsec : Event α)).traced.encoder.data.window.lastSendMsec =
        Function.update s.traced.encoder.data.window.lastSendMsec element (nowMsec % 2 ^ 32) :=
      congrArg EncoderPacketWindow.lastSendMsec hattempt.window_eq
    have hkept_eq := hdescribed.traced.kept_eq
    rw [if_pos (by omega)] at hkept_eq
    refine ⟨fun n hn hn' => ?_, fun send hsend => ?_⟩
    · have hbase : (s.apply (.retransmit nowMsec : Event α)).traced.base = s.traced.base := rfl
      have hge' : s.traced.kept ≤ n := hn
      obtain ⟨sentAt, hle, htime, hlog⟩ := h.times n hn hn'
      rw [hwindow, hbase]
      by_cases hsent : n = s.traced.base + element
      · refine ⟨nowMsec, Nat.le_refl _, ?_, fun t ht => ?_⟩
        · rw [hsent, Nat.add_sub_cancel_left, Function.update_self]
        · rcases hsends _ ht with ht | ht
          · exact (congrArg Prod.snd ht).le
          · exact (hlog t ht).trans (hle.trans hnow)
      · refine ⟨sentAt, hle.trans hnow, ?_, fun t ht => ?_⟩
        · rw [Function.update_of_ne (by omega), htime]
        · rcases hsends _ ht with ht | ht
          · exact absurd (congrArg Prod.fst ht) hsent
          · exact hlog t ht
    · rcases hsends send hsend with rfl | hsend
      · exact hin
      · exact h.sends_lt send hsend

theorem Waited.step {s s' : Retransmissions} (h : s.Waited) (hdescribed : s.Described)
    {event : Event α} (hstep : s.Step event s') : s'.Waited := by
  obtain ⟨hpermitted, rfl⟩ := hstep
  cases event with
  | add nowMsec data => exact h.add hdescribed.traced hpermitted data
  | removeBefore column => exact h.removeBefore column
  | acknowledge ack nowMsec => exact h.acknowledge ack hpermitted.2
  | retransmit nowMsec => exact h.retransmit hdescribed hpermitted
  | encode => exact h.encode hdescribed.traced

/-- A packet is returned no earlier than a timeout after it was last sent. -/
theorem Waited.due {s : Retransmissions} (h : s.Waited) {n nowMsec : Nat} (hkept : s.traced.kept ≤ n)
    (hlt : n < s.traced.packets.length) (hnow : s.now ≤ nowMsec)
    (hdue : s.rto.retransmitTimeoutMsec ≤ unsignedSub (nowMsec % 2 ^ 32)
      (s.traced.encoder.data.window.lastSendMsec (n - s.traced.base))) {t : Nat}
    (ht : (n, t) ∈ s.sends) : t + s.rto.retransmitTimeoutMsec ≤ nowMsec := by
  obtain ⟨sentAt, hle, htime, hlog⟩ := h.times n hkept hlt
  have hlast := hlog t ht
  have hcast := Serial.sub_cast 32 (nowMsec % 2 ^ 32) (sentAt % 2 ^ 32)
  rw [htime, unsignedSub] at hdue
  omega

theorem Waited.returned {s : Retransmissions} (h : s.Waited) (hdescribed : s.Described)
    {Q : Nat → Prop} {nowMsec : Nat} (hnow : s.now ≤ nowMsec)
    (hspec : s.traced.encoder.Retransmitted (s.timed.retransmit nowMsec).1.encoder
      (nowMsec % 2 ^ 32) s.rto.retransmitTimeoutMsec (fun element =>
        s.traced.encoder.data.window.firstUnremovedElement ≤ element ∧
          element < s.traced.encoder.data.window.count ∧ Q element)
      (s.timed.retransmit nowMsec).2.2)
    {original : OriginalPacket} (hreturned : (s.timed.retransmit nowMsec).2.2 = some original) :
    ∃ element, Q element ∧ s.traced.kept ≤ s.traced.base + element ∧
      s.traced.base + element < s.traced.packets.length ∧
      original = packetOf s.traced.packets (s.traced.base + element) ∧
      ∀ t, (s.traced.base + element, t) ∈ s.sends →
        t + s.rto.retransmitTimeoutMsec ≤ nowMsec := by
  rcases hspec.chosen with ⟨hnone, -⟩ | ⟨element, ⟨hge, hlt, hQ⟩, hattempt⟩
  · rw [hnone] at hreturned
    exact absurd hreturned (by simp)
  · obtain ⟨hpacket, hkept, hin, -⟩ := hdescribed.packet hge hlt
    refine ⟨element, hQ, hkept, hin, (hattempt.original_eq original hreturned).trans hpacket,
      fun t ht => h.due hkept hin hnow ?_ ht⟩
    rw [Nat.add_sub_cancel_left]
    exact hattempt.due

theorem retransmit_waits {events : List (Event α)} {s : Retransmissions}
    (hrun : Run Step initial events s) {nowMsec : Nat} (hnow : s.now ≤ nowMsec)
    {original : OriginalPacket} (hreturned : (s.timed.retransmit nowMsec).2.2 = some original) :
    ∃ n, s.traced.kept ≤ n ∧ n < s.traced.packets.length ∧
      original = packetOf s.traced.packets n ∧
      ∀ t, (n, t) ∈ s.sends → t + s.rto.retransmitTimeoutMsec ≤ nowMsec := by
  obtain ⟨hdescribed, hwaited⟩ := hrun.invariant (P := fun s => s.Described ∧ s.Waited)
    ⟨described_initial, waited_initial⟩ fun _ _ _ h hstep => ⟨h.1.step hstep, h.2.step h.1 hstep⟩
  obtain ⟨element, -, hkept, hin, hpacket, hlog⟩ := hwaited.returned hdescribed hnow
    (hdescribed.retransmitted (Q := fun _ => True) (fun _ _ => trivial)
      (fun _ _ _ _ _ => trivial) nowMsec) hreturned
  exact ⟨_, hkept, hin, hpacket, hlog⟩

end Retransmissions
end Tonk.Siamese
