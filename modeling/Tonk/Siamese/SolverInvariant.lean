import Tonk.Siamese.Completeness
import Tonk.Siamese.RegionMoved

set_option autoImplicit false

namespace Tonk.Siamese

variable {α β : Type}

/-- The list is in order of where the packets end. -/
def Ordered (packets : List (RecoveryPacket β)) : Prop :=
  packets.Pairwise fun r r' => r.elementEnd ≤ r'.elementEnd

section Ordered

variable {packets : List (RecoveryPacket β)} {recovery : RecoveryPacket β}

theorem insertFromTail_ordered
    (h : packets.Pairwise fun r r' => r'.elementEnd ≤ r.elementEnd) :
    (insertFromTail recovery packets).Pairwise fun r r' => r'.elementEnd ≤ r.elementEnd := by
  induction packets with
  | nil => simp [insertFromTail]
  | cons prev rest ih =>
    obtain ⟨hprev, hrest⟩ := List.pairwise_cons.mp h
    rw [insertFromTail]
    split
    · next hafter =>
      have hle : prev.elementEnd ≤ recovery.elementEnd := by
        rcases hafter with hlt | ⟨heq, -⟩
        · exact Nat.le_of_lt hlt
        · exact Nat.le_of_eq heq.symm
      refine List.pairwise_cons.mpr ⟨fun r hr => ?_, h⟩
      rcases List.mem_cons.mp hr with rfl | hr
      · exact hle
      · exact (hprev r hr).trans hle
    · next hbefore =>
      rw [not_or] at hbefore
      refine List.pairwise_cons.mpr ⟨fun r hr => ?_, ih hrest⟩
      rcases mem_insertFromTail.mp hr with rfl | hr
      · exact Nat.le_of_not_lt hbefore.1
      · exact hprev r hr

theorem Ordered.insertRecovery (h : Ordered packets) :
    Ordered (insertRecovery recovery packets) := by
  unfold Siamese.insertRecovery Ordered
  rw [List.pairwise_reverse]
  exact insertFromTail_ordered (List.pairwise_reverse.mpr h)

theorem insertRecovery_eq_append (h : Solver.insertsAtTail recovery packets = true) :
    insertRecovery recovery packets = packets ++ [recovery] := by
  unfold Solver.insertsAtTail at h
  cases hlast : packets.getLast? with
  | none => simp [hlast] at h
  | some prev =>
    simp only [hlast, decide_eq_true_eq] at h
    obtain ⟨front, rfl⟩ := List.getLast?_eq_some_iff.mp hlast
    rw [insertRecovery, List.reverse_append, List.reverse_singleton, List.singleton_append,
      insertFromTail, if_pos h]
    simp

theorem deletePacketsBefore_sublist (element : Nat) :
    (deletePacketsBefore element packets).Sublist packets := by
  induction packets with
  | nil => exact List.Sublist.refl _
  | cons recovery rest ih =>
    rw [deletePacketsBefore]
    split
    · exact List.Sublist.refl _
    · exact ih.cons recovery

theorem Ordered.deletePacketsBefore (h : Ordered packets) (element : Nat) :
    Ordered (deletePacketsBefore element packets) :=
  List.Pairwise.sublist (deletePacketsBefore_sublist element) h

theorem Ordered.lt_of_mem (h : Ordered packets) {element : Nat} {r : RecoveryPacket β}
    (hr : r ∈ Siamese.deletePacketsBefore element packets) : element < r.elementEnd := by
  induction packets with
  | nil => exact absurd hr List.not_mem_nil
  | cons recovery rest ih =>
    obtain ⟨hfirst, hrest⟩ := List.pairwise_cons.mp h
    rw [Siamese.deletePacketsBefore] at hr
    split at hr
    · next hlt =>
      rcases List.mem_cons.mp hr with rfl | hr
      · exact hlt
      · exact Nat.lt_of_lt_of_le hlt (hfirst r hr)
    · exact ih hrest hr

theorem Ordered.slid (h : Ordered packets) (k : Nat) :
    Ordered (packets.map fun r => r.slid k) := by
  refine List.Pairwise.map _ (fun r r' hle => ?_) h
  exact Nat.sub_le_sub_right hle k

end Ordered

section Stocked

variable {w w' : DecoderPacketWindow α} {packets packets' : List (RecoveryPacket β)}

theorem Stocked.advance (h : Stocked w packets) (hsound : w'.Sound)
    (hcolumn : w'.columnStart = w.columnStart) (hcount : w.count ≤ w'.count)
    (hnext : w.nextExpectedElement ≤ w'.nextExpectedElement)
    (hpackets : ∀ r ∈ packets', r ∈ packets ∧ w'.nextExpectedElement < r.elementEnd) :
    Stocked w' packets' := by
  refine ⟨hsound, fun r hr => ?_⟩
  obtain ⟨hold, hlt⟩ := hpackets r hr
  have hr' := h.stored r hold
  refine ⟨hr'.readable, hr'.start_eq, hr'.start_le.trans hnext, hlt, hr'.end_le.trans hcount, ?_⟩
  rw [DecoderPacketWindow.columnToElement, hcolumn]
  exact hr'.column_eq

theorem Stocked.insertRecovery (h : Stocked w packets) {recovery : RecoveryPacket β}
    (hr : recovery.StoredIn w) : Stocked w (insertRecovery recovery packets) := by
  refine ⟨h.sound, fun r hmem => ?_⟩
  rcases mem_insertRecovery.mp hmem with rfl | hmem
  · exact hr
  · exact h.stored r hmem

theorem Stocked.nil_of_empty (h : Stocked w packets) (hempty : w.count = 0) : packets = [] := by
  refine List.eq_nil_iff_forall_not_mem.mpr fun r hr => ?_
  have := (h.stored r hr).next_lt
  have := (h.stored r hr).end_le
  omega

theorem DecoderPacketWindow.Sound.shift_columnToElement (h : w.Sound) {k column element : Nat}
    (hcolumn : w.columnToElement column = element) (hle : k * kSubwindowSize ≤ element) :
    (w.shift k).columnToElement column = element - k * kSubwindowSize := by
  have hlt := h.columnStart_lt
  have hold := subtractColumns_cast column w.columnStart
  have hnew := subtractColumns_cast column (addColumns (k * kSubwindowSize) w.columnStart)
  have heq : subtractColumns column w.columnStart = element := hcolumn
  have hmax := subtractColumns_lt column w.columnStart
  rw [heq] at hold hmax
  change subtractColumns column (addColumns (k * kSubwindowSize) w.columnStart) = _
  simp only [addColumns, kColumnPeriod] at hlt hmax hnew ⊢
  omega

theorem Stocked.decrementElementCounters_eq (h : Stocked w packets) {k : Nat}
    (hkept : ∀ r ∈ packets, k ≤ r.elementStart) :
    decrementElementCounters k packets = packets.map fun r => r.slid k := by
  refine List.map_congr_left fun r hr => ?_
  have hr' := h.stored r hr
  have hle := hkept r hr
  have hstart := hr'.start_eq
  have hend := hr'.end_le
  have hcount := h.sound.count_lt
  rw [unsignedSub_eq hle (by omega), unsignedSub_eq (by omega) (by omega)]
  rfl

theorem Stocked.shift (h : Stocked w packets) {k : Nat}
    (hnext : k * kSubwindowSize ≤ w.nextExpectedElement)
    (hkept : ∀ r ∈ packets, k * kSubwindowSize ≤ r.elementStart) :
    Stocked (w.shift k) (packets.map fun r => r.slid (k * kSubwindowSize)) := by
  have hcount' := h.sound.shift_count hnext
  have hnext' := h.sound.shift_next hnext
  refine ⟨h.sound.shift hnext, fun r hr => ?_⟩
  obtain ⟨x, hx, rfl⟩ := List.mem_map.mp hr
  have hx' := h.stored x hx
  have hle := hkept x hx
  have hstart := hx'.start_eq
  have hfirst := hx'.start_le
  have hlt := hx'.next_lt
  have hend := hx'.end_le
  refine ⟨hx'.readable, ?_, ?_, ?_, ?_, ?_⟩
  · simp only [RecoveryPacket.slid]
    omega
  · simp only [RecoveryPacket.slid]
    omega
  · simp only [RecoveryPacket.slid]
    omega
  · simp only [RecoveryPacket.slid]
    omega
  · exact h.sound.shift_columnToElement hx'.column_eq (by omega)

theorem Stocked.moved_shift (h : Stocked w packets) {k n : Nat} (hpos : 0 < n)
    (hle : n ≤ packets.length) (hnext : k * kSubwindowSize ≤ w.nextExpectedElement)
    (hkept : ∀ r ∈ packets, k * kSubwindowSize ≤ r.elementStart) :
    Moved w (w.shift k) packets (packets.map fun r => r.slid (k * kSubwindowSize)) n
      (k * kSubwindowSize) := by
  refine ⟨h, h.shift hnext hkept, hpos, hle, by rw [List.length_map]; exact hle, fun i _ => ?_, hkept,
    fun e he => ?_, fun e he _ => ?_⟩
  · rw [List.getElem?_map]
  · change addColumns (e - k * kSubwindowSize) (addColumns (k * kSubwindowSize) w.columnStart) =
      addColumns e w.columnStart
    simp only [addColumns, kColumnPeriod]
    omega
  · rw [DecoderPacketWindow.shift_isGot, Nat.sub_add_cancel he]

theorem Stocked.moved_zero (h : Stocked w packets) (h' : Stocked w' packets') {n : Nat}
    (hpos : 0 < n) (hle : n ≤ packets.length) (hpackets : packets' = packets ∨
      ∃ recovery, packets' = packets ++ [recovery]) (hcolumn : w'.columnStart = w.columnStart)
    (hgot : ∀ e, e < regionEnd packets n → w'.isGot e = w.isGot e) :
    Moved w w' packets packets' n 0 := by
  have hslid : ∀ r : RecoveryPacket β, r.slid 0 = r := fun r => rfl
  have hget : ∀ i, i < n → packets'[i]? = packets[i]? := by
    intro i hi
    rcases hpackets with rfl | ⟨recovery, rfl⟩
    · rfl
    · exact List.getElem?_append_left (by omega)
  have hlength : n ≤ packets'.length := by
    rcases hpackets with rfl | ⟨recovery, rfl⟩
    · exact hle
    · rw [List.length_append]
      omega
  refine ⟨h, h', hpos, hle, hlength, fun i hi => ?_, fun r _ => Nat.zero_le _, fun e _ => ?_,
    fun e _ he => hgot e he⟩
  · simp only [hslid, Option.map_id', hget i hi]
  · rw [DecoderPacketWindow.elementToColumn, DecoderPacketWindow.elementToColumn, hcolumn]
    rfl

end Stocked

namespace Solver

variable {s s' : Solver α β}

structure Working (s : Solver α β) : Prop where
  stocked : Stocked s.decoder.window s.decoder.recoveryPackets
  ordered : Ordered s.decoder.recoveryPackets
  checked : s.Checked

def Inv (s : Solver α β) : Prop := s.decoder.emergencyDisabled = true ∨ s.Working

theorem working_initial : (initial : Solver α β).Working := by
  refine ⟨⟨DecoderPacketWindow.sound_initial, fun r hr => ?_⟩, List.Pairwise.nil, .inl ⟨rfl, rfl⟩⟩
  exact absurd hr List.not_mem_nil

/-- The region and the matrix stay when nothing changes in front of the end of the region. -/
theorem Checked.stays (hchecked : s.Checked)
    (h : Stocked s.decoder.window s.decoder.recoveryPackets)
    (h' : Stocked s'.decoder.window s'.decoder.recoveryPackets)
    (hregion : s'.checkedRegion = s.checkedRegion) (hmatrix : s'.recoveryMatrix = s.recoveryMatrix)
    (hpoints : s'.originalColumn = s.originalColumn)
    (hpackets : s.checkedRegion.Over s.decoder.window s.decoder.recoveryPackets →
      s'.decoder.recoveryPackets = s.decoder.recoveryPackets ∨
        ∃ recovery, s'.decoder.recoveryPackets = s.decoder.recoveryPackets ++ [recovery])
    (hcolumn : s'.decoder.window.columnStart = s.decoder.window.columnStart)
    (hgot : s.checkedRegion.Over s.decoder.window s.decoder.recoveryPackets →
      ∀ e, e < s.checkedRegion.nextCheckStart →
        s'.decoder.window.isGot e = s.decoder.window.isGot e) : s'.Checked := by
  rcases hchecked with ⟨hreset, hreset'⟩ | ⟨hover, hm, hle⟩
  · exact .inl ⟨hregion.trans hreset, hmatrix.trans hreset'⟩
  · have hend := hover.end_eq
    have hmoved := h.moved_zero h' hover.pos hover.le_length (hpackets hover) hcolumn
      (hend ▸ hgot hover)
    refine .inr ⟨?_, ?_, ?_⟩
    · rw [hregion]
      exact hover.moved hmoved
    · rw [hmatrix, hpoints]
      exact hm.moved hmoved hle
    · rw [hregion, hmatrix]
      exact hle

theorem Checked.covers_next (hchecked : s.Checked)
    (h : Stocked s.decoder.window s.decoder.recoveryPackets) :
    s.checkedRegion = .reset ∧ s.recoveryMatrix = .reset ∨
      s.checkedRegion.Over s.decoder.window s.decoder.recoveryPackets ∧
      s.checkedRegion.elementStart ≤ s.decoder.window.nextExpectedElement ∧
      s.decoder.window.nextExpectedElement < s.checkedRegion.nextCheckStart := by
  rcases hchecked with hreset | ⟨hover, -, -⟩
  · exact .inl hreset
  · have hne : s.decoder.recoveryPackets ≠ [] := fun hnil => by
      have hpos := hover.pos
      have hle := hover.le_length
      rw [hnil, List.length_nil] at hle
      omega
    refine .inr ⟨hover, ?_, ?_⟩
    · rw [hover.start_eq]
      exact h.regionStart_le
    · rw [hover.end_eq]
      exact h.next_lt hover.pos hne

theorem Working.growWindow (h : s.Working) {n : Nat} (hn : n ≤ kColumnPeriod / 2) :
    (s.withWindow (s.decoder.window.growWindow n)).Working := by
  have hcount := s.decoder.window.growWindow_count n
  have hstocked : Stocked (s.decoder.window.growWindow n) s.decoder.recoveryPackets := by
    refine h.stocked.advance (h.stocked.sound.growWindow hn)
      (s.decoder.window.growWindow_columnStart n) (by omega) ?_ fun r hr => ⟨hr, ?_⟩
    · rw [DecoderPacketWindow.growWindow_nextExpectedElement]
    · rw [DecoderPacketWindow.growWindow_nextExpectedElement]
      exact (h.stocked.stored r hr).next_lt
  refine ⟨hstocked, h.ordered, ?_⟩
  exact h.checked.stays h.stocked hstocked rfl rfl rfl (fun _ => .inl rfl)
    (s.decoder.window.growWindow_columnStart n) fun _ e _ => s.decoder.window.growWindow_isGot n e

theorem Working.fill (h : s.Working) {element : Nat} (hlt : element < s.decoder.window.count)
    (hmissing : s.decoder.window.isGot element = false) (data : α)
    (hwindow : s'.decoder.window = s.decoder.window.fill element data)
    (hpackets : s'.decoder.recoveryPackets =
      if element = s.decoder.window.nextExpectedElement then
        deletePacketsBefore s'.decoder.window.nextExpectedElement s.decoder.recoveryPackets
      else s.decoder.recoveryPackets)
    (hregion : s'.checkedRegion = .reset ∧ s'.recoveryMatrix = .reset ∨
      s.checkedRegion.covers element = false ∧ s'.checkedRegion = s.checkedRegion ∧
        s'.recoveryMatrix = s.recoveryMatrix ∧ s'.originalColumn = s.originalColumn) :
    s'.Working := by
  have hsound := h.stocked.sound
  have hge := hsound.missing_ge hmissing
  have hsound' : s'.decoder.window.Sound := hwindow ▸ hsound.fill hlt hmissing data
  have hgot : ∀ e, s'.decoder.window.isGot e =
      if e = element then true else s.decoder.window.isGot e := by
    rw [hwindow]
    exact fun e => s.decoder.window.fill_isGot element e data
  have hcolumn : s'.decoder.window.columnStart = s.decoder.window.columnStart := by
    rw [hwindow, DecoderPacketWindow.fill_columnStart]
  have hcount : s'.decoder.window.count = s.decoder.window.count := by
    rw [hwindow, DecoderPacketWindow.fill_count]
  have hnext : s.decoder.window.nextExpectedElement ≤ s'.decoder.window.nextExpectedElement := by
    refine hsound.next_mono hsound' (fun e he => ?_) (Nat.le_of_eq hcount.symm)
    rw [hgot, he]
    exact ite_self true
  have hstocked : Stocked s'.decoder.window s'.decoder.recoveryPackets := by
    refine h.stocked.advance hsound' hcolumn (Nat.le_of_eq hcount.symm) hnext fun r hr => ?_
    rw [hpackets] at hr
    split at hr
    · exact ⟨mem_deletePacketsBefore hr, h.ordered.lt_of_mem hr⟩
    · next hne =>
      have hsame : s'.decoder.window.nextExpectedElement =
          s.decoder.window.nextExpectedElement := by
        rw [hwindow, DecoderPacketWindow.fill_of_ne hne,
          DecoderPacketWindow.store_nextExpectedElement]
      rw [hsame]
      exact ⟨hr, (h.stocked.stored r hr).next_lt⟩
  refine ⟨hstocked, ?_, ?_⟩
  · rw [hpackets]
    split
    · exact h.ordered.deletePacketsBefore _
    · exact h.ordered
  · rcases hregion with hreset | ⟨hnot, hregion, hmatrix, hpoints⟩
    · exact .inl hreset
    · simp only [CheckedRegionState.covers, decide_eq_false_iff_not, not_and] at hnot
      have hbehind : s.checkedRegion.Over s.decoder.window s.decoder.recoveryPackets →
          s.checkedRegion.nextCheckStart ≤ element ∧
            s.decoder.window.nextExpectedElement < s.checkedRegion.nextCheckStart := by
        intro hover
        rcases h.checked.covers_next h.stocked with ⟨hreset, -⟩ | ⟨-, hstart, hend⟩
        · have := hover.pos
          rw [hreset] at this
          exact absurd this (Nat.lt_irrefl 0)
        · have := hnot (by omega)
          omega
      refine h.checked.stays h.stocked hstocked hregion hmatrix hpoints (fun hover => .inl ?_)
        hcolumn fun hover e he => ?_
      · obtain ⟨hbehind, hend⟩ := hbehind hover
        rw [hpackets, if_neg (by omega)]
      · have := (hbehind hover).1
        rw [hgot, if_neg (by omega)]

/-- The range a recovery packet protects starts no later than the next expected packet. The decoder
asserts that there are no losses before the first range, and that it keeps the next expected one. -/
def InPlace (w : DecoderPacketWindow α) (m : RecoveryMetadata) : Prop :=
  isColumnDeltaNegative (w.columnToElement (m.columnStart + m.sumCount)) = false →
    w.columnToElement (m.columnStart + m.sumCount) ≤ w.nextExpectedElement + m.ldpcCount

instance (w : DecoderPacketWindow α) (m : RecoveryMetadata) : Decidable (InPlace w m) :=
  inferInstanceAs (Decidable (_ → _))

theorem planRemoval_le {d : Decoder α β} (h : Stocked d.window d.recoveryPackets)
    (hlast : d.recoveryPackets = [] → InPlace d.window d.lastRecoveryMetadata)
    {r : Decoder.Removal} (hplan : d.planRemoval = some r) :
    r.firstKeptElement ≤ d.window.nextExpectedElement ∧
      ∀ x ∈ d.recoveryPackets, r.firstKeptElement ≤ x.elementStart := by
  unfold Decoder.planRemoval at hplan
  cases hpackets : d.recoveryPackets with
  | cons head rest =>
    simp only [hpackets] at hplan
    obtain ⟨-, hall⟩ := Decoder.foldlM_keepPacket_le hplan
    have hhead := h.stored head (by rw [hpackets]; exact List.mem_cons_self)
    exact ⟨(hall head List.mem_cons_self).trans hhead.start_le, hall⟩
  | nil =>
    have hplace := hlast hpackets
    simp only [hpackets] at hplan
    split at hplan
    · exact absurd hplan (by simp)
    · next hin =>
      cases hplan
      simp only [not_or, Bool.not_eq_true] at hin
      have hle := hplace hin.1
      refine ⟨?_, fun x hx => absurd hx List.not_mem_nil⟩
      simp only
      omega

theorem removeElements_stocked {d : Decoder α β} (h : Stocked d.window d.recoveryPackets)
    (hordered : Ordered d.recoveryPackets)
    (hlast : d.recoveryPackets = [] → InPlace d.window d.lastRecoveryMetadata) :
    d.removeElements.emergencyDisabled = true ∧ d.removedElementCount = 0 ∨
      d.removeElements = d ∧ d.removedElementCount = 0 ∨
      ∃ k, 0 < k ∧ d.removedElementCount = k * kSubwindowSize ∧
        k * kSubwindowSize ≤ d.window.nextExpectedElement ∧
        (∀ r ∈ d.recoveryPackets, k * kSubwindowSize ≤ r.elementStart) ∧
        d.removeElements.window = d.window.shift k ∧
        d.removeElements.recoveryPackets =
          d.recoveryPackets.map (fun r => r.slid (k * kSubwindowSize)) ∧
        Ordered d.removeElements.recoveryPackets := by
  unfold Decoder.removeElements Decoder.removedElementCount
  split
  · exact .inr (.inl ⟨rfl, rfl⟩)
  · cases hplan : d.planRemoval with
    | none => exact .inl ⟨rfl, rfl⟩
    | some r =>
      obtain ⟨hnext, hkept⟩ := planRemoval_le h hlast hplan
      simp only
      split
      · exact .inr (.inl ⟨rfl, rfl⟩)
      · next hfar =>
        cases hsums : d.targetSums r with
        | none => exact .inl ⟨rfl, rfl⟩
        | some d₁ =>
          obtain ⟨hwindow, hpackets, -⟩ := Decoder.targetSums_eq hsums
          have hdiv := Nat.div_mul_le_self r.firstKeptElement kSubwindowSize
          have hkept' : ∀ x ∈ d.recoveryPackets,
              r.firstKeptElement / kSubwindowSize * kSubwindowSize ≤ x.elementStart :=
            fun x hx => hdiv.trans (hkept x hx)
          have hslid : (d₁.shift (r.firstKeptElement / kSubwindowSize)).recoveryPackets =
              d.recoveryPackets.map fun x =>
                x.slid (r.firstKeptElement / kSubwindowSize * kSubwindowSize) := by
            simp only [Decoder.shift, hpackets]
            exact h.decrementElementCounters_eq hkept'
          refine .inr (.inr ⟨r.firstKeptElement / kSubwindowSize, ?_, rfl, hdiv.trans hnext, hkept',
            ?_, hslid, ?_⟩)
          · simp only [kDecoderRemoveThreshold] at hfar
            exact Nat.div_pos (by omega) (by decide)
          · simp only [Decoder.shift, hwindow]
          · simp only [hslid]
            exact hordered.slid _

theorem decrementElementCounters_zero (s : Solver α β) : s.decrementElementCounters 0 = s := by
  unfold decrementElementCounters
  simp only [Nat.not_lt_zero, or_self, if_false, Nat.sub_zero]
  have hprevious : (if 0 < s.recoveryMatrix.previousNextCheckStart then
      s.recoveryMatrix.previousNextCheckStart else 0) =
        s.recoveryMatrix.previousNextCheckStart := by
    split <;> omega
  rw [hprevious]

theorem Working.removeElements (h : s.Working)
    (hlast : s.decoder.recoveryPackets = [] →
      InPlace s.decoder.window s.decoder.lastRecoveryMetadata) : s.removeElements.Inv := by
  unfold Solver.removeElements
  rcases removeElements_stocked h.stocked h.ordered hlast with ⟨hdisabled, hzero⟩ |
    ⟨hsame, hzero⟩ | ⟨k, hpos, hremoved, hnext, hkept, hwindow, hpackets, hordered⟩
  · rw [hzero, decrementElementCounters_zero]
    exact .inl hdisabled
  · rw [hzero, hsame, decrementElementCounters_zero]
    exact .inr h
  · have hsize : 0 < k * kSubwindowSize := Nat.mul_pos hpos (by decide)
    have hstocked := h.stocked.shift hnext hkept
    rw [← hwindow, ← hpackets] at hstocked
    rw [hremoved]
    unfold decrementElementCounters
    simp only
    refine .inr ?_
    split
    · exact ⟨hstocked, hordered, .inl ⟨rfl, rfl⟩⟩
    · next hin =>
      refine ⟨hstocked, hordered, ?_⟩
      rcases h.checked with ⟨hreset, -⟩ | ⟨hover, hm, hle⟩
      · rw [hreset] at hin
        exact absurd (.inl hsize) hin
      · have hmoved := h.stocked.moved_shift hover.pos hover.le_length hnext hkept
        have hprevious : (if k * kSubwindowSize < s.recoveryMatrix.previousNextCheckStart then
            s.recoveryMatrix.previousNextCheckStart - k * kSubwindowSize else 0) =
              s.recoveryMatrix.previousNextCheckStart - k * kSubwindowSize := by
          split <;> omega
        simp only [hprevious]
        refine .inr ⟨?_, ?_, hle⟩
        · simp only [hwindow, hpackets]
          exact hover.moved hmoved
        · simp only [hwindow, hpackets]
          exact hm.moved hmoved hle

theorem addOriginal_cases (d : Decoder α β) (packetNum : Nat) (data : α) :
    (d.addOriginal packetNum data).2 ≠ .success ∧ ((d.addOriginal packetNum data).1 = d ∨
      isColumnDeltaNegative (d.window.columnToElement packetNum) = false ∧
        (d.addOriginal packetNum data).1 = { d with
          window := d.window.growWindow (d.window.columnToElement packetNum + 1) }) ∨
    (d.addOriginal packetNum data).2 = .success ∧
      isColumnDeltaNegative (d.window.columnToElement packetNum) = false ∧
      ((d.window.growWindow (d.window.columnToElement packetNum + 1)).getWindowElement
        (d.window.columnToElement packetNum)).isSome = false ∧
      (d.addOriginal packetNum data).1.window =
        (d.window.growWindow (d.window.columnToElement packetNum + 1)).fill
          (d.window.columnToElement packetNum) data ∧
      (d.addOriginal packetNum data).1.recoveryPackets =
        if d.window.columnToElement packetNum = d.window.nextExpectedElement then
          deletePacketsBefore (d.addOriginal packetNum data).1.window.nextExpectedElement
            d.recoveryPackets
        else d.recoveryPackets := by
  unfold Decoder.addOriginal DecoderPacketWindow.addOriginal
  split
  · exact .inl ⟨nofun, .inl rfl⟩
  · simp only
    split
    · simp only [reduceCtorEq, false_and, if_false]
      exact .inl ⟨nofun, .inl trivial⟩
    · next hneg =>
      have hneg' := Bool.eq_false_of_not_eq_true hneg
      split
      · simp only [reduceCtorEq, false_and, if_false]
        exact .inl ⟨nofun, .inr ⟨hneg', trivial⟩⟩
      · next hnone =>
        simp only [true_and]
        refine .inr ⟨?_, hneg', Bool.eq_false_of_not_eq_true hnone, ?_, ?_⟩
        · split <;> rfl
        · split <;> rfl
        · split <;> rfl

theorem Working.addOriginal (h : s.Working) (packetNum : Nat) (data : α) :
    (s.addOriginal packetNum data).1.Working := by
  have hgrown : isColumnDeltaNegative (s.decoder.window.columnToElement packetNum) = false →
      (s.withWindow (s.decoder.window.growWindow
        (s.decoder.window.columnToElement packetNum + 1))).Working :=
    fun hneg => h.growWindow (isColumnDeltaNegative_eq_false_iff.mp hneg)
  have hcases := addOriginal_cases s.decoder packetNum data
  unfold Solver.addOriginal
  simp only
  generalize s.decoder.addOriginal packetNum data = added at *
  obtain ⟨d, result⟩ := added
  simp only at *
  rcases hcases with ⟨hfails, hsame | ⟨hneg, hsame⟩⟩ | ⟨hresult, hneg, hnone, hwindow, hpackets⟩
  · rw [if_neg (fun hyes => hfails hyes.1), hsame]
    exact h
  · rw [if_neg (fun hyes => hfails hyes.1), hsame]
    exact hgrown hneg
  · have hworking := hgrown hneg
    have hcount := s.decoder.window.growWindow_count
      (s.decoder.window.columnToElement packetNum + 1)
    have hlt : s.decoder.window.columnToElement packetNum < (s.decoder.window.growWindow
        (s.decoder.window.columnToElement packetNum + 1)).count := by omega
    have hmissing : (s.decoder.window.growWindow
        (s.decoder.window.columnToElement packetNum + 1)).isGot
          (s.decoder.window.columnToElement packetNum) = false :=
      (hworking.stocked.sound.got_eq _).trans hnone
    rw [← s.decoder.window.growWindow_nextExpectedElement
      (s.decoder.window.columnToElement packetNum + 1)] at hpackets
    split
    · exact hworking.fill hlt hmissing data hwindow hpackets (.inl ⟨rfl, rfl⟩)
    · next hcovers =>
      rw [not_and] at hcovers
      exact hworking.fill hlt hmissing data hwindow hpackets
        (.inr ⟨Bool.eq_false_of_not_eq_true (hcovers hresult), rfl, rfl, rfl⟩)

/-- AddSingleRecovery has nothing to remove: the region it would go by was just reset. -/
theorem Working.addSingleRecovery (h : s.Working) (columnStart : Nat) (single : Option α) :
    (s.addSingleRecovery columnStart single).Inv := by
  unfold Solver.addSingleRecovery Decoder.addSingleRecovery
  simp only
  generalize s.decoder.window.columnToElement columnStart = element
  by_cases hinvalid : s.decoder.window.invalidElement element = true
  · rw [if_pos hinvalid]
    simp only [hinvalid, Bool.true_eq_false, false_and, if_false]
    exact .inl rfl
  · by_cases hgot : (s.decoder.window.getWindowElement element).isSome = true
    · have hne : s.decoder.window.getWindowElement element ≠ none := by
        intro hnone
        rw [hnone] at hgot
        exact Bool.noConfusion hgot
      rw [if_neg hinvalid, if_pos hgot]
      simp only [hne, false_and, and_false, if_false]
      exact .inr h
    · cases single with
      | none =>
        rw [if_neg hinvalid, if_neg hgot]
        simp only [Option.isSome_none, Bool.false_eq_true, and_false, false_and, if_false]
        exact .inl rfl
      | some data =>
        have hlt : element < s.decoder.window.count := by
          simpa [DecoderPacketWindow.invalidElement] using hinvalid
        have hmissing : s.decoder.window.isGot element = false := by
          rw [h.stocked.sound.got_eq]
          exact Bool.eq_false_of_not_eq_true hgot
        have hnone : s.decoder.window.getWindowElement element = none := by simpa using hgot
        have hnew : s.decoder.window.invalidElement element = false ∧
            s.decoder.window.getWindowElement element = none ∧ (some data).isSome = true :=
          ⟨Bool.eq_false_of_not_eq_true hinvalid, hnone, rfl⟩
        rw [if_neg hinvalid, if_neg hgot]
        simp only [hnew, true_and, Bool.false_eq_true, if_false]
        by_cases hcovers : s.checkedRegion.covers element = true
        · have hshort : ¬ kDecoderRemoveThreshold ≤ CheckedRegionState.reset.nextCheckStart := by decide
          rw [if_pos hcovers, if_neg fun hremove => hshort hremove.2]
          refine .inr (h.fill hlt hmissing data ?_ ?_ (.inl ⟨rfl, rfl⟩))
          · simp only [resetRegion]
            split <;> rfl
          · simp only [resetRegion]
            split <;> rfl
        · rw [if_neg hcovers, if_neg]
          · refine .inr (h.fill hlt hmissing data ?_ ?_
              (.inr ⟨Bool.eq_false_of_not_eq_true hcovers, rfl, rfl, rfl⟩))
            · simp only
              split <;> rfl
            · simp only
              split <;> rfl
          · rintro ⟨rfl, hfar⟩
            rcases h.checked.covers_next h.stocked with ⟨hreset, -⟩ | ⟨-, hstart, hend⟩
            · rw [hreset] at hfar
              exact absurd hfar (by decide)
            · exact hcovers (decide_eq_true ⟨hstart, hend⟩)

theorem linkRecovery_decoder (s : Solver α β) (recovery : RecoveryPacket β) (outOfOrder : Bool) :
    (s.linkRecovery recovery outOfOrder).decoder = s.decoder.linkRecovery recovery outOfOrder := by
  unfold Solver.linkRecovery
  simp only
  split <;> rfl

theorem Working.linkRecovery (h : s.Working) {recovery : RecoveryPacket β}
    (hr : recovery.StoredIn s.decoder.window) (outOfOrder : Bool) :
    (s.linkRecovery recovery outOfOrder).Working := by
  have hstocked := h.stocked.insertRecovery hr
  have hordered : Ordered (insertRecovery recovery s.decoder.recoveryPackets) :=
    h.ordered.insertRecovery
  unfold Solver.linkRecovery
  simp only
  split
  · next htail =>
    refine ⟨hstocked, hordered, ?_⟩
    exact h.checked.stays h.stocked hstocked rfl rfl rfl
      (fun _ => .inr ⟨recovery, insertRecovery_eq_append htail⟩) rfl fun _ _ _ => rfl
  · exact ⟨hstocked, hordered, .inl ⟨rfl, rfl⟩⟩

theorem Working.storeRecovery (h : s.Working) {metadata : RecoveryMetadata} {buffer : β}
    {single : Option α} {outOfOrder : Bool} {elementStart elementEnd : Nat}
    (hr : (⟨metadata, elementStart, elementEnd, buffer⟩ : RecoveryPacket β).StoredIn
      s.decoder.window) :
    (s.storeRecovery metadata buffer single outOfOrder elementStart elementEnd).Inv := by
  unfold Solver.storeRecovery
  split
  · exact h.addSingleRecovery metadata.columnStart single
  · simp only
    generalize (⟨metadata, elementStart, elementEnd, buffer⟩ : RecoveryPacket β) = recovery at hr ⊢
    have hlinked := h.linkRecovery hr outOfOrder
    split
    · refine hlinked.removeElements fun hnil => ?_
      have hmem : recovery ∈ insertRecovery recovery s.decoder.recoveryPackets :=
        mem_insertRecovery.mpr (.inl rfl)
      rw [linkRecovery_decoder] at hnil
      simp only [Decoder.linkRecovery] at hnil
      rw [hnil] at hmem
      exact absurd hmem List.not_mem_nil
    · exact .inr hlinked

/-- The window a recovery packet is placed in: an empty one starts with the packet's columns. -/
def placing (w : DecoderPacketWindow α) (m : RecoveryMetadata) : DecoderPacketWindow α :=
  if w.count ≤ 0 then { w with columnStart := m.columnStart } else w

theorem Working.placing (h : s.Working) (hempty : s.decoder.window.count ≤ 0)
    {m : RecoveryMetadata} (hm : m.Readable) :
    (s.withWindow { s.decoder.window with columnStart := m.columnStart }).Working := by
  have hsound := h.stocked.sound
  have hnil := h.stocked.nil_of_empty (Nat.le_zero.mp hempty)
  have hstocked : Stocked { s.decoder.window with columnStart := m.columnStart }
      s.decoder.recoveryPackets := by
    refine ⟨⟨hm.column_lt, hsound.count_le, hsound.counted, hsound.got_eq, hsound.got_lt,
      hsound.next_le, hsound.before_next, hsound.at_next⟩, fun r hr => ?_⟩
    rw [hnil] at hr
    exact absurd hr List.not_mem_nil
  refine ⟨hstocked, h.ordered, ?_⟩
  rcases h.checked with hreset | ⟨hover, -⟩
  · exact .inl hreset
  · have hpos := hover.pos
    have hle := hover.le_length
    rw [hnil, List.length_nil] at hle
    omega

theorem InPlace.storedIn {w : DecoderPacketWindow α} {m : RecoveryMetadata} (hplace : InPlace w m)
    (hm : m.Readable) {element : Nat}
    (helement : w.columnToElement (m.columnStart + m.sumCount) = element)
    (hneg : isColumnDeltaNegative element = false) (hclipped : m.ldpcCount ≤ element)
    (hnew : w.nextExpectedElement < element) (buffer : β) :
    (⟨m, element - m.ldpcCount, element, buffer⟩ : RecoveryPacket β).StoredIn
      (w.growWindow element) := by
  rw [InPlace, helement] at hplace
  have hle := hplace hneg
  have hcount := w.growWindow_count element
  refine ⟨hm, ?_, ?_, ?_, ?_, ?_⟩
  · simp only
    omega
  · simp only [DecoderPacketWindow.growWindow_nextExpectedElement]
    omega
  · simp only [DecoderPacketWindow.growWindow_nextExpectedElement]
    exact hnew
  · simp only
    omega
  · rw [DecoderPacketWindow.columnToElement, DecoderPacketWindow.growWindow_columnStart]
    exact helement

theorem Working.addRecovery (h : s.Working) {m : RecoveryMetadata} (hm : m.Readable)
    (hplace : InPlace (Solver.placing s.decoder.window m) m) (buffer : β) (single : Option α) :
    (s.addRecovery m buffer single).Inv := by
  unfold Solver.addRecovery
  split
  · exact .inr h
  have hupdated : ∀ column, (s.withDecoder { s.decoder with latestColumn := column }).Working :=
    fun _ => ⟨h.stocked, h.ordered, h.checked⟩
  have hsound := h.stocked.sound
  have hcases := s.decoder.placeRecovery_cases m buffer s.withDecoder
    (fun d => (s.withDecoder d).removeElements) fun d outOfOrder elementStart elementEnd =>
      (s.withDecoder d).storeRecovery m buffer single outOfOrder elementStart elementEnd
  obtain ⟨column, heq | ⟨hempty, heq⟩ | ⟨hcount, elementEnd, helement, hneg, hclipped, hplaced⟩⟩ :=
    hcases
  · rw [heq]
    exact .inr (hupdated column)
  · rw [heq]
    have hfirst := (hupdated column).placing (Nat.le_of_eq hempty) hm
    rw [Solver.placing, if_pos (Nat.le_of_eq hempty)] at hplace
    have hnext := hsound.next_le
    have hsum := hm.sum_le
    have hpos := hm.sum_pos
    have helement : ({ s.decoder.window with
        columnStart := m.columnStart } : DecoderPacketWindow α).columnToElement
          (m.columnStart + m.sumCount) = m.sumCount := by
      have hcast := subtractColumns_cast (m.columnStart + m.sumCount) m.columnStart
      change subtractColumns (m.columnStart + m.sumCount) m.columnStart = m.sumCount
      omega
    have hneg : isColumnDeltaNegative m.sumCount = false := by
      rw [isColumnDeltaNegative_eq_false_iff]
      simp only [kColumnPeriod]
      omega
    have hgrown := hfirst.growWindow (n := m.sumCount) (by simp only [kColumnPeriod]; omega)
    exact hgrown.storeRecovery (hplace.storedIn hm helement hneg hm.ldpc_le
      (by simp only; omega) buffer)
  · rw [Solver.placing, if_neg fun hzero => hcount (Nat.le_zero.mp hzero)] at hplace
    rcases hplaced with ⟨hhave, -, heq⟩ | ⟨hnew, -, outOfOrder, heq⟩
    · rw [heq]
      have hlast : (s.withDecoder { s.decoder with
          latestColumn := column
          lastRecovery := some (m, buffer) }).Working := ⟨h.stocked, h.ordered, h.checked⟩
      exact hlast.removeElements fun _ => hplace
    · rw [heq]
      have hgrown := (hupdated column).growWindow (n := elementEnd)
        (Nat.le_of_lt (isColumnDeltaNegative_eq_false_iff.mp hneg))
      exact hgrown.storeRecovery (hplace.storedIn hm helement hneg hclipped hnew buffer)

theorem Working.solve (h : s.Working) {m : Nat} (hpos : 0 < m)
    (hne : s.decoder.recoveryPackets ≠ [])
    (hlast : InPlace s.decoder.window s.decoder.lastRecoveryMetadata) (data : Nat → α)
    (sumColumnStart sumColumnCount : Nat) :
    (s.decoder.solve (regionStart s.decoder.recoveryPackets)
        (regionEnd s.decoder.recoveryPackets m) data sumColumnStart
        sumColumnCount).emergencyDisabled = true ∨
      Stocked (s.decoder.solve (regionStart s.decoder.recoveryPackets)
          (regionEnd s.decoder.recoveryPackets m) data sumColumnStart sumColumnCount).window
        (s.decoder.solve (regionStart s.decoder.recoveryPackets)
          (regionEnd s.decoder.recoveryPackets m) data sumColumnStart
          sumColumnCount).recoveryPackets ∧
      Ordered (s.decoder.solve (regionStart s.decoder.recoveryPackets)
          (regionEnd s.decoder.recoveryPackets m) data sumColumnStart
          sumColumnCount).recoveryPackets := by
  have hsound := h.stocked.sound
  have hlt := h.stocked.next_lt hpos hne
  have hstart := h.stocked.regionStart_le
  have hstop : regionEnd s.decoder.recoveryPackets m ≤ s.decoder.window.count :=
    h.stocked.regionEnd_le
  generalize regionStart s.decoder.recoveryPackets = elementStart at *
  generalize regionEnd s.decoder.recoveryPackets m = nextCheckStart at *
  have hnodup : (s.decoder.lostElements elementStart nextCheckStart).Nodup :=
    List.Nodup.filter _ (List.nodup_range' ..)
  have hall : ∀ e, e < nextCheckStart → s.decoder.window.isGot e = true ∨
      e ∈ s.decoder.lostElements elementStart nextCheckStart := by
    intro e he
    cases hgot : s.decoder.window.isGot e with
    | true => exact .inl rfl
    | false =>
      have hge := hsound.missing_ge hgot
      exact .inr (Decoder.mem_lostElements.mpr ⟨by omega, he, hgot⟩)
  obtain ⟨hsound', hnext'⟩ := hsound.recover data hnodup
    (fun e he => (Decoder.mem_lostElements.mp he).2) hall hstop hlt
  obtain ⟨hcolumn, hcount, -⟩ := s.decoder.window.foldl_store_columnStart data
    (s.decoder.lostElements elementStart nextCheckStart)
  unfold Decoder.solve Decoder.fillLost
  simp only
  generalize (s.decoder.lostElements elementStart nextCheckStart).foldl
    (fun w e => w.store e (data e)) s.decoder.window = w at *
  have hiter : (w.iterateNextExpectedElement nextCheckStart).columnStart = w.columnStart ∧
      (w.iterateNextExpectedElement nextCheckStart).count = w.count := by
    unfold DecoderPacketWindow.iterateNextExpectedElement
    split <;> exact ⟨rfl, rfl⟩
  generalize w.iterateNextExpectedElement nextCheckStart = w' at *
  have hstocked : Stocked w'
      (deletePacketsBefore w'.nextExpectedElement s.decoder.recoveryPackets) := by
    refine h.stocked.advance hsound' (hiter.1.trans hcolumn) (by omega) (by omega) fun r hr => ?_
    exact ⟨mem_deletePacketsBefore hr, h.ordered.lt_of_mem hr⟩
  have hordered := h.ordered.deletePacketsBefore w'.nextExpectedElement
  split
  · generalize hd : ({ s.decoder with
        sumColumnStart := sumColumnStart
        sumColumnCount := sumColumnCount
        window := w'
        recoveredPackets := (s.decoder.lostElements elementStart nextCheckStart).map fun e =>
          (s.decoder.window.elementToColumn e, data e)
        recoveryPackets := deletePacketsBefore w'.nextExpectedElement
          s.decoder.recoveryPackets } : Decoder α β) = d
    have hwindow : d.window = w' := by rw [← hd]
    have hpackets : d.recoveryPackets =
        deletePacketsBefore w'.nextExpectedElement s.decoder.recoveryPackets := by rw [← hd]
    have hmetadata : d.lastRecoveryMetadata = s.decoder.lastRecoveryMetadata := by
      rw [← hd]
      rfl
    rw [← hpackets] at hstocked hordered
    rw [← hwindow] at hstocked
    have hplace : InPlace d.window d.lastRecoveryMetadata := by
      rw [hmetadata, hwindow]
      unfold InPlace DecoderPacketWindow.columnToElement at hlast ⊢
      rw [hiter.1, hcolumn]
      intro hneg
      have := hlast hneg
      omega
    rcases removeElements_stocked hstocked hordered fun _ => hplace with ⟨hdisabled, -⟩ |
      ⟨hsame, -⟩ | ⟨k, -, -, hnext, hkept, hwindow', hpackets', hordered'⟩
    · exact .inl hdisabled
    · rw [hsame]
      exact .inr ⟨hstocked, hordered⟩
    · refine .inr ⟨?_, hordered'⟩
      rw [hwindow', hpackets']
      exact hstocked.shift hnext hkept
  · exact .inr ⟨hstocked, hordered⟩

theorem Working.decode (h : s.Working)
    (hlast : InPlace s.decoder.window s.decoder.lastRecoveryMetadata)
    (solution : Option (Solution α)) : (s.decode solution).1.Inv := by
  by_cases hok : s.decoder.emergencyDisabled = true
  · unfold Solver.decode
    rw [if_pos hok]
    exact .inl hok
  · by_cases hpending : s.decoder.hasRecoveredPackets = true
    · unfold Solver.decode
      rw [if_neg hok, if_pos hpending]
      exact .inr ⟨h.stocked, h.ordered, h.checked⟩
    · have hdecoded := decode_decoded (Bool.eq_false_of_not_eq_true hok)
        (Bool.eq_false_of_not_eq_true hpending) h.stocked h.checked solution
      cases hresult : s.decode solution with
      | mk s' rest =>
        rw [hresult] at hdecoded
        cases hdecoded with
        | needMoreData _ hdecoder hchecked htried =>
          exact .inr ⟨hdecoder ▸ h.stocked, hdecoder ▸ h.ordered, hchecked⟩
        | disabled _ m htried hrank hnone hdecoder =>
          refine .inl ?_
          simp only [hdecoder]
          rfl
        | solved _ m found htried hrank hfound hdecoder hregion hmatrix =>
          have hne : s.decoder.recoveryPackets ≠ [] := fun hnil => by
            have hpos := htried.eligible.1.1
            have hle := htried.eligible.1.2.1
            rw [hnil, List.length_nil] at hle
            omega
          rcases h.solve htried.eligible.1.1 hne hlast found.data found.sumColumnStart
            found.sumColumnCount with hdisabled | ⟨hstocked, hordered⟩
          · rw [← hdecoder] at hdisabled
            exact .inl hdisabled
          · rw [← hdecoder] at hstocked hordered
            exact .inr ⟨hstocked, hordered, .inl ⟨hregion, hmatrix⟩⟩

theorem Inv.checkRecoveryPossible (h : s.Inv) : s.checkRecoveryPossible.1.Inv := by
  by_cases hok : s.decoder.emergencyDisabled = true
  · unfold Solver.checkRecoveryPossible
    rw [if_pos hok]
    exact h
  · have hworking := h.resolve_left hok
    have hadvanced := checkRecoveryPossible_advanced (Bool.eq_false_of_not_eq_true hok)
      hworking.stocked hworking.checked
    have hdecoder := hadvanced.decoder_eq
    exact .inr ⟨hdecoder ▸ hworking.stocked, hdecoder ▸ hworking.ordered, hadvanced.checked⟩

end Solver

end Tonk.Siamese
