import Tonk.Siamese.DecodedPackets
import Tonk.Siamese.DecodeRuns
import Tonk.Siamese.DecoderContents

set_option autoImplicit false

namespace Tonk.Siamese
open Protocol

namespace Solver

variable {α β : Type} {s : Solver α β}

theorem Working.fillLost (h : s.Working) {m : Nat} (hpos : 0 < m)
    (hne : s.decoder.recoveryPackets ≠ []) (data : Nat → α) (sumColumnStart sumColumnCount : Nat)
    (originalColumn : Nat → Nat) :
    let lost := regionLost s.decoder.window s.decoder.recoveryPackets m
    let d := s.decoder.fillLost (regionStart s.decoder.recoveryPackets)
      (regionEnd s.decoder.recoveryPackets m) data sumColumnStart sumColumnCount
    Working ⟨d, .reset, .reset, originalColumn⟩ ∧ d.window.columnStart = s.decoder.window.columnStart ∧
      d.window.count = s.decoder.window.count ∧
      regionEnd s.decoder.recoveryPackets m ≤ d.window.nextExpectedElement ∧
      ∀ e, d.window.getWindowElement e =
        if e ∈ lost then some (data e) else s.decoder.window.getWindowElement e := by
  intro lost d
  have hsound := h.stocked.sound
  have hlt := h.stocked.next_lt hpos hne
  have hstart := h.stocked.regionStart_le
  have hstop : regionEnd s.decoder.recoveryPackets m ≤ s.decoder.window.count :=
    h.stocked.regionEnd_le
  have hnodup : lost.Nodup := s.decoder.window.lost_nodup _ _
  have hall : ∀ e, e < regionEnd s.decoder.recoveryPackets m →
      s.decoder.window.isGot e = true ∨ e ∈ lost := by
    intro e he
    cases hgot : s.decoder.window.isGot e with
    | true => exact .inl rfl
    | false =>
      have hge := hsound.missing_ge hgot
      exact .inr (DecoderPacketWindow.mem_lost.mpr ⟨by omega, he, hgot⟩)
  obtain ⟨hsound', hnext⟩ := hsound.recover data hnodup
    (fun e he => (DecoderPacketWindow.mem_lost.mp he).2) hall hstop hlt
  obtain ⟨hcolumn, hcount, -⟩ := s.decoder.window.foldl_store_columnStart data lost
  have hcontents := Decoder.foldl_store_getWindowElement s.decoder.window data lost
  have hwindow : d.window = (lost.foldl (fun w e => w.store e (data e))
      s.decoder.window).iterateNextExpectedElement (regionEnd s.decoder.recoveryPackets m) := rfl
  have hpackets : d.recoveryPackets =
      deletePacketsBefore d.window.nextExpectedElement s.decoder.recoveryPackets := rfl
  rw [← hwindow] at hsound' hnext
  have hframe : ∀ w : DecoderPacketWindow α, ∀ n,
      (w.iterateNextExpectedElement n).columnStart = w.columnStart ∧
        (w.iterateNextExpectedElement n).count = w.count ∧
        ∀ e, (w.iterateNextExpectedElement n).getWindowElement e = w.getWindowElement e := by
    intro w n
    unfold DecoderPacketWindow.iterateNextExpectedElement
    split <;> exact ⟨rfl, rfl, fun _ => rfl⟩
  obtain ⟨hcolumn', hcount', hcontents'⟩ := hframe
    (lost.foldl (fun w e => w.store e (data e)) s.decoder.window)
    (regionEnd s.decoder.recoveryPackets m)
  rw [← hwindow] at hcolumn' hcount' hcontents'
  refine ⟨⟨?_, ?_, .inl ⟨rfl, rfl⟩⟩, hcolumn'.trans hcolumn, hcount'.trans hcount, hnext,
    fun e => (hcontents' e).trans (hcontents e)⟩
  · have hfull : s.decoder.window.count ≤ d.window.count := by omega
    have hless : s.decoder.window.nextExpectedElement ≤ d.window.nextExpectedElement := by omega
    refine h.stocked.advance hsound' (hcolumn'.trans hcolumn) hfull hless fun r hr => ?_
    rw [hpackets] at hr
    exact ⟨mem_deletePacketsBefore hr, h.ordered.lt_of_mem hr⟩
  · exact h.ordered.deletePacketsBefore _

end Solver

namespace DecoderData

variable {d d' : DecoderData} {stored : List (RecoveryPacket RecoveryData)}
variable {received : Nat → Option OriginalPacket} {base start bound : Nat}

theorem SumState.mono {bound' : Nat} (h : d.SumState stored received base start bound)
    (hle : bound ≤ bound') : d.SumState stored received base start bound' := by
  cases h with
  | running pending hrunning hwithin => exact .running pending hrunning (hwithin.mono hle)
  | givenUp hgiven => exact .givenUp hgiven

end DecoderData

namespace FullDecoder

variable {f : FullDecoder} {packets : List Bytes} {starts delivered : List Nat}
variable {received : Nat → Option OriginalPacket} {base sumStart : Nat}

theorem removeElements_recoveredPackets (f : FullDecoder) :
    f.removeElements.solver.decoder.recoveredPackets = f.solver.decoder.recoveredPackets := by
  have hdecoder : f.solver.decoder.removeElements.recoveredPackets =
      f.solver.decoder.recoveredPackets := by
    unfold Decoder.removeElements
    split
    · rfl
    · split
      · rfl
      · split
        · rfl
        · split
          · rfl
          · next hsums =>
            rw [Decoder.targetSums_frame hsums]
            rfl
  unfold FullDecoder.removeElements
  simp only
  split
  · rfl
  · split
    · rfl
    · split
      · rfl
      · split
        · rfl
        · rw [Solver.removeElements_decoder]
          exact hdecoder

theorem removeElements_resetRegion (f : FullDecoder) :
    f.removeElements.resetRegion = f.resetRegion.removeElements.resetRegion := by
  have hdecoder : f.resetRegion.solver.decoder = f.solver.decoder := rfl
  have hdata : f.resetRegion.data = f.data := rfl
  unfold FullDecoder.removeElements
  simp only [hdecoder, hdata]
  split
  · rfl
  · cases f.solver.decoder.planRemoval with
    | none => rfl
    | some r =>
      simp only
      split
      · rfl
      · cases f.data.removeElements r f.solver.decoder.initialRecoveryBytes with
        | none => rfl
        | some d =>
          simp only [FullDecoder.resetRegion, Solver.removeElements_resetRegion]
          rfl

theorem decodeCheckedRegion_fails
    (hfailed : (f.solver.decodeCheckedRegion none).2.1 = .needMoreData) :
    f.decodeCheckedRegion =
      (f.withSolver (f.solver.decodeCheckedRegion none).1, .needMoreData, []) := by
  unfold Solver.decodeCheckedRegion at hfailed ⊢
  unfold FullDecoder.decodeCheckedRegion
  simp only at hfailed ⊢
  split at hfailed
  · exact absurd hfailed (by simp)
  · next hno =>
    rw [if_neg hno, if_neg hno]

theorem turn_fails (h : f.solver.Attempting) (hrank : ¬ RegionFullRank f.solver.decoder.window
    f.solver.decoder.recoveryPackets f.solver.checkedRegion.recoveryCount)
    (region : CheckedRegionState) :
    (if region.lostCount ≤ region.recoveryCount then f.decodeCheckedRegion
      else (f, .needMoreData, [])) =
        (f.withSolver (if region.lostCount ≤ region.recoveryCount then
          f.solver.decodeCheckedRegion none else (f.solver, .needMoreData, [])).1,
          .needMoreData, []) := by
  split
  · obtain ⟨m, originalColumn, heq, -⟩ := h.fails hrank none
    exact decodeCheckedRegion_fails (by rw [heq])
  · rfl

/-- Once the region has failed, Decode with the data goes to the end of the list as it does without. -/
theorem decodeLoop_fails (h : f.solver.Attempting) (hrank : ¬ RegionFullRank f.solver.decoder.window
    f.solver.decoder.recoveryPackets f.solver.checkedRegion.recoveryCount)
    {rest : List (RecoveryPacket RecoveryData)} {region : CheckedRegionState}
    (hfailed : f.solver.checkedRegion.solveFailed = true ∨
      region.lostCount ≤ region.recoveryCount) :
    decodeLoop rest region f =
      (f.withSolver (Solver.decodeLoop none rest region f.solver).1, .needMoreData, []) := by
  induction rest generalizing f region with
  | nil =>
    obtain ⟨s₁, hturn, -⟩ := h.turn hrank none hfailed
    rw [decodeLoop, Solver.decodeLoop, turn_fails h hrank, hturn]
    rfl
  | cons recovery rest ih =>
    obtain ⟨s₁, hturn, hdecoder, hattempting, hfailed₁, hcount⟩ := h.turn hrank none hfailed
    rw [decodeLoop, Solver.decodeLoop, turn_fails h hrank, hturn]
    simp only [if_true]
    rw [← hdecoder, ← hcount] at hrank
    exact ih (f := f.withSolver s₁) hattempting hrank (.inl hfailed₁)

namespace Correct

theorem checkRegion (h : f.Correct packets starts received base sumStart delivered)
    {s : Solver OriginalPacket RecoveryData} (hdecoder : s.decoder = f.solver.decoder)
    (hchecked : s.Checked) :
    (f.withSolver s).Correct packets starts received base sumStart delivered := by
  refine h.withSolver ⟨?_, ?_, hchecked⟩ ?_ ?_ ?_ ?_ ?_ ?_ ?_
  all_goals rw [hdecoder]
  · exact h.working.stocked
  · exact h.working.ordered

theorem resetRegion (h : f.Correct packets starts received base sumStart delivered) :
    f.resetRegion.Correct packets starts received base sumStart delivered :=
  h.checkRegion rfl (.inl ⟨rfl, rfl⟩)

theorem faithful (h : f.Correct packets starts received base sumStart delivered) :
    f.data.Faithful f.solver.decoder.recoveryPackets packets received base sumStart := by
  have hcol : f.data.sumColumnStart = columnOf sumStart := by
    cases h.sums with
    | running pending hrunning => exact hrunning.column_eq
    | givenUp hgiven => exact hgiven.column_eq
  refine ⟨h.working.stocked, h.working.ordered, h.holds, h.sent,
    fun r hr => (h.arrived r hr).madeOf r.elementStart r.elementEnd, h.place, h.sums,
    fun r hr hmany heq => ?_⟩
  have harrived := h.arrived r hr
  refine h.apart _ (harrived.start_mem hmany) sumStart h.start_mem ?_
  rw [← harrived.endsAt.columnStart_eq, heq, hcol]

theorem lost_recovered (h : f.Correct packets starts received base sumStart delivered)
    {m : RecoveryMatrixState} {original : Nat → OriginalPacket}
    (hcolumns : m.columns = regionColumns f.solver.decoder.window f.solver.decoder.recoveryPackets
      m.rowCount)
    (hpackets : ∀ c < m.columns.length, original c = packetOf packets (lostNumber
      f.solver.decoder.window f.solver.decoder.recoveryPackets m.rowCount base c)) {e : Nat}
    (he : e ∈ regionLost f.solver.decoder.window f.solver.decoder.recoveryPackets m.rowCount) :
    base + e < packets.length ∧ received (base + e) = none ∧ e < f.solver.decoder.window.count ∧
      original (m.columns.idxOf (f.solver.decoder.window.elementToColumn e)) =
        packetOf packets (base + e) := by
  have hstocked := h.working.stocked
  have hnodup := hstocked.regionColumns_nodup (m := m.rowCount)
  rw [← hcolumns] at hnodup
  obtain ⟨c, hc, hget⟩ := List.getElem_of_mem he
  have hlt : c < m.columns.length := by
    rw [hcolumns, length_regionColumns]
    exact hc
  have hnumber : lostNumber f.solver.decoder.window f.solver.decoder.recoveryPackets m.rowCount
      base c = base + e := by
    rw [lostNumber, List.getD_eq_getElem _ _ hc, hget]
  have hindex : m.columns.idxOf (f.solver.decoder.window.elementToColumn e) = c := by
    have hat : m.columns[c] = f.solver.decoder.window.elementToColumn e := by
      simp only [hcolumns, regionColumns, List.getElem_map, hget]
    rw [← hat]
    exact hnodup.idxOf_getElem c hlt
  have hgot := (DecoderPacketWindow.mem_lost.mp he).2.2
  refine ⟨?_, ?_, hstocked.lt_count he, ?_⟩
  · have hless := h.faithful.lostNumber_lt hc
    simp only [data] at hless
    rwa [hnumber] at hless
  · rw [hstocked.sound.got_eq] at hgot
    have hsame := h.holds.contents e
    rw [← hsame]
    exact Option.isNone_iff_eq_none.mp (Option.isSome_eq_false_iff.mp hgot)
  · rw [hindex, hpackets c hlt, hnumber]

theorem sums_recovered (h : f.Correct packets starts received base sumStart delivered) {rows : Nat}
    {d : DecoderData} (hpos : 0 < rows) (hne : f.solver.decoder.recoveryPackets ≠ [])
    (hsums : f.data.SumsOf d received base (f.solver.decoder.recoveryPackets.take rows)) :
    ∃ sumStart' ∈ starts, d.SumState f.solver.decoder.recoveryPackets received base sumStart'
        (regionEnd f.solver.decoder.recoveryPackets rows) ∧
      d.window = f.solver.decoder.window := by
  rcases hsums with rfl | ⟨r, hr, hmany, hframe, hrunning, hwithin⟩
  · have hbefore := h.working.stocked.next_lt hpos hne
    exact ⟨sumStart, h.start_mem, h.sums.mono hbefore.le, rfl⟩
  · obtain ⟨i, hi⟩ := List.mem_iff_getElem?.mp hr
    have hlt : i < rows := by
      by_contra hge
      rw [List.getElem?_take_eq_none (Nat.le_of_not_lt hge)] at hi
      cases hi
    rw [List.getElem?_take_of_lt hlt] at hi
    refine ⟨_, (h.arrived r (List.mem_of_getElem? hi)).start_mem hmany,
      .running [] hrunning (hwithin.mono (le_regionEnd hlt hi)), ?_⟩
    rw [hframe]
    rfl

theorem fillLost (h : f.Correct packets starts received base sumStart delivered)
    {m : RecoveryMatrixState} {d : DecoderData} {original : Nat → OriginalPacket}
    (originalColumn : Nat → Nat)
    (hnone : f.solver.decoder.hasRecoveredPackets = false) (hpos : 0 < m.rowCount)
    (hrows : m.rowCount ≤ f.solver.decoder.recoveryPackets.length)
    (hsolved : m.Solved (regionMatrix f.solver.decoder.window f.solver.decoder.recoveryPackets
      m.rowCount))
    (hcolumns : m.columns = regionColumns f.solver.decoder.window f.solver.decoder.recoveryPackets
      m.rowCount)
    (hmade : m.recoverData f.solver.decoder.recoveryPackets f.data = some (d, original)) :
    let decoder := f.solver.decoder.fillLost (regionStart f.solver.decoder.recoveryPackets)
      (regionEnd f.solver.decoder.recoveryPackets m.rowCount)
      (fun e => original (m.columns.idxOf (f.solver.decoder.window.elementToColumn e)))
      d.sumColumnStart d.sumColumnCount
    ∃ received' sumStart', ∃ numbers : List Nat, f.solver.decoder.window.nextExpectedElement ≤
        decoder.window.nextExpectedElement ∧
      decoder.recoveredPackets = numbers.map (fun n => (columnOf n, packetOf packets n)) ∧
      Correct ⟨⟨decoder, .reset, .reset, originalColumn⟩, d.sums,
          d.recoveredColumns ++ m.columns.reverse⟩ packets starts received' base sumStart'
        (numbers ++ delivered) := by
  intro decoder
  obtain ⟨hpackets, hsums⟩ := h.faithful.recoverData hsolved hcolumns hrows hmade
  have hstocked := h.working.stocked
  have hne : f.solver.decoder.recoveryPackets ≠ [] := fun hnil => by
    rw [hnil, List.length_nil] at hrows
    omega
  obtain ⟨sumStart', hmem, hstate, hwindow⟩ := h.sums_recovered hpos hne hsums
  obtain ⟨hworking, hcolumn, hcount, hend, hcontents⟩ := h.working.fillLost hpos hne
    (fun e => original (m.columns.idxOf (f.solver.decoder.window.elementToColumn e)))
    d.sumColumnStart d.sumColumnCount originalColumn
  have hbefore := hstocked.next_lt hpos hne
  have hstart : f.solver.decoder.window.columnStart = columnOf base := h.holds.columnStart_eq
  have helement : ∀ e, f.solver.decoder.window.elementToColumn e = columnOf (base + e) := by
    intro e
    rw [DecoderPacketWindow.elementToColumn, hstart, addColumns_columnOf_right]
  have hrecorded : decoder.recoveredPackets = (regionLost f.solver.decoder.window
      f.solver.decoder.recoveryPackets m.rowCount).map fun e =>
        (f.solver.decoder.window.elementToColumn e,
          original (m.columns.idxOf (f.solver.decoder.window.elementToColumn e))) := rfl
  have hdeleted : ∀ r ∈ decoder.recoveryPackets, r ∈ f.solver.decoder.recoveryPackets :=
    fun r hr => mem_deletePacketsBefore hr
  have hlost := fun e he => h.lost_recovered hcolumns hpackets (e := e) he
  generalize hregion : regionLost f.solver.decoder.window f.solver.decoder.recoveryPackets
    m.rowCount = lost at *
  have hnumbers : (lost.map (base + ·)).reverse.Nodup := by
    refine List.nodup_reverse.mpr (List.Nodup.map (add_right_injective base) ?_)
    rw [← hregion]
    exact DecoderPacketWindow.lost_nodup _ _ _
  have hmemNumbers : ∀ e, base + e ∈ (lost.map (base + ·)).reverse ↔ e ∈ lost := by
    intro e
    rw [List.mem_reverse, List.mem_map_of_injective (add_right_injective base)]
  have hnumber : ∀ n ∈ (lost.map (base + ·)).reverse, ∃ e ∈ lost, n = base + e := by
    intro n hn
    obtain ⟨e, he, rfl⟩ := List.mem_map.mp (List.mem_reverse.mp hn)
    exact ⟨e, he, rfl⟩
  have hfull : f.solver.decoder.window.count ≤ decoder.window.count := Nat.le_of_eq hcount.symm
  have hnext : f.solver.decoder.window.nextExpectedElement ≤
      decoder.window.nextExpectedElement := hbefore.le.trans hend
  have hempty : f.pendingPackets = [] := if_neg (by rw [hnone]; decide)
  have hrecovered : Delivers packets (fun n => if n ∈ (lost.map (base + ·)).reverse then
      some (packetOf packets n) else received n) delivered decoder.recoveredPackets := by
    have hdelivers := h.delivers
    rw [hempty] at hdelivers
    have hsame : decoder.recoveredPackets = [] ++ (lost.map (base + ·)).map
        fun n => (columnOf n, packetOf packets n) := by
      rw [hrecorded, List.nil_append, List.map_map]
      refine List.map_congr_left fun e he => ?_
      rw [(hlost e he).2.2.2, helement]
      rfl
    rw [hsame]
    refine hdelivers.recover (List.nodup_reverse.mp hnumbers) (fun n hn => ?_) fun n => ?_
    · obtain ⟨e, he, rfl⟩ := List.mem_map.mp hn
      exact (hlost e he).2.1
    · simp only [List.mem_reverse]
      by_cases hin : n ∈ lost.map (base + ·)
      · simp only [hin, if_true, true_or, Option.isSome_some]
      · simp only [hin, if_false, false_or]
  obtain ⟨numbers, hnumbers', hdelivers⟩ := hrecovered.handOut
  refine ⟨fun n => if n ∈ (lost.map (base + ·)).reverse then some (packetOf packets n)
    else received n, sumStart', numbers, hnext, hnumbers',
    h.advance hworking ?_ ?_ hfull hnext hdeleted rfl ?_ hmem ?_⟩
  · refine ⟨hworking.stocked.sound, hcolumn.trans hstart, h.holds.base_mod, fun e => ?_,
      fun n packet hn => ?_, fun n hn => ?_⟩
    · refine (hcontents e).trans ?_
      simp only [hmemNumbers]
      split
      · next he => rw [(hlost e he).2.2.2]
      · exact h.holds.contents e
    · split at hn
      · cases hn
        exact ⟨rfl, OriginalPacket.initialized_ne_nil _ _⟩
      · exact h.holds.packets n packet hn
    · split
      · rfl
      · exact h.holds.past n hn
  · refine ⟨h.sent.addable, fun n packet hn => ?_⟩
    split at hn
    · next hin =>
      obtain ⟨e, he, rfl⟩ := hnumber n hin
      cases hn
      exact ⟨(hlost e he).1, rfl⟩
    · exact h.sent.received n packet hn
  · have hreverse : m.columns.reverse = ((lost.map (base + ·)).reverse).map columnOf := by
      rw [hcolumns, regionColumns, hregion, List.map_reverse, List.map_map]
      exact congrArg List.reverse (List.map_congr_left fun e _ => helement e)
    rw [hreverse]
    refine hstate.recover (by rw [hwindow]; exact hfull) hdeleted hnumbers (fun n hn => ?_)
      (fun n hn => ?_) (fun n hn => if_neg hn) hend
    · obtain ⟨e, he, rfl⟩ := hnumber n hn
      exact (hlost e he).2.1
    · obtain ⟨e, he, rfl⟩ := hnumber n hn
      refine ⟨Nat.le_add_right _ _,
        Nat.add_lt_add_left ((hlost e he).2.2.1.trans_le hfull) base, ?_⟩
      simp only [hn, if_true]
      rfl
  · have hpending : pendingPackets ⟨⟨decoder, .reset, .reset, originalColumn⟩, d.sums,
        d.recoveredColumns ++ m.columns.reverse⟩ = [] := by
      have hhas : decoder.hasRecoveredPackets = f.solver.decoder.hasRecoveredPackets := rfl
      exact if_neg (by simp only [hhas, hnone, Bool.false_eq_true, not_false_eq_true])
    rw [hpending]
    exact hdelivers

/-- The packets of a solved region go into the window and elements are removed, as long as the last
recovery packet is not half a column period late. -/
theorem fillRegion (h : f.Correct packets starts received base sumStart delivered)
    {m : RecoveryMatrixState} {d : DecoderData} {original : Nat → OriginalPacket}
    (originalColumn : Nat → Nat)
    (hnone : f.solver.decoder.hasRecoveredPackets = false)
    (hlate : base ≤ f.solver.decoder.lastPacketEnd + kColumnPeriod / 2)
    (hregion : f.solver.checkedRegion.Over f.solver.decoder.window
      f.solver.decoder.recoveryPackets) (hrows : m.rowCount = f.solver.checkedRegion.recoveryCount)
    (hsolved : m.Solved (regionMatrix f.solver.decoder.window f.solver.decoder.recoveryPackets
      m.rowCount))
    (hcolumns : m.columns = regionColumns f.solver.decoder.window f.solver.decoder.recoveryPackets
      m.rowCount)
    (hmade : m.recoverData f.solver.decoder.recoveryPackets f.data = some (d, original)) :
    let f' := (f.withSolver { f.solver with
      recoveryMatrix := m
      originalColumn := originalColumn }).fillRegion d original
    ∃ numbers : List Nat, f'.solver.decoder.recoveredPackets =
        numbers.map (fun n => (columnOf n, packetOf packets n)) ∧
      f'.resetRegion.StaysCorrect packets starts base
        (base + f.solver.decoder.window.nextExpectedElement) (numbers ++ delivered) := by
  have hpos := hregion.pos
  have hle := hregion.le_length
  have hend := hregion.end_eq
  rw [← hrows] at hpos hle hend
  obtain ⟨received', sumStart', numbers, hnext, hnumbers, hfilled⟩ :=
    h.fillLost originalColumn hnone hpos hle hsolved hcolumns hmade
  have hless := Nat.add_le_add_left hnext base
  intro f'
  simp only [f', FullDecoder.fillRegion, FullDecoder.withSolver, hregion.start_eq, hend]
  refine ⟨numbers, ?_, ?_⟩
  · split
    · rw [FullDecoder.removeElements_recoveredPackets]
      exact hnumbers
    · exact hnumbers
  · split
    · rw [FullDecoder.removeElements_resetRegion]
      obtain ⟨hsent, hdisabled | ⟨received, slid, start, hslid, hfar, hcorrect⟩⟩ :=
        hfilled.removeElements hlate
      · exact ⟨hsent, .inl hdisabled⟩
      · exact ⟨hsent, .inr ⟨received, slid, start, hslid, hless.trans hfar,
          hcorrect.resetRegion⟩⟩
    · exact .of_correct hfilled hless

theorem decodeCheckedRegion (h : f.Correct packets starts received base sumStart delivered)
    (hattempting : f.solver.Attempting)
    (hnone : f.solver.decoder.hasRecoveredPackets = false)
    (hlate : base ≤ f.solver.decoder.lastPacketEnd + kColumnPeriod / 2)
    (hrank : RegionFullRank f.solver.decoder.window f.solver.decoder.recoveryPackets
      f.solver.checkedRegion.recoveryCount) :
    f.decodeCheckedRegion.2.1 ≠ .needMoreData ∧ ∃ numbers : List Nat,
      f.decodeCheckedRegion.2.2 = numbers.map (fun n => (columnOf n, packetOf packets n)) ∧
      f.decodeCheckedRegion.1.StaysCorrect packets starts base
        (base + f.solver.decoder.window.nextExpectedElement) (numbers ++ delivered) := by
  obtain ⟨m, originalColumn, heq, hover, hcount, hle⟩ := hattempting.generated
  obtain ⟨hiff, hyes, -⟩ := hover.gaussianElimination hle
  have hsolve := hiff.mpr (hcount.symm ▸ hrank)
  obtain ⟨hsolved, hcolumns, hrows⟩ := hyes hsolve
  rw [← hrows] at hsolved
  rw [hover.columns_eq, ← hrows] at hcolumns
  unfold FullDecoder.decodeCheckedRegion
  simp only [heq, hsolve, if_true]
  generalize m.gaussianElimination.1 = solvedMatrix at *
  cases hmade : solvedMatrix.recoverData f.solver.decoder.recoveryPackets f.data with
  | none => exact ⟨by simp, [], rfl, h.disabled rfl⟩
  | some r =>
    obtain ⟨d, original⟩ := r
    simp only [hattempting.iterateNextExpected, if_true]
    exact ⟨by simp, h.fillRegion originalColumn hnone hlate hattempting.region (hrows.trans hcount)
      hsolved hcolumns hmade⟩

/-- Decode hands out packets that were sent, and leaves the decoder right, as long as the last recovery
packet is not half a column period late. -/
theorem decode (h : f.Correct packets starts received base sumStart delivered)
    (hlate : base ≤ f.solver.decoder.lastPacketEnd + kColumnPeriod / 2) :
    ∃ numbers : List Nat, f.decode.2.2 = numbers.map (fun n => (columnOf n, packetOf packets n)) ∧
      f.decode.1.StaysCorrect packets starts base
        (base + f.solver.decoder.window.nextExpectedElement) (numbers ++ delivered) := by
  unfold FullDecoder.decode
  simp only
  split
  · exact ⟨[], rfl, .of_correct h (Nat.le_refl _)⟩
  next hok =>
  have hok := Bool.eq_false_of_not_eq_true hok
  split
  · next hhas =>
    obtain ⟨numbers, hpending, hdelivers⟩ := h.delivers.handOut
    rw [pendingPackets, if_pos hhas] at hpending
    have hhanded : (f.withSolver { f.solver with decoder := { f.solver.decoder with
        hasRecoveredPackets := false } }).Correct packets starts received base sumStart
        (numbers ++ delivered) :=
      ⟨⟨h.working.stocked, h.working.ordered, h.working.checked⟩, h.holds, h.sent, h.arrived,
        h.place, h.sums, h.start_mem, h.apart, h.last, hdelivers, h.empty⟩
    exact ⟨numbers, hpending, .of_correct hhanded (Nat.le_refl _)⟩
  next hnone =>
  have hnone := Bool.eq_false_of_not_eq_true hnone
  have hadvanced := Solver.checkRecoveryPossible_advanced hok h.working.stocked h.working.checked
  have hdecoder := hadvanced.decoder_eq
  have hchecked := h.checkRegion hdecoder hadvanced.checked
  have hexpected : f.solver.checkRecoveryPossible.1.decoder.window.nextExpectedElement =
    f.solver.decoder.window.nextExpectedElement := by rw [hdecoder]
  have hattempting := h.working.attempting hok
  generalize f.solver.checkRecoveryPossible.1 = s at *
  split
  · next hpossible =>
    have hattempting := hattempting hpossible
    by_cases hrank : RegionFullRank s.decoder.window s.decoder.recoveryPackets
        s.checkedRegion.recoveryCount
    · obtain ⟨hdone, numbers, hfound, hstays⟩ := hchecked.decodeCheckedRegion hattempting
        (hdecoder ▸ hnone) (hdecoder ▸ hlate) hrank
      unfold FullDecoder.decodeLoop
      simp only [if_pos hattempting.enough, if_neg hdone]
      exact ⟨numbers, hfound, hexpected ▸ hstays⟩
    · obtain ⟨s', heq, hdecoder', hchecked', -⟩ := hattempting.decodeLoop_fails hrank none
        hattempting.region (Nat.le_refl _) rfl (.inr hattempting.enough)
      have hloop : decodeLoop (s.decoder.recoveryPackets.drop s.checkedRegion.recoveryCount)
          s.checkedRegion (f.withSolver s) = (f.withSolver s', .needMoreData, []) := by
        rw [decodeLoop_fails hattempting hrank (.inr hattempting.enough)]
        exact congrArg (fun r => (f.withSolver r, SiameseResult.needMoreData, []))
          (congrArg Prod.fst heq)
      rw [hloop]
      refine ⟨[], rfl, .of_correct (h.checkRegion (hdecoder'.trans hdecoder) hchecked')
        (Nat.add_le_add_left ?_ base)⟩
      exact (hexpected.symm.trans (congrArg (·.window.nextExpectedElement) hdecoder'.symm)).le
  · exact ⟨[], rfl, .of_correct hchecked (Nat.add_le_add_left hexpected.ge base)⟩

end Correct
end FullDecoder
end Tonk.Siamese
