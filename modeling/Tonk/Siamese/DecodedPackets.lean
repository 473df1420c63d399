import Tonk.Siamese.SolverInvariant
import Tonk.Siamese.SumRemoval

/-!
The decoder with its data is right about the packets: what it holds are the sender's packets of these
numbers, and what it knows of recovery packets and sums is enough to find more of them. Every
operation keeps it so, or disables the decoder.
-/

set_option autoImplicit false

namespace Tonk.Siamese
open Protocol Finset

/-- A recovery packet of the sender. If it is a row of sums, the number of the packet they start with
is one of `starts`. -/
structure Arrived (packets : List Bytes) (starts : List Nat) (m : RecoveryMetadata)
    (buffer : RecoveryData) : Prop where
  readable : m.Readable
  combines : Combines m buffer.bytes (packets.take buffer.packetEnd)
  end_le : buffer.packetEnd ≤ packets.length
  start_mem : siameseCauchyThreshold < m.sumCount → buffer.packetEnd - m.sumCount ∈ starts

namespace Arrived

variable {packets : List Bytes} {starts : List Nat} {m : RecoveryMetadata} {buffer : RecoveryData}

theorem madeOf (h : Arrived packets starts m buffer) (elementStart elementEnd : Nat) :
    MadeOf packets ⟨m, elementStart, elementEnd, buffer⟩ := ⟨h.combines, h.end_le⟩

theorem endsAt (h : Arrived packets starts m buffer) : m.EndsAt buffer.packetEnd :=
  (h.madeOf 0 0).endsAt

theorem mono (h : Arrived packets starts m buffer) {starts' : List Nat}
    (hsub : ∀ n ∈ starts, n ∈ starts') : Arrived packets starts' m buffer :=
  ⟨h.readable, h.combines, h.end_le, fun hmany => hsub _ (h.start_mem hmany)⟩

theorem single (h : Arrived packets starts m buffer) (hone : m.sumCount = 1)
    (haddable : ∀ data ∈ packets, Addable data) {original : OriginalPacket}
    (hsome : singleOriginal m.columnStart buffer.bytes = some original) :
    original = packetOf packets (buffer.packetEnd - 1) := by
  have hends := h.endsAt
  have hpos := hends.sum_le
  have hldpc := hends.ldpc_pos
  have hcolumn := hends.columnStart_eq
  rw [hone] at hpos hcolumn
  have hlength := (h.madeOf 0 0).length_take
  have hlt : buffer.packetEnd - 1 < packets.length := by
    have := h.end_le
    omega
  have hdata : Addable (packets.getD (buffer.packetEnd - 1) []) := by
    rw [List.getD_eq_getElem _ _ hlt]
    exact haddable _ (List.getElem_mem hlt)
  have hpacket : packetOf packets (buffer.packetEnd - 1) =
      .initialized m.columnStart (packets.getD (buffer.packetEnd - 1) []) := by
    rw [packetOf, hcolumn]
  have hfits := (h.madeOf 0 0).fits (n := buffer.packetEnd - 1) (by
    have := hends.ldpc_le
    simp only
    omega) (by simp only; omega)
  simp only at hfits
  have hpadded : buffer.bytes.padded =
      (packetOf packets (buffer.packetEnd - 1)).buffer.padded := by
    funext i
    by_cases hi : i < buffer.bytes.length
    · have hbyte := h.combines.byte_eq i hi
      rw [hlength, hone, show Ico (buffer.packetEnd - 1) buffer.packetEnd =
        {buffer.packetEnd - 1} by ext n; simp only [mem_Ico, mem_singleton]; omega,
        sum_singleton, MadeOf.packetOf_take packets (by omega)] at hbyte
      have hthreshold : 1 ≤ siameseCauchyThreshold := by decide
      rw [hbyte]
      simp only [coefficient, rowValue, lightPairs, hone, hthreshold, h.combines.single_row hone,
        if_true, lightCoefficient, add_zero, one_mul]
    · rw [DataBuffer.padded_eq_zero (by omega), DataBuffer.padded_eq_zero (by omega)]
  have htake := DataBuffer.take_eq hfits hpadded
  rw [hpacket] at htake ⊢
  generalize packets.getD (buffer.packetEnd - 1) [] = data at *
  have hsplit : DataBuffer.toBytes buffer.bytes =
      serializeHeaderPacketLength data.length ++ (data ++ DataBuffer.toBytes (buffer.bytes.drop
        (OriginalPacket.initialized m.columnStart data).buffer.length)) := by
    have hwhole := congrArg DataBuffer.toBytes (List.take_append_drop
      (OriginalPacket.initialized m.columnStart data).buffer.length buffer.bytes).symm
    rw [htake] at hwhole
    rw [hwhole, ← List.append_assoc]
    unfold DataBuffer.toBytes
    rw [List.map_append]
    exact congrArg (· ++ _) (DataBuffer.toBytes_map_byteElement _)
  unfold singleOriginal at hsome
  simp only [hsplit, deserializeHeaderPacketLength_serialize hdata.2] at hsome
  split at hsome
  · cases hsome
  · next hwhole =>
    cases hsome
    rw [not_or, not_not] at hwhole
    have hrest := hwhole.2
    rw [List.length_append, List.length_append] at hrest
    have hnil : DataBuffer.toBytes (buffer.bytes.drop
        (OriginalPacket.initialized m.columnStart data).buffer.length) = [] :=
      List.length_eq_zero_iff.mp (by omega)
    rw [hnil, List.append_nil, List.drop_left]

end Arrived

def Decoder.lastPacketEnd {α : Type} (d : Decoder α RecoveryData) : Nat :=
  match d.lastRecovery with
  | none => 0
  | some (_, buffer) => buffer.packetEnd

theorem Decoder.targetSums_frame {α β : Type} {d d' : Decoder α β} {r : Removal}
    (h : d.targetSums r = some d') : d' = { d with
      sumColumnStart := d'.sumColumnStart
      sumColumnCount := d'.sumColumnCount } := by
  unfold targetSums at h
  split at h
  · split at h
    · split at h
      · cases h
      · cases h
        rfl
    · cases h
      rfl
  · cases h
    rfl

theorem Decoder.addSingleRecovery_new {α β : Type} (d : Decoder α β) (columnStart : Nat) (data : α)
    (hvalid : d.window.invalidElement (d.window.columnToElement columnStart) = false)
    (hnone : d.window.getWindowElement (d.window.columnToElement columnStart) = none) :
    d.addSingleRecovery columnStart (some data) false =
      let window := d.window.fill (d.window.columnToElement columnStart) data
      { d with
        window := window
        recoveryPackets := if d.window.columnToElement columnStart = d.window.nextExpectedElement then
          deletePacketsBefore window.nextExpectedElement d.recoveryPackets else d.recoveryPackets
        recoveredPackets := (if d.hasRecoveredPackets then d.recoveredPackets else []) ++
          [(columnStart, data)]
        hasRecoveredPackets := true } := by
  unfold Decoder.addSingleRecovery
  simp only [hvalid, hnone, Option.isSome_none, Bool.false_eq_true, if_false]
  split
  · rfl
  · rfl

/-- A packet that was missing and is not in the region is not the one expected next, so that
AddSingleRecovery has nothing to remove. -/
theorem Solver.Working.region_after {α β : Type} {s s' : Solver α β} (h : s.Working) {element : Nat}
    (hregion : s'.checkedRegion =
      if s.checkedRegion.covers element then .reset else s.checkedRegion) :
    ¬ (element = s.decoder.window.nextExpectedElement ∧
      kDecoderRemoveThreshold ≤ s'.checkedRegion.nextCheckStart) := by
  have hshort : ¬ kDecoderRemoveThreshold ≤ CheckedRegionState.reset.nextCheckStart := by decide
  rintro ⟨rfl, hfar⟩
  rw [hregion] at hfar
  split at hfar
  · exact hshort hfar
  · next hcovers =>
    rcases h.checked.covers_next h.stocked with ⟨hreset, -⟩ | ⟨-, hstart, hend⟩
    · rw [hreset] at hfar
      exact hshort hfar
    · exact hcovers (decide_eq_true ⟨hstart, hend⟩)

theorem DecoderData.removeElements_targetSums {d d' : DecoderData}
    {e : Decoder OriginalPacket RecoveryData} {r : Decoder.Removal} {initialRecoveryBytes : Nat}
    (hwindow : e.window = d.window) (hcolumn : e.sumColumnStart = d.sumColumnStart)
    (hcount : e.sumColumnCount = d.sumColumnCount)
    (h : d.removeElements r initialRecoveryBytes = some d') :
    ∃ target, e.targetSums r = some target ∧ d' = { d' with
      window := d.window.shift (r.firstKeptElement / kSubwindowSize)
      sumColumnStart := target.sumColumnStart
      sumColumnCount := target.sumColumnCount } := by
  unfold DecoderData.removeElements DecoderData.targetSums at h
  unfold Decoder.targetSums
  simp only at h
  obtain ⟨summed, hsummed, rfl⟩ := Option.map_eq_some_iff.mp h
  rw [hwindow, hcolumn, hcount]
  split at hsummed
  · next hseen =>
    obtain ⟨rolled, hrolled, rfl⟩ := Option.map_eq_some_iff.mp hsummed
    rw [if_pos hseen]
    split at hrolled
    · next hrestarts =>
      rw [if_pos hrestarts]
      split at hrolled
      · cases hrolled
      · next hin =>
        cases hrolled
        rw [if_neg hin]
        exact ⟨_, rfl, rfl⟩
    · next hkeeps =>
      rw [if_neg hkeeps]
      obtain ⟨heq, -⟩ := startSums_eq hrolled
      refine ⟨_, rfl, ?_⟩
      simp only [rollSums]
      rw [heq, hcolumn, hcount]
  · next hunseen =>
    cases hsummed
    rw [if_neg hunseen]
    exact ⟨_, rfl, rfl⟩

/-- The packets received are those that were handed out, each of them once, and those that are pending
for the next call of Decode. -/
def Delivers (packets : List Bytes) (received : Nat → Option OriginalPacket) (delivered : List Nat)
    (pending : List (Nat × OriginalPacket)) : Prop :=
  ∃ numbers : List Nat, pending = numbers.map (fun n => (columnOf n, packetOf packets n)) ∧
    (numbers ++ delivered).Nodup ∧ ∀ n, (received n).isSome = true ↔ n ∈ numbers ++ delivered

namespace Delivers

variable {packets : List Bytes} {received received' : Nat → Option OriginalPacket}
variable {delivered : List Nat} {pending : List (Nat × OriginalPacket)}

theorem receive (h : Delivers packets received delivered pending) {n : Nat}
    (hnone : received n = none) (hsome : ∀ k, (received' k).isSome = true ↔
      k = n ∨ (received k).isSome = true) :
    Delivers packets received' (n :: delivered) pending := by
  obtain ⟨numbers, hpending, hnodup, hall⟩ := h
  have hnew : n ∉ numbers ++ delivered := fun hmem => by
    have hreceived := (hall n).mpr hmem
    rw [hnone] at hreceived
    exact Bool.noConfusion hreceived
  refine ⟨numbers, hpending, ?_, fun k => ?_⟩
  · exact List.nodup_middle.mpr (List.nodup_cons.mpr ⟨hnew, hnodup⟩)
  · rw [hsome, hall]
    simp only [List.mem_append, List.mem_cons]
    tauto

theorem recover (h : Delivers packets received delivered pending) {lost : List Nat}
    (hlost : lost.Nodup) (hnone : ∀ n ∈ lost, received n = none)
    (hsome : ∀ k, (received' k).isSome = true ↔ k ∈ lost ∨ (received k).isSome = true) :
    Delivers packets received' delivered
      (pending ++ lost.map fun n => (columnOf n, packetOf packets n)) := by
  obtain ⟨numbers, hpending, hnodup, hall⟩ := h
  have hnew : ∀ n ∈ lost, n ∉ numbers ++ delivered := fun n hn hmem => by
    have hreceived := (hall n).mpr hmem
    rw [hnone n hn] at hreceived
    exact Bool.noConfusion hreceived
  have hperm : (numbers ++ lost ++ delivered).Perm (lost ++ (numbers ++ delivered)) := by
    rw [← List.append_assoc]
    exact List.perm_append_comm.append_right delivered
  refine ⟨numbers ++ lost, by rw [hpending, List.map_append], ?_, fun k => ?_⟩
  · exact hperm.nodup_iff.mpr (hlost.append hnodup fun n hn hmem => hnew n hn hmem)
  · rw [hsome, hall, hperm.mem_iff, List.mem_append (s := lost)]

theorem handOut (h : Delivers packets received delivered pending) :
    ∃ numbers : List Nat, pending = numbers.map (fun n => (columnOf n, packetOf packets n)) ∧
      Delivers packets received (numbers ++ delivered) [] := by
  obtain ⟨numbers, hpending, hnodup, hall⟩ := h
  exact ⟨numbers, hpending, [], rfl, hnodup, hall⟩

end Delivers

namespace FullDecoder

def pendingPackets (f : FullDecoder) : List (Nat × OriginalPacket) :=
  if f.solver.decoder.hasRecoveredPackets then f.solver.decoder.recoveredPackets else []

theorem pendingPackets_congr {f f' : FullDecoder}
    (hhas : f'.solver.decoder.hasRecoveredPackets = f.solver.decoder.hasRecoveredPackets)
    (hrecovered : f'.solver.decoder.recoveredPackets = f.solver.decoder.recoveredPackets) :
    f'.pendingPackets = f.pendingPackets := by
  simp only [pendingPackets, hhas, hrecovered]

/-- The decoder is right about the packets. The window starts with the packet `base` and the sums,
unless they were given up, with the packet `sumStart`. -/
structure Correct (f : FullDecoder) (packets : List Bytes) (starts : List Nat)
    (received : Nat → Option OriginalPacket) (base sumStart : Nat) (delivered : List Nat) :
    Prop where
  working : f.solver.Working
  holds : f.data.Holds received base
  sent : Sent packets received
  arrived : ∀ r ∈ f.solver.decoder.recoveryPackets, Arrived packets starts r.metadata r.buffer
  place : ∀ r ∈ f.solver.decoder.recoveryPackets, base + r.elementEnd = r.buffer.packetEnd
  sums : f.data.SumState f.solver.decoder.recoveryPackets received base sumStart
    f.solver.decoder.window.nextExpectedElement
  start_mem : sumStart ∈ starts
  apart : ∀ n ∈ starts, ∀ n' ∈ starts, columnOf n = columnOf n' → n = n'
  last : ∀ m buffer, f.solver.decoder.lastRecovery = some (m, buffer) →
    Arrived packets starts m buffer ∧
      buffer.packetEnd ≤ base + f.solver.decoder.window.count ∧
      buffer.packetEnd ≤ base + f.solver.decoder.window.nextExpectedElement + m.ldpcCount
  delivers : Delivers packets received delivered f.pendingPackets
  empty : f.solver.decoder.window.count = 0 → base = 0

theorem correct_initial {packets : List Bytes} (haddable : ∀ data ∈ packets, Addable data) :
    initial.Correct packets [0] (fun _ => none) 0 0 [] := by
  refine ⟨Solver.working_initial, DecoderData.holds_initial, ⟨haddable, nofun⟩, nofun, nofun,
    .givenUp ⟨rfl, rfl, fun _ _ _ _ _ => .inl rfl, nofun⟩, List.mem_singleton.mpr rfl,
    fun n hn n' hn' _ => ?_, nofun, ⟨[], rfl, List.nodup_nil, fun n => ?_⟩, fun _ => rfl⟩
  · rw [List.mem_singleton.mp hn, List.mem_singleton.mp hn']
  · simp

variable {f f' : FullDecoder} {packets : List Bytes} {starts delivered delivered' : List Nat}
variable {received received' : Nat → Option OriginalPacket} {base sumStart : Nat}

theorem Correct.delivered_sent (h : f.Correct packets starts received base sumStart delivered) :
    delivered.Nodup ∧ ∀ n ∈ delivered, n < packets.length := by
  obtain ⟨numbers, -, hnodup, hall⟩ := h.delivers
  refine ⟨(List.nodup_append'.mp hnodup).2.1, fun n hn => ?_⟩
  obtain ⟨original, hreceived⟩ :=
    Option.isSome_iff_exists.mp ((hall n).mpr (List.mem_append_right numbers hn))
  exact (h.sent.received n original hreceived).1

/-- The disabled decoder, or one that is right with a window that has slid no further than the packets
it expected, which have become no fewer. -/
def StaysCorrect (f' : FullDecoder) (packets : List Bytes) (starts : List Nat)
    (base expected : Nat) (delivered : List Nat) : Prop :=
  (delivered.Nodup ∧ ∀ n ∈ delivered, n < packets.length) ∧
    (f'.solver.decoder.emergencyDisabled = true ∨ ∃ received slid sumStart,
      slid ≤ kColumnPeriod / 2 ∧
      expected ≤ base + slid + f'.solver.decoder.window.nextExpectedElement ∧
      f'.Correct packets starts received (base + slid) sumStart delivered)

theorem StaysCorrect.of_correct {expected : Nat}
    (h : f'.Correct packets starts received base sumStart delivered)
    (hexpected : expected ≤ base + f'.solver.decoder.window.nextExpectedElement) :
    f'.StaysCorrect packets starts base expected delivered :=
  ⟨h.delivered_sent, .inr ⟨received, 0, sumStart, Nat.zero_le _, hexpected, h⟩⟩

theorem Correct.disabled (h : f.Correct packets starts received base sumStart delivered)
    {expected : Nat} (hdisabled : f'.solver.decoder.emergencyDisabled = true) :
    f'.StaysCorrect packets starts base expected delivered := ⟨h.delivered_sent, .inl hdisabled⟩

theorem StaysCorrect.mono {expected expected' : Nat}
    (h : f'.StaysCorrect packets starts base expected delivered) (hle : expected' ≤ expected) :
    f'.StaysCorrect packets starts base expected' delivered :=
  h.imp_right (Or.imp_right fun ⟨received, slid, sumStart, hslid, hexpected, hcorrect⟩ =>
    ⟨received, slid, sumStart, hslid, hle.trans hexpected, hcorrect⟩)

namespace Correct

theorem withSolver (h : f.Correct packets starts received base sumStart delivered)
    {s : Solver OriginalPacket RecoveryData} (hworking : s.Working)
    (hwindow : s.decoder.window = f.solver.decoder.window)
    (hpackets : s.decoder.recoveryPackets = f.solver.decoder.recoveryPackets)
    (hcolumn : s.decoder.sumColumnStart = f.solver.decoder.sumColumnStart)
    (hcount : s.decoder.sumColumnCount = f.solver.decoder.sumColumnCount)
    (hrecovered : s.decoder.recoveredPackets = f.solver.decoder.recoveredPackets)
    (hhas : s.decoder.hasRecoveredPackets = f.solver.decoder.hasRecoveredPackets)
    (hlast : s.decoder.lastRecovery = f.solver.decoder.lastRecovery) :
    (f.withSolver s).Correct packets starts received base sumStart delivered := by
  have hdata : (f.withSolver s).data = f.data := by
    simp only [data, FullDecoder.withSolver, hwindow, hcolumn, hcount]
  refine ⟨hworking, hdata ▸ h.holds, h.sent, ?_, ?_, ?_, h.start_mem, h.apart, ?_, ?_, ?_⟩
  · simp only [FullDecoder.withSolver, hpackets]
    exact h.arrived
  · simp only [FullDecoder.withSolver, hpackets]
    exact h.place
  · rw [hdata]
    simp only [FullDecoder.withSolver, hpackets, hwindow]
    exact h.sums
  · simp only [FullDecoder.withSolver, hlast, hwindow]
    exact h.last
  · rw [pendingPackets_congr (f := f) hhas hrecovered]
    exact h.delivers
  · simp only [FullDecoder.withSolver, hwindow]
    exact h.empty

theorem advance (h : f.Correct packets starts received base sumStart delivered) {sumStart' : Nat}
    (hworking : f'.solver.Working) (hholds : f'.data.Holds received' base)
    (hsent : Sent packets received')
    (hcount : f.solver.decoder.window.count ≤ f'.solver.decoder.window.count)
    (hnext : f.solver.decoder.window.nextExpectedElement ≤
      f'.solver.decoder.window.nextExpectedElement)
    (hstored : ∀ r ∈ f'.solver.decoder.recoveryPackets, r ∈ f.solver.decoder.recoveryPackets)
    (hlast : f'.solver.decoder.lastRecovery = f.solver.decoder.lastRecovery)
    (hsums : f'.data.SumState f'.solver.decoder.recoveryPackets received' base sumStart'
      f'.solver.decoder.window.nextExpectedElement) (hstart : sumStart' ∈ starts)
    (hdelivers : Delivers packets received' delivered' f'.pendingPackets) :
    f'.Correct packets starts received' base sumStart' delivered' := by
  refine ⟨hworking, hholds, hsent, fun r hr => h.arrived r (hstored r hr),
    fun r hr => h.place r (hstored r hr), hsums, hstart, h.apart, fun m buffer hm => ?_, hdelivers,
    fun hzero => h.empty (by omega)⟩
  rw [hlast] at hm
  obtain ⟨harrived, hend, hneeded⟩ := h.last m buffer hm
  exact ⟨harrived, by omega, by omega⟩

theorem element_eq (h : f.Correct packets starts received base sumStart delivered) {n : Nat}
    (hlate : base ≤ n + kColumnPeriod / 2) (hearly : n < base + kColumnPeriod)
    (hneg : isColumnDeltaNegative (f.solver.decoder.window.columnToElement (columnOf n)) = false) :
    base ≤ n ∧ f.solver.decoder.window.columnToElement (columnOf n) = n - base := by
  have hcolumn : f.solver.decoder.window.columnStart = columnOf base := h.holds.columnStart_eq
  have hbase : base ≤ n := by
    by_contra hlt
    have hhalf : kColumnPeriod / 2 ≤ kColumnPeriod := by decide
    rw [DecoderPacketWindow.columnToElement, hcolumn,
      subtractColumns_columnOf_neg (Nat.lt_of_not_le hlt) (by omega),
      isColumnDeltaNegative_eq_false_iff] at hneg
    simp only [kColumnPeriod] at hlate hneg
    omega
  refine ⟨hbase, ?_⟩
  rw [DecoderPacketWindow.columnToElement, hcolumn]
  exact subtractColumns_columnOf hbase (by omega)

theorem elementEnd_eq (h : f.Correct packets starts received base sumStart delivered)
    {m : RecoveryMetadata} {packetEnd : Nat} (hends : m.EndsAt packetEnd) (hlate : base ≤ packetEnd + kColumnPeriod / 2)
    (hearly : packetEnd < base + kColumnPeriod)
    (hneg : isColumnDeltaNegative
      (f.solver.decoder.window.columnToElement (m.columnStart + m.sumCount)) = false) :
    base ≤ packetEnd ∧ f.solver.decoder.window.columnToElement (m.columnStart + m.sumCount) =
      packetEnd - base := by
  have hcolumn : f.solver.decoder.window.columnToElement (m.columnStart + m.sumCount) =
      f.solver.decoder.window.columnToElement (columnOf packetEnd) := hends.subtract _
  rw [hcolumn] at hneg ⊢
  exact h.element_eq hlate hearly hneg

theorem last_inPlace (h : f.Correct packets starts received base sumStart delivered)
    (hlate : base ≤ f.solver.decoder.lastPacketEnd + kColumnPeriod / 2) :
    Solver.InPlace f.solver.decoder.window f.solver.decoder.lastRecoveryMetadata := by
  have hmax := h.holds.sound.count_le
  simp only [data] at hmax
  intro hneg
  unfold Decoder.lastPacketEnd at hlate
  unfold Decoder.lastRecoveryMetadata at hneg ⊢
  cases hlast : f.solver.decoder.lastRecovery with
  | none =>
    simp only [hlast] at hlate hneg ⊢
    have hzero : columnOf 0 = 0 + 0 := rfl
    rw [← hzero] at hneg ⊢
    obtain ⟨-, heq⟩ := h.element_eq hlate (by simp only [kColumnPeriod]; omega) hneg
    omega
  | some last =>
    obtain ⟨m, buffer⟩ := last
    simp only [hlast] at hlate hneg ⊢
    obtain ⟨harrived, hend, hneeded⟩ := h.last m buffer hlast
    obtain ⟨-, heq⟩ := h.elementEnd_eq harrived.endsAt hlate
      (by simp only [kColumnPeriod] at hmax ⊢; omega) hneg
    omega

theorem target (h : f.Correct packets starts received base sumStart delivered)
    (hlate : base ≤ f.solver.decoder.lastPacketEnd + kColumnPeriod / 2) {r : Decoder.Removal}
    (hplan : f.solver.decoder.planRemoval = some r) (hseen : r.seenSum = true) :
    ∃ target ∈ starts, r.targetSumStartColumn = columnOf target ∧
      f.data.Target f.solver.decoder.recoveryPackets base sumStart
        f.solver.decoder.window.nextExpectedElement target := by
  have hmax := h.holds.sound.count_le
  have hcol : f.data.sumColumnStart = columnOf sumStart := by
    cases h.sums with
    | running pending hrunning => exact hrunning.column_eq
    | givenUp hgiven => exact hgiven.column_eq
  have hsame : ∀ n ∈ starts, columnOf n = f.data.sumColumnStart → n = sumStart := fun n hn heq =>
    h.apart n hn sumStart h.start_mem (heq.trans hcol)
  by_cases hnil : f.solver.decoder.recoveryPackets = []
  · obtain ⟨hneg, -, htarget, hmany⟩ := Decoder.planRemoval_last hnil hplan
    have hmany := hmany hseen
    unfold Decoder.lastPacketEnd at hlate
    unfold Decoder.lastRecoveryMetadata at hneg htarget hmany
    cases hlast : f.solver.decoder.lastRecovery with
    | none =>
      simp only [hlast] at hmany
      exact absurd hmany (Nat.not_lt_zero _)
    | some last =>
      obtain ⟨m, buffer⟩ := last
      simp only [hlast] at hlate hneg htarget hmany
      obtain ⟨harrived, hend, hneeded⟩ := h.last m buffer hlast
      have hends := harrived.endsAt
      have hsum := hends.sum_le
      have hldpc := hends.ldpc_le
      have hpos := harrived.readable.sum_pos
      have hfew := harrived.readable.sum_le
      simp only [data] at hmax
      obtain ⟨hbase, -⟩ := h.elementEnd_eq hends hlate
        (by simp only [kColumnPeriod] at hmax ⊢; omega) hneg
      refine ⟨_, harrived.start_mem hmany, htarget.trans hends.columnStart_eq,
        hsame _ (harrived.start_mem hmany), ?_, ?_, ?_, fun _ => .inr hnil⟩
      · simp only [data, kColumnPeriod] at hmax ⊢
        omega
      · simp only [data]
        omega
      · omega
  · obtain ⟨x, hx, hmany, htarget⟩ := (Decoder.planRemoval_stored hnil hplan).1 hseen
    have harrived := h.arrived x hx
    have hrow : f.data.RowAt base x.buffer.packetEnd x :=
      ⟨h.working.stocked.stored x hx, harrived.endsAt, harrived.combines.few_eq, h.place x hx⟩
    have hplace := h.place x hx
    have hstored := hrow.stored
    have hstart := hstored.start_eq
    have hle := hstored.start_le
    have hend := hstored.end_le
    have hsum := hrow.endsAt.sum_le
    have hldpc := hrow.endsAt.ldpc_le
    have hpos := harrived.readable.sum_pos
    refine ⟨_, harrived.start_mem hmany, htarget.trans hrow.endsAt.columnStart_eq,
      hsame _ (harrived.start_mem hmany), hrow.span h.holds, by omega, ?_,
      fun hgiven => .inl (hgiven.stored_ge x hx hmany)⟩
    simp only [data] at hle
    omega

theorem firstKept_lt (h : f.Correct packets starts received base sumStart delivered)
    (hlate : base ≤ f.solver.decoder.lastPacketEnd + kColumnPeriod / 2) {r : Decoder.Removal}
    (hplan : f.solver.decoder.planRemoval = some r)
    (hfar : kDecoderRemoveThreshold ≤ r.firstKeptElement) :
    r.firstKeptElement < f.solver.decoder.window.count := by
  have hthreshold : kDecoderRemoveThreshold = 128 := rfl
  cases hpackets : f.solver.decoder.recoveryPackets with
  | nil =>
    have hmax := h.holds.sound.count_le
    simp only [data] at hmax
    obtain ⟨hneg, hfirst, -⟩ := Decoder.planRemoval_last hpackets hplan
    unfold Decoder.lastPacketEnd at hlate
    unfold Decoder.lastRecoveryMetadata at hneg hfirst
    cases hlast : f.solver.decoder.lastRecovery with
    | none =>
      simp only [hlast] at hlate hneg hfirst
      have hzero : columnOf 0 = 0 + 0 := rfl
      rw [← hzero] at hneg hfirst
      obtain ⟨-, heq⟩ := h.element_eq hlate (by simp only [kColumnPeriod]; omega) hneg
      omega
    | some last =>
      obtain ⟨m, buffer⟩ := last
      simp only [hlast] at hlate hneg hfirst
      obtain ⟨harrived, hend, hneeded⟩ := h.last m buffer hlast
      have hpos := harrived.endsAt.ldpc_pos
      obtain ⟨-, heq⟩ := h.elementEnd_eq harrived.endsAt hlate
        (by simp only [kColumnPeriod] at hmax ⊢; omega) hneg
      omega
  | cons head rest =>
    have hmem : head ∈ f.solver.decoder.recoveryPackets := by
      rw [hpackets]
      exact List.mem_cons_self
    have hkept := (Solver.planRemoval_le h.working.stocked (fun _ => h.last_inPlace hlate) hplan).2
      head hmem
    have hstored := h.working.stocked.stored head hmem
    have hstart := hstored.start_eq
    have hend := hstored.end_le
    have hpos := hstored.ldpc_pos
    omega

theorem removeElements (h : f.Correct packets starts received base sumStart delivered)
    (hlate : base ≤ f.solver.decoder.lastPacketEnd + kColumnPeriod / 2) :
    f.removeElements.StaysCorrect packets starts base
      (base + f.solver.decoder.window.nextExpectedElement) delivered := by
  have hplace := h.last_inPlace hlate
  unfold FullDecoder.removeElements
  simp only
  split
  · exact .of_correct h (Nat.le_refl _)
  next hfilled =>
  cases hplan : f.solver.decoder.planRemoval with
  | none => exact h.disabled rfl
  | some r =>
    simp only
    split
    · exact .of_correct h (Nat.le_refl _)
    next hfar =>
    cases hdata : f.data.removeElements r f.solver.decoder.initialRecoveryBytes with
    | none => exact h.disabled rfl
    | some d =>
      simp only
      have hthreshold : kDecoderRemoveThreshold = 128 := rfl
      have hsize : kSubwindowSize = 64 := rfl
      obtain ⟨hnext, hkept⟩ := Solver.planRemoval_le h.working.stocked (fun _ => hplace) hplan
      have hlt := h.firstKept_lt hlate hplan (Nat.le_of_not_lt hfar)
      have hmax := h.holds.sound.count_le
      have hle := h.holds.sound.next_le
      simp only [data] at hmax hle
      have hdiv := Nat.div_mul_le_self r.firstKeptElement kSubwindowSize
      obtain ⟨sums, hsums, hframe⟩ :=
        DecoderData.removeElements_targetSums (e := f.solver.decoder) rfl rfl rfl hdata
      have hdecoder : f.solver.removeElements.decoder =
          sums.shift (r.firstKeptElement / kSubwindowSize) := by
        rw [Solver.removeElements_decoder, Decoder.removeElements, if_neg hfilled, hplan]
        simp only
        rw [if_neg hfar, hsums]
      rw [Decoder.targetSums_frame hsums] at hdecoder
      have hpos : 0 < r.firstKeptElement / kSubwindowSize :=
        Nat.div_pos (by omega) (by decide)
      have hcount' := h.holds.sound.shift_count (k := r.firstKeptElement / kSubwindowSize)
        (hdiv.trans hnext)
      have hnext' := h.holds.sound.shift_next (k := r.firstKeptElement / kSubwindowSize)
        (hdiv.trans hnext)
      have hwindow : f.solver.removeElements.decoder.window =
          f.solver.decoder.window.shift (r.firstKeptElement / kSubwindowSize) := by
        rw [hdecoder]
        rfl
      have hpackets : f.solver.removeElements.decoder.recoveryPackets =
          f.solver.decoder.recoveryPackets.map fun x =>
            x.slid (r.firstKeptElement / kSubwindowSize * kSubwindowSize) := by
        rw [hdecoder]
        exact h.working.stocked.decrementElementCounters_eq fun x hx => hdiv.trans (hkept x hx)
      have hdata' : data ⟨f.solver.removeElements, d.sums, d.recoveredColumns⟩ = d := by
        refine Eq.trans ?_ hframe.symm
        simp only [data, hdecoder, Decoder.shift]
      rcases h.working.removeElements fun _ => hplace with hdisabled | hworking
      · exact h.disabled hdisabled
      obtain ⟨target, hmem, htarget⟩ : ∃ target ∈ starts, r.seenSum = true →
          r.targetSumStartColumn = columnOf target ∧
            f.data.Target f.solver.decoder.recoveryPackets base sumStart
              f.solver.decoder.window.nextExpectedElement target := by
        cases hseen : r.seenSum with
        | true =>
          obtain ⟨target, hmem, htarget⟩ := h.target hlate hplan hseen
          exact ⟨target, hmem, fun _ => htarget⟩
        | false => exact ⟨sumStart, h.start_mem, fun hfalse => Bool.noConfusion hfalse⟩
      have hfew : r.seenSum = false → ∀ x ∈ f.solver.removeElements.decoder.recoveryPackets,
          x.metadata.sumCount ≤ siameseCauchyThreshold := by
        intro hunseen x hx
        rw [hpackets] at hx
        obtain ⟨y, hy, rfl⟩ := List.mem_map.mp hx
        exact (Decoder.planRemoval_stored (List.ne_nil_of_mem hy) hplan).2 hunseen y hy
      obtain ⟨sumStart', hstart, hsums'⟩ := h.sums.removeElements h.holds hpos (hdiv.trans hnext)
        htarget hfew (fun hnil => by rw [hpackets, hnil]; rfl) hdata
      have hshifted := TracedDecoderWindow.Holds.shift h.holds (hdiv.trans hnext)
      refine ⟨h.delivered_sent, .inr ⟨received,
        r.firstKeptElement / kSubwindowSize * kSubwindowSize, sumStart',
        by simp only [kColumnPeriod] at hmax ⊢; omega, ?_, hworking, ?_, h.sent, fun x hx => ?_,
        fun x hx => ?_, ?_, ?_, h.apart, fun m buffer hm => ?_, ?_, fun hzero => ?_⟩⟩
      · simp only [hwindow]
        simp only [data] at hnext'
        omega
      · exact hshifted.of_window hwindow
      · simp only [hpackets] at hx
        obtain ⟨y, hy, rfl⟩ := List.mem_map.mp hx
        exact h.arrived y hy
      · simp only [hpackets] at hx
        obtain ⟨y, hy, rfl⟩ := List.mem_map.mp hx
        have hy' := h.place y hy
        have hstart := (h.working.stocked.stored y hy).start_eq
        have hkept' := hkept y hy
        simp only [RecoveryPacket.slid]
        omega
      · rw [hdata']
        simp only [hwindow]
        simp only [data] at hnext'
        rw [hnext']
        exact hsums'
      · rcases hstart with rfl | ⟨-, rfl⟩
        · exact h.start_mem
        · exact hmem
      · have hm' : f.solver.decoder.lastRecovery = some (m, buffer) := by
          rw [← hm, hdecoder]
          rfl
        obtain ⟨harrived, hend, hneeded⟩ := h.last m buffer hm'
        simp only [data] at hcount' hnext'
        simp only [hwindow]
        exact ⟨harrived, by omega, by omega⟩
      · simp only [pendingPackets, hdecoder]
        exact h.delivers
      · simp only [hwindow] at hzero
        simp only [data] at hcount'
        omega

theorem growWindow (h : f.Correct packets starts received base sumStart delivered) {n : Nat}
    (hn : n ≤ kColumnPeriod / 2) : (f.withSolver (f.solver.withWindow
      (f.solver.decoder.window.growWindow n))).Correct packets starts received base sumStart
        delivered := by
  have hcount : f.data.window.count ≤ (f.solver.decoder.window.growWindow n).count := by
    rw [DecoderPacketWindow.growWindow_count]
    exact Nat.le_max_left _ _
  have hnext := f.solver.decoder.window.growWindow_nextExpectedElement n
  refine h.advance (h.working.growWindow hn) ⟨h.holds.sound.growWindow hn, ?_, h.holds.base_mod,
    fun e => ?_, h.holds.packets, h.holds.past⟩ h.sent hcount hnext.ge (fun r hr => hr) rfl
    (h.sums.receive h.holds.base_mod hcount (fun r hr => hr) (fun n _ => rfl) (fun n hn => hn)
      hnext.ge) h.start_mem h.delivers
  · exact (f.solver.decoder.window.growWindow_columnStart n).trans h.holds.columnStart_eq
  · exact (f.solver.decoder.window.growWindow_getWindowElement n e).trans (h.holds.contents e)

theorem fill (h : f.Correct packets starts received base sumStart delivered) (f' : FullDecoder)
    {n : Nat}
    (hn : n < packets.length) (hbase : base ≤ n)
    (hlt : n - base < f.solver.decoder.window.count)
    (hmissing : f.solver.decoder.window.getWindowElement (n - base) = none)
    (hworking : f'.solver.Working) (hwindow : f'.solver.decoder.window =
      f.solver.decoder.window.fill (n - base) (packetOf packets n))
    (hstored : ∀ r ∈ f'.solver.decoder.recoveryPackets, r ∈ f.solver.decoder.recoveryPackets)
    (hlast : f'.solver.decoder.lastRecovery = f.solver.decoder.lastRecovery)
    (hcolumn : f'.solver.decoder.sumColumnStart = f.solver.decoder.sumColumnStart)
    (hcount : f'.solver.decoder.sumColumnCount = f.solver.decoder.sumColumnCount)
    (hsums : f'.sums = f.sums) (hnew : f'.recoveredColumns = f.recoveredColumns ∧
        f'.pendingPackets = f.pendingPackets ∧ delivered' = n :: delivered ∨
      f'.recoveredColumns = f.recoveredColumns ++ [columnOf n] ∧
        f'.pendingPackets = f.pendingPackets ++ [(columnOf n, packetOf packets n)] ∧
        delivered' = delivered) :
    f'.StaysCorrect packets starts base (base + f.solver.decoder.window.nextExpectedElement)
      delivered' := by
  have hsound := h.holds.sound
  have hgot : f.solver.decoder.window.isGot (n - base) = false := by
    rw [h.working.stocked.sound.got_eq, hmissing]
    rfl
  have hge := h.working.stocked.sound.missing_ge hgot
  have hnone : received n = none := by
    have hcontents := h.holds.contents (n - base)
    rw [Nat.add_sub_cancel' hbase] at hcontents
    rw [← hcontents]
    exact hmissing
  have hsound' : f'.solver.decoder.window.Sound :=
    hwindow ▸ h.working.stocked.sound.fill hlt hgot _
  have hfull : f.solver.decoder.window.count ≤ f'.solver.decoder.window.count := by
    rw [hwindow, DecoderPacketWindow.fill_count]
  have hnext : f.solver.decoder.window.nextExpectedElement ≤
      f'.solver.decoder.window.nextExpectedElement := by
    refine h.working.stocked.sound.next_mono hsound' (fun e he => ?_) hfull
    rw [hwindow, DecoderPacketWindow.fill_isGot, he]
    exact ite_self true
  have hsame : ∀ k, k ≠ n →
      Function.update received n (some (packetOf packets n)) k = received k :=
    fun k hk => Function.update_of_ne hk _ _
  have hsome : ∀ k, (received k).isSome →
      (Function.update received n (some (packetOf packets n)) k).isSome :=
    fun k hk => TracedDecoderWindow.isSome_update _ hk
  have hholds : f'.data.Holds (Function.update received n (some (packetOf packets n))) base := by
    refine ⟨hsound', ?_, h.holds.base_mod, fun e => ?_, fun k original hk => ?_,
      fun k hk => hsome k (h.holds.past k hk)⟩
    · simp only [data, hwindow, DecoderPacketWindow.fill_columnStart]
      exact h.holds.columnStart_eq
    · simp only [data, hwindow, DecoderPacketWindow.fill_getWindowElement]
      by_cases he : e = n - base
      · rw [if_pos he, he, Nat.add_sub_cancel' hbase, Function.update_self]
      · rw [if_neg he, hsame _ (by omega)]
        exact h.holds.contents e
    · by_cases hkn : k = n
      · rw [hkn, Function.update_self] at hk
        cases hk
        exact ⟨hkn ▸ rfl, OriginalPacket.initialized_ne_nil _ _⟩
      · rw [hsame k hkn] at hk
        exact h.holds.packets k original hk
  have hsent : Sent packets (Function.update received n (some (packetOf packets n))) := by
    refine ⟨h.sent.addable, fun k original hk => ?_⟩
    by_cases hkn : k = n
    · rw [hkn, Function.update_self] at hk
      cases hk
      exact ⟨hkn ▸ hn, hkn ▸ rfl⟩
    · rw [hsame k hkn] at hk
      exact h.sent.received k original hk
  have hsums' : f'.data.SumState f'.solver.decoder.recoveryPackets
      (Function.update received n (some (packetOf packets n))) base sumStart
      f'.solver.decoder.window.nextExpectedElement := by
    rcases hnew with ⟨hcolumns, -⟩ | ⟨hcolumns, -⟩
    · have hdata : f'.data = { f.data with window := f'.solver.decoder.window } := by
        simp only [data, hsums, hcolumn, hcount, hcolumns]
      rw [hdata]
      exact h.sums.receive h.holds.base_mod hfull hstored (fun k hk => hsame k (by omega)) hsome
        hnext
    · have hdata : f'.data = { f.data with
          window := f'.solver.decoder.window
          recoveredColumns := f.data.recoveredColumns ++ [n].map columnOf } := by
        simp only [data, hsums, hcolumn, hcount, hcolumns, List.map_cons, List.map_nil]
      rw [hdata]
      refine h.sums.recover hfull hstored (List.nodup_singleton n) (fun k hk => ?_) (fun k hk => ?_)
        (fun k hk => hsame k ?_) hnext
      · rw [List.mem_singleton.mp hk]
        exact hnone
      · rw [List.mem_singleton.mp hk, Function.update_self]
        exact ⟨hbase, by omega, rfl⟩
      · rwa [List.mem_singleton] at hk
  have hall : ∀ k, (Function.update received n (some (packetOf packets n)) k).isSome = true ↔
      k = n ∨ (received k).isSome = true := by
    intro k
    by_cases hk : k = n
    · simp [hk]
    · rw [hsame k hk]
      simp [hk]
  refine .of_correct (h.advance hworking hholds hsent hfull hnext hstored hlast hsums' h.start_mem
    ?_) (Nat.add_le_add_left hnext base)
  rcases hnew with ⟨-, hpending, rfl⟩ | ⟨-, hpending, rfl⟩
  · rw [hpending]
    exact h.delivers.receive hnone hall
  · rw [hpending]
    refine h.delivers.recover (List.nodup_singleton n) (fun k hk => ?_) fun k => ?_
    · rw [List.mem_singleton.mp hk]
      exact hnone
    · rw [hall, List.mem_singleton]

theorem addOriginal (h : f.Correct packets starts received base sumStart delivered) {n : Nat}
    (hn : n < packets.length) (hlate : base ≤ n + kColumnPeriod / 2)
    (hearly : n < base + kColumnPeriod) :
    (f.addOriginal (columnOf n) (packets.getD n [])).1.StaysCorrect packets starts base
      (base + f.solver.decoder.window.nextExpectedElement)
      (if (f.addOriginal (columnOf n) (packets.getD n [])).2 = .success then n :: delivered
        else delivered) := by
  have hworking := h.working.addOriginal (columnOf n) (packetOf packets n)
  have hdecoder : (f.solver.addOriginal (columnOf n) (packetOf packets n)).1.decoder =
      (f.solver.decoder.addOriginal (columnOf n) (packetOf packets n)).1 := by
    unfold Solver.addOriginal
    simp only
    split <;> rfl
  have hresult : (f.addOriginal (columnOf n) (packets.getD n [])).2 =
      (f.solver.decoder.addOriginal (columnOf n) (packetOf packets n)).2 := by
    change (f.solver.addOriginal (columnOf n) (packetOf packets n)).2 = _
    unfold Solver.addOriginal
    simp only
    split <;> rfl
  have hframe : (f.solver.decoder.addOriginal (columnOf n) (packetOf packets n)).1 =
      { f.solver.decoder with
        window := (f.solver.decoder.addOriginal (columnOf n) (packetOf packets n)).1.window
        recoveryPackets :=
          (f.solver.decoder.addOriginal (columnOf n) (packetOf packets n)).1.recoveryPackets } := by
    unfold Decoder.addOriginal
    split
    · rfl
    · simp only
      split <;> rfl
  have hcases := Solver.addOriginal_cases f.solver.decoder (columnOf n) (packetOf packets n)
  change (f.withSolver (f.solver.addOriginal (columnOf n) (packetOf packets n)).1).StaysCorrect
    packets starts base _ _
  rw [hresult]
  generalize (f.solver.addOriginal (columnOf n) (packetOf packets n)).1 = s at *
  rw [← hdecoder] at hframe hcases
  rcases hcases with ⟨hno, hsame | ⟨hneg, hsame⟩⟩ | ⟨hyes, hneg, hnone, hwindow, hpackets⟩
  · rw [if_neg hno]
    exact .of_correct (h.withSolver hworking (by rw [hsame]) (by rw [hsame]) (by rw [hsame])
      (by rw [hsame]) (by rw [hsame]) (by rw [hsame]) (by rw [hsame]))
      (by simp only [FullDecoder.withSolver, hsame, Nat.le_refl])
  · have hgrown := h.growWindow (isColumnDeltaNegative_eq_false_iff.mp hneg)
    rw [if_neg hno]
    refine .of_correct (hgrown.withSolver hworking (by rw [hsame]; rfl) (by rw [hsame]; rfl)
      (by rw [hsame]; rfl) (by rw [hsame]; rfl) (by rw [hsame]; rfl) (by rw [hsame]; rfl)
      (by rw [hsame]; rfl)) ?_
    simp only [FullDecoder.withSolver, hsame, DecoderPacketWindow.growWindow_nextExpectedElement,
      Nat.le_refl]
  · obtain ⟨hbase, helement⟩ := h.element_eq hlate hearly hneg
    rw [helement] at hneg hnone hwindow hpackets
    have hgrown := h.growWindow (isColumnDeltaNegative_eq_false_iff.mp hneg)
    have hcount := f.solver.decoder.window.growWindow_count (n - base + 1)
    rw [if_pos hyes]
    refine (hgrown.fill (f.withSolver s) hn hbase ?_ ?_ hworking hwindow (fun r hr => ?_) ?_
      ?_ ?_ rfl (.inl ⟨rfl, ?_, rfl⟩)).mono (Nat.le_of_eq ?_)
    · change n - base < (f.solver.decoder.window.growWindow (n - base + 1)).count
      rw [hcount]
      exact Nat.lt_of_lt_of_le (Nat.lt_succ_self _) (Nat.le_max_right _ _)
    · exact Option.isNone_iff_eq_none.mp (Option.isSome_eq_false_iff.mp hnone)
    · simp only [FullDecoder.withSolver, hpackets] at hr
      split at hr
      · exact mem_deletePacketsBefore hr
      · exact hr
    · simp only [FullDecoder.withSolver]
      rw [hframe]
      rfl
    · simp only [FullDecoder.withSolver]
      rw [hframe]
      rfl
    · simp only [FullDecoder.withSolver]
      rw [hframe]
      rfl
    · exact pendingPackets_congr (by rw [FullDecoder.withSolver, hframe]; rfl)
        (by rw [FullDecoder.withSolver, hframe]; rfl)
    · simp only [FullDecoder.withSolver, Solver.withWindow, Solver.withDecoder,
        DecoderPacketWindow.growWindow_nextExpectedElement]

theorem addSingleRecovery (h : f.Correct packets starts received base sumStart delivered) {n : Nat}
    (hn : n < packets.length) (hbase : base ≤ n)
    (hlt : n - base < f.solver.decoder.window.count) {single : Option OriginalPacket}
    (hsingle : ∀ original, single = some original → original = packetOf packets n) :
    (f.addSingleRecovery (columnOf n) single).StaysCorrect packets starts base
      (base + f.solver.decoder.window.nextExpectedElement) delivered := by
  have helement : f.solver.decoder.window.columnToElement (columnOf n) = n - base :=
    h.holds.columnToElement hbase (by simp only [data]; omega)
  have hvalid : f.solver.decoder.window.invalidElement (n - base) = false := by
    simp only [DecoderPacketWindow.invalidElement, decide_eq_false_iff_not]
    omega
  unfold FullDecoder.addSingleRecovery
  simp only [helement, hvalid, true_and]
  cases hgot : f.solver.decoder.window.getWindowElement (n - base) with
  | some original =>
    have hsame : f.solver.decoder.addSingleRecovery (columnOf n) single false =
        f.solver.decoder := by
      unfold Decoder.addSingleRecovery
      simp only [helement, hvalid, hgot, Option.isSome_some, Bool.false_eq_true, if_false, if_true]
    simp only [hsame, reduceCtorEq, false_and, if_false]
    exact .of_correct h (Nat.le_refl _)
  | none =>
    cases single with
    | none =>
      have hdisabled : f.solver.decoder.addSingleRecovery (columnOf n) none false =
          f.solver.decoder.disable := by
        unfold Decoder.addSingleRecovery
        simp only [helement, hvalid, hgot, Option.isSome_none, Bool.false_eq_true, if_false]
      simp only [hdisabled, Option.isSome_none, Bool.false_eq_true, and_false, false_and, if_false]
      exact h.disabled rfl
    | some original =>
      obtain rfl := hsingle original rfl
      have hnew := Decoder.addSingleRecovery_new f.solver.decoder (columnOf n)
        (packetOf packets n) (by rw [helement]; exact hvalid) (by rw [helement]; exact hgot)
      have hmissing : f.solver.decoder.window.isGot (n - base) = false := by
        rw [h.working.stocked.sound.got_eq, hgot]
        rfl
      simp only [helement] at hnew
      simp only [Option.isSome_some, true_and, if_true]
      generalize f.solver.decoder.addSingleRecovery (columnOf n) (some (packetOf packets n))
        false = decoder at hnew ⊢
      generalize hs : (if f.solver.checkedRegion.covers (n - base) = true then
        Solver.resetRegion { f.solver with decoder := decoder } else
          { f.solver with decoder := decoder }) = s
      have hdecoder : s.decoder = decoder := by
        rw [← hs]
        split <;> rfl
      rw [hnew] at hdecoder
      have hregion : s.checkedRegion = (if f.solver.checkedRegion.covers (n - base) then .reset
          else f.solver.checkedRegion) := by
        rw [← hs]
        split <;> rfl
      have hworking : s.Working := by
        refine h.working.fill hlt hmissing (packetOf packets n) (by rw [hdecoder])
          (by rw [hdecoder]) ?_
        rw [← hs]
        by_cases hcovers : f.solver.checkedRegion.covers (n - base) = true
        · rw [if_pos hcovers]
          exact .inl ⟨rfl, rfl⟩
        · rw [if_neg hcovers]
          exact .inr ⟨Bool.eq_false_of_not_eq_true hcovers, rfl, rfl, rfl⟩
      rw [if_neg (h.working.region_after hregion)]
      let f' : FullDecoder := ⟨s, f.sums, f.recoveredColumns ++ [columnOf n]⟩
      refine h.fill f' hn hbase hlt hgot hworking (by rw [hdecoder]) (fun r hr => ?_)
        (by rw [hdecoder]) (by rw [hdecoder]) (by rw [hdecoder]) rfl (.inr ⟨rfl, ?_, rfl⟩)
      · simp only [f', hdecoder] at hr
        split at hr
        · exact mem_deletePacketsBefore hr
        · exact hr
      · simp only [pendingPackets, f', hdecoder, if_true]

theorem withLast (h : f.Correct packets starts received base sumStart delivered) {m : RecoveryMetadata}
    {buffer : RecoveryData} (harrived : Arrived packets starts m buffer)
    (hend : buffer.packetEnd ≤ base + f.solver.decoder.window.count)
    (hneeded : buffer.packetEnd ≤
      base + f.solver.decoder.window.nextExpectedElement + m.ldpcCount) :
    (f.withSolver { f.solver with decoder := { f.solver.decoder with
      lastRecovery := some (m, buffer) } }).Correct packets starts received base sumStart
        delivered := by
  refine ⟨⟨h.working.stocked, h.working.ordered, h.working.checked⟩, h.holds, h.sent, h.arrived,
    h.place, h.sums, h.start_mem, h.apart, fun m' buffer' hm => ?_, h.delivers, h.empty⟩
  cases hm
  exact ⟨harrived, hend, hneeded⟩

theorem insertRecovery (h : f.Correct packets starts received base sumStart delivered)
    {r : RecoveryPacket RecoveryData} (hr : r.StoredIn f.solver.decoder.window)
    (harrived : Arrived packets starts r.metadata r.buffer)
    (hplace : base + r.elementEnd = r.buffer.packetEnd)
    (hge : f.solver.decoder.sumColumnCount = 0 →
      siameseCauchyThreshold < r.metadata.sumCount →
        base ≤ r.buffer.packetEnd - r.metadata.sumCount)
    {s : Solver OriginalPacket RecoveryData} (hworking : s.Working)
    (hdecoder : s.decoder = { f.solver.decoder with
      recoveryPackets := Siamese.insertRecovery r f.solver.decoder.recoveryPackets }) :
    (f.withSolver s).Correct packets starts received base sumStart delivered := by
  have hmem : ∀ x ∈ s.decoder.recoveryPackets, x = r ∨ x ∈ f.solver.decoder.recoveryPackets := by
    intro x hx
    rw [hdecoder] at hx
    exact mem_insertRecovery.mp hx
  have hdata : (f.withSolver s).data = f.data := by
    simp only [data, FullDecoder.withSolver, hdecoder]
  have hwindow : s.decoder.window = f.solver.decoder.window := by rw [hdecoder]
  refine ⟨hworking, hdata ▸ h.holds, h.sent, fun x hx => ?_, fun x hx => ?_, ?_, h.start_mem,
    h.apart, ?_, ?_, ?_⟩
  · rcases hmem x hx with rfl | hx
    · exact harrived
    · exact h.arrived x hx
  · rcases hmem x hx with rfl | hx
    · exact hplace
    · exact h.place x hx
  · rw [hdata]
    simp only [FullDecoder.withSolver, hwindow]
    exact h.sums.store hmem hge
  · simp only [FullDecoder.withSolver, hdecoder]
    exact h.last
  · rw [pendingPackets_congr (f := f) (by rw [FullDecoder.withSolver, hdecoder])
      (by rw [FullDecoder.withSolver, hdecoder])]
    exact h.delivers
  · simp only [FullDecoder.withSolver, hwindow]
    exact h.empty

theorem storeRecovery (h : f.Correct packets starts received base sumStart delivered)
    {m : RecoveryMetadata} {buffer : RecoveryData} (harrived : Arrived packets starts m buffer)
    {elementStart elementEnd : Nat}
    (hr : (⟨m, elementStart, elementEnd, buffer⟩ : RecoveryPacket RecoveryData).StoredIn
      f.solver.decoder.window) (hplace : base + elementEnd = buffer.packetEnd)
    (hge : f.solver.decoder.sumColumnCount = 0 → siameseCauchyThreshold < m.sumCount →
      base ≤ buffer.packetEnd - m.sumCount)
    (hlast : base ≤ f.solver.decoder.lastPacketEnd + kColumnPeriod / 2) (outOfOrder : Bool) :
    (f.storeRecovery m buffer outOfOrder elementStart elementEnd).StaysCorrect packets starts base
      (base + f.solver.decoder.window.nextExpectedElement) delivered := by
  have hends := harrived.endsAt
  have hstart := hr.start_eq
  have hle := hr.start_le
  have hnext := hr.next_lt
  have hend := hr.end_le
  simp only at hstart hle hnext hend
  unfold FullDecoder.storeRecovery
  split
  · next hone =>
    have hcolumn := hends.columnStart_eq
    rw [hone] at hcolumn
    rw [hcolumn]
    have hmade := harrived.end_le
    refine h.addSingleRecovery (by omega) (by omega) (by omega) fun original hsome => ?_
    rw [← hcolumn] at hsome
    exact harrived.single hone h.sent.addable hsome
  · simp only
    generalize hrecovery : (⟨m, elementStart, elementEnd, buffer⟩ : RecoveryPacket RecoveryData) =
      recovery at *
    have hm : recovery.metadata = m := by rw [← hrecovery]
    have hbuffer : recovery.buffer = buffer := by rw [← hrecovery]
    have helement : recovery.elementEnd = elementEnd := by rw [← hrecovery]
    -- the last metadata first, then the packet
    obtain ⟨g, hg, hdecoder, hcorrect⟩ : ∃ g : FullDecoder,
        g = f.withDecoder { f.solver.decoder with
          lastRecovery := if outOfOrder then f.solver.decoder.lastRecovery
            else some (m, buffer) } ∧
        base ≤ g.solver.decoder.lastPacketEnd + kColumnPeriod / 2 ∧
        g.Correct packets starts received base sumStart delivered := by
      cases outOfOrder with
      | true => exact ⟨_, rfl, hlast, h⟩
      | false =>
        refine ⟨_, rfl, ?_, h.withLast harrived (by omega) (by omega)⟩
        change base ≤ buffer.packetEnd + kColumnPeriod / 2
        omega
    have hlinked : (f.solver.linkRecovery recovery outOfOrder).decoder = { g.solver.decoder with
        recoveryPackets := Siamese.insertRecovery recovery g.solver.decoder.recoveryPackets } := by
      rw [Solver.linkRecovery_decoder, hg, ← hm, ← hbuffer]
      rfl
    have hsame : f.withSolver (f.solver.linkRecovery recovery outOfOrder) =
        g.withSolver (f.solver.linkRecovery recovery outOfOrder) := by
      rw [hg]
      rfl
    have hinserted := hcorrect.insertRecovery (r := recovery) (by rw [hg]; exact hr)
      (by rw [hm, hbuffer]; exact harrived) (by rw [helement, hbuffer]; exact hplace)
      (by rw [hm, hbuffer, hg]; exact hge) (h.working.linkRecovery hr outOfOrder) hlinked
    have hexpected : f.solver.decoder.window.nextExpectedElement =
        (g.withSolver (f.solver.linkRecovery recovery
          outOfOrder)).solver.decoder.window.nextExpectedElement := by
      simp only [FullDecoder.withSolver, hlinked, hg]
      rfl
    rw [hsame, hexpected]
    split
    · refine hinserted.removeElements ?_
      simp only [FullDecoder.withSolver, hlinked]
      exact hdecoder
    · exact .of_correct hinserted (Nat.le_refl _)

theorem start_ge (h : f.Correct packets starts received base sumStart delivered) {m : RecoveryMetadata}
    {buffer : RecoveryData} (harrived : Arrived packets starts m buffer)
    (hbase : base ≤ buffer.packetEnd) (hvalid : f.solver.decoder.window.invalidElement
      (f.solver.decoder.window.columnToElement m.columnStart) = false) :
    base ≤ buffer.packetEnd - m.sumCount := by
  have hmax := h.holds.sound.count_le
  have hsum := harrived.readable.sum_le
  rw [harrived.endsAt.columnStart_eq] at hvalid
  by_cases hlt : buffer.packetEnd - m.sumCount < base + f.solver.decoder.window.count
  · refine (h.holds.sumElementStart ?_ hlt).1.mp hvalid
    simp only [kColumnPeriod] at hmax ⊢
    omega
  · omega

/-- AddRecovery, for a packet of a sender that still had every packet the decoder expects when it made
it. -/
theorem addRecovery (h : f.Correct packets starts received base sumStart delivered)
    {m : RecoveryMetadata} {buffer : RecoveryData} (harrived : Arrived packets starts m buffer)
    (hlate : base ≤ buffer.packetEnd + kColumnPeriod / 2)
    (hneeded : buffer.packetEnd ≤
      base + f.solver.decoder.window.nextExpectedElement + m.ldpcCount)
    (hlast : base ≤ f.solver.decoder.lastPacketEnd + kColumnPeriod / 2) :
    (f.addRecovery m buffer).StaysCorrect packets starts base
      (base + f.solver.decoder.window.nextExpectedElement) delivered := by
  unfold FullDecoder.addRecovery
  simp only
  split
  · next hdisabled => exact h.disabled hdisabled
  have hmax := h.holds.sound.count_le
  have hnext := h.holds.sound.next_le
  simp only [data] at hmax hnext
  have hends := harrived.endsAt
  have hldpc := hends.ldpc_le
  have hsum := hends.sum_le
  have hfew := harrived.readable.sum_le
  have hpos := harrived.readable.sum_pos
  have hearly : buffer.packetEnd < base + kColumnPeriod := by
    simp only [kColumnPeriod] at hmax ⊢
    omega
  have hinPlace : Solver.InPlace f.solver.decoder.window m := by
    intro hneg
    obtain ⟨-, heq⟩ := h.elementEnd_eq hends hlate hearly hneg
    omega
  have hcases := f.solver.decoder.placeRecovery_cases m buffer f.withDecoder
    (fun d => (f.withDecoder d).removeElements) fun d outOfOrder elementStart elementEnd =>
      (f.withDecoder d).storeRecovery m buffer outOfOrder elementStart elementEnd
  obtain ⟨column, hcases⟩ := hcases
  -- the latest column does not matter for what follows
  have hcorrect : (f.withDecoder { f.solver.decoder with latestColumn := column }).Correct packets
      starts received base sumStart delivered := h.withSolver
    ⟨h.working.stocked, h.working.ordered, h.working.checked⟩ rfl rfl rfl rfl rfl rfl rfl
  rcases hcases with heq | ⟨hempty, heq⟩ | ⟨-, elementEnd, helement, hneg, hclipped, hplaced⟩
  · rw [heq]
    exact .of_correct hcorrect (Nat.le_refl _)
  · rw [heq]
    -- nothing was removed yet, and the packet starts with the first packet of all
    have hbase : base = 0 := h.empty hempty
    have hcolumn : f.solver.decoder.window.columnStart = columnOf base := h.holds.columnStart_eq
    have hstart : m.columnStart = columnOf base := by
      rw [hends.columnStart_eq, hbase]
      congr 1
      omega
    have hsame : ({ f.solver.decoder.window with columnStart := m.columnStart } :
        DecoderPacketWindow OriginalPacket) = f.solver.decoder.window := by
      rw [hstart, ← hcolumn]
    have helement : f.solver.decoder.window.columnToElement (m.columnStart + m.sumCount) =
        m.sumCount := by
      have hcast := subtractColumns_cast (m.columnStart + m.sumCount) (columnOf base)
      rw [DecoderPacketWindow.columnToElement, hcolumn]
      simp only [hbase, columnOf, kColumnPeriod] at hstart hcast ⊢
      omega
    have hneg : isColumnDeltaNegative m.sumCount = false := by
      rw [isColumnDeltaNegative_eq_false_iff]
      simp only [kColumnPeriod]
      omega
    have hgrown := hcorrect.growWindow (n := m.sumCount) (by simp only [kColumnPeriod]; omega)
    have hstored := hinPlace.storedIn harrived.readable helement hneg hldpc (by omega) buffer
    rw [hsame]
    refine (hgrown.storeRecovery harrived hstored (by omega) (fun _ _ => by omega) hlast
      false).mono (Nat.le_of_eq ?_)
    simp only [FullDecoder.withDecoder, FullDecoder.withSolver, Solver.withWindow,
      Solver.withDecoder, DecoderPacketWindow.growWindow_nextExpectedElement]
  · obtain ⟨hbase, hplace⟩ := h.elementEnd_eq hends hlate hearly (helement ▸ hneg)
    rw [helement] at hplace
    rcases hplaced with ⟨hhave, -, heq⟩ | ⟨hnew, hsums, outOfOrder, heq⟩
    · rw [heq]
      have hupdated := hcorrect.withLast harrived
        (show buffer.packetEnd ≤ base + f.solver.decoder.window.count by omega) hneeded
      refine (hupdated.removeElements ?_).mono (Nat.le_refl _)
      exact hlate
    · rw [heq]
      have hgrown := hcorrect.growWindow (n := elementEnd)
        (Nat.le_of_lt (isColumnDeltaNegative_eq_false_iff.mp hneg))
      have hstored := hinPlace.storedIn harrived.readable helement hneg hclipped hnew buffer
      refine (hgrown.storeRecovery harrived hstored (by omega) (fun hzero hmany => ?_) hlast
        outOfOrder).mono (Nat.le_of_eq ?_)
      · refine h.start_ge harrived hbase ?_
        by_contra hinvalid
        exact hsums ⟨hmany, .inl hzero, Bool.eq_true_of_not_eq_false hinvalid⟩
      · simp only [FullDecoder.withDecoder, FullDecoder.withSolver, Solver.withWindow,
          Solver.withDecoder, DecoderPacketWindow.growWindow_nextExpectedElement]

end Correct

end FullDecoder
end Tonk.Siamese
