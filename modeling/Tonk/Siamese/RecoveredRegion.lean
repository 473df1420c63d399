import Tonk.Siamese.RecoveredPackets

set_option autoImplicit false

namespace Tonk.Siamese
open Protocol Elimination Finset

/-- What the decoder has are packets that were added. -/
structure Sent (packets : List Bytes) (received : Nat → Option OriginalPacket) : Prop where
  addable : ∀ data ∈ packets, Addable data
  received : ∀ n original, received n = some original →
    n < packets.length ∧ original = packetOf packets n

theorem Sent.addable_getD {packets : List Bytes} {received : Nat → Option OriginalPacket}
    (h : Sent packets received) {n : Nat} (hn : n < packets.length) :
    Addable (packets.getD n []) := by
  rw [List.getD_eq_getElem _ _ hn]
  exact h.addable _ (List.getElem_mem hn)

/-- A recovery packet that was made when `packetEnd` of the packets had been added. -/
structure MadeOf (packets : List Bytes) (r : RecoveryPacket RecoveryData) : Prop where
  combines : Combines r.metadata r.buffer.bytes (packets.take r.buffer.packetEnd)
  end_le : r.buffer.packetEnd ≤ packets.length

namespace MadeOf

variable {packets : List Bytes} {r : RecoveryPacket RecoveryData}
variable {d : DecoderData} {received : Nat → Option OriginalPacket} {base : Nat}

theorem length_take (h : MadeOf packets r) :
    (packets.take r.buffer.packetEnd).length = r.buffer.packetEnd := by
  rw [List.length_take]
  exact Nat.min_eq_left h.end_le

theorem packetOf_take (packets : List Bytes) {k n : Nat} (hn : n < k) :
    packetOf (packets.take k) n = packetOf packets n := by
  rw [packetOf, packetOf, List.getD_eq_getElem?_getD, List.getD_eq_getElem?_getD,
    List.getElem?_take_of_lt hn]

theorem endsAt (h : MadeOf packets r) : r.metadata.EndsAt r.buffer.packetEnd := by
  have hends := h.combines.endsAt
  rwa [h.length_take] at hends

theorem rowAt (h : MadeOf packets r) (hstored : r.StoredIn d.window)
    (hplace : base + r.elementEnd = r.buffer.packetEnd) :
    d.RowAt base r.buffer.packetEnd r := ⟨hstored, h.endsAt, h.combines.few_eq, hplace⟩

theorem fits (h : MadeOf packets r) {n : Nat} (hge : r.buffer.packetEnd - r.metadata.ldpcCount ≤ n)
    (hn : n < r.buffer.packetEnd) : (packetOf packets n).buffer.length ≤ r.buffer.bytes.length := by
  have hfits := h.combines.fits n (by rw [h.length_take]; exact hge) (by rw [h.length_take]; exact hn)
  rwa [packetOf_take packets hn] at hfits

theorem eliminated_padded (h : MadeOf packets r) (hsent : Sent packets received)
    (hholds : d.Holds received base) (hrow : d.RowAt base r.buffer.packetEnd r) {out : DataBuffer}
    (hout : DecoderData.Eliminated received r out) : out.padded =
      ∑ n ∈ Ico (r.buffer.packetEnd - r.metadata.sumCount) r.buffer.packetEnd,
        if received n = none then
          coefficient r.metadata r.buffer.packetEnd n • (packetOf packets n).buffer.padded
        else 0 := by
  obtain ⟨hlength, hbytes⟩ := hout
  have hplace := hrow.place
  have hstart := hrow.stored.start_eq
  have hnext := hrow.stored.start_le
  -- a packet of the range that is lost is not removed, and no longer than the recovery packet
  have hlost : ∀ n, n < r.buffer.packetEnd → received n = none →
      r.buffer.packetEnd - r.metadata.ldpcCount ≤ n := by
    intro n hn hnone
    by_contra hbefore
    have hgot : (received n).isSome := by
      by_cases hbase : n < base
      · exact hholds.past n hbase
      · have hgot := hholds.sound.before_next (n - base) (by omega)
        rw [hholds.sound.got_eq, hholds.contents, Nat.add_sub_cancel' (Nat.le_of_not_lt hbase)]
          at hgot
        exact hgot
    rw [hnone] at hgot
    exact Bool.noConfusion hgot
  funext i
  rw [Finset.sum_apply]
  by_cases hi : i < r.buffer.bytes.length
  · have hmade := h.combines.byte_eq i hi
    rw [h.length_take] at hmade
    rw [hbytes i hi, hmade, DecoderData.heldSum, ← sum_add_distrib]
    refine sum_congr rfl fun n hn => ?_
    rw [packetOf_take packets (mem_Ico.mp hn).2, heldBytes]
    cases hreceived : received n with
    | none => simp
    | some original =>
      obtain ⟨-, rfl⟩ := hsent.received n original hreceived
      simp [GF256.add_self]
  · rw [DataBuffer.padded_eq_zero (by omega)]
    refine (sum_eq_zero fun n hn => ?_).symm
    split
    · next hnone =>
      have hlt := (mem_Ico.mp hn).2
      have hfits := h.fits (hlost n hlt hnone) hlt
      rw [Pi.smul_apply, DataBuffer.padded_eq_zero (by omega), smul_zero]
    · rfl

end MadeOf

theorem sum_range_getD {V : Type} [AddCommMonoid V] (f : Nat → V) (l : List Nat) :
    ∑ c ∈ range l.length, f (l.getD c 0) = (l.map f).sum := by
  induction l with
  | nil => rfl
  | cons x rest ih =>
    rw [List.length_cons, sum_range_succ', List.map_cons, List.sum_cons, add_comm]
    exact congrArg _ ih

section Region

variable {packets : List Bytes} {stored : List (RecoveryPacket RecoveryData)} {m : Nat}
variable {d : DecoderData} {received : Nat → Option OriginalPacket} {base : Nat}

def lostNumber (w : DecoderPacketWindow OriginalPacket) (stored : List (RecoveryPacket RecoveryData))
    (m base c : Nat) : Nat := base + (regionLost w stored m).getD c 0

theorem Stocked.lostNumber_spec (h : Stocked d.window stored) (hholds : d.Holds received base)
    {c : Nat} (hc : c < (regionLost d.window stored m).length) :
    ∃ e, (regionLost d.window stored m).getD c 0 = e ∧ e < d.window.count ∧
      d.window.nextExpectedElement ≤ e ∧ received (base + e) = none ∧
      (regionColumns d.window stored m).getD c 0 = columnOf (base + e) ∧
      (regionColumns d.window stored m).getD c 0 = d.window.elementToColumn e := by
  obtain ⟨e, hmem, hget, hcolumn⟩ := regionColumns_getD hc
  have hlost := (DecoderPacketWindow.mem_lost.mp hmem).2.2
  refine ⟨e, ?_, h.lt_count hmem, ?_, ?_, ?_, hcolumn⟩
  · rw [List.getD_eq_getElem?_getD, hget]
    rfl
  · by_contra hbefore
    rw [h.sound.before_next e (by omega)] at hlost
    exact Bool.noConfusion hlost
  · rw [← hholds.contents]
    rw [h.sound.got_eq] at hlost
    exact Option.isNone_iff_eq_none.mp (Option.isSome_eq_false_iff.mp hlost)
  · rw [hcolumn, DecoderPacketWindow.elementToColumn, hholds.columnStart_eq]
    simp only [addColumns, columnOf, kColumnPeriod]
    omega

theorem Stocked.regionMatrix_eq (h : Stocked d.window stored) (hholds : d.Holds received base)
    {i c : Nat} {r : RecoveryPacket RecoveryData} (hget : stored[i]? = some r)
    (hrow : d.RowAt base r.buffer.packetEnd r) (hc : c < (regionLost d.window stored m).length) :
    regionMatrix d.window stored m i c =
      if lostNumber d.window stored m base c < r.buffer.packetEnd then
        coefficient r.metadata r.buffer.packetEnd (lostNumber d.window stored m base c)
      else 0 := by
  obtain ⟨e, he, hlt, hnext, hnone, hcolumn, helement⟩ := h.lostNumber_spec hholds hc
  have hplace := hrow.place
  have hstart := hrow.stored.start_eq
  have hle := hrow.stored.start_le
  have hldpc := hrow.endsAt.ldpc_le
  rw [lostNumber, he, regionMatrix_of_get hget]
  split
  · next hin =>
    exact h.fillRow_eq_coefficient (List.mem_of_getElem? hget) hrow.endsAt hc (by omega) hin hcolumn
      (Nat.zero_le c) _
  · next hout =>
    rw [fillRow_apply h.regionColumns_nodup (Nat.zero_le c)
      (by rw [length_regionColumns]; exact hc), helement,
      hrow.stored.lightEntry_eq_zero h.sound (by omega) hlt, add_zero, if_neg]
    rw [lt_denseStop_iff (by rw [length_regionColumns]; exact hc)]
    intro hall
    refine hall c (Nat.zero_le c) (Nat.le_refl c) ?_
    rw [helement]
    exact hrow.stored.beyond h.sound (by omega) hlt

/-- The packets of a row that are not there, and the columns of its row. -/
theorem Stocked.sum_lost {V : Type} [AddCommMonoid V] (h : Stocked d.window stored)
    (hholds : d.Holds received base) {i : Nat} {r : RecoveryPacket RecoveryData}
    (hget : stored[i]? = some r) (him : i < m) (hrow : d.RowAt base r.buffer.packetEnd r)
    (f : Nat → V) :
    (∑ n ∈ Ico (r.buffer.packetEnd - r.metadata.sumCount) r.buffer.packetEnd,
      if received n = none then f n else 0) =
    ∑ c ∈ range (regionLost d.window stored m).length,
      if lostNumber d.window stored m base c < r.buffer.packetEnd then
        f (lostNumber d.window stored m base c) else 0 := by
  have hplace := hrow.place
  have hstart := hrow.stored.start_eq
  have hnext := hrow.stored.start_le
  have hldpc := hrow.endsAt.ldpc_le
  have hregion := h.regionStart_le
  have hend := le_regionEnd him hget
  have hcolumns := sum_range_getD (fun e => if base + e < r.buffer.packetEnd then f (base + e) else 0)
    (regionLost d.window stored m)
  have hnodup : (regionLost d.window stored m).Nodup := d.window.lost_nodup _ _
  refine Eq.trans ?_ hcolumns.symm
  rw [← List.sum_toFinset _ hnodup, ← sum_filter, ← sum_filter]
  symm
  refine sum_nbij (base + ·) (fun e he => ?_) (fun e _ e' _ heq => Nat.add_left_cancel heq)
    (fun n hn => ?_) (fun e _ => rfl)
  · obtain ⟨hmem, hlt⟩ := mem_filter.mp he
    have hlost := (DecoderPacketWindow.mem_lost.mp (List.mem_toFinset.mp hmem)).2.2
    refine mem_filter.mpr ⟨mem_Ico.mpr ⟨?_, hlt⟩, ?_⟩
    · have hafter : d.window.nextExpectedElement ≤ e := by
        by_contra hbefore
        rw [h.sound.before_next e (by omega)] at hlost
        exact Bool.noConfusion hlost
      omega
    · rw [h.sound.got_eq] at hlost
      rw [← hholds.contents]
      exact Option.isNone_iff_eq_none.mp (Option.isSome_eq_false_iff.mp hlost)
  · obtain ⟨hmem, hnone⟩ := mem_filter.mp (mem_coe.mp hn)
    obtain ⟨hge, hlt⟩ := mem_Ico.mp hmem
    have hbase : base ≤ n := by
      by_contra hbefore
      have hgot := hholds.past n (Nat.lt_of_not_le hbefore)
      rw [hnone] at hgot
      exact Bool.noConfusion hgot
    have hlost : d.window.isGot (n - base) = false := by
      rw [h.sound.got_eq, hholds.contents, Nat.add_sub_cancel' hbase, hnone]
      rfl
    have hafter : d.window.nextExpectedElement ≤ n - base := by
      by_contra hbefore
      rw [h.sound.before_next (n - base) (by omega)] at hlost
      exact Bool.noConfusion hlost
    refine ⟨n - base, mem_coe.mpr (mem_filter.mpr ⟨List.mem_toFinset.mpr
      (DecoderPacketWindow.mem_lost.mpr ⟨by omega, by omega, hlost⟩), by omega⟩),
      Nat.add_sub_cancel' hbase⟩

end Region

namespace DecoderData

/-- The data of the decoder and the recovery packets it has stored, all of them made of the packets
that were added. `sumStart` is the packet the sums were last started with. -/
structure Faithful (d : DecoderData) (stored : List (RecoveryPacket RecoveryData))
    (packets : List Bytes) (received : Nat → Option OriginalPacket) (base sumStart : Nat) :
    Prop where
  stocked : Stocked d.window stored
  ordered : Ordered stored
  holds : d.Holds received base
  sent : Sent packets received
  made : ∀ r ∈ stored, MadeOf packets r
  place : ∀ r ∈ stored, base + r.elementEnd = r.buffer.packetEnd
  sums : d.SumState stored received base sumStart d.window.nextExpectedElement
  same : ∀ r ∈ stored, d.SameStart sumStart r.buffer.packetEnd r.metadata

variable {d d' : DecoderData} {stored : List (RecoveryPacket RecoveryData)} {packets : List Bytes}
variable {received : Nat → Option OriginalPacket} {base sumStart : Nat}

theorem Faithful.rowAt (h : d.Faithful stored packets received base sumStart)
    {r : RecoveryPacket RecoveryData} (hr : r ∈ stored) : d.RowAt base r.buffer.packetEnd r :=
  (h.made r hr).rowAt (h.stocked.stored r hr) (h.place r hr)

theorem Faithful.lostNumber_lt (h : d.Faithful stored packets received base sumStart) {m c : Nat}
    (hc : c < (regionLost d.window stored m).length) :
    lostNumber d.window stored m base c < packets.length := by
  obtain ⟨e, hmem, hget, -⟩ := regionColumns_getD hc
  have hin := (DecoderPacketWindow.mem_lost.mp hmem).2.1
  have he : (regionLost d.window stored m).getD c 0 = e := by
    rw [List.getD_eq_getElem?_getD, hget]
    rfl
  by_contra hge
  have hall : ∀ r ∈ stored, r.elementEnd ≤ e := by
    intro r hr
    have hplace := h.place r hr
    have hend := (h.made r hr).end_le
    rw [lostNumber, he] at hge
    omega
  have hend : regionEnd stored m ≤ e := regionEnd_le hall
  omega

theorem usedForSolution_pivots {m : RecoveryMatrixState} {j : Nat} (hj : j < m.columns.length) :
    m.usedForSolution (m.pivots j) = true := by
  unfold RecoveryMatrixState.usedForSolution
  exact List.any_eq_true.mpr ⟨j, List.mem_range.mpr hj, decide_eq_true rfl⟩

theorem Faithful.recoverData (h : d.Faithful stored packets received base sumStart)
    {m : RecoveryMatrixState} (hsolved : m.Solved (regionMatrix d.window stored m.rowCount))
    (hcolumns : m.columns = regionColumns d.window stored m.rowCount)
    (hrows : m.rowCount ≤ stored.length) {original : Nat → OriginalPacket}
    (hmade : m.recoverData stored d = some (d', original)) :
    (∀ c < m.columns.length,
      original c = packetOf packets (lostNumber d.window stored m.rowCount base c)) ∧
      d.SumsOf d' received base (stored.take m.rowCount) := by
  have hlength : m.columns.length = (regionLost d.window stored m.rowCount).length := by
    rw [hcolumns, length_regionColumns]
  unfold RecoveryMatrixState.recoverData at hmade
  split at hmade
  · cases hmade
  next d₁ buffers heliminated =>
    have hmem : ∀ r ∈ stored.take m.rowCount, r ∈ stored := fun r hr => List.mem_of_mem_take hr
    obtain ⟨hall, hlast⟩ := h.sums.eliminateOriginalRows h.holds hmem
      (fun r hr => h.rowAt (hmem r hr)) (h.ordered.sublist (List.take_sublist _ _))
      (fun r hr => Nat.le_of_lt (h.stocked.stored r (hmem r hr)).next_lt)
      (fun r hr => h.same r (hmem r hr)) heliminated
    have hpivot : ∀ j < m.columns.length, ∃ r, stored[m.pivots j]? = some r ∧
        m.pivots j < m.rowCount ∧ Eliminated received r (buffers.getD (m.pivots j) []) := by
      intro j hj
      obtain ⟨p, hechelon, -⟩ := hsolved.echelon
      have hlt : m.pivots j < m.rowCount :=
        piv_lt hechelon.fixed (Nat.lt_of_lt_of_le hj hsolved.le_rows)
      have hget : stored[m.pivots j]? = some (stored.get ⟨m.pivots j, by omega⟩) :=
        List.getElem?_eq_getElem _
      refine ⟨_, hget, hlt, hall (m.pivots j) _ ?_ ?_⟩
      · rw [List.getElem?_take_of_lt hlt]
        exact hget
      · rw [Nat.zero_add]
        exact usedForSolution_pivots hj
    have hpacket : ∀ c < m.columns.length, m.packetAt
        (fun c => packets.getD (lostNumber d.window stored m.rowCount base c) []) c =
          packetOf packets (lostNumber d.window stored m.rowCount base c) := by
      intro c hc
      obtain ⟨e, he, -, -, -, hcolumn, -⟩ :=
        h.stocked.lostNumber_spec h.holds (m := m.rowCount) (hlength ▸ hc)
      rw [RecoveryMatrixState.packetAt, packetOf, hcolumns, hcolumn, lostNumber, he]
    have hnumber : ∀ c < m.columns.length,
        lostNumber d.window stored m.rowCount base c < packets.length := fun c hc =>
      h.lostNumber_lt (hlength ▸ hc)
    have hfits : ∀ j < m.columns.length, ∀ c < m.columns.length,
        regionMatrix d.window stored m.rowCount (m.pivots j) c ≠ 0 →
        (m.packetAt (fun c => packets.getD (lostNumber d.window stored m.rowCount base c) [])
          c).buffer.length ≤ (buffers.getD (m.pivots j) []).length := by
      intro j hj c hc hne
      obtain ⟨r, hget, -, hout, -⟩ := hpivot j hj
      have hr := List.mem_of_getElem? hget
      have hrow := h.rowAt hr
      obtain ⟨e, he, -, hnext, -⟩ :=
        h.stocked.lostNumber_spec h.holds (m := m.rowCount) (hlength ▸ hc)
      have hplace := hrow.place
      have hstart := hrow.stored.start_eq
      have hle := hrow.stored.start_le
      rw [h.stocked.regionMatrix_eq h.holds hget hrow (hlength ▸ hc)] at hne
      have hlt : lostNumber d.window stored m.rowCount base c < r.buffer.packetEnd := by
        by_contra hge
        exact hne (if_neg hge)
      rw [hpacket c hc, hout]
      exact (h.made r hr).fits (by rw [lostNumber, he]; omega) hlt
    have hrecovery : ∀ j < m.columns.length, DataBuffer.padded (buffers.getD (m.pivots j) []) =
        ∑ c ∈ range m.columns.length, regionMatrix d.window stored m.rowCount (m.pivots j) c •
          (m.packetAt (fun c => packets.getD (lostNumber d.window stored m.rowCount base c) [])
            c).buffer.padded := by
      intro j hj
      obtain ⟨r, hget, hlt, hout⟩ := hpivot j hj
      have hr := List.mem_of_getElem? hget
      rw [(h.made r hr).eliminated_padded h.sent h.holds (h.rowAt hr) hout,
        h.stocked.sum_lost h.holds hget hlt (h.rowAt hr) fun n =>
          coefficient r.metadata r.buffer.packetEnd n • (packetOf packets n).buffer.padded, ← hlength]
      refine sum_congr rfl fun c hc => ?_
      have hc' := mem_range.mp hc
      rw [h.stocked.regionMatrix_eq h.holds hget (h.rowAt hr) (hlength ▸ hc'), hpacket c hc']
      split
      · rfl
      · rw [zero_smul]
    obtain ⟨f, hf, hpackets⟩ := hsolved.backSubstitutionData
      (fun c hc => h.sent.addable_getD (hnumber c hc)) (fun row => buffers.getD row []) hfits hrecovery
    rw [hf] at hmade
    obtain ⟨rfl, rfl⟩ := Prod.mk.injEq .. ▸ Option.some.inj hmade
    exact ⟨fun c hc => (hpackets c hc).trans (hpacket c hc), hlast⟩

end DecoderData

end Tonk.Siamese
