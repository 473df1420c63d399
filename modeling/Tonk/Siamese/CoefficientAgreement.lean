import Tonk.Siamese.DecodeRuns
import Tonk.Siamese.EncoderRows

set_option autoImplicit false

namespace Tonk.Siamese
open Protocol Transition Finset

section Row

variable {α β : Type} {w : DecoderPacketWindow α} {r : RecoveryPacket β} {packetEnd e n : Nat}

theorem RecoveryPacket.StoredIn.loss (h : r.StoredIn w) (hw : w.Sound)
    (hends : r.metadata.EndsAt packetEnd) (hlt : e < w.count)
    (hge : packetEnd - r.metadata.sumCount ≤ n) (hn : n < packetEnd)
    (hcolumn : w.elementToColumn e = columnOf n) : e + packetEnd = n + r.elementEnd := by
  have hend := subtractColumns_cast (columnOf packetEnd) w.columnStart
  have hplace : subtractColumns (columnOf packetEnd) w.columnStart = r.elementEnd :=
    (hends.subtract w.columnStart).symm.trans h.column_eq
  have hcount := hw.count_le
  have hle := h.end_le
  have hsum := h.readable.sum_le
  have hsum' := hends.sum_le
  rw [hplace] at hend
  simp only [DecoderPacketWindow.elementToColumn, addColumns, columnOf, kColumnPeriod] at *
  omega

theorem RecoveryPacket.StoredIn.not_beyond (h : r.StoredIn w)
    (hends : r.metadata.EndsAt packetEnd) (hge : w.nextExpectedElement ≤ e)
    (hlt : e < r.elementEnd) : ¬ Siamese.beyond r.metadata (w.elementToColumn e) := by
  have hend := subtractColumns_cast (columnOf packetEnd) w.columnStart
  have hplace : subtractColumns (columnOf packetEnd) w.columnStart = r.elementEnd :=
    (hends.subtract w.columnStart).symm.trans h.column_eq
  have hcolumn := subtractColumns_cast (w.elementToColumn e) r.metadata.columnStart
  have hstart := h.start_le
  have hstart' := h.start_eq
  have hldpc := hends.ldpc_le
  have hsum := h.readable.sum_le
  have hsum' := hends.sum_le
  rw [hplace] at hend
  rw [hends.columnStart_eq] at hcolumn
  simp only [Siamese.beyond, DecoderPacketWindow.elementToColumn, addColumns, columnOf,
    kColumnPeriod, hends.columnStart_eq] at *
  omega

theorem RecoveryPacket.StoredIn.lightValue_eq (h : r.StoredIn w) (hw : w.Sound)
    (hends : r.metadata.EndsAt packetEnd) (hlost : w.getWindowElement e = none)
    (hlt : e < r.elementEnd) (hplace : e + packetEnd = n + r.elementEnd) (pairs : Nat)
    (prng : PCGRandom) : lightValue w r pairs prng (w.elementToColumn e) =
      lightCoefficient r.metadata packetEnd pairs prng n := by
  have hstart := h.start_eq
  have hend := h.end_le
  have hldpc := hends.ldpc_le
  have hsum := hends.sum_le
  have hmeets : ∀ random, w.getWindowElement (r.elementStart + random % r.metadata.ldpcCount) =
        none ∧ w.elementToColumn (r.elementStart + random % r.metadata.ldpcCount) =
          w.elementToColumn e ↔
      n = packetEnd - r.metadata.ldpcCount + random % r.metadata.ldpcCount := by
    intro random
    have hmod := Nat.mod_lt random hends.ldpc_pos
    constructor
    · rintro ⟨-, heq⟩
      have hsame := hw.elementToColumn_inj (by omega) (by omega) heq
      omega
    · intro heq
      have hsame : r.elementStart + random % r.metadata.ldpcCount = e := by omega
      rw [hsame]
      exact ⟨hlost, rfl⟩
  induction pairs generalizing prng with
  | zero => rfl
  | succ pairs ih => simp only [lightValue, lightCoefficient, hmeets, ih]

end Row

theorem regionColumns_before {α β : Type} {w : DecoderPacketWindow α}
    {packets : List (RecoveryPacket β)} {m j k : Nat} (hjk : j ≤ k)
    (hk : k < (regionLost w packets m).length) : ∃ e e', e ≤ e' ∧ e ∈ regionLost w packets m ∧
      e' ∈ regionLost w packets m ∧ (regionColumns w packets m).getD j 0 = w.elementToColumn e ∧
      (regionColumns w packets m).getD k 0 = w.elementToColumn e' := by
  have hj : j < (regionLost w packets m).length := Nat.lt_of_le_of_lt hjk hk
  obtain ⟨e, hmem, hget, hcolumn⟩ := regionColumns_getD hj
  obtain ⟨e', hmem', hget', hcolumn'⟩ := regionColumns_getD hk
  refine ⟨e, e', ?_, hmem, hmem', hcolumn, hcolumn'⟩
  have hsorted : (regionLost w packets m).Pairwise (· < ·) :=
    List.Pairwise.filter _ List.pairwise_lt_range'
  obtain ⟨hj', rfl⟩ := List.getElem?_eq_some_iff.mp hget
  obtain ⟨hk', rfl⟩ := List.getElem?_eq_some_iff.mp hget'
  rcases Nat.eq_or_lt_of_le hjk with rfl | hlt
  · exact Nat.le_refl _
  · exact Nat.le_of_lt (List.pairwise_iff_getElem.mp hsorted j k hj' hk' hlt)

theorem Stocked.fillRow_eq_coefficient {α β : Type} {w : DecoderPacketWindow α}
    {packets : List (RecoveryPacket β)} (h : Stocked w packets) {r : RecoveryPacket β}
    (hr : r ∈ packets) {packetEnd : Nat} (hends : r.metadata.EndsAt packetEnd) {m column n : Nat}
    (hcolumn : column < (regionLost w packets m).length)
    (hge : packetEnd - r.metadata.sumCount ≤ n) (hn : n < packetEnd)
    (heq : (regionColumns w packets m).getD column 0 = columnOf n) {start : Nat}
    (hstart : start ≤ column) (rowData : Nat → GF256) :
    fillRow w (listedColumn w (regionColumns w packets m)) r (regionColumns w packets m) start
      rowData column = coefficient r.metadata packetEnd n := by
  have hstored := h.stored r hr
  have hlength : column < (regionColumns w packets m).length := by
    rw [length_regionColumns]
    exact hcolumn
  obtain ⟨e, hmem, -, hget⟩ := regionColumns_getD hcolumn
  have hcount := h.lt_count hmem
  have hlost : w.isGot e = false := (DecoderPacketWindow.mem_lost.mp hmem).2.2
  rw [hget] at heq
  have hplace := hstored.loss h.sound hends hcount hge hn heq
  have hlt : e < r.elementEnd := by omega
  have hstop : column < denseStop r.metadata (regionColumns w packets m) start := by
    rw [lt_denseStop_iff hlength]
    intro k _ hk
    obtain ⟨e₁, e₂, hle, hmem₁, hmem₂, hget₁, hget₂⟩ := regionColumns_before hk hcolumn
    rw [hget] at hget₂
    obtain rfl : e = e₂ := h.sound.elementToColumn_inj hcount (h.lt_count hmem₂) hget₂
    have hlost₁ := (DecoderPacketWindow.mem_lost.mp hmem₁).2.2
    have hnext : w.nextExpectedElement ≤ e₁ := by
      by_contra hbefore
      rw [h.sound.before_next e₁ (by omega)] at hlost₁
      exact Bool.noConfusion hlost₁
    rw [hget₁]
    exact hstored.not_beyond hends hnext (by omega)
  have hnone : w.getWindowElement e = none := by
    rw [h.sound.got_eq] at hlost
    exact Option.isNone_iff_eq_none.mp (Option.isSome_eq_false_iff.mp hlost)
  rw [fillRow_apply h.regionColumns_nodup hstart hlength, if_pos hstop, hget, lightEntry,
    hstored.lightValue_eq h.sound hends hnone hlt hplace, heq, coefficient]

namespace Solver

variable {α β : Type} {s t : Solver α β}

theorem Attempting.scratchMatrix_columns (h : s.Attempting) : s.scratchMatrix.columns =
    regionColumns s.decoder.window s.decoder.recoveryPackets s.checkedRegion.recoveryCount := by
  have hscratch := h.scratch
  obtain ⟨previous, originalColumn, heq, -⟩ := generateMatrix_eq hscratch.stocked hscratch.region
    hscratch.matrix hscratch.rows_le
  rw [scratchMatrix, heq]
  rfl

/-- The matrix of an attempt has the coefficients of the packets, and so has every row that is filled
in later, from whichever column on. -/
theorem Attempting.coefficients (h : s.Attempting) {row : Nat}
    (hrow : row < s.checkedRegion.recoveryCount) {r : RecoveryPacket β}
    (hget : s.decoder.recoveryPackets[row]? = some r) {packetEnd : Nat}
    (hends : r.metadata.EndsAt packetEnd) {column n : Nat}
    (hcolumn : column < s.checkedRegion.lostCount) (hge : packetEnd - r.metadata.sumCount ≤ n)
    (hn : n < packetEnd) (heq : s.scratchMatrix.columns.getD column 0 = columnOf n) :
    s.scratchMatrix.matrix row column = coefficient r.metadata packetEnd n ∧
      ∀ start ≤ column, ∀ rowData,
        fillRow s.decoder.window s.generateMatrix.originalColumn r s.scratchMatrix.columns start
          rowData column = coefficient r.metadata packetEnd n := by
  obtain ⟨-, -, hmatrix⟩ := h.scratchMatrix_eq
  obtain ⟨m, originalColumn, hgenerated, hover, hcount, -⟩ := h.generated
  have hpoints := hover.points
  rw [hcount] at hpoints
  rw [hmatrix row hrow column hcolumn, regionMatrix_of_get hget]
  rw [h.scratchMatrix_columns] at heq ⊢
  rw [h.region.lost_eq] at hcolumn
  have hfill : ∀ start ≤ column, ∀ rowData, fillRow s.decoder.window (listedColumn s.decoder.window
        (regionColumns s.decoder.window s.decoder.recoveryPackets s.checkedRegion.recoveryCount)) r
      (regionColumns s.decoder.window s.decoder.recoveryPackets s.checkedRegion.recoveryCount)
      start rowData column = coefficient r.metadata packetEnd n := fun start hstart rowData =>
    h.stocked.fillRow_eq_coefficient (List.mem_of_getElem? hget) hends hcolumn hge hn heq hstart
      rowData
  refine ⟨hfill 0 (Nat.zero_le _) _, fun start hstart rowData => ?_⟩
  rw [hgenerated, h.stocked.fillRow_points hget hrow hpoints]
  exact hfill start hstart rowData

theorem attempting_of_run {calls : List (Call α β)}
    (h : Run (Restrict Asserted Step) (initial : Solver α β) calls s)
    {solution : Option (Solution α)} (hattempt : s.Attempts solution t) : t.Attempting := by
  rcases inv_of_run h with hdisabled | hworking
  · exfalso
    induction hattempt with
    | first hok _ =>
      rw [hdisabled] at hok
      exact Bool.noConfusion hok
    | again _ _ _ ih => exact ih
  · exact hworking.attempts hattempt

end Solver

namespace TracedEncoder

/-- Whatever was called before, the bytes of the packet Encode makes are those of the packets of its
range, each times its coefficient. The decoder that has the metadata of the packet finds these
coefficients for its losses, wherever its own run has led. -/
theorem coefficients_agree (calls : List EncoderCall) {e' : FullEncoder} {m : RecoveryMetadata}
    {recovery : DataBuffer}
    (hmade : (initial.run calls).encoder.encode = (e', some (m, recovery))) :
    let packets := (initial.run calls).packets
    Combines m recovery packets ∧
      ∀ (α β : Type) (decoderCalls : List (Call α β)) (s t : Solver α β)
        (solution : Option (Solution α)),
        Run (Restrict Solver.Asserted Solver.Step) Solver.initial decoderCalls s →
        s.Attempts solution t →
        ∀ (row : Nat) (r : RecoveryPacket β), row < t.checkedRegion.recoveryCount →
          t.decoder.recoveryPackets[row]? = some r → r.metadata = m →
          ∀ column n, column < t.checkedRegion.lostCount → packets.length - m.sumCount ≤ n →
            n < packets.length → t.scratchMatrix.columns.getD column 0 = columnOf n →
            t.scratchMatrix.matrix row column = coefficient m packets.length n ∧
              ∀ start ≤ column, ∀ rowData,
                fillRow t.decoder.window t.generateMatrix.originalColumn r
                  t.scratchMatrix.columns start rowData column =
                  coefficient m packets.length n := by
  have hcombines := encode_combines calls hmade
  refine ⟨hcombines, ?_⟩
  intro α β decoderCalls s t solution hrun hattempt row r hrow hget hm column n hcolumn hge hn heq
  subst hm
  exact (Solver.attempting_of_run hrun hattempt).coefficients hrow hget hcombines.endsAt hcolumn hge
    hn heq

def sixtySix : List EncoderCall := (List.range 66).map fun n => .add 1 [.ofNat n]

def firstLost : List (Call Unit Unit) :=
  .addRecovery ⟨0, 0, 66, 66⟩ () none :: (List.range' 1 65).map fun n => .addOriginal n ()

def afterFirstLost : Solver Unit Unit := firstLost.foldl Solver.call Solver.initial

theorem afterFirstLost_run : Run (Restrict Solver.Asserted Solver.Step)
    (Solver.initial : Solver Unit Unit) firstLost afterFirstLost := by
  have horiginals : ∀ (nums : List Nat) (s : Solver Unit Unit),
      Run (Restrict Solver.Asserted Solver.Step) s (nums.map fun n => .addOriginal n ())
        ((nums.map fun n => Call.addOriginal n ()).foldl Solver.call s) := by
    intro nums
    induction nums with
    | nil => exact fun s => .nil s
    | cons n nums ih => exact fun s => .cons ⟨trivial, rfl⟩ (ih _)
  have hreadable : (⟨0, 0, 66, 66⟩ : RecoveryMetadata).Readable := by decide
  have hplace : Solver.InPlace (Solver.placing (Solver.initial : Solver Unit Unit).decoder.window
      ⟨0, 0, 66, 66⟩) ⟨0, 0, 66, 66⟩ := by decide +kernel
  unfold afterFirstLost firstLost
  rw [List.foldl_cons]
  exact .cons ⟨⟨hreadable, hplace⟩, rfl⟩ (horiginals _ _)

/-- A row of Siamese sums, and its coefficient for the packet that is lost. -/
theorem coefficients_agree_sixtySix : ∃ e' recovery,
    (initial.run sixtySix).encoder.encode = (e', some (⟨0, 0, 66, 66⟩, recovery)) ∧
      Combines ⟨0, 0, 66, 66⟩ recovery (initial.run sixtySix).packets ∧
      afterFirstLost.checkRecoveryPossible.1.scratchMatrix.matrix 0 0 =
        coefficient ⟨0, 0, 66, 66⟩ (initial.run sixtySix).packets.length 0 := by
  have hmetadata : (initial.run sixtySix).encoder.encode.2.map Prod.fst =
      some ⟨0, 0, 66, 66⟩ := by decide +kernel
  obtain ⟨⟨m, recovery⟩, hsome, rfl⟩ := Option.map_eq_some_iff.mp hmetadata
  have hmade : (initial.run sixtySix).encoder.encode =
      ((initial.run sixtySix).encoder.encode.1, some (⟨0, 0, 66, 66⟩, recovery)) := by
    rw [← hsome]
  obtain ⟨hcombines, hdecoder⟩ := coefficients_agree sixtySix hmade
  have hlength : (initial.run sixtySix).packets.length = 66 := by decide +kernel
  have hattempt : afterFirstLost.Attempts none afterFirstLost.checkRecoveryPossible.1 :=
    .first (by decide +kernel) (by decide +kernel)
  have hget : afterFirstLost.checkRecoveryPossible.1.decoder.recoveryPackets[0]? =
      some ⟨⟨0, 0, 66, 66⟩, 0, 66, ()⟩ := by decide +kernel
  exact ⟨_, recovery, hmade, hcombines, (hdecoder Unit Unit firstLost afterFirstLost _ none
    afterFirstLost_run hattempt 0 _ (by decide +kernel) hget rfl 0 0 (by decide +kernel)
    (by rw [hlength]; decide) (by rw [hlength]; decide) (by decide +kernel)).1⟩

end TracedEncoder
end Tonk.Siamese
