import Tonk.Siamese.Solver

set_option autoImplicit false

namespace Tonk.Siamese
open Search Elimination

variable {α β : Type}

/-- What the LDPC part of a row adds to a lost column. -/
def lightValue (w : DecoderPacketWindow α) (recovery : RecoveryPacket β) : Nat → PCGRandom → Nat →
    GF256
  | 0, _, _ => 0
  | n + 1, prng, column =>
    let (random1, prng) := prng.next
    let element1 := recovery.elementStart + random1.toNat % recovery.metadata.ldpcCount
    let (randomRX, prng) := prng.next
    let elementRX := recovery.elementStart + randomRX.toNat % recovery.metadata.ldpcCount
    (if w.getWindowElement element1 = none ∧ w.elementToColumn element1 = column then 1 else 0) +
      (if w.getWindowElement elementRX = none ∧ w.elementToColumn elementRX = column then
        getRowValue recovery.metadata.row else 0) +
      lightValue w recovery n prng column

/-- The column of the matrix at which a packet is listed. -/
def listedColumn (w : DecoderPacketWindow α) (columns : List Nat) (element : Nat) : Nat :=
  columns.idxOf (w.elementToColumn element)

section Row

variable {w : DecoderPacketWindow α} {recovery : RecoveryPacket β} {columns : List Nat}
  {originalColumn : Nat → Nat} {start j : Nat}

theorem addToColumn_of_lt {element : Nat} {value : GF256} {rowData : Nat → GF256} (hj : j < start) :
    addToColumn w originalColumn start element value rowData j = rowData j := by
  unfold addToColumn
  simp only
  split
  · rfl
  · split
    · rw [Function.update_of_ne (by omega)]
    · rfl

theorem addToColumn_apply {element : Nat} {value : GF256} {rowData : Nat → GF256}
    (hnodup : columns.Nodup) (hstart : start ≤ j) (hj : j < columns.length) :
    addToColumn w (listedColumn w columns) start element value rowData j = rowData j +
      if w.getWindowElement element = none ∧ w.elementToColumn element = columns.getD j 0 then value
      else 0 := by
  have hindex : listedColumn w columns element = j ↔
      w.elementToColumn element = columns.getD j 0 := by
    rw [List.getD_eq_getElem _ _ hj, listedColumn]
    constructor
    · intro heq
      have hlt : columns.idxOf (w.elementToColumn element) < columns.length := heq ▸ hj
      have hget := List.getElem_idxOf hlt
      simp only [heq] at hget
      exact hget.symm
    · intro heq
      rw [heq]
      exact hnodup.idxOf_getElem j hj
  unfold addToColumn
  cases hdata : w.getWindowElement element with
  | some data => simp
  | none =>
    simp only [Option.isSome_none, Bool.false_eq_true, if_false, true_and]
    by_cases heq : w.elementToColumn element = columns.getD j 0
    · rw [if_pos heq, hindex.mpr heq, if_pos hstart, Function.update_self]
    · rw [if_neg heq, add_zero]
      split
      · rw [Function.update_of_ne fun h => heq (hindex.mp h.symm)]
      · rfl

theorem fillLight_succ (n : Nat) (prng : PCGRandom) (rowData : Nat → GF256) :
    fillLight w originalColumn recovery start (n + 1) prng rowData =
      fillLight w originalColumn recovery start n prng.next.2.next.2 (addToColumn w originalColumn start
        (recovery.elementStart + prng.next.2.next.1.toNat % recovery.metadata.ldpcCount)
        (getRowValue recovery.metadata.row) (addToColumn w originalColumn start
          (recovery.elementStart + prng.next.1.toNat % recovery.metadata.ldpcCount) 1 rowData)) :=
  rfl

theorem fillLight_of_lt {n : Nat} {prng : PCGRandom} {rowData : Nat → GF256} (hj : j < start) :
    fillLight w originalColumn recovery start n prng rowData j = rowData j := by
  induction n generalizing prng rowData with
  | zero => rfl
  | succ n ih =>
    rw [fillLight_succ, ih, addToColumn_of_lt hj, addToColumn_of_lt hj]

theorem fillLight_apply {n : Nat} {prng : PCGRandom} {rowData : Nat → GF256}
    (hnodup : columns.Nodup) (hstart : start ≤ j) (hj : j < columns.length) :
    fillLight w (listedColumn w columns) recovery start n prng rowData j =
      rowData j + lightValue w recovery n prng (columns.getD j 0) := by
  induction n generalizing prng rowData with
  | zero => rw [fillLight, lightValue, add_zero]
  | succ n ih =>
    rw [fillLight_succ, ih, addToColumn_apply hnodup hstart hj,
      addToColumn_apply hnodup hstart hj]
    simp only [lightValue, add_assoc]

def lightPairs (metadata : RecoveryMetadata) : Nat :=
  if metadata.sumCount ≤ siameseCauchyThreshold then 0
  else (metadata.ldpcCount + kPairAddRate - 1) / kPairAddRate

/-- What the row of a packet holds for a lost column when no column before it is behind its range. -/
def lightEntry (w : DecoderPacketWindow α) (recovery : RecoveryPacket β) (column : Nat) : GF256 :=
  lightValue w recovery (lightPairs recovery.metadata)
    (.seed (.ofNat recovery.metadata.row) (.ofNat recovery.metadata.ldpcCount)) column

def beyond (metadata : RecoveryMetadata) (column : Nat) : Prop :=
  metadata.sumCount ≤ subtractColumns column metadata.columnStart

instance (metadata : RecoveryMetadata) (column : Nat) : Decidable (beyond metadata column) :=
  inferInstanceAs (Decidable (_ ≤ _))

theorem fillRow_of_lt {rowData : Nat → GF256} (hj : j < start) :
    fillRow w originalColumn recovery columns start rowData j = rowData j := by
  have hdense : fillDense recovery.metadata columns start rowData j = rowData j := if_neg (by omega)
  unfold fillRow
  simp only
  split
  · exact hdense
  · rw [fillLight_of_lt hj, hdense]

def denseStop (metadata : RecoveryMetadata) (columns : List Nat) (start : Nat) : Nat :=
  firstFrom (fun j => metadata.sumCount ≤ subtractColumns (columns.getD j 0) metadata.columnStart)
    start columns.length

theorem lt_denseStop_iff {metadata : RecoveryMetadata} (hj : j < columns.length) :
    j < denseStop metadata columns start ↔
      ∀ k, start ≤ k → k ≤ j → ¬ beyond metadata (columns.getD k 0) := by
  constructor
  · intro hlt k hk hkj
    have hfirst := firstFrom_before (p := fun j => decide
      (metadata.sumCount ≤ subtractColumns (columns.getD j 0) metadata.columnStart)) hk
      (Nat.lt_of_le_of_lt hkj hlt)
    simpa [beyond] using hfirst
  · intro hall
    by_contra hge
    have hle : start ≤ denseStop metadata columns start := le_firstFrom
    have hpass : decide (metadata.sumCount ≤ subtractColumns
        (columns.getD (denseStop metadata columns start) 0) metadata.columnStart) = true :=
      firstFrom_passes (Nat.lt_of_le_of_lt (Nat.le_of_not_lt hge) hj)
    exact hall _ hle (Nat.le_of_not_lt hge) (of_decide_eq_true hpass)

theorem fillRow_apply {rowData : Nat → GF256} (hnodup : columns.Nodup) (hstart : start ≤ j)
    (hj : j < columns.length) : fillRow w (listedColumn w columns) recovery columns start rowData j =
      (if j < denseStop recovery.metadata columns start then
        rowValue recovery.metadata (columns.getD j 0) else 0) +
        lightEntry w recovery (columns.getD j 0) := by
  have hdense : fillDense recovery.metadata columns start rowData j =
      if j < denseStop recovery.metadata columns start then
        rowValue recovery.metadata (columns.getD j 0) else 0 := if_pos ⟨hstart, hj⟩
  unfold fillRow lightEntry lightPairs
  simp only
  split
  · rw [hdense, lightValue, add_zero]
  · rw [fillLight_apply hnodup hstart hj, hdense]

end Row

/-- What DeserializeFooter_RecoveryMetadata can return. -/
structure RecoveryMetadata.Readable (m : RecoveryMetadata) : Prop where
  column_lt : m.columnStart < kColumnPeriod
  sum_pos : 1 ≤ m.sumCount
  sum_le : m.sumCount ≤ 2 ^ 15
  ldpc_le : m.ldpcCount ≤ m.sumCount
  row_lt : m.row < 256

instance (m : RecoveryMetadata) : Decidable m.Readable :=
  decidable_of_iff (m.columnStart < kColumnPeriod ∧ 1 ≤ m.sumCount ∧ m.sumCount ≤ 2 ^ 15 ∧
      m.ldpcCount ≤ m.sumCount ∧ m.row < 256)
    ⟨fun h => ⟨h.1, h.2.1, h.2.2.1, h.2.2.2.1, h.2.2.2.2⟩,
      fun h => ⟨h.column_lt, h.sum_pos, h.sum_le, h.ldpc_le, h.row_lt⟩⟩

/-- A recovery packet in the list: it ends where its columns say, past the next expected packet, and
its LDPC range starts no later than that packet. -/
structure RecoveryPacket.StoredIn (r : RecoveryPacket β) (w : DecoderPacketWindow α) : Prop where
  readable : r.metadata.Readable
  start_eq : r.elementStart + r.metadata.ldpcCount = r.elementEnd
  start_le : r.elementStart ≤ w.nextExpectedElement
  next_lt : w.nextExpectedElement < r.elementEnd
  end_le : r.elementEnd ≤ w.count
  column_eq : w.columnToElement (r.metadata.columnStart + r.metadata.sumCount) = r.elementEnd

section Stored

variable {w : DecoderPacketWindow α} {r : RecoveryPacket β}

theorem RecoveryPacket.StoredIn.ldpc_pos (h : r.StoredIn w) : 0 < r.metadata.ldpcCount := by
  have := h.start_eq
  have := h.start_le
  have := h.next_lt
  omega

theorem RecoveryPacket.StoredIn.beyond (h : r.StoredIn w) (hw : w.Sound) {e : Nat}
    (hge : r.elementEnd ≤ e) (hlt : e < w.count) : beyond r.metadata (w.elementToColumn e) := by
  have hend := subtractColumns_cast (r.metadata.columnStart + r.metadata.sumCount) w.columnStart
  have hcolumn := subtractColumns_cast (w.elementToColumn e) r.metadata.columnStart
  have hcount := hw.count_le
  have hsum := h.readable.sum_le
  have heq : subtractColumns (r.metadata.columnStart + r.metadata.sumCount) w.columnStart =
      r.elementEnd := h.column_eq
  rw [heq] at hend
  simp only [Siamese.beyond, DecoderPacketWindow.elementToColumn, addColumns, kColumnPeriod] at *
  omega

theorem DecoderPacketWindow.Sound.elementToColumn_inj (hw : w.Sound) {e e' : Nat}
    (he : e < w.count) (he' : e' < w.count) (heq : w.elementToColumn e = w.elementToColumn e') :
    e = e' := by
  have hcount := hw.count_le
  simp only [DecoderPacketWindow.elementToColumn, addColumns, kColumnPeriod] at *
  omega

theorem lightValue_eq_zero {column : Nat} (hpos : 0 < r.metadata.ldpcCount)
    (hnone : ∀ k, k < r.metadata.ldpcCount → w.elementToColumn (r.elementStart + k) ≠ column)
    (n : Nat) (prng : PCGRandom) : lightValue w r n prng column = 0 := by
  induction n generalizing prng with
  | zero => rfl
  | succ n ih =>
    have hone := hnone _ (Nat.mod_lt prng.next.1.toNat hpos)
    have hrx := hnone _ (Nat.mod_lt prng.next.2.next.1.toNat hpos)
    simp only [lightValue, hone, hrx, and_false, if_false, ih, add_zero]

theorem RecoveryPacket.StoredIn.lightEntry_eq_zero (h : r.StoredIn w) (hw : w.Sound) {e : Nat}
    (hge : r.elementEnd ≤ e) (hlt : e < w.count) : lightEntry w r (w.elementToColumn e) = 0 := by
  have hstart := h.start_eq
  have hend := h.end_le
  refine lightValue_eq_zero h.ldpc_pos (fun k hk heq => ?_) _ _
  have := hw.elementToColumn_inj (by omega) hlt heq
  omega

theorem fillRow_congr {w' : DecoderPacketWindow α} {r' : RecoveryPacket β}
    {originalColumn originalColumn' : Nat → Nat} (hmetadata : r'.metadata = r.metadata)
    (hpos : 0 < r.metadata.ldpcCount)
    (hlost : ∀ k, k < r.metadata.ldpcCount → (w'.getWindowElement (r'.elementStart + k)).isSome =
      (w.getWindowElement (r.elementStart + k)).isSome)
    (hpoints : ∀ k, k < r.metadata.ldpcCount → w.getWindowElement (r.elementStart + k) = none →
      originalColumn' (r'.elementStart + k) = originalColumn (r.elementStart + k))
    (columns : List Nat) (start : Nat) (rowData : Nat → GF256) :
    fillRow w' originalColumn' r' columns start rowData =
      fillRow w originalColumn r columns start rowData := by
  have hadd : ∀ k, k < r.metadata.ldpcCount → ∀ value rowData,
      addToColumn w' originalColumn' start (r'.elementStart + k) value rowData =
        addToColumn w originalColumn start (r.elementStart + k) value rowData := by
    intro k hk value rowData
    unfold addToColumn
    rw [hlost k hk]
    cases hdata : w.getWindowElement (r.elementStart + k) with
    | some data => rfl
    | none => rw [hpoints k hk hdata]
  have hlight : ∀ n prng rowData, fillLight w' originalColumn' r' start n prng rowData =
      fillLight w originalColumn r start n prng rowData := by
    intro n
    induction n with
    | zero => exact fun _ _ => rfl
    | succ n ih =>
      intro prng rowData
      rw [fillLight_succ, fillLight_succ, hmetadata, hadd _ (Nat.mod_lt _ hpos),
        hadd _ (Nat.mod_lt _ hpos), ih]
  unfold fillRow
  simp only [hmetadata, hlight]

end Stored

/-! The region of the first `m` packets. -/

def regionStart (packets : List (RecoveryPacket β)) : Nat :=
  match packets with
  | [] => 0
  | head :: _ => head.elementStart

def regionEnd (packets : List (RecoveryPacket β)) (m : Nat) : Nat :=
  (packets.take m).foldl (fun e r => max r.elementEnd e) 0

def regionLost (w : DecoderPacketWindow α) (packets : List (RecoveryPacket β)) (m : Nat) :
    List Nat := w.lost (regionStart packets) (regionEnd packets m)

def regionColumns (w : DecoderPacketWindow α) (packets : List (RecoveryPacket β)) (m : Nat) :
    List Nat := (regionLost w packets m).map w.elementToColumn

/-- The recovery matrix of the region, as GenerateMatrix fills it when nothing is there yet. -/
def regionMatrix (w : DecoderPacketWindow α) (packets : List (RecoveryPacket β)) (m i : Nat) :
    Nat → GF256 :=
  match packets[i]? with
  | none => fun _ => 0
  | some recovery =>
    let columns := regionColumns w packets m
    fillRow w (listedColumn w columns) recovery columns 0 fun _ => 0

section Region

variable {w : DecoderPacketWindow α} {packets : List (RecoveryPacket β)} {m : Nat}

theorem regionEnd_succ {recovery : RecoveryPacket β} (h : packets[m]? = some recovery) :
    regionEnd packets (m + 1) = max recovery.elementEnd (regionEnd packets m) := by
  rw [regionEnd, List.take_add_one, h, List.foldl_append]
  rfl

theorem regionEnd_mono {n : Nat} (h : m ≤ n) : regionEnd packets m ≤ regionEnd packets n := by
  induction n with
  | zero => rw [Nat.le_zero.mp h]
  | succ n ih =>
    rcases Nat.le_succ_iff.mp h with hle | heq
    · refine (ih hle).trans ?_
      cases hget : packets[n]? with
      | none =>
        have hlen := List.getElem?_eq_none_iff.mp hget
        rw [regionEnd, regionEnd, List.take_of_length_le hlen,
          List.take_of_length_le (Nat.le_succ_of_le hlen)]
      | some recovery =>
        rw [regionEnd_succ hget]
        exact Nat.le_max_right _ _
    · rw [heq]

theorem le_regionEnd {i : Nat} (him : i < m) {recovery : RecoveryPacket β}
    (h : packets[i]? = some recovery) : recovery.elementEnd ≤ regionEnd packets m :=
  calc recovery.elementEnd ≤ regionEnd packets (i + 1) := by
        rw [regionEnd_succ h]
        exact Nat.le_max_left _ _
    _ ≤ regionEnd packets m := regionEnd_mono him

theorem regionEnd_le {n : Nat} (h : ∀ r ∈ packets, r.elementEnd ≤ n) :
    regionEnd packets m ≤ n := by
  induction m with
  | zero => exact Nat.zero_le n
  | succ m ih =>
    cases hget : packets[m]? with
    | none =>
      have hlen := List.getElem?_eq_none_iff.mp hget
      rw [regionEnd, List.take_of_length_le (Nat.le_succ_of_le hlen)]
      rwa [regionEnd, List.take_of_length_le hlen] at ih
    | some recovery =>
      rw [regionEnd_succ hget]
      exact Nat.max_le.mpr ⟨h recovery (List.mem_of_getElem? hget), ih⟩

/-- The window and the list of recovery packets fit together. -/
structure Stocked (w : DecoderPacketWindow α) (packets : List (RecoveryPacket β)) : Prop where
  sound : w.Sound
  stored : ∀ r ∈ packets, r.StoredIn w

theorem Stocked.get (h : Stocked w packets) {i : Nat} {recovery : RecoveryPacket β}
    (hget : packets[i]? = some recovery) : recovery.StoredIn w :=
  h.stored recovery (List.mem_of_getElem? hget)

theorem Stocked.regionStart_le (h : Stocked w packets) :
    regionStart packets ≤ w.nextExpectedElement := by
  cases packets with
  | nil => exact Nat.zero_le _
  | cons head rest => exact (h.stored head List.mem_cons_self).start_le

theorem Stocked.next_lt (h : Stocked w packets) (hm : 0 < m) (hne : packets ≠ []) :
    w.nextExpectedElement < regionEnd packets m := by
  cases packets with
  | nil => exact absurd rfl hne
  | cons head rest =>
    exact Nat.lt_of_lt_of_le (h.stored head List.mem_cons_self).next_lt
      (le_regionEnd (i := 0) hm rfl)

theorem Stocked.regionEnd_le (h : Stocked w packets) : regionEnd packets m ≤ w.count :=
  Siamese.regionEnd_le fun r hr => (h.stored r hr).end_le

theorem Stocked.next_mem_regionLost (h : Stocked w packets) (hm : 0 < m) (hne : packets ≠ []) :
    w.nextExpectedElement ∈ regionLost w packets m := by
  have hlt := h.next_lt hm hne
  have hcount : regionEnd packets m ≤ w.count := h.regionEnd_le
  exact DecoderPacketWindow.mem_lost.mpr ⟨h.regionStart_le, hlt, h.sound.at_next (by omega)⟩

theorem Stocked.regionLost_append (h : Stocked w packets) {r : Nat} (hr : 0 < r) (hrm : r ≤ m)
    (hne : packets ≠ []) : regionLost w packets r ++ w.lost (regionEnd packets r)
      (regionEnd packets m) = regionLost w packets m := by
  have hstart := h.regionStart_le
  have hlt := h.next_lt hr hne
  exact w.lost_append (by omega) (regionEnd_mono hrm)

theorem regionLost_zero : regionLost w packets 0 = [] := by
  simp [regionLost, regionEnd, DecoderPacketWindow.lost]

theorem Stocked.regionLost_mono (h : Stocked w packets) {r : Nat} (hrm : r ≤ m) :
    (regionLost w packets r).length ≤ (regionLost w packets m).length := by
  rcases Nat.eq_zero_or_pos r with rfl | hr
  · rw [regionLost_zero]
    exact Nat.zero_le _
  · by_cases hne : packets = []
    · subst hne
      simp [regionLost, regionEnd]
    · rw [← h.regionLost_append hr hrm hne, List.length_append]
      exact Nat.le_add_right _ _

theorem length_regionColumns : (regionColumns w packets m).length =
    (regionLost w packets m).length := List.length_map _

theorem Stocked.lt_count (h : Stocked w packets) {e : Nat} (he : e ∈ regionLost w packets m) :
    e < w.count := by
  have hlt := (DecoderPacketWindow.mem_lost.mp he).2.1
  have hle : regionEnd packets m ≤ w.count := h.regionEnd_le
  omega

theorem Stocked.regionColumns_nodup (h : Stocked w packets) : (regionColumns w packets m).Nodup := by
  refine List.Nodup.map_on (fun e he e' he' heq => ?_) (w.lost_nodup _ _)
  exact h.sound.elementToColumn_inj (h.lt_count he) (h.lt_count he') heq

theorem regionColumns_getD {c : Nat}
    (hc : c < (regionLost w packets m).length) : ∃ e, e ∈ regionLost w packets m ∧
      (regionLost w packets m)[c]? = some e ∧
      (regionColumns w packets m).getD c 0 = w.elementToColumn e := by
  refine ⟨(regionLost w packets m).get ⟨c, hc⟩, List.get_mem _ _, List.getElem?_eq_getElem hc, ?_⟩
  rw [regionColumns, List.getD_eq_getElem?_getD, List.getElem?_map, List.getElem?_eq_getElem hc]
  rfl

/-- A column that was not in the smaller region is behind all of its packets. -/
theorem Stocked.regionColumns_right (h : Stocked w packets) {r c : Nat} (hr : 0 < r) (hrm : r ≤ m)
    (hne : packets ≠ []) (hge : (regionLost w packets r).length ≤ c)
    (hc : c < (regionLost w packets m).length) : ∃ e, regionEnd packets r ≤ e ∧ e < w.count ∧
      (regionColumns w packets m).getD c 0 = w.elementToColumn e := by
  obtain ⟨e, hmem, hget, hcolumn⟩ := regionColumns_getD hc
  refine ⟨e, ?_, h.lt_count hmem, hcolumn⟩
  rw [← h.regionLost_append hr hrm hne, List.getElem?_append_right hge] at hget
  exact (DecoderPacketWindow.mem_lost.mp (List.mem_of_getElem? hget)).1

theorem Stocked.regionColumns_old (h : Stocked w packets) {r c : Nat} (hr : 0 < r) (hrm : r ≤ m)
    (hne : packets ≠ []) (hc : c < (regionLost w packets r).length) :
    (regionColumns w packets m).getD c 0 = (regionColumns w packets r).getD c 0 := by
  rw [regionColumns, ← h.regionLost_append hr hrm hne, List.map_append,
    List.getD_append _ _ _ _ (by rw [List.length_map]; exact hc)]
  rfl

section Rows

variable {i r c : Nat} {recovery : RecoveryPacket β} {rowData : Nat → GF256}

theorem regionMatrix_of_get (hget : packets[i]? = some recovery) :
    regionMatrix w packets m i = fillRow w (listedColumn w (regionColumns w packets m)) recovery
      (regionColumns w packets m) 0 fun _ => 0 := by
  rw [regionMatrix, hget]

theorem Stocked.fillRow_points (h : Stocked w packets) (hget : packets[i]? = some recovery)
    (him : i < m) {originalColumn : Nat → Nat}
    (hpoints : ∀ c e, (regionLost w packets m)[c]? = some e → originalColumn e = c) (start : Nat) :
    fillRow w originalColumn recovery (regionColumns w packets m) start rowData =
      fillRow w (listedColumn w (regionColumns w packets m)) recovery (regionColumns w packets m)
        start rowData := by
  have hstored := h.get hget
  have hstart := hstored.start_eq
  refine fillRow_congr rfl hstored.ldpc_pos (fun _ _ => rfl) (fun k hk hnone => ?_) _ _ _
  have hlost : w.isGot (recovery.elementStart + k) = false := by
    rw [h.sound.got_eq, hnone]
    rfl
  have hmem : recovery.elementStart + k ∈ regionLost w packets m := by
    have hfirst := h.regionStart_le
    have hge := h.sound.missing_ge hlost
    have hend := le_regionEnd him hget
    exact DecoderPacketWindow.mem_lost.mpr ⟨by omega, by omega, hlost⟩
  obtain ⟨c, hc, heq⟩ := List.getElem_of_mem hmem
  have hc' : c < (regionColumns w packets m).length := by
    rw [length_regionColumns]
    exact hc
  have hcolumn : w.elementToColumn (recovery.elementStart + k) = (regionColumns w packets m)[c] := by
    simp only [regionColumns, List.getElem_map, heq]
  rw [hpoints c _ (List.getElem?_eq_some_iff.mpr ⟨hc, heq⟩), listedColumn, hcolumn,
    h.regionColumns_nodup.idxOf_getElem c hc']

theorem Stocked.fillRow_new (h : Stocked w packets) (hget : packets[i]? = some recovery)
    (hc : c < (regionLost w packets m).length) :
    fillRow w (listedColumn w (regionColumns w packets m)) recovery (regionColumns w packets m) 0
      rowData c = regionMatrix w packets m i c := by
  have hlt : c < (regionColumns w packets m).length := by
    rw [length_regionColumns]
    exact hc
  rw [regionMatrix_of_get hget, fillRow_apply h.regionColumns_nodup (Nat.zero_le _) hlt,
    fillRow_apply h.regionColumns_nodup (Nat.zero_le _) hlt]

theorem Stocked.fillRow_right (h : Stocked w packets) (hget : packets[i]? = some recovery)
    (hir : i < r) (hrm : r ≤ m) (hge : (regionLost w packets r).length ≤ c)
    (hc : c < (regionLost w packets m).length) {start : Nat} (hstart : start ≤ c) :
    fillRow w (listedColumn w (regionColumns w packets m)) recovery (regionColumns w packets m) start
      rowData c = 0 := by
  have hstored := h.get hget
  have hne : packets ≠ [] := fun hnil => by
    rw [hnil] at hget
    exact absurd hget (by simp)
  obtain ⟨e, hend, hlt, hcolumn⟩ := h.regionColumns_right (by omega) hrm hne hge hc
  have hafter : recovery.elementEnd ≤ e := (le_regionEnd hir hget).trans hend
  rw [fillRow_apply h.regionColumns_nodup hstart (by rw [length_regionColumns]; exact hc), hcolumn,
    hstored.lightEntry_eq_zero h.sound hafter hlt, add_zero, if_neg]
  rw [lt_denseStop_iff (by rw [length_regionColumns]; exact hc)]
  intro hall
  refine hall c hstart (Nat.le_refl c) ?_
  rw [hcolumn]
  exact hstored.beyond h.sound hafter hlt

theorem Stocked.regionMatrix_right (h : Stocked w packets) (hi : i < packets.length) (hir : i < r)
    (hrm : r ≤ m) (hge : (regionLost w packets r).length ≤ c)
    (hc : c < (regionLost w packets m).length) : regionMatrix w packets m i c = 0 := by
  rw [regionMatrix_of_get (List.getElem?_eq_getElem hi)]
  exact h.fillRow_right (List.getElem?_eq_getElem hi) hir hrm hge hc (Nat.zero_le _)

theorem Stocked.regionMatrix_old (h : Stocked w packets) (hi : i < packets.length) (hir : i < r)
    (hrm : r ≤ m) (hc : c < (regionLost w packets r).length) :
    regionMatrix w packets m i c = regionMatrix w packets r i c := by
  have hne : packets ≠ [] := fun hnil => by
    rw [hnil] at hi
    exact absurd hi (Nat.not_lt_zero i)
  have hmono : (regionLost w packets r).length ≤ (regionLost w packets m).length :=
    h.regionLost_mono hrm
  have hsame : ∀ k, k ≤ c → (regionColumns w packets m).getD k 0 =
      (regionColumns w packets r).getD k 0 := fun k hk =>
    h.regionColumns_old (by omega) hrm hne (by omega)
  have hlt : c < (regionColumns w packets m).length := by
    rw [length_regionColumns]
    omega
  have hlt' : c < (regionColumns w packets r).length := by
    rw [length_regionColumns]
    exact hc
  rw [regionMatrix_of_get (List.getElem?_eq_getElem hi),
    regionMatrix_of_get (List.getElem?_eq_getElem hi),
    fillRow_apply h.regionColumns_nodup (Nat.zero_le _) hlt,
    fillRow_apply h.regionColumns_nodup (Nat.zero_le _) hlt', hsame c (Nat.le_refl c)]
  congr 1
  refine if_congr ?_ rfl rfl
  rw [lt_denseStop_iff hlt, lt_denseStop_iff hlt']
  constructor
  · intro hall k hk hkc
    rw [← hsame k hkc]
    exact hall k hk hkc
  · intro hall k hk hkc
    rw [hsame k hkc]
    exact hall k hk hkc

end Rows

end Region

end Tonk.Siamese
