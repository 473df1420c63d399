import Tonk.Lib.Cauchy
import Tonk.Siamese.Completeness

set_option autoImplicit false

namespace Tonk.Siamese
open Elimination Finset

section Data

variable {V : Type} [AddCommGroup V] [Module GF256 V]

def addCauchyColumns (cauchyRow : Nat) : Nat → V → List V → V
  | _, sum, [] => sum
  | cauchyColumn, sum, original :: rest =>
    let cauchyColumn := (cauchyColumn + 1) % kCauchyMaxColumns
    addCauchyColumns cauchyRow cauchyColumn
      (sum + cauchyElement cauchyRow cauchyColumn • original) rest

/-- The data GenerateCauchyPacket writes for the packets from the first one not removed on. A shorter
packet counts as one with zeros behind it. -/
def cauchyPacketData (metadata : RecoveryMetadata) : List V → V
  | [] => 0
  | original :: rest =>
    if metadata.row = 0 then rest.foldl (fun sum original => sum + original) original
    else
      let cauchyRow := metadata.row - 1
      let cauchyColumn := metadata.columnStart % kCauchyMaxColumns
      addCauchyColumns cauchyRow cauchyColumn (cauchyElement cauchyRow cauchyColumn • original) rest

theorem addCauchyColumns_eq (cauchyRow cauchyColumn : Nat) (sum : V) (originals : List V) :
    addCauchyColumns cauchyRow cauchyColumn sum originals = sum + ∑ e ∈ range originals.length,
      cauchyElement cauchyRow ((cauchyColumn + 1 + e) % kCauchyMaxColumns) • originals.getD e 0 := by
  induction originals generalizing cauchyColumn sum with
  | nil => simp [addCauchyColumns]
  | cons original rest ih =>
    rw [addCauchyColumns, ih, List.length_cons, sum_range_succ', List.getD_cons_zero, Nat.add_zero,
      add_assoc, add_comm (cauchyElement _ _ • original)]
    congr 2
    refine sum_congr rfl fun e _ => ?_
    rw [List.getD_cons_succ, Nat.add_right_comm ((cauchyColumn + 1) % kCauchyMaxColumns) 1 e,
      Nat.add_assoc ((cauchyColumn + 1) % kCauchyMaxColumns), Nat.mod_add_mod, Nat.add_assoc]

omit [Module GF256 V] in
theorem foldl_add_eq (sum : V) (originals : List V) :
    originals.foldl (fun sum original => sum + original) sum =
      sum + ∑ e ∈ range originals.length, originals.getD e 0 := by
  induction originals generalizing sum with
  | nil => simp
  | cons original rest ih =>
    rw [List.foldl_cons, ih, List.length_cons, sum_range_succ', List.getD_cons_zero, add_assoc,
      add_comm original]
    simp only [List.getD_cons_succ]

theorem addColumns_mod (column e : Nat) :
    addColumns column e % kCauchyMaxColumns = (column + e) % kCauchyMaxColumns := by
  rw [addColumns]
  exact Nat.mod_mod_of_dvd _ (by decide)

theorem cauchyPacketData_eq {metadata : RecoveryMetadata}
    (hsum : metadata.sumCount ≤ siameseCauchyThreshold) (originals : List V) :
    cauchyPacketData metadata originals = ∑ e ∈ range originals.length,
      rowValue metadata (addColumns metadata.columnStart e) • originals.getD e 0 := by
  simp only [rowValue, if_pos hsum, addColumns_mod]
  cases originals with
  | nil => rfl
  | cons original rest =>
    rw [cauchyPacketData, List.length_cons, sum_range_succ', List.getD_cons_zero, Nat.add_zero,
      add_comm (∑ e ∈ range rest.length, _)]
    by_cases hparity : metadata.row = 0
    · simp only [if_pos hparity, one_smul, List.getD_cons_succ]
      exact foldl_add_eq original rest
    · simp only [if_neg hparity, List.getD_cons_succ]
      rw [addCauchyColumns_eq]
      congr 1
      refine sum_congr rfl fun e _ => ?_
      rw [Nat.add_assoc, Nat.mod_add_mod, Nat.add_comm 1 e]

end Data

theorem ofNat_inj {m n : Nat} (hm : m < 256) (hn : n < 256) (h : GF256.ofNat m = GF256.ofNat n) :
    m = n := by
  have hbyte := congrArg (fun a => a.byte.toNat) h
  simp only [GF256.ofNat, BitVec.toNat_ofNat] at hbyte
  omega

/-- Rows of parity and Cauchy packets over the same window take only zero to zero on as many of its
columns as there are rows. -/
theorem cauchyRows_eq_zero {ι : Type} [DecidableEq ι] {columns : Finset ι} {element : ι → Nat}
    {start count : Nat} (hcount : count ≤ siameseCauchyThreshold)
    (helement : Set.InjOn element columns) (hlt : ∀ j ∈ columns, element j < count)
    {rows : Finset Nat} (hrows : ∀ row ∈ rows, row ≤ kCauchyMaxRows) (hcard : columns.card ≤ rows.card)
    {v : ι → GF256} (hv : ∀ row ∈ rows, ∑ j ∈ columns,
      rowValue ⟨row, start, count, count⟩ (addColumns start (element j)) * v j = 0) {j : ι}
    (hj : j ∈ columns) : v j = 0 := by
  have hthreshold : siameseCauchyThreshold = 64 := rfl
  have hmaxRows : kCauchyMaxRows = 192 := rfl
  -- the point of a Cauchy row, and of a column
  let x : Nat → GF256 := fun row => GF256.ofNat (row - 1 + 64)
  let y : ι → GF256 := fun j => GF256.ofNat ((start + element j) % 64)
  have hx : Set.InjOn x (rows.erase 0) := by
    intro row hrow row' hrow' heq
    obtain ⟨hne, hmem⟩ := mem_erase.mp hrow
    obtain ⟨hne', hmem'⟩ := mem_erase.mp hrow'
    have hle := hrows row hmem
    have hle' := hrows row' hmem'
    have := ofNat_inj (by omega) (by omega) heq
    omega
  have hy : Set.InjOn y columns := by
    intro i hi k hk heq
    have hi' := hlt i hi
    have hk' := hlt k hk
    have := ofNat_inj (by omega) (by omega) heq
    exact helement hi hk (by omega)
  have hdisjoint : ∀ point ∈ (rows.erase 0).image x, ∀ k ∈ columns, point ≠ y k := by
    intro point hpoint k hk heq
    obtain ⟨row, hrow, rfl⟩ := mem_image.mp hpoint
    have hle := hrows row (mem_erase.mp hrow).2
    have := ofNat_inj (by omega) (by omega) heq
    omega
  have hcauchy : ∀ point ∈ (rows.erase 0).image x, ∑ k ∈ columns, (point - y k)⁻¹ * v k = 0 := by
    intro point hpoint
    obtain ⟨row, hrow, rfl⟩ := mem_image.mp hpoint
    obtain ⟨hne, hmem⟩ := mem_erase.mp hrow
    have hsum := hv row hmem
    simp only [rowValue, if_pos hcount, if_neg hne, addColumns_mod] at hsum
    exact hsum
  have hparity : decide (0 ∈ rows) = true → ∑ k ∈ columns, v k = 0 := by
    intro hzero
    have hsum := hv 0 (of_decide_eq_true hzero)
    simp only [rowValue, if_pos hcount, if_true, one_mul] at hsum
    exact hsum
  refine Cauchy.eq_zero_of_rows hy hdisjoint hcauchy hparity ?_ hj
  rw [card_image_of_injOn hx]
  by_cases hzero : 0 ∈ rows
  · rw [card_erase_of_mem hzero, decide_eq_true hzero, Bool.toNat_true]
    omega
  · rw [erase_eq_of_notMem hzero, decide_eq_false hzero, Bool.toNat_false]
    exact hcard

section Window

variable {start count k : Nat} {element row : Fin k → Nat}

def cauchyMatrix (start count : Nat) (row element : Fin k → Nat) : Matrix (Fin k) (Fin k) GF256 :=
  Matrix.of fun i j => rowValue ⟨row i, start, count, count⟩ (addColumns start (element j))

theorem cauchyMatrix_isUnit (hcount : count ≤ siameseCauchyThreshold)
    (helement : Function.Injective element) (hlt : ∀ j, element j < count)
    (hrow : Function.Injective row) (hrows : ∀ i, row i ≤ kCauchyMaxRows) :
    IsUnit (cauchyMatrix start count row element) := by
  rw [← Matrix.mulVec_injective_iff_isUnit]
  refine (injective_iff_map_eq_zero (cauchyMatrix start count row element).mulVecLin).mpr
    fun v hv => ?_
  funext j
  have hcard : #(univ : Finset (Fin k)) ≤ #(univ.image row) := by
    rw [card_image_of_injective _ hrow]
  have hbound : ∀ r ∈ univ.image row, r ≤ kCauchyMaxRows := by
    intro r hr
    obtain ⟨i, -, rfl⟩ := mem_image.mp hr
    exact hrows i
  have hzero : ∀ r ∈ univ.image row, ∑ j, rowValue ⟨r, start, count, count⟩
      (addColumns start (element j)) * v j = 0 := by
    intro r hr
    obtain ⟨i, -, rfl⟩ := mem_image.mp hr
    exact congrFun hv i
  exact cauchyRows_eq_zero hcount helement.injOn (fun j _ => hlt j) hbound hcard hzero (mem_univ j)

theorem eq_zero_of_isUnit {V : Type} [AddCommGroup V] [Module GF256 V]
    {a : Matrix (Fin k) (Fin k) GF256} (ha : IsUnit a) {d : Fin k → V}
    (hd : ∀ i, ∑ j, a i j • d j = 0) (j : Fin k) : d j = 0 := by
  have hinv : a⁻¹ * a = 1 := Matrix.nonsing_inv_mul a ((Matrix.isUnit_iff_isUnit_det a).mp ha)
  calc d j = ∑ l, (1 : Matrix (Fin k) (Fin k) GF256) j l • d l := by
        simp [Matrix.one_apply]
    _ = ∑ l, (∑ i, a⁻¹ j i * a i l) • d l := by
        rw [← hinv]
        rfl
    _ = ∑ i, a⁻¹ j i • ∑ l, a i l • d l := by
        simp only [sum_smul, smul_sum, mul_smul]
        exact sum_comm
    _ = 0 := by simp [hd]

/-- The packets that did not come are determined by those that did and the recovery packets. -/
theorem originals_eq_of_cauchyPacketData_eq {V : Type} [AddCommGroup V] [Module GF256 V]
    (hcount : count ≤ siameseCauchyThreshold) (helement : Function.Injective element)
    (hlt : ∀ j, element j < count) (hrow : Function.Injective row)
    (hrows : ∀ i, row i ≤ kCauchyMaxRows) {originals originals' : List V}
    (hlength : originals.length = count) (hlength' : originals'.length = count)
    (hsame : ∀ e, e < count → (∀ j, element j ≠ e) → originals.getD e 0 = originals'.getD e 0)
    (hdata : ∀ i, cauchyPacketData ⟨row i, start, count, count⟩ originals =
      cauchyPacketData ⟨row i, start, count, count⟩ originals') : originals = originals' := by
  have hlost : ∀ j, originals.getD (element j) 0 - originals'.getD (element j) 0 = 0 := by
    have hunit : IsUnit (cauchyMatrix start count row element) :=
      cauchyMatrix_isUnit hcount helement hlt hrow hrows
    refine eq_zero_of_isUnit hunit fun i => ?_
    have hrowEq := hdata i
    rw [cauchyPacketData_eq hcount, cauchyPacketData_eq hcount, hlength, hlength', ← sub_eq_zero,
      ← sum_sub_distrib] at hrowEq
    have hsubset : univ.image element ⊆ range count := by
      intro e he
      obtain ⟨j, -, rfl⟩ := mem_image.mp he
      exact mem_range.mpr (hlt j)
    simp only [← smul_sub] at hrowEq
    rw [← sum_subset hsubset, sum_image helement.injOn] at hrowEq
    · exact hrowEq
    · intro e he hnot
      have hkept := hsame e (mem_range.mp he) fun j heq =>
        hnot (mem_image.mpr ⟨j, mem_univ j, heq⟩)
      rw [hkept, sub_self, smul_zero]
  refine List.ext_getElem (hlength.trans hlength'.symm) fun e he he' => ?_
  have hget : originals.getD e 0 = originals'.getD e 0 := by
    by_cases hmem : ∃ j, element j = e
    · obtain ⟨j, rfl⟩ := hmem
      exact sub_eq_zero.mp (hlost j)
    · exact hsame e (by omega) fun j heq => hmem ⟨j, heq⟩
  rwa [List.getD_eq_getElem _ _ he, List.getD_eq_getElem _ _ he'] at hget

section Region

variable {α β : Type} {w : DecoderPacketWindow α} {packets : List (RecoveryPacket β)}

def OverWindow (packets : List (RecoveryPacket β)) (start count : Nat) (row : Fin k → Nat) : Prop :=
  ∀ i : Fin k, ∃ r, packets[i.val]? = some r ∧ r.metadata = ⟨row i, start, count, count⟩

theorem OverWindow.region (hover : OverWindow packets start count row) (h : Stocked w packets)
    (hpos : 0 < k) : count ≤ w.columnToElement (start + count) ∧
      regionStart packets = w.columnToElement (start + count) - count ∧
      regionEnd packets k = w.columnToElement (start + count) := by
  have hend : ∀ i : Fin k, ∃ r, packets[i.val]? = some r ∧
      r.elementEnd = w.columnToElement (start + count) ∧
      r.elementStart + count = w.columnToElement (start + count) := by
    intro i
    obtain ⟨r, hget, hmetadata⟩ := hover i
    have hstored := h.get hget
    have hcolumn := hstored.column_eq
    have hstart := hstored.start_eq
    rw [hmetadata] at hcolumn hstart
    exact ⟨r, hget, hcolumn.symm, hstart.trans hcolumn.symm⟩
  obtain ⟨head, hhead, hheadEnd, hheadStart⟩ := hend ⟨0, hpos⟩
  refine ⟨by omega, ?_, ?_⟩
  · cases packets with
    | nil => exact absurd hhead (by simp)
    | cons first rest =>
      simp only [List.getElem?_cons_zero, Option.some.injEq] at hhead
      rw [regionStart, hhead]
      omega
  · have hle : ∀ m, m ≤ k → regionEnd packets m ≤ w.columnToElement (start + count) := by
      intro m hm
      induction m with
      | zero => exact Nat.zero_le _
      | succ m ih =>
        obtain ⟨r, hget, hr, -⟩ := hend ⟨m, hm⟩
        rw [regionEnd_succ hget, hr]
        exact Nat.max_le.mpr ⟨Nat.le_refl _, ih (by omega)⟩
    have hge := le_regionEnd hpos hhead
    rw [hheadEnd] at hge
    exact Nat.le_antisymm (hle k (Nat.le_refl k)) hge

theorem OverWindow.regionMatrix_eq (hover : OverWindow packets start count row)
    (h : Stocked w packets) (hcount : count ≤ siameseCauchyThreshold) (i : Fin k) {c e : Nat}
    (hget : (regionLost w packets k)[c]? = some e) :
    regionStart packets ≤ e ∧ e - regionStart packets < count ∧
      regionMatrix w packets k i c = rowValue ⟨row i, start, count, count⟩
        (addColumns start (e - regionStart packets)) := by
  obtain ⟨hle, hstart, hend⟩ := hover.region h (Nat.lt_of_le_of_lt (Nat.zero_le _) i.isLt)
  obtain ⟨r, hr, hmetadata⟩ := hover i
  have hthreshold : siameseCauchyThreshold = 64 := rfl
  -- a loss of the region lies in the window
  have hin : ∀ e ∈ regionLost w packets k, regionStart packets ≤ e ∧
      e - regionStart packets < count ∧
      w.elementToColumn e = addColumns start (e - regionStart packets) := by
    intro e he
    obtain ⟨hfirst, hlt, -⟩ := DecoderPacketWindow.mem_lost.mp he
    refine ⟨hfirst, by omega, ?_⟩
    have hcast := subtractColumns_cast (start + count) w.columnStart
    have heq : subtractColumns (start + count) w.columnStart = w.columnToElement (start + count) :=
      rfl
    simp only [DecoderPacketWindow.elementToColumn, addColumns, kColumnPeriod]
    omega
  obtain ⟨hfirst, hwithin, hcolumn⟩ := hin e (List.mem_of_getElem? hget)
  have hc : c < (regionLost w packets k).length := (List.getElem?_eq_some_iff.mp hget).1
  refine ⟨hfirst, hwithin, ?_⟩
  have hgetD : ∀ j, j ≤ c → ∃ e', e' ∈ regionLost w packets k ∧
      (regionColumns w packets k).getD j 0 = w.elementToColumn e' := by
    intro j hj
    obtain ⟨e', hmem, -, hcolumn'⟩ := regionColumns_getD
      (show j < (regionLost w packets k).length by omega)
    exact ⟨e', hmem, hcolumn'⟩
  have hcolumn' : (regionColumns w packets k).getD c 0 = w.elementToColumn e := by
    rw [regionColumns, List.getD_eq_getElem?_getD, List.getElem?_map, hget]
    rfl
  have hstop : c < denseStop r.metadata (regionColumns w packets k) 0 := by
    rw [lt_denseStop_iff (by rw [length_regionColumns]; exact hc)]
    intro j _ hj
    obtain ⟨e', hmem, heq⟩ := hgetD j hj
    obtain ⟨-, hlt, hcol⟩ := hin e' hmem
    have hcast := subtractColumns_cast (addColumns start (e' - regionStart packets)) start
    rw [heq, hcol, hmetadata, beyond]
    simp only [addColumns, kColumnPeriod] at hcast ⊢
    omega
  have hlight : lightEntry w r (w.elementToColumn e) = 0 := by
    rw [lightEntry, lightPairs, hmetadata, if_pos hcount]
    rfl
  rw [regionMatrix_of_get hr, fillRow_apply h.regionColumns_nodup (Nat.zero_le _)
    (by rw [length_regionColumns]; exact hc), if_pos hstop, hcolumn', hlight, add_zero, hcolumn,
    hmetadata]

theorem OverWindow.solvable (hover : OverWindow packets start count row) (h : Stocked w packets)
    (hpos : 0 < k) (hcount : count ≤ siameseCauchyThreshold) (hrow : Function.Injective row)
    (hrows : ∀ i, row i ≤ kCauchyMaxRows) (hlost : (regionLost w packets k).length ≤ k) :
    Solvable w packets k := by
  have hlength : k ≤ packets.length := by
    obtain ⟨r, hget, -⟩ := hover ⟨k - 1, by omega⟩
    have := (List.getElem?_eq_some_iff.mp hget).1
    simp only at this
    omega
  have hget : ∀ c, c < (regionLost w packets k).length →
      (regionLost w packets k)[c]? = some ((regionLost w packets k).getD c 0) := by
    intro c hc
    rw [List.getElem?_eq_getElem hc, List.getD_eq_getElem _ _ hc]
  have hwithin : ∀ c, c < (regionLost w packets k).length →
      regionStart packets ≤ (regionLost w packets k).getD c 0 ∧
        (regionLost w packets k).getD c 0 - regionStart packets < count := by
    intro c hc
    obtain ⟨hfirst, hlt, -⟩ := hover.regionMatrix_eq h hcount ⟨0, hpos⟩ (hget c hc)
    exact ⟨hfirst, hlt⟩
  have hfew : (regionLost w packets k).length ≤ kMaximumLossRecoveryCount := by
    obtain ⟨hle, hstart, hend⟩ := hover.region h hpos
    calc (regionLost w packets k).length
        ≤ (List.range' (regionStart packets) (regionEnd packets k - regionStart packets)).length :=
          List.length_filter_le _ _
      _ = count := by
          rw [List.length_range']
          omega
      _ ≤ kMaximumLossRecoveryCount := hcount.trans (by decide)
  refine ⟨⟨⟨hpos, hlength, hlost⟩, hfew⟩, ?_⟩
  rw [RegionFullRank, fullColumnRank_iff]
  intro v hv c hc
  have hinj : Set.InjOn (fun c => (regionLost w packets k).getD c 0 - regionStart packets)
      (range (regionLost w packets k).length) := by
    intro c hc c' hc' heq
    have hlt := mem_range.mp hc
    have hlt' := mem_range.mp hc'
    obtain ⟨hfirst, -⟩ := hwithin c hlt
    obtain ⟨hfirst', -⟩ := hwithin c' hlt'
    have hsame : (regionLost w packets k).getD c 0 = (regionLost w packets k).getD c' 0 := by
      simp only at heq
      omega
    rw [List.getD_eq_getElem _ _ hlt, List.getD_eq_getElem _ _ hlt'] at hsame
    exact ((w.lost_nodup _ _).getElem_inj_iff).mp hsame
  have hbound : ∀ r ∈ univ.image row, r ≤ kCauchyMaxRows := by
    intro r hr
    obtain ⟨i, -, rfl⟩ := mem_image.mp hr
    exact hrows i
  have hcard : #(range (regionLost w packets k).length) ≤ #(univ.image row) := by
    rw [card_range, card_image_of_injective _ hrow, card_univ, Fintype.card_fin]
    exact hlost
  have hzero : ∀ r ∈ univ.image row, ∑ c ∈ range (regionLost w packets k).length,
      rowValue ⟨r, start, count, count⟩ (addColumns start
        ((regionLost w packets k).getD c 0 - regionStart packets)) * v c = 0 := by
    intro r hr
    obtain ⟨i, -, rfl⟩ := mem_image.mp hr
    refine Eq.trans (sum_congr rfl fun c hc => ?_) (hv i i.isLt)
    rw [(hover.regionMatrix_eq h hcount i (hget c (mem_range.mp hc))).2.2]
  exact cauchyRows_eq_zero hcount hinj (fun c hc => (hwithin c (mem_range.mp hc)).2) hbound hcard
    hzero (mem_range.mpr hc)

end Region

/-- Any choice of as many columns of a window as there are parity and Cauchy packets over it: the
matrix can be inverted, so the packets of these columns are determined, and the decoder finds a
region it can solve. -/
theorem cauchyRows_mds (hcount : count ≤ siameseCauchyThreshold)
    (helement : Function.Injective element) (hlt : ∀ j, element j < count)
    (hrow : Function.Injective row) (hrows : ∀ i, row i ≤ kCauchyMaxRows) :
    IsUnit (cauchyMatrix start count row element) ∧
    (∀ (V : Type) [AddCommGroup V] [Module GF256 V] (originals originals' : List V),
      originals.length = count → originals'.length = count →
      (∀ e, e < count → (∀ j, element j ≠ e) → originals.getD e 0 = originals'.getD e 0) →
      (∀ i, cauchyPacketData ⟨row i, start, count, count⟩ originals =
        cauchyPacketData ⟨row i, start, count, count⟩ originals') → originals = originals') ∧
    ∀ (α β : Type) (w : DecoderPacketWindow α) (packets : List (RecoveryPacket β)),
      Stocked w packets → OverWindow packets start count row → 0 < k →
      (regionLost w packets k).length ≤ k → Solvable w packets k :=
  ⟨cauchyMatrix_isUnit hcount helement hlt hrow hrows,
    fun _ _ _ _ _ hlength hlength' hsame hdata => originals_eq_of_cauchyPacketData_eq hcount helement
      hlt hrow hrows hlength hlength' hsame hdata,
    fun _ _ _ _ h hover hpos hlost => hover.solvable h hpos hcount hrow hrows hlost⟩

/-- Over the wrap of the columns, with the parity row and the last Cauchy row. -/
theorem cauchyRows_mds_wrap : IsUnit (cauchyMatrix (kColumnPeriod - 1) 3 ![0, 192] ![0, 2]) :=
  (cauchyRows_mds (by decide) (by decide) (by decide) (by decide) (by decide)).1

end Window

end Tonk.Siamese
