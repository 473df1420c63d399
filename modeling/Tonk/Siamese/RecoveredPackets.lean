import Tonk.Siamese.EliminatedRows
import Tonk.Siamese.Substitution

set_option autoImplicit false

namespace Tonk.Siamese
open Protocol Elimination Finset

namespace DataBuffer

theorem toBytes_map_byteElement (data : Bytes) : toBytes (data.map byteElement) = data := by
  unfold toBytes
  rw [List.map_map]
  exact List.map_id'' (fun b => rfl) data

theorem padded_getElem {buffer : DataBuffer} {i : Nat} (hi : i < buffer.length) :
    buffer.padded i = buffer[i] := by
  rw [padded, List.getD_eq_getElem _ _ hi]

theorem padded_eq_zero {buffer : DataBuffer} {i : Nat} (hi : buffer.length ≤ i) :
    buffer.padded i = 0 := by
  rw [padded, List.getD_eq_default _ _ hi]

theorem take_eq {buffer original : DataBuffer} (hle : original.length ≤ buffer.length)
    (heq : buffer.padded = original.padded) : buffer.take original.length = original := by
  refine List.ext_getElem (by rw [List.length_take]; omega) fun i hi hi' => ?_
  rw [List.getElem_take, ← padded_getElem, ← padded_getElem hi', heq]

end DataBuffer

def Addable (data : Bytes) : Prop := data ≠ [] ∧ data.length ≤ 0x1fffffff

theorem revealPacket_eq {column : Nat} {data : Bytes} {y : GF256} {buffer : DataBuffer}
    (hdata : Addable data) (hy : y ≠ 0)
    (hle : (OriginalPacket.initialized column data).buffer.length ≤ buffer.length)
    (heq : buffer.padded = y • (OriginalPacket.initialized column data).buffer.padded) :
    RecoveryMatrixState.revealPacket column y⁻¹ buffer =
      some (.initialized column data) := by
  obtain ⟨hpos, hlength⟩ := hdata
  obtain ⟨-, hheader⟩ := serializeHeaderPacketLength_length data.length
  have hrevealed : DataBuffer.padded (buffer.map (· * y⁻¹)) =
      (OriginalPacket.initialized column data).buffer.padded := by
    rw [DataBuffer.padded_map_mul, heq, smul_smul, inv_mul_cancel₀ hy, one_smul]
  have htake := DataBuffer.take_eq (by rw [List.length_map]; exact hle) hrevealed
  have hbuffer : (OriginalPacket.initialized column data).buffer =
      (serializeHeaderPacketLength data.length).map byteElement ++ data.map byteElement :=
    List.map_append
  have hsize : (OriginalPacket.initialized column data).buffer.length =
      (serializeHeaderPacketLength data.length).length + data.length := by
    rw [hbuffer, List.length_append, List.length_map, List.length_map]
  unfold RecoveryMatrixState.revealPacket
  simp only
  generalize buffer.map (· * y⁻¹) = revealed at htake
  have hfirst : ∃ rest, DataBuffer.toBytes (revealed.take kAlignmentBytes) =
      serializeHeaderPacketLength data.length ++ rest := by
    have hprefix : (revealed.take kAlignmentBytes).take
        (serializeHeaderPacketLength data.length).length =
          (serializeHeaderPacketLength data.length).map byteElement := by
      have hwhole := congrArg
        (List.take (serializeHeaderPacketLength data.length).length) htake
      rw [List.take_take, hbuffer, List.take_left' (List.length_map _), List.length_append,
        List.length_map, Nat.min_eq_left (Nat.le_add_right _ _)] at hwhole
      rw [List.take_take, Nat.min_eq_left (hheader.trans (by decide))]
      exact hwhole
    refine ⟨DataBuffer.toBytes ((revealed.take kAlignmentBytes).drop
      (serializeHeaderPacketLength data.length).length), ?_⟩
    have hsplit := congrArg DataBuffer.toBytes (List.take_append_drop
      (serializeHeaderPacketLength data.length).length (revealed.take kAlignmentBytes)).symm
    rw [hsplit, hprefix]
    unfold DataBuffer.toBytes
    rw [List.map_append]
    exact congrArg (· ++ _) (DataBuffer.toBytes_map_byteElement _)
  obtain ⟨rest, hrest⟩ := hfirst
  rw [hrest, deserializeHeaderPacketLength_serialize hlength]
  have hlong : ¬(data.length = 0 ∨
      buffer.length < (OriginalPacket.initialized column data).buffer.length) := by
    have := List.length_pos_iff.mpr hpos
    omega
  simp only [← hsize, if_neg hlong, htake]
  rfl

namespace RecoveryMatrixState

def paddedRows (recovery : Nat → DataBuffer) (row : Nat) : Nat → GF256 := (recovery row).padded

theorem paddedRows_update (recovery : Nat → DataBuffer) (row : Nat) (buffer : DataBuffer) :
    paddedRows (Function.update recovery row buffer) =
      Function.update (paddedRows recovery) row buffer.padded := by
  funext k
  by_cases hk : k = row
  · subst hk
    simp [paddedRows]
  · simp [paddedRows, Function.update_of_ne hk]

variable {m : RecoveryMatrixState}

theorem paddedRows_multiplyColumnData (m : RecoveryMatrixState) (recovery : Nat → DataBuffer)
    (col_i : Nat) :
    paddedRows (m.multiplyColumnData recovery col_i) =
      m.multiplyColumn (paddedRows recovery) col_i := by
  unfold multiplyColumnData multiplyColumn
  generalize List.range' (col_i + 1) (m.columns.length - (col_i + 1)) = places
  induction places generalizing recovery with
  | nil => rfl
  | cons col_j rest ih =>
    rw [List.foldl_cons, List.foldl_cons, ih]
    congr 1
    simp only
    split
    · rfl
    · rw [paddedRows_update, DataBuffer.padded_mulAddMem _ (by
        rw [DataBuffer.length_growZeroPadded]
        exact Nat.le_max_right _ _), DataBuffer.padded_growZeroPadded]
      rfl

theorem paddedRows_multiplyLowerTriangleData (m : RecoveryMatrixState)
    (recovery : Nat → DataBuffer) : paddedRows (m.multiplyLowerTriangleData recovery) =
      m.multiplyLowerTriangle (paddedRows recovery) := by
  unfold multiplyLowerTriangleData multiplyLowerTriangle
  induction m.columns.length - 1 with
  | zero => rfl
  | succ n ih =>
    rw [List.range_succ, List.foldl_append, List.foldl_append, List.foldl_cons, List.foldl_cons,
      List.foldl_nil, List.foldl_nil, paddedRows_multiplyColumnData, ih]

/-! How long the buffers get. -/

theorem length_multiplyColumn (m : RecoveryMatrixState) (col_i : Nat) {places : List Nat}
    (hsource : col_i ∉ places) (recovery : Nat → DataBuffer) :
    let multiplied := places.foldl (fun recovery col_j =>
      let y := m.matrix (m.pivots col_j) col_i
      if y = 0 then recovery
      else
        let src := recovery (m.pivots col_i)
        Function.update recovery (m.pivots col_j)
          (((recovery (m.pivots col_j)).growZeroPadded src.length).mulAddMem y src)) recovery
    (∀ row, (recovery row).length ≤ (multiplied row).length) ∧
      (∀ j, j ∉ places → multiplied (m.pivots j) = recovery (m.pivots j)) ∧
      ∀ j ∈ places, m.matrix (m.pivots j) col_i ≠ 0 →
        (recovery (m.pivots col_i)).length ≤ (multiplied (m.pivots j)).length := by
  induction places generalizing recovery with
  | nil => exact ⟨fun _ => Nat.le_refl _, fun _ _ => rfl, fun j hj => absurd hj List.not_mem_nil⟩
  | cons k rest ih =>
    have hne := List.ne_of_not_mem_cons hsource
    simp only [List.foldl_cons]
    by_cases hzero : m.matrix (m.pivots k) col_i = 0
    · rw [if_pos hzero]
      obtain ⟨hmono, hkeep, hwritten⟩ := ih (List.not_mem_of_not_mem_cons hsource) recovery
      refine ⟨hmono, fun j hj => hkeep j (List.not_mem_of_not_mem_cons hj), fun j hj hy => ?_⟩
      rcases List.mem_cons.mp hj with rfl | hrest
      · exact absurd hzero hy
      · exact hwritten j hrest hy
    · rw [if_neg hzero]
      have hother : ∀ j, j ≠ k → Function.update recovery (m.pivots k)
          (((recovery (m.pivots k)).growZeroPadded
            (recovery (m.pivots col_i)).length).mulAddMem (m.matrix (m.pivots k) col_i)
              (recovery (m.pivots col_i))) (m.pivots j) = recovery (m.pivots j) := fun j hj =>
        Function.update_of_ne (fun heq => hj (m.pivots.injective heq)) _ _
      obtain ⟨hmono, hkeep, hwritten⟩ := ih (List.not_mem_of_not_mem_cons hsource)
        (Function.update recovery (m.pivots k)
          (((recovery (m.pivots k)).growZeroPadded
            (recovery (m.pivots col_i)).length).mulAddMem (m.matrix (m.pivots k) col_i)
              (recovery (m.pivots col_i))))
      rw [hother col_i hne] at hwritten
      refine ⟨fun row => ?_, fun j hj => ?_, fun j hj hy => ?_⟩
      · refine Nat.le_trans ?_ (hmono row)
        by_cases hrow : row = m.pivots k
        · subst hrow
          rw [Function.update_self, DataBuffer.length_mulAddMem, DataBuffer.length_growZeroPadded]
          exact Nat.le_max_left _ _
        · rw [Function.update_of_ne hrow]
      · rw [hkeep j (List.not_mem_of_not_mem_cons hj), hother j (List.ne_of_not_mem_cons hj)]
      · rcases List.mem_cons.mp hj with rfl | hrest
        · refine Nat.le_trans ?_ (hmono _)
          rw [Function.update_self, DataBuffer.length_mulAddMem, DataBuffer.length_growZeroPadded]
          exact Nat.le_max_right _ _
        · exact hwritten j hrest hy

theorem length_multiplyColumnData (m : RecoveryMatrixState) (col_i : Nat)
    (recovery : Nat → DataBuffer) :
    (∀ row, (recovery row).length ≤ (m.multiplyColumnData recovery col_i row).length) ∧
      (∀ j, j ≤ col_i →
        m.multiplyColumnData recovery col_i (m.pivots j) = recovery (m.pivots j)) ∧
      ∀ j, col_i < j → j < m.columns.length → m.matrix (m.pivots j) col_i ≠ 0 →
        (recovery (m.pivots col_i)).length ≤
          (m.multiplyColumnData recovery col_i (m.pivots j)).length := by
  have hmem : ∀ j, j ∈ List.range' (col_i + 1) (m.columns.length - (col_i + 1)) ↔
      col_i < j ∧ j < m.columns.length := by
    intro j
    rw [List.mem_range'_1]
    omega
  obtain ⟨hmono, hkeep, hwritten⟩ := length_multiplyColumn m col_i
    (by rw [hmem]; omega) recovery
  exact ⟨hmono, fun j hj => hkeep j (by rw [hmem]; omega),
    fun j hlt hj => hwritten j ((hmem j).mpr ⟨hlt, hj⟩)⟩

theorem length_multiplyLowerTriangleData (m : RecoveryMatrixState) (recovery : Nat → DataBuffer) :
    (∀ row, (recovery row).length ≤ (m.multiplyLowerTriangleData recovery row).length) ∧
      ∀ k j, k < j → j < m.columns.length → m.matrix (m.pivots j) k ≠ 0 →
        (m.multiplyLowerTriangleData recovery (m.pivots k)).length ≤
          (m.multiplyLowerTriangleData recovery (m.pivots j)).length := by
  have hturns : ∀ q, (∀ row, (recovery row).length ≤
        ((List.range q).foldl m.multiplyColumnData recovery row).length) ∧
      ∀ k j, k < q → k < j → j < m.columns.length → m.matrix (m.pivots j) k ≠ 0 →
        ((List.range q).foldl m.multiplyColumnData recovery (m.pivots k)).length ≤
          ((List.range q).foldl m.multiplyColumnData recovery (m.pivots j)).length := by
    intro q
    induction q with
    | zero => exact ⟨fun _ => Nat.le_refl _, fun k j hk => absurd hk (Nat.not_lt_zero k)⟩
    | succ q ih =>
      obtain ⟨hgrown, hpairs⟩ := ih
      rw [List.range_succ, List.foldl_append, List.foldl_cons, List.foldl_nil]
      generalize (List.range q).foldl m.multiplyColumnData recovery = multiplied at *
      obtain ⟨hmono, hkeep, hwritten⟩ := length_multiplyColumnData m q multiplied
      refine ⟨fun row => (hgrown row).trans (hmono row), fun k j hk hlt hj hy => ?_⟩
      rw [hkeep k (by omega)]
      rcases Nat.lt_succ_iff_lt_or_eq.mp hk with hbefore | rfl
      · exact (hpairs k j hbefore hlt hj hy).trans (hmono _)
      · exact hwritten j hlt hj hy
  obtain ⟨hgrown, hpairs⟩ := hturns (m.columns.length - 1)
  exact ⟨hgrown, fun k j hlt hj => hpairs k j (by omega) hlt hj⟩

variable {a : Nat → Nat → GF256}

theorem Solved.factored (h : m.Solved a) {j c : Nat} (hj : j < m.columns.length)
    (hc : c < m.columns.length) : a (m.pivots j) c = upper m.matrix m.pivots id j c +
      ∑ k ∈ range j, m.matrix (m.pivots j) k * upper m.matrix m.pivots id k c := by
  obtain ⟨p, hechelon, hp⟩ := h.echelon
  have hle := h.le_rows
  have hupper : ∀ k, k ≤ j → upper m.matrix m.pivots (fun i => min i p) k c =
      upper m.matrix m.pivots id k c := by
    intro k hk
    simp only [upper, id, show min k p = k by omega]
  have hmin : (fun i => min i p) j = j := Nat.min_eq_left (by omega)
  rw [hechelon.factored j (by omega) c hc, hupper j (Nat.le_refl j), hmin]
  refine congrArg _ (sum_congr rfl fun k hk => ?_)
  rw [hupper k (Nat.le_of_lt (mem_range.mp hk))]

theorem Solved.fits (h : m.Solved a) {recovery : Nat → DataBuffer} {size : Nat → Nat}
    (hfits : ∀ j, j < m.columns.length → ∀ c, c < m.columns.length → a (m.pivots j) c ≠ 0 →
      size c ≤ (recovery (m.pivots j)).length) {j c : Nat} (hj : j < m.columns.length)
    (hc : c < m.columns.length) (hne : upper m.matrix m.pivots id j c ≠ 0) :
    size c ≤ (m.multiplyLowerTriangleData recovery (m.pivots j)).length := by
  obtain ⟨hgrown, hpairs⟩ := length_multiplyLowerTriangleData m recovery
  induction j using Nat.strong_induction_on with
  | _ j ih =>
    by_cases hzero : a (m.pivots j) c = 0
    · have hfactored := h.factored hj hc
      rw [hzero] at hfactored
      have hsum : ∑ k ∈ range j, m.matrix (m.pivots j) k * upper m.matrix m.pivots id k c ≠ 0 := by
        intro hnone
        rw [hnone, add_zero] at hfactored
        exact hne hfactored.symm
      obtain ⟨k, hk, hproduct⟩ := exists_ne_zero_of_sum_ne_zero hsum
      have hlt := mem_range.mp hk
      exact (ih k hlt (by omega) (right_ne_zero_of_mul hproduct)).trans
        (hpairs k j hlt hj (left_ne_zero_of_mul hproduct))
    · exact (hfits j hj c hc hzero).trans (hgrown _)

/-! The packets come out from the last column to the first. -/

theorem substituteColumnData_eq (m : RecoveryMatrixState) (col_i : Nat) (original : DataBuffer)
    (recovery : Nat → DataBuffer) (hfits : ∀ j < col_i, m.matrix (m.pivots j) col_i ≠ 0 →
      original.length ≤ (recovery (m.pivots j)).length) :
    (∀ row, (m.substituteColumnData recovery col_i original row).length =
        (recovery row).length) ∧
      paddedRows (m.substituteColumnData recovery col_i original) =
        m.substituteColumn (paddedRows recovery) col_i original.padded := by
  have hplaces : ∀ j ∈ List.range col_i, m.matrix (m.pivots j) col_i ≠ 0 →
      original.length ≤ (recovery (m.pivots j)).length := fun j hj =>
    hfits j (List.mem_range.mp hj)
  unfold substituteColumnData substituteColumn
  generalize List.range col_i = places at hplaces
  clear hfits
  induction places generalizing recovery with
  | nil => exact ⟨fun _ => rfl, rfl⟩
  | cons k rest ih =>
    have hrest := fun j hj => hplaces j (List.mem_cons_of_mem k hj)
    simp only [List.foldl_cons]
    by_cases hzero : m.matrix (m.pivots k) col_i = 0
    · rw [if_pos hzero, if_pos hzero]
      exact ih recovery hrest
    · rw [if_neg hzero, if_neg hzero]
      have hlong := hplaces k List.mem_cons_self hzero
      rw [List.take_of_length_le hlong]
      have hlength : ∀ row, (Function.update recovery (m.pivots k)
          ((recovery (m.pivots k)).mulAddMem (m.matrix (m.pivots k) col_i) original) row).length =
            (recovery row).length := by
        intro row
        by_cases hrow : row = m.pivots k
        · subst hrow
          rw [Function.update_self, DataBuffer.length_mulAddMem]
        · rw [Function.update_of_ne hrow]
      obtain ⟨hkeep, heq⟩ := ih (Function.update recovery (m.pivots k)
          ((recovery (m.pivots k)).mulAddMem (m.matrix (m.pivots k) col_i) original))
        (fun j hj hy => by
          rw [hlength]
          exact hrest j hj hy)
      refine ⟨fun row => (hkeep row).trans (hlength row), heq.trans ?_⟩
      rw [paddedRows_update, DataBuffer.padded_mulAddMem _ hlong]
      rfl

def packetAt (m : RecoveryMatrixState) (data : Nat → Bytes) (c : Nat) : OriginalPacket :=
  .initialized (m.columns.getD c 0) (data c)

theorem Solved.backSubstitutionFromData (h : m.Solved a) {data : Nat → Bytes}
    (hdata : ∀ c < m.columns.length, Addable (data c)) {n : Nat} (hn : n ≤ m.columns.length)
    {recovery : Nat → DataBuffer} {original : Nat → OriginalPacket}
    (hfits : ∀ j c, j < n → c < n → upper m.matrix m.pivots id j c ≠ 0 →
      (m.packetAt data c).buffer.length ≤ (recovery (m.pivots j)).length)
    (hrecovery : ∀ j < n, paddedRows recovery (m.pivots j) =
      m.upperSum (fun c => (m.packetAt data c).buffer.padded) j n)
    (horiginal : ∀ c, n ≤ c → c < m.columns.length → original c = m.packetAt data c) :
    ∃ f, m.backSubstitutionFromData n recovery original = some f ∧
      ∀ c < m.columns.length, f c = m.packetAt data c := by
  induction n generalizing recovery original with
  | zero => exact ⟨original, rfl, fun c hc => horiginal c (Nat.zero_le c) hc⟩
  | succ n ih =>
    have hpivot := h.pivot_ne n (by omega)
    have hupper : upper m.matrix m.pivots id n n = m.matrix (m.pivots n) n := by simp [upper]
    have hrow : (recovery (m.pivots n)).padded =
        m.matrix (m.pivots n) n • (m.packetAt data n).buffer.padded := by
      refine (hrecovery n (Nat.lt_succ_self n)).trans ?_
      rw [upperSum, sum_range_succ, sum_eq_zero, zero_add, hupper]
      intro k hk
      simp [upper, mem_range.mp hk]
    have hrevealed : revealPacket (m.columns.getD n 0) (m.matrix (m.pivots n) n)⁻¹
        (recovery (m.pivots n)) = some (m.packetAt data n) :=
      revealPacket_eq (hdata n (by omega)) hpivot (hfits n n (Nat.lt_succ_self n) (Nat.lt_succ_self n)
        (by rw [hupper]; exact hpivot)) hrow
    have hkept : ∀ j < n, upper m.matrix m.pivots id j n = m.matrix (m.pivots j) n := by
      intro j hj
      simp only [upper, id, show ¬ n < j by omega, if_false]
    obtain ⟨hlengths, hpadded⟩ := m.substituteColumnData_eq n (m.packetAt data n).buffer recovery
      fun j hj hy => hfits j n (by omega) (Nat.lt_succ_self n) (by rw [hkept j hj]; exact hy)
    unfold RecoveryMatrixState.backSubstitutionFromData
    simp only [hrevealed]
    refine ih (by omega) (fun j c hj hc hne => ?_) (fun j hj => ?_) (fun k hk hlt => ?_)
    · rw [hlengths]
      exact hfits j c (by omega) (by omega) hne
    · rw [hpadded, substituteColumn_apply, if_pos hj, hrecovery j (by omega), upperSum,
        sum_range_succ, add_assoc, hkept j hj, smul_add_smul, add_zero]
      rfl
    · by_cases heq : k = n
      · rw [heq, Function.update_self]
      · rw [Function.update_of_ne heq]
        exact horiginal k (by omega) hlt

theorem multiplyLowerTriangle_congr {V : Type} [AddCommGroup V] [Module GF256 V]
    (recovery recovery' : Nat → V)
    (heq : ∀ j < m.columns.length, recovery (m.pivots j) = recovery' (m.pivots j)) {j : Nat}
    (hj : j < m.columns.length) :
    m.multiplyLowerTriangle recovery (m.pivots j) =
      m.multiplyLowerTriangle recovery' (m.pivots j) := by
  unfold multiplyLowerTriangle
  have hq : m.columns.length - 1 ≤ m.columns.length := Nat.sub_le _ 1
  generalize m.columns.length - 1 = q at hq
  induction q generalizing j with
  | zero => exact heq j hj
  | succ q ih =>
    rw [List.range_succ, List.foldl_append, List.foldl_append, List.foldl_cons, List.foldl_cons,
      List.foldl_nil, List.foldl_nil, multiplyColumn_apply, multiplyColumn_apply,
      ih hj (by omega), ih (j := q) (by omega) (by omega)]

theorem Solved.backSubstitutionData (h : m.Solved a) {data : Nat → Bytes}
    (hdata : ∀ c < m.columns.length, Addable (data c)) (recovery : Nat → DataBuffer)
    (hfits : ∀ j < m.columns.length, ∀ c < m.columns.length, a (m.pivots j) c ≠ 0 →
      (m.packetAt data c).buffer.length ≤ (recovery (m.pivots j)).length)
    (hrecovery : ∀ j < m.columns.length, (recovery (m.pivots j)).padded =
      ∑ c ∈ range m.columns.length, a (m.pivots j) c • (m.packetAt data c).buffer.padded) :
    ∃ f, m.backSubstitutionData (m.multiplyLowerTriangleData recovery) = some f ∧
      ∀ c < m.columns.length, f c = m.packetAt data c := by
  refine h.backSubstitutionFromData hdata (Nat.le_refl _) (fun j c hj hc hne => ?_) (fun j hj => ?_)
    (fun c hge hlt => absurd hlt (by omega))
  · exact h.fits (fun j hj c hc hne => hfits j hj c hc hne) hj hc hne
  · rw [paddedRows_multiplyLowerTriangleData]
    refine (multiplyLowerTriangle_congr _ (fun row =>
      ∑ c ∈ range m.columns.length, a row c • (m.packetAt data c).buffer.padded)
      (fun j hj => hrecovery j hj) hj).trans ?_
    exact h.multiplyLowerTriangle (fun i _ => rfl) hj

end RecoveryMatrixState

end Tonk.Siamese
