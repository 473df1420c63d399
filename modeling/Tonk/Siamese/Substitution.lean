import Tonk.Siamese.RecoveryMatrix

/-!
MultiplyLowerTriangle and BackSubstitution: the operations of the elimination are repeated on the
recovery data. A buffer stands for its bytes with zeros behind them, so the buffers are vectors over
the field.
-/

set_option autoImplicit false

namespace Tonk.Siamese
open Elimination Finset

namespace RecoveryMatrixState

variable {V : Type} [AddCommGroup V] [Module GF256 V]

def multiplyColumn (m : RecoveryMatrixState) (recovery : Nat → V) (col_i : Nat) : Nat → V :=
  (List.range' (col_i + 1) (m.columns.length - (col_i + 1))).foldl (fun recovery col_j =>
    let y := m.matrix (m.pivots col_j) col_i
    if y = 0 then recovery
    else Function.update recovery (m.pivots col_j)
      (recovery (m.pivots col_j) + y • recovery (m.pivots col_i))) recovery

def multiplyLowerTriangle (m : RecoveryMatrixState) (recovery : Nat → V) : Nat → V :=
  (List.range (m.columns.length - 1)).foldl m.multiplyColumn recovery

def substituteColumn (m : RecoveryMatrixState) (recovery : Nat → V) (col_i : Nat) (original : V) :
    Nat → V :=
  (List.range col_i).foldl (fun recovery col_j =>
    let x := m.matrix (m.pivots col_j) col_i
    if x = 0 then recovery
    else Function.update recovery (m.pivots col_j) (recovery (m.pivots col_j) + x • original))
    recovery

def backSubstitutionFrom (m : RecoveryMatrixState) : Nat → (Nat → V) → (Nat → V) → Nat → V
  | 0, _, original => original
  | n + 1, recovery, original =>
    let data := (m.matrix (m.pivots n) n)⁻¹ • recovery (m.pivots n)
    m.backSubstitutionFrom n (m.substituteColumn recovery n data) (Function.update original n data)

def backSubstitution (m : RecoveryMatrixState) (recovery : Nat → V) : Nat → V :=
  m.backSubstitutionFrom m.columns.length recovery (fun _ => 0)

theorem smul_add_smul (y : GF256) (v : V) : y • v + y • v = 0 := by
  rw [← add_smul, GF256.add_self, zero_smul]

theorem foldl_add_smul (piv : Equiv.Perm Nat) (y : Nat → GF256) (v : V) {places : List Nat}
    (hnodup : places.Nodup) (recovery : Nat → V) (i : Nat) :
    places.foldl (fun recovery j => if y j = 0 then recovery
      else Function.update recovery (piv j) (recovery (piv j) + y j • v)) recovery (piv i) =
      if i ∈ places then recovery (piv i) + y i • v else recovery (piv i) := by
  induction places generalizing recovery with
  | nil => simp
  | cons j rest ih =>
    obtain ⟨hfresh, hnodup'⟩ := List.nodup_cons.mp hnodup
    rw [List.foldl_cons, ih hnodup']
    rcases eq_or_ne i j with rfl | hne
    · rw [if_neg hfresh, if_pos List.mem_cons_self]
      by_cases hzero : y i = 0
      · rw [if_pos hzero, hzero, zero_smul, add_zero]
      · rw [if_neg hzero, Function.update_self]
    · have hkeep : (if y j = 0 then recovery else
          Function.update recovery (piv j) (recovery (piv j) + y j • v)) (piv i) =
            recovery (piv i) := by
        split
        · rfl
        · exact Function.update_of_ne (fun heq => hne (piv.injective heq)) _ _
      simp only [hkeep, List.mem_cons, hne, false_or]

theorem multiplyColumn_apply (m : RecoveryMatrixState) (recovery : Nat → V) (col_i j : Nat) :
    m.multiplyColumn recovery col_i (m.pivots j) =
      if col_i < j ∧ j < m.columns.length then
        recovery (m.pivots j) + m.matrix (m.pivots j) col_i • recovery (m.pivots col_i)
      else recovery (m.pivots j) := by
  have hmem : ∀ j, j ∈ List.range' (col_i + 1) (m.columns.length - (col_i + 1)) ↔
      col_i < j ∧ j < m.columns.length := by
    intro j
    rw [List.mem_range'_1]
    omega
  -- the source is not among the rows that are written
  have hsource : ∀ (places : List Nat), col_i ∉ places → ∀ r : Nat → V,
      r (m.pivots col_i) = recovery (m.pivots col_i) →
      places.foldl (fun recovery col_j =>
        let y := m.matrix (m.pivots col_j) col_i
        if y = 0 then recovery
        else Function.update recovery (m.pivots col_j)
          (recovery (m.pivots col_j) + y • recovery (m.pivots col_i))) r =
      places.foldl (fun r j => if m.matrix (m.pivots j) col_i = 0 then r
        else Function.update r (m.pivots j) (r (m.pivots j) +
          m.matrix (m.pivots j) col_i • recovery (m.pivots col_i))) r := by
    intro places
    induction places with
    | nil => exact fun _ _ _ => rfl
    | cons k rest ih =>
      intro hnot r hr
      have hne := List.ne_of_not_mem_cons hnot
      rw [List.foldl_cons, List.foldl_cons, hr]
      refine ih (List.not_mem_of_not_mem_cons hnot) _ ?_
      by_cases hzero : m.matrix (m.pivots k) col_i = 0
      · simp only [if_pos hzero]
        exact hr
      · simp only [if_neg hzero]
        rw [Function.update_of_ne (fun heq => hne (m.pivots.injective heq))]
        exact hr
  rw [multiplyColumn, hsource _ (by rw [hmem]; omega) recovery rfl,
    foldl_add_smul m.pivots (fun j => m.matrix (m.pivots j) col_i) _ (List.nodup_range' ..)]
  simp only [hmem]

theorem substituteColumn_apply (m : RecoveryMatrixState) (recovery : Nat → V) (col_i : Nat)
    (original : V) (j : Nat) : m.substituteColumn recovery col_i original (m.pivots j) =
      if j < col_i then recovery (m.pivots j) + m.matrix (m.pivots j) col_i • original
      else recovery (m.pivots j) := by
  rw [substituteColumn, foldl_add_smul m.pivots (fun j => m.matrix (m.pivots j) col_i) _
    List.nodup_range]
  simp only [List.mem_range]

section Solution

variable {m : RecoveryMatrixState} {a : Nat → Nat → GF256} {recovery x : Nat → V}

def upperSum (m : RecoveryMatrixState) (x : Nat → V) (j n : Nat) : V :=
  ∑ c ∈ range n, upper m.matrix m.pivots id j c • x c

theorem Solved.row_eq (h : m.Solved a)
    (hx : ∀ i, i < m.rowCount → recovery i = ∑ c ∈ range m.columns.length, a i c • x c) {j : Nat}
    (hj : j < m.columns.length) : recovery (m.pivots j) = m.upperSum x j m.columns.length +
      ∑ k ∈ range j, m.matrix (m.pivots j) k • m.upperSum x k m.columns.length := by
  obtain ⟨p, hechelon, hp⟩ := h.echelon
  have hle := h.le_rows
  have hupper : ∀ k, k ≤ j → ∀ c, upper m.matrix m.pivots (fun i => min i p) k c =
      upper m.matrix m.pivots id k c := by
    intro k hk c
    simp only [upper, id, show min k p = k by omega]
  have hmin : (fun i => min i p) j = j := Nat.min_eq_left (by omega)
  calc recovery (m.pivots j)
      = ∑ c ∈ range m.columns.length, a (m.pivots j) c • x c :=
        hx _ (piv_lt hechelon.fixed (by omega))
    _ = ∑ c ∈ range m.columns.length, (upper m.matrix m.pivots id j c • x c +
          ∑ k ∈ range j, m.matrix (m.pivots j) k • (upper m.matrix m.pivots id k c • x c)) := by
        refine sum_congr rfl fun c hc => ?_
        rw [hechelon.factored j (by omega) c (mem_range.mp hc), add_smul, hupper j (Nat.le_refl j),
          hmin, sum_smul]
        congr 1
        refine sum_congr rfl fun k hk => ?_
        have hk' := mem_range.mp hk
        rw [hupper k (by omega), mul_smul]
    _ = _ := by
        rw [sum_add_distrib, sum_comm]
        simp only [upperSum, smul_sum]

theorem Solved.multiplied (h : m.Solved a)
    (hx : ∀ i, i < m.rowCount → recovery i = ∑ c ∈ range m.columns.length, a i c • x c) {q : Nat}
    (hq : q ≤ m.columns.length - 1) {j : Nat} (hj : j < m.columns.length) :
    (List.range q).foldl m.multiplyColumn recovery (m.pivots j) =
      m.upperSum x j m.columns.length +
        ∑ k ∈ Ico q j, m.matrix (m.pivots j) k • m.upperSum x k m.columns.length := by
  induction q generalizing j with
  | zero =>
    rw [List.range_zero, List.foldl_nil, h.row_eq hx hj, Finset.range_eq_Ico]
  | succ q ih =>
    rw [List.range_succ, List.foldl_append, List.foldl_cons, List.foldl_nil, multiplyColumn_apply,
      ih (by omega) hj, ih (by omega) (j := q) (by omega), Ico_self, sum_empty, add_zero]
    split
    · next hlt =>
      rw [sum_eq_sum_Ico_succ_bot hlt.1]
      have hcancel := smul_add_smul (m.matrix (m.pivots j) q) (m.upperSum x q m.columns.length)
      calc _ = m.upperSum x j m.columns.length +
            ∑ k ∈ Ico (q + 1) j, m.matrix (m.pivots j) k • m.upperSum x k m.columns.length +
            (m.matrix (m.pivots j) q • m.upperSum x q m.columns.length +
              m.matrix (m.pivots j) q • m.upperSum x q m.columns.length) := by abel
        _ = _ := by rw [hcancel, add_zero]
    · next hge =>
      rw [Ico_eq_empty (by omega), Ico_eq_empty (by omega)]

theorem Solved.multiplyLowerTriangle (h : m.Solved a)
    (hx : ∀ i, i < m.rowCount → recovery i = ∑ c ∈ range m.columns.length, a i c • x c) {j : Nat}
    (hj : j < m.columns.length) :
    m.multiplyLowerTriangle recovery (m.pivots j) = m.upperSum x j m.columns.length := by
  rw [RecoveryMatrixState.multiplyLowerTriangle, h.multiplied hx (Nat.le_refl _) hj,
    Ico_eq_empty (by omega), sum_empty, add_zero]

theorem Solved.backSubstitutionFrom (h : m.Solved a) {n : Nat} (hn : n ≤ m.columns.length)
    {recovery original : Nat → V}
    (hrecovery : ∀ j, j < n → recovery (m.pivots j) = m.upperSum x j n)
    (horiginal : ∀ c, n ≤ c → c < m.columns.length → original c = x c) {c : Nat}
    (hc : c < m.columns.length) : m.backSubstitutionFrom n recovery original c = x c := by
  induction n generalizing recovery original with
  | zero => exact horiginal c (Nat.zero_le c) hc
  | succ n ih =>
    have hdata : (m.matrix (m.pivots n) n)⁻¹ • recovery (m.pivots n) = x n := by
      have hrow : recovery (m.pivots n) = m.matrix (m.pivots n) n • x n := by
        rw [hrecovery n (Nat.lt_succ_self n), upperSum, sum_range_succ, sum_eq_zero, zero_add]
        · simp [upper]
        · intro k hk
          simp [upper, mem_range.mp hk]
      rw [hrow, smul_smul, inv_mul_cancel₀ (h.pivot_ne n (by omega)), one_smul]
    rw [RecoveryMatrixState.backSubstitutionFrom, hdata]
    refine ih (by omega) (fun j hj => ?_) (fun k hk hlt => ?_)
    · rw [substituteColumn_apply, if_pos hj, hrecovery j (by omega), upperSum, sum_range_succ,
        add_assoc]
      simp only [upper, id, show ¬ n < j by omega, if_false, smul_add_smul, add_zero]
      rfl
    · by_cases heq : k = n
      · rw [heq, Function.update_self]
      · rw [Function.update_of_ne heq]
        exact horiginal k (by omega) hlt

theorem Solved.backSubstitution (h : m.Solved a)
    (hx : ∀ i, i < m.rowCount → recovery i = ∑ c ∈ range m.columns.length, a i c • x c) {c : Nat}
    (hc : c < m.columns.length) :
    m.backSubstitution (m.multiplyLowerTriangle recovery) c = x c :=
  h.backSubstitutionFrom (Nat.le_refl _) (fun _ hj => h.multiplyLowerTriangle hx hj)
    (fun k hk hlt => absurd hlt (by omega)) hc

end Solution

end RecoveryMatrixState
end Tonk.Siamese
