import Mathlib.LinearAlgebra.Matrix.Rank
import Mathlib.Tactic

/-!
Gaussian elimination over a field, in place: a row keeps, in the columns that are cleared, the
multiples of the pivot rows that were taken off it. The rows stay where they are, and `piv` says
which row is at which place.
-/

set_option autoImplicit false

namespace Elimination
open Finset

variable {F : Type} [Field F]

def Kernel (a : Nat → Nat → F) (rows columns : Nat) (v : Nat → F) : Prop :=
  ∀ i, i < rows → ∑ c ∈ range columns, a i c * v c = 0

def FullColumnRank (a : Nat → Nat → F) (rows columns : Nat) : Prop :=
  (Matrix.of fun (i : Fin rows) (j : Fin columns) => a i j).rank = columns

theorem fullColumnRank_iff {a : Nat → Nat → F} {rows columns : Nat} :
    FullColumnRank a rows columns ↔
      ∀ v, Kernel a rows columns v → ∀ c, c < columns → v c = 0 := by
  have hrank : FullColumnRank a rows columns ↔ LinearMap.ker
      (Matrix.of fun (i : Fin rows) (j : Fin columns) => a i j).mulVecLin = ⊥ := by
    have hsum := LinearMap.finrank_range_add_finrank_ker
      (Matrix.of fun (i : Fin rows) (j : Fin columns) => a i j).mulVecLin
    rw [Module.finrank_fin_fun] at hsum
    rw [FullColumnRank, Matrix.rank, ← Submodule.finrank_eq_zero]
    omega
  rw [hrank, LinearMap.ker_eq_bot']
  constructor
  · intro h v hv c hc
    have hzero := h (fun j => v j) (by
      funext i
      simpa [Matrix.mulVec, dotProduct, Finset.sum_range] using hv i i.isLt)
    exact congrFun hzero ⟨c, hc⟩
  · intro h v hv
    have hall := h (fun c => if hc : c < columns then v ⟨c, hc⟩ else 0) (by
      intro i hi
      have hrow := congrFun hv ⟨i, hi⟩
      simpa [Matrix.mulVec, dotProduct, Finset.sum_range] using hrow)
    funext j
    simpa using hall j j.isLt

theorem fullColumnRank_congr {a a' : Nat → Nat → F} {rows columns : Nat}
    (h : ∀ i, i < rows → ∀ c, c < columns → a' i c = a i c) :
    FullColumnRank a' rows columns ↔ FullColumnRank a rows columns := by
  have heq : (Matrix.of fun (i : Fin rows) (j : Fin columns) => a' i j) =
      Matrix.of fun (i : Fin rows) (j : Fin columns) => a i j := by
    ext i j
    exact h i i.isLt j j.isLt
  rw [FullColumnRank, FullColumnRank, heq]

section Factored

variable {a m : Nat → Nat → F} {piv done : Nat → Nat} {rows columns : Nat}

def upper (m : Nat → Nat → F) (piv done : Nat → Nat) (i c : Nat) : F :=
  if c < done i then 0 else m (piv i) c

def Factored (a m : Nat → Nat → F) (piv done : Nat → Nat) (rows columns : Nat) : Prop :=
  ∀ i, i < rows → ∀ c, c < columns → a (piv i) c =
    upper m piv done i c + ∑ k ∈ range (done i), m (piv i) k * upper m piv done k c

theorem Factored.start (h : ∀ i, i < rows → ∀ c, c < columns → m (piv i) c = a (piv i) c)
    (hdone : ∀ i, done i = 0) : Factored a m piv done rows columns := by
  intro i hi c hc
  simp [upper, hdone, h i hi c hc]

theorem Factored.congr (h : Factored a m piv done rows columns) {m' : Nat → Nat → F}
    {done' : Nat → Nat} (hle : ∀ i, i < rows → done i ≤ i)
    (hdone : ∀ i, i < rows → done' i = done i)
    (hm : ∀ i, i < rows → ∀ c, m' (piv i) c = m (piv i) c) :
    Factored a m' piv done' rows columns := by
  intro i hi c hc
  have hupper : ∀ k, k < rows → upper m' piv done' k c = upper m piv done k c := by
    intro k hk
    simp only [upper, hdone k hk, hm k hk]
  rw [h i hi c hc, hupper i hi, hdone i hi]
  congr 1
  refine sum_congr rfl fun k hk => ?_
  have hk' := mem_range.mp hk
  have := hle i hi
  rw [hupper k (by omega), hm i hi]

def clearRow (pivotRow row : Nat → F) (p : Nat) : Nat → F := fun c =>
  if c = p then row p / pivotRow p
  else if p < c then row c - row p / pivotRow p * pivotRow c else row c

theorem Factored.clear (h : Factored a m piv done rows columns) {m' : Nat → Nat → F} {p : Nat}
    (hp : p < columns) (hdone : done p = p) (hpivot : m (piv p) p ≠ 0) {s : Nat → Prop}
    [DecidablePred s] (hs : ∀ i, s i → done i = p) (hfree : ∀ i, s i → ∀ j, done j ≤ i)
    (hps : ¬ s p) (hclear : ∀ i, s i → ∀ c, c < columns →
      m' (piv i) c = clearRow (m (piv p)) (m (piv i)) p c)
    (hkeep : ∀ i, ¬ s i → ∀ c, m' (piv i) c = m (piv i) c) :
    Factored a m' piv (fun i => if s i then p + 1 else done i) rows columns := by
  have hupper : ∀ k c, ¬ s k →
      upper m' piv (fun i => if s i then p + 1 else done i) k c = upper m piv done k c := by
    intro k c hk
    simp only [upper, if_neg hk, hkeep k hk]
  intro i hi c hc
  rw [h i hi c hc]
  by_cases hi' : s i
  · have hold : ∑ k ∈ range (done i), m (piv i) k * upper m piv done k c =
        ∑ k ∈ range p, m' (piv i) k *
          upper m' piv (fun i => if s i then p + 1 else done i) k c := by
      rw [hs i hi']
      refine sum_congr rfl fun k hk => ?_
      have hk' := mem_range.mp hk
      have hsk : ¬ s k := fun hsk => by
        have := hfree k hsk p
        omega
      rw [hupper k c hsk, hclear i hi' k (by omega), clearRow, if_neg (by omega), if_neg (by omega)]
    have hmul : m' (piv i) p = m (piv i) p / m (piv p) p := by
      rw [hclear i hi' p hp, clearRow, if_pos rfl]
    simp only [if_pos hi', sum_range_succ]
    rw [hold, hupper p c hps, hmul]
    simp only [upper, if_pos hi', hs i hi', hdone]
    rcases Nat.lt_trichotomy c p with hlt | rfl | hgt
    · simp [hlt, Nat.lt_succ_of_lt hlt]
    · simp only [Nat.lt_irrefl, if_false, Nat.lt_succ_self, if_true, div_mul_cancel₀ _ hpivot]
      ring
    · rw [if_neg (by omega), if_neg (by omega), if_neg (by omega), hclear i hi' c hc, clearRow,
        if_neg (by omega), if_pos hgt]
      ring
  · rw [hupper i c hi']
    simp only [if_neg hi']
    congr 1
    refine sum_congr rfl fun k hk => ?_
    have hk' := mem_range.mp hk
    have hsk : ¬ s k := fun hsk => by
      have := hfree k hsk i
      omega
    rw [hupper k c hsk, hkeep i hi' k]

/-- The elimination changes nothing about the vectors that are taken to zero. -/
theorem Factored.kernel_iff (h : Factored a m piv done rows columns) (hdone : ∀ i, done i ≤ i)
    (v : Nat → F) : (∀ i, i < rows → ∑ c ∈ range columns, a (piv i) c * v c = 0) ↔
      ∀ i, i < rows → ∑ c ∈ range columns, upper m piv done i c * v c = 0 := by
  have hrow : ∀ i, i < rows → ∑ c ∈ range columns, a (piv i) c * v c =
      ∑ c ∈ range columns, upper m piv done i c * v c +
        ∑ k ∈ range (done i), m (piv i) k * ∑ c ∈ range columns, upper m piv done k c * v c := by
    intro i hi
    calc ∑ c ∈ range columns, a (piv i) c * v c
        = ∑ c ∈ range columns, (upper m piv done i c * v c +
            ∑ k ∈ range (done i), m (piv i) k * (upper m piv done k c * v c)) := by
          refine sum_congr rfl fun c hc => ?_
          rw [h i hi c (mem_range.mp hc), add_mul, sum_mul]
          simp only [mul_assoc]
      _ = _ := by
          rw [sum_add_distrib, sum_comm]
          simp only [mul_sum]
  constructor
  · intro hzero i
    induction i using Nat.strong_induction_on with
    | _ i ih =>
      intro hi
      have hsum : ∑ k ∈ range (done i),
          m (piv i) k * ∑ c ∈ range columns, upper m piv done k c * v c = 0 := by
        refine sum_eq_zero fun k hk => ?_
        have hk' := mem_range.mp hk
        have hle := hdone i
        rw [ih k (by omega) (by omega), mul_zero]
      have hi' := hrow i hi
      rw [hzero i hi, hsum, add_zero] at hi'
      exact hi'.symm
  · intro hzero i hi
    rw [hrow i hi, hzero i hi, zero_add]
    refine sum_eq_zero fun k hk => ?_
    have hk' := mem_range.mp hk
    have hle := hdone i
    rw [hzero k (by omega), mul_zero]

end Factored

section Echelon

variable {a m : Nat → Nat → F} {piv : Equiv.Perm Nat} {rows columns p : Nat}

/-- `p` pivots are found, and the rows behind them are cleared as far. -/
structure Echelon (a m : Nat → Nat → F) (piv : Equiv.Perm Nat) (rows columns p : Nat) : Prop where
  fixed : ∀ i, rows ≤ i → piv i = i
  factored : Factored a m piv (fun i => min i p) rows columns
  pivot_ne : ∀ i, i < p → m (piv i) i ≠ 0
  le_rows : p ≤ rows
  le_columns : p ≤ columns

theorem piv_lt (hfixed : ∀ i, rows ≤ i → piv i = i) {i : Nat} (hi : i < rows) : piv i < rows := by
  by_contra hge
  have := piv.injective (hfixed (piv i) (by omega))
  omega

theorem Echelon.kernel_iff (h : Echelon a m piv rows columns p) (v : Nat → F) :
    Kernel a rows columns v ↔
      ∀ i, i < rows → ∑ c ∈ range columns, upper m piv (fun i => min i p) i c * v c = 0 := by
  rw [← h.factored.kernel_iff (fun i => Nat.min_le_left i p)]
  constructor
  · intro hv i hi
    exact hv _ (piv_lt h.fixed hi)
  · intro hv i hi
    have hback : piv.symm i < rows := by
      by_contra hge
      have hfix := h.fixed (piv.symm i) (by omega)
      rw [Equiv.apply_symm_apply] at hfix
      omega
    simpa using hv (piv.symm i) hback

/-- With a pivot in every column the rows take only zero to zero. The rows behind the last pivot
need not be cleared. -/
theorem Echelon.fullColumnRank (h : Echelon a m piv rows columns p) (hrows : columns ≤ rows)
    (hp : columns ≤ p + 1) (hpivot : ∀ i, i < columns → m (piv i) i ≠ 0) :
    FullColumnRank a rows columns := by
  rw [fullColumnRank_iff]
  intro v hv
  have hzero := (h.kernel_iff v).mp hv
  -- from the last column back
  have hback : ∀ n c, c < columns → columns ≤ c + n → v c = 0 := by
    intro n
    induction n with
    | zero =>
      intro c hc hle
      omega
    | succ n ih =>
      intro c hc hle
      have hsum := hzero c (by omega)
      rw [sum_eq_single_of_mem c (mem_range.mpr hc)] at hsum
      · simp only [upper, show ¬ c < min c p by omega, if_false, mul_eq_zero] at hsum
        exact hsum.resolve_left (hpivot c hc)
      · intro k hk hne
        have hk' := mem_range.mp hk
        by_cases hlt : k < c
        · simp only [upper, show k < min c p by omega, if_true, zero_mul]
        · rw [ih k hk' (by omega), mul_zero]
  intro c hc
  exact hback columns c hc (by omega)

theorem Echelon.not_fullColumnRank (h : Echelon a m piv rows columns p) (hp : p < columns)
    (hnone : ∀ i, p ≤ i → i < rows → m (piv i) p = 0) : ¬ FullColumnRank a rows columns := by
  rw [fullColumnRank_iff]
  intro hall
  have hker : LinearMap.ker (Matrix.of fun (i : Fin p) (j : Fin (p + 1)) =>
      upper m piv (fun i => min i p) i j).mulVecLin ≠ ⊥ :=
    LinearMap.ker_ne_bot_of_finrank_lt (by simp)
  obtain ⟨v, hv, hne⟩ := Submodule.exists_mem_ne_zero_of_ne_bot hker
  have hext : ∀ f : Nat → F, ∑ c ∈ range columns, f c * (if hc : c < p + 1 then v ⟨c, hc⟩ else 0) =
      ∑ j : Fin (p + 1), f j * v j := by
    intro f
    calc ∑ c ∈ range columns, f c * (if hc : c < p + 1 then v ⟨c, hc⟩ else 0)
        = ∑ c ∈ range (p + 1), f c * (if hc : c < p + 1 then v ⟨c, hc⟩ else 0) := by
          refine (sum_subset (range_subset_range.mpr (by omega)) fun c _ hc => ?_).symm
          rw [dif_neg (by simpa using hc), mul_zero]
      _ = _ := by
          rw [Finset.sum_range]
          refine sum_congr rfl fun j _ => ?_
          rw [dif_pos j.isLt]
  have hzero := hall (fun c => if hc : c < p + 1 then v ⟨c, hc⟩ else 0) (by
    rw [h.kernel_iff]
    intro i hi
    rw [hext]
    by_cases hlt : i < p
    · have hrow := congrFun (LinearMap.mem_ker.mp hv) ⟨i, hlt⟩
      simpa [Matrix.mulVec, dotProduct] using hrow
    · refine sum_eq_zero fun j _ => ?_
      have hj := j.isLt
      simp only [upper]
      split
      · rw [zero_mul]
      · next hge =>
        have hjp : (j : Nat) = p := by omega
        rw [hjp, hnone i (by omega) hi, zero_mul])
  apply hne
  funext j
  have hj := hzero j (by omega)
  rwa [dif_pos j.isLt] at hj

theorem Echelon.start (hfixed : ∀ i, rows ≤ i → piv i = i)
    (h : ∀ i, i < rows → ∀ c, c < columns → m i c = a i c) :
    Echelon a m piv rows columns 0 where
  fixed := hfixed
  factored := Factored.start (fun _ hi c hc => h _ (piv_lt hfixed hi) c hc) Nat.min_zero
  pivot_ne i hi := absurd hi (Nat.not_lt_zero i)
  le_rows := Nat.zero_le _
  le_columns := Nat.zero_le _

theorem Echelon.swap (h : Echelon a m piv rows columns p) {q : Nat} (hp : p < rows) (hpq : p ≤ q)
    (hq : q < rows) : Echelon a m (piv * Equiv.swap p q) rows columns p := by
  have hbefore : ∀ i, i < p → Equiv.swap p q i = i := fun i hi =>
    Equiv.swap_apply_of_ne_of_ne (by omega) (by omega)
  have hmin : ∀ i, min (Equiv.swap p q i) p = min i p := by
    intro i
    by_cases hi : i < p
    · rw [hbefore i hi]
    · rcases eq_or_ne i p with rfl | hne
      · rw [Equiv.swap_apply_left]
        omega
      · rcases eq_or_ne i q with rfl | hne'
        · rw [Equiv.swap_apply_right]
          omega
        · rw [Equiv.swap_apply_of_ne_of_ne hne hne']
  refine ⟨fun i hi => ?_, fun i hi c hc => ?_, fun i hi => ?_, h.le_rows, h.le_columns⟩
  · rw [Equiv.Perm.mul_apply, Equiv.swap_apply_of_ne_of_ne (by omega) (by omega)]
    exact h.fixed i hi
  · have hlt : Equiv.swap p q i < rows := by
      rcases eq_or_ne i p with rfl | hne
      · rwa [Equiv.swap_apply_left]
      · rcases eq_or_ne i q with rfl | hne'
        · rwa [Equiv.swap_apply_right]
        · rwa [Equiv.swap_apply_of_ne_of_ne hne hne']
    have hrow := h.factored _ hlt c hc
    simp only [upper, Equiv.Perm.mul_apply, hmin] at hrow ⊢
    rw [hrow]
    congr 1
    refine sum_congr rfl fun k hk => ?_
    have hk' := mem_range.mp hk
    rw [hbefore k (by omega)]
  · rw [Equiv.Perm.mul_apply, hbefore i hi]
    exact h.pivot_ne i hi

theorem Echelon.step (h : Echelon a m piv rows columns p) (hrows : p < rows) (hcolumns : p < columns)
    (hpivot : m (piv p) p ≠ 0) {m' : Nat → Nat → F}
    (hclear : ∀ i, p < i → i < rows → ∀ c, c < columns →
      m' (piv i) c = clearRow (m (piv p)) (m (piv i)) p c)
    (hkeep : ∀ i, i ≤ p → ∀ c, m' (piv i) c = m (piv i) c) :
    Echelon a m' piv rows columns (p + 1) := by
  have hclear' : Factored a (fun r => if r < rows then m' r else m r) piv
      (fun i => if p < i ∧ i < rows then p + 1 else min i p) rows columns :=
    h.factored.clear (s := fun i => p < i ∧ i < rows) hcolumns (Nat.min_self p) hpivot
      (fun i hi => Nat.min_eq_right (by omega)) (fun i hi j => by omega) (by omega)
      (fun i hi c hc => by rw [if_pos (piv_lt h.fixed hi.2)]; exact hclear i hi.1 hi.2 c hc)
      (fun i hi c => by
        split
        · next hlt =>
          refine hkeep i ?_ c
          by_contra hgt
          exact hi ⟨by omega, by
            by_contra hge
            rw [h.fixed i (by omega)] at hlt
            omega⟩
        · rfl)
  refine ⟨h.fixed, hclear'.congr ?_ ?_ ?_, fun i hi => ?_, hrows, hcolumns⟩
  · intro i _
    split <;> omega
  · intro i hi
    split <;> omega
  · intro i hi c
    rw [if_pos (piv_lt h.fixed hi)]
  · rw [hkeep i (by omega)]
    rcases Nat.lt_succ_iff_lt_or_eq.mp hi with hlt | rfl
    · exact h.pivot_ne i hlt
    · exact hpivot

theorem Echelon.grow (h : Echelon a m piv rows columns p) {a' m' : Nat → Nat → F}
    {rows' columns' : Nat}
    (ha : ∀ i, i < rows → ∀ c, c < columns → a' i c = a i c)
    (ha' : ∀ i, i < rows → ∀ c, columns ≤ c → c < columns' → a' i c = 0)
    (hm : ∀ i, i < rows → ∀ c, c < columns → m' i c = m i c)
    (hm' : ∀ i, i < rows → ∀ c, columns ≤ c → c < columns' → m' i c = 0)
    (hnew : ∀ i, rows ≤ i → i < rows' → ∀ c, c < columns' → m' i c = a' i c) :
    Factored a' m' piv (fun i => if i < rows then min i p else 0) rows' columns' := by
  have hle := h.le_columns
  intro i hi c hc
  have hupper : ∀ k, k < rows → upper m' piv (fun i => if i < rows then min i p else 0) k c =
      if c < columns then upper m piv (fun i => min i p) k c else 0 := by
    intro k hk
    simp only [upper, if_pos hk]
    by_cases hcold : c < columns
    · rw [if_pos hcold, hm _ (piv_lt h.fixed hk) c hcold]
    · rw [if_neg hcold, hm' _ (piv_lt h.fixed hk) c (by omega) hc, ite_self]
  by_cases hold : i < rows
  · have hpi := piv_lt h.fixed hold
    have hsum : ∀ k ∈ range (min i p), m' (piv i) k *
        upper m' piv (fun i => if i < rows then min i p else 0) k c =
          if c < columns then m (piv i) k * upper m piv (fun i => min i p) k c else 0 := by
      intro k hk
      have hk' := mem_range.mp hk
      rw [hupper k (by omega), hm _ hpi k (by omega), mul_ite, mul_zero]
    rw [hupper i hold]
    simp only [if_pos hold]
    rw [sum_congr rfl hsum]
    by_cases hcold : c < columns
    · simp only [if_pos hcold]
      rw [ha _ hpi c hcold, h.factored i hold c hcold]
    · simp only [if_neg hcold, sum_const_zero, add_zero]
      exact ha' _ hpi c (by omega) hc
  · have hfix := h.fixed i (by omega)
    simp only [upper, if_neg hold, Nat.not_lt_zero, if_false, range_zero, sum_empty, add_zero, hfix]
    exact (hnew i (by omega) hi c hc).symm

theorem Echelon.of_grown (h : Echelon a m piv rows columns p) {a' m' : Nat → Nat → F}
    {rows' columns' : Nat} (hrows : rows ≤ rows') (hcolumns : columns ≤ columns')
    (hfactored : Factored a' m' piv (fun i => if i < rows then min i p else p) rows' columns')
    (hm : ∀ i, i < p → m' (piv i) i = m (piv i) i) : Echelon a' m' piv rows' columns' p := by
  have hle := h.le_rows
  have hle' := h.le_columns
  have hdone : (fun i => if i < rows then min i p else p) = fun i => min i p := by
    funext i
    split <;> omega
  rw [hdone] at hfactored
  exact ⟨fun i hi => h.fixed i (by omega), hfactored, fun i hi => by
    rw [hm i hi]; exact h.pivot_ne i hi, by omega, by omega⟩

end Echelon

end Elimination
