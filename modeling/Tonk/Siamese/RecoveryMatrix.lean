import Tonk.Lib.Elimination
import Tonk.Lib.Search
import Tonk.Siamese.Coefficients

/-!
`RecoveryMatrixState`: the elimination on the recovery matrix, which can stop at a column without a
pivot and go on when rows and columns have been added. The matrix is a function of row and column.
`Pivots` is a permutation; the rows it has not been set for stand at their own places.
-/

set_option autoImplicit false

namespace Tonk.Siamese
open Search Elimination

/-- `columns` are the numbers of the lost columns, `matrixColumnCount` is the field of `Rows`. -/
structure RecoveryMatrixState where
  columns : List Nat
  rowCount : Nat
  matrixColumnCount : Nat → Nat
  previousNextCheckStart : Nat
  matrix : Nat → Nat → GF256
  pivots : Equiv.Perm Nat
  geResumePivot : Nat

namespace RecoveryMatrixState

def reset : RecoveryMatrixState := ⟨[], 0, fun _ => 0, 0, fun _ _ => 0, 1, 0⟩

def mulAddRows (geRow remRow : Nat → GF256) (columnStart columnEnd : Nat) (y : GF256) :
    Nat → GF256 := fun c =>
  if columnStart ≤ c ∧ c < columnEnd then remRow c + geRow c * y else remRow c

/-- The row once the pivot is eliminated from it; nothing if it was zero there. -/
def eliminateRow (geRow remRow : Nat → GF256) (pivot columnEnd : Nat) : Option (Nat → GF256) :=
  if remRow pivot = 0 then none
  else
    let y := remRow pivot / geRow pivot
    some (mulAddRows geRow (Function.update remRow pivot y) (pivot + 1) columnEnd y)

/-- The body of the loops over the remaining rows. Only the loops with pivots grow the column count
of a row that is filled in on the right. -/
def eliminateFrom (geRow pivot : Nat) (grow : Bool) (m : RecoveryMatrixState) (remRow : Nat) :
    RecoveryMatrixState :=
  let columnEnd := m.matrixColumnCount geRow
  match eliminateRow (m.matrix geRow) (m.matrix remRow) pivot columnEnd with
  | none => m
  | some row => { m with
      matrix := Function.update m.matrix remRow row
      matrixColumnCount := if grow ∧ m.matrixColumnCount remRow < columnEnd then
        Function.update m.matrixColumnCount remRow columnEnd else m.matrixColumnCount }

def eliminateRows (m : RecoveryMatrixState) (geRow pivot : Nat) (grow : Bool) (rows : List Nat) :
    RecoveryMatrixState := rows.foldl (eliminateFrom geRow pivot grow) m

def resumeGE (m : RecoveryMatrixState) (oldRows rows : Nat) : RecoveryMatrixState :=
  (List.range m.geResumePivot).foldl (fun m pivot =>
    m.eliminateRows (m.pivots pivot) pivot true (List.range' oldRows (rows - oldRows))) m

def pivotedGaussianElimination (m : RecoveryMatrixState) : Nat → Nat → Nat →
    RecoveryMatrixState × Bool
  | 0, _, _ => (m, true)
  | n + 1, pivot_i, pivot_j =>
    let found := firstFrom (fun j => m.matrix (m.pivots j) pivot_i ≠ 0) pivot_j m.rowCount
    if m.rowCount ≤ found then ({ m with geResumePivot := pivot_i }, false)
    else
      let m := { m with pivots := m.pivots * Equiv.swap pivot_i found }
      if m.columns.length - 1 ≤ pivot_i then (m, true)
      else
        let rest := (List.range' (pivot_i + 1) (m.rowCount - (pivot_i + 1))).map m.pivots
        (m.eliminateRows (m.pivots pivot_i) pivot_i true rest).pivotedGaussianElimination n
          (pivot_i + 1) (pivot_i + 1)

def plainGaussianElimination (m : RecoveryMatrixState) : Nat → Nat → RecoveryMatrixState × Bool
  | 0, _ => (m, true)
  | n + 1, pivot_i =>
    if m.matrix pivot_i pivot_i = 0 then
      m.pivotedGaussianElimination (n + 1) pivot_i (pivot_i + 1)
    else
      let rest := List.range' (pivot_i + 1) (m.rowCount - (pivot_i + 1))
      (m.eliminateRows pivot_i pivot_i false rest).plainGaussianElimination n (pivot_i + 1)

def gaussianElimination (m : RecoveryMatrixState) : RecoveryMatrixState × Bool :=
  if 0 < m.geResumePivot then
    m.pivotedGaussianElimination (m.columns.length - m.geResumePivot) m.geResumePivot
      (m.geResumePivot + 1)
  else m.plainGaussianElimination m.columns.length 0

/-- The elimination of rows writes the matrix and the column counts only. -/
structure SameFrame (m m' : RecoveryMatrixState) : Prop where
  columns : m'.columns = m.columns
  rowCount : m'.rowCount = m.rowCount
  previousNextCheckStart : m'.previousNextCheckStart = m.previousNextCheckStart
  pivots : m'.pivots = m.pivots
  geResumePivot : m'.geResumePivot = m.geResumePivot

/-- The column counts say where the rows end. -/
def Bounded (m : RecoveryMatrixState) (columns : Nat) : Prop :=
  ∀ r, r < m.rowCount → ∀ c, m.matrixColumnCount r ≤ c → c < columns → m.matrix r c = 0

theorem SameFrame.refl (m : RecoveryMatrixState) : m.SameFrame m := ⟨rfl, rfl, rfl, rfl, rfl⟩

theorem SameFrame.trans {m m' m'' : RecoveryMatrixState} (h : m.SameFrame m')
    (h' : m'.SameFrame m'') : m.SameFrame m'' :=
  ⟨h'.columns.trans h.columns, h'.rowCount.trans h.rowCount,
    h'.previousNextCheckStart.trans h.previousNextCheckStart, h'.pivots.trans h.pivots,
    h'.geResumePivot.trans h.geResumePivot⟩

section Eliminate

variable {m : RecoveryMatrixState} {geRow pivot columns : Nat} {grow : Bool}

theorem eliminateFrom_sameFrame (remRow : Nat) :
    m.SameFrame (eliminateFrom geRow pivot grow m remRow) := by
  unfold eliminateFrom
  simp only
  split <;> exact ⟨rfl, rfl, rfl, rfl, rfl⟩

theorem eliminateFrom_of_ne {remRow r : Nat} (hne : r ≠ remRow) :
    (eliminateFrom geRow pivot grow m remRow).matrix r = m.matrix r ∧
      (eliminateFrom geRow pivot grow m remRow).matrixColumnCount r = m.matrixColumnCount r := by
  unfold eliminateFrom
  simp only
  split
  · exact ⟨rfl, rfl⟩
  · refine ⟨Function.update_of_ne hne _ _, ?_⟩
    simp only
    split
    · exact Function.update_of_ne hne _ _
    · rfl

theorem eliminateFrom_self (hpivot : pivot < columns)
    (hbound : ∀ c, m.matrixColumnCount geRow ≤ c → c < columns → m.matrix geRow c = 0)
    (remRow : Nat) {c : Nat} (hc : c < columns) :
    (eliminateFrom geRow pivot grow m remRow).matrix remRow c =
      clearRow (m.matrix geRow) (m.matrix remRow) pivot c := by
  unfold eliminateFrom eliminateRow clearRow
  by_cases hzero : m.matrix remRow pivot = 0
  · simp only [hzero, if_true, zero_div, zero_mul, sub_zero]
    split
    · next heq => rw [heq, hzero]
    · split <;> rfl
  · simp only [if_neg hzero, Function.update_self, mulAddRows]
    rcases Nat.lt_trichotomy c pivot with hlt | rfl | hgt
    · rw [if_neg (by omega), Function.update_of_ne (by omega), if_neg (by omega), if_neg (by omega)]
    · rw [if_neg (by omega), Function.update_self, if_pos rfl]
    · rw [Function.update_of_ne (by omega), if_neg (show ¬ c = pivot by omega), if_pos hgt,
        GF256.sub_eq_add]
      split
      · rw [mul_comm]
      · rw [hbound c (by omega) hc, mul_zero, add_zero]

theorem eliminateFrom_bounded (h : m.Bounded columns) (hpivot : pivot < columns)
    (hge : geRow < m.rowCount) {remRow : Nat}
    (hgrow : grow = true ∨ m.matrixColumnCount geRow ≤ m.matrixColumnCount remRow) :
    (eliminateFrom geRow pivot grow m remRow).Bounded columns := by
  intro r hr c hle hc
  rw [(eliminateFrom_sameFrame remRow).rowCount] at hr
  by_cases hne : r = remRow
  · subst hne
    rw [eliminateFrom_self hpivot (h geRow hge) r hc, clearRow]
    have hcount : m.matrixColumnCount r ≤ c ∧
        (m.matrix r pivot ≠ 0 → m.matrixColumnCount geRow ≤ c) := by
      unfold eliminateFrom eliminateRow at hle
      by_cases hzero : m.matrix r pivot = 0
      · simp only [hzero, if_true] at hle
        exact ⟨hle, fun hne => absurd hzero hne⟩
      · simp only [if_neg hzero] at hle
        split at hle
        · rw [Function.update_self] at hle
          exact ⟨by omega, fun _ => hle⟩
        · next hno =>
          refine ⟨hle, fun _ => ?_⟩
          rcases hgrow with rfl | hgrow
          · simp only [true_and, Nat.not_lt] at hno
            omega
          · omega
    have hrow := h r hr c hcount.1 hc
    by_cases hzero : m.matrix r pivot = 0
    · simp only [hzero, zero_div, zero_mul, sub_zero, hrow, ite_self]
    · have hpivot' : pivot < m.matrixColumnCount r := by
        by_contra hge'
        exact hzero (h r hr pivot (by omega) hpivot)
      rw [if_neg (by omega), if_pos (by omega), hrow, h geRow hge c (hcount.2 hzero) hc, mul_zero,
        sub_zero]
  · rw [(eliminateFrom_of_ne hne).2] at hle
    rw [(eliminateFrom_of_ne hne).1]
    exact h r hr c hle hc

theorem eliminateRows_sameFrame (rows : List Nat) :
    m.SameFrame (m.eliminateRows geRow pivot grow rows) := by
  induction rows generalizing m with
  | nil => exact .refl m
  | cons remRow rest ih => exact (eliminateFrom_sameFrame remRow).trans ih

theorem eliminateRows_of_notMem {rows : List Nat} {r : Nat} (hr : r ∉ rows) :
    (m.eliminateRows geRow pivot grow rows).matrix r = m.matrix r ∧
      (m.eliminateRows geRow pivot grow rows).matrixColumnCount r = m.matrixColumnCount r := by
  induction rows generalizing m with
  | nil => exact ⟨rfl, rfl⟩
  | cons remRow rest ih =>
    have hne := List.ne_of_not_mem_cons hr
    have hrest := List.not_mem_of_not_mem_cons hr
    obtain ⟨hmatrix, hcount⟩ := ih (m := eliminateFrom geRow pivot grow m remRow) hrest
    exact ⟨hmatrix.trans (eliminateFrom_of_ne hne).1, hcount.trans (eliminateFrom_of_ne hne).2⟩

theorem eliminateRows_of_mem (hpivot : pivot < columns)
    (hbound : ∀ c, m.matrixColumnCount geRow ≤ c → c < columns → m.matrix geRow c = 0)
    {rows : List Nat} (hnodup : rows.Nodup) (hge : geRow ∉ rows) {r : Nat} (hr : r ∈ rows) {c : Nat}
    (hc : c < columns) : (m.eliminateRows geRow pivot grow rows).matrix r c =
      clearRow (m.matrix geRow) (m.matrix r) pivot c := by
  induction rows generalizing m with
  | nil => exact absurd hr List.not_mem_nil
  | cons remRow rest ih =>
    have hne := List.ne_of_not_mem_cons hge
    have hge' := List.not_mem_of_not_mem_cons hge
    obtain ⟨hnot, hnodup'⟩ := List.nodup_cons.mp hnodup
    have hrest : m.eliminateRows geRow pivot grow (remRow :: rest) =
        (eliminateFrom geRow pivot grow m remRow).eliminateRows geRow pivot grow rest := rfl
    have hmatrix : (eliminateFrom geRow pivot grow m remRow).matrix geRow = m.matrix geRow :=
      (eliminateFrom_of_ne hne).1
    have hcount : (eliminateFrom geRow pivot grow m remRow).matrixColumnCount geRow =
        m.matrixColumnCount geRow := (eliminateFrom_of_ne hne).2
    rw [hrest]
    rcases List.mem_cons.mp hr with rfl | hr'
    · rw [(eliminateRows_of_notMem hnot).1, eliminateFrom_self hpivot hbound r hc]
    · have hne' : r ≠ remRow := fun heq => hnot (heq ▸ hr')
      rw [ih (by rw [hmatrix, hcount]; exact hbound) hnodup' hge' hr', hmatrix,
        (eliminateFrom_of_ne hne').1]

theorem eliminateRows_bounded (h : m.Bounded columns) (hpivot : pivot < columns)
    (hge : geRow < m.rowCount) {rows : List Nat} (hnot : geRow ∉ rows)
    (hgrow : grow = true ∨ ∀ r ∈ rows, m.matrixColumnCount geRow ≤ m.matrixColumnCount r)
    (hnodup : rows.Nodup) : (m.eliminateRows geRow pivot grow rows).Bounded columns := by
  induction rows generalizing m with
  | nil => exact h
  | cons remRow rest ih =>
    have hne := List.ne_of_not_mem_cons hnot
    have hnot' := List.not_mem_of_not_mem_cons hnot
    obtain ⟨hfresh, hnodup'⟩ := List.nodup_cons.mp hnodup
    refine ih (m := eliminateFrom geRow pivot grow m remRow)
      (eliminateFrom_bounded h hpivot hge (hgrow.imp_right fun hall => hall _ (by simp))) ?_ hnot' ?_
      hnodup'
    · rw [(eliminateFrom_sameFrame remRow).rowCount]
      exact hge
    · refine hgrow.imp_right fun hall r hr => ?_
      have hne' : r ≠ remRow := fun heq => hfresh (heq ▸ hr)
      rw [(eliminateFrom_of_ne hne).2, (eliminateFrom_of_ne hne').2]
      exact hall r (List.mem_cons_of_mem _ hr)

theorem eliminateRows_matrixColumnCount (rows : List Nat) :
    (m.eliminateRows geRow pivot false rows).matrixColumnCount = m.matrixColumnCount := by
  induction rows generalizing m with
  | nil => rfl
  | cons remRow rest ih =>
    refine ih.trans ?_
    unfold eliminateFrom
    simp only [Bool.false_eq_true, false_and, if_false]
    split <;> rfl

end Eliminate

/-- `p` pivots are found in the matrix that was `a` to start with. -/
structure Eliminated (m : RecoveryMatrixState) (a : Nat → Nat → GF256) (p : Nat) : Prop where
  echelon : Echelon a m.matrix m.pivots m.rowCount m.columns.length p
  bounded : m.Bounded m.columns.length

/-- There is a pivot in every column. -/
structure Solved (m : RecoveryMatrixState) (a : Nat → Nat → GF256) : Prop where
  echelon : ∃ p, Echelon a m.matrix m.pivots m.rowCount m.columns.length p ∧
    m.columns.length ≤ p + 1
  le_rows : m.columns.length ≤ m.rowCount
  pivot_ne : ∀ i, i < m.columns.length → m.matrix (m.pivots i) i ≠ 0

/-- There is none to be found in the column where the elimination stopped. -/
structure Stopped (m : RecoveryMatrixState) (a : Nat → Nat → GF256) : Prop where
  eliminated : m.Eliminated a m.geResumePivot
  lt_columns : m.geResumePivot < m.columns.length
  none : ∀ i, m.geResumePivot ≤ i → i < m.rowCount → m.matrix (m.pivots i) m.geResumePivot = 0

section Run

variable {m : RecoveryMatrixState} {a : Nat → Nat → GF256}

theorem Solved.fullColumnRank (h : m.Solved a) : FullColumnRank a m.rowCount m.columns.length := by
  obtain ⟨p, hechelon, hp⟩ := h.echelon
  exact hechelon.fullColumnRank h.le_rows hp h.pivot_ne

theorem Stopped.not_fullColumnRank (h : m.Stopped a) :
    ¬ FullColumnRank a m.rowCount m.columns.length :=
  h.eliminated.echelon.not_fullColumnRank h.lt_columns h.none

theorem Eliminated.step {p : Nat} (h : m.Eliminated a p) (hrows : p < m.rowCount)
    (hcolumns : p < m.columns.length) (hpivot : m.matrix (m.pivots p) p ≠ 0) {grow : Bool}
    (hgrow : grow = true ∨ ∀ i, p < i → i < m.rowCount →
      m.matrixColumnCount (m.pivots p) ≤ m.matrixColumnCount (m.pivots i)) :
    (m.eliminateRows (m.pivots p) p grow
      ((List.range' (p + 1) (m.rowCount - (p + 1))).map m.pivots)).Eliminated a (p + 1) := by
  have hmem : ∀ i, m.pivots i ∈ (List.range' (p + 1) (m.rowCount - (p + 1))).map m.pivots ↔
      p < i ∧ i < m.rowCount := by
    intro i
    rw [List.mem_map_of_injective m.pivots.injective, List.mem_range'_1]
    omega
  have hnodup : ((List.range' (p + 1) (m.rowCount - (p + 1))).map m.pivots).Nodup :=
    (List.nodup_range' ..).map m.pivots.injective
  have hnot : m.pivots p ∉ (List.range' (p + 1) (m.rowCount - (p + 1))).map m.pivots := by
    rw [hmem]
    omega
  have hge : m.pivots p < m.rowCount := piv_lt h.echelon.fixed hrows
  have hframe : m.SameFrame (m.eliminateRows (m.pivots p) p grow
      ((List.range' (p + 1) (m.rowCount - (p + 1))).map m.pivots)) := eliminateRows_sameFrame _
  constructor
  · rw [hframe.columns, hframe.rowCount, hframe.pivots]
    refine h.echelon.step hrows hcolumns hpivot ?_ ?_
    · intro i hi hlt c hc
      exact eliminateRows_of_mem hcolumns (h.bounded _ hge) hnodup hnot ((hmem i).mpr ⟨hi, hlt⟩) hc
    · intro i hi c
      rw [(eliminateRows_of_notMem (by rw [hmem]; omega)).1]
  · rw [hframe.columns]
    refine eliminateRows_bounded h.bounded hcolumns hge hnot (hgrow.imp_right ?_) hnodup
    intro hall r hr
    obtain ⟨i, hi, rfl⟩ := List.mem_map.mp hr
    rw [List.mem_range'_1] at hi
    exact hall i (by omega) (by omega)

theorem Eliminated.pivoted {n pivot_i : Nat} (h : m.Eliminated a pivot_i) (pivot_j : Nat)
    (hn : pivot_i + n = m.columns.length) (hpos : 0 < n) (hrows : m.columns.length ≤ m.rowCount)
    (hle : pivot_i ≤ pivot_j) (hj : pivot_j ≤ m.rowCount)
    (hskip : ∀ k, pivot_i ≤ k → k < pivot_j → m.matrix (m.pivots k) pivot_i = 0) :
    let r := m.pivotedGaussianElimination n pivot_i pivot_j
    r.1.columns = m.columns ∧ r.1.rowCount = m.rowCount ∧
      r.1.previousNextCheckStart = m.previousNextCheckStart ∧
      (r.2 = true → r.1.Solved a) ∧
      (r.2 = false → r.1.Stopped a ∧ pivot_i ≤ r.1.geResumePivot ∧
        (r.1.geResumePivot = pivot_i → r.1 = { m with geResumePivot := pivot_i })) := by
  induction n generalizing m pivot_i pivot_j with
  | zero => exact absurd hpos (Nat.lt_irrefl 0)
  | succ n ih =>
    simp only [pivotedGaussianElimination]
    have hfound_ge : pivot_j ≤ firstFrom
      (fun j => decide (m.matrix (m.pivots j) pivot_i ≠ 0)) pivot_j m.rowCount := le_firstFrom
    split
    · next hnone =>
      refine ⟨rfl, rfl, rfl, fun hfalse => Bool.noConfusion hfalse, fun _ =>
        ⟨⟨⟨h.echelon, h.bounded⟩, ?_, ?_⟩, Nat.le_refl _, fun _ => rfl⟩⟩
      · simp only
        omega
      · intro k hk hlt
        by_cases hkj : k < pivot_j
        · exact hskip k hk hkj
        · simpa using firstFrom_before (p := fun j => decide (m.matrix (m.pivots j) pivot_i ≠ 0))
            (Nat.le_of_not_lt hkj) (Nat.lt_of_lt_of_le hlt hnone)
    · next hfound =>
      have hlt := Nat.lt_of_not_le hfound
      have hpass := firstFrom_passes hlt
      generalize firstFrom (fun j => decide (m.matrix (m.pivots j) pivot_i ≠ 0)) pivot_j m.rowCount =
        found at *
      have hpivot : m.matrix ((m.pivots * Equiv.swap pivot_i found) pivot_i) pivot_i ≠ 0 := by
        rw [Equiv.Perm.mul_apply, Equiv.swap_apply_left]
        simpa using hpass
      have hswapped : ({ m with pivots := m.pivots * Equiv.swap pivot_i found } :
          RecoveryMatrixState).Eliminated a pivot_i :=
        ⟨h.echelon.swap (by omega) (by omega) hlt, h.bounded⟩
      split
      · next hlast =>
        refine ⟨rfl, rfl, rfl, fun _ => ⟨⟨pivot_i, hswapped.echelon, ?_⟩, hrows, ?_⟩,
          fun hfalse => Bool.noConfusion hfalse⟩
        · simp only
          omega
        · intro k hk
          simp only at hk
          by_cases hlt' : k < pivot_i
          · exact hswapped.echelon.pivot_ne k hlt'
          · have heq : k = pivot_i := by omega
            rw [heq]
            exact hpivot
      · next hmore =>
        have hstep := hswapped.step (by simp only; omega) (by simp only; omega) hpivot
          (.inl (rfl : true = true))
        simp only at hstep hmore
        have hframe : ({ m with pivots := m.pivots * Equiv.swap pivot_i found } :
          RecoveryMatrixState).SameFrame (({ m with pivots := m.pivots * Equiv.swap pivot_i found } :
            RecoveryMatrixState).eliminateRows ((m.pivots * Equiv.swap pivot_i found) pivot_i) pivot_i
              true ((List.range' (pivot_i + 1) (m.rowCount - (pivot_i + 1))).map
                (m.pivots * Equiv.swap pivot_i found))) := eliminateRows_sameFrame _
        obtain ⟨hcolumns, hcount, hprevious, htrue, hfalse⟩ := ih hstep
          (pivot_i + 1) (by rw [hframe.columns]; simp only; omega) (by omega)
          (by rw [hframe.columns, hframe.rowCount]; exact hrows) (Nat.le_refl _)
          (by rw [hframe.rowCount]; simp only; omega) (fun k hk hk' => by omega)
        refine ⟨hcolumns.trans hframe.columns, hcount.trans hframe.rowCount,
          hprevious.trans hframe.previousNextCheckStart, htrue, fun hno => ?_⟩
        obtain ⟨hstopped, hresume, -⟩ := hfalse hno
        exact ⟨hstopped, by omega, fun heq => absurd heq (by omega)⟩

/-- Nothing has been eliminated yet: the rows are in order and each reaches as far as the ones
before it. -/
structure Untouched (m : RecoveryMatrixState) (a : Nat → Nat → GF256) : Prop where
  pivots_eq : m.pivots = 1
  matrix_eq : ∀ i, i < m.rowCount → ∀ c, c < m.columns.length → m.matrix i c = a i c
  bounded : m.Bounded m.columns.length
  mono : ∀ i j, i ≤ j → j < m.rowCount → m.matrixColumnCount i ≤ m.matrixColumnCount j

theorem Untouched.eliminated (h : m.Untouched a) : m.Eliminated a 0 :=
  ⟨Echelon.start (fun i _ => by rw [h.pivots_eq]; rfl) h.matrix_eq, h.bounded⟩

theorem Eliminated.plain {n pivot_i : Nat} (h : m.Eliminated a pivot_i)
    (hpivots : m.pivots = 1)
    (hmono : ∀ i j, i ≤ j → j < m.rowCount → m.matrixColumnCount i ≤ m.matrixColumnCount j)
    (hn : pivot_i + n = m.columns.length) (hrows : m.columns.length ≤ m.rowCount) :
    let r := m.plainGaussianElimination n pivot_i
    r.1.columns = m.columns ∧ r.1.rowCount = m.rowCount ∧
      r.1.previousNextCheckStart = m.previousNextCheckStart ∧
      (r.2 = true → r.1.Solved a) ∧
      (r.2 = false → r.1.Stopped a ∧ pivot_i ≤ r.1.geResumePivot ∧
        (r.1.geResumePivot = pivot_i → r.1 = { m with geResumePivot := pivot_i })) := by
  induction n generalizing m pivot_i with
  | zero =>
    refine ⟨rfl, rfl, rfl, fun _ => ⟨⟨pivot_i, h.echelon, ?_⟩, hrows, ?_⟩,
      fun hfalse => Bool.noConfusion hfalse⟩
    · simp only [plainGaussianElimination]
      omega
    · intro i hi
      exact h.echelon.pivot_ne i (by simp only [plainGaussianElimination] at hi; omega)
  | succ n ih =>
    simp only [plainGaussianElimination]
    have hself : ∀ i, m.pivots i = i := fun i => by rw [hpivots]; rfl
    split
    · next hzero =>
      refine h.pivoted (pivot_i + 1) hn (by omega) hrows (by omega) (by omega) fun k hk hlt => ?_
      have heq : k = pivot_i := by omega
      rw [heq, hself]
      exact hzero
    · next hne =>
      have hstep := h.step (by omega) (by omega) (by rw [hself]; exact hne)
        (.inr fun i hi hlt => by rw [hself, hself]; exact hmono _ _ (by omega) hlt : false = true ∨ _)
      have hmap : (List.range' (pivot_i + 1) (m.rowCount - (pivot_i + 1))).map m.pivots =
          List.range' (pivot_i + 1) (m.rowCount - (pivot_i + 1)) := by
        rw [hpivots]
        exact List.map_id _
      rw [hmap, hself] at hstep
      have hframe : m.SameFrame (m.eliminateRows pivot_i pivot_i false
        (List.range' (pivot_i + 1) (m.rowCount - (pivot_i + 1)))) := eliminateRows_sameFrame _
      obtain ⟨hcolumns, hcount, hprevious, htrue, hfalse⟩ := ih hstep
        (hframe.pivots.trans hpivots)
        (by rw [hframe.rowCount, eliminateRows_matrixColumnCount]; exact hmono)
        (by rw [hframe.columns]; omega) (by rw [hframe.columns, hframe.rowCount]; exact hrows)
      refine ⟨hcolumns.trans hframe.columns, hcount.trans hframe.rowCount,
        hprevious.trans hframe.previousNextCheckStart, htrue, fun hno => ?_⟩
      obtain ⟨hstopped, hresume, -⟩ := hfalse hno
      exact ⟨hstopped, by omega, fun heq => absurd heq (by omega)⟩

/-- What an attempt can go on from: the matrix as generated, or a failed attempt on part of it. -/
structure Ready (m : RecoveryMatrixState) (a : Nat → Nat → GF256) : Prop where
  eliminated : m.Eliminated a m.geResumePivot
  untouched : m.geResumePivot = 0 → m.Untouched a
  lt : 0 < m.geResumePivot → m.geResumePivot < m.columns.length ∧ m.geResumePivot < m.rowCount
  zero : 0 < m.geResumePivot → m.matrix (m.pivots m.geResumePivot) m.geResumePivot = 0

theorem Stopped.ready (h : m.Stopped a) (hrows : m.columns.length ≤ m.rowCount)
    (huntouched : m.geResumePivot = 0 → m.Untouched a) : m.Ready a :=
  have hlt := Nat.lt_of_lt_of_le h.lt_columns hrows
  ⟨h.eliminated, huntouched, fun _ => ⟨h.lt_columns, hlt⟩, fun _ => h.none _ (Nat.le_refl _) hlt⟩

theorem Ready.gaussianElimination (h : m.Ready a) (hrows : m.columns.length ≤ m.rowCount) :
    let r := m.gaussianElimination
    r.1.columns = m.columns ∧ r.1.rowCount = m.rowCount ∧
      r.1.previousNextCheckStart = m.previousNextCheckStart ∧
      (r.2 = true → r.1.Solved a) ∧ (r.2 = false → r.1.Stopped a ∧ r.1.Ready a ∧
        (r.1.geResumePivot = 0 → m.geResumePivot = 0 ∧
          r.1.matrixColumnCount = m.matrixColumnCount)) := by
  unfold RecoveryMatrixState.gaussianElimination
  split
  · next hpos =>
    have hlt := h.lt hpos
    obtain ⟨hcolumns, hcount, hprevious, htrue, hfalse⟩ := h.eliminated.pivoted
      (n := m.columns.length - m.geResumePivot) (m.geResumePivot + 1) (by omega) (by omega) hrows (by omega) (by omega)
      fun k hk hlt' => by
        have heq : k = m.geResumePivot := by omega
        rw [heq]
        exact h.zero hpos
    refine ⟨hcolumns, hcount, hprevious, htrue, fun hno => ?_⟩
    obtain ⟨hstopped, hresume, -⟩ := hfalse hno
    exact ⟨hstopped, hstopped.ready (by rw [hcolumns, hcount]; exact hrows)
      fun hzero => absurd hzero (by omega), fun hzero => absurd hzero (by omega)⟩
  · next hpos =>
    have hzero : m.geResumePivot = 0 := by omega
    have huntouched := h.untouched hzero
    obtain ⟨hcolumns, hcount, hprevious, htrue, hfalse⟩ := huntouched.eliminated.plain
      (n := m.columns.length) huntouched.pivots_eq huntouched.mono (by omega) hrows
    refine ⟨hcolumns, hcount, hprevious, htrue, fun hno => ?_⟩
    obtain ⟨hstopped, -, hsame⟩ := hfalse hno
    refine ⟨hstopped, hstopped.ready (by rw [hcolumns, hcount]; exact hrows) fun hresume => ?_,
      fun hresume => ⟨hzero, by rw [hsame hresume]⟩⟩
    rw [hsame hresume]
    exact ⟨huntouched.pivots_eq, huntouched.matrix_eq, huntouched.bounded, huntouched.mono⟩

theorem Ready.gaussianElimination_iff (h : m.Ready a) (hrows : m.columns.length ≤ m.rowCount) :
    m.gaussianElimination.2 = true ↔ FullColumnRank a m.rowCount m.columns.length := by
  obtain ⟨hcolumns, hcount, -, htrue, hfalse⟩ := h.gaussianElimination hrows
  rw [← hcolumns, ← hcount]
  cases hresult : m.gaussianElimination.2 with
  | true => exact ⟨fun _ => (htrue hresult).fullColumnRank, fun _ => rfl⟩
  | false =>
    exact ⟨fun hno => Bool.noConfusion hno,
      fun hfull => absurd hfull (hfalse hresult).1.not_fullColumnRank⟩

/-- `m'` is `m` with rows and columns added, before anything is eliminated from the new rows. Nothing
stands in the new columns of the old rows. -/
structure Grown (m m' : RecoveryMatrixState) (a a' : Nat → Nat → GF256) : Prop where
  rows_le : m.rowCount ≤ m'.rowCount
  columns_le : m.columns.length ≤ m'.columns.length
  pivots : m'.pivots = m.pivots
  geResumePivot : m'.geResumePivot = m.geResumePivot
  old : ∀ i, i < m.rowCount → ∀ c, c < m.columns.length →
    a' i c = a i c ∧ m'.matrix i c = m.matrix i c
  right : ∀ i, i < m.rowCount → ∀ c, m.columns.length ≤ c → c < m'.columns.length →
    a' i c = 0 ∧ m'.matrix i c = 0
  new : ∀ i, m.rowCount ≤ i → i < m'.rowCount → ∀ c, c < m'.columns.length →
    m'.matrix i c = a' i c
  count_old : ∀ i, i < m.rowCount → m'.matrixColumnCount i = m.matrixColumnCount i
  count_new : ∀ i, m.rowCount ≤ i → i < m'.rowCount → ∀ c, m'.matrixColumnCount i ≤ c →
    c < m'.columns.length → a' i c = 0
  mono : m.geResumePivot = 0 → ∀ i j, i ≤ j → j < m'.rowCount →
    m'.matrixColumnCount i ≤ m'.matrixColumnCount j

variable {m' : RecoveryMatrixState} {a' : Nat → Nat → GF256}

theorem Grown.bounded (h : m.Grown m' a a') (hbounded : m.Bounded m.columns.length) :
    m'.Bounded m'.columns.length := by
  intro r hr c hle hc
  by_cases hold : r < m.rowCount
  · by_cases hcold : c < m.columns.length
    · rw [(h.old r hold c hcold).2]
      exact hbounded r hold c (by rw [← h.count_old r hold]; exact hle) hcold
    · exact (h.right r hold c (by omega) hc).2
  · rw [h.new r (by omega) hr c hc]
    exact h.count_new r (by omega) hr c hle hc

/-- ResumeGE after `q` of the pivots. -/
def resumed (m : RecoveryMatrixState) (oldRows rows q : Nat) : RecoveryMatrixState :=
  (List.range q).foldl (fun m pivot =>
    m.eliminateRows (m.pivots pivot) pivot true (List.range' oldRows (rows - oldRows))) m

theorem resumed_succ (oldRows rows q : Nat) : m.resumed oldRows rows (q + 1) =
    (m.resumed oldRows rows q).eliminateRows ((m.resumed oldRows rows q).pivots q) q true
      (List.range' oldRows (rows - oldRows)) := by
  rw [resumed, List.range_succ, List.foldl_append]
  rfl

theorem Grown.resumed (h : m.Grown m' a a') {p : Nat} (hm : m.Eliminated a p) {q : Nat}
    (hq : q ≤ p) : m'.SameFrame (m'.resumed m.rowCount m'.rowCount q) ∧
      (m'.resumed m.rowCount m'.rowCount q).Bounded m'.columns.length ∧
      (∀ i, i < m.rowCount → (m'.resumed m.rowCount m'.rowCount q).matrix i = m'.matrix i) ∧
      Factored a' (m'.resumed m.rowCount m'.rowCount q).matrix m.pivots
        (fun i => if i < m.rowCount then min i p else q) m'.rowCount m'.columns.length := by
  induction q with
  | zero =>
    exact ⟨.refl m', h.bounded hm.bounded, fun i hi => rfl, hm.echelon.grow
      (fun i hi c hc => (h.old i hi c hc).1) (fun i hi c hle hc => (h.right i hi c hle hc).1)
      (fun i hi c hc => (h.old i hi c hc).2) (fun i hi c hle hc => (h.right i hi c hle hc).2)
      h.new⟩
  | succ q ih =>
    obtain ⟨hframe, hbounded, hkeep, hfactored⟩ := ih (by omega)
    rw [resumed_succ, hframe.pivots, h.pivots]
    have hrows := hm.echelon.le_rows
    have hcolumns := hm.echelon.le_columns
    have hle := h.rows_le
    have hle' := h.columns_le
    generalize m'.resumed m.rowCount m'.rowCount q = mq at *
    have hmem : ∀ r, r ∈ List.range' m.rowCount (m'.rowCount - m.rowCount) ↔
        m.rowCount ≤ r ∧ r < m'.rowCount := by
      intro r
      rw [List.mem_range'_1]
      omega
    have hfixed : ∀ i, m.rowCount ≤ i → m.pivots i = i := hm.echelon.fixed
    have hge : m.pivots q < m.rowCount := piv_lt hfixed (by omega)
    have hnot : m.pivots q ∉ List.range' m.rowCount (m'.rowCount - m.rowCount) := by
      rw [hmem]
      omega
    have hnodup : (List.range' m.rowCount (m'.rowCount - m.rowCount)).Nodup := List.nodup_range' ..
    have hge' : m.pivots q < mq.rowCount := by
      rw [hframe.rowCount]
      omega
    refine ⟨hframe.trans (eliminateRows_sameFrame _),
      eliminateRows_bounded hbounded (by omega) hge' hnot (.inl rfl) hnodup, ?_, ?_⟩
    · intro i hi
      rw [(eliminateRows_of_notMem (by rw [hmem]; omega)).1]
      exact hkeep i hi
    · have hclear : Factored a' (mq.eliminateRows (m.pivots q) q true
          (List.range' m.rowCount (m'.rowCount - m.rowCount))).matrix m.pivots
          (fun i => if m.rowCount ≤ i ∧ i < m'.rowCount then q + 1 else
            if i < m.rowCount then min i p else q) m'.rowCount m'.columns.length := by
        refine hfactored.clear (by omega) ?_ ?_ ?_ ?_ (by omega) ?_ ?_
        · rw [if_pos (by omega)]
          omega
        · rw [hkeep _ hge, (h.old _ hge q (by omega)).2]
          exact hm.echelon.pivot_ne q (by omega)
        · intro i hi
          rw [if_neg (by omega)]
        · intro i hi j
          split <;> omega
        · intro i hi c hc
          refine eliminateRows_of_mem (by omega) (hbounded _ hge') hnodup hnot ?_ hc
          rw [hfixed i hi.1, hmem]
          exact hi
        · intro i hi c
          rw [(eliminateRows_of_notMem ?_).1]
          rw [hmem]
          by_cases hold : i < m.rowCount
          · have := piv_lt hfixed hold
            omega
          · rw [hfixed i (by omega)]
            exact hi
      refine hclear.congr ?_ ?_ fun i hi c => rfl
      · intro i hi
        split
        · omega
        · split <;> omega
      · intro i hi
        by_cases hold : i < m.rowCount
        · rw [if_pos hold, if_neg (by omega), if_pos hold]
        · rw [if_neg hold, if_pos (by omega)]

theorem Ready.resumeGE (h : m.Ready a) (hgrown : m.Grown m' a a') :
    m'.SameFrame (m'.resumeGE m.rowCount m'.rowCount) ∧
      (m'.resumeGE m.rowCount m'.rowCount).Ready a' := by
  obtain ⟨hframe, hbounded, hkeep, hfactored⟩ := hgrown.resumed h.eliminated (Nat.le_refl _)
  have hechelon := h.eliminated.echelon
  have hrows := hechelon.le_rows
  have hcolumns := hechelon.le_columns
  have hle := hgrown.columns_le
  rw [← hgrown.geResumePivot] at hframe hbounded hkeep hfactored
  change m'.SameFrame (m'.resumeGE m.rowCount m'.rowCount) at hframe
  change (m'.resumeGE m.rowCount m'.rowCount).Bounded m'.columns.length at hbounded
  have hresumed : m'.resumed m.rowCount m'.rowCount m'.geResumePivot =
      m'.resumeGE m.rowCount m'.rowCount := rfl
  rw [hresumed] at hkeep hfactored
  rw [hgrown.geResumePivot] at hfactored
  have hresume : (m'.resumeGE m.rowCount m'.rowCount).geResumePivot = m.geResumePivot :=
    hframe.geResumePivot.trans hgrown.geResumePivot
  have hold : ∀ i, i < m.rowCount → ∀ c, c < m.columns.length →
      (m'.resumeGE m.rowCount m'.rowCount).matrix i c = m.matrix i c := by
    intro i hi c hc
    rw [hkeep i hi]
    exact (hgrown.old i hi c hc).2
  have hpiv : ∀ i, i < m.rowCount → m.pivots i < m.rowCount := fun i hi => piv_lt hechelon.fixed hi
  refine ⟨hframe, ⟨?_, ?_⟩, ?_, ?_, ?_⟩
  · rw [hresume, hframe.columns, hframe.rowCount, hframe.pivots, hgrown.pivots]
    refine hechelon.of_grown hgrown.rows_le hle hfactored fun i hi => ?_
    exact hold _ (hpiv i (by omega)) i (by omega)
  · rw [hframe.columns]
    exact hbounded
  · intro hzero
    rw [hresume] at hzero
    have huntouched := h.untouched hzero
    have hid : m'.resumeGE m.rowCount m'.rowCount = m' := by
      rw [RecoveryMatrixState.resumeGE, hgrown.geResumePivot, hzero]
      rfl
    rw [hid]
    refine ⟨hgrown.pivots.trans huntouched.pivots_eq, fun i hi c hc => ?_, hgrown.bounded
      huntouched.bounded, hgrown.mono hzero⟩
    by_cases hi' : i < m.rowCount
    · by_cases hc' : c < m.columns.length
      · rw [(hgrown.old i hi' c hc').2, (hgrown.old i hi' c hc').1]
        exact huntouched.matrix_eq i hi' c hc'
      · rw [(hgrown.right i hi' c (by omega) hc).2, (hgrown.right i hi' c (by omega) hc).1]
    · exact hgrown.new i (by omega) hi c hc
  · intro hpos
    rw [hresume] at hpos ⊢
    rw [hframe.columns]
    rw [hframe.rowCount]
    have := h.lt hpos
    have := hgrown.rows_le
    omega
  · intro hpos
    rw [hresume] at hpos ⊢
    rw [hframe.pivots, hgrown.pivots]
    have hlt := h.lt hpos
    rw [hold _ (hpiv _ hlt.2) _ hlt.1]
    exact h.zero hpos

end Run

end RecoveryMatrixState
end Tonk.Siamese
