import Mathlib.Tactic

set_option autoImplicit false

namespace Search

def findFrom (p : Nat → Bool) : Nat → Nat → Nat
  | 0, i => i
  | n + 1, i => if p i then i else findFrom p n (i + 1)

def firstFrom (p : Nat → Bool) (i stop : Nat) : Nat := findFrom p (stop - i) i

variable {p : Nat → Bool} {i stop : Nat}

theorem le_findFrom (p : Nat → Bool) (n i : Nat) : i ≤ findFrom p n i := by
  induction n generalizing i with
  | zero => exact Nat.le_refl i
  | succ n ih =>
    rw [findFrom]
    split
    · exact Nat.le_refl i
    · have := ih (i + 1)
      omega

theorem findFrom_le (p : Nat → Bool) (n i : Nat) : findFrom p n i ≤ i + n := by
  induction n generalizing i with
  | zero => exact Nat.le_refl i
  | succ n ih =>
    rw [findFrom]
    split
    · omega
    · have := ih (i + 1)
      omega

theorem findFrom_before (n i : Nat) {j : Nat} (hij : i ≤ j) (hj : j < findFrom p n i) :
    p j = false := by
  induction n generalizing i with
  | zero =>
    rw [findFrom] at hj
    omega
  | succ n ih =>
    rw [findFrom] at hj
    split at hj
    · omega
    · next hp =>
      by_cases heq : i = j
      · subst heq
        simpa using hp
      · exact ih (i + 1) (by omega) hj

theorem findFrom_passes (n i : Nat) (h : findFrom p n i < i + n) : p (findFrom p n i) = true := by
  induction n generalizing i with
  | zero =>
    rw [findFrom] at h
    omega
  | succ n ih =>
    rw [findFrom] at h ⊢
    split
    · assumption
    · next hp =>
      rw [if_neg hp] at h
      exact ih (i + 1) (by omega)

theorem le_firstFrom : i ≤ firstFrom p i stop := le_findFrom p _ i

theorem firstFrom_le (h : i ≤ stop) : firstFrom p i stop ≤ stop := by
  have := findFrom_le p (stop - i) i
  rw [firstFrom]
  omega

theorem firstFrom_before {j : Nat} (hij : i ≤ j) (hj : j < firstFrom p i stop) : p j = false :=
  findFrom_before _ i hij hj

theorem firstFrom_passes (h : firstFrom p i stop < stop) : p (firstFrom p i stop) = true := by
  have hle : i ≤ firstFrom p i stop := le_firstFrom
  exact findFrom_passes _ i (by rw [firstFrom] at h hle; omega)

theorem firstFrom_eq {r : Nat} (hir : i ≤ r) (hr : r ≤ stop)
    (hbefore : ∀ j, i ≤ j → j < r → p j = false) (hpass : r < stop → p r = true) :
    firstFrom p i stop = r := by
  have hle : firstFrom p i stop ≤ stop := firstFrom_le (by omega)
  have hge : i ≤ firstFrom p i stop := le_firstFrom
  rcases Nat.lt_trichotomy (firstFrom p i stop) r with hlt | heq | hgt
  · have h₁ := hbefore _ hge hlt
    have h₂ : p (firstFrom p i stop) = true := firstFrom_passes (by omega)
    rw [h₂] at h₁
    exact absurd h₁ (by decide)
  · exact heq
  · have h₁ := firstFrom_before hir hgt
    rw [hpass (by omega)] at h₁
    exact absurd h₁ (by decide)

theorem firstFrom_skip {j : Nat} (hij : i ≤ j) (hj : j ≤ stop)
    (hnone : ∀ k, i ≤ k → k < j → p k = false) : firstFrom p i stop = firstFrom p j stop := by
  have hge : j ≤ firstFrom p j stop := le_firstFrom
  refine firstFrom_eq (hij.trans hge) (firstFrom_le hj) (fun k hik hk => ?_) firstFrom_passes
  by_cases hkj : k < j
  · exact hnone k hik hkj
  · exact firstFrom_before (by omega) hk

theorem min_firstFrom {c : Nat} (hic : i ≤ c) (hc : c ≤ stop) :
    min c (firstFrom p i stop) = firstFrom p i c := by
  have hge : i ≤ firstFrom p i stop := le_firstFrom
  symm
  refine firstFrom_eq (by omega) (Nat.min_le_left _ _) (fun k hik hk => ?_) fun hlt => ?_
  · exact firstFrom_before hik (Nat.lt_of_lt_of_le hk (Nat.min_le_right _ _))
  · rw [Nat.min_eq_right (by omega)]
    exact firstFrom_passes (by omega)

end Search
