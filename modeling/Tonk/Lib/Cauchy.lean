import Mathlib.LinearAlgebra.Lagrange
import Mathlib.Tactic

set_option autoImplicit false

namespace Cauchy
open Finset Polynomial Lagrange

variable {F ι : Type} [Field F] [DecidableEq ι] {s : Finset ι} {y v : ι → F}

noncomputable def numerator (s : Finset ι) (y v : ι → F) : F[X] :=
  ∑ j ∈ s, C (v j) * nodal (s.erase j) y

theorem eval_numerator {x : F} (hx : ∀ j ∈ s, x ≠ y j) :
    (numerator s y v).eval x = (nodal s y).eval x * ∑ j ∈ s, (x - y j)⁻¹ * v j := by
  rw [numerator, eval_finsetSum, mul_sum]
  refine sum_congr rfl fun j hj => ?_
  have hne : x - y j ≠ 0 := sub_ne_zero.mpr (hx j hj)
  rw [nodal_eq_mul_nodal_erase hj, eval_mul, eval_mul, eval_C, eval_sub, eval_X, eval_C]
  field_simp

theorem eval_numerator_at_node {j : ι} (hj : j ∈ s) :
    (numerator s y v).eval (y j) = v j * (nodal (s.erase j) y).eval (y j) := by
  rw [numerator, eval_finsetSum, sum_eq_single_of_mem j hj, eval_mul, eval_C]
  intro i _ hne
  rw [eval_mul, eval_nodal_at_node (mem_erase.mpr ⟨hne.symm, hj⟩), mul_zero]

theorem degree_numerator_lt (hs : s.Nonempty) : (numerator s y v).degree < s.card := by
  have hcard : 0 < s.card := card_pos.mpr hs
  refine (degree_sum_le _ _).trans_lt ((Finset.sup_lt_iff (WithBot.bot_lt_coe _)).mpr fun j hj => ?_)
  calc (C (v j) * nodal (s.erase j) y).degree ≤ (C (v j)).degree + (nodal (s.erase j) y).degree :=
        degree_mul_le _ _
    _ ≤ 0 + (nodal (s.erase j) y).degree := add_le_add_left degree_C_le _
    _ = (nodal (s.erase j) y).degree := zero_add _
    _ = (#(s.erase j) : WithBot ℕ) := degree_nodal
    _ < s.card := by
        rw [card_erase_of_mem hj]
        exact_mod_cast Nat.sub_lt hcard Nat.one_pos

theorem coeff_numerator : (numerator s y v).coeff (s.card - 1) = ∑ j ∈ s, v j := by
  rw [numerator, finsetSum_coeff]
  refine sum_congr rfl fun j hj => ?_
  have hdegree : (nodal (s.erase j) y).natDegree = s.card - 1 := by
    rw [natDegree_nodal, card_erase_of_mem hj]
  have hmonic : (nodal (s.erase j) y).coeff (s.card - 1) = 1 := by
    rw [← hdegree]
    exact nodal_monic
  rw [coeff_C_mul, hmonic, mul_one]

theorem degree_numerator_lt_of_sum (hsum : ∑ j ∈ s, v j = 0) (hs : s.Nonempty) :
    (numerator s y v).degree < (s.card - 1 : ℕ) := by
  have hcard : 0 < s.card := card_pos.mpr hs
  have hlt := degree_numerator_lt (y := y) (v := v) hs
  rw [degree_lt_iff_coeff_zero] at hlt ⊢
  intro n hn
  rcases Nat.eq_or_lt_of_le hn with heq | hgt
  · rw [← heq, coeff_numerator, hsum]
  · exact hlt n (by omega)

theorem eq_zero_of_numerator_eq_zero (hy : Set.InjOn y s) (h : numerator s y v = 0) {j : ι}
    (hj : j ∈ s) : v j = 0 := by
  have heval := eval_numerator_at_node (y := y) (v := v) hj
  rw [h, eval_zero] at heval
  refine (mul_eq_zero.mp heval.symm).resolve_right ?_
  rw [eval_nodal, ← ne_eq, prod_ne_zero_iff]
  intro i hi
  obtain ⟨hne, his⟩ := mem_erase.mp hi
  exact sub_ne_zero.mpr fun heq => hne (hy his hj heq.symm)

theorem eq_zero_of_rows (hy : Set.InjOn y s) {points : Finset F} {ones : Bool}
    (hpoints : ∀ x ∈ points, ∀ j ∈ s, x ≠ y j)
    (hrow : ∀ x ∈ points, ∑ j ∈ s, (x - y j)⁻¹ * v j = 0)
    (hones : ones = true → ∑ j ∈ s, v j = 0) (hcard : s.card ≤ points.card + ones.toNat) {j : ι}
    (hj : j ∈ s) : v j = 0 := by
  have hs : s.Nonempty := ⟨j, hj⟩
  refine eq_zero_of_numerator_eq_zero hy ?_ hj
  refine eq_zero_of_degree_lt_of_eval_finset_eq_zero points ?_ fun x hx => ?_
  · cases ones with
    | false =>
      refine (degree_numerator_lt hs).trans_le ?_
      simpa using hcard
    | true =>
      refine (degree_numerator_lt_of_sum (hones rfl) hs).trans_le ?_
      simp only [Bool.toNat_true] at hcard
      exact_mod_cast (by omega : s.card - 1 ≤ points.card)
  · rw [eval_numerator (hpoints x hx), hrow x hx, mul_zero]

end Cauchy
