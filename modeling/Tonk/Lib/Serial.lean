import Mathlib.Tactic

/-!
Counters that wrap: truncation to a few low bits, and expansion of a truncated counter around a
reference value. True values are unbounded; `wrap w` is what a `w`-bit counter holds of one.
-/

set_option autoImplicit false

namespace Serial

def wrap (w : Nat) (x : Int) : Nat := (x % 2 ^ w).toNat

def signed (w g : Nat) : Int := if 2 ^ (w - 1) ≤ g then (g : Int) - 2 ^ w else g

def sub (w a b : Nat) : Nat := ((a : Int) - b).emod (2 ^ w) |>.toNat

def expand (w s recent smaller : Nat) : Nat :=
  wrap w (recent + signed s (sub s smaller (recent % 2 ^ s)))

theorem wrap_cast (w : Nat) (x : Int) : (wrap w x : Int) = x % 2 ^ w :=
  Int.toNat_of_nonneg (Int.emod_nonneg x (by positivity))

theorem wrap_lt (w : Nat) (x : Int) : wrap w x < 2 ^ w := by
  have h := Int.emod_lt_of_pos x (show (0 : Int) < 2 ^ w by positivity)
  have hc := wrap_cast w x
  zify
  rw [hc]
  exact h

theorem wrap_eq_iff (w : Nat) (x y : Int) : wrap w x = wrap w y ↔ x ≡ y [ZMOD 2 ^ w] := by
  rw [Int.ModEq, ← wrap_cast, ← wrap_cast]
  exact Nat.cast_inj.symm

theorem wrap_natCast (w n : Nat) : wrap w n = n % 2 ^ w := by
  zify
  rw [wrap_cast]

theorem wrap_modEq (w : Nat) (x : Int) : (wrap w x : Int) ≡ x [ZMOD 2 ^ w] := by
  rw [wrap_cast]
  exact Int.mod_modEq x _

theorem sub_cast (w a b : Nat) : (sub w a b : Int) = ((a : Int) - b) % 2 ^ w :=
  Int.toNat_of_nonneg (Int.emod_nonneg _ (by positivity))

theorem signed_eq_of_modEq {w g : Nat} {d : Int} (hw : 0 < w) (hg : g < 2 ^ w)
    (h : (g : Int) ≡ d [ZMOD 2 ^ w]) (hlo : -2 ^ (w - 1) ≤ d) (hhi : d < 2 ^ (w - 1)) :
    signed w g = d := by
  have hpow : (2 : Int) ^ w = 2 * 2 ^ (w - 1) := by
    rw [← pow_succ']
    congr 1
    omega
  have hpow' : (2 : Nat) ^ w = 2 * 2 ^ (w - 1) := by
    rw [← pow_succ']
    congr 1
    omega
  have hcast : ((2 ^ (w - 1) : Nat) : Int) = 2 ^ (w - 1) := by push_cast; rfl
  obtain ⟨k, hk⟩ := h.dvd
  rw [hpow] at hk
  rw [hpow'] at hg
  unfold signed
  generalize (2 : Nat) ^ (w - 1) = m at hg hcast ⊢
  generalize (2 : Int) ^ (w - 1) = M at hpow hcast hk hlo hhi
  rw [hpow]
  subst hcast
  have hm : 0 < m := by omega
  have hk' : k = 0 ∨ k = -1 := by
    have h₁ : -2 < k := by
      by_contra hlt
      have hle : k ≤ -2 := by omega
      nlinarith
    have h₂ : k < 1 := by
      by_contra hlt
      have hle : 1 ≤ k := by omega
      nlinarith
    omega
  rcases hk' with rfl | rfl
  · rw [if_neg]
    · omega
    · omega
  · rw [if_pos]
    · omega
    · omega

theorem expand_wrap {w s : Nat} (hs : 0 < s) (hsw : s ≤ w) {r x : Int}
    (hlo : -2 ^ (s - 1) ≤ x - r) (hhi : x - r < 2 ^ (s - 1)) :
    expand w s (wrap w r) (wrap s x) = wrap w x := by
  have hdvd : (2 : Int) ^ s ∣ 2 ^ w := pow_dvd_pow 2 hsw
  have hlow : ((wrap w r % 2 ^ s : Nat) : Int) ≡ r [ZMOD 2 ^ s] := by
    push_cast
    exact (Int.mod_modEq _ _).trans ((wrap_modEq w r).of_dvd hdvd)
  have hgap : (sub s (wrap s x) (wrap w r % 2 ^ s) : Int) ≡ x - r [ZMOD 2 ^ s] := by
    rw [sub_cast]
    exact (Int.mod_modEq _ _).trans ((wrap_modEq s x).sub hlow)
  have hlt : sub s (wrap s x) (wrap w r % 2 ^ s) < 2 ^ s := by
    zify
    rw [sub_cast]
    exact Int.emod_lt_of_pos _ (by positivity)
  rw [expand, signed_eq_of_modEq hs hlt hgap hlo hhi, wrap_eq_iff]
  have h := (wrap_modEq w r).add_right (x - r)
  simpa using h

theorem sub_lt (w a b : Nat) : sub w a b < 2 ^ w := by
  zify
  rw [sub_cast]
  exact Int.emod_lt_of_pos _ (by positivity)

theorem signed_range {w g : Nat} (hw : 0 < w) (hg : g < 2 ^ w) :
    -2 ^ (w - 1) ≤ signed w g ∧ signed w g < 2 ^ (w - 1) := by
  have hpow : (2 : Nat) ^ w = 2 * 2 ^ (w - 1) := by
    rw [← pow_succ']
    congr 1
    omega
  have hcast : (2 : Int) ^ w = 2 * ((2 ^ (w - 1) : Nat) : Int) := by
    have h : (2 : Int) ^ w = ((2 ^ w : Nat) : Int) := by push_cast; rfl
    rw [h, hpow]
    push_cast
    rfl
  have hhalf : (2 : Int) ^ (w - 1) = ((2 ^ (w - 1) : Nat) : Int) := by push_cast; rfl
  unfold signed
  rw [hcast, hhalf]
  generalize (2 : Nat) ^ (w - 1) = m at *
  split <;> omega

theorem expand_eq_iff {w s : Nat} (hs : 0 < s) (hsw : s ≤ w) {r x : Nat} (hr : r < 2 ^ w)
    (hx : x < 2 ^ w) :
    expand w s r (x % 2 ^ s) = x ↔
      -2 ^ (s - 1) ≤ signed w (sub w x r) ∧ signed w (sub w x r) < 2 ^ (s - 1) := by
  have hr' : wrap w r = r := by rw [wrap_natCast, Nat.mod_eq_of_lt hr]
  have hx' : wrap w x = x := by rw [wrap_natCast, Nat.mod_eq_of_lt hx]
  have hsub : (sub w x r : Int) ≡ x - r [ZMOD 2 ^ w] := by
    rw [sub_cast]
    exact Int.mod_modEq _ _
  constructor
  · intro heq
    have hrange := signed_range hs (sub_lt s (x % 2 ^ s) (r % 2 ^ s))
    unfold expand at heq
    generalize signed s (sub s (x % 2 ^ s) (r % 2 ^ s)) = gap at heq hrange
    have hle : (2 : Int) ^ (s - 1) ≤ 2 ^ (w - 1) :=
      pow_le_pow_right₀ (by norm_num) (by omega)
    rw [← hx', wrap_eq_iff] at heq
    have hgap : (sub w x r : Int) ≡ gap [ZMOD 2 ^ w] := by
      refine hsub.trans ?_
      have h := heq.symm.sub_right (r : Int)
      simpa using h
    rw [signed_eq_of_modEq (by omega) (sub_lt w x r) hgap (by omega) (by omega)]
    exact hrange
  · rintro ⟨hlo, hhi⟩
    have hsame : (signed w (sub w x r) : Int) ≡ x - r [ZMOD 2 ^ w] := by
      refine Int.ModEq.trans ?_ hsub
      unfold signed
      split
      · exact Int.modEq_iff_dvd.mpr ⟨1, by ring⟩
      · rfl
    have hnear : (r : Int) + signed w (sub w x r) ≡ x [ZMOD 2 ^ w] := by
      have h := hsame.add_left (r : Int)
      simpa using h
    have hlow : wrap s ((r : Int) + signed w (sub w x r)) = x % 2 ^ s := by
      rw [← wrap_natCast, wrap_eq_iff]
      exact hnear.of_dvd (pow_dvd_pow 2 hsw)
    have h := expand_wrap hs hsw (r := r) (x := (r : Int) + signed w (sub w x r)) (by omega)
      (by omega)
    rw [hr', hlow] at h
    rw [h, ← hx', wrap_eq_iff, hx']
    exact hnear

theorem signed_modEq (w g : Nat) : signed w g ≡ g [ZMOD 2 ^ w] := by
  unfold signed
  split
  · exact Int.modEq_iff_dvd.mpr ⟨1, by ring⟩
  · rfl

theorem eq_of_modEq_of_window {m lo d e : Int} (h : d ≡ e [ZMOD m]) (hd : lo ≤ d)
    (hd' : d < lo + m) (he : lo ≤ e) (he' : e < lo + m) : d = e := by
  have hdvd : m ∣ e - d := h.dvd
  rcases le_total d e with hle | hle
  · have := Int.eq_zero_of_dvd_of_nonneg_of_lt (by omega) (by omega) hdvd
    omega
  · have := Int.eq_zero_of_dvd_of_nonneg_of_lt (by omega) (by omega) ((Int.dvd_neg.mpr hdvd))
    omega

theorem wrap_wrap {w s : Nat} (h : s ≤ w) (x : Int) : wrap s (wrap w x) = wrap s x := by
  rw [wrap_eq_iff]
  exact (wrap_modEq w x).of_dvd (pow_dvd_pow 2 h)

end Serial
