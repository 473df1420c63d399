import Mathlib.Data.Nat.Bitwise
import Tonk.Lib.Serial

/-!
`Counter.h`: counters of `k` bits in words of `w` bits, cut to fewer bits and expanded again around a
recent value. What is computed in the word type is taken modulo `2 ^ w` where it is stored.
-/

set_option autoImplicit false

namespace Tonk.Protocol
open Serial

/-- `Counter<T, TkBits>`, where T has `w` bits. -/
structure Counter (w k : Nat) where
  value : Nat
  lt : value < 2 ^ k
  deriving DecidableEq

namespace Counter

variable {w k w' s : Nat}

def kMSB (k : Nat) : Nat := 2 ^ (k - 1)
def kMask (k : Nat) : Nat := 2 ^ k - 1

theorem and_kMask (x k : Nat) : x &&& kMask k = x % 2 ^ k := Nat.and_two_pow_sub_one_eq_mod x k

theorem ext_value {a b : Counter w k} (h : a.value = b.value) : a = b := by
  cases a
  cases b
  cases h
  rfl

def ofInt (x : Int) : Counter w k :=
  ⟨wrap w x &&& kMask k, by
    rw [and_kMask]
    exact Nat.mod_lt _ (Nat.two_pow_pos k)⟩

def add (a b : Counter w k) : Counter w k := ofInt (a.value + b.value)
def sub (a b : Counter w k) : Counter w k := ofInt (a.value - b.value)

def truncate (a : Counter w k) : Counter w' s := ofInt a.value

def castSigned (w : Nat) (x : Int) : Int := signed w (wrap w x)

def expandFromTruncatedWithBias (recent : Counter w k) (smaller : Counter w' s) (bias : Int) :
    Counter w k :=
  let result : Counter w k :=
    ofInt ((smaller.value ||| (recent.value &&& (2 ^ w - 1 - kMask s)) : Nat) : Int)
  let recentLow := recent.value &&& kMask s
  if recentLow < smaller.value then
    let absDiff := smaller.value - recentLow
    if wrap w (kMSB s - bias) ≤ absDiff then result.sub (ofInt (wrap w (kMSB s) <<< 1 : Nat))
    else result
  else
    let absDiff := recentLow - smaller.value
    if wrap w (kMSB s + bias) < absDiff then result.add (ofInt (wrap w (kMSB s) <<< 1 : Nat))
    else result

def expandFromTruncated (recent : Counter w k) (smaller : Counter w' s) : Counter w k :=
  let smallerMSB := smaller.value &&& kMSB s
  let smallerSigned := castSigned w ((smaller.value : Int) - (smallerMSB <<< 1 : Nat))
  let smallRecent := wrap w' (recent.value &&& kMask s : Nat)
  let gap := wrap w' (smallerSigned - smallRecent) &&& kMask s
  let gapMSB := gap &&& kMSB s
  let gapSigned := castSigned w ((gap : Int) - (gapMSB <<< 1 : Nat))
  ofInt (recent.value + gapSigned)

def expandFromWord (n : Nat) (recent : Counter w k) (smaller : Counter n n) : Counter w k :=
  let gap := castSigned n ((smaller.value : Int) - wrap n recent.value)
  recent.add (ofInt gap)

def expandFromTruncated32 (recent : Counter w k) (smaller : Counter 32 32) : Counter w k :=
  expandFromWord 32 recent smaller

def expandFromTruncated16 (recent : Counter w k) (smaller : Counter 16 16) : Counter w k :=
  expandFromWord 16 recent smaller

def expandFromTruncated8 (recent : Counter w k) (smaller : Counter 8 8) : Counter w k :=
  expandFromWord 8 recent smaller

section Words

theorem ofInt_value (h : k ≤ w) (x : Int) : (ofInt x : Counter w k).value = wrap k x := by
  change wrap w x &&& kMask k = wrap k x
  rw [and_kMask, ← wrap_natCast, wrap_wrap h]

theorem add_value (h : k ≤ w) (a b : Counter w k) :
    (a.add b).value = wrap k (a.value + b.value) := ofInt_value h _

theorem sub_value (h : k ≤ w) (a b : Counter w k) :
    (a.sub b).value = wrap k (a.value - b.value) := ofInt_value h _

theorem wrap_eq_self {x : Int} {w : Nat} (hlo : 0 ≤ x) (hhi : x < 2 ^ w) : (wrap w x : Int) = x := by
  rw [wrap_cast, Int.emod_eq_of_lt hlo hhi]

theorem or_high_eq {smaller recent : Nat} (hsmaller : smaller < 2 ^ s) (hrecent : recent < 2 ^ w)
    (hsw : s ≤ w) : smaller ||| (recent &&& (2 ^ w - 1 - kMask s)) =
      recent - recent % 2 ^ s + smaller := by
  have hmask : 2 ^ w - 1 - kMask s = (2 ^ (w - s) - 1) <<< s := by
    have hpos := Nat.two_pow_pos s
    rw [kMask, Nat.shiftLeft_eq, Nat.sub_mul, ← pow_add, Nat.sub_add_cancel hsw]
    omega
  have hhigh : recent &&& (2 ^ w - 1 - kMask s) = (recent / 2 ^ s) <<< s := by
    refine Nat.eq_of_testBit_eq fun i => ?_
    rw [hmask, Nat.testBit_and, Nat.testBit_shiftLeft, Nat.testBit_shiftLeft,
      Nat.testBit_two_pow_sub_one, Nat.testBit_div_two_pow]
    by_cases hi : s ≤ i
    · rw [Nat.sub_add_cancel hi]
      by_cases hiw : i < w
      · simp [hi, show i - s < w - s by omega]
      · have hfalse : recent.testBit i = false :=
          Nat.testBit_lt_two_pow (Nat.lt_of_lt_of_le hrecent
            (Nat.pow_le_pow_right (by decide) (by omega)))
        simp [hfalse]
    · simp [hi]
  have hdiv := Nat.div_add_mod recent (2 ^ s)
  rw [hhigh, Nat.or_comm, ← Nat.shiftLeft_add_eq_or_of_lt hsmaller, Nat.shiftLeft_eq, Nat.mul_comm]
  omega

theorem two_pow_pred {n : Nat} (h : 0 < n) : (2 : Int) ^ n = 2 ^ (n - 1) + 2 ^ (n - 1) := by
  rw [← two_mul, ← pow_succ', Nat.sub_add_cancel h]

theorem sub_ofInt_value (h : k ≤ w) {a : Counter w k} {x : Int} (ha : a.value = wrap k x) (y : Int) :
    (a.sub (ofInt y)).value = wrap k (x - y) := by
  rw [sub_value h, ofInt_value h, ha, wrap_eq_iff]
  exact (wrap_modEq k x).sub (wrap_modEq k y)

theorem add_ofInt_value (h : k ≤ w) {a : Counter w k} {x : Int} (ha : a.value = wrap k x) (y : Int) :
    (a.add (ofInt y)).value = wrap k (x + y) := by
  rw [add_value h, ofInt_value h, ha, wrap_eq_iff]
  exact (wrap_modEq k x).add (wrap_modEq k y)

end Words

/-- The expanded counter is the one with the low bits of the smaller that lies in a window of `2 ^ s`
around the recent one; a bias moves the window into the past. With the largest bias, low bits that
agree with those of the recent counter do not move. -/
theorem expandFromTruncatedWithBias_spec (hs : 0 < s) (hsk : s < k) (hkw : k ≤ w)
    (recent : Counter w k) (smaller : Counter w' s) {bias : Int} (hlo : -2 ^ (s - 1) ≤ bias)
    (hhi : bias ≤ 2 ^ (s - 1))
    (htop : bias = 2 ^ (s - 1) → recent.value % 2 ^ s ≠ smaller.value) :
    ∃ d : Int, -(2 ^ (s - 1) + bias) ≤ d ∧ d < 2 ^ (s - 1) - bias ∧
      recent.value + d ≡ smaller.value [ZMOD 2 ^ s] ∧
      (expandFromTruncatedWithBias recent smaller bias).value = wrap k (recent.value + d) := by
  have hrecent : recent.value < 2 ^ w :=
    Nat.lt_of_lt_of_le recent.lt (Nat.pow_le_pow_right (by decide) hkw)
  have hdouble := two_pow_pred hs
  have hhalf : (0 : Int) < 2 ^ (s - 1) := by positivity
  have hsw : (2 : Int) ^ s ≤ 2 ^ (w - 1) := pow_le_pow_right₀ (by norm_num) (by omega)
  have hw := two_pow_pred (show 0 < w by omega)
  have hmsb : ((kMSB s : Nat) : Int) = 2 ^ (s - 1) := by
    rw [kMSB]
    push_cast
    rfl
  have hperiod : ((wrap w (kMSB s) <<< 1 : Nat) : Int) = 2 ^ s := by
    rw [Nat.shiftLeft_eq]
    push_cast
    rw [wrap_eq_self (by positivity) (by rw [hmsb]; omega), hmsb, hdouble]
    ring
  have hbase := or_high_eq smaller.lt hrecent (show s ≤ w by omega)
  have hlow := Nat.mod_lt recent.value (Nat.two_pow_pos s)
  have hle := Nat.mod_le recent.value (2 ^ s)
  have hlt := smaller.lt
  have hlowMod : ((recent.value % 2 ^ s : Nat) : Int) ≡ recent.value [ZMOD 2 ^ s] := by
    push_cast
    exact Int.mod_modEq _ _
  have hsame : (recent.value : Int) + (smaller.value - (recent.value % 2 ^ s : Nat)) ≡
      smaller.value [ZMOD 2 ^ s] := by
    have h := (hlowMod.symm.add_right (smaller.value - ((recent.value % 2 ^ s : Nat) : Int)))
    simpa using h
  have hresult : (ofInt ((smaller.value ||| (recent.value &&& (2 ^ w - 1 - kMask s)) : Nat) : Int) :
      Counter w k).value =
        wrap k (recent.value + (smaller.value - (recent.value % 2 ^ s : Nat))) := by
    rw [ofInt_value hkw, hbase]
    congr 1
    omega
  have hcast : ((2 ^ s : Nat) : Int) = 2 ^ s := by push_cast; rfl
  have hless : ((wrap w (kMSB s - bias) : Nat) : Int) = 2 ^ (s - 1) - bias := by
    rw [wrap_eq_self (by omega) (by omega), hmsb]
  have hmore : ((wrap w (kMSB s + bias) : Nat) : Int) = 2 ^ (s - 1) + bias := by
    rw [wrap_eq_self (by omega) (by omega), hmsb]
  have hshift : ∀ d : Int, recent.value + d ≡ smaller.value [ZMOD 2 ^ s] →
      recent.value + (d - 2 ^ s) ≡ smaller.value [ZMOD 2 ^ s] ∧
        recent.value + (d + 2 ^ s) ≡ smaller.value [ZMOD 2 ^ s] := by
    intro d hd
    refine ⟨.trans (Int.modEq_iff_dvd.mpr ⟨1, by ring⟩) hd, .trans (Int.modEq_iff_dvd.mpr ⟨-1, ?_⟩) hd⟩
    ring
  unfold expandFromTruncatedWithBias
  simp only [and_kMask]
  generalize recent.value % 2 ^ s = low at *
  have hsmaller : (smaller.value : Int) < 2 ^ s := by omega
  split
  · next hless' =>
    split
    · refine ⟨smaller.value - low - 2 ^ s, by omega, by omega, (hshift _ hsame).1, ?_⟩
      rw [sub_ofInt_value hkw hresult, hperiod]
      congr 1
      ring
    · exact ⟨smaller.value - low, by omega, by omega, hsame, hresult⟩
  · split
    · refine ⟨smaller.value - low + 2 ^ s, by omega, by omega, (hshift _ hsame).2, ?_⟩
      rw [add_ofInt_value hkw hresult, hperiod]
      congr 1
      ring
    · exact ⟨smaller.value - low, by omega, by omega, hsame, hresult⟩

def InWindow (recent x : Counter w k) (s : Nat) (bias : Int) : Prop :=
  -(2 ^ (s - 1) + bias) ≤ signed k (Serial.sub k x.value recent.value) ∧
    signed k (Serial.sub k x.value recent.value) ≤ 2 ^ (s - 1) - bias - 1

theorem expandFromTruncatedWithBias_eq_iff (hs : 0 < s) (hsk : s < k) (hkw : k ≤ w) (hsw' : s ≤ w')
    (recent x : Counter w k) {bias : Int} (hlo : -2 ^ (s - 1) ≤ bias) (hhi : bias ≤ 2 ^ (s - 1))
    (htop : bias = 2 ^ (s - 1) → recent.value % 2 ^ s ≠ x.value % 2 ^ s) :
    expandFromTruncatedWithBias recent (x.truncate : Counter w' s) bias = x ↔
      recent.InWindow x s bias := by
  have htruncate : (x.truncate : Counter w' s).value = x.value % 2 ^ s := by
    rw [truncate, ofInt_value hsw', wrap_natCast]
  obtain ⟨d, hdlo, hdhi, hlow, hvalue⟩ := expandFromTruncatedWithBias_spec hs hsk hkw recent
    (x.truncate : Counter w' s) hlo hhi (by rw [htruncate]; exact htop)
  have hx : wrap k x.value = x.value := by rw [wrap_natCast, Nat.mod_eq_of_lt x.lt]
  have hsub : (Serial.sub k x.value recent.value : Int) ≡ x.value - recent.value [ZMOD 2 ^ k] := by
    rw [sub_cast]
    exact Int.mod_modEq _ _
  have hdouble := two_pow_pred hs
  have hhalf : (2 : Int) ^ s ≤ 2 ^ (k - 1) := pow_le_pow_right₀ (by norm_num) (by omega)
  constructor
  · intro heq
    rw [heq, ← hx, wrap_eq_iff] at hvalue
    have hd : (Serial.sub k x.value recent.value : Int) ≡ d [ZMOD 2 ^ k] := by
      refine hsub.trans ?_
      have h := hvalue.sub_right (recent.value : Int)
      simpa using h
    rw [InWindow, signed_eq_of_modEq (by omega) (sub_lt k _ _) hd (by omega) (by omega)]
    exact ⟨hdlo, by omega⟩
  · rintro ⟨hin, hin'⟩
    have he : (recent.value : Int) + signed k (Serial.sub k x.value recent.value) ≡ x.value
        [ZMOD 2 ^ k] := by
      have h := ((signed_modEq k _).trans hsub).add_left (recent.value : Int)
      simpa using h
    have hsame : d ≡ signed k (Serial.sub k x.value recent.value) [ZMOD 2 ^ s] := by
      have hxlow : ((x.value % 2 ^ s : Nat) : Int) ≡ x.value [ZMOD 2 ^ s] := by
        push_cast
        exact Int.mod_modEq _ _
      rw [htruncate] at hlow
      have h := hlow.trans (hxlow.trans (he.symm.of_dvd (pow_dvd_pow 2 hsk.le)))
      exact Int.ModEq.add_left_cancel' _ h
    have hd := eq_of_modEq_of_window hsame hdlo (by omega) hin (by omega)
    refine ext_value ?_
    rw [hvalue, hd, ← hx, wrap_eq_iff, hx]
    exact he

theorem sub_and_kMSB {g : Nat} (hs : 0 < s) (hg : g < 2 ^ s) :
    (g : Int) - ((g &&& kMSB s) <<< 1 : Nat) = signed s g := by
  have hpow : 2 ^ s = 2 * 2 ^ (s - 1) := by
    rw [← pow_succ', Nat.sub_add_cancel hs]
  have hbit : g.testBit (s - 1) = decide (2 ^ (s - 1) ≤ g) := by
    rw [Nat.testBit_eq_decide_div_mod_eq]
    by_cases hle : 2 ^ (s - 1) ≤ g
    · have hdiv : g / 2 ^ (s - 1) = 1 := Nat.div_eq_of_lt_le (by omega) (by omega)
      simp [hdiv, hle]
    · have hdiv : g / 2 ^ (s - 1) = 0 := Nat.div_eq_of_lt (by omega)
      simp [hdiv, hle]
  rw [kMSB, Nat.and_two_pow, hbit, Nat.shiftLeft_eq, pow_one, signed]
  have hcast : (2 : Int) ^ s = ((2 ^ s : Nat) : Int) := by push_cast; rfl
  by_cases hle : 2 ^ (s - 1) ≤ g
  · simp only [hle, decide_true, Bool.toNat_true, if_true, hcast]
    omega
  · simp [hle]

theorem castSigned_modEq (w : Nat) (x : Int) : castSigned w x ≡ x [ZMOD 2 ^ w] :=
  (signed_modEq w _).trans (wrap_modEq w x)

theorem castSigned_eq_self {w : Nat} (hw : 0 < w) {x : Int} (hlo : -2 ^ (w - 1) ≤ x)
    (hhi : x < 2 ^ (w - 1)) : castSigned w x = x :=
  signed_eq_of_modEq hw (wrap_lt w x) (wrap_modEq w x) hlo hhi

theorem expandFromTruncated_value (hs : 0 < s) (hsk : s < k) (hkw : k ≤ w) (hsw' : s ≤ w')
    (recent : Counter w k) (smaller : Counter w' s) :
    (expandFromTruncated recent smaller).value = expand k s recent.value smaller.value := by
  have hsw : s ≤ w := by omega
  have hlow : ((wrap w' (recent.value &&& kMask s : Nat) : Nat) : Int) = (recent.value % 2 ^ s : Nat) := by
    rw [and_kMask]
    refine wrap_eq_self (by positivity) ?_
    have hlt := Nat.mod_lt recent.value (Nat.two_pow_pos s)
    have hle : 2 ^ s ≤ 2 ^ w' := Nat.pow_le_pow_right (by decide) hsw'
    exact_mod_cast Nat.lt_of_lt_of_le hlt hle
  have hsigned : castSigned w ((smaller.value : Int) - ((smaller.value &&& kMSB s) <<< 1 : Nat)) ≡
      smaller.value [ZMOD 2 ^ s] := by
    refine ((castSigned_modEq w _).of_dvd (pow_dvd_pow 2 hsw)).trans ?_
    rw [sub_and_kMSB hs smaller.lt]
    exact signed_modEq s _
  unfold expandFromTruncated
  simp only
  rw [ofInt_value hkw, hlow]
  generalize castSigned w ((smaller.value : Int) - ((smaller.value &&& kMSB s) <<< 1 : Nat)) =
    smallerSigned at hsigned
  have hgap : wrap w' (smallerSigned - (recent.value % 2 ^ s : Nat)) &&& kMask s =
      Serial.sub s smaller.value (recent.value % 2 ^ s) := by
    rw [and_kMask, ← wrap_natCast, wrap_wrap hsw']
    exact (wrap_eq_iff ..).mpr (hsigned.sub_right _)
  have hrange := signed_range hs (sub_lt s smaller.value (recent.value % 2 ^ s))
  have hhalf : (2 : Int) ^ (s - 1) ≤ 2 ^ (w - 1) := pow_le_pow_right₀ (by norm_num) (by omega)
  rw [hgap, sub_and_kMSB hs (sub_lt s _ _), castSigned_eq_self (by omega) (by omega) (by omega)]
  rfl

theorem expandFromTruncated_eq (hs : 0 < s) (hsk : s < k) (hkw : k ≤ w) (hsw' : s ≤ w')
    (recent : Counter w k) (smaller : Counter w' s) :
    expandFromTruncated recent smaller = expandFromTruncatedWithBias recent smaller 0 := by
  have hpos : (0 : Int) < 2 ^ (s - 1) := by positivity
  obtain ⟨d, hdlo, hdhi, hlow, hvalue⟩ := expandFromTruncatedWithBias_spec hs hsk hkw recent smaller
    (show -2 ^ (s - 1) ≤ (0 : Int) by omega) (by omega) (by omega)
  have hrange := signed_range hs (sub_lt s smaller.value (recent.value % 2 ^ s))
  have hdouble := two_pow_pred hs
  have hlowMod : ((recent.value % 2 ^ s : Nat) : Int) ≡ recent.value [ZMOD 2 ^ s] := by
    push_cast
    exact Int.mod_modEq _ _
  have hgap : signed s (Serial.sub s smaller.value (recent.value % 2 ^ s)) ≡
      smaller.value - recent.value [ZMOD 2 ^ s] := by
    refine (signed_modEq s _).trans ?_
    rw [sub_cast]
    exact (Int.mod_modEq _ _).trans (hlowMod.sub_left _)
  have hd : d ≡ smaller.value - recent.value [ZMOD 2 ^ s] := by
    have h := hlow.sub_right (recent.value : Int)
    simpa using h
  have heq := eq_of_modEq_of_window (hd.trans hgap.symm) hdlo (by omega) (by omega) (by omega)
  refine ext_value ?_
  rw [expandFromTruncated_value hs hsk hkw hsw', hvalue, heq]
  rfl

theorem expandFromWord_value (n : Nat) (hkw : k ≤ w) (recent : Counter w k) (smaller : Counter n n) :
    (expandFromWord n recent smaller).value = expand k n recent.value smaller.value := by
  have hrecent : recent.value = wrap k recent.value := by
    rw [wrap_natCast, Nat.mod_eq_of_lt recent.lt]
  unfold expandFromWord
  simp only
  rw [add_ofInt_value hkw hrecent, castSigned, wrap_natCast]
  rfl

theorem expandFromWord_eq (n : Nat) (hn : 0 < n) (hnk : n < k) (hkw : k ≤ w) (recent : Counter w k)
    (smaller : Counter n n) : expandFromWord n recent smaller = expandFromTruncated recent smaller := by
  refine ext_value ?_
  rw [expandFromWord_value n hkw, expandFromTruncated_value hn hnk hkw le_rfl]

end Counter

def counterExpand (largest partialCounter : Nat) (bytes : Nat) : Counter 64 64 :=
  let largest : Counter 64 64 := .ofInt largest
  match bytes with
  | 1 => largest.expandFromTruncated8 (.ofInt partialCounter)
  | 2 => largest.expandFromTruncated16 (.ofInt partialCounter)
  | 3 => largest.expandFromTruncated (.ofInt partialCounter : Counter 32 24)
  | 4 => largest.expandFromTruncated32 (.ofInt partialCounter)
  | 5 => largest.expandFromTruncated (.ofInt partialCounter : Counter 64 40)
  | 6 => largest.expandFromTruncated (.ofInt partialCounter : Counter 64 48)
  | 7 => largest.expandFromTruncated (.ofInt partialCounter : Counter 64 56)
  | _ => .ofInt 0

theorem counterExpand_eq (largest partialCounter bytes : Nat) (hpos : 0 < bytes) (hlt : bytes < 8) :
    ∃ w', 8 * bytes ≤ w' ∧ counterExpand largest partialCounter bytes =
      (Counter.ofInt largest : Counter 64 64).expandFromTruncated
        (Counter.ofInt partialCounter : Counter w' (8 * bytes)) := by
  match bytes with
  | 1 => exact ⟨8, le_rfl, Counter.expandFromWord_eq 8 (by decide) (by decide) le_rfl _ _⟩
  | 2 => exact ⟨16, le_rfl, Counter.expandFromWord_eq 16 (by decide) (by decide) le_rfl _ _⟩
  | 3 => exact ⟨32, by decide, rfl⟩
  | 4 => exact ⟨32, le_rfl, Counter.expandFromWord_eq 32 (by decide) (by decide) le_rfl _ _⟩
  | 5 => exact ⟨64, by decide, rfl⟩
  | 6 => exact ⟨64, by decide, rfl⟩
  | 7 => exact ⟨64, by decide, rfl⟩

namespace Counter

/-- A truncated counter is expanded to itself exactly when it lies in the window that the bias says,
but for the largest bias where the low bits agree; the other expansions are those without a bias. -/
theorem truncated_counter_expansion {w k w' s : Nat} (hs : 0 < s) (hsk : s < k) (hkw : k ≤ w)
    (hsw' : s ≤ w') :
    (∀ (recent x : Counter w k) (bias : Int), -2 ^ (s - 1) ≤ bias → bias ≤ 2 ^ (s - 1) →
      (bias = 2 ^ (s - 1) → recent.value % 2 ^ s ≠ x.value % 2 ^ s) →
      (expandFromTruncatedWithBias recent (x.truncate : Counter w' s) bias = x ↔
        recent.InWindow x s bias)) ∧
    (∀ (recent : Counter w k) (smaller : Counter w' s),
      expandFromTruncated recent smaller = expandFromTruncatedWithBias recent smaller 0) ∧
    (∀ recent : Counter w k,
      (32 < k → ∀ smaller, expandFromTruncated32 recent smaller = expandFromTruncated recent smaller) ∧
      (16 < k → ∀ smaller, expandFromTruncated16 recent smaller = expandFromTruncated recent smaller) ∧
      (8 < k → ∀ smaller, expandFromTruncated8 recent smaller = expandFromTruncated recent smaller)) ∧
    ∀ largest partialCounter bytes : Nat, 0 < bytes → bytes < 8 →
      ∃ w', 8 * bytes ≤ w' ∧ counterExpand largest partialCounter bytes =
        (ofInt largest : Counter 64 64).expandFromTruncated
          (ofInt partialCounter : Counter w' (8 * bytes)) := by
  refine ⟨?_, ?_, ?_, ?_⟩
  · intro recent x bias hlo hhi htop
    exact expandFromTruncatedWithBias_eq_iff hs hsk hkw hsw' recent x hlo hhi htop
  · exact expandFromTruncated_eq hs hsk hkw hsw'
  · intro recent
    exact ⟨fun hk => expandFromWord_eq 32 (by decide) hk hkw recent,
      fun hk => expandFromWord_eq 16 (by decide) hk hkw recent,
      fun hk => expandFromWord_eq 8 (by decide) hk hkw recent⟩
  · exact counterExpand_eq

/-- A time of 23 bits that lies in the past, and one that lies too far back. -/
theorem truncated_counter_expansion_23 :
    expandFromTruncatedWithBias (⟨0x1000000, by decide⟩ : Counter 64 64)
        ((⟨0xA00000, by decide⟩ : Counter 64 64).truncate : Counter 32 23) 0x200000 =
      ⟨0xA00000, by decide⟩ ∧
    expandFromTruncatedWithBias (⟨0x1000000, by decide⟩ : Counter 64 64)
        ((⟨0x9FFFFF, by decide⟩ : Counter 64 64).truncate : Counter 32 23) 0x200000 ≠
      ⟨0x9FFFFF, by decide⟩ := by
  have h := (@truncated_counter_expansion 64 64 32 23 (by decide) (by decide) le_rfl (by decide)).1
  refine ⟨(h _ _ 0x200000 (by decide) (by decide) (by decide)).mpr ⟨by decide, by decide⟩, ?_⟩
  intro heq
  exact absurd ((h _ _ 0x200000 (by decide) (by decide) (by decide)).mp heq).1 (by decide)

/-- With the largest bias the window of `0x200` is from `0x100` to `0x1ff`, but `0x100` comes back as
the recent counter itself. -/
theorem truncated_counter_expansion_largestBias :
    (⟨0x200, by decide⟩ : Counter 16 16).InWindow ⟨0x100, by decide⟩ 8 (2 ^ (8 - 1)) ∧
    expandFromTruncatedWithBias (⟨0x200, by decide⟩ : Counter 16 16)
        ((⟨0x100, by decide⟩ : Counter 16 16).truncate : Counter 8 8) (2 ^ (8 - 1)) =
      ⟨0x200, by decide⟩ := by
  refine ⟨⟨by decide, by decide⟩, by decide⟩

end Counter
end Tonk.Protocol
