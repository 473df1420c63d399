import Tonk.Lib.Serial

set_option autoImplicit false

namespace Tonk.Session
open Serial

def counterLt (w a b : Nat) : Bool := 2 ^ (w - 1) ≤ sub w a b

def counterExpand (largest part bytes : Nat) : Nat := expand 64 (8 * bytes) largest part

def kStrikeRegisterBits : Nat := 4096
def kWordCount : Nat := (kStrikeRegisterBits + 63) / 64

/-- `slidingWindow` is indexed by bit: bit `b % 64` of word `b / 64`. -/
structure StrikeRegister where
  slidingWindow : Nat → Bool
  windowBase : Nat
  windowBitRotation : Nat
  largestSequence : Nat

namespace StrikeRegister

def reset (newBase : Nat) : StrikeRegister := ⟨fun _ => false, newBase, 0, newBase⟩

def initial : StrikeRegister := reset 0

def getNextExpected (r : StrikeRegister) : Nat := wrap 64 (r.largestSequence + 1)

def isDuplicate (r : StrikeRegister) (sequence : Nat) : Bool :=
  if counterLt 64 sequence r.windowBase then true
  else
    let distance := sub 64 sequence r.windowBase
    if kStrikeRegisterBits ≤ distance then false
    else r.slidingWindow ((distance + r.windowBitRotation) % kStrikeRegisterBits)

def clearWords : Nat → Nat → (Nat → Bool) → Nat → Bool
  | 0, _, window => window
  | count + 1, word, window =>
    clearWords count (if kWordCount ≤ word + 1 then 0 else word + 1)
      fun bit => if bit / 64 = word then false else window bit

def strike (r : StrikeRegister) (distance : Nat) : StrikeRegister :=
  let bit := (distance + r.windowBitRotation) % kStrikeRegisterBits
  { r with slidingWindow := Function.update r.slidingWindow bit true }

def accept (r : StrikeRegister) (sequence : Nat) : StrikeRegister :=
  let r := if counterLt 64 r.largestSequence sequence then { r with largestSequence := sequence }
    else r
  if counterLt 64 sequence r.windowBase then r
  else
    let distance := sub 64 sequence r.windowBase
    if kStrikeRegisterBits ≤ distance then
      let slideWords := ((distance - kStrikeRegisterBits) / 64 + 1) % 2 ^ 32
      if kWordCount ≤ slideWords then
        { reset sequence with slidingWindow := Function.update (fun _ => false) 0 true }
      else
        let slideBits := slideWords * 64
        let rotation := r.windowBitRotation + slideBits
        { slidingWindow := clearWords slideWords (r.windowBitRotation / 64) r.slidingWindow
          windowBase := wrap 64 (r.windowBase + slideBits)
          windowBitRotation :=
            if kStrikeRegisterBits ≤ rotation then rotation - kStrikeRegisterBits else rotation
          largestSequence := r.largestSequence : StrikeRegister }.strike (distance - slideBits)
    else r.strike distance

def readNonce (r : StrikeRegister) (part bytes : Nat) : Nat :=
  if bytes = 0 then r.getNextExpected else counterExpand r.largestSequence part bytes

/-- The register has accepted nothing above `largest`, the unbounded value of LargestSequence:
every bit for a later nonce is clear. -/
structure Covers (r : StrikeRegister) (base largest : Nat) : Prop where
  base_eq : r.windowBase = wrap 64 base
  largest_eq : r.largestSequence = wrap 64 largest
  base_le : base ≤ largest
  largest_lt : largest < base + kStrikeRegisterBits
  rotation_lt : r.windowBitRotation < kStrikeRegisterBits
  rotation_dvd : r.windowBitRotation % 64 = 0
  clear : ∀ m, largest < m → m < base + kStrikeRegisterBits →
    r.slidingWindow ((m - base + r.windowBitRotation) % kStrikeRegisterBits) = false

theorem covers_initial : initial.Covers 0 0 where
  base_eq := rfl
  largest_eq := rfl
  base_le := Nat.le_refl 0
  largest_lt := by decide
  rotation_lt := by decide
  rotation_dvd := rfl
  clear _ _ _ := rfl

theorem sub_wrap {m base : Nat} (h : base ≤ m) (hlt : m - base < 2 ^ 64) :
    sub 64 (wrap 64 m) (wrap 64 base) = m - base := by
  have h₁ := sub_cast 64 (wrap 64 m) (wrap 64 base)
  rw [wrap_cast, wrap_cast, ← Int.sub_emod] at h₁
  zify [h]
  rw [h₁]
  omega

theorem not_lt_wrap {m base : Nat} (h : base ≤ m) (hlt : m - base < 2 ^ 63) :
    counterLt 64 (wrap 64 m) (wrap 64 base) = false := by
  rw [counterLt, sub_wrap h (by omega)]
  simp
  omega

theorem lt_wrap {l m : Nat} (h : l < m) (hlt : m - l ≤ 2 ^ 63) :
    counterLt 64 (wrap 64 l) (wrap 64 m) = true := by
  have h₁ := sub_cast 64 (wrap 64 l) (wrap 64 m)
  rw [wrap_cast, wrap_cast, ← Int.sub_emod] at h₁
  have h₂ : 2 ^ 63 ≤ sub 64 (wrap 64 l) (wrap 64 m) := by
    zify
    rw [h₁]
    omega
  simp [counterLt]
  omega

theorem Covers.isDuplicate_eq_false {r : StrikeRegister} {base largest m : Nat}
    (h : r.Covers base largest) (hm : largest < m) (hlt : m - largest < 2 ^ 62) :
    r.isDuplicate (wrap 64 m) = false := by
  have hbits : kStrikeRegisterBits = 4096 := rfl
  have hle := h.base_le
  have hl := h.largest_lt
  rw [isDuplicate, h.base_eq, not_lt_wrap (by omega) (by omega), sub_wrap (by omega) (by omega)]
  simp only [Bool.false_eq_true, if_false]
  split
  · rfl
  · exact h.clear m hm (by omega)

theorem clearWords_eq (count word : Nat) (hw : word < 64) (window : Nat → Bool) (bit : Nat)
    (hb : bit < 4096) :
    clearWords count word window bit =
      if (bit / 64 + 64 - word) % 64 < count then false else window bit := by
  induction count generalizing word window with
  | zero => simp [clearWords]
  | succ count ih =>
    have hcount : kWordCount = 64 := rfl
    by_cases hwrap : kWordCount ≤ word + 1
    · rw [clearWords, if_pos hwrap, ih 0 (by omega)]
      by_cases hword : bit / 64 = word
      · simp [hword]
      · rw [if_neg hword]
        congr 1
        apply propext
        omega
    · rw [clearWords, if_neg hwrap, ih (word + 1) (by omega)]
      by_cases hword : bit / 64 = word
      · simp [hword]
      · rw [if_neg hword]
        congr 1
        apply propext
        omega

theorem Covers.strike {r : StrikeRegister} {base largest m : Nat} (h : r.Covers base largest)
    (hbase : base ≤ m) (hm : m ≤ largest) : (r.strike (m - base)).Covers base largest := by
  have hbits : kStrikeRegisterBits = 4096 := rfl
  have hl := h.largest_lt
  refine ⟨h.base_eq, h.largest_eq, h.base_le, h.largest_lt, h.rotation_lt, h.rotation_dvd, ?_⟩
  intro n hn hlt
  have hne : (n - base + r.windowBitRotation) % kStrikeRegisterBits ≠
      (m - base + r.windowBitRotation) % kStrikeRegisterBits := by
    rw [hbits] at *
    omega
  show Function.update r.slidingWindow _ true
    ((n - base + r.windowBitRotation) % kStrikeRegisterBits) = false
  rw [Function.update_of_ne hne]
  exact h.clear n hn hlt

theorem Covers.raise {r : StrikeRegister} {base largest m : Nat} (h : r.Covers base largest)
    (hm : largest ≤ m) (hlt : m < base + kStrikeRegisterBits) :
    { r with largestSequence := wrap 64 m }.Covers base m where
  base_eq := h.base_eq
  largest_eq := rfl
  base_le := Nat.le_trans h.base_le hm
  largest_lt := hlt
  rotation_lt := h.rotation_lt
  rotation_dvd := h.rotation_dvd
  clear n hn hn' := h.clear n (by omega) hn'

theorem Covers.slide {r : StrikeRegister} {base largest m slideWords : Nat}
    (h : r.Covers base largest) (hm : base + kStrikeRegisterBits ≤ m)
    (hwords : slideWords = (m - base - kStrikeRegisterBits) / 64 + 1)
    (hlt : slideWords < kWordCount) :
    (StrikeRegister.mk (clearWords slideWords (r.windowBitRotation / 64) r.slidingWindow)
      (wrap 64 (wrap 64 base + (slideWords * 64 : Nat)))
      (if kStrikeRegisterBits ≤ r.windowBitRotation + slideWords * 64 then
        r.windowBitRotation + slideWords * 64 - kStrikeRegisterBits
        else r.windowBitRotation + slideWords * 64) (wrap 64 m)).Covers
      (base + slideWords * 64) m := by
  have hbits : kStrikeRegisterBits = 4096 := rfl
  have hcount : kWordCount = 64 := rfl
  have hl := h.largest_lt
  have hrot := h.rotation_lt
  have hdvd := h.rotation_dvd
  generalize hr : (if kStrikeRegisterBits ≤ r.windowBitRotation + slideWords * 64 then
        r.windowBitRotation + slideWords * 64 - kStrikeRegisterBits
        else r.windowBitRotation + slideWords * 64) = rotation
  have hrotation : rotation = (r.windowBitRotation + slideWords * 64) % 4096 := by
    rw [← hr]
    split <;> omega
  have hlt₁ : rotation < kStrikeRegisterBits := by omega
  have hdvd₁ : rotation % 64 = 0 := by omega
  refine ⟨?_, rfl, by omega, by omega, hlt₁, hdvd₁, ?_⟩
  · rw [wrap_eq_iff]
    push_cast
    exact (wrap_modEq 64 base).add_right _
  · intro n hn hlt'
    show clearWords slideWords (r.windowBitRotation / 64) r.slidingWindow
      ((n - (base + slideWords * 64) + rotation) % kStrikeRegisterBits) = false
    have hbit : (n - (base + slideWords * 64) + rotation) % kStrikeRegisterBits =
        (n - base + r.windowBitRotation) % 4096 := by
      show (n - (base + slideWords * 64) + rotation) % 4096 = _
      omega
    rw [hbit, clearWords_eq _ _ (by omega) _ _ (by omega)]
    -- bits from the old window's end on were just cleared
    rw [if_pos]
    omega

theorem Covers.accept {r : StrikeRegister} {base largest m : Nat} (h : r.Covers base largest)
    (hm : largest < m) (hlt : m - largest < 2 ^ 31) :
    ∃ base', (r.accept (wrap 64 m)).Covers base' m := by
  have hbits : kStrikeRegisterBits = 4096 := rfl
  have hle := h.base_le
  have hl := h.largest_lt
  have hnew : counterLt 64 r.largestSequence (wrap 64 m) = true := by
    rw [h.largest_eq]
    exact lt_wrap hm (by omega)
  have hold : counterLt 64 (wrap 64 m) r.windowBase = false := by
    rw [h.base_eq]
    exact not_lt_wrap (by omega) (by omega)
  have hdist : sub 64 (wrap 64 m) r.windowBase = m - base := by
    rw [h.base_eq]
    exact sub_wrap (by omega) (by omega)
  simp only [StrikeRegister.accept, hnew, if_true, hold, Bool.false_eq_true, if_false, hdist]
  by_cases hfar : kStrikeRegisterBits ≤ m - base
  · have hwords : ((m - base - kStrikeRegisterBits) / 64 + 1) % 2 ^ 32 =
        (m - base - kStrikeRegisterBits) / 64 + 1 := by
      omega
    rw [if_pos hfar, hwords]
    by_cases hall : kWordCount ≤ (m - base - kStrikeRegisterBits) / 64 + 1
    · rw [if_pos hall]
      refine ⟨m, rfl, rfl, Nat.le_refl m, by omega, show 0 < kStrikeRegisterBits by decide, rfl, ?_⟩
      intro n hn hn'
      have hne : (n - m + 0) % 4096 ≠ 0 := by omega
      show Function.update (fun _ => false) 0 true ((n - m + 0) % 4096) = false
      rw [Function.update_of_ne hne]
    · rw [if_neg hall, h.base_eq]
      have hcover := h.slide (by omega) rfl (Nat.not_le.mp hall)
      refine ⟨base + ((m - base - kStrikeRegisterBits) / 64 + 1) * 64, ?_⟩
      have hstrike := hcover.strike (m := m) (by omega) (Nat.le_refl m)
      have hsub : m - (base + ((m - base - kStrikeRegisterBits) / 64 + 1) * 64) =
          m - base - ((m - base - kStrikeRegisterBits) / 64 + 1) * 64 := by omega
      rw [hsub] at hstrike
      exact hstrike
  · rw [if_neg hfar]
    exact ⟨base, (h.raise (by omega) (by omega)).strike (by omega) (Nat.le_refl m)⟩

theorem Covers.accept_old {r : StrikeRegister} {base largest m : Nat} (h : r.Covers base largest)
    (hbase : base ≤ m) (hm : m ≤ largest) : (r.accept (wrap 64 m)).Covers base largest := by
  have hbits : kStrikeRegisterBits = 4096 := rfl
  have hl := h.largest_lt
  have hnew : counterLt 64 r.largestSequence (wrap 64 m) = false := by
    rw [h.largest_eq]
    exact not_lt_wrap hm (by omega)
  have hold : counterLt 64 (wrap 64 m) r.windowBase = false := by
    rw [h.base_eq]
    exact not_lt_wrap hbase (by omega)
  have hdist : sub 64 (wrap 64 m) r.windowBase = m - base := by
    rw [h.base_eq]
    exact sub_wrap hbase (by omega)
  simp only [StrikeRegister.accept, hnew, Bool.false_eq_true, if_false, hold, hdist]
  rw [if_neg (by omega)]
  exact h.strike hbase hm

/-- A field of 1 to 3 bytes is expanded to the nonce it was cut from if that is less than half the
field's range above the largest nonce accepted. -/
theorem Covers.readNonce_bytes {r : StrikeRegister} {base largest m bytes : Nat}
    (h : r.Covers base largest) (hb : 0 < bytes) (hb' : bytes ≤ 3) (hm : largest ≤ m)
    (hlt : m - largest < 2 ^ (8 * bytes - 1)) :
    r.readNonce (wrap (8 * bytes) m) bytes = wrap 64 m := by
  rw [readNonce, if_neg (by omega), counterExpand, h.largest_eq]
  refine expand_wrap (by omega) (by omega) ?_ ?_
  · have : (0 : Int) < 2 ^ (8 * bytes - 1) := by positivity
    omega
  · zify [hm] at hlt
    exact hlt

theorem Covers.readNonce_omitted {r : StrikeRegister} {base largest : Nat}
    (h : r.Covers base largest) (part : Nat) :
    r.readNonce part 0 = wrap 64 (largest + 1 : Nat) := by
  rw [readNonce, if_pos rfl, getNextExpected, h.largest_eq, wrap_eq_iff]
  push_cast
  exact (wrap_modEq 64 largest).add_right 1

end StrikeRegister
end Tonk.Session
