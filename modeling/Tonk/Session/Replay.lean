import Tonk.Lib.Run
import Tonk.Session.StrikeRegister

set_option autoImplicit false

namespace Tonk.Session
open Serial Transition

/-- The register with the nonces that were accepted, newest first. -/
structure AntiReplay where
  register : StrikeRegister
  accepted : List Nat

namespace AntiReplay

def initial : AntiReplay := ⟨.initial, []⟩

def process (s : AntiReplay) (nonce : Nat) : AntiReplay :=
  if s.register.isDuplicate nonce then s else ⟨s.register.accept nonce, nonce :: s.accepted⟩

def Steps (s : AntiReplay) (nonce : Nat) (s' : AntiReplay) : Prop :=
  nonce < 2 ^ 56 ∧ s.process nonce = s'

/-- The number of words to slide is cut to 32 bits: no nonce that is accepted may lie where the cut
leaves less than a whole window. -/
def Slides (s : AntiReplay) (nonce : Nat) : Prop :=
  let distance := nonce - s.register.windowBase
  s.register.isDuplicate nonce = false →
    distance < 2 ^ 38 ∨ distance % 2 ^ 38 < 4032 ∨ 8128 ≤ distance % 2 ^ 38

structure Recorded (r : StrikeRegister) (accepted : List Nat) : Prop where
  base_lt : r.windowBase < 2 ^ 57
  rotation_lt : r.windowBitRotation < kStrikeRegisterBits
  rotation_dvd : r.windowBitRotation % 64 = 0
  bits : ∀ m, r.windowBase ≤ m → m < r.windowBase + kStrikeRegisterBits →
    r.slidingWindow ((m - r.windowBase + r.windowBitRotation) % kStrikeRegisterBits) =
      decide (m ∈ accepted)
  accepted_lt : ∀ m ∈ accepted, m < r.windowBase + kStrikeRegisterBits

theorem recorded_initial : Recorded .initial [] where
  base_lt := by decide
  rotation_lt := by decide
  rotation_dvd := rfl
  bits _ _ _ := rfl
  accepted_lt _ h := absurd h (List.not_mem_nil)

theorem wrap_self {m : Nat} (h : m < 2 ^ 64) : wrap 64 m = m := by
  rw [wrap_natCast, Nat.mod_eq_of_lt h]

theorem Recorded.isDuplicate_iff {r : StrikeRegister} {accepted : List Nat}
    (h : Recorded r accepted) {m : Nat} (hm : m < 2 ^ 56) :
    r.isDuplicate m = true ↔ m < r.windowBase ∨ m ∈ accepted := by
  have hbits : kStrikeRegisterBits = 4096 := rfl
  have hbase := h.base_lt
  unfold StrikeRegister.isDuplicate
  by_cases hlt : m < r.windowBase
  · have hbefore := StrikeRegister.lt_wrap hlt (by omega)
    rw [wrap_self (by omega), wrap_self (by omega)] at hbefore
    simp [hbefore, hlt]
  · have hnot := StrikeRegister.not_lt_wrap (Nat.le_of_not_lt hlt) (by omega)
    have hdistance := StrikeRegister.sub_wrap (Nat.le_of_not_lt hlt) (by omega)
    rw [wrap_self (by omega), wrap_self (by omega)] at hnot hdistance
    simp only [hnot, hdistance, Bool.false_eq_true, if_false, hlt, false_or]
    split
    · next hfar =>
      simp only [Bool.false_eq_true, false_iff]
      intro hmem
      have := h.accepted_lt m hmem
      omega
    · next hnear =>
      rw [h.bits m (by omega) (by omega), decide_eq_true_eq]

theorem Recorded.strike {r : StrikeRegister} {accepted : List Nat} (h : Recorded r accepted)
    {m : Nat} (hbase : r.windowBase ≤ m) (hm : m < r.windowBase + kStrikeRegisterBits) :
    Recorded (r.strike (m - r.windowBase)) (m :: accepted) := by
  have hbits : kStrikeRegisterBits = 4096 := rfl
  refine ⟨h.base_lt, h.rotation_lt, h.rotation_dvd, fun n hn hlt => ?_, fun n hn => ?_⟩
  · show Function.update r.slidingWindow _ true
      ((n - r.windowBase + r.windowBitRotation) % kStrikeRegisterBits) = _
    by_cases heq : n = m
    · subst heq
      simp
    · have hne : (n - r.windowBase + r.windowBitRotation) % kStrikeRegisterBits ≠
          (m - r.windowBase + r.windowBitRotation) % kStrikeRegisterBits := by
        have hn' : r.windowBase ≤ n := hn
        have hlt' : n < r.windowBase + kStrikeRegisterBits := hlt
        rw [hbits] at hlt' hm ⊢
        omega
      rw [Function.update_of_ne hne]
      simpa [heq] using h.bits n hn hlt
  · rcases List.mem_cons.mp hn with rfl | hn
    · exact hm
    · exact h.accepted_lt n hn

theorem Recorded.slide {r : StrikeRegister} {accepted : List Nat} (h : Recorded r accepted)
    (slideWords largest : Nat) (hlt : slideWords < kWordCount)
    (hbase : r.windowBase + slideWords * 64 < 2 ^ 57) :
    Recorded ⟨StrikeRegister.clearWords slideWords (r.windowBitRotation / 64) r.slidingWindow,
      r.windowBase + slideWords * 64,
      if kStrikeRegisterBits ≤ r.windowBitRotation + slideWords * 64 then
        r.windowBitRotation + slideWords * 64 - kStrikeRegisterBits
        else r.windowBitRotation + slideWords * 64, largest⟩ accepted := by
  have hbits : kStrikeRegisterBits = 4096 := rfl
  have hcount : kWordCount = 64 := rfl
  have hrot := h.rotation_lt
  have hdvd := h.rotation_dvd
  generalize hr : (if kStrikeRegisterBits ≤ r.windowBitRotation + slideWords * 64 then
        r.windowBitRotation + slideWords * 64 - kStrikeRegisterBits
        else r.windowBitRotation + slideWords * 64) = rotation
  have hrotation : rotation = (r.windowBitRotation + slideWords * 64) % 4096 := by
    rw [← hr]
    split <;> omega
  refine ⟨hbase, by simp only; omega, by simp only; omega, fun n hn hn' => ?_, fun n hn => ?_⟩
  · simp only at hn hn' ⊢
    have hbit : (n - (r.windowBase + slideWords * 64) + rotation) % kStrikeRegisterBits =
        (n - r.windowBase + r.windowBitRotation) % 4096 := by
      rw [hbits]
      omega
    rw [hbit, StrikeRegister.clearWords_eq _ _ (by omega) _ _ (by omega)]
    by_cases hold : n < r.windowBase + kStrikeRegisterBits
    · rw [if_neg (by omega)]
      exact h.bits n (by omega) hold
    · rw [if_pos (by omega)]
      symm
      rw [decide_eq_false_iff_not]
      intro hmem
      have := h.accepted_lt n hmem
      omega
  · have := h.accepted_lt n hn
    simp only
    omega

theorem Recorded.largest {r : StrikeRegister} {accepted : List Nat} (h : Recorded r accepted)
    (sequence : Nat) : Recorded { r with largestSequence := sequence } accepted :=
  ⟨h.base_lt, h.rotation_lt, h.rotation_dvd, h.bits, h.accepted_lt⟩

theorem Recorded.accept {r : StrikeRegister} {accepted : List Nat} (h : Recorded r accepted)
    {m : Nat} (hm : m < 2 ^ 56) (hbase : r.windowBase ≤ m)
    (hslides : m - r.windowBase < 2 ^ 38 ∨ (m - r.windowBase) % 2 ^ 38 < 4032 ∨
      8128 ≤ (m - r.windowBase) % 2 ^ 38) :
    Recorded (r.accept m) (m :: accepted) := by
  have hbits : kStrikeRegisterBits = 4096 := rfl
  have hcount : kWordCount = 64 := rfl
  have hlt := h.base_lt
  obtain ⟨largest, hlargest⟩ : ∃ largest, (if counterLt 64 r.largestSequence m then
      { r with largestSequence := m } else r) = { r with largestSequence := largest } := by
    split
    · exact ⟨m, rfl⟩
    · exact ⟨r.largestSequence, rfl⟩
  have h₁ := h.largest largest
  have hnot := StrikeRegister.not_lt_wrap hbase (by omega)
  have hdistance := StrikeRegister.sub_wrap hbase (by omega)
  rw [wrap_self (by omega), wrap_self (by omega)] at hnot hdistance
  unfold StrikeRegister.accept
  simp only [hlargest, hnot, hdistance, Bool.false_eq_true, if_false]
  by_cases hfar : kStrikeRegisterBits ≤ m - r.windowBase
  · rw [if_pos hfar]
    by_cases hall : kWordCount ≤ ((m - r.windowBase - kStrikeRegisterBits) / 64 + 1) % 2 ^ 32
    · rw [if_pos hall]
      refine ⟨by show m < 2 ^ 57; omega, by show 0 < kStrikeRegisterBits; decide, rfl,
        fun n hn hn' => ?_, fun n hn => ?_⟩
      · have hn₁ : m ≤ n := hn
        have hn₂ : n < m + 4096 := hn'
        show Function.update (fun _ => false) 0 true ((n - m + 0) % 4096) = _
        by_cases heq : n = m
        · subst heq
          simp
        · rw [Function.update_of_ne (by omega)]
          symm
          rw [decide_eq_false_iff_not, List.mem_cons, not_or]
          refine ⟨heq, fun hmem => ?_⟩
          have := h.accepted_lt n hmem
          omega
      · show n < m + kStrikeRegisterBits
        rcases List.mem_cons.mp hn with rfl | hn
        · omega
        · have := h.accepted_lt n hn
          omega
    · rw [if_neg hall]
      -- the cut has not touched the number of words: else the nonce lies where it must not
      have hwords : ((m - r.windowBase - kStrikeRegisterBits) / 64 + 1) % 2 ^ 32 =
          (m - r.windowBase - kStrikeRegisterBits) / 64 + 1 := by
        rw [hbits] at hfar hall ⊢
        rw [hcount] at hall
        omega
      rw [hwords] at hall ⊢
      have hslid := h₁.slide ((m - r.windowBase - kStrikeRegisterBits) / 64 + 1) largest
        (by omega) (by simp only; omega)
      have hstruck := hslid.strike (m := m) (by simp only; omega) (by simp only; omega)
      have hsub : m - (r.windowBase + ((m - r.windowBase - kStrikeRegisterBits) / 64 + 1) * 64) =
          m - r.windowBase - ((m - r.windowBase - kStrikeRegisterBits) / 64 + 1) * 64 := by omega
      simp only at hstruck
      rw [hsub] at hstruck
      have hwrap : wrap 64 ((r.windowBase : Int) +
          ((((m - r.windowBase - kStrikeRegisterBits) / 64 + 1) * 64 : Nat) : Int)) =
          r.windowBase + ((m - r.windowBase - kStrikeRegisterBits) / 64 + 1) * 64 := by
        rw [← Nat.cast_add]
        exact wrap_self (by omega)
      rw [hwrap]
      exact hstruck
  · rw [if_neg hfar]
    exact h₁.strike hbase (by simp only; omega)

/-- In every run in which no jump is cut short, each nonce is accepted at most once, and the
duplicate test is true exactly of the nonces in front of the window and of those accepted. -/
theorem nonces_accepted_once (nonces : List Nat) (s : AntiReplay)
    (hrun : Run (Restrict Slides Steps) initial nonces s) :
    s.accepted.Nodup ∧ ∀ nonce, nonce < 2 ^ 56 →
      (s.register.isDuplicate nonce = true ↔
        nonce < s.register.windowBase ∨ nonce ∈ s.accepted) := by
  obtain ⟨hnodup, hrecorded⟩ : s.accepted.Nodup ∧ Recorded s.register s.accepted := by
    refine hrun.invariant (P := fun s => s.accepted.Nodup ∧ Recorded s.register s.accepted)
      ⟨List.nodup_nil, recorded_initial⟩ fun t nonce u ⟨hnodup, h⟩ ⟨hslides, hlt, hstep⟩ => ?_
    subst hstep
    unfold process
    split
    · exact ⟨hnodup, h⟩
    · next hnew =>
      have hfresh := hnew
      rw [h.isDuplicate_iff hlt, not_or] at hfresh
      exact ⟨List.nodup_cons.mpr ⟨hfresh.2, hnodup⟩,
        h.accept hlt (Nat.le_of_not_lt hfresh.1) (hslides (by simpa using hnew))⟩
  exact ⟨hnodup, fun nonce hlt => hrecorded.isDuplicate_iff hlt⟩

theorem nonces_accepted_once_overtaken : ∃ s,
    Run (Restrict Slides Steps) initial [1, 0, 5000, 1, 4999] s ∧ s.accepted = [4999, 5000, 0, 1] ∧
      s.accepted.Nodup := by
  obtain ⟨s, hrun, haccepted⟩ : ∃ s,
      Run (Restrict Slides Steps) initial [1, 0, 5000, 1, 4999] s ∧
        s.accepted = [4999, 5000, 0, 1] :=
    ⟨_, .cons ⟨fun _ => .inl (by decide), by decide, rfl⟩ <|
      .cons ⟨fun _ => .inl (by decide), by decide, rfl⟩ <|
      .cons ⟨fun _ => .inl (by decide), by decide, rfl⟩ <|
      .cons ⟨fun _ => .inl (by decide), by decide, rfl⟩ <|
      .cons ⟨fun _ => .inl (by decide), by decide, rfl⟩ (.nil _), by decide⟩
  exact ⟨s, hrun, haccepted, (nonces_accepted_once _ s hrun).1⟩

/-- A jump of 2^38 + 4096 is cut to one word: the nonce is never struck, and accepted again. -/
theorem far_nonce_accepted_twice : ∃ s,
    Run Steps initial [2 ^ 38 + 4096, 2 ^ 38 + 4096] s ∧
      s.accepted = [2 ^ 38 + 4096, 2 ^ 38 + 4096] :=
  ⟨_, .cons ⟨by decide, rfl⟩ <| .cons ⟨by decide, rfl⟩ (.nil _), by decide⟩

end AntiReplay
end Tonk.Session
