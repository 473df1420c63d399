import Tonk.Session.QueueingDelay

/-!
`ReceiverBandwidthControl::UpdateCC`: the direction it takes, and the step by which it changes the
application's rate. What it computes in floating point is a parameter.
-/

set_option autoImplicit false

namespace Tonk.Session
open Siamese Serial

structure RateScale where
  reduced : Nat → Nat
  raised : Nat → Nat

inductive Decision where
  | pushUpdateInAck
  | noChange
  deriving DecidableEq

structure RateControl where
  control : ReceiverBandwidthControl
  smoothedGoodputBPS : Nat
  /-- SmoothedPLR exceeds TONKCC_CONGESTION_PLR. -/
  highPLR : Bool
  recentMaxBW : WindowedMinMax Nat
  appBPS : Nat
  inSlowStart : Bool
  momentum : Int
  lastTickUsec : Nat
  owd_lt : control.measurement.smoothedMinTripUsec < 2 ^ 32

namespace RateControl

def updateMomentum (s : RateControl) : Bool × Int :=
  if s.highPLR then (decide (0 ≤ s.momentum), -1)
  else if kDetectQueueDelayUsec < s.control.queueDelayUsec then (decide (0 ≤ s.momentum), -1)
  else (decide (s.momentum ≤ 0), 1)

def tickIntervalUsec (s : RateControl) (nowUsec : Nat) : Nat :=
  let tickIntervalUsec := sub 64 nowUsec s.lastTickUsec % 2 ^ 32
  if kSendTimerTickIntervalUsec * 8 < tickIntervalUsec then kSendTimerTickIntervalUsec * 8
  else tickIntervalUsec

def slowStart (scale : RateScale) (s : RateControl) (momentum : Int) : Nat :=
  let maxBW := s.recentMaxBW.getBest
  if momentum < 0 then scale.reduced maxBW
  else if s.appBPS * 3 % 2 ^ 32 / 4 ≤ maxBW then s.appBPS * 2 % 2 ^ 32
  else s.appBPS

def bpsDelta (s : RateControl) (nowUsec : Nat) : Nat :=
  let rate := s.tickIntervalUsec nowUsec * 1300 % 2 ^ 32
  let rate := rate * s.smoothedGoodputBPS % 2 ^ 64
  rate / (kSendTimerTickIntervalUsec * 2000000) % 2 ^ 32

def adjust (scale : RateScale) (s : RateControl) (updated : Bool) (momentum : Int)
    (nowUsec : Nat) : Nat :=
  let owdUsec := s.control.measurement.smoothedMinTripUsec
  let (appBPS, bpsDelta) :=
    if 100000 < owdUsec then
      (if updated then if momentum < 0 then scale.reduced s.appBPS else scale.raised s.appBPS
        else s.appBPS,
        s.bpsDelta nowUsec * 100000 % 2 ^ 32 / owdUsec)
    else (s.appBPS, s.bpsDelta nowUsec)
  if momentum < 0 then
    if bpsDelta * 2 % 2 ^ 32 < appBPS then sub 32 appBPS (bpsDelta * 2 % 2 ^ 32) else appBPS
  else if appBPS * 3 % 2 ^ 32 / 4 ≤ s.recentMaxBW.getBest then (appBPS + bpsDelta) % 2 ^ 32
  else appBPS

def updateCC (scale : RateScale) (s : RateControl) (nowUsec smoothedSendDelayUsec : Nat) :
    RateControl × Decision :=
  let (updated, momentum) := s.updateMomentum
  let appBPS := if s.inSlowStart then s.slowStart scale momentum
    else s.adjust scale updated momentum nowUsec
  ({ s with
      control := s.control.updateCC smoothedSendDelayUsec
      momentum := momentum
      lastTickUsec := nowUsec
      inSlowStart := if s.inSlowStart ∧ momentum < 0 then false else s.inSlowStart
      appBPS := appBPS }, if updated then .pushUpdateInAck else .noChange)

def Congested (s : RateControl) : Prop :=
  s.highPLR = true ∨ kDetectQueueDelayUsec < s.control.queueDelayUsec

instance (s : RateControl) : Decidable s.Congested := inferInstanceAs (Decidable (_ ∨ _))

def rate (s : RateControl) (nowUsec : Nat) : Nat :=
  s.tickIntervalUsec nowUsec * 1300 * s.smoothedGoodputBPS /
    (kSendTimerTickIntervalUsec * 2000000)

def step (s : RateControl) (nowUsec : Nat) : Nat :=
  let owdUsec := s.control.measurement.smoothedMinTripUsec
  if 100000 < owdUsec then s.rate nowUsec * 100000 / owdUsec else s.rate nowUsec

def change (s : RateControl) (nowUsec : Nat) : Int :=
  if s.Congested then if 2 * s.step nowUsec < s.appBPS then -(2 * s.step nowUsec : Int) else 0
  else if s.appBPS * 3 / 4 ≤ s.recentMaxBW.getBest then s.step nowUsec
  else 0

def wrappedStep (s : RateControl) (nowUsec : Nat) : Nat :=
  s.rate nowUsec * 100000 % 2 ^ 32 / s.control.measurement.smoothedMinTripUsec

/-- The product with 100000 fits, or no step is made of either size. -/
def Fits (s : RateControl) (nowUsec : Nat) : Prop :=
  s.control.measurement.smoothedMinTripUsec ≤ 100000 ∨ s.rate nowUsec * 100000 < 2 ^ 32 ∨
    (¬s.Congested ∧ s.recentMaxBW.getBest < s.appBPS * 3 / 4) ∨
    (s.Congested ∧ s.appBPS ≤ 2 * s.step nowUsec ∧
      (s.appBPS ≤ 2 * s.wrappedStep nowUsec ∨ s.wrappedStep nowUsec = 0))

variable {s : RateControl} {nowUsec : Nat}

theorem updateMomentum_snd (s : RateControl) :
    s.updateMomentum.2 < 0 ↔ s.Congested := by
  unfold updateMomentum Congested
  split
  · next h => simp [h]
  · next h =>
    split
    · next hdelay => simp [hdelay]
    · next hdelay => simp [h, hdelay]

theorem tickIntervalUsec_le (s : RateControl) (nowUsec : Nat) :
    s.tickIntervalUsec nowUsec ≤ 40000 := by
  unfold tickIntervalUsec kSendTimerTickIntervalUsec
  dsimp only
  split <;> omega

theorem rate_lt (nowUsec : Nat) (hgoodput : s.smoothedGoodputBPS < 10 ^ 9) : s.rate nowUsec < 5200000 := by
  have htick := tickIntervalUsec_le s nowUsec
  have hproduct : s.tickIntervalUsec nowUsec * 1300 * s.smoothedGoodputBPS ≤
      40000 * 1300 * (10 ^ 9 - 1) :=
    Nat.mul_le_mul (Nat.mul_le_mul_right _ htick) (by omega)
  unfold rate kSendTimerTickIntervalUsec
  omega

theorem bpsDelta_eq (hgoodput : s.smoothedGoodputBPS < 10 ^ 9) :
    s.bpsDelta nowUsec = s.rate nowUsec := by
  have htick := tickIntervalUsec_le s nowUsec
  have hproduct : s.tickIntervalUsec nowUsec * 1300 * s.smoothedGoodputBPS ≤
      40000 * 1300 * (10 ^ 9 - 1) :=
    Nat.mul_le_mul (Nat.mul_le_mul_right _ htick) (by omega)
  have hrate := rate_lt nowUsec hgoodput
  unfold bpsDelta
  dsimp only
  rw [Nat.mod_eq_of_lt (show s.tickIntervalUsec nowUsec * 1300 < 2 ^ 32 by omega),
    Nat.mod_eq_of_lt (show s.tickIntervalUsec nowUsec * 1300 * s.smoothedGoodputBPS < 2 ^ 64 by omega)]
  exact Nat.mod_eq_of_lt (by unfold rate at hrate; omega)

theorem wrappedStep_le (s : RateControl) (nowUsec : Nat) :
    s.wrappedStep nowUsec ≤
      s.rate nowUsec * 100000 / s.control.measurement.smoothedMinTripUsec :=
  Nat.div_le_div_right (Nat.mod_le _ _)

theorem wrappedStep_lt (howd : 0 < s.control.measurement.smoothedMinTripUsec)
    (hwrap : 2 ^ 32 ≤ s.rate nowUsec * 100000) :
    s.wrappedStep nowUsec <
      s.rate nowUsec * 100000 / s.control.measurement.smoothedMinTripUsec := by
  have hlt := s.owd_lt
  unfold wrappedStep
  generalize s.control.measurement.smoothedMinTripUsec = owdUsec at *
  generalize s.rate nowUsec * 100000 = product at *
  have hmod : product % 2 ^ 32 + owdUsec ≤ product := by omega
  calc product % 2 ^ 32 / owdUsec < product % 2 ^ 32 / owdUsec + 1 := Nat.lt_succ_self _
    _ = (product % 2 ^ 32 + owdUsec) / owdUsec := (Nat.add_div_right _ howd).symm
    _ ≤ product / owdUsec := Nat.div_le_div_right hmod

def scaledStep (s : RateControl) (nowUsec : Nat) : Nat :=
  if 100000 < s.control.measurement.smoothedMinTripUsec then s.wrappedStep nowUsec
  else s.rate nowUsec

theorem scaledStep_lt (nowUsec : Nat) (hgoodput : s.smoothedGoodputBPS < 10 ^ 9) :
    s.scaledStep nowUsec < 5200000 := by
  have hrate := rate_lt nowUsec hgoodput
  unfold scaledStep
  split
  · next howd =>
    have hwrapped := wrappedStep_le s nowUsec
    have hless : s.rate nowUsec * 100000 / s.control.measurement.smoothedMinTripUsec ≤
        s.rate nowUsec :=
      Nat.div_le_of_le_mul (by rw [Nat.mul_comm]; exact Nat.mul_le_mul_right _ (by omega))
    omega
  · exact hrate

theorem adjust_eq (scale : RateScale) (momentum : Int) (hgoodput : s.smoothedGoodputBPS < 10 ^ 9)
    (happ : s.appBPS < 10 ^ 9) :
    (s.adjust scale false momentum nowUsec : Int) = s.appBPS +
      if momentum < 0 then
        if 2 * s.scaledStep nowUsec < s.appBPS then -(2 * s.scaledStep nowUsec : Int) else 0
      else if s.appBPS * 3 / 4 ≤ s.recentMaxBW.getBest then (s.scaledStep nowUsec : Int) else 0 := by
  have hstep := scaledStep_lt nowUsec hgoodput
  have hpair : (if 100000 < s.control.measurement.smoothedMinTripUsec then
      (s.appBPS, s.bpsDelta nowUsec * 100000 % 2 ^ 32 / s.control.measurement.smoothedMinTripUsec)
      else (s.appBPS, s.bpsDelta nowUsec)) = (s.appBPS, s.scaledStep nowUsec) := by
    rw [bpsDelta_eq hgoodput, scaledStep]
    split <;> rfl
  have hdouble : s.scaledStep nowUsec * 2 % 2 ^ 32 = 2 * s.scaledStep nowUsec := by omega
  have htriple : s.appBPS * 3 % 2 ^ 32 = s.appBPS * 3 := by omega
  simp only [adjust, Bool.false_eq_true, if_false, hpair, hdouble, htriple]
  by_cases hmomentum : momentum < 0
  · rw [if_pos hmomentum, if_pos hmomentum]
    by_cases hless : 2 * s.scaledStep nowUsec < s.appBPS
    · rw [if_pos hless, if_pos hless, sub_cast]
      push_cast
      omega
    · rw [if_neg hless, if_neg hless, Int.add_zero]
  · rw [if_neg hmomentum, if_neg hmomentum]
    by_cases hreached : s.appBPS * 3 / 4 ≤ s.recentMaxBW.getBest
    · rw [if_pos hreached, if_pos hreached]
      omega
    · rw [if_neg hreached, if_neg hreached, Int.add_zero]

theorem scaledStep_eq_iff (s : RateControl) (nowUsec : Nat) : s.scaledStep nowUsec = s.step nowUsec ↔
    s.control.measurement.smoothedMinTripUsec ≤ 100000 ∨ s.rate nowUsec * 100000 < 2 ^ 32 := by
  unfold scaledStep step
  by_cases howd : 100000 < s.control.measurement.smoothedMinTripUsec
  · simp only [if_pos howd]
    constructor
    · intro heq
      refine .inr (Nat.not_le.1 fun hwrap => ?_)
      have hlt := wrappedStep_lt (by omega) hwrap
      omega
    · rintro (hle | hfits)
      · omega
      · rw [wrappedStep, Nat.mod_eq_of_lt hfits]
  · simp only [if_neg howd, true_iff]
    exact .inl (by omega)

/-- Outside slow start, where the direction is kept. -/
theorem updateCC_change_iff (scale : RateScale) (smoothedSendDelayUsec : Nat)
    (hslow : s.inSlowStart = false) (hgoodput : s.smoothedGoodputBPS < 10 ^ 9)
    (happ : s.appBPS < 10 ^ 9)
    (hkept : (s.updateCC scale nowUsec smoothedSendDelayUsec).2 = .noChange) :
    ((s.updateCC scale nowUsec smoothedSendDelayUsec).1.appBPS : Int) =
      s.appBPS + s.change nowUsec ↔ s.Fits nowUsec := by
  have hupdated : s.updateMomentum.1 = false := by
    simpa [updateCC] using hkept
  have hafter : (s.updateCC scale nowUsec smoothedSendDelayUsec).1.appBPS =
      s.adjust scale false s.updateMomentum.2 nowUsec := by
    rw [← hupdated]
    simp [updateCC, hslow]
  rw [hafter, adjust_eq scale _ hgoodput happ, change]
  simp only [updateMomentum_snd]
  have hiff := scaledStep_eq_iff s nowUsec
  by_cases howd : 100000 < s.control.measurement.smoothedMinTripUsec
  · have hle : s.scaledStep nowUsec ≤ s.step nowUsec := by
      rw [scaledStep, step, if_pos howd]
      simpa only [if_pos howd] using wrappedStep_le s nowUsec
    have hwrapped : s.wrappedStep nowUsec = s.scaledStep nowUsec := by rw [scaledStep, if_pos howd]
    have hproduct : s.rate nowUsec * 100000 < 2 ^ 32 ↔ s.scaledStep nowUsec = s.step nowUsec := by
      rw [hiff]
      exact ⟨.inr, fun h => h.resolve_left (by omega)⟩
    rw [Fits, hwrapped, hproduct]
    by_cases hcongested : s.Congested
    · simp only [hcongested, if_true, not_true_eq_false, false_and, true_and, false_or]
      split_ifs <;> omega
    · simp only [hcongested, if_false, not_false_eq_true, true_and, false_and, or_false]
      split_ifs <;> omega
  · rw [hiff.2 (.inl (by omega))]
    exact iff_of_true rfl (.inl (by omega))

/-- One tick after the last, at a one-way delay of 200 ms, without congestion. -/
def farLink (smoothedGoodputBPS : Nat) : RateControl where
  control := { ReceiverBandwidthControl.initial with measurement := ⟨0, 0, 200000, 0⟩ }
  smoothedGoodputBPS := smoothedGoodputBPS
  highPLR := false
  recentMaxBW := .reset ⟨smoothedGoodputBPS, 0⟩
  appBPS := smoothedGoodputBPS
  inSlowStart := false
  momentum := 1
  lastTickUsec := 0
  owd_lt := by decide

theorem farLink_moderate_change : (((farLink 50000000).updateCC ⟨id, id⟩ 5000 0).1.appBPS : Int) =
    50000000 + (farLink 50000000).change 5000 :=
  (updateCC_change_iff _ 0 rfl (by decide) (by decide) (by decide)).2 (.inr (.inl (by decide)))

/-- 100 MB/s: the rate is raised by 11025 and not by 32500. -/
theorem farLink_fast_change : ¬∀ (s : RateControl) (scale : RateScale) (nowUsec delayUsec : Nat),
    s.inSlowStart = false → s.smoothedGoodputBPS < 10 ^ 9 → s.appBPS < 10 ^ 9 →
    (s.updateCC scale nowUsec delayUsec).2 = .noChange →
    ((s.updateCC scale nowUsec delayUsec).1.appBPS : Int) = s.appBPS + s.change nowUsec := by
  intro h
  have hfast := h (farLink 100000000) ⟨id, id⟩ 5000 0 rfl (by decide) (by decide) (by decide)
  exact absurd hfast (by decide)

end RateControl

end Tonk.Session
