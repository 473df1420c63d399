import Tonk.Session.ProbeBudget

set_option autoImplicit false

namespace Tonk.Session

def kInitialOWDUsec : Nat := 100 * 1000
def kRecoveryLimit : Nat := 8
def kMinimumRecoveryIntervalUsec : Nat := 10 * 1000
def kTickDivisions : Nat := 2

structure Timer where
  waitStartUsec : Nat
  usecPerDivision : Nat
  divisionsExpired : Nat
  restarts : Bool
  isTicking : Bool

namespace Timer

def setTimeoutUsec (t : Timer) (timeoutUsec : Nat) (restarts : Bool) : Timer :=
  { t with restarts := restarts, usecPerDivision := timeoutUsec / kTickDivisions }

def start (t : Timer) (nowUsec : Nat) : Timer :=
  { t with waitStartUsec := nowUsec, divisionsExpired := 0, isTicking := true }

def isExpired (t : Timer) (nowUsec : Nat) : Timer × Bool :=
  if !t.isTicking then (t, false)
  else
    let elapsedUsec := (nowUsec + 2 ^ 64 - t.waitStartUsec) % 2 ^ 64
    if elapsedUsec < t.usecPerDivision then (t, false)
    else if t.divisionsExpired + 1 < kTickDivisions then
      ({ t with divisionsExpired := t.divisionsExpired + 1, waitStartUsec := nowUsec }, false)
    else
      ({ t with
          isTicking := if t.restarts then t.isTicking else false
          waitStartUsec := nowUsec
          divisionsExpired := 0 }, true)

end Timer

structure RecoveryControl where
  control : SenderBandwidthControl
  recoverySendCost : Int
  recoveryTimer : Timer

namespace RecoveryControl

def tokens (c : RecoveryControl) : Int := c.control.recoverySendTokens

def setTokens (c : RecoveryControl) (tokens : Int) : RecoveryControl :=
  { c with control := { c.control with recoverySendTokens := tokens } }

def sendRecovery (c : RecoveryControl) (nowUsec : Nat) (owdUsec : Option Nat) : RecoveryControl :=
  let nextTimeoutUsec := owdUsec.getD kInitialOWDUsec
  let nextTimeoutUsec :=
    if nextTimeoutUsec < kMinimumRecoveryIntervalUsec then kMinimumRecoveryIntervalUsec
    else nextTimeoutUsec
  { c with recoveryTimer := (c.recoveryTimer.setTimeoutUsec nextTimeoutUsec true).start nowUsec }

def spend (c : RecoveryControl) : RecoveryControl × Nat :=
  let cost := c.recoverySendCost
  let sendCount := 1
  let c := c.setTokens (toInt32 (c.tokens - cost))
  if c.tokens < cost then (c, sendCount)
  else
    let sendCount := sendCount + 1
    let c := c.setTokens (toInt32 (c.tokens - cost))
    if c.tokens < cost then (c, sendCount)
    else
      -- the tokens are gone when they are divided
      let c := c.setTokens 0
      let sendCount := sendCount + toUnsigned32 (c.tokens.tdiv cost)
      (c, if kRecoveryLimit < sendCount then kRecoveryLimit else sendCount)

def calculateRecoverySendCount (c : RecoveryControl) (nowUsec : Nat) (owdUsec : Option Nat) :
    RecoveryControl × Nat :=
  if c.tokens < c.recoverySendCost then
    let (recoveryTimer, expired) := c.recoveryTimer.isExpired nowUsec
    let c := { c with recoveryTimer := recoveryTimer }
    if !expired then (c, 0)
    else
      let (c, sendCount) := (c.setTokens c.recoverySendCost).spend
      (c.sendRecovery nowUsec owdUsec, sendCount)
  else
    let (c, sendCount) := c.spend
    (c.sendRecovery nowUsec owdUsec, sendCount)

def onSendDatagram (c : RecoveryControl) (d : CountedDatagram) : RecoveryControl :=
  { c with control := c.control.onSendDatagram d }

end RecoveryControl

structure RecoveryCall where
  tokens : Int
  count : Nat
deriving DecidableEq

/-- The control, the calls so far, the recovery packets they granted, and the tokens earned: those of
reliable datagrams, and what the timer added when it expired. -/
structure RecoveryRun where
  control : RecoveryControl
  calls : List RecoveryCall
  granted : Nat
  earned : Int

namespace RecoveryRun

inductive Event where
  | send (d : CountedDatagram)
  | calculate (nowUsec : Nat) (owdUsec : Option Nat)

def next (s : RecoveryRun) : Event → RecoveryRun
  | .send d =>
    { s with
      control := s.control.onSendDatagram d
      earned := s.earned + if d.isReliable then kReliableRewardTokens else 0 }
  | .calculate nowUsec owdUsec =>
    let (control, count) := s.control.calculateRecoverySendCount nowUsec owdUsec
    let added := if s.control.tokens < s.control.recoverySendCost ∧ 0 < count then
      s.control.recoverySendCost - s.control.tokens else 0
    ⟨control, s.calls ++ [⟨s.control.tokens, count⟩], s.granted + count, s.earned + added⟩

/-- Without tokens, at a cost, and with the timer that Initialize has started. -/
def start (cost : Int) (nowUsec : Nat) : RecoveryRun where
  control := ⟨⟨0, 0, 0, 0⟩, cost,
    (Timer.setTimeoutUsec ⟨0, 0, 0, false, false⟩ kInitialOWDUsec true).start nowUsec⟩
  calls := []
  granted := 0
  earned := 0

def run (cost : Int) (nowUsec : Nat) (events : List Event) : RecoveryRun :=
  events.foldl next (start cost nowUsec)

/-- A call with the tokens for a packet grants as many as they pay for, up to the limit; the packets and
the tokens left are what was earned, as long as no call could pay for more than the limit. -/
structure Conserves (cost : Int) (s : RecoveryRun) : Prop where
  granted : ∀ call ∈ s.calls, cost ≤ call.tokens →
    (call.count : Int) = min (kRecoveryLimit : Int) (call.tokens / cost)
  conserved : (∀ call ∈ s.calls, call.tokens / cost ≤ (kRecoveryLimit : Int)) →
    s.granted * cost + s.control.tokens = s.earned

/-- A call has not the tokens for three packets, and a credit is within an int. -/
def Fits (s : RecoveryRun) : Event → Prop
  | .send d => d.isReliable = true → s.control.tokens + kReliableRewardTokens < 2 ^ 31
  | .calculate _ _ => s.control.tokens < 3 * s.control.recoverySendCost

instance (s : RecoveryRun) : (e : Event) → Decidable (s.Fits e)
  | .send d => inferInstanceAs (Decidable (d.isReliable = true → _))
  | .calculate _ _ => inferInstanceAs (Decidable (s.control.tokens < _))

end RecoveryRun

namespace RecoveryControl

variable {c : RecoveryControl}

theorem spend_eq (hcost : 0 < c.recoverySendCost) (hle : c.recoverySendCost ≤ c.tokens)
    (hlt : c.tokens < 2 ^ 31) : c.spend =
      if c.tokens < 2 * c.recoverySendCost then (c.setTokens (c.tokens - c.recoverySendCost), 1)
      else if c.tokens < 3 * c.recoverySendCost then
        (c.setTokens (c.tokens - 2 * c.recoverySendCost), 2)
      else (c.setTokens 0, 2) := by
  have hone : toInt32 (c.tokens - c.recoverySendCost) = c.tokens - c.recoverySendCost :=
    toInt32_of_range (by omega)
  have hzero : toUnsigned32 (Int.tdiv 0 c.recoverySendCost) = 0 := by
    rw [Int.zero_tdiv]
    rfl
  by_cases htwo : c.tokens < 2 * c.recoverySendCost
  · have hlast : toInt32 (c.tokens - c.recoverySendCost) < c.recoverySendCost := by
      rw [hone]
      omega
    rw [if_pos htwo, spend]
    refine (if_pos hlast).trans ?_
    rw [hone]
  have hnext : ¬toInt32 (c.tokens - c.recoverySendCost) < c.recoverySendCost := by
    rw [hone]
    omega
  have hsecond : toInt32 (toInt32 (c.tokens - c.recoverySendCost) - c.recoverySendCost) =
      c.tokens - 2 * c.recoverySendCost := by
    rw [hone, toInt32_of_range (by omega)]
    omega
  rw [if_neg htwo]
  by_cases hthree : c.tokens < 3 * c.recoverySendCost
  · have hlast : toInt32 (toInt32 (c.tokens - c.recoverySendCost) - c.recoverySendCost) <
        c.recoverySendCost := by
      rw [hsecond]
      omega
    rw [if_pos hthree, spend]
    refine (if_neg hnext).trans ((if_pos hlast).trans ?_)
    rw [← hsecond]
    rfl
  · have hmore : ¬toInt32 (toInt32 (c.tokens - c.recoverySendCost) - c.recoverySendCost) <
        c.recoverySendCost := by
      rw [hsecond]
      omega
    have hcount : 1 + 1 + toUnsigned32 (Int.tdiv 0 c.recoverySendCost) = 2 := by rw [hzero]
    rw [if_neg hthree, spend]
    refine (if_neg hnext).trans ((if_neg hmore).trans ?_)
    show (c.setTokens 0, if kRecoveryLimit < 1 + 1 + toUnsigned32 (Int.tdiv 0 c.recoverySendCost) then
      kRecoveryLimit else 1 + 1 + toUnsigned32 (Int.tdiv 0 c.recoverySendCost)) = _
    rw [hcount]
    rfl

@[simp] theorem tokens_sendRecovery (nowUsec : Nat) (owdUsec : Option Nat) :
    (c.sendRecovery nowUsec owdUsec).tokens = c.tokens := rfl

@[simp] theorem recoverySendCost_sendRecovery (nowUsec : Nat) (owdUsec : Option Nat) :
    (c.sendRecovery nowUsec owdUsec).recoverySendCost = c.recoverySendCost := rfl

theorem calculateRecoverySendCount_cases (hcost : 0 < c.recoverySendCost)
    (hmax : c.recoverySendCost < 2 ^ 31) (hlt : c.tokens < 2 ^ 31) (nowUsec : Nat)
    (owdUsec : Option Nat) :
    let result := c.calculateRecoverySendCount nowUsec owdUsec
    result.1.recoverySendCost = c.recoverySendCost ∧
      ((c.tokens < c.recoverySendCost ∧ result.2 = 0 ∧ result.1.tokens = c.tokens) ∨
      (c.tokens < c.recoverySendCost ∧ result.2 = 1 ∧ result.1.tokens = 0) ∨
      (c.recoverySendCost ≤ c.tokens ∧ c.tokens < 2 * c.recoverySendCost ∧ result.2 = 1 ∧
        result.1.tokens = c.tokens - c.recoverySendCost) ∨
      (2 * c.recoverySendCost ≤ c.tokens ∧ c.tokens < 3 * c.recoverySendCost ∧ result.2 = 2 ∧
        result.1.tokens = c.tokens - 2 * c.recoverySendCost) ∨
      (3 * c.recoverySendCost ≤ c.tokens ∧ result.2 = 2 ∧ result.1.tokens = 0)) := by
  simp only [calculateRecoverySendCount]
  by_cases hfew : c.tokens < c.recoverySendCost
  · rw [if_pos hfew]
    rcases c.recoveryTimer.isExpired nowUsec with ⟨timer, _ | _⟩
    · exact ⟨rfl, .inl ⟨hfew, rfl, rfl⟩⟩
    · have hspend := spend_eq (c := setTokens { c with recoveryTimer := timer } c.recoverySendCost)
        hcost (Int.le_refl _) hmax
      have htwo : c.recoverySendCost < 2 * c.recoverySendCost := by omega
      have hone := hspend.trans (if_pos htwo)
      simp only [Bool.not_true, Bool.false_eq_true, if_false, hone]
      exact ⟨rfl, .inr (.inl ⟨hfew, trivial, Int.sub_self _⟩)⟩
  · have hle := Int.not_lt.1 hfew
    rw [if_neg hfew, spend_eq hcost hle hlt]
    by_cases htwo : c.tokens < 2 * c.recoverySendCost
    · rw [if_pos htwo]
      exact ⟨rfl, .inr (.inr (.inl ⟨hle, htwo, rfl, rfl⟩))⟩
    · rw [if_neg htwo]
      by_cases hthree : c.tokens < 3 * c.recoverySendCost
      · rw [if_pos hthree]
        exact ⟨rfl, .inr (.inr (.inr (.inl ⟨Int.not_lt.1 htwo, hthree, rfl, rfl⟩)))⟩
      · rw [if_neg hthree]
        exact ⟨rfl, .inr (.inr (.inr (.inr ⟨Int.not_lt.1 hthree, rfl, rfl⟩)))⟩

end RecoveryControl

namespace RecoveryRun

variable {cost : Int} {s : RecoveryRun} {nowUsec : Nat} {events : List Event}

def loss (cost : Int) (s : RecoveryRun) : Int := s.earned - (s.granted * cost + s.control.tokens)

structure Inv (cost : Int) (s : RecoveryRun) : Prop where
  cost_eq : s.control.recoverySendCost = cost
  range : -2 ^ 31 ≤ s.control.tokens ∧ s.control.tokens < 2 ^ 31
  loss : 0 ≤ s.loss cost
  few : ∀ call ∈ s.calls, call.tokens < 3 * cost → cost ≤ call.tokens →
    (call.count : Int) = min (kRecoveryLimit : Int) (call.tokens / cost)
  many : ∀ call ∈ s.calls, 3 * cost ≤ call.tokens → call.count = 2

/-- No call had the tokens for three packets, and nothing is lost. -/
def Good (cost : Int) (s : RecoveryRun) : Prop :=
  (∀ call ∈ s.calls, call.tokens < 3 * cost) ∧ s.loss cost = 0

theorem run_append (events : List Event) (e : Event) :
    run cost nowUsec (events ++ [e]) = (run cost nowUsec events).next e := by
  rw [run, List.foldl_append]
  rfl

theorem inv_start (nowUsec : Nat) : (start cost nowUsec).Inv cost := by
  refine ⟨rfl, ?_, ?_, nofun, nofun⟩
  · show (-2 ^ 31 : Int) ≤ 0 ∧ (0 : Int) < 2 ^ 31
    decide
  · simp [loss, start, RecoveryControl.tokens]

theorem good_start (nowUsec : Nat) : (start cost nowUsec).Good cost := by
  refine ⟨nofun, ?_⟩
  simp [loss, start, RecoveryControl.tokens]

theorem next_send (h : s.Inv cost) (d : CountedDatagram) :
    (s.next (.send d)).Inv cost ∧ ((s.next (.send d)).Good cost ↔ s.Good cost ∧ s.Fits (.send d)) := by
  have hrange := h.range
  have hloss := h.loss
  simp only [loss, RecoveryControl.tokens] at hrange hloss
  by_cases hreliable : d.isReliable = true
  · have htokens : (s.next (.send d)).control.tokens =
        toInt32 (s.control.control.recoverySendTokens + 1024) := by
      simp [next, RecoveryControl.onSendDatagram, SenderBandwidthControl.onSendDatagram,
        RecoveryControl.tokens, hreliable, kReliableRewardTokens]
    have hearned : (s.next (.send d)).earned = s.earned + 1024 := by
      simp [next, hreliable, kReliableRewardTokens]
    have hvalue : toInt32 (s.control.control.recoverySendTokens + 1024) =
        if s.control.control.recoverySendTokens + 1024 < 2 ^ 31 then
          s.control.control.recoverySendTokens + 1024
        else s.control.control.recoverySendTokens + 1024 - 2 ^ 32 := by
      rw [toInt32_eq]
      split_ifs <;> omega
    have hafter : (s.next (.send d)).loss cost = s.loss cost +
        if s.control.control.recoverySendTokens + 1024 < 2 ^ 31 then 0 else 2 ^ 32 := by
      rw [loss, loss, htokens, hearned, hvalue, RecoveryControl.tokens]
      have hgranted : (s.next (.send d)).granted = s.granted := rfl
      rw [hgranted]
      split_ifs <;> omega
    refine ⟨⟨h.cost_eq, ?_, ?_, h.few, h.many⟩, ?_⟩
    · rw [htokens]
      exact toInt32_range _
    · rw [hafter, loss, RecoveryControl.tokens]
      split_ifs <;> omega
    · simp only [Good, Fits, hreliable, true_implies, RecoveryControl.tokens, kReliableRewardTokens]
      rw [hafter]
      have hnonneg := h.loss
      have hcalls : (s.next (.send d)).calls = s.calls := rfl
      rw [hcalls]
      constructor
      · rintro ⟨hcall, hzero⟩
        split_ifs at hzero with hfits
        · exact ⟨⟨hcall, by omega⟩, hfits⟩
        · omega
      · rintro ⟨⟨hcall, hzero⟩, hfits⟩
        rw [if_pos hfits]
        exact ⟨hcall, by omega⟩
  · have hsame : (s.next (.send d)).control.tokens = s.control.tokens ∧
        (s.next (.send d)).earned = s.earned := by
      simp [next, RecoveryControl.onSendDatagram, SenderBandwidthControl.onSendDatagram,
        RecoveryControl.tokens, hreliable]
    have hafter : (s.next (.send d)).loss cost = s.loss cost := by
      rw [loss, loss, hsame.1, hsame.2]
      rfl
    refine ⟨⟨h.cost_eq, hsame.1 ▸ h.range, hafter ▸ h.loss, h.few, h.many⟩, ?_⟩
    simp only [Good, Fits, hafter]
    exact ⟨fun hgood => ⟨hgood, fun hd => absurd hd hreliable⟩, fun hgood => hgood.1⟩

/-- A call spends what it grants, unless it could pay for three packets. -/
theorem next_calculate (hcost : 0 < cost) (hmax : cost < 2 ^ 31) (h : s.Inv cost) (now : Nat)
    (owdUsec : Option Nat) : (s.next (.calculate now owdUsec)).Inv cost ∧
      ((s.next (.calculate now owdUsec)).Good cost ↔ s.Good cost ∧ s.Fits (.calculate now owdUsec)) := by
  obtain ⟨hsame, hcases⟩ := RecoveryControl.calculateRecoverySendCount_cases
    (h.cost_eq.symm ▸ hcost) (h.cost_eq.symm ▸ hmax) h.range.2 now owdUsec
  have hnonneg := h.loss
  have hrange := h.range
  rw [h.cost_eq] at hsame hcases
  simp only [next, Fits, h.cost_eq]
  generalize hresult : s.control.calculateRecoverySendCount now owdUsec = result at hsame hcases
  obtain ⟨control, count⟩ := result
  simp only at hsame hcases ⊢
  -- the call itself
  have hdiv (k : Int) (hlow : k * cost ≤ s.control.tokens) (hhigh : s.control.tokens < (k + 1) * cost) :
      s.control.tokens / cost = k :=
    Int.ediv_eq_iff_of_pos hcost |>.2 ⟨hlow, by linarith⟩
  have hcall : (s.control.tokens < 3 * cost → cost ≤ s.control.tokens →
      (count : Int) = min (kRecoveryLimit : Int) (s.control.tokens / cost)) ∧
      (3 * cost ≤ s.control.tokens → count = 2) := by
    rcases hcases with ⟨hlt, rfl, _⟩ | ⟨hlt, rfl, _⟩ | ⟨hle, hlt, rfl, _⟩ | ⟨hle, hlt, rfl, _⟩ |
      ⟨hle, rfl, _⟩
    · exact ⟨fun _ _ => by omega, fun _ => by omega⟩
    · exact ⟨fun _ _ => by omega, fun _ => by omega⟩
    · rw [hdiv 1 (by omega) (by omega)]
      exact ⟨fun _ _ => by decide, fun _ => by omega⟩
    · rw [hdiv 2 (by omega) (by omega)]
      exact ⟨fun _ _ => by decide, fun _ => rfl⟩
    · exact ⟨fun _ _ => by omega, fun _ => rfl⟩
  have hloss : ∃ more : Int, 0 ≤ more ∧ (more = 0 ↔ s.control.tokens < 3 * cost) ∧
      loss cost ⟨control, s.calls ++ [⟨s.control.tokens, count⟩], s.granted + count, s.earned +
        if s.control.tokens < cost ∧ 0 < count then cost - s.control.tokens else 0⟩ =
          s.loss cost + more := by
    simp only [loss]
    push_cast
    rw [Int.add_mul]
    rcases hcases with ⟨hlt, rfl, ht⟩ | ⟨hlt, rfl, ht⟩ | ⟨hle, hlt, rfl, ht⟩ | ⟨hle, hlt, rfl, ht⟩ |
      ⟨hle, rfl, ht⟩ <;> rw [ht]
    · exact ⟨0, le_rfl, by omega, by simp⟩
    · rw [if_pos ⟨hlt, by decide⟩]
      exact ⟨0, le_rfl, by omega, by push_cast; omega⟩
    · rw [if_neg fun hboth => absurd hboth.1 (by omega)]
      exact ⟨0, le_rfl, by omega, by push_cast; omega⟩
    · rw [if_neg fun hboth => absurd hboth.1 (by omega)]
      exact ⟨0, le_rfl, by omega, by push_cast; omega⟩
    · rw [if_neg fun hboth => absurd hboth.1 (by omega)]
      exact ⟨s.control.tokens - 2 * cost, by omega, by omega, by push_cast; omega⟩
  obtain ⟨more, hmore, hfits, hafter⟩ := hloss
  refine ⟨⟨hsame, ?_, ?_, fun call hmem => ?_, fun call hmem => ?_⟩, ?_⟩
  · simp only
    rcases hcases with ⟨_, _, ht⟩ | ⟨_, _, ht⟩ | ⟨_, _, _, ht⟩ | ⟨_, _, _, ht⟩ | ⟨_, _, ht⟩ <;>
      rw [ht] <;> omega
  · rw [hafter]
    omega
  · rcases List.mem_append.1 hmem with hold | hnew
    · exact h.few call hold
    · rw [List.mem_singleton.1 hnew]
      exact hcall.1
  · rcases List.mem_append.1 hmem with hold | hnew
    · exact h.many call hold
    · rw [List.mem_singleton.1 hnew]
      exact hcall.2
  · rw [Good, Good, hafter]
    simp only [List.mem_append, List.mem_singleton]
    constructor
    · rintro ⟨hall, hzero⟩
      have hfit := hfits.1 (by omega)
      exact ⟨⟨fun call hmem => hall call (.inl hmem), by omega⟩, hfit⟩
    · rintro ⟨⟨hall, hzero⟩, hfit⟩
      have hnone := hfits.2 hfit
      refine ⟨fun call hmem => ?_, by omega⟩
      rcases hmem with hold | rfl
      · exact hall call hold
      · exact hfit

theorem next_inv (hcost : 0 < cost) (hmax : cost < 2 ^ 31) (h : s.Inv cost) (e : Event) :
    (s.next e).Inv cost ∧ ((s.next e).Good cost ↔ s.Good cost ∧ s.Fits e) := by
  cases e with
  | send d => exact next_send h d
  | calculate now owdUsec => exact next_calculate hcost hmax h now owdUsec

theorem Inv.conserves_iff_good (hcost : 0 < cost) (h : s.Inv cost) : s.Conserves cost ↔ s.Good cost := by
  constructor
  · rintro ⟨hgranted, hconserved⟩
    have hfew (call : RecoveryCall) (hmem : call ∈ s.calls) : call.tokens < 3 * cost := by
      by_contra hmany
      have hle := Int.not_lt.1 hmany
      have heq := hgranted call hmem (by omega)
      have hthree : 3 ≤ call.tokens / cost := (Int.le_ediv_iff_mul_le hcost).2 (by linarith)
      rw [h.many call hmem hle, kRecoveryLimit] at heq
      omega
    refine ⟨hfew, ?_⟩
    have hlimit (call : RecoveryCall) (hmem : call ∈ s.calls) :
        call.tokens / cost ≤ (kRecoveryLimit : Int) := by
      have hlt : call.tokens / cost < 3 :=
        (Int.ediv_lt_iff_lt_mul hcost).2 (by linarith [hfew call hmem])
      rw [kRecoveryLimit]
      omega
    rw [RecoveryRun.loss, hconserved hlimit]
    omega
  · rintro ⟨hfew, hloss⟩
    refine ⟨fun call hmem => h.few call hmem (hfew call hmem), fun _ => ?_⟩
    rw [RecoveryRun.loss] at hloss
    omega

theorem inv_run (hcost : 0 < cost) (hmax : cost < 2 ^ 31) (events : List Event) :
    (run cost nowUsec events).Inv cost := by
  induction events using List.reverseRecOn with
  | nil => exact inv_start nowUsec
  | append_singleton events e ih =>
    rw [run_append]
    exact (next_inv hcost hmax ih e).1

def AlwaysFits (cost : Int) (nowUsec : Nat) (events : List Event) : Prop :=
  ∀ before e, before ++ [e] <+: events → (run cost nowUsec before).Fits e

theorem good_run_iff (hcost : 0 < cost) (hmax : cost < 2 ^ 31) (events : List Event) :
    (run cost nowUsec events).Good cost ↔ AlwaysFits cost nowUsec events := by
  induction events using List.reverseRecOn with
  | nil => exact iff_of_true (good_start nowUsec) Transition.forall_call_nil
  | append_singleton events e ih =>
    rw [run_append, (next_inv hcost hmax (inv_run hcost hmax events) e).2, ih]
    exact Transition.forall_call_concat.symm

/-- For every cost and every run of credits and calls. -/
theorem conserves_iff (hcost : 0 < cost) (hmax : cost < 2 ^ 31) (events : List Event) :
    (run cost nowUsec events).Conserves cost ↔ AlwaysFits cost nowUsec events :=
  ((inv_run hcost hmax events).conserves_iff_good hcost).trans (good_run_iff hcost hmax events)

/-- Three reliable datagrams at a cost of one of them: the third packet is never sent. -/
def burst : List Event :=
  let reliable : CountedDatagram := ⟨100, 0, true, by decide⟩
  [.send reliable, .send reliable, .send reliable, .calculate 5000 none]

theorem conserves_pair : (run 1024 0 (burst.drop 1)).Conserves 1024 := by
  refine (conserves_iff (by decide) (by decide) _).2 fun before e hbefore => ?_
  obtain ⟨after, hafter⟩ := hbefore
  rcases before with _ | ⟨_, _ | ⟨_, _ | ⟨_, before⟩⟩⟩
  · cases hafter
    decide
  · cases hafter
    decide
  · cases hafter
    decide
  · have hlength := congrArg List.length hafter
    simp [burst] at hlength

theorem not_conserves_burst : ¬(run 1024 0 burst).Conserves 1024 := by
  intro h
  have hcall := h.granted ⟨3072, 2⟩ (by decide) (by decide)
  exact absurd hcall (by decide)

end RecoveryRun

end Tonk.Session
