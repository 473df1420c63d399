import Mathlib.Tactic
import Tonk.Session.Datagram

set_option autoImplicit false

namespace Tonk.Session

def kSendTimerTickIntervalUsec : Nat := 5000
def kMaxTickIntervalUsec : Nat := 500 * 1000
def kBandwidthBurstTokenLimit : Int := 1300 * 10
def kReliableRewardTokens : Int := 1024
def kProbeTokenRatio : Nat := 2

def toInt32 (x : Int) : Int := x.bmod (2 ^ 32)

def toUnsigned32 (x : Int) : Nat := (x % 2 ^ 32).toNat

structure CountedDatagram where
  wireBytes : Nat
  compressionSavings : Nat
  isReliable : Bool
  wireBytes_lt : wireBytes < 2 ^ 16

structure SenderBandwidthControl where
  availableTokens : Int
  recoverySendTokens : Int
  probeSendTokens : Int
  lastIntervalStartUsec : Nat
  deriving DecidableEq, Repr

namespace SenderBandwidthControl

def onSendDatagram (c : SenderBandwidthControl) (d : CountedDatagram) : SenderBandwidthControl :=
  { c with
    availableTokens := toInt32 (c.availableTokens - d.wireBytes)
    recoverySendTokens := if d.isReliable then
      toInt32 (c.recoverySendTokens + kReliableRewardTokens) else c.recoverySendTokens
    probeSendTokens := toInt32 (c.probeSendTokens + (d.wireBytes + d.compressionSavings)) }

def getAvailableBytes (c : SenderBandwidthControl) : Int := c.availableTokens

/-- kProbeTokenRatio is unsigned, and so is the quotient. -/
def getAvailableProbeBytes (c : SenderBandwidthControl) : Int :=
  toInt32 ((toUnsigned32 c.probeSendTokens / kProbeTokenRatio : Nat) : Int)

def shouldSendProbe (c : SenderBandwidthControl) (bytes : Nat) : Bool :=
  bytes ≤ c.getAvailableProbeBytes && bytes ≤ c.getAvailableBytes

def spendProbeBytes (c : SenderBandwidthControl) (bytes : Nat) : SenderBandwidthControl :=
  { c with probeSendTokens := toInt32 (c.probeSendTokens - (bytes * kProbeTokenRatio : Nat)) }

def recalculateAvailableBytes (c : SenderBandwidthControl) (nowUsec bps : Nat) :
    SenderBandwidthControl :=
  let tickIntervalUsec := (nowUsec + 2 ^ 64 - c.lastIntervalStartUsec) % 2 ^ 64
  let availableTokens := if kMaxTickIntervalUsec ≤ tickIntervalUsec then 0 else c.availableTokens
  let tickIntervalUsec := min tickIntervalUsec (kSendTimerTickIntervalUsec * 2)
  let addedTokens : Nat := bps * tickIntervalUsec / 1000000 % 2 ^ 32
  let availableTokens := toInt32 (availableTokens + addedTokens)
  let tokenLimit := toInt32 addedTokens + kBandwidthBurstTokenLimit
  { c with
    lastIntervalStartUsec := nowUsec
    availableTokens := if tokenLimit < availableTokens then tokenLimit
      else if availableTokens < -tokenLimit then -tokenLimit else availableTokens
    probeSendTokens := if tokenLimit * 4 < c.probeSendTokens then tokenLimit * 4
      else c.probeSendTokens }

end SenderBandwidthControl

/-- A call of ShouldSendProbe: the buckets and the size asked for, and what was credited and spent up to
it, the last probe with its own size. -/
structure Asked where
  control : SenderBandwidthControl
  bytes : Nat
  credited : Nat
  spent : Nat
  last : Nat
  deriving DecidableEq, Repr

structure ProbeBudget where
  control : SenderBandwidthControl
  credited : Nat
  spent : Nat
  last : Nat
  asked : List Asked

/-- What a timer tick sends: the datagrams of its messages, the recovery packets for them, and the
datagrams that PostRecovery and PostDummyDatagram have for its probes. -/
structure TimerTick where
  nowUsec : Nat
  bps : Nat
  established : Bool
  sent : List CountedDatagram
  recovery : List CountedDatagram
  /-- The last call of PostRecovery sent nothing. -/
  recoveryEnded : Bool
  disableProbes : Bool
  recoveryProbes : List CountedDatagram
  dummies : List CountedDatagram
  bps_lt : bps < 2 ^ 32

namespace ProbeBudget

def start : ProbeBudget := ⟨⟨0, 0, 0, 0⟩, 0, 0, 0, []⟩

def send (s : ProbeBudget) (d : CountedDatagram) : ProbeBudget :=
  { s with
    control := s.control.onSendDatagram d
    credited := s.credited + (d.wireBytes + d.compressionSavings) }

def spend (s : ProbeBudget) (bytes : Nat) : ProbeBudget :=
  { s with
    control := s.control.spendProbeBytes bytes
    spent := s.spent + bytes
    last := bytes }

def ask (s : ProbeBudget) (bytes : Nat) : ProbeBudget :=
  { s with asked := s.asked ++ [⟨s.control, bytes, s.credited, s.spent, s.last⟩] }

def recoveryProbeLoop : ProbeBudget → Nat → List CountedDatagram → ProbeBudget
  | s, recoveryBytesSent, [] => s.ask recoveryBytesSent
  | s, recoveryBytesSent, d :: posts =>
    if s.control.shouldSendProbe recoveryBytesSent then
      recoveryProbeLoop (((s.ask recoveryBytesSent).send d).spend d.wireBytes) d.wireBytes posts
    else s.ask recoveryBytesSent

def dummyLoop : ProbeBudget → List CountedDatagram → ProbeBudget
  | s, [] => s.ask kDummyBytes
  | s, d :: posts =>
    if s.control.shouldSendProbe kDummyBytes then
      dummyLoop (((s.ask kDummyBytes).send d).spend kDummyBytes) posts
    else s.ask kDummyBytes

/-- Connection::onTimerTick. -/
def onTimerTick (s : ProbeBudget) (tick : TimerTick) : ProbeBudget :=
  let s := { s with control := s.control.recalculateAvailableBytes tick.nowUsec tick.bps }
  let s := tick.sent.foldl send s
  if !tick.established then s
  else
    let s := tick.recovery.foldl send s
    let recoveryBytesSent := if tick.recoveryEnded then 0
      else (tick.recovery.getLast?.map CountedDatagram.wireBytes).getD 0
    let s := if tick.disableProbes then s
      else s.recoveryProbeLoop recoveryBytesSent tick.recoveryProbes
    s.dummyLoop tick.dummies

inductive Event where
  | tick (tick : TimerTick)
  | send (d : CountedDatagram)

def next (s : ProbeBudget) : Event → ProbeBudget
  | .tick tick => s.onTimerTick tick
  | .send d => s.send d

end ProbeBudget

theorem toInt32_eq (x : Int) : toInt32 x =
    if x % 4294967296 < 2147483648 then x % 4294967296 else x % 4294967296 - 4294967296 := by
  rw [toInt32, Int.bmod_def]
  rfl

theorem toInt32_range (x : Int) : -2 ^ 31 ≤ toInt32 x ∧ toInt32 x < 2 ^ 31 := by
  rw [toInt32_eq]
  split <;> omega

theorem toInt32_le {x : Int} (h : -2 ^ 31 ≤ x) : toInt32 x ≤ x := by
  rw [toInt32_eq]
  split <;> omega

theorem toInt32_of_range {x : Int} (h : -2 ^ 31 ≤ x ∧ x < 2 ^ 31) : toInt32 x = x := by
  rw [toInt32_eq]
  split <;> omega

theorem toInt32_sub (x y : Int) : toInt32 (toInt32 x - y) = toInt32 (x - y) :=
  Int.bmod_sub_bmod

namespace SenderBandwidthControl

/-- Without a deficit the quotient is the one of the balance; a deficit comes out as a credit of at
least 2^30. -/
theorem getAvailableProbeBytes_eq {c : SenderBandwidthControl}
    (h : -2 ^ 31 ≤ c.probeSendTokens ∧ c.probeSendTokens < 2 ^ 31) :
    if 0 ≤ c.probeSendTokens then c.getAvailableProbeBytes = c.probeSendTokens / 2
    else 2 ^ 30 ≤ c.getAvailableProbeBytes := by
  rw [getAvailableProbeBytes, toUnsigned32, kProbeTokenRatio, toInt32_of_range (by omega)]
  split <;> omega

/-- A probe of a datagram's size is permitted on the balance alone if and only if there is no deficit,
or too few bytes may be sent at all. -/
theorem permitted_iff {c : SenderBandwidthControl}
    (h : -2 ^ 31 ≤ c.probeSendTokens ∧ c.probeSendTokens < 2 ^ 31) {bytes : Nat}
    (hbytes : bytes < 2 ^ 16) :
    (c.shouldSendProbe bytes = true → kProbeTokenRatio * bytes ≤ c.probeSendTokens) ↔
      0 ≤ c.probeSendTokens ∨ c.availableTokens < bytes := by
  have hquotient := getAvailableProbeBytes_eq h
  rw [shouldSendProbe, Bool.and_eq_true, decide_eq_true_iff, decide_eq_true_iff,
    getAvailableBytes, kProbeTokenRatio]
  split at hquotient <;> omega

end SenderBandwidthControl

namespace ProbeBudget

/-- The balance is no deficit, or too few bytes may be sent at all. -/
def Covered (a : Asked) : Prop :=
  0 ≤ a.control.probeSendTokens ∨ a.control.availableTokens < a.bytes

/-- A probe is permitted only on the balance, and the probes have cost no more than what was credited
for them, but for the last one. -/
structure WithinBudget (s : ProbeBudget) : Prop where
  permitted : ∀ a ∈ s.asked, a.control.shouldSendProbe a.bytes = true →
    kProbeTokenRatio * a.bytes ≤ a.control.probeSendTokens
  asked_spent : ∀ a ∈ s.asked, kProbeTokenRatio * a.spent ≤ a.credited + kProbeTokenRatio * a.last
  spent : kProbeTokenRatio * s.spent ≤ s.credited + kProbeTokenRatio * s.last

structure Sound (s : ProbeBudget) : Prop where
  balance : s.control.probeSendTokens ≤ s.credited - kProbeTokenRatio * s.spent
  spent : kProbeTokenRatio * s.spent ≤ s.credited + kProbeTokenRatio * s.last
  asked : ∀ a ∈ s.asked, kProbeTokenRatio * a.spent ≤ a.credited + kProbeTokenRatio * a.last

structure Inv (s : ProbeBudget) : Prop where
  range : -2 ^ 31 ≤ s.control.probeSendTokens ∧ s.control.probeSendTokens < 2 ^ 31
  asked : ∀ a ∈ s.asked, (-2 ^ 31 ≤ a.control.probeSendTokens ∧
    a.control.probeSendTokens < 2 ^ 31) ∧ a.bytes < 2 ^ 16
  sound : (∀ a ∈ s.asked, Covered a) → s.Sound

theorem inv_start : start.Inv := by
  refine ⟨by decide, nofun, fun _ => ⟨by decide, by decide, nofun⟩⟩

theorem Inv.send {s : ProbeBudget} (h : s.Inv) (d : CountedDatagram) : (s.send d).Inv := by
  refine ⟨toInt32_range _, h.asked, fun hcovered => ?_⟩
  obtain ⟨hbalance, hspent, hasked⟩ := h.sound hcovered
  have hrange := h.range
  refine ⟨?_, ?_, hasked⟩
  · have hle := toInt32_le (x := s.control.probeSendTokens +
      (d.wireBytes + d.compressionSavings)) (by omega)
    simp only [ProbeBudget.send, SenderBandwidthControl.onSendDatagram]
    push_cast
    omega
  · simp only [ProbeBudget.send]
    omega

theorem Inv.ask {s : ProbeBudget} (h : s.Inv) {bytes : Nat} (hbytes : bytes < 2 ^ 16) :
    (s.ask bytes).Inv := by
  refine ⟨h.range, fun a ha => ?_, fun hcovered => ?_⟩
  · rcases List.mem_append.mp ha with hold | hnew
    · exact h.asked a hold
    · rw [List.mem_singleton] at hnew
      subst hnew
      exact ⟨h.range, hbytes⟩
  · obtain ⟨hbalance, hspent, hasked⟩ :=
      h.sound fun a ha => hcovered a (List.mem_append_left _ ha)
    refine ⟨hbalance, hspent, fun a ha => ?_⟩
    rcases List.mem_append.mp ha with hold | hnew
    · exact hasked a hold
    · rw [List.mem_singleton] at hnew
      subst hnew
      exact hspent

theorem Inv.probe {s : ProbeBudget} (h : s.Inv) {asked bytes : Nat} (hasked : asked < 2 ^ 16)
    (hbytes : bytes < 2 ^ 16) (hshould : s.control.shouldSendProbe asked = true) (d : CountedDatagram) :
    (((s.ask asked).send d).spend bytes).Inv := by
  have hsent := (h.ask hasked).send d
  refine ⟨toInt32_range _, hsent.asked, fun hcovered => ?_⟩
  obtain ⟨hbalance, hspent, hold⟩ := (h.ask hasked).sound hcovered
  have hthis : Covered ⟨s.control, asked, s.credited, s.spent, s.last⟩ :=
    hcovered _ (List.mem_append_right _ (List.mem_singleton.mpr rfl))
  have havailable : (asked : Int) ≤ s.control.availableTokens := by
    rw [SenderBandwidthControl.shouldSendProbe, Bool.and_eq_true, decide_eq_true_iff,
      decide_eq_true_iff] at hshould
    exact hshould.2
  have hpos : 0 ≤ s.control.probeSendTokens := hthis.resolve_right (not_lt.mpr havailable)
  simp only [ProbeBudget.ask, kProbeTokenRatio] at hbalance hspent
  refine ⟨?_, ?_, hold⟩
  · simp only [ProbeBudget.ask, ProbeBudget.send, ProbeBudget.spend,
      SenderBandwidthControl.onSendDatagram, SenderBandwidthControl.spendProbeBytes,
      kProbeTokenRatio, toInt32_sub]
    have hle := toInt32_le (x := s.control.probeSendTokens + (d.wireBytes + d.compressionSavings) -
      (bytes * 2 : Nat)) (by omega)
    push_cast at hle ⊢
    omega
  · simp only [ProbeBudget.ask, ProbeBudget.send, ProbeBudget.spend, kProbeTokenRatio]
    omega

theorem Inv.recalculate {s : ProbeBudget} (h : s.Inv) (nowUsec : Nat) {bps : Nat}
    (hbps : bps < 2 ^ 32) :
    ({ s with control := s.control.recalculateAvailableBytes nowUsec bps } : ProbeBudget).Inv := by
  have hrange := h.range
  have hprobe : (s.control.recalculateAvailableBytes nowUsec bps).probeSendTokens ≤
      s.control.probeSendTokens ∧
      -2 ^ 31 ≤ (s.control.recalculateAvailableBytes nowUsec bps).probeSendTokens := by
    simp only [SenderBandwidthControl.recalculateAvailableBytes]
    generalize (nowUsec + 2 ^ 64 - s.control.lastIntervalStartUsec) % 2 ^ 64 = interval
    have hadded : bps * min interval (kSendTimerTickIntervalUsec * 2) / 1000000 < 2 ^ 31 := by
      rw [Nat.div_lt_iff_lt_mul (by decide)]
      calc bps * min interval (kSendTimerTickIntervalUsec * 2)
        _ ≤ 2 ^ 32 * (kSendTimerTickIntervalUsec * 2) :=
          Nat.mul_le_mul hbps.le (Nat.min_le_right _ _)
        _ < 2 ^ 31 * 1000000 := by decide
    generalize bps * min interval (kSendTimerTickIntervalUsec * 2) / 1000000 = added at hadded ⊢
    have hmod : added % 2 ^ 32 = added := Nat.mod_eq_of_lt (by omega)
    have hint : toInt32 (added : Int) = added := toInt32_of_range (by omega)
    rw [hmod, hint, kBandwidthBurstTokenLimit]
    split <;> omega
  refine ⟨⟨hprobe.2, hprobe.1.trans_lt hrange.2⟩, h.asked, fun hcovered => ?_⟩
  obtain ⟨hbalance, hspent, hasked⟩ := h.sound hcovered
  exact ⟨hprobe.1.trans hbalance, hspent, hasked⟩

theorem Inv.recoveryProbeLoop {s : ProbeBudget} (h : s.Inv) {recoveryBytesSent : Nat}
    (hbytes : recoveryBytesSent < 2 ^ 16) (posts : List CountedDatagram) :
    (s.recoveryProbeLoop recoveryBytesSent posts).Inv := by
  induction posts generalizing s recoveryBytesSent with
  | nil => exact h.ask hbytes
  | cons d posts ih =>
    unfold ProbeBudget.recoveryProbeLoop
    split
    · next hshould => exact ih (h.probe hbytes d.wireBytes_lt hshould d) d.wireBytes_lt
    · exact h.ask hbytes

theorem Inv.dummyLoop {s : ProbeBudget} (h : s.Inv) (posts : List CountedDatagram) :
    (s.dummyLoop posts).Inv := by
  induction posts generalizing s with
  | nil => exact h.ask (by decide)
  | cons d posts ih =>
    unfold ProbeBudget.dummyLoop
    split
    · next hshould => exact ih (h.probe (by decide) (by decide) hshould d)
    · exact h.ask (by decide)

theorem Inv.sends {s : ProbeBudget} (h : s.Inv) (sent : List CountedDatagram) :
    (sent.foldl ProbeBudget.send s).Inv := by
  induction sent generalizing s with
  | nil => exact h
  | cons d sent ih => exact ih (h.send d)

theorem Inv.onTimerTick {s : ProbeBudget} (h : s.Inv) (tick : TimerTick) :
    (s.onTimerTick tick).Inv := by
  have hsent := (h.recalculate tick.nowUsec tick.bps_lt).sends tick.sent
  have hlast : (if tick.recoveryEnded then 0
      else (tick.recovery.getLast?.map CountedDatagram.wireBytes).getD 0) < 2 ^ 16 := by
    split
    · decide
    · cases hlast : tick.recovery.getLast? with
      | none => exact show 0 < 2 ^ 16 by decide
      | some d => exact d.wireBytes_lt
  unfold ProbeBudget.onTimerTick
  simp only
  split
  · exact hsent
  · have hrecovery := hsent.sends tick.recovery
    split
    · exact hrecovery.dummyLoop tick.dummies
    · exact (hrecovery.recoveryProbeLoop hlast tick.recoveryProbes).dummyLoop tick.dummies

theorem Inv.next {s : ProbeBudget} (h : s.Inv) (event : Event) : (s.next event).Inv := by
  cases event with
  | tick tick => exact h.onTimerTick tick
  | send d => exact h.send d

/-- In every run, the probes stay within their budget if and only if the code never asks for one with a
deficit while so many bytes may be sent. -/
theorem withinBudget_iff (events : List Event) :
    (events.foldl next start).WithinBudget ↔
      ∀ a ∈ (events.foldl next start).asked, Covered a := by
  have hinv : ∀ s : ProbeBudget, s.Inv → (events.foldl next s).Inv := by
    induction events with
    | nil => exact fun s hs => hs
    | cons event events ih => exact fun s hs => ih _ (hs.next event)
  have h := hinv start inv_start
  generalize events.foldl next start = s at h ⊢
  have hpermitted : ∀ a ∈ s.asked, (a.control.shouldSendProbe a.bytes = true →
      kProbeTokenRatio * a.bytes ≤ a.control.probeSendTokens) ↔ Covered a := fun a ha =>
    SenderBandwidthControl.permitted_iff (h.asked a ha).1 (h.asked a ha).2
  constructor
  · exact fun hwithin a ha => (hpermitted a ha).mp (hwithin.permitted a ha)
  · intro hcovered
    obtain ⟨-, hspent, hasked⟩ := h.sound hcovered
    exact ⟨fun a ha => (hpermitted a ha).mpr (hcovered a ha), hasked, hspent⟩

def firstTick : TimerTick where
  nowUsec := 10 ^ 9
  bps := 100000
  established := true
  sent := []
  recovery := []
  recoveryEnded := true
  disableProbes := false
  recoveryProbes := [⟨500, 0, false, by decide⟩]
  dummies := []
  bps_lt := by decide

/-- The probe leaves a deficit of 500 bytes, and the next one is permitted. -/
theorem not_withinBudget : ¬∀ events : List Event, (events.foldl next start).WithinBudget := by
  intro h
  have hwithin := (h [.tick firstTick]).permitted
    ⟨⟨500, 0, -500, 10 ^ 9⟩, 500, 500, 500, 500⟩ (by decide) (by decide)
  exact absurd hwithin (by decide)

end ProbeBudget

end Tonk.Session
