import Tonk.Session.ProbeBudget
import Tonk.Siamese.WindowedExtremum

set_option autoImplicit false

namespace Tonk.Session
open Protocol Siamese

abbrev Counter32 := Counter 32 32

def kDetectQueueDelayUsec : Nat := 10000

structure Measurement where
  minReceiveSendDeltaTS24 : Int
  timestampUsec : Nat
  smoothedMinTripUsec : Nat
  interPacketGapUsec : Nat

def Measurement.sample (m : Measurement) : Report Int := ⟨m.minReceiveSendDeltaTS24, m.timestampUsec⟩

structure ReceiverBandwidthControl where
  measurement : Measurement
  recentOWD : WindowedMinMax Counter32
  recentOWD_WindowUsec : Nat
  minOWD : WindowedMinMax Counter32
  minOWD_WindowUsec : Nat

namespace ReceiverBandwidthControl

def initial : ReceiverBandwidthControl := ⟨⟨0, 0, 0, 0⟩, .initial, 100 * 1000, .initial, 1000 * 1000⟩

def recentWindowUsec (m : Measurement) : Nat :=
  let recentWindowUsec := kSendTimerTickIntervalUsec * 6
  let minTripUsec := m.smoothedMinTripUsec / 2
  let recentWindowUsec := if recentWindowUsec < minTripUsec then minTripUsec else recentWindowUsec
  let minIpg2Usec := m.interPacketGapUsec * 2 % 2 ^ 32
  if recentWindowUsec < minIpg2Usec then minIpg2Usec else recentWindowUsec

def onProcessedDatagram (s : ReceiverBandwidthControl) (measured : Option Measurement) :
    ReceiverBandwidthControl :=
  let m := measured.getD s.measurement
  { s with
    measurement := m
    minOWD := s.minOWD.update counterLe (.ofInt m.minReceiveSendDeltaTS24) m.timestampUsec
      s.minOWD_WindowUsec
    recentOWD := s.recentOWD.update counterLe (.ofInt m.minReceiveSendDeltaTS24) m.timestampUsec
      s.recentOWD_WindowUsec
    recentOWD_WindowUsec :=
      if measured.isSome then recentWindowUsec m else s.recentOWD_WindowUsec }

def updateCC (s : ReceiverBandwidthControl) (smoothedSendDelayUsec : Nat) :
    ReceiverBandwidthControl :=
  let minRttUsec := (smoothedSendDelayUsec + s.measurement.smoothedMinTripUsec) % 2 ^ 32
  let minRttUsec := if minRttUsec = 0 then 100000 else minRttUsec
  let minWindowUsec := minRttUsec * 8 % 2 ^ 32
  { s with minOWD_WindowUsec := if minWindowUsec < 4000000 then 4000000 else minWindowUsec }

def queueDelayUsec (s : ReceiverBandwidthControl) : Nat :=
  (s.recentOWD.getBest.sub s.minOWD.getBest).value <<< kTime23LostBits % 2 ^ 32

def NotNegative (s : ReceiverBandwidthControl) : Prop :=
  counterLe s.minOWD.getBest s.recentOWD.getBest = true

instance (s : ReceiverBandwidthControl) : Decidable s.NotNegative :=
  inferInstanceAs (Decidable (_ = _))

/-- What is left of RecentOWD is no better than the new sample, or than something left of MinOWD. -/
def Covered (s : ReceiverBandwidthControl) (new : Report Int) : Prop :=
  ∀ x ∈ s.recentOWD.survivors new.timestamp s.recentOWD_WindowUsec,
    counterLe (.ofInt new.value) x.value = true ∨
      ∃ y ∈ s.minOWD.survivors new.timestamp s.minOWD_WindowUsec, counterLe y.value x.value = true

end ReceiverBandwidthControl

/-- The controller and the samples so far, those after the first measurement. -/
structure QueueingDelay where
  control : ReceiverBandwidthControl
  samples : List (Report Int)

namespace QueueingDelay

open ReceiverBandwidthControl (NotNegative Covered)

def start : QueueingDelay := ⟨.initial, []⟩

inductive Event where
  | processedDatagram (measured : Option Measurement)
  | updateCC (smoothedSendDelayUsec : Nat)

def next (s : QueueingDelay) : Event → QueueingDelay
  | .processedDatagram measured =>
    ⟨s.control.onProcessedDatagram measured,
      if measured = none ∧ s.samples = [] then []
      else s.samples ++ [(measured.getD s.control.measurement).sample]⟩
  | .updateCC smoothedSendDelayUsec => ⟨s.control.updateCC smoothedSendDelayUsec, s.samples⟩

def run (events : List Event) : QueueingDelay := events.foldl next start

theorem run_append (events : List Event) (e : Event) :
    run (events ++ [e]) = (run events).next e := by
  rw [run, List.foldl_append]
  rfl

def NeverNegative (events : List Event) : Prop :=
  ∀ before, before <+: events → NotNegative (run before).control

def CoveredAt (s : QueueingDelay) : Event → Prop
  | .processedDatagram measured =>
    Covered s.control (measured.getD s.control.measurement).sample
  | .updateCC _ => True

def AlwaysCovered (events : List Event) : Prop :=
  ∀ before e, before ++ [e] <+: events → CoveredAt (run before) e

def WindowsApart (events : List Event) : Prop :=
  ∀ before, before <+: events →
    6 * (run before).control.recentOWD_WindowUsec ≤ (run before).control.minOWD_WindowUsec

/-- The trackers hold reports of the samples so far; without one they are empty. -/
structure Inv (s : QueueingDelay) : Prop where
  empty : s.samples = [] → s.control.minOWD = .initial ∧ s.control.recentOWD = .initial ∧
    s.control.measurement.sample = ⟨0, 0⟩
  shows : s.samples ≠ [] →
    (∃ c r0 r1 r2, Shows Counter.ofInt id s.samples s.control.minOWD c r0 r1 r2) ∧
    ∃ c r0 r1 r2, Shows Counter.ofInt id s.samples s.control.recentOWD c r0 r1 r2

theorem inv_start : start.Inv := ⟨fun _ => ⟨rfl, rfl, rfl⟩, fun h => absurd rfl h⟩

theorem agrees_of_withinHalfRange {samples : List (Report Int)}
    (h : WithinHalfRange 32 samples) :
    Agrees counterLe (Counter.ofInt : Int → Counter32) id samples :=
  fun r hr r' hr' => counterLe_iff (by decide) (by decide) (h r hr r' hr')

theorem update_initial (value : Counter32) (timestamp windowLengthTime : Nat) :
    (WindowedMinMax.initial : WindowedMinMax Counter32).update counterLe value timestamp
      windowLengthTime = .reset ⟨value, timestamp⟩ := by
  have hinvalid : (WindowedMinMax.initial : WindowedMinMax Counter32).isValid = false := by
    simp [WindowedMinMax.isValid, WindowedMinMax.initial]
  simp only [WindowedMinMax.update, hinvalid, true_or, if_true]

theorem counterLe_self (x : Counter32) : counterLe x x = true := by
  rw [counterLe, Counter.sub_value (by decide), sub_self]
  rfl

theorem Inv.first {s : QueueingDelay} (h : s.Inv) (hempty : s.samples = [])
    (measured : Option Measurement) :
    NotNegative (s.control.onProcessedDatagram measured) ∧
      Covered s.control (measured.getD s.control.measurement).sample := by
  obtain ⟨hmin, hrecent, -⟩ := h.empty hempty
  constructor
  · simp only [NotNegative, ReceiverBandwidthControl.onProcessedDatagram, hmin, hrecent,
      update_initial]
    exact counterLe_self _
  · intro x hx
    rw [hrecent] at hx
    cases hx

/-- Reports of the samples so far let the delay become negative exactly where it is not covered. -/
theorem Inv.notNegative_iff {s : QueueingDelay} (h : s.Inv) (hne : s.samples ≠ [])
    (measured : Option Measurement)
    (htimely : Timely (s.samples ++ [(measured.getD s.control.measurement).sample]))
    (hhalf : WithinHalfRange 32 (s.samples ++ [(measured.getD s.control.measurement).sample])) :
    NotNegative (s.control.onProcessedDatagram measured) ↔
      Covered s.control (measured.getD s.control.measurement).sample := by
  generalize hnew : (measured.getD s.control.measurement).sample = new at htimely hhalf ⊢
  have hagrees := agrees_of_withinHalfRange hhalf
  have hold : ∀ {r : Report Int}, r ∈ s.samples → r ∈ s.samples ++ [new] := List.mem_append_left _
  have hmem : new ∈ s.samples ++ [new] := List.mem_append_right _ (List.mem_singleton.mpr rfl)
  obtain ⟨⟨c, r0, r1, r2, hmin⟩, c', r0', r1', r2', hrecent⟩ := h.shows hne
  obtain ⟨b, hb, hbest, hbfrom, hbnew, hbleast⟩ :=
    hmin.best_update s.control.minOWD_WindowUsec hagrees htimely
  obtain ⟨b', hb', hbest', hbfrom', hbnew', hbleast'⟩ :=
    hrecent.best_update s.control.recentOWD_WindowUsec hagrees htimely
  have hiff : NotNegative (s.control.onProcessedDatagram measured) ↔ b.value ≤ b'.value := by
    subst hnew
    rw [← show _ ↔ b.value ≤ b'.value from hagrees b hb b' hb', ← hbest, ← hbest']
    rfl
  rw [hiff]
  constructor
  · intro hle x hx
    obtain ⟨r, hr, rfl, hrle⟩ := hbleast' x hx
    rcases hbfrom with rfl | hfrom
    · exact .inl ((hagrees b hmem r (hold hr)).mpr (hle.trans hrle))
    · exact .inr ⟨_, hfrom, (hagrees b hb r (hold hr)).mpr (hle.trans hrle)⟩
  · intro hcovered
    rcases hbfrom' with rfl | hfrom'
    · exact hbnew
    · rcases hcovered _ hfrom' with hle | ⟨y, hy, hle⟩
      · exact hbnew.trans ((hagrees new hmem b' hb').mp hle)
      · obtain ⟨r, hr, rfl, hrle⟩ := hbleast y hy
        exact hrle.trans ((hagrees r (hold hr) b' hb').mp hle)

theorem next_samples (s : QueueingDelay) (e : Event) :
    ∃ more, (s.next e).samples = s.samples ++ more := by
  cases e with
  | processedDatagram measured =>
    by_cases hnone : measured = none ∧ s.samples = []
    · exact ⟨[], by simp [next, hnone]⟩
    · exact ⟨_, if_neg hnone⟩
  | updateCC smoothedSendDelayUsec => exact ⟨[], (List.append_nil _).symm⟩

theorem Inv.next {s : QueueingDelay} (h : s.Inv) (e : Event)
    (htimely : Timely (s.next e).samples) (hhalf : WithinHalfRange 32 (s.next e).samples) :
    (s.next e).Inv := by
  cases e with
  | updateCC smoothedSendDelayUsec => exact ⟨h.empty, h.shows⟩
  | processedDatagram measured =>
    by_cases hempty : s.samples = []
    · obtain ⟨hmin, hrecent, hzero⟩ := h.empty hempty
      cases measured with
      | none =>
        have hnext : (s.next (.processedDatagram none)).samples = [] := by
          simp [QueueingDelay.next, hempty]
        refine ⟨fun _ => ?_, fun hne => absurd hnext hne⟩
        simp only [QueueingDelay.next, ReceiverBandwidthControl.onProcessedDatagram, hmin, hrecent,
          update_initial, Option.getD_none]
        rw [Measurement.sample, Report.mk.injEq] at hzero
        rw [Measurement.sample, hzero.1, hzero.2]
        exact ⟨rfl, rfl, rfl⟩
      | some m =>
        have hnext : (s.next (.processedDatagram (some m))).samples = [m.sample] := by
          simp [QueueingDelay.next, hempty]
        refine ⟨fun hnil => ?_, fun _ => ?_⟩
        · rw [hnext] at hnil
          cases hnil
        · have hreset := shows_reset (Counter.ofInt : Int → Counter32) id [] m.sample
          rw [hnext]
          simp only [QueueingDelay.next, ReceiverBandwidthControl.onProcessedDatagram, hmin,
            hrecent, update_initial, Option.getD_some]
          exact ⟨⟨_, _, _, _, hreset⟩, _, _, _, _, hreset⟩
    · have hnext : (s.next (.processedDatagram measured)).samples =
          s.samples ++ [(measured.getD s.control.measurement).sample] :=
        if_neg fun hboth => hempty hboth.2
      rw [hnext] at htimely hhalf
      have hagrees := agrees_of_withinHalfRange hhalf
      obtain ⟨⟨c, r0, r1, r2, hmin⟩, c', r0', r1', r2', hrecent⟩ := h.shows hempty
      obtain ⟨_, _, _, hmin', -⟩ :=
        hmin.update s.control.minOWD_WindowUsec hagrees htimely
      obtain ⟨_, _, _, hrecent', -⟩ :=
        hrecent.update s.control.recentOWD_WindowUsec hagrees htimely
      refine ⟨fun hnil => ?_, fun _ => ?_⟩
      · rw [hnext] at hnil
        exact absurd hnil (List.append_ne_nil_of_right_ne_nil _ (List.cons_ne_nil _ _))
      · rw [hnext]
        exact ⟨⟨_, _, _, _, hmin'⟩, _, _, _, _, hrecent'⟩

theorem Inv.next_notNegative_iff {s : QueueingDelay} (h : s.Inv) (e : Event)
    (htimely : Timely (s.next e).samples) (hhalf : WithinHalfRange 32 (s.next e).samples)
    (hbefore : NotNegative s.control) : NotNegative (s.next e).control ↔ CoveredAt s e := by
  cases e with
  | updateCC smoothedSendDelayUsec => exact iff_of_true hbefore trivial
  | processedDatagram measured =>
    by_cases hempty : s.samples = []
    · obtain ⟨hnot, hcovered⟩ := h.first hempty measured
      exact iff_of_true hnot hcovered
    · have hnext : (s.next (.processedDatagram measured)).samples =
          s.samples ++ [(measured.getD s.control.measurement).sample] :=
        if_neg fun hboth => hempty hboth.2
      rw [hnext] at htimely hhalf
      exact h.notNegative_iff hempty measured htimely hhalf

theorem neverNegative_append (events : List Event) (e : Event) :
    NeverNegative (events ++ [e]) ↔
      NeverNegative events ∧ NotNegative ((run events).next e).control := by
  rw [← run_append]
  exact Transition.forall_prefix_concat

theorem alwaysCovered_append (events : List Event) (e : Event) :
    AlwaysCovered (events ++ [e]) ↔ AlwaysCovered events ∧ CoveredAt (run events) e :=
  Transition.forall_call_concat

/-- The delay is never negative if and only if every sample finds what is left of RecentOWD
covered. -/
theorem neverNegative_iff (events : List Event) (htimely : Timely (run events).samples)
    (hhalf : WithinHalfRange 32 (run events).samples) :
    NeverNegative events ↔ AlwaysCovered events := by
  have hboth : (run events).Inv ∧ (NeverNegative events ↔ AlwaysCovered events) := by
    induction events using List.reverseRecOn with
    | nil =>
      refine ⟨inv_start, iff_of_true (fun before hbefore => ?_) Transition.forall_call_nil⟩
      rw [List.prefix_nil.mp hbefore]
      exact counterLe_self _
    | append_singleton events e ih =>
      rw [run_append] at htimely hhalf ⊢
      obtain ⟨more, hmore⟩ := next_samples (run events) e
      have hhalf' : WithinHalfRange 32 (run events).samples := by
        intro r hr r' hr'
        rw [hmore] at hhalf
        exact hhalf r (List.mem_append_left _ hr) r' (List.mem_append_left _ hr')
      obtain ⟨hinv, hiff⟩ := ih (Timely.of_append (hmore ▸ htimely)) hhalf'
      refine ⟨hinv.next e htimely hhalf, ?_⟩
      rw [neverNegative_append, alwaysCovered_append, hiff]
      refine and_congr_right fun hcovered => hinv.next_notNegative_iff e htimely hhalf ?_
      exact hiff.mpr hcovered events List.prefix_rfl
  exact hboth.2

instance (events : List Event) : Decidable (NeverNegative events) :=
  decidable_of_iff (∀ before ∈ events.inits, NotNegative (run before).control) <| by
    simp only [List.mem_inits, NeverNegative]

instance (events : List Event) : Decidable (WindowsApart events) :=
  decidable_of_iff (∀ before ∈ events.inits,
    6 * (run before).control.recentOWD_WindowUsec ≤ (run before).control.minOWD_WindowUsec) <| by
    simp only [List.mem_inits, WindowsApart]

def measured (delay : Int) (timestampUsec : Nat) : Event :=
  .processedDatagram (some ⟨delay, timestampUsec, 20000, 50000⟩)

/-- Each measurement is read once more. The best of the last four seconds becomes zero, which counts as
no sample, and the next update forgets it. -/
def zeroBest : List Event :=
  [.updateCC 20000, measured (-50) 1000000, .processedDatagram none,
    measured 0 2100000, .processedDatagram none, measured 105 4980000, .processedDatagram none,
    measured 110 5010000, .processedDatagram none]

def windowShrinks : List Event :=
  [.updateCC 2480000, measured 100 1000000, .processedDatagram none,
    measured 105 5900000, .processedDatagram none, .updateCC 20000,
    measured 110 5950000, .processedDatagram none]

/-- Two runs in which the queueing delay is negative at the end. -/
theorem zeroBest_negative :
    (Timely (run zeroBest).samples ∧ WithinHalfRange 32 (run zeroBest).samples ∧
      WindowsApart zeroBest ∧ ¬ NeverNegative zeroBest ∧
      kDetectQueueDelayUsec < (run zeroBest).control.queueDelayUsec) ∧
    Timely (run windowShrinks).samples ∧ WithinHalfRange 32 (run windowShrinks).samples ∧
      WindowsApart windowShrinks ∧ ¬ NeverNegative windowShrinks ∧
      kDetectQueueDelayUsec < (run windowShrinks).control.queueDelayUsec := by
  refine ⟨⟨⟨by decide, by decide⟩, by unfold WithinHalfRange; decide, by decide, by decide,
    by decide⟩, ⟨by decide, by decide⟩, by unfold WithinHalfRange; decide, by decide, by decide,
    by decide⟩

/-- A run in which the shorter window loses the best sample and the longer one keeps it. -/
theorem neverNegative_iff_two :
    NeverNegative [measured 100 1000000, measured 105 1200000] ↔
      AlwaysCovered [measured 100 1000000, measured 105 1200000] :=
  neverNegative_iff _ ⟨by decide, by decide⟩ (by unfold WithinHalfRange; decide)

end QueueingDelay

end Tonk.Session
