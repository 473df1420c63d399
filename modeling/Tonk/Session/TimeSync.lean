import Tonk.Protocol.Counter

/-!
`TimeSync.cpp`: the windowed minimum of the differences between the timestamps of datagrams, and the
clock offset and one-way delay that both sides work out of their minima. Counters are shown with what
they stand for: `Counter24` holds a difference of unbounded timestamps modulo `2 ^ 24`.
-/

set_option autoImplicit false

namespace Tonk.Session
open Protocol Serial

abbrev Counter16 := Counter 16 16
abbrev Counter23 := Counter 32 23
abbrev Counter24 := Counter 32 24
abbrev Counter64 := Counter 64 64

def kDefaultOWDUsec : Nat := 200 * 1000
def kTime23LostBits : Nat := 3
def kTime23Bias : Int := 0x200000
def kTime23ErrorBound : Nat := (1 <<< kTime23LostBits) * 2 - 1
def kTime16LostBits : Nat := 9
def kTime16Bias : Int := 0x4000
def kTime16ErrorBound : Nat := (1 <<< kTime16LostBits) * 2 - 1
def kDriftWindowUsec : Nat := 10 * 1000 * 1000

def counterLe {w k : Nat} (a b : Counter w k) : Bool := (b.sub a).value < Counter.kMSB k

structure Sample where
  value : Counter24
  timestamp : Nat
  deriving DecidableEq

def Sample.timeoutExpired (sample : Sample) (now timeout : Nat) : Bool :=
  timeout < sub 64 now sample.timestamp

structure WindowedMinTS24 where
  samples0 : Sample
  samples1 : Sample
  samples2 : Sample
  deriving DecidableEq

namespace WindowedMinTS24

def initial : WindowedMinTS24 := ⟨⟨.ofInt 0, 0⟩, ⟨.ofInt 0, 0⟩, ⟨.ofInt 0, 0⟩⟩

def isValid (w : WindowedMinTS24) : Bool := w.samples0.value ≠ .ofInt 0

def getBest (w : WindowedMinTS24) : Counter24 := w.samples0.value

def reset (sample : Sample) : WindowedMinTS24 := ⟨sample, sample, sample⟩

def place (w : WindowedMinTS24) (sample : Sample) : WindowedMinTS24 :=
  if counterLe sample.value w.samples1.value then { w with samples1 := sample, samples2 := sample }
  else if counterLe sample.value w.samples2.value then { w with samples2 := sample }
  else w

def expire (w : WindowedMinTS24) (sample : Sample) (windowLengthTime : Nat) : WindowedMinTS24 :=
  if w.samples0.timeoutExpired sample.timestamp windowLengthTime then
    if w.samples1.timeoutExpired sample.timestamp windowLengthTime then
      ⟨w.samples2, sample, sample⟩
    else ⟨w.samples1, w.samples2, sample⟩
  else if w.samples1.value = w.samples0.value ∧
      w.samples1.timeoutExpired sample.timestamp (windowLengthTime / 4) then
    { w with samples1 := sample, samples2 := sample }
  else if w.samples2.value = w.samples1.value ∧
      w.samples2.timeoutExpired sample.timestamp (windowLengthTime / 2) then
    { w with samples2 := sample }
  else w

def update (w : WindowedMinTS24) (value : Counter24) (timestamp windowLengthTime : Nat) :
    WindowedMinTS24 :=
  let sample : Sample := ⟨value, timestamp⟩
  if w.isValid = false ∨ counterLe value w.samples0.value ∨
      w.samples2.timeoutExpired timestamp windowLengthTime then reset sample
  else (w.place sample).expire sample windowLengthTime

end WindowedMinTS24

structure TimeSynchronizer where
  synchronized : Bool
  remoteTimeDeltaUsec : Nat
  minimumOneWayDelayUsec : Nat
  windowedMinTS24Deltas : WindowedMinTS24
  lastFCMinDeltaTS24 : Counter24
  gotPeerUpdate : Bool
  deriving DecidableEq

namespace TimeSynchronizer

def initial : TimeSynchronizer := ⟨false, 0, kDefaultOWDUsec, .initial, .ofInt 0, false⟩

def kSignRolloverThreshold : Nat := (1 <<< 22) <<< kTime23LostBits

def recalculate (s : TimeSynchronizer) : TimeSynchronizer :=
  if s.windowedMinTS24Deltas.isValid = false ∨ s.gotPeerUpdate = false then s
  else
    let minRecvDeltaTS24 := s.windowedMinTS24Deltas.getBest
    let minSendDeltaTS24 := s.lastFCMinDeltaTS24
    let minOWDTS23 : Counter23 := .ofInt ((minSendDeltaTS24.add minRecvDeltaTS24).value >>> 1 : Nat)
    let clockDeltaTS23 : Counter23 :=
      .ofInt ((minSendDeltaTS24.sub minRecvDeltaTS24).value >>> 1 : Nat)
    let minOwdUsec := minOWDTS23.value <<< kTime23LostBits
    { s with
      remoteTimeDeltaUsec := clockDeltaTS23.value <<< kTime23LostBits
      minimumOneWayDelayUsec := if kSignRolloverThreshold ≤ minOwdUsec then 0 else minOwdUsec
      synchronized := true }

def onPeerMinDeltaTS24 (s : TimeSynchronizer) (minDeltaTS24 : Counter24) : TimeSynchronizer :=
  { s with lastFCMinDeltaTS24 := minDeltaTS24, gotPeerUpdate := true }.recalculate

def localTimeToDatagramTS24 (localUsec : Nat) : Counter24 := .ofInt (localUsec >>> kTime23LostBits : Nat)

def getMinDeltaTS24 (s : TimeSynchronizer) : Counter24 := s.windowedMinTS24Deltas.getBest

/-- The synchronizer, and the trip time of the datagram. -/
def onAuthenticatedDatagramTimestamp (s : TimeSynchronizer) (remoteSendTS24 : Counter24)
    (localRecvUsec : Nat) : TimeSynchronizer × Nat :=
  let localTS24 : Counter24 := .ofInt (localRecvUsec >>> kTime23LostBits : Nat)
  let deltaTS24 := localTS24.sub remoteSendTS24
  let s := { s with windowedMinTS24Deltas :=
    s.windowedMinTS24Deltas.update deltaTS24 localRecvUsec kDriftWindowUsec }.recalculate
  if s.synchronized then
    let minDeltaTS24 := s.getMinDeltaTS24
    if counterLe deltaTS24 minDeltaTS24 then (s, s.minimumOneWayDelayUsec)
    else
      (s, (s.minimumOneWayDelayUsec +
        (deltaTS24.sub minDeltaTS24).value <<< kTime23LostBits) % 2 ^ 32)
  else (s, 0)

def toRemoteTime16 (s : TimeSynchronizer) (localUsec : Nat) : Counter16 :=
  if s.synchronized then
    .ofInt ((localUsec >>> kTime16LostBits) % 2 ^ 16 +
      (s.remoteTimeDeltaUsec >>> kTime16LostBits) % 2 ^ 16 : Nat)
  else .ofInt 0

def fromLocalTime16 (localUsec : Nat) (timestamp16 : Counter16) : Nat :=
  ((Counter.expandFromTruncatedWithBias (.ofInt (localUsec >>> kTime16LostBits : Nat) : Counter64)
    timestamp16 kTime16Bias).value <<< kTime16LostBits) % 2 ^ 64

def toRemoteTime23 (s : TimeSynchronizer) (localUsec : Nat) : Counter23 :=
  if s.synchronized then
    let localTS23 : Counter23 := .ofInt (localUsec >>> kTime23LostBits : Nat)
    let deltaTS23 : Counter23 := .ofInt (s.remoteTimeDeltaUsec >>> kTime23LostBits : Nat)
    localTS23.add deltaTS23
  else .ofInt 0

def fromLocalTime23 (localUsec : Nat) (timestamp23 : Counter23) : Nat :=
  ((Counter.expandFromTruncatedWithBias (.ofInt (localUsec >>> kTime23LostBits : Nat) : Counter64)
    timestamp23 kTime23Bias).value <<< kTime23LostBits) % 2 ^ 64

end TimeSynchronizer

/-! What the windowed minimum has after a sequence of differences. -/

structure Difference where
  delta : Int
  time : Int

namespace Difference

def sample (d : Difference) : Sample := ⟨.ofInt d.delta, wrap 64 d.time⟩

def observe (d : Difference) (w : WindowedMinTS24) : WindowedMinTS24 :=
  w.update d.sample.value d.sample.timestamp kDriftWindowUsec

/-- The least difference, not older than the window when the last one is taken; since it was taken
the time has not gone back. -/
structure Least (ds : List Difference) (m : Difference) : Prop where
  least : ∀ d ∈ ds, m.delta ≤ d.delta ∧ d.delta < m.delta + 2 ^ 23
  recent : ∃ older newer, ds = older ++ m :: newer ∧
    (m :: newer).Pairwise (fun d e => d.time ≤ e.time) ∧
    ∀ d ∈ newer, d.time ≤ m.time + kDriftWindowUsec
  nonzero : ¬ (2 : Int) ^ 24 ∣ m.delta

end Difference

section Windowed

open Difference

theorem value_ofInt (x : Int) : (Counter.ofInt x : Counter24).value = wrap 24 x :=
  Counter.ofInt_value (by decide) x

theorem ofInt_eq_iff (x y : Int) :
    (Counter.ofInt x : Counter24) = .ofInt y ↔ x ≡ y [ZMOD 2 ^ 24] := by
  rw [← wrap_eq_iff, ← value_ofInt, ← value_ofInt]
  exact ⟨fun h => by rw [h], Counter.ext_value⟩

theorem counterLe_ofInt {x y : Int} (hlo : y - 2 ^ 23 < x) (hhi : x ≤ y + 2 ^ 23) :
    counterLe (.ofInt x : Counter24) (.ofInt y) = true ↔ x ≤ y := by
  have hvalue := wrap_cast 24 (y - x)
  have hsub : ((Counter.ofInt y : Counter24).sub (.ofInt x)).value = wrap 24 (y - x) :=
    Counter.sub_ofInt_value (by decide) (value_ofInt y) x
  rw [counterLe, hsub, decide_eq_true_iff, Counter.kMSB]
  omega

theorem timeoutExpired_iff {t now : Int} (hlo : t ≤ now) (hhi : now < t + 2 ^ 64) (v : Counter24)
    (timeout : Nat) :
    (Sample.mk v (wrap 64 t)).timeoutExpired (wrap 64 now) timeout = true ↔ timeout < now - t := by
  have hcast := sub_cast 64 (wrap 64 now) (wrap 64 t)
  have hmod : (wrap 64 now : Int) - wrap 64 t ≡ now - t [ZMOD 2 ^ 64] :=
    (wrap_modEq 64 now).sub (wrap_modEq 64 t)
  rw [hmod, Int.emod_eq_of_lt (by omega) (by omega)] at hcast
  rw [Sample.timeoutExpired, decide_eq_true_iff]
  change timeout < sub 64 (wrap 64 now) (wrap 64 t) ↔ _
  omega

/-- The windowed minimum after the differences. -/
def windowedMin (ds : List Difference) : WindowedMinTS24 :=
  ds.foldl (fun w d => d.observe w) .initial

def WindowedMinTS24.toList (w : WindowedMinTS24) : List Sample :=
  [w.samples0, w.samples1, w.samples2]

theorem mem_place {w : WindowedMinTS24} {sample x : Sample} (h : x ∈ (w.place sample).toList) :
    x ∈ w.toList ∨ x = sample := by
  unfold WindowedMinTS24.place at h
  split_ifs at h <;>
    simp only [WindowedMinTS24.toList, List.mem_cons, List.not_mem_nil, or_false] at h ⊢ <;> tauto

theorem mem_expire {w : WindowedMinTS24} {sample x : Sample} {window : Nat}
    (h : x ∈ (w.expire sample window).toList) : x ∈ w.toList ∨ x = sample := by
  unfold WindowedMinTS24.expire at h
  split_ifs at h <;>
    simp only [WindowedMinTS24.toList, List.mem_cons, List.not_mem_nil, or_false] at h ⊢ <;> tauto

theorem mem_update {w : WindowedMinTS24} {value : Counter24} {timestamp window : Nat} {x : Sample}
    (h : x ∈ (w.update value timestamp window).toList) :
    x ∈ w.toList ∨ x = ⟨value, timestamp⟩ := by
  unfold WindowedMinTS24.update at h
  split at h
  · right
    simpa [WindowedMinTS24.reset, WindowedMinTS24.toList] using h
  · rcases mem_expire h with hplace | hnew
    · exact mem_place hplace
    · exact .inr hnew

theorem place_samples0 (w : WindowedMinTS24) (sample : Sample) :
    (w.place sample).samples0 = w.samples0 := by
  unfold WindowedMinTS24.place
  split_ifs <;> rfl

theorem expire_samples0 {w : WindowedMinTS24} {sample : Sample} {window : Nat}
    (h : w.samples0.timeoutExpired sample.timestamp window = false) :
    (w.expire sample window).samples0 = w.samples0 := by
  unfold WindowedMinTS24.expire
  rw [if_neg (by rw [h]; decide)]
  split_ifs <;> rfl

def Samples (w : WindowedMinTS24) (ds : List Difference) : Prop :=
  ∀ x ∈ w.toList, x.value = .ofInt 0 ∨ ∃ d ∈ ds, x.value = .ofInt d.delta

theorem Samples.observe {w : WindowedMinTS24} {ds : List Difference} (h : Samples w ds)
    (d : Difference) : Samples (d.observe w) (ds ++ [d]) := by
  intro x hmem
  rcases mem_update hmem with hold | rfl
  · rcases h x hold with hzero | ⟨e, he, hvalue⟩
    · exact .inl hzero
    · exact .inr ⟨e, List.mem_append_left _ he, hvalue⟩
  · exact .inr ⟨d, List.mem_append_right _ List.mem_cons_self, rfl⟩

theorem samples_windowedMin (ds : List Difference) : Samples (windowedMin ds) ds := by
  induction ds using List.reverseRecOn with
  | nil =>
    intro x hmem
    left
    have hx : x = ⟨.ofInt 0, 0⟩ := by
      simpa [windowedMin, WindowedMinTS24.initial, WindowedMinTS24.toList] using hmem
    rw [hx]
  | append_singleton ds d ih =>
    rw [windowedMin, List.foldl_append]
    exact ih.observe d

/-- The best sample is the least difference, and no sample is older. -/
structure Best (w : WindowedMinTS24) (m : Difference) (now : Int) : Prop where
  best : w.samples0.value = .ofInt m.delta
  recent : ∀ x ∈ w.toList, ∃ t, x.timestamp = wrap 64 t ∧ m.time ≤ t ∧ t ≤ now

theorem Samples.best {w : WindowedMinTS24} {ds : List Difference} {m : Difference}
    (h : Samples w ds) (hleast : ∀ d ∈ ds, m.delta ≤ d.delta ∧ d.delta < m.delta + 2 ^ 23) :
    Best (m.observe w) m m.time := by
  have hreplace : w.isValid = false ∨ counterLe m.sample.value w.samples0.value = true ∨
      w.samples2.timeoutExpired m.sample.timestamp kDriftWindowUsec = true := by
    rcases h w.samples0 (by simp [WindowedMinTS24.toList]) with hzero | ⟨d, hd, hvalue⟩
    · exact .inl (by simp [WindowedMinTS24.isValid, hzero])
    · right
      left
      obtain ⟨hle, hlt⟩ := hleast d hd
      rw [hvalue]
      exact (counterLe_ofInt (by omega) (by omega)).mpr hle
  have hreset : m.observe w = WindowedMinTS24.reset m.sample := if_pos hreplace
  rw [hreset]
  refine ⟨rfl, ?_⟩
  intro x hmem
  have hx : x = m.sample := by
    simpa [WindowedMinTS24.reset, WindowedMinTS24.toList] using hmem
  rw [hx]
  exact ⟨m.time, rfl, le_rfl, le_rfl⟩

theorem Best.observe {w : WindowedMinTS24} {m d : Difference} {now : Int} (h : Best w m now)
    (hleast : m.delta ≤ d.delta ∧ d.delta < m.delta + 2 ^ 23) (hnonzero : ¬ (2 : Int) ^ 24 ∣ m.delta)
    (hnow : now ≤ d.time) (hwindow : d.time ≤ m.time + kDriftWindowUsec) :
    Best (d.observe w) m d.time := by
  have hdrift : (kDriftWindowUsec : Int) = 10000000 := rfl
  have hfresh : ∀ x ∈ w.toList, x.timeoutExpired d.sample.timestamp kDriftWindowUsec = false := by
    intro x hmem
    obtain ⟨t, htime, hle, hle'⟩ := h.recent x hmem
    have hexpired := timeoutExpired_iff (show t ≤ d.time by omega)
      (show d.time < t + 2 ^ 64 by omega) x.value kDriftWindowUsec
    rw [← htime] at hexpired
    rw [Bool.eq_false_iff, ne_eq]
    change ¬ (Sample.mk x.value x.timestamp).timeoutExpired (wrap 64 d.time) _ = true
    rw [hexpired]
    omega
  have hsamples0 : w.samples0 ∈ w.toList := by simp [WindowedMinTS24.toList]
  have hsamples2 : w.samples2 ∈ w.toList := by simp [WindowedMinTS24.toList]
  have hvalid : w.isValid = true := by
    rw [WindowedMinTS24.isValid, decide_eq_true_iff, h.best, ne_eq, ofInt_eq_iff,
      Int.modEq_zero_iff_dvd]
    exact hnonzero
  constructor
  · unfold Difference.observe WindowedMinTS24.update
    split
    · next hreset =>
      rcases hreset with hinvalid | hle | hexpired
      · rw [hvalid] at hinvalid
        cases hinvalid
      · change counterLe (.ofInt d.delta) w.samples0.value = true at hle
        rw [h.best, counterLe_ofInt (by omega) (by omega)] at hle
        change (Counter.ofInt d.delta : Counter24) = _
        rw [show d.delta = m.delta by omega]
      · rw [hfresh w.samples2 hsamples2] at hexpired
        cases hexpired
    · rw [expire_samples0, place_samples0]
      · exact h.best
      · rw [place_samples0]
        exact hfresh w.samples0 hsamples0
  · intro x hmem
    rcases mem_update hmem with hold | rfl
    · obtain ⟨t, htime, hle, hle'⟩ := h.recent x hold
      exact ⟨t, htime, hle, hle'.trans hnow⟩
    · obtain ⟨t, -, hle, hle'⟩ := h.recent w.samples0 hsamples0
      exact ⟨d.time, rfl, by omega, le_rfl⟩

theorem Difference.Least.best {m : Difference} {older : List Difference}
    (holder : ∀ d ∈ older, m.delta ≤ d.delta ∧ d.delta < m.delta + 2 ^ 23)
    (hnonzero : ¬ (2 : Int) ^ 24 ∣ m.delta) (newer : List Difference)
    (hnewer : ∀ d ∈ newer, m.delta ≤ d.delta ∧ d.delta < m.delta + 2 ^ 23)
    (hsorted : (m :: newer).Pairwise fun d e => d.time ≤ e.time)
    (hwindow : ∀ d ∈ newer, d.time ≤ m.time + kDriftWindowUsec) :
    ∃ last ∈ m :: newer, Best (windowedMin (older ++ m :: newer)) m last.time := by
  induction newer using List.reverseRecOn with
  | nil =>
    refine ⟨m, List.mem_cons_self, ?_⟩
    rw [windowedMin, List.foldl_append]
    exact (samples_windowedMin older).best holder
  | append_singleton newer d ih =>
    rw [← List.cons_append, List.pairwise_append] at hsorted
    obtain ⟨last, hlast, hbest⟩ := ih (fun e he => hnewer e (List.mem_append_left _ he)) hsorted.1
      fun e he => hwindow e (List.mem_append_left _ he)
    refine ⟨d, by simp, ?_⟩
    rw [← List.cons_append, ← List.append_assoc, windowedMin, List.foldl_append]
    exact hbest.observe (hnewer d (by simp)) hnonzero (hsorted.2.2 last hlast d (by simp))
      (hwindow d (by simp))

theorem Difference.Least.getBest {ds : List Difference} {m : Difference} (h : Least ds m) :
    (windowedMin ds).getBest = .ofInt m.delta := by
  obtain ⟨older, newer, rfl, hsorted, hwindow⟩ := h.recent
  obtain ⟨_, -, hbest⟩ := Difference.Least.best
    (fun d hd => h.least d (List.mem_append_left _ hd)) h.nonzero newer
    (fun d hd => h.least d (List.mem_append_right _ (List.mem_cons_of_mem _ hd))) hsorted hwindow
  exact hbest.best

end Windowed
end Tonk.Session
