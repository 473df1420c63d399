import Mathlib.Data.List.TakeWhile
import Tonk.Session.QueueingDelay
import Tonk.Session.StrikeRegister

/-!
`BandwidthEstimator`: the intervals between local minima of the trip time, and the loss that is read
off the nonces at their ends. What is computed in floating point is a parameter.
-/

set_option autoImplicit false

namespace Tonk.Session
open Protocol Serial

def kBWMaxIntervalUsec : Nat := 325 * 1000
def kMinBWIntervalUsec : Nat := 22 * 1000
def kMinBWIntervalDatagrams : Nat := 10

def ewma (smoothed latest : Nat) : Nat := (smoothed * 7 + latest) % 2 ^ 32 / 8

structure DatagramInfo where
  nonce : Nat
  networkTripUsec : Nat
  receiveUsec : Nat
  datagramBytes : Nat
  receiveSendDeltaTS24 : Counter32

structure InterPacketGapEstimator where
  lastReceiveUsec : Nat
  maxUsec : Nat
  smoothedMaxUsec : Nat

namespace InterPacketGapEstimator

def onDatagram (g : InterPacketGapEstimator) (receiveUsec : Nat) : InterPacketGapEstimator :=
  let delta := signed 64 (sub 64 receiveUsec g.lastReceiveUsec)
  if delta ≤ 0 then g
  else
    { g with
      maxUsec :=
        if delta < kBWMaxIntervalUsec ∧ g.lastReceiveUsec ≠ 0 ∧ g.maxUsec < wrap 32 delta then
          wrap 32 delta
        else g.maxUsec
      lastReceiveUsec := receiveUsec }

def onIntervalEnd (g : InterPacketGapEstimator) : InterPacketGapEstimator :=
  if g.maxUsec = 0 then g
  else { g with smoothedMaxUsec := ewma g.smoothedMaxUsec g.maxUsec, maxUsec := 0 }

end InterPacketGapEstimator

structure LossRate (F : Type) where
  zero : F
  quotient : Nat → Int → F
  smooth : F → F → F

structure BurstMeasurement (F : Type) where
  timestampUsec : Nat
  smoothedGoodputBPS : Nat
  latestProbeBPS : Nat
  smoothedMaxTripUsec : Nat
  smoothedMinTripUsec : Nat
  smoothedPLR : F
  minReceiveSendDeltaTS24 : Counter32

structure BandwidthEstimator (F : Type) where
  measurement : BurstMeasurement F
  interPacketGap : InterPacketGapEstimator
  start : DatagramInfo
  seekingMinimum : Bool
  previous : DatagramInfo
  intervalDatagramBytes : Nat
  intervalInSeqCount : Nat
  intervalMaxTripUsec : Nat
  nextExpectedNonce : Nat

namespace BandwidthEstimator

variable {F : Type}

def noDatagram : DatagramInfo := ⟨0, 0, 0, 0, .ofInt 0⟩

def initial (rate : LossRate F) : BandwidthEstimator F :=
  { measurement := ⟨0, 0, 0, 0, 0, rate.zero, .ofInt 0⟩
    interPacketGap := ⟨0, 0, 0⟩
    start := noDatagram
    seekingMinimum := true
    previous := noDatagram
    intervalDatagramBytes := 0
    intervalInSeqCount := 0
    intervalMaxTripUsec := 0
    nextExpectedNonce := 0 }

/-- What OnInterval takes for the number of datagrams sent. -/
def expected (s : BandwidthEstimator F) : Int :=
  toInt32 (signed 64 (sub 64 s.previous.nonce s.start.nonce))

def lossCount (s : BandwidthEstimator F) : Int := s.expected - toInt32 s.intervalInSeqCount

def plr (rate : LossRate F) (s : BandwidthEstimator F) : F :=
  if 0 < s.expected ∧ 0 < s.lossCount then rate.quotient (wrap 32 s.lossCount) s.expected
  else rate.zero

def smoothFrom (smoothed latest : Nat) : Nat :=
  if smoothed = 0 then latest else ewma smoothed latest

def measure (rate : LossRate F) (s : BandwidthEstimator F) (intervalUsec : Nat) :
    BurstMeasurement F :=
  let m := s.measurement
  let scaledBytes := s.intervalDatagramBytes * 1000000 % 2 ^ 64
  let receiveBPS := if 0 < intervalUsec then scaledBytes / intervalUsec % 2 ^ 32 else 0
  { timestampUsec := s.previous.receiveUsec
    latestProbeBPS := receiveBPS
    smoothedPLR := rate.smooth m.smoothedPLR (s.plr rate)
    smoothedGoodputBPS := smoothFrom m.smoothedGoodputBPS receiveBPS
    smoothedMinTripUsec := smoothFrom m.smoothedMinTripUsec s.previous.networkTripUsec
    smoothedMaxTripUsec := smoothFrom m.smoothedMaxTripUsec s.intervalMaxTripUsec
    minReceiveSendDeltaTS24 := s.previous.receiveSendDeltaTS24 }

def onInterval (rate : LossRate F) (s : BandwidthEstimator F) (intervalUsec : Nat) :
    BandwidthEstimator F :=
  { s with
    measurement := s.measure rate intervalUsec
    interPacketGap := s.interPacketGap.onIntervalEnd
    start := s.previous
    intervalDatagramBytes := 0
    intervalInSeqCount := 0 }

def intervalUsec (s : BandwidthEstimator F) : Nat :=
  sub 64 s.previous.receiveUsec s.start.receiveUsec % 2 ^ 32

def intervalDone (s : BandwidthEstimator F) : Bool :=
  (decide (kMinBWIntervalDatagrams ≤ s.intervalInSeqCount) &&
    decide (kMinBWIntervalUsec ≤ s.intervalUsec) &&
    decide (s.interPacketGap.smoothedMaxUsec * 2 % 2 ^ 32 ≤ s.intervalUsec)) ||
  (decide (kBWMaxIntervalUsec ≤ s.intervalUsec) &&
    decide ((s.start.nonce + 2) % 2 ^ 64 < s.previous.nonce))

def findMinimum (rate : LossRate F) (s : BandwidthEstimator F) (datagram : DatagramInfo) :
    BandwidthEstimator F × Bool :=
  let delta := datagram.receiveSendDeltaTS24.value
  let previousDelta := s.previous.receiveSendDeltaTS24.value
  if s.seekingMinimum then
    -- operator> is operator< of the difference taken the other way
    if counterLt 32 previousDelta delta then
      let ended := if s.intervalDone then s.onInterval rate s.intervalUsec else s
      ({ ended with seekingMinimum := false, intervalMaxTripUsec := datagram.networkTripUsec },
        s.intervalDone)
    else (s, false)
  else if counterLt 32 delta previousDelta then ({ s with seekingMinimum := true }, false)
  else if s.intervalMaxTripUsec < datagram.networkTripUsec then
    ({ s with intervalMaxTripUsec := datagram.networkTripUsec }, false)
  else (s, false)

def reordered (s : BandwidthEstimator F) (datagram : DatagramInfo) : Bool :=
  signed 64 (sub 64 datagram.nonce s.nextExpectedNonce) < 0

def addBytes (s : BandwidthEstimator F) (datagram : DatagramInfo) : BandwidthEstimator F :=
  { s with
    intervalDatagramBytes := (s.intervalDatagramBytes + datagram.datagramBytes) % 2 ^ 32 }

def count (s : BandwidthEstimator F) (datagram : DatagramInfo) : BandwidthEstimator F :=
  { s.addBytes datagram with
    previous := datagram
    intervalInSeqCount := (s.intervalInSeqCount + 1) % 2 ^ 32 }

def updateOnDatagram (rate : LossRate F) (s : BandwidthEstimator F) (datagram : DatagramInfo) :
    BandwidthEstimator F × Bool :=
  if s.start.nonce = 0 then ({ s with start := datagram, previous := datagram }, false)
  else
    let s := { s with interPacketGap := s.interPacketGap.onDatagram datagram.receiveUsec }
    if s.reordered datagram then (s.addBytes datagram, false)
    else
      let s := { s with nextExpectedNonce := (datagram.nonce + 1) % 2 ^ 64 }
      let found := s.findMinimum rate datagram
      (found.1.count datagram, found.2)

theorem findMinimum_spec (rate : LossRate F) (s : BandwidthEstimator F) (datagram : DatagramInfo) :
    (s.findMinimum rate datagram).1.nextExpectedNonce = s.nextExpectedNonce ∧
      (s.findMinimum rate datagram).1.start =
        (if (s.findMinimum rate datagram).2 then s.previous else s.start) ∧
      (s.findMinimum rate datagram).1.intervalInSeqCount =
        (if (s.findMinimum rate datagram).2 then 0 else s.intervalInSeqCount) ∧
      ((s.findMinimum rate datagram).2 = true → s.intervalDone = true) := by
  unfold findMinimum
  by_cases hseeking : s.seekingMinimum = true
  · rw [if_pos hseeking]
    by_cases hturn : counterLt 32 s.previous.receiveSendDeltaTS24.value
        datagram.receiveSendDeltaTS24.value = true
    · rw [if_pos hturn]
      cases hdone : s.intervalDone with
      | true => exact ⟨rfl, rfl, rfl, fun _ => rfl⟩
      | false => exact ⟨rfl, rfl, rfl, Bool.noConfusion⟩
    · rw [if_neg hturn]
      exact ⟨rfl, rfl, rfl, Bool.noConfusion⟩
  · rw [if_neg hseeking]
    by_cases hturn : counterLt 32 datagram.receiveSendDeltaTS24.value
        s.previous.receiveSendDeltaTS24.value = true
    · rw [if_pos hturn]
      exact ⟨rfl, rfl, rfl, Bool.noConfusion⟩
    · rw [if_neg hturn]
      by_cases htrip : s.intervalMaxTripUsec < datagram.networkTripUsec
      · rw [if_pos htrip]
        exact ⟨rfl, rfl, rfl, Bool.noConfusion⟩
      · rw [if_neg htrip]
        exact ⟨rfl, rfl, rfl, Bool.noConfusion⟩

theorem intervalDone_imp {s : BandwidthEstimator F} (h : s.intervalDone = true) :
    kMinBWIntervalDatagrams ≤ s.intervalInSeqCount ∨
      (s.start.nonce + 2) % 2 ^ 64 < s.previous.nonce := by
  simp only [intervalDone, Bool.or_eq_true, Bool.and_eq_true, decide_eq_true_eq] at h
  rcases h with ⟨⟨hcount, -⟩, -⟩ | ⟨-, hpassed⟩
  · exact .inl hcount
  · exact .inr hpassed

theorem updateOnDatagram_first (rate : LossRate F) {s : BandwidthEstimator F}
    (datagram : DatagramInfo) (hstart : s.start.nonce = 0) :
    s.updateOnDatagram rate datagram = ({ s with start := datagram, previous := datagram }, false) :=
  if_pos hstart

theorem updateOnDatagram_reordered (rate : LossRate F) {s : BandwidthEstimator F}
    {datagram : DatagramInfo} (hstart : s.start.nonce ≠ 0) (horder : s.reordered datagram = true) :
    (s.updateOnDatagram rate datagram).2 = false ∧
      (s.updateOnDatagram rate datagram).1.start = s.start ∧
      (s.updateOnDatagram rate datagram).1.previous = s.previous ∧
      (s.updateOnDatagram rate datagram).1.nextExpectedNonce = s.nextExpectedNonce ∧
      (s.updateOnDatagram rate datagram).1.intervalInSeqCount = s.intervalInSeqCount := by
  have heq : s.updateOnDatagram rate datagram =
      ({ s with interPacketGap := s.interPacketGap.onDatagram datagram.receiveUsec }.addBytes
        datagram, false) := by
    rw [updateOnDatagram, if_neg hstart]
    exact if_pos horder
  rw [heq]
  exact ⟨rfl, rfl, rfl, rfl, rfl⟩

theorem updateOnDatagram_inOrder (rate : LossRate F) {s : BandwidthEstimator F}
    {datagram : DatagramInfo} (hstart : s.start.nonce ≠ 0) (horder : s.reordered datagram = false) :
    (s.updateOnDatagram rate datagram).1.previous = datagram ∧
      (s.updateOnDatagram rate datagram).1.nextExpectedNonce = (datagram.nonce + 1) % 2 ^ 64 ∧
      (s.updateOnDatagram rate datagram).1.start =
        (if (s.updateOnDatagram rate datagram).2 then s.previous else s.start) ∧
      (s.updateOnDatagram rate datagram).1.intervalInSeqCount =
        ((if (s.updateOnDatagram rate datagram).2 then 0 else s.intervalInSeqCount) + 1) % 2 ^ 32 ∧
      ((s.updateOnDatagram rate datagram).2 = true →
        kMinBWIntervalDatagrams ≤ s.intervalInSeqCount ∨
          (s.start.nonce + 2) % 2 ^ 64 < s.previous.nonce) := by
  generalize hmoved : { s with
    interPacketGap := s.interPacketGap.onDatagram datagram.receiveUsec
    nextExpectedNonce := (datagram.nonce + 1) % 2 ^ 64 } = moved
  have heq : s.updateOnDatagram rate datagram =
      ((moved.findMinimum rate datagram).1.count datagram, (moved.findMinimum rate datagram).2) := by
    rw [updateOnDatagram, if_neg hstart, ← hmoved]
    exact if_neg (ne_true_of_eq_false horder)
  obtain ⟨hnext, hfrom, hcount, hdone⟩ := moved.findMinimum_spec rate datagram
  have hpassed := fun hupdated => intervalDone_imp (hdone hupdated)
  rw [heq]
  subst hmoved
  refine ⟨rfl, hnext, hfrom, ?_, hpassed⟩
  rw [← hcount]
  rfl

section Nonces

theorem signed_sub {a b : Nat} (ha : a < 2 ^ 32) (hb : b < 2 ^ 32) :
    signed 64 (sub 64 a b) = (a : Int) - b := by
  refine signed_eq_of_modEq (by decide) (sub_lt 64 a b) ?_ (by omega) (by omega)
  rw [sub_cast]
  exact Int.mod_modEq _ _

theorem reordered_eq (s : BandwidthEstimator F) {datagram : DatagramInfo}
    (hnonce : datagram.nonce < 2 ^ 31) (hnext : s.nextExpectedNonce ≤ 2 ^ 31) :
    s.reordered datagram = decide (datagram.nonce < s.nextExpectedNonce) := by
  rw [reordered, signed_sub (by omega) (by omega)]
  exact decide_eq_decide.2 (by omega)

theorem lossCount_eq {s : BandwidthEstimator F} (hstart : s.start.nonce < 2 ^ 31)
    (hprevious : s.previous.nonce < 2 ^ 31) (hcount : s.intervalInSeqCount < 2 ^ 31) :
    s.lossCount = (s.previous.nonce : Int) - s.start.nonce - s.intervalInSeqCount := by
  rw [lossCount, expected, signed_sub (by omega) (by omega), toInt32_of_range (by omega),
    toInt32_of_range (by omega)]

end Nonces

end BandwidthEstimator

structure IntervalEnd where
  start : Nat
  previous : Nat
  inSeqCount : Nat
  lossCount : Int
  inSeq : List Nat
  deriving DecidableEq

/-- The datagrams counted are no more than the nonces passed, and the loss is the number of nonces
skipped. -/
def IntervalEnd.Right (e : IntervalEnd) : Prop :=
  e.start + e.inSeqCount ≤ e.previous ∧ 0 ≤ e.lossCount ∧
    e.lossCount = ((Finset.Ioc e.start e.previous).filter (· ∉ e.inSeq)).card

def nextInSeq (received inSeq : List Nat) (n : Nat) : List Nat :=
  if ∀ m ∈ received, m < n then inSeq ++ [n] else inSeq

theorem nextInSeq_mem {received inSeq : List Nat} {n : Nat} (h : ∀ m ∈ inSeq, m ∈ received) :
    ∀ m ∈ nextInSeq received inSeq n, m ∈ received ++ [n] := by
  intro m hm
  rw [nextInSeq] at hm
  split_ifs at hm
  · rcases List.mem_append.mp hm with hold | hnew
    · exact List.mem_append_left _ (h m hold)
    · exact List.mem_append_right _ hnew
  · exact List.mem_append_left _ (h m hm)

def inSequence (start previous : Nat) (inSeq : List Nat) : Finset Nat :=
  (Finset.Ioc start previous).filter (· ∈ inSeq)

theorem inSequence_of_le {start previous : Nat} (h : previous ≤ start) (inSeq : List Nat) :
    inSequence start previous inSeq = ∅ := by
  rw [inSequence, Finset.Ioc_eq_empty (by omega), Finset.filter_empty]

theorem card_inSequence_append {start previous n : Nat} {inSeq : List Nat} (hstart : start < n)
    (hprevious : previous < n) (hmax : ∀ m ∈ inSeq, m ≤ max start previous) :
    (inSequence start n (inSeq ++ [n])).card = (inSequence start previous inSeq).card + 1 := by
  have hnot : n ∉ inSequence start previous inSeq := by
    intro hmem
    have := (Finset.mem_Ioc.mp (Finset.mem_filter.mp hmem).1).2
    omega
  have hinsert : inSequence start n (inSeq ++ [n]) = insert n (inSequence start previous inSeq) := by
    ext m
    simp only [inSequence, Finset.mem_filter, Finset.mem_Ioc, List.mem_append, List.mem_singleton,
      Finset.mem_insert]
    constructor
    · rintro ⟨⟨hlo, -⟩, hold | rfl⟩
      · have := hmax m hold
        exact .inr ⟨⟨hlo, by omega⟩, hold⟩
      · exact .inl rfl
    · rintro (rfl | ⟨⟨hlo, hhi⟩, hold⟩)
      · exact ⟨⟨hstart, le_rfl⟩, .inr rfl⟩
      · exact ⟨⟨hlo, by omega⟩, .inl hold⟩
  rw [hinsert, Finset.card_insert_of_notMem hnot]

/-- Start and Previous are received, nothing is above both, and the count is of the nonces between
them received in sequence, and of `early` others. -/
structure Counted (start previous count : Nat) (received inSeq : List Nat) (early : Nat) : Prop where
  start_ne : start ≠ 0
  start_mem : start ∈ received
  previous_mem : previous ∈ received
  le_max : ∀ m ∈ received, m ≤ max start previous
  inSeq_mem : ∀ m ∈ inSeq, m ∈ received
  count_eq : count = (inSequence start previous inSeq).card + early
  count_lt : count < received.length

namespace Counted

variable {start previous count early n : Nat} {received inSeq : List Nat}

theorem nextInSeq_above (h : Counted start previous count received inSeq early)
    (hstart : start < n) (hprevious : previous < n) : nextInSeq received inSeq n = inSeq ++ [n] :=
  if_pos fun m hm => by
    have := h.le_max m hm
    omega

theorem reordered (h : Counted start previous count received inSeq early) (hn : n ≤ previous) :
    Counted start previous count (received ++ [n]) (nextInSeq received inSeq n) early where
  start_ne := h.start_ne
  start_mem := List.mem_append_left _ h.start_mem
  previous_mem := List.mem_append_left _ h.previous_mem
  le_max := by
    intro m hm
    rcases List.mem_append.mp hm with hold | hnew
    · exact h.le_max m hold
    · rw [List.mem_singleton.mp hnew]
      omega
  inSeq_mem := nextInSeq_mem h.inSeq_mem
  count_eq := by
    have hnot : ¬∀ m ∈ received, m < n := fun hall => by
      have := hall previous h.previous_mem
      omega
    rw [nextInSeq, if_neg hnot]
    exact h.count_eq
  count_lt := by
    have := h.count_lt
    rw [List.length_append]
    omega

theorem above (h : Counted start previous count received inSeq early) (hstart : start < n)
    (hprevious : previous < n) :
    Counted start n (count + 1) (received ++ [n]) (nextInSeq received inSeq n) early where
  start_ne := h.start_ne
  start_mem := List.mem_append_left _ h.start_mem
  previous_mem := List.mem_append_right _ (List.mem_singleton.mpr rfl)
  le_max := by
    intro m hm
    rcases List.mem_append.mp hm with hold | hnew
    · have := h.le_max m hold
      omega
    · rw [List.mem_singleton.mp hnew]
      exact le_max_right _ _
  inSeq_mem := nextInSeq_mem h.inSeq_mem
  count_eq := by
    rw [h.nextInSeq_above hstart hprevious, card_inSequence_append hstart hprevious fun m hm =>
      h.le_max m (h.inSeq_mem m hm)]
    have := h.count_eq
    omega
  count_lt := by
    have := h.count_lt
    rw [List.length_append]
    exact Nat.succ_lt_succ this

theorem below (h : Counted start previous count received inSeq early) (hstart : n < start)
    (hprevious : previous ≤ start) :
    Counted start n (count + 1) (received ++ [n]) (nextInSeq received inSeq n) (early + 1) where
  start_ne := h.start_ne
  start_mem := List.mem_append_left _ h.start_mem
  previous_mem := List.mem_append_right _ (List.mem_singleton.mpr rfl)
  le_max := by
    intro m hm
    rcases List.mem_append.mp hm with hold | hnew
    · have := h.le_max m hold
      omega
    · rw [List.mem_singleton.mp hnew]
      omega
  inSeq_mem := nextInSeq_mem h.inSeq_mem
  count_eq := by
    have hold := h.count_eq
    rw [inSequence_of_le hprevious, Finset.card_empty] at hold
    rw [inSequence_of_le hstart.le, Finset.card_empty]
    omega
  count_lt := by
    have := h.count_lt
    rw [List.length_append]
    exact Nat.succ_lt_succ this

theorem restart (h : Counted start previous count received inSeq early) (hle : start ≤ previous) :
    Counted previous previous 0 received inSeq 0 where
  start_ne := by
    have := h.start_ne
    omega
  start_mem := h.previous_mem
  previous_mem := h.previous_mem
  le_max := fun m hm => by
    have := h.le_max m hm
    omega
  inSeq_mem := h.inSeq_mem
  count_eq := by rw [inSequence_of_le le_rfl, Finset.card_empty]
  count_lt := by
    have := h.count_lt
    omega

end Counted

/-- The estimator, the nonces received, those of them above every nonce before, and the intervals
that ended. -/
structure LossRun (F : Type) where
  estimator : BandwidthEstimator F
  received : List Nat
  inSeq : List Nat
  ends : List IntervalEnd

def InOrderStart (nonces : List Nat) : Prop :=
  match nonces.dropWhile (· == 0) with
  | first :: second :: _ => first < second
  | _ => True

namespace LossRun

variable {F : Type}

def initial (rate : LossRate F) : LossRun F := ⟨.initial rate, [], [], []⟩

def intervalEnd (s : LossRun F) : IntervalEnd :=
  ⟨s.estimator.start.nonce, s.estimator.previous.nonce, s.estimator.intervalInSeqCount,
    s.estimator.lossCount, s.inSeq⟩

def next (rate : LossRate F) (s : LossRun F) (datagram : DatagramInfo) : LossRun F :=
  let result := s.estimator.updateOnDatagram rate datagram
  { estimator := result.1
    received := s.received ++ [datagram.nonce]
    inSeq := nextInSeq s.received s.inSeq datagram.nonce
    ends := if result.2 then s.ends ++ [s.intervalEnd] else s.ends }

def run (rate : LossRate F) (datagrams : List DatagramInfo) : LossRun F :=
  datagrams.foldl (next rate) (initial rate)

theorem run_append (rate : LossRate F) (datagrams : List DatagramInfo) (d : DatagramInfo) :
    run rate (datagrams ++ [d]) = (run rate datagrams).next rate d := by
  rw [run, List.foldl_append]
  rfl

theorem run_received (rate : LossRate F) (datagrams : List DatagramInfo) :
    (run rate datagrams).received = datagrams.map (·.nonce) := by
  induction datagrams using List.reverseRecOn with
  | nil => rfl
  | append_singleton datagrams d ih =>
    rw [run_append, List.map_append, ← ih]
    rfl

def Counts (s : LossRun F) (early : Nat) : Prop :=
  Counted s.estimator.start.nonce s.estimator.previous.nonce s.estimator.intervalInSeqCount
    s.received s.inSeq early

def StartsWith (s : LossRun F) (first second : Nat) : Prop :=
  ∃ rest, s.received.dropWhile (· == 0) = first :: second :: rest

/-- Where the estimator stands: before a nonce other than 0, after the first, and after a second that
was higher or lower; after a lower second one the first interval to end is not right. -/
inductive Phase (s : LossRun F) : Prop where
  | idle (hstart : s.estimator.start.nonce = 0) (hnext : s.estimator.nextExpectedNonce = 0)
      (hcount : s.estimator.intervalInSeqCount = 0) (hreceived : ∀ m ∈ s.received, m = 0)
      (hinSeq : ∀ m ∈ s.inSeq, m ∈ s.received) (hends : s.ends = [])
  | started (hcounts : s.Counts 0) (hnext : s.estimator.nextExpectedNonce = 0)
      (hprevious : s.estimator.previous.nonce = s.estimator.start.nonce)
      (hfirst : s.received.dropWhile (· == 0) = [s.estimator.start.nonce]) (hends : s.ends = [])
  | inOrder (hcounts : s.Counts 0)
      (hnext : s.estimator.nextExpectedNonce = s.estimator.previous.nonce + 1)
      (hle : s.estimator.start.nonce ≤ s.estimator.previous.nonce) {first second : Nat}
      (hfirst : s.StartsWith first second) (hlt : first < second) (hends : ∀ e ∈ s.ends, e.Right)
  | early {k : Nat} (hcounts : s.Counts (k + 1))
      (hnext : s.estimator.nextExpectedNonce = s.estimator.previous.nonce + 1)
      {first second : Nat} (hfirst : s.StartsWith first second) (hlt : second < first)
      (hends : s.ends = [])
  | wrong {first second : Nat} (hfirst : s.StartsWith first second) (hlt : second < first)
      {e : IntervalEnd} {more : List IntervalEnd} (hends : s.ends = e :: more) (hwrong : ¬e.Right)

theorem phase_initial (rate : LossRate F) : (initial rate).Phase :=
  .idle rfl rfl rfl (fun _ h => absurd h List.not_mem_nil) (fun _ h => absurd h List.not_mem_nil) rfl

theorem StartsWith.next {s : LossRun F} {first second : Nat} (h : s.StartsWith first second)
    (rate : LossRate F) (d : DatagramInfo) : (s.next rate d).StartsWith first second := by
  obtain ⟨rest, hrest⟩ := h
  refine ⟨rest ++ [d.nonce], ?_⟩
  change (s.received ++ [d.nonce]).dropWhile (· == 0) = _
  rw [List.dropWhile_append, hrest]
  rfl

theorem Counts.intervalEnd_right_iff {s : LossRun F} {early : Nat} (h : s.Counts early)
    (hlt : ∀ m ∈ s.received, m < 2 ^ 31) (hlength : s.received.length ≤ 2 ^ 31) :
    s.intervalEnd.Right ↔ early = 0 ∧ s.estimator.start.nonce ≤ s.estimator.previous.nonce := by
  have hloss := BandwidthEstimator.lossCount_eq (hlt _ h.start_mem) (hlt _ h.previous_mem)
    (h.count_lt.trans_le hlength)
  have hcount := h.count_eq
  unfold IntervalEnd.Right intervalEnd
  simp only
  rw [hloss]
  generalize s.estimator.start.nonce = start at hcount ⊢
  generalize s.estimator.previous.nonce = previous at hcount ⊢
  have hcard := Finset.card_filter_add_card_filter_not (s := Finset.Ioc start previous) (· ∈ s.inSeq)
  rw [Nat.card_Ioc] at hcard
  rw [inSequence] at hcount
  constructor
  · rintro ⟨hle, -, heq⟩
    exact ⟨by omega, by omega⟩
  · rintro ⟨hearly, hle⟩
    exact ⟨by omega, by omega, by omega⟩

theorem next_cases (rate : LossRate F) {s : LossRun F} (d : DatagramInfo)
    (hstart : s.estimator.start.nonce ≠ 0) (hnext : s.estimator.nextExpectedNonce ≤ 2 ^ 31)
    (hcount : s.estimator.intervalInSeqCount < 2 ^ 31) (hd : d.nonce < 2 ^ 31) :
    (d.nonce < s.estimator.nextExpectedNonce ∧
      (s.next rate d).estimator.start = s.estimator.start ∧
      (s.next rate d).estimator.previous = s.estimator.previous ∧
      (s.next rate d).estimator.nextExpectedNonce = s.estimator.nextExpectedNonce ∧
      (s.next rate d).estimator.intervalInSeqCount = s.estimator.intervalInSeqCount ∧
      (s.next rate d).ends = s.ends) ∨
    (s.estimator.nextExpectedNonce ≤ d.nonce ∧ (s.next rate d).estimator.previous = d ∧
      (s.next rate d).estimator.nextExpectedNonce = d.nonce + 1 ∧
      (((s.next rate d).estimator.start = s.estimator.start ∧
        (s.next rate d).estimator.intervalInSeqCount = s.estimator.intervalInSeqCount + 1 ∧
        (s.next rate d).ends = s.ends) ∨
      ((s.next rate d).estimator.start = s.estimator.previous ∧
        (s.next rate d).estimator.intervalInSeqCount = 1 ∧
        (s.next rate d).ends = s.ends ++ [s.intervalEnd] ∧
        (kMinBWIntervalDatagrams ≤ s.estimator.intervalInSeqCount ∨
          (s.estimator.start.nonce + 2) % 2 ^ 64 < s.estimator.previous.nonce)))) := by
  have horder := s.estimator.reordered_eq hd hnext
  by_cases hlt : d.nonce < s.estimator.nextExpectedNonce
  · rw [decide_eq_true hlt] at horder
    obtain ⟨hupdated, hfrom, hprevious, hexpected, hcounted⟩ :=
      BandwidthEstimator.updateOnDatagram_reordered rate hstart horder
    refine .inl ⟨hlt, hfrom, hprevious, hexpected, hcounted, ?_⟩
    exact if_neg (ne_true_of_eq_false hupdated)
  · rw [decide_eq_false hlt] at horder
    obtain ⟨hprevious, hexpected, hfrom, hcounted, hdone⟩ :=
      BandwidthEstimator.updateOnDatagram_inOrder rate hstart horder
    rw [Nat.mod_eq_of_lt (by omega)] at hexpected
    refine .inr ⟨not_lt.mp hlt, hprevious, hexpected, ?_⟩
    cases hupdated : (s.estimator.updateOnDatagram rate d).2 with
    | false =>
      rw [hupdated, if_neg Bool.false_ne_true] at hfrom hcounted
      rw [Nat.mod_eq_of_lt (by omega)] at hcounted
      exact .inl ⟨hfrom, hcounted, if_neg (ne_true_of_eq_false hupdated)⟩
    | true =>
      rw [hupdated, if_pos rfl] at hfrom hcounted
      exact .inr ⟨hfrom, hcounted, if_pos hupdated, hdone hupdated⟩

theorem next_idle (rate : LossRate F) {s : LossRun F} {d : DatagramInfo}
    (hstart : s.estimator.start.nonce = 0) (hnext : s.estimator.nextExpectedNonce = 0)
    (hcount : s.estimator.intervalInSeqCount = 0) (hreceived : ∀ m ∈ s.received, m = 0)
    (hinSeq : ∀ m ∈ s.inSeq, m ∈ s.received) (hends : s.ends = []) : (s.next rate d).Phase := by
  have hfirst := s.estimator.updateOnDatagram_first rate d hstart
  have hestimator : (s.next rate d).estimator = { s.estimator with start := d, previous := d } :=
    congrArg Prod.fst hfirst
  have hnone : (s.next rate d).ends = [] := by
    rw [← hends]
    exact if_neg (ne_true_of_eq_false (congrArg Prod.snd hfirst))
  have hmem : ∀ m ∈ (s.next rate d).inSeq, m ∈ (s.next rate d).received :=
    nextInSeq_mem hinSeq
  by_cases hzero : d.nonce = 0
  · refine .idle (by rw [hestimator, hzero]) (by rw [hestimator, hnext])
      (by rw [hestimator, hcount]) ?_ hmem hnone
    intro m hm
    rcases List.mem_append.mp hm with hold | hlast
    · exact hreceived m hold
    · rw [List.mem_singleton.mp hlast, hzero]
  · have hdrop : (s.received ++ [d.nonce]).dropWhile (· == 0) = [d.nonce] := by
      rw [List.dropWhile_append_of_pos fun m hm => by rw [hreceived m hm]; rfl]
      exact List.dropWhile_cons_of_neg (by simpa using hzero)
    refine .started ?_ (by rw [hestimator, hnext]) (by rw [hestimator]) (by rw [hestimator]; exact hdrop)
      hnone
    rw [Counts, hestimator]
    exact {
      start_ne := hzero
      start_mem := List.mem_append_right _ (List.mem_singleton.mpr rfl)
      previous_mem := List.mem_append_right _ (List.mem_singleton.mpr rfl)
      le_max := by
        intro m hm
        rcases List.mem_append.mp hm with hold | hlast
        · rw [hreceived m hold]
          exact Nat.zero_le _
        · rw [List.mem_singleton.mp hlast, max_self]
      inSeq_mem := hmem
      count_eq := by rw [inSequence_of_le le_rfl, Finset.card_empty, hcount]
      count_lt := by
        change s.estimator.intervalInSeqCount < (s.received ++ [d.nonce]).length
        rw [hcount, List.length_append]
        exact Nat.succ_pos _ }

theorem next_started (rate : LossRate F) {s : LossRun F} {d : DatagramInfo} (hcounts : s.Counts 0)
    (hnext : s.estimator.nextExpectedNonce = 0)
    (hprevious : s.estimator.previous.nonce = s.estimator.start.nonce)
    (hfirst : s.received.dropWhile (· == 0) = [s.estimator.start.nonce]) (hends : s.ends = [])
    (hnew : d.nonce ∉ s.received) (hd : d.nonce < 2 ^ 31) (hlt : ∀ m ∈ s.received, m < 2 ^ 31) :
    (s.next rate d).Phase := by
  have hzero : s.estimator.intervalInSeqCount = 0 := by
    rw [hcounts.count_eq, inSequence_of_le hprevious.le, Finset.card_empty]
  have hbound := hlt _ hcounts.start_mem
  have hne : d.nonce ≠ s.estimator.start.nonce := fun heq => hnew (heq ▸ hcounts.start_mem)
  have hstarts : (s.next rate d).StartsWith s.estimator.start.nonce d.nonce := by
    refine ⟨[], ?_⟩
    change (s.received ++ [d.nonce]).dropWhile (· == 0) = _
    rw [List.dropWhile_append, hfirst]
    rfl
  rcases next_cases rate d hcounts.start_ne (by omega) (by omega) hd with
    ⟨hlow, -⟩ | ⟨-, hlast, hexpected, ⟨hfrom, hcounted, hkept⟩ | ⟨-, -, -, hdone⟩⟩
  · omega
  · have hexpected : (s.next rate d).estimator.nextExpectedNonce =
        (s.next rate d).estimator.previous.nonce + 1 := by rw [hexpected, hlast]
    rcases Nat.lt_or_gt_of_ne hne with hbelow | habove
    · refine .early (k := 0) ?_ hexpected hstarts hbelow (hkept.trans hends)
      rw [Counts, hfrom, hlast, hcounted]
      exact hcounts.below hbelow hprevious.le
    · refine .inOrder ?_ hexpected ?_ hstarts habove ?_
      · rw [Counts, hfrom, hlast, hcounted]
        exact hcounts.above habove (hprevious ▸ habove)
      · rw [hfrom, hlast]
        exact habove.le
      · rw [hkept, hends]
        exact fun e he => absurd he List.not_mem_nil
  · rw [hzero, hprevious, Nat.mod_eq_of_lt (by omega)] at hdone
    rw [kMinBWIntervalDatagrams] at hdone
    omega

theorem next_inOrder (rate : LossRate F) {s : LossRun F} {d : DatagramInfo} (hcounts : s.Counts 0)
    (hnext : s.estimator.nextExpectedNonce = s.estimator.previous.nonce + 1)
    (hle : s.estimator.start.nonce ≤ s.estimator.previous.nonce) {first second : Nat}
    (hfirst : s.StartsWith first second) (horder : first < second) (hends : ∀ e ∈ s.ends, e.Right)
    (hd : d.nonce < 2 ^ 31) (hlt : ∀ m ∈ s.received, m < 2 ^ 31)
    (hlength : s.received.length ≤ 2 ^ 31) : (s.next rate d).Phase := by
  have hprevious := hlt _ hcounts.previous_mem
  have hfirst := hfirst.next rate d
  rcases next_cases rate d hcounts.start_ne (by omega) (hcounts.count_lt.trans_le hlength) hd with
    ⟨hlow, hfrom, hlast, hexpected, hcounted, hkept⟩ |
    ⟨hhigh, hlast, hexpected, ⟨hfrom, hcounted, hkept⟩ | ⟨hfrom, hcounted, hended, -⟩⟩
  · refine .inOrder ?_ ?_ ?_ hfirst horder (hkept ▸ hends)
    · rw [Counts, hfrom, hlast, hcounted]
      exact hcounts.reordered (by omega)
    · rw [hexpected, hlast, hnext]
    · rw [hfrom, hlast]
      exact hle
  · refine .inOrder ?_ (by rw [hexpected, hlast]) ?_ hfirst horder (hkept ▸ hends)
    · rw [Counts, hfrom, hlast, hcounted]
      exact hcounts.above (by omega) (by omega)
    · rw [hfrom, hlast]
      omega
  · refine .inOrder ?_ (by rw [hexpected, hlast]) ?_ hfirst horder ?_
    · rw [Counts, hfrom, hlast, hcounted]
      exact (hcounts.restart hle).above (by omega) (by omega)
    · rw [hfrom, hlast]
      omega
    · intro e he
      rw [hended] at he
      rcases List.mem_append.mp he with hold | hnow
      · exact hends e hold
      · rw [List.mem_singleton.mp hnow]
        exact (hcounts.intervalEnd_right_iff hlt hlength).mpr ⟨rfl, hle⟩

theorem next_early (rate : LossRate F) {s : LossRun F} {d : DatagramInfo} {k : Nat}
    (hcounts : s.Counts (k + 1))
    (hnext : s.estimator.nextExpectedNonce = s.estimator.previous.nonce + 1) {first second : Nat}
    (hfirst : s.StartsWith first second) (hreordered : second < first) (hends : s.ends = [])
    (hnew : d.nonce ∉ s.received) (hd : d.nonce < 2 ^ 31) (hlt : ∀ m ∈ s.received, m < 2 ^ 31)
    (hlength : s.received.length ≤ 2 ^ 31) : (s.next rate d).Phase := by
  have hprevious := hlt _ hcounts.previous_mem
  have hne : d.nonce ≠ s.estimator.start.nonce := fun heq => hnew (heq ▸ hcounts.start_mem)
  have hfirst := hfirst.next rate d
  rcases next_cases rate d hcounts.start_ne (by omega) (hcounts.count_lt.trans_le hlength) hd with
    ⟨hlow, hfrom, hlast, hexpected, hcounted, hkept⟩ |
    ⟨hhigh, hlast, hexpected, ⟨hfrom, hcounted, hkept⟩ | ⟨-, -, hended, -⟩⟩
  · refine .early (k := k) ?_ ?_ hfirst hreordered (hkept.trans hends)
    · rw [Counts, hfrom, hlast, hcounted]
      exact hcounts.reordered (by omega)
    · rw [hexpected, hlast, hnext]
  · have hexpected : (s.next rate d).estimator.nextExpectedNonce =
        (s.next rate d).estimator.previous.nonce + 1 := by rw [hexpected, hlast]
    rcases Nat.lt_or_gt_of_ne hne with hbelow | habove
    · refine .early (k := k + 1) ?_ hexpected hfirst hreordered (hkept.trans hends)
      rw [Counts, hfrom, hlast, hcounted]
      exact hcounts.below hbelow (by omega)
    · refine .early (k := k) ?_ hexpected hfirst hreordered (hkept.trans hends)
      rw [Counts, hfrom, hlast, hcounted]
      exact hcounts.above habove (by omega)
  · have hfirstEnd : (s.next rate d).ends = [s.intervalEnd] := by
      rw [hended, hends, List.nil_append]
    refine .wrong hfirst hreordered hfirstEnd ?_
    rw [hcounts.intervalEnd_right_iff hlt hlength]
    exact fun hboth => Nat.succ_ne_zero k hboth.1

theorem Phase.next {s : LossRun F} (h : s.Phase) (rate : LossRate F) {d : DatagramInfo}
    (hnew : d.nonce ∉ s.received) (hd : d.nonce < 2 ^ 31) (hlt : ∀ m ∈ s.received, m < 2 ^ 31)
    (hlength : s.received.length ≤ 2 ^ 31) : (s.next rate d).Phase := by
  cases h with
  | idle hstart hnext hcount hreceived hinSeq hends =>
    exact next_idle rate hstart hnext hcount hreceived hinSeq hends
  | started hcounts hnext hprevious hfirst hends =>
    exact next_started rate hcounts hnext hprevious hfirst hends hnew hd hlt
  | inOrder hcounts hnext hle hfirst horder hends =>
    exact next_inOrder rate hcounts hnext hle hfirst horder hends hd hlt hlength
  | early hcounts hnext hfirst hreordered hends =>
    exact next_early rate hcounts hnext hfirst hreordered hends hnew hd hlt hlength
  | wrong hfirst hreordered hends hwrong =>
    cases hupdated : (s.estimator.updateOnDatagram rate d).2 with
    | false =>
      have hkept : (s.next rate d).ends = s.ends := if_neg (ne_true_of_eq_false hupdated)
      exact .wrong (hfirst.next rate d) hreordered (hkept.trans hends) hwrong
    | true =>
      have hended : (s.next rate d).ends = s.ends ++ [s.intervalEnd] := if_pos hupdated
      rw [hends] at hended
      exact .wrong (hfirst.next rate d) hreordered hended hwrong

theorem length_le_of_nodup {l : List Nat} {n : Nat} (hdistinct : l.Nodup) (hlt : ∀ m ∈ l, m < n) :
    l.length ≤ n := by
  rw [← List.toFinset_card_of_nodup hdistinct, ← Finset.card_range n]
  exact Finset.card_le_card fun m hm => Finset.mem_range.mpr (hlt m (List.mem_toFinset.mp hm))

theorem run_phase (rate : LossRate F) (datagrams : List DatagramInfo)
    (hdistinct : (datagrams.map (·.nonce)).Nodup) (hlt : ∀ d ∈ datagrams, d.nonce < 2 ^ 31) :
    (run rate datagrams).Phase := by
  induction datagrams using List.reverseRecOn with
  | nil => exact phase_initial rate
  | append_singleton datagrams d ih =>
    rw [List.map_append, List.nodup_append] at hdistinct
    obtain ⟨hbefore, -, hapart⟩ := hdistinct
    have hltBefore : ∀ m ∈ datagrams.map (·.nonce), m < 2 ^ 31 := by
      intro m hm
      obtain ⟨d', hd', rfl⟩ := List.mem_map.mp hm
      exact hlt d' (List.mem_append_left _ hd')
    have hnew : d.nonce ∉ datagrams.map (·.nonce) := fun hm =>
      hapart _ hm d.nonce (List.mem_singleton.mpr rfl) rfl
    rw [run_append]
    rw [← run_received rate] at hnew hltBefore hbefore
    exact (ih (run_received rate datagrams ▸ hbefore) fun d' hd' =>
      hlt d' (List.mem_append_left _ hd')).next rate hnew
        (hlt d (List.mem_append_right _ (List.mem_singleton.mpr rfl))) hltBefore
        (length_le_of_nodup hbefore hltBefore)

theorem StartsWith.inOrderStart_iff {s : LossRun F} {first second : Nat}
    (h : s.StartsWith first second) : InOrderStart s.received ↔ first < second := by
  obtain ⟨rest, hrest⟩ := h
  rw [InOrderStart, hrest]

theorem Phase.ends {s : LossRun F} (h : s.Phase) :
    (InOrderStart s.received ∧ ∀ e ∈ s.ends, e.Right) ∨
      (¬InOrderStart s.received ∧ ∀ e, s.ends.head? = some e → ¬e.Right) := by
  cases h with
  | idle hstart hnext hcount hreceived hinSeq hends =>
    have hdrop : s.received.dropWhile (· == 0) = [] :=
      List.dropWhile_eq_nil_iff.mpr fun m hm => by rw [hreceived m hm]; rfl
    refine .inl ⟨?_, fun e he => ?_⟩
    · rw [InOrderStart, hdrop]
      trivial
    · rw [hends] at he
      exact absurd he List.not_mem_nil
  | started hcounts hnext hprevious hfirst hends =>
    refine .inl ⟨?_, fun e he => ?_⟩
    · rw [InOrderStart, hfirst]
      trivial
    · rw [hends] at he
      exact absurd he List.not_mem_nil
  | inOrder hcounts hnext hle hfirst horder hends =>
    exact .inl ⟨hfirst.inOrderStart_iff.mpr horder, hends⟩
  | early hcounts hnext hfirst hreordered hends =>
    refine .inr ⟨fun h => ?_, fun e he => ?_⟩
    · exact absurd (hfirst.inOrderStart_iff.mp h) (by omega)
    · rw [hends] at he
      cases he
  | wrong hfirst hreordered hends hwrong =>
    refine .inr ⟨fun h => ?_, fun e he => ?_⟩
    · exact absurd (hfirst.inOrderStart_iff.mp h) (by omega)
    · rw [hends] at he
      cases he
      exact hwrong

/-- With a start in order the loss of every interval is right, and otherwise that of the first is
not. -/
theorem intervalEnds_right (rate : LossRate F) (datagrams : List DatagramInfo)
    (hdistinct : (datagrams.map (·.nonce)).Nodup) (hlt : ∀ d ∈ datagrams, d.nonce < 2 ^ 31) :
    (InOrderStart (datagrams.map (·.nonce)) → ∀ e ∈ (run rate datagrams).ends, e.Right) ∧
      (¬InOrderStart (datagrams.map (·.nonce)) →
        ∀ e, (run rate datagrams).ends.head? = some e → ¬e.Right) := by
  rw [← run_received rate]
  rcases (run_phase rate datagrams hdistinct hlt).ends with ⟨hin, hright⟩ | ⟨hnot, hwrong⟩
  · exact ⟨fun _ => hright, fun h => absurd hin h⟩
  · exact ⟨fun h => absurd h hnot, fun _ => hwrong⟩

end LossRun

def rationalRate : LossRate ℚ where
  zero := 0
  quotient lossCount expected := lossCount / expected
  smooth smoothed plr := (smoothed * 7 + plr) / 8

def threeMsecApart (nonces : List Nat) : List DatagramInfo :=
  nonces.zipIdx.map fun (nonce, i) =>
    ⟨nonce, 0, 3000 * (i + 1), 100, .ofInt (if nonce = 15 then 1 else 0)⟩

namespace LossRun

theorem intervalEnds_right_lost : ∃ e ∈ (run rationalRate
    (threeMsecApart [3, 4, 5, 6, 8, 7, 9, 10, 11, 12, 13, 14, 15])).ends,
      e.Right ∧ e.lossCount = 1 := by
  have hends : (run rationalRate
      (threeMsecApart [3, 4, 5, 6, 8, 7, 9, 10, 11, 12, 13, 14, 15])).ends =
        [⟨3, 14, 10, 1, [3, 4, 5, 6, 8, 9, 10, 11, 12, 13, 14]⟩] := by
    decide +kernel
  have hright := (intervalEnds_right rationalRate
    (threeMsecApart [3, 4, 5, 6, 8, 7, 9, 10, 11, 12, 13, 14, 15]) (by decide) (by decide)).1
      (show 3 < 4 by decide)
  rw [hends] at hright ⊢
  exact ⟨_, List.mem_singleton.mpr rfl, hright _ (List.mem_singleton.mpr rfl), rfl⟩

/-- The second datagram has a lower nonce, and more datagrams are counted than nonces passed. -/
theorem lossCount_negative :
    ¬∀ datagrams : List DatagramInfo, (datagrams.map (·.nonce)).Nodup →
      (∀ d ∈ datagrams, d.nonce < 2 ^ 31) → ∀ e ∈ (run rationalRate datagrams).ends, e.Right := by
  intro h
  have hends : (run rationalRate
      (threeMsecApart [5, 4, 6, 7, 8, 9, 10, 11, 12, 13, 14, 15])).ends =
        [⟨5, 14, 10, -1, [5, 6, 7, 8, 9, 10, 11, 12, 13, 14]⟩] := by
    decide +kernel
  have hright := h (threeMsecApart [5, 4, 6, 7, 8, 9, 10, 11, 12, 13, 14, 15]) (by decide) (by decide)
  rw [hends] at hright
  exact absurd (hright _ (List.mem_singleton.mpr rfl)).2.1 (by decide)

end LossRun

end Tonk.Session
