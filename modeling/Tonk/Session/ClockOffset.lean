import Tonk.Lib.Run
import Tonk.Session.TimeSync

/-!
Two peers that synchronize their clocks over a link. Times and clock offsets are unbounded numbers of
microseconds; a clock shows 64 bits of them.
-/

set_option autoImplicit false

namespace Tonk.Session
open Protocol Serial Transition

def clock (p t : Int) : Nat := wrap 64 (t + p)

structure Arrival where
  sent : Int
  delay : Nat

namespace Arrival

def received (x : Arrival) : Int := x.sent + x.delay

def difference (p q : Int) (x : Arrival) : Difference :=
  ⟨(x.received + q) / 8 - (x.sent + p) / 8, x.received + q⟩

theorem difference_bound (p q : Int) (x : Arrival) :
    q - p + x.delay - 7 ≤ 8 * (x.difference p q).delta ∧
      8 * (x.difference p q).delta ≤ q - p + x.delay + 7 := by
  simp only [difference, received]
  omega

end Arrival

namespace TimeSynchronizer

section Recalculated

variable {s : TimeSynchronizer}

theorem recalculate_idem (s : TimeSynchronizer) : s.recalculate.recalculate = s.recalculate := by
  by_cases h : s.windowedMinTS24Deltas.isValid = false ∨ s.gotPeerUpdate = false
  · have hsame : s.recalculate = s := if_pos h
    rw [hsame, hsame]
  · simp only [recalculate, if_neg h]

theorem recalculate_windowed (s : TimeSynchronizer) :
    s.recalculate.windowedMinTS24Deltas = s.windowedMinTS24Deltas := by
  unfold recalculate
  split <;> rfl

theorem halve_value (x : Int) :
    (Counter.ofInt (wrap 24 x >>> 1 : Nat) : Counter23).value = wrap 23 (x / 2) := by
  have hinner := wrap_cast 24 x
  have houter := wrap_cast 23 (x / 2)
  have hhalf := wrap_cast 23 ((wrap 24 x >>> 1 : Nat) : Int)
  rw [Counter.ofInt_value (by decide)]
  rw [Nat.shiftRight_eq_div_pow] at hhalf ⊢
  omega

/-- The values worked out of the two minima, `out` of the datagrams sent and `back` of those
received. -/
structure Recalculated (s : TimeSynchronizer) (out back : Int) : Prop where
  synchronized : s.synchronized = true
  delta : s.remoteTimeDeltaUsec = 8 * wrap 23 ((out - back) / 2)
  owd : s.minimumOneWayDelayUsec =
    if 2 ^ 22 ≤ wrap 23 ((out + back) / 2) then 0 else 8 * wrap 23 ((out + back) / 2)

theorem recalculated {out back : Int} (hs : s.recalculate = s) (hpeer : s.gotPeerUpdate = true)
    (hout : s.lastFCMinDeltaTS24 = .ofInt out) (hback : s.getMinDeltaTS24 = .ofInt back)
    (hvalid : ¬ (2 : Int) ^ 24 ∣ back) : s.Recalculated out back := by
  have hisValid : s.windowedMinTS24Deltas.isValid = true := by
    rw [WindowedMinTS24.isValid, decide_eq_true_iff]
    change s.getMinDeltaTS24 ≠ _
    rw [hback, ne_eq, ofInt_eq_iff, Int.modEq_zero_iff_dvd]
    exact hvalid
  have hno : ¬ (s.windowedMinTS24Deltas.isValid = false ∨ s.gotPeerUpdate = false) := by
    rw [hisValid, hpeer]
    decide
  change s.windowedMinTS24Deltas.getBest = _ at hback
  have hadd : ((Counter.ofInt out : Counter24).add (.ofInt back)).value = wrap 24 (out + back) :=
    Counter.add_ofInt_value (by decide) (value_ofInt out) back
  have hsub : ((Counter.ofInt out : Counter24).sub (.ofInt back)).value = wrap 24 (out - back) :=
    Counter.sub_ofInt_value (by decide) (value_ofInt out) back
  have hshift : ∀ n, n <<< kTime23LostBits = 8 * n := fun n => by
    rw [Nat.shiftLeft_eq, Nat.mul_comm]
    rfl
  have hthreshold : kSignRolloverThreshold = 8 * 2 ^ 22 := rfl
  rw [recalculate, if_neg hno] at hs
  simp only [hout, hback, hadd, hsub, halve_value, hshift, hthreshold] at hs
  rw [← hs]
  refine ⟨rfl, rfl, ?_⟩
  simp only [Nat.mul_le_mul_left_iff (show 0 < 8 by decide)]

end Recalculated

section Estimates

variable {s : TimeSynchronizer} {out back o : Int} {a b : Nat}

theorem Recalculated.owd_bound (h : s.Recalculated out back)
    (hout : o + a - 7 ≤ 8 * out ∧ 8 * out ≤ o + a + 7)
    (hback : -o + b - 7 ≤ 8 * back ∧ 8 * back ≤ -o + b + 7) (hsum : a + b + 14 < 2 ^ 26) :
    ∃ units : Nat, s.minimumOneWayDelayUsec = 8 * units ∧ (a + b) / 16 ≤ units + 1 ∧
      units ≤ (a + b) / 16 + 1 := by
  have hcast := wrap_cast 23 ((out + back) / 2)
  rw [h.owd]
  split
  · exact ⟨0, rfl, by omega, by omega⟩
  · exact ⟨_, rfl, by omega, by omega⟩

/-- Half the difference is the offset of the peer's clock, up to half the asymmetry and the rounding of
four timestamps and of the half. -/
theorem offset_bound (hout : o + a - 7 ≤ 8 * out ∧ 8 * out ≤ o + a + 7)
    (hback : -o + b - 7 ≤ 8 * back ∧ 8 * back ≤ -o + b + 7) :
    2 * |8 * ((out - back) / 2) - o| ≤ |(a : Int) - b| + 22 ∧
      (a : Int) - b - 22 ≤ 2 * (8 * ((out - back) / 2) - o) ∧
      2 * (8 * ((out - back) / 2) - o) ≤ (a : Int) - b + 14 := by
  rcases abs_cases (8 * ((out - back) / 2) - o) with ⟨h₁, _⟩ | ⟨h₁, _⟩ <;>
    rcases abs_cases ((a : Int) - b) with ⟨h₂, _⟩ | ⟨h₂, _⟩ <;> rw [h₁, h₂] <;> omega

end Estimates

section Times

theorem expand_time {w' s : Nat} (lost : Nat) (bias r : Int) {E : Int} (hs : 0 < s)
    (hlost : s + lost ≤ 64) (hs64 : s < 64) (hlo : -2 ^ (s - 1) ≤ bias) (hhi : bias < 2 ^ (s - 1))
    {smaller : Counter w' s} (hsmaller : smaller.value = wrap s E)
    (hpast : -(2 ^ (s - 1) + bias) ≤ E - r / 2 ^ lost)
    (hfuture : E - r / 2 ^ lost < 2 ^ (s - 1) - bias) :
    ((((Counter.expandFromTruncatedWithBias (.ofInt (wrap 64 r >>> lost : Nat) : Counter64) smaller
      bias).value <<< lost) % 2 ^ 64 : Nat) : Int) ≡ 2 ^ lost * E [ZMOD 2 ^ 64] := by
  have hvalue : (Counter.ofInt (wrap 64 r >>> lost : Nat) : Counter64).value =
      wrap 64 r / 2 ^ lost := by
    rw [Counter.ofInt_value le_rfl, wrap_natCast, Nat.shiftRight_eq_div_pow]
    exact Nat.mod_eq_of_lt (lt_of_le_of_lt (Nat.div_le_self _ _) (wrap_lt 64 r))
  -- The high bits of the time that the clock does not show.
  obtain ⟨q, hq⟩ : ∃ q, r / 2 ^ lost = ((wrap 64 r / 2 ^ lost : Nat) : Int) + 2 ^ (64 - lost) * q := by
    refine ⟨r / 2 ^ 64, ?_⟩
    have hsplit : r = wrap 64 r + 2 ^ (64 - lost) * (r / 2 ^ 64) * 2 ^ lost := by
      have hpow : (2 : Int) ^ (64 - lost) * 2 ^ lost = 2 ^ 64 := by
        rw [← pow_add]
        congr 1
        omega
      have hdiv := Int.mul_ediv_add_emod r (2 ^ 64)
      rw [mul_right_comm, hpow, wrap_cast]
      omega
    conv_lhs => rw [hsplit]
    rw [Int.add_mul_ediv_right _ _ (by positivity)]
    push_cast
    rfl
  obtain ⟨d, hdlo, hdhi, hlow, hresult⟩ := Counter.expandFromTruncatedWithBias_spec hs hs64 le_rfl
    (.ofInt (wrap 64 r >>> lost : Nat) : Counter64) smaller hlo hhi.le (fun h => absurd h hhi.ne)
  rw [hvalue] at hlow hresult
  generalize ((wrap 64 r / 2 ^ lost : Nat) : Int) = recent at hq hlow hresult
  have hd : d = E - r / 2 ^ lost := by
    have hdvd : (2 : Int) ^ s ∣ 2 ^ (64 - lost) * q :=
      (pow_dvd_pow 2 (by omega : s ≤ 64 - lost)).mul_right q
    have hrecent : r / 2 ^ lost ≡ recent [ZMOD 2 ^ s] := by
      rw [hq]
      refine Int.ModEq.symm (Int.modEq_iff_dvd.mpr ?_)
      rw [add_sub_cancel_left]
      exact hdvd
    have hsame : d ≡ E - r / 2 ^ lost [ZMOD 2 ^ s] := by
      rw [hsmaller] at hlow
      have h := (hlow.trans (wrap_modEq s E)).sub hrecent.symm
      simpa using h
    have hdouble := Counter.two_pow_pred hs
    exact eq_of_modEq_of_window hsame hdlo (by omega) hpast (by omega)
  rw [hresult, Nat.shiftLeft_eq]
  push_cast
  refine (Int.mod_modEq _ _).trans ?_
  have hscaled : (wrap 64 (recent + d) : Int) * 2 ^ lost ≡ (recent + d) * 2 ^ lost [ZMOD 2 ^ 64] :=
    (wrap_modEq 64 (recent + d)).mul_right _
  refine hscaled.trans (Int.modEq_iff_dvd.mpr ⟨q, ?_⟩)
  have hpow : (2 : Int) ^ lost * 2 ^ (64 - lost) = 2 ^ 64 := by
    rw [← pow_add]
    congr 1
    omega
  rw [← hpow, hd, hq]
  ring

theorem toRemoteTime23_value {s : TimeSynchronizer} {delta x : Int} (hsync : s.synchronized = true)
    (hdelta : s.remoteTimeDeltaUsec = 8 * wrap 23 delta) :
    (s.toRemoteTime23 (wrap 64 x)).value = wrap 23 (x / 8 + delta) := by
  have hlocal : (Counter.ofInt (wrap 64 x >>> kTime23LostBits : Nat) : Counter23).value =
      wrap 23 (x / 8) := by
    have hinner := wrap_cast 64 x
    have houter := wrap_cast 23 (x / 8)
    have hshift := wrap_cast 23 ((wrap 64 x >>> kTime23LostBits : Nat) : Int)
    rw [Counter.ofInt_value (by decide)]
    rw [kTime23LostBits, Nat.shiftRight_eq_div_pow] at hshift ⊢
    omega
  have hremote : s.remoteTimeDeltaUsec >>> kTime23LostBits = wrap 23 delta := by
    rw [hdelta, kTime23LostBits, Nat.shiftRight_eq_div_pow]
    omega
  rw [toRemoteTime23, if_pos hsync, hremote]
  simp only
  rw [Counter.add_ofInt_value (by decide) hlocal, wrap_eq_iff]
  exact (wrap_modEq 23 delta).add_left (x / 8)

theorem toRemoteTime16_value {s : TimeSynchronizer} {delta x : Int} (hsync : s.synchronized = true)
    (hdelta : s.remoteTimeDeltaUsec = 8 * wrap 23 delta) :
    (s.toRemoteTime16 (wrap 64 x)).value = wrap 16 (x / 512 + delta / 64) := by
  have hlocal := wrap_cast 64 x
  have hremote := wrap_cast 23 delta
  rw [toRemoteTime16, if_pos hsync, hdelta, Counter.ofInt_value le_rfl]
  have hleft := wrap_cast 16 (((wrap 64 x >>> kTime16LostBits) % 2 ^ 16 +
    ((8 * wrap 23 delta) >>> kTime16LostBits) % 2 ^ 16 : Nat) : Int)
  have hright := wrap_cast 16 (x / 512 + delta / 64)
  rw [kTime16LostBits, Nat.shiftRight_eq_div_pow, Nat.shiftRight_eq_div_pow] at hleft ⊢
  omega

variable {s : TimeSynchronizer} {delta p q e : Int}

theorem fromLocalTime23_toRemoteTime23 (hsync : s.synchronized = true)
    (hdelta : s.remoteTimeDeltaUsec = 8 * wrap 23 delta) (he : 8 * delta = q - p + e) {t r : Int}
    (hpast : r - t - e + 7 ≤ 3 * 2 ^ 24) (hfuture : t - r + e + 7 < 2 ^ 24) :
    ∃ e' : Int, (fromLocalTime23 (clock q r) (s.toRemoteTime23 (clock p t)) : Int) ≡ t + q + e'
      [ZMOD 2 ^ 64] ∧ e - 7 ≤ e' ∧ e' ≤ e := by
  have hbias : kTime23Bias = 2 ^ 21 := rfl
  have hvalue := toRemoteTime23_value (x := t + p) hsync hdelta
  have hexpand := expand_time kTime23LostBits kTime23Bias (r + q)
    (by decide) (by decide) (by decide) (by decide) (by decide) hvalue
    (by rw [hbias, kTime23LostBits]; omega) (by rw [hbias, kTime23LostBits]; omega)
  refine ⟨8 * ((t + p) / 8 + delta) - (t + q), ?_, by omega, by omega⟩
  rw [add_sub_cancel]
  exact hexpand

theorem fromLocalTime16_toRemoteTime16 (hsync : s.synchronized = true)
    (hdelta : s.remoteTimeDeltaUsec = 8 * wrap 23 delta) (he : 8 * delta = q - p + e) {t r : Int}
    (hpast : r - t - e + 1015 ≤ 3 * 2 ^ 23) (hfuture : t - r + e + 511 < 2 ^ 23) :
    ∃ e' : Int, (fromLocalTime16 (clock q r) (s.toRemoteTime16 (clock p t)) : Int) ≡ t + q + e'
      [ZMOD 2 ^ 64] ∧ e - 1015 ≤ e' ∧ e' ≤ e := by
  have hbias : kTime16Bias = 2 ^ 14 := rfl
  have hvalue := toRemoteTime16_value (x := t + p) hsync hdelta
  have hexpand := expand_time kTime16LostBits kTime16Bias (r + q)
    (by decide) (by decide) (by decide) (by decide) (by decide) hvalue
    (by rw [hbias, kTime16LostBits]; omega) (by rw [hbias, kTime16LostBits]; omega)
  refine ⟨512 * ((t + p) / 512 + delta / 64) - (t + q), ?_, by omega, by omega⟩
  rw [add_sub_cancel]
  exact hexpand

end Times

/-- What a synchronizer has worked out about its peer: its own clock is `p` ahead and the peer's `q`,
and the least delays are `a` to the peer and `b` from it. -/
structure InStep (s : TimeSynchronizer) (p q : Int) (a b : Nat) : Prop where
  synchronized : s.synchronized = true
  owd : ∃ units : Nat, s.minimumOneWayDelayUsec = 8 * units ∧ (a + b) / 16 ≤ units + 1 ∧
    units ≤ (a + b) / 16 + 1
  offset : ∃ e : Int, (s.remoteTimeDeltaUsec : Int) ≡ q - p + e [ZMOD 2 ^ 26] ∧
    2 * |e| ≤ |(a : Int) - b| + 22
  time23 : ∀ t r : Int, r - t + (|(a : Int) - b| + 32) ≤ 3 * 2 ^ 24 →
    t - r + (|(a : Int) - b| + 32) < 2 ^ 24 →
    ∃ e : Int, (fromLocalTime23 (clock q r) (s.toRemoteTime23 (clock p t)) : Int) ≡ t + q + e
      [ZMOD 2 ^ 64] ∧ 2 * |e| ≤ |(a : Int) - b| + 2 * (kTime23ErrorBound + 8)
  time16 : ∀ t r : Int, r - t + (|(a : Int) - b| + 1040) ≤ 3 * 2 ^ 23 →
    t - r + (|(a : Int) - b| + 1040) < 2 ^ 23 →
    ∃ e : Int, (fromLocalTime16 (clock q r) (s.toRemoteTime16 (clock p t)) : Int) ≡ t + q + e
      [ZMOD 2 ^ 64] ∧ 2 * |e| ≤ |(a : Int) - b| + 2 * (kTime16ErrorBound + 8)

theorem Recalculated.inStep {s : TimeSynchronizer} {out back p q : Int} {a b : Nat}
    (h : s.Recalculated out back) (hout : q - p + a - 7 ≤ 8 * out ∧ 8 * out ≤ q - p + a + 7)
    (hback : p - q + b - 7 ≤ 8 * back ∧ 8 * back ≤ p - q + b + 7) (hsum : a + b + 14 < 2 ^ 26) :
    s.InStep p q a b := by
  have hback' : -(q - p) + b - 7 ≤ 8 * back ∧ 8 * back ≤ -(q - p) + b + 7 := by omega
  obtain ⟨hoffset, hlo, hhi⟩ := offset_bound hout hback'
  obtain ⟨e, he⟩ : ∃ e, 8 * ((out - back) / 2) - (q - p) = e := ⟨_, rfl⟩
  rw [he] at hoffset hlo hhi
  have he' : 8 * ((out - back) / 2) = q - p + e := by omega
  have habs := abs_nonneg ((a : Int) - b)
  have hle := le_abs_self ((a : Int) - b)
  have hle' := neg_abs_le ((a : Int) - b)
  have h23 : (kTime23ErrorBound : Int) = 15 := rfl
  have h16 : (kTime16ErrorBound : Int) = 1023 := rfl
  refine ⟨h.synchronized, h.owd_bound hout hback' hsum, ⟨e, ?_, hoffset⟩, ?_, ?_⟩
  · have hcast := wrap_cast 23 ((out - back) / 2)
    rw [h.delta, ← he', Int.ModEq]
    push_cast
    omega
  · intro t r hpast hfuture
    obtain ⟨e', hsame, hlow, hhigh⟩ := fromLocalTime23_toRemoteTime23 h.synchronized h.delta he'
      (t := t) (r := r) (by omega) (by omega)
    refine ⟨e', hsame, ?_⟩
    rw [h23]
    rcases abs_cases e' with ⟨heq, _⟩ | ⟨heq, _⟩ <;> rw [heq] <;> omega
  · intro t r hpast hfuture
    obtain ⟨e', hsame, hlow, hhigh⟩ := fromLocalTime16_toRemoteTime16 h.synchronized h.delta he'
      (t := t) (r := r) (by omega) (by omega)
    refine ⟨e', hsame, ?_⟩
    rw [h16]
    rcases abs_cases e' with ⟨heq, _⟩ | ⟨heq, _⟩ <;> rw [heq] <;> omega

end TimeSynchronizer

/-! The two peers, and what passes between them. -/

/-- The arrivals are what happened, not a part of the state. -/
structure Peers where
  client : TimeSynchronizer
  server : TimeSynchronizer
  toServer : List Arrival
  toClient : List Arrival

namespace Peers

open TimeSynchronizer

def initial : Peers := ⟨.initial, .initial, [], []⟩

/-- Datagrams and reports of a minimum arrive in any order; a report may carry any value. -/
inductive Event where
  | datagramToServer (x : Arrival)
  | datagramToClient (x : Arrival)
  | minDeltaToServer (minDeltaTS24 : Counter24)
  | minDeltaToClient (minDeltaTS24 : Counter24)

def receive (s : TimeSynchronizer) (p q : Int) (x : Arrival) : TimeSynchronizer :=
  (s.onAuthenticatedDatagramTimestamp (localTimeToDatagramTS24 (clock p x.sent))
    (clock q x.received)).1

def apply (p q : Int) (s : Peers) : Event → Peers
  | .datagramToServer x =>
    { s with server := receive s.server p q x, toServer := s.toServer ++ [x] }
  | .datagramToClient x =>
    { s with client := receive s.client q p x, toClient := s.toClient ++ [x] }
  | .minDeltaToServer minDeltaTS24 => { s with server := s.server.onPeerMinDeltaTS24 minDeltaTS24 }
  | .minDeltaToClient minDeltaTS24 => { s with client := s.client.onPeerMinDeltaTS24 minDeltaTS24 }

def Step (p q : Int) (s : Peers) (e : Event) (t : Peers) : Prop := t = s.apply p q e

structure Exchanged (s : Peers) : Prop where
  client : s.client.gotPeerUpdate = true ∧ s.client.lastFCMinDeltaTS24 = s.server.getMinDeltaTS24
  server : s.server.gotPeerUpdate = true ∧ s.server.lastFCMinDeltaTS24 = s.client.getMinDeltaTS24

structure Tracks (s : TimeSynchronizer) (p q : Int) (arrivals : List Arrival) : Prop where
  windowed : s.windowedMinTS24Deltas = windowedMin (arrivals.map (Arrival.difference p q))
  recalculated : s.recalculate = s

theorem tracks_initial (p q : Int) : Tracks .initial p q [] := ⟨rfl, rfl⟩

theorem Tracks.report {s : TimeSynchronizer} {p q : Int} {arrivals : List Arrival}
    (h : Tracks s p q arrivals) (minDeltaTS24 : Counter24) :
    Tracks (s.onPeerMinDeltaTS24 minDeltaTS24) p q arrivals :=
  ⟨(recalculate_windowed _).trans h.windowed, recalculate_idem _⟩

theorem Tracks.receive {s : TimeSynchronizer} {p q : Int} {arrivals : List Arrival}
    (h : Tracks s p q arrivals) (x : Arrival) :
    Tracks (receive s p q x) p q (arrivals ++ [x]) := by
  have hdelta : (Counter.ofInt (clock q x.received >>> kTime23LostBits : Nat) : Counter24).sub
      (localTimeToDatagramTS24 (clock p x.sent)) = .ofInt (x.difference p q).delta := by
    have hremote := wrap_cast 64 (x.sent + p)
    have hlocal := wrap_cast 64 (x.received + q)
    apply Counter.ext_value
    rw [localTimeToDatagramTS24, Counter.sub_ofInt_value (by decide) (value_ofInt _), value_ofInt,
      wrap_eq_iff, Int.ModEq,
      Arrival.difference, clock, clock, kTime23LostBits, Nat.shiftRight_eq_div_pow,
      Nat.shiftRight_eq_div_pow]
    simp only
    omega
  let observed := (x.difference p q).observe s.windowedMinTS24Deltas
  have hstate : Peers.receive s p q x =
      { s with windowedMinTS24Deltas := observed }.recalculate := by
    unfold Peers.receive onAuthenticatedDatagramTimestamp
    simp only [hdelta]
    split
    · split <;> rfl
    · rfl
  rw [hstate]
  refine ⟨?_, recalculate_idem _⟩
  rw [recalculate_windowed, List.map_append, windowedMin, List.foldl_append]
  change (x.difference p q).observe s.windowedMinTS24Deltas =
    (x.difference p q).observe (windowedMin (arrivals.map (Arrival.difference p q)))
  rw [h.windowed]

theorem tracks_of_run {p q : Int} {events : List Event} {s : Peers}
    (h : Run (Step p q) initial events s) :
    Tracks s.client q p s.toClient ∧ Tracks s.server p q s.toServer := by
  refine h.invariant (P := fun s => Tracks s.client q p s.toClient ∧ Tracks s.server p q s.toServer)
    ⟨tracks_initial q p, tracks_initial p q⟩ ?_
  rintro t e u ⟨hclient, hserver⟩ rfl
  cases e with
  | datagramToServer x => exact ⟨hclient, hserver.receive x⟩
  | datagramToClient x => exact ⟨hclient.receive x, hserver⟩
  | minDeltaToServer minDeltaTS24 => exact ⟨hclient, hserver.report minDeltaTS24⟩
  | minDeltaToClient minDeltaTS24 => exact ⟨hclient.report minDeltaTS24, hserver⟩

/-- The least delay of a direction is `a`. The datagram with the least difference of timestamps is in
the window when the last one arrives, and no time after it goes back; its difference is not the one
that stands for no sample. -/
structure LeastDelay (p q : Int) (arrivals : List Arrival) (a : Nat) : Prop where
  attained : ∃ x ∈ arrivals, x.delay = a
  range : ∀ x ∈ arrivals, a ≤ x.delay ∧ x.delay + 14 < a + 2 ^ 26
  recent : ∃ older m newer, arrivals = older ++ m :: newer ∧
    (∀ x ∈ arrivals, (m.difference p q).delta ≤ (x.difference p q).delta) ∧
    (m :: newer).Pairwise (fun x y => x.received ≤ y.received) ∧
    (∀ x ∈ newer, x.received ≤ m.received + (kDriftWindowUsec : Int)) ∧
    ¬ (2 : Int) ^ 24 ∣ (m.difference p q).delta

theorem LeastDelay.getBest {p q : Int} {arrivals : List Arrival} {a : Nat}
    (h : LeastDelay p q arrivals a) :
    ∃ delta : Int, (windowedMin (arrivals.map (Arrival.difference p q))).getBest = .ofInt delta ∧
      (q - p + a - 7 ≤ 8 * delta ∧ 8 * delta ≤ q - p + a + 7) ∧ ¬ (2 : Int) ^ 24 ∣ delta := by
  obtain ⟨older, m, newer, hsplit, hleast, hsorted, hwindow, hnonzero⟩ := h.recent
  obtain ⟨x, hx, rfl⟩ := h.attained
  have hm : m ∈ arrivals := by simp [hsplit]
  have hmbound := m.difference_bound p q
  have hxbound := x.difference_bound p q
  have hmx := hleast x hx
  have hmrange := h.range m hm
  refine ⟨(m.difference p q).delta, ?_, by omega, hnonzero⟩
  apply Difference.Least.getBest
  refine ⟨?_, ⟨older.map (Arrival.difference p q), newer.map (Arrival.difference p q), ?_, ?_, ?_⟩,
    hnonzero⟩
  · intro d hd
    obtain ⟨y, hy, rfl⟩ := List.mem_map.mp hd
    have hybound := y.difference_bound p q
    have hyrange := h.range y hy
    exact ⟨hleast y hy, by omega⟩
  · rw [hsplit, List.map_append, List.map_cons]
  · rw [← List.map_cons, List.pairwise_map]
    refine hsorted.imp ?_
    intro x y hxy
    exact Int.add_le_add_right hxy q
  · intro d hd
    obtain ⟨y, hy, rfl⟩ := List.mem_map.mp hd
    have := hwindow y hy
    simp only [Arrival.difference]
    omega

/-- Once the minima are exchanged both sides are in step. -/
theorem inStep_of_exchanged {p q : Int} {events : List Event} {s : Peers}
    (hrun : Run (Step p q) initial events s) {a b : Nat} (ha : LeastDelay p q s.toServer a)
    (hb : LeastDelay q p s.toClient b) (hexchanged : s.Exchanged) (hsum : a + b + 14 < 2 ^ 26) :
    s.client.InStep p q a b ∧ s.server.InStep q p b a := by
  obtain ⟨hclient, hserver⟩ := tracks_of_run hrun
  obtain ⟨out, hout, houtBound, houtValid⟩ := ha.getBest
  obtain ⟨back, hback, hbackBound, hbackValid⟩ := hb.getBest
  rw [← hserver.windowed] at hout
  rw [← hclient.windowed] at hback
  have hrc := recalculated hclient.recalculated hexchanged.client.1
    (hexchanged.client.2.trans hout) hback hbackValid
  have hrs := recalculated hserver.recalculated hexchanged.server.1
    (hexchanged.server.2.trans hback) hout houtValid
  exact ⟨hrc.inStep houtBound hbackBound hsum, hrs.inStep hbackBound houtBound (by omega)⟩

def roundTrip (there back : Arrival) (deltaThere deltaBack : Int) : List Event :=
  [.datagramToServer there, .datagramToClient back, .minDeltaToServer (.ofInt deltaBack),
    .minDeltaToClient (.ofInt deltaThere)]

theorem run_roundTrip (p q : Int) (there back : Arrival) (deltaThere deltaBack : Int) :
    Run (Step p q) initial (roundTrip there back deltaThere deltaBack)
      ((roundTrip there back deltaThere deltaBack).foldl (Peers.apply p q) initial) :=
  Run.snoc (a := Event.minDeltaToClient (.ofInt deltaThere))
    (Run.snoc (a := Event.minDeltaToServer (.ofInt deltaBack))
      (Run.snoc (a := Event.datagramToClient back)
        (Run.snoc (a := Event.datagramToServer there) (Run.nil _) rfl) rfl) rfl) rfl

theorem leastDelay_singleton {p q : Int} {x : Arrival}
    (hnonzero : ¬ (2 : Int) ^ 24 ∣ (x.difference p q).delta) : LeastDelay p q [x] x.delay where
  attained := ⟨x, List.mem_singleton_self x, rfl⟩
  range := by
    intro y hy
    rw [List.mem_singleton.mp hy]
    exact ⟨le_rfl, by omega⟩
  recent := ⟨[], x, [], rfl, by simp, by simp, by simp, hnonzero⟩

/-- A server 8 ms ahead, 800 us away on the way there and 400 us on the way back. -/
theorem inStep_of_exchanged_asymmetric : ∃ s : Peers,
    s.client.InStep 0 8000 800 400 ∧ s.server.InStep 8000 0 400 800 :=
  ⟨_, inStep_of_exchanged (run_roundTrip 0 8000 ⟨100, 800⟩ ⟨2000, 400⟩ 1100 (-950))
    (leastDelay_singleton (by decide +kernel)) (leastDelay_singleton (by decide +kernel))
    ⟨by decide +kernel, by decide +kernel⟩ (by decide)⟩

/-- Delays of 2^25 us, half of half the range each way, count as none. -/
theorem not_inStep_of_exchanged : ¬ ∀ (p q : Int) (events : List Event) (s : Peers) (a b : Nat),
    Run (Step p q) initial events s → LeastDelay p q s.toServer a → LeastDelay q p s.toClient b →
    s.Exchanged → a < 2 ^ 26 → b < 2 ^ 26 →
    ∃ units : Nat, s.client.minimumOneWayDelayUsec = 8 * units ∧ (a + b) / 16 ≤ units + 1 ∧
      units ≤ (a + b) / 16 + 1 := by
  intro hall
  obtain ⟨units, howd, hle, -⟩ := hall 0 8 _ _ (2 ^ 25) (2 ^ 25)
    (run_roundTrip 0 8 ⟨0, 2 ^ 25⟩ ⟨0, 2 ^ 25⟩ (2 ^ 22 + 1) (2 ^ 22 - 1))
    (leastDelay_singleton (by decide +kernel)) (leastDelay_singleton (by decide +kernel))
    ⟨by decide +kernel, by decide +kernel⟩ (by decide) (by decide)
  have hzero : ((roundTrip ⟨0, 2 ^ 25⟩ ⟨0, 2 ^ 25⟩ (2 ^ 22 + 1) (2 ^ 22 - 1)).foldl
      (Peers.apply 0 8) initial).client.minimumOneWayDelayUsec = 0 := by decide +kernel
  rw [hzero] at howd
  omega

end Peers
end Tonk.Session
