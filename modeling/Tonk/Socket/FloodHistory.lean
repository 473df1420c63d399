import Tonk.Socket.FloodCounts

set_option autoImplicit false

namespace Tonk.Socket.Hashed
open LightHashMap Transition

variable {Ip : Type} [DecidableEq Ip]

/-- The detector, the time of the last request, and those of the requests that have reached the rate
check. The code does not keep these. -/
structure TimedFlood (Ip : Type) where
  flood : FloodDetector Ip
  nowUsec : UInt64
  checks : List UInt64

namespace TimedFlood

def start (maxPerAddr minuteFloodThresh : Nat) (masterKeys : UInt64 × UInt64) : TimedFlood Ip :=
  ⟨.initialized maxPerAddr minuteFloodThresh masterKeys, 0, []⟩

def after (t : TimedFlood Ip) (flood : FloodDetector Ip) (nowUsec : UInt64) :
    FloodReaction → TimedFlood Ip
  | .deny => ⟨flood, nowUsec, t.checks⟩
  | .allow => ⟨flood, nowUsec, nowUsec :: t.checks⟩
  | .cookie _ => ⟨flood, nowUsec, nowUsec :: t.checks⟩

def Step (hasher : UDPAddress Ip → Nat) (hash : FloodHash Ip) (t : TimedFlood Ip) :
    FloodEvent Ip → TimedFlood Ip → Prop
  | .request source key nowUsec, t' => t.nowUsec ≤ nowUsec ∧ ∃ reaction flood,
      t.flood.onConnectionRequest hasher hash source key nowUsec = some (reaction, flood) ∧
        t' = t.after flood nowUsec reaction
  | .disconnect source, t' => ∃ flood,
      t.flood.onDisconnect hasher source = some flood ∧ t' = { t with flood := flood }

def AtLimit (hasher : UDPAddress Ip → Nat) (t : TimedFlood Ip) (source : UDPAddress Ip) : Prop :=
  ∃ count, t.flood.countMap.find hasher source.ipaddr = some (some count) ∧
    t.flood.rates.maximumConnectionsPerAddress ≤ count

def counted (t : TimedFlood Ip) (nowUsec : UInt64) : Socket.FloodDetector Ip :=
  t.flood.rates.countRequest nowUsec

def rotated (t : TimedFlood Ip) (nowUsec : UInt64) : Socket.FloodDetector Ip :=
  (t.counted nowUsec).rotateKeys nowUsec

/-- What a request comes to. -/
structure Requested (hasher : UDPAddress Ip → Nat) (hash : FloodHash Ip) (t : TimedFlood Ip)
    (source : UDPAddress Ip) (key nowUsec : UInt64) (reaction : FloodReaction)
    (flood : FloodDetector Ip) : Prop where
  refines : ∃ s, Refines hasher flood.countMap s
  cases : (reaction = .deny ∧ t.AtLimit hasher source ∧ flood.rates = t.flood.rates) ∨
    ¬t.AtLimit hasher source ∧
      ((reaction = .allow ∧ (t.counted nowUsec).rateNotExceeded = true ∧
          flood.rates = t.counted nowUsec) ∨
        (t.counted nowUsec).rateNotExceeded = false ∧ flood.rates = t.rotated nowUsec ∧
          if ((t.rotated nowUsec).expectedCookie hash source (key &&& 1 == 1) ^^^ key) >>> 1 = 0 then
            reaction = .allow
          else reaction = .cookie ((t.rotated nowUsec).expectedCookie hash source
            (t.rotated nowUsec).lastUpdatedKeyIndex &&& ~~~1 |||
              (t.rotated nowUsec).lastUpdatedKeyIndex.toUInt64))

variable {hasher : UDPAddress Ip → Nat} {hash : FloodHash Ip} {t t' : TimedFlood Ip}

theorem atLimit_iff {s : KeyMap (UDPAddress Ip) Nat} (h : Refines hasher t.flood.countMap s)
    (source : UDPAddress Ip) :
    t.AtLimit hasher source ↔ (t.flood.abstract s).full source = true := by
  obtain ⟨value, hfind, hvalue⟩ := h.wellFormed.find_spec source.ipaddr
  have hlookup : value = s.lookup source.ipaddr := by
    ext c
    rw [hvalue, h.holds]
  have hfull : (t.flood.abstract s).full source = true ↔ ∃ count, value = some count ∧
      t.flood.rates.maximumConnectionsPerAddress ≤ count := by
    simp only [Socket.FloodDetector.full, FloodDetector.abstract, ← hlookup]
    cases value with
    | none => simp
    | some count =>
      simp only [Option.some.injEq, exists_eq_left']
      exact decide_eq_true_iff
  rw [hfull, AtLimit, hfind]
  simp

theorem request_spec (h : ∃ s, Refines hasher t.flood.countMap s) (hash : FloodHash Ip)
    (source : UDPAddress Ip) (key nowUsec : UInt64) : ∃ reaction flood,
      t.flood.onConnectionRequest hasher hash source key nowUsec = some (reaction, flood) ∧
        Requested hasher hash t source key nowUsec reaction flood := by
  obtain ⟨s, h⟩ := h
  obtain ⟨countMap, s', hrequest, hnext, -⟩ :=
    FloodDetector.onConnectionRequest_spec h hash source key nowUsec
  refine ⟨_, _, hrequest, ⟨s', hnext⟩, ?_⟩
  have hlimit := atLimit_iff h source
  simp only [FloodDetector.react, hlimit]
  by_cases hfull : (t.flood.abstract s).full source = true
  · simp only [hfull, if_true]
    exact .inl ⟨trivial, trivial, trivial⟩
  simp only [hfull, Bool.false_eq_true, if_false]
  refine .inr ⟨not_false, ?_⟩
  by_cases hrate : (t.counted nowUsec).rateNotExceeded = true
  · have hcode : (t.flood.rates.countRequest nowUsec).rateNotExceeded = true := hrate
    simp only [hcode, if_true]
    exact .inl ⟨trivial, hrate, rfl⟩
  have hcode : (t.flood.rates.countRequest nowUsec).rateNotExceeded ≠ true := hrate
  simp only [hcode, Bool.false_eq_true, if_false]
  refine .inr ⟨by simpa using hrate, ?_⟩
  by_cases hsame : ((t.rotated nowUsec).expectedCookie hash source (key &&& 1 == 1) ^^^ key) >>> 1 = 0
  · have hsame' : (((t.flood.rates.countRequest nowUsec).rotateKeys nowUsec).expectedCookie hash source
        (key &&& 1 == 1) ^^^ key) >>> 1 = 0 := hsame
    rw [if_pos hsame, if_pos hsame']
    exact ⟨rfl, rfl⟩
  · have hsame' : ¬(((t.flood.rates.countRequest nowUsec).rotateKeys nowUsec).expectedCookie hash source
        (key &&& 1 == 1) ^^^ key) >>> 1 = 0 := hsame
    rw [if_neg hsame, if_neg hsame']
    exact ⟨rfl, rfl⟩

theorem step_cases (h : ∃ s, Refines hasher t.flood.countMap s) {e : FloodEvent Ip}
    (hstep : Step hasher hash t e t') :
    (∃ s, Refines hasher t'.flood.countMap s) ∧ t.nowUsec ≤ t'.nowUsec ∧
      ((t'.flood.rates = t.flood.rates ∧ t'.checks = t.checks) ∨
        ((t'.checks = t'.nowUsec :: t.checks ∧
            ∃ source key, e = .request source key t'.nowUsec ∧ ¬t.AtLimit hasher source) ∧
          (t'.flood.rates = t.counted t'.nowUsec ∨ t'.flood.rates = t.rotated t'.nowUsec))) := by
  cases e with
  | request source key nowUsec =>
    obtain ⟨htime, reaction, flood, hrequest, rfl⟩ := hstep
    obtain ⟨reaction', flood', hrequest', hrequested⟩ := request_spec h hash source key nowUsec
    cases hrequest.symm.trans hrequest'
    rcases hrequested.cases with ⟨rfl, -, hsame⟩ |
      ⟨hlimit, ⟨rfl, -, hcounted⟩ | ⟨-, hrotated, hreaction⟩⟩
    · exact ⟨hrequested.refines, htime, .inl ⟨hsame, rfl⟩⟩
    · exact ⟨hrequested.refines, htime, .inr ⟨⟨rfl, source, key, rfl, hlimit⟩, .inl hcounted⟩⟩
    · split at hreaction
      · subst hreaction
        exact ⟨hrequested.refines, htime, .inr ⟨⟨rfl, source, key, rfl, hlimit⟩, .inr hrotated⟩⟩
      · subst hreaction
        exact ⟨hrequested.refines, htime, .inr ⟨⟨rfl, source, key, rfl, hlimit⟩, .inr hrotated⟩⟩
  | disconnect source =>
    obtain ⟨flood, hdisconnect, rfl⟩ := hstep
    obtain ⟨s, h⟩ := h
    obtain ⟨countMap, s', hdisconnect', hnext, -⟩ := FloodDetector.onDisconnect_spec h source
    cases hdisconnect.symm.trans hdisconnect'
    exact ⟨⟨s', hnext⟩, UInt64.le_refl _, .inl ⟨rfl, rfl⟩⟩

end TimedFlood

section Cookies

open Socket.FloodDetector (kKeyRotationIntervalUsec kBinDurationUsec)

variable {rates : Socket.FloodDetector Ip}

omit [DecidableEq Ip] in
theorem keys_countRequest (rates : Socket.FloodDetector Ip) (nowUsec : UInt64) :
    (rates.countRequest nowUsec).keys = rates.keys ∧
      (rates.countRequest nowUsec).lastKeyUpdateUsec = rates.lastKeyUpdateUsec ∧
      (rates.countRequest nowUsec).lastUpdatedKeyIndex = rates.lastUpdatedKeyIndex := by
  unfold Socket.FloodDetector.countRequest
  dsimp only
  split <;> exact ⟨rfl, rfl, rfl⟩

theorem rotation_iff {lastUsec nowUsec : UInt64} (h : lastUsec ≤ nowUsec) :
    kKeyRotationIntervalUsec ≤ nowUsec - lastUsec ↔ lastUsec.toNat + 5000000 ≤ nowUsec.toNat := by
  have hle : lastUsec.toNat ≤ nowUsec.toNat := UInt64.le_iff_toNat_le.1 h
  rw [UInt64.le_iff_toNat_le, UInt64.toNat_sub_of_le _ _ h]
  have hinterval : kKeyRotationIntervalUsec.toNat = 5000000 := rfl
  omega

/-- A key that was the last one updated at the time `issued`: it still is, or the other one has been
updated since. -/
structure Good (issued : Nat) (index : Bool) (key : List UInt32) (rates : Socket.FloodDetector Ip) :
    Prop where
  key_eq : rates.keys index = key
  updated : (rates.lastUpdatedKeyIndex = index ∧
      issued < rates.lastKeyUpdateUsec.toNat + 5000000) ∨
    (rates.lastUpdatedKeyIndex = !index ∧ issued < rates.lastKeyUpdateUsec.toNat)

omit [DecidableEq Ip] in
theorem Good.countRequest {issued : Nat} {index : Bool} {key : List UInt32}
    (h : Good issued index key rates) (nowUsec : UInt64) :
    Good issued index key (rates.countRequest nowUsec) := by
  obtain ⟨hkeys, hlast, hindex⟩ := keys_countRequest rates nowUsec
  refine ⟨hkeys ▸ h.key_eq, ?_⟩
  rw [hlast, hindex]
  exact h.updated

omit [DecidableEq Ip] in
theorem Good.rotateKeys {issued : Nat} {index : Bool} {key : List UInt32} {nowUsec : UInt64}
    (h : Good issued index key rates) (hlast : rates.lastKeyUpdateUsec ≤ nowUsec)
    (hnow : nowUsec.toNat < issued + 5000000) : Good issued index key (rates.rotateKeys nowUsec) := by
  unfold Socket.FloodDetector.rotateKeys
  by_cases hrotate : kKeyRotationIntervalUsec ≤ nowUsec - rates.lastKeyUpdateUsec
  · rw [if_pos hrotate]
    rw [rotation_iff hlast] at hrotate
    rcases h.updated with ⟨hindex, hissued⟩ | ⟨hindex, hissued⟩
    · refine ⟨?_, .inr ⟨by rw [hindex], ?_⟩⟩
      · rw [hindex]
        exact (Function.update_of_ne (by simp) _ _).trans h.key_eq
      · show issued < nowUsec.toNat
        omega
    · omega
  · rw [if_neg hrotate]
    exact h

theorem same_iff_half (x y : UInt64) : (x ^^^ y) >>> 1 = 0 ↔ x.toNat / 2 = y.toNat / 2 := by
  rw [← UInt64.toNat_inj, UInt64.toNat_shiftRight, UInt64.toNat_xor]
  show (x.toNat ^^^ y.toNat) >>> 1 = 0 ↔ _
  rw [Nat.shiftRight_one, Nat.xor_div_two, Nat.xor_eq_zero_iff]

theorem cookie_half (hash : UInt64) (index : Bool) :
    (hash &&& ~~~1 ||| index.toUInt64).toNat / 2 = hash.toNat / 2 := by
  have hlt := hash.toNat_lt
  have hmask : (~~~1 : UInt64).toNat = 2 ^ 64 - 2 := rfl
  have hindex : index.toUInt64.toNat / 2 = 0 := by cases index <;> rfl
  have hrest : (2 ^ 64 - 2) / 2 = 2 ^ 63 - 1 := rfl
  rw [UInt64.toNat_or, UInt64.toNat_and, hmask, Nat.or_div_two, Nat.and_div_two, hindex, Nat.or_zero,
    hrest, Nat.and_two_pow_sub_one_eq_mod, Nat.mod_eq_of_lt (by omega)]

theorem cookie_keyIndex (hash : UInt64) (index : Bool) :
    (((hash &&& ~~~1 ||| index.toUInt64) &&& 1) == 1) = index := by
  have hlow : ((hash &&& ~~~1 ||| index.toUInt64) &&& 1).toNat = index.toNat := by
    have hone : (1 : UInt64).toNat = 1 := rfl
    have hmask : (~~~1 : UInt64).toNat = 2 ^ 64 - 2 := rfl
    have heven : (2 ^ 64 - 2) % 2 ^ 1 = 0 := rfl
    rw [UInt64.toNat_and, hone, Nat.and_one_is_mod, UInt64.toNat_or, UInt64.toNat_and, hmask]
    show (_ ||| _) % 2 ^ 1 = _
    rw [Nat.or_mod_two_pow, Nat.and_mod_two_pow, heven, Nat.and_zero, Nat.zero_or]
    cases index <;> rfl
  rw [Bool.eq_iff_iff, beq_iff_eq, ← UInt64.toNat_inj, hlow]
  cases index <;> decide

omit [DecidableEq Ip] in
theorem lastKeyUpdate_rotateKeys {nowUsec : UInt64} (h : rates.lastKeyUpdateUsec ≤ nowUsec) :
    (rates.rotateKeys nowUsec).lastKeyUpdateUsec ≤ nowUsec ∧
      nowUsec.toNat < (rates.rotateKeys nowUsec).lastKeyUpdateUsec.toNat + 5000000 := by
  unfold Socket.FloodDetector.rotateKeys
  by_cases hrotate : kKeyRotationIntervalUsec ≤ nowUsec - rates.lastKeyUpdateUsec
  · rw [if_pos hrotate]
    refine ⟨UInt64.le_refl _, ?_⟩
    show nowUsec.toNat < nowUsec.toNat + 5000000
    omega
  · rw [if_neg hrotate]
    rw [rotation_iff h] at hrotate
    exact ⟨h, by omega⟩

namespace TimedFlood

variable {hasher : UDPAddress Ip → Nat} {hash : FloodHash Ip} {t t' : TimedFlood Ip}

/-- The map is one, and the last rotation was not after the last request. -/
structure Timed (hasher : UDPAddress Ip → Nat) (t : TimedFlood Ip) : Prop where
  refines : ∃ s, Refines hasher t.flood.countMap s
  updated : t.flood.rates.lastKeyUpdateUsec ≤ t.nowUsec

theorem timed_start (maxPerAddr minuteFloodThresh : Nat) (masterKeys : UInt64 × UInt64) :
    (start maxPerAddr minuteFloodThresh masterKeys : TimedFlood Ip).Timed hasher :=
  ⟨⟨∅, refines_new⟩, UInt64.le_refl _⟩

theorem Timed.counted (h : t.Timed hasher) {nowUsec : UInt64} (htime : t.nowUsec ≤ nowUsec) :
    (t.counted nowUsec).lastKeyUpdateUsec ≤ nowUsec := by
  rw [TimedFlood.counted, (keys_countRequest _ nowUsec).2.1]
  exact UInt64.le_trans h.updated htime

theorem Timed.step {e : FloodEvent Ip} (h : t.Timed hasher) (hstep : Step hasher hash t e t') :
    t'.Timed hasher := by
  obtain ⟨hrefines, htime, ⟨hsame, -⟩ | ⟨-, hcounted | hrotated⟩⟩ := step_cases h.refines hstep
  · exact ⟨hrefines, hsame ▸ UInt64.le_trans h.updated htime⟩
  · exact ⟨hrefines, hcounted ▸ h.counted htime⟩
  · exact ⟨hrefines, hrotated ▸ (lastKeyUpdate_rotateKeys (h.counted htime)).1⟩

theorem Timed.run {events : List (FloodEvent Ip)} (h : t.Timed hasher)
    (hrun : Run (Step hasher hash) t events t') : t'.Timed hasher :=
  hrun.invariant h fun _ _ _ h hstep => h.step hstep

theorem Timed.good_rotated {issued : Nat} {index : Bool} {key : List UInt32} {nowUsec : UInt64}
    (h : t.Timed hasher) (hgood : Good issued index key t.flood.rates) (htime : t.nowUsec ≤ nowUsec)
    (hnow : nowUsec.toNat < issued + 5000000) : Good issued index key (t.rotated nowUsec) :=
  (hgood.countRequest nowUsec).rotateKeys (h.counted htime) hnow

theorem Timed.good_step {issued : Nat} {index : Bool} {key : List UInt32} {e : FloodEvent Ip}
    (h : t.Timed hasher) (hstep : Step hasher hash t e t')
    (hgood : t.nowUsec.toNat < issued + 5000000 → Good issued index key t.flood.rates)
    (hnow : t'.nowUsec.toNat < issued + 5000000) : Good issued index key t'.flood.rates := by
  obtain ⟨-, htime, hcases⟩ := step_cases h.refines hstep
  have hle := UInt64.le_iff_toNat_le.1 htime
  have hgood := hgood (by omega)
  rcases hcases with ⟨hsame, -⟩ | ⟨-, hcounted | hrotated⟩
  · rw [hsame]
    exact hgood
  · rw [hcounted]
    exact hgood.countRequest _
  · rw [hrotated]
    exact h.good_rotated hgood htime hnow

/-- Whatever happens in between, no other request and no rotation included. -/
theorem Timed.good_run {issued : Nat} {index : Bool} {key : List UInt32}
    {events : List (FloodEvent Ip)} (h : t.Timed hasher) (hgood : Good issued index key t.flood.rates)
    (hrun : Run (Step hasher hash) t events t') :
    t'.nowUsec.toNat < issued + 5000000 → Good issued index key t'.flood.rates := by
  have hboth : t'.Timed hasher ∧
      (t'.nowUsec.toNat < issued + 5000000 → Good issued index key t'.flood.rates) :=
    hrun.invariant (P := fun t => t.Timed hasher ∧
        (t.nowUsec.toNat < issued + 5000000 → Good issued index key t.flood.rates))
      ⟨h, fun _ => hgood⟩ fun _ _ _ hold hstep => ⟨hold.1.step hstep, hold.1.good_step hstep hold.2⟩
  exact hboth.2

theorem Requested.cookie_eq {source : UDPAddress Ip} {key nowUsec cookie : UInt64}
    {flood : FloodDetector Ip}
    (h : Requested hasher hash t source key nowUsec (.cookie cookie) flood) :
    flood.rates = t.rotated nowUsec ∧
      cookie = flood.rates.expectedCookie hash source flood.rates.lastUpdatedKeyIndex &&& ~~~1 |||
        flood.rates.lastUpdatedKeyIndex.toUInt64 := by
  rcases h.cases with ⟨hdeny, -⟩ | ⟨-, ⟨hallow, -⟩ | ⟨-, hrotated, hreaction⟩⟩
  · cases hdeny
  · cases hallow
  · split at hreaction
    · cases hreaction
    · cases hreaction
      rw [hrotated]
      exact ⟨rfl, rfl⟩

/-- Requests from the source that a cookie was made for, with the cookie. -/
theorem cookie_window {maxPerAddr minuteFloodThresh : Nat} {masterKeys : UInt64 × UInt64}
    {events later : List (FloodEvent Ip)} {source : UDPAddress Ip} {key nowUsec cookie : UInt64}
    {flood : FloodDetector Ip} (laterUsec : UInt64)
    (hrun : Run (Step hasher hash) (start maxPerAddr minuteFloodThresh masterKeys) events t)
    (hnow : t.nowUsec ≤ nowUsec)
    (hcookie : t.flood.onConnectionRequest hasher hash source key nowUsec =
      some (.cookie cookie, flood))
    (hlater : Run (Step hasher hash) (t.after flood nowUsec (.cookie cookie)) later t')
    (htime : t'.nowUsec ≤ laterUsec) :
    ∃ reaction flood', t'.flood.onConnectionRequest hasher hash source cookie laterUsec =
        some (reaction, flood') ∧
      (laterUsec.toNat < nowUsec.toNat + 5000000 → ¬t'.AtLimit hasher source → reaction = .allow) ∧
      ((t'.counted laterUsec).rateNotExceeded = false → reaction = .allow →
        (hash.t1haLocal (flood'.rates.keys (cookie &&& 1 == 1)) (hash.hashUDPAddress source) ^^^
          hash.t1haLocal (flood.rates.keys (cookie &&& 1 == 1)) (hash.hashUDPAddress source)) >>> 1 =
            0) := by
  have htimed := (timed_start maxPerAddr minuteFloodThresh masterKeys).run hrun
  obtain ⟨reaction₁, flood₁, hrequest₁, hrequested₁⟩ :=
    request_spec htimed.refines hash source key nowUsec
  cases hcookie.symm.trans hrequest₁
  obtain ⟨hrotated, hvalue⟩ := hrequested₁.cookie_eq
  have hstep : Step hasher hash t (.request source key nowUsec) (t.after flood nowUsec (.cookie cookie)) :=
    ⟨hnow, _, _, hcookie, rfl⟩
  have htimed₁ := htimed.step hstep
  have htimed₂ := htimed₁.run hlater
  have hindex : (cookie &&& 1 == 1) = flood.rates.lastUpdatedKeyIndex := by
    rw [hvalue]
    exact cookie_keyIndex _ _
  have hhalf : cookie.toNat / 2 =
      (hash.t1haLocal (flood.rates.keys (cookie &&& 1 == 1)) (hash.hashUDPAddress source)).toNat / 2 := by
    rw [hindex, hvalue]
    exact cookie_half _ _
  obtain ⟨reaction, flood', hrequest, hrequested⟩ :=
    request_spec htimed₂.refines hash source cookie laterUsec
  refine ⟨reaction, flood', hrequest, fun hwindow hlimit => ?_, fun hflood hallow => ?_⟩
  · -- the key is still there, so the hash is the same
    have hgood₁ : Good nowUsec.toNat (cookie &&& 1 == 1) (flood.rates.keys (cookie &&& 1 == 1))
        flood.rates := by
      refine ⟨rfl, .inl ⟨hindex.symm, ?_⟩⟩
      rw [hrotated]
      exact (lastKeyUpdate_rotateKeys (htimed.counted hnow)).2
    have hle := UInt64.le_iff_toNat_le.1 htime
    have hgood₂ := htimed₁.good_run hgood₁ hlater (by omega)
    have hgood := htimed₂.good_rotated hgood₂ htime hwindow
    have hsame : ((t'.rotated laterUsec).expectedCookie hash source (cookie &&& 1 == 1) ^^^ cookie) >>>
        1 = 0 := by
      rw [same_iff_half, hhalf, Socket.FloodDetector.expectedCookie, hgood.key_eq]
    rcases hrequested.cases with ⟨-, hatLimit, -⟩ | ⟨-, ⟨hallow, -⟩ | ⟨-, -, hreaction⟩⟩
    · exact absurd hatLimit hlimit
    · exact hallow
    · rwa [if_pos hsame] at hreaction
  · rcases hrequested.cases with ⟨hdeny, -⟩ | ⟨-, ⟨-, hrate, -⟩ | ⟨-, hkeys, hreaction⟩⟩
    · rw [hallow] at hdeny
      cases hdeny
    · rw [hflood] at hrate
      cases hrate
    · split at hreaction
      · next hsame =>
        rw [same_iff_half, hhalf] at hsame
        rw [hkeys, same_iff_half]
        exact hsame
      · rw [hallow] at hreaction
        cases hreaction

open FloodRun (noHash) in
/-- The second request of a minute is given a cookie, and is allowed with it four seconds later. -/
theorem cookie_window_accepted : ∃ (t : TimedFlood Nat) (flood flood' : FloodDetector Nat),
    Run (Step UDPAddress.address noHash) (start 10 1 (0, 0)) [.request ⟨7, 80⟩ 0 0] t ∧
    t.flood.onConnectionRequest UDPAddress.address noHash ⟨8, 80⟩ 2 1000 = some (.cookie 0, flood) ∧
    flood.onConnectionRequest UDPAddress.address noHash ⟨8, 80⟩ 0 4000000 = some (.allow, flood') := by
  obtain ⟨t, hrun, htime, hanswer⟩ : ∃ t : TimedFlood Nat,
      Run (Step UDPAddress.address noHash) (start 10 1 (0, 0)) [.request ⟨7, 80⟩ 0 0] t ∧
      t.nowUsec = 0 ∧
      (t.flood.onConnectionRequest UDPAddress.address noHash ⟨8, 80⟩ 2 1000).map
        (fun (reaction, flood) => (reaction, flood.countMap.find UDPAddress.address ⟨8, 0⟩)) =
          some (.cookie 0, some none) :=
    ⟨_, .cons ⟨by decide, .allow, _, rfl, rfl⟩ (.nil _), rfl, rfl⟩
  obtain ⟨⟨reaction, flood⟩, hcookie, hpair⟩ := Option.map_eq_some_iff.1 hanswer
  obtain ⟨rfl, hfind⟩ := Prod.mk.inj hpair
  obtain ⟨reaction, flood', hrequest, hallow, -⟩ := cookie_window 4000000 hrun
    (by rw [htime]; decide) hcookie (.nil _) (show (1000 : UInt64) ≤ 4000000 by decide)
  have hlimit : ¬(t.after flood 1000 (.cookie 0)).AtLimit UDPAddress.address ⟨8, 80⟩ := by
    rintro ⟨count, hcount, -⟩
    have hnone : some none = some (some count) := hfind.symm.trans hcount
    cases hnone
  obtain rfl := hallow (by decide) hlimit
  exact ⟨t, flood, flood', hrun, hcookie, hrequest⟩

end TimedFlood

end Cookies

section Rates

open Socket.FloodDetector (kBinDurationUsec)

namespace TimedFlood

/-- The requests that have reached the rate check within the last minute. -/
def recent (t : TimedFlood Ip) (nowUsec : UInt64) : Nat :=
  t.checks.countP fun c => nowUsec.toNat ≤ c.toNat + kBinDurationUsec.toNat

/-- No request has reached it for five minutes. -/
def Quiet (t : TimedFlood Ip) (nowUsec : UInt64) : Prop :=
  ∀ c ∈ t.checks, c.toNat + 5 * kBinDurationUsec.toNat ≤ nowUsec.toNat

structure FollowsRate (hasher : UDPAddress Ip → Nat) (hash : FloodHash Ip) (t : TimedFlood Ip)
    (source : UDPAddress Ip) (nowUsec : UInt64) : Prop where
  /-- After more than twice the threshold in a minute only a cookie helps. -/
  flood : 2 * t.flood.rates.floodConnectionsPerMinute < t.recent nowUsec → ∀ key flood,
    t.flood.onConnectionRequest hasher hash source key nowUsec = some (.allow, flood) →
      ((t.rotated nowUsec).expectedCookie hash source (key &&& 1 == 1) ^^^ key) >>> 1 = 0
  /-- After five minutes without a request any key is allowed. -/
  quiet : t.Quiet nowUsec → ¬t.AtLimit hasher source → ∀ key, ∃ flood,
    t.flood.onConnectionRequest hasher hash source key nowUsec = some (.allow, flood)

/-- The count of the bin does not wrap when a request reaches the rate check. -/
def BinHolds (hasher : UDPAddress Ip → Nat) (t : TimedFlood Ip) : FloodEvent Ip → Prop
  | .request source _ nowUsec => ¬t.AtLimit hasher source →
    2 * kBinDurationUsec ≤ nowUsec - t.flood.rates.binStartUsec ∨
      t.flood.rates.connectionCountB + 1 < 2 ^ 32
  | .disconnect _ => True

/-- The bins have every request since the start of the first, and the second has those that are at least
a minute after it. -/
structure Binned (t : TimedFlood Ip) : Prop where
  both : t.checks.countP (fun c => t.flood.rates.binStartUsec.toNat ≤ c.toNat) ≤
    t.flood.rates.connectionCountA + t.flood.rates.connectionCountB
  second : t.checks.countP (fun c => t.flood.rates.binStartUsec.toNat + 60000000 ≤ c.toNat) ≤
    t.flood.rates.connectionCountB
  window : ∀ c ∈ t.checks, c.toNat < t.flood.rates.binStartUsec.toNat + 120000000
  started : t.flood.rates.binStartUsec.toNat = 0 ∨
    t.flood.rates.binStartUsec.toNat + 60000000 ≤ t.nowUsec.toNat
  past : ∀ c ∈ t.checks, c.toNat ≤ t.nowUsec.toNat
  last : (t.checks = [] ∧ t.flood.rates.binStartUsec.toNat = 0 ∧
      t.flood.rates.connectionCountA = 0 ∧ t.flood.rates.connectionCountB = 0) ∨
    ∃ c ∈ t.checks, t.flood.rates.binStartUsec.toNat ≤ c.toNat

variable {hasher : UDPAddress Ip → Nat} {hash : FloodHash Ip} {t t' : TimedFlood Ip}

omit [DecidableEq Ip] in
theorem counted_thresh (t : TimedFlood Ip) (nowUsec : UInt64) :
    (t.counted nowUsec).floodConnectionsPerMinute = t.flood.rates.floodConnectionsPerMinute := by
  unfold counted Socket.FloodDetector.countRequest
  dsimp only
  split <;> rfl

omit [DecidableEq Ip] in
theorem Binned.counted_cases (h : t.Binned) {nowUsec : UInt64} (htime : t.nowUsec ≤ nowUsec)
    (hbin : 2 * kBinDurationUsec ≤ nowUsec - t.flood.rates.binStartUsec ∨
      t.flood.rates.connectionCountB + 1 < 2 ^ 32) :
    (t.flood.rates.binStartUsec.toNat + 120000000 ≤ nowUsec.toNat ∧
      (t.counted nowUsec).binStartUsec.toNat + 60000000 = nowUsec.toNat ∧
      (t.counted nowUsec).connectionCountA = t.flood.rates.connectionCountB ∧
      (t.counted nowUsec).connectionCountB = 1) ∨
    (nowUsec.toNat < t.flood.rates.binStartUsec.toNat + 120000000 ∧
      (t.counted nowUsec).binStartUsec = t.flood.rates.binStartUsec ∧
      (t.counted nowUsec).connectionCountA = t.flood.rates.connectionCountA ∧
      (t.counted nowUsec).connectionCountB = t.flood.rates.connectionCountB + 1) := by
  have hle := UInt64.le_iff_toNat_le.1 htime
  have hstart : t.flood.rates.binStartUsec ≤ nowUsec := by
    rw [UInt64.le_iff_toNat_le]
    have hstarted := h.started
    omega
  have hduration : kBinDurationUsec.toNat = 60000000 := rfl
  have hshift : 2 * kBinDurationUsec ≤ nowUsec - t.flood.rates.binStartUsec ↔
      t.flood.rates.binStartUsec.toNat + 120000000 ≤ nowUsec.toNat := by
    have hsub := UInt64.toNat_sub_of_le _ _ hstart
    have hstart' := UInt64.le_iff_toNat_le.1 hstart
    rw [UInt64.le_iff_toNat_le, hsub]
    have htwice : (2 * kBinDurationUsec).toNat = 120000000 := rfl
    omega
  unfold counted Socket.FloodDetector.countRequest
  by_cases hnew : 2 * kBinDurationUsec ≤ nowUsec - t.flood.rates.binStartUsec
  · simp only [if_pos hnew]
    rw [hshift] at hnew
    refine .inl ⟨hnew, ?_, trivial, rfl⟩
    have hminute : kBinDurationUsec ≤ nowUsec := by
      rw [UInt64.le_iff_toNat_le]
      omega
    rw [UInt64.toNat_sub_of_le _ _ hminute]
    have hminute' := UInt64.le_iff_toNat_le.1 hminute
    omega
  · simp only [if_neg hnew]
    have hroom := hbin.resolve_left hnew
    rw [hshift] at hnew
    exact .inr ⟨by omega, trivial, trivial, Nat.mod_eq_of_lt hroom⟩

omit [DecidableEq Ip] in
theorem Binned.recent_lt (h : t.Binned) {nowUsec : UInt64} (htime : t.nowUsec ≤ nowUsec)
    (hbin : 2 * kBinDurationUsec ≤ nowUsec - t.flood.rates.binStartUsec ∨
      t.flood.rates.connectionCountB + 1 < 2 ^ 32) :
    t.recent nowUsec < (t.counted nowUsec).connectionCountA +
      (t.counted nowUsec).connectionCountB := by
  have hle := UInt64.le_iff_toNat_le.1 htime
  have hduration : kBinDurationUsec.toNat = 60000000 := rfl
  have hstarted := h.started
  rcases h.counted_cases htime hbin with ⟨hnew, -, hA, hB⟩ | ⟨hold, -, hA, hB⟩
  · have hsecond : t.recent nowUsec ≤ t.flood.rates.connectionCountB := by
      refine le_trans (List.countP_mono_left fun c _ hc => ?_) h.second
      simp only [decide_eq_true_eq] at hc ⊢
      omega
    omega
  · have hboth : t.recent nowUsec ≤
        t.flood.rates.connectionCountA + t.flood.rates.connectionCountB := by
      refine le_trans (List.countP_mono_left fun c _ hc => ?_) h.both
      simp only [decide_eq_true_eq] at hc ⊢
      omega
    omega

omit [DecidableEq Ip] in
theorem Binned.count {flood : FloodDetector Ip} {nowUsec : UInt64} (h : t.Binned)
    (htime : t.nowUsec ≤ nowUsec)
    (hbin : 2 * kBinDurationUsec ≤ nowUsec - t.flood.rates.binStartUsec ∨
      t.flood.rates.connectionCountB + 1 < 2 ^ 32)
    (hstart : flood.rates.binStartUsec = (t.counted nowUsec).binStartUsec)
    (hcountA : flood.rates.connectionCountA = (t.counted nowUsec).connectionCountA)
    (hcountB : flood.rates.connectionCountB = (t.counted nowUsec).connectionCountB) :
    Binned ⟨flood, nowUsec, nowUsec :: t.checks⟩ := by
  have hle := UInt64.le_iff_toNat_le.1 htime
  have hboth := h.both
  have hsecond := h.second
  have hstarted := h.started
  have hpast : ∀ c ∈ nowUsec :: t.checks, c.toNat ≤ nowUsec.toNat := by
    intro c hc
    rcases List.mem_cons.1 hc with rfl | hc
    · exact le_refl _
    · exact (h.past c hc).trans hle
  rcases h.counted_cases htime hbin with ⟨hnew, hshift, hA, hB⟩ | ⟨hold, hshift, hA, hB⟩
  · rw [← hstart] at hshift
    have hkept : t.checks.countP (fun c => flood.rates.binStartUsec.toNat ≤ c.toNat) ≤
        t.checks.countP fun c => t.flood.rates.binStartUsec.toNat + 60000000 ≤ c.toNat := by
      refine List.countP_mono_left fun c _ hc => ?_
      simp only [decide_eq_true_eq] at hc ⊢
      omega
    have hnone : t.checks.countP
        (fun c => flood.rates.binStartUsec.toNat + 60000000 ≤ c.toNat) = 0 := by
      rw [List.countP_eq_zero]
      intro c hc
      have hwindow := h.window c hc
      simp only [decide_eq_true_eq]
      omega
    refine ⟨?_, ?_, ?_, .inr ?_, hpast, .inr ⟨nowUsec, List.mem_cons_self, ?_⟩⟩
    · rw [List.countP_cons, if_pos (by simp only [decide_eq_true_eq]; omega)]
      simp only
      omega
    · rw [List.countP_cons, if_pos (by simp only [decide_eq_true_eq]; omega)]
      simp only
      omega
    · intro c hc
      have hc := hpast c hc
      simp only
      omega
    · simp only
      omega
    · simp only
      omega
  · rw [← hstart] at hshift
    refine ⟨?_, ?_, ?_, ?_, hpast, .inr ⟨nowUsec, List.mem_cons_self, ?_⟩⟩
    · rw [List.countP_cons, if_pos (by simp only [decide_eq_true_eq, hshift]; omega)]
      simp only [hshift]
      omega
    · rw [List.countP_cons]
      simp only [hshift]
      split <;> omega
    · intro c hc
      have hc := hpast c hc
      simp only [hshift]
      omega
    · simp only [hshift]
      omega
    · simp only [hshift]
      omega

omit [DecidableEq Ip] in
theorem bins_rotateKeys (rates : Socket.FloodDetector Ip) (nowUsec : UInt64) :
    (rates.rotateKeys nowUsec).binStartUsec = rates.binStartUsec ∧
      (rates.rotateKeys nowUsec).connectionCountA = rates.connectionCountA ∧
      (rates.rotateKeys nowUsec).connectionCountB = rates.connectionCountB := by
  unfold Socket.FloodDetector.rotateKeys
  dsimp only
  split <;> exact ⟨rfl, rfl, rfl⟩

omit [DecidableEq Ip] in
theorem binned_start (maxPerAddr minuteFloodThresh : Nat) (masterKeys : UInt64 × UInt64) :
    (start maxPerAddr minuteFloodThresh masterKeys : TimedFlood Ip).Binned :=
  ⟨Nat.zero_le _, Nat.zero_le _, nofun, .inl rfl, nofun, .inl ⟨rfl, rfl, rfl, rfl⟩⟩

omit [DecidableEq Ip] in
theorem Binned.wait (h : t.Binned) (hrates : t'.flood.rates = t.flood.rates)
    (hchecks : t'.checks = t.checks) (htime : t.nowUsec ≤ t'.nowUsec) : t'.Binned := by
  have hle := UInt64.le_iff_toNat_le.1 htime
  refine ⟨?_, ?_, ?_, ?_, ?_, ?_⟩
  · rw [hrates, hchecks]
    exact h.both
  · rw [hrates, hchecks]
    exact h.second
  · rw [hrates, hchecks]
    exact h.window
  · rw [hrates]
    exact h.started.imp_right fun hstarted => hstarted.trans hle
  · rw [hchecks]
    exact fun c hc => (h.past c hc).trans hle
  · rw [hrates, hchecks]
    exact h.last

theorem Binned.step {e : FloodEvent Ip} (h : t.Binned) (htimed : t.Timed hasher)
    (hbin : t.BinHolds hasher e) (hstep : Step hasher hash t e t') : t'.Binned := by
  obtain ⟨-, htime, ⟨hrates, hchecks⟩ | ⟨⟨hchecks, source, key, rfl, hlimit⟩, hcases⟩⟩ :=
    step_cases htimed.refines hstep
  · exact h.wait hrates hchecks htime
  · obtain ⟨flood, nowUsec, checks⟩ := t'
    obtain rfl : checks = nowUsec :: t.checks := hchecks
    rcases hcases with hcounted | hrotated
    · exact h.count htime (hbin hlimit) (by rw [hcounted]) (by rw [hcounted]) (by rw [hcounted])
    · obtain ⟨hstart, hA, hB⟩ := bins_rotateKeys (t.counted nowUsec) nowUsec
      exact h.count htime (hbin hlimit) (by rw [hrotated]; exact hstart)
        (by rw [hrotated]; exact hA) (by rw [hrotated]; exact hB)

theorem Binned.run {events : List (FloodEvent Ip)} (h : t.Binned) (htimed : t.Timed hasher)
    (hrun : Run (Restrict (BinHolds hasher) (Step hasher hash)) t events t') :
    t'.Binned ∧ t'.Timed hasher :=
  hrun.invariant (P := fun t => t.Binned ∧ t.Timed hasher) ⟨h, htimed⟩
    fun _ _ _ hold hstep => ⟨hold.1.step hold.2 hstep.1 hstep.2, hold.2.step hstep.2⟩

omit [DecidableEq Ip] in
theorem exists_mismatch (rates : Socket.FloodDetector Ip) (hash : FloodHash Ip)
    (source : UDPAddress Ip) : ∃ key : UInt64,
      ¬(rates.expectedCookie hash source (key &&& 1 == 1) ^^^ key) >>> 1 = 0 := by
  refine ⟨~~~(rates.expectedCookie hash source false) &&& ~~~1 ||| Bool.toUInt64 false, ?_⟩
  rw [cookie_keyIndex, same_iff_half, cookie_half, UInt64.toNat_not]
  have hlt := (rates.expectedCookie hash source false).toNat_lt
  have hsize : UInt64.size = 2 ^ 64 := rfl
  omega

omit [DecidableEq Ip] in
theorem Binned.quiet_iff (h : t.Binned) {nowUsec : UInt64} (htime : t.nowUsec ≤ nowUsec)
    (hbin : 2 * kBinDurationUsec ≤ nowUsec - t.flood.rates.binStartUsec ∨
      t.flood.rates.connectionCountB + 1 < 2 ^ 32) (hquiet : t.Quiet nowUsec) :
    (t.counted nowUsec).rateNotExceeded = true ↔
      t.flood.rates.connectionCountB ≤ t.flood.rates.floodConnectionsPerMinute ∧
        1 ≤ t.flood.rates.floodConnectionsPerMinute := by
  have hduration : kBinDurationUsec.toNat = 60000000 := rfl
  rw [Socket.FloodDetector.rateNotExceeded, decide_eq_true_eq, counted_thresh]
  rcases h.counted_cases htime hbin with ⟨-, -, hA, hB⟩ | ⟨hold, -, hA, hB⟩
  · rw [hA, hB]
  · rcases h.last with ⟨-, -, hzeroA, hzeroB⟩ | ⟨c, hc, hstart⟩
    · rw [hA, hB, hzeroA, hzeroB]
    · have hsilent := hquiet c hc
      omega

/-- In every run whose bins do not wrap. -/
theorem followsRate_iff {maxPerAddr minuteFloodThresh : Nat} {masterKeys : UInt64 × UInt64}
    {events : List (FloodEvent Ip)} {source : UDPAddress Ip} {key nowUsec : UInt64}
    (hrun : Run (Restrict (BinHolds hasher) (Step hasher hash))
      (start maxPerAddr minuteFloodThresh masterKeys) events t)
    (htime : t.nowUsec ≤ nowUsec) (hbin : t.BinHolds hasher (.request source key nowUsec)) :
    t.FollowsRate hasher hash source nowUsec ↔ (t.Quiet nowUsec → ¬t.AtLimit hasher source →
      t.flood.rates.connectionCountB ≤ t.flood.rates.floodConnectionsPerMinute ∧
        1 ≤ t.flood.rates.floodConnectionsPerMinute) := by
  obtain ⟨hbinned, htimed⟩ := (binned_start maxPerAddr minuteFloodThresh masterKeys).run
    (timed_start maxPerAddr minuteFloodThresh masterKeys) hrun
  constructor
  · intro hfollows hquiet hlimit
    rw [← hbinned.quiet_iff htime (hbin hlimit) hquiet]
    -- a key that matches no cookie is allowed all the same
    obtain ⟨key, hmismatch⟩ := exists_mismatch (t.rotated nowUsec) hash source
    obtain ⟨flood, hallow⟩ := hfollows.quiet hquiet hlimit key
    obtain ⟨reaction, flood', hrequest, hrequested⟩ := request_spec htimed.refines hash source key nowUsec
    cases hallow.symm.trans hrequest
    rcases hrequested.cases with ⟨hdeny, -⟩ | ⟨-, ⟨-, hrate, -⟩ | ⟨-, -, hreaction⟩⟩
    · cases hdeny
    · exact hrate
    · rw [if_neg hmismatch] at hreaction
      cases hreaction
  · intro hcondition
    refine ⟨fun hmany key flood hallow => ?_, fun hquiet hlimit key => ?_⟩
    · obtain ⟨reaction, flood', hrequest, hrequested⟩ :=
        request_spec htimed.refines hash source key nowUsec
      cases hallow.symm.trans hrequest
      rcases hrequested.cases with ⟨hdeny, -⟩ | ⟨hlimit, ⟨-, hrate, -⟩ | ⟨-, -, hreaction⟩⟩
      · cases hdeny
      · have hlt := hbinned.recent_lt htime (hbin hlimit)
        rw [Socket.FloodDetector.rateNotExceeded, decide_eq_true_eq, counted_thresh] at hrate
        omega
      · by_contra hmismatch
        rw [if_neg hmismatch] at hreaction
        cases hreaction
    · obtain ⟨reaction, flood, hrequest, hrequested⟩ :=
        request_spec htimed.refines hash source key nowUsec
      have hrate := (hbinned.quiet_iff htime (hbin hlimit) hquiet).2 (hcondition hquiet hlimit)
      rcases hrequested.cases with ⟨-, hatLimit, -⟩ | ⟨-, ⟨rfl, -⟩ | ⟨hflood, -⟩⟩
      · exact absurd hatLimit hlimit
      · exact ⟨flood, hrequest⟩
      · rw [hrate] at hflood
        cases hflood

open FloodRun (noHash)

/-- The first request, and one ten minutes later. -/
theorem followsRate_later : ∃ t : TimedFlood Nat,
    Run (Step UDPAddress.address noHash) (start 10 1 (0, 0)) [.request ⟨7, 80⟩ 0 0] t ∧
      t.FollowsRate UDPAddress.address noHash ⟨8, 80⟩ 600000000 := by
  obtain ⟨t, hrun, htime, hstart, hcount, hthresh⟩ : ∃ t : TimedFlood Nat,
      Run (Restrict (BinHolds UDPAddress.address) (Step UDPAddress.address noHash)) (start 10 1 (0, 0))
        [.request ⟨7, 80⟩ 0 0] t ∧
      t.nowUsec = 0 ∧ t.flood.rates.binStartUsec = 0 ∧ t.flood.rates.connectionCountB = 1 ∧
      t.flood.rates.floodConnectionsPerMinute = 1 :=
    ⟨_, .cons ⟨fun _ => .inr (by decide), by decide, .allow, _, rfl, rfl⟩ (.nil _), rfl, rfl, rfl, rfl⟩
  have hbin : BinHolds UDPAddress.address t (.request ⟨8, 80⟩ 0 600000000) := fun _ =>
    .inl (by rw [hstart]; decide)
  refine ⟨t, hrun.mono fun _ _ _ hstep => hstep.2, ?_⟩
  refine (followsRate_iff hrun (by rw [htime]; decide) hbin).2 fun _ _ => ?_
  rw [hcount, hthresh]
  decide

/-- Two requests at once, and ten minutes later a third is still asked for a cookie. -/
theorem not_followsRate_flooded : ¬∀ (events : List (FloodEvent Nat)) (t : TimedFlood Nat)
    (source : UDPAddress Nat) (nowUsec : UInt64),
    Run (Step UDPAddress.address noHash) (start 10 1 (0, 0)) events t → t.nowUsec ≤ nowUsec →
      t.FollowsRate UDPAddress.address noHash source nowUsec := by
  intro hall
  obtain ⟨t, hrun, htime, hchecks, hfind, hanswer⟩ : ∃ t : TimedFlood Nat,
      Run (Step UDPAddress.address noHash) (start 10 1 (0, 0))
        [.request ⟨7, 80⟩ 0 0, .request ⟨8, 80⟩ 2 0] t ∧
      t.nowUsec = 0 ∧ t.checks = [0, 0] ∧
      t.flood.countMap.find UDPAddress.address ⟨9, 0⟩ = some none ∧
      (t.flood.onConnectionRequest UDPAddress.address noHash ⟨9, 80⟩ 2 600000000).map Prod.fst =
        some (.cookie 1) :=
    ⟨_, .cons ⟨by decide, .allow, _, rfl, rfl⟩ <| .cons ⟨by decide, .cookie 0, _, rfl, rfl⟩ <| .nil _,
      rfl, rfl, rfl, rfl⟩
  have hfollows := hall _ t ⟨9, 80⟩ 600000000 hrun (by rw [htime]; decide)
  have hquiet : t.Quiet 600000000 := by
    intro c hc
    rw [hchecks] at hc
    obtain rfl : c = 0 := by simpa using hc
    exact Nat.le_of_ble_eq_true rfl
  have hlimit : ¬t.AtLimit UDPAddress.address ⟨9, 80⟩ := by
    rintro ⟨count, hcount, -⟩
    cases hfind.symm.trans hcount
  obtain ⟨flood, hallow⟩ := hfollows.quiet hquiet hlimit 2
  rw [hallow] at hanswer
  cases hanswer

end TimedFlood

end Rates

end Tonk.Socket.Hashed
