import Tonk.Socket.FloodControl
import Tonk.Socket.LightHashMap

set_option autoImplicit false

namespace Tonk.Socket.Hashed
open LightHashMap Transition

variable {Ip : Type} [DecidableEq Ip]

/-- `rates` has the limits, the bins and the keys; its own counts are not used. -/
structure FloodDetector (Ip : Type) where
  rates : Socket.FloodDetector Ip
  countMap : LightHashMap (UDPAddress Ip) Nat

namespace FloodDetector

section Operations

variable (hasher : UDPAddress Ip → Nat)

def initialized (maxPerAddr minuteFloodThresh : Nat) (masterKeys : UInt64 × UInt64) :
    FloodDetector Ip :=
  ⟨.initialized maxPerAddr minuteFloodThresh masterKeys, {}⟩

variable (f : FloodDetector Ip)

def countAt (mapIndex : Nat) : Nat := ((f.countMap.values mapIndex).map Prod.snd).getD 0

def increment (mapIndex : Option Nat) (source : UDPAddress Ip) : Option (FloodDetector Ip) :=
  match mapIndex with
  | none =>
    (f.countMap.insert hasher source.ipaddr 1).map fun (countMap, _) =>
      { f with countMap := countMap }
  | some mapIndex =>
    some { f with countMap := f.countMap.setValue mapIndex (f.countAt mapIndex + 1) }

def full (mapIndex : Option Nat) : Bool :=
  match mapIndex with
  | none => false
  | some mapIndex => f.rates.maximumConnectionsPerAddress ≤ f.countAt mapIndex

/-- Nothing where a loop of the map does not end. -/
def onConnectionRequest (hash : FloodHash Ip) (source : UDPAddress Ip) (key nowUsec : UInt64) :
    Option (FloodReaction × FloodDetector Ip) :=
  match f.countMap.findIndex hasher source.ipaddr with
  | none => none
  | some mapIndex =>
    if f.full mapIndex then some (.deny, f)
    else
      let f := { f with rates := f.rates.countRequest nowUsec }
      if f.rates.rateNotExceeded then
        (f.increment hasher mapIndex source).map fun f => (.allow, f)
      else
        let f := { f with rates := f.rates.rotateKeys nowUsec }
        let keyIndex := key &&& 1 == 1
        -- The low bit is not compared: it says which key made the cookie.
        if (f.rates.expectedCookie hash source keyIndex ^^^ key) >>> 1 = 0 then
          (f.increment hasher mapIndex source).map fun f => (.allow, f)
        else
          let cookie := f.rates.expectedCookie hash source f.rates.lastUpdatedKeyIndex
          some (.cookie (cookie &&& ~~~1 ||| f.rates.lastUpdatedKeyIndex.toUInt64), f)

def onDisconnect (source : UDPAddress Ip) : Option (FloodDetector Ip) :=
  match f.countMap.findIndex hasher source.ipaddr with
  | none => none
  | some none => some f
  | some (some mapIndex) =>
    let ipConnectionCount := f.countAt mapIndex
    if ipConnectionCount ≤ 1 then
      (f.countMap.eraseIndex hasher mapIndex).map fun countMap => { f with countMap := countMap }
    else some { f with countMap := f.countMap.setValue mapIndex (ipConnectionCount - 1) }

def abstract (s : KeyMap (UDPAddress Ip) Nat) : Socket.FloodDetector Ip :=
  { f.rates with countMap := s.lookup }

end Operations

end FloodDetector

/-- The detector, and the sources of the requests that were allowed and whose connections are not yet
gone. The code does not keep these. -/
structure FloodRun (Ip : Type) where
  flood : FloodDetector Ip
  live : List (UDPAddress Ip)

inductive FloodEvent (Ip : Type) where
  | request (source : UDPAddress Ip) (key nowUsec : UInt64)
  | disconnect (source : UDPAddress Ip)

namespace FloodRun

def start (maxPerAddr minuteFloodThresh : Nat) (masterKeys : UInt64 × UInt64) : FloodRun Ip :=
  ⟨.initialized maxPerAddr minuteFloodThresh masterKeys, []⟩

def connections (r : FloodRun Ip) (ip : Ip) : Nat := r.live.countP (·.address = ip)

def next (hasher : UDPAddress Ip → Nat) (hash : FloodHash Ip) (r : FloodRun Ip) :
    FloodEvent Ip → Option (FloodRun Ip)
  | .request source key nowUsec =>
    (r.flood.onConnectionRequest hasher hash source key nowUsec).map fun (reaction, flood) =>
      ⟨flood, match reaction with
        | .allow => source :: r.live
        | .cookie _ => r.live
        | .deny => r.live⟩
  | .disconnect source =>
    (r.flood.onDisconnect hasher source).map fun flood => ⟨flood, r.live.erase source⟩

/-- OnDisconnect is called once, with the same source, for a request that was allowed. -/
def Paired (r : FloodRun Ip) : FloodEvent Ip → Prop
  | .request _ _ _ => True
  | .disconnect source => source ∈ r.live

def Step (hasher : UDPAddress Ip → Nat) (hash : FloodHash Ip) (r : FloodRun Ip) (e : FloodEvent Ip)
    (r' : FloodRun Ip) : Prop :=
  r.Paired e ∧ r.next hasher hash e = some r'

structure Accounted (hasher : UDPAddress Ip → Nat) (hash : FloodHash Ip) (r : FloodRun Ip) :
    Prop where
  /-- An address without connections has no entry. -/
  counts : ∀ ip, r.flood.countMap.find hasher ⟨ip, 0⟩ =
    some (FloodDetector.entry (r.connections ip))
  limit : ∀ ip, r.connections ip ≤ r.flood.rates.maximumConnectionsPerAddress
  /-- A request ends. It is denied at the limit, and only an allowed one changes a count. -/
  request : ∀ source key nowUsec, ∃ reaction flood,
    r.flood.onConnectionRequest hasher hash source key nowUsec = some (reaction, flood) ∧
      (reaction = .deny ↔
        r.connections source.address = r.flood.rates.maximumConnectionsPerAddress) ∧
      (reaction ≠ .allow → flood.countMap = r.flood.countMap)
  disconnect : ∀ source ∈ r.live, ∃ flood, r.flood.onDisconnect hasher source = some flood

def Passes (hash : FloodHash Ip) (r : FloodRun Ip) (source : UDPAddress Ip) (key nowUsec : UInt64) :
    Prop :=
  let counted := r.flood.rates.countRequest nowUsec
  counted.rateNotExceeded = true ∨
    ((counted.rotateKeys nowUsec).expectedCookie hash source (key &&& 1 == 1) ^^^ key) >>> 1 = 0

/-- A request that passes, from an address without connections, finds room for it in the map. -/
def Room (hash : FloodHash Ip) (r : FloodRun Ip) : FloodEvent Ip → Prop
  | .request source key nowUsec => r.Passes hash source key nowUsec →
    r.connections source.address = 0 → r.flood.countMap.numValid < kMaxKeys
  | .disconnect _ => True

end FloodRun

namespace FloodDetector

variable {hasher : UDPAddress Ip → Nat} {f : FloodDetector Ip} {s : KeyMap (UDPAddress Ip) Nat}

/-- What a request does to the bins and the keys, and how it is answered. -/
def react (rates : Socket.FloodDetector Ip) (full : Bool) (hash : FloodHash Ip)
    (source : UDPAddress Ip) (key nowUsec : UInt64) : FloodReaction × Socket.FloodDetector Ip :=
  if full then (.deny, rates)
  else
    let rates := rates.countRequest nowUsec
    if rates.rateNotExceeded then (.allow, rates)
    else
      let rates := rates.rotateKeys nowUsec
      if (rates.expectedCookie hash source (key &&& 1 == 1) ^^^ key) >>> 1 = 0 then (.allow, rates)
      else
        (.cookie (rates.expectedCookie hash source rates.lastUpdatedKeyIndex &&& ~~~1 |||
          rates.lastUpdatedKeyIndex.toUInt64), rates)

theorem increment_spec (h : Refines hasher f.countMap s) {source : UDPAddress Ip}
    {mapIndex : Option Nat} (hfind : f.countMap.findIndex hasher source.ipaddr = some mapIndex) :
    ∃ countMap s', f.increment hasher mapIndex source = some { f with countMap := countMap } ∧
      Refines hasher countMap s' ∧
      ((s.lookup source.ipaddr = none → s.keys.length < kMaxKeys) →
        s' = AList.insert source.ipaddr ((s.lookup source.ipaddr).getD 0 + 1) s) := by
  rcases h.findIndex_cases source.ipaddr with ⟨hlookup, hnone⟩ | ⟨p, c, hlookup, hsome, hp, hslot⟩
  · cases hfind.symm.trans hnone
    rcases h.insert_cases source.ipaddr 1 with ⟨p, w, hfound, -⟩ | ⟨-, hfull, htry⟩ |
      ⟨-, -, countMap, p, hput, -, hnext⟩
    · rw [hlookup] at hfound
      cases hfound
    · refine ⟨f.countMap, s, by rw [increment, htry]; rfl, h, fun hroom => ?_⟩
      exact absurd (hroom hlookup) (by omega)
    · refine ⟨countMap, _, by rw [increment, hput]; rfl, hnext, fun _ => ?_⟩
      rw [hlookup]
      rfl
  · cases hfind.symm.trans hsome
    have hcount : f.countAt p = c := by simp [countAt, hslot]
    refine ⟨f.countMap.setValue p (c + 1), _, by rw [increment, hcount], h.setValue hp hslot (c + 1),
      fun _ => ?_⟩
    rw [hlookup]
    rfl

theorem full_eq (h : Refines hasher f.countMap s) {source : UDPAddress Ip} {mapIndex : Option Nat}
    (hfind : f.countMap.findIndex hasher source.ipaddr = some mapIndex) :
    f.full mapIndex = (f.abstract s).full source := by
  rcases h.findIndex_cases source.ipaddr with ⟨hlookup, hnone⟩ | ⟨p, c, hlookup, hsome, -, hslot⟩
  · cases hfind.symm.trans hnone
    simp [full, Socket.FloodDetector.full, abstract, hlookup]
  · cases hfind.symm.trans hsome
    simp only [full, countAt, Socket.FloodDetector.full, abstract, hlookup, hslot, Option.map_some,
      Option.getD_some]
    exact decide_eq_decide.2 Iff.rfl

theorem onConnectionRequest_spec (h : Refines hasher f.countMap s) (hash : FloodHash Ip)
    (source : UDPAddress Ip) (key nowUsec : UInt64) :
    let result := react f.rates ((f.abstract s).full source) hash source key nowUsec
    ∃ countMap s', f.onConnectionRequest hasher hash source key nowUsec =
        some (result.1, ⟨result.2, countMap⟩) ∧
      Refines hasher countMap s' ∧
      match result.1 with
      | .allow => (s.lookup source.ipaddr = none → s.keys.length < kMaxKeys) →
          s' = AList.insert source.ipaddr ((s.lookup source.ipaddr).getD 0 + 1) s
      | .cookie _ => countMap = f.countMap ∧ s' = s
      | .deny => countMap = f.countMap ∧ s' = s := by
  obtain ⟨mapIndex, hfind, -⟩ := h.wellFormed.findIndex_spec source.ipaddr
  have hfull := full_eq h hfind
  simp only [onConnectionRequest, react, hfind, hfull]
  by_cases hdeny : (f.abstract s).full source = true
  · simp only [hdeny, if_true]
    exact ⟨f.countMap, s, rfl, h, rfl, rfl⟩
  simp only [hdeny, Bool.false_eq_true, if_false]
  by_cases hrate : (f.rates.countRequest nowUsec).rateNotExceeded = true
  · simp only [hrate, if_true]
    obtain ⟨countMap, s', hincrement, hnext, hcount⟩ :=
      increment_spec (f := ⟨f.rates.countRequest nowUsec, f.countMap⟩) h hfind
    exact ⟨countMap, s', by rw [hincrement]; rfl, hnext, hcount⟩
  simp only [hrate, Bool.false_eq_true, if_false]
  split
  · obtain ⟨countMap, s', hincrement, hnext, hcount⟩ := increment_spec
      (f := ⟨(f.rates.countRequest nowUsec).rotateKeys nowUsec, f.countMap⟩) h hfind
    exact ⟨countMap, s', by rw [hincrement]; rfl, hnext, hcount⟩
  · exact ⟨f.countMap, s, rfl, h, rfl, rfl⟩

theorem onDisconnect_spec (h : Refines hasher f.countMap s) (source : UDPAddress Ip) :
    ∃ countMap s', f.onDisconnect hasher source = some { f with countMap := countMap } ∧
      Refines hasher countMap s' ∧
      ∀ c, s.lookup source.ipaddr = some c →
        s' = if c ≤ 1 then s.erase source.ipaddr else AList.insert source.ipaddr (c - 1) s := by
  rcases h.findIndex_cases source.ipaddr with ⟨hlookup, hfind⟩ | ⟨p, c, hlookup, hfind, hp, hslot⟩
  · refine ⟨f.countMap, s, by simp only [onDisconnect, hfind], h, fun c hc => ?_⟩
    rw [hlookup] at hc
    cases hc
  · have hcount : f.countAt p = c := by simp [countAt, hslot]
    by_cases hone : c ≤ 1
    · obtain ⟨countMap, herase, hnext⟩ := h.eraseIndex hfind
      refine ⟨countMap, _, by simp [onDisconnect, hfind, hcount, hone, herase], hnext, fun c' hc => ?_⟩
      cases hlookup.symm.trans hc
      rw [if_pos hone]
    · refine ⟨_, _, by simp only [onDisconnect, hfind, hcount, if_neg hone],
        h.setValue hp hslot (c - 1), fun c' hc => ?_⟩
      cases hlookup.symm.trans hc
      rw [if_neg hone]

end FloodDetector

namespace FloodDetector

variable {hasher : UDPAddress Ip → Nat} {f : FloodDetector Ip} {s : KeyMap (UDPAddress Ip) Nat}

theorem lookup_increment (f : FloodDetector Ip) (s : KeyMap (UDPAddress Ip) Nat)
    (source addr : UDPAddress Ip) :
    (AList.insert source.ipaddr ((s.lookup source.ipaddr).getD 0 + 1) s).lookup addr =
      ((f.abstract s).increment source).countMap addr := by
  by_cases haddr : addr = source.ipaddr
  · subst haddr
    rw [AList.lookup_insert]
    cases hlookup : s.lookup source.ipaddr with
    | none => simp [Socket.FloodDetector.increment, abstract, hlookup]
    | some c => simp [Socket.FloodDetector.increment, abstract, hlookup]
  · rw [AList.lookup_insert_ne haddr]
    simp [Socket.FloodDetector.increment, abstract, haddr]

theorem lookup_disconnect (f : FloodDetector Ip) {source : UDPAddress Ip} {c : Nat}
    (hlookup : s.lookup source.ipaddr = some c) (addr : UDPAddress Ip) :
    (if c ≤ 1 then s.erase source.ipaddr else AList.insert source.ipaddr (c - 1) s).lookup addr =
      ((f.abstract s).onDisconnect source).countMap addr := by
  have hentry : (f.abstract s).countMap source.ipaddr = some c := hlookup
  simp only [Socket.FloodDetector.onDisconnect, hentry]
  by_cases haddr : addr = source.ipaddr
  · subst haddr
    rw [Function.update_self]
    split
    · exact AList.lookup_erase _ s
    · exact AList.lookup_insert s
  · rw [Function.update_of_ne haddr]
    split
    · exact AList.lookup_erase_ne haddr
    · exact AList.lookup_insert_ne haddr

theorem abstract_countRequest (nowUsec : UInt64) : (f.abstract s).countRequest nowUsec =
    abstract ⟨f.rates.countRequest nowUsec, f.countMap⟩ s := by
  unfold Socket.FloodDetector.countRequest abstract
  dsimp only
  split <;> rfl

theorem abstract_rotateKeys (nowUsec : UInt64) : (f.abstract s).rotateKeys nowUsec =
    abstract ⟨f.rates.rotateKeys nowUsec, f.countMap⟩ s := by
  unfold Socket.FloodDetector.rotateKeys abstract
  dsimp only
  split <;> rfl

theorem abstract_onConnectionRequest (hash : FloodHash Ip) (source : UDPAddress Ip)
    (key nowUsec : UInt64) :
    let result := react f.rates ((f.abstract s).full source) hash source key nowUsec
    (f.abstract s).onConnectionRequest hash source key nowUsec =
      (result.1, match result.1 with
        | .allow => (abstract ⟨result.2, f.countMap⟩ s).increment source
        | .cookie _ => abstract ⟨result.2, f.countMap⟩ s
        | .deny => abstract ⟨result.2, f.countMap⟩ s) := by
  simp only [Socket.FloodDetector.onConnectionRequest, react, abstract_countRequest,
    abstract_rotateKeys]
  by_cases hfull : (f.abstract s).full source = true
  · simp only [hfull, if_true]
  simp only [hfull, Bool.false_eq_true, if_false]
  by_cases hrate : (f.rates.countRequest nowUsec).rateNotExceeded = true
  · have hsame : (abstract ⟨f.rates.countRequest nowUsec, f.countMap⟩ s).rateNotExceeded = true := hrate
    simp only [hrate, hsame, if_true]
  have hsame : (abstract ⟨f.rates.countRequest nowUsec, f.countMap⟩ s).rateNotExceeded ≠ true := hrate
  simp only [hrate, hsame, Bool.false_eq_true, if_false]
  have hcookie (keyIndex : Bool) :
      (abstract ⟨(f.rates.countRequest nowUsec).rotateKeys nowUsec, f.countMap⟩ s).expectedCookie hash
        source keyIndex =
      ((f.rates.countRequest nowUsec).rotateKeys nowUsec).expectedCookie hash source keyIndex := rfl
  have hindex : (abstract ⟨(f.rates.countRequest nowUsec).rotateKeys nowUsec,
      f.countMap⟩ s).lastUpdatedKeyIndex =
      ((f.rates.countRequest nowUsec).rotateKeys nowUsec).lastUpdatedKeyIndex := rfl
  simp only [hcookie, hindex]
  split <;> rfl

theorem simulates (h : Refines hasher f.countMap s) (hash : FloodHash Ip) (source : UDPAddress Ip)
    (key nowUsec : UInt64) (hroom : s.lookup source.ipaddr = none → s.keys.length < kMaxKeys) :
    ∃ f' s', f.onConnectionRequest hasher hash source key nowUsec =
        some (((f.abstract s).onConnectionRequest hash source key nowUsec).1, f') ∧
      Refines hasher f'.countMap s' ∧
      f'.abstract s' = ((f.abstract s).onConnectionRequest hash source key nowUsec).2 := by
  obtain ⟨countMap, s', hrequest, hrefines, hcount⟩ :=
    onConnectionRequest_spec h hash source key nowUsec
  rw [abstract_onConnectionRequest]
  generalize react f.rates ((f.abstract s).full source) hash source key nowUsec = result at *
  obtain ⟨reaction, rates⟩ := result
  refine ⟨_, s', hrequest, hrefines, ?_⟩
  cases reaction with
  | allow =>
    obtain rfl := hcount hroom
    simp only [abstract, Socket.FloodDetector.increment]
    congr 1
    funext addr
    exact lookup_increment f s source addr
  | cookie cookieOut =>
    obtain ⟨rfl, rfl⟩ := hcount
    rfl
  | deny =>
    obtain ⟨rfl, rfl⟩ := hcount
    rfl

end FloodDetector

namespace FloodRun

variable {hasher : UDPAddress Ip → Nat} {hash : FloodHash Ip} {r : FloodRun Ip}
  {s : KeyMap (UDPAddress Ip) Nat}

/-- The map has the number of connections of each address, and the limit is kept. -/
structure Inv (hasher : UDPAddress Ip → Nat) (max : Nat) (r : FloodRun Ip)
    (s : KeyMap (UDPAddress Ip) Nat) : Prop where
  refines : Refines hasher r.flood.countMap s
  counts : (r.flood.abstract s).Counts r.connections
  limit : ∀ ip, r.connections ip ≤ max
  max_eq : r.flood.rates.maximumConnectionsPerAddress = max

theorem connections_cons (r : FloodRun Ip) (flood : FloodDetector Ip) (source : UDPAddress Ip) :
    connections ⟨flood, source :: r.live⟩ =
      Function.update r.connections source.address (r.connections source.address + 1) := by
  funext ip
  by_cases hip : ip = source.address
  · subst hip
    simp [connections]
  · simp [connections, Function.update_of_ne hip, Ne.symm hip]

theorem connections_erase (flood : FloodDetector Ip) {source : UDPAddress Ip}
    (hlive : source ∈ r.live) : connections ⟨flood, r.live.erase source⟩ =
      Function.update r.connections source.address (r.connections source.address - 1) := by
  funext ip
  by_cases hip : ip = source.address
  · subst hip
    simp [connections, List.countP_erase, hlive]
  · simp [connections, Function.update_of_ne hip, List.countP_erase, Ne.symm hip]

theorem connections_pos {source : UDPAddress Ip} (hlive : source ∈ r.live) :
    0 < r.connections source.address :=
  List.countP_pos_iff.2 ⟨source, hlive, by simp⟩

theorem inv_start (max minuteFloodThresh : Nat) (masterKeys : UInt64 × UInt64) :
    (start max minuteFloodThresh masterKeys : FloodRun Ip).Inv hasher max ∅ := by
  refine ⟨refines_new, fun ip => ?_, fun ip => Nat.zero_le max, rfl⟩
  have hzero : (start max minuteFloodThresh masterKeys : FloodRun Ip).connections ip = 0 := rfl
  rw [hzero]
  show (∅ : KeyMap (UDPAddress Ip) Nat).lookup ⟨ip, 0⟩ = none
  exact AList.lookup_empty _

theorem Inv.full_iff {max : Nat} (h : r.Inv hasher max s) (hmax : 1 ≤ max) (source : UDPAddress Ip) :
    (r.flood.abstract s).full source = true ↔ r.connections source.address = max := by
  have hentry := h.counts source.address
  have hlimit := h.limit source.address
  simp only [Socket.FloodDetector.full, UDPAddress.ipaddr, hentry, FloodDetector.entry]
  by_cases hzero : r.connections source.address = 0
  · simp only [hzero, if_true, Bool.false_eq_true, false_iff]
    omega
  · simp only [if_neg hzero, decide_eq_true_eq]
    have hmax_eq : (r.flood.abstract s).maximumConnectionsPerAddress = max := h.max_eq
    omega

theorem Inv.room {max : Nat} (h : r.Inv hasher max s) {source : UDPAddress Ip} {key nowUsec : UInt64}
    (hroom : r.Room hash (.request source key nowUsec)) (hpasses : r.Passes hash source key nowUsec) :
    s.lookup source.ipaddr = none → s.keys.length < kMaxKeys := by
  intro hnone
  rw [← h.refines.size]
  refine hroom hpasses ?_
  have hentry := h.counts source.address
  by_contra hsome
  rw [FloodDetector.entry, if_neg hsome] at hentry
  have hboth := hentry.symm.trans hnone
  cases hboth

omit [DecidableEq Ip] in
theorem react_max (rates : Socket.FloodDetector Ip) (full : Bool) (hash : FloodHash Ip)
    (source : UDPAddress Ip) (key nowUsec : UInt64) :
    (FloodDetector.react rates full hash source key nowUsec).2.maximumConnectionsPerAddress =
      rates.maximumConnectionsPerAddress := by
  have hcount : (rates.countRequest nowUsec).maximumConnectionsPerAddress =
      rates.maximumConnectionsPerAddress := by
    unfold Socket.FloodDetector.countRequest
    split <;> rfl
  have hrotate : ((rates.countRequest nowUsec).rotateKeys nowUsec).maximumConnectionsPerAddress =
      rates.maximumConnectionsPerAddress := by
    unfold Socket.FloodDetector.rotateKeys
    split <;> exact hcount
  unfold FloodDetector.react
  dsimp only
  split_ifs
  · rfl
  · exact hcount
  · exact hrotate
  · exact hrotate

omit [DecidableEq Ip] in
theorem react_deny (rates : Socket.FloodDetector Ip) (full : Bool) (hash : FloodHash Ip)
    (source : UDPAddress Ip) (key nowUsec : UInt64) :
    (FloodDetector.react rates full hash source key nowUsec).1 = .deny ↔ full = true := by
  unfold FloodDetector.react
  dsimp only
  split_ifs with hfull <;> simp [hfull]

omit [DecidableEq Ip] in
theorem passes_of_allow {full : Bool} {source : UDPAddress Ip} {key nowUsec : UInt64}
    {rates : Socket.FloodDetector Ip}
    (h : FloodDetector.react r.flood.rates full hash source key nowUsec = (.allow, rates)) :
    r.Passes hash source key nowUsec := by
  unfold FloodDetector.react at h
  dsimp only at h
  split_ifs at h with hfull hrate hsame
  · cases h
  · exact .inl hrate
  · exact .inr hsame
  · cases h

theorem Inv.request {max : Nat} (h : r.Inv hasher max s) (hmax : 1 ≤ max) {source : UDPAddress Ip}
    {key nowUsec : UInt64} (hroom : r.Room hash (.request source key nowUsec)) {r' : FloodRun Ip}
    (hnext : r.next hasher hash (.request source key nowUsec) = some r') :
    ∃ s', r'.Inv hasher max s' := by
  obtain ⟨countMap, s', hrequest, hrefines, hcount⟩ :=
    FloodDetector.onConnectionRequest_spec h.refines hash source key nowUsec
  have hfixed := react_max r.flood.rates ((r.flood.abstract s).full source) hash source key nowUsec
  have hdeny := react_deny r.flood.rates ((r.flood.abstract s).full source) hash source key nowUsec
  rw [h.max_eq] at hfixed
  rw [next, hrequest] at hnext
  generalize hreact : FloodDetector.react r.flood.rates ((r.flood.abstract s).full source) hash source
    key nowUsec = result at *
  obtain ⟨reaction, rates⟩ := result
  cases reaction with
  | allow =>
    cases hnext
    obtain rfl := hcount (h.room hroom (passes_of_allow hreact))
    refine ⟨_, hrefines, ?_, ?_, hfixed⟩
    · rw [connections_cons]
      intro ip
      exact (FloodDetector.lookup_increment r.flood s source ⟨ip, 0⟩).trans (h.counts.increment source ip)
    · have hnot : r.connections source.address ≠ max := by
        intro hfull
        cases hdeny.2 ((h.full_iff hmax source).2 hfull)
      rw [connections_cons]
      intro ip
      by_cases hip : ip = source.address
      · subst hip
        have hle := h.limit source.address
        rw [Function.update_self]
        omega
      · rw [Function.update_of_ne hip]
        exact h.limit ip
  | cookie cookieOut =>
    cases hnext
    obtain ⟨rfl, rfl⟩ := hcount
    exact ⟨s', hrefines, h.counts, h.limit, hfixed⟩
  | deny =>
    cases hnext
    obtain ⟨rfl, rfl⟩ := hcount
    exact ⟨s', hrefines, h.counts, h.limit, hfixed⟩

theorem Inv.disconnect {max : Nat} (h : r.Inv hasher max s) {source : UDPAddress Ip}
    (hlive : source ∈ r.live) : ∃ flood, r.flood.onDisconnect hasher source = some flood ∧
      ∃ s', Inv hasher max ⟨flood, r.live.erase source⟩ s' := by
  obtain ⟨countMap, s', hdisconnect, hrefines, hcount⟩ :=
    FloodDetector.onDisconnect_spec h.refines source
  have hpos := connections_pos hlive
  have hlookup : s.lookup source.ipaddr = some (r.connections source.address) := by
    have hentry := h.counts source.address
    rw [FloodDetector.entry, if_neg (by omega)] at hentry
    exact hentry
  obtain rfl := hcount _ hlookup
  refine ⟨_, hdisconnect, _, hrefines, ?_, ?_, h.max_eq⟩
  · rw [connections_erase _ hlive]
    intro ip
    exact (FloodDetector.lookup_disconnect r.flood hlookup ⟨ip, 0⟩).trans (h.counts.onDisconnect hpos ip)
  · rw [connections_erase _ hlive]
    intro ip
    by_cases hip : ip = source.address
    · subst hip
      have hle := h.limit source.address
      rw [Function.update_self]
      omega
    · rw [Function.update_of_ne hip]
      exact h.limit ip

theorem Inv.step {max : Nat} (hmax : 1 ≤ max) {e : FloodEvent Ip} {r' : FloodRun Ip}
    (h : ∃ s, r.Inv hasher max s) (hroom : r.Room hash e) (hstep : r.Step hasher hash e r') :
    ∃ s', r'.Inv hasher max s' := by
  obtain ⟨s, h⟩ := h
  obtain ⟨hpaired, hnext⟩ := hstep
  cases e with
  | request source key nowUsec => exact h.request hmax hroom hnext
  | disconnect source =>
    obtain ⟨flood, hdisconnect, hinv⟩ := h.disconnect hpaired
    rw [next, hdisconnect] at hnext
    cases hnext
    exact hinv

theorem Inv.accounted {max : Nat} (h : r.Inv hasher max s) (hmax : 1 ≤ max) :
    r.Accounted hasher hash where
  counts ip := by
    obtain ⟨value, hfind, hvalue⟩ := h.refines.wellFormed.find_spec ⟨ip, 0⟩
    rw [hfind, ← h.counts ip]
    congr 1
    ext c
    rw [hvalue, h.refines.holds]
    rfl
  limit ip := h.max_eq ▸ h.limit ip
  request source key nowUsec := by
    obtain ⟨countMap, s', hrequest, -, hcount⟩ :=
      FloodDetector.onConnectionRequest_spec h.refines hash source key nowUsec
    refine ⟨_, _, hrequest, ?_, ?_⟩
    · rw [react_deny, h.full_iff hmax, h.max_eq]
    · intro hother
      generalize FloodDetector.react r.flood.rates ((r.flood.abstract s).full source) hash source key
        nowUsec = result at *
      obtain ⟨reaction, rates⟩ := result
      cases reaction with
      | allow => exact absurd rfl hother
      | cookie cookieOut => exact hcount.1
      | deny => exact hcount.1
  disconnect source hlive := by
    obtain ⟨flood, hdisconnect, -⟩ := h.disconnect hlive
    exact ⟨flood, hdisconnect⟩

/-- Every run that is paired, and finds room for each new address that is allowed. -/
theorem run_accounted {max minuteFloodThresh : Nat} {masterKeys : UInt64 × UInt64}
    {events : List (FloodEvent Ip)} (hmax : 1 ≤ max)
    (hrun : Run (Restrict (Room hash) (Step hasher hash)) (start max minuteFloodThresh masterKeys)
      events r) :
    r.Accounted hasher hash := by
  have hinv : ∃ s, r.Inv hasher max s :=
    hrun.invariant ⟨∅, inv_start max minuteFloodThresh masterKeys⟩
      fun _ _ _ h hstep => Inv.step hmax h hstep.1 hstep.2
  obtain ⟨s, h⟩ := hinv
  exact h.accounted hmax

def noHash : FloodHash Nat := ⟨fun _ => 0, fun _ _ => 0⟩

def reconnecting : List (FloodEvent Nat) :=
  [.request ⟨7, 80⟩ 0 0, .request ⟨7, 81⟩ 0 0, .disconnect ⟨7, 80⟩]

theorem run_accounted_reconnecting : ∃ r : FloodRun Nat,
    Run (Restrict (Room noHash) (Step UDPAddress.address noHash)) (start 1 120 (0, 0)) reconnecting r ∧
      r.live = [] ∧ r.Accounted UDPAddress.address noHash := by
  have hrun : Run (Restrict (Room noHash) (Step UDPAddress.address noHash)) (start 1 120 (0, 0))
      reconnecting _ :=
    .cons ⟨fun _ _ => by decide, trivial, rfl⟩ <| .cons ⟨fun _ _ => by decide, trivial, rfl⟩ <|
      .cons ⟨trivial, List.mem_singleton_self _, rfl⟩ <| .nil _
  exact ⟨_, hrun, rfl, run_accounted (by decide) hrun⟩

section Full

structure Unlimited (rates : Socket.FloodDetector Nat) : Prop where
  max_eq : rates.maximumConnectionsPerAddress = 1
  thresh_eq : rates.floodConnectionsPerMinute = 2 ^ 32 - 1
  countA_lt : rates.connectionCountA < 2 ^ 32
  countB_lt : rates.connectionCountB < 2 ^ 32

theorem Unlimited.countRequest {rates : Socket.FloodDetector Nat} (h : Unlimited rates)
    (nowUsec : UInt64) : Unlimited (rates.countRequest nowUsec) := by
  unfold Socket.FloodDetector.countRequest
  dsimp only
  split
  · exact ⟨h.max_eq, h.thresh_eq, h.countB_lt, Nat.mod_lt _ (by decide)⟩
  · exact ⟨h.max_eq, h.thresh_eq, h.countA_lt, Nat.mod_lt _ (by decide)⟩

theorem Unlimited.rateNotExceeded {rates : Socket.FloodDetector Nat} (h : Unlimited rates) :
    rates.rateNotExceeded = true := by
  have hA := h.countA_lt
  have hB := h.countB_lt
  simp only [Socket.FloodDetector.rateNotExceeded, h.thresh_eq, decide_eq_true_eq]
  omega

structure Arrived (n : Nat) (r : FloodRun Nat) : Prop where
  refines : ∃ s, Refines UDPAddress.address r.flood.countMap s
  unlimited : Unlimited r.flood.rates
  connections : ∀ ip, r.connections ip = if ip < n then 1 else 0

theorem Arrived.request {n : Nat} {r : FloodRun Nat} (h : Arrived n r)
    (hcounts : r.flood.countMap.find UDPAddress.address ⟨n, 0⟩ = some none) :
    ∃ r', Step UDPAddress.address noHash r (.request ⟨n, 0⟩ 0 0) r' ∧ Arrived (n + 1) r' := by
  obtain ⟨s, hrefines⟩ := h.refines
  have hlookup : s.lookup ⟨n, 0⟩ = none := by
    obtain ⟨value, hfind, hvalue⟩ := hrefines.wellFormed.find_spec ⟨n, 0⟩
    cases hfind.symm.trans hcounts
    rw [Option.eq_none_iff_forall_ne_some]
    intro c hc
    cases (hvalue c).2 ((hrefines.holds _ _).2 hc)
  obtain ⟨countMap, s', hrequest, hnext, -⟩ :=
    FloodDetector.onConnectionRequest_spec hrefines noHash ⟨n, 0⟩ 0 0
  have hunlimited := h.unlimited.countRequest 0
  have hreact : FloodDetector.react r.flood.rates ((r.flood.abstract s).full ⟨n, 0⟩) noHash ⟨n, 0⟩ 0 0 =
      (.allow, r.flood.rates.countRequest 0) := by
    have hfull : (r.flood.abstract s).full ⟨n, 0⟩ = false := by
      simp [Socket.FloodDetector.full, FloodDetector.abstract, UDPAddress.ipaddr, hlookup]
    simp [FloodDetector.react, hfull, hunlimited.rateNotExceeded]
  rw [hreact] at hrequest
  refine ⟨_, ⟨trivial, by rw [next, hrequest]; rfl⟩, ⟨s', hnext⟩, hunlimited, fun ip => ?_⟩
  rw [connections_cons]
  by_cases hip : ip = n
  · subst hip
    rw [Function.update_self, h.connections]
    simp
  · rw [Function.update_of_ne hip, h.connections]
    simp only [Nat.lt_succ_iff, Nat.le_iff_lt_or_eq, hip, or_false]

/-- 2^30 + 1 addresses with a connection each are more than the map counts. -/
theorem not_run_accounted : ¬∀ (events : List (FloodEvent Nat)) (r : FloodRun Nat),
    Run (Step UDPAddress.address noHash) (start 1 (2 ^ 32 - 1) (0, 0)) events r →
      r.Accounted UDPAddress.address noHash := by
  intro hall
  have harrive (n : Nat) : ∃ events r,
      Run (Step UDPAddress.address noHash) (start 1 (2 ^ 32 - 1) (0, 0)) events r ∧ Arrived n r := by
    induction n with
    | zero =>
      refine ⟨[], _, .nil _, ⟨∅, refines_new⟩, ⟨rfl, rfl, by decide, by decide⟩, fun ip => ?_⟩
      rfl
    | succ n ih =>
      obtain ⟨events, r, hrun, harrived⟩ := ih
      have hcounts := (hall events r hrun).counts n
      rw [harrived.connections, if_neg (Nat.lt_irrefl n)] at hcounts
      obtain ⟨r', hstep, harrived'⟩ := harrived.request hcounts
      exact ⟨_, r', hrun.snoc hstep, harrived'⟩
  generalize hcount : kMaxKeys + 1 = count
  obtain ⟨events, r, hrun, harrived⟩ := harrive count
  obtain ⟨s, hrefines⟩ := harrived.refines
  -- every address has its entry
  have hsub : (List.range count).map (fun ip => (⟨ip, 0⟩ : UDPAddress Nat)) ⊆ s.keys := by
    intro addr haddr
    obtain ⟨ip, hip, rfl⟩ := List.mem_map.1 haddr
    have hcounts := (hall events r hrun).counts ip
    rw [harrived.connections, if_pos (List.mem_range.1 hip)] at hcounts
    obtain ⟨value, hfind, hvalue⟩ := hrefines.wellFormed.find_spec ⟨ip, 0⟩
    cases hfind.symm.trans hcounts
    rw [← AList.mem_keys, ← AList.lookup_isSome, (hrefines.holds _ _).1 ((hvalue 1).1 rfl)]
    rfl
  have hnodup : ((List.range count).map fun ip => (⟨ip, 0⟩ : UDPAddress Nat)).Nodup :=
    List.nodup_range.map fun i j heq => congrArg UDPAddress.address heq
  have hle := (hnodup.subperm hsub).length_le
  have hbound := hrefines.wellFormed.bounded.trans hrefines.wellFormed.threshold_le
  rw [List.length_map, List.length_range, ← hrefines.size] at hle
  omega

end Full

end FloodRun

end Tonk.Socket.Hashed
