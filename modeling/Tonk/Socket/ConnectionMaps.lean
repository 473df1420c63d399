import Tonk.Socket.FloodControl
import Tonk.Socket.LightHashMap

set_option autoImplicit false

namespace Tonk.Socket
open LightHashMap

namespace ConnectionMap

variable {K C : Type} [DecidableEq K] [DecidableEq C]

section Operations

variable (hasher : K → Nat) (m : LightHashMap K C)

def insert (key : K) (conn : C) : Option (LightHashMap K C × Bool) :=
  (m.insert hasher key conn).map fun (m, _, isNew) => (m, isNew)

def remove (key : K) (conn : C) : Option (LightHashMap K C × Bool) :=
  match m.findIndex hasher key with
  | none => none
  | some none => some (m, false)
  | some (some index) =>
    if (m.values index).map Prod.snd ≠ some conn then some (m, false)
    else (m.eraseIndex hasher index).map fun m => (m, true)

end Operations

variable {hasher : K → Nat} {m : LightHashMap K C} {s : KeyMap K C}

omit [DecidableEq C] in
theorem find_eq (h : Refines hasher m s) (key : K) : m.find hasher key = some (s.lookup key) := by
  obtain ⟨value, hfind, hvalue⟩ := h.wellFormed.find_spec key
  rw [hfind]
  congr 1
  ext c
  rw [hvalue, h.holds]

omit [DecidableEq C] in
theorem insert_cases (h : Refines hasher m s) (key : K) (conn : C) :
    ((s.lookup key = none → kMaxKeys ≤ s.keys.length) ∧ insert hasher m key conn = some (m, false)) ∨
    (s.lookup key = none ∧ s.keys.length < kMaxKeys ∧
      ∃ m', insert hasher m key conn = some (m', true) ∧ Refines hasher m' (AList.insert key conn s)) := by
  rcases h.insert_cases key conn with ⟨p, w, hlookup, hfound, -⟩ | ⟨-, hfull, htry⟩ |
    ⟨hlookup, hroom, m', p, hput, -, hnext⟩
  · refine .inl ⟨fun hnone => ?_, by rw [insert, hfound]; rfl⟩
    rw [hlookup] at hnone
    cases hnone
  · exact .inl ⟨fun _ => hfull, by rw [insert, htry]; rfl⟩
  · exact .inr ⟨hlookup, hroom, m', by rw [insert, hput]; rfl, hnext⟩

theorem remove_cases (h : Refines hasher m s) (key : K) (conn : C) :
    (s.lookup key ≠ some conn ∧ remove hasher m key conn = some (m, false)) ∨
    (s.lookup key = some conn ∧
      ∃ m', remove hasher m key conn = some (m', true) ∧ Refines hasher m' (s.erase key)) := by
  rcases h.findIndex_cases key with ⟨hlookup, hfind⟩ | ⟨p, c, hlookup, hfind, -, hslot⟩
  · exact .inl ⟨by simp [hlookup], by simp only [remove, hfind]⟩
  · by_cases hc : c = conn
    · subst hc
      obtain ⟨m', herase, hnext⟩ := h.eraseIndex hfind
      exact .inr ⟨hlookup, m', by simp [remove, hfind, hslot, herase], hnext⟩
    · exact .inl ⟨by simpa [hlookup] using hc, by simp [remove, hfind, hslot, hc]⟩

end ConnectionMap

/-- What asio says of IP addresses: the default one is unspecified. -/
structure IpAddresses (Ip : Type) where
  isUnspecified : Ip → Bool
  any : Ip
  any_unspecified : isUnspecified any = true

namespace Hashed

variable {Ip C : Type} [DecidableEq Ip] [DecidableEq C]

/-- What ChangeAddress does to the map: the old address leaves it and the new one is put, each unless it
is unspecified. -/
def exchange (ips : IpAddresses Ip) (hasher : UDPAddress Ip → Nat)
    (m : LightHashMap (UDPAddress Ip) C) (oldAddress newAddress : UDPAddress Ip) (connection : C) :
    Option (LightHashMap (UDPAddress Ip) C × Bool) :=
  let removed := if ips.isUnspecified oldAddress.address then some m
    else (ConnectionMap.remove hasher m oldAddress connection).map Prod.fst
  match removed with
  | none => none
  | some m =>
    if ips.isUnspecified newAddress.address then some (m, true)
    else ConnectionMap.insert hasher m newAddress connection

/-- A null RecentConnection is `none`. -/
structure ConnectionAddrMap (Ip C : Type) where
  addressMap : LightHashMap (UDPAddress Ip) C
  recentAddress : UDPAddress Ip
  recentConnection : Option C

namespace ConnectionAddrMap

section Operations

variable (ips : IpAddresses Ip) (hasher : UDPAddress Ip → Nat)

/-- UDPAddress(). -/
def noAddress : UDPAddress Ip := ⟨ips.any, 0⟩

/-- RecentConnection is not initialized. -/
def new (recentConnection : Option C) : ConnectionAddrMap Ip C :=
  ⟨{}, noAddress ips, recentConnection⟩

variable (w : ConnectionAddrMap Ip C)

def findByAddr (addr : UDPAddress Ip) : Option (ConnectionAddrMap Ip C × Option C) :=
  if addr = w.recentAddress then some (w, w.recentConnection)
  else
    match w.addressMap.find hasher addr with
    | none => none
    | some none => some (w, none)
    | some (some connection) =>
      some ({ w with recentAddress := addr, recentConnection := some connection }, some connection)

def insertAddress (addr : UDPAddress Ip) (connection : C) : Option (ConnectionAddrMap Ip C × Bool) :=
  if ips.isUnspecified addr.address then some (w, false)
  else
    (ConnectionMap.insert hasher w.addressMap addr connection).map fun (addressMap, success) =>
      ({ w with addressMap := addressMap }, success)

/-- Remove from recent list. -/
def forget (connection : C) : ConnectionAddrMap Ip C :=
  if w.recentConnection = some connection then
    { w with recentAddress := noAddress ips, recentConnection := none }
  else w

def removeAddress (addr : UDPAddress Ip) (connection : C) : Option (ConnectionAddrMap Ip C × Bool) :=
  if ips.isUnspecified addr.address then some (w, false)
  else
    let w := w.forget ips connection
    (ConnectionMap.remove hasher w.addressMap addr connection).map fun (addressMap, success) =>
      ({ w with addressMap := addressMap }, success)

def changeAddress (oldAddress newAddress : UDPAddress Ip) (connection : C) :
    Option (ConnectionAddrMap Ip C × Bool) :=
  let w := w.forget ips connection
  (exchange ips hasher w.addressMap oldAddress newAddress connection).map
    fun (addressMap, success) => ({ w with addressMap := addressMap }, success)

end Operations

end ConnectionAddrMap

inductive AddrOp (Ip C : Type) where
  | find (addr : UDPAddress Ip)
  | insert (addr : UDPAddress Ip) (connection : C)
  | remove (addr : UDPAddress Ip) (connection : C)
  | change (oldAddress newAddress : UDPAddress Ip) (connection : C)

inductive AddrAnswer (C : Type) where
  | found (connection : Option C)
  | done (success : Bool)

section Histories

variable (ips : IpAddresses Ip) (hasher : UDPAddress Ip → Nat)

def ConnectionAddrMap.apply (w : ConnectionAddrMap Ip C) :
    AddrOp Ip C → Option (ConnectionAddrMap Ip C × AddrAnswer C)
  | .find addr => (w.findByAddr hasher addr).map fun (w, connection) => (w, .found connection)
  | .insert addr connection =>
    (w.insertAddress ips hasher addr connection).map fun (w, success) => (w, .done success)
  | .remove addr connection =>
    (w.removeAddress ips hasher addr connection).map fun (w, success) => (w, .done success)
  | .change oldAddress newAddress connection =>
    (w.changeAddress ips hasher oldAddress newAddress connection).map fun (w, success) =>
      (w, .done success)

/-- The address map alone. -/
def applyAlone (m : LightHashMap (UDPAddress Ip) C) :
    AddrOp Ip C → Option (LightHashMap (UDPAddress Ip) C × AddrAnswer C)
  | .find addr => (m.find hasher addr).map fun connection => (m, .found connection)
  | .insert addr connection =>
    if ips.isUnspecified addr.address then some (m, .done false)
    else (ConnectionMap.insert hasher m addr connection).map fun (m, success) => (m, .done success)
  | .remove addr connection =>
    if ips.isUnspecified addr.address then some (m, .done false)
    else (ConnectionMap.remove hasher m addr connection).map fun (m, success) => (m, .done success)
  | .change oldAddress newAddress connection =>
    (exchange ips hasher m oldAddress newAddress connection).map fun (m, success) =>
      (m, .done success)

/-- The answers to a list of operations, and the state after it. -/
def history {σ : Type} (step : σ → AddrOp Ip C → Option (σ × AddrAnswer C)) (state : σ) :
    List (AddrOp Ip C) → Option (σ × List (AddrAnswer C))
  | [] => some (state, [])
  | op :: ops =>
    match step state op with
    | none => none
    | some (state, answer) =>
      (history step state ops).map fun (state, answers) => (state, answer :: answers)

/-- The caller of FindByAddr has the source of a datagram. -/
def AddrOp.Specified : AddrOp Ip C → Prop
  | .find addr => ips.isUnspecified addr.address = false
  | _ => True

end Histories

section Coherence

variable {ips : IpAddresses Ip} {hasher : UDPAddress Ip → Nat} {w : ConnectionAddrMap Ip C}
  {s : KeyMap (UDPAddress Ip) C}

/-- The hash map is a map, and the recent address is in it unless it is unspecified. -/
structure Coherent (ips : IpAddresses Ip) (hasher : UDPAddress Ip → Nat)
    (w : ConnectionAddrMap Ip C) (s : KeyMap (UDPAddress Ip) C) : Prop where
  refines : Refines hasher w.addressMap s
  recent : ips.isUnspecified w.recentAddress.address = false →
    ∃ connection, w.recentConnection = some connection ∧
      s.lookup w.recentAddress = some connection

omit [DecidableEq C] in
theorem coherent_new (recentConnection : Option C) :
    Coherent ips hasher (ConnectionAddrMap.new ips recentConnection) ∅ := by
  refine ⟨refines_new, fun hspecified => ?_⟩
  have hany : ips.isUnspecified ips.any = false := hspecified
  rw [ips.any_unspecified] at hany
  cases hany

theorem Coherent.forget (h : Coherent ips hasher w s) (connection : C) :
    Coherent ips hasher (w.forget ips connection) s ∧
      (w.forget ips connection).addressMap = w.addressMap ∧
      (w.forget ips connection).recentConnection ≠ some connection := by
  unfold ConnectionAddrMap.forget
  by_cases hrecent : w.recentConnection = some connection
  · rw [if_pos hrecent]
    refine ⟨⟨h.refines, fun hspecified => ?_⟩, rfl, nofun⟩
    have hany : ips.isUnspecified ips.any = false := hspecified
    rw [ips.any_unspecified] at hany
    cases hany
  · rw [if_neg hrecent]
    exact ⟨h, rfl, hrecent⟩

omit [DecidableEq C] in
theorem Coherent.insert (h : Coherent ips hasher w s) (addr : UDPAddress Ip) (connection : C) :
    ∃ m success s', ConnectionMap.insert hasher w.addressMap addr connection = some (m, success) ∧
      Coherent ips hasher { w with addressMap := m } s' := by
  rcases ConnectionMap.insert_cases h.refines addr connection with ⟨-, hinsert⟩ |
    ⟨hfree, -, m, hinsert, hnext⟩
  · exact ⟨_, _, s, hinsert, h⟩
  · refine ⟨m, true, _, hinsert, hnext, fun hspecified => ?_⟩
    obtain ⟨recent, hrecent, hlookup⟩ := h.recent hspecified
    refine ⟨recent, hrecent, ?_⟩
    -- the new address was free, and the recent one is not
    have hne : w.recentAddress ≠ addr := by
      intro heq
      rw [heq, hfree] at hlookup
      cases hlookup
    rw [AList.lookup_insert_ne hne]
    exact hlookup

theorem Coherent.remove (h : Coherent ips hasher w s) (addr : UDPAddress Ip) {connection : C}
    (hforgotten : w.recentConnection ≠ some connection) :
    ∃ m success s', ConnectionMap.remove hasher w.addressMap addr connection = some (m, success) ∧
      Coherent ips hasher { w with addressMap := m } s' := by
  rcases ConnectionMap.remove_cases h.refines addr connection with ⟨-, hremove⟩ |
    ⟨hheld, m, hremove, hnext⟩
  · exact ⟨_, _, s, hremove, h⟩
  · refine ⟨m, true, _, hremove, hnext, fun hspecified => ?_⟩
    obtain ⟨recent, hrecent, hlookup⟩ := h.recent hspecified
    refine ⟨recent, hrecent, ?_⟩
    -- the address removed was the connection's, and the recent one is not
    have hne : w.recentAddress ≠ addr := by
      intro heq
      rw [heq, hheld] at hlookup
      rw [hrecent, hlookup] at hforgotten
      exact hforgotten rfl
    rw [AList.lookup_erase_ne hne]
    exact hlookup

theorem Coherent.exchange (h : Coherent ips hasher w s) (oldAddress newAddress : UDPAddress Ip)
    {connection : C} (hforgotten : w.recentConnection ≠ some connection) :
    ∃ m success s', exchange ips hasher w.addressMap oldAddress newAddress connection =
        some (m, success) ∧ Coherent ips hasher { w with addressMap := m } s' := by
  obtain ⟨m₁, s₁, hold, hnext₁⟩ : ∃ m₁ s₁,
      (if ips.isUnspecified oldAddress.address then some w.addressMap
        else (ConnectionMap.remove hasher w.addressMap oldAddress connection).map Prod.fst) = some m₁ ∧
      Coherent ips hasher { w with addressMap := m₁ } s₁ := by
    by_cases haddr : ips.isUnspecified oldAddress.address = true
    · exact ⟨w.addressMap, s, if_pos haddr, h⟩
    · obtain ⟨m, success, s', hremove, hnext⟩ := h.remove oldAddress hforgotten
      exact ⟨m, s', by rw [if_neg haddr, hremove]; rfl, hnext⟩
  simp only [Hashed.exchange, hold]
  by_cases haddr : ips.isUnspecified newAddress.address = true
  · exact ⟨m₁, true, s₁, if_pos haddr, hnext₁⟩
  · rw [if_neg haddr]
    exact hnext₁.insert newAddress connection

omit [DecidableEq C] in
theorem Coherent.findByAddr (h : Coherent ips hasher w s) {addr : UDPAddress Ip}
    (hspecified : ips.isUnspecified addr.address = false) :
    ∃ w', w.findByAddr hasher addr = some (w', s.lookup addr) ∧ w'.addressMap = w.addressMap ∧
      Coherent ips hasher w' s := by
  unfold ConnectionAddrMap.findByAddr
  by_cases hrecent : addr = w.recentAddress
  · subst hrecent
    obtain ⟨connection, hconnection, hlookup⟩ := h.recent hspecified
    rw [if_pos rfl, hconnection, hlookup]
    exact ⟨w, rfl, rfl, h⟩
  · rw [if_neg hrecent, ConnectionMap.find_eq h.refines]
    cases hlookup : s.lookup addr with
    | none => exact ⟨w, rfl, rfl, h⟩
    | some connection => exact ⟨_, rfl, rfl, h.refines, fun _ => ⟨connection, rfl, hlookup⟩⟩

theorem Coherent.apply (h : Coherent ips hasher w s) {op : AddrOp Ip C} (hop : op.Specified ips) :
    ∃ w' s' answer, w.apply ips hasher op = some (w', answer) ∧
      applyAlone ips hasher w.addressMap op = some (w'.addressMap, answer) ∧
      Coherent ips hasher w' s' := by
  cases op with
  | find addr =>
    obtain ⟨w', hfind, hsame, hnext⟩ := h.findByAddr hop
    refine ⟨w', s, _, by rw [ConnectionAddrMap.apply, hfind]; rfl, ?_, hnext⟩
    rw [applyAlone, ConnectionMap.find_eq h.refines, hsame]
    rfl
  | insert addr connection =>
    by_cases haddr : ips.isUnspecified addr.address = true
    · refine ⟨w, s, .done false, ?_, ?_, h⟩
      · simp [ConnectionAddrMap.apply, ConnectionAddrMap.insertAddress, haddr]
      · simp [applyAlone, haddr]
    · obtain ⟨m, success, s', hinsert, hnext⟩ := h.insert addr connection
      refine ⟨_, s', .done success, ?_, ?_, hnext⟩
      · simp [ConnectionAddrMap.apply, ConnectionAddrMap.insertAddress, haddr, hinsert]
      · simp [applyAlone, haddr, hinsert]
  | remove addr connection =>
    by_cases haddr : ips.isUnspecified addr.address = true
    · refine ⟨w, s, .done false, ?_, ?_, h⟩
      · simp [ConnectionAddrMap.apply, ConnectionAddrMap.removeAddress, haddr]
      · simp [applyAlone, haddr]
    · obtain ⟨hforget, hmap, hforgotten⟩ := h.forget connection
      obtain ⟨m, success, s', hremove, hnext⟩ := hforget.remove addr hforgotten
      refine ⟨_, s', .done success, ?_, ?_, hnext⟩
      · simp [ConnectionAddrMap.apply, ConnectionAddrMap.removeAddress, haddr, hremove]
      · rw [hmap] at hremove
        simp [applyAlone, haddr, hremove]
  | change oldAddress newAddress connection =>
    obtain ⟨hforget, hmap, hforgotten⟩ := h.forget connection
    obtain ⟨m, success, s', hexchange, hnext⟩ := hforget.exchange oldAddress newAddress hforgotten
    refine ⟨_, s', .done success, ?_, ?_, hnext⟩
    · simp [ConnectionAddrMap.apply, ConnectionAddrMap.changeAddress, hexchange]
    · rw [hmap] at hexchange
      simp [applyAlone, hexchange]

theorem Coherent.history (h : Coherent ips hasher w s) {ops : List (AddrOp Ip C)}
    (hops : ∀ op ∈ ops, op.Specified ips) :
    ∃ w' answers, history (ConnectionAddrMap.apply ips hasher) w ops = some (w', answers) ∧
      history (applyAlone ips hasher) w.addressMap ops = some (w'.addressMap, answers) := by
  induction ops generalizing w s with
  | nil => exact ⟨w, [], rfl, rfl⟩
  | cons op ops ih =>
    obtain ⟨w₁, s₁, answer, happly, halone, hnext⟩ := h.apply (hops op List.mem_cons_self)
    obtain ⟨w', answers, hhistory, hhistory'⟩ :=
      ih hnext fun op hop => hops op (List.mem_cons_of_mem _ hop)
    refine ⟨w', answer :: answers, ?_, ?_⟩
    · rw [Hashed.history, happly]
      simp [hhistory]
    · rw [Hashed.history, halone]
      simp [hhistory']

/-- Every list of operations on a new map ends with the answers of the address map alone, whatever
RecentConnection holds at first. -/
theorem answers_eq_alone (ips : IpAddresses Ip) (hasher : UDPAddress Ip → Nat)
    (recentConnection : Option C) (ops : List (AddrOp Ip C)) (hops : ∀ op ∈ ops, op.Specified ips) :
    ∃ w answers,
      history (ConnectionAddrMap.apply ips hasher) (.new ips recentConnection) ops =
        some (w, answers) ∧
      history (applyAlone ips hasher) {} ops = some (w.addressMap, answers) :=
  (coherent_new recentConnection).history hops

def numbered : IpAddresses Nat := ⟨fun ip => ip == 0, 0, rfl⟩

def moving : List (AddrOp Nat Nat) :=
  [.insert ⟨7, 80⟩ 1, .find ⟨7, 80⟩, .insert ⟨7, 80⟩ 2, .remove ⟨7, 80⟩ 2, .find ⟨7, 80⟩,
    .change ⟨7, 80⟩ ⟨7, 81⟩ 1, .find ⟨7, 80⟩, .find ⟨7, 81⟩]

theorem answers_eq_alone_moving : ∃ w answers,
    history (ConnectionAddrMap.apply numbered UDPAddress.address) (.new numbered (some 2)) moving =
      some (w, answers) ∧
    history (applyAlone numbered UDPAddress.address) {} moving = some (w.addressMap, answers) :=
  answers_eq_alone numbered UDPAddress.address (some 2) moving (by
    simp [moving, AddrOp.Specified, numbered])

end Coherence

end Hashed

end Tonk.Socket
