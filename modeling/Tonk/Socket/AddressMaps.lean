import Tonk.Lib.Run

/-!
The address maps of the UDP sockets, and the connections that put themselves into them. Each
operation of a map is atomic under its lock. The steps of one connection follow each other on its
strand, except for the insertion of an incoming connection, which its socket makes.
-/

set_option autoImplicit false

namespace Tonk.Socket
open Transition

variable {M A C : Type}

/-- A map with its most recent hit. Unspecified addresses are `none`. -/
structure ConnectionAddrMap (A C : Type) where
  table : A → Option C
  recent : Option (A × C)

namespace ConnectionAddrMap

def empty : ConnectionAddrMap A C := ⟨fun _ => none, none⟩

/-- The map gives the address to the connection, in its table or as the recent hit. -/
def Holds (w : ConnectionAddrMap A C) (addr : A) (c : C) : Prop :=
  w.table addr = some c ∨ w.recent = some (addr, c)

/-- The recent hit is still in the table. -/
def Cached (w : ConnectionAddrMap A C) : Prop :=
  ∀ addr c, w.recent = some (addr, c) → w.table addr = some c

section Forget

variable [DecidableEq C]

def forget (w : ConnectionAddrMap A C) (c : C) : ConnectionAddrMap A C :=
  match w.recent with
  | some (_, recentConnection) => if recentConnection = c then { w with recent := none } else w
  | none => w

theorem forget_table (w : ConnectionAddrMap A C) (c : C) : (w.forget c).table = w.table := by
  unfold forget
  split
  · split <;> rfl
  · rfl

theorem forget_recent {w : ConnectionAddrMap A C} {c d : C} {addr : A}
    (h : (w.forget c).recent = some (addr, d)) : w.recent = some (addr, d) ∧ d ≠ c := by
  unfold forget at h
  split at h
  · next recentAddress recentConnection hrecent =>
    split at h
    · cases h
    · next hne =>
      rw [hrecent] at h ⊢
      cases h
      exact ⟨rfl, hne⟩
  · next hrecent =>
    rw [hrecent] at h
    cases h

theorem Cached.forget {w : ConnectionAddrMap A C} (h : w.Cached) (c : C) : (w.forget c).Cached := by
  intro addr d hrecent
  rw [forget_table]
  exact h _ _ (forget_recent hrecent).1

end Forget

variable [DecidableEq A]

def findByAddr (w : ConnectionAddrMap A C) (addr : A) : Option C × ConnectionAddrMap A C :=
  match w.recent with
  | some (recentAddress, recentConnection) =>
    if addr = recentAddress then (some recentConnection, w)
    else
      match w.table addr with
      | none => (none, w)
      | some c => (some c, { w with recent := some (addr, c) })
  | none =>
    match w.table addr with
    | none => (none, w)
    | some c => (some c, { w with recent := some (addr, c) })

/-- AddressMap.Insert. -/
def insert (w : ConnectionAddrMap A C) (addr : A) (c : C) : ConnectionAddrMap A C × Bool :=
  match w.table addr with
  | some _ => (w, false)
  | none => ({ w with table := Function.update w.table addr (some c) }, true)

theorem findByAddr_table (w : ConnectionAddrMap A C) (addr : A) :
    (w.findByAddr addr).2.table = w.table := by
  unfold findByAddr
  split
  · split
    · rfl
    · split <;> rfl
  · split <;> rfl

theorem Cached.findByAddr_eq {w : ConnectionAddrMap A C} (h : w.Cached) (addr : A) :
    (w.findByAddr addr).1 = w.table addr := by
  unfold findByAddr
  split
  · next recentAddress recentConnection hrecent =>
    split
    · next heq =>
      rw [heq, h _ _ hrecent]
    · split <;> simp_all
  · split <;> simp_all

theorem Cached.findByAddr {w : ConnectionAddrMap A C} (h : w.Cached) (addr : A) :
    (w.findByAddr addr).2.Cached := by
  have hhit : ∀ c, w.table addr = some c →
      ({ w with recent := some (addr, c) } : ConnectionAddrMap A C).Cached := by
    intro c hc addr' c' heq
    cases heq
    exact hc
  unfold ConnectionAddrMap.findByAddr
  split
  · split
    · exact h
    · split
      · exact h
      · next hc => exact hhit _ hc
  · split
    · exact h
    · next hc => exact hhit _ hc

theorem Cached.insert {w : ConnectionAddrMap A C} (h : w.Cached) (addr : A) (c : C) :
    (w.insert addr c).1.Cached := by
  unfold ConnectionAddrMap.insert
  split
  · exact h
  · next hfree =>
    intro addr' c' hrecent
    have hold := h addr' c' hrecent
    have hne : addr' ≠ addr := by
      rintro rfl
      rw [hfree] at hold
      cases hold
    simp only [Function.update_of_ne hne, hold]

theorem insert_table_iff (w : ConnectionAddrMap A C) (addr addr' : A) (c d : C) :
    (w.insert addr c).1.table addr' = some d ↔
      w.table addr' = some d ∨ addr' = addr ∧ w.table addr = none ∧ d = c := by
  unfold ConnectionAddrMap.insert
  split
  · next hold => simp [hold]
  · next hfree =>
    by_cases haddr : addr' = addr
    · subst haddr
      simp [hfree, eq_comm]
    · simp [haddr]

theorem insert_snd (w : ConnectionAddrMap A C) (addr : A) (c : C) :
    (w.insert addr c).2 = true ↔ w.table addr = none := by
  unfold ConnectionAddrMap.insert
  split <;> simp_all

variable [DecidableEq C]

/-- AddressMap.Remove. -/
def remove (w : ConnectionAddrMap A C) (addr : A) (c : C) : ConnectionAddrMap A C :=
  if w.table addr = some c then { w with table := Function.update w.table addr none } else w

def removeAddress (w : ConnectionAddrMap A C) (addr : Option A) (c : C) : ConnectionAddrMap A C :=
  match addr with
  | none => w
  | some addr => (w.forget c).remove addr c

def changeAddress (w : ConnectionAddrMap A C) (oldAddress newAddress : Option A) (c : C) :
    ConnectionAddrMap A C :=
  let w := w.forget c
  let w := match oldAddress with
    | none => w
    | some addr => w.remove addr c
  match newAddress with
  | none => w
  | some addr => (w.insert addr c).1

theorem remove_table_iff (w : ConnectionAddrMap A C) (addr addr' : A) (c d : C) :
    (w.remove addr c).table addr' = some d ↔ w.table addr' = some d ∧ ¬ (addr' = addr ∧ d = c) := by
  unfold ConnectionAddrMap.remove
  split
  · next hheld =>
    by_cases haddr : addr' = addr
    · subst haddr
      simp [hheld, eq_comm]
    · simp [haddr]
  · next hheld =>
    refine ⟨fun h => ⟨h, ?_⟩, fun h => h.1⟩
    rintro ⟨rfl, rfl⟩
    exact hheld h

theorem Cached.forget_remove {w : ConnectionAddrMap A C} (h : w.Cached) (addr : A) (c : C) :
    ((w.forget c).remove addr c).Cached := by
  intro addr' d hrecent
  have hsame : ((w.forget c).remove addr c).recent = (w.forget c).recent := by
    unfold ConnectionAddrMap.remove
    split <;> rfl
  rw [hsame] at hrecent
  obtain ⟨hold, hne⟩ := forget_recent hrecent
  rw [remove_table_iff, forget_table]
  exact ⟨h _ _ hold, fun heq => hne heq.2⟩

theorem Cached.removeAddress {w : ConnectionAddrMap A C} (h : w.Cached) (addr : Option A) (c : C) :
    (w.removeAddress addr c).Cached := by
  cases addr with
  | none => exact h
  | some addr => exact h.forget_remove addr c

theorem removeAddress_table_iff (w : ConnectionAddrMap A C) (addr : Option A) (addr' : A) (c d : C) :
    (w.removeAddress addr c).table addr' = some d ↔
      w.table addr' = some d ∧ ¬ (some addr' = addr ∧ d = c) := by
  cases addr with
  | none => simp [removeAddress]
  | some addr =>
    rw [removeAddress, remove_table_iff, forget_table]
    simp

theorem Cached.changeAddress {w : ConnectionAddrMap A C} (h : w.Cached)
    (oldAddress newAddress : Option A) (c : C) :
    (w.changeAddress oldAddress newAddress c).Cached := by
  unfold ConnectionAddrMap.changeAddress
  cases oldAddress with
  | none =>
    cases newAddress with
    | none => exact h.forget c
    | some new => exact (h.forget c).insert new c
  | some old =>
    cases newAddress with
    | none => exact h.forget_remove old c
    | some new => exact (h.forget_remove old c).insert new c

theorem changeAddress_none (w : ConnectionAddrMap A C) (newAddress : Option A) (addr' : A) (c d : C)
    (h : (w.changeAddress none newAddress c).table addr' = some d) :
    w.table addr' = some d ∨ d = c ∧ newAddress = some addr' := by
  unfold ConnectionAddrMap.changeAddress at h
  cases newAddress with
  | none =>
    rw [forget_table] at h
    exact .inl h
  | some new =>
    rw [insert_table_iff, forget_table] at h
    rcases h with h | ⟨rfl, -, rfl⟩
    · exact .inl h
    · exact .inr ⟨rfl, rfl⟩

theorem changeAddress_some (w : ConnectionAddrMap A C) (old : A) (newAddress : Option A) (addr' : A)
    (c d : C) (h : (w.changeAddress (some old) newAddress c).table addr' = some d) :
    w.table addr' = some d ∧ ¬ (addr' = old ∧ d = c) ∨ d = c ∧ newAddress = some addr' := by
  unfold ConnectionAddrMap.changeAddress at h
  cases newAddress with
  | none =>
    rw [remove_table_iff, forget_table] at h
    exact .inl h
  | some new =>
    rw [insert_table_iff, remove_table_iff, forget_table] at h
    rcases h with h | ⟨rfl, -, rfl⟩
    · exact .inl h
    · exact .inr ⟨rfl, rfl⟩

theorem changeAddress_table (w : ConnectionAddrMap A C) (oldAddress newAddress : Option A)
    (addr' : A) (c d : C) (h : (w.changeAddress oldAddress newAddress c).table addr' = some d) :
    w.table addr' = some d ∧ ¬ (some addr' = oldAddress ∧ d = c) ∨
      d = c ∧ newAddress = some addr' := by
  cases oldAddress with
  | none =>
    rcases changeAddress_none w newAddress addr' c d h with hold | hnew
    · exact .inl ⟨hold, by simp⟩
    · exact .inr hnew
  | some old =>
    rcases changeAddress_some w old newAddress addr' c d h with hold | hnew
    · exact .inl ⟨hold.1, by simpa using hold.2⟩
    · exact .inr hnew

end ConnectionAddrMap

/-- What a connection and its strand hold of the maps. -/
structure Conn (M A : Type) where
  addressMap : M
  peerUDPAddress : Option A
  /-- The InsertAddress that onConnectRequest has still to make. -/
  inserting : Option (M × A)
  /-- setPeerAddressAndSource is between its two map operations; the flag is insertSuccess. -/
  moving : Option (M × A × Bool)
  removedFromMaps : Bool

/-- The connection believes that this is its place. -/
def Conn.Believes (k : Conn M A) (m : M) (addr : A) : Prop :=
  k.addressMap = m ∧ k.peerUDPAddress = some addr

structure Sockets (M A C : Type) where
  maps : M → ConnectionAddrMap A C
  connections : C → Option (Conn M A)

namespace Sockets

inductive Event (M A C : Type) where
  /-- onConnectRequest makes the connection, after its lookup of the address has failed. -/
  | accept (c : C) (m : M) (addr : A)
  /-- InitializeOutgoingConnection and InitializeP2PConnection. -/
  | connect (c : C) (m : M)
  /-- onConnectRequest inserts the connection. -/
  | insertIncoming (c : C)
  | setPeerAddress (c : C) (addr : Option A)
  /-- setPeerAddressAndSource, as far as InsertAddress. -/
  | startMove (c : C) (m : M) (addr : A)
  /-- setPeerAddressAndSource, from RemoveAddress on. -/
  | finishMove (c : C)
  | removeFromMaps (c : C)
  | findByAddr (m : M) (addr : A)

def init : Sockets M A C := ⟨fun _ => .empty, fun _ => none⟩

/-- What a connection does on its strand waits for its setPeerAddressAndSource to return. -/
def onStrand (s : Sockets M A C) (c : C) (f : Conn M A → Sockets M A C) : Option (Sockets M A C) :=
  match s.connections c with
  | none => none
  | some k => if k.moving.isNone then some (f k) else none

theorem onStrand_eq_some {s s' : Sockets M A C} {c : C} {f : Conn M A → Sockets M A C}
    (h : s.onStrand c f = some s') :
    ∃ k, s.connections c = some k ∧ k.moving = none ∧ s' = f k := by
  unfold onStrand at h
  split at h
  · cases h
  · next k hk =>
    split at h
    · next hstill => exact ⟨k, hk, by simpa using hstill, (Option.some.inj h).symm⟩
    · cases h

/-- The maps list the connection nowhere. -/
def Unlisted (s : Sockets M A C) (c : C) : Prop :=
  ∀ m addr, (s.maps m).table addr ≠ some c

section Maps

variable [DecidableEq M]

def setMap (s : Sockets M A C) (m : M) (w : ConnectionAddrMap A C) : Sockets M A C :=
  { s with maps := Function.update s.maps m w }

theorem setMap_table {s : Sockets M A C} {m m' : M} {w : ConnectionAddrMap A C} {addr : A} {c : C}
    (h : ((s.setMap m w).maps m').table addr = some c) :
    m' = m ∧ w.table addr = some c ∨ m' ≠ m ∧ (s.maps m').table addr = some c := by
  unfold setMap at h
  by_cases hm : m' = m
  · subst hm
    exact .inl ⟨rfl, by simpa using h⟩
  · exact .inr ⟨hm, by simpa [Function.update_of_ne hm] using h⟩

variable [DecidableEq A]

theorem setMap_insert {s : Sockets M A C} {m m' : M} {addr addr' : A} {c d : C}
    (h : ((s.setMap m ((s.maps m).insert addr c).1).maps m').table addr' = some d) :
    (s.maps m').table addr' = some d ∨
      m' = m ∧ addr' = addr ∧ (s.maps m).table addr = none ∧ d = c := by
  rcases setMap_table h with ⟨rfl, hnew⟩ | ⟨-, hsame⟩
  · rcases (ConnectionAddrMap.insert_table_iff ..).mp hnew with hold | hnew
    · exact .inl hold
    · exact .inr ⟨rfl, hnew⟩
  · exact .inl hsame

variable [DecidableEq C]

theorem setMap_removeAddress {s : Sockets M A C} {m m' : M} {old : Option A} {addr' : A} {c d : C}
    (h : ((s.setMap m ((s.maps m).removeAddress old c)).maps m').table addr' = some d) :
    (s.maps m').table addr' = some d ∧ ¬ (m' = m ∧ old = some addr' ∧ d = c) := by
  rcases setMap_table h with ⟨rfl, hnew⟩ | ⟨hm, hsame⟩
  · obtain ⟨hold, hother⟩ := (ConnectionAddrMap.removeAddress_table_iff ..).mp hnew
    exact ⟨hold, fun heq => hother ⟨heq.2.1.symm, heq.2.2⟩⟩
  · exact ⟨hsame, fun heq => hm heq.1⟩

theorem setMap_changeAddress {s : Sockets M A C} {m m' : M} {old new : Option A} {addr' : A}
    {c d : C}
    (h : ((s.setMap m ((s.maps m).changeAddress old new c)).maps m').table addr' = some d) :
    (s.maps m').table addr' = some d ∧ ¬ (m' = m ∧ old = some addr' ∧ d = c) ∨
      m' = m ∧ new = some addr' ∧ d = c := by
  rcases setMap_table h with ⟨rfl, hnew⟩ | ⟨hm, hsame⟩
  · rcases ConnectionAddrMap.changeAddress_table _ _ _ _ _ _ hnew with ⟨hold, hother⟩ | ⟨hd, hnew⟩
    · exact .inl ⟨hold, fun heq => hother ⟨heq.2.1.symm, heq.2.2⟩⟩
    · exact .inr ⟨rfl, hnew, hd⟩
  · exact .inl ⟨hsame, fun heq => hm heq.1⟩

end Maps

section Connections

variable [DecidableEq C]

def setConnection (s : Sockets M A C) (c : C) (k : Conn M A) : Sockets M A C :=
  { s with connections := Function.update s.connections c (some k) }

def create (s : Sockets M A C) (c : C) (k : Conn M A) : Option (Sockets M A C) :=
  match s.connections c with
  | some _ => none
  | none => some (s.setConnection c k)

end Connections

section Steps

variable [DecidableEq M] [DecidableEq A] [DecidableEq C]

def insertIncoming (s : Sockets M A C) (c : C) (k : Conn M A) (place : M × A) : Sockets M A C :=
  (s.setMap place.1 ((s.maps place.1).insert place.2 c).1).setConnection c
    { k with inserting := none }

def setPeerAddress (s : Sockets M A C) (c : C) (k : Conn M A) (addr : Option A) :
    Sockets M A C :=
  (s.setMap k.addressMap ((s.maps k.addressMap).changeAddress k.peerUDPAddress addr c)).setConnection
    c { k with peerUDPAddress := addr }

def startMove (s : Sockets M A C) (c : C) (k : Conn M A) (m : M) (addr : A) : Sockets M A C :=
  (s.setMap m ((s.maps m).insert addr c).1).setConnection c
    { k with moving := some (m, addr, ((s.maps m).insert addr c).2) }

def finishMove (s : Sockets M A C) (c : C) (k : Conn M A) (place : M × A × Bool) :
    Sockets M A C :=
  let s := if place.2.2 then
      s.setMap k.addressMap ((s.maps k.addressMap).removeAddress k.peerUDPAddress c)
    else s
  s.setConnection c
    { k with addressMap := place.1, peerUDPAddress := some place.2.1, moving := none }

def removeFromMaps (s : Sockets M A C) (c : C) (k : Conn M A) : Sockets M A C :=
  if k.removedFromMaps then s
  else (s.setMap k.addressMap ((s.maps k.addressMap).removeAddress k.peerUDPAddress c)).setConnection
    c { k with removedFromMaps := true }

def step (s : Sockets M A C) : Event M A C → Option (Sockets M A C)
  | .accept c m addr => s.create c ⟨m, some addr, some (m, addr), none, false⟩
  | .connect c m => s.create c ⟨m, none, none, none, false⟩
  | .insertIncoming c =>
    match s.connections c with
    | none => none
    | some k => k.inserting.map (s.insertIncoming c k)
  | .setPeerAddress c addr => s.onStrand c fun k => s.setPeerAddress c k addr
  | .startMove c m addr => s.onStrand c fun k => s.startMove c k m addr
  | .finishMove c =>
    match s.connections c with
    | none => none
    | some k => k.moving.map (s.finishMove c k)
  | .removeFromMaps c => s.onStrand c fun k => s.removeFromMaps c k
  | .findByAddr m addr => some (s.setMap m ((s.maps m).findByAddr addr).2)

/-- A datagram from the address, received on the socket, is given to the connection. -/
def Reachable (s : Sockets M A C) (m : M) (addr : A) (c : C) : Prop :=
  ((s.maps m).findByAddr addr).1 = some c

/-- An incoming connection is inserted before its address changes or it is removed; a connection
that is removed does not change its address; and where setPeerAddressAndSource cannot insert the new
address, the connection is not listed at its old one, or the two are the same. -/
def Orderly (s : Sockets M A C) : Event M A C → Prop
  | .setPeerAddress c _ =>
    ∀ k, s.connections c = some k → k.inserting = none ∧ k.removedFromMaps = false
  | .startMove c m addr =>
    ∀ k, s.connections c = some k → k.inserting = none ∧ k.removedFromMaps = false ∧
      ((s.maps m).table addr = none ∨ k.Believes m addr ∨
        ∀ old, k.peerUDPAddress = some old → (s.maps k.addressMap).table old ≠ some c)
  | .removeFromMaps c => ∀ k, s.connections c = some k → k.inserting = none
  | _ => True

end Steps

/-- A connection is listed at its own place or where it is moving to, and only while it is neither
waiting for its first insertion nor removed. -/
structure Settled (s : Sockets M A C) : Prop where
  cached : ∀ m, (s.maps m).Cached
  listed : ∀ m addr c, (s.maps m).table addr = some c →
    ∃ k, s.connections c = some k ∧ k.removedFromMaps = false ∧ k.inserting = none ∧
      (k.Believes m addr ∨ k.moving = some (m, addr, true))
  failed : ∀ c k m addr, s.connections c = some k → k.moving = some (m, addr, false) →
    k.Believes m addr ∨ s.Unlisted c
  pending : ∀ c k m addr, s.connections c = some k → k.inserting = some (m, addr) →
    k.Believes m addr ∧ k.moving = none ∧ k.removedFromMaps = false

theorem settled_init : Settled (init : Sockets M A C) :=
  ⟨fun _ _ _ h => (nomatch h), fun _ _ _ h => (nomatch h), fun _ _ _ _ h => (nomatch h),
    fun _ _ _ _ h => (nomatch h)⟩

theorem Settled.listed_at {s : Sockets M A C} (hs : s.Settled) {c : C} {k : Conn M A}
    (hk : s.connections c = some k) {m : M} {addr : A} (h : (s.maps m).table addr = some c) :
    k.removedFromMaps = false ∧ k.inserting = none ∧
      (k.Believes m addr ∨ k.moving = some (m, addr, true)) := by
  obtain ⟨k', hk', hrest⟩ := hs.listed m addr c h
  rw [hk] at hk'
  cases hk'
  exact hrest

theorem Settled.believes {s : Sockets M A C} (hs : s.Settled) {c : C} {k : Conn M A}
    (hk : s.connections c = some k) (hstill : k.moving = none) {m : M} {addr : A}
    (h : (s.maps m).table addr = some c) : k.Believes m addr := by
  rcases (hs.listed_at hk h).2.2 with hbelief | hmoving
  · exact hbelief
  · rw [hstill] at hmoving
    cases hmoving

theorem Settled.table_of_holds {s : Sockets M A C} (hs : s.Settled) {m : M} {addr : A} {c : C}
    (h : (s.maps m).Holds addr c) : (s.maps m).table addr = some c := by
  rcases h with htable | hrecent
  · exact htable
  · exact hs.cached m addr c hrecent

theorem Settled.cached_setMap [DecidableEq M] {s : Sockets M A C} (hs : s.Settled) (m : M)
    {w : ConnectionAddrMap A C} (hw : w.Cached) (m' : M) : ((s.setMap m w).maps m').Cached := by
  unfold setMap
  by_cases hm : m' = m
  · subst hm
    simpa using hw
  · simpa [Function.update_of_ne hm] using hs.cached m'

section Invariant

variable [DecidableEq C]

theorem Settled.of_connection {s s' : Sockets M A C} {c : C} {k : Conn M A} (hs : s.Settled)
    (hconnections : s'.connections = Function.update s.connections c (some k))
    (hcached : ∀ m, (s'.maps m).Cached)
    (hothers : ∀ m addr d, d ≠ c → (s'.maps m).table addr = some d →
      (s.maps m).table addr = some d)
    (hlisted : ∀ m addr, (s'.maps m).table addr = some c → k.removedFromMaps = false ∧
      k.inserting = none ∧ (k.Believes m addr ∨ k.moving = some (m, addr, true)))
    (hfailed : ∀ m addr, k.moving = some (m, addr, false) → k.Believes m addr ∨ s'.Unlisted c)
    (hpending : ∀ m addr, k.inserting = some (m, addr) →
      k.Believes m addr ∧ k.moving = none ∧ k.removedFromMaps = false) : s'.Settled where
  cached := hcached
  listed := by
    intro m addr d hentry
    by_cases hd : d = c
    · subst hd
      exact ⟨k, by rw [hconnections, Function.update_self], hlisted m addr hentry⟩
    · obtain ⟨kd, hkd, hrest⟩ := hs.listed m addr d (hothers m addr d hd hentry)
      exact ⟨kd, by rw [hconnections, Function.update_of_ne hd, hkd], hrest⟩
  failed := by
    intro d kd m addr hkd hmoving
    rw [hconnections] at hkd
    by_cases hd : d = c
    · subst hd
      rw [Function.update_self] at hkd
      cases hkd
      exact hfailed m addr hmoving
    · rw [Function.update_of_ne hd] at hkd
      refine (hs.failed d kd m addr hkd hmoving).imp_right fun hun m' addr' hentry => ?_
      exact hun m' addr' (hothers m' addr' d hd hentry)
  pending := by
    intro d kd m addr hkd hinserting
    rw [hconnections] at hkd
    by_cases hd : d = c
    · subst hd
      rw [Function.update_self] at hkd
      cases hkd
      exact hpending m addr hinserting
    · rw [Function.update_of_ne hd] at hkd
      exact hs.pending d kd m addr hkd hinserting

theorem Settled.create {s s' : Sockets M A C} (hs : s.Settled) {c : C} {k : Conn M A}
    (h : s.create c k = some s') (hmoving : k.moving = none)
    (hpending : ∀ m addr, k.inserting = some (m, addr) →
      k.Believes m addr ∧ k.moving = none ∧ k.removedFromMaps = false) : s'.Settled := by
  unfold Sockets.create at h
  split at h
  · cases h
  · next hfree =>
    cases h
    refine hs.of_connection (c := c) (k := k) rfl hs.cached (fun _ _ _ _ h => h) ?_ ?_ hpending
    · intro m addr hentry
      obtain ⟨k', hk', -⟩ := hs.listed m addr c hentry
      rw [hfree] at hk'
      cases hk'
    · intro m addr hfalse
      rw [hmoving] at hfalse
      cases hfalse

end Invariant

section Lookups

variable [DecidableEq A]

theorem Settled.table_of_reachable {s : Sockets M A C} (hs : s.Settled) {m : M} {addr : A} {c : C}
    (h : s.Reachable m addr c) : (s.maps m).table addr = some c := by
  rw [Reachable, (hs.cached m).findByAddr_eq] at h
  exact h

variable [DecidableEq M]

theorem Settled.findByAddr {s : Sockets M A C} (hs : s.Settled) (m : M) (addr : A) :
    (s.setMap m ((s.maps m).findByAddr addr).2).Settled := by
  have htable : ∀ {m' addr' d},
      ((s.setMap m ((s.maps m).findByAddr addr).2).maps m').table addr' = some d →
        (s.maps m').table addr' = some d := by
    intro m' addr' d hentry
    rcases setMap_table hentry with ⟨rfl, hnew⟩ | ⟨-, hsame⟩
    · rwa [ConnectionAddrMap.findByAddr_table] at hnew
    · exact hsame
  refine ⟨hs.cached_setMap m ((hs.cached m).findByAddr addr), ?_, ?_, hs.pending⟩
  · intro m' addr' d hentry
    exact hs.listed m' addr' d (htable hentry)
  · intro d k m' addr' hk hmoving
    refine (hs.failed d k m' addr' hk hmoving).imp_right fun hun m₁ addr₁ hentry => ?_
    exact hun m₁ addr₁ (htable hentry)

end Lookups

variable [DecidableEq M] [DecidableEq A] [DecidableEq C]

theorem Settled.insertIncoming {s : Sockets M A C} (hs : s.Settled) {c : C} {k : Conn M A}
    {place : M × A} (hk : s.connections c = some k) (hplace : k.inserting = some place) :
    (s.insertIncoming c k place).Settled := by
  obtain ⟨hbelief, hstill, hkept⟩ := hs.pending c k place.1 place.2 hk hplace
  refine hs.of_connection rfl
    (hs.cached_setMap place.1 ((hs.cached place.1).insert place.2 c)) ?_ ?_ ?_ ?_
  · intro m addr d hd hentry
    rcases setMap_insert hentry with hold | ⟨-, -, -, hdc⟩
    · exact hold
    · exact absurd hdc hd
  · intro m addr hentry
    rcases setMap_insert hentry with hold | ⟨rfl, rfl, -, -⟩
    · -- The connection was listed nowhere: only the new entry is its own.
      have hnone := (hs.listed_at hk hold).2.1
      rw [hplace] at hnone
      cases hnone
    · exact ⟨hkept, rfl, .inl hbelief⟩
  · intro m addr hfalse
    rw [hstill] at hfalse
    cases hfalse
  · intro m addr hnone
    cases hnone

theorem Settled.setPeerAddress {s : Sockets M A C} (hs : s.Settled) {c : C} {k : Conn M A}
    (hk : s.connections c = some k) (hstill : k.moving = none) (hinserting : k.inserting = none)
    (hkept : k.removedFromMaps = false) (addr : Option A) :
    (s.setPeerAddress c k addr).Settled := by
  refine hs.of_connection rfl (hs.cached_setMap k.addressMap
    ((hs.cached k.addressMap).changeAddress k.peerUDPAddress addr c)) ?_ ?_ ?_ ?_
  · intro m addr' d hd hentry
    rcases setMap_changeAddress hentry with ⟨hold, -⟩ | ⟨-, -, hdc⟩
    · exact hold
    · exact absurd hdc hd
  · intro m addr' hentry
    refine ⟨hkept, hinserting, .inl ?_⟩
    rcases setMap_changeAddress hentry with ⟨hold, hother⟩ | ⟨rfl, hnew, -⟩
    · -- The place the connection had is the one that ChangeAddress removes.
      obtain ⟨hmap, hpeer⟩ := hs.believes hk hstill hold
      exact absurd ⟨hmap.symm, hpeer, rfl⟩ hother
    · exact ⟨rfl, hnew⟩
  · intro m addr' hfalse
    rw [hstill] at hfalse
    cases hfalse
  · intro m addr' hfalse
    rw [hinserting] at hfalse
    cases hfalse

theorem Settled.startMove {s : Sockets M A C} (hs : s.Settled) {c : C} {k : Conn M A}
    (hk : s.connections c = some k) (hstill : k.moving = none) {m : M} {addr : A}
    (hinserting : k.inserting = none) (hkept : k.removedFromMaps = false)
    (hplace : (s.maps m).table addr = none ∨ k.Believes m addr ∨
      ∀ old, k.peerUDPAddress = some old → (s.maps k.addressMap).table old ≠ some c) :
    (s.startMove c k m addr).Settled := by
  have hsnd := ConnectionAddrMap.insert_snd (s.maps m) addr c
  refine hs.of_connection rfl (hs.cached_setMap m ((hs.cached m).insert addr c)) ?_ ?_ ?_ ?_
  · intro m' addr' d hd hentry
    rcases setMap_insert hentry with hold | ⟨-, -, -, hdc⟩
    · exact hold
    · exact absurd hdc hd
  · intro m' addr' hentry
    refine ⟨hkept, hinserting, ?_⟩
    rcases setMap_insert hentry with hold | ⟨rfl, rfl, hfree, -⟩
    · exact .inl (hs.believes hk hstill hold)
    · right
      simp only [hsnd.mpr hfree]
  · intro m' addr' hmoving
    obtain ⟨rfl, rfl, hfail⟩ : m = m' ∧ addr = addr' ∧ ((s.maps m).insert addr c).2 = false := by
      simpa using hmoving
    have htaken : (s.maps m).table addr ≠ none := by
      intro hfree
      rw [hsnd.mpr hfree] at hfail
      cases hfail
    rcases hplace with hfree | hbelief | hunlisted
    · exact absurd hfree htaken
    · exact .inl hbelief
    · right
      intro m' addr' hentry
      rcases setMap_insert hentry with hold | ⟨-, -, hfree, -⟩
      · obtain ⟨rfl, hpeer⟩ := hs.believes hk hstill hold
        exact hunlisted _ hpeer hold
      · exact htaken hfree
  · intro m' addr' hfalse
    rw [hinserting] at hfalse
    cases hfalse

theorem Settled.finishMove {s : Sockets M A C} (hs : s.Settled) {c : C} {k : Conn M A}
    {place : M × A × Bool} (hk : s.connections c = some k) (hplace : k.moving = some place) :
    (s.finishMove c k place).Settled := by
  obtain ⟨m, addr, success⟩ := place
  have hpending : ∀ m' addr', k.inserting ≠ some (m', addr') := by
    intro m' addr' hinserting
    have hstill := (hs.pending c k m' addr' hk hinserting).2.1
    rw [hplace] at hstill
    cases hstill
  cases success with
  | true =>
    refine hs.of_connection rfl (hs.cached_setMap k.addressMap
      ((hs.cached k.addressMap).removeAddress k.peerUDPAddress c)) ?_ ?_ ?_ ?_
    · intro m' addr' d _ hentry
      exact (setMap_removeAddress hentry).1
    · intro m' addr' hentry
      obtain ⟨hold, hother⟩ := setMap_removeAddress hentry
      obtain ⟨hkept, hinserting, hwhere⟩ := hs.listed_at hk hold
      refine ⟨hkept, hinserting, .inl ?_⟩
      rcases hwhere with ⟨hmap, hpeer⟩ | hmoving
      · exact absurd ⟨hmap.symm, hpeer, rfl⟩ hother
      · rw [hplace] at hmoving
        cases hmoving
        exact ⟨rfl, rfl⟩
    · intro m' addr' hfalse
      cases hfalse
    · intro m' addr' hinserting
      exact absurd hinserting (hpending m' addr')
  | false =>
    refine hs.of_connection rfl hs.cached (fun _ _ _ _ hentry => hentry) ?_ ?_ ?_
    · intro m' addr' hentry
      obtain ⟨hkept, hinserting, hwhere⟩ := hs.listed_at hk hentry
      refine ⟨hkept, hinserting, .inl ?_⟩
      rcases hs.failed c k m addr hk hplace with ⟨rfl, hpeer⟩ | hunlisted
      · rcases hwhere with ⟨rfl, hpeer'⟩ | hmoving
        · rw [hpeer] at hpeer'
          exact ⟨rfl, hpeer'⟩
        · rw [hplace] at hmoving
          cases hmoving
      · exact absurd hentry (hunlisted m' addr')
    · intro m' addr' hfalse
      cases hfalse
    · intro m' addr' hinserting
      exact absurd hinserting (hpending m' addr')

theorem Settled.removeFromMaps {s : Sockets M A C} (hs : s.Settled) {c : C} {k : Conn M A}
    (hk : s.connections c = some k) (hstill : k.moving = none) (hinserting : k.inserting = none) :
    (s.removeFromMaps c k).Settled := by
  unfold Sockets.removeFromMaps
  split
  · exact hs
  · refine hs.of_connection rfl (hs.cached_setMap k.addressMap
      ((hs.cached k.addressMap).removeAddress k.peerUDPAddress c)) ?_ ?_ ?_ ?_
    · intro m addr d _ hentry
      exact (setMap_removeAddress hentry).1
    · intro m addr hentry
      obtain ⟨hold, hother⟩ := setMap_removeAddress hentry
      obtain ⟨hmap, hpeer⟩ := hs.believes hk hstill hold
      exact absurd ⟨hmap.symm, hpeer, rfl⟩ hother
    · intro m addr hfalse
      rw [hstill] at hfalse
      cases hfalse
    · intro m addr hfalse
      rw [hinserting] at hfalse
      cases hfalse

theorem Settled.step {s s' : Sockets M A C} {e : Event M A C} (hs : s.Settled)
    (horderly : s.Orderly e) (h : s.step e = some s') : s'.Settled := by
  cases e with
  | accept c m addr =>
    refine hs.create h rfl ?_
    intro m' addr' hplace
    cases hplace
    exact ⟨⟨rfl, rfl⟩, rfl, rfl⟩
  | connect c m =>
    refine hs.create h rfl ?_
    intro m' addr' hplace
    cases hplace
  | insertIncoming c =>
    simp only [Sockets.step] at h
    split at h
    · cases h
    · next k hk =>
      obtain ⟨place, hplace, rfl⟩ := Option.map_eq_some_iff.mp h
      exact hs.insertIncoming hk hplace
  | setPeerAddress c addr =>
    obtain ⟨k, hk, hstill, rfl⟩ := onStrand_eq_some h
    obtain ⟨hinserting, hkept⟩ := horderly k hk
    exact hs.setPeerAddress hk hstill hinserting hkept addr
  | startMove c m addr =>
    obtain ⟨k, hk, hstill, rfl⟩ := onStrand_eq_some h
    obtain ⟨hinserting, hkept, hplace⟩ := horderly k hk
    exact hs.startMove hk hstill hinserting hkept hplace
  | finishMove c =>
    simp only [Sockets.step] at h
    split at h
    · cases h
    · next k hk =>
      obtain ⟨place, hplace, rfl⟩ := Option.map_eq_some_iff.mp h
      exact hs.finishMove hk hplace
  | removeFromMaps c =>
    obtain ⟨k, hk, hstill, rfl⟩ := onStrand_eq_some h
    exact hs.removeFromMaps hk hstill (horderly k hk)
  | findByAddr m addr =>
    cases h
    exact hs.findByAddr m addr

def OrderlyRun (s : Sockets M A C) (es : List (Event M A C)) (s' : Sockets M A C) : Prop :=
  Run (Restrict Orderly fun s e s' => s.step e = some s') s es s'

theorem OrderlyRun.settled {s : Sockets M A C} {es : List (Event M A C)}
    (h : OrderlyRun init es s) : s.Settled :=
  h.invariant settled_init fun _ _ _ hs hstep => hs.step hstep.1 hstep.2

/-- Along orderly steps, a connection that has run removeFromMaps is in no map, and one that is
reached at two places is in setPeerAddressAndSource: it is at its new place already, and not yet
removed from its old one. -/
theorem removed_from_maps_and_reached_once {s : Sockets M A C} {es : List (Event M A C)}
    (h : OrderlyRun init es s) (c : C) (k : Conn M A) (hk : s.connections c = some k) :
    (k.removedFromMaps = true → ∀ m addr, ¬ (s.maps m).Holds addr c) ∧
      ∀ m addr m' addr', s.Reachable m addr c → s.Reachable m' addr' c →
        m = m' ∧ addr = addr' ∨
          k.moving = some (m, addr, true) ∧ k.Believes m' addr' ∨
          k.moving = some (m', addr', true) ∧ k.Believes m addr := by
  have hs := h.settled
  constructor
  · intro hremoved m addr hheld
    have hkept := (hs.listed_at hk (hs.table_of_holds hheld)).1
    rw [hremoved] at hkept
    cases hkept
  · intro m addr m' addr' hreach hreach'
    have hplace := (hs.listed_at hk (hs.table_of_reachable hreach)).2.2
    have hplace' := (hs.listed_at hk (hs.table_of_reachable hreach')).2.2
    rcases hplace with ⟨rfl, hpeer⟩ | hmoving <;> rcases hplace' with ⟨rfl, hpeer'⟩ | hmoving'
    · rw [hpeer] at hpeer'
      exact .inl ⟨rfl, Option.some.inj hpeer'⟩
    · exact .inr (.inr ⟨hmoving', rfl, hpeer⟩)
    · exact .inr (.inl ⟨hmoving, rfl, hpeer'⟩)
    · rw [hmoving] at hmoving'
      cases hmoving'
      exact .inl ⟨rfl, rfl⟩

/-- An incoming connection that moves to another socket and is then removed. -/
theorem removed_from_maps_after_move :
    ∃ s : Sockets Nat Nat Nat,
      OrderlyRun init [.accept 0 1 10, .insertIncoming 0, .findByAddr 1 10, .startMove 0 2 20,
        .finishMove 0, .removeFromMaps 0] s ∧
      ∀ m addr, ¬ (s.maps m).Holds addr 0 := by
  have hrun : ∃ (s : Sockets Nat Nat Nat) (k : Conn Nat Nat),
      OrderlyRun init [.accept 0 1 10, .insertIncoming 0, .findByAddr 1 10, .startMove 0 2 20,
        .finishMove 0, .removeFromMaps 0] s ∧
      s.connections 0 = some k ∧ k.removedFromMaps = true := by
    refine ⟨_, _, .cons ⟨trivial, rfl⟩ (.cons ⟨trivial, rfl⟩ (.cons ⟨trivial, rfl⟩ (.cons ⟨?_, rfl⟩
      (.cons ⟨trivial, rfl⟩ (.cons ⟨?_, rfl⟩ (.nil _)))))), rfl, rfl⟩
    · intro k hk
      cases hk
      exact ⟨rfl, rfl, .inl rfl⟩
    · intro k hk
      cases hk
      rfl
  obtain ⟨s, k, hrun, hk, hremoved⟩ := hrun
  exact ⟨s, hrun, (removed_from_maps_and_reached_once hrun 0 k hk).1 hremoved⟩

/-- Between the two map operations of setPeerAddressAndSource a connection is reached at both places;
and where its InsertAddress fails, removeFromMaps asks the wrong map. -/
theorem reached_twice_and_left_behind :
    (∃ s : Sockets Nat Nat Nat,
      Run (fun s e s' => s.step e = some s') init [.accept 0 1 10, .insertIncoming 0,
        .startMove 0 2 20] s ∧ s.Reachable 1 10 0 ∧ s.Reachable 2 20 0) ∧
    ∃ (s : Sockets Nat Nat Nat) (k : Conn Nat Nat),
      Run (fun s e s' => s.step e = some s') init [.connect 0 0, .accept 1 2 20, .insertIncoming 1,
        .startMove 0 1 10, .finishMove 0, .startMove 0 2 20, .finishMove 0, .removeFromMaps 0] s ∧
      s.connections 0 = some k ∧ k.removedFromMaps = true ∧ k.inserting = none ∧ k.moving = none ∧
      (s.maps 1).Holds 10 0 := by
  constructor
  · exact ⟨_, .cons rfl (.cons rfl (.cons rfl (.nil _))), rfl, rfl⟩
  · exact ⟨_, _, .cons rfl (.cons rfl (.cons rfl (.cons rfl (.cons rfl (.cons rfl (.cons rfl
      (.cons rfl (.nil _)))))))), rfl, rfl, rfl, rfl, .inl rfl⟩

end Sockets

end Tonk.Socket
