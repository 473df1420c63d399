import Tonk.Lib.Run
import Tonk.Siamese.Coefficients

/-!
The flood detector of a UDP socket, and the connections whose requests it has allowed. A call of the
detector is atomic.
-/

set_option autoImplicit false

namespace Tonk.Socket
open Transition Siamese

variable {Ip : Type}

structure UDPAddress (Ip : Type) where
  address : Ip
  port : UInt16
  deriving DecidableEq

def UDPAddress.ipaddr (source : UDPAddress Ip) : UDPAddress Ip := ⟨source.address, 0⟩

inductive FloodReaction where
  | allow
  | cookie (cookieOut : UInt64)
  | deny

/-- HashUDPAddress, and t1ha_local over the words of a key. -/
structure FloodHash (Ip : Type) where
  hashUDPAddress : UDPAddress Ip → UInt64
  t1haLocal : List UInt32 → UInt64 → UInt64

/-- The entries of CountMap are under addresses without a port. -/
structure FloodDetector (Ip : Type) where
  maximumConnectionsPerAddress : Nat
  floodConnectionsPerMinute : Nat
  countMap : UDPAddress Ip → Option Nat
  connectionCountA : Nat
  connectionCountB : Nat
  binStartUsec : UInt64
  keys : Bool → List UInt32
  keyGen : PCGRandom
  lastKeyUpdateUsec : UInt64
  lastUpdatedKeyIndex : Bool

namespace FloodDetector

def kBinDurationUsec : UInt64 := 60 * 1000 * 1000
def kKeyRotationIntervalUsec : UInt64 := 5 * 1000 * 1000

def nextKey : Nat → PCGRandom → List UInt32 × PCGRandom
  | 0, keyGen => ([], keyGen)
  | words + 1, keyGen =>
    let (rest, last) := nextKey words keyGen.next.2
    (keyGen.next.1 :: rest, last)

def kKeyWords : Nat := 4

def initialized (maxPerAddr minuteFloodThresh : Nat) (masterKeys : UInt64 × UInt64) :
    FloodDetector Ip :=
  let keyGen := PCGRandom.seed masterKeys.1 masterKeys.2
  let first := nextKey kKeyWords keyGen
  let second := nextKey kKeyWords first.2
  { maximumConnectionsPerAddress := maxPerAddr
    floodConnectionsPerMinute := minuteFloodThresh
    countMap := fun _ => none
    connectionCountA := 0
    connectionCountB := 0
    binStartUsec := 0
    keys := fun index => if index then second.1 else first.1
    keyGen := second.2
    lastKeyUpdateUsec := 0
    lastUpdatedKeyIndex := false }

/-- The connection rate counts this request. -/
def countRequest (f : FloodDetector Ip) (nowUsec : UInt64) : FloodDetector Ip :=
  let f := if 2 * kBinDurationUsec ≤ nowUsec - f.binStartUsec then
      { f with
        binStartUsec := nowUsec - kBinDurationUsec
        connectionCountA := f.connectionCountB
        connectionCountB := 0 }
    else f
  { f with connectionCountB := (f.connectionCountB + 1) % 2 ^ 32 }

def rateNotExceeded (f : FloodDetector Ip) : Bool :=
  f.connectionCountA ≤ f.floodConnectionsPerMinute ∧ f.connectionCountB ≤ f.floodConnectionsPerMinute

def rotateKeys (f : FloodDetector Ip) (nowUsec : UInt64) : FloodDetector Ip :=
  if kKeyRotationIntervalUsec ≤ nowUsec - f.lastKeyUpdateUsec then
    let updated := !f.lastUpdatedKeyIndex
    let next := nextKey kKeyWords f.keyGen
    { f with
      lastKeyUpdateUsec := nowUsec
      lastUpdatedKeyIndex := updated
      keys := Function.update f.keys updated next.1
      keyGen := next.2 }
  else f

def expectedCookie (f : FloodDetector Ip) (hash : FloodHash Ip) (source : UDPAddress Ip)
    (keyIndex : Bool) : UInt64 :=
  hash.t1haLocal (f.keys keyIndex) (hash.hashUDPAddress source)

def full (f : FloodDetector Ip) (source : UDPAddress Ip) : Bool :=
  match f.countMap source.ipaddr with
  | none => false
  | some ipConnectionCount => f.maximumConnectionsPerAddress ≤ ipConnectionCount

variable [DecidableEq Ip]

def increment (f : FloodDetector Ip) (source : UDPAddress Ip) : FloodDetector Ip :=
  { f with
    countMap := Function.update f.countMap source.ipaddr
      (some (match f.countMap source.ipaddr with
        | none => 1
        | some ipConnectionCount => ipConnectionCount + 1)) }

def onConnectionRequest (f : FloodDetector Ip) (hash : FloodHash Ip) (source : UDPAddress Ip)
    (key nowUsec : UInt64) : FloodReaction × FloodDetector Ip :=
  if f.full source then (.deny, f)
  else
    let f := f.countRequest nowUsec
    if f.rateNotExceeded then (.allow, f.increment source)
    else
      let f := f.rotateKeys nowUsec
      let keyIndex := key &&& 1 == 1
      -- The low bit is not compared: it says which key made the cookie.
      if (f.expectedCookie hash source keyIndex ^^^ key) >>> 1 = 0 then (.allow, f.increment source)
      else
        let cookie := f.expectedCookie hash source f.lastUpdatedKeyIndex
        (.cookie (cookie &&& ~~~1 ||| f.lastUpdatedKeyIndex.toUInt64), f)

def onDisconnect (f : FloodDetector Ip) (source : UDPAddress Ip) : FloodDetector Ip :=
  match f.countMap source.ipaddr with
  | none => f
  | some ipConnectionCount =>
    { f with
      countMap := Function.update f.countMap source.ipaddr
        (if ipConnectionCount ≤ 1 then none else some (ipConnectionCount - 1)) }

end FloodDetector

namespace FloodDetector

/-- An address without connections has no entry. -/
def entry (connections : Nat) : Option Nat := if connections = 0 then none else some connections

def Counts (f : FloodDetector Ip) (connections : Ip → Nat) : Prop :=
  ∀ ip, f.countMap ⟨ip, 0⟩ = entry (connections ip)

theorem initialized_counts (maxPerAddr minuteFloodThresh : Nat) (masterKeys : UInt64 × UInt64) :
    (initialized maxPerAddr minuteFloodThresh masterKeys : FloodDetector Ip).Counts fun _ => 0 := by
  intro ip
  rfl

@[simp] theorem countRequest_countMap (f : FloodDetector Ip) (nowUsec : UInt64) :
    (f.countRequest nowUsec).countMap = f.countMap := by
  unfold countRequest
  split <;> rfl

@[simp] theorem rotateKeys_countMap (f : FloodDetector Ip) (nowUsec : UInt64) :
    (f.rotateKeys nowUsec).countMap = f.countMap := by
  unfold rotateKeys
  split <;> rfl

variable [DecidableEq Ip]

/-- What a request does to the counts: it is added where it is allowed, and only there. -/
theorem onConnectionRequest_countMap (f : FloodDetector Ip) (hash : FloodHash Ip)
    (source : UDPAddress Ip) (key nowUsec : UInt64) :
    (f.onConnectionRequest hash source key nowUsec).2.countMap =
      match (f.onConnectionRequest hash source key nowUsec).1 with
      | .allow => (f.increment source).countMap
      | .cookie _ => f.countMap
      | .deny => f.countMap := by
  unfold onConnectionRequest
  split
  · rfl
  · simp only
    split
    · simp [increment]
    · split
      · simp [increment]
      · simp

theorem Counts.increment {f : FloodDetector Ip} {connections : Ip → Nat} (h : f.Counts connections)
    (source : UDPAddress Ip) :
    (f.increment source).Counts
      (Function.update connections source.address (connections source.address + 1)) := by
  intro ip
  by_cases hip : ip = source.address
  · subst hip
    have hentry := h source.address
    by_cases hzero : connections source.address = 0
    · simp [FloodDetector.increment, UDPAddress.ipaddr, hentry, hzero, entry]
    · simp [FloodDetector.increment, UDPAddress.ipaddr, hentry, hzero, entry]
  · have hother : (⟨ip, 0⟩ : UDPAddress Ip) ≠ source.ipaddr := by
      intro heq
      exact hip (congrArg UDPAddress.address heq)
    simp [FloodDetector.increment, Function.update_of_ne hother, Function.update_of_ne hip, h ip]

theorem Counts.onDisconnect {f : FloodDetector Ip} {connections : Ip → Nat}
    (h : f.Counts connections) {source : UDPAddress Ip} (hsome : 0 < connections source.address) :
    (f.onDisconnect source).Counts
      (Function.update connections source.address (connections source.address - 1)) := by
  intro ip
  have hentry : f.countMap source.ipaddr = some (connections source.address) := by
    rw [UDPAddress.ipaddr, h source.address, entry, if_neg (by omega)]
  unfold FloodDetector.onDisconnect
  rw [hentry]
  by_cases hip : ip = source.address
  · subst hip
    by_cases hone : connections source.address ≤ 1
    · have hzero : connections source.address - 1 = 0 := by omega
      simp [UDPAddress.ipaddr, hone, hzero, entry]
    · have hzero : ¬ connections source.address - 1 = 0 := by omega
      simp [UDPAddress.ipaddr, hone, hzero, entry]
  · have hother : (⟨ip, 0⟩ : UDPAddress Ip) ≠ source.ipaddr := by
      intro heq
      exact hip (congrArg UDPAddress.address heq)
    simp [Function.update_of_ne hother, Function.update_of_ne hip, h ip]

end FloodDetector

/-- What a connection and its strand hold. `RefCount` starts with the reference of its owner. -/
structure IncomingConnection (Ip : Type) where
  refCount : Nat
  isShutdown : Bool
  appHoldsReference : Bool
  hasReportedClose : Bool
  /-- ConnectionConfig.OnClose is not null. -/
  onClose : Bool
  disconnectAddrKey : UDPAddress Ip
  /-- The handler that InitializeIncomingConnection has posted has still to run. -/
  completing : Bool
  /-- Ticker has a wait under way. -/
  ticking : Bool
  deriving DecidableEq

namespace IncomingConnection

def new (disconnectAddrKey : UDPAddress Ip) : IncomingConnection Ip :=
  { refCount := 1
    isShutdown := false
    appHoldsReference := true
    hasReportedClose := false
    onClose := false
    disconnectAddrKey := disconnectAddrKey
    completing := false
    ticking := false }

def objectInUse (c : IncomingConnection Ip) : Bool := c.appHoldsReference || c.refCount != 0

def startShutdown (c : IncomingConnection Ip) : IncomingConnection Ip :=
  if c.isShutdown then c else { c with isShutdown := true, refCount := c.refCount - 1 }

/-- `none` is a call of the null pointer OnClose. -/
def reportClose (c : IncomingConnection Ip) : Option (IncomingConnection Ip) :=
  if !c.isShutdown || c.hasReportedClose then some c
  else if c.onClose then some { c with hasReportedClose := true }
  else none

end IncomingConnection

/-- What happens to a connection between its own events: its application or one of the operations
under way touches its reference count. -/
inductive Use where
  | startShutdown
  | appRelease
  | incrementReferences
  | decrementReferences

def IncomingConnection.use (c : IncomingConnection Ip) : Use → IncomingConnection Ip
  | .startShutdown => c.startShutdown
  | .appRelease => { c.startShutdown with appHoldsReference := false }
  | .incrementReferences => { c with refCount := c.refCount + 1 }
  | .decrementReferences => { c with refCount := c.refCount - 1 }

/-- A request for which OnConnectionRequest has returned Allow, and what has become of it. -/
structure AllowedRequest (Ip : Type) where
  source : UDPAddress Ip
  /-- `none` if there was no memory for it, or once it is deleted. -/
  connection : Option (IncomingConnection Ip)
  /-- The client has been sent a rejection. -/
  rejected : Bool
  /-- Connection::Shutdown has been entered, or the timer has failed. -/
  closed : Bool
  /-- The arguments of the calls of OnDisconnect made for it. -/
  disconnects : List (UDPAddress Ip)
  deriving DecidableEq

def AllowedRequest.new (source : UDPAddress Ip) : AllowedRequest Ip :=
  ⟨source, none, false, false, []⟩

/-- The request is over: its client has been turned away or its connection taken down. -/
def AllowedRequest.ended (r : AllowedRequest Ip) : Bool := r.rejected || r.closed

/-- How the creation of the connection ends in onConnectRequest. -/
inductive Creation where
  | connectionOutOfMemory
  | strandOutOfMemory
  | exception
  | posted

/-- How completeIncomingConnection ends. -/
inductive Completion where
  | subsystemsFailed
  /-- An exception before the application is asked. -/
  | earlyException
  /-- OnIncomingConnection denies, with or without an OnClose in the configuration it returns. -/
  | denied (onClose : Bool)
  /-- An exception after the application has accepted. -/
  | lateException
  | accepted (flushed : Bool)

namespace Completion

/-- ConnectionConfig.OnClose is set when the function ends: by the application, or by
MakeCallbacksOptional. -/
def onClose : Completion → Bool
  | subsystemsFailed => false
  | earlyException => false
  | denied onClose => onClose
  | lateException => true
  | accepted _ => true

end Completion

/-- What a step on one request leaves of the detector and of the request. -/
structure Outcome (Ip : Type) where
  floodDetect : FloodDetector Ip
  request : AllowedRequest Ip
  crashed : Bool

/-- The rejection sent to the client at the end of the functions that fail. -/
def Outcome.reject (o : Outcome Ip) : Outcome Ip :=
  if o.crashed then o else { o with request := { o.request with rejected := true } }

namespace AllowedRequest

def keep (r : AllowedRequest Ip) (f : FloodDetector Ip) (c : IncomingConnection Ip) : Outcome Ip :=
  ⟨f, { r with connection := some c }, false⟩

/-- The process is gone with the state at the call. -/
def crash (r : AllowedRequest Ip) (f : FloodDetector Ip) (c : IncomingConnection Ip) : Outcome Ip :=
  ⟨f, { r with connection := some c }, true⟩

variable [DecidableEq Ip]

/-- Connection::Shutdown. -/
def shutdown (r : AllowedRequest Ip) (f : FloodDetector Ip) (c : IncomingConnection Ip) :
    Outcome Ip :=
  let r := { r with closed := true }
  match c.startShutdown.reportClose with
  | none => r.crash f c.startShutdown
  | some c =>
    { r with disconnects := r.disconnects ++ [c.disconnectAddrKey] }.keep
      (f.onDisconnect c.disconnectAddrKey) { c with ticking := false }

/-- onConnectRequest, from the allocation of the connection on. -/
def create (r : AllowedRequest Ip) (f : FloodDetector Ip) : Creation → Outcome Ip
  | .connectionOutOfMemory => (⟨f, r, false⟩ : Outcome Ip).reject
  | .strandOutOfMemory => (r.shutdown f (.new r.source)).reject
  | .exception => (r.shutdown f { IncomingConnection.new r.source with refCount := 2 }).reject
  | .posted => r.keep f { IncomingConnection.new r.source with refCount := 2, completing := true }

/-- The posted handler, around completeIncomingConnection. -/
def completeIncoming (r : AllowedRequest Ip) (f : FloodDetector Ip) (c : IncomingConnection Ip)
    (completion : Completion) (sent : Bool) : Outcome Ip :=
  let c := { c with completing := false, onClose := completion.onClose }
  let released (c : IncomingConnection Ip) := c.use .decrementReferences
  match completion with
  | .accepted flushed =>
    let c := if flushed then c else c.startShutdown
    r.keep f { released c with ticking := true }
  | _ =>
    let o := (r.shutdown f c).reject
    -- Send lets go of the reference later where a rejection is sent.
    if sent || o.crashed then o
    else { o with request := { o.request with connection := o.request.connection.map released } }

/-- onTimerTick as far as it concerns the end of the connection: onDiscoTimerTick. -/
def timerTick (r : AllowedRequest Ip) (f : FloodDetector Ip) (c : IncomingConnection Ip) :
    Outcome Ip :=
  if !c.isShutdown then r.keep f c
  else
    match c.reportClose with
    | none => r.crash f c
    | some c =>
      if c.objectInUse then r.keep f c
      else
        let o := r.shutdown f c
        if o.crashed then o else { o with request := { o.request with connection := none } }

/-- The connection is shut down, and without its timer nothing is to come for it. -/
def timerError (r : AllowedRequest Ip) (f : FloodDetector Ip) (c : IncomingConnection Ip) :
    Outcome Ip :=
  let r := { r with closed := true }
  match c.startShutdown.reportClose with
  | none => r.crash f c.startShutdown
  | some c => r.keep f { c with ticking := false }

end AllowedRequest

/-- A UDP socket as far as incoming connections go. -/
structure Listener (Ip : Type) where
  maximumClients : Nat
  floodDetect : FloodDetector Ip
  /-- The requests allowed so far, oldest first. -/
  requests : List (AllowedRequest Ip)
  /-- The process has called a null pointer. -/
  crashed : Bool

/-- A datagram with a connection request, and what onConnectRequest finds out on the way. -/
structure ConnectRequest (Ip : Type) where
  encryptionKey : UInt64
  addr : UDPAddress Ip
  nowUsec : UInt64
  /-- AddressMap.FindByAddr gives a connection. -/
  known : Bool
  /-- IdMap->GetConnectionCount(). -/
  connectionCount : Nat
  creation : Creation

inductive ListenEvent (Ip : Type) where
  | connectRequest (q : ConnectRequest Ip)
  /-- The handler posted by InitializeIncomingConnection; where it fails, the flag says that there
  was memory for the rejection. -/
  | completeIncoming (i : Nat) (completion : Completion) (sent : Bool)
  | use (i : Nat) (u : Use)
  | timerTick (i : Nat)
  | timerError (i : Nat)

namespace Listener

def init (maximumClients maxPerAddr minuteFloodThresh : Nat) (masterKeys : UInt64 × UInt64) :
    Listener Ip :=
  ⟨maximumClients, .initialized maxPerAddr minuteFloodThresh masterKeys, [], false⟩

def put (s : Listener Ip) (i : Nat) (o : Outcome Ip) : Listener Ip :=
  { s with
    floodDetect := o.floodDetect
    requests := s.requests.set i o.request
    crashed := o.crashed }

variable [DecidableEq Ip]

def onConnectRequest (s : Listener Ip) (hash : FloodHash Ip) (q : ConnectRequest Ip) :
    Listener Ip :=
  if q.known || s.maximumClients ≤ q.connectionCount then s
  else
    match s.floodDetect.onConnectionRequest hash q.addr q.encryptionKey q.nowUsec with
    | (.deny, f) => { s with floodDetect := f }
    | (.cookie _, f) => { s with floodDetect := f }
    | (.allow, f) =>
      let o := (AllowedRequest.new q.addr).create f q.creation
      { s with
        floodDetect := o.floodDetect
        requests := s.requests ++ [o.request]
        crashed := o.crashed }

/-- The connection of an allowed request, where the object exists. -/
def Has (s : Listener Ip) (i : Nat) (r : AllowedRequest Ip) (c : IncomingConnection Ip) : Prop :=
  s.requests[i]? = some r ∧ r.connection = some c

inductive Step (hash : FloodHash Ip) : Listener Ip → ListenEvent Ip → Listener Ip → Prop where
  | connectRequest {s : Listener Ip} {q : ConnectRequest Ip} (up : s.crashed = false) :
      Step hash s (.connectRequest q) (s.onConnectRequest hash q)
  | completeIncoming {s : Listener Ip} {i : Nat} {completion : Completion} {sent : Bool}
      {r : AllowedRequest Ip} {c : IncomingConnection Ip} (up : s.crashed = false)
      (has : s.Has i r c) (pending : c.completing = true) :
      Step hash s (.completeIncoming i completion sent)
        (s.put i (r.completeIncoming s.floodDetect c completion sent))
  | use {s : Listener Ip} {i : Nat} {u : Use} {r : AllowedRequest Ip} {c : IncomingConnection Ip}
      (up : s.crashed = false) (has : s.Has i r c) :
      Step hash s (.use i u) (s.put i (r.keep s.floodDetect (c.use u)))
  | timerTick {s : Listener Ip} {i : Nat} {r : AllowedRequest Ip} {c : IncomingConnection Ip}
      (up : s.crashed = false) (has : s.Has i r c) (pending : c.ticking = true) :
      Step hash s (.timerTick i) (s.put i (r.timerTick s.floodDetect c))
  | timerError {s : Listener Ip} {i : Nat} {r : AllowedRequest Ip} {c : IncomingConnection Ip}
      (up : s.crashed = false) (has : s.Has i r c) (pending : c.ticking = true) :
      Step hash s (.timerError i) (s.put i (r.timerError s.floodDetect c))

/-- The connections of an address whose requests are not over. -/
def openConnections (s : Listener Ip) (ip : Ip) : Nat :=
  s.requests.countP fun r => !r.ended && r.source.address = ip

/-- OnDisconnect has been called once for each allowed request that is over, with its source, and
not for the others, so each count is that of the requests that are not over. -/
def PaidBack (s : Listener Ip) : Prop :=
  (∀ r ∈ s.requests, r.disconnects = if r.ended then [r.source] else []) ∧
    s.floodDetect.Counts s.openConnections

end Listener

/-- There is memory for the connection and its strand, the connection has an OnClose wherever
completeIncomingConnection ends, and no timer fails. -/
def ListenEvent.Provided : ListenEvent Ip → Prop
  | .connectRequest q => q.creation = .posted
  | .completeIncoming _ completion _ => completion.onClose = true
  | .use _ _ => True
  | .timerTick _ => True
  | .timerError _ => False

namespace IncomingConnection

@[simp] theorem startShutdown_isShutdown (c : IncomingConnection Ip) :
    c.startShutdown.isShutdown = true := by
  unfold startShutdown
  split
  · assumption
  · rfl

@[simp] theorem startShutdown_onClose (c : IncomingConnection Ip) :
    c.startShutdown.onClose = c.onClose := by
  unfold startShutdown
  split <;> rfl

@[simp] theorem startShutdown_disconnectAddrKey (c : IncomingConnection Ip) :
    c.startShutdown.disconnectAddrKey = c.disconnectAddrKey := by
  unfold startShutdown
  split <;> rfl

@[simp] theorem startShutdown_completing (c : IncomingConnection Ip) :
    c.startShutdown.completing = c.completing := by
  unfold startShutdown
  split <;> rfl

@[simp] theorem startShutdown_ticking (c : IncomingConnection Ip) :
    c.startShutdown.ticking = c.ticking := by
  unfold startShutdown
  split <;> rfl

theorem reportClose_eq (c : IncomingConnection Ip) (h : c.onClose = true) :
    ∃ reported, c.reportClose = some { c with hasReportedClose := reported } := by
  unfold reportClose
  by_cases hquiet : (!c.isShutdown || c.hasReportedClose) = true
  · exact ⟨c.hasReportedClose, if_pos hquiet⟩
  · exact ⟨true, (if_neg hquiet).trans (if_pos h)⟩

@[simp] theorem use_disconnectAddrKey (c : IncomingConnection Ip) (u : Use) :
    (c.use u).disconnectAddrKey = c.disconnectAddrKey := by
  cases u <;> simp [use]

@[simp] theorem use_completing (c : IncomingConnection Ip) (u : Use) :
    (c.use u).completing = c.completing := by
  cases u <;> simp [use]

@[simp] theorem use_ticking (c : IncomingConnection Ip) (u : Use) :
    (c.use u).ticking = c.ticking := by
  cases u <;> simp [use]

@[simp] theorem use_onClose (c : IncomingConnection Ip) (u : Use) :
    (c.use u).onClose = c.onClose := by
  cases u <;> simp [use]

end IncomingConnection

namespace AllowedRequest

/-- A connection that still has an event of its own to come is not over, and its timer runs once
completeIncomingConnection has returned, with an OnClose. -/
structure Sound (r : AllowedRequest Ip) (c : IncomingConnection Ip) : Prop where
  key : c.disconnectAddrKey = r.source
  pending : c.completing = true ∨ c.ticking = true → r.ended = false
  onClose : c.ticking = true → c.onClose = true
  completed : c.ticking = true → c.completing = false

structure Good (r : AllowedRequest Ip) : Prop where
  paid : r.disconnects = if r.ended then [r.source] else []
  sound : ∀ c, r.connection = some c → r.Sound c

end AllowedRequest

/-- The step keeps the request good, and calls OnDisconnect exactly where the request ends. -/
structure Outcome.Settles [DecidableEq Ip] (o : Outcome Ip) (r : AllowedRequest Ip)
    (f : FloodDetector Ip) : Prop where
  up : o.crashed = false
  source : o.request.source = r.source
  good : o.request.Good
  counts : o.request.ended = r.ended ∧ o.floodDetect = f ∨
    r.ended = false ∧ o.request.ended = true ∧ o.floodDetect = f.onDisconnect r.source

namespace AllowedRequest

variable [DecidableEq Ip] {r : AllowedRequest Ip} {f : FloodDetector Ip} {c : IncomingConnection Ip}

theorem keep_settles (h : r.Good) (hsound : r.Sound c) : (r.keep f c).Settles r f := by
  have hgood : ({ r with connection := some c } : AllowedRequest Ip).Good := by
    refine ⟨h.paid, ?_⟩
    intro d hd
    cases hd
    exact ⟨hsound.key, hsound.pending, hsound.onClose, hsound.completed⟩
  exact ⟨rfl, rfl, hgood, .inl ⟨rfl, rfl⟩⟩

/-- Connection::Shutdown on a request that is not over pays it back. -/
theorem shutdown_settles (h : r.Good) (hopen : r.ended = false) (hkey : c.disconnectAddrKey = r.source)
    (honClose : c.onClose = true) (hdone : c.completing = false) :
    (r.shutdown f c).Settles r f := by
  obtain ⟨reported, hreport⟩ := c.startShutdown.reportClose_eq (by simpa using honClose)
  have hnone : r.disconnects = [] := by rw [h.paid, if_neg (by simp [hopen])]
  unfold shutdown
  simp only [hreport]
  refine ⟨rfl, rfl, ⟨?_, ?_⟩, .inr ⟨hopen, ?_, ?_⟩⟩
  · simp [keep, ended, hnone, hkey]
  · intro d hd
    cases hd
    refine ⟨?_, ?_, ?_, ?_⟩
    · simpa [keep] using hkey
    · simp [hdone]
    · simp
    · simp
  · simp [keep, ended]
  · simp [keep, hkey]

theorem shutdown_ended (f : FloodDetector Ip) (c : IncomingConnection Ip) :
    (r.shutdown f c).request.ended = true := by
  unfold shutdown
  simp only
  split <;> simp [keep, crash, ended]

end AllowedRequest

namespace Outcome

variable [DecidableEq Ip] {o : Outcome Ip} {r : AllowedRequest Ip} {f : FloodDetector Ip}

theorem Settles.reject (h : o.Settles r f) (hended : o.request.ended = true) :
    o.reject.Settles r f := by
  unfold Outcome.reject
  rw [if_neg (by simp [h.up])]
  have hrejected : ({ o.request with rejected := true } : AllowedRequest Ip).ended = true := by
    simp [AllowedRequest.ended]
  refine ⟨h.up, h.source, ⟨?_, ?_⟩, ?_⟩
  · have hpaid := h.good.paid
    rw [if_pos hended] at hpaid
    rw [if_pos hrejected]
    exact hpaid
  · intro c hc
    have hsound := h.good.sound c hc
    refine ⟨hsound.key, fun hpending => ?_, hsound.onClose, hsound.completed⟩
    rw [hsound.pending hpending] at hended
    cases hended
  · rcases h.counts with ⟨hsame, hf⟩ | ⟨hopen, -, hf⟩
    · exact .inl ⟨hrejected.trans (hended.symm.trans hsame), hf⟩
    · exact .inr ⟨hopen, hrejected, hf⟩

/-- A connection that is let go of, or deleted, changes nothing for the counts. -/
theorem Settles.setConnection (h : o.Settles r f) {connection : Option (IncomingConnection Ip)}
    (hsound : ∀ c, connection = some c → o.request.Sound c) :
    ({ o with request := { o.request with connection := connection } } : Outcome Ip).Settles r f := by
  refine ⟨h.up, h.source, ⟨h.good.paid, ?_⟩, h.counts⟩
  intro c hc
  have hc := hsound c hc
  exact ⟨hc.key, hc.pending, hc.onClose, hc.completed⟩

end Outcome

namespace AllowedRequest

variable [DecidableEq Ip] {r : AllowedRequest Ip} {f : FloodDetector Ip} {c : IncomingConnection Ip}

omit [DecidableEq Ip] in
theorem new_good (source : UDPAddress Ip) : (AllowedRequest.new source).Good := by
  refine ⟨rfl, ?_⟩
  intro c hc
  cases hc

omit [DecidableEq Ip] in
theorem Sound.use (h : r.Sound c) (u : Use) : r.Sound (c.use u) := by
  refine ⟨?_, ?_, ?_, ?_⟩
  · simpa using h.key
  · simpa using h.pending
  · simpa using h.onClose
  · simpa using h.completed

theorem create_settles (source : UDPAddress Ip) (f : FloodDetector Ip) :
    ((AllowedRequest.new source).create f .posted).Settles (.new source) f := by
  refine keep_settles (new_good source) ⟨rfl, fun _ => rfl, ?_, ?_⟩
  · intro hticking
    cases hticking
  · intro hticking
    cases hticking

theorem completeIncoming_settles (h : r.Good) (hsound : r.Sound c) (hpending : c.completing = true)
    {completion : Completion} (hprovided : completion.onClose = true) (sent : Bool) :
    (r.completeIncoming f c completion sent).Settles r f := by
  have hopen := hsound.pending (.inl hpending)
  have hfail : ∀ c', c' = { c with completing := false, onClose := completion.onClose } →
      let o := (r.shutdown f c').reject
      (if sent || o.crashed then o
        else { o with request := { o.request with
          connection := o.request.connection.map (·.use .decrementReferences) } }).Settles r f := by
    rintro c' rfl
    have hsettled := (shutdown_settles (f := f)
      (c := { c with completing := false, onClose := completion.onClose })
      h hopen hsound.key hprovided rfl).reject (shutdown_ended f _)
    simp only
    split
    · exact hsettled
    · refine hsettled.setConnection ?_
      intro d hd
      obtain ⟨d', hd', rfl⟩ := Option.map_eq_some_iff.mp hd
      have hsound' := hsettled.good.sound d' hd'
      exact hsound'.use _
  cases completion with
  | accepted flushed =>
    refine keep_settles h ⟨?_, fun _ => hopen, ?_, ?_⟩
    · cases flushed <;> simpa using hsound.key
    · intro _
      cases flushed <;> simp [Completion.onClose]
    · intro _
      cases flushed <;> simp
  | subsystemsFailed => exact hfail _ rfl
  | earlyException => exact hfail _ rfl
  | denied onClose => exact hfail _ rfl
  | lateException => exact hfail _ rfl

theorem use_settles (h : r.Good) (hsound : r.Sound c) (u : Use) :
    (r.keep f (c.use u)).Settles r f := keep_settles h (hsound.use u)

theorem timerTick_settles (h : r.Good) (hsound : r.Sound c) (hpending : c.ticking = true) :
    (r.timerTick f c).Settles r f := by
  obtain ⟨reported, hreport⟩ := c.reportClose_eq (hsound.onClose hpending)
  unfold timerTick
  split
  · exact keep_settles h hsound
  · simp only [hreport]
    have hsound' : r.Sound { c with hasReportedClose := reported } :=
      ⟨hsound.key, hsound.pending, hsound.onClose, hsound.completed⟩
    split
    · exact keep_settles h hsound'
    · have hsettled := shutdown_settles (f := f) h (hsound.pending (.inr hpending)) hsound'.key
        (hsound'.onClose hpending) (hsound'.completed hpending)
      rw [if_neg (by simp [hsettled.up])]
      refine hsettled.setConnection ?_
      intro d hd
      cases hd

end AllowedRequest

namespace Listener

variable [DecidableEq Ip]

theorem put_openConnections {s : Listener Ip} {i : Nat} {r : AllowedRequest Ip} {o : Outcome Ip}
    (hr : s.requests[i]? = some r) (ip : Ip) :
    (s.put i o).openConnections ip = s.openConnections ip
      - (if !r.ended && r.source.address = ip then 1 else 0)
      + (if !o.request.ended && o.request.source.address = ip then 1 else 0) := by
  obtain ⟨hi, hget⟩ := List.getElem?_eq_some_iff.mp hr
  unfold openConnections put
  simp only [List.countP_set hi, hget]

theorem openConnections_pos {s : Listener Ip} {i : Nat} {r : AllowedRequest Ip}
    (hr : s.requests[i]? = some r) (hopen : r.ended = false) :
    0 < s.openConnections r.source.address := by
  refine List.countP_pos_iff.mpr ⟨r, List.mem_of_getElem? hr, ?_⟩
  simp [hopen]

/-- What every step keeps where nothing fails. -/
structure Inv (s : Listener Ip) : Prop where
  good : ∀ r ∈ s.requests, r.Good
  counts : s.floodDetect.Counts s.openConnections

theorem Inv.put {s : Listener Ip} (h : s.Inv) {i : Nat} {r : AllowedRequest Ip} {o : Outcome Ip}
    (hr : s.requests[i]? = some r) (ho : o.Settles r s.floodDetect) : (s.put i o).Inv := by
  refine ⟨?_, ?_⟩
  · intro r' hr'
    rcases List.mem_or_eq_of_mem_set hr' with hold | rfl
    · exact h.good r' hold
    · exact ho.good
  · rcases ho.counts with ⟨hsame, hf⟩ | ⟨hopen, hended, hf⟩
    · have hcounts : (s.put i o).openConnections = s.openConnections := by
        funext ip
        rw [put_openConnections hr, hsame, ho.source]
        split
        · next hip =>
          have hpos := openConnections_pos hr (by simpa using (Bool.and_eq_true_iff.mp hip).1)
          have hsource : r.source.address = ip := by simpa using (Bool.and_eq_true_iff.mp hip).2
          rw [hsource] at hpos
          omega
        · omega
      rw [hcounts]
      unfold Listener.put
      rw [hf]
      exact h.counts
    · have hcounts : (s.put i o).openConnections = Function.update s.openConnections
          r.source.address (s.openConnections r.source.address - 1) := by
        funext ip
        rw [put_openConnections hr, hopen, hended]
        by_cases hip : ip = r.source.address
        · subst hip
          simp
        · simp [Function.update_of_ne hip, Ne.symm hip]
      rw [hcounts]
      unfold Listener.put
      rw [hf]
      exact h.counts.onDisconnect (openConnections_pos hr hopen)

theorem onConnectRequest_inv {s : Listener Ip} (h : s.Inv) (hash : FloodHash Ip)
    {q : ConnectRequest Ip} (hposted : q.creation = .posted) :
    (s.onConnectRequest hash q).Inv := by
  unfold onConnectRequest
  split
  · exact h
  · have hmap := s.floodDetect.onConnectionRequest_countMap hash q.addr q.encryptionKey q.nowUsec
    generalize s.floodDetect.onConnectionRequest hash q.addr q.encryptionKey q.nowUsec = reaction
      at hmap ⊢
    obtain ⟨reaction, f⟩ := reaction
    cases reaction with
    | deny =>
      refine ⟨h.good, ?_⟩
      intro ip
      simp only at hmap
      simpa [hmap, openConnections] using h.counts ip
    | cookie cookieOut =>
      refine ⟨h.good, ?_⟩
      intro ip
      simp only at hmap
      simpa [hmap, openConnections] using h.counts ip
    | allow =>
      rw [hposted]
      have hsettled := AllowedRequest.create_settles q.addr f
      refine ⟨?_, ?_⟩
      · intro r hr
        rcases List.mem_append.mp hr with hold | hnew
        · exact h.good r hold
        · rw [List.mem_singleton.mp hnew]
          exact hsettled.good
      · intro ip
        have hcounted := h.counts.increment q.addr ip
        simp only at hmap ⊢
        rw [← hmap] at hcounted
        rw [show ((AllowedRequest.new q.addr).create f .posted).floodDetect = f from rfl, hcounted]
        congr 1
        by_cases hip : ip = q.addr.address
        · subst hip
          simp [openConnections, AllowedRequest.create, AllowedRequest.keep, AllowedRequest.new,
            AllowedRequest.ended]
        · simp [openConnections, AllowedRequest.create, AllowedRequest.keep, AllowedRequest.new,
            AllowedRequest.ended, Function.update_of_ne hip, Ne.symm hip]

theorem Inv.step {hash : FloodHash Ip} {s s' : Listener Ip} {e : ListenEvent Ip} (h : s.Inv)
    (hprovided : e.Provided) (hstep : Step hash s e s') : s'.Inv := by
  cases hstep with
  | connectRequest up => exact onConnectRequest_inv h hash hprovided
  | completeIncoming up has pending =>
    have hgood := h.good _ (List.mem_of_getElem? has.1)
    exact h.put has.1
      (AllowedRequest.completeIncoming_settles hgood (hgood.sound _ has.2) pending hprovided _)
  | use up has =>
    have hgood := h.good _ (List.mem_of_getElem? has.1)
    exact h.put has.1 (AllowedRequest.use_settles hgood (hgood.sound _ has.2) _)
  | timerTick up has pending =>
    have hgood := h.good _ (List.mem_of_getElem? has.1)
    exact h.put has.1 (AllowedRequest.timerTick_settles hgood (hgood.sound _ has.2) pending)
  | timerError up has pending => exact hprovided.elim

theorem init_inv (maximumClients maxPerAddr minuteFloodThresh : Nat)
    (masterKeys : UInt64 × UInt64) :
    (init maximumClients maxPerAddr minuteFloodThresh masterKeys : Listener Ip).Inv := by
  refine ⟨?_, FloodDetector.initialized_counts _ _ _⟩
  intro r hr
  cases hr

/-- Every allowed request is paid back exactly once where memory does not run out, no connection is
taken down before it has an OnClose, and no timer fails. -/
theorem allowed_requests_paid_back (hash : FloodHash Ip)
    (maximumClients maxPerAddr minuteFloodThresh : Nat) (masterKeys : UInt64 × UInt64)
    {es : List (ListenEvent Ip)} {s : Listener Ip}
    (h : Run (Restrict (fun _ e => e.Provided) (Step hash))
      (init maximumClients maxPerAddr minuteFloodThresh masterKeys) es s) : s.PaidBack := by
  have hinv : s.Inv := by
    refine h.invariant (init_inv ..) ?_
    rintro t e u ht ⟨hprovided, hstep⟩
    exact ht.step hprovided hstep
  exact ⟨fun r hr => (hinv.good r hr).paid, hinv.counts⟩

def request (creation : Creation) : ConnectRequest UInt32 :=
  { encryptionKey := 7
    addr := ⟨0x0A000001, 5000⟩
    nowUsec := 1000000000
    known := false
    connectionCount := 0
    creation := creation }

def zeroHash : FloodHash UInt32 := ⟨fun _ => 0, fun _ _ => 0⟩

def server : Listener UInt32 := init 10 2 20 (1, 2)

/-- A connection that is accepted, closed by its application and taken down by its timer. -/
theorem closed_connection_paid_back :
    ∃ es s, Run (Restrict (fun _ e => e.Provided) (Step zeroHash)) server es s ∧
      s.PaidBack ∧ s.requests.map (·.disconnects) = [[⟨0x0A000001, 5000⟩]] := by
  have hconnect : Run (Restrict (fun _ e => e.Provided) (Step zeroHash)) server _ _ :=
    Run.snoc (a := ListenEvent.connectRequest (request .posted)) (.nil server) ⟨rfl, .connectRequest rfl⟩
  have hcomplete := Run.snoc (a := ListenEvent.completeIncoming 0 (.accepted true) false) hconnect
    ⟨rfl, .completeIncoming rfl ⟨rfl, rfl⟩ rfl⟩
  have hrelease := Run.snoc (a := ListenEvent.use 0 .appRelease) hcomplete ⟨trivial, .use rfl ⟨rfl, rfl⟩⟩
  have htick := Run.snoc (a := ListenEvent.timerTick 0) hrelease ⟨trivial, .timerTick rfl ⟨rfl, rfl⟩ rfl⟩
  exact ⟨_, _, htick, allowed_requests_paid_back zeroHash 10 2 20 (1, 2) htick, rfl⟩

/-- A request that is turned away for want of memory is never paid back, nor is one whose connection
is shut down by a failing timer, and where initSubsystems fails the process calls a null pointer on
the way to OnDisconnect. -/
theorem request_not_paid_back :
    (∃ s, Run (Step zeroHash) server [.connectRequest (request .connectionOutOfMemory)] s ∧
      s.crashed = false ∧ ¬ s.PaidBack) ∧
    (∃ s, Run (Step zeroHash) server [.connectRequest (request .posted),
      .completeIncoming 0 (.accepted true) false, .timerError 0] s ∧
      s.crashed = false ∧ ¬ s.PaidBack) ∧
    ∃ s, Run (Step zeroHash) server [.connectRequest (request .posted),
      .completeIncoming 0 .subsystemsFailed false] s ∧ s.crashed = true ∧ ¬ s.PaidBack := by
  refine ⟨?_, ?_, ?_⟩
  · have hconnect : Run (Step zeroHash) server _ _ :=
      Run.snoc (a := ListenEvent.connectRequest (request .connectionOutOfMemory)) (.nil server)
        (.connectRequest rfl)
    refine ⟨_, hconnect, rfl, fun hpaid => ?_⟩
    have hnone := hpaid.1 _ (List.mem_of_getElem? (i := 0) rfl)
    cases hnone
  · have hconnect : Run (Step zeroHash) server _ _ :=
      Run.snoc (a := ListenEvent.connectRequest (request .posted)) (.nil server) (.connectRequest rfl)
    have hcomplete := Run.snoc (a := ListenEvent.completeIncoming 0 (.accepted true) false) hconnect
      (.completeIncoming rfl ⟨rfl, rfl⟩ rfl)
    have herror := Run.snoc (a := ListenEvent.timerError 0) hcomplete
      (.timerError rfl ⟨rfl, rfl⟩ rfl)
    refine ⟨_, herror, rfl, fun hpaid => ?_⟩
    have hnone := hpaid.1 _ (List.mem_of_getElem? (i := 0) rfl)
    cases hnone
  · have hconnect : Run (Step zeroHash) server _ _ :=
      Run.snoc (a := ListenEvent.connectRequest (request .posted)) (.nil server) (.connectRequest rfl)
    have hcomplete := Run.snoc (a := ListenEvent.completeIncoming 0 .subsystemsFailed false) hconnect
      (.completeIncoming rfl ⟨rfl, rfl⟩ rfl)
    refine ⟨_, hcomplete, rfl, fun hpaid => ?_⟩
    have hnone := hpaid.1 _ (List.mem_of_getElem? (i := 0) rfl)
    cases hnone

end Listener

end Tonk.Socket
