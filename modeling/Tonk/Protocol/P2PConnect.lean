import Tonk.Lib.LittleEndian
import Tonk.Protocol.Frame

set_option autoImplicit false

namespace Tonk.Protocol
open LittleEndian

/-- A buffer and the bytes stored from its start on. Nothing stops a write behind its end. -/
structure WriteByteStream where
  bufferBytes : Nat
  written : Bytes
  deriving DecidableEq, Repr

namespace WriteByteStream

def remaining (stream : WriteByteStream) : Nat := stream.bufferBytes - stream.written.length

def writeBuffer (stream : WriteByteStream) (source : Bytes) : WriteByteStream :=
  { stream with written := stream.written ++ source }

def write8 (stream : WriteByteStream) (v : UInt8) : WriteByteStream := stream.writeBuffer [v]

def write16 (stream : WriteByteStream) (v : UInt16) : WriteByteStream :=
  stream.writeBuffer (bytes 2 v.toNat)

def write64 (stream : WriteByteStream) (v : UInt64) : WriteByteStream :=
  stream.writeBuffer (bytes 8 v.toNat)

end WriteByteStream

structure Overrun where
  wanted : Nat
  remaining : Nat
  deriving DecidableEq, Repr

structure ReadByteStream where
  rest : Bytes
  deriving DecidableEq, Repr

namespace ReadByteStream

def remaining (stream : ReadByteStream) : Nat := stream.rest.length

def read (stream : ReadByteStream) (n : Nat) : Except Overrun (Bytes × ReadByteStream) :=
  if n ≤ stream.remaining then .ok (stream.rest.take n, ⟨stream.rest.drop n⟩)
  else .error ⟨n, stream.remaining⟩

def readInt (stream : ReadByteStream) (n : Nat) : Except Overrun (Nat × ReadByteStream) := do
  let (field, stream) ← stream.read n
  return (value field, stream)

def read8 (stream : ReadByteStream) : Except Overrun (UInt8 × ReadByteStream) := do
  let (v, stream) ← stream.readInt 1
  return (.ofNat v, stream)

def read16 (stream : ReadByteStream) : Except Overrun (UInt16 × ReadByteStream) := do
  let (v, stream) ← stream.readInt 2
  return (.ofNat v, stream)

def read64 (stream : ReadByteStream) : Except Overrun (UInt64 × ReadByteStream) := do
  let (v, stream) ← stream.readInt 8
  return (.ofNat v, stream)

end ReadByteStream

inductive IpAddress where
  | v4 (addrData : Fin 4 → UInt8)
  | v6 (addrData : Fin 16 → UInt8)
  deriving DecidableEq

def IpAddress.isV6 : IpAddress → Bool
  | .v4 _ => false
  | .v6 _ => true

def IpAddress.toBytes : IpAddress → Bytes
  | .v4 addrData => List.ofFn addrData
  | .v6 addrData => List.ofFn addrData

structure UDPAddress where
  address : IpAddress
  port : UInt16
  deriving DecidableEq

structure P2PConnectParams where
  winTies : Bool
  encryptionKey : UInt64
  protocolRoundIntervalMsec : UInt16
  shotTS16 : UInt16
  /-- In local time; not on the wire. -/
  shotTimeUsec : Nat
  selfExternalPort : UInt16
  peerNATMappedPort : UInt16
  peerExternalAddress : UDPAddress
  deriving DecidableEq

namespace P2PConnectParams

def kMinBytes : Nat := 1 + 8 + 2 + 2 + 2 + 2 + 4
def kMaxBytes : Nat := 1 + 8 + 2 + 2 + 2 + 2 + 16

def kWinTiesBit : UInt8 := 1
def kAddressV6Bit : UInt8 := 2
def kHasPeerNATBit : UInt8 := 4

def flags (p : P2PConnectParams) : UInt8 :=
  let flags := if p.winTies then kWinTiesBit else 0
  let flags := if p.peerExternalAddress.address.isV6 then flags ||| kAddressV6Bit else flags
  if p.peerNATMappedPort ≠ 0 then flags ||| kHasPeerNATBit else flags

def write (p : P2PConnectParams) (stream : WriteByteStream) : Bool × WriteByteStream :=
  if stream.remaining < kMaxBytes then (false, stream)
  else
    let stream := stream.write8 p.flags
    let stream := stream.write64 p.encryptionKey
    let stream := stream.write16 p.protocolRoundIntervalMsec
    let stream := stream.write16 p.shotTS16
    let stream := stream.write16 p.selfExternalPort
    let stream := if p.peerNATMappedPort ≠ 0 then stream.write16 p.peerNATMappedPort else stream
    let stream := stream.write16 p.peerExternalAddress.port
    (true, stream.writeBuffer p.peerExternalAddress.address.toBytes)

def readPeerNATMappedPort (flags : UInt8) (stream : ReadByteStream) :
    Except Overrun (UInt16 × ReadByteStream) :=
  if 0 ≠ flags &&& kHasPeerNATBit then stream.read16 else .ok (0, stream)

def readPeerExternalAddress (p : P2PConnectParams) (flags : UInt8) (port : UInt16)
    (stream : ReadByteStream) : Except Overrun (Bool × P2PConnectParams) :=
  if 0 ≠ flags &&& kAddressV6Bit then
    if stream.remaining < kMaxBytes then .ok (false, p)
    else do
      let (addr, _) ← stream.read 16
      return (true, { p with peerExternalAddress := ⟨.v6 fun i => addr.getD i 0, port⟩ })
  else do
    let (addr, _) ← stream.read 4
    return (true, { p with peerExternalAddress := ⟨.v4 fun i => addr.getD i 0, port⟩ })

def read (p : P2PConnectParams) (stream : ReadByteStream) :
    Except Overrun (Bool × P2PConnectParams) :=
  if stream.remaining < kMinBytes then .ok (false, p)
  else do
    let (flags, stream) ← stream.read8
    let (encryptionKey, stream) ← stream.read64
    let (protocolRoundIntervalMsec, stream) ← stream.read16
    let (shotTS16, stream) ← stream.read16
    let (selfExternalPort, stream) ← stream.read16
    let (peerNATMappedPort, stream) ← readPeerNATMappedPort flags stream
    let (port, stream) ← stream.read16
    let p := { p with
      winTies := flags &&& kWinTiesBit ≠ 0
      encryptionKey := encryptionKey
      protocolRoundIntervalMsec := protocolRoundIntervalMsec
      shotTS16 := shotTS16
      selfExternalPort := selfExternalPort
      peerNATMappedPort := peerNATMappedPort }
    p.readPeerExternalAddress flags port stream

def wire (p : P2PConnectParams) : Bytes :=
  [p.flags] ++ (bytes 8 p.encryptionKey.toNat ++ (bytes 2 p.protocolRoundIntervalMsec.toNat ++
    (bytes 2 p.shotTS16.toNat ++ (bytes 2 p.selfExternalPort.toNat ++
      ((if p.peerNATMappedPort ≠ 0 then bytes 2 p.peerNATMappedPort.toNat else []) ++
        (bytes 2 p.peerExternalAddress.port.toNat ++ p.peerExternalAddress.address.toBytes))))))

theorem write_eq (p : P2PConnectParams) {stream : WriteByteStream}
    (h : kMaxBytes ≤ stream.remaining) : p.write stream = (true, stream.writeBuffer p.wire) := by
  rw [write, if_neg (Nat.not_lt.mpr h)]
  by_cases hnat : p.peerNATMappedPort ≠ 0 <;>
    simp [WriteByteStream.write8, WriteByteStream.write16, WriteByteStream.write64,
      WriteByteStream.writeBuffer, wire, hnat]

theorem wire_length (p : P2PConnectParams) : p.wire.length =
    17 + (if p.peerNATMappedPort ≠ 0 then 2 else 0) +
      (if p.peerExternalAddress.address.isV6 then 16 else 4) := by
  unfold wire
  rcases p.peerExternalAddress with ⟨_ | _, _⟩ <;>
    by_cases hnat : p.peerNATMappedPort ≠ 0 <;> simp [hnat, IpAddress.toBytes, IpAddress.isV6]

end P2PConnectParams

section Reads

theorem ReadByteStream.read_of_le {rest : Bytes} {n : Nat} (h : n ≤ rest.length) :
    ReadByteStream.read ⟨rest⟩ n = .ok (rest.take n, ⟨rest.drop n⟩) := if_pos h

theorem ReadByteStream.read_of_lt {rest : Bytes} {n : Nat} (h : rest.length < n) :
    ReadByteStream.read ⟨rest⟩ n = .error ⟨n, rest.length⟩ := if_neg (Nat.not_le.mpr h)

theorem ReadByteStream.readInt_of_le {rest : Bytes} {n : Nat} (h : n ≤ rest.length) :
    ReadByteStream.readInt ⟨rest⟩ n = .ok (value (rest.take n), ⟨rest.drop n⟩) := by
  rw [readInt, read_of_le h]
  rfl

theorem ReadByteStream.readInt_bytes (n v : Nat) (post : Bytes) :
    ReadByteStream.readInt ⟨bytes n v ++ post⟩ n = .ok (v % 256 ^ n, ⟨post⟩) := by
  rw [readInt_of_le (by simp), ← value_bytes, List.take_left' (length_bytes n v),
    List.drop_left' (length_bytes n v)]

theorem ReadByteStream.read8_cons (v : UInt8) (post : Bytes) :
    ReadByteStream.read8 ⟨v :: post⟩ = .ok (v, ⟨post⟩) := by
  rw [read8, readInt_of_le (by simp)]
  simp [value, bind, Except.bind, pure, Except.pure]

theorem ReadByteStream.read16_of_le {rest : Bytes} (h : 2 ≤ rest.length) :
    ReadByteStream.read16 ⟨rest⟩ = .ok (.ofNat (value (rest.take 2)), ⟨rest.drop 2⟩) := by
  rw [read16, readInt_of_le h]
  rfl

theorem ReadByteStream.read64_of_le {rest : Bytes} (h : 8 ≤ rest.length) :
    ReadByteStream.read64 ⟨rest⟩ = .ok (.ofNat (value (rest.take 8)), ⟨rest.drop 8⟩) := by
  rw [read64, readInt_of_le h]
  rfl

theorem ReadByteStream.read16_bytes (v : UInt16) (post : Bytes) :
    ReadByteStream.read16 ⟨bytes 2 v.toNat ++ post⟩ = .ok (v, ⟨post⟩) := by
  rw [read16, readInt_bytes, Nat.mod_eq_of_lt (show v.toNat < 256 ^ 2 from v.toNat_lt)]
  simp [bind, Except.bind, pure, Except.pure]

theorem ReadByteStream.read64_bytes (v : UInt64) (post : Bytes) :
    ReadByteStream.read64 ⟨bytes 8 v.toNat ++ post⟩ = .ok (v, ⟨post⟩) := by
  rw [read64, readInt_bytes, Nat.mod_eq_of_lt (show v.toNat < 256 ^ 8 from v.toNat_lt)]
  simp [bind, Except.bind, pure, Except.pure]

end Reads

namespace P2PConnectParams

theorem flags_bits (p : P2PConnectParams) :
    (p.flags &&& kWinTiesBit ≠ 0 ↔ p.winTies = true) ∧
      (0 ≠ p.flags &&& kAddressV6Bit ↔ p.peerExternalAddress.address.isV6 = true) ∧
      (0 ≠ p.flags &&& kHasPeerNATBit ↔ p.peerNATMappedPort ≠ 0) := by
  have hbits : ∀ winTies isV6 hasPeerNAT : Bool,
      let flags := if winTies then kWinTiesBit else 0
      let flags := if isV6 then flags ||| kAddressV6Bit else flags
      let flags := if hasPeerNAT then flags ||| kHasPeerNATBit else flags
      (flags &&& kWinTiesBit ≠ 0 ↔ winTies = true) ∧ (0 ≠ flags &&& kAddressV6Bit ↔ isV6 = true) ∧
        (0 ≠ flags &&& kHasPeerNATBit ↔ hasPeerNAT = true) := by decide
  have h := hbits p.winTies p.peerExternalAddress.address.isV6 (decide (p.peerNATMappedPort ≠ 0))
  simp only [decide_eq_true_eq] at h
  exact h

theorem readPeerNATMappedPort_wire (p : P2PConnectParams) (post : Bytes) :
    readPeerNATMappedPort p.flags
        ⟨(if p.peerNATMappedPort ≠ 0 then bytes 2 p.peerNATMappedPort.toNat else []) ++ post⟩ =
      .ok (p.peerNATMappedPort, ⟨post⟩) := by
  unfold readPeerNATMappedPort
  by_cases hnat : p.peerNATMappedPort ≠ 0
  · rw [if_pos (p.flags_bits.2.2.mpr hnat), if_pos hnat, ReadByteStream.read16_bytes]
  · rw [if_neg (mt p.flags_bits.2.2.mp hnat), if_neg hnat, not_not.mp hnat, List.nil_append]

def natBytes (flags : UInt8) : Nat := if 0 ≠ flags &&& kHasPeerNATBit then 2 else 0

theorem readPeerNATMappedPort_of_le (flags : UInt8) {rest : Bytes} (h : 2 ≤ rest.length) :
    ∃ port, readPeerNATMappedPort flags ⟨rest⟩ = .ok (port, ⟨rest.drop (natBytes flags)⟩) := by
  unfold readPeerNATMappedPort natBytes
  split
  · exact ⟨_, ReadByteStream.read16_of_le h⟩
  · exact ⟨0, rfl⟩

theorem getD_ofFn {n : Nat} (f : Fin n → UInt8) : (fun i : Fin n => (List.ofFn f).getD i 0) = f := by
  funext i
  simp

theorem readPeerExternalAddress_v4 (p : P2PConnectParams) (port : UInt16)
    (addrData : Fin 4 → UInt8) {flags : UInt8} (hflags : ¬0 ≠ flags &&& kAddressV6Bit) :
    p.readPeerExternalAddress flags port ⟨List.ofFn addrData⟩ =
      .ok (true, { p with peerExternalAddress := ⟨.v4 addrData, port⟩ }) := by
  rw [readPeerExternalAddress, if_neg hflags, ReadByteStream.read_of_le (by simp),
    List.take_of_length_le (by simp)]
  simp only [bind, Except.bind, getD_ofFn]
  rfl

theorem readPeerExternalAddress_v6 (p : P2PConnectParams) (port : UInt16)
    (addrData : Fin 16 → UInt8) {flags : UInt8} (hflags : 0 ≠ flags &&& kAddressV6Bit) :
    p.readPeerExternalAddress flags port ⟨List.ofFn addrData⟩ = .ok (false, p) := by
  have hshort : (⟨List.ofFn addrData⟩ : ReadByteStream).remaining < kMaxBytes := by
    rw [ReadByteStream.remaining, List.length_ofFn]
    decide
  rw [readPeerExternalAddress, if_pos hflags, if_pos hshort]

theorem read_wire (p self : P2PConnectParams) : self.read ⟨p.wire⟩ =
    .ok (match p.peerExternalAddress.address with
      | .v4 _ => (true, { p with shotTimeUsec := self.shotTimeUsec })
      | .v6 _ => (false, { p with
          shotTimeUsec := self.shotTimeUsec
          peerExternalAddress := self.peerExternalAddress })) := by
  obtain ⟨hties, hv6, -⟩ := p.flags_bits
  have hlength : ¬(⟨p.wire⟩ : ReadByteStream).remaining < kMinBytes := by
    rw [ReadByteStream.remaining, p.wire_length, kMinBytes]
    split <;> split <;> omega
  unfold read
  rw [if_neg hlength]
  simp only [wire, List.singleton_append, ReadByteStream.read8_cons, ReadByteStream.read64_bytes,
    ReadByteStream.read16_bytes, readPeerNATMappedPort_wire, bind, Except.bind, hties,
    Bool.decide_eq_true]
  match haddress : p.peerExternalAddress with
  | ⟨.v4 addrData, port⟩ =>
    rw [haddress] at hv6
    exact readPeerExternalAddress_v4 _ _ _ (mt hv6.mp Bool.false_ne_true)
  | ⟨.v6 addrData, port⟩ =>
    rw [haddress] at hv6
    exact readPeerExternalAddress_v6 _ _ _ (hv6.mpr rfl)

theorem readPeerExternalAddress_isOk (p : P2PConnectParams) (flags : UInt8) (port : UInt16)
    (rest : Bytes) :
    (∃ result, p.readPeerExternalAddress flags port ⟨rest⟩ = .ok result) ↔
      0 ≠ flags &&& kAddressV6Bit ∨ 4 ≤ rest.length := by
  unfold readPeerExternalAddress
  split
  · next hv6 =>
    refine iff_of_true ?_ (.inl hv6)
    split
    · exact ⟨_, rfl⟩
    · next hlength =>
      rw [ReadByteStream.read_of_le]
      · exact ⟨_, rfl⟩
      · simp only [ReadByteStream.remaining, kMaxBytes] at hlength
        omega
  · next hv4 =>
    by_cases hlength : 4 ≤ rest.length
    · rw [ReadByteStream.read_of_le hlength]
      exact iff_of_true ⟨_, rfl⟩ (.inr hlength)
    · rw [ReadByteStream.read_of_lt (Nat.lt_of_not_le hlength)]
      refine iff_of_false (fun ⟨_, h⟩ => nomatch h) ?_
      rintro (h | h)
      · exact hv4 h
      · exact hlength h

theorem read_isOk_iff (p : P2PConnectParams) (data : Bytes) :
    (∃ result, p.read ⟨data⟩ = .ok result) ↔
      ¬(kMinBytes ≤ data.length ∧ data.length < kMinBytes + 2 ∧
        0 ≠ data.headD 0 &&& kHasPeerNATBit ∧ ¬0 ≠ data.headD 0 &&& kAddressV6Bit) := by
  unfold read
  split
  · next hshort =>
    refine iff_of_true ⟨_, rfl⟩ fun hlong => ?_
    exact absurd hshort (Nat.not_lt.mpr hlong.1)
  · next hlong =>
    simp only [ReadByteStream.remaining, kMinBytes] at hlong
    match data, hlong with
    | flags :: rest, hlong =>
      rw [List.length_cons] at hlong
      have h8 : 8 ≤ rest.length := by omega
      have h10 : 2 ≤ (rest.drop 8).length := by rw [List.length_drop]; omega
      have h12 : 2 ≤ (rest.drop 10).length := by rw [List.length_drop]; omega
      have h14 : 2 ≤ (rest.drop 12).length := by rw [List.length_drop]; omega
      have h16 : 2 ≤ (rest.drop 14).length := by rw [List.length_drop]; omega
      obtain ⟨natPort, hnatPort⟩ := readPeerNATMappedPort_of_le flags h16
      have hport : 2 ≤ (rest.drop (14 + natBytes flags)).length := by
        rw [List.length_drop, natBytes]
        split <;> omega
      simp only [ReadByteStream.read8_cons, ReadByteStream.read64_of_le h8,
        ReadByteStream.read16_of_le h10, ReadByteStream.read16_of_le h12,
        ReadByteStream.read16_of_le h14, hnatPort, ReadByteStream.read16_of_le hport, bind,
        Except.bind, List.drop_drop, List.headD_cons, List.length_cons,
        readPeerExternalAddress_isOk, List.length_drop, kMinBytes]
      by_cases hv6 : 0 ≠ flags &&& kAddressV6Bit
      · exact iff_of_true (.inl hv6) fun hbad => hbad.2.2.2 hv6
      · rw [natBytes]
        split
        · next hnat =>
          constructor
          · rintro (hok | hok) hbad
            · exact hv6 hok
            · omega
          · intro hgood
            refine .inr (Nat.le_of_not_lt fun hless => hgood ⟨?_, ?_, hnat, hv6⟩) <;> omega
        · next hnat =>
          refine iff_of_true (.inr ?_) fun hbad => hnat hbad.2.2.1
          omega

/-- What Write and Read are for: what is written fits into kMaxBytes bytes and is read back, but for the
local shot time. `before` are bytes already in the stream. -/
def RoundTrips (p self : P2PConnectParams) (before : Bytes) : Prop :=
  ∃ wire, p.write ⟨before.length + kMaxBytes, before⟩ =
      (true, ⟨before.length + kMaxBytes, before ++ wire⟩) ∧
    wire.length ≤ kMaxBytes ∧
    self.read ⟨wire⟩ = .ok (true, { p with shotTimeUsec := self.shotTimeUsec })

theorem reads_written_iff (p self : P2PConnectParams) (before : Bytes) :
    p.RoundTrips self before ↔ p.peerExternalAddress.address.isV6 = false := by
  have hroom : kMaxBytes ≤ (⟨before.length + kMaxBytes, before⟩ : WriteByteStream).remaining := by
    rw [WriteByteStream.remaining, Nat.add_sub_cancel_left]
  constructor
  · rintro ⟨wire, hwrite, -, hread⟩
    rw [write_eq p hroom] at hwrite
    obtain rfl : p.wire = wire :=
      List.append_cancel_left (congrArg (fun r => r.2.written) hwrite)
    rw [read_wire] at hread
    match haddress : p.peerExternalAddress.address with
    | .v4 _ => rfl
    | .v6 _ =>
      rw [haddress] at hread
      have hflag : (Except.ok false : Except Overrun Bool) = .ok true :=
        congrArg (·.map Prod.fst) hread
      exact absurd hflag (by decide)
  · intro hv4
    refine ⟨p.wire, write_eq p hroom, ?_, ?_⟩
    · rw [wire_length, hv4, kMaxBytes]
      simp only [Bool.false_eq_true, if_false]
      split <;> omega
    · rw [read_wire]
      match haddress : p.peerExternalAddress.address with
      | .v4 _ => rfl
      | .v6 _ =>
        rw [haddress] at hv4
        exact Bool.noConfusion hv4

/-- IPv4 addresses go through, IPv6 addresses never do; and Read stays inside the bytes but for one
kind of them. -/
theorem connectParams_roundTrip (p self : P2PConnectParams) (before data : Bytes) :
    (p.RoundTrips self before ↔ p.peerExternalAddress.address.isV6 = false) ∧
      ((∃ result, self.read ⟨data⟩ = .ok result) ↔
        ¬(kMinBytes ≤ data.length ∧ data.length < kMinBytes + 2 ∧
          0 ≠ data.headD 0 &&& kHasPeerNATBit ∧ ¬0 ≠ data.headD 0 &&& kAddressV6Bit)) :=
  ⟨reads_written_iff p self before, read_isOk_iff self data⟩

/-- The loopback address and a NAT port: Write goes 2 bytes behind the buffer, and Read returns false. -/
def loopbackParams : P2PConnectParams :=
  ⟨true, 1, 200, 0, 0, 5000, 6000, ⟨.v6 fun i => if i = 15 then 1 else 0, 7000⟩⟩

theorem connectParams_v6_lost : ¬∀ (p self : P2PConnectParams) (before data : Bytes),
    p.RoundTrips self before ∧ ∃ result, self.read ⟨data⟩ = .ok result := by
  intro h
  obtain ⟨⟨wire, hwrite, hfits, -⟩, -⟩ := h loopbackParams loopbackParams [] []
  have hlength : (loopbackParams.write ⟨kMaxBytes, []⟩).2.written.length = kMaxBytes + 2 := by decide
  have hwire : (loopbackParams.write ⟨kMaxBytes, []⟩).2.written = wire :=
    congrArg (fun r => r.2.written) hwrite
  rw [hwire] at hlength
  omega

end P2PConnectParams
end Tonk.Protocol
