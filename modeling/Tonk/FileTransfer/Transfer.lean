import Tonk.Lib.LittleEndian
import Tonk.Protocol.Frame

/-!
`tonk_file_transfer.cpp`: a file is cut into messages on a reliable channel, and put together again.
-/

set_option autoImplicit false

namespace Tonk.FileTransfer
open Protocol LittleEndian

def kMaxNameBytes : Nat := 63000
def kMaxViewBytes : Nat := 4 * 1000 * 1000
def kBytesChunk : Nat := 64000
def kMinWriteBytes : Nat := 16
def kCancelBytes : Nat := 4
def kCancelMagic : Nat := 0x18181818
def kOutputFileThresholdBytes : Nat := 1000 * 1000

structure MappedView where
  offset : Nat
  length : Nat
  deriving DecidableEq, Repr

def MappedView.mapView (granularity fileLength offset length : Nat) : MappedView :=
  let length := if length = 0 then fileLength else length
  let masked := offset % granularity
  ⟨offset - masked, length + masked⟩

inductive ProtocolState where
  | headerAndName
  | fileData
  deriving DecidableEq, Repr

/-- The file that the application sends: from disk, or from a buffer. -/
structure OutgoingFile where
  name : Bytes
  content : Bytes
  fromDisk : Bool
  lowPriChannel : Bool
  content_lt : content.length < 2 ^ 64
  buffer_lt : fromDisk = false → content.length < 2 ^ 32

/-- The fields of TonkFileTransfer that sending uses. -/
structure SendTransfer where
  progressBytes : Nat
  view : MappedView
  viewOffset : Nat
  state : ProtocolState
  done : Bool
  deriving DecidableEq, Repr

inductive MessageKind where
  | header
  | data
  | cancel
  deriving DecidableEq, Repr

structure Message where
  kind : MessageKind
  bytes : Bytes
  deriving DecidableEq, Repr

def cancelMessage : Message := ⟨.cancel, bytes kCancelBytes kCancelMagic⟩

structure TonkStatus where
  connected : Bool
  appBPS : Nat
  reliableQueueMsec : Nat
  lowPriQueueMsec : Nat
  timerIntervalUsec : Nat

structure SendEnv where
  status : TonkStatus
  sendOk : Nat → Bool
  mapOk : Nat → Bool

structure Sending where
  transfer : SendTransfer
  deficitBytes : Nat
  messages : List Message
  sends : Nat
  maps : Nat
  cancelled : Bool
  returned : Bool

section Send

variable (granularity : Nat) (file : OutgoingFile) (env : SendEnv)

def startTransfer : SendTransfer :=
  let total := file.content.length
  ⟨0, if file.fromDisk then .mapView granularity total 0 (min total kMaxViewBytes) else ⟨0, total⟩,
    0, .headerAndName, false⟩

def deficitBytes : Nat :=
  if !env.status.connected then 0
  else
    let queueMsec := if file.lowPriChannel then env.status.lowPriQueueMsec
      else env.status.reliableQueueMsec
    let queueUsec := queueMsec * 1000 % 2 ^ 32
    let targetUsec := env.status.timerIntervalUsec
    if targetUsec ≤ queueUsec then 0
    else
      let deficitUsec := targetUsec - queueUsec
      let deficitBytes := env.status.appBPS * deficitUsec / 1000000 % 2 ^ 32
      if deficitBytes < kMinWriteBytes then 0 else deficitBytes

def lenBits (totalBytes : Nat) : Nat :=
  if 0 < totalBytes then
    if 0xFFFFFFFF < totalBytes then 1 + 32 + (totalBytes >>> 32).log2 else 1 + totalBytes.log2
  else 1

def lenBytes (totalBytes : Nat) : Nat := (lenBits totalBytes + 7) / 8

def nameLen : Nat := min file.name.length kMaxNameBytes

def nameLenBytes : Nat :=
  if 0 < nameLen file then if 0xffff < nameLen file then 2 else 1 else 0

def header : Bytes :=
  let total := file.content.length
  let flags := 0xc0 ||| (lenBytes total - 1) <<< 1 ||| nameLenBytes file <<< 4
  UInt8.ofNat flags :: (bytes (lenBytes total) total ++
    (bytes (nameLenBytes file) (nameLen file) ++ file.name.take (nameLen file)))

def headerDataBytes (viewBytes deficitBytes : Nat) : Nat :=
  let sendBytes := min deficitBytes kBytesChunk
  let minSendBytes := 1 + lenBytes file.content.length + nameLenBytes file + nameLen file
  if sendBytes ≤ minSendBytes then 0
  else min (min (sendBytes - minSendBytes) viewBytes) file.content.length

def writeSendHeader (s : Sending) : Sending :=
  let t := s.transfer
  let minSendBytes := 1 + lenBytes file.content.length + nameLenBytes file + nameLen file
  let dataBytes := headerDataBytes file t.view.length s.deficitBytes
  let done := t.done || (minSendBytes < min s.deficitBytes kBytesChunk &&
    file.content.length ≤ dataBytes)
  if env.sendOk s.sends then
    let data := (file.content.drop t.view.offset).take dataBytes
    let sendBytes := minSendBytes + dataBytes
    { s with
      transfer := { t with
        state := .fileData
        progressBytes := dataBytes
        viewOffset := dataBytes
        done := done }
      messages := s.messages ++ [⟨.header, header file ++ data⟩]
      sends := s.sends + 1
      deficitBytes := if s.deficitBytes ≤ sendBytes + kMinWriteBytes then 0
        else s.deficitBytes - sendBytes }
  else { s with transfer := { t with done := true }, sends := s.sends + 1 }

def sendView (s : Sending) : Sending :=
  let t := s.transfer
  let viewRemainingBytes := t.view.length - t.viewOffset
  let sendBytes := min (min s.deficitBytes kBytesChunk) viewRemainingBytes
  if env.sendOk s.sends then
    let data := (file.content.drop (t.view.offset + t.viewOffset)).take sendBytes
    { s with
      transfer := { t with
        progressBytes := t.progressBytes + sendBytes
        viewOffset := t.viewOffset + sendBytes }
      messages := s.messages ++ [⟨.data, data⟩]
      sends := s.sends + 1
      deficitBytes := s.deficitBytes - sendBytes }
  else { s with
    transfer := { t with progressBytes := 0, done := true }
    sends := s.sends + 1
    returned := true }

/-- WriteCancel; whether the message could be sent does not matter to it. -/
def writeCancel (s : Sending) : Sending :=
  { s with
    messages := if env.sendOk s.sends then s.messages ++ [cancelMessage] else s.messages
    sends := s.sends + 1
    cancelled := true }

def nextView (s : Sending) : Sending :=
  let t := s.transfer
  let total := file.content.length
  if total ≤ t.progressBytes then { s with transfer := { t with done := true }, returned := true }
  else if env.mapOk s.maps then
    let mapBytes := min (total - t.progressBytes) kMaxViewBytes
    let view := MappedView.mapView granularity total t.progressBytes mapBytes
    { s with
      transfer := { t with view := view, viewOffset := t.progressBytes - view.offset }
      maps := s.maps + 1 }
  else
    writeCancel env { s with
      transfer := { t with progressBytes := 0, done := true }
      maps := s.maps + 1
      returned := true }

def sendTurn (s : Sending) : Sending :=
  let s := if 0 < s.transfer.view.length - s.transfer.viewOffset then sendView file env s else s
  if s.returned then s
  else if s.transfer.view.length - s.transfer.viewOffset ≤ 0 then nextView granularity file env s
  else s

def sendLoop : Nat → Sending → Sending
  | 0, s => s
  | fuel + 1, s =>
    if s.returned || s.deficitBytes = 0 then s else sendLoop fuel (sendTurn granularity file env s)

/-- A turn sends at least a byte or maps the next view, and no two turns in a row only map. -/
def tonkFileSend (t : SendTransfer) : Sending :=
  let deficit := if t.done then 0 else deficitBytes file env
  let s : Sending := ⟨t, deficit, [], 0, 0, false, false⟩
  let s := if 0 < deficit ∧ t.state = .headerAndName then writeSendHeader file env s else s
  sendLoop granularity file env (2 * deficit + 1) s

end Send

/-- The fields of TonkFileTransfer that receiving uses. -/
structure IncomingFile where
  name : Bytes
  totalBytes : Nat
  progressBytes : Nat
  /-- Of the file on disk, or all of OutputData. -/
  view : MappedView
  viewOffset : Nat
  output : Nat → UInt8
  done : Bool
  failed : Bool

structure ReceiveEnv where
  opens : Nat → Bool
  resizes : Nat → Bool
  maps : Nat → Bool

def everythingWorks : ReceiveEnv := ⟨fun _ => true, fun _ => true, fun _ => true⟩

inductive ReceiveEvent where
  /-- Freed for a cancel message. -/
  | cancelled
  /-- Freed since it had failed. -/
  | dropped
  /-- The callback. -/
  | done (file : IncomingFile)

def ReceiveEvent.isDone : ReceiveEvent → Bool
  | .done _ => true
  | _ => false

def ReceiveEvent.isCancelled : ReceiveEvent → Bool
  | .cancelled => true
  | _ => false

def isCancel (data : Bytes) : Bool :=
  kCancelBytes ≤ data.length && value (data.take kCancelBytes) = kCancelMagic

def copyOutput (output : Nat → UInt8) (position : Nat) (data : Bytes) : Nat → UInt8 :=
  fun i => if position ≤ i ∧ i < position + data.length then data.getD (i - position) 0 else output i

section Receive

variable (granularity : Nat)

/-- The start of a file and the bytes of its header; nothing if they are not a header. -/
def startReceive (opens : Bool) (data : Bytes) : Option (IncomingFile × Nat) :=
  if data.length < 3 then none
  else
    let flags := (data.headD 0).toNat
    if 0xc0 ≠ flags &&& 0xc1 then none
    else
      let lenBytes := (flags >>> 1 &&& 7) + 1
      let nameLenBytes := flags >>> 4 &&& 3
      let headerBytes := 1 + lenBytes + nameLenBytes
      if data.length < headerBytes then none
      else
        let totalBytes := value ((data.drop 1).take lenBytes)
        let readPtr := data.drop (1 + lenBytes)
        let nameLen := value (readPtr.take (min nameLenBytes 2))
        if data.length < headerBytes + nameLen then none
        else
          let name := (readPtr.drop nameLenBytes).take nameLen
          let view := if !opens then ⟨0, 0⟩
            else if kOutputFileThresholdBytes ≤ totalBytes then
              MappedView.mapView granularity totalBytes 0 (min totalBytes kMaxViewBytes)
            else ⟨0, totalBytes⟩
          some (⟨name, totalBytes, 0, view, 0, fun _ => 0, false, !opens⟩, headerBytes + nameLen)

def receiveData (resizes maps : Bool) (t : IncomingFile) (data : Bytes) : IncomingFile × Nat :=
  let copyBytes := min data.length (t.view.length - t.viewOffset)
  let output := if t.failed then t.output
    else copyOutput t.output (t.view.offset + t.viewOffset) (data.take copyBytes)
  -- All the bytes of the message count, also those behind the end of the view.
  let t := { t with
    output := output
    progressBytes := t.progressBytes + data.length
    viewOffset := t.viewOffset + data.length }
  if t.totalBytes ≤ t.progressBytes then ({ t with done := true }, copyBytes)
  else if t.view.length ≤ t.viewOffset then
    let mapBytes := min (t.totalBytes - t.progressBytes) kMaxViewBytes
    let view := if maps then
      .mapView granularity (t.progressBytes + mapBytes) t.progressBytes mapBytes else ⟨0, 0⟩
    let failed := t.failed || !resizes || !maps
    let viewOffset := t.progressBytes - view.offset
    ({ t with view := view, viewOffset := viewOffset, failed := failed }, copyBytes)
  else (t, copyBytes)

def processReceiveFileData (env : ReceiveEnv) (turn : Nat) (file : Option IncomingFile)
    (data : Bytes) : Option IncomingFile × Nat × List ReceiveEvent :=
  match file with
  | some t =>
    if isCancel data then (none, kCancelBytes, [.cancelled])
    else if t.failed then
      match startReceive granularity (env.opens turn) data with
      | none => (none, data.length, [.dropped])
      | some (t, nonDataBytes) =>
        let (t, copyBytes) := receiveData granularity (env.resizes turn) (env.maps turn) t
          (data.drop nonDataBytes)
        (some t, nonDataBytes + copyBytes, [.dropped])
    else
      let (t, copyBytes) := receiveData granularity (env.resizes turn) (env.maps turn) t data
      (some t, copyBytes, [])
  | none =>
    match startReceive granularity (env.opens turn) data with
    | none => (none, data.length, [])
    | some (t, nonDataBytes) =>
      let (t, copyBytes) := receiveData granularity (env.resizes turn) (env.maps turn) t
        (data.drop nonDataBytes)
      (some t, nonDataBytes + copyBytes, [])

def receiveLoop (env : ReceiveEnv) : Nat → Nat → Option IncomingFile → Bytes →
    Option IncomingFile × List ReceiveEvent
  | 0, _, file, _ => (file, [])
  | fuel + 1, turn, file, data =>
    let (file, written, events) := processReceiveFileData granularity env turn file data
    let (file, events) := match file with
      | some t => if t.done then (none, events ++ [.done t]) else (some t, events)
      | none => (none, events)
    if data.length ≤ written then (file, events)
    else
      let (file, more) := receiveLoop env fuel (turn + 1) file (data.drop written)
      (file, events ++ more)

def tonkFileReceive (env : ReceiveEnv) (file : Option IncomingFile) (data : Bytes) :
    Option IncomingFile × List ReceiveEvent :=
  receiveLoop granularity env data.length 0 file data

end Receive

section Header

theorem lenBits_spec {totalBytes : Nat} (h : totalBytes < 2 ^ 64) :
    1 ≤ lenBits totalBytes ∧ lenBits totalBytes ≤ 64 ∧ totalBytes < 2 ^ lenBits totalBytes := by
  unfold lenBits
  split
  · split
    · next hlarge =>
      have hdiv : totalBytes / 2 ^ 32 < 2 ^ ((totalBytes / 2 ^ 32).log2 + 1) := Nat.lt_log2_self
      have hlog : (totalBytes / 2 ^ 32).log2 < 32 := by
        rw [Nat.log2_lt (by omega)]
        omega
      rw [Nat.shiftRight_eq_div_pow]
      generalize (totalBytes / 2 ^ 32).log2 = bits at hdiv hlog ⊢
      refine ⟨by omega, by omega, ?_⟩
      rw [show 1 + 32 + bits = 32 + (bits + 1) by omega, pow_add]
      omega
    · next hpos hsmall =>
      have hlog : totalBytes.log2 < 32 := by
        rw [Nat.log2_lt (by omega)]
        omega
      refine ⟨by omega, by omega, ?_⟩
      rw [Nat.add_comm]
      exact Nat.lt_log2_self
  · exact ⟨by decide, by decide, by omega⟩

theorem lenBytes_spec {totalBytes : Nat} (h : totalBytes < 2 ^ 64) :
    1 ≤ lenBytes totalBytes ∧ lenBytes totalBytes ≤ 8 ∧ totalBytes < 256 ^ lenBytes totalBytes := by
  obtain ⟨hpos, hle, hlt⟩ := lenBits_spec h
  unfold lenBytes
  refine ⟨by omega, by omega, ?_⟩
  calc totalBytes
    _ < 2 ^ lenBits totalBytes := hlt
    _ ≤ 2 ^ (8 * ((lenBits totalBytes + 7) / 8)) := Nat.pow_le_pow_right (by decide) (by omega)
    _ = 256 ^ ((lenBits totalBytes + 7) / 8) := by
      rw [pow_mul]
      norm_num

theorem flags_fields : ∀ l < 8, ∀ n < 4,
    (UInt8.ofNat (0xc0 ||| l <<< 1 ||| n <<< 4)).toNat &&& 0xc1 = 0xc0 ∧
      (UInt8.ofNat (0xc0 ||| l <<< 1 ||| n <<< 4)).toNat >>> 1 &&& 7 = l ∧
      (UInt8.ofNat (0xc0 ||| l <<< 1 ||| n <<< 4)).toNat >>> 4 &&& 3 = n := by
  decide

theorem header_length (file : OutgoingFile) : (header file).length =
    1 + lenBytes file.content.length + nameLenBytes file + nameLen file := by
  simp only [header, List.length_cons, List.length_append, length_bytes, List.length_take, nameLen]
  omega

def receiveView (granularity totalBytes : Nat) : MappedView :=
  if kOutputFileThresholdBytes ≤ totalBytes then
    .mapView granularity totalBytes 0 (min totalBytes kMaxViewBytes)
  else ⟨0, totalBytes⟩

theorem startReceive_written (granularity : Nat) (opens : Bool) (file : OutgoingFile) (data : Bytes)
    (hname : file.name.length ≤ kMaxNameBytes) (hlength : 3 ≤ (header file ++ data).length) :
    startReceive granularity opens (header file ++ data) =
      some (⟨file.name.take (file.name.length % 256), file.content.length, 0,
        if !opens then ⟨0, 0⟩ else receiveView granularity file.content.length, 0, fun _ => 0, false,
        !opens⟩,
        1 + lenBytes file.content.length + nameLenBytes file + file.name.length % 256) := by
  obtain ⟨hpos, hle, htotal⟩ := lenBytes_spec file.content_lt
  rw [kMaxNameBytes] at hname
  have hlen : nameLen file = file.name.length := by
    rw [nameLen, kMaxNameBytes]
    omega
  have hlenBytes : nameLenBytes file = if 0 < file.name.length then 1 else 0 := by
    unfold nameLenBytes
    rw [hlen, if_neg (show ¬0xffff < file.name.length by omega)]
  have hcount : nameLenBytes file < 4 := by
    rw [hlenBytes]
    split <;> omega
  have hvalue : file.name.length % 256 ^ nameLenBytes file = file.name.length % 256 := by
    rw [hlenBytes]
    split
    · rw [pow_one]
    · omega
  have hmin : min (nameLenBytes file) 2 = nameLenBytes file := by
    rw [hlenBytes]
    split <;> omega
  obtain ⟨hmarker, hfirst, hsecond⟩ :=
    flags_fields (lenBytes file.content.length - 1) (by omega) (nameLenBytes file) hcount
  have hheader := header_length file
  rw [hlen] at hheader
  have hbytes : (header file ++ data).length =
      1 + lenBytes file.content.length + nameLenBytes file + file.name.length + data.length := by
    rw [List.length_append, hheader]
  have hback : lenBytes file.content.length - 1 + 1 = lenBytes file.content.length := by omega
  have hdrop : (header file ++ data).drop (1 + lenBytes file.content.length) =
      bytes (nameLenBytes file) file.name.length ++ (file.name ++ data) := by
    rw [header, hlen, List.take_length]
    simp only [List.cons_append, List.append_assoc]
    rw [Nat.add_comm, List.drop_succ_cons, List.drop_left' (length_bytes _ _)]
  have hfield : value (((header file ++ data).drop 1).take (lenBytes file.content.length)) =
      file.content.length := by
    rw [header]
    simp only [List.cons_append, List.append_assoc, List.drop_succ_cons, List.drop_zero]
    rw [List.take_left' (length_bytes _ _), value_bytes, Nat.mod_eq_of_lt htotal]
  have hflags : (header file ++ data).headD 0 =
      UInt8.ofNat (0xc0 ||| (lenBytes file.content.length - 1) <<< 1 ||| nameLenBytes file <<< 4) :=
    rfl
  have hread : file.name.length % 256 ≤ file.name.length := Nat.mod_le _ _
  unfold startReceive
  rw [if_neg (by omega)]
  simp only [hflags, hmarker, hfirst, hsecond, hback, hdrop, hfield, hmin,
    List.take_left' (length_bytes _ _), List.drop_left' (length_bytes _ _), value_bytes, hvalue,
    List.take_append_of_le_length hread, hbytes, ne_eq, not_true_eq_false, if_false, receiveView]
  rw [if_neg (by omega), if_neg (by omega)]

/-- The receiver reads the header as it was written, if the length of the name fits into the byte it
has and there are at least 3 bytes. -/
theorem startReceive_header (granularity : Nat) (file : OutgoingFile) (data : Bytes)
    (hname : file.name.length < 256) (hlength : 3 ≤ (header file ++ data).length) :
    startReceive granularity true (header file ++ data) =
      some (⟨file.name, file.content.length, 0, receiveView granularity file.content.length, 0,
        fun _ => 0, false, false⟩, (header file).length) := by
  have hmax : file.name.length ≤ kMaxNameBytes := by
    rw [kMaxNameBytes]
    omega
  have hlen : nameLen file = file.name.length := Nat.min_eq_left hmax
  rw [startReceive_written granularity true file data hmax hlength, Nat.mod_eq_of_lt hname,
    List.take_length, header_length, hlen]
  rfl

end Header

end Tonk.FileTransfer
