import Tonk.Session.OutgoingQueue

/-!
The receiving half of the reliable channels: `IncomingReliableChannel` and
`SessionIncoming::deliverMessage`, and the proof that it puts together again what
`SessionOutgoing::QueueReliable` cut, for any interleaving of channels and flushes.
-/

set_option autoImplicit false

namespace Tonk.Session
open Protocol

def tonkChannelUnreliable : Nat := 255
def tonkChannelUnordered : Nat := 200
def tonkChannelReliable0 : Nat := 50
def tonkChannelLowPri0 : Nat := 150

structure IncomingChannels where
  reliableIncoming : Nat → Bytes
  lowPriIncoming : Nat → Bytes
  onData : List (Nat × Bytes)
  onControlChannel : List Bytes

def IncomingChannels.initial : IncomingChannels := ⟨fun _ => [], fun _ => [], [], []⟩

inductive DeliverError where
  | invalidMessageType
  | reliableMessageTooLong
  | frame : FrameError → DeliverError
  deriving DecidableEq, Repr

/-- What happens to one reassembly buffer: its new contents, and the message to deliver. -/
def reassemble (irc : Bytes) (isFinal : Bool) (messageData : Bytes) :
    Except DeliverError (Bytes × Option Bytes) :=
  if isFinal then
    if irc.isEmpty then .ok ([], some messageData)
    else if tonkMaxReliableBytes < (irc ++ messageData).length then .error .reliableMessageTooLong
    else .ok ([], some (irc ++ messageData))
  else if tonkMaxReliableBytes < (irc ++ messageData).length then .error .reliableMessageTooLong
  else .ok (irc ++ messageData, none)

def IncomingChannels.call (s : IncomingChannels) (channel : Nat) (messageData : Option Bytes) :
    IncomingChannels :=
  { s with onData := s.onData ++ messageData.toList.map (channel, ·) }

def deliverMessage (s : IncomingChannels) (f : Frame) : Except DeliverError IncomingChannels :=
  if f.messageType = messageTypeControl then
    .ok { s with onControlChannel := s.onControlChannel ++ [f.messageData] }
  else if f.messageType = messageTypeUnordered then
    .ok (s.call tonkChannelUnordered (some f.messageData))
  else if f.messageType = messageTypeUnreliable then
    .ok (s.call tonkChannelUnreliable (some f.messageData))
  else
    -- an unsigned subtraction: the types below Reliable wrap to invalid channels
    let channel := (f.messageType + 2 ^ 32 - messageTypeReliable) % 2 ^ 32
    if kLowPriEndChannel0 + tonkChannelCount ≤ channel then .error .invalidMessageType
    else if channel < tonkChannelCount * 2 then
      let n := channel % tonkChannelCount
      match reassemble (s.reliableIncoming n) (tonkChannelCount ≤ channel) f.messageData with
      | .error e => .error e
      | .ok (irc, message) =>
        .ok ({ s with reliableIncoming := Function.update s.reliableIncoming n irc }.call
          (tonkChannelReliable0 + n) message)
    else
      let channel := channel - tonkChannelCount * 2
      let n := channel % tonkChannelCount
      match reassemble (s.lowPriIncoming n) (tonkChannelCount ≤ channel) f.messageData with
      | .error e => .error e
      | .ok (irc, message) =>
        .ok ({ s with lowPriIncoming := Function.update s.lowPriIncoming n irc }.call
          (tonkChannelLowPri0 + n) message)

inductive Channel where
  | reliable : Fin 6 → Channel
  | lowPri : Fin 6 → Channel
  deriving DecidableEq, Repr

def Channel.messageType : Channel → Nat
  | .reliable n => messageTypeReliable + n
  | .lowPri n => messageTypeLowPri + n

def Channel.tonkChannel : Channel → Nat
  | .reliable n => tonkChannelReliable0 + n
  | .lowPri n => tonkChannelLowPri0 + n

def Channel.Carries (ch : Channel) (f : Frame) : Prop :=
  f.messageType = ch.messageType ∨ f.messageType = ch.messageType + tonkChannelCount

instance (ch : Channel) (f : Frame) : Decidable (ch.Carries f) :=
  inferInstanceAs (Decidable (_ ∨ _))

def IncomingChannels.buffer (s : IncomingChannels) : Channel → Bytes
  | .reliable n => s.reliableIncoming n
  | .lowPri n => s.lowPriIncoming n

def IncomingChannels.received (s : IncomingChannels) (ch : Channel) : List Bytes :=
  (s.onData.filter (·.1 = ch.tonkChannel)).map (·.2)

theorem Channel.messageType_lt (ch : Channel) : ch.messageType + tonkChannelCount < 32 := by
  cases ch with
  | reliable n | lowPri n => have := n.isLt; simp [messageType, messageTypeReliable,
      messageTypeLowPri, kLowPriStartChannel0, tonkChannelCount]; omega

theorem Channel.carries_unique {c d : Channel} {f : Frame} (hc : c.Carries f) (hd : d.Carries f) :
    c = d := by
  cases c with
  | reliable m =>
    cases d with
    | reliable n =>
      congr 1
      ext
      simp only [Carries, messageType, tonkChannelCount] at hc hd
      omega
    | lowPri n =>
      simp only [Carries, messageType, messageTypeReliable, messageTypeLowPri,
        kLowPriStartChannel0, tonkChannelCount] at hc hd
      omega
  | lowPri m =>
    cases d with
    | reliable n =>
      simp only [Carries, messageType, messageTypeReliable, messageTypeLowPri,
        kLowPriStartChannel0, tonkChannelCount] at hc hd
      omega
    | lowPri n =>
      congr 1
      ext
      simp only [Carries, messageType, tonkChannelCount] at hc hd
      omega

theorem Channel.tonkChannel_inj {c d : Channel} (h : c.tonkChannel = d.tonkChannel) : c = d := by
  cases c <;> cases d <;> simp [tonkChannel, tonkChannelReliable0, tonkChannelLowPri0] at h ⊢ <;>
    omega

/-- What a frame of channel `ch` leaves behind: the new buffer, and the callback if there is one. -/
def IncomingChannels.update (s : IncomingChannels) (irc : Bytes) (message : Option Bytes) :
    Channel → IncomingChannels
  | .reliable n =>
    { s with reliableIncoming := Function.update s.reliableIncoming n irc }.call
      (tonkChannelReliable0 + n) message
  | .lowPri n =>
    { s with lowPriIncoming := Function.update s.lowPriIncoming n irc }.call
      (tonkChannelLowPri0 + n) message

@[simp] theorem IncomingChannels.update_buffer_self (s : IncomingChannels) (irc : Bytes)
    (message : Option Bytes) (ch : Channel) : (s.update irc message ch).buffer ch = irc := by
  cases ch <;> simp [update, buffer, call]

theorem IncomingChannels.update_buffer_of_ne (s : IncomingChannels) (irc : Bytes)
    (message : Option Bytes) {ch d : Channel} (h : d ≠ ch) :
    (s.update irc message ch).buffer d = s.buffer d := by
  cases ch with
  | reliable n =>
    cases d with
    | reliable m =>
      have hm : (m : Nat) ≠ n := fun e => h (by rw [Fin.ext e])
      simp [update, buffer, call, hm]
    | lowPri m => rfl
  | lowPri n =>
    cases d with
    | reliable m => rfl
    | lowPri m =>
      have hm : (m : Nat) ≠ n := fun e => h (by rw [Fin.ext e])
      simp [update, buffer, call, hm]

theorem IncomingChannels.update_received (s : IncomingChannels) (irc : Bytes)
    (message : Option Bytes) (ch d : Channel) :
    (s.update irc message ch).received d =
      s.received d ++ if d = ch then message.toList else [] := by
  have hdata : (s.update irc message ch).onData =
      s.onData ++ message.toList.map (ch.tonkChannel, ·) := by
    cases ch <;> rfl
  unfold received
  rw [hdata]
  cases message with
  | none => simp
  | some m =>
    by_cases hd : d = ch
    · simp [hd]
    · have : ch.tonkChannel ≠ d.tonkChannel := fun e => hd (Channel.tonkChannel_inj e.symm)
      simp [hd, this]

theorem deliverMessage_carried {ch : Channel} {f : Frame} (hf : ch.Carries f)
    (s : IncomingChannels) :
    deliverMessage s f =
      (reassemble (s.buffer ch) (f.messageType = ch.messageType + tonkChannelCount)
        f.messageData).map fun r => s.update r.1 r.2 ch := by
  cases ch with
  | reliable n =>
    have hn := n.isLt
    simp only [Channel.Carries, Channel.messageType, messageTypeReliable, tonkChannelCount] at hf
    have hchannel : (f.messageType + 2 ^ 32 - 6) % 2 ^ 32 = f.messageType - 6 := by omega
    have hmod : (f.messageType - 6) % 6 = n := by omega
    have hfin : decide (6 ≤ f.messageType - 6) = decide (f.messageType = 6 + n + 6) :=
      decide_eq_decide.mpr (by omega)
    show _ = (reassemble (s.reliableIncoming n) (decide (f.messageType = 6 + n + 6))
      f.messageData).map _
    simp only [deliverMessage, messageTypeControl, messageTypeUnordered, messageTypeUnreliable,
      messageTypeReliable, kControlChannel, kUnorderedChannel, kLowPriEndChannel0,
      tonkChannelCount, hchannel, hmod, hfin]
    rw [if_neg (by omega), if_neg (by omega), if_neg (by omega), if_neg (by omega),
      if_pos (by omega)]
    cases reassemble (s.reliableIncoming n) (decide (f.messageType = 6 + n + 6)) f.messageData <;>
      rfl
  | lowPri n =>
    have hn := n.isLt
    simp only [Channel.Carries, Channel.messageType, messageTypeLowPri, messageTypeReliable,
      kLowPriStartChannel0, tonkChannelCount] at hf
    have hchannel : (f.messageType + 2 ^ 32 - 6) % 2 ^ 32 = f.messageType - 6 := by omega
    have hmod : (f.messageType - 6 - 12) % 6 = n := by omega
    have hfin : decide (6 ≤ f.messageType - 6 - 12) = decide (f.messageType = 6 + 12 + n + 6) :=
      decide_eq_decide.mpr (by omega)
    show _ = (reassemble (s.lowPriIncoming n) (decide (f.messageType = 6 + 12 + n + 6))
      f.messageData).map _
    simp only [deliverMessage, messageTypeControl, messageTypeUnordered, messageTypeUnreliable,
      messageTypeReliable, kControlChannel, kUnorderedChannel, kLowPriEndChannel0,
      tonkChannelCount, hchannel, Nat.reduceMul, hmod, hfin]
    rw [if_neg (by omega), if_neg (by omega), if_neg (by omega), if_neg (by omega),
      if_neg (by omega)]
    cases reassemble (s.lowPriIncoming n) (decide (f.messageType = 6 + 12 + n + 6))
      f.messageData <;> rfl

/-- What a receiver with reassembly buffer `irc` makes of the frames of one channel: it ends with
an empty buffer and delivers the messages. -/
inductive Reassembles (messageType : Nat) : Bytes → List Frame → List Bytes → Prop where
  | done : Reassembles messageType [] [] []
  | part (irc data : Bytes) (fs : List Frame) (ms : List Bytes) :
      (irc ++ data).length ≤ tonkMaxReliableBytes →
      Reassembles messageType (irc ++ data) fs ms →
      Reassembles messageType irc (⟨messageType, data⟩ :: fs) ms
  | final (irc data : Bytes) (fs : List Frame) (ms : List Bytes) :
      (irc ++ data).length ≤ tonkMaxReliableBytes → Reassembles messageType [] fs ms →
      Reassembles messageType irc (⟨messageType + tonkChannelCount, data⟩ :: fs)
        ((irc ++ data) :: ms)

theorem Reassembles.of_split {t : Nat} {data irc : Bytes} {gs : List Frame}
    (h : OutgoingQueue.Split t data gs) (hlen : (irc ++ data).length ≤ tonkMaxReliableBytes) :
    Reassembles t irc gs [irc ++ data] := by
  induction h generalizing irc with
  | final data => exact .final irc data [] [] hlen .done
  | part data rest fs _ ih =>
    have hall : irc ++ (data ++ rest) = irc ++ data ++ rest := by simp
    rw [hall] at hlen ⊢
    refine .part irc data fs _ ?_ (ih hlen)
    simp only [List.length_append] at hlen ⊢
    omega

theorem Reassembles.append {t : Nat} {irc : Bytes} {fs gs : List Frame} {ms ns : List Bytes}
    (h : Reassembles t irc fs ms) (hg : Reassembles t [] gs ns) :
    Reassembles t irc (fs ++ gs) (ms ++ ns) := by
  induction h with
  | done => exact hg
  | part irc data fs ms hlen _ ih => exact .part irc data _ _ hlen ih
  | final irc data fs ms hlen _ ih => exact .final irc data _ _ hlen ih

theorem reassemble_part {irc data : Bytes} (h : (irc ++ data).length ≤ tonkMaxReliableBytes) :
    reassemble irc false data = .ok (irc ++ data, none) := by
  simp only [reassemble, Bool.false_eq_true, if_false, if_neg (Nat.not_lt.mpr h)]

theorem reassemble_final {irc data : Bytes} (h : (irc ++ data).length ≤ tonkMaxReliableBytes) :
    reassemble irc true data = .ok ([], some (irc ++ data)) := by
  cases irc with
  | nil => simp [reassemble]
  | cons b bs => simp only [reassemble, if_true, List.isEmpty_cons, Bool.false_eq_true, if_false,
      if_neg (Nat.not_lt.mpr h)]

theorem filter_other {ch d : Channel} {f : Frame} (hf : ch.Carries f) (hd : d ≠ ch)
    (fs : List Frame) : (f :: fs).filter (d.Carries ·) = fs.filter (d.Carries ·) := by
  have : ¬ d.Carries f := fun hc => hd (Channel.carries_unique hc hf)
  simp [this]

theorem deliverMessage_consumes {s : IncomingChannels} {f : Frame} {fs : List Frame}
    {ms : Channel → List Bytes} {ch : Channel} {irc : Bytes} {message : Option Bytes}
    {ns : List Bytes} (hf : ch.Carries f)
    (h : ∀ d, Reassembles d.messageType (s.buffer d) ((f :: fs).filter (d.Carries ·)) (ms d))
    (hr : reassemble (s.buffer ch) (f.messageType = ch.messageType + tonkChannelCount)
      f.messageData = .ok (irc, message))
    (hns : Reassembles ch.messageType irc (fs.filter (ch.Carries ·)) ns)
    (hms : ms ch = message.toList ++ ns) :
    ∃ (s' : IncomingChannels) (ms' : Channel → List Bytes), deliverMessage s f = .ok s' ∧
      (∀ d, Reassembles d.messageType (s'.buffer d) (fs.filter (d.Carries ·)) (ms' d)) ∧
      ∀ d, s'.received d ++ ms' d = s.received d ++ ms d := by
  refine ⟨s.update irc message ch, Function.update ms ch ns, ?_, ?_, ?_⟩
  · rw [deliverMessage_carried hf, hr]
    rfl
  · intro d
    by_cases hd : d = ch
    · subst hd
      rw [IncomingChannels.update_buffer_self, Function.update_self]
      exact hns
    · rw [s.update_buffer_of_ne irc message hd, Function.update_of_ne hd, ← filter_other hf hd]
      exact h d
  · intro d
    rw [IncomingChannels.update_received]
    by_cases hd : d = ch
    · subst hd
      rw [Function.update_self, if_pos rfl, hms, List.append_assoc]
    · rw [Function.update_of_ne hd, if_neg hd, List.append_nil]

theorem deliverMessage_reassembles {s : IncomingChannels} {f : Frame} {fs : List Frame}
    {ms : Channel → List Bytes} {ch : Channel} (hf : ch.Carries f)
    (h : ∀ d, Reassembles d.messageType (s.buffer d) ((f :: fs).filter (d.Carries ·)) (ms d)) :
    ∃ (s' : IncomingChannels) (ms' : Channel → List Bytes), deliverMessage s f = .ok s' ∧
      (∀ d, Reassembles d.messageType (s'.buffer d) (fs.filter (d.Carries ·)) (ms' d)) ∧
      ∀ d, s'.received d ++ ms' d = s.received d ++ ms d := by
  have hhead := h ch
  rw [List.filter_cons_of_pos (by simpa using hf)] at hhead
  have consumes := @deliverMessage_consumes s f fs ms ch
  generalize fs.filter (ch.Carries ·) = gs at hhead consumes
  generalize s.buffer ch = irc at hhead consumes
  generalize ms ch = msc at hhead consumes
  cases hhead with
  | part _ data _ _ hlen hrest =>
    exact consumes hf h (by simpa [tonkChannelCount] using reassemble_part hlen) hrest
      (by simp)
  | final _ data _ ms' hlen hrest =>
    exact consumes hf h (by simpa using reassemble_final hlen) hrest (by simp)

theorem foldlM_reassembles (fs : List Frame) (hfs : ∀ f ∈ fs, ∃ ch : Channel, ch.Carries f)
    (s : IncomingChannels) (ms : Channel → List Bytes)
    (h : ∀ d, Reassembles d.messageType (s.buffer d) (fs.filter (d.Carries ·)) (ms d)) :
    ∃ s', fs.foldlM deliverMessage s = .ok s' ∧
      ∀ d, s'.buffer d = [] ∧ s'.received d = s.received d ++ ms d := by
  induction fs generalizing s ms with
  | nil =>
    refine ⟨s, rfl, fun d => ?_⟩
    have hd := h d
    generalize s.buffer d = irc at hd
    generalize ms d = m at hd
    cases hd
    simp
  | cons f fs ih =>
    obtain ⟨ch, hf⟩ := hfs f (by simp)
    obtain ⟨s', ms', hs', hms, hrecv⟩ := deliverMessage_reassembles hf h
    obtain ⟨t, ht, hend⟩ := ih (fun g hg => hfs g (by simp [hg])) s' ms' hms
    refine ⟨t, ?_, fun d => ⟨(hend d).1, by rw [(hend d).2, hrecv d]⟩⟩
    rw [List.foldlM_cons, hs']
    exact ht

/-! ## A sender and its flushes -/

inductive QueueError where
  | messageTooLarge
  deriving DecidableEq, Repr

inductive QueueIndex where
  | unreliable
  | unmetered
  | reliable
  | lowPri
  deriving DecidableEq, Repr

structure ReliableSender where
  queues : QueueIndex → OutgoingQueue
  sent : List Bytes

namespace ReliableSender

def initial : ReliableSender := ⟨fun _ => .empty, []⟩

def queueReliable (s : ReliableSender) (messageType : Nat) (data : Bytes) :
    Except QueueError ReliableSender :=
  if tonkMaxReliableBytes < data.length then .error .messageTooLarge
  else
    let queueIndex := if messageTypeLowPri ≤ messageType then QueueIndex.lowPri else .reliable
    let queue := (s.queues queueIndex).queueReliableLoop messageType data
    .ok { s with queues := Function.update s.queues queueIndex queue }

inductive Event where
  | queueReliable : Channel → Bytes → Event
  | flush : QueueIndex → Event
  deriving DecidableEq, Repr

/-- A rejected message changes nothing. A flush is one datagram taken off one queue: bandwidth and
the FEC window decide how many of these a Flush makes, and of which queue. -/
def step (s : ReliableSender) : Event → ReliableSender
  | .queueReliable ch data =>
    match s.queueReliable ch.messageType data with
    | .ok s' => s'
    | .error _ => s
  | .flush i =>
    let r := (s.queues i).popDatagram
    { queues := Function.update s.queues i r.1, sent := s.sent ++ r.2.toList }

def run (evs : List Event) : ReliableSender := evs.foldl step initial

/-- Every datagram the run produces, those still waiting in a queue last. -/
def datagrams (s : ReliableSender) : List Bytes :=
  s.sent ++ (s.queues .reliable).pending ++ (s.queues .lowPri).pending

end ReliableSender

def acceptedOn (ch : Channel) : ReliableSender.Event → Option Bytes
  | .queueReliable d data => if d = ch ∧ data.length ≤ tonkMaxReliableBytes then some data else none
  | .flush _ => none

def IncomingChannels.Agrees (s t : IncomingChannels) : Prop :=
  ∀ ch : Channel, s.buffer ch = t.buffer ch ∧ s.received ch = t.received ch

theorem IncomingChannels.Agrees.deliverMessage {s t t' : IncomingChannels} (h : s.Agrees t)
    {f : Frame} {ch : Channel} (hf : ch.Carries f)
    (ht : Session.deliverMessage t f = .ok t') :
    ∃ s', Session.deliverMessage s f = .ok s' ∧ s'.Agrees t' := by
  rw [deliverMessage_carried hf] at ht ⊢
  rw [(h ch).1]
  cases hr : reassemble (t.buffer ch) (f.messageType = ch.messageType + tonkChannelCount)
      f.messageData with
  | error e => simp [hr, Except.map] at ht
  | ok r =>
    rw [hr] at ht
    cases ht
    refine ⟨s.update r.1 r.2 ch, rfl, fun d => ⟨?_, ?_⟩⟩
    · by_cases hd : d = ch
      · subst hd
        simp
      · rw [s.update_buffer_of_ne _ _ hd, t.update_buffer_of_ne _ _ hd]
        exact (h d).1
    · rw [IncomingChannels.update_received, IncomingChannels.update_received, (h d).2]

theorem IncomingChannels.Agrees.call {s t : IncomingChannels} (h : s.Agrees t) (channel : Nat)
    (hc : ∀ ch : Channel, ch.tonkChannel ≠ channel) (messageData : Option Bytes) :
    (s.call channel messageData).Agrees t := by
  intro ch
  have hne : channel ≠ ch.tonkChannel := fun e => hc ch e.symm
  refine ⟨?_, ?_⟩
  · rw [← (h ch).1]
    cases ch <;> rfl
  · rw [← (h ch).2]
    cases messageData <;> simp [IncomingChannels.received, IncomingChannels.call, hne]

theorem Channel.tonkChannel_lt (ch : Channel) : ch.tonkChannel < tonkChannelUnordered := by
  cases ch <;> simp [tonkChannel, tonkChannelUnordered, tonkChannelReliable0,
    tonkChannelLowPri0] <;> omega

def deliverDatagrams (s : IncomingChannels) (datagrams : List Bytes) :
    Except DeliverError IncomingChannels :=
  datagrams.foldlM (frameLoop .frame (fun s _ f => deliverMessage s f) · 0 ·) s

def Channel.queueIndex : Channel → QueueIndex
  | .reliable _ => .reliable
  | .lowPri _ => .lowPri

theorem Channel.queueIndex_eq (ch : Channel) :
    (if messageTypeLowPri ≤ ch.messageType then QueueIndex.lowPri else .reliable) =
      ch.queueIndex := by
  cases ch with
  | reliable n =>
    rw [if_neg]
    · rfl
    · have := n.isLt
      simp only [Channel.messageType, messageTypeReliable, messageTypeLowPri, kLowPriStartChannel0,
        tonkChannelCount]
      omega
  | lowPri n =>
    rw [if_pos]
    · rfl
    · simp [Channel.messageType]

theorem Split.carries {ch : Channel} {data : Bytes} {gs : List Frame}
    (h : OutgoingQueue.Split ch.messageType data gs) : ∀ f ∈ gs, ch.Carries f := by
  induction h with
  | final data => simp [Channel.Carries]
  | part data rest fs _ ih =>
    intro f hf
    rcases List.mem_cons.mp hf with rfl | hf
    · exact .inl rfl
    · exact ih f hf

theorem Leaves.carries {ch : Channel} {data : Bytes} {gs : List Frame}
    (h : OutgoingQueue.Leaves ch.messageType data gs) : ∀ f ∈ gs, ch.Carries f := by
  rcases h with h | ⟨_, rfl⟩
  · exact Split.carries h
  · simp

theorem Leaves.reassembles {t : Nat} {data : Bytes} {gs : List Frame}
    (h : OutgoingQueue.Leaves t data gs) (hlen : data.length ≤ tonkMaxReliableBytes) :
    ∃ ms, (data ≠ [] → ms = [data]) ∧ Reassembles t [] gs ms := by
  rcases h with h | ⟨rfl, rfl⟩
  · exact ⟨[data], fun _ => rfl, Reassembles.of_split h (by simpa using hlen)⟩
  · exact ⟨[], fun h => absurd rfl h, .done⟩

/-- The invariant of a run: `sent` and the queues hold whole frames, each in the queue of its
channel, and the frames of each channel, in order, reassemble to its messages. -/
structure ReliableSender.Inv (s : ReliableSender) (msgs : Channel → List Bytes)
    (cut : List (List Frame)) (waiting : QueueIndex → List Frame) : Prop where
  sent_eq : s.sent = cut.map wireFrames
  sent_size : ∀ d ∈ s.sent, d ≠ [] ∧ d.length ≤ maxMessageSectionBytes
  sent_fits : ∀ f ∈ cut.flatten, f.Fits
  sent_carried : ∀ f ∈ cut.flatten, ∃ ch : Channel, ch.Carries f
  contains : ∀ i, (s.queues i).Contains (waiting i)
  carried : ∀ i, ∀ f ∈ waiting i, ∃ ch : Channel, ch.queueIndex = i ∧ ch.Carries f
  reassembles : ∀ ch : Channel, Reassembles ch.messageType []
    ((cut.flatten ++ waiting ch.queueIndex).filter (ch.Carries ·)) (msgs ch)

namespace ReliableSender

theorem inv_initial : initial.Inv (fun _ => []) [] (fun _ => []) where
  sent_eq := rfl
  sent_size := by simp [initial]
  sent_fits := by simp
  sent_carried := by simp
  contains _ := OutgoingQueue.contains_empty
  carried := by simp
  reassembles _ := .done

theorem filter_carries_eq_nil {ch : Channel} {i : QueueIndex} {fs : List Frame}
    (h : ∀ f ∈ fs, ∃ d : Channel, d.queueIndex = i ∧ d.Carries f) (hi : ch.queueIndex ≠ i) :
    fs.filter (ch.Carries ·) = [] := by
  apply List.filter_eq_nil_iff.mpr
  intro f hf hc
  obtain ⟨d, hd, hcd⟩ := h f hf
  rw [Channel.carries_unique (of_decide_eq_true hc) hcd] at hi
  exact hi hd

theorem Inv.queueReliable {s s' : ReliableSender} {msgs : Channel → List Bytes}
    {cut : List (List Frame)} {waiting : QueueIndex → List Frame} (hs : s.Inv msgs cut waiting)
    {ch : Channel} {data : Bytes} (h : s.queueReliable ch.messageType data = .ok s') :
    ∃ waiting' ms, (data ≠ [] → ms = [data]) ∧
      s'.Inv (Function.update msgs ch (msgs ch ++ ms)) cut waiting' := by
  unfold ReliableSender.queueReliable at h
  rw [ch.queueIndex_eq] at h
  split at h
  · cases h
  · rename_i hlen
    cases h
    obtain ⟨gs, hleaves, hgs⟩ := (s.queues ch.queueIndex).queueReliableLoop_contains ch.messageType
      data ch.messageType_lt _ (hs.contains ch.queueIndex)
    obtain ⟨ms, hms, hre⟩ := Leaves.reassembles hleaves (Nat.not_lt.mp hlen)
    have hcar := Leaves.carries hleaves
    refine ⟨Function.update waiting ch.queueIndex (waiting ch.queueIndex ++ gs), ms, hms,
      hs.sent_eq, hs.sent_size, hs.sent_fits, hs.sent_carried, ?_, ?_, ?_⟩
    · intro i
      by_cases hi : i = ch.queueIndex
      · subst hi
        simpa using hgs
      · simpa [hi] using hs.contains i
    · intro i f hf
      by_cases hi : i = ch.queueIndex
      · subst hi
        rw [Function.update_self, List.mem_append] at hf
        rcases hf with hf | hf
        · exact hs.carried _ f hf
        · exact ⟨ch, rfl, hcar f hf⟩
      · rw [Function.update_of_ne hi] at hf
        exact hs.carried i f hf
    · intro d
      by_cases hd : d = ch
      · subst hd
        rw [Function.update_self, Function.update_self, ← List.append_assoc, List.filter_append,
          List.filter_eq_self.mpr (fun f hf => decide_eq_true (hcar f hf))]
        exact (hs.reassembles d).append hre
      · rw [Function.update_of_ne hd]
        by_cases hi : d.queueIndex = ch.queueIndex
        · have hnil : gs.filter (d.Carries ·) = [] := List.filter_eq_nil_iff.mpr fun f hf hc =>
            hd (Channel.carries_unique (of_decide_eq_true hc) (hcar f hf))
          rw [hi, Function.update_self, ← List.append_assoc, List.filter_append, hnil,
            List.append_nil, ← hi]
          exact hs.reassembles d
        · rw [Function.update_of_ne hi]
          exact hs.reassembles d

theorem Inv.flush {s : ReliableSender} {msgs : Channel → List Bytes} {cut : List (List Frame)}
    {waiting : QueueIndex → List Frame} (hs : s.Inv msgs cut waiting) (i : QueueIndex) :
    ∃ extra waiting', (s.step (.flush i)).Inv msgs (cut ++ extra) waiting' := by
  have hstep : s.step (.flush i) = ⟨Function.update s.queues i (s.queues i).popDatagram.1,
    s.sent ++ (s.queues i).popDatagram.2.toList⟩ := rfl
  rw [hstep]
  rcases hpop : (s.queues i).popDatagram with ⟨q, _ | datagram⟩
  · refine ⟨[], waiting, ?_⟩
    rw [List.append_nil]
    refine ⟨by simpa using hs.sent_eq, by simpa using hs.sent_size, hs.sent_fits,
      hs.sent_carried, ?_, hs.carried, hs.reassembles⟩
    intro j
    by_cases hj : j = i
    · subst hj
      simpa using (hs.contains j).pop_none hpop
    · simpa [hj] using hs.contains j
  · obtain ⟨gs, rest, hw, hd, hsize, hq⟩ := (hs.contains i).pop hpop
    have hgs : ∀ f ∈ gs, ∃ ch : Channel, ch.queueIndex = i ∧ ch.Carries f := fun f hf =>
      hs.carried i f (by rw [hw]; exact List.mem_append_left _ hf)
    obtain ⟨_, _, _, hfits, _⟩ := hs.contains i
    refine ⟨[gs], Function.update waiting i rest, ?_, ?_, ?_, ?_, ?_, ?_, ?_⟩
    · simp [hs.sent_eq, hd]
    · intro d hd
      rw [List.mem_append] at hd
      rcases hd with hd | hd
      · exact hs.sent_size d hd
      · have : d = datagram := by simpa using hd
        rw [this]
        exact hsize
    · intro f hf
      rw [List.flatten_concat, List.mem_append] at hf
      rcases hf with hf | hf
      · exact hs.sent_fits f hf
      · exact hfits f (by rw [hw]; exact List.mem_append_left _ hf)
    · intro f hf
      rw [List.flatten_concat, List.mem_append] at hf
      rcases hf with hf | hf
      · exact hs.sent_carried f hf
      · obtain ⟨ch, _, hc⟩ := hgs f hf
        exact ⟨ch, hc⟩
    · intro j
      by_cases hj : j = i
      · subst hj
        simpa using hq
      · simpa [hj] using hs.contains j
    · intro j f hf
      by_cases hj : j = i
      · subst hj
        rw [Function.update_self] at hf
        exact hs.carried j f (by rw [hw]; exact List.mem_append_right _ hf)
      · rw [Function.update_of_ne hj] at hf
        exact hs.carried j f hf
    · intro ch
      have hch := hs.reassembles ch
      by_cases hi : ch.queueIndex = i
      · rw [hi, hw] at hch
        simpa [hi] using hch
      · rw [Function.update_of_ne hi, List.flatten_concat, List.append_assoc, List.filter_append,
          List.filter_append, filter_carries_eq_nil hgs hi, List.nil_append, ← List.filter_append]
        exact hch

theorem run_append (evs : List Event) (ev : Event) : run (evs ++ [ev]) = (run evs).step ev := by
  simp [run]

theorem step_too_large {s : ReliableSender} {ch : Channel} {data : Bytes}
    (h : tonkMaxReliableBytes < data.length) : s.step (.queueReliable ch data) = s := by
  simp only [step, ReliableSender.queueReliable, if_pos h]

theorem queueReliable_ok {s : ReliableSender} {ch : Channel} {data : Bytes}
    (h : ¬ tonkMaxReliableBytes < data.length) :
    s.queueReliable ch.messageType data = .ok (s.step (.queueReliable ch data)) := by
  simp only [step, ReliableSender.queueReliable, if_neg h]

/-- Every step keeps the invariant, for some messages: the accepted ones, if they are not empty. -/
theorem Inv.step {s : ReliableSender} {msgs : Channel → List Bytes} {cut : List (List Frame)}
    {waiting : QueueIndex → List Frame} (hs : s.Inv msgs cut waiting) (ev : Event) :
    ∃ extra waiting' msgs', (s.step ev).Inv msgs' (cut ++ extra) waiting' ∧
      ((∀ ch data, ev = .queueReliable ch data → data ≠ []) →
        ∀ ch, msgs' ch = msgs ch ++ (acceptedOn ch ev).toList) := by
  cases ev with
  | flush i =>
    obtain ⟨extra, waiting', hs'⟩ := hs.flush i
    exact ⟨extra, waiting', msgs, hs', fun _ ch => by simp [acceptedOn]⟩
  | queueReliable ch data =>
    by_cases hlen : tonkMaxReliableBytes < data.length
    · rw [step_too_large hlen]
      refine ⟨[], waiting, msgs, by simpa using hs, fun _ d => ?_⟩
      rw [acceptedOn, if_neg (by omega)]
      simp
    · obtain ⟨waiting', ms, hms, hs'⟩ := hs.queueReliable (queueReliable_ok hlen)
      refine ⟨[], waiting', _, by simpa using hs', fun hpos d => ?_⟩
      rw [hms (hpos ch data rfl)]
      by_cases hd : d = ch
      · subst hd
        simp [acceptedOn, Nat.not_lt.mp hlen]
      · have hne : ch ≠ d := fun e => hd e.symm
        simp [acceptedOn, hne, Function.update_of_ne hd]

theorem run_inv (evs : List Event) : ∃ cut waiting msgs, (run evs).Inv msgs cut waiting ∧
    ((∀ ch data, Event.queueReliable ch data ∈ evs → data ≠ []) →
      ∀ ch, msgs ch = evs.filterMap (acceptedOn ch)) := by
  induction evs using List.reverseRecOn with
  | nil => exact ⟨_, _, _, inv_initial, fun _ _ => rfl⟩
  | append_singleton evs ev ih =>
    obtain ⟨cut, waiting, msgs, hs, hmsgs⟩ := ih
    obtain ⟨extra, waiting', msgs', hs', hmsgs'⟩ := hs.step ev
    refine ⟨cut ++ extra, waiting', msgs', by rw [run_append]; exact hs', fun hpos ch => ?_⟩
    rw [hmsgs' (fun d data h => hpos d data (by simp [h])), List.filterMap_append,
      hmsgs (fun d data h => hpos d data (by simp [h]))]
    cases h : acceptedOn ch ev <;> simp [h]

end ReliableSender

theorem deliverDatagrams_wireFrames (cut : List (List Frame)) (hf : ∀ f ∈ cut.flatten, f.Fits)
    (s : IncomingChannels) :
    deliverDatagrams s (cut.map wireFrames) = cut.flatten.foldlM deliverMessage s := by
  induction cut generalizing s with
  | nil => rfl
  | cons fs cut ih =>
    have hfs := frameLoop_wireFrames .frame (fun s _ f => deliverMessage s f) fs
      (fun f h => hf f (by simp [h])) s 0
    have ih' := ih fun f h => hf f (by rw [List.flatten_cons]; exact List.mem_append_right _ h)
    rw [List.map_cons, List.flatten_cons, List.foldlM_append, deliverDatagrams, List.foldlM_cons,
      hfs, handleFrames_foldlM]
    cases fs.foldlM deliverMessage s with
    | error e => rfl
    | ok s' => exact ih' s'

theorem ReliableSender.Inv.delivers {s : ReliableSender} {msgs : Channel → List Bytes}
    {cut : List (List Frame)} {waiting : QueueIndex → List Frame} (hs : s.Inv msgs cut waiting) :
    ∃ c, deliverDatagrams .initial s.datagrams = .ok c ∧
      ∀ ch : Channel, c.received ch = msgs ch ∧ c.buffer ch = [] := by
  obtain ⟨cutR, hpR, hfR, hfitR, _⟩ := hs.contains .reliable
  obtain ⟨cutL, hpL, hfL, hfitL, _⟩ := hs.contains .lowPri
  have hdatagrams : s.datagrams = (cut ++ cutR ++ cutL).map wireFrames := by
    simp [ReliableSender.datagrams, hs.sent_eq, hpR, hpL]
  have hflat : (cut ++ cutR ++ cutL).flatten =
      cut.flatten ++ waiting .reliable ++ waiting .lowPri := by
    simp [hfR, hfL]
  have hall : ∀ f ∈ (cut ++ cutR ++ cutL).flatten, f.Fits ∧ ∃ ch : Channel, ch.Carries f := by
    intro f hf
    rw [hflat, List.mem_append, List.mem_append] at hf
    rcases hf with (hf | hf) | hf
    · exact ⟨hs.sent_fits f hf, hs.sent_carried f hf⟩
    · obtain ⟨ch, _, hc⟩ := hs.carried _ f hf
      exact ⟨hfitR f hf, ch, hc⟩
    · obtain ⟨ch, _, hc⟩ := hs.carried _ f hf
      exact ⟨hfitL f hf, ch, hc⟩
  -- the other queue's frames are invisible on a channel
  have hview : ∀ ch : Channel, Reassembles ch.messageType []
      ((cut ++ cutR ++ cutL).flatten.filter (ch.Carries ·)) (msgs ch) := by
    intro ch
    have hch := hs.reassembles ch
    rw [hflat]
    cases ch with
    | reliable n =>
      have hnil : (waiting .lowPri).filter ((Channel.reliable n).Carries ·) = [] :=
        filter_carries_eq_nil (hs.carried .lowPri) (by simp [Channel.queueIndex])
      rw [List.filter_append, hnil, List.append_nil]
      exact hch
    | lowPri n =>
      have hnil : (waiting .reliable).filter ((Channel.lowPri n).Carries ·) = [] :=
        filter_carries_eq_nil (hs.carried .reliable) (by simp [Channel.queueIndex])
      rw [List.filter_append, List.filter_append, hnil, List.append_nil, ← List.filter_append]
      exact hch
  have hempty : ∀ ch : Channel, IncomingChannels.initial.buffer ch = [] := by
    intro ch
    cases ch <;> rfl
  obtain ⟨c, hrun, hend⟩ := foldlM_reassembles _ (fun f hf => (hall f hf).2) .initial msgs
    (fun ch => by rw [hempty ch]; exact hview ch)
  refine ⟨c, ?_, fun ch => ⟨by simpa [IncomingChannels.received, IncomingChannels.initial]
    using (hend ch).2, (hend ch).1⟩⟩
  rw [hdatagrams, deliverDatagrams_wireFrames _ (fun f hf => (hall f hf).1), hrun]

/-- Whatever was queued, on whatever channels and however flushed, `deliverMessage` hands each
channel its messages, whole and in order, and keeps nothing. -/
theorem queued_messages_reassembled (evs : List ReliableSender.Event)
    (hpos : ∀ ch data, .queueReliable ch data ∈ evs → data ≠ []) :
    ∃ s, deliverDatagrams .initial (ReliableSender.run evs).datagrams = .ok s ∧
      ∀ ch : Channel, s.received ch = evs.filterMap (acceptedOn ch) ∧ s.buffer ch = [] := by
  obtain ⟨cut, waiting, msgs, hs, hmsgs⟩ := ReliableSender.run_inv evs
  obtain ⟨s, hok, hend⟩ := hs.delivers
  refine ⟨s, hok, fun ch => ⟨?_, (hend ch).2⟩⟩
  rw [(hend ch).1, hmsgs hpos]

theorem queued_messages_reassembled_two_channels :
    ∃ s, deliverDatagrams .initial (ReliableSender.run
        [.queueReliable (.reliable 0) (List.replicate 2000 7), .flush .reliable,
          .queueReliable (.lowPri 5) [1, 2, 3], .queueReliable (.reliable 0) [9]]).datagrams =
        .ok s ∧
      ∀ ch : Channel, s.received ch =
        [ReliableSender.Event.queueReliable (.reliable 0) (List.replicate 2000 7),
          .flush .reliable, .queueReliable (.lowPri 5) [1, 2, 3],
          .queueReliable (.reliable 0) [9]].filterMap (acceptedOn ch) ∧ s.buffer ch = [] := by
  apply queued_messages_reassembled
  intro ch data h
  simp only [List.mem_cons, ReliableSender.Event.queueReliable.injEq, reduceCtorEq,
    List.not_mem_nil, or_false, false_or] at h
  rcases h with ⟨_, rfl⟩ | ⟨_, rfl⟩ | ⟨_, rfl⟩
  · exact List.ne_nil_of_length_pos (by rw [List.length_replicate]; omega)
  · simp
  · simp

end Tonk.Session
