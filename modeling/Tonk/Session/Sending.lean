import Tonk.Session.PostAcknowledgements
import Tonk.Session.QueueAccounting
import Tonk.Session.Reassembly

set_option autoImplicit false

namespace Tonk.Session
open Protocol

inductive TonkResult where
  | error
  | invalidChannel
  | messageTooLarge
  deriving DecidableEq, Repr

structure SendFailure where
  source : String
  description : String
  code : TonkResult
  deriving DecidableEq, Repr

def OutgoingQueue.tryAppend (messageType : Nat) (data : Bytes) :
    Nat → OutgoingQueue → OutgoingQueue × Bool
  | 0, q => (q, false)
  | tries + 1, q =>
    match q.append messageType data with
    | (q', true) => (q', true)
    | (q', false) => tryAppend messageType data tries q'.pushAndGetFreshBuffer

abbrev OutgoingQueues := QueueIndex → OutgoingQueue

namespace OutgoingQueues

def queueMessage (queues : OutgoingQueues) (queueIndex : QueueIndex) (messageType : Nat)
    (data : Bytes) : OutgoingQueues × Option SendFailure :=
  if tonkMaxUnreliableBytes ≤ data.length then
    (queues, some ⟨"SessionOutgoing::queueMessage",
      toString data.length ++ " byte message too large", .messageTooLarge⟩)
  else
    let r := (queues queueIndex).tryAppend messageType data 2
    (Function.update queues queueIndex r.1,
      if r.2 then none
      else some ⟨"SessionOutgoing::queueMessage",
        toString data.length ++ " byte message caused Append failure", .error⟩)

def queueUnreliable (queues : OutgoingQueues) (messageType : Nat) (data : Bytes) :
    OutgoingQueues × Option SendFailure :=
  queues.queueMessage .unreliable messageType data

def queueUnordered (queues : OutgoingQueues) (data : Bytes) :
    OutgoingQueues × Option SendFailure :=
  queues.queueMessage .unmetered messageTypeUnordered data

def queueReliable (queues : OutgoingQueues) (messageType : Nat) (data : Bytes) :
    OutgoingQueues × Option SendFailure :=
  if tonkMaxReliableBytes < data.length then
    (queues, some ⟨"SessionOutgoing::QueueReliableMessage",
      toString data.length ++ " byte message too large", .messageTooLarge⟩)
  else
    let queueIndex := if messageTypeLowPri ≤ messageType then QueueIndex.lowPri else .reliable
    (Function.update queues queueIndex ((queues queueIndex).queueReliableLoop messageType data), none)

def tonkSend (queues : OutgoingQueues) (channel : Nat) (data : Bytes) :
    OutgoingQueues × Option SendFailure :=
  if channel = tonkChannelUnreliable then queues.queueUnreliable messageTypeUnreliable data
  else if tonkChannelReliable0 ≤ channel ∧
      channel ≤ tonkChannelReliable0 + (tonkChannelCount - 1) then
    queues.queueReliable (messageTypeReliable + channel - tonkChannelReliable0) data
  else if tonkChannelLowPri0 ≤ channel ∧ channel ≤ tonkChannelLowPri0 + (tonkChannelCount - 1) then
    queues.queueReliable (messageTypeLowPri + channel - tonkChannelLowPri0) data
  else if channel = tonkChannelUnordered then queues.queueUnordered data
  else (queues, some ⟨"Connection::tonk_send",
    "Invalid channel input parameter. See documentation", .invalidChannel⟩)

end OutgoingQueues

/-! ## What the documentation says -/

inductive SendChannel where
  | unreliable
  | unordered
  | ordered (channel : Channel)

namespace SendChannel

def number : SendChannel → Nat
  | unreliable => tonkChannelUnreliable
  | unordered => tonkChannelUnordered
  | ordered channel => channel.tonkChannel

def maxBytes : SendChannel → Nat
  | unreliable => 1280
  | unordered => 1280
  | ordered _ => 64000

def queueIndex : SendChannel → QueueIndex
  | unreliable => .unreliable
  | unordered => .unmetered
  | ordered channel => channel.queueIndex

def Queued : SendChannel → Bytes → List Frame → Prop
  | unreliable, data, frames => frames = [⟨messageTypeUnreliable, data⟩]
  | unordered, data, frames => frames = [⟨messageTypeUnordered, data⟩]
  | ordered channel, data, frames => OutgoingQueue.Split channel.messageType data frames

end SendChannel

/-- The frames are behind what waited in the queue before, none of them cut. -/
structure OutgoingQueue.Gains (q q' : OutgoingQueue) (frames : List Frame) : Prop where
  bytes : q'.pending.flatten = q.pending.flatten ++ wireFrames frames
  whole : ∀ fs, q.Contains fs → q'.Contains (fs ++ frames)

def SendsDocumented (queues : OutgoingQueues) (channel : SendChannel) (data : Bytes) : Prop :=
  let r := queues.tonkSend channel.number data
  if data.length ≤ channel.maxBytes then
    r.2 = none ∧ (∀ i, i ≠ channel.queueIndex → r.1 i = queues i) ∧
      ∃ frames, channel.Queued data frames ∧
        (queues channel.queueIndex).Gains (r.1 channel.queueIndex) frames
  else r.1 = queues ∧ ∃ failure, r.2 = some failure ∧ failure.code = .messageTooLarge

def Sendable (queues : OutgoingQueues) (data : Bytes) : SendChannel → Prop
  | .unreliable => data.length ≠ 1280
  | .unordered => data.length ≠ 1280
  | .ordered channel => data = [] → (queues channel.queueIndex).HasRoom

/-! ## One queue -/

namespace OutgoingQueue

variable {q q' : OutgoingQueue} {messageType : Nat} {data : Bytes}

theorem Gains.trans {q'' : OutgoingQueue} {gs hs : List Frame} (h : q.Gains q' gs)
    (h' : q'.Gains q'' hs) : q.Gains q'' (gs ++ hs) where
  bytes := by
    rw [h'.bytes, h.bytes, List.append_assoc]
    simp [wireFrames]
  whole := fun fs hfs => by
    rw [← List.append_assoc]
    exact h'.whole _ (h.whole fs hfs)

theorem gains_write {datagram : Bytes} (hopen : q.outBuffer = some datagram) {f : Frame}
    (hf : f.Fits) (hroom : datagram.length + kMessageFrameBytes + f.messageData.length ≤
      maxMessageSectionBytes) : q.Gains (q.write datagram f) [f] where
  bytes := by
    rw [flatten_write hopen]
    simp [wireFrames]
  whole := fun _ hfs => hfs.write hopen hf hroom

theorem gains_push (q : OutgoingQueue) : q.Gains q.pushAndGetFreshBuffer [] where
  bytes := by
    rw [pending_pushAndGetFreshBuffer]
    simp [wireFrames]
  whole := fun fs hfs => by
    rw [List.append_nil]
    exact hfs.push

theorem append_cases (q : OutgoingQueue) (ht : messageType < 32) (hdata : data.length < 2048) :
    ((q.append messageType data).2 = true ∧
      q.Gains (q.append messageType data).1 [⟨messageType, data⟩]) ∨
    (q.append messageType data = (q, false) ∧ ∀ datagram, q.outBuffer = some datagram →
      maxMessageSectionBytes < datagram.length + (kMessageFrameBytes + data.length)) := by
  unfold append
  cases hopen : q.outBuffer with
  | none => exact .inr ⟨rfl, nofun⟩
  | some datagram =>
    by_cases hfull : datagram.length + (kMessageFrameBytes + data.length) > maxMessageSectionBytes
    · refine .inr ⟨by simp only [if_pos hfull], fun d hd => ?_⟩
      cases hd
      exact hfull
    · simp only [if_neg hfull]
      exact .inl ⟨trivial, gains_write hopen ⟨ht, hdata⟩ (by simp only; omega)⟩

theorem tryAppend_two (q : OutgoingQueue) (ht : messageType < 32)
    (hdata : data.length < tonkMaxUnreliableBytes) :
    (q.tryAppend messageType data 2).2 = true ∧
      q.Gains (q.tryAppend messageType data 2).1 [⟨messageType, data⟩] := by
  have hmax : maxMessageSectionBytes = 1306 := rfl
  rw [tonkMaxUnreliableBytes] at hdata
  have hstep : ∀ (q : OutgoingQueue) (tries : Nat), q.tryAppend messageType data (tries + 1) =
      if (q.append messageType data).2 then ((q.append messageType data).1, true)
      else tryAppend messageType data tries (q.append messageType data).1.pushAndGetFreshBuffer := by
    intro q tries
    rw [tryAppend]
    rcases q.append messageType data with ⟨q', _ | _⟩ <;> rfl
  rcases q.append_cases ht (by omega : data.length < 2048) with ⟨hdone, hgains⟩ | ⟨hfull, -⟩
  · rw [hstep, if_pos hdone]
    exact ⟨rfl, hgains⟩
  · rw [hstep, hfull, if_neg Bool.false_ne_true, hstep]
    rcases q.pushAndGetFreshBuffer.append_cases ht (by omega : data.length < 2048) with
      ⟨hdone, hgains⟩ | ⟨-, hroom⟩
    · rw [if_pos hdone]
      exact ⟨rfl, q.gains_push.trans hgains⟩
    · have hlong := hroom [] q.pushAndGetFreshBuffer_outBuffer
      rw [hmax, List.length_nil, kMessageFrameBytes] at hlong
      omega

/-- An empty message is taken for done when there is no room for it. -/
theorem queueReliableLoop_nil (hroom : ¬ q.HasRoom) : q.queueReliableLoop messageType [] = q := by
  rw [queueReliableLoop, appendSplitReliable_of_not_hasRoom hroom]
  rfl

theorem queueReliableLoop_gains (q : OutgoingQueue) (messageType : Nat) (data : Bytes)
    (ht : messageType + tonkChannelCount < 32) (h : data = [] → q.HasRoom) :
    ∃ frames, Split messageType data frames ∧
      q.Gains (q.queueReliableLoop messageType data) frames := by
  have hmax : maxMessageSectionBytes = 1306 := rfl
  induction q, data using queueReliableLoop.induct messageType with
  | case1 q data r hdone =>
    rw [queueReliableLoop, if_pos hdone]
    rcases q.appendSplitReliable_cases messageType data with
      ⟨hroom, hc⟩ | ⟨_, n, _, _, hlt, _, hc⟩ | ⟨datagram, hopen, hfit, hc⟩
    all_goals simp only [r, hc] at hdone ⊢
    · exact absurd (h (List.length_eq_zero_iff.mp (Nat.le_zero.mp hdone))) hroom
    · omega
    · refine ⟨_, .final data, gains_write hopen ⟨ht, ?_⟩ hfit⟩
      show data.length < 2048
      omega
  | case2 q data r hmore ih =>
    rw [queueReliableLoop, if_neg hmore]
    have hrest : data.drop r.2 ≠ [] := by
      rw [ne_eq, List.drop_eq_nil_iff]
      exact hmore
    obtain ⟨frames, hsplit, hgains⟩ := ih fun hnil => absurd hnil hrest
    rcases q.appendSplitReliable_cases messageType data with
      ⟨_, hc⟩ | ⟨datagram, n, hopen, _, _, hfull, hc⟩ | ⟨_, _, _, hc⟩
    all_goals simp only [r, hc] at hmore hsplit hgains ⊢
    · exact ⟨frames, hsplit, q.gains_push.trans hgains⟩
    · have hlength : (data.take n).length = n := by
        rw [List.length_take]
        omega
      have hf : (Frame.mk messageType (data.take n)).Fits := by
        refine ⟨Nat.lt_of_le_of_lt (Nat.le_add_right _ _) ht, ?_⟩
        rw [hlength]
        omega
      have hwrite := gains_write hopen hf (by simp only [hlength]; omega)
      refine ⟨⟨messageType, data.take n⟩ :: frames, ?_, hwrite.trans ((gains_push _).trans hgains)⟩
      have hpart := Split.part (data.take n) _ frames hsplit
      rwa [List.take_append_drop] at hpart
    · omega

theorem Split.ne_nil {frames : List Frame} (h : Split messageType data frames) : frames ≠ [] := by
  cases h <;> exact List.cons_ne_nil _ _

theorem not_gains_self {frames : List Frame} (hne : frames ≠ []) : ¬ q.Gains q frames := by
  intro h
  obtain ⟨f, fs, rfl⟩ := List.exists_cons_of_ne_nil hne
  have hbytes := congrArg List.length h.bytes
  rw [List.length_append, wireFrames, List.map_cons, List.flatten_cons, List.length_append,
    Frame.wire_length, kMessageFrameBytes] at hbytes
  omega

end OutgoingQueue

/-! ## The channels -/

namespace OutgoingQueues

theorem tonkSend_ordered (queues : OutgoingQueues) (channel : Channel) (data : Bytes) :
    queues.tonkSend channel.tonkChannel data = queues.queueReliable channel.messageType data := by
  cases channel with
  | reliable n =>
    have hn := n.isLt
    have htype : messageTypeReliable + (tonkChannelReliable0 + n) - tonkChannelReliable0 =
        messageTypeReliable + n := by omega
    rw [tonkSend, Channel.tonkChannel, if_neg, if_pos, htype]
    · rfl
    · rw [tonkChannelCount]
      omega
    · rw [tonkChannelReliable0, tonkChannelUnreliable]
      omega
  | lowPri n =>
    have hn := n.isLt
    have htype : messageTypeLowPri + (tonkChannelLowPri0 + n) - tonkChannelLowPri0 =
        messageTypeLowPri + n := by omega
    rw [tonkSend, Channel.tonkChannel, if_neg, if_neg, if_pos, htype]
    · rfl
    · rw [tonkChannelCount]
      omega
    · rw [tonkChannelReliable0, tonkChannelLowPri0, tonkChannelCount]
      omega
    · rw [tonkChannelLowPri0, tonkChannelUnreliable]
      omega

theorem queueMessage_eq (queues : OutgoingQueues) (queueIndex : QueueIndex) (messageType : Nat)
    (data : Bytes) :
    (queues queueIndex).queueMessage messageType data =
      match queues.queueMessage queueIndex messageType data with
      | (queues', none) => .ok (queues' queueIndex)
      | (_, some failure) => .error failure.description := by
  unfold OutgoingQueue.queueMessage OutgoingQueues.queueMessage
  by_cases hlarge : tonkMaxUnreliableBytes ≤ data.length
  · simp only [if_pos hlarge]
  · simp only [if_neg hlarge]
    rcases hfirst : (queues queueIndex).append messageType data with ⟨q, _ | _⟩
    · rcases hsecond : q.pushAndGetFreshBuffer.append messageType data with ⟨q', _ | _⟩
      · have htry : (queues queueIndex).tryAppend messageType data 2 =
            (q'.pushAndGetFreshBuffer, false) := by
          simp only [OutgoingQueue.tryAppend, hfirst, hsecond]
        simp [htry, hsecond]
      · have htry : (queues queueIndex).tryAppend messageType data 2 = (q', true) := by
          simp only [OutgoingQueue.tryAppend, hfirst, hsecond]
        simp [htry, hsecond]
    · have htry : (queues queueIndex).tryAppend messageType data 2 = (q, true) := by
        simp only [OutgoingQueue.tryAppend, hfirst]
      simp [htry]

theorem queueReliable_eq (s : ReliableSender) (messageType : Nat) (data : Bytes) :
    s.queueReliable messageType data =
      match queueReliable s.queues messageType data with
      | (queues', none) => .ok { s with queues := queues' }
      | (_, some _) => .error .messageTooLarge := by
  unfold ReliableSender.queueReliable queueReliable
  by_cases hlarge : tonkMaxReliableBytes < data.length
  · simp only [if_pos hlarge]
  · simp only [if_neg hlarge]

theorem queueMessage_cases (queues : OutgoingQueues) (queueIndex : QueueIndex) {messageType : Nat}
    (ht : messageType < 32) (data : Bytes) :
    (tonkMaxUnreliableBytes ≤ data.length ∧
      (queues.queueMessage queueIndex messageType data).1 = queues ∧
      ∃ failure, (queues.queueMessage queueIndex messageType data).2 = some failure ∧
        failure.code = .messageTooLarge) ∨
    (data.length < tonkMaxUnreliableBytes ∧
      (queues.queueMessage queueIndex messageType data).2 = none ∧
      (∀ i, i ≠ queueIndex → (queues.queueMessage queueIndex messageType data).1 i = queues i) ∧
      (queues queueIndex).Gains ((queues.queueMessage queueIndex messageType data).1 queueIndex)
        [⟨messageType, data⟩]) := by
  unfold queueMessage
  by_cases hlarge : tonkMaxUnreliableBytes ≤ data.length
  · simp only [if_pos hlarge]
    exact .inl ⟨hlarge, trivial, _, rfl, rfl⟩
  · have hsmall := Nat.lt_of_not_le hlarge
    obtain ⟨hdone, hgains⟩ := (queues queueIndex).tryAppend_two ht hsmall
    simp only [if_neg hlarge, if_pos hdone, Function.update_self]
    exact .inr ⟨hsmall, trivial, fun i hi => Function.update_of_ne hi _ _, hgains⟩

/-- A channel of queueMessage does what is documented, but for the limit itself. -/
theorem sendsDocumented_of_queueMessage (queues : OutgoingQueues) (channel : SendChannel)
    {messageType : Nat} (ht : messageType < 32) (data : Bytes) (hmax : channel.maxBytes = 1280)
    (hsend : queues.tonkSend channel.number data =
      queues.queueMessage channel.queueIndex messageType data)
    (hqueued : ∀ frames, channel.Queued data frames ↔ frames = [⟨messageType, data⟩]) :
    SendsDocumented queues channel data ↔ data.length ≠ 1280 := by
  unfold SendsDocumented
  simp only [hmax, hsend, hqueued, exists_eq_left]
  rcases queues.queueMessage_cases channel.queueIndex ht data with
    ⟨hlarge, hsame, failure, hfailure, hcode⟩ | ⟨hsmall, hnone, hothers, hgains⟩
  · rw [tonkMaxUnreliableBytes] at hlarge
    by_cases hlimit : data.length ≤ 1280
    · rw [if_pos hlimit, hfailure]
      exact iff_of_false (fun h => Option.some_ne_none _ h.1) (by omega)
    · rw [if_neg hlimit]
      exact iff_of_true ⟨hsame, failure, hfailure, hcode⟩ (by omega)
  · rw [tonkMaxUnreliableBytes] at hsmall
    rw [if_pos (by omega)]
    exact iff_of_true ⟨hnone, hothers, hgains⟩ (by omega)

/-- A channel of QueueReliable does, but for an empty message without room. -/
theorem sendsDocumented_ordered (queues : OutgoingQueues) (channel : Channel) (data : Bytes) :
    SendsDocumented queues (.ordered channel) data ↔
      (data = [] → (queues channel.queueIndex).HasRoom) := by
  unfold SendsDocumented
  simp only [SendChannel.maxBytes, SendChannel.number, SendChannel.queueIndex, SendChannel.Queued,
    tonkSend_ordered, queueReliable, tonkMaxReliableBytes, channel.queueIndex_eq]
  by_cases hlarge : 64000 < data.length
  · have hne : data ≠ [] := by
      rintro rfl
      exact absurd hlarge (by simp)
    simp only [if_pos hlarge, if_neg (Nat.not_le.mpr hlarge)]
    exact iff_of_true ⟨trivial, _, rfl, rfl⟩ fun hnil => absurd hnil hne
  · simp only [if_neg hlarge, if_pos (Nat.le_of_not_lt hlarge), Function.update_self, true_and]
    constructor
    · rintro ⟨-, frames, hsplit, hgains⟩ rfl
      by_contra hroom
      rw [OutgoingQueue.queueReliableLoop_nil hroom] at hgains
      exact OutgoingQueue.not_gains_self hsplit.ne_nil hgains
    · intro hroom
      exact ⟨fun i hi => Function.update_of_ne hi _ _,
        OutgoingQueue.queueReliableLoop_gains _ _ data channel.messageType_lt hroom⟩

/-- In any state of the queues a channel takes exactly the documented lengths, except that an unreliable
or unordered message of the greatest length is turned away, and that an empty message on another channel
is lost without a word where the open buffer has no room for a fragment, or there is none. -/
theorem sendsDocumented_iff (queues : OutgoingQueues) (channel : SendChannel) (data : Bytes) :
    SendsDocumented queues channel data ↔ Sendable queues data channel := by
  cases channel with
  | unreliable =>
    exact queues.sendsDocumented_of_queueMessage .unreliable (by decide) data rfl rfl fun _ => Iff.rfl
  | unordered =>
    exact queues.sendsDocumented_of_queueMessage .unordered (by decide) data rfl rfl fun _ => Iff.rfl
  | ordered channel => exact sendsDocumented_ordered queues channel data

/-- A message of 1280 bytes, and an empty one before there is a buffer. -/
theorem not_sendsDocumented :
    ¬ SendsDocumented (fun _ => .empty) .unreliable (List.replicate 1280 0) ∧
      ¬ SendsDocumented (fun _ => .empty) (.ordered (.reliable 0)) [] := by
  constructor
  · rw [sendsDocumented_of_queueMessage _ .unreliable (show messageTypeUnreliable < 32 by decide) _
      rfl rfl fun _ => Iff.rfl]
    exact fun hlength => hlength List.length_replicate
  · rw [sendsDocumented_ordered]
    intro hroom
    obtain ⟨datagram, hopen, -⟩ := hroom rfl
    cases hopen

end OutgoingQueues

end Tonk.Session
