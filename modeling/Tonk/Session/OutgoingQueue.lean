import Tonk.Protocol.Frame

/-!
`OutgoingQueue` of `TonkineseOutgoing.cpp` and `SessionOutgoing::QueueReliable`, which cuts a
message over as many datagrams as it needs. Allocation is taken to succeed.
-/

set_option autoImplicit false

namespace Tonk.Session
open Protocol

def tonkMaxReliableBytes : Nat := 64000

/-- `outBuffer` is the datagram being filled, of which only the bytes in front of
NextWriteOffset are kept; `queued` runs from OldestQueued to NewestQueued. -/
structure OutgoingQueue where
  outBuffer : Option Bytes
  queued : List Bytes
  queuedBytes : Nat
  deriving DecidableEq, Repr

namespace OutgoingQueue

def empty : OutgoingQueue := ⟨none, [], 0⟩

def write (q : OutgoingQueue) (datagram : Bytes) (f : Frame) : OutgoingQueue :=
  { q with
    outBuffer := some (datagram ++ f.wire)
    queuedBytes := (q.queuedBytes + kMessageFrameBytes + f.messageData.length) % 2 ^ 32 }

def append (q : OutgoingQueue) (messageType : Nat) (messageData : Bytes) : OutgoingQueue × Bool :=
  match q.outBuffer with
  | none => (q, false)
  | some datagram =>
    if datagram.length + (kMessageFrameBytes + messageData.length) > maxMessageSectionBytes then
      (q, false)
    else (q.write datagram ⟨messageType, messageData⟩, true)

/-- Returns the number of message bytes taken, 0 if there is no room. -/
def appendSplitReliable (q : OutgoingQueue) (messageType : Nat) (messageData : Bytes) :
    OutgoingQueue × Nat :=
  match q.outBuffer with
  | none => (q, 0)
  | some datagram =>
    if datagram.length + kMessageFrameBytes + kMessageSplitMinimumBytes >
        maxMessageSectionBytes then (q, 0)
    else if datagram.length + (kMessageFrameBytes + messageData.length) >
        maxMessageSectionBytes then
      let messageBytes := maxMessageSectionBytes - datagram.length - kMessageFrameBytes
      (q.write datagram ⟨messageType, messageData.take messageBytes⟩, messageBytes)
    else
      (q.write datagram ⟨messageType + tonkChannelCount, messageData⟩, messageData.length)

def pushAndGetFreshBuffer (q : OutgoingQueue) : OutgoingQueue :=
  match q.outBuffer with
  | none => { q with outBuffer := some [] }
  | some [] => q
  | some datagram => { q with outBuffer := some [], queued := q.queued ++ [datagram] }

/-- The queue is returned too: with nothing linked, the datagram being filled is pushed first. -/
def flushPeek (q : OutgoingQueue) : OutgoingQueue × Option Bytes :=
  if q.queuedBytes = 0 then (q, none)
  else
    match q.queued with
    | datagram :: _ => (q, some datagram)
    | [] =>
      let q' := q.pushAndGetFreshBuffer
      (q', q'.queued.head?)

def popIsEmpty (q : OutgoingQueue) : OutgoingQueue × Bool :=
  match q.queued with
  | [] => (q, true)
  | datagram :: rest =>
    ({ q with
        queued := rest
        queuedBytes := (q.queuedBytes + 2 ^ 32 - datagram.length) % 2 ^ 32 }, rest.isEmpty)

def popDatagram (q : OutgoingQueue) : OutgoingQueue × Option Bytes :=
  match q.flushPeek with
  | (q', none) => (q', none)
  | (q', some datagram) => (q'.popIsEmpty.1, some datagram)

def pending (q : OutgoingQueue) : List Bytes :=
  q.queued ++ q.outBuffer.toList.filter (· ≠ [])

def HasRoom (q : OutgoingQueue) : Prop :=
  ∃ datagram, q.outBuffer = some datagram ∧
    datagram.length + kMessageFrameBytes + kMessageSplitMinimumBytes ≤ maxMessageSectionBytes

instance (q : OutgoingQueue) : Decidable q.HasRoom :=
  match h : q.outBuffer with
  | none => isFalse (by rintro ⟨d, hd, _⟩; simp [h] at hd)
  | some datagram =>
    decidable_of_iff
      (datagram.length + kMessageFrameBytes + kMessageSplitMinimumBytes ≤ maxMessageSectionBytes)
      ⟨fun hr => ⟨datagram, h, hr⟩, fun ⟨d, hd, hr⟩ => by
        rw [h] at hd
        cases hd
        exact hr⟩

theorem pushAndGetFreshBuffer_outBuffer (q : OutgoingQueue) :
    q.pushAndGetFreshBuffer.outBuffer = some [] := by
  unfold pushAndGetFreshBuffer
  split <;> simp_all

theorem pushAndGetFreshBuffer_hasRoom (q : OutgoingQueue) : q.pushAndGetFreshBuffer.HasRoom :=
  ⟨[], q.pushAndGetFreshBuffer_outBuffer, by decide⟩

theorem appendSplitReliable_cases (q : OutgoingQueue) (messageType : Nat) (messageData : Bytes) :
    (¬ q.HasRoom ∧ q.appendSplitReliable messageType messageData = (q, 0)) ∨
    (∃ datagram n, q.outBuffer = some datagram ∧ kMessageSplitMinimumBytes ≤ n ∧
      n < messageData.length ∧ datagram.length + kMessageFrameBytes + n = maxMessageSectionBytes ∧
      q.appendSplitReliable messageType messageData =
        (q.write datagram ⟨messageType, messageData.take n⟩, n)) ∨
    (∃ datagram, q.outBuffer = some datagram ∧
      datagram.length + kMessageFrameBytes + messageData.length ≤ maxMessageSectionBytes ∧
      q.appendSplitReliable messageType messageData =
        (q.write datagram ⟨messageType + tonkChannelCount, messageData⟩, messageData.length)) := by
  cases hb : q.outBuffer with
  | none =>
    refine .inl ⟨?_, by simp [appendSplitReliable, hb]⟩
    rintro ⟨d, hd, _⟩
    simp [hb] at hd
  | some datagram =>
    by_cases hroom : datagram.length + kMessageFrameBytes + kMessageSplitMinimumBytes >
        maxMessageSectionBytes
    · refine .inl ⟨?_, by simp only [appendSplitReliable, hb, if_pos hroom]⟩
      rintro ⟨d, hd, hr⟩
      rw [hb] at hd
      cases hd
      omega
    · by_cases hfit : datagram.length + (kMessageFrameBytes + messageData.length) >
          maxMessageSectionBytes
      · refine .inr (.inl ⟨datagram, maxMessageSectionBytes - datagram.length -
          kMessageFrameBytes, rfl, by omega, by omega, by omega, ?_⟩)
        simp only [appendSplitReliable, hb, if_neg hroom, if_pos hfit]
      · refine .inr (.inr ⟨datagram, rfl, by omega, ?_⟩)
        simp only [appendSplitReliable, hb, if_neg hroom, if_neg hfit]

/-- The loop of QueueReliable. A turn that takes nothing is followed by one on a fresh buffer. -/
def queueReliableLoop (q : OutgoingQueue) (messageType : Nat) (data : Bytes) : OutgoingQueue :=
  let r := q.appendSplitReliable messageType data
  if data.length ≤ r.2 then r.1
  else queueReliableLoop r.1.pushAndGetFreshBuffer messageType (data.drop r.2)
termination_by 2 * data.length + (if q.HasRoom then 0 else 1)
decreasing_by
  rw [if_pos (pushAndGetFreshBuffer_hasRoom _), List.length_drop]
  rcases q.appendSplitReliable_cases messageType data with
    ⟨hroom, h⟩ | ⟨_, n, _, hn, hlt, _, h⟩ | ⟨_, _, _, h⟩
  all_goals
    rw [h] at *
  · rw [if_neg hroom]; omega
  · simp only [kMessageSplitMinimumBytes] at hn; omega
  · omega

def Contains (q : OutgoingQueue) (fs : List Frame) : Prop :=
  ∃ cut : List (List Frame), q.pending = cut.map wireFrames ∧ cut.flatten = fs ∧
    (∀ f ∈ fs, f.Fits) ∧ ∀ d ∈ q.pending, d ≠ [] ∧ d.length ≤ maxMessageSectionBytes

theorem contains_empty : empty.Contains [] := ⟨[], rfl, rfl, by simp, by simp [empty, pending]⟩

theorem pending_pushAndGetFreshBuffer (q : OutgoingQueue) :
    q.pushAndGetFreshBuffer.pending = q.pending := by
  unfold pushAndGetFreshBuffer
  split <;> simp_all [pending]

theorem Frame.wire_ne_nil (f : Frame) : f.wire ≠ [] := by
  simp [Frame.wire, writeMessageFrameHeader, writeU16LE]

theorem Contains.write {q : OutgoingQueue} {fs : List Frame} (h : q.Contains fs)
    {datagram : Bytes} (hb : q.outBuffer = some datagram) {f : Frame} (hf : f.Fits)
    (hroom : datagram.length + kMessageFrameBytes + f.messageData.length ≤
      maxMessageSectionBytes) : (q.write datagram f).Contains (fs ++ [f]) := by
  obtain ⟨cut, hp, hfs, hfit, hsize⟩ := h
  have hall : ∀ g ∈ fs ++ [f], g.Fits := by
    intro g hg
    rcases List.mem_append.mp hg with hg | hg
    · exact hfit g hg
    · rw [List.mem_singleton.mp hg]; exact hf
  have hne : datagram ++ f.wire ≠ [] := by simp [Frame.wire_ne_nil]
  have hpw : (q.write datagram f).pending = q.queued ++ [datagram ++ f.wire] := by
    simp [pending, OutgoingQueue.write, hne]
  have hsize' : ∀ d ∈ (q.write datagram f).pending, d ≠ [] ∧
      d.length ≤ maxMessageSectionBytes := by
    intro d hd
    rw [hpw, List.mem_append, List.mem_singleton] at hd
    rcases hd with hd | rfl
    · exact hsize d (List.mem_append_left _ hd)
    · refine ⟨hne, ?_⟩
      rw [List.length_append, Frame.wire_length]
      omega
  by_cases hd : datagram = []
  · refine ⟨cut ++ [[f]], ?_, by simp [hfs], hall, hsize'⟩
    have hq : q.pending = q.queued := by simp [pending, hb, hd]
    rw [hpw, List.map_append, ← hp, hq, hd]
    simp
  · have hq : q.pending = q.queued ++ [datagram] := by simp [pending, hb, hd]
    rw [hq] at hp
    obtain ⟨cut₀, last, hcut, h₀, h₁⟩ := List.map_eq_append_iff.mp hp.symm
    obtain ⟨gs, hlast, hgs⟩ : ∃ gs, last = [gs] ∧ wireFrames gs = datagram := by
      cases last with
      | nil => simp at h₁
      | cons gs tail =>
        simp only [List.map_cons, List.cons.injEq, List.map_eq_nil_iff] at h₁
        exact ⟨gs, by rw [h₁.2], h₁.1⟩
    refine ⟨cut₀ ++ [gs ++ [f]], ?_, ?_, hall, hsize'⟩
    · rw [hpw, List.map_append, h₀, ← hgs]
      simp
    · rw [← hfs, hcut, hlast]
      simp

theorem Contains.push {q : OutgoingQueue} {fs : List Frame} (h : q.Contains fs) :
    q.pushAndGetFreshBuffer.Contains fs := by
  unfold Contains
  rw [pending_pushAndGetFreshBuffer]
  exact h

theorem popDatagram_pending (q : OutgoingQueue) :
    match q.popDatagram with
    | (q', none) => q'.pending = q.pending
    | (q', some datagram) => q.pending = datagram :: q'.pending := by
  have hpush := q.pending_pushAndGetFreshBuffer
  unfold popDatagram flushPeek
  by_cases hbytes : q.queuedBytes = 0
  · simp [hbytes]
  · cases hq : q.queued with
    | cons datagram rest => simp [hbytes, popIsEmpty, hq, pending]
    | nil =>
      cases hpq : q.pushAndGetFreshBuffer.queued with
      | nil => simp [hbytes, hpq, hpush]
      | cons datagram rest =>
        simp only [if_neg hbytes, hpq, List.head?_cons, popIsEmpty]
        rw [← hpush, pending, hpq]
        simp [pending]

theorem Contains.pop {q q' : OutgoingQueue} {fs : List Frame} {datagram : Bytes}
    (h : q.Contains fs) (hpop : q.popDatagram = (q', some datagram)) :
    ∃ gs fs', fs = gs ++ fs' ∧ datagram = wireFrames gs ∧
      (datagram ≠ [] ∧ datagram.length ≤ maxMessageSectionBytes) ∧ q'.Contains fs' := by
  obtain ⟨cut, hp, hfs, hfit, hsize⟩ := h
  have hpend := q.popDatagram_pending
  rw [hpop] at hpend
  simp only at hpend
  have hdatagram := hsize datagram (by rw [hpend]; exact List.mem_cons_self)
  have hsize' : ∀ d ∈ q'.pending, d ≠ [] ∧ d.length ≤ maxMessageSectionBytes :=
    fun d hd => hsize d (by rw [hpend]; exact List.mem_cons_of_mem _ hd)
  rw [hp] at hpend
  cases cut with
  | nil => simp at hpend
  | cons gs cut' =>
    simp only [List.map_cons, List.cons.injEq] at hpend
    refine ⟨gs, cut'.flatten, by simp [← hfs], hpend.1.symm, hdatagram, cut', hpend.2.symm, rfl,
      ?_, hsize'⟩
    intro f hf
    exact hfit f (by rw [← hfs, List.flatten_cons]; exact List.mem_append_right _ hf)

theorem Contains.pop_none {q q' : OutgoingQueue} {fs : List Frame}
    (h : q.Contains fs) (hpop : q.popDatagram = (q', none)) : q'.Contains fs := by
  have hpend := q.popDatagram_pending
  rw [hpop] at hpend
  simp only at hpend
  unfold Contains
  rw [hpend]
  exact h

/-- `fs` is a message cut into frames: all but the last of type `messageType`, and the last one
marked as final. -/
inductive Split (messageType : Nat) : Bytes → List Frame → Prop where
  | final (data : Bytes) : Split messageType data [⟨messageType + tonkChannelCount, data⟩]
  | part (data rest : Bytes) (fs : List Frame) :
      Split messageType rest fs → Split messageType (data ++ rest) (⟨messageType, data⟩ :: fs)

/-- The frames a message leaves in the queue. An empty message is dropped when there is no room. -/
def Leaves (messageType : Nat) (data : Bytes) (gs : List Frame) : Prop :=
  Split messageType data gs ∨ (data = [] ∧ gs = [])

theorem queueReliableLoop_contains (q : OutgoingQueue) (messageType : Nat) (data : Bytes)
    (ht : messageType + tonkChannelCount < 32) (fs : List Frame) (h : q.Contains fs) :
    ∃ gs, Leaves messageType data gs ∧
      (q.queueReliableLoop messageType data).Contains (fs ++ gs) := by
  have hmax : maxMessageSectionBytes = 1306 := rfl
  induction q, data using queueReliableLoop.induct messageType generalizing fs with
  | case1 q data r hdone =>
    rw [queueReliableLoop, if_pos hdone]
    rcases q.appendSplitReliable_cases messageType data with
      ⟨_, hc⟩ | ⟨_, n, _, _, hlt, _, hc⟩ | ⟨datagram, hb, hfit, hc⟩
    all_goals simp only [r, hc] at hdone ⊢
    · have hnil : data = [] := List.length_eq_zero_iff.mp (Nat.le_zero.mp hdone)
      exact ⟨[], .inr ⟨hnil, rfl⟩, by simpa using h⟩
    · omega
    · refine ⟨_, .inl (.final data), h.write hb ⟨ht, ?_⟩ hfit⟩
      show data.length < 2048
      omega
  | case2 q data r hmore ih =>
    rw [queueReliableLoop, if_neg hmore]
    have hrest : data.drop r.2 ≠ [] := by simp [List.drop_eq_nil_iff]; omega
    rcases q.appendSplitReliable_cases messageType data with
      ⟨_, hc⟩ | ⟨datagram, n, hb, _, _, hfull, hc⟩ | ⟨_, _, _, hc⟩
    all_goals
      simp only [r, hc] at hmore ih hrest ⊢
    · obtain ⟨gs, hs, hgs⟩ := ih fs h.push
      exact ⟨gs, by simpa using hs, hgs⟩
    · have hf : (Frame.mk messageType (data.take n)).Fits := by
        constructor
        · show messageType < 32
          omega
        · simp only [List.length_take]
          omega
      have hroom : datagram.length + kMessageFrameBytes + (data.take n).length ≤
          maxMessageSectionBytes := by
        rw [List.length_take]
        omega
      obtain ⟨gs, hs, hgs⟩ := ih _ (h.write hb hf hroom).push
      refine ⟨⟨messageType, data.take n⟩ :: gs, .inl ?_, by simpa using hgs⟩
      have hp := Split.part (data.take n) _ gs (hs.resolve_right fun hnil => hrest hnil.1)
      rwa [List.take_append_drop] at hp
    · omega

end OutgoingQueue
end Tonk.Session
