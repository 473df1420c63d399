import Tonk.Lib.Run
import Tonk.Session.OutgoingQueue

/-!
The bytes of an outgoing queue over its whole life: what goes in, what waits, what comes out, and the
counter of the bytes that wait. Here an allocation may fail.
-/

set_option autoImplicit false

namespace Tonk.Session
open Protocol Transition

namespace OutgoingQueue

def freshBuffer (allocated : Bool) : Option Bytes := if allocated then some [] else none

/-- PushAndGetFreshBuffer where the allocation may fail; false stands for an OutOfMemory result. -/
def pushAllocating (q : OutgoingQueue) (allocated : Bool) : OutgoingQueue × Bool :=
  match q.outBuffer with
  | none => ({ q with outBuffer := freshBuffer allocated }, allocated)
  | some [] => (q, true)
  | some datagram =>
    ({ q with outBuffer := freshBuffer allocated, queued := q.queued ++ [datagram] }, allocated)

theorem pushAllocating_true (q : OutgoingQueue) :
    q.pushAllocating true = (q.pushAndGetFreshBuffer, true) := by
  unfold pushAllocating pushAndGetFreshBuffer
  rcases hopen : q.outBuffer with _ | (_ | ⟨b, bs⟩) <;> rfl

@[simp] theorem freshBuffer_getD (allocated : Bool) : (freshBuffer allocated).getD [] = [] := by
  cases allocated <;> rfl

def flushPeekAllocating (q : OutgoingQueue) (allocated : Bool) : OutgoingQueue × Option Bytes :=
  if q.queuedBytes = 0 then (q, none)
  else
    match q.queued with
    | datagram :: _ => (q, some datagram)
    | [] =>
      let q' := (q.pushAllocating allocated).1
      (q', q'.queued.head?)

theorem flushPeekAllocating_true (q : OutgoingQueue) :
    q.flushPeekAllocating true = q.flushPeek := by
  by_cases hempty : q.queuedBytes = 0
  · rw [flushPeekAllocating, flushPeek, if_pos hempty, if_pos hempty]
  · rw [flushPeekAllocating, flushPeek, if_neg hempty, if_neg hempty]
    cases q.queued with
    | nil => exact congrArg (fun r => (r.1, r.1.queued.head?)) q.pushAllocating_true
    | cons datagram rest => rfl

def totalBytes (q : OutgoingQueue) : Nat :=
  (q.queued.map List.length).sum + (q.outBuffer.getD []).length

def splitFrames (q : OutgoingQueue) (messageType : Nat) (messageData : Bytes) : List Frame :=
  let taken := (q.appendSplitReliable messageType messageData).2
  if q.HasRoom then
    if taken < messageData.length then [⟨messageType, messageData.take taken⟩]
    else [⟨messageType + tonkChannelCount, messageData⟩]
  else []

section Bytes

variable {q : OutgoingQueue} {datagram : Bytes}

theorem flatten_pending (q : OutgoingQueue) :
    q.pending.flatten = q.queued.flatten ++ q.outBuffer.getD [] := by
  unfold pending
  rw [List.flatten_append]
  cases q.outBuffer with
  | none => rfl
  | some datagram => cases datagram <;> simp

theorem totalBytes_eq (q : OutgoingQueue) : q.totalBytes = q.pending.flatten.length := by
  rw [flatten_pending, List.length_append, List.length_flatten, totalBytes]

theorem flatten_write (hopen : q.outBuffer = some datagram) (f : Frame) :
    (q.write datagram f).pending.flatten = q.pending.flatten ++ f.wire := by
  rw [flatten_pending, flatten_pending, hopen]
  simp [write]

theorem flatten_pushAllocating (q : OutgoingQueue) (allocated : Bool) :
    (q.pushAllocating allocated).1.pending.flatten = q.pending.flatten := by
  rw [flatten_pending, flatten_pending]
  unfold pushAllocating
  split
  · next hopen => simp [hopen]
  · rfl
  · next hopen => simp [hopen]

theorem flatten_flushPeekAllocating (q : OutgoingQueue) (allocated : Bool) :
    (q.flushPeekAllocating allocated).1.pending.flatten = q.pending.flatten := by
  unfold flushPeekAllocating
  split
  · rfl
  · split
    · rfl
    · exact flatten_pushAllocating q allocated

end Bytes

structure Accounted (q : OutgoingQueue) : Prop where
  counted : q.queuedBytes = q.totalBytes % 2 ^ 32
  fits : ∀ d ∈ q.queued ++ q.outBuffer.toList, d.length ≤ maxMessageSectionBytes

section Steps

variable {q : OutgoingQueue} {datagram : Bytes}

theorem accounted_empty : empty.Accounted := ⟨rfl, by simp [empty]⟩

theorem Accounted.write (h : q.Accounted) (hopen : q.outBuffer = some datagram) {f : Frame}
    (hroom : datagram.length + (kMessageFrameBytes + f.messageData.length) ≤
      maxMessageSectionBytes) : (q.write datagram f).Accounted where
  counted := by
    have htotal : (q.write datagram f).totalBytes =
        q.totalBytes + (kMessageFrameBytes + f.messageData.length) := by
      rw [totalBytes_eq, totalBytes_eq, flatten_write hopen, List.length_append, Frame.wire_length]
    rw [htotal, OutgoingQueue.write, h.counted]
    simp only
    omega
  fits := by
    intro d hd
    simp only [OutgoingQueue.write, Option.toList_some, List.mem_append, List.mem_singleton] at hd
    rcases hd with hd | rfl
    · exact h.fits d (List.mem_append_left _ hd)
    · rw [List.length_append, Frame.wire_length]
      exact hroom

theorem Accounted.append (h : q.Accounted) (messageType : Nat) (messageData : Bytes) :
    (q.append messageType messageData).1.Accounted ∧
      (q.append messageType messageData).1.pending.flatten = q.pending.flatten ++
        if (q.append messageType messageData).2 then Frame.wire ⟨messageType, messageData⟩
        else [] := by
  unfold OutgoingQueue.append
  split
  · exact ⟨h, by simp⟩
  · next datagram hopen =>
    split
    · exact ⟨h, by simp⟩
    · exact ⟨h.write hopen (by simp only; omega), flatten_write hopen _⟩

theorem appendSplitReliable_of_not_hasRoom (h : ¬ q.HasRoom) {messageType : Nat}
    {messageData : Bytes} : q.appendSplitReliable messageType messageData = (q, 0) := by
  unfold OutgoingQueue.appendSplitReliable
  split
  · rfl
  · next datagram hopen =>
    rw [if_pos]
    by_contra hroom
    exact h ⟨datagram, hopen, by omega⟩

theorem Accounted.appendSplitReliable (h : q.Accounted) (messageType : Nat) (messageData : Bytes) :
    (q.appendSplitReliable messageType messageData).1.Accounted ∧
      (q.appendSplitReliable messageType messageData).1.pending.flatten = q.pending.flatten ++
        wireFrames (q.splitFrames messageType messageData) := by
  unfold splitFrames
  by_cases hroom : q.HasRoom
  · rcases q.appendSplitReliable_cases messageType messageData with
      ⟨hfull, -⟩ | ⟨datagram, n, hopen, hn, hlt, hfull, hcall⟩ | ⟨datagram, hopen, hfit, hcall⟩
    · exact absurd hroom hfull
    · simp only [hcall, if_pos hroom, if_pos hlt]
      refine ⟨h.write hopen ?_, ?_⟩
      · rw [List.length_take]
        omega
      · rw [flatten_write hopen]
        simp [wireFrames]
    · simp only [hcall, if_pos hroom, lt_irrefl, if_false]
      refine ⟨h.write hopen (by simp only; omega), ?_⟩
      rw [flatten_write hopen]
      simp [wireFrames]
  · simp only [appendSplitReliable_of_not_hasRoom hroom, if_neg hroom]
    exact ⟨h, by simp [wireFrames]⟩

theorem Accounted.pushAllocating (h : q.Accounted) (allocated : Bool) :
    (q.pushAllocating allocated).1.Accounted where
  counted := by
    have hsame : (q.pushAllocating allocated).1.queuedBytes = q.queuedBytes := by
      unfold OutgoingQueue.pushAllocating
      split <;> rfl
    rw [hsame, h.counted, totalBytes_eq, totalBytes_eq, flatten_pushAllocating]
  fits := by
    intro d hd
    have hfresh : ∀ d ∈ (freshBuffer allocated).toList, d.length ≤ maxMessageSectionBytes := by
      cases allocated <;> simp [freshBuffer]
    unfold OutgoingQueue.pushAllocating at hd
    split at hd
    · rcases List.mem_append.mp hd with hd | hd
      · exact h.fits d (List.mem_append_left _ hd)
      · exact hfresh d hd
    · exact h.fits d hd
    · next hopen =>
      rcases List.mem_append.mp hd with hd | hd
      · exact h.fits d (by simpa [hopen] using hd)
      · exact hfresh d hd

theorem Accounted.flushPeekAllocating (h : q.Accounted) (allocated : Bool) :
    (q.flushPeekAllocating allocated).1.Accounted := by
  unfold OutgoingQueue.flushPeekAllocating
  split
  · exact h
  · split
    · exact h
    · exact h.pushAllocating allocated

theorem Accounted.popIsEmpty (h : q.Accounted) {rest : List Bytes}
    (hqueued : q.queued = datagram :: rest) :
    q.popIsEmpty.1.Accounted ∧ q.pending.flatten = datagram ++ q.popIsEmpty.1.pending.flatten := by
  have hpop : q.popIsEmpty.1 = { q with
      queued := rest
      queuedBytes := (q.queuedBytes + 2 ^ 32 - datagram.length) % 2 ^ 32 } := by
    unfold OutgoingQueue.popIsEmpty
    rw [hqueued]
  have hlimit : datagram.length ≤ maxMessageSectionBytes := h.fits datagram (by simp [hqueued])
  have hmax : maxMessageSectionBytes = 1306 := rfl
  have hcounted := h.counted
  have htotal : q.totalBytes = datagram.length + q.popIsEmpty.1.totalBytes := by
    simp only [hpop, totalBytes, hqueued, List.map_cons, List.sum_cons]
    omega
  refine ⟨⟨?_, ?_⟩, ?_⟩
  · rw [hpop] at htotal ⊢
    simp only at htotal ⊢
    omega
  · intro d hd
    rw [hpop] at hd
    refine h.fits d ?_
    rw [hqueued]
    exact List.mem_cons_of_mem _ hd
  · rw [flatten_pending, flatten_pending, hpop, hqueued]
    simp

theorem flushPeekAllocating_isSome (h : q.Accounted) (allocated : Bool) :
    (q.flushPeekAllocating allocated).2.isSome ↔ q.queuedBytes ≠ 0 := by
  unfold flushPeekAllocating
  split
  · next hzero => simp [hzero]
  · next hpos =>
    cases hqueued : q.queued with
    | cons datagram rest => simp [hpos]
    | nil =>
      have hcounted := h.counted
      unfold totalBytes at hcounted
      rw [hqueued] at hcounted
      unfold pushAllocating
      cases hopen : q.outBuffer with
      | none =>
        rw [hopen] at hcounted
        exact absurd hcounted (by simpa using hpos)
      | some datagram =>
        cases datagram with
        | nil =>
          rw [hopen] at hcounted
          exact absurd hcounted (by simpa using hpos)
        | cons b bs => simp [hqueued, hpos]

end Steps

section Runs

structure Trace where
  queue : OutgoingQueue
  written : Bytes
  popped : List Bytes

inductive Event where
  | append (messageType : Nat) (messageData : Bytes)
  | appendSplitReliable (messageType : Nat) (messageData : Bytes)
  | pushAndGetFreshBuffer (allocated : Bool)
  | flushPeek (allocated : Bool)
  | pop

namespace Trace

def initial : Trace := ⟨empty, [], []⟩

def apply (s : Trace) : Event → Trace
  | .append messageType messageData =>
    let (queue, appended) := s.queue.append messageType messageData
    { s with
      queue := queue
      written := s.written ++ if appended then Frame.wire ⟨messageType, messageData⟩ else [] }
  | .appendSplitReliable messageType messageData =>
    { s with
      queue := (s.queue.appendSplitReliable messageType messageData).1
      written := s.written ++ wireFrames (s.queue.splitFrames messageType messageData) }
  | .pushAndGetFreshBuffer allocated => { s with queue := (s.queue.pushAllocating allocated).1 }
  | .flushPeek allocated => { s with queue := (s.queue.flushPeekAllocating allocated).1 }
  | .pop => { s with queue := s.queue.popIsEmpty.1, popped := s.popped ++ s.queue.queued.take 1 }

/-- What the callers give. queueMessage and QueueReliable turn longer messages away, to avoid integer
overflows; PopIsEmpty is called for a datagram that FlushPeek has returned. -/
def Allowed (s : Trace) : Event → Prop
  | .append _ messageData => messageData.length ≤ tonkMaxReliableBytes
  | .appendSplitReliable _ messageData => messageData.length ≤ tonkMaxReliableBytes
  | .pop => s.queue.queued ≠ []
  | _ => True

def Step (s : Trace) (e : Event) (t : Trace) : Prop := s.Allowed e ∧ t = s.apply e

structure Balanced (s : Trace) : Prop where
  accounted : s.queue.Accounted
  conserved : s.popped.flatten ++ s.queue.pending.flatten = s.written
  fits : ∀ d ∈ s.popped, d.length ≤ maxMessageSectionBytes

theorem Balanced.step {s t : Trace} {e : Event} (h : s.Balanced) (hstep : Step s e t) :
    t.Balanced := by
  obtain ⟨hallowed, rfl⟩ := hstep
  have hconserved := h.conserved
  cases e with
  | append messageType messageData =>
    obtain ⟨haccounted, hflatten⟩ := h.accounted.append messageType messageData
    refine ⟨haccounted, ?_, h.fits⟩
    simp only [apply]
    rw [hflatten, ← List.append_assoc, hconserved]
  | appendSplitReliable messageType messageData =>
    obtain ⟨haccounted, hflatten⟩ := h.accounted.appendSplitReliable messageType messageData
    refine ⟨haccounted, ?_, h.fits⟩
    simp only [apply]
    rw [hflatten, ← List.append_assoc, hconserved]
  | pushAndGetFreshBuffer allocated =>
    refine ⟨h.accounted.pushAllocating allocated, ?_, h.fits⟩
    simp only [apply]
    rw [flatten_pushAllocating, hconserved]
  | flushPeek allocated =>
    refine ⟨h.accounted.flushPeekAllocating allocated, ?_, h.fits⟩
    simp only [apply]
    rw [flatten_flushPeekAllocating, hconserved]
  | pop =>
    obtain ⟨datagram, rest, hqueued⟩ := List.exists_cons_of_ne_nil hallowed
    obtain ⟨haccounted, hflatten⟩ := h.accounted.popIsEmpty hqueued
    have hpopped : (s.apply .pop).popped = s.popped ++ [datagram] := by
      simp only [apply, hqueued, List.take_succ_cons, List.take_zero]
    refine ⟨haccounted, ?_, ?_⟩
    · rw [hpopped]
      show _ ++ s.queue.popIsEmpty.1.pending.flatten = s.written
      rw [← hconserved, hflatten]
      simp
    · intro d hd
      rw [hpopped, List.mem_append, List.mem_singleton] at hd
      rcases hd with hd | rfl
      · exact h.fits d hd
      · exact h.accounted.fits d (by simp [hqueued])

theorem balanced_of_run {events : List Event} {s : Trace} (h : Run Step initial events s) :
    s.Balanced := by
  refine h.invariant ?_ fun t e u ht hstep => ht.step hstep
  exact ⟨accounted_empty, rfl, by simp [initial]⟩

def Counts (q : OutgoingQueue) : Prop :=
  q.queuedBytes = q.totalBytes ∧
    ∀ allocated, ((q.flushPeekAllocating allocated).2.isSome ↔ 0 < q.totalBytes)

theorem counts_iff {q : OutgoingQueue} (h : q.Accounted) : Counts q ↔ q.totalBytes < 2 ^ 32 := by
  have hcounted := h.counted
  constructor
  · rintro ⟨heq, -⟩
    omega
  · intro hlt
    refine ⟨by omega, fun allocated => ?_⟩
    rw [flushPeekAllocating_isSome h]
    omega

/-- In every run the bytes come out as they went in, no buffer is over the limit, and the counter and
FlushPeek are right if and only if fewer than 2^32 bytes wait. -/
theorem accounting_iff {events : List Event} {s : Trace} (h : Run Step initial events s) :
    s.popped.flatten ++ s.queue.pending.flatten = s.written ∧
      (∀ d ∈ s.popped ++ (s.queue.queued ++ s.queue.outBuffer.toList),
        d.length ≤ maxMessageSectionBytes) ∧
      (Counts s.queue ↔ s.queue.totalBytes < 2 ^ 32) := by
  have hbalanced := balanced_of_run h
  refine ⟨hbalanced.conserved, ?_, counts_iff hbalanced.accounted⟩
  intro d hd
  rcases List.mem_append.mp hd with hd | hd
  · exact hbalanced.fits d hd
  · exact hbalanced.accounted.fits d hd

/-- A message written, sent and taken off the queue. -/
theorem accounting_iff_sent : ∃ s : Trace,
    s.popped.flatten ++ s.queue.pending.flatten = s.written ∧ s.popped = [[3, 16, 1, 2, 3]] := by
  have hrun : ∃ s, Run Step initial [.pushAndGetFreshBuffer true, .append 2 [1, 2, 3],
      .flushPeek true, .pop] s ∧ s.popped = [[3, 16, 1, 2, 3]] :=
    ⟨_, Run.snoc (a := Event.pop) (Run.snoc (a := Event.flushPeek true)
      (Run.snoc (a := Event.append 2 [1, 2, 3])
        (Run.snoc (a := Event.pushAndGetFreshBuffer true) (Run.nil initial) ⟨trivial, rfl⟩)
        ⟨by unfold Allowed; decide, rfl⟩) ⟨trivial, rfl⟩) ⟨by unfold Allowed; decide, rfl⟩, by decide⟩
  obtain ⟨s, hrun, hpopped⟩ := hrun
  exact ⟨s, (accounting_iff hrun).1, hpopped⟩

theorem exists_filled (n : Nat) :
    ∃ events s, Run Step initial events s ∧ s.queue.totalBytes = n * 1024 := by
  induction n with
  | zero => exact ⟨[], initial, .nil _, rfl⟩
  | succ n ih =>
    obtain ⟨events, s, hrun, htotal⟩ := ih
    obtain ⟨messageData, hlength⟩ : ∃ messageData : Bytes, messageData.length = 1022 :=
      ⟨List.replicate 1022 0, List.length_replicate⟩
    have hpush : Step s (.pushAndGetFreshBuffer true) (s.apply (.pushAndGetFreshBuffer true)) :=
      ⟨trivial, rfl⟩
    have hopen : (s.apply (.pushAndGetFreshBuffer true)).queue.outBuffer = some [] := by
      simp only [apply, pushAllocating_true]
      exact pushAndGetFreshBuffer_outBuffer s.queue
    generalize hnext : s.apply (.pushAndGetFreshBuffer true) = t at hpush hopen
    have hlimit : messageData.length ≤ tonkMaxReliableBytes := by rw [hlength]; decide
    have happend : Step t (.append 3 messageData) (t.apply (.append 3 messageData)) :=
      ⟨hlimit, rfl⟩
    refine ⟨_, _, .snoc (.snoc hrun hpush) happend, ?_⟩
    have hsame : t.queue.totalBytes = n * 1024 := by
      rw [← htotal, ← hnext, totalBytes_eq, totalBytes_eq]
      exact congrArg List.length (flatten_pushAllocating s.queue true)
    have hroom : ¬ ([] : Bytes).length + (kMessageFrameBytes + messageData.length) >
        maxMessageSectionBytes := by
      rw [hlength]
      decide
    have hwrite : (t.apply (.append 3 messageData)).queue = t.queue.write [] ⟨3, messageData⟩ := by
      simp only [apply, append, hopen, if_neg hroom]
    rw [hwrite, totalBytes_eq, flatten_write hopen, List.length_append, ← totalBytes_eq, hsame,
      Frame.wire_length, hlength, Nat.succ_mul]
    rfl

/-- With 2^32 bytes waiting the counter is zero, and FlushPeek returns nothing. -/
theorem not_accounting : ¬ ∀ events s, Run Step initial events s → Counts s.queue := by
  intro hall
  obtain ⟨events, s, hrun, htotal⟩ := exists_filled (2 ^ 22)
  have hlt := (counts_iff (balanced_of_run hrun).accounted).mp (hall events s hrun)
  rw [htotal] at hlt
  exact absurd hlt (by decide)

end Trace
end Runs

end OutgoingQueue
end Tonk.Session
