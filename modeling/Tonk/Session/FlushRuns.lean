import Tonk.Session.Datagram
import Tonk.Session.Flush
import Tonk.Session.QueueAccounting

/-!
`SessionOutgoing::Flush` from the queues to the datagrams, turn by turn: messages may be queued between
two turns, and a turn may fail. Each datagram is followed by the pieces it was put together from.
-/

set_option autoImplicit false

namespace Tonk.Session
open Protocol

structure FlushConfig where
  enablePadding : Bool
  enableCompression : Bool

/-- A piece of a datagram as it is sent, the queue it comes from, and the bytes of that queue that it
stands for. -/
structure Part where
  queueIndex : QueueIndex
  wire : Bytes
  content : Bytes

structure Emitted where
  messages : Bytes
  original : Option (Nat × Bytes)
  parts : List Part

inductive FlushError where
  | outOfMemory
  | compress (error : ZstdError)
  | encoderAdd

/-- Where Flush is: in front of a queue's loop, in it, behind the loops, or back at its caller. -/
inductive FlushPhase where
  | enter (queueIndex : QueueIndex)
  | loop (queueIndex : QueueIndex)
  | doneSending
  | returned (error : Option FlushError)

/-- What a turn finds outside: the sender's control, the allocations of a fresh buffer, of the first
combining buffer and of the next one, whether siamese_encoder_add finds memory, and PaddingPRNG. -/
structure FlushTurn where
  available : Bool
  freshBuffer : Bool
  combinedBuffer : Bool
  newCombined : Bool
  encoderAdd : Bool
  random : Nat

/-- The queues, the compressor and the room in the FEC encoder, the locals of Flush, and what it has sent
and taken off the queues. -/
structure FlushRun where
  queues : QueueIndex → OutgoingQueue
  compressor : RingBuffer
  remainingSlots : Nat
  finalUnreliable : Option Bytes
  combined : Option Bytes
  parts : List Part
  reliableOffset : Nat
  prevCompressFailed : Bool
  phase : FlushPhase
  emitted : List Emitted
  dequeued : QueueIndex → Bytes

namespace FlushRun

def fail (s : FlushRun) (error : FlushError) : FlushRun :=
  { s with phase := .returned (some error) }

def takeNext (s : FlushRun) (queueIndex : QueueIndex) (freshBuffer : Bool) :
    FlushRun × Option (Bytes × Bool) :=
  match (s.queues queueIndex).flushPeekAllocating freshBuffer with
  | (queue, none) => ({ s with queues := Function.update s.queues queueIndex queue }, none)
  | (queue, some datagram) =>
    ({ s with
        queues := Function.update s.queues queueIndex queue.popIsEmpty.1
        dequeued := Function.update s.dequeued queueIndex (s.dequeued queueIndex ++ datagram) },
      some (datagram, queue.popIsEmpty.2))

def sendQueuedDatagram (config : FlushConfig) (s : FlushRun) (random : Nat) (messages : Bytes)
    (original : Option (Nat × Bytes)) (parts : List Part) : FlushRun :=
  let padding := paddingFrame config.enablePadding random messages.length
  { s with emitted := s.emitted ++ [⟨messages ++ padding, original, parts⟩] }

def sendQueuedReliable (config : FlushConfig) (s : FlushRun) (t : FlushTurn) :
    Except FlushError FlushRun :=
  let messages := s.combined.getD []
  if messages.length ≤ s.reliableOffset then
    .ok (s.sendQueuedDatagram config t.random messages none s.parts)
  else if s.remainingSlots = 0 ∨ !t.encoderAdd then .error .encoderAdd
  else
    let original := (s.reliableOffset, messages.drop s.reliableOffset)
    .ok ({ s with remainingSlots := s.remainingSlots - 1 }.sendQueuedDatagram config t.random messages
      (some original) s.parts)

def openCombined (s : FlushRun) : FlushRun :=
  match s.combined with
  | some _ => s
  | none =>
    match s.finalUnreliable with
    | none => { s with combined := some [] }
    | some unreliable =>
      { s with
        combined := some unreliable
        parts := [⟨.unreliable, unreliable, unreliable⟩]
        reliableOffset := unreliable.length
        finalUnreliable := none }

def append (s : FlushRun) (part : Part) : FlushRun :=
  { s with
    combined := some (s.combined.getD [] ++ part.wire)
    parts := s.parts ++ [part] }

def restart (s : FlushRun) : FlushRun :=
  { s with combined := some [], parts := [], reliableOffset := 0, prevCompressFailed := false }

def storeDatagram (config : FlushConfig) (s : FlushRun) (t : FlushTurn) (queueIndex : QueueIndex)
    (syncOverhead : Nat) (datagram : Bytes) : FlushRun :=
  if maxMessageSectionBytes < (s.combined.getD []).length + datagram.length + syncOverhead then
    match s.sendQueuedReliable config t with
    | .error error => s.fail error
    | .ok s =>
      if t.newCombined then s.restart.append ⟨queueIndex, datagram, datagram⟩
      else s.fail .outOfMemory
  else if syncOverhead ≠ 0 then
    (s.append ⟨queueIndex, writeMessageFrameHeader messageTypeCompressed 0, []⟩).append
      ⟨queueIndex, datagram, datagram⟩
  else s.append ⟨queueIndex, datagram, datagram⟩

def storeCompressed (config : FlushConfig) (s : FlushRun) (t : FlushTurn) (queueIndex : QueueIndex)
    (datagram written : Bytes) : FlushRun :=
  let part : Part := ⟨queueIndex,
    writeMessageFrameHeader messageTypeCompressed written.length ++ written, datagram⟩
  let s := { s with prevCompressFailed := false }
  if (s.combined.getD []).length + part.wire.length ≤ maxMessageSectionBytes then s.append part
  else if t.newCombined then
    match s.sendQueuedReliable config t with
    | .error error => s.fail error
    | .ok s => s.restart.append part
  else s.fail .outOfMemory

def combine (z : Zstd) (config : FlushConfig) (s : FlushRun) (t : FlushTurn)
    (queueIndex : QueueIndex) (datagram : Bytes) : FlushRun :=
  if s.combined = none ∧ !t.combinedBuffer then s.fail .outOfMemory
  else
    let s := s.openCombined
    if queueIndex ≠ .unmetered ∧ config.enableCompression then
      match compress z s.compressor datagram with
      | .error error => s.fail (.compress error)
      | .ok (compressor, some written) =>
        { s with compressor := compressor }.storeCompressed config t queueIndex datagram written
      | .ok (compressor, none) =>
        let syncOverhead := if s.prevCompressFailed then kMessageFrameBytes else 0
        { s with compressor := compressor, prevCompressFailed := true }.storeDatagram config t
          queueIndex syncOverhead datagram
    else s.storeDatagram config t queueIndex 0 datagram

def nextPhase : QueueIndex → FlushPhase
  | .unreliable => .enter .unmetered
  | .unmetered => .enter .reliable
  | .reliable => .enter .lowPri
  | .lowPri => .doneSending

def turnUnreliable (config : FlushConfig) (s : FlushRun) (t : FlushTurn) : FlushRun :=
  match s.takeNext .unreliable t.freshBuffer with
  | (s, none) => { s with phase := nextPhase .unreliable }
  | (s, some (datagram, true)) =>
    { s with finalUnreliable := some datagram, phase := nextPhase .unreliable }
  | (s, some (datagram, false)) =>
    s.sendQueuedDatagram config t.random datagram none [⟨.unreliable, datagram, datagram⟩]

def turnReliable (z : Zstd) (config : FlushConfig) (s : FlushRun) (t : FlushTurn)
    (queueIndex : QueueIndex) : FlushRun :=
  if queueIndex ≠ .unmetered ∧ !t.available then { s with phase := .doneSending }
  else if s.remainingSlots ≤ 2 then { s with phase := .doneSending }
  else
    match s.takeNext queueIndex t.freshBuffer with
    | (s, none) => { s with phase := nextPhase queueIndex }
    | (s, some (datagram, _)) => s.combine z config t queueIndex datagram

def finish (config : FlushConfig) (s : FlushRun) (t : FlushTurn) : FlushRun :=
  let s :=
    match s.finalUnreliable with
    | none => s
    | some datagram =>
      s.sendQueuedDatagram config t.random datagram none [⟨.unreliable, datagram, datagram⟩]
  match s.combined with
  | none => { s with phase := .returned none }
  | some [] => { s with phase := .returned none }
  | some _ =>
    match s.sendQueuedReliable config t with
    | .error error => s.fail error
    | .ok s => { s with phase := .returned none }

def turn (z : Zstd) (config : FlushConfig) (s : FlushRun) (t : FlushTurn) : FlushRun :=
  match s.phase with
  | .enter queueIndex =>
    if (s.queues queueIndex).queuedBytes = 0 then { s with phase := nextPhase queueIndex }
    else { s with phase := .loop queueIndex }
  | .loop .unreliable => s.turnUnreliable config t
  | .loop queueIndex => s.turnReliable z config t queueIndex
  | .doneSending => s.finish config t
  | .returned _ => s

def flush (s : FlushRun) (hasPeerAddress : Bool) : FlushRun :=
  { s with
    finalUnreliable := none
    combined := none
    parts := []
    reliableOffset := 0
    prevCompressFailed := false
    phase := if hasPeerAddress then .enter .unreliable else .returned none
    emitted := []
    dequeued := fun _ => [] }

/-- Messages are queued at any time. The rest happens on the connection's green thread: calls of Flush,
their turns, and acknowledgements, which make room in the FEC encoder. -/
inductive Event where
  | append (queueIndex : QueueIndex) (messageType : Nat) (data : Bytes)
  | appendSplitReliable (queueIndex : QueueIndex) (messageType : Nat) (data : Bytes)
  | pushAndGetFreshBuffer (queueIndex : QueueIndex) (allocated : Bool)
  | acknowledged (remainingSlots : Nat)
  | flush (hasPeerAddress : Bool)
  | turn (t : FlushTurn)

def queue (s : FlushRun) (queueIndex : QueueIndex) (queue : OutgoingQueue) : FlushRun :=
  { s with queues := Function.update s.queues queueIndex queue }

def next (z : Zstd) (config : FlushConfig) (s : FlushRun) : Event → FlushRun
  | .append i messageType data => s.queue i ((s.queues i).append messageType data).1
  | .appendSplitReliable i messageType data =>
    s.queue i ((s.queues i).appendSplitReliable messageType data).1
  | .pushAndGetFreshBuffer i allocated => s.queue i ((s.queues i).pushAllocating allocated).1
  | .acknowledged remainingSlots =>
    match s.phase with
    | .returned _ => { s with remainingSlots := remainingSlots }
    | _ => s
  | .flush hasPeerAddress =>
    match s.phase with
    | .returned _ => s.flush hasPeerAddress
    | _ => s
  | .turn t => s.turn z config t

def initial : FlushRun where
  queues := fun _ => .empty
  compressor := .empty
  remainingSlots := 16000
  finalUnreliable := none
  combined := none
  parts := []
  reliableOffset := 0
  prevCompressFailed := false
  phase := .returned none
  emitted := []
  dequeued := fun _ => []

def run (z : Zstd) (config : FlushConfig) (events : List Event) : FlushRun :=
  events.foldl (next z config) initial

end FlushRun

/-! ## What a datagram is made of -/

def contents (queueIndex : QueueIndex) (parts : List Part) : Bytes :=
  ((parts.filter fun p => p.queueIndex = queueIndex).map Part.content).flatten

def wires (parts : List Part) : Bytes := (parts.map Part.wire).flatten

@[simp] theorem contents_nil (i : QueueIndex) : contents i [] = [] := rfl

@[simp] theorem contents_append (i : QueueIndex) (ps qs : List Part) :
    contents i (ps ++ qs) = contents i ps ++ contents i qs := by
  simp [contents]

@[simp] theorem wires_nil : wires [] = [] := rfl

@[simp] theorem wires_append (ps qs : List Part) : wires (ps ++ qs) = wires ps ++ wires qs := by
  simp [wires]

@[simp] theorem wires_singleton (p : Part) : wires [p] = p.wire := by simp [wires]

/-- A datagram of a queue as it is, one that the receiver decompresses, or a frame that only
synchronizes the compression history. -/
inductive Part.Carries (z : Zstd) : Part → Prop where
  | datagram (queueIndex : QueueIndex) (content : Bytes) : Carries z ⟨queueIndex, content, content⟩
  | compressed (queueIndex : QueueIndex) (content written : Bytes) (h h' : RingBuffer) :
      decompress z h written = .ok (h', content) →
      Carries z ⟨queueIndex, writeMessageFrameHeader messageTypeCompressed written.length ++ written,
        content⟩
  | sync (queueIndex : QueueIndex) :
      Carries z ⟨queueIndex, writeMessageFrameHeader messageTypeCompressed 0, []⟩

structure Emitted.Right (z : Zstd) (e : Emitted) : Prop where
  fits : e.messages.length ≤ maxMessageSectionBytes
  cut : ∃ unreliable reliable padding, e.parts = unreliable ++ reliable ∧
    (∀ p ∈ unreliable, p.queueIndex = .unreliable) ∧ (∀ p ∈ reliable, p.queueIndex ≠ .unreliable) ∧
    e.messages = wires unreliable ++ wires reliable ++ padding ∧
    (padding = [] ∨ ∃ n, padding = Frame.wire ⟨messageTypePadding, List.replicate n 0⟩) ∧
    e.original = if wires reliable = [] then none
      else some ((wires unreliable).length, wires reliable)
  carries : ∀ p ∈ e.parts, p.Carries z

/-- ZSTD_minGain: a block that is not shortened by a 64th and two bytes counts as not compressible. -/
def Zstd.MinGain (z : Zstd) : Prop :=
  ∀ (history : List Block) (offset : Nat) (data written : Bytes),
    z.compressBlock history offset data = .ok written → written ≠ [] →
    written.length + (data.length / 64 + 2) < data.length

theorem paddingFrame_cases (enablePadding : Bool) (random : Nat) {messageBytes : Nat}
    (h : messageBytes ≤ maxMessageSectionBytes) :
    messageBytes + (paddingFrame enablePadding random messageBytes).length ≤ maxMessageSectionBytes ∧
      (paddingFrame enablePadding random messageBytes = [] ∨
        ∃ n, paddingFrame enablePadding random messageBytes =
          Frame.wire ⟨messageTypePadding, List.replicate n 0⟩) := by
  unfold paddingFrame
  split
  · dsimp only
    generalize tonkRandPadExp.getD (random % 256) 0 = selected
    generalize htarget : (if maxMessageSectionBytes < messageBytes + selected then
      maxMessageSectionBytes - messageBytes else selected) = target
    have hle : messageBytes + target ≤ maxMessageSectionBytes := by
      rw [← htarget]
      split <;> omega
    by_cases hlarge : kMessageFrameBytes ≤ target
    · rw [if_pos hlarge]
      refine ⟨?_, .inr ⟨_, rfl⟩⟩
      rw [Frame.wire_length, List.length_replicate]
      omega
    · rw [if_neg hlarge]
      exact ⟨h, .inl rfl⟩
  · exact ⟨h, .inl rfl⟩

theorem compress_gain {z : Zstd} (hz : z.MinGain) {h h' : RingBuffer} {data written : Bytes}
    (hc : compress z h data = .ok (h', some written)) :
    written.length + kMessageFrameBytes < data.length := by
  obtain ⟨hne, -, -⟩ := decompress_of_compress hc
  unfold compress at hc
  dsimp only at hc
  split at hc
  · cases hc
  · cases hc
  · next hblock =>
    split at hc
    · cases hc
    · cases hc
      have hgain := hz _ _ _ _ hblock hne
      rw [kMessageFrameBytes]
      omega

/-! ## What holds in a flush -/

namespace FlushRun

def emittedBytes (s : FlushRun) (queueIndex : QueueIndex) : Bytes :=
  contents queueIndex (s.emitted.flatMap Emitted.parts)

def heldBytes (s : FlushRun) (queueIndex : QueueIndex) : Bytes :=
  contents queueIndex s.parts ++
    if queueIndex = .unreliable then s.finalUnreliable.getD [] else []

/-- What a flush holds in its locals and has sent, while the parts `waiting` are in its hands. -/
structure Sound (z : Zstd) (s : FlushRun) (waiting : List Part) : Prop where
  queues : ∀ i, (s.queues i).Accounted
  emitted : ∀ e ∈ s.emitted, e.Right z
  combined_eq : s.combined.getD [] = wires s.parts
  combined_le : (wires s.parts).length ≤ maxMessageSectionBytes
  closed : s.combined = none → s.parts = []
  cut : ∃ unreliable reliable, s.parts = unreliable ++ reliable ∧
    (∀ p ∈ unreliable, p.queueIndex = .unreliable) ∧ (∀ p ∈ reliable, p.queueIndex ≠ .unreliable) ∧
    s.reliableOffset = (wires unreliable).length
  final : ∀ datagram, s.finalUnreliable = some datagram →
    datagram.length ≤ maxMessageSectionBytes ∧ s.combined = none
  carries : ∀ p ∈ s.parts, p.Carries z
  conserved : ∀ i, s.emittedBytes i ++ s.heldBytes i ++ contents i waiting = s.dequeued i

section Steps

variable {z : Zstd} {config : FlushConfig} {s s' : FlushRun} {waiting : List Part}

theorem Sound.irrelevant (h : s.Sound z waiting) (compressor : RingBuffer) (remainingSlots : Nat)
    (prevCompressFailed : Bool) (phase : FlushPhase) :
    Sound z { s with
      compressor := compressor
      remainingSlots := remainingSlots
      prevCompressFailed := prevCompressFailed
      phase := phase } waiting :=
  ⟨h.queues, h.emitted, h.combined_eq, h.combined_le, h.closed, h.cut, h.final, h.carries,
    h.conserved⟩

theorem Sound.finalUnreliable_eq (h : s.Sound z waiting) (hopen : s.combined ≠ none) :
    s.finalUnreliable = none := by
  cases hfinal : s.finalUnreliable with
  | none => rfl
  | some datagram => exact absurd (h.final datagram hfinal).2 hopen

theorem right_sendQueuedDatagram {parts : List Part} {unreliable reliable : List Part}
    (config : FlushConfig) (random : Nat) (hparts : parts = unreliable ++ reliable)
    (hunreliable : ∀ p ∈ unreliable, p.queueIndex = .unreliable)
    (hreliable : ∀ p ∈ reliable, p.queueIndex ≠ .unreliable)
    (hcarries : ∀ p ∈ parts, p.Carries z)
    (hle : (wires parts).length ≤ maxMessageSectionBytes) :
    Emitted.Right z ⟨wires parts ++ paddingFrame config.enablePadding random (wires parts).length,
      if wires reliable = [] then none else some ((wires unreliable).length, wires reliable),
      parts⟩ := by
  obtain ⟨hfits, hpadding⟩ := paddingFrame_cases config.enablePadding random hle
  refine ⟨?_, ⟨unreliable, reliable, _, hparts, hunreliable, hreliable, ?_, hpadding, rfl⟩, hcarries⟩
  · rw [List.length_append]
    exact hfits
  · rw [hparts, wires_append]

theorem Sound.sendQueuedReliable (h : s.Sound z waiting) {t : FlushTurn}
    (hs : s.sendQueuedReliable config t = .ok s') :
    ∃ (e : Emitted) (remainingSlots : Nat), e.Right z ∧ e.parts = s.parts ∧
      s' = { s with emitted := s.emitted ++ [e], remainingSlots := remainingSlots } := by
  obtain ⟨unreliable, reliable, hparts, hunreliable, hreliable, hoffset⟩ := h.cut
  have hright := right_sendQueuedDatagram config t.random hparts hunreliable hreliable h.carries
    h.combined_le
  unfold FlushRun.sendQueuedReliable at hs
  rw [h.combined_eq] at hs
  dsimp only at hs
  have hwires : wires s.parts = wires unreliable ++ wires reliable := by rw [hparts, wires_append]
  have hdrop : (wires s.parts).drop s.reliableOffset = wires reliable := by
    rw [hwires, hoffset, List.drop_left]
  have hlength : (wires s.parts).length = s.reliableOffset + (wires reliable).length := by
    rw [hwires, hoffset, List.length_append]
  by_cases hnil : wires reliable = []
  · rw [if_pos (by rw [hlength, hnil]; exact Nat.le_refl _)] at hs
    cases hs
    rw [if_pos hnil] at hright
    exact ⟨_, _, hright, rfl, rfl⟩
  · have hpos := List.length_pos_iff.mpr hnil
    rw [if_neg (by omega)] at hs
    split at hs
    · cases hs
    · cases hs
      rw [if_neg hnil, ← hoffset, ← hdrop] at hright
      exact ⟨_, _, hright, rfl, rfl⟩

theorem emittedBytes_append (s : FlushRun) (e : Emitted) (i : QueueIndex) :
    contents i ((s.emitted ++ [e]).flatMap Emitted.parts) = s.emittedBytes i ++ contents i e.parts := by
  rw [List.flatMap_append, contents_append, List.flatMap_singleton]
  rfl

theorem Sound.restart (h : s.Sound z waiting) (hopen : s.combined ≠ none) {t : FlushTurn}
    (hs : s.sendQueuedReliable config t = .ok s') : s'.restart.Sound z waiting := by
  obtain ⟨e, remainingSlots, hright, hparts, rfl⟩ := h.sendQueuedReliable hs
  have hfinal := h.finalUnreliable_eq hopen
  refine ⟨h.queues, ?_, rfl, Nat.zero_le _, nofun, ⟨[], [], rfl, nofun, nofun, rfl⟩, ?_, nofun,
    fun i => ?_⟩
  · intro e' he'
    rcases List.mem_append.mp he' with hold | hnew
    · exact h.emitted e' hold
    · rw [List.mem_singleton.mp hnew]
      exact hright
  · intro datagram hsome
    rw [FlushRun.restart, hfinal] at hsome
    cases hsome
  · have hconserved := h.conserved i
    rw [heldBytes, hfinal] at hconserved
    simp only [FlushRun.restart, emittedBytes, heldBytes, emittedBytes_append, hparts, hfinal,
      contents_nil, List.nil_append] at hconserved ⊢
    simpa only [List.append_assoc] using hconserved

theorem Sound.append (h : s.Sound z waiting) (hopen : s.combined ≠ none) {part : Part}
    (rest : List Part) (hcarries : part.Carries z) (hqueue : part.queueIndex ≠ .unreliable)
    (hroom : (s.combined.getD []).length + part.wire.length ≤ maxMessageSectionBytes)
    (hwaiting : ∀ i, contents i [part] ++ contents i rest = contents i waiting) :
    (s.append part).Sound z rest := by
  have hfinal := h.finalUnreliable_eq hopen
  rw [h.combined_eq] at hroom
  obtain ⟨unreliable, reliable, hparts, hunreliable, hreliable, hoffset⟩ := h.cut
  refine ⟨h.queues, h.emitted, ?_, ?_, nofun, ⟨unreliable, reliable ++ [part], ?_, hunreliable, ?_,
    hoffset⟩, ?_, ?_, fun i => ?_⟩
  · simp [FlushRun.append, h.combined_eq]
  · simp only [FlushRun.append, wires_append, wires_singleton, List.length_append]
    exact hroom
  · simp [FlushRun.append, hparts]
  · intro p hp
    rcases List.mem_append.mp hp with hold | hnew
    · exact hreliable p hold
    · rw [List.mem_singleton.mp hnew]
      exact hqueue
  · intro datagram hsome
    rw [FlushRun.append, hfinal] at hsome
    cases hsome
  · intro p hp
    rcases List.mem_append.mp hp with hold | hnew
    · exact h.carries p hold
    · rw [List.mem_singleton.mp hnew]
      exact hcarries
  · have hconserved := h.conserved i
    rw [← hwaiting i, heldBytes, hfinal] at hconserved
    simp only [FlushRun.append, emittedBytes, heldBytes, hfinal, contents_append] at hconserved ⊢
    rw [← hconserved]
    simp

theorem Sound.openCombined (h : s.Sound z waiting) :
    s.openCombined.Sound z waiting ∧ s.openCombined.combined ≠ none := by
  unfold FlushRun.openCombined
  cases hcombined : s.combined with
  | some bytes =>
    refine ⟨h, ?_⟩
    rw [hcombined]
    exact nofun
  | none =>
    have hparts := h.closed hcombined
    cases hfinal : s.finalUnreliable with
    | none =>
      dsimp only
      refine ⟨⟨h.queues, h.emitted, ?_, h.combined_le, nofun, h.cut, nofun, h.carries, fun i => ?_⟩,
        nofun⟩
      · rw [hparts]
        rfl
      · have hconserved := h.conserved i
        rw [heldBytes, hfinal] at hconserved
        exact hconserved
    | some datagram =>
      dsimp only
      refine ⟨⟨h.queues, h.emitted, ?_, ?_, nofun, ⟨[⟨.unreliable, datagram, datagram⟩], [], rfl, ?_,
        nofun, ?_⟩, nofun, ?_, fun i => ?_⟩, nofun⟩
      · simp
      · rw [wires_singleton]
        exact (h.final datagram hfinal).1
      · intro p hp
        rw [List.mem_singleton.mp hp]
      · simp
      · intro p hp
        rw [List.mem_singleton.mp hp]
        exact .datagram _ _
      · have hconserved := h.conserved i
        rw [← hconserved, heldBytes, heldBytes, hparts, hfinal]
        by_cases hi : i = .unreliable
        · subst hi
          simp [contents, emittedBytes]
        · have hne : ¬ QueueIndex.unreliable = i := fun heq => hi heq.symm
          simp [contents, emittedBytes, hi, hne]

/-- What a flush took and did not send is in its locals; one that has returned without an error has sent
all of it. -/
structure Inv (z : Zstd) (s : FlushRun) : Prop where
  queues : ∀ i, (s.queues i).Accounted
  emitted : ∀ e ∈ s.emitted, e.Right z
  oldest : ∀ i, s.emittedBytes i <+: s.dequeued i
  sound : (∀ error, s.phase ≠ .returned error) → s.Sound z []
  returned : s.phase = .returned none → ∀ i, s.emittedBytes i = s.dequeued i
  unreliable : s.phase = .enter .unreliable ∨ s.phase = .loop .unreliable →
    s.combined = none ∧ s.finalUnreliable = none

/-- The loops behind that over the unreliable queue, and DoneSending. -/
def Going (s : FlushRun) : Prop :=
  match s.phase with
  | .enter queueIndex => queueIndex ≠ .unreliable
  | .loop queueIndex => queueIndex ≠ .unreliable
  | .doneSending => True
  | .returned _ => False

theorem Sound.oldest (h : s.Sound z waiting) (i : QueueIndex) :
    s.emittedBytes i <+: s.dequeued i := by
  rw [← h.conserved i, List.append_assoc]
  exact List.prefix_append _ _

theorem Going.of_phase (h : s.Going) (hphase : s'.phase = s.phase) : s'.Going := by
  unfold Going
  rw [hphase]
  exact h

theorem Sound.inv (h : s.Sound z []) (hgoing : s.Going) : s.Inv z := by
  refine ⟨h.queues, h.emitted, h.oldest, fun _ => h, fun hreturned => ?_, fun hphase => ?_⟩
  · rw [Going, hreturned] at hgoing
    exact hgoing.elim
  · rcases hphase with hphase | hphase
    · rw [Going, hphase] at hgoing
      exact absurd rfl hgoing
    · rw [Going, hphase] at hgoing
      exact absurd rfl hgoing

theorem Sound.fail (h : s.Sound z waiting) (error : FlushError) : (s.fail error).Inv z :=
  ⟨h.queues, h.emitted, h.oldest, fun hgoing => absurd rfl (hgoing _), nofun, nofun⟩

theorem Sound.fail_sent (h : s.Sound z waiting) (hopen : s.combined ≠ none) {t : FlushTurn}
    (hs : s.sendQueuedReliable config t = .ok s') (error : FlushError) :
    (s'.fail error).Inv z :=
  have hrestart := h.restart hopen hs
  ⟨hrestart.queues, hrestart.emitted, hrestart.oldest, fun hgoing => absurd rfl (hgoing _),
    nofun, nofun⟩

theorem Sound.phase_sent (h : s.Sound z waiting) {t : FlushTurn}
    (hs : s.sendQueuedReliable config t = .ok s') : s'.phase = s.phase := by
  obtain ⟨e, remainingSlots, -, -, rfl⟩ := h.sendQueuedReliable hs
  rfl

theorem contents_datagram (queueIndex : QueueIndex) (wire datagram : Bytes) (i : QueueIndex) :
    contents i [⟨queueIndex, wire, datagram⟩] ++ contents i [] =
      contents i [⟨queueIndex, datagram, datagram⟩] := by
  by_cases hi : queueIndex = i <;> simp [contents, hi]

theorem Sound.storeDatagram {queueIndex : QueueIndex} {datagram : Bytes}
    (h : s.Sound z [⟨queueIndex, datagram, datagram⟩]) (hopen : s.combined ≠ none)
    (hgoing : s.Going) (hqueue : queueIndex ≠ .unreliable)
    (hle : datagram.length ≤ maxMessageSectionBytes) (t : FlushTurn) {syncOverhead : Nat}
    (hsync : syncOverhead = 0 ∨ syncOverhead = kMessageFrameBytes) :
    (s.storeDatagram config t queueIndex syncOverhead datagram).Inv z := by
  have hpart : (Part.mk queueIndex datagram datagram).Carries z := .datagram _ _
  have hwaiting := contents_datagram queueIndex datagram datagram
  unfold FlushRun.storeDatagram
  by_cases hfull : maxMessageSectionBytes <
      (s.combined.getD []).length + datagram.length + syncOverhead
  · rw [if_pos hfull]
    cases hs : s.sendQueuedReliable config t with
    | error error => exact h.fail error
    | ok s' =>
      dsimp only
      by_cases hnew : t.newCombined = true
      · rw [if_pos hnew]
        have hrestart := h.restart hopen hs
        have hroom : (s'.restart.combined.getD []).length + datagram.length ≤
            maxMessageSectionBytes := by
          simpa [FlushRun.restart] using hle
        have hphase : s'.phase = s.phase := h.phase_sent hs
        exact (hrestart.append nofun [] hpart hqueue hroom hwaiting).inv (hgoing.of_phase hphase)
      · rw [if_neg hnew]
        exact h.fail_sent hopen hs _
  · rw [if_neg hfull]
    by_cases hframe : syncOverhead ≠ 0
    · rw [if_pos hframe]
      have hbytes : syncOverhead = kMessageFrameBytes := hsync.resolve_left hframe
      have hheader : (writeMessageFrameHeader messageTypeCompressed 0).length = kMessageFrameBytes :=
        rfl
      have hsynced := h.append hopen [⟨queueIndex, datagram, datagram⟩] (.sync queueIndex) hqueue
        (by simp only [hheader]; omega) (fun i => by simp [contents])
      refine (hsynced.append nofun [] hpart hqueue ?_ hwaiting).inv hgoing
      simp only [FlushRun.append, Option.getD_some, List.length_append, hheader]
      omega
    · rw [if_neg hframe]
      exact (h.append hopen [] hpart hqueue (by simp only; omega) hwaiting).inv hgoing

theorem Sound.storeCompressed {queueIndex : QueueIndex} {datagram written : Bytes}
    (h : s.Sound z [⟨queueIndex, datagram, datagram⟩]) (hopen : s.combined ≠ none)
    (hgoing : s.Going) (hqueue : queueIndex ≠ .unreliable)
    (hle : written.length + kMessageFrameBytes ≤ maxMessageSectionBytes) {before after : RingBuffer}
    (hdecompress : decompress z before written = .ok (after, datagram)) (t : FlushTurn) :
    (s.storeCompressed config t queueIndex datagram written).Inv z := by
  have hpart : (Part.mk queueIndex
      (writeMessageFrameHeader messageTypeCompressed written.length ++ written) datagram).Carries z :=
    .compressed _ _ _ _ _ hdecompress
  have hwaiting := contents_datagram queueIndex
    (writeMessageFrameHeader messageTypeCompressed written.length ++ written) datagram
  have hwire : (writeMessageFrameHeader messageTypeCompressed written.length ++ written).length =
      written.length + kMessageFrameBytes := by
    rw [compressedFrame_wire, Frame.wire_length, Nat.add_comm]
  have hclear : Sound z { s with prevCompressFailed := false }
      [⟨queueIndex, datagram, datagram⟩] :=
    h.irrelevant s.compressor s.remainingSlots false s.phase
  unfold FlushRun.storeCompressed
  dsimp only
  by_cases hroom : (s.combined.getD []).length +
      (writeMessageFrameHeader messageTypeCompressed written.length ++ written).length ≤
        maxMessageSectionBytes
  · rw [if_pos hroom]
    exact (hclear.append hopen [] hpart hqueue hroom hwaiting).inv hgoing
  · rw [if_neg hroom]
    by_cases hnew : t.newCombined = true
    · rw [if_pos hnew]
      cases hs : FlushRun.sendQueuedReliable config { s with prevCompressFailed := false } t with
      | error error => exact hclear.fail error
      | ok s' =>
        have hrestart := hclear.restart hopen hs
        have hroom : (s'.restart.combined.getD []).length +
            (writeMessageFrameHeader messageTypeCompressed written.length ++ written).length ≤
              maxMessageSectionBytes := by
          rw [hwire]
          simpa [FlushRun.restart] using hle
        have hphase : s'.phase = s.phase := hclear.phase_sent hs
        exact (hrestart.append nofun [] hpart hqueue hroom hwaiting).inv (hgoing.of_phase hphase)
    · rw [if_neg hnew]
      exact hclear.fail _

theorem openCombined_phase (s : FlushRun) : s.openCombined.phase = s.phase := by
  unfold FlushRun.openCombined
  split
  · rfl
  · split <;> rfl

theorem Sound.combine (hz : z.MinGain) {queueIndex : QueueIndex} {datagram : Bytes}
    (h : s.Sound z [⟨queueIndex, datagram, datagram⟩]) (hgoing : s.Going)
    (hqueue : queueIndex ≠ .unreliable) (hle : datagram.length ≤ maxMessageSectionBytes)
    (t : FlushTurn) : (s.combine z config t queueIndex datagram).Inv z := by
  unfold FlushRun.combine
  by_cases hmemory : s.combined = none ∧ (!t.combinedBuffer) = true
  · rw [if_pos hmemory]
    exact h.fail _
  · rw [if_neg hmemory]
    obtain ⟨hsound, hopen⟩ := h.openCombined
    have hgoing' : s.openCombined.Going := hgoing.of_phase s.openCombined_phase
    generalize s.openCombined = s at hsound hopen hgoing'
    dsimp only
    by_cases hattempt : queueIndex ≠ .unmetered ∧ config.enableCompression = true
    · rw [if_pos hattempt]
      cases hc : compress z s.compressor datagram with
      | error error => exact hsound.fail _
      | ok r =>
        obtain ⟨compressor, _ | written⟩ := r
        · refine Sound.storeDatagram (hsound.irrelevant compressor s.remainingSlots true s.phase)
            hopen hgoing' hqueue hle t ?_
          cases s.prevCompressFailed
          · exact .inl rfl
          · exact .inr rfl
        · have hgain := compress_gain hz hc
          obtain ⟨-, -, hdecompress⟩ := decompress_of_compress hc
          exact Sound.storeCompressed
            (hsound.irrelevant compressor s.remainingSlots s.prevCompressFailed s.phase) hopen hgoing'
            hqueue (by omega) hdecompress t
    · rw [if_neg hattempt]
      exact hsound.storeDatagram hopen hgoing' hqueue hle t (.inl rfl)

theorem flushPeekAllocating_queued {q queue : OutgoingQueue} {freshBuffer : Bool} {datagram : Bytes}
    (h : q.flushPeekAllocating freshBuffer = (queue, some datagram)) :
    ∃ rest, queue.queued = datagram :: rest := by
  unfold OutgoingQueue.flushPeekAllocating at h
  split at h
  · cases h
  · split at h
    · next rest hqueued =>
      cases h
      exact ⟨rest, hqueued⟩
    · obtain ⟨rfl, hhead⟩ := Prod.mk.inj h
      obtain ⟨rest, hrest⟩ := List.head?_eq_some_iff.mp hhead
      exact ⟨rest, hrest⟩

theorem Sound.takeNext (h : s.Sound z []) (queueIndex : QueueIndex) (freshBuffer : Bool) :
    (s.takeNext queueIndex freshBuffer).1.phase = s.phase ∧
    (s.takeNext queueIndex freshBuffer).1.combined = s.combined ∧
    match s.takeNext queueIndex freshBuffer with
    | (s', none) => s'.Sound z []
    | (s', some (datagram, _)) => s'.Sound z [⟨queueIndex, datagram, datagram⟩] ∧
        datagram.length ≤ maxMessageSectionBytes := by
  have haccounted := (h.queues queueIndex).flushPeekAllocating freshBuffer
  unfold FlushRun.takeNext
  rcases hpeek : (s.queues queueIndex).flushPeekAllocating freshBuffer with ⟨queue, _ | datagram⟩
  · rw [hpeek] at haccounted
    refine ⟨rfl, rfl, ⟨fun i => ?_, h.emitted, h.combined_eq, h.combined_le, h.closed, h.cut, h.final,
      h.carries, h.conserved⟩⟩
    by_cases hi : i = queueIndex
    · subst hi
      simp only [Function.update_self]
      exact haccounted
    · simp only [Function.update_of_ne hi]
      exact h.queues i
  · rw [hpeek] at haccounted
    obtain ⟨rest, hqueued⟩ := flushPeekAllocating_queued hpeek
    obtain ⟨hpop, -⟩ := haccounted.popIsEmpty hqueued
    refine ⟨rfl, rfl, ⟨fun i => ?_, h.emitted, h.combined_eq, h.combined_le, h.closed, h.cut, h.final,
      h.carries, fun i => ?_⟩, haccounted.fits datagram (by simp [hqueued])⟩
    · by_cases hi : i = queueIndex
      · subst hi
        simp only [Function.update_self]
        exact hpop
      · simp only [Function.update_of_ne hi]
        exact h.queues i
    · have hconserved := h.conserved i
      rw [contents_nil, List.append_nil] at hconserved
      change s.emittedBytes i ++ s.heldBytes i ++ _ = _
      rw [hconserved]
      by_cases hi : i = queueIndex
      · subst hi
        simp [contents]
      · have hne : ¬ queueIndex = i := fun heq => hi heq.symm
        simp [contents, Function.update_of_ne hi, hne]

theorem takeNext_finalUnreliable (s : FlushRun) (queueIndex : QueueIndex) (freshBuffer : Bool) :
    (s.takeNext queueIndex freshBuffer).1.finalUnreliable = s.finalUnreliable := by
  unfold FlushRun.takeNext
  split <;> rfl

theorem Sound.sendUnreliable {datagram : Bytes} (config : FlushConfig) (random : Nat)
    (h : s.Sound z [⟨.unreliable, datagram, datagram⟩]) (hle : datagram.length ≤ maxMessageSectionBytes)
    (hheld : s.parts = [] ∧ s.finalUnreliable = none) :
    (s.sendQueuedDatagram config random datagram none [⟨.unreliable, datagram, datagram⟩]).Sound z
      [] := by
  have hparts : [Part.mk .unreliable datagram datagram] = [⟨.unreliable, datagram, datagram⟩] ++ [] :=
    rfl
  have hcarries : ∀ p ∈ [Part.mk .unreliable datagram datagram], p.Carries z := by
    intro p hp
    rw [List.mem_singleton.mp hp]
    exact .datagram _ _
  have hright := right_sendQueuedDatagram config random hparts
    (fun p hp => by rw [List.mem_singleton.mp hp]) nofun hcarries
    (by rw [wires_singleton]; exact hle)
  rw [wires_singleton, wires_nil, if_pos rfl] at hright
  refine ⟨h.queues, fun e he => ?_, h.combined_eq, h.combined_le, h.closed, h.cut, h.final, h.carries,
    fun i => ?_⟩
  · rcases List.mem_append.mp he with hold | hnew
    · exact h.emitted e hold
    · rw [List.mem_singleton.mp hnew]
      exact hright
  · have hconserved := h.conserved i
    simp only [heldBytes, hheld.1, hheld.2] at hconserved
    simp only [emittedBytes, FlushRun.sendQueuedDatagram, emittedBytes_append, heldBytes, hheld.1,
      hheld.2]
    rw [← hconserved]
    simp [emittedBytes]

theorem Inv.turnUnreliable (h : s.Inv z) (hphase : s.phase = .loop .unreliable) (t : FlushTurn) :
    (s.turnUnreliable config t).Inv z := by
  have hsound := h.sound fun error => by
    rw [hphase]
    exact nofun
  obtain ⟨hcombined, hfinal⟩ := h.unreliable (.inr hphase)
  obtain ⟨hphase', hcombined', htake⟩ := hsound.takeNext .unreliable t.freshBuffer
  have hfinal' := s.takeNext_finalUnreliable .unreliable t.freshBuffer
  unfold FlushRun.turnUnreliable
  rcases hs : s.takeNext .unreliable t.freshBuffer with ⟨s', _ | ⟨datagram, _ | _⟩⟩
  all_goals rw [hs] at hphase' hcombined' htake hfinal'
  · exact Sound.inv (htake.irrelevant s'.compressor s'.remainingSlots s'.prevCompressFailed
      (nextPhase .unreliable)) nofun
  · have hclosed := htake.1.closed (hcombined'.trans hcombined)
    have hsent := htake.1.sendUnreliable config t.random htake.2
      ⟨hclosed, hfinal'.trans hfinal⟩
    refine ⟨hsent.queues, hsent.emitted, hsent.oldest, fun _ => hsent, fun hreturned => ?_,
      fun _ => ⟨hcombined'.trans hcombined, hfinal'.trans hfinal⟩⟩
    have hloop : s'.phase = .returned none := hreturned
    rw [hphase', hphase] at hloop
    cases hloop
  · have hclosed := htake.1.closed (hcombined'.trans hcombined)
    have hwaiting := htake.1
    refine Sound.inv ⟨hwaiting.queues, hwaiting.emitted, hwaiting.combined_eq, hwaiting.combined_le,
      hwaiting.closed, hwaiting.cut, ?_, hwaiting.carries, fun i => ?_⟩ nofun
    · intro d hd
      cases hd
      exact ⟨htake.2, hcombined'.trans hcombined⟩
    · have hconserved := hwaiting.conserved i
      have hnone : s'.finalUnreliable = none := hfinal'.trans hfinal
      simp only [heldBytes, hclosed, hnone] at hconserved
      rw [← hconserved]
      by_cases hi : i = .unreliable
      · subst hi
        simp [heldBytes, emittedBytes, contents, hclosed]
      · have hne : ¬ QueueIndex.unreliable = i := fun heq => hi heq.symm
        simp [heldBytes, emittedBytes, contents, hclosed, hi, hne]

theorem Inv.turnReliable (hz : z.MinGain) (h : s.Inv z) {queueIndex : QueueIndex}
    (hphase : s.phase = .loop queueIndex) (hqueue : queueIndex ≠ .unreliable) (t : FlushTurn) :
    (s.turnReliable z config t queueIndex).Inv z := by
  have hsound := h.sound fun error => by
    rw [hphase]
    exact nofun
  have hdone : Inv z { s with phase := .doneSending } :=
    Sound.inv (hsound.irrelevant s.compressor s.remainingSlots s.prevCompressFailed .doneSending)
      trivial
  have hgoing : s.Going := by
    rw [Going, hphase]
    exact hqueue
  unfold FlushRun.turnReliable
  split
  · exact hdone
  · split
    · exact hdone
    · obtain ⟨hphase', -, htake⟩ := hsound.takeNext queueIndex t.freshBuffer
      rcases hs : s.takeNext queueIndex t.freshBuffer with ⟨s', _ | ⟨datagram, isEmpty⟩⟩
      all_goals rw [hs] at hphase' htake
      · refine Sound.inv (htake.irrelevant s'.compressor s'.remainingSlots s'.prevCompressFailed
          (nextPhase queueIndex)) ?_
        cases queueIndex with
        | unreliable => exact absurd rfl hqueue
        | unmetered => exact nofun
        | reliable => exact nofun
        | lowPri => trivial
      · exact htake.1.combine hz (hgoing.of_phase hphase') hqueue htake.2 t

theorem contents_eq_nil {parts : List Part} (hcarries : ∀ p ∈ parts, p.Carries z)
    (hwires : wires parts = []) (i : QueueIndex) : contents i parts = [] := by
  have hframe : ∀ (length : Nat) (rest : Bytes),
      writeMessageFrameHeader messageTypeCompressed length ++ rest ≠ [] := by
    intro length rest hnil
    cases (List.append_eq_nil_iff.mp hnil).1
  rw [contents, List.flatten_eq_nil_iff]
  intro content hcontent
  obtain ⟨p, hp, rfl⟩ := List.mem_map.mp hcontent
  have hmem := (List.mem_filter.mp hp).1
  have hwire : p.wire = [] := List.flatten_eq_nil_iff.mp hwires _ (List.mem_map_of_mem hmem)
  cases hcarries p hmem with
  | datagram => exact hwire
  | compressed => exact absurd hwire (hframe _ _)
  | sync => rfl

theorem Sound.finish (h : s.Sound z []) (t : FlushTurn) : (s.finish config t).Inv z := by
  have hreturn : ∀ {s' : FlushRun}, s'.phase = .returned none → (∀ i, (s'.queues i).Accounted) →
      (∀ e ∈ s'.emitted, e.Right z) → (∀ i, s'.emittedBytes i = s'.dequeued i) → s'.Inv z := by
    intro s' hphase hqueues hemitted hall
    refine ⟨hqueues, hemitted, fun i => hall i ▸ List.prefix_rfl,
      fun hgoing => absurd hphase (hgoing none), fun _ => hall, fun hunreliable => ?_⟩
    rw [hphase] at hunreliable
    rcases hunreliable with hphase | hphase <;> cases hphase
  unfold FlushRun.finish
  cases hfinal : s.finalUnreliable with
  | some datagram =>
    obtain ⟨hle, hcombined⟩ := h.final datagram hfinal
    have hparts := h.closed hcombined
    have hwaiting : Sound z { s with finalUnreliable := none }
        [⟨.unreliable, datagram, datagram⟩] := by
      refine ⟨h.queues, h.emitted, h.combined_eq, h.combined_le, h.closed, h.cut, nofun, h.carries,
        fun i => ?_⟩
      have hconserved := h.conserved i
      simp only [heldBytes, hparts, hfinal] at hconserved
      rw [← hconserved]
      by_cases hi : i = .unreliable
      · subst hi
        simp [heldBytes, emittedBytes, contents, hparts]
      · have hne : ¬ QueueIndex.unreliable = i := fun heq => hi heq.symm
        simp [heldBytes, emittedBytes, contents, hparts, hi, hne]
    have hsent := hwaiting.sendUnreliable config t.random hle ⟨hparts, rfl⟩
    simp only [FlushRun.sendQueuedDatagram, hcombined]
    refine hreturn rfl h.queues hsent.emitted fun i => ?_
    have hconserved := hsent.conserved i
    simp only [heldBytes, FlushRun.sendQueuedDatagram, hparts, Option.getD_none, ite_self,
      contents_nil, List.append_nil] at hconserved
    exact hconserved
  | none =>
    have hheld : ∀ i, s.emittedBytes i ++ contents i s.parts = s.dequeued i := by
      intro i
      have hconserved := h.conserved i
      simpa only [heldBytes, hfinal, Option.getD_none, ite_self, contents_nil, List.append_nil] using
        hconserved
    rcases hcombined : s.combined with _ | _ | ⟨b, bs⟩
    · simp only [hcombined]
      refine hreturn rfl h.queues h.emitted fun i => ?_
      have hall := hheld i
      rw [h.closed hcombined, contents_nil, List.append_nil] at hall
      exact hall
    · simp only [hcombined]
      refine hreturn rfl h.queues h.emitted fun i => ?_
      have hwires : wires s.parts = [] := by
        rw [← h.combined_eq, hcombined]
        rfl
      have hall := hheld i
      rw [contents_eq_nil h.carries hwires, List.append_nil] at hall
      exact hall
    · simp only [hcombined]
      cases hs : s.sendQueuedReliable config t with
      | error error => exact h.fail error
      | ok s' =>
        have hopen : s.combined ≠ none := by
          rw [hcombined]
          exact nofun
        have hrestart := h.restart hopen hs
        obtain ⟨e, remainingSlots, -, hparts, rfl⟩ := h.sendQueuedReliable hs
        refine hreturn rfl h.queues hrestart.emitted fun i => ?_
        rw [emittedBytes, emittedBytes_append, hparts]
        exact hheld i

theorem Inv.turn (hz : z.MinGain) (h : s.Inv z) (t : FlushTurn) : (s.turn z config t).Inv z := by
  have hstay : ∀ phase : FlushPhase, (∀ error, s.phase ≠ .returned error) →
      (match phase with
        | .enter queueIndex => queueIndex ≠ .unreliable
        | .loop queueIndex => queueIndex ≠ .unreliable
        | .doneSending => True
        | .returned _ => False) → Inv z { s with phase := phase } := fun phase hgoing hphase =>
    Sound.inv ((h.sound hgoing).irrelevant s.compressor s.remainingSlots s.prevCompressFailed phase)
      hphase
  unfold FlushRun.turn
  cases hphase : s.phase with
  | enter queueIndex =>
    have hgoing : ∀ error, s.phase ≠ .returned error := by
      rw [hphase]
      exact fun _ => nofun
    dsimp only
    split
    · exact hstay _ hgoing (by cases queueIndex <;> simp [nextPhase])
    · by_cases hqueue : queueIndex = .unreliable
      · subst hqueue
        have hsound := (h.sound hgoing).irrelevant s.compressor s.remainingSlots s.prevCompressFailed
          (.loop .unreliable)
        exact ⟨h.queues, h.emitted, h.oldest, fun _ => hsound, nofun,
          fun _ => h.unreliable (.inl hphase)⟩
      · exact hstay _ hgoing hqueue
  | loop queueIndex =>
    cases queueIndex with
    | unreliable => exact h.turnUnreliable hphase t
    | unmetered => exact h.turnReliable hz hphase nofun t
    | reliable => exact h.turnReliable hz hphase nofun t
    | lowPri => exact h.turnReliable hz hphase nofun t
  | doneSending =>
    refine (h.sound fun error => ?_).finish t
    rw [hphase]
    exact nofun
  | returned error => exact h

theorem Inv.queue (h : s.Inv z) (i : QueueIndex) {queue : OutgoingQueue} (hqueue : queue.Accounted) :
    (s.queue i queue).Inv z := by
  have hqueues : ∀ j, ((s.queue i queue).queues j).Accounted := by
    intro j
    by_cases hj : j = i
    · subst hj
      simp only [FlushRun.queue, Function.update_self]
      exact hqueue
    · simp only [FlushRun.queue, Function.update_of_ne hj]
      exact h.queues j
  refine ⟨hqueues, h.emitted, h.oldest, fun hgoing => ?_, h.returned, h.unreliable⟩
  have hsound := h.sound hgoing
  exact ⟨hqueues, hsound.emitted, hsound.combined_eq, hsound.combined_le, hsound.closed, hsound.cut,
    hsound.final, hsound.carries, hsound.conserved⟩

theorem Inv.flush (h : s.Inv z) (hasPeerAddress : Bool) : (s.flush hasPeerAddress).Inv z := by
  have hsound : (s.flush hasPeerAddress).Sound z [] :=
    ⟨h.queues, nofun, rfl, Nat.zero_le _, fun _ => rfl, ⟨[], [], rfl, nofun, nofun, rfl⟩, nofun, nofun,
      fun i => by simp [FlushRun.flush, emittedBytes, heldBytes]⟩
  exact ⟨h.queues, nofun, hsound.oldest, fun _ => hsound, fun _ _ => rfl, fun _ => ⟨rfl, rfl⟩⟩

theorem Inv.next (hz : z.MinGain) (h : s.Inv z) (e : Event) : (s.next z config e).Inv z := by
  cases e with
  | append i messageType data => exact h.queue i ((h.queues i).append messageType data).1
  | appendSplitReliable i messageType data =>
    exact h.queue i ((h.queues i).appendSplitReliable messageType data).1
  | pushAndGetFreshBuffer i allocated => exact h.queue i ((h.queues i).pushAllocating allocated)
  | acknowledged remainingSlots =>
    simp only [FlushRun.next]
    split
    · next hphase =>
      refine ⟨h.queues, h.emitted, h.oldest, fun hgoing => absurd hphase (hgoing _), h.returned,
        h.unreliable⟩
    · exact h
  | flush hasPeerAddress =>
    simp only [FlushRun.next]
    split
    · exact h.flush hasPeerAddress
    · exact h
  | turn t => exact h.turn hz t

end Steps

theorem inv_run {z : Zstd} (hz : z.MinGain) (config : FlushConfig) (events : List Event) :
    (run z config events).Inv z := by
  induction events using List.reverseRecOn with
  | nil =>
    exact ⟨fun _ => OutgoingQueue.accounted_empty, nofun, fun _ => List.prefix_rfl,
      fun hgoing => absurd rfl (hgoing none), fun _ _ => rfl, nofun⟩
  | append_singleton events e ih =>
    rw [run, List.foldl_append]
    exact ih.next hz e

/-- In every run of Flush each datagram is within the limit, and its original starts where the reliable
messages do. What was taken off a queue is sent in order, and all of it once Flush returns without an
error. -/
theorem flush_conserves {z : Zstd} (hz : z.MinGain) (config : FlushConfig) (events : List Event) :
    (∀ e ∈ (run z config events).emitted, e.Right z) ∧
    (∀ i, (run z config events).emittedBytes i <+: (run z config events).dequeued i) ∧
    ((run z config events).phase = .returned none →
      ∀ i, (run z config events).emittedBytes i = (run z config events).dequeued i) :=
  have hinv := inv_run hz config events
  ⟨hinv.emitted, hinv.oldest, hinv.returned⟩

/-- A zstd that shortens only messages of 9 to 256 equal bytes: the header, the byte and its repeats. -/
def runZstd : Zstd where
  compressBlock _ _ data := .ok <|
    match data with
    | b₀ :: b₁ :: b :: repeats =>
      if 8 ≤ repeats.length ∧ repeats = List.replicate (UInt8.ofNat repeats.length).toNat b then
        [b₀, b₁, b, UInt8.ofNat repeats.length]
      else []
    | _ => []
  decompressBlock _ _ written :=
    match written with
    | [b₀, b₁, b, n] => .ok (b₀ :: b₁ :: b :: List.replicate n.toNat b)
    | _ => .error .other
  decompress_compress := by
    intro history offset data written hwritten hne
    cases hwritten
    split at hne
    · split at hne
      · next hrun =>
        intro _
        rw [if_pos hrun]
        simp only [← hrun.2]
      · exact absurd rfl hne
    · exact absurd rfl hne

theorem minGain_runZstd : runZstd.MinGain := by
  intro history offset data written hwritten hne
  cases hwritten
  split at hne
  · next repeats =>
    split at hne
    · next hrun =>
      simp only [if_pos hrun, List.length_cons, List.length_nil]
      omega
    · exact absurd rfl hne
  · exact absurd rfl hne

def repeated : Frame := ⟨messageTypeReliable + tonkChannelCount, List.replicate 40 7⟩

def mixedFlush : List Event :=
  let t : FlushTurn := ⟨true, true, true, true, true, 0⟩
  [.pushAndGetFreshBuffer .unreliable true, .append .unreliable messageTypeUnreliable [1, 2, 3],
    .pushAndGetFreshBuffer .reliable true,
    .appendSplitReliable .reliable messageTypeReliable repeated.messageData, .flush true] ++
      List.replicate 12 (.turn t)

theorem flush_conserves_mixed :
    ((run runZstd ⟨true, true⟩ mixedFlush).emitted.map Emitted.parts) =
      [[⟨.unreliable, Frame.wire ⟨messageTypeUnreliable, [1, 2, 3]⟩,
          Frame.wire ⟨messageTypeUnreliable, [1, 2, 3]⟩⟩,
        ⟨.reliable, Frame.wire ⟨messageTypeCompressed, repeated.wire.take 3 ++ [39]⟩,
          repeated.wire⟩]] ∧
      (∀ e ∈ (run runZstd ⟨true, true⟩ mixedFlush).emitted, e.Right runZstd) ∧
      ∀ i, (run runZstd ⟨true, true⟩ mixedFlush).emittedBytes i =
        (run runZstd ⟨true, true⟩ mixedFlush).dequeued i :=
  ⟨rfl, (flush_conserves minGain_runZstd ⟨true, true⟩ mixedFlush).1,
    (flush_conserves minGain_runZstd ⟨true, true⟩ mixedFlush).2.2 rfl⟩

/-- An unordered message, and the turns of a flush without memory for the combining buffer. -/
def unorderedFlush : List Event :=
  let t : FlushTurn := ⟨true, true, false, true, true, 0⟩
  [.pushAndGetFreshBuffer .unmetered true, .append .unmetered messageTypeUnordered [1, 2, 3],
    .flush true, .turn t, .turn t, .turn t, .turn t, .turn t, .turn t, .turn t]

/-- The message is lost. -/
theorem not_flush_conserves :
    (run smallBlockZstd ⟨true, true⟩ unorderedFlush).phase = .returned (some .outOfMemory) ∧
    (run smallBlockZstd ⟨true, true⟩ unorderedFlush).dequeued .unmetered =
      Frame.wire ⟨messageTypeUnordered, [1, 2, 3]⟩ ∧
    (run smallBlockZstd ⟨true, true⟩ unorderedFlush).emittedBytes .unmetered = [] := by
  refine ⟨rfl, by decide, by decide⟩

end FlushRun

end Tonk.Session
