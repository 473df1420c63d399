import Tonk.Session.Compression

/-!
How `SessionIncoming` handles the messages of a reliable packet: the loops of ProcessDatagram and of
resumeProcessing, with the marker `FirstReliable` from which the receiver reconstructs what the sender
put into its compression history.
-/

set_option autoImplicit false

namespace Tonk.Session
open Protocol

/-- The part of SessionIncoming that messages act on. `firstReliable` is an offset into the data
being read. -/
structure Messages where
  decompressor : RingBuffer
  firstReliable : Option Nat
  channels : IncomingChannels

inductive MessageError where
  | deliver : DeliverError → MessageError
  | frame : FrameError → MessageError
  | zstd : ZstdError → MessageError
  deriving DecidableEq, Repr

def Messages.initial : Messages := ⟨.empty, none, .initial⟩

def insertUncompressed (data : Bytes) (s : Messages) (stop : Nat) : Messages :=
  match s.firstReliable with
  | none => s
  | some start =>
    { s with
      decompressor := insertBlock s.decompressor ((data.take stop).drop start)
      firstReliable := none }

def deliver (s : Messages) (f : Frame) : Except MessageError Messages :=
  match deliverMessage s.channels f with
  | .error e => .error (.deliver e)
  | .ok channels => .ok { s with channels := channels }

def onCompressed (z : Zstd) (s : Messages) (data : Bytes) : Except MessageError Messages :=
  if data.length = 0 then .ok s
  else
    match decompress z s.decompressor data with
    | .error e => .error (.zstd e)
    | .ok (decompressor, out) =>
      frameLoop .frame (fun s _ f => deliver s f) { s with decompressor := decompressor } 0 out

def handleReliableMessage (z : Zstd) (data : Bytes) (s : Messages) (offset : Nat) (f : Frame) :
    Except MessageError Messages :=
  if f.messageType = messageTypeCompressed then
    onCompressed z (insertUncompressed data s offset) f.messageData
  else if s.firstReliable = none ∧ f.messageType < messageTypeControl then
    deliver { s with firstReliable := some offset } f
  else deliver s f

/-- The loop body of ProcessDatagram. Acknowledgements, time synchronisation and ack-acks go to
other components and leave this state alone. -/
def processFrame (z : Zstd) (inSequence firstSeen : Bool) (data : Bytes) (s : Messages)
    (offset : Nat) (f : Frame) : Except MessageError Messages :=
  if messageTypeStartOfReliables ≤ f.messageType then
    if f.messageType = messageTypeUnordered then
      if firstSeen then
        .ok { s with channels := s.channels.call tonkChannelUnordered (some f.messageData) }
      else .ok s
    else if inSequence then handleReliableMessage z data s offset f
    else .ok s
  else if f.messageType = messageTypeUnreliable then
    .ok { s with channels := s.channels.call tonkChannelUnreliable (some f.messageData) }
  else if f.messageType = messageTypeAcknowledgements ∨ f.messageType = messageTypeTimeSync ∨
      f.messageType = messageTypeAckAck then .ok s
  else .ok (insertUncompressed data s offset)

def resumeFrame (z : Zstd) (data : Bytes) (s : Messages) (offset : Nat) (f : Frame) :
    Except MessageError Messages :=
  if f.messageType < messageTypeStartOfReliables ∨ f.messageType = messageTypeUnordered then .ok s
  else handleReliableMessage z data s offset f

def messageLoop (handle : Bytes → Messages → Nat → Frame → Except MessageError Messages)
    (s : Messages) (data : Bytes) : Except MessageError Messages :=
  match frameLoop .frame (handle data) { s with firstReliable := none } 0 data with
  | .error e => .error e
  | .ok s' => .ok (insertUncompressed data s' data.length)

def processMessages (z : Zstd) (inSequence firstSeen : Bool) :
    Messages → Bytes → Except MessageError Messages :=
  messageLoop (processFrame z inSequence firstSeen)

def resumeMessages (z : Zstd) : Messages → Bytes → Except MessageError Messages :=
  messageLoop (resumeFrame z)

/-! ## What a receiver makes of a packet's frames -/

/-- The receiver as seen from the frames read so far: the history, the uncompressed bytes read since
`FirstReliable`, and the channel messages delivered. -/
structure Track where
  history : RingBuffer
  uncompressed : Option Bytes
  delivered : List Frame

/-- The history once the bytes since `FirstReliable` are inserted. -/
def Track.settled (t : Track) : RingBuffer :=
  match t.uncompressed with
  | none => t.history
  | some data => insertBlock t.history data

@[simp] theorem Track.settled_none (h : RingBuffer) (ds : List Frame) :
    (Track.mk h none ds).settled = h := rfl

@[simp] theorem Track.settled_some (h : RingBuffer) (data : Bytes) (ds : List Frame) :
    (Track.mk h (some data) ds).settled = insertBlock h data := rfl

def Frame.Metered (f : Frame) : Prop := ∃ ch : Channel, ch.Carries f

def Frame.Unmetered (f : Frame) : Prop :=
  f.messageType = messageTypeControl ∨ f.messageType = messageTypeUnordered

inductive Absorbs (z : Zstd) : Track → Frame → Track → Prop where
  | sync (t : Track) : Absorbs z t ⟨messageTypeCompressed, []⟩ ⟨t.settled, none, t.delivered⟩
  | compressed (t : Track) (h : RingBuffer) (c : Bytes) (gs : List Frame) :
      (∀ g ∈ gs, Frame.Fits g ∧ Frame.Metered g) → c ≠ [] →
      decompress z t.settled c = .ok (h, wireFrames gs) →
      Absorbs z t ⟨messageTypeCompressed, c⟩ ⟨h, none, t.delivered ++ gs⟩
  | metered (t : Track) (f : Frame) : Frame.Metered f →
      Absorbs z t f ⟨t.history, some (t.uncompressed.getD [] ++ f.wire), t.delivered ++ [f]⟩
  | unmetered (t : Track) (f : Frame) : Frame.Unmetered f → t.uncompressed = none →
      Absorbs z t f t

inductive AbsorbsAll (z : Zstd) : Track → List Frame → Track → Prop where
  | nil (t : Track) : AbsorbsAll z t [] t
  | cons {t t' t'' : Track} {f : Frame} {fs : List Frame} :
      Absorbs z t f t' → AbsorbsAll z t' fs t'' → AbsorbsAll z t (f :: fs) t''

theorem AbsorbsAll.append {z : Zstd} {t t' t'' : Track} {fs gs : List Frame}
    (h : AbsorbsAll z t fs t') (hg : AbsorbsAll z t' gs t'') : AbsorbsAll z t (fs ++ gs) t'' := by
  induction h with
  | nil t => exact hg
  | cons hf _ ih => exact .cons hf (ih hg)

theorem Absorbs.delivered_append {z : Zstd} {t t' : Track} {f : Frame} (h : Absorbs z t f t') :
    ∃ gs, t'.delivered = t.delivered ++ gs := by
  cases h with
  | sync => exact ⟨[], by simp⟩
  | compressed h c gs => exact ⟨gs, rfl⟩
  | metered f => exact ⟨[f], rfl⟩
  | unmetered f => exact ⟨[], by simp⟩

theorem AbsorbsAll.delivered_append {z : Zstd} {t t' : Track} {fs : List Frame}
    (h : AbsorbsAll z t fs t') : ∃ gs, t'.delivered = t.delivered ++ gs := by
  induction h with
  | nil t => exact ⟨[], by simp⟩
  | cons hf _ ih =>
    obtain ⟨gs, hgs⟩ := hf.delivered_append
    obtain ⟨gs', hgs'⟩ := ih
    exact ⟨gs ++ gs', by rw [hgs', hgs, List.append_assoc]⟩

/-- The concrete receiver at `offset` of `data` is where the track says. `channels` is what
delivering the tracked messages leads to. -/
structure Follows (data : Bytes) (offset : Nat) (s : Messages) (t : Track)
    (channels : IncomingChannels) : Prop where
  history : s.decompressor = t.history
  marker : match s.firstReliable, t.uncompressed with
    | none, none => True
    | some start, some block => start ≤ offset ∧ (data.take offset).drop start = block
    | _, _ => False
  agrees : s.channels.Agrees channels

theorem Follows.marker_none {data : Bytes} {offset : Nat} {s : Messages} {t : Track}
    {channels : IncomingChannels} (h : Follows data offset s t channels)
    (ht : t.uncompressed = none) : s.firstReliable = none := by
  have hm := h.marker
  cases hs : s.firstReliable with
  | none => rfl
  | some start => simp [hs, ht] at hm

theorem Follows.insert {data : Bytes} {offset : Nat} {s : Messages} {t : Track}
    {channels : IncomingChannels} (h : Follows data offset s t channels) :
    Follows data offset (insertUncompressed data s offset) ⟨t.settled, none, t.delivered⟩
      channels := by
  obtain ⟨hh, hm, ha⟩ := h
  unfold insertUncompressed Track.settled
  cases hs : s.firstReliable with
  | none =>
    cases ht : t.uncompressed with
    | none => exact ⟨hh, by simp [hs], ha⟩
    | some block => simp [hs, ht] at hm
  | some start =>
    cases ht : t.uncompressed with
    | none => simp [hs, ht] at hm
    | some block =>
      simp only [hs, ht] at hm
      exact ⟨by simp [hh, hm.2], by simp, ha⟩

theorem deliver_metered {s : Messages} {f : Frame} {c c' : IncomingChannels}
    (hf : Frame.Metered f) (ha : s.channels.Agrees c) (hd : deliverMessage c f = .ok c') :
    ∃ channels, deliver s f = .ok { s with channels := channels } ∧ channels.Agrees c' := by
  obtain ⟨ch, hf⟩ := hf
  obtain ⟨channels, hd', ha'⟩ := ha.deliverMessage hf hd
  exact ⟨channels, by simp [deliver, hd'], ha'⟩

theorem deliver_all {gs : List Frame} (hg : ∀ g ∈ gs, Frame.Metered g) {s : Messages}
    {c c' : IncomingChannels} (ha : s.channels.Agrees c)
    (hd : gs.foldlM deliverMessage c = .ok c') :
    ∃ channels, gs.foldlM deliver s = .ok { s with channels := channels } ∧
      channels.Agrees c' := by
  induction gs generalizing s c with
  | nil =>
    cases hd
    exact ⟨s.channels, rfl, ha⟩
  | cons g gs ih =>
    rw [List.foldlM_cons] at hd
    cases hc : deliverMessage c g with
    | error e => simp [hc, bind, Except.bind] at hd
    | ok c₁ =>
      rw [hc] at hd
      obtain ⟨ch₁, hs₁, ha₁⟩ := deliver_metered (hg g (by simp)) ha hc
      obtain ⟨ch₂, hs₂, ha₂⟩ := ih (fun x hx => hg x (by simp [hx]))
        (s := { s with channels := ch₁ }) ha₁ hd
      refine ⟨ch₂, ?_, ha₂⟩
      rw [List.foldlM_cons, hs₁]
      exact hs₂

structure HandlesReliable (z : Zstd)
    (handle : Bytes → Messages → Nat → Frame → Except MessageError Messages) : Prop where
  reliable : ∀ data s offset f, f.messageType = messageTypeCompressed ∨ Frame.Metered f →
    handle data s offset f = handleReliableMessage z data s offset f
  unmetered : ∀ data s offset f, Frame.Unmetered f → s.firstReliable = none →
    ∃ channels, handle data s offset f = .ok { s with channels := channels } ∧
      ∀ c, s.channels.Agrees c → channels.Agrees c

theorem handleReliable_control (z : Zstd) (data : Bytes) (s : Messages) (offset : Nat) (f : Frame)
    (hf : f.messageType = messageTypeControl) :
    ∃ channels, handleReliableMessage z data s offset f = .ok { s with channels := channels } ∧
      ∀ c, s.channels.Agrees c → channels.Agrees c := by
  have hne : ¬ f.messageType = messageTypeCompressed := by rw [hf]; decide
  have hnlt : ¬ (s.firstReliable = none ∧ f.messageType < messageTypeControl) := by omega
  refine ⟨{ s.channels with onControlChannel := s.channels.onControlChannel ++ [f.messageData] },
    by simp only [handleReliableMessage, if_neg hne, if_neg hnlt, deliver, deliverMessage,
      if_pos hf], ?_⟩
  intro c hc ch
  rw [← (hc ch).1, ← (hc ch).2]
  cases ch <;> exact ⟨rfl, rfl⟩

theorem Frame.Metered.bounds {f : Frame} (hf : Frame.Metered f) :
    messageTypeCompressed < f.messageType ∧ f.messageType < messageTypeControl := by
  obtain ⟨ch, hc⟩ := hf
  have hlt := ch.messageType_lt
  cases ch with
  | reliable n | lowPri n =>
    have hn := n.isLt
    simp only [Channel.Carries, Channel.messageType, messageTypeReliable, messageTypeLowPri,
      kLowPriStartChannel0, tonkChannelCount] at hc
    simp only [messageTypeCompressed, messageTypeControl, messageTypeReliable, kControlChannel,
      tonkChannelCount]
    omega

theorem resumeFrame_handles (z : Zstd) : HandlesReliable z (resumeFrame z) where
  reliable data s offset f hf := by
    have hlt : ¬ (f.messageType < messageTypeStartOfReliables ∨
        f.messageType = messageTypeUnordered) := by
      rcases hf with hf | hf
      · rw [hf]; decide
      · have hb := hf.bounds
        simp only [messageTypeCompressed, messageTypeControl, messageTypeReliable,
          kControlChannel, tonkChannelCount] at hb
        simp only [messageTypeStartOfReliables, messageTypeUnordered, messageTypeReliable,
          kUnorderedChannel, tonkChannelCount]
        omega
    simp only [resumeFrame, if_neg hlt]
  unmetered data s offset f hf _ := by
    rcases hf with hf | hf
    · have hlt : ¬ (f.messageType < messageTypeStartOfReliables ∨
          f.messageType = messageTypeUnordered) := by rw [hf]; decide
      simp only [resumeFrame, if_neg hlt]
      exact handleReliable_control z data s offset f hf
    · refine ⟨s.channels, by simp [resumeFrame, hf], fun c hc => hc⟩

theorem processFrame_handles (z : Zstd) (firstSeen : Bool) :
    HandlesReliable z (processFrame z true firstSeen) where
  reliable data s offset f hf := by
    have hb : messageTypeStartOfReliables ≤ f.messageType ∧
        f.messageType ≠ messageTypeUnordered := by
      rcases hf with hf | hf
      · rw [hf]; decide
      · have hb := hf.bounds
        simp only [messageTypeCompressed, messageTypeControl, messageTypeReliable,
          kControlChannel, tonkChannelCount] at hb
        simp only [messageTypeStartOfReliables, messageTypeUnordered, messageTypeReliable,
          kUnorderedChannel, tonkChannelCount]
        omega
    simp only [processFrame, if_pos hb.1, if_neg hb.2, if_true]
  unmetered data s offset f hf _ := by
    rcases hf with hf | hf
    · have hb : messageTypeStartOfReliables ≤ f.messageType ∧
          f.messageType ≠ messageTypeUnordered := by rw [hf]; decide
      simp only [processFrame, if_pos hb.1, if_neg hb.2, if_true]
      exact handleReliable_control z data s offset f hf
    · have hb : messageTypeStartOfReliables ≤ f.messageType := by rw [hf]; decide
      cases firstSeen with
      | false =>
        exact ⟨s.channels, by simp only [processFrame, if_pos hb, if_pos hf]; rfl, fun c hc => hc⟩
      | true =>
        refine ⟨s.channels.call tonkChannelUnordered (some f.messageData),
          by simp only [processFrame, if_pos hb, if_pos hf, if_true], fun c hc => ?_⟩
        exact hc.call _ (fun ch => Nat.ne_of_lt ch.tonkChannel_lt) _

theorem take_drop_wire {data pre post wire : Bytes} (h : data = pre ++ wire ++ post) {start : Nat}
    (hstart : start ≤ pre.length) :
    (data.take (pre ++ wire).length).drop start = (data.take pre.length).drop start ++ wire := by
  subst h
  rw [List.take_left, List.append_assoc, List.take_left, List.drop_append_of_le_length hstart]

theorem Follows.step {z : Zstd}
    {handle : Bytes → Messages → Nat → Frame → Except MessageError Messages}
    (hh : HandlesReliable z handle) {data pre post : Bytes} {f : Frame} {s : Messages}
    {t t' : Track} {c c' : IncomingChannels} {gs : List Frame}
    (hs : Follows data pre.length s t c) (hdata : data = pre ++ f.wire ++ post)
    (ha : Absorbs z t f t') (hgs : t'.delivered = t.delivered ++ gs)
    (hc : gs.foldlM deliverMessage c = .ok c') :
    ∃ s', handle data s pre.length f = .ok s' ∧ Follows data (pre ++ f.wire).length s' t' c' := by
  have hins := hs.insert
  cases ha with
  | sync =>
    have : gs = [] := by simpa using hgs
    subst this
    cases hc
    rw [hh.reliable _ _ _ _ (.inl rfl)]
    refine ⟨insertUncompressed data s pre.length, by simp [handleReliableMessage, onCompressed],
      hins.history, ?_, hins.agrees⟩
    simp [hins.marker_none rfl]
  | compressed h c₀ gs₀ hg₀ hne hz =>
    have : gs = gs₀ := by simpa using hgs.symm
    subst this
    rw [hh.reliable _ _ _ _ (.inl rfl)]
    have hlen : ¬ c₀.length = 0 := by simpa using hne
    have hloop := frameLoop_wireFrames .frame (fun s _ f => deliver s f) gs
      (fun g hg => (hg₀ g hg).1)
    obtain ⟨channels, hd, hagree⟩ := deliver_all (fun g hg => (hg₀ g hg).2)
      (s := ⟨h, (insertUncompressed data s pre.length).firstReliable,
        (insertUncompressed data s pre.length).channels⟩) hins.agrees hc
    refine ⟨⟨h, (insertUncompressed data s pre.length).firstReliable, channels⟩, ?_, ?_⟩
    · simp only [handleReliableMessage, if_true, onCompressed, if_neg hlen, hins.history, hz,
        hloop, handleFrames_foldlM]
      exact hd
    · exact ⟨rfl, by simp [hins.marker_none rfl], hagree⟩
  | metered _ hf =>
    have : gs = [f] := by simpa using hgs.symm
    subst this
    have hd : deliverMessage c f = .ok c' := by
      rw [List.foldlM_cons] at hc
      cases hc₁ : deliverMessage c f with
      | error e => simp [hc₁, bind, Except.bind] at hc
      | ok c₁ =>
        rw [hc₁] at hc
        exact hc
    have hb := hf.bounds
    have hne : ¬ f.messageType = messageTypeCompressed := by omega
    rw [hh.reliable _ _ _ _ (.inr hf)]
    cases hs₁ : s.firstReliable with
    | none =>
      have hnone : t.uncompressed = none := by
        have hm := hs.marker
        cases ht : t.uncompressed with
        | none => rfl
        | some block => simp [hs₁, ht] at hm
      obtain ⟨channels, hok, hagree⟩ := deliver_metered
        (s := ⟨s.decompressor, some pre.length, s.channels⟩) hf hs.agrees hd
      have hhandle : handleReliableMessage z data s pre.length f =
          .ok ⟨s.decompressor, some pre.length, channels⟩ := by
        simp only [handleReliableMessage, if_neg hne, hs₁, true_and, if_pos hb.2]
        exact hok
      refine ⟨_, hhandle, hs.history, ?_, hagree⟩
      have hblock := take_drop_wire hdata (Nat.le_refl pre.length)
      simp only [hnone, Option.getD_none, List.nil_append]
      refine ⟨by simp, hblock.trans ?_⟩
      simp
    | some start =>
      cases ht : t.uncompressed with
      | none => have hm := hs.marker; simp [hs₁, ht] at hm
      | some block =>
        have hm := hs.marker
        simp only [hs₁, ht] at hm
        obtain ⟨channels, hok, hagree⟩ := deliver_metered (s := s) hf hs.agrees hd
        have hhandle : handleReliableMessage z data s pre.length f =
            .ok { s with channels := channels } := by
          have hsome : ¬ (s.firstReliable = none ∧ f.messageType < messageTypeControl) := by
            simp [hs₁]
          simp only [handleReliableMessage, if_neg hne, if_neg hsome]
          exact hok
        refine ⟨_, hhandle, hs.history, ?_, hagree⟩
        have hblock := take_drop_wire hdata hm.1
        simp only [hs₁, Option.getD_some]
        refine ⟨by simp; omega, ?_⟩
        rw [hblock, hm.2]
  | unmetered _ hf hnone =>
    have : gs = [] := by simpa using hgs
    subst this
    cases hc
    have hs₁ := hs.marker_none hnone
    obtain ⟨channels, hok, hagree⟩ := hh.unmetered data s pre.length f hf hs₁
    exact ⟨_, hok, hs.history, by simp [hs₁, hnone], hagree _ hs.agrees⟩

theorem foldlM_append_ok {gs hs : List Frame} {c c' : IncomingChannels}
    (h : (gs ++ hs).foldlM deliverMessage c = .ok c') :
    ∃ c₁, gs.foldlM deliverMessage c = .ok c₁ ∧ hs.foldlM deliverMessage c₁ = .ok c' := by
  rw [List.foldlM_append] at h
  cases hg : gs.foldlM deliverMessage c with
  | error e => simp [hg, bind, Except.bind] at h
  | ok c₁ =>
    rw [hg] at h
    exact ⟨c₁, rfl, h⟩

theorem Follows.run {z : Zstd}
    {handle : Bytes → Messages → Nat → Frame → Except MessageError Messages}
    (hh : HandlesReliable z handle) {data pre post : Bytes} {fs : List Frame} {s : Messages}
    {t t' : Track} {c c' : IncomingChannels} {gs : List Frame}
    (hs : Follows data pre.length s t c) (hdata : data = pre ++ wireFrames fs ++ post)
    (ha : AbsorbsAll z t fs t') (hgs : t'.delivered = t.delivered ++ gs)
    (hc : gs.foldlM deliverMessage c = .ok c') :
    ∃ s', handleFrames (handle data) s pre.length fs = .ok s' ∧
      Follows data (pre ++ wireFrames fs).length s' t' c' := by
  induction ha generalizing s pre c gs with
  | nil t =>
    have : gs = [] := by simpa using hgs
    subst this
    cases hc
    exact ⟨s, rfl, by simpa using hs⟩
  | @cons t t₁ t' f fs hf hrest ih =>
    obtain ⟨gs₁, hgs₁⟩ := hf.delivered_append
    obtain ⟨gs₂, hgs₂⟩ := hrest.delivered_append
    have hsplit : gs = gs₁ ++ gs₂ := by
      rw [hgs₂, hgs₁, List.append_assoc, List.append_cancel_left_eq] at hgs
      exact hgs.symm
    subst hsplit
    obtain ⟨c₁, hc₁, hc₂⟩ := foldlM_append_ok hc
    have hd₁ : data = pre ++ f.wire ++ (wireFrames fs ++ post) := by simp [hdata]
    obtain ⟨s₁, hok, hs₁⟩ := hs.step hh hd₁ hf hgs₁ hc₁
    obtain ⟨s', hok', hs'⟩ := ih hs₁ (by simp [hdata]) hgs₂ hc₂
    refine ⟨s', ?_, by simpa using hs'⟩
    rw [handleFrames, hok]
    simpa [Frame.wire_length, Nat.add_assoc] using hok'

def Frame.Unreliable (f : Frame) : Prop := f.messageType < messageTypeStartOfReliables

theorem Follows.unreliable (z : Zstd) (inSequence firstSeen : Bool) {data : Bytes}
    {fs : List Frame} (hfs : ∀ f ∈ fs, Frame.Unreliable f) {s : Messages} {offset : Nat}
    {h : RingBuffer} {gs : List Frame} {c : IncomingChannels}
    (hs : Follows data offset s ⟨h, none, gs⟩ c) :
    ∃ s', handleFrames (processFrame z inSequence firstSeen data) s offset fs = .ok s' ∧
      Follows data (offset + (wireFrames fs).length) s' ⟨h, none, gs⟩ c := by
  induction fs generalizing s offset with
  | nil => exact ⟨s, rfl, hs⟩
  | cons f fs ih =>
    have hlt : ¬ messageTypeStartOfReliables ≤ f.messageType := Nat.not_le.mpr (hfs f (by simp))
    have hnone := hs.marker_none rfl
    have hstep : ∃ s₁, processFrame z inSequence firstSeen data s offset f = .ok s₁ ∧
        Follows data (offset + f.wire.length) s₁ ⟨h, none, gs⟩ c := by
      unfold processFrame
      rw [if_neg hlt]
      by_cases hu : f.messageType = messageTypeUnreliable
      · rw [if_pos hu]
        refine ⟨_, rfl, hs.history, by simp [hnone], hs.agrees.call _ (fun ch => ?_) _⟩
        have := ch.tonkChannel_lt
        simp only [tonkChannelUnordered] at this
        simp only [tonkChannelUnreliable]
        omega
      · rw [if_neg hu]
        by_cases ho : f.messageType = messageTypeAcknowledgements ∨
            f.messageType = messageTypeTimeSync ∨ f.messageType = messageTypeAckAck
        · rw [if_pos ho]
          exact ⟨s, rfl, hs.history, by simp [hnone], hs.agrees⟩
        · rw [if_neg ho]
          refine ⟨s, by simp [insertUncompressed, hnone], hs.history, by simp [hnone], hs.agrees⟩
    obtain ⟨s₁, hok, hs₁⟩ := hstep
    obtain ⟨s', hok', hs'⟩ := ih (fun g hg => hfs g (by simp [hg])) hs₁
    refine ⟨s', ?_, by simpa [Nat.add_assoc] using hs'⟩
    rw [handleFrames, hok]
    simpa [Frame.wire_length, Nat.add_assoc] using hok'

theorem handleFrames_append {σ ε : Type} {handle : σ → Nat → Frame → Except ε σ}
    {fs gs : List Frame} {s s' : σ} {offset : Nat} (h : handleFrames handle s offset fs = .ok s') :
    handleFrames handle s offset (fs ++ gs) =
      handleFrames handle s' (offset + (wireFrames fs).length) gs := by
  induction fs generalizing s offset with
  | nil =>
    cases h
    rfl
  | cons f fs ih =>
    rw [List.cons_append, handleFrames]
    rw [handleFrames] at h
    cases hf : handle s offset f with
    | error e => simp [hf] at h
    | ok s₁ =>
      rw [hf] at h
      simp only at h ⊢
      rw [ih h, wireFrames_cons, List.length_append, Frame.wire_length]
      simp [Nat.add_assoc]

theorem Follows.start (data : Bytes) {s : Messages} {c : IncomingChannels}
    (h : s.channels.Agrees c) :
    Follows data 0 { s with firstReliable := none } ⟨s.decompressor, none, []⟩ c :=
  ⟨rfl, trivial, h⟩

theorem resumeMessages_follows {z : Zstd} {rel : List Frame} (hfit : ∀ f ∈ rel, Frame.Fits f)
    {s : Messages} {t : Track} {c c' : IncomingChannels} (hs : s.channels.Agrees c)
    (ha : AbsorbsAll z ⟨s.decompressor, none, []⟩ rel t)
    (hc : t.delivered.foldlM deliverMessage c = .ok c') :
    ∃ s', resumeMessages z s (wireFrames rel) = .ok s' ∧ s'.decompressor = t.settled ∧
      s'.channels.Agrees c' := by
  have hstart : Follows (wireFrames rel) ([] : Bytes).length _ _ c := Follows.start _ hs
  have hdata : wireFrames rel = [] ++ wireFrames rel ++ [] := by simp
  obtain ⟨s', hok, hs'⟩ := hstart.run (resumeFrame_handles z) hdata ha rfl hc
  refine ⟨insertUncompressed (wireFrames rel) s' (wireFrames rel).length, ?_,
    hs'.insert.history, hs'.insert.agrees⟩
  simp only [resumeMessages, messageLoop, frameLoop_wireFrames _ _ _ hfit]
  rw [show handleFrames (resumeFrame z (wireFrames rel)) { s with firstReliable := none } 0 rel =
    .ok s' from hok]

/-- ProcessDatagram on a whole message section received in sequence: unreliable frames, the
reliable part and the padding added when the datagram is sent. -/
theorem processMessages_follows {z : Zstd} {firstSeen : Bool} {unrel rel pad : List Frame}
    (hfit : ∀ f ∈ unrel ++ rel ++ pad, Frame.Fits f) (hunrel : ∀ f ∈ unrel, Frame.Unreliable f)
    (hpad : pad = [] ∨ ∃ zeros, pad = [⟨messageTypePadding, zeros⟩])
    {s : Messages} {t : Track} {c c' : IncomingChannels} (hs : s.channels.Agrees c)
    (ha : AbsorbsAll z ⟨s.decompressor, none, []⟩ rel t)
    (hc : t.delivered.foldlM deliverMessage c = .ok c') :
    ∃ s', processMessages z true firstSeen s (wireFrames (unrel ++ rel ++ pad)) = .ok s' ∧
      s'.decompressor = t.settled ∧ s'.channels.Agrees c' := by
  let data := wireFrames (unrel ++ rel ++ pad)
  obtain ⟨s₁, hok₁, hs₁⟩ := (Follows.start data hs).unreliable z true firstSeen hunrel
  rw [Nat.zero_add] at hs₁
  have hdata : data = wireFrames unrel ++ wireFrames rel ++ wireFrames pad := by simp [data]
  obtain ⟨s₂, hok₂, hs₂⟩ := hs₁.run (processFrame_handles z firstSeen) hdata ha rfl hc
  have hok : handleFrames (processFrame z true firstSeen data) { s with firstReliable := none } 0
      (unrel ++ rel) = .ok s₂ := by
    rw [handleFrames_append hok₁, Nat.zero_add]
    exact hok₂
  have hloop : frameLoop .frame (processFrame z true firstSeen data)
      { s with firstReliable := none } 0 data =
        handleFrames (processFrame z true firstSeen data) s₂
          (wireFrames (unrel ++ rel)).length pad := by
    rw [frameLoop_wireFrames _ _ _ hfit, handleFrames_append hok, Nat.zero_add]
  rw [← wireFrames_append] at hs₂
  rcases hpad with rfl | ⟨zeros, rfl⟩
  · have hdata : (wireFrames (unrel ++ rel)).length = data.length := by simp [data]
    rw [hdata] at hs₂
    refine ⟨insertUncompressed data s₂ data.length, ?_, hs₂.insert.history, hs₂.insert.agrees⟩
    show messageLoop _ _ data = _
    rw [messageLoop, hloop]
    rfl
  · have hins := hs₂.insert
    have hnone := hins.marker_none rfl
    refine ⟨_, ?_, hins.history, hins.agrees⟩
    show messageLoop _ _ data = _
    rw [messageLoop, hloop]
    have hpadding : processFrame z true firstSeen data s₂ (wireFrames (unrel ++ rel)).length
        ⟨messageTypePadding, zeros⟩ =
          .ok (insertUncompressed data s₂ (wireFrames (unrel ++ rel)).length) := by
      simp [processFrame, messageTypePadding, messageTypeStartOfReliables, messageTypeUnreliable,
        messageTypeAcknowledgements, messageTypeTimeSync, messageTypeAckAck]
    simp only [handleFrames, hpadding]
    rw [insertUncompressed, hnone]

end Tonk.Session
