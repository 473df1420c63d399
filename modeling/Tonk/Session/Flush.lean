import Tonk.Lib.Run
import Tonk.Session.Messages

/-!
`SessionOutgoing::Flush`: datagrams taken off the queues are compressed one by one and combined
into packets. The receiver finds out where a datagram that could not be compressed ends only from
the packet's end, from a compressed frame, or from an empty compressed frame that Flush puts in.
-/

set_option autoImplicit false

namespace Tonk.Session
open Protocol Transition

/-- A combined datagram as it is sent: the message section, and where its reliable part starts. -/
structure Packet where
  messages : Bytes
  reliableOffset : Nat
  deriving DecidableEq, Repr

/-- The locals of Flush, the compressor, and the packets sent so far. -/
structure Flushing where
  compressor : RingBuffer
  finalUnreliable : Option Bytes
  combined : Option Bytes
  reliableOffset : Nat
  prevCompressFailed : Bool
  packets : List Packet
  deriving DecidableEq, Repr

namespace Flushing

/-- The combining buffer is made when there is a first datagram for it, and then takes in the final
unreliable messages. -/
def openCombined (s : Flushing) : Flushing :=
  match s.combined with
  | some _ => s
  | none =>
    match s.finalUnreliable with
    | none => { s with combined := some [] }
    | some unreliable =>
      { s with
        combined := some unreliable
        reliableOffset := unreliable.length
        finalUnreliable := none }

def content (s : Flushing) : Bytes := s.openCombined.combined.getD []

def shrinkWrapAndSendReliable (s : Flushing) : Flushing :=
  { s with packets := s.packets ++ [⟨s.combined.getD [], s.reliableOffset⟩] }

def storeDatagram (s : Flushing) (syncOverhead : Nat) (datagram : Bytes) : Flushing :=
  if maxMessageSectionBytes < (s.combined.getD []).length + datagram.length + syncOverhead then
    { s.shrinkWrapAndSendReliable with
      combined := some datagram
      reliableOffset := 0
      prevCompressFailed := false }
  else if syncOverhead ≠ 0 then
    { s with combined := some (s.combined.getD [] ++
        writeMessageFrameHeader messageTypeCompressed 0 ++ datagram) }
  else { s with combined := some (s.combined.getD [] ++ datagram) }

def storeCompressed (s : Flushing) (written : Bytes) : Flushing :=
  let frame := writeMessageFrameHeader messageTypeCompressed written.length ++ written
  if (s.combined.getD []).length + frame.length ≤ maxMessageSectionBytes then
    { s with combined := some (s.combined.getD [] ++ frame), prevCompressFailed := false }
  else
    { s.shrinkWrapAndSendReliable with
      combined := some frame
      reliableOffset := 0
      prevCompressFailed := false }

/-- One turn of the loop over the datagrams of a queue. `attempt` is
`queueIndex > Queue_Unmetered && Deps.EnableCompression`. -/
def flushDatagram (z : Zstd) (s : Flushing) (attempt : Bool) (datagram : Bytes) :
    Except ZstdError Flushing :=
  let s := s.openCombined
  if attempt then
    match compress z s.compressor datagram with
    | .error e => .error e
    | .ok (compressor, some written) =>
      .ok ({ s with compressor := compressor }.storeCompressed written)
    | .ok (compressor, none) =>
      let syncOverhead := if s.prevCompressFailed then kMessageFrameBytes else 0
      .ok ({ s with compressor := compressor, prevCompressFailed := true }.storeDatagram
        syncOverhead datagram)
  else .ok (s.storeDatagram 0 datagram)

def done (s : Flushing) : Flushing :=
  match s.combined with
  | none => s
  | some [] => s
  | some _ => s.shrinkWrapAndSendReliable

def Incompressible (z : Zstd) (s : Flushing) (datagram : Bytes) : Prop :=
  ∃ h, compress z s.compressor datagram = .ok (h, none)

/-- The datagram goes out as it is and does not fit behind what is in the combining buffer. -/
def Overflows (z : Zstd) (s : Flushing) (datagram : Bytes) : Prop :=
  s.Incompressible z datagram ∧
    maxMessageSectionBytes < s.content.length + datagram.length +
      if s.prevCompressFailed then kMessageFrameBytes else 0

end Flushing

def flushDatagrams (z : Zstd) (s : Flushing) (items : List (Bool × Bytes)) :
    Except ZstdError Flushing :=
  items.foldlM (fun s item => s.flushDatagram z item.1 item.2) s

/-- No incompressible datagram that had to start a new combined datagram is followed by another
incompressible one that fits in behind it. `started` is the size of the previous datagram if it was
one of the former kind. -/
def SyncSafe (z : Zstd) : Option Nat → Flushing → List (Bool × Bytes) → Prop
  | _, _, [] => True
  | started, s, (attempt, datagram) :: rest =>
    (∀ n, started = some n → attempt → s.Incompressible z datagram →
      maxMessageSectionBytes < n + datagram.length) ∧
    ∀ s', s.flushDatagram z attempt datagram = .ok s' →
      ((attempt ∧ s.Overflows z datagram) → SyncSafe z (some datagram.length) s' rest) ∧
      (¬ (attempt ∧ s.Overflows z datagram) → SyncSafe z none s' rest)

/-! ## What the receiver makes of the packets -/

/-- The packets, and what a receiver that handles them in order is led to: its history, and the
channel messages it delivers. -/
inductive Transmits (z : Zstd) : List Packet → RingBuffer → List Frame → Prop where
  | nil : Transmits z [] .empty []
  | snoc {ps : List Packet} {h : RingBuffer} {ds unrel rel : List Frame} {t : Track} :
      Transmits z ps h ds → (∀ f ∈ unrel ++ rel, Frame.Fits f) →
      (∀ f ∈ unrel, Frame.Unreliable f) → AbsorbsAll z ⟨h, none, []⟩ rel t →
      Transmits z (ps ++ [⟨wireFrames (unrel ++ rel), (wireFrames unrel).length⟩]) t.settled
        (ds ++ t.delivered)

theorem absorbs_metered (z : Zstd) {gs : List Frame} (hg : ∀ g ∈ gs, Frame.Metered g)
    (hne : gs ≠ []) (t : Track) :
    AbsorbsAll z t gs
      ⟨t.history, some (t.uncompressed.getD [] ++ wireFrames gs), t.delivered ++ gs⟩ := by
  induction gs generalizing t with
  | nil => exact absurd rfl hne
  | cons g gs ih =>
    refine .cons (.metered t g (hg g (by simp))) ?_
    cases gs with
    | nil => simpa using AbsorbsAll.nil _
    | cons g' gs =>
      have h := ih (fun x hx => hg x (by simp [hx])) (by simp)
        ⟨t.history, some (t.uncompressed.getD [] ++ g.wire), t.delivered ++ [g]⟩
      simpa using h

theorem absorbs_unmetered (z : Zstd) {gs : List Frame} (hg : ∀ g ∈ gs, Frame.Unmetered g)
    {t : Track} (ht : t.uncompressed = none) : AbsorbsAll z t gs t := by
  induction gs with
  | nil => exact .nil t
  | cons g gs ih =>
    exact .cons (.unmetered t g (hg g (by simp)) ht) (ih fun x hx => hg x (by simp [hx]))

theorem insertBlock_eq {h : RingBuffer} {data : Bytes} (hd : data.length ≤ maxMessageSectionBytes) :
    insertBlock h data = h.insert data := by
  have hmax : maxMessageSectionBytes ≤ kCompressionAllocateBytes := by decide
  rw [insertBlock, if_neg (by omega)]

/-- A combining buffer in use. The receiver would reach the track `t` on its contents, and be in
lockstep once the datagram ends. -/
structure Flushing.Open (z : Zstd) (s : Flushing) (ds : List Frame) (unrel rel : List Frame)
    (t : Track) : Prop where
  earlier : ∃ h ds₀, Transmits z s.packets h ds₀ ∧ AbsorbsAll z ⟨h, none, []⟩ rel t ∧
    ds = ds₀ ++ t.delivered
  combined_eq : s.combined = some (wireFrames (unrel ++ rel))
  offset_eq : s.reliableOffset = (wireFrames unrel).length
  unreliable : ∀ f ∈ unrel, Frame.Unreliable f
  fits : ∀ f ∈ unrel ++ rel, Frame.Fits f
  lockstep : t.settled = s.compressor

structure Flushing.Idle (z : Zstd) (s : Flushing) (ds : List Frame) : Prop where
  transmits : Transmits z s.packets s.compressor ds
  combined_none : s.combined = none
  offset_zero : s.reliableOffset = 0
  flag : s.prevCompressFailed = false
  unreliable : s.finalUnreliable = none ∨ ∃ fs, s.finalUnreliable = some (wireFrames fs) ∧
    (∀ f ∈ fs, Frame.Fits f) ∧ ∀ f ∈ fs, Frame.Unreliable f

theorem Flushing.Idle.open {z : Zstd} {s : Flushing} {ds : List Frame} (h : s.Idle z ds) :
    ∃ unrel, s.openCombined.Open z ds unrel [] ⟨s.compressor, none, []⟩ := by
  rcases h.unreliable with hu | ⟨fs, hu, hfit, hun⟩
  · refine ⟨[], ⟨_, ds, ?_, .nil _, by simp⟩, ?_, ?_, by simp, by simp, ?_⟩ <;>
      simp [Flushing.openCombined, h.combined_none, hu, h.transmits, h.offset_zero]
  · refine ⟨fs, ⟨_, ds, ?_, .nil _, by simp⟩, ?_, ?_, hun, by simpa using hfit, ?_⟩ <;>
      simp [Flushing.openCombined, h.combined_none, hu, h.transmits]

theorem Flushing.Open.send {z : Zstd} {s : Flushing} {ds unrel rel : List Frame} {t : Track}
    (h : s.Open z ds unrel rel t) :
    Transmits z (s.packets ++ [⟨s.combined.getD [], s.reliableOffset⟩]) s.compressor ds := by
  obtain ⟨h₀, ds₀, htr, habs, rfl⟩ := h.earlier
  rw [h.combined_eq, h.offset_eq, ← h.lockstep]
  exact .snoc htr h.fits h.unreliable habs

theorem Flushing.Open.openCombined {z : Zstd} {s : Flushing} {ds unrel rel : List Frame}
    {t : Track} (h : s.Open z ds unrel rel t) : s.openCombined = s := by
  simp [Flushing.openCombined, h.combined_eq]

theorem Flushing.Open.extend {z : Zstd} {s u : Flushing} {ds unrel rel gs : List Frame}
    {t t' : Track} {ns : List Frame} (h : s.Open z ds unrel rel t) (hfit : ∀ g ∈ gs, Frame.Fits g)
    (habs : AbsorbsAll z t gs t') (hns : t'.delivered = t.delivered ++ ns)
    (hp : u.packets = s.packets)
    (hc : u.combined = some (wireFrames (unrel ++ rel) ++ wireFrames gs))
    (ho : u.reliableOffset = s.reliableOffset) (hl : t'.settled = u.compressor) :
    u.Open z (ds ++ ns) unrel (rel ++ gs) t' := by
  obtain ⟨h₀, ds₀, htr, habs₀, rfl⟩ := h.earlier
  refine ⟨⟨h₀, ds₀, by rw [hp]; exact htr, habs₀.append habs, by rw [hns]; simp⟩, ?_, ?_,
    h.unreliable, ?_, hl⟩
  · rw [hc]
    simp
  · rw [ho, h.offset_eq]
  · intro f hf
    rw [← List.append_assoc, List.mem_append] at hf
    rcases hf with hf | hf
    · exact h.fits f hf
    · exact hfit f hf

theorem Flushing.Open.restart {z : Zstd} {s u : Flushing} {ds unrel rel gs : List Frame}
    {t t' : Track} (h : s.Open z ds unrel rel t) (hfit : ∀ g ∈ gs, Frame.Fits g)
    (habs : AbsorbsAll z ⟨s.compressor, none, []⟩ gs t')
    (hp : u.packets = s.packets ++ [⟨s.combined.getD [], s.reliableOffset⟩])
    (hc : u.combined = some (wireFrames gs)) (ho : u.reliableOffset = 0)
    (hl : t'.settled = u.compressor) :
    u.Open z (ds ++ t'.delivered) [] gs t' :=
  ⟨⟨s.compressor, ds, by rw [hp]; exact h.send, habs, rfl⟩, by simpa using hc, by simpa using ho,
    by simp, by simpa using hfit, hl⟩

/-- prevCompressFailed tells whether the receiver is in the middle of an uncompressed datagram,
except after an overflow: then it is off although the new buffer starts with such a datagram. -/
def Flushing.Flag (s : Flushing) (t : Track) : Option Nat → Prop
  | none => s.prevCompressFailed = t.uncompressed.isSome
  | some n => s.prevCompressFailed = false ∧ s.content.length = n

theorem compressedFrame_wire (written : Bytes) :
    writeMessageFrameHeader messageTypeCompressed written.length ++ written =
      (Frame.mk messageTypeCompressed written).wire := rfl

theorem Flushing.Open.storeCompressed {z : Zstd} {s : Flushing} {ds unrel rel gs : List Frame}
    {t : Track} {h : RingBuffer} {written : Bytes} (hs : s.Open z ds unrel rel t)
    (hg : ∀ g ∈ gs, Frame.Fits g ∧ Frame.Metered g)
    (hsize : (wireFrames gs).length ≤ maxMessageSectionBytes)
    (hc : compress z s.compressor (wireFrames gs) = .ok (h, some written))
    {s' : Flushing} (hs' : s' = { s with compressor := h }.storeCompressed written) :
    ∃ unrel' rel' t', s'.Open z (ds ++ gs) unrel' rel' t' ∧ s'.Flag t' none := by
  obtain ⟨hne, hlt, hdec⟩ := decompress_of_compress hc
  have hmax : maxMessageSectionBytes = 1306 := rfl
  have hfit : ∀ g ∈ [Frame.mk messageTypeCompressed written], Frame.Fits g := by
    intro g hg
    rw [List.mem_singleton.mp hg]
    refine ⟨show messageTypeCompressed < 32 by decide, ?_⟩
    show written.length < 2048
    omega
  have habs : ∀ t₀ : Track, t₀.settled = s.compressor →
      AbsorbsAll z t₀ [Frame.mk messageTypeCompressed written] ⟨h, none, t₀.delivered ++ gs⟩ :=
    fun t₀ h₀ => .cons (.compressed t₀ h written gs hg hne (by rw [h₀]; exact hdec)) (.nil _)
  rw [Flushing.storeCompressed, compressedFrame_wire] at hs'
  by_cases hroom : (s.combined.getD []).length + (Frame.mk messageTypeCompressed written).wire.length ≤
      maxMessageSectionBytes
  · have heq : s' = { s with
        compressor := h
        combined := some (s.combined.getD [] ++ (Frame.mk messageTypeCompressed written).wire)
        prevCompressFailed := false } := by
      rw [hs']
      exact if_pos hroom
    have hopen := hs.extend (u := s') hfit (habs t hs.lockstep) rfl (by rw [heq])
      (by rw [heq]; simp [hs.combined_eq]) (by rw [heq]) (by rw [heq]; rfl)
    exact ⟨unrel, _, _, hopen, by rw [heq]; rfl⟩
  · have heq : s' = { s with
        compressor := h
        combined := some (Frame.mk messageTypeCompressed written).wire
        reliableOffset := 0
        prevCompressFailed := false
        packets := s.packets ++ [⟨s.combined.getD [], s.reliableOffset⟩] } := by
      rw [hs']
      exact if_neg hroom
    have hopen := hs.restart (u := s') hfit (habs ⟨s.compressor, none, []⟩ rfl)
      (by rw [heq]) (by rw [heq]; simp) (by rw [heq]) (by rw [heq]; rfl)
    exact ⟨[], _, _, by simpa using hopen, by rw [heq]; rfl⟩

/-- A datagram that was not compressed. The hypothesis `hsafe` is what the code does not see to. -/
theorem Flushing.Open.storeDatagram {z : Zstd} {s : Flushing} {ds unrel rel gs : List Frame}
    {t : Track} {h : RingBuffer} {started : Option Nat} (hs : s.Open z ds unrel rel t)
    (hflag : s.Flag t started) (hg : ∀ g ∈ gs, Frame.Fits g ∧ Frame.Metered g)
    (hne : gs ≠ []) (hsize : (wireFrames gs).length ≤ maxMessageSectionBytes)
    (hc : compress z s.compressor (wireFrames gs) = .ok (h, none))
    (hsafe : ∀ n, started = some n → maxMessageSectionBytes < n + (wireFrames gs).length)
    {s' : Flushing} (hs' : s' = { s with compressor := h, prevCompressFailed := true }.storeDatagram
      (if s.prevCompressFailed then kMessageFrameBytes else 0) (wireFrames gs)) :
    ∃ unrel' rel' t', s'.Open z (ds ++ gs) unrel' rel' t' ∧
      (s.Overflows z (wireFrames gs) → s'.Flag t' (some (wireFrames gs).length)) ∧
      (¬ s.Overflows z (wireFrames gs) → s'.Flag t' none) := by
  have hh := compress_history hc
  have hcontent : s.content = s.combined.getD [] := by rw [Flushing.content, hs.openCombined]
  have hfit : ∀ g ∈ gs, Frame.Fits g := fun g hg' => (hg g hg').1
  have hmet : ∀ g ∈ gs, Frame.Metered g := fun g hg' => (hg g hg').2
  have hsettled : insertBlock s.compressor (wireFrames gs) = h := by rw [insertBlock_eq hsize, hh]
  by_cases hover : s.Overflows z (wireFrames gs)
  · -- the old buffer is sent, and the datagram starts a new one with the flag off
    have hlong := hover.2
    rw [hcontent] at hlong
    have heq : s' = { s with
        compressor := h
        combined := some (wireFrames gs)
        reliableOffset := 0
        prevCompressFailed := false
        packets := s.packets ++ [⟨s.combined.getD [], s.reliableOffset⟩] } := by
      rw [hs', Flushing.storeDatagram, if_pos hlong]
      rfl
    have habs := absorbs_metered z hmet hne ⟨s.compressor, none, []⟩
    have hopen := hs.restart (u := s') hfit habs (by rw [heq]) (by rw [heq]) (by rw [heq])
      (by rw [heq]; simpa using hsettled)
    refine ⟨[], gs, _, by simpa using hopen, fun _ => ?_, fun hno => absurd hover hno⟩
    rw [heq]
    exact ⟨rfl, by simp [Flushing.content, Flushing.openCombined]⟩
  · have hshort : ¬ maxMessageSectionBytes < (s.combined.getD []).length + (wireFrames gs).length +
        (if s.prevCompressFailed then kMessageFrameBytes else 0) := by
      rw [← hcontent]
      exact fun hlong => hover ⟨⟨h, hc⟩, hlong⟩
    cases hp : s.prevCompressFailed with
    | true =>
      -- the sync frame ends the datagram in front
      have hsync : (Frame.mk messageTypeCompressed []).Fits :=
        ⟨show messageTypeCompressed < 32 by decide, by simp⟩
      have heq : s' = { s with
          compressor := h
          prevCompressFailed := true
          combined := some (wireFrames (unrel ++ rel) ++
            wireFrames (⟨messageTypeCompressed, []⟩ :: gs)) } := by
        rw [hs', Flushing.storeDatagram, if_neg hshort, hp]
        simp [hs.combined_eq, kMessageFrameBytes, Frame.wire]
      have habs : AbsorbsAll z t (⟨messageTypeCompressed, []⟩ :: gs)
          ⟨t.settled, some (wireFrames gs), t.delivered ++ gs⟩ := by
        refine .cons (.sync t) ?_
        simpa using absorbs_metered z hmet hne ⟨t.settled, none, t.delivered⟩
      have hopen := hs.extend (u := s') (by simpa [hsync] using hfit) habs rfl
        (by rw [heq]) (by rw [heq]) (by rw [heq])
        (by rw [heq, Track.settled_some, hs.lockstep, hsettled])
      refine ⟨unrel, _, _, hopen, fun hov => absurd hov hover, fun _ => ?_⟩
      rw [heq]
      rfl
    | false =>
      have hnone : t.uncompressed = none := by
        cases started with
        | none =>
          have : s.prevCompressFailed = t.uncompressed.isSome := hflag
          rw [hp] at this
          simpa using this.symm
        | some n =>
          have hn := hsafe n rfl
          have hlen := hflag.2
          rw [hcontent] at hlen
          rw [hp] at hshort
          simp only [Bool.false_eq_true, if_false] at hshort
          omega
      have hhist : t.history = s.compressor := by
        rw [← hs.lockstep, Track.settled, hnone]
      have heq : s' = { s with
          compressor := h
          prevCompressFailed := true
          combined := some (wireFrames (unrel ++ rel) ++ wireFrames gs) } := by
        rw [hs', Flushing.storeDatagram, if_neg hshort, hp]
        simp [hs.combined_eq]
      have habs : AbsorbsAll z t gs ⟨t.history, some (wireFrames gs), t.delivered ++ gs⟩ := by
        simpa [hnone] using absorbs_metered z hmet hne t
      have hopen := hs.extend (u := s') hfit habs rfl (by rw [heq]) (by rw [heq]) (by rw [heq])
        (by rw [heq, Track.settled_some, hhist, hsettled])
      refine ⟨unrel, _, _, hopen, fun hov => absurd hov hover, fun _ => ?_⟩
      rw [heq]
      rfl

theorem Flushing.Open.storeUnmetered {z : Zstd} {s : Flushing} {ds unrel rel gs : List Frame}
    {t : Track} (hs : s.Open z ds unrel rel t) (hnone : t.uncompressed = none)
    (hg : ∀ g ∈ gs, Frame.Fits g ∧ Frame.Unmetered g) {s' : Flushing}
    (hs' : s' = s.storeDatagram 0 (wireFrames gs)) (hp : s.prevCompressFailed = false) :
    ∃ unrel' rel' t', s'.Open z ds unrel' rel' t' ∧ t'.uncompressed = none ∧
      s'.prevCompressFailed = false := by
  have hfit : ∀ g ∈ gs, Frame.Fits g := fun g hg' => (hg g hg').1
  have hun : ∀ g ∈ gs, Frame.Unmetered g := fun g hg' => (hg g hg').2
  by_cases hlong : maxMessageSectionBytes <
      (s.combined.getD []).length + (wireFrames gs).length + 0
  · have heq : s' = { s with
        combined := some (wireFrames gs)
        reliableOffset := 0
        prevCompressFailed := false
        packets := s.packets ++ [⟨s.combined.getD [], s.reliableOffset⟩] } := by
      rw [hs', Flushing.storeDatagram, if_pos hlong]
      rfl
    have habs : AbsorbsAll z ⟨s.compressor, none, []⟩ gs ⟨s.compressor, none, []⟩ :=
      absorbs_unmetered z hun rfl
    have hopen := hs.restart (u := s') hfit habs (by rw [heq]) (by rw [heq]) (by rw [heq])
      (by rw [heq]; rfl)
    exact ⟨[], gs, _, by simpa using hopen, rfl, by rw [heq]⟩
  · have heq : s' = { s with
        combined := some (wireFrames (unrel ++ rel) ++ wireFrames gs) } := by
      rw [hs', Flushing.storeDatagram, if_neg hlong]
      simp [hs.combined_eq]
    have hopen := hs.extend (u := s') hfit (absorbs_unmetered z hun hnone) (List.append_nil _).symm
      (by rw [heq]) (by rw [heq]) (by rw [heq]) (by rw [heq]; exact hs.lockstep)
    exact ⟨unrel, _, t, by simpa using hopen, hnone, by rw [heq]; exact hp⟩

@[simp] theorem Flushing.openCombined_compressor (s : Flushing) :
    s.openCombined.compressor = s.compressor := by
  unfold openCombined
  split
  · rfl
  · split <;> rfl

@[simp] theorem Flushing.openCombined_prevCompressFailed (s : Flushing) :
    s.openCombined.prevCompressFailed = s.prevCompressFailed := by
  unfold openCombined
  split
  · rfl
  · split <;> rfl

@[simp] theorem Flushing.openCombined_openCombined (s : Flushing) :
    s.openCombined.openCombined = s.openCombined := by
  cases hc : s.combined with
  | some c => simp [openCombined, hc]
  | none => cases hu : s.finalUnreliable <;> simp [openCombined, hc, hu]

def Flushing.Inv (z : Zstd) (started : Option Nat) (s : Flushing) (ds : List Frame) : Prop :=
  (s.Idle z ds ∧ started = none) ∨ ∃ unrel rel t, s.Open z ds unrel rel t ∧ s.Flag t started

theorem Flushing.Inv.open {z : Zstd} {started : Option Nat} {s : Flushing} {ds : List Frame}
    (h : s.Inv z started ds) :
    ∃ unrel rel t, s.openCombined.Open z ds unrel rel t ∧ s.openCombined.Flag t started := by
  rcases h with ⟨h, rfl⟩ | ⟨unrel, rel, t, h, hf⟩
  · obtain ⟨unrel, hopen⟩ := h.open
    exact ⟨unrel, [], _, hopen, by simp [Flushing.Flag, h.flag]⟩
  · rw [h.openCombined]
    exact ⟨unrel, rel, t, h, hf⟩

theorem flushDatagrams_cons {z : Zstd} {s s' : Flushing} {attempt : Bool} {datagram : Bytes}
    {rest : List (Bool × Bytes)}
    (h : flushDatagrams z s ((attempt, datagram) :: rest) = .ok s') :
    ∃ s₁, s.flushDatagram z attempt datagram = .ok s₁ ∧ flushDatagrams z s₁ rest = .ok s' := by
  unfold flushDatagrams at h ⊢
  rw [List.foldlM_cons] at h
  cases h₁ : s.flushDatagram z attempt datagram with
  | error e => simp [h₁, bind, Except.bind] at h
  | ok s₁ =>
    rw [h₁] at h
    exact ⟨s₁, rfl, h⟩

theorem flushDatagrams_unmetered {z : Zstd} {us : List (List Frame)}
    (hus : ∀ fs ∈ us, ∀ f ∈ fs, Frame.Fits f ∧ Frame.Unmetered f) {s : Flushing}
    {ds : List Frame} (hs : s.Inv z none ds) (hp : s.prevCompressFailed = false)
    {rest : List (Bool × Bytes)} {s' : Flushing}
    (hsafe : SyncSafe z none s (us.map (fun fs => (false, wireFrames fs)) ++ rest))
    (h : flushDatagrams z s (us.map (fun fs => (false, wireFrames fs)) ++ rest) = .ok s') :
    ∃ s₁, s₁.Inv z none ds ∧ SyncSafe z none s₁ rest ∧ flushDatagrams z s₁ rest = .ok s' := by
  induction us generalizing s with
  | nil => exact ⟨s, hs, hsafe, h⟩
  | cons fs us ih =>
    rw [List.map_cons, List.cons_append] at hsafe h
    obtain ⟨s₁, hstep, hrest⟩ := flushDatagrams_cons h
    have hsafe₁ := (hsafe.2 s₁ hstep).2 (by simp)
    obtain ⟨unrel, rel, t, hopen, hflag⟩ := hs.open
    have hnone : t.uncompressed = none := by
      have : s.openCombined.prevCompressFailed = t.uncompressed.isSome := hflag
      rw [Flushing.openCombined_prevCompressFailed, hp] at this
      simpa using this.symm
    have heq : s₁ = s.openCombined.storeDatagram 0 (wireFrames fs) := by
      simpa [Flushing.flushDatagram] using hstep.symm
    obtain ⟨unrel', rel', t', hopen', hnone', hp'⟩ := hopen.storeUnmetered hnone
      (hus fs (by simp)) heq (by simpa using hp)
    have hinv : s₁.Inv z none ds :=
      .inr ⟨unrel', rel', t', hopen', by simp [Flushing.Flag, hp', hnone']⟩
    exact ih (fun gs hgs => hus gs (by simp [hgs])) hinv hp' hsafe₁ hrest

theorem Flushing.Inv.flushDatagram {z : Zstd} {started : Option Nat} {s s' : Flushing}
    {ds gs : List Frame} (hs : s.Inv z started ds)
    (hg : ∀ g ∈ gs, Frame.Fits g ∧ Frame.Metered g)
    (hne : gs ≠ []) (hsize : (wireFrames gs).length ≤ maxMessageSectionBytes)
    (hsafe : ∀ n, started = some n → s.Incompressible z (wireFrames gs) →
      maxMessageSectionBytes < n + (wireFrames gs).length)
    (h : s.flushDatagram z true (wireFrames gs) = .ok s') :
    (s.Overflows z (wireFrames gs) → s'.Inv z (some (wireFrames gs).length) (ds ++ gs)) ∧
    (¬ s.Overflows z (wireFrames gs) → s'.Inv z none (ds ++ gs)) := by
  obtain ⟨unrel, rel, t, hopen, hflag⟩ := hs.open
  have hover : s.openCombined.Overflows z (wireFrames gs) ↔ s.Overflows z (wireFrames gs) := by
    simp [Flushing.Overflows, Flushing.Incompressible, Flushing.content]
  rw [Flushing.flushDatagram] at h
  simp only [if_true] at h
  cases hc : compress z s.openCombined.compressor (wireFrames gs) with
  | error e =>
    rw [hc] at h
    cases h
  | ok r =>
    obtain ⟨history, written⟩ := r
    rw [hc] at h
    cases written with
    | some written =>
      simp only [Except.ok.injEq] at h
      obtain ⟨unrel', rel', t', hopen', hflag'⟩ := hopen.storeCompressed hg hsize hc h.symm
      refine ⟨fun ho => ?_, fun _ => .inr ⟨unrel', rel', t', hopen', hflag'⟩⟩
      obtain ⟨history', hc'⟩ := (hover.mpr ho).1
      rw [hc] at hc'
      cases hc'
    | none =>
      simp only [Except.ok.injEq] at h
      have hinc : s.Incompressible z (wireFrames gs) := ⟨history, by simpa using hc⟩
      obtain ⟨unrel', rel', t', hopen', hyes, hno⟩ := hopen.storeDatagram hflag hg hne hsize hc
        (fun n hn => hsafe n hn hinc) h.symm
      exact ⟨fun ho => .inr ⟨unrel', rel', t', hopen', hyes (hover.mpr ho)⟩,
        fun ho => .inr ⟨unrel', rel', t', hopen', hno (fun h => ho (hover.mp h))⟩⟩

theorem flushDatagrams_metered {z : Zstd} {cut : List (List Frame)}
    (hcut : ∀ gs ∈ cut, (∀ g ∈ gs, Frame.Fits g ∧ Frame.Metered g) ∧ gs ≠ [] ∧
      (wireFrames gs).length ≤ maxMessageSectionBytes) {started : Option Nat} {s : Flushing}
    {ds : List Frame} (hs : s.Inv z started ds)
    (hsafe : SyncSafe z started s (cut.map fun gs => (true, wireFrames gs))) {s' : Flushing}
    (h : flushDatagrams z s (cut.map fun gs => (true, wireFrames gs)) = .ok s') :
    ∃ started', s'.Inv z started' (ds ++ cut.flatten) := by
  induction cut generalizing s started ds with
  | nil =>
    cases h
    exact ⟨started, by simpa using hs⟩
  | cons gs cut ih =>
    rw [List.map_cons] at hsafe h
    obtain ⟨s₁, hstep, hrest⟩ := flushDatagrams_cons h
    obtain ⟨hg, hne, hsize⟩ := hcut gs (by simp)
    have hinv := hs.flushDatagram hg hne hsize (fun n hn => hsafe.1 n hn rfl) hstep
    have hsafe₁ := hsafe.2 s₁ hstep
    have hrec : ∀ started', s₁.Inv z started' (ds ++ gs) →
        SyncSafe z started' s₁ (cut.map fun gs => (true, wireFrames gs)) →
        ∃ started'', s'.Inv z started'' (ds ++ gs ++ cut.flatten) := fun _ h₁ h₂ =>
      ih (fun x hx => hcut x (by simp [hx])) h₁ h₂ hrest
    by_cases ho : s.Overflows z (wireFrames gs)
    · simpa using hrec _ (hinv.1 ho) (hsafe₁.1 ⟨rfl, ho⟩)
    · simpa using hrec _ (hinv.2 ho) (hsafe₁.2 (by simpa using ho))

theorem Flushing.Inv.done {z : Zstd} {started : Option Nat} {s : Flushing} {ds : List Frame}
    (h : s.Inv z started ds) : Transmits z s.done.packets s.done.compressor ds := by
  rcases h with ⟨h, _⟩ | ⟨unrel, rel, t, h, _⟩
  · simpa [Flushing.done, h.combined_none] using h.transmits
  · cases hc : wireFrames (unrel ++ rel) with
    | nil =>
      -- nothing was put into the buffer, so nothing is lost when it is dropped
      have hrel : rel = [] := by
        cases rel with
        | nil => rfl
        | cons f fs => simp [OutgoingQueue.Frame.wire_ne_nil] at hc
      have hdone : s.done = s := by simp only [Flushing.done, h.combined_eq, hc]
      obtain ⟨h₀, ds₀, htr, habs, rfl⟩ := h.earlier
      subst hrel
      cases habs
      rw [hdone, ← h.lockstep]
      simpa using htr
    | cons b bs =>
      have hdone : s.done = s.shrinkWrapAndSendReliable := by
        simp [Flushing.done, h.combined_eq, hc]
      rw [hdone]
      exact h.send

/-! ## Whole runs -/

/-- What is in the unreliable and the unmetered queue when Flush is called: the last unreliable
datagram, which shares a packet with reliable data, and the unmetered ones. -/
structure OtherTraffic where
  finalUnreliable : Option (List Frame)
  unmetered : List (List Frame)
  unreliable_frames : ∀ fs ∈ finalUnreliable, ∀ f ∈ fs, Frame.Fits f ∧ Frame.Unreliable f
  unmetered_frames : ∀ fs ∈ unmetered, ∀ f ∈ fs, Frame.Fits f ∧ Frame.Unmetered f

structure FlushSender where
  reliable : ReliableSender
  compressor : RingBuffer
  packets : List Packet

namespace FlushSender

def initial : FlushSender := ⟨.initial, .empty, []⟩

/-- Takes up to `budget` datagrams, the low-priority ones once there are no others: bandwidth
control and the FEC window may end the loop at any datagram. -/
def takeMetered : Nat → ReliableSender → ReliableSender
  | 0, s => s
  | budget + 1, s =>
    let s' := s.step (.flush .reliable)
    if s'.sent.length = s.sent.length then takeMetered budget (s'.step (.flush .lowPri))
    else takeMetered budget s'

def items (s : FlushSender) (other : OtherTraffic) (budget : Nat) : List (Bool × Bytes) :=
  other.unmetered.map (fun fs => (false, wireFrames fs)) ++
    ((takeMetered budget s.reliable).sent.drop s.reliable.sent.length).map (true, ·)

def start (s : FlushSender) (other : OtherTraffic) : Flushing :=
  ⟨s.compressor, other.finalUnreliable.map wireFrames, none, 0, false, s.packets⟩

def flush (z : Zstd) (s : FlushSender) (other : OtherTraffic) (budget : Nat) :
    Except ZstdError FlushSender :=
  match flushDatagrams z (s.start other) (s.items other budget) with
  | .error e => .error e
  | .ok f => .ok ⟨takeMetered budget s.reliable, f.done.compressor, f.done.packets⟩

inductive Event where
  | queueReliable : Channel → Bytes → Event
  | flush : OtherTraffic → Nat → Event

def step (z : Zstd) (s : FlushSender) : Event → Except ZstdError FlushSender
  | .queueReliable ch data => .ok { s with reliable := s.reliable.step (.queueReliable ch data) }
  | .flush other budget => s.flush z other budget

def SyncSafeAt (z : Zstd) (s : FlushSender) : Event → Prop
  | .queueReliable _ _ => True
  | .flush other budget => SyncSafe z none (s.start other) (s.items other budget)

def Steps (z : Zstd) (s : FlushSender) (ev : Event) (s' : FlushSender) : Prop :=
  s.step z ev = .ok s'

def Inv (z : Zstd) (s : FlushSender) : Prop :=
  ∃ msgs cut waiting, s.reliable.Inv msgs cut waiting ∧
    Transmits z s.packets s.compressor cut.flatten

theorem inv_initial (z : Zstd) : initial.Inv z :=
  ⟨_, _, _, ReliableSender.inv_initial, .nil⟩

theorem takeMetered_inv (budget : Nat) {s : ReliableSender} {msgs : Channel → List Bytes}
    {cut : List (List Frame)} {waiting : QueueIndex → List Frame} (hs : s.Inv msgs cut waiting) :
    ∃ extra waiting', (takeMetered budget s).Inv msgs (cut ++ extra) waiting' := by
  induction budget generalizing s cut waiting with
  | zero => exact ⟨[], waiting, by simpa [takeMetered] using hs⟩
  | succ budget ih =>
    obtain ⟨extra₁, waiting₁, hs₁⟩ := hs.flush .reliable
    rw [takeMetered]
    split
    · obtain ⟨extra₂, waiting₂, hs₂⟩ := hs₁.flush .lowPri
      obtain ⟨extra₃, waiting₃, hs₃⟩ := ih hs₂
      exact ⟨extra₁ ++ extra₂ ++ extra₃, waiting₃, by simpa using hs₃⟩
    · obtain ⟨extra₂, waiting₂, hs₂⟩ := ih hs₁
      exact ⟨extra₁ ++ extra₂, waiting₂, by simpa using hs₂⟩

theorem idle_start {z : Zstd} {s : FlushSender} {ds : List Frame}
    (h : Transmits z s.packets s.compressor ds) (other : OtherTraffic) :
    (s.start other).Idle z ds where
  transmits := h
  combined_none := rfl
  offset_zero := rfl
  flag := rfl
  unreliable := by
    cases hu : other.finalUnreliable with
    | none => exact .inl (by simp [start, hu])
    | some fs =>
      have hf := other.unreliable_frames fs (by simp [hu])
      exact .inr ⟨fs, by simp [start, hu], fun f h => (hf f h).1, fun f h => (hf f h).2⟩

theorem Inv.flush {z : Zstd} {s s' : FlushSender} (hs : s.Inv z) {other : OtherTraffic}
    {budget : Nat} (hsafe : s.SyncSafeAt z (.flush other budget))
    (h : s.flush z other budget = .ok s') : s'.Inv z := by
  obtain ⟨msgs, cut, waiting, hrel, htr⟩ := hs
  obtain ⟨extra, waiting', hrel'⟩ := takeMetered_inv budget hrel
  have htaken : (takeMetered budget s.reliable).sent.drop s.reliable.sent.length =
      extra.map wireFrames := by
    rw [hrel'.sent_eq, hrel.sent_eq]
    simp
  have hitems : s.items other budget = other.unmetered.map (fun fs => (false, wireFrames fs)) ++
      extra.map (fun gs => (true, wireFrames gs)) := by
    rw [items, htaken, List.map_map]
    rfl
  have hextra : ∀ gs ∈ extra, (∀ g ∈ gs, Frame.Fits g ∧ Frame.Metered g) ∧ gs ≠ [] ∧
      (wireFrames gs).length ≤ maxMessageSectionBytes := by
    intro gs hgs
    have hmem : wireFrames gs ∈ (takeMetered budget s.reliable).sent := by
      rw [hrel'.sent_eq]
      exact List.mem_map_of_mem (List.mem_append_right _ hgs)
    have hsize := hrel'.sent_size _ hmem
    refine ⟨fun g hg => ?_, fun hnil => hsize.1 (by rw [hnil]; rfl), hsize.2⟩
    have hflat : g ∈ (cut ++ extra).flatten :=
      List.mem_flatten.mpr ⟨gs, List.mem_append_right _ hgs, hg⟩
    exact ⟨hrel'.sent_fits g hflat, hrel'.sent_carried g hflat⟩
  unfold FlushSender.flush at h
  cases hf : flushDatagrams z (s.start other) (s.items other budget) with
  | error e =>
    rw [hf] at h
    cases h
  | ok f =>
    rw [hf] at h
    cases h
    have hidle : (s.start other).Inv z none cut.flatten := .inl ⟨idle_start htr other, rfl⟩
    have hsafe' : SyncSafe z none (s.start other) (s.items other budget) := hsafe
    rw [hitems] at hf hsafe'
    obtain ⟨f₁, hinv₁, hsafe₁, hf₁⟩ := flushDatagrams_unmetered other.unmetered_frames hidle rfl
      hsafe' hf
    obtain ⟨started, hinv₂⟩ := flushDatagrams_metered hextra hinv₁ hsafe₁ hf₁
    exact ⟨msgs, cut ++ extra, waiting', hrel', by simpa using hinv₂.done⟩

theorem Inv.step {z : Zstd} {s s' : FlushSender} {ev : Event} (hs : s.Inv z)
    (h : Restrict (SyncSafeAt z) (Steps z) s ev s') : s'.Inv z := by
  obtain ⟨hsafe, hstep⟩ := h
  cases ev with
  | queueReliable ch data =>
    cases hstep
    obtain ⟨msgs, cut, waiting, hrel, htr⟩ := hs
    by_cases hlen : tonkMaxReliableBytes < data.length
    · exact ⟨msgs, cut, waiting, by rw [ReliableSender.step_too_large hlen]; exact hrel, htr⟩
    · obtain ⟨waiting', ms, _, hrel'⟩ := hrel.queueReliable
        (ReliableSender.queueReliable_ok hlen)
      exact ⟨_, cut, waiting', hrel', htr⟩
  | flush other budget => exact hs.flush hsafe hstep

end FlushSender

/-- How a packet reaches the messages: by its datagram, received in sequence and with the padding
sendQueuedDatagram added, or out of the decoder window. -/
inductive Path where
  | arrived : Bool → Option (Fin 16) → Path
  | resumed : Path
  deriving DecidableEq, Repr

def paddingFrames : Option (Fin 16) → List Frame
  | none => []
  | some n => [⟨messageTypePadding, List.replicate n.val 0⟩]

def receivePacket (z : Zstd) (s : Messages) (p : Packet) : Path → Except MessageError Messages
  | .arrived firstSeen padding =>
    processMessages z true firstSeen s (p.messages ++ wireFrames (paddingFrames padding))
  | .resumed => resumeMessages z s (p.messages.drop p.reliableOffset)

def receivePackets (z : Zstd) (ps : List (Packet × Path)) : Except MessageError Messages :=
  ps.foldlM (fun s p => receivePacket z s p.1 p.2) .initial

theorem receivePacket_follows {z : Zstd} {unrel rel : List Frame}
    (hfit : ∀ f ∈ unrel ++ rel, Frame.Fits f) (hun : ∀ f ∈ unrel, Frame.Unreliable f)
    {s : Messages} {t : Track} {c c' : IncomingChannels} (hs : s.channels.Agrees c)
    (ha : AbsorbsAll z ⟨s.decompressor, none, []⟩ rel t)
    (hc : t.delivered.foldlM deliverMessage c = .ok c') (path : Path) :
    ∃ s', receivePacket z s ⟨wireFrames (unrel ++ rel), (wireFrames unrel).length⟩ path = .ok s' ∧
      s'.decompressor = t.settled ∧ s'.channels.Agrees c' := by
  cases path with
  | resumed =>
    have hdrop : (wireFrames (unrel ++ rel)).drop (wireFrames unrel).length = wireFrames rel := by
      simp
    simp only [receivePacket, hdrop]
    exact resumeMessages_follows (fun f hf => hfit f (List.mem_append_right _ hf)) hs ha hc
  | arrived firstSeen padding =>
    have hpad : ∀ f ∈ paddingFrames padding, Frame.Fits f := by
      intro f hf
      cases padding with
      | none => simp [paddingFrames] at hf
      | some n =>
        have hn := n.isLt
        simp only [paddingFrames, List.mem_singleton] at hf
        subst hf
        refine ⟨show messageTypePadding < 32 by decide, ?_⟩
        simp only [List.length_replicate]
        omega
    simp only [receivePacket, ← wireFrames_append]
    refine processMessages_follows ?_ hun ?_ hs ha hc
    · intro f hf
      rcases List.mem_append.mp hf with hf | hf
      · exact hfit f hf
      · exact hpad f hf
    · cases padding with
      | none => exact .inl rfl
      | some n => exact .inr ⟨_, rfl⟩

theorem Transmits.receives {z : Zstd} {ps : List Packet} {h : RingBuffer} {ds : List Frame}
    (htr : Transmits z ps h ds) {c : IncomingChannels}
    (hc : ds.foldlM deliverMessage .initial = .ok c) (paths : List Path)
    (hlen : paths.length = ps.length) :
    ∃ r, receivePackets z (ps.zip paths) = .ok r ∧ r.decompressor = h ∧ r.channels.Agrees c := by
  induction htr generalizing c paths with
  | nil =>
    cases hc
    exact ⟨.initial, by simp [receivePackets, pure, Except.pure], rfl, fun ch => ⟨rfl, rfl⟩⟩
  | @snoc ps h ds unrel rel t htr hfit hun habs ih =>
    obtain ⟨c₁, hc₁, hc₂⟩ := foldlM_append_ok hc
    obtain ⟨paths, path, rfl⟩ : ∃ paths' path, paths = paths' ++ [path] := by
      rcases List.eq_nil_or_concat paths with rfl | ⟨paths', path, rfl⟩
      · simp at hlen
      · exact ⟨paths', path, by simp⟩
    have hlen' : paths.length = ps.length := by simpa using hlen
    obtain ⟨r, hr, hdec, hagree⟩ := ih hc₁ paths hlen'
    subst hdec
    obtain ⟨r', hr', hdec', hagree'⟩ := receivePacket_follows hfit hun hagree habs hc₂ path
    refine ⟨r', ?_, hdec', hagree'⟩
    unfold receivePackets at hr ⊢
    rw [List.zip_append hlen'.symm, List.foldlM_append, hr]
    simp only [List.zip_cons_cons, List.zip_nil_left, List.foldlM_cons, List.foldlM_nil]
    show (receivePacket z r _ path >>= pure) = _
    rw [hr']
    rfl

/-- In a run whose flushes are all sync-safe, a receiver that handled the packets sent so far has
made the allocations and commits of the compressor, and has delivered the messages of the datagrams
that were flushed. -/
theorem compression_history_lockstep (z : Zstd) (evs : List FlushSender.Event) (s : FlushSender)
    (hrun : Run (Restrict (FlushSender.SyncSafeAt z) (FlushSender.Steps z)) .initial evs s)
    (paths : List Path) (hlen : paths.length = s.packets.length) :
    ∃ r c, receivePackets z (s.packets.zip paths) = .ok r ∧ r.decompressor = s.compressor ∧
      deliverDatagrams .initial s.reliable.sent = .ok c ∧ r.channels.Agrees c := by
  obtain ⟨msgs, cut, waiting, hrel, htr⟩ :=
    hrun.invariant (FlushSender.inv_initial z) fun _ _ _ hs hstep => hs.step hstep
  obtain ⟨c', hall, _⟩ := hrel.delivers
  -- what is still queued comes last, so what was sent is delivered too
  obtain ⟨c, hsent⟩ : ∃ c, deliverDatagrams .initial s.reliable.sent = .ok c := by
    rw [ReliableSender.datagrams, List.append_assoc, deliverDatagrams, List.foldlM_append] at hall
    cases hc : deliverDatagrams .initial s.reliable.sent with
    | error e =>
      rw [deliverDatagrams] at hc
      rw [hc] at hall
      cases hall
    | ok c => exact ⟨c, rfl⟩
  have hframes : cut.flatten.foldlM deliverMessage .initial = .ok c := by
    rw [hrel.sent_eq, deliverDatagrams_wireFrames _ hrel.sent_fits] at hsent
    exact hsent
  obtain ⟨r, hr, hdec, hagree⟩ := htr.receives hframes paths hlen
  exact ⟨r, c, hr, hdec, hsent, hagree⟩

/-! ## The missing sync frame -/

/-- Zstd on blocks of less than 7 bytes, which it never compresses. -/
def smallBlockZstd : Zstd where
  compressBlock _ _ _ := .ok []
  decompressBlock _ _ _ := .error .other
  decompress_compress := by
    intro history offset data c hc hne
    cases hc
    exact absurd rfl hne

theorem smallBlockZstd_compress (h : RingBuffer) (data : Bytes) :
    compress smallBlockZstd h data = .ok (h.insert data, none) := by
  simp [compress, smallBlockZstd]

def shortMessages : List FlushSender.Event :=
  [.queueReliable (.reliable 0) [7], .queueReliable (.lowPri 0) [9]]

def fullUnreliable : List Frame :=
  [⟨messageTypeUnreliable, List.replicate 1279 0⟩, ⟨messageTypeUnreliable, List.replicate 23 0⟩]

def fullTraffic : OtherTraffic where
  finalUnreliable := some fullUnreliable
  unmetered := []
  unreliable_frames := by
    intro fs hfs f hf
    cases hfs
    simp only [fullUnreliable, List.mem_cons, List.not_mem_nil, or_false] at hf
    rcases hf with rfl | rfl <;>
      simp only [Frame.Fits, Frame.Unreliable, List.length_replicate] <;> decide
  unmetered_frames := by simp

def noTraffic : OtherTraffic := ⟨none, [], by simp, by simp⟩

theorem queueReliableLoop_empty (messageType : Nat) (b : UInt8) :
    OutgoingQueue.empty.queueReliableLoop messageType [b] =
      ⟨some (Frame.mk (messageType + tonkChannelCount) [b]).wire, [], 3⟩ := by
  rw [OutgoingQueue.queueReliableLoop, OutgoingQueue.queueReliableLoop]
  simp [OutgoingQueue.appendSplitReliable, OutgoingQueue.empty,
    OutgoingQueue.pushAndGetFreshBuffer, OutgoingQueue.write, kMessageFrameBytes,
    kMessageSplitMinimumBytes, maxMessageSectionBytes, kMinPossibleDatagramByteLimit,
    kUDPIPV6MaxDatagramBytes, kMaxOverheadBytes, kTimestampBytes, kSequenceNumberBytes,
    kHandshakeBytes, kNonceBytes, kFlagsBytes, kEncryptionTagBytes]

def shortReliable : Frame := ⟨messageTypeReliable + tonkChannelCount, [7]⟩
def shortLowPri : Frame := ⟨messageTypeLowPri + tonkChannelCount, [9]⟩

def shortSender : FlushSender where
  reliable :=
    { queues := Function.update
        (Function.update (fun _ => .empty) .reliable ⟨some shortReliable.wire, [], 3⟩)
        .lowPri ⟨some shortLowPri.wire, [], 3⟩
      sent := [] }
  compressor := .empty
  packets := []

theorem step_queueReliable (s : ReliableSender) (ch : Channel) {data : Bytes}
    (h : ¬ tonkMaxReliableBytes < data.length) :
    s.step (.queueReliable ch data) =
      ⟨Function.update s.queues ch.queueIndex
        ((s.queues ch.queueIndex).queueReliableLoop ch.messageType data), s.sent⟩ := by
  simp only [ReliableSender.step, ReliableSender.queueReliable, if_neg h, ch.queueIndex_eq]

theorem shortMessages_queued :
    (FlushSender.initial.reliable.step (.queueReliable (.reliable 0) [7])).step
      (.queueReliable (.lowPri 0) [9]) = shortSender.reliable := by
  have h₁ : OutgoingQueue.empty.queueReliableLoop messageTypeReliable [7] =
      ⟨some shortReliable.wire, [], 3⟩ := queueReliableLoop_empty _ _
  have h₂ : OutgoingQueue.empty.queueReliableLoop messageTypeLowPri [9] =
      ⟨some shortLowPri.wire, [], 3⟩ := queueReliableLoop_empty _ _
  rw [step_queueReliable _ _ (by decide), step_queueReliable _ _ (by decide)]
  simp [Channel.queueIndex, FlushSender.initial, ReliableSender.initial, shortSender,
    Channel.messageType, h₁, h₂]

theorem shortSender_taken (other : OtherTraffic) :
    shortSender.items other 2 = other.unmetered.map (fun fs => (false, wireFrames fs)) ++
      [(true, shortReliable.wire), (true, shortLowPri.wire)] := by
  rfl

theorem fullUnreliable_length : (wireFrames fullUnreliable).length = maxMessageSectionBytes := by
  simp only [fullUnreliable, wireFrames_cons, wireFrames_nil, List.length_append,
    Frame.wire_length, List.length_replicate]
  rfl

/-- Flush without a sync frame: the first message does not fit behind the unreliable ones, starts a
new combined datagram, and resets the flag that would separate it from the second message. -/
theorem flush_unsynced :
    shortSender.flush smallBlockZstd fullTraffic 2 =
      .ok ⟨FlushSender.takeMetered 2 shortSender.reliable,
        (RingBuffer.empty.insert shortReliable.wire).insert shortLowPri.wire,
        [⟨wireFrames fullUnreliable, maxMessageSectionBytes⟩,
          ⟨wireFrames [shortReliable, shortLowPri], 0⟩]⟩ := by
  have hlen := fullUnreliable_length
  have hstart : shortSender.start fullTraffic =
      ⟨.empty, some (wireFrames fullUnreliable), none, 0, false, []⟩ := rfl
  unfold FlushSender.flush
  rw [hstart, shortSender_taken]
  generalize wireFrames fullUnreliable = u at hlen
  have h₁ : Flushing.flushDatagram smallBlockZstd ⟨.empty, some u, none, 0, false, []⟩ true
      shortReliable.wire = .ok ⟨RingBuffer.empty.insert shortReliable.wire, none,
        some shortReliable.wire, 0, false, [⟨u, maxMessageSectionBytes⟩]⟩ := by
    simp [Flushing.flushDatagram, Flushing.openCombined, smallBlockZstd_compress,
      Flushing.storeDatagram, Flushing.shrinkWrapAndSendReliable, hlen,
      OutgoingQueue.Frame.wire_ne_nil]
  have h₂ : Flushing.flushDatagram smallBlockZstd ⟨RingBuffer.empty.insert shortReliable.wire, none,
        some shortReliable.wire, 0, false, [⟨u, maxMessageSectionBytes⟩]⟩ true shortLowPri.wire =
      .ok ⟨(RingBuffer.empty.insert shortReliable.wire).insert shortLowPri.wire, none,
        some (shortReliable.wire ++ shortLowPri.wire), 0, true,
        [⟨u, maxMessageSectionBytes⟩]⟩ := by
    have hfits : ¬ maxMessageSectionBytes <
        shortReliable.wire.length + shortLowPri.wire.length := by decide
    simp [Flushing.flushDatagram, Flushing.openCombined, smallBlockZstd_compress,
      Flushing.storeDatagram, hfits]
  have hrun : flushDatagrams smallBlockZstd ⟨.empty, some u, none, 0, false, []⟩
      [(true, shortReliable.wire), (true, shortLowPri.wire)] =
        .ok ⟨(RingBuffer.empty.insert shortReliable.wire).insert shortLowPri.wire, none,
          some (shortReliable.wire ++ shortLowPri.wire), 0, true,
          [⟨u, maxMessageSectionBytes⟩]⟩ := by
    simp only [flushDatagrams, List.foldlM_cons, List.foldlM_nil, h₁, h₂, bind, Except.bind, pure,
      Except.pure]
  have hitems : fullTraffic.unmetered.map (fun fs => (false, wireFrames fs)) ++
      [(true, shortReliable.wire), (true, shortLowPri.wire)] =
        [(true, shortReliable.wire), (true, shortLowPri.wire)] := rfl
  rw [hitems, hrun]
  rfl

theorem run_shortMessages (z : Zstd) :
    Run (Restrict (FlushSender.SyncSafeAt z) (FlushSender.Steps z)) .initial shortMessages
      shortSender := by
  have hlast : FlushSender.Steps z
      { FlushSender.initial with
        reliable := FlushSender.initial.reliable.step (.queueReliable (.reliable 0) [7]) }
      (.queueReliable (.lowPri 0) [9]) shortSender := by
    simp only [FlushSender.Steps, FlushSender.step, shortMessages_queued]
    rfl
  exact .cons ⟨trivial, rfl⟩ (.cons ⟨trivial, hlast⟩ (.nil _))

theorem shortFrames : ∀ f ∈ [shortReliable, shortLowPri], Frame.Fits f ∧ Frame.Metered f := by
  intro f hf
  simp only [List.mem_cons, List.not_mem_nil, or_false] at hf
  rcases hf with rfl | rfl
  · exact ⟨⟨by decide, by decide⟩, .reliable 0, by decide⟩
  · exact ⟨⟨by decide, by decide⟩, .lowPri 0, by decide⟩

/-- The receiver inserts the two datagrams as one. -/
theorem compression_history_diverges :
    ∃ s r, Run (FlushSender.Steps smallBlockZstd) .initial
        (shortMessages ++ [.flush fullTraffic 2]) s ∧
      s.packets.length = 2 ∧
      receivePackets smallBlockZstd (s.packets.zip [.resumed, .resumed]) = .ok r ∧
      r.decompressor ≠ s.compressor := by
  have hrun := (run_shortMessages smallBlockZstd).mono fun _ _ _ h => h.2
  have hun := fullTraffic.unreliable_frames fullUnreliable rfl
  have hfirst : Transmits smallBlockZstd
      [⟨wireFrames fullUnreliable, maxMessageSectionBytes⟩] .empty [] := by
    have h := Transmits.snoc (.nil (z := smallBlockZstd))
      (fun f hf => (hun f (by simpa using hf)).1) (fun f hf => (hun f hf).2) (.nil _)
    simpa [fullUnreliable_length] using h
  have hfits : ∀ f ∈ [] ++ [shortReliable, shortLowPri], Frame.Fits f :=
    fun f hf => (shortFrames f hf).1
  have hboth := hfirst.snoc hfits (by simp)
    (absorbs_metered smallBlockZstd (fun f hf => (shortFrames f hf).2) (by simp)
      ⟨.empty, none, []⟩)
  obtain ⟨c, hc⟩ : ∃ c, [shortReliable, shortLowPri].foldlM deliverMessage .initial = .ok c :=
    ⟨_, rfl⟩
  obtain ⟨r, hr, hdec, _⟩ := hboth.receives hc [.resumed, .resumed] rfl
  refine ⟨_, r, hrun.snoc flush_unsynced, rfl, hr, ?_⟩
  rw [hdec]
  decide

theorem shortSender_syncSafe :
    shortSender.SyncSafeAt smallBlockZstd (.flush noTraffic 2) := by
  have hover : ¬ Flushing.Overflows smallBlockZstd (shortSender.start noTraffic)
      shortReliable.wire := by
    intro h
    have := h.2
    revert this
    decide
  have hitems : shortSender.items noTraffic 2 =
      [(true, shortReliable.wire), (true, shortLowPri.wire)] := rfl
  rw [FlushSender.SyncSafeAt, hitems]
  refine ⟨by simp, fun s' _ => ⟨fun h => absurd h.2 hover, fun _ => ⟨by simp, fun s'' _ => ?_⟩⟩⟩
  exact ⟨fun _ => trivial, fun _ => trivial⟩

theorem compression_history_lockstep_short :
    ∃ s r c, Run (Restrict (FlushSender.SyncSafeAt smallBlockZstd)
        (FlushSender.Steps smallBlockZstd)) .initial (shortMessages ++ [.flush noTraffic 2]) s ∧
      s.packets.length = 1 ∧
      receivePackets smallBlockZstd (s.packets.zip [.arrived true (some 5)]) = .ok r ∧
      r.decompressor = s.compressor ∧
      deliverDatagrams .initial s.reliable.sent = .ok c ∧ r.channels.Agrees c := by
  obtain ⟨s, hs, hpackets⟩ : ∃ s, shortSender.flush smallBlockZstd noTraffic 2 = .ok s ∧
      s.packets.length = 1 := ⟨_, rfl, rfl⟩
  have hstep : Restrict (FlushSender.SyncSafeAt smallBlockZstd)
      (FlushSender.Steps smallBlockZstd) shortSender (.flush noTraffic 2) s :=
    ⟨shortSender_syncSafe, hs⟩
  have hrun := (run_shortMessages smallBlockZstd).snoc hstep
  obtain ⟨r, c, hr⟩ := compression_history_lockstep smallBlockZstd _ s hrun
    [.arrived true (some 5)] hpackets.symm
  exact ⟨s, r, c, hrun, hpackets, hr⟩

end Tonk.Session
