import Tonk.FileTransfer.Transfer

set_option autoImplicit false

namespace Tonk.FileTransfer
open Protocol LittleEndian

inductive Chunks (content : Bytes) : Nat → Nat → List Bytes → Prop where
  | nil (start : Nat) : Chunks content start start []
  | cons {start stop n : Nat} {chunks : List Bytes} : 0 < n → start + n ≤ content.length →
      Chunks content (start + n) stop chunks →
      Chunks content start stop ((content.drop start).take n :: chunks)

theorem Chunks.le {content : Bytes} {start stop : Nat} {chunks : List Bytes}
    (h : Chunks content start stop chunks) : start ≤ stop := by
  induction h with
  | nil => exact Nat.le_refl _
  | cons _ _ _ ih => omega

theorem Chunks.append {content : Bytes} {start middle stop : Nat} {chunks more : List Bytes}
    (h : Chunks content start middle chunks) (h' : Chunks content middle stop more) :
    Chunks content start stop (chunks ++ more) := by
  induction h with
  | nil => exact h'
  | cons hpos hle _ ih => exact .cons hpos hle (ih h')

theorem Chunks.single {content : Bytes} {start n : Nat} (hpos : 0 < n)
    (hle : start + n ≤ content.length) :
    Chunks content start (start + n) [(content.drop start).take n] :=
  .cons hpos hle (.nil _)

theorem Chunks.at_end {content : Bytes} {stop : Nat} {chunks : List Bytes}
    (h : Chunks content content.length stop chunks) : chunks = [] ∧ stop = content.length := by
  cases h with
  | nil => exact ⟨rfl, rfl⟩
  | cons hpos hle _ => omega

def dataMessage (chunk : Bytes) : Message := ⟨.data, chunk⟩

section

variable {granularity : Nat} {file : OutgoingFile} {env : SendEnv}

structure SendInv (file : OutgoingFile) (t : SendTransfer) (position : Nat) : Prop where
  progress : t.progressBytes = position
  position_eq : t.view.offset + t.viewOffset = position
  offset_le : t.viewOffset ≤ t.view.length
  view_le : t.view.offset + t.view.length ≤ file.content.length
  waiting : t.state = .headerAndName → position = 0 ∧ t.done = false ∧
    (0 < file.content.length → 0 < t.view.length)
  done : t.done = true → position = file.content.length

theorem SendInv.le {t : SendTransfer} {position : Nat} (h : SendInv file t position) :
    position ≤ file.content.length := by
  have hposition := h.position_eq
  have hoffset := h.offset_le
  have hview := h.view_le
  omega

theorem mapView_zero (granularity fileLength : Nat) :
    MappedView.mapView granularity fileLength 0 (min fileLength kMaxViewBytes) =
      ⟨0, min fileLength kMaxViewBytes⟩ := by
  have hzero : (if min fileLength kMaxViewBytes = 0 then fileLength else
      min fileLength kMaxViewBytes) = min fileLength kMaxViewBytes := by
    rw [kMaxViewBytes]
    split <;> omega
  simp only [MappedView.mapView, hzero, Nat.zero_mod, Nat.sub_zero, Nat.add_zero]

theorem sendInv_start (granularity : Nat) (file : OutgoingFile) :
    SendInv file (startTransfer granularity file) 0 := by
  have hview : (startTransfer granularity file).view.offset = 0 ∧
      (startTransfer granularity file).view.length ≤ file.content.length ∧
      (0 < file.content.length → 0 < (startTransfer granularity file).view.length) := by
    unfold startTransfer
    simp only [mapView_zero]
    split
    · refine ⟨rfl, Nat.min_le_left _ _, fun hpos => ?_⟩
      exact Nat.lt_min.mpr ⟨hpos, by decide⟩
    · exact ⟨rfl, Nat.le_refl _, id⟩
  obtain ⟨hoffset, hlength, hpos⟩ := hview
  refine ⟨rfl, ?_, Nat.zero_le _, ?_, fun _ => ⟨rfl, rfl, hpos⟩, nofun⟩
  · rw [hoffset]
    rfl
  · rw [hoffset]
    omega

/-- What a call has sent behind the messages `before`, from the position `start` on. -/
def Sent (file : OutgoingFile) (before : List Message) (start : Nat) (s : Sending) : Prop :=
  ∃ stop chunks, Chunks file.content start stop chunks ∧
    (s.cancelled = false ∧ s.messages = before ++ chunks.map dataMessage ∧
        SendInv file s.transfer stop ∧ s.transfer.state = .fileData ∨
      s.cancelled = true ∧ s.returned = true ∧ s.transfer.done = true ∧
        s.messages = before ++ chunks.map dataMessage ++ [cancelMessage])

def Sending.room (s : Sending) : Nat := s.transfer.view.length - s.transfer.viewOffset

theorem sendView_spec (hok : ∀ i, env.sendOk i = true) {s : Sending} {position : Nat}
    (h : SendInv file s.transfer position) (hstate : s.transfer.state = .fileData)
    (hroom : 0 < s.room) (hdeficit : 0 < s.deficitBytes) :
    ∃ n, 0 < n ∧ position + n ≤ file.content.length ∧
      (sendView file env s).deficitBytes = s.deficitBytes - n ∧ n ≤ s.deficitBytes ∧
      (sendView file env s).messages =
        s.messages ++ [dataMessage ((file.content.drop position).take n)] ∧
      SendInv file (sendView file env s).transfer (position + n) ∧
      (sendView file env s).transfer.state = .fileData ∧
      (sendView file env s).cancelled = s.cancelled ∧
      (sendView file env s).returned = s.returned := by
  obtain ⟨hprogress, hposition, hoffset, hview, hwaiting, hcomplete⟩ := h
  have hdone : s.transfer.done = false := by
    by_contra htrue
    have htotal := hcomplete (Bool.not_eq_false _ ▸ htrue)
    rw [Sending.room] at hroom
    omega
  have hn : 0 < min (min s.deficitBytes kBytesChunk)
      (s.transfer.view.length - s.transfer.viewOffset) := by
    simp only [Sending.room] at hroom
    simp only [kBytesChunk]
    omega
  unfold sendView
  rw [if_pos (hok _)]
  generalize hbytes : min (min s.deficitBytes kBytesChunk)
    (s.transfer.view.length - s.transfer.viewOffset) = n at hn ⊢
  have hle : n ≤ s.transfer.view.length - s.transfer.viewOffset := by omega
  have hsend : n ≤ s.deficitBytes := by omega
  refine ⟨n, hn, by omega, rfl, hsend, ?_, ?_, hstate, rfl, rfl⟩
  · rw [hposition]
    rfl
  · refine ⟨?_, ?_, ?_, hview, fun hheader => ?_, fun htrue => ?_⟩
    · simp only
      omega
    · simp only
      omega
    · simp only
      omega
    · rw [hstate] at hheader
      cases hheader
    · exact absurd (hdone.symm.trans htrue) Bool.false_ne_true

theorem mapView_next (granularity : Nat) {total position : Nat} (fileLength : Nat)
    (hlt : position < total) :
    let view :=
      MappedView.mapView granularity fileLength position (min (total - position) kMaxViewBytes)
    view.offset ≤ position ∧ position - view.offset < view.length ∧
      view.offset + view.length ≤ total := by
  have hpos : min (total - position) kMaxViewBytes ≠ 0 := by
    rw [kMaxViewBytes]
    omega
  have hmod := Nat.mod_le position granularity
  simp only [MappedView.mapView, if_neg hpos]
  omega

theorem nextView_spec (granularity : Nat) (hok : ∀ i, env.sendOk i = true) {s : Sending}
    {position : Nat} (h : SendInv file s.transfer position) (hstate : s.transfer.state = .fileData)
    (hcancelled : s.cancelled = false) :
    ((nextView granularity file env s).cancelled = false ∧
        (nextView granularity file env s).messages = s.messages ∧
        SendInv file (nextView granularity file env s).transfer position ∧
        (nextView granularity file env s).transfer.state = .fileData ∨
      (nextView granularity file env s).cancelled = true ∧
        (nextView granularity file env s).returned = true ∧
        (nextView granularity file env s).transfer.done = true ∧
        (nextView granularity file env s).messages = s.messages ++ [cancelMessage]) ∧
      ((nextView granularity file env s).returned = true ∨
        (nextView granularity file env s).deficitBytes = s.deficitBytes ∧
          0 < (nextView granularity file env s).room) := by
  have hle := h.le
  obtain ⟨hprogress, hposition, hoffset, hview, hwaiting, hdone⟩ := h
  unfold nextView
  simp only [hprogress]
  split
  · next htotal =>
    refine ⟨.inl ⟨hcancelled, rfl, ⟨rfl, hposition, hoffset, hview, fun hheader => ?_,
      fun _ => Nat.le_antisymm hle htotal⟩, hstate⟩, .inl rfl⟩
    rw [hstate] at hheader
    cases hheader
  · next htotal =>
    obtain ⟨hbefore, hless, hend⟩ :=
      mapView_next granularity _ (Nat.lt_of_not_le htotal)
    split
    · refine ⟨.inl ⟨hcancelled, rfl, ⟨rfl, ?_, hless.le, hend, fun hheader => ?_, hdone⟩,
        hstate⟩, .inr ⟨rfl, ?_⟩⟩
      · exact Nat.add_sub_cancel' hbefore
      · rw [hstate] at hheader
        cases hheader
      · exact Nat.sub_pos_of_lt hless
    · refine ⟨.inr ⟨rfl, rfl, rfl, ?_⟩, .inl rfl⟩
      simp only [writeCancel, hok, if_true]

structure Going (file : OutgoingFile) (before : List Message) (start : Nat) (s : Sending)
    (stop : Nat) (chunks : List Bytes) : Prop where
  pieces : Chunks file.content start stop chunks
  cancelled : s.cancelled = false
  messages : s.messages = before ++ chunks.map dataMessage
  inv : SendInv file s.transfer stop
  state : s.transfer.state = .fileData

theorem Going.sent {before : List Message} {start stop : Nat} {s : Sending} {chunks : List Bytes}
    (h : Going file before start s stop chunks) : Sent file before start s :=
  ⟨stop, chunks, h.pieces, .inl ⟨h.cancelled, h.messages, h.inv, h.state⟩⟩

/-- The bytes that may still be sent; a view that is full counts, too. -/
def Sending.measure (s : Sending) : Nat := 2 * s.deficitBytes + if s.room = 0 then 1 else 0

def Rest (cancelled : Bool) (queue : List Message) : Prop :=
  queue = [] ∨ cancelled = true ∧ queue = [cancelMessage]

theorem Sent.rest {before : List Message} {start : Nat} {s : Sending}
    (h : Sent file before start s) :
    ∃ stop chunks rest, Chunks file.content start stop chunks ∧ Rest s.cancelled rest ∧
      s.messages = before ++ (chunks.map dataMessage ++ rest) ∧
      (s.cancelled = false → SendInv file s.transfer stop ∧ s.transfer.state = .fileData) ∧
      (s.cancelled = true → s.transfer.done = true) := by
  obtain ⟨stop, chunks, hpieces, ⟨hnot, hmessages, hinv⟩ | ⟨htrue, -, hdone, hmessages⟩⟩ := h
  · refine ⟨stop, chunks, [], hpieces, .inl rfl, ?_, fun _ => hinv, fun htrue => ?_⟩
    · rw [hmessages, List.append_nil]
    · exact absurd (hnot.symm.trans htrue) Bool.false_ne_true
  · refine ⟨stop, chunks, [cancelMessage], hpieces, .inr ⟨htrue, rfl⟩, ?_, fun hnot => ?_,
      fun _ => hdone⟩
    · rw [hmessages, List.append_assoc]
    · exact absurd (hnot.symm.trans htrue) Bool.false_ne_true

theorem Sending.measure_le (s : Sending) : s.measure ≤ 2 * s.deficitBytes + 1 := by
  rw [Sending.measure]
  split <;> omega

theorem Going.nextView (granularity : Nat) (hok : ∀ i, env.sendOk i = true)
    {before : List Message} {start stop : Nat} {s : Sending} {chunks : List Bytes} (h : Going file before start s stop chunks)
    (hroom : s.room = 0) : Sent file before start (nextView granularity file env s) ∧
      ((FileTransfer.nextView granularity file env s).returned = true ∨
        (FileTransfer.nextView granularity file env s).measure < s.measure) := by
  obtain ⟨hsent, hgoes⟩ :=
    nextView_spec granularity hok h.inv h.state h.cancelled
  constructor
  · rcases hsent with ⟨hcancelled, hmessages, hinv, hstate⟩ | ⟨hcancelled, hreturned, hdone, hmessages⟩
    · exact ⟨stop, chunks, h.pieces, .inl ⟨hcancelled, hmessages.trans h.messages, hinv, hstate⟩⟩
    · refine ⟨stop, chunks, h.pieces, .inr ⟨hcancelled, hreturned, hdone, ?_⟩⟩
      rw [hmessages, h.messages]
  · refine hgoes.imp_right fun ⟨hdeficit, hpos⟩ => ?_
    rw [Sending.measure, Sending.measure, hdeficit, if_pos hroom, if_neg hpos.ne']
    omega

theorem Going.turn (granularity : Nat) (hok : ∀ i, env.sendOk i = true) {before : List Message}
    {start stop : Nat} {s : Sending} {chunks : List Bytes} (h : Going file before start s stop chunks)
    (hreturned : s.returned = false) (hdeficit : 0 < s.deficitBytes) :
    Sent file before start (sendTurn granularity file env s) ∧
      ((sendTurn granularity file env s).returned = true ∨
        (sendTurn granularity file env s).measure < s.measure) := by
  unfold sendTurn
  by_cases hroom : 0 < s.room
  · obtain ⟨n, hpos, hle, hdeficit', hn, hmessages, hinv, hstate, hcancelled, hreturned'⟩ :=
      sendView_spec hok h.inv h.state hroom hdeficit
    have hgoing : Going file before start (sendView file env s) (stop + n)
        (chunks ++ [(file.content.drop stop).take n]) := by
      refine ⟨h.pieces.append (.single hpos hle), hcancelled.trans h.cancelled, ?_, hinv, hstate⟩
      rw [hmessages, h.messages, List.map_append, List.append_assoc]
      rfl
    have hless : (sendView file env s).measure < s.measure := by
      rw [Sending.measure, Sending.measure, hdeficit', if_neg hroom.ne']
      split <;> omega
    simp only [show 0 < s.transfer.view.length - s.transfer.viewOffset from hroom, if_true,
      hreturned', hreturned, Bool.false_eq_true, if_false]
    split
    · next hfull =>
      obtain ⟨hsent, hgoes⟩ := hgoing.nextView granularity hok (Nat.le_zero.mp hfull)
      exact ⟨hsent, hgoes.imp_right fun hmeasure => Nat.lt_trans hmeasure hless⟩
    · exact ⟨hgoing.sent, .inr hless⟩
  · have hfull : s.room = 0 := Nat.eq_zero_of_not_pos hroom
    simp only [show ¬0 < s.transfer.view.length - s.transfer.viewOffset from hroom, if_false,
      hreturned, Bool.false_eq_true]
    rw [if_pos (show s.transfer.view.length - s.transfer.viewOffset ≤ 0 from Nat.le_of_not_lt hroom)]
    exact h.nextView granularity hok hfull

theorem sendLoop_spec (hok : ∀ i, env.sendOk i = true) {before : List Message} {start fuel : Nat}
    {s : Sending} (h : Sent file before start s) (hfuel : s.measure ≤ fuel) :
    Sent file before start (sendLoop granularity file env fuel s) ∧
      ((sendLoop granularity file env fuel s).returned = true ∨
        (sendLoop granularity file env fuel s).deficitBytes = 0) := by
  induction fuel generalizing s with
  | zero =>
    have hzero : s.deficitBytes = 0 := by
      rw [Sending.measure] at hfuel
      omega
    exact ⟨h, .inr hzero⟩
  | succ fuel ih =>
    rw [sendLoop]
    split
    · next hstop =>
      rw [Bool.or_eq_true, decide_eq_true_eq] at hstop
      exact ⟨h, hstop⟩
    · next hgo =>
      rw [Bool.or_eq_true, decide_eq_true_eq, not_or, Bool.not_eq_true] at hgo
      obtain ⟨stop, chunks, hpieces, ⟨hcancelled, hmessages, hinv, hstate⟩ | ⟨-, htrue, -⟩⟩ := h
      · obtain ⟨hsent, hgoes⟩ := Going.turn granularity hok
          ⟨hpieces, hcancelled, hmessages, hinv, hstate⟩ hgo.1 (Nat.pos_of_ne_zero hgo.2)
        rcases hgoes with hreturned | hless
        · have hend : sendLoop granularity file env fuel (sendTurn granularity file env s) =
              sendTurn granularity file env s := by
            cases fuel with
            | zero => rfl
            | succ fuel => rw [sendLoop, hreturned, Bool.true_or, if_pos rfl]
          rw [hend]
          exact ⟨hsent, .inl hreturned⟩
        · exact ih hsent (by omega)
      · exact absurd (hgo.1.symm.trans htrue) Bool.false_ne_true

/-- A header that the receiver does not take for a truncated one. -/
def Headed (file : OutgoingFile) : Prop := file.name = [] → file.content ≠ []

theorem writeSendHeader_spec (hok : ∀ i, env.sendOk i = true) {s : Sending}
    (h : SendInv file s.transfer 0) (hstate : s.transfer.state = .headerAndName)
    (hdeficit : kMinWriteBytes ≤ s.deficitBytes) :
    ∃ d, d ≤ file.content.length ∧ d ≤ kBytesChunk ∧
      (Headed file → 3 ≤ (header file ++ file.content.take d).length) ∧
      (writeSendHeader file env s).messages =
        s.messages ++ [⟨.header, header file ++ file.content.take d⟩] ∧
      SendInv file (writeSendHeader file env s).transfer d ∧
      (writeSendHeader file env s).transfer.state = .fileData ∧
      (writeSendHeader file env s).cancelled = s.cancelled ∧
      (writeSendHeader file env s).returned = s.returned ∧
      (writeSendHeader file env s).deficitBytes ≤ s.deficitBytes := by
  obtain ⟨hpos, hle, -⟩ := lenBytes_spec file.content_lt
  obtain ⟨-, hposition, hoffset, hview, hwaiting, -⟩ := h
  obtain ⟨-, hdone, hroom⟩ := hwaiting hstate
  have hstart : s.transfer.view.offset = 0 := by omega
  have hheader := header_length file
  unfold writeSendHeader
  rw [if_pos (hok _)]
  generalize hbytes : headerDataBytes file s.transfer.view.length s.deficitBytes = d
  unfold headerDataBytes at hbytes
  simp only [hdone, Bool.false_or, hstart, List.drop_zero]
  have hdata : d ≤ file.content.length ∧ d ≤ kBytesChunk ∧ d ≤ s.transfer.view.length := by
    simp only at hbytes
    split at hbytes <;> omega
  obtain ⟨htotal, hchunk, hfits⟩ := hdata
  refine ⟨d, htotal, hchunk, fun hheaded => ?_, rfl, ⟨rfl, ?_, hfits, hview, nofun,
    fun htrue => ?_⟩, trivial, trivial, trivial, ?_⟩
  · rw [List.length_append, List.length_take, hheader]
    by_cases hname : file.name = []
    · have hcontent := List.length_pos_iff.mpr (hheaded hname)
      have hlength := hroom hcontent
      have hnameLen : nameLen file = 0 := by rw [nameLen, hname]; rfl
      have hnameLenBytes : nameLenBytes file = 0 := by rw [nameLenBytes, hnameLen]; rfl
      simp only [hnameLen, hnameLenBytes, kMinWriteBytes, kBytesChunk] at hbytes hdeficit ⊢
      split at hbytes <;> omega
    · have hnameLen : 0 < nameLen file := by
        have hcontent := List.length_pos_iff.mpr hname
        rw [nameLen, kMaxNameBytes]
        omega
      have hnameLenBytes : 0 < nameLenBytes file := by
        rw [nameLenBytes, if_pos hnameLen]
        split <;> decide
      omega
  · simp only
    omega
  · simp only [Bool.and_eq_true, decide_eq_true_eq] at htrue
    omega
  · split <;> omega

theorem deficitBytes_le (file : OutgoingFile) (env : SendEnv) :
    deficitBytes file env = 0 ∨ kMinWriteBytes ≤ deficitBytes file env := by
  unfold deficitBytes
  simp only
  generalize (if file.lowPriChannel then env.status.lowPriQueueMsec
    else env.status.reliableQueueMsec) * 1000 % 2 ^ 32 = queueUsec
  split
  · exact .inl rfl
  · split
    · exact .inl rfl
    · split
      · exact .inl rfl
      · next hmin => exact .inr (Nat.le_of_not_lt hmin)

theorem tonkFileSend_idle (granularity : Nat) (file : OutgoingFile) (env : SendEnv) {t : SendTransfer} (h : t.done = true ∨ deficitBytes file env = 0) :
    (tonkFileSend granularity file env t).transfer = t ∧
      (tonkFileSend granularity file env t).messages = [] ∧
      (tonkFileSend granularity file env t).cancelled = false := by
  have hzero : (if t.done then 0 else deficitBytes file env) = 0 := by
    split
    · rfl
    · next hdone => exact h.resolve_left hdone
  unfold tonkFileSend
  simp only [hzero, Nat.lt_irrefl, false_and, if_false]
  rw [sendLoop]
  simp

theorem tonkFileSend_spec (granularity : Nat) (hok : ∀ i, env.sendOk i = true)
    {t : SendTransfer} {position : Nat} (h : SendInv file t position) :
    let s := tonkFileSend granularity file env t
    (s.transfer = t ∧ s.messages = [] ∧ s.cancelled = false) ∨
      (t.state = .fileData ∧ Sent file [] position s) ∨
      (t.state = .headerAndName ∧ ∃ d, d ≤ file.content.length ∧ d ≤ kBytesChunk ∧
        (Headed file → 3 ≤ (header file ++ file.content.take d).length) ∧
        Sent file [⟨.header, header file ++ file.content.take d⟩] d s) := by
  intro s
  by_cases hidle : t.done = true ∨ deficitBytes file env = 0
  · exact .inl (tonkFileSend_idle granularity file env hidle)
  · rw [not_or, Bool.not_eq_true] at hidle
    obtain ⟨hdone, hdeficit⟩ := hidle
    have hmin := (deficitBytes_le file env).resolve_left hdeficit
    have hs : s = tonkFileSend granularity file env t := rfl
    unfold tonkFileSend at hs
    simp only [hdone, Bool.false_eq_true, if_false, Nat.pos_of_ne_zero hdeficit, true_and] at hs
    refine .inr ?_
    cases hstate : t.state with
    | headerAndName =>
      obtain rfl := (h.waiting hstate).1
      rw [hstate, if_pos rfl] at hs
      obtain ⟨d, htotal, hchunk, hheaded, hmessages, hinv, hstate', hcancelled, hreturned, hle⟩ :=
        writeSendHeader_spec (s := ⟨t, deficitBytes file env, [], 0, 0, false, false⟩) hok h hstate
          hmin
      refine .inr ⟨rfl, d, htotal, hchunk, hheaded, ?_⟩
      rw [hs]
      refine (sendLoop_spec hok ⟨d, [], .nil _, .inl ⟨hcancelled, ?_, hinv, hstate'⟩⟩ ?_).1
      · rw [hmessages]
        rfl
      · exact Nat.le_trans (Sending.measure_le _)
          (Nat.add_le_add_right (Nat.mul_le_mul_left 2 hle) 1)
    | fileData =>
      rw [hstate, if_neg (by decide)] at hs
      refine .inl ⟨rfl, ?_⟩
      rw [hs]
      exact (sendLoop_spec hok ⟨position, [], .nil _, .inl ⟨rfl, rfl, h, hstate⟩⟩
        (Sending.measure_le _)).1

end
end Tonk.FileTransfer
