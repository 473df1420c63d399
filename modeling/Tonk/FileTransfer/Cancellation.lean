import Tonk.Lib.Run
import Tonk.FileTransfer.Sender

set_option autoImplicit false

namespace Tonk.FileTransfer
open Protocol Transition

structure System where
  transfer : SendTransfer
  /-- WriteCancel was executed. -/
  cancelled : Bool
  freed : Bool
  queue : List Message
  incoming : Option IncomingFile
  events : List ReceiveEvent

inductive Event where
  | send (env : SendEnv)
  | free (sendOk : Bool)
  | deliver (env : ReceiveEnv)

section

variable (granularity : Nat) (file : OutgoingFile)

def start : System := ⟨startTransfer granularity file, false, false, [], none, []⟩

def step (s : System) : Event → Option System
  | .send env =>
    if s.freed then none
    else
      let sending := tonkFileSend granularity file env s.transfer
      some { s with
        transfer := sending.transfer
        cancelled := s.cancelled || sending.cancelled
        queue := s.queue ++ sending.messages }
  | .free sendOk =>
    if s.freed then none
    else
      let cancels := !s.transfer.done
      some { s with
        freed := true
        cancelled := s.cancelled || cancels
        queue := if cancels && sendOk then s.queue ++ [cancelMessage] else s.queue }
  | .deliver env =>
    match s.queue with
    | [] => none
    | message :: queue =>
      let (incoming, events) := tonkFileReceive granularity env s.incoming message.bytes
      some { s with queue := queue, incoming := incoming, events := s.events ++ events }

def Complete (_ : System) : Event → Prop
  | .send env => ∀ i, env.sendOk i = true
  | _ => True

/-- The receiver's own file operations succeed; and a piece of the file does not begin like a cancel
message, and ends in the view that is mapped. -/
def Clear (s : System) : Event → Prop
  | .deliver env => (∀ turn, env.opens turn = true ∧ env.resizes turn = true ∧ env.maps turn = true) ∧
    ∀ message ∈ s.queue.head?, message.kind = .data →
      isCancel message.bytes = false ∧
        ∀ t ∈ s.incoming, message.bytes.length ≤ t.view.length - t.viewOffset
  | _ => True

/-- The receiver can read the header: the length of the name fits into a byte, and the header is not
the whole of an empty file without a name. -/
def Legible : Prop := file.name.length < 256 ∧ Headed file

structure Received (t : IncomingFile) : Prop where
  name : t.name = file.name
  total : t.totalBytes = file.content.length
  failed : t.failed = false
  output : ∀ i < file.content.length, t.output i = file.content.getD i 0

/-- The receiver drops the transfer as cancelled only for a WriteCancel. The callback comes at most
once, and once if the sender is done without a cancel and everything has arrived. -/
structure Unambiguous (s : System) : Prop where
  cancelled : (∃ event ∈ s.events, event.isCancelled) → s.cancelled = true
  once : (s.events.filter ReceiveEvent.isDone).length ≤ 1
  done : s.transfer.done = true → s.cancelled = false → s.queue = [] →
    ∃ t, s.events = [.done t] ∧ Received file t

end

section Receiver

variable {granularity : Nat} {file : OutgoingFile}

structure Receiving (file : OutgoingFile) (t : IncomingFile) (position : Nat) : Prop where
  name : t.name = file.name
  total : t.totalBytes = file.content.length
  progress : t.progressBytes = position
  position_eq : t.view.offset + t.viewOffset = position
  offset_lt : position < file.content.length → t.viewOffset < t.view.length
  view_le : t.view.offset + t.view.length ≤ file.content.length
  failed : t.failed = false
  done : t.done = false
  output : ∀ i < position, t.output i = file.content.getD i 0

theorem receiving_start (granularity : Nat) (file : OutgoingFile) :
    Receiving file ⟨file.name, file.content.length, 0, receiveView granularity file.content.length, 0,
      fun _ => 0, false, false⟩ 0 := by
  unfold receiveView
  rw [mapView_zero]
  refine ⟨rfl, rfl, rfl, ?_, fun hpos => ?_, ?_, rfl, rfl, fun i hi => absurd hi (Nat.not_lt_zero i)⟩
  · split <;> rfl
  · split
    · exact Nat.lt_min.mpr ⟨hpos, (by decide : 0 < kMaxViewBytes)⟩
    · exact hpos
  · split
    · exact (Nat.zero_add _).trans_le (Nat.min_le_left _ _)
    · exact (Nat.zero_add _).le

theorem Receiving.receiveData (granularity : Nat) {t : IncomingFile} {position n : Nat}
    (h : Receiving file t position) (hlength : position + n ≤ file.content.length)
    (hfits : n ≤ t.view.length - t.viewOffset) :
    let data := (file.content.drop position).take n
    (FileTransfer.receiveData granularity true true t data).2 = data.length ∧
      if position + n = file.content.length then
        (FileTransfer.receiveData granularity true true t data).1.done = true ∧
          Received file (FileTransfer.receiveData granularity true true t data).1
      else Receiving file (FileTransfer.receiveData granularity true true t data).1 (position + n) := by
  intro data
  obtain ⟨hname, htotal, hprogress, hposition, hoffset, hview, hfailed, hdone, houtput⟩ := h
  have hdata : data.length = n := by
    rw [List.length_take, List.length_drop]
    omega
  have hcopied : ∀ i < position + n,
      copyOutput t.output position data i = file.content.getD i 0 := by
    intro i hi
    unfold copyOutput
    split
    · next hin =>
      rw [hdata] at hin
      rw [List.getD_eq_getElem?_getD, List.getD_eq_getElem?_getD, List.getElem?_take,
        if_pos (by omega), List.getElem?_drop, Nat.add_sub_cancel' hin.1]
    · next hout =>
      rw [hdata] at hout
      exact houtput i (by omega)
  unfold FileTransfer.receiveData
  have hmin : min n (t.view.length - t.viewOffset) = n := Nat.min_eq_left hfits
  have htake : data.take n = data := List.take_of_length_le hdata.le
  simp only [hdata, hmin, htake, hfailed, Bool.false_eq_true, if_false, hposition, hprogress, htotal,
    Bool.not_true, Bool.or_false, if_true]
  by_cases hend : position + n = file.content.length
  · rw [if_pos hend.ge, if_pos hend]
    exact ⟨rfl, rfl, ⟨hname, rfl, rfl, fun i hi => hcopied i (hend ▸ hi)⟩⟩
  · rw [if_neg (by omega), if_neg hend]
    by_cases hfull : t.view.length ≤ t.viewOffset + n
    · obtain ⟨hbefore, hless, hview'⟩ := mapView_next granularity
        (position + n + min (file.content.length - (position + n)) kMaxViewBytes)
        (Nat.lt_of_le_of_ne hlength hend)
      rw [if_pos hfull]
      exact ⟨rfl, ⟨hname, rfl, rfl, Nat.add_sub_cancel' hbefore, fun _ => hless, hview', rfl, hdone,
        hcopied⟩⟩
    · rw [if_neg hfull]
      refine ⟨rfl, ⟨hname, rfl, rfl, ?_, fun _ => Nat.lt_of_not_le hfull, hview, rfl, hdone,
        hcopied⟩⟩
      rw [← hposition, Nat.add_assoc]

theorem tonkFileReceive_once {env : ReceiveEnv} {incoming : Option IncomingFile} {data : Bytes}
    (hpos : data ≠ []) {t : IncomingFile}
    (h : processReceiveFileData granularity env 0 incoming data = (some t, data.length, [])) :
    tonkFileReceive granularity env incoming data =
      if t.done then (none, [.done t]) else (some t, []) := by
  obtain ⟨fuel, hfuel⟩ := Nat.exists_eq_succ_of_ne_zero (List.length_pos_iff.mpr hpos).ne'
  rw [tonkFileReceive, hfuel, receiveLoop, h]
  simp only [Nat.le_refl, if_true]
  split <;> rfl

def Advanced (file : OutgoingFile) (position : Nat)
    (result : Option IncomingFile × List ReceiveEvent) : Prop :=
  (position = file.content.length ∧ ∃ t, Received file t ∧ result = (none, [.done t])) ∨
    (position < file.content.length ∧ ∃ t, Receiving file t position ∧ result = (some t, []))

theorem advanced_once {t : IncomingFile} {position : Nat} (hle : position ≤ file.content.length)
    (h : if position = file.content.length then t.done = true ∧ Received file t
      else Receiving file t position) :
    Advanced file position (if t.done then (none, [.done t]) else (some t, [])) := by
  by_cases hend : position = file.content.length
  · rw [if_pos hend] at h
    rw [if_pos h.1]
    exact .inl ⟨hend, t, h.2, rfl⟩
  · rw [if_neg hend] at h
    rw [h.done]
    exact .inr ⟨Nat.lt_of_le_of_ne hle hend, t, h, rfl⟩

theorem tonkFileReceive_data {env : ReceiveEnv} (hok : env.resizes 0 = true ∧ env.maps 0 = true)
    {t : IncomingFile} {position n : Nat} (h : Receiving file t position) (hpos : 0 < n)
    (hlength : position + n ≤ file.content.length) (hfits : n ≤ t.view.length - t.viewOffset)
    (hclear : isCancel ((file.content.drop position).take n) = false) :
    Advanced file (position + n)
      (tonkFileReceive granularity env (some t) ((file.content.drop position).take n)) := by
  obtain ⟨hwritten, hnext⟩ := h.receiveData granularity hlength hfits
  have hdata : (file.content.drop position).take n ≠ [] := by
    rw [← List.length_pos_iff, List.length_take, List.length_drop]
    omega
  have hprocess : processReceiveFileData granularity env 0 (some t)
      ((file.content.drop position).take n) =
      (some (receiveData granularity true true t ((file.content.drop position).take n)).1,
        ((file.content.drop position).take n).length, []) := by
    unfold processReceiveFileData
    simp only [hclear, h.failed, Bool.false_eq_true, if_false, hok.1, hok.2, hwritten]
  rw [tonkFileReceive_once hdata hprocess]
  exact advanced_once hlength hnext

theorem tonkFileReceive_header {env : ReceiveEnv}
    (hok : env.opens 0 = true ∧ env.resizes 0 = true ∧ env.maps 0 = true)
    (hname : file.name.length < 256) {d : Nat} (htotal : d ≤ file.content.length)
    (hchunk : d ≤ kBytesChunk) (hlength : 3 ≤ (header file ++ file.content.take d).length) :
    Advanced file d
      (tonkFileReceive granularity env none (header file ++ file.content.take d)) := by
  have hreceiving := receiving_start granularity file
  have hfits : d ≤ (receiveView granularity file.content.length).length - 0 := by
    unfold receiveView
    rw [mapView_zero, Nat.sub_zero]
    split
    · exact Nat.le_min.mpr ⟨htotal, Nat.le_trans hchunk (by decide)⟩
    · exact htotal
  have hstart := startReceive_header granularity file (file.content.take d) hname hlength
  obtain ⟨hwritten, hnext⟩ := hreceiving.receiveData granularity (n := d)
    (by omega) hfits
  rw [List.drop_zero] at hwritten hnext
  rw [Nat.zero_add] at hnext
  have hprocess : processReceiveFileData granularity env 0 none
      (header file ++ file.content.take d) =
      (some (receiveData granularity true true ⟨file.name, file.content.length, 0,
        receiveView granularity file.content.length, 0, fun _ => 0, false, false⟩
        (file.content.take d)).1, (header file ++ file.content.take d).length, []) := by
    unfold processReceiveFileData
    simp only [hok.1, hok.2.1, hok.2.2, hstart, List.drop_left, hwritten, List.length_append]
  have hdata : header file ++ file.content.take d ≠ [] := by
    rw [← List.length_pos_iff]
    omega
  rw [tonkFileReceive_once hdata hprocess]
  exact advanced_once htotal hnext

theorem isCancel_cancelMessage : isCancel cancelMessage.bytes = true := by decide

theorem tonkFileReceive_cancel (env : ReceiveEnv) (t : IncomingFile) :
    tonkFileReceive granularity env (some t) cancelMessage.bytes = (none, [.cancelled]) := by
  have hlength : cancelMessage.bytes.length = 3 + 1 := by decide
  have hprocess : processReceiveFileData granularity env 0 (some t) cancelMessage.bytes =
      (none, kCancelBytes, [.cancelled]) := by
    unfold processReceiveFileData
    rw [isCancel_cancelMessage]
    rfl
  rw [tonkFileReceive, hlength, receiveLoop, hprocess]
  rfl

theorem tonkFileReceive_cancel_none (env : ReceiveEnv) :
    tonkFileReceive granularity env none cancelMessage.bytes = (none, []) := by
  have hlength : cancelMessage.bytes.length = 3 + 1 := by decide
  have hprocess : processReceiveFileData granularity env 0 none cancelMessage.bytes =
      (none, kCancelBytes, []) := rfl
  rw [tonkFileReceive, hlength, receiveLoop, hprocess]
  rfl

end Receiver

section Invariant

variable {granularity : Nat} {file : OutgoingFile}

def Tail (file : OutgoingFile) (cancelled : Bool) (position sent : Nat) (queue : List Message) :
    Prop :=
  ∃ chunks rest, Chunks file.content position sent chunks ∧ Rest cancelled rest ∧
    queue = chunks.map dataMessage ++ rest

inductive Phase (file : OutgoingFile) (cancelled : Bool) (sent : Nat) :
    Bool → List Message → Option IncomingFile → List ReceiveEvent → Prop where
  | waiting {queue : List Message} : sent = 0 → Rest cancelled queue →
      Phase file cancelled sent false queue none []
  | starting {d : Nat} {queue : List Message} : d ≤ file.content.length → d ≤ kBytesChunk →
      (Headed file → 3 ≤ (header file ++ file.content.take d).length) →
      Tail file cancelled d sent queue →
      Phase file cancelled sent true
        (⟨.header, header file ++ file.content.take d⟩ :: queue) none []
  | receiving {position : Nat} {queue : List Message} {t : IncomingFile} :
      Receiving file t position → position < file.content.length →
      Tail file cancelled position sent queue → Phase file cancelled sent true queue (some t) []
  | finished {queue : List Message} {t : IncomingFile} : sent = file.content.length →
      Received file t → Rest cancelled queue →
      Phase file cancelled sent true queue none [.done t]
  | dropped : cancelled = true → Phase file cancelled sent true [] none [.cancelled]

theorem Tail.send {cancelled : Bool} {position sent stop : Nat} {queue rest : List Message}
    {chunks : List Bytes} (h : Tail file false position sent queue)
    (hchunks : Chunks file.content sent stop chunks) (hrest : Rest cancelled rest) :
    Tail file cancelled position stop (queue ++ (chunks.map dataMessage ++ rest)) := by
  obtain ⟨before, tail, hbefore, htail, rfl⟩ := h
  have hnil : tail = [] := htail.resolve_right fun h => Bool.false_ne_true h.1
  subst hnil
  refine ⟨before ++ chunks, rest, hbefore.append hchunks, hrest, ?_⟩
  rw [List.map_append, List.append_nil, List.append_assoc]

theorem Phase.send {cancelled : Bool} {sent stop : Nat} {queue rest : List Message}
    {incoming : Option IncomingFile} {events : List ReceiveEvent} {chunks : List Bytes}
    (h : Phase file false sent true queue incoming events)
    (hchunks : Chunks file.content sent stop chunks) (hrest : Rest cancelled rest) :
    Phase file cancelled stop true (queue ++ (chunks.map dataMessage ++ rest)) incoming events := by
  cases h with
  | starting htotal hchunk hheaded htail =>
    exact .starting htotal hchunk hheaded (htail.send hchunks hrest)
  | receiving hreceiving hlt htail => exact .receiving hreceiving hlt (htail.send hchunks hrest)
  | finished hsent hreceived htail =>
    subst hsent
    obtain ⟨rfl, rfl⟩ := hchunks.at_end
    obtain rfl : queue = [] := htail.resolve_right fun h => Bool.false_ne_true h.1
    exact .finished rfl hreceived hrest
  | dropped hcancelled => exact absurd hcancelled Bool.false_ne_true

theorem Phase.cancel {sent : Nat} {headed : Bool} {queue rest : List Message}
    {incoming : Option IncomingFile} {events : List ReceiveEvent}
    (h : Phase file false sent headed queue incoming events) (hrest : Rest true rest) :
    Phase file true sent headed (queue ++ rest) incoming events := by
  cases headed with
  | true => exact h.send (.nil sent) hrest
  | false =>
    cases h with
    | waiting hzero hqueue =>
      obtain rfl : queue = [] := hqueue.resolve_right fun h => Bool.false_ne_true h.1
      exact .waiting hzero hrest

theorem Phase.advance {cancelled : Bool} {position sent : Nat} {queue : List Message}
    {result : Option IncomingFile × List ReceiveEvent} (h : Advanced file position result)
    (htail : Tail file cancelled position sent queue) :
    Phase file cancelled sent true queue result.1 result.2 := by
  rcases h with ⟨rfl, t, hreceived, rfl⟩ | ⟨hlt, t, hreceiving, rfl⟩
  · obtain ⟨chunks, rest, hchunks, hrest, rfl⟩ := htail
    obtain ⟨rfl, rfl⟩ := hchunks.at_end
    exact .finished rfl hreceived hrest
  · exact .receiving hreceiving hlt htail

theorem Phase.deliver {cancelled headed : Bool} {sent : Nat} {message : Message}
    {queue : List Message} {incoming : Option IncomingFile} {events : List ReceiveEvent}
    {env : ReceiveEnv} (hlegible : Legible file)
    (h : Phase file cancelled sent headed (message :: queue) incoming events)
    (hok : env.opens 0 = true ∧ env.resizes 0 = true ∧ env.maps 0 = true)
    (hclear : message.kind = .data → isCancel message.bytes = false ∧
      ∀ t ∈ incoming, message.bytes.length ≤ t.view.length - t.viewOffset) :
    Phase file cancelled sent headed queue
      (tonkFileReceive granularity env incoming message.bytes).1
      (events ++ (tonkFileReceive granularity env incoming message.bytes).2) := by
  have hcancel : ∀ {rest : List Message}, Rest cancelled (message :: rest) →
      message = cancelMessage ∧ rest = [] ∧ cancelled = true := by
    rintro rest (hnil | ⟨htrue, hrest⟩)
    · cases hnil
    · cases hrest
      exact ⟨rfl, rfl, htrue⟩
  cases h with
  | waiting hzero hrest =>
    obtain ⟨rfl, rfl, -⟩ := hcancel hrest
    rw [tonkFileReceive_cancel_none]
    exact .waiting hzero (.inl rfl)
  | starting htotal hchunk hheaded htail =>
    exact .advance (tonkFileReceive_header hok hlegible.1 htotal hchunk (hheaded hlegible.2)) htail
  | receiving hreceiving hlt htail =>
    obtain ⟨chunks, rest, hchunks, hrest, hqueue⟩ := htail
    cases hchunks with
    | nil =>
      rw [List.map_nil, List.nil_append] at hqueue
      obtain ⟨rfl, rfl, htrue⟩ := hcancel (hqueue ▸ hrest)
      rw [tonkFileReceive_cancel]
      exact .dropped htrue
    | cons hpos hle hmore =>
      rw [List.map_cons, List.cons_append] at hqueue
      obtain ⟨rfl, rfl⟩ := List.cons_eq_cons.mp hqueue
      obtain ⟨hpiece, hfits⟩ := hclear rfl
      have hlength := hfits _ rfl
      simp only [dataMessage, List.length_take, List.length_drop] at hlength
      exact .advance (tonkFileReceive_data ⟨hok.2.1, hok.2.2⟩ hreceiving hpos hle (by omega) hpiece)
        ⟨_, rest, hmore, hrest, rfl⟩
  | finished hsent hreceived hrest =>
    obtain ⟨rfl, rfl, -⟩ := hcancel hrest
    rw [tonkFileReceive_cancel_none]
    exact .finished hsent hreceived (.inl rfl)

def Inv (file : OutgoingFile) (s : System) : Prop :=
  ∃ sent headed, Phase file s.cancelled sent headed s.queue s.incoming s.events ∧
    (s.cancelled = false →
      SendInv file s.transfer sent ∧ (s.transfer.state = .fileData ↔ headed = true)) ∧
    (s.cancelled = true → s.freed = true ∨ s.transfer.done = true)

theorem inv_start (granularity : Nat) (file : OutgoingFile) : Inv file (start granularity file) := by
  refine ⟨0, false, .waiting rfl (.inl rfl), fun _ => ⟨sendInv_start granularity file, ?_⟩, nofun⟩
  exact iff_of_false (fun h => by cases h) Bool.false_ne_true

theorem Inv.send {s t : System} {env : SendEnv} (h : Inv file s)
    (hok : ∀ i, env.sendOk i = true) (hstep : step granularity file s (.send env) = some t) :
    Inv file t := by
  obtain ⟨sent, headed, hphase, hsender, hend⟩ := h
  simp only [step] at hstep
  split at hstep
  · cases hstep
  · next hfreed =>
    cases hstep
    cases hcancelled : s.cancelled with
    | true =>
      have hdone := (hend hcancelled).resolve_left hfreed
      obtain ⟨htransfer, hmessages, -⟩ :=
        tonkFileSend_idle granularity file env (.inl hdone)
      rw [hcancelled] at hphase
      refine ⟨sent, headed, ?_, nofun, fun _ => .inr ?_⟩
      · rwa [hmessages, List.append_nil, Bool.true_or]
      · rwa [htransfer]
    | false =>
      obtain ⟨hinv, hheaded⟩ := hsender hcancelled
      rw [hcancelled] at hphase
      rcases tonkFileSend_spec granularity hok hinv with
        ⟨htransfer, hmessages, hnot⟩ | ⟨hstate, hsent⟩ | ⟨hstate, d, htotal, hchunk, hlong, hsent⟩
      · refine ⟨sent, headed, ?_, fun _ => ?_, fun htrue => ?_⟩
        · rwa [hmessages, List.append_nil, hnot, Bool.or_false]
        · rw [htransfer]
          exact ⟨hinv, hheaded⟩
        · rw [hnot, Bool.or_false] at htrue
          cases htrue
      · obtain ⟨stop, chunks, rest, hchunks, hrest, hmessages, hinv', hdone⟩ := hsent.rest
        obtain rfl := hheaded.mp hstate
        refine ⟨stop, true, ?_, fun hnot => ?_, fun htrue => .inr ?_⟩
        · rw [hmessages, List.nil_append, Bool.false_or]
          exact hphase.send hchunks hrest
        · rw [Bool.false_or] at hnot
          exact ⟨(hinv' hnot).1, iff_of_true (hinv' hnot).2 rfl⟩
        · rw [Bool.false_or] at htrue
          exact hdone htrue
      · obtain ⟨stop, chunks, rest, hchunks, hrest, hmessages, hinv', hdone⟩ := hsent.rest
        have hwaiting : headed = false := by
          rw [← Bool.not_eq_true, ← hheaded, hstate]
          decide
        subst hwaiting
        refine ⟨stop, true, ?_, fun hnot => ?_, fun htrue => .inr ?_⟩
        · rw [hmessages, Bool.false_or]
          generalize s.queue = queue at hphase ⊢
          generalize s.incoming = incoming at hphase ⊢
          generalize s.events = events at hphase ⊢
          cases hphase with
          | waiting hzero hqueue =>
            obtain rfl : queue = [] := hqueue.resolve_right fun h => Bool.false_ne_true h.1
            exact .starting htotal hchunk hlong ⟨chunks, rest, hchunks, hrest, rfl⟩
        · rw [Bool.false_or] at hnot
          exact ⟨(hinv' hnot).1, iff_of_true (hinv' hnot).2 rfl⟩
        · rw [Bool.false_or] at htrue
          exact hdone htrue

theorem Inv.free {s t : System} {sendOk : Bool} (h : Inv file s)
    (hstep : step granularity file s (.free sendOk) = some t) : Inv file t := by
  obtain ⟨sent, headed, hphase, hsender, hend⟩ := h
  simp only [step] at hstep
  split at hstep
  · cases hstep
  · next hfreed =>
    cases hstep
    cases hdone : s.transfer.done with
    | true =>
      refine ⟨sent, headed, ?_, fun hnot => hsender ?_, fun _ => .inl rfl⟩
      · simpa using hphase
      · simpa using hnot
    | false =>
      have hcancelled : s.cancelled = false := by
        rw [← Bool.not_eq_true]
        intro htrue
        have hcontra := (hend htrue).resolve_left hfreed
        exact Bool.false_ne_true (hdone.symm.trans hcontra)
      rw [hcancelled] at hphase
      refine ⟨sent, headed, ?_, fun hnot => ?_, fun _ => .inl rfl⟩
      · simp only [hcancelled, Bool.not_false, Bool.or_true, Bool.true_and]
        cases sendOk with
        | true => exact hphase.cancel (.inr ⟨rfl, rfl⟩)
        | false => simpa using hphase.cancel (.inl rfl)
      · simp at hnot

theorem Inv.deliver {s t : System} {env : ReceiveEnv} (h : Inv file s) (hlegible : Legible file)
    (hclear : Clear s (.deliver env))
    (hstep : step granularity file s (.deliver env) = some t) : Inv file t := by
  obtain ⟨sent, headed, hphase, hsender, hend⟩ := h
  obtain ⟨hok, hpiece⟩ := hclear
  simp only [step] at hstep
  split at hstep
  · cases hstep
  · next message queue hqueue =>
    cases hstep
    rw [hqueue] at hphase hpiece
    exact ⟨sent, headed, hphase.deliver hlegible (hok 0) (hpiece message rfl), hsender, hend⟩

theorem Inv.unambiguous {s : System} (h : Inv file s) : Unambiguous file s := by
  obtain ⟨sent, headed, hphase, hsender, -⟩ := h
  refine ⟨?_, ?_, fun hdone hnot hqueue => ?_⟩
  · rintro ⟨event, hmem, hcancelled⟩
    generalize s.events = events at hphase hmem
    generalize s.incoming = incoming at hphase
    generalize s.queue = queue at hphase
    cases hphase with
    | waiting | starting | receiving => cases hmem
    | finished =>
      rw [List.mem_singleton] at hmem
      subst hmem
      cases hcancelled
    | dropped htrue => exact htrue
  · generalize s.events = events at hphase ⊢
    generalize s.incoming = incoming at hphase
    generalize s.queue = queue at hphase
    cases hphase with
    | waiting | starting | receiving | dropped => exact Nat.zero_le 1
    | finished => exact Nat.le_refl 1
  · obtain ⟨hinv, hheaded⟩ := hsender hnot
    have hsent := hinv.done hdone
    have hstate : s.transfer.state = .fileData := by
      cases hstate : s.transfer.state with
      | headerAndName => exact absurd (hdone.symm.trans (hinv.waiting hstate).2.1) (by decide)
      | fileData => rfl
    obtain rfl := hheaded.mp hstate
    rw [hqueue] at hphase
    generalize s.events = events at hphase ⊢
    generalize s.incoming = incoming at hphase
    cases hphase with
    | receiving hreceiving hlt htail =>
      obtain ⟨chunks, rest, hchunks, -, hnil⟩ := htail
      rw [eq_comm, List.append_eq_nil_iff, List.map_eq_nil_iff] at hnil
      rw [hnil.1] at hchunks
      cases hchunks
      omega
    | finished _ hreceived _ => exact ⟨_, rfl, hreceived⟩
    | dropped htrue => exact absurd (hnot.symm.trans htrue) Bool.false_ne_true

def Step (granularity : Nat) (file : OutgoingFile) (s : System) (event : Event) (t : System) : Prop :=
  step granularity file s event = some t

/-- However the file is cut into messages: as long as no piece of it is taken for something else, the
receiver drops it for a cancel message only, and hands it to the application once. -/
theorem transfer_unambiguous {events : List Event} {s : System} (hlegible : Legible file)
    (hrun : Run (Restrict (fun t event => Complete t event ∧ Clear t event) (Step granularity file))
      (start granularity file) events s) : Unambiguous file s := by
  refine Inv.unambiguous (hrun.invariant (inv_start granularity file) fun t event u ht hstep => ?_)
  obtain ⟨⟨hcomplete, hclear⟩, hstep⟩ := hstep
  cases event with
  | send env => exact ht.send hcomplete hstep
  | free sendOk => exact ht.free hstep
  | deliver env => exact ht.deliver hlegible hclear hstep

end Invariant

def sixteenBytes : SendEnv :=
  ⟨⟨true, 16, 0, 0, 1000000⟩, fun _ => true, fun _ => true⟩

def smallFile : OutgoingFile where
  name := [0x61]
  content := [1, 2, 3]
  fromDisk := false
  lowPriChannel := true
  content_lt := by decide
  buffer_lt := by decide

def smallSent : System :=
  (step 4096 smallFile (start 4096 smallFile) (.send sixteenBytes)).getD (start 4096 smallFile)

def smallReceived : System :=
  (step 4096 smallFile smallSent (.deliver everythingWorks)).getD smallSent

theorem transfer_unambiguous_small : Unambiguous smallFile smallReceived ∧
    (smallReceived.events.filter ReceiveEvent.isDone).length = 1 := by
  have hlegible : Legible smallFile := ⟨by decide, nofun⟩
  have hheader : ∀ message ∈ smallSent.queue, message.kind ≠ .data := by decide +kernel
  have hsend : Step 4096 smallFile (start 4096 smallFile) (.send sixteenBytes) smallSent := rfl
  have hdeliver : Step 4096 smallFile smallSent (.deliver everythingWorks) smallReceived := rfl
  have hclear : Clear smallSent (.deliver everythingWorks) :=
    ⟨fun _ => ⟨rfl, rfl, rfl⟩, fun message hmessage hdata =>
      absurd hdata (hheader message (List.mem_of_mem_head? hmessage))⟩
  have hcomplete : Complete (start 4096 smallFile) (.send sixteenBytes) := fun _ => rfl
  have hcomplete' : Complete smallSent (.deliver everythingWorks) := trivial
  exact ⟨transfer_unambiguous hlegible (.snoc (.snoc (.nil _) ⟨⟨hcomplete, trivial⟩, hsend⟩)
    ⟨⟨hcomplete', hclear⟩, hdeliver⟩), by decide +kernel⟩

theorem run_complete {granularity : Nat} {file : OutgoingFile} {events : List Event} {s t : System}
    (hcomplete : ∀ event ∈ events, ∀ u, Complete u event)
    (h : events.foldlM (step granularity file) s = some t) :
    Run (Restrict Complete (Step granularity file)) s events t := by
  induction events generalizing s with
  | nil =>
    cases h
    exact .nil _
  | cons event events ih =>
    rw [List.foldlM_cons] at h
    obtain ⟨u, hstep, hrest⟩ := Option.bind_eq_some_iff.mp h
    have hfirst := hcomplete event List.mem_cons_self s
    exact .cons ⟨hfirst, hstep⟩ (ih (fun e he => hcomplete e (List.mem_cons_of_mem _ he)) hrest)

/-- A buffer of 18 bytes without a name. The first message takes 14 of them. -/
def markedFile : OutgoingFile where
  name := []
  content := List.replicate 14 0 ++ [0x18, 0x18, 0x18, 0x18]
  fromDisk := false
  lowPriChannel := true
  content_lt := by decide
  buffer_lt := by decide

/-- The last four bytes of the file are taken for a cancel message. -/
theorem transfer_cancelled_by_data : ¬∀ (granularity : Nat) (file : OutgoingFile)
    (events : List Event) (s : System),
      Run (Restrict Complete (Step granularity file)) (start granularity file) events s →
        Unambiguous file s := by
  intro h
  let events : List Event := [.send sixteenBytes, .send sixteenBytes, .deliver everythingWorks,
    .deliver everythingWorks]
  have hcancelled : (events.foldlM (step 4096 markedFile) (start 4096 markedFile)).any
      (fun s => s.events.any ReceiveEvent.isCancelled && !s.cancelled) = true := by
    decide +kernel
  obtain ⟨s, hs, hboth⟩ := (Option.any_eq_true _ _).mp hcancelled
  rw [Bool.and_eq_true, Bool.not_eq_true'] at hboth
  have hcomplete : ∀ event ∈ events, ∀ u, Complete u event := by
    intro event hevent u
    simp only [events, List.mem_cons, List.not_mem_nil, or_false] at hevent
    rcases hevent with rfl | rfl | rfl | rfl
    · exact fun _ => rfl
    · exact fun _ => rfl
    · trivial
    · trivial
  have hunambiguous := h 4096 markedFile events s (run_complete hcomplete hs)
  have htrue := hunambiguous.cancelled (List.any_eq_true.mp hboth.1)
  exact Bool.false_ne_true (hboth.2.symm.trans htrue)

end Tonk.FileTransfer
