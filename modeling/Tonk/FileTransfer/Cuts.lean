import Tonk.FileTransfer.Cancellation
import Tonk.FileTransfer.HeaderRoundTrip

set_option autoImplicit false

namespace Tonk.FileTransfer
open Protocol

section

variable (granularity : Nat)

/-- The calls of ProcessReceiveFileData in a call of tonk_file_receive: the transfer behind each, and the
bytes taken. -/
def receiveTurns (env : ReceiveEnv) : Nat → Nat → Option IncomingFile → Bytes →
    List (Option IncomingFile × Nat)
  | 0, _, _, _ => []
  | fuel + 1, turn, file, data =>
    let (file, written, _) := processReceiveFileData granularity env turn file data
    let next := match file with
      | some t => if t.done then none else some t
      | none => none
    (file, written) ::
      if data.length ≤ written then [] else receiveTurns env fuel (turn + 1) next (data.drop written)

def receiveMessages : Option IncomingFile → List Bytes →
    List ReceiveEvent × List (Option IncomingFile × Nat)
  | _, [] => ([], [])
  | file, data :: more =>
    let (next, events) := tonkFileReceive granularity everythingWorks file data
    let turns := receiveTurns granularity everythingWorks data.length 0 file data
    let rest := receiveMessages next more
    (events ++ rest.1, turns ++ rest.2)

end

/-- After each turn ProgressBytes is the number of bytes copied, those taken without the header, and
they are in their places. -/
def Counted (headerBytes : Nat) (stream : Bytes) : Nat → List (Option IncomingFile × Nat) → Prop
  | _, [] => True
  | taken, (file, written) :: turns =>
    (∃ t, file = some t ∧ t.progressBytes + headerBytes = taken + written ∧
      ∀ i < t.progressBytes, t.output i = stream.getD i 0) ∧
    Counted headerBytes stream (taken + written) turns

structure Faithful (headerBytes : Nat) (stream : Bytes)
    (run : List ReceiveEvent × List (Option IncomingFile × Nat)) : Prop where
  counted : Counted headerBytes stream 0 run.2
  completed : ∃ t, run.1 = [.done t] ∧ t.progressBytes = stream.length ∧ t.failed = false ∧
    ∀ i < stream.length, t.output i = stream.getD i 0

/-- From `position` on, no piece goes over a multiple of kMaxViewBytes. -/
def Uncrossed : Nat → List Bytes → Prop
  | _, [] => True
  | position, chunk :: chunks =>
    position + chunk.length ≤ kMaxViewBytes * (position / kMaxViewBytes + 1) ∧
      Uncrossed (position + chunk.length) chunks

section

variable {granularity : Nat} {file : OutgoingFile}

structure Filling (file : OutgoingFile) (t : IncomingFile) (position : Nat) : Prop where
  receiving : Receiving file t position
  lt : position < file.content.length
  view_end : t.view.offset + t.view.length =
    min file.content.length (kMaxViewBytes * (position / kMaxViewBytes + 1))

theorem Filling.fits_iff {t : IncomingFile} {position n : Nat} (h : Filling file t position)
    (hlength : position + n ≤ file.content.length) :
    n ≤ t.view.length - t.viewOffset ↔
      position + n ≤ kMaxViewBytes * (position / kMaxViewBytes + 1) := by
  have hposition := h.receiving.position_eq
  have hless := h.receiving.offset_lt h.lt
  have hend := h.view_end
  generalize kMaxViewBytes * (position / kMaxViewBytes + 1) = stop at hend ⊢
  omega

theorem Filling.view_next {t : IncomingFile} {position n : Nat} (h : Filling file t position)
    (hlt : position + n < file.content.length) (hfits : n ≤ t.view.length - t.viewOffset)
    (data : Bytes) (hdata : data.length = n) :
    (receiveData granularity true true t data).1.view.offset +
        (receiveData granularity true true t data).1.view.length =
      min file.content.length (kMaxViewBytes * ((position + n) / kMaxViewBytes + 1)) := by
  have hbound := (h.fits_iff hlt.le).mp hfits
  have hposition := h.receiving.position_eq
  have hless := h.receiving.offset_lt h.lt
  have hend := h.view_end
  simp only [receiveData, hdata, h.receiving.progress, h.receiving.total, Bool.not_true,
    if_true]
  rw [if_neg (by omega)]
  by_cases hfull : t.view.length ≤ t.viewOffset + n
  · have hmask := Nat.mod_le (position + n) granularity
    have hne : min (file.content.length - (position + n)) kMaxViewBytes ≠ 0 := by
      rw [kMaxViewBytes]
      omega
    rw [if_pos hfull]
    simp only [MappedView.mapView, if_neg hne]
    rw [kMaxViewBytes] at hend hbound ⊢
    omega
  · rw [if_neg hfull, hend]
    rw [kMaxViewBytes] at hend hbound ⊢
    omega

structure Took (file : OutgoingFile) (t : IncomingFile) (position : Nat) : Prop where
  progress : t.progressBytes = position
  output : ∀ i < position, t.output i = file.content.getD i 0
  next : if position = file.content.length then t.done = true ∧ t.failed = false
    else Filling file t position

theorem receiveData_progress (granularity : Nat) (resizes maps : Bool) (t : IncomingFile)
    (data : Bytes) : (receiveData granularity resizes maps t data).1.progressBytes =
      t.progressBytes + data.length := by
  simp only [receiveData]
  split
  · rfl
  · split <;> rfl

variable (granularity) in
theorem Filling.took {t : IncomingFile} {position n : Nat} (h : Filling file t position)
    (hlength : position + n ≤ file.content.length) (hfits : n ≤ t.view.length - t.viewOffset) :
    (receiveData granularity true true t ((file.content.drop position).take n)).2 = n ∧
      Took file (receiveData granularity true true t ((file.content.drop position).take n)).1
        (position + n) := by
  have hdata : ((file.content.drop position).take n).length = n := by
    rw [List.length_take, List.length_drop]
    omega
  obtain ⟨hwritten, hnext⟩ := h.receiving.receiveData granularity hlength hfits
  rw [hdata] at hwritten
  have hprogress := receiveData_progress granularity true true t ((file.content.drop position).take n)
  rw [h.receiving.progress, hdata] at hprogress
  refine ⟨hwritten, hprogress, ?_, ?_⟩
  · intro i hi
    by_cases hend : position + n = file.content.length
    · rw [if_pos hend] at hnext
      exact hnext.2.output i (by omega)
    · rw [if_neg hend] at hnext
      exact hnext.output i hi
  · by_cases hend : position + n = file.content.length
    · rw [if_pos hend] at hnext ⊢
      exact ⟨hnext.1, hnext.2.failed⟩
    · rw [if_neg hend] at hnext ⊢
      have hlt : position + n < file.content.length := Nat.lt_of_le_of_ne hlength hend
      exact ⟨hnext, hlt, h.view_next hlt hfits _ hdata⟩

theorem receiveTurns_once {env : ReceiveEnv} {incoming : Option IncomingFile} {data : Bytes}
    (hpos : data ≠ []) {t : IncomingFile}
    (h : processReceiveFileData granularity env 0 incoming data = (some t, data.length, [])) :
    receiveTurns granularity env data.length 0 incoming data = [(some t, data.length)] := by
  obtain ⟨fuel, hfuel⟩ := Nat.exists_eq_succ_of_ne_zero (List.length_pos_iff.mpr hpos).ne'
  rw [hfuel, receiveTurns, h]
  simp only [Nat.le_refl, if_true, Nat.succ_eq_add_one, hfuel]

theorem receiveTurns_head {env : ReceiveEnv} {incoming : Option IncomingFile} {data : Bytes}
    (hpos : data ≠ []) {result : Option IncomingFile} {written : Nat} {events : List ReceiveEvent}
    (h : processReceiveFileData granularity env 0 incoming data = (result, written, events)) :
    ∃ turns, receiveTurns granularity env data.length 0 incoming data =
      (result, written) :: turns := by
  obtain ⟨fuel, hfuel⟩ := Nat.exists_eq_succ_of_ne_zero (List.length_pos_iff.mpr hpos).ne'
  rw [hfuel, receiveTurns, h]
  exact ⟨_, rfl⟩

variable (granularity) in
theorem Filling.process {t : IncomingFile} {position : Nat} (h : Filling file t position)
    {data : Bytes} (hclear : isCancel data = false) :
    processReceiveFileData granularity everythingWorks 0 (some t) data =
      (some (receiveData granularity true true t data).1,
        (receiveData granularity true true t data).2, []) := by
  unfold processReceiveFileData
  simp only [hclear, h.receiving.failed, Bool.false_eq_true, if_false, everythingWorks]

theorem Took.receiveMessages {t : IncomingFile} {position headerBytes taken : Nat}
    {incoming : Option IncomingFile} {data : Bytes} (h : Took file t position) (hpos : data ≠ [])
    (hprocess : processReceiveFileData granularity everythingWorks 0 incoming data =
      (some t, data.length, []))
    (htaken : position + headerBytes = taken + data.length) (more : List Bytes) :
    (Counted headerBytes file.content taken
        (receiveMessages granularity incoming (data :: more)).2 ↔
      Counted headerBytes file.content (position + headerBytes) (FileTransfer.receiveMessages granularity
        (if position = file.content.length then none else some t) more).2) ∧
      (FileTransfer.receiveMessages granularity incoming (data :: more)).1 =
        (if position = file.content.length then [.done t] else []) ++
          (FileTransfer.receiveMessages granularity
            (if position = file.content.length then none else some t) more).1 := by
  have hcall := tonkFileReceive_once hpos hprocess
  have hdone : t.done = true ↔ position = file.content.length := by
    have hnext := h.next
    by_cases hend : position = file.content.length
    · rw [if_pos hend] at hnext
      exact iff_of_true hnext.1 hend
    · rw [if_neg hend] at hnext
      refine iff_of_false ?_ hend
      rw [hnext.receiving.done]
      exact Bool.false_ne_true
  have hresult : tonkFileReceive granularity everythingWorks incoming data =
      (if position = file.content.length then none else some t,
        if position = file.content.length then [.done t] else []) := by
    rw [hcall]
    by_cases hend : position = file.content.length
    · rw [if_pos (hdone.mpr hend), if_pos hend, if_pos hend]
    · rw [if_neg (fun htrue => hend (hdone.mp htrue)), if_neg hend, if_neg hend]
  simp only [FileTransfer.receiveMessages, hresult, receiveTurns_once hpos hprocess, and_true]
  simp only [List.singleton_append, Counted, ← htaken]
  refine ⟨fun hall => hall.2, fun hall => ⟨⟨t, rfl, by rw [h.progress], fun i hi => ?_⟩, hall⟩⟩
  exact h.output i (h.progress ▸ hi)

theorem not_counted_of_crossing (headerBytes taken extra : Nat) {t : IncomingFile}
    {position n : Nat} (hprogress : t.progressBytes = position) {incoming : Option IncomingFile}
    {data : Bytes} (hpos : data ≠ []) {written : Nat} {events : List ReceiveEvent} {chunk : Bytes}
    (hchunk : chunk.length = n)
    (hprocess : processReceiveFileData granularity everythingWorks 0 incoming data =
      (some (receiveData granularity true true t chunk).1, extra + written, events))
    (hwritten : written < n) (htaken : position + headerBytes = taken + extra) (stream : Bytes)
    (more : List Bytes) :
    ¬Counted headerBytes stream taken (receiveMessages granularity incoming (data :: more)).2 := by
  obtain ⟨turns, hturns⟩ := receiveTurns_head hpos hprocess
  simp only [receiveMessages, hturns, List.cons_append, Counted]
  rintro ⟨⟨t', ht', hcount, -⟩, -⟩
  rw [← Option.some.inj ht', receiveData_progress, hprogress, hchunk] at hcount
  omega

theorem receiveData_written (granularity : Nat) (resizes maps : Bool) (t : IncomingFile)
    (data : Bytes) : (receiveData granularity resizes maps t data).2 =
      min data.length (t.view.length - t.viewOffset) := by
  simp only [receiveData]
  split
  · rfl
  · split <;> rfl

def RightRun (file : OutgoingFile) (headerBytes taken : Nat)
    (run : List ReceiveEvent × List (Option IncomingFile × Nat)) : Prop :=
  Counted headerBytes file.content taken run.2 ∧
    ∃ t, run.1 = [.done t] ∧ t.progressBytes = file.content.length ∧ t.failed = false ∧
      ∀ i < file.content.length, t.output i = file.content.getD i 0

theorem Took.rightRun_iff {t : IncomingFile} {position headerBytes taken : Nat}
    {incoming : Option IncomingFile} {data : Bytes} (h : Took file t position) (hpos : data ≠ [])
    (hprocess : processReceiveFileData granularity everythingWorks 0 incoming data =
      (some t, data.length, []))
    (htaken : position + headerBytes = taken + data.length) {more : List Bytes}
    (hmore : file.content.drop position = more.flatten) (hne : ∀ chunk ∈ more, chunk ≠ [])
    (hrest : Filling file t position → (RightRun file headerBytes (position + headerBytes)
      (FileTransfer.receiveMessages granularity (some t) more) ↔ Uncrossed position more)) :
    RightRun file headerBytes taken
      (FileTransfer.receiveMessages granularity incoming (data :: more)) ↔
        Uncrossed position more := by
  obtain ⟨hcounted, hevents⟩ := h.receiveMessages hpos hprocess htaken more
  have hnext := h.next
  by_cases hend : position = file.content.length
  · have hnil : more = [] := by
      rw [hend, List.drop_length] at hmore
      match more with
      | [] => rfl
      | chunk :: _ =>
        exact absurd (List.flatten_eq_nil_iff.mp hmore.symm chunk (by simp)) (hne chunk (by simp))
    subst hnil
    rw [if_pos hend] at hcounted hevents hnext
    refine iff_of_true ⟨hcounted.mpr trivial, t, hevents, h.progress.trans hend, hnext.2, ?_⟩
      trivial
    exact fun i hi => h.output i (hend ▸ hi)
  · rw [if_neg hend] at hcounted hevents hnext
    rw [← hrest hnext, RightRun, RightRun, hcounted, hevents, if_neg hend, List.nil_append]

theorem Filling.rightRun_iff {t : IncomingFile} {position headerBytes : Nat}
    (h : Filling file t position) {chunks : List Bytes}
    (hchunks : ∀ chunk ∈ chunks, chunk ≠ [] ∧ isCancel chunk = false)
    (hdata : file.content.drop position = chunks.flatten) :
    RightRun file headerBytes (position + headerBytes)
      (FileTransfer.receiveMessages granularity (some t) chunks) ↔ Uncrossed position chunks := by
  induction chunks generalizing t position with
  | nil =>
    have hlt := h.lt
    have hlength := congrArg List.length hdata
    rw [List.length_drop, List.flatten_nil, List.length_nil] at hlength
    omega
  | cons chunk more ih =>
    obtain ⟨hpos, hclear⟩ := hchunks chunk (by simp)
    have hlength := congrArg List.length hdata
    rw [List.flatten_cons, List.length_append, List.length_drop] at hlength
    have hlt := h.lt
    have hle : position + chunk.length ≤ file.content.length := by omega
    have hchunk : (file.content.drop position).take chunk.length = chunk := by
      rw [hdata, List.flatten_cons, List.take_left]
    have hmore : file.content.drop (position + chunk.length) = more.flatten := by
      rw [← List.drop_drop, hdata, List.flatten_cons, List.drop_left]
    have hprocess := h.process granularity hclear
    rw [Uncrossed, ← h.fits_iff hle]
    by_cases hfits : chunk.length ≤ t.view.length - t.viewOffset
    · obtain ⟨hwritten, htook⟩ := h.took granularity hle hfits
      rw [hchunk] at hwritten htook
      rw [hwritten] at hprocess
      rw [and_iff_right hfits]
      refine htook.rightRun_iff hpos hprocess (by omega) hmore
        (fun c hc => (hchunks c (List.mem_cons_of_mem chunk hc)).1) fun hfilling => ?_
      exact ih hfilling (fun c hc => hchunks c (List.mem_cons_of_mem chunk hc)) hmore
    · refine iff_of_false (fun hrun => ?_) (fun hun => hfits hun.1)
      rw [receiveData_written, Nat.min_eq_right (Nat.le_of_not_le hfits), ← Nat.zero_add
        (t.view.length - t.viewOffset)] at hprocess
      exact not_counted_of_crossing headerBytes (position + headerBytes) 0 h.receiving.progress hpos
        rfl hprocess (by omega) rfl file.content more hrun.1

end

theorem startReceive_some {granularity : Nat} {data : Bytes} {start : IncomingFile}
    {nonDataBytes : Nat} (h : startReceive granularity true data = some (start, nonDataBytes)) :
    data ≠ [] ∧ start.totalBytes < 2 ^ 64 ∧ start = ⟨start.name, start.totalBytes, 0,
      receiveView granularity start.totalBytes, 0, fun _ => 0, false, false⟩ := by
  simp only [startReceive] at h
  split at h
  · exact absurd h.symm (Option.some_ne_none _)
  · next hlength =>
    split at h
    · exact absurd h.symm (Option.some_ne_none _)
    · split at h
      · exact absurd h.symm (Option.some_ne_none _)
      · split at h
        · exact absurd h.symm (Option.some_ne_none _)
        · cases Option.some.inj h
          refine ⟨fun hnil => ?_, ?_, rfl⟩
          · rw [hnil, List.length_nil] at hlength
            omega
          · have hlt := LittleEndian.value_lt ((data.drop 1).take
              (((data.headD 0).toNat >>> 1 &&& 7) + 1))
            have hfield : ((data.drop 1).take (((data.headD 0).toNat >>> 1 &&& 7) + 1)).length ≤ 8 := by
              have hseven : (data.headD 0).toNat >>> 1 &&& 7 ≤ 7 := Nat.and_le_right
              rw [List.length_take]
              omega
            exact hlt.trans_le (Nat.pow_le_pow_right (by decide) hfield)

section

variable {granularity : Nat} {file : OutgoingFile}

variable (file) in
theorem filling_start (granularity : Nat) (hpos : 0 < file.content.length) :
    Filling file ⟨file.name, file.content.length, 0, receiveView granularity file.content.length, 0,
      fun _ => 0, false, false⟩ 0 := by
  refine ⟨receiving_start granularity file, hpos, ?_⟩
  simp only [receiveView, mapView_zero, Nat.zero_div, Nat.zero_add, Nat.mul_one]
  split
  · exact Nat.zero_add _
  · next hsmall =>
    rw [kOutputFileThresholdBytes] at hsmall
    dsimp only
    rw [kMaxViewBytes]
    omega

theorem took_start (file : OutgoingFile) (granularity : Nat) {n : Nat} (hlength : n ≤ file.content.length)
    (hfits : n ≤ kMaxViewBytes) :
    (receiveData granularity true true ⟨file.name, file.content.length, 0,
        receiveView granularity file.content.length, 0, fun _ => 0, false, false⟩
        (file.content.take n)).2 = n ∧
      Took file (receiveData granularity true true ⟨file.name, file.content.length, 0,
        receiveView granularity file.content.length, 0, fun _ => 0, false, false⟩
        (file.content.take n)).1 n := by
  by_cases hpos : 0 < file.content.length
  · have hfilling := filling_start file granularity hpos
    have hroom := (hfilling.fits_iff (n := n) (by omega)).mpr (by
      rw [Nat.zero_div, Nat.zero_add, Nat.zero_add, Nat.mul_one]
      exact hfits)
    have htook := hfilling.took granularity (by omega) hroom
    rwa [List.drop_zero, Nat.zero_add] at htook
  · have hcontent : file.content = [] := List.eq_nil_of_length_eq_zero (by omega)
    have hn : n = 0 := by omega
    subst hn
    rw [hcontent]
    refine ⟨rfl, rfl, fun i hi => absurd hi (Nat.not_lt_zero i), ?_⟩
    rw [hcontent, if_pos List.length_nil.symm]
    exact ⟨rfl, rfl⟩

theorem not_rightRun_of_first {data first : Bytes} {headerBytes : Nat} (hpos : data ≠ [])
    {start : IncomingFile} (hstart : start = ⟨file.name, file.content.length, 0,
      receiveView granularity file.content.length, 0, fun _ => 0, false, false⟩)
    (hle : first.length ≤ file.content.length) (hcross : ¬first.length ≤ kMaxViewBytes)
    (hprocess : processReceiveFileData granularity everythingWorks 0 none data =
      (some (receiveData granularity true true start first).1,
        headerBytes + (receiveData granularity true true start first).2, []))
    (rest : List Bytes) :
    ¬RightRun file headerBytes 0
      (FileTransfer.receiveMessages granularity none (data :: rest)) := by
  intro hright
  have hfilling := filling_start file granularity (by omega)
  rw [← hstart] at hfilling
  have hroom : ¬first.length ≤ start.view.length - start.viewOffset := by
    rw [hfilling.fits_iff (by omega), Nat.zero_div, Nat.zero_add, Nat.zero_add, Nat.mul_one]
    exact hcross
  rw [receiveData_written, Nat.min_eq_right (Nat.le_of_not_le hroom)] at hprocess
  exact not_counted_of_crossing headerBytes 0 headerBytes hfilling.receiving.progress hpos rfl
    hprocess (Nat.lt_of_not_le hroom) rfl file.content rest hright.1

end

/-- The transfer counts right, and the callback gets the stream, if and only if no message goes over a
multiple of kMaxViewBytes of the file, however it is cut. -/
theorem faithful_iff (granularity : Nat) {head first : Bytes} {rest : List Bytes}
    {start : IncomingFile}
    (hstart : startReceive granularity true (head ++ first) = some (start, head.length))
    (htotal : start.totalBytes = (first :: rest).flatten.length)
    (hrest : ∀ chunk ∈ rest, chunk ≠ [] ∧ isCancel chunk = false) :
    Faithful head.length (first :: rest).flatten
        (receiveMessages granularity none ((head ++ first) :: rest)) ↔
      Uncrossed 0 (first :: rest) := by
  obtain ⟨hpos, hsize, hfields⟩ := startReceive_some hstart
  rw [htotal] at hsize
  -- The stream as the content of a file of that name.
  let file : OutgoingFile := ⟨start.name, (first :: rest).flatten, true, false, hsize, nofun⟩
  rw [htotal] at hfields
  have hrun : ∀ run, Faithful head.length (first :: rest).flatten run ↔
      RightRun file head.length 0 run := fun run => ⟨fun h => ⟨h.1, h.2⟩, fun h => ⟨h.1, h.2⟩⟩
  have hprocess := processReceiveFileData_start everythingWorks 0 hstart
  rw [List.drop_left] at hprocess
  have hle : first.length ≤ file.content.length := by
    simp only [file, List.flatten_cons, List.length_append]
    omega
  have htake : file.content.take first.length = first := by
    simp only [file, List.flatten_cons, List.take_left]
  have hdrop : file.content.drop first.length = rest.flatten := by
    simp only [file, List.flatten_cons, List.drop_left]
  rw [hrun, Uncrossed, Nat.zero_div, Nat.zero_add, Nat.zero_add, Nat.mul_one]
  by_cases hfits : first.length ≤ kMaxViewBytes
  · obtain ⟨hwritten, htook⟩ := took_start file granularity hle hfits
    rw [htake] at hwritten htook
    have hfirst : (receiveData granularity true true start first).2 = first.length :=
      hfields ▸ hwritten
    rw [and_iff_right hfits]
    refine (hfields ▸ htook).rightRun_iff hpos ?_ ?_ hdrop (fun c hc => (hrest c hc).1)
      fun hfilling => hfilling.rightRun_iff hrest hdrop
    · rw [hprocess, List.length_append, ← hfirst]
      rfl
    · rw [List.length_append]
      omega
  · refine iff_of_false (fun hright => ?_) (fun hun => hfits hun.1)
    exact not_rightRun_of_first hpos rfl hle hfits (hfields ▸ hprocess) rest hright

/-- The header of three bytes under the name `a`, and the bytes in two messages. -/
theorem faithful_iff_three : Faithful 4 [1, 2, 3]
    (receiveMessages 4096 none [[0xd0, 3, 1, 0x61, 1], [2, 3]]) ↔ Uncrossed 0 [[1], [2, 3]] :=
  have hstart : startReceive 4096 true ([0xd0, 3, 1, 0x61] ++ [1]) =
      some (_, ([0xd0, 3, 1, 0x61] : Bytes).length) := rfl
  have hrest : ∀ chunk ∈ ([[2, 3]] : List Bytes), chunk ≠ [] ∧ isCancel chunk = false := by decide
  faithful_iff 4096 hstart rfl hrest

/-- A file of a byte more than a view, in one message. -/
theorem not_faithful : ¬∀ (granularity : Nat) (head first : Bytes) (rest : List Bytes)
    (start : IncomingFile),
    startReceive granularity true (head ++ first) = some (start, head.length) →
    start.totalBytes = (first :: rest).flatten.length →
    (∀ chunk ∈ rest, chunk ≠ [] ∧ isCancel chunk = false) →
    Faithful head.length (first :: rest).flatten
      (receiveMessages granularity none ((head ++ first) :: rest)) := by
  intro h
  obtain ⟨content, hlength⟩ : ∃ content : Bytes, content.length = kMaxViewBytes + 1 :=
    ⟨List.replicate (kMaxViewBytes + 1) 0, List.length_replicate⟩
  let file : OutgoingFile := ⟨[0x61], content, true, false, hlength ▸ by decide, nofun⟩
  have hname : file.name.length < 256 := show 1 < 256 by decide
  have hflat : ([content] : List Bytes).flatten = file.content := by simp [file]
  have hthree : 3 ≤ (header file ++ content).length := by
    rw [List.length_append, hlength, kMaxViewBytes]
    omega
  have hstart := startReceive_header 4096 file content hname hthree
  have hright := h 4096 (header file) content [] _ hstart (by rw [hflat]) (by simp)
  rw [hflat] at hright
  have hprocess := processReceiveFileData_start everythingWorks 0 hstart
  rw [List.drop_left] at hprocess
  refine not_rightRun_of_first (startReceive_some hstart).1 rfl (Nat.le_refl _) ?_ hprocess []
    ⟨hright.1, hright.2⟩
  rw [hlength]
  exact Nat.not_succ_le_self _

end Tonk.FileTransfer
