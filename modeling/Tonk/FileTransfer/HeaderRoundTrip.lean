import Tonk.FileTransfer.Transfer

set_option autoImplicit false

namespace Tonk.FileTransfer
open Protocol LittleEndian

def appended (file : OutgoingFile) (t : SendTransfer) (deficitBytes : Nat) : Bytes :=
  (file.content.drop t.view.offset).take (headerDataBytes file t.view.length deficitBytes)

def RoundTrips (granularity : Nat) (env : ReceiveEnv) (turn : Nat) (file : OutgoingFile)
    (data : Bytes) : Prop :=
  ∃ start : IncomingFile, start.name = file.name ∧ start.totalBytes = file.content.length ∧
    start.progressBytes = 0 ∧
    processReceiveFileData granularity env turn none (header file ++ data) =
      (some (receiveData granularity (env.resizes turn) (env.maps turn) start data).1,
        (header file).length +
          (receiveData granularity (env.resizes turn) (env.maps turn) start data).2, [])

theorem receiveData_name (granularity : Nat) (resizes maps : Bool) (t : IncomingFile)
    (data : Bytes) : (receiveData granularity resizes maps t data).1.name = t.name := by
  simp only [receiveData]
  split
  · rfl
  · split <;> rfl

theorem lenBytes_eq_one_iff {totalBytes : Nat} (h : totalBytes < 2 ^ 64) :
    lenBytes totalBytes = 1 ↔ totalBytes < 256 := by
  constructor
  · intro hone
    have hlt := (lenBytes_spec h).2.2
    rwa [hone, pow_one] at hlt
  · intro hlt
    unfold lenBytes lenBits
    split
    · next hpos =>
      have hlog : totalBytes.log2 < 8 := by
        rw [Nat.log2_lt (by omega)]
        exact hlt
      rw [if_neg (by omega)]
      omega
    · rfl

section
variable {granularity : Nat} {env : ReceiveEnv} {turn : Nat} {file : OutgoingFile} {data : Bytes}

variable (env turn) in
theorem processReceiveFileData_start {t : IncomingFile} {nonDataBytes : Nat}
    (h : startReceive granularity (env.opens turn) data = some (t, nonDataBytes)) :
    processReceiveFileData granularity env turn none data =
      (some (receiveData granularity (env.resizes turn) (env.maps turn) t
          (data.drop nonDataBytes)).1,
        nonDataBytes + (receiveData granularity (env.resizes turn) (env.maps turn) t
          (data.drop nonDataBytes)).2, []) := by
  rw [processReceiveFileData, h]

theorem RoundTrips.name_lt (h : RoundTrips granularity env turn file data)
    (hname : file.name.length ≤ kMaxNameBytes) : file.name.length < 256 := by
  obtain ⟨start, hstart, -, -, hreceived⟩ := h
  by_contra hlong
  have hlen : nameLen file = file.name.length := Nat.min_eq_left hname
  have hlength : 3 ≤ (header file ++ data).length := by
    rw [List.length_append, header_length, hlen]
    omega
  rw [processReceiveFileData_start _ _
    (startReceive_written granularity _ file data hname hlength)] at hreceived
  have hcut := congrArg (fun r => r.1.map IncomingFile.name) hreceived
  simp only [Option.map_some, receiveData_name, hstart] at hcut
  have hlengths := congrArg List.length (Option.some.inj hcut)
  rw [List.length_take] at hlengths
  have hmod := Nat.mod_lt file.name.length (show 0 < 256 by decide)
  omega

theorem RoundTrips.length_ge (h : RoundTrips granularity env turn file data) :
    3 ≤ (header file ++ data).length := by
  obtain ⟨start, -, -, -, hreceived⟩ := h
  by_contra hshort
  have hnone : startReceive granularity (env.opens turn) (header file ++ data) = none := by
    rw [startReceive, if_pos (Nat.lt_of_not_le hshort)]
  rw [processReceiveFileData, hnone] at hreceived
  cases congrArg (fun r : Option IncomingFile × Nat × List ReceiveEvent => r.1) hreceived

theorem roundTrips_of_length (hname : file.name.length < 256)
    (hlength : 3 ≤ (header file ++ data).length) :
    RoundTrips granularity env turn file data := by
  have hmax : file.name.length ≤ kMaxNameBytes := by
    rw [kMaxNameBytes]
    omega
  have hlen : nameLen file = file.name.length := Nat.min_eq_left hmax
  have hstart := startReceive_written granularity (env.opens turn) file data hmax hlength
  have hheader : 1 + lenBytes file.content.length + nameLenBytes file + file.name.length % 256 =
      (header file).length := by
    rw [header_length, hlen, Nat.mod_eq_of_lt hname]
  rw [hheader] at hstart
  rw [Nat.mod_eq_of_lt hname, List.take_length] at hstart
  have hgoes := processReceiveFileData_start env turn hstart
  rw [List.drop_left] at hgoes
  exact ⟨_, rfl, rfl, rfl, hgoes⟩

end

theorem message_length_ge_iff {file : OutgoingFile} {t : SendTransfer} (deficitBytes : Nat)
    (hview : t.view.offset + t.view.length ≤ file.content.length) :
    3 ≤ (header file ++ appended file t deficitBytes).length ↔
      file.name ≠ [] ∨ 256 ≤ file.content.length ∨ 0 < t.view.length ∧ 2 < deficitBytes := by
  obtain ⟨hone, -, -⟩ := lenBytes_spec file.content_lt
  rw [List.length_append, header_length]
  by_cases hname : file.name = []
  · have hlen : nameLen file = 0 := by rw [nameLen, hname, List.length_nil, Nat.zero_min]
    have hlenBytes : nameLenBytes file = 0 := by rw [nameLenBytes, hlen, if_neg (by decide)]
    by_cases hlarge : 256 ≤ file.content.length
    · have htwo : lenBytes file.content.length ≠ 1 := by
        rw [Ne, lenBytes_eq_one_iff file.content_lt]
        omega
      exact iff_of_true (by omega) (.inr (.inl hlarge))
    · have hsingle := (lenBytes_eq_one_iff file.content_lt).mpr (Nat.lt_of_not_le hlarge)
      have hdata : 0 < (appended file t deficitBytes).length ↔
          0 < t.view.length ∧ 2 < deficitBytes := by
        rw [appended, List.length_take, List.length_drop, headerDataBytes, hsingle, hlenBytes, hlen,
          kBytesChunk]
        split <;> omega
      rw [hsingle, hlenBytes, hlen]
      constructor
      · exact fun h => .inr (.inr (hdata.mp (by omega)))
      · rintro (h | h | h)
        · exact absurd hname h
        · exact absurd h hlarge
        · have := hdata.mpr h
          omega
  · have hpos : 0 < file.name.length := List.length_pos_of_ne_nil hname
    have hlen : 0 < nameLen file := by
      rw [nameLen, kMaxNameBytes]
      omega
    exact iff_of_true (by omega) (.inl hname)

/-- The first message comes back as it was meant if and only if the length of the name is below 256
and the message is not the flags and a byte of size alone. -/
theorem roundTrips_iff (granularity : Nat) (env : ReceiveEnv) (turn : Nat) (file : OutgoingFile)
    (t : SendTransfer) (deficitBytes : Nat) (hname : file.name.length ≤ kMaxNameBytes)
    (hview : t.view.offset + t.view.length ≤ file.content.length) :
    RoundTrips granularity env turn file (appended file t deficitBytes) ↔
      file.name.length < 256 ∧
        (file.name ≠ [] ∨ 256 ≤ file.content.length ∨ 0 < t.view.length ∧ 2 < deficitBytes) := by
  rw [← message_length_ge_iff deficitBytes hview]
  constructor
  · exact fun h => ⟨h.name_lt hname, h.length_ge⟩
  · exact fun ⟨hshort, hlength⟩ => roundTrips_of_length hshort hlength

def threeBytes (nameLength : Nat) : OutgoingFile where
  name := List.replicate nameLength 0x61
  content := [4, 5, 6]
  fromDisk := false
  lowPriChannel := false
  content_lt := by decide
  buffer_lt _ := by decide

theorem appended_threeBytes {nameLength : Nat} (h : nameLength ≤ 256) :
    appended (threeBytes nameLength) (startTransfer 4096 (threeBytes nameLength)) 1000 = [4, 5, 6] := by
  have hname : nameLen (threeBytes nameLength) ≤ 256 :=
    (Nat.min_le_left _ _).trans (List.length_replicate.trans_le h)
  have hlenBytes : nameLenBytes (threeBytes nameLength) ≤ 2 := by
    rw [nameLenBytes]
    repeat' split
    all_goals decide
  have hlenBits : lenBytes (threeBytes nameLength).content.length = 1 := by
    show lenBytes 3 = 1
    decide
  have hdata : headerDataBytes (threeBytes nameLength) 3 1000 = 3 := by
    simp only [headerDataBytes, hlenBits, kBytesChunk]
    rw [if_neg (by omega)]
    show min (min (min 1000 64000 - _) 3) 3 = 3
    omega
  rw [appended]
  show ([4, 5, 6] : Bytes).take (headerDataBytes (threeBytes nameLength) 3 1000) = [4, 5, 6]
  rw [hdata]
  rfl

/-- A name of 255 bytes comes back with its data, one of 256 bytes does not. -/
theorem roundTrips_iff_longNames :
    RoundTrips 4096 everythingWorks 0 (threeBytes 255) [4, 5, 6] ∧
      ¬RoundTrips 4096 everythingWorks 0 (threeBytes 256) [4, 5, 6] := by
  have hshort := roundTrips_iff 4096 everythingWorks 0 (threeBytes 255)
    (startTransfer 4096 (threeBytes 255)) 1000
    (by rw [threeBytes, List.length_replicate]; decide) (Nat.le_refl 3)
  have hlong := roundTrips_iff 4096 everythingWorks 0 (threeBytes 256)
    (startTransfer 4096 (threeBytes 256)) 1000
    (by rw [threeBytes, List.length_replicate]; decide) (Nat.le_refl 3)
  rw [appended_threeBytes (by decide)] at hshort hlong
  rw [hshort, hlong]
  refine ⟨⟨?_, .inr (.inr (by decide))⟩, fun h => absurd h.1 ?_⟩
  · rw [threeBytes, List.length_replicate]
    decide
  · rw [threeBytes, List.length_replicate]
    decide

/-- A name of 256 bytes is lost. -/
theorem not_roundTrips : ¬∀ (granularity : Nat) (env : ReceiveEnv) (turn : Nat)
    (file : OutgoingFile) (t : SendTransfer) (deficitBytes : Nat),
    file.name.length ≤ kMaxNameBytes → t.view.offset + t.view.length ≤ file.content.length →
      RoundTrips granularity env turn file (appended file t deficitBytes) := by
  intro h
  have hlength : (threeBytes 256).name.length = 256 := List.length_replicate
  have hlost := h 4096 everythingWorks 0 (threeBytes 256)
    (startTransfer 4096 (threeBytes 256)) 1000 (by rw [hlength]; decide) (Nat.le_refl 3)
  have hlt := hlost.name_lt (by rw [hlength]; decide)
  omega

end Tonk.FileTransfer
