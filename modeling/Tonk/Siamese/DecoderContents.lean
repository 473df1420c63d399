import Tonk.Siamese.DecoderPositions

set_option autoImplicit false

namespace Tonk.Siamese
namespace Decoder

variable {α : Type}

/-- Neither the window nor anything RemoveElements goes by starts past the packet `needed`. -/
structure Kept (d : Decoder α Nat) (windowStart needed : Nat) : Prop where
  start_le : windowStart ≤ needed
  stored : ∀ r ∈ d.recoveryPackets, windowStart + r.elementStart ≤ needed
  last : ∀ m packetEnd, d.lastRecovery = some (m, packetEnd) → packetEnd ≤ needed + m.ldpcCount

/-- The window slides by `slid` elements and `filled` are filled in, in the elements of before. -/
structure Moves (d d' : Decoder α Nat) (windowStart needed slid : Nat) (filled : List (Nat × α)) :
    Prop where
  columnStart_eq : d'.window.columnStart = columnOf (windowStart + slid)
  slid_lt : slid < kColumnPeriod
  kept : d'.Kept (windowStart + slid) needed
  contents : ∀ e data, d'.window.getWindowElement e = some data ↔
    d.window.getWindowElement (slid + e) = some data ∨ (slid + e, data) ∈ filled
  missing : ∀ p ∈ filled, d.window.getWindowElement p.1 = none
  nodup : (filled.map Prod.fst).Nodup

theorem Kept.mono {d : Decoder α Nat} {windowStart needed needed' : Nat}
    (h : d.Kept windowStart needed) (hle : needed ≤ needed') : d.Kept windowStart needed' := by
  refine ⟨h.start_le.trans hle, fun r hr => (h.stored r hr).trans hle, fun m packetEnd hm => ?_⟩
  have := h.last m packetEnd hm
  omega

theorem kept_initial : (initial : Decoder α Nat).Kept 0 0 :=
  ⟨Nat.le_refl 0, by simp [initial], by simp [initial]⟩

theorem Moves.stays {d d' : Decoder α Nat} {windowStart needed : Nat} {filled : List (Nat × α)}
    (hcolumn : d'.window.columnStart = columnOf windowStart) (hkept : d'.Kept windowStart needed)
    (hcontents : ∀ e data, d'.window.getWindowElement e = some data ↔
      d.window.getWindowElement e = some data ∨ (e, data) ∈ filled)
    (hmissing : ∀ p ∈ filled, d.window.getWindowElement p.1 = none)
    (hnodup : (filled.map Prod.fst).Nodup) : d.Moves d' windowStart needed 0 filled :=
  ⟨hcolumn, by decide, hkept, by simpa using hcontents, hmissing, hnodup⟩

theorem Moves.after_fill {d d₁ d' : Decoder α Nat} {windowStart needed slid : Nat}
    {filled : List (Nat × α)} (h : d₁.Moves d' windowStart needed slid [])
    (hcontents : ∀ e data, d₁.window.getWindowElement e = some data ↔
      d.window.getWindowElement e = some data ∨ (e, data) ∈ filled)
    (hmissing : ∀ p ∈ filled, d.window.getWindowElement p.1 = none)
    (hnodup : (filled.map Prod.fst).Nodup) : d.Moves d' windowStart needed slid filled := by
  refine ⟨h.columnStart_eq, h.slid_lt, h.kept, fun e data => ?_, hmissing, hnodup⟩
  rw [h.contents, hcontents]
  simp

theorem Moves.of_same {d d₁ d' : Decoder α Nat} {windowStart needed slid : Nat}
    {filled : List (Nat × α)} (h : d₁.Moves d' windowStart needed slid filled)
    (hcontents : ∀ e, d₁.window.getWindowElement e = d.window.getWindowElement e) :
    d.Moves d' windowStart needed slid filled := by
  refine ⟨h.columnStart_eq, h.slid_lt, h.kept, fun e data => ?_, fun p hp => ?_, h.nodup⟩
  · rw [h.contents, hcontents]
  · rw [← hcontents]
    exact h.missing p hp

theorem foldlM_keepPacket_le_head {w : DecoderPacketWindow α} {head : RecoveryPacket Nat}
    {rest : List (RecoveryPacket Nat)} {r r' : Removal}
    (h : (head :: rest).foldlM (keepPacket w) r = some r') : r'.firstKeptElement ≤ head.elementStart :=
  (foldlM_keepPacket_le h).2 head List.mem_cons_self

theorem Kept.planRemoval {d : Decoder α Nat} {windowStart added needed : Nat}
    (h : d.Placed windowStart added) (hkept : d.Kept windowStart needed)
    (hlast : d.recoveryPackets = [] → windowStart ≤ d.lastEnd + kColumnPeriod / 2) {r : Removal}
    (hplan : d.planRemoval = some r) : windowStart + r.firstKeptElement ≤ needed := by
  have hstart := hkept.start_le
  unfold Decoder.planRemoval at hplan
  cases hpackets : d.recoveryPackets with
  | cons head rest =>
    simp only [hpackets] at hplan
    have hle := foldlM_keepPacket_le_head hplan
    have hstored := hkept.stored head (by simp [hpackets])
    omega
  | nil =>
    have hlate := hlast hpackets
    simp only [hpackets] at hplan
    split at hplan
    · exact absurd hplan (by simp)
    · next hin =>
      cases hplan
      simp only [not_or, Bool.not_eq_true] at hin
      cases hmeta : d.lastRecovery with
      | none =>
        simp only [lastEnd, hmeta] at hlate
        simp only [lastRecoveryMetadata, hmeta] at hin ⊢
        by_cases hzero : windowStart = 0
        · have helement := h.columnToElement_of_ge (n := 0) (by omega) (by rw [hzero]; decide)
          rw [show columnOf 0 = 0 + 0 from rfl] at helement
          rw [helement]
          omega
        · have hneg := h.columnToElement_of_lt (n := 0) (by omega) hlate
          rw [show columnOf 0 = 0 + 0 from rfl, hin.1] at hneg
          exact absurd hneg (by decide)
      | some last =>
        obtain ⟨m, packetEnd⟩ := last
        obtain ⟨hends, hle, -⟩ := h.last m packetEnd hmeta
        have hneeded := hkept.last m packetEnd hmeta
        have hcount := h.sound.count_le
        simp only [lastEnd, hmeta] at hlate
        simp only [lastRecoveryMetadata, hmeta, Placed.columnToElement_end hends] at hin ⊢
        have hge : windowStart ≤ packetEnd := by
          by_contra hlt
          rw [h.columnToElement_of_lt (by omega) hlate] at hin
          exact absurd hin.1 (by decide)
        have helement := h.columnToElement_of_ge hge (by simp only [kColumnPeriod] at hcount ⊢; omega)
        rw [helement] at hin ⊢
        omega

theorem removeElements_cases {β : Type} (d : Decoder α β) :
    (d.removeElements.window = d.window ∧ d.removeElements.recoveryPackets = d.recoveryPackets ∧
      d.removeElements.lastRecovery = d.lastRecovery) ∨
    ∃ r d₁, d.planRemoval = some r ∧ kDecoderRemoveThreshold ≤ r.firstKeptElement ∧
      d.targetSums r = some d₁ ∧
      d.removeElements = d₁.shift (r.firstKeptElement / kSubwindowSize) := by
  unfold removeElements
  split
  · exact .inl ⟨rfl, rfl, rfl⟩
  · split
    · exact .inl ⟨rfl, rfl, rfl⟩
    · next r hplan =>
      split
      · exact .inl ⟨rfl, rfl, rfl⟩
      · next hfar =>
        split
        · exact .inl ⟨rfl, rfl, rfl⟩
        · next d₁ hsums => exact .inr ⟨r, d₁, hplan, by omega, hsums, rfl⟩

theorem targetSums_recovered {d d' : Decoder α Nat} {r : Removal} (h : d.targetSums r = some d') :
    d'.recoveredPackets = d.recoveredPackets ∧ d'.hasRecoveredPackets = d.hasRecoveredPackets := by
  unfold targetSums at h
  split at h
  · split at h
    · split at h
      · exact absurd h (by simp)
      · cases h
        exact ⟨rfl, rfl⟩
    · cases h
      exact ⟨rfl, rfl⟩
  · cases h
    exact ⟨rfl, rfl⟩

theorem removeElements_recovered (d : Decoder α Nat) :
    d.removeElements.recoveredPackets = d.recoveredPackets ∧
      d.removeElements.hasRecoveredPackets = d.hasRecoveredPackets := by
  unfold removeElements
  split
  · exact ⟨rfl, rfl⟩
  · split
    · exact ⟨rfl, rfl⟩
    · split
      · exact ⟨rfl, rfl⟩
      · split
        · exact ⟨rfl, rfl⟩
        · next d₁ hsums => exact ⟨(targetSums_recovered hsums).1, (targetSums_recovered hsums).2⟩

theorem Kept.removeElements {d : Decoder α Nat} {windowStart added needed : Nat}
    (h : d.Placed windowStart added) (hkept : d.Kept windowStart needed)
    (hlast : d.recoveryPackets = [] → windowStart ≤ d.lastEnd + kColumnPeriod / 2) :
    ∃ slid, d.Moves d.removeElements windowStart needed slid [] := by
  rcases d.removeElements_cases with ⟨hwindow, hpackets, hlastEq⟩ | ⟨r, d₁, hplan, hfar, hsums, heq⟩
  · refine ⟨0, Moves.stays (hwindow ▸ h.columnStart_eq) ⟨hkept.start_le, ?_, ?_⟩ ?_ (by simp)
      (by simp)⟩
    · rw [hpackets]
      exact hkept.stored
    · rw [hlastEq]
      exact hkept.last
    · simp [hwindow]
  · obtain ⟨hwindow, hpackets, hlastEq⟩ := targetSums_eq hsums
    obtain ⟨-, hlt, hstarts⟩ := h.planRemoval hlast hplan
    have hneeded := hkept.planRemoval h hlast hplan
    have hcount := h.sound.count_le
    have hpos : 0 < r.firstKeptElement := by
      simp only [kDecoderRemoveThreshold, kSubwindowSize, kColumnLaneCount] at hfar
      omega
    have hwithin := hlt hpos
    have hremoved := Nat.div_mul_le_self r.firstKeptElement kSubwindowSize
    rw [heq]
    generalize r.firstKeptElement / kSubwindowSize = k at hremoved ⊢
    refine ⟨k * kSubwindowSize, ?_, ?_, ⟨by omega, fun x hx => ?_, ?_⟩, ?_, by simp, by simp⟩
    · simp only [Decoder.shift, DecoderPacketWindow.shift, DecoderPacketWindow.elementToColumn,
        hwindow, h.columnStart_eq, addColumns_columnOf_right]
    · simp only [kColumnPeriod] at hcount ⊢
      omega
    · simp only [Decoder.shift, decrementElementCounters, hpackets, List.mem_map] at hx
      obtain ⟨y, hy, rfl⟩ := hx
      have hstart := hstarts y hy
      have hend := (h.stored y hy).end_le
      have hplace := (h.stored y hy).start_eq
      have hkeep := hkept.stored y hy
      simp only [kColumnPeriod] at hcount
      have hmoved : unsignedSub y.elementStart (k * kSubwindowSize) =
          y.elementStart - k * kSubwindowSize := unsignedSub_eq (by omega) (by omega)
      simp only [hmoved]
      omega
    · simp only [Decoder.shift, hlastEq]
      exact hkept.last
    · intro e data
      simp only [Decoder.shift, hwindow, DecoderPacketWindow.shift_getWindowElement, Nat.add_comm e]
      simp

def Reports (d d' : Decoder α Nat) (windowStart : Nat) (filled : List (Nat × α)) : Prop :=
  filled = [] ∧ d'.recoveredPackets = d.recoveredPackets ∧
      d'.hasRecoveredPackets = d.hasRecoveredPackets ∨
    filled ≠ [] ∧ d'.hasRecoveredPackets = true ∧ d'.recoveredPackets =
      (if d.hasRecoveredPackets then d.recoveredPackets else []) ++
        filled.map fun p => (columnOf (windowStart + p.1), p.2)

theorem Kept.of_subset {d d' : Decoder α Nat} {windowStart needed : Nat}
    (h : d.Kept windowStart needed) (hstored : ∀ r ∈ d'.recoveryPackets, r ∈ d.recoveryPackets)
    (hlast : d'.lastRecovery = d.lastRecovery) : d'.Kept windowStart needed := by
  refine ⟨h.start_le, fun r hr => h.stored r (hstored r hr), fun m packetEnd hm => ?_⟩
  exact h.last m packetEnd (hlast ▸ hm)

theorem Placed.columnOf_columnToElement {d : Decoder α Nat} {windowStart added : Nat}
    (h : d.Placed windowStart added) (n : Nat) :
    columnOf (windowStart + d.window.columnToElement (columnOf n)) = columnOf n := by
  have hsub := subtractColumns_cast (columnOf n) (columnOf windowStart)
  rw [DecoderPacketWindow.columnToElement, h.columnStart_eq]
  simp only [columnOf, kColumnPeriod] at hsub ⊢
  omega

theorem fill_contents {w : DecoderPacketWindow α} {e : Nat} (hmissing : w.getWindowElement e = none)
    (data : α) (e' : Nat) (data' : α) : (w.fill e data).getWindowElement e' = some data' ↔
      w.getWindowElement e' = some data' ∨ (e', data') ∈ [(e, data)] := by
  rw [DecoderPacketWindow.fill_getWindowElement]
  split
  · next heq =>
    subst heq
    simp [hmissing, eq_comm]
  · next hne => simp [hne]

theorem Placed.addOriginal_moves {d : Decoder α Nat} {windowStart added needed : Nat}
    (h : d.Placed windowStart added) (hkept : d.Kept windowStart needed)
    (henabled : d.emergencyDisabled = false) (column : Nat) (data : α) :
    ∃ filled, d.Moves (d.addOriginal column data).1 windowStart needed 0 filled ∧
      (d.addOriginal column data).1.recoveredPackets = d.recoveredPackets ∧
      (d.addOriginal column data).1.hasRecoveredPackets = d.hasRecoveredPackets ∧
      (filled = [] ∧ (d.addOriginal column data).2 = .duplicateData ∧
          (isColumnDeltaNegative (d.window.columnToElement column) = true ∨
            (d.window.getWindowElement (d.window.columnToElement column)).isSome) ∨
        filled = [(d.window.columnToElement column, data)] ∧
          (d.addOriginal column data).2 = .success ∧
          isColumnDeltaNegative (d.window.columnToElement column) = false) := by
  unfold Decoder.addOriginal DecoderPacketWindow.addOriginal
  rw [if_neg (by simp [henabled])]
  simp only
  split
  · next hneg =>
    rw [if_neg (by simp)]
    exact ⟨[], Moves.stays h.columnStart_eq (hkept.of_subset (fun r hr => hr) rfl) (by simp)
      (by simp) (by simp), rfl, rfl, .inl ⟨rfl, rfl, .inl hneg⟩⟩
  · next hpos =>
    rw [DecoderPacketWindow.growWindow_getWindowElement]
    split
    · next hhave =>
      rw [if_neg (by simp)]
      refine ⟨[], Moves.stays ?_ (hkept.of_subset (fun r hr => hr) rfl) ?_ (by simp) (by simp), rfl,
        rfl, .inl ⟨rfl, rfl, .inr hhave⟩⟩
      · rw [DecoderPacketWindow.growWindow_columnStart, h.columnStart_eq]
      · intro e data'
        simp
    · next hmissing =>
      have hnone : d.window.getWindowElement (d.window.columnToElement column) = none := by
        simpa using hmissing
      have hcontents : ∀ e' data', ((d.window.growWindow (d.window.columnToElement column + 1)).fill
          (d.window.columnToElement column) data).getWindowElement e' = some data' ↔
          d.window.getWindowElement e' = some data' ∨
            (e', data') ∈ [(d.window.columnToElement column, data)] := by
        intro e' data'
        rw [DecoderPacketWindow.fill_getWindowElement,
          DecoderPacketWindow.growWindow_getWindowElement,
          ← DecoderPacketWindow.fill_getWindowElement]
        exact fill_contents hnone data e' data'
      have hcolumn : ((d.window.growWindow (d.window.columnToElement column + 1)).fill
          (d.window.columnToElement column) data).columnStart = columnOf windowStart := by
        rw [DecoderPacketWindow.fill_columnStart, DecoderPacketWindow.growWindow_columnStart,
          h.columnStart_eq]
      have hadded : isColumnDeltaNegative (d.window.columnToElement column) = false := by
        simpa using hpos
      refine ⟨[(d.window.columnToElement column, data)], ?_⟩
      split
      · exact ⟨Moves.stays hcolumn (hkept.of_subset (fun r hr => mem_deletePacketsBefore hr) rfl)
          hcontents (by simpa using hnone) (by simp), rfl, rfl, .inr ⟨rfl, rfl, hadded⟩⟩
      · exact ⟨Moves.stays hcolumn (hkept.of_subset (fun r hr => hr) rfl) hcontents
          (by simpa using hnone) (by simp), rfl, rfl, .inr ⟨rfl, rfl, hadded⟩⟩

theorem Placed.filled_moves {d d₁ : Decoder α Nat} {windowStart added needed e : Nat}
    (h : d.Placed windowStart added) (hkept : d.Kept windowStart needed)
    (hnone : d.window.getWindowElement e = none) {data : α}
    (hwindow : d₁.window = d.window.fill e data)
    (hpackets : ∀ r ∈ d₁.recoveryPackets, r ∈ d.recoveryPackets)
    (hlastEq : d₁.lastRecovery = d.lastRecovery) :
    d.Moves d₁ windowStart needed 0 [(e, data)] := by
  refine Moves.stays ?_ (hkept.of_subset hpackets hlastEq) ?_ (by simpa using hnone) (by simp)
  · rw [hwindow, DecoderPacketWindow.fill_columnStart, h.columnStart_eq]
  · rw [hwindow]
    exact fill_contents hnone data

theorem Placed.filled_removed_moves {d d₁ : Decoder α Nat} {windowStart added needed e : Nat}
    (h : d.Placed windowStart added) (hkept : d.Kept windowStart needed)
    (hlast : windowStart ≤ d.lastEnd + kColumnPeriod / 2) (hlt : e < d.window.count)
    (hnone : d.window.getWindowElement e = none) {data : α}
    (hwindow : d₁.window = d.window.fill e data)
    (hpackets : ∀ r ∈ d₁.recoveryPackets, r ∈ d.recoveryPackets)
    (hlastEq : d₁.lastRecovery = d.lastRecovery) :
    ∃ slid, d.Moves d₁.removeElements windowStart needed slid [(e, data)] := by
  have hnew : d.window.isGot e = false := by
    rw [h.sound.got_eq, hnone]
    rfl
  have hcount := d.window.fill_count e data
  have hle := h.count_le
  have hplaced : d₁.Placed windowStart added := by
    refine h.grow ?_ ?_ ?_ ?_ ?_ hpackets hlastEq
    · rw [hwindow]
      exact h.sound.fill hlt hnew data
    · rw [hwindow]
      exact d.window.fill_columnStart e data
    · rw [hwindow, hcount]
    · rw [hwindow, hcount]
      exact hle
    · intro e' he'
      rw [hwindow, DecoderPacketWindow.fill_isGot]
      split
      · rfl
      · exact he'
  obtain ⟨slid, hmoves⟩ := Kept.removeElements hplaced (hkept.of_subset hpackets hlastEq) fun _ => by
    simp only [lastEnd, hlastEq] at hlast ⊢
    exact hlast
  refine ⟨slid, hmoves.after_fill ?_ (by simpa using hnone) (by simp)⟩
  rw [hwindow]
  exact fill_contents hnone data

theorem Placed.addSingleRecovery_moves {d : Decoder α Nat} {windowStart added needed : Nat}
    (h : d.Placed windowStart added) (hkept : d.Kept windowStart needed)
    (hlast : windowStart ≤ d.lastEnd + kColumnPeriod / 2) (n : Nat) (single : Option α)
    (checkedPastThreshold : Bool) :
    ∃ slid filled, d.Moves (d.addSingleRecovery (columnOf n) single checkedPastThreshold)
        windowStart needed slid filled ∧
      d.Reports (d.addSingleRecovery (columnOf n) single checkedPastThreshold) windowStart filled ∧
      ∀ p ∈ filled, columnOf (windowStart + p.1) = columnOf n ∧ single = some p.2 ∧
        p.1 < d.window.count := by
  have hstays : ∀ d' : Decoder α Nat, d'.window = d.window → d'.recoveryPackets = d.recoveryPackets →
      d'.lastRecovery = d.lastRecovery → d'.recoveredPackets = d.recoveredPackets →
      d'.hasRecoveredPackets = d.hasRecoveredPackets →
      ∃ slid filled, d.Moves d' windowStart needed slid filled ∧ d.Reports d' windowStart filled ∧
        ∀ p ∈ filled, columnOf (windowStart + p.1) = columnOf n ∧ single = some p.2 ∧
          p.1 < d.window.count := by
    intro d' hwindow hpackets hlastEq hrecovered hhas
    refine ⟨0, [], Moves.stays (hwindow ▸ h.columnStart_eq)
      (hkept.of_subset (fun r hr => hpackets ▸ hr) hlastEq) ?_ (by simp) (by simp),
      .inl ⟨rfl, hrecovered, hhas⟩, by simp⟩
    simp [hwindow]
  unfold Decoder.addSingleRecovery
  simp only
  split
  · exact hstays _ rfl rfl rfl rfl rfl
  · next hvalid =>
    have hlt : d.window.columnToElement (columnOf n) < d.window.count := by
      simpa [DecoderPacketWindow.invalidElement] using hvalid
    split
    · exact hstays _ rfl rfl rfl rfl rfl
    · next hmissing =>
      have hnone : d.window.getWindowElement (d.window.columnToElement (columnOf n)) = none := by
        simpa using hmissing
      split
      · exact hstays _ rfl rfl rfl rfl rfl
      · next data =>
        have hplace : ∀ p ∈ [(d.window.columnToElement (columnOf n), data)],
            columnOf (windowStart + p.1) = columnOf n ∧ some data = some p.2 ∧
              p.1 < d.window.count := by
          intro p hp
          rw [List.mem_singleton.mp hp]
          exact ⟨h.columnOf_columnToElement n, rfl, hlt⟩
        have hreports : ∀ d' : Decoder α Nat, d'.hasRecoveredPackets = true →
            d'.recoveredPackets = (if d.hasRecoveredPackets then d.recoveredPackets else []) ++
              [(columnOf n, data)] →
            d.Reports d' windowStart [(d.window.columnToElement (columnOf n), data)] := by
          intro d' hhas hrecovered
          refine .inr ⟨by simp, hhas, ?_⟩
          rw [hrecovered]
          simp [h.columnOf_columnToElement n]
        have hslides : ∀ d₁ : Decoder α Nat,
            d₁.window = d.window.fill (d.window.columnToElement (columnOf n)) data →
            (∀ r ∈ d₁.recoveryPackets, r ∈ d.recoveryPackets) → d₁.lastRecovery = d.lastRecovery →
            d₁.hasRecoveredPackets = true →
            d₁.recoveredPackets = (if d.hasRecoveredPackets then d.recoveredPackets else []) ++
              [(columnOf n, data)] →
            ∃ slid filled, d.Moves d₁.removeElements windowStart needed slid filled ∧
              d.Reports d₁.removeElements windowStart filled ∧ ∀ p ∈ filled,
                columnOf (windowStart + p.1) = columnOf n ∧ some data = some p.2 ∧
                  p.1 < d.window.count := by
          intro d₁ hwindow hpackets hlastEq hhas hrecovered
          obtain ⟨slid, hmoves⟩ := h.filled_removed_moves hkept hlast hlt hnone hwindow hpackets
            hlastEq
          obtain ⟨hrecovered', hhas'⟩ := d₁.removeElements_recovered
          exact ⟨slid, _, hmoves, hreports _ (hhas'.trans hhas) (hrecovered'.trans hrecovered),
            hplace⟩
        split
        · split
          · exact hslides _ rfl (fun r hr => mem_deletePacketsBefore hr) rfl rfl rfl
          · exact ⟨0, _, h.filled_moves hkept hnone rfl (fun r hr => mem_deletePacketsBefore hr) rfl,
              hreports _ rfl rfl, hplace⟩
        · exact ⟨0, _, h.filled_moves hkept hnone rfl (fun r hr => hr) rfl, hreports _ rfl rfl,
            hplace⟩

theorem Kept.linkRecovery {d : Decoder α Nat} {windowStart needed : Nat}
    (hkept : d.Kept windowStart needed) {r : RecoveryPacket Nat}
    (hstart : windowStart + r.elementStart ≤ needed)
    (hneeded : r.buffer ≤ needed + r.metadata.ldpcCount) (outOfOrder : Bool) :
    (d.linkRecovery r outOfOrder).Kept windowStart needed := by
  refine ⟨hkept.start_le, fun r' hmem => ?_, fun m packetEnd hm => ?_⟩
  · rcases mem_insertRecovery.mp hmem with rfl | hmem
    · exact hstart
    · exact hkept.stored r' hmem
  · simp only [Decoder.linkRecovery] at hm
    split at hm
    · exact hkept.last m packetEnd hm
    · cases hm
      exact hneeded

theorem Placed.storeRecovery_moves {d : Decoder α Nat} {windowStart added needed : Nat}
    (h : d.Placed windowStart added) (hkept : d.Kept windowStart needed)
    (hlast : windowStart ≤ d.lastEnd + kColumnPeriod / 2) {m : RecoveryMetadata}
    {packetEnd elementStart elementEnd : Nat} (single : Option α)
    (outOfOrder checkedPastThreshold : Bool)
    (hr : (⟨m, elementStart, elementEnd, packetEnd⟩ : RecoveryPacket Nat).PlacedIn d.window
      windowStart) (hneeded : packetEnd ≤ needed + m.ldpcCount) :
    ∃ slid filled, d.Moves (d.storeRecovery m packetEnd single outOfOrder checkedPastThreshold
        elementStart elementEnd) windowStart needed slid filled ∧
      d.Reports (d.storeRecovery m packetEnd single outOfOrder checkedPastThreshold elementStart
        elementEnd) windowStart filled ∧
      ∀ p ∈ filled, m.sumCount = 1 ∧ columnOf (windowStart + p.1) = columnOf (packetEnd - 1) ∧
        single = some p.2 ∧ p.1 < d.window.count := by
  have hplace := hr.end_eq
  have hstart := hr.start_eq
  have hsle := hr.start_le
  have hcolumn := hr.ends.columnStart_eq
  simp only at hplace hstart hsle hcolumn
  unfold Decoder.storeRecovery
  split
  · next hone =>
    rw [hcolumn, hone]
    obtain ⟨slid, filled, hmoves, hreports, hfilled⟩ := h.addSingleRecovery_moves hkept hlast
      (packetEnd - 1) single checkedPastThreshold
    exact ⟨slid, filled, hmoves, hreports, fun p hp => ⟨rfl, hfilled p hp⟩⟩
  · have h' := h.linkRecovery hr outOfOrder
    have hkept' := hkept.linkRecovery (r := ⟨m, elementStart, elementEnd, packetEnd⟩)
      (by simp only; omega) hneeded outOfOrder
    simp only
    split
    · obtain ⟨slid, hmoves⟩ := hkept'.removeElements h' fun hnil =>
        absurd hnil (d.linkRecovery_ne_nil _ outOfOrder)
      obtain ⟨hrecovered, hhas⟩ := removeElements_recovered
        (d.linkRecovery ⟨m, elementStart, elementEnd, packetEnd⟩ outOfOrder)
      exact ⟨slid, [], hmoves.after_fill (by simp [Decoder.linkRecovery]) (by simp) (by simp),
        .inl ⟨rfl, hrecovered, hhas⟩, by simp⟩
    · exact ⟨0, [], Moves.stays h.columnStart_eq hkept' (by simp [Decoder.linkRecovery]) (by simp)
        (by simp), .inl ⟨rfl, rfl, rfl⟩, by simp⟩

theorem Placed.addRecovery_moves {d : Decoder α Nat} {windowStart added needed : Nat}
    (h : d.Placed windowStart added) (hkept : d.Kept windowStart needed) {m : RecoveryMetadata}
    {packetEnd : Nat} (hm : m.EndsAt packetEnd) (hadded : packetEnd ≤ added)
    (hreach : packetEnd ≤ windowStart + d.window.nextExpectedElement + m.ldpcCount)
    (hneeded : packetEnd ≤ needed + m.ldpcCount)
    (hnear : added ≤ windowStart + d.window.nextExpectedElement + siameseMaxPackets)
    (htimely : windowStart ≤ packetEnd + kColumnPeriod / 2)
    (hlast : windowStart ≤ d.lastEnd + kColumnPeriod / 2) (single : Option α)
    (checkedPastThreshold : Bool) :
    ∃ slid filled, d.Moves (d.addRecovery m packetEnd single checkedPastThreshold) windowStart needed
        slid filled ∧
      d.Reports (d.addRecovery m packetEnd single checkedPastThreshold) windowStart filled ∧
      ∀ p ∈ filled, m.sumCount = 1 ∧ windowStart + p.1 + 1 = packetEnd ∧ single = some p.2 := by
  have hstays : ∀ d' : Decoder α Nat, d'.window = d.window → d'.recoveryPackets = d.recoveryPackets →
      d'.lastRecovery = d.lastRecovery → d'.recoveredPackets = d.recoveredPackets →
      d'.hasRecoveredPackets = d.hasRecoveredPackets →
      ∃ slid filled, d.Moves d' windowStart needed slid filled ∧ d.Reports d' windowStart filled ∧
        ∀ p ∈ filled, m.sumCount = 1 ∧ windowStart + p.1 + 1 = packetEnd ∧ single = some p.2 := by
    intro d' hwindow hpackets hlastEq hrecovered hhas
    refine ⟨0, [], Moves.stays (hwindow ▸ h.columnStart_eq)
      (hkept.of_subset (fun r hr => hpackets ▸ hr) hlastEq) ?_ (by simp) (by simp),
      .inl ⟨rfl, hrecovered, hhas⟩, by simp⟩
    simp [hwindow]
  -- A decoder whose window has grown, with the packet to be stored in it.
  have hstores : ∀ (d₁ : Decoder α Nat) (outOfOrder : Bool) (elementStart elementEnd : Nat),
      d₁.Placed windowStart added → d₁.recoveryPackets = d.recoveryPackets →
      d₁.lastRecovery = d.lastRecovery → d₁.recoveredPackets = d.recoveredPackets →
      d₁.hasRecoveredPackets = d.hasRecoveredPackets →
      (∀ e, d₁.window.getWindowElement e = d.window.getWindowElement e) →
      (⟨m, elementStart, elementEnd, packetEnd⟩ : RecoveryPacket Nat).PlacedIn d₁.window windowStart →
      ∃ slid filled, d.Moves (d₁.storeRecovery m packetEnd single outOfOrder checkedPastThreshold
          elementStart elementEnd) windowStart needed slid filled ∧
        d.Reports (d₁.storeRecovery m packetEnd single outOfOrder checkedPastThreshold elementStart
          elementEnd) windowStart filled ∧
        ∀ p ∈ filled, m.sumCount = 1 ∧ windowStart + p.1 + 1 = packetEnd ∧ single = some p.2 := by
    intro d₁ outOfOrder elementStart elementEnd h₁ hpackets hlastEq hrecovered hhas hcontents hr
    have hkept₁ : d₁.Kept windowStart needed :=
      hkept.of_subset (fun r hmem => hpackets ▸ hmem) hlastEq
    have hlast₁ : windowStart ≤ d₁.lastEnd + kColumnPeriod / 2 := by
      simp only [lastEnd, hlastEq] at hlast ⊢
      exact hlast
    obtain ⟨slid, filled, hmoves, hreports, hfilled⟩ := h₁.storeRecovery_moves hkept₁ hlast₁ single
      outOfOrder checkedPastThreshold hr hneeded
    refine ⟨slid, filled, hmoves.of_same hcontents, ?_, fun p hp => ?_⟩
    · unfold Reports at hreports ⊢
      rw [hrecovered, hhas] at hreports
      exact hreports
    · obtain ⟨hone, hcolumn, hsingle, hlt⟩ := hfilled p hp
      have hcount := h₁.count_le
      have hplace := hr.end_eq
      have hstart := hr.start_eq
      have hpos := hm.ldpc_pos
      have hhalf := h.sound.count_le
      have hnext := h.sound.next_le
      simp only [siameseMaxPackets, kColumnPeriod] at hplace hstart hnear hhalf
      refine ⟨hone, ?_, hsingle⟩
      -- Both packets are in the window, so their columns tell them apart.
      rcases Nat.le_total (windowStart + p.1) (packetEnd - 1) with hle | hle
      · have := columnOf_inj hcolumn hle (by simp only [kColumnPeriod]; omega)
        omega
      · have := columnOf_inj hcolumn.symm hle (by simp only [kColumnPeriod]; omega)
        omega
  unfold Decoder.addRecovery
  split
  · exact hstays _ rfl rfl rfl rfl rfl
  have hcases := d.placeRecovery_cases m packetEnd id Decoder.removeElements
    fun d outOfOrder elementStart elementEnd =>
      d.storeRecovery m packetEnd single outOfOrder checkedPastThreshold elementStart elementEnd
  obtain ⟨column, heq | ⟨hempty, heq⟩ | ⟨-, elementEnd, helement, hneg, hclipped, hplaced⟩⟩ := hcases
  · rw [heq]
    exact hstays _ rfl rfl rfl rfl rfl
  · rw [heq]
    obtain ⟨hgrown, hplaced⟩ := (h.latestColumn column).addFirstRecovery hempty hm hadded hreach hnear
    refine hstores _ _ _ _ hgrown rfl rfl rfl rfl (fun e => ?_) hplaced
    simp only [DecoderPacketWindow.growWindow_getWindowElement]
    rfl
  · have hpos := hm.ldpc_pos
    obtain ⟨hge, rfl⟩ := h.end_eq hm hadded htimely hnear helement hneg
    rcases hplaced with ⟨hhave, -, heq⟩ | ⟨-, -, outOfOrder, heq⟩
    · rw [heq]
      have hnext := h.sound.next_le
      have h₂ : ({ d with
          latestColumn := column
          lastRecovery := some (m, packetEnd) } : Decoder α Nat).Placed windowStart added := by
        refine ⟨h.sound, h.columnStart_eq, h.count_le, h.empty, h.stored,
          fun m' packetEnd' hm' => ?_⟩
        cases hm'
        exact ⟨hm, by simp only; omega, by simp only; omega⟩
      have hkept₂ : ({ d with
          latestColumn := column
          lastRecovery := some (m, packetEnd) } : Decoder α Nat).Kept windowStart needed := by
        refine ⟨hkept.start_le, hkept.stored, fun m' packetEnd' hm' => ?_⟩
        cases hm'
        exact hneeded
      obtain ⟨slid, hmoves⟩ := hkept₂.removeElements h₂ fun _ => by
        simp only [lastEnd]
        omega
      obtain ⟨hrecovered, hhas⟩ := removeElements_recovered ({ d with
          latestColumn := column
          lastRecovery := some (m, packetEnd) } : Decoder α Nat)
      exact ⟨slid, [], hmoves.of_same fun _ => rfl, .inl ⟨rfl, hrecovered, hhas⟩, by simp⟩
    · rw [heq]
      obtain ⟨hgrown, hplaced⟩ := (h.latestColumn column).addNextRecovery hm hadded hge hneg hclipped
        hreach
      refine hstores _ _ _ _ hgrown rfl rfl rfl rfl (fun e => ?_) hplaced
      simp only [DecoderPacketWindow.growWindow_getWindowElement]

theorem foldl_store_getWindowElement (w : DecoderPacketWindow α) (data : Nat → α) (es : List Nat)
    (e : Nat) : (es.foldl (fun w e => w.store e (data e)) w).getWindowElement e =
      if e ∈ es then some (data e) else w.getWindowElement e := by
  induction es generalizing w with
  | nil => simp
  | cons x es ih =>
    rw [List.foldl_cons, ih, DecoderPacketWindow.store_getWindowElement]
    by_cases hx : e = x
    · simp [hx]
    · simp [hx]

theorem Placed.solve_moves {d : Decoder α Nat} {windowStart added needed : Nat}
    (h : d.Placed windowStart added) (hkept : d.Kept windowStart needed)
    (hlast : windowStart ≤ d.lastEnd + kColumnPeriod / 2) {head : RecoveryPacket Nat}
    (hhead : head ∈ d.recoveryPackets) {nextCheckStart : Nat} (hstop : nextCheckStart ≤ d.window.count)
    (hnext : d.window.nextExpectedElement ∈ d.lostElements head.elementStart nextCheckStart)
    (data : Nat → α) (sumColumnStart sumColumnCount : Nat) :
    ∃ slid filled, d.Moves
        (d.solve head.elementStart nextCheckStart data sumColumnStart sumColumnCount) windowStart
        needed slid filled ∧
      (d.solve head.elementStart nextCheckStart data sumColumnStart
        sumColumnCount).recoveredPackets =
        filled.map (fun p => (columnOf (windowStart + p.1), p.2)) ∧
      (d.solve head.elementStart nextCheckStart data sumColumnStart
        sumColumnCount).hasRecoveredPackets = d.hasRecoveredPackets ∧
      ∀ p ∈ filled, windowStart + p.1 < added := by
  have hnext' := mem_lostElements.mp hnext
  have hnodup : (d.lostElements head.elementStart nextCheckStart).Nodup :=
    List.Nodup.filter _ (List.nodup_range' ..)
  have hstart := (h.stored head hhead).start_le
  have hall : ∀ e, e < nextCheckStart → d.window.isGot e = true ∨
      e ∈ d.lostElements head.elementStart nextCheckStart := by
    intro e he
    by_cases hge : head.elementStart ≤ e
    · cases hg : d.window.isGot e with
      | true => exact .inl rfl
      | false => exact .inr (mem_lostElements.mpr ⟨hge, he, hg⟩)
    · exact .inl (h.sound.before_next e (by omega))
  obtain ⟨hsound, -⟩ := h.sound.recover data hnodup
    (fun e he => (mem_lostElements.mp he).2) hall hstop hnext'.2.1
  obtain ⟨hcolumn, hcount, -⟩ := d.window.foldl_store_columnStart data
    (d.lostElements head.elementStart nextCheckStart)
  have hgot := d.window.foldl_store_isGot data (d.lostElements head.elementStart nextCheckStart)
  have hstored := foldl_store_getWindowElement d.window data
    (d.lostElements head.elementStart nextCheckStart)
  have hlost : ∀ e ∈ d.lostElements head.elementStart nextCheckStart,
      d.window.getWindowElement e = none ∧ windowStart + e < added := by
    intro e he
    obtain ⟨-, hlt, hmissing⟩ := mem_lostElements.mp he
    have hle := h.count_le
    refine ⟨?_, by omega⟩
    rw [h.sound.got_eq] at hmissing
    simpa using hmissing
  have hiter : ∀ w : DecoderPacketWindow α, ∀ n,
      (w.iterateNextExpectedElement n).columnStart = w.columnStart ∧
        (w.iterateNextExpectedElement n).count = w.count ∧
        (w.iterateNextExpectedElement n).subwindows = w.subwindows := by
    intro w n
    unfold DecoderPacketWindow.iterateNextExpectedElement
    split <;> exact ⟨rfl, rfl, rfl⟩
  have hcolumns : (d.lostElements head.elementStart nextCheckStart).map
      (fun e => (d.window.elementToColumn e, data e)) =
      ((d.lostElements head.elementStart nextCheckStart).map fun e => (e, data e)).map
        fun p => (columnOf (windowStart + p.1), p.2) := by
    simp [DecoderPacketWindow.elementToColumn, h.columnStart_eq]
  unfold Decoder.solve Decoder.fillLost
  simp only
  rw [hcolumns]
  generalize d.lostElements head.elementStart nextCheckStart = lost at *
  generalize lost.foldl (fun w e => w.store e (data e)) d.window = w at *
  obtain ⟨hcolumn', hcount', hsub⟩ := hiter w nextCheckStart
  have hle := h.count_le
  have hcontents : ∀ e data', (w.iterateNextExpectedElement nextCheckStart).getWindowElement e =
      some data' ↔ d.window.getWindowElement e = some data' ∨
        (e, data') ∈ lost.map fun e => (e, data e) := by
    intro e data'
    rw [DecoderPacketWindow.getWindowElement, hsub]
    change w.getWindowElement e = some data' ↔ _
    rw [hstored]
    split
    · next hmem => simp [(hlost e hmem).1, hmem]
    · next hmem => simp [hmem]
  have hmissing : ∀ p ∈ lost.map fun e => (e, data e), d.window.getWindowElement p.1 = none := by
    intro p hp
    obtain ⟨e, he, rfl⟩ := List.mem_map.mp hp
    exact (hlost e he).1
  have hnodup' : ((lost.map fun e => (e, data e)).map Prod.fst).Nodup := by
    rw [List.map_map]
    exact (List.map_id lost).symm ▸ hnodup
  have hwithin : ∀ p ∈ lost.map fun e => (e, data e), windowStart + p.1 < added := by
    intro p hp
    obtain ⟨e, he, rfl⟩ := List.mem_map.mp hp
    exact (hlost e he).2
  have hslides : ∀ d₁ : Decoder α Nat, d₁.window = w.iterateNextExpectedElement nextCheckStart →
      (∀ r ∈ d₁.recoveryPackets, r ∈ d.recoveryPackets) → d₁.lastRecovery = d.lastRecovery →
      ∃ slid, d.Moves d₁.removeElements windowStart needed slid (lost.map fun e => (e, data e)) := by
    intro d₁ hwindow hpackets hlastEq
    have hplaced : d₁.Placed windowStart added := by
      refine h.grow ?_ ?_ ?_ ?_ ?_ hpackets hlastEq
      · rw [hwindow]
        exact hsound
      · rw [hwindow]
        exact hcolumn'.trans hcolumn
      · rw [hwindow, hcount', hcount]
      · rw [hwindow, hcount', hcount]
        exact hle
      · intro e he
        have hw := hgot e
        rw [he, Bool.or_true] at hw
        rw [hwindow, DecoderPacketWindow.isGot, hsub]
        exact hw
    obtain ⟨slid, hmoves⟩ := Kept.removeElements hplaced (hkept.of_subset hpackets hlastEq)
      fun _ => by
        simp only [lastEnd, hlastEq] at hlast ⊢
        exact hlast
    refine ⟨slid, hmoves.after_fill ?_ hmissing hnodup'⟩
    rw [hwindow]
    exact hcontents
  split
  · obtain ⟨slid, hmoves⟩ := hslides { d with
      sumColumnStart := sumColumnStart
      sumColumnCount := sumColumnCount
      window := w.iterateNextExpectedElement nextCheckStart
      recoveredPackets := (lost.map fun e => (e, data e)).map
        fun p => (columnOf (windowStart + p.1), p.2)
      recoveryPackets := deletePacketsBefore
        (w.iterateNextExpectedElement nextCheckStart).nextExpectedElement d.recoveryPackets } rfl
      (fun r hr => mem_deletePacketsBefore hr) rfl
    exact ⟨slid, _, hmoves, (removeElements_recovered _).1, (removeElements_recovered _).2, hwithin⟩
  · exact ⟨0, _, Moves.stays ((hcolumn'.trans hcolumn).trans h.columnStart_eq)
      (hkept.of_subset (fun r hr => mem_deletePacketsBefore hr) rfl) hcontents hmissing hnodup', rfl,
      rfl, hwithin⟩

theorem Placed.decode_moves {d d' : Decoder α Nat} {windowStart added needed : Nat}
    (h : d.Placed windowStart added) (hkept : d.Kept windowStart needed)
    (hlast : windowStart ≤ d.lastEnd + kColumnPeriod / 2) {recovered : List (Nat × α)}
    (hdecode : d.Decode recovered d') :
    ∃ slid filled, d.Moves d' windowStart needed slid filled ∧
      (∀ p ∈ filled, windowStart + p.1 < added) ∧
      (filled = [] ∧ d.hasRecoveredPackets = true ∧ d'.hasRecoveredPackets = false ∧
          recovered = d.recoveredPackets ∨
        filled = [] ∧ recovered = [] ∧ d'.recoveredPackets = d.recoveredPackets ∧
          d'.hasRecoveredPackets = d.hasRecoveredPackets ∨
        d.hasRecoveredPackets = false ∧ d'.hasRecoveredPackets = false ∧
          recovered = filled.map fun p => (columnOf (windowStart + p.1), p.2)) := by
  have hsame : ∀ d' : Decoder α Nat, d'.window = d.window → d'.recoveryPackets = d.recoveryPackets →
      d'.lastRecovery = d.lastRecovery → d.Moves d' windowStart needed 0 [] := by
    intro d' hwindow hpackets hlastEq
    refine Moves.stays (hwindow ▸ h.columnStart_eq)
      (hkept.of_subset (fun r hr => hpackets ▸ hr) hlastEq) ?_ (by simp) (by simp)
    simp [hwindow]
  cases hdecode with
  | recovered _ hhas =>
    exact ⟨0, [], hsame _ rfl rfl rfl, by simp, .inl ⟨rfl, hhas, rfl, rfl⟩⟩
  | needMoreData => exact ⟨0, [], hsame _ rfl rfl rfl, by simp, .inr (.inl ⟨rfl, rfl, rfl, rfl⟩)⟩
  | disabled => exact ⟨0, [], hsame _ rfl rfl rfl, by simp, .inr (.inl ⟨rfl, rfl, rfl, rfl⟩)⟩
  | solved head nextCheckStart data sumColumnStart sumColumnCount _ hhas hhead hstop hnext =>
    obtain ⟨slid, filled, hmoves, hrecovered, hhas', hwithin⟩ := h.solve_moves hkept hlast
      (List.mem_of_mem_head? hhead) hstop hnext data sumColumnStart sumColumnCount
    exact ⟨slid, filled, hmoves, hwithin, .inr (.inr ⟨hhas, hhas'.trans hhas, hrecovered⟩)⟩

end Decoder
end Tonk.Siamese
