import Tonk.Siamese.EncoderPositions

/-!
The packet numbers behind the decoder's window. The buffer of a recovery packet stands for the
packet number it ends before.
-/

set_option autoImplicit false

namespace Tonk.Siamese
open Search

namespace DecoderPacketWindow

variable {α : Type}

theorem Sound.next_mono {w w' : DecoderPacketWindow α} (h : w.Sound) (h' : w'.Sound)
    (hgot : ∀ e, w.isGot e = true → w'.isGot e = true) (hcount : w.count ≤ w'.count) :
    w.nextExpectedElement ≤ w'.nextExpectedElement := by
  by_contra hlt
  have hle := h.next_le
  have hlost := h'.at_next (by omega)
  rw [hgot _ (h.before_next _ (by omega))] at hlost
  exact absurd hlost (by decide)

theorem Sound.missing_ge {w : DecoderPacketWindow α} (h : w.Sound) {e : Nat}
    (hmissing : w.isGot e = false) : w.nextExpectedElement ≤ e := by
  by_contra hlt
  rw [h.before_next e (by omega)] at hmissing
  exact absurd hmissing (by decide)

end DecoderPacketWindow

/-- A stored recovery packet lies in the window where its packet numbers say. -/
structure RecoveryPacket.PlacedIn {α : Type} (r : RecoveryPacket Nat) (w : DecoderPacketWindow α)
    (windowStart : Nat) : Prop where
  ends : r.metadata.EndsAt r.buffer
  end_eq : windowStart + r.elementEnd = r.buffer
  start_eq : r.elementStart + r.metadata.ldpcCount = r.elementEnd
  end_le : r.elementEnd ≤ w.count
  start_le : r.elementStart ≤ w.nextExpectedElement

namespace Decoder

variable {α : Type}

def lastEnd (d : Decoder α Nat) : Nat :=
  match d.lastRecovery with
  | none => 0
  | some (_, packetEnd) => packetEnd

/-- The window starts with the packet `windowStart`, and nothing in it or kept about recovery
packets reaches past `added` packets. -/
structure Placed (d : Decoder α Nat) (windowStart added : Nat) : Prop where
  sound : d.window.Sound
  columnStart_eq : d.window.columnStart = columnOf windowStart
  count_le : windowStart + d.window.count ≤ added
  empty : d.window.count = 0 → windowStart = 0
  stored : ∀ r ∈ d.recoveryPackets, r.PlacedIn d.window windowStart
  last : ∀ m packetEnd, d.lastRecovery = some (m, packetEnd) → m.EndsAt packetEnd ∧
    packetEnd ≤ windowStart + d.window.count ∧
    packetEnd ≤ windowStart + d.window.nextExpectedElement + m.ldpcCount

theorem placed_initial : (initial : Decoder α Nat).Placed 0 0 :=
  ⟨DecoderPacketWindow.sound_initial, rfl, Nat.le_refl 0, fun _ => rfl, by simp [initial],
    by simp [initial]⟩

theorem Placed.grow {d d' : Decoder α Nat} {windowStart added : Nat} (h : d.Placed windowStart added)
    (hsound : d'.window.Sound) (hcolumn : d'.window.columnStart = d.window.columnStart)
    (hcount : d.window.count ≤ d'.window.count) (hadded : windowStart + d'.window.count ≤ added)
    (hgot : ∀ e, d.window.isGot e = true → d'.window.isGot e = true)
    (hstored : ∀ r ∈ d'.recoveryPackets, r ∈ d.recoveryPackets)
    (hlast : d'.lastRecovery = d.lastRecovery) : d'.Placed windowStart added := by
  have hnext := h.sound.next_mono hsound hgot hcount
  refine ⟨hsound, hcolumn.trans h.columnStart_eq, hadded, fun hzero => h.empty (by omega),
    fun r hr => ?_, fun m packetEnd hm => ?_⟩
  · have hr' := h.stored r (hstored r hr)
    exact ⟨hr'.ends, hr'.end_eq, hr'.start_eq, hr'.end_le.trans hcount, hr'.start_le.trans hnext⟩
  · obtain ⟨hends, hle, hldpc⟩ := h.last m packetEnd (hlast ▸ hm)
    exact ⟨hends, by omega, by omega⟩

/-- A step of the decoder: the window may slide, and the next expected packet does not go back. -/
def Advances (d : Decoder α Nat) (windowStart added : Nat) (d' : Decoder α Nat) : Prop :=
  ∃ slid, slid < kColumnPeriod ∧ d'.Placed (windowStart + slid) added ∧
    d.window.nextExpectedElement ≤ slid + d'.window.nextExpectedElement

theorem Placed.stays {d d' : Decoder α Nat} {windowStart added : Nat}
    (h : d'.Placed windowStart added)
    (hnext : d.window.nextExpectedElement ≤ d'.window.nextExpectedElement) :
    d.Advances windowStart added d' :=
  ⟨0, by decide, h, by omega⟩

theorem Advances.of_next_le {d d₁ d' : Decoder α Nat} {windowStart added : Nat}
    (h : d₁.Advances windowStart added d')
    (hnext : d.window.nextExpectedElement ≤ d₁.window.nextExpectedElement) :
    d.Advances windowStart added d' := by
  obtain ⟨slid, hslid, hplaced, hle⟩ := h
  exact ⟨slid, hslid, hplaced, by omega⟩

theorem Placed.disable {d : Decoder α Nat} {windowStart added : Nat}
    (h : d.Placed windowStart added) : d.disable.Placed windowStart added :=
  ⟨h.sound, h.columnStart_eq, h.count_le, h.empty, h.stored, h.last⟩

theorem Placed.columnToElement_of_ge {d : Decoder α Nat} {windowStart added : Nat}
    (h : d.Placed windowStart added) {n : Nat} (hle : windowStart ≤ n)
    (hlt : n < windowStart + kColumnPeriod) :
    d.window.columnToElement (columnOf n) = n - windowStart := by
  rw [DecoderPacketWindow.columnToElement, h.columnStart_eq]
  exact subtractColumns_columnOf hle (by omega)

theorem Placed.columnToElement_of_lt {d : Decoder α Nat} {windowStart added : Nat}
    (h : d.Placed windowStart added) {n : Nat} (hlt : n < windowStart)
    (hle : windowStart ≤ n + kColumnPeriod / 2) :
    isColumnDeltaNegative (d.window.columnToElement (columnOf n)) = true := by
  have hhalf : kColumnPeriod / 2 ≤ kColumnPeriod := by decide
  rw [DecoderPacketWindow.columnToElement, h.columnStart_eq,
    subtractColumns_columnOf_neg hlt (by omega), isColumnDeltaNegative_iff]
  simp only [kColumnPeriod] at hle ⊢
  omega

theorem Placed.columnToElement_end {d : Decoder α Nat} {m : RecoveryMetadata} {packetEnd : Nat}
    (hm : m.EndsAt packetEnd) : d.window.columnToElement (m.columnStart + m.sumCount) =
      d.window.columnToElement (columnOf packetEnd) := hm.subtract _

theorem Placed.addOriginal {d : Decoder α Nat} {windowStart added : Nat}
    (h : d.Placed windowStart added) {n : Nat} (hn : n < added)
    (htimely : windowStart ≤ n + kColumnPeriod / 2)
    (hnear : added < windowStart + kColumnPeriod) (data : α) :
    d.Advances windowStart added (d.addOriginal (columnOf n) data).1 := by
  have hwindow : (d.window.addOriginal (columnOf n) data).1.Sound := h.sound.addOriginal _ data
  have hgrown : (d.window.addOriginal (columnOf n) data).1.columnStart = d.window.columnStart ∧
      d.window.count ≤ (d.window.addOriginal (columnOf n) data).1.count ∧
      windowStart + (d.window.addOriginal (columnOf n) data).1.count ≤ added ∧
      ∀ e, d.window.isGot e = true →
        (d.window.addOriginal (columnOf n) data).1.isGot e = true := by
    have hcount := h.count_le
    unfold DecoderPacketWindow.addOriginal
    simp only
    split
    · exact ⟨rfl, Nat.le_refl _, hcount, fun e he => he⟩
    · next hneg =>
      have hge : windowStart ≤ n := by
        by_contra hlt
        exact hneg (h.columnToElement_of_lt (by omega) htimely)
      have helement := h.columnToElement_of_ge hge (by omega)
      split
      · simp only [DecoderPacketWindow.growWindow_columnStart, DecoderPacketWindow.growWindow_count,
          DecoderPacketWindow.growWindow_isGot, helement]
        exact ⟨trivial, by omega, by omega, fun e he => he⟩
      · simp only [DecoderPacketWindow.fill_columnStart, DecoderPacketWindow.fill_count,
          DecoderPacketWindow.fill_isGot, DecoderPacketWindow.growWindow_columnStart,
          DecoderPacketWindow.growWindow_count, DecoderPacketWindow.growWindow_isGot, helement]
        refine ⟨trivial, by omega, by omega, fun e he => ?_⟩
        split
        · rfl
        · exact he
  obtain ⟨hcolumn, hcount, hadded, hgot⟩ := hgrown
  have hnext := h.sound.next_mono hwindow hgot hcount
  unfold Decoder.addOriginal
  split
  · exact h.stays (Nat.le_refl _)
  · simp only
    generalize d.window.addOriginal (columnOf n) data = grown at *
    obtain ⟨w, result⟩ := grown
    simp only at *
    split
    · exact Placed.stays (h.grow hwindow hcolumn hcount hadded hgot
        (fun r hr => mem_deletePacketsBefore hr) rfl) hnext
    · exact Placed.stays (h.grow hwindow hcolumn hcount hadded hgot (fun r hr => hr) rfl) hnext

/-! RemoveElements. -/

theorem keepPacket_le {β : Type} {w : DecoderPacketWindow α} {r r' : Removal}
    {recovery : RecoveryPacket β}
    (h : keepPacket w r recovery = some r') : r'.firstKeptElement ≤ r.firstKeptElement ∧
      r'.firstKeptElement ≤ recovery.elementStart := by
  unfold keepPacket at h
  simp only at h
  split at h
  · split at h
    · cases h
      exact ⟨Nat.min_le_left _ _, Nat.min_le_right _ _⟩
    · split at h
      · split at h
        · exact absurd h (by simp)
        · cases h
          simp only
          omega
      · cases h
        exact ⟨Nat.min_le_left _ _, Nat.min_le_right _ _⟩
  · cases h
    exact ⟨Nat.min_le_left _ _, Nat.min_le_right _ _⟩

theorem foldlM_keepPacket_le {β : Type} {w : DecoderPacketWindow α}
    {packets : List (RecoveryPacket β)} {r r' : Removal} (h : packets.foldlM (keepPacket w) r = some r') :
    r'.firstKeptElement ≤ r.firstKeptElement ∧
      ∀ x ∈ packets, r'.firstKeptElement ≤ x.elementStart := by
  induction packets generalizing r with
  | nil =>
    cases h
    exact ⟨Nat.le_refl _, by simp⟩
  | cons x packets ih =>
    rw [List.foldlM_cons, Option.bind_eq_bind, Option.bind_eq_some_iff] at h
    obtain ⟨r₁, hkeep, hrest⟩ := h
    obtain ⟨hle, hall⟩ := ih hrest
    obtain ⟨hle₁, hx⟩ := keepPacket_le hkeep
    refine ⟨hle.trans hle₁, fun y hy => ?_⟩
    rcases List.mem_cons.mp hy with rfl | hy
    · exact hle.trans hx
    · exact hall y hy

/-- What RemoveElements keeps: everything a stored packet still needs, and the next expected
element. -/
theorem Placed.planRemoval {d : Decoder α Nat} {windowStart added : Nat}
    (h : d.Placed windowStart added)
    (hlast : d.recoveryPackets = [] → windowStart ≤ d.lastEnd + kColumnPeriod / 2) {r : Removal}
    (hplan : d.planRemoval = some r) : r.firstKeptElement ≤ d.window.nextExpectedElement ∧
      (0 < r.firstKeptElement → r.firstKeptElement < d.window.count) ∧
      ∀ x ∈ d.recoveryPackets, r.firstKeptElement ≤ x.elementStart := by
  unfold Decoder.planRemoval at hplan
  cases hpackets : d.recoveryPackets with
  | cons head rest =>
    simp only [hpackets] at hplan
    obtain ⟨-, hall⟩ := foldlM_keepPacket_le hplan
    have hhead := h.stored head (by simp [hpackets])
    have hpos := hhead.ends.ldpc_pos
    have hstart := hhead.start_eq
    have hend := hhead.end_le
    have hfirst := hall head List.mem_cons_self
    exact ⟨hfirst.trans hhead.start_le, fun _ => by omega, hall⟩
  | nil =>
    have hlate := hlast hpackets
    simp only [hpackets] at hplan
    split at hplan
    · exact absurd hplan (by simp)
    · next hin =>
      cases hplan
      simp only [not_or, Bool.not_eq_true] at hin
      cases hmeta : d.lastRecovery with
      | none =>
        simp only [lastEnd, hmeta] at hlate
        simp only [lastRecoveryMetadata, hmeta] at hin ⊢
        have hzero : windowStart = 0 := by
          by_contra hne
          have hneg := h.columnToElement_of_lt (n := 0) (by omega) hlate
          rw [show columnOf 0 = 0 + 0 from rfl, hin.1] at hneg
          exact absurd hneg (by decide)
        have helement : d.window.columnToElement (columnOf 0) = 0 := by
          rw [h.columnToElement_of_ge (by omega) (by rw [hzero]; decide), hzero]
        have hsame : d.window.columnToElement (0 + 0) = 0 := helement
        simp [hsame]
      | some last =>
        obtain ⟨m, packetEnd⟩ := last
        obtain ⟨hends, hle, hldpc⟩ := h.last m packetEnd hmeta
        have hpos := hends.ldpc_pos
        have hcount := h.sound.count_le
        simp only [lastEnd, hmeta] at hlate
        simp only [lastRecoveryMetadata, hmeta, Placed.columnToElement_end hends] at hin ⊢
        have hge : windowStart ≤ packetEnd := by
          by_contra hlt
          rw [h.columnToElement_of_lt (by omega) hlate] at hin
          exact absurd hin.1 (by decide)
        have helement := h.columnToElement_of_ge hge (by simp only [kColumnPeriod] at hcount ⊢; omega)
        rw [helement] at hin ⊢
        refine ⟨by omega, fun _ => by omega, by simp⟩

theorem targetSums_eq {β : Type} {d d' : Decoder α β} {r : Removal} (h : d.targetSums r = some d') :
    d'.window = d.window ∧ d'.recoveryPackets = d.recoveryPackets ∧
      d'.lastRecovery = d.lastRecovery := by
  unfold targetSums at h
  split at h
  · split at h
    · split at h
      · exact absurd h (by simp)
      · cases h
        exact ⟨rfl, rfl, rfl⟩
    · cases h
      exact ⟨rfl, rfl, rfl⟩
  · cases h
    exact ⟨rfl, rfl, rfl⟩

theorem Placed.shift {d : Decoder α Nat} {windowStart added k : Nat} (h : d.Placed windowStart added)
    (hnext : k * kSubwindowSize ≤ d.window.nextExpectedElement)
    (hcount : k * kSubwindowSize < d.window.count)
    (hkept : ∀ r ∈ d.recoveryPackets, k * kSubwindowSize ≤ r.elementStart) :
    (d.shift k).Placed (windowStart + k * kSubwindowSize) added := by
  have hcount' := h.sound.shift_count hnext
  have hnext' := h.sound.shift_next hnext
  have hle := h.count_le
  refine ⟨h.sound.shift hnext, ?_, ?_, fun hzero => ?_, fun r hr => ?_, fun m packetEnd hm => ?_⟩
  · simp only [Decoder.shift, DecoderPacketWindow.shift, DecoderPacketWindow.elementToColumn,
      h.columnStart_eq, addColumns_columnOf_right]
  · simp only [Decoder.shift]
    omega
  · simp only [Decoder.shift] at hzero
    omega
  · simp only [Decoder.shift, decrementElementCounters, List.mem_map] at hr
    obtain ⟨x, hx, rfl⟩ := hr
    have hx' := h.stored x hx
    have hkeep := hkept x hx
    have hstart := hx'.start_eq
    have hend := hx'.end_le
    have hplace := hx'.end_eq
    have hsle := hx'.start_le
    have hmax := h.sound.count_lt
    have hs : unsignedSub x.elementStart (k * kSubwindowSize) =
        x.elementStart - k * kSubwindowSize := unsignedSub_eq hkeep (by omega)
    have he : unsignedSub x.elementEnd (k * kSubwindowSize) =
        x.elementEnd - k * kSubwindowSize := unsignedSub_eq (by omega) (by omega)
    refine ⟨hx'.ends, ?_, ?_, ?_, ?_⟩
    · simp only [he]
      omega
    · simp only [hs, he]
      omega
    · simp only [Decoder.shift, he]
      omega
    · simp only [Decoder.shift, hs]
      omega
  · obtain ⟨hends, hle', hldpc⟩ := h.last m packetEnd hm
    simp only [Decoder.shift]
    exact ⟨hends, by omega, by omega⟩

theorem Placed.removeElements {d : Decoder α Nat} {windowStart added : Nat}
    (h : d.Placed windowStart added)
    (hlast : d.recoveryPackets = [] → windowStart ≤ d.lastEnd + kColumnPeriod / 2) :
    d.Advances windowStart added d.removeElements := by
  unfold Decoder.removeElements
  split
  · exact h.stays (Nat.le_refl _)
  · split
    · exact h.disable.stays (Nat.le_refl _)
    · next r hplan =>
      obtain ⟨hnext, hlt, hkept⟩ := h.planRemoval hlast hplan
      split
      · exact h.stays (Nat.le_refl _)
      · next hfar =>
        have hpos : 0 < r.firstKeptElement := by
          simp only [kDecoderRemoveThreshold, kSubwindowSize, kColumnLaneCount] at hfar
          omega
        split
        · exact h.disable.stays (Nat.le_refl _)
        · next d' hsums =>
          obtain ⟨hwindow, hpackets, hlastEq⟩ := targetSums_eq hsums
          have h' : d'.Placed windowStart added := by
            refine ⟨?_, ?_, ?_, ?_, ?_, ?_⟩
            · rw [hwindow]
              exact h.sound
            · rw [hwindow]
              exact h.columnStart_eq
            · rw [hwindow]
              exact h.count_le
            · rw [hwindow]
              exact h.empty
            · rw [hwindow, hpackets]
              exact h.stored
            · rw [hwindow, hlastEq]
              exact h.last
          have hremoved := Nat.div_mul_le_self r.firstKeptElement kSubwindowSize
          have hcount := h.sound.count_le
          have hshift := h'.shift (k := r.firstKeptElement / kSubwindowSize) (by rw [hwindow]; omega)
            (by rw [hwindow]; have := hlt hpos; omega)
            fun x hx => hremoved.trans (hkept x (hpackets ▸ hx))
          refine ⟨_, ?_, hshift, ?_⟩
          · have := hlt hpos
            simp only [kColumnPeriod] at hcount ⊢
            omega
          · have hmoved := h'.sound.shift_next (k := r.firstKeptElement / kSubwindowSize)
              (by rw [hwindow]; omega)
            simp only [Decoder.shift]
            rw [hmoved, hwindow]
            omega

theorem Placed.addSingleRecovery {d : Decoder α Nat} {windowStart added : Nat}
    (h : d.Placed windowStart added)
    (hlast : windowStart ≤ d.lastEnd + kColumnPeriod / 2) (columnStart : Nat) (single : Option α)
    (checkedPastThreshold : Bool) :
    d.Advances windowStart added
      (d.addSingleRecovery columnStart single checkedPastThreshold) := by
  unfold Decoder.addSingleRecovery
  simp only
  split
  · exact h.disable.stays (Nat.le_refl _)
  · next hvalid =>
    have hlt : d.window.columnToElement columnStart < d.window.count := by
      simpa [DecoderPacketWindow.invalidElement] using hvalid
    split
    · exact h.stays (Nat.le_refl _)
    · next hmissing =>
      have hnew : d.window.isGot (d.window.columnToElement columnStart) = false := by
        rw [h.sound.got_eq]
        simpa using hmissing
      split
      · exact h.disable.stays (Nat.le_refl _)
      · next data =>
        have hsound := h.sound.fill hlt hnew data
        have hgot : ∀ e, d.window.isGot e = true →
            (d.window.fill (d.window.columnToElement columnStart) data).isGot e = true := by
          intro e he
          rw [DecoderPacketWindow.fill_isGot]
          split
          · rfl
          · exact he
        have hcolumn := d.window.fill_columnStart (d.window.columnToElement columnStart) data
        have hcount := d.window.fill_count (d.window.columnToElement columnStart) data
        have hnext := h.sound.next_mono hsound hgot (Nat.le_of_eq hcount.symm)
        have hle := h.count_le
        split
        · split
          · refine Advances.of_next_le (Placed.removeElements (h.grow hsound hcolumn
              (Nat.le_of_eq hcount.symm) (by simp only; omega) hgot
              (fun r hr => mem_deletePacketsBefore hr) rfl) fun _ => hlast) hnext
          · refine Placed.stays (h.grow hsound hcolumn (Nat.le_of_eq hcount.symm)
              (by simp only; omega) hgot (fun r hr => mem_deletePacketsBefore hr) rfl) hnext
        · refine Placed.stays (h.grow hsound hcolumn (Nat.le_of_eq hcount.symm)
            (by simp only; omega) hgot (fun r hr => hr) rfl) hnext

theorem linkRecovery_ne_nil {β : Type} (d : Decoder α β) (r : RecoveryPacket β) (outOfOrder : Bool) :
    (d.linkRecovery r outOfOrder).recoveryPackets ≠ [] :=
  List.ne_nil_of_mem (mem_insertRecovery.mpr (.inl rfl) : r ∈ insertRecovery r d.recoveryPackets)

theorem Placed.linkRecovery {d : Decoder α Nat} {windowStart added : Nat}
    (h : d.Placed windowStart added) {r : RecoveryPacket Nat} (hr : r.PlacedIn d.window windowStart)
    (outOfOrder : Bool) : (d.linkRecovery r outOfOrder).Placed windowStart added := by
  have hplace := hr.end_eq
  have hstart := hr.start_eq
  have hend := hr.end_le
  have hsle := hr.start_le
  refine ⟨h.sound, h.columnStart_eq, h.count_le, h.empty, fun r' hmem => ?_, fun m packetEnd hm => ?_⟩
  · rcases mem_insertRecovery.mp hmem with rfl | hmem
    · exact hr
    · exact h.stored r' hmem
  · simp only [Decoder.linkRecovery] at hm
    split at hm
    · exact h.last m packetEnd hm
    · cases hm
      exact ⟨hr.ends, by simp only [Decoder.linkRecovery]; omega,
        by simp only [Decoder.linkRecovery]; omega⟩

theorem Placed.storeRecovery {d : Decoder α Nat} {windowStart added : Nat}
    (h : d.Placed windowStart added)
    (hlast : windowStart ≤ d.lastEnd + kColumnPeriod / 2) {m : RecoveryMetadata}
    {packetEnd elementStart elementEnd : Nat} (single : Option α)
    (outOfOrder checkedPastThreshold : Bool)
    (hr : (⟨m, elementStart, elementEnd, packetEnd⟩ : RecoveryPacket Nat).PlacedIn d.window
      windowStart) :
    d.Advances windowStart added
      (d.storeRecovery m packetEnd single outOfOrder checkedPastThreshold elementStart
        elementEnd) := by
  unfold Decoder.storeRecovery
  split
  · exact h.addSingleRecovery hlast _ single checkedPastThreshold
  · have h' := h.linkRecovery hr outOfOrder
    simp only
    split
    · exact h'.removeElements fun hnil => absurd hnil (d.linkRecovery_ne_nil _ outOfOrder)
    · exact h'.stays (Nat.le_refl _)

theorem Placed.latestColumn {d : Decoder α Nat} {windowStart added : Nat}
    (h : d.Placed windowStart added) (column : Nat) :
    ({ d with latestColumn := column } : Decoder α Nat).Placed windowStart added :=
  ⟨h.sound, h.columnStart_eq, h.count_le, h.empty, h.stored, h.last⟩

theorem Placed.addFirstRecovery {d : Decoder α Nat} {windowStart added : Nat}
    (h : d.Placed windowStart added) (hempty : d.window.count = 0) {m : RecoveryMetadata}
    {packetEnd : Nat} (hm : m.EndsAt packetEnd) (hadded : packetEnd ≤ added)
    (hneeded : packetEnd ≤ windowStart + d.window.nextExpectedElement + m.ldpcCount)
    (hnear : added ≤ windowStart + d.window.nextExpectedElement + siameseMaxPackets) :
    ({ d with
      window := { d.window with columnStart := m.columnStart }.growWindow m.sumCount } :
        Decoder α Nat).Placed windowStart added ∧
      (⟨m, m.sumCount - m.ldpcCount, m.sumCount, packetEnd⟩ : RecoveryPacket Nat).PlacedIn
        ({ d.window with columnStart := m.columnStart }.growWindow m.sumCount) windowStart := by
  have hstart := h.empty hempty
  have hnext := h.sound.next_le
  have hldpc := hm.ldpc_le
  have hsum := hm.sum_le
  have hpos := hm.ldpc_pos
  have hcolumn : m.columnStart = d.window.columnStart := by
    rw [hm.columnStart_eq, h.columnStart_eq]
    congr 1
    omega
  have hsame : ({ d.window with columnStart := m.columnStart } : DecoderPacketWindow α) =
      d.window := by rw [hcolumn]
  have hcount := d.window.growWindow_count m.sumCount
  have hmax : m.sumCount ≤ kColumnPeriod / 2 := by
    simp only [siameseMaxPackets] at hnear
    simp only [kColumnPeriod]
    omega
  rw [hsame]
  have hgrown : ({ d with window := d.window.growWindow m.sumCount } : Decoder α Nat).Placed
      windowStart added := by
    refine h.grow (h.sound.growWindow hmax) ?_ ?_ ?_ ?_ (fun r hr => hr) rfl
    · exact d.window.growWindow_columnStart _
    · simp only
      omega
    · simp only
      omega
    · intro e he
      simpa using he
  exact ⟨hgrown, hm, by simp only; omega, by simp only; omega, by simp only; omega,
    by simp only [DecoderPacketWindow.growWindow_nextExpectedElement]; omega⟩

theorem Placed.end_eq {d : Decoder α Nat} {windowStart added : Nat} (h : d.Placed windowStart added)
    {m : RecoveryMetadata} {packetEnd elementEnd : Nat} (hm : m.EndsAt packetEnd)
    (hadded : packetEnd ≤ added) (htimely : windowStart ≤ packetEnd + kColumnPeriod / 2)
    (hnear : added ≤ windowStart + d.window.nextExpectedElement + siameseMaxPackets)
    (helement : d.window.columnToElement (m.columnStart + m.sumCount) = elementEnd)
    (hneg : isColumnDeltaNegative elementEnd = false) :
    windowStart ≤ packetEnd ∧ packetEnd - windowStart = elementEnd := by
  have hcount := h.sound.count_le
  have hnext := h.sound.next_le
  simp only [siameseMaxPackets] at hnear
  rw [Placed.columnToElement_end hm] at helement
  have hge : windowStart ≤ packetEnd := by
    by_contra hlt
    rw [← helement, h.columnToElement_of_lt (by omega) htimely] at hneg
    cases hneg
  rw [h.columnToElement_of_ge hge (by simp only [kColumnPeriod] at hcount ⊢; omega)] at helement
  exact ⟨hge, helement⟩

theorem Placed.addNextRecovery {d : Decoder α Nat} {windowStart added : Nat}
    (h : d.Placed windowStart added) {m : RecoveryMetadata} {packetEnd : Nat} (hm : m.EndsAt packetEnd)
    (hadded : packetEnd ≤ added) (hge : windowStart ≤ packetEnd)
    (hneg : isColumnDeltaNegative (packetEnd - windowStart) = false)
    (hclipped : m.ldpcCount ≤ packetEnd - windowStart)
    (hneeded : packetEnd ≤ windowStart + d.window.nextExpectedElement + m.ldpcCount) :
    ({ d with window := d.window.growWindow (packetEnd - windowStart) } : Decoder α Nat).Placed
        windowStart added ∧
      (⟨m, packetEnd - windowStart - m.ldpcCount, packetEnd - windowStart, packetEnd⟩ :
        RecoveryPacket Nat).PlacedIn (d.window.growWindow (packetEnd - windowStart)) windowStart := by
  have hpositive := isColumnDeltaNegative_eq_false_iff.mp hneg
  constructor
  · refine h.grow (h.sound.growWindow (Nat.le_of_lt hpositive)) ?_ ?_ ?_ ?_ (fun r hr => hr) rfl
    · exact d.window.growWindow_columnStart _
    · simp only [d.window.growWindow_count]
      omega
    · simp only [d.window.growWindow_count]
      have := h.count_le
      omega
    · intro e he
      simpa using he
  · refine ⟨hm, ?_, ?_, ?_, ?_⟩
    · simp only
      omega
    · simp only
      omega
    · simp only [d.window.growWindow_count]
      omega
    · simp only [d.window.growWindow_nextExpectedElement]
      omega

theorem Placed.addRecovery {d : Decoder α Nat} {windowStart added : Nat}
    (h : d.Placed windowStart added) {m : RecoveryMetadata} {packetEnd : Nat}
    (hm : m.EndsAt packetEnd) (hadded : packetEnd ≤ added)
    (hneeded : packetEnd ≤ windowStart + d.window.nextExpectedElement + m.ldpcCount)
    (hnear : added ≤ windowStart + d.window.nextExpectedElement + siameseMaxPackets)
    (htimely : windowStart ≤ packetEnd + kColumnPeriod / 2)
    (hlast : windowStart ≤ d.lastEnd + kColumnPeriod / 2) (single : Option α)
    (checkedPastThreshold : Bool) :
    d.Advances windowStart added (d.addRecovery m packetEnd single checkedPastThreshold) := by
  unfold Decoder.addRecovery
  split
  · exact h.stays (Nat.le_refl _)
  have hcases := d.placeRecovery_cases m packetEnd id Decoder.removeElements
    fun d outOfOrder elementStart elementEnd =>
      d.storeRecovery m packetEnd single outOfOrder checkedPastThreshold elementStart elementEnd
  obtain ⟨column, heq | ⟨hempty, heq⟩ | ⟨-, elementEnd, helement, hneg, hclipped, hplaced⟩⟩ := hcases
  · rw [heq]
    exact (h.latestColumn column).stays (Nat.le_refl _)
  · rw [heq]
    obtain ⟨hgrown, hplaced⟩ := (h.latestColumn column).addFirstRecovery hempty hm hadded hneeded hnear
    refine Advances.of_next_le (hgrown.storeRecovery hlast single false checkedPastThreshold hplaced) ?_
    simp only [DecoderPacketWindow.growWindow_nextExpectedElement]
    omega
  · obtain ⟨hge, rfl⟩ := h.end_eq hm (by omega) htimely hnear helement hneg
    have hcount := h.sound.count_le
    have hnext := h.sound.next_le
    have hpos := hm.ldpc_pos
    rcases hplaced with ⟨hhave, -, heq⟩ | ⟨-, -, outOfOrder, heq⟩
    · rw [heq]
      refine Placed.removeElements ⟨h.sound, h.columnStart_eq, h.count_le, h.empty, h.stored,
        fun m' packetEnd' hm' => ?_⟩ fun _ => ?_
      · cases hm'
        exact ⟨hm, by simp only; omega, by simp only; omega⟩
      · simp only [lastEnd]
        omega
    · rw [heq]
      obtain ⟨hgrown, hplaced⟩ := (h.latestColumn column).addNextRecovery hm hadded hge hneg
        hclipped hneeded
      refine Advances.of_next_le (hgrown.storeRecovery hlast single outOfOrder checkedPastThreshold
        hplaced) ?_
      simp only [d.window.growWindow_nextExpectedElement]
      omega

theorem mem_lostElements {β : Type} {d : Decoder α β} {elementStart stop e : Nat} :
    e ∈ d.lostElements elementStart stop ↔
      elementStart ≤ e ∧ e < stop ∧ d.window.isGot e = false := by
  simp only [lostElements, List.mem_filter, List.mem_range'_1, Bool.not_eq_true']
  constructor
  · rintro ⟨⟨hge, hlt⟩, hlost⟩
    exact ⟨hge, by omega, hlost⟩
  · rintro ⟨hge, hlt, hlost⟩
    exact ⟨⟨hge, by omega⟩, hlost⟩

theorem Placed.solve {d : Decoder α Nat} {windowStart added : Nat}
    (h : d.Placed windowStart added)
    (hlast : windowStart ≤ d.lastEnd + kColumnPeriod / 2) {head : RecoveryPacket Nat}
    (hhead : head ∈ d.recoveryPackets) {nextCheckStart : Nat} (hstop : nextCheckStart ≤ d.window.count)
    (hnext : d.window.nextExpectedElement ∈ d.lostElements head.elementStart nextCheckStart)
    (data : Nat → α) (sumColumnStart sumColumnCount : Nat) :
    d.Advances windowStart added
      (d.solve head.elementStart nextCheckStart data sumColumnStart sumColumnCount) := by
  have hstart := (h.stored head hhead).start_le
  have hnext' := mem_lostElements.mp hnext
  have hnodup : (d.lostElements head.elementStart nextCheckStart).Nodup :=
    List.Nodup.filter _ (List.nodup_range' ..)
  have hall : ∀ e, e < nextCheckStart → d.window.isGot e = true ∨
      e ∈ d.lostElements head.elementStart nextCheckStart := by
    intro e he
    by_cases hge : head.elementStart ≤ e
    · cases hg : d.window.isGot e with
      | true => exact .inl rfl
      | false => exact .inr (mem_lostElements.mpr ⟨hge, he, hg⟩)
    · exact .inl (h.sound.before_next e (by omega))
  obtain ⟨hsound, hreach⟩ := h.sound.recover data hnodup
    (fun e he => (mem_lostElements.mp he).2) hall hstop hnext'.2.1
  obtain ⟨hcolumn, hcount, hkeep⟩ := d.window.foldl_store_columnStart data
    (d.lostElements head.elementStart nextCheckStart)
  have hiter : ∀ w : DecoderPacketWindow α, ∀ n,
      (w.iterateNextExpectedElement n).columnStart = w.columnStart ∧
        (w.iterateNextExpectedElement n).count = w.count ∧
        (w.iterateNextExpectedElement n).subwindows = w.subwindows := by
    intro w n
    unfold DecoderPacketWindow.iterateNextExpectedElement
    split <;> exact ⟨rfl, rfl, rfl⟩
  have hgot := d.window.foldl_store_isGot data (d.lostElements head.elementStart nextCheckStart)
  unfold Decoder.solve Decoder.fillLost
  simp only
  generalize (d.lostElements head.elementStart nextCheckStart).foldl
    (fun w e => w.store e (data e)) d.window = w at *
  obtain ⟨hcolumn', hcount', hsub⟩ := hiter w nextCheckStart
  have hle := h.count_le
  have hplaced : ∀ recovered, ({ d with
      sumColumnStart := sumColumnStart
      sumColumnCount := sumColumnCount
      window := w.iterateNextExpectedElement nextCheckStart
      recoveredPackets := recovered
      recoveryPackets := deletePacketsBefore
        (w.iterateNextExpectedElement nextCheckStart).nextExpectedElement d.recoveryPackets } :
          Decoder α Nat).Placed windowStart added := by
    intro recovered
    refine h.grow hsound (hcolumn'.trans hcolumn) ?_ ?_ ?_
      (fun r hr => mem_deletePacketsBefore hr) rfl
    · exact Nat.le_of_eq (hcount'.trans hcount).symm
    · simp only
      rw [hcount', hcount]
      exact hle
    · intro e he
      simp only [DecoderPacketWindow.isGot, hsub]
      have hw := hgot e
      rw [he, Bool.or_true] at hw
      exact hw
  have hmove : d.window.nextExpectedElement ≤
      (w.iterateNextExpectedElement nextCheckStart).nextExpectedElement := by omega
  split
  · exact Advances.of_next_le ((hplaced _).removeElements fun _ => hlast) hmove
  · exact Placed.stays (hplaced _) hmove

theorem Placed.decode {d d' : Decoder α Nat} {windowStart added : Nat}
    (h : d.Placed windowStart added)
    (hlast : windowStart ≤ d.lastEnd + kColumnPeriod / 2) {recovered : List (Nat × α)}
    (hdecode : d.Decode recovered d') : d.Advances windowStart added d' := by
  cases hdecode with
  | recovered =>
    exact Placed.stays ⟨h.sound, h.columnStart_eq, h.count_le, h.empty, h.stored, h.last⟩
      (Nat.le_refl _)
  | needMoreData => exact h.stays (Nat.le_refl _)
  | disabled => exact h.disable.stays (Nat.le_refl _)
  | solved head nextCheckStart data sumColumnStart sumColumnCount _ _ hhead hstop hnext =>
    exact h.solve hlast (List.mem_of_mem_head? hhead) hstop hnext data sumColumnStart sumColumnCount

end Decoder
end Tonk.Siamese
