import Tonk.Siamese.Retransmit

set_option autoImplicit false

namespace Tonk.Siamese
open Protocol

theorem EncoderPacketWindow.add_firstUnremovedElement {w : EncoderPacketWindow}
    (hpos : 0 < w.count) (nowMsec : Nat) :
    (w.add nowMsec).1.firstUnremovedElement = w.firstUnremovedElement := by
  unfold EncoderPacketWindow.add
  split
  · rfl
  · rfl

theorem EncoderPacketWindow.removeBefore_cases (w : EncoderPacketWindow) (column : Nat) :
    w.removeBefore column = w ∧ (w.count ≤ w.columnToElement column ∧
        isColumnDeltaNegative (w.columnToElement column) = true ∨
          w.columnToElement column < w.count ∧
            w.columnToElement column ≤ w.firstUnremovedElement) ∨
      w.removeBefore column = { w with count := 0 } ∧ w.count ≤ w.columnToElement column ∧
        isColumnDeltaNegative (w.columnToElement column) = false ∨
      w.removeBefore column = { w with firstUnremovedElement := w.columnToElement column } ∧
        w.columnToElement column < w.count ∧
        w.firstUnremovedElement < w.columnToElement column := by
  unfold EncoderPacketWindow.removeBefore
  simp only
  by_cases hout : w.count ≤ w.columnToElement column
  · rw [if_pos hout]
    cases hneg : isColumnDeltaNegative (w.columnToElement column) with
    | true => exact .inl ⟨rfl, .inl ⟨hout, rfl⟩⟩
    | false => exact .inr (.inl ⟨rfl, hout, rfl⟩)
  · rw [if_neg hout]
    by_cases hmove : w.firstUnremovedElement < w.columnToElement column
    · exact .inr (.inr ⟨if_pos hmove, Nat.lt_of_not_le hout, hmove⟩)
    · exact .inl ⟨if_neg hmove, .inr ⟨Nat.lt_of_not_le hout, Nat.le_of_not_lt hmove⟩⟩

theorem EncoderAcknowledgementState.onAcknowledgementData_scan (s : EncoderAcknowledgementState)
    (w : EncoderPacketWindow) (nowMsec : Nat) (data : Bytes) :
    (s.onAcknowledgementData w nowMsec data).scan.isSome = false ∧
        (s.onAcknowledgementData w nowMsec data).window = w ∨
      (s.onAcknowledgementData w nowMsec data).scan.isSome = true ∧
        (s.onAcknowledgementData w nowMsec data).window =
          w.removeBefore (s.onAcknowledgementData w nowMsec data).state.nextColumnExpected := by
  unfold onAcknowledgementData
  split
  · exact .inl ⟨rfl, rfl⟩
  · simp only
    split
    · exact .inl ⟨rfl, rfl⟩
    · split
      · exact .inl ⟨rfl, rfl⟩
      · unfold takeLossRanges
        generalize (if 0 < (List.drop _ data).length then
          EncoderAcknowledgementState.decodeNextRange _ else (_, true)) = decoded
        obtain ⟨s', ok⟩ := decoded
        cases ok with
        | true => exact .inr ⟨rfl, rfl⟩
        | false => exact .inl ⟨rfl, rfl⟩

inductive EncoderCall where
  | add (nowMsec : Nat) (data : Bytes)
  | removeBefore (firstKeptColumn : Nat)
  | acknowledge (nowMsec : Nat) (data : Bytes)
  | retransmit (nowMsec retransmitMsec : Nat)
  | encode

/-- The encoder together with all that was added, the number of the packet at element 0, that of the
packet that started the window, and that of the first packet that has not been removed. -/
structure TracedEncoder where
  encoder : FullEncoder
  packets : List Bytes
  base : Nat
  first : Nat
  kept : Nat

namespace TracedEncoder

def initial : TracedEncoder := ⟨.initial, [], 0, 0, 0⟩

/-- A column names the packet less than half a period behind the start of the window; what is in front
of that packet is removed. -/
def keptAfter (t : TracedEncoder) (column : Nat) : Nat :=
  let delta := subtractColumns column (columnOf t.base)
  if isColumnDeltaNegative delta then t.kept else max t.kept (min t.packets.length (t.base + delta))

def step (t : TracedEncoder) : EncoderCall → TracedEncoder
  | .add nowMsec data =>
    let (e, result) := t.encoder.add nowMsec data
    if result = .success then
      { t with
        encoder := e
        packets := t.packets ++ [data]
        base := if 0 < t.encoder.data.window.count then t.base else
          t.packets.length - t.packets.length % kColumnLaneCount
        first := if 0 < t.encoder.data.window.count then t.first else t.packets.length }
    else { t with encoder := e }
  | .removeBefore firstKeptColumn =>
    { t with
      encoder := t.encoder.removeBefore firstKeptColumn
      kept := if t.encoder.emergencyDisabled then t.kept else t.keptAfter firstKeptColumn }
  | .acknowledge nowMsec data =>
    -- The round trip times are looked at exactly when RemoveBefore is called next.
    let outcome := t.encoder.ack.onAcknowledgementData t.encoder.data.window nowMsec data
    { t with
      encoder := (t.encoder.acknowledge nowMsec data).1
      kept := if t.encoder.emergencyDisabled = false ∧ outcome.scan.isSome then
        t.keptAfter outcome.state.nextColumnExpected else t.kept }
  | .retransmit nowMsec retransmitMsec =>
    { t with encoder := (t.encoder.retransmit nowMsec retransmitMsec).1 }
  | .encode =>
    let w := t.encoder.data.window
    { t with
      encoder := t.encoder.encode.1
      base := if t.encoder.emergencyDisabled = false ∧ 0 < w.count ∧
          kEncoderRemoveThreshold ≤ w.firstUnremovedElement then
        t.base + w.firstUnremovedElement / kSubwindowSize * kSubwindowSize else t.base }

def run (t : TracedEncoder) (calls : List EncoderCall) : TracedEncoder := calls.foldl step t

structure Inv (t : TracedEncoder) : Prop where
  holds : t.encoder.data.Holds t.packets t.base t.first
  kept_eq : t.kept = if 0 < t.encoder.data.window.count then
    t.base + t.encoder.data.window.firstUnremovedElement else t.packets.length

theorem inv_initial : initial.Inv := ⟨EncoderData.holds_initial, rfl⟩

theorem Inv.kept_le {t : TracedEncoder} (h : t.Inv) : t.kept ≤ t.packets.length := by
  rw [h.kept_eq]
  split
  · next hpos =>
    have hcount := h.holds.count_eq hpos
    have hfirst := h.holds.first_lt hpos
    omega
  · exact Nat.le_refl _

theorem Inv.removeBefore {t : TracedEncoder} (h : t.Inv) (column : Nat) {e : FullEncoder}
    (he : e.data = t.encoder.data.removeBefore column) :
    Inv { t with encoder := e, kept := t.keptAfter column } := by
  refine ⟨?_, ?_⟩
  · simp only [he]
    exact h.holds.removeBefore column
  · have hle := h.kept_le
    have hkept := h.kept_eq
    have hdelta : t.encoder.data.window.columnToElement column =
        subtractColumns column (columnOf t.base) := by
      rw [EncoderPacketWindow.columnToElement, h.holds.columnStart_eq]
    simp only [he, EncoderData.removeBefore, keptAfter]
    rw [← hdelta]
    have hcases := t.encoder.data.window.removeBefore_cases column
    generalize t.encoder.data.window.columnToElement column = delta at hcases
    by_cases hpos : 0 < t.encoder.data.window.count
    · rw [if_pos hpos] at hkept
      have hcount := h.holds.count_eq hpos
      have hfirst := h.holds.first_lt hpos
      have hmax := h.holds.count_le
      have hnear : delta < t.encoder.data.window.count → isColumnDeltaNegative delta = false := by
        intro hin
        rw [isColumnDeltaNegative_eq_false_iff]
        simp only [siameseMaxPackets, kColumnPeriod] at hmax ⊢
        omega
      rcases hcases with ⟨hsame, ⟨-, hneg⟩ | ⟨hin, hle'⟩⟩ | ⟨hempty, hout, hneg⟩ | ⟨hmoved, hin, hless⟩
      · rw [hsame, if_pos hneg, if_pos hpos, hkept]
      · rw [hsame, hnear hin, if_neg (by decide), if_pos hpos]
        omega
      · rw [hempty, hneg, if_neg (by decide), if_neg (Nat.lt_irrefl 0)]
        omega
      · rw [hmoved, hnear hin, if_neg (by decide), if_pos hpos]
        simp only
        omega
    · rw [if_neg hpos] at hkept
      rw [EncoderPacketWindow.removeBefore_empty (Nat.eq_zero_of_not_pos hpos), if_neg hpos]
      split <;> omega

theorem Inv.add {t : TracedEncoder} (h : t.Inv) (nowMsec : Nat) (data : Bytes) :
    (t.step (.add nowMsec data)).Inv := by
  have hkept := h.kept_eq
  simp only [step, FullEncoder.add]
  cases t.encoder.emergencyDisabled with
  | true => exact h
  | false =>
    simp only [Bool.false_eq_true, if_false]
    by_cases hok : (t.encoder.data.window.add nowMsec).2 = .success
    · obtain ⟨hsuccess, hwindow, -⟩ := EncoderData.add_success data hok rfl
      rw [if_pos hsuccess]
      by_cases hpos : 0 < t.encoder.data.window.count
      · simp only [hpos, if_true] at hkept ⊢
        have hholds := h.holds.add hpos data hok
        refine ⟨hholds, ?_⟩
        obtain ⟨-, hgrown⟩ := EncoderData.add_sumColumnStart (w := t.encoder.data.window) nowMsec
        have hmore := hgrown hok
        rw [← hwindow] at hmore
        have hfirst : (t.encoder.data.add nowMsec data).1.window.firstUnremovedElement =
            t.encoder.data.window.firstUnremovedElement := by
          rw [hwindow]
          exact EncoderPacketWindow.add_firstUnremovedElement hpos nowMsec
        rw [if_pos (by simp only; omega), hkept]
        simp only [hfirst]
      · have hempty : t.encoder.data.window.count = 0 := Nat.eq_zero_of_not_pos hpos
        simp only [hpos, if_false] at hkept ⊢
        have hholds := h.holds.add_empty hempty data hok
        refine ⟨hholds, ?_⟩
        obtain ⟨-, hholding, hfirst⟩ :=
          EncoderPacketWindow.add_empty hempty h.holds.nextColumn_eq nowMsec
        have hlt := hholding.first_lt
        rw [← hwindow] at hlt hfirst
        have hmod := Nat.mod_le t.packets.length kColumnLaneCount
        rw [if_pos (by simp only; omega), hkept]
        simp only [hfirst]
        omega
    · have hsame : t.encoder.data.add nowMsec data =
          (t.encoder.data, (t.encoder.data.window.add nowMsec).2) := by
        unfold EncoderData.add
        exact if_neg hok
      rw [hsame]
      simp only [hok, if_false]
      exact ⟨h.holds, h.kept_eq⟩

theorem Inv.same {t : TracedEncoder} (h : t.Inv) {e : FullEncoder}
    (hsame : t.encoder.data.SamePackets e.data) : Inv { t with encoder := e } := by
  refine ⟨h.holds.same hsame, ?_⟩
  simp only [hsame.count, hsame.firstUnremovedElement]
  exact h.kept_eq

theorem Inv.acknowledge {t : TracedEncoder} (h : t.Inv) (nowMsec : Nat) (data : Bytes) :
    (t.step (.acknowledge nowMsec data)).Inv := by
  simp only [step, FullEncoder.acknowledge]
  cases t.encoder.emergencyDisabled with
  | true => exact ⟨h.holds, h.kept_eq⟩
  | false =>
    simp only [Bool.false_eq_true, if_false, true_and]
    rcases t.encoder.ack.onAcknowledgementData_scan t.encoder.data.window nowMsec data with
      ⟨hscan, hwindow⟩ | ⟨hscan, hwindow⟩
    · simp only [hscan, Bool.false_eq_true, if_false, hwindow]
      exact ⟨h.holds, h.kept_eq⟩
    · simp only [hscan, if_true]
      exact h.removeBefore _ (by simp only [hwindow, EncoderData.removeBefore])

theorem Inv.encode {t : TracedEncoder} (h : t.Inv) : (t.step .encode).Inv := by
  simp only [step]
  cases hoff : t.encoder.emergencyDisabled with
  | true =>
    have hnone : t.encoder.encode.1 = t.encoder := by simp [FullEncoder.encode, hoff]
    simp only [hnone, Bool.true_eq_false, false_and, if_false]
    exact h
  | false =>
    by_cases hpos : 0 < t.encoder.data.window.count
    · simp only [FullEncoder.encode_eq hoff hpos, true_and, hpos]
      by_cases hremove : kEncoderRemoveThreshold ≤ t.encoder.data.window.firstUnremovedElement
      · simp only [hremove, if_true]
        refine Inv.same (t := { t with
            encoder := { t.encoder with data := t.encoder.data.removeElements },
            base := t.base +
              t.encoder.data.window.firstUnremovedElement / kSubwindowSize * kSubwindowSize })
          ⟨h.holds.removeElements hpos, ?_⟩ (FullEncoder.chosenPacket_samePackets _)
        obtain ⟨-, -, hc, hf⟩ := t.encoder.data.window.removeElements_positions
        rw [← EncoderData.removeElements_window] at hc hf
        have hfirst := h.holds.first_lt hpos
        have hremoved : t.encoder.data.window.firstUnremovedElement / kSubwindowSize *
            kSubwindowSize ≤ t.encoder.data.window.firstUnremovedElement :=
          Nat.div_mul_le_self _ _
        have hkept := h.kept_eq
        rw [if_pos hpos] at hkept
        simp only [hkept, hc, hf]
        rw [if_pos (by omega)]
        omega
      · simp only [hremove, if_false]
        exact h.same (FullEncoder.chosenPacket_samePackets _)
    · have hnone : t.encoder.encode.1 = t.encoder := by
        simp [FullEncoder.encode, Nat.eq_zero_of_not_pos hpos]
      simp only [hnone, hpos, false_and, and_false, if_false]
      exact h

theorem Inv.step {t : TracedEncoder} (h : t.Inv) (call : EncoderCall) : (t.step call).Inv := by
  cases call with
  | add nowMsec data => exact h.add nowMsec data
  | removeBefore firstKeptColumn =>
    simp only [TracedEncoder.step, FullEncoder.removeBefore]
    cases t.encoder.emergencyDisabled with
    | true => exact h
    | false => exact h.removeBefore firstKeptColumn rfl
  | acknowledge nowMsec data => exact h.acknowledge nowMsec data
  | retransmit nowMsec retransmitMsec =>
    exact h.same (t.encoder.retransmit_samePackets nowMsec retransmitMsec)
  | encode => exact h.encode

theorem Inv.run {t : TracedEncoder} (h : t.Inv) (calls : List EncoderCall) :
    (t.run calls).Inv := by
  induction calls generalizing t with
  | nil => exact h
  | cons call calls ih => exact ih (h.step call)

/-- What the encoder's window is under any calls. -/
theorem window_of_run (calls : List EncoderCall) :
    let t := initial.run calls
    let d := t.encoder.data
    d.window.count ≤ siameseMaxPackets ∧
      (0 < d.window.count →
        d.window.firstUnremovedElement < d.window.count ∧
        (∀ element, element % kColumnLaneCount =
          d.window.elementToColumn element % kColumnLaneCount) ∧
        (∀ element < d.window.count, element / kSubwindowSize < d.subwindows.length) ∧
        (∀ element < d.window.count, t.first ≤ t.base + element →
          d.getWindowElement element = .initialized (d.window.elementToColumn element)
            (t.packets.getD (t.base + element) [])) ∧
        t.base + d.window.count = t.packets.length ∧ t.first ≤ t.kept ∧
        t.base + d.window.firstUnremovedElement = t.kept ∧
        d.window.getUnacknowledgedCount = t.packets.length - t.kept) := by
  have h : (initial.run calls).Inv := inv_initial.run calls
  refine ⟨h.holds.count_le, fun hpos => ?_⟩
  have hcount := h.holds.count_eq hpos
  have hfirst := h.holds.first_lt hpos
  have hroom := h.holds.room hpos
  have hmax := h.holds.count_le
  have hkept := h.kept_eq
  rw [if_pos hpos] at hkept
  have hcolumn : ∀ element, (initial.run calls).encoder.data.window.elementToColumn element =
      columnOf ((initial.run calls).base + element) := fun element => by
    rw [EncoderPacketWindow.elementToColumn, h.holds.columnStart_eq, addColumns_columnOf_right]
  refine ⟨hfirst, fun element => ?_, fun element he => ?_, fun element he hle => ?_, hcount,
    hkept ▸ h.holds.first_le hpos, hkept.symm, ?_⟩
  · have hmod := h.holds.base_mod
    rw [hcolumn, columnOf]
    simp only [kColumnPeriod, kColumnLaneCount] at hmod ⊢
    omega
  · exact Nat.div_lt_of_lt_mul (by rw [Nat.mul_comm]; omega)
  · rw [hcolumn]
    exact h.holds.contents element he hle
  · rw [EncoderPacketWindow.getUnacknowledgedCount, unsignedSub_eq (Nat.le_of_lt hfirst)]
    · omega
    · simp only [siameseMaxPackets] at hmax
      omega

/-- A window that starts with column 9 skips an element, which still holds the packet of column 0. -/
theorem window_skips : ¬∀ calls : List EncoderCall,
    let t := initial.run calls
    let d := t.encoder.data
    d.window.count ≤ siameseMaxPackets ∧
      (d.window.firstUnremovedElement < d.window.count ∨
        d.window.firstUnremovedElement = 0 ∧ d.window.count = 0) ∧
      (∀ element, element % kColumnLaneCount =
        d.window.elementToColumn element % kColumnLaneCount) ∧
      (∀ element < d.window.count, element / kSubwindowSize < d.subwindows.length ∧
        d.getWindowElement element = .initialized (d.window.elementToColumn element)
          (t.packets.getD (t.base + element) [])) ∧
      d.window.getUnacknowledgedCount = t.packets.length - t.kept := by
  intro h
  obtain ⟨-, -, -, hcontents, -⟩ :=
    h (List.replicate 9 (.add 1 [1]) ++ [.removeBefore 9, .add 1 [2]])
  have hskipped := (hcontents 0 (by decide +kernel)).2
  revert hskipped
  decide +kernel

end TracedEncoder
end Tonk.Siamese
