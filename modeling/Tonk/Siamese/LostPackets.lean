import Tonk.Siamese.DecoderWindow

set_option autoImplicit false

namespace Tonk.Siamese

def DecoderSubwindow.rangePopcount {α : Type} (s : DecoderSubwindow α) (bitStart bitEnd : Nat) :
    Nat := (List.range' bitStart (bitEnd - bitStart)).countP s.got

namespace DecoderPacketWindow

variable {α : Type}

def rangeLostPackets (w : DecoderPacketWindow α) (elementStart elementEnd : Nat) : Nat :=
  if elementEnd ≤ elementStart then 0
  else
    let subwindow := elementStart / kSubwindowSize
    let bitStart := elementStart % kSubwindowSize
    let bitEnd := min (bitStart + elementEnd - elementStart) kSubwindowSize
    let first := if 0 < bitStart then
      bitEnd - bitStart - (w.subwindows subwindow).rangePopcount bitStart bitEnd else 0
    let subwindowStart := if 0 < bitStart then subwindow + 1 else subwindow
    let subwindowEnd := elementEnd / kSubwindowSize
    let whole := ((List.range' subwindowStart (subwindowEnd - subwindowStart)).map fun i =>
      kSubwindowSize - (w.subwindows i).gotCount).sum
    let lastSubwindowBits := elementEnd - subwindowEnd * kSubwindowSize
    let last := if subwindowStart ≤ subwindowEnd then
      lastSubwindowBits - (w.subwindows subwindowEnd).rangePopcount 0 lastSubwindowBits else 0
    first + whole + last

/-- The clear bits PopulateColumns goes through, FindFirstClear after FindFirstClear, in `n`
subwindows. It skips the full ones. -/
def lostFrom (w : DecoderPacketWindow α) : Nat → Nat → Nat → List Nat
  | 0, _, _ => []
  | n + 1, subwindowIndex, bitIndex =>
    let subwindow := w.subwindows subwindowIndex
    (if subwindow.gotCount < kSubwindowSize then
      ((List.range' bitIndex (kSubwindowSize - bitIndex)).filter fun bit => !subwindow.got bit).map
        fun bit => subwindowIndex * kSubwindowSize + bit
    else []) ++ w.lostFrom n (subwindowIndex + 1) 0

def lost (w : DecoderPacketWindow α) (elementStart elementEnd : Nat) : List Nat :=
  (List.range' elementStart (elementEnd - elementStart)).filter fun e => !w.isGot e

theorem mem_lost {w : DecoderPacketWindow α} {elementStart elementEnd e : Nat} :
    e ∈ w.lost elementStart elementEnd ↔
      elementStart ≤ e ∧ e < elementEnd ∧ w.isGot e = false := by
  simp only [lost, List.mem_filter, List.mem_range'_1, Bool.not_eq_true']
  constructor
  · rintro ⟨⟨hge, hlt⟩, hlost⟩
    exact ⟨hge, by omega, hlost⟩
  · rintro ⟨hge, hlt, hlost⟩
    exact ⟨⟨hge, by omega⟩, hlost⟩

theorem lost_append (w : DecoderPacketWindow α) {i j k : Nat} (hij : i ≤ j) (hjk : j ≤ k) :
    w.lost i j ++ w.lost j k = w.lost i k := by
  have hj : j = i + (j - i) := by omega
  rw [lost, lost, lost, ← List.filter_append]
  congr 1
  conv_lhs => rw [show List.range' j (k - j) = List.range' (i + (j - i)) (k - j) by rw [← hj]]
  rw [List.range'_append_1]
  congr 1
  omega

theorem lost_self (w : DecoderPacketWindow α) (i : Nat) : w.lost i i = [] := by
  simp [lost]

theorem lost_nodup (w : DecoderPacketWindow α) (i j : Nat) : (w.lost i j).Nodup :=
  List.Nodup.filter _ (List.nodup_range' ..)

theorem lost_subwindow (w : DecoderPacketWindow α) (i : Nat) {p q : Nat}
    (hq : q ≤ kSubwindowSize) : w.lost (i * kSubwindowSize + p) (i * kSubwindowSize + q) =
      ((List.range' p (q - p)).filter fun bit => !(w.subwindows i).got bit).map
        fun bit => i * kSubwindowSize + bit := by
  have hlength : i * kSubwindowSize + q - (i * kSubwindowSize + p) = q - p := by omega
  rw [lost, hlength, ← List.map_add_range', List.filter_map]
  congr 1
  refine List.filter_congr fun bit hbit => ?_
  rw [List.mem_range'_1] at hbit
  simp only [Function.comp_apply, w.isGot_eq i (show bit < kSubwindowSize by omega)]

theorem length_lost_subwindow (w : DecoderPacketWindow α) (i : Nat) {p q : Nat}
    (hq : q ≤ kSubwindowSize) :
    (w.lost (i * kSubwindowSize + p) (i * kSubwindowSize + q)).length =
      q - p - (w.subwindows i).rangePopcount p q := by
  have hcount := List.length_eq_countP_add_countP (w.subwindows i).got
    (l := List.range' p (q - p))
  rw [List.length_range'] at hcount
  rw [w.lost_subwindow i hq, List.length_map, ← List.countP_eq_length_filter,
    DecoderSubwindow.rangePopcount]
  have hnot : (List.range' p (q - p)).countP (fun bit => !(w.subwindows i).got bit) =
      (List.range' p (q - p)).countP fun bit => decide (¬ (w.subwindows i).got bit = true) := by
    congr 1
    funext bit
    cases (w.subwindows i).got bit <;> rfl
  omega

theorem Counted.length_lost {w : DecoderPacketWindow α} (h : w.Counted) (i : Nat) :
    (w.lost (i * kSubwindowSize) ((i + 1) * kSubwindowSize)).length =
      kSubwindowSize - (w.subwindows i).gotCount := by
  have hlost := w.length_lost_subwindow i (p := 0) (Nat.le_refl kSubwindowSize)
  rw [Nat.add_zero, ← Nat.succ_mul, Nat.sub_zero] at hlost
  rw [hlost, h i, DecoderSubwindow.rangePopcount, Nat.sub_zero, List.range_eq_range']

theorem Counted.length_lost_whole {w : DecoderPacketWindow α} (h : w.Counted) (i n : Nat) :
    (w.lost (i * kSubwindowSize) ((i + n) * kSubwindowSize)).length =
      ((List.range' i n).map fun i => kSubwindowSize - (w.subwindows i).gotCount).sum := by
  induction n generalizing i with
  | zero => simp [lost]
  | succ n ih =>
    rw [List.range'_succ, List.map_cons, List.sum_cons, ← h.length_lost i, ← ih (i + 1),
      ← List.length_append, w.lost_append]
    · rw [Nat.add_assoc, Nat.add_comm 1 n]
    · exact Nat.mul_le_mul_right _ (by omega)
    · exact Nat.mul_le_mul_right _ (by omega)

theorem Counted.length_lost_from {w : DecoderPacketWindow α} (h : w.Counted)
    {subwindow elementEnd : Nat} (hle : subwindow ≤ elementEnd / kSubwindowSize) :
    (w.lost (subwindow * kSubwindowSize) elementEnd).length =
      ((List.range' subwindow (elementEnd / kSubwindowSize - subwindow)).map fun i =>
        kSubwindowSize - (w.subwindows i).gotCount).sum +
      (elementEnd - elementEnd / kSubwindowSize * kSubwindowSize -
        (w.subwindows (elementEnd / kSubwindowSize)).rangePopcount 0
          (elementEnd - elementEnd / kSubwindowSize * kSubwindowSize)) := by
  have hend : elementEnd / kSubwindowSize * kSubwindowSize ≤ elementEnd := Nat.div_mul_le_self _ _
  have hbits : elementEnd - elementEnd / kSubwindowSize * kSubwindowSize ≤ kSubwindowSize := by
    have := Nat.lt_div_mul_add (a := elementEnd) (show 0 < kSubwindowSize by decide)
    omega
  have hwhole := h.length_lost_whole subwindow (elementEnd / kSubwindowSize - subwindow)
  have hlast := w.length_lost_subwindow (elementEnd / kSubwindowSize) (p := 0) hbits
  rw [Nat.add_sub_cancel' hle] at hwhole
  rw [Nat.add_zero, Nat.add_sub_cancel' hend, Nat.sub_zero] at hlast
  rw [← hwhole, ← hlast, ← List.length_append, w.lost_append (Nat.mul_le_mul_right _ hle) hend]

/-- RangeLostPackets is the number of elements that are not there. -/
theorem Counted.rangeLostPackets_eq {w : DecoderPacketWindow α} (h : w.Counted)
    (elementStart elementEnd : Nat) :
    w.rangeLostPackets elementStart elementEnd = (w.lost elementStart elementEnd).length := by
  unfold rangeLostPackets
  split
  · next hempty => simp [lost, Nat.sub_eq_zero_of_le hempty]
  · next hlt =>
    have hsize : kSubwindowSize = 64 := rfl
    have hstart := Nat.div_add_mod' elementStart kSubwindowSize
    have hmod : elementStart % kSubwindowSize < kSubwindowSize := Nat.mod_lt _ (by decide)
    simp only
    generalize hbit : elementStart % kSubwindowSize = bitStart at *
    generalize hsub : elementStart / kSubwindowSize = subwindow at *
    by_cases hpos : 0 < bitStart
    · simp only [if_pos hpos]
      have hbitEnd : min (bitStart + elementEnd - elementStart) kSubwindowSize ≤ kSubwindowSize :=
        Nat.min_le_right _ _
      rw [← w.length_lost_subwindow subwindow hbitEnd, hstart]
      by_cases hle : subwindow + 1 ≤ elementEnd / kSubwindowSize
      · have hfull : subwindow * kSubwindowSize +
            min (bitStart + elementEnd - elementStart) kSubwindowSize =
              (subwindow + 1) * kSubwindowSize := by
          rw [hsize] at *
          omega
        rw [if_pos hle, hfull, Nat.add_assoc, ← h.length_lost_from hle, ← List.length_append,
          w.lost_append]
        · rw [hsize] at *
          omega
        · rw [hsize] at *
          omega
      · have hinside : subwindow * kSubwindowSize +
            min (bitStart + elementEnd - elementStart) kSubwindowSize = elementEnd := by
          rw [hsize] at *
          omega
        rw [if_neg hle, hinside, Nat.sub_eq_zero_of_le (by omega)]
        rfl
    · have hzero : bitStart = 0 := by omega
      have hle : subwindow ≤ elementEnd / kSubwindowSize := by
        rw [hsize] at *
        omega
      simp only [if_neg hpos, if_pos hle]
      rw [Nat.zero_add, ← h.length_lost_from hle]
      congr 2
      omega

/-- The scan of PopulateColumns lists the elements that are not there, in order. -/
theorem Counted.lostFrom_eq {w : DecoderPacketWindow α} (h : w.Counted) (n i : Nat) {bit : Nat}
    (hbit : bit ≤ kSubwindowSize) :
    w.lostFrom n i bit = w.lost (i * kSubwindowSize + bit) ((i + n) * kSubwindowSize) := by
  induction n generalizing i bit with
  | zero =>
    simp [lostFrom, lost]
  | succ n ih =>
    have hend : i * kSubwindowSize + kSubwindowSize = (i + 1) * kSubwindowSize :=
      (Nat.succ_mul i kSubwindowSize).symm
    have hsplit := w.lost_append (i := i * kSubwindowSize + bit)
      (j := i * kSubwindowSize + kSubwindowSize) (k := (i + (n + 1)) * kSubwindowSize) (by omega)
      (by rw [hend]; exact Nat.mul_le_mul_right _ (by omega))
    rw [lostFrom, ih (i + 1) (Nat.zero_le _), ← hsplit, w.lost_subwindow i (Nat.le_refl _)]
    congr 1
    · split
      · rfl
      · next hfull =>
        have hall : ((List.range' bit (kSubwindowSize - bit)).filter fun b =>
            !(w.subwindows i).got b) = [] := by
          have hcount := h i
          have hle := List.countP_le_length (p := (w.subwindows i).got)
            (l := List.range kSubwindowSize)
          have hlength : (List.range kSubwindowSize).countP (w.subwindows i).got =
              (List.range kSubwindowSize).length := by
            rw [List.length_range] at hle ⊢
            omega
          rw [List.countP_eq_length] at hlength
          refine List.filter_eq_nil_iff.mpr fun b hb => ?_
          rw [List.mem_range'_1] at hb
          simp [hlength b (List.mem_range.mpr (by omega))]
        rw [hall]
        rfl
    · rw [hend, Nat.add_zero, Nat.add_assoc, Nat.add_comm 1 n]

end DecoderPacketWindow
end Tonk.Siamese
