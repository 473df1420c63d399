import Tonk.Lib.Run
import Tonk.Siamese.LaneSums
import Tonk.Siamese.EncoderPositions

set_option autoImplicit false

namespace Tonk.Siamese
open Protocol Transition Finset

abbrev EncoderSubwindow := Nat → OriginalPacket

structure EncoderColumnLane where
  nextElement : Nat → Nat
  sum : Nat → DataBuffer
  longestPacket : Nat

structure EncoderData where
  window : EncoderPacketWindow
  subwindows : List EncoderSubwindow
  lanes : Nat → EncoderColumnLane
  longestPacket : Nat

namespace EncoderData

def initial : EncoderData := ⟨.initial, [], fun laneIndex => ⟨fun _ => laneIndex, fun _ => [], 0⟩, 0⟩

def unusedSubwindow : EncoderSubwindow := fun _ => ⟨0, 0, []⟩

def getWindowElement (d : EncoderData) (element : Nat) : OriginalPacket :=
  d.subwindows.getD (element / kSubwindowSize) unusedSubwindow (element % kSubwindowSize)

def setWindowElement (d : EncoderData) (element : Nat) (original : OriginalPacket) : EncoderData :=
  { d with subwindows := d.subwindows.modify (element / kSubwindowSize) fun subwindow =>
      Function.update subwindow (element % kSubwindowSize) original }

def appendSubwindow (d : EncoderData) : EncoderData :=
  if d.subwindows.length * kSubwindowSize ≤ d.window.count + kColumnLaneCount then
    { d with subwindows := d.subwindows ++ [unusedSubwindow] }
  else d

def startNewWindow (d : EncoderData) : EncoderData :=
  { d with
    longestPacket := 0
    lanes := fun laneIndex => { d.lanes laneIndex with longestPacket := 0 } }

def updateLongest (d : EncoderData) (laneIndex originalBytes : Nat) : EncoderData :=
  { d with
    longestPacket := max d.longestPacket originalBytes
    lanes := Function.update d.lanes laneIndex { d.lanes laneIndex with
      longestPacket := max (d.lanes laneIndex).longestPacket originalBytes } }

def add (d : EncoderData) (nowMsec : Nat) (data : Bytes) : EncoderData × SiameseResult :=
  let (window, result) := d.window.add nowMsec
  if result = .success then
    let column := d.window.nextColumn
    let element := if 0 < d.window.count then d.window.count else column % kColumnLaneCount
    let d := d.appendSubwindow
    let d := if 0 < d.window.count then d else d.startNewWindow
    let original := OriginalPacket.initialized column data
    let d := d.setWindowElement element original
    let d := d.updateLongest (column % kColumnLaneCount) original.buffer.length
    ({ d with window := window }, result)
  else (d, result)

def removeBefore (d : EncoderData) (firstKeptColumn : Nat) : EncoderData :=
  { d with window := d.window.removeBefore firstKeptColumn }

def resetSums (d : EncoderData) (elementStart : Nat) : EncoderData :=
  { d with
    window := d.window.resetSums elementStart
    lanes := fun laneIndex => { d.lanes laneIndex with
      nextElement := fun _ => getNextLaneElement elementStart laneIndex
      sum := fun _ => [] } }

def getSum (d : EncoderData) (laneIndex sumIndex elementEnd : Nat) : EncoderData × DataBuffer :=
  let lane := d.lanes laneIndex
  let element := lane.nextElement sumIndex
  if element < elementEnd then
    let n := turns element elementEnd
    let sum := (List.range n).foldl (fun sum i =>
        accumulate sumIndex sum (d.getWindowElement (element + i * kColumnLaneCount)))
      ((lane.sum sumIndex).growZeroPadded lane.longestPacket)
    let lane := { lane with
      nextElement := Function.update lane.nextElement sumIndex (element + n * kColumnLaneCount)
      sum := Function.update lane.sum sumIndex sum }
    ({ d with lanes := Function.update d.lanes laneIndex lane }, sum)
  else (d, lane.sum sumIndex)

/-- The loop of RemoveElements over the lanes and their sums, which do not touch each other. -/
def rollSums (d : EncoderData) (removedElementCount : Nat) : EncoderData :=
  { d with lanes := fun laneIndex =>
      let rolled := fun sumIndex => d.getSum laneIndex sumIndex removedElementCount
      { d.lanes laneIndex with
        nextElement := fun sumIndex =>
          ((rolled sumIndex).1.lanes laneIndex).nextElement sumIndex - removedElementCount
        sum := fun sumIndex => (rolled sumIndex).2 } }

def shiftSubwindows (d : EncoderData) (firstKeptSubwindow : Nat) : EncoderData :=
  { d with subwindows :=
      d.subwindows.drop firstKeptSubwindow ++ d.subwindows.take firstKeptSubwindow }

def findLongest (d : EncoderData) : EncoderData :=
  let elements := List.range' d.window.firstUnremovedElement
    (d.window.count - d.window.firstUnremovedElement)
  let longest := fun elements : List Nat =>
    elements.foldl (fun longest i => max longest (d.getWindowElement i).buffer.length) 0
  { d with
    longestPacket := longest elements
    lanes := fun laneIndex => { d.lanes laneIndex with
      longestPacket := longest (elements.filter (· % kColumnLaneCount = laneIndex)) } }

def removeElements (d : EncoderData) : EncoderData :=
  let firstKeptSubwindow := d.window.firstUnremovedElement / kSubwindowSize
  let removedElementCount := firstKeptSubwindow * kSubwindowSize
  let d := if d.window.sumStartElement < d.window.sumEndElement then
      d.rollSums removedElementCount else d
  let d := d.shiftSubwindows firstKeptSubwindow
  let d := { d with window := d.window.removeElements }.findLongest
  -- The window has already reset its own part of the sums when there are none.
  if d.window.sumEndElement ≤ d.window.sumStartElement then
    d.resetSums d.window.firstUnremovedElement else d

end EncoderData

def packetOf (packets : List Bytes) (n : Nat) : OriginalPacket :=
  .initialized (columnOf n) (packets.getD n [])

def naiveSum (packets : List Bytes) (laneIndex sumIndex start stop : Nat) : Nat → GF256 :=
  laneSum (fun n => some (packetOf packets n).buffer) laneIndex sumIndex start stop

theorem naiveSum_append (packets : List Bytes) (data : Bytes) {laneIndex start stop : Nat}
    (sumIndex : Nat)
    (h : ∀ n < stop, n % kColumnLaneCount = laneIndex → n < packets.length) :
    naiveSum (packets ++ [data]) laneIndex sumIndex start stop =
      naiveSum packets laneIndex sumIndex start stop := by
  refine laneSum_congr sumIndex fun n _ hn hlane => ?_
  rw [packetOf, List.getD_append _ _ _ _ (h n hn hlane)]
  rfl

namespace EncoderPacketWindow

def slid (w : EncoderPacketWindow) : EncoderPacketWindow :=
  let removedElementCount := w.firstUnremovedElement / kSubwindowSize * kSubwindowSize
  let w := if w.sumStartElement < w.sumEndElement then
      { w with
        sumErasedCount := if w.sumStartElement < removedElementCount then
          w.sumErasedCount + (removedElementCount - w.sumStartElement) else w.sumErasedCount
        sumEndElement := w.sumEndElement - removedElementCount
        sumStartElement := w.sumStartElement - removedElementCount }
    else w
  { w with
    lastSendMsec := fun element => w.lastSendMsec (element + removedElementCount)
    count := w.count - removedElementCount
    columnStart := w.elementToColumn removedElementCount
    firstUnremovedElement := w.firstUnremovedElement - removedElementCount }

theorem removeElements_eq (w : EncoderPacketWindow) : w.removeElements =
    if w.slid.sumEndElement ≤ w.slid.sumStartElement then
      w.slid.resetSums w.slid.firstUnremovedElement else w.slid := rfl

theorem slid_positions (w : EncoderPacketWindow) :
    w.slid.nextColumn = w.nextColumn ∧
      w.slid.columnStart =
        w.elementToColumn (w.firstUnremovedElement / kSubwindowSize * kSubwindowSize) ∧
      w.slid.count = w.count - w.firstUnremovedElement / kSubwindowSize * kSubwindowSize ∧
      w.slid.firstUnremovedElement =
        w.firstUnremovedElement - w.firstUnremovedElement / kSubwindowSize * kSubwindowSize ∧
      w.slid.sumColumnStart = w.sumColumnStart := by
  unfold slid
  simp only
  split <;> exact ⟨rfl, rfl, rfl, rfl, rfl⟩

theorem slid_idle {w : EncoderPacketWindow} (h : ¬w.sumStartElement < w.sumEndElement) :
    w.slid.sumEndElement ≤ w.slid.sumStartElement := by
  unfold slid
  simp only [if_neg h]
  omega

theorem removeElements_positions (w : EncoderPacketWindow) :
    w.removeElements.nextColumn = w.nextColumn ∧
      w.removeElements.columnStart =
        w.elementToColumn (w.firstUnremovedElement / kSubwindowSize * kSubwindowSize) ∧
      w.removeElements.count =
        w.count - w.firstUnremovedElement / kSubwindowSize * kSubwindowSize ∧
      w.removeElements.firstUnremovedElement =
        w.firstUnremovedElement - w.firstUnremovedElement / kSubwindowSize * kSubwindowSize := by
  obtain ⟨hn, hs, hc, hf, -⟩ := w.slid_positions
  rw [removeElements_eq]
  split
  · exact ⟨hn, hs, hc, hf⟩
  · exact ⟨hn, hs, hc, hf⟩

theorem removeElements_sums (w : EncoderPacketWindow) :
    w.removeElements.sumEndElement ≤ w.removeElements.sumStartElement ∧
        w.removeElements = w.slid.resetSums w.slid.firstUnremovedElement ∨
      ¬w.removeElements.sumEndElement ≤ w.removeElements.sumStartElement ∧
        w.removeElements = w.slid ∧ w.sumStartElement < w.sumEndElement := by
  rw [removeElements_eq]
  split
  · exact .inl ⟨Nat.le_refl _, rfl⟩
  · next hrun =>
    refine .inr ⟨hrun, rfl, ?_⟩
    by_contra hidle
    exact hrun (slid_idle hidle)

end EncoderPacketWindow

namespace EncoderData

theorem loop_padded {packets : List Bytes} {laneIndex sumIndex start base element : Nat}
    (d : EncoderData) (hsum : sumIndex < kColumnSumCount) (hstart : start ≤ base + element)
    (hlane : (base + element) % kColumnLaneCount = laneIndex) {sum : DataBuffer}
    (hpadded : sum.padded = naiveSum packets laneIndex sumIndex start (base + element)) (n : Nat)
    (hholds : ∀ i < n, d.getWindowElement (element + i * kColumnLaneCount) =
      packetOf packets (base + (element + i * kColumnLaneCount))) :
    ((List.range n).foldl (fun sum i =>
        accumulate sumIndex sum (d.getWindowElement (element + i * kColumnLaneCount))) sum).padded =
      naiveSum packets laneIndex sumIndex start (base + (element + n * kColumnLaneCount)) := by
  induction n with
  | zero => simpa using hpadded
  | succ n ih =>
    have hmod : (base + (element + n * kColumnLaneCount)) % kColumnLaneCount = laneIndex := by
      simp only [kColumnLaneCount] at hlane ⊢
      omega
    have hnext : naiveSum packets laneIndex sumIndex start
        (base + (element + n * kColumnLaneCount) + kColumnLaneCount) = _ :=
      laneSum_next sumIndex (by omega) hmod
    rw [List.range_succ, List.foldl_append, List.foldl_cons, List.foldl_nil,
      accumulate_padded hsum, ih fun i hi => hholds i (by omega), hholds n (by omega),
      show base + (element + (n + 1) * kColumnLaneCount) =
        base + (element + n * kColumnLaneCount) + kColumnLaneCount by ring, hnext]
    rfl

section Elements

theorem getWindowElement_set {d : EncoderData} {element : Nat}
    (h : element < d.subwindows.length * kSubwindowSize) (original : OriginalPacket) (e : Nat) :
    (d.setWindowElement element original).getWindowElement e =
      if e = element then original else d.getWindowElement e := by
  have hplace : element / kSubwindowSize < d.subwindows.length :=
    Nat.div_lt_of_lt_mul (by rwa [Nat.mul_comm])
  simp only [getWindowElement, setWindowElement, List.getD_eq_getElem?_getD, List.getElem?_modify]
  by_cases hdiv : element / kSubwindowSize = e / kSubwindowSize
  · simp only [hdiv, if_true]
    rw [hdiv] at hplace
    rw [List.getElem?_eq_getElem hplace]
    simp only [Option.map_eq_map, Option.map_some, Option.getD_some, Function.update_apply]
    have hiff : e % kSubwindowSize = element % kSubwindowSize ↔ e = element := by
      have h₁ := Nat.div_add_mod e kSubwindowSize
      have h₂ := Nat.div_add_mod element kSubwindowSize
      constructor
      · intro hmod
        rw [← h₁, ← h₂, hdiv, hmod]
      · rintro rfl
        rfl
    simp only [hiff]
  · have hne : e ≠ element := by
      rintro rfl
      exact hdiv rfl
    simp only [hdiv, if_false, hne, Option.map_eq_map, Option.map_id_fun', id_eq]

theorem getWindowElement_append {d : EncoderData} {e : Nat}
    (h : e < d.subwindows.length * kSubwindowSize) :
    d.appendSubwindow.getWindowElement e = d.getWindowElement e := by
  have hplace : e / kSubwindowSize < d.subwindows.length :=
    Nat.div_lt_of_lt_mul (by rwa [Nat.mul_comm])
  unfold appendSubwindow
  split
  · simp only [getWindowElement]
    rw [List.getD_append _ _ _ _ hplace]
  · rfl

theorem getWindowElement_shift {d : EncoderData} {e firstKeptSubwindow : Nat}
    (h : e + firstKeptSubwindow * kSubwindowSize < d.subwindows.length * kSubwindowSize) :
    (d.shiftSubwindows firstKeptSubwindow).getWindowElement e =
      d.getWindowElement (e + firstKeptSubwindow * kSubwindowSize) := by
  have hpos : 0 < kSubwindowSize := by decide
  have hdiv : (e + firstKeptSubwindow * kSubwindowSize) / kSubwindowSize =
      firstKeptSubwindow + e / kSubwindowSize := by
    rw [Nat.add_mul_div_right _ _ hpos, Nat.add_comm]
  have hplace : firstKeptSubwindow + e / kSubwindowSize < d.subwindows.length := by
    rw [← hdiv, Nat.div_lt_iff_lt_mul hpos]
    exact h
  simp only [getWindowElement, shiftSubwindows, hdiv, Nat.add_mul_mod_self_right]
  rw [List.getD_append _ _ _ _ (by rw [List.length_drop]; omega), List.getD_eq_getElem?_getD,
    List.getElem?_drop, ← List.getD_eq_getElem?_getD]

end Elements

/-- The window after all of `packets` were added: element 0 stands for the packet `base`, and the
packets from `first` on, which started the window, are in their places. -/
structure Holds (d : EncoderData) (packets : List Bytes) (base first : Nat) : Prop where
  nextColumn_eq : d.window.nextColumn = columnOf packets.length
  columnStart_eq : d.window.columnStart = columnOf base
  base_mod : base % kColumnLaneCount = 0
  count_le : d.window.count ≤ siameseMaxPackets
  count_eq : 0 < d.window.count → base + d.window.count = packets.length
  first_lt : 0 < d.window.count → d.window.firstUnremovedElement < d.window.count
  first_le : 0 < d.window.count → first ≤ base + d.window.firstUnremovedElement
  room : 0 < d.window.count → d.window.count + 7 < d.subwindows.length * kSubwindowSize
  contents : ∀ e < d.window.count, first ≤ base + e →
    d.getWindowElement e = packetOf packets (base + e)

theorem holds_initial : initial.Holds [] 0 0 :=
  ⟨rfl, rfl, rfl, Nat.zero_le _, nofun, nofun, nofun, nofun, nofun⟩

theorem getSum_window (d : EncoderData) (laneIndex sumIndex elementEnd : Nat) :
    (d.getSum laneIndex sumIndex elementEnd).1.window = d.window ∧
      (d.getSum laneIndex sumIndex elementEnd).1.subwindows = d.subwindows := by
  unfold getSum
  simp only
  split <;> exact ⟨rfl, rfl⟩

theorem Holds.of_eq {d d' : EncoderData} {packets : List Bytes} {base first : Nat}
    (h : d.Holds packets base first) (hnext : d'.window.nextColumn = d.window.nextColumn)
    (hcolumn : d'.window.columnStart = d.window.columnStart)
    (hcount : d'.window.count = d.window.count)
    (hfirst : d'.window.firstUnremovedElement = d.window.firstUnremovedElement)
    (hsub : d'.subwindows = d.subwindows) : d'.Holds packets base first := by
  refine ⟨hnext ▸ h.nextColumn_eq, hcolumn ▸ h.columnStart_eq, h.base_mod, hcount ▸ h.count_le,
    hcount ▸ h.count_eq, ?_, ?_, ?_, ?_⟩
  · rw [hcount, hfirst]
    exact h.first_lt
  · rw [hcount, hfirst]
    exact h.first_le
  · rw [hcount, hsub]
    exact h.room
  · rw [hcount]
    intro e he hle
    rw [getWindowElement, hsub]
    exact h.contents e he hle

theorem Holds.getSum {d : EncoderData} {packets : List Bytes} {base first : Nat}
    (h : d.Holds packets base first) (laneIndex sumIndex elementEnd : Nat) :
    (d.getSum laneIndex sumIndex elementEnd).1.Holds packets base first := by
  obtain ⟨hwindow, hsub⟩ := d.getSum_window laneIndex sumIndex elementEnd
  exact h.of_eq (by rw [hwindow]) (by rw [hwindow]) (by rw [hwindow]) (by rw [hwindow]) hsub

theorem Holds.removeBefore {d : EncoderData} {packets : List Bytes} {base first : Nat}
    (h : d.Holds packets base first) (firstKeptColumn : Nat) :
    (d.removeBefore firstKeptColumn).Holds packets base first := by
  unfold EncoderData.removeBefore EncoderPacketWindow.removeBefore
  simp only
  split
  · split
    · exact h
    · exact ⟨h.nextColumn_eq, h.columnStart_eq, h.base_mod, Nat.zero_le _, nofun, nofun, nofun,
        nofun, nofun⟩
  · next hin =>
    split
    · next hless =>
      refine ⟨h.nextColumn_eq, h.columnStart_eq, h.base_mod, h.count_le, h.count_eq,
        fun _ => by simp only; omega, fun hpos => ?_, h.room, h.contents⟩
      have hle := h.first_le hpos
      simp only
      omega
    · exact h

def SameSums (d d' : EncoderData) : Prop :=
  ∀ laneIndex, (d'.lanes laneIndex).nextElement = (d.lanes laneIndex).nextElement ∧
    (d'.lanes laneIndex).sum = (d.lanes laneIndex).sum

theorem updateLongest_sameSums (d : EncoderData) (laneIndex originalBytes : Nat) :
    d.SameSums (d.updateLongest laneIndex originalBytes) := by
  intro l
  by_cases h : l = laneIndex
  · subst h
    simp only [updateLongest, Function.update_self, and_self]
  · simp only [updateLongest, Function.update_of_ne h, and_self]

theorem appendSubwindow_lanes (d : EncoderData) : d.appendSubwindow.lanes = d.lanes := by
  unfold appendSubwindow
  split <;> rfl

theorem appendSubwindow_window (d : EncoderData) : d.appendSubwindow.window = d.window := by
  unfold appendSubwindow
  split <;> rfl

theorem add_success {d : EncoderData} {nowMsec : Nat} (data : Bytes)
    (hok : (d.window.add nowMsec).2 = .success)
    {element : Nat} (helement : element =
      if 0 < d.window.count then d.window.count else d.window.nextColumn % kColumnLaneCount) :
    (d.add nowMsec data).2 = .success ∧
      (d.add nowMsec data).1.window = (d.window.add nowMsec).1 ∧
      (d.add nowMsec data).1.subwindows = (d.appendSubwindow.setWindowElement element
        (.initialized d.window.nextColumn data)).subwindows ∧
      d.SameSums (d.add nowMsec data).1 := by
  unfold add
  simp only [hok, if_true, ← helement, appendSubwindow_window]
  refine ⟨trivial, trivial, ?_, fun laneIndex => ?_⟩
  · split <;> rfl
  · have hstep := updateLongest_sameSums ((if 0 < d.window.count then d.appendSubwindow else
      d.appendSubwindow.startNewWindow).setWindowElement element
      (.initialized d.window.nextColumn data)) (d.window.nextColumn % kColumnLaneCount)
      (OriginalPacket.initialized d.window.nextColumn data).buffer.length laneIndex
    have hlane := congrFun d.appendSubwindow_lanes laneIndex
    have hnext := congrArg EncoderColumnLane.nextElement hlane
    have hsum := congrArg EncoderColumnLane.sum hlane
    refine ⟨hstep.1.trans ?_, hstep.2.trans ?_⟩
    · split
      · exact hnext
      · exact hnext
    · split
      · exact hsum
      · exact hsum

theorem getWindowElement_add {d : EncoderData} {element : Nat} (original : OriginalPacket)
    (hroom : element < d.appendSubwindow.subwindows.length * kSubwindowSize) {e : Nat}
    (he : e < d.subwindows.length * kSubwindowSize ∨ e = element) :
    (d.appendSubwindow.setWindowElement element original).getWindowElement e =
      if e = element then original else d.getWindowElement e := by
  rw [getWindowElement_set hroom]
  split
  · rfl
  · next hne => exact getWindowElement_append (he.resolve_right hne)

theorem appendSubwindow_room {d : EncoderData} (h : 0 < d.window.count →
    d.window.count + 7 < d.subwindows.length * kSubwindowSize) :
    d.window.count + kColumnLaneCount < d.appendSubwindow.subwindows.length * kSubwindowSize ∧
      d.subwindows.length ≤ d.appendSubwindow.subwindows.length := by
  unfold appendSubwindow
  split
  · next hfull =>
    simp only [List.length_append, List.length_singleton, kSubwindowSize, kColumnLaneCount] at *
    omega
  · next hfree => exact ⟨Nat.lt_of_not_le hfree, Nat.le_refl _⟩

theorem setWindowElement_length (d : EncoderData) (element : Nat) (original : OriginalPacket) :
    (d.setWindowElement element original).subwindows.length = d.subwindows.length :=
  List.length_modify _ _ _

theorem packetOf_append_length (packets : List Bytes) (data : Bytes) :
    packetOf (packets ++ [data]) packets.length =
      .initialized (columnOf packets.length) data := by
  simp [packetOf]

theorem packetOf_append_of_lt (packets : List Bytes) (data : Bytes) {n : Nat}
    (h : n < packets.length) : packetOf (packets ++ [data]) n = packetOf packets n := by
  rw [packetOf, List.getD_append _ _ _ _ h]
  rfl

theorem Holds.add {d : EncoderData} {packets : List Bytes} {base first : Nat}
    (h : d.Holds packets base first) (hpos : 0 < d.window.count) {nowMsec : Nat} (data : Bytes)
    (hok : (d.window.add nowMsec).2 = .success) :
    (d.add nowMsec data).1.Holds (packets ++ [data]) base first := by
  obtain ⟨-, hwindow, hsub, -⟩ := add_success data hok rfl
  rw [if_pos hpos] at hsub
  obtain ⟨hroom, -⟩ := appendSubwindow_room h.room
  have hcount := h.count_eq hpos
  have hfirst := h.first_lt hpos
  have hold := h.room hpos
  have hadded : (d.window.add nowMsec).1.count = d.window.count + 1 ∧
      (d.window.add nowMsec).1.columnStart = d.window.columnStart ∧
      (d.window.add nowMsec).1.firstUnremovedElement = d.window.firstUnremovedElement ∧
      (d.window.add nowMsec).1.nextColumn = incrementColumn1 d.window.nextColumn ∧
      d.window.count + 1 ≤ siameseMaxPackets := by
    unfold EncoderPacketWindow.add at hok ⊢
    split at hok
    · exact absurd hok (by simp)
    · next hfree =>
      rw [if_neg hfree]
      simp only [hpos, if_true, EncoderPacketWindow.getRemainingSlots, true_and] at hfree ⊢
      omega
  obtain ⟨hc, hs, hf, hn, hmax⟩ := hadded
  rw [← hwindow] at hc hs hf hn
  refine ⟨?_, ?_, h.base_mod, ?_, fun _ => ?_, fun _ => ?_, fun _ => ?_, fun _ => ?_, ?_⟩
  · rw [hn, h.nextColumn_eq, incrementColumn1_columnOf, List.length_append, List.length_singleton]
  · rw [hs]
    exact h.columnStart_eq
  · rw [hc]
    exact hmax
  · rw [hc, List.length_append, List.length_singleton]
    omega
  · rw [hc, hf]
    omega
  · rw [hf]
    exact h.first_le hpos
  · rw [hc, hsub, setWindowElement_length]
    simp only [kColumnLaneCount] at hroom
    omega
  · intro e he hle
    rw [hc] at he
    rw [getWindowElement, hsub]
    refine (getWindowElement_add _ (by omega) (by omega)).trans ?_
    split
    · next heq =>
      subst heq
      rw [hcount, packetOf_append_length, h.nextColumn_eq]
    · rw [packetOf_append_of_lt packets data (by omega)]
      exact h.contents e (by omega) hle

theorem Holds.add_empty {d : EncoderData} {packets : List Bytes} {base first : Nat}
    (h : d.Holds packets base first) (hempty : d.window.count = 0) {nowMsec : Nat} (data : Bytes)
    (hok : (d.window.add nowMsec).2 = .success) :
    (d.add nowMsec data).1.Holds (packets ++ [data])
      (packets.length - packets.length % kColumnLaneCount) packets.length := by
  obtain ⟨-, hwindow, hsub, -⟩ := add_success data hok rfl
  rw [if_neg (by omega)] at hsub
  obtain ⟨hroom, -⟩ := appendSubwindow_room h.room
  obtain ⟨-, hholding, hfirst⟩ :=
    EncoderPacketWindow.add_empty hempty h.nextColumn_eq nowMsec
  rw [← hwindow] at hholding hfirst
  have hlane : d.window.nextColumn % kColumnLaneCount = packets.length % kColumnLaneCount := by
    rw [h.nextColumn_eq]
    exact Nat.mod_mod_of_dvd _ (by decide)
  have hcount := hholding.count_eq
  have hmod : packets.length % kColumnLaneCount < kColumnLaneCount := Nat.mod_lt _ (by decide)
  have hmodle : packets.length % kColumnLaneCount ≤ packets.length := Nat.mod_le _ _
  rw [hlane] at hsub
  simp only [kColumnLaneCount] at hroom hmod hmodle hcount hfirst hsub
  refine ⟨?_, hholding.columnStart_eq, ?_, hholding.count_le, fun _ => ?_, fun _ => hholding.first_lt,
    fun _ => ?_, fun _ => ?_, fun e he hle => ?_⟩
  · rw [hholding.nextColumn_eq, List.length_append, List.length_singleton]
  · simp only [kColumnLaneCount]
    omega
  · rw [List.length_append, List.length_singleton, kColumnLaneCount]
    omega
  · rw [hfirst, kColumnLaneCount]
    omega
  · rw [hsub, setWindowElement_length]
    simp only [kSubwindowSize, kColumnLaneCount] at hroom ⊢
    omega
  · obtain rfl : e = packets.length % 8 := by
      rw [kColumnLaneCount] at hle
      omega
    rw [getWindowElement, hsub]
    refine (getWindowElement_add _ (by omega) (.inr rfl)).trans ?_
    rw [if_pos rfl, kColumnLaneCount, Nat.sub_add_cancel hmodle, packetOf_append_length,
      h.nextColumn_eq]

theorem removeElements_subwindows (d : EncoderData) : d.removeElements.subwindows =
    (d.shiftSubwindows (d.window.firstUnremovedElement / kSubwindowSize)).subwindows := by
  unfold removeElements
  simp only
  split
  · split <;> rfl
  · split <;> rfl

theorem removeElements_window (d : EncoderData) :
    d.removeElements.window = d.window.removeElements := by
  have hreset : d.window.removeElements.sumEndElement ≤ d.window.removeElements.sumStartElement →
      d.window.removeElements.resetSums d.window.removeElements.firstUnremovedElement =
        d.window.removeElements := by
    intro hstop
    rcases d.window.removeElements_sums with ⟨-, heq⟩ | ⟨hrun, -⟩
    · rw [heq]
      rfl
    · exact absurd hstop hrun
  unfold removeElements
  simp only
  split
  · split
    · next hstop => exact hreset hstop
    · rfl
  · split
    · next hstop => exact hreset hstop
    · rfl

theorem Holds.removeElements {d : EncoderData} {packets : List Bytes} {base first : Nat}
    (h : d.Holds packets base first) (hpos : 0 < d.window.count) :
    d.removeElements.Holds packets
      (base + d.window.firstUnremovedElement / kSubwindowSize * kSubwindowSize) first := by
  have hcount := h.count_eq hpos
  have hfirst := h.first_lt hpos
  have hle := h.first_le hpos
  have hroom := h.room hpos
  have hmax := h.count_le
  have hsub := d.removeElements_subwindows
  have hremoved : d.window.firstUnremovedElement / kSubwindowSize * kSubwindowSize ≤
      d.window.firstUnremovedElement := Nat.div_mul_le_self _ _
  obtain ⟨hn, hs, hc, hf⟩ := d.window.removeElements_positions
  rw [← removeElements_window] at hn hs hc hf
  refine ⟨?_, ?_, ?_, ?_, fun _ => ?_, fun _ => ?_, fun _ => ?_, fun _ => ?_, ?_⟩
  · rw [hn]
    exact h.nextColumn_eq
  · rw [hs, EncoderPacketWindow.elementToColumn, h.columnStart_eq, addColumns_columnOf_right]
  · have hmod := h.base_mod
    simp only [kSubwindowSize, kColumnLaneCount] at hmod ⊢
    omega
  · rw [hc]
    omega
  · rw [hc]
    omega
  · rw [hc, hf]
    omega
  · rw [hf]
    omega
  · have hlength : d.removeElements.subwindows.length = d.subwindows.length := by
      simp only [hsub, shiftSubwindows, List.length_append, List.length_drop, List.length_take]
      omega
    rw [hc, hlength]
    omega
  · intro e he hle'
    rw [hc] at he
    rw [getWindowElement, hsub]
    refine (getWindowElement_shift (by omega)).trans ?_
    rw [h.contents _ (by omega) (by omega)]
    congr 1
    omega

/-- A sum of a lane that has been made up to its next element. -/
structure SumUpTo (packets : List Bytes) (base start laneIndex sumIndex next : Nat)
    (sum : DataBuffer) : Prop where
  lane_eq : next % kColumnLaneCount = laneIndex
  start_le : start ≤ base + next
  padded_eq : sum.padded = naiveSum packets laneIndex sumIndex start (base + next)

theorem getSum_other (d : EncoderData) {laneIndex sumIndex l i : Nat} (elementEnd : Nat)
    (h : l ≠ laneIndex ∨ i ≠ sumIndex) :
    ((d.getSum laneIndex sumIndex elementEnd).1.lanes l).nextElement i =
        (d.lanes l).nextElement i ∧
      ((d.getSum laneIndex sumIndex elementEnd).1.lanes l).sum i = (d.lanes l).sum i := by
  unfold getSum
  simp only
  split
  · by_cases hl : l = laneIndex
    · subst hl
      have hi : i ≠ sumIndex := h.resolve_left fun hne => hne rfl
      simp only [Function.update_self, Function.update_of_ne hi, and_self]
    · simp only [Function.update_of_ne hl, and_self]
  · exact ⟨rfl, rfl⟩

theorem getSum_sum (d : EncoderData) (laneIndex sumIndex elementEnd : Nat) :
    ((d.getSum laneIndex sumIndex elementEnd).1.lanes laneIndex).sum sumIndex =
      (d.getSum laneIndex sumIndex elementEnd).2 := by
  unfold getSum
  simp only
  split
  · simp only [Function.update_self]
  · rfl

theorem getSum_next (d : EncoderData) (laneIndex sumIndex elementEnd : Nat) :
    (d.lanes laneIndex).nextElement sumIndex < elementEnd ∧
        elementEnd ≤
          ((d.getSum laneIndex sumIndex elementEnd).1.lanes laneIndex).nextElement sumIndex ∧
        ((d.getSum laneIndex sumIndex elementEnd).1.lanes laneIndex).nextElement sumIndex <
          elementEnd + kColumnLaneCount ∨
      elementEnd ≤ (d.lanes laneIndex).nextElement sumIndex ∧
        ((d.getSum laneIndex sumIndex elementEnd).1.lanes laneIndex).nextElement sumIndex =
          (d.lanes laneIndex).nextElement sumIndex := by
  unfold getSum
  simp only
  split
  · next hless =>
    obtain ⟨hle, hlt⟩ := turns_spec hless
    refine .inl ⟨hless, ?_⟩
    simp only [Function.update_self]
    exact ⟨hle, hlt⟩
  · next hnot => exact .inr ⟨Nat.le_of_not_lt hnot, rfl⟩

theorem SumUpTo.getSum {d : EncoderData} {packets : List Bytes} {base first start : Nat}
    (hholds : d.Holds packets base first) (hfirst : first ≤ start) {laneIndex sumIndex : Nat}
    (hsum : sumIndex < kColumnSumCount)
    (h : SumUpTo packets base start laneIndex sumIndex ((d.lanes laneIndex).nextElement sumIndex)
      ((d.lanes laneIndex).sum sumIndex)) {elementEnd : Nat} (hend : elementEnd ≤ d.window.count) :
    SumUpTo packets base start laneIndex sumIndex
      (((d.getSum laneIndex sumIndex elementEnd).1.lanes laneIndex).nextElement sumIndex)
      (d.getSum laneIndex sumIndex elementEnd).2 := by
  obtain ⟨hlane, hstart, hpadded⟩ := h
  unfold EncoderData.getSum
  simp only
  split
  · next hless =>
    have hmod := hholds.base_mod
    have hlane' : (base + (d.lanes laneIndex).nextElement sumIndex) % kColumnLaneCount =
        laneIndex := by
      simp only [kColumnLaneCount] at hlane hmod ⊢
      omega
    obtain ⟨-, hstop⟩ := turns_spec hless
    simp only [Function.update_self]
    refine ⟨?_, by omega, ?_⟩
    · rw [Nat.add_mul_mod_self_right, hlane]
    · refine loop_padded d hsum hstart hlane' ?_ _ fun i hi => ?_
      · rw [DataBuffer.padded_growZeroPadded, hpadded]
      · have hturn : i * kColumnLaneCount + kColumnLaneCount ≤
            turns ((d.lanes laneIndex).nextElement sumIndex) elementEnd * kColumnLaneCount := by
          rw [← Nat.succ_mul]
          exact Nat.mul_le_mul_right _ hi
        exact hholds.contents _ (by omega) (by omega)
  · exact ⟨hlane, hstart, hpadded⟩

structure SumsFrom (d : EncoderData) (packets : List Bytes) (base first start : Nat) : Prop where
  column_eq : d.window.sumColumnStart = columnOf start
  first_le : first ≤ start
  sums : ∀ laneIndex < kColumnLaneCount, ∀ sumIndex < kColumnSumCount,
    SumUpTo packets base start laneIndex sumIndex ((d.lanes laneIndex).nextElement sumIndex)
      ((d.lanes laneIndex).sum sumIndex)
  next_lt : 0 < d.window.count ∨ packets = [] → ∀ laneIndex < kColumnLaneCount,
    ∀ sumIndex < kColumnSumCount,
      (d.lanes laneIndex).nextElement sumIndex < d.window.count + kColumnLaneCount

theorem sumsFrom_initial : initial.SumsFrom [] 0 0 0 := by
  refine ⟨rfl, Nat.le_refl 0, fun laneIndex hlane sumIndex _ => ?_, fun _ laneIndex hlane _ _ => ?_⟩
  · refine ⟨Nat.mod_eq_of_lt hlane, Nat.zero_le _, ?_⟩
    refine (laneSum_eq_zero _ sumIndex fun n _ hn => ?_).symm
    have hle := Nat.mod_le n kColumnLaneCount
    simp only [initial]
    omega
  · exact Nat.lt_of_lt_of_le hlane (Nat.le_add_left _ _)

theorem SumsFrom.getSum {d : EncoderData} {packets : List Bytes} {base first start : Nat}
    (h : d.SumsFrom packets base first start) (hholds : d.Holds packets base first)
    {laneIndex sumIndex elementEnd : Nat} (hend : elementEnd ≤ d.window.count) :
    (d.getSum laneIndex sumIndex elementEnd).1.SumsFrom packets base first start := by
  obtain ⟨hwindow, -⟩ := d.getSum_window laneIndex sumIndex elementEnd
  refine ⟨by rw [hwindow]; exact h.column_eq, h.first_le, fun l hl i hi => ?_, ?_⟩
  · by_cases hsame : l = laneIndex ∧ i = sumIndex
    · obtain ⟨rfl, rfl⟩ := hsame
      rw [getSum_sum]
      exact (h.sums l hl i hi).getSum hholds h.first_le hi hend
    · obtain ⟨hnext, hsum⟩ := d.getSum_other elementEnd (l := l) (i := i) (by tauto)
      rw [hnext, hsum]
      exact h.sums l hl i hi
  · rw [hwindow]
    intro hlive l hl i hi
    have hold := h.next_lt hlive l hl i hi
    by_cases hsame : l = laneIndex ∧ i = sumIndex
    · obtain ⟨rfl, rfl⟩ := hsame
      rcases d.getSum_next l i elementEnd with ⟨-, -, hlt⟩ | ⟨-, heq⟩
      · omega
      · rw [heq]
        exact hold
    · obtain ⟨hnext, -⟩ := d.getSum_other elementEnd (l := l) (i := i) (by tauto)
      rw [hnext]
      exact hold

theorem SumsFrom.removeBefore {d : EncoderData} {packets : List Bytes} {base first start : Nat}
    (h : d.SumsFrom packets base first start) (firstKeptColumn : Nat)
    (hsome : 0 < d.window.count → packets ≠ []) :
    (d.removeBefore firstKeptColumn).SumsFrom packets base first start := by
  unfold EncoderData.removeBefore EncoderPacketWindow.removeBefore
  simp only
  split
  · split
    · exact h
    · refine ⟨h.column_eq, h.first_le, h.sums, fun hlive => ?_⟩
      have hnil : packets = [] := hlive.resolve_left (Nat.lt_irrefl 0)
      have hcount : d.window.count = 0 := by
        by_contra hne
        exact hsome (Nat.pos_of_ne_zero hne) hnil
      have hlt := h.next_lt (.inr hnil)
      rw [hcount] at hlt
      exact hlt
  · split
    · exact ⟨h.column_eq, h.first_le, h.sums, h.next_lt⟩
    · exact h

theorem Holds.resetSums {d : EncoderData} {packets : List Bytes} {base first : Nat}
    (h : d.Holds packets base first) (elementStart : Nat) :
    (d.resetSums elementStart).Holds packets base first := h.of_eq rfl rfl rfl rfl rfl

theorem Holds.sumsFrom_resetSums {d : EncoderData} {packets : List Bytes} {base first : Nat}
    (h : d.Holds packets base first) {elementStart : Nat} (hstart : elementStart < d.window.count)
    (hfirst : first ≤ base + elementStart) :
    (d.resetSums elementStart).SumsFrom packets base first (base + elementStart) := by
  have hmod := h.base_mod
  refine ⟨?_, hfirst, fun laneIndex hlane sumIndex _ => ?_, fun _ laneIndex hlane sumIndex _ => ?_⟩
  · simp only [EncoderData.resetSums, EncoderPacketWindow.resetSums,
      EncoderPacketWindow.elementToColumn, h.columnStart_eq, addColumns_columnOf_right]
  · obtain ⟨hle, hlt, heq⟩ := getNextLaneElement_spec elementStart hlane
    refine ⟨heq, Nat.add_le_add_left hle _, ?_⟩
    refine (laneSum_eq_zero _ sumIndex fun n hn hlane' => ?_).symm
    simp only [EncoderData.resetSums, kColumnLaneCount] at *
    omega
  · obtain ⟨-, hlt, -⟩ := getNextLaneElement_spec elementStart hlane
    have hle : getNextLaneElement elementStart laneIndex <
        d.window.count + kColumnLaneCount := by omega
    exact hle

theorem add_sumColumnStart {w : EncoderPacketWindow} (nowMsec : Nat) :
    (w.add nowMsec).1.sumColumnStart = w.sumColumnStart ∧
      ((w.add nowMsec).2 = .success → w.count < (w.add nowMsec).1.count) := by
  unfold EncoderPacketWindow.add
  split
  · exact ⟨rfl, nofun⟩
  · by_cases hpos : 0 < w.count
    · simp only [hpos, if_true]
      exact ⟨trivial, fun _ => Nat.lt_succ_self _⟩
    · simp only [hpos, if_false, EncoderPacketWindow.startNewWindow]
      exact ⟨trivial, fun _ => by omega⟩

theorem SumsFrom.add {d : EncoderData} {packets : List Bytes} {base first start : Nat}
    (h : d.SumsFrom packets base first start) (hmod : base % kColumnLaneCount = 0)
    (hlive : 0 < d.window.count ∨ packets = []) (hcount : base + d.window.count = packets.length)
    {nowMsec : Nat} (data : Bytes) (hok : (d.window.add nowMsec).2 = .success) :
    (d.add nowMsec data).1.SumsFrom (packets ++ [data]) base first start := by
  obtain ⟨-, hwindow, -, hsame⟩ := add_success data hok rfl
  obtain ⟨hcolumn, hmore⟩ := add_sumColumnStart (w := d.window) nowMsec
  refine ⟨?_, h.first_le, fun l hl i hi => ?_, fun _ l hl i hi => ?_⟩
  · rw [hwindow, hcolumn]
    exact h.column_eq
  · obtain ⟨hlane, hstart, hpadded⟩ := h.sums l hl i hi
    have hlt := h.next_lt hlive l hl i hi
    rw [(hsame l).1, (hsame l).2]
    refine ⟨hlane, hstart, ?_⟩
    rw [naiveSum_append packets data i fun n hn hlane' => ?_]
    · exact hpadded
    · simp only [kColumnLaneCount] at *
      omega
  · have hlt := h.next_lt hlive l hl i hi
    have hgrown := hmore hok
    rw [(hsame l).1, hwindow]
    omega

theorem removeElements_sums (d : EncoderData) :
    d.removeElements.window.sumEndElement ≤ d.removeElements.window.sumStartElement ∧
        d.removeElements.resetSums d.removeElements.window.firstUnremovedElement =
          d.removeElements ∨
      ¬d.removeElements.window.sumEndElement ≤ d.removeElements.window.sumStartElement ∧
        (d.rollSums (d.window.firstUnremovedElement / kSubwindowSize * kSubwindowSize)).SameSums
          d.removeElements ∧
        d.removeElements.window.sumColumnStart = d.window.sumColumnStart := by
  rw [removeElements_window]
  obtain ⟨-, -, -, -, hcolumn⟩ := d.window.slid_positions
  rcases d.window.removeElements_sums with ⟨hstop, -⟩ | ⟨hgo, heq, hrun⟩
  · refine .inl ⟨hstop, ?_⟩
    have hlast : ∃ d' : EncoderData, d'.window = d.window.removeElements ∧
        d.removeElements = d'.resetSums d'.window.firstUnremovedElement := by
      unfold removeElements
      simp only
      split
      · exact ⟨_, rfl, if_pos hstop⟩
      · exact ⟨_, rfl, if_pos hstop⟩
    obtain ⟨d', hwindow, hreset⟩ := hlast
    rw [hreset, ← hwindow]
    rfl
  · refine .inr ⟨hgo, ?_, by rw [heq, hcolumn]⟩
    unfold removeElements
    simp only [if_pos hrun]
    split
    · next hstop => exact absurd hstop hgo
    · exact fun _ => ⟨rfl, rfl⟩

theorem Holds.sumsFrom_removeElements {d : EncoderData} {packets : List Bytes} {base first : Nat}
    (h : d.Holds packets base first) (hpos : 0 < d.window.count)
    (hstop : d.removeElements.window.sumEndElement ≤ d.removeElements.window.sumStartElement) :
    d.removeElements.SumsFrom packets
      (base + d.window.firstUnremovedElement / kSubwindowSize * kSubwindowSize) first
      (base + d.window.firstUnremovedElement) := by
  have hafter := h.removeElements hpos
  have hfirst := h.first_lt hpos
  obtain ⟨-, -, hc, hf⟩ := d.window.removeElements_positions
  rw [← removeElements_window] at hc hf
  have hremoved : d.window.firstUnremovedElement / kSubwindowSize * kSubwindowSize ≤
      d.window.firstUnremovedElement := Nat.div_mul_le_self _ _
  have hlive : 0 < d.removeElements.window.count := by omega
  rcases d.removeElements_sums with ⟨-, hreset⟩ | ⟨hgo, -⟩
  · have hsums := hafter.sumsFrom_resetSums (hafter.first_lt hlive) (hafter.first_le hlive)
    rw [hreset, hf] at hsums
    rwa [show base + d.window.firstUnremovedElement =
      base + d.window.firstUnremovedElement / kSubwindowSize * kSubwindowSize +
        (d.window.firstUnremovedElement -
          d.window.firstUnremovedElement / kSubwindowSize * kSubwindowSize) by omega]
  · exact absurd hstop hgo

theorem SumsFrom.removeElements {d : EncoderData} {packets : List Bytes} {base first start : Nat}
    (h : d.SumsFrom packets base first start) (hholds : d.Holds packets base first)
    (hpos : 0 < d.window.count)
    (hrun : ¬d.removeElements.window.sumEndElement ≤ d.removeElements.window.sumStartElement) :
    d.removeElements.SumsFrom packets
      (base + d.window.firstUnremovedElement / kSubwindowSize * kSubwindowSize) first start := by
  have hfirst := hholds.first_lt hpos
  obtain ⟨-, -, hc, -⟩ := d.window.removeElements_positions
  rw [← removeElements_window] at hc
  have hremoved : d.window.firstUnremovedElement / kSubwindowSize * kSubwindowSize ≤
      d.window.firstUnremovedElement := Nat.div_mul_le_self _ _
  have hlanes : d.window.firstUnremovedElement / kSubwindowSize * kSubwindowSize %
      kColumnLaneCount = 0 := by
    simp only [kSubwindowSize, kColumnLaneCount]
    omega
  rcases d.removeElements_sums with ⟨hstop, -⟩ | ⟨-, hsame, hcolumn⟩
  · exact absurd hstop hrun
  · generalize d.window.firstUnremovedElement / kSubwindowSize * kSubwindowSize = removed at *
    have hnext : ∀ l i, removed ≤ ((d.getSum l i removed).1.lanes l).nextElement i := fun l i => by
      rcases d.getSum_next l i removed with ⟨-, hle, -⟩ | ⟨hle, heq⟩
      · exact hle
      · rw [heq]
        exact hle
    refine ⟨by rw [hcolumn]; exact h.column_eq, h.first_le, fun l hl i hi => ?_,
      fun _ l hl i hi => ?_⟩
    · have hle := hnext l i
      have hin : removed ≤ d.window.count := by omega
      obtain ⟨hlane, hstart, hpadded⟩ := (h.sums l hl i hi).getSum hholds h.first_le hi hin
      rw [(hsame l).1, (hsame l).2]
      have hback : base + removed + (((d.getSum l i removed).1.lanes l).nextElement i - removed) =
          base + ((d.getSum l i removed).1.lanes l).nextElement i := by omega
      refine ⟨?_, ?_, ?_⟩
      · simp only [rollSums]
        simp only [kColumnLaneCount] at *
        omega
      · simp only [rollSums]
        omega
      · simp only [rollSums]
        rw [hback]
        exact hpadded
    · have hle := hnext l i
      have hold := h.next_lt (.inl hpos) l hl i hi
      rw [(hsame l).1, hc]
      simp only [rollSums]
      rcases d.getSum_next l i removed with ⟨-, -, hlt⟩ | ⟨-, heq⟩
      · omega
      · omega

end EncoderData

end Tonk.Siamese
