import Tonk.Siamese.DecoderWindow
import Tonk.Siamese.EncoderWindow
import Tonk.Siamese.Serializers

set_option autoImplicit false

namespace Tonk.Siamese
open Protocol Search Serial

namespace DecoderPacketWindow

variable {α : Type}

def writeLossRanges (w : DecoderPacketWindow α) (rangeOffset byteLimit : Nat) : Bytes :=
  if _h : kMaxLossRangeFieldBytes ≤ byteLimit then
    let rangeStart := w.findNextLostElement rangeOffset
    if w.count ≤ rangeStart then
      if rangeOffset ≤ w.count then serializeHeaderNACKLossRange (w.count - rangeOffset) 0 else []
    else
      let rangeEnd := w.findNextGotElement (rangeStart + 1)
      let range := serializeHeaderNACKLossRange (rangeStart - rangeOffset)
        (rangeEnd - rangeStart - 1)
      range ++ w.writeLossRanges (rangeEnd + 1) (byteLimit - range.length)
  else []
termination_by byteLimit
decreasing_by
  have hpos := serializeHeaderNACKLossRange_pos (w.findNextLostElement rangeOffset - rangeOffset)
    (w.findNextGotElement (w.findNextLostElement rangeOffset + 1) -
      w.findNextLostElement rangeOffset - 1)
  simp only [kMaxLossRangeFieldBytes] at _h
  omega

/-- Nothing for Siamese_NeedMoreData. The byte limit is unsigned: it wraps when the packet number
does not fit. -/
def generateAcknowledgement (w : DecoderPacketWindow α) (byteLimit : Nat) : Option Bytes :=
  if w.count = 0 then none
  else
    let header := serializeHeaderPacketNum (w.elementToColumn w.nextExpectedElement)
    let byteLimit := (byteLimit + 2 ^ 32 - header.length) % 2 ^ 32
    if w.invalidElement w.nextExpectedElement then some header
    else some (header ++ w.writeLossRanges w.nextExpectedElement byteLimit)

end DecoderPacketWindow

/-- `data` is the first DataBytes bytes of Data, `hasData` says that Data has been allocated. The
estimate of the round trip time is left out. -/
structure EncoderAcknowledgementState where
  data : Bytes
  hasData : Bool
  offset : Nat
  lossColumn : Nat
  lossCount : Nat
  nextColumnExpected : Nat
  nextRTOColumn : Nat

namespace EncoderAcknowledgementState

def initial : EncoderAcknowledgementState := ⟨[], false, 0, 0, 0, 0, 0⟩

def kPaddingBytes : Nat := 8

def padding : Bytes := List.replicate kPaddingBytes 0

def decodeNextRange (s : EncoderAcknowledgementState) : EncoderAcknowledgementState × Bool :=
  if s.data.length ≤ s.offset then (s, false)
  else
    match deserializeHeaderNACKLossRange ((s.data ++ padding).drop s.offset) with
    | none => (s, false)
    | some range =>
      let s := { s with offset := s.offset + range.bytes }
      if s.data.length < s.offset then (s, false)
      else
        ({ s with
          lossColumn := addColumns s.lossColumn range.relativeStart
          lossCount := range.lossCountM1 + 1 }, true)

def takeLossColumn (s : EncoderAcknowledgementState) :
    EncoderAcknowledgementState × Option Nat :=
  ({ s with
    lossColumn := incrementColumn1 s.lossColumn
    lossCount := s.lossCount - 1 }, some s.lossColumn)

def getNextLossColumn (s : EncoderAcknowledgementState) :
    EncoderAcknowledgementState × Option Nat :=
  if s.lossCount ≤ 0 then
    match { s with lossColumn := incrementColumn1 s.lossColumn }.decodeNextRange with
    | (s, false) => (s, none)
    | (s, true) => s.takeLossColumn
  else s.takeLossColumn

def lossColumns : Nat → EncoderAcknowledgementState → List Nat
  | 0, _ => []
  | calls + 1, s =>
    match s.getNextLossColumn with
    | (_, none) => []
    | (s, some column) => column :: lossColumns calls s

/-- The longest acknowledgement delay with one more element looked at. -/
def ackDelayMsec (w : EncoderPacketWindow) (nowMsec longestAckDelayMsec element : Nat) : Nat :=
  let delayMsec := signed 32 (sub 32 nowMsec (w.lastSendMsec element))
  if (longestAckDelayMsec : Int) < delayMsec ∧ 0 < delayMsec then delayMsec.toNat
  else longestAckDelayMsec

def scanRollup (w : EncoderPacketWindow) (nowMsec : Nat) : Nat → Nat → Nat → Nat × Nat
  | 0, element, longestAckDelayMsec => (element, longestAckDelayMsec)
  | n + 1, element, longestAckDelayMsec =>
    scanRollup w nowMsec n (element + 1) (ackDelayMsec w nowMsec longestAckDelayMsec element)

/-- Elements in front of a loss range; nothing if they run out of the window. -/
def scanAcknowledged (w : EncoderPacketWindow) (nowMsec : Nat) :
    Nat → Nat → Nat → Option (Nat × Nat)
  | 0, element, longestAckDelayMsec => some (element, longestAckDelayMsec)
  | n + 1, element, longestAckDelayMsec =>
    if w.count ≤ element then none
    else scanAcknowledged w nowMsec n (element + 1)
      (ackDelayMsec w nowMsec longestAckDelayMsec element)

/-- What UpdateRTO finds: the loss ranges it walks, as first element and length, and the element and
delay it ends with unless it gives up on the way. -/
structure RTOScan where
  ranges : List (Nat × Nat)
  result : Option (Nat × Nat)

def scanLossRanges (w : EncoderPacketWindow) (nowMsec : Nat) :
    Nat → Bytes → Nat → Nat → Nat → RTOScan
  | 0, _, element, _, longestAckDelayMsec => ⟨[], some (element, longestAckDelayMsec)⟩
  | fuel + 1, data, element, firstLoss, longestAckDelayMsec =>
    if data.length ≤ 0 then ⟨[], some (element, longestAckDelayMsec)⟩
    else
      match deserializeHeaderNACKLossRange (data ++ padding) with
      | none => ⟨[], none⟩
      | some range =>
        if data.length < range.bytes then ⟨[], none⟩
        else
          let element := if element + 1 < firstLoss then firstLoss - 1 else element
          let firstLoss := (firstLoss + range.relativeStart) % 2 ^ 32
          let walked := (firstLoss, range.lossCountM1 + 1)
          match scanAcknowledged w nowMsec (firstLoss - element) element longestAckDelayMsec with
          | none => ⟨[walked], none⟩
          | some (element, longestAckDelayMsec) =>
            let rest := scanLossRanges w nowMsec fuel (data.drop range.bytes) element
              ((firstLoss + (range.lossCountM1 + 2)) % 2 ^ 32) longestAckDelayMsec
            ⟨walked :: rest.ranges, rest.result⟩

def updateRTO (s : EncoderAcknowledgementState) (w : EncoderPacketWindow) (nowMsec : Nat) :
    RTOScan :=
  let firstLoss := w.columnToElement s.nextColumnExpected
  if w.count ≤ firstLoss then ⟨[], none⟩
  else
    let element := w.columnToElement s.nextRTOColumn
    let element := if w.count ≤ element then w.firstUnremovedElement else element
    let (element, longestAckDelayMsec) :=
      scanRollup w nowMsec (firstLoss - element) element 0
    scanLossRanges w nowMsec s.data.length s.data element firstLoss longestAckDelayMsec

/-- What OnAcknowledgementData leaves behind; `scan` is there when UpdateRTO was called. -/
structure Outcome where
  state : EncoderAcknowledgementState
  window : EncoderPacketWindow
  scan : Option RTOScan
  ok : Bool

def takeLossRanges (s : EncoderAcknowledgementState) (w : EncoderPacketWindow) (nowMsec : Nat) :
    Outcome :=
  let (s, decoded) := if 0 < s.data.length then s.decodeNextRange else (s, true)
  if decoded then
    let scan := s.updateRTO w nowMsec
    let nextRTOColumn := match scan.result with
      | none => s.nextRTOColumn
      | some (element, _) => w.elementToColumn element
    ⟨{ s with nextRTOColumn := nextRTOColumn }, w.removeBefore s.nextColumnExpected, some scan,
      true⟩
  else ⟨s, w, none, false⟩

def onAcknowledgementData (s : EncoderAcknowledgementState) (w : EncoderPacketWindow)
    (nowMsec : Nat) (data : Bytes) : Outcome :=
  match deserializeHeaderPacketNum data with
  | none => ⟨s, w, none, false⟩
  | some (nextColumnExpected, headerBytes) =>
    let data := data.drop headerBytes
    if isColumnDeltaNegative (subtractColumns nextColumnExpected s.nextColumnExpected) then
      ⟨s, w, none, true⟩
    else if s.nextColumnExpected = nextColumnExpected ∧ s.hasData ∧ data = s.data then
      ⟨s, w, none, true⟩
    else
      { s with
        nextColumnExpected := nextColumnExpected
        offset := 0
        lossColumn := nextColumnExpected
        lossCount := 0
        data := data
        hasData := s.hasData || 0 < data.length }.takeLossRanges w nowMsec

end EncoderAcknowledgementState

/-! The ranges of a message: pairs of a relative start and a loss count minus 1, each relative to
one past the element that ended the range before it. -/

def wireRanges (rs : List (Nat × Nat)) : Bytes :=
  rs.flatMap fun r => serializeHeaderNACKLossRange r.1 r.2

/-- First element and length of each range. -/
def rangesFrom : Nat → List (Nat × Nat) → List (Nat × Nat)
  | _, [] => []
  | offset, r :: rs => (offset + r.1, r.2 + 1) :: rangesFrom (offset + r.1 + r.2 + 2) rs

def lossElements (offset : Nat) (rs : List (Nat × Nat)) : List Nat :=
  (rangesFrom offset rs).flatMap fun p => List.range' p.1 p.2

def RangesFit (rs : List (Nat × Nat)) : Prop :=
  ∀ r ∈ rs, r.1 < siamesePacketNumCount ∧ r.2 < siamesePacketNumCount

theorem lossElements_cons (offset : Nat) (r : Nat × Nat) (rs : List (Nat × Nat)) :
    lossElements offset (r :: rs) = List.range' (offset + r.1) (r.2 + 1) ++
      lossElements (offset + r.1 + r.2 + 2) rs := by
  simp [lossElements, rangesFrom]

theorem wireRanges_cons (r : Nat × Nat) (rs : List (Nat × Nat)) :
    wireRanges (r :: rs) = serializeHeaderNACKLossRange r.1 r.2 ++ wireRanges rs := by
  simp [wireRanges]

theorem deserialize_wireRanges {r : Nat × Nat} {rs : List (Nat × Nat)}
    (hfit : RangesFit (r :: rs)) :
    deserializeHeaderNACKLossRange
      (wireRanges (r :: rs) ++ EncoderAcknowledgementState.padding) =
        some ⟨r.1, r.2, (serializeHeaderNACKLossRange r.1 r.2).length⟩ := by
  have hr := hfit r List.mem_cons_self
  rw [wireRanges_cons, List.append_assoc]
  refine deserializeHeaderNACKLossRange_serialize hr.1 hr.2 ?_
  have hpad : EncoderAcknowledgementState.padding.length = 8 := rfl
  rw [List.length_append, hpad, kMaxLossRangeFieldBytes]
  omega

namespace EncoderAcknowledgementState

/-- The iterator in front of `count` losses from `c` on, with `rs` still to be read. -/
structure Pending (s : EncoderAcknowledgementState) (c count : Nat) (rs : List (Nat × Nat)) :
    Prop where
  lossColumn_eq : s.lossColumn = columnOf c
  lossCount_eq : s.lossCount = count
  data_eq : s.data.drop s.offset = wireRanges rs
  offset_le : s.offset ≤ s.data.length
  fit : RangesFit rs

theorem Pending.decodeNextRange_nil {s : EncoderAcknowledgementState} {c count : Nat}
    (h : s.Pending c count []) : s.decodeNextRange = (s, false) := by
  have hlen : s.data.length ≤ s.offset := List.drop_eq_nil_iff.mp h.data_eq
  rw [decodeNextRange, if_pos hlen]

theorem Pending.decodeNextRange_cons {s : EncoderAcknowledgementState} {c count : Nat}
    {r : Nat × Nat} {rs : List (Nat × Nat)} (h : s.Pending c count (r :: rs)) :
    ∃ s', s.decodeNextRange = (s', true) ∧ s'.Pending (c + r.1) (r.2 + 1) rs ∧
      s'.data = s.data ∧ s'.hasData = s.hasData ∧ s'.nextColumnExpected = s.nextColumnExpected ∧
      s'.nextRTOColumn = s.nextRTOColumn := by
  have hpos := serializeHeaderNACKLossRange_pos r.1 r.2
  have hdrop := h.data_eq
  have hlen := congrArg List.length hdrop
  rw [wireRanges_cons, List.length_append, List.length_drop] at hlen
  have hread : deserializeHeaderNACKLossRange ((s.data ++ padding).drop s.offset) =
      some ⟨r.1, r.2, (serializeHeaderNACKLossRange r.1 r.2).length⟩ := by
    rw [List.drop_append_of_le_length h.offset_le, hdrop]
    exact deserialize_wireRanges h.fit
  have hnext : s.data.drop (s.offset + (serializeHeaderNACKLossRange r.1 r.2).length) =
      wireRanges rs := by
    rw [← List.drop_drop, hdrop, wireRanges_cons, List.drop_left]
  refine ⟨{ s with
      offset := s.offset + (serializeHeaderNACKLossRange r.1 r.2).length
      lossColumn := addColumns s.lossColumn r.1
      lossCount := r.2 + 1 }, ?_, ⟨?_, rfl, hnext, ?_, ?_⟩, rfl, rfl, rfl, rfl⟩
  · rw [decodeNextRange, if_neg (by omega), hread]
    simp only
    rw [if_neg (by omega)]
  · simp only
    rw [h.lossColumn_eq, addColumns_columnOf]
  · simp only
    omega
  · exact fun x hx => h.fit x (List.mem_cons_of_mem _ hx)

theorem Pending.takeLossColumn {s : EncoderAcknowledgementState} {c count : Nat}
    {rs : List (Nat × Nat)} (h : s.Pending c (count + 1) rs) :
    s.takeLossColumn.1.Pending (c + 1) count rs ∧ s.takeLossColumn.2 = some (columnOf c) := by
  refine ⟨⟨?_, ?_, h.data_eq, h.offset_le, h.fit⟩, ?_⟩
  · simp [EncoderAcknowledgementState.takeLossColumn, h.lossColumn_eq]
  · simp [EncoderAcknowledgementState.takeLossColumn, h.lossCount_eq]
  · simp [EncoderAcknowledgementState.takeLossColumn, h.lossColumn_eq]

theorem Pending.lossColumns {s : EncoderAcknowledgementState} {c count : Nat}
    {rs : List (Nat × Nat)} (h : s.Pending c count rs) (calls : Nat) :
    lossColumns calls s =
      ((List.range' c count ++ lossElements (c + count + 1) rs).map columnOf).take calls := by
  induction calls generalizing s c count rs with
  | zero => rfl
  | succ calls ih =>
    rw [EncoderAcknowledgementState.lossColumns]
    cases hcount : count with
    | zero =>
      subst hcount
      have hskip : { s with lossColumn := incrementColumn1 s.lossColumn }.Pending (c + 1) 0 rs :=
        ⟨by simp [h.lossColumn_eq], h.lossCount_eq, h.data_eq, h.offset_le, h.fit⟩
      rw [getNextLossColumn, if_pos (Nat.le_of_eq h.lossCount_eq)]
      cases hrs : rs with
      | nil =>
        subst hrs
        rw [hskip.decodeNextRange_nil]
        simp [lossElements, rangesFrom]
      | cons r rs' =>
        subst hrs
        obtain ⟨s', hdec, hpend, -⟩ := hskip.decodeNextRange_cons
        obtain ⟨htake, hcol⟩ := hpend.takeLossColumn
        rw [hdec]
        simp only
        have hih := ih htake
        rw [show s'.takeLossColumn = (s'.takeLossColumn.1, some (columnOf (c + 1 + r.1))) by
          rw [← hcol]]
        simp only
        have hend : c + 1 + r.1 + 1 + r.2 + 1 = c + 1 + r.1 + r.2 + 2 := by omega
        rw [hih, lossElements_cons, Nat.add_zero, List.range'_zero, List.nil_append,
          List.range'_succ, List.cons_append, List.map_cons, List.take_succ_cons, hend]
    | succ n =>
      subst hcount
      obtain ⟨htake, hcol⟩ := h.takeLossColumn
      rw [getNextLossColumn, if_neg (by rw [h.lossCount_eq]; omega)]
      have hih := ih htake
      rw [show s.takeLossColumn = (s.takeLossColumn.1, some (columnOf c)) by rw [← hcol]]
      simp only
      have hend : c + 1 + n + 1 = c + (n + 1) + 1 := by omega
      rw [hih, List.range'_succ, List.cons_append, List.map_cons, List.take_succ_cons, hend]

theorem scanAcknowledged_isSome {w : EncoderPacketWindow} (nowMsec : Nat) {n element : Nat}
    (h : n = 0 ∨ element + n ≤ w.count) (longestAckDelayMsec : Nat) :
    ∃ p, scanAcknowledged w nowMsec n element longestAckDelayMsec = some p := by
  induction n generalizing element longestAckDelayMsec with
  | zero => exact ⟨_, rfl⟩
  | succ n ih =>
    rw [scanAcknowledged, if_neg (by omega)]
    exact ih (by omega) _

theorem scanLossRanges_ranges {w : EncoderPacketWindow} (hw : w.count < 2 ^ 30) (nowMsec : Nat)
    {rs : List (Nat × Nat)} (hfit : RangesFit rs) {fuel : Nat}
    (hfuel : (wireRanges rs).length ≤ fuel) (element firstLoss longestAckDelayMsec : Nat)
    (hin : ∀ p ∈ rangesFrom firstLoss rs, p.1 ≤ w.count) :
    (scanLossRanges w nowMsec fuel (wireRanges rs) element firstLoss longestAckDelayMsec).ranges =
      rangesFrom firstLoss rs := by
  induction rs generalizing fuel element firstLoss longestAckDelayMsec with
  | nil =>
    cases fuel with
    | zero => rfl
    | succ fuel => simp [scanLossRanges, wireRanges, rangesFrom]
  | cons r rs ih =>
    have hpos := serializeHeaderNACKLossRange_pos r.1 r.2
    have hlen : (wireRanges (r :: rs)).length =
        (serializeHeaderNACKLossRange r.1 r.2).length + (wireRanges rs).length := by
      rw [wireRanges_cons, List.length_append]
    have hdrop : (wireRanges (r :: rs)).drop (serializeHeaderNACKLossRange r.1 r.2).length =
        wireRanges rs := by
      rw [wireRanges_cons, List.drop_left]
    have hstart : firstLoss + r.1 ≤ w.count := hin (firstLoss + r.1, r.2 + 1) List.mem_cons_self
    have hr := hfit r List.mem_cons_self
    simp only [siamesePacketNumCount] at hr
    cases fuel with
    | zero => omega
    | succ fuel =>
      rw [scanLossRanges, if_neg (by omega), deserialize_wireRanges hfit]
      simp only
      rw [if_neg (by omega), hdrop, Nat.mod_eq_of_lt (show firstLoss + r.1 < 2 ^ 32 by omega),
        Nat.mod_eq_of_lt (show firstLoss + r.1 + (r.2 + 2) < 2 ^ 32 by omega)]
      generalize hrolled : (if element + 1 < firstLoss then firstLoss - 1 else element) = rolled
      obtain ⟨p, hp⟩ := scanAcknowledged_isSome nowMsec
        (show firstLoss + r.1 - rolled = 0 ∨ rolled + (firstLoss + r.1 - rolled) ≤ w.count by omega)
        longestAckDelayMsec
      rw [hp]
      simp only [rangesFrom]
      rw [ih (fun x hx => hfit x (List.mem_cons_of_mem _ hx)) (by omega)]
      · rfl
      · intro p hp
        exact hin p (List.mem_cons_of_mem _ hp)

end EncoderAcknowledgementState

namespace DecoderPacketWindow

variable {α : Type}

def missingFrom (w : DecoderPacketWindow α) (e : Nat) : List Nat :=
  (List.range' e (w.count - e)).filter fun e => !w.isGot e

theorem missingFrom_eq_nil {w : DecoderPacketWindow α} {e : Nat}
    (h : ∀ k, e ≤ k → k < w.count → w.isGot k = true) : w.missingFrom e = [] := by
  rw [missingFrom, List.filter_eq_nil_iff]
  intro k hk
  rw [List.mem_range'_1] at hk
  simp [h k hk.1 (by omega)]

theorem missingFrom_append {w : DecoderPacketWindow α} {e m : Nat} (hem : e ≤ m)
    (hm : m ≤ w.count) : w.missingFrom e =
      (List.range' e (m - e)).filter (fun e => !w.isGot e) ++ w.missingFrom m := by
  have hsplit : List.range' e (w.count - e) = List.range' e (m - e) ++
      List.range' m (w.count - m) := by
    rw [show w.count - e = (m - e) + (w.count - m) by omega, ← List.range'_append_1]
    congr 2
    omega
  rw [missingFrom, hsplit, List.filter_append]
  rfl

theorem Sound.missingFrom_cons {w : DecoderPacketWindow α} (h : w.Sound) {e : Nat}
    (hlt : w.findNextLostElement e < w.count) (he : e ≤ w.count) :
    let rangeStart := w.findNextLostElement e
    let rangeEnd := w.findNextGotElement (rangeStart + 1)
    e ≤ rangeStart ∧ rangeStart < rangeEnd ∧ rangeEnd ≤ w.count ∧
      (rangeEnd < w.count → w.isGot rangeEnd = true) ∧
      w.missingFrom e = List.range' rangeStart (rangeEnd - rangeStart) ++
        w.missingFrom (rangeEnd + 1) := by
  intro rangeStart rangeEnd
  have hstart : rangeStart = firstFrom (fun e => !w.isGot e) e w.count :=
    h.counted.findNextLostElement_eq he
  have hend : rangeEnd = firstFrom w.isGot (rangeStart + 1) w.count :=
    h.counted.findNextGotElement_eq hlt
  have hge : e ≤ rangeStart := by rw [hstart]; exact le_firstFrom
  have hlt' : rangeStart < rangeEnd := by
    have : rangeStart + 1 ≤ rangeEnd := by rw [hend]; exact le_firstFrom
    omega
  have hle : rangeEnd ≤ w.count := by rw [hend]; exact firstFrom_le hlt
  have hgot : rangeEnd < w.count → w.isGot rangeEnd = true := by
    rw [hend]
    exact firstFrom_passes
  refine ⟨hge, hlt', hle, hgot, ?_⟩
  have hbefore : (List.range' e (rangeStart - e)).filter (fun e => !w.isGot e) = [] := by
    rw [List.filter_eq_nil_iff]
    intro k hk
    rw [List.mem_range'_1] at hk
    have hk' := firstFrom_before hk.1 (show k < firstFrom (fun e => !w.isGot e) e w.count by omega)
    simpa using hk'
  have hlost : (List.range' rangeStart (rangeEnd - rangeStart)).filter (fun e => !w.isGot e) =
      List.range' rangeStart (rangeEnd - rangeStart) := by
    rw [List.filter_eq_self]
    intro k hk
    rw [List.mem_range'_1] at hk
    by_cases hk' : k = rangeStart
    · have hpass := firstFrom_passes (p := fun e => !w.isGot e) (by rw [← hstart]; exact hlt)
      rw [← hstart] at hpass
      rw [hk']
      exact hpass
    · have hnot := firstFrom_before (p := w.isGot) (show rangeStart + 1 ≤ k by omega)
        (show k < firstFrom w.isGot (rangeStart + 1) w.count by omega)
      simp [hnot]
  have hrest : w.missingFrom rangeEnd = w.missingFrom (rangeEnd + 1) := by
    by_cases hc : rangeEnd < w.count
    · rw [missingFrom_append (Nat.le_succ rangeEnd) hc, Nat.succ_eq_add_one,
        Nat.add_sub_cancel_left]
      simp [hgot hc]
    · rw [missingFrom_eq_nil fun k hk hk' => absurd hk' (by omega),
        missingFrom_eq_nil fun k hk hk' => absurd hk' (by omega)]
  rw [missingFrom_append hge (Nat.le_of_lt hlt), hbefore,
    missingFrom_append (Nat.le_of_lt hlt') hle, hlost, hrest]
  rfl

/-- The ranges written from `rangeOffset` on: the missing elements, with a marker behind them if
the last element is there, or as many of them as fit. -/
theorem Sound.writeLossRanges_spec {w : DecoderPacketWindow α} (h : w.Sound)
    (rangeOffset byteLimit : Nat) (hle : rangeOffset ≤ w.count + 1)
    (hprev : rangeOffset = w.count → w.isGot (w.count - 1) = true) :
    ∃ rs, w.writeLossRanges rangeOffset byteLimit = wireRanges rs ∧ RangesFit rs ∧
      (lossElements rangeOffset rs = w.missingFrom rangeOffset ∨
        lossElements rangeOffset rs = w.missingFrom rangeOffset ++ [w.count] ∧
          w.isGot (w.count - 1) = true ∨
        lossElements rangeOffset rs <+: w.missingFrom rangeOffset ∧
          byteLimit < (wireRanges rs).length + kMaxLossRangeFieldBytes) := by
  have hcount := h.count_le
  have hperiod : kColumnPeriod / 2 < siamesePacketNumCount := by decide
  fun_induction writeLossRanges w rangeOffset byteLimit with
  | case1 rangeOffset byteLimit hlimit rangeStart hall hin =>
    have hfirst : rangeStart = firstFrom (fun e => !w.isGot e) rangeOffset w.count :=
      h.counted.findNextLostElement_eq hin
    have hgot : ∀ k, rangeOffset ≤ k → k < w.count → w.isGot k = true := fun k hk hlt => by
      have hk' := firstFrom_before hk
        (show k < firstFrom (fun e => !w.isGot e) rangeOffset w.count by omega)
      simpa using hk'
    refine ⟨[(w.count - rangeOffset, 0)], by simp [wireRanges], ?_, .inr (.inl ⟨?_, ?_⟩)⟩
    · intro r hr
      rw [List.mem_singleton.mp hr]
      exact ⟨by simp only; omega, show 0 < siamesePacketNumCount by decide⟩
    · rw [missingFrom_eq_nil hgot, lossElements_cons]
      simp only [Nat.add_sub_cancel' hin]
      rfl
    · by_cases heq : rangeOffset = w.count
      · exact hprev heq
      · exact hgot _ (by omega) (by omega)
  | case2 rangeOffset byteLimit hlimit rangeStart hall hout =>
    refine ⟨[], rfl, by simp [RangesFit], .inl ?_⟩
    rw [missingFrom_eq_nil fun k hk hk' => absurd hk' (by omega)]
    rfl
  | case3 rangeOffset byteLimit hlimit rangeStart hlost rangeEnd range ih =>
    have hoffset : rangeOffset ≤ w.count := by
      by_contra hgt
      refine hlost (Nat.le_of_eq ?_)
      simp only [rangeStart, findNextLostElement]
      rw [if_pos (by omega)]
    obtain ⟨hge, hlt, hend, hgot, hmissing⟩ :=
      h.missingFrom_cons (Nat.lt_of_not_le hlost) hoffset
    change rangeOffset ≤ rangeStart at hge
    change rangeStart < rangeEnd at hlt
    change rangeEnd ≤ w.count at hend
    change rangeEnd < w.count → w.isGot rangeEnd = true at hgot
    change w.missingFrom rangeOffset = List.range' rangeStart (rangeEnd - rangeStart) ++
      w.missingFrom (rangeEnd + 1) at hmissing
    obtain ⟨rs, hwire, hfit, hcases⟩ := ih (by omega) fun heq => by
      rw [show w.count - 1 = rangeEnd by omega]
      exact hgot (by omega)
    have helements : lossElements rangeOffset
        ((rangeStart - rangeOffset, rangeEnd - rangeStart - 1) :: rs) =
        List.range' rangeStart (rangeEnd - rangeStart) ++ lossElements (rangeEnd + 1) rs := by
      rw [lossElements_cons]
      simp only
      rw [Nat.add_sub_cancel' hge, show rangeEnd - rangeStart - 1 + 1 = rangeEnd - rangeStart by
        omega, show rangeStart + (rangeEnd - rangeStart - 1) + 2 = rangeEnd + 1 by omega]
    refine ⟨(rangeStart - rangeOffset, rangeEnd - rangeStart - 1) :: rs, ?_, ?_, ?_⟩
    · rw [wireRanges_cons, hwire]
    · intro r hr
      rcases List.mem_cons.mp hr with rfl | hr
      · exact ⟨by simp only; omega, by simp only; omega⟩
      · exact hfit r hr
    · rw [helements, hmissing, wireRanges_cons, List.length_append]
      rcases hcases with hfull | ⟨hfull, hlast⟩ | ⟨hpart, hlimit'⟩
      · exact .inl (by rw [hfull])
      · exact .inr (.inl ⟨by rw [hfull, List.append_assoc], hlast⟩)
      · refine .inr (.inr ⟨(List.prefix_append_right_inj _).mpr hpart, ?_⟩)
        simp only [range] at hlimit' ⊢
        omega
  | case4 rangeOffset byteLimit hlimit =>
    refine ⟨[], rfl, by simp [RangesFit], .inr (.inr ⟨List.nil_prefix, ?_⟩)⟩
    simp only [wireRanges, List.flatMap_nil, List.length_nil]
    omega

def missingColumns (w : DecoderPacketWindow α) : List Nat :=
  (w.missingFrom w.nextExpectedElement).map w.elementToColumn

theorem elementToColumn_eq (w : DecoderPacketWindow α) (e : Nat) :
    w.elementToColumn e = columnOf (w.columnStart + e) := by
  rw [elementToColumn, addColumns, columnOf, Nat.add_comm]

theorem mem_missingFrom {w : DecoderPacketWindow α} {e k : Nat} (hk : k ∈ w.missingFrom e) :
    e ≤ k ∧ k < w.count := by
  have h := List.mem_range'_1.mp (List.mem_filter.mp hk).1
  omega

theorem nodup_missingFrom (w : DecoderPacketWindow α) (e : Nat) : (w.missingFrom e).Nodup :=
  (List.nodup_range').filter _

end DecoderPacketWindow

theorem lossElements_add (a offset : Nat) (rs : List (Nat × Nat)) :
    lossElements (a + offset) rs = (lossElements offset rs).map (a + ·) := by
  induction rs generalizing offset with
  | nil => rfl
  | cons r rs ih =>
    have hnext : a + offset + r.1 + r.2 + 2 = a + (offset + r.1 + r.2 + 2) := by omega
    rw [lossElements_cons, lossElements_cons, hnext, ih, List.map_append, List.map_add_range',
      Nat.add_assoc]

theorem mem_lossElements {offset : Nat} {rs : List (Nat × Nat)} {p : Nat × Nat}
    (hp : p ∈ rangesFrom offset rs) : p.1 ∈ lossElements offset rs := by
  have hpos : 0 < p.2 := by
    induction rs generalizing offset with
    | nil => exact absurd hp List.not_mem_nil
    | cons r rs ih =>
      rcases List.mem_cons.mp hp with rfl | hp
      · exact Nat.succ_pos _
      · exact ih hp
  exact List.mem_flatMap.mpr ⟨p, hp, List.mem_range'_1.mpr ⟨Nat.le_refl _, by omega⟩⟩

/-- The encoder still holds every packet of the decoder's window from the next expected one on. -/
structure EncoderPacketWindow.Holds {α : Type} (encoder : EncoderPacketWindow)
    (w : DecoderPacketWindow α) : Prop where
  count_le : encoder.count ≤ siameseMaxPackets
  columnStart_lt : encoder.columnStart < kColumnPeriod
  window_le : encoder.columnToElement (w.elementToColumn w.nextExpectedElement) +
    (w.count - w.nextExpectedElement) ≤ encoder.count

/-- The columns of a list of ranges depend on the column they start from only. -/
theorem lossElements_columnOf {a b : Nat} (h : columnOf a = columnOf b) (rs : List (Nat × Nat)) :
    (lossElements a rs).map columnOf = (lossElements b rs).map columnOf := by
  have hmap : ∀ c, (lossElements c rs).map columnOf =
      (lossElements 0 rs).map fun x => addColumns (columnOf c) x := by
    intro c
    have hadd := lossElements_add c 0 rs
    rw [Nat.add_zero] at hadd
    rw [hadd, List.map_map]
    simp [Function.comp_def]
  rw [hmap a, hmap b, h]

namespace EncoderAcknowledgementState

/-- OnAcknowledgementData takes the message neither for an older one nor for the last one again. -/
def TakesAsNew (s : EncoderAcknowledgementState) (message : Bytes) : Prop :=
  ∀ next headerBytes, deserializeHeaderPacketNum message = some (next, headerBytes) →
    isColumnDeltaNegative (subtractColumns next s.nextColumnExpected) = false ∧
    ¬ (s.nextColumnExpected = next ∧ s.hasData ∧ message.drop headerBytes = s.data)

theorem Pending.setNextRTOColumn {s : EncoderAcknowledgementState} {c count : Nat}
    {rs : List (Nat × Nat)} (h : s.Pending c count rs) (column : Nat) :
    { s with nextRTOColumn := column }.Pending c count rs :=
  ⟨h.lossColumn_eq, h.lossCount_eq, h.data_eq, h.offset_le, h.fit⟩

theorem Pending.takeLossRanges {s : EncoderAcknowledgementState} {c : Nat}
    {rs : List (Nat × Nat)} (h : s.Pending c 0 rs) (hoffset : s.offset = 0)
    (w : EncoderPacketWindow) (nowMsec : Nat) :
    (s.takeLossRanges w nowMsec).ok = true ∧
      (s.takeLossRanges w nowMsec).state.nextColumnExpected = s.nextColumnExpected ∧
      (∀ calls, EncoderAcknowledgementState.lossColumns calls (s.takeLossRanges w nowMsec).state =
        ((lossElements c rs).map columnOf).take calls) ∧
      ∃ s' : EncoderAcknowledgementState, s'.data = s.data ∧
        s'.nextColumnExpected = s.nextColumnExpected ∧
        (s.takeLossRanges w nowMsec).scan = some (s'.updateRTO w nowMsec) := by
  have hdata : s.data = wireRanges rs := by
    have hd := h.data_eq
    rw [hoffset] at hd
    exact hd
  unfold EncoderAcknowledgementState.takeLossRanges
  cases rs with
  | nil =>
    have hlen : ¬ 0 < s.data.length := by simp [hdata, wireRanges]
    rw [if_neg hlen]
    refine ⟨rfl, rfl, fun calls => ?_, s, rfl, rfl, rfl⟩
    simp only [if_true]
    exact (h.setNextRTOColumn _).lossColumns calls
  | cons r rs =>
    obtain ⟨s', hdec, hpend, hdata', -, hnext', -⟩ := h.decodeNextRange_cons
    have hlen : 0 < s.data.length := by
      have := serializeHeaderNACKLossRange_pos r.1 r.2
      rw [hdata, wireRanges_cons, List.length_append]
      omega
    rw [if_pos hlen, hdec]
    refine ⟨rfl, hnext', fun calls => ?_, s', hdata', hnext', rfl⟩
    have hend : c + r.1 + (r.2 + 1) + 1 = c + r.1 + r.2 + 2 := by omega
    rw [lossElements_cons, ← hend]
    simp only [if_true]
    exact (hpend.setNextRTOColumn _).lossColumns calls

theorem onAcknowledgementData_new {s : EncoderAcknowledgementState} {next : Nat}
    (hnext : next < siamesePacketNumCount) {rs : List (Nat × Nat)} (hfit : RangesFit rs)
    (hnew : s.TakesAsNew (serializeHeaderPacketNum next ++ wireRanges rs))
    (w : EncoderPacketWindow) (nowMsec : Nat) :
    ∃ o, s.onAcknowledgementData w nowMsec (serializeHeaderPacketNum next ++ wireRanges rs) = o ∧
      o.ok = true ∧ o.state.nextColumnExpected = next ∧
      (∀ calls, lossColumns calls o.state = ((lossElements next rs).map columnOf).take calls) ∧
      ∃ s' : EncoderAcknowledgementState, s'.data = wireRanges rs ∧
        s'.nextColumnExpected = next ∧ o.scan = some (s'.updateRTO w nowMsec) := by
  have hread := deserializeHeaderPacketNum_serialize hnext (wireRanges rs)
  obtain ⟨hlater, hother⟩ := hnew _ _ hread
  rw [List.drop_left] at hother
  refine ⟨_, rfl, ?_⟩
  unfold onAcknowledgementData
  rw [hread]
  simp only [List.drop_left]
  rw [hlater, if_neg (by decide), if_neg hother]
  have hpend : ({ s with
      nextColumnExpected := next, offset := 0, lossColumn := next, lossCount := 0,
      data := wireRanges rs, hasData := s.hasData || decide (0 < (wireRanges rs).length) } :
        EncoderAcknowledgementState).Pending next 0 rs :=
    ⟨(columnOf_eq_self hnext).symm, rfl, rfl, Nat.zero_le _, hfit⟩
  exact hpend.takeLossRanges rfl w nowMsec

end EncoderAcknowledgementState
theorem EncoderAcknowledgementState.updateRTO_ranges {s : EncoderAcknowledgementState}
    {rs : List (Nat × Nat)} (hdata : s.data = wireRanges rs) (hfit : RangesFit rs)
    {w : EncoderPacketWindow} (hw : w.count < 2 ^ 30) (nowMsec : Nat)
    (hlost : rs ≠ [] → w.columnToElement s.nextColumnExpected < w.count)
    (hin : ∀ p ∈ rangesFrom (w.columnToElement s.nextColumnExpected) rs, p.1 ≤ w.count) :
    (s.updateRTO w nowMsec).ranges = rangesFrom (w.columnToElement s.nextColumnExpected) rs := by
  unfold updateRTO
  simp only
  split
  · next hall =>
    by_cases hrs : rs = []
    · rw [hrs]
      rfl
    · exact absurd (hlost hrs) (by omega)
  · rw [hdata]
    exact scanLossRanges_ranges hw nowMsec hfit (Nat.le_refl _) _ _ _ hin

namespace DecoderPacketWindow

variable {α : Type}

theorem Sound.generateAcknowledgement_spec {w : DecoderPacketWindow α} (h : w.Sound)
    {byteLimit : Nat} (hlimit : byteLimit < 2 ^ 32) {message : Bytes}
    (hmessage : w.generateAcknowledgement byteLimit = some message) :
    ∃ rs, message = serializeHeaderPacketNum (w.elementToColumn w.nextExpectedElement) ++
        wireRanges rs ∧ RangesFit rs ∧ (rs ≠ [] → w.nextExpectedElement < w.count) ∧
      (lossElements w.nextExpectedElement rs = w.missingFrom w.nextExpectedElement ∨
        lossElements w.nextExpectedElement rs =
            w.missingFrom w.nextExpectedElement ++ [w.count] ∧ w.isGot (w.count - 1) = true ∨
        lossElements w.nextExpectedElement rs <+: w.missingFrom w.nextExpectedElement ∧
          byteLimit < message.length + kMaxLossRangeFieldBytes) := by
  have hnext := h.next_le
  unfold generateAcknowledgement at hmessage
  split at hmessage
  · exact absurd hmessage (by simp)
  · simp only at hmessage
    split at hmessage
    · next hall =>
      have hcount : w.count ≤ w.nextExpectedElement := by simpa [invalidElement] using hall
      cases hmessage
      refine ⟨[], by simp [wireRanges], by simp [RangesFit], fun hne => absurd rfl hne, .inl ?_⟩
      rw [missingFrom_eq_nil fun k hk hk' => absurd hk' (by omega)]
      rfl
    · next hlost =>
      have hcount : w.nextExpectedElement < w.count := by simpa [invalidElement] using hlost
      cases hmessage
      generalize serializeHeaderPacketNum (w.elementToColumn w.nextExpectedElement) = header
      obtain ⟨rs, hwire, hfit, hcases⟩ := h.writeLossRanges_spec w.nextExpectedElement
        ((byteLimit + 2 ^ 32 - header.length) % 2 ^ 32) (by omega) (by omega)
      refine ⟨rs, by rw [hwire], hfit, fun _ => hcount, ?_⟩
      rcases hcases with hfull | hfull | ⟨hpart, hbytes⟩
      · exact .inl hfull
      · exact .inr (.inl hfull)
      · refine .inr (.inr ⟨hpart, ?_⟩)
        rw [hwire, List.length_append]
        omega

end DecoderPacketWindow

/-- A decoder's acknowledgement, fed to an encoder that takes it as new: GetNextLossColumn hands out
the columns the decoder is missing, up to where the byte limit cut the message, with at most the end
of the window behind them, and UpdateRTO walks ranges of the same columns. -/
theorem acknowledgement_round_trip {α : Type} (w : DecoderPacketWindow α) (hw : w.Sound)
    (byteLimit : Nat) (hlimit : byteLimit < 2 ^ 32) (message : Bytes)
    (hmessage : w.generateAcknowledgement byteLimit = some message)
    (s : EncoderAcknowledgementState) (hnew : s.TakesAsNew message)
    (encoder : EncoderPacketWindow) (nowMsec : Nat) :
    ∃ o columns, s.onAcknowledgementData encoder nowMsec message = o ∧ o.ok = true ∧
      o.state.nextColumnExpected = w.elementToColumn w.nextExpectedElement ∧
      (∀ calls, EncoderAcknowledgementState.lossColumns calls o.state = columns.take calls) ∧
      columns.Nodup ∧
      (columns = w.missingColumns ∨
        columns = w.missingColumns ++ [w.elementToColumn w.count] ∧
          w.isGot (w.count - 1) = true ∨
        columns <+: w.missingColumns ∧ byteLimit < message.length + kMaxLossRangeFieldBytes) ∧
      (encoder.Holds w → ∃ scan, o.scan = some scan ∧
        (scan.ranges.flatMap fun p => (List.range' p.1 p.2).map encoder.elementToColumn) =
          columns) := by
  obtain ⟨rs, rfl, hfit, hsome, hcases⟩ := hw.generateAcknowledgement_spec hlimit hmessage
  have hcolumn : w.elementToColumn w.nextExpectedElement < siamesePacketNumCount := by
    rw [w.elementToColumn_eq]
    exact columnOf_lt _
  obtain ⟨o, ho, hok, hstate, hiter, s', hdata, hnext', hscan⟩ :=
    EncoderAcknowledgementState.onAcknowledgementData_new hcolumn hfit hnew encoder nowMsec
  have hcolumns : (lossElements (w.elementToColumn w.nextExpectedElement) rs).map columnOf =
      (lossElements w.nextExpectedElement rs).map w.elementToColumn := by
    have hcong : columnOf (w.elementToColumn w.nextExpectedElement) =
        columnOf (w.columnStart + w.nextExpectedElement) := by
      rw [w.elementToColumn_eq, columnOf_eq_self (columnOf_lt _)]
    rw [lossElements_columnOf hcong, lossElements_add, List.map_map]
    exact List.map_congr_left fun e _ => (w.elementToColumn_eq e).symm
  rw [hcolumns] at hiter
  have hcount := hw.count_le
  have hnext := hw.next_le
  obtain ⟨hdistinct, hwithin⟩ : (lossElements w.nextExpectedElement rs).Nodup ∧
      ∀ e ∈ lossElements w.nextExpectedElement rs, e ≤ w.count := by
    have hbound : ∀ e ∈ w.missingFrom w.nextExpectedElement, e < w.count :=
      fun e he => (DecoderPacketWindow.mem_missingFrom he).2
    have hnodup := w.nodup_missingFrom w.nextExpectedElement
    rcases hcases with hfull | ⟨hfull, -⟩ | ⟨hpart, -⟩
    · rw [hfull]
      exact ⟨hnodup, fun e he => Nat.le_of_lt (hbound e he)⟩
    · rw [hfull]
      refine ⟨hnodup.append (List.nodup_singleton _) fun e he he' => ?_, fun e he => ?_⟩
      · have := hbound e he
        rw [List.mem_singleton.mp he'] at this
        omega
      · rcases List.mem_append.mp he with he | he
        · exact Nat.le_of_lt (hbound e he)
        · exact Nat.le_of_eq (List.mem_singleton.mp he)
    · exact ⟨hnodup.sublist hpart.sublist, fun e he => Nat.le_of_lt (hbound e (hpart.subset he))⟩
  refine ⟨o, (lossElements w.nextExpectedElement rs).map w.elementToColumn, ho, hok, hstate, hiter,
    ?_, ?_, ?_⟩
  · refine hdistinct.map_on fun x hx y hy hxy => ?_
    rw [w.elementToColumn_eq, w.elementToColumn_eq] at hxy
    have hx' := hwithin x hx
    have hy' := hwithin y hy
    have hhalf : kColumnPeriod / 2 < kColumnPeriod := by decide
    rcases Nat.le_total x y with hle | hle
    · have := columnOf_inj hxy (by omega) (by omega)
      omega
    · have := columnOf_inj hxy.symm (by omega) (by omega)
      omega
  · rcases hcases with hfull | ⟨hfull, hlast⟩ | ⟨hpart, hbytes⟩
    · exact .inl (by rw [hfull]; rfl)
    · exact .inr (.inl ⟨by rw [hfull, List.map_append]; rfl, hlast⟩)
    · exact .inr (.inr ⟨hpart.map _, hbytes⟩)
  · intro hholds
    refine ⟨_, hscan, ?_⟩
    have hmax : siameseMaxPackets < 2 ^ 30 := by decide
    have hroom := hholds.window_le
    have hfull := hholds.count_le
    have hshift : ∀ f, lossElements f rs = (lossElements 0 rs).map (f + ·) := fun f => by
      rw [← lossElements_add, Nat.add_zero]
    have hranges := EncoderAcknowledgementState.updateRTO_ranges hdata hfit
      (show encoder.count < 2 ^ 30 by omega) nowMsec
      (fun hne => by
        have := hsome hne
        rw [hnext']
        omega)
      (fun p hp => by
        rw [hnext'] at hp
        have hmem := mem_lossElements hp
        rw [hshift] at hmem
        obtain ⟨x, hx, hpx⟩ := List.mem_map.mp hmem
        have hx' := hwithin (w.nextExpectedElement + x)
          (by rw [hshift]; exact List.mem_map.mpr ⟨x, hx, rfl⟩)
        omega)
    rw [hranges, hnext', ← List.map_flatMap]
    change (lossElements _ rs).map encoder.elementToColumn = _
    rw [hshift, hshift w.nextExpectedElement, List.map_map, List.map_map]
    refine List.map_congr_left fun x _ => ?_
    have hcast := subtractColumns_cast (w.elementToColumn w.nextExpectedElement) encoder.columnStart
    simp only [Function.comp_apply, EncoderPacketWindow.elementToColumn,
      EncoderPacketWindow.columnToElement, DecoderPacketWindow.elementToColumn, addColumns,
      kColumnPeriod] at hcast ⊢
    omega

def gapWindow : DecoderPacketWindow Unit :=
  ((DecoderPacketWindow.initial.addOriginal 0 ()).1.addOriginal 2 ()).1

theorem gapWindow_acknowledgement : gapWindow.generateAcknowledgement 100 = some [1, 0, 0] := by
  have hlost : gapWindow.findNextLostElement 1 = 1 := by decide
  have hgot : gapWindow.findNextGotElement (1 + 1) = 2 := by decide
  have hend : gapWindow.findNextLostElement (2 + 1) = 3 := by decide
  have hcount : gapWindow.count = 3 := by decide
  have hnext : gapWindow.nextExpectedElement = 1 := by decide
  have hranges : gapWindow.writeLossRanges 1 99 = [0, 0] := by
    rw [DecoderPacketWindow.writeLossRanges, hlost]
    simp only
    rw [hgot, DecoderPacketWindow.writeLossRanges, hend, hcount]
    decide
  rw [DecoderPacketWindow.generateAcknowledgement, hcount, hnext]
  simp only
  rw [show gapWindow.elementToColumn 1 = 1 by decide]
  rw [show (100 + 2 ^ 32 - (serializeHeaderPacketNum 1).length) % 2 ^ 32 = 99 by decide, hranges]
  decide

def gapEncoder : EncoderPacketWindow :=
  (((EncoderPacketWindow.initial.add 0).1.add 0).1.add 0).1

/-- Packet 1 is asked for again, and the walk of UpdateRTO is over the same columns. -/
theorem acknowledgement_round_trip_gapWindow :
    ∃ o columns scan,
      EncoderAcknowledgementState.initial.onAcknowledgementData gapEncoder 7 [1, 0, 0] = o ∧
      o.state.nextColumnExpected = 1 ∧
      (∀ calls, EncoderAcknowledgementState.lossColumns calls o.state = columns.take calls) ∧
      (columns = [1] ∨ columns = [1, 3] ∨ columns <+: [1]) ∧ o.scan = some scan ∧
      (scan.ranges.flatMap fun p => (List.range' p.1 p.2).map gapEncoder.elementToColumn) =
        columns := by
  have hnew : EncoderAcknowledgementState.initial.TakesAsNew [1, 0, 0] := by
    intro next headerBytes hread
    have heq : (next, headerBytes) = (1, 1) := Option.some.inj (hread.symm.trans (by decide))
    cases heq
    decide
  have hsound : gapWindow.Sound :=
    (DecoderPacketWindow.sound_initial.addOriginal 0 ()).addOriginal 2 ()
  have hholds : gapEncoder.Holds gapWindow := ⟨by decide, by decide, by decide⟩
  obtain ⟨o, columns, ho, -, hstate, hiter, -, hcases, hscan⟩ := acknowledgement_round_trip gapWindow
    hsound 100 (by decide) [1, 0, 0] gapWindow_acknowledgement .initial hnew gapEncoder 7
  obtain ⟨scan, hdone, hcolumns⟩ := hscan hholds
  have hmissing : gapWindow.missingColumns = [1] := by decide
  rw [hmissing] at hcases
  refine ⟨o, columns, scan, ho, hstate, hiter, ?_, hdone, hcolumns⟩
  rcases hcases with h | ⟨h, -⟩ | ⟨h, -⟩
  · exact .inl h
  · exact .inr (.inl h)
  · exact .inr (.inr h)

end Tonk.Siamese
