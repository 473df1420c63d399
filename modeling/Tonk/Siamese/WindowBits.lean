import Tonk.PktAlloc.CustomBitSet
import Tonk.Siamese.Decoder
import Tonk.Siamese.LostPackets

/-!
`DecoderPacketWindow` with the bits of its subwindows in words, as the source has them, and the scans
over these. It refines the window of which the decoder's results are proved.
-/

set_option autoImplicit false

namespace Tonk.Siamese
open Search PktAlloc

structure BitSubwindow (α : Type) where
  originals : Nat → Option α
  got : CustomBitSet kSubwindowSize
  gotCount : Nat

def BitSubwindow.fresh {α : Type} : BitSubwindow α := ⟨fun _ => none, .clearAll, 0⟩

/-- DecoderPacketWindow. -/
structure BitWindow (α : Type) where
  count : Nat
  columnStart : Nat
  nextExpectedElement : Nat
  subwindows : List (BitSubwindow α)

namespace BitWindow

variable {α : Type}

def initial : BitWindow α := ⟨0, 0, 0, []⟩

/-- Subwindows.GetRef; the source does not look past the end of the vector. -/
def getRef (w : BitWindow α) (i : Nat) : BitSubwindow α := (w.subwindows[i]?).getD .fresh

def columnToElement (w : BitWindow α) (column : Nat) : Nat := subtractColumns column w.columnStart

def elementToColumn (w : BitWindow α) (element : Nat) : Nat := addColumns element w.columnStart

def invalidElement (w : BitWindow α) (element : Nat) : Bool := w.count ≤ element

def getWindowElement (w : BitWindow α) (element : Nat) : Option α :=
  (w.getRef (element / kSubwindowSize)).originals (element % kSubwindowSize)

def isGot (w : BitWindow α) (element : Nat) : Bool :=
  (w.getRef (element / kSubwindowSize)).got.check (element % kSubwindowSize)

def lostWhole (w : BitWindow α) (i : Nat) : Nat → Nat
  | 0 => 0
  | n + 1 => kSubwindowSize - (w.getRef i).gotCount + w.lostWhole (i + 1) n

def rangeLostPackets (w : BitWindow α) (elementStart elementEnd : Nat) : Nat :=
  if elementEnd ≤ elementStart then 0
  else
    let subwindow := elementStart / kSubwindowSize
    let bitStart := elementStart % kSubwindowSize
    let bitEnd := min (bitStart + elementEnd - elementStart) kSubwindowSize
    let first := if 0 < bitStart then
      bitEnd - bitStart - (w.getRef subwindow).got.rangePopcount bitStart bitEnd else 0
    let subwindowStart := if 0 < bitStart then subwindow + 1 else subwindow
    let subwindowEnd := elementEnd / kSubwindowSize
    let whole := w.lostWhole subwindowStart (subwindowEnd - subwindowStart)
    let lastSubwindowBits := elementEnd - subwindowEnd * kSubwindowSize
    let last := if subwindowStart ≤ subwindowEnd then
      if 0 < lastSubwindowBits then
        lastSubwindowBits - (w.getRef subwindowEnd).got.rangePopcount 0 lastSubwindowBits
      else 0
    else 0
    first + whole + last

/-- The loop of FindNextLostElement and FindNextGotElement: `mayHave` is their test of GotCount, and
`findFirst` their scan of the bits. -/
def findNextElement (w : BitWindow α) (mayHave : BitSubwindow α → Bool)
    (findFirst : CustomBitSet kSubwindowSize → Nat → Nat) : Nat → Nat → Nat → Nat
  | 0, _, _ => w.count
  | n + 1, subwindowIndex, bitIndex =>
    let subwindow := w.getRef subwindowIndex
    if mayHave subwindow then
      let bit := findFirst subwindow.got bitIndex
      if kSubwindowSize ≤ bit then w.findNextElement mayHave findFirst n (subwindowIndex + 1) 0
      else
        let nextElement := subwindowIndex * kSubwindowSize + bit
        if w.count < nextElement then w.count else nextElement
    else w.findNextElement mayHave findFirst n (subwindowIndex + 1) 0

def subwindowEnd (w : BitWindow α) : Nat := (w.count + kSubwindowSize - 1) / kSubwindowSize

def findNextLostElement (w : BitWindow α) (elementStart : Nat) : Nat :=
  if w.count ≤ elementStart then w.count
  else w.findNextElement (fun s => s.gotCount < kSubwindowSize) CustomBitSet.findFirstClear
    (w.subwindowEnd - elementStart / kSubwindowSize) (elementStart / kSubwindowSize)
    (elementStart % kSubwindowSize)

def findNextGotElement (w : BitWindow α) (elementStart : Nat) : Nat :=
  if w.count ≤ elementStart then w.count
  else w.findNextElement (fun s => 0 < s.gotCount) (fun got bit => got.findFirstSet bit kSubwindowSize)
    (w.subwindowEnd - elementStart / kSubwindowSize) (elementStart / kSubwindowSize)
    (elementStart % kSubwindowSize)

def iterateNextExpectedElement (w : BitWindow α) (elementStart : Nat) : BitWindow α :=
  if w.count ≤ w.nextExpectedElement then w
  else { w with nextExpectedElement := w.findNextLostElement elementStart }

def growWindow (w : BitWindow α) (windowElementEnd : Nat) : BitWindow α :=
  let subwindowsNeeded :=
    (windowElementEnd + kColumnLaneCount + kSubwindowSize - 1) / kSubwindowSize
  { w with
    subwindows := w.subwindows ++ List.replicate (subwindowsNeeded - w.subwindows.length) .fresh
    count := if w.count < windowElementEnd then windowElementEnd else w.count }

/-- OriginalPacket::Initialize on an element, then its bit and the count of its subwindow. -/
def store (w : BitWindow α) (element : Nat) (data : α) : BitWindow α :=
  { w with subwindows := w.subwindows.modify (element / kSubwindowSize) fun s =>
    { originals := Function.update s.originals (element % kSubwindowSize) (some data)
      got := s.got.set (element % kSubwindowSize)
      gotCount := s.gotCount + 1 } }

def fill (w : BitWindow α) (element : Nat) (data : α) : BitWindow α :=
  let w := w.store element data
  if element = w.nextExpectedElement then w.iterateNextExpectedElement (element + 1) else w

def addOriginal (w : BitWindow α) (packetNum : Nat) (data : α) : BitWindow α × SiameseResult :=
  let element := w.columnToElement packetNum
  if isColumnDeltaNegative element then (w, .duplicateData)
  else
    let w := w.growWindow (element + 1)
    if (w.getWindowElement element).isSome then (w, .duplicateData)
    else (w.fill element data, .success)

/-- What Decoder::AddSingleRecovery does to the window. -/
def addSingleRecovery (w : BitWindow α) (columnStart : Nat) (data : α) : BitWindow α :=
  let element := w.columnToElement columnStart
  if w.invalidElement element then w
  else if (w.getWindowElement element).isSome then w
  else w.fill element data

/-- The lost elements of the checked region, of which the columns of the recovery matrix are made. -/
def lost (w : BitWindow α) (elementStart elementEnd : Nat) : List Nat :=
  (List.range' elementStart (elementEnd - elementStart)).filter fun e => !w.isGot e

/-- BackSubstitution puts the packets of the checked region in place from the right-most column on.
It gives up at a corrupted length, after `solved` columns. -/
def backSubstitution (w : BitWindow α) (elementStart nextCheckStart solved : Nat) (data : Nat → α) :
    BitWindow α :=
  let lost := w.lost elementStart nextCheckStart
  let recovered := lost.reverse.take solved
  let iterateNextExpected := w.nextExpectedElement ∈ recovered
  let w := recovered.foldl (fun w e => w.store e (data e)) w
  if lost.length ≤ solved ∧ iterateNextExpected then w.iterateNextExpectedElement nextCheckStart
  else w

/-- How Decoder::AddRecovery makes room for the range of a recovery packet it can use. -/
def addRecovery (w : BitWindow α) (metadata : RecoveryMetadata) : BitWindow α :=
  if w.count ≤ 0 then
    { w with columnStart := metadata.columnStart }.growWindow metadata.sumCount
  else
    let elementEnd := w.columnToElement (metadata.columnStart + metadata.sumCount)
    if isColumnDeltaNegative elementEnd then w else w.growWindow elementEnd

/-- The end of RemoveElements: the subwindows in front are reset and taken to the back. -/
def shift (w : BitWindow α) (firstKeptSubwindow : Nat) : BitWindow α :=
  let removedElementCount := firstKeptSubwindow * kSubwindowSize
  { count := unsignedSub w.count removedElementCount
    columnStart := w.elementToColumn removedElementCount
    nextExpectedElement := unsignedSub w.nextExpectedElement removedElementCount
    subwindows := w.subwindows.drop firstKeptSubwindow ++
      (w.subwindows.take firstKeptSubwindow).map fun _ => .fresh }

/-! The window with its bits as truth values. -/

def toSubwindow (s : BitSubwindow α) : DecoderSubwindow α := ⟨s.originals, s.got.check, s.gotCount⟩

def toWindow (w : BitWindow α) : DecoderPacketWindow α :=
  ⟨w.count, w.columnStart, w.nextExpectedElement, fun i => toSubwindow (w.getRef i)⟩

/-- No subwindow of an element is past the end of the vector. -/
def Covered (w : BitWindow α) : Prop := w.count ≤ w.subwindows.length * kSubwindowSize

@[simp] theorem toWindow_getWindowElement (w : BitWindow α) (e : Nat) :
    w.toWindow.getWindowElement e = w.getWindowElement e := rfl

@[simp] theorem toWindow_isGot (w : BitWindow α) (e : Nat) : w.toWindow.isGot e = w.isGot e := rfl

@[simp] theorem toWindow_count (w : BitWindow α) : w.toWindow.count = w.count := rfl

@[simp] theorem toWindow_nextExpectedElement (w : BitWindow α) :
    w.toWindow.nextExpectedElement = w.nextExpectedElement := rfl

@[simp] theorem toWindow_subwindows (w : BitWindow α) (i : Nat) :
    w.toWindow.subwindows i = toSubwindow (w.getRef i) := rfl

@[simp] theorem toWindow_columnToElement (w : BitWindow α) (column : Nat) :
    w.toWindow.columnToElement column = w.columnToElement column := rfl

theorem toSubwindow_fresh : toSubwindow (.fresh : BitSubwindow α) = .fresh := by
  simp only [toSubwindow, BitSubwindow.fresh, DecoderSubwindow.fresh]
  congr 1
  funext bit
  exact CustomBitSet.check_clearAll bit

theorem toWindow_initial : (initial : BitWindow α).toWindow = .initial := by
  simp only [toWindow, initial, getRef, DecoderPacketWindow.initial, List.getElem?_nil,
    Option.getD_none, toSubwindow_fresh]

/-! The scans of a subwindow. It has no unused bits. -/

section Subwindow

variable (got : CustomBitSet kSubwindowSize)

theorem unusedClear_got : got.UnusedClear := by
  intro j hj hlt
  have hwords : CustomBitSet.kWords kSubwindowSize * kWordBits = kSubwindowSize := by decide
  omega

theorem findFirstClear_got {bit : Nat} (hbit : bit < kSubwindowSize) :
    got.findFirstClear bit = firstFrom (fun b => !got.check b) bit kSubwindowSize :=
  (unusedClear_got got).findFirstClear_eq hbit

theorem findFirstSet_got {bit : Nat} (hbit : bit < kSubwindowSize) :
    got.findFirstSet bit kSubwindowSize = firstFrom got.check bit kSubwindowSize := by
  have hle : firstFrom got.check bit kSubwindowSize ≤ kSubwindowSize := firstFrom_le hbit.le
  by_cases hfound : firstFrom got.check bit kSubwindowSize < kSubwindowSize
  · exact CustomBitSet.findFirstSet_eq hbit.le hfound
  · have hnone : firstFrom got.check bit kSubwindowSize = kSubwindowSize := by omega
    rw [hnone]
    exact (unusedClear_got got).findFirstSet_end hbit hnone

theorem rangePopcount_toSubwindow (s : BitSubwindow α) (bitStart bitEnd : Nat) :
    s.got.rangePopcount bitStart bitEnd = (toSubwindow s).rangePopcount bitStart bitEnd := by
  rw [CustomBitSet.rangePopcount_eq, CustomBitSet.card_bits_eq_countP]
  rfl

end Subwindow

/-! The scans of the window. -/

theorem lostWhole_eq (w : BitWindow α) (i n : Nat) : w.lostWhole i n =
    ((List.range' i n).map fun i => kSubwindowSize - (w.toWindow.subwindows i).gotCount).sum := by
  induction n generalizing i with
  | zero => rfl
  | succ n ih =>
    rw [lostWhole, ih, List.range'_succ, List.map_cons, List.sum_cons]
    rfl

theorem rangeLostPackets_toWindow (w : BitWindow α) (elementStart elementEnd : Nat) :
    w.rangeLostPackets elementStart elementEnd =
      w.toWindow.rangeLostPackets elementStart elementEnd := by
  have hbits (n m : Nat) : (if 0 < n then n - m else 0) = n - m := by
    split_ifs <;> omega
  simp only [rangeLostPackets, DecoderPacketWindow.rangeLostPackets, lostWhole_eq,
    rangePopcount_toSubwindow, toWindow_subwindows, hbits]

theorem findNextElement_toWindow (w : BitWindow α) (mayHave : BitSubwindow α → Bool)
    (findFirst : CustomBitSet kSubwindowSize → Nat → Nat) (mayHave' : DecoderSubwindow α → Bool)
    (findFirst' : DecoderSubwindow α → Nat → Nat) (hmay : ∀ s, mayHave s = mayHave' (toSubwindow s))
    (hfind : ∀ s bit, bit < kSubwindowSize → findFirst s.got bit = findFirst' (toSubwindow s) bit)
    (n i : Nat) {bit : Nat} (hbit : bit < kSubwindowSize) :
    w.findNextElement mayHave findFirst n i bit =
      w.toWindow.findNextElement mayHave' findFirst' n i bit := by
  induction n generalizing i bit with
  | zero => rfl
  | succ n ih =>
    rw [findNextElement, DecoderPacketWindow.findNextElement, hmay, hfind _ bit hbit,
      ih (i + 1) (by decide)]
    rfl

theorem findNextLostElement_toWindow (w : BitWindow α) (elementStart : Nat) :
    w.findNextLostElement elementStart = w.toWindow.findNextLostElement elementStart := by
  have hscan := w.findNextElement_toWindow (fun s => s.gotCount < kSubwindowSize)
    CustomBitSet.findFirstClear (fun s => s.gotCount < kSubwindowSize)
    DecoderSubwindow.findFirstClear (fun _ => rfl) (fun s _ hbit => findFirstClear_got s.got hbit)
    (w.subwindowEnd - elementStart / kSubwindowSize) (elementStart / kSubwindowSize)
    (Nat.mod_lt elementStart (show 0 < kSubwindowSize by decide))
  rw [findNextLostElement, DecoderPacketWindow.findNextLostElement, hscan]
  rfl

theorem findNextGotElement_toWindow (w : BitWindow α) (elementStart : Nat) :
    w.findNextGotElement elementStart = w.toWindow.findNextGotElement elementStart := by
  have hscan := w.findNextElement_toWindow (fun s => 0 < s.gotCount)
    (fun got bit => got.findFirstSet bit kSubwindowSize) (fun s => 0 < s.gotCount)
    DecoderSubwindow.findFirstSet (fun _ => rfl) (fun s _ hbit => findFirstSet_got s.got hbit)
    (w.subwindowEnd - elementStart / kSubwindowSize) (elementStart / kSubwindowSize)
    (Nat.mod_lt elementStart (show 0 < kSubwindowSize by decide))
  rw [findNextGotElement, DecoderPacketWindow.findNextGotElement, hscan]
  rfl

/-! The operations. -/

theorem iterateNextExpectedElement_toWindow (w : BitWindow α) (elementStart : Nat) :
    (w.iterateNextExpectedElement elementStart).toWindow =
      w.toWindow.iterateNextExpectedElement elementStart := by
  rw [iterateNextExpectedElement, DecoderPacketWindow.iterateNextExpectedElement,
    findNextLostElement_toWindow]
  by_cases hall : w.count ≤ w.nextExpectedElement
  · rw [if_pos hall, if_pos (show w.toWindow.count ≤ w.toWindow.nextExpectedElement from hall)]
  · rw [if_neg hall, if_neg (show ¬w.toWindow.count ≤ w.toWindow.nextExpectedElement from hall)]
    rfl

theorem getRef_append_fresh (subwindows : List (BitSubwindow α)) (n i : Nat) :
    ((subwindows ++ List.replicate n .fresh)[i]?).getD .fresh = (subwindows[i]?).getD .fresh := by
  by_cases hi : i < subwindows.length
  · rw [List.getElem?_append_left hi]
  · rw [List.getElem?_append_right (by omega), List.getElem?_replicate,
      List.getElem?_eq_none (by omega)]
    split_ifs <;> rfl

theorem growWindow_toWindow (w : BitWindow α) (windowElementEnd : Nat) :
    (w.growWindow windowElementEnd).toWindow = w.toWindow.growWindow windowElementEnd := by
  rw [growWindow, DecoderPacketWindow.growWindow]
  by_cases hlt : w.count < windowElementEnd
  · rw [if_pos (show w.toWindow.count < _ from hlt)]
    simp only [toWindow, getRef, getRef_append_fresh, if_pos hlt]
  · rw [if_neg (show ¬w.toWindow.count < _ from hlt)]
    simp only [toWindow, getRef, getRef_append_fresh, if_neg hlt]

theorem Covered.growWindow {w : BitWindow α} (h : w.Covered) (windowElementEnd : Nat) :
    (w.growWindow windowElementEnd).Covered := by
  simp only [Covered, BitWindow.growWindow, List.length_append, List.length_replicate, kSubwindowSize,
    kColumnLaneCount] at *
  split_ifs <;> omega

theorem store_toWindow {w : BitWindow α} (h : w.Covered) {e : Nat} (he : e < w.count) (data : α) :
    (w.store e data).toWindow = w.toWindow.store e data := by
  have hlt : e / kSubwindowSize < w.subwindows.length := by
    have := Nat.div_lt_iff_lt_mul (x := e) (y := w.subwindows.length)
      (show 0 < kSubwindowSize by decide)
    rw [this]
    exact he.trans_le h
  simp only [toWindow, store, DecoderPacketWindow.store]
  congr 1
  funext i
  rw [Function.update_apply]
  by_cases hi : i = e / kSubwindowSize
  · subst hi
    rw [if_pos rfl]
    simp only [getRef, List.getElem?_modify_eq, List.getElem?_eq_getElem hlt, Option.map_eq_map,
      Option.map_some, Option.getD_some, toSubwindow]
    congr 1
    funext bit
    rw [CustomBitSet.check_set, Function.update_apply]
  · rw [if_neg hi]
    simp only [getRef, List.getElem?_modify_ne _ _ (Ne.symm hi)]

theorem Covered.store {w : BitWindow α} (h : w.Covered) (e : Nat) (data : α) :
    (w.store e data).Covered := by
  simpa only [Covered, BitWindow.store, List.length_modify] using h

theorem Covered.iterateNextExpectedElement {w : BitWindow α} (h : w.Covered) (e : Nat) :
    (w.iterateNextExpectedElement e).Covered := by
  unfold BitWindow.iterateNextExpectedElement
  split_ifs <;> exact h

theorem fill_toWindow {w : BitWindow α} (h : w.Covered) {e : Nat} (he : e < w.count) (data : α) :
    (w.fill e data).toWindow = w.toWindow.fill e data := by
  rw [fill, DecoderPacketWindow.fill, ← store_toWindow h he]
  by_cases hnext : e = (w.store e data).nextExpectedElement
  · rw [if_pos hnext, if_pos (show e = (w.store e data).toWindow.nextExpectedElement from hnext),
      iterateNextExpectedElement_toWindow]
  · rw [if_neg hnext, if_neg (show ¬e = (w.store e data).toWindow.nextExpectedElement from hnext)]

theorem Covered.fill {w : BitWindow α} (h : w.Covered) (e : Nat) (data : α) :
    (w.fill e data).Covered := by
  simp only [BitWindow.fill]
  split_ifs
  · exact (h.store e data).iterateNextExpectedElement _
  · exact h.store e data

theorem shift_toWindow (w : BitWindow α) (k : Nat) :
    (w.shift k).toWindow = w.toWindow.shift k := by
  simp only [toWindow, shift, DecoderPacketWindow.shift, DecoderPacketWindow.elementToColumn,
    elementToColumn]
  congr 1
  funext i
  have hreset : (w.subwindows.take k).map (fun _ => (.fresh : BitSubwindow α)) =
      List.replicate (w.subwindows.take k).length .fresh := List.map_const
  simp only [getRef]
  rw [hreset, getRef_append_fresh, List.getElem?_drop, Nat.add_comm]

end BitWindow
end Tonk.Siamese
