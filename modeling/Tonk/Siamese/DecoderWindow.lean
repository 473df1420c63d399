import Tonk.Lib.Search
import Tonk.Siamese.Common

/-!
`DecoderPacketWindow`: the packets the decoder holds, in subwindows with a bit for each packet that
is there, and the scans over them. The subwindow vector is a function: those behind its end are the
fresh ones GrowWindow would append. The data of a packet is any type; a buffer of zero bytes is
`none`.
-/

set_option autoImplicit false

namespace Tonk.Siamese
open Search

structure DecoderSubwindow (α : Type) where
  originals : Nat → Option α
  got : Nat → Bool
  gotCount : Nat

def DecoderSubwindow.fresh {α : Type} : DecoderSubwindow α := ⟨fun _ => none, fun _ => false, 0⟩

def DecoderSubwindow.findFirstClear {α : Type} (s : DecoderSubwindow α) (bitIndex : Nat) : Nat :=
  firstFrom (fun b => !s.got b) bitIndex kSubwindowSize

def DecoderSubwindow.findFirstSet {α : Type} (s : DecoderSubwindow α) (bitIndex : Nat) : Nat :=
  firstFrom s.got bitIndex kSubwindowSize

structure DecoderPacketWindow (α : Type) where
  count : Nat
  columnStart : Nat
  nextExpectedElement : Nat
  subwindows : Nat → DecoderSubwindow α

namespace DecoderPacketWindow

variable {α : Type}

def initial : DecoderPacketWindow α := ⟨0, 0, 0, fun _ => .fresh⟩

def columnToElement (w : DecoderPacketWindow α) (column : Nat) : Nat :=
  subtractColumns column w.columnStart

def elementToColumn (w : DecoderPacketWindow α) (element : Nat) : Nat :=
  addColumns element w.columnStart

def invalidElement (w : DecoderPacketWindow α) (element : Nat) : Bool := w.count ≤ element

def getWindowElement (w : DecoderPacketWindow α) (element : Nat) : Option α :=
  (w.subwindows (element / kSubwindowSize)).originals (element % kSubwindowSize)

/-- The bit of an element. -/
def isGot (w : DecoderPacketWindow α) (element : Nat) : Bool :=
  (w.subwindows (element / kSubwindowSize)).got (element % kSubwindowSize)

/-- The loop of FindNextLostElement and FindNextGotElement over the subwindows from
`subwindowIndex` on. -/
def findNextElement (w : DecoderPacketWindow α) (mayHave : DecoderSubwindow α → Bool)
    (findFirst : DecoderSubwindow α → Nat → Nat) : Nat → Nat → Nat → Nat
  | 0, _, _ => w.count
  | n + 1, subwindowIndex, bitIndex =>
    let subwindow := w.subwindows subwindowIndex
    if mayHave subwindow then
      let bit := findFirst subwindow bitIndex
      if kSubwindowSize ≤ bit then w.findNextElement mayHave findFirst n (subwindowIndex + 1) 0
      else
        let nextElement := subwindowIndex * kSubwindowSize + bit
        if w.count < nextElement then w.count else nextElement
    else w.findNextElement mayHave findFirst n (subwindowIndex + 1) 0

def subwindowEnd (w : DecoderPacketWindow α) : Nat :=
  (w.count + kSubwindowSize - 1) / kSubwindowSize

def findNextLostElement (w : DecoderPacketWindow α) (elementStart : Nat) : Nat :=
  if w.count ≤ elementStart then w.count
  else w.findNextElement (fun s => s.gotCount < kSubwindowSize) DecoderSubwindow.findFirstClear
    (w.subwindowEnd - elementStart / kSubwindowSize) (elementStart / kSubwindowSize)
    (elementStart % kSubwindowSize)

def findNextGotElement (w : DecoderPacketWindow α) (elementStart : Nat) : Nat :=
  if w.count ≤ elementStart then w.count
  else w.findNextElement (fun s => 0 < s.gotCount) DecoderSubwindow.findFirstSet
    (w.subwindowEnd - elementStart / kSubwindowSize) (elementStart / kSubwindowSize)
    (elementStart % kSubwindowSize)

def iterateNextExpectedElement (w : DecoderPacketWindow α) (elementStart : Nat) :
    DecoderPacketWindow α :=
  if w.count ≤ w.nextExpectedElement then w
  else { w with nextExpectedElement := w.findNextLostElement elementStart }

def growWindow (w : DecoderPacketWindow α) (windowElementEnd : Nat) : DecoderPacketWindow α :=
  if w.count < windowElementEnd then { w with count := windowElementEnd } else w

/-- OriginalPacket::Initialize on an element, then its bit and the count of its subwindow. -/
def store (w : DecoderPacketWindow α) (element : Nat) (data : α) : DecoderPacketWindow α :=
  let s := w.subwindows (element / kSubwindowSize)
  let s := { s with
    originals := Function.update s.originals (element % kSubwindowSize) (some data)
    got := Function.update s.got (element % kSubwindowSize) true
    gotCount := s.gotCount + 1 }
  { w with subwindows := Function.update w.subwindows (element / kSubwindowSize) s }

/-- What AddOriginal and the paths that recover packets do once the element is known to be new. -/
def fill (w : DecoderPacketWindow α) (element : Nat) (data : α) : DecoderPacketWindow α :=
  let w := w.store element data
  if element = w.nextExpectedElement then w.iterateNextExpectedElement (element + 1) else w

def addOriginal (w : DecoderPacketWindow α) (packetNum : Nat) (data : α) :
    DecoderPacketWindow α × SiameseResult :=
  let element := w.columnToElement packetNum
  if isColumnDeltaNegative element then (w, .duplicateData)
  else
    let w := w.growWindow (element + 1)
    if (w.getWindowElement element).isSome then (w, .duplicateData)
    else (w.fill element data, .success)

/-- The end of RemoveElements: the subwindows in front are reset and taken to the back. -/
def shift (w : DecoderPacketWindow α) (firstKeptSubwindow : Nat) : DecoderPacketWindow α :=
  let removedElementCount := firstKeptSubwindow * kSubwindowSize
  { count := unsignedSub w.count removedElementCount
    columnStart := w.elementToColumn removedElementCount
    nextExpectedElement := unsignedSub w.nextExpectedElement removedElementCount
    subwindows := fun i => w.subwindows (i + firstKeptSubwindow) }

/-- GotCount is the number of bits set in each subwindow. -/
def Counted (w : DecoderPacketWindow α) : Prop :=
  ∀ i, (w.subwindows i).gotCount = (List.range kSubwindowSize).countP (w.subwindows i).got

/-- What every operation keeps. No element is half a column period past the start of the window. -/
structure Sound (w : DecoderPacketWindow α) : Prop where
  columnStart_lt : w.columnStart < kColumnPeriod
  count_le : w.count ≤ kColumnPeriod / 2
  counted : w.Counted
  got_eq : ∀ e, w.isGot e = (w.getWindowElement e).isSome
  got_lt : ∀ e, w.isGot e = true → e < w.count
  next_le : w.nextExpectedElement ≤ w.count
  before_next : ∀ e, e < w.nextExpectedElement → w.isGot e = true
  at_next : w.nextExpectedElement < w.count → w.isGot w.nextExpectedElement = false

theorem isGot_eq (w : DecoderPacketWindow α) (i : Nat) {b : Nat} (hb : b < kSubwindowSize) :
    w.isGot (i * kSubwindowSize + b) = (w.subwindows i).got b := by
  have hpos : 0 < kSubwindowSize := by decide
  rw [isGot, Nat.mul_comm, Nat.mul_add_div hpos, Nat.div_eq_of_lt hb, Nat.mul_add_mod,
    Nat.mod_eq_of_lt hb, Nat.add_zero]

section Scan

variable {w : DecoderPacketWindow α} {mayHave : DecoderSubwindow α → Bool}
  {findFirst : DecoderSubwindow α → Nat → Nat} {t : Bool → Bool}

theorem findNextElement_eq
    (hfind : ∀ s bit, findFirst s bit = firstFrom (fun b => t (s.got b)) bit kSubwindowSize)
    (hskip : ∀ i, mayHave (w.subwindows i) = false →
      ∀ b, b < kSubwindowSize → t ((w.subwindows i).got b) = false)
    (n i bit : Nat) (hbit : bit < kSubwindowSize) (hn : w.count ≤ (i + n) * kSubwindowSize) :
    w.findNextElement mayHave findFirst n i bit =
      min w.count (firstFrom (fun e => t (w.isGot e)) (i * kSubwindowSize + bit)
        ((i + n) * kSubwindowSize)) := by
  induction n generalizing i bit with
  | zero =>
    have hge : i * kSubwindowSize + bit ≤ firstFrom (fun e => t (w.isGot e))
      (i * kSubwindowSize + bit) ((i + 0) * kSubwindowSize) := le_firstFrom
    rw [findNextElement, Nat.min_eq_left]
    rw [Nat.add_zero] at hn
    omega
  | succ n ih =>
    have hstop : (i + 1) * kSubwindowSize ≤ (i + (n + 1)) * kSubwindowSize :=
      Nat.mul_le_mul_right _ (by omega)
    have hsucc : (i + 1) * kSubwindowSize = i * kSubwindowSize + kSubwindowSize :=
      Nat.succ_mul i kSubwindowSize
    have hnext : (∀ b, bit ≤ b → b < kSubwindowSize → t ((w.subwindows i).got b) = false) →
        w.findNextElement mayHave findFirst n (i + 1) 0 =
          min w.count (firstFrom (fun e => t (w.isGot e)) (i * kSubwindowSize + bit)
            ((i + (n + 1)) * kSubwindowSize)) := by
      intro hnone
      have h := ih (i + 1) 0 (by decide) (by rw [Nat.add_assoc, Nat.add_comm 1 n]; exact hn)
      rw [h, Nat.add_zero, Nat.add_assoc, Nat.add_comm 1 n]
      rw [firstFrom_skip (i := i * kSubwindowSize + bit) (by omega) hstop]
      intro k hk hlt
      have hb := w.isGot_eq i (b := k - i * kSubwindowSize) (by omega)
      rw [Nat.add_sub_cancel' (by omega)] at hb
      simp only [hb]
      exact hnone _ (by omega) (by omega)
    rw [findNextElement]
    simp only
    split
    · rw [hfind]
      split
      · next hfull =>
        refine hnext fun b hb hlt => ?_
        exact firstFrom_before (p := fun b => t ((w.subwindows i).got b)) hb
          (Nat.lt_of_lt_of_le hlt hfull)
      · next hfound =>
        have hlt := Nat.lt_of_not_le hfound
        have hge : bit ≤ firstFrom (fun b => t ((w.subwindows i).got b)) bit kSubwindowSize :=
          le_firstFrom
        have hpass := firstFrom_passes hlt
        have hfirst : firstFrom (fun e => t (w.isGot e)) (i * kSubwindowSize + bit)
            ((i + (n + 1)) * kSubwindowSize) = i * kSubwindowSize +
              firstFrom (fun b => t ((w.subwindows i).got b)) bit kSubwindowSize := by
          refine firstFrom_eq (by omega) (by omega) (fun k hk hlt' => ?_) fun _ => ?_
          · have hb := w.isGot_eq i (b := k - i * kSubwindowSize) (by omega)
            rw [Nat.add_sub_cancel' (by omega)] at hb
            simp only [hb]
            have hk' : k - i * kSubwindowSize < firstFrom
                (fun b => t ((w.subwindows i).got b)) bit kSubwindowSize := by omega
            exact firstFrom_before (p := fun b => t ((w.subwindows i).got b)) (by omega) hk'
          · simp only [w.isGot_eq i hlt]
            exact hpass
        rw [hfirst]
        split <;> omega
    · next hno =>
      exact hnext fun b _ hlt => hskip i (by simpa using hno) b hlt

end Scan

theorem lt_subwindowEnd (w : DecoderPacketWindow α) :
    w.count ≤ w.subwindowEnd * kSubwindowSize := by
  simp only [subwindowEnd, kSubwindowSize, kColumnLaneCount]
  omega

theorem findNextElement_scan {w : DecoderPacketWindow α} {mayHave : DecoderSubwindow α → Bool}
    {findFirst : DecoderSubwindow α → Nat → Nat} {t : Bool → Bool}
    (hfind : ∀ s bit, findFirst s bit = firstFrom (fun b => t (s.got b)) bit kSubwindowSize)
    (hskip : ∀ i, mayHave (w.subwindows i) = false →
      ∀ b, b < kSubwindowSize → t ((w.subwindows i).got b) = false)
    {e : Nat} (he : e < w.count) :
    w.findNextElement mayHave findFirst (w.subwindowEnd - e / kSubwindowSize)
        (e / kSubwindowSize) (e % kSubwindowSize) =
      firstFrom (fun e => t (w.isGot e)) e w.count := by
  have hend := w.lt_subwindowEnd
  have hdiv : e / kSubwindowSize ≤ w.subwindowEnd := by
    simp only [subwindowEnd, kSubwindowSize, kColumnLaneCount]
    omega
  have hsum : e / kSubwindowSize + (w.subwindowEnd - e / kSubwindowSize) = w.subwindowEnd := by
    omega
  rw [findNextElement_eq hfind hskip _ _ _ (Nat.mod_lt _ (by decide)) (by rw [hsum]; exact hend),
    hsum, Nat.div_add_mod']
  exact min_firstFrom (Nat.le_of_lt he) hend

theorem Counted.findNextLostElement_eq {w : DecoderPacketWindow α} (h : w.Counted) {e : Nat}
    (he : e ≤ w.count) :
    w.findNextLostElement e = firstFrom (fun e => !w.isGot e) e w.count := by
  unfold findNextLostElement
  split
  · have : e = w.count := by omega
    subst this
    simp [firstFrom, findFrom]
  · refine findNextElement_scan (t := not) (fun _ _ => rfl) (fun i hi b hb => ?_) (by omega)
    have hcount := h i
    have hlen : (List.range kSubwindowSize).countP (w.subwindows i).got =
        (List.range kSubwindowSize).length := by
      have hle := List.countP_le_length (p := (w.subwindows i).got) (l := List.range kSubwindowSize)
      rw [List.length_range] at hle ⊢
      simp only [decide_eq_false_iff_not] at hi
      omega
    rw [List.countP_eq_length] at hlen
    simp [hlen b (List.mem_range.mpr hb)]

theorem Counted.findNextGotElement_eq {w : DecoderPacketWindow α} (h : w.Counted) {e : Nat}
    (he : e ≤ w.count) : w.findNextGotElement e = firstFrom w.isGot e w.count := by
  unfold findNextGotElement
  split
  · have : e = w.count := by omega
    subst this
    simp [firstFrom, findFrom]
  · refine findNextElement_scan (t := id) (fun _ _ => rfl) (fun i hi b hb => ?_) (by omega)
    have hcount := h i
    have hzero : (List.range kSubwindowSize).countP (w.subwindows i).got = 0 := by
      simp only [decide_eq_false_iff_not] at hi
      omega
    rw [List.countP_eq_zero] at hzero
    simpa using hzero b (List.mem_range.mpr hb)

theorem sound_initial : (initial : DecoderPacketWindow α).Sound where
  columnStart_lt := show 0 < kColumnPeriod by decide
  count_le := Nat.zero_le _
  counted _ := by simp [initial, DecoderSubwindow.fresh]
  got_eq _ := rfl
  got_lt e h := by simp [initial, isGot, DecoderSubwindow.fresh] at h
  next_le := Nat.le_refl 0
  before_next e h := absurd h (Nat.not_lt_zero e)
  at_next h := absurd h (Nat.not_lt_zero _)

/-! Storing a packet. -/

theorem element_eq_iff (e e' : Nat) :
    e' / kSubwindowSize = e / kSubwindowSize ∧ e' % kSubwindowSize = e % kSubwindowSize ↔
      e' = e := by
  simp only [kSubwindowSize, kColumnLaneCount]
  omega

@[simp] theorem store_count (w : DecoderPacketWindow α) (e : Nat) (data : α) :
    (w.store e data).count = w.count := rfl

@[simp] theorem store_columnStart (w : DecoderPacketWindow α) (e : Nat) (data : α) :
    (w.store e data).columnStart = w.columnStart := rfl

@[simp] theorem store_nextExpectedElement (w : DecoderPacketWindow α) (e : Nat) (data : α) :
    (w.store e data).nextExpectedElement = w.nextExpectedElement := rfl

theorem store_isGot (w : DecoderPacketWindow α) (e e' : Nat) (data : α) :
    (w.store e data).isGot e' = if e' = e then true else w.isGot e' := by
  have hiff := element_eq_iff e e'
  simp only [isGot, store, Function.update_apply]
  by_cases hdiv : e' / kSubwindowSize = e / kSubwindowSize
  · by_cases hmod : e' % kSubwindowSize = e % kSubwindowSize
    · simp [hiff.mp ⟨hdiv, hmod⟩]
    · have hne : e' ≠ e := fun h => hmod (hiff.mpr h).2
      simp [hdiv, hmod, hne]
  · have hne : e' ≠ e := fun h => hdiv (hiff.mpr h).1
    simp [hdiv, hne]

theorem store_getWindowElement (w : DecoderPacketWindow α) (e e' : Nat) (data : α) :
    (w.store e data).getWindowElement e' = if e' = e then some data else w.getWindowElement e' := by
  have hiff := element_eq_iff e e'
  simp only [getWindowElement, store, Function.update_apply]
  by_cases hdiv : e' / kSubwindowSize = e / kSubwindowSize
  · by_cases hmod : e' % kSubwindowSize = e % kSubwindowSize
    · simp [hiff.mp ⟨hdiv, hmod⟩]
    · have hne : e' ≠ e := fun h => hmod (hiff.mpr h).2
      simp [hdiv, hmod, hne]
  · have hne : e' ≠ e := fun h => hdiv (hiff.mpr h).1
    simp [hdiv, hne]

theorem countP_update {p : Nat → Bool} {n b : Nat} (hb : b < n) (hp : p b = false) :
    (List.range n).countP (Function.update p b true) = (List.range n).countP p + 1 := by
  induction n with
  | zero => exact absurd hb (Nat.not_lt_zero b)
  | succ n ih =>
    rw [List.range_succ, List.countP_append, List.countP_append]
    by_cases hbn : b = n
    · subst hbn
      have hsame : (List.range b).countP (Function.update p b true) = (List.range b).countP p := by
        refine List.countP_congr fun x hx => ?_
        rw [Function.update_of_ne (Nat.ne_of_lt (List.mem_range.mp hx))]
      simp [hsame, hp]
    · rw [ih (by omega)]
      have hne : n ≠ b := fun h => hbn h.symm
      simp only [List.countP_singleton, Function.update_of_ne hne]
      omega

theorem Counted.store {w : DecoderPacketWindow α} (h : w.Counted) {e : Nat}
    (hnew : w.isGot e = false) (data : α) : (w.store e data).Counted := by
  intro i
  simp only [DecoderPacketWindow.store]
  by_cases hi : i = e / kSubwindowSize
  · subst hi
    rw [Function.update_self, countP_update (Nat.mod_lt _ (by decide)) hnew]
    simp [h (e / kSubwindowSize)]
  · rw [Function.update_of_ne hi]
    exact h i

theorem nextExpectedElement_eq {w : DecoderPacketWindow α} (h : w.Sound) :
    firstFrom (fun e => !w.isGot e) 0 w.count = w.nextExpectedElement := by
  refine firstFrom_eq (Nat.zero_le _) h.next_le (fun e _ he => ?_) fun hlt => ?_
  · simp [h.before_next e he]
  · simp [h.at_next hlt]

theorem Sound.growWindow {w : DecoderPacketWindow α} (h : w.Sound) {windowElementEnd : Nat}
    (hend : windowElementEnd ≤ kColumnPeriod / 2) : (w.growWindow windowElementEnd).Sound := by
  unfold DecoderPacketWindow.growWindow
  split
  · next hlt =>
    refine ⟨h.columnStart_lt, hend, h.counted, h.got_eq, fun e he => ?_, ?_, h.before_next,
      fun hn => ?_⟩
    · exact Nat.lt_trans (h.got_lt e he) hlt
    · exact Nat.le_trans h.next_le (Nat.le_of_lt hlt)
    · by_contra hgot
      have hgot' : w.isGot w.nextExpectedElement = true := Bool.of_not_eq_false hgot
      exact hgot (h.at_next (h.got_lt w.nextExpectedElement hgot'))
  · exact h

@[simp] theorem growWindow_isGot (w : DecoderPacketWindow α) (n e : Nat) :
    (w.growWindow n).isGot e = w.isGot e := by
  unfold growWindow
  split <;> rfl

@[simp] theorem growWindow_getWindowElement (w : DecoderPacketWindow α) (n e : Nat) :
    (w.growWindow n).getWindowElement e = w.getWindowElement e := by
  unfold growWindow
  split <;> rfl

@[simp] theorem growWindow_columnStart (w : DecoderPacketWindow α) (n : Nat) :
    (w.growWindow n).columnStart = w.columnStart := by
  unfold growWindow
  split <;> rfl

@[simp] theorem growWindow_nextExpectedElement (w : DecoderPacketWindow α) (n : Nat) :
    (w.growWindow n).nextExpectedElement = w.nextExpectedElement := by
  unfold growWindow
  split <;> rfl

theorem growWindow_count (w : DecoderPacketWindow α) (n : Nat) :
    (w.growWindow n).count = max w.count n := by
  unfold growWindow
  split
  · simp only
    omega
  · omega

theorem fill_of_eq {w : DecoderPacketWindow α} {e : Nat} (he : e = w.nextExpectedElement)
    {data : α} : w.fill e data = (w.store e data).iterateNextExpectedElement (e + 1) :=
  if_pos he

theorem fill_of_ne {w : DecoderPacketWindow α} {e : Nat} (he : e ≠ w.nextExpectedElement)
    {data : α} : w.fill e data = w.store e data :=
  if_neg he

@[simp] theorem fill_count (w : DecoderPacketWindow α) (e : Nat) (data : α) :
    (w.fill e data).count = w.count := by
  simp only [fill, iterateNextExpectedElement]
  split
  · split <;> rfl
  · rfl

@[simp] theorem fill_columnStart (w : DecoderPacketWindow α) (e : Nat) (data : α) :
    (w.fill e data).columnStart = w.columnStart := by
  simp only [fill, iterateNextExpectedElement]
  split
  · split <;> rfl
  · rfl

theorem fill_subwindows (w : DecoderPacketWindow α) (e : Nat) (data : α) :
    (w.fill e data).subwindows = (w.store e data).subwindows := by
  simp only [fill, iterateNextExpectedElement]
  split
  · split <;> rfl
  · rfl

theorem fill_isGot (w : DecoderPacketWindow α) (e e' : Nat) (data : α) :
    (w.fill e data).isGot e' = if e' = e then true else w.isGot e' := by
  rw [isGot, fill_subwindows]
  exact w.store_isGot e e' data

theorem fill_getWindowElement (w : DecoderPacketWindow α) (e e' : Nat) (data : α) :
    (w.fill e data).getWindowElement e' = if e' = e then some data else w.getWindowElement e' := by
  rw [getWindowElement, fill_subwindows]
  exact w.store_getWindowElement e e' data

/-- Filling a missing element keeps the window sound: NextExpectedElement moves on only when it is
the one filled, and then to the next one missing. -/
theorem Sound.fill {w : DecoderPacketWindow α} (h : w.Sound) {e : Nat} (he : e < w.count)
    (hnew : w.isGot e = false) (data : α) : (w.fill e data).Sound := by
  have hcounted : (w.store e data).Counted := h.counted.store hnew data
  have hgot : ∀ e', (w.fill e data).isGot e' = if e' = e then true else w.isGot e' :=
    fun e' => w.fill_isGot e e' data
  have hle : w.nextExpectedElement ≤ e := by
    by_contra hlt
    rw [h.before_next e (by omega)] at hnew
    exact absurd hnew (by decide)
  have hnext : (w.fill e data).nextExpectedElement =
      firstFrom (fun e' => !(w.fill e data).isGot e') 0 w.count := by
    symm
    by_cases heq : e = w.nextExpectedElement
    · have hfound : (w.fill e data).nextExpectedElement =
          firstFrom (fun e' => !(w.store e data).isGot e') (e + 1) w.count := by
        have hlost := hcounted.findNextLostElement_eq (e := e + 1) (by rw [store_count]; omega)
        rw [fill_of_eq heq, iterateNextExpectedElement,
          if_neg (by rw [store_count, store_nextExpectedElement]; omega)]
        exact hlost
      rw [hfound]
      simp only [w.store_isGot, hgot]
      refine firstFrom_skip (Nat.zero_le _) (by omega) fun k _ hk => ?_
      by_cases hke : k = e
      · simp [hke]
      · simp [hke, h.before_next k (by omega)]
    · have hsame : (w.fill e data).nextExpectedElement = w.nextExpectedElement := by
        rw [fill_of_ne heq, store_nextExpectedElement]
      rw [hsame]
      refine firstFrom_eq (Nat.zero_le _) h.next_le (fun k _ hk => ?_) fun hlt => ?_
      · simp [hgot, h.before_next k hk]
      · have hne : w.nextExpectedElement ≠ e := fun hc => heq hc.symm
        simp [hgot, hne, h.at_next hlt]
  refine ⟨?_, ?_, ?_, fun e' => ?_, fun e' hge => ?_, ?_, fun e' hlt => ?_, fun hlt => ?_⟩
  · rw [fill_columnStart]
    exact h.columnStart_lt
  · rw [fill_count]
    exact h.count_le
  · intro i
    rw [fill_subwindows]
    exact hcounted i
  · rw [hgot, fill_getWindowElement, h.got_eq]
    split <;> rfl
  · rw [hgot] at hge
    rw [fill_count]
    split at hge
    · omega
    · exact h.got_lt e' hge
  · rw [hnext, fill_count]
    exact firstFrom_le (Nat.zero_le _)
  · have hb := firstFrom_before (Nat.zero_le e') (by rw [← hnext]; exact hlt)
    simpa using hb
  · rw [fill_count] at hlt
    have hb := firstFrom_passes (by rw [← hnext]; exact hlt)
    rw [← hnext] at hb
    simpa using hb

theorem Sound.addOriginal {w : DecoderPacketWindow α} (h : w.Sound) (packetNum : Nat) (data : α) :
    (w.addOriginal packetNum data).1.Sound := by
  unfold DecoderPacketWindow.addOriginal
  simp only
  split
  · exact h
  · next hneg =>
    have hlt : w.columnToElement packetNum < kColumnPeriod / 2 := by
      simpa [isColumnDeltaNegative] using hneg
    have hgrown := h.growWindow
      (show w.columnToElement packetNum + 1 ≤ kColumnPeriod / 2 by omega)
    split
    · exact hgrown
    · next hnone =>
      refine hgrown.fill ?_ ?_ data
      · rw [growWindow_count]
        omega
      · rw [hgrown.got_eq]
        simpa using hnone

/-! Sliding the window. -/

theorem shift_isGot (w : DecoderPacketWindow α) (k e : Nat) :
    (w.shift k).isGot e = w.isGot (e + k * kSubwindowSize) := by
  have hpos : 0 < kSubwindowSize := by decide
  simp only [isGot, shift]
  rw [Nat.add_mul_div_right _ _ hpos, Nat.add_mul_mod_self_right]

theorem shift_getWindowElement (w : DecoderPacketWindow α) (k e : Nat) :
    (w.shift k).getWindowElement e = w.getWindowElement (e + k * kSubwindowSize) := by
  have hpos : 0 < kSubwindowSize := by decide
  simp only [getWindowElement, shift]
  rw [Nat.add_mul_div_right _ _ hpos, Nat.add_mul_mod_self_right]

theorem Sound.count_lt {w : DecoderPacketWindow α} (h : w.Sound) : w.count < 2 ^ 32 := by
  have hcount := h.count_le
  simp only [kColumnPeriod] at hcount
  omega

theorem Sound.shift_count {w : DecoderPacketWindow α} (h : w.Sound) {k : Nat}
    (hk : k * kSubwindowSize ≤ w.nextExpectedElement) :
    (w.shift k).count = w.count - k * kSubwindowSize :=
  unsignedSub_eq (Nat.le_trans hk h.next_le) h.count_lt

theorem Sound.shift_next {w : DecoderPacketWindow α} (h : w.Sound) {k : Nat}
    (hk : k * kSubwindowSize ≤ w.nextExpectedElement) :
    (w.shift k).nextExpectedElement = w.nextExpectedElement - k * kSubwindowSize :=
  unsignedSub_eq hk (Nat.lt_of_le_of_lt h.next_le h.count_lt)

theorem Sound.shift {w : DecoderPacketWindow α} (h : w.Sound) {k : Nat}
    (hk : k * kSubwindowSize ≤ w.nextExpectedElement) : (w.shift k).Sound := by
  have hcount := h.shift_count hk
  have hnext := h.shift_next hk
  have hle := h.next_le
  refine ⟨Nat.mod_lt _ (by decide), ?_, fun i => h.counted (i + k), fun e => ?_, fun e he => ?_,
    ?_, fun e he => ?_, fun hlt => ?_⟩
  · have := h.count_le
    omega
  · rw [shift_isGot, shift_getWindowElement]
    exact h.got_eq _
  · rw [shift_isGot] at he
    have := h.got_lt _ he
    omega
  · omega
  · rw [shift_isGot]
    exact h.before_next _ (by omega)
  · rw [shift_isGot, hnext, Nat.sub_add_cancel hk]
    exact h.at_next (by omega)

/-! Packets recovered all at once. -/

theorem foldl_store_isGot (w : DecoderPacketWindow α) (data : Nat → α) (es : List Nat) (e : Nat) :
    (es.foldl (fun w e => w.store e (data e)) w).isGot e = (decide (e ∈ es) || w.isGot e) := by
  induction es generalizing w with
  | nil => simp
  | cons x es ih =>
    rw [List.foldl_cons, ih, store_isGot]
    by_cases hx : e = x
    · simp [hx]
    · simp [hx]

theorem foldl_store_columnStart (w : DecoderPacketWindow α) (data : Nat → α) (es : List Nat) :
    (es.foldl (fun w e => w.store e (data e)) w).columnStart = w.columnStart ∧
      (es.foldl (fun w e => w.store e (data e)) w).count = w.count ∧
      (es.foldl (fun w e => w.store e (data e)) w).nextExpectedElement =
        w.nextExpectedElement := by
  induction es generalizing w with
  | nil => exact ⟨rfl, rfl, rfl⟩
  | cons x es ih => exact ih (w.store x (data x))

theorem Counted.foldl_store {w : DecoderPacketWindow α} (h : w.Counted) (data : Nat → α)
    {es : List Nat} (hnodup : es.Nodup) (hnew : ∀ e ∈ es, w.isGot e = false) :
    (es.foldl (fun w e => w.store e (data e)) w).Counted := by
  induction es generalizing w with
  | nil => exact h
  | cons x es ih =>
    rw [List.nodup_cons] at hnodup
    refine ih (h.store (hnew x List.mem_cons_self) _) hnodup.2 fun e he => ?_
    have hne : e ≠ x := fun hc => hnodup.1 (hc ▸ he)
    rw [store_isGot, if_neg hne]
    exact hnew e (List.mem_cons_of_mem _ he)

theorem foldl_store_got_eq {w : DecoderPacketWindow α}
    (h : ∀ e, w.isGot e = (w.getWindowElement e).isSome) (data : Nat → α) (es : List Nat) (e : Nat) :
    (es.foldl (fun w e => w.store e (data e)) w).isGot e =
      ((es.foldl (fun w e => w.store e (data e)) w).getWindowElement e).isSome := by
  induction es generalizing w with
  | nil => exact h e
  | cons x es ih =>
    refine ih fun e' => ?_
    rw [store_isGot, store_getWindowElement]
    split
    · rfl
    · exact h e'

theorem Sound.recover {w : DecoderPacketWindow α} (h : w.Sound) (data : Nat → α) {es : List Nat}
    {stop : Nat} (hnodup : es.Nodup) (hes : ∀ e ∈ es, e < stop ∧ w.isGot e = false)
    (hall : ∀ e, e < stop → w.isGot e = true ∨ e ∈ es) (hstop : stop ≤ w.count)
    (hnext : w.nextExpectedElement < stop) :
    ((es.foldl (fun w e => w.store e (data e)) w).iterateNextExpectedElement stop).Sound ∧
      stop ≤ ((es.foldl (fun w e => w.store e (data e)) w).iterateNextExpectedElement
        stop).nextExpectedElement := by
  have hgot := w.foldl_store_isGot data es
  obtain ⟨hcolumn, hcount, hnext'⟩ := w.foldl_store_columnStart data es
  have hcounted := h.counted.foldl_store data hnodup fun e he => (hes e he).2
  have hsome := foldl_store_got_eq h.got_eq data es
  revert hgot hcolumn hcount hnext' hcounted hsome
  generalize es.foldl (fun w e => w.store e (data e)) w = w'
  intro hgot hcolumn hcount hnext' hcounted hsome
  have hiter : w'.iterateNextExpectedElement stop =
      { w' with nextExpectedElement := firstFrom (fun e => !w'.isGot e) stop w'.count } := by
    rw [iterateNextExpectedElement, if_neg (by omega),
      hcounted.findNextLostElement_eq (by omega)]
  have hge : stop ≤ firstFrom (fun e => !w'.isGot e) stop w'.count := le_firstFrom
  have hlow : ∀ e, e < stop → w'.isGot e = true := fun e he => by
    rw [hgot]
    rcases hall e he with he | he <;> simp [he]
  rw [hiter]
  refine ⟨⟨?_, ?_, hcounted, hsome, fun e he => ?_, ?_, fun e he => ?_, fun hlt => ?_⟩, hge⟩
  · simp only
    rw [hcolumn]
    exact h.columnStart_lt
  · simp only
    rw [hcount]
    exact h.count_le
  · have he' : w'.isGot e = true := he
    rw [hgot, Bool.or_eq_true, decide_eq_true_eq] at he'
    simp only
    rcases he' with he' | he'
    · have := (hes e he').1
      omega
    · have := h.got_lt e he'
      omega
  · exact firstFrom_le (by omega)
  · by_cases hlt : e < stop
    · exact hlow e hlt
    · have hb := firstFrom_before (p := fun e => !w'.isGot e) (by omega) he
      simp only [Bool.not_eq_eq_eq_not, Bool.not_false] at hb
      exact hb
  · have hb := firstFrom_passes (p := fun e => !w'.isGot e) hlt
    simp only [Bool.not_eq_eq_eq_not, Bool.not_true] at hb
    exact hb

end DecoderPacketWindow
end Tonk.Siamese
