import Tonk.Lib.Run
import Tonk.Siamese.DecodeRuns
import Tonk.Siamese.WindowBits

set_option autoImplicit false

namespace Tonk.Siamese
open Search Transition PktAlloc

/-! What RemoveElements keeps. -/

namespace Decoder

variable {α β : Type}

/-- The elements that the stored recovery packets need: the starts of their LDPC ranges, and the
starts of the sums that differ from the first one, the `target`. -/
def keptFrom (w : DecoderPacketWindow α) : Option (Nat × Nat) → List (RecoveryPacket β) → List Nat
  | _, [] => []
  | target, recovery :: rest =>
    let columnStart := recovery.metadata.columnStart
    let sumCount := recovery.metadata.sumCount
    recovery.elementStart ::
      if siameseCauchyThreshold < sumCount then
        match target with
        | none => keptFrom w (some (columnStart, sumCount)) rest
        | some (targetStart, targetCount) =>
          if columnStart ≠ targetStart ∨ sumCount < targetCount then
            w.columnToElement columnStart :: keptFrom w target rest
          else keptFrom w target rest
      else keptFrom w target rest

/-- Without stored packets, the range of the last one counts. -/
def keptElements (d : Decoder α β) : List Nat :=
  match d.recoveryPackets with
  | [] =>
    let metadata := d.lastRecoveryMetadata
    [d.window.columnToElement (metadata.columnStart + metadata.sumCount) - metadata.ldpcCount]
  | packets => keptFrom d.window none packets

/-- RemoveElements takes nothing out, or something it keeps lies no later than in the subwindow of the
next expected element. -/
def KeepsNextExpected (d : Decoder α β) : Prop :=
  d.removedElementCount = 0 ∨
    ∃ e ∈ d.keptElements, e / kSubwindowSize * kSubwindowSize ≤ d.window.nextExpectedElement

instance (d : Decoder α β) : Decidable d.KeepsNextExpected := instDecidableOr

def Removal.target (r : Removal) : Option (Nat × Nat) :=
  if r.seenSum then some (r.targetSumStartColumn, r.targetSumColumnCount) else none

theorem keepPacket_le_iff {w : DecoderPacketWindow α} {r r' : Removal} {recovery : RecoveryPacket β}
    (h : keepPacket w r recovery = some r') (bound : Nat) (rest : List (RecoveryPacket β)) :
    (r'.firstKeptElement ≤ bound ∨ ∃ e ∈ keptFrom w r'.target rest, e ≤ bound) ↔
      r.firstKeptElement ≤ bound ∨ ∃ e ∈ keptFrom w r.target (recovery :: rest), e ≤ bound := by
  simp only [keepPacket] at h
  by_cases hsum : siameseCauchyThreshold < recovery.metadata.sumCount
  · rw [if_pos hsum] at h
    cases hseen : r.seenSum with
    | false =>
      rw [hseen, if_pos rfl] at h
      cases h
      simp only [Removal.target, hseen, if_true, keptFrom, if_pos hsum, List.mem_cons,
        exists_eq_or_imp, min_le_iff, Bool.false_eq_true, if_false]
      tauto
    | true =>
      rw [hseen, if_neg (by decide)] at h
      by_cases hnew : recovery.metadata.columnStart ≠ r.targetSumStartColumn ∨
          recovery.metadata.sumCount < r.targetSumColumnCount
      · rw [if_pos hnew] at h
        split_ifs at h with hclipped
        cases h
        simp only [Removal.target, hseen, if_true, keptFrom, if_pos hsum, if_pos hnew, List.mem_cons,
          exists_eq_or_imp, min_le_iff]
        tauto
      · rw [if_neg hnew] at h
        cases h
        simp only [Removal.target, hseen, if_true, keptFrom, if_pos hsum, if_neg hnew, List.mem_cons,
          exists_eq_or_imp, min_le_iff]
        tauto
  · rw [if_neg hsum] at h
    cases h
    simp only [Removal.target, keptFrom, if_neg hsum, List.mem_cons, exists_eq_or_imp, min_le_iff]
    tauto

theorem foldlM_keepPacket_le_iff {w : DecoderPacketWindow α} {packets : List (RecoveryPacket β)}
    {r r' : Removal} (h : packets.foldlM (keepPacket w) r = some r') (bound : Nat) :
    r'.firstKeptElement ≤ bound ↔
      r.firstKeptElement ≤ bound ∨ ∃ e ∈ keptFrom w r.target packets, e ≤ bound := by
  induction packets generalizing r with
  | nil =>
    cases h
    simp [keptFrom]
  | cons recovery rest ih =>
    rw [List.foldlM_cons, Option.bind_eq_bind, Option.bind_eq_some_iff] at h
    obtain ⟨r₁, hkeep, hrest⟩ := h
    rw [ih hrest, keepPacket_le_iff hkeep]

theorem planRemoval_le_iff {d : Decoder α β} {r : Removal} (h : d.planRemoval = some r)
    (bound : Nat) : r.firstKeptElement ≤ bound ↔ ∃ e ∈ d.keptElements, e ≤ bound := by
  unfold planRemoval at h
  unfold keptElements
  cases hpackets : d.recoveryPackets with
  | nil =>
    simp only [hpackets] at h ⊢
    split_ifs at h
    cases h
    simp
  | cons head rest =>
    simp only [hpackets] at h ⊢
    rw [foldlM_keepPacket_le_iff h]
    simp only [Removal.target, Bool.false_eq_true, if_false, keptFrom, List.mem_cons,
      exists_eq_or_imp]
    tauto

theorem removedElementCount_cases (d : Decoder α β) : d.removedElementCount = 0 ∨
    ∃ r, d.planRemoval = some r ∧ kDecoderRemoveThreshold ≤ r.firstKeptElement ∧
      d.removedElementCount = r.firstKeptElement / kSubwindowSize * kSubwindowSize := by
  unfold removedElementCount
  split
  · exact .inl rfl
  · split
    · exact .inl rfl
    · next r hplan =>
      split
      · exact .inl rfl
      · next hfar =>
        split
        · exact .inl rfl
        · exact .inr ⟨r, hplan, by omega, rfl⟩

theorem keepsNextExpected_iff (d : Decoder α β) :
    d.KeepsNextExpected ↔ d.removedElementCount ≤ d.window.nextExpectedElement := by
  unfold KeepsNextExpected
  rcases d.removedElementCount_cases with hzero | ⟨r, hplan, hfar, hcount⟩
  · simp [hzero]
  · have hbound (e : Nat) : e / kSubwindowSize * kSubwindowSize ≤ d.window.nextExpectedElement ↔
        e ≤ d.window.nextExpectedElement / kSubwindowSize * kSubwindowSize + (kSubwindowSize - 1) := by
      simp only [kSubwindowSize, kColumnLaneCount]
      omega
    have hpos : d.removedElementCount ≠ 0 := by
      simp only [kDecoderRemoveThreshold, kSubwindowSize, kColumnLaneCount] at hfar hcount
      omega
    simp only [hpos, false_or, hbound]
    rw [← planRemoval_le_iff hplan, hcount, hbound]

end Decoder

/-! Packets recovered in part: without the next expected one it does not move. -/

namespace DecoderPacketWindow

variable {α : Type}

theorem Sound.foldl_store {w : DecoderPacketWindow α} (h : w.Sound) (data : Nat → α) {es : List Nat}
    (hnodup : es.Nodup) (hes : ∀ e ∈ es, e < w.count ∧ w.isGot e = false)
    (hnext : w.nextExpectedElement ∉ es) :
    (es.foldl (fun w e => w.store e (data e)) w).Sound := by
  induction es generalizing w with
  | nil => exact h
  | cons x es ih =>
    rw [List.nodup_cons] at hnodup
    rw [List.mem_cons, not_or] at hnext
    obtain ⟨hlt, hnew⟩ := hes x List.mem_cons_self
    have hstored : (w.store x (data x)).Sound := by
      rw [← fill_of_ne (Ne.symm hnext.1)]
      exact h.fill hlt hnew (data x)
    refine ih hstored hnodup.2 (fun e he => ⟨(hes e (List.mem_cons_of_mem x he)).1, ?_⟩) hnext.2
    have hne : e ≠ x := fun hc => hnodup.1 (hc ▸ he)
    rw [store_isGot, if_neg hne]
    exact (hes e (List.mem_cons_of_mem x he)).2

theorem Sound.next_le_of_lost {w : DecoderPacketWindow α} (h : w.Sound) {e : Nat}
    (hlost : w.isGot e = false) : w.nextExpectedElement ≤ e := by
  by_contra hlt
  rw [h.before_next e (by omega)] at hlost
  exact absurd hlost (by decide)

theorem Sound.next_notMem_take {w : DecoderPacketWindow α} (h : w.Sound) {i j solved : Nat}
    (hsolved : solved < (w.lost i j).length) :
    w.nextExpectedElement ∉ (w.lost i j).reverse.take solved := by
  have hsorted : (w.lost i j).Pairwise (· < ·) := by
    rw [lost]
    exact (List.pairwise_lt_range' ..).filter _
  have hmem (e : Nat) (he : e ∈ w.lost i j) : w.nextExpectedElement ≤ e :=
    h.next_le_of_lost (mem_lost.mp he).2.2
  revert hsorted hmem hsolved
  generalize w.lost i j = columns
  intro hsolved hsorted hmem hin
  cases columns with
  | nil => exact absurd hsolved (Nat.not_lt_zero solved)
  | cons first rest =>
    rw [List.pairwise_cons] at hsorted
    rw [List.length_cons] at hsolved
    rw [List.reverse_cons, List.take_append_of_le_length (by rw [List.length_reverse]; omega)] at hin
    have hrest := List.mem_reverse.mp (List.mem_of_mem_take hin)
    have hlt := hsorted.1 _ hrest
    have hle := hmem first List.mem_cons_self
    omega

theorem Sound.placed {w : DecoderPacketWindow α} (h : w.Sound) {columnStart : Nat}
    (hlt : columnStart < kColumnPeriod) : ({ w with columnStart := columnStart }).Sound :=
  ⟨hlt, h.count_le, h.counted, h.got_eq, h.got_lt, h.next_le, h.before_next, h.at_next⟩

theorem Sound.shift_wrong {w : DecoderPacketWindow α} (h : w.Sound) {k : Nat}
    (hk : w.nextExpectedElement < k * kSubwindowSize) (hlt : k * kSubwindowSize < 2 ^ 32) :
    (w.shift k).nextExpectedElement ≠
      firstFrom (fun e => !(w.shift k).isGot e) 0 (w.shift k).count := by
  have hnextLe := h.next_le
  have hcountLe := h.count_le
  have hperiod : kColumnPeriod = 2 ^ 22 := rfl
  have hnext : (w.shift k).nextExpectedElement =
      2 ^ 32 + w.nextExpectedElement - k * kSubwindowSize := by
    have hcast := Serial.sub_cast 32 w.nextExpectedElement (k * kSubwindowSize)
    simp only [DecoderPacketWindow.shift, unsignedSub]
    omega
  have hfirst : firstFrom (fun e => !(w.shift k).isGot e) 0 (w.shift k).count ≤
      (w.shift k).count := firstFrom_le (Nat.zero_le _)
  by_cases hin : k * kSubwindowSize ≤ w.count
  · have hcount : (w.shift k).count = w.count - k * kSubwindowSize :=
      unsignedSub_eq hin h.count_lt
    omega
  · have hlost : (w.shift k).isGot 0 = false := by
      rw [shift_isGot, Nat.zero_add]
      by_contra hgot
      have := h.got_lt _ (Bool.of_not_eq_false hgot)
      omega
    have hzero : firstFrom (fun e => !(w.shift k).isGot e) 0 (w.shift k).count = 0 :=
      firstFrom_eq le_rfl (Nat.zero_le _) (fun j _ hj => absurd hj (Nat.not_lt_zero j)) fun _ => by
        rw [hlost]
        rfl
    omega

end DecoderPacketWindow

/-- The operations that change the window. RemoveElements also reads the decoder around it. -/
inductive WindowCall (α β : Type) where
  | addOriginal (packetNum : Nat) (data : α)
  | addSingleRecovery (columnStart : Nat) (data : α)
  | backSubstitution (elementStart nextCheckStart solved : Nat) (data : Nat → α)
  | addRecovery (metadata : RecoveryMetadata)
  | removeElements (around : Decoder α β)

namespace BitWindow

variable {α β : Type} {w : BitWindow α}

/-- A decoder with this window. -/
def inside (w : BitWindow α) (around : Decoder α β) : Decoder α β :=
  { around with window := w.toWindow }

def removeElements (w : BitWindow α) (around : Decoder α β) : BitWindow α :=
  let removedElementCount := (w.inside around).removedElementCount
  if removedElementCount = 0 then w else w.shift (removedElementCount / kSubwindowSize)

def call (w : BitWindow α) : WindowCall α β → BitWindow α
  | .addOriginal packetNum data => (w.addOriginal packetNum data).1
  | .addSingleRecovery columnStart data => w.addSingleRecovery columnStart data
  | .backSubstitution elementStart nextCheckStart solved data =>
    w.backSubstitution elementStart nextCheckStart solved data
  | .addRecovery metadata => w.addRecovery metadata
  | .removeElements around => w.removeElements around

/-- What the callers see to: the checked region ends within the window, the metadata is as the parser
reads it, and the elements of the stored packets are unsigned numbers. -/
def Promised (w : BitWindow α) : WindowCall α β → Prop
  | .backSubstitution _ nextCheckStart _ _ => nextCheckStart ≤ w.count
  | .addRecovery metadata => metadata.Readable
  | .removeElements around => ∀ r ∈ around.recoveryPackets, r.elementStart < 2 ^ 32
  | _ => True

/-- RemoveElements does not remove what was not received. -/
def KeepsNextExpected (w : BitWindow α) : WindowCall α β → Prop
  | .removeElements around => (w.inside around).KeepsNextExpected
  | _ => True

/-- The received flag of an element. -/
def received (w : BitWindow α) (element : Nat) : Bool := (w.getWindowElement element).isSome

/-- Counters, bits and scans are what a look at the received flag of every element gives. -/
structure ScansRight (w : BitWindow α) : Prop where
  gotCount_eq : ∀ s ∈ w.subwindows, s.gotCount = (s.got.bits 0 kSubwindowSize).card
  isGot_eq : ∀ e, w.isGot e = w.received e
  clear_behind : ∀ e, w.count ≤ e → w.isGot e = false
  rangeLostPackets_eq : ∀ elementStart elementEnd, w.rangeLostPackets elementStart elementEnd =
    (List.range' elementStart (elementEnd - elementStart)).countP fun e => !w.received e
  findNextLostElement_eq : ∀ elementStart, w.findNextLostElement elementStart =
    min w.count (firstFrom (fun e => !w.received e) elementStart w.count)
  findNextGotElement_eq : ∀ elementStart, w.findNextGotElement elementStart =
    min w.count (firstFrom w.received elementStart w.count)
  nextExpectedElement_eq : w.nextExpectedElement = firstFrom (fun e => !w.received e) 0 w.count

/-- What every operation keeps. -/
structure Sound (w : BitWindow α) : Prop where
  window : w.toWindow.Sound
  covered : w.Covered

theorem sound_initial : (initial : BitWindow α).Sound where
  window := by
    rw [toWindow_initial]
    exact DecoderPacketWindow.sound_initial
  covered := Nat.zero_le _

theorem Sound.received_eq (h : w.Sound) : w.received = w.isGot :=
  funext fun e => (h.window.got_eq e).symm

theorem min_count_firstFrom (w : BitWindow α) (p : Nat → Bool) {elementStart : Nat}
    (hle : w.count ≤ elementStart) : min w.count (firstFrom p elementStart w.count) = w.count := by
  have hge : elementStart ≤ firstFrom p elementStart w.count := le_firstFrom
  omega

theorem Sound.findNextLostElement_eq (h : w.Sound) (elementStart : Nat) :
    w.findNextLostElement elementStart =
      min w.count (firstFrom (fun e => !w.isGot e) elementStart w.count) := by
  by_cases hle : w.count ≤ elementStart
  · rw [w.min_count_firstFrom _ hle, findNextLostElement, if_pos hle]
  · have hfirst : firstFrom (fun e => !w.isGot e) elementStart w.count ≤ w.count :=
      firstFrom_le (by omega)
    rw [Nat.min_eq_right hfirst, findNextLostElement_toWindow]
    exact h.window.counted.findNextLostElement_eq (Nat.le_of_not_le hle)

theorem Sound.findNextGotElement_eq (h : w.Sound) (elementStart : Nat) :
    w.findNextGotElement elementStart =
      min w.count (firstFrom w.isGot elementStart w.count) := by
  by_cases hle : w.count ≤ elementStart
  · rw [w.min_count_firstFrom _ hle, findNextGotElement, if_pos hle]
  · have hfirst : firstFrom w.isGot elementStart w.count ≤ w.count := firstFrom_le (by omega)
    rw [Nat.min_eq_right hfirst, findNextGotElement_toWindow]
    exact h.window.counted.findNextGotElement_eq (Nat.le_of_not_le hle)

theorem Sound.scansRight (h : w.Sound) : w.ScansRight where
  gotCount_eq s hs := by
    obtain ⟨i, hi, hsi⟩ := List.mem_iff_getElem.mp hs
    have hcounted := h.window.counted i
    have href : w.getRef i = s := by
      rw [getRef, List.getElem?_eq_getElem hi, Option.getD_some, hsi]
    rw [toWindow_subwindows, href] at hcounted
    rw [CustomBitSet.card_bits_eq_countP, Nat.sub_zero, ← List.range_eq_range']
    exact hcounted
  isGot_eq := h.window.got_eq
  clear_behind e he := by
    by_contra hgot
    have hlt := h.window.got_lt e (Bool.of_not_eq_false hgot)
    rw [toWindow_count] at hlt
    omega
  rangeLostPackets_eq elementStart elementEnd := by
    rw [rangeLostPackets_toWindow, h.window.counted.rangeLostPackets_eq, h.received_eq,
      List.countP_eq_length_filter]
    rfl
  findNextLostElement_eq elementStart := by
    rw [h.received_eq]
    exact h.findNextLostElement_eq elementStart
  findNextGotElement_eq elementStart := by
    rw [h.received_eq]
    exact h.findNextGotElement_eq elementStart
  nextExpectedElement_eq := by
    rw [h.received_eq]
    exact (DecoderPacketWindow.nextExpectedElement_eq h.window).symm

/-! One call. -/

theorem Sound.growWindow (h : w.Sound) {windowElementEnd : Nat}
    (hend : windowElementEnd ≤ kColumnPeriod / 2) : (w.growWindow windowElementEnd).Sound where
  window := by
    rw [growWindow_toWindow]
    exact h.window.growWindow hend
  covered := h.covered.growWindow windowElementEnd

theorem Sound.fill (h : w.Sound) {e : Nat} (he : e < w.count) (hnew : w.getWindowElement e = none)
    (data : α) : (w.fill e data).Sound where
  window := by
    have hgot := h.window.got_eq e
    rw [toWindow_getWindowElement, hnew] at hgot
    rw [fill_toWindow h.covered he]
    exact h.window.fill he hgot data
  covered := h.covered.fill e data

theorem growWindow_count (w : BitWindow α) (windowElementEnd : Nat) :
    (w.growWindow windowElementEnd).count = max w.count windowElementEnd := by
  rw [← toWindow_count, growWindow_toWindow, DecoderPacketWindow.growWindow_count]
  rfl

theorem Sound.addOriginal (h : w.Sound) (packetNum : Nat) (data : α) :
    (w.addOriginal packetNum data).1.Sound := by
  unfold BitWindow.addOriginal
  simp only
  by_cases hneg : isColumnDeltaNegative (w.columnToElement packetNum) = true
  · rw [if_pos hneg]
    exact h
  have hlt : w.columnToElement packetNum < kColumnPeriod / 2 :=
    isColumnDeltaNegative_eq_false_iff.mp (Bool.of_not_eq_true hneg)
  have hgrown := h.growWindow (show w.columnToElement packetNum + 1 ≤ kColumnPeriod / 2 by omega)
  rw [if_neg hneg]
  by_cases hdup : ((w.growWindow (w.columnToElement packetNum + 1)).getWindowElement
      (w.columnToElement packetNum)).isSome = true
  · rw [if_pos hdup]
    exact hgrown
  · rw [if_neg hdup]
    refine hgrown.fill ?_ (by simpa using hdup) data
    rw [growWindow_count]
    omega

theorem Sound.addSingleRecovery (h : w.Sound) (columnStart : Nat) (data : α) :
    (w.addSingleRecovery columnStart data).Sound := by
  unfold BitWindow.addSingleRecovery
  simp only
  by_cases hinvalid : w.invalidElement (w.columnToElement columnStart) = true
  · rw [if_pos hinvalid]
    exact h
  by_cases hdup : (w.getWindowElement (w.columnToElement columnStart)).isSome = true
  · rw [if_neg hinvalid, if_pos hdup]
    exact h
  · rw [if_neg hinvalid, if_neg hdup]
    refine h.fill ?_ (by simpa using hdup) data
    simpa [invalidElement] using hinvalid

theorem foldl_store_toWindow (h : w.Covered) (data : Nat → α) {es : List Nat}
    (hes : ∀ e ∈ es, e < w.count) :
    (es.foldl (fun w e => w.store e (data e)) w).toWindow =
      es.foldl (fun w e => w.store e (data e)) w.toWindow ∧
    (es.foldl (fun w e => w.store e (data e)) w).Covered := by
  induction es generalizing w with
  | nil => exact ⟨rfl, h⟩
  | cons x es ih =>
    rw [List.foldl_cons, List.foldl_cons, ← store_toWindow h (hes x List.mem_cons_self)]
    exact ih (h.store x (data x)) fun e he => hes e (List.mem_cons_of_mem x he)

theorem Sound.backSubstitution (h : w.Sound) {nextCheckStart : Nat} (hend : nextCheckStart ≤ w.count)
    (elementStart solved : Nat) (data : Nat → α) :
    (w.backSubstitution elementStart nextCheckStart solved data).Sound := by
  have hlost (e : Nat) (he : e ∈ (w.lost elementStart nextCheckStart).reverse.take solved) :
      elementStart ≤ e ∧ e < nextCheckStart ∧ w.isGot e = false :=
    DecoderPacketWindow.mem_lost (w := w.toWindow).mp
      (List.mem_reverse.mp (List.mem_of_mem_take he))
  have hnodup : ((w.lost elementStart nextCheckStart).reverse.take solved).Nodup :=
    (List.nodup_reverse.mpr (w.toWindow.lost_nodup elementStart nextCheckStart)).sublist
      (List.take_sublist ..)
  obtain ⟨hwindow, hcovered⟩ := foldl_store_toWindow h.covered data fun e he =>
    (hlost e he).2.1.trans_le hend
  unfold BitWindow.backSubstitution
  simp only
  by_cases hall : (w.lost elementStart nextCheckStart).length ≤ solved ∧
      w.nextExpectedElement ∈ (w.lost elementStart nextCheckStart).reverse.take solved
  · rw [if_pos hall]
    have htake : (w.lost elementStart nextCheckStart).reverse.take solved =
        (w.lost elementStart nextCheckStart).reverse :=
      List.take_of_length_le (by rw [List.length_reverse]; exact hall.1)
    refine ⟨?_, hcovered.iterateNextExpectedElement _⟩
    rw [iterateNextExpectedElement_toWindow, hwindow]
    refine (h.window.recover data hnodup (fun e he => (hlost e he).2) (fun e he => ?_) hend
      (hlost _ hall.2).2.1).1
    by_cases hgot : w.isGot e = true
    · exact .inl hgot
    · refine .inr ?_
      have hfirst := h.window.next_le_of_lost (Bool.of_not_eq_true hgot)
      have hstart := (hlost _ hall.2).1
      rw [htake, List.mem_reverse]
      exact DecoderPacketWindow.mem_lost (w := w.toWindow).mpr
        ⟨hstart.trans hfirst, he, Bool.of_not_eq_true hgot⟩
  · rw [if_neg hall]
    refine ⟨?_, hcovered⟩
    rw [hwindow]
    refine h.window.foldl_store data hnodup
      (fun e he => ⟨(hlost e he).2.1.trans_le hend, (hlost e he).2.2⟩) fun hin => ?_
    by_cases hsolved : (w.lost elementStart nextCheckStart).length ≤ solved
    · exact hall ⟨hsolved, hin⟩
    · exact h.window.next_notMem_take (Nat.lt_of_not_le hsolved) hin

theorem Sound.addRecovery (h : w.Sound) {metadata : RecoveryMetadata} (hm : metadata.Readable) :
    (w.addRecovery metadata).Sound := by
  unfold BitWindow.addRecovery
  by_cases hempty : w.count ≤ 0
  · rw [if_pos hempty]
    have hplaced : ({ w with columnStart := metadata.columnStart } : BitWindow α).Sound :=
      ⟨h.window.placed hm.column_lt, h.covered⟩
    exact hplaced.growWindow (hm.sum_le.trans (by decide))
  · simp only [if_neg hempty]
    split_ifs with hneg
    · exact h
    · exact h.growWindow (isColumnDeltaNegative_eq_false_iff.mp (Bool.of_not_eq_true hneg)).le

theorem Sound.shift (h : w.Sound) {k : Nat} (hk : k * kSubwindowSize ≤ w.nextExpectedElement) :
    (w.shift k).Sound where
  window := by
    rw [shift_toWindow]
    exact h.window.shift hk
  covered := by
    have hcount : (w.shift k).count = w.count - k * kSubwindowSize := h.window.shift_count hk
    have hlength : (w.shift k).subwindows.length = w.subwindows.length := by
      simp only [BitWindow.shift, List.length_append, List.length_drop, List.length_map,
        List.length_take]
      omega
    have hcovered := h.covered
    rw [Covered, hcount, hlength]
    rw [Covered] at hcovered
    omega

theorem removedElementCount_div (d : Decoder α β) :
    d.removedElementCount / kSubwindowSize * kSubwindowSize = d.removedElementCount := by
  rcases d.removedElementCount_cases with hzero | ⟨r, -, -, hcount⟩
  · rw [hzero]
    rfl
  · rw [hcount, Nat.mul_div_cancel _ (by decide)]

theorem Sound.removeElements (h : w.Sound) {around : Decoder α β}
    (hkeeps : (w.inside around).KeepsNextExpected) : (w.removeElements around).Sound := by
  rw [Decoder.keepsNextExpected_iff, ← removedElementCount_div] at hkeeps
  unfold BitWindow.removeElements
  simp only
  split_ifs
  · exact h
  · exact h.shift hkeeps

theorem removedElementCount_lt {d : Decoder α β}
    (hpackets : ∀ r ∈ d.recoveryPackets, r.elementStart < 2 ^ 32) :
    d.removedElementCount < 2 ^ 32 := by
  rcases d.removedElementCount_cases with hzero | ⟨r, hplan, -, hcount⟩
  · rw [hzero]
    decide
  rw [hcount]
  refine (Nat.div_mul_le_self ..).trans_lt ?_
  unfold Decoder.planRemoval at hplan
  cases hlist : d.recoveryPackets with
  | nil =>
    simp only [hlist] at hplan
    split_ifs at hplan with hclipped
    cases hplan
    rw [not_or] at hclipped
    have hlt := isColumnDeltaNegative_eq_false_iff.mp (Bool.of_not_eq_true hclipped.1)
    simp only [kColumnPeriod] at hlt ⊢
    omega
  | cons head rest =>
    simp only [hlist] at hplan
    have hle := (Decoder.foldlM_keepPacket_le hplan).2 head List.mem_cons_self
    exact hle.trans_lt (hpackets head (by rw [hlist]; exact List.mem_cons_self))

theorem Sound.call (h : w.Sound) (c : WindowCall α β) (hc : w.Promised c)
    (hkeeps : w.KeepsNextExpected c) : (w.call c).Sound := by
  cases c with
  | addOriginal packetNum data => exact h.addOriginal packetNum data
  | addSingleRecovery columnStart data => exact h.addSingleRecovery columnStart data
  | backSubstitution elementStart nextCheckStart solved data =>
    exact h.backSubstitution hc elementStart solved data
  | addRecovery metadata => exact h.addRecovery hc
  | removeElements around => exact h.removeElements hkeeps

theorem Sound.keepsNextExpected (h : w.Sound) (c : WindowCall α β) (hc : w.Promised c)
    (hright : (w.call c).ScansRight) : w.KeepsNextExpected c := by
  cases c with
  | removeElements around =>
    change (w.inside around).KeepsNextExpected
    rw [Decoder.keepsNextExpected_iff]
    by_contra hpast
    have hdiv := removedElementCount_div (w.inside around)
    have hpast' : w.nextExpectedElement <
        (w.inside around).removedElementCount / kSubwindowSize * kSubwindowSize := by
      rw [hdiv]
      exact Nat.lt_of_not_le hpast
    have hlt := removedElementCount_lt (d := w.inside around) hc
    rw [← hdiv] at hlt
    have hcall : w.call (.removeElements around) =
        w.shift ((w.inside around).removedElementCount / kSubwindowSize) :=
      if_neg (by omega)
    have hnext := hright.nextExpectedElement_eq
    rw [hcall] at hright hnext
    rw [← funext hright.isGot_eq] at hnext
    have hwrong := h.window.shift_wrong hpast' hlt
    rw [← shift_toWindow] at hwrong
    exact hwrong hnext
  | _ => trivial

/-! Runs. -/

def run (calls : List (WindowCall α β)) : BitWindow α := calls.foldl call initial

def AlwaysPromised (calls : List (WindowCall α β)) : Prop :=
  ∀ before c, before ++ [c] <+: calls → (run before).Promised c

def AlwaysScansRight (calls : List (WindowCall α β)) : Prop :=
  ∀ before, before <+: calls → (run before).ScansRight

def AlwaysKeepsNextExpected (calls : List (WindowCall α β)) : Prop :=
  ∀ before c, before ++ [c] <+: calls → (run before).KeepsNextExpected c

/-- In all states of a run the scans are right, exactly if no RemoveElements takes out what was not
received. -/
theorem alwaysScansRight_iff {calls : List (WindowCall α β)} (h : AlwaysPromised calls) :
    AlwaysScansRight calls ↔ AlwaysKeepsNextExpected calls :=
  foldl_prefix_iff sound_initial (fun _ hs => hs.scansRight) (fun _ c hs hc => hs.call c hc)
    (fun _ c hs hc => hs.keepsNextExpected c hc) h

instance (w : BitWindow α) : (c : WindowCall α β) → Decidable (w.KeepsNextExpected c)
  | .removeElements around => inferInstanceAs (Decidable (w.inside around).KeepsNextExpected)
  | .addOriginal .. | .addSingleRecovery .. | .backSubstitution .. | .addRecovery .. =>
    inferInstanceAs (Decidable True)

theorem alwaysKeepsNextExpected_of_take {calls : List (WindowCall α β)} (h : ∀ i, i < calls.length →
    ∀ c ∈ calls[i]?, (run (calls.take i)).KeepsNextExpected c) : AlwaysKeepsNextExpected calls :=
  forall_call_of_take h

def slides (received : Nat) (recovery : RecoveryPacket Unit) : List (WindowCall Unit Unit) :=
  (List.range received).map (fun packetNum => .addOriginal packetNum ()) ++
    [.addRecovery recovery.metadata,
      .removeElements { Decoder.initial with recoveryPackets := [recovery] }]

theorem alwaysPromised_slides (received : Nat) {recovery : RecoveryPacket Unit}
    (hm : recovery.metadata.Readable) (hstart : recovery.elementStart < 2 ^ 32) :
    AlwaysPromised (slides received recovery) := by
  intro before c hbefore
  have hc : c ∈ slides received recovery := hbefore.subset (by simp)
  simp only [slides, List.mem_append, List.mem_map, List.mem_cons, List.not_mem_nil, or_false] at hc
  rcases hc with ⟨packetNum, -, rfl⟩ | rfl | rfl
  · trivial
  · exact hm
  · intro r hr
    rw [List.mem_singleton.mp hr]
    exact hstart

/-- Packets 130 to 199 are in the range of the recovery packet, with 10 more that did not come. -/
theorem alwaysScansRight_slides :
    AlwaysScansRight (slides 200 ⟨⟨0, 130, 80, 80⟩, 130, 210, ()⟩) :=
  (alwaysScansRight_iff (alwaysPromised_slides 200
    ⟨by decide, by decide, by decide, by decide, by decide⟩ (by decide))).2
    (alwaysKeepsNextExpected_of_take (by decide +kernel))

/-- The range of the recovery packet begins far behind the packets that came. -/
def farRange : List (WindowCall Unit Unit) := slides 128 ⟨⟨0, 700, 2, 2⟩, 700, 702, ()⟩

def farRangeCalls : List (Call Unit Unit) :=
  (List.range 128).map (fun packetNum => .addOriginal packetNum ()) ++
    [.addRecovery ⟨0, 700, 2, 2⟩ () none]

theorem nextExpectedElement_wraps :
    (¬∀ calls : List (WindowCall Unit Unit), AlwaysPromised calls → AlwaysScansRight calls) ∧
    ((run farRange).count = 62 ∧ (run farRange).nextExpectedElement = 4294966784) ∧
    (farRangeCalls.foldl Solver.call Solver.initial).decoder.window.count = 62 ∧
    (farRangeCalls.foldl Solver.call Solver.initial).decoder.window.nextExpectedElement =
      4294966784 := by
  refine ⟨fun h => ?_, by decide +kernel, by decide +kernel, by decide +kernel⟩
  have hpromised : AlwaysPromised farRange := alwaysPromised_slides 128
    ⟨by decide, by decide, by decide, by decide, by decide⟩ (by decide)
  have hnext := (h farRange hpromised farRange (List.prefix_refl _)).nextExpectedElement_eq
  revert hnext
  decide +kernel

end BitWindow
end Tonk.Siamese
