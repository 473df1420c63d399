import Tonk.Siamese.Decoder
import Tonk.Siamese.EncoderSums

set_option autoImplicit false

namespace Tonk.Siamese
open Protocol

structure DecoderSum where
  elementStart : Nat
  elementEnd : Nat
  buffer : DataBuffer

/-- `DecoderPacketWindow` with its sums, by lane and index. -/
structure DecoderData where
  window : DecoderPacketWindow OriginalPacket
  sums : Nat → Nat → DecoderSum
  sumColumnStart : Nat
  sumColumnCount : Nat
  recoveredColumns : List Nat

namespace DecoderData

def initial : DecoderData := ⟨.initial, fun _ _ => ⟨0, 0, []⟩, 0, 0, []⟩

def addOriginal (d : DecoderData) (packetNum : Nat) (data : Bytes) : DecoderData :=
  { d with window := (d.window.addOriginal packetNum (.initialized packetNum data)).1 }

def recover (d : DecoderData) (element : Nat) (original : OriginalPacket) : DecoderData :=
  { d with
    window := d.window.fill element original
    recoveredColumns := d.recoveredColumns ++ [original.column] }

def resetSums (d : DecoderData) (elementStart : Nat) : DecoderData :=
  { d with
    sums := fun laneIndex _ =>
      let laneElementStart := getNextLaneElement elementStart laneIndex
      ⟨laneElementStart, laneElementStart, []⟩
    recoveredColumns := [] }

/-- One sum in StartSums: without data, or with another start, it begins anew. -/
def startSum (elementStart bufferBytes laneIndex : Nat) (sum : DecoderSum) : DecoderSum :=
  let laneElementStart := getNextLaneElement elementStart laneIndex
  let sum := if sum.buffer.length = 0 then { sum with elementEnd := laneElementStart }
    else if sum.elementStart ≠ laneElementStart then
      { sum with elementEnd := laneElementStart, buffer := [] }
    else sum
  { sum with elementStart := laneElementStart, buffer := sum.buffer.growZeroPadded bufferBytes }

/-- A recovered column in PlugSumHoles; nothing if the packet is not there. -/
def plugColumn (elementStart : Nat) (d : DecoderData) (column : Nat) : Option DecoderData :=
  let element := d.window.columnToElement column
  if d.window.invalidElement element then some d
  else
    let laneIndex := column % kColumnLaneCount
    let laneElementStart := getNextLaneElement elementStart laneIndex
    let fillsHole := fun sum : DecoderSum => laneElementStart ≤ element ∧ element < sum.elementEnd
    match d.window.getWindowElement element with
    | none => if ∃ sumIndex < kColumnSumCount, fillsHole (d.sums laneIndex sumIndex) then none
        else some d
    | some original =>
      let plugged := fun sumIndex =>
        let sum := d.sums laneIndex sumIndex
        if fillsHole sum then
          { sum with buffer := accumulate sumIndex sum.buffer { original with column := column } }
        else sum
      some { d with sums := Function.update d.sums laneIndex plugged }

def plugSumHoles (d : DecoderData) (elementStart : Nat) : Option DecoderData :=
  match d.recoveredColumns.foldlM (plugColumn elementStart) d with
  | none => none
  | some d => some { d with recoveredColumns := [] }

def startLanes (d : DecoderData) (elementStart bufferBytes : Nat) : DecoderData :=
  { d with
    sums := fun laneIndex sumIndex =>
      startSum elementStart bufferBytes laneIndex (d.sums laneIndex sumIndex) }

def startSums (d : DecoderData) (elementStart bufferBytes : Nat) : Option DecoderData :=
  let d := d.startLanes elementStart bufferBytes
  if d.recoveredColumns.length ≠ 0 then d.plugSumHoles elementStart else some d

def goneSum (d : DecoderData) (laneIndex sumIndex elementEnd : Nat) : DecoderSum :=
  let sum := d.sums laneIndex sumIndex
  let element := sum.elementEnd
  if elementEnd ≤ element then sum
  else
    let n := turns element elementEnd
    { sum with
      elementEnd := element + n * kColumnLaneCount
      buffer := (List.range n).foldl (fun buffer i =>
        match d.window.getWindowElement (element + i * kColumnLaneCount) with
        | none => buffer
        | some original => accumulate sumIndex buffer original) sum.buffer }

def getSum (d : DecoderData) (laneIndex sumIndex elementEnd : Nat) : DecoderData × DataBuffer :=
  let sum := d.goneSum laneIndex sumIndex elementEnd
  let lane := Function.update (d.sums laneIndex) sumIndex sum
  ({ d with sums := Function.update d.sums laneIndex lane }, sum.buffer)

/-- The loop of RemoveElements over the lanes and their sums, which do not touch each other. -/
def rollSums (d : DecoderData) (removedElementCount : Nat) : DecoderData :=
  { d with sums := fun laneIndex sumIndex =>
      let sum := d.goneSum laneIndex sumIndex removedElementCount
      { sum with
        elementStart := if removedElementCount ≤ sum.elementStart then
          sum.elementStart - removedElementCount else laneIndex
        elementEnd := sum.elementEnd - removedElementCount } }

/-- The sums that are kept running when elements are removed; nothing disables the decoder. -/
def targetSums (d : DecoderData) (r : Decoder.Removal) (initialRecoveryBytes : Nat) :
    Option DecoderData :=
  let sumElementStart := d.window.columnToElement r.targetSumStartColumn
  if d.sumColumnStart ≠ r.targetSumStartColumn ∨ r.targetSumColumnCount < d.sumColumnCount then
    if d.window.invalidElement sumElementStart then none
    else some { d.resetSums sumElementStart with
      sumColumnStart := r.targetSumStartColumn
      sumColumnCount := r.targetSumColumnCount }
  else
    d.startSums (if d.window.invalidElement sumElementStart then 0 else sumElementStart)
      initialRecoveryBytes

def removeElements (d : DecoderData) (r : Decoder.Removal) (initialRecoveryBytes : Nat) :
    Option DecoderData :=
  let firstKeptSubwindow := r.firstKeptElement / kSubwindowSize
  let removedElementCount := firstKeptSubwindow * kSubwindowSize
  let summed := if r.seenSum then
      (d.targetSums r initialRecoveryBytes).map fun d => d.rollSums removedElementCount
    else some { d with sumColumnCount := 0 }
  summed.map fun d => { d with window := d.window.shift firstKeptSubwindow }

/-- The packets a sum that has gone past them holds: those received or recovered, but not those
recovered since the sums were last started. -/
def settled (received : Nat → Option OriginalPacket) (pending : List Nat) (n : Nat) :
    Option DataBuffer :=
  if n ∈ pending then none else (received n).map OriginalPacket.buffer

/-- A sum from the packet `start` on, made up to its end. Element 0 of the window stands for the
packet `base`. -/
structure SumGone (received : Nat → Option OriginalPacket) (pending : List Nat)
    (base start laneIndex sumIndex : Nat) (sum : DecoderSum) : Prop where
  lane_eq : sum.elementEnd % kColumnLaneCount = laneIndex
  start_eq : sum.elementStart = getNextLaneElement (start - base) laneIndex
  start_le : start ≤ base + sum.elementEnd
  padded_eq : sum.buffer.padded =
    laneSum (settled received pending) laneIndex sumIndex start (base + sum.elementEnd)
  empty : sum.buffer = [] → ∀ n, start ≤ n → n < base + sum.elementEnd →
    n % kColumnLaneCount = laneIndex → settled received pending n = none

/-- What the window holds are the packets received; those of the elements removed were, too. -/
structure Holds (d : DecoderData) (received : Nat → Option OriginalPacket) (base : Nat) :
    Prop where
  sound : d.window.Sound
  columnStart_eq : d.window.columnStart = columnOf base
  base_mod : base % kColumnLaneCount = 0
  contents : ∀ e, d.window.getWindowElement e = received (base + e)
  packets : ∀ n original, received n = some original →
    original.column = columnOf n ∧ original.buffer ≠ []
  past : ∀ n < base, (received n).isSome

theorem holds_initial : initial.Holds (fun _ => none) 0 :=
  ⟨DecoderPacketWindow.sound_initial, rfl, rfl, fun _ => rfl, nofun, nofun⟩

theorem settled_nil (received : Nat → Option OriginalPacket) (n : Nat) :
    settled received [] n = (received n).map OriginalPacket.buffer := if_neg List.not_mem_nil

theorem SumGone.loop {d : DecoderData} {received : Nat → Option OriginalPacket}
    {base start laneIndex sumIndex : Nat} (hholds : d.Holds received base)
    (hindex : sumIndex < kColumnSumCount)
    (h : SumGone received [] base start laneIndex sumIndex (d.sums laneIndex sumIndex)) (n : Nat) :
    let sum := d.sums laneIndex sumIndex
    SumGone received [] base start laneIndex sumIndex { sum with
      elementEnd := sum.elementEnd + n * kColumnLaneCount
      buffer := (List.range n).foldl (fun buffer i =>
        match d.window.getWindowElement (sum.elementEnd + i * kColumnLaneCount) with
        | none => buffer
        | some original => accumulate sumIndex buffer original) sum.buffer } := by
  intro sum
  induction n with
  | zero => simpa using h
  | succ n ih =>
    obtain ⟨hlane, hstart, hle, hpadded, hempty⟩ := ih
    have hmod := hholds.base_mod
    have hlane' : (base + (sum.elementEnd + n * kColumnLaneCount)) % kColumnLaneCount =
        laneIndex := by
      simp only [kColumnLaneCount] at hlane hmod ⊢
      omega
    have hnext : laneSum (settled received []) laneIndex sumIndex start
        (base + (sum.elementEnd + (n + 1) * kColumnLaneCount)) =
      laneSum (settled received []) laneIndex sumIndex start
        (base + (sum.elementEnd + n * kColumnLaneCount)) +
      summand (settled received []) sumIndex
        (base + (sum.elementEnd + n * kColumnLaneCount)) := by
      rw [show base + (sum.elementEnd + (n + 1) * kColumnLaneCount) =
        base + (sum.elementEnd + n * kColumnLaneCount) + kColumnLaneCount by ring]
      exact laneSum_next sumIndex hle hlane'
    rw [List.range_succ, List.foldl_append, List.foldl_cons, List.foldl_nil]
    generalize (List.range n).foldl _ sum.buffer = buffer at hpadded hempty ⊢
    have hsettled : settled received [] (base + (sum.elementEnd + n * kColumnLaneCount)) =
        (d.window.getWindowElement (sum.elementEnd + n * kColumnLaneCount)).map
          OriginalPacket.buffer := by
      rw [settled_nil, hholds.contents]
    refine ⟨?_, hstart, ?_, ?_, ?_⟩
    · simp only [kColumnLaneCount] at hlane ⊢
      omega
    · simp only [kColumnLaneCount] at hle ⊢
      omega
    · simp only
      rw [hnext, summand, hsettled]
      cases hget : d.window.getWindowElement (sum.elementEnd + n * kColumnLaneCount) with
      | none =>
        simp only [Option.map_none, Option.elim_none, smul_zero, add_zero]
        exact hpadded
      | some original =>
        rw [hholds.contents] at hget
        rw [accumulate_padded hindex, (hholds.packets _ _ hget).1]
        simp only [Option.map_some, Option.elim_some]
        exact congrArg (· + _) hpadded
    · cases hget : d.window.getWindowElement (sum.elementEnd + n * kColumnLaneCount) with
      | none =>
        intro hnil k hk hstop hlanek
        by_cases hlast : k < base + (sum.elementEnd + n * kColumnLaneCount)
        · exact hempty hnil k hk hlast hlanek
        · have hk' : k = base + (sum.elementEnd + n * kColumnLaneCount) := by
            simp only [kColumnLaneCount] at *
            omega
          rw [hk', hsettled, hget]
          rfl
      | some original =>
        rw [hholds.contents] at hget
        exact fun hnil => absurd hnil (accumulate_ne_nil _ _ (hholds.packets _ _ hget).2)

theorem SumGone.goneSum {d : DecoderData} {received : Nat → Option OriginalPacket}
    {base start laneIndex sumIndex : Nat} (hholds : d.Holds received base)
    (hindex : sumIndex < kColumnSumCount)
    (h : SumGone received [] base start laneIndex sumIndex (d.sums laneIndex sumIndex))
    (elementEnd : Nat) : SumGone received [] base start laneIndex sumIndex
      (d.goneSum laneIndex sumIndex elementEnd) := by
  unfold DecoderData.goneSum
  simp only
  split
  · exact h
  · exact h.loop hholds hindex _

theorem goneSum_elementEnd (d : DecoderData) (laneIndex sumIndex elementEnd : Nat) :
    elementEnd ≤ (d.sums laneIndex sumIndex).elementEnd ∧
        (d.goneSum laneIndex sumIndex elementEnd).elementEnd =
          (d.sums laneIndex sumIndex).elementEnd ∨
      (d.sums laneIndex sumIndex).elementEnd < elementEnd ∧
        elementEnd ≤ (d.goneSum laneIndex sumIndex elementEnd).elementEnd ∧
        (d.goneSum laneIndex sumIndex elementEnd).elementEnd < elementEnd + kColumnLaneCount := by
  unfold goneSum
  simp only
  split
  · next hle => exact .inl ⟨hle, rfl⟩
  · next hlt => exact .inr ⟨Nat.lt_of_not_le hlt, turns_spec (Nat.lt_of_not_le hlt)⟩

section Start

variable {received : Nat → Option OriginalPacket} {pending : List Nat}
variable {base start laneIndex sumIndex : Nat}

/-- No column of the lane is behind the start of the window. -/
def Dry (base start laneIndex : Nat) : Prop :=
  ∀ n, start ≤ n → n < base → n % kColumnLaneCount ≠ laneIndex

theorem SumGone.dry {sum : DecoderSum}
    (h : SumGone received pending base start laneIndex sumIndex sum) (hnil : sum.buffer = [])
    (hpast : ∀ n < base, (received n).isSome) (hpending : ∀ n ∈ pending, base ≤ n) :
    Dry base start laneIndex := by
  intro n hstart hbase hlane
  have hnone := h.empty hnil n hstart (by omega) hlane
  have hmem : n ∉ pending := fun hmem => absurd (hpending n hmem) (by omega)
  rw [settled, if_neg hmem, Option.map_eq_none_iff] at hnone
  have hsome := hpast n hbase
  rw [hnone] at hsome
  exact absurd hsome (by decide)

theorem laneElementStart_le (hmod : base % kColumnLaneCount = 0)
    (hlane : laneIndex < kColumnLaneCount) (hdry : Dry base start laneIndex) {n : Nat}
    (hstart : start ≤ n) (hn : n % kColumnLaneCount = laneIndex) :
    base + getNextLaneElement (start - base) laneIndex ≤ n := by
  obtain ⟨hge, hlt, heq⟩ := getNextLaneElement_spec (start - base) hlane
  have hbase : base ≤ n := by
    by_contra hless
    exact hdry n hstart (Nat.lt_of_not_le hless) hn
  simp only [kColumnLaneCount] at *
  omega

theorem startSum_spec (hmod : base % kColumnLaneCount = 0) (hlane : laneIndex < kColumnLaneCount)
    {sum : DecoderSum} (bufferBytes : Nat) (hpast : ∀ n < base, (received n).isSome)
    (hpending : ∀ n ∈ pending, base ≤ n)
    (h : SumGone received pending base start laneIndex sumIndex sum ∨
      sum.buffer = [] ∧ Dry base start laneIndex) :
    SumGone received pending base start laneIndex sumIndex
      (startSum (start - base) bufferBytes laneIndex sum) := by
  obtain ⟨hge, hlt, heq⟩ := getNextLaneElement_spec (start - base) hlane
  unfold startSum
  by_cases hnil : sum.buffer = []
  · have hdry : Dry base start laneIndex := by
      rcases h with hgone | ⟨-, hdry⟩
      · exact hgone.dry hnil hpast hpending
      · exact hdry
    simp only [hnil, List.length_nil, if_true]
    refine ⟨heq, rfl, by simp only; omega, ?_, fun _ n hn hstop hn' => ?_⟩
    · simp only [DataBuffer.padded_growZeroPadded]
      refine (laneSum_eq_zero _ sumIndex fun n hn hn' => ?_).symm
      exact laneElementStart_le hmod hlane hdry hn hn'
    · have hle := laneElementStart_le hmod hlane hdry hn hn'
      simp only at hstop
      omega
  · obtain ⟨hend, hstart, hle, hpadded, hempty⟩ := h.resolve_right fun hright => hnil hright.1
    have hlength : sum.buffer.length ≠ 0 := fun hzero => hnil (List.length_eq_zero_iff.mp hzero)
    simp only [hlength, if_false, ne_eq, hstart, not_true_eq_false]
    refine ⟨hend, rfl, hle, ?_, fun hgrown => ?_⟩
    · simp only [DataBuffer.padded_growZeroPadded]
      exact hpadded
    · simp only [DataBuffer.growZeroPadded, List.append_eq_nil_iff] at hgrown
      exact absurd hgrown.1 hnil

theorem resetSum_spec (hmod : base % kColumnLaneCount = 0) (hlane : laneIndex < kColumnLaneCount)
    (hbase : base ≤ start) : SumGone received pending base start laneIndex sumIndex
      ⟨getNextLaneElement (start - base) laneIndex, getNextLaneElement (start - base) laneIndex,
        []⟩ := by
  obtain ⟨hge, hlt, heq⟩ := getNextLaneElement_spec (start - base) hlane
  have hdry : Dry base start laneIndex := fun n hn hless => absurd hless (by omega)
  refine ⟨heq, rfl, by simp only; omega, ?_, fun _ n hn hstop hn' => ?_⟩
  · refine (laneSum_eq_zero _ sumIndex fun n hn hn' => ?_).symm
    exact laneElementStart_le hmod hlane hdry hn hn'
  · have hle := laneElementStart_le hmod hlane hdry hn hn'
    simp only at hstop
    omega

theorem SumGone.growZeroPadded {sum : DecoderSum}
    (h : SumGone received pending base start laneIndex sumIndex sum) (bufferBytes : Nat) :
    SumGone received pending base start laneIndex sumIndex
      { sum with buffer := sum.buffer.growZeroPadded bufferBytes } := by
  refine ⟨h.lane_eq, h.start_eq, h.start_le, ?_, fun hgrown => h.empty ?_⟩
  · rw [DataBuffer.padded_growZeroPadded]
    exact h.padded_eq
  · simp only [DataBuffer.growZeroPadded, List.append_eq_nil_iff] at hgrown
    exact hgrown.1

theorem SumGone.from_element {sum : DecoderSum} (hmod : base % kColumnLaneCount = 0)
    (hlane : laneIndex < kColumnLaneCount) (hbase : base ≤ start) {element : Nat}
    (h : SumGone received pending base start laneIndex sumIndex sum)
    (hstart : sum.elementStart = getNextLaneElement element laneIndex) :
    SumGone received pending base (base + element) laneIndex sumIndex sum := by
  obtain ⟨hge, hlt, heq⟩ := getNextLaneElement_spec (start - base) hlane
  obtain ⟨hge', hlt', heq'⟩ := getNextLaneElement_spec element hlane
  rw [← hstart, h.start_eq] at hge' hlt' heq'
  have hsame : ∀ n, n % kColumnLaneCount = laneIndex → (start ≤ n ↔ base + element ≤ n) := by
    intro n hn
    simp only [kColumnLaneCount] at *
    omega
  have hend : (base + sum.elementEnd) % kColumnLaneCount = laneIndex := by
    have hlane_eq := h.lane_eq
    simp only [kColumnLaneCount] at *
    omega
  refine ⟨h.lane_eq, ?_, (hsame _ hend).mp h.start_le, ?_, fun hnil n hn hstop hn' => ?_⟩
  · rw [Nat.add_sub_cancel_left]
    exact hstart
  · rw [h.padded_eq]
    exact laneSum_start sumIndex hsame
  · exact h.empty hnil n ((hsame n hn').mpr hn) hstop hn'

theorem startSum_moved (hmod : base % kColumnLaneCount = 0) (hlane : laneIndex < kColumnLaneCount)
    {sum : DecoderSum} (bufferBytes : Nat) (hbase : base ≤ start) (element : Nat)
    (h : SumGone received pending base start laneIndex sumIndex sum ∨ sum.buffer = []) :
    SumGone received pending base (base + element) laneIndex sumIndex
      (startSum element bufferBytes laneIndex sum) := by
  have hspec : SumGone received pending base (base + element) laneIndex sumIndex _ :=
    resetSum_spec hmod hlane (Nat.le_add_right base element)
  have hreset := hspec.growZeroPadded bufferBytes
  rw [Nat.add_sub_cancel_left] at hreset
  unfold startSum
  by_cases hnil : sum.buffer = []
  · simp only [hnil, List.length_nil, if_true]
    exact hreset
  · have hlength : sum.buffer.length ≠ 0 := fun hzero => hnil (List.length_eq_zero_iff.mp hzero)
    have hgone := h.resolve_right hnil
    by_cases hstart : sum.elementStart = getNextLaneElement element laneIndex
    · simp only [hlength, if_false, ne_eq, hstart, not_true_eq_false]
      rw [← hstart]
      exact (hgone.from_element hmod hlane hbase hstart).growZeroPadded bufferBytes
    · simp only [hlength, if_false, ne_eq, hstart, not_false_eq_true, if_true]
      exact hreset

theorem settled_cons_of_ne {n k : Nat} (h : k ≠ n) :
    settled received (n :: pending) k = settled received pending k := by
  simp only [settled, List.mem_cons, h, false_or]

theorem SumGone.skip {n : Nat} {sum : DecoderSum}
    (h : SumGone received (n :: pending) base start laneIndex sumIndex sum)
    (hout : n % kColumnLaneCount = laneIndex → start ≤ n → base + sum.elementEnd ≤ n) :
    SumGone received pending base start laneIndex sumIndex sum := by
  have hne : ∀ k, start ≤ k → k < base + sum.elementEnd → k % kColumnLaneCount = laneIndex →
      k ≠ n := by
    rintro k hstart hstop hlane rfl
    exact absurd (hout hlane hstart) (by omega)
  refine ⟨h.lane_eq, h.start_eq, h.start_le, ?_, fun hnil k hstart hstop hlane => ?_⟩
  · rw [h.padded_eq]
    exact laneSum_congr sumIndex fun k hstart hstop hlane =>
      settled_cons_of_ne (hne k hstart hstop hlane)
  · rw [← settled_cons_of_ne (hne k hstart hstop hlane)]
    exact h.empty hnil k hstart hstop hlane

theorem SumGone.plug {n : Nat} {sum : DecoderSum} {original : OriginalPacket}
    (hindex : sumIndex < kColumnSumCount)
    (h : SumGone received (n :: pending) base start laneIndex sumIndex sum)
    (hreceived : received n = some original) (hcolumn : original.column = columnOf n)
    (hbuffer : original.buffer ≠ []) (hnew : n ∉ pending)
    (hstart : start ≤ n) (hstop : n < base + sum.elementEnd)
    (hlane : n % kColumnLaneCount = laneIndex) :
    SumGone received pending base start laneIndex sumIndex
      { sum with buffer := accumulate sumIndex sum.buffer original } := by
  refine ⟨h.lane_eq, h.start_eq, h.start_le, ?_, fun hnil =>
    absurd hnil (accumulate_ne_nil _ _ hbuffer)⟩
  have hnone : settled received (n :: pending) n = none := if_pos List.mem_cons_self
  have hsome : settled received pending n = some original.buffer := by
    rw [settled, if_neg hnew, hreceived]
    rfl
  rw [laneSum_fill sumIndex hnone (fun k hk => (settled_cons_of_ne hk).symm) hstart hstop hlane,
    ← h.padded_eq, summand, hsome, accumulate_padded hindex, hcolumn]
  rfl

theorem SumGone.roll {sum : DecoderSum} {removed : Nat}
    (h : SumGone received pending base start laneIndex sumIndex sum)
    (hlane : laneIndex < kColumnLaneCount) (hmod : removed % kColumnLaneCount = 0)
    (hle : removed ≤ sum.elementEnd) :
    SumGone received pending (base + removed) start laneIndex sumIndex { sum with
      elementStart := if removed ≤ sum.elementStart then sum.elementStart - removed else laneIndex
      elementEnd := sum.elementEnd - removed } := by
  have hback : base + removed + (sum.elementEnd - removed) = base + sum.elementEnd := by omega
  refine ⟨?_, ?_, ?_, ?_, ?_⟩
  · have hend := h.lane_eq
    simp only [kColumnLaneCount] at hend hmod ⊢
    omega
  · obtain ⟨hge, hlt, heq⟩ := getNextLaneElement_spec (start - base) hlane
    obtain ⟨hge', hlt', heq'⟩ := getNextLaneElement_spec (start - (base + removed)) hlane
    simp only [h.start_eq]
    generalize getNextLaneElement (start - base) laneIndex = a at *
    generalize getNextLaneElement (start - (base + removed)) laneIndex = b at *
    simp only [kColumnLaneCount] at *
    split <;> omega
  · have hstart := h.start_le
    simp only
    omega
  · simp only [hback]
    exact h.padded_eq
  · simp only [hback]
    exact h.empty

end Start

def SumsFrom (d : DecoderData) (received : Nat → Option OriginalPacket) (pending : List Nat)
    (base start : Nat) : Prop :=
  ∀ laneIndex < kColumnLaneCount, ∀ sumIndex < kColumnSumCount,
    SumGone received pending base start laneIndex sumIndex (d.sums laneIndex sumIndex)

section Plug

variable {d : DecoderData} {received : Nat → Option OriginalPacket} {base start : Nat}

theorem Holds.of_window {d' : DecoderData} (h : d.Holds received base)
    (hwindow : d'.window = d.window) : d'.Holds received base :=
  ⟨hwindow ▸ h.sound, hwindow ▸ h.columnStart_eq, h.base_mod, hwindow ▸ h.contents, h.packets,
    h.past⟩

theorem Holds.columnToElement (h : d.Holds received base) {n : Nat} (hbase : base ≤ n)
    (hcount : n < base + d.window.count) :
    d.window.columnToElement (columnOf n) = n - base := by
  have hmax := h.sound.count_le
  rw [DecoderPacketWindow.columnToElement, h.columnStart_eq]
  exact subtractColumns_columnOf hbase (by simp only [kColumnPeriod] at hmax ⊢; omega)

theorem plugColumn_spec (h : d.Holds received base) {n : Nat} {pending : List Nat}
    (hsums : d.SumsFrom received (n :: pending) base start) (hbase : base ≤ n)
    (hcount : n < base + d.window.count) (hreceived : (received n).isSome) (hnew : n ∉ pending) :
    ∃ sums, plugColumn (start - base) d (columnOf n) = some { d with sums := sums } ∧
      { d with sums := sums }.SumsFrom received pending base start := by
  obtain ⟨original, horiginal⟩ := Option.isSome_iff_exists.mp hreceived
  obtain ⟨hcolumn, hbuffer⟩ := h.packets n original horiginal
  have hget : d.window.getWindowElement (n - base) = some original := by
    rw [h.contents, Nat.add_sub_cancel' hbase, horiginal]
  have hlane : columnOf n % kColumnLaneCount = n % kColumnLaneCount :=
    Nat.mod_mod_of_dvd _ (by decide)
  have hsame : ({ original with column := columnOf n } : OriginalPacket) = original := by
    rw [← hcolumn]
  have hvalid : d.window.invalidElement (n - base) = false := by
    simp only [DecoderPacketWindow.invalidElement, decide_eq_false_iff_not]
    omega
  have hmod := h.base_mod
  unfold plugColumn
  simp only [h.columnToElement hbase hcount, hvalid, Bool.false_eq_true, if_false, hget, hlane, hsame]
  refine ⟨_, rfl, fun l hl i hi => ?_⟩
  obtain ⟨hge, hlt, heq⟩ := getNextLaneElement_spec (start - base) hl
  by_cases hn : l = n % kColumnLaneCount
  · subst hn
    simp only [Function.update_self]
    split
    · next hhole =>
      refine (hsums _ hl i hi).plug hi horiginal hcolumn hbuffer hnew ?_ ?_ rfl
      · omega
      · omega
    · next hhole =>
      refine (hsums _ hl i hi).skip fun _ hstart => ?_
      simp only [kColumnLaneCount] at *
      omega
  · simp only [Function.update_of_ne hn]
    exact (hsums l hl i hi).skip fun hcontra => absurd hcontra.symm hn

theorem plugColumns_spec {pending : List Nat} (hnodup : pending.Nodup) (h : d.Holds received base)
    (hsums : d.SumsFrom received pending base start)
    (hpending : ∀ n ∈ pending, base ≤ n ∧ n < base + d.window.count ∧ (received n).isSome) :
    ∃ sums, (pending.map columnOf).foldlM (plugColumn (start - base)) d =
        some { d with sums := sums } ∧
      { d with sums := sums }.SumsFrom received [] base start := by
  induction pending generalizing d with
  | nil => exact ⟨d.sums, rfl, hsums⟩
  | cons n pending ih =>
    obtain ⟨hnew, hrest⟩ := List.nodup_cons.mp hnodup
    obtain ⟨hbase, hcount, hreceived⟩ := hpending n List.mem_cons_self
    obtain ⟨sums, hplug, hplugged⟩ := plugColumn_spec h hsums hbase hcount hreceived hnew
    obtain ⟨sums', hfold, hall⟩ := ih hrest (d := { d with sums := sums }) (h.of_window rfl) hplugged
      fun k hk => hpending k (List.mem_cons_of_mem _ hk)
    refine ⟨sums', ?_, hall⟩
    rw [List.map_cons, List.foldlM_cons, hplug]
    exact hfold

theorem startSums_started {pending : List Nat} {elementStart bufferBytes : Nat}
    (hnodup : pending.Nodup) (h : d.Holds received base)
    (hcolumns : d.recoveredColumns = pending.map columnOf)
    (hpending : ∀ n ∈ pending, base ≤ n ∧ n < base + d.window.count ∧ (received n).isSome)
    (hstarted : (d.startLanes elementStart bufferBytes).SumsFrom received pending base start)
    (hstart : elementStart = start - base) : ∃ sums, d.startSums elementStart bufferBytes =
        some { d with sums := sums, recoveredColumns := [] } ∧
      { d with sums := sums, recoveredColumns := [] }.SumsFrom received [] base start := by
  subst hstart
  have hholds : (d.startLanes (start - base) bufferBytes).Holds received base := h.of_window rfl
  obtain ⟨sums, hfold, hall⟩ := plugColumns_spec hnodup hholds hstarted hpending
  have hcolumns' : (d.startLanes (start - base) bufferBytes).recoveredColumns =
      pending.map columnOf := hcolumns
  unfold startSums
  simp only [plugSumHoles, hcolumns', List.length_map]
  split
  · rw [hfold]
    exact ⟨sums, rfl, hall⟩
  · next hzero =>
    obtain rfl : pending = [] := List.length_eq_zero_iff.mp (not_not.mp hzero)
    refine ⟨(d.startLanes (start - base) bufferBytes).sums, ?_, hstarted⟩
    rw [List.map_nil] at hcolumns
    rw [startLanes, hcolumns]

theorem startSums_spec {pending : List Nat} (hnodup : pending.Nodup) (h : d.Holds received base)
    (hcolumns : d.recoveredColumns = pending.map columnOf)
    (hpending : ∀ n ∈ pending, base ≤ n ∧ n < base + d.window.count ∧ (received n).isSome)
    (hsums : ∀ laneIndex < kColumnLaneCount, ∀ sumIndex < kColumnSumCount,
      SumGone received pending base start laneIndex sumIndex (d.sums laneIndex sumIndex) ∨
        (d.sums laneIndex sumIndex).buffer = [] ∧ Dry base start laneIndex) (bufferBytes : Nat) :
    ∃ sums, d.startSums (start - base) bufferBytes =
        some { d with sums := sums, recoveredColumns := [] } ∧
      { d with sums := sums, recoveredColumns := [] }.SumsFrom received [] base start :=
  startSums_started hnodup h hcolumns hpending (fun l hl i hi =>
    startSum_spec h.base_mod hl bufferBytes h.past (fun n hn => (hpending n hn).1) (hsums l hl i hi))
    rfl

theorem startSums_moved {pending : List Nat} (hnodup : pending.Nodup) (h : d.Holds received base)
    (hcolumns : d.recoveredColumns = pending.map columnOf)
    (hpending : ∀ n ∈ pending, base ≤ n ∧ n < base + d.window.count ∧ (received n).isSome)
    (hsums : ∀ laneIndex < kColumnLaneCount, ∀ sumIndex < kColumnSumCount,
      SumGone received pending base start laneIndex sumIndex (d.sums laneIndex sumIndex) ∨
        (d.sums laneIndex sumIndex).buffer = []) (hbase : base ≤ start)
    (elementStart bufferBytes : Nat) : ∃ sums, d.startSums elementStart bufferBytes =
        some { d with sums := sums, recoveredColumns := [] } ∧
      { d with sums := sums, recoveredColumns := [] }.SumsFrom received [] base
        (base + elementStart) :=
  startSums_started hnodup h hcolumns hpending (fun l hl i hi =>
    startSum_moved h.base_mod hl bufferBytes hbase elementStart (hsums l hl i hi))
    (Nat.add_sub_cancel_left base elementStart).symm

end Plug

end DecoderData
end Tonk.Siamese
