import Tonk.Siamese.EncoderSums

set_option autoImplicit false

namespace Tonk.Siamese
open Protocol

/-- What is done to the window. Encode itself sets where the sums end. -/
inductive WindowEvent where
  | add (nowMsec : Nat) (data : Bytes)
  | removeBefore (firstKeptColumn : Nat)
  | removeElements
  | resetSums (elementStart : Nat)
  | getSum (laneIndex sumIndex elementEnd : Nat)
  | endSums
  | stopSums

/-- The window together with all that was added, the number of the packet at element 0, that of the
packet that started the window, and that of the packet the sums start with, unless the window was
started after that. -/
structure TracedWindow where
  data : EncoderData
  packets : List Bytes
  base : Nat
  first : Nat
  sumStart : Option Nat

namespace TracedWindow

def initial : TracedWindow := ⟨.initial, [], 0, 0, some 0⟩

def step (t : TracedWindow) : WindowEvent → TracedWindow
  | .add nowMsec data =>
    let (d, result) := t.data.add nowMsec data
    if result = .success then
      { data := d
        packets := t.packets ++ [data]
        base := if 0 < t.data.window.count then t.base else
          t.packets.length - t.packets.length % kColumnLaneCount
        first := if 0 < t.data.window.count then t.first else t.packets.length
        sumStart := if 0 < t.data.window.count ∨ t.packets = [] then t.sumStart else none }
    else { t with data := d }
  | .removeBefore firstKeptColumn => { t with data := t.data.removeBefore firstKeptColumn }
  | .removeElements =>
    let w := t.data.window
    let d := t.data.removeElements
    { t with
      data := d
      base := t.base + w.firstUnremovedElement / kSubwindowSize * kSubwindowSize
      sumStart := if d.window.sumEndElement ≤ d.window.sumStartElement then
        some (t.base + w.firstUnremovedElement) else t.sumStart }
  | .resetSums elementStart =>
    { t with data := t.data.resetSums elementStart, sumStart := some (t.base + elementStart) }
  | .getSum laneIndex sumIndex elementEnd =>
    { t with data := (t.data.getSum laneIndex sumIndex elementEnd).1 }
  | .endSums =>
    { t with data := { t.data with window := { t.data.window with
        sumEndElement := t.data.window.count } } }
  | .stopSums =>
    { t with data := { t.data with window := { t.data.window with
        sumEndElement := t.data.window.sumStartElement } } }

/-- What the assertions and comments of the window ask of its callers. -/
def Allowed (t : TracedWindow) : WindowEvent → Prop
  | .removeElements =>
    0 < t.data.window.count ∧ kSubwindowSize ≤ t.data.window.firstUnremovedElement
  | .resetSums elementStart =>
    elementStart < t.data.window.count ∧ t.first ≤ t.base + elementStart
  | .getSum laneIndex sumIndex elementEnd => laneIndex < kColumnLaneCount ∧
    sumIndex < kColumnSumCount ∧ elementEnd ≤ t.data.window.count
  | _ => True

instance (t : TracedWindow) : (event : WindowEvent) → Decidable (t.Allowed event)
  | .removeElements => instDecidableAnd
  | .resetSums _ => instDecidableAnd
  | .getSum _ _ _ => instDecidableAnd
  | .add _ _ | .removeBefore _ | .endSums | .stopSums => .isTrue trivial

def run (t : TracedWindow) (events : List WindowEvent) : TracedWindow := events.foldl step t

/-- Every operation of the run is allowed when it is done. -/
def Permitted : TracedWindow → List WindowEvent → Prop
  | _, [] => True
  | t, event :: events => t.Allowed event ∧ (t.step event).Permitted events

instance : (t : TracedWindow) → (events : List WindowEvent) → Decidable (t.Permitted events)
  | _, [] => .isTrue trivial
  | t, event :: events =>
    have := instDecidablePermitted (t.step event) events
    instDecidableAnd

structure Inv (t : TracedWindow) : Prop where
  holds : t.data.Holds t.packets t.base t.first
  fresh : t.packets = [] → t.base = 0 ∧ t.first = 0
  sums : ∀ start, t.sumStart = some start → t.data.SumsFrom t.packets t.base t.first start

theorem inv_initial : initial.Inv := by
  refine ⟨EncoderData.holds_initial, fun _ => ⟨rfl, rfl⟩, fun start hstart => ?_⟩
  cases hstart
  exact EncoderData.sumsFrom_initial

theorem Inv.count_eq_zero {t : TracedWindow} (h : t.Inv) (hnil : t.packets = []) :
    t.data.window.count = 0 := by
  by_contra hne
  have hcount := h.holds.count_eq (Nat.pos_of_ne_zero hne)
  rw [hnil, List.length_nil] at hcount
  omega

theorem Inv.add {t : TracedWindow} (h : t.Inv) (nowMsec : Nat) (data : Bytes) :
    (t.step (.add nowMsec data)).Inv := by
  simp only [step]
  by_cases hok : (t.data.window.add nowMsec).2 = .success
  · have hsuccess := (EncoderData.add_success data hok rfl).1
    rw [if_pos hsuccess]
    by_cases hpos : 0 < t.data.window.count
    · simp only [hpos, if_true, true_or]
      refine ⟨h.holds.add hpos data hok, fun hnil => absurd hnil (by simp), fun start hstart => ?_⟩
      exact (h.sums start hstart).add h.holds.base_mod (.inl hpos) (h.holds.count_eq hpos) data hok
    · have hempty : t.data.window.count = 0 := Nat.eq_zero_of_not_pos hpos
      simp only [hpos, if_false, false_or]
      refine ⟨h.holds.add_empty hempty data hok, fun hnil => absurd hnil (by simp),
        fun start hstart => ?_⟩
      by_cases hnil : t.packets = []
      · obtain ⟨hbase, hfirst⟩ := h.fresh hnil
        rw [if_pos hnil] at hstart
        have hsums := h.sums start hstart
        rw [hbase, hfirst] at hsums
        have hadded := hsums.add rfl (.inr hnil) (by rw [hempty, hnil]; rfl) data hok
        simpa [hnil] using hadded
      · rw [if_neg hnil] at hstart
        exact absurd hstart (by simp)
  · have hsame : t.data.add nowMsec data = (t.data, (t.data.window.add nowMsec).2) := by
      unfold EncoderData.add
      exact if_neg hok
    rw [hsame]
    simp only [hok, if_false]
    exact h

theorem Inv.removeElements {t : TracedWindow} (h : t.Inv) (hpos : 0 < t.data.window.count) :
    (t.step .removeElements).Inv := by
  refine ⟨h.holds.removeElements hpos, fun hnil => ?_, fun start hstart => ?_⟩
  · exact absurd (h.count_eq_zero hnil) (by omega)
  · simp only [step] at hstart
    split at hstart
    · next hstop =>
      cases hstart
      exact h.holds.sumsFrom_removeElements hpos hstop
    · next hrun => exact (h.sums start hstart).removeElements h.holds hpos hrun

theorem Inv.step {t : TracedWindow} (h : t.Inv) {event : WindowEvent} (hallowed : t.Allowed event) :
    (t.step event).Inv := by
  cases event with
  | add nowMsec data => exact h.add nowMsec data
  | removeBefore firstKeptColumn =>
    refine ⟨h.holds.removeBefore firstKeptColumn, h.fresh, fun start hstart => ?_⟩
    refine (h.sums start hstart).removeBefore firstKeptColumn fun hpos hnil => ?_
    rw [h.count_eq_zero hnil] at hpos
    exact Nat.lt_irrefl 0 hpos
  | removeElements => exact h.removeElements hallowed.1
  | resetSums elementStart =>
    refine ⟨h.holds.resetSums elementStart, h.fresh, fun start hstart => ?_⟩
    cases hstart
    exact h.holds.sumsFrom_resetSums hallowed.1 hallowed.2
  | getSum laneIndex sumIndex elementEnd =>
    refine ⟨h.holds.getSum laneIndex sumIndex elementEnd, h.fresh, fun start hstart => ?_⟩
    exact (h.sums start hstart).getSum h.holds hallowed.2.2
  | endSums =>
    refine ⟨h.holds.of_eq rfl rfl rfl rfl rfl, h.fresh, fun start hstart => ?_⟩
    obtain ⟨hcolumn, hfirst, hsums, hnext⟩ := h.sums start hstart
    exact ⟨hcolumn, hfirst, hsums, hnext⟩
  | stopSums =>
    refine ⟨h.holds.of_eq rfl rfl rfl rfl rfl, h.fresh, fun start hstart => ?_⟩
    obtain ⟨hcolumn, hfirst, hsums, hnext⟩ := h.sums start hstart
    exact ⟨hcolumn, hfirst, hsums, hnext⟩

theorem Inv.run {t : TracedWindow} (h : t.Inv) {events : List WindowEvent}
    (hpermitted : t.Permitted events) : (t.run events).Inv := by
  induction events generalizing t with
  | nil => exact h
  | cons event events ih => exact ih (h.step hpermitted.1) hpermitted.2

/-- GetSum against the naive sum, wherever a run has led. -/
theorem getSum_eq_naiveSum {events : List WindowEvent} (hrun : initial.Permitted events)
    {laneIndex sumIndex elementEnd start : Nat} (hlane : laneIndex < kColumnLaneCount)
    (hsum : sumIndex < kColumnSumCount)
    (hend : elementEnd ≤ (initial.run events).data.window.count)
    (hstart : (initial.run events).sumStart = some start) :
    let t := initial.run events
    t.data.window.sumColumnStart = columnOf start ∧ t.data.window.columnStart = columnOf t.base ∧
      (0 < t.data.window.count → t.base + t.data.window.count = t.packets.length) ∧
      (t.data.getSum laneIndex sumIndex elementEnd).2.padded =
        naiveSum t.packets laneIndex sumIndex start
          (t.base + max elementEnd ((t.data.lanes laneIndex).nextElement sumIndex)) := by
  have h : (initial.run events).Inv := inv_initial.run hrun
  have hsums := h.sums start hstart
  refine ⟨hsums.column_eq, h.holds.columnStart_eq, h.holds.count_eq, ?_⟩
  obtain ⟨hlane', hle, hpadded⟩ :=
    (hsums.sums laneIndex hlane sumIndex hsum).getSum h.holds hsums.first_le hsum hend
  rw [hpadded]
  have hmod := h.holds.base_mod
  refine laneSum_stop _ fun n hn hn' => ?_
  rcases (initial.run events).data.getSum_next laneIndex sumIndex elementEnd with
    ⟨hless, hge, hlt⟩ | ⟨hge, heq⟩
  · simp only [kColumnLaneCount] at *
    omega
  · rw [heq, Nat.max_eq_right hge]

def rolledEvents : List WindowEvent :=
  List.replicate 80 (.add 1 [1]) ++
    [.resetSums 3, .getSum 0 1 20, .endSums, .removeBefore 70, .removeElements]

theorem getSum_eq_naiveSum_rolled : initial.Permitted rolledEvents ∧
    (initial.run rolledEvents).base = 64 ∧
    ((initial.run rolledEvents).data.getSum 0 1 16).2.padded =
      naiveSum (List.replicate 80 [1]) 0 1 3 80 := by
  have hrun : initial.Permitted rolledEvents := by decide +kernel
  have hbase : (initial.run rolledEvents).base = 64 := by decide +kernel
  have hpackets : (initial.run rolledEvents).packets = List.replicate 80 [1] := by decide +kernel
  have hnext : ((initial.run rolledEvents).data.lanes 0).nextElement 1 = 0 := by decide +kernel
  have hlane : 0 < kColumnLaneCount := by decide
  have hindex : 1 < kColumnSumCount := by decide
  have hend : 16 ≤ (initial.run rolledEvents).data.window.count := by decide +kernel
  have hstart : (initial.run rolledEvents).sumStart = some 3 := by decide +kernel
  obtain ⟨-, -, -, hsum⟩ := getSum_eq_naiveSum hrun hlane hindex hend hstart
  refine ⟨hrun, hbase, ?_⟩
  rw [hsum, hbase, hpackets, hnext, Nat.max_zero]

/-- A sum that has gone to element 16 does not come back to element 8. -/
theorem getSum_not_shorter : ¬∀ (events : List WindowEvent)
    (laneIndex sumIndex elementEnd start : Nat), initial.Permitted events →
      laneIndex < kColumnLaneCount → sumIndex < kColumnSumCount →
      elementEnd ≤ (initial.run events).data.window.count →
      (initial.run events).sumStart = some start →
      ((initial.run events).data.getSum laneIndex sumIndex elementEnd).2.padded =
        naiveSum (initial.run events).packets laneIndex sumIndex start
          ((initial.run events).base + elementEnd) := by
  intro h
  have hsum := congrFun (h (List.replicate 16 (.add 1 [1]) ++ [.resetSums 0, .getSum 0 0 16])
    0 0 8 0 (by decide +kernel) (by decide) (by decide) (by decide +kernel) (by decide +kernel)) 0
  revert hsum
  decide +kernel

end TracedWindow
end Tonk.Siamese
