import Tonk.Siamese.DecoderSums

set_option autoImplicit false

namespace Tonk.Siamese
open Protocol

inductive DecoderWindowEvent where
  | addOriginal (packetNum : Nat) (data : Bytes)
  | growWindow (windowElementEnd : Nat)
  | recover (element : Nat) (original : OriginalPacket)
  | resetSums (column : Nat)
  | startSums (elementStart bufferBytes : Nat)
  | getSum (laneIndex sumIndex elementEnd : Nat)
  | removeElements (r : Decoder.Removal) (initialRecoveryBytes : Nat)

/-- The window together with the packets received or recovered so far, by their numbers, the number
of the packet at element 0, and that of the packet the sums start with, unless elements were removed
without them. `pending` are the packets recovered since the sums were last reset or started, and
`started` says that there have been none. -/
structure TracedDecoderWindow where
  data : DecoderData
  received : Nat → Option OriginalPacket
  base : Nat
  sumStart : Option Nat
  pending : List Nat
  started : Bool

namespace TracedDecoderWindow

def initial : TracedDecoderWindow := ⟨.initial, fun _ => none, 0, some 0, [], false⟩

/-- The packet the sums start with after StartSums at an element: every sum whose first packet is
another one begins anew. -/
def startedAt (t : TracedDecoderWindow) (elementStart start : Nat) : Nat :=
  if elementStart = start - t.base then start else t.base + elementStart

/-- The element RemoveElements starts the sums at when it goes on with them. -/
def keptElement (t : TracedDecoderWindow) (r : Decoder.Removal) : Nat :=
  let element := t.data.window.columnToElement r.targetSumStartColumn
  if t.data.window.invalidElement element then 0 else element

/-- The sums and what is known of them after RemoveElements went on with them. -/
def keepSums (t : TracedDecoderWindow) (r : Decoder.Removal) : TracedDecoderWindow :=
  if r.seenSum then
    let restarts := t.data.sumColumnStart ≠ r.targetSumStartColumn ∨
      r.targetSumColumnCount < t.data.sumColumnCount
    { t with
      sumStart := if restarts then
        some (t.base + t.data.window.columnToElement r.targetSumStartColumn)
        else t.sumStart.map (t.startedAt (t.keptElement r))
      pending := []
      started := true }
  else { t with sumStart := none, started := false }

/-- A call that fails disables the decoder; the window stays. -/
def step (t : TracedDecoderWindow) : DecoderWindowEvent → TracedDecoderWindow
  | .addOriginal packetNum data =>
    let element := t.data.window.columnToElement packetNum
    { t with
      data := t.data.addOriginal packetNum data
      received := if (t.data.window.addOriginal packetNum
          (.initialized packetNum data)).2 = .success then
        Function.update t.received (t.base + element) (some (.initialized packetNum data))
        else t.received }
  | .growWindow windowElementEnd =>
    { t with data := { t.data with window := t.data.window.growWindow windowElementEnd } }
  | .recover element original =>
    { t with
      data := t.data.recover element original
      received := Function.update t.received (t.base + element) (some original)
      pending := t.pending ++ [t.base + element]
      started := false }
  | .resetSums column =>
    let element := t.data.window.columnToElement column
    { t with
      data := { t.data.resetSums element with sumColumnStart := column }
      sumStart := some (t.base + element)
      pending := []
      started := true }
  | .startSums elementStart bufferBytes =>
    match t.data.startSums elementStart bufferBytes with
    | none => t
    | some d => { t with
        data := d
        sumStart := t.sumStart.map (t.startedAt elementStart)
        pending := []
        started := true }
  | .getSum laneIndex sumIndex elementEnd =>
    { t with data := (t.data.getSum laneIndex sumIndex elementEnd).1 }
  | .removeElements r initialRecoveryBytes =>
    match t.data.removeElements r initialRecoveryBytes with
    | none => t
    | some d => { t.keepSums r with
        data := d
        base := t.base + r.firstKeptElement / kSubwindowSize * kSubwindowSize }

/-- How the decoder uses the window and its sums. -/
def Allowed (t : TracedDecoderWindow) : DecoderWindowEvent → Prop
  -- A packet that a sum has gone past without it comes back by recovery only.
  | .addOriginal packetNum _ => packetNum < kColumnPeriod ∧
    ∀ start ∈ t.sumStart, ∀ sumIndex < kColumnSumCount,
      (t.data.window.getWindowElement (t.data.window.columnToElement packetNum)).isSome ∨
        t.base + t.data.window.columnToElement packetNum < start ∨
        (t.data.sums (packetNum % kColumnLaneCount) sumIndex).elementEnd ≤
          t.data.window.columnToElement packetNum
  | .growWindow windowElementEnd => windowElementEnd ≤ kColumnPeriod / 2
  | .recover element original => element < t.data.window.count ∧
    t.data.window.getWindowElement element = none ∧
    original.column = t.data.window.elementToColumn element ∧ original.buffer ≠ []
  | .resetSums _ => True
  -- Sums whose start has slid out of the window are started with the window, all others anywhere.
  | .startSums elementStart _ => ∀ start ∈ t.sumStart, elementStart = start - t.base ∨ t.base ≤ start
  -- The sums have been reset or started since the last recovery.
  | .getSum laneIndex sumIndex elementEnd => t.started ∧ laneIndex < kColumnLaneCount ∧
    sumIndex < kColumnSumCount ∧ elementEnd ≤ t.data.window.count
  | .removeElements r _ =>
    r.firstKeptElement / kSubwindowSize * kSubwindowSize ≤ t.data.window.nextExpectedElement ∧
    ∀ start ∈ t.sumStart, t.base ≤ start ∨ t.data.sumColumnStart = columnOf start ∧
      t.base + t.data.window.count ≤ start + kColumnPeriod

instance (t : TracedDecoderWindow) : (event : DecoderWindowEvent) → Decidable (t.Allowed event)
  | .addOriginal _ _ | .recover _ _ | .getSum _ _ _ | .removeElements _ _ => instDecidableAnd
  | .resetSums _ => .isTrue trivial
  | .growWindow _ => Nat.decLe _ _
  | .startSums elementStart _ =>
    inferInstanceAs (Decidable (∀ start ∈ t.sumStart, elementStart = start - t.base ∨ t.base ≤ start))

def run (t : TracedDecoderWindow) (events : List DecoderWindowEvent) : TracedDecoderWindow :=
  events.foldl step t

/-- Every operation of the run is allowed when it is done. -/
def Permitted : TracedDecoderWindow → List DecoderWindowEvent → Prop
  | _, [] => True
  | t, event :: events => t.Allowed event ∧ (t.step event).Permitted events

instance : (t : TracedDecoderWindow) → (events : List DecoderWindowEvent) →
    Decidable (t.Permitted events)
  | _, [] => .isTrue trivial
  | t, event :: events =>
    have := instDecidablePermitted (t.step event) events
    instDecidableAnd

/-- The sums, and the packets to be plugged into them. -/
structure Summed (t : TracedDecoderWindow) (start : Nat) : Prop where
  columns_eq : t.data.recoveredColumns = t.pending.map columnOf
  nodup : t.pending.Nodup
  pending : ∀ n ∈ t.pending, t.base ≤ n ∧ n < t.base + t.data.window.count ∧ (t.received n).isSome
  started : t.started = true → t.pending = []
  sums : ∀ laneIndex < kColumnLaneCount, ∀ sumIndex < kColumnSumCount,
    DecoderData.SumGone t.received t.pending t.base start laneIndex sumIndex
        (t.data.sums laneIndex sumIndex) ∨
      t.started = false ∧ (t.data.sums laneIndex sumIndex).buffer = [] ∧
        DecoderData.Dry t.base start laneIndex

structure Inv (t : TracedDecoderWindow) : Prop where
  holds : t.data.Holds t.received t.base
  summed : ∀ start ∈ t.sumStart, t.Summed start

theorem inv_initial : initial.Inv := by
  refine ⟨DecoderData.holds_initial, fun start hstart => ?_⟩
  cases hstart
  refine ⟨rfl, List.nodup_nil, nofun, nofun,
    fun l _ i _ => .inr ⟨rfl, rfl, ?_⟩⟩
  exact fun n _ hn => absurd hn (Nat.not_lt_zero n)

theorem addOriginal_contents (w : DecoderPacketWindow OriginalPacket) (packetNum : Nat)
    (original : OriginalPacket) :
    (w.addOriginal packetNum original).1.columnStart = w.columnStart ∧
      w.count ≤ (w.addOriginal packetNum original).1.count ∧
      ((w.addOriginal packetNum original).2 = .success ∧
          w.getWindowElement (w.columnToElement packetNum) = none ∧
          (∀ e, (w.addOriginal packetNum original).1.getWindowElement e =
            if e = w.columnToElement packetNum then some original else w.getWindowElement e) ∨
        (w.addOriginal packetNum original).2 ≠ .success ∧
          ∀ e, (w.addOriginal packetNum original).1.getWindowElement e = w.getWindowElement e) := by
  unfold DecoderPacketWindow.addOriginal
  simp only
  split
  · exact ⟨rfl, Nat.le_refl _, .inr ⟨by simp, fun _ => rfl⟩⟩
  · rw [DecoderPacketWindow.growWindow_getWindowElement]
    split
    · refine ⟨w.growWindow_columnStart _, ?_, .inr ⟨by simp, fun e => ?_⟩⟩
      · rw [w.growWindow_count]
        exact Nat.le_max_left _ _
      · exact w.growWindow_getWindowElement _ e
    · next hmissing =>
      refine ⟨?_, ?_, .inl ⟨rfl, Option.not_isSome_iff_eq_none.mp hmissing, fun e => ?_⟩⟩
      · rw [DecoderPacketWindow.fill_columnStart, w.growWindow_columnStart]
      · rw [DecoderPacketWindow.fill_count, w.growWindow_count]
        exact Nat.le_max_left _ _
      · rw [DecoderPacketWindow.fill_getWindowElement, w.growWindow_getWindowElement]

theorem settled_update {received : Nat → Option OriginalPacket} {pending : List Nat} {n k : Nat}
    (original : OriginalPacket) (h : k ≠ n) :
    DecoderData.settled (Function.update received n (some original)) pending k =
      DecoderData.settled received pending k := by
  rw [DecoderData.settled, Function.update_of_ne h]
  rfl

theorem SumGone.receive {received : Nat → Option OriginalPacket} {pending : List Nat}
    {base start laneIndex sumIndex n : Nat} {sum : DecoderSum}
    (h : DecoderData.SumGone received pending base start laneIndex sumIndex sum)
    (original : OriginalPacket) (hout : n % kColumnLaneCount = laneIndex → start ≤ n →
      base + sum.elementEnd ≤ n) :
    DecoderData.SumGone (Function.update received n (some original)) pending base start laneIndex
      sumIndex sum := by
  have hne : ∀ k, start ≤ k → k < base + sum.elementEnd → k % kColumnLaneCount = laneIndex →
      k ≠ n := by
    rintro k hstart hstop hlane rfl
    exact absurd (hout hlane hstart) (by omega)
  refine ⟨h.lane_eq, h.start_eq, h.start_le, ?_, fun hnil k hstart hstop hlane => ?_⟩
  · rw [h.padded_eq]
    exact laneSum_congr sumIndex fun k hstart hstop hlane =>
      (settled_update original (hne k hstart hstop hlane)).symm
  · rw [settled_update original (hne k hstart hstop hlane)]
    exact h.empty hnil k hstart hstop hlane

theorem isSome_update {received : Nat → Option OriginalPacket} {n k : Nat}
    (original : OriginalPacket) (h : (received k).isSome) :
    (Function.update received n (some original) k).isSome := by
  by_cases hk : k = n
  · rw [hk, Function.update_self]
    rfl
  · rwa [Function.update_of_ne hk]

theorem Inv.received_holds {t : TracedDecoderWindow} (h : t.Inv) {d : DecoderData} {element : Nat}
    {original : OriginalPacket} (hsound : d.window.Sound)
    (hstart : d.window.columnStart = t.data.window.columnStart)
    (hcontents : ∀ e, d.window.getWindowElement e =
      if e = element then some original else t.data.window.getWindowElement e)
    (hcolumn : original.column = columnOf (t.base + element)) (hbuffer : original.buffer ≠ []) :
    d.Holds (Function.update t.received (t.base + element) (some original)) t.base := by
  refine ⟨hsound, hstart.trans h.holds.columnStart_eq, h.holds.base_mod, fun e => ?_,
    fun n p hp => ?_, fun n hn => isSome_update original (h.holds.past n hn)⟩
  · rw [hcontents]
    by_cases he : e = element
    · rw [if_pos he, he, Function.update_self]
    · rw [if_neg he, Function.update_of_ne (by omega), h.holds.contents]
  · by_cases hn : n = t.base + element
    · rw [hn, Function.update_self] at hp
      cases hp
      exact ⟨hn ▸ hcolumn, hbuffer⟩
    · rw [Function.update_of_ne hn] at hp
      exact h.holds.packets n p hp

theorem Inv.addOriginal {t : TracedDecoderWindow} (h : t.Inv) {packetNum : Nat} {data : Bytes}
    (hallowed : t.Allowed (.addOriginal packetNum data)) :
    (t.step (.addOriginal packetNum data)).Inv := by
  obtain ⟨hpacket, hpassed⟩ := hallowed
  obtain ⟨hstart, hcount, hcases⟩ :=
    addOriginal_contents t.data.window packetNum (.initialized packetNum data)
  have hsound := h.holds.sound.addOriginal packetNum (OriginalPacket.initialized packetNum data)
  have hcolumn : packetNum = columnOf (t.base + t.data.window.columnToElement packetNum) := by
    have hsub := subtractColumns_cast packetNum (columnOf t.base)
    rw [DecoderPacketWindow.columnToElement, h.holds.columnStart_eq]
    simp only [columnOf, kColumnPeriod] at hsub hpacket ⊢
    omega
  rcases hcases with ⟨hok, hmissing, hcontents⟩ | ⟨hfail, hcontents⟩
  · simp only [step, hok, if_true]
    refine ⟨h.received_holds hsound hstart hcontents hcolumn ?_, fun start hsome => ?_⟩
    · exact OriginalPacket.initialized_ne_nil packetNum data
    · obtain ⟨hcols, hnodup, hpending, hstarted, hsums⟩ := h.summed start hsome
      refine ⟨hcols, hnodup, fun n hn => ?_, hstarted,
        fun l hl i hi => ?_⟩
      · obtain ⟨hbase, hlt, hreceived⟩ := hpending n hn
        refine ⟨hbase, ?_, isSome_update _ hreceived⟩
        simp only [DecoderData.addOriginal]
        omega
      · refine (hsums l hl i hi).imp (fun hgone => SumGone.receive hgone _ fun hlane hle => ?_) id
        have hlane' : packetNum % kColumnLaneCount = l := by
          calc packetNum % kColumnLaneCount
            _ = columnOf (t.base + t.data.window.columnToElement packetNum) % kColumnLaneCount :=
              congrArg (· % kColumnLaneCount) hcolumn
            _ = (t.base + t.data.window.columnToElement packetNum) % kColumnLaneCount :=
              Nat.mod_mod_of_dvd _ (by decide)
            _ = l := hlane
        have hsum := hpassed start hsome i hi
        rw [hmissing, hlane'] at hsum
        have hend := (hsum.resolve_left (by decide)).resolve_left (by omega)
        exact Nat.add_le_add_left hend _
  · simp only [step, hfail, if_false]
    refine ⟨⟨hsound, hstart.trans h.holds.columnStart_eq, h.holds.base_mod,
      fun e => (hcontents e).trans (h.holds.contents e), h.holds.packets, h.holds.past⟩,
      fun start hsome => ?_⟩
    obtain ⟨hcols, hnodup, hpending, hstarted, hsums⟩ := h.summed start hsome
    refine ⟨hcols, hnodup, fun n hn => ?_, hstarted, hsums⟩
    obtain ⟨hbase, hlt, hreceived⟩ := hpending n hn
    refine ⟨hbase, ?_, hreceived⟩
    simp only [DecoderData.addOriginal]
    omega

theorem Inv.growWindow {t : TracedDecoderWindow} (h : t.Inv) {windowElementEnd : Nat}
    (hend : windowElementEnd ≤ kColumnPeriod / 2) : (t.step (.growWindow windowElementEnd)).Inv := by
  refine ⟨⟨h.holds.sound.growWindow hend, ?_, h.holds.base_mod, fun e => ?_, h.holds.packets,
    h.holds.past⟩, fun start hsome => ?_⟩
  · exact (t.data.window.growWindow_columnStart _).trans h.holds.columnStart_eq
  · exact (t.data.window.growWindow_getWindowElement _ e).trans (h.holds.contents e)
  · obtain ⟨hcols, hnodup, hpending, hstarted, hsums⟩ := h.summed start hsome
    have hmore : t.data.window.count ≤ (t.data.window.growWindow windowElementEnd).count := by
      rw [t.data.window.growWindow_count]
      exact Nat.le_max_left _ _
    refine ⟨hcols, hnodup, fun n hn => ?_, hstarted, hsums⟩
    obtain ⟨hbase, hlt, hreceived⟩ := hpending n hn
    exact ⟨hbase, Nat.lt_of_lt_of_le hlt (Nat.add_le_add_left hmore _), hreceived⟩

/-- The sums do not see a packet that is recovered until it is plugged in. -/
theorem settled_recover {received : Nat → Option OriginalPacket} {pending : List Nat} {n : Nat}
    (original : OriginalPacket) (hmissing : received n = none) :
    DecoderData.settled (Function.update received n (some original)) (pending ++ [n]) =
      DecoderData.settled received pending := by
  funext k
  by_cases hk : k = n
  · rw [hk, DecoderData.settled, if_pos (by simp), DecoderData.settled, hmissing]
    split <;> rfl
  · rw [settled_update original hk]
    simp only [DecoderData.settled, List.mem_append, List.mem_singleton, hk, or_false]

theorem Inv.recover {t : TracedDecoderWindow} (h : t.Inv) {element : Nat}
    {original : OriginalPacket} (hallowed : t.Allowed (.recover element original)) :
    (t.step (.recover element original)).Inv := by
  obtain ⟨hcount, hmissing, hcolumn, hbuffer⟩ := hallowed
  have hnumber : original.column = columnOf (t.base + element) := by
    rw [hcolumn, DecoderPacketWindow.elementToColumn, h.holds.columnStart_eq,
      addColumns_columnOf_right]
  have hnone : t.received (t.base + element) = none := by
    rw [← h.holds.contents, hmissing]
  have hgot : t.data.window.isGot element = false := by
    rw [h.holds.sound.got_eq, hmissing]
    rfl
  refine ⟨h.received_holds (h.holds.sound.fill hcount hgot original)
    (t.data.window.fill_columnStart element original)
    (fun e => t.data.window.fill_getWindowElement element e original) hnumber hbuffer,
    fun start hsome => ?_⟩
  obtain ⟨hcols, hnodup, hpending, hstarted, hsums⟩ := h.summed start hsome
  have hsame : t.data.window.count = (t.step (.recover element original)).data.window.count :=
    (t.data.window.fill_count element original).symm
  refine ⟨?_, ?_, fun n hn => ?_,
    fun hstarted => absurd hstarted Bool.false_ne_true, fun l hl i hi => ?_⟩
  · simp only [step, DecoderData.recover, hcols, hnumber, List.map_append, List.map_cons,
      List.map_nil]
  · refine List.Nodup.append hnodup (List.nodup_singleton _) ?_
    rw [List.disjoint_singleton]
    intro hmem
    have hreceived := (hpending _ hmem).2.2
    rw [hnone] at hreceived
    exact absurd hreceived (by decide)
  · rcases List.mem_append.mp hn with hold | hnew
    · obtain ⟨hbase, hlt, hreceived⟩ := hpending n hold
      refine ⟨hbase, ?_, isSome_update original hreceived⟩
      simpa [step, DecoderData.recover] using hlt
    · rw [List.mem_singleton] at hnew
      subst hnew
      refine ⟨Nat.le_add_right _ _, ?_, ?_⟩
      · simpa [step, DecoderData.recover] using hcount
      · simp only [step, Function.update_self]
        rfl
  · rcases hsums l hl i hi with hgone | ⟨-, hnil, hdry⟩
    · refine .inl ⟨hgone.lane_eq, hgone.start_eq, hgone.start_le, ?_, ?_⟩
      · simp only [step, settled_recover original hnone]
        exact hgone.padded_eq
      · simp only [step, settled_recover original hnone]
        exact hgone.empty
    · exact .inr ⟨rfl, hnil, hdry⟩

theorem Inv.resetSums {t : TracedDecoderWindow} (h : t.Inv) (column : Nat) :
    (t.step (.resetSums column)).Inv := by
  refine ⟨h.holds.of_window rfl, fun start hsome => ?_⟩
  cases hsome
  refine ⟨rfl, List.nodup_nil, nofun, fun _ => rfl, fun l hl i _ => .inl ?_⟩
  have hspec : DecoderData.SumGone t.received [] t.base
      (t.base + t.data.window.columnToElement column) l i _ :=
    DecoderData.resetSum_spec h.holds.base_mod hl (Nat.le_add_right _ _)
  rw [Nat.add_sub_cancel_left] at hspec
  exact hspec

theorem plugColumn_frame {elementStart column : Nat} {d d' : DecoderData}
    (h : d.plugColumn elementStart column = some d') : d'.window = d.window := by
  unfold DecoderData.plugColumn at h
  simp only at h
  split at h
  · cases h
    rfl
  · split at h
    · split at h
      · cases h
      · cases h
        rfl
    · cases h
      rfl

theorem plugColumns_frame {elementStart : Nat} {columns : List Nat} {d d' : DecoderData}
    (h : columns.foldlM (DecoderData.plugColumn elementStart) d = some d') :
    d'.window = d.window := by
  induction columns generalizing d with
  | nil =>
    cases h
    rfl
  | cons column columns ih =>
    rw [List.foldlM_cons] at h
    obtain ⟨plugged, hplug, hrest⟩ := Option.bind_eq_some_iff.mp h
    exact (ih hrest).trans (plugColumn_frame hplug)

theorem startSums_frame {elementStart bufferBytes : Nat} {d d' : DecoderData}
    (h : d.startSums elementStart bufferBytes = some d') : d'.window = d.window := by
  unfold DecoderData.startSums DecoderData.plugSumHoles at h
  simp only at h
  split at h
  · split at h
    · cases h
    · next plugged hplug =>
      have hframe := plugColumns_frame hplug
      cases h
      exact hframe
  · cases h
    rfl

theorem Summed.startSums {t : TracedDecoderWindow} {start elementStart : Nat} (h : t.Summed start)
    (hholds : t.data.Holds t.received t.base)
    (hstart : elementStart = start - t.base ∨ t.base ≤ start) (bufferBytes : Nat) :
    ∃ sums, t.data.startSums elementStart bufferBytes =
        some { t.data with sums := sums, recoveredColumns := [] } ∧
      DecoderData.SumsFrom { t.data with sums := sums, recoveredColumns := [] } t.received []
        t.base (t.startedAt elementStart start) := by
  by_cases hsame : elementStart = start - t.base
  · rw [startedAt, if_pos hsame, hsame]
    exact DecoderData.startSums_spec h.nodup hholds h.columns_eq h.pending
      (fun l hl i hi => (h.sums l hl i hi).imp_right fun hdry => hdry.2) bufferBytes
  · rw [startedAt, if_neg hsame]
    exact DecoderData.startSums_moved h.nodup hholds h.columns_eq h.pending
      (fun l hl i hi => (h.sums l hl i hi).imp_right fun hdry => hdry.2.1)
      (hstart.resolve_left hsame) elementStart bufferBytes

theorem Inv.startSums {t : TracedDecoderWindow} (h : t.Inv) {elementStart bufferBytes : Nat}
    (hallowed : t.Allowed (.startSums elementStart bufferBytes)) :
    (t.step (.startSums elementStart bufferBytes)).Inv := by
  simp only [step]
  split
  · exact h
  · next d hd =>
    refine ⟨h.holds.of_window (startSums_frame hd), fun start hsome => ?_⟩
    obtain ⟨old, hold, rfl⟩ := Option.mem_map.mp hsome
    obtain ⟨sums, hok, hall⟩ :=
      (h.summed old hold).startSums h.holds (hallowed old hold) bufferBytes
    rw [hok] at hd
    cases hd
    exact ⟨rfl, List.nodup_nil, nofun, fun _ => rfl, fun l hl i hi => .inl (hall l hl i hi)⟩

theorem Inv.getSum {t : TracedDecoderWindow} (h : t.Inv) {laneIndex sumIndex elementEnd : Nat}
    (hallowed : t.Allowed (.getSum laneIndex sumIndex elementEnd)) :
    (t.step (.getSum laneIndex sumIndex elementEnd)).Inv := by
  obtain ⟨hstarted, -, hindex, -⟩ := hallowed
  refine ⟨h.holds.of_window rfl, fun start hsome => ?_⟩
  have hsummed := h.summed start hsome
  obtain ⟨hcols, hnodup, hpending, hempty, hsums⟩ := hsummed
  refine ⟨hcols, hnodup, hpending, hempty, fun l hl i hi => ?_⟩
  simp only [step, DecoderData.getSum]
  by_cases hlane : l = laneIndex
  · subst hlane
    rw [Function.update_self]
    by_cases hsum : i = sumIndex
    · subst hsum
      rw [Function.update_self]
      have hgone := (hsums l hl i hi).resolve_right fun hdry => by
        rw [hstarted] at hdry
        exact absurd hdry.1 (by decide)
      rw [hempty hstarted] at hgone ⊢
      exact .inl (hgone.goneSum h.holds hi elementEnd)
    · rw [Function.update_of_ne hsum]
      exact hsums l hl i hi
  · rw [Function.update_of_ne hlane]
    exact hsums l hl i hi

theorem Holds.shift {d : DecoderData} {received : Nat → Option OriginalPacket} {base k : Nat}
    (h : d.Holds received base) (hk : k * kSubwindowSize ≤ d.window.nextExpectedElement) :
    DecoderData.Holds { d with window := d.window.shift k } received (base + k * kSubwindowSize) := by
  refine ⟨h.sound.shift hk, ?_, ?_, fun e => ?_, h.packets, fun n hn => ?_⟩
  · simp only [DecoderPacketWindow.shift, DecoderPacketWindow.elementToColumn]
    rw [h.columnStart_eq, addColumns_columnOf_right]
  · have hmod := h.base_mod
    simp only [kColumnLaneCount, kSubwindowSize] at hmod ⊢
    omega
  · simp only
    rw [d.window.shift_getWindowElement, h.contents]
    congr 1
    ring
  · by_cases hold : n < base
    · exact h.past n hold
    · have hgot := h.sound.before_next (n - base) (by omega)
      rw [h.sound.got_eq, h.contents, Nat.add_sub_cancel' (Nat.le_of_not_lt hold)] at hgot
      exact hgot

theorem rollSums_spec {d : DecoderData} {received : Nat → Option OriginalPacket}
    {base start removed : Nat} (h : d.Holds received base)
    (hsums : d.SumsFrom received [] base start) (hmod : removed % kColumnLaneCount = 0) :
    (d.rollSums removed).SumsFrom received [] (base + removed) start := by
  intro l hl i hi
  have hend : removed ≤ (d.goneSum l i removed).elementEnd := by
    rcases d.goneSum_elementEnd l i removed with ⟨hle, heq⟩ | ⟨-, hle, -⟩
    · rwa [heq]
    · exact hle
  exact ((hsums l hl i hi).goneSum h hi removed).roll hl hmod hend

theorem keptElement_eq {t : TracedDecoderWindow} {start : Nat} {r : Decoder.Removal}
    (hholds : t.data.Holds t.received t.base) (hstart : t.base ≤ start ∨
      r.targetSumStartColumn = columnOf start ∧
        t.base + t.data.window.count ≤ start + kColumnPeriod) :
    t.keptElement r = start - t.base ∨ t.base ≤ start := by
  refine or_iff_not_imp_right.mpr fun hbase => ?_
  obtain ⟨hcolumn, hspan⟩ := hstart.resolve_left hbase
  have hcount := hholds.sound.count_le
  have hsub := subtractColumns_cast (columnOf start) (columnOf t.base)
  have hinvalid : t.data.window.invalidElement
      (t.data.window.columnToElement r.targetSumStartColumn) = true := by
    rw [hcolumn, DecoderPacketWindow.columnToElement, hholds.columnStart_eq]
    simp only [DecoderPacketWindow.invalidElement, decide_eq_true_eq]
    simp only [columnOf, kColumnPeriod] at hsub hspan hcount ⊢
    omega
  simp only [keptElement, hinvalid, if_true]
  omega

theorem Inv.targetSums {t : TracedDecoderWindow} (h : t.Inv) {r : Decoder.Removal}
    {initialRecoveryBytes : Nat} (hallowed : t.Allowed (.removeElements r initialRecoveryBytes))
    {d : DecoderData} (hd : t.data.targetSums r initialRecoveryBytes = some d)
    (hseen : r.seenSum = true) :
    d.window = t.data.window ∧ ∀ start ∈ (t.keepSums r).sumStart,
      d.recoveredColumns = [] ∧ d.SumsFrom t.received [] t.base start := by
  have hkept := hallowed.2
  unfold DecoderData.targetSums at hd
  simp only [keepSums, hseen, if_true]
  simp only at hd
  split at hd
  · next hrestarts =>
    rw [if_pos hrestarts]
    split at hd
    · cases hd
    · cases hd
      refine ⟨rfl, fun start hsome => ?_⟩
      cases hsome
      have hsums := (h.resetSums r.targetSumStartColumn).summed _ rfl
      refine ⟨rfl, fun l hl i hi => ?_⟩
      exact (hsums.sums l hl i hi).resolve_right fun hdry => Bool.noConfusion (hdry.1 : true = false)
  · next hkeeps =>
    rw [if_neg hkeeps]
    refine ⟨startSums_frame hd, fun start hsome => ?_⟩
    obtain ⟨old, hold, rfl⟩ := Option.mem_map.mp hsome
    have hcolumn : t.data.sumColumnStart = r.targetSumStartColumn :=
      not_not.mp fun hne => hkeeps (.inl hne)
    have helement := keptElement_eq h.holds (hcolumn ▸ hkept old hold)
    obtain ⟨sums, hok, hall⟩ := (h.summed old hold).startSums h.holds helement initialRecoveryBytes
    rw [keptElement] at hok
    rw [hok] at hd
    cases hd
    exact ⟨rfl, hall⟩

theorem Inv.removeElements {t : TracedDecoderWindow} (h : t.Inv) {r : Decoder.Removal}
    {initialRecoveryBytes : Nat} (hallowed : t.Allowed (.removeElements r initialRecoveryBytes)) :
    (t.step (.removeElements r initialRecoveryBytes)).Inv := by
  have hnext := hallowed.1
  have hmod : r.firstKeptElement / kSubwindowSize * kSubwindowSize % kColumnLaneCount = 0 := by
    simp only [kSubwindowSize, kColumnLaneCount]
    omega
  simp only [step]
  split
  · exact h
  · next d hd =>
    unfold DecoderData.removeElements at hd
    simp only at hd
    obtain ⟨summed, hsummed, rfl⟩ := Option.map_eq_some_iff.mp hd
    split at hsummed
    · next hseen =>
      obtain ⟨target, htarget, rfl⟩ := Option.map_eq_some_iff.mp hsummed
      obtain ⟨hwindow, hsums⟩ := h.targetSums hallowed htarget hseen
      have hholds := h.holds.of_window hwindow
      have hreceived : (t.keepSums r).received = t.received := by
        rw [keepSums, if_pos hseen]
      have hpending : (t.keepSums r).pending = [] := by
        rw [keepSums, if_pos hseen]
      refine ⟨?_, fun start hsome => ?_⟩
      · have hrolled : (target.rollSums
            (r.firstKeptElement / kSubwindowSize * kSubwindowSize)).Holds t.received t.base :=
          hholds.of_window rfl
        simp only [hreceived]
        refine Holds.shift hrolled ?_
        rw [show (target.rollSums _).window = t.data.window from hwindow]
        exact hnext
      · obtain ⟨hcols, hall⟩ := hsums start hsome
        refine ⟨?_, ?_, ?_, fun _ => hpending, fun l hl i hi => .inl ?_⟩
        · simp only [hpending]
          exact hcols
        · simp only [hpending]
          exact List.nodup_nil
        · simp only [hpending]
          exact fun n hn => absurd hn List.not_mem_nil
        · simp only [hpending, hreceived]
          exact rollSums_spec hholds hall hmod l hl i hi
    · next hseen =>
      cases hsummed
      have hreceived : (t.keepSums r).received = t.received := by
        rw [keepSums, if_neg hseen]
      have hnone : (t.keepSums r).sumStart = none := by
        rw [keepSums, if_neg hseen]
      refine ⟨?_, fun start hsome => ?_⟩
      · simp only [hreceived]
        have hheld : DecoderData.Holds { t.data with sumColumnCount := 0 } t.received t.base :=
          h.holds.of_window rfl
        exact Holds.shift hheld hnext
      · simp only [hnone] at hsome
        cases hsome

theorem Inv.step {t : TracedDecoderWindow} (h : t.Inv) {event : DecoderWindowEvent}
    (hallowed : t.Allowed event) : (t.step event).Inv := by
  cases event with
  | addOriginal packetNum data => exact h.addOriginal hallowed
  | growWindow windowElementEnd => exact h.growWindow hallowed
  | recover element original => exact h.recover hallowed
  | resetSums column => exact h.resetSums column
  | startSums elementStart bufferBytes => exact h.startSums hallowed
  | getSum laneIndex sumIndex elementEnd => exact h.getSum hallowed
  | removeElements r initialRecoveryBytes => exact h.removeElements hallowed

theorem Inv.run {t : TracedDecoderWindow} (h : t.Inv) {events : List DecoderWindowEvent}
    (hpermitted : t.Permitted events) : (t.run events).Inv := by
  induction events generalizing t with
  | nil => exact h
  | cons event events ih => exact ih (h.step hpermitted.1) hpermitted.2

/-- A sum that is asked for goes over the packets of its lane that are there, from the start of the
sums up to the element asked for or up to where it has gone already. Once they are all there it is the
encoder's sum. -/
theorem getSum_eq_laneSum {events : List DecoderWindowEvent} (hrun : initial.Permitted events)
    {laneIndex sumIndex elementEnd start : Nat}
    (hget : (initial.run events).Allowed (.getSum laneIndex sumIndex elementEnd))
    (hstart : (initial.run events).sumStart = some start) :
    let t := initial.run events
    let stop := t.base + max elementEnd (t.data.sums laneIndex sumIndex).elementEnd
    let sum := (t.data.getSum laneIndex sumIndex elementEnd).2.padded
    t.data.window.columnStart = columnOf t.base ∧
      (t.data.sums laneIndex sumIndex).elementStart =
        getNextLaneElement (start - t.base) laneIndex ∧
      (∀ element, t.data.window.getWindowElement element = t.received (t.base + element)) ∧
      sum = laneSum (fun n => (t.received n).map OriginalPacket.buffer) laneIndex sumIndex start
        stop ∧
      ∀ packets, (∀ n, start ≤ n → n < stop → n % kColumnLaneCount = laneIndex →
          t.received n = some (packetOf packets n)) →
        sum = naiveSum packets laneIndex sumIndex start stop := by
  intro t stop sum
  have h : t.Inv := inv_initial.run hrun
  obtain ⟨hstarted, hlane, hindex, -⟩ := hget
  have hsummed := h.summed start hstart
  have hgone := (hsummed.sums laneIndex hlane sumIndex hindex).resolve_right fun hdry =>
    Bool.false_ne_true (hdry.1.symm.trans hstarted)
  rw [hsummed.started hstarted] at hgone
  have helement := hgone.start_eq
  obtain ⟨hmod, -, -, hpadded, -⟩ := hgone.goneSum h.holds hindex elementEnd
  have hsum : sum = laneSum (fun n => (t.received n).map OriginalPacket.buffer) laneIndex sumIndex
      start stop := by
    calc sum
      _ = laneSum (DecoderData.settled t.received []) laneIndex sumIndex start
          (t.base + (t.data.goneSum laneIndex sumIndex elementEnd).elementEnd) := hpadded
      _ = laneSum (DecoderData.settled t.received []) laneIndex sumIndex start stop := by
        have hbase := h.holds.base_mod
        refine laneSum_stop _ fun n hn hn' => ?_
        rcases t.data.goneSum_elementEnd laneIndex sumIndex elementEnd with
          ⟨hle, heq⟩ | ⟨hlt, hge, hless⟩
        · rw [heq, show stop = t.base + (t.data.sums laneIndex sumIndex).elementEnd from
            congrArg (t.base + ·) (Nat.max_eq_right hle)]
        · rw [show stop = t.base + elementEnd from
            congrArg (t.base + ·) (Nat.max_eq_left hlt.le)]
          simp only [kColumnLaneCount] at hmod hbase hn' hless
          omega
      _ = _ := laneSum_congr _ fun n _ _ _ => DecoderData.settled_nil t.received n
  refine ⟨h.holds.columnStart_eq, helement, h.holds.contents, hsum, fun packets hall => ?_⟩
  rw [hsum]
  refine laneSum_congr _ fun n hn hstop hn' => ?_
  rw [hall n hn hstop hn']
  rfl

/-- Packets 0 to 16 without packet 8, and a sum that has gone past it. -/
def holeEvents : List DecoderWindowEvent :=
  (List.range 8).map (.addOriginal · [1]) ++ (List.range' 9 8).map (.addOriginal · [1]) ++
    [.resetSums 0, .getSum 0 0 17]

def pluggedEvents : List DecoderWindowEvent :=
  holeEvents ++ [.recover 8 (.initialized 8 [1]), .startSums 0 2]

theorem getSum_eq_laneSum_plugged : initial.Permitted pluggedEvents ∧
    ((initial.run pluggedEvents).data.getSum 0 0 17).2.padded =
      naiveSum (List.replicate 17 [1]) 0 0 0 24 := by
  have hrun : initial.Permitted pluggedEvents := by decide +kernel
  have hget : (initial.run pluggedEvents).Allowed (.getSum 0 0 17) := by decide +kernel
  have hstart : (initial.run pluggedEvents).sumStart = some 0 := by decide +kernel
  have hstop : (initial.run pluggedEvents).base +
      max 17 ((initial.run pluggedEvents).data.sums 0 0).elementEnd = 24 := by decide +kernel
  have hall : ∀ n < 24, n % kColumnLaneCount = 0 →
      (initial.run pluggedEvents).received n = some (packetOf (List.replicate 17 [1]) n) := by
    decide +kernel
  obtain ⟨-, -, -, -, hnaive⟩ := getSum_eq_laneSum hrun hget hstart
  refine ⟨hrun, ?_⟩
  rw [hstop] at hnaive
  exact hnaive _ fun n _ hn hlane => hall n hn hlane

/-- A packet that comes by itself after a sum has gone past it never gets into the sum. -/
theorem getSum_passed_hole : ¬∀ (events : List DecoderWindowEvent)
    (laneIndex sumIndex elementEnd start : Nat),
      (initial.run events).Allowed (.getSum laneIndex sumIndex elementEnd) →
      (initial.run events).sumStart = some start →
      ((initial.run events).data.getSum laneIndex sumIndex elementEnd).2.padded =
        laneSum (fun n => ((initial.run events).received n).map OriginalPacket.buffer) laneIndex
          sumIndex start ((initial.run events).base +
            max elementEnd ((initial.run events).data.sums laneIndex sumIndex).elementEnd) := by
  intro h
  have hsum := congrFun (h (holeEvents ++ [.addOriginal 8 [1], .startSums 0 2]) 0 0 17 0
    (by decide +kernel) (by decide +kernel)) 0
  revert hsum
  decide +kernel

end TracedDecoderWindow
end Tonk.Siamese
