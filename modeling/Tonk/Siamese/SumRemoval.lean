import Tonk.Siamese.FullDecoder
import Tonk.Siamese.DecoderSumRuns

set_option autoImplicit false

namespace Tonk.Siamese
open Protocol

namespace Decoder

variable {α : Type} {w : DecoderPacketWindow α} {packets : List (RecoveryPacket RecoveryData)}
variable {r r' : Removal}

theorem keepPacket_sums {x : RecoveryPacket RecoveryData} (h : keepPacket w r x = some r') :
    siameseCauchyThreshold < x.metadata.sumCount ∧ r.seenSum = false ∧ r'.seenSum = true ∧
        r'.targetSumStartColumn = x.metadata.columnStart ∨
      r'.seenSum = r.seenSum ∧ r'.targetSumStartColumn = r.targetSumStartColumn ∧
        (r.seenSum = false → x.metadata.sumCount ≤ siameseCauchyThreshold) := by
  unfold keepPacket at h
  simp only at h
  split at h
  · next hmany =>
    split at h
    · next hunseen =>
      cases h
      exact .inl ⟨hmany, hunseen, rfl, rfl⟩
    · next hseen =>
      split at h
      · split at h
        · cases h
        · cases h
          exact .inr ⟨rfl, rfl, fun hunseen => absurd hunseen hseen⟩
      · cases h
        exact .inr ⟨rfl, rfl, fun hunseen => absurd hunseen hseen⟩
  · next hfew =>
    cases h
    exact .inr ⟨rfl, rfl, fun _ => Nat.le_of_not_lt hfew⟩

theorem foldlM_keepPacket_sums (h : packets.foldlM (keepPacket w) r = some r') :
    (r.seenSum = true → r'.seenSum = true ∧ r'.targetSumStartColumn = r.targetSumStartColumn) ∧
      (r.seenSum = false →
        (r'.seenSum = true → ∃ x ∈ packets, siameseCauchyThreshold < x.metadata.sumCount ∧
          r'.targetSumStartColumn = x.metadata.columnStart) ∧
        (r'.seenSum = false → ∀ x ∈ packets, x.metadata.sumCount ≤ siameseCauchyThreshold)) := by
  induction packets generalizing r with
  | nil =>
    cases h
    exact ⟨fun hseen => ⟨hseen, rfl⟩, fun hunseen => ⟨fun hseen => by
      rw [hunseen] at hseen
      exact Bool.noConfusion hseen, fun _ x hx => absurd hx List.not_mem_nil⟩⟩
  | cons x packets ih =>
    rw [List.foldlM_cons] at h
    obtain ⟨r₁, hkeep, hrest⟩ := Option.bind_eq_some_iff.mp h
    obtain ⟨hseen, hunseen⟩ := ih hrest
    rcases keepPacket_sums hkeep with ⟨hmany, hfirst, hsum, htarget⟩ | ⟨hsum, htarget, hfew⟩
    · obtain ⟨hlast, hsame⟩ := hseen hsum
      refine ⟨fun hr => ?_, fun _ => ⟨fun _ => ⟨x, List.mem_cons_self, hmany,
        hsame.trans htarget⟩, fun hno => ?_⟩⟩
      · rw [hfirst] at hr
        exact Bool.noConfusion hr
      · rw [hlast] at hno
        exact Bool.noConfusion hno
    · rw [hsum, htarget] at hseen
      rw [hsum] at hunseen
      refine ⟨hseen, fun hr => ⟨fun hlast => ?_, fun hlast y hy => ?_⟩⟩
      · obtain ⟨y, hy, hy'⟩ := (hunseen hr).1 hlast
        exact ⟨y, List.mem_cons_of_mem x hy, hy'⟩
      · rcases List.mem_cons.mp hy with rfl | hy
        · exact hfew hr
        · exact (hunseen hr).2 hlast y hy

variable {d : Decoder α RecoveryData}

theorem planRemoval_stored (hne : d.recoveryPackets ≠ []) (h : d.planRemoval = some r) :
    (r.seenSum = true → ∃ x ∈ d.recoveryPackets, siameseCauchyThreshold < x.metadata.sumCount ∧
        r.targetSumStartColumn = x.metadata.columnStart) ∧
      (r.seenSum = false →
        ∀ x ∈ d.recoveryPackets, x.metadata.sumCount ≤ siameseCauchyThreshold) := by
  unfold planRemoval at h
  cases hpackets : d.recoveryPackets with
  | nil => exact absurd hpackets hne
  | cons head rest =>
    simp only [hpackets] at h
    exact (foldlM_keepPacket_sums h).2 rfl

theorem planRemoval_last (hnil : d.recoveryPackets = []) (h : d.planRemoval = some r) :
    isColumnDeltaNegative (d.window.columnToElement
        (d.lastRecoveryMetadata.columnStart + d.lastRecoveryMetadata.sumCount)) = false ∧
      r.firstKeptElement = d.window.columnToElement (d.lastRecoveryMetadata.columnStart +
        d.lastRecoveryMetadata.sumCount) - d.lastRecoveryMetadata.ldpcCount ∧
      r.targetSumStartColumn = d.lastRecoveryMetadata.columnStart ∧
      (r.seenSum = true → siameseCauchyThreshold < d.lastRecoveryMetadata.sumCount) := by
  unfold planRemoval at h
  simp only [hnil] at h
  split at h
  · cases h
  · next hin =>
    cases h
    rw [not_or] at hin
    exact ⟨Bool.eq_false_of_not_eq_true hin.1, rfl, rfl, fun hseen => of_decide_eq_true hseen⟩

end Decoder

namespace DecoderData

variable {d d' : DecoderData} {stored stored' : List (RecoveryPacket RecoveryData)}
variable {received received' : Nat → Option OriginalPacket} {base start bound bound' : Nat}

theorem SumGone.congr {pending pending' : List Nat} {laneIndex sumIndex : Nat} {sum : DecoderSum}
    (h : SumGone received pending base start laneIndex sumIndex sum)
    (hsame : ∀ n, n < base + sum.elementEnd → n % kColumnLaneCount = laneIndex →
      settled received' pending' n = settled received pending n) :
    SumGone received' pending' base start laneIndex sumIndex sum := by
  refine ⟨h.lane_eq, h.start_eq, h.start_le, ?_, fun hnil n hstart hstop hlane => ?_⟩
  · rw [h.padded_eq]
    exact laneSum_congr sumIndex fun n _ hstop hlane => (hsame n hstop hlane).symm
  · rw [hsame n hstop hlane]
    exact h.empty hnil n hstart hstop hlane

theorem GivenUp.of_stored (h : d.GivenUp stored base start) (hcolumn : d'.sumColumnStart =
    d.sumColumnStart) (hcount : d'.sumColumnCount = d.sumColumnCount) (hsums : d'.sums = d.sums)
    (hstored : ∀ r ∈ stored', r ∈ stored) : d'.GivenUp stored' base start :=
  ⟨hcolumn.trans h.column_eq, hcount.trans h.count_eq, hsums ▸ h.anew,
    fun r hr => h.stored_ge r (hstored r hr)⟩

section Window

variable {w : DecoderPacketWindow OriginalPacket}

theorem SumState.receive (h : d.SumState stored received base start bound)
    (hmod : base % kColumnLaneCount = 0) (hcount : d.window.count ≤ w.count)
    (hstored : ∀ r ∈ stored', r ∈ stored)
    (hsame : ∀ n, n < base + bound → received' n = received n)
    (hsome : ∀ n, (received n).isSome → (received' n).isSome) (hbound : bound ≤ bound') :
    SumState { d with window := w } stored' received' base start bound' := by
  cases h with
  | running pending hrunning hwithin =>
    obtain ⟨hcol, hcols, hnodup, hplugs, hsums⟩ := hrunning
    refine .running pending ⟨hcol, hcols, hnodup, fun n hn => ?_, fun l hl i hi => ?_⟩
      (Within.mono hwithin hbound)
    · obtain ⟨hbase, hlt, hreceived⟩ := hplugs n hn
      exact ⟨hbase, Nat.lt_of_lt_of_le hlt (Nat.add_le_add_left hcount base), hsome n hreceived⟩
    · have hgone := hsums l hl i hi
      refine SumGone.congr hgone fun n hn hlane => ?_
      have hend := hgone.lane_eq
      have hfar := hwithin l hl i hi
      have hbefore : n < base + bound := by
        simp only [kColumnLaneCount] at *
        omega
      rw [settled, settled, hsame n hbefore]
  | givenUp hgiven => exact .givenUp (hgiven.of_stored rfl rfl rfl hstored)

theorem SumState.recover (h : d.SumState stored received base start bound)
    (hcount : d.window.count ≤ w.count) (hstored : ∀ r ∈ stored', r ∈ stored)
    {numbers : List Nat} (hnodup : numbers.Nodup) (hmissing : ∀ n ∈ numbers, received n = none)
    (hplace : ∀ n ∈ numbers, base ≤ n ∧ n < base + w.count ∧ (received' n).isSome)
    (hsame : ∀ n, n ∉ numbers → received' n = received n) (hbound : bound ≤ bound') :
    SumState { d with
      window := w
      recoveredColumns := d.recoveredColumns ++ numbers.map columnOf } stored' received' base start
      bound' := by
  cases h with
  | running pending hrunning hwithin =>
    obtain ⟨hcol, hcols, hnodup', hplugs, hsums⟩ := hrunning
    have hnew : ∀ n ∈ pending, n ∉ numbers := by
      intro n hn hmem
      have hreceived := (hplugs n hn).2.2
      rw [hmissing n hmem] at hreceived
      exact Bool.noConfusion hreceived
    refine .running (pending ++ numbers) ⟨hcol, ?_, ?_, fun n hn => ?_, fun l hl i hi => ?_⟩
      (Within.mono hwithin hbound)
    · rw [List.map_append, hcols]
    · exact List.Nodup.append hnodup' hnodup fun n hn hmem => hnew n hn hmem
    · rcases List.mem_append.mp hn with hold | hmem
      · obtain ⟨hbase, hlt, hreceived⟩ := hplugs n hold
        refine ⟨hbase, Nat.lt_of_lt_of_le hlt (Nat.add_le_add_left hcount base), ?_⟩
        rw [hsame n (hnew n hold)]
        exact hreceived
      · exact hplace n hmem
    · refine SumGone.congr (hsums l hl i hi) fun n _ _ => ?_
      by_cases hmem : n ∈ numbers
      · rw [settled, if_pos (List.mem_append_right _ hmem), settled, hmissing n hmem]
        split <;> rfl
      · simp only [settled, List.mem_append, hmem, or_false, hsame n hmem]
  | givenUp hgiven => exact .givenUp (hgiven.of_stored rfl rfl rfl hstored)

end Window

theorem SumState.store (h : d.SumState stored received base start bound)
    {r : RecoveryPacket RecoveryData} (hstored : ∀ x ∈ stored', x = r ∨ x ∈ stored)
    (hge : d.sumColumnCount = 0 → siameseCauchyThreshold < r.metadata.sumCount →
      base ≤ r.buffer.packetEnd - r.metadata.sumCount) :
    d.SumState stored' received base start bound := by
  cases h with
  | running pending hrunning hwithin => exact .running pending hrunning hwithin
  | givenUp hgiven =>
    refine .givenUp ⟨hgiven.column_eq, hgiven.count_eq, hgiven.anew, fun x hx hmany => ?_⟩
    rcases hstored x hx with rfl | hx
    · exact hge hgiven.count_eq hmany
    · exact hgiven.stored_ge x hx hmany

section Removal

variable {removed : Nat}

theorem Running.rollSums (h : d.Running received [] base start) (hwithin : d.Within bound)
    (hholds : d.Holds received base) (hmod : removed % kColumnLaneCount = 0)
    (hle : removed ≤ bound) (w : DecoderPacketWindow OriginalPacket) :
    Running { d.rollSums removed with window := w } received [] (base + removed) start ∧
      Within { d.rollSums removed with window := w } (bound - removed) := by
  refine ⟨⟨h.column_eq, h.columns_eq, List.nodup_nil, nofun,
    TracedDecoderWindow.rollSums_spec hholds h.sums hmod⟩, fun l hl i hi => ?_⟩
  have hold := hwithin l hl i hi
  simp only [DecoderData.rollSums]
  rcases d.goneSum_elementEnd l i removed with ⟨hge, heq⟩ | ⟨-, hge, hlt⟩
  · rw [heq]
    simp only [kColumnLaneCount] at *
    omega
  · simp only [kColumnLaneCount] at *
    omega

theorem SumState.giveUp (h : d.SumState stored received base start bound)
    (hpos : 0 < removed) (hmod : removed % kColumnLaneCount = 0)
    (hfew : ∀ r ∈ stored', r.metadata.sumCount ≤ siameseCauchyThreshold)
    (w : DecoderPacketWindow OriginalPacket) :
    GivenUp { d with sumColumnCount := 0, window := w } stored' (base + removed) start := by
  have hlane : base + removed ≤ start → ∀ l < kColumnLaneCount,
      getNextLaneElement (start - (base + removed)) l < getNextLaneElement (start - base) l := by
    intro hle l hl
    obtain ⟨hge, hlt, heq⟩ := getNextLaneElement_spec (start - base) hl
    obtain ⟨hge', hlt', heq'⟩ := getNextLaneElement_spec (start - (base + removed)) hl
    simp only [kColumnLaneCount] at *
    omega
  refine ⟨?_, rfl, fun hle l hl i hi => ?_, fun r hr hmany => absurd (hfew r hr) (by omega)⟩
  · cases h with
    | running pending hrunning => exact hrunning.column_eq
    | givenUp hgiven => exact hgiven.column_eq
  · cases h with
    | running pending hrunning =>
      refine .inr ?_
      simp only [(hrunning.sums l hl i hi).start_eq]
      exact hlane hle l hl
    | givenUp hgiven =>
      exact (hgiven.anew (by omega) l hl i hi).imp_right fun hlt => (hlane hle l hl).trans hlt

structure Target (d : DecoderData) (stored : List (RecoveryPacket RecoveryData)) (base start bound
    target : Nat) : Prop where
  same : columnOf target = d.sumColumnStart → target = start
  span : base + d.window.count ≤ target + kColumnPeriod
  lt : target < base + d.window.count
  le : target ≤ base + bound
  stored_ge : d.GivenUp stored base start → base ≤ target ∨ stored = []

/-- The sums after RemoveElements, which starts them anew, goes on with them or leaves them behind. -/
theorem SumState.removeElements (h : d.SumState stored received base start bound)
    (hholds : d.Holds received base) {r : Decoder.Removal} {initialRecoveryBytes : Nat}
    (hpos : 0 < r.firstKeptElement / kSubwindowSize)
    (hle : r.firstKeptElement / kSubwindowSize * kSubwindowSize ≤ bound) {target : Nat}
    (htarget : r.seenSum = true → r.targetSumStartColumn = columnOf target ∧
      d.Target stored base start bound target)
    (hfew : r.seenSum = false → ∀ x ∈ stored', x.metadata.sumCount ≤ siameseCauchyThreshold)
    (hnil : stored = [] → stored' = [])
    (hmade : d.removeElements r initialRecoveryBytes = some d') :
    ∃ start', (start' = start ∨ r.seenSum = true ∧ start' = target) ∧
      d'.SumState stored' received (base + r.firstKeptElement / kSubwindowSize * kSubwindowSize)
        start' (bound - r.firstKeptElement / kSubwindowSize * kSubwindowSize) := by
  have hmod : r.firstKeptElement / kSubwindowSize * kSubwindowSize % kColumnLaneCount = 0 := by
    simp only [kSubwindowSize, kColumnLaneCount]
    omega
  have hremoved : 0 < r.firstKeptElement / kSubwindowSize * kSubwindowSize :=
    Nat.mul_pos hpos (by decide)
  unfold DecoderData.removeElements at hmade
  simp only at hmade
  generalize r.firstKeptElement / kSubwindowSize = k at *
  obtain ⟨summed, hsummed, rfl⟩ := Option.map_eq_some_iff.mp hmade
  cases hseen : r.seenSum with
  | false =>
    rw [hseen] at hsummed
    cases hsummed
    exact ⟨start, .inl rfl, .givenUp (h.giveUp hremoved hmod (hfew hseen) _)⟩
  | true =>
    rw [hseen] at hsummed
    obtain ⟨hcolumn, hspec⟩ := htarget hseen
    obtain ⟨hvalid, helement⟩ := hholds.sumElementStart hspec.span hspec.lt
    rw [if_pos rfl] at hsummed
    obtain ⟨rolled, hrolled, rfl⟩ := Option.map_eq_some_iff.mp hsummed
    unfold DecoderData.targetSums at hrolled
    simp only [hcolumn] at hrolled
    split at hrolled
    · split at hrolled
      · cases hrolled
      · next hin =>
        -- the sums are reset to start with the target
        have hbase := hvalid.mp (Bool.eq_false_of_not_eq_true hin)
        rw [if_neg hin] at helement
        rw [helement] at hrolled
        cases hrolled
        obtain ⟨hrunning, hwithin⟩ := resetSums_running hholds hbase
        have hstarts := hspec.le
        have hreset : DecoderData.Running { d.resetSums (target - base) with
            sumColumnStart := columnOf target
            sumColumnCount := r.targetSumColumnCount } received [] base target :=
          ⟨hrunning.column_eq, hrunning.columns_eq, hrunning.nodup, hrunning.plugs, hrunning.sums⟩
        have hbound : DecoderData.Within { d.resetSums (target - base) with
            sumColumnStart := columnOf target
            sumColumnCount := r.targetSumColumnCount } bound := Within.mono hwithin (by omega)
        obtain ⟨hroll, hroll'⟩ := hreset.rollSums hbound (hholds.of_window rfl) hmod hle
          (d.window.shift k)
        exact ⟨target, .inr ⟨rfl, rfl⟩, .running [] hroll hroll'⟩
    · next hkeeps =>
      have hcol : columnOf target = d.sumColumnStart :=
        (not_not.mp fun hne => hkeeps (.inl hne)).symm
      obtain rfl := hspec.same hcol
      rw [helement] at hrolled
      have hstarts := hspec.le
      by_cases hgiven : d.GivenUp stored base target → base ≤ target
      · -- the sums go on, or begin anew in the window
        obtain ⟨heq, hrunning, hwithin⟩ := h.startSums hholds hgiven hrolled
        have hwindow : rolled.window = d.window := by rw [heq]
        have hbound : rolled.Within bound := hwithin.mono (by omega)
        obtain ⟨hroll, hroll'⟩ := hrunning.rollSums hbound (hholds.of_window hwindow) hmod hle
          (rolled.window.shift k)
        exact ⟨target, .inl rfl, .running [] hroll hroll'⟩
      · -- they were left behind and lie in front of the window; no row stored asks for them
        rw [Classical.not_imp] at hgiven
        obtain ⟨hgivenUp, hbefore⟩ := hgiven
        have hnone := hnil ((hspec.stored_ge hgivenUp).resolve_left hbefore)
        obtain ⟨heq, -⟩ := startSums_eq hrolled
        refine ⟨target, .inl rfl, .givenUp ⟨?_, ?_, fun hle' => absurd hle' (by omega), ?_⟩⟩
        · simp only [DecoderData.rollSums]
          rw [heq]
          exact hgivenUp.column_eq
        · simp only [DecoderData.rollSums]
          rw [heq]
          exact hgivenUp.count_eq
        · rw [hnone]
          exact fun x hx => absurd hx List.not_mem_nil

end Removal

end DecoderData
end Tonk.Siamese
