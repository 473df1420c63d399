import Tonk.Siamese.DecodeRuns

/-!
`LatestColumn`, the end column that decides which recovery packets are out of order. Columns wrap, and
AddRecovery takes the difference to it without reducing the end of the packet.
-/

set_option autoImplicit false

namespace Tonk.Siamese
open Transition

def isOutOfOrder (latestColumn columnStart sumCount : Nat) : Bool :=
  isColumnDeltaNegative (unsignedSub (columnStart + sumCount) latestColumn)

def endsBefore (latestColumn columnStart sumCount : Nat) : Bool :=
  isColumnDeltaNegative (subtractColumns (addColumns columnStart sumCount) latestColumn)

/-- As sums that are not reduced, the packet ends no more than half a period before the latest column,
and less than a period behind it. A difference of more periods, which no packet has, must be negative
again. -/
def NearLatest (latestColumn columnStart sumCount : Nat) : Prop :=
  let columnEnd := (columnStart + sumCount) % 2 ^ 32
  latestColumn ≤ columnEnd + kColumnPeriod / 2 ∧
    (columnEnd < latestColumn + kColumnPeriod ∨
      kColumnPeriod / 2 ≤ (columnEnd - latestColumn) % kColumnPeriod)

instance (latestColumn columnStart sumCount : Nat) :
    Decidable (NearLatest latestColumn columnStart sumCount) :=
  inferInstanceAs (Decidable (_ ∧ _))

theorem isOutOfOrder_eq_iff {latestColumn : Nat} (hlatest : latestColumn < kColumnPeriod)
    (columnStart sumCount : Nat) :
    isOutOfOrder latestColumn columnStart sumCount = endsBefore latestColumn columnStart sumCount ↔
      NearLatest latestColumn columnStart sumCount := by
  have hunsigned : (unsignedSub (columnStart + sumCount) latestColumn : Int) =
      (((columnStart + sumCount : Nat) : Int) - latestColumn) % 2 ^ 32 := Serial.sub_cast 32 _ _
  have hcolumns := subtractColumns_cast (addColumns columnStart sumCount) latestColumn
  have hperiod : kColumnPeriod = 2 ^ 22 := rfl
  rw [Bool.eq_iff_iff, isOutOfOrder, endsBefore, isColumnDeltaNegative_iff,
    isColumnDeltaNegative_iff, NearLatest]
  simp only [addColumns, hperiod] at hcolumns hlatest ⊢
  generalize unsignedSub (columnStart + sumCount) latestColumn = delta at *
  generalize columnStart + sumCount = columnEnd at *
  generalize subtractColumns (columnEnd % 2 ^ 22) latestColumn = delta' at *
  omega

def serialLatest (latestColumn column : Nat) : Nat :=
  if isColumnDeltaNegative (subtractColumns column latestColumn) then latestColumn else column

theorem serialLatest_columnOf {n m : Nat} (hnm : n ≤ m + kColumnPeriod / 2)
    (hmn : m < n + kColumnPeriod / 2) : serialLatest (columnOf n) (columnOf m) =
      columnOf (if n ≤ m then m else n) := by
  have hhalf : kColumnPeriod / 2 < kColumnPeriod := by decide
  by_cases hle : n ≤ m
  · rw [if_pos hle, serialLatest, subtractColumns_columnOf hle (by omega), if_neg]
    rw [isColumnDeltaNegative_iff]
    omega
  · rw [if_neg hle, serialLatest, subtractColumns_columnOf_neg (by omega) (by omega), if_pos]
    rw [isColumnDeltaNegative_iff]
    simp only [kColumnPeriod] at hnm ⊢
    omega

namespace Decoder

variable {α β : Type}

theorem removeElements_latestColumn (d : Decoder α β) :
    d.removeElements.latestColumn = d.latestColumn := by
  unfold removeElements
  split
  · rfl
  · split
    · rfl
    · split
      · rfl
      · split
        · rfl
        · next d₁ hsums =>
          unfold targetSums at hsums
          split at hsums
          · split at hsums
            · split at hsums
              · exact absurd hsums (by simp)
              · cases hsums
                rfl
            · cases hsums
              rfl
          · cases hsums
            rfl

theorem addOriginal_latestColumn (d : Decoder α β) (packetNum : Nat) (data : α) :
    (d.addOriginal packetNum data).1.latestColumn = d.latestColumn := by
  unfold addOriginal
  split
  · rfl
  · simp only
    split <;> rfl

theorem addSingleRecovery_latestColumn (d : Decoder α β) (columnStart : Nat) (single : Option α)
    (checkedPastThreshold : Bool) :
    (d.addSingleRecovery columnStart single checkedPastThreshold).latestColumn =
      d.latestColumn := by
  unfold addSingleRecovery
  simp only
  split
  · rfl
  · split
    · rfl
    · cases single with
      | none => rfl
      | some data =>
        simp only
        split
        · split
          · rw [removeElements_latestColumn]
          · rfl
        · rfl

end Decoder

namespace Solver

variable {α β : Type} {s t : Solver α β}

theorem removeElements_latestColumn (s : Solver α β) :
    s.removeElements.decoder.latestColumn = s.decoder.latestColumn := by
  rw [removeElements_decoder]
  exact s.decoder.removeElements_latestColumn

theorem addSingleRecovery_latestColumn (s : Solver α β) (columnStart : Nat) (single : Option α) :
    (s.addSingleRecovery columnStart single).decoder.latestColumn = s.decoder.latestColumn := by
  have hdecoder := s.decoder.addSingleRecovery_latestColumn columnStart single false
  unfold addSingleRecovery
  simp only
  split
  · split
    · exact (removeElements_latestColumn _).trans hdecoder
    · exact hdecoder
  · split
    · exact (removeElements_latestColumn _).trans hdecoder
    · exact hdecoder

theorem storeRecovery_latestColumn (s : Solver α β) (metadata : RecoveryMetadata) (buffer : β)
    (single : Option α) (outOfOrder : Bool) (elementStart elementEnd : Nat) :
    (s.storeRecovery metadata buffer single outOfOrder elementStart elementEnd).decoder.latestColumn =
      s.decoder.latestColumn := by
  have hlinked : ∀ recovery : RecoveryPacket β,
      (s.linkRecovery recovery outOfOrder).decoder.latestColumn = s.decoder.latestColumn := by
    intro recovery
    unfold linkRecovery
    simp only
    split <;> rfl
  unfold storeRecovery
  split
  · exact s.addSingleRecovery_latestColumn _ _
  · simp only
    split
    · rw [removeElements_latestColumn, hlinked]
    · exact hlinked _

theorem addRecovery_latestColumn (hok : s.decoder.emergencyDisabled = false)
    (metadata : RecoveryMetadata) (buffer : β) (single : Option α) :
    (s.addRecovery metadata buffer single).decoder.latestColumn =
      if isOutOfOrder s.decoder.latestColumn metadata.columnStart metadata.sumCount then
        s.decoder.latestColumn
      else addColumns metadata.columnStart metadata.sumCount := by
  unfold addRecovery Decoder.placeRecovery isOutOfOrder
  rw [if_neg (by rw [hok]; exact Bool.false_ne_true)]
  simp only
  generalize isColumnDeltaNegative (unsignedSub (metadata.columnStart + metadata.sumCount)
    s.decoder.latestColumn) = outOfOrder
  obtain ⟨d, hd, hcolumn⟩ : ∃ d : Decoder α β, (if outOfOrder = true then s.decoder else
      { s.decoder with latestColumn := addColumns metadata.columnStart metadata.sumCount }) = d ∧
      d.latestColumn = if outOfOrder = true then s.decoder.latestColumn
        else addColumns metadata.columnStart metadata.sumCount := by
    cases outOfOrder
    · exact ⟨_, rfl, rfl⟩
    · exact ⟨s.decoder, rfl, rfl⟩
  rw [hd, ← hcolumn]
  split
  · split
    · rfl
    · rw [storeRecovery_latestColumn]
      rfl
  · split
    · rfl
    · split
      · rfl
      · split
        · split
          · rfl
          · split
            · rw [removeElements_latestColumn]
              rfl
            · rfl
        · split
          · rfl
          · rw [storeRecovery_latestColumn]
            rfl

theorem checkRecoveryPossible_decoder (s : Solver α β) :
    s.checkRecoveryPossible.1.decoder = s.decoder := by
  unfold checkRecoveryPossible
  simp only
  split
  · rfl
  · split
    · split <;> rfl
    · split <;> rfl

theorem populateColumns_latestColumn (s : Solver α β) (newColumns : Nat) :
    (s.populateColumns newColumns).decoder.latestColumn = s.decoder.latestColumn := by
  unfold populateColumns
  simp only
  split
  · rfl
  · split <;> rfl

theorem generateMatrix_latestColumn (s : Solver α β) :
    s.generateMatrix.decoder.latestColumn = s.decoder.latestColumn := by
  unfold generateMatrix
  simp only
  rw [populateColumns_latestColumn]
  split <;> rfl

theorem decodeCheckedRegion_latestColumn (s : Solver α β) (solution : Option (Solution α)) :
    (s.decodeCheckedRegion solution).1.decoder.latestColumn = s.decoder.latestColumn := by
  have hgenerate := s.generateMatrix_latestColumn
  unfold decodeCheckedRegion
  simp only
  split
  · cases solution with
    | none => exact hgenerate
    | some found =>
      simp only
      split
      · simp only [resetRegion]
        split
        · rw [removeElements_latestColumn]
          exact hgenerate
        · exact hgenerate
      · exact hgenerate
  · exact hgenerate

theorem decodeLoop_latestColumn (solution : Option (Solution α)) (packets : List (RecoveryPacket β))
    (region : CheckedRegionState) (s : Solver α β) :
    (decodeLoop solution packets region s).1.decoder.latestColumn = s.decoder.latestColumn := by
  have hturn : ∀ (region : CheckedRegionState) (s : Solver α β),
      (if region.lostCount ≤ region.recoveryCount then s.decodeCheckedRegion solution
        else (s, SiameseResult.needMoreData, [])).1.decoder.latestColumn =
          s.decoder.latestColumn := by
    intro region s
    split
    · exact s.decodeCheckedRegion_latestColumn solution
    · rfl
  induction packets generalizing region s with
  | nil =>
    have hsame := hturn region s
    unfold decodeLoop
    generalize (if region.lostCount ≤ region.recoveryCount then s.decodeCheckedRegion solution
      else (s, SiameseResult.needMoreData, [])) = turn at *
    simp only
    split <;> exact hsame
  | cons recovery rest ih =>
    have hsame := hturn region s
    unfold decodeLoop
    generalize (if region.lostCount ≤ region.recoveryCount then s.decodeCheckedRegion solution
      else (s, SiameseResult.needMoreData, [])) = turn at *
    simp only
    split
    · rw [ih]
      exact hsame
    · exact hsame

theorem decode_latestColumn (s : Solver α β) (solution : Option (Solution α)) :
    (s.decode solution).1.decoder.latestColumn = s.decoder.latestColumn := by
  have hpossible := s.checkRecoveryPossible_decoder
  unfold decode
  split
  · rfl
  · split
    · rfl
    · simp only
      split
      · rw [decodeLoop_latestColumn, hpossible]
      · rw [hpossible]

def seenBy (s : Solver α β) : Call α β → List Nat
  | .addRecovery metadata _ _ =>
    if s.decoder.emergencyDisabled then [] else [addColumns metadata.columnStart metadata.sumCount]
  | _ => []

def seen (s : Solver α β) : List (Call α β) → List Nat
  | [] => []
  | c :: calls => s.seenBy c ++ (s.call c).seen calls

def NearCall (s : Solver α β) : Call α β → Prop
  | .addRecovery metadata _ _ =>
    NearLatest s.decoder.latestColumn metadata.columnStart metadata.sumCount
  | _ => True

theorem call_latestColumn_lt (hlt : s.decoder.latestColumn < kColumnPeriod) (c : Call α β) :
    (s.call c).decoder.latestColumn < kColumnPeriod := by
  cases c with
  | addOriginal packetNum data =>
    have hsame := s.decoder.addOriginal_latestColumn packetNum data
    simp only [call, addOriginal]
    split <;> rw [← hsame] at hlt <;> exact hlt
  | addRecovery metadata buffer single =>
    cases hok : s.decoder.emergencyDisabled with
    | true =>
      simp only [call, addRecovery, hok, if_true]
      exact hlt
    | false =>
      rw [call, addRecovery_latestColumn hok]
      split
      · exact hlt
      · exact Nat.mod_lt _ (by decide)
  | isReadyToDecode =>
    simp only [call, isReadyToDecode]
    split
    · exact hlt
    · rw [checkRecoveryPossible_decoder]
      exact hlt
  | decode solution =>
    rw [call, decode_latestColumn]
    exact hlt

theorem call_latestColumn (hlt : s.decoder.latestColumn < kColumnPeriod) {c : Call α β}
    (hc : s.NearCall c) : (s.call c).decoder.latestColumn =
      (s.seenBy c).foldl serialLatest s.decoder.latestColumn := by
  cases c with
  | addOriginal packetNum data =>
    have hsame := s.decoder.addOriginal_latestColumn packetNum data
    simp only [call, addOriginal]
    split <;> exact hsame
  | addRecovery metadata buffer single =>
    cases hok : s.decoder.emergencyDisabled with
    | true => simp only [call, addRecovery, seenBy, hok, if_true, List.foldl_nil]
    | false =>
      have hagree := (isOutOfOrder_eq_iff hlt metadata.columnStart metadata.sumCount).mpr hc
      rw [call, addRecovery_latestColumn hok, hagree, seenBy, hok]
      rfl
  | isReadyToDecode =>
    simp only [call, isReadyToDecode]
    split
    · rfl
    · rw [checkRecoveryPossible_decoder]
      rfl
  | decode solution =>
    rw [call, decode_latestColumn]
    rfl

theorem seen_append (s : Solver α β) (calls calls' : List (Call α β)) :
    s.seen (calls ++ calls') = s.seen calls ++ (calls.foldl call s).seen calls' := by
  induction calls generalizing s with
  | nil => rfl
  | cons c rest ih =>
    rw [List.cons_append, seen, seen, ih, List.append_assoc, List.foldl_cons]

theorem run_latestColumn {calls : List (Call α β)} (h : Run (Restrict NearCall Step) s calls t)
    (hlt : s.decoder.latestColumn < kColumnPeriod) :
    t = calls.foldl call s ∧ t.decoder.latestColumn < kColumnPeriod ∧
      t.decoder.latestColumn = (s.seen calls).foldl serialLatest s.decoder.latestColumn := by
  induction h with
  | nil => exact ⟨rfl, hlt, rfl⟩
  | snoc hrun hstep ih =>
    obtain ⟨heq, hlt', hlatest⟩ := ih
    obtain ⟨hnear, rfl⟩ := hstep
    refine ⟨?_, call_latestColumn_lt hlt' _, ?_⟩
    · rw [List.foldl_append, heq]
      rfl
    · rw [call_latestColumn hlt' hnear, seen_append, List.foldl_append, ← heq, ← hlatest, seen, seen,
        List.append_nil]

/-- The test of AddRecovery is the serial comparison of the end column exactly for packets that end
near the latest column, and LatestColumn is the serially latest end column seen as long as they do. -/
theorem latestColumn_correct_iff {α β : Type} (latestColumn columnStart sumCount : Nat)
    (calls : List (Call α β)) (s : Solver α β) :
    (latestColumn < kColumnPeriod → columnStart < kColumnPeriod →
      (isOutOfOrder latestColumn columnStart sumCount =
        endsBefore latestColumn columnStart sumCount ↔
          NearLatest latestColumn columnStart sumCount)) ∧
    (Run (Restrict NearCall Step) initial calls s →
      s.decoder.latestColumn = (initial.seen calls).foldl serialLatest 0) :=
  ⟨fun hlatest _ => isOutOfOrder_eq_iff hlatest columnStart sumCount,
    fun hrun => (run_latestColumn hrun (show 0 < kColumnPeriod by decide)).2.2⟩

/-- Recovery packets from before and after the wrap of the columns. -/
def wrapCalls : List (Call Unit Unit) :=
  [.addRecovery ⟨0, 2097000, 10, 10⟩ () none, .addRecovery ⟨0, 4194000, 10, 10⟩ () none,
    .addRecovery ⟨0, 2, 3, 3⟩ () none]

/-- The packet from after the wrap is taken for an old one, and so are all that follow it until their
columns come up to LatestColumn again. -/
theorem latestColumn_stuck_at_wrap :
    isOutOfOrder 4194010 2 3 = true ∧ endsBefore 4194010 2 3 = false ∧
      (wrapCalls.foldl call initial).decoder.latestColumn = 4194010 ∧
      ((initial : Solver Unit Unit).seen wrapCalls).foldl serialLatest 0 = 5 := by
  refine ⟨by decide, by decide, by decide +kernel, by decide +kernel⟩

end Solver
end Tonk.Siamese
