import Tonk.Siamese.SolverInvariant

set_option autoImplicit false

namespace Tonk.Siamese
open Elimination Transition

inductive Call (α β : Type) where
  | addOriginal (packetNum : Nat) (data : α)
  | addRecovery (metadata : RecoveryMetadata) (buffer : β) (single : Option α)
  | isReadyToDecode
  | decode (solution : Option (Solution α))

namespace Solver

variable {α β : Type} {s t u : Solver α β}

def call (s : Solver α β) : Call α β → Solver α β
  | .addOriginal packetNum data => (s.addOriginal packetNum data).1
  | .addRecovery metadata buffer single => s.addRecovery metadata buffer single
  | .isReadyToDecode => s.isReadyToDecode.1
  | .decode solution => (s.decode solution).1

def Step (s : Solver α β) (c : Call α β) (t : Solver α β) : Prop := t = s.call c

theorem run_foldl (calls : List (Call α β)) (s : Solver α β) :
    Run Step s calls (calls.foldl call s) := by
  induction calls generalizing s with
  | nil => exact .nil s
  | cons c calls ih => exact .cons rfl (ih (s.call c))

/-- The metadata is as the parser reads it. -/
def Parsed : Call α β → Prop
  | .addRecovery metadata _ _ => metadata.Readable
  | _ => True

instance : (c : Call α β) → Decidable (Parsed c)
  | .addRecovery metadata _ _ => inferInstanceAs (Decidable metadata.Readable)
  | .addOriginal _ _ | .isReadyToDecode | .decode _ => .isTrue trivial

/-- The metadata is as the parser reads it, and when a recovery packet comes no packet in front of its
range is missing, nor in front of the last one's when Decode is called. This is more than the decoder
asserts: that no packet is missing in front of the first stored one when a region starts, and that
RemoveElements keeps the next expected element. -/
def Asserted (s : Solver α β) : Call α β → Prop
  | .addRecovery metadata _ _ =>
    metadata.Readable ∧ InPlace (placing s.decoder.window metadata) metadata
  | .decode _ => InPlace s.decoder.window s.decoder.lastRecoveryMetadata
  | _ => True

theorem Inv.call (h : s.Inv) (c : Call α β) (hc : s.Asserted c) : (s.call c).Inv := by
  rcases h with hdisabled | hworking
  · refine .inl ?_
    cases c with
    | addOriginal packetNum data =>
      simp [Solver.call, Solver.addOriginal, Decoder.addOriginal, hdisabled]
    | addRecovery metadata buffer single =>
      simp [Solver.call, Solver.addRecovery, hdisabled]
    | isReadyToDecode =>
      simp only [Solver.call, Solver.isReadyToDecode, Solver.checkRecoveryPossible, hdisabled,
        if_true]
      split <;> exact hdisabled
    | decode solution => simp [Solver.call, Solver.decode, hdisabled]
  · cases c with
    | addOriginal packetNum data => exact .inr (hworking.addOriginal packetNum data)
    | addRecovery metadata buffer single => exact hworking.addRecovery hc.1 hc.2 buffer single
    | isReadyToDecode =>
      have hpossible := Inv.checkRecoveryPossible (.inr hworking)
      simp only [Solver.call, Solver.isReadyToDecode]
      split
      · exact .inr hworking
      · exact hpossible
    | decode solution => exact hworking.decode hc solution

theorem inv_of_run {calls : List (Call α β)}
    (h : Run (Restrict Asserted Step) (initial : Solver α β) calls s) : s.Inv := by
  refine h.invariant (.inr working_initial) fun t c u ht hstep => ?_
  obtain ⟨hasserted, rfl⟩ := hstep
  exact ht.call c hasserted

/-! Decode finds a solution whenever there is one, or does not. -/

/-- `t` is what calls of Decode make of `s`. -/
def Repeated (s : Solver α β) (solutions : List (Option (Solution α))) : Solver α β :=
  solutions.foldl (fun s solution => (s.decode solution).1) s

/-- When Decode needs more data there is nothing that can be solved, and this stays so as long as
only Decode is called. -/
def Complete (s : Solver α β) : Prop :=
  ∀ solution, (s.decode solution).2.1 = .needMoreData →
    (∀ m, ¬ Solvable s.decoder.window s.decoder.recoveryPackets m) ∧
    ∀ solutions solution', ((s.Repeated solutions).decode solution').2.1 = .needMoreData ∧
      ∀ m, ¬ Solvable (s.Repeated solutions).decoder.window
        (s.Repeated solutions).decoder.recoveryPackets m

/-- When some of the first packets can be solved, those Decode tries can: the fewest that are enough
past the ones it has ruled out. -/
def TriesSolvable (s : Solver α β) : Prop :=
  s.decoder.emergencyDisabled = false → s.decoder.hasRecoveredPackets = false →
    (∃ m, Solvable s.decoder.window s.decoder.recoveryPackets m) →
    ∃ m, s.Tried m ∧ RegionFullRank s.decoder.window s.decoder.recoveryPackets m

theorem Working.decode_needMoreData_iff (h : s.Working)
    (hok : s.decoder.emergencyDisabled = false) (hnone : s.decoder.hasRecoveredPackets = false)
    (solution : Option (Solution α)) : (s.decode solution).2.1 = .needMoreData ↔
      ∀ m, s.Tried m → ¬ RegionFullRank s.decoder.window s.decoder.recoveryPackets m := by
  have hdecoded := decode_decoded hok hnone h.stocked h.checked solution
  generalize s.decode solution = result at *
  cases hdecoded with
  | needMoreData s' hdecoder hchecked htried => exact ⟨fun _ => htried, fun _ => rfl⟩
  | disabled s' m htried hrank => exact ⟨nofun, fun hall => absurd hrank (hall m htried)⟩
  | solved s' m found htried hrank => exact ⟨nofun, fun hall => absurd hrank (hall m htried)⟩

theorem Working.decode_needMoreData (h : s.Working) {solution : Option (Solution α)}
    (hresult : (s.decode solution).2.1 = .needMoreData) :
    s.decoder.emergencyDisabled = false ∧ s.decoder.hasRecoveredPackets = false ∧
      (s.decode solution).1.decoder = s.decoder ∧ (s.decode solution).1.Working := by
  have hok : s.decoder.emergencyDisabled = false := by
    by_contra hdisabled
    rw [Solver.decode, if_pos (Bool.of_not_eq_false hdisabled)] at hresult
    exact absurd hresult (by simp)
  have hnone : s.decoder.hasRecoveredPackets = false := by
    by_contra hpending
    rw [Solver.decode, hok, if_neg Bool.false_ne_true,
      if_pos (Bool.of_not_eq_false hpending)] at hresult
    exact absurd hresult (by simp)
  refine ⟨hok, hnone, ?_⟩
  have hdecoded := decode_decoded hok hnone h.stocked h.checked solution
  generalize s.decode solution = result at *
  cases hdecoded with
  | needMoreData s' hdecoder hchecked htried =>
    exact ⟨hdecoder, hdecoder ▸ h.stocked, hdecoder ▸ h.ordered, hchecked⟩
  | disabled s' m htried hrank => exact absurd hresult (by simp)
  | solved s' m found htried hrank => exact absurd hresult (by simp)

/-- With nothing to solve Decode needs more data, however often it is called. -/
theorem Working.repeated (h : s.Working) (hok : s.decoder.emergencyDisabled = false)
    (hnone : s.decoder.hasRecoveredPackets = false)
    (hunsolvable : ∀ m, ¬ Solvable s.decoder.window s.decoder.recoveryPackets m)
    (solutions : List (Option (Solution α))) :
    (s.Repeated solutions).decoder = s.decoder ∧ (s.Repeated solutions).Working := by
  induction solutions generalizing s with
  | nil => exact ⟨rfl, h⟩
  | cons solution rest ih =>
    have hresult := (h.decode_needMoreData_iff hok hnone solution).mpr fun m htried hrank =>
      hunsolvable m ⟨htried.eligible, hrank⟩
    obtain ⟨-, -, hdecoder, hworking⟩ := h.decode_needMoreData hresult
    rw [← hdecoder] at hok hnone hunsolvable
    obtain ⟨hrest, hworking'⟩ := ih hworking hok hnone hunsolvable
    exact ⟨hrest.trans hdecoder, hworking'⟩

theorem Working.complete_iff (h : s.Working) : s.Complete ↔ s.TriesSolvable := by
  constructor
  · intro hcomplete hok hnone ⟨m, hsolvable⟩
    by_contra hnot
    have hresult := (h.decode_needMoreData_iff hok hnone none).mpr fun n htried hrank =>
      hnot ⟨n, htried, hrank⟩
    exact (hcomplete none hresult).1 m hsolvable
  · intro htries solution hresult
    obtain ⟨hok, hnone, -, -⟩ := h.decode_needMoreData hresult
    have htried := (h.decode_needMoreData_iff hok hnone solution).mp hresult
    have hunsolvable : ∀ m, ¬ Solvable s.decoder.window s.decoder.recoveryPackets m := by
      intro m hsolvable
      obtain ⟨n, hn, hrank⟩ := htries hok hnone ⟨m, hsolvable⟩
      exact htried n hn hrank
    refine ⟨hunsolvable, fun solutions solution' => ?_⟩
    obtain ⟨hdecoder, hworking⟩ := h.repeated hok hnone hunsolvable solutions
    rw [← hdecoder] at hok hnone hunsolvable
    exact ⟨(hworking.decode_needMoreData_iff hok hnone solution').mpr fun m hm hrank =>
      hunsolvable m ⟨hm.eligible, hrank⟩, hunsolvable⟩

/-- Decode is complete in exactly the states in which it tries something that can be solved. -/
theorem decode_complete_iff {calls : List (Call α β)}
    (h : Run (Restrict Asserted Step) (initial : Solver α β) calls s) :
    s.Complete ↔ s.TriesSolvable := by
  rcases inv_of_run h with hdisabled | hworking
  · constructor
    · intro _ hok
      rw [hdisabled] at hok
      exact Bool.noConfusion hok
    · intro _ solution hresult
      rw [decode, if_pos hdisabled] at hresult
      exact absurd hresult (by simp)
  · exact hworking.complete_iff

def parityTwice : List (Call Unit Unit) :=
  [.addRecovery ⟨1, 0, 2, 2⟩ () none, .addRecovery ⟨0, 0, 2, 2⟩ () none,
    .addRecovery ⟨0, 0, 2, 2⟩ () none]

def afterParityTwice : Solver Unit Unit := parityTwice.foldl call initial

theorem afterParityTwice_run :
    Run (Restrict Asserted Step) (initial : Solver Unit Unit) parityTwice afterParityTwice := by
  have hparity : (⟨0, 0, 2, 2⟩ : RecoveryMetadata).Readable := by decide
  have hcauchy : (⟨1, 0, 2, 2⟩ : RecoveryMetadata).Readable := by decide
  refine .cons ⟨⟨hcauchy, by decide⟩, rfl⟩ ?_
  refine .cons ⟨⟨hparity, by decide⟩, rfl⟩ ?_
  exact .cons ⟨⟨hparity, by decide⟩, rfl⟩ (.nil _)

theorem afterParityTwice_solvable : Solvable afterParityTwice.decoder.window
    afterParityTwice.decoder.recoveryPackets 3 := by
  have hlength : (regionLost afterParityTwice.decoder.window
      afterParityTwice.decoder.recoveryPackets 3).length = 2 := by decide +kernel
  refine ⟨⟨⟨by decide, by decide, by rw [hlength]; decide⟩, by rw [hlength]; decide⟩, ?_⟩
  rw [RegionFullRank, hlength, fullColumnRank_iff]
  have hfirst : regionMatrix afterParityTwice.decoder.window
      afterParityTwice.decoder.recoveryPackets 3 0 0 = 1 := by decide +kernel
  have hsecond : regionMatrix afterParityTwice.decoder.window
      afterParityTwice.decoder.recoveryPackets 3 0 1 = 1 := by decide +kernel
  have hne : regionMatrix afterParityTwice.decoder.window
      afterParityTwice.decoder.recoveryPackets 3 2 0 ≠ regionMatrix
        afterParityTwice.decoder.window afterParityTwice.decoder.recoveryPackets 3 2 1 := by
    decide +kernel
  generalize regionMatrix afterParityTwice.decoder.window
    afterParityTwice.decoder.recoveryPackets 3 = a at *
  intro v hv
  have hparity := hv 0 (by decide)
  have hcauchy := hv 2 (by decide)
  simp only [Finset.sum_range_succ, Finset.sum_range_zero, zero_add, hfirst, hsecond, one_mul]
    at hparity hcauchy
  have heq : v 1 = v 0 := add_left_cancel (hparity.trans (GF256.add_self (v 0)).symm)
  have hzero : v 0 = 0 := by
    rw [heq, ← add_mul] at hcauchy
    rcases mul_eq_zero.mp hcauchy with hsum | hzero
    · exact absurd (add_left_cancel ((GF256.add_self (a 2 0)).trans hsum.symm)) hne
    · exact hzero
  intro c hc
  match c, hc with
  | 0, _ => exact hzero
  | 1, _ => rw [heq, hzero]

theorem decode_complete_iff_parityTwice :
    Run (Restrict Asserted Step) (initial : Solver Unit Unit) parityTwice afterParityTwice ∧
      (afterParityTwice.Complete ↔ afterParityTwice.TriesSolvable) :=
  ⟨afterParityTwice_run, decode_complete_iff afterParityTwice_run⟩

/-- Decode tries the two parity packets, goes to the end of the list and gives up. -/
theorem not_complete_parityTwice :
    Run (Restrict Asserted Step) (initial : Solver Unit Unit) parityTwice afterParityTwice ∧
      (afterParityTwice.decode none).2.1 = .needMoreData ∧ ¬ afterParityTwice.Complete := by
  have hresult : (afterParityTwice.decode none).2.1 = .needMoreData := by decide +kernel
  exact ⟨afterParityTwice_run, hresult, fun hcomplete =>
    (hcomplete none hresult).1 3 afterParityTwice_solvable⟩

/-! What an attempt gives. -/

/-- Decode, called in `s`, makes an attempt in `t`: on the region CheckRecoveryPossible finds, and
again on that region as long as it cannot be solved. -/
inductive Attempts (s : Solver α β) (solution : Option (Solution α)) : Solver α β → Prop where
  | first : s.decoder.emergencyDisabled = false → s.checkRecoveryPossible.2 = true →
      Attempts s solution s.checkRecoveryPossible.1
  | again (t : Solver α β) : Attempts s solution t →
      (t.decodeCheckedRegion solution).2.1 = .needMoreData →
      Attempts s solution (t.decodeCheckedRegion solution).1

/-- The matrix GenerateMatrix makes when nothing is left from earlier attempts. -/
def scratchMatrix (s : Solver α β) : RecoveryMatrixState :=
  ({ s with recoveryMatrix := .reset } : Solver α β).generateMatrix.recoveryMatrix

theorem Working.attempting (h : s.Working) (hok : s.decoder.emergencyDisabled = false)
    (hpossible : s.checkRecoveryPossible.2 = true) : s.checkRecoveryPossible.1.Attempting := by
  have hadvanced := checkRecoveryPossible_advanced hok h.stocked h.checked
  obtain ⟨hover, -, htried⟩ := hadvanced.yes hpossible
  have henough := htried.eligible.1.2.2
  have hdecoder := hadvanced.decoder_eq
  obtain ⟨hmatrix, hrows⟩ := hadvanced.checked.matrix
  rw [← hover.lost_eq] at henough
  rw [← hdecoder] at hover
  exact ⟨hdecoder ▸ h.stocked, hover, hmatrix, hrows, henough⟩

theorem Attempting.again (h : s.Attempting) {solution : Option (Solution α)}
    (hfailed : (s.decodeCheckedRegion solution).2.1 = .needMoreData) :
    (s.decodeCheckedRegion solution).1.Attempting := by
  by_cases hrank : RegionFullRank s.decoder.window s.decoder.recoveryPackets
      s.checkedRegion.recoveryCount
  · obtain ⟨m, originalColumn, heq⟩ := h.succeeds hrank solution
    rw [heq] at hfailed
    cases solution with
    | none => exact absurd hfailed (by simp)
    | some found => exact absurd hfailed (by simp)
  · obtain ⟨m, originalColumn, heq, hover, hcount⟩ := h.fails hrank solution
    rw [heq]
    exact ⟨h.stocked, h.region.withFailed true, hover, Nat.le_of_eq hcount, h.enough⟩

theorem Working.attempts (h : s.Working) {solution : Option (Solution α)}
    (hattempt : s.Attempts solution t) : t.Attempting := by
  induction hattempt with
  | first hok hpossible => exact h.attempting hok hpossible
  | again t _ hfailed ih => exact ih.again hfailed

theorem Attempting.scratch (h : s.Attempting) :
    ({ s with recoveryMatrix := .reset } : Solver α β).Attempting :=
  ⟨h.stocked, h.region, RecoveryMatrixState.over_reset, Nat.zero_le _, h.enough⟩

theorem Attempting.gaussianElimination_iff (h : s.Attempting) :
    s.generateMatrix.recoveryMatrix.gaussianElimination.2 = true ↔
      RegionFullRank s.decoder.window s.decoder.recoveryPackets
        s.checkedRegion.recoveryCount := by
  obtain ⟨m, originalColumn, heq, hover, hcount, hle⟩ := h.generated
  obtain ⟨hiff, -, -⟩ := hover.gaussianElimination hle
  rw [hcount] at hiff
  rw [heq]
  exact hiff

theorem Attempting.scratchMatrix_eq (h : s.Attempting) :
    s.scratchMatrix.rowCount = s.checkedRegion.recoveryCount ∧
      s.scratchMatrix.columns.length = s.checkedRegion.lostCount ∧
      ∀ i, i < s.checkedRegion.recoveryCount → ∀ c, c < s.checkedRegion.lostCount →
        s.scratchMatrix.matrix i c =
          regionMatrix s.decoder.window s.decoder.recoveryPackets s.checkedRegion.recoveryCount i c := by
  have hscratch := h.scratch
  obtain ⟨previous, originalColumn, heq, -, -, hpoints⟩ := generateMatrix_eq hscratch.stocked
    hscratch.region hscratch.matrix hscratch.rows_le
  have hgrown := filledMatrix_grown hscratch.stocked hscratch.region hscratch.matrix
    hscratch.rows_le previous hpoints
  have hmatrix : s.scratchMatrix =
      ({ s with recoveryMatrix := .reset } : Solver α β).filledMatrix previous originalColumn := by
    rw [scratchMatrix, heq]
    rfl
  have hrows : s.scratchMatrix.rowCount = s.checkedRegion.recoveryCount := by
    rw [hmatrix]
    exact Nat.max_eq_right (Nat.zero_le _)
  have hcolumns : s.scratchMatrix.columns.length = s.checkedRegion.lostCount := by
    rw [hmatrix, h.region.lost_eq]
    exact length_regionColumns
  refine ⟨hrows, hcolumns, fun i hi c hc => ?_⟩
  rw [← hrows] at hi
  rw [← hcolumns] at hc
  rw [hmatrix] at hi hc ⊢
  exact hgrown.new i (Nat.zero_le i) hi c hc

/-- What an attempt makes of the matrix it goes on with, compared with the one made from scratch. -/
structure AttemptCorrect (t : Solver α β) : Prop where
  /-- It succeeds exactly when the current matrix has full column rank. -/
  succeeds_iff : t.generateMatrix.recoveryMatrix.gaussianElimination.2 = true ↔
    FullColumnRank t.scratchMatrix.matrix t.scratchMatrix.rowCount t.scratchMatrix.columns.length
  /-- An elimination from scratch gives the same answer. -/
  eq_scratch : t.generateMatrix.recoveryMatrix.gaussianElimination.2 =
    t.scratchMatrix.gaussianElimination.2
  /-- On success a solution of the system is what comes out, so there is only one. -/
  solution_eq : t.generateMatrix.recoveryMatrix.gaussianElimination.2 = true →
    ∀ (V : Type) [AddCommGroup V] [Module GF256 V] (recovery x : Nat → V),
      (∀ i, i < t.scratchMatrix.rowCount → recovery i =
        ∑ c ∈ Finset.range t.scratchMatrix.columns.length, t.scratchMatrix.matrix i c • x c) →
      ∀ c, c < t.scratchMatrix.columns.length →
        t.generateMatrix.recoveryMatrix.gaussianElimination.1.backSubstitution
          (t.generateMatrix.recoveryMatrix.gaussianElimination.1.multiplyLowerTriangle recovery) c =
            x c

theorem Attempting.attemptCorrect (h : s.Attempting) : s.AttemptCorrect := by
  obtain ⟨hrows, hcolumns, hmatrix⟩ := h.scratchMatrix_eq
  have hlost := h.region.lost_eq
  have hiff := h.gaussianElimination_iff
  refine ⟨?_, ?_, fun hyes V _ _ recovery x hx c hc => ?_⟩
  · rw [hiff, hrows, hcolumns, fullColumnRank_congr hmatrix, RegionFullRank, hlost]
  · have hscratch := h.scratch.gaussianElimination_iff
    exact Bool.eq_iff_iff.mpr (hiff.trans hscratch.symm)
  · obtain ⟨m, originalColumn, heq, hover, hcount, hle⟩ := h.generated
    obtain ⟨-, hsolved, -⟩ := hover.gaussianElimination hle
    rw [heq] at hyes ⊢
    obtain ⟨hsolved, hcolumns', hrows'⟩ := hsolved hyes
    have hlength : m.gaussianElimination.1.columns.length = s.checkedRegion.lostCount := by
      rw [hcolumns', hover.columns_eq, length_regionColumns, hcount, hlost]
    rw [hcolumns] at hc
    refine hsolved.backSubstitution (fun i hi => ?_) (by rw [hlength]; exact hc)
    rw [hrows', hcount] at hi
    rw [hx i (by rw [hrows]; exact hi), hcolumns, hlength, hcount]
    refine Finset.sum_congr rfl fun k hk => ?_
    rw [hmatrix i hi k (Finset.mem_range.mp hk)]

/-- Every attempt in every run, whatever earlier attempts have left. -/
theorem attempt_correct {calls : List (Call α β)}
    (h : Run (Restrict Asserted Step) (initial : Solver α β) calls s)
    {solution : Option (Solution α)} (hattempt : s.Attempts solution t) : t.AttemptCorrect := by
  rcases inv_of_run h with hdisabled | hworking
  · exfalso
    induction hattempt with
    | first hok _ =>
      rw [hdisabled] at hok
      exact Bool.noConfusion hok
    | again _ _ _ ih => exact ih
  · exact (hworking.attempts hattempt).attemptCorrect

def parityFailure : List (Call Unit Unit) :=
  parityTwice ++ [.decode none, .addRecovery ⟨1, 0, 3, 3⟩ () none]

def afterFailure : Solver Unit Unit := parityFailure.foldl call initial

theorem afterFailure_run :
    Run (Restrict Asserted Step) (initial : Solver Unit Unit) parityFailure afterFailure := by
  have hreadable : (⟨1, 0, 3, 3⟩ : RecoveryMetadata).Readable := by decide
  have hdecode : afterParityTwice.Asserted (.decode none) := by
    change InPlace _ _
    decide +kernel
  have hlast : afterFailure =
      (afterParityTwice.call (.decode none)).call (.addRecovery ⟨1, 0, 3, 3⟩ () none) := by
    rw [afterFailure, parityFailure, List.foldl_append, List.foldl_cons, List.foldl_cons,
      List.foldl_nil, afterParityTwice]
  rw [hlast]
  refine afterParityTwice_run.append (.cons ⟨hdecode, rfl⟩ ?_)
  refine .cons ⟨⟨hreadable, ?_⟩, rfl⟩ (.nil _)
  decide +kernel

theorem attempt_correct_afterFailure :
    Run (Restrict Asserted Step) (initial : Solver Unit Unit) parityFailure afterFailure ∧
      afterFailure.recoveryMatrix.geResumePivot = 1 ∧
      afterFailure.checkRecoveryPossible.1.generateMatrix.recoveryMatrix.gaussianElimination.2 =
        true ∧
      afterFailure.checkRecoveryPossible.1.AttemptCorrect := by
  have hattempt : afterFailure.Attempts none afterFailure.checkRecoveryPossible.1 :=
    .first (by decide +kernel) (by decide +kernel)
  exact ⟨afterFailure_run, by decide +kernel, by decide +kernel,
    attempt_correct afterFailure_run hattempt⟩

/-- Packets 0, 1, 4, 61 and 62 are lost. Decode fails on five copies of a parity packet, with packet 4
in column 2, and then on the losses 61 and 62 alone, as there is a packet that starts behind the
others. With packet 65 a column 2 comes back, and packet 4 still points there. -/
def staleColumn : List (Call Unit Unit) :=
  (([2, 3] ++ List.range' 5 56 ++ [63, 64]).map fun n => .addOriginal n ()) ++
    List.replicate 5 (.addRecovery ⟨0, 0, 64, 64⟩ () none) ++
    [.decode none, .addRecovery ⟨0, 61, 2, 2⟩ () none, .addRecovery ⟨0, 0, 65, 65⟩ () none,
      .addRecovery ⟨0, 0, 65, 65⟩ () none, .decode none, .addRecovery ⟨0, 64, 2, 2⟩ () none]

def afterStaleColumn : Solver Unit Unit := staleColumn.foldl call initial

/-- The rows do not tell the losses apart: twice the sums over packets 0 to 64 count one time only. -/
theorem staleColumn_kernel : Kernel afterStaleColumn.checkRecoveryPossible.1.scratchMatrix.matrix 9 3
    fun c => if c < 2 then 1 else ⟨120⟩ := by
  unfold Kernel
  decide +kernel

/-- With metadata as the parser reads it, but losses in front of the range of a recovery packet, an
attempt succeeds on a matrix that has not full column rank. -/
theorem not_attemptCorrect_staleColumn :
    (∀ c ∈ staleColumn, Parsed c) ∧
      Run Step (initial : Solver Unit Unit) staleColumn afterStaleColumn ∧
      afterStaleColumn.Attempts none afterStaleColumn.checkRecoveryPossible.1 ∧
      ¬ afterStaleColumn.checkRecoveryPossible.1.AttemptCorrect := by
  obtain ⟨hok, hpossible, hsolved, hrows, hcolumns⟩ :
      afterStaleColumn.decoder.emergencyDisabled = false ∧
        afterStaleColumn.checkRecoveryPossible.2 = true ∧
        let t := afterStaleColumn.checkRecoveryPossible.1
        t.generateMatrix.recoveryMatrix.gaussianElimination.2 = true ∧
          t.scratchMatrix.rowCount = 9 ∧ t.scratchMatrix.columns.length = 3 := by
    decide +kernel
  refine ⟨by decide +kernel, run_foldl staleColumn initial, .first hok hpossible,
    fun hcorrect => ?_⟩
  have hrank := hcorrect.succeeds_iff.mp hsolved
  rw [hrows, hcolumns, fullColumnRank_iff] at hrank
  exact absurd (hrank _ staleColumn_kernel 0 (by decide)) (by decide)

end Solver
end Tonk.Siamese
