import Tonk.PktAlloc.Heap

set_option autoImplicit false

namespace Tonk.PktAlloc

namespace Allocator

def checkWindow (window : WindowHeader) : Bool :=
  !decide (kWindowMaxUnits < window.resumeScanOffset) &&
    window.used.rangePopcount 0 kWindowMaxUnits ==
      (kWindowMaxUnits + 2 ^ 32 - window.freeUnitCount) % 2 ^ 32

def checkPreferred (a : Allocator) (i : Nat) : Bool :=
  let w := a.preferredWindows.getD i 0
  let window := a.windows w
  window.fullListIndex == kNotInFullList &&
    ((List.range a.preferredWindows.length).all fun j =>
      !(w == a.preferredWindows.getD j 0 && i != j)) &&
    !(decide (window.freeUnitCount ≤ 0) || decide (kWindowMaxUnits < window.freeUnitCount)) &&
    checkWindow window

def checkFull (a : Allocator) (i : Nat) : Bool :=
  let w := a.fullWindows.getD i 0
  let window := a.windows w
  window.fullListIndex == (i : Int) &&
    ((List.range a.preferredWindows.length).all fun j => !(w == a.preferredWindows.getD j 0)) &&
    ((List.range a.fullWindows.length).all fun j => !(w == a.fullWindows.getD j 0 && i != j)) &&
    checkWindow window

def emptyCount (a : Allocator) : Nat :=
  a.preferredWindows.countP fun w =>
    !(a.windows w).preallocated && (a.windows w).freeUnitCount == kWindowMaxUnits

def preallocatedCount (a : Allocator) : Nat :=
  a.preferredWindows.countP (fun w => (a.windows w).preallocated) +
    a.fullWindows.countP fun w => (a.windows w).preallocated

def integrityCheck (b : Build) (a : Allocator) : Bool :=
  (List.range a.preferredWindows.length).all a.checkPreferred &&
    (List.range a.fullWindows.length).all a.checkFull &&
    a.preallocatedCount == kPreallocatedWindows &&
    (!b.shrinks || a.emptyCount == a.emptyWindowCount)

def Drained (a : Allocator) (w : Nat) : Prop :=
  w ∈ a.preferredWindows ∧ (a.windows w).freeUnitCount = 0

/-- No empty window is in the full list, as far as the build counts them. -/
def Clean (b : Build) (a : Allocator) : Prop :=
  b.shrinks = true → ∀ w ∈ a.fullWindows, a.isEmpty w = false

structure Fit (b : Build) (a : Allocator) : Prop where
  free : ∀ w, ¬a.Drained w
  clean : a.Clean b

variable {b : Build} {a : Allocator} {live : Set Ptr}

theorem Fit.pos {w : Nat} (h : a.Fit b) (hw : w ∈ a.preferredWindows) :
    0 < (a.windows w).freeUnitCount :=
  Nat.pos_of_ne_zero fun hzero => h.free w ⟨hw, hzero⟩

theorem getD_eq_iff {l : List Nat} {i j : Nat} (hnodup : l.Nodup) (hi : i < l.length)
    (hj : j < l.length) : l.getD i 0 = l.getD j 0 ↔ i = j := by
  rw [List.getD_eq_getElem?_getD, List.getD_eq_getElem?_getD, List.getElem?_eq_getElem hi,
    List.getElem?_eq_getElem hj, Option.getD_some, Option.getD_some]
  exact hnodup.getElem_inj_iff

theorem getD_mem {l : List Nat} {i : Nat} (hi : i < l.length) : l.getD i 0 ∈ l := by
  rw [List.getD_eq_getElem?_getD, List.getElem?_eq_getElem hi, Option.getD_some]
  exact List.getElem_mem hi

theorem Carved.free_le {w : Nat} (hc : a.Carved live) (hw : w ∈ a.windowIds) :
    (a.windows w).freeUnitCount ≤ kWindowMaxUnits := by
  have := hc.free_add w hw
  omega

theorem Carved.checkWindow {w : Nat} (hc : a.Carved live) (hw : w ∈ a.windowIds) :
    checkWindow (a.windows w) = true := by
  have hadd := hc.free_add w hw
  have hresume := hc.resume_le w hw
  rw [Allocator.checkWindow, Bool.and_eq_true]
  refine ⟨by rw [decide_eq_false (by omega)]; rfl, ?_⟩
  rw [beq_iff_eq, CustomBitSet.rangePopcount_eq]
  simp only [kWindowMaxUnits] at hadd ⊢
  omega

theorem Sound.checkPreferred_iff (hs : a.Sound b live) {i : Nat} (hi : i < a.preferredWindows.length) :
    a.checkPreferred i = true ↔ 0 < (a.windows (a.preferredWindows.getD i 0)).freeUnitCount := by
  have hmem := getD_mem hi
  have hw := getD_mem_windowIds hi
  have hnodup := (List.nodup_append.1 hs.listed.nodup).1
  have hapart : ((List.range a.preferredWindows.length).all fun j =>
      !(a.preferredWindows.getD i 0 == a.preferredWindows.getD j 0 && i != j)) = true := by
    rw [List.all_eq_true]
    intro j hj
    rw [Bool.not_eq_true', Bool.and_eq_false_iff]
    by_cases hij : i = j
    · exact .inr (by simp [hij])
    · refine .inl (beq_eq_false_iff_ne.2 fun h => hij ?_)
      exact (getD_eq_iff hnodup hi (List.mem_range.1 hj)).1 h
  have hle := hs.carved.free_le hw
  simp only [checkPreferred, hs.listed.preferred _ hmem, hapart, hs.carved.checkWindow hw,
    beq_self_eq_true, Bool.and_true, Bool.true_and]
  rw [decide_eq_false (show ¬kWindowMaxUnits <
    (a.windows (a.preferredWindows.getD i 0)).freeUnitCount by omega), Bool.or_false]
  simp [Nat.pos_iff_ne_zero]

theorem Sound.checkFull (hs : a.Sound b live) {i : Nat} (hi : i < a.fullWindows.length) :
    a.checkFull i = true := by
  have hmem := getD_mem hi
  have hw : a.fullWindows.getD i 0 ∈ a.windowIds := List.mem_append_right _ hmem
  obtain ⟨_, hnodup, hapart⟩ := List.nodup_append.1 hs.listed.nodup
  have hget : a.fullWindows[i]? = some (a.fullWindows.getD i 0) := by
    rw [List.getD_eq_getElem?_getD, List.getElem?_eq_getElem hi, Option.getD_some]
  simp only [Allocator.checkFull, hs.listed.full i _ hget, hs.carved.checkWindow hw,
    beq_self_eq_true, Bool.and_true, Bool.true_and, Bool.and_eq_true, List.all_eq_true,
    List.mem_range, Bool.not_eq_true']
  refine ⟨fun j hj => ?_, fun j hj => ?_⟩
  · exact beq_eq_false_iff_ne.2 fun h => hapart _ (getD_mem hj) _ hmem h.symm
  · rw [Bool.and_eq_false_iff]
    by_cases hij : i = j
    · exact .inr (by simp [hij])
    · exact .inl (beq_eq_false_iff_ne.2 fun h => hij ((getD_eq_iff hnodup hi hj).1 h))

theorem Sound.emptyCount_iff (hs : a.Sound b live) (hb : b.shrinks = true) :
    (a.emptyCount == a.emptyWindowCount) = true ↔ ∀ w ∈ a.fullWindows, a.isEmpty w = false := by
  have hempty : a.emptyCount = a.preferredWindows.countP a.isEmpty := by
    refine List.countP_congr fun w hw => ?_
    have hle := hs.carved.free_le (List.mem_append_left _ hw)
    rw [isEmpty, Bool.and_comm]
    simp only [Bool.and_eq_true, beq_iff_eq, decide_eq_true_eq]
    exact and_congr_left fun _ => ⟨fun h => h.ge, fun h => le_antisymm hle h⟩
  have hcounted := hs.counted hb
  rw [windowIds, List.countP_append] at hcounted
  rw [beq_iff_eq, hempty, hcounted]
  have hzero : a.fullWindows.countP a.isEmpty = 0 ↔ ∀ w ∈ a.fullWindows, a.isEmpty w = false := by
    simp [List.countP_eq_zero]
  rw [← hzero]
  omega

theorem Sound.integrityCheck_iff (hs : a.Sound b live) : a.integrityCheck b = true ↔ a.Fit b := by
  have hpreallocated : a.preallocatedCount = kPreallocatedWindows := by
    rw [preallocatedCount, ← List.countP_append]
    exact hs.listed.preallocated
  have hfull : (List.range a.fullWindows.length).all a.checkFull = true :=
    List.all_eq_true.2 fun i hi => hs.checkFull (List.mem_range.1 hi)
  have hpreferred : (List.range a.preferredWindows.length).all a.checkPreferred = true ↔
      ∀ w ∈ a.preferredWindows, 0 < (a.windows w).freeUnitCount := by
    rw [List.all_eq_true]
    constructor
    · intro h w hw
      obtain ⟨i, hi, rfl⟩ := List.mem_iff_getElem.1 hw
      have := (hs.checkPreferred_iff hi).1 (h i (List.mem_range.2 hi))
      rwa [List.getD_eq_getElem?_getD, List.getElem?_eq_getElem hi, Option.getD_some] at this
    · intro h i hi
      have hi := List.mem_range.1 hi
      exact (hs.checkPreferred_iff hi).2 (h _ (getD_mem hi))
  rw [integrityCheck, hpreallocated, hfull, Bool.and_true, Bool.and_eq_true, Bool.and_eq_true,
    hpreferred]
  simp only [beq_self_eq_true, and_true]
  constructor
  · rintro ⟨hfree, hcount⟩
    refine ⟨fun w hw => (hfree w hw.1).ne' hw.2, fun hb => (hs.emptyCount_iff hb).1 ?_⟩
    simpa [hb] using hcount
  · rintro ⟨hfree, hempty⟩
    refine ⟨fun w hw => Nat.pos_of_ne_zero fun hzero => hfree w ⟨hw, hzero⟩, ?_⟩
    by_cases hb : b.shrinks = true
    · rw [(hs.emptyCount_iff hb).2 (hempty hb), Bool.or_true]
    · simp [hb]

def Fits (a : Allocator) (units k : Nat) : Prop :=
  units ≤ (a.windows (a.preferredWindows.getD k 0)).freeUnitCount ∧
    ∃ r, (a.windows (a.preferredWindows.getD k 0)).Room units r

/-- The first hole of the i-th preferred window is at a unit, and no window behind it has one. -/
structure Picks (a : Allocator) (units i r : Nat) : Prop where
  lt : i < a.preferredWindows.length
  enough : units ≤ (a.windows (a.preferredWindows.getD i 0)).freeUnitCount
  room : (a.windows (a.preferredWindows.getD i 0)).Room units r
  first : ∀ r', (a.windows (a.preferredWindows.getD i 0)).Room units r' → r ≤ r'
  last : ∀ k, i < k → k < a.preferredWindows.length → ¬a.Fits units k

/-- An allocation takes the last free units of a window, but at a place from where one more of its size
would not go past the end of the window. -/
def Exhausts (b : Build) (a : Allocator) (bytes w : Nat) : Prop :=
  bytes ≠ 0 ∧ b.units bytes ≤ kFallbackThresholdUnits ∧
    ∃ i r, a.Picks (b.units bytes) i r ∧ a.preferredWindows.getD i 0 = w ∧
      (a.windows w).freeUnitCount = b.units bytes ∧ r + b.units bytes * 2 ≤ kWindowMaxUnits

/-- An allocation passes over an empty window, the resume offset of which leaves no hole. -/
def Strands (b : Build) (a : Allocator) (bytes : Nat) : Prop :=
  b.shrinks = true ∧ bytes ≠ 0 ∧ b.units bytes ≤ kFallbackThresholdUnits ∧
    ∃ i, i < a.preferredWindows.length ∧ a.isEmpty (a.preferredWindows.getD i 0) = true ∧
      ∀ k, i ≤ k → k < a.preferredWindows.length → ¬a.Fits (b.units bytes) k

theorem holeAt_eq_none_iff {units k : Nat} (hunits : 0 < units) :
    a.holeAt units k = none ↔ ¬a.Fits units k := by
  simp only [holeAt, Fits]
  split_ifs with hfree
  · exact iff_of_true rfl fun h => absurd h.1 (Nat.not_le.2 hfree)
  · rw [findHole_eq_none_iff hunits]
    exact ⟨fun hno h => h.2.elim hno,
      fun hno r hroom => hno ⟨Nat.le_of_not_lt hfree, r, hroom⟩⟩

theorem Picks.of_scan {units i r : Nat} (hunits : 0 < units)
    (hscan : a.scanPreferred units a.preferredWindows.length = some (i, r)) : a.Picks units i r := by
  obtain ⟨hlt, hhole, hlast⟩ := scanPreferred_some hscan
  obtain ⟨henough, hfound⟩ := holeAt_some hhole
  obtain ⟨hroom, hfirst⟩ := (findHole_eq_some_iff hunits).1 hfound
  exact ⟨hlt, henough, hroom, hfirst, fun k hk hk' => (holeAt_eq_none_iff hunits).1 (hlast k hk hk')⟩

theorem Picks.fits {units i r : Nat} (h : a.Picks units i r) : a.Fits units i :=
  ⟨h.enough, r, h.room⟩

theorem Picks.unique {units i r i' r' : Nat} (h : a.Picks units i r) (h' : a.Picks units i' r') :
    i = i' ∧ r = r' := by
  have hi : i = i' := by
    rcases Nat.lt_trichotomy i i' with hlt | heq | hlt
    · exact absurd h'.fits (h.last i' hlt h'.lt)
    · exact heq
    · exact absurd h.fits (h'.last i hlt h.lt)
  subst hi
  exact ⟨rfl, le_antisymm (h.first r' h'.room) (h'.first r h.room)⟩

theorem not_fits_of_scan {units : Nat} (hunits : 0 < units)
    (hscan : a.scanPreferred units a.preferredWindows.length = none) (k : Nat)
    (hk : k < a.preferredWindows.length) : ¬a.Fits units k :=
  (holeAt_eq_none_iff hunits).1 (scanPreferred_none hscan k hk)

theorem moveLastFewWindowsToFull_lists (a : Allocator) {count : Nat}
    (hcount : count ≤ a.preferredWindows.length) :
    (a.moveLastFewWindowsToFull count).preferredWindows =
        a.preferredWindows.take (a.preferredWindows.length - count) ∧
      ∀ w, w ∈ (a.moveLastFewWindowsToFull count).fullWindows ↔
        w ∈ a.fullWindows ∨ w ∈ a.preferredWindows.drop (a.preferredWindows.length - count) := by
  induction count generalizing a with
  | zero => simp [moveLastFewWindowsToFull]
  | succ count ih =>
    rcases List.eq_nil_or_concat a.preferredWindows with hnil | ⟨front, last, hconcat⟩
    · rw [hnil] at hcount
      exact absurd hcount (by simp)
    rw [List.concat_eq_append] at hconcat
    have hlength : a.preferredWindows.length = front.length + 1 := by simp [hconcat]
    have hlast : a.preferredWindows.getLast? = some last := by simp [hconcat]
    have hmoved := moveLastWindowToFull_of_getLast? hlast
    have hpreferred : a.moveLastWindowToFull.preferredWindows = front := by
      rw [hmoved]
      simp [setWindow, hconcat]
    have hfull : a.moveLastWindowToFull.fullWindows = a.fullWindows ++ [last] := by
      rw [hmoved]
      rfl
    obtain ⟨htake, hmem⟩ := ih a.moveLastWindowToFull (by rw [hpreferred]; omega)
    rw [hpreferred] at htake hmem
    rw [moveLastFewWindowsToFull]
    refine ⟨?_, fun w => ?_⟩
    · rw [htake, hconcat, List.length_append, List.length_singleton,
        show front.length + 1 - (count + 1) = front.length - count by omega,
        List.take_append_of_le_length (by omega)]
    · rw [hmem, hfull, hconcat, List.length_append, List.length_singleton,
        show front.length + 1 - (count + 1) = front.length - count by omega,
        List.drop_append_of_le_length (by omega)]
      simp only [List.mem_append, List.mem_singleton]
      tauto

theorem mem_take_iff {l : List Nat} {n w : Nat} (hn : n ≤ l.length) :
    w ∈ l.take n ↔ ∃ k, k < n ∧ l.getD k 0 = w := by
  constructor
  · intro hw
    obtain ⟨k, hk, rfl⟩ := List.mem_iff_getElem.1 hw
    rw [List.length_take] at hk
    refine ⟨k, by omega, ?_⟩
    rw [List.getElem_take, List.getD_eq_getElem?_getD, List.getElem?_eq_getElem (by omega),
      Option.getD_some]
  · rintro ⟨k, hk, rfl⟩
    refine List.mem_iff_getElem?.2 ⟨k, ?_⟩
    rw [List.getElem?_take_of_lt hk, List.getD_eq_getElem?_getD, List.getElem?_eq_getElem (by omega),
      Option.getD_some]

theorem mem_drop_iff {l : List Nat} {n w : Nat} :
    w ∈ l.drop n ↔ ∃ k, n ≤ k ∧ k < l.length ∧ l.getD k 0 = w := by
  constructor
  · intro hw
    obtain ⟨k, hk, rfl⟩ := List.mem_iff_getElem.1 hw
    rw [List.length_drop] at hk
    refine ⟨n + k, by omega, by omega, ?_⟩
    rw [List.getElem_drop, List.getD_eq_getElem?_getD, List.getElem?_eq_getElem (by omega),
      Option.getD_some]
  · rintro ⟨k, hle, hk, rfl⟩
    refine List.mem_iff_getElem?.2 ⟨k - n, ?_⟩
    rw [List.getElem?_drop, show n + (k - n) = k by omega, List.getD_eq_getElem?_getD,
      List.getElem?_eq_getElem hk, Option.getD_some]

theorem carve_isEmpty {w r units : Nat} (hc : a.Carved live) (hw : w ∈ a.windowIds)
    (hunits : 0 < units) (v : Nat) :
    (a.carve b w r units).isEmpty v = if v = w then false else a.isEmpty v := by
  have hle := hc.free_le hw
  have hpos : 0 < kWindowMaxUnits := by decide
  rw [isEmpty, isEmpty, carve_windows]
  split_ifs with h
  · rw [decide_eq_false (by simp only; omega), Bool.false_and]
  · rfl

theorem carve_free {w r units : Nat} (v : Nat) :
    ((a.carve b w r units).windows v).freeUnitCount =
      if v = w then (a.windows w).freeUnitCount - units else (a.windows v).freeUnitCount := by
  rw [carve_windows]
  split_ifs <;> rfl

theorem Sound.hole_after {units i r : Nat} (hs : a.Sound b live) (hfit : a.Fit b)
    (hunits : 0 < units) (hpicks : a.Picks units i r) {a' : Allocator}
    (ha' : a' = (a.carve b (a.preferredWindows.getD i 0) r units).moveLastFewWindowsToFull
      (a.fullCount units i r)) :
    (∀ v, a'.Drained v ↔ v = a.preferredWindows.getD i 0 ∧ (a.windows v).freeUnitCount = units ∧
      r + units * 2 ≤ kWindowMaxUnits) ∧
    (a'.Clean b ↔ (b.shrinks = true → ∀ k, i < k → k < a.preferredWindows.length →
      a.isEmpty (a.preferredWindows.getD k 0) = false)) := by
  have hi := hpicks.lt
  have henough := hpicks.enough
  set w := a.preferredWindows.getD i 0
  have hw : w ∈ a.windowIds := getD_mem_windowIds hi
  obtain ⟨hnodup, _, hapart⟩ := List.nodup_append.1 hs.listed.nodup
  have hreordered := moveLastFewWindowsToFull_reordered (a.carve b w r units) (a.fullCount units i r)
  rw [← ha'] at hreordered
  -- the windows in front of `keep` stay
  have hcount : a.fullCount units i r ≤ a.preferredWindows.length := by
    rw [fullCount]
    split_ifs <;> omega
  obtain ⟨keep, hkeep⟩ : ∃ keep, a.preferredWindows.length - a.fullCount units i r = keep := ⟨_, rfl⟩
  have hkeepEq : keep = if kWindowMaxUnits < r + units * 2 then i else i + 1 := by
    rw [← hkeep, fullCount]
    split_ifs <;> omega
  have hkeepLe : keep ≤ a.preferredWindows.length := by omega
  obtain ⟨hpreferred, hfull⟩ := moveLastFewWindowsToFull_lists (a.carve b w r units) hcount
  have hfree (v : Nat) : (a'.windows v).freeUnitCount =
      if v = w then (a.windows w).freeUnitCount - units else (a.windows v).freeUnitCount := by
    rw [(hreordered.window v).2.1, carve_free]
  have hempty (v : Nat) : a'.isEmpty v = if v = w then false else a.isEmpty v := by
    rw [hreordered.isEmpty_eq, carve_isEmpty hs.carved hw hunits]
  have hne (k : Nat) (hk : k < a.preferredWindows.length) (hki : k ≠ i) :
      a.preferredWindows.getD k 0 ≠ w := fun h => hki ((getD_eq_iff hnodup hk hi).1 h)
  rw [← ha'] at hpreferred hfull
  change a'.preferredWindows = a.preferredWindows.take _ at hpreferred
  change ∀ v, v ∈ a'.fullWindows ↔ v ∈ a.fullWindows ∨ v ∈ a.preferredWindows.drop _ at hfull
  rw [show (a.carve b w r units).preferredWindows.length = a.preferredWindows.length from rfl,
    hkeep] at hpreferred hfull
  refine ⟨fun v => ?_, ?_⟩
  · constructor
    · rintro ⟨hv, hzero⟩
      rw [hpreferred] at hv
      obtain ⟨k, hk, rfl⟩ := (mem_take_iff hkeepLe).1 hv
      rw [hfree] at hzero
      have hki : k = i := by
        by_contra hki
        rw [if_neg (hne k (by omega) hki)] at hzero
        exact (hfit.pos (getD_mem (by omega))).ne' hzero
      subst hki
      rw [if_pos rfl] at hzero
      refine ⟨rfl, show (a.windows w).freeUnitCount = units by omega, ?_⟩
      by_contra hgt
      rw [if_pos (Nat.lt_of_not_le hgt)] at hkeepEq
      omega
    · rintro ⟨rfl, hexact, hspace⟩
      rw [if_neg (Nat.not_lt.2 hspace)] at hkeepEq
      refine ⟨hpreferred ▸ (mem_take_iff hkeepLe).2 ⟨i, by omega, rfl⟩, ?_⟩
      rw [hfree, if_pos rfl, hexact, Nat.sub_self]
  · constructor
    · intro hclean hb k hk hk'
      have hmem : a.preferredWindows.getD k 0 ∈ a.preferredWindows.drop keep :=
        mem_drop_iff.2 ⟨k, by rw [hkeepEq]; split_ifs <;> omega, hk', rfl⟩
      have := hclean hb _ ((hfull _).2 (.inr hmem))
      rwa [hempty, if_neg (hne k hk' (by omega))] at this
    · intro hnone hb v hv
      rw [hempty]
      split_ifs with hvw
      · rfl
      · rcases (hfull v).1 hv with hv | hv
        · exact hfit.clean hb v hv
        · obtain ⟨k, hk, hk', rfl⟩ := mem_drop_iff.1 hv
          have hki : k ≠ i := by
            rintro rfl
            exact hvw rfl
          refine hnone hb k ?_ hk'
          rw [hkeepEq] at hk
          split_ifs at hk <;> omega

theorem moved_after (hfit : a.Fit b) :
    (∀ w, ¬(a.moveLastFewWindowsToFull a.preferredWindows.length).Drained w) ∧
    ((a.moveLastFewWindowsToFull a.preferredWindows.length).Clean b ↔
      (b.shrinks = true → ∀ k, k < a.preferredWindows.length →
        a.isEmpty (a.preferredWindows.getD k 0) = false)) := by
  have hreordered := moveLastFewWindowsToFull_reordered a a.preferredWindows.length
  obtain ⟨hpreferred, hfull⟩ := moveLastFewWindowsToFull_lists a (le_refl a.preferredWindows.length)
  rw [Nat.sub_self, List.take_zero] at hpreferred
  simp only [Nat.sub_self, List.drop_zero] at hfull
  refine ⟨fun w hw => absurd (hpreferred ▸ hw.1) (by simp), ?_⟩
  constructor
  · intro hclean hb k hk
    rw [← hreordered.isEmpty_eq]
    exact hclean hb _ ((hfull _).2 (.inr (getD_mem hk)))
  · intro hnone hb v hv
    rw [hreordered.isEmpty_eq]
    rcases (hfull v).1 hv with hv | hv
    · exact hfit.clean hb v hv
    · obtain ⟨k, hk, rfl⟩ := List.mem_iff_getElem.1 hv
      have := hnone hb k hk
      rwa [List.getD_eq_getElem?_getD, List.getElem?_eq_getElem hk, Option.getD_some] at this

theorem Sound.window_after {units : Nat} (hs : a.Sound b live) (hnone : a.preferredWindows = [])
    (hunits : 0 < units) (hle : units ≤ kFallbackThresholdUnits) :
    (∀ w, ¬((a.addWindow b).carve b a.nextBlock 0 units).Drained w) ∧
      (((a.addWindow b).carve b a.nextBlock 0 units).Clean b ↔ a.Clean b) := by
  have hw : a.nextBlock ∈ (a.addWindow b).windowIds := (mem_windowIds_addWindow _).2 (.inl rfl)
  have hpreferred : ((a.addWindow b).carve b a.nextBlock 0 units).preferredWindows = [a.nextBlock] := by
    show a.preferredWindows ++ [a.nextBlock] = _
    rw [hnone, List.nil_append]
  have hempty (v : Nat) (hv : v ∈ a.fullWindows) :
      ((a.addWindow b).carve b a.nextBlock 0 units).isEmpty v = a.isEmpty v := by
    have hne := (hs.listed.fresh v (List.mem_append_right _ hv)).ne
    rw [carve_isEmpty hs.addWindow.carved hw hunits, if_neg hne, isEmpty, isEmpty, addWindow_windows,
      if_neg hne]
  refine ⟨?_, ?_⟩
  · rintro w ⟨hmem, hzero⟩
    rw [hpreferred, List.mem_singleton] at hmem
    subst hmem
    rw [carve_free, if_pos rfl, addWindow_windows, if_pos rfl] at hzero
    simp only [WindowHeader.new, kWindowMaxUnits, kFallbackThresholdUnits] at hle hzero
    omega
  · constructor
    · intro hclean hb v hv
      rw [← hempty v hv]
      exact hclean hb v hv
    · intro hclean hb v hv
      rw [hempty v hv]
      exact hclean hb v hv

theorem Sound.allocate_after (hs : a.Sound b live) (hfit : a.Fit b) (bytes : Nat) (granted : Bool) :
    (∀ w, (a.allocate b bytes granted).1.Drained w ↔ a.Exhausts b bytes w) ∧
      ((a.allocate b bytes granted).1.Clean b ↔ ¬a.Strands b bytes) := by
  have hunits := units_pos b bytes
  have hcases := allocate_cases b a bytes granted
  generalize a.allocate b bytes granted = result at hcases ⊢
  have hnever (h : bytes = 0 ∨ kFallbackThresholdUnits < b.units bytes) :
      (∀ w, a.Drained w ↔ a.Exhausts b bytes w) ∧ (a.Clean b ↔ ¬a.Strands b bytes) := by
    refine ⟨fun w => iff_of_false (hfit.free w) fun hexhausts => ?_,
      iff_of_true hfit.clean fun hstrands => ?_⟩
    · exact h.elim hexhausts.1 fun h => absurd hexhausts.2.1 (Nat.not_le.2 h)
    · exact h.elim hstrands.2.1 fun h => absurd hstrands.2.2.1 (Nat.not_le.2 h)
  have hnone (hscan : a.scanPreferred (b.units bytes) a.preferredWindows.length = none) (w : Nat) :
      ¬a.Exhausts b bytes w := by
    rintro ⟨_, _, i, r, hpicks, _⟩
    exact not_fits_of_scan hunits hscan i hpicks.lt hpicks.fits
  have hclean (hbytes : bytes ≠ 0) (hle : b.units bytes ≤ kFallbackThresholdUnits)
      (hscan : a.scanPreferred (b.units bytes) a.preferredWindows.length = none) :
      (a.moveLastFewWindowsToFull a.preferredWindows.length).Clean b ↔ ¬a.Strands b bytes := by
    rw [(moved_after hfit).2]
    constructor
    · rintro hempty ⟨hb, _, _, i, hi, hisEmpty, _⟩
      rw [hempty hb i hi] at hisEmpty
      exact absurd hisEmpty (by decide)
    · intro hstrands hb k hk
      rw [← Bool.not_eq_true]
      intro hempty
      exact hstrands ⟨hb, hbytes, hle, k, hk, hempty,
        fun k' _ hk' => not_fits_of_scan hunits hscan k' hk'⟩
  cases hcases with
  | zero _ hbytes => exact hnever (.inl hbytes)
  | failed _ hlt => exact hnever (.inr hlt)
  | fallback _ hlt => exact hnever (.inr hlt)
  | noWindow hbytes hle hscan =>
    exact ⟨fun w => iff_of_false ((moved_after hfit).1 w) (hnone hscan w), hclean hbytes hle hscan⟩
  | window hbytes hle hscan =>
    have hlist := (moveLastFewWindowsToFull_lists a (le_refl a.preferredWindows.length)).1
    rw [Nat.sub_self, List.take_zero] at hlist
    obtain ⟨hdrained, hwindow⟩ :=
      (hs.moveLastFewWindowsToFull a.preferredWindows.length).window_after hlist hunits hle
    rw [(moveLastFewWindowsToFull_reordered a _).nextBlock] at hdrained hwindow
    exact ⟨fun w => iff_of_false (hdrained w) (hnone hscan w), hwindow.trans (hclean hbytes hle hscan)⟩
  | hole _ i r hbytes hle hscan =>
    have hpicks := Picks.of_scan hunits hscan
    obtain ⟨hdrained, hempty⟩ := hs.hole_after hfit hunits hpicks rfl
    refine ⟨fun w => (hdrained w).trans ?_, hempty.trans ?_⟩
    · constructor
      · rintro ⟨rfl, hfree, hspace⟩
        exact ⟨hbytes, hle, i, r, hpicks, rfl, hfree, hspace⟩
      · rintro ⟨_, _, i', r', hpicks', rfl, hfree, hspace⟩
        obtain ⟨rfl, rfl⟩ := hpicks.unique hpicks'
        exact ⟨rfl, hfree, hspace⟩
    · constructor
      · rintro hnone ⟨hb, _, _, j, hj, hisEmpty, hno⟩
        have hlt : i < j := Nat.lt_of_not_le fun hji => hno i hji hpicks.lt hpicks.fits
        rw [hnone hb j hlt hj] at hisEmpty
        exact absurd hisEmpty (by decide)
      · intro hstrands hb k hk hk'
        rw [← Bool.not_eq_true]
        intro hisEmpty
        exact hstrands ⟨hb, hbytes, hle, k, hk', hisEmpty, fun k' hk'' => hpicks.last k' (by omega)⟩

theorem Cleaned.fit_iff {a' : Allocator} (h : Cleaned a a') : a'.Fit b ↔ a.Fit b := by
  obtain ⟨removed, hall, _, hperm⟩ := h.removed
  constructor
  · rintro ⟨hfree, hfull⟩
    refine ⟨?_, fun hb w hw => ?_⟩
    · rintro w ⟨hw, hzero⟩
      rcases List.mem_append.1 (hperm.mem_iff.2 hw) with hw | hw
      · rw [← h.windows] at hzero
        exact hfree w ⟨hw, hzero⟩
      · have hempty := hall w hw
        have hpos : 0 < kWindowMaxUnits := by decide
        simp only [isEmpty, Bool.and_eq_true, decide_eq_true_eq] at hempty
        omega
    · rw [← h.isEmpty_eq]
      exact hfull hb w (h.fullWindows ▸ hw)
  · rintro ⟨hfree, hfull⟩
    refine ⟨?_, fun hb w hw => ?_⟩
    · rintro w ⟨hw, hzero⟩
      rw [h.windows] at hzero
      exact hfree w ⟨hperm.mem_iff.1 (List.mem_append_left _ hw), hzero⟩
    · rw [h.isEmpty_eq]
      exact hfull hb w (h.fullWindows ▸ hw)

theorem Listed.fit_promoteIfFree {w : Nat} (hl : a.Listed) (hw : w ∈ a.windowIds)
    (hpos : 0 < (a.windows w).freeUnitCount) :
    (a.promoteIfFree w).Fit b ↔ (∀ v, ¬a.Drained v) ∧
      (b.shrinks = true → ∀ v ∈ a.fullWindows, v ≠ w → a.isEmpty v = false) := by
  have hr := (promoteIfFree_reordered hl hw).1
  have hlists : (∀ v, v ∈ (a.promoteIfFree w).preferredWindows → v ∈ a.preferredWindows ∨ v = w) ∧
      (∀ v ∈ a.preferredWindows, v ∈ (a.promoteIfFree w).preferredWindows) ∧
      (∀ v ∈ a.fullWindows, v ≠ w → v ∈ (a.promoteIfFree w).fullWindows) ∧
      (∀ v ∈ (a.promoteIfFree w).fullWindows, v ∈ a.fullWindows ∧ (v = w → a.isEmpty v = false)) := by
    rw [promoteIfFree]
    split_ifs with h
    · have hi := hl.fullIndex hw h.2
      have hperm := swapRemove_perm hi
      have hnodup := hperm.nodup_iff.2 (List.nodup_append.1 hl.nodup).2.1
      rw [promote_preferredWindows, promote_fullWindows hi]
      refine ⟨fun v hv => by simpa using hv, fun v hv => List.mem_append_left _ hv,
        fun v hv hne => ?_, fun v hv => ⟨hperm.mem_iff.1 (List.mem_append_left _ hv), ?_⟩⟩
      · exact (List.mem_append.1 (hperm.mem_iff.2 hv)).resolve_right (by simpa using hne)
      · rintro rfl
        exact absurd rfl ((List.nodup_append.1 hnodup).2.2 v hv v (by simp))
    · refine ⟨fun v hv => .inl hv, fun v hv => hv, fun v hv _ => hv, fun v hv => ⟨hv, ?_⟩⟩
      rintro rfl
      obtain ⟨i, hi⟩ := List.mem_iff_getElem?.1 hv
      have hindex : (a.windows v).fullListIndex ≠ kNotInFullList := by
        rw [hl.full i v hi]
        exact fun h => absurd h (by simp only [kNotInFullList]; omega)
      have hfree : ¬kWindowMaxUnits ≤ (a.windows v).freeUnitCount := fun hle =>
        h ⟨le_trans (by decide) hle, hindex⟩
      rw [isEmpty, decide_eq_false hfree, Bool.false_and]
  obtain ⟨hpreferred, hkept, hfull, hrest⟩ := hlists
  constructor
  · rintro ⟨hfree, hempty⟩
    refine ⟨?_, fun hb v hv hne => ?_⟩
    · rintro v ⟨hv, hzero⟩
      rw [← (hr.window v).2.1] at hzero
      exact hfree v ⟨hkept v hv, hzero⟩
    · rw [← hr.isEmpty_eq]
      exact hempty hb v (hfull v hv hne)
  · rintro ⟨hfree, hempty⟩
    refine ⟨?_, fun hb v hv => ?_⟩
    · rintro v ⟨hv, hzero⟩
      rw [(hr.window v).2.1] at hzero
      rcases hpreferred v hv with hv | rfl
      · exact hfree v ⟨hv, hzero⟩
      · exact hpos.ne' hzero
    · rw [hr.isEmpty_eq]
      obtain ⟨hmem, hself⟩ := hrest v hv
      by_cases hne : v = w
      · exact hself hne
      · exact hempty hb v hmem hne

theorem Sound.fit_free {ptr : Ptr} (hs : a.Sound b live) (hptr : ptr ∈ live) :
    (a.free b (some ptr)).Fit b ↔
      (∀ w, a.Drained w → (a.regions ptr).header = some w) ∧ a.Clean b := by
  have hused := hs.carved.used_pos ptr hptr
  cases hheader : (a.regions ptr).header with
  | none =>
    rw [free_of_fallback hused hheader]
    constructor
    · rintro ⟨hfree, hfull⟩
      exact ⟨fun w hw => absurd hw (hfree w), hfull⟩
    · rintro ⟨hfree, hfull⟩
      exact ⟨fun w hw => absurd (hfree w hw) (by simp), hfull⟩
  | some v =>
    obtain ⟨_, hv, _⟩ := hs.carved.inWindow ptr hptr v hheader
    have hfreed (w : Nat) : ((a.cut ptr v 0).windows w).freeUnitCount =
        if w = v then (a.windows v).freeUnitCount + (a.regions ptr).usedUnits
        else (a.windows w).freeUnitCount := by
      rw [cut_windows]
      by_cases h : w = v
      · rw [if_pos h, if_pos h, Nat.sub_zero]
      · rw [if_neg h, if_neg h]
    have hsame (w : Nat) (hw : w ≠ v) : (a.cut ptr v 0).isEmpty w = a.isEmpty w := by
      rw [isEmpty, isEmpty, cut_windows, if_neg hw]
    have hpos : 0 < ((a.cut ptr v 0).windows v).freeUnitCount := by
      rw [hfreed, if_pos rfl]
      omega
    have hrecount (a' : Allocator) (count : Nat) :
        Fit b { a' with emptyWindowCount := count } ↔ a'.Fit b :=
      ⟨fun h => ⟨h.free, h.clean⟩, fun h => ⟨h.free, h.clean⟩⟩
    rw [free_of_window hused hheader, (cleanUp_cleaned b _ v).fit_iff, hrecount, release_eq,
      hs.listed.cut.fit_promoteIfFree hv hpos]
    constructor
    · rintro ⟨hfree, hfull⟩
      refine ⟨?_, fun hb w hw => ?_⟩
      · rintro w ⟨hw, hzero⟩
        by_contra hne
        have hwv : w ≠ v := fun h => hne (h ▸ rfl)
        refine hfree w ⟨hw, ?_⟩
        rw [hfreed, if_neg hwv, hzero]
      · by_cases hwv : w = v
        · rw [hwv]
          exact hs.carved.not_isEmpty hptr hheader
        · rw [← hsame w hwv]
          exact hfull hb w hw hwv
    · rintro ⟨hfree, hfull⟩
      refine ⟨?_, fun hb w hw hwv => ?_⟩
      · rintro w ⟨hw, hzero⟩
        rw [hfreed] at hzero
        split_ifs at hzero with hwv
        · omega
        · exact hwv (Option.some.inj (hfree w ⟨hw, hzero⟩)).symm
      · rw [hsame w hwv]
        exact hfull hb w hw

theorem Sound.fit_shrink {ptr : Ptr} (hs : a.Sound b live) (hptr : ptr ∈ live) (hfit : a.Fit b)
    (bytes : Nat) : (a.shrink b (some ptr) bytes).Fit b := by
  rcases shrink_cases b a ptr bytes with ⟨w, hheader, hlt, heq⟩ | heq
  · have hshrunk := hs.shrink hptr bytes
    rw [heq] at hshrunk ⊢
    have hnot := hshrunk.carved.not_isEmpty hptr ((cut_header ptr).trans hheader)
    refine ⟨?_, fun hb v hv => ?_⟩
    · rintro v ⟨hv, hzero⟩
      have hpos := hfit.pos hv
      rw [cut_windows] at hzero
      by_cases hvw : v = w
      · subst hvw
        rw [if_pos rfl] at hzero
        simp only at hzero
        omega
      · rw [if_neg hvw] at hzero
        omega
    · by_cases hvw : v = w
      · rw [hvw]
        exact hnot
      · rw [isEmpty, cut_windows, if_neg hvw]
        exact hfit.clean hb v hv
  · rw [heq]
    exact hfit

theorem not_exhausts_of_none {bytes : Nat} {granted : Bool} {a' : Allocator}
    (hresult : a.allocate b bytes granted = (a', none)) (w : Nat) : ¬a.Exhausts b bytes w := by
  have hcases := allocate_cases b a bytes granted
  rw [hresult] at hcases
  rintro ⟨hbytes, hle, i, r, hpicks, _⟩
  cases hcases with
  | zero _ hzero => exact hbytes hzero
  | failed _ hlt => exact absurd hle (Nat.not_le.2 hlt)
  | noWindow _ _ hscan =>
    exact not_fits_of_scan (units_pos b bytes) hscan i hpicks.lt hpicks.fits

theorem Sound.free_wild {ptr : Ptr} (hs : a.Sound b live) (hptr : ptr ∈ live) :
    (a.free b (some ptr)).wild = a.wild := by
  have hused := hs.carved.used_pos ptr hptr
  cases hheader : (a.regions ptr).header with
  | none =>
    rw [free_of_fallback hused hheader]
    rfl
  | some w =>
    obtain ⟨_, hw, _⟩ := hs.carved.inWindow ptr hptr w hheader
    have hr := (promoteIfFree_reordered hs.listed.cut
      (show w ∈ (a.cut ptr w 0).windowIds from hw)).1
    rw [free_of_window hused hheader, (cleanUp_cleaned b _ w).wild]
    exact hr.wild

def Overruns (b : Build) (bytes : Nat) (granted : Bool) : Prop :=
  granted = true ∧ 2 ^ 32 - 2 * b.kUnitSize < bytes ∧ bytes ≤ 2 ^ 32 - b.kUnitSize

theorem size_lt_iff {bytes : Nat} (hlt : bytes < 2 ^ 32) :
    b.kUnitSize * b.units bytes % 2 ^ 32 < b.kUnitSize ↔
      2 ^ 32 - 2 * b.kUnitSize < bytes ∧ bytes ≤ 2 ^ 32 - b.kUnitSize := by
  simp only [Build.units]
  rcases b.kUnitSize_eq with hunit | hunit <;> rw [hunit] <;> omega

theorem not_overruns {bytes : Nat} {granted : Bool} (hlt : bytes < 2 ^ 32)
    (hle : bytes = 0 ∨ b.units bytes ≤ kFallbackThresholdUnits) : ¬Overruns b bytes granted := by
  rintro ⟨_, hlow, hhigh⟩
  simp only [Build.units, kFallbackThresholdUnits, kWindowMaxUnits] at hle
  rcases b.kUnitSize_eq with hunit | hunit <;> rw [hunit] at hle hlow hhigh <;> omega

theorem wild_allocate {bytes : Nat} (hlt : bytes < 2 ^ 32) (granted : Bool) :
    (a.allocate b bytes granted).1.wild = true ↔ a.wild = true ∨ Overruns b bytes granted := by
  have hcases := allocate_cases b a bytes granted
  generalize a.allocate b bytes granted = result at hcases ⊢
  have hsame (a' : Allocator) (hwild : a'.wild = a.wild) (hno : ¬Overruns b bytes granted) :
      a'.wild = true ↔ a.wild = true ∨ Overruns b bytes granted := by
    rw [hwild]
    exact ⟨.inl, fun h => h.resolve_right hno⟩
  cases hcases with
  | zero _ hbytes => exact hsame a rfl (not_overruns hlt (.inl hbytes))
  | failed => exact hsame a rfl fun h => absurd h.1 (by decide)
  | fallback _ hgt =>
    show (a.wild || decide (b.kUnitSize * b.units bytes % 2 ^ 32 < b.kUnitSize)) = true ↔ _
    rw [Bool.or_eq_true, decide_eq_true_iff, size_lt_iff hlt]
    exact or_congr_right ⟨fun h => ⟨rfl, h⟩, fun h => h.2⟩
  | noWindow _ hle =>
    exact hsame _ (moveLastFewWindowsToFull_reordered a _).wild (not_overruns hlt (.inr hle))
  | window _ hle =>
    exact hsame _ (moveLastFewWindowsToFull_reordered a _).wild (not_overruns hlt (.inr hle))
  | hole _ i r _ hle =>
    exact hsame _ (moveLastFewWindowsToFull_reordered _ _).wild (not_overruns hlt (.inr hle))

end Allocator

namespace Heap

open Allocator (Overruns)

variable {b : Build} {h : Heap} {c : Call} {calls : List Call}

/-- No header has gone astray, and IntegrityCheck returns true. -/
def Healthy (b : Build) (h : Heap) : Prop :=
  h.allocator.wild = false ∧ h.allocator.integrityCheck b = true

instance (b : Build) (h : Heap) : Decidable (h.Healthy b) := inferInstanceAs (Decidable (_ ∧ _))

/-- A call after which that does not hold: it writes a header past its block, it leaves an empty window
in the full list, or it leaves a preferred window without a free unit, and is not Reallocate in the
same window, which then frees some. -/
def Bad (b : Build) (h : Heap) : Call → Prop
  | .allocate bytes granted | .reallocate none bytes _ granted =>
    Overruns b bytes granted ∨ h.allocator.Strands b bytes ∨ ∃ w, h.allocator.Exhausts b bytes w
  | .reallocate (some ptr) bytes _ granted =>
    (h.allocator.regions ptr).usedUnits < b.units bytes ∧
      (Overruns b bytes granted ∨ h.allocator.Strands b bytes ∨
        ∃ w, h.allocator.Exhausts b bytes w ∧ (h.allocator.regions ptr).header ≠ some w)
  | .shrink _ _ | .free _ | .write _ _ _ => False

theorem healthy_iff (hs : h.allocator.Sound b h.livePtrs) :
    h.Healthy b ↔ h.allocator.wild = false ∧ h.allocator.Fit b := by
  rw [Healthy, hs.integrityCheck_iff]

section Calls

variable {bytes : Nat} {granted : Bool} (hs : h.allocator.Sound b h.livePtrs)
  (hwild : h.allocator.wild = false) (hfit : h.allocator.Fit b)

include hs hwild hfit

theorem healthy_allocate (hlt : bytes < 2 ^ 32) :
    ((h.allocator.allocate b bytes granted).1.wild = false ∧
        (h.allocator.allocate b bytes granted).1.Fit b) ↔
      ¬(Overruns b bytes granted ∨ h.allocator.Strands b bytes ∨
        ∃ w, h.allocator.Exhausts b bytes w) := by
  obtain ⟨hdrained, hclean⟩ := hs.allocate_after hfit bytes granted
  have hwildAfter : (h.allocator.allocate b bytes granted).1.wild = false ↔
      ¬Overruns b bytes granted := by
    rw [← Bool.not_eq_true, Allocator.wild_allocate hlt, hwild]
    simp
  have hfitAfter : (h.allocator.allocate b bytes granted).1.Fit b ↔
      ¬h.allocator.Strands b bytes ∧ ∀ w, ¬h.allocator.Exhausts b bytes w := by
    constructor
    · rintro ⟨hfree, hclean'⟩
      exact ⟨hclean.1 hclean', fun w hw => hfree w ((hdrained w).2 hw)⟩
    · rintro ⟨hstrands, hexhausts⟩
      exact ⟨fun w hw => hexhausts w ((hdrained w).1 hw), hclean.2 hstrands⟩
  rw [hwildAfter, hfitAfter]
  simp only [not_or, not_exists]

theorem healthy_moved {ptr newPtr : Ptr} {a : Allocator} (behavior : Realloc) (count : Nat)
    (hptr : ptr ∈ h.livePtrs) (hlt : bytes < 2 ^ 32)
    (hresult : h.allocator.allocate b bytes granted = (a, some newPtr)) :
    (((if behavior = .copyExisting then a.copy b newPtr ptr count else a).free b (some ptr)).wild =
          false ∧
        ((if behavior = .copyExisting then a.copy b newPtr ptr count else a).free b (some ptr)).Fit b) ↔
      ¬(Overruns b bytes granted ∨ h.allocator.Strands b bytes ∨
        ∃ w, h.allocator.Exhausts b bytes w ∧ (h.allocator.regions ptr).header ≠ some w) := by
  obtain ⟨hdrained, hclean⟩ := hs.allocate_after hfit bytes granted
  obtain ⟨hsound, hnot, hgrown⟩ := hs.allocate_some hresult
  have hwildAfter := Allocator.wild_allocate (a := h.allocator) (b := b) hlt granted
  rw [hresult] at hdrained hclean hwildAfter
  have hmem : ptr ∈ insert newPtr h.livePtrs := Set.mem_insert_of_mem _ hptr
  have hne : ptr ≠ newPtr := fun heq => hnot (heq ▸ hptr)
  have hfree : ((if behavior = .copyExisting then a.copy b newPtr ptr count else a).free b
        (some ptr)).wild = a.wild ∧
      (((if behavior = .copyExisting then a.copy b newPtr ptr count else a).free b (some ptr)).Fit b ↔
        (∀ w, a.Drained w → (a.regions ptr).header = some w) ∧ a.Clean b) := by
    split_ifs
    · exact ⟨(hsound.copy newPtr ptr count).free_wild hmem, (hsound.copy newPtr ptr count).fit_free hmem⟩
    · exact ⟨hsound.free_wild hmem, hsound.fit_free hmem⟩
  rw [hfree.1, hfree.2, hgrown.regions ptr hne, hclean, ← Bool.not_eq_true, hwildAfter, hwild]
  simp only [hdrained, Bool.false_eq_true, false_or, not_or, not_exists, not_and, not_not]
  exact and_congr_right fun _ => and_comm

end Calls

theorem healthy_next (hs : h.allocator.Sound b h.livePtrs) (hc : h.Permitted b (2 ^ 32) c)
    (hh : h.Healthy b) : (h.next b c).Healthy b ↔ ¬h.Bad b c := by
  obtain ⟨hwild, hfit⟩ := (healthy_iff hs).1 hh
  rw [healthy_iff (sound_next hs hc)]
  cases c with
  | allocate bytes granted => exact healthy_allocate hs hwild hfit hc
  | reallocate ptr bytes behavior granted =>
    cases ptr with
    | none => exact healthy_allocate hs hwild hfit hc.2
    | some ptr =>
      have hptr := hc.1 ptr rfl
      have hcases := reallocate_cases b h.allocator ptr bytes behavior granted
      simp only [next, Bad]
      generalize h.allocator.reallocate b (some ptr) bytes behavior granted = result at hcases ⊢
      cases hcases with
      | zero hzero =>
        have hused := hs.carved.used_pos ptr hptr
        have hone : b.units bytes = 1 := by
          rw [hzero, Build.units]
          rcases b.kUnitSize_eq with hunit | hunit <;> rw [hunit] <;> rfl
        refine iff_of_true ⟨(hs.free_wild hptr).trans hwild, (hs.fit_free hptr).2
          ⟨fun w hw => absurd hw (hfit.free w), hfit.clean⟩⟩ ?_
        rintro ⟨hlt, _⟩
        omega
      | kept _ hle => exact iff_of_true ⟨hwild, hfit⟩ fun hbad => absurd hbad.1 (Nat.not_lt.2 hle)
      | failed a' hzero hlt hresult =>
        have hafter : ((h.allocator.allocate b bytes granted).1.wild = false ∧
            (h.allocator.allocate b bytes granted).1.Fit b) ↔ _ := healthy_allocate hs hwild hfit hc.2
        rw [hresult] at hafter
        refine hafter.trans (not_congr ?_)
        have hnone := Allocator.not_exhausts_of_none hresult
        constructor
        · rintro (h | h | ⟨w, hw⟩)
          · exact ⟨hlt, .inl h⟩
          · exact ⟨hlt, .inr (.inl h)⟩
          · exact absurd hw (hnone w)
        · rintro ⟨_, h | h | ⟨w, hw, _⟩⟩
          · exact .inl h
          · exact .inr (.inl h)
          · exact .inr (.inr ⟨w, hw⟩)
      | moved a' newPtr hzero hlt hresult =>
        rw [and_iff_right hlt]
        exact healthy_moved hs hwild hfit behavior _ hptr hc.2 hresult
  | shrink ptr bytes =>
    cases ptr with
    | none => exact iff_of_true ⟨hwild, hfit⟩ id
    | some ptr =>
      refine iff_of_true ⟨?_, hs.fit_shrink (hc.1 ptr rfl) hfit bytes⟩ id
      rcases Allocator.shrink_cases b h.allocator ptr bytes with ⟨w, _, _, heq⟩ | heq
      · simp only [next, heq]
        exact hwild
      · simp only [next, heq]
        exact hwild
  | free ptr =>
    cases ptr with
    | none => exact iff_of_true ⟨hwild, hfit⟩ id
    | some ptr =>
      refine iff_of_true ⟨(hs.free_wild (hc ptr rfl)).trans hwild, (hs.fit_free (hc ptr rfl)).2
        ⟨fun w hw => absurd hw (hfit.free w), hfit.clean⟩⟩ id
  | write ptr offset value => exact iff_of_true ⟨hwild, hfit.free, hfit.clean⟩ id

section Runs

def run (b : Build) (calls : List Call) : Heap := calls.foldl (next b) (initial b)

def Proper (b : Build) (calls : List Call) : Prop :=
  ∀ before c, before ++ [c] <+: calls → (run b before).Permitted b (2 ^ 32) c

def AlwaysHealthy (b : Build) (calls : List Call) : Prop :=
  ∀ before, before <+: calls → (run b before).Healthy b

def NeverBad (b : Build) (calls : List Call) : Prop :=
  ∀ before c, before ++ [c] <+: calls → ¬(run b before).Bad b c

theorem healthy_initial (b : Build) : (initial b).Healthy b := by
  refine (healthy_iff (sound_initial b)).2 ⟨rfl, ?_, fun _ w hw => absurd hw (by
    simp [initial, Allocator.initial])⟩
  rintro w ⟨_, hzero⟩
  simp [initial, Allocator.initial, WindowHeader.new] at hzero

/-- For every sequence of calls with any sizes. -/
theorem alwaysHealthy_iff (hp : Proper b calls) : AlwaysHealthy b calls ↔ NeverBad b calls := by
  refine Transition.foldl_prefix_iff
    (I := fun h : Heap => h.allocator.Sound b h.livePtrs ∧ h.Healthy b)
    (P := fun h c => h.Permitted b (2 ^ 32) c) ⟨sound_initial b, healthy_initial b⟩
    (fun _ h => h.2) (fun h c hI hc hgood => ?_)
    (fun h c hI hc hafter => (healthy_next hI.1 hc hI.2).1 hafter) hp
  exact ⟨sound_next hI.1 hc, (healthy_next hI.1 hc hI.2).2 hgood⟩

end Runs

instance (b : Build) (limit : Nat) (h : Heap) : (c : Call) → Decidable (h.Permitted b limit c)
  | .allocate bytes _ => inferInstanceAs (Decidable (bytes < limit))
  | .reallocate ptr bytes _ _ =>
    inferInstanceAs (Decidable ((∀ p ∈ ptr, h.live p ≠ none) ∧ bytes < limit))
  | .shrink ptr bytes => inferInstanceAs (Decidable ((∀ p ∈ ptr, h.live p ≠ none) ∧ bytes < limit))
  | .free ptr => inferInstanceAs (Decidable (∀ p ∈ ptr, h.live p ≠ none))
  | .write ptr offset _ => inferInstanceAs (Decidable (h.live ptr ≠ none ∧ offset < h.capacity b ptr))

theorem proper_of_take (h : ∀ i, i < calls.length → ∀ c ∈ calls[i]?,
    (run b (calls.take i)).Permitted b (2 ^ 32) c) : Proper b calls :=
  Transition.forall_call_of_take h

/-- Three of the four blocks of a full window are freed, which brings it back, and taken again: the last
of them leaves it in the preferred list without a free unit. -/
def exhausting : List Call :=
  List.replicate 4 (.allocate 8176 true) ++
    [.free (some ⟨1, 0⟩), .free (some ⟨1, 512⟩), .free (some ⟨1, 1024⟩)] ++
    List.replicate 3 (.allocate 8176 true)

theorem proper_exhausting : Proper sse exhausting :=
  proper_of_take (by decide +kernel)

theorem not_neverBad_exhausting : ¬NeverBad sse exhausting := fun hnever =>
  absurd ((alwaysHealthy_iff proper_exhausting).2 hnever exhausting (List.prefix_refl _))
    (by decide +kernel)

theorem not_alwaysHealthy : ¬∀ b calls, Proper b calls → AlwaysHealthy b calls := fun h =>
  absurd (h sse exhausting proper_exhausting exhausting (List.prefix_refl _)) (by decide +kernel)

end Heap

end Tonk.PktAlloc
