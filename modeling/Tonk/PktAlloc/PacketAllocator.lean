import Tonk.PktAlloc.CustomBitSet

/-!
`pktalloc::Allocator`. A pointer names the block of memory it is in, a window or a fallback block, and
the unit of that block where its allocation starts.
-/

set_option autoImplicit false

namespace Tonk.PktAlloc

abbrev kWindowMaxUnits : Nat := 2048
abbrev kPreallocatedWindows : Nat := 2
abbrev kEmptyWindowMinimum : Nat := 32
abbrev kEmptyWindowCleanupThreshold : Nat := 64

abbrev kFallbackThresholdUnits : Nat := kWindowMaxUnits / 4

abbrev kPreferredThresholdUnits : Nat := 3 * kWindowMaxUnits / 4

abbrev kNotInFullList : Int := -1

/-- What the build decides: the alignment, and whether PKTALLOC_SHRINK is defined. -/
structure Build where
  kUnitSize : Nat
  kUnitSize_eq : kUnitSize = 16 ∨ kUnitSize = 32
  shrinks : Bool

def Build.units (b : Build) (bytes : Nat) : Nat :=
  (bytes + b.kUnitSize - 1) % 2 ^ 32 / b.kUnitSize + 1

structure WindowHeader where
  used : CustomBitSet kWindowMaxUnits
  freeUnitCount : Nat
  resumeScanOffset : Nat
  fullListIndex : Int
  preallocated : Bool

/-- Header is null for fallback allocations, UsedUnits is 0 once freed. -/
structure AllocationHeader where
  header : Option Nat
  usedUnits : Nat

structure Ptr where
  block : Nat
  unit : Nat
  deriving DecidableEq

inductive Realloc where
  | uninitialized
  | copyExisting
  deriving DecidableEq

/-- The allocator and the memory that it has: the headers of windows and allocations, the size of a block
behind its window header, the bytes of the blocks, and whether a header went past the end of its block. -/
structure Allocator where
  preferredWindows : List Nat
  fullWindows : List Nat
  emptyWindowCount : Nat
  windows : Nat → WindowHeader
  regions : Ptr → AllocationHeader
  blockBytes : Nat → Nat
  bytes : Nat → Nat → UInt8
  nextBlock : Nat
  wild : Bool

def WindowHeader.new (preallocated : Bool) : WindowHeader where
  used := .clearAll
  freeUnitCount := kWindowMaxUnits
  resumeScanOffset := 0
  fullListIndex := kNotInFullList
  preallocated := preallocated

/-- The offset in its block of an allocation's bytes, behind the AllocationHeader. -/
def Build.dataOffset (b : Build) (ptr : Ptr) : Nat := (ptr.unit + 1) * b.kUnitSize

namespace Allocator

def initial (b : Build) : Allocator where
  preferredWindows := List.range kPreallocatedWindows
  fullWindows := []
  emptyWindowCount := 0
  windows _ := .new true
  regions _ := ⟨none, 0⟩
  blockBytes _ := kWindowMaxUnits * b.kUnitSize
  bytes _ _ := 0
  nextBlock := kPreallocatedWindows
  wild := false

def setWindow (a : Allocator) (w : Nat) (window : WindowHeader) : Allocator :=
  { a with windows := Function.update a.windows w window }

def setRegion (a : Allocator) (ptr : Ptr) (region : AllocationHeader) : Allocator :=
  { a with regions := Function.update a.regions ptr region }

def findRegion (used : CustomBitSet kWindowMaxUnits) (units : Nat) : Nat → Nat → Option Nat
  | 0, _ => none
  | fuel + 1, regionStart =>
    if regionStart < kWindowMaxUnits then
      let regionStart := used.findFirstClear regionStart
      let regionEnd := regionStart + units
      if kWindowMaxUnits < regionEnd then none
      else
        let regionEnd := used.findFirstSet (regionStart + 1) regionEnd
        if regionEnd - regionStart < units then findRegion used units fuel (regionEnd + 1)
        else some regionStart
    else none

def findHole (window : WindowHeader) (units : Nat) : Option Nat :=
  findRegion window.used units (kWindowMaxUnits + 1) window.resumeScanOffset

def scanPreferred (a : Allocator) (units : Nat) : Nat → Option (Nat × Nat)
  | 0 => none
  | i + 1 =>
    let window := a.windows (a.preferredWindows.getD i 0)
    if window.freeUnitCount < units then a.scanPreferred units i
    else
      match findHole window units with
      | some regionStart => some (i, regionStart)
      | none => a.scanPreferred units i

def carve (b : Build) (a : Allocator) (w regionStart units : Nat) : Allocator :=
  let window := a.windows w
  let emptied :=
    if b.shrinks ∧ kWindowMaxUnits ≤ window.freeUnitCount ∧ window.preallocated = false then 1 else 0
  { a.setRegion ⟨w, regionStart⟩ ⟨some w, units⟩ with
    emptyWindowCount := a.emptyWindowCount - emptied }.setWindow w { window with
      freeUnitCount := window.freeUnitCount - units
      used := window.used.setRange regionStart (regionStart + units)
      resumeScanOffset := regionStart + units }

def moveLastWindowToFull (a : Allocator) : Allocator :=
  match a.preferredWindows.getLast? with
  | none => a
  | some w =>
    { a with
      preferredWindows := a.preferredWindows.dropLast
      fullWindows := a.fullWindows ++ [w] }.setWindow w
        { a.windows w with fullListIndex := a.fullWindows.length }

def moveLastFewWindowsToFull (a : Allocator) : Nat → Allocator
  | 0 => a
  | count + 1 => a.moveLastWindowToFull.moveLastFewWindowsToFull count

def allocateFromNewWindow (b : Build) (a : Allocator) (units : Nat) (granted : Bool) :
    Allocator × Option Ptr :=
  if granted then
    let w := a.nextBlock
    let window := { WindowHeader.new false with
      used := CustomBitSet.clearAll.setRange 0 units
      freeUnitCount := kWindowMaxUnits - units
      resumeScanOffset := units }
    ({ a.setRegion ⟨w, 0⟩ ⟨some w, units⟩ with
        preferredWindows := a.preferredWindows ++ [w]
        blockBytes := Function.update a.blockBytes w (kWindowMaxUnits * b.kUnitSize)
        nextBlock := w + 1 }.setWindow w window,
      some ⟨w, 0⟩)
  else (a, none)

/-- The size of the block is 32 bits wide, and its header is written in any case. -/
def fallbackAllocate (b : Build) (a : Allocator) (bytes : Nat) (granted : Bool) :
    Allocator × Option Ptr :=
  let units := b.units bytes
  let size := b.kUnitSize * units % 2 ^ 32
  if granted then
    let w := a.nextBlock
    ({ a.setRegion ⟨w, 0⟩ ⟨none, units⟩ with
        blockBytes := Function.update a.blockBytes w size
        nextBlock := w + 1
        wild := a.wild || decide (size < b.kUnitSize) },
      some ⟨w, 0⟩)
  else (a, none)

def allocate (b : Build) (a : Allocator) (bytes : Nat) (granted : Bool) : Allocator × Option Ptr :=
  if bytes = 0 then (a, none)
  else
    let units := b.units bytes
    if kFallbackThresholdUnits < units then a.fallbackAllocate b bytes granted
    else
      let preferredCount := a.preferredWindows.length
      match a.scanPreferred units preferredCount with
      | some (i, regionStart) =>
        let w := a.preferredWindows.getD i 0
        -- Any prior windows that failed to allocate are moved to full list
        let fullCount := preferredCount - 1 - i
        -- Move this window to the full list if we cannot make another allocation of the same size
        let fullCount :=
          if kWindowMaxUnits < regionStart + units * 2 then fullCount + 1 else fullCount
        ((a.carve b w regionStart units).moveLastFewWindowsToFull fullCount, some ⟨w, regionStart⟩)
      | none => (a.moveLastFewWindowsToFull preferredCount).allocateFromNewWindow b units granted

def promote (a : Allocator) (w : Nat) : Allocator :=
  let fullCount := a.fullWindows.length
  let fullIndex := (a.windows w).fullListIndex.toNat
  let replacement := a.fullWindows.getD (fullCount - 1) 0
  let a :=
    if fullIndex < fullCount - 1 then
      { a with fullWindows := a.fullWindows.set fullIndex replacement }.setWindow replacement
        { a.windows replacement with fullListIndex := fullIndex }
    else a
  { a with
    fullWindows := a.fullWindows.dropLast
    preferredWindows := a.preferredWindows ++ [w] }.setWindow w
      { a.windows w with resumeScanOffset := 0, fullListIndex := kNotInFullList }

def freeEmptyWindowsFrom (a : Allocator) (i : Nat) : Nat → Allocator
  | 0 => a
  | count + 1 =>
    let window := a.windows (a.preferredWindows.getD i 0)
    if window.freeUnitCount < kWindowMaxUnits ∨ window.preallocated then
      a.freeEmptyWindowsFrom (i + 1) count
    else
      let last := a.preferredWindows.getD (a.preferredWindows.length - 1) 0
      let a := { a with
        preferredWindows := (a.preferredWindows.set i last).dropLast
        emptyWindowCount := a.emptyWindowCount - 1 }
      if a.emptyWindowCount ≤ kEmptyWindowMinimum then a else a.freeEmptyWindowsFrom i count

def freeEmptyWindows (a : Allocator) : Allocator :=
  if a.emptyWindowCount ≤ kEmptyWindowMinimum then a
  else a.freeEmptyWindowsFrom 0 a.preferredWindows.length

def release (a : Allocator) (ptr : Ptr) (w : Nat) : Allocator :=
  let window := a.windows w
  let units := (a.regions ptr).usedUnits
  (a.setRegion ptr { a.regions ptr with usedUnits := 0 }).setWindow w { window with
    resumeScanOffset := if ptr.unit < window.resumeScanOffset then ptr.unit else window.resumeScanOffset
    used := window.used.clearRange ptr.unit (ptr.unit + units)
    freeUnitCount := window.freeUnitCount + units }

/-- If we may want to promote this to Preferred. -/
def promoteIfFree (a : Allocator) (w : Nat) : Allocator :=
  if kPreferredThresholdUnits ≤ (a.windows w).freeUnitCount ∧
      (a.windows w).fullListIndex ≠ kNotInFullList then a.promote w
  else a

/-- If we should do some bulk cleanup. -/
def cleanUp (b : Build) (a : Allocator) (w : Nat) : Allocator :=
  if b.shrinks ∧ kWindowMaxUnits ≤ (a.windows w).freeUnitCount ∧
      (a.windows w).preallocated = false then
    let a := { a with emptyWindowCount := a.emptyWindowCount + 1 }
    if kEmptyWindowCleanupThreshold ≤ a.emptyWindowCount then a.freeEmptyWindows else a
  else a

def free (b : Build) (a : Allocator) : Option Ptr → Allocator
  | none => a
  | some ptr =>
    if (a.regions ptr).usedUnits = 0 then a
    else
      match (a.regions ptr).header with
      | none => a.setRegion ptr { a.regions ptr with usedUnits := 0 }
      | some w => ((a.release ptr w).promoteIfFree w).cleanUp b w

def shrink (b : Build) (a : Allocator) : Option Ptr → Nat → Allocator
  | none, _ => a
  | some ptr, bytes =>
    if (a.regions ptr).usedUnits = 0 then a
    else
      let unitsNeeded := b.units bytes
      let unitsCurrent := (a.regions ptr).usedUnits
      if unitsNeeded < unitsCurrent then
        match (a.regions ptr).header with
        | none => a
        | some w =>
          let window := a.windows w
          let regionEndNew := ptr.unit + unitsNeeded
          (a.setRegion ptr { a.regions ptr with usedUnits := unitsNeeded }).setWindow w { window with
            resumeScanOffset :=
              if regionEndNew < window.resumeScanOffset then regionEndNew
              else window.resumeScanOffset
            used := window.used.clearRange regionEndNew (ptr.unit + unitsCurrent)
            freeUnitCount := window.freeUnitCount + (unitsCurrent - unitsNeeded) }
      else a

def copy (b : Build) (a : Allocator) (newPtr ptr : Ptr) (count : Nat) : Allocator :=
  { a with
    bytes := fun block offset =>
      if block = newPtr.block ∧ b.dataOffset newPtr ≤ offset ∧ offset < b.dataOffset newPtr + count then
        a.bytes ptr.block (b.dataOffset ptr + (offset - b.dataOffset newPtr))
      else a.bytes block offset }

def reallocate (b : Build) (a : Allocator) (ptr : Option Ptr) (bytes : Nat) (behavior : Realloc)
    (granted : Bool) : Allocator × Option Ptr :=
  match ptr with
  | none => a.allocate b bytes granted
  | some ptr =>
    if bytes = 0 then (a.free b (some ptr), none)
    else
      let existingUnits := (a.regions ptr).usedUnits
      let requestedUnits := b.units bytes
      if requestedUnits ≤ existingUnits then (a, some ptr)
      else
        match a.allocate b bytes granted with
        | (a, none) => (a, none)
        | (a, some newPtr) =>
          let a :=
            if behavior = .copyExisting then a.copy b newPtr ptr ((existingUnits - 1) * b.kUnitSize)
            else a
          (a.free b (some ptr), some newPtr)

end Allocator

/-- `units` units of a window are clear from a unit on that a scan does not skip. -/
def WindowHeader.Room (window : WindowHeader) (units regionStart : Nat) : Prop :=
  window.resumeScanOffset ≤ regionStart ∧ regionStart + units ≤ kWindowMaxUnits ∧
    ∀ j, regionStart ≤ j → j < regionStart + units → window.used.check j = false

namespace Allocator

variable {used : CustomBitSet kWindowMaxUnits} {window : WindowHeader} {units fuel start r : Nat}

theorem findRegion_clear (hunits : 0 < units) (hfound : findRegion used units fuel start = some r) :
    start ≤ r ∧ r + units ≤ kWindowMaxUnits ∧
      ∀ j, r ≤ j → j < r + units → used.check j = false := by
  induction fuel generalizing start with
  | zero => exact absurd hfound (by simp [findRegion])
  | succ fuel ih =>
    rw [findRegion] at hfound
    by_cases hstart : start < kWindowMaxUnits
    · obtain ⟨hle, _, hclear⟩ := used.findFirstClear_spec hstart
      obtain ⟨hleEnd, hclears, _⟩ :=
        used.findFirstSet_spec (show used.findFirstClear start + 1 ≤ used.findFirstClear start + units by
          omega)
      simp only [if_pos hstart] at hfound
      split_ifs at hfound with hspace hhole
      · obtain ⟨hstart', hrest⟩ := ih hfound
        exact ⟨by omega, hrest⟩
      · obtain rfl := Option.some.inj hfound
        refine ⟨hle, by omega, fun j hj hlt => ?_⟩
        obtain rfl | hlt' := Nat.eq_or_lt_of_le hj
        · exact hclear (by omega)
        · exact hclears j hlt' (by omega)
    · rw [if_neg hstart] at hfound
      exact absurd hfound (by simp)

theorem findRegion_first (hunits : 0 < units) (hfuel : kWindowMaxUnits < fuel + start)
    (hle : start ≤ r) (hspace : r + units ≤ kWindowMaxUnits)
    (hclear : ∀ j, r ≤ j → j < r + units → used.check j = false) :
    ∃ r', findRegion used units fuel start = some r' ∧ r' ≤ r := by
  induction fuel generalizing start with
  | zero => omega
  | succ fuel ih =>
    have hstart : start < kWindowMaxUnits := by omega
    obtain ⟨hleFirst, hset, _⟩ := used.findFirstClear_spec hstart
    have hfirst : used.findFirstClear start ≤ r := by
      by_contra hlt
      have hbit := hset r hle (by omega)
      rw [hclear r le_rfl (by omega)] at hbit
      exact absurd hbit (by decide)
    obtain ⟨hleEnd, _, hend⟩ :=
      used.findFirstSet_spec (show used.findFirstClear start + 1 ≤ used.findFirstClear start + units by
        omega)
    simp only [findRegion, if_pos hstart, if_neg (show ¬kWindowMaxUnits <
      used.findFirstClear start + units by omega)]
    by_cases hhole : used.findFirstSet (used.findFirstClear start + 1)
        (used.findFirstClear start + units) - used.findFirstClear start < units
    · -- the bit that ends the hole is not in the region
      have hbit := hend (by omega)
      have hpast : used.findFirstSet (used.findFirstClear start + 1)
          (used.findFirstClear start + units) < r := by
        by_contra hge
        rw [hclear _ (by omega) (by omega)] at hbit
        exact absurd hbit (by decide)
      rw [if_pos hhole]
      exact ih (by omega) (by omega)
    · rw [if_neg hhole]
      exact ⟨_, rfl, hfirst⟩

theorem findHole_room (hunits : 0 < units) (hfound : findHole window units = some r) :
    window.Room units r :=
  findRegion_clear hunits hfound

theorem findHole_first (hunits : 0 < units) (hroom : window.Room units r) :
    ∃ r', findHole window units = some r' ∧ r' ≤ r :=
  findRegion_first hunits (by omega) hroom.1 hroom.2.1 hroom.2.2

theorem findHole_eq_some_iff (hunits : 0 < units) : findHole window units = some r ↔
    window.Room units r ∧ ∀ r', window.Room units r' → r ≤ r' := by
  constructor
  · intro hfound
    refine ⟨findHole_room hunits hfound, fun r' hroom => ?_⟩
    obtain ⟨r'', hfound', hle⟩ := findHole_first hunits hroom
    rw [hfound] at hfound'
    obtain rfl := Option.some.inj hfound'
    exact hle
  · rintro ⟨hroom, hleast⟩
    obtain ⟨r'', hfound, hle⟩ := findHole_first hunits hroom
    rw [hfound, le_antisymm hle (hleast r'' (findHole_room hunits hfound))]

theorem findHole_eq_none_iff (hunits : 0 < units) :
    findHole window units = none ↔ ∀ r, ¬window.Room units r := by
  constructor
  · intro hnone r hroom
    obtain ⟨r', hfound, _⟩ := findHole_first hunits hroom
    rw [hnone] at hfound
    exact absurd hfound (by simp)
  · intro hno
    cases hfound : findHole window units with
    | none => rfl
    | some r => exact absurd (findHole_room hunits hfound) (hno r)

def holeAt (a : Allocator) (units k : Nat) : Option Nat :=
  let window := a.windows (a.preferredWindows.getD k 0)
  if window.freeUnitCount < units then none else findHole window units

theorem scanPreferred_succ (a : Allocator) (units i : Nat) : a.scanPreferred units (i + 1) =
    match a.holeAt units i with
    | some regionStart => some (i, regionStart)
    | none => a.scanPreferred units i := by
  simp only [scanPreferred, holeAt]
  split_ifs <;> rfl

theorem scanPreferred_some {a : Allocator} {count i : Nat}
    (hfound : a.scanPreferred units count = some (i, r)) :
    i < count ∧ a.holeAt units i = some r ∧ ∀ k, i < k → k < count → a.holeAt units k = none := by
  induction count with
  | zero => exact absurd hfound (by simp [scanPreferred])
  | succ count ih =>
    rw [scanPreferred_succ] at hfound
    cases hhole : a.holeAt units count with
    | some regionStart =>
      rw [hhole] at hfound
      obtain ⟨rfl, rfl⟩ := Prod.mk.inj (Option.some.inj hfound)
      exact ⟨Nat.lt_succ_self _, hhole, fun k hlt hlt' => by omega⟩
    | none =>
      rw [hhole] at hfound
      obtain ⟨hlt, hi, hrest⟩ := ih hfound
      refine ⟨by omega, hi, fun k hk hk' => ?_⟩
      obtain rfl | hk'' := Nat.eq_or_lt_of_le (Nat.le_of_lt_succ hk')
      · exact hhole
      · exact hrest k hk hk''

theorem scanPreferred_none {a : Allocator} {count : Nat}
    (hnone : a.scanPreferred units count = none) (k : Nat) (hk : k < count) :
    a.holeAt units k = none := by
  induction count with
  | zero => omega
  | succ count ih =>
    rw [scanPreferred_succ] at hnone
    cases hhole : a.holeAt units count with
    | some regionStart =>
      rw [hhole] at hnone
      exact absurd hnone (by simp)
    | none =>
      rw [hhole] at hnone
      obtain rfl | hk' := Nat.eq_or_lt_of_le (Nat.le_of_lt_succ hk)
      · exact hhole
      · exact ih hnone hk'

theorem holeAt_some {a : Allocator} {k : Nat} (hhole : a.holeAt units k = some r) :
    units ≤ (a.windows (a.preferredWindows.getD k 0)).freeUnitCount ∧
      findHole (a.windows (a.preferredWindows.getD k 0)) units = some r := by
  simp only [holeAt] at hhole
  split_ifs at hhole with hfree
  exact ⟨Nat.le_of_not_lt hfree, hhole⟩

end Allocator

end Tonk.PktAlloc
