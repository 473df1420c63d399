import Tonk.PktAlloc.PacketAllocator
import Tonk.Lib.Run

set_option autoImplicit false

namespace Tonk.PktAlloc

namespace Allocator

def windowIds (a : Allocator) : List Nat := a.preferredWindows ++ a.fullWindows

def lastUnit (a : Allocator) (ptr : Ptr) : Nat := ptr.unit + (a.regions ptr).usedUnits

def Covers (a : Allocator) (ptr : Ptr) (w j : Nat) : Prop :=
  ptr.block = w ∧ ptr.unit ≤ j ∧ j < a.lastUnit ptr

structure Carved (a : Allocator) (live : Set Ptr) : Prop where
  used_iff : ∀ w ∈ a.windowIds, ∀ j, j < kWindowMaxUnits →
    ((a.windows w).used.check j = true ↔ ∃ ptr ∈ live, a.Covers ptr w j)
  free_add : ∀ w ∈ a.windowIds,
    (a.windows w).freeUnitCount + ((a.windows w).used.bits 0 kWindowMaxUnits).card = kWindowMaxUnits
  resume_le : ∀ w ∈ a.windowIds, (a.windows w).resumeScanOffset ≤ kWindowMaxUnits
  inWindow : ∀ ptr ∈ live, ∀ w, (a.regions ptr).header = some w →
    ptr.block = w ∧ w ∈ a.windowIds ∧ a.lastUnit ptr ≤ kWindowMaxUnits
  fallback : ∀ ptr ∈ live, (a.regions ptr).header = none → ptr.block ∉ a.windowIds ∧ ptr.unit = 0
  used_pos : ∀ ptr ∈ live, 0 < (a.regions ptr).usedUnits
  disjoint : ∀ p ∈ live, ∀ q ∈ live, p ≠ q → p.block = q.block →
    a.lastUnit p ≤ q.unit ∨ a.lastUnit q ≤ p.unit
  fresh : ∀ ptr ∈ live, ptr.block < a.nextBlock

structure Listed (a : Allocator) : Prop where
  nodup : a.windowIds.Nodup
  preferred : ∀ w ∈ a.preferredWindows, (a.windows w).fullListIndex = kNotInFullList
  full : ∀ (i w : Nat), a.fullWindows[i]? = some w → (a.windows w).fullListIndex = i
  fresh : ∀ w ∈ a.windowIds, w < a.nextBlock
  preallocated : a.windowIds.countP (fun w => (a.windows w).preallocated) = kPreallocatedWindows

/-- Another order of the windows, their list indices changed and scans resumed no later. -/
structure Reordered (a a' : Allocator) : Prop where
  perm : a'.windowIds.Perm a.windowIds
  window : ∀ w, (a'.windows w).used = (a.windows w).used ∧
    (a'.windows w).freeUnitCount = (a.windows w).freeUnitCount ∧
    (a'.windows w).preallocated = (a.windows w).preallocated ∧
    (a'.windows w).resumeScanOffset ≤ (a.windows w).resumeScanOffset
  regions : a'.regions = a.regions
  nextBlock : a'.nextBlock = a.nextBlock
  emptyWindowCount : a'.emptyWindowCount = a.emptyWindowCount
  blockBytes : a'.blockBytes = a.blockBytes
  wild : a'.wild = a.wild

theorem Reordered.refl (a : Allocator) : Reordered a a :=
  ⟨.refl _, fun _ => ⟨rfl, rfl, rfl, le_rfl⟩, rfl, rfl, rfl, rfl, rfl⟩

theorem Reordered.trans {a a' a'' : Allocator} (h : Reordered a a') (h' : Reordered a' a'') :
    Reordered a a'' where
  perm := h'.perm.trans h.perm
  window w := by
    obtain ⟨hused, hfree, hpre, hresume⟩ := h.window w
    obtain ⟨hused', hfree', hpre', hresume'⟩ := h'.window w
    exact ⟨hused'.trans hused, hfree'.trans hfree, hpre'.trans hpre, hresume'.trans hresume⟩
  regions := h'.regions.trans h.regions
  nextBlock := h'.nextBlock.trans h.nextBlock
  emptyWindowCount := h'.emptyWindowCount.trans h.emptyWindowCount
  blockBytes := h'.blockBytes.trans h.blockBytes
  wild := h'.wild.trans h.wild

theorem Reordered.mem_windowIds {a a' : Allocator} (h : Reordered a a') (w : Nat) :
    w ∈ a'.windowIds ↔ w ∈ a.windowIds := h.perm.mem_iff

theorem Reordered.lastUnit_eq {a a' : Allocator} (h : Reordered a a') (ptr : Ptr) :
    a'.lastUnit ptr = a.lastUnit ptr := by
  rw [lastUnit, lastUnit, h.regions]

theorem Carved.reordered {a a' : Allocator} {live : Set Ptr} (hc : a.Carved live)
    (h : Reordered a a') : a'.Carved live where
  used_iff w hw j hj := by
    rw [(h.window w).1, hc.used_iff w ((h.mem_windowIds w).1 hw) j hj]
    simp only [Covers, h.lastUnit_eq]
  free_add w hw := by
    rw [(h.window w).1, (h.window w).2.1]
    exact hc.free_add w ((h.mem_windowIds w).1 hw)
  resume_le w hw := (h.window w).2.2.2.trans (hc.resume_le w ((h.mem_windowIds w).1 hw))
  inWindow ptr hptr w hw := by
    rw [h.regions] at hw
    rw [h.lastUnit_eq, h.mem_windowIds]
    exact hc.inWindow ptr hptr w hw
  fallback ptr hptr hnone := by
    rw [h.regions] at hnone
    rw [h.mem_windowIds]
    exact hc.fallback ptr hptr hnone
  used_pos ptr hptr := by
    rw [h.regions]
    exact hc.used_pos ptr hptr
  disjoint p hp q hq hne hblock := by
    rw [h.lastUnit_eq, h.lastUnit_eq]
    exact hc.disjoint p hp q hq hne hblock
  fresh ptr hptr := by
    rw [h.nextBlock]
    exact hc.fresh ptr hptr

theorem Reordered.countP_preallocated {a a' : Allocator} (h : Reordered a a') :
    a'.windowIds.countP (fun w => (a'.windows w).preallocated) =
      a.windowIds.countP fun w => (a.windows w).preallocated := by
  rw [h.perm.countP_eq]
  exact List.countP_congr fun w _ => by rw [(h.window w).2.2.1]

section Lists

variable {a : Allocator}

theorem moveLastWindowToFull_of_getLast? {w : Nat} (hlast : a.preferredWindows.getLast? = some w) :
    a.moveLastWindowToFull = { a with
      preferredWindows := a.preferredWindows.dropLast
      fullWindows := a.fullWindows ++ [w] }.setWindow w
        { a.windows w with fullListIndex := a.fullWindows.length } := by
  rw [moveLastWindowToFull, hlast]

theorem moveLastWindowToFull_reordered (a : Allocator) : Reordered a a.moveLastWindowToFull := by
  cases hlast : a.preferredWindows.getLast? with
  | none =>
    rw [moveLastWindowToFull, hlast]
    exact .refl a
  | some w =>
    rw [moveLastWindowToFull_of_getLast? hlast]
    refine ⟨?_, fun v => ?_, rfl, rfl, rfl, rfl, rfl⟩
    · have hpreferred : a.preferredWindows = a.preferredWindows.dropLast ++ [w] :=
        (List.dropLast_append_getLast? w hlast).symm
      simp only [windowIds, setWindow]
      conv_rhs => rw [hpreferred]
      rw [List.append_assoc]
      exact List.perm_append_comm.append_left _
    · simp only [setWindow, Function.update_apply]
      split_ifs with h
      · subst h
        exact ⟨rfl, rfl, rfl, le_rfl⟩
      · exact ⟨rfl, rfl, rfl, le_rfl⟩

theorem Listed.moveLastWindowToFull (hl : a.Listed) : a.moveLastWindowToFull.Listed := by
  have hr := moveLastWindowToFull_reordered a
  refine ⟨hr.perm.nodup_iff.2 hl.nodup, ?_, ?_, fun w hw => ?_, ?_⟩
  · cases hlast : a.preferredWindows.getLast? with
    | none =>
      rw [Allocator.moveLastWindowToFull, hlast]
      exact hl.preferred
    | some w =>
      have hnodup := hl.nodup
      rw [windowIds, ← List.dropLast_append_getLast? w hlast] at hnodup
      rw [moveLastWindowToFull_of_getLast? hlast]
      intro v hv
      have hne : v ≠ w := by
        rintro rfl
        have := (List.nodup_append.1 hnodup).1
        exact (List.nodup_append.1 this).2.2 v hv v (by simp) rfl
      simp only [setWindow, Function.update_of_ne hne]
      exact hl.preferred v (List.mem_of_mem_dropLast hv)
  · cases hlast : a.preferredWindows.getLast? with
    | none =>
      rw [Allocator.moveLastWindowToFull, hlast]
      exact hl.full
    | some w =>
      rw [moveLastWindowToFull_of_getLast? hlast]
      intro i v hv
      simp only [setWindow] at hv ⊢
      rcases Nat.lt_or_ge i a.fullWindows.length with hlt | hge
      · rw [List.getElem?_append_left hlt] at hv
        have hne : v ≠ w := by
          rintro rfl
          exact (List.nodup_append.1 hl.nodup).2.2 v (List.mem_of_getLast? hlast) v
            (List.mem_of_getElem? hv) rfl
        rw [Function.update_of_ne hne]
        exact hl.full i v hv
      · rw [List.getElem?_append_right hge, List.getElem?_singleton] at hv
        split_ifs at hv with hi
        obtain rfl := Option.some.inj hv
        rw [Function.update_self, show i = a.fullWindows.length by omega]
  · rw [hr.mem_windowIds] at hw
    rw [hr.nextBlock]
    exact hl.fresh w hw
  · rw [hr.countP_preallocated]
    exact hl.preallocated

theorem moveLastFewWindowsToFull_reordered (a : Allocator) (count : Nat) :
    Reordered a (a.moveLastFewWindowsToFull count) := by
  induction count generalizing a with
  | zero => exact .refl a
  | succ count ih => exact (moveLastWindowToFull_reordered a).trans (ih _)

theorem Listed.moveLastFewWindowsToFull (hl : a.Listed) (count : Nat) :
    (a.moveLastFewWindowsToFull count).Listed := by
  induction count generalizing a with
  | zero => exact hl
  | succ count ih => exact ih hl.moveLastWindowToFull

end Lists

section Carve

variable {b : Build} {a : Allocator} {live : Set Ptr} {w r units : Nat}

theorem carve_windows (v : Nat) : (a.carve b w r units).windows v =
    if v = w then { a.windows w with
      freeUnitCount := (a.windows w).freeUnitCount - units
      used := (a.windows w).used.setRange r (r + units)
      resumeScanOffset := r + units }
    else a.windows v := by
  simp only [carve, setWindow, Function.update_apply]
  rfl

theorem carve_regions (ptr : Ptr) : (a.carve b w r units).regions ptr =
    if ptr = ⟨w, r⟩ then ⟨some w, units⟩ else a.regions ptr := by
  simp only [carve, setWindow, setRegion, Function.update_apply]

theorem carve_windowIds : (a.carve b w r units).windowIds = a.windowIds := rfl

theorem Carved.not_live (hc : a.Carved live) (hw : w ∈ a.windowIds)
    (hroom : (a.windows w).Room units r) (hunits : 0 < units) : (⟨w, r⟩ : Ptr) ∉ live := by
  intro hlive
  have hlt := hroom.2.1
  have hclear := hroom.2.2 r le_rfl (by omega)
  have hpos := hc.used_pos _ hlive
  rw [(hc.used_iff w hw r (by omega)).2 ⟨_, hlive, rfl, le_rfl, Nat.lt_add_of_pos_right hpos⟩] at hclear
  exact absurd hclear (by decide)

theorem Carved.carve (hc : a.Carved live) (hw : w ∈ a.windowIds) (hnext : w < a.nextBlock)
    (hroom : (a.windows w).Room units r) (hunits : 0 < units)
    (hfree : units ≤ (a.windows w).freeUnitCount) :
    (a.carve b w r units).Carved (insert ⟨w, r⟩ live) := by
  have hnot := hc.not_live hw hroom hunits
  have hne (ptr : Ptr) (hptr : ptr ∈ live) : ptr ≠ ⟨w, r⟩ := fun h => hnot (h ▸ hptr)
  have hregions (ptr : Ptr) (hptr : ptr ∈ live) :
      (a.carve b w r units).regions ptr = a.regions ptr := by
    rw [carve_regions, if_neg (hne ptr hptr)]
  have hlast (ptr : Ptr) (hptr : ptr ∈ live) :
      (a.carve b w r units).lastUnit ptr = a.lastUnit ptr := by
    rw [lastUnit, lastUnit, hregions ptr hptr]
  have hnew : (a.carve b w r units).regions ⟨w, r⟩ = ⟨some w, units⟩ := by
    rw [carve_regions, if_pos rfl]
  have hlastNew : (a.carve b w r units).lastUnit ⟨w, r⟩ = r + units := by rw [lastUnit, hnew]
  obtain ⟨hresume, hspace, hclear⟩ := hroom
  -- the units of a live allocation of the window are set, those of the region clear
  have hapart (q : Ptr) (hq : q ∈ live) (hblock : q.block = w) :
      a.lastUnit q ≤ r ∨ r + units ≤ q.unit := by
    by_contra h
    have hpos := hc.used_pos q hq
    have hbounds : max q.unit r < a.lastUnit q ∧ max q.unit r < r + units := by
      have : q.unit < a.lastUnit q := Nat.lt_add_of_pos_right hpos
      omega
    have hset := (hc.used_iff w hw (max q.unit r) (by omega)).2
      ⟨q, hq, hblock, le_max_left _ _, hbounds.1⟩
    rw [hclear _ (le_max_right _ _) hbounds.2] at hset
    exact absurd hset (by decide)
  refine ⟨fun v hv j hj => ?_, fun v hv => ?_, fun v hv => ?_, ?_, ?_, ?_, ?_, ?_⟩
  · have hold : (∃ ptr ∈ live, (a.carve b w r units).Covers ptr v j) ↔
        (a.windows v).used.check j = true := by
      rw [hc.used_iff v hv j hj]
      refine exists_congr fun ptr => and_congr_right fun hptr => ?_
      rw [Covers, Covers, hlast ptr hptr]
    rw [Set.exists_mem_insert, hold, Covers, hlastNew, carve_windows]
    split_ifs with h
    · subst h
      rw [CustomBitSet.check_setRange]
      split_ifs with hin
      · simp [hin]
      · simp [hin]
    · simp [Ne.symm h]
  · rw [carve_windows]
    split_ifs with h
    · subst h
      have hadd := hc.free_add v hw
      rw [CustomBitSet.card_bits_setRange _ hspace hclear]
      simp only
      omega
    · exact hc.free_add v hv
  · rw [carve_windows]
    split_ifs with h
    · exact hspace
    · exact hc.resume_le v hv
  · intro ptr hptr v hv
    rcases Set.mem_insert_iff.1 hptr with rfl | hptr
    · rw [hnew] at hv
      obtain rfl := Option.some.inj hv
      exact ⟨rfl, hw, hlastNew ▸ hspace⟩
    · rw [hregions ptr hptr] at hv
      rw [hlast ptr hptr]
      exact hc.inWindow ptr hptr v hv
  · intro ptr hptr hnone
    rcases Set.mem_insert_iff.1 hptr with rfl | hptr
    · rw [hnew] at hnone
      exact absurd hnone (by simp)
    · rw [hregions ptr hptr] at hnone
      exact hc.fallback ptr hptr hnone
  · intro ptr hptr
    rcases Set.mem_insert_iff.1 hptr with rfl | hptr
    · rw [hnew]
      exact hunits
    · rw [hregions ptr hptr]
      exact hc.used_pos ptr hptr
  · intro p hp q hq hpq hblock
    rcases Set.mem_insert_iff.1 hp with rfl | hp <;> rcases Set.mem_insert_iff.1 hq with rfl | hq
    · exact absurd rfl hpq
    · rw [hlastNew, hlast q hq]
      exact (hapart q hq hblock.symm).symm
    · rw [hlastNew, hlast p hp]
      exact hapart p hp hblock
    · rw [hlast p hp, hlast q hq]
      exact hc.disjoint p hp q hq hpq hblock
  · intro ptr hptr
    rcases Set.mem_insert_iff.1 hptr with rfl | hptr
    · exact hnext
    · exact hc.fresh ptr hptr

theorem Listed.carve (hl : a.Listed) : (a.carve b w r units).Listed := by
  refine ⟨hl.nodup, fun v hv => ?_, fun i v hv => ?_, hl.fresh, ?_⟩
  · rw [carve_windows]
    split_ifs with h
    · subst h
      exact hl.preferred v hv
    · exact hl.preferred v hv
  · rw [carve_windows]
    split_ifs with h
    · subst h
      exact hl.full i v hv
    · exact hl.full i v hv
  · rw [← hl.preallocated, carve_windowIds]
    refine List.countP_congr fun v _ => ?_
    rw [carve_windows]
    split_ifs with h
    · subst h
      rfl
    · rfl

end Carve

def isEmpty (a : Allocator) (w : Nat) : Bool :=
  decide (kWindowMaxUnits ≤ (a.windows w).freeUnitCount) && !(a.windows w).preallocated

def addWindow (b : Build) (a : Allocator) : Allocator :=
  { a with
    preferredWindows := a.preferredWindows ++ [a.nextBlock]
    emptyWindowCount := a.emptyWindowCount + if b.shrinks then 1 else 0
    blockBytes := Function.update a.blockBytes a.nextBlock (kWindowMaxUnits * b.kUnitSize)
    nextBlock := a.nextBlock + 1 }.setWindow a.nextBlock (.new false)

theorem allocateFromNewWindow_eq (b : Build) (a : Allocator) (units : Nat) :
    a.allocateFromNewWindow b units true =
      ((a.addWindow b).carve b a.nextBlock 0 units, some ⟨a.nextBlock, 0⟩) := by
  rw [allocateFromNewWindow, if_pos rfl]
  simp only [carve, addWindow, setWindow, setRegion, WindowHeader.new, Function.update_self,
    Function.update_idem, Nat.zero_add, le_refl, and_true, Nat.add_sub_cancel]

def addFallback (b : Build) (a : Allocator) (units : Nat) : Allocator :=
  { a.setRegion ⟨a.nextBlock, 0⟩ ⟨none, units⟩ with
    blockBytes := Function.update a.blockBytes a.nextBlock (b.kUnitSize * units % 2 ^ 32)
    nextBlock := a.nextBlock + 1
    wild := a.wild || decide (b.kUnitSize * units % 2 ^ 32 < b.kUnitSize) }

def fullCount (a : Allocator) (units i regionStart : Nat) : Nat :=
  if kWindowMaxUnits < regionStart + units * 2 then a.preferredWindows.length - 1 - i + 1
  else a.preferredWindows.length - 1 - i

inductive Allocating (b : Build) (a : Allocator) (bytes : Nat) :
    Bool → Allocator × Option Ptr → Prop where
  | zero (granted : Bool) : bytes = 0 → Allocating b a bytes granted (a, none)
  | failed : bytes ≠ 0 → kFallbackThresholdUnits < b.units bytes → Allocating b a bytes false (a, none)
  | fallback : bytes ≠ 0 → kFallbackThresholdUnits < b.units bytes →
      Allocating b a bytes true (a.addFallback b (b.units bytes), some ⟨a.nextBlock, 0⟩)
  | hole (granted : Bool) (i regionStart : Nat) : bytes ≠ 0 →
      b.units bytes ≤ kFallbackThresholdUnits →
      a.scanPreferred (b.units bytes) a.preferredWindows.length = some (i, regionStart) →
      Allocating b a bytes granted
        ((a.carve b (a.preferredWindows.getD i 0) regionStart (b.units bytes)).moveLastFewWindowsToFull
          (a.fullCount (b.units bytes) i regionStart),
          some ⟨a.preferredWindows.getD i 0, regionStart⟩)
  | noWindow : bytes ≠ 0 → b.units bytes ≤ kFallbackThresholdUnits →
      a.scanPreferred (b.units bytes) a.preferredWindows.length = none →
      Allocating b a bytes false (a.moveLastFewWindowsToFull a.preferredWindows.length, none)
  | window : bytes ≠ 0 → b.units bytes ≤ kFallbackThresholdUnits →
      a.scanPreferred (b.units bytes) a.preferredWindows.length = none →
      Allocating b a bytes true
        (((a.moveLastFewWindowsToFull a.preferredWindows.length).addWindow b).carve b
          a.nextBlock 0 (b.units bytes), some ⟨a.nextBlock, 0⟩)

theorem allocate_cases (b : Build) (a : Allocator) (bytes : Nat) (granted : Bool) :
    Allocating b a bytes granted (a.allocate b bytes granted) := by
  unfold allocate
  by_cases hbytes : bytes = 0
  · rw [if_pos hbytes]
    exact .zero granted hbytes
  rw [if_neg hbytes]
  by_cases hfallback : kFallbackThresholdUnits < b.units bytes
  · simp only [if_pos hfallback]
    cases granted with
    | false => exact .failed hbytes hfallback
    | true => exact .fallback hbytes hfallback
  simp only [if_neg hfallback]
  have hle := Nat.le_of_not_lt hfallback
  cases hscan : a.scanPreferred (b.units bytes) a.preferredWindows.length with
  | some found => exact .hole granted found.1 found.2 hbytes hle hscan
  | none =>
    cases granted with
    | false => exact .noWindow hbytes hle hscan
    | true =>
      rw [allocateFromNewWindow_eq, (moveLastFewWindowsToFull_reordered a _).nextBlock]
      exact .window hbytes hle hscan

section Fresh

variable {b : Build} {a : Allocator} {live : Set Ptr}

theorem mem_windowIds_addWindow (w : Nat) :
    w ∈ (a.addWindow b).windowIds ↔ w = a.nextBlock ∨ w ∈ a.windowIds := by
  simp only [windowIds, addWindow, setWindow, List.mem_append, List.mem_singleton]
  grind

theorem addWindow_windows (w : Nat) :
    (a.addWindow b).windows w = if w = a.nextBlock then .new false else a.windows w := by
  simp only [addWindow, setWindow, Function.update_apply]

theorem Carved.addWindow (hc : a.Carved live) : (a.addWindow b).Carved live := by
  refine ⟨fun w hw j hj => ?_, fun w hw => ?_, fun w hw => ?_, fun ptr hptr w hw => ?_,
    fun ptr hptr hnone => ?_, hc.used_pos, hc.disjoint, fun ptr hptr => ?_⟩
  · rw [addWindow_windows]
    split_ifs with h
    · subst h
      have hno : ¬∃ ptr ∈ live, (a.addWindow b).Covers ptr a.nextBlock j := by
        rintro ⟨ptr, hptr, hblock, _⟩
        have := hc.fresh ptr hptr
        omega
      simp [hno, WindowHeader.new]
    · exact hc.used_iff w (((mem_windowIds_addWindow w).1 hw).resolve_left h) j hj
  · rw [addWindow_windows]
    split_ifs with h
    · simp [WindowHeader.new, CustomBitSet.bits]
    · exact hc.free_add w (((mem_windowIds_addWindow w).1 hw).resolve_left h)
  · rw [addWindow_windows]
    split_ifs with h
    · exact Nat.zero_le _
    · exact hc.resume_le w (((mem_windowIds_addWindow w).1 hw).resolve_left h)
  · obtain ⟨hblock, hmem, hlast⟩ := hc.inWindow ptr hptr w hw
    exact ⟨hblock, (mem_windowIds_addWindow w).2 (.inr hmem), hlast⟩
  · obtain ⟨hnot, hunit⟩ := hc.fallback ptr hptr hnone
    refine ⟨fun hmem => ?_, hunit⟩
    rcases (mem_windowIds_addWindow _).1 hmem with h | h
    · exact absurd h (hc.fresh ptr hptr).ne
    · exact hnot h
  · exact (hc.fresh ptr hptr).trans (Nat.lt_succ_self _)

theorem Listed.addWindow (hl : a.Listed) : (a.addWindow b).Listed := by
  have hnot : a.nextBlock ∉ a.windowIds := fun h => lt_irrefl _ (hl.fresh _ h)
  have hperm : (a.addWindow b).windowIds.Perm (a.nextBlock :: a.windowIds) := by
    simp only [windowIds, Allocator.addWindow, setWindow, List.append_assoc]
    exact List.perm_middle
  have hold (w : Nat) (hw : w ∈ a.windowIds) : (a.addWindow b).windows w = a.windows w := by
    rw [addWindow_windows, if_neg]
    rintro rfl
    exact hnot hw
  refine ⟨hperm.nodup_iff.2 (List.nodup_cons.2 ⟨hnot, hl.nodup⟩), fun w hw => ?_, fun i w hw => ?_,
    fun w hw => ?_, ?_⟩
  · rw [addWindow_windows]
    split_ifs with h
    · rfl
    · refine hl.preferred w ?_
      simp only [Allocator.addWindow, setWindow, List.mem_append, List.mem_singleton] at hw
      exact hw.resolve_right h
  · rw [hold w (List.mem_append_right _ (List.mem_of_getElem? hw))]
    exact hl.full i w hw
  · rcases (mem_windowIds_addWindow w).1 hw with rfl | hw
    · exact Nat.lt_succ_self _
    · exact (hl.fresh w hw).trans (Nat.lt_succ_self _)
  · rw [hperm.countP_eq, List.countP_cons, ← hl.preallocated, addWindow_windows, if_pos rfl]
    simp only [WindowHeader.new, Bool.false_eq_true, if_false, Nat.add_zero]
    exact List.countP_congr fun w hw => by rw [hold w hw]

theorem addFallback_regions {units : Nat} (ptr : Ptr) : (a.addFallback b units).regions ptr =
    if ptr = ⟨a.nextBlock, 0⟩ then ⟨none, units⟩ else a.regions ptr := by
  simp only [addFallback, setRegion, Function.update_apply]

theorem Carved.addFallback {units : Nat} (hc : a.Carved live) (hl : a.Listed) (hunits : 0 < units) :
    (a.addFallback b units).Carved (insert ⟨a.nextBlock, 0⟩ live) := by
  have hne (ptr : Ptr) (hptr : ptr ∈ live) : ptr ≠ ⟨a.nextBlock, 0⟩ := by
    rintro rfl
    exact lt_irrefl _ (hc.fresh _ hptr)
  have hregions (ptr : Ptr) (hptr : ptr ∈ live) :
      (a.addFallback b units).regions ptr = a.regions ptr := by
    rw [addFallback_regions, if_neg (hne ptr hptr)]
  have hlast (ptr : Ptr) (hptr : ptr ∈ live) :
      (a.addFallback b units).lastUnit ptr = a.lastUnit ptr := by
    rw [lastUnit, lastUnit, hregions ptr hptr]
  have hnew : (a.addFallback b units).regions ⟨a.nextBlock, 0⟩ = ⟨none, units⟩ := by
    rw [addFallback_regions, if_pos rfl]
  have hnot (w : Nat) (hw : w ∈ a.windowIds) : a.nextBlock ≠ w := (hl.fresh w hw).ne'
  refine ⟨fun w hw j hj => ?_, hc.free_add, hc.resume_le, ?_, ?_, ?_, ?_, ?_⟩
  · have hold : (∃ ptr ∈ live, (a.addFallback b units).Covers ptr w j) ↔
        ∃ ptr ∈ live, a.Covers ptr w j := by
      refine exists_congr fun ptr => and_congr_right fun hptr => ?_
      rw [Covers, Covers, hlast ptr hptr]
    rw [Set.exists_mem_insert, hold, Covers]
    simp only [hnot w hw, false_and, false_or]
    exact hc.used_iff w hw j hj
  · intro ptr hptr w hw
    rcases Set.mem_insert_iff.1 hptr with rfl | hptr
    · rw [hnew] at hw
      exact absurd hw (by simp)
    · rw [hregions ptr hptr] at hw
      rw [hlast ptr hptr]
      exact hc.inWindow ptr hptr w hw
  · intro ptr hptr hnone
    rcases Set.mem_insert_iff.1 hptr with rfl | hptr
    · exact ⟨fun hmem => lt_irrefl _ (hl.fresh _ hmem), rfl⟩
    · rw [hregions ptr hptr] at hnone
      exact hc.fallback ptr hptr hnone
  · intro ptr hptr
    rcases Set.mem_insert_iff.1 hptr with rfl | hptr
    · rw [hnew]
      exact hunits
    · rw [hregions ptr hptr]
      exact hc.used_pos ptr hptr
  · intro p hp q hq hpq hblock
    rcases Set.mem_insert_iff.1 hp with rfl | hp <;> rcases Set.mem_insert_iff.1 hq with rfl | hq
    · exact absurd rfl hpq
    · exact absurd hblock (hc.fresh q hq).ne'
    · exact absurd hblock (hc.fresh p hp).ne
    · rw [hlast p hp, hlast q hq]
      exact hc.disjoint p hp q hq hpq hblock
  · intro ptr hptr
    rcases Set.mem_insert_iff.1 hptr with rfl | hptr
    · exact Nat.lt_succ_self _
    · exact (hc.fresh ptr hptr).trans (Nat.lt_succ_self _)

theorem Listed.addFallback {units : Nat} (hl : a.Listed) : (a.addFallback b units).Listed :=
  ⟨hl.nodup, hl.preferred, hl.full, fun w hw => (hl.fresh w hw).trans (Nat.lt_succ_self _),
    hl.preallocated⟩

end Fresh

def cut (a : Allocator) (ptr : Ptr) (w needed : Nat) : Allocator :=
  let window := a.windows w
  (a.setRegion ptr { a.regions ptr with usedUnits := needed }).setWindow w { window with
    resumeScanOffset :=
      if ptr.unit + needed < window.resumeScanOffset then ptr.unit + needed
      else window.resumeScanOffset
    used := window.used.clearRange (ptr.unit + needed) (ptr.unit + (a.regions ptr).usedUnits)
    freeUnitCount := window.freeUnitCount + ((a.regions ptr).usedUnits - needed) }

theorem release_eq (a : Allocator) (ptr : Ptr) (w : Nat) : a.release ptr w = a.cut ptr w 0 := rfl

section Cut

variable {a : Allocator} {live : Set Ptr} {ptr : Ptr} {w needed : Nat}

theorem cut_windows (v : Nat) : (a.cut ptr w needed).windows v =
    if v = w then { a.windows w with
      resumeScanOffset :=
        if ptr.unit + needed < (a.windows w).resumeScanOffset then ptr.unit + needed
        else (a.windows w).resumeScanOffset
      used := (a.windows w).used.clearRange (ptr.unit + needed) (a.lastUnit ptr)
      freeUnitCount := (a.windows w).freeUnitCount + ((a.regions ptr).usedUnits - needed) }
    else a.windows v := by
  simp only [cut, setWindow, Function.update_apply]
  rfl

theorem cut_regions (q : Ptr) : (a.cut ptr w needed).regions q =
    if q = ptr then { a.regions ptr with usedUnits := needed } else a.regions q := by
  simp only [cut, setWindow, setRegion, Function.update_apply]

theorem cut_header (q : Ptr) : ((a.cut ptr w needed).regions q).header = (a.regions q).header := by
  rw [cut_regions]
  split_ifs with h
  · rw [h]
  · rfl

theorem cut_lastUnit (q : Ptr) : (a.cut ptr w needed).lastUnit q =
    if q = ptr then ptr.unit + needed else a.lastUnit q := by
  rw [lastUnit, cut_regions]
  split_ifs with h
  · rw [h]
  · rfl

theorem Carved.cut (hc : a.Carved live) (hptr : ptr ∈ live) (hheader : (a.regions ptr).header = some w)
    (hle : needed ≤ (a.regions ptr).usedUnits) :
    (a.cut ptr w needed).Carved {p ∈ live | p = ptr → 0 < needed} := by
  obtain ⟨hblock, hw, hlast⟩ := hc.inWindow ptr hptr w hheader
  have hlastLe (q : Ptr) : (a.cut ptr w needed).lastUnit q ≤ a.lastUnit q := by
    rw [cut_lastUnit]
    split_ifs with h
    · subst h
      exact Nat.add_le_add_left hle _
    · exact le_rfl
  refine ⟨fun v hv j hj => ?_, fun v hv => ?_, fun v hv => ?_, ?_, ?_, ?_, ?_, ?_⟩
  · rw [cut_windows]
    by_cases hvw : v = w
    · subst hvw
      rw [if_pos rfl]
      simp only [CustomBitSet.check_clearRange]
      by_cases hin : ptr.unit + needed ≤ j ∧ j < a.lastUnit ptr
      · -- given back: the other allocations do not have it either
        rw [if_pos hin]
        simp only [Bool.false_eq_true, false_iff]
        rintro ⟨q, ⟨hq, _⟩, hqblock, hfirst, hqlast⟩
        by_cases hqp : q = ptr
        · rw [cut_lastUnit, if_pos hqp] at hqlast
          omega
        · rw [cut_lastUnit, if_neg hqp] at hqlast
          have := hc.disjoint q hq ptr hptr hqp (hqblock.trans hblock.symm)
          omega
      · rw [if_neg hin, hc.used_iff v hv j hj]
        constructor
        · rintro ⟨q, hq, hqblock, hfirst, hqlast⟩
          by_cases hqp : q = ptr
          · subst hqp
            refine ⟨q, ⟨hq, fun _ => by omega⟩, hqblock, hfirst, ?_⟩
            rw [cut_lastUnit, if_pos rfl]
            omega
          · refine ⟨q, ⟨hq, fun h => absurd h hqp⟩, hqblock, hfirst, ?_⟩
            rw [cut_lastUnit, if_neg hqp]
            exact hqlast
        · rintro ⟨q, ⟨hq, _⟩, hqblock, hfirst, hqlast⟩
          exact ⟨q, hq, hqblock, hfirst, hqlast.trans_le (hlastLe q)⟩
    · rw [if_neg hvw, hc.used_iff v hv j hj]
      constructor
      · rintro ⟨q, hq, hqblock, hfirst, hqlast⟩
        have hqp : q ≠ ptr := by
          rintro rfl
          exact hvw (hqblock.symm.trans hblock)
        refine ⟨q, ⟨hq, fun h => absurd h hqp⟩, hqblock, hfirst, ?_⟩
        rw [cut_lastUnit, if_neg hqp]
        exact hqlast
      · rintro ⟨q, ⟨hq, _⟩, hqblock, hfirst, hqlast⟩
        exact ⟨q, hq, hqblock, hfirst, hqlast.trans_le (hlastLe q)⟩
  · rw [cut_windows]
    by_cases h : v = w
    · subst h
      rw [if_pos rfl]
      have hadd := hc.free_add v hw
      have hset (j : Nat) (hj : ptr.unit + needed ≤ j) (hlt : j < a.lastUnit ptr) :
          (a.windows v).used.check j = true :=
        (hc.used_iff v hw j (by omega)).2 ⟨ptr, hptr, hblock, by omega, hlt⟩
      have hcard := CustomBitSet.card_bits_clearRange _ hlast hset
      simp only [lastUnit] at hcard ⊢
      omega
    · rw [if_neg h]
      exact hc.free_add v hv
  · rw [cut_windows]
    by_cases h : v = w
    · have := hc.resume_le w hw
      rw [if_pos h]
      simp only
      split_ifs <;> omega
    · rw [if_neg h]
      exact hc.resume_le v hv
  · rintro q ⟨hq, _⟩ v hv
    rw [cut_header] at hv
    obtain ⟨hqblock, hmem, hqlast⟩ := hc.inWindow q hq v hv
    exact ⟨hqblock, hmem, (hlastLe q).trans hqlast⟩
  · rintro q ⟨hq, _⟩ hnone
    rw [cut_header] at hnone
    exact hc.fallback q hq hnone
  · rintro q ⟨hq, hpos⟩
    rw [cut_regions]
    split_ifs with h
    · exact hpos h
    · exact hc.used_pos q hq
  · rintro p ⟨hp, _⟩ q ⟨hq, _⟩ hpq hpqblock
    rcases hc.disjoint p hp q hq hpq hpqblock with h | h
    · exact .inl ((hlastLe p).trans h)
    · exact .inr ((hlastLe q).trans h)
  · rintro q ⟨hq, _⟩
    exact hc.fresh q hq

theorem Listed.cut (hl : a.Listed) : (a.cut ptr w needed).Listed := by
  have hindex (v : Nat) : ((a.cut ptr w needed).windows v).fullListIndex =
      (a.windows v).fullListIndex := by
    rw [cut_windows]
    by_cases h : v = w
    · rw [if_pos h, h]
    · rw [if_neg h]
  refine ⟨hl.nodup, fun v hv => ?_, fun i v hv => ?_, hl.fresh, ?_⟩
  · rw [hindex]
    exact hl.preferred v hv
  · rw [hindex]
    exact hl.full i v hv
  · rw [← hl.preallocated]
    refine List.countP_congr fun v _ => ?_
    rw [cut_windows]
    by_cases h : v = w
    · rw [if_pos h, h]
    · rw [if_neg h]

end Cut

section Full

variable {a : Allocator} {live : Set Ptr} {w i : Nat}

def swapRemove (l : List Nat) (i : Nat) : List Nat := (l.set i (l.getD (l.length - 1) 0)).dropLast

theorem swapRemove_getElem? (l : List Nat) (i k : Nat) : (swapRemove l i)[k]? =
    if k < l.length - 1 then if i = k then l[l.length - 1]? else l[k]? else none := by
  rw [swapRemove, List.getElem?_dropLast, List.length_set, List.getElem?_set]
  by_cases hk : k < l.length - 1
  · rw [if_pos hk, if_pos hk]
    by_cases hik : i = k
    · have hlt : l.length - 1 < l.length := by omega
      rw [if_pos hik, if_pos hik, if_pos (by omega), List.getD_eq_getElem?_getD,
        List.getElem?_eq_getElem hlt, Option.getD_some]
    · rw [if_neg hik, if_neg hik]
  · rw [if_neg hk, if_neg hk]

theorem swapRemove_perm {l : List Nat} (hi : l[i]? = some w) :
    (swapRemove l i ++ [w]).Perm l := by
  rcases List.eq_nil_or_concat l with rfl | ⟨front, last, rfl⟩
  · exact absurd hi (by simp)
  · rw [List.concat_eq_append] at hi ⊢
    obtain ⟨hlt, hget⟩ := List.getElem?_eq_some_iff.1 hi
    have hlast : (front ++ [last]).getD ((front ++ [last]).length - 1) 0 = last := by simp
    rw [swapRemove, hlast]
    rcases Nat.lt_or_ge i front.length with hfront | hfront
    · rw [List.set_append_left _ _ hfront, List.dropLast_concat]
      rw [List.getElem_append_left hfront] at hget
      have hsplit : front = front.take i ++ w :: front.drop (i + 1) := by
        rw [← hget, List.getElem_cons_drop, List.take_append_drop]
      rw [List.set_eq_take_append_cons_drop, if_pos hfront]
      conv_rhs => rw [hsplit]
      simp only [List.append_assoc, List.cons_append]
      refine List.Perm.append_left _ ?_
      calc (last :: (front.drop (i + 1) ++ [w])).Perm (last :: w :: front.drop (i + 1)) :=
            (List.perm_append_singleton _ _).cons _
        _ |>.Perm (w :: last :: front.drop (i + 1)) := .swap _ _ _
        _ |>.Perm (w :: (front.drop (i + 1) ++ [last])) :=
            ((List.perm_append_singleton _ _).symm).cons _
    · have hilast : i = front.length := by
        simp only [List.length_append, List.length_singleton] at hlt
        omega
      subst hilast
      rw [List.getElem_append_right le_rfl] at hget
      simp only [Nat.sub_self, List.getElem_cons_zero] at hget
      rw [List.set_append_right _ _ le_rfl, hget]
      simp

theorem Listed.fullIndex (hl : a.Listed) (hw : w ∈ a.windowIds)
    (hindex : (a.windows w).fullListIndex ≠ kNotInFullList) :
    a.fullWindows[(a.windows w).fullListIndex.toNat]? = some w := by
  rcases List.mem_append.1 hw with hp | hf
  · exact absurd (hl.preferred w hp) hindex
  · obtain ⟨i, hi⟩ := List.mem_iff_getElem?.1 hf
    rw [hl.full i w hi]
    exact hi

theorem promote_fullWindows (hi : a.fullWindows[(a.windows w).fullListIndex.toNat]? = some w) :
    (a.promote w).fullWindows = swapRemove a.fullWindows (a.windows w).fullListIndex.toNat := by
  obtain ⟨hlt, hget⟩ := List.getElem?_eq_some_iff.1 hi
  simp only [promote, swapRemove]
  by_cases hlast : (a.windows w).fullListIndex.toNat < a.fullWindows.length - 1
  · rw [if_pos hlast]
    rfl
  · rw [if_neg hlast]
    have hself : a.fullWindows.set (a.windows w).fullListIndex.toNat
        (a.fullWindows.getD (a.fullWindows.length - 1) 0) = a.fullWindows := by
      rw [show a.fullWindows.length - 1 = (a.windows w).fullListIndex.toNat by omega,
        List.getD_eq_getElem?_getD, hi, Option.getD_some]
      have hsame := List.set_getElem_self hlt
      rwa [hget] at hsame
    rw [hself]
    rfl

theorem promote_preferredWindows : (a.promote w).preferredWindows = a.preferredWindows ++ [w] := by
  simp only [promote, setWindow]
  split_ifs <;> rfl

theorem promote_windows (v : Nat) : (a.promote w).windows v =
    if v = w then { a.windows w with resumeScanOffset := 0, fullListIndex := kNotInFullList }
    else if (a.windows w).fullListIndex.toNat < a.fullWindows.length - 1 ∧
        v = a.fullWindows.getD (a.fullWindows.length - 1) 0 then
      { a.windows v with fullListIndex := (a.windows w).fullListIndex.toNat }
    else a.windows v := by
  simp only [promote, setWindow]
  by_cases hlast : (a.windows w).fullListIndex.toNat < a.fullWindows.length - 1
  · rw [if_pos hlast]
    simp only [Function.update_apply, hlast, true_and]
    by_cases hv : v = w
    · rw [if_pos hv, if_pos hv]
      by_cases hw : w = a.fullWindows.getD (a.fullWindows.length - 1) 0
      · rw [if_pos hw, ← hw]
      · rw [if_neg hw]
    · rw [if_neg hv, if_neg hv]
      by_cases hr : v = a.fullWindows.getD (a.fullWindows.length - 1) 0
      · rw [if_pos hr, if_pos hr, ← hr]
      · rw [if_neg hr, if_neg hr]
  · rw [if_neg hlast]
    simp only [Function.update_apply, hlast, false_and, if_false]

theorem promote_reordered (hi : a.fullWindows[(a.windows w).fullListIndex.toNat]? = some w) :
    Reordered a (a.promote w) := by
  have hother : (a.promote w).regions = a.regions ∧ (a.promote w).nextBlock = a.nextBlock ∧
      (a.promote w).emptyWindowCount = a.emptyWindowCount ∧
      (a.promote w).blockBytes = a.blockBytes ∧ (a.promote w).wild = a.wild := by
    simp only [promote, setWindow]
    split_ifs <;> exact ⟨rfl, rfl, rfl, rfl, rfl⟩
  obtain ⟨hregions, hnext, hcount, hblock, hwild⟩ := hother
  refine ⟨?_, fun v => ?_, hregions, hnext, hcount, hblock, hwild⟩
  · rw [windowIds, promote_preferredWindows, promote_fullWindows hi, List.append_assoc, windowIds]
    exact (List.perm_append_comm.trans (swapRemove_perm hi)).append_left _
  · rw [promote_windows]
    split_ifs with h
    · subst h
      exact ⟨rfl, rfl, rfl, Nat.zero_le _⟩
    · exact ⟨rfl, rfl, rfl, le_rfl⟩
    · exact ⟨rfl, rfl, rfl, le_rfl⟩

theorem Listed.promote (hl : a.Listed)
    (hi : a.fullWindows[(a.windows w).fullListIndex.toNat]? = some w) : (a.promote w).Listed := by
  have hr := promote_reordered hi
  have hfullNodup := (List.nodup_append.1 hl.nodup).2.1
  obtain ⟨hlt, hget⟩ := List.getElem?_eq_some_iff.1 hi
  have hapart (v : Nat) (hv : v ∈ a.preferredWindows) (hv' : v ∈ a.fullWindows) : False :=
    (List.nodup_append.1 hl.nodup).2.2 v hv v hv' rfl
  have hinj (j k v : Nat) (hj : a.fullWindows[j]? = some v) (hk : a.fullWindows[k]? = some v) :
      j = k := by
    obtain ⟨hjlt, hjget⟩ := List.getElem?_eq_some_iff.1 hj
    obtain ⟨hklt, hkget⟩ := List.getElem?_eq_some_iff.1 hk
    exact hfullNodup.getElem_inj_iff.1 (hjget.trans hkget.symm)
  have hlast : a.fullWindows[a.fullWindows.length - 1]? =
      some (a.fullWindows.getD (a.fullWindows.length - 1) 0) := by
    rw [List.getD_eq_getElem?_getD, List.getElem?_eq_getElem (by omega), Option.getD_some]
  refine ⟨hr.perm.nodup_iff.2 hl.nodup, fun v hv => ?_, fun k v hk => ?_, fun v hv => ?_, ?_⟩
  · rw [promote_preferredWindows, List.mem_append, List.mem_singleton] at hv
    rw [promote_windows]
    by_cases hvw : v = w
    · rw [if_pos hvw]
    · have hp := hv.resolve_right hvw
      rw [if_neg hvw, if_neg, hl.preferred v hp]
      rintro ⟨_, rfl⟩
      exact hapart _ hp (List.mem_of_getElem? hlast)
  · rw [promote_fullWindows hi, swapRemove_getElem?] at hk
    split_ifs at hk with hklt hki
    · -- the replacement in the slot
      rw [hlast] at hk
      obtain rfl := Option.some.inj hk
      have hne : a.fullWindows.getD (a.fullWindows.length - 1) 0 ≠ w := by
        intro h
        rw [h] at hlast
        have := hinj _ _ _ hi hlast
        omega
      rw [promote_windows, if_neg hne, if_pos ⟨by omega, rfl⟩, ← hki]
    · have hne : v ≠ w := by
        rintro rfl
        exact hki (hinj _ _ _ hi hk)
      rw [promote_windows, if_neg hne, if_neg]
      · exact hl.full k v hk
      · rintro ⟨_, rfl⟩
        have := hinj _ _ _ hk hlast
        omega
  · rw [hr.mem_windowIds] at hv
    rw [hr.nextBlock]
    exact hl.fresh v hv
  · rw [hr.countP_preallocated]
    exact hl.preallocated

structure Cleaned (a a' : Allocator) : Prop where
  removed : ∃ removed : List Nat, (∀ w ∈ removed, a.isEmpty w = true) ∧
    a'.emptyWindowCount + removed.length = a.emptyWindowCount ∧
    (a'.preferredWindows ++ removed).Perm a.preferredWindows
  fullWindows : a'.fullWindows = a.fullWindows
  windows : a'.windows = a.windows
  regions : a'.regions = a.regions
  nextBlock : a'.nextBlock = a.nextBlock
  blockBytes : a'.blockBytes = a.blockBytes
  bytes : a'.bytes = a.bytes
  wild : a'.wild = a.wild

theorem Cleaned.refl (a : Allocator) : Cleaned a a :=
  ⟨⟨[], by simp, rfl, by simp⟩, rfl, rfl, rfl, rfl, rfl, rfl, rfl⟩

theorem freeEmptyWindowsFrom_cleaned (a : Allocator) {i count : Nat}
    (hcount : i + count = a.preferredWindows.length)
    (hmany : kEmptyWindowMinimum < a.emptyWindowCount) :
    Cleaned a (a.freeEmptyWindowsFrom i count) := by
  induction count generalizing a i with
  | zero => exact .refl a
  | succ count ih =>
    rw [freeEmptyWindowsFrom]
    by_cases hkeep : (a.windows (a.preferredWindows.getD i 0)).freeUnitCount < kWindowMaxUnits ∨
        (a.windows (a.preferredWindows.getD i 0)).preallocated = true
    · rw [if_pos hkeep]
      exact ih a (by omega) hmany
    · have hget : a.preferredWindows[i]? = some (a.preferredWindows.getD i 0) := by
        rw [List.getD_eq_getElem?_getD, List.getElem?_eq_getElem (by omega), Option.getD_some]
      have hempty : a.isEmpty (a.preferredWindows.getD i 0) = true := by
        simp only [isEmpty, Bool.and_eq_true, decide_eq_true_eq, Bool.not_eq_true']
        push Not at hkeep
        exact ⟨hkeep.1, by simpa using hkeep.2⟩
      have hperm := swapRemove_perm hget
      have hlength := hperm.length_eq
      rw [List.length_append, List.length_singleton] at hlength
      have hone (a' : Allocator) (h : Cleaned { a with
            preferredWindows := swapRemove a.preferredWindows i
            emptyWindowCount := a.emptyWindowCount - 1 } a') : Cleaned a a' := by
        obtain ⟨removed, hall, hsum, hperm'⟩ := h.removed
        refine ⟨⟨removed ++ [a.preferredWindows.getD i 0], fun v hv => ?_, ?_, ?_⟩, h.fullWindows,
          h.windows, h.regions, h.nextBlock, h.blockBytes, h.bytes, h.wild⟩
        · rcases List.mem_append.1 hv with hv | hv
          · exact hall v hv
          · rw [List.mem_singleton.1 hv]
            exact hempty
        · simp only [List.length_append, List.length_singleton] at hsum ⊢
          omega
        · rw [← List.append_assoc]
          exact (hperm'.append_right _).trans hperm
      rw [if_neg hkeep]
      simp only
      split_ifs with hfew
      · exact hone _ (.refl _)
      · refine hone _ (ih _ ?_ (Nat.lt_of_not_le hfew))
        show i + count = (swapRemove a.preferredWindows i).length
        omega

theorem freeEmptyWindows_cleaned (a : Allocator) : Cleaned a a.freeEmptyWindows := by
  rw [freeEmptyWindows]
  split_ifs with hfew
  · exact .refl a
  · exact freeEmptyWindowsFrom_cleaned a (Nat.zero_add _) (Nat.lt_of_not_le hfew)

theorem Cleaned.isEmpty_eq {a' : Allocator} (h : Cleaned a a') (w : Nat) :
    a'.isEmpty w = a.isEmpty w := by
  rw [isEmpty, isEmpty, h.windows]

theorem Cleaned.perm {a' : Allocator} (h : Cleaned a a') : ∃ removed : List Nat,
    (∀ w ∈ removed, a.isEmpty w = true) ∧ a'.emptyWindowCount + removed.length = a.emptyWindowCount ∧
      (a'.windowIds ++ removed).Perm a.windowIds := by
  obtain ⟨removed, hall, hsum, hperm⟩ := h.removed
  refine ⟨removed, hall, hsum, ?_⟩
  rw [windowIds, h.fullWindows, windowIds]
  calc (a'.preferredWindows ++ a.fullWindows ++ removed).Perm
        (a'.preferredWindows ++ removed ++ a.fullWindows) := by
          rw [List.append_assoc, List.append_assoc]
          exact List.perm_append_comm.append_left _
    _ |>.Perm (a.preferredWindows ++ a.fullWindows) := hperm.append_right _

theorem Cleaned.windowIds_subset {a' : Allocator} (h : Cleaned a a') {w : Nat}
    (hw : w ∈ a'.windowIds) : w ∈ a.windowIds := by
  obtain ⟨removed, _, _, hperm⟩ := h.perm
  exact hperm.mem_iff.1 (List.mem_append_left _ hw)

theorem Carved.not_isEmpty (hc : a.Carved live) {ptr : Ptr} (hptr : ptr ∈ live)
    (hheader : (a.regions ptr).header = some w) : a.isEmpty w = false := by
  obtain ⟨hblock, hw, hlast⟩ := hc.inWindow ptr hptr w hheader
  have hpos := hc.used_pos ptr hptr
  have hunit : ptr.unit < a.lastUnit ptr := Nat.lt_add_of_pos_right hpos
  have hset := (hc.used_iff w hw ptr.unit (by omega)).2 ⟨ptr, hptr, hblock, le_rfl, hunit⟩
  have hcard : 0 < ((a.windows w).used.bits 0 kWindowMaxUnits).card :=
    Finset.card_pos.2 ⟨ptr.unit, (CustomBitSet.mem_bits _ _ _ _).2 ⟨⟨Nat.zero_le _, by omega⟩, hset⟩⟩
  have hadd := hc.free_add w hw
  rw [isEmpty, decide_eq_false (by omega), Bool.false_and]

theorem Carved.cleaned {a' : Allocator} (hc : a.Carved live) (h : Cleaned a a') :
    a'.Carved live := by
  obtain ⟨removed, hall, _, hperm⟩ := h.perm
  have hlast (ptr : Ptr) : a'.lastUnit ptr = a.lastUnit ptr := by rw [lastUnit, lastUnit, h.regions]
  refine ⟨fun w hw j hj => ?_, fun w hw => ?_, fun w hw => ?_, fun ptr hptr w hw => ?_,
    fun ptr hptr hnone => ?_, fun ptr hptr => ?_, fun p hp q hq hne hblock => ?_, fun ptr hptr => ?_⟩
  · rw [h.windows, hc.used_iff w (h.windowIds_subset hw) j hj]
    simp only [Covers, hlast]
  · rw [h.windows]
    exact hc.free_add w (h.windowIds_subset hw)
  · rw [h.windows]
    exact hc.resume_le w (h.windowIds_subset hw)
  · rw [h.regions] at hw
    obtain ⟨hblock, hmem, hle⟩ := hc.inWindow ptr hptr w hw
    rw [hlast]
    refine ⟨hblock, (List.mem_append.1 (hperm.mem_iff.2 hmem)).resolve_right fun hr => ?_, hle⟩
    have := hall w hr
    rw [hc.not_isEmpty hptr hw] at this
    exact absurd this (by decide)
  · rw [h.regions] at hnone
    obtain ⟨hnot, hunit⟩ := hc.fallback ptr hptr hnone
    exact ⟨fun hmem => hnot (h.windowIds_subset hmem), hunit⟩
  · rw [h.regions]
    exact hc.used_pos ptr hptr
  · rw [hlast, hlast]
    exact hc.disjoint p hp q hq hne hblock
  · rw [h.nextBlock]
    exact hc.fresh ptr hptr

theorem Listed.cleaned {a' : Allocator} (hl : a.Listed) (h : Cleaned a a') : a'.Listed := by
  obtain ⟨removed, hall, _, hperm⟩ := h.perm
  refine ⟨?_, fun w hw => ?_, fun i w hi => ?_, fun w hw => ?_, ?_⟩
  · exact (List.nodup_append.1 (hperm.nodup_iff.2 hl.nodup)).1
  · obtain ⟨_, _, _, hpreferred⟩ := h.removed
    rw [h.windows]
    exact hl.preferred w (hpreferred.mem_iff.1 (List.mem_append_left _ hw))
  · rw [h.fullWindows] at hi
    rw [h.windows]
    exact hl.full i w hi
  · rw [h.nextBlock]
    exact hl.fresh w (h.windowIds_subset hw)
  · have hnone : removed.countP (fun w => (a.windows w).preallocated) = 0 := by
      rw [List.countP_eq_zero]
      intro w hw
      have := hall w hw
      simp only [isEmpty, Bool.and_eq_true, Bool.not_eq_true'] at this
      rw [this.2]
      decide
    have hsum := hperm.countP_eq fun w => (a.windows w).preallocated
    rw [List.countP_append, hnone, hl.preallocated] at hsum
    rw [h.windows]
    exact hsum

end Full

theorem countP_update {l : List Nat} {p q : Nat → Bool} {w : Nat} (hnodup : l.Nodup) (hw : w ∈ l)
    (hsame : ∀ v, v ≠ w → q v = p v) :
    l.countP q + (p w).toNat = l.countP p + (q w).toNat := by
  induction l with
  | nil => exact absurd hw (by simp)
  | cons v l ih =>
    obtain ⟨hv, hnodup⟩ := List.nodup_cons.1 hnodup
    rw [List.countP_cons, List.countP_cons]
    by_cases hvw : v = w
    · subst hvw
      have hrest : l.countP q = l.countP p := by
        refine List.countP_congr fun u hu => ?_
        rw [hsame u fun h => hv (h ▸ hu)]
      rw [hrest]
      cases p v <;> cases q v <;> simp
    · have hmem := (List.mem_cons.1 hw).resolve_left (Ne.symm hvw)
      have := ih hnodup hmem
      rw [hsame v hvw]
      omega

structure Kept (b : Build) (a : Allocator) (live : Set Ptr) : Prop where
  carved : a.Carved live
  listed : a.Listed
  windowBytes : ∀ w ∈ a.windowIds, a.blockBytes w = kWindowMaxUnits * b.kUnitSize
  fallbackBytes : ∀ ptr ∈ live, (a.regions ptr).header = none →
    a.blockBytes ptr.block = b.kUnitSize * (a.regions ptr).usedUnits % 2 ^ 32

structure Sound (b : Build) (a : Allocator) (live : Set Ptr) : Prop extends a.Kept b live where
  counted : b.shrinks = true → a.emptyWindowCount = a.windowIds.countP a.isEmpty

section Sound

variable {b : Build} {a a' : Allocator} {live : Set Ptr} {ptr : Ptr} {bytes : Nat} {granted : Bool}

theorem Reordered.isEmpty_eq (h : Reordered a a') (w : Nat) : a'.isEmpty w = a.isEmpty w := by
  rw [isEmpty, isEmpty, (h.window w).2.1, (h.window w).2.2.1]

theorem Kept.reordered (hs : a.Kept b live) (h : Reordered a a') (hl : a'.Listed) :
    a'.Kept b live := by
  refine ⟨hs.carved.reordered h, hl, fun w hw => ?_, fun ptr hptr hnone => ?_⟩
  · rw [h.blockBytes]
    exact hs.windowBytes w ((h.mem_windowIds w).1 hw)
  · rw [h.regions] at hnone ⊢
    rw [h.blockBytes]
    exact hs.fallbackBytes ptr hptr hnone

theorem Sound.reordered (hs : a.Sound b live) (h : Reordered a a') (hl : a'.Listed) :
    a'.Sound b live := by
  refine ⟨hs.toKept.reordered h hl, fun hb => ?_⟩
  rw [h.emptyWindowCount, hs.counted hb, h.perm.countP_eq]
  exact (List.countP_congr fun w _ => by rw [h.isEmpty_eq]).symm

theorem Sound.moveLastFewWindowsToFull (hs : a.Sound b live) (count : Nat) :
    (a.moveLastFewWindowsToFull count).Sound b live :=
  hs.reordered (moveLastFewWindowsToFull_reordered a count) (hs.listed.moveLastFewWindowsToFull count)

theorem copy_reordered (a : Allocator) (newPtr ptr : Ptr) (count : Nat) :
    Reordered a (a.copy b newPtr ptr count) :=
  ⟨.refl _, fun _ => ⟨rfl, rfl, rfl, le_rfl⟩, rfl, rfl, rfl, rfl, rfl⟩

theorem Sound.copy (hs : a.Sound b live) (newPtr ptr : Ptr) (count : Nat) :
    (a.copy b newPtr ptr count).Sound b live :=
  hs.reordered (copy_reordered a newPtr ptr count)
    ⟨hs.listed.nodup, hs.listed.preferred, hs.listed.full, hs.listed.fresh, hs.listed.preallocated⟩

theorem Sound.carve {w r units : Nat} (hs : a.Sound b live) (hw : w ∈ a.windowIds)
    (hroom : (a.windows w).Room units r) (hunits : 0 < units)
    (hfree : units ≤ (a.windows w).freeUnitCount) :
    (a.carve b w r units).Sound b (insert ⟨w, r⟩ live) := by
  have hnot := hs.carved.not_live hw hroom hunits
  refine ⟨⟨hs.carved.carve hw (hs.listed.fresh w hw) hroom hunits hfree, hs.listed.carve,
    hs.windowBytes, fun ptr hptr hnone => ?_⟩, fun hb => ?_⟩
  · rcases Set.mem_insert_iff.1 hptr with rfl | hptr
    · rw [carve_regions, if_pos rfl] at hnone
      exact absurd hnone (by simp)
    · have hne : ptr ≠ ⟨w, r⟩ := fun h => hnot (h ▸ hptr)
      rw [carve_regions, if_neg hne] at hnone ⊢
      exact hs.fallbackBytes ptr hptr hnone
  · have hadd := hs.carved.free_add w hw
    have hupdate := countP_update (p := a.isEmpty) (q := (a.carve b w r units).isEmpty)
      hs.listed.nodup hw fun v hv => by rw [isEmpty, isEmpty, carve_windows, if_neg hv]
    have hafter : (a.carve b w r units).isEmpty w = false := by
      rw [isEmpty, carve_windows, if_pos rfl, decide_eq_false (by simp only; omega), Bool.false_and]
    have hcount : (a.carve b w r units).emptyWindowCount =
        a.emptyWindowCount - (a.isEmpty w).toNat := by
      simp only [Allocator.carve, setWindow, setRegion, hb, true_and, isEmpty]
      by_cases h : kWindowMaxUnits ≤ (a.windows w).freeUnitCount ∧ (a.windows w).preallocated = false
      · rw [if_pos h, decide_eq_true h.1, h.2]
        rfl
      · rw [if_neg h]
        by_cases hfull : kWindowMaxUnits ≤ (a.windows w).freeUnitCount
        · have hpre : (a.windows w).preallocated = true := by simpa [hfull] using h
          rw [decide_eq_true hfull, hpre]
          rfl
        · rw [decide_eq_false hfull]
          rfl
    rw [hafter] at hupdate
    rw [hcount, hs.counted hb, carve_windowIds]
    simp only [Bool.toNat_false] at hupdate
    omega

theorem Sound.addWindow (hs : a.Sound b live) : (a.addWindow b).Sound b live := by
  have hnot : a.nextBlock ∉ a.windowIds := fun h => lt_irrefl _ (hs.listed.fresh _ h)
  refine ⟨⟨hs.carved.addWindow, hs.listed.addWindow, fun w hw => ?_, fun ptr hptr hnone => ?_⟩,
    fun hb => ?_⟩
  · simp only [Allocator.addWindow, setWindow, Function.update_apply]
    split_ifs with h
    · rfl
    · exact hs.windowBytes w (((mem_windowIds_addWindow w).1 hw).resolve_left h)
  · have hblock := hs.fallbackBytes ptr hptr hnone
    simp only [Allocator.addWindow, setWindow]
    rw [Function.update_of_ne (hs.carved.fresh ptr hptr).ne]
    exact hblock
  · have hperm : (a.addWindow b).windowIds.Perm (a.nextBlock :: a.windowIds) := by
      simp only [windowIds, Allocator.addWindow, setWindow, List.append_assoc]
      exact List.perm_middle
    have hold : a.windowIds.countP (a.addWindow b).isEmpty = a.windowIds.countP a.isEmpty := by
      refine List.countP_congr fun w hw => ?_
      rw [isEmpty, isEmpty, addWindow_windows, if_neg]
      rintro rfl
      exact hnot hw
    have hnew : (a.addWindow b).isEmpty a.nextBlock = true := by
      rw [isEmpty, addWindow_windows, if_pos rfl]
      rfl
    rw [hperm.countP_eq, List.countP_cons_of_pos hnew, hold, ← hs.counted hb]
    simp only [Allocator.addWindow, setWindow, hb, if_true]

theorem Sound.addFallback {units : Nat} (hs : a.Sound b live) (hunits : 0 < units) :
    (a.addFallback b units).Sound b (insert ⟨a.nextBlock, 0⟩ live) := by
  refine ⟨⟨hs.carved.addFallback hs.listed hunits, hs.listed.addFallback, fun w hw => ?_,
    fun ptr hptr hnone => ?_⟩, hs.counted⟩
  · simp only [Allocator.addFallback, setRegion]
    rw [Function.update_of_ne (hs.listed.fresh w hw).ne]
    exact hs.windowBytes w hw
  · rcases Set.mem_insert_iff.1 hptr with rfl | hptr
    · rw [addFallback_regions, if_pos rfl]
      simp only [Allocator.addFallback, setRegion, Function.update_self]
    · have hne := (hs.carved.fresh ptr hptr).ne
      have hne' : ptr ≠ ⟨a.nextBlock, 0⟩ := by
        rintro rfl
        exact hne rfl
      rw [addFallback_regions, if_neg hne'] at hnone ⊢
      simp only [Allocator.addFallback, setRegion]
      rw [Function.update_of_ne hne]
      exact hs.fallbackBytes ptr hptr hnone

structure Grown (b : Build) (a a' : Allocator) (ptr : Ptr) (bytes : Nat) : Prop where
  regions : ∀ q, q ≠ ptr → a'.regions q = a.regions q
  used : (a'.regions ptr).usedUnits = b.units bytes
  bytes : a'.bytes = a.bytes

theorem units_pos (b : Build) (bytes : Nat) : 0 < b.units bytes := Nat.succ_pos _

theorem moveLastFewWindowsToFull_bytes (a : Allocator) (count : Nat) :
    (a.moveLastFewWindowsToFull count).bytes = a.bytes := by
  induction count generalizing a with
  | zero => rfl
  | succ count ih =>
    rw [Allocator.moveLastFewWindowsToFull, ih, moveLastWindowToFull]
    cases a.preferredWindows.getLast? <;> rfl

theorem getD_mem_windowIds {i : Nat} (hi : i < a.preferredWindows.length) :
    a.preferredWindows.getD i 0 ∈ a.windowIds := by
  rw [List.getD_eq_getElem?_getD, List.getElem?_eq_getElem hi, Option.getD_some]
  exact List.mem_append_left _ (List.getElem_mem hi)

theorem Sound.allocate_none (hs : a.Sound b live) (h : a.allocate b bytes granted = (a', none)) :
    a'.Sound b live ∧ a'.regions = a.regions ∧ a'.bytes = a.bytes := by
  have hcases := allocate_cases b a bytes granted
  rw [h] at hcases
  cases hcases with
  | zero => exact ⟨hs, rfl, rfl⟩
  | failed => exact ⟨hs, rfl, rfl⟩
  | noWindow =>
    exact ⟨hs.moveLastFewWindowsToFull _, (moveLastFewWindowsToFull_reordered a _).regions,
      moveLastFewWindowsToFull_bytes a _⟩

theorem Sound.allocate_some (hs : a.Sound b live) (h : a.allocate b bytes granted = (a', some ptr)) :
    a'.Sound b (insert ptr live) ∧ ptr ∉ live ∧ Grown b a a' ptr bytes := by
  have hcases := allocate_cases b a bytes granted
  rw [h] at hcases
  cases hcases with
  | fallback =>
    refine ⟨hs.addFallback (units_pos b bytes), fun hmem => lt_irrefl _ (hs.carved.fresh _ hmem),
      fun q hq => ?_, ?_, rfl⟩
    · rw [addFallback_regions, if_neg hq]
    · rw [addFallback_regions, if_pos rfl]
  | hole _ i regionStart hbytes hle hscan =>
    obtain ⟨hi, hhole, _⟩ := scanPreferred_some hscan
    obtain ⟨hfree, hfound⟩ := holeAt_some hhole
    have hroom := findHole_room (units_pos b bytes) hfound
    have hw := getD_mem_windowIds hi
    refine ⟨(hs.carve hw hroom (units_pos b bytes) hfree).moveLastFewWindowsToFull _,
      hs.carved.not_live hw hroom (units_pos b bytes), fun q hq => ?_, ?_, ?_⟩
    · rw [(moveLastFewWindowsToFull_reordered _ _).regions, carve_regions, if_neg hq]
    · rw [(moveLastFewWindowsToFull_reordered _ _).regions, carve_regions, if_pos rfl]
    · rw [moveLastFewWindowsToFull_bytes]
      rfl
  | window hbytes hle hscan =>
    have hmoved := hs.moveLastFewWindowsToFull a.preferredWindows.length
    have hr := moveLastFewWindowsToFull_reordered a a.preferredWindows.length
    have hwindow := addWindow_windows (b := b)
      (a := a.moveLastFewWindowsToFull a.preferredWindows.length) a.nextBlock
    rw [hr.nextBlock, if_pos rfl] at hwindow
    have hw : a.nextBlock ∈
        ((a.moveLastFewWindowsToFull a.preferredWindows.length).addWindow b).windowIds :=
      (mem_windowIds_addWindow _).2 (.inl hr.nextBlock.symm)
    have hspace : b.units bytes ≤ kWindowMaxUnits := hle.trans (by decide)
    refine ⟨hmoved.addWindow.carve hw ?_ (units_pos b bytes) ?_,
      fun hmem => lt_irrefl _ (hs.carved.fresh _ hmem), fun q hq => ?_, ?_, ?_⟩
    · rw [hwindow]
      exact ⟨le_rfl, by simpa using hspace, fun j _ _ => CustomBitSet.check_clearAll j⟩
    · rw [hwindow]
      exact hspace
    · rw [carve_regions, if_neg hq]
      exact congrFun hr.regions q
    · rw [carve_regions, if_pos rfl]
    · exact moveLastFewWindowsToFull_bytes a _

theorem Sound.moveOut_fallback (hs : a.Sound b live) (hptr : ptr ∈ live)
    (hheader : (a.regions ptr).header = none) :
    (a.setRegion ptr { a.regions ptr with usedUnits := 0 }).Sound b (live \ {ptr}) := by
  have hregions (q : Ptr) (hq : q ∈ live \ {ptr}) :
      (a.setRegion ptr { a.regions ptr with usedUnits := 0 }).regions q = a.regions q :=
    Function.update_of_ne hq.2 _ _
  have hlast (q : Ptr) (hq : q ∈ live \ {ptr}) :
      (a.setRegion ptr { a.regions ptr with usedUnits := 0 }).lastUnit q = a.lastUnit q := by
    rw [lastUnit, lastUnit, hregions q hq]
  have hc := hs.carved
  refine ⟨⟨⟨fun w hw j hj => ?_, hc.free_add, hc.resume_le, fun q hq w hw => ?_, fun q hq hnone => ?_,
    fun q hq => ?_, fun p hp q hq hne hblock => ?_, fun q hq => hc.fresh q hq.1⟩,
    ⟨hs.listed.nodup, hs.listed.preferred, hs.listed.full, hs.listed.fresh, hs.listed.preallocated⟩,
    hs.windowBytes, fun q hq hnone => ?_⟩, hs.counted⟩
  · have hold := hc.used_iff w hw j hj
    constructor
    · intro hset
      obtain ⟨q, hq, hcovers⟩ := hold.1 hset
      have hmem : q ∈ live \ {ptr} := by
        refine ⟨hq, ?_⟩
        rintro rfl
        exact (hc.fallback q hq hheader).1 (hcovers.1 ▸ hw)
      refine ⟨q, hmem, ?_⟩
      rw [Covers, hlast q hmem]
      exact hcovers
    · rintro ⟨q, hq, hcovers⟩
      rw [Covers, hlast q hq] at hcovers
      exact hold.2 ⟨q, hq.1, hcovers⟩
  · rw [hregions q hq] at hw
    rw [hlast q hq]
    exact hc.inWindow q hq.1 w hw
  · rw [hregions q hq] at hnone
    exact hc.fallback q hq.1 hnone
  · rw [hregions q hq]
    exact hc.used_pos q hq.1
  · rw [hlast p hp, hlast q hq]
    exact hc.disjoint p hp.1 q hq.1 hne hblock
  · rw [hregions q hq] at hnone ⊢
    exact hs.fallbackBytes q hq.1 hnone

theorem Kept.cut {w needed : Nat} (hs : a.Kept b live) (hptr : ptr ∈ live)
    (hheader : (a.regions ptr).header = some w) (hle : needed ≤ (a.regions ptr).usedUnits) :
    (a.cut ptr w needed).Kept b {p ∈ live | p = ptr → 0 < needed} := by
  refine ⟨hs.carved.cut hptr hheader hle, hs.listed.cut, hs.windowBytes, fun q hq hnone => ?_⟩
  rw [cut_header] at hnone
  have hne : q ≠ ptr := by
    rintro rfl
    rw [hheader] at hnone
    exact absurd hnone (by simp)
  rw [cut_regions, if_neg hne]
  exact hs.fallbackBytes q hq.1 hnone

theorem Kept.cleaned (hs : a.Kept b live) (h : Cleaned a a') : a'.Kept b live := by
  refine ⟨hs.carved.cleaned h, hs.listed.cleaned h, fun w hw => ?_, fun ptr hptr hnone => ?_⟩
  · rw [h.blockBytes]
    exact hs.windowBytes w (h.windowIds_subset hw)
  · rw [h.regions] at hnone ⊢
    rw [h.blockBytes]
    exact hs.fallbackBytes ptr hptr hnone

theorem Kept.recount (hs : a.Kept b live) (count : Nat) :
    { a with emptyWindowCount := count }.Kept b live :=
  ⟨⟨hs.carved.used_iff, hs.carved.free_add, hs.carved.resume_le, hs.carved.inWindow,
      hs.carved.fallback, hs.carved.used_pos, hs.carved.disjoint, hs.carved.fresh⟩,
    ⟨hs.listed.nodup, hs.listed.preferred, hs.listed.full, hs.listed.fresh, hs.listed.preallocated⟩,
    hs.windowBytes, hs.fallbackBytes⟩

theorem Cleaned.countP_isEmpty (h : Cleaned a a')
    (hcounted : a.emptyWindowCount = a.windowIds.countP a.isEmpty) :
    a'.emptyWindowCount = a'.windowIds.countP a'.isEmpty := by
  obtain ⟨removed, hall, hsum, hperm⟩ := h.perm
  have hremoved : removed.countP a.isEmpty = removed.length := List.countP_eq_length.2 hall
  have hcount := hperm.countP_eq a.isEmpty
  rw [List.countP_append, hremoved] at hcount
  rw [show a'.isEmpty = a.isEmpty from funext h.isEmpty_eq]
  omega

theorem promoteIfFree_reordered {w : Nat} (hl : a.Listed) (hw : w ∈ a.windowIds) :
    Reordered a (a.promoteIfFree w) ∧ (a.promoteIfFree w).Listed := by
  rw [promoteIfFree]
  split_ifs with h
  · exact ⟨promote_reordered (hl.fullIndex hw h.2), hl.promote (hl.fullIndex hw h.2)⟩
  · exact ⟨.refl a, hl⟩

theorem promoteIfFree_bytes (a : Allocator) (w : Nat) : (a.promoteIfFree w).bytes = a.bytes := by
  simp only [promoteIfFree, promote, setWindow]
  split_ifs <;> rfl

theorem cleanUp_cleaned (b : Build) (a : Allocator) (w : Nat) :
    Cleaned { a with
      emptyWindowCount := a.emptyWindowCount + if b.shrinks ∧ a.isEmpty w = true then 1 else 0 }
      (a.cleanUp b w) := by
  have hiff : (b.shrinks ∧ kWindowMaxUnits ≤ (a.windows w).freeUnitCount ∧
      (a.windows w).preallocated = false) ↔ (b.shrinks ∧ a.isEmpty w = true) := by
    simp [isEmpty]
  rw [cleanUp]
  by_cases h : b.shrinks ∧ a.isEmpty w = true
  · rw [if_pos h, if_pos (hiff.2 h)]
    simp only
    split_ifs
    · exact freeEmptyWindows_cleaned _
    · exact .refl _
  · rw [if_neg h, if_neg fun h' => h (hiff.1 h')]
    exact .refl _

theorem Sound.free_window {w : Nat} (hs : a.Sound b live) (hptr : ptr ∈ live)
    (hheader : (a.regions ptr).header = some w) :
    (((a.release ptr w).promoteIfFree w).cleanUp b w).Sound b (live \ {ptr}) := by
  obtain ⟨hblock, hw, _⟩ := hs.carved.inWindow ptr hptr w hheader
  have hlive : {p ∈ live | p = ptr → 0 < 0} = live \ {ptr} := by
    ext p
    simp
  have hcut := hs.toKept.cut hptr hheader (Nat.zero_le _)
  rw [hlive] at hcut
  obtain ⟨hr, hl⟩ := promoteIfFree_reordered hcut.listed (show w ∈ (a.cut ptr w 0).windowIds from hw)
  have hclean := cleanUp_cleaned b ((a.release ptr w).promoteIfFree w) w
  have hkept := hcut.reordered hr hl
  refine ⟨(hkept.recount _).cleaned hclean, fun hb => hclean.countP_isEmpty ?_⟩
  -- one more empty window if the allocation was its last
  have hupdate := countP_update (p := a.isEmpty) (q := (a.cut ptr w 0).isEmpty) hs.listed.nodup hw
    fun v hv => by rw [isEmpty, isEmpty, cut_windows, if_neg hv]
  rw [hs.carved.not_isEmpty hptr hheader, Bool.toNat_false, Nat.add_zero, ← hs.counted hb] at hupdate
  have hcount : ((a.release ptr w).promoteIfFree w).windowIds.countP
      ((a.release ptr w).promoteIfFree w).isEmpty =
        a.windowIds.countP (a.cut ptr w 0).isEmpty := by
    rw [show ((a.release ptr w).promoteIfFree w).isEmpty = (a.cut ptr w 0).isEmpty from
      funext hr.isEmpty_eq]
    exact hr.perm.countP_eq _
  have hempty : ((a.release ptr w).promoteIfFree w).emptyWindowCount = a.emptyWindowCount :=
    hr.emptyWindowCount
  show _ = ((a.release ptr w).promoteIfFree w).windowIds.countP
    ((a.release ptr w).promoteIfFree w).isEmpty
  rw [hcount, hupdate, show ((a.release ptr w).promoteIfFree w).isEmpty w = (a.cut ptr w 0).isEmpty w
    from hr.isEmpty_eq w]
  simp only [hempty, hb, true_and]
  cases (a.cut ptr w 0).isEmpty w <;> rfl

theorem free_of_fallback (hused : 0 < (a.regions ptr).usedUnits)
    (hheader : (a.regions ptr).header = none) :
    a.free b (some ptr) = a.setRegion ptr { a.regions ptr with usedUnits := 0 } := by
  simp only [free, if_neg hused.ne', hheader]

theorem free_of_window {w : Nat} (hused : 0 < (a.regions ptr).usedUnits)
    (hheader : (a.regions ptr).header = some w) :
    a.free b (some ptr) = ((a.release ptr w).promoteIfFree w).cleanUp b w := by
  simp only [free, if_neg hused.ne', hheader]

theorem Sound.free (hs : a.Sound b live) (hptr : ptr ∈ live) :
    (a.free b (some ptr)).Sound b (live \ {ptr}) := by
  have hused := hs.carved.used_pos ptr hptr
  cases hheader : (a.regions ptr).header with
  | none =>
    rw [free_of_fallback hused hheader]
    exact hs.moveOut_fallback hptr hheader
  | some w =>
    rw [free_of_window hused hheader]
    exact hs.free_window hptr hheader

theorem Sound.free_others (hs : a.Sound b live) (hptr : ptr ∈ live) :
    (∀ q, q ≠ ptr → (a.free b (some ptr)).regions q = a.regions q) ∧
      (a.free b (some ptr)).bytes = a.bytes := by
  have hused := hs.carved.used_pos ptr hptr
  cases hheader : (a.regions ptr).header with
  | none =>
    rw [free_of_fallback hused hheader]
    exact ⟨fun q hq => Function.update_of_ne hq _ _, rfl⟩
  | some w =>
    obtain ⟨_, hw, _⟩ := hs.carved.inWindow ptr hptr w hheader
    have hr := (promoteIfFree_reordered hs.listed.cut
      (show w ∈ (a.cut ptr w 0).windowIds from hw)).1
    have hclean := cleanUp_cleaned b ((a.release ptr w).promoteIfFree w) w
    rw [free_of_window hused hheader]
    constructor
    · intro q hq
      have hregions : ((a.release ptr w).promoteIfFree w).regions = (a.cut ptr w 0).regions := hr.regions
      rw [hclean.regions]
      simp only [hregions]
      rw [cut_regions, if_neg hq]
    · rw [hclean.bytes]
      exact promoteIfFree_bytes _ w

theorem shrink_of_lt {w : Nat} (hused : b.units bytes < (a.regions ptr).usedUnits)
    (hheader : (a.regions ptr).header = some w) :
    a.shrink b (some ptr) bytes = a.cut ptr w (b.units bytes) := by
  simp only [shrink, if_neg (Nat.zero_lt_of_lt hused).ne', if_pos hused, hheader, Allocator.cut]

theorem shrink_of_not (h : ¬b.units bytes < (a.regions ptr).usedUnits ∨
    (a.regions ptr).header = none) : a.shrink b (some ptr) bytes = a := by
  simp only [shrink]
  split_ifs with hused hlt
  · rfl
  · rw [h.resolve_left (not_not.2 hlt)]
  · rfl

theorem shrink_cases (b : Build) (a : Allocator) (ptr : Ptr) (bytes : Nat) :
    (∃ w, (a.regions ptr).header = some w ∧ b.units bytes < (a.regions ptr).usedUnits ∧
      a.shrink b (some ptr) bytes = a.cut ptr w (b.units bytes)) ∨
    a.shrink b (some ptr) bytes = a := by
  by_cases hlt : b.units bytes < (a.regions ptr).usedUnits
  · cases hheader : (a.regions ptr).header with
    | none => exact .inr (shrink_of_not (.inr hheader))
    | some w => exact .inl ⟨w, rfl, hlt, shrink_of_lt hlt hheader⟩
  · exact .inr (shrink_of_not (.inl hlt))

theorem Sound.shrink (hs : a.Sound b live) (hptr : ptr ∈ live) (bytes : Nat) :
    (a.shrink b (some ptr) bytes).Sound b live := by
  rcases shrink_cases b a ptr bytes with ⟨w, hheader, hlt, heq⟩ | heq
  · obtain ⟨_, hw, _⟩ := hs.carved.inWindow ptr hptr w hheader
    have hlive : {p ∈ live | p = ptr → 0 < b.units bytes} = live := by
      ext p
      simp [units_pos]
    have hcut := hs.toKept.cut hptr hheader hlt.le
    rw [hlive] at hcut
    rw [heq]
    refine ⟨hcut, fun hb => ?_⟩
    have hafter := hcut.carved.not_isEmpty hptr ((cut_header ptr).trans hheader)
    have hupdate := countP_update (p := a.isEmpty) (q := (a.cut ptr w (b.units bytes)).isEmpty)
      hs.listed.nodup hw fun v hv => by rw [isEmpty, isEmpty, cut_windows, if_neg hv]
    rw [hs.carved.not_isEmpty hptr hheader, hafter] at hupdate
    exact (hs.counted hb).trans (Nat.add_right_cancel hupdate).symm
  · rw [heq]
    exact hs

end Sound

end Allocator

end Tonk.PktAlloc
