import Tonk.PktAlloc.Regions
import Mathlib.Order.CompletePartialOrder

set_option autoImplicit false

namespace Tonk.PktAlloc

/-- An allocator, and the size that was asked for at each live pointer. -/
structure Heap where
  allocator : Allocator
  live : Ptr → Option Nat

/-- `granted`: the system has memory if the call needs some. -/
inductive Call where
  | allocate (bytes : Nat) (granted : Bool)
  | reallocate (ptr : Option Ptr) (bytes : Nat) (behavior : Realloc) (granted : Bool)
  | shrink (ptr : Option Ptr) (bytes : Nat)
  | free (ptr : Option Ptr)
  | write (ptr : Ptr) (offset : Nat) (value : UInt8)

def sse : Build := ⟨16, .inl rfl, false⟩

namespace Heap

variable {b : Build} {h h' : Heap} {c : Call} {limit : Nat}

def initial (b : Build) : Heap := ⟨.initial b, fun _ => none⟩

def livePtrs (h : Heap) : Set Ptr := {ptr | h.live ptr ≠ none}

def capacity (b : Build) (h : Heap) (ptr : Ptr) : Nat :=
  ((h.allocator.regions ptr).usedUnits - 1) * b.kUnitSize

/-- A pointer that a call returns is live from then on. -/
def grant (result : Allocator × Option Ptr) (bytes : Nat) (live : Ptr → Option Nat) :
    Ptr → Option Nat :=
  match result.2 with
  | none => live
  | some ptr => Function.update live ptr (some bytes)

/-- Reallocate frees its pointer, unless it keeps the block or fails. -/
def regrant (result : Allocator × Option Ptr) (ptr : Ptr) (bytes : Nat)
    (live : Ptr → Option Nat) : Ptr → Option Nat :=
  match result.2 with
  | none => if bytes = 0 then Function.update live ptr none else live
  | some newPtr => Function.update (Function.update live ptr none) newPtr (some bytes)

def next (b : Build) (h : Heap) : Call → Heap
  | .allocate bytes granted =>
    let result := h.allocator.allocate b bytes granted
    ⟨result.1, grant result bytes h.live⟩
  | .reallocate none bytes behavior granted =>
    let result := h.allocator.reallocate b none bytes behavior granted
    ⟨result.1, grant result bytes h.live⟩
  | .reallocate (some ptr) bytes behavior granted =>
    let result := h.allocator.reallocate b (some ptr) bytes behavior granted
    ⟨result.1, regrant result ptr bytes h.live⟩
  | .shrink none bytes => ⟨h.allocator.shrink b none bytes, h.live⟩
  | .shrink (some ptr) bytes =>
    ⟨h.allocator.shrink b (some ptr) bytes,
      Function.update h.live ptr ((h.live ptr).map fun size => min size bytes)⟩
  | .free none => ⟨h.allocator.free b none, h.live⟩
  | .free (some ptr) => ⟨h.allocator.free b (some ptr), Function.update h.live ptr none⟩
  | .write ptr offset value =>
    ⟨{ h.allocator with
        bytes := Function.update h.allocator.bytes ptr.block
          (Function.update (h.allocator.bytes ptr.block) (b.dataOffset ptr + offset) value) }, h.live⟩

/-- Pointers are null or live, sizes below a limit, and writes within their allocation. -/
def Permitted (b : Build) (limit : Nat) (h : Heap) : Call → Prop
  | .allocate bytes _ => bytes < limit
  | .reallocate ptr bytes _ _ => (∀ p ∈ ptr, p ∈ h.livePtrs) ∧ bytes < limit
  | .shrink ptr bytes => (∀ p ∈ ptr, p ∈ h.livePtrs) ∧ bytes < limit
  | .free ptr => ∀ p ∈ ptr, p ∈ h.livePtrs
  | .write ptr offset _ => ptr ∈ h.livePtrs ∧ offset < h.capacity b ptr

def Step (b : Build) (limit : Nat) (h : Heap) (c : Call) (h' : Heap) : Prop :=
  h.Permitted b limit c ∧ h' = h.next b c

theorem livePtrs_update_some {live : Ptr → Option Nat} {a : Allocator} {ptr : Ptr} {bytes : Nat} :
    (Heap.mk a (Function.update live ptr (some bytes))).livePtrs =
      insert ptr {p | live p ≠ none} := by
  ext p
  simp only [livePtrs, Function.update_apply, Set.mem_ofPred_eq, Set.mem_insert_iff]
  split_ifs with hp <;> simp [hp]

theorem livePtrs_update_none {live : Ptr → Option Nat} {a : Allocator} {ptr : Ptr} :
    (Heap.mk a (Function.update live ptr none)).livePtrs = {p | live p ≠ none} \ {ptr} := by
  ext p
  simp only [livePtrs, Function.update_apply, Set.mem_ofPred_eq, Set.mem_sdiff, Set.mem_singleton_iff]
  split_ifs with hp <;> simp [hp]

theorem sound_initial (b : Build) : (initial b).allocator.Sound b (initial b).livePtrs := by
  have hlive : (initial b).livePtrs = ∅ := by
    ext p
    simp [livePtrs, initial]
  rw [hlive]
  refine ⟨⟨⟨fun w _ j _ => ?_, fun w _ => ?_, fun w _ => Nat.zero_le _, ?_, ?_, ?_, ?_, ?_⟩,
    ⟨by simp [Allocator.windowIds, initial, Allocator.initial, List.nodup_range], fun _ _ => rfl,
      fun i w hi => ?_, fun w hw => ?_, by
        simp [Allocator.windowIds, initial, Allocator.initial, WindowHeader.new]⟩,
    fun _ _ => rfl, ?_⟩, fun _ => (List.countP_eq_zero.2 fun w _ => ?_).symm⟩
  · simp [initial, Allocator.initial, WindowHeader.new]
  · simp [initial, Allocator.initial, WindowHeader.new, CustomBitSet.bits]
  all_goals first | exact fun _ hp => absurd hp (by simp) | skip
  · simp [initial, Allocator.initial] at hi
  · simpa [Allocator.windowIds, initial, Allocator.initial] using hw
  · simp [Allocator.isEmpty, initial, Allocator.initial, WindowHeader.new]

theorem sound_write (hs : h.allocator.Sound b h.livePtrs) (bytes : Nat → Nat → UInt8) :
    Allocator.Sound b { h.allocator with bytes := bytes } h.livePtrs :=
  hs.reordered ⟨.refl _, fun _ => ⟨rfl, rfl, rfl, le_rfl⟩, rfl, rfl, rfl, rfl, rfl⟩
    ⟨hs.listed.nodup, hs.listed.preferred, hs.listed.full, hs.listed.fresh, hs.listed.preallocated⟩

theorem sound_allocate {bytes : Nat} {granted : Bool} (hs : h.allocator.Sound b h.livePtrs) :
    (h.next b (.allocate bytes granted)).allocator.Sound b
      (h.next b (.allocate bytes granted)).livePtrs := by
  rw [next]
  rcases hresult : h.allocator.allocate b bytes granted with ⟨a, _ | ptr⟩
  · exact (hs.allocate_none hresult).1
  · simp only [grant, livePtrs_update_some]
    exact (hs.allocate_some hresult).1

inductive Reallocating (b : Build) (a : Allocator) (ptr : Ptr) (bytes : Nat) (behavior : Realloc)
    (granted : Bool) : Allocator × Option Ptr → Prop where
  | zero : bytes = 0 → Reallocating b a ptr bytes behavior granted (a.free b (some ptr), none)
  | kept : bytes ≠ 0 → b.units bytes ≤ (a.regions ptr).usedUnits →
      Reallocating b a ptr bytes behavior granted (a, some ptr)
  | failed (a' : Allocator) : bytes ≠ 0 → (a.regions ptr).usedUnits < b.units bytes →
      a.allocate b bytes granted = (a', none) →
      Reallocating b a ptr bytes behavior granted (a', none)
  | moved (a' : Allocator) (newPtr : Ptr) : bytes ≠ 0 → (a.regions ptr).usedUnits < b.units bytes →
      a.allocate b bytes granted = (a', some newPtr) →
      Reallocating b a ptr bytes behavior granted
        ((if behavior = .copyExisting then
            a'.copy b newPtr ptr (((a.regions ptr).usedUnits - 1) * b.kUnitSize)
          else a').free b (some ptr), some newPtr)

theorem reallocate_cases (b : Build) (a : Allocator) (ptr : Ptr) (bytes : Nat) (behavior : Realloc)
    (granted : Bool) : Reallocating b a ptr bytes behavior granted
      (a.reallocate b (some ptr) bytes behavior granted) := by
  simp only [Allocator.reallocate]
  by_cases hzero : bytes = 0
  · rw [if_pos hzero]
    exact .zero hzero
  rw [if_neg hzero]
  by_cases hle : b.units bytes ≤ (a.regions ptr).usedUnits
  · rw [if_pos hle]
    exact .kept hzero hle
  rw [if_neg hle]
  rcases hresult : a.allocate b bytes granted with ⟨a', _ | newPtr⟩
  · exact .failed a' hzero (Nat.lt_of_not_le hle) hresult
  · exact .moved a' newPtr hzero (Nat.lt_of_not_le hle) hresult

theorem sound_moved {ptr newPtr : Ptr} {a : Allocator} {bytes : Nat} {granted : Bool}
    (behavior : Realloc) (count : Nat) (hs : h.allocator.Sound b h.livePtrs) (hptr : ptr ∈ h.livePtrs)
    (hresult : h.allocator.allocate b bytes granted = (a, some newPtr)) :
    ((if behavior = .copyExisting then a.copy b newPtr ptr count else a).free b (some ptr)).Sound b
      (insert newPtr (h.livePtrs \ {ptr})) := by
  obtain ⟨hsound, hnot, _⟩ := hs.allocate_some hresult
  have hne : newPtr ≠ ptr := fun heq => hnot (heq ▸ hptr)
  have hcopied : (if behavior = .copyExisting then a.copy b newPtr ptr count else a).Sound b
      (insert newPtr h.livePtrs) := by
    split_ifs
    · exact hsound.copy _ _ _
    · exact hsound
  have hfree := hcopied.free (Set.mem_insert_of_mem _ hptr)
  rwa [Set.insert_sdiff_of_notMem _ (by simpa using hne)] at hfree

theorem sound_reallocate {ptr : Ptr} {bytes : Nat} {behavior : Realloc} {granted : Bool}
    (hs : h.allocator.Sound b h.livePtrs) (hptr : ptr ∈ h.livePtrs) :
    (h.next b (.reallocate (some ptr) bytes behavior granted)).allocator.Sound b
      (h.next b (.reallocate (some ptr) bytes behavior granted)).livePtrs := by
  have hcases := reallocate_cases b h.allocator ptr bytes behavior granted
  simp only [next]
  generalize h.allocator.reallocate b (some ptr) bytes behavior granted = result at hcases ⊢
  cases hcases with
  | zero hzero =>
    simp only [regrant, if_pos hzero, livePtrs_update_none]
    exact hs.free hptr
  | kept =>
    simp only [regrant, Function.update_idem, livePtrs_update_some]
    rw [show insert ptr {p | h.live p ≠ none} = h.livePtrs from Set.insert_eq_of_mem hptr]
    exact hs
  | failed a' hzero _ hresult =>
    simp only [regrant, if_neg hzero]
    exact (hs.allocate_none hresult).1
  | moved a' newPtr hzero _ hresult =>
    simp only [regrant, livePtrs_update_some]
    have hold : {p | Function.update h.live ptr none p ≠ none} = h.livePtrs \ {ptr} :=
      livePtrs_update_none (a := h.allocator)
    rw [hold]
    exact sound_moved behavior _ hs hptr hresult

theorem sound_next (hs : h.allocator.Sound b h.livePtrs) (hc : h.Permitted b limit c) :
    (h.next b c).allocator.Sound b (h.next b c).livePtrs := by
  cases c with
  | allocate bytes granted => exact sound_allocate hs
  | reallocate ptr bytes behavior granted =>
    cases ptr with
    | none => exact sound_allocate hs
    | some ptr => exact sound_reallocate hs (hc.1 ptr rfl)
  | shrink ptr bytes =>
    cases ptr with
    | none => exact hs
    | some ptr =>
      obtain ⟨size, hsize⟩ := Option.ne_none_iff_exists'.1 (hc.1 ptr rfl)
      simp only [next, hsize, Option.map_some, livePtrs_update_some]
      rw [show insert ptr {p | h.live p ≠ none} = h.livePtrs from Set.insert_eq_of_mem (hc.1 ptr rfl)]
      exact hs.shrink (hc.1 ptr rfl) bytes
  | free ptr =>
    cases ptr with
    | none => exact hs
    | some ptr =>
      simp only [next, livePtrs_update_none]
      exact hs.free (hc ptr rfl)
  | write ptr offset value => exact sound_write hs _

theorem sound_run {calls : List Call} (hrun : Transition.Run (Step b limit) (initial b) calls h) :
    h.allocator.Sound b h.livePtrs := by
  refine hrun.invariant (P := fun h => h.allocator.Sound b h.livePtrs) (sound_initial b) ?_
  rintro h c _ hs ⟨hc, rfl⟩
  exact sound_next hs hc

/-- Every live allocation is as large as requested, and its size did not wrap. -/
def Held (b : Build) (h : Heap) : Prop :=
  ∀ ptr size, h.live ptr = some size →
    size ≤ h.capacity b ptr ∧ b.kUnitSize * (h.allocator.regions ptr).usedUnits < 2 ^ 32

theorem units_fit {bytes : Nat} (hlt : bytes < 2 ^ 31) :
    bytes ≤ (b.units bytes - 1) * b.kUnitSize ∧ b.kUnitSize * b.units bytes < 2 ^ 32 := by
  simp only [Build.units, Nat.add_sub_cancel]
  rcases b.kUnitSize_eq with hunit | hunit <;> rw [hunit] <;> omega

theorem capacity_mono {ptr : Ptr} {bytes : Nat}
    (hle : b.units bytes ≤ (h.allocator.regions ptr).usedUnits) (hlt : bytes < 2 ^ 31) :
    bytes ≤ h.capacity b ptr :=
  (units_fit hlt).1.trans (Nat.mul_le_mul_right _ (Nat.sub_le_sub_right hle 1))

theorem held_allocate {bytes : Nat} {granted : Bool} (hs : h.allocator.Sound b h.livePtrs)
    (hheld : h.Held b) (hlt : bytes < 2 ^ 31) :
    (h.next b (.allocate bytes granted)).Held b := by
  rw [next]
  rcases hresult : h.allocator.allocate b bytes granted with ⟨a, _ | ptr⟩
  · intro p size hp
    simp only [capacity, (hs.allocate_none hresult).2.1]
    exact hheld p size hp
  · obtain ⟨_, _, hgrown⟩ := hs.allocate_some hresult
    intro p size hp
    simp only [grant, Function.update_apply] at hp
    simp only [capacity]
    split_ifs at hp with heq
    · obtain rfl := Option.some.inj hp
      rw [heq, hgrown.used]
      exact units_fit hlt
    · rw [hgrown.regions p heq]
      exact hheld p size hp

theorem held_reallocate {ptr : Ptr} {bytes : Nat} {behavior : Realloc} {granted : Bool}
    (hs : h.allocator.Sound b h.livePtrs) (hheld : h.Held b) (hptr : ptr ∈ h.livePtrs)
    (hlt : bytes < 2 ^ 31) : (h.next b (.reallocate (some ptr) bytes behavior granted)).Held b := by
  have hcases := reallocate_cases b h.allocator ptr bytes behavior granted
  simp only [next]
  generalize h.allocator.reallocate b (some ptr) bytes behavior granted = result at hcases ⊢
  intro p size hp
  simp only [capacity]
  cases hcases with
  | zero hzero =>
    simp only [regrant, if_pos hzero, Function.update_apply] at hp
    split_ifs at hp with heq
    rw [(hs.free_others hptr).1 p heq]
    exact hheld p size hp
  | kept _ hle =>
    simp only [regrant, Function.update_apply] at hp
    split_ifs at hp with heq
    · obtain rfl := Option.some.inj hp
      obtain ⟨old, hold⟩ := Option.ne_none_iff_exists'.1 hptr
      rw [heq]
      exact ⟨capacity_mono hle hlt, (hheld ptr old hold).2⟩
    · exact hheld p size hp
  | failed a' hzero _ hresult =>
    simp only [regrant, if_neg hzero] at hp
    rw [(hs.allocate_none hresult).2.1]
    exact hheld p size hp
  | moved a' newPtr _ _ hresult =>
    obtain ⟨hsound, hnot, hgrown⟩ := hs.allocate_some hresult
    have hne : newPtr ≠ ptr := fun heq => hnot (heq ▸ hptr)
    have hregions (q : Ptr) (hq : q ≠ ptr) : ((if behavior = .copyExisting then
        a'.copy b newPtr ptr (((h.allocator.regions ptr).usedUnits - 1) * b.kUnitSize)
        else a').free b (some ptr)).regions q = a'.regions q := by
      split_ifs
      · exact ((hsound.copy newPtr ptr _).free_others (Set.mem_insert_of_mem _ hptr)).1 q hq
      · exact (hsound.free_others (Set.mem_insert_of_mem _ hptr)).1 q hq
    simp only [regrant, Function.update_apply] at hp
    split_ifs at hp with heq hold
    · obtain rfl := Option.some.inj hp
      rw [heq, hregions newPtr hne, hgrown.used]
      exact units_fit hlt
    · rw [hregions p hold, hgrown.regions p heq]
      exact hheld p size hp

theorem held_next (hs : h.allocator.Sound b h.livePtrs) (hheld : h.Held b)
    (hc : h.Permitted b (2 ^ 31) c) : (h.next b c).Held b := by
  cases c with
  | allocate bytes granted => exact held_allocate hs hheld hc
  | reallocate ptr bytes behavior granted =>
    cases ptr with
    | none => exact held_allocate hs hheld hc.2
    | some ptr => exact held_reallocate hs hheld (hc.1 ptr rfl) hc.2
  | shrink ptr bytes =>
    cases ptr with
    | none => exact hheld
    | some ptr =>
      intro p size hp
      obtain ⟨old, hold⟩ := Option.ne_none_iff_exists'.1 (hc.1 ptr rfl)
      obtain ⟨hcapacity, hsmall⟩ := hheld ptr old hold
      simp only [next, hold, Option.map_some, Function.update_apply] at hp
      simp only [next, capacity]
      rcases Allocator.shrink_cases b h.allocator ptr bytes with ⟨w, hheader, hlt, heq⟩ | heq
      · rw [heq, Allocator.cut_regions]
        split_ifs at hp with hpp
        · obtain rfl := Option.some.inj hp
          rw [if_pos hpp]
          exact ⟨(min_le_right _ _).trans (units_fit hc.2).1, (units_fit hc.2).2⟩
        · rw [if_neg hpp]
          exact hheld p size hp
      · rw [heq]
        split_ifs at hp with hpp
        · obtain rfl := Option.some.inj hp
          rw [hpp]
          exact ⟨(min_le_left _ _).trans hcapacity, hsmall⟩
        · exact hheld p size hp
  | free ptr =>
    cases ptr with
    | none => exact hheld
    | some ptr =>
      intro p size hp
      simp only [next, Function.update_apply] at hp
      split_ifs at hp with heq
      simp only [next, capacity, (hs.free_others (hc ptr rfl)).1 p heq]
      exact hheld p size hp
  | write ptr offset value => exact hheld

theorem held_run {calls : List Call} (hrun : Transition.Run (Step b (2 ^ 31)) (initial b) calls h) :
    h.Held b := by
  have hboth := hrun.invariant
    (P := fun h => h.allocator.Sound b h.livePtrs ∧ h.Held b)
    ⟨sound_initial b, fun ptr size hp => absurd hp (by simp [initial])⟩ (by
      rintro h c _ ⟨hs, hheld⟩ ⟨hc, rfl⟩
      exact ⟨sound_next hs hc, held_next hs hheld hc⟩)
  exact hboth.2

def region (b : Build) (h : Heap) (ptr : Ptr) : Set Nat :=
  Set.Ico (ptr.unit * b.kUnitSize) (h.allocator.lastUnit ptr * b.kUnitSize)

def Apart (b : Build) (h : Heap) : Prop :=
  ∀ p ∈ h.livePtrs, ∀ q ∈ h.livePtrs, p ≠ q → p.block = q.block →
    Disjoint (h.region b p) (h.region b q)

/-- A live allocation is in a window of the allocator, or in a block of its own, it does not go past the
end of the block, and it has room for its data. -/
def Housed (b : Build) (h : Heap) : Prop :=
  ∀ ptr size, h.live ptr = some size →
    (∀ w, (h.allocator.regions ptr).header = some w →
      ptr.block = w ∧ w ∈ h.allocator.windowIds ∧ h.allocator.lastUnit ptr ≤ kWindowMaxUnits) ∧
    h.allocator.lastUnit ptr * b.kUnitSize ≤ h.allocator.blockBytes ptr.block ∧
    Set.Ico (b.dataOffset ptr) (b.dataOffset ptr + size) ⊆ h.region b ptr

def Tallied (h : Heap) : Prop :=
  ∀ w ∈ h.allocator.windowIds,
    (∀ j, j < kWindowMaxUnits → ((h.allocator.windows w).used.check j = true ↔
      ∃ ptr ∈ h.livePtrs, h.allocator.Covers ptr w j)) ∧
    (h.allocator.windows w).freeUnitCount =
      ((Finset.range kWindowMaxUnits).filter fun j => (h.allocator.windows w).used.check j = false).card

def Copies (b : Build) (h : Heap) : Prop :=
  ∀ ptr size bytes granted newPtr, h.live ptr = some size → bytes < 2 ^ 31 →
    (h.allocator.reallocate b (some ptr) bytes .copyExisting granted).2 = some newPtr →
    ∀ k, k < min size bytes →
      (h.allocator.reallocate b (some ptr) bytes .copyExisting granted).1.bytes newPtr.block
          (b.dataOffset newPtr + k) =
        h.allocator.bytes ptr.block (b.dataOffset ptr + k)

theorem apart_of_sound (hs : h.allocator.Sound b h.livePtrs) : h.Apart b := by
  intro p hp q hq hne hblock
  rw [Set.disjoint_left]
  rintro j ⟨hjp, hjp'⟩ ⟨hjq, hjq'⟩
  rcases hs.carved.disjoint p hp q hq hne hblock with hle | hle
  · have := Nat.mul_le_mul_right b.kUnitSize hle
    omega
  · have := Nat.mul_le_mul_right b.kUnitSize hle
    omega

theorem housed_of_held (hs : h.allocator.Sound b h.livePtrs) (hheld : h.Held b) : h.Housed b := by
  intro ptr size hsize
  have hptr : ptr ∈ h.livePtrs := by
    rw [livePtrs, Set.mem_ofPred_eq, hsize]
    exact Option.some_ne_none size
  obtain ⟨hcapacity, hsmall⟩ := hheld ptr size hsize
  have hpos := hs.carved.used_pos ptr hptr
  refine ⟨hs.carved.inWindow ptr hptr, ?_, ?_⟩
  · cases hheader : (h.allocator.regions ptr).header with
    | none =>
      obtain ⟨_, hunit⟩ := hs.carved.fallback ptr hptr hheader
      rw [hs.fallbackBytes ptr hptr hheader, Nat.mod_eq_of_lt hsmall, Allocator.lastUnit, hunit,
        Nat.zero_add, Nat.mul_comm]
    | some w =>
      obtain ⟨hblock, hw, hlast⟩ := hs.carved.inWindow ptr hptr w hheader
      rw [hblock, hs.windowBytes w hw]
      exact Nat.mul_le_mul_right _ hlast
  · have hend : b.dataOffset ptr + h.capacity b ptr = h.allocator.lastUnit ptr * b.kUnitSize := by
      rw [Build.dataOffset, capacity, Allocator.lastUnit, ← Nat.add_mul]
      congr 1
      omega
    have hstart : ptr.unit * b.kUnitSize ≤ b.dataOffset ptr :=
      Nat.mul_le_mul_right _ (Nat.le_succ _)
    rw [region, ← hend]
    exact Set.Ico_subset_Ico hstart (Nat.add_le_add_left hcapacity _)

theorem tallied_of_sound (hs : h.allocator.Sound b h.livePtrs) : h.Tallied := by
  intro w hw
  refine ⟨hs.carved.used_iff w hw, ?_⟩
  have hadd := hs.carved.free_add w hw
  have hsplit := Finset.card_filter_add_card_filter_not
    (s := Finset.range kWindowMaxUnits) fun j => (h.allocator.windows w).used.check j = true
  rw [Finset.card_range] at hsplit
  have hbits : (h.allocator.windows w).used.bits 0 kWindowMaxUnits =
      (Finset.range kWindowMaxUnits).filter fun j => (h.allocator.windows w).used.check j = true := by
    rw [CustomBitSet.bits, Finset.range_eq_Ico]
  rw [hbits] at hadd
  simp only [Bool.not_eq_true] at hsplit
  omega

theorem copies_of_held (hs : h.allocator.Sound b h.livePtrs) (hheld : h.Held b) : h.Copies b := by
  intro ptr size bytes granted newPtr hsize _ hnew k hk
  have hptr : ptr ∈ h.livePtrs := by
    rw [livePtrs, Set.mem_ofPred_eq, hsize]
    exact Option.some_ne_none size
  have hcases := reallocate_cases b h.allocator ptr bytes .copyExisting granted
  generalize h.allocator.reallocate b (some ptr) bytes .copyExisting granted = result at hcases hnew ⊢
  cases hcases with
  | zero => exact absurd hnew (by simp)
  | kept =>
    obtain rfl := Option.some.inj hnew
    rfl
  | failed => exact absurd hnew (by simp)
  | moved a' q _ _ hresult =>
    obtain rfl := Option.some.inj hnew
    obtain ⟨hsound, _, hgrown⟩ := hs.allocate_some hresult
    have hcapacity := (hheld ptr size hsize).1
    have hin : k < ((h.allocator.regions ptr).usedUnits - 1) * b.kUnitSize := by
      simp only [capacity] at hcapacity
      omega
    simp only [if_true]
    rw [((hsound.copy q ptr _).free_others (Set.mem_insert_of_mem _ hptr)).2]
    simp only [Allocator.copy]
    rw [if_pos ⟨trivial, by omega, by omega⟩, hgrown.bytes, Nat.add_sub_cancel_left]

/-- In every run with sizes below 2^31. -/
theorem allocations_apart {calls : List Call}
    (hrun : Transition.Run (Step b (2 ^ 31)) (initial b) calls h) :
    h.Apart b ∧ h.Housed b ∧ h.Tallied ∧ h.Copies b := by
  have hs := sound_run hrun
  have hheld := held_run hrun
  exact ⟨apart_of_sound hs, housed_of_held hs hheld, tallied_of_sound hs, copies_of_held hs hheld⟩

/-- A block grows while another one is live, and moves. -/
theorem allocations_apart_moved : ∃ h : Heap, h.live ⟨1, 61⟩ = some 3000 ∧ h.live ⟨1, 0⟩ = some 20 ∧
    h.Apart sse ∧ h.Housed sse ∧ h.Tallied ∧ h.Copies sse :=
  ⟨_, by decide +kernel, by decide +kernel, allocations_apart <|
    show Transition.Run (Step sse (2 ^ 31)) (initial sse) [.allocate 20 true, .allocate 900 true,
        .reallocate (some ⟨1, 3⟩) 3000 .copyExisting true] _ from
      .cons ⟨show 20 < 2 ^ 31 by decide, rfl⟩ <| .cons ⟨show 900 < 2 ^ 31 by decide, rfl⟩ <|
      .cons ⟨⟨fun p hp => by
        obtain rfl := Option.mem_some_iff.1 hp
        show _ ≠ none
        decide +kernel, by decide⟩, rfl⟩ (.nil _)⟩

end Heap

end Tonk.PktAlloc
