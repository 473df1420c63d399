import Tonk.Lib.LinearProbing
import Tonk.Lib.Serial
import Mathlib.Data.List.AList

/-!
LightHashMap, from its insertions, erasures and searches up to what a caller sees of them. The
allocations succeed. A slot whose state is invalid is `none`.
-/

set_option autoImplicit false

namespace Tonk.Socket
open LinearProbing Serial

variable {K V : Type}

structure LightHashMap (K V : Type) where
  hashShift : Nat := 32
  numValid : Nat := 0
  growThreshold : Nat := 0
  valuesCount : Nat := 0
  values : Table K V := fun _ => none

namespace LightHashMap

def cMinHashSize : Nat := 4

section Operations

variable (hasher : K → Nat) (m : LightHashMap K V)

def hashKey (k : K) : Nat := (2654435769 * (hasher k % 2 ^ 32) % 2 ^ 32) >>> m.hashShift

/-- `some none` stands for an index of -1, `none` for a loop that does not end. -/
def findIndex [DecidableEq K] (k : K) : Option (Option Nat) :=
  if m.numValid = 0 then some none
  else
    match probe m.valuesCount m.values (fun k' => decide (k' = k)) (m.hashKey hasher k) with
    | none => none
    | some (.found index) => some (some index)
    | some _ => some none

/-- The map after it, and the result where the answer is true. -/
def insertNoGrow [DecidableEq K] (k : K) (v : V) :
    Option (LightHashMap K V × Option (Nat × Bool)) :=
  if m.valuesCount = 0 then some (m, none)
  else
    match probe m.valuesCount m.values (fun k' => decide (k' = k)) (m.hashKey hasher k) with
    | none => none
    | some (.found index) => some (m, some (index, false))
    | some .full => some (m, none)
    | some (.free index) =>
      if m.growThreshold ≤ m.numValid then some (m, none)
      else
        some ({ m with
          values := Function.update m.values index (some (k, v))
          numValid := m.numValid + 1 }, some (index, true))

/-- No entry passes the test of the probe, which leaves `full` for the case that is asserted not to
occur. -/
def moveInto (kv : K × V) : Option (LightHashMap K V) :=
  match probe m.valuesCount m.values (fun _ => false) (m.hashKey hasher kv.1) with
  | none => none
  | some (.free index) =>
    some { m with
      values := Function.update m.values index (some kv)
      numValid := m.numValid + 1 }
  | some _ => some m

/-- The loop over the `count` old slots from `i` on. -/
def rehashLoop (hasher : K → Nat) (oldValues : Table K V) (oldNumValid : Nat) :
    Nat → Nat → LightHashMap K V → Option (LightHashMap K V)
  | 0, _, m => some m
  | count + 1, i, m =>
    match oldValues i with
    | none => rehashLoop hasher oldValues oldNumValid count (i + 1) m
    | some kv =>
      match m.moveInto hasher kv with
      | none => none
      | some m =>
        if oldNumValid = m.numValid then some m
        else rehashLoop hasher oldValues oldNumValid count (i + 1) m

def rehash (newHashSize : Nat) : Option (LightHashMap K V) :=
  if newHashSize < m.numValid ∨ newHashSize = m.valuesCount then some m
  else
    (rehashLoop hasher m.values m.numValid m.valuesCount 0
      { m with
        values := fun _ => none
        valuesCount := newHashSize
        numValid := 0
        hashShift := 32 - newHashSize.log2 }).map fun m =>
      { m with growThreshold := ((newHashSize + 1) % 2 ^ 32) >>> 1 }

/-- The result stays at its defaults where the second try fails, which is asserted not to occur. -/
def insert [DecidableEq K] (k : K) (v : V) : Option (LightHashMap K V × Nat × Bool) :=
  match m.insertNoGrow hasher k v with
  | none => none
  | some (m, some result) => some (m, result)
  | some (m, none) =>
    let newSize := m.valuesCount * 2 % 2 ^ 32
    let newSize := if newSize < cMinHashSize then cMinHashSize else newSize
    match m.rehash hasher newSize with
    | none => none
    | some m =>
      match m.insertNoGrow hasher k v with
      | none => none
      | some (m, result) => some (m, result.getD (0, false))

def eraseIndex (i : Nat) : Option (LightHashMap K V) :=
  (erase m.valuesCount (m.hashKey hasher) m.values i).map fun values =>
    { m with values := values, numValid := sub 32 m.numValid 1 }

/-- get_node(i)->second = v. -/
def setValue (i : Nat) (v : V) : LightHashMap K V :=
  { m with values := Function.update m.values i ((m.values i).map fun kv => (kv.1, v)) }

/-- The value that ConnectionMap.Find reads at the index. -/
def find [DecidableEq K] (k : K) : Option (Option V) :=
  (m.findIndex hasher k).map fun index => index.bind fun index => (m.values index).map Prod.snd

/-- find_index and erase_index of what it has found, as in ConnectionMap.Remove. -/
def eraseKey [DecidableEq K] (k : K) : Option (LightHashMap K V × Bool) :=
  match m.findIndex hasher k with
  | none => none
  | some none => some (m, false)
  | some (some index) => (m.eraseIndex hasher index).map fun m => (m, true)

end Operations

section Invariant

variable {hasher : K → Nat} {m : LightHashMap K V}

/-- There is no table, or it has a power of two of slots, half of which may be taken. -/
def Sized (m : LightHashMap K V) : Prop :=
  (m.valuesCount = 0 ∧ m.growThreshold = 0) ∨
    ∃ b, 2 ≤ b ∧ b ≤ 31 ∧ m.valuesCount = 2 ^ b ∧ m.hashShift = 32 - b ∧
      m.growThreshold = 2 ^ (b - 1)

/-- A table with its entries where the searches find them. -/
structure Filled (hasher : K → Nat) (m : LightHashMap K V) : Prop where
  home : ∀ k, m.valuesCount ≠ 0 → m.hashKey hasher k < m.valuesCount
  sound : Sound m.valuesCount (m.hashKey hasher) m.values
  count : m.numValid = taken m.valuesCount m.values

structure WellFormed (hasher : K → Nat) (m : LightHashMap K V) : Prop extends Filled hasher m where
  sized : Sized m
  bounded : m.numValid ≤ m.growThreshold

theorem hashKey_lt {b : Nat} (hb : b ≤ 32) (hshift : m.hashShift = 32 - b) (k : K) :
    m.hashKey hasher k < 2 ^ b := by
  rw [hashKey, hshift, Nat.shiftRight_eq_div_pow, Nat.div_lt_iff_lt_mul (by positivity), ← pow_add]
  rw [show b + (32 - b) = 32 by omega]
  exact Nat.mod_lt _ (by decide)

theorem WellFormed.threshold_lt (h : WellFormed hasher m) (hcount : m.valuesCount ≠ 0) :
    m.growThreshold < m.valuesCount := by
  rcases h.sized with ⟨hzero, -⟩ | ⟨b, hb, -, hvalues, -, hthreshold⟩
  · exact absurd hzero hcount
  · rw [hvalues, hthreshold]
    exact Nat.pow_lt_pow_right (by decide) (by omega)

theorem wellFormed_new : WellFormed hasher ({} : LightHashMap K V) where
  home := fun _ h => absurd rfl h
  sound :=
    { unbroken := fun p hp => absurd hp (Nat.not_lt_zero p)
      distinct := fun p hp => absurd hp (Nat.not_lt_zero p) }
  count := rfl
  sized := .inl ⟨rfl, rfl⟩
  bounded := le_rfl

end Invariant

section Searching

variable [DecidableEq K] {hasher : K → Nat} {m : LightHashMap K V}

theorem WellFormed.findIndex_spec (h : WellFormed hasher m) (k : K) :
    ∃ index, m.findIndex hasher k = some index ∧
      match index with
      | some p => p < m.valuesCount ∧ ∃ v, m.values p = some (k, v)
      | none => ∀ v, ¬ Holds m.valuesCount m.values k v := by
  unfold findIndex
  by_cases hempty : m.numValid = 0
  · refine ⟨none, if_pos hempty, ?_⟩
    rintro v ⟨p, hp, hslot⟩
    have hnone := taken_zero_iff.mp (h.count.symm.trans hempty) p hp
    rw [hnone] at hslot
    cases hslot
  · have hcount : m.valuesCount ≠ 0 := by
      intro hzero
      have := taken_le m.valuesCount m.values
      rw [← h.count] at this
      omega
    obtain ⟨answer, hprobe, hanswer⟩ := probe_answers m.values (fun k' => decide (k' = k))
      (h.home k hcount)
    have hspec := h.sound.answer (h.home k hcount) (by simp) hanswer
    rw [if_neg hempty, hprobe]
    cases answer with
    | found p =>
      obtain ⟨hp, v, hslot, -⟩ := hspec
      exact ⟨some p, rfl, hp, v, hslot⟩
    | free p => exact ⟨none, rfl, hspec⟩
    | full => exact ⟨none, rfl, hspec⟩

theorem WellFormed.find_spec (h : WellFormed hasher m) (k : K) :
    ∃ value, m.find hasher k = some value ∧
      ∀ v, value = some v ↔ Holds m.valuesCount m.values k v := by
  obtain ⟨index, hindex, hspec⟩ := h.findIndex_spec k
  unfold find
  rw [hindex]
  cases index with
  | none =>
    refine ⟨none, rfl, fun v => ?_⟩
    simp only [reduceCtorEq, false_iff]
    exact hspec v
  | some p =>
    obtain ⟨hp, v, hslot⟩ := hspec
    refine ⟨some v, by simp [hslot], fun w => ?_⟩
    constructor
    · rintro ⟨⟩
      exact ⟨p, hp, hslot⟩
    · intro hw
      rw [h.sound.unique ⟨p, hp, hslot⟩ hw]

theorem WellFormed.eraseKey_spec (h : WellFormed hasher m) (k : K) :
    ∃ m' found, m.eraseKey hasher k = some (m', found) ∧ WellFormed hasher m' ∧
      (found = true ↔ ∃ v, Holds m.valuesCount m.values k v) ∧
      m'.numValid + (if found then 1 else 0) = m.numValid ∧
      ∀ k' w, Holds m'.valuesCount m'.values k' w ↔
        k' ≠ k ∧ Holds m.valuesCount m.values k' w := by
  obtain ⟨index, hindex, hspec⟩ := h.findIndex_spec k
  unfold eraseKey
  rw [hindex]
  cases index with
  | none =>
    refine ⟨m, false, rfl, h, ?_, rfl, ?_⟩
    · simpa using hspec
    · intro k' w
      constructor
      · intro hw
        refine ⟨?_, hw⟩
        rintro rfl
        exact hspec w hw
      · exact And.right
  | some p =>
    obtain ⟨hp, v, hslot⟩ := hspec
    have hcount : m.valuesCount ≠ 0 := by omega
    have hlt : taken m.valuesCount m.values < m.valuesCount := by
      have := h.threshold_lt hcount
      have := h.bounded
      rw [← h.count]
      omega
    obtain ⟨values, hvalues, hsound, htaken, hholds⟩ :=
      h.sound.erase (fun k => h.home k hcount) hlt hp hslot
    have hsub : sub 32 m.numValid 1 + 1 = m.numValid := by
      have hbound : m.numValid < 2 ^ 32 := by
        rcases h.sized with ⟨hzero, -⟩ | ⟨b, -, hb, -, -, hthreshold⟩
        · exact absurd hzero hcount
        · have hpow : 2 ^ (b - 1) ≤ 2 ^ 30 := Nat.pow_le_pow_right (by decide) (by omega)
          have := h.bounded
          omega
      have hpos : 1 ≤ m.numValid := by
        rw [h.count]
        omega
      have hcast := sub_cast 32 m.numValid 1
      omega
    simp only [eraseIndex, hvalues, Option.map_some]
    refine ⟨_, true, rfl, ⟨⟨h.home, hsound, ?_⟩, h.sized, ?_⟩, ?_, ?_, hholds⟩
    · simp only
      rw [h.count] at hsub ⊢
      omega
    · have := h.bounded
      simp only
      omega
    · simp only [true_iff]
      exact ⟨v, p, hp, hslot⟩
    · simpa using hsub

end Searching

section Growing

variable {hasher : K → Nat} {m : LightHashMap K V}

theorem Filled.put (h : Filled hasher m) {k : K} {v : V} {p : Nat} {test : K → Bool}
    (hanswer : Answers m.valuesCount m.values test (m.hashKey hasher k) (.free p))
    (habsent : ∀ w, ¬ Holds m.valuesCount m.values k w) :
    Filled hasher { m with
      values := Function.update m.values p (some (k, v))
      numValid := m.numValid + 1 } where
  home := h.home
  sound := h.sound.insert hanswer habsent
  count := by
    rw [h.count]
    exact (taken_insert hanswer.1 hanswer.2.1 (k, v)).symm

theorem Filled.moveInto_spec (h : Filled hasher m) {k : K} {v : V}
    (habsent : ∀ w, ¬ Holds m.valuesCount m.values k w) (hroom : m.numValid < m.valuesCount) :
    ∃ m', m.moveInto hasher (k, v) = some m' ∧ Filled hasher m' ∧
      m'.valuesCount = m.valuesCount ∧ m'.hashShift = m.hashShift ∧
      m'.numValid = m.numValid + 1 ∧
      ∀ k' w, Holds m'.valuesCount m'.values k' w ↔
        (k' = k ∧ w = v) ∨ Holds m.valuesCount m.values k' w := by
  have hcount : m.valuesCount ≠ 0 := by omega
  obtain ⟨answer, hprobe, hanswer⟩ := probe_answers m.values (fun _ => false)
    (h.home k hcount)
  unfold moveInto
  rw [hprobe]
  cases answer with
  | found p =>
    obtain ⟨-, _, -, hpass⟩ := hanswer
    cases hpass
  | full =>
    rw [h.count] at hroom
    exact absurd hanswer (not_full hroom (h.home k hcount))
  | free p =>
    exact ⟨_, rfl, h.put hanswer habsent, rfl, rfl, rfl, holds_insert hanswer.1 hanswer.2.1 k v⟩

/-- The loop of rehash takes every entry over. The induction is on the slots that are left; what the
map has is what the first `i` slots had. -/
theorem rehashLoop_spec {old : Table K V} {oldCount : Nat}
    (hdistinct : ∀ p < oldCount, ∀ q < oldCount, ∀ k v w, old p = some (k, v) →
      old q = some (k, w) → p = q) :
    ∀ (count i : Nat) (m : LightHashMap K V), i + count = oldCount → Filled hasher m →
      taken oldCount old < m.valuesCount → m.numValid = taken i old →
      (∀ k v, Holds m.valuesCount m.values k v ↔ Holds i old k v) →
      ∃ m', rehashLoop hasher old (taken oldCount old) count i m = some m' ∧ Filled hasher m' ∧
        m'.valuesCount = m.valuesCount ∧ m'.hashShift = m.hashShift ∧
        m'.numValid = taken oldCount old ∧
        ∀ k v, Holds m'.valuesCount m'.values k v ↔ Holds oldCount old k v := by
  intro count
  induction count with
  | zero =>
    intro i m hi hfilled _ hcount hholds
    obtain rfl : i = oldCount := hi
    exact ⟨m, rfl, hfilled, rfl, rfl, hcount, hholds⟩
  | succ count ih =>
    intro i m hi hfilled hroom hcount hholds
    have htaken := taken_succ i old
    have hsplit : ∀ k v, Holds (i + 1) old k v ↔ old i = some (k, v) ∨ Holds i old k v := by
      intro k v
      constructor
      · rintro ⟨p, hp, hslot⟩
        rcases Nat.lt_succ_iff_lt_or_eq.mp hp with hlt | rfl
        · exact .inr ⟨p, hlt, hslot⟩
        · exact .inl hslot
      · rintro (hslot | ⟨p, hp, hslot⟩)
        · exact ⟨i, Nat.lt_succ_self i, hslot⟩
        · exact ⟨p, Nat.lt_succ_of_lt hp, hslot⟩
    unfold rehashLoop
    cases hslot : old i with
    | none =>
      refine ih (i + 1) m (by omega) hfilled hroom (by simpa [htaken, hslot] using hcount) ?_
      intro k v
      rw [hholds, hsplit, hslot]
      simp
    | some kv =>
      obtain ⟨k, v⟩ := kv
      have habsent : ∀ w, ¬ Holds m.valuesCount m.values k w := by
        intro w hw
        obtain ⟨p, hp, hslot'⟩ := (hholds k w).mp hw
        have := hdistinct p (by omega) i (by omega) k w v hslot' hslot
        omega
      have hmono : taken i old < taken oldCount old := by
        by_contra hge
        have hle := taken_mono old (show i ≤ oldCount by omega)
        have hfree : old i = none :=
          free_of_taken_eq (show i ≤ oldCount by omega) (by omega) le_rfl (by omega)
        rw [hslot] at hfree
        cases hfree
      obtain ⟨m', hmove, hfilled', hvalues, hshift, hcount', hholds'⟩ :=
        hfilled.moveInto_spec (v := v) habsent (by omega)
      simp only [hmove]
      have hcounted : m'.numValid = taken (i + 1) old := by
        rw [hcount', htaken, hslot, hcount]
        rfl
      have hall : ∀ k' w, Holds m'.valuesCount m'.values k' w ↔ Holds (i + 1) old k' w := by
        intro k' w
        rw [hholds', hsplit, hholds, hslot]
        simp [eq_comm]
      split
      · next hdone =>
        refine ⟨m', rfl, hfilled', hvalues, hshift, hdone.symm, ?_⟩
        intro k' w
        rw [hall]
        constructor
        · rintro ⟨p, hp, hslot'⟩
          exact ⟨p, by omega, hslot'⟩
        · rintro ⟨p, hp, hslot'⟩
          refine ⟨p, ?_, hslot'⟩
          by_contra hge
          have hfree : old p = none :=
            free_of_taken_eq (show i + 1 ≤ oldCount by omega) (by omega) (by omega) hp
          rw [hfree] at hslot'
          cases hslot'
      · obtain ⟨m'', hloop, hfilled'', hvalues', hshift', hcount'', hholds''⟩ :=
          ih (i + 1) m' (by omega) hfilled' (by omega) hcounted hall
        exact ⟨m'', hloop, hfilled'', by rw [hvalues', hvalues], by rw [hshift', hshift], hcount'',
          hholds''⟩

theorem WellFormed.rehash_spec (h : WellFormed hasher m) {b : Nat} (hb : 2 ≤ b) (hb' : b ≤ 31)
    (hlarger : m.valuesCount < 2 ^ b) (hroom : m.numValid ≤ 2 ^ (b - 1)) :
    ∃ m', m.rehash hasher (2 ^ b) = some m' ∧ WellFormed hasher m' ∧
      m'.growThreshold = 2 ^ (b - 1) ∧ m'.numValid = m.numValid ∧
      ∀ k v, Holds m'.valuesCount m'.values k v ↔ Holds m.valuesCount m.values k v := by
  have hhalf : 2 ^ (b - 1) < 2 ^ b := Nat.pow_lt_pow_right (by decide) (by omega)
  have hshift : 32 - (2 ^ b).log2 = 32 - b := by rw [Nat.log2_two_pow]
  have hthreshold : ((2 ^ b + 1) % 2 ^ 32) >>> 1 = 2 ^ (b - 1) := by
    have hpow : 2 ^ b ≤ 2 ^ 31 := Nat.pow_le_pow_right (by decide) hb'
    have hdouble : 2 ^ b = 2 * 2 ^ (b - 1) := by
      rw [← pow_succ']
      congr 1
      omega
    rw [Nat.mod_eq_of_lt (by omega), Nat.shiftRight_eq_div_pow]
    omega
  have hfilled : Filled hasher ({ m with
      values := fun _ => none
      valuesCount := 2 ^ b
      numValid := 0
      hashShift := 32 - (2 ^ b).log2 } : LightHashMap K V) :=
    { home := fun k _ => hashKey_lt (by omega) hshift k
      sound :=
        { unbroken := fun p _ kv hslot => by cases hslot
          distinct := fun p _ q _ k v w hslot => by cases hslot }
      count := (taken_zero_iff.mpr fun _ _ => rfl).symm }
  obtain ⟨m', hloop, hfilled', hvalues, hshift', hcount, hholds⟩ :=
    rehashLoop_spec h.sound.distinct m.valuesCount 0 _ (Nat.zero_add _) hfilled
      (by rw [← h.count]; simp only; omega) (taken_zero_iff.mpr fun p hp => by omega).symm
      (by
        intro k v
        constructor
        · rintro ⟨p, -, hslot⟩
          cases hslot
        · rintro ⟨p, hp, -⟩
          omega)
  have hno : ¬ (2 ^ b < m.numValid ∨ 2 ^ b = m.valuesCount) := by omega
  rw [rehash, if_neg hno, h.count, hloop]
  refine ⟨_, rfl, ⟨⟨hfilled'.home, hfilled'.sound, hfilled'.count⟩, ?_, ?_⟩, hthreshold, ?_, hholds⟩
  · exact .inr ⟨b, hb, hb', hvalues, hshift'.trans hshift, hthreshold⟩
  · simp only
    rw [hthreshold, hcount, ← h.count]
    exact hroom
  · exact hcount

end Growing

section Inserting

variable [DecidableEq K] {hasher : K → Nat} {m : LightHashMap K V}

theorem WellFormed.insertNoGrow_spec (h : WellFormed hasher m) (k : K) (v : V) :
    (∃ p w, m.insertNoGrow hasher k v = some (m, some (p, false)) ∧ p < m.valuesCount ∧
      m.values p = some (k, w)) ∨
    ((∀ w, ¬ Holds m.valuesCount m.values k w) ∧ m.growThreshold ≤ m.numValid ∧
      m.insertNoGrow hasher k v = some (m, none)) ∨
    ((∀ w, ¬ Holds m.valuesCount m.values k w) ∧ m.numValid < m.growThreshold ∧
      ∃ m' p, m.insertNoGrow hasher k v = some (m', some (p, true)) ∧ WellFormed hasher m' ∧
        m'.values p = some (k, v) ∧ m'.numValid = m.numValid + 1 ∧
        ∀ k' w, Holds m'.valuesCount m'.values k' w ↔
          (k' = k ∧ w = v) ∨ Holds m.valuesCount m.values k' w) := by
  unfold insertNoGrow
  by_cases hcount : m.valuesCount = 0
  · right
    left
    refine ⟨?_, ?_, if_pos hcount⟩
    · rintro w ⟨p, hp, -⟩
      omega
    · rcases h.sized with ⟨-, hthreshold⟩ | ⟨b, -, -, hvalues, -⟩
      · omega
      · have : 0 < 2 ^ b := by positivity
        omega
  · obtain ⟨answer, hprobe, hanswer⟩ := probe_answers m.values (fun k' => decide (k' = k))
      (h.home k hcount)
    have hspec := h.sound.answer (h.home k hcount) (by simp) hanswer
    rw [if_neg hcount, hprobe]
    cases answer with
    | found p =>
      obtain ⟨hp, w, hslot, -⟩ := hspec
      exact .inl ⟨p, w, rfl, hp, hslot⟩
    | full =>
      have hlt : taken m.valuesCount m.values < m.valuesCount := by
        have := h.threshold_lt hcount
        have := h.bounded
        rw [← h.count]
        omega
      exact absurd hanswer (not_full hlt (h.home k hcount))
    | free p =>
      right
      by_cases hroom : m.growThreshold ≤ m.numValid
      · exact .inl ⟨hspec, hroom, if_pos hroom⟩
      · refine .inr ⟨hspec, by omega, _, p, if_neg hroom, ⟨h.toFilled.put hanswer hspec, h.sized, ?_⟩,
          Function.update_self .., rfl, holds_insert hanswer.1 hanswer.2.1 k v⟩
        simp only
        omega

def kMaxKeys : Nat := 2 ^ 30

omit [DecidableEq K] in
theorem WellFormed.threshold_le (h : WellFormed hasher m) : m.growThreshold ≤ kMaxKeys := by
  rcases h.sized with ⟨-, hzero⟩ | ⟨b, -, hb, -, -, hhalf⟩
  · rw [hzero]
    exact Nat.zero_le _
  · rw [hhalf]
    exact Nat.pow_le_pow_right (by decide) (by omega)

/-- Inserting a key finds its entry, or puts a new one; where the largest table is half full the new
one is not put. -/
theorem WellFormed.insert_spec (h : WellFormed hasher m) (k : K) (v : V) :
    (∃ p w, m.insert hasher k v = some (m, p, false) ∧ p < m.valuesCount ∧
      m.values p = some (k, w)) ∨
    ((∀ w, ¬ Holds m.valuesCount m.values k w) ∧ kMaxKeys ≤ m.numValid ∧
      m.insert hasher k v = some (m, 0, false)) ∨
    ((∀ w, ¬ Holds m.valuesCount m.values k w) ∧ m.numValid < kMaxKeys ∧
      ∃ m' p, m.insert hasher k v = some (m', p, true) ∧ WellFormed hasher m' ∧
        m'.values p = some (k, v) ∧ m'.numValid = m.numValid + 1 ∧
        ∀ k' w, Holds m'.valuesCount m'.values k' w ↔
          (k' = k ∧ w = v) ∨ Holds m.valuesCount m.values k' w) := by
  have hpow : kMaxKeys = 2 ^ 30 := rfl
  have hthreshold := h.threshold_le
  unfold insert
  rcases h.insertNoGrow_spec k v with ⟨p, w, hfound, hp, hslot⟩ | ⟨habsent, hfull, htry⟩ |
    ⟨habsent, hroom, m', p, hput, hwell⟩
  · rw [hfound]
    exact .inl ⟨p, w, rfl, hp, hslot⟩
  · rw [htry]
    simp only
    by_cases hmax : m.growThreshold = kMaxKeys
    · have hsize : m.valuesCount * 2 % 2 ^ 32 = 0 := by
        rcases h.sized with ⟨hzero, -⟩ | ⟨b, hb, hb', hvalues, -, hhalf⟩
        · simp [hzero]
        · have hb31 : b = 31 := by
            have hexp : 2 ^ (b - 1) = 2 ^ 30 := hhalf.symm.trans hmax
            have := Nat.pow_right_injective (le_refl 2) hexp
            omega
          rw [hvalues, hb31]
          norm_num
      have hsmall : 4 < m.numValid := by omega
      rw [hsize, if_pos (by decide), rehash, if_pos (.inl hsmall)]
      simp only [htry]
      exact .inr (.inl ⟨habsent, by omega, rfl⟩)
    · obtain ⟨b, hb, hb', hlarger, hhalf, hnew⟩ : ∃ b, 2 ≤ b ∧ b ≤ 31 ∧ m.valuesCount < 2 ^ b ∧
          m.growThreshold < 2 ^ (b - 1) ∧
          (if m.valuesCount * 2 % 2 ^ 32 < cMinHashSize then cMinHashSize
            else m.valuesCount * 2 % 2 ^ 32) = 2 ^ b := by
        rcases h.sized with ⟨hzero, hzero'⟩ | ⟨b, hb, hb', hvalues, -, hhalf⟩
        · exact ⟨2, le_rfl, by decide, by rw [hzero]; decide, by rw [hzero']; decide,
            by rw [hzero]; rfl⟩
        · have hb31 : b ≠ 31 := by
            rintro rfl
            exact hmax hhalf
          have hsmaller : 2 ^ b ≤ 2 ^ 30 := Nat.pow_le_pow_right (by decide) (by omega)
          have hfour : 2 ^ 2 ≤ 2 ^ b := Nat.pow_le_pow_right (by decide) hb
          have hlt : 2 ^ b < 2 ^ (b + 1) := Nat.pow_lt_pow_right (by decide) (by omega)
          refine ⟨b + 1, by omega, by omega, by rw [hvalues]; exact hlt, ?_, ?_⟩
          · rw [hhalf]
            exact Nat.pow_lt_pow_right (by decide) (by omega)
          · rw [hvalues, ← pow_succ, Nat.mod_eq_of_lt (by rw [pow_succ]; omega), if_neg]
            unfold cMinHashSize
            omega
      have hbounded := h.bounded
      obtain ⟨m₁, hrehash, hwell₁, hthreshold₁, hcount₁, hholds₁⟩ :=
        h.rehash_spec hb hb' hlarger (by omega)
      rw [hnew, hrehash]
      have habsent₁ : ∀ w, ¬ Holds m₁.valuesCount m₁.values k w := fun w => by
        rw [hholds₁]
        exact habsent w
      rcases hwell₁.insertNoGrow_spec k v with ⟨p, w, -, hp, hslot⟩ | ⟨-, hfull₁, -⟩ |
        ⟨-, -, m', p, hput, hwell', hslot, hcount, hholds⟩
      · exact absurd ⟨p, hp, hslot⟩ (habsent₁ w)
      · omega
      · simp only [hput]
        refine .inr (.inr ⟨habsent, by omega, m', p, rfl, hwell', hslot, by omega, ?_⟩)
        intro k' w
        rw [hholds, hholds₁]
  · rw [hput]
    exact .inr (.inr ⟨habsent, by omega, m', p, rfl, hwell⟩)

end Inserting

section Refinement

inductive Op (K V : Type) where
  | insert (k : K) (v : V)
  | erase (k : K)
  | find (k : K)
  | size

inductive Answer (K V : Type) where
  | inserted (entry : Option (K × V)) (isNew : Bool)
  | erased (found : Bool)
  | found (value : Option V)
  | size (count : Nat)

variable [DecidableEq K]

def apply (hasher : K → Nat) (m : LightHashMap K V) :
    Op K V → Option (LightHashMap K V × Answer K V)
  | .insert k v =>
    (m.insert hasher k v).map fun (m, index, isNew) => (m, .inserted (m.values index) isNew)
  | .erase k => (m.eraseKey hasher k).map fun (m, found) => (m, .erased found)
  | .find k => (m.find hasher k).map fun value => (m, .found value)
  | .size => some (m, .size m.numValid)

/-- The answers to a history, and the map after it. Nothing where a loop does not end. -/
def history (hasher : K → Nat) (m : LightHashMap K V) :
    List (Op K V) → Option (LightHashMap K V × List (Answer K V))
  | [] => some (m, [])
  | op :: ops =>
    match m.apply hasher op with
    | none => none
    | some (m, answer) => (history hasher m ops).map fun (m, answers) => (m, answer :: answers)

abbrev KeyMap (K V : Type) := AList fun _ : K => V

namespace KeyMap

def apply (s : KeyMap K V) : Op K V → KeyMap K V × Answer K V
  | .insert k v =>
    match s.lookup k with
    | some w => (s, .inserted (some (k, w)) false)
    | none => (AList.insert k v s, .inserted (some (k, v)) true)
  | .erase k => (s.erase k, .erased (s.lookup k).isSome)
  | .find k => (s, .found (s.lookup k))
  | .size => (s, .size s.keys.length)

def answers (s : KeyMap K V) : List (Op K V) → List (Answer K V)
  | [] => []
  | op :: ops => (s.apply op).2 :: answers (s.apply op).1 ops

/-- The operation does not put a new key beside as many keys as the largest table takes. -/
def Room (s : KeyMap K V) : Op K V → Prop
  | .insert k _ => s.lookup k = none → s.keys.length < kMaxKeys
  | _ => True

def HasRoom (s : KeyMap K V) : List (Op K V) → Prop
  | [] => True
  | op :: ops => s.Room op ∧ HasRoom (s.apply op).1 ops

end KeyMap

structure Refines (hasher : K → Nat) (m : LightHashMap K V) (s : KeyMap K V) : Prop where
  wellFormed : WellFormed hasher m
  holds : ∀ k v, Holds m.valuesCount m.values k v ↔ s.lookup k = some v
  size : m.numValid = s.keys.length

variable {hasher : K → Nat} {m : LightHashMap K V} {s : KeyMap K V}

theorem refines_new : Refines hasher ({} : LightHashMap K V) (∅ : KeyMap K V) where
  wellFormed := wellFormed_new
  holds := by
    intro k v
    rw [AList.lookup_empty]
    constructor
    · rintro ⟨p, hp, -⟩
      exact absurd hp (Nat.not_lt_zero p)
    · rintro ⟨⟩
  size := rfl

theorem Refines.absent_iff (h : Refines hasher m s) (k : K) :
    (∀ v, ¬ Holds m.valuesCount m.values k v) ↔ s.lookup k = none := by
  rw [Option.eq_none_iff_forall_ne_some]
  exact forall_congr' fun v => not_congr (h.holds k v)

theorem length_keys_insert {k : K} (v : V) (h : s.lookup k = none) :
    (AList.insert k v s).keys.length = s.keys.length + 1 := by
  rw [AList.keys_insert, List.length_cons, List.erase_of_not_mem]
  rwa [← AList.mem_keys, ← AList.lookup_eq_none]

theorem length_keys_erase (k : K) :
    (s.erase k).keys.length + (if (s.lookup k).isSome then 1 else 0) = s.keys.length := by
  rw [AList.keys_erase]
  split
  · next hsome =>
    have hmem : k ∈ s.keys := by rwa [← AList.mem_keys, ← AList.lookup_isSome]
    have hpos := List.length_pos_of_mem hmem
    rw [List.length_erase_of_mem hmem]
    omega
  · next hnone =>
    rw [List.erase_of_not_mem, Nat.add_zero]
    rwa [← AList.mem_keys, ← AList.lookup_isSome]

theorem Refines.findIndex_cases (h : Refines hasher m s) (k : K) :
    (s.lookup k = none ∧ m.findIndex hasher k = some none) ∨
    ∃ p v, s.lookup k = some v ∧ m.findIndex hasher k = some (some p) ∧ p < m.valuesCount ∧
      m.values p = some (k, v) := by
  obtain ⟨index, hindex, hspec⟩ := h.wellFormed.findIndex_spec k
  cases index with
  | none => exact .inl ⟨(h.absent_iff k).1 hspec, hindex⟩
  | some p =>
    obtain ⟨hp, v, hslot⟩ := hspec
    exact .inr ⟨p, v, (h.holds k v).1 ⟨p, hp, hslot⟩, hindex, hp, hslot⟩

theorem Refines.insert_cases (h : Refines hasher m s) (k : K) (v : V) :
    (∃ p w, s.lookup k = some w ∧ m.insert hasher k v = some (m, p, false) ∧
      m.values p = some (k, w)) ∨
    (s.lookup k = none ∧ kMaxKeys ≤ s.keys.length ∧ m.insert hasher k v = some (m, 0, false)) ∨
    (s.lookup k = none ∧ s.keys.length < kMaxKeys ∧
      ∃ m' p, m.insert hasher k v = some (m', p, true) ∧ m'.values p = some (k, v) ∧
        Refines hasher m' (AList.insert k v s)) := by
  rcases h.wellFormed.insert_spec k v with ⟨p, w, hfound, hp, hslot⟩ | ⟨habsent, hfull, htry⟩ |
    ⟨habsent, hroom, m', p, hput, hwell, hslot, hcount, hholds⟩
  · exact .inl ⟨p, w, (h.holds k w).1 ⟨p, hp, hslot⟩, hfound, hslot⟩
  · exact .inr (.inl ⟨(h.absent_iff k).1 habsent, h.size ▸ hfull, htry⟩)
  · have hlookup := (h.absent_iff k).1 habsent
    refine .inr (.inr ⟨hlookup, h.size ▸ hroom, m', p, hput, hslot, hwell, ?_, ?_⟩)
    · intro k' w
      rw [hholds, h.holds]
      by_cases hk : k' = k
      · subst hk
        rw [AList.lookup_insert, hlookup]
        simp [eq_comm]
      · rw [AList.lookup_insert_ne hk]
        simp [hk]
    · rw [length_keys_insert v hlookup, hcount, h.size]

theorem Refines.eraseKey (h : Refines hasher m s) (k : K) :
    ∃ m', m.eraseKey hasher k = some (m', (s.lookup k).isSome) ∧ Refines hasher m' (s.erase k) := by
  obtain ⟨m', found, herase, hwell, hfound, hcount, hholds⟩ := h.wellFormed.eraseKey_spec k
  have hsame : found = (s.lookup k).isSome := by
    rw [Bool.eq_iff_iff, hfound, Option.isSome_iff_exists]
    exact exists_congr fun v => h.holds k v
  refine ⟨m', hsame ▸ herase, hwell, ?_, ?_⟩
  · intro k' w
    rw [hholds, h.holds]
    by_cases hk : k' = k
    · subst hk
      rw [AList.lookup_erase]
      simp
    · rw [AList.lookup_erase_ne hk]
      simp [hk]
  · have hlength := @length_keys_erase K V _ s k
    rw [← hsame, ← h.size] at hlength
    omega

theorem Refines.eraseIndex (h : Refines hasher m s) {k : K} {p : Nat}
    (hfind : m.findIndex hasher k = some (some p)) :
    ∃ m', m.eraseIndex hasher p = some m' ∧ Refines hasher m' (s.erase k) := by
  obtain ⟨m', herase, hrefines⟩ := h.eraseKey k
  simp only [LightHashMap.eraseKey, hfind, Option.map_eq_some_iff] at herase
  obtain ⟨m₁, hindex, hpair⟩ := herase
  obtain rfl := congrArg Prod.fst hpair
  exact ⟨m₁, hindex, hrefines⟩

theorem Refines.setValue (h : Refines hasher m s) {k : K} {v : V} {p : Nat} (hp : p < m.valuesCount)
    (hslot : m.values p = some (k, v)) (w : V) :
    Refines hasher (m.setValue p w) (AList.insert k w s) := by
  have hvalues : (m.setValue p w).values = Function.update m.values p (some (k, w)) := by
    rw [LightHashMap.setValue, hslot]
    rfl
  have hlookup : s.lookup k = some v := (h.holds k v).1 ⟨p, hp, hslot⟩
  have hmem : k ∈ s.keys := by
    rw [← AList.mem_keys, ← AList.lookup_isSome, hlookup]
    rfl
  refine ⟨⟨⟨h.wellFormed.home, ?_, ?_⟩, h.wellFormed.sized, h.wellFormed.bounded⟩, ?_, ?_⟩
  · rw [hvalues]
    exact h.wellFormed.sound.replace hslot w
  · rw [hvalues]
    exact h.wellFormed.count.trans (taken_replace hslot w).symm
  · intro k' w'
    rw [hvalues]
    refine (h.wellFormed.sound.holds_replace hp hslot w k' w').trans ?_
    by_cases hk : k' = k
    · subst hk
      rw [AList.lookup_insert]
      simp [eq_comm]
    · rw [AList.lookup_insert_ne hk, ← h.holds]
      simp [hk]
  · have hpos := List.length_pos_of_mem hmem
    rw [AList.keys_insert, List.length_cons, List.length_erase_of_mem hmem, ← h.size]
    have hsize := h.size
    show m.numValid = _
    omega

/-- An operation ends, and where there is room it does what the finite map does; else it answers
otherwise and leaves the map. -/
theorem Refines.apply (h : Refines hasher m s) (op : Op K V) :
    ∃ m' answer, m.apply hasher op = some (m', answer) ∧
      (s.Room op ∧ answer = (s.apply op).2 ∧ Refines hasher m' (s.apply op).1 ∨
        ¬ s.Room op ∧ answer ≠ (s.apply op).2 ∧ Refines hasher m' s) := by
  cases op with
  | insert k v =>
    rcases h.insert_cases k v with ⟨p, w, hlookup, hfound, hslot⟩ | ⟨hlookup, hfull, htry⟩ |
      ⟨hlookup, hroom, m', p, hput, hslot, hnext⟩
    · refine ⟨m, _, by rw [LightHashMap.apply, hfound]; rfl, .inl ⟨?_, ?_, ?_⟩⟩
      · intro hnone
        rw [hlookup] at hnone
        cases hnone
      · simp only [KeyMap.apply, hlookup, hslot]
      · simpa only [KeyMap.apply, hlookup] using h
    · refine ⟨m, _, by rw [LightHashMap.apply, htry]; rfl, .inr ⟨?_, ?_, h⟩⟩
      · intro hroom
        have hlt := hroom hlookup
        omega
      · simp [KeyMap.apply, hlookup]
    · refine ⟨m', _, by rw [LightHashMap.apply, hput]; rfl, .inl ⟨fun _ => hroom, ?_, ?_⟩⟩
      · simp only [KeyMap.apply, hlookup, hslot]
      · simpa only [KeyMap.apply, hlookup] using hnext
  | erase k =>
    obtain ⟨m', herase, hnext⟩ := h.eraseKey k
    exact ⟨m', _, by rw [LightHashMap.apply, herase]; rfl, .inl ⟨trivial, rfl, hnext⟩⟩
  | find k =>
    obtain ⟨value, hfind, hvalue⟩ := h.wellFormed.find_spec k
    refine ⟨m, _, by rw [LightHashMap.apply, hfind]; rfl, .inl ⟨trivial, ?_, h⟩⟩
    simp only [KeyMap.apply]
    congr 1
    ext v
    rw [hvalue, h.holds]
  | size => exact ⟨m, _, rfl, .inl ⟨trivial, by simp only [KeyMap.apply, h.size], h⟩⟩

theorem Refines.history (h : Refines hasher m s) (ops : List (Op K V)) :
    ∃ m' answers, m.history hasher ops = some (m', answers) ∧
      (answers = s.answers ops ↔ s.HasRoom ops) := by
  induction ops generalizing m s with
  | nil => exact ⟨m, [], rfl, by simp [KeyMap.answers, KeyMap.HasRoom]⟩
  | cons op ops ih =>
    obtain ⟨m₁, answer, happly, ⟨hroom, hanswer, hnext⟩ | ⟨hroom, hanswer, hnext⟩⟩ := h.apply op
    · obtain ⟨m', answers, hrest, hiff⟩ := ih hnext
      refine ⟨m', answer :: answers, by simp [LightHashMap.history, happly, hrest], ?_⟩
      rw [KeyMap.answers, KeyMap.HasRoom, List.cons_eq_cons, hiff]
      exact and_congr_left' (by simp [hanswer, hroom])
    · obtain ⟨m', answers, hrest, -⟩ := ih hnext
      refine ⟨m', answer :: answers, by simp [LightHashMap.history, happly, hrest], ?_⟩
      rw [KeyMap.answers, KeyMap.HasRoom, List.cons_eq_cons]
      simp [hanswer, hroom]

/-- Every history of a new map ends, under any hash function. Its answers are those of a finite map
if and only if it never inserts a new key beside 2^30 others. -/
theorem refines_keyMap_iff (hasher : K → Nat) (ops : List (Op K V)) :
    ∃ m answers, ({} : LightHashMap K V).history hasher ops = some (m, answers) ∧
      (answers = KeyMap.answers ∅ ops ↔ KeyMap.HasRoom ∅ ops) :=
  refines_new.history ops

theorem not_hasRoom_of_fresh (v : V) (ks : List K) {s : KeyMap K V} (hnodup : ks.Nodup)
    (hfresh : ∀ k ∈ ks, s.lookup k = none) (hsize : s.keys.length ≤ kMaxKeys)
    (hmany : kMaxKeys < s.keys.length + ks.length) :
    ¬ s.HasRoom (ks.map fun k => .insert k v) := by
  induction ks generalizing s with
  | nil =>
    rw [List.length_nil] at hmany
    omega
  | cons k ks ih =>
    rintro ⟨hroom, hrest⟩
    have hk := hfresh k List.mem_cons_self
    have hlt := hroom hk
    have hlength := length_keys_insert v hk
    rw [List.length_cons] at hmany
    have hnext : (s.apply (.insert k v)).1 = AList.insert k v s := by
      simp only [KeyMap.apply, hk]
    rw [hnext] at hrest
    rw [List.nodup_cons] at hnodup
    refine ih hnodup.2 ?_ (by omega) (by omega) hrest
    intro k' hk'
    have hne : k' ≠ k := by
      rintro rfl
      exact hnodup.1 hk'
    rw [AList.lookup_insert_ne hne]
    exact hfresh k' (List.mem_cons_of_mem k hk')

/-- 2^30 + 1 insertions of different keys are not answered as by a finite map. -/
theorem not_refines_keyMap : ¬ ∀ (hasher : Nat → Nat) (ops : List (Op Nat Unit)),
    ∃ m, ({} : LightHashMap Nat Unit).history hasher ops = some (m, KeyMap.answers ∅ ops) := by
  intro hall
  generalize hcount : kMaxKeys + 1 = count at *
  obtain ⟨m, hm⟩ := hall id ((List.range count).map fun k => .insert k ())
  obtain ⟨m', answers, hhistory, hiff⟩ := (@refines_new Nat Unit _ id).history
    ((List.range count).map fun k => .insert k ())
  rw [hm] at hhistory
  cases hhistory
  refine not_hasRoom_of_fresh () (List.range count) List.nodup_range ?_ ?_ ?_ (hiff.mp rfl)
  · intro k _
    exact AList.lookup_empty k
  · exact Nat.zero_le _
  · rw [List.length_range]
    omega

end Refinement

end LightHashMap
end Tonk.Socket
