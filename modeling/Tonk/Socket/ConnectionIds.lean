import Tonk.Socket.ConnectionMaps

set_option autoImplicit false

namespace Tonk.Socket
open LightHashMap Transition

variable {C : Type}

def kConnectionIdCount : Nat := 0x1000000
def kInvalidId : Nat := 0x7fffffff

structure ConnectionIdMap (C : Type) where
  idMap : LightHashMap Nat C
  bestUnusedIds : Nat → UInt8
  bestUnusedCount : Nat
  nextId : Nat

namespace ConnectionIdMap

section Operations

variable (hasher : Nat → Nat)

/-- Each socket starts at a different offset, which it takes from the time. -/
def new (timeUsec : Nat) : ConnectionIdMap C where
  idMap := {}
  bestUnusedIds i := .ofNat (255 - i + timeUsec % 256)
  bestUnusedCount := 256
  nextId := 0

def advance (nextId : Nat) : Nat :=
  let nextId := (nextId + 1) % 2 ^ 32
  if nextId < 256 ∨ kConnectionIdCount ≤ nextId then 256 else nextId

/-- Find next unused Id. Nothing when the fuel runs out. -/
def findUnusedId (connection : C) : Nat → LightHashMap Nat C → Nat → Option (LightHashMap Nat C × Nat)
  | 0, _, _ => none
  | fuel + 1, idMap, nextId =>
    match ConnectionMap.insert hasher idMap (advance nextId) connection with
    | none => none
    | some (idMap, true) => some (idMap, advance nextId)
    | some (idMap, false) => findUnusedId connection fuel idMap (advance nextId)

variable (m : ConnectionIdMap C)

def insertAndAssignId (idOut : Nat) (connection : C) : Option (ConnectionIdMap C × Nat × Bool) :=
  if 0 < m.bestUnusedCount then
    let idOut := (m.bestUnusedIds (m.bestUnusedCount - 1)).toNat
    (ConnectionMap.insert hasher m.idMap idOut connection).map fun (idMap, success) =>
      ({ m with
          idMap := idMap
          bestUnusedCount := if success then m.bestUnusedCount - 1 else m.bestUnusedCount },
        idOut, success)
  else if kConnectionIdCount ≤ m.idMap.numValid then some (m, idOut, false)
  else
    (findUnusedId hasher connection kConnectionIdCount m.idMap m.nextId).map fun (idMap, nextId) =>
      ({ m with idMap := idMap, nextId := nextId }, nextId, true)

def removeAndUnassignId [DecidableEq C] (id : Nat) (connection : C) : Option (ConnectionIdMap C × Bool) :=
  if id = kInvalidId then some (m, false)
  else
    let m := if id < 256 ∧ m.bestUnusedCount < 256 then
        { m with
          bestUnusedIds := Function.update m.bestUnusedIds m.bestUnusedCount (.ofNat id)
          bestUnusedCount := m.bestUnusedCount + 1 }
      else m
    (ConnectionMap.remove hasher m.idMap id connection).map fun (idMap, success) =>
      ({ m with idMap := idMap }, success)

end Operations

def unused (m : ConnectionIdMap C) : List Nat :=
  (List.range m.bestUnusedCount).map fun i => (m.bestUnusedIds i).toNat

end ConnectionIdMap

/-- The map, and the ids that are assigned with their owners. The code does not keep these. -/
structure IdAllocation (C : Type) where
  map : ConnectionIdMap C
  live : List (Nat × C)

inductive IdOp (C : Type) where
  | insert (idOut : Nat) (connection : C)
  | remove (id : Nat) (connection : C)

namespace IdAllocation

def ids (r : IdAllocation C) : List Nat := r.live.map Prod.fst

def start (timeUsec : Nat) : IdAllocation C := ⟨.new timeUsec, []⟩

def next [DecidableEq C] (hasher : Nat → Nat) (r : IdAllocation C) : IdOp C → Option (IdAllocation C × Nat × Bool)
  | .insert idOut connection =>
    (r.map.insertAndAssignId hasher idOut connection).map fun (map, id, success) =>
      (⟨map, if success then (id, connection) :: r.live else r.live⟩, id, success)
  | .remove id connection =>
    (r.map.removeAndUnassignId hasher id connection).map fun (map, success) =>
      (⟨map, r.live.erase (id, connection)⟩, id, success)

def Owned (r : IdAllocation C) : IdOp C → Prop
  | .insert _ _ => True
  | .remove id connection => (id, connection) ∈ r.live

def Step [DecidableEq C] (hasher : Nat → Nat) (r : IdAllocation C) (op : IdOp C) (r' : IdAllocation C) : Prop :=
  r.Owned op ∧ ∃ id success, r.next hasher op = some (r', id, success)

structure Allocated [DecidableEq C] (hasher : Nat → Nat) (r : IdAllocation C) : Prop where
  distinct : r.ids.Nodup
  bounded : ∀ id ∈ r.ids, id < kConnectionIdCount
  unused_nodup : r.map.unused.Nodup
  mem_unused : ∀ id, id ∈ r.map.unused ↔ id < 256 ∧ id ∉ r.ids
  /-- Insertion ends. It succeeds with a new id where one is left, and with one of one byte where one of
  those is left. -/
  inserts : ∀ idOut connection, ∃ r' id success,
    r.next hasher (.insert idOut connection) = some (r', id, success) ∧
      (r.live.length < kConnectionIdCount → success = true ∧ id ∉ r.ids) ∧
      ((∃ free < 256, free ∉ r.ids) → success = true ∧ id < 256)
  removes : ∀ id connection, (id, connection) ∈ r.live → ∃ r',
    r.next hasher (.remove id connection) = some (r', id, true)

end IdAllocation

section Cursor

open ConnectionIdMap

theorem advance_range (n : Nat) : 256 ≤ advance n ∧ advance n < kConnectionIdCount := by
  unfold advance kConnectionIdCount
  dsimp only
  split <;> omega

theorem advance_iterate {n k : Nat} (hn : 256 ≤ n) (hk : n + k < kConnectionIdCount) :
    advance^[k] n = n + k := by
  induction k with
  | zero => rfl
  | succ k ih =>
    rw [Function.iterate_succ_apply', ih (by omega), advance]
    unfold kConnectionIdCount at hk ⊢
    rw [if_neg (by omega)]
    omega

theorem advance_last : advance (kConnectionIdCount - 1) = 256 := by
  unfold advance kConnectionIdCount
  decide

theorem advance_reaches (n : Nat) {id : Nat} (hid : 256 ≤ id) (hlt : id < kConnectionIdCount) :
    ∃ k < kConnectionIdCount, advance^[k + 1] n = id := by
  obtain ⟨hlow, hhigh⟩ := advance_range n
  by_cases hahead : advance n ≤ id
  · refine ⟨id - advance n, by omega, ?_⟩
    rw [Function.iterate_succ_apply, advance_iterate hlow (by omega)]
    omega
  · -- up to the end of the range, and around
    refine ⟨(id - 256) + (1 + (kConnectionIdCount - 1 - advance n)), by omega, ?_⟩
    rw [Function.iterate_succ_apply, Function.iterate_add_apply, Function.iterate_add_apply,
      advance_iterate hlow (by omega), Function.iterate_one,
      show advance n + (kConnectionIdCount - 1 - advance n) = kConnectionIdCount - 1 by omega,
      advance_last, advance_iterate (le_refl 256) (by omega)]
    omega

variable {hasher : Nat → Nat} {s : KeyMap Nat C}

theorem findUnusedId_spec (hroom : s.keys.length < kMaxKeys) (connection : C) {fuel n : Nat}
    {m : LightHashMap Nat C} (h : Refines hasher m s)
    (hfree : ∃ k < fuel, s.lookup (advance^[k + 1] n) = none) :
    ∃ m' id, findUnusedId hasher connection fuel m n = some (m', id) ∧ s.lookup id = none ∧
      256 ≤ id ∧ id < kConnectionIdCount ∧ Refines hasher m' (AList.insert id connection s) := by
  induction fuel generalizing n with
  | zero =>
    obtain ⟨k, hk, -⟩ := hfree
    omega
  | succ fuel ih =>
    obtain ⟨hlow, hhigh⟩ := advance_range n
    rcases ConnectionMap.insert_cases h (advance n) connection with ⟨htaken, hinsert⟩ |
      ⟨hlookup, -, m', hinsert, hnext⟩
    · have hne : s.lookup (advance n) ≠ none := fun hnone => absurd (htaken hnone) (by omega)
      obtain ⟨k, hk, hlookup⟩ := hfree
      cases k with
      | zero => exact absurd hlookup hne
      | succ k =>
        rw [findUnusedId, hinsert]
        exact ih ⟨k, by omega, by rwa [Function.iterate_succ_apply] at hlookup⟩
    · exact ⟨m', advance n, by rw [findUnusedId, hinsert], hlookup, hlow, hhigh, hnext⟩

end Cursor

namespace IdAllocation

/-- The map has the ids that are assigned, with their owners, and the stack those of one byte that are
not. -/
structure Inv (hasher : Nat → Nat) (r : IdAllocation C) (s : KeyMap Nat C) : Prop where
  refines : Refines hasher r.map.idMap s
  lookup : ∀ id connection, s.lookup id = some connection ↔ (id, connection) ∈ r.live
  distinct : r.ids.Nodup
  bounded : ∀ id ∈ r.ids, id < kConnectionIdCount
  unused_nodup : r.map.unused.Nodup
  mem_unused : ∀ id, id ∈ r.map.unused ↔ id < 256 ∧ id ∉ r.ids

variable {hasher : Nat → Nat} {r : IdAllocation C} {s : KeyMap Nat C}

theorem mem_ids {id : Nat} : id ∈ r.ids ↔ ∃ connection, (id, connection) ∈ r.live := by
  simp [ids]

theorem Inv.lookup_none (h : r.Inv hasher s) {id : Nat} : s.lookup id = none ↔ id ∉ r.ids := by
  rw [mem_ids, Option.eq_none_iff_forall_ne_some, not_exists]
  exact forall_congr' fun connection => not_congr (h.lookup id connection)

theorem Inv.length_keys (h : r.Inv hasher s) : s.keys.length = r.live.length := by
  have hperm : s.keys.Perm r.ids := by
    rw [List.perm_ext_iff_of_nodup s.keys_nodup h.distinct]
    intro id
    rw [← AList.mem_keys, ← AList.lookup_isSome, Option.isSome_iff_exists, mem_ids]
    exact exists_congr fun connection => h.lookup id connection
  rw [hperm.length_eq, ids, List.length_map]

theorem Inv.length_live_le (h : r.Inv hasher s) : r.live.length ≤ kConnectionIdCount := by
  have hsub : r.ids ⊆ List.range kConnectionIdCount := fun id hid => List.mem_range.2 (h.bounded id hid)
  have hle := (h.distinct.subperm hsub).length_le
  rwa [ids, List.length_map, List.length_range] at hle

theorem Inv.room (h : r.Inv hasher s) : s.keys.length < kMaxKeys := by
  have hle := h.length_live_le
  rw [h.length_keys]
  unfold kConnectionIdCount at hle
  unfold kMaxKeys
  omega

theorem exists_free (hlt : r.live.length < kConnectionIdCount) :
    ∃ id < kConnectionIdCount, id ∉ r.ids := by
  by_contra hall
  push Not at hall
  have hsub : List.range kConnectionIdCount ⊆ r.ids := fun id hid => hall id (List.mem_range.1 hid)
  have hle := (List.nodup_range.subperm hsub).length_le
  rw [ids, List.length_map, List.length_range] at hle
  omega

theorem Inv.one_byte_iff (h : r.Inv hasher s) :
    0 < r.map.bestUnusedCount ↔ ∃ id < 256, id ∉ r.ids := by
  have hlength : r.map.unused.length = r.map.bestUnusedCount := by simp [ConnectionIdMap.unused]
  rw [← hlength, List.length_pos_iff_exists_mem]
  exact exists_congr h.mem_unused

theorem inv_start (timeUsec : Nat) : (start timeUsec : IdAllocation C).Inv hasher ∅ := by
  have hunused (i : Nat) : ((ConnectionIdMap.new timeUsec : ConnectionIdMap C).bestUnusedIds i).toNat =
      (255 - i + timeUsec % 256) % 256 := by
    rw [ConnectionIdMap.new, UInt8.toNat_ofNat']
  refine ⟨refines_new, ?_, List.nodup_nil, nofun, ?_, ?_⟩
  · intro id connection
    rw [AList.lookup_empty]
    exact iff_of_false nofun nofun
  · refine List.Nodup.map_on ?_ List.nodup_range
    intro i hi j hj heq
    have hi := List.mem_range.1 hi
    have hj := List.mem_range.1 hj
    rw [start, hunused, hunused] at heq
    change i < 256 at hi
    change j < 256 at hj
    omega
  · intro id
    simp only [ConnectionIdMap.unused, List.mem_map, List.mem_range]
    constructor
    · rintro ⟨i, -, rfl⟩
      exact ⟨UInt8.toNat_lt _, nofun⟩
    · rintro ⟨hid, -⟩
      refine ⟨(255 + timeUsec % 256 - id) % 256, ?_, ?_⟩
      · exact Nat.mod_lt _ (by decide)
      · rw [start, hunused]
        omega

theorem Inv.assign (h : r.Inv hasher s) {id : Nat} {connection : C} {map : ConnectionIdMap C}
    (hfree : id ∉ r.ids) (hid : id < kConnectionIdCount)
    (hrefines : Refines hasher map.idMap (AList.insert id connection s)) (hnodup : map.unused.Nodup)
    (hmem : ∀ x, x ∈ map.unused ↔ x ∈ r.map.unused ∧ x ≠ id) :
    Inv hasher ⟨map, (id, connection) :: r.live⟩ (AList.insert id connection s) := by
  refine ⟨hrefines, ?_, ?_, ?_, hnodup, ?_⟩
  · intro x c
    by_cases hx : x = id
    · subst hx
      have hnone : ∀ c, (x, c) ∉ r.live := fun c hc => hfree (mem_ids.2 ⟨c, hc⟩)
      rw [AList.lookup_insert]
      simp [hnone, eq_comm]
    · rw [AList.lookup_insert_ne hx, h.lookup]
      simp [hx]
  · exact List.nodup_cons.2 ⟨hfree, h.distinct⟩
  · intro x hx
    rcases List.mem_cons.1 hx with rfl | hx
    · exact hid
    · exact h.bounded x hx
  · intro x
    rw [hmem, h.mem_unused]
    simp only [ids, List.map_cons, List.mem_cons, not_or]
    tauto

theorem Inv.insert (h : r.Inv hasher s) (idOut : Nat) (connection : C) :
    ∃ map id success, r.map.insertAndAssignId hasher idOut connection = some (map, id, success) ∧
      (∃ s', Inv hasher ⟨map, if success then (id, connection) :: r.live else r.live⟩ s') ∧
      (r.live.length < kConnectionIdCount → success = true ∧ id ∉ r.ids) ∧
      (0 < r.map.bestUnusedCount → success = true ∧ id < 256) := by
  unfold ConnectionIdMap.insertAndAssignId
  by_cases hbest : 0 < r.map.bestUnusedCount
  · rw [if_pos hbest]
    obtain ⟨count, hcount⟩ := Nat.exists_eq_succ_of_ne_zero hbest.ne'
    have hunused : r.map.unused = (List.range count).map (fun i => (r.map.bestUnusedIds i).toNat) ++
        [(r.map.bestUnusedIds count).toNat] := by
      rw [ConnectionIdMap.unused, hcount, Nat.succ_eq_add_one, List.range_succ, List.map_append]
      rfl
    have htop : r.map.bestUnusedCount - 1 = count := by omega
    have hnodup := h.unused_nodup
    rw [hunused, List.nodup_append] at hnodup
    have hid : (r.map.bestUnusedIds count).toNat ∈ r.map.unused := by simp [hunused]
    obtain ⟨hbyte, hfree⟩ := (h.mem_unused _).1 hid
    have hnone := h.lookup_none.2 hfree
    rcases ConnectionMap.insert_cases h.refines (r.map.bestUnusedIds count).toNat connection with
      ⟨htaken, -⟩ | ⟨-, -, idMap, hinsert, hnext⟩
    · exact absurd (htaken hnone) (Nat.not_le.2 h.room)
    simp only [htop, hinsert, Option.map_some, if_true]
    refine ⟨_, _, true, rfl, ⟨_, h.assign hfree ?_ hnext hnodup.1 ?_⟩, fun _ => ⟨rfl, hfree⟩,
      fun _ => ⟨rfl, hbyte⟩⟩
    · unfold kConnectionIdCount
      omega
    · intro x
      rw [hunused, List.mem_append, List.mem_singleton]
      show x ∈ (List.range count).map (fun i => (r.map.bestUnusedIds i).toNat) ↔ _
      constructor
      · intro hx
        exact ⟨.inl hx, hnodup.2.2 x hx _ (List.mem_singleton_self _)⟩
      · rintro ⟨hx | hx, hne⟩
        · exact hx
        · exact absurd hx hne
  · rw [if_neg hbest]
    by_cases hfull : kConnectionIdCount ≤ r.map.idMap.numValid
    · rw [if_pos hfull, h.refines.size, h.length_keys] at *
      exact ⟨_, _, false, rfl, ⟨s, h⟩, fun hlt => absurd hlt (by omega), fun hpos => absurd hpos hbest⟩
    · rw [if_neg hfull]
      rw [h.refines.size, h.length_keys] at hfull
      obtain ⟨id, hid, hfree⟩ := exists_free (r := r) (by omega)
      have hlow : 256 ≤ id := by
        by_contra hbyte
        exact hbest (h.one_byte_iff.2 ⟨id, by omega, hfree⟩)
      obtain ⟨k, hk, hreach⟩ := advance_reaches r.map.nextId hlow hid
      obtain ⟨idMap, id, hfind, hnone, hlow, hlt, hnext⟩ := findUnusedId_spec h.room connection
        h.refines ⟨k, hk, by rw [hreach]; exact h.lookup_none.2 hfree⟩
      have hnew := h.lookup_none.1 hnone
      rw [hfind]
      refine ⟨_, _, true, rfl, ⟨_, h.assign hnew hlt hnext h.unused_nodup ?_⟩,
        fun _ => ⟨rfl, hnew⟩, fun hpos => absurd hpos hbest⟩
      intro x
      refine ⟨fun hx => ⟨hx, ?_⟩, And.left⟩
      have hbyte := ((h.mem_unused x).1 hx).1
      omega

variable [DecidableEq C]

theorem Inv.mem_ids_erase (h : r.Inv hasher s) {id : Nat} {connection : C}
    (hlive : (id, connection) ∈ r.live) (map : ConnectionIdMap C) (x : Nat) :
    x ∈ ids ⟨map, r.live.erase (id, connection)⟩ ↔ x ∈ r.ids ∧ x ≠ id := by
  have hnodup : r.live.Nodup := h.distinct.of_map
  simp only [mem_ids, hnodup.mem_erase_iff]
  constructor
  · rintro ⟨c, hne, hc⟩
    refine ⟨⟨c, hc⟩, ?_⟩
    rintro rfl
    have hsame := ((h.lookup _ _).2 hc).symm.trans ((h.lookup _ _).2 hlive)
    cases hsame
    exact hne rfl
  · rintro ⟨⟨c, hc⟩, hne⟩
    exact ⟨c, fun heq => hne (congrArg Prod.fst heq), hc⟩

theorem Inv.release (h : r.Inv hasher s) {id : Nat} {connection : C} {map : ConnectionIdMap C}
    (hlive : (id, connection) ∈ r.live) (hrefines : Refines hasher map.idMap (s.erase id))
    (hnodup : map.unused.Nodup)
    (hmem : ∀ x, x ∈ map.unused ↔ x ∈ r.map.unused ∨ x < 256 ∧ x = id) :
    Inv hasher ⟨map, r.live.erase (id, connection)⟩ (s.erase id) := by
  have hlookup := (h.lookup _ _).2 hlive
  refine ⟨hrefines, ?_, ?_, ?_, hnodup, ?_⟩
  · intro x c
    rw [h.distinct.of_map.mem_erase_iff]
    by_cases hx : x = id
    · subst hx
      rw [AList.lookup_erase]
      refine iff_of_false nofun ?_
      rintro ⟨hne, hc⟩
      have hsame := ((h.lookup _ _).2 hc).symm.trans hlookup
      cases hsame
      exact hne rfl
    · rw [AList.lookup_erase_ne hx, h.lookup]
      simp [hx]
  · exact h.distinct.sublist (List.erase_sublist.map Prod.fst)
  · intro x hx
    exact h.bounded x ((h.mem_ids_erase hlive map x).1 hx).1
  · intro x
    rw [hmem, h.mem_unused, h.mem_ids_erase hlive]
    have hid : id ∈ r.ids := mem_ids.2 ⟨connection, hlive⟩
    constructor
    · rintro (⟨hbyte, hfree⟩ | ⟨hbyte, rfl⟩)
      · exact ⟨hbyte, fun hboth => hfree hboth.1⟩
      · exact ⟨hbyte, fun hboth => hboth.2 rfl⟩
    · rintro ⟨hbyte, hfree⟩
      by_cases hx : x = id
      · exact .inr ⟨hbyte, hx⟩
      · exact .inl ⟨hbyte, fun hmem => hfree ⟨hmem, hx⟩⟩

theorem Inv.remove (h : r.Inv hasher s) {id : Nat} {connection : C}
    (hlive : (id, connection) ∈ r.live) :
    ∃ map, r.map.removeAndUnassignId hasher id connection = some (map, true) ∧
      ∃ s', Inv hasher ⟨map, r.live.erase (id, connection)⟩ s' := by
  have hid : id ∈ r.ids := mem_ids.2 ⟨connection, hlive⟩
  have hbound := h.bounded id hid
  have hvalid : id ≠ kInvalidId := by
    unfold kConnectionIdCount at hbound
    unfold kInvalidId
    omega
  have hlookup := (h.lookup _ _).2 hlive
  rcases ConnectionMap.remove_cases h.refines id connection with ⟨hother, -⟩ |
    ⟨-, idMap, hremove, hnext⟩
  · exact absurd hlookup hother
  unfold ConnectionIdMap.removeAndUnassignId
  rw [if_neg hvalid]
  by_cases hbyte : id < 256
  · have hstack : (r.map.unused ++ [id]).Nodup := by
      rw [List.nodup_append]
      refine ⟨h.unused_nodup, List.nodup_singleton id, ?_⟩
      intro x hx y hy
      rw [List.mem_singleton.1 hy]
      rintro rfl
      exact ((h.mem_unused _).1 hx).2 hid
    have hcount : r.map.bestUnusedCount < 256 := by
      have hsub : r.map.unused ++ [id] ⊆ List.range 256 := by
        intro x hx
        rcases List.mem_append.1 hx with hx | hx
        · exact List.mem_range.2 ((h.mem_unused x).1 hx).1
        · rw [List.mem_singleton.1 hx]
          exact List.mem_range.2 hbyte
      have hle := (hstack.subperm hsub).length_le
      simp only [ConnectionIdMap.unused, List.length_append, List.length_map, List.length_range,
        List.length_singleton] at hle
      omega
    simp only [if_pos (And.intro hbyte hcount), hremove, Option.map_some]
    have hunused : ConnectionIdMap.unused ⟨idMap,
        Function.update r.map.bestUnusedIds r.map.bestUnusedCount (.ofNat id),
        r.map.bestUnusedCount + 1, r.map.nextId⟩ = r.map.unused ++ [id] := by
      simp only [ConnectionIdMap.unused, List.range_succ, List.map_append, List.map_singleton,
        Function.update_self, UInt8.toNat_ofNat', Nat.mod_eq_of_lt hbyte]
      congr 1
      refine List.map_congr_left fun i hi => ?_
      rw [Function.update_of_ne (List.mem_range.1 hi).ne]
    refine ⟨_, rfl, _, h.release hlive hnext ?_ ?_⟩
    · rw [hunused]
      exact hstack
    · intro x
      rw [hunused, List.mem_append, List.mem_singleton]
      refine or_congr_right ⟨fun hx => ⟨hx ▸ hbyte, hx⟩, And.right⟩
  · simp only [if_neg fun hboth => hbyte (And.left hboth), hremove, Option.map_some]
    refine ⟨_, rfl, _, h.release hlive hnext h.unused_nodup ?_⟩
    intro x
    refine ⟨.inl, fun hx => hx.resolve_right ?_⟩
    rintro ⟨hlt, rfl⟩
    exact hbyte hlt

theorem Inv.step {r' : IdAllocation C} {op : IdOp C} (h : ∃ s, r.Inv hasher s)
    (hstep : r.Step hasher op r') : ∃ s, r'.Inv hasher s := by
  obtain ⟨s, h⟩ := h
  obtain ⟨howned, id, success, hnext⟩ := hstep
  cases op with
  | insert idOut connection =>
    obtain ⟨map, id', success', hinsert, hinv, -, -⟩ := h.insert idOut connection
    rw [next, hinsert] at hnext
    cases hnext
    exact hinv
  | remove id' connection =>
    obtain ⟨map, hremove, hinv⟩ := h.remove howned
    rw [next, hremove] at hnext
    cases hnext
    exact hinv

theorem Inv.allocated (h : r.Inv hasher s) : r.Allocated hasher where
  distinct := h.distinct
  bounded := h.bounded
  unused_nodup := h.unused_nodup
  mem_unused := h.mem_unused
  inserts idOut connection := by
    obtain ⟨map, id, success, hinsert, -, hnew, hbyte⟩ := h.insert idOut connection
    refine ⟨_, id, success, by rw [next, hinsert]; rfl, hnew, fun hfree => ?_⟩
    exact hbyte (h.one_byte_iff.2 hfree)
  removes id connection hlive := by
    obtain ⟨map, hremove, -⟩ := h.remove hlive
    exact ⟨_, by rw [next, hremove]; rfl⟩

/-- After every sequence of insertions and of removals by the owners. -/
theorem run_allocated {timeUsec : Nat} {ops : List (IdOp C)} (hrun : Run (Step hasher) (start timeUsec) ops r) :
    r.Allocated hasher := by
  have hinv : ∃ s, r.Inv hasher s :=
    hrun.invariant ⟨∅, inv_start timeUsec⟩ fun _ _ _ h hstep => Inv.step h hstep
  obtain ⟨s, h⟩ := hinv
  exact h.allocated

/-- Id 5 is assigned, given back and assigned again. -/
theorem run_allocated_again : ∃ r : IdAllocation Nat,
    Run (Step id) (start 5) [.insert 0 7, .remove 5 7, .insert 0 8] r ∧ r.live = [(5, 8)] ∧
      r.Allocated id := by
  have hrun : Run (Step id) (start 5) [.insert 0 7, .remove 5 7, .insert 0 8] _ :=
    .cons ⟨trivial, 5, true, rfl⟩ <| .cons ⟨List.mem_singleton_self _, 5, true, rfl⟩ <|
      .cons ⟨trivial, 5, true, rfl⟩ <| .nil _
  exact ⟨_, hrun, rfl, run_allocated hrun⟩

end IdAllocation

end Tonk.Socket
