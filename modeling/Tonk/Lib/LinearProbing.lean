import Mathlib.Tactic

/-!
Open addressing with linear probing over a cyclic table of `n` slots. Probes go down from the home of
a key, from slot 0 to slot `n - 1`; erasing moves entries up into the hole.
-/

set_option autoImplicit false

namespace LinearProbing

section Positions

def prev (n i : Nat) : Nat := if i = 0 then n - 1 else i - 1

def down (n r t : Nat) : Nat := if t ≤ r then r - t else r + n - t

def dist (n r p : Nat) : Nat := if p ≤ r then r - p else r + n - p

variable {n r p j t : Nat}

theorem down_lt (hr : r < n) (ht : t ≤ n) : down n r t < n := by
  unfold down
  split <;> omega

theorem dist_lt (hr : r < n) (hp : p < n) : dist n r p < n := by
  unfold dist
  split <;> omega

@[simp] theorem down_zero (n r : Nat) : down n r 0 = r := rfl

@[simp] theorem dist_self (n r : Nat) : dist n r r = 0 := by simp [dist]

theorem down_dist (hr : r < n) (hp : p < n) : down n r (dist n r p) = p := by
  unfold down dist
  split <;> split <;> omega

theorem dist_down (hr : r < n) (ht : t < n) : dist n r (down n r t) = t := by
  unfold down dist
  split <;> split <;> omega

theorem down_succ (hr : r < n) (ht : t < n) : down n r (t + 1) = prev n (down n r t) := by
  unfold down prev
  split <;> split <;> split <;> omega

theorem down_inj (hr : r < n) {u : Nat} (ht : t < n) (hu : u < n)
    (h : down n r t = down n r u) : t = u := by
  rw [← dist_down hr ht, h, dist_down hr hu]

theorem dist_add (hp : p < n) (hj : j < n) (h : dist n r j ≤ dist n r p) :
    dist n r p = dist n r j + dist n j p := by
  by_cases hrj : j ≤ r <;> by_cases hrp : p ≤ r <;> by_cases hjp : p ≤ j <;>
    simp only [dist, hrj, hrp, hjp, if_true, if_false] at h ⊢ <;> omega

theorem down_dist_add (hr : r < n) (hj : j < n) (h : dist n r j + t < n) :
    down n r (dist n r j + t) = down n j t := by
  by_cases hrj : j ≤ r <;> simp only [dist, hrj, if_true, if_false] at h ⊢ <;>
    simp only [down] <;> split <;> split <;> omega

end Positions

variable {K V : Type}

abbrev Table (K V : Type) := Nat → Option (K × V)

/-- Every slot between the home of an entry and its place is taken, or the hole; there is no hole
where `hole` is not a slot. -/
def Unbroken (n : Nat) (home : K → Nat) (table : Table K V) (hole : Nat) : Prop :=
  ∀ p < n, ∀ kv, table p = some kv → ∀ t < dist n (home kv.1) p,
    table (down n (home kv.1) t) ≠ none ∨ down n (home kv.1) t = hole

def Rejected (n : Nat) (table : Table K V) (test : K → Bool) (r t : Nat) : Prop :=
  ∀ u < t, ∃ kv, table (down n r u) = some kv ∧ test kv.1 = false

inductive Probe where
  | found (p : Nat)
  | free (p : Nat)
  | full
  deriving DecidableEq

/-- The way down from a slot that has been looked at. Nothing when the fuel runs out. -/
def probeLoop (n : Nat) (table : Table K V) (test : K → Bool) (orig : Nat) :
    Nat → Nat → Option Probe
  | 0, _ => none
  | fuel + 1, index =>
    let index := prev n index
    if index = orig then some .full
    else
      match table index with
      | none => some (.free index)
      | some kv => if test kv.1 then some (.found index) else probeLoop n table test orig fuel index

/-- The first slot from `orig` on that is free or has an entry that passes the test. -/
def probe (n : Nat) (table : Table K V) (test : K → Bool) (orig : Nat) : Option Probe :=
  match table orig with
  | none => some (.free orig)
  | some kv => if test kv.1 then some (.found orig) else probeLoop n table test orig n orig

def Answers (n : Nat) (table : Table K V) (test : K → Bool) (r : Nat) : Probe → Prop
  | .found p => p < n ∧ ∃ kv, table p = some kv ∧ test kv.1 = true
  | .free p => p < n ∧ table p = none ∧ Rejected n table test r (dist n r p)
  | .full => Rejected n table test r n

section Probing

variable {n : Nat} {table : Table K V} {test : K → Bool} {r : Nat}

theorem Rejected.succ {t : Nat} (h : Rejected n table test r t) {kv : K × V}
    (hkv : table (down n r t) = some kv) (htest : test kv.1 = false) :
    Rejected n table test r (t + 1) := by
  intro u hu
  rcases Nat.lt_succ_iff_lt_or_eq.mp hu with hlt | rfl
  · exact h u hlt
  · exact ⟨kv, hkv, htest⟩

theorem probeLoop_answers (hr : r < n) {t fuel : Nat} (ht : t < n) (hfuel : n ≤ t + fuel)
    (h : Rejected n table test r (t + 1)) :
    ∃ answer, probeLoop n table test r fuel (down n r t) = some answer ∧
      Answers n table test r answer := by
  induction fuel generalizing t with
  | zero => omega
  | succ fuel ih =>
    have hnext := down_succ hr ht
    rw [probeLoop, ← hnext]
    by_cases hround : t + 1 = n
    · have horig : down n r (t + 1) = r := by
        rw [hround]
        unfold down
        split <;> omega
      have hall : Rejected n table test r n := fun u hu => h u (by omega)
      exact ⟨.full, if_pos horig, hall⟩
    · have hne : down n r (t + 1) ≠ r := by
        intro heq
        have := down_inj hr (show t + 1 < n by omega) (show 0 < n by omega) (by simpa using heq)
        omega
      have hlt : down n r (t + 1) < n := down_lt hr (by omega)
      rw [if_neg hne]
      cases hslot : table (down n r (t + 1)) with
      | none =>
        refine ⟨.free _, rfl, hlt, hslot, ?_⟩
        rw [dist_down hr (by omega)]
        exact h
      | some kv =>
        simp only
        cases htest : test kv.1 with
        | true => exact ⟨.found _, if_pos rfl, hlt, kv, hslot, htest⟩
        | false =>
          rw [if_neg (by decide)]
          exact ih (by omega) (by omega) (h.succ hslot htest)

theorem probe_answers (table : Table K V) (test : K → Bool) (hr : r < n) : ∃ answer, probe n table test r = some answer ∧
    Answers n table test r answer := by
  unfold probe
  cases hslot : table r with
  | none =>
    refine ⟨.free r, rfl, hr, hslot, ?_⟩
    intro u hu
    rw [dist_self] at hu
    omega
  | some kv =>
    simp only
    cases htest : test kv.1 with
    | true => exact ⟨.found r, if_pos rfl, hr, kv, hslot, htest⟩
    | false =>
      rw [if_neg (by decide)]
      refine probeLoop_answers hr (t := 0) (by omega) (by omega) ?_
      intro u hu
      obtain rfl : u = 0 := by omega
      exact ⟨kv, hslot, htest⟩

theorem Unbroken.absent {home : K → Nat} {hole : Nat} (h : Unbroken n home table hole)
    (hhole : n ≤ hole) {k : K} (hhome : home k < n) {answer : Probe}
    (hanswer : Answers n table test (home k) answer) (htest : test k = true)
    (hnot : ∀ p, answer ≠ .found p) {p : Nat} (hp : p < n) (v : V) : table p ≠ some (k, v) := by
  intro hslot
  have hdist := dist_lt hhome hp
  have hplace := down_dist hhome hp
  have hreject : ∀ t, Rejected n table test (home k) t → t ≤ dist n (home k) p := by
    intro t ht
    by_contra hlt
    obtain ⟨kv, hkv, hfalse⟩ := ht _ (Nat.lt_of_not_le hlt)
    rw [hplace, hslot] at hkv
    cases hkv
    rw [htest] at hfalse
    cases hfalse
  cases answer with
  | found p => exact hnot p rfl
  | full =>
    have := hreject n hanswer
    omega
  | free q =>
    obtain ⟨hq, hfree, hrejected⟩ := hanswer
    have hle := hreject _ hrejected
    have hqplace := down_dist hhome hq
    rcases Nat.lt_or_eq_of_le hle with hlt | heq
    · rcases h p hp (k, v) hslot _ hlt with htaken | hhole'
      · exact htaken (by rw [hqplace]; exact hfree)
      · rw [hqplace] at hhole'
        omega
    · have hsame : q = p := by rw [← hqplace, heq, hplace]
      rw [hsame, hslot] at hfree
      cases hfree

theorem Unbroken.insert {home : K → Nat} {hole : Nat} (h : Unbroken n home table hole) {k : K}
    {v : V} {p : Nat} (hrejected : Rejected n table test (home k) (dist n (home k) p)) :
    Unbroken n home (Function.update table p (some (k, v))) hole := by
  have htaken : ∀ q, table q ≠ none → Function.update table p (some (k, v)) q ≠ none := by
    intro q hq
    by_cases hqp : q = p
    · subst hqp
      simp
    · rwa [Function.update_of_ne hqp]
  intro q hq kv hkv t ht
  by_cases hqp : q = p
  · subst hqp
    rw [Function.update_self] at hkv
    cases hkv
    obtain ⟨kv', hkv', -⟩ := hrejected t ht
    exact .inl (htaken _ (by rw [hkv']; exact Option.some_ne_none _))
  · rw [Function.update_of_ne hqp] at hkv
    rcases h q hq kv hkv t ht with hslot | hhole
    · exact .inl (htaken _ hslot)
    · exact .inr hhole

end Probing

section Contents

variable {n : Nat} {home : K → Nat} {table : Table K V}

def Holds (n : Nat) (table : Table K V) (k : K) (v : V) : Prop := ∃ p < n, table p = some (k, v)

def taken (n : Nat) (table : Table K V) : Nat :=
  ((Finset.range n).filter fun p => (table p).isSome).card

structure Sound (n : Nat) (home : K → Nat) (table : Table K V) : Prop where
  unbroken : Unbroken n home table n
  distinct : ∀ p < n, ∀ q < n, ∀ k v w, table p = some (k, v) → table q = some (k, w) → p = q

theorem Sound.unique (h : Sound n home table) {k : K} {v w : V} (hv : Holds n table k v)
    (hw : Holds n table k w) : v = w := by
  obtain ⟨p, hp, hkv⟩ := hv
  obtain ⟨q, hq, hkw⟩ := hw
  obtain rfl := h.distinct p hp q hq k v w hkv hkw
  rw [hkv] at hkw
  cases hkw
  rfl

theorem taken_le (n : Nat) (table : Table K V) : taken n table ≤ n := by
  have := Finset.card_filter_le (Finset.range n) fun p => (table p).isSome
  rwa [Finset.card_range] at this

theorem taken_zero_iff : taken n table = 0 ↔ ∀ p < n, table p = none := by
  simp only [taken, Finset.card_eq_zero, Finset.filter_eq_empty_iff, Finset.mem_range,
    Option.not_isSome_iff_eq_none]

theorem exists_free (h : taken n table < n) : ∃ p < n, table p = none := by
  by_contra hnone
  push Not at hnone
  have hall : (Finset.range n).filter (fun p => (table p).isSome) = Finset.range n := by
    apply Finset.filter_true_of_mem
    intro p hp
    exact Option.isSome_iff_ne_none.mpr (hnone p (Finset.mem_range.mp hp))
  rw [taken, hall, Finset.card_range] at h
  exact lt_irrefl n h

theorem not_full (h : taken n table < n) {test : K → Bool} {r : Nat} (hr : r < n) :
    ¬ Answers n table test r .full := by
  intro hfull
  obtain ⟨p, hp, hfree⟩ := exists_free h
  obtain ⟨kv, hkv, -⟩ := hfull _ (dist_lt hr hp)
  rw [down_dist hr hp, hfree] at hkv
  cases hkv

theorem taken_succ (n : Nat) (table : Table K V) :
    taken (n + 1) table = taken n table + if (table n).isSome then 1 else 0 := by
  rw [taken, Finset.range_add_one, Finset.filter_insert]
  split
  · rw [Finset.card_insert_of_notMem]
    · rfl
    · simp
  · rfl

theorem taken_mono (table : Table K V) {m : Nat} (h : m ≤ n) : taken m table ≤ taken n table :=
  Finset.card_le_card (Finset.filter_subset_filter _ (Finset.range_mono h))

theorem free_of_taken_eq {m : Nat} (hmn : m ≤ n) (h : taken m table = taken n table) {p : Nat}
    (hmp : m ≤ p) (hpn : p < n) : table p = none := by
  by_contra hslot
  have hsub : (Finset.range m).filter (fun q => (table q).isSome) ⊂
      (Finset.range n).filter fun q => (table q).isSome := by
    rw [Finset.ssubset_iff_of_subset]
    · refine ⟨p, ?_, ?_⟩
      · simp [hpn, Option.isSome_iff_ne_none, hslot]
      · simp [hmp]
    · intro q hq
      rw [Finset.mem_filter, Finset.mem_range] at hq ⊢
      exact ⟨hq.1.trans_le hmn, hq.2⟩
  have := Finset.card_lt_card hsub
  unfold taken at h
  omega

theorem taken_insert {p : Nat} (hp : p < n) (hfree : table p = none) (kv : K × V) :
    taken n (Function.update table p (some kv)) = taken n table + 1 := by
  have hset : (Finset.range n).filter (fun q => (Function.update table p (some kv) q).isSome) =
      insert p ((Finset.range n).filter fun q => (table q).isSome) := by
    ext q
    by_cases hqp : q = p
    · subst hqp
      simp [hp]
    · simp [hqp]
  rw [taken, hset, Finset.card_insert_of_notMem]
  · rfl
  · simp [hfree]

theorem taken_free {p : Nat} (hp : p < n) {kv : K × V} (hkv : table p = some kv) :
    taken n (Function.update table p none) + 1 = taken n table := by
  have hset : (Finset.range n).filter (fun q => (Function.update table p none q).isSome) =
      ((Finset.range n).filter fun q => (table q).isSome).erase p := by
    ext q
    by_cases hqp : q = p
    · subst hqp
      simp
    · simp [hqp]
  have hmem : p ∈ (Finset.range n).filter fun q => (table q).isSome := by
    simp [hp, hkv]
  rw [taken, hset]
  exact Finset.card_erase_add_one hmem

theorem holds_insert {p : Nat} (hp : p < n) (hfree : table p = none) (k : K) (v : V) (k' : K)
    (v' : V) : Holds n (Function.update table p (some (k, v))) k' v' ↔
      (k' = k ∧ v' = v) ∨ Holds n table k' v' := by
  constructor
  · rintro ⟨q, hq, hslot⟩
    by_cases hqp : q = p
    · subst hqp
      rw [Function.update_self] at hslot
      cases hslot
      exact .inl ⟨rfl, rfl⟩
    · rw [Function.update_of_ne hqp] at hslot
      exact .inr ⟨q, hq, hslot⟩
  · rintro (⟨rfl, rfl⟩ | ⟨q, hq, hslot⟩)
    · exact ⟨p, hp, Function.update_self ..⟩
    · refine ⟨q, hq, ?_⟩
      rw [Function.update_of_ne]
      · exact hslot
      · rintro rfl
        rw [hfree] at hslot
        cases hslot

theorem Sound.insert (h : Sound n home table) {k : K} {v : V} {p : Nat} {test : K → Bool}
    (hanswer : Answers n table test (home k) (.free p)) (habsent : ∀ w, ¬ Holds n table k w) :
    Sound n home (Function.update table p (some (k, v))) := by
  obtain ⟨hp, hfree, hrejected⟩ := hanswer
  refine ⟨h.unbroken.insert hrejected, ?_⟩
  intro q hq q' hq' k' v' w' hv hw
  by_cases hqp : q = p <;> by_cases hqp' : q' = p
  · rw [hqp, hqp']
  · subst hqp
    rw [Function.update_self] at hv
    rw [Function.update_of_ne hqp'] at hw
    cases hv
    exact absurd ⟨q', hq', hw⟩ (habsent w')
  · subst hqp'
    rw [Function.update_self] at hw
    rw [Function.update_of_ne hqp] at hv
    cases hw
    exact absurd ⟨q, hq, hv⟩ (habsent v')
  · rw [Function.update_of_ne hqp] at hv
    rw [Function.update_of_ne hqp'] at hw
    exact h.distinct q hq q' hq' k' v' w' hv hw

theorem Sound.answer (h : Sound n home table) {k : K} (hhome : home k < n) {answer : Probe}
    {test : K → Bool} (htest : ∀ k', test k' = true ↔ k' = k)
    (hanswer : Answers n table test (home k) answer) :
    match answer with
    | .found p => p < n ∧ ∃ v, table p = some (k, v) ∧ Holds n table k v
    | _ => ∀ v, ¬ Holds n table k v := by
  have habsent : (∀ p, answer ≠ .found p) → ∀ v, ¬ Holds n table k v := by
    rintro hnot v ⟨p, hp, hslot⟩
    exact h.unbroken.absent le_rfl hhome hanswer ((htest k).mpr rfl) hnot hp v hslot
  cases answer with
  | found p =>
    obtain ⟨hp, ⟨k', v⟩, hslot, hpass⟩ := hanswer
    obtain rfl := (htest k').mp hpass
    exact ⟨hp, v, hslot, p, hp, hslot⟩
  | free p => exact habsent (by simp)
  | full => exact habsent (by simp)

end Contents

section Replacing

variable {n : Nat} {home : K → Nat} {table : Table K V} {p : Nat} {k : K} {v : V}

theorem replace_key (hslot : table p = some (k, v)) (w : V) (q : Nat) :
    (Function.update table p (some (k, w)) q).map Prod.fst = (table q).map Prod.fst := by
  by_cases hqp : q = p
  · subst hqp
    rw [Function.update_self, hslot]
    rfl
  · rw [Function.update_of_ne hqp]

theorem replace_isSome (hslot : table p = some (k, v)) (w : V) (q : Nat) :
    (Function.update table p (some (k, w)) q).isSome = (table q).isSome := by
  rw [← Option.isSome_map, replace_key hslot w q, Option.isSome_map]

theorem taken_replace (hslot : table p = some (k, v)) (w : V) :
    taken n (Function.update table p (some (k, w))) = taken n table := by
  simp only [taken, replace_isSome hslot w]

theorem Sound.replace (h : Sound n home table) (hslot : table p = some (k, v)) (w : V) :
    Sound n home (Function.update table p (some (k, w))) := by
  have hkey {q : Nat} {kv : K × V} (hq : Function.update table p (some (k, w)) q = some kv) :
      ∃ u, table q = some (kv.1, u) := by
    have hfst := replace_key hslot w q
    rw [hq, Option.map_some] at hfst
    obtain ⟨⟨k', u⟩, hslot', rfl⟩ := Option.map_eq_some_iff.1 hfst.symm
    exact ⟨u, hslot'⟩
  refine ⟨fun q hq kv hkv t ht => ?_, fun q hq r hr k' v₁ v₂ hq' hr' => ?_⟩
  · obtain ⟨u, hold⟩ := hkey hkv
    rcases h.unbroken q hq _ hold t ht with htaken | hhole
    · refine .inl ?_
      rw [← Option.isSome_iff_ne_none] at htaken ⊢
      rwa [replace_isSome hslot]
    · exact .inr hhole
  · obtain ⟨u₁, hold₁⟩ := hkey hq'
    obtain ⟨u₂, hold₂⟩ := hkey hr'
    exact h.distinct q hq r hr k' u₁ u₂ hold₁ hold₂

theorem Sound.holds_replace (h : Sound n home table) (hp : p < n) (hslot : table p = some (k, v)) (w : V)
    (k' : K) (w' : V) : Holds n (Function.update table p (some (k, w))) k' w' ↔
      (k' = k ∧ w' = w) ∨ (k' ≠ k ∧ Holds n table k' w') := by
  constructor
  · rintro ⟨q, hq, hslot'⟩
    by_cases hqp : q = p
    · subst hqp
      rw [Function.update_self] at hslot'
      cases hslot'
      exact .inl ⟨rfl, rfl⟩
    · rw [Function.update_of_ne hqp] at hslot'
      refine .inr ⟨?_, q, hq, hslot'⟩
      rintro rfl
      exact hqp (h.distinct q hq p hp _ _ _ hslot' hslot)
  · rintro (⟨rfl, rfl⟩ | ⟨hne, q, hq, hslot'⟩)
    · exact ⟨p, hp, Function.update_self ..⟩
    · refine ⟨q, hq, ?_⟩
      rw [Function.update_of_ne]
      · exact hslot'
      · rintro rfl
        rw [hslot] at hslot'
        cases hslot'
        exact hne rfl

end Replacing

section Erasing

variable {n : Nat} {home : K → Nat} {table : Table K V}

/-- Closes the hole at `j`, from the slot below `i` on: an entry goes up into the hole where its way
passes it, and leaves a hole. Nothing when the fuel runs out. -/
def closeLoop (n : Nat) (home : K → Nat) :
    Nat → Table K V → Nat → Nat → Option (Table K V)
  | 0, _, _, _ => none
  | fuel + 1, table, j, i =>
    let i := prev n i
    match table i with
    | none => some table
    | some kv =>
      let r := home kv.1
      if (i ≤ r ∧ r < j) ∨ (r < j ∧ j < i) ∨ (j < i ∧ i ≤ r) then
        closeLoop n home fuel table j i
      else
        closeLoop n home fuel
          (Function.update (Function.update table j (some kv)) i none) i i

def Rearranged (n : Nat) (table table' : Table K V) : Prop :=
  ∃ σ : Equiv.Perm Nat, (∀ p, σ p < n ↔ p < n) ∧ table' = table ∘ σ

theorem Rearranged.refl (n : Nat) (table : Table K V) : Rearranged n table table :=
  ⟨Equiv.refl Nat, fun _ => Iff.rfl, rfl⟩

theorem Rearranged.trans {table' table'' : Table K V} (h : Rearranged n table table')
    (h' : Rearranged n table' table'') : Rearranged n table table'' := by
  obtain ⟨σ, hσ, rfl⟩ := h
  obtain ⟨τ, hτ, rfl⟩ := h'
  exact ⟨τ.trans σ, fun p => (hσ (τ p)).trans (hτ p), rfl⟩

theorem Rearranged.move {i j : Nat} (hi : i < n) (hj : j < n) {kv : K × V} (hkv : table i = some kv)
    (hhole : table j = none) :
    Rearranged n table (Function.update (Function.update table j (some kv)) i none) := by
  refine ⟨Equiv.swap i j, ?_, ?_⟩
  · intro p
    rw [Equiv.swap_apply_def]
    split
    · next heq => omega
    · split <;> omega
  · funext p
    rw [Function.comp_apply, Equiv.swap_apply_def]
    by_cases hpi : p = i
    · rw [if_pos hpi, hpi, Function.update_self, hhole]
    · rw [if_neg hpi, Function.update_of_ne hpi]
      by_cases hpj : p = j
      · rw [if_pos hpj, hpj, Function.update_self, hkv]
      · rw [if_neg hpj, Function.update_of_ne hpj]

theorem Rearranged.holds {table' : Table K V} (h : Rearranged n table table') (k : K) (v : V) :
    Holds n table' k v ↔ Holds n table k v := by
  obtain ⟨σ, hσ, rfl⟩ := h
  constructor
  · rintro ⟨p, hp, hslot⟩
    exact ⟨σ p, (hσ p).mpr hp, hslot⟩
  · rintro ⟨p, hp, hslot⟩
    refine ⟨σ.symm p, ?_, ?_⟩
    · rw [← hσ, Equiv.apply_symm_apply]
      exact hp
    · rw [Function.comp_apply, Equiv.apply_symm_apply]
      exact hslot

theorem Rearranged.taken_eq {table' : Table K V} (h : Rearranged n table table') :
    taken n table' = taken n table := by
  obtain ⟨σ, hσ, rfl⟩ := h
  apply Finset.card_bij fun p _ => σ p
  · intro p hp
    rw [Finset.mem_filter, Finset.mem_range] at hp ⊢
    exact ⟨(hσ p).mpr hp.1, hp.2⟩
  · intro p _ q _ heq
    exact σ.injective heq
  · intro p hp
    rw [Finset.mem_filter, Finset.mem_range] at hp
    refine ⟨σ.symm p, ?_, Equiv.apply_symm_apply σ p⟩
    rw [Finset.mem_filter, Finset.mem_range, Function.comp_apply, Equiv.apply_symm_apply, ← hσ,
      Equiv.apply_symm_apply]
    exact hp

theorem Rearranged.distinct {table' : Table K V} (h : Rearranged n table table')
    (hdistinct : ∀ p < n, ∀ q < n, ∀ k v w, table p = some (k, v) → table q = some (k, w) → p = q) :
    ∀ p < n, ∀ q < n, ∀ k v w, table' p = some (k, v) → table' q = some (k, w) → p = q := by
  obtain ⟨σ, hσ, rfl⟩ := h
  intro p hp q hq k v w hv hw
  exact σ.injective (hdistinct _ ((hσ p).mpr hp) _ ((hσ q).mpr hq) k v w hv hw)

theorem keep_iff {i j r : Nat} (hi : i < n) (hj : j < n) (hij : i ≠ j) :
    ((i ≤ r ∧ r < j) ∨ (r < j ∧ j < i) ∨ (j < i ∧ i ≤ r)) ↔ dist n r i ≤ dist n r j := by
  unfold dist
  split <;> split <;> omega

/-- The first `t` slots below the hole are taken by entries that the hole does not cut off. -/
def Settled (n : Nat) (home : K → Nat) (table : Table K V) (j t : Nat) : Prop :=
  ∀ u, 1 ≤ u → u ≤ t → ∃ kv, table (down n j u) = some kv ∧
    dist n (home kv.1) (down n j u) ≤ dist n (home kv.1) j

theorem Unbroken.closed {j t : Nat} (h : Unbroken n home table j) (hhome : ∀ k, home k < n)
    (hj : j < n) (ht : t + 1 < n) (hsettled : Settled n home table j t)
    (hfree : table (down n j (t + 1)) = none) : Unbroken n home table n := by
  intro p hp kv hkv u hu
  rcases h p hp kv hkv u hu with htaken | hcut
  · exact .inl htaken
  · exfalso
    have hdist : dist n (home kv.1) j = u := by
      rw [← hcut, dist_down (hhome _) (lt_trans hu (dist_lt (hhome _) hp))]
    have hadd := dist_add (r := home kv.1) hp hj (by omega)
    have hplace := down_dist hj hp
    have hlt := dist_lt (hhome kv.1) hp
    rcases Nat.lt_trichotomy (dist n j p) (t + 1) with hle | heq | hgt
    · obtain ⟨kv', hkv', hnot⟩ := hsettled (dist n j p) (by omega) (by omega)
      rw [hplace] at hkv' hnot
      rw [hkv] at hkv'
      cases hkv'
      omega
    · rw [heq] at hplace
      rw [hplace, hkv] at hfree
      cases hfree
    · have hway := down_dist_add (hhome kv.1) hj (t := t + 1) (by omega)
      rcases h p hp kv hkv (dist n (home kv.1) j + (t + 1)) (by omega) with htaken | hsame
      · exact htaken (by rw [hway]; exact hfree)
      · rw [hway] at hsame
        have := down_inj hj (u := 0) ht (by omega) (by simpa using hsame)
        omega

theorem Unbroken.move {i j : Nat} (h : Unbroken n home table j)
    (hi : i < n) (hj : j < n) {kv : K × V} (hkv : table i = some kv)
    (hcut : dist n (home kv.1) j < dist n (home kv.1) i) :
    Unbroken n home (Function.update (Function.update table j (some kv)) i none) i := by
  have htaken : ∀ q, table q ≠ none ∨ q = j →
      Function.update (Function.update table j (some kv)) i none q ≠ none ∨ q = i := by
    intro q hq
    by_cases hqi : q = i
    · exact .inr hqi
    · left
      rw [Function.update_of_ne hqi]
      by_cases hqj : q = j
      · rw [hqj, Function.update_self]
        exact Option.some_ne_none _
      · rw [Function.update_of_ne hqj]
        exact hq.resolve_right hqj
  intro p hp kv' hkv' t ht
  have hpi : p ≠ i := by
    rintro rfl
    rw [Function.update_self] at hkv'
    cases hkv'
  rw [Function.update_of_ne hpi] at hkv'
  by_cases hpj : p = j
  · subst hpj
    rw [Function.update_self] at hkv'
    cases hkv'
    exact htaken _ (h i hi kv hkv t (by omega))
  · rw [Function.update_of_ne hpj] at hkv'
    exact htaken _ (h p hp kv' hkv' t ht)

theorem closeLoop_spec (hhome : ∀ k, home k < n) {e : Nat} (he : e < n) :
    ∀ (fuel : Nat) {table : Table K V} {j t : Nat}, Unbroken n home table j → j < n →
      table j = none → table e = none → Settled n home table j t → t < dist n j e →
      dist n j e ≤ t + fuel →
      ∃ table', closeLoop n home fuel table j (down n j t) = some table' ∧
        Rearranged n table table' ∧ Unbroken n home table' n := by
  intro fuel
  induction fuel with
  | zero =>
    intro table j t _ _ _ _ _ hlt hfuel
    omega
  | succ fuel ih =>
    intro table j t hunbroken hj hhole hfree hsettled hlt hfuel
    have hdist := dist_lt hj he
    have hi : down n j (t + 1) < n := down_lt hj (by omega)
    rw [closeLoop, ← down_succ hj (by omega)]
    cases hslot : table (down n j (t + 1)) with
    | none =>
      exact ⟨table, rfl, .refl n table, hunbroken.closed hhome hj (by omega) hsettled hslot⟩
    | some kv =>
      have hne : down n j (t + 1) ≠ j := by
        intro heq
        rw [heq, hhole] at hslot
        cases hslot
      have hnext : t + 1 ≠ dist n j e := by
        intro heq
        rw [heq, down_dist hj he, hfree] at hslot
        cases hslot
      simp only
      split
      · next hkeep =>
        apply ih hunbroken hj hhole hfree _ (by omega) (by omega)
        intro u hu hut
        rcases Nat.lt_or_eq_of_le hut with hlt' | rfl
        · exact hsettled u hu (by omega)
        · exact ⟨kv, hslot, (keep_iff hi hj hne).mp hkeep⟩
      · next hmove =>
        have hcut : dist n (home kv.1) j < dist n (home kv.1) (down n j (t + 1)) := by
          rw [keep_iff hi hj hne] at hmove
          omega
        have hei : e ≠ down n j (t + 1) := by
          rintro rfl
          rw [hfree] at hslot
          cases hslot
        have hsum := dist_add he hi (by rw [dist_down hj (by omega)]; omega)
        rw [dist_down hj (by omega)] at hsum
        have hej : e ≠ j := by
          rintro rfl
          rw [dist_self] at hlt
          omega
        obtain ⟨table', hloop, hmoved, hunbroken'⟩ := ih (t := 0)
          (hunbroken.move hi hj hslot hcut) hi (Function.update_self ..)
          (by rw [Function.update_of_ne hei, Function.update_of_ne hej]; exact hfree)
          (fun u hu hut => by omega) (by omega) (by omega)
        exact ⟨table', hloop, (Rearranged.move hi hj hslot hhole).trans hmoved, hunbroken'⟩

def erase (n : Nat) (home : K → Nat) (table : Table K V) (i : Nat) : Option (Table K V) :=
  closeLoop n home n (Function.update table i none) i i

theorem Sound.erase (h : Sound n home table) (hhome : ∀ k, home k < n) (hfree : taken n table < n)
    {k : K} {v : V} {p : Nat} (hp : p < n) (hslot : table p = some (k, v)) :
    ∃ table', erase n home table p = some table' ∧ Sound n home table' ∧
      taken n table' + 1 = taken n table ∧
      ∀ k' w, Holds n table' k' w ↔ k' ≠ k ∧ Holds n table k' w := by
  obtain ⟨e, he, hempty⟩ := exists_free hfree
  have hep : e ≠ p := by
    rintro rfl
    rw [hslot] at hempty
    cases hempty
  have hunbroken : Unbroken n home (Function.update table p none) p := by
    intro q hq kv hkv t ht
    have hqp : q ≠ p := by
      rintro rfl
      rw [Function.update_self] at hkv
      cases hkv
    rw [Function.update_of_ne hqp] at hkv
    rcases h.unbroken q hq kv hkv t ht with htaken | hhole
    · by_cases hdown : down n (home kv.1) t = p
      · exact .inr hdown
      · exact .inl (by rwa [Function.update_of_ne hdown])
    · have := down_lt (hhome kv.1) (le_of_lt (lt_trans ht (dist_lt (hhome kv.1) hq)))
      omega
  have hpos : 0 < dist n p e := by
    rcases Nat.eq_zero_or_pos (dist n p e) with hzero | hpos
    · have := down_dist hp he
      rw [hzero, down_zero] at this
      exact absurd this.symm hep
    · exact hpos
  obtain ⟨table', hloop, hmoved, hunbroken'⟩ := closeLoop_spec hhome he n (t := 0) hunbroken hp
    (Function.update_self ..) (by rw [Function.update_of_ne hep]; exact hempty)
    (fun u hu hut => by omega) hpos (le_of_lt (lt_of_lt_of_le (dist_lt hp he) (by omega)))
  have hdistinct : ∀ q < n, ∀ q' < n, ∀ k v w, Function.update table p none q = some (k, v) →
      Function.update table p none q' = some (k, w) → q = q' := by
    intro q hq q' hq' k' v' w' hv hw
    have hqp : q ≠ p := by rintro rfl; rw [Function.update_self] at hv; cases hv
    have hqp' : q' ≠ p := by rintro rfl; rw [Function.update_self] at hw; cases hw
    rw [Function.update_of_ne hqp] at hv
    rw [Function.update_of_ne hqp'] at hw
    exact h.distinct q hq q' hq' k' v' w' hv hw
  refine ⟨table', hloop, ⟨hunbroken', hmoved.distinct hdistinct⟩, ?_, ?_⟩
  · rw [hmoved.taken_eq]
    exact taken_free hp hslot
  · intro k' w
    rw [hmoved.holds]
    constructor
    · rintro ⟨q, hq, hkw⟩
      have hqp : q ≠ p := by rintro rfl; rw [Function.update_self] at hkw; cases hkw
      rw [Function.update_of_ne hqp] at hkw
      refine ⟨?_, q, hq, hkw⟩
      rintro rfl
      exact hqp (h.distinct q hq p hp k' w v hkw hslot)
    · rintro ⟨hne, q, hq, hkw⟩
      refine ⟨q, hq, ?_⟩
      rw [Function.update_of_ne]
      · exact hkw
      · rintro rfl
        rw [hslot] at hkw
        cases hkw
        exact hne rfl

end Erasing

end LinearProbing
