import Mathlib.Tactic

set_option autoImplicit false

namespace LinkedList

variable {P D : Type}

structure Node (P D : Type) where
  next : Option P
  prev : Option P
  data : D

abbrev Heap (P D : Type) := P → Option (Node P D)

/-- The first pointer of a piece of a list with `after` behind it. -/
def first (entries : List (P × D)) (after : Option P) : Option P :=
  match entries with
  | [] => after
  | (p, _) :: _ => some p

def last (before : Option P) : List (P × D) → Option P
  | [] => before
  | (p, _) :: entries => last (some p) entries

def Segment (heap : Heap P D) (before : Option P) : List (P × D) → Option P → Prop
  | [], _ => True
  | (p, d) :: entries, after =>
    heap p = some ⟨first entries after, before, d⟩ ∧ Segment heap (some p) entries after

structure Linked (heap : Heap P D) (head tail : Option P) (entries : List (P × D)) : Prop where
  head_eq : head = first entries none
  tail_eq : tail = last none entries
  segment : Segment heap none entries none
  nodup : (entries.map Prod.fst).Nodup
  owned : ∀ p, heap p ≠ none → p ∈ entries.map Prod.fst

section Pieces

variable {heap : Heap P D} {before after : Option P} {xs ys : List (P × D)}

@[simp] theorem first_append (xs ys : List (P × D)) (after : Option P) :
    first (xs ++ ys) after = first xs (first ys after) := by
  cases xs <;> rfl

@[simp] theorem last_append (before : Option P) (xs ys : List (P × D)) :
    last before (xs ++ ys) = last (last before xs) ys := by
  induction xs generalizing before with
  | nil => rfl
  | cons x xs ih => exact ih (some x.1)

@[simp] theorem first_map {E : Type} (f : D → E) (xs : List (P × D)) (after : Option P) :
    first (xs.map fun e => (e.1, f e.2)) after = first xs after := by
  cases xs <;> rfl

@[simp] theorem last_map {E : Type} (f : D → E) (before : Option P) (xs : List (P × D)) :
    last before (xs.map fun e => (e.1, f e.2)) = last before xs := by
  induction xs generalizing before with
  | nil => rfl
  | cons x xs ih => exact ih (some x.1)

theorem segment_append : Segment heap before (xs ++ ys) after ↔
    Segment heap before xs (first ys after) ∧ Segment heap (last before xs) ys after := by
  induction xs generalizing before with
  | nil => simp [Segment, last]
  | cons x xs ih =>
    obtain ⟨p, d⟩ := x
    simp only [List.cons_append, Segment, last, first_append, ih, and_assoc]

theorem last_mem (before : Option P) (xs : List (P × D)) :
    last before xs = before ∧ xs = [] ∨ ∃ p ∈ xs.map Prod.fst, last before xs = some p := by
  induction xs generalizing before with
  | nil => exact .inl ⟨rfl, rfl⟩
  | cons x xs ih =>
    obtain ⟨p, d⟩ := x
    right
    rcases ih (some p) with ⟨hlast, -⟩ | ⟨q, hq, hlast⟩
    · exact ⟨p, List.mem_cons_self, hlast⟩
    · exact ⟨q, List.mem_cons_of_mem p hq, hlast⟩

theorem Segment.frame {heap' : Heap P D} (h : Segment heap before xs after)
    (hsame : ∀ p ∈ xs.map Prod.fst, heap' p = heap p) : Segment heap' before xs after := by
  induction xs generalizing before with
  | nil => trivial
  | cons x xs ih =>
    obtain ⟨p, d⟩ := x
    obtain ⟨hnode, hrest⟩ := h
    refine ⟨?_, ih hrest fun q hq => hsame q (List.mem_cons_of_mem p hq)⟩
    rw [hsame p List.mem_cons_self]
    exact hnode

theorem Segment.node (h : Segment heap before xs after) {p : P} {d : D} (hmem : (p, d) ∈ xs) :
    ∃ node, heap p = some node ∧ node.data = d := by
  induction xs generalizing before with
  | nil => cases hmem
  | cons x xs ih =>
    rcases List.mem_cons.mp hmem with rfl | hmem
    · exact ⟨_, h.1, rfl⟩
    · exact ih h.2 hmem

theorem first_ne {p : P} (h : p ∉ xs.map Prod.fst) : first xs none ≠ some p := by
  cases xs with
  | nil => exact Option.some_ne_none p |>.symm
  | cons x xs =>
    rintro ⟨⟩
    exact h List.mem_cons_self

theorem last_ne {p : P} (h : p ∉ xs.map Prod.fst) : last none xs ≠ some p := by
  rcases last_mem none xs with ⟨hlast, -⟩ | ⟨q, hq, hlast⟩ <;> rw [hlast]
  · exact Option.some_ne_none p |>.symm
  · rintro ⟨⟩
    exact h hq

end Pieces

section Updates

variable [DecidableEq P] {heap : Heap P D} {before after : Option P} {xs ys : List (P × D)}

def setNext (heap : Heap P D) (node next : Option P) : Heap P D :=
  match node with
  | none => heap
  | some p => Function.update heap p ((heap p).map fun n => { n with next := next })

def setPrev (heap : Heap P D) (node prev : Option P) : Heap P D :=
  match node with
  | none => heap
  | some p => Function.update heap p ((heap p).map fun n => { n with prev := prev })

theorem setNext_of_ne {node next : Option P} {p : P} (h : node ≠ some p) :
    setNext heap node next p = heap p := by
  cases node with
  | none => rfl
  | some q =>
    apply Function.update_of_ne
    rintro rfl
    exact h rfl

theorem setPrev_of_ne {node prev : Option P} {p : P} (h : node ≠ some p) :
    setPrev heap node prev p = heap p := by
  cases node with
  | none => rfl
  | some q =>
    apply Function.update_of_ne
    rintro rfl
    exact h rfl

theorem setNext_eq_none {node next : Option P} {p : P} :
    setNext heap node next p = none ↔ heap p = none := by
  by_cases hnode : node = some p
  · subst hnode
    simp [setNext]
  · rw [setNext_of_ne hnode]

theorem setPrev_eq_none {node prev : Option P} {p : P} :
    setPrev heap node prev p = none ↔ heap p = none := by
  by_cases hnode : node = some p
  · subst hnode
    simp [setPrev]
  · rw [setPrev_of_ne hnode]

theorem Segment.withAfter (h : Segment heap before xs after) (hnodup : (xs.map Prod.fst).Nodup)
    (hbefore : ∀ p ∈ before, p ∉ xs.map Prod.fst) (after' : Option P) :
    Segment (setNext heap (last before xs) after') before xs after' := by
  induction xs generalizing before with
  | nil => trivial
  | cons x xs ih =>
    obtain ⟨p, d⟩ := x
    obtain ⟨hnode, hrest⟩ := h
    rw [List.map_cons, List.nodup_cons] at hnodup
    have hp : ∀ q ∈ some p, q ∉ xs.map Prod.fst := by
      rintro q ⟨⟩
      exact hnodup.1
    refine ⟨?_, ih hrest hnodup.2 hp⟩
    rcases last_mem (some p) xs with ⟨hlast, rfl⟩ | ⟨q, hq, hlast⟩
    · simp [setNext, last, hnode, first]
    · have hfirst : first xs after' = first xs after := by
        cases xs with
        | nil => cases hq
        | cons x xs => rfl
      rw [last, setNext_of_ne, hnode, hfirst]
      rw [hlast]
      rintro ⟨⟩
      exact hnodup.1 hq

theorem Segment.withBefore (h : Segment heap before xs after) (hnodup : (xs.map Prod.fst).Nodup)
    (before' : Option P) : Segment (setPrev heap (first xs after) before') before' xs after := by
  cases xs with
  | nil => trivial
  | cons x xs =>
    obtain ⟨p, d⟩ := x
    obtain ⟨hnode, hrest⟩ := h
    rw [List.map_cons, List.nodup_cons] at hnodup
    refine ⟨by simp [setPrev, first, hnode], hrest.frame fun q hq => ?_⟩
    apply setPrev_of_ne
    rintro ⟨⟩
    exact hnodup.1 hq

def insertBetween (heap : Heap P D) (p : P) (d : D) (prev next : Option P) : Heap P D :=
  setPrev (setNext (Function.update heap p (some ⟨next, prev, d⟩)) prev (some p)) next (some p)

def remove (heap : Heap P D) (p : P) (prev next : Option P) : Heap P D :=
  Function.update (setPrev (setNext heap prev next) next prev) p none

theorem Segment.inserted (h : Segment heap none (xs ++ ys) none) {p : P} (d : D)
    (hnodup : ((xs ++ ys).map Prod.fst).Nodup) (hp : p ∉ (xs ++ ys).map Prod.fst) :
    Segment (insertBetween heap p d (last none xs) (first ys none)) none (xs ++ (p, d) :: ys)
      none := by
  rw [List.map_append] at hnodup hp
  rw [List.mem_append, not_or] at hp
  obtain ⟨hxs, hys, hdisjoint⟩ := List.nodup_append.mp hnodup
  obtain ⟨hfront, hback⟩ := segment_append.mp h
  have hfirst := first_ne hp.2
  have hlast := last_ne hp.1
  rw [segment_append]
  refine ⟨?_, ?_, ?_⟩
  · have hplaced : Segment (Function.update heap p (some ⟨first ys none, last none xs, d⟩)) none xs
        (first ys none) := by
      refine hfront.frame fun q hq => Function.update_of_ne ?_ ..
      rintro rfl
      exact hp.1 hq
    refine (hplaced.withAfter hxs (by simp) (some p)).frame fun q hq => setPrev_of_ne ?_
    cases ys with
    | nil => exact Option.some_ne_none q |>.symm
    | cons y ys =>
      rintro ⟨⟩
      exact hdisjoint _ hq _ List.mem_cons_self rfl
  · rw [insertBetween, setPrev_of_ne hfirst, setNext_of_ne hlast, Function.update_self]
  · refine Segment.withBefore (hback.frame fun q hq => ?_) hys (some p)
    rw [setNext_of_ne, Function.update_of_ne]
    · rintro rfl
      exact hp.2 hq
    · apply last_ne
      intro hq'
      exact hdisjoint _ hq' _ hq rfl

theorem Segment.removed {p : P} {d : D} (h : Segment heap none (xs ++ (p, d) :: ys) none)
    (hnodup : ((xs ++ (p, d) :: ys).map Prod.fst).Nodup) :
    Segment (remove heap p (last none xs) (first ys none)) none (xs ++ ys) none := by
  rw [List.map_append, List.map_cons] at hnodup
  obtain ⟨hxs, hpys, hdisjoint⟩ := List.nodup_append.mp hnodup
  rw [List.nodup_cons] at hpys
  obtain ⟨hfront, -, hback⟩ := segment_append.mp h
  have hpx : p ∉ xs.map Prod.fst := fun hp => hdisjoint _ hp _ List.mem_cons_self rfl
  rw [segment_append]
  constructor
  · refine (hfront.withAfter hxs (by simp) (first ys none)).frame fun q hq => ?_
    rw [remove, Function.update_of_ne, setPrev_of_ne]
    · cases ys with
      | nil => exact Option.some_ne_none q |>.symm
      | cons y ys =>
        rintro ⟨⟩
        exact hdisjoint _ hq _ (List.mem_cons_of_mem _ List.mem_cons_self) rfl
    · rintro rfl
      exact hpx hq
  · have hlinked : Segment (setPrev (setNext heap (last none xs) (first ys none)) (first ys none)
        (last none xs)) (last none xs) ys none := by
      refine Segment.withBefore (hback.frame fun q hq => setNext_of_ne ?_) hpys.2 _
      apply last_ne
      intro hq'
      exact hdisjoint _ hq' _ (List.mem_cons_of_mem _ hq) rfl
    refine hlinked.frame fun q hq => Function.update_of_ne ?_ ..
    rintro rfl
    exact hpys.1 hq

theorem Linked.insert {head tail : Option P} (h : Linked heap head tail (xs ++ ys)) {p : P} (d : D)
    (hp : p ∉ (xs ++ ys).map Prod.fst) :
    Linked (insertBetween heap p d (last none xs) (first ys none))
      (if last none xs = none then some p else head) (if first ys none = none then some p else tail)
      (xs ++ (p, d) :: ys) where
  head_eq := by
    rcases last_mem none xs with ⟨hlast, rfl⟩ | ⟨q, hq, hlast⟩
    · rfl
    · rw [hlast, if_neg (Option.some_ne_none q), h.head_eq]
      cases xs with
      | nil => cases hq
      | cons x xs => rfl
  tail_eq := by
    cases ys with
    | nil => simp [first, last]
    | cons y ys => simp [first, last, h.tail_eq]
  segment := h.segment.inserted d h.nodup hp
  nodup := by
    have hperm : (xs ++ (p, d) :: ys).Perm ((p, d) :: (xs ++ ys)) := List.perm_middle
    rw [(hperm.map Prod.fst).nodup_iff, List.map_cons, List.nodup_cons]
    exact ⟨hp, h.nodup⟩
  owned := by
    intro q hq
    by_cases hqp : q = p
    · simp [hqp]
    · have hold := h.owned q (by
        simpa only [insertBetween, ne_eq, setPrev_eq_none, setNext_eq_none,
          Function.update_of_ne hqp] using hq)
      rw [List.map_append, List.mem_append] at hold
      simp only [List.map_append, List.map_cons, List.mem_append, List.mem_cons]
      tauto

theorem Linked.remove {head tail : Option P} {p : P} {d : D}
    (h : Linked heap head tail (xs ++ (p, d) :: ys)) :
    Linked (remove heap p (last none xs) (first ys none))
      (if last none xs = none then first ys none else head)
      (if first ys none = none then last none xs else tail) (xs ++ ys) where
  head_eq := by
    rcases last_mem none xs with ⟨hlast, rfl⟩ | ⟨q, hq, hlast⟩
    · rfl
    · rw [hlast, if_neg (Option.some_ne_none q), h.head_eq]
      cases xs with
      | nil => cases hq
      | cons x xs => rfl
  tail_eq := by
    cases ys with
    | nil => simp [first]
    | cons y ys => simp [first, last, h.tail_eq]
  segment := h.segment.removed h.nodup
  nodup := by
    have hperm : (xs ++ (p, d) :: ys).Perm ((p, d) :: (xs ++ ys)) := List.perm_middle
    have hnodup := h.nodup
    rw [(hperm.map Prod.fst).nodup_iff, List.map_cons, List.nodup_cons] at hnodup
    exact hnodup.2
  owned := by
    intro q hq
    by_cases hqp : q = p
    · subst hqp
      simp [LinkedList.remove] at hq
    · have hold := h.owned q (by
        simpa only [LinkedList.remove, Function.update_of_ne hqp, ne_eq, setPrev_eq_none,
          setNext_eq_none] using hq)
      simp only [List.map_append, List.map_cons, List.mem_append, List.mem_cons] at hold ⊢
      tauto

end Updates

end LinkedList
