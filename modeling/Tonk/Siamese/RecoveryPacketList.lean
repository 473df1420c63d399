import Tonk.Lib.LinkedList
import Tonk.Lib.Run
import Tonk.Siamese.Solver

/-!
RecoveryPacketList over the nodes it links. `Decoder` has the same list as a plain one; here its
operations follow the pointers.
-/

set_option autoImplicit false

namespace Tonk.Siamese
open LinkedList Transition

variable {P β : Type}

/-- A loop that reads a freed node, or does not end within the packets of the list, has no result. The
region checked by the decoder is reset with the list. -/
structure RecoveryPacketList (P β : Type) where
  heap : Heap P (RecoveryPacket β)
  head : Option P
  tail : Option P
  recoveryPacketCount : Nat
  lastRecovery : Option (RecoveryMetadata × β)
  checkedRegion : CheckedRegionState

def RecoveryPacket.Follows (recovery prev : RecoveryPacket β) : Prop :=
  prev.elementEnd ≤ recovery.elementEnd ∧
    (prev.elementEnd < recovery.elementEnd ∨
      isColumnDeltaNegative
        (subtractColumns recovery.metadata.columnStart prev.metadata.columnStart))

instance (recovery prev : RecoveryPacket β) : Decidable (recovery.Follows prev) :=
  inferInstanceAs (Decidable (_ ∧ _))

def RecoveryPacket.decrement (elementCount : Nat) (recovery : RecoveryPacket β) :
    RecoveryPacket β :=
  { recovery with
    elementStart := unsignedSub recovery.elementStart elementCount
    elementEnd := unsignedSub recovery.elementEnd elementCount }

namespace RecoveryPacketList

def empty : RecoveryPacketList P β := ⟨fun _ => none, none, none, 0, none, .reset⟩

def searchLoop (heap : Heap P (RecoveryPacket β)) (recovery : RecoveryPacket β) :
    Nat → Option P → Option P → Option (Option P × Option P)
  | _, none, next => some (none, next)
  | 0, some _, _ => none
  | fuel + 1, some p, next =>
    match heap p with
    | none => none
    | some prev =>
      if recovery.Follows prev.data then some (some p, next)
      else searchLoop heap recovery fuel prev.prev (some p)

section Operations

variable [DecidableEq P]

def insert (packets : RecoveryPacketList P β) (p : P) (recovery : RecoveryPacket β)
    (outOfOrder : Bool) : Option (RecoveryPacketList P β) :=
  match searchLoop packets.heap recovery packets.recoveryPacketCount packets.tail none with
  | none => none
  | some (prev, next) =>
    some {
      heap := insertBetween packets.heap p recovery prev next
      head := if prev = none then some p else packets.head
      tail := if next = none then some p else packets.tail
      recoveryPacketCount := packets.recoveryPacketCount + 1
      lastRecovery :=
        if outOfOrder then packets.lastRecovery else some (recovery.metadata, recovery.buffer)
      checkedRegion := if prev = none ∨ next ≠ none then .reset else packets.checkedRegion }

def deleteLoop (element : Nat) : Nat → Heap P (RecoveryPacket β) → Option P → Nat →
    Option (Heap P (RecoveryPacket β) × Option P × Nat)
  | _, heap, none, deleteCount => some (heap, none, deleteCount)
  | 0, _, some _, _ => none
  | fuel + 1, heap, some p, deleteCount =>
    match heap p with
    | none => none
    | some recovery =>
      if element < recovery.data.elementEnd then some (heap, some p, deleteCount)
      else deleteLoop element fuel (Function.update heap p none) recovery.next (deleteCount + 1)

def deletePacketsBefore (packets : RecoveryPacketList P β) (element : Nat) :
    Option (RecoveryPacketList P β) :=
  match deleteLoop element packets.recoveryPacketCount packets.heap packets.head 0 with
  | none => none
  | some (heap, some p, deleteCount) =>
    some { packets with
      heap := setPrev heap (some p) none
      head := some p
      recoveryPacketCount := packets.recoveryPacketCount - deleteCount }
  | some (heap, none, _) =>
    some { packets with
      heap := heap
      head := none
      tail := none
      recoveryPacketCount := 0 }

def decrementLoop (elementCount : Nat) : Nat → Heap P (RecoveryPacket β) → Option P →
    Option (Heap P (RecoveryPacket β))
  | _, heap, none => some heap
  | 0, _, some _ => none
  | fuel + 1, heap, some p =>
    match heap p with
    | none => none
    | some recovery =>
      decrementLoop elementCount fuel
        (Function.update heap p
          (some { recovery with data := recovery.data.decrement elementCount })) recovery.next

def decrementElementCounters (packets : RecoveryPacketList P β) (elementCount : Nat) :
    Option (RecoveryPacketList P β) :=
  (decrementLoop elementCount packets.recoveryPacketCount packets.heap packets.head).map fun heap =>
    { packets with heap := heap }

def delete (packets : RecoveryPacketList P β) (p : P) : Option (RecoveryPacketList P β) :=
  match packets.heap p with
  | none => none
  | some recovery =>
    some { packets with
      heap := remove packets.heap p recovery.prev recovery.next
      head := if recovery.prev = none then recovery.next else packets.head
      tail := if recovery.next = none then recovery.prev else packets.tail
      recoveryPacketCount := packets.recoveryPacketCount - 1 }

end Operations

/-- The list has the entries, in their order. -/
structure Lists (packets : RecoveryPacketList P β) (entries : List (P × RecoveryPacket β)) : Prop where
  linked : Linked packets.heap packets.head packets.tail entries
  count : packets.recoveryPacketCount = entries.length

theorem lists_empty : (empty : RecoveryPacketList P β).Lists [] where
  linked := ⟨rfl, rfl, trivial, List.nodup_nil, fun _ h => absurd rfl h⟩
  count := rfl

section Insertion

variable {heap : Heap P (RecoveryPacket β)} {recovery : RecoveryPacket β}

/-- The search goes back from the tail past the packets that the new one does not follow. The
induction is on the packets in front of those passed. -/
theorem searchLoop_spec (xs : List (P × RecoveryPacket β)) :
    ∀ (ys : List (P × RecoveryPacket β)) (fuel : Nat), Segment heap none (xs ++ ys) none →
      xs.length ≤ fuel →
      ∃ xs₁ xs₂, xs = xs₁ ++ xs₂ ∧
        searchLoop heap recovery fuel (last none xs) (first ys none) =
          some (last none xs₁, first (xs₂ ++ ys) none) ∧
        (∀ e ∈ xs₂, ¬ recovery.Follows e.2) ∧ ∀ e ∈ xs₁.getLast?, recovery.Follows e.2 := by
  induction xs using List.reverseRecOn with
  | nil =>
    intro ys fuel _ _
    refine ⟨[], [], rfl, ?_, by simp, by simp⟩
    cases fuel <;> rfl
  | append_singleton xs x ih =>
    intro ys fuel h hfuel
    obtain ⟨p, prev⟩ := x
    rw [List.length_append, List.length_singleton] at hfuel
    rw [List.append_assoc, List.singleton_append] at h
    have hnode := (segment_append.mp h).2.1
    cases fuel with
    | zero => omega
    | succ fuel =>
      rw [last_append, last, last, searchLoop, hnode]
      simp only
      by_cases hfollows : recovery.Follows prev
      · refine ⟨xs ++ [(p, prev)], [], by simp, ?_, by simp, by simpa using hfollows⟩
        rw [if_pos hfollows, last_append]
        rfl
      · obtain ⟨xs₁, xs₂, rfl, hloop, hpassed, hstop⟩ := ih ((p, prev) :: ys) fuel h (by omega)
        refine ⟨xs₁, xs₂ ++ [(p, prev)], by simp, ?_, ?_, hstop⟩
        · rw [if_neg hfollows, List.append_assoc, List.singleton_append]
          exact hloop
        · intro e he
          rcases List.mem_append.mp he with he | he
          · exact hpassed e he
          · rw [List.mem_singleton.mp he]
            exact hfollows

theorem Lists.insert [DecidableEq P] {packets : RecoveryPacketList P β}
    {entries : List (P × RecoveryPacket β)} (h : packets.Lists entries) {p : P}
    (recovery : RecoveryPacket β) (outOfOrder : Bool) (hp : p ∉ entries.map Prod.fst) :
    ∃ packets' xs ys, entries = xs ++ ys ∧ packets.insert p recovery outOfOrder = some packets' ∧
      packets'.Lists (xs ++ (p, recovery) :: ys) ∧ (∀ e ∈ ys, ¬ recovery.Follows e.2) ∧
      ∀ e ∈ xs.getLast?, recovery.Follows e.2 := by
  have hsegment : Segment packets.heap none (entries ++ []) none := by
    rw [List.append_nil]
    exact h.linked.segment
  obtain ⟨xs, ys, rfl, hloop, hpassed, hstop⟩ :=
    searchLoop_spec entries [] packets.recoveryPacketCount hsegment (le_of_eq h.count.symm)
  rw [List.append_nil, ← h.linked.tail_eq] at hloop
  have hsearch : searchLoop packets.heap recovery packets.recoveryPacketCount packets.tail none =
      some (last none xs, first ys none) := hloop
  obtain ⟨packets', hinsert, hheap, hhead, htail, hcount⟩ : ∃ packets',
      packets.insert p recovery outOfOrder = some packets' ∧
      packets'.heap = insertBetween packets.heap p recovery (last none xs) (first ys none) ∧
      packets'.head = (if last none xs = none then some p else packets.head) ∧
      packets'.tail = (if first ys none = none then some p else packets.tail) ∧
      packets'.recoveryPacketCount = packets.recoveryPacketCount + 1 := by
    rw [RecoveryPacketList.insert, hsearch]
    exact ⟨_, rfl, rfl, rfl, rfl, rfl⟩
  refine ⟨packets', xs, ys, rfl, hinsert, ⟨?_, ?_⟩, hpassed, hstop⟩
  · rw [hheap, hhead, htail]
    exact h.linked.insert recovery hp
  · rw [hcount, h.count]
    simp only [List.length_append, List.length_cons]
    omega

end Insertion

section Deletion

variable [DecidableEq P] {heap : Heap P (RecoveryPacket β)} {packets : RecoveryPacketList P β}
  {entries : List (P × RecoveryPacket β)}

theorem deleteLoop_spec (element : Nat) (entries : List (P × RecoveryPacket β)) :
    ∀ (heap : Heap P (RecoveryPacket β)) (before : Option P) (fuel deleteCount : Nat),
      Segment heap before entries none → (entries.map Prod.fst).Nodup →
      (∀ p, heap p ≠ none → p ∈ entries.map Prod.fst) → entries.length ≤ fuel →
      ∃ xs ys heap', entries = xs ++ ys ∧
        deleteLoop element fuel heap (first entries none) deleteCount =
          some (heap', first ys none, deleteCount + xs.length) ∧
        Segment heap' (last before xs) ys none ∧ (∀ p, heap' p ≠ none → p ∈ ys.map Prod.fst) ∧
        (∀ e ∈ xs, e.2.elementEnd ≤ element) ∧ ∀ e ∈ ys.head?, element < e.2.elementEnd := by
  induction entries with
  | nil =>
    intro heap before fuel deleteCount h _ howned _
    refine ⟨[], [], heap, rfl, ?_, h, howned, by simp, by simp⟩
    cases fuel <;> rfl
  | cons e entries ih =>
    obtain ⟨p, recovery⟩ := e
    intro heap before fuel deleteCount h hnodup howned hfuel
    rw [List.map_cons, List.nodup_cons] at hnodup
    cases fuel with
    | zero => cases hfuel
    | succ fuel =>
      rw [first, deleteLoop, h.1]
      simp only
      by_cases hkeep : element < recovery.elementEnd
      · exact ⟨[], (p, recovery) :: entries, heap, rfl, if_pos hkeep, h, howned, by simp,
          by simpa using hkeep⟩
      · have hrest : Segment (Function.update heap p none) (some p) entries none := by
          refine h.2.frame fun q hq => Function.update_of_ne ?_ ..
          rintro rfl
          exact hnodup.1 hq
        have howned' : ∀ q, Function.update heap p none q ≠ none → q ∈ entries.map Prod.fst := by
          intro q hq
          by_cases hqp : q = p
          · rw [hqp, Function.update_self] at hq
            exact absurd rfl hq
          · rw [Function.update_of_ne hqp] at hq
            exact (List.mem_cons.mp (howned q hq)).resolve_left hqp
        obtain ⟨xs, ys, heap', rfl, hloop, hsegment, hleft, hdeleted, hkept⟩ := ih _ (some p) fuel
          (deleteCount + 1) hrest hnodup.2 howned' (Nat.le_of_succ_le_succ hfuel)
        refine ⟨(p, recovery) :: xs, ys, heap', rfl, ?_, hsegment, hleft, ?_, hkept⟩
        · rw [if_neg hkeep, hloop, List.length_cons]
          congr 3
          omega
        · intro e he
          rcases List.mem_cons.mp he with rfl | he
          · exact Nat.le_of_not_lt hkeep
          · exact hdeleted e he

theorem Lists.deletePacketsBefore (h : packets.Lists entries) (element : Nat) :
    ∃ packets' xs ys, entries = xs ++ ys ∧
      packets.deletePacketsBefore element = some packets' ∧ packets'.Lists ys ∧
      (∀ e ∈ xs, e.2.elementEnd ≤ element) ∧ ∀ e ∈ ys.head?, element < e.2.elementEnd := by
  obtain ⟨xs, ys, heap', rfl, hloop, hsegment, howned, hdeleted, hkept⟩ :=
    deleteLoop_spec element entries packets.heap none packets.recoveryPacketCount 0
      h.linked.segment h.linked.nodup h.linked.owned (le_of_eq h.count.symm)
  rw [← h.linked.head_eq] at hloop
  have hnodup : (ys.map Prod.fst).Nodup := by
    have hnodup := h.linked.nodup
    rw [List.map_append] at hnodup
    exact (List.nodup_append.mp hnodup).2.1
  have hcount := h.count
  rw [List.length_append] at hcount
  unfold RecoveryPacketList.deletePacketsBefore
  rw [hloop]
  cases ys with
  | nil =>
    exact ⟨_, xs, [], rfl, rfl, ⟨⟨rfl, rfl, trivial, List.nodup_nil, howned⟩, rfl⟩, hdeleted, hkept⟩
  | cons y ys =>
    refine ⟨_, xs, y :: ys, rfl, rfl, ⟨⟨rfl, ?_, hsegment.withBefore hnodup none, hnodup, ?_⟩, ?_⟩,
      hdeleted, hkept⟩
    · exact h.linked.tail_eq.trans (last_append none xs (y :: ys))
    · intro q hq
      rw [ne_eq, setPrev_eq_none] at hq
      exact howned q hq
    · simp only
      omega

theorem Lists.delete (h : packets.Lists entries) {p : P} (hp : p ∈ entries.map Prod.fst) :
    ∃ packets' xs ys recovery, entries = xs ++ (p, recovery) :: ys ∧
      packets.delete p = some packets' ∧ packets'.Lists (xs ++ ys) := by
  obtain ⟨⟨p', recovery⟩, hmem, rfl⟩ := List.mem_map.mp hp
  obtain ⟨xs, ys, rfl⟩ := List.append_of_mem hmem
  have hnode := (segment_append.mp h.linked.segment).2.1
  have hcount := h.count
  rw [List.length_append, List.length_cons] at hcount
  unfold RecoveryPacketList.delete
  rw [hnode]
  refine ⟨_, xs, ys, recovery, rfl, rfl, h.linked.remove, ?_⟩
  simp only [List.length_append]
  omega

theorem decrementLoop_spec (elementCount : Nat) (entries : List (P × RecoveryPacket β)) :
    ∀ (heap : Heap P (RecoveryPacket β)) (before : Option P) (fuel : Nat),
      Segment heap before entries none → (entries.map Prod.fst).Nodup → entries.length ≤ fuel →
      ∃ heap', decrementLoop elementCount fuel heap (first entries none) = some heap' ∧
        Segment heap' before (entries.map fun e => (e.1, e.2.decrement elementCount)) none ∧
        ∀ p ∉ entries.map Prod.fst, heap' p = heap p := by
  induction entries with
  | nil =>
    intro heap before fuel _ _ _
    refine ⟨heap, ?_, trivial, fun _ _ => rfl⟩
    cases fuel <;> rfl
  | cons e entries ih =>
    obtain ⟨p, recovery⟩ := e
    intro heap before fuel h hnodup hfuel
    rw [List.map_cons, List.nodup_cons] at hnodup
    cases fuel with
    | zero => cases hfuel
    | succ fuel =>
      have hrest : ∀ node, Segment (Function.update heap p node) (some p) entries none := by
        refine fun node => h.2.frame fun q hq => Function.update_of_ne ?_ ..
        rintro rfl
        exact hnodup.1 hq
      obtain ⟨heap', hloop, hsegment, hsame⟩ := ih _ (some p) fuel
        (hrest (some ⟨first entries none, before, recovery.decrement elementCount⟩)) hnodup.2
        (Nat.le_of_succ_le_succ hfuel)
      refine ⟨heap', ?_, ⟨?_, hsegment⟩, ?_⟩
      · rw [first, decrementLoop, h.1]
        exact hloop
      · rw [hsame p hnodup.1, Function.update_self]
        rw [first_map]
      · intro q hq
        rw [List.map_cons, List.mem_cons, not_or] at hq
        rw [hsame q hq.2, Function.update_of_ne hq.1]

theorem Lists.decrementElementCounters (h : packets.Lists entries) (elementCount : Nat) :
    ∃ packets', packets.decrementElementCounters elementCount = some packets' ∧
      packets'.Lists (entries.map fun e => (e.1, e.2.decrement elementCount)) := by
  obtain ⟨heap', hloop, hsegment, hsame⟩ :=
    decrementLoop_spec elementCount entries packets.heap none packets.recoveryPacketCount
      h.linked.segment h.linked.nodup (le_of_eq h.count.symm)
  have hfst : (entries.map fun e => (e.1, e.2.decrement elementCount)).map Prod.fst =
      entries.map Prod.fst := by
    rw [List.map_map]
    rfl
  rw [← h.linked.head_eq] at hloop
  unfold RecoveryPacketList.decrementElementCounters
  rw [hloop]
  refine ⟨_, rfl, ⟨?_, ?_, hsegment, ?_, ?_⟩, ?_⟩
  · rw [first_map]
    exact h.linked.head_eq
  · rw [last_map]
    exact h.linked.tail_eq
  · rw [hfst]
    exact h.linked.nodup
  · intro q hq
    rw [hfst]
    by_contra hout
    change heap' q ≠ none at hq
    rw [hsame q hout] at hq
    exact hout (h.linked.owned q hq)
  · rw [List.length_map]
    exact h.count

end Deletion

section Refinement

theorem insertFromTail_append {recovery : RecoveryPacket β} {back front : List (RecoveryPacket β)}
    (hpassed : ∀ r ∈ back, ¬ recovery.Follows r) (hstop : ∀ r ∈ front.head?, recovery.Follows r) :
    insertFromTail recovery (back ++ front) = back ++ recovery :: front := by
  induction back with
  | nil =>
    cases front with
    | nil => rfl
    | cons prev rest =>
      obtain ⟨hle, hend⟩ := hstop prev rfl
      rw [List.nil_append, insertFromTail, if_pos]
      · rfl
      · rcases hend with hlt | hneg
        · exact .inl hlt
        · rcases Nat.lt_or_eq_of_le hle with hlt | heq
          · exact .inl hlt
          · exact .inr ⟨heq.symm, hneg⟩
  | cons prev back ih =>
    rw [List.cons_append, insertFromTail, if_neg, ih fun r hr => hpassed r (List.mem_cons_of_mem _ hr)]
    · rfl
    · rintro (hlt | ⟨heq, hneg⟩)
      · exact hpassed prev List.mem_cons_self ⟨le_of_lt hlt, .inl hlt⟩
      · exact hpassed prev List.mem_cons_self ⟨le_of_eq heq.symm, .inr hneg⟩

theorem deletePacketsBefore_append {element : Nat} {front back : List (RecoveryPacket β)}
    (hdeleted : ∀ r ∈ front, r.elementEnd ≤ element)
    (hkept : ∀ r ∈ back.head?, element < r.elementEnd) :
    Siamese.deletePacketsBefore element (front ++ back) = back := by
  induction front with
  | nil =>
    cases back with
    | nil => rfl
    | cons r back => exact if_pos (hkept r rfl)
  | cons r front ih =>
    rw [List.cons_append, Siamese.deletePacketsBefore, if_neg]
    · exact ih fun r' hr' => hdeleted r' (List.mem_cons_of_mem r hr')
    · exact Nat.not_lt_of_le (hdeleted r List.mem_cons_self)

variable [DecidableEq P] {packets : RecoveryPacketList P β}
  {entries : List (P × RecoveryPacket β)}

theorem Lists.insert_refines (h : packets.Lists entries) {p : P} (recovery : RecoveryPacket β)
    (outOfOrder : Bool) (hp : p ∉ entries.map Prod.fst) :
    ∃ packets' entries', packets.insert p recovery outOfOrder = some packets' ∧
      packets'.Lists entries' ∧
      entries'.map Prod.snd = insertRecovery recovery (entries.map Prod.snd) := by
  obtain ⟨packets', xs, ys, rfl, hinsert, hlists, hpassed, hstop⟩ := h.insert recovery outOfOrder hp
  refine ⟨packets', _, hinsert, hlists, ?_⟩
  have hpassed' : ∀ r ∈ (ys.map Prod.snd).reverse, ¬ recovery.Follows r := by
    intro r hr
    obtain ⟨e, he, rfl⟩ := List.mem_map.mp (List.mem_reverse.mp hr)
    exact hpassed e he
  have hstop' : ∀ r ∈ (xs.map Prod.snd).reverse.head?, recovery.Follows r := by
    rw [List.head?_reverse, List.getLast?_map]
    intro r hr
    obtain ⟨e, he, rfl⟩ := Option.map_eq_some_iff.mp hr
    exact hstop e he
  have hreverse : ((xs ++ ys).map Prod.snd).reverse =
      (ys.map Prod.snd).reverse ++ (xs.map Prod.snd).reverse := by
    rw [List.map_append, List.reverse_append]
  rw [insertRecovery, hreverse, insertFromTail_append hpassed' hstop']
  simp

theorem Lists.deletePacketsBefore_refines (h : packets.Lists entries) (element : Nat) :
    ∃ packets' entries', packets.deletePacketsBefore element = some packets' ∧
      packets'.Lists entries' ∧
      entries'.map Prod.snd = Siamese.deletePacketsBefore element (entries.map Prod.snd) := by
  obtain ⟨packets', xs, ys, rfl, hdelete, hlists, hdeleted, hkept⟩ := h.deletePacketsBefore element
  refine ⟨packets', ys, hdelete, hlists, ?_⟩
  rw [List.map_append, deletePacketsBefore_append]
  · intro r hr
    obtain ⟨e, he, rfl⟩ := List.mem_map.mp hr
    exact hdeleted e he
  · rw [List.head?_map]
    intro r hr
    obtain ⟨e, he, rfl⟩ := Option.map_eq_some_iff.mp hr
    exact hkept e he

theorem Lists.decrementElementCounters_refines (h : packets.Lists entries) (elementCount : Nat) :
    ∃ packets' entries', packets.decrementElementCounters elementCount = some packets' ∧
      packets'.Lists entries' ∧
      entries'.map Prod.snd =
        Siamese.decrementElementCounters elementCount (entries.map Prod.snd) := by
  obtain ⟨packets', hdecrement, hlists⟩ := h.decrementElementCounters elementCount
  refine ⟨packets', _, hdecrement, hlists, ?_⟩
  rw [Siamese.decrementElementCounters, List.map_map, List.map_map]
  rfl

end Refinement

section Order

/-- An order of the packets in which Insert keeps the list, for packets of one class. -/
structure Ranking (C : RecoveryPacket β → Prop) (R : RecoveryPacket β → RecoveryPacket β → Prop) :
    Prop where
  trans : ∀ {a b c}, R a b → R b c → R a c
  follows : ∀ {a b}, C a → C b → b.Follows a → R a b
  passed : ∀ {a b}, C a → C b → ¬ b.Follows a → R b a
  class_decrement : ∀ {a} n, C a → C (a.decrement n)
  decrement : ∀ {a b n}, n ≤ a.elementEnd → n ≤ b.elementEnd → a.elementEnd < 2 ^ 32 →
    b.elementEnd < 2 ^ 32 → R a b → R (a.decrement n) (b.decrement n)

structure Ranked (C : RecoveryPacket β → Prop) (R : RecoveryPacket β → RecoveryPacket β → Prop)
    (entries : List (P × RecoveryPacket β)) : Prop where
  admitted : ∀ e ∈ entries, C e.2
  pairwise : entries.Pairwise fun a b => R a.2 b.2

theorem decrement_end {n : Nat} {r : RecoveryPacket β} (h : n ≤ r.elementEnd)
    (hlt : r.elementEnd < 2 ^ 32) : (r.decrement n).elementEnd = r.elementEnd - n :=
  unsignedSub_eq h hlt

theorem ranking_end : Ranking (fun _ => True)
    fun a b : RecoveryPacket β => a.elementEnd ≤ b.elementEnd where
  trans := le_trans
  follows := fun _ _ h => h.1
  passed := by
    intro a b _ _ h
    by_contra hlt
    exact h ⟨by omega, .inl (by omega)⟩
  class_decrement := fun _ _ => trivial
  decrement := by
    intro a b n ha hb ha' hb' h
    rw [decrement_end ha ha', decrement_end hb hb']
    omega

def StartsFrom (base : Nat) (r : RecoveryPacket β) : Prop :=
  subtractColumns r.metadata.columnStart base < kColumnPeriod / 2

/-- The order of the packets, with the ties of Insert: of two packets that end alike the one that
starts later is in front. -/
def TiesFrom (base : Nat) (a b : RecoveryPacket β) : Prop :=
  a.elementEnd < b.elementEnd ∨ a.elementEnd = b.elementEnd ∧
    subtractColumns b.metadata.columnStart base ≤ subtractColumns a.metadata.columnStart base

theorem isColumnDeltaNegative_from {base : Nat} {a b : RecoveryPacket β} (ha : StartsFrom base a)
    (hb : StartsFrom base b) :
    isColumnDeltaNegative (subtractColumns b.metadata.columnStart a.metadata.columnStart) = true ↔
      subtractColumns b.metadata.columnStart base < subtractColumns a.metadata.columnStart base := by
  unfold StartsFrom kColumnPeriod at ha hb
  have h₁ := subtractColumns_cast b.metadata.columnStart a.metadata.columnStart
  have h₂ := subtractColumns_cast b.metadata.columnStart base
  have h₃ := subtractColumns_cast a.metadata.columnStart base
  rw [isColumnDeltaNegative_iff, kColumnPeriod]
  omega

theorem ranking_ties (base : Nat) : Ranking (StartsFrom base) (TiesFrom (β := β) base) where
  trans := by
    intro a b c hab hbc
    unfold TiesFrom at *
    omega
  follows := by
    rintro a b ha hb ⟨hle, hlt | hneg⟩
    · exact .inl hlt
    · rw [isColumnDeltaNegative_from ha hb] at hneg
      unfold TiesFrom
      omega
  passed := by
    intro a b ha hb h
    unfold RecoveryPacket.Follows at h
    rw [isColumnDeltaNegative_from ha hb] at h
    unfold TiesFrom
    omega
  class_decrement := fun _ h => h
  decrement := by
    intro a b n ha hb ha' hb' h
    unfold TiesFrom at *
    rw [decrement_end ha ha', decrement_end hb hb']
    have hcolumn : ∀ r : RecoveryPacket β, (r.decrement n).metadata = r.metadata := fun _ => rfl
    rw [hcolumn, hcolumn]
    omega

variable {C : RecoveryPacket β → Prop} {R : RecoveryPacket β → RecoveryPacket β → Prop}
  {xs ys : List (P × RecoveryPacket β)}

theorem Ranked.sublist (h : Ranked C R xs) (hsub : ys.Sublist xs) : Ranked C R ys where
  admitted := fun e he => h.admitted e (hsub.subset he)
  pairwise := h.pairwise.sublist hsub

theorem Ranked.insert (hR : Ranking C R) (h : Ranked C R (xs ++ ys)) (p : P)
    {recovery : RecoveryPacket β} (hC : C recovery) (hpassed : ∀ e ∈ ys, ¬ recovery.Follows e.2)
    (hstop : ∀ e ∈ xs.getLast?, recovery.Follows e.2) :
    Ranked C R (xs ++ (p, recovery) :: ys) where
  admitted := by
    intro e he
    rw [List.mem_append, List.mem_cons] at he
    rcases he with he | rfl | he
    · exact h.admitted e (List.mem_append_left ys he)
    · exact hC
    · exact h.admitted e (List.mem_append_right xs he)
  pairwise := by
    obtain ⟨hxs, hys, hacross⟩ := List.pairwise_append.mp h.pairwise
    have hbehind : ∀ e ∈ ys, R recovery e.2 := fun e he =>
      hR.passed (h.admitted e (List.mem_append_right xs he)) hC (hpassed e he)
    have hfront : ∀ e ∈ xs, R e.2 recovery := by
      intro e he
      rcases List.eq_nil_or_concat' xs with rfl | ⟨front, last, rfl⟩
      · cases he
      · have hlast : R last.2 recovery :=
          hR.follows (h.admitted last (by simp)) hC (hstop last (by simp))
        rw [List.mem_append, List.mem_singleton] at he
        rcases he with he | rfl
        · exact hR.trans ((List.pairwise_append.mp hxs).2.2 e he last (by simp)) hlast
        · exact hlast
    rw [List.pairwise_append, List.pairwise_cons]
    refine ⟨hxs, ⟨hbehind, hys⟩, ?_⟩
    intro a ha b hb
    rcases List.mem_cons.mp hb with rfl | hb
    · exact hfront a ha
    · exact hacross a ha b hb

theorem Ranked.decrement (hR : Ranking C R) (h : Ranked C R xs) {n : Nat}
    (hn : ∀ e ∈ xs, n ≤ e.2.elementEnd) (hlt : ∀ e ∈ xs, e.2.elementEnd < 2 ^ 32) :
    Ranked C R (xs.map fun e => (e.1, e.2.decrement n)) where
  admitted := by
    intro e he
    obtain ⟨e', he', rfl⟩ := List.mem_map.mp he
    exact hR.class_decrement n (h.admitted e' he')
  pairwise := by
    rw [List.pairwise_map]
    refine h.pairwise.imp_of_mem ?_
    intro a b ha hb hab
    exact hR.decrement (hn a ha) (hn b hb) (hlt a ha) (hlt b hb) hab

end Order

section Runs

inductive Event (P β : Type) where
  | insert (p : P) (recovery : RecoveryPacket β) (outOfOrder : Bool)
  | delete (p : P)
  | deletePacketsBefore (element : Nat)
  | decrementElementCounters (elementCount : Nat)

/-- The list has the live packets, each once, by their ends. -/
structure Sorted (packets : RecoveryPacketList P β) (live : P → Option (RecoveryPacket β))
    (entries : List (P × RecoveryPacket β)) : Prop where
  lists : packets.Lists entries
  mem : ∀ p recovery, (p, recovery) ∈ entries ↔ live p = some recovery
  sorted : entries.Pairwise fun a b => a.2.elementEnd ≤ b.2.elementEnd
  bounded : ∀ e ∈ entries, e.2.elementEnd < 2 ^ 32

variable {packets : RecoveryPacketList P β} {live : P → Option (RecoveryPacket β)}
  {entries : List (P × RecoveryPacket β)}

theorem Sorted.not_mem_of_none (h : Sorted packets live entries) {p : P} :
    p ∉ entries.map Prod.fst ↔ live p = none := by
  rw [Option.eq_none_iff_forall_ne_some, List.mem_map, not_exists]
  constructor
  · intro hout recovery hp
    exact hout (p, recovery) ⟨(h.mem p recovery).mpr hp, rfl⟩
  · rintro hnone ⟨q, recovery⟩ ⟨hmem, rfl⟩
    exact hnone recovery ((h.mem q recovery).mp hmem)

theorem Sorted.ranked (h : Sorted packets live entries) :
    Ranked (fun _ => True) (fun a b => a.elementEnd ≤ b.elementEnd) entries :=
  ⟨fun _ _ => trivial, h.sorted⟩

variable [DecidableEq P]

def apply (packets : RecoveryPacketList P β) : Event P β → Option (RecoveryPacketList P β)
  | .insert p recovery outOfOrder => packets.insert p recovery outOfOrder
  | .delete p => packets.delete p
  | .deletePacketsBefore element => packets.deletePacketsBefore element
  | .decrementElementCounters elementCount => packets.decrementElementCounters elementCount

/-- What the callers mean: the packets inserted and not deleted, by their pointers. -/
def Event.effect (live : P → Option (RecoveryPacket β)) :
    Event P β → P → Option (RecoveryPacket β)
  | .insert p recovery _ => Function.update live p (some recovery)
  | .delete p => Function.update live p none
  | .deletePacketsBefore element => fun p =>
    (live p).filter fun recovery => element < recovery.elementEnd
  | .decrementElementCounters elementCount => fun p => (live p).map (·.decrement elementCount)

/-- What the callers give: a new packet at a pointer not in use, one of the list to delete, and no more
elements to take off than every packet has in front of it, which DecrementElementCounters asserts and
the callers compute from the packets (`foldlM_keepPacket_le`). -/
def Event.Allowed (live : P → Option (RecoveryPacket β)) : Event P β → Prop
  | .insert p recovery _ => live p = none ∧ recovery.elementEnd < 2 ^ 32
  | .delete p => live p ≠ none
  | .deletePacketsBefore _ => True
  | .decrementElementCounters elementCount => ∀ p recovery, live p = some recovery →
    elementCount ≤ recovery.elementStart ∧ elementCount ≤ recovery.elementEnd

def Event.Admits (C : RecoveryPacket β → Prop) : Event P β → Prop
  | .insert _ recovery _ => C recovery
  | _ => True

structure Step (s : RecoveryPacketList P β × (P → Option (RecoveryPacket β))) (e : Event P β)
    (t : RecoveryPacketList P β × (P → Option (RecoveryPacket β))) : Prop where
  allowed : e.Allowed s.2
  result : s.1.apply e = some t.1
  effect : t.2 = e.effect s.2

structure Stepped (e : Event P β) (live : P → Option (RecoveryPacket β))
    (entries entries' : List (P × RecoveryPacket β)) : Prop where
  mem : ∀ p recovery, (p, recovery) ∈ entries' ↔ e.effect live p = some recovery
  bounded : ∀ e ∈ entries', e.2.elementEnd < 2 ^ 32
  ranked : ∀ C R, Ranking C R → e.Admits C → Ranked C R entries → Ranked C R entries'

theorem Sorted.insert (h : Sorted packets live entries) {p : P} {recovery : RecoveryPacket β}
    {outOfOrder : Bool} (ha : (Event.insert p recovery outOfOrder).Allowed live) :
    ∃ packets' xs ys, entries = xs ++ ys ∧ packets.insert p recovery outOfOrder = some packets' ∧
      packets'.Lists (xs ++ (p, recovery) :: ys) ∧ (∀ e ∈ ys, ¬ recovery.Follows e.2) ∧
      (∀ e ∈ xs.getLast?, recovery.Follows e.2) ∧
      Stepped (.insert p recovery outOfOrder) live entries (xs ++ (p, recovery) :: ys) := by
  obtain ⟨hfresh, hlt⟩ := ha
  have hout := h.not_mem_of_none.mpr hfresh
  obtain ⟨packets', xs, ys, rfl, hinsert, hlists, hpassed, hstop⟩ :=
    h.lists.insert recovery outOfOrder hout
  refine ⟨packets', xs, ys, rfl, hinsert, hlists, hpassed, hstop, ?_, ?_, ?_⟩
  · intro q r
    have hmem := h.mem q r
    rw [List.mem_append] at hmem
    rw [List.mem_append, List.mem_cons, Event.effect]
    by_cases hqp : q = p
    · subst hqp
      rw [hfresh] at hmem
      rw [Function.update_self]
      simp only [Prod.mk.injEq, true_and, Option.some.injEq]
      constructor
      · rintro (hr | rfl | hr)
        · exact absurd (hmem.mp (.inl hr)) (by simp)
        · rfl
        · exact absurd (hmem.mp (.inr hr)) (by simp)
      · rintro rfl
        exact .inr (.inl rfl)
    · rw [Function.update_of_ne hqp, ← hmem]
      simp [hqp]
  · intro e he
    rw [List.mem_append, List.mem_cons] at he
    rcases he with he | rfl | he
    · exact h.bounded e (List.mem_append_left ys he)
    · exact hlt
    · exact h.bounded e (List.mem_append_right xs he)
  · intro C R hR hC hranked
    exact hranked.insert hR p hC hpassed hstop

theorem Sorted.step (h : Sorted packets live entries) {e : Event P β} (ha : e.Allowed live) :
    ∃ packets' entries', packets.apply e = some packets' ∧ packets'.Lists entries' ∧
      Stepped e live entries entries' := by
  cases e with
  | insert p recovery outOfOrder =>
    obtain ⟨packets', xs, ys, -, hinsert, hlists, -, -, hstepped⟩ := h.insert ha
    exact ⟨packets', _, hinsert, hlists, hstepped⟩
  | delete p =>
    have hp : p ∈ entries.map Prod.fst := by
      by_contra hout
      exact ha (h.not_mem_of_none.mp hout)
    obtain ⟨packets', xs, ys, recovery, rfl, hdelete, hlists⟩ := h.lists.delete hp
    have hsub : (xs ++ ys).Sublist (xs ++ (p, recovery) :: ys) :=
      (List.sublist_cons_self (p, recovery) ys).append_left xs
    have hnodup := h.lists.linked.nodup
    have hperm : (xs ++ (p, recovery) :: ys).Perm ((p, recovery) :: (xs ++ ys)) := List.perm_middle
    rw [(hperm.map Prod.fst).nodup_iff, List.map_cons, List.nodup_cons] at hnodup
    refine ⟨packets', _, hdelete, hlists, ?_, fun e he => h.bounded e (hsub.subset he),
      fun C R _ _ hranked => hranked.sublist hsub⟩
    intro q r
    rw [Event.effect]
    by_cases hqp : q = p
    · subst hqp
      rw [Function.update_self]
      simp only [reduceCtorEq, iff_false]
      intro hmem
      exact hnodup.1 (List.mem_map.mpr ⟨_, hmem, rfl⟩)
    · rw [Function.update_of_ne hqp, ← h.mem, List.mem_append, List.mem_append, List.mem_cons]
      simp [hqp]
  | deletePacketsBefore element =>
    obtain ⟨packets', xs, ys, rfl, hdelete, hlists, hdeleted, hkept⟩ :=
      h.lists.deletePacketsBefore element
    have hsub : ys.Sublist (xs ++ ys) := List.sublist_append_right xs ys
    refine ⟨packets', ys, hdelete, hlists, ?_, fun e he => h.bounded e (hsub.subset he),
      fun C R _ _ hranked => hranked.sublist hsub⟩
    have hall : ∀ e ∈ ys, element < e.2.elementEnd := by
      intro e he
      cases ys with
      | nil => cases he
      | cons y ys =>
        have hy := hkept y rfl
        rcases List.mem_cons.mp he with rfl | he
        · exact hy
        · have hsorted := (List.pairwise_append.mp h.sorted).2.1
          rw [List.pairwise_cons] at hsorted
          exact lt_of_lt_of_le hy (hsorted.1 e he)
    intro q r
    rw [Event.effect, Option.filter_eq_some_iff, ← h.mem, List.mem_append, decide_eq_true_iff]
    constructor
    · intro hmem
      exact ⟨.inr hmem, hall _ hmem⟩
    · rintro ⟨hmem | hmem, hlt⟩
      · have := hdeleted _ hmem
        simp only at this
        omega
      · exact hmem
  | decrementElementCounters elementCount =>
    obtain ⟨packets', hdecrement, hlists⟩ := h.lists.decrementElementCounters elementCount
    have hn : ∀ e ∈ entries, elementCount ≤ e.2.elementEnd := fun e he =>
      (ha e.1 e.2 ((h.mem e.1 e.2).mp he)).2
    refine ⟨packets', _, hdecrement, hlists, ?_, ?_, fun C R hR _ hranked =>
      hranked.decrement hR hn h.bounded⟩
    · intro q r
      rw [Event.effect, Option.map_eq_some_iff, List.mem_map]
      constructor
      · rintro ⟨⟨q', r'⟩, hmem, heq⟩
        cases heq
        exact ⟨r', (h.mem q' r').mp hmem, rfl⟩
      · rintro ⟨r', hlive, rfl⟩
        exact ⟨(q, r'), (h.mem q r').mpr hlive, rfl⟩
    · intro e he
      obtain ⟨e', he', rfl⟩ := List.mem_map.mp he
      have := h.bounded e' he'
      rw [decrement_end (hn e' he') this]
      omega

theorem Stepped.sorted {packets' : RecoveryPacketList P β} {e : Event P β}
    {entries' : List (P × RecoveryPacket β)} (hs : Stepped e live entries entries')
    (h : Sorted packets live entries) (hlists : packets'.Lists entries') :
    Sorted packets' (e.effect live) entries' where
  lists := hlists
  mem := hs.mem
  sorted := (hs.ranked _ _ ranking_end (by cases e <;> trivial) h.ranked).pairwise
  bounded := hs.bounded

/-- What the list has after a run: the invariant carries the order of the ties for every point from
which all the packets of the run start within half a period. -/
theorem sorted_of_run {events : List (Event P β)}
    {t : RecoveryPacketList P β × (P → Option (RecoveryPacket β))}
    (hrun : Run Step (empty, fun _ => none) events t) :
    ∃ entries, Sorted t.1 t.2 entries ∧
      ∀ base, (∀ e ∈ events, e.Admits (StartsFrom base)) →
        Ranked (StartsFrom base) (TiesFrom base) entries := by
  induction hrun with
  | nil =>
    refine ⟨[], ⟨lists_empty, by simp, List.Pairwise.nil, by simp⟩, fun base _ =>
      ⟨by simp, List.Pairwise.nil⟩⟩
  | @snoc t u events e _ hstep ih =>
    obtain ⟨entries, hsorted, hties⟩ := ih
    obtain ⟨packets', entries', happly, hlists, hstepped⟩ := hsorted.step hstep.allowed
    obtain rfl : packets' = u.1 := Option.some.inj (happly.symm.trans hstep.result)
    refine ⟨entries', ?_, fun base hall => ?_⟩
    · rw [hstep.effect]
      exact hstepped.sorted hsorted hlists
    · refine hstepped.ranked _ _ (ranking_ties base) (hall e (by simp)) (hties base ?_)
      intro e' he'
      exact hall e' (List.mem_append_left _ he')

/-- After any calls the list is well linked, as long as its counter says, and has the packets inserted
and not deleted, each once and by their ends. Insert puts a packet in front of those it does not follow,
from the tail back, so that of packets that end alike the one that starts later is in front. No allowed
call fails. -/
theorem recoveryPacketList_sorted {events : List (Event P β)}
    {s : RecoveryPacketList P β × (P → Option (RecoveryPacket β))}
    (hrun : Run Step (empty, fun _ => none) events s) :
    ∃ entries, Linked s.1.heap s.1.head s.1.tail entries ∧
      s.1.recoveryPacketCount = entries.length ∧
      (∀ p recovery, (p, recovery) ∈ entries ↔ s.2 p = some recovery) ∧
      (entries.Pairwise fun a b => a.2.elementEnd ≤ b.2.elementEnd) ∧
      (∀ base, (∀ e ∈ events, e.Admits (StartsFrom base)) →
        entries.Pairwise fun a b => TiesFrom base a.2 b.2) ∧
      (∀ e : Event P β, e.Allowed s.2 → ∃ packets, s.1.apply e = some packets) ∧
      ∀ p recovery outOfOrder, (Event.insert p recovery outOfOrder).Allowed s.2 →
        ∃ packets xs ys, entries = xs ++ ys ∧ s.1.insert p recovery outOfOrder = some packets ∧
          packets.Lists (xs ++ (p, recovery) :: ys) ∧ (∀ e ∈ ys, ¬ recovery.Follows e.2) ∧
          ∀ e ∈ xs.getLast?, recovery.Follows e.2 := by
  obtain ⟨entries, hsorted, hties⟩ := sorted_of_run hrun
  refine ⟨entries, hsorted.lists.linked, hsorted.lists.count, hsorted.mem, hsorted.sorted,
    fun base hall => (hties base hall).pairwise, ?_, ?_⟩
  · intro e ha
    obtain ⟨packets, _, happly, -⟩ := hsorted.step ha
    exact ⟨packets, happly⟩
  · intro p recovery outOfOrder ha
    obtain ⟨packets, xs, ys, hsplit, hinsert, hlists, hpassed, hstop, -⟩ := hsorted.insert ha
    exact ⟨packets, xs, ys, hsplit, hinsert, hlists, hpassed, hstop⟩

/-- Two packets that end alike, and a third that ends earlier. -/
theorem recoveryPacketList_sorted_three : ∃ (packets : RecoveryPacketList Nat Unit)
    (entries : List (Nat × RecoveryPacket Unit)), packets.recoveryPacketCount = 3 ∧
      Linked packets.heap packets.head packets.tail entries ∧
      packets.recoveryPacketCount = entries.length ∧
      entries.Pairwise fun a b => a.2.elementEnd ≤ b.2.elementEnd := by
  have hrun : ∃ s, Run Step ((empty : RecoveryPacketList Nat Unit), fun _ => none)
      [.insert 0 ⟨⟨0, 4, 3, 3⟩, 4, 7, ()⟩ false, .insert 1 ⟨⟨1, 5, 2, 2⟩, 5, 7, ()⟩ false,
        .insert 2 ⟨⟨2, 3, 2, 2⟩, 3, 5, ()⟩ true] s ∧ s.1.recoveryPacketCount = 3 :=
    ⟨_, Run.snoc (u := (_, _)) (a := Event.insert 2 ⟨⟨2, 3, 2, 2⟩, 3, 5, ()⟩ true)
      (Run.snoc (u := (_, _)) (a := Event.insert 1 ⟨⟨1, 5, 2, 2⟩, 5, 7, ()⟩ false)
        (Run.snoc (u := (_, _)) (a := Event.insert 0 ⟨⟨0, 4, 3, 3⟩, 4, 7, ()⟩ false) (Run.nil _)
          ⟨⟨rfl, by decide⟩, rfl, rfl⟩)
        ⟨⟨rfl, by decide⟩, rfl, rfl⟩)
      ⟨⟨rfl, by decide⟩, rfl, rfl⟩, rfl⟩
  obtain ⟨s, hrun, hthree⟩ := hrun
  obtain ⟨entries, hlinked, hcount, -, hsorted, -⟩ := recoveryPacketList_sorted hrun
  exact ⟨s.1, entries, hthree, hlinked, hcount, hsorted⟩

end Runs

end RecoveryPacketList
end Tonk.Siamese
