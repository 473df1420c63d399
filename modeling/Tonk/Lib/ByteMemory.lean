import Mathlib.Tactic

set_option autoImplicit false

namespace ByteMemory

abbrev Mem := Nat → BitVec 8

def ofBytes (f : Nat → BitVec 8) : (n : Nat) → BitVec (8 * n)
  | 0 => 0
  | n + 1 => (f n ++ ofBytes f n).cast (by omega)

def byte {w : Nat} (v : BitVec w) (k : Nat) : BitVec 8 := v.extractLsb' (8 * k) 8

def load (n : Nat) (m : Mem) (a : Nat) : BitVec (8 * n) := ofBytes (fun k => m (a + k)) n

def store (n : Nat) (m : Mem) (a : Nat) (v : BitVec (8 * n)) : Mem :=
  fun b => if a ≤ b ∧ b < a + n then byte v (b - a) else m b

theorem getLsbD_ofBytes (f : Nat → BitVec 8) {n i : Nat} (hi : i < 8 * n) :
    (ofBytes f n).getLsbD i = (f (i / 8)).getLsbD (i % 8) := by
  induction n with
  | zero => exact absurd hi (Nat.not_lt_zero i)
  | succ n ih =>
    rw [ofBytes, BitVec.getLsbD_cast, BitVec.getLsbD_append]
    split_ifs with hlow
    · exact ih hlow
    · rw [show i / 8 = n by omega, show i % 8 = i - 8 * n by omega]

theorem getLsbD_byte {w : Nat} (v : BitVec w) (k : Nat) {i : Nat} (hi : i < 8) :
    (byte v k).getLsbD i = v.getLsbD (8 * k + i) := by
  rw [byte, BitVec.getLsbD_extractLsb', decide_eq_true hi, Bool.true_and]

theorem byte_ofBytes (f : Nat → BitVec 8) {n k : Nat} (hk : k < n) : byte (ofBytes f n) k = f k := by
  apply BitVec.eq_of_getLsbD_eq
  intro i hi
  rw [getLsbD_byte _ _ hi, getLsbD_ofBytes f (by omega), show (8 * k + i) / 8 = k by omega,
    show (8 * k + i) % 8 = i by omega]

theorem byte_load (m : Mem) (a : Nat) {n k : Nat} (hk : k < n) : byte (load n m a) k = m (a + k) :=
  byte_ofBytes _ hk

theorem byte_xor {w : Nat} (v v' : BitVec w) (k : Nat) : byte (v ^^^ v') k = byte v k ^^^ byte v' k :=
  BitVec.extractLsb'_xor

theorem byte_and {w : Nat} (v v' : BitVec w) (k : Nat) : byte (v &&& v') k = byte v k &&& byte v' k :=
  BitVec.extractLsb'_and

theorem byte_or {w : Nat} (v v' : BitVec w) (k : Nat) : byte (v ||| v') k = byte v k ||| byte v' k :=
  BitVec.extractLsb'_or

theorem byte_setWidth_shiftLeft {w : Nat} (b : BitVec 8) {j k : Nat} (hk : 8 * k + 8 ≤ w) :
    byte (b.setWidth w <<< (8 * j)) k = if k = j then b else 0 := by
  apply BitVec.eq_of_getLsbD_eq
  intro i hi
  rw [getLsbD_byte _ _ hi, BitVec.getLsbD_shiftLeft, BitVec.getLsbD_setWidth]
  split_ifs with hkj
  · subst hkj
    simp only [Nat.add_sub_cancel_left]
    simp only [show 8 * k + i < w by omega, show ¬8 * k + i < 8 * k by omega, show i < w by omega,
      decide_true, decide_false, Bool.not_false, Bool.true_and]
  · by_cases hlow : 8 * k + i < 8 * j
    · simp [hlow]
    · rw [BitVec.getLsbD_of_ge b _ (by omega)]
      simp

/-! A buffer some of whose bytes are replaced. -/

def replaced (m : Mem) (z : Nat) (f : Nat → BitVec 8) (done : Finset Nat) : Mem :=
  fun a => if z ≤ a ∧ a - z ∈ done then f (a - z) else m a

section Replaced

variable {m : Mem} {z total w : Nat} {f : Nat → BitVec 8}

theorem replaced_empty : replaced m z f ∅ = m := by
  funext a
  rw [replaced, if_neg (fun h => absurd h.2 (Finset.notMem_empty _))]

theorem union_Ico_union_Ico (done : Finset Nat) {i j k : Nat} (hij : i ≤ j) (hjk : j ≤ k) :
    done ∪ Finset.Ico i j ∪ Finset.Ico j k = done ∪ Finset.Ico i k := by
  rw [Finset.union_assoc, Finset.Ico_union_Ico_eq_Ico hij hjk]

theorem store_replaced {n off : Nat} {v : BitVec (8 * n)} (done : Finset Nat)
    (hv : ∀ k, k < n → byte v k = f (off + k)) :
    store n (replaced m z f done) (z + off) v = replaced m z f (done ∪ Finset.Ico off (off + n)) := by
  funext a
  simp only [store, replaced, Finset.mem_union, Finset.mem_Ico]
  by_cases hin : z + off ≤ a ∧ a < z + off + n
  · have hbyte := hv (a - (z + off)) (by omega)
    rw [if_pos hin, if_pos ⟨by omega, .inr (by omega)⟩, hbyte,
      show off + (a - (z + off)) = a - z by omega]
  · rw [if_neg hin]
    congr 1
    simp only [eq_iff_iff, and_congr_right_iff]
    intro hz
    constructor
    · exact .inl
    · rintro (hdone | hblock)
      · exact hdone
      · omega

theorem replaced_range (m : Mem) (z total : Nat) (f : Nat → BitVec 8) (a : Nat) :
    replaced m z f (Finset.range total) a =
      if z ≤ a ∧ a < z + total then f (a - z) else m a := by
  rw [replaced]
  congr 1
  rw [Finset.mem_range, eq_iff_iff]
  omega

/-- Code that replaces `w` bytes from an offset on, whatever bytes elsewhere are replaced already. -/
def Replaces (m : Mem) (z total : Nat) (f : Nat → BitVec 8) (w : Nat) (block : Mem → Nat → Mem) :
    Prop :=
  ∀ done off, done ⊆ Finset.range total → off + w ≤ total →
    (∀ i, off ≤ i → i < off + w → i ∉ done) →
    block (replaced m z f done) off = replaced m z f (done ∪ Finset.Ico off (off + w))

theorem Replaces.range {block : Mem → Nat → Mem} (h : Replaces m z total f w block) {off : Nat}
    (hoff : off + w ≤ total) :
    block (replaced m z f (Finset.range off)) off = replaced m z f (Finset.range (off + w)) := by
  have hunion : Finset.range off ∪ Finset.Ico off (off + w) = Finset.range (off + w) := by
    rw [Finset.range_eq_Ico, Finset.range_eq_Ico,
      Finset.Ico_union_Ico_eq_Ico (Nat.zero_le off) (Nat.le_add_right off w)]
  rw [h (Finset.range off) off (Finset.range_subset_range.2 (by omega)) hoff
    (fun i hi _ hin => by rw [Finset.mem_range] at hin; omega), hunion]

theorem Replaces.seq {w' : Nat} {first second : Mem → Nat → Mem}
    (h : Replaces m z total f w first) (h' : Replaces m z total f w' second) :
    Replaces m z total f (w + w') fun m off => second (first m off) (off + w) := by
  intro done off hdone hoff hnew
  simp only
  rw [h done off hdone (by omega) fun i hi hlt => hnew i hi (by omega),
    h' _ (off + w) ?_ (by omega) ?_, union_Ico_union_Ico done (by omega) (by omega), Nat.add_assoc]
  · intro i hi
    rw [Finset.mem_union, Finset.mem_Ico] at hi
    rcases hi with hi | hi
    · exact hdone hi
    · exact Finset.mem_range.2 (by omega)
  · intro i hi hlt
    rw [Finset.mem_union, Finset.mem_Ico, not_or]
    exact ⟨hnew i (by omega) (by omega), by omega⟩

end Replaced

/-! Operations that make each byte of the buffer from bytes at the same offset. -/

/-- A second buffer does not overlap the one at `z`, or is the same. -/
def Apart (x z total : Nat) : Prop := x + total ≤ z ∨ z + total ≤ x ∨ x = z

/-- What `g` makes of the bytes at an offset only depends on these, in the buffers it reads. -/
def Pointwise (g : Mem → Nat → BitVec 8) (z total : Nat) : Prop :=
  ∀ m f done i, done ⊆ Finset.range total → i < total → i ∉ done →
    g (replaced m z f done) i = g m i

def Bytewise (g : Mem → Nat → BitVec 8) (n : Nat) (word : Mem → Nat → BitVec (8 * n)) : Prop :=
  ∀ m off k, k < n → byte (word m off) k = g m (off + k)

def storeWord (n : Nat) (word : Mem → Nat → BitVec (8 * n)) (z : Nat) (m : Mem) (off : Nat) : Mem :=
  store n m (z + off) (word m off)

def storeFourWords (n : Nat) (word : Mem → Nat → BitVec (8 * n)) (z : Nat) (m : Mem) (off : Nat) :
    Mem :=
  let w0 := word m off
  let w1 := word m (off + n)
  let w2 := word m (off + 2 * n)
  let w3 := word m (off + 3 * n)
  let m := store n m (z + off) w0
  let m := store n m (z + (off + n)) w1
  let m := store n m (z + (off + 2 * n)) w2
  store n m (z + (off + 3 * n)) w3

def storeTwoWords (n : Nat) (word : Mem → Nat → BitVec (8 * n)) (z : Nat) (m : Mem) (off : Nat) :
    Mem :=
  let w1 := word m (off + n)
  let w0 := word m off
  let m := store n m (z + (off + n)) w1
  store n m (z + off) w0

section Words

variable {m : Mem} {g : Mem → Nat → BitVec 8} {z total n : Nat} {word : Mem → Nat → BitVec (8 * n)}

theorem pointwise_read {x : Nat} (h : Apart x z total) : Pointwise (fun m i => m (x + i)) z total := by
  intro m f done i hdone hi hnew
  have hout (j : Nat) (hj : j ∈ done) : j < total := Finset.mem_range.1 (hdone hj)
  refine if_neg ?_
  rintro ⟨hz, hin⟩
  rcases h with hbefore | hbehind | heq
  · omega
  · have := hout _ hin
    omega
  · rw [heq, Nat.add_sub_cancel_left] at hin
    exact hnew hin

theorem Pointwise.map {g' : Mem → Nat → BitVec 8} (h : Pointwise g z total) (h' : Pointwise g' z total)
    (op : BitVec 8 → BitVec 8 → BitVec 8) : Pointwise (fun m i => op (g m i) (g' m i)) z total := by
  intro m f done i hdone hi hnew
  simp only [h m f done i hdone hi hnew, h' m f done i hdone hi hnew]

theorem Bytewise.byte_replaced (hword : Bytewise g n word) (hg : Pointwise g z total)
    {done : Finset Nat} {off k : Nat} (hdone : done ⊆ Finset.range total) (hoff : off + n ≤ total)
    (hnew : ∀ i, off ≤ i → i < off + n → i ∉ done) (hk : k < n) :
    byte (word (replaced m z (g m) done) off) k = g m (off + k) := by
  rw [hword _ _ _ hk]
  exact hg m (g m) done (off + k) hdone (by omega) (hnew _ (by omega) (by omega))

theorem Bytewise.storeWord (hword : Bytewise g n word) (hg : Pointwise g z total) :
    Replaces m z total (g m) n (storeWord n word z) := fun done _ hdone hoff hnew =>
  store_replaced done fun _ hk => hword.byte_replaced hg hdone hoff hnew hk

theorem Bytewise.storeFourWords (hword : Bytewise g n word) (hg : Pointwise g z total) :
    Replaces m z total (g m) (4 * n) (storeFourWords n word z) := by
  intro done off hdone hoff hnew
  have hbyte (i : Nat) (hi : i < 4) (k : Nat) (hk : k < n) :
      byte (word (replaced m z (g m) done) (off + i * n)) k = g m (off + i * n + k) := by
    have hin : i * n + n ≤ 4 * n := by
      rw [← Nat.succ_mul]
      exact Nat.mul_le_mul_right n hi
    exact hword.byte_replaced hg hdone (by omega) (fun j hj hlt => hnew j (by omega) (by omega)) hk
  have h0 := hbyte 0 (by decide)
  have h1 := hbyte 1 (by decide)
  rw [Nat.zero_mul, Nat.add_zero] at h0
  rw [Nat.one_mul] at h1
  simp only [ByteMemory.storeFourWords]
  rw [store_replaced done h0, store_replaced _ h1, store_replaced _ (hbyte 2 (by decide)),
    store_replaced _ (hbyte 3 (by decide)), union_Ico_union_Ico done (by omega) (by omega),
    show off + n + n = off + 2 * n by omega, union_Ico_union_Ico done (by omega) (by omega),
    show off + 2 * n + n = off + 3 * n by omega, union_Ico_union_Ico done (by omega) (by omega),
    show off + 3 * n + n = off + 4 * n by omega]

theorem Bytewise.storeTwoWords (hword : Bytewise g n word) (hg : Pointwise g z total) :
    Replaces m z total (g m) (2 * n) (storeTwoWords n word z) := by
  intro done off hdone hoff hnew
  have h0 (k : Nat) (hk : k < n) :=
    hword.byte_replaced (m := m) hg hdone (by omega)
      (fun j hj hlt => hnew j (by omega) (by omega) : ∀ j, off ≤ j → j < off + n → j ∉ done) hk
  have h1 (k : Nat) (hk : k < n) :=
    hword.byte_replaced (m := m) hg hdone (by omega)
      (fun j hj hlt => hnew j (by omega) (by omega) :
        ∀ j, off + n ≤ j → j < off + n + n → j ∉ done) hk
  have hunion : done ∪ Finset.Ico (off + n) (off + n + n) ∪ Finset.Ico off (off + n) =
      done ∪ Finset.Ico off (off + 2 * n) := by
    rw [Finset.union_right_comm, union_Ico_union_Ico done (by omega) (by omega),
      show off + n + n = off + 2 * n by omega]
  simp only [ByteMemory.storeTwoWords]
  rw [store_replaced done h1, store_replaced _ h0, hunion]

end Words

/-! Loops over blocks. -/

structure Cursor where
  mem : Mem
  offset : Nat
  bytes : Nat

def Cursor.advance (s : Cursor) (w : Nat) (block : Mem → Nat → Mem) : Cursor :=
  ⟨block s.mem s.offset, s.offset + w, s.bytes - w⟩

def whileBlocks (w : Nat) (block : Mem → Nat → Mem) (s : Cursor) : Cursor :=
  if 0 < w ∧ w ≤ s.bytes then whileBlocks w block (s.advance w block) else s
termination_by s.bytes
decreasing_by
  simp only [Cursor.advance]
  omega

def doWhileBlocks (w : Nat) (block : Mem → Nat → Mem) (s : Cursor) : Cursor :=
  whileBlocks w block (s.advance w block)

def forBlocks (w : Nat) (block : Mem → Nat → Mem) (count : Nat) (s : Cursor) : Cursor :=
  ⟨(List.range count).foldl (fun m i => block m (s.offset + i * w)) s.mem, s.offset + count * w,
    s.bytes - count * w⟩

structure Progress (m : Mem) (z total : Nat) (f : Nat → BitVec 8) (s : Cursor) : Prop where
  mem_eq : s.mem = replaced m z f (Finset.range s.offset)
  sum_eq : s.offset + s.bytes = total

section Loops

variable {m : Mem} {z total w : Nat} {f : Nat → BitVec 8} {block : Mem → Nat → Mem} {s : Cursor}

theorem progress_start (m : Mem) (z total : Nat) (f : Nat → BitVec 8) :
    Progress m z total f ⟨m, 0, total⟩ :=
  ⟨by rw [Finset.range_zero, replaced_empty], Nat.zero_add total⟩

theorem Progress.ite {P : Prop} [Decidable P] {s' : Cursor} (h' : P → Progress m z total f s')
    (h : Progress m z total f s) : Progress m z total f (if P then s' else s) := by
  split_ifs with hP
  · exact h' hP
  · exact h

theorem Progress.advance (h : Progress m z total f s) (hblock : Replaces m z total f w block)
    (hw : w ≤ s.bytes) : Progress m z total f (s.advance w block) := by
  have hsum := h.sum_eq
  refine ⟨?_, by simp only [Cursor.advance]; omega⟩
  simp only [Cursor.advance, h.mem_eq]
  exact hblock.range (by omega)

theorem Progress.whileBlocks (h : Progress m z total f s) (hblock : Replaces m z total f w block) :
    Progress m z total f (whileBlocks w block s) := by
  fun_induction ByteMemory.whileBlocks w block s with
  | case1 s hgo ih => exact ih (h.advance hblock hgo.2)
  | case2 s hstop => exact h

theorem whileBlocks_bytes_lt (hw : 0 < w) (s : Cursor) : (whileBlocks w block s).bytes < w := by
  fun_induction ByteMemory.whileBlocks w block s with
  | case1 s hgo ih => exact ih
  | case2 s hstop => omega

theorem Progress.doWhileBlocks (h : Progress m z total f s) (hblock : Replaces m z total f w block)
    (hw : w ≤ s.bytes) : Progress m z total f (doWhileBlocks w block s) :=
  (h.advance hblock hw).whileBlocks hblock

theorem Progress.forBlocks (h : Progress m z total f s) (hblock : Replaces m z total f w block)
    {count : Nat} (hcount : count * w ≤ s.bytes) :
    Progress m z total f (forBlocks w block count s) := by
  have hsum := h.sum_eq
  refine ⟨?_, by simp only [ByteMemory.forBlocks]; omega⟩
  simp only [ByteMemory.forBlocks]
  induction count with
  | zero => simpa using h.mem_eq
  | succ count ih =>
    have hsucc : (count + 1) * w = count * w + w := Nat.succ_mul count w
    rw [List.range_succ, List.foldl_append, List.foldl_cons, List.foldl_nil, ih (by omega),
      hblock.range (by omega), hsucc, Nat.add_assoc]

end Loops

end ByteMemory
