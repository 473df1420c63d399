import Mathlib.Tactic
import Tonk.Session.SimpleCipher

/-!
`SimpleCipher::Cipher` on the bytes of memory: the loop over 16 bytes in its two builds, with and
without vector registers, the loop over the words left, and the tail. Every build XORs the bytes by
one keystream.
-/

set_option autoImplicit false

namespace Tonk.Session.SimpleCipher
open LittleEndian

abbrev Memory := Nat → UInt8

def Memory.write (m : Memory) (p : Nat) (b : UInt8) : Memory := fun q => if q = p then b else m q

def byteOf (v i : Nat) : UInt8 := UInt8.ofNat (v >>> (8 * i))

def readU16_LE (m : Memory) (p : Nat) : Nat := ((m (p + 1)).toNat <<< 8) ||| (m p).toNat

def readU32_LE (m : Memory) (p : Nat) : Nat :=
  ((m (p + 3)).toNat <<< 24) ||| ((m (p + 2)).toNat <<< 16) ||| ((m (p + 1)).toNat <<< 8) |||
    (m p).toNat

def writeU16_LE (m : Memory) (p value : Nat) : Memory :=
  (m.write (p + 1) (UInt8.ofNat (value >>> 8))).write p (UInt8.ofNat value)

def writeU32_LE (m : Memory) (p value : Nat) : Memory :=
  (((m.write (p + 3) (UInt8.ofNat (value >>> 24))).write (p + 2) (UInt8.ofNat (value >>> 16))).write
    (p + 1) (UInt8.ofNat (value >>> 8))).write p (UInt8.ofNat value)

def tailReadLE32 (m : Memory) (p bytes : Nat) : Nat :=
  match bytes with
  | 4 => readU32_LE m p
  | 3 => ((m (p + 2)).toNat <<< 16) + readU16_LE m p
  | 2 => readU16_LE m p
  | 1 => (m p).toNat
  | _ => 0

def tailWriteLE32 (m : Memory) (value p bytes : Nat) : Memory :=
  match bytes with
  | 4 => writeU32_LE m p value
  | 3 => writeU16_LE (m.write (p + 2) (UInt8.ofNat (value >>> 16))) p (value % 2 ^ 16)
  | 2 => writeU16_LE m p (value % 2 ^ 16)
  | 1 => m.write p (UInt8.ofNat value)
  | _ => m

abbrev Lanes := Fin 4 → Nat

def turn (i : Nat) : Fin 4 := ⟨i &&& 3, Nat.lt_succ_of_le Nat.and_le_right⟩

structure CipherLoop where
  mem : Memory
  k : Lanes
  data : Nat
  bytes : Nat

def xorWord (a : Lanes) (i : Fin 4) (p : Nat) (mem : Memory) (k : Lanes) : Memory × Lanes :=
  let k := Function.update k i ((k i + a i) % 2 ^ 32)
  (writeU32_LE mem p (readU32_LE mem p ^^^ k i), k)

def xorBlocks (a : Lanes) (s : CipherLoop) : CipherLoop :=
  if 16 ≤ s.bytes then
    let (m0, k0) := xorWord a 0 s.data s.mem s.k
    let (m1, k1) := xorWord a 1 (s.data + 4) m0 k0
    let (m2, k2) := xorWord a 2 (s.data + 8) m1 k1
    let (m3, k3) := xorWord a 3 (s.data + 12) m2 k2
    xorBlocks a { mem := m3, k := k3, data := s.data + 16, bytes := s.bytes - 16 }
  else s
termination_by s.bytes

def mm_set_epi32 (e3 e2 e1 e0 : Nat) : Nat :=
  e0 % 2 ^ 32 + 2 ^ 32 * (e1 % 2 ^ 32) + 2 ^ 64 * (e2 % 2 ^ 32) + 2 ^ 96 * (e3 % 2 ^ 32)

def word32 (r i : Nat) : Nat := (r >>> (32 * i)) % 2 ^ 32

def mm_add_epi32 (x y : Nat) : Nat :=
  mm_set_epi32 (word32 x 3 + word32 y 3) (word32 x 2 + word32 y 2) (word32 x 1 + word32 y 1)
    (word32 x 0 + word32 y 0)

def mm_loadu_si128 (m : Memory) (p : Nat) : Nat := value ((List.range 16).map fun i => m (p + i))

def mm_storeu_si128 (m : Memory) (p r : Nat) : Memory := fun q =>
  if p ≤ q ∧ q < p + 16 then byteOf r (q - p) else m q

def xorRegisters (add key : Nat) (mem : Memory) (data bytes : Nat) : Memory × Nat × Nat × Nat :=
  if 16 ≤ bytes then
    let key := mm_add_epi32 key add
    xorRegisters add key (mm_storeu_si128 mem data (mm_loadu_si128 mem data ^^^ key)) (data + 16)
      (bytes - 16)
  else (mem, key, data, bytes)
termination_by bytes

def xorBlocksSimd (a : Lanes) (s : CipherLoop) : CipherLoop :=
  if 16 ≤ s.bytes then
    let key := mm_set_epi32 (s.k 3) (s.k 2) (s.k 1) (s.k 0)
    let add := mm_set_epi32 (a 3) (a 2) (a 1) (a 0)
    let (mem, key, data, bytes) := xorRegisters add key s.mem s.data s.bytes
    { mem := mem, k := fun i => word32 key i, data := data, bytes := bytes }
  else s

def xorRemaining (a : Lanes) (i : Nat) (s : CipherLoop) : CipherLoop × Nat :=
  if 4 ≤ s.bytes then
    let (mem, k) := xorWord a (turn i) s.data s.mem s.k
    xorRemaining a (i + 1) { mem := mem, k := k, data := s.data + 4, bytes := s.bytes - 4 }
  else (s, i)
termination_by s.bytes

def xorRest (a : Lanes) (s : CipherLoop) : Memory :=
  let (s, i) := xorRemaining a 0 s
  if 0 < s.bytes then
    let x := tailReadLE32 s.mem s.data s.bytes ^^^ ((s.k (turn i) + a (turn i)) % 2 ^ 32)
    tailWriteLE32 s.mem x s.data s.bytes
  else s.mem

def mixed (sequence : Nat) : Lanes :=
  let n0 := (sequence % 2 ^ 32 + 0x80771ab1) % 2 ^ 32
  let n1 := multiplyAndFold19 (((sequence >>> 32) % 2 ^ 32 + 0x55f2cc88) % 2 ^ 32) 0xf3f77d13
  fun
  | 0 => (multiplyAndFold19 0x905c4577 n0 + n1) % 2 ^ 32
  | 1 => (multiplyAndFold19 0xb84c88cb n0 + n1) % 2 ^ 32
  | 2 => (multiplyAndFold19 0xde0efbf1 n0 + n1) % 2 ^ 32
  | 3 => (multiplyAndFold19 0x9f614c3d n0 + n1) % 2 ^ 32

def expandedKey (c : SimpleCipher) : Lanes
  | 0 => c.expandedKey0
  | 1 => c.expandedKey1
  | 2 => c.expandedKey2
  | 3 => c.expandedKey3

def cipherMemory (simd : Bool) (c : SimpleCipher) (mem : Memory) (data bytes sequence : Nat) :
    Memory :=
  if c.expandedKey0 = 0 ∧ c.expandedKey1 = 0 then mem
  else
    let a := mixed sequence
    let s : CipherLoop := { mem := mem, k := c.expandedKey, data := data, bytes := bytes }
    xorRest a (if simd then xorBlocksSimd a s else xorBlocks a s)

def streamWord (key a : Lanes) (j : Nat) : Nat :=
  (key (turn j) + (j / 4 + 1) * a (turn j)) % 2 ^ 32

def streamByte (key a : Lanes) (i : Nat) : UInt8 := byteOf (streamWord key a (i / 4)) (i % 4)

def xorStream (stream : Nat → UInt8) (mem : Memory) (data n : Nat) : Memory := fun q =>
  if data ≤ q ∧ q < data + n then mem q ^^^ stream (q - data) else mem q

theorem byteOf_xor (v w i : Nat) : byteOf (v ^^^ w) i = byteOf v i ^^^ byteOf w i := by
  rw [byteOf, Nat.shiftRight_xor_distrib]
  exact UInt8.ofNat_xor _ _

theorem byteOf_toNat (v i : Nat) : (byteOf v i).toNat = v / 256 ^ i % 256 := by
  have hpow : 256 ^ i = 2 ^ (8 * i) := by
    rw [pow_mul]
    rfl
  rw [byteOf, UInt8.toNat_ofNat', Nat.shiftRight_eq_div_pow, hpow]

theorem byteOf_mod (v : Nat) {i n : Nat} (h : i < n) : byteOf (v % 256 ^ n) i = byteOf v i := by
  obtain ⟨r, rfl⟩ : ∃ r, n = i + (r + 1) := ⟨n - i - 1, by omega⟩
  rw [← UInt8.toNat_inj, byteOf_toNat, byteOf_toNat, pow_add, Nat.mod_mul_right_div_self,
    Nat.mod_mod_of_dvd _ (dvd_pow_self 256 r.succ_ne_zero)]

theorem byteOf_value (bs : List UInt8) {i : Nat} (h : i < bs.length) :
    byteOf (value bs) i = bs[i] := by
  induction bs generalizing i with
  | nil => exact absurd h (Nat.not_lt_zero i)
  | cons b bs ih =>
    have hb := b.toNat_lt
    rw [← UInt8.toNat_inj, byteOf_toNat]
    cases i with
    | zero =>
      rw [pow_zero, Nat.div_one, value, List.getElem_cons_zero]
      omega
    | succ i =>
      have hdiv : (b.toNat + 256 * value bs) / 256 = value bs := by omega
      rw [value, pow_succ', ← Nat.div_div_eq_div_mul, hdiv, ← byteOf_toNat, List.getElem_cons_succ,
        ih]

theorem readU16_LE_eq (m : Memory) (p : Nat) : readU16_LE m p = value [m p, m (p + 1)] := by
  have h0 := (m p).toNat_lt
  rw [readU16_LE, ← Nat.shiftLeft_add_eq_or_of_lt h0, Nat.shiftLeft_eq]
  simp only [value]
  omega

theorem readU32_LE_eq (m : Memory) (p : Nat) :
    readU32_LE m p = value [m p, m (p + 1), m (p + 2), m (p + 3)] := by
  have h0 := (m p).toNat_lt
  have h1 := (m (p + 1)).toNat_lt
  have h2 := (m (p + 2)).toNat_lt
  rw [readU32_LE, Nat.or_assoc, Nat.or_assoc, ← Nat.shiftLeft_add_eq_or_of_lt h0,
    ← Nat.shiftLeft_add_eq_or_of_lt (i := 16), ← Nat.shiftLeft_add_eq_or_of_lt (i := 24)]
  · simp only [value, Nat.shiftLeft_eq]
    omega
  all_goals
    simp only [Nat.shiftLeft_eq]
    omega

theorem tailReadLE32_eq (m : Memory) (p : Nat) {n : Nat} (h : n < 4) :
    tailReadLE32 m p n = value ((List.range n).map fun i => m (p + i)) := by
  match n, h with
  | 0, _ => rfl
  | 1, _ => rfl
  | 2, _ => exact readU16_LE_eq m p
  | 3, _ =>
    simp only [tailReadLE32, readU16_LE_eq, Nat.shiftLeft_eq, List.range_succ, List.range_zero,
      List.nil_append, List.map_cons, List.map_nil, List.cons_append, value, Nat.add_zero]
    omega

theorem writeU32_LE_apply (m : Memory) (p v q : Nat) :
    writeU32_LE m p v q = if p ≤ q ∧ q < p + 4 then byteOf v (q - p) else m q := by
  simp only [writeU32_LE, Memory.write]
  by_cases hq : p ≤ q ∧ q < p + 4
  · obtain ⟨i, rfl⟩ := Nat.exists_eq_add_of_le hq.1
    have hi : i < 4 := by omega
    rw [if_pos hq, Nat.add_sub_cancel_left]
    match i, hi with
    | 0, _ => simp [byteOf]
    | 1, _ => simp [byteOf]
    | 2, _ => simp [byteOf]
    | 3, _ => simp [byteOf]
  · rw [if_neg hq, if_neg (by omega), if_neg (by omega), if_neg (by omega), if_neg (by omega)]

theorem tailWriteLE32_apply (m : Memory) (v p q : Nat) {n : Nat} (h : n < 4) :
    tailWriteLE32 m v p n q = if p ≤ q ∧ q < p + n then byteOf v (q - p) else m q := by
  have hlow : UInt8.ofNat (v % 65536) = byteOf v 0 :=
    byteOf_mod v (show 0 < 2 by decide)
  have hhigh : UInt8.ofNat ((v % 65536) >>> 8) = byteOf v 1 :=
    byteOf_mod v (show 1 < 2 by decide)
  by_cases hq : p ≤ q ∧ q < p + n
  · obtain ⟨i, rfl⟩ := Nat.exists_eq_add_of_le hq.1
    have hi : i < n := by omega
    rw [if_pos hq, Nat.add_sub_cancel_left]
    match n, i, h, hi with
    | 1, 0, _, _ => simp [tailWriteLE32, Memory.write, byteOf]
    | 2, 0, _, _ => simp [tailWriteLE32, writeU16_LE, Memory.write, hlow]
    | 2, 1, _, _ => simp [tailWriteLE32, writeU16_LE, Memory.write, hhigh]
    | 3, 0, _, _ => simp [tailWriteLE32, writeU16_LE, Memory.write, hlow]
    | 3, 1, _, _ => simp [tailWriteLE32, writeU16_LE, Memory.write, hhigh]
    | 3, 2, _, _ => simp [tailWriteLE32, writeU16_LE, Memory.write, byteOf]
  · rw [if_neg hq]
    match n, h with
    | 0, _ => rfl
    | 1, _ =>
      simp only [tailWriteLE32, Memory.write]
      rw [if_neg (by omega)]
    | 2, _ =>
      simp only [tailWriteLE32, writeU16_LE, Memory.write]
      rw [if_neg (by omega), if_neg (by omega)]
    | 3, _ =>
      simp only [tailWriteLE32, writeU16_LE, Memory.write]
      rw [if_neg (by omega), if_neg (by omega), if_neg (by omega)]

@[simp] theorem turn_val (i : Nat) : (turn i : Nat) = i % 4 := Nat.and_two_pow_sub_one_eq_mod i 2

theorem turn_congr {i j : Nat} (h : i % 4 = j % 4) : turn i = turn j :=
  Fin.ext (by rw [turn_val, turn_val, h])

theorem xorStream_xorStream {f g : Nat → UInt8} (mem : Memory) (data : Nat) {n m : Nat}
    (h : ∀ i < m, g i = f (n + i)) :
    xorStream g (xorStream f mem data n) (data + n) m = xorStream f mem data (n + m) := by
  funext q
  simp only [xorStream]
  by_cases hfront : q < data + n
  · rw [if_neg (by omega)]
    by_cases hdata : data ≤ q
    · rw [if_pos ⟨hdata, hfront⟩, if_pos ⟨hdata, by omega⟩]
    · rw [if_neg (fun hq => hdata hq.1), if_neg (fun hq => hdata hq.1)]
  · rw [if_neg (c := data ≤ q ∧ q < data + n) (fun hq => hfront hq.2)]
    by_cases hback : q < data + n + m
    · rw [if_pos ⟨by omega, hback⟩, if_pos ⟨by omega, by omega⟩, h _ (by omega)]
      congr 2
      omega
    · rw [if_neg (fun hq => hback hq.2), if_neg (by omega)]

theorem xorStream_zero (f : Nat → UInt8) (mem : Memory) (data : Nat) :
    xorStream f mem data 0 = mem := by
  funext q
  rw [xorStream, if_neg (by omega)]

theorem xorStream_of_apply {f : Nat → UInt8} {mem mem' : Memory} {data n v : Nat}
    (hwrite : ∀ q, mem' q = if data ≤ q ∧ q < data + n then byteOf v (q - data) else mem q)
    (hread : ∀ i < n, byteOf v i = mem (data + i) ^^^ f i) : mem' = xorStream f mem data n := by
  funext q
  rw [hwrite, xorStream]
  by_cases hq : data ≤ q ∧ q < data + n
  · rw [if_pos hq, if_pos hq, hread _ (by omega), Nat.add_sub_cancel' hq.1]
  · rw [if_neg hq, if_neg hq]

theorem xorWord_mem (a : Lanes) (i : Fin 4) (p : Nat) (mem : Memory) (k : Lanes) :
    (xorWord a i p mem k).1 = xorStream (byteOf ((k i + a i) % 2 ^ 32)) mem p 4 := by
  refine xorStream_of_apply (writeU32_LE_apply mem p _) fun j hj => ?_
  rw [Function.update_self, byteOf_xor, readU32_LE_eq, byteOf_value _ (by simpa using hj)]
  match j, hj with
  | 0, _ => rfl
  | 1, _ => rfl
  | 2, _ => rfl
  | 3, _ => rfl

theorem xorTail_mem (w p : Nat) (mem : Memory) {n : Nat} (h : n < 4) :
    tailWriteLE32 mem (tailReadLE32 mem p n ^^^ w) p n = xorStream (byteOf w) mem p n := by
  refine xorStream_of_apply (fun q => tailWriteLE32_apply mem _ p q h) fun j hj => ?_
  rw [byteOf_xor, tailReadLE32_eq mem p h, byteOf_value _ (by simpa using hj), List.getElem_map,
    List.getElem_range]

theorem xorRegister_mem (key p : Nat) (mem : Memory) :
    mm_storeu_si128 mem p (mm_loadu_si128 mem p ^^^ key) = xorStream (byteOf key) mem p 16 := by
  refine xorStream_of_apply (fun q => rfl) fun j hj => ?_
  rw [byteOf_xor, mm_loadu_si128, byteOf_value _ (by simpa using hj), List.getElem_map,
    List.getElem_range]

theorem word32_set (e3 e2 e1 e0 : Nat) (i : Fin 4) :
    word32 (mm_set_epi32 e3 e2 e1 e0) i = ![e0, e1, e2, e3] i % 2 ^ 32 := by
  simp only [word32, mm_set_epi32, Nat.shiftRight_eq_div_pow]
  match i with
  | 0 => simp; omega
  | 1 => simp; omega
  | 2 => simp; omega
  | 3 => simp; omega

theorem word32_add (x y : Nat) (i : Fin 4) :
    word32 (mm_add_epi32 x y) i = (word32 x i + word32 y i) % 2 ^ 32 := by
  rw [mm_add_epi32, word32_set]
  match i with
  | 0 => rfl
  | 1 => rfl
  | 2 => rfl
  | 3 => rfl

theorem byteOf_word32 (r i : Nat) : byteOf (word32 r (i / 4)) (i % 4) = byteOf r i := by
  have hlow : byteOf (word32 r (i / 4)) (i % 4) = byteOf (r >>> (32 * (i / 4))) (i % 4) :=
    byteOf_mod (r >>> (32 * (i / 4))) (Nat.mod_lt i (show 0 < 4 by decide))
  rw [hlow, byteOf, byteOf, ← Nat.shiftRight_add]
  congr 2
  omega

theorem streamWord_add_four (key a : Lanes) (j : Nat) :
    streamWord key a (j + 4) = (streamWord key a j + a (turn j)) % 2 ^ 32 := by
  have hturn : turn (j + 4) = turn j := turn_congr (Nat.add_mod_right j 4)
  have hdiv : (j + 4) / 4 = j / 4 + 1 := by omega
  simp only [streamWord, hturn, hdiv, Nat.mod_add_mod]
  congr 1
  ring

structure Processed (key a : Lanes) (mem : Memory) (data w : Nat) (mem' : Memory) (k : Lanes) :
    Prop where
  mem : mem' = xorStream (streamByte key a) mem data (4 * w)
  lanes : ∀ j, w ≤ j → j < w + 4 → (k (turn j) + a (turn j)) % 2 ^ 32 = streamWord key a j

theorem Processed.start (key a : Lanes) (mem : Memory) (data : Nat) :
    Processed key a mem data 0 mem key where
  mem := (xorStream_zero _ mem data).symm
  lanes j _ hj := by
    have hdiv : j / 4 = 0 := by omega
    rw [streamWord, hdiv, Nat.zero_add, Nat.one_mul]

section
variable {key a : Lanes} {mem : Memory} {data w : Nat} {mem' : Memory} {k : Lanes}

theorem streamByte_word (key a : Lanes) (w : Nat) {i : Nat} (h : i < 4) :
    byteOf (streamWord key a w) i = streamByte key a (4 * w + i) := by
  have hdiv : (4 * w + i) / 4 = w := by omega
  have hmod : (4 * w + i) % 4 = i := by omega
  rw [streamByte, hdiv, hmod]

theorem Processed.word (h : Processed key a mem data w mem' k) {i : Fin 4} (hi : i = turn w) :
    Processed key a mem data (w + 1) (xorWord a i (data + 4 * w) mem' k).1
      (xorWord a i (data + 4 * w) mem' k).2 where
  mem := by
    subst hi
    rw [xorWord_mem, h.lanes w (Nat.le_refl w) (by omega), h.mem]
    exact xorStream_xorStream mem data fun i hi => streamByte_word key a w hi
  lanes j hj hj' := by
    subst hi
    simp only [xorWord]
    by_cases hlast : j = w + 4
    · have hturn : turn (w + 4) = turn w := turn_congr (Nat.add_mod_right w 4)
      rw [hlast, hturn, Function.update_self, h.lanes w (Nat.le_refl w) (by omega),
        streamWord_add_four]
    · have hne : turn j ≠ turn w := by
        intro heq
        have hmod := congrArg Fin.val heq
        rw [turn_val, turn_val] at hmod
        omega
      rw [Function.update_of_ne hne]
      exact h.lanes j (by omega) (by omega)

theorem Processed.register {r add : Nat} (hadd : ∀ i : Fin 4, word32 add i = a i % 2 ^ 32)
    (hw : w % 4 = 0) (h : Processed key a mem data w mem' fun i => word32 r i) :
    Processed key a mem data (w + 4)
      (mm_storeu_si128 mem' (data + 4 * w)
        (mm_loadu_si128 mem' (data + 4 * w) ^^^ mm_add_epi32 r add))
      (fun i => word32 (mm_add_epi32 r add) i) := by
  have hword : ∀ j, w ≤ j → j < w + 4 →
      word32 (mm_add_epi32 r add) (turn j) = streamWord key a j := by
    intro j hj hj'
    rw [word32_add, hadd, Nat.add_mod_mod, h.lanes j hj hj']
  refine ⟨?_, fun j hj hj' => ?_⟩
  · rw [xorRegister_mem, h.mem]
    refine xorStream_xorStream mem data fun i hi => ?_
    have hlane : ((turn (w + i / 4) : Fin 4) : Nat) = i / 4 := by
      rw [turn_val]
      omega
    have hbyte := hword (w + i / 4) (by omega) (by omega)
    have hdiv : (4 * w + i) / 4 = w + i / 4 := by omega
    have hmod : (4 * w + i) % 4 = i % 4 := by omega
    rw [← byteOf_word32, ← hlane, hbyte, streamByte, hdiv, hmod]
  · obtain ⟨j, rfl⟩ : ∃ j', j = j' + 4 := ⟨j - 4, by omega⟩
    have hturn : turn (j + 4) = turn j := turn_congr (Nat.add_mod_right j 4)
    rw [hturn, hword j (by omega) (by omega), streamWord_add_four]

structure Stopped (key a : Lanes) (mem : Memory) (data bytes w : Nat) (s : CipherLoop) :
    Prop where
  processed : Processed key a mem data w s.mem s.k
  data_eq : s.data = data + 4 * w
  bytes_eq : 4 * w + s.bytes = bytes

theorem xorBlocks_stopped {bytes : Nat} (s : CipherLoop) (hw : w % 4 = 0)
    (h : Stopped key a mem data bytes w s) :
    ∃ w', w' % 4 = 0 ∧ Stopped key a mem data bytes w' (xorBlocks a s) := by
  fun_induction xorBlocks a s generalizing w with
  | case1 s hbytes m0 k0 h0 m1 k1 h1 m2 k2 h2 m3 k3 h3 ih =>
    have hturn : ∀ i : Fin 4, i = turn (w + i) := fun i => Fin.ext (by rw [turn_val]; omega)
    have hp := h.processed
    have hs0 := hp.word (hturn 0)
    rw [← h.data_eq, h0] at hs0
    have hs1 := hs0.word (hturn 1)
    have hd1 : data + 4 * (w + 1) = s.data + 4 := by rw [h.data_eq]; omega
    rw [hd1, h1] at hs1
    have hs2 := hs1.word (hturn 2)
    have hd2 : data + 4 * (w + 1 + 1) = s.data + 8 := by rw [h.data_eq]; omega
    rw [hd2, h2] at hs2
    have hs3 := hs2.word (hturn 3)
    have hd3 : data + 4 * (w + 1 + 1 + 1) = s.data + 12 := by rw [h.data_eq]; omega
    rw [hd3, h3] at hs3
    have hrest := h.bytes_eq
    have hdata := h.data_eq
    exact ih (w := w + 4) (by omega) ⟨hs3, by dsimp only; omega, by dsimp only; omega⟩
  | case2 s hbytes => exact ⟨w, hw, h⟩

theorem xorRegisters_stopped {bytes : Nat} {add : Nat}
    (hadd : ∀ i : Fin 4, word32 add i = a i % 2 ^ 32) (r : Nat) (m : Memory) (p n : Nat)
    (hw : w % 4 = 0)
    (h : Stopped key a mem data bytes w ⟨m, fun i => word32 r i, p, n⟩) :
    ∃ w', w' % 4 = 0 ∧ Stopped key a mem data bytes w'
      ⟨(xorRegisters add r m p n).1, fun i => word32 (xorRegisters add r m p n).2.1 i,
        (xorRegisters add r m p n).2.2.1, (xorRegisters add r m p n).2.2.2⟩ := by
  fun_induction xorRegisters add r m p n generalizing w with
  | case1 r m p n hbytes r' =>
    rename_i ih
    have hp := h.processed.register hadd hw
    have hdata : p = data + 4 * w := h.data_eq
    have hrest : 4 * w + n = bytes := h.bytes_eq
    rw [← hdata] at hp
    exact @ih (w + 4) (by omega) ⟨hp, by dsimp only; omega, by dsimp only; omega⟩
  | case2 r m p n hbytes => exact ⟨w, hw, h⟩

theorem xorBlocksSimd_stopped {bytes : Nat} (s : CipherLoop) (hw : w % 4 = 0)
    (h : Stopped key a mem data bytes w s) :
    ∃ w', w' % 4 = 0 ∧ Stopped key a mem data bytes w' (xorBlocksSimd a s) := by
  unfold xorBlocksSimd
  split
  · have hset : ∀ (l : Lanes) (i : Fin 4),
        word32 (mm_set_epi32 (l 3) (l 2) (l 1) (l 0)) i = l i % 2 ^ 32 := by
      intro l i
      rw [word32_set]
      match i with
      | 0 => rfl
      | 1 => rfl
      | 2 => rfl
      | 3 => rfl
    refine xorRegisters_stopped (hset a) _ s.mem s.data s.bytes hw ⟨⟨h.processed.mem, ?_⟩,
      h.data_eq, h.bytes_eq⟩
    intro j hj hj'
    dsimp only
    rw [hset, Nat.mod_add_mod, h.processed.lanes j hj hj']
  · exact ⟨w, hw, h⟩

theorem xorRemaining_stopped {bytes : Nat} (i : Nat) (s : CipherLoop) (hi : i % 4 = w % 4)
    (h : Stopped key a mem data bytes w s) :
    ∃ w', (xorRemaining a i s).2 % 4 = w' % 4 ∧ (xorRemaining a i s).1.bytes < 4 ∧
      Stopped key a mem data bytes w' (xorRemaining a i s).1 := by
  fun_induction xorRemaining a i s generalizing w with
  | case1 i s hbytes m k hstep ih =>
    have hp := h.processed.word (turn_congr hi)
    have hdata := h.data_eq
    have hrest := h.bytes_eq
    rw [← hdata, hstep] at hp
    exact ih (w := w + 1) (by omega) ⟨hp, by dsimp only; omega, by dsimp only; omega⟩
  | case2 i s hbytes => exact ⟨w, hi, Nat.lt_of_not_le hbytes, h⟩

theorem xorRest_eq {bytes : Nat} (s : CipherLoop) (hw : w % 4 = 0)
    (h : Stopped key a mem data bytes w s) :
    xorRest a s = xorStream (streamByte key a) mem data bytes := by
  obtain ⟨w', hturn, hbytes, hs⟩ := xorRemaining_stopped 0 s (by omega) h
  unfold xorRest
  generalize xorRemaining a 0 s = rest at hturn hbytes hs
  obtain ⟨s', i⟩ := rest
  dsimp only at hturn hbytes hs ⊢
  have hrest := hs.bytes_eq
  by_cases hpos : 0 < s'.bytes
  · rw [if_pos hpos, xorTail_mem _ _ _ hbytes, turn_congr hturn,
      hs.processed.lanes w' (Nat.le_refl w') (by omega), hs.processed.mem, hs.data_eq, ← hrest]
    exact xorStream_xorStream mem data fun i hi => streamByte_word key a w' (by omega)
  · have hall : 4 * w' = bytes := by omega
    rw [if_neg hpos, hs.processed.mem, hall]

end

/-- The bytes a datagram of this nonce is XORed by. The zero key stands for no encryption. -/
def keystream (c : SimpleCipher) (sequence i : Nat) : UInt8 :=
  if c.expandedKey0 = 0 ∧ c.expandedKey1 = 0 then 0
  else streamByte c.expandedKey (mixed sequence) i

theorem cipherMemory_eq (simd : Bool) (c : SimpleCipher) (mem : Memory)
    (data bytes sequence : Nat) :
    c.cipherMemory simd mem data bytes sequence =
      xorStream (c.keystream sequence) mem data bytes := by
  unfold cipherMemory
  by_cases hzero : c.expandedKey0 = 0 ∧ c.expandedKey1 = 0
  · rw [if_pos hzero]
    funext q
    have hzeros : ∀ i, c.keystream sequence i = 0 := fun i => if_pos hzero
    rw [xorStream, hzeros, UInt8.xor_zero, ite_self]
  · have hstart : Stopped c.expandedKey (mixed sequence) mem data bytes 0
        ⟨mem, c.expandedKey, data, bytes⟩ := ⟨Processed.start _ _ mem data, rfl, Nat.zero_add bytes⟩
    have hkeys : c.keystream sequence = streamByte c.expandedKey (mixed sequence) :=
      funext fun i => if_neg hzero
    rw [if_neg hzero, hkeys]
    cases simd with
    | true =>
      obtain ⟨w, hw, hs⟩ := xorBlocksSimd_stopped _ rfl hstart
      exact xorRest_eq _ hw hs
    | false =>
      obtain ⟨w, hw, hs⟩ := xorBlocks_stopped _ rfl hstart
      exact xorRest_eq _ hw hs

theorem xorStream_self (f : Nat → UInt8) (mem : Memory) (data n : Nat) :
    xorStream f (xorStream f mem data n) data n = mem := by
  funext q
  simp only [xorStream]
  split
  · rw [UInt8.xor_assoc, UInt8.xor_self, UInt8.xor_zero]
  · rfl

theorem cipherMemory_inside (simd : Bool) (c : SimpleCipher) (mem : Memory)
    (data sequence : Nat) {bytes i : Nat} (h : i < bytes) :
    c.cipherMemory simd mem data bytes sequence (data + i) =
      mem (data + i) ^^^ c.keystream sequence i := by
  rw [cipherMemory_eq, xorStream, if_pos ⟨Nat.le_add_right data i, by omega⟩,
    Nat.add_sub_cancel_left]

/-- Both builds are their own inverse, also one of the other, leave every byte outside the buffer,
and XOR byte `i` of it by a keystream that neither the build nor the buffer has a part in. -/
theorem cipherMemory_builds (c : SimpleCipher) (sequence : Nat) (mem : Memory)
    (data bytes : Nat) :
    (∀ simd simd', c.cipherMemory simd' (c.cipherMemory simd mem data bytes sequence) data bytes
      sequence = mem) ∧
    (∀ simd q, ¬ (data ≤ q ∧ q < data + bytes) →
      c.cipherMemory simd mem data bytes sequence q = mem q) ∧
    (∀ simd i, i < bytes → c.cipherMemory simd mem data bytes sequence (data + i) =
      mem (data + i) ^^^ c.keystream sequence i) ∧
    c.cipherMemory true mem data bytes sequence = c.cipherMemory false mem data bytes sequence := by
  refine ⟨fun simd simd' => ?_, fun simd q hq => ?_, fun simd i hi => ?_, ?_⟩
  · rw [cipherMemory_eq, cipherMemory_eq]
    exact xorStream_self _ mem data bytes
  · rw [cipherMemory_eq, xorStream, if_neg hq]
  · exact c.cipherMemory_inside simd mem data sequence hi
  · rw [cipherMemory_eq, cipherMemory_eq]

theorem bytes_xor (bs : List UInt8) (key : Nat) :
    bytes bs.length (value bs ^^^ key) = bs.mapIdx fun i b => b ^^^ byteOf key i := by
  have hbyte : ∀ (n v : Nat), bytes n v = (List.range n).map (byteOf v) := by
    intro n v
    have hval : ∀ i (h : i < (bytes n v).length), (bytes n v)[i] = byteOf v i := by
      intro i h
      rw [← byteOf_value, value_bytes]
      exact byteOf_mod v (by rwa [length_bytes] at h)
    refine List.ext_getElem (by simp) fun i h _ => ?_
    rw [hval i h, List.getElem_map, List.getElem_range]
  refine List.ext_getElem (by simp) fun i h h' => ?_
  rw [List.length_mapIdx] at h'
  simp only [hbyte, List.getElem_map, List.getElem_range, List.getElem_mapIdx, byteOf_xor]
  rw [byteOf_value bs h']

structure InTurn (key a : Lanes) (w : Nat) (k b : Words) : Prop where
  key0 : (k.w0 + b.w0) % 2 ^ 32 = streamWord key a w
  key1 : (k.w1 + b.w1) % 2 ^ 32 = streamWord key a (w + 1)
  key2 : (k.w2 + b.w2) % 2 ^ 32 = streamWord key a (w + 2)
  key3 : (k.w3 + b.w3) % 2 ^ 32 = streamWord key a (w + 3)
  add0 : b.w0 = a (turn w)
  add1 : b.w1 = a (turn (w + 1))
  add2 : b.w2 = a (turn (w + 2))
  add3 : b.w3 = a (turn (w + 3))

theorem InTurn.next {key a : Lanes} {w : Nat} {k b : Words} (h : InTurn key a w k b) :
    InTurn key a (w + 1) (k.turn fun _ => (k.w0 + b.w0) % 2 ^ 32) (b.turn id) where
  key0 := h.key1
  key1 := h.key2
  key2 := h.key3
  key3 := by
    dsimp only [Words.turn, id]
    rw [h.key0, h.add0]
    exact (streamWord_add_four key a w).symm
  add0 := h.add1
  add1 := h.add2
  add2 := h.add3
  add3 := h.add0.trans (congrArg a (turn_congr (Nat.add_mod_right w 4).symm))

theorem xorWords_eq {key a : Lanes} {w : Nat} {k b : Words} (h : InTurn key a w k b)
    (data : List UInt8) :
    xorWords k b data = data.mapIdx fun i x => x ^^^ streamByte key a (4 * w + i) := by
  have hpart : ∀ (w : Nat) (bs : List UInt8), bs.length ≤ 4 →
      bytes bs.length (value bs ^^^ streamWord key a w) =
        bs.mapIdx fun i x => x ^^^ streamByte key a (4 * w + i) := by
    intro w bs hbs
    rw [bytes_xor]
    refine List.ext_getElem (by simp) fun i hi _ => ?_
    rw [List.length_mapIdx] at hi
    rw [List.getElem_mapIdx, List.getElem_mapIdx, streamByte_word key a w (by omega)]
  fun_induction xorWords k b data generalizing w with
  | case1 k b b0 b1 b2 b3 data word =>
    rename_i ih
    have hfour := hpart w [b0, b1, b2, b3] (Nat.le_refl 4)
    have hword : word = streamWord key a w := h.key0
    have hsplit : b0 :: b1 :: b2 :: b3 :: data = [b0, b1, b2, b3] ++ data := rfl
    have hshift : ∀ i, 4 * (w + 1) + i = 4 * w + (i + 4) := fun i => by omega
    rw [ih h.next, hword, hsplit, List.mapIdx_append]
    simp only [hshift]
    exact congrArg (· ++ _) hfour
  | case2 => rfl
  | case3 k b tail hword hnil =>
    have hshort : tail.length ≤ 4 := by
      rcases tail with - | ⟨b0, - | ⟨b1, - | ⟨b2, - | ⟨b3, rest⟩⟩⟩⟩
      · simp
      · simp
      · simp
      · simp
      · exact absurd rfl (hword b0 b1 b2 b3 rest)
    rw [h.key0]
    exact hpart w tail hshort

theorem cipher_eq_cipherMemory (simd : Bool) (c : SimpleCipher) (mem : Memory)
    (data bytes sequence : Nat) :
    c.cipher ((List.range bytes).map fun i => mem (data + i)) sequence =
      (List.range bytes).map fun i => c.cipherMemory simd mem data bytes sequence (data + i) := by
  by_cases hzero : c.expandedKey0 = 0 ∧ c.expandedKey1 = 0
  · rw [cipher, if_pos hzero]
    refine List.map_congr_left fun i hi => ?_
    rw [cipherMemory_inside _ _ _ _ _ (List.mem_range.mp hi), keystream, if_pos hzero,
      UInt8.xor_zero]
  · have hturn : InTurn c.expandedKey (mixed sequence) 0
        ⟨c.expandedKey0, c.expandedKey1, c.expandedKey2, c.expandedKey3⟩
        ⟨mixed sequence 0, mixed sequence 1, mixed sequence 2, mixed sequence 3⟩ := by
      have hlane : ∀ j < 4, streamWord c.expandedKey (mixed sequence) j =
          (c.expandedKey (turn j) + mixed sequence (turn j)) % 2 ^ 32 := by
        intro j hj
        rw [streamWord, Nat.div_eq_of_lt hj, Nat.zero_add, Nat.one_mul]
      exact ⟨(hlane 0 (by decide)).symm, (hlane 1 (by decide)).symm, (hlane 2 (by decide)).symm,
        (hlane 3 (by decide)).symm, rfl, rfl, rfl, rfl⟩
    rw [cipher, if_neg hzero]
    refine (xorWords_eq hturn _).trans (List.ext_getElem (by simp) fun i hi _ => ?_)
    rw [List.length_mapIdx, List.length_map, List.length_range] at hi
    rw [List.getElem_mapIdx, List.getElem_map, List.getElem_map, List.getElem_range,
      cipherMemory_inside _ _ _ _ _ hi, keystream, if_neg hzero, Nat.mul_zero, Nat.zero_add]

end Tonk.Session.SimpleCipher
