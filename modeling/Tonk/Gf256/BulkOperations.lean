import Tonk.Gf256.Tables
import Tonk.Siamese.Buffers

set_option autoImplicit false

namespace Tonk.Gf256
open ByteMemory

/-- GF256_TARGET_MOBILE without NEON, and the flags of the processor for the other targets. -/
structure Cpu where
  targetMobile : Bool
  hasAVX2 : Bool
  hasSSSE3 : Bool

def gf256_add (x y : BitVec 8) : BitVec 8 := x ^^^ y

/-- The switch over the final bytes, whose cases fall through. -/
def finalBytes (block : Mem → Nat → Mem) (m : Mem) (offset : Nat) : Nat → Mem
  | 3 => block (block (block m (offset + 2)) (offset + 1)) offset
  | 2 => block (block m (offset + 1)) offset
  | 1 => block m offset
  | _ => m

def finishAdd (word : (n : Nat) → Mem → Nat → BitVec (8 * n)) (z : Nat) (s : Cursor) : Mem :=
  let eight := s.bytes &&& 8
  let m := if eight ≠ 0 then storeWord 8 (word 8) z s.mem s.offset else s.mem
  let four := s.bytes &&& 4
  let m := if four ≠ 0 then storeWord 4 (word 4) z m (s.offset + eight) else m
  let offset := eight + four
  finalBytes (storeWord 1 (word 1) z) m (s.offset + offset) (s.bytes &&& 3)

def addWord (vx vy n : Nat) (m : Mem) (off : Nat) : BitVec (8 * n) :=
  load n m (vx + off) ^^^ load n m (vy + off)

def gf256_add_mem (cpu : Cpu) (vx vy bytes : Nat) (m : Mem) : Mem :=
  let word := addWord vx vy
  let s : Cursor := ⟨m, 0, bytes⟩
  let s :=
    if cpu.targetMobile then forBlocks 8 (storeWord 8 (word 8) vx) (bytes / 8) s
    else
      let s :=
        if cpu.hasAVX2 then
          let s := whileBlocks 128 (storeFourWords 32 (word 32) vx) s
          whileBlocks 32 (storeWord 32 (word 32) vx) s
        else whileBlocks 64 (storeFourWords 16 (word 16) vx) s
      whileBlocks 16 (storeWord 16 (word 16) vx) s
  finishAdd word vx s

def add2Word (vz vx vy n : Nat) (m : Mem) (off : Nat) : BitVec (8 * n) :=
  load n m (vz + off) ^^^ (load n m (vx + off) ^^^ load n m (vy + off))

def gf256_add2_mem (cpu : Cpu) (vz vx vy bytes : Nat) (m : Mem) : Mem :=
  let word := add2Word vz vx vy
  let s : Cursor := ⟨m, 0, bytes⟩
  let s :=
    if cpu.targetMobile then forBlocks 8 (storeWord 8 (word 8) vz) (bytes / 8) s
    else
      let s :=
        if cpu.hasAVX2 then forBlocks 32 (storeWord 32 (word 32) vz) (bytes / 32) s else s
      whileBlocks 16 (storeWord 16 (word 16) vz) s
  finishAdd word vz s

def gf256_addset_mem (cpu : Cpu) (vz vx vy bytes : Nat) (m : Mem) : Mem :=
  let word := addWord vx vy
  let s : Cursor := ⟨m, 0, bytes⟩
  let s :=
    if cpu.targetMobile then forBlocks 8 (storeWord 8 (word 8) vz) (bytes / 8) s
    else
      let s :=
        if cpu.hasAVX2 then forBlocks 32 (storeWord 32 (word 32) vz) (bytes / 32) s
        else whileBlocks 64 (storeFourWords 16 (word 16) vz) s
      whileBlocks 16 (storeWord 16 (word 16) vz) s
  finishAdd word vz s

def tableBits (y : BitVec 8) (w : Nat) (m : Mem) (x1 : Nat) : Nat → BitVec w
  | 0 => (gf256_mul (m x1) y).setWidth w
  | n + 1 => tableBits y w m x1 n |||
      (gf256_mul (m (x1 + (n + 1))) y).setWidth w <<< (8 * (n + 1))

def tableWord (y : BitVec 8) (vx n : Nat) (m : Mem) (off : Nat) : BitVec (8 * n) :=
  tableBits y (8 * n) m (vx + off) (n - 1)

def vectorWord (y : BitVec 8) (vx n : Nat) (m : Mem) (off : Nat) : BitVec (8 * n) :=
  mulVector y (load n m (vx + off))

def addTo (vz : Nat) (word : (n : Nat) → Mem → Nat → BitVec (8 * n)) (n : Nat) (m : Mem) (off : Nat) :
    BitVec (8 * n) :=
  load n m (vz + off) ^^^ word n m off

def finishMul (word : (n : Nat) → Mem → Nat → BitVec (8 * n)) (z : Nat) (s : Cursor) : Mem :=
  let s := whileBlocks 8 (storeWord 8 (word 8) z) s
  let four := s.bytes &&& 4
  let m := if four ≠ 0 then storeWord 4 (word 4) z s.mem s.offset else s.mem
  finalBytes (storeWord 1 (word 1) z) m (s.offset + four) (s.bytes &&& 3)

def memset (z : Nat) (b : BitVec 8) (bytes : Nat) (m : Mem) : Mem :=
  fun a => if z ≤ a ∧ a < z + bytes then b else m a

def memcpy (z x bytes : Nat) (m : Mem) : Mem :=
  fun a => if z ≤ a ∧ a < z + bytes then m (x + (a - z)) else m a

def gf256_mul_mem (cpu : Cpu) (vz vx : Nat) (y : BitVec 8) (bytes : Nat) (m : Mem) : Mem :=
  if y ≤ 1 then
    if y = 0 then memset vz 0 bytes m
    else if vz ≠ vx then memcpy vz vx bytes m
    else m
  else
    let word := vectorWord y vx
    let s : Cursor := ⟨m, 0, bytes⟩
    let s :=
      if cpu.targetMobile then s
      else
        let s :=
          if 32 ≤ s.bytes ∧ cpu.hasAVX2 then doWhileBlocks 32 (storeWord 32 (word 32) vz) s else s
        if 16 ≤ s.bytes ∧ cpu.hasSSSE3 then doWhileBlocks 16 (storeWord 16 (word 16) vz) s else s
    finishMul (tableWord y vx) vz s

def gf256_muladd_mem (cpu : Cpu) (vz : Nat) (y : BitVec 8) (vx bytes : Nat) (m : Mem) : Mem :=
  if y ≤ 1 then
    if y = 1 then gf256_add_mem cpu vz vx bytes m else m
  else
    let word := addTo vz (vectorWord y vx)
    let s : Cursor := ⟨m, 0, bytes⟩
    let s :=
      if cpu.targetMobile then s
      else
        let s :=
          if 32 ≤ s.bytes ∧ cpu.hasAVX2 then
            let block := storeWord 32 (word 32) vz
            let s := forBlocks 64 (fun m off => block (block m off) (off + 32)) (s.bytes / 64) s
            if 32 ≤ s.bytes then s.advance 32 block else s
          else s
        if 16 ≤ s.bytes ∧ cpu.hasSSSE3 then
          let s := whileBlocks 32 (storeTwoWords 16 (word 16) vz) s
          whileBlocks 16 (storeWord 16 (word 16) vz) s
        else s
    finishMul (addTo vz (tableWord y vx)) vz s

/-! Words are made byte by byte. -/

section Words

variable {vz vx vy n : Nat} {y : BitVec 8}

theorem bytewise_load (x n : Nat) :
    Bytewise (fun m i => m (x + i)) n fun m off => load n m (x + off) := fun m off k hk => by
  rw [byte_load _ _ hk, Nat.add_assoc]

theorem bytewise_xor {g g' : Mem → Nat → BitVec 8} {word word' : Mem → Nat → BitVec (8 * n)}
    (h : Bytewise g n word) (h' : Bytewise g' n word') :
    Bytewise (fun m i => gf256_add (g m i) (g' m i)) n fun m off => word m off ^^^ word' m off :=
  fun m off k hk => by
    rw [byte_xor, h m off k hk, h' m off k hk]
    rfl

theorem byte_tableBits (y : BitVec 8) (m : Mem) (x1 : Nat) {w i k : Nat} (hk : 8 * k + 8 ≤ w) :
    byte (tableBits y w m x1 i) k = if k ≤ i then gf256_mul (m (x1 + k)) y else 0 := by
  induction i with
  | zero =>
    have hplace := byte_setWidth_shiftLeft (gf256_mul (m x1) y) (j := 0) hk
    rw [Nat.mul_zero, BitVec.shiftLeft_zero] at hplace
    rw [tableBits, hplace]
    split_ifs with hzero hle <;> first | rfl | omega | skip
    rw [hzero, Nat.add_zero]
  | succ i ih =>
    rw [tableBits, byte_or, ih, byte_setWidth_shiftLeft _ hk]
    split_ifs with hle hlast <;> first | omega | simp_all

theorem bytewise_tableWord (y : BitVec 8) (vx n : Nat) :
    Bytewise (fun m i => gf256_mul (m (vx + i)) y) n (tableWord y vx n) := fun m off k hk => by
  rw [tableWord, byte_tableBits y m _ (by omega), if_pos (by omega), Nat.add_assoc]

theorem bytewise_vectorWord (y : BitVec 8) (vx : Nat) (hn : n % 16 = 0) :
    Bytewise (fun m i => gf256_mul (m (vx + i)) y) n (vectorWord y vx n) := fun m off k hk => by
  rw [vectorWord, byte_mulVector y _ hn hk, byte_load _ _ hk, Nat.add_assoc]

theorem bytewise_addWord (vx vy n : Nat) :
    Bytewise (fun m i => gf256_add (m (vx + i)) (m (vy + i))) n (addWord vx vy n) :=
  bytewise_xor (bytewise_load vx n) (bytewise_load vy n)

theorem bytewise_add2Word (vz vx vy n : Nat) :
    Bytewise (fun m i => gf256_add (m (vz + i)) (gf256_add (m (vx + i)) (m (vy + i)))) n
      (add2Word vz vx vy n) :=
  bytewise_xor (bytewise_load vz n) (bytewise_addWord vx vy n)

theorem bytewise_addTo {g : Mem → Nat → BitVec 8} {word : (n : Nat) → Mem → Nat → BitVec (8 * n)}
    (h : Bytewise g n (word n)) :
    Bytewise (fun m i => gf256_add (m (vz + i)) (g m i)) n (addTo vz word n) :=
  bytewise_xor (bytewise_load vz n) h

end Words

/-! What is left behind the vectors. -/

section Finish

variable {m : Mem} {z total : Nat} {f : Nat → BitVec 8}

theorem finalBytes_replaced {block : Mem → Nat → Mem} (h : Replaces m z total f 1 block) {off count : Nat}
    (hcount : count ≤ 3) (hend : off + count ≤ total) :
    finalBytes block (replaced m z f (Finset.range off)) off count =
      replaced m z f (Finset.range (off + count)) := by
  have hstart : replaced m z f (Finset.range off) =
      replaced m z f (Finset.range off ∪ Finset.Ico (off + count) (off + count)) := by
    rw [Finset.Ico_self, Finset.union_empty]
  have hall : replaced m z f (Finset.range off ∪ Finset.Ico off (off + count)) =
      replaced m z f (Finset.range (off + count)) := by
    rw [Finset.range_eq_Ico, Finset.range_eq_Ico,
      Finset.Ico_union_Ico_eq_Ico (Nat.zero_le off) (Nat.le_add_right off count)]
  have hstep (i : Nat) (hi : i < count) :
      block (replaced m z f (Finset.range off ∪ Finset.Ico (off + i + 1) (off + count))) (off + i) =
        replaced m z f (Finset.range off ∪ Finset.Ico (off + i) (off + count)) := by
    have hunion : Finset.range off ∪ Finset.Ico (off + i + 1) (off + count) ∪
        Finset.Ico (off + i) (off + i + 1) = Finset.range off ∪ Finset.Ico (off + i) (off + count) := by
      rw [Finset.union_right_comm, union_Ico_union_Ico _ (by omega) (by omega)]
    rw [h _ (off + i) ?_ (by omega) ?_, hunion]
    · intro j hj
      rw [Finset.mem_union, Finset.mem_range, Finset.mem_Ico] at hj
      rw [Finset.mem_range]
      omega
    · intro j hj hlt
      rw [Finset.mem_union, Finset.mem_range, Finset.mem_Ico]
      omega
  rw [hstart, ← hall]
  match count, hcount, hstep with
  | 0, _, _ => rfl
  | 1, _, hstep => exact hstep 0 (by decide)
  | 2, _, hstep =>
    have h1 := hstep 1 (by decide)
    have h0 : block _ off = _ := hstep 0 (by decide)
    exact (congrArg (block · off) h1).trans h0
  | 3, _, hstep =>
    have h2 := hstep 2 (by decide)
    have h1 : block _ (off + 1) = _ := hstep 1 (by decide)
    have h0 : block _ off = _ := hstep 0 (by decide)
    exact (congrArg (fun m => block (block m (off + 1)) off) h2).trans
      ((congrArg (block · off) h1).trans h0)

theorem and_eight {bytes : Nat} (h : bytes < 16) :
    bytes &&& 8 = bytes / 8 * 8 ∧ bytes &&& 4 = bytes / 4 % 2 * 4 ∧ bytes &&& 3 = bytes % 4 := by
  revert bytes
  decide

theorem optional_replaced {w present : Nat} {block : Mem → Nat → Mem}
    (h : Replaces m z total f w block) {off : Nat} (hpresent : present = 0 ∨ present = w)
    (hend : off + present ≤ total) :
    (if present ≠ 0 then block (replaced m z f (Finset.range off)) off
      else replaced m z f (Finset.range off)) = replaced m z f (Finset.range (off + present)) := by
  by_cases hzero : present = 0
  · rw [if_neg (not_not.2 hzero), hzero, Nat.add_zero]
  · obtain rfl := hpresent.resolve_left hzero
    rw [if_pos hzero, h.range hend]

section Word

variable {g : Mem → Nat → BitVec 8} {word : (n : Nat) → Mem → Nat → BitVec (8 * n)} {s : Cursor}

theorem finishAdd_eq (hword : ∀ n, Bytewise g n (word n)) (hg : Pointwise g z total)
    (hs : Progress m z total (g m) s) (hleft : s.bytes < 16) :
    finishAdd word z s = replaced m z (g m) (Finset.range total) := by
  obtain ⟨height, hfour, hthree⟩ := and_eight hleft
  have hsum := hs.sum_eq
  simp only [finishAdd, height, hfour, hthree, hs.mem_eq]
  rw [optional_replaced ((hword 8).storeWord hg) (by omega) (by omega),
    optional_replaced ((hword 4).storeWord hg) (by omega) (by omega), Nat.add_assoc,
    finalBytes_replaced ((hword 1).storeWord hg) (by omega) (by omega)]
  congr 2
  omega

theorem finishMul_eq (hword : ∀ n, Bytewise g n (word n)) (hg : Pointwise g z total)
    (hs : Progress m z total (g m) s) :
    finishMul word z s = replaced m z (g m) (Finset.range total) := by
  have hblocks := hs.whileBlocks ((hword 8).storeWord hg)
  have hleft : (whileBlocks 8 (storeWord 8 (word 8) z) s).bytes < 8 :=
    whileBlocks_bytes_lt (by decide) s
  obtain ⟨-, hfour, hthree⟩ := and_eight (Nat.lt_trans hleft (by decide))
  have hsum := hblocks.sum_eq
  simp only [finishMul, hfour, hthree, hblocks.mem_eq]
  rw [optional_replaced ((hword 4).storeWord hg) (by omega) (by omega),
    finalBytes_replaced ((hword 1).storeWord hg) (by omega) (by omega)]
  congr 2
  omega

theorem finishAdd_mobile (hword : ∀ n, Bytewise g n (word n)) (hg : Pointwise g z total) :
    finishAdd word z (forBlocks 8 (storeWord 8 (word 8) z) (total / 8) ⟨m, 0, total⟩) =
      replaced m z (g m) (Finset.range total) := by
  have hcount : total / 8 * 8 ≤ total := Nat.div_mul_le_self total 8
  refine finishAdd_eq hword hg ((progress_start m z total (g m)).forBlocks ((hword 8).storeWord hg)
    hcount) ?_
  simp only [forBlocks]
  omega

theorem finishAdd_sixteen (hword : ∀ n, Bytewise g n (word n)) (hg : Pointwise g z total)
    (hs : Progress m z total (g m) s) :
    finishAdd word z (whileBlocks 16 (storeWord 16 (word 16) z) s) =
      replaced m z (g m) (Finset.range total) :=
  finishAdd_eq hword hg (hs.whileBlocks ((hword 16).storeWord hg)) (whileBlocks_bytes_lt (by decide) s)

end Word

end Finish

/-! The operations as a whole. -/

section Operations

variable (cpu : Cpu) {m : Mem} {vz vx vy bytes : Nat}

theorem gf256_add_mem_eq (hy : Apart vy vx bytes) :
    gf256_add_mem cpu vx vy bytes m =
      replaced m vx (fun i => gf256_add (m (vx + i)) (m (vy + i))) (Finset.range bytes) := by
  have hg : Pointwise (fun m i => gf256_add (m (vx + i)) (m (vy + i))) vx bytes :=
    (pointwise_read (.inr (.inr rfl))).map (pointwise_read hy) gf256_add
  have hword := bytewise_addWord vx vy
  have hstart := progress_start m vx bytes fun i => gf256_add (m (vx + i)) (m (vy + i))
  simp only [gf256_add_mem]
  by_cases hmobile : cpu.targetMobile
  · rw [if_pos hmobile]
    exact finishAdd_mobile hword hg
  · rw [if_neg hmobile]
    apply finishAdd_sixteen hword hg
    by_cases havx : cpu.hasAVX2
    · rw [if_pos havx]
      exact (hstart.whileBlocks ((hword 32).storeFourWords hg)).whileBlocks ((hword 32).storeWord hg)
    · rw [if_neg havx]
      exact hstart.whileBlocks ((hword 16).storeFourWords hg)

theorem gf256_add2_mem_eq (hx : Apart vx vz bytes) (hy : Apart vy vz bytes) :
    gf256_add2_mem cpu vz vx vy bytes m =
      replaced m vz (fun i => gf256_add (m (vz + i)) (gf256_add (m (vx + i)) (m (vy + i))))
        (Finset.range bytes) := by
  have hg : Pointwise (fun m i => gf256_add (m (vz + i)) (gf256_add (m (vx + i)) (m (vy + i)))) vz
      bytes :=
    (pointwise_read (.inr (.inr rfl))).map ((pointwise_read hx).map (pointwise_read hy) gf256_add)
      gf256_add
  have hword := bytewise_add2Word vz vx vy
  have hstart := progress_start m vz bytes
    fun i => gf256_add (m (vz + i)) (gf256_add (m (vx + i)) (m (vy + i)))
  simp only [gf256_add2_mem]
  by_cases hmobile : cpu.targetMobile
  · rw [if_pos hmobile]
    exact finishAdd_mobile hword hg
  · rw [if_neg hmobile]
    apply finishAdd_sixteen hword hg
    by_cases havx : cpu.hasAVX2
    · rw [if_pos havx]
      exact hstart.forBlocks ((hword 32).storeWord hg) (Nat.div_mul_le_self bytes 32)
    · rw [if_neg havx]
      exact hstart

theorem gf256_addset_mem_eq (hx : Apart vx vz bytes) (hy : Apart vy vz bytes) :
    gf256_addset_mem cpu vz vx vy bytes m =
      replaced m vz (fun i => gf256_add (m (vx + i)) (m (vy + i))) (Finset.range bytes) := by
  have hg : Pointwise (fun m i => gf256_add (m (vx + i)) (m (vy + i))) vz bytes :=
    (pointwise_read hx).map (pointwise_read hy) gf256_add
  have hword := bytewise_addWord vx vy
  have hstart := progress_start m vz bytes fun i => gf256_add (m (vx + i)) (m (vy + i))
  simp only [gf256_addset_mem]
  by_cases hmobile : cpu.targetMobile
  · rw [if_pos hmobile]
    exact finishAdd_mobile hword hg
  · rw [if_neg hmobile]
    apply finishAdd_sixteen hword hg
    by_cases havx : cpu.hasAVX2
    · rw [if_pos havx]
      exact hstart.forBlocks ((hword 32).storeWord hg) (Nat.div_mul_le_self bytes 32)
    · rw [if_neg havx]
      exact hstart.whileBlocks ((hword 16).storeFourWords hg)

theorem gf256_mul_mem_eq (y : BitVec 8) (hx : Apart vx vz bytes) :
    gf256_mul_mem cpu vz vx y bytes m =
      replaced m vz (fun i => gf256_mul (m (vx + i)) y) (Finset.range bytes) := by
  have hg : Pointwise (fun m i => gf256_mul (m (vx + i)) y) vz bytes :=
    (pointwise_read hx).map (pointwise_read hx) fun b _ => gf256_mul b y
  have hword {n : Nat} (hn : n % 16 = 0) := bytewise_vectorWord (n := n) y vx hn
  have hstart := progress_start m vz bytes fun i => gf256_mul (m (vx + i)) y
  simp only [gf256_mul_mem]
  by_cases hspecial : y ≤ 1
  · rw [if_pos hspecial]
    by_cases hzero : y = 0
    · rw [if_pos hzero, hzero]
      funext a
      rw [replaced_range, gf256_mul_zero, memset]
    have hone : y = 1 := by
      have hle : y.toNat ≤ 1 := hspecial
      have hpos : y.toNat ≠ 0 := fun h => hzero (BitVec.eq_of_toNat_eq h)
      exact BitVec.eq_of_toNat_eq (by omega : y.toNat = 1)
    rw [if_neg hzero, hone]
    funext a
    rw [replaced_range, gf256_mul_one]
    by_cases hself : vz = vx
    · rw [if_neg (not_not.2 hself), hself]
      split_ifs with hin
      · rw [Nat.add_sub_cancel' hin.1]
      · rfl
    · rw [if_pos hself, memcpy]
  · rw [if_neg hspecial]
    apply finishMul_eq (bytewise_tableWord y vx) hg
    by_cases hmobile : cpu.targetMobile
    · rw [if_pos hmobile]
      exact hstart
    rw [if_neg hmobile]
    have hwide : Progress m vz bytes (fun i => gf256_mul (m (vx + i)) y)
        (if 32 ≤ bytes ∧ cpu.hasAVX2 then
          doWhileBlocks 32 (storeWord 32 (vectorWord y vx 32) vz) ⟨m, 0, bytes⟩
        else ⟨m, 0, bytes⟩) :=
      .ite (fun h => hstart.doWhileBlocks ((hword rfl).storeWord hg) h.1) hstart
    exact .ite (fun h => hwide.doWhileBlocks ((hword rfl).storeWord hg) h.1) hwide

theorem gf256_muladd_mem_eq (y : BitVec 8) (hx : Apart vx vz bytes) :
    gf256_muladd_mem cpu vz y vx bytes m =
      replaced m vz (fun i => gf256_add (m (vz + i)) (gf256_mul (m (vx + i)) y))
        (Finset.range bytes) := by
  have hg : Pointwise (fun m i => gf256_add (m (vz + i)) (gf256_mul (m (vx + i)) y)) vz bytes :=
    (pointwise_read (.inr (.inr rfl))).map (pointwise_read hx) fun b b' => gf256_add b (gf256_mul b' y)
  have hword {n : Nat} (hn : n % 16 = 0) :
      Bytewise (fun m i => gf256_add (m (vz + i)) (gf256_mul (m (vx + i)) y)) n
        (addTo vz (vectorWord y vx) n) :=
    bytewise_addTo (bytewise_vectorWord y vx hn)
  have hstart := progress_start m vz bytes fun i => gf256_add (m (vz + i)) (gf256_mul (m (vx + i)) y)
  simp only [gf256_muladd_mem]
  by_cases hspecial : y ≤ 1
  · rw [if_pos hspecial]
    by_cases hone : y = 1
    · rw [if_pos hone, hone, gf256_add_mem_eq cpu hx]
      simp only [gf256_mul_one]
    have hzero : y = 0 := by
      have hle : y.toNat ≤ 1 := hspecial
      have hne : y.toNat ≠ 1 := fun h => hone (BitVec.eq_of_toNat_eq h)
      exact BitVec.eq_of_toNat_eq (by omega : y.toNat = 0)
    rw [if_neg hone, hzero]
    funext a
    simp only [replaced_range, gf256_mul_zero, gf256_add]
    split_ifs with hin
    · rw [Nat.add_sub_cancel' hin.1]
      exact (BitVec.xor_zero).symm
    · rfl
  · rw [if_neg hspecial]
    apply finishMul_eq (fun n => bytewise_addTo (bytewise_tableWord y vx n)) hg
    by_cases hmobile : cpu.targetMobile
    · rw [if_pos hmobile]
      exact hstart
    rw [if_neg hmobile]
    have hblock := (hword (n := 32) rfl).storeWord (m := m) hg
    have hpairs := hstart.forBlocks (hblock.seq hblock) (Nat.div_mul_le_self bytes 64)
    have hwide := Progress.ite (P := 32 ≤ bytes ∧ cpu.hasAVX2)
      (fun _ => Progress.ite (fun h => hpairs.advance hblock h) hpairs) hstart
    have hsixteen := hword (n := 16) rfl
    have htwo : Replaces m vz bytes _ 32 _ := hsixteen.storeTwoWords hg
    exact .ite (fun _ => (hwide.whileBlocks htwo).whileBlocks (hsixteen.storeWord hg)) hwide

end Operations

/-! What is done to the bytes of a buffer, one by one. -/

/-- The first `bytes` bytes at `z` are made by `op` of their offsets, and no other byte is changed. -/
structure DoneBytewise (m m' : Mem) (z bytes : Nat) (op : Nat → BitVec 8) : Prop where
  inside : ∀ i, i < bytes → m' (z + i) = op i
  outside : ∀ a, a < z ∨ z + bytes ≤ a → m' a = m a

theorem doneBytewise_replaced (m : Mem) (z bytes : Nat) (op : Nat → BitVec 8) :
    DoneBytewise m (replaced m z op (Finset.range bytes)) z bytes op where
  inside i hi := by rw [replaced_range, if_pos (by omega), Nat.add_sub_cancel_left]
  outside a ha := by rw [replaced_range, if_neg (by omega)]

/-- On each processor, for buffers that do not overlap the destination or are the destination. -/
theorem bulk_operations_bytewise (cpu : Cpu) (m : Mem) {vz vx vy bytes : Nat}
    (hx : Apart vx vz bytes) (hy : Apart vy vz bytes) (y : BitVec 8) :
    DoneBytewise m (gf256_add_mem cpu vz vx bytes m) vz bytes
        (fun i => gf256_add (m (vz + i)) (m (vx + i))) ∧
      DoneBytewise m (gf256_add2_mem cpu vz vx vy bytes m) vz bytes
        (fun i => gf256_add (m (vz + i)) (gf256_add (m (vx + i)) (m (vy + i)))) ∧
      DoneBytewise m (gf256_addset_mem cpu vz vx vy bytes m) vz bytes
        (fun i => gf256_add (m (vx + i)) (m (vy + i))) ∧
      DoneBytewise m (gf256_mul_mem cpu vz vx y bytes m) vz bytes
        (fun i => gf256_mul (m (vx + i)) y) ∧
      DoneBytewise m (gf256_muladd_mem cpu vz y vx bytes m) vz bytes
        (fun i => gf256_add (m (vz + i)) (gf256_mul (m (vx + i)) y)) := by
  rw [gf256_add_mem_eq cpu hx, gf256_add2_mem_eq cpu hx hy, gf256_addset_mem_eq cpu hx hy,
    gf256_mul_mem_eq cpu y hx, gf256_muladd_mem_eq cpu y hx]
  exact ⟨doneBytewise_replaced .., doneBytewise_replaced .., doneBytewise_replaced ..,
    doneBytewise_replaced .., doneBytewise_replaced ..⟩

/-- 37 bytes: a vector of 32, a block of 4 and a single byte. -/
theorem bulk_operations_bytewise_thirty_seven :
    DoneBytewise (fun a => BitVec.ofNat 8 a)
      (gf256_muladd_mem ⟨false, true, true⟩ 0 0x53 100 37 (fun a => BitVec.ofNat 8 a)) 0 37
      (fun i => gf256_add (BitVec.ofNat 8 (0 + i)) (gf256_mul (BitVec.ofNat 8 (100 + i)) 0x53)) :=
  (bulk_operations_bytewise ⟨false, true, true⟩ (fun a => BitVec.ofNat 8 a)
    (.inr (.inl (by decide))) (.inr (.inl (by decide)) : Apart 200 0 37) 0x53).2.2.2.2

/-! The buffers of sums and recovery packets are changed as their models are. -/

section Buffer

open Siamese

def bufferAt (m : Mem) (z bytes : Nat) : DataBuffer := (List.range bytes).map fun i => ⟨m (z + i)⟩

@[simp] theorem length_bufferAt (m : Mem) (z bytes : Nat) : (bufferAt m z bytes).length = bytes := by
  rw [bufferAt, List.length_map, List.length_range]

theorem padded_bufferAt (m : Mem) (z : Nat) {bytes i : Nat} :
    (bufferAt m z bytes).padded i = if i < bytes then ⟨m (z + i)⟩ else 0 := by
  rw [DataBuffer.padded, bufferAt, List.getD_eq_getElem?_getD, List.getElem?_map]
  split_ifs with hi
  · rw [List.getElem?_range hi]
    rfl
  · rw [List.getElem?_eq_none (by rw [List.length_range]; omega)]
    rfl

theorem eq_of_padded {b b' : DataBuffer} (hlength : b.length = b'.length)
    (hpadded : b.padded = b'.padded) : b = b' := by
  refine List.ext_getElem hlength fun i hi hi' => ?_
  rw [← List.getD_eq_getElem b 0 hi, ← List.getD_eq_getElem b' 0 hi']
  exact congrFun hpadded i

variable (cpu : Cpu) (m : Mem) {vz vx bytes total : Nat}

theorem bufferAt_gf256_muladd_mem (y : BitVec 8) (hx : Apart vx vz bytes) (htotal : bytes ≤ total) :
    bufferAt (gf256_muladd_mem cpu vz y vx bytes m) vz total =
      (bufferAt m vz total).mulAddMem ⟨y⟩ (bufferAt m vx bytes) := by
  apply eq_of_padded (by simp)
  rw [DataBuffer.padded_mulAddMem _ (by simpa using htotal), gf256_muladd_mem_eq cpu y hx]
  funext i
  simp only [Pi.add_apply, Pi.smul_apply, padded_bufferAt, replaced_range]
  by_cases hin : i < bytes
  · have hmul : (⟨gf256_mul (m (vx + i)) y⟩ : GF256) = ⟨y⟩ * ⟨m (vx + i)⟩ := by
      rw [gf256_mul_eq, mul_comm]
    rw [if_pos (hin.trans_le htotal), if_pos hin, if_pos (hin.trans_le htotal), if_pos (by omega),
      Nat.add_sub_cancel_left, smul_eq_mul, ← hmul]
    rfl
  · have houtside : ¬(vz ≤ vz + i ∧ vz + i < vz + bytes) := by omega
    rw [if_neg hin, if_neg houtside, smul_zero, add_zero]

theorem bufferAt_gf256_add_mem (hx : Apart vx vz bytes) (htotal : bytes ≤ total) :
    bufferAt (gf256_add_mem cpu vz vx bytes m) vz total =
      (bufferAt m vz total).addMem (bufferAt m vx bytes) := by
  rw [← DataBuffer.mulAddMem_one]
  exact bufferAt_gf256_muladd_mem cpu m 1 hx htotal

end Buffer

end Tonk.Gf256
