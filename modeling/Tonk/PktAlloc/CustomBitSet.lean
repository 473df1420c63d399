import Mathlib.Tactic
import Mathlib.Algebra.BigOperators.Intervals
import Tonk.Lib.Search

set_option autoImplicit false

namespace Tonk.PktAlloc
open Search

abbrev WordT := BitVec 64

abbrev kWordBits : Nat := 64

def kAllOnes : WordT := BitVec.allOnes 64

def popCount64 (x : WordT) : Nat := x.cpop.toNat

def trailingZeros64 (x : WordT) : Nat := x.ctz.toNat

structure CustomBitSet (kValidBits : Nat) where
  words : Nat → WordT

namespace CustomBitSet

variable {kValidBits : Nat}

def kWords (kValidBits : Nat) : Nat := (kValidBits + kWordBits - 1) / kWordBits

def clearAll : CustomBitSet kValidBits := ⟨fun _ => 0⟩

def check (s : CustomBitSet kValidBits) (bit : Nat) : Bool :=
  let word := bit / kWordBits
  let mask := (1 : WordT) <<< (bit % kWordBits)
  0 != (s.words word &&& mask)

def setWord (s : CustomBitSet kValidBits) (i : Nat) (word : WordT) : CustomBitSet kValidBits :=
  ⟨Function.update s.words i word⟩

def set (s : CustomBitSet kValidBits) (bit : Nat) : CustomBitSet kValidBits :=
  let word := bit / kWordBits
  let mask := (1 : WordT) <<< (bit % kWordBits)
  s.setWord word (s.words word ||| mask)

def fillWords (s : CustomBitSet kValidBits) (word : WordT) (i : Nat) : Nat → CustomBitSet kValidBits
  | 0 => s
  | count + 1 => (s.setWord i word).fillWords word (i + 1) count

def editRange (edit : WordT → WordT → WordT) (whole : WordT) (s : CustomBitSet kValidBits)
    (bitStart bitEnd : Nat) : CustomBitSet kValidBits :=
  if bitEnd ≤ bitStart then s
  else
    let wordStart := bitStart / kWordBits
    let wordEnd := bitEnd / kWordBits
    let start := bitStart % kWordBits
    if wordEnd = wordStart then
      let mask := (1 : WordT) <<< (bitEnd % kWordBits - start) - 1
      s.setWord wordStart (edit (s.words wordStart) (mask <<< start))
    else
      let s := s.setWord wordStart (edit (s.words wordStart) (kAllOnes <<< start))
      let s := s.fillWords whole (wordStart + 1) (wordEnd - (wordStart + 1))
      let lastWordBits := bitEnd - wordEnd * kWordBits
      if 0 < lastWordBits then
        let mask := (1 : WordT) <<< lastWordBits - 1
        s.setWord wordEnd (edit (s.words wordEnd) mask)
      else s

def setRange (s : CustomBitSet kValidBits) (bitStart bitEnd : Nat) : CustomBitSet kValidBits :=
  s.editRange (fun word mask => word ||| mask) kAllOnes bitStart bitEnd

def clearRange (s : CustomBitSet kValidBits) (bitStart bitEnd : Nat) : CustomBitSet kValidBits :=
  s.editRange (fun word mask => word &&& ~~~mask) 0 bitStart bitEnd

def scanWords (word : Nat → WordT) (i : Nat) : Nat → Option Nat
  | 0 => none
  | count + 1 =>
    if word i ≠ 0 then some (i * kWordBits + trailingZeros64 (word i))
    else scanWords word (i + 1) count

def scanFrom (word : Nat → WordT) (bitStart wordEnd : Nat) : Option Nat :=
  let wordStart := bitStart / kWordBits
  let first := word wordStart >>> (bitStart % kWordBits)
  if first ≠ 0 then
    let offset := if first &&& 1 = 0 then trailingZeros64 first else 0
    some (bitStart + offset)
  else scanWords word (wordStart + 1) (wordEnd - (wordStart + 1))

def findFirstClear (s : CustomBitSet kValidBits) (bitStart : Nat) : Nat :=
  (scanFrom (fun i => ~~~s.words i) bitStart (kWords kValidBits)).getD kValidBits

def findFirstSet (s : CustomBitSet kValidBits) (bitStart bitEnd : Nat) : Nat :=
  (scanFrom s.words bitStart ((bitEnd + kWordBits - 1) / kWordBits)).getD bitEnd

def popcountWords (s : CustomBitSet kValidBits) (i : Nat) : Nat → Nat
  | 0 => 0
  | count + 1 => popCount64 (s.words i) + s.popcountWords (i + 1) count

def rangePopcount (s : CustomBitSet kValidBits) (bitStart bitEnd : Nat) : Nat :=
  if bitEnd ≤ bitStart then 0
  else
    let wordIndex := bitStart / kWordBits
    let wordEnd := bitEnd / kWordBits
    let word := s.words wordIndex >>> (bitStart % kWordBits)
    if wordEnd = wordIndex then popCount64 (word <<< (kWordBits - (bitEnd - bitStart)))
    else
      let count := popCount64 word + s.popcountWords (wordIndex + 1) (wordEnd - (wordIndex + 1))
      let lastWordBits := bitEnd - wordEnd * kWordBits
      if 0 < lastWordBits then
        count + popCount64 (s.words wordEnd <<< (kWordBits - lastWordBits))
      else count

end CustomBitSet

theorem getLsbD_shiftLeft_sub_one {n i : Nat} (hn : n < 64) :
    ((1 : WordT) <<< n - 1).getLsbD i = decide (i < n) := by
  have hpow : 2 ^ n < 2 ^ 64 := Nat.pow_lt_pow_right (by decide) hn
  have hpos : 0 < 2 ^ n := Nat.two_pow_pos n
  have htoNat : ((1 : WordT) <<< n - 1).toNat = 2 ^ n - 1 := by
    rw [BitVec.toNat_sub, BitVec.toNat_shiftLeft]
    simp only [BitVec.reduceToNat, Nat.shiftLeft_eq, one_mul, Nat.mod_eq_of_lt hpow]
    omega
  rw [← BitVec.testBit_toNat, htoNat, Nat.testBit_two_pow_sub_one]

theorem popCount64_eq (x : WordT) : popCount64 x = ∑ i ∈ Finset.range 64, (x.getLsbD i).toNat := by
  have hrec (n : Nat) : x.cpopNatRec n 0 = ∑ i ∈ Finset.range n, (x.getLsbD i).toNat := by
    induction n with
    | zero => rfl
    | succ n ih =>
      rw [BitVec.cpopNatRec_succ, BitVec.cpopNatRec_eq, ih, Finset.sum_range_succ, Nat.zero_add]
  have hle : x.cpopNatRec 64 0 ≤ 0 + 64 := BitVec.cpopNatRec_le 64
  rw [popCount64, BitVec.cpop, BitVec.toNat_ofNat, Nat.mod_eq_of_lt (by omega), hrec]

namespace CustomBitSet

variable {kValidBits : Nat}

@[simp] theorem words_setWord (s : CustomBitSet kValidBits) (i j : Nat) (word : WordT) :
    (s.setWord i word).words j = if j = i then word else s.words j := by
  simp [setWord, Function.update_apply]

theorem check_eq (s : CustomBitSet kValidBits) (bit : Nat) :
    s.check bit = (s.words (bit / 64)).getLsbD (bit % 64) := by
  have hlt : bit % 64 < 64 := Nat.mod_lt _ (by decide)
  have hmask : s.words (bit / 64) &&& (1 : WordT) <<< (bit % 64) =
      if (s.words (bit / 64)).getLsbD (bit % 64) then (1 : WordT) <<< (bit % 64) else 0 := by
    apply BitVec.eq_of_getLsbD_eq
    intro i hi
    by_cases hbit : i = bit % 64
    · subst hbit
      split <;> simp_all
    · split <;> simp_all <;> omega
  have hne : (0 != (1 : WordT) <<< (bit % 64)) = true := by
    rw [bne_iff_ne]
    intro h
    have := congrArg (fun w => w.getLsbD (bit % 64)) h
    simp [hlt] at this
  simp only [check, kWordBits, hmask]
  cases (s.words (bit / 64)).getLsbD (bit % 64)
  · rfl
  · exact hne

theorem check_set (s : CustomBitSet kValidBits) (bit j : Nat) :
    (s.set bit).check j = if j = bit then true else s.check j := by
  have hj : j % 64 < 64 := Nat.mod_lt _ (by decide)
  rw [check_eq, check_eq, set, words_setWord]
  simp only [kWordBits]
  by_cases hword : j / 64 = bit / 64
  · rw [if_pos hword, BitVec.getLsbD_or, hword, BitVec.getLsbD_shiftLeft]
    by_cases hbit : j = bit
    · subst hbit
      simp [hj]
    · have hmod : j % 64 ≠ bit % 64 := by omega
      rw [if_neg hbit]
      by_cases hlt : j % 64 < bit % 64
      · simp [hlt]
      · have hone : (1 : WordT).getLsbD (j % 64 - bit % 64) = false := by
          have hne : j % 64 - bit % 64 ≠ 0 := by omega
          simp [hne]
        rw [hone]
        simp
  · rw [if_neg hword, if_neg (by rintro rfl; exact hword rfl)]

theorem words_fillWords (s : CustomBitSet kValidBits) (word : WordT) (i count j : Nat) :
    (s.fillWords word i count).words j =
      if i ≤ j ∧ j < i + count then word else s.words j := by
  induction count generalizing s i with
  | zero =>
    rw [if_neg (by omega)]
    rfl
  | succ count ih =>
    rw [fillWords, ih, words_setWord]
    split_ifs <;> first | rfl | omega

@[simp] theorem check_clearAll (bit : Nat) :
    (clearAll : CustomBitSet kValidBits).check bit = false := by
  simp [check_eq, clearAll]

section Edit

variable {edit : WordT → WordT → WordT} {whole : WordT} {b : Bool}

theorem check_setWord_edit (hedit : ∀ word mask i, i < 64 →
      (edit word mask).getLsbD i = if mask.getLsbD i then b else word.getLsbD i)
    (s : CustomBitSet kValidBits) (i j : Nat) {mask : WordT} {first last : Nat} (hlast : last ≤ 64)
    (hmask : ∀ k, k < 64 → mask.getLsbD k = decide (first ≤ k ∧ k < last)) :
    (s.setWord i (edit (s.words i) mask)).check j =
      if i * 64 + first ≤ j ∧ j < i * 64 + last then b else s.check j := by
  have hj : j % 64 < 64 := Nat.mod_lt _ (by decide)
  rw [check_eq, check_eq, words_setWord]
  by_cases hword : j / 64 = i
  · rw [if_pos hword, hedit _ _ _ hj, hmask _ hj, hword]
    split_ifs <;> simp_all <;> omega
  · rw [if_neg hword, if_neg (by omega)]

theorem check_fillWords (hwhole : ∀ i, i < 64 → whole.getLsbD i = b) (s : CustomBitSet kValidBits)
    (i count j : Nat) : (s.fillWords whole i count).check j =
      if i * 64 ≤ j ∧ j < (i + count) * 64 then b else s.check j := by
  rw [check_eq, check_eq, words_fillWords]
  by_cases hword : i ≤ j / 64 ∧ j / 64 < i + count
  · rw [if_pos hword, if_pos (by omega), hwhole _ (Nat.mod_lt _ (by decide))]
  · rw [if_neg hword, if_neg (by omega)]

theorem check_editRange (hedit : ∀ word mask i, i < 64 →
      (edit word mask).getLsbD i = if mask.getLsbD i then b else word.getLsbD i)
    (hwhole : ∀ i, i < 64 → whole.getLsbD i = b)
    (s : CustomBitSet kValidBits) (bitStart bitEnd j : Nat) :
    (s.editRange edit whole bitStart bitEnd).check j =
      if bitStart ≤ j ∧ j < bitEnd then b else s.check j := by
  have hallOnes (k : Nat) (hk : k < 64) :
      (kAllOnes <<< (bitStart % 64)).getLsbD k = decide (bitStart % 64 ≤ k ∧ k < 64) := by
    simp only [kAllOnes, BitVec.getLsbD_shiftLeft, BitVec.getLsbD_allOnes]
    rw [Bool.eq_iff_iff]
    simp only [Bool.and_eq_true, Bool.not_eq_true', decide_eq_true_eq, decide_eq_false_iff_not]
    omega
  have hlow (n : Nat) (hn : n < 64) (k : Nat) (hk : k < 64) :
      ((1 : WordT) <<< n - 1).getLsbD k = decide (0 ≤ k ∧ k < n) := by
    rw [getLsbD_shiftLeft_sub_one hn]
    simp
  have hlast : bitEnd - bitEnd / 64 * 64 < 64 := by omega
  unfold editRange
  by_cases hempty : bitEnd ≤ bitStart
  · rw [if_pos hempty, if_neg (by omega)]
  simp only [if_neg hempty, kWordBits]
  by_cases hsame : bitEnd / 64 = bitStart / 64
  · have hmask (k : Nat) (hk : k < 64) :
        (((1 : WordT) <<< (bitEnd % 64 - bitStart % 64) - 1) <<< (bitStart % 64)).getLsbD k =
          decide (bitStart % 64 ≤ k ∧ k < bitEnd % 64) := by
      rw [BitVec.getLsbD_shiftLeft, getLsbD_shiftLeft_sub_one (by omega), Bool.eq_iff_iff]
      simp only [Bool.and_eq_true, Bool.not_eq_true', decide_eq_true_eq, decide_eq_false_iff_not]
      omega
    rw [if_pos hsame, check_setWord_edit hedit _ _ _ (by omega) hmask]
    congr 1
    simp only [eq_iff_iff]
    omega
  rw [if_neg hsame]
  by_cases hlastWord : 0 < bitEnd - bitEnd / 64 * 64
  · rw [if_pos hlastWord, check_setWord_edit hedit _ _ _ hlast.le (hlow _ hlast),
      check_fillWords hwhole, check_setWord_edit hedit _ _ _ le_rfl hallOnes]
    split_ifs <;> first | rfl | omega
  · rw [if_neg hlastWord, check_fillWords hwhole, check_setWord_edit hedit _ _ _ le_rfl hallOnes]
    split_ifs <;> first | rfl | omega

end Edit

theorem check_setRange (s : CustomBitSet kValidBits) (bitStart bitEnd j : Nat) :
    (s.setRange bitStart bitEnd).check j =
      if bitStart ≤ j ∧ j < bitEnd then true else s.check j :=
  check_editRange (fun word mask i _ => by
      rw [BitVec.getLsbD_or]
      cases mask.getLsbD i <;> simp)
    (fun i hi => by
      rw [kAllOnes, BitVec.getLsbD_allOnes]
      exact decide_eq_true hi)
    s bitStart bitEnd j

theorem check_clearRange (s : CustomBitSet kValidBits) (bitStart bitEnd j : Nat) :
    (s.clearRange bitStart bitEnd).check j =
      if bitStart ≤ j ∧ j < bitEnd then false else s.check j :=
  check_editRange (fun word mask i hi => by
      rw [BitVec.getLsbD_and, BitVec.getLsbD_not]
      cases mask.getLsbD i <;> simp [hi])
    (fun i _ => by simp) s bitStart bitEnd j

def wordBit (word : Nat → WordT) (j : Nat) : Bool := (word (j / 64)).getLsbD (j % 64)

theorem wordBit_words (s : CustomBitSet kValidBits) (j : Nat) : wordBit s.words j = s.check j :=
  (check_eq s j).symm

theorem wordBit_not_words (s : CustomBitSet kValidBits) (j : Nat) :
    wordBit (fun i => ~~~s.words i) j = !s.check j := by
  rw [check_eq, wordBit, BitVec.getLsbD_not]
  simp [Nat.mod_lt j (by decide : 0 < 64)]

theorem trailingZeros64_lt {x : WordT} (hx : x ≠ 0) : trailingZeros64 x < 64 := by
  simpa [BitVec.lt_def, trailingZeros64] using BitVec.ctz_lt_iff_ne_zero.2 hx

def Scanned (word : Nat → WordT) (bitStart last : Nat) : Option Nat → Prop
  | some k => bitStart ≤ k ∧ wordBit word k = true ∧ ∀ j, bitStart ≤ j → j < k → wordBit word j = false
  | none => ∀ j, bitStart ≤ j → j < last → wordBit word j = false

theorem scanWords_scanned (word : Nat → WordT) (i count : Nat) :
    Scanned word (i * 64) ((i + count) * 64) (scanWords word i count) := by
  induction count generalizing i with
  | zero =>
    intro j hle hlt
    omega
  | succ count ih =>
    rw [scanWords]
    by_cases hne : word i ≠ 0
    · have hlt := trailingZeros64_lt hne
      rw [if_pos hne]
      refine ⟨by simp, ?_, fun j hle hj => ?_⟩
      · rw [wordBit, show (i * kWordBits + trailingZeros64 (word i)) / 64 = i by simp only [kWordBits]; omega,
          show (i * kWordBits + trailingZeros64 (word i)) % 64 = trailingZeros64 (word i) by
            simp only [kWordBits]; omega]
        exact BitVec.getLsbD_true_ctz_of_ne_zero hne
      · simp only [kWordBits] at hj
        rw [wordBit, show j / 64 = i by omega]
        exact BitVec.getLsbD_false_of_lt_ctz (show j % 64 < trailingZeros64 (word i) by omega)
    · have hzero (j : Nat) (hj : j / 64 = i) : wordBit word j = false := by
        rw [wordBit, hj, not_not.1 hne]
        simp
      have hrest := ih (i + 1)
      rw [if_neg hne]
      cases hscan : scanWords word (i + 1) count with
      | none =>
        intro j hle hlt
        rw [hscan] at hrest
        by_cases hj : j / 64 = i
        · exact hzero j hj
        · exact hrest j (by omega) (by omega)
      | some k =>
        rw [hscan] at hrest
        refine ⟨by have := hrest.1; omega, hrest.2.1, fun j hle hlt => ?_⟩
        by_cases hj : j / 64 = i
        · exact hzero j hj
        · exact hrest.2.2 j (by omega) hlt

theorem offset_eq (x : WordT) : (if x &&& 1 = 0 then trailingZeros64 x else 0) = trailingZeros64 x := by
  by_cases hlow : x &&& 1 = 0
  · rw [if_pos hlow]
  · rw [if_neg hlow]
    by_contra hne
    have hbit : x.getLsbD 0 = false :=
      BitVec.getLsbD_false_of_lt_ctz (Nat.pos_of_ne_zero (Ne.symm hne))
    apply hlow
    apply BitVec.eq_of_getLsbD_eq
    intro i _
    rcases i with _ | i
    · rw [BitVec.getLsbD_and, hbit]
      simp
    · simp

theorem scanFrom_scanned (word : Nat → WordT) (bitStart wordEnd : Nat) :
    Scanned word bitStart (max wordEnd (bitStart / 64 + 1) * 64) (scanFrom word bitStart wordEnd) := by
  have hshift (j : Nat) (hle : bitStart ≤ j) (hj : j / 64 = bitStart / 64) :
      wordBit word j = (word (bitStart / 64) >>> (bitStart % 64)).getLsbD (j - bitStart) := by
    rw [BitVec.getLsbD_ushiftRight, wordBit, hj,
      show bitStart % 64 + (j - bitStart) = j % 64 by omega]
  simp only [scanFrom, kWordBits, offset_eq]
  by_cases hne : word (bitStart / 64) >>> (bitStart % 64) ≠ 0
  · have hset := BitVec.getLsbD_true_ctz_of_ne_zero hne
    have hin : bitStart % 64 + trailingZeros64 (word (bitStart / 64) >>> (bitStart % 64)) < 64 := by
      rw [BitVec.getLsbD_ushiftRight] at hset
      exact BitVec.lt_of_getLsbD hset
    rw [if_pos hne]
    refine ⟨by omega, ?_, fun j hle hlt => ?_⟩
    · rw [hshift _ (by omega) (by omega), Nat.add_sub_cancel_left]
      exact hset
    · rw [hshift j hle (by omega)]
      exact BitVec.getLsbD_false_of_lt_ctz (by simp only [trailingZeros64] at hlt; omega)
  · have hfirst (j : Nat) (hle : bitStart ≤ j) (hj : j / 64 = bitStart / 64) :
        wordBit word j = false := by
      rw [hshift j hle hj, not_not.1 hne]
      simp
    have hrest := scanWords_scanned word (bitStart / 64 + 1) (wordEnd - (bitStart / 64 + 1))
    rw [if_neg hne]
    cases hscan : scanWords word (bitStart / 64 + 1) (wordEnd - (bitStart / 64 + 1)) with
    | none =>
      intro j hle hlt
      rw [hscan] at hrest
      by_cases hj : j / 64 = bitStart / 64
      · exact hfirst j hle hj
      · exact hrest j (by omega) (by omega)
    | some k =>
      rw [hscan] at hrest
      refine ⟨by have := hrest.1; omega, hrest.2.1, fun j hle hlt => ?_⟩
      by_cases hj : j / 64 = bitStart / 64
      · exact hfirst j hle hj
      · exact hrest.2.2 j (by omega) hlt

theorem findFirstClear_spec (s : CustomBitSet kValidBits) {bitStart : Nat}
    (hlt : bitStart < kValidBits) :
    bitStart ≤ s.findFirstClear bitStart ∧
      (∀ j, bitStart ≤ j → j < s.findFirstClear bitStart → s.check j = true) ∧
      (s.findFirstClear bitStart < kValidBits → s.check (s.findFirstClear bitStart) = false) := by
  have hscanned := scanFrom_scanned (fun i => ~~~s.words i) bitStart (kWords kValidBits)
  unfold findFirstClear
  cases hscan : scanFrom (fun i => ~~~s.words i) bitStart (kWords kValidBits) with
  | none =>
    rw [hscan] at hscanned
    refine ⟨hlt.le, fun j hle hj => ?_, fun h => absurd h (lt_irrefl _)⟩
    have hclear := hscanned j hle (by simp only [kWords, kWordBits]; simp at hj; omega)
    simpa [wordBit_not_words] using hclear
  | some k =>
    rw [hscan] at hscanned
    refine ⟨hscanned.1, fun j hle hj => ?_, fun _ => ?_⟩
    · simpa [wordBit_not_words] using hscanned.2.2 j hle hj
    · simpa [wordBit_not_words] using hscanned.2.1

theorem findFirstSet_spec (s : CustomBitSet kValidBits) {bitStart bitEnd : Nat}
    (hle : bitStart ≤ bitEnd) :
    bitStart ≤ s.findFirstSet bitStart bitEnd ∧
      (∀ j, bitStart ≤ j → j < s.findFirstSet bitStart bitEnd → s.check j = false) ∧
      (s.findFirstSet bitStart bitEnd < bitEnd → s.check (s.findFirstSet bitStart bitEnd) = true) := by
  have hscanned := scanFrom_scanned s.words bitStart ((bitEnd + kWordBits - 1) / kWordBits)
  unfold findFirstSet
  cases hscan : scanFrom s.words bitStart ((bitEnd + kWordBits - 1) / kWordBits) with
  | none =>
    rw [hscan] at hscanned
    refine ⟨hle, fun j hj hlt => ?_, fun h => absurd h (lt_irrefl _)⟩
    rw [← wordBit_words]
    exact hscanned j hj (by simp only [kWordBits]; simp at hlt; omega)
  | some k =>
    rw [hscan] at hscanned
    simp only [← wordBit_words]
    exact ⟨hscanned.1, hscanned.2.2, fun _ => hscanned.2.1⟩

def bits (s : CustomBitSet kValidBits) (bitStart bitEnd : Nat) : Finset Nat :=
  (Finset.Ico bitStart bitEnd).filter fun j => s.check j = true

theorem card_bits (s : CustomBitSet kValidBits) (bitStart bitEnd : Nat) :
    (s.bits bitStart bitEnd).card = ∑ j ∈ Finset.Ico bitStart bitEnd, (s.check j).toNat := by
  rw [bits, Finset.card_filter]
  refine Finset.sum_congr rfl fun j _ => ?_
  cases s.check j <;> rfl

theorem card_bits_eq_countP (s : CustomBitSet kValidBits) (bitStart bitEnd : Nat) :
    (s.bits bitStart bitEnd).card = (List.range' bitStart (bitEnd - bitStart)).countP s.check := by
  have hlist : s.bits bitStart bitEnd =
      ((List.range' bitStart (bitEnd - bitStart)).filter s.check).toFinset := by
    ext j
    simp only [bits, Finset.mem_filter, Finset.mem_Ico, List.mem_toFinset, List.mem_filter,
      List.mem_range'_1]
    refine and_congr_left fun _ => ?_
    omega
  rw [hlist, List.toFinset_card_of_nodup ((List.nodup_range' ..).filter _),
    List.countP_eq_length_filter]

theorem popCount64_shiftRight (x : WordT) {first : Nat} (hle : first ≤ 64) :
    popCount64 (x >>> first) = ∑ k ∈ Finset.Ico first 64, (x.getLsbD k).toNat := by
  have hzero : ∑ k ∈ Finset.Ico (64 - first) 64, (x.getLsbD (first + k)).toNat = 0 := by
    refine Finset.sum_eq_zero fun k hk => ?_
    rw [Finset.mem_Ico] at hk
    rw [BitVec.getLsbD_of_ge x _ (by omega)]
    rfl
  rw [popCount64_eq]
  simp only [BitVec.getLsbD_ushiftRight]
  rw [Finset.range_eq_Ico, ← Finset.sum_Ico_consecutive _ (Nat.zero_le (64 - first)) (by omega),
    hzero, Nat.add_zero, Finset.sum_Ico_eq_sum_range, Finset.sum_Ico_eq_sum_range]
  simp

theorem popCount64_shiftLeft (x : WordT) {first count : Nat} (hle : first + count ≤ 64) :
    popCount64 ((x >>> first) <<< (64 - count)) =
      ∑ k ∈ Finset.Ico first (first + count), (x.getLsbD k).toNat := by
  have hzero : ∑ k ∈ Finset.Ico 0 (64 - count),
      (((x >>> first) <<< (64 - count)).getLsbD k).toNat = 0 := by
    refine Finset.sum_eq_zero fun k hk => ?_
    rw [Finset.mem_Ico] at hk
    rw [BitVec.getLsbD_shiftLeft, decide_eq_true hk.2]
    simp
  rw [popCount64_eq, Finset.range_eq_Ico,
    ← Finset.sum_Ico_consecutive _ (Nat.zero_le (64 - count)) (by omega), hzero, Nat.zero_add,
    Finset.sum_Ico_eq_sum_range, Finset.sum_Ico_eq_sum_range]
  rw [show 64 - (64 - count) = first + count - first by omega]
  refine Finset.sum_congr rfl fun k hk => ?_
  rw [Finset.mem_range] at hk
  rw [BitVec.getLsbD_shiftLeft, BitVec.getLsbD_ushiftRight, Nat.add_sub_cancel_left]
  simp [show 64 - count + k < 64 by omega]

theorem sum_check_word (s : CustomBitSet kValidBits) (i first last : Nat) (hlast : last ≤ 64) :
    ∑ j ∈ Finset.Ico (i * 64 + first) (i * 64 + last), (s.check j).toNat =
      ∑ k ∈ Finset.Ico first last, ((s.words i).getLsbD k).toNat := by
  rw [Finset.sum_Ico_eq_sum_range, Finset.sum_Ico_eq_sum_range,
    show i * 64 + last - (i * 64 + first) = last - first by omega]
  refine Finset.sum_congr rfl fun k hk => ?_
  rw [Finset.mem_range] at hk
  rw [check_eq, show (i * 64 + first + k) / 64 = i by omega,
    show (i * 64 + first + k) % 64 = first + k by omega]

theorem popcountWords_eq (s : CustomBitSet kValidBits) (i count : Nat) :
    s.popcountWords i count = ∑ j ∈ Finset.Ico (i * 64) ((i + count) * 64), (s.check j).toNat := by
  induction count generalizing i with
  | zero => simp [popcountWords]
  | succ count ih =>
    have hword := s.sum_check_word i 0 64 le_rfl
    rw [Nat.add_zero] at hword
    rw [popcountWords, ih, popCount64_eq, Finset.range_eq_Ico, ← hword,
      show (i + 1) * 64 = i * 64 + 64 by omega, show (i + (count + 1)) * 64 = (i + 1 + count) * 64 by
        omega]
    exact Finset.sum_Ico_consecutive _ (by omega) (by omega)

theorem rangePopcount_eq (s : CustomBitSet kValidBits) (bitStart bitEnd : Nat) :
    s.rangePopcount bitStart bitEnd = (s.bits bitStart bitEnd).card := by
  have hstart : bitStart / 64 * 64 + bitStart % 64 = bitStart := by omega
  rw [card_bits]
  unfold rangePopcount
  by_cases hempty : bitEnd ≤ bitStart
  · rw [if_pos hempty, Finset.Ico_eq_empty (by omega), Finset.sum_empty]
  simp only [if_neg hempty, kWordBits]
  by_cases hsame : bitEnd / 64 = bitStart / 64
  · have hword := s.sum_check_word (bitStart / 64) (bitStart % 64)
      (bitStart % 64 + (bitEnd - bitStart)) (by omega)
    rw [if_pos hsame, popCount64_shiftLeft _ (by omega), ← hword, hstart,
      show bitStart / 64 * 64 + (bitStart % 64 + (bitEnd - bitStart)) = bitEnd by omega]
  have hfirst : popCount64 (s.words (bitStart / 64) >>> (bitStart % 64)) +
      s.popcountWords (bitStart / 64 + 1) (bitEnd / 64 - (bitStart / 64 + 1)) =
        ∑ j ∈ Finset.Ico bitStart (bitEnd / 64 * 64), (s.check j).toNat := by
    have hword := s.sum_check_word (bitStart / 64) (bitStart % 64) 64 le_rfl
    rw [popCount64_shiftRight _ (by omega), ← hword, hstart, popcountWords_eq,
      show bitStart / 64 * 64 + 64 = (bitStart / 64 + 1) * 64 by omega,
      show (bitStart / 64 + 1 + (bitEnd / 64 - (bitStart / 64 + 1))) * 64 = bitEnd / 64 * 64 by omega]
    exact Finset.sum_Ico_consecutive _ (by omega) (by omega)
  have hlast := s.sum_check_word (bitEnd / 64) 0 (bitEnd - bitEnd / 64 * 64) (by omega)
  rw [Nat.add_zero, show bitEnd / 64 * 64 + (bitEnd - bitEnd / 64 * 64) = bitEnd by omega] at hlast
  rw [if_neg hsame, hfirst]
  by_cases hlastWord : 0 < bitEnd - bitEnd / 64 * 64
  · have hshift := popCount64_shiftLeft (s.words (bitEnd / 64))
      (show 0 + (bitEnd - bitEnd / 64 * 64) ≤ 64 by omega)
    rw [BitVec.ushiftRight_zero, Nat.zero_add] at hshift
    rw [if_pos hlastWord, hshift, ← hlast]
    exact Finset.sum_Ico_consecutive _ (by omega) (by omega)
  · rw [if_neg hlastWord, show bitEnd / 64 * 64 = bitEnd by omega]

/-! The edges of the scans, and what all operations come to on a set whose unused bits are clear. -/

theorem scanWords_lt {word : Nat → WordT} {i count k : Nat} (h : scanWords word i count = some k) :
    k < (i + count) * 64 := by
  induction count generalizing i with
  | zero => exact absurd h (by simp [scanWords])
  | succ count ih =>
    rw [scanWords] at h
    by_cases hne : word i ≠ 0
    · have hlt := trailingZeros64_lt hne
      rw [if_pos hne] at h
      cases h
      simp only [kWordBits]
      omega
    · rw [if_neg hne] at h
      have := ih h
      omega

theorem scanFrom_lt {word : Nat → WordT} {bitStart wordEnd k : Nat}
    (h : scanFrom word bitStart wordEnd = some k) : k < max wordEnd (bitStart / 64 + 1) * 64 := by
  simp only [scanFrom, kWordBits, offset_eq] at h
  by_cases hne : word (bitStart / 64) >>> (bitStart % 64) ≠ 0
  · have hset := BitVec.getLsbD_true_ctz_of_ne_zero hne
    rw [BitVec.getLsbD_ushiftRight] at hset
    have hin := BitVec.lt_of_getLsbD hset
    rw [if_pos hne] at h
    cases h
    simp only [trailingZeros64]
    omega
  · rw [if_neg hne] at h
    have := scanWords_lt h
    omega

def UnusedClear (s : CustomBitSet kValidBits) : Prop :=
  ∀ j, kValidBits ≤ j → j < kWords kValidBits * kWordBits → s.check j = false

section Unused

variable {s : CustomBitSet kValidBits} {bitStart bitEnd : Nat}

theorem lt_kWords (hstart : bitStart < kValidBits) : bitStart / 64 + 1 ≤ kWords kValidBits := by
  simp only [kWords, kWordBits]
  omega

theorem UnusedClear.setRange (h : s.UnusedClear) (hend : bitEnd ≤ kValidBits) :
    (s.setRange bitStart bitEnd).UnusedClear := by
  intro j hj hlt
  rw [check_setRange, if_neg (by omega)]
  exact h j hj hlt

theorem UnusedClear.clearRange (h : s.UnusedClear) : (s.clearRange bitStart bitEnd).UnusedClear := by
  intro j hj hlt
  rw [check_clearRange]
  split_ifs
  · rfl
  · exact h j hj hlt

theorem UnusedClear.findFirstClear_eq (h : s.UnusedClear) (hstart : bitStart < kValidBits) :
    s.findFirstClear bitStart = firstFrom (fun j => !s.check j) bitStart kValidBits := by
  obtain ⟨hge, hset, hclear⟩ := s.findFirstClear_spec hstart
  have hle : s.findFirstClear bitStart ≤ kValidBits := by
    by_contra hgt
    have hunused := hset kValidBits hstart.le (by omega)
    cases hscan : scanFrom (fun i => ~~~s.words i) bitStart (kWords kValidBits) with
    | none =>
      simp only [CustomBitSet.findFirstClear, hscan, Option.getD_none] at hgt
      omega
    | some k =>
      have hk := scanFrom_lt hscan
      have hwords := lt_kWords hstart
      rw [Nat.max_eq_left hwords] at hk
      simp only [CustomBitSet.findFirstClear, hscan, Option.getD_some] at hgt
      rw [h kValidBits le_rfl (by simp only [kWordBits]; omega)] at hunused
      exact absurd hunused (by decide)
  symm
  refine firstFrom_eq hge hle (fun j hj hlt => ?_) fun hlt => ?_
  · rw [hset j hj hlt]
    rfl
  · rw [hclear hlt]
    rfl

theorem findFirstSet_eq (hle : bitStart ≤ bitEnd)
    (hfound : firstFrom s.check bitStart bitEnd < bitEnd) :
    s.findFirstSet bitStart bitEnd = firstFrom s.check bitStart bitEnd := by
  obtain ⟨hge, hclear, hset⟩ := s.findFirstSet_spec hle
  have hfirst := firstFrom_passes hfound
  have hlt : s.findFirstSet bitStart bitEnd < bitEnd := by
    by_contra hbehind
    rw [hclear _ le_firstFrom (by omega)] at hfirst
    exact absurd hfirst (by decide)
  exact (firstFrom_eq hge hlt.le hclear fun _ => hset hlt).symm

theorem le_findFirstSet (hle : bitStart ≤ bitEnd)
    (hnone : firstFrom s.check bitStart bitEnd = bitEnd) : bitEnd ≤ s.findFirstSet bitStart bitEnd := by
  obtain ⟨hge, -, hset⟩ := s.findFirstSet_spec hle
  by_contra hlt
  have hbit := firstFrom_before hge (j := s.findFirstSet bitStart bitEnd)
    (by omega : _ < firstFrom s.check bitStart bitEnd)
  rw [hset (by omega)] at hbit
  exact absurd hbit (by decide)

theorem UnusedClear.findFirstSet_end (h : s.UnusedClear) (hstart : bitStart < kValidBits)
    (hnone : firstFrom s.check bitStart kValidBits = kValidBits) :
    s.findFirstSet bitStart kValidBits = kValidBits := by
  have hge := le_findFirstSet hstart.le hnone
  have hunfold : s.findFirstSet bitStart kValidBits =
      (scanFrom s.words bitStart (kWords kValidBits)).getD kValidBits := rfl
  rw [hunfold] at hge ⊢
  cases hscan : scanFrom s.words bitStart (kWords kValidBits) with
  | none => rfl
  | some k =>
    have hk := scanFrom_lt hscan
    have hscanned := scanFrom_scanned s.words bitStart (kWords kValidBits)
    rw [Nat.max_eq_left (lt_kWords hstart)] at hk
    rw [hscan] at hscanned
    rw [hscan, Option.getD_some] at hge
    have hset := hscanned.2.1
    rw [wordBit_words, h k hge hk] at hset
    exact absurd hset (by decide)

end Unused

theorem mem_bits (s : CustomBitSet kValidBits) (bitStart bitEnd j : Nat) :
    j ∈ s.bits bitStart bitEnd ↔ (bitStart ≤ j ∧ j < bitEnd) ∧ s.check j = true := by
  rw [bits, Finset.mem_filter, Finset.mem_Ico]

section Used

variable (s : CustomBitSet kValidBits) {bitStart bitEnd : Nat}

theorem bits_setRange (hle : bitEnd ≤ kValidBits) :
    (s.setRange bitStart bitEnd).bits 0 kValidBits =
      s.bits 0 kValidBits ∪ Finset.Ico bitStart bitEnd := by
  ext j
  simp only [mem_bits, check_setRange, Finset.mem_union, Finset.mem_Ico]
  split_ifs <;> grind

theorem bits_clearRange :
    (s.clearRange bitStart bitEnd).bits 0 kValidBits =
      s.bits 0 kValidBits \ Finset.Ico bitStart bitEnd := by
  ext j
  simp only [mem_bits, check_clearRange, Finset.mem_sdiff, Finset.mem_Ico]
  split_ifs <;> grind

theorem card_bits_setRange (hle : bitEnd ≤ kValidBits)
    (hclear : ∀ j, bitStart ≤ j → j < bitEnd → s.check j = false) :
    ((s.setRange bitStart bitEnd).bits 0 kValidBits).card =
      (s.bits 0 kValidBits).card + (bitEnd - bitStart) := by
  have hdisjoint : Disjoint (s.bits 0 kValidBits) (Finset.Ico bitStart bitEnd) := by
    rw [Finset.disjoint_left]
    intro j hj hin
    rw [Finset.mem_Ico] at hin
    rw [mem_bits, hclear j hin.1 hin.2] at hj
    exact absurd hj.2 (by decide)
  rw [bits_setRange s hle, Finset.card_union_of_disjoint hdisjoint, Nat.card_Ico]

theorem card_bits_clearRange (hle : bitEnd ≤ kValidBits)
    (hset : ∀ j, bitStart ≤ j → j < bitEnd → s.check j = true) :
    ((s.clearRange bitStart bitEnd).bits 0 kValidBits).card + (bitEnd - bitStart) =
      (s.bits 0 kValidBits).card := by
  have hsub : Finset.Ico bitStart bitEnd ⊆ s.bits 0 kValidBits := by
    intro j hj
    rw [Finset.mem_Ico] at hj
    rw [mem_bits]
    exact ⟨⟨Nat.zero_le _, by omega⟩, hset j hj.1 hj.2⟩
  rw [bits_clearRange, ← Nat.card_Ico]
  exact Finset.card_sdiff_add_card_eq_card hsub

end Used

/-- Every operation on a range, at its edges too. -/
theorem range_operations (s : CustomBitSet kValidBits) (hunused : s.UnusedClear)
    {bitStart bitEnd : Nat} (hstart : bitStart < kValidBits) (hle : bitStart ≤ bitEnd)
    (hend : bitEnd ≤ kValidBits) :
    ((∀ j, (s.setRange bitStart bitEnd).check j =
        if bitStart ≤ j ∧ j < bitEnd then true else s.check j) ∧
      (s.setRange bitStart bitEnd).UnusedClear) ∧
    ((∀ j, (s.clearRange bitStart bitEnd).check j =
        if bitStart ≤ j ∧ j < bitEnd then false else s.check j) ∧
      (s.clearRange bitStart bitEnd).UnusedClear) ∧
    s.rangePopcount bitStart bitEnd = (s.bits bitStart bitEnd).card ∧
    s.findFirstClear bitStart = firstFrom (fun j => !s.check j) bitStart kValidBits ∧
    (bitStart < bitEnd →
      (firstFrom s.check bitStart bitEnd < bitEnd →
        s.findFirstSet bitStart bitEnd = firstFrom s.check bitStart bitEnd) ∧
      (firstFrom s.check bitStart bitEnd = bitEnd →
        bitEnd ≤ s.findFirstSet bitStart bitEnd ∧
        (bitEnd = kValidBits → s.findFirstSet bitStart bitEnd = bitEnd))) := by
  refine ⟨⟨s.check_setRange bitStart bitEnd, hunused.setRange hend⟩,
    ⟨s.check_clearRange bitStart bitEnd, hunused.clearRange⟩, s.rangePopcount_eq bitStart bitEnd,
    hunused.findFirstClear_eq hstart, fun _ => ⟨findFirstSet_eq hle, fun hnone => ?_⟩⟩
  refine ⟨le_findFirstSet hle hnone, fun hlast => ?_⟩
  subst hlast
  exact hunused.findFirstSet_end hstart hnone

/-- 70 bits, of which those from 3 to 67 are set: a range over the edge of the words. -/
theorem range_operations_seventy :
    ((clearAll : CustomBitSet 70).setRange 3 68).UnusedClear ∧
      ((clearAll : CustomBitSet 70).setRange 3 68).rangePopcount 60 66 =
        (((clearAll : CustomBitSet 70).setRange 3 68).bits 60 66).card := by
  have hunused : ((clearAll : CustomBitSet 70).setRange 3 68).UnusedClear :=
    UnusedClear.setRange (fun j _ _ => check_clearAll j) (by decide)
  exact ⟨hunused, (range_operations _ hunused (by decide) (by decide) (by decide)).2.2.1⟩

end CustomBitSet

end Tonk.PktAlloc
