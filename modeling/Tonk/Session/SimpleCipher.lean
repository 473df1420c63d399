import Mathlib.Data.Nat.Bitwise
import Tonk.Lib.LittleEndian

/-!
`SimpleCipher`: the XOR cipher and the two tags of a datagram. The hash t1ha is a parameter.
-/

set_option autoImplicit false

namespace Tonk.Session
open LittleEndian

abbrev T1ha := List UInt8 → Nat → Nat

def multiplyAndFold19 (a b : Nat) : Nat :=
  let p := a * b
  (p % 2 ^ 32) ^^^ ((p >>> 19) % 2 ^ 32)

structure SimpleCipher where
  expandedKey0 : Nat
  expandedKey1 : Nat
  expandedKey2 : Nat
  expandedKey3 : Nat
  deriving DecidableEq, Repr

namespace SimpleCipher

def initializeKey (encryptionKey : Nat) : SimpleCipher :=
  let key0 := encryptionKey % 2 ^ 32
  let key1 := (encryptionKey >>> 32) % 2 ^ 32
  { expandedKey0 := key0
    expandedKey1 := key1
    expandedKey2 := multiplyAndFold19 0xe7988061 key0
    expandedKey3 := multiplyAndFold19 0xbd9fa5c7 key1 }

structure Words where
  w0 : Nat
  w1 : Nat
  w2 : Nat
  w3 : Nat
  deriving DecidableEq, Repr

def Words.turn (k : Words) (f : Nat → Nat) : Words := ⟨k.w1, k.w2, k.w3, f k.w0⟩

/-- The XOR loops, one word of data a turn. The loop over 16 bytes takes the same words of the key
in the same order. TailReadLE32 and TailWriteLE32 handle what is left below 4 bytes. -/
def xorWords (k a : Words) : List UInt8 → List UInt8
  | b0 :: b1 :: b2 :: b3 :: data =>
    let key := (k.w0 + a.w0) % 2 ^ 32
    bytes 4 (value [b0, b1, b2, b3] ^^^ key) ++ xorWords (k.turn fun _ => key) (a.turn id) data
  | [] => []
  | tail => bytes tail.length (value tail ^^^ ((k.w0 + a.w0) % 2 ^ 32))

def cipher (c : SimpleCipher) (data : List UInt8) (sequence : Nat) : List UInt8 :=
  if c.expandedKey0 = 0 ∧ c.expandedKey1 = 0 then data
  else
    let n0 := (sequence % 2 ^ 32 + 0x80771ab1) % 2 ^ 32
    let n1 := multiplyAndFold19 (((sequence >>> 32) % 2 ^ 32 + 0x55f2cc88) % 2 ^ 32) 0xf3f77d13
    let a : Words :=
      { w0 := (multiplyAndFold19 0x905c4577 n0 + n1) % 2 ^ 32
        w1 := (multiplyAndFold19 0xb84c88cb n0 + n1) % 2 ^ 32
        w2 := (multiplyAndFold19 0xde0efbf1 n0 + n1) % 2 ^ 32
        w3 := (multiplyAndFold19 0x9f614c3d n0 + n1) % 2 ^ 32 }
    xorWords ⟨c.expandedKey0, c.expandedKey1, c.expandedKey2, c.expandedKey3⟩ a data

def tag (t1ha : T1ha) (c : SimpleCipher) (data : List UInt8) (nonce : Nat) : Nat :=
  let key := (c.expandedKey1 <<< 32) ||| c.expandedKey0
  let tag64 := t1ha data (nonce ^^^ key) % 2 ^ 64
  (tag64 >>> 19) % 2 ^ 16

def rot64 (v s : Nat) : Nat := (v >>> s) ||| (v <<< (64 - s) % 2 ^ 64)

def tagInt (c : SimpleCipher) (data : Nat) : Nat :=
  let prod := c.expandedKey0 * (data ^^^ c.expandedKey1) % 2 ^ 64
  let tag64 := prod ^^^ rot64 prod 41
  (tag64 >>> 19) % 2 ^ 16

theorem tag_lt (t1ha : T1ha) (c : SimpleCipher) (data : List UInt8) (nonce : Nat) :
    c.tag t1ha data nonce < 2 ^ 16 := Nat.mod_lt _ (by decide)

theorem tagInt_lt (c : SimpleCipher) (data : Nat) : c.tagInt data < 2 ^ 16 :=
  Nat.mod_lt _ (by decide)

theorem tag_shiftLeft (c : SimpleCipher) {x : Nat} (hx : x < 2 ^ 16) (data : List UInt8)
    (nonce : Nat) : c.tag (fun _ _ => x <<< 19) data nonce = x := by
  simp only [tag, Nat.shiftLeft_eq x, Nat.shiftRight_eq_div_pow]
  omega

theorem bytes_xor_xor (bs : List UInt8) (key : Nat) :
    bytes bs.length (value (bytes bs.length (value bs ^^^ key)) ^^^ key) = bs := by
  have hpow : 256 ^ bs.length = 2 ^ (8 * bs.length) := by
    rw [pow_mul]
    rfl
  have hmod : (value (bytes bs.length (value bs ^^^ key)) ^^^ key) % 256 ^ bs.length = value bs := by
    have hlt := value_lt bs
    rw [value_bytes, hpow, Nat.xor_mod_two_pow, Nat.mod_mod, ← Nat.xor_mod_two_pow,
      Nat.xor_xor_cancel_right, ← hpow, Nat.mod_eq_of_lt hlt]
  rw [← bytes_mod, hmod, bytes_value]

theorem length_xorWords (k a : Words) (data : List UInt8) :
    (xorWords k a data).length = data.length := by
  fun_induction xorWords k a data with
  | case1 k a b0 b1 b2 b3 data key ih =>
    rw [List.length_append, length_bytes, ih]
    simp only [List.length_cons]
    omega
  | case2 => rfl
  | case3 => simp

theorem xorWords_xorWords (k a : Words) (data : List UInt8) :
    xorWords k a (xorWords k a data) = data := by
  fun_induction xorWords k a data with
  | case1 k a b0 b1 b2 b3 data key ih =>
    have hword := bytes_xor_xor [b0, b1, b2, b3] key
    have hlen := length_bytes 4 (value [b0, b1, b2, b3] ^^^ key)
    simp only [List.length_cons, List.length_nil, Nat.zero_add] at hword
    generalize hout : bytes 4 (value [b0, b1, b2, b3] ^^^ key) = out at hword hlen
    match out, hlen with
    | [c0, c1, c2, c3], _ =>
      simp only [List.cons_append, List.nil_append, xorWords]
      rw [ih, hword]
      rfl
  | case2 => rfl
  | case3 k a tail hword hnil =>
    have htail := bytes_xor_xor tail ((k.w0 + a.w0) % 2 ^ 32)
    match tail, hword, hnil with
    | [], _, hnil => exact absurd rfl hnil
    | [b0], _, _ => exact htail
    | [b0, b1], _, _ => exact htail
    | [b0, b1, b2], _, _ => exact htail
    | b0 :: b1 :: b2 :: b3 :: rest, hword, _ => exact absurd rfl (hword b0 b1 b2 b3 rest)

theorem length_cipher (c : SimpleCipher) (data : List UInt8) (sequence : Nat) :
    (c.cipher data sequence).length = data.length := by
  unfold cipher
  split
  · rfl
  · exact length_xorWords _ _ data

theorem cipher_cipher (c : SimpleCipher) (data : List UInt8) (sequence : Nat) :
    c.cipher (c.cipher data sequence) sequence = data := by
  by_cases hzero : c.expandedKey0 = 0 ∧ c.expandedKey1 = 0
  · rw [cipher, if_pos hzero, cipher, if_pos hzero]
  · rw [cipher, if_neg hzero, cipher, if_neg hzero]
    exact xorWords_xorWords _ _ data

end SimpleCipher

end Tonk.Session
