import Mathlib.Tactic

set_option autoImplicit false

namespace LittleEndian

def value : List UInt8 → Nat
  | [] => 0
  | b :: bs => b.toNat + 256 * value bs

def bytes : Nat → Nat → List UInt8
  | 0, _ => []
  | n + 1, v => UInt8.ofNat v :: bytes n (v / 256)

@[simp] theorem length_bytes (n v : Nat) : (bytes n v).length = n := by
  induction n generalizing v with
  | zero => rfl
  | succ n ih => simp [bytes, ih]

theorem value_lt (bs : List UInt8) : value bs < 256 ^ bs.length := by
  induction bs with
  | nil => simp [value]
  | cons b bs ih =>
    have hb := b.toNat_lt
    rw [value, List.length_cons, pow_succ]
    omega

theorem value_bytes (n v : Nat) : value (bytes n v) = v % 256 ^ n := by
  induction n generalizing v with
  | zero => simp [bytes, value, Nat.mod_one]
  | succ n ih =>
    rw [bytes, value, ih, pow_succ', Nat.mod_mul]
    simp

theorem bytes_value (bs : List UInt8) : bytes bs.length (value bs) = bs := by
  induction bs with
  | nil => rfl
  | cons b bs ih =>
    have hb := b.toNat_lt
    have hdiv : (b.toNat + 256 * value bs) / 256 = value bs := by omega
    have hhead : UInt8.ofNat (b.toNat + 256 * value bs) = b := by
      rw [← UInt8.toNat_inj, UInt8.toNat_ofNat']
      omega
    rw [value, List.length_cons, bytes, hdiv, ih, hhead]

theorem bytes_mod (n v : Nat) : bytes n (v % 256 ^ n) = bytes n v := by
  have h := bytes_value (bytes n v)
  rwa [length_bytes, value_bytes] at h

theorem bytes_append (n m v : Nat) : bytes (n + m) v = bytes n v ++ bytes m (v / 256 ^ n) := by
  induction n generalizing v with
  | zero => simp [bytes]
  | succ n ih =>
    rw [Nat.succ_add, bytes, bytes, ih, Nat.div_div_eq_div_mul, ← pow_succ', List.cons_append]

theorem value_append_mod (bs cs : List UInt8) :
    value (bs ++ cs) % 256 ^ bs.length = value bs := by
  induction bs with
  | nil => simp [value, Nat.mod_one]
  | cons b bs ih =>
    have hb := b.toNat_lt
    rw [List.cons_append, value, value, List.length_cons, pow_succ', Nat.mod_mul]
    have hlow : (b.toNat + 256 * value (bs ++ cs)) % 256 = b.toNat := by omega
    have hhigh : (b.toNat + 256 * value (bs ++ cs)) / 256 = value (bs ++ cs) := by omega
    rw [hlow, hhigh, ih]

end LittleEndian
