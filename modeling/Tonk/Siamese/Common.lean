import Tonk.Lib.Serial

/-!
Column numbers of `SiameseCommon.h`. They wrap at `kColumnPeriod`; as the period divides `2 ^ 32`,
the unsigned differences of the sources are differences modulo the period.
-/

set_option autoImplicit false

namespace Tonk.Siamese
open Serial

inductive SiameseResult where
  | success
  | invalidInput
  | needMoreData
  | maxPacketsReached
  | duplicateData
  | disabled
  deriving DecidableEq, Repr

def kColumnPeriod : Nat := 0x400000
def kColumnLaneCount : Nat := 8
def kSubwindowSize : Nat := kColumnLaneCount * 8
def siameseMaxPackets : Nat := 16000

def unsignedSub (a b : Nat) : Nat := sub 32 a b

def isColumnDeltaNegative (columnDelta : Nat) : Bool := kColumnPeriod / 2 ≤ columnDelta

def subtractColumns (a b : Nat) : Nat := sub 22 a b

def addColumns (a b : Nat) : Nat := (a + b) % kColumnPeriod

def incrementColumn1 (column : Nat) : Nat := addColumns column 1

theorem isColumnDeltaNegative_iff {d : Nat} :
    isColumnDeltaNegative d = true ↔ kColumnPeriod / 2 ≤ d := by
  simp [isColumnDeltaNegative]

theorem isColumnDeltaNegative_eq_false_iff {d : Nat} :
    isColumnDeltaNegative d = false ↔ d < kColumnPeriod / 2 := by
  simp [isColumnDeltaNegative]

theorem unsignedSub_eq {a b : Nat} (h : b ≤ a) (ha : a < 2 ^ 32) : unsignedSub a b = a - b := by
  have h₁ := sub_cast 32 a b
  unfold unsignedSub
  omega

def columnOf (n : Nat) : Nat := n % kColumnPeriod

theorem columnOf_lt (n : Nat) : columnOf n < kColumnPeriod := Nat.mod_lt _ (by decide)

theorem columnOf_eq_self {n : Nat} (h : n < kColumnPeriod) : columnOf n = n := Nat.mod_eq_of_lt h

@[simp] theorem addColumns_columnOf (n m : Nat) : addColumns (columnOf n) m = columnOf (n + m) := by
  simp [addColumns, columnOf]

@[simp] theorem addColumns_columnOf_right (n m : Nat) :
    addColumns m (columnOf n) = columnOf (n + m) := by
  simp [addColumns, columnOf, Nat.add_comm]

@[simp] theorem incrementColumn1_columnOf (n : Nat) :
    incrementColumn1 (columnOf n) = columnOf (n + 1) := addColumns_columnOf n 1

theorem incrementColumn1_lt (column : Nat) : incrementColumn1 column < kColumnPeriod :=
  columnOf_lt (column + 1)

theorem subtractColumns_cast (a b : Nat) :
    (subtractColumns a b : Int) = ((a : Int) - b) % 2 ^ 22 := sub_cast 22 a b

theorem subtractColumns_lt (a b : Nat) : subtractColumns a b < kColumnPeriod := by
  have h := subtractColumns_cast a b
  have hp : kColumnPeriod = 2 ^ 22 := rfl
  omega

theorem subtractColumns_columnOf {n m : Nat} (h : m ≤ n) (hlt : n - m < kColumnPeriod) :
    subtractColumns (columnOf n) (columnOf m) = n - m := by
  have h₁ := subtractColumns_cast (columnOf n) (columnOf m)
  simp only [columnOf, kColumnPeriod] at h₁ hlt ⊢
  omega

theorem subtractColumns_columnOf_neg {n m : Nat} (h : n < m) (hlt : m - n ≤ kColumnPeriod) :
    subtractColumns (columnOf n) (columnOf m) = kColumnPeriod - (m - n) := by
  have h₁ := subtractColumns_cast (columnOf n) (columnOf m)
  simp only [columnOf, kColumnPeriod] at h₁ hlt ⊢
  omega

theorem columnOf_inj {n m : Nat} (h : columnOf n = columnOf m) (hnm : n ≤ m)
    (hlt : m - n < kColumnPeriod) : n = m := by
  simp only [columnOf, kColumnPeriod] at h hlt
  omega

end Tonk.Siamese
