import Tonk.Lib.GF256
import Tonk.Siamese.Encoder

set_option autoImplicit false

namespace Tonk.Siamese

def kColumnValuePeriod : Nat := 253
def kRowValuePeriod : Nat := 255
def kPairAddRate : Nat := 16
def kMaximumLossRecoveryCount : Nat := 255

def getColumnValue (column : Nat) : GF256 :=
  .ofNat (3 + column * 199 % 2 ^ 32 % kColumnValuePeriod)

def getRowValue (row : Nat) : GF256 := .ofNat (1 + (row + 1) % kRowValuePeriod)

def int32Hash (key : UInt32) : UInt32 :=
  let key := key + ~~~(key <<< 15)
  let key := key ^^^ (key >>> 10)
  let key := key + (key <<< 3)
  let key := key ^^^ (key >>> 6)
  let key := key + ~~~(key <<< 11)
  key ^^^ (key >>> 16)

def getRowOpcode (lane row : Nat) : Nat :=
  let opcode := (int32Hash (.ofNat (lane + (row + 3) * kColumnLaneCount)) &&& 63).toNat
  if opcode = 0 then 16 else opcode

def cauchyElement (row column : Nat) : GF256 :=
  (GF256.ofNat (row + kCauchyMaxColumns) + GF256.ofNat column)⁻¹

structure PCGRandom where
  state : UInt64
  inc : UInt64
  deriving DecidableEq, Repr

namespace PCGRandom

def next (prng : PCGRandom) : UInt32 × PCGRandom :=
  let oldstate := prng.state
  let xorshifted := (((oldstate >>> 18) ^^^ oldstate) >>> 27).toUInt32
  let rot := (oldstate >>> 59).toUInt32
  ((xorshifted >>> rot) ||| (xorshifted <<< ((0 - rot) &&& 31)),
    { prng with state := oldstate * 6364136223846793005 + prng.inc })

def seed (y x : UInt64) : PCGRandom :=
  let prng := (PCGRandom.mk 0 ((y <<< 1) ||| 1)).next.2
  { prng with state := prng.state + x }.next.2

end PCGRandom

def sumValue (row column : Nat) : GF256 :=
  let cx := getColumnValue column
  let cx2 := cx * cx
  let rx := getRowValue row
  let opcode := getRowOpcode (column % kColumnLaneCount) row
  (if opcode.testBit 0 then 1 else 0) + (if opcode.testBit 1 then cx else 0) +
    (if opcode.testBit 2 then cx2 else 0) + (if opcode.testBit 3 then rx else 0) +
    (if opcode.testBit 4 then cx * rx else 0) + (if opcode.testBit 5 then cx2 * rx else 0)

def rowValue (metadata : RecoveryMetadata) (column : Nat) : GF256 :=
  if metadata.sumCount ≤ siameseCauchyThreshold then
    if metadata.row = 0 then 1 else cauchyElement (metadata.row - 1) (column % kCauchyMaxColumns)
  else sumValue metadata.row column

end Tonk.Siamese
