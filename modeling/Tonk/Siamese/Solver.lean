import Tonk.Siamese.DecoderContents
import Tonk.Siamese.LostPackets
import Tonk.Siamese.RecoveryMatrix

/-!
The decoder with its solver: `CheckedRegion` grows over the stored recovery packets until there are
as many as losses, and the recovery matrix of the region is generated and eliminated. What
EliminateOriginalData, MultiplyLowerTriangle and BackSubstitution make of the data once the matrix is
solved comes from outside here.
-/

set_option autoImplicit false

namespace Tonk.Siamese
open Search

/-- FirstRecovery is the head of the list and LastRecovery the packet at `recoveryCount`, or null when
that is zero. `lostCounts` are the LostCount fields of the packets up to it. -/
structure CheckedRegionState where
  elementStart : Nat
  nextCheckStart : Nat
  recoveryCount : Nat
  lostCount : Nat
  solveFailed : Bool
  lostCounts : List Nat
  deriving DecidableEq, Repr

namespace CheckedRegionState

def reset : CheckedRegionState := ⟨0, 0, 0, 0, false, []⟩

variable {α β : Type}

def covers (region : CheckedRegionState) (element : Nat) : Bool :=
  region.elementStart ≤ element ∧ element < region.nextCheckStart

def extend (region : CheckedRegionState) (w : DecoderPacketWindow α) (recovery : RecoveryPacket β) :
    CheckedRegionState :=
  let elementEnd := max recovery.elementEnd region.nextCheckStart
  let lostCount := region.lostCount + w.rangeLostPackets region.nextCheckStart elementEnd
  { region with
    nextCheckStart := elementEnd
    recoveryCount := region.recoveryCount + 1
    lostCount := lostCount
    lostCounts := region.lostCounts ++ [lostCount] }

/-- The loop of CheckRecoveryPossible over the packets behind the region. -/
def extendWhile (w : DecoderPacketWindow α) : List (RecoveryPacket β) → CheckedRegionState →
    CheckedRegionState
  | [], region => region
  | recovery :: rest, region =>
    if region.recoveryCount < region.lostCount ∨ region.solveFailed then
      extendWhile w rest { region.extend w recovery with solveFailed := false }
    else region

def possible (region : CheckedRegionState) : Bool :=
  region.lostCount ≤ kMaximumLossRecoveryCount ∧ region.lostCount ≤ region.recoveryCount ∧
    region.solveFailed = false

end CheckedRegionState

/-- How many elements RemoveElements takes out. -/
def Decoder.removedElementCount {α β : Type} (d : Decoder α β) : Nat :=
  if d.window.nextExpectedElement < kDecoderRemoveThreshold then 0
  else
    match d.planRemoval with
    | none => 0
    | some r =>
      if r.firstKeptElement < kDecoderRemoveThreshold then 0
      else
        match d.targetSums r with
        | none => 0
        | some _ => r.firstKeptElement / kSubwindowSize * kSubwindowSize

section GenerateMatrix

variable {α β : Type}

/-- The first loop of GenerateMatrix over a row: at the first column behind the packet's range it
fills up with zeros. -/
def fillDense (metadata : RecoveryMetadata) (columns : List Nat) (startMatrixColumn : Nat)
    (rowData : Nat → GF256) : Nat → GF256 :=
  let stop := firstFrom (fun j =>
    metadata.sumCount ≤ subtractColumns (columns.getD j 0) metadata.columnStart)
    startMatrixColumn columns.length
  fun j =>
    if startMatrixColumn ≤ j ∧ j < columns.length then
      if j < stop then rowValue metadata (columns.getD j 0) else 0
    else rowData j

/-- The column of the matrix a lost packet points to. The source only asserts that there is one. -/
def addToColumn (w : DecoderPacketWindow α) (originalColumn : Nat → Nat)
    (startMatrixColumn element : Nat) (value : GF256) (rowData : Nat → GF256) : Nat → GF256 :=
  if (w.getWindowElement element).isSome then rowData
  else
    let matrixColumn := originalColumn element
    if startMatrixColumn ≤ matrixColumn then
      Function.update rowData matrixColumn (rowData matrixColumn + value)
    else rowData

def fillLight (w : DecoderPacketWindow α) (originalColumn : Nat → Nat) (recovery : RecoveryPacket β)
    (startMatrixColumn : Nat) : Nat → PCGRandom → (Nat → GF256) → Nat → GF256
  | 0, _, rowData => rowData
  | n + 1, prng, rowData =>
    let (random1, prng) := prng.next
    let element1 := recovery.elementStart + random1.toNat % recovery.metadata.ldpcCount
    let rowData := addToColumn w originalColumn startMatrixColumn element1 1 rowData
    let (randomRX, prng) := prng.next
    let elementRX := recovery.elementStart + randomRX.toNat % recovery.metadata.ldpcCount
    let rowData := addToColumn w originalColumn startMatrixColumn elementRX
      (getRowValue recovery.metadata.row) rowData
    fillLight w originalColumn recovery startMatrixColumn n prng rowData

def fillRow (w : DecoderPacketWindow α) (originalColumn : Nat → Nat) (recovery : RecoveryPacket β)
    (columns : List Nat) (startMatrixColumn : Nat) (rowData : Nat → GF256) : Nat → GF256 :=
  let metadata := recovery.metadata
  let rowData := fillDense metadata columns startMatrixColumn rowData
  if metadata.sumCount ≤ siameseCauchyThreshold then rowData
  else
    let pairCount := (metadata.ldpcCount + kPairAddRate - 1) / kPairAddRate
    fillLight w originalColumn recovery startMatrixColumn pairCount
      (.seed (.ofNat metadata.row) (.ofNat metadata.ldpcCount)) rowData

end GenerateMatrix

structure Solver (α β : Type) where
  decoder : Decoder α β
  checkedRegion : CheckedRegionState
  recoveryMatrix : RecoveryMatrixState
  /-- The Column fields of the packets that are missing, by their elements: the column of the matrix
  PopulateColumns listed the packet at, however long ago. -/
  originalColumn : Nat → Nat

/-- What the data operations give on success: the packets, and where the sums ran. -/
structure Solution (α : Type) where
  data : Nat → α
  sumColumnStart : Nat
  sumColumnCount : Nat

namespace Solver

variable {α β : Type}

def initial : Solver α β := ⟨.initial, .reset, .reset, fun _ => 0⟩

def disable (s : Solver α β) : Solver α β := { s with decoder := s.decoder.disable }

def resetRegion (s : Solver α β) : Solver α β :=
  { s with checkedRegion := .reset, recoveryMatrix := .reset }

def decrementElementCounters (s : Solver α β) (elementCount : Nat) : Solver α β :=
  let region := s.checkedRegion
  if region.elementStart < elementCount ∨ region.nextCheckStart < elementCount then s.resetRegion
  else
    let previous := s.recoveryMatrix.previousNextCheckStart
    { s with
      checkedRegion := { region with
        elementStart := region.elementStart - elementCount
        nextCheckStart := region.nextCheckStart - elementCount }
      recoveryMatrix := { s.recoveryMatrix with
        previousNextCheckStart := if elementCount < previous then previous - elementCount else 0 } }

/-- The subwindows in front go to the back with their packets reset. -/
def removeElements (s : Solver α β) : Solver α β :=
  let elementCount := s.decoder.removedElementCount
  { s with
    decoder := s.decoder.removeElements
    originalColumn := fun element => s.originalColumn (element + elementCount)
  }.decrementElementCounters elementCount

def addOriginal (s : Solver α β) (packetNum : Nat) (data : α) : Solver α β × SiameseResult :=
  let element := s.decoder.window.columnToElement packetNum
  let (decoder, result) := s.decoder.addOriginal packetNum data
  let s := { s with decoder := decoder }
  if result = .success ∧ s.checkedRegion.covers element then (s.resetRegion, result)
  else (s, result)

def addSingleRecovery (s : Solver α β) (columnStart : Nat) (single : Option α) : Solver α β :=
  let window := s.decoder.window
  let element := window.columnToElement columnStart
  let isNew := window.invalidElement element = false ∧ window.getWindowElement element = none ∧
    single.isSome
  let s := { s with decoder := s.decoder.addSingleRecovery columnStart single false }
  let s := if isNew ∧ s.checkedRegion.covers element then s.resetRegion else s
  if isNew ∧ element = window.nextExpectedElement ∧
      kDecoderRemoveThreshold ≤ s.checkedRegion.nextCheckStart then s.removeElements
  else s

/-- Whether Insert puts the packet behind a tail. Everywhere else it invalidates the checked region. -/
def insertsAtTail (recovery : RecoveryPacket β) (packets : List (RecoveryPacket β)) : Bool :=
  match packets.getLast? with
  | none => false
  | some prev => prev.elementEnd < recovery.elementEnd ∨ recovery.elementEnd = prev.elementEnd ∧
      isColumnDeltaNegative
        (subtractColumns recovery.metadata.columnStart prev.metadata.columnStart)

def withDecoder (s : Solver α β) (decoder : Decoder α β) : Solver α β := { s with decoder := decoder }

def withWindow (s : Solver α β) (window : DecoderPacketWindow α) : Solver α β :=
  s.withDecoder { s.decoder with window := window }

def linkRecovery (s : Solver α β) (recovery : RecoveryPacket β) (outOfOrder : Bool) : Solver α β :=
  let linked := s.withDecoder (s.decoder.linkRecovery recovery outOfOrder)
  if insertsAtTail recovery s.decoder.recoveryPackets then linked else linked.resetRegion

def storeRecovery (s : Solver α β) (metadata : RecoveryMetadata) (buffer : β) (single : Option α)
    (outOfOrder : Bool) (elementStart elementEnd : Nat) : Solver α β :=
  if metadata.sumCount = 1 then s.addSingleRecovery metadata.columnStart single
  else
    let s := s.linkRecovery ⟨metadata, elementStart, elementEnd, buffer⟩ outOfOrder
    if kDecoderRemoveThreshold ≤ elementStart then s.removeElements else s

/-- AddRecovery behind the parser; `single` is the packet in the buffer when it holds a copy of one. -/
def addRecovery (s : Solver α β) (metadata : RecoveryMetadata) (buffer : β) (single : Option α) :
    Solver α β :=
  if s.decoder.emergencyDisabled then s
  else
    s.decoder.placeRecovery metadata buffer s.withDecoder (fun d => (s.withDecoder d).removeElements)
      fun d outOfOrder elementStart elementEnd =>
        (s.withDecoder d).storeRecovery metadata buffer single outOfOrder elementStart elementEnd

def checkRecoveryPossible (s : Solver α β) : Solver α β × Bool :=
  if s.decoder.emergencyDisabled then (s, false)
  else
    let window := s.decoder.window
    let region := s.checkedRegion
    if region.recoveryCount = 0 then
      match s.decoder.recoveryPackets with
      | [] => (s, false)
      | head :: rest =>
        let lostCount := window.rangeLostPackets head.elementStart head.elementEnd
        let region := CheckedRegionState.extendWhile window rest
          ⟨head.elementStart, head.elementEnd, 1, lostCount, false, [lostCount]⟩
        ({ s with checkedRegion := region }, region.possible)
    else if region.lostCount ≤ region.recoveryCount ∧ region.solveFailed = false then
      (s, region.lostCount ≤ kMaximumLossRecoveryCount)
    else
      let region := CheckedRegionState.extendWhile window
        (s.decoder.recoveryPackets.drop region.recoveryCount) region
      ({ s with checkedRegion := region }, region.possible)

/-- PopulateColumns; when the scan finds too few columns the decoder is disabled. -/
def populateColumns (s : Solver α β) (newColumns : Nat) : Solver α β :=
  let m := s.recoveryMatrix
  if newColumns ≤ m.columns.length then s
  else
    let window := s.decoder.window
    let elementStart := max m.previousNextCheckStart s.checkedRegion.elementStart
    let elementEnd := s.checkedRegion.nextCheckStart
    let subwindowEnd := (elementEnd + kSubwindowSize - 1) / kSubwindowSize
    let subwindowIndex := elementStart / kSubwindowSize
    let found := (window.lostFrom (subwindowEnd - subwindowIndex) subwindowIndex
      (elementStart % kSubwindowSize)).take (newColumns - m.columns.length)
    let s := { s with
      recoveryMatrix := { m with
        columns := m.columns ++ found.map window.elementToColumn
        previousNextCheckStart := elementEnd }
      originalColumn := fun element =>
        if element ∈ found then m.columns.length + found.idxOf element else s.originalColumn element }
    if found.length < newColumns - m.columns.length then s.disable else s

def populateRows (m : RecoveryMatrixState) (region : CheckedRegionState) : RecoveryMatrixState :=
  { m with
    rowCount := max m.rowCount region.recoveryCount
    matrixColumnCount := fun i =>
      if m.rowCount ≤ i then region.lostCounts.getD i 0 else m.matrixColumnCount i }

def generateMatrix (s : Solver α β) : Solver α β :=
  let columns := s.checkedRegion.lostCount
  let rows := s.checkedRegion.recoveryCount
  let s := if rows < s.recoveryMatrix.rowCount ∨ columns < s.recoveryMatrix.columns.length then
    { s with recoveryMatrix := .reset } else s
  let oldRows := s.recoveryMatrix.rowCount
  let oldColumns := s.recoveryMatrix.columns.length
  let s := s.populateColumns columns
  let m := populateRows s.recoveryMatrix s.checkedRegion
  let startRow := if columns ≤ oldColumns then oldRows else 0
  let m := { m with
    matrix := fun i =>
      match s.decoder.recoveryPackets[i]? with
      | none => m.matrix i
      | some recovery =>
        if startRow ≤ i ∧ i < rows then
          fillRow s.decoder.window s.originalColumn recovery m.columns
            (if i < oldRows then oldColumns else 0) (m.matrix i)
        else m.matrix i }
  { s with recoveryMatrix := if 0 < m.geResumePivot then m.resumeGE oldRows rows else m }

def decodeCheckedRegion (s : Solver α β) (solution : Option (Solution α)) :
    Solver α β × SiameseResult × List (Nat × α) :=
  let s := s.generateMatrix
  let (m, solved) := s.recoveryMatrix.gaussianElimination
  let s := { s with recoveryMatrix := m }
  if solved then
    match solution with
    | none => (s.disable, .disabled, [])
    | some solution =>
      let region := s.checkedRegion
      if s.decoder.iterateNextExpected region.elementStart region.nextCheckStart then
        let decoder := s.decoder.fillLost region.elementStart region.nextCheckStart solution.data
          solution.sumColumnStart solution.sumColumnCount
        let s := { s with decoder := decoder }
        let s := if kDecoderRemoveThreshold ≤ region.nextCheckStart then s.removeElements else s
        (s.resetRegion, .success, s.decoder.recoveredPackets)
      else (s.disable, .disabled, [])
  else
    ({ s with checkedRegion := { s.checkedRegion with solveFailed := true } }, .needMoreData, [])

/-- The loop of Decode over the packets behind the region. It goes on with its own counts, and
CheckedRegion gets them when there are no more packets. -/
def decodeLoop (solution : Option (Solution α)) : List (RecoveryPacket β) → CheckedRegionState →
    Solver α β → Solver α β × SiameseResult × List (Nat × α)
  | packets, region, s =>
    let (s, result, recovered) :=
      if region.lostCount ≤ region.recoveryCount then s.decodeCheckedRegion solution
      else (s, .needMoreData, [])
    if result = .needMoreData then
      match packets with
      | [] => ({ s with checkedRegion := { region with
          solveFailed := s.checkedRegion.solveFailed } }, .needMoreData, [])
      | recovery :: rest =>
        decodeLoop solution rest (region.extend s.decoder.window recovery) s
    else (s, result, recovered)

def decode (s : Solver α β) (solution : Option (Solution α)) :
    Solver α β × SiameseResult × List (Nat × α) :=
  if s.decoder.emergencyDisabled then (s, .disabled, [])
  else if s.decoder.hasRecoveredPackets then
    ({ s with decoder := { s.decoder with hasRecoveredPackets := false } }, .success,
      s.decoder.recoveredPackets)
  else
    let (s, possible) := s.checkRecoveryPossible
    if possible then
      decodeLoop solution (s.decoder.recoveryPackets.drop s.checkedRegion.recoveryCount)
        s.checkedRegion s
    else (s, .needMoreData, [])

def isReadyToDecode (s : Solver α β) : Solver α β × SiameseResult :=
  if s.decoder.hasRecoveredPackets then (s, .success)
  else
    let (s, possible) := s.checkRecoveryPossible
    (s, if possible then .success else .needMoreData)

end Solver
end Tonk.Siamese
