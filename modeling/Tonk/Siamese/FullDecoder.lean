import Tonk.Siamese.RecoveredRegion

/-!
The decoder with its data: the solver and the sums together, from the recovery packets as they arrive
to the packets Decode hands out.
-/

set_option autoImplicit false

namespace Tonk.Siamese
open Protocol

namespace Decoder

def initialRecoveryBytes (d : Decoder OriginalPacket RecoveryData) : Nat :=
  match d.recoveryPackets with
  | [] =>
    match d.lastRecovery with
    | none => 0
    | some (_, buffer) => buffer.bytes.length
  | packets => packets.foldl (fun bytes recovery => max bytes recovery.buffer.bytes.length) 0

end Decoder

/-- The packet in the buffer of a recovery packet that holds a copy of one. -/
def singleOriginal (columnStart : Nat) (buffer : DataBuffer) : Option OriginalPacket :=
  let data := buffer.toBytes
  match deserializeHeaderPacketLength data with
  | none => none
  | some (length, headerBytes) =>
    if length = 0 ∨ length + headerBytes ≠ data.length then none
    else some (.initialized columnStart (data.drop headerBytes))

structure FullDecoder where
  solver : Solver OriginalPacket RecoveryData
  sums : Nat → Nat → DecoderSum
  recoveredColumns : List Nat

namespace FullDecoder

def initial : FullDecoder := ⟨.initial, fun _ _ => ⟨0, 0, []⟩, []⟩

def data (f : FullDecoder) : DecoderData :=
  let d := f.solver.decoder
  ⟨d.window, f.sums, d.sumColumnStart, d.sumColumnCount, f.recoveredColumns⟩

def disable (f : FullDecoder) : FullDecoder := { f with solver := f.solver.disable }

def withSolver (f : FullDecoder) (solver : Solver OriginalPacket RecoveryData) : FullDecoder :=
  { f with solver := solver }

def resetRegion (f : FullDecoder) : FullDecoder := { f with solver := f.solver.resetRegion }

def removeElements (f : FullDecoder) : FullDecoder :=
  let d := f.solver.decoder
  if d.window.nextExpectedElement < kDecoderRemoveThreshold then f
  else
    match d.planRemoval with
    | none => f.disable
    | some r =>
      if r.firstKeptElement < kDecoderRemoveThreshold then f
      else
        match f.data.removeElements r d.initialRecoveryBytes with
        | none => f.disable
        | some data => ⟨f.solver.removeElements, data.sums, data.recoveredColumns⟩

def addOriginal (f : FullDecoder) (packetNum : Nat) (data : Bytes) : FullDecoder × SiameseResult :=
  let (solver, result) := f.solver.addOriginal packetNum (.initialized packetNum data)
  (f.withSolver solver, result)

def addSingleRecovery (f : FullDecoder) (columnStart : Nat) (single : Option OriginalPacket) :
    FullDecoder :=
  let s := f.solver
  let window := s.decoder.window
  let element := window.columnToElement columnStart
  let isNew := window.invalidElement element = false ∧ window.getWindowElement element = none ∧
    single.isSome
  let s := { s with decoder := s.decoder.addSingleRecovery columnStart single false }
  let s := if isNew ∧ s.checkedRegion.covers element then s.resetRegion else s
  let f := { f with
    solver := s
    recoveredColumns := if isNew then f.recoveredColumns ++ [columnStart] else f.recoveredColumns }
  if isNew ∧ element = window.nextExpectedElement ∧
      kDecoderRemoveThreshold ≤ s.checkedRegion.nextCheckStart then f.removeElements
  else f

def storeRecovery (f : FullDecoder) (metadata : RecoveryMetadata) (buffer : RecoveryData)
    (outOfOrder : Bool) (elementStart elementEnd : Nat) : FullDecoder :=
  if metadata.sumCount = 1 then
    f.addSingleRecovery metadata.columnStart (singleOriginal metadata.columnStart buffer.bytes)
  else
    let recovery := ⟨metadata, elementStart, elementEnd, buffer⟩
    let f := f.withSolver (f.solver.linkRecovery recovery outOfOrder)
    if kDecoderRemoveThreshold ≤ elementStart then f.removeElements else f

def withDecoder (f : FullDecoder) (decoder : Decoder OriginalPacket RecoveryData) : FullDecoder :=
  f.withSolver (f.solver.withDecoder decoder)

/-- AddRecovery behind the parser. -/
def addRecovery (f : FullDecoder) (metadata : RecoveryMetadata) (buffer : RecoveryData) :
    FullDecoder :=
  let d := f.solver.decoder
  if d.emergencyDisabled then f
  else
    d.placeRecovery metadata buffer f.withDecoder (fun d => (f.withDecoder d).removeElements)
      fun d outOfOrder elementStart elementEnd =>
        (f.withDecoder d).storeRecovery metadata buffer outOfOrder elementStart elementEnd

/-- BackSubstitution with the packets in `original`, from the last column to the first. The recovery
packets whose buffers were used up are all deleted. -/
def fillRegion (f : FullDecoder) (d : DecoderData) (original : Nat → OriginalPacket) : FullDecoder :=
  let s := f.solver
  let columns := s.recoveryMatrix.columns
  let region := s.checkedRegion
  let data := fun e => original (columns.idxOf (s.decoder.window.elementToColumn e))
  let decoder := s.decoder.fillLost region.elementStart region.nextCheckStart data d.sumColumnStart
    d.sumColumnCount
  let f : FullDecoder :=
    ⟨{ s with decoder := decoder }, d.sums, d.recoveredColumns ++ columns.reverse⟩
  if kDecoderRemoveThreshold ≤ region.nextCheckStart then f.removeElements else f

def decodeCheckedRegion (f : FullDecoder) :
    FullDecoder × SiameseResult × List (Nat × OriginalPacket) :=
  let s := f.solver.generateMatrix
  let (m, solved) := s.recoveryMatrix.gaussianElimination
  let s := { s with recoveryMatrix := m }
  if solved then
    match m.recoverData s.decoder.recoveryPackets f.data with
    | none => (f.withSolver s.disable, .disabled, [])
    | some (d, original) =>
      let region := s.checkedRegion
      if s.decoder.iterateNextExpected region.elementStart region.nextCheckStart then
        let f := (f.withSolver s).fillRegion d original
        (f.resetRegion, .success, f.solver.decoder.recoveredPackets)
      else (f.withSolver s.disable, .disabled, [])
  else
    (f.withSolver { s with checkedRegion := { s.checkedRegion with solveFailed := true } },
      .needMoreData, [])

def decodeLoop : List (RecoveryPacket RecoveryData) → CheckedRegionState → FullDecoder →
    FullDecoder × SiameseResult × List (Nat × OriginalPacket)
  | packets, region, f =>
    let (f, result, recovered) :=
      if region.lostCount ≤ region.recoveryCount then f.decodeCheckedRegion
      else (f, .needMoreData, [])
    if result = .needMoreData then
      match packets with
      | [] => (f.withSolver { f.solver with checkedRegion := { region with
          solveFailed := f.solver.checkedRegion.solveFailed } }, .needMoreData, [])
      | recovery :: rest =>
        decodeLoop rest (region.extend f.solver.decoder.window recovery) f
    else (f, result, recovered)

def decode (f : FullDecoder) : FullDecoder × SiameseResult × List (Nat × OriginalPacket) :=
  let d := f.solver.decoder
  if d.emergencyDisabled then (f, .disabled, [])
  else if d.hasRecoveredPackets then
    (f.withSolver { f.solver with decoder := { d with hasRecoveredPackets := false } }, .success,
      d.recoveredPackets)
  else
    let (s, possible) := f.solver.checkRecoveryPossible
    let f := f.withSolver s
    if possible then
      decodeLoop (s.decoder.recoveryPackets.drop s.checkedRegion.recoveryCount) s.checkedRegion f
    else (f, .needMoreData, [])

end FullDecoder
end Tonk.Siamese
