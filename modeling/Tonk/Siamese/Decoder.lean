import Tonk.Siamese.DecoderWindow

/-!
The decoder's bookkeeping: which packets it holds, which recovery packets it keeps and where they
lie in the window, and when it slides the window. Whether the solver succeeds on a set of recovery
packets, and the data it finds, are left open here.
-/

set_option autoImplicit false

namespace Tonk.Siamese

def siameseCauchyThreshold : Nat := 64
def kDecoderRemoveThreshold : Nat := 2 * kSubwindowSize

structure RecoveryMetadata where
  row : Nat
  columnStart : Nat
  sumCount : Nat
  ldpcCount : Nat
  deriving DecidableEq, Repr

/-- A stored recovery packet; the elements are those of its LDPC range. -/
structure RecoveryPacket (β : Type) where
  metadata : RecoveryMetadata
  elementStart : Nat
  elementEnd : Nat
  buffer : β
  deriving DecidableEq, Repr

section RecoveryPacketList

variable {β : Type}

/-- RecoveryPacketList::Insert, from the newest packet back. -/
def insertFromTail (recovery : RecoveryPacket β) : List (RecoveryPacket β) → List (RecoveryPacket β)
  | [] => [recovery]
  | prev :: rest =>
    if prev.elementEnd < recovery.elementEnd ∨ recovery.elementEnd = prev.elementEnd ∧
        isColumnDeltaNegative
          (subtractColumns recovery.metadata.columnStart prev.metadata.columnStart) then
      recovery :: prev :: rest
    else prev :: insertFromTail recovery rest

def insertRecovery (recovery : RecoveryPacket β) (packets : List (RecoveryPacket β)) :
    List (RecoveryPacket β) :=
  (insertFromTail recovery packets.reverse).reverse

def deletePacketsBefore (element : Nat) : List (RecoveryPacket β) → List (RecoveryPacket β)
  | [] => []
  | recovery :: rest =>
    if element < recovery.elementEnd then recovery :: rest else deletePacketsBefore element rest

def decrementElementCounters (elementCount : Nat) (packets : List (RecoveryPacket β)) :
    List (RecoveryPacket β) :=
  packets.map fun recovery => { recovery with
    elementStart := unsignedSub recovery.elementStart elementCount
    elementEnd := unsignedSub recovery.elementEnd elementCount }

theorem mem_insertFromTail {recovery x : RecoveryPacket β} {packets : List (RecoveryPacket β)} :
    x ∈ insertFromTail recovery packets ↔ x = recovery ∨ x ∈ packets := by
  induction packets with
  | nil => simp [insertFromTail]
  | cons prev rest ih =>
    rw [insertFromTail]
    split
    · simp
    · simp only [List.mem_cons, ih]
      tauto

@[simp] theorem mem_insertRecovery {recovery x : RecoveryPacket β}
    {packets : List (RecoveryPacket β)} :
    x ∈ insertRecovery recovery packets ↔ x = recovery ∨ x ∈ packets := by
  simp [insertRecovery, mem_insertFromTail]

theorem mem_deletePacketsBefore {element : Nat} {x : RecoveryPacket β}
    {packets : List (RecoveryPacket β)} (h : x ∈ deletePacketsBefore element packets) :
    x ∈ packets := by
  induction packets with
  | nil => exact h
  | cons recovery rest ih =>
    rw [deletePacketsBefore] at h
    split at h
    · exact h
    · exact List.mem_cons_of_mem _ (ih h)

end RecoveryPacketList

/-- `lastRecovery` is LastRecoveryMetadata with the packet LastRecoveryBytes was taken from. -/
structure Decoder (α β : Type) where
  window : DecoderPacketWindow α
  recoveryPackets : List (RecoveryPacket β)
  lastRecovery : Option (RecoveryMetadata × β)
  latestColumn : Nat
  sumColumnStart : Nat
  sumColumnCount : Nat
  recoveredPackets : List (Nat × α)
  hasRecoveredPackets : Bool
  emergencyDisabled : Bool

namespace Decoder

variable {α β : Type}

def initial : Decoder α β := ⟨.initial, [], none, 0, 0, 0, [], false, false⟩

/-- The source gives LastRecoveryMetadata no value to start with; it is read as zeros here. -/
def lastRecoveryMetadata (d : Decoder α β) : RecoveryMetadata :=
  match d.lastRecovery with
  | none => ⟨0, 0, 0, 0⟩
  | some (metadata, _) => metadata

def get (d : Decoder α β) (packetNum : Nat) : SiameseResult × Option α :=
  if d.emergencyDisabled then (.disabled, none)
  else
    let element := d.window.columnToElement packetNum
    if d.window.invalidElement element then (.needMoreData, none)
    else
      match d.window.getWindowElement element with
      | none => (.needMoreData, none)
      | some data => (.success, some data)

/-- AddOriginal; the checked region is not part of the model. -/
def addOriginal (d : Decoder α β) (packetNum : Nat) (data : α) : Decoder α β × SiameseResult :=
  if d.emergencyDisabled then (d, .disabled)
  else
    let element := d.window.columnToElement packetNum
    let isNext := element = d.window.nextExpectedElement
    let (window, result) := d.window.addOriginal packetNum data
    let d := { d with window := window }
    if result = .success ∧ isNext then
      ({ d with
        recoveryPackets := deletePacketsBefore window.nextExpectedElement d.recoveryPackets },
        result)
    else (d, result)

/-- What RemoveElements learns from the recovery packets it keeps. -/
structure Removal where
  firstKeptElement : Nat
  targetSumStartColumn : Nat
  targetSumColumnCount : Nat
  seenSum : Bool

/-- One turn of the loop over the stored packets; nothing if a second sum start was clipped. -/
def keepPacket (w : DecoderPacketWindow α) (r : Removal) (recovery : RecoveryPacket β) :
    Option Removal :=
  let r := { r with firstKeptElement := min r.firstKeptElement recovery.elementStart }
  let columnStart := recovery.metadata.columnStart
  let sumCount := recovery.metadata.sumCount
  if siameseCauchyThreshold < sumCount then
    if r.seenSum = false then
      some { r with
        targetSumStartColumn := columnStart
        targetSumColumnCount := sumCount
        seenSum := true }
    else if columnStart ≠ r.targetSumStartColumn ∨ sumCount < r.targetSumColumnCount then
      let firstSumElement := w.columnToElement columnStart
      if w.invalidElement firstSumElement then none
      else some { r with firstKeptElement := min r.firstKeptElement firstSumElement }
    else some r
  else some r

/-- The first half of RemoveElements: what has to stay; nothing disables the decoder. -/
def planRemoval (d : Decoder α β) : Option Removal :=
  match d.recoveryPackets with
  | [] =>
    let metadata := d.lastRecoveryMetadata
    let elementEnd := d.window.columnToElement (metadata.columnStart + metadata.sumCount)
    if isColumnDeltaNegative elementEnd ∨ elementEnd < metadata.ldpcCount then none
    else some ⟨elementEnd - metadata.ldpcCount, metadata.columnStart, metadata.sumCount,
      siameseCauchyThreshold < metadata.sumCount⟩
  | head :: rest =>
    (head :: rest).foldlM (keepPacket d.window) ⟨head.elementStart, 0, 0, false⟩

/-- The sums that are kept running; nothing if their start was clipped. -/
def targetSums (d : Decoder α β) (r : Removal) : Option (Decoder α β) :=
  if r.seenSum then
    if d.sumColumnStart ≠ r.targetSumStartColumn ∨ r.targetSumColumnCount < d.sumColumnCount then
      if d.window.invalidElement (d.window.columnToElement r.targetSumStartColumn) then none
      else some { d with
        sumColumnStart := r.targetSumStartColumn
        sumColumnCount := r.targetSumColumnCount }
    else some d
  else some { d with sumColumnCount := 0 }

def shift (d : Decoder α β) (firstKeptSubwindow : Nat) : Decoder α β :=
  { d with
    window := d.window.shift firstKeptSubwindow
    recoveryPackets :=
      decrementElementCounters (firstKeptSubwindow * kSubwindowSize) d.recoveryPackets }

def disable (d : Decoder α β) : Decoder α β := { d with emergencyDisabled := true }

def removeElements (d : Decoder α β) : Decoder α β :=
  if d.window.nextExpectedElement < kDecoderRemoveThreshold then d
  else
    match d.planRemoval with
    | none => d.disable
    | some r =>
      if r.firstKeptElement < kDecoderRemoveThreshold then d
      else
        match d.targetSums r with
        | none => d.disable
        | some d => d.shift (r.firstKeptElement / kSubwindowSize)

def addSingleRecovery (d : Decoder α β) (columnStart : Nat) (single : Option α)
    (checkedPastThreshold : Bool) : Decoder α β :=
  let element := d.window.columnToElement columnStart
  if d.window.invalidElement element then d.disable
  else if (d.window.getWindowElement element).isSome then d
  else
    match single with
    | none => d.disable
    | some data =>
      let isNext := element = d.window.nextExpectedElement
      let d := { d with
        window := d.window.fill element data
        recoveredPackets := (if d.hasRecoveredPackets then d.recoveredPackets else []) ++
          [(columnStart, data)]
        hasRecoveredPackets := true }
      if isNext then
        let d := { d with
          recoveryPackets := deletePacketsBefore d.window.nextExpectedElement d.recoveryPackets }
        if checkedPastThreshold then d.removeElements else d
      else d

/-- `RecoveryPackets.Insert`, which keeps the metadata of the packet unless it is out of order. -/
def linkRecovery (d : Decoder α β) (recovery : RecoveryPacket β) (outOfOrder : Bool) : Decoder α β :=
  { d with
    recoveryPackets := insertRecovery recovery d.recoveryPackets
    lastRecovery := if outOfOrder then d.lastRecovery else some (recovery.metadata, recovery.buffer) }

def storeRecovery (d : Decoder α β) (metadata : RecoveryMetadata) (buffer : β) (single : Option α)
    (outOfOrder checkedPastThreshold : Bool) (elementStart elementEnd : Nat) : Decoder α β :=
  if metadata.sumCount = 1 then
    d.addSingleRecovery metadata.columnStart single checkedPastThreshold
  else
    let d := d.linkRecovery ⟨metadata, elementStart, elementEnd, buffer⟩ outOfOrder
    if kDecoderRemoveThreshold ≤ elementStart then d.removeElements else d

/-- The cases of AddRecovery: it can `ignore` a recovery packet, `pass` over one it has every packet
of, with RemoveElements behind it, or make room for it and `store` it at its elements. The flag of
`store` is `outOfOrder`. -/
def placeRecovery {σ : Type} (d : Decoder α β) (metadata : RecoveryMetadata) (buffer : β)
    (ignore pass : Decoder α β → σ) (store : Decoder α β → Bool → Nat → Nat → σ) : σ :=
  let outOfOrder := isColumnDeltaNegative
    (unsignedSub (metadata.columnStart + metadata.sumCount) d.latestColumn)
  let d := if outOfOrder then d else
    { d with latestColumn := addColumns metadata.columnStart metadata.sumCount }
  if d.window.count ≤ 0 then
    if outOfOrder then ignore d
    else
      let window := { d.window with columnStart := metadata.columnStart }.growWindow metadata.sumCount
      store { d with window := window } outOfOrder (metadata.sumCount - metadata.ldpcCount)
        metadata.sumCount
  else
    let elementEnd := d.window.columnToElement (metadata.columnStart + metadata.sumCount)
    if isColumnDeltaNegative elementEnd then ignore d
    else if elementEnd < metadata.ldpcCount then ignore d
    else
      let elementStart := elementEnd - metadata.ldpcCount
      if elementEnd ≤ d.window.nextExpectedElement then
        if outOfOrder then ignore d
        else if kDecoderRemoveThreshold ≤ elementStart then
          pass { d with lastRecovery := some (metadata, buffer) }
        else ignore d
      else if siameseCauchyThreshold < metadata.sumCount ∧
          (d.sumColumnCount = 0 ∨ d.sumColumnStart ≠ metadata.columnStart) ∧
          d.window.invalidElement (d.window.columnToElement metadata.columnStart) then ignore d
      else
        store { d with window := d.window.growWindow elementEnd } outOfOrder elementStart elementEnd

/-- All that AddRecovery can make of a packet, whatever it does with it then. -/
theorem placeRecovery_cases {σ : Type} (d : Decoder α β) (m : RecoveryMetadata) (buffer : β)
    (ignore pass : Decoder α β → σ) (store : Decoder α β → Bool → Nat → Nat → σ) :
    ∃ column,
      d.placeRecovery m buffer ignore pass store = ignore { d with latestColumn := column } ∨
      d.window.count = 0 ∧ d.placeRecovery m buffer ignore pass store = store { d with
        latestColumn := column
        window := { d.window with columnStart := m.columnStart }.growWindow m.sumCount }
        false (m.sumCount - m.ldpcCount) m.sumCount ∨
      d.window.count ≠ 0 ∧
        ∃ elementEnd, d.window.columnToElement (m.columnStart + m.sumCount) = elementEnd ∧
          isColumnDeltaNegative elementEnd = false ∧ m.ldpcCount ≤ elementEnd ∧
          (elementEnd ≤ d.window.nextExpectedElement ∧
              kDecoderRemoveThreshold ≤ elementEnd - m.ldpcCount ∧
              d.placeRecovery m buffer ignore pass store =
                pass { d with latestColumn := column, lastRecovery := some (m, buffer) } ∨
            d.window.nextExpectedElement < elementEnd ∧
              ¬ (siameseCauchyThreshold < m.sumCount ∧
                (d.sumColumnCount = 0 ∨ d.sumColumnStart ≠ m.columnStart) ∧
                d.window.invalidElement (d.window.columnToElement m.columnStart) = true) ∧
              ∃ outOfOrder, d.placeRecovery m buffer ignore pass store = store { d with
                latestColumn := column
                window := d.window.growWindow elementEnd }
                outOfOrder (elementEnd - m.ldpcCount) elementEnd) := by
  unfold placeRecovery
  dsimp only
  generalize isColumnDeltaNegative (unsignedSub (m.columnStart + m.sumCount) d.latestColumn) =
    outOfOrder
  obtain ⟨column, hcolumn⟩ : ∃ column, (if outOfOrder = true then d else { d with
      latestColumn := addColumns m.columnStart m.sumCount }) = { d with latestColumn := column } := by
    cases outOfOrder
    · exact ⟨_, rfl⟩
    · exact ⟨d.latestColumn, rfl⟩
  rw [hcolumn]
  dsimp only
  generalize d.window.columnToElement (m.columnStart + m.sumCount) = elementEnd
  refine ⟨column, ?_⟩
  split
  · next hempty =>
    split
    · exact .inl rfl
    · next hinOrder =>
      rw [Bool.eq_false_of_not_eq_true hinOrder]
      exact .inr (.inl ⟨Nat.le_zero.mp hempty, rfl⟩)
  next hcount =>
  split
  · exact .inl rfl
  next hneg =>
  split
  · exact .inl rfl
  next hclipped =>
  have husable := And.intro (Bool.eq_false_of_not_eq_true hneg) (Nat.le_of_not_lt hclipped)
  have hpresent : d.window.count ≠ 0 := fun hzero => hcount (Nat.le_of_eq hzero)
  split
  · next hhave =>
    split
    · exact .inl rfl
    split
    · next hfar =>
      exact .inr (.inr ⟨hpresent, _, rfl, husable.1, husable.2, .inl ⟨hhave, hfar, rfl⟩⟩)
    · exact .inl rfl
  next hnew =>
  split
  · exact .inl rfl
  next hsums =>
  exact .inr (.inr ⟨hpresent, _, rfl, husable.1, husable.2,
    .inr ⟨Nat.lt_of_not_le hnew, hsums, _, rfl⟩⟩)

/-- AddRecovery behind the parser. `single` is the packet in the buffer when it holds a copy of
one, `checkedPastThreshold` whether the checked region ends past the removal threshold. -/
def addRecovery (d : Decoder α β) (metadata : RecoveryMetadata) (buffer : β) (single : Option α)
    (checkedPastThreshold : Bool) : Decoder α β :=
  if d.emergencyDisabled then d
  else
    d.placeRecovery metadata buffer id Decoder.removeElements fun d outOfOrder elementStart elementEnd =>
      d.storeRecovery metadata buffer single outOfOrder checkedPastThreshold elementStart elementEnd

/-- The missing elements of the checked region, which starts with the LDPC range of the oldest
recovery packet. -/
def lostElements (d : Decoder α β) (elementStart nextCheckStart : Nat) : List Nat :=
  (List.range' elementStart (nextCheckStart - elementStart)).filter fun e => !d.window.isGot e

def fillLost (d : Decoder α β) (elementStart nextCheckStart : Nat) (data : Nat → α)
    (sumColumnStart sumColumnCount : Nat) : Decoder α β :=
  let lost := d.lostElements elementStart nextCheckStart
  let window := (lost.foldl (fun w e => w.store e (data e)) d.window).iterateNextExpectedElement
    nextCheckStart
  { d with
    sumColumnStart := sumColumnStart
    sumColumnCount := sumColumnCount
    window := window
    recoveredPackets := lost.map fun e => (d.window.elementToColumn e, data e)
    recoveryPackets := deletePacketsBefore window.nextExpectedElement d.recoveryPackets }

/-- A solution of the checked region: BackSubstitution puts the packets in place. The sums it ran
are `sumColumnStart` and `sumColumnCount`. -/
def solve (d : Decoder α β) (elementStart nextCheckStart : Nat) (data : Nat → α)
    (sumColumnStart sumColumnCount : Nat) : Decoder α β :=
  let filled := d.fillLost elementStart nextCheckStart data sumColumnStart sumColumnCount
  if kDecoderRemoveThreshold ≤ nextCheckStart then filled.removeElements else filled

def iterateNextExpected (d : Decoder α β) (elementStart nextCheckStart : Nat) : Bool :=
  (d.lostElements elementStart nextCheckStart).any (· == d.window.nextExpectedElement)

/-- What Decode does: it hands out packets recovered before, solves a region with the next expected
packet in it, gives up for good, or does nothing. -/
inductive Decode : Decoder α β → List (Nat × α) → Decoder α β → Prop where
  | recovered (d : Decoder α β) : d.emergencyDisabled = false → d.hasRecoveredPackets = true →
      Decode d d.recoveredPackets { d with hasRecoveredPackets := false }
  | needMoreData (d : Decoder α β) : Decode d [] d
  | disabled (d : Decoder α β) : Decode d [] d.disable
  | solved (d : Decoder α β) (head : RecoveryPacket β) (nextCheckStart : Nat) (data : Nat → α)
      (sumColumnStart sumColumnCount : Nat) : d.emergencyDisabled = false →
      d.hasRecoveredPackets = false → d.recoveryPackets.head? = some head →
      nextCheckStart ≤ d.window.count →
      d.window.nextExpectedElement ∈ d.lostElements head.elementStart nextCheckStart →
      Decode d
        (d.solve head.elementStart nextCheckStart data sumColumnStart sumColumnCount).recoveredPackets
        (d.solve head.elementStart nextCheckStart data sumColumnStart sumColumnCount)

end Decoder
end Tonk.Siamese
