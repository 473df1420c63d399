import Tonk.Siamese.EncoderRefinement
import Tonk.Siamese.RecoveryFooter
import Tonk.Siamese.FullDecoder

set_option autoImplicit false

namespace Tonk.Siamese
open Protocol

def siameseMaxPacketBytes : Nat := 0x1fffffff

/-- The bytes of a recovery packet, with the footer written behind the data. -/
def recoveryPacketBytes (metadata : RecoveryMetadata) (recovery : DataBuffer) : Bytes :=
  recovery.toBytes ++ serializeFooterRecoveryMetadata metadata

def FullEncoder.encodePacket (e : FullEncoder) : FullEncoder × Option Bytes :=
  let (e, made) := e.encode
  (e, made.map fun (metadata, recovery) => recoveryPacketBytes metadata recovery)

/-- siamese_decoder_add_recovery. The decoder takes the packet for broken if it has no footer. -/
def FullDecoder.addRecoveryPacket (f : FullDecoder) (packet : Bytes) (packetEnd : Nat) :
    FullDecoder :=
  if packet.length = 0 ∨ siameseMaxPacketBytes < packet.length then f
  else if f.solver.decoder.emergencyDisabled then f
  else
    match deserializeFooterRecoveryMetadata packet packet.length with
    | none => f.disable
    | some (metadata, footerSize) =>
      f.addRecovery metadata
        ⟨(packet.take (packet.length - footerSize)).map byteElement, packetEnd⟩

theorem DataBuffer.map_byteElement_toBytes (buffer : DataBuffer) :
    buffer.toBytes.map byteElement = buffer := by
  unfold DataBuffer.toBytes
  rw [List.map_map]
  exact List.map_id'' (fun x => rfl) buffer

namespace RecoveryMetadata.InRange

variable {m : RecoveryMetadata}

theorem writable (h : m.InRange) : m.Writable :=
  ⟨h.sum_pos, h.sum_le, h.ldpc_le, h.column_lt, h.row_lt⟩

theorem readable (h : m.InRange) : m.Readable := by
  have hmax : siameseMaxPackets ≤ 2 ^ 15 := by decide
  exact ⟨h.column_lt, h.sum_pos, h.sum_le.trans hmax, h.ldpc_le, h.row_lt⟩

end RecoveryMetadata.InRange

theorem Combines.transmitted {m : RecoveryMetadata} {recovery : DataBuffer} {packets : List Bytes}
    (h : Combines m recovery packets) (hrange : m.InRange) : m.transmitted = m := by
  unfold RecoveryMetadata.transmitted
  split
  · rfl
  · next hfew =>
    have hpos := hrange.sum_pos
    have hone : m.sumCount = 1 := by omega
    have hthreshold : 1 ≤ siameseCauchyThreshold := by decide
    have hldpc := h.few_eq (by omega)
    rw [← h.single_row hone, show 1 = m.ldpcCount by omega]

theorem Combines.read {m : RecoveryMetadata} {recovery : DataBuffer} {packets : List Bytes}
    (h : Combines m recovery packets) (hrange : m.InRange)
    (hsize : (recoveryPacketBytes m recovery).length ≤ siameseMaxPacketBytes) :
    deserializeFooterRecoveryMetadata (recoveryPacketBytes m recovery)
        (recoveryPacketBytes m recovery).length =
      some (m, (serializeFooterRecoveryMetadata m).length) ∧
    ((recoveryPacketBytes m recovery).take ((recoveryPacketBytes m recovery).length -
      (serializeFooterRecoveryMetadata m).length)).map byteElement = recovery := by
  have hmax : siameseMaxPacketBytes < 2 ^ 31 := by decide
  unfold recoveryPacketBytes at hsize ⊢
  have hread := deserializeFooterRecoveryMetadata_serialize hrange.writable recovery.toBytes
    (by omega)
  rw [h.transmitted hrange] at hread
  refine ⟨hread, ?_⟩
  rw [List.length_append, Nat.add_sub_cancel, List.take_left, DataBuffer.map_byteElement_toBytes]

namespace FullDecoder

/-- A packet of the encoder reaches AddRecovery as it was made, unless it is too long to be taken. -/
theorem addRecoveryPacket_made (f : FullDecoder) {m : RecoveryMetadata} {recovery : DataBuffer}
    {packets : List Bytes} (h : Combines m recovery packets) (hrange : m.InRange)
    (packetEnd : Nat) : f.addRecoveryPacket (recoveryPacketBytes m recovery) packetEnd = f ∨
      f.addRecoveryPacket (recoveryPacketBytes m recovery) packetEnd =
        f.addRecovery m ⟨recovery, packetEnd⟩ := by
  unfold addRecoveryPacket
  split
  · exact .inl rfl
  · next hsize =>
    split
    · exact .inl rfl
    · obtain ⟨hread, hdata⟩ := h.read hrange (by omega)
      rw [hread]
      simp only [hdata, or_true]

end FullDecoder

namespace TracedEncoder

/-- Whatever was called before: what AddRecovery reads from the bytes Encode writes are metadata it can
take and the packets of their range, each times its coefficient. -/
theorem recovery_packet_read_back (calls : List EncoderCall) {e' : FullEncoder} {packet : Bytes}
    (hmade : (initial.run calls).encoder.encodePacket = (e', some packet))
    (hsize : packet.length ≤ siameseMaxPacketBytes) :
    ∃ m footerSize, deserializeFooterRecoveryMetadata packet packet.length = some (m, footerSize) ∧
      footerSize ≤ packet.length ∧ m.Readable ∧
      Combines m ((packet.take (packet.length - footerSize)).map byteElement)
        (initial.run calls).packets := by
  have hpacket := congrArg Prod.snd hmade
  obtain ⟨⟨m, recovery⟩, hencoded, rfl⟩ := Option.map_eq_some_iff.mp hpacket
  obtain ⟨hcombines, hrange⟩ := (sane_run calls).encode hencoded
  obtain ⟨hread, hdata⟩ := hcombines.read hrange hsize
  have hlength : (recoveryPacketBytes m recovery).length =
      recovery.toBytes.length + (serializeFooterRecoveryMetadata m).length := List.length_append
  exact ⟨m, _, hread, hlength ▸ Nat.le_add_left _ _, hrange.readable, hdata.symm ▸ hcombines⟩

/-- The recovery packet for two packets: four bytes of data and as many of footer. -/
theorem recovery_packet_read_back_twoPackets : ∃ e',
    (initial.run [.add 0 [1, 2, 3], .add 0 [4, 5]]).encoder.encodePacket =
        (e', some [1, 5, 7, 3, 0, 2, 0, 1]) ∧
      ∃ m footerSize, deserializeFooterRecoveryMetadata [1, 5, 7, 3, 0, 2, 0, 1] 8 =
          some (m, footerSize) ∧
        Combines m (([1, 5, 7, 3, 0, 2, 0, 1].take (8 - footerSize)).map byteElement)
          [[1, 2, 3], [4, 5]] := by
  have hpacket : (initial.run [.add 0 [1, 2, 3], .add 0 [4, 5]]).encoder.encodePacket.2 =
      some [1, 5, 7, 3, 0, 2, 0, 1] := by decide +kernel
  have hmade : (initial.run [.add 0 [1, 2, 3], .add 0 [4, 5]]).encoder.encodePacket =
      ((initial.run [.add 0 [1, 2, 3], .add 0 [4, 5]]).encoder.encodePacket.1,
        some [1, 5, 7, 3, 0, 2, 0, 1]) := by rw [← hpacket]
  obtain ⟨m, footerSize, hread, -, -, hcombines⟩ := recovery_packet_read_back _ hmade (by decide)
  exact ⟨_, hmade, m, footerSize, hread, hcombines⟩

end TracedEncoder
end Tonk.Siamese
