import Tonk.Lib.Run
import Tonk.Lib.Search
import Tonk.Lib.Serial
import Tonk.Lib.LittleEndian
import Tonk.Protocol.Frame
import Tonk.Protocol.Footer
import Tonk.Session.OutgoingQueue
import Tonk.Session.Reassembly
import Tonk.Session.Compression
import Tonk.Session.Messages
import Tonk.Session.Flush
import Tonk.Session.StrikeRegister
import Tonk.Session.Nonce
import Tonk.Session.Replay
import Tonk.Session.SimpleCipher
import Tonk.Session.Datagram
import Tonk.Session.RoundTrip
import Tonk.Session.Feedback
import Tonk.Siamese.Common
import Tonk.Siamese.Serializers
import Tonk.Siamese.DecoderWindow
import Tonk.Siamese.EncoderWindow
import Tonk.Siamese.Acknowledgement
import Tonk.Siamese.Decoder
import Tonk.Siamese.Encoder
import Tonk.Siamese.EncoderPositions
import Tonk.Siamese.DecoderPositions
import Tonk.Siamese.Link
import Tonk.Siamese.RowKind
import Tonk.Session.PostAcknowledgements
import Tonk.Session.LastAck
import Tonk.Socket.AddressMaps
import Tonk.Session.ReliableLink
import Tonk.Siamese.DecoderContents
import Tonk.Session.InOrder
import Tonk.Session.Overtaken
import Tonk.Session.Delivery
import Tonk.Session.Unordered
import Tonk.Lib.Elimination
import Tonk.Lib.GF256
import Tonk.Siamese.Coefficients
import Tonk.Siamese.RecoveryMatrix
import Tonk.Siamese.Substitution
import Tonk.Siamese.LostPackets
import Tonk.Siamese.Solver
import Tonk.Siamese.RegionMatrix
import Tonk.Siamese.Attempt
import Tonk.Siamese.CheckedRegion
import Tonk.Siamese.Completeness
import Tonk.Siamese.RegionMoved
import Tonk.Siamese.SolverInvariant
import Tonk.Siamese.DecodeRuns
import Tonk.Lib.Cauchy
import Tonk.Siamese.CauchyRows
import Tonk.Siamese.LatestColumn
import Tonk.Siamese.Buffers
import Tonk.Siamese.EncoderSums
import Tonk.Siamese.EncoderSumRuns
import Tonk.Siamese.EncoderPackets
import Tonk.Siamese.Retransmit
import Tonk.Siamese.EncoderRuns
import Tonk.Siamese.DecoderSums
import Tonk.Siamese.DecoderSumRuns
import Tonk.FileTransfer.Sender
import Tonk.Protocol.P2PConnect
import Tonk.FileTransfer.Cancellation
import Tonk.Gateway.PortMapping
import Tonk.Socket.FloodControl
import Tonk.Protocol.Counter
import Tonk.Siamese.RecoveryFooter
import Tonk.Lib.LinearProbing
import Tonk.Socket.LightHashMap
import Tonk.Lib.LinkedList
import Tonk.Siamese.RecoveryPacketList
import Tonk.Session.ClockOffset
import Tonk.Session.QueueAccounting
import Tonk.Siamese.RetransmitChoice
import Tonk.Siamese.RetransmitRuns
import Tonk.Siamese.AcknowledgementSafety
import Tonk.FileTransfer.HeaderRoundTrip
import Tonk.Session.Keystream
import Tonk.FileTransfer.Cuts
import Tonk.Gateway.ValidPorts
import Tonk.Session.ProbeBudget
import Tonk.Siamese.WindowedExtremum
import Tonk.Session.QueueingDelay
import Tonk.Session.FlushRuns
import Tonk.Session.FlushRefinement
import Tonk.Session.Sending
import Tonk.PktAlloc.CustomBitSet
import Tonk.PktAlloc.PacketAllocator
import Tonk.PktAlloc.Regions
import Tonk.PktAlloc.Heap
import Tonk.PktAlloc.Integrity
import Tonk.Lib.Mantissa
import Tonk.Session.FixedPoint
import Tonk.Gateway.ParsedURL
import Tonk.Session.RateControl
import Tonk.Session.RecoverySendCount
import Tonk.Socket.ConnectionIds
import Tonk.Socket.FloodCounts
import Tonk.Socket.FloodHistory
import Tonk.Session.BandwidthEstimator
import Tonk.Gf256.BulkOperations
import Tonk.Siamese.WindowBits
import Tonk.Siamese.WindowScans
import Tonk.Siamese.EncoderRows
import Tonk.Siamese.CoefficientAgreement
import Tonk.Siamese.SumState
import Tonk.Siamese.EliminatedRows
import Tonk.Siamese.RecoveredPackets
import Tonk.Siamese.RecoveredRegion
import Tonk.Siamese.FullDecoder
import Tonk.Siamese.SumRemoval
import Tonk.Siamese.DecodedPackets
import Tonk.Siamese.DecodedRegion
import Tonk.Siamese.EncoderRefinement
import Tonk.Siamese.RecoveryWire
import Tonk.Siamese.FullLink
