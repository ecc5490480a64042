import SwiftAgg.ForStd.Bytes
import SwiftAgg.ForStd.Coroutine
import SwiftAgg.ForStd.Dict
import SwiftAgg.ForStd.Except
import SwiftAgg.ForStd.Framing
import SwiftAgg.ForStd.Interpolation
import SwiftAgg.ForStd.Layout
import SwiftAgg.ForStd.List
import SwiftAgg.ForStd.PairSum
import SwiftAgg.ForStd.PartialRun
import SwiftAgg.ForStd.RelyGuarantee
import SwiftAgg.ForStd.Turns
import SwiftAgg.ForStd.Sampling
import SwiftAgg.ForStd.PingPong
import SwiftAgg.ForStd.Barrett
import SwiftAgg.ForStd.WordLoop
import SwiftAgg.ForStd.BlockStream
import SwiftAgg.ForStd.Counter
import SwiftAgg.ForStd.PaddedChunks
import SwiftAgg.ForStd.Bits
import SwiftAgg.ForStd.ByteMemory
import SwiftAgg.ForStd.PairMask
import SwiftAgg.ForStd.Lcg
import SwiftAgg.ForStd.Agreement
import SwiftAgg.ForStd.WorkQueue
import SwiftAgg.Native.Gf3329
import SwiftAgg.Native.Shamir
import SwiftAgg.Native.Types
import SwiftAgg.Native.KemAdapter
import SwiftAgg.Native.MaskProtocol
import SwiftAgg.Native.StateMachine
import SwiftAgg.Native.ContextLayout
import SwiftAgg.Native.PacketCodec
import SwiftAgg.Native.Timeouts
import SwiftAgg.Native.Impairment
import SwiftAgg.Native.DmaTransport
import SwiftAgg.Native.DmaBackends
import SwiftAgg.Native.KemCalls
import SwiftAgg.Native.Scratchpad
import SwiftAgg.Native.StreamAggregator
import SwiftAgg.Native.DropoutProtocol
import SwiftAgg.Native.Hkdf
import SwiftAgg.Native.MaskPrg
import SwiftAgg.Native.CryptoMemory
import SwiftAgg.Native.Transport
import SwiftAgg.Native.BufferedAggregator
import SwiftAgg.Native.ProtocolBuffer
import SwiftAgg.Native.Tasks
import SwiftAgg.Host.ShamirRecovery
import SwiftAgg.Host.RoundState
import SwiftAgg.Host.BaselineServer
import SwiftAgg.Host.FlowerServer
import SwiftAgg.Host.Telemetry
import SwiftAgg.Host.Runs
import SwiftAgg.Host.Connection
import SwiftAgg.Host.NdArray
import SwiftAgg.Host.ProtocolBridge
import SwiftAgg.Spec.Field
import SwiftAgg.Spec.Gf3329Correct
import SwiftAgg.Spec.ShamirShareCorrect
import SwiftAgg.Spec.ReconstructCorrect
import SwiftAgg.Spec.ShamirInterop
import SwiftAgg.Spec.ShamirRoundTrip
import SwiftAgg.Spec.KeyDerivation
import SwiftAgg.Spec.MaskCorrect
import SwiftAgg.Spec.MaskWords
import SwiftAgg.Spec.MaskCancellation
import SwiftAgg.Spec.StateMachineStep
import SwiftAgg.Spec.PeerCopy
import SwiftAgg.Spec.KeyAgreement
import SwiftAgg.Spec.SeedProvenance
import SwiftAgg.Spec.FedAvgCorrect
import SwiftAgg.Spec.Aggregation
import SwiftAgg.Spec.DropoutRecovery
import SwiftAgg.Spec.WireFormat
import SwiftAgg.Spec.HostErrors
import SwiftAgg.Spec.ServerStep
import SwiftAgg.Spec.ServerInvariant
import SwiftAgg.Spec.RoundProgress
import SwiftAgg.Spec.StoredChunks
import SwiftAgg.Spec.Broadcast
import SwiftAgg.Spec.RoundCompletion
import SwiftAgg.Spec.DeliveredAverage
import SwiftAgg.Spec.RoundFinality
import SwiftAgg.Spec.Interleaving
import SwiftAgg.Spec.KeySetup
import SwiftAgg.Spec.OrderIndependence
import SwiftAgg.Spec.FailedRounds
import SwiftAgg.Spec.ConcurrentRegistration
import SwiftAgg.Spec.HeaderCodec
import SwiftAgg.Spec.PacketCodecCorrect
import SwiftAgg.Spec.StreamFraming
import SwiftAgg.Spec.ClientProgress
import SwiftAgg.Spec.PhaseOrder
import SwiftAgg.Spec.MaskStream
import SwiftAgg.Spec.StreamAccounting
import SwiftAgg.Spec.ModelStream
import SwiftAgg.Spec.TerminalStates
import SwiftAgg.Spec.DropoutDetection
import SwiftAgg.Spec.PeerTable
import SwiftAgg.Spec.CopyBounds
import SwiftAgg.Spec.DomainSeparation
import SwiftAgg.Spec.KemVariants
import SwiftAgg.Spec.DmaReceive
import SwiftAgg.Spec.DmaTransmit
import SwiftAgg.Spec.DmaHandover
import SwiftAgg.Spec.TelemetryRecord
import SwiftAgg.Spec.ShamirSecrecy
import SwiftAgg.Spec.ReconstructExact
import SwiftAgg.Spec.ShareEvaluation
import SwiftAgg.Spec.ShareCleanup
import SwiftAgg.Spec.ByteShares
import SwiftAgg.Spec.SharedStreams
import SwiftAgg.Spec.MaskInverse
import SwiftAgg.Spec.RecoveredMask
import SwiftAgg.Spec.MaskRegeneration
import SwiftAgg.Spec.DropoutUnmask
import SwiftAgg.Spec.HkdfExpand
import SwiftAgg.Spec.Keystream
import SwiftAgg.Spec.KeystreamRequests
import SwiftAgg.Spec.ChunkFootprint
import SwiftAgg.Spec.SeedSymmetry
import SwiftAgg.Spec.PublicView
import SwiftAgg.Spec.SampleCounts
import SwiftAgg.Spec.ModelChunks
import SwiftAgg.Spec.FlowerAverage
import SwiftAgg.Spec.SignedParameters
import SwiftAgg.Spec.ChunkCount
import SwiftAgg.Spec.ConstantTime
import SwiftAgg.Spec.LatencyBounds
import SwiftAgg.Spec.SocketSlots
import SwiftAgg.Spec.BufferedRounds
import SwiftAgg.Spec.ProtocolBuffer
import SwiftAgg.Spec.MaskSecrecy
import SwiftAgg.Spec.PacketLoss
import SwiftAgg.Spec.KeySetupWrites
import SwiftAgg.Spec.ServerFrames
import SwiftAgg.Spec.BridgeAggregation
import SwiftAgg.Spec.BridgeHandlers
import SwiftAgg.Spec.BridgeRuns
import SwiftAgg.Spec.MaskedRounds
import SwiftAgg.Spec.EmptyRounds
import SwiftAgg.Spec.Deployment
import SwiftAgg.Spec.OracleSecrecy
import SwiftAgg.Spec.KeystreamEpochs
import SwiftAgg.Spec.TaskRuns
import SwiftAgg.Spec.WorkerRuns
