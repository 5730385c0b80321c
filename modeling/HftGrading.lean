import HftGrading.Exchange.WireProtocol
import HftGrading.Exchange.Book.PriceMap
import HftGrading.Exchange.Book.PriceMapProbing
import HftGrading.Exchange.Book.PriceMapContents
import HftGrading.Exchange.Book.PriceMapRuns
import HftGrading.Exchange.Book.LimitBook
import HftGrading.Exchange.Book.LevelSearch
import HftGrading.Exchange.Book.LevelQueue
import HftGrading.Exchange.Book.LevelFilling
import HftGrading.Exchange.Book.MatchRounds
import HftGrading.Exchange.Book.BookRep
import HftGrading.Exchange.Book.BookRuns
import HftGrading.Exchange.Book.BestCache
import HftGrading.Exchange.Book.PriorityWalk
import HftGrading.Exchange.Book.PriorityMatching
import HftGrading.Exchange.Book.PriorityResting
import HftGrading.Exchange.Book.OwnedWalk
import HftGrading.Exchange.Engine.EngineState
import HftGrading.Exchange.Engine.EngineSteps
import HftGrading.Exchange.Engine.NoCrossing
import HftGrading.Exchange.Engine.CancelRouting
import HftGrading.Exchange.Engine.CancelRecords
import HftGrading.Exchange.Shadow.ShadowState
import HftGrading.Exchange.Shadow.ShadowReference
import HftGrading.Exchange.Shadow.ShadowScoring
import HftGrading.Exchange.Book.BookMasks
import HftGrading.Exchange.Shadow.LockStep
import HftGrading.Exchange.Engine.ProfitAccounts
import HftGrading.Exchange.Engine.Settlement
import HftGrading.Exchange.Engine.OpenInterest
import HftGrading.Exchange.Engine.Positions
import HftGrading.Exchange.Engine.ZeroSum
import HftGrading.Exchange.Engine.EngineReference
import HftGrading.Exchange.Sequencer.SequencerState
import HftGrading.Exchange.Sequencer.SequencerIntegrity
import HftGrading.Exchange.Sequencer.SequencerOrder
import HftGrading.Fpga.IicpcPkg
import HftGrading.Fpga.MatchEngine.EngineRegisters
import HftGrading.Fpga.MatchEngine.ClockedRuns
import HftGrading.Fpga.MatchEngine.PipelineFlush
import HftGrading.Fpga.MatchEngine.OutputStalls
import HftGrading.Fpga.MatchEngine.MarketableOrders
import HftGrading.Fpga.MatchEngine.BestOfLive
import HftGrading.Fpga.MatchEngine.AckTiming
import HftGrading.Fpga.MatchEngine.QuantityAccounts
import HftGrading.Fpga.Sequencer.DmaRing
import HftGrading.Fpga.Sequencer.RingOccupancy
import HftGrading.Fpga.Sequencer.SequencerCore
import HftGrading.Fpga.Sequencer.TotalOrder
import HftGrading.Fpga.Sequencer.OrderParser
import HftGrading.Fpga.Sequencer.SequencerTop
import HftGrading.Fpga.Sequencer.TopRuns
import HftGrading.Fpga.Sequencer.Attribution
import HftGrading.Fpga.Sequencer.StoredOrders
import HftGrading.Sandbox.WireBytes
import HftGrading.Sandbox.BridgeState
import HftGrading.Sandbox.ShadowFeed
import HftGrading.Sandbox.ResponseFraming
import HftGrading.Sandbox.LatencyRecords
import HftGrading.Sandbox.ThroughputFraction
import HftGrading.Sandbox.JsonEscape
import HftGrading.Exchange.Book.PlainLookup
import HftGrading.Exchange.Book.LevelExhaustion
import HftGrading.Exchange.Book.OfferedQuantity
import HftGrading.Exchange.Engine.FillAccounts
import HftGrading.Core.RingBuffer
import HftGrading.Loadgen.ShmEngine
import HftGrading.Loadgen.ShmLoop
import HftGrading.Web.BlendedScores
import HftGrading.Web.ReportParser
import HftGrading.Web.ReportReading
import HftGrading.Exchange.Shadow.ValidationAccounts
import HftGrading.Exchange.Book.CellBounds
import HftGrading.Exchange.Engine.OutboundDelivery
import HftGrading.Exchange.Engine.Acknowledgements
import HftGrading.Exchange.Engine.SignedRange
import HftGrading.Exchange.Engine.MarkPrice
import HftGrading.Exchange.Audit.CorrectnessValidator
import HftGrading.Exchange.Audit.CleanLogs
import HftGrading.Exchange.Audit.AuditVerdict
import HftGrading.Sdk.GatewayClient
import HftGrading.Exchange.Gateway.ReceiveLoop
import HftGrading.Loadgen.BlastGenerator
import HftGrading.Loadgen.BlasterBookkeeping
import HftGrading.Loadgen.BlasterCounts
import HftGrading.Fpga.Sequencer.RoundRobin
import HftGrading.Loadgen.LimitPrices
import HftGrading.Fpga.Sequencer.LosslessParser
import HftGrading.Core.Spinlock
import HftGrading.Core.SequenceLock
import HftGrading.Core.Arena
import HftGrading.Core.MpscQueue
import HftGrading.Core.FlatHashMap
import HftGrading.Core.FlatHashMapRuns
import HftGrading.Core.Histogram
import HftGrading.Core.Percentiles
import HftGrading.Exchange.Book.Conservation
import HftGrading.Fpga.Sequencer.HostReads
import HftGrading.Web.AuthLimiter
import HftGrading.Web.SystemTestStarts
import HftGrading.Web.SystemTests
import HftGrading.Loadgen.RawDraws
