import CexAggregator.Loop
import CexAggregator.Machine
import CexAggregator.Counter64
import CexAggregator.SpscRing
import CexAggregator.RingLossless
import CexAggregator.ConflatingSlot
import CexAggregator.Bisect
import CexAggregator.OrderedTable
import CexAggregator.Circular
import CexAggregator.Positional
import CexAggregator.Computed
import CexAggregator.Fixed
import CexAggregator.FixedParse
import CexAggregator.FixedFormat
import CexAggregator.Book
import CexAggregator.BookUpdate
import CexAggregator.Consolidated
import CexAggregator.MergeUnion
import CexAggregator.MergeSpec
import CexAggregator.Analytics
import CexAggregator.BandWalk
import CexAggregator.BandSweep
import CexAggregator.BandTruncation
import CexAggregator.BandBounds
import CexAggregator.BandVwap
import CexAggregator.BandOrder
import CexAggregator.BandWorst
import CexAggregator.BandRequest
import CexAggregator.BandAnswer
import CexAggregator.BandOverflow
import CexAggregator.MergeArithmetic
import CexAggregator.BandArithmetic
import CexAggregator.ConsolidationArithmetic
import CexAggregator.Json
import CexAggregator.SequenceText
import CexAggregator.Venue
import CexAggregator.History
import CexAggregator.Binance
import CexAggregator.BinanceSound
import CexAggregator.BinanceRace
import CexAggregator.Okx
import CexAggregator.OkxSound
import CexAggregator.Bybit
import CexAggregator.BybitSound
import CexAggregator.Program
import CexAggregator.Url
import CexAggregator.UrlRoundTrip
import CexAggregator.Retry
import CexAggregator.WsConnection
import CexAggregator.ConnectionLifecycle
import CexAggregator.WriteQueue
import CexAggregator.WriteOrder
import CexAggregator.Runner
import CexAggregator.Sequencing
import CexAggregator.FrameBatch
import CexAggregator.BookSafety
import CexAggregator.BinanceArithmetic
import CexAggregator.VenueTime
import CexAggregator.AdapterArithmetic
import CexAggregator.RunnerFrame
import CexAggregator.RunnerRules
import CexAggregator.VenueSystem
import CexAggregator.OneSession
import CexAggregator.NoLoss
import CexAggregator.RateWindow
import CexAggregator.ReconnectPace
import CexAggregator.Engine
import CexAggregator.EngineSystem
import CexAggregator.DrainBudget
import CexAggregator.StreamSystem
import CexAggregator.StreamNewest
import CexAggregator.SeededBooks
import CexAggregator.PublishBound
import CexAggregator.PublishedState
import CexAggregator.LatencyWindow
import CexAggregator.FatalAbsorbing
import CexAggregator.EngineSteps
import CexAggregator.AdapterRuns
import CexAggregator.TrueBooks
import CexAggregator.TruePublications
import CexAggregator.PublicationLedger
import CexAggregator.Heartbeat
import CexAggregator.Subscribers
import CexAggregator.ClientAgreement
import CexAggregator.Unwinding
import CexAggregator.StreamRequests
import CexAggregator.Server
import CexAggregator.Wakefulness
import CexAggregator.Recovery
import CexAggregator.Telemetry
import CexAggregator.Startup
import CexAggregator.Clients
import CexAggregator.Reopening
import CexAggregator.Returning
import CexAggregator.HttpSession
