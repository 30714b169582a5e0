import MikoV2.Lib.Buckets
import MikoV2.Lib.Dict
import MikoV2.Lib.MinQueue
import MikoV2.Lib.PySet
import MikoV2.Lib.Runs
import MikoV2.Lib.Semaphore
import MikoV2.Lib.SortedMap
import MikoV2.Lib.Sqlite
import MikoV2.Lib.Transactions
import MikoV2.Trading.PaperMath
import MikoV2.Trading.Risk
import MikoV2.Store.Tables
import MikoV2.Paper.Manager
import MikoV2.Paper.Moves
import MikoV2.Paper.Table
import MikoV2.Paper.Rows
import MikoV2.Paper.Agreement
import MikoV2.Paper.Failure
import MikoV2.Paper.Restart
import MikoV2.Paper.Finalize
import MikoV2.Paper.Risk
import MikoV2.DataLayer.Seq
import MikoV2.DataLayer.L2Buffer
import MikoV2.DataLayer.Levels
import MikoV2.DataLayer.Holes
import MikoV2.Ws.Manager
import MikoV2.Ws.Steps
import MikoV2.Ws.Synced
import MikoV2.Ws.Epoch
import MikoV2.Ws.Rebase
import MikoV2.Ws.PreSync
import MikoV2.Depth.Runner
import MikoV2.Depth.Steps
import MikoV2.Depth.Sound
import MikoV2.Depth.Increasing
import MikoV2.Depth.Subscribe
import MikoV2.Backtest.ReplayTransport
import MikoV2.Backtest.SignalDetector
import MikoV2.Backtest.Strategy
import MikoV2.Backtest.PositionSim
import MikoV2.Backtest.SimSteps
import MikoV2.Backtest.Candles
import MikoV2.Backtest.OneSymbol
import MikoV2.Backtest.Risk
import MikoV2.Features.MicroTrigger
import MikoV2.Shadow.MicroLoop
import MikoV2.Shadow.Direction
import MikoV2.Observation.State
import MikoV2.Observation.Runner
import MikoV2.Observation.Announced
import MikoV2.Observation.Final
import MikoV2.Universe.Service
import MikoV2.Rotation.Runner
import MikoV2.Rotation.Watched
import MikoV2.Parity.Exit
import MikoV2.Parity.Risk
import MikoV2.Parity.Equity
import MikoV2.Parity.Candles
import MikoV2.Backtest.MultiSymbolRunner
import MikoV2.Backtest.FirstTouch
import MikoV2.Backtest.RunnerExits
import MikoV2.Backtest.Accounting
import MikoV2.Backtest.Entered
import MikoV2.Backtest.Isolation
import MikoV2.Backtest.DataQuality
import MikoV2.Backtest.WalkForward
import MikoV2.Backtest.ExitOrder
import MikoV2.Execution.Pacer
import MikoV2.Execution.Fifo
import MikoV2.Execution.RestGateway
import MikoV2.Execution.Permits
import MikoV2.Execution.Probe
import MikoV2.Execution.Occupied
import MikoV2.Store.Positions
import MikoV2.Store.EquityTracker
import MikoV2.Execution.OrderManager
import MikoV2.Execution.Fills
import MikoV2.Execution.Commits
import MikoV2.Execution.Sizes
import MikoV2.Lib.Follow
import MikoV2.Depth.Batches
import MikoV2.Depth.Bootstrap
import MikoV2.Ohlcv.Runner
import MikoV2.Ohlcv.Replay
import MikoV2.Writer.Tables
import MikoV2.Writer.Calls
import MikoV2.Writer.Pending
import MikoV2.Writer.Rows
import MikoV2.Risk.WhaleRadar
import MikoV2.Risk.Funding
import MikoV2.Writer.Versions
import MikoV2.Execution.WriterFills
import MikoV2.Emergency.Close
import MikoV2.Emergency.Backed
import MikoV2.Risk.SideWriters
import MikoV2.Risk.Portfolio
import MikoV2.Lib.Lock
import MikoV2.Execution.FillLock
import MikoV2.Execution.Deadlock
import MikoV2.Lib.CircuitBreaker
import MikoV2.Alerting.Attempt
import MikoV2.Alerting.Store
import MikoV2.Alerting.Agent
import MikoV2.Alerting.Drain
import MikoV2.Alerting.Coherent
import MikoV2.Alerting.OpenBreaker
import MikoV2.Alerting.HalfOpen
import MikoV2.Alerting.Progress
import MikoV2.Alerting.Writes
import MikoV2.Alerting.Abandoned
import MikoV2.Alerting.Scheduled
import MikoV2.Features.TriggerChain
import MikoV2.Universe.Hysteresis
import MikoV2.Universe.Fetcher
import MikoV2.Lib.BoundedDeque
import MikoV2.Queues.Telemetry
import MikoV2.Queues.DropOldest
import MikoV2.Queues.State
import MikoV2.Rotation.Agreement
import MikoV2.Lib.Regex
import MikoV2.Lib.Substitution
import MikoV2.Alerting.Formatter
import MikoV2.Alerting.Escaped
import MikoV2.Alerting.Lines
import MikoV2.Alerting.Written
import MikoV2.Alerting.Masked
import MikoV2.Lib.Loop
import MikoV2.DataLayer.TrimLoops
import MikoV2.Ws.Malformed
import MikoV2.DataLayer.Slices
import MikoV2.DataLayer.SortedBook
import MikoV2.Features.Deadline
import MikoV2.Lib.Meter
import MikoV2.DataLayer.TokenBucket
import MikoV2.Lib.WaitFor
import MikoV2.Utils.Locks
import MikoV2.Lib.Directory
import MikoV2.Lib.TextFile
import MikoV2.Storage.OrderBookStore
import MikoV2.Emergency.Journal
import MikoV2.Execution.FlushController
import MikoV2.Emergency.SingleFlight
import MikoV2.Lib.Slots
import MikoV2.Execution.Aging
import MikoV2.Execution.Spacing
import MikoV2.Execution.Backlog
import MikoV2.Backtest.Analysed
import MikoV2.Backtest.Checked
import MikoV2.Backtest.ZeroGap
import MikoV2.Backtest.FoldLoop
import MikoV2.Backtest.StreamUnion
import MikoV2.Lib.Ticks
import MikoV2.Backtest.Funding
import MikoV2.Backtest.Settlements
import MikoV2.Parity.Entry
import MikoV2.Lib.Bursts
import MikoV2.Backtest.SignalWindow
import MikoV2.Backtest.Cooldown
import MikoV2.Lib.Greedy
import MikoV2.Backtest.FillModel
import MikoV2.Parity.RiskReward
import MikoV2.Backtest.Coverage
import MikoV2.Alerting.Repeats
import MikoV2.Alerting.RateLimited
import MikoV2.Risk.Bands
import MikoV2.Alerting.Dedup
import MikoV2.DataLayer.SeqRuns
import MikoV2.Universe.Flaps
import MikoV2.Lib.Since
import MikoV2.Universe.Scanner
import MikoV2.Universe.Absence
import MikoV2.Storage.Archiver
import MikoV2.Dashboard.Routes
import MikoV2.Storage.Archived
import MikoV2.Dashboard.Clients
import MikoV2.Dashboard.Resume
import MikoV2.Lib.Series
import MikoV2.Backtest.Rescaled
import MikoV2.Backtest.Reporting
import MikoV2.Lib.Crash
import MikoV2.Storage.Schema
import MikoV2.Backtest.MultiReport
import MikoV2.Lib.Sorting
import MikoV2.Backtest.Engine
import MikoV2.Backtest.LookAhead
import MikoV2.Ws.Client
import MikoV2.Writer.Log
import MikoV2.Dashboard.Panels
import MikoV2.Storage.Housekeeping
import MikoV2.Storage.Deleted
