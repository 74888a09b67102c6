import ZioBenchmarks.Transition.Runs
import ZioBenchmarks.Ring.Circular
import ZioBenchmarks.FutexChannel.State
import ZioBenchmarks.FutexChannel.Control
import ZioBenchmarks.FutexChannel.Step
import ZioBenchmarks.FutexChannel.Invariant
import ZioBenchmarks.FutexChannel.Preservation
import ZioBenchmarks.FutexChannel.Wakeup
import ZioBenchmarks.FutexChannel.Lifetime
import ZioBenchmarks.FutexChannel.History
import ZioBenchmarks.FutexChannel.Representation
import ZioBenchmarks.FutexChannel.Order
import ZioBenchmarks.FutexChannel.Results
import ZioBenchmarks.FutexChannel.Fifo
import ZioBenchmarks.FutexChannel.CancelRequest
import ZioBenchmarks.FutexChannel.Close
import ZioBenchmarks.FutexChannel.CancelErasure
import ZioBenchmarks.Fold.Commutative
import ZioBenchmarks.WorkerPool.Work
import ZioBenchmarks.Fold.Update
import ZioBenchmarks.MutexBench.Counter
import ZioBenchmarks.ConditionBench.Player
import ZioBenchmarks.PingPong.Pair
import ZioBenchmarks.PingPong.Slots
import ZioBenchmarks.PhotonQueue.Queue
import ZioBenchmarks.Memory.Flat
import ZioBenchmarks.FutexChannel.Bytes
import ZioBenchmarks.Search.Occurrences
import ZioBenchmarks.Http.Framing
import ZioBenchmarks.Http.Framer
import ZioBenchmarks.Http.Reads
import ZioBenchmarks.Http.Progress
import ZioBenchmarks.Echo.Pipes
import ZioBenchmarks.Driver.Work
import ZioBenchmarks.Driver.Main
import ZioBenchmarks.Driver.Progress
import ZioBenchmarks.Driver.Outcomes
import ZioBenchmarks.Queue.Flow
import ZioBenchmarks.WorkerPool.Split
import ZioBenchmarks.WorkerPool.CloseBased
import ZioBenchmarks.WorkerPool.Sentinel.Pool
import ZioBenchmarks.WorkerPool.Sentinel.Sending
import ZioBenchmarks.WorkerPool.Sentinel.Receiving
import ZioBenchmarks.WorkerPool.Sentinel.Runs
import ZioBenchmarks.Regex.Matches
import ZioBenchmarks.Decimal.Numeral
import ZioBenchmarks.Decimal.Binary64
import ZioBenchmarks.Bench.Report
import ZioBenchmarks.Bench.ParseMs
import ZioBenchmarks.Tree.Address
import ZioBenchmarks.SpawnTree.Node
import ZioBenchmarks.Transition.Simulation
import ZioBenchmarks.Queue.Bounded
import ZioBenchmarks.WorkerPool.Runtimes
import ZioBenchmarks.FutexChannel.Linearize
import ZioBenchmarks.Tcp.Bulk
import ZioBenchmarks.RwLockBench.Readers
import ZioBenchmarks.Decimal.Accuracy
import ZioBenchmarks.Decimal.Fixed
import ZioBenchmarks.Regex.Scan
import ZioBenchmarks.Bench.Throughput
import ZioBenchmarks.Imperative.Loops
import ZioBenchmarks.Bench.Matrix
import ZioBenchmarks.Transition.Group
import ZioBenchmarks.PingPong.Pairs
import ZioBenchmarks.Sleep.Tasks
import ZioBenchmarks.CpuParallel.Chunks
import ZioBenchmarks.TaskChain.Link
import ZioBenchmarks.Arguments.Numbers
import ZioBenchmarks.Arguments.Programs
import ZioBenchmarks.Arguments.Engines
