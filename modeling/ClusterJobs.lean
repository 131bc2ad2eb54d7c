import ClusterJobs.Program
import ClusterJobs.Sweep
import ClusterJobs.StatRecord
import ClusterJobs.Rules
import ClusterJobs.Checkpoints
import ClusterJobs.Process
import ClusterJobs.Scheduler
import ClusterJobs.Consistency
import ClusterJobs.Operations
import ClusterJobs.MainLoop
import ClusterJobs.Completion
import ClusterJobs.Ticks
import ClusterJobs.Parallel
import ClusterJobs.RandomMode
import ClusterJobs.DefinedMode
import ClusterJobs.BatchEnds
import ClusterJobs.ExitStatus
import ClusterJobs.Ports
import ClusterJobs.RoundTrip
import ClusterJobs.Greedy
import ClusterJobs.Selection
import ClusterJobs.ThreadOrder
import ClusterJobs.Progress
import ClusterJobs.AppCommands
import ClusterJobs.SharedInput
import ClusterJobs.Startup
import ClusterJobs.CacheOrder
import ClusterJobs.LatestImage
import ClusterJobs.Retirement
import ClusterJobs.FillLoop
import ClusterJobs.Runners
import ClusterJobs.Restarts
import ClusterJobs.Coordinator
import ClusterJobs.Barrier
import ClusterJobs.VirtualPids
import ClusterJobs.Computation
import ClusterJobs.CoordinatorRuns
import ClusterJobs.RestartEnv
import ClusterJobs.ModifyEnv
import ClusterJobs.EnvSyntax
import ClusterJobs.StatEnv
import ClusterJobs.SpaceTime
import ClusterJobs.StencilProbe
import ClusterJobs.StencilOrders
import ClusterJobs.ObliviousWalk
import ClusterJobs.Filling
import ClusterJobs.CircularQueue
import ClusterJobs.GhostRows
