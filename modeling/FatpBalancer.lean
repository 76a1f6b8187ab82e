import FatpBalancer.AdmissionControl
import FatpBalancer.AdmissionRates
import FatpBalancer.AffinityLoad
import FatpBalancer.AffinityMatrix
import FatpBalancer.AgingEngine
import FatpBalancer.AgingRuns
import FatpBalancer.Balancer.Accounting
import FatpBalancer.Balancer.Destructor
import FatpBalancer.Balancer.DrainOrder
import FatpBalancer.Balancer.DrainPass
import FatpBalancer.Balancer.Errors
import FatpBalancer.Balancer.Fifo
import FatpBalancer.Balancer.Finalization
import FatpBalancer.Balancer.Flood
import FatpBalancer.Balancer.Handles
import FatpBalancer.Balancer.HeldProgress
import FatpBalancer.Balancer.History
import FatpBalancer.Balancer.Holding
import FatpBalancer.Balancer.JobIds
import FatpBalancer.Balancer.Learning
import FatpBalancer.Balancer.Lifecycle
import FatpBalancer.Balancer.Lookup
import FatpBalancer.Balancer.Metrics
import FatpBalancer.Balancer.Moves
import FatpBalancer.Balancer.NotFound
import FatpBalancer.Balancer.Progress
import FatpBalancer.Balancer.Provenance
import FatpBalancer.Balancer.Registration
import FatpBalancer.Balancer.Rejections
import FatpBalancer.Balancer.Rest
import FatpBalancer.Balancer.Retries
import FatpBalancer.Balancer.Routing
import FatpBalancer.Balancer.Running
import FatpBalancer.Balancer.State
import FatpBalancer.Balancer.Step
import FatpBalancer.Balancer.Switching
import FatpBalancer.Balancer.Totals
import FatpBalancer.Balancer.Tracking
import FatpBalancer.Balancer.Unplaced
import FatpBalancer.Calibration
import FatpBalancer.CellAccess
import FatpBalancer.CostModel
import FatpBalancer.Estimates
import FatpBalancer.Floats
import FatpBalancer.HoldingQueue
import FatpBalancer.HoldingRuns
import FatpBalancer.Job
import FatpBalancer.JsonChars
import FatpBalancer.JsonLite
import FatpBalancer.Lib.Allowance
import FatpBalancer.Lib.Answers
import FatpBalancer.Lib.Bands
import FatpBalancer.Lib.BestBy
import FatpBalancer.Lib.Ema
import FatpBalancer.Lib.Emitter
import FatpBalancer.Lib.FirstMin
import FatpBalancer.Lib.HashMap
import FatpBalancer.Lib.Hysteresis
import FatpBalancer.Lib.Ieee
import FatpBalancer.Lib.IeeeRounding
import FatpBalancer.Lib.Machine
import FatpBalancer.Lib.OrderStatistics
import FatpBalancer.Lib.Progress
import FatpBalancer.Lib.RowMajor
import FatpBalancer.Lib.SentinelScan
import FatpBalancer.Lib.Table
import FatpBalancer.Lib.Tally
import FatpBalancer.Lib.TornReads
import FatpBalancer.Lib.TwoBands
import FatpBalancer.Lib.WrappedCycle
import FatpBalancer.Lib.Writes
import FatpBalancer.LoadMetrics
import FatpBalancer.ModelLoad
import FatpBalancer.Persistence
import FatpBalancer.Policies.AffinityRouting
import FatpBalancer.Policies.Chains
import FatpBalancer.Policies.ColdStart
import FatpBalancer.Policies.Composite
import FatpBalancer.Policies.DeadlineSlack
import FatpBalancer.Policies.RoundRobin
import FatpBalancer.Policies.ScoredPolicies
import FatpBalancer.Policies.Selection
import FatpBalancer.Policies.WorkStealing
import FatpBalancer.PredictBounds
import FatpBalancer.RoundTrip
import FatpBalancer.Sim.AdvisorHarness
import FatpBalancer.Sim.AdvisorPipeline
import FatpBalancer.Sim.Alerts
import FatpBalancer.Sim.BalancerDemo
import FatpBalancer.Sim.BandCounters
import FatpBalancer.Sim.Cluster
import FatpBalancer.Sim.ClusterLinks
import FatpBalancer.Sim.ClusterMetrics
import FatpBalancer.Sim.ClusterProgress
import FatpBalancer.Sim.ClusterTotals
import FatpBalancer.Sim.DepthHistory
import FatpBalancer.Sim.EndToEnd
import FatpBalancer.Sim.NodeMetrics
import FatpBalancer.Sim.NodeStates
import FatpBalancer.Sim.NodeTasks
import FatpBalancer.Sim.Recovery
import FatpBalancer.Sim.SimulatedNode
import FatpBalancer.Sim.TelemetrySnapshot
import FatpBalancer.Starvation
import FatpBalancer.Supervisor.BalancerFeatures
import FatpBalancer.Supervisor.FeatureManager
import FatpBalancer.Supervisor.FeatureSupervisor
import FatpBalancer.Supervisor.NNAdvisor
import FatpBalancer.Supervisor.PolicyFactory
import FatpBalancer.Supervisor.SupervisorThreads
import FatpBalancer.TelemetryAdvisor
