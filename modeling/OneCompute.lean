import OneCompute.Contracts.Canonical
import OneCompute.Contracts.Hashing
import OneCompute.Contracts.Models
import OneCompute.Isolation.Containment
import OneCompute.Isolation.Mxc
import OneCompute.Isolation.MxcPolicy
import OneCompute.Isolation.Process
import OneCompute.Isolation.Runner
import OneCompute.Isolation.RunsOnce
import OneCompute.Isolation.Transparent
import OneCompute.Jobkit.Execute
import OneCompute.Jobkit.HashSearch
import OneCompute.Jobkit.Main
import OneCompute.Jobkit.MonteCarlo
import OneCompute.Jobkit.Parallel
import OneCompute.Jobkit.Tiles
import OneCompute.Lib.CanonicalJson
import OneCompute.Lib.Evidence
import OneCompute.Lib.Fallback
import OneCompute.Lib.FixedWindow
import OneCompute.Lib.HashChain
import OneCompute.Lib.Hull
import OneCompute.Lib.Interleaving
import OneCompute.Lib.Json
import OneCompute.Lib.JsonLines
import OneCompute.Lib.JsonRead
import OneCompute.Lib.JsonRoundTrip
import OneCompute.Lib.LargestRemainder
import OneCompute.Lib.Leader
import OneCompute.Lib.Levelling
import OneCompute.Lib.Lists
import OneCompute.Lib.Locking
import OneCompute.Lib.Lockstep
import OneCompute.Lib.Mean
import OneCompute.Lib.Observation
import OneCompute.Lib.Paging
import OneCompute.Lib.PosixPath
import OneCompute.Lib.PyFloat
import OneCompute.Lib.PyFloatDiff
import OneCompute.Lib.PyFloatError
import OneCompute.Lib.PyFloatExact
import OneCompute.Lib.PyFloatRepr
import OneCompute.Lib.PyFloatRound
import OneCompute.Lib.PyMean
import OneCompute.Lib.PyNumber
import OneCompute.Lib.PyText
import OneCompute.Lib.PyTime
import OneCompute.Lib.PyTimeOrder
import OneCompute.Lib.PyValue
import OneCompute.Lib.RelyGuarantee
import OneCompute.Lib.Results
import OneCompute.Lib.RotatingLog
import OneCompute.Lib.Search
import OneCompute.Lib.Sequential
import OneCompute.Lib.Sha256
import OneCompute.Lib.Spans
import OneCompute.Lib.Table
import OneCompute.Lib.TailMean
import OneCompute.Lib.Timeline
import OneCompute.Measurement.Availability
import OneCompute.Measurement.AvailabilityTime
import OneCompute.Measurement.BusinessCase
import OneCompute.Measurement.DeviceSummary
import OneCompute.Measurement.FleetView
import OneCompute.Measurement.Headroom
import OneCompute.Measurement.Readable
import OneCompute.Orchestrator.Answers
import OneCompute.Orchestrator.App
import OneCompute.Orchestrator.Approval
import OneCompute.Orchestrator.Audit
import OneCompute.Orchestrator.AuditChain
import OneCompute.Orchestrator.AuditExport
import OneCompute.Orchestrator.Calls
import OneCompute.Orchestrator.Challenges
import OneCompute.Orchestrator.Commands
import OneCompute.Orchestrator.Deferral
import OneCompute.Orchestrator.DeviceBinding
import OneCompute.Orchestrator.Durability
import OneCompute.Orchestrator.Erasure
import OneCompute.Orchestrator.EventPaging
import OneCompute.Orchestrator.FleetAnswers
import OneCompute.Orchestrator.Flood
import OneCompute.Orchestrator.Gates
import OneCompute.Orchestrator.Ingest
import OneCompute.Orchestrator.JobRows
import OneCompute.Orchestrator.Launch
import OneCompute.Orchestrator.LaunchSize
import OneCompute.Orchestrator.Leases
import OneCompute.Orchestrator.LockedSections
import OneCompute.Orchestrator.Observers
import OneCompute.Orchestrator.Profiles
import OneCompute.Orchestrator.Provenance
import OneCompute.Orchestrator.RateLimit
import OneCompute.Orchestrator.Removal
import OneCompute.Orchestrator.Reports
import OneCompute.Orchestrator.Rollup
import OneCompute.Orchestrator.Routing
import OneCompute.Orchestrator.RoutingPolicy
import OneCompute.Orchestrator.Scheduler
import OneCompute.Orchestrator.Schema
import OneCompute.Orchestrator.SectionSpecs
import OneCompute.Orchestrator.Sections
import OneCompute.Orchestrator.Statements
import OneCompute.Orchestrator.StoreInvariant
import OneCompute.Orchestrator.StoredProfiles
import OneCompute.Orchestrator.TierInfluence
import OneCompute.Orchestrator.Tiers
import OneCompute.Orchestrator.TimeTexts
import OneCompute.Orchestrator.Trail
import OneCompute.Orchestrator.Transitions
import OneCompute.Orchestrator.WorkerRows
import OneCompute.Orchestrator.WorkloadRuns
import OneCompute.Orchestrator.WorkloadView
import OneCompute.Trust.Attestation
import OneCompute.Trust.Challenge
import OneCompute.Trust.Signing
import OneCompute.Worker.Agent
import OneCompute.Worker.Assignment
import OneCompute.Worker.CorruptProfile
import OneCompute.Worker.Governor
import OneCompute.Worker.Learned
import OneCompute.Worker.LiveLease
import OneCompute.Worker.MeasureLoop
import OneCompute.Worker.Measured
import OneCompute.Worker.MeasurementIdentity
import OneCompute.Worker.ProfileFile
import OneCompute.Worker.Profiler
import OneCompute.Worker.Readings
import OneCompute.Worker.Restart
import OneCompute.Worker.Telemetry
import OneCompute.Worker.YieldWatcher
import OneCompute.Workloads.Apportion
import OneCompute.Workloads.Fractal
import OneCompute.Workloads.Hashcrack
import OneCompute.Workloads.Optimize
import OneCompute.Workloads.Outputs
import OneCompute.Workloads.Partition
import OneCompute.Workloads.Pooling
import OneCompute.Workloads.PostedOutputs
import OneCompute.Workloads.Repair
import OneCompute.Workloads.RiskBounds
import OneCompute.Workloads.Specs
import OneCompute.Workloads.Splitting
import OneCompute.Workloads.Streams
import OneCompute.Workloads.Summaries
import OneCompute.Workloads.SummaryJson
import OneCompute.Workloads.Synth
import OneCompute.Workloads.TailBounds
import OneCompute.Workloads.TypedSpecs
