import Herdr.Lib.Transaction
import Herdr.Lib.Table
import Herdr.Lib.Run
import Herdr.Domain.Text
import Herdr.Domain.Records
import Herdr.Domain.Launch
import Herdr.Store.Basic
import Herdr.Store.Approvals
import Herdr.Store.Delivery
import Herdr.Store.Launch
import Herdr.Store.Reservations
import Herdr.Store.Scheduler
import Herdr.Store.WorkerTermination
import Herdr.Store.Calls
import Herdr.Verify.Approvals
import Herdr.Verify.Delivery
import Herdr.Verify.Launch
import Herdr.Verify.Reservations
import Herdr.Lib.Fencing
import Herdr.Verify.Effects
import Herdr.Verify.Fencing
import Herdr.Verify.SingleUse
import Herdr.Verify.Attempts
import Herdr.Verify.Cancellation
import Herdr.Lib.Matching
import Herdr.Verify.Ownership
import Herdr.Lib.Log
import Herdr.Verify.Evidence
import Herdr.Lib.Slots
import Herdr.Store.Satisfaction
import Herdr.Verify.Satisfaction
import Herdr.Lib.Patch
import Herdr.Telemetry.Cost
import Herdr.Verify.Valuations
import Herdr.Domain.Contract
import Herdr.Lib.Segments
import Herdr.Store.Contracts
import Herdr.Verify.Scope
import Herdr.Lib.Watermark
import Herdr.Store.Findings
import Herdr.Store.FindingState
import Herdr.Store.FixState
import Herdr.Store.Fixes
import Herdr.Verify.Ledgers
import Herdr.Verify.Findings
import Herdr.Verify.Resolutions
import Herdr.Store.IntegrationJobs
import Herdr.Verify.IntegrationJobs
import Herdr.Store.Objects
import Herdr.Verify.Objects
import Herdr.Lib.Topological
import Herdr.Verify.DependencyGraph
import Herdr.Store.Plans
import Herdr.Store.Proposals
import Herdr.Verify.Proposals
import Herdr.Store.Replans
import Herdr.Verify.Replans
import Herdr.Lib.Cursor
import Herdr.Store.Waits
import Herdr.Verify.Waits
import Herdr.Store.Releases
import Herdr.Verify.Releases
import Herdr.Store.Delegation
import Herdr.Verify.Delegation
import Herdr.Lib.Steps
import Herdr.Store.ReadSets
import Herdr.Verify.ReadSets
import Herdr.Store.Updates
import Herdr.Verify.Retirement
import Herdr.Verify.UpdatePackages
import Herdr.Store.CandidateGroups
import Herdr.Verify.IntegrationQueue
import Herdr.Verify.CandidateGroups
import Herdr.Lib.Rotation
import Herdr.Runtime.FairAdmission
import Herdr.Verify.FairAdmission
import Herdr.Lib.Windows
import Herdr.Runtime.Schedule
import Herdr.Verify.Schedule
import Herdr.Runtime.Executor
import Herdr.Verify.Executor
import Herdr.Runtime.CopyQueue
import Herdr.Verify.CopyQueue
import Herdr.Telemetry.Price
import Herdr.Verify.Prices
import Herdr.Verify.Credit
import Herdr.Verify.CanonicalFindings
import Herdr.Lib.Views
import Herdr.Store.ResourceIndexes
import Herdr.Verify.ResourceIndexes
import Herdr.Store.VerificationJobs
import Herdr.Verify.ProjectRounds
import Herdr.Verify.DependencyCheck
import Herdr.Telemetry.Ledger
import Herdr.Verify.RepeatedResponses
import Herdr.Lib.Grouping
import Herdr.Telemetry.ModelSegments
import Herdr.Verify.ModelSegments
import Herdr.Telemetry.Quota
import Herdr.Lib.Folds
import Herdr.Verify.Quota
import Herdr.Verify.Onward
import Herdr.Verify.IdleTargets
import Herdr.Lib.GraphSearch
import Herdr.Store.ContractGraph
import Herdr.Verify.ContractGraph
import Herdr.Lib.Greedy
import Herdr.Store.Snapshots
import Herdr.Verify.Snapshots
import Herdr.Store.BarrierRelease
import Herdr.Verify.BarrierRelease
import Herdr.Store.QueueReport
import Herdr.Verify.QueueReport
import Herdr.Lib.Generator
import Herdr.Telemetry.Estimators
import Herdr.Verify.Estimators
import Herdr.Lib.Keyset
import Herdr.Store.AdmissionScan
import Herdr.Verify.AdmissionScan
import Herdr.Lib.Progress
import Herdr.Verify.CopyFairness
import Herdr.Verify.CopyStarvation
import Herdr.Lib.Csv
import Herdr.Domain.Value
import Herdr.Telemetry.ExportCsv
import Herdr.Verify.ExportCsv
import Herdr.Lib.Hex
import Herdr.Telemetry.ExportCursor
import Herdr.Verify.ExportCursor
import Herdr.Lib.FileTree
import Herdr.Runtime.ArtifactStream
import Herdr.Verify.ArtifactStream
