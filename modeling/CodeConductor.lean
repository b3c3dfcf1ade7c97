import CodeConductor.Async.RelyGuarantee
import CodeConductor.Cleanup.Freshness
import CodeConductor.Cleanup.Representation
import CodeConductor.Console.Idempotency
import CodeConductor.Contracts.Errors
import CodeConductor.Contracts.Freeze
import CodeConductor.Gate.Gated
import CodeConductor.Guardian.Capture
import CodeConductor.Json.Identity
import CodeConductor.Launch.Once
import CodeConductor.Lease.Exclusion
import CodeConductor.Lineage.Closure
import CodeConductor.ModelService.Ownership
import CodeConductor.Provider.Budget
import CodeConductor.Provider.Confinement
import CodeConductor.Provider.WorkerProfile
import CodeConductor.Queue.Greedy
import CodeConductor.Reconcile.Commits
import CodeConductor.Reconcile.Warrants
import CodeConductor.Reservation.Safety
import CodeConductor.Retention.DryRun
import CodeConductor.Review.Seal
import CodeConductor.Runner.Logs
import CodeConductor.Runner.Start
import CodeConductor.Settings.CompareAndSwap
import CodeConductor.Source.RoundTrip
import CodeConductor.Source.Service
import CodeConductor.Source.WatchUpdates
import CodeConductor.Specification.Finalize
import CodeConductor.StartFence.Exclusion
import CodeConductor.Storage.Fence
import CodeConductor.Verification.PatchBytes
import CodeConductor.Verification.PathRules
import CodeConductor.Verification.Proposal
