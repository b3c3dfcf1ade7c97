import Mathlib.Data.List.Sort
import CodeConductor.Contracts.Queue

/-!
# Job contracts

The frozen request of a job: the repository it starts from, the adapter that works on it, the
boundary its commands run in, and the resource budget every later check is made against. The type
follows `jobContractSchema`; the texts only the worker is told are left out, and of the command
lists the number is kept.
-/

namespace CodeConductor

/-- `resourceBudgetSchema`, the limits the runtime compares with. -/
structure ResourceBudget where
  maxAttemptsPerJob : ℕ
  maxAutomaticRetries : ℕ
  maxLineageContributions : ℕ
  maxExternalResources : ℕ
  maxArtifactBytes : ℕ
  deriving DecidableEq, Repr

/-- `executionBoundaryContractSchema`: commands run in the worktree on the host, or in containers
of a frozen sandbox profile. -/
inductive ExecutionBoundary where
  | hostWorktree
  | externalSandbox (driver profileId profileFingerprint image : String)
  deriving DecidableEq, Repr

/-- `jobContractSchema`. -/
structure JobContract where
  jobId : JobId
  requestFingerprint : String
  repositoryRoot : String
  baseRevision : String
  adapterId : String
  setupCommands : ℕ
  acceptanceCommands : ℕ
  boundary : ExecutionBoundary
  retainWorkspace : Bool
  resources : ResourceBudget
  deriving DecidableEq, Repr

/-- `options.priority` and `options.dependsOnJobIds` of an enqueued request. -/
structure QueueOptions where
  priority : Int
  dependsOnJobIds : List JobId
  deriving DecidableEq, Repr

/-- The item `QueueStore.enqueue` writes for a contract: queued, depending on the declared jobs
without repetition and in order. -/
def createQueueItem (jobId : JobId) (options : QueueOptions) (now : Timestamp) : QueueItem where
  jobId := jobId
  status := .queued
  priority := options.priority
  dependsOnJobIds := options.dependsOnJobIds.eraseDups.insertionSort (· ≤ ·)
  createdAt := now
  updatedAt := now

end CodeConductor
