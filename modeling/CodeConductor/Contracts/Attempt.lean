import Mathlib.Data.List.Basic

/-!
# Attempt manifests

The record one execution of a job leaves behind: its status, who launched it, the process tree it
owns, the proposals it builds on, and how it ended. The type follows `attemptManifestSchema`;
fields no operation of the runtime reads back (the invocation and the worker profile) are left
out.

## Identities

An attempt id is `<jobId>_a<ordinal>`, and every store path is recovered from it by cutting at the
last `_a`. `AttemptId` keeps the two parts instead of the text, so the cut is a projection. Random
UUIDs are natural numbers drawn from a counter; instants are natural numbers.
-/

namespace CodeConductor

/-- A job id; the queue has at most one item for it. -/
abbrev JobId := String

/-- A random UUID. -/
abbrev Uuid := ℕ

/-- An instant. -/
abbrev Timestamp := ℕ

/-- The decimal digits of `n`, padded with zeros on the left to at least `width` characters. -/
def padStart (width n : ℕ) : String :=
  let digits := Nat.toDigits 10 n
  String.ofList (List.replicate (width - digits.length) '0' ++ digits)

/-- The identity of an attempt: the job it belongs to and its place among the job's attempts. -/
structure AttemptId where
  jobId : JobId
  ordinal : ℕ
  deriving DecidableEq, Repr

/-- The text of an attempt id. -/
def AttemptId.text (id : AttemptId) : String := id.jobId ++ "_a" ++ padStart 4 id.ordinal

instance : ToString AttemptId := ⟨AttemptId.text⟩

/-- `attemptStatusSchema`. -/
inductive AttemptStatus where
  | reserved | claimed | preparing | running | verifying
  | completed | failed | needsInput | cancelled
  deriving DecidableEq, Repr

/-- The text of a status. -/
def AttemptStatus.text : AttemptStatus → String
  | reserved => "reserved"
  | claimed => "claimed"
  | preparing => "preparing"
  | running => "running"
  | verifying => "verifying"
  | completed => "completed"
  | failed => "failed"
  | needsInput => "needs-input"
  | cancelled => "cancelled"

instance : ToString AttemptStatus := ⟨AttemptStatus.text⟩

/-- `isAttemptTerminal`: no transition leaves the status. -/
def AttemptStatus.isTerminal : AttemptStatus → Bool
  | completed | failed | needsInput | cancelled => true
  | reserved | claimed | preparing | running | verifying => false

/-- The statuses of an attempt that has not been launched. -/
def AttemptStatus.isUnlaunched : AttemptStatus → Bool
  | reserved | claimed => true
  | _ => false

/-- `allowedAttemptTransitions`. -/
def AttemptStatus.allowed : AttemptStatus → List AttemptStatus
  | reserved => [reserved, claimed, cancelled]
  | claimed => [claimed, preparing, cancelled, failed]
  | preparing => [preparing, running, needsInput, failed, cancelled]
  | running => [running, verifying, failed, cancelled]
  | verifying => [verifying, completed, failed, cancelled]
  | completed => []
  | failed => []
  | needsInput => []
  | cancelled => []

/-- `attemptLaunchOwnerSchema`: the Conductor instance that claimed the attempt. -/
structure LaunchOwner where
  instanceId : Uuid
  processId : ℕ
  claimedAt : Timestamp
  deriving DecidableEq, Repr

/-- How a process tree is held together. -/
inductive ContainmentKind where
  | windowsJob | posixProcessGroup
  deriving DecidableEq, Repr

/-- `processContainmentSchema`. -/
structure ProcessContainment where
  kind : ContainmentKind
  ownerPid : ℕ
  kernelEnforced : Bool
  killOnOwnerClose : Bool
  deriving DecidableEq, Repr

/-- `processGuardianIdentitySchema`: version 2 identities carry a containment, version 1 ones do
not. -/
structure ProcessGuardianIdentity where
  nonce : Uuid
  guardianPid : ℕ
  parentPid : ℕ
  createdAt : Timestamp
  workerPid : Option ℕ := none
  containment : Option ProcessContainment := none
  deriving DecidableEq, Repr

/-- The status of a termination or of a cleanup observation. -/
inductive EvidenceStatus where
  | proven | failed | unknown
  deriving DecidableEq, Repr

/-- The text of an evidence status. -/
def EvidenceStatus.text : EvidenceStatus → String
  | proven => "proven"
  | failed => "failed"
  | unknown => "unknown"

instance : ToString EvidenceStatus := ⟨EvidenceStatus.text⟩

/-- The method recorded with a termination. -/
inductive TerminationMethod where
  | notStarted | windowsJobTerminateAndEmpty | windowsJobOwnerExit
  | posixProcessGroupEmpty | guardianExitUnverified
  deriving DecidableEq, Repr

/-- `processTerminationEvidenceSchema`. -/
structure ProcessTermination where
  status : EvidenceStatus
  method : TerminationMethod
  observedAt : Timestamp
  detail : Option String := none
  deriving DecidableEq, Repr

/-- The stream that exceeded its limit. -/
inductive OutputStream where
  | stdout | stderr
  deriving DecidableEq, Repr

/-- The text of a stream name. -/
def OutputStream.text : OutputStream → String
  | stdout => "stdout"
  | stderr => "stderr"

instance : ToString OutputStream := ⟨OutputStream.text⟩

/-- The recorded excess of a bounded log. -/
structure OutputLimit where
  stream : OutputStream
  limitBytes : ℕ
  observedBytes : ℕ
  deriving DecidableEq, Repr

/-- `processExecutionResultSchema`, without the fields the runtime only stores. -/
structure ProcessResult where
  exitCode : Option Int
  timedOut : Bool
  cancelled : Bool
  outputLimit : Option OutputLimit := none
  termination : ProcessTermination
  deriving DecidableEq, Repr

/-- `proposalContributionSchema`: one proposal a lineage builds on, bound by hashes. -/
structure ProposalContribution where
  jobId : JobId
  attemptId : AttemptId
  jobRequestFingerprint : String
  sourceBaseRevision : String
  patchBaseRevision : String
  patchPath : String
  patchSha256 : String
  patchBytes : ℕ
  verificationPath : String
  verificationSha256 : String
  deriving DecidableEq, Repr

/-- The state of a lineage's composition. -/
inductive LineageStatus where
  | pending | composed | rejected
  deriving DecidableEq, Repr

/-- `proposalLineageSchema`. -/
structure ProposalLineage where
  sourceBaseRevision : String
  directParentAttemptIds : List AttemptId
  contributions : List ProposalContribution
  status : LineageStatus
  derivedRevision : Option String := none
  composedAt : Option Timestamp := none
  failure : Option String := none
  deriving DecidableEq, Repr

/-- Whether an external resource may still exist. -/
inductive ExternalResourceStatus where
  | active | released
  deriving DecidableEq, Repr

/-- `externalResourceSchema`, without the cleanup command, which is reconstructed. -/
structure ExternalResource where
  resourceId : String
  driver : String
  profileId : String
  profileFingerprint : String
  image : String
  status : ExternalResourceStatus
  registeredAt : Timestamp
  releasedAt : Option Timestamp := none
  deriving DecidableEq, Repr

/-- `failureKindSchema`. -/
inductive FailureKind where
  | invalidJob | adapterUnavailable | workspaceFailed | setupFailed | spawnFailed | workerExit
  | proposalCaptureFailed | timeout | resourceLimit | cancelled | orphaned | compositionFailed
  | orchestratorError
  deriving DecidableEq, Repr

/-- Why an attempt did not complete. -/
structure AttemptFailure where
  kind : FailureKind
  message : String
  deriving DecidableEq, Repr

/-- The worktree of an attempt. -/
structure AttemptWorkspace where
  path : String
  baseRevision : String
  retained : Bool
  deriving DecidableEq, Repr

/-- The paths of an attempt's evidence. -/
structure AttemptArtifacts where
  job : String
  manifest : String
  stdout : String
  stderr : String
  proposalPatch : String
  repositoryStatus : String
  changedPaths : String
  verification : String
  cleanup : Option String := none
  deriving DecidableEq, Repr

/-- What the review authority said of a proposal. -/
inductive ReviewDisposition where
  | notRequested | pending | accepted | rejected | superseded
  deriving DecidableEq, Repr

/-- The text of a disposition. -/
def ReviewDisposition.text : ReviewDisposition → String
  | notRequested => "not-requested"
  | pending => "pending"
  | accepted => "accepted"
  | rejected => "rejected"
  | superseded => "superseded"

instance : ToString ReviewDisposition := ⟨ReviewDisposition.text⟩

/-- What deterministic verification concluded. -/
inductive VerificationStatus where
  | notRun | running | eligible | ineligible
  deriving DecidableEq, Repr

/-- `attemptManifestSchema`. -/
structure AttemptManifest where
  attemptId : AttemptId
  adapterId : String
  status : AttemptStatus
  revision : ℕ := 0
  dispatchOperationId : Option Uuid := none
  launchOwner : Option LaunchOwner := none
  createdAt : Timestamp
  startedAt : Option Timestamp := none
  finishedAt : Option Timestamp := none
  workspace : Option AttemptWorkspace := none
  guardian : Option ProcessGuardianIdentity := none
  lineage : Option ProposalLineage := none
  externalResources : List ExternalResource := []
  process : Option ProcessResult := none
  artifacts : AttemptArtifacts
  failure : Option AttemptFailure := none
  reviewDisposition : ReviewDisposition := .notRequested
  verificationStatus : VerificationStatus := .notRun
  deriving DecidableEq, Repr

/-- The job an attempt belongs to. -/
def AttemptManifest.jobId (m : AttemptManifest) : JobId := m.attemptId.jobId

/-- `createReservedAttempt`. -/
def createReservedAttempt (attemptId : AttemptId) (adapterId : String) (createdAt : Timestamp)
    (artifacts : AttemptArtifacts) (lineage : Option ProposalLineage)
    (dispatchOperationId : Option Uuid) : AttemptManifest where
  attemptId := attemptId
  adapterId := adapterId
  status := .reserved
  dispatchOperationId := dispatchOperationId
  createdAt := createdAt
  artifacts := artifacts
  lineage := lineage

/-! ### Updates

A patch is a `Partial<AttemptManifest>`: `none` leaves a field as it is. A field that is optional
in the record is patched by `some none` when the patch sets it to `undefined`. -/

/-- `Partial<AttemptManifest>`, the fields the runtime patches. -/
structure AttemptPatch where
  status : Option AttemptStatus := none
  dispatchOperationId : Option (Option Uuid) := none
  launchOwner : Option (Option LaunchOwner) := none
  startedAt : Option (Option Timestamp) := none
  finishedAt : Option (Option Timestamp) := none
  workspace : Option (Option AttemptWorkspace) := none
  guardian : Option (Option ProcessGuardianIdentity) := none
  lineage : Option (Option ProposalLineage) := none
  externalResources : Option (List ExternalResource) := none
  process : Option (Option ProcessResult) := none
  failure : Option (Option AttemptFailure) := none
  verificationStatus : Option VerificationStatus := none
  deriving DecidableEq, Repr

/-- `{ ...current, ...patch, attemptId, jobId, revision: current.revision + 1 }`. -/
def AttemptManifest.merge (m : AttemptManifest) (patch : AttemptPatch) : AttemptManifest where
  attemptId := m.attemptId
  adapterId := m.adapterId
  status := patch.status.getD m.status
  revision := m.revision + 1
  dispatchOperationId := patch.dispatchOperationId.getD m.dispatchOperationId
  launchOwner := patch.launchOwner.getD m.launchOwner
  createdAt := m.createdAt
  startedAt := patch.startedAt.getD m.startedAt
  finishedAt := patch.finishedAt.getD m.finishedAt
  workspace := patch.workspace.getD m.workspace
  guardian := patch.guardian.getD m.guardian
  lineage := patch.lineage.getD m.lineage
  externalResources := patch.externalResources.getD m.externalResources
  process := patch.process.getD m.process
  artifacts := m.artifacts
  failure := patch.failure.getD m.failure
  reviewDisposition := m.reviewDisposition
  verificationStatus := patch.verificationStatus.getD m.verificationStatus

@[simp] theorem AttemptManifest.merge_attemptId (m : AttemptManifest) (patch : AttemptPatch) :
    (m.merge patch).attemptId = m.attemptId := rfl

@[simp] theorem AttemptManifest.merge_jobId (m : AttemptManifest) (patch : AttemptPatch) :
    (m.merge patch).jobId = m.jobId := rfl

@[simp] theorem AttemptManifest.merge_revision (m : AttemptManifest) (patch : AttemptPatch) :
    (m.merge patch).revision = m.revision + 1 := rfl

@[simp] theorem AttemptManifest.merge_status (m : AttemptManifest) (patch : AttemptPatch) :
    (m.merge patch).status = patch.status.getD m.status := rfl

/-! ### The order of statuses -/

/-- How far a status is along the life of an attempt; every allowed transition keeps or raises
it. -/
def AttemptStatus.rank : AttemptStatus → ℕ
  | reserved => 0
  | claimed => 1
  | preparing => 2
  | running => 3
  | verifying => 4
  | completed | failed | needsInput | cancelled => 5

theorem AttemptStatus.rank_le_of_mem_allowed {a b : AttemptStatus} (h : b ∈ a.allowed) :
    a.rank ≤ b.rank := by
  revert h
  cases a <;> cases b <;> decide

/-- Nothing follows a terminal status. -/
theorem AttemptStatus.isTerminal_of_rank_le {a b : AttemptStatus} (ha : a.isTerminal = true)
    (h : a.rank ≤ b.rank) : b.isTerminal = true := by
  revert ha h
  cases a <;> cases b <;> decide

theorem AttemptStatus.not_isTerminal_of_mem_allowed {a b : AttemptStatus} (h : b ∈ a.allowed) :
    a.isTerminal = false := by
  cases a <;> first | rfl | exact absurd h (by simp [allowed])

end CodeConductor
