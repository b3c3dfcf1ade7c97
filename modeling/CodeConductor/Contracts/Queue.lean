import CodeConductor.Contracts.Cleanup

/-!
# Queue items

The scheduling record of a job: its place in the queue, the attempt it is bound to while one is in
flight, and the completion projected from that attempt when it ended.
-/

namespace CodeConductor

/-- `queueItemStatusSchema`. -/
inductive QueueItemStatus where
  | queued | dispatching | running | cancelling
  | completed | failed | needsInput | cancelled
  deriving DecidableEq, Repr

/-- The text of a status. -/
def QueueItemStatus.text : QueueItemStatus → String
  | queued => "queued"
  | dispatching => "dispatching"
  | running => "running"
  | cancelling => "cancelling"
  | completed => "completed"
  | failed => "failed"
  | needsInput => "needs-input"
  | cancelled => "cancelled"

instance : ToString QueueItemStatus := ⟨QueueItemStatus.text⟩

/-- `isTerminal`. -/
def QueueItemStatus.isTerminal : QueueItemStatus → Bool
  | completed | failed | needsInput | cancelled => true
  | queued | dispatching | running | cancelling => false

/-- `["running", "cancelling"].includes(status)`. -/
def QueueItemStatus.isActive : QueueItemStatus → Bool
  | running | cancelling => true
  | _ => false

/-- `allowedQueueTransitions`. -/
def QueueItemStatus.allowed : QueueItemStatus → List QueueItemStatus
  | queued => [queued, dispatching, cancelled, needsInput]
  | dispatching => [dispatching, queued, running, cancelled, needsInput]
  | running => [running, queued, cancelling, completed, failed, needsInput, cancelled]
  | cancelling => [cancelling, completed, failed, needsInput, cancelled]
  | completed => [completed, queued]
  | failed => [failed, queued]
  | needsInput => [needsInput, queued]
  | cancelled => [cancelled, queued]

/-- The artifact paths a completion keeps. -/
structure CompletionArtifacts where
  manifest : String
  proposalPatch : String
  changedPaths : String
  verification : String
  cleanup : Option String := none
  deriving DecidableEq, Repr

/-- `queueCompletionSchema`. -/
structure QueueCompletion where
  attemptId : AttemptId
  attemptStatus : AttemptStatus
  verificationStatus : VerificationStatus
  cleanupStatus : Option AttemptCleanupStatus := none
  finishedAt : Timestamp
  artifacts : CompletionArtifacts
  deriving DecidableEq, Repr

/-- `queueItemSchema`. -/
structure QueueItem where
  jobId : JobId
  status : QueueItemStatus
  revision : ℕ := 0
  dispatchOperationId : Option Uuid := none
  priority : Int
  dependsOnJobIds : List JobId
  createdAt : Timestamp
  updatedAt : Timestamp
  attemptId : Option AttemptId := none
  automaticRetryCount : ℕ := 0
  completion : Option QueueCompletion := none
  message : Option String := none
  deriving DecidableEq, Repr

/-- `Partial<QueueItem>`, the fields the runtime patches; `some none` sets a field to
`undefined`. -/
structure QueuePatch where
  status : Option QueueItemStatus := none
  dispatchOperationId : Option (Option Uuid) := none
  attemptId : Option (Option AttemptId) := none
  automaticRetryCount : Option ℕ := none
  completion : Option (Option QueueCompletion) := none
  message : Option (Option String) := none
  deriving DecidableEq, Repr

/-- `{ ...current, ...patch, jobId, revision: current.revision + 1, updatedAt }`. -/
def QueueItem.merge (item : QueueItem) (patch : QueuePatch) (now : Timestamp) : QueueItem where
  jobId := item.jobId
  status := patch.status.getD item.status
  revision := item.revision + 1
  dispatchOperationId := patch.dispatchOperationId.getD item.dispatchOperationId
  priority := item.priority
  dependsOnJobIds := item.dependsOnJobIds
  createdAt := item.createdAt
  updatedAt := now
  attemptId := patch.attemptId.getD item.attemptId
  automaticRetryCount := patch.automaticRetryCount.getD item.automaticRetryCount
  completion := patch.completion.getD item.completion
  message := patch.message.getD item.message

section Merge

variable (item : QueueItem) (patch : QueuePatch) (now : Timestamp)

@[simp] theorem QueueItem.merge_jobId : (item.merge patch now).jobId = item.jobId := rfl

@[simp] theorem QueueItem.merge_revision :
    (item.merge patch now).revision = item.revision + 1 := rfl

@[simp] theorem QueueItem.merge_status :
    (item.merge patch now).status = patch.status.getD item.status := rfl

@[simp] theorem QueueItem.merge_attemptId :
    (item.merge patch now).attemptId = patch.attemptId.getD item.attemptId := rfl

@[simp] theorem QueueItem.merge_dispatchOperationId :
    (item.merge patch now).dispatchOperationId =
      patch.dispatchOperationId.getD item.dispatchOperationId := rfl

@[simp] theorem QueueItem.merge_completion :
    (item.merge patch now).completion = patch.completion.getD item.completion := rfl

@[simp] theorem QueueItem.merge_dependsOnJobIds :
    (item.merge patch now).dependsOnJobIds = item.dependsOnJobIds := rfl

@[simp] theorem QueueItem.merge_automaticRetryCount :
    (item.merge patch now).automaticRetryCount =
      patch.automaticRetryCount.getD item.automaticRetryCount := rfl

end Merge

end CodeConductor
