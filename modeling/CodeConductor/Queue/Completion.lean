import CodeConductor.Contracts.Queue

/-!
# From a finished attempt to its queue item

`projectQueueCompletion` is the only place that decides how a job ended: it turns the terminal
manifest of an attempt and the status of its cleanup into the patch that closes the queue item.
Every component that closes an item because its attempt ended — the dispatcher after an execution,
startup recovery, the owner's reconciliation — commits this patch, so what holds of the projection
holds of every completed item.
-/

namespace CodeConductor

/-- `AttemptCompletionEvidence`, which `RunJobResult` extends: what a queue item is told about an
attempt. -/
structure AttemptCompletionEvidence where
  attemptId : AttemptId
  status : AttemptStatus
  verificationStatus : VerificationStatus
  cleanupStatus : AttemptCleanupStatus
  artifacts : AttemptArtifacts
  failure : Option AttemptFailure := none
  deriving DecidableEq, Repr

/-- The evidence a manifest and the status of its cleanup amount to. -/
def AttemptManifest.evidence (m : AttemptManifest) (cleanupStatus : AttemptCleanupStatus) :
    AttemptCompletionEvidence where
  attemptId := m.attemptId
  status := m.status
  verificationStatus := m.verificationStatus
  cleanupStatus := cleanupStatus
  artifacts := m.artifacts
  failure := m.failure

namespace AttemptCompletionEvidence

variable (result : AttemptCompletionEvidence)

/-- `eligible`: the attempt completed, was verified, and left nothing behind. -/
def eligible : Bool :=
  result.status = .completed && result.verificationStatus = .eligible &&
    result.cleanupStatus.isSafe

/-- `needsInput`. -/
def needsInput : Bool :=
  !result.cleanupStatus.isSafe || result.status = .needsInput ||
    result.status = .completed && !result.eligible

/-- The status the projection gives the item. -/
def queueStatus : QueueItemStatus :=
  if !result.cleanupStatus.isSafe then .needsInput
  else if result.status = .cancelled then .cancelled
  else if result.eligible then .completed
  else if result.needsInput then .needsInput
  else .failed

/-- The completion record. -/
def completion (finishedAt : Timestamp) : QueueCompletion where
  attemptId := result.attemptId
  attemptStatus := result.status
  verificationStatus := result.verificationStatus
  cleanupStatus := some result.cleanupStatus
  finishedAt := finishedAt
  artifacts :=
    { manifest := result.artifacts.manifest
      proposalPatch := result.artifacts.proposalPatch
      changedPaths := result.artifacts.changedPaths
      verification := result.artifacts.verification
      cleanup := result.artifacts.cleanup }

/-- The message of the item: the failure's, or why the proposal needs input. -/
def queueMessage : Option String :=
  match result.failure with
  | some failure => some failure.message
  | none =>
    if !result.cleanupStatus.isSafe then
      some ("Attempt cleanup is " ++ result.cleanupStatus.text ++
        "; retry and evidence removal are prohibited")
    else if result.needsInput then
      some "Deterministic verification marked proposal ineligible"
    else none

end AttemptCompletionEvidence

/-- `projectQueueCompletion`. -/
def projectQueueCompletion (result : AttemptCompletionEvidence) (finishedAt : Timestamp) :
    QueuePatch where
  status := some result.queueStatus
  attemptId := some (some result.attemptId)
  completion := some (some (result.completion finishedAt))
  message := some result.queueMessage

/-! ### What the projection promises -/

section Projection

variable {result : AttemptCompletionEvidence} {finishedAt : Timestamp}

theorem AttemptCompletionEvidence.queueStatus_isTerminal :
    result.queueStatus.isTerminal = true := by
  unfold queueStatus
  split_ifs <;> rfl

/-- An item is only called completed when its attempt was eligible. -/
theorem AttemptCompletionEvidence.queueStatus_eq_completed :
    result.queueStatus = .completed ↔ result.eligible = true := by
  unfold queueStatus
  split_ifs with hsafe hcancelled heligible hinput
  · simp_all [eligible]
  · simp_all [eligible]
  · simp_all
  · simp_all
  · simp_all

/-- An attempt that is not cancelled never cancels its item. -/
theorem AttemptCompletionEvidence.status_of_queueStatus_eq_cancelled
    (h : result.queueStatus = .cancelled) : result.status = .cancelled := by
  unfold queueStatus at h
  split_ifs at h with _ hcancelled
  exact hcancelled

/-- What a completed item must be able to show. -/
structure QueueItem.Evidenced (item : QueueItem) : Prop where
  completed : item.status = .completed → ∃ completion attemptId cleanupStatus,
    item.completion = some completion ∧ item.attemptId = some attemptId ∧
      completion.attemptId = attemptId ∧ completion.attemptStatus = .completed ∧
      completion.verificationStatus = .eligible ∧
      completion.cleanupStatus = some cleanupStatus ∧ cleanupStatus.isSafe = true

/-- **The projection closes an item with its evidence.** -/
theorem QueueItem.evidenced_projected (item : QueueItem) (now : Timestamp) :
    (item.merge (projectQueueCompletion result finishedAt) now).Evidenced where
  completed h := by
    have heligible := AttemptCompletionEvidence.queueStatus_eq_completed.1 h
    simp only [AttemptCompletionEvidence.eligible, Bool.and_eq_true, decide_eq_true_eq] at heligible
    exact ⟨result.completion finishedAt, result.attemptId, result.cleanupStatus, rfl, rfl, rfl,
      heligible.1.1, heligible.1.2, rfl, heligible.2⟩

/-- A patch that names another status leaves nothing to show. -/
theorem QueueItem.evidenced_of_ne {item : QueueItem} (h : item.status ≠ .completed) :
    item.Evidenced where
  completed hc := absurd hc h

end Projection

end CodeConductor
