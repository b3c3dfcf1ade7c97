import CodeConductor.Contracts.Queue

/-!
# Errors

The errors the runtime throws, by class where a handler tells them apart, with the message each
carries. `plain` is an `Error` with the given text; a schema failure names the field it rejects.
-/

namespace CodeConductor

/-- `Number.MAX_SAFE_INTEGER`. -/
def maxSafeInteger : ℕ := 9007199254740991

/-- `TransitionContext["recordKind"]`. -/
inductive RecordKind where
  | attempt | attemptCleanup | queueItem
  deriving DecidableEq, Repr

/-- The text of a record kind. -/
def RecordKind.text : RecordKind → String
  | attempt => "attempt"
  | attemptCleanup => "attempt-cleanup"
  | queueItem => "queue-item"

instance : ToString RecordKind := ⟨RecordKind.text⟩

/-- `DispatchFailpointName`. -/
inductive DispatchFailpointName where
  | afterQueueDispatching | afterAttemptReserved | afterQueueBound | afterAttemptClaimed
  deriving DecidableEq, Repr

/-- The text of a failpoint name. -/
def DispatchFailpointName.text : DispatchFailpointName → String
  | afterQueueDispatching => "after-queue-dispatching"
  | afterAttemptReserved => "after-attempt-reserved"
  | afterQueueBound => "after-queue-bound"
  | afterAttemptClaimed => "after-attempt-claimed"

instance : ToString DispatchFailpointName := ⟨DispatchFailpointName.text⟩

/-- The actions that may change a queue item outside the dispatcher's own transitions. -/
inductive QueueReconciliationKind where
  | resetAbandonedQueueItem | quarantineQueueItem | bindQueueToAttempt
  | synchronizeQueueFromTerminalAttempt
  deriving DecidableEq, Repr

/-- The text of an action kind. -/
def QueueReconciliationKind.text : QueueReconciliationKind → String
  | resetAbandonedQueueItem => "reset-abandoned-queue-item"
  | quarantineQueueItem => "quarantine-queue-item"
  | bindQueueToAttempt => "bind-queue-to-attempt"
  | synchronizeQueueFromTerminalAttempt => "synchronize-queue-from-terminal-attempt"

instance : ToString QueueReconciliationKind := ⟨QueueReconciliationKind.text⟩

/-- The errors of the runtime. -/
inductive RuntimeError where
  /-- `TransitionConflictError`. -/
  | transitionConflict (kind : RecordKind) (recordId : String) (expectedRevision : ℕ)
      (actualRevision : Option ℕ)
  /-- `TransitionIntegrityError`. -/
  | transitionIntegrity (kind : RecordKind) (recordId : String) (revision : ℕ) (reason : String)
  /-- `assertAttemptTransition`. -/
  | illegalAttemptTransition (current next : AttemptStatus)
  /-- `assertQueueTransition`. -/
  | illegalQueueTransition (current next : QueueItemStatus)
  /-- `assertQueueReconciliationTransition`. -/
  | illegalReconciliation (kind : QueueReconciliationKind) (current next : QueueItemStatus)
  /-- A record a schema rejects at `path`. -/
  | schema (path : String) (reason : String)
  /-- `ProposalLineageError`. -/
  | proposalLineage (reason : String)
  /-- `ResourceLimitError`. -/
  | resourceLimit (reason : String)
  /-- `DispatchFailpointError`. -/
  | dispatchFailpoint (point : DispatchFailpointName) (cause : String)
  /-- `ReconciliationConflictError`. -/
  | reconciliationConflict (reason : String) (retryable : Bool)
  /-- `LeaseReconciliationRequiredError`. -/
  | leaseReconciliationRequired (state : String) (detail : String)
  /-- A file-system error with its code. -/
  | fileSystem (code : String) (path : String)
  /-- `new Error(text)`. -/
  | plain (text : String)
  deriving DecidableEq, Repr

/-- `errorMessage`: the message an error carries. -/
def RuntimeError.message : RuntimeError → String
  | transitionConflict kind recordId expected none =>
    kind.text ++ " " ++ recordId ++ " revision " ++ toString (expected + 1) ++
      " was already claimed"
  | transitionConflict kind recordId expected (some actual) =>
    kind.text ++ " " ++ recordId ++ " expected revision " ++ toString expected ++ ", found " ++
      toString actual
  | transitionIntegrity kind recordId revision reason =>
    kind.text ++ " " ++ recordId ++ " revision " ++ toString revision ++ " is incomplete: " ++
      reason
  | illegalAttemptTransition current next =>
    "Illegal attempt transition: " ++ current.text ++ " -> " ++ next.text
  | illegalQueueTransition current next =>
    "Illegal queue transition: " ++ current.text ++ " -> " ++ next.text
  | illegalReconciliation kind current next =>
    "Illegal " ++ kind.text ++ " queue reconciliation transition: " ++ current.text ++ " -> " ++
      next.text
  | schema path reason => path ++ ": " ++ reason
  | proposalLineage reason => reason
  | resourceLimit reason => "Resource budget exceeded: " ++ reason
  | dispatchFailpoint point cause => "Dispatch failpoint " ++ point.text ++ ": " ++ cause
  | reconciliationConflict reason _ => reason
  | leaseReconciliationRequired state detail =>
    "Dispatcher lease " ++ state ++ " requires reconciliation: " ++ detail
  | fileSystem code path => code ++ ": " ++ path
  | plain text => text

/-! ### The checks a merged record passes before it is committed -/

/-- `attemptManifestSchema.parse` of a merged manifest: the texts that must not be empty. -/
def AttemptManifest.parse (m : AttemptManifest) : Except RuntimeError AttemptManifest :=
  if m.failure.any fun failure ↦ failure.message = "" then
    .error (.schema "failure.message" "Too small: expected string to have >=1 characters")
  else if m.lineage.any fun lineage ↦ lineage.failure = some "" then
    .error (.schema "lineage.failure" "Too small: expected string to have >=1 characters")
  else .ok m

/-- `assertAttemptTransition`. -/
def assertAttemptTransition (current next : AttemptStatus) : Except RuntimeError Unit :=
  if next ∈ current.allowed then .ok () else .error (.illegalAttemptTransition current next)

/-- The manifest `transitionAttempt` commits over `current`, or the error it throws. -/
def AttemptManifest.updated (current : AttemptManifest) (patch : AttemptPatch) :
    Except RuntimeError AttemptManifest := do
  let updated ← (current.merge patch).parse
  assertAttemptTransition current.status updated.status
  return updated

/-- `queueItemSchema.parse` of a merged item. -/
def QueueItem.parse (item : QueueItem) : Except RuntimeError QueueItem :=
  if item.message = some "" then
    .error (.schema "message" "Too small: expected string to have >=1 characters")
  else .ok item

/-- `assertQueueTransition`. -/
def assertQueueTransition (current next : QueueItem) : Except RuntimeError Unit :=
  if next.status ∈ current.status.allowed then .ok ()
  else .error (.illegalQueueTransition current.status next.status)

/-- `assertQueueReconciliationTransition`. -/
def assertQueueReconciliationTransition (kind : QueueReconciliationKind)
    (current next : QueueItem) : Except RuntimeError Unit :=
  let allowed : Bool :=
    match kind with
    | .resetAbandonedQueueItem =>
      (current.status = .queued || current.status = .dispatching) && next.status = .queued &&
        next.dispatchOperationId.isNone && next.attemptId.isNone && next.completion.isNone
    | .quarantineQueueItem =>
      next.status = .needsInput && next.dispatchOperationId.isNone && next.attemptId.isNone &&
        next.completion.isNone
    | .bindQueueToAttempt =>
      current.status = .dispatching && next.status = .running &&
        next.dispatchOperationId.isSome && next.attemptId.isSome && next.completion.isNone
    | .synchronizeQueueFromTerminalAttempt =>
      next.status.isTerminal && next.attemptId.isSome &&
        next.completion.map QueueCompletion.attemptId = next.attemptId
  if allowed then .ok ()
  else .error (.illegalReconciliation kind current.status next.status)

/-- The item `commitQueueUpdate` commits over `current`, or the error it throws. -/
def QueueItem.updated (validateTransition : QueueItem → QueueItem → Except RuntimeError Unit)
    (current : QueueItem) (patch : QueuePatch) (now : Timestamp) :
    Except RuntimeError QueueItem := do
  let updated ← (current.merge patch now).parse
  validateTransition current updated
  return updated

/-- The record `transitionAttemptCleanup` commits over `current`; the parts of the patch were
parsed when they were built. -/
def AttemptCleanupRecord.updated (current : AttemptCleanupRecord) (patch : CleanupPatch)
    (now : Timestamp) : Except RuntimeError AttemptCleanupRecord :=
  .ok (current.merge patch now)

theorem AttemptManifest.updated_ok {current m : AttemptManifest} {patch : AttemptPatch}
    (h : current.updated patch = .ok m) :
    m = current.merge patch ∧ m.status ∈ current.status.allowed := by
  have hparse : (current.merge patch).parse = .ok (current.merge patch) := by
    unfold AttemptManifest.parse
    split
    · simp_all [AttemptManifest.updated, AttemptManifest.parse, bind, Except.bind]
    · split
      · simp_all [AttemptManifest.updated, AttemptManifest.parse, bind, Except.bind]
      · rfl
  simp only [AttemptManifest.updated, hparse, bind, Except.bind, assertAttemptTransition] at h
  split at h
  · exact absurd h (by simp)
  · rename_i hassert
    split at hassert
    · rename_i hmem
      obtain rfl := Except.ok.inj h
      exact ⟨rfl, hmem⟩
    · exact absurd hassert (by simp)

theorem QueueItem.updated_ok {validate : QueueItem → QueueItem → Except RuntimeError Unit}
    {current item : QueueItem} {patch : QueuePatch} {now : Timestamp}
    (h : current.updated validate patch now = .ok item) :
    item = current.merge patch now ∧ validate current item = .ok () := by
  unfold QueueItem.updated QueueItem.parse at h
  split at h
  · exact absurd h (by simp [bind, Except.bind])
  · simp only [bind, Except.bind] at h
    split at h
    · exact absurd h (by simp)
    · rename_i hv
      obtain rfl := Except.ok.inj h
      exact ⟨rfl, hv⟩

/-- What a sequence of fallible computations returns. -/
theorem Except.exists_of_bind_eq_ok {ε α β : Type} {x : Except ε α} {f : α → Except ε β} {b : β}
    (h : x >>= f = .ok b) : ∃ a, x = .ok a ∧ f a = .ok b := by
  cases x with
  | error e => exact nomatch h
  | ok a => exact ⟨a, rfl, h⟩

end CodeConductor
