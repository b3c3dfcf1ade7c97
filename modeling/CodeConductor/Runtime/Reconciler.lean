import CodeConductor.Runtime.Dispatcher

/-!
# The owner's reconciliation

`inspect` compares items with attempts and offers actions; `apply` carries one out under the lease,
after checking that the evidence it was offered for is unchanged. Only the offered actions are
modelled, not the texts of the report; an action's **evidence token** is a hash of the records it
was offered for, and since hashes of different contents are taken to differ, the token is those
records.
-/

namespace CodeConductor

open Async Async.Prog

/-- `RuntimeReconciliationActionProposal`, with the records its evidence token is made of. -/
inductive ReconciliationProposal where
  | resetAbandonedQueueItem (item : QueueItem)
  | quarantineQueueItem (item : QueueItem)
  | bindQueueToAttempt (item : QueueItem) (attempt : AttemptManifest)
  | synchronizeQueueFromTerminalAttempt (item : QueueItem) (attempt : AttemptManifest)
    (cleanup : AttemptCleanupRecord)
  | recoverInterruptedAttempt (attempt : AttemptManifest) (cleanup : AttemptCleanupRecord)
  deriving DecidableEq, Repr

namespace Reconciler

/-- `queueMatchesAttempt`. -/
def queueMatchesAttempt (item : QueueItem) (attempt : AttemptManifest)
    (cleanup : AttemptCleanupRecord) : Bool :=
  let result := attempt.evidence cleanup.status
  item.status = result.queueStatus && item.attemptId = some result.attemptId &&
    item.completion.any fun completion ↦ completion = result.completion completion.finishedAt

/-- What one item adds to a report: the actions offered for it, and the attempt it vouches for. -/
structure ItemReport where
  actions : List ReconciliationProposal := []
  referenced : Option AttemptId := none

/-- The recovery of an attempt, offered when its cleanup record could be read. -/
def recoverAction (attempt : AttemptManifest) (cleanup : Option AttemptCleanupRecord) :
    List ReconciliationProposal :=
  (cleanup.map fun cleanup ↦ .recoverInterruptedAttempt attempt cleanup).toList

/-- The synchronization with a terminal attempt, offered when its cleanup record could be read. -/
def synchronizeAction (item : QueueItem) (attempt : AttemptManifest)
    (cleanup : Option AttemptCleanupRecord) : List ReconciliationProposal :=
  (cleanup.map fun cleanup ↦ .synchronizeQueueFromTerminalAttempt item attempt cleanup).toList

/-- A dispatching item and the attempt of its operation: synchronized when the attempt has ended,
bound otherwise. -/
def bindAction (item : QueueItem) (attempt : AttemptManifest)
    (cleanup : Option AttemptCleanupRecord) : List ReconciliationProposal :=
  if attempt.status.isTerminal then synchronizeAction item attempt cleanup
  else [.bindQueueToAttempt item attempt]

/-- An item that names the attempt `attempt` of its own job and operation. -/
def inspectBound (item : QueueItem) (attempt : AttemptManifest)
    (cleanup : Option AttemptCleanupRecord) : List ReconciliationProposal :=
  if item.status = .dispatching then bindAction item attempt cleanup
  else if item.status.isActive then
    if attempt.status.isTerminal then synchronizeAction item attempt cleanup
    else recoverAction attempt cleanup
  else if item.status.isTerminal && !attempt.status.isTerminal then recoverAction attempt cleanup
  else if item.status.isTerminal && attempt.status.isTerminal then
    match cleanup with
    | some record =>
      if queueMatchesAttempt item attempt record then []
      else synchronizeAction item attempt cleanup
    | none => []
  else []

/-- An item that names no attempt and is not active. -/
def inspectUnbound (attempts : List AttemptManifest)
    (cleanupOf : AttemptManifest → Option AttemptCleanupRecord) (item : QueueItem) : ItemReport :=
  match item.status, item.dispatchOperationId with
  | .dispatching, some dispatchOperationId =>
    match Dispatcher.attemptsOf attempts item.jobId dispatchOperationId with
    | [] => { actions := [.resetAbandonedQueueItem item] }
    | [attempt] =>
      { actions := bindAction item attempt (cleanupOf attempt)
        referenced := some attempt.attemptId }
    | _ => { actions := [.quarantineQueueItem item] }
  | status, _ =>
    if status = .completed ∨ item.completion.isSome then
      { actions := [.quarantineQueueItem item] }
    else {}

/-- The tests `inspectQueueAttemptRelationships` makes on one item, in their order, for an owner who
may act. -/
def inspectItem (attempts : List AttemptManifest)
    (cleanups : List (AttemptId × AttemptCleanupRecord)) (item : QueueItem) : ItemReport :=
  let cleanupOf (attempt : AttemptManifest) := cleanups.lookup attempt.attemptId
  if item.status = .queued ∧
      (item.dispatchOperationId.isSome ∨ item.attemptId.isSome ∨ item.completion.isSome) then
    { actions := [.resetAbandonedQueueItem item] }
  else if item.status = .dispatching ∧ item.dispatchOperationId = none then
    { actions := [.quarantineQueueItem item] }
  else
    match item.attemptId with
    | none =>
      if item.status.isActive then { actions := [.quarantineQueueItem item] }
      else inspectUnbound attempts cleanupOf item
    | some attemptId =>
      match attempts.find? fun attempt ↦ attempt.attemptId = attemptId with
      | none => { actions := [.quarantineQueueItem item] }
      | some attempt =>
        if attempt.jobId ≠ item.jobId then { actions := [.quarantineQueueItem item] }
        else if item.dispatchOperationId ≠ attempt.dispatchOperationId then
          { actions := .quarantineQueueItem item ::
              (if item.status.isTerminal && !attempt.status.isTerminal then
                recoverAction attempt (cleanupOf attempt)
              else []) }
        else
          { actions := inspectBound item attempt (cleanupOf attempt)
            referenced := some attempt.attemptId }

/-- `inspectQueueAttemptRelationships`, the actions an owner who may act is offered. -/
def inspectQueueAttemptRelationships (items : List QueueItem) (attempts : List AttemptManifest)
    (cleanups : List (AttemptId × AttemptCleanupRecord)) : List ReconciliationProposal :=
  let reports := items.map (inspectItem attempts cleanups)
  let referenced := reports.filterMap ItemReport.referenced
  let unreferenced := attempts.filter fun attempt ↦
    attempt.status.isTerminal = false ∧ attempt.attemptId ∉ referenced
  (reports.flatMap ItemReport.actions) ++
    unreferenced.flatMap fun attempt ↦ recoverAction attempt (cleanups.lookup attempt.attemptId)

/-- The cleanup records that can be read. -/
def readCleanups : List AttemptManifest → Runtime (List (AttemptId × AttemptCleanupRecord))
  | [] => return []
  | attempt :: rest => do
    let cleanup ← Prog.attempt (E := RuntimeError)
      (Conductor.getAttemptCleanup attempt.attemptId)
    let cleanups ← readCleanups rest
    match cleanup with
    | .ok cleanup => return (attempt.attemptId, cleanup) :: cleanups
    | .error _ => return cleanups

/-- `inspect`, the actions it offers: none unless the queue was unowned when it looked. -/
def inspect : Runtime (List ReconciliationProposal) := do
  let ownerCanAct ← storeRead .acquireLease fun w ↦ .ok (QueueStore.leaseFree w)
  let items ← Prog.attempt (E := RuntimeError) QueueStore.list
  let attempts ← Prog.attempt (E := RuntimeError) ArtifactStore.listAttempts
  match items, attempts with
  | .ok items, .ok attempts =>
    let cleanups ← readCleanups attempts
    if ownerCanAct then
      return inspectQueueAttemptRelationships items attempts cleanups
    return []
  | _, _ => return []

/-- `readRuntimeActionState`: the records the action is about, as they are now. -/
def readRuntimeActionState : ReconciliationProposal → Runtime ReconciliationProposal
  | .resetAbandonedQueueItem item => do
    let item ← QueueStore.read item.jobId
    return .resetAbandonedQueueItem item
  | .quarantineQueueItem item => do
    let item ← QueueStore.read item.jobId
    return .quarantineQueueItem item
  | .bindQueueToAttempt item attempt => do
    let item ← QueueStore.read item.jobId
    let attempt ← Conductor.getAttempt attempt.attemptId
    return .bindQueueToAttempt item attempt
  | .synchronizeQueueFromTerminalAttempt item attempt _ => do
    let item ← QueueStore.read item.jobId
    let attempt ← Conductor.getAttempt attempt.attemptId
    let cleanup ← Conductor.getAttemptCleanup attempt.attemptId
    return .synchronizeQueueFromTerminalAttempt item attempt cleanup
  | .recoverInterruptedAttempt attempt _ => do
    let attempt ← Conductor.getAttempt attempt.attemptId
    let cleanup ← Conductor.getAttemptCleanup attempt.attemptId
    return .recoverInterruptedAttempt attempt cleanup

/-- The patches of the actions on queue items. -/
def resetPatch : QueuePatch where
  status := some .queued
  dispatchOperationId := some none
  attemptId := some none
  completion := some none
  message := some (some "Owner-approved reconciliation cleared abandoned dispatch evidence")

/-- See `resetPatch`. -/
def quarantinePatch : QueuePatch where
  status := some .needsInput
  dispatchOperationId := some none
  attemptId := some none
  completion := some none
  message := some (some
    "Owner-approved reconciliation quarantined an untrusted queue-to-attempt relationship")

/-- See `resetPatch`. -/
def bindPatch (item : QueueItem) (attempt : AttemptManifest) : QueuePatch where
  status := some .running
  dispatchOperationId := some item.dispatchOperationId
  attemptId := some (some attempt.attemptId)
  completion := some none
  message := some (some "Owner-approved reconciliation restored the exact dispatch binding")

/-- `executeRuntimeAction`. -/
def executeRuntimeAction (self : Self) : ReconciliationProposal → Runtime Unit
  | .resetAbandonedQueueItem item => do
    let _ ← QueueStore.reconcile item resetPatch .resetAbandonedQueueItem
    return ()
  | .quarantineQueueItem item => do
    let _ ← QueueStore.reconcile item quarantinePatch .quarantineQueueItem
    return ()
  | .bindQueueToAttempt item attempt => do
    let _ ← QueueStore.reconcile item (bindPatch item attempt) .bindQueueToAttempt
    return ()
  | .synchronizeQueueFromTerminalAttempt item attempt cleanup => do
    if !attempt.status.isTerminal then
      throw (.reconciliationConflict ("Attempt " ++ attempt.attemptId.text ++
        " is no longer terminal") false)
    let now ← currentDate
    let _ ← QueueStore.reconcile item
      (projectQueueCompletion (attempt.evidence cleanup.status) now)
      .synchronizeQueueFromTerminalAttempt
    return ()
  | .recoverInterruptedAttempt attempt _ => do
    let _ ← Conductor.recoverInterruptedAttempt self attempt.attemptId
    let _ ← Conductor.getAttemptCleanup attempt.attemptId
    return ()

/-- `runtimeActionPostcondition`: whether the action has been carried out already, or its evidence
has moved on. -/
def runtimeActionPostcondition (proposal state : ReconciliationProposal) : Bool :=
  match proposal, state with
  | .resetAbandonedQueueItem _, .resetAbandonedQueueItem item =>
    item.status = .queued && item.dispatchOperationId.isNone && item.attemptId.isNone &&
      item.completion.isNone
  | .quarantineQueueItem _, .quarantineQueueItem item =>
    item.status = .needsInput && item.dispatchOperationId.isNone && item.attemptId.isNone &&
      item.completion.isNone
  | .bindQueueToAttempt proposed attempt, .bindQueueToAttempt item _ =>
    item.status = .running && item.attemptId = some attempt.attemptId &&
      item.dispatchOperationId = proposed.dispatchOperationId
  | .synchronizeQueueFromTerminalAttempt .., .synchronizeQueueFromTerminalAttempt item attempt
      cleanup =>
    attempt.status.isTerminal && queueMatchesAttempt item attempt cleanup
  | .recoverInterruptedAttempt _ proposed, .recoverInterruptedAttempt attempt cleanup =>
    attempt.status.isTerminal || cleanup.revision ≠ proposed.revision
  | _, _ => false

/-- `applyRuntimeAction`. -/
def applyRuntimeAction (self : Self) (proposal : ReconciliationProposal) : Runtime Unit := do
  let offered ← inspect
  if proposal ∉ offered then
    let current ← readRuntimeActionState proposal
    if !runtimeActionPostcondition proposal current then
      throw (.reconciliationConflict
        "Runtime reconciliation action is not offered for the current evidence" false)
  let unowned ← storeRead .acquireLease fun w ↦ .ok (QueueStore.leaseFree w)
  if !unowned then
    throw (.reconciliationConflict "Runtime state reconciliation requires an unowned queue" true)
  match ← QueueStore.acquireLease self with
  | none =>
    throw (.reconciliationConflict
      "A dispatcher acquired authority before the reconciliation action" true)
  | some lease =>
    Prog.ensuring
      (do
        let current ← readRuntimeActionState proposal
        if current ≠ proposal then
          if runtimeActionPostcondition proposal current then
            return ()
          throw (.reconciliationConflict "Runtime state changed after the action was proposed"
            false)
        executeRuntimeAction self current)
      (QueueStore.releaseLease lease)

/-- The owner reads the report and approves one of the offered actions. -/
def reconcile (self : Self) (choice : ℕ) : Runtime Unit := do
  let offered ← inspect
  match offered[choice]? with
  | none => return ()
  | some proposal => applyRuntimeAction self proposal

end Reconciler

end CodeConductor
