import CodeConductor.Runtime.Execution

/-!
# The dispatcher

`DurableDispatcher` moves queue items: `cancel`, `retry`, dispatch passes and the ends of executions
each run under the **state lock** of the process; startup recovery runs before the loop and takes no
lock. Whoever starts the loop answers for the lease: `start` hands it to the loop it leaves behind,
`runUntilIdle` keeps it to its end.

## Promises

A promise others wait for is a background thread and its entry in `settled`. `Promise.race` goes to
whichever of the promises settled first, or to the timer; `Promise.allSettled` waits for all. The
loop is unbounded, so its calls carry fuel: a loop out of fuel waits for ever, and every finite run
is one with enough of it.
-/

namespace CodeConductor

open Async Async.Prog

namespace Dispatcher

/-- Change the fields of the own dispatcher. -/
def setMemory (self : Self) (label : RuntimeStep) (f : DispatcherMemory → DispatcherMemory) :
    Runtime Unit :=
  .modify label fun w ↦ w.setDispatcher self.process (f (w.dispatcher self.process))

/-- Read the fields of the own dispatcher. -/
def getMemory (self : Self) : Runtime DispatcherMemory :=
  .read .memory fun w ↦ .ok (w.dispatcher self.process)

/-- Wait for ever. -/
def blocked {A : Type} : Runtime A :=
  .await .blocked (fun _ ↦ false) fun w ↦ (.error (.plain ""), w)

/-- `withStateLock`. -/
def withStateLock {A : Type} (self : Self) (operation : Runtime A) : Runtime A := do
  setMemory self .enterLock fun memory ↦
    { memory with lockQueue := memory.lockQueue ++ [self.thread] }
  .await .awaitLock (fun w ↦ (w.dispatcher self.process).lockQueue.head? = some self.thread)
    fun w ↦ (.ok (), w)
  operation.ensuring (setMemory self .releaseLock fun memory ↦
    { memory with lockQueue := memory.lockQueue.tail })

/-- `reachFailpoint`. -/
def reachFailpoint (point : DispatchFailpointName) : Runtime Unit :=
  askOutside fun o ↦
    match o.failpoint point with
    | some cause => .error (.dispatchFailpoint point cause)
    | none => .ok ()

/-! ### Submission -/

/-- `enqueue`. -/
def enqueue (contract : JobContract) (options : QueueOptions) : Runtime QueueItem := do
  askOutside fun o ↦ o.prepareJob contract
  let contract ← ArtifactStore.reserveJob contract
  if contract.jobId ∈ options.dependsOnJobIds then
    throw (.plain ("Queue item " ++ contract.jobId ++ " cannot depend on itself"))
  QueueStore.enqueue contract options

/-! ### A dispatch pass -/

/-- What the dependencies of an item say in the snapshot of a pass. -/
inductive Readiness where
  /-- A dependency ended without completing. -/
  | failed (dependency : QueueItem)
  /-- A dependency is missing or has not ended. -/
  | waiting
  /-- All are completed. -/
  | ready (dependencies : List QueueItem)
  deriving DecidableEq, Repr

/-- `dependencies` of an item, looked up in the snapshot. -/
def dependencies (items : List QueueItem) (item : QueueItem) : List (Option QueueItem) :=
  item.dependsOnJobIds.map fun jobId ↦ items.find? fun candidate ↦ candidate.jobId = jobId

/-- The tests on the dependencies, in the order they are made. -/
def readiness (items : List QueueItem) (item : QueueItem) : Readiness :=
  let found := dependencies items item
  match found.findSome? fun dependency ↦ dependency.filter fun d ↦
      d.status.isTerminal && d.status ≠ .completed with
  | some dependency => .failed dependency
  | none =>
    if found.any fun dependency ↦ !dependency.any fun d ↦ d.status = .completed then .waiting
    else .ready found.reduceOption

/-- `parentAttemptIds`. -/
def parentAttemptIds (dependencies : List QueueItem) : Except RuntimeError (List AttemptId) :=
  dependencies.mapM fun dependency ↦
    match dependency.completion with
    | some completion => .ok completion.attemptId
    | none =>
      .error (.plain ("Completed dependency " ++ dependency.jobId ++ " lacks attempt evidence"))

/-- `randomUUID()` for the dispatch of `item`, chosen from the snapshot `items`. -/
def newDispatchOperation (item : QueueItem) (items : List QueueItem) : Runtime Uuid :=
  .atomic (.select item.jobId) fun w ↦
    (.ok w.uuid,
      { w with uuid := w.uuid + 1, selections := ⟨w.uuid, item, items⟩ :: w.selections })

/-- Start the execution of a bound item and enter it in `active`. -/
def startExecution (self : Self) (running : QueueItem) : Runtime Unit :=
  .fork (.dispatch running.jobId) (fun _ _ ↦ .executeItem running) fun w n ↦
    let memory := w.dispatcher self.process
    w.setDispatcher self.process
      { memory with active := memory.active ++ [(running.jobId, n)] }

/-- The catch of a rejected reservation: a lineage the conductor rejects is the item's own problem,
anything else leaves the pass. -/
def reservationRejected (dispatching : QueueItem) (error : RuntimeError) : Runtime Unit := do
  .read (.reservationRejected dispatching.jobId error) fun _ ↦ .ok ()
  match error with
  | .proposalLineage reason =>
    let _ ← QueueStore.update dispatching
      { status := some .needsInput
        message := some (some
          ("Proposal lineage rejected before reservation: " ++ reason)) }
    return ()
  | error => throw error

/-- Dispatch one ready item; `false` when its lineage was rejected. -/
def dispatchItem (self : Self) (items : List QueueItem) (item : QueueItem)
    (dependencies : List QueueItem) : Runtime Bool := do
  let parents ← Prog.ofResult (parentAttemptIds dependencies)
  let dispatchOperationId ← newDispatchOperation item items
  let dispatching ← QueueStore.update item
    { status := some .dispatching
      dispatchOperationId := some (some dispatchOperationId)
      attemptId := some none
      message := some none }
  reachFailpoint .afterQueueDispatching
  let reservation ← Prog.attempt (E := RuntimeError)
    (Conductor.reservePreparedAttempt item.jobId parents (some dispatchOperationId))
  match reservation with
  | .error error =>
    reservationRejected dispatching error
    return false
  | .ok reserved =>
    reachFailpoint .afterAttemptReserved
    let running ← QueueStore.update dispatching
      { status := some .running, attemptId := some (some reserved.attemptId) }
    reachFailpoint .afterQueueBound
    startExecution self running
    return true

/-- The loop of `dispatchAvailable` over the items not yet visited; returns how many were
dispatched. -/
def dispatchItems (self : Self) (items : List QueueItem) :
    List QueueItem → ℕ → Runtime ℕ
  | [], dispatched => return dispatched
  | item :: rest, dispatched => do
    let memory ← getMemory self
    if item.status ≠ .queued ∨ memory.active.any (fun entry ↦ entry.1 = item.jobId) then
      dispatchItems self items rest dispatched
    else
      match readiness items item with
      | .failed dependency =>
        let _ ← QueueStore.update item
          { status := some .needsInput
            message := some (some ("Dependency " ++ dependency.jobId ++ " ended " ++
              dependency.status.text)) }
        dispatchItems self items rest dispatched
      | .waiting => dispatchItems self items rest dispatched
      | .ready dependencies =>
        let maxConcurrent ← Prog.read .memory fun w ↦ .ok w.maxConcurrent
        if maxConcurrent ≤ memory.active.length then
          return dispatched
        if ← dispatchItem self items item dependencies then
          dispatchItems self items rest (dispatched + 1)
        else dispatchItems self items rest dispatched

/-- `if (!this.lease) throw`, from where on the pass is under way. -/
def checkLease (self : Self) (submitted : Bool) : Runtime Unit :=
  .atomic (.checkLease submitted) fun w ↦
    let memory := w.dispatcher self.process
    if memory.lease.isNone then (.error (.plain "Dispatcher lease is unavailable"), w)
    else (.ok (), w.setDispatcher self.process
      { memory with passes := memory.passes ++ [self.thread] })

/-- The end of a pass. -/
def leavePass (self : Self) : Runtime Unit :=
  setMemory self .memory fun memory ↦
    { memory with passes := memory.passes.filter (· ≠ self.thread) }

/-- `dispatchAvailable`. -/
def dispatchAvailable (self : Self) (submitted : Bool) : Runtime ℕ :=
  withStateLock self do
    checkLease self submitted
    Prog.ensuring
      (do
        let items ← QueueStore.list
        dispatchItems self items items 0)
      (leavePass self)

/-! ### The execution of an item -/

/-- `finishItem`. -/
def finishItem (item : QueueItem) (result : AttemptCompletionEvidence) : Runtime Unit := do
  let current ← QueueStore.readAs (.finishItem item.jobId result.attemptId) item.jobId
  let now ← currentDate
  let _ ← QueueStore.update current (projectQueueCompletion result now)
  return ()

/-- Claim and launch the attempt the item is bound to; nothing when the item is not running any
more. -/
def claimAndLaunch (self : Self) (item : QueueItem) : Runtime (Option AttemptId) := do
  let current ← QueueStore.read item.jobId
  match current.status, current.attemptId, current.dispatchOperationId with
  | .running, some attemptId, some dispatchOperationId =>
    let _ ← Conductor.claimReservedAttempt self attemptId dispatchOperationId
    reachFailpoint .afterAttemptClaimed
    let _ ← Conductor.launchClaimedAttempt self attemptId dispatchOperationId
    return some attemptId
  | _, _, _ => return none

/-- The `try` block of `executeItem`. -/
def runItem (self : Self) (item : QueueItem) : Runtime Unit := do
  match ← withStateLock self (claimAndLaunch self item) with
  | none => return ()
  | some attemptId =>
    let result ← Conductor.waitForAttempt self attemptId
    withStateLock self (finishItem item result)

/-- The `catch` block of `executeItem` for an error that is not a failpoint's. -/
def failItem (item : QueueItem) (error : RuntimeError) : Runtime Unit := do
  let current ← QueueStore.readAs (.failItem item.jobId) item.jobId
  if current.status = .cancelled then
    return ()
  let _ ← QueueStore.update current
    { status := some .failed, message := some (some error.message) }
  return ()

/-- `executeItem`. -/
def executeItem (self : Self) (item : QueueItem) : Runtime Unit :=
  tryCatch (runItem self item) fun error ↦
    match error with
    | .dispatchFailpoint .. => throw error
    | error => withStateLock self (failItem item error)

/-- The promise in `active`: the entry is deleted before it settles. -/
def runExecution (self : Self) (item : QueueItem) : Runtime Unit := do
  let ending ← (executeItem self item).attempt
  setMemory self .memory fun memory ↦
    { memory with active := memory.active.filter fun entry ↦ entry.1 ≠ item.jobId }
  setMemory self .settle fun memory ↦
    { memory with settled := memory.settled ++ [(self.thread, ending)] }

/-! ### Owner requests -/

/-- `cancel`. -/
def cancel (self : Self) (jobId : JobId) : Runtime QueueItem :=
  withStateLock self do
    let item ← QueueStore.read jobId
    if item.status.isTerminal then
      return item
    match item.status, item.attemptId with
    | .running, some attemptId =>
      let cancelling ← QueueStore.update item
        { status := some .cancelling
          message := some (some
            "Cancellation requested; awaiting terminal attempt evidence") }
      let requested ← Conductor.cancelAttempt self attemptId
      if !requested then
        let attempt ← Conductor.cancelReservedAttempt self attemptId
        if attempt.status.isTerminal then
          return ← QueueStore.update cancelling
            { status := some .cancelled
              message := some (some "Cancelled before worker execution") }
      return cancelling
    | .cancelling, _ => return item
    | status, attemptId =>
      match status, attemptId with
      | .dispatching, some attemptId =>
        let _ ← Conductor.cancelReservedAttempt self attemptId
      | _, _ => pure ()
      QueueStore.update item
        { status := some .cancelled, message := some (some "Cancellation requested") }

/-- `retry`. -/
def retry (self : Self) (jobId : JobId) : Runtime QueueItem :=
  withStateLock self do
    let item ← QueueStore.read jobId
    if !item.status.isTerminal then
      throw (.plain ("Queue item " ++ jobId ++ " is not terminal"))
    match item.attemptId with
    | some attemptId =>
      let attempt ← Conductor.getAttempt attemptId
      if !attempt.status.isTerminal then
        throw (.plain ("Attempt " ++ attemptId.text ++ " is still " ++ attempt.status.text ++
          "; retry would duplicate active work"))
      let _ ← Conductor.releaseAttemptExternalResources self attemptId
    | none => pure ()
    QueueStore.update item
      { status := some .queued
        dispatchOperationId := some none
        attemptId := some none
        completion := some none
        message := some none }

/-! ### Startup recovery -/

/-- The attempts of a dispatch operation. -/
def attemptsOf (attempts : List AttemptManifest) (jobId : JobId) (dispatchOperationId : Uuid) :
    List AttemptManifest :=
  attempts.filter fun attempt ↦
    attempt.dispatchOperationId = some dispatchOperationId ∧ attempt.jobId = jobId

/-- The patch the first loop of recovery gives a dispatching item. -/
def dispatchingPatch (attempts : List AttemptManifest) (item : QueueItem) : QueuePatch :=
  match item.dispatchOperationId with
  | none =>
    { status := some .needsInput
      message := some (some "Dispatching item lacks a durable operation identity") }
  | some dispatchOperationId =>
    match attemptsOf attempts item.jobId dispatchOperationId with
    | [] =>
      { status := some .queued
        dispatchOperationId := some none
        attemptId := some none
        message := some (some "Recovered dispatch intent written before attempt reservation") }
    | [attempt] =>
      { status := some .running
        attemptId := some (some attempt.attemptId)
        message := some (some "Recovered queue-to-attempt binding from dispatch operation") }
    | matching =>
      { status := some .needsInput
        message := some (some ("Dispatch operation " ++ toString dispatchOperationId ++ " owns " ++
          toString matching.length ++ " attempts; automatic launch is prohibited")) }

/-- The first loop: dispatching items. -/
def recoverDispatching (attempts : List AttemptManifest) : List QueueItem → Runtime Unit
  | [] => return ()
  | item :: rest => do
    if item.status = .dispatching then
      let _ ← QueueStore.update item (dispatchingPatch attempts item)
    recoverDispatching attempts rest

/-- The patch of an item whose attempt is closed and safe to repeat. -/
def requeuePatch (item : QueueItem) (attemptId : AttemptId) : QueuePatch :=
  if item.status = .cancelling then
    { status := some .cancelled
      dispatchOperationId := some none
      attemptId := some item.attemptId
      completion := some none
      automaticRetryCount := some item.automaticRetryCount
      message := some (some ("Recovered and cancelled orphan " ++ attemptId.text)) }
  else
    { status := some .queued
      dispatchOperationId := some none
      attemptId := some none
      completion := some none
      automaticRetryCount := some (item.automaticRetryCount + 1)
      message := some (some ("Recovered orphan " ++ attemptId.text ++
        "; a new attempt is safe")) }

/-- What recovery does with an active item once its attempt was recovered. -/
def settleRecovered (item : QueueItem) (attemptId : AttemptId)
    (disposition : Conductor.Disposition) (manifest : AttemptManifest) : Runtime Unit := do
  if disposition = .safeToRetry then
    let contract ← ArtifactStore.readJob item.jobId
    if item.status ≠ .cancelling ∧
        contract.resources.maxAutomaticRetries ≤ item.automaticRetryCount then
      let _ ← QueueStore.update item
        { status := some .needsInput
          message := some (some ("Automatic retry budget exhausted after " ++
            toString item.automaticRetryCount ++ " retries; owner review is required")) }
      return ()
    let _ ← QueueStore.update item (requeuePatch item attemptId)
    return ()
  else
    let cleanup ← Prog.attempt (E := RuntimeError) (Conductor.getAttemptCleanup attemptId)
    let cleanupStatus : AttemptCleanupStatus := match cleanup with
      | .ok cleanup => cleanup.status
      | .error _ => .unknown
    let _ ← QueueStore.update item
      { status := some .needsInput
        message := some (some (
          if disposition = .stillRunning then
            "Guardian " ++ toString ((manifest.guardian.map
              ProcessGuardianIdentity.guardianPid).getD 0) ++ " for " ++ attemptId.text ++
              " is still alive; automatic duplication is prohibited"
          else "Attempt " ++ attemptId.text ++ " cleanup is " ++ cleanupStatus.text ++
            "; automatic duplication is prohibited")) }
    return ()

/-- Recover one active item. -/
def recoverActiveItem (self : Self) (item : QueueItem) : Runtime Unit :=
  match item.attemptId with
  | none => do
    let _ ← QueueStore.update item
      { status := some .needsInput
        message := some (some (item.status.text ++ " item lacks an attempt identity")) }
    return ()
  | some attemptId => do
    let manifest ← Conductor.getAttempt attemptId
    if manifest.status.isTerminal then
      let result ← Conductor.waitForAttempt self attemptId
      finishItem item result
    else
      let (disposition, manifest) ← Conductor.recoverInterruptedAttempt self attemptId
      settleRecovered item attemptId disposition manifest

/-- The second loop: active items. -/
def recoverActive (self : Self) : List QueueItem → Runtime Unit
  | [] => return ()
  | item :: rest => do
    if item.status.isActive then
      recoverActiveItem self item
    recoverActive self rest

/-- The third loop: attempts no item names. -/
def recoverUnreferenced (self : Self) (referenced : List AttemptId) :
    List AttemptManifest → Runtime Unit
  | [] => return ()
  | attempt :: rest => do
    if attempt.status.isTerminal = false ∧ attempt.attemptId ∉ referenced then
      let _ ← Conductor.recoverInterruptedAttempt self attempt.attemptId
    recoverUnreferenced self referenced rest

/-- `recoverInterruptedItems`. -/
def recoverInterruptedItems (self : Self) : Runtime Unit := do
  let attempts ← ArtifactStore.listAttempts
  let items ← QueueStore.list
  recoverDispatching attempts items
  let items ← QueueStore.list
  recoverActive self items
  let items ← QueueStore.list
  recoverUnreferenced self (items.filterMap QueueItem.attemptId) attempts

/-! ### The loop and its exits -/

/-- `acquireLease`. -/
def acquireLease (self : Self) : Runtime Unit := do
  match ← QueueStore.acquireLease self with
  | some lease =>
    setMemory self .memory fun memory ↦ { memory with lease := some lease, exiting := false }
  | none => throw (.plain "Another Conductor dispatcher owns the queue")

/-- `releaseLease`. -/
def releaseLease (self : Self) : Runtime Unit := do
  let lease ← .atomic .forgetLease fun w ↦
    let memory := w.dispatcher self.process
    (.ok memory.lease,
      w.setDispatcher self.process { memory with lease := none, exiting := false })
  match lease with
  | some lease => QueueStore.releaseLease lease
  | none => return ()

/-- Abort the attempts of the listed items that are active. -/
def abortActive (self : Self) : List QueueItem → Runtime Unit
  | [] => return ()
  | item :: rest => do
    match item.attemptId with
    | some attemptId =>
      if item.status.isActive then
        let _ ← Conductor.cancelAttempt self attemptId
    | none => pure ()
    abortActive self rest

/-- `cancelActiveAttempts`. -/
def cancelActiveAttempts (self : Self) : Runtime Unit := do
  let items ← QueueStore.list
  abortActive self items

/-- `Promise.allSettled(this.active.values())`: the promises are those active now. From here on the
caller is on its way to release the lease. -/
def drain (self : Self) : Runtime Unit := do
  let active ← .atomic .exit fun w ↦
    let memory := w.dispatcher self.process
    (.ok memory.active, w.setDispatcher self.process { memory with exiting := true })
  .await .settle
    (fun w ↦ active.all fun entry ↦
      (w.dispatcher self.process).settled.any fun settled ↦ settled.1 = entry.2)
    fun w ↦ (.ok (), w)

/-- `Promise.race([...this.active.values(), delay(this.pollIntervalMs)])`. -/
def raceActive (self : Self) (active : List (JobId × ℕ)) : Runtime Unit :=
  let first (w : World) : Option (ℕ × Except RuntimeError Unit) :=
    (w.dispatcher self.process).settled.find? fun settled ↦
      active.any fun entry ↦ entry.2 = settled.1
  .await .settle (fun w ↦ w.outside.timer || (first w).isSome) fun w ↦
    (if w.outside.timer then .ok ()
      else match first w with
        | some settled => settled.2
        | none => .ok (), w)

/-- `exitWhenIdle && this.active.size === 0 && dispatched === 0`, where `candidate` is what it says
besides `active`: `none` when the run is over, else what is active. -/
def decideIdle (self : Self) (candidate : Bool) : Runtime (Option (List (JobId × ℕ))) :=
  .atomic (.idle candidate) fun w ↦
    let memory := w.dispatcher self.process
    if candidate && memory.active.isEmpty then
      (.ok none, w.setDispatcher self.process { memory with exiting := true })
    else (.ok (some memory.active), w)

/-- `runLoop`. -/
def runLoop (self : Self) (exitWhenIdle : Bool) : (fuel : ℕ) → Runtime Unit
  | 0 => blocked
  | fuel + 1 => do
    let memory ← getMemory self
    if memory.stopped then
      drain self
    else
      match memory.lease with
      | none => throw (.plain "Dispatcher lease is unavailable")
      | some lease =>
        let renewed ← QueueStore.renewLease self lease
        setMemory self .memory fun memory ↦ { memory with lease := some renewed }
        let dispatched ← dispatchAvailable self false
        match ← decideIdle self (exitWhenIdle && dispatched = 0) with
        | none => return ()
        | some active =>
          raceActive self active
          runLoop self exitWhenIdle fuel

/-- The promise `this.loop`: an error aborts the active attempts and waits for them, and the lease is
released in any case. -/
def runLoopPromise (self : Self) (fuel : ℕ) : Runtime Unit := do
  let ending ← Prog.attempt (E := RuntimeError) <| Prog.ensuring
    (tryCatch (runLoop self false fuel) fun error ↦ do
      cancelActiveAttempts self
      drain self
      throw error)
    (do
      setMemory self .memory fun memory ↦ { memory with loop := none }
      releaseLease self)
  setMemory self .settle fun memory ↦
    { memory with settled := memory.settled ++ [(self.thread, ending)] }

/-- Recovery failed: `start` gives the lease back without waiting for anything. -/
def abandonStart {A : Type} (self : Self) (error : RuntimeError) : Runtime A := do
  setMemory self .abandon fun memory ↦ { memory with stopped := true, exiting := true }
  releaseLease self
  throw error

/-- `start`. -/
def start (self : Self) (fuel : ℕ) : Runtime Unit := do
  let memory ← getMemory self
  if memory.loop.isSome then
    return ()
  acquireLease self
  tryCatch
    (do
      setMemory self .memory fun memory ↦ { memory with stopped := false }
      recoverInterruptedItems self)
    (abandonStart self)
  .fork .memory (fun _ _ ↦ .runLoop fuel) fun w n ↦
    let memory := w.dispatcher self.process
    { w.setDispatcher self.process { memory with loop := some n } with leaseThread := some n }

/-- `stop`. -/
def stop (self : Self) (cancelActive : Bool) : Runtime Unit := do
  setMemory self .memory fun memory ↦ { memory with stopped := true }
  if cancelActive then
    cancelActiveAttempts self
  let memory ← getMemory self
  match memory.loop with
  | none => return ()
  | some thread =>
    .await .settle
      (fun w ↦ (w.dispatcher self.process).settled.any fun settled ↦ settled.1 = thread)
      fun w ↦
        (match (w.dispatcher self.process).settled.find? fun settled ↦ settled.1 = thread with
          | some settled => settled.2
          | none => .ok (), w)

/-- `runUntilIdle`. -/
def runUntilIdle (self : Self) (fuel : ℕ) : Runtime Unit := do
  let memory ← getMemory self
  if memory.loop.isSome then
    throw (.plain "Dispatcher loop is already running")
  acquireLease self
  setMemory self .memory fun memory ↦ { memory with stopped := false }
  Prog.ensuring
    (tryCatch
      (do
        recoverInterruptedItems self
        runLoop self true fuel)
      fun error ↦ do
        cancelActiveAttempts self
        drain self
        throw error)
    (do
      setMemory self .memory fun memory ↦ { memory with stopped := true }
      releaseLease self)

/-- `waitForLaunchHandoff`. -/
def waitForLaunchHandoff (attemptId : AttemptId) : (fuel : ℕ) → Runtime Unit
  | 0 => blocked
  | fuel + 1 => do
    let late ← askOutside fun o ↦ .ok o.handoffDeadline
    if late then
      throw (.plain ("Attempt " ++ attemptId.text ++ " did not complete its launch handoff"))
    let attempt ← Conductor.getAttempt attemptId
    if !attempt.status.isUnlaunched then
      return ()
    waitForLaunchHandoff attemptId fuel

/-- `submit`. -/
def submit (self : Self) (contract : JobContract) (options : QueueOptions) (fuel : ℕ) :
    Runtime QueueItem := do
  let memory ← getMemory self
  if memory.lease.isNone then
    throw (.plain "The dispatcher must own the queue before submission")
  let submission ← enqueue contract options
  let _ ← dispatchAvailable self true
  let item ← QueueStore.read submission.jobId
  match item.status, item.attemptId with
  | .running, some attemptId =>
    waitForLaunchHandoff attemptId fuel
    QueueStore.read submission.jobId
  | _, _ => return item

end Dispatcher

end CodeConductor
