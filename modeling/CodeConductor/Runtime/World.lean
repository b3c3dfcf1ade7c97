import CodeConductor.Async.RelyGuarantee
import CodeConductor.Contracts.Errors
import CodeConductor.Contracts.Job

/-!
# The world a runtime process lives in

The programs of the runtime run over one `World`: the records of the stores, the lease of the queue,
the memory of each process, and the surroundings nobody in the repository controls.

## Records

Attempts and queue items are kept as their **journals**, newest snapshot first: reading a record is
reading the head, and a transition pushes a snapshot over the one it expects to find there. That
reading and pushing are single steps, and that a push over a stale snapshot fails, is what the
modules on the journal establish of the files.

The lease is likewise kept as what the lease files promise: at most one lease at a time, granted
when there is none or its process is dead, with growing generations.

## Surroundings

Whatever comes from outside — Git, worker and container processes, adapters, the clock, files read
as evidence — is an answer of the current `Outside`. A call may replace it between any two steps, so a
run sees every sequence of answers. In the same way a call may make file operations of the stores
fail; systems differ in whether that call is made.

## Processes

A process is one `Conductor` with its `DurableDispatcher`; its identity is its
`launcherInstanceId`. What dies with it is its `ConductorMemory` and its `DispatcherMemory`.
-/

namespace CodeConductor

open Async

/-! ### Steps -/

/-- The atomic steps of the programs. -/
inductive RuntimeStep where
  /-- An answer of the surroundings is read, or they change. -/
  | outside
  /-- A field of a process is read or written. -/
  | memory
  | readJob (jobId : JobId)
  | reserveJob (jobId : JobId)
  | listItems
  | readItem (jobId : JobId)
  | createItem (jobId : JobId)
  | commitItem (jobId : JobId)
  | projectItem (jobId : JobId)
  | listAttempts
  | readAttempt (attemptId : AttemptId)
  | createAttempt (attemptId : AttemptId)
  | commitAttempt (attemptId : AttemptId)
  | projectAttempt (attemptId : AttemptId)
  | readCleanup (attemptId : AttemptId)
  | commitCleanup (attemptId : AttemptId)
  | projectCleanup (attemptId : AttemptId)
  /-- `launchAttempt`. -/
  | launch (attemptId : AttemptId)
  /-- The worker's process tree is started. -/
  | startWorker (attemptId : AttemptId)
  /-- `cancelAttempt`. -/
  | abort (attemptId : AttemptId)
  /-- A promise settles. -/
  | settle
  /-- A caller joins the queue at `stateMutation`. -/
  | enterLock
  /-- A caller gets the state lock. -/
  | awaitLock
  | releaseLock
  | acquireLease
  | renewLease
  /-- `this.lease` is forgotten before the lease is released. -/
  | forgetLease
  | releaseLease
  /-- A dispatch pass checks the lease; `submitted` if it belongs to a `submit`. -/
  | checkLease (submitted : Bool)
  /-- A dispatch pass chooses an item. -/
  | select (jobId : JobId)
  /-- A dispatch pass meets a rejected reservation. -/
  | reservationRejected (jobId : JobId) (error : RuntimeError)
  /-- `executeItem` starts in the background. -/
  | dispatch (jobId : JobId)
  /-- `finishItem` reads the item it is about to close. -/
  | finishItem (jobId : JobId) (attemptId : AttemptId)
  /-- The error handler of `executeItem` reads the item it is about to fail. -/
  | failItem (jobId : JobId)
  /-- An exit path takes the promises it waits for before it releases the lease. -/
  | exit
  /-- The loop looks whether an idle run is over; `candidate` if nothing was dispatched in one. -/
  | idle (candidate : Bool)
  /-- A failed start decides to release the lease. -/
  | abandon
  /-- Never enabled: the caller waits for ever. -/
  | blocked
  deriving DecidableEq, Repr

/-! ### The surroundings -/

/-- One run of a guarded process tree: the guardian's identity if it became ready, the worker's pid
if it was spawned, and what the run ended with. -/
structure ProcessRun where
  guardian : Option ProcessGuardianIdentity := none
  workerPid : Option ℕ := none
  result : Except RuntimeError ProcessResult

/-- The phase a command belongs to. -/
inductive CommandPhase where
  | setup | acceptance
  deriving DecidableEq, Repr

/-- The text of a phase. -/
def CommandPhase.text : CommandPhase → String
  | setup => "setup"
  | acceptance => "acceptance"

instance : ToString CommandPhase := ⟨CommandPhase.text⟩

/-- What `executeCommand` meets: whether the working directory resolves, whether the policy admits
the command, the container of a sandboxed command, the run, and the cleanup of the container. -/
structure CommandRun where
  cwd : Except RuntimeError Unit := .ok ()
  policy : Except RuntimeError Unit := .ok ()
  resource : Except RuntimeError ExternalResource
  run : ProcessRun
  cleanup : Option ProcessResult := none

/-- The files a proposal is bound by. -/
structure ProposalFiles where
  eligibleForReview : Bool
  patchSha256 : String
  patchBytes : ℕ
  verificationSha256 : String
  deriving DecidableEq, Repr

/-- The answers of everything outside the stores. -/
structure Outside where
  /-- `new Date()`. -/
  now : Timestamp
  /-- `workers.get(id).description.available`, if the adapter is registered. -/
  adapter : String → Option Bool
  /-- The checks of `prepareJob`. -/
  prepareJob : JobContract → Except RuntimeError Unit
  /-- `sandboxProfiles.verify`. -/
  verifySandbox : ExecutionBoundary → Except RuntimeError Unit
  /-- `isProcessAlive`. -/
  isProcessAlive : ℕ → Bool
  /-- The evidence files of an attempt. -/
  proposalFiles : AttemptId → Except RuntimeError ProposalFiles
  /-- `workspaces.create`. -/
  createWorkspace : AttemptId → Except RuntimeError AttemptWorkspace
  /-- `workspaces.composeProposalBaseline`. -/
  composeBaseline : AttemptId → Except RuntimeError AttemptWorkspace
  /-- `workspaces.remove`. -/
  removeWorkspace : AttemptId → Except RuntimeError Unit
  /-- `budgetMonitor.assertWithinBudget`. -/
  budget : AttemptId → Except RuntimeError Unit
  /-- `remainingTimeout`. -/
  remainingTimeout : AttemptId → Except RuntimeError Unit
  /-- `deadlineSignal.aborted`. -/
  deadlinePassed : AttemptId → Bool
  /-- `writeVerification`. -/
  writeVerification : AttemptId → Except RuntimeError Unit
  /-- The commands of a phase. -/
  command : AttemptId → CommandPhase → ℕ → CommandRun
  /-- Whether Git reports a clean repository after the setup. -/
  repositoryClean : AttemptId → Except RuntimeError Bool
  /-- `buildInvocation` and `captureWorkerExecutionProfile`: whether the profile is complete. -/
  workerProfile : AttemptId → Except RuntimeError Bool
  /-- `validateWorkerExecutionProfile`. -/
  validateProfile : AttemptId → Except RuntimeError Unit
  /-- The worker's process tree. -/
  worker : AttemptId → ProcessRun
  /-- `captureProposal`: whether the changed paths are in scope. -/
  captureProposal : AttemptId → Except RuntimeError Bool
  /-- `captureCurrentPatch`: whether the patch is still the captured one. -/
  proposalStable : AttemptId → Except RuntimeError Bool
  /-- The cleanup command of an external resource. -/
  externalCleanup : AttemptId → String → ProcessRun
  /-- Whether the standard error of that command says there is no such container. -/
  noSuchContainer : AttemptId → String → Except RuntimeError Bool
  /-- Whether the poll interval ran out first. -/
  timer : Bool
  /-- Whether the launch handoff took too long. -/
  handoffDeadline : Bool
  /-- The configured failpoint, by the message it throws. -/
  failpoint : DispatchFailpointName → Option String

/-! ### The memory of a process -/

/-- The private fields of a `Conductor`. -/
structure ConductorMemory where
  /-- `activeAttempts`: the abort signal of each attempt in execution. -/
  activeAttempts : AttemptId → Option Bool := fun _ ↦ none
  /-- `executions`: the thread of each attempt in execution. -/
  executions : AttemptId → Option ℕ := fun _ ↦ none
  /-- How the promises in `executions` settled. -/
  settled : ℕ → Option (Except RuntimeError AttemptManifest) := fun _ ↦ none

/-- The lease of the queue: who holds it and which one it is. -/
structure QueueLease where
  process : ℕ
  generation : ℕ
  deriving DecidableEq, Repr

/-- The private fields of a `DurableDispatcher`. -/
structure DispatcherMemory where
  /-- `lease`. -/
  lease : Option QueueLease := none
  /-- `stopped`. -/
  stopped : Bool := true
  /-- `loop`: the thread of the loop's promise. -/
  loop : Option ℕ := none
  /-- `active`: the thread executing the item of each job, in insertion order. -/
  active : List (JobId × ℕ) := []
  /-- The callers queueing at `stateMutation`; the first has the state lock. -/
  lockQueue : List ℕ := []
  /-- How the promises in `active` and `loop` settled, in the order they did. -/
  settled : List (ℕ × Except RuntimeError Unit) := []
  /-- Ghost: the threads in a dispatch pass that has checked the lease. -/
  passes : List ℕ := []
  /-- Ghost: an exit path has decided to release the lease. -/
  exiting : Bool := false

/-! ### The world -/

/-- Ghost: a worker process that was started. -/
structure WorkerStart where
  attemptId : AttemptId
  thread : ℕ
  process : ℕ
  dispatchOperationId : Uuid
  deriving DecidableEq, Repr

/-- Ghost: an item a dispatch pass chose, and the queue snapshot it chose from. -/
structure Selection where
  dispatchOperationId : Uuid
  item : QueueItem
  items : List QueueItem
  deriving DecidableEq, Repr

/-- Everything the programs of the runtime read and change. -/
structure World where
  /-- The contracts of the jobs. -/
  contracts : List JobContract := []
  /-- The job ids with a directory under the queue's items. -/
  itemIds : List JobId := []
  /-- The journal of each queue item. -/
  items : JobId → List QueueItem := fun _ ↦ []
  /-- The attempt ids with a directory. -/
  attemptIds : List AttemptId := []
  /-- The journal of each attempt. -/
  attempts : AttemptId → List AttemptManifest := fun _ ↦ []
  /-- The cleanup record of each attempt. -/
  cleanups : AttemptId → Option AttemptCleanupRecord := fun _ ↦ none
  /-- The lease of the queue. -/
  lease : Option QueueLease := none
  /-- `lease-generation.json`. -/
  generation : ℕ := 0
  /-- The processes that have died. -/
  dead : List ℕ := []
  conductor : ℕ → ConductorMemory := fun _ ↦ {}
  dispatcher : ℕ → DispatcherMemory := fun _ ↦ {}
  /-- `maxConcurrent`. -/
  maxConcurrent : ℕ := 1
  outside : Outside
  /-- The error each step of the stores fails with, if it does. -/
  failure : RuntimeStep → Option RuntimeError := fun _ ↦ none
  /-- The next random UUID. -/
  uuid : Uuid := 0
  /-- Ghost: the thread that took each attempt from claimed to preparing. -/
  preparedBy : AttemptId → Option ℕ := fun _ ↦ none
  /-- Ghost: the attempt each execution thread was launched for. -/
  launchedFor : ℕ → Option AttemptId := fun _ ↦ none
  /-- Ghost: the workers that were started, newest first. -/
  workerStarts : List WorkerStart := []
  /-- Ghost: the items dispatch passes chose, newest first. -/
  selections : List Selection := []
  /-- Ghost: the thread that answers for the lease. -/
  leaseThread : Option ℕ := none

/-- The contract of a job. -/
def World.contract? (w : World) (jobId : JobId) : Option JobContract :=
  w.contracts.find? fun contract ↦ contract.jobId = jobId

theorem World.jobId_of_contract? {w : World} {jobId : JobId} {contract : JobContract}
    (h : w.contract? jobId = some contract) : contract.jobId = jobId := by
  simpa using List.find?_some h

/-- The newest snapshot of an attempt. -/
def World.attempt? (w : World) (id : AttemptId) : Option AttemptManifest := (w.attempts id).head?

/-- The newest snapshot of a queue item. -/
def World.item? (w : World) (jobId : JobId) : Option QueueItem := (w.items jobId).head?

/-! ### What the stores write -/

/-- The world after thread `thread` committed `updated` over `current`. -/
def World.pushAttempt (w : World) (thread : ℕ) (current updated : AttemptManifest) : World :=
  { w with
    attempts := Function.update w.attempts current.attemptId
      (updated :: w.attempts current.attemptId)
    preparedBy :=
      if current.status = .claimed ∧ updated.status = .preparing then
        Function.update w.preparedBy current.attemptId (some thread)
      else w.preparedBy }

/-- The world after the directory of a new attempt was published. -/
def World.createAttempt (w : World) (manifest : AttemptManifest) : World :=
  { w with
    attemptIds := w.attemptIds ++ [manifest.attemptId]
    attempts := Function.update w.attempts manifest.attemptId [manifest]
    cleanups := Function.update w.cleanups manifest.attemptId
      (some (createAttemptCleanupRecord manifest.attemptId manifest.createdAt)) }

/-- The world after an item's `updated` snapshot was committed. -/
def World.pushItem (w : World) (updated : QueueItem) : World :=
  { w with items := Function.update w.items updated.jobId (updated :: w.items updated.jobId) }

/-- The world after the directory of a new item was published. -/
def World.createItem (w : World) (item : QueueItem) : World :=
  { w with
    itemIds := w.itemIds ++ [item.jobId]
    items := Function.update w.items item.jobId [item] }

/-! ### Calls -/

/-- The calls of the runtime. -/
inductive RuntimeCall where
  /-- The surroundings change. -/
  | changeOutside (outside : Outside)
  /-- The storage begins or ceases to fail. -/
  | failStorage (failure : RuntimeStep → Option RuntimeError)
  | reservePreparedAttempt (jobId : JobId) (parentAttemptIds : List AttemptId)
    (dispatchOperationId : Option Uuid)
  | claimReservedAttempt (attemptId : AttemptId) (dispatchOperationId : Uuid)
  | launchClaimedAttempt (attemptId : AttemptId) (dispatchOperationId : Uuid)
  | startReservedAttempt (attemptId : AttemptId) (dispatchOperationId : Uuid)
  | cancelAttempt (attemptId : AttemptId)
  | cancelReservedAttempt (attemptId : AttemptId)
  | recoverInterruptedAttempt (attemptId : AttemptId)
  | enqueue (contract : JobContract) (options : QueueOptions)
  | submit (contract : JobContract) (options : QueueOptions) (fuel : ℕ)
  | start (fuel : ℕ)
  | stop (cancelActive : Bool)
  | runUntilIdle (fuel : ℕ)
  | cancel (jobId : JobId)
  | retry (jobId : JobId)
  | reconcile (choice : ℕ)
  /-- Started by `launchAttempt`. -/
  | executeAttempt (contract : JobContract) (manifest : AttemptManifest)
    (dispatchOperationId : Uuid)
  /-- Started by a dispatch pass. -/
  | executeItem (item : QueueItem)
  /-- Started by `start`. -/
  | runLoop (fuel : ℕ)

/-- A computation of the runtime. -/
abbrev Runtime (A : Type) := Prog RuntimeStep World RuntimeCall RuntimeError A

/-- Who runs a computation: its process and its thread. -/
structure Self where
  process : ℕ
  thread : ℕ
  deriving DecidableEq, Repr

/-- Ask the surroundings. -/
def askOutside {A : Type} (answer : Outside → Except RuntimeError A) : Runtime A :=
  .read .outside fun w ↦ answer w.outside

/-- `new Date()`. -/
def currentDate : Runtime Timestamp := askOutside fun o ↦ .ok o.now

/-- Change the memory of the own conductor. -/
def World.setConductor (w : World) (p : ℕ) (memory : ConductorMemory) : World :=
  { w with conductor := Function.update w.conductor p memory }

/-- The world after thread `thread` was entered as the execution of an attempt. -/
def World.launch (w : World) (p : ℕ) (attemptId : AttemptId) (thread : ℕ) : World :=
  { w.setConductor p
      { w.conductor p with
        activeAttempts := Function.update (w.conductor p).activeAttempts attemptId (some false)
        executions := Function.update (w.conductor p).executions attemptId (some thread) } with
    launchedFor := Function.update w.launchedFor thread (some attemptId) }

/-- The world after an attempt left the maps of its conductor. -/
def World.leaveMaps (w : World) (p : ℕ) (attemptId : AttemptId) : World :=
  w.setConductor p
    { w.conductor p with
      activeAttempts := Function.update (w.conductor p).activeAttempts attemptId none
      executions := Function.update (w.conductor p).executions attemptId none }

/-- The world after the promise of an execution settled. -/
def World.settleExecution (w : World) (p thread : ℕ)
    (ending : Except RuntimeError AttemptManifest) : World :=
  w.setConductor p
    { w.conductor p with
      settled := Function.update (w.conductor p).settled thread (some ending) }

/-- The world after a worker was started. -/
def World.startWorker (w : World) (p thread : ℕ) (attemptId : AttemptId)
    (dispatchOperationId : Uuid) : World :=
  { w with workerStarts := ⟨attemptId, thread, p, dispatchOperationId⟩ :: w.workerStarts }

/-- Change the memory of the own dispatcher. -/
def World.setDispatcher (w : World) (p : ℕ) (memory : DispatcherMemory) : World :=
  { w with dispatcher := Function.update w.dispatcher p memory }

end CodeConductor
