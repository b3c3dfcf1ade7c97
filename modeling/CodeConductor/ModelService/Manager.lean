import CodeConductor.Async.Pool
import CodeConductor.Contracts.Errors

/-!
# The managers of the model service

A `ModelServiceManager` keeps a copy of the durable record `model-service.json` in memory, and the
handle of the worker process it started, if it did. Every transition **advances** the copy in memory
and then replaces the file by it, with an atomic rename that checks nothing. Before it advances, some
transitions read the file again and adopt it when its revision is higher; others advance the copy
they have. The transitions of one manager follow each other; the handler of an unexpected exit of
its worker runs whenever the worker's completion settles.

`ServiceWorld` is the file, the memories of the managers, the processes, and what the managers ask
their surroundings.

## What is left out

The managers have one profile, so the fingerprints agree and no ownership is foreign. The fence of a
start is asked for and given as the surroundings have it. The fields of the record that no transition
decides on (the evidence of the launch, what was observed, the times) are not modelled, nor is a
failure of the file system. Process ids are not used again. The loops that wait for the endpoint take
the number of their rounds; one that has used them up waits for ever.
-/

namespace CodeConductor

open Async Async.Prog

namespace ModelService

/-! ### The record -/

/-- The identity of a manager, which stands for its `instanceId`: its process, and which of the
managers of the process it is. -/
structure ManagerId where
  process : ℕ
  index : ℕ
  deriving DecidableEq, Repr

/-- `ModelServiceState`. -/
inductive ServiceState where
  | offline | starting | ready | busy | stopping | wrongModel | error
  deriving DecidableEq, Repr

/-- `failure.kind`. -/
inductive FailureKind where
  | unconfigured | spawnFailed | startupTimeout | wrongModel | contextUnverified | probeFailed
  | stopRefused | stopUnverified | staleOwner
  deriving DecidableEq, Repr

/-- `failure`. -/
structure ServiceFailure where
  kind : FailureKind
  message : String
  deriving DecidableEq, Repr

/-- `operation.kind`. -/
inductive OperationKind where
  | start | stop
  deriving DecidableEq, Repr

/-- `operation.status`. -/
inductive OperationStatus where
  | requested | completed | failed
  deriving DecidableEq, Repr

/-- `operation`. -/
structure ServiceOperation where
  operationId : Uuid
  kind : OperationKind
  status : OperationStatus
  detail : Option String := none
  deriving DecidableEq, Repr

/-- `ownership`, with the nonce of its guardian. -/
structure Ownership where
  instanceId : ManagerId
  ownerPid : ℕ
  workerPid : ℕ
  nonce : Uuid
  deriving DecidableEq, Repr

/-- `ModelServiceRecord`. -/
structure ModelServiceRecord where
  state : ServiceState
  ownership : Option Ownership := none
  operation : Option ServiceOperation := none
  failure : Option ServiceFailure := none
  revision : ℕ
  deriving DecidableEq, Repr

/-- `blankRecord`. -/
def blankRecord : ModelServiceRecord where
  state := .offline
  revision := 0

/-- `advance`. -/
def ModelServiceRecord.advance (record : ModelServiceRecord)
    (patch : ModelServiceRecord → ModelServiceRecord) : ModelServiceRecord :=
  { patch record with revision := record.revision + 1 }

/-- `completeCurrentOperation`. -/
def ModelServiceRecord.completeCurrentOperation (record : ModelServiceRecord) (detail : String) :
    Option ServiceOperation :=
  record.operation.map fun current ↦
    if current.status = .requested then { current with status := .completed, detail := some detail }
    else current

/-- What a transition makes of the record: the copy in memory it advanced, if there was one, and
what it writes. -/
structure Change where
  base : Option ModelServiceRecord
  value : ModelServiceRecord
  deriving DecidableEq, Repr

/-! ### The managers -/

/-- `OwnedModelProcess`: the worker's pid and the nonce of its guardian. -/
structure OwnedModelProcess where
  pid : ℕ
  nonce : Uuid
  deriving DecidableEq, Repr

/-- The ownership a manager records for its worker. -/
def OwnedModelProcess.ownership (handle : OwnedModelProcess) (manager : ManagerId) : Ownership where
  instanceId := manager
  ownerPid := manager.process
  workerPid := handle.pid
  nonce := handle.nonce

/-- The memory of a manager. The last two fields are no fields of the class: the thread whose
transition is running, which is what `transitionTail` amounts to, and a history no transition reads,
whether the ownership of the handle has yet to reach the file. -/
structure ManagerMemory where
  record : Option ModelServiceRecord := none
  ownedProcess : Option OwnedModelProcess := none
  running : Option ℕ := none
  unwritten : Bool := false
  deriving DecidableEq, Repr

/-- The recorded ownership. -/
def ManagerMemory.ownership (memory : ManagerMemory) : Option Ownership :=
  memory.record.bind ModelServiceRecord.ownership

/-- `canUnload`, which is also the check of `stop`. -/
def ManagerMemory.canUnload (memory : ManagerMemory) (manager : ManagerId) : Bool :=
  match memory.ownership, memory.ownedProcess with
  | some ownership, some handle =>
    ownership.instanceId = manager && ownership.workerPid = handle.pid &&
      ownership.nonce = handle.nonce
  | _, _ => false

/-- `ProbeResult`. -/
structure ProbeResult where
  reachable : Bool := false
  offline : Bool := false
  ready : Bool := false
  model : Option String := none
  context : Option ℕ := none
  detail : Option String := none
  deriving DecidableEq, Repr

/-- What `slotUsage` tells. -/
inductive SlotUsage where
  | idle | busy | unknown
  deriving DecidableEq, Repr

/-- What the surroundings answer. -/
structure Surroundings where
  /-- `probe()`. -/
  probe : ProbeResult := {}
  /-- `inUse()`. -/
  inUse : Except RuntimeError Bool := .ok false
  /-- `slotUsage()`. -/
  slotUsage : SlotUsage := .idle
  /-- `acquireStartFence()`: whether it returns a release function. -/
  startFence : Except RuntimeError Bool := .ok true
  /-- `hashLaunchFiles(executable, args)`. -/
  launchFiles : Except RuntimeError Unit := .ok ()
  /-- `spawnOwnedProcess(input)`: the nonce of the guardian. -/
  spawnOwnedProcess : Except RuntimeError Uuid := .ok 0
  /-- Whether the deadline of a wait has passed. -/
  expired : Bool := false

/-- `ProcessResult["termination"]`. -/
structure Termination where
  proven : Bool
  detail : Option String := none
  deriving DecidableEq, Repr

/-- A replacement of the file: who wrote, what was there, what is there now, and whether the worker
named before was alive. -/
structure RecordWrite where
  writer : ManagerId
  before : Option ModelServiceRecord
  after : ModelServiceRecord
  workerAlive : Bool

/-- The file, the managers, the processes and the surroundings. A worker's completion is settled with
its termination, or with nothing when it rejects. The last field is a history no transition reads:
the replacements of the file, the oldest first. -/
structure ServiceWorld where
  /-- `model-service.json`. -/
  file : Option ModelServiceRecord := none
  memory : ManagerId → ManagerMemory := fun _ ↦ {}
  deadProcesses : List ℕ := []
  deadWorkers : List ℕ := []
  completion : ℕ → Option (Option Termination) := fun _ ↦ none
  nextPid : ℕ := 1
  surroundings : Surroundings := {}
  written : List RecordWrite := []

namespace ServiceWorld

/-- `processAlive` of a worker. -/
def workerAlive (world : ServiceWorld) (pid : ℕ) : Bool := !world.deadWorkers.contains pid

/-- `processAlive` of a manager's process. -/
def ownerAlive (world : ServiceWorld) (pid : ℕ) : Bool := !world.deadProcesses.contains pid

/-- Whether a recorded ownership names a live worker. -/
def namesLive (world : ServiceWorld) (ownership : Option Ownership) : Bool :=
  ownership.any fun ownership ↦ world.workerAlive ownership.workerPid

/-- Replace the memory of a manager. -/
def setMemory (world : ServiceWorld) (manager : ManagerId) (memory : ManagerMemory) :
    ServiceWorld :=
  { world with memory := Function.update world.memory manager memory }

/-- Whether the ownership of the handle has yet to reach the file, once `value` did. -/
def stillUnwritten (world : ServiceWorld) (manager : ManagerId) (value : ModelServiceRecord) :
    Bool :=
  (world.memory manager).unwritten && (world.memory manager).ownedProcess.any fun handle ↦
    value.ownership ≠ some (handle.ownership manager)

/-- `rename(staging, target)`: the file is replaced, whatever it holds. -/
def rename (world : ServiceWorld) (manager : ManagerId) (value : ModelServiceRecord) :
    ServiceWorld :=
  { world.setMemory manager
      { world.memory manager with unwritten := world.stillUnwritten manager value } with
    file := some value
    written := world.written ++
      [⟨manager, world.file, value,
        world.namesLive (world.file.bind ModelServiceRecord.ownership)⟩] }

/-- The manager takes the handle of a new worker, with the record that names it. -/
def takeHandle (world : ServiceWorld) (manager : ManagerId) (handle : OwnedModelProcess)
    (record : ModelServiceRecord) : ServiceWorld :=
  { world.setMemory manager { world.memory manager with
      record := some record, ownedProcess := some handle, unwritten := true } with
    nextPid := world.nextPid + 1 }

end ServiceWorld

/-- `ModelServiceProfile`: what the endpoint has to answer, and whether there is a launch
profile. -/
structure ModelServiceProfile where
  model : String
  context : ℕ
  launch : Bool
  startupTimeoutMs : ℕ
  stopTimeoutMs : ℕ
  deriving DecidableEq, Repr

/-- The atomic steps of the managers. -/
inductive ServiceStep where
  /-- The transition takes its turn, and gives it back. -/
  | enter (manager : ManagerId)
  | leave (manager : ManagerId)
  | readMemory (manager : ManagerId)
  | readRecord (manager : ManagerId)
  /-- `initialize` sets the copy in memory to what was read. -/
  | initialized (manager : ManagerId)
  /-- `refreshLatest` sets the copy in memory to what was read, if that is later. -/
  | adopt (manager : ManagerId)
  /-- `observe` changes the copy in memory alone. -/
  | observe (manager : ManagerId)
  | advance (manager : ManagerId)
  /-- The worker has been started: the manager takes the handle and the ownership. -/
  | own (manager : ManagerId)
  /-- `stop` and `stopFailedStart` drop the handle and the ownership. -/
  | drop (manager : ManagerId)
  /-- The completion of the worker settles for the handler of unexpected exits. -/
  | exit (manager : ManagerId) (handle : OwnedModelProcess)
  /-- The staging file is written. -/
  | stage (manager : ManagerId)
  /-- The rename that replaces the file. -/
  | rename (manager : ManagerId) (change : Change)
  | probe | inUse | slotUsage | acquireStartFence | hashLaunchFiles | releaseFence | processAlive
  | deadline | stopProcess
  /-- The handler of unexpected exits is started. -/
  | watch
  /-- The rounds of a wait are used up. -/
  | blocked
  | outside
  deriving DecidableEq, Repr

/-- The calls: those of the managers, the handler of unexpected exits, and what happens outside. -/
inductive ServiceCall where
  | observe (manager : ManagerId)
  | ensureReady (manager : ManagerId)
  | stop (manager : ManagerId)
  | observeUnexpectedExit (manager : ManagerId) (handle : OwnedModelProcess)
  /-- A worker dies. -/
  | workerDies (pid : ℕ)
  /-- The completion of a worker settles. -/
  | complete (pid : ℕ) (termination : Option Termination)
  /-- The surroundings change. -/
  | surround (surroundings : Surroundings)

/-- A computation of a manager. -/
abbrev ServiceProg (A : Type) := Prog ServiceStep ServiceWorld ServiceCall RuntimeError A

/-! ### Single operations -/

/-- The error of a manager without a record. -/
def notInitialized : RuntimeError := .plain "Model-service state is not initialized"

/-- A look at the surroundings or the processes. -/
def look {A : Type} (l : ServiceStep) (f : ServiceWorld → Except RuntimeError A) : ServiceProg A :=
  .read l f

/-- `this.record`, which a transition returns. -/
def currentRecord (manager : ManagerId) : ServiceProg ModelServiceRecord :=
  look (.readMemory manager) fun world ↦
    match (world.memory manager).record with
    | some record => .ok record
    | none => .error notInitialized

/-- `this.record = this.advance(patch)`. -/
def advance (manager : ManagerId) (patch : ModelServiceRecord → ModelServiceRecord) :
    ServiceProg Change :=
  .atomic (.advance manager) fun world ↦
    match (world.memory manager).record with
    | none => (.error notInitialized, world)
    | some record =>
      (.ok ⟨some record, record.advance patch⟩,
        world.setMemory manager
          { world.memory manager with record := some (record.advance patch) })

/-- `persist`, the record being what it was when it was called. -/
def persist (manager : ManagerId) (change : Change) : ServiceProg Unit := do
  look (.stage manager) fun _ ↦ .ok ()
  .modify (.rename manager change) fun world ↦ world.rename manager change.value

/-- Advance the record, write it, and return the record. -/
def advanceAndPersist (manager : ManagerId) (patch : ModelServiceRecord → ModelServiceRecord) :
    ServiceProg ModelServiceRecord := do
  let change ← advance manager patch
  persist manager change
  currentRecord manager

/-- `reconcilePreviousOwner` on the record that was read: the record it writes, if it does. -/
def reconcilePreviousOwner (manager : ManagerId) (world : ServiceWorld)
    (record : ModelServiceRecord) : Option ModelServiceRecord :=
  match record.ownership with
  | none => none
  | some ownership =>
    if ownership.instanceId = manager then none
    else if world.ownerAlive ownership.ownerPid then none
    else if world.workerAlive ownership.workerPid then
      some (record.advance fun record ↦
        { record with
          state := .error
          failure := some ⟨.stopRefused, "Residual process " ++ toString ownership.workerPid ++
            " is observable but ownership is not transferable"⟩ })
    else
      some (record.advance fun record ↦
        { record with state := .offline, ownership := none, failure := none })

/-- `initialize` from what was read: the copy in memory, and the change to write, if there is one. -/
def initialRecord (manager : ManagerId) (world : ServiceWorld) :
    Option ModelServiceRecord → ModelServiceRecord × Option Change
  | none => (blankRecord, some ⟨none, blankRecord⟩)
  | some record =>
    match reconcilePreviousOwner manager world record with
    | none => (record, none)
    | some reconciled => (reconciled, some ⟨some record, reconciled⟩)

/-- `initialize`. -/
def initializeRecord (manager : ManagerId) : ServiceProg Unit := do
  let known ← look (.readMemory manager) fun world ↦ .ok (world.memory manager).record.isSome
  if known then return ()
  else do
    let stored ← look (.readRecord manager) fun world ↦ .ok world.file
    let change ← .atomic (.initialized manager) fun world ↦
      (.ok (initialRecord manager world stored).2,
        world.setMemory manager
          { world.memory manager with record := some (initialRecord manager world stored).1 })
    match change with
    | none => return ()
    | some change => persist manager change

/-- What `refreshLatest` leaves in memory. -/
def latestRecord (record latest : Option ModelServiceRecord) : Option ModelServiceRecord :=
  match record, latest with
  | record, none => record
  | none, some latest => some latest
  | some record, some latest =>
    if record.revision < latest.revision then some latest else some record

/-- `refreshLatest`. -/
def refreshLatest (manager : ManagerId) : ServiceProg Unit := do
  let latest ← look (.readRecord manager) fun world ↦ .ok world.file
  .modify (.adopt manager) fun world ↦
    world.setMemory manager
      { world.memory manager with record := latestRecord (world.memory manager).record latest }

/-- `localFailure`: the record is returned, and kept nowhere. -/
def localFailure (manager : ManagerId) (kind : FailureKind) (message : String) :
    ServiceProg ModelServiceRecord := do
  let record ← currentRecord manager
  return { record with state := .error, failure := some ⟨kind, message⟩ }

/-- `fail`. -/
def fail (manager : ManagerId) (kind : FailureKind) (message : String)
    (operationId : Option Uuid := none) : ServiceProg ModelServiceRecord :=
  advanceAndPersist manager fun record ↦
    { record with
      state := if kind = .unconfigured then .offline else .error
      failure := some ⟨kind, message⟩
      operation := match operationId, record.operation with
        | some operationId, some operation =>
          some ⟨operationId, operation.kind, .failed, some message⟩
        | _, operation => operation }

/-- Change the copy in memory alone. -/
def observeRecord (manager : ManagerId) (patch : ModelServiceRecord → ModelServiceRecord) :
    ServiceProg ModelServiceRecord :=
  .atomic (.observe manager) fun world ↦
    match (world.memory manager).record with
    | none => (.error notInitialized, world)
    | some record =>
      (.ok (patch record),
        world.setMemory manager { world.memory manager with record := some (patch record) })

/-- `probe`. -/
def probe : ServiceProg ProbeResult := look .probe fun world ↦ .ok world.surroundings.probe

/-- The failure of a mismatch. -/
def mismatchFailure (profile : ModelServiceProfile) (probe : ProbeResult) : ServiceFailure :=
  if probe.model = some profile.model ∧ probe.context ≠ some profile.context then
    ⟨.contextUnverified, "Expected context " ++ toString profile.context ++ "; observed " ++
      (probe.context.map toString).getD "unavailable"⟩
  else
    ⟨.wrongModel, "Expected model " ++ profile.model ++ "; observed " ++
      probe.model.getD "unavailable"⟩

/-! ### Observing -/

/-- `observeReady`. -/
def observeReady (manager : ManagerId) : ServiceProg ModelServiceRecord := do
  refreshLatest manager
  observeRecord manager fun record ↦ { record with state := .ready, failure := none }

/-- `observeMismatch`. -/
def observeMismatch (manager : ManagerId) (profile : ModelServiceProfile) (probe : ProbeResult) :
    ServiceProg ModelServiceRecord := do
  refreshLatest manager
  observeRecord manager fun record ↦
    { record with state := .wrongModel, failure := some (mismatchFailure profile probe) }

/-- `observeTransition`. -/
def observeTransition (manager : ManagerId) (profile : Option ModelServiceProfile) :
    ServiceProg ModelServiceRecord := do
  initializeRecord manager
  match profile with
  | none => localFailure manager .unconfigured "No model-service profile is configured"
  | some profile => do
    let result ← probe
    if result.ready then observeReady manager
    else if result.reachable then observeMismatch manager profile result
    else do
      let owned ← look (.readMemory manager) fun world ↦
        .ok ((world.memory manager).canUnload manager)
      if !result.offline || owned then
        localFailure manager .probeFailed ("Model endpoint state is indeterminate: " ++
          result.detail.getD "probe failed")
      else observeRecord manager fun record ↦ { record with state := .offline, failure := none }

/-! ### Starting -/

/-- `markReady`. -/
def markReady (manager : ManagerId) : ServiceProg ModelServiceRecord := do
  refreshLatest manager
  advanceAndPersist manager fun record ↦ { record with state := .ready, failure := none }

/-- `markMismatch`. -/
def markMismatch (manager : ManagerId) (profile : ModelServiceProfile) (probe : ProbeResult) :
    ServiceProg ModelServiceRecord := do
  refreshLatest manager
  advanceAndPersist manager fun record ↦
    { record with state := .wrongModel, failure := some (mismatchFailure profile probe) }

/-- `processAlive(handle.pid)`. -/
def workerAlive (handle : OwnedModelProcess) : ServiceProg Bool :=
  look .processAlive fun world ↦ .ok (world.workerAlive handle.pid)

/-- `stopWithTimeout`, its rejection caught: the termination of the worker, when it settles within
the timeout. -/
def stopWithTimeout (handle : OwnedModelProcess) : ServiceProg (Option Termination) :=
  .await .stopProcess
    (fun world ↦ (world.completion handle.pid).isSome || world.surroundings.expired)
    fun world ↦ (.ok ((world.completion handle.pid).getD none), world)

/-- The message of a startup whose worker could not be shown to have ended. -/
def unclosedMessage (handle : OwnedModelProcess) : String :=
  "Failed startup left process " ++ toString handle.pid ++ " without closure proof"

/-- Drop the handle and the ownership. -/
def dropOwnership (manager : ManagerId) (patch : ModelServiceRecord → ModelServiceRecord) :
    ServiceProg Change :=
  .atomic (.drop manager) fun world ↦
    match (world.memory manager).record with
    | none =>
      (.error notInitialized,
        world.setMemory manager { world.memory manager with ownedProcess := none })
    | some record =>
      let dropped := record.advance fun record ↦ { patch record with ownership := none }
      (.ok ⟨some record, dropped⟩,
        world.setMemory manager
          { world.memory manager with record := some dropped, ownedProcess := none })

/-- `stopFailedStart`. -/
def stopFailedStart (manager : ManagerId) (handle : OwnedModelProcess) : ServiceProg Unit := do
  let termination ← stopWithTimeout handle
  let alive ← workerAlive handle
  if !termination.any Termination.proven || alive then do
    let change ← advance manager fun record ↦
      { record with state := .error, failure := some ⟨.stopUnverified, unclosedMessage handle⟩ }
    persist manager change
    throw (.plain (unclosedMessage handle))
  else do
    let change ← dropOwnership manager id
    persist manager change

/-- `if (stopOnFailure) await this.stopFailedStart(handle)`. -/
def stopOnFailedStart (manager : ManagerId) (handle : OwnedModelProcess) (stopOnFailure : Bool) :
    ServiceProg Unit :=
  if stopOnFailure then stopFailedStart manager handle else pure ()

/-- `waitForReadiness`. -/
def waitForReadiness (manager : ManagerId) (profile : ModelServiceProfile)
    (handle : OwnedModelProcess) (stopOnFailure : Bool) : ℕ → ServiceProg ModelServiceRecord
  | 0 => .await .blocked (fun _ ↦ false) fun world ↦ (.error notInitialized, world)
  | rounds + 1 => do
    let result ← probe
    if result.ready then
      advanceAndPersist manager fun record ↦
        { record with
          state := .ready
          failure := none
          operation := record.completeCurrentOperation "Model service is ready" }
    else if result.reachable then do
      stopOnFailedStart manager handle stopOnFailure
      markMismatch manager profile result
    else do
      let alive ← workerAlive handle
      if !alive then
        fail manager .spawnFailed ("Owned model process " ++ toString handle.pid ++
          " exited before readiness")
      else do
        let expired ← look .deadline fun world ↦ .ok world.surroundings.expired
        if expired then do
          stopOnFailedStart manager handle stopOnFailure
          fail manager .startupTimeout ("Model readiness exceeded " ++
            toString profile.startupTimeoutMs ++ "ms")
        else waitForReadiness manager profile handle stopOnFailure rounds

/-- `waitForExternalStarter`. -/
def waitForExternalStarter (manager : ManagerId) (profile : ModelServiceProfile) :
    ℕ → ServiceProg ModelServiceRecord
  | 0 => .await .blocked (fun _ ↦ false) fun world ↦ (.error notInitialized, world)
  | rounds + 1 => do
    let expired ← look .deadline fun world ↦ .ok world.surroundings.expired
    if expired then
      fail manager .startupTimeout
        "Another live Conductor owner held the start fence but readiness timed out"
    else do
      let result ← probe
      if result.ready then observeReady manager
      else if result.reachable then observeMismatch manager profile result
      else waitForExternalStarter manager profile rounds

/-- `spawnOwnedProcess`, and what follows in the same turn: the manager takes the handle and records
its ownership. -/
def ownSpawned (manager : ManagerId) : ServiceProg (OwnedModelProcess × Change) :=
  .atomic (.own manager) fun world ↦
    match world.surroundings.spawnOwnedProcess, (world.memory manager).record with
    | .error error, _ => (.error error, world)
    | .ok _, none => (.error notInitialized, world)
    | .ok nonce, some record =>
      let handle : OwnedModelProcess := ⟨world.nextPid, nonce⟩
      let owned := record.advance fun record ↦
        { record with ownership := some (handle.ownership manager) }
      (.ok (handle, ⟨some record, owned⟩), world.takeHandle manager handle owned)

/-- The body of `startOwnedService` under the fence. -/
def launchOwnedService (manager : ManagerId) (profile : ModelServiceProfile) (operationId : Uuid)
    (rounds : ℕ) : ServiceProg ModelServiceRecord := do
  look .hashLaunchFiles fun world ↦ world.surroundings.launchFiles
  let starting ← advance manager fun record ↦
    { record with
      state := .starting
      operation := some { operationId, kind := .start, status := .requested }
      failure := none }
  persist manager starting
  let (handle, owned) ← ownSpawned manager
  persist manager owned
  .fork .watch (fun _ _ ↦ .observeUnexpectedExit manager handle) fun world _ ↦ world
  waitForReadiness manager profile handle true rounds

/-- The handler of `startOwnedService`. -/
def failStart (manager : ManagerId) (operationId : Uuid) (error : RuntimeError) :
    ServiceProg ModelServiceRecord := do
  let unverified ← look (.readMemory manager) fun world ↦
    .ok ((world.memory manager).record.any fun record ↦
      record.failure.any fun failure ↦ failure.kind = .stopUnverified)
  if unverified then currentRecord manager
  else
    fail manager .spawnFailed ("Model-service launch failed: " ++ error.message) (some operationId)

/-- `startOwnedService`. -/
def startOwnedService (manager : ManagerId) (profile : ModelServiceProfile) (operationId : Uuid)
    (rounds : ℕ) : ServiceProg ModelServiceRecord := do
  let fenced ← look .acquireStartFence fun world ↦ world.surroundings.startFence
  if !fenced then waitForExternalStarter manager profile rounds
  else
    ensuring
      (tryCatch (launchOwnedService manager profile operationId rounds)
        (failStart manager operationId))
      (look .releaseFence fun _ ↦ .ok ())

/-- `ensureReadyTransition`. -/
def ensureReadyTransition (manager : ManagerId) (profile : Option ModelServiceProfile)
    (operationId : Uuid) (rounds : ℕ) : ServiceProg ModelServiceRecord := do
  initializeRecord manager
  match profile with
  | none => fail manager .unconfigured "No model-service profile is configured"
  | some profile => do
    let result ← probe
    if result.ready then markReady manager
    else if result.reachable then markMismatch manager profile result
    else if !result.offline then
      fail manager .probeFailed
        ("Model endpoint state is indeterminate; launch refused: " ++
          result.detail.getD "probe failed")
    else do
      let running ← look (.readMemory manager) fun world ↦
        .ok ((world.memory manager).ownedProcess.filter fun handle ↦ world.workerAlive handle.pid)
      match running with
      | some handle => waitForReadiness manager profile handle false rounds
      | none =>
        if !profile.launch then
          fail manager .unconfigured
            "The endpoint is offline and no owner launch profile is configured"
        else startOwnedService manager profile operationId rounds

/-! ### Stopping -/

/-- `localStopRefusal`. -/
def localStopRefusal (manager : ManagerId) (message : String) : ServiceProg ModelServiceRecord :=
  localFailure manager .stopRefused message

/-- The message of a stop whose worker could not be shown to have ended. -/
def stopUnprovenDetail (profile : Option ModelServiceProfile) (handle : OwnedModelProcess)
    (termination : Option Termination) : String :=
  (termination.bind Termination.detail).getD
    ("Process " ++ toString handle.pid ++ " closure was not proven within " ++
      ((profile.map fun profile ↦ toString profile.stopTimeoutMs).getD "undefined") ++ "ms")

/-- `stopTransition` once the check has passed and nothing uses the service. -/
def stopOwned (manager : ManagerId) (profile : Option ModelServiceProfile)
    (handle : OwnedModelProcess) (operationId : Uuid) : ServiceProg ModelServiceRecord := do
  let stopping ← advance manager fun record ↦
    { record with
      state := .stopping
      operation := some { operationId, kind := .stop, status := .requested }
      failure := none }
  persist manager stopping
  let termination ← stopWithTimeout handle
  let alive ← workerAlive handle
  if !termination.any Termination.proven || alive then
    advanceAndPersist manager fun record ↦
      { record with
        state := .error
        operation := some ⟨operationId, .stop, .failed,
          some (stopUnprovenDetail profile handle termination)⟩
        failure := some ⟨.stopUnverified,
          "The owned model process tree did not produce closure proof"⟩ }
  else do
    let dropped ← dropOwnership manager fun record ↦
      { record with
        state := .offline
        failure := none
        operation := some ⟨operationId, .stop, .completed,
          some "Guardian proved complete process-tree closure"⟩ }
    persist manager dropped
    currentRecord manager

/-- `stopTransition`. -/
def stopTransition (manager : ManagerId) (profile : Option ModelServiceProfile)
    (operationId : Uuid) : ServiceProg ModelServiceRecord := do
  initializeRecord manager
  refreshLatest manager
  let owned ← look (.readMemory manager) fun world ↦
    .ok ((world.memory manager).ownedProcess.filter fun _ ↦
      (world.memory manager).canUnload manager)
  match owned with
  | none =>
    localStopRefusal manager
      "Unload refused because this process does not retain exact guardian-backed ownership"
  | some handle => do
    let busy ← look .inUse fun world ↦ world.surroundings.inUse
    if busy then
      localStopRefusal manager
        "Unload refused while an active Conductor worker uses the model service"
    else do
      let slots ← look .slotUsage fun world ↦ .ok world.surroundings.slotUsage
      match slots with
      | .idle => stopOwned manager profile handle operationId
      | .busy =>
        localStopRefusal manager "Unload refused while the model endpoint reports an active slot"
      | .unknown =>
        localStopRefusal manager
          "Unload refused because model endpoint slot activity could not be verified"

/-! ### Unexpected exits -/

/-- What the handler makes of the record. -/
def exitedRecord (termination : Option Termination) (record : ModelServiceRecord) :
    ModelServiceRecord :=
  record.advance fun record ↦
    { record with
      state := .offline
      ownership := none
      failure :=
        if termination.any Termination.proven then none
        else some ⟨.stopUnverified, "Model guardian exited without complete closure proof"⟩ }

/-- Whether a stop has been requested. -/
def ManagerMemory.stopRequested (memory : ManagerMemory) : Bool :=
  memory.record.any fun record ↦ record.operation.any fun operation ↦
    operation.kind = .stop && operation.status = .requested

/-- What the handler does when the completion has settled: the change to write, if there is one. -/
def exitMemory (manager : ManagerId) (handle : OwnedModelProcess) (world : ServiceWorld) :
    Except RuntimeError (Option Change) × ServiceWorld :=
  let memory := world.memory manager
  if memory.ownedProcess ≠ some handle then (.ok none, world)
  else if memory.stopRequested then (.ok none, world)
  else
    match memory.record with
    | none =>
      (.error notInitialized, world.setMemory manager { memory with ownedProcess := none })
    | some record =>
      let exited := exitedRecord ((world.completion handle.pid).getD none) record
      (.ok (some ⟨some record, exited⟩),
        world.setMemory manager { memory with record := some exited, ownedProcess := none })

/-- `observeUnexpectedExit`. -/
def observeUnexpectedExit (manager : ManagerId) (handle : OwnedModelProcess) :
    ServiceProg Unit := do
  let change ← .await (.exit manager handle) (fun world ↦ (world.completion handle.pid).isSome)
    (exitMemory manager handle)
  match change with
  | none => return ()
  | some change => persist manager change

/-! ### The system -/

/-- `serializeTransition`: the transition of call `t` waits for its turn. -/
def serializeTransition (manager : ManagerId) (t : ℕ)
    (operation : ServiceProg ModelServiceRecord) : ServiceProg ModelServiceRecord := do
  .await (.enter manager) (fun world ↦ (world.memory manager).running.isNone) fun world ↦
    (.ok (), world.setMemory manager { world.memory manager with running := some t })
  ensuring operation
    (.modify (.leave manager) fun world ↦
      world.setMemory manager { world.memory manager with running := none })

/-- The computation of a call; the identity of the call stands for the operation's UUID. -/
def serviceBody (profile : Option ModelServiceProfile) (rounds : ℕ) (t : ℕ) :
    ServiceCall → ServiceProg (Option ModelServiceRecord)
  | .observe manager =>
    some <$> serializeTransition manager t (observeTransition manager profile)
  | .ensureReady manager =>
    some <$> serializeTransition manager t (ensureReadyTransition manager profile t rounds)
  | .stop manager => some <$> serializeTransition manager t (stopTransition manager profile t)
  | .observeUnexpectedExit manager handle => do
    observeUnexpectedExit manager handle
    return none
  | .workerDies pid => do
    .modify .outside fun world ↦ { world with deadWorkers := world.deadWorkers ++ [pid] }
    return none
  | .complete pid termination => do
    .modify .outside fun world ↦
      { world with completion := Function.update world.completion pid (some termination) }
    return none
  | .surround surroundings => do
    .modify .outside fun world ↦ { world with surroundings }
    return none

/-- Whether a call may be made from outside by a process: a manager's calls by its own process while
that lives. The handler of unexpected exits is started by the managers alone. -/
def serviceEntry (process : ℕ) (call : ServiceCall) (world : ServiceWorld) : Bool :=
  match call with
  | .observe manager | .ensureReady manager | .stop manager =>
    manager.process = process && world.ownerAlive process
  | .observeUnexpectedExit _ _ => false
  | .workerDies _ | .complete _ _ | .surround _ => true

/-- A process dies, and with it the memory of its managers. -/
def crashManagers (process : ℕ) (world : ServiceWorld) : ServiceWorld :=
  { world with
    deadProcesses := world.deadProcesses ++ [process]
    memory := fun manager ↦ if manager.process = process then {} else world.memory manager }

/-- The managers over one root, with one profile; a wait takes the given number of rounds. -/
def serviceSystem (profile : Option ModelServiceProfile) (rounds : ℕ) :
    System ServiceStep ServiceWorld ServiceCall RuntimeError (Option ModelServiceRecord) ℕ where
  body _ t call := serviceBody profile rounds t call
  entry := serviceEntry
  crash := crashManagers

end ModelService

end CodeConductor
