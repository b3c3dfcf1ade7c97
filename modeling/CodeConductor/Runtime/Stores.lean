import CodeConductor.Runtime.World

/-!
# The stores

`ArtifactStore` and `QueueStore` over the journals of the world. A **transition** is the same in
all of them: read the record, compare it with the one the caller expects, build the next snapshot,
push it, write the projection. Somebody else may commit between the read and the push, which then
conflicts; and a failure of the projection reaches the caller although the snapshot is committed.

Listing is not atomic either: the directory is read first, then one record after the other. Every
step may fail with an error of the file system.
-/

namespace CodeConductor

open Async Async.Prog

/-- A step of a store that reads. -/
def storeRead {A : Type} (label : RuntimeStep) (f : World → Except RuntimeError A) : Runtime A :=
  .read label fun w ↦
    match w.failure label with
    | some error => .error error
    | none => f w

/-- A step of a store that may write. -/
def storeWrite {A : Type} (label : RuntimeStep) (f : World → Except RuntimeError A × World) :
    Runtime A :=
  .atomic label fun w ↦
    match w.failure label with
    | some error => (.error error, w)
    | none => f w

/-! ### Attempts and jobs -/

namespace ArtifactStore

/-- `readJob`. -/
def readJob (jobId : JobId) : Runtime JobContract :=
  storeRead (.readJob jobId) fun w ↦
    match w.contract? jobId with
    | some contract => .ok contract
    | none => .error (.fileSystem "ENOENT" "job.json")

/-- `reserveJob`: the contract that is there for the job, the given one if there was none. -/
def reserveJob (contract : JobContract) : Runtime JobContract :=
  storeWrite (.reserveJob contract.jobId) fun w ↦
    match w.contract? contract.jobId with
    | none => (.ok contract, { w with contracts := w.contracts ++ [contract] })
    | some existing =>
      if existing.requestFingerprint ≠ contract.requestFingerprint then
        (.error (.plain "Idempotency key already belongs to a different request"), w)
      else (.ok existing, w)

/-- `readAttempt`. -/
def readAttempt (attemptId : AttemptId) : Runtime AttemptManifest :=
  storeRead (.readAttempt attemptId) fun w ↦
    match w.attempt? attemptId with
    | some manifest => .ok manifest
    | none => .error (.fileSystem "ENOENT" "attempt.json")

/-- Push `updated` over `current`. -/
def pushAttempt (self : Self) (current updated : AttemptManifest) : Runtime Unit :=
  storeWrite (.commitAttempt current.attemptId) fun w ↦
    if w.attempt? current.attemptId = some current then
      (.ok (), w.pushAttempt self.thread current updated)
    else (.error (.transitionConflict .attempt current.attemptId.text current.revision none), w)

/-- Commit `updated` over `current`. -/
def commitAttempt (self : Self) (current updated : AttemptManifest) : Runtime Unit := do
  pushAttempt self current updated
  storeRead (.projectAttempt current.attemptId) fun _ ↦ .ok ()

/-- `transitionAttempt`. -/
def transitionAttempt (self : Self) (expected : AttemptManifest) (patch : AttemptPatch) :
    Runtime AttemptManifest := do
  let current ← readAttempt expected.attemptId
  if current ≠ expected then
    throw (.transitionConflict .attempt expected.attemptId.text expected.revision
      (some current.revision))
  let updated ← Prog.ofResult (current.updated patch)
  commitAttempt self current updated
  return updated

/-- Read the attempts in the directories listed. -/
def readAttempts : List AttemptId → Runtime (List AttemptManifest)
  | [] => return []
  | attemptId :: rest => do
    let manifest ← readAttempt attemptId
    let manifests ← readAttempts rest
    return manifest :: manifests

/-- The order of `listAttempts`. -/
def listedBefore (left right : AttemptManifest) : Prop :=
  left.createdAt < right.createdAt ∨
    left.createdAt = right.createdAt ∧ left.attemptId.text ≤ right.attemptId.text

instance : DecidableRel listedBefore := fun left right ↦ by
  unfold listedBefore
  infer_instance

/-- `listAttempts`. -/
def listAttempts : Runtime (List AttemptManifest) := do
  let attemptIds ← storeRead .listAttempts fun w ↦ .ok w.attemptIds
  let attempts ← readAttempts attemptIds
  return attempts.insertionSort listedBefore

/-- The paths of an attempt's evidence, made from its id. -/
def attemptArtifacts (attemptId : AttemptId) : AttemptArtifacts where
  job := attemptId.jobId ++ "/job.json"
  manifest := attemptId.text ++ "/attempt.json"
  stdout := attemptId.text ++ "/stdout.log"
  stderr := attemptId.text ++ "/stderr.log"
  proposalPatch := attemptId.text ++ "/proposal.patch"
  repositoryStatus := attemptId.text ++ "/repository-status.txt"
  changedPaths := attemptId.text ++ "/changed-paths.json"
  verification := attemptId.text ++ "/verification.json"
  cleanup := some (attemptId.text ++ "/cleanup.json")

/-- Create the directory of an attempt with its first manifest and cleanup record, unless there is
one. -/
def createAttempt (contract : JobContract) (attemptId : AttemptId)
    (lineage : Option ProposalLineage) (dispatchOperationId : Option Uuid) :
    Runtime (Option AttemptManifest) :=
  storeWrite (.createAttempt attemptId) fun w ↦
    if w.attempts attemptId = [] then
      let manifest := createReservedAttempt attemptId contract.adapterId w.outside.now
        (attemptArtifacts attemptId) lineage dispatchOperationId
      (.ok (some manifest), w.createAttempt manifest)
    else (.ok none, w)

/-- `reserveAttemptAt`: `none` when the directory is there already (`created: false`). -/
def reserveAttemptAt (contract : JobContract) (ordinal : ℕ) (lineage : Option ProposalLineage)
    (dispatchOperationId : Option Uuid) : Runtime (Option AttemptManifest) := do
  let attemptId : AttemptId := ⟨contract.jobId, ordinal⟩
  match ← createAttempt contract attemptId lineage dispatchOperationId with
  | some manifest => return some manifest
  | none =>
    let _ ← readAttempt attemptId
    return none

/-- The loop of `reserveAttempt` with `remaining` ordinals to try, from `ordinal` on. -/
def reserveAttemptFrom (contract : JobContract) (lineage : Option ProposalLineage)
    (dispatchOperationId : Option Uuid) : (ordinal remaining : ℕ) → Runtime AttemptManifest
  | _, 0 =>
    throw (.plain ("Attempt budget exhausted for " ++ contract.jobId ++ ": maximum " ++
      toString contract.resources.maxAttemptsPerJob))
  | ordinal, remaining + 1 => do
    match ← reserveAttemptAt contract ordinal lineage dispatchOperationId with
    | some manifest => return manifest
    | none => reserveAttemptFrom contract lineage dispatchOperationId (ordinal + 1) remaining

/-- `reserveAttempt`. -/
def reserveAttempt (contract : JobContract) (lineage : Option ProposalLineage)
    (dispatchOperationId : Option Uuid) : Runtime AttemptManifest :=
  reserveAttemptFrom contract lineage dispatchOperationId 1 contract.resources.maxAttemptsPerJob

/-! ### Cleanup records -/

/-- `readAttemptCleanup`. -/
def readAttemptCleanup (attemptId : AttemptId) : Runtime AttemptCleanupRecord :=
  storeRead (.readCleanup attemptId) fun w ↦
    match w.cleanups attemptId with
    | some record => .ok record
    | none => .error (.fileSystem "ENOENT" "cleanup.json")

/-- Push `updated` over `current`. -/
def pushCleanup (current updated : AttemptCleanupRecord) : Runtime Unit :=
  storeWrite (.commitCleanup current.attemptId) fun w ↦
    if w.cleanups current.attemptId = some current then
      (.ok (), { w with cleanups := Function.update w.cleanups current.attemptId (some updated) })
    else
      (.error (.transitionConflict .attemptCleanup current.attemptId.text current.revision none), w)

/-- `transitionAttemptCleanup`. -/
def transitionAttemptCleanup (expected : AttemptCleanupRecord) (patch : CleanupPatch) :
    Runtime AttemptCleanupRecord := do
  let current ← readAttemptCleanup expected.attemptId
  if current ≠ expected then
    throw (.transitionConflict .attemptCleanup expected.attemptId.text expected.revision
      (some current.revision))
  let now ← currentDate
  let updated := current.merge patch now
  pushCleanup current updated
  storeRead (.projectCleanup current.attemptId) fun _ ↦ .ok ()
  return updated

/-- The requirements after `requirement` was registered: a known subject keeps its place and, where
the new one has none, its guardian. -/
def registerRequirement (requirements : List CleanupRequirement)
    (requirement : CleanupRequirement) : List CleanupRequirement :=
  if requirements.any fun candidate ↦ candidate.subject = requirement.subject then
    requirements.map fun candidate ↦
      if candidate.subject = requirement.subject then
        { candidate with
          deadlineMs := requirement.deadlineMs
          guardian := requirement.guardian.or candidate.guardian }
      else candidate
  else requirements ++ [requirement]

/-- `registerAttemptCleanupRequirement`. -/
def registerAttemptCleanupRequirement (attemptId : AttemptId) (subject : CleanupSubject)
    (deadlineMs : ℕ) (guardian : Option ProcessGuardianIdentity) :
    Runtime AttemptCleanupRecord := do
  let registeredAt ← currentDate
  let current ← readAttemptCleanup attemptId
  let requirements := registerRequirement current.requirements
    { subject := subject, registeredAt := registeredAt, deadlineMs := deadlineMs
      guardian := guardian }
  if requirements = current.requirements then
    return current
  transitionAttemptCleanup current { requirements := some requirements }

/-- `appendAttemptCleanupEvidence`. -/
def appendAttemptCleanupEvidence (attemptId : AttemptId) (evidence : CleanupEvidence) :
    Runtime AttemptCleanupRecord := do
  let current ← readAttemptCleanup attemptId
  if !current.requirements.any fun requirement ↦ requirement.subject = evidence.subject then
    throw (.plain ("Cleanup evidence for unregistered subject " ++ evidence.subject.kind.text ++
      ":" ++ evidence.subject.id))
  if current.evidence.any fun observation ↦ observation.evidenceId = evidence.evidenceId then
    return current
  transitionAttemptCleanup current { evidence := some (current.evidence ++ [evidence]) }

end ArtifactStore

/-! ### Queue items and the lease -/

namespace QueueStore

/-- `read`, as the step named by `label`. -/
def readAs (label : RuntimeStep) (jobId : JobId) : Runtime QueueItem :=
  storeRead label fun w ↦
    match w.item? jobId with
    | some item => .ok item
    | none => .error (.fileSystem "ENOENT" "queue.json")

/-- `read`. -/
def read (jobId : JobId) : Runtime QueueItem := readAs (.readItem jobId) jobId

/-- Read the items in the directories listed. -/
def readItems : List JobId → Runtime (List QueueItem)
  | [] => return []
  | jobId :: rest => do
    let item ← read jobId
    let items ← readItems rest
    return item :: items

/-- The order of `list`: by priority, the highest first, then by age. -/
def listedBefore (left right : QueueItem) : Prop :=
  right.priority < left.priority ∨ right.priority = left.priority ∧
    (left.createdAt < right.createdAt ∨
      left.createdAt = right.createdAt ∧ left.jobId ≤ right.jobId)

instance : DecidableRel listedBefore := fun left right ↦ by
  unfold listedBefore
  infer_instance

/-- `list`. -/
def list : Runtime (List QueueItem) := do
  let jobIds ← storeRead .listItems fun w ↦ .ok w.itemIds
  let items ← readItems jobIds
  return items.insertionSort listedBefore

/-- Create the directory of an item, unless there is one. -/
def createItem (contract : JobContract) (options : QueueOptions) : Runtime (Option QueueItem) :=
  storeWrite (.createItem contract.jobId) fun w ↦
    if w.items contract.jobId = [] then
      let item := createQueueItem contract.jobId options w.outside.now
      (.ok (some item), w.createItem item)
    else (.ok none, w)

/-- `enqueue`. -/
def enqueue (contract : JobContract) (options : QueueOptions) : Runtime QueueItem := do
  match ← createItem contract options with
  | some item => return item
  | none =>
    let existing ← read contract.jobId
    let item := createQueueItem contract.jobId options 0
    if existing.priority ≠ item.priority ∨ existing.dependsOnJobIds ≠ item.dependsOnJobIds then
      throw (.plain ("Queue options conflict with existing item " ++ contract.jobId))
    return existing

/-- Push `updated` over `current`. -/
def pushItem (current updated : QueueItem) : Runtime Unit :=
  storeWrite (.commitItem current.jobId) fun w ↦
    if w.item? current.jobId = some current then (.ok (), w.pushItem updated)
    else (.error (.transitionConflict .queueItem current.jobId current.revision none), w)

/-- Commit `updated` over `current`. -/
def commitItem (current updated : QueueItem) : Runtime Unit := do
  pushItem current updated
  storeRead (.projectItem current.jobId) fun _ ↦ .ok ()

/-- `commitQueueUpdate`. -/
def commitQueueUpdate (item : QueueItem) (patch : QueuePatch)
    (validateTransition : QueueItem → QueueItem → Except RuntimeError Unit) :
    Runtime QueueItem := do
  let current ← read item.jobId
  if current ≠ item then
    throw (.transitionConflict .queueItem item.jobId item.revision (some current.revision))
  let now ← currentDate
  let updated ← Prog.ofResult (current.updated validateTransition patch now)
  commitItem current updated
  return updated

/-- `update`. -/
def update (item : QueueItem) (patch : QueuePatch) : Runtime QueueItem :=
  commitQueueUpdate item patch assertQueueTransition

/-- `reconcile`. -/
def reconcile (item : QueueItem) (patch : QueuePatch) (actionKind : QueueReconciliationKind) :
    Runtime QueueItem :=
  commitQueueUpdate item patch (assertQueueReconciliationTransition actionKind)

/-- Whether a lease would be granted: there is none, or its process is dead. -/
def leaseFree (w : World) : Bool := w.lease.all fun lease ↦ lease.process ∈ w.dead

/-- `acquireLease`. -/
def acquireLease (self : Self) : Runtime (Option QueueLease) :=
  storeWrite .acquireLease fun w ↦
    if leaseFree w then
      let lease : QueueLease := ⟨self.process, w.generation + 1⟩
      (.ok (some lease),
        { w with
          lease := some lease, generation := w.generation + 1
          leaseThread := some self.thread })
    else (.ok none, w)

/-- `renewLease`. -/
def renewLease (self : Self) (lease : QueueLease) : Runtime QueueLease :=
  storeRead .renewLease fun w ↦
    if w.lease ≠ some lease then
      .error (.plain ("Dispatcher lease generation " ++ toString lease.generation ++
        " is no longer current"))
    else if lease.process ≠ self.process then
      .error (.plain "Dispatcher lease cannot be renewed by another process")
    else .ok lease

/-- `releaseLease`. -/
def releaseLease (lease : QueueLease) : Runtime Unit :=
  storeWrite .releaseLease fun w ↦
    if w.lease = some lease then (.ok (), { w with lease := none, leaseThread := none })
    else (.ok (), w)

end QueueStore

end CodeConductor
