import CodeConductor.Runtime.Stores
import CodeConductor.Queue.Completion
import Mathlib.Algebra.Ring.Nat

/-!
# The conductor: attempts from reservation to recovery

Everything a `Conductor` does with an attempt except executing it. Each operation reads the
manifest, looks at what it needs, and only then commits a transition over the manifest it read, so
what protects an attempt from two operations at once is the journal alone.

Two maps of the process's memory, `activeAttempts` and `executions`, say which attempts it executes.
An execution is a background thread; the promise others wait for is its entry in `settled`.
-/

namespace CodeConductor

open Async Async.Prog

namespace Conductor

/-- `randomUUID`. -/
def randomUUID : Runtime Uuid :=
  .atomic .memory fun w ↦ (.ok w.uuid, { w with uuid := w.uuid + 1 })

/-- `update`. -/
def update (self : Self) (manifest : AttemptManifest) (patch : AttemptPatch) :
    Runtime AttemptManifest :=
  ArtifactStore.transitionAttempt self manifest patch

/-- `getAttempt`. -/
def getAttempt (attemptId : AttemptId) : Runtime AttemptManifest :=
  ArtifactStore.readAttempt attemptId

/-- `getAttemptCleanup`. -/
def getAttemptCleanup (attemptId : AttemptId) : Runtime AttemptCleanupRecord := do
  let manifest ← getAttempt attemptId
  ArtifactStore.readAttemptCleanup manifest.attemptId

/-- `summarize`, as far as a queue item is told. -/
def summarize (manifest : AttemptManifest) : Runtime AttemptCompletionEvidence := do
  match ← (ArtifactStore.readAttemptCleanup manifest.attemptId).attempt with
  | .ok cleanup => return manifest.evidence cleanup.status
  | .error _ => return manifest.evidence .unknown

/-- `this.workers.get(adapterId)` and the check that it is available. -/
def requireAdapter (adapterId : String) : Runtime Unit :=
  askOutside fun o ↦
    match o.adapter adapterId with
    | none => .error (.plain ("Unknown worker adapter: " ++ adapterId))
    | some false => .error (.plain ("Worker adapter is not available: " ++ adapterId))
    | some true => .ok ()

/-! ### Cleanup bookkeeping -/

/-- `registerCleanupRequirement`. -/
def registerCleanupRequirement (manifest : AttemptManifest) (subject : CleanupSubject)
    (guardian : Option ProcessGuardianIdentity := none) : Runtime AttemptCleanupRecord :=
  ArtifactStore.registerAttemptCleanupRequirement manifest.attemptId subject
    (if subject.kind = .processTree then 5000 else 30000) guardian

/-- `registerProcessCleanup`. -/
def registerProcessCleanup (manifest : AttemptManifest) (operationId : String)
    (guardian : ProcessGuardianIdentity) : Runtime Unit := do
  let _ ← registerCleanupRequirement manifest ⟨.processTree, operationId⟩ (some guardian)
  return ()

/-- `appendCleanupEvidence`. -/
def appendCleanupEvidence (manifest : AttemptManifest) (subject : CleanupSubject)
    (status : EvidenceStatus) (method : CleanupMethod) (detail : Option String := none)
    (termination : Option ProcessTermination := none) : Runtime AttemptCleanupRecord := do
  let evidenceId ← randomUUID
  let observedAt ← currentDate
  ArtifactStore.appendAttemptCleanupEvidence manifest.attemptId
    { evidenceId := evidenceId, subject := subject, status := status, method := method
      observedAt := observedAt, detail := detail, termination := termination }

/-- `recordProcessCleanup`. -/
def recordProcessCleanup (manifest : AttemptManifest) (operationId : String)
    (result : ProcessResult) : Runtime Unit := do
  let _ ← appendCleanupEvidence manifest ⟨.processTree, operationId⟩ result.termination.status
    .processRunner
    (some (result.termination.detail.getD
      ("Process cleanup reported " ++ result.termination.status.text)))
    (some result.termination)
  return ()

/-- The resources after one was marked released. -/
def releaseResource (resources : List ExternalResource) (resourceId : String) (now : Timestamp) :
    List ExternalResource :=
  resources.map fun entry ↦
    if entry.resourceId = resourceId then { entry with status := .released, releasedAt := some now }
    else entry

/-- The text of an exit code, as a template literal writes it. -/
def exitText : Option Int → String
  | some code => toString code
  | none => "null"

/-- `releaseExternalResource`. -/
def releaseExternalResource (self : Self) (manifest : AttemptManifest) (resourceId : String)
    (cleanup : ProcessResult) : Runtime AttemptManifest := do
  let _ ← appendCleanupEvidence manifest ⟨.externalResource, resourceId⟩
    cleanup.termination.status .externalResourceCommand
    (some ("External resource cleanup exited " ++ exitText cleanup.exitCode))
    (some cleanup.termination)
  if manifest.status.isTerminal then
    return manifest
  let now ← currentDate
  update self manifest
    { externalResources := some (releaseResource manifest.externalResources resourceId now) }

/-! ### Reservation and lineage -/

/-- `bindProposalContribution`. -/
def bindProposalContribution (childContract : JobContract) (parent : AttemptManifest) :
    Runtime ProposalContribution := do
  let parentContract ← ArtifactStore.readJob parent.jobId
  if parentContract.repositoryRoot ≠ childContract.repositoryRoot then
    throw (.plain ("Proposal " ++ parent.attemptId.text ++ " belongs to a different repository"))
  if parentContract.baseRevision ≠ childContract.baseRevision then
    throw (.plain ("Proposal " ++ parent.attemptId.text ++ " starts from " ++
      parentContract.baseRevision ++ ", not " ++ childContract.baseRevision))
  match parent.workspace with
  | some workspace =>
    if parent.status ≠ .completed ∨ parent.verificationStatus ≠ .eligible then
      throw (.plain ("Proposal " ++ parent.attemptId.text ++
        " is not a completed eligible workspace attempt"))
    if parent.reviewDisposition = .rejected ∨ parent.reviewDisposition = .superseded then
      throw (.plain ("Proposal " ++ parent.attemptId.text ++ " was " ++
        parent.reviewDisposition.text ++ " by its review authority"))
    let files ← askOutside fun o ↦ o.proposalFiles parent.attemptId
    if !files.eligibleForReview then
      throw (.plain ("Proposal " ++ parent.attemptId.text ++
        " lacks eligible deterministic evidence"))
    return {
      jobId := parent.jobId
      attemptId := parent.attemptId
      jobRequestFingerprint := parentContract.requestFingerprint
      sourceBaseRevision := parentContract.baseRevision
      patchBaseRevision := workspace.baseRevision
      patchPath := parent.artifacts.proposalPatch
      patchSha256 := files.patchSha256
      patchBytes := files.patchBytes
      verificationPath := parent.artifacts.verification
      verificationSha256 := files.verificationSha256 }
  | none =>
    throw (.plain ("Proposal " ++ parent.attemptId.text ++
      " is not a completed eligible workspace attempt"))

/-- Bind the contributions anew and compare them with the expected ones. -/
def validateContributions (contract : JobContract) : List ProposalContribution → Runtime Unit
  | [] => return ()
  | expected :: rest => do
    let manifest ← getAttempt expected.attemptId
    let actual ← bindProposalContribution contract manifest
    if actual ≠ expected then
      throw (.plain ("Proposal evidence binding changed for " ++ expected.attemptId.text))
    validateContributions contract rest

/-- `validateProposalLineage`. -/
def validateProposalLineage (contract : JobContract) (lineage : ProposalLineage) :
    Runtime Unit := do
  if lineage.sourceBaseRevision ≠ contract.baseRevision then
    throw (.plain "Proposal lineage source revision changed")
  validateContributions contract lineage.contributions

/-- `add`, the local helper of `buildProposalLineage`. -/
def addContribution (contributions : List ProposalContribution)
    (candidate : ProposalContribution) : Except RuntimeError (List ProposalContribution) :=
  match contributions.find? fun c ↦ c.attemptId = candidate.attemptId with
  | some existing =>
    if existing ≠ candidate then
      .error (.plain ("Proposal lineage contains conflicting bindings for " ++
        candidate.attemptId.text))
    else .ok contributions
  | none => .ok (contributions ++ [candidate])

/-- Collect the contributions of the parents. -/
def collectContributions (contract : JobContract) :
    List AttemptId → List ProposalContribution → Runtime (List ProposalContribution)
  | [], contributions => return contributions
  | attemptId :: rest, contributions => do
    let parent ← getAttempt attemptId
    let inherited ← Prog.ofResult <| match parent.lineage with
      | none => .ok contributions
      | some lineage =>
        if lineage.status ≠ .composed then
          .error (.plain ("Parent attempt " ++ attemptId.text ++
            " has unresolved proposal lineage"))
        else lineage.contributions.foldlM addContribution contributions
    let candidate ← bindProposalContribution contract parent
    let contributions ← Prog.ofResult (addContribution inherited candidate)
    collectContributions contract rest contributions

/-- `buildProposalLineage`. -/
def buildProposalLineage (contract : JobContract) (parentAttemptIds : List AttemptId) :
    Runtime ProposalLineage := do
  let directParentAttemptIds := parentAttemptIds.eraseDups
  let contributions ← collectContributions contract directParentAttemptIds []
  if contributions.length > contract.resources.maxLineageContributions then
    throw (.plain ("Proposal lineage has " ++ toString contributions.length ++
      " contributions; budget allows " ++ toString contract.resources.maxLineageContributions))
  let lineageBytes := (contributions.map ProposalContribution.patchBytes).sum
  if lineageBytes > contract.resources.maxArtifactBytes then
    throw (.plain ("Proposal lineage binds " ++ toString lineageBytes ++
      " patch bytes; budget allows " ++ toString contract.resources.maxArtifactBytes))
  let lineage : ProposalLineage :=
    { sourceBaseRevision := contract.baseRevision
      directParentAttemptIds := directParentAttemptIds
      contributions := contributions
      status := .pending }
  validateProposalLineage contract lineage
  return lineage

/-- The lineage of a reservation: none without parents, and any failure to build one is a
`ProposalLineageError`. -/
def reservationLineage (contract : JobContract) (parentAttemptIds : List AttemptId) :
    Runtime (Option ProposalLineage) :=
  if parentAttemptIds = [] then return none
  else
    ((do let lineage ← buildProposalLineage contract parentAttemptIds; return some lineage) :
      Runtime _).mapError fun error ↦ .proposalLineage error.message

/-- `reservePreparedAttempt`. -/
def reservePreparedAttempt (jobId : JobId) (parentAttemptIds : List AttemptId)
    (dispatchOperationId : Option Uuid) : Runtime AttemptCompletionEvidence := do
  let contract ← ArtifactStore.readJob jobId
  if parentAttemptIds.length > contract.resources.maxLineageContributions then
    throw (.proposalLineage ("Direct proposal lineage has " ++ toString parentAttemptIds.length ++
      " parents; budget allows " ++ toString contract.resources.maxLineageContributions))
  requireAdapter contract.adapterId
  let lineage ← reservationLineage contract parentAttemptIds
  let manifest ← ArtifactStore.reserveAttempt contract lineage dispatchOperationId
  summarize manifest

/-! ### Claim and launch -/

/-- `claimReservedAttempt`. -/
def claimReservedAttempt (self : Self) (attemptId : AttemptId) (dispatchOperationId : Uuid) :
    Runtime AttemptCompletionEvidence := do
  let manifest ← getAttempt attemptId
  if manifest.status ≠ .reserved then
    throw (.plain ("Attempt " ++ attemptId.text ++ " cannot start from status " ++
      manifest.status.text))
  if manifest.dispatchOperationId.any fun id ↦ id ≠ dispatchOperationId then
    throw (.plain ("Attempt " ++ attemptId.text ++ " belongs to dispatch operation " ++
      toString (manifest.dispatchOperationId.getD 0)))
  let contract ← ArtifactStore.readJob manifest.jobId
  if contract.boundary ≠ .hostWorktree then
    askOutside fun o ↦ o.verifySandbox contract.boundary
  requireAdapter contract.adapterId
  let claimedAt ← currentDate
  let claimed ← update self manifest
    { status := some .claimed
      dispatchOperationId := some (some dispatchOperationId)
      launchOwner := some (some
        { instanceId := self.process, processId := self.process, claimedAt := claimedAt }) }
  summarize claimed

/-- The check of `executions` and `launchAttempt`, which happen without suspension: the attempt is
entered in both maps and its execution started. -/
def launchAttempt (self : Self) (contract : JobContract) (manifest : AttemptManifest)
    (dispatchOperationId : Uuid) : Runtime Unit :=
  let attemptId := manifest.attemptId
  .act (.launch attemptId) (fun _ ↦ true)
    (fun w n ↦
      if ((w.conductor self.process).executions attemptId).isSome then (w, [])
      else
        (w.launch self.process attemptId n,
          [.executeAttempt contract manifest dispatchOperationId]))
    fun w _ ↦
      if ((w.conductor self.process).executions attemptId).isSome then
        throw (.plain ("Attempt " ++ attemptId.text ++ " is already executing"))
      else return ()

/-- `launchClaimedAttempt`. -/
def launchClaimedAttempt (self : Self) (attemptId : AttemptId) (dispatchOperationId : Uuid) :
    Runtime AttemptCompletionEvidence := do
  let manifest ← getAttempt attemptId
  if manifest.status ≠ .claimed ∨ manifest.dispatchOperationId ≠ some dispatchOperationId then
    throw (.plain ("Attempt " ++ attemptId.text ++ " is not claimed by dispatch operation " ++
      toString dispatchOperationId))
  if manifest.launchOwner.map LaunchOwner.instanceId ≠ some self.process then
    throw (.plain ("Attempt " ++ attemptId.text ++ " belongs to another launcher instance"))
  let executing ← Prog.read .memory fun w ↦
    .ok ((w.conductor self.process).executions attemptId).isSome
  if executing then
    throw (.plain ("Attempt " ++ attemptId.text ++ " is already executing"))
  let contract ← ArtifactStore.readJob manifest.jobId
  launchAttempt self contract manifest dispatchOperationId
  summarize manifest

/-- `startReservedAttempt`. -/
def startReservedAttempt (self : Self) (attemptId : AttemptId) (dispatchOperationId : Uuid) :
    Runtime AttemptCompletionEvidence := do
  let claimed ← claimReservedAttempt self attemptId dispatchOperationId
  let _ ← launchClaimedAttempt self attemptId dispatchOperationId
  return claimed

/-- `waitForAttempt`. -/
def waitForAttempt (self : Self) (attemptId : AttemptId) :
    Runtime AttemptCompletionEvidence := do
  let execution ← Prog.read .memory fun w ↦ .ok ((w.conductor self.process).executions attemptId)
  let manifest ← match execution with
    | some thread =>
      .await .settle (fun w ↦ ((w.conductor self.process).settled thread).isSome) fun w ↦
        (((w.conductor self.process).settled thread).getD (.error (.plain "")), w)
    | none => getAttempt attemptId
  summarize manifest

/-! ### Cancellation -/

/-- `cancelAttempt`. -/
def cancelAttempt (self : Self) (attemptId : AttemptId) : Runtime Bool :=
  .atomic (.abort attemptId) fun w ↦
    let memory := w.conductor self.process
    if (memory.activeAttempts attemptId).isSome then
      (.ok true,
        w.setConductor self.process
          { memory with
            activeAttempts := Function.update memory.activeAttempts attemptId (some true) })
    else (.ok false, w)

/-- `cancelReservedAttempt`. -/
def cancelReservedAttempt (self : Self) (attemptId : AttemptId)
    (message : String := "Attempt cancelled before worker execution") :
    Runtime AttemptManifest := do
  let manifest ← getAttempt attemptId
  if !manifest.status.isUnlaunched then
    return manifest
  let now ← currentDate
  update self manifest
    { status := some .cancelled
      finishedAt := some (some now)
      verificationStatus := some .ineligible
      failure := some (some ⟨.cancelled, message⟩) }

/-! ### Resources left behind -/

/-- `reconstructExternalCleanup`: the cleanup command may only be rebuilt from the frozen
profile. -/
def reconstructExternalCleanup (contract : JobContract) (resource : ExternalResource) :
    Except RuntimeError Unit :=
  match contract.boundary with
  | .hostWorktree =>
    .error (.plain ("External resource " ++ resource.resourceId ++
      " has no frozen sandbox owner profile"))
  | .externalSandbox driver profileId profileFingerprint image =>
    if resource.driver ≠ driver ∨ resource.profileId ≠ profileId ∨
        resource.profileFingerprint ≠ profileFingerprint ∨ resource.image ≠ image then
      .error (.plain ("External resource " ++ resource.resourceId ++
        " does not match its frozen owner profile"))
    else .ok ()

/-- The operation a cleanup command's process tree is registered under. -/
def cleanupOperation (resource : ExternalResource) : String :=
  "external-resource-cleanup:" ++ resource.resourceId

/-- The cleanup command of one resource: `true` when the resource is gone. -/
def runExternalCleanup (self : Self) (contract : JobContract) (manifest : AttemptManifest)
    (resource : ExternalResource) : Runtime (AttemptManifest × Bool) := do
  Prog.ofResult (reconstructExternalCleanup contract resource)
  let run ← askOutside fun o ↦ .ok (o.externalCleanup manifest.attemptId resource.resourceId)
  match run.guardian with
  | some guardian => registerProcessCleanup manifest (cleanupOperation resource) guardian
  | none => pure ()
  let result ← Prog.ofResult run.result
  recordProcessCleanup manifest (cleanupOperation resource) result
  let noSuchContainer ← askOutside fun o ↦ o.noSuchContainer manifest.attemptId resource.resourceId
  if result.outputLimit.isSome ∨ result.termination.status ≠ .proven ∨
      result.exitCode ≠ some 0 ∧ noSuchContainer = false then
    let _ ← appendCleanupEvidence manifest ⟨.externalResource, resource.resourceId⟩
      (if result.termination.status = .proven then .failed else .unknown)
      .externalResourceCommand
      (some ("External resource cleanup exited " ++ exitText result.exitCode))
      (some result.termination)
    return (manifest, false)
  let manifest ← releaseExternalResource self manifest resource.resourceId result
  return (manifest, true)

/-- Clean up one active resource that no evidence proves gone; `false` when it may still exist. -/
def cleanupResource (self : Self) (contract : JobContract) (manifest : AttemptManifest)
    (resource : ExternalResource) : Runtime (AttemptManifest × Bool) := do
  if resource.status ≠ .active then
    return (manifest, true)
  let existingCleanup ← getAttemptCleanup manifest.attemptId
  if existingCleanup.latestStatus ⟨.externalResource, resource.resourceId⟩ = some .proven then
    return (manifest, true)
  let _ ← registerCleanupRequirement manifest ⟨.externalResource, resource.resourceId⟩
  match ← (runExternalCleanup self contract manifest resource).attempt with
  | .ok outcome => return outcome
  | .error error =>
    let _ ← appendCleanupEvidence manifest ⟨.externalResource, resource.resourceId⟩ .failed
      .externalResourceCommand (some error.message)
    return (manifest, false)

/-- The loop of `cleanupExternalResources`. -/
def cleanupResources (self : Self) (contract : JobContract) :
    List ExternalResource → AttemptManifest → Runtime (AttemptManifest × Bool)
  | [], manifest => return (manifest, true)
  | resource :: rest, manifest => do
    let (manifest, safe) ← cleanupResource self contract manifest resource
    if !safe then
      return (manifest, false)
    cleanupResources self contract rest manifest

/-- `cleanupExternalResources`. -/
def cleanupExternalResources (self : Self) (manifest : AttemptManifest) :
    Runtime (AttemptManifest × Bool) := do
  let contract ← ArtifactStore.readJob manifest.jobId
  cleanupResources self contract manifest.externalResources manifest

/-- `assertWorkspaceRemovalSafe`. -/
def assertWorkspaceRemovalSafe (manifest : AttemptManifest) : Runtime Unit := do
  let cleanup ← getAttemptCleanup manifest.attemptId
  let unresolved := cleanup.requirements.filter fun requirement ↦
    requirement.subject.kind ≠ .workspace ∧
      cleanup.latestStatus requirement.subject ≠ some .proven
  if unresolved ≠ [] then
    throw (.plain ("Attempt " ++ manifest.attemptId.text ++ " has unresolved cleanup for " ++
      String.intercalate ", " (unresolved.map fun requirement ↦
        requirement.subject.kind.text ++ ":" ++ requirement.subject.id) ++
      "; workspace removal is prohibited"))

/-- The subject of the attempt's worktree. -/
def worktree : CleanupSubject := ⟨.workspace, "worktree"⟩

/-- `removeAttemptWorkspace`. -/
def removeAttemptWorkspace (self : Self) (attemptId : AttemptId) : Runtime Unit := do
  let manifest ← getAttempt attemptId
  if !manifest.status.isTerminal then
    throw (.plain ("Cannot remove workspace for active attempt " ++ attemptId.text))
  let (manifest, safe) ← cleanupExternalResources self manifest
  if !safe then
    throw (.plain ("Attempt " ++ attemptId.text ++
      " still owns an external resource; workspace removal is prohibited"))
  if !manifest.workspace.any fun workspace ↦ workspace.retained then
    let _ ← getAttemptCleanup attemptId
    return ()
  assertWorkspaceRemovalSafe manifest
  let priorCleanup ← getAttemptCleanup attemptId
  if priorCleanup.latestStatus worktree = some .proven then
    return ()
  let _ ← registerCleanupRequirement manifest worktree
  let _ ← ArtifactStore.readJob manifest.jobId
  tryCatch
    (do
      askOutside fun o ↦ o.removeWorkspace attemptId
      let _ ← appendCleanupEvidence manifest worktree .proven .workspaceRemove
        (some "Recorded attempt worktree removed by owner request")
      return ())
    fun error ↦ do
      let _ ← appendCleanupEvidence manifest worktree .failed .workspaceRemove
        (some error.message)
      throw error

/-- `releaseAttemptExternalResources`. -/
def releaseAttemptExternalResources (self : Self) (attemptId : AttemptId) :
    Runtime AttemptManifest := do
  let manifest ← getAttempt attemptId
  if !manifest.status.isTerminal then
    throw (.plain ("Attempt " ++ attemptId.text ++ " is still " ++ manifest.status.text ++
      "; its external resources may still be in use"))
  let (manifest, safe) ← cleanupExternalResources self manifest
  if !safe then
    throw (.plain ("Attempt " ++ attemptId.text ++
      " still owns an external resource; retry or workspace removal is prohibited"))
  let evidence ← getAttemptCleanup attemptId
  if !evidence.status.isSafe then
    throw (.plain ("Attempt " ++ attemptId.text ++ " cleanup is " ++ evidence.status.text ++
      "; retry or workspace removal is prohibited"))
  return manifest

/-! ### Recovery of an interrupted attempt -/

/-- The disposition of a recovery. -/
inductive Disposition where
  | terminal | safeToRetry | stillRunning | unknown
  deriving DecidableEq, Repr

/-- The process trees an attempt is required to have cleaned up. -/
def processRequirements (cleanup : AttemptCleanupRecord) : List CleanupRequirement :=
  cleanup.requirements.filter fun requirement ↦ requirement.subject.kind = .processTree

/-- The process trees not proven gone. -/
def unresolvedProcesses (cleanup : AttemptCleanupRecord) : List CleanupRequirement :=
  (processRequirements cleanup).filter fun requirement ↦
    cleanup.latestStatus requirement.subject ≠ some .proven

/-- Whether one of the guardians is alive. -/
def someGuardianAlive (requirements : List CleanupRequirement) (o : Outside) : Bool :=
  requirements.any fun requirement ↦
    requirement.guardian.any fun guardian ↦ o.isProcessAlive guardian.guardianPid

/-- `kernelClosure`: the guardian owned a kernel job that dies with it, and it is gone. -/
def kernelClosure (requirement : CleanupRequirement) (o : Outside) : Bool :=
  requirement.guardian.any fun guardian ↦
    guardian.containment.any (fun containment ↦
      containment.kind = .windowsJob && containment.kernelEnforced &&
        containment.killOnOwnerClose) &&
      !o.isProcessAlive guardian.guardianPid

/-- Record for each unresolved process tree what its guardian's absence proves. -/
def recordGuardianAbsence (manifest : AttemptManifest) : List CleanupRequirement → Runtime Unit
  | [] => return ()
  | requirement :: rest => do
    let (closed, now) ← askOutside fun o ↦ .ok (kernelClosure requirement o, o.now)
    let status : EvidenceStatus := if closed then .proven else .unknown
    let _ ← appendCleanupEvidence manifest requirement.subject status
      (if closed then .windowsJobOwnerExit else .legacyUnverified)
      (some (if closed then
        "Verified Windows Job owner is absent; kill-on-close enforces descendant termination"
      else
        "Guardian disappearance does not prove descendant absence on this containment record"))
      (some
        { status := status
          method := if closed then .windowsJobOwnerExit else .guardianExitUnverified
          observedAt := now })
    recordGuardianAbsence manifest rest

/-- The cleanup record with a process requirement in it, registering the recorded guardian of a
legacy manifest when there is none. -/
def ensureProcessRequirement (manifest : AttemptManifest) (cleanup : AttemptCleanupRecord) :
    Runtime AttemptCleanupRecord :=
  match manifest.guardian with
  | some guardian =>
    if processRequirements cleanup = [] then do
      registerProcessCleanup manifest "legacy-interrupted-process" guardian
      getAttemptCleanup manifest.attemptId
    else return cleanup
  | none => return cleanup

/-- Close a reserved or claimed attempt whose dispatcher is gone. -/
def closeUnlaunched (self : Self) (manifest : AttemptManifest) : Runtime AttemptManifest := do
  let now ← currentDate
  update self manifest
    { status := some .cancelled
      finishedAt := some (some now)
      verificationStatus := some .ineligible
      failure := some (some ⟨.orphaned,
        (if manifest.status = .claimed then "Claimed" else "Reserved") ++
          " attempt lost dispatcher ownership before execution"⟩) }

/-- Close an attempt whose process trees and resources are proven gone, and remove its worktree. -/
def closeOrphan (self : Self) (manifest : AttemptManifest) :
    Runtime (Disposition × AttemptManifest) := do
  let now ← currentDate
  let manifest ← update self manifest
    { status := some .failed
      finishedAt := some (some now)
      verificationStatus := some .ineligible
      failure := some (some ⟨.orphaned,
        "Recorded process guardian is no longer alive; its ownership pipe closed before retry"⟩) }
  let contract ← ArtifactStore.readJob manifest.jobId
  let removed ← if manifest.workspace.isSome && !contract.retainWorkspace then
      (removeAttemptWorkspace self manifest.attemptId).attempt
    else pure (.ok ())
  match removed with
  | .error _ => return (.unknown, manifest)
  | .ok () =>
    let cleanup ← getAttemptCleanup manifest.attemptId
    if !cleanup.status.isSafe then
      return (.unknown, manifest)
    return (.safeToRetry, manifest)

/-- The part of `recoverInterruptedAttempt` after the guardians were found dead. -/
def recoverDeadAttempt (self : Self) (manifest : AttemptManifest)
    (unresolved : List CleanupRequirement) : Runtime (Disposition × AttemptManifest) := do
  recordGuardianAbsence manifest unresolved
  let cleanup ← getAttemptCleanup manifest.attemptId
  if unresolvedProcesses cleanup ≠ [] then
    return (.unknown, manifest)
  let (manifest, safe) ← cleanupExternalResources self manifest
  if !safe then
    return (.unknown, manifest)
  closeOrphan self manifest

/-- The part of `recoverInterruptedAttempt` for an attempt that was launched. -/
def recoverLaunchedAttempt (self : Self) (manifest : AttemptManifest) :
    Runtime (Disposition × AttemptManifest) := do
  match ← (getAttemptCleanup manifest.attemptId).attempt with
  | .error _ => return (.unknown, manifest)
  | .ok cleanup =>
    let cleanup ← ensureProcessRequirement manifest cleanup
    if processRequirements cleanup = [] then
      return (.unknown, manifest)
    let unresolved := unresolvedProcesses cleanup
    let alive ← askOutside fun o ↦ .ok (someGuardianAlive unresolved o)
    if alive then
      -- the grace period, after which the manifest is read again
      let manifest ← getAttempt manifest.attemptId
      let alive ← askOutside fun o ↦ .ok (someGuardianAlive unresolved o)
      if alive then
        return (.stillRunning, manifest)
      recoverDeadAttempt self manifest unresolved
    else
      recoverDeadAttempt self manifest unresolved

/-- `recoverInterruptedAttempt`. -/
def recoverInterruptedAttempt (self : Self) (attemptId : AttemptId) :
    Runtime (Disposition × AttemptManifest) := do
  let manifest ← getAttempt attemptId
  if manifest.status.isTerminal then
    return (.terminal, manifest)
  if manifest.status.isUnlaunched then
    let manifest ← closeUnlaunched self manifest
    return (.safeToRetry, manifest)
  recoverLaunchedAttempt self manifest

end Conductor

end CodeConductor
