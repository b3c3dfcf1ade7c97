import CodeConductor.Runtime.Conductor

/-!
# The execution of an attempt

`executeAttempt` takes a claimed attempt to a terminal manifest: it prepares a worktree, composes
the proposals it builds on, runs the setup commands, the worker and the acceptance commands, and
records each stage as a transition over the manifest it committed last.

## The variables of the function

`manifest` and `workspace` are assigned along the way, also by callbacks, and read by the `catch` and
`finally` blocks. An error thrown while they have given values is therefore an `Interrupted` error
carrying them: `during` names the values a call is awaited with.
-/

namespace CodeConductor

open Async Async.Prog

/-- What the `try` block of `executeAttempt` throws. -/
inductive Interrupted where
  /-- `TerminalAttempt`: a stage has ended the attempt, which had a workspace by then. -/
  | ended (manifest : AttemptManifest)
  /-- Any other error, with the manifest of the moment and whether the workspace was created. -/
  | failed (error : RuntimeError) (manifest : AttemptManifest) (hasWorkspace : Bool)
  deriving DecidableEq, Repr

/-- The manifest when the error was thrown. -/
def Interrupted.manifest : Interrupted → AttemptManifest
  | ended manifest => manifest
  | failed _ manifest _ => manifest

/-- Whether there was a workspace when the error was thrown. -/
def Interrupted.hasWorkspace : Interrupted → Bool
  | ended _ => true
  | failed _ _ hasWorkspace => hasWorkspace

/-- A part of `executeAttempt`. -/
abbrev Execution (A : Type) := Prog RuntimeStep World RuntimeCall Interrupted A

namespace Conductor

/-- Await `p` while the variables have the given values. -/
def during {A : Type} (manifest : AttemptManifest) (hasWorkspace : Bool) (p : Runtime A) :
    Execution A :=
  p.mapError fun error ↦ .failed error manifest hasWorkspace

/-! ### Commands -/

/-- The status of a command's evidence. -/
inductive CommandStatus where
  | passed | failed | timedOut | cancelled | policyDenied
  deriving DecidableEq, Repr

/-- The status of a phase. -/
inductive PhaseStatus where
  | passed | failed | cancelled | policyDenied
  deriving DecidableEq, Repr

/-- The text of a phase status. -/
def PhaseStatus.text : PhaseStatus → String
  | passed => "passed"
  | failed => "failed"
  | cancelled => "cancelled"
  | policyDenied => "policy-denied"

/-- `phaseStatus`. -/
def phaseStatus (commands : List CommandStatus) : PhaseStatus :=
  if commands.any (· = .cancelled) then .cancelled
  else if commands.any (· = .policyDenied) then .policyDenied
  else if commands.all (· = .passed) then .passed
  else .failed

/-- The status of a command that ran. -/
def commandStatus (process : ProcessResult) : CommandStatus :=
  if process.cancelled then .cancelled
  else if process.timedOut then .timedOut
  else if process.exitCode = some 0 then .passed
  else .failed

/-- `assertProcessCleanupProven`. -/
def assertProcessCleanupProven (operationId : String) (result : ProcessResult) :
    Except RuntimeError Unit :=
  if result.termination.status ≠ .proven then
    .error (.plain ("Process cleanup for " ++ operationId ++ " is " ++
      result.termination.status.text ++ "; continuing could race a surviving descendant"))
  else .ok ()

/-- `registerExternalResource`. -/
def registerExternalResource (self : Self) (manifest : AttemptManifest)
    (resource : ExternalResource) (maximum : ℕ) : Runtime AttemptManifest := do
  let knownIds := (manifest.externalResources.map ExternalResource.resourceId).eraseDups
  if resource.resourceId ∉ knownIds ∧ maximum ≤ knownIds.length then
    throw (.resourceLimit ("external resources exceed the frozen maximum of " ++ toString maximum))
  let _ ← registerCleanupRequirement manifest ⟨.externalResource, resource.resourceId⟩
  let existing := manifest.externalResources.filter fun entry ↦
    entry.resourceId ≠ resource.resourceId
  update self manifest { externalResources := some (existing ++ [resource]) }

/-- `onGuardianReady`: the process tree is registered before the manifest names its guardian. -/
def onGuardianReady (self : Self) (manifest : AttemptManifest) (hasWorkspace : Bool)
    (operationId : String) (guardian : Option ProcessGuardianIdentity) :
    Execution AttemptManifest :=
  match guardian with
  | none => return manifest
  | some identity => do
    during manifest hasWorkspace (registerProcessCleanup manifest operationId identity)
    during manifest hasWorkspace (update self manifest { guardian := some (some identity) })

/-- Whether the attempt's signal is aborted: cancelled, past its deadline or over its budget. -/
def signalAborted (self : Self) (attemptId : AttemptId) : Runtime Bool :=
  .read .memory fun w ↦
    .ok ((w.conductor self.process).activeAttempts attemptId = some true ||
      w.outside.deadlinePassed attemptId || !(w.outside.budget attemptId).isOk)

/-- The resource a sandboxed command creates, registered before the command runs. -/
def onExternalResource (self : Self) (contract : JobContract) (manifest : AttemptManifest)
    (command : CommandRun) : Runtime AttemptManifest :=
  match contract.boundary with
  | .hostWorktree => do
    Prog.ofResult command.policy
    return manifest
  | .externalSandbox .. => do
    let resource ← Prog.ofResult command.resource
    registerExternalResource self manifest resource contract.resources.maxExternalResources

/-- `onExternalResourceReleased`. -/
def onExternalResourceReleased (self : Self) (contract : JobContract)
    (manifest : AttemptManifest) (command : CommandRun) : Runtime AttemptManifest :=
  match contract.boundary with
  | .hostWorktree => return manifest
  | .externalSandbox .. =>
    match command.cleanup with
    | none => throw (.plain "External sandbox cleanup returned no process evidence")
    | some cleanup => do
      let resource ← Prog.ofResult command.resource
      releaseExternalResource self manifest resource.resourceId cleanup

/-- The process of a command and what its callbacks record. -/
def executeProcess (self : Self) (contract : JobContract) (manifest : AttemptManifest)
    (operationId : String) (command : CommandRun) :
    Execution (CommandStatus × Option ProcessResult × AttemptManifest) := do
  let manifest ← onGuardianReady self manifest true operationId command.run.guardian
  let process ← during manifest true (Prog.ofResult command.run.result)
  during manifest true (recordProcessCleanup manifest operationId process)
  during manifest true (Prog.ofResult (assertProcessCleanupProven operationId process))
  let manifest ← during manifest true (onExternalResourceReleased self contract manifest command)
  return (commandStatus process, some process, manifest)

/-- `executeCommand`: failures become the status of the command. -/
def executeCommand (self : Self) (contract : JobContract) (manifest : AttemptManifest)
    (operationId : String) (command : CommandRun) :
    Runtime (CommandStatus × Option ProcessResult × AttemptManifest) := do
  if !command.cwd.isOk then
    return (.policyDenied, none, manifest)
  match ← (onExternalResource self contract manifest command).attempt with
  | .error _ => return (.policyDenied, none, manifest)
  | .ok manifest =>
    if ← signalAborted self manifest.attemptId then
      return (.cancelled, none, manifest)
    match ← (executeProcess self contract manifest operationId command).attempt with
    | .ok outcome => return outcome
    | .error interrupted => return (.failed, none, interrupted.manifest)

/-- The operation a command's process tree is registered under. -/
def commandOperation (phase : CommandPhase) (index : ℕ) : String :=
  phase.text ++ "-" ++ padStart 2 (index + 1)

/-- `runCommandSequence`, with `remaining` commands left from `index` on. -/
def runCommandSequence (self : Self) (contract : JobContract) (phase : CommandPhase) :
    (index remaining : ℕ) → AttemptManifest → Execution (List CommandStatus × AttemptManifest)
  | _, 0, manifest => return ([], manifest)
  | index, remaining + 1, manifest => do
    let command ← during manifest true (askOutside fun o ↦
      (o.remainingTimeout manifest.attemptId).map fun _ ↦ o.command manifest.attemptId phase index)
    let operationId := commandOperation phase index
    let (status, process, manifest) ← during manifest true
      (executeCommand self contract manifest operationId command)
    match process.bind ProcessResult.outputLimit with
    | some limit =>
      throw (.failed (.resourceLimit (operationId ++ " " ++ limit.stream.text ++ " exceeded " ++
        toString limit.limitBytes ++ " bytes")) manifest true)
    | none =>
      if status ≠ .passed then
        return ([status], manifest)
      let (statuses, manifest) ←
        runCommandSequence self contract phase (index + 1) remaining manifest
      return (status :: statuses, manifest)

/-! ### The stages -/

/-- The patch that ends an attempt. -/
def endingPatch (status : AttemptStatus) (now : Timestamp) (failure : Option AttemptFailure)
    (verificationStatus : VerificationStatus := .ineligible)
    (process : Option (Option ProcessResult) := none) : AttemptPatch where
  status := some status
  finishedAt := some (some now)
  failure := some failure
  verificationStatus := some verificationStatus
  process := process

/-- End the attempt and leave the `try` block with a `TerminalAttempt`. -/
def endAttempt {A : Type} (self : Self) (manifest : AttemptManifest)
    (patch : Timestamp → AttemptPatch) : Execution A := do
  let now ← during manifest true currentDate
  let manifest ← during manifest true (update self manifest (patch now))
  throw (.ended manifest)

/-- From claimed to a prepared worktree. -/
def prepareWorkspace (self : Self) (contract : JobContract) (manifest : AttemptManifest) :
    Execution AttemptManifest := do
  let manifest ← during manifest false (update self manifest { status := some .preparing })
  if !contract.retainWorkspace then
    let _ ← during manifest false (registerCleanupRequirement manifest worktree)
  let workspace ← during manifest false (askOutside fun o ↦ o.createWorkspace manifest.attemptId)
  during manifest true (askOutside fun o ↦ o.budget manifest.attemptId)
  let now ← during manifest true currentDate
  let manifest ← during manifest true (update self manifest
    { workspace := some (some { workspace with retained := true })
      startedAt := some (some now)
      verificationStatus := some .running })
  during manifest true (askOutside fun o ↦ o.writeVerification manifest.attemptId)
  return manifest

/-- Compose the proposals of the lineage into the worktree. -/
def composeLineage (self : Self) (contract : JobContract) (manifest : AttemptManifest) :
    Execution AttemptManifest :=
  match manifest.lineage with
  | none => return manifest
  | some lineage => do
    let composed ← Prog.attempt (E := RuntimeError) do
      validateProposalLineage contract lineage
      let workspace ← askOutside fun o ↦ o.composeBaseline manifest.attemptId
      let now ← currentDate
      update self manifest
        { workspace := some (some { workspace with retained := true })
          lineage := some (some
            { lineage with
              status := .composed, derivedRevision := some workspace.baseRevision
              composedAt := some now, failure := none }) }
    match composed with
    | .ok manifest => return manifest
    | .error error =>
      during manifest true (askOutside fun o ↦ o.writeVerification manifest.attemptId)
      endAttempt self manifest fun now ↦
        { endingPatch .needsInput now (some ⟨.compositionFailed, error.message⟩) with
          lineage := some (some
            { lineage with status := .rejected, failure := some error.message }) }

/-- Run the setup commands. -/
def runSetup (self : Self) (contract : JobContract) (manifest : AttemptManifest) :
    Execution AttemptManifest := do
  if contract.setupCommands = 0 then
    return manifest
  let (commands, manifest) ←
    runCommandSequence self contract .setup 0 contract.setupCommands manifest
  during manifest true (askOutside fun o ↦ o.budget manifest.attemptId)
  let repositoryClean ← during manifest true
    (askOutside fun o ↦ o.repositoryClean manifest.attemptId)
  during manifest true (askOutside fun o ↦ o.writeVerification manifest.attemptId)
  let status := if repositoryClean then phaseStatus commands else .failed
  if status = .passed then
    return manifest
  during manifest true (askOutside fun o ↦ o.writeVerification manifest.attemptId)
  let deadlinePassed ← during manifest true
    (askOutside fun o ↦ .ok (o.deadlinePassed manifest.attemptId))
  let cancelled := status = .cancelled ∧ deadlinePassed = false
  endAttempt self manifest fun now ↦
    endingPatch (if cancelled then .cancelled else .failed) now (some
      { kind := if deadlinePassed then .timeout else if cancelled then .cancelled else .setupFailed
        message :=
          if deadlinePassed then "Total attempt deadline expired during setup"
          else if repositoryClean then "Setup phase ended with " ++ status.text
          else "Setup commands changed tracked or untracked repository state" })

/-- Start the worker's process tree and wait for it. -/
def runWorker (self : Self) (manifest : AttemptManifest) (dispatchOperationId : Uuid) :
    Execution (ProcessResult × AttemptManifest) := do
  let attemptId := manifest.attemptId
  during manifest true (askOutside fun o ↦ o.remainingTimeout attemptId)
  let run ← during manifest true (.atomic (.startWorker attemptId) fun w ↦
    (.ok (w.outside.worker attemptId),
      w.startWorker self.process self.thread attemptId dispatchOperationId))
  let manifest ← onGuardianReady self manifest true "worker" run.guardian
  let manifest ← match run.workerPid, manifest.guardian with
    | some pid, some guardian =>
      during manifest true (update self manifest
        { guardian := some (some { guardian with workerPid := some pid }) })
    | _, _ => pure manifest
  let process ← during manifest true (Prog.ofResult run.result)
  return (process, manifest)

/-- Record the proposal: whether it is in scope. -/
def captureWorkerProposal (self : Self) (manifest : AttemptManifest) (process : ProcessResult) :
    Execution Bool := do
  let captured ← Prog.attempt (E := RuntimeError) do
    let inScope ← askOutside fun o ↦ o.captureProposal manifest.attemptId
    askOutside fun o ↦ o.budget manifest.attemptId
    return inScope
  match captured with
  | .ok inScope => return inScope
  | .error error =>
    let budget ← Prog.attempt (E := RuntimeError)
      (askOutside fun o ↦ o.budget manifest.attemptId)
    let captureError : RuntimeError := match budget with
      | .ok () => error
      | .error budgetError => budgetError
    during manifest true (askOutside fun o ↦ o.writeVerification manifest.attemptId)
    endAttempt self manifest fun now ↦
      endingPatch .failed now (some
        { kind := match captureError with
            | .resourceLimit _ => .resourceLimit
            | _ => .proposalCaptureFailed
          message := captureError.message }) .ineligible (some (some process))

/-- Record a worker that did not end well. -/
def endWorker (self : Self) (manifest : AttemptManifest) (process : ProcessResult) :
    Execution AttemptManifest := do
  during manifest true (askOutside fun o ↦ o.writeVerification manifest.attemptId)
  let (now, deadlinePassed) ← during manifest true
    (askOutside fun o ↦ .ok (o.now, o.deadlinePassed manifest.attemptId))
  let patch :=
    if process.cancelled then
      endingPatch (if deadlinePassed then .failed else .cancelled) now (some
        { kind := if deadlinePassed then .timeout else .cancelled
          message :=
            if deadlinePassed then "Total attempt deadline expired during worker execution"
            else "Attempt cancelled by Conductor" }) .ineligible (some (some process))
    else if process.timedOut then
      endingPatch .failed now (some ⟨.timeout, "Worker exceeded its job timeout"⟩) .ineligible
        (some (some process))
    else
      endingPatch .failed now (some ⟨.workerExit,
        "Worker exited with code " ++ exitText process.exitCode⟩) .ineligible (some (some process))
  during manifest true (update self manifest patch)

/-- What the acceptance phase concluded: its status when it ran, and whether the proposal is
eligible for review. -/
def runAcceptance (self : Self) (contract : JobContract) (manifest : AttemptManifest)
    (inScope profileComplete : Bool) :
    Execution (Option PhaseStatus × Bool × AttemptManifest) := do
  if !inScope then
    return (none, false, manifest)
  if contract.acceptanceCommands = 0 then
    return (none, profileComplete, manifest)
  let (commands, manifest) ←
    runCommandSequence self contract .acceptance 0 contract.acceptanceCommands manifest
  during manifest true (askOutside fun o ↦ o.budget manifest.attemptId)
  let proposalStable ← during manifest true
    (askOutside fun o ↦ o.proposalStable manifest.attemptId)
  during manifest true (askOutside fun o ↦ o.budget manifest.attemptId)
  let status := phaseStatus commands
  return (some status, status = .passed && proposalStable && profileComplete, manifest)

/-- Verify a proposal and complete the attempt. -/
def verifyProposal (self : Self) (contract : JobContract) (manifest : AttemptManifest)
    (process : ProcessResult) (inScope profileComplete : Bool) : Execution AttemptManifest := do
  let manifest ← during manifest true (update self manifest
    { status := some .verifying, process := some (some process) })
  let (acceptance, eligibleForReview, manifest) ←
    runAcceptance self contract manifest inScope profileComplete
  during manifest true (askOutside fun o ↦ o.writeVerification manifest.attemptId)
  let (now, deadlinePassed) ← during manifest true
    (askOutside fun o ↦ .ok (o.now, o.deadlinePassed manifest.attemptId))
  let cancelled := acceptance = some .cancelled
  let timedOut := cancelled ∧ deadlinePassed = true
  during manifest true (update self manifest
    (endingPatch (if timedOut then .failed else if cancelled then .cancelled else .completed) now
      (if timedOut then
        some ⟨.timeout, "Total attempt deadline expired during deterministic verification"⟩
      else if cancelled then
        some ⟨.cancelled, "Attempt cancelled during deterministic verification"⟩
      else none)
      (if eligibleForReview then .eligible else .ineligible) (some (some process))))

/-- The `try` block of `executeAttempt` from the start of the worker on. -/
def executeWorker (self : Self) (contract : JobContract) (manifest : AttemptManifest)
    (dispatchOperationId : Uuid) (profileComplete : Bool) : Execution AttemptManifest := do
  let (process, manifest) ← runWorker self manifest dispatchOperationId
  during manifest true (askOutside fun o ↦ o.budget manifest.attemptId)
  during manifest true (recordProcessCleanup manifest "worker" process)
  during manifest true (Prog.ofResult (assertProcessCleanupProven "worker" process))
  match process.outputLimit with
  | some limit =>
    throw (.failed (.resourceLimit (limit.stream.text ++ " exceeded " ++ toString limit.limitBytes ++
      " bytes")) manifest true)
  | none =>
    let inScope ← captureWorkerProposal self manifest process
    if process.cancelled ∨ process.timedOut ∨ process.exitCode ≠ some 0 then
      endWorker self manifest process
    else
      verifyProposal self contract manifest process inScope profileComplete

/-- The `try` block of `executeAttempt`. -/
def executeStages (self : Self) (contract : JobContract) (initialManifest : AttemptManifest)
    (dispatchOperationId : Uuid) : Execution AttemptManifest := do
  let manifest ← prepareWorkspace self contract initialManifest
  let manifest ← composeLineage self contract manifest
  let manifest ← runSetup self contract manifest
  let profileComplete ← during manifest true
    (askOutside fun o ↦ o.workerProfile manifest.attemptId)
  let manifest ← during manifest true (update self manifest { status := some .running })
  if profileComplete then
    during manifest true (askOutside fun o ↦ o.validateProfile manifest.attemptId)
  executeWorker self contract manifest dispatchOperationId profileComplete

/-- `classifyFailure`. -/
def classifyFailure (error : RuntimeError) (status : AttemptStatus) (cancelled : Bool) :
    AttemptFailure :=
  match error with
  | .resourceLimit _ => ⟨.resourceLimit, error.message⟩
  | _ =>
    if cancelled then ⟨.cancelled, "Attempt cancelled by Conductor"⟩
    else match status with
      | .preparing => ⟨.workspaceFailed, error.message⟩
      | .running => ⟨.spawnFailed, error.message⟩
      | _ => ⟨.orchestratorError, error.message⟩

/-- The `catch` block of `executeAttempt`. -/
def closeInterrupted (self : Self) (interrupted : Interrupted) : Runtime AttemptManifest :=
  match interrupted with
  | .ended manifest => return manifest
  | .failed error manifest _ => do
    let (cancelled, now) ← Prog.read .memory fun w ↦
      .ok ((w.conductor self.process).activeAttempts manifest.attemptId = some true &&
        !w.outside.deadlinePassed manifest.attemptId, w.outside.now)
    update self manifest
      (endingPatch (if cancelled then .cancelled else .failed) now
        (some (classifyFailure error manifest.status cancelled)))

/-- Record that the worktree could not be removed. -/
def recordWorkspaceFailure (manifest : AttemptManifest) (error : RuntimeError) : Runtime Unit := do
  let _ ← appendCleanupEvidence manifest worktree .failed .workspaceRemove
    (some ("Workspace cleanup failed: " ++ error.message))
  return ()

/-- The `finally` block of `executeAttempt`, for a worktree that is not retained. -/
def removeOwnWorkspace (self : Self) (manifest : AttemptManifest) : Runtime AttemptManifest := do
  match ← (cleanupExternalResources self manifest).attempt with
  | .error error =>
    recordWorkspaceFailure manifest error
    return manifest
  | .ok (manifest, safe) =>
    let removed ← Prog.attempt (E := RuntimeError) do
      if !safe then
        throw (.plain "External resource cleanup failed; its worktree must remain available")
      assertWorkspaceRemovalSafe manifest
      askOutside fun o ↦ o.removeWorkspace manifest.attemptId
      let _ ← appendCleanupEvidence manifest worktree .proven .workspaceRemove
        (some "Recorded attempt worktree removed")
      return ()
    match removed with
    | .ok () => return manifest
    | .error error =>
      recordWorkspaceFailure manifest error
      return manifest

/-- `executeAttempt`. -/
def executeAttempt (self : Self) (contract : JobContract) (initialManifest : AttemptManifest)
    (dispatchOperationId : Uuid) : Runtime AttemptManifest := do
  let ending ← (executeStages self contract initialManifest dispatchOperationId).attempt
  let closed ← match ending with
    | .ok manifest => pure (.ok manifest)
    | .error interrupted => (closeInterrupted self interrupted).attempt
  -- the variables as the `finally` block finds them
  let (manifest, hasWorkspace) := match ending, closed with
    | .ok manifest, _ => (manifest, true)
    | .error interrupted, .ok manifest => (manifest, interrupted.hasWorkspace)
    | .error interrupted, .error _ => (interrupted.manifest, interrupted.hasWorkspace)
  let manifest ← if hasWorkspace && !contract.retainWorkspace then
      removeOwnWorkspace self manifest
    else pure manifest
  match closed with
  | .ok _ => return manifest
  | .error error => throw error

/-- The background thread `launchAttempt` starts: the attempt leaves both maps before its promise
settles. -/
def runExecution (self : Self) (contract : JobContract) (manifest : AttemptManifest)
    (dispatchOperationId : Uuid) : Runtime Unit := do
  let ending ← (executeAttempt self contract manifest dispatchOperationId).attempt
  .modify .memory fun w ↦ w.leaveMaps self.process manifest.attemptId
  .modify .settle fun w ↦ w.settleExecution self.process self.thread ending

end Conductor

end CodeConductor
