import CodeConductor.Retention.Store

/-!
# Applying a plan

`RetentionManager.apply` takes a plan anybody may have written. It checks the fingerprint, the data
root, the validity window, and that the records and files of the plan are still as bound. The class
of the attempts, the names of the files and the job of each candidate are those of the plan.
-/

namespace CodeConductor

/-- `gcApprovalSchema`. -/
structure GcApproval where
  approvedBy : String
  approvedAt : Timestamp
  reason : String
  deriving DecidableEq, Repr

/-- What applying a plan changes, one thing at a time. -/
inductive GcMutation where
  | file (candidate : GcCandidate) (target : StorePath)
  | tombstone (candidate : GcCandidate) (target : StorePath)
  | workspace (candidate : GcCandidate)
  deriving DecidableEq, Repr

/-- What happens outside while a plan is applied. -/
structure GcOutside where
  /-- The error a deletion or the writing of a tombstone fails with. -/
  fault : GcMutation → Option RuntimeError
  /-- The error the removal of a worktree fails with: external resources that remain, unresolved
  cleanup, or git; and whether the worktree is gone then. -/
  removal : AttemptId → Option (RuntimeError × Bool)
  /-- The cleanup record the removal of a worktree leaves. -/
  cleanupAfter : AttemptId → Option AttemptCleanupRecord

/-- Nothing outside makes a change fail. -/
def GcOutside.Calm (outside : GcOutside) : Prop :=
  (∀ mutation, outside.fault mutation = none) ∧ ∀ attemptId, outside.removal attemptId = none

/-- An entry of `removed`. -/
structure GcRemoved where
  kind : GcCandidateKind
  attemptId : AttemptId
  bytes : ℕ
  deriving DecidableEq, Repr

/-- The entry of a candidate. -/
def GcCandidate.removed (candidate : GcCandidate) : GcRemoved :=
  ⟨candidate.kind, candidate.attemptId, candidate.estimatedBytes⟩

/-- How far a plan has been applied. -/
structure GcProgress where
  store : RetentionStore
  removed : List GcRemoved
  /-- The changes made. -/
  log : List GcMutation
  /-- The change that failed. -/
  failing : Option GcMutation

/-- The last action record of a plan that was approved. -/
inductive GcActionStatus where
  | failed (removed : List GcRemoved) (error : String)
  | completed (removed : List GcRemoved)
  deriving DecidableEq, Repr

namespace RetentionStore

/-- `resolveBoundFile`. -/
def resolveBoundFile (root : StorePath) (relativePath : String) : Except RuntimeError StorePath :=
  let target := resolvePath root relativePath
  if root <+: target ∧ (target.drop root.length).head?.any
      (fun segment ↦ ¬['.', '.'] <+: segment.toList) then .ok target
  else .error (.plain ("Unsafe GC artifact path: " ++ relativePath))

/-- `rm(target)`. -/
def removeFile (store : RetentionStore) (target : StorePath) : RetentionStore :=
  { store with
    files := fun path ↦ if path = target then none else store.files path
    mem_paths := fun path h ↦ store.mem_paths path <| by
      split at h
      · exact absurd h Bool.false_ne_true
      · exact h }

/-- `writeJsonAtomic(target, …)`. -/
def writeFile (store : RetentionStore) (target : StorePath) (content : List UInt8) :
    RetentionStore :=
  { store with
    files := fun path ↦ if path = target then some content else store.files path
    paths := target :: store.paths
    mem_paths := fun path h ↦ by
      split at h
      · rename_i heq
        exact heq ▸ List.mem_cons_self
      · exact List.mem_cons_of_mem _ (store.mem_paths path h) }

/-- The worktree is gone. -/
def removeWorktree (store : RetentionStore) (path : String) : RetentionStore :=
  { store with worktrees := fun other ↦ if other = path then none else store.worktrees other }

/-- The cleanup record of an attempt is another. -/
def setCleanup (store : RetentionStore) (attemptId : AttemptId)
    (cleanup : Option AttemptCleanupRecord) : RetentionStore :=
  { store with cleanups := fun other ↦ if other = attemptId then cleanup else store.cleanups other }

variable (tools : RetentionTools) (outside : GcOutside)

/-- Whether removing the workspace of an attempt removes a worktree. -/
def ownsWorktree (store : RetentionStore) (manifest : AttemptManifest) : Option String :=
  match manifest.workspace.filter fun workspace ↦ workspace.retained with
  | some workspace =>
    if (store.cleanups manifest.attemptId).any fun cleanup ↦
        cleanup.latestStatus worktreeSubject = some .proven then none
    else some workspace.path
  | none => none

/-- `removeAttemptWorkspace`. -/
def removeAttemptWorkspace (store : RetentionStore) (attemptId : AttemptId) :
    RetentionStore × Option RuntimeError :=
  match store.getAttempt attemptId with
  | .error error => (store, some error)
  | .ok manifest =>
    if !manifest.status.isTerminal then
      (store, some (.plain ("Cannot remove workspace for active attempt " ++ attemptId.text)))
    else
      match store.ownsWorktree manifest, outside.removal attemptId with
      | none, problem => (store, problem.map Prod.fst)
      | some path, problem =>
        let settled := store.setCleanup attemptId (outside.cleanupAfter attemptId)
        (if problem.all Prod.snd then settled.removeWorktree path else settled,
          problem.map Prod.fst)

/-- `assertPlanIntegrity`. -/
def assertPlanIntegrity (store : RetentionStore) (plan : GcPlan) (now : Timestamp) :
    Except RuntimeError Unit := do
  if tools.fingerprint plan.toGcPlanBody ≠ plan.planFingerprint then
    throw (.plain "GC plan fingerprint is invalid")
  if resolvePath store.cwd plan.dataRoot ≠ store.root then
    throw (.plain "GC plan belongs to another data root")
  if plan.expiresAt < now then
    throw (.plain "GC plan has expired; run a new dry-run")

/-- `assertApproval`. -/
def assertApproval (plan : GcPlan) (approval : GcApproval) (now : Timestamp) :
    Except RuntimeError Unit :=
  if approval.approvedAt < plan.generatedAt ∨ plan.expiresAt < approval.approvedAt ∨
      now + 5000 < approval.approvedAt then
    .error (.plain "GC approval is outside the plan's validity window")
  else .ok ()

/-- The check of a file binding. -/
def revalidateFile (store : RetentionStore) (candidate : GcCandidate) (root : StorePath)
    (file : GcFileBinding) : Except RuntimeError Unit := do
  let target ← resolveBoundFile root file.relativePath
  let content ← store.readFile target
  if content.length ≠ file.bytes ∨ tools.sha256 content ≠ file.sha256 then
    throw (.plain ("GC artifact binding changed: " ++ candidate.attemptId.text ++ "/" ++
      file.relativePath))

/-- The check of a candidate. -/
def revalidateCandidate (store : RetentionStore) (candidate : GcCandidate) :
    Except RuntimeError Unit := do
  let manifest ← store.getAttempt candidate.attemptId
  let cleanup ← store.getAttemptCleanup candidate.attemptId
  let manifestSha256 ← store.sha256File tools manifest.artifacts.manifest
  let cleanupPath ← store.cleanupPath manifest
  let cleanupContent ← store.readFile cleanupPath
  if manifest.revision ≠ candidate.manifestRevision ∨ cleanup.revision ≠ candidate.cleanupRevision ∨
      manifestSha256 ≠ candidate.manifestSha256 ∨
      tools.sha256 cleanupContent ≠ candidate.cleanupSha256 then
    throw (.plain ("GC plan is stale for " ++ candidate.attemptId.text))
  match candidate.kind with
  | .workspace =>
    if !manifest.workspace.any fun workspace ↦ (store.worktrees workspace.path).isSome then
      throw (.plain ("GC workspace target changed for " ++ candidate.attemptId.text))
  | .attemptArtifacts =>
    let root ← store.attemptDirectory candidate.jobId candidate.attemptId
    candidate.files.forM (store.revalidateFile tools candidate root)

/-- `revalidate`. -/
def revalidate (store : RetentionStore) (plan : GcPlan) : Except RuntimeError Unit :=
  plan.candidates.forM (store.revalidateCandidate tools)

/-- The checks before the first change. -/
def permit (store : RetentionStore) (plan : GcPlan) (approval : GcApproval) (now : Timestamp) :
    Except RuntimeError Unit := do
  store.assertPlanIntegrity tools plan now
  assertApproval plan approval now
  store.revalidate tools plan

/-- The changes a candidate asks for, in order. -/
def mutations (store : RetentionStore) (candidate : GcCandidate) :
    Except RuntimeError (List GcMutation) :=
  match candidate.kind with
  | .workspace => .ok [.workspace candidate]
  | .attemptArtifacts => do
    let root ← store.attemptDirectory candidate.jobId candidate.attemptId
    let targets ← candidate.files.mapM fun file ↦ resolveBoundFile root file.relativePath
    return targets.map (.file candidate) ++ [.tombstone candidate (root ++ ["gc-tombstone.json"])]

/-- One change, and the error it fails with. -/
def mutate (plan : GcPlan) (now : Timestamp) (store : RetentionStore) (mutation : GcMutation) :
    RetentionStore × Option RuntimeError :=
  match mutation with
  | .workspace candidate => store.removeAttemptWorkspace outside candidate.attemptId
  | .file candidate target =>
    match outside.fault (.file candidate target), store.readFile target with
    | some error, _ => (store, some error)
    | none, .error error => (store, some error)
    | none, .ok _ => (store.removeFile target, none)
  | .tombstone candidate target =>
    match outside.fault (.tombstone candidate target) with
    | some error => (store, some error)
    | none => (store.writeFile target
        (tools.tombstone plan.planId plan.planFingerprint now candidate.files), none)

/-- Changes, up to the first that fails. -/
def mutateAll (plan : GcPlan) (now : Timestamp) :
    List GcMutation → GcProgress → GcProgress × Option RuntimeError
  | [], progress => (progress, none)
  | mutation :: rest, progress =>
    match mutate tools outside plan now progress.store mutation with
    | (store, some error) => ({ progress with store, failing := some mutation }, some error)
    | (store, none) =>
      mutateAll plan now rest { progress with store, log := progress.log ++ [mutation] }

/-- The candidates, up to the first that fails. -/
def applyCandidates (plan : GcPlan) (now : Timestamp) :
    List GcCandidate → GcProgress → GcProgress × Option RuntimeError
  | [], progress => (progress, none)
  | candidate :: rest, progress =>
    match progress.store.mutations candidate with
    | .error error => (progress, some error)
    | .ok mutations =>
      match mutateAll tools outside plan now mutations progress with
      | (progress, some error) => (progress, some error)
      | (progress, none) =>
        applyCandidates plan now rest
          { progress with removed := progress.removed ++ [candidate.removed] }

/-- `apply`, after its checks: what it changed, and the action record. -/
def applyPlan (store : RetentionStore) (plan : GcPlan) (now : Timestamp) :
    GcProgress × GcActionStatus :=
  match applyCandidates tools outside plan now plan.candidates ⟨store, [], [], none⟩ with
  | (progress, some error) => (progress, .failed progress.removed error.message)
  | (progress, none) => (progress, .completed progress.removed)

/-- `RetentionManager.apply`. -/
def apply (store : RetentionStore) (plan : GcPlan) (approval : GcApproval) (now : Timestamp) :
    Except RuntimeError (GcProgress × GcActionStatus) := do
  store.permit tools plan approval now
  return store.applyPlan tools outside plan now

end RetentionStore

end CodeConductor
