import CodeConductor.Contracts.Cleanup
import CodeConductor.Contracts.Errors
import Mathlib.Data.List.Dedup
import Mathlib.Algebra.Ring.Nat

/-!
# Retention classes and plans

`RetentionManager.dryRun` classes every attempt by its own status, disposition and age, and plans the
removal of what is expired: first a worktree that was kept, then the files of the attempt directory
that are not records. The data root holds directories and plain files only.
-/

namespace CodeConductor

/-- An absolute path, by its segments. -/
abbrev StorePath := List String

/-- `path.resolve(base, text)`. -/
def resolvePath (base : StorePath) (text : String) : StorePath :=
  ((text.toList.splitOn '/').map String.ofList).foldl
    (fun path segment ↦
      if segment = "" ∨ segment = "." then path
      else if segment = ".." then path.dropLast
      else path ++ [segment])
    (if text.toList.head? = some '/' then [] else base)

/-- `safeSegment`. -/
def safeSegment (value : String) : Except RuntimeError String :=
  if value ≠ "" ∧ value.toList.all fun c ↦ c.isAlphanum || c ∈ ['_', '.', '-'] then .ok value
  else .error (.plain ("Unsafe artifact path segment: " ++ value))

/-- `retentionClassSchema`. -/
inductive RetentionClass where
  | active | reviewable | retained | quarantine | expired
  deriving DecidableEq, Repr

/-- The durations of `contract.resources` that retention reads. -/
structure RetentionPolicy where
  terminalRetentionMs : ℕ
  reviewedRetentionMs : ℕ
  gcProposalTtlMs : ℕ
  deriving DecidableEq, Repr

/-- What retention is decided on: the attempts, what can be read of their jobs and cleanups, the files
under the data root and the worktrees, with their sizes. -/
structure RetentionStore where
  cwd : StorePath
  /-- `store.root`. -/
  root : StorePath
  attempts : List AttemptManifest
  policies : JobId → Option RetentionPolicy
  cleanups : AttemptId → Option AttemptCleanupRecord
  files : StorePath → Option (List UInt8)
  /-- All paths with a file. -/
  paths : List StorePath
  worktrees : String → Option ℕ
  distinct : (attempts.map AttemptManifest.attemptId).Nodup
  mem_paths : ∀ path, (files path).isSome → path ∈ paths

/-- A classification. -/
structure Classified where
  retentionClass : RetentionClass
  detail : String
  deriving DecidableEq, Repr

/-- `gcFileBindingSchema`. -/
structure GcFileBinding where
  relativePath : String
  bytes : ℕ
  sha256 : String
  deriving DecidableEq, Repr

/-- `gcCandidateSchema.kind`. -/
inductive GcCandidateKind where
  | workspace | attemptArtifacts
  deriving DecidableEq, Repr

/-- `gcCandidateSchema`; its class is always `expired`. -/
structure GcCandidate where
  kind : GcCandidateKind
  jobId : String
  attemptId : AttemptId
  reason : String
  estimatedBytes : ℕ
  manifestRevision : ℕ
  manifestSha256 : String
  cleanupRevision : ℕ
  cleanupSha256 : String
  files : List GcFileBinding
  deriving DecidableEq, Repr

/-- An entry of `observations`. -/
structure GcObservation where
  jobId : String
  attemptId : AttemptId
  retentionClass : RetentionClass
  detail : String
  deriving DecidableEq, Repr

/-- `gcPlanSchema` without the fingerprint. -/
structure GcPlanBody where
  planId : String
  generatedAt : Timestamp
  expiresAt : Timestamp
  dataRoot : String
  observations : List GcObservation
  candidates : List GcCandidate
  totalEstimatedBytes : ℕ
  deriving DecidableEq, Repr

/-- `gcPlanSchema`. -/
structure GcPlan extends GcPlanBody where
  planFingerprint : String
  deriving DecidableEq, Repr

/-- The functions retention takes from its libraries. -/
structure RetentionTools where
  /-- `createHash("sha256")`. -/
  sha256 : List UInt8 → String
  /-- `fingerprint`. -/
  fingerprint : GcPlanBody → String
  /-- `localeCompare`, as an order. -/
  localeLe : String → String → Bool
  /-- `new Date(time).toISOString()`. -/
  isoDate : Timestamp → String
  /-- `randomUUID()`. -/
  planId : String
  /-- The text of a tombstone: the plan, the time and the removed files. -/
  tombstone : String → String → Timestamp → List GcFileBinding → List UInt8

/-- The subject of a worktree's cleanup. -/
def worktreeSubject : CleanupSubject := ⟨.workspace, "worktree"⟩

/-- Records that are never pruned. -/
def retainedFiles : List String :=
  ["attempt.json", "cleanup.json", "verification.json", "gc-tombstone.json"]

/-- The journals. -/
def retainedDirectories : List String := ["transitions", "cleanup-transitions"]

/-- The dispositions a review authority gives. -/
def ReviewDisposition.isReviewed (disposition : ReviewDisposition) : Bool :=
  disposition ∈ [.accepted, .rejected, .superseded]

namespace RetentionStore

variable (tools : RetentionTools) (store : RetentionStore)

/-- `getAttempt`. -/
def getAttempt (attemptId : AttemptId) : Except RuntimeError AttemptManifest :=
  match store.attempts.find? fun manifest ↦ manifest.attemptId = attemptId with
  | some manifest => .ok manifest
  | none => .error (.fileSystem "ENOENT" attemptId.text)

/-- `readJob`, as far as its retention goes. -/
def readPolicy (jobId : JobId) : Except RuntimeError RetentionPolicy :=
  match store.policies jobId with
  | some policy => .ok policy
  | none => .error (.fileSystem "ENOENT" jobId)

/-- `getAttemptCleanup`. -/
def getAttemptCleanup (attemptId : AttemptId) : Except RuntimeError AttemptCleanupRecord := do
  let manifest ← store.getAttempt attemptId
  match store.cleanups manifest.attemptId with
  | some cleanup => return cleanup
  | none => throw (.fileSystem "ENOENT" manifest.attemptId.text)

/-- `attemptDirectory`. -/
def attemptDirectory (jobId : String) (attemptId : AttemptId) : Except RuntimeError StorePath := do
  let job ← safeSegment jobId
  let attempt ← safeSegment attemptId.text
  return resolvePath store.root ("jobs/" ++ job ++ "/attempts/" ++ attempt)

/-- `readFile`. -/
def readFile (path : StorePath) : Except RuntimeError (List UInt8) :=
  match store.files path with
  | some content => .ok content
  | none => .error (.fileSystem "ENOENT" ("/" ++ "/".intercalate path))

/-- `sha256File` of a recorded path. -/
def sha256File (path : String) : Except RuntimeError String := do
  let content ← store.readFile (resolvePath store.cwd path)
  return tools.sha256 content

/-- The path of a cleanup record. -/
def cleanupPath (manifest : AttemptManifest) : Except RuntimeError StorePath :=
  match manifest.artifacts.cleanup with
  | some path => .ok (resolvePath store.cwd path)
  | none => do
    let directory ← store.attemptDirectory manifest.jobId manifest.attemptId
    return directory ++ ["cleanup.json"]

/-- `classifyRetention`. -/
def classifyRetention (manifest : AttemptManifest) (cleanupStatus : AttemptCleanupStatus)
    (policy : RetentionPolicy) (now : Timestamp) : Except RuntimeError Classified :=
  if !manifest.status.isTerminal then
    .ok ⟨.active, "Attempt is " ++ manifest.status.text⟩
  else if !cleanupStatus.isSafe then
    .ok ⟨.quarantine, "Cleanup evidence is " ++ cleanupStatus.text⟩
  else if manifest.status = .completed ∧ manifest.verificationStatus = .eligible ∧
      !manifest.reviewDisposition.isReviewed then
    .ok ⟨.reviewable, "Eligible proposal has no authoritative review disposition"⟩
  else
    match manifest.finishedAt with
    | none => .error (.plain "Invalid time value")
    | some finishedAt =>
      let expiresAt := finishedAt +
        if manifest.reviewDisposition.isReviewed then policy.reviewedRetentionMs
        else policy.terminalRetentionMs
      if expiresAt ≤ now then
        .ok ⟨.expired, "Terminal evidence expired at " ++ tools.isoDate expiresAt⟩
      else .ok ⟨.retained, "Terminal evidence retained until " ++ tools.isoDate expiresAt⟩

/-- The class of an attempt whose evidence can be read. -/
def classOf (manifest : AttemptManifest) (now : Timestamp) : Except RuntimeError Classified := do
  let policy ← store.readPolicy manifest.jobId
  let cleanup ← store.getAttemptCleanup manifest.attemptId
  classifyRetention tools manifest cleanup.status policy now

/-- `collectPrunableFiles`. -/
def collectPrunableFiles (directory : StorePath) : List GcFileBinding :=
  let names := (store.paths.filter fun path ↦
    path.dropLast = directory ∧ path ≠ directory).filterMap List.getLast?
  let files := names.dedup.filterMap fun name ↦
    if name ∈ retainedFiles then none
    else (store.files (directory ++ [name])).map fun content ↦
      ⟨name, content.length, tools.sha256 content⟩
  files.mergeSort fun left right ↦ tools.localeLe left.relativePath right.relativePath

/-- The observation of an attempt, and its candidate if it has one. -/
def observe (now : Timestamp) (manifest : AttemptManifest) :
    Except RuntimeError (GcObservation × Option GcCandidate) := do
  let observed (retentionClass : RetentionClass) (detail : String) : GcObservation :=
    ⟨manifest.jobId, manifest.attemptId, retentionClass, detail⟩
  let read : Except RuntimeError (RetentionPolicy × AttemptCleanupRecord) := do
    let policy ← store.readPolicy manifest.jobId
    let cleanup ← store.getAttemptCleanup manifest.attemptId
    return (policy, cleanup)
  match read with
  | .error error =>
    return (observed .quarantine ("Retention evidence is unreadable: " ++ error.message), none)
  | .ok (policy, cleanup) =>
    let classified ← classifyRetention tools manifest cleanup.status policy now
    if classified.retentionClass ≠ .expired then
      return (observed classified.retentionClass classified.detail, none)
    else
      let manifestSha256 ← store.sha256File tools manifest.artifacts.manifest
      let cleanupPath ← store.cleanupPath manifest
      let cleanupContent ← store.readFile cleanupPath
      let candidate (kind : GcCandidateKind) (reason : String) (estimatedBytes : ℕ)
          (files : List GcFileBinding) : GcCandidate := {
        kind
        jobId := manifest.jobId
        attemptId := manifest.attemptId
        reason
        estimatedBytes
        manifestRevision := manifest.revision
        manifestSha256
        cleanupRevision := cleanup.revision
        cleanupSha256 := tools.sha256 cleanupContent
        files }
      let unproven := cleanup.latestStatus worktreeSubject ≠ some .proven
      match manifest.workspace.filter fun workspace ↦ workspace.retained && unproven with
      | some workspace =>
        match store.worktrees workspace.path with
        | some bytes =>
          return (observed .expired classified.detail, some (candidate .workspace
            (classified.detail ++ "; retained worktree must be removed before artifacts") bytes []))
        | none =>
          return (observed .quarantine "Workspace is absent without positive cleanup evidence", none)
      | none =>
        let directory ← store.attemptDirectory manifest.jobId manifest.attemptId
        let files := store.collectPrunableFiles tools directory
        if files = [] then return (observed .expired classified.detail, none)
        else
          return (observed .expired classified.detail, some (candidate .attemptArtifacts
            classified.detail (files.map GcFileBinding.bytes).sum files))

/-- `minimumGcTtl`. -/
def minimumGcTtl : ℕ :=
  ((store.attempts.map fun manifest ↦
    (store.policies manifest.jobId).elim (15 * 60 * 1000)
      RetentionPolicy.gcProposalTtlMs).min?).getD (15 * 60 * 1000)

/-- `dryRun`. -/
def dryRun (now : Timestamp) : Except RuntimeError GcPlan := do
  let observed ← store.attempts.mapM (store.observe tools now)
  let candidates := observed.filterMap Prod.snd
  let body : GcPlanBody := {
    planId := tools.planId
    generatedAt := now
    expiresAt := now + store.minimumGcTtl
    dataRoot := "/" ++ "/".intercalate store.root
    observations := observed.map Prod.fst
    candidates
    totalEstimatedBytes := (candidates.map GcCandidate.estimatedBytes).sum }
  return { body with planFingerprint := tools.fingerprint body }

end RetentionStore

end CodeConductor
