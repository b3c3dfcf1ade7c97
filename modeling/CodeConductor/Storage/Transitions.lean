import CodeConductor.Async.RelyGuarantee
import CodeConductor.Contracts.Errors
import CodeConductor.Storage.RevisionName
import Mathlib.Data.List.AList

/-!
# The transition journal of a record

A record lives in two places: a **journal**, one directory per committed revision holding the
snapshot of that revision, and a **projection**, a file with the snapshot some writer wrote last.
`commitTransition` writes the snapshot into a staging directory, renames the staging directory to
the revision's name — the commit — and then replaces the projection; `readLatestTransition` lists
the journal and reads the snapshot of the latest name.

Every operation of the file system is one atomic step of `RecordFs`, so a run may interleave any
number of readers and writers between any two of them, and a process may die there.

## What the file system is assumed to do

Renaming a directory is atomic and fails when the target exists and is not empty; replacing a file
by a rename is atomic. A temporary file carries a UUID in its name and nobody else opens it, so
writing one (`openTemporary`, `writeTemporary`) changes nothing another call can see. A staging
directory carries a UUID as well; the identity of the call that draws it stands for it.

## Kinds of records

Queue items, attempt manifests and cleanup records go through the same two functions. They differ
in how an update is computed and checked, which is what a `RecordType` says.
-/

namespace CodeConductor

open Async Async.Prog

/-! ### Kinds of records -/

/-- A journalled record: how its updates are computed from the current snapshot. -/
structure RecordType (R P : Type) where
  kind : RecordKind
  recordId : String
  /-- The word the reader's message starts with. -/
  title : String
  /-- `revisionOf`. -/
  revision : R → ℕ
  /-- The record an update commits over the current one, or the error its checks throw. -/
  updated : R → P → Timestamp → Except RuntimeError R
  /-- An update is numbered one above what it was computed from. -/
  revision_updated : ∀ {current patch now value}, updated current patch now = .ok value →
    revision value = revision current + 1

/-- The two ways of updating a queue item: `update`, and `reconcile` for an action kind. -/
inductive QueueUpdate where
  | update (patch : QueuePatch)
  | reconcile (patch : QueuePatch) (actionKind : QueueReconciliationKind)
  deriving DecidableEq, Repr

/-- The patch of a queue update. -/
def QueueUpdate.patch : QueueUpdate → QueuePatch
  | update patch => patch
  | reconcile patch _ => patch

/-- The check a queue update passes. -/
def QueueUpdate.validateTransition : QueueUpdate → QueueItem → QueueItem → Except RuntimeError Unit
  | update _ => assertQueueTransition
  | reconcile _ actionKind => assertQueueReconciliationTransition actionKind

/-- Queue items: `QueueStore.commitQueueUpdate`. -/
def queueItemRecord (jobId : JobId) : RecordType QueueItem QueueUpdate where
  kind := .queueItem
  recordId := jobId
  title := "Queue item"
  revision := QueueItem.revision
  updated current u now := current.updated u.validateTransition u.patch now
  revision_updated h := by
    obtain ⟨rfl, -⟩ := QueueItem.updated_ok h
    rfl

/-- Attempt manifests: `ArtifactStore.transitionAttempt`. -/
def attemptRecord (attemptId : AttemptId) : RecordType AttemptManifest AttemptPatch where
  kind := .attempt
  recordId := attemptId.text
  title := "Attempt"
  revision := AttemptManifest.revision
  updated current patch _ := current.updated patch
  revision_updated h := by
    obtain ⟨rfl, -⟩ := AttemptManifest.updated_ok h
    rfl

/-- Cleanup records: `ArtifactStore.transitionAttemptCleanup`. -/
def attemptCleanupRecord (attemptId : AttemptId) :
    RecordType AttemptCleanupRecord CleanupPatch where
  kind := .attemptCleanup
  recordId := attemptId.text
  title := "Attempt cleanup"
  revision := AttemptCleanupRecord.revision
  updated current patch now := current.updated patch now
  revision_updated h := by
    obtain rfl := Except.ok.inj h
    rfl

/-! ### The files of a record -/

/-- A name in the journal directory. -/
inductive EntryName where
  /-- A revision directory. -/
  | revision (name : String)
  /-- A staging directory, `.<name>.reserve-<pid>-<uuid>`. -/
  | reserve (name : String) (processId : ℕ) (uuid : Uuid)
  deriving DecidableEq, Repr

/-- The name as text; the leading dot of a staging directory keeps it from being read as a
revision. -/
def EntryName.text : EntryName → String
  | revision name => name
  | reserve name processId uuid =>
    "." ++ name ++ ".reserve-" ++ toString processId ++ "-" ++ toString uuid

/-- Where a snapshot is written to. -/
inductive Target where
  | snapshot (directory : EntryName)
  | projection
  deriving DecidableEq, Repr

/-- `TransitionFailpointName`. -/
inductive TransitionFailpointName where
  | afterReserve | afterSnapshot | afterProjection
  deriving DecidableEq, Repr

/-- A commit as the journal's history keeps it: who made it, the update it applied, and the
snapshot. -/
structure Commit (R P : Type) where
  writer : ℕ
  patch : P
  now : Timestamp
  value : R
  deriving DecidableEq, Repr

/-- The files of one record. A journal entry is a directory with or without its snapshot. The
history of commits is a ghost: no operation reads it. -/
structure RecordFs (R P : Type) where
  rootExists : Bool
  entries : AList fun _ : EntryName ↦ Option R
  projection : R
  committed : List (Commit R P)

namespace RecordFs

variable {R P : Type}

/-- A record that was just created: the projection and no journal. -/
def create (base : R) : RecordFs R P := ⟨false, ∅, base, []⟩

/-- The snapshots of the record from its creation on. -/
def history (base : R) (fs : RecordFs R P) : List R := base :: fs.committed.map Commit.value

/-- `mkdir(directory)`. -/
def mkdir (fs : RecordFs R P) (directory : EntryName) : Except RuntimeError Unit × RecordFs R P :=
  if fs.rootExists = false then (.error (.fileSystem "ENOENT" directory.text), fs)
  else if directory ∈ fs.entries then (.error (.fileSystem "EEXIST" directory.text), fs)
  else (.ok (), { fs with entries := fs.entries.insert directory none })

/-- Whether the directory a file is written to exists. -/
def hasDirectory (fs : RecordFs R P) : Target → Bool
  | .snapshot directory => decide (directory ∈ fs.entries)
  | .projection => true

/-- Rename a temporary file to its target. -/
def publish (fs : RecordFs R P) (value : R) :
    Target → Except RuntimeError Unit × RecordFs R P
  | .snapshot directory =>
    if directory ∈ fs.entries then
      (.ok (), { fs with entries := fs.entries.insert directory (some value) })
    else (.error (.fileSystem "ENOENT" directory.text), fs)
  | .projection => (.ok (), { fs with projection := value })

/-- `rename(staging, directory)`: atomic, and refused when the target exists and is not empty. The
history records the commit. -/
def rename (fs : RecordFs R P) (commit : Commit R P) (staging directory : EntryName) :
    Except RuntimeError Unit × RecordFs R P :=
  match fs.entries.lookup staging, fs.entries.lookup directory with
  | none, _ => (.error (.fileSystem "ENOENT" staging.text), fs)
  | some _, some (some _) => (.error (.fileSystem "ENOTEMPTY" directory.text), fs)
  | some content, _ =>
    (.ok (),
      { fs with
        entries := (fs.entries.erase staging).insert directory content
        committed := fs.committed ++ [commit] })

/-- `rm(directory, { recursive: true, force: true })`. -/
def remove (fs : RecordFs R P) (directory : EntryName) : RecordFs R P :=
  { fs with entries := fs.entries.erase directory }

end RecordFs

/-! ### The operations -/

/-- The atomic steps of the operations on a record. -/
inductive RecordStep where
  | readProjection | listJournal | readSnapshot
  | makeRoot | makeStaging
  | openTemporary (target : Target)
  | writeTemporary (target : Target)
  | publish (target : Target)
  /-- The rename that commits a revision. -/
  | commit (revision : ℕ)
  | removeStaging
  | failpoint (point : TransitionFailpointName)
  deriving DecidableEq, Repr

/-- The calls made on a record: a read, or an update of the snapshot `expected` the caller has.
A failpoint may make an update throw where it stands. -/
inductive RecordCall (R P : Type) where
  | read
  | update (expected : R) (patch : P) (now : Timestamp)
      (failpoint : TransitionFailpointName → Option String)

section Operations

variable {R P : Type}

/-- A computation on a record. -/
abbrev RecordProg (R P A : Type) :=
  Prog RecordStep (RecordFs R P) (RecordCall R P) RuntimeError A

/-- `writeJsonAtomic`. -/
def writeJsonAtomic (target : Target) (value : R) : RecordProg R P Unit := do
  Prog.read (.openTemporary target) fun fs ↦
    if fs.hasDirectory target then .ok () else .error (.fileSystem "ENOENT" "")
  Prog.read (.writeTemporary target) fun _ ↦ .ok ()
  atomic (.publish target) fun fs ↦ fs.publish value target

/-- `hasCode(error, "EEXIST") || hasCode(error, "ENOTEMPTY")`. -/
def RuntimeError.isExisting : RuntimeError → Bool
  | .fileSystem code _ => code = "EEXIST" || code = "ENOTEMPTY"
  | _ => false

/-- `await input.failpoint?.(point, context)`. -/
def transitionFailpoint (failpoint : TransitionFailpointName → Option String)
    (point : TransitionFailpointName) : RecordProg R P Unit :=
  Prog.read (.failpoint point) fun _ ↦
    match failpoint point with
    | none => .ok ()
    | some text => .error (.plain text)

variable (J : RecordType R P)

/-- `commitTransition`. -/
def commitTransition (processId uuid : ℕ) (expectedRevision : ℕ) (commit : Commit R P)
    (failpoint : TransitionFailpointName → Option String) : RecordProg R P Unit := do
  let revision := expectedRevision + 1
  modify .makeRoot fun fs ↦ { fs with rootExists := true }
  let directory := EntryName.revision (revisionName revision)
  let staging := EntryName.reserve (revisionName revision) processId uuid
  atomic .makeStaging fun fs ↦ fs.mkdir staging
  tryCatch
    (do
      writeJsonAtomic (.snapshot staging) commit.value
      atomic (.commit revision) fun fs ↦ fs.rename commit staging directory)
    fun error ↦ do
      modify .removeStaging fun fs ↦ fs.remove staging
      if error.isExisting then
        throw (.transitionConflict J.kind J.recordId expectedRevision none)
      throw error
  transitionFailpoint failpoint .afterReserve
  transitionFailpoint failpoint .afterSnapshot
  writeJsonAtomic .projection commit.value
  transitionFailpoint failpoint .afterProjection

/-- `readLatestTransition`. -/
def readLatestTransition : RecordProg R P (Option R) := do
  let latest ← Prog.read .listJournal fun fs ↦
    .ok (if fs.rootExists then latestName (fs.entries.keys.map EntryName.text) else none)
  match latest with
  | none => return none
  | some latest =>
    let revision := revisionNumber latest
    let integrity := RuntimeError.transitionIntegrity J.kind J.recordId revision
    Prog.read .readSnapshot fun fs ↦
      match fs.entries.lookup (.revision latest) with
      | some (some value) =>
        if J.revision value = revision then .ok (some value)
        else .error (integrity ("snapshot declares revision " ++ toString (J.revision value)))
      | _ => .error (integrity "ENOENT")

/-- `QueueStore.read`, `ArtifactStore.readAttempt` and `ArtifactStore.readAttemptCleanup`. -/
def readRecord : RecordProg R P R := do
  let projection ← Prog.read .readProjection fun fs ↦ .ok fs.projection
  match ← readLatestTransition J with
  | none => return projection
  | some latest =>
    if J.revision latest < J.revision projection then
      throw (.plain (J.title ++ " " ++ J.recordId ++ " projection revision " ++
        toString (J.revision projection) ++ " is ahead of its transition journal " ++
        toString (J.revision latest)))
    return latest

/-- `commitQueueUpdate`, `transitionAttempt` and `transitionAttemptCleanup`: the caller's snapshot
has to be the current one. -/
def updateRecord [DecidableEq R] (processId uuid : ℕ) (expected : R) (patch : P) (now : Timestamp)
    (failpoint : TransitionFailpointName → Option String) : RecordProg R P R := do
  let current ← readRecord J
  if current ≠ expected then
    throw (.transitionConflict J.kind J.recordId (J.revision expected) (some (J.revision current)))
  let value ← ofResult (J.updated current patch now)
  commitTransition J processId uuid (J.revision current) ⟨uuid, patch, now, value⟩ failpoint
  return value

/-- The processes that read and update one record. -/
def recordSystem [DecidableEq R] :
    System RecordStep (RecordFs R P) (RecordCall R P) RuntimeError R ℕ where
  body processId uuid
    | .read => readRecord J
    | .update expected patch now failpoint =>
      updateRecord J processId uuid expected patch now failpoint
  entry _ _ _ := true
  crash _ fs := fs

end Operations

end CodeConductor
