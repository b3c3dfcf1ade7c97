import CodeConductor.Async.RelyGuarantee
import CodeConductor.Contracts.Cleanup
import CodeConductor.Contracts.Errors
import CodeConductor.Contracts.Job

/-!
# Reserving a job and its attempts

`reserveJob` and `reserveAttempt` make a directory complete before anybody can see it: they write
its files into a **staging directory** and rename that to the final name. The rename fails when
somebody else has published the name; then the staging directory is removed and what is there is
read. `reserveAttempt` tries the ordinals of the job in turn.

`ReservationFs` is the directory of one job, with the staging directories beside it and the attempts
in it. Every operation of the file system is one atomic step, any of which may fail.

## What the file system is assumed to do

As for the journal of a record: renaming a directory is atomic and fails when the target exists and is
not empty, files are replaced by atomic renames, and a name with a UUID in it is used by the call
that drew it alone, so that the call's identity stands for the UUID.
-/

namespace CodeConductor

open Async Async.Prog

namespace Reservation

/-! ### The files of a job -/

/-- A name in the directory of the attempts. -/
inductive AttemptEntry where
  /-- The directory of an attempt. -/
  | attempt (ordinal : ℕ)
  /-- A staging directory, `<attemptId>.reserve-<pid>-<uuid>`. -/
  | reserve (ordinal processId : ℕ) (uuid : Uuid)
  deriving DecidableEq, Repr

/-- The name as text. -/
def AttemptEntry.text (jobId : JobId) : AttemptEntry → String
  | attempt ordinal => AttemptId.text ⟨jobId, ordinal⟩
  | reserve ordinal processId uuid =>
    AttemptId.text ⟨jobId, ordinal⟩ ++ ".reserve-" ++ toString processId ++ "-" ++ toString uuid

/-- The files of an attempt's directory a reservation writes. -/
structure AttemptFiles where
  /-- `attempt.json`. -/
  manifest : Option AttemptManifest := none
  /-- `cleanup.json`. -/
  cleanup : Option AttemptCleanupRecord := none
  deriving DecidableEq, Repr

/-- The directory of a job. -/
structure JobFiles where
  /-- `job.json`. -/
  job : Option JobContract := none
  /-- `attempts`, once it was made. -/
  attempts : Option (AttemptEntry → Option AttemptFiles) := none

/-- A file that is written. -/
inductive ReservedFile where
  | job
  | manifest (directory : AttemptEntry)
  | cleanup (directory : AttemptEntry)
  deriving DecidableEq, Repr

/-- The atomic steps. -/
inductive ReservationStep where
  | makeJobs | makeJobStaging | renameJob | removeJobStaging | readJob
  | makeJobDirectory | makeAttempts
  | makeStaging (staging : AttemptEntry)
  /-- The rename that publishes an attempt. -/
  | renameAttempt (ordinal : ℕ)
  | removeStaging (staging : AttemptEntry)
  | openTemporary (file : ReservedFile)
  | writeTemporary (file : ReservedFile)
  | publish (file : ReservedFile)
  | statAttempt (ordinal : ℕ)
  | readManifest (ordinal : ℕ)
  | outside
  deriving DecidableEq, Repr

/-- The directory of one job and what is beside it. The last field is a history no operation reads:
the attempts that were published, the oldest first, each with the call that did. -/
structure ReservationFs where
  /-- Whether the directory of the jobs was made. -/
  jobs : Bool := false
  directory : Option JobFiles := none
  /-- The staging directories of `reserveJob`, by their UUID. -/
  staging : Uuid → Option (Option JobContract) := fun _ ↦ none
  /-- The code of the error each step fails with, if it does. -/
  failure : ReservationStep → Option String := fun _ ↦ none
  created : List (ℕ × ℕ) := []

namespace ReservationFs

/-- The stored contract. -/
def job? (fs : ReservationFs) : Option JobContract := fs.directory.bind JobFiles.job

/-- The entries of the directory of the attempts. -/
def attempts? (fs : ReservationFs) : Option (AttemptEntry → Option AttemptFiles) :=
  fs.directory.bind JobFiles.attempts

/-- The files of an entry. -/
def files? (fs : ReservationFs) (entry : AttemptEntry) : Option AttemptFiles :=
  fs.attempts?.bind (· entry)

/-- Put an entry into the directory of the attempts, or take it out. -/
def setEntry (fs : ReservationFs) (entry : AttemptEntry) (files : Option AttemptFiles) :
    ReservationFs :=
  match fs.attempts? with
  | some entries =>
    { fs with
      directory := fs.directory.map fun directory ↦
        { directory with attempts := some (Function.update entries entry files) } }
  | none => fs

/-- `mkdir(jobDirectory)` on the way to the directory of the attempts. -/
def makeJobDirectory (fs : ReservationFs) : ReservationFs :=
  { fs with jobs := true, directory := some (fs.directory.getD {}) }

/-- `mkdir(attemptsRoot)`. -/
def makeAttempts (fs : ReservationFs) : ReservationFs :=
  { fs with
    directory := fs.directory.map fun directory ↦
      { directory with attempts := some (directory.attempts.getD fun _ ↦ none) } }

/-- `mkdir` of a staging directory in the directory of the attempts. -/
def makeStaging (fs : ReservationFs) (staging : AttemptEntry) :
    Except RuntimeError Unit × ReservationFs :=
  if fs.attempts?.isNone then (.error (.fileSystem "ENOENT" ""), fs)
  else if (fs.files? staging).isSome then (.error (.fileSystem "EEXIST" ""), fs)
  else (.ok (), fs.setEntry staging (some {}))

/-- Rename a temporary file to its target in the directory of an entry. -/
def publish (fs : ReservationFs) (entry : AttemptEntry) (write : AttemptFiles → AttemptFiles) :
    Except RuntimeError Unit × ReservationFs :=
  match fs.files? entry with
  | some files => (.ok (), fs.setEntry entry (some (write files)))
  | none => (.error (.fileSystem "ENOENT" ""), fs)

/-- `rename(stagingDirectory, directory)` of an attempt, by `call`. -/
def renameAttempt (fs : ReservationFs) (call : ℕ) (staging : AttemptEntry) (ordinal : ℕ) :
    Except RuntimeError Unit × ReservationFs :=
  match fs.files? staging with
  | none => (.error (.fileSystem "ENOENT" ""), fs)
  | some files =>
    if (fs.files? (.attempt ordinal)).any fun existing ↦ existing ≠ {} then
      (.error (.fileSystem "ENOTEMPTY" ""), fs)
    else
      (.ok (),
        { (fs.setEntry staging none).setEntry (.attempt ordinal) (some files) with
          created := fs.created ++ [(ordinal, call)] })

/-- `mkdir` of the staging directory of a job. -/
def makeJobStaging (fs : ReservationFs) (uuid : Uuid) : Except RuntimeError Unit × ReservationFs :=
  if !fs.jobs then (.error (.fileSystem "ENOENT" ""), fs)
  else if (fs.staging uuid).isSome then (.error (.fileSystem "EEXIST" ""), fs)
  else (.ok (), { fs with staging := Function.update fs.staging uuid (some none) })

/-- Rename the temporary `job.json` to its target in a staging directory. -/
def publishJob (fs : ReservationFs) (uuid : Uuid) (contract : JobContract) :
    Except RuntimeError Unit × ReservationFs :=
  if (fs.staging uuid).isSome then
    (.ok (), { fs with staging := Function.update fs.staging uuid (some (some contract)) })
  else (.error (.fileSystem "ENOENT" ""), fs)

/-- Whether the directory of the job is there and not empty. -/
def occupied (fs : ReservationFs) : Bool :=
  fs.directory.any fun directory ↦ directory.job.isSome || directory.attempts.isSome

/-- `rename(stagingDirectory, jobDirectory)`. -/
def renameJob (fs : ReservationFs) (uuid : Uuid) : Except RuntimeError Unit × ReservationFs :=
  match fs.staging uuid with
  | none => (.error (.fileSystem "ENOENT" ""), fs)
  | some job =>
    if fs.occupied then (.error (.fileSystem "ENOTEMPTY" ""), fs)
    else
      (.ok (),
        { fs with directory := some { job }, staging := Function.update fs.staging uuid none })

end ReservationFs

/-! ### The operations -/

/-- The calls: reservations, transitions of published attempts, and the failing of the storage. -/
inductive ReservationCall where
  | reserveJob (contract : JobContract)
  | reserveAttempt (contract : JobContract) (lineage : Option ProposalLineage)
    (dispatchOperationId : Option Uuid) (now : Timestamp)
  | reserveInitialAttempt (contract : JobContract) (dispatchOperationId : Option Uuid)
    (now : Timestamp)
  /-- The projection of a transition replaces `attempt.json`. -/
  | projectAttempt (ordinal : ℕ) (manifest : AttemptManifest)
  /-- The projection of a transition replaces `cleanup.json`. -/
  | projectCleanup (ordinal : ℕ) (cleanup : AttemptCleanupRecord)
  /-- The storage begins or ceases to fail. -/
  | failStorage (failure : ReservationStep → Option String)

/-- A computation on the directory of a job. -/
abbrev ReservationProg (A : Type) :=
  Prog ReservationStep ReservationFs ReservationCall RuntimeError A

/-- What a call returns. -/
inductive ReservationReply where
  | attempt (manifest : AttemptManifest) (created : Bool)
  | job (contract : JobContract) (created : Bool)
  | done
  deriving DecidableEq, Repr

/-- An operation of the file system. -/
def fsStep {A : Type} (label : ReservationStep)
    (f : ReservationFs → Except RuntimeError A × ReservationFs) : ReservationProg A :=
  .atomic label fun fs ↦
    match fs.failure label with
    | some code => (.error (.fileSystem code ""), fs)
    | none => f fs

/-- An operation of the file system that only reads. -/
def fsRead {A : Type} (label : ReservationStep) (f : ReservationFs → Except RuntimeError A) :
    ReservationProg A :=
  .read label fun fs ↦
    match fs.failure label with
    | some code => .error (.fileSystem code "")
    | none => f fs

/-- An operation of the file system that returns nothing. -/
def fsModify (label : ReservationStep) (f : ReservationFs → ReservationFs) : ReservationProg Unit :=
  fsStep label fun fs ↦ (.ok (), f fs)

/-- `writeJsonAtomic`: the temporary file is written, then renamed by `publish`. -/
def writeJsonAtomic (file : ReservedFile)
    (publish : ReservationFs → Except RuntimeError Unit × ReservationFs) :
    ReservationProg Unit := do
  fsRead (.openTemporary file) fun _ ↦ .ok ()
  fsRead (.writeTemporary file) fun _ ↦ .ok ()
  fsStep (.publish file) publish

/-- `readJob`. -/
def readJob : ReservationProg JobContract :=
  fsRead .readJob fun fs ↦
    match fs.job? with
    | some contract => .ok contract
    | none => .error (.fileSystem "ENOENT" "job.json")

/-- Make the directory of a job complete and publish it. -/
def publishJob (call : ℕ) (contract : JobContract) : ReservationProg Unit := do
  fsStep .makeJobStaging fun fs ↦ fs.makeJobStaging call
  writeJsonAtomic .job fun fs ↦ fs.publishJob call contract
  fsStep .renameJob fun fs ↦ fs.renameJob call

/-- The handler of `reserveJob`: the job may be there already. -/
def existingJob (call : ℕ) (contract : JobContract) (error : RuntimeError) :
    ReservationProg ReservationReply := do
  fsModify .removeJobStaging fun fs ↦ { fs with staging := Function.update fs.staging call none }
  match ← readJob.attempt with
  | .error _ => throw error
  | .ok existing =>
    if existing.requestFingerprint ≠ contract.requestFingerprint then
      throw (.plain ("Idempotency key for " ++ contract.jobId ++
        " was already used with a different request"))
    else return .job existing false

/-- `reserveJob`. -/
def reserveJob (call : ℕ) (contract : JobContract) : ReservationProg ReservationReply := do
  fsModify .makeJobs fun fs ↦ { fs with jobs := true }
  tryCatch
    (do
      publishJob call contract
      return .job contract true)
    (existingJob call contract)

/-- `readAttempt`. -/
def readAttempt (ordinal : ℕ) : ReservationProg AttemptManifest :=
  fsRead (.readManifest ordinal) fun fs ↦
    match (fs.files? (.attempt ordinal)).bind AttemptFiles.manifest with
    | some manifest => .ok manifest
    | none => .error (.fileSystem "ENOENT" "attempt.json")

/-- The paths of an attempt's files, in the directory of its job. -/
def reservedArtifacts (attemptId : AttemptId) : AttemptArtifacts where
  job := attemptId.jobId ++ "/job.json"
  manifest := attemptId.text ++ "/attempt.json"
  stdout := attemptId.text ++ "/stdout.log"
  stderr := attemptId.text ++ "/stderr.log"
  proposalPatch := attemptId.text ++ "/proposal.patch"
  repositoryStatus := attemptId.text ++ "/repository-status.txt"
  changedPaths := attemptId.text ++ "/changed-paths.json"
  verification := attemptId.text ++ "/verification.json"
  cleanup := some (attemptId.text ++ "/cleanup.json")

/-- Make the directory of an attempt complete and publish it. -/
def publishAttempt (call : ℕ) (staging : AttemptEntry) (ordinal : ℕ) (manifest : AttemptManifest)
    (cleanup : AttemptCleanupRecord) : ReservationProg Unit := do
  writeJsonAtomic (.manifest staging) fun fs ↦
    fs.publish staging fun files ↦ { files with manifest := some manifest }
  writeJsonAtomic (.cleanup staging) fun fs ↦
    fs.publish staging fun files ↦ { files with cleanup := some cleanup }
  fsStep (.renameAttempt ordinal) fun fs ↦ fs.renameAttempt call staging ordinal

/-- The handler of `reserveAttemptAt`: the attempt may be there already. -/
def existingAttempt (staging : AttemptEntry) (ordinal : ℕ) (error : RuntimeError) :
    ReservationProg (AttemptManifest × Bool) := do
  fsModify (.removeStaging staging) fun fs ↦ fs.setEntry staging none
  let published ← fsRead (.statAttempt ordinal) fun fs ↦ .ok (fs.files? (.attempt ordinal)).isSome
  if published then do
    let existing ← readAttempt ordinal
    return (existing, false)
  else throw error

/-- `reserveAttemptAt`: the manifest, and whether this call created it. -/
def reserveAttemptAt (process call : ℕ) (contract : JobContract) (ordinal : ℕ)
    (lineage : Option ProposalLineage) (dispatchOperationId : Option Uuid) (now : Timestamp) :
    ReservationProg (AttemptManifest × Bool) := do
  let attemptId : AttemptId := ⟨contract.jobId, ordinal⟩
  let staging : AttemptEntry := .reserve ordinal process call
  fsStep (.makeStaging staging) fun fs ↦ fs.makeStaging staging
  let manifest := createReservedAttempt attemptId contract.adapterId now
    (reservedArtifacts attemptId) lineage dispatchOperationId
  tryCatch
    (do
      publishAttempt call staging ordinal manifest (createAttemptCleanupRecord attemptId now)
      return (manifest, true))
    (existingAttempt staging ordinal)

/-- The error of `reserveAttempt` when every ordinal is taken. -/
def budgetExhausted (contract : JobContract) : RuntimeError :=
  .plain ("Attempt budget exhausted for " ++ contract.jobId ++ ": maximum " ++
    toString contract.resources.maxAttemptsPerJob)

/-- The loop of `reserveAttempt` with `remaining` ordinals to try, from `ordinal` on. -/
def reserveAttemptFrom (process call : ℕ) (contract : JobContract)
    (lineage : Option ProposalLineage) (dispatchOperationId : Option Uuid) (now : Timestamp) :
    (ordinal remaining : ℕ) → ReservationProg AttemptManifest
  | _, 0 => throw (budgetExhausted contract)
  | ordinal, remaining + 1 => do
    let reservation ←
      reserveAttemptAt process call contract ordinal lineage dispatchOperationId now
    if reservation.2 then return reservation.1
    else
      reserveAttemptFrom process call contract lineage dispatchOperationId now (ordinal + 1)
        remaining

/-- `mkdir(attemptsRoot, { recursive: true })`. -/
def makeAttemptsRoot : ReservationProg Unit := do
  fsModify .makeJobDirectory ReservationFs.makeJobDirectory
  fsModify .makeAttempts ReservationFs.makeAttempts

/-- `reserveAttempt`. -/
def reserveAttempt (process call : ℕ) (contract : JobContract) (lineage : Option ProposalLineage)
    (dispatchOperationId : Option Uuid) (now : Timestamp) : ReservationProg AttemptManifest := do
  makeAttemptsRoot
  reserveAttemptFrom process call contract lineage dispatchOperationId now 1
    contract.resources.maxAttemptsPerJob

/-- `reserveInitialAttempt`. -/
def reserveInitialAttempt (process call : ℕ) (contract : JobContract)
    (dispatchOperationId : Option Uuid) (now : Timestamp) :
    ReservationProg (AttemptManifest × Bool) := do
  makeAttemptsRoot
  reserveAttemptAt process call contract 1 none dispatchOperationId now

/-- The computation of a call. -/
def reservationBody (process call : ℕ) : ReservationCall → ReservationProg ReservationReply
  | .reserveJob contract => reserveJob call contract
  | .reserveAttempt contract lineage dispatchOperationId now => do
    let manifest ← reserveAttempt process call contract lineage dispatchOperationId now
    return .attempt manifest true
  | .reserveInitialAttempt contract dispatchOperationId now => do
    let reservation ← reserveInitialAttempt process call contract dispatchOperationId now
    return .attempt reservation.1 reservation.2
  | .projectAttempt ordinal manifest => do
    writeJsonAtomic (.manifest (.attempt ordinal)) fun fs ↦
      fs.publish (.attempt ordinal) fun files ↦ { files with manifest := some manifest }
    return .done
  | .projectCleanup ordinal cleanup => do
    writeJsonAtomic (.cleanup (.attempt ordinal)) fun fs ↦
      fs.publish (.attempt ordinal) fun files ↦ { files with cleanup := some cleanup }
    return .done
  | .failStorage failure => do
    modify .outside fun fs ↦ { fs with failure := failure }
    return .done

/-- The calls on the job `jobId`, whose contract allows `maxAttempts` attempts. -/
def isCallOn (jobId : JobId) (maxAttempts : ℕ) : ReservationCall → Bool
  | .reserveJob contract => contract.jobId = jobId
  | .reserveAttempt contract .. | .reserveInitialAttempt contract .. =>
    contract.jobId = jobId && contract.resources.maxAttemptsPerJob = maxAttempts &&
      1 ≤ maxAttempts
  | _ => true

/-- The processes that reserve a job and its attempts. -/
def reservationSystem (jobId : JobId) (maxAttempts : ℕ) :
    System ReservationStep ReservationFs ReservationCall RuntimeError ReservationReply ℕ where
  body := reservationBody
  entry _ call _ := isCallOn jobId maxAttempts call
  crash _ fs := fs

end Reservation

end CodeConductor
