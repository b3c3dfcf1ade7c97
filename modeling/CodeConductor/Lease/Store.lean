import CodeConductor.Async.RelyGuarantee
import CodeConductor.Contracts.Errors

/-!
# The dispatcher lease

The queue is owned by whoever holds the **lease**: a lock directory with a `lease.json` naming its
process. A lease whose process is dead is recovered: under the **reconciliation mutex**, a directory
of its own, the lock directory is renamed to an evidence path made from its contents, after which
anybody may create a new one. The mutex of a dead process is recovered in the same way.

The processes share one host and one queue root. `LeaseFs` holds the directories other processes can
see; each operation of the file system on them is one atomic step, and so is each look at the table
of processes. Staging and releasing directories carry a UUID in their name that only one call knows,
so preparing or deleting them changes nothing anybody else can see; the steps are kept, since a
process may die there.

## What is left out

All processes run on one host, so the hostnames agree and the remote branches are not taken.
`lease.json` is only ever replaced whole, so it is never corrupt. The evidence token is a hash of the
raw lease and of two times of the directory; hashes of different contents are taken to differ, so a
`LeaseToken` keeps the contents.
-/

namespace CodeConductor

open Async Async.Prog

/-! ### The files -/

/-- `dispatcherLeaseSchema`. -/
structure DispatcherLease where
  ownerId : String
  instanceId : Uuid
  generation : ℕ
  processId : ℕ
  acquiredAt : Timestamp
  heartbeatAt : Timestamp
  expiresAt : Timestamp
  deriving DecidableEq, Repr

/-- `sameLease`. -/
def sameLease (left right : DispatcherLease) : Bool :=
  left.ownerId = right.ownerId && left.instanceId = right.instanceId &&
    left.generation = right.generation

/-- The lock directory: its times, `lease.json` once it is written, and the call that made the
directory with its process, which no operation reads. -/
structure LockDirectory where
  birthtime : Timestamp
  mtime : Timestamp
  lease : Option DispatcherLease
  creator : ℕ
  process : ℕ
  deriving DecidableEq, Repr

/-- `reconciliationMutexSchema`, with the call that took the mutex. -/
structure ReconciliationMutex where
  instanceId : Uuid
  processId : ℕ
  acquiredAt : Timestamp
  holder : ℕ
  deriving DecidableEq, Repr

/-- What `leaseEvidenceToken` hashes. -/
structure LeaseToken where
  raw : Option DispatcherLease
  birthtime : Timestamp
  mtime : Timestamp
  deriving DecidableEq, Repr

/-- A call that holds a lease, in the history. -/
structure LeaseHolder where
  call : ℕ
  process : ℕ
  lease : DispatcherLease
  deriving DecidableEq, Repr

/-- The directories the processes share, the table of processes, and the clock.

The last four fields are a history no operation reads: the calls between taking and leaving the
mutex, the leases written so far, the calls holding a lease, and what each release removed. -/
structure LeaseFs where
  lock : Option LockDirectory := none
  generation : Option ℕ := none
  mutex : Option ReconciliationMutex := none
  leaseEvidence : List LeaseToken := []
  mutexEvidence : List Uuid := []
  dead : List ℕ := []
  now : Timestamp := 0
  nextUuid : Uuid := 0
  inside : List (ℕ × ℕ) := []
  issued : List DispatcherLease := []
  holders : List LeaseHolder := []
  released : List (DispatcherLease × LockDirectory) := []

/-- The atomic steps of the lease operations. -/
inductive LeaseStep where
  | makeLock | statLock | readLease | probe | now | randomUUID
  | readGeneration | writeGeneration
  | makeLeaseDirectory | openLease | writeLease
  | publishLease | removeLock
  | releaseLock | readReleased | removeReleased
  | stageMutex | takeMutex | unstageMutex | readMutex
  /-- The rename of the mutex directory to the evidence of `instanceId`. -/
  | preserveMutex (instanceId : Uuid)
  | leaveMutex | releaseMutex
  /-- The rename of the lock directory to its evidence path: recovery of a dead owner. -/
  | preserveLock
  /-- The same rename, by the owner's quarantine. -/
  | quarantineLock
  | writeEvidence
  | tick
  deriving DecidableEq, Repr

/-- The calls made by processes. A session acquires the lease, renews it some number of times and
releases it. The fuel bounds the recursion of the source, which has no bound; a run makes finitely
many steps, so every run of the source is a run for some fuel. -/
inductive LeaseCall where
  | session (fuel : ℕ) (ownerId : String) (leaseMs : ℕ) (renewals : ℕ)
  | quarantine (fuel : ℕ) (token : LeaseToken) (leaseMs : ℕ)
  | tick
  deriving DecidableEq, Repr

/-- A computation on the lease files. -/
abbrev LeaseProg (A : Type) := Prog LeaseStep LeaseFs LeaseCall RuntimeError A

/-- `new Date()`. -/
def currentTime : LeaseProg Timestamp := Prog.read .now fun fs ↦ .ok fs.now

/-- `randomUUID()`. -/
def randomUuid : LeaseProg Uuid :=
  atomic .randomUUID fun fs ↦ (.ok fs.nextUuid, { fs with nextUuid := fs.nextUuid + 1 })

/-- `isProcessAlive`. -/
def isProcessAlive (processId : ℕ) : LeaseProg Bool :=
  Prog.read .probe fun fs ↦ .ok (decide (processId ∉ fs.dead))

/-! ### Inspection -/

/-- The states `inspectLease` distinguishes. -/
inductive LeaseState where
  | absent | initializing | incomplete | activeLocal | expiredLiveLocal | recoverableDeadLocal
  deriving DecidableEq, Repr

/-- `leaseInspectionSchema`; `ownerAction` says whether an owner action is offered. -/
structure LeaseInspection where
  state : LeaseState
  evidenceToken : Option LeaseToken := none
  lease : Option DispatcherLease := none
  ownerAction : Bool := false
  deriving DecidableEq, Repr

/-- `inspectLease`. -/
def inspectLease (leaseMs : ℕ) (now : Timestamp) : LeaseProg LeaseInspection := do
  let directoryStat ← Prog.read .statLock fun fs ↦
    .ok (fs.lock.map fun lock ↦ (lock.birthtime, lock.mtime))
  match directoryStat with
  | none => return { state := .absent }
  | some (birthtime, mtime) =>
    -- `ENOENT`, for the file or for the directory
    let raw ← Prog.read .readLease fun fs ↦ .ok (fs.lock.bind LockDirectory.lease)
    let evidenceToken : LeaseToken := ⟨raw, birthtime, mtime⟩
    match raw with
    | none =>
      if now - mtime ≤ leaseMs then
        return { state := .initializing, evidenceToken := some evidenceToken }
      else
        return { state := .incomplete, evidenceToken := some evidenceToken, ownerAction := true }
    | some lease =>
      let alive ← isProcessAlive lease.processId
      let state : LeaseState :=
        if alive then if lease.expiresAt ≤ now then .expiredLiveLocal else .activeLocal
        else .recoverableDeadLocal
      return { state := state, evidenceToken := some evidenceToken, lease := some lease }

/-! ### The reconciliation mutex -/

/-- `readReconciliationMutex`. -/
def readReconciliationMutex : LeaseProg ReconciliationMutex :=
  Prog.read .readMutex fun fs ↦
    match fs.mutex with
    | some mutex => .ok mutex
    | none =>
      .error (.reconciliationConflict
        "Reconciliation ownership changed before it could be read" true)

/-- The rename in `preserveDeadReconciliationMutex`; the evidence path is not empty once it
exists. -/
def LeaseFs.preserveMutex (fs : LeaseFs) (instanceId : Uuid) : Except RuntimeError Unit × LeaseFs :=
  match fs.mutex with
  | none =>
    (.error (.reconciliationConflict
      "Reconciliation ownership changed while recovering its dead owner" true), fs)
  | some _ =>
    if instanceId ∈ fs.mutexEvidence then (.error (.fileSystem "ENOTEMPTY" "reconciliation-locks"), fs)
    else (.ok (), { fs with mutex := none, mutexEvidence := instanceId :: fs.mutexEvidence })

/-- `preserveDeadReconciliationMutex`. -/
def preserveDeadReconciliationMutex (mutex : ReconciliationMutex) : LeaseProg Unit := do
  atomic (.preserveMutex mutex.instanceId) fun fs ↦ fs.preserveMutex mutex.instanceId
  Prog.read .writeEvidence fun _ ↦ .ok ()

/-- The rename of the staged mutex to the mutex directory, which fails when it exists: it always
holds an `owner.json`. -/
def LeaseFs.takeMutex (fs : LeaseFs) (mutex : ReconciliationMutex) :
    Except RuntimeError Bool × LeaseFs :=
  match fs.mutex with
  | some _ => (.ok false, fs)
  | none =>
    (.ok true,
      { fs with mutex := some mutex, inside := (mutex.holder, mutex.processId) :: fs.inside })

/-- `acquireReconciliationMutex`, in call `t` of process `processId`. -/
def acquireReconciliationMutex (processId t : ℕ) : ℕ → LeaseProg ReconciliationMutex
  | 0 => throw (.plain "out of fuel")
  | fuel + 1 => do
    let instanceId ← randomUuid
    let acquiredAt ← currentTime
    let mutex : ReconciliationMutex := ⟨instanceId, processId, acquiredAt, t⟩
    Prog.read .stageMutex fun _ ↦ .ok ()
    let taken ← atomic .takeMutex fun fs ↦ fs.takeMutex mutex
    Prog.read .unstageMutex fun _ ↦ .ok ()
    if taken then
      return mutex
    else
      let existing ← readReconciliationMutex
      let alive ← isProcessAlive existing.processId
      if alive then
        throw (.reconciliationConflict
          "Another live lease reconciliation operation is in progress" true)
      else
        preserveDeadReconciliationMutex existing
        acquireReconciliationMutex processId t fuel

/-- `releaseReconciliationMutex`. The operation the mutex protects is over when the call reads the
owner back. -/
def releaseReconciliationMutex (mutex : ReconciliationMutex) : LeaseProg Unit := do
  let current ← atomic .leaveMutex fun fs ↦
    (.ok fs.mutex,
      { fs with inside := fs.inside.filter fun e ↦ e ≠ (mutex.holder, mutex.processId) })
  match current with
  | none => return
  | some current =>
    if current.instanceId ≠ mutex.instanceId then
      return
    else
      let moved ← atomic .releaseMutex fun fs ↦ (.ok fs.mutex, { fs with mutex := none })
      match moved with
      | none => return
      | some moved =>
        Prog.read .readReleased fun _ ↦
          if moved.instanceId ≠ mutex.instanceId then
            .error (.reconciliationConflict "Reconciliation ownership changed during release" false)
          else .ok ()
        Prog.read .removeReleased fun _ ↦ .ok ()

/-- `withLeaseRecoveryLock`. -/
def withLeaseRecoveryLock {A : Type} (processId t fuel : ℕ) (operation : LeaseProg A) :
    LeaseProg A := do
  let mutex ← acquireReconciliationMutex processId t fuel
  ensuring operation (releaseReconciliationMutex mutex)

/-! ### Preserving a lock directory -/

/-- The rename in `preserveLeaseDirectory`. -/
def LeaseFs.preserveLock (fs : LeaseFs) (token : LeaseToken) : Except RuntimeError Unit × LeaseFs :=
  match fs.lock with
  | none =>
    (.error (.reconciliationConflict
      "Dispatcher lease changed before it could be preserved" false), fs)
  | some _ =>
    if token ∈ fs.leaseEvidence then (.error (.fileSystem "ENOTEMPTY" "lease-evidence"), fs)
    else (.ok (), { fs with lock := none, leaseEvidence := token :: fs.leaseEvidence })

/-- `preserveLeaseDirectory`; `rename` is the step it is made in. -/
def preserveLeaseDirectory (rename : LeaseStep) (inspection : LeaseInspection) :
    LeaseProg Unit := do
  match inspection.evidenceToken with
  | none => throw (.reconciliationConflict "Lease inspection lacks an evidence token" false)
  | some token =>
    atomic rename fun fs ↦ fs.preserveLock token
    Prog.read .writeEvidence fun _ ↦ .ok ()

/-- `recoverDeadLease` up to its last line: whether the dead lease was preserved. -/
def recoverDeadLease (processId t fuel : ℕ) (expected : LeaseInspection) (leaseMs : ℕ)
    (now : Timestamp) : LeaseProg Bool :=
  tryCatch
    (withLeaseRecoveryLock processId t fuel do
      let current ← inspectLease leaseMs now
      if current.state ≠ .recoverableDeadLocal ∨ current.evidenceToken ≠ expected.evidenceToken then
        return false
      else
        preserveLeaseDirectory .preserveLock current
        return true)
    fun error ↦
      match error with
      | .reconciliationConflict _ true => return false
      | error => throw error

/-- `quarantineUnreadableLease` for an action that carries `token`. -/
def quarantineUnreadableLease (processId t fuel : ℕ) (token : LeaseToken) (leaseMs : ℕ) :
    LeaseProg Unit := do
  let now ← currentTime
  withLeaseRecoveryLock processId t fuel do
    let current ← inspectLease leaseMs now
    if current.state ≠ .incomplete ∨ current.evidenceToken ≠ some token ∨
        current.ownerAction = false then
      throw (.reconciliationConflict ("Dispatcher lease evidence changed or is not old enough " ++
        "for the requested quarantine") false)
    else
      preserveLeaseDirectory .quarantineLock current

/-! ### Acquiring, renewing, releasing -/

/-- `nextLeaseGeneration`. -/
def nextLeaseGeneration : LeaseProg ℕ := do
  let generation ← Prog.read .readGeneration fun fs ↦
    match fs.generation with
    | none => .ok 0
    | some generation =>
      if generation < 1 ∨ maxSafeInteger < generation then
        .error (.plain "Invalid lease generation record")
      else .ok generation
  let next := generation + 1
  modify .writeGeneration fun fs ↦ { fs with generation := some next }
  return next

/-- The last step of `writeJsonAtomic(leasePath, lease)`: the rename of the temporary file. -/
def LeaseFs.publishLease (fs : LeaseFs) (lease : DispatcherLease) :
    Except RuntimeError Unit × LeaseFs :=
  match fs.lock with
  | none => (.error (.fileSystem "ENOENT" "lease.json"), fs)
  | some lock => (.ok (), { fs with lock := some { lock with lease := some lease, mtime := fs.now } })

/-- `writeJsonAtomic(leasePath, lease)`, in call `t`; `record` keeps the history. The directory is
made again if it is missing. -/
def writeLease (processId t : ℕ) (lease : DispatcherLease) (record : LeaseFs → LeaseFs) :
    LeaseProg Unit := do
  modify .makeLeaseDirectory fun fs ↦
    match fs.lock with
    | some _ => fs
    | none => { fs with lock := some ⟨fs.now, fs.now, none, t, processId⟩ }
  atomic .openLease fun fs ↦
    match fs.lock with
    | none => (.error (.fileSystem "ENOENT" "lease.json"), fs)
    | some lock => (.ok (), { fs with lock := some { lock with mtime := fs.now } })
  Prog.read .writeLease fun _ ↦ .ok ()
  atomic .publishLease fun fs ↦
    match fs.publishLease lease with
    | (.ok u, fs') => (.ok u, record fs')
    | (.error e, fs') => (.error e, fs')

/-- `createLease`. -/
def createLease (ownerId : String) (instanceId : Uuid) (generation processId leaseMs : ℕ)
    (now : Timestamp) : DispatcherLease where
  ownerId := ownerId
  instanceId := instanceId
  generation := generation
  processId := processId
  acquiredAt := now
  heartbeatAt := now
  expiresAt := now + leaseMs

/-- `mkdir(dispatcher.lock)`: whether it was made. -/
def LeaseFs.makeLock (fs : LeaseFs) (processId t : ℕ) : Except RuntimeError Bool × LeaseFs :=
  match fs.lock with
  | some _ => (.ok false, fs)
  | none => (.ok true, { fs with lock := some ⟨fs.now, fs.now, none, t, processId⟩ })

/-- The part of `acquireLease` after the lock directory was made. -/
def initializeLease (processId t : ℕ) (ownerId : String) (leaseMs : ℕ) (now : Timestamp) :
    LeaseProg (Option DispatcherLease) :=
  tryCatch
    (do
      let generation ← nextLeaseGeneration
      let instanceId ← randomUuid
      let lease := createLease ownerId instanceId generation processId leaseMs now
      writeLease processId t lease fun fs ↦
        { fs with issued := fs.issued ++ [lease], holders := ⟨t, processId, lease⟩ :: fs.holders }
      return some lease)
    fun error ↦ do
      modify .removeLock fun fs ↦ { fs with lock := none }
      throw error

/-- `acquireLease`, in call `t` of process `processId`. -/
def acquireLease (processId t : ℕ) (ownerId : String) (leaseMs : ℕ) (now : Timestamp) :
    ℕ → LeaseProg (Option DispatcherLease)
  | 0 => throw (.plain "out of fuel")
  | fuel + 1 => do
    let made ← atomic .makeLock fun fs ↦ fs.makeLock processId t
    if made then
      initializeLease processId t ownerId leaseMs now
    else
      let inspection ← inspectLease leaseMs now
      match inspection.state with
      | .recoverableDeadLocal =>
        let recovered ← recoverDeadLease processId t fuel inspection leaseMs now
        if recovered then acquireLease processId t ownerId leaseMs now fuel else return none
      | .incomplete =>
        throw (.leaseReconciliationRequired "incomplete"
          "Lease directory outlived its grace period without lease.json")
      | _ => return none

/-- Whether `renewLease` accepts the lease when process `processId` presents it. -/
def acceptsRenewal (current : Option DispatcherLease) (processId : ℕ) (lease : DispatcherLease) :
    Bool :=
  current.any fun current ↦ sameLease current lease && current.processId = processId

/-- `renewLease`. -/
def renewLease (processId t : ℕ) (lease : DispatcherLease) (leaseMs : ℕ) :
    LeaseProg DispatcherLease := do
  let now ← currentTime
  let current ← Prog.read .readLease fun fs ↦
    match fs.lock.bind LockDirectory.lease with
    | none => .error (.fileSystem "ENOENT" "lease.json")
    | some current =>
      if acceptsRenewal (some current) processId lease then .ok current
      else .error (.plain "Dispatcher lease is no longer current or belongs to another process")
  let renewed := { current with heartbeatAt := now, expiresAt := now + leaseMs }
  writeLease processId t renewed id
  return renewed

/-- The rename in `releaseLease`, with what it moved. -/
def LeaseFs.releaseLock (fs : LeaseFs) (t : ℕ) (lease : DispatcherLease) :
    Except RuntimeError (Option LockDirectory) × LeaseFs :=
  match fs.lock with
  | none => (.ok none, fs)
  | some lock =>
    (.ok (some lock),
      { fs with
        lock := none
        holders := fs.holders.filter fun h ↦ h.call ≠ t
        released := (lease, lock) :: fs.released })

/-- `releaseLease`, in call `t`. -/
def releaseLease (t : ℕ) (lease : DispatcherLease) : LeaseProg Unit := do
  let current ← Prog.read .readLease fun fs ↦ .ok (fs.lock.bind LockDirectory.lease)
  match current with
  | none => return
  | some current =>
    if sameLease current lease = false then
      return
    else
      let moved ← atomic .releaseLock fun fs ↦ fs.releaseLock t lease
      match moved with
      | none => return
      | some moved =>
        Prog.read .readReleased fun _ ↦
          match moved.lease with
          | none => .error (.fileSystem "ENOENT" "lease.json")
          | some movedLease =>
            if sameLease movedLease lease then .ok ()
            else .error (.plain "Lease identity changed during release")
        Prog.read .removeReleased fun _ ↦ .ok ()

/-- Renewing a lease `n` times. -/
def renewTimes (processId t leaseMs : ℕ) : ℕ → DispatcherLease → LeaseProg Unit
  | 0, _ => return
  | n + 1, lease => do
    let renewed ← renewLease processId t lease leaseMs
    renewTimes processId t leaseMs n renewed

/-- One holder: acquire, renew, release. -/
def leaseSession (processId t fuel : ℕ) (ownerId : String) (leaseMs renewals : ℕ) :
    LeaseProg Unit := do
  let now ← currentTime
  match ← acquireLease processId t ownerId leaseMs now fuel with
  | none => return
  | some lease => ensuring (renewTimes processId t leaseMs renewals lease) (releaseLease t lease)

/-- Time passes. -/
def advanceClock : LeaseProg Unit := modify .tick fun fs ↦ { fs with now := fs.now + 1 }

/-- The processes on one host that use one queue root. A process that died makes no calls: process
ids are not used again. -/
def leaseSystem : System LeaseStep LeaseFs LeaseCall RuntimeError Unit ℕ where
  body processId t
    | .session fuel ownerId leaseMs renewals =>
      leaseSession processId t fuel ownerId leaseMs renewals
    | .quarantine fuel token leaseMs => quarantineUnreadableLease processId t fuel token leaseMs
    | .tick => advanceClock
  entry processId _ fs := decide (processId ∉ fs.dead)
  crash processId fs :=
    { fs with
      dead := processId :: fs.dead
      inside := fs.inside.filter fun e ↦ e.2 ≠ processId
      holders := fs.holders.filter fun h ↦ h.process ≠ processId }

end CodeConductor
