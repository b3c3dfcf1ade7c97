import CodeConductor.Async.Alone
import CodeConductor.Contracts.Errors

/-!
# The start fence of the model service

Before it starts the model process a manager takes the **start fence**: a directory `start-fence`
with a `claim.json` naming its instance and its process. Making the directory decides who has the
fence; the claim is written into it afterwards. A contender reads the claim and, when the process it
names is dead, recovers the directory: it creates `recovery.claim` in it, which only one contender
can, renames the directory to a path of its own and deletes it there. A directory without a readable
claim is recovered once it is older than the initialization grace.

The managers share one host. `StartFenceFs` is the directory at `start-fence`, the table of
processes and the clock; each file-system operation is one atomic step, and so is each look at the
processes. A file that is open is reached by its inode, also after the directory was renamed.

## What is left out

The file system refuses nothing but what the paths themselves refuse (`EEXIST`, `ENOENT`,
`ENOTEMPTY`). All claims are written by this code, so the schema test of `readFence` passes on every
complete claim. The quarantine paths carry a UUID, so nobody else reaches a directory renamed there.
-/

namespace CodeConductor

open Async Async.Prog

/-- `hasCode(error, code)`. -/
def RuntimeError.hasCode : RuntimeError → String → Bool
  | .fileSystem code _, expected => code = expected
  | _, _ => false

/-! ### The files -/

/-- `StartFence`: the contents of `claim.json`. -/
structure StartFence where
  instanceId : Uuid
  ownerPid : ℕ
  createdAt : Timestamp
  deriving DecidableEq, Repr

/-- The file `claim.json`: its inode and, once it is written, its contents. -/
structure ClaimFile where
  inode : ℕ
  content : Option StartFence
  deriving DecidableEq, Repr

/-- A call of a manager: the thread, its process and the instance. -/
structure ManagerCall where
  call : ℕ
  process : ℕ
  instanceId : Uuid
  deriving DecidableEq, Repr

/-- The directory `start-fence`: `claim.json`, `recovery.claim` with the call that created it, and
the time of its last change. Nobody reads the call that made it. -/
structure FenceDirectory where
  maker : ManagerCall
  claim : Option ClaimFile
  recovery : Option ManagerCall
  mtime : Timestamp
  deriving DecidableEq, Repr

/-- The files, the processes and the clock.

The last two fields are a history no operation reads: the calls that were given a release function
they have not called, and what each release removed. -/
structure StartFenceFs where
  fence : Option FenceDirectory := none
  nextInode : ℕ := 0
  dead : List ℕ := []
  now : Timestamp := 0
  holders : List ManagerCall := []
  released : List (ManagerCall × FenceDirectory) := []

/-- The atomic steps of the managers. -/
inductive StartFenceStep where
  | makeFence | timestamp | openClaim | writeClaim | syncClaim | closeClaim
  | readClaim | probe | statFence | sleep | wake
  /-- The exclusive creation of `recovery.claim`. -/
  | openRecovery
  | writeRecovery | closeRecovery
  /-- The rename of the directory to the quarantine path. -/
  | quarantine
  | removeQuarantine
  | startService
  /-- The release function reads the claim back: the manager no longer holds the fence. -/
  | leave
  | removeEntries | removeDirectory
  | tick
  deriving DecidableEq, Repr

/-- The calls of the processes: a manager starts its service, and time passes. -/
inductive StartFenceCall where
  | startOwnedService (instanceId : Uuid)
  | wait (ms : ℕ)
  deriving DecidableEq, Repr

/-- A computation on the fence. -/
abbrev StartFenceProg (A : Type) := Prog StartFenceStep StartFenceFs StartFenceCall RuntimeError A

/-- The age below which a directory without a readable claim is left alone. -/
def initializationGrace : ℕ := 2000

/-! ### Single operations -/

/-- `mkdir(target)`. -/
def StartFenceFs.makeFence (fs : StartFenceFs) (manager : ManagerCall) :
    Except RuntimeError Unit × StartFenceFs :=
  match fs.fence with
  | some _ => (.error (.fileSystem "EEXIST" "start-fence"), fs)
  | none => (.ok (), { fs with fence := some ⟨manager, none, none, fs.now⟩ })

/-- `open(claimPath, "wx")`, with the inode of the open file. -/
def StartFenceFs.openClaim (fs : StartFenceFs) : Except RuntimeError ℕ × StartFenceFs :=
  match fs.fence with
  | none => (.error (.fileSystem "ENOENT" "claim.json"), fs)
  | some fence =>
    if fence.claim.isSome then (.error (.fileSystem "EEXIST" "claim.json"), fs)
    else
      (.ok fs.nextInode,
        { fs with
          fence := some { fence with claim := some ⟨fs.nextInode, none⟩, mtime := fs.now }
          nextInode := fs.nextInode + 1 })

/-- `handle.writeFile`: the file may no longer be the one at `claimPath`. -/
def StartFenceFs.writeClaim (fs : StartFenceFs) (inode : ℕ) (claim : StartFence) : StartFenceFs :=
  match fs.fence with
  | some fence =>
    if fence.claim.any fun file ↦ file.inode = inode then
      { fs with fence := some { fence with claim := some ⟨inode, some claim⟩ } }
    else fs
  | none => fs

/-- `readFence(claimPath)`: a missing or incomplete claim is not read. -/
def StartFenceFs.readFence (fs : StartFenceFs) : Option StartFence :=
  fs.fence.bind fun fence ↦ fence.claim.bind ClaimFile.content

/-- `open(recoveryPath, "wx")`. -/
def StartFenceFs.openRecovery (fs : StartFenceFs) (manager : ManagerCall) :
    Except RuntimeError Unit × StartFenceFs :=
  match fs.fence with
  | none => (.error (.fileSystem "ENOENT" "recovery.claim"), fs)
  | some fence =>
    if fence.recovery.isSome then (.error (.fileSystem "EEXIST" "recovery.claim"), fs)
    else
      (.ok (),
        { fs with fence := some { fence with recovery := some manager, mtime := fs.now } })

/-- `rename(target, quarantine)`. -/
def StartFenceFs.quarantine (fs : StartFenceFs) : Except RuntimeError Unit × StartFenceFs :=
  match fs.fence with
  | none => (.error (.fileSystem "ENOENT" "start-fence"), fs)
  | some _ => (.ok (), { fs with fence := none })

/-- `rm(target, { recursive: true, force: true })` removes the entries of the directory. -/
def StartFenceFs.removeEntries (fs : StartFenceFs) : StartFenceFs :=
  { fs with fence := fs.fence.map fun fence ↦
      { fence with claim := none, recovery := none, mtime := fs.now } }

/-- It then removes the directory, unless an entry was created since. -/
def StartFenceFs.removeDirectory (fs : StartFenceFs) : Except RuntimeError Unit × StartFenceFs :=
  match fs.fence with
  | none => (.ok (), fs)
  | some fence =>
    if fence.claim.isSome || fence.recovery.isSome then
      (.error (.fileSystem "ENOTEMPTY" "start-fence"), fs)
    else (.ok (), { fs with fence := none })

/-- The directory a release by `manager` is about to remove, in the history. -/
def StartFenceFs.recordRelease (fs : StartFenceFs) (manager : ManagerCall) : StartFenceFs :=
  { fs with released := (fs.fence.map (manager, ·)).toList ++ fs.released }

/-! ### Acquiring and releasing -/

/-- `rm(target, { recursive: true, force: true })`; `record` keeps the history. -/
def removeFence (record : StartFenceFs → StartFenceFs) : StartFenceProg Unit := do
  modify .removeEntries fun fs ↦ (record fs).removeEntries
  atomic .removeDirectory fun fs ↦ (record fs).removeDirectory

/-- The release function `acquireStartFence` returns. -/
def releaseStartFence (manager : ManagerCall) : StartFenceProg Unit := do
  let current ← atomic .leave fun fs ↦
    (.ok fs.readFence, { fs with holders := fs.holders.filter fun holder ↦ holder ≠ manager })
  if current.any fun claim ↦ claim.instanceId = manager.instanceId then
    removeFence fun fs ↦ fs.recordRelease manager
  else return

/-- The part of `acquireStartFence` that writes the claim: the inner `try`. -/
def writeStartFence (manager : ManagerCall) (claim : StartFence) : StartFenceProg Unit :=
  tryCatch
    (do
      let inode ← atomic .openClaim StartFenceFs.openClaim
      modify .writeClaim fun fs ↦ fs.writeClaim inode claim
      Prog.read .syncClaim fun _ ↦ .ok ()
      modify .closeClaim fun fs ↦ { fs with holders := manager :: fs.holders })
    fun error ↦ do
      removeFence id
      throw error

/-- The outer `try` of `acquireStartFence`. -/
def claimStartFence (manager : ManagerCall) : StartFenceProg (StartFenceProg Unit) := do
  atomic .makeFence fun fs ↦ fs.makeFence manager
  let createdAt ← Prog.read .timestamp fun fs ↦ .ok fs.now
  writeStartFence manager ⟨manager.instanceId, manager.process, createdAt⟩
  return releaseStartFence manager

/-- `sleep`: the caller goes on when the time has passed. -/
def sleepFor (ms : ℕ) : StartFenceProg Unit := do
  let start ← Prog.read .sleep fun fs ↦ .ok fs.now
  await .wake (fun fs ↦ decide (start + ms ≤ fs.now)) fun fs ↦ (.ok (), fs)

/-- The recovery at the end of `acquireStartFence`: whether there is another attempt. -/
def recoverStartFence (manager : ManagerCall) : StartFenceProg Bool := do
  let opened ← (atomic .openRecovery fun fs ↦ fs.openRecovery manager).attempt
  match opened with
  | .error error =>
    if error.hasCode "EEXIST" || error.hasCode "ENOENT" then return false else throw error
  | .ok () =>
    Prog.read .writeRecovery fun _ ↦ .ok ()
    Prog.read .closeRecovery fun _ ↦ .ok ()
    let moved ← (atomic .quarantine StartFenceFs.quarantine).attempt
    match moved with
    | .error error => if error.hasCode "ENOENT" then return true else throw error
    | .ok () =>
      Prog.read .removeQuarantine fun _ ↦ .ok ()
      return true

/-- What `acquireStartFence` does about a directory that exists: whether there is another
attempt. -/
def contendStartFence (manager : ManagerCall) : StartFenceProg Bool := do
  let claim ← Prog.read .readClaim fun fs ↦ .ok fs.readFence
  match claim with
  | some claim =>
    let alive ← Prog.read .probe fun fs ↦ .ok (decide (claim.ownerPid ∉ fs.dead))
    if alive then return false else recoverStartFence manager
  | none =>
    let age ← Prog.read .statFence fun fs ↦
      .ok (fs.fence.elim 0 fun fence ↦ fs.now - fence.mtime)
    if age < initializationGrace then do
      sleepFor 100
      return true
    else recoverStartFence manager

/-- `acquireStartFence` with the attempts that are left. -/
def acquireStartFence (manager : ManagerCall) :
    ℕ → StartFenceProg (Option (StartFenceProg Unit))
  | 0 => throw (.plain "Model-service start fence remained contested")
  | attempts + 1 => do
    let claimed ← (claimStartFence manager).attempt
    match claimed with
    | .ok release => return some release
    | .error error =>
      if error.hasCode "EEXIST" then do
        let again ← contendStartFence manager
        if again then acquireStartFence manager attempts else return none
      else throw error

/-- `startOwnedService`, as far as the fence is concerned: the service is started in between. -/
def startOwnedService (manager : ManagerCall) : StartFenceProg Unit := do
  let releaseFence ← acquireStartFence manager 20
  match releaseFence with
  | none => return
  | some release => ensuring (Prog.read .startService fun _ ↦ .ok ()) release

/-- The live managers write their claims within the initialization grace. -/
def StartFenceFs.withinGrace (fs : StartFenceFs) (now : Timestamp) : Bool :=
  fs.fence.all fun fence ↦
    decide (fence.maker.process ∈ fs.dead) || (fence.claim.bind ClaimFile.content).isSome ||
      decide (now - fence.mtime < initializationGrace)

/-- Time passes, as long as the live managers keep up with it. -/
def passTime : ℕ → StartFenceProg Unit
  | 0 => return
  | ms + 1 => do
    await .tick (fun fs ↦ fs.withinGrace (fs.now + 1)) fun fs ↦
      (.ok (), { fs with now := fs.now + 1 })
    passTime ms

/-- The managers of one model service. A process that died makes no calls: process ids are not used
again. -/
def startFenceSystem :
    System StartFenceStep StartFenceFs StartFenceCall RuntimeError Unit ℕ where
  body process call
    | .startOwnedService instanceId => startOwnedService ⟨call, process, instanceId⟩
    | .wait ms => passTime ms
  entry process _ fs := decide (process ∉ fs.dead)
  crash process fs :=
    { fs with
      dead := process :: fs.dead
      holders := fs.holders.filter fun holder ↦ holder.process ≠ process }

end CodeConductor
