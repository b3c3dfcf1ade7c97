import CodeConductor.Async.RelyGuarantee
import CodeConductor.Contracts.Checks

/-!
# The watches of contract sources

A watch is a record with a scan policy, a flag that enables it and the outcome of its last scan.
`pollAll` scans the enabled watches one after the other and records what came out;
`set_contract_watch` reads one watch and changes its flag. Both write the whole record: what they
read, with their own fields changed.

`WatchFs` holds the records by watch, and the clock. A record is written to a staging file and
renamed into place, so it is read whole. The label of a rename carries the record its writer had
read, so that a condition on runs can speak of it.

## What is left out

Compiling and enqueueing touch no watch. What they come to is told by the call, watch by watch, so
that all outcomes are covered; they may take any time, and every step of everybody else may come in
between. The file system refuses nothing but a read of a missing record, and watches are not
registered during a run.
-/

namespace CodeConductor

open Async Async.Prog

/-! ### The record -/

/-- `sourceScanRequestSchema`. -/
structure SourceScanRequest where
  repositoryPath : String
  baseRef : String
  allowedAdapterIds : List String
  contractIds : Option (List String) := none
  includeExtensions : List String
  maxFileBytes : ℕ
  deriving DecidableEq, Repr

/-- `sourceWatchSchema`. -/
structure SourceWatch where
  watchId : String
  enabled : Bool
  scan : SourceScanRequest
  createdAt : Timestamp
  updatedAt : Timestamp
  lastScanAt : Option Timestamp := none
  lastRevision : Option String := none
  lastRunId : Option String := none
  lastError : Option String := none
  deriving DecidableEq, Repr

/-- The errors of the watches. -/
inductive WatchError where
  | missing (watchId : String)
  | unsafeId (watchId : String)
  /-- A record the schema rejects at `path`. -/
  | schema (path : String)
  /-- A failure of `compile` or `compileAndEnqueue`. -/
  | source (message : String)
  deriving DecidableEq, Repr

/-- The message an error carries. -/
def WatchError.message : WatchError → String
  | missing watchId => "ENOENT: no such file or directory, open '" ++ watchId ++ "/watch.json'"
  | unsafeId watchId => "Unsafe source watch id: " ++ watchId
  | schema path => "Invalid source watch: " ++ path
  | source message => message

/-- `/^[a-f0-9]{40,64}$/i`. -/
def isRevision (text : String) : Bool :=
  40 ≤ text.length && text.length ≤ 64 && text.toList.all fun c ↦
    c.isDigit || ('a' ≤ c && c ≤ 'f') || ('A' ≤ c && c ≤ 'F')

/-- `sourceWatchSchema.parse`, on the fields a patch can change. -/
def parseSourceWatch (watch : SourceWatch) : Except WatchError Unit := do
  throwUnless (isIdentifier watch.watchId) (.schema "watchId")
  throwUnless (watch.lastRevision.all isRevision) (.schema "lastRevision")
  throwUnless (watch.lastRunId.all (· ≠ "")) (.schema "lastRunId")
  throwUnless (watch.lastError.all (· ≠ "")) (.schema "lastError")

/-- The outcome of a scan a record keeps. -/
abbrev LastRun := Option String × Option String

/-- `lastRevision` and `lastRunId`. -/
def SourceWatch.lastRun (watch : SourceWatch) : LastRun := (watch.lastRevision, watch.lastRunId)

/-- The records, their ids, and the clock.

The last two fields are a history no operation reads: for each watch the flag its latest
`set_contract_watch` wrote, and the outcome its latest scan wrote. -/
structure WatchFs where
  ids : List String
  records : String → Option SourceWatch
  now : Timestamp := 0
  latestSet : String → Option Bool
  latestRun : String → Option LastRun

/-- The records at first: what they hold counts as the latest. -/
def WatchFs.start (ids : List String) (records : String → Option SourceWatch) : WatchFs where
  ids := ids
  records := records
  latestSet id := (records id).map (·.enabled)
  latestRun id := (records id).map (·.lastRun)

/-- The fields an update changes. -/
inductive WatchPatch where
  /-- `{ enabled }`. -/
  | enabled (flag : Bool)
  /-- `{ lastScanAt, lastError }`. -/
  | scanned (lastScanAt : Timestamp) (lastError : Option String)
  /-- `{ lastScanAt, lastRevision, lastRunId, lastError: undefined }`. -/
  | ran (lastScanAt : Timestamp) (lastRevision lastRunId : String)
  deriving DecidableEq, Repr

/-- `{ ...watch, ...patch, updatedAt }`. -/
def WatchPatch.apply (patch : WatchPatch) (watch : SourceWatch) (now : Timestamp) : SourceWatch :=
  match patch with
  | .enabled flag => { watch with enabled := flag, updatedAt := now }
  | .scanned lastScanAt lastError =>
    { watch with lastScanAt := some lastScanAt, lastError, updatedAt := now }
  | .ran lastScanAt lastRevision lastRunId =>
    { watch with
      lastScanAt := some lastScanAt
      lastRevision := some lastRevision
      lastRunId := some lastRunId
      lastError := none
      updatedAt := now }

/-- The atomic steps on the watches. -/
inductive WatchStep where
  | readDirectory | readRecord | timestamp | compile | compileAndEnqueue
  | makeDirectory | openStaging | writeStaging | syncStaging | closeStaging
  /-- The rename of the staging file, by an update of the record `read`. -/
  | rename (read : SourceWatch) (patch : WatchPatch)
  | tick
  deriving DecidableEq, Repr

/-- What `ContractSourceService` comes to in one cycle: the compiled revision of a scan, and the
revision and the id of its run. -/
structure ContractSources where
  compile : SourceScanRequest → Except String String
  compileAndEnqueue : SourceScanRequest → Except String (String × String)

/-- The calls: a cycle of a poller, whose reads of the records come in the order `order` as far as
it goes, a change of a flag, and the passing of time. -/
inductive WatchCall where
  | pollAll (sources : ContractSources) (order : List String)
  | setContractWatch (watchId : String) (enabled : Bool)
  | wait

/-- A computation on the watches. -/
abbrev WatchProg (A : Type) := Prog WatchStep WatchFs WatchCall WatchError A

/-! ### `SourceWatchStore` -/

/-- `read`. -/
def readWatch (watchId : String) : WatchProg SourceWatch := do
  ofResult (throwUnless (isIdentifier watchId) (.unsafeId watchId))
  Prog.read .readRecord fun fs ↦
    match fs.records watchId with
    | some watch => .ok watch
    | none => .error (.missing watchId)

/-- The order in which the reads of `list` come. -/
def readOrder (entries order : List String) : List String :=
  (order.filter (· ∈ entries)).dedup ++ entries.filter (· ∉ order)

/-- `Promise.all(entries.map((entry) => this.read(entry.name)))`. -/
def readWatches : List String → WatchProg (List (String × SourceWatch))
  | [] => return []
  | id :: rest => do
    let watch ← readWatch id
    let watches ← readWatches rest
    return (id, watch) :: watches

/-- `list`. -/
def listWatches (order : List String) : WatchProg (List SourceWatch) := do
  let entries ← Prog.read .readDirectory fun fs ↦ .ok fs.ids
  let watches ← readWatches (readOrder entries order)
  return entries.filterMap fun id ↦ watches.lookup id

/-- `rename(temporary, target)`. -/
def WatchFs.rename (fs : WatchFs) (patch : WatchPatch) (updated : SourceWatch) : WatchFs :=
  let id := updated.watchId
  let written : WatchFs := { fs with records := Function.update fs.records id (some updated) }
  match patch with
  | .enabled flag => { written with latestSet := Function.update fs.latestSet id (some flag) }
  | .scanned .. | .ran .. =>
    { written with latestRun := Function.update fs.latestRun id (some updated.lastRun) }

/-- `update`. -/
def updateWatch (watch : SourceWatch) (patch : WatchPatch) : WatchProg SourceWatch := do
  let now ← Prog.read .timestamp fun fs ↦ .ok fs.now
  ofResult (parseSourceWatch (patch.apply watch now))
  Prog.read .makeDirectory fun _ ↦ .ok ()
  Prog.read .openStaging fun _ ↦ .ok ()
  Prog.read .writeStaging fun _ ↦ .ok ()
  Prog.read .syncStaging fun _ ↦ .ok ()
  Prog.read .closeStaging fun _ ↦ .ok ()
  modify (.rename watch patch) fun fs ↦ fs.rename patch (patch.apply watch now)
  return patch.apply watch now

/-! ### The poller and the tool -/

/-- The `try` block of `pollAll`. -/
def scanWatch (sources : ContractSources) (watch : SourceWatch) (lastScanAt : Timestamp) :
    WatchProg Unit := do
  let revision ← Prog.read .compile fun _ ↦ (sources.compile watch.scan).mapError .source
  if some revision = watch.lastRevision then do
    let _ ← updateWatch watch (.scanned lastScanAt none)
    return
  else do
    let run ← Prog.read .compileAndEnqueue fun _ ↦
      (sources.compileAndEnqueue { watch.scan with baseRef := revision }).mapError .source
    let _ ← updateWatch watch (.ran lastScanAt run.1 run.2)
    return

/-- One watch of `pollAll`. -/
def pollWatch (sources : ContractSources) (watch : SourceWatch) : WatchProg Unit :=
  if watch.enabled then do
    let lastScanAt ← Prog.read .timestamp fun fs ↦ .ok fs.now
    tryCatch (scanWatch sources watch lastScanAt) fun error ↦ do
      let _ ← updateWatch watch (.scanned lastScanAt (some error.message))
      return
  else return

/-- The loop of `pollAll`. -/
def pollWatches (sources : ContractSources) : List SourceWatch → WatchProg Unit
  | [] => return
  | watch :: rest => do
    pollWatch sources watch
    pollWatches sources rest

/-- `pollAll`. -/
def pollAll (sources : ContractSources) (order : List String) : WatchProg Unit := do
  let watches ← listWatches order
  pollWatches sources watches

/-- `set_contract_watch`. -/
def setContractWatch (watchId : String) (enabled : Bool) : WatchProg Unit := do
  let watch ← readWatch watchId
  let _ ← updateWatch watch (.enabled enabled)
  return

/-- The processes that poll and change the watches of one data root. -/
def watchSystem : System WatchStep WatchFs WatchCall WatchError Unit ℕ where
  body _ _
    | .pollAll sources order => pollAll sources order
    | .setContractWatch watchId enabled => setContractWatch watchId enabled
    | .wait => modify .tick fun fs ↦ { fs with now := fs.now + 1 }
  entry _ _ _ := true
  crash _ fs := fs

end CodeConductor
