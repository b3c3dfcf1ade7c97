import CodeConductor.Async.RelyGuarantee
import CodeConductor.Contracts.Checks

/-!
# The settings of the console

The owner's settings are one document with a revision. `ConsoleSettingsStore.update` is told the
revision its caller has seen: it reads the document, compares, and replaces the file by a document
of the next revision. The new document is written to a staging file and renamed into place, so the
file is read whole; the comparison and the rename are separate steps.

`SettingsFs` is the file and the clock. The staging file has a UUID in its name and is touched by
nobody else, so the steps on it change nothing here. The label of the rename carries the document
the update read, so that a condition on runs can speak of it.

## What is left out

The file system refuses nothing. The directory of the file is private to the store.
-/

namespace CodeConductor

open Async Async.Prog

/-! ### The document -/

/-- `consoleSettingsSchema`. -/
structure ConsoleSettings where
  host : String
  port : Int
  dispatcherConcurrency : Option Int := none
  modelServiceId : Option String := none
  includeModelState : Bool := true
  deriving DecidableEq, Repr

/-- `consoleSettingsDocumentSchema`. -/
structure ConsoleSettingsDocument where
  revision : ℕ
  settings : ConsoleSettings
  updatedAt : Timestamp
  deriving DecidableEq, Repr

/-- The errors of the store. -/
inductive SettingsError where
  /-- `SettingsRevisionConflictError`. -/
  | revisionConflict (expectedRevision : Int) (actualRevision : ℕ)
  /-- A value the schema rejects at `path`. -/
  | schema (path reason : String)
  /-- A file that is not a document. -/
  | unreadable (reason : String)
  deriving DecidableEq, Repr

/-- The message an error carries. -/
def SettingsError.message : SettingsError → String
  | revisionConflict expected actual =>
    "Console settings revision " ++ toString expected ++ " is stale; current revision is " ++
      toString actual
  | schema path reason => path ++ ": " ++ reason
  | unreadable reason => "Owner console settings are unreadable and are never guessed: " ++ reason

/-- `isLoopbackHost`. -/
def isLoopbackHost (host : String) : Bool :=
  ["127.0.0.1", "localhost", "::1", "[::1]"].contains host.toLower

/-- `consoleSettingsSchema.parse`. -/
def parseConsoleSettings (settings : ConsoleSettings) : Except SettingsError Unit := do
  throwUnless (isLoopbackHost settings.host)
    (.schema "console.host" "only 127.0.0.1, localhost, and ::1 are permitted")
  throwUnless (1 ≤ settings.port && settings.port ≤ 65535) (.schema "console.port" "out of range")
  throwUnless (settings.dispatcherConcurrency.all fun n ↦ 1 ≤ n && n ≤ 32)
    (.schema "dispatcherConcurrency" "out of range")
  throwUnless (settings.modelServiceId.all isIdentifier) (.schema "modelServiceId" "invalid format")

/-- The file of the settings. -/
inductive SettingsFile where
  | missing
  | document (stored : ConsoleSettingsDocument)
  /-- Bytes that are not a document. -/
  | unreadable (reason : String)
  deriving DecidableEq, Repr

/-- A replacement of the file, and the call that made it. -/
structure Replacement where
  call : ℕ
  expectedRevision : Int
  document : ConsoleSettingsDocument
  deriving DecidableEq, Repr

/-- The file and the clock. The last field is a history no operation reads: what the file was
replaced by, the newest first. -/
structure SettingsFs where
  file : SettingsFile
  now : Timestamp := 0
  replaced : List Replacement := []

/-- The atomic steps of an update. -/
inductive SettingsStep where
  | readFile
  | makeDirectory | openStaging | writeStaging | syncStaging | closeStaging
  /-- The rename of the staging file, by an update that read `seen`. -/
  | rename (seen : Option ConsoleSettingsDocument)
  | tick
  deriving DecidableEq, Repr

/-- The calls: an update, and the passing of time. -/
inductive SettingsCall where
  | update (settings : ConsoleSettings) (expectedRevision : Int)
  | wait
  deriving DecidableEq, Repr

/-- A computation on the settings. -/
abbrev SettingsProg (A : Type) := Prog SettingsStep SettingsFs SettingsCall SettingsError A

/-! ### `update` -/

/-- `ConsoleSettingsStore.read`. -/
def SettingsFile.read : SettingsFile → Except SettingsError (Option ConsoleSettingsDocument)
  | missing => .ok none
  | document stored => .ok (some stored)
  | unreadable reason => .error (.unreadable reason)

/-- What an update does about the document it read. -/
inductive UpdatePlan where
  | keep (current : ConsoleSettingsDocument)
  | replace (seen : Option ConsoleSettingsDocument) (document : ConsoleSettingsDocument)
  deriving DecidableEq, Repr

/-- The document of the next revision. -/
def nextDocument (settings : ConsoleSettings) (actualRevision : ℕ) (now : Timestamp) :
    Except SettingsError ConsoleSettingsDocument :=
  if actualRevision + 1 ≤ maxSafeInteger then .ok ⟨actualRevision + 1, settings, now⟩
  else .error (.schema "revision" "too big")

/-- The part of `update` between its read and its first write. -/
def planUpdate (settings : ConsoleSettings) (expectedRevision : Int)
    (current : Option ConsoleSettingsDocument) (now : Timestamp) :
    Except SettingsError UpdatePlan :=
  let actualRevision := current.elim 0 (·.revision)
  if (actualRevision : Int) ≠ expectedRevision then
    .error (.revisionConflict expectedRevision actualRevision)
  else
    match current.filter (·.settings = settings) with
    | some document => .ok (.keep document)
    | none => (nextDocument settings actualRevision now).map (.replace current)

/-- `rename(staging, target)`. -/
def SettingsFs.rename (fs : SettingsFs) (call : ℕ) (expectedRevision : Int)
    (document : ConsoleSettingsDocument) : SettingsFs :=
  { fs with
    file := .document document
    replaced := ⟨call, expectedRevision, document⟩ :: fs.replaced }

/-- `writeJsonAtomic`. -/
def writeSettings (call : ℕ) (expectedRevision : Int) (seen : Option ConsoleSettingsDocument)
    (document : ConsoleSettingsDocument) : SettingsProg Unit := do
  Prog.read .makeDirectory fun _ ↦ .ok ()
  Prog.read .openStaging fun _ ↦ .ok ()
  Prog.read .writeStaging fun _ ↦ .ok ()
  Prog.read .syncStaging fun _ ↦ .ok ()
  Prog.read .closeStaging fun _ ↦ .ok ()
  modify (.rename seen) fun fs ↦ fs.rename call expectedRevision document

/-- `ConsoleSettingsStore.update`. -/
def updateSettings (call : ℕ) (settings : ConsoleSettings) (expectedRevision : Int) :
    SettingsProg ConsoleSettingsDocument := do
  ofResult (parseConsoleSettings settings)
  let plan ← Prog.read .readFile fun fs ↦
    fs.file.read >>= fun current ↦ planUpdate settings expectedRevision current fs.now
  match plan with
  | .keep current => return current
  | .replace seen document => do
    writeSettings call expectedRevision seen document
    return document

/-- The processes that update the settings of one console. -/
def settingsSystem :
    System SettingsStep SettingsFs SettingsCall SettingsError (Option ConsoleSettingsDocument) ℕ where
  body _ call
    | .update settings expectedRevision =>
      (updateSettings call settings expectedRevision).bind fun document ↦ .ret (.ok (some document))
    | .wait => (modify .tick fun fs ↦ { fs with now := fs.now + 1 }).bind fun _ ↦ .ret (.ok none)
  entry _ _ _ := true
  crash _ fs := fs

end CodeConductor
