import CodeConductor.Contracts.Checks
import CodeConductor.Json.Canonical
import CodeConductor.Retention.Store

/-!
# Review packets

`buildReviewPacket` seals the evidence of an attempt: the records as they are, each file they bind, and
an inventory of the attempt directory. `validateReviewPacket` checks a packet against the records
and files of a later time. Records are JSON objects, read by their keys, and canonical JSON is what two
of them are compared by.
-/

namespace CodeConductor

/-! ### Reading records -/

/-- `value[key]`. -/
def JsonValue.member (value : Option JsonValue) (key : String) : Option JsonValue :=
  match value with
  | some (.object members) => (members.find? fun member ↦ member.1 = key).map Prod.snd
  | _ => none

/-- The text of a string. -/
def JsonValue.text : Option JsonValue → Option String
  | some (.string text) => some text
  | _ => none

/-- `value[key]` of an object. -/
def JsonValue.memberOf (value : JsonValue) (key : String) : Option JsonValue :=
  JsonValue.member (some value) key

/-- The text of a member. -/
def JsonValue.textOf (value : JsonValue) (key : String) : Option String :=
  JsonValue.text (value.memberOf key)

/-- The items of an array. -/
def JsonValue.items : Option JsonValue → List JsonValue
  | some (.array items) => items
  | _ => []

/-- `value === true`. -/
def JsonValue.isTrue : Option JsonValue → Bool
  | some (.bool value) => value
  | _ => false

/-- `value === size`. -/
def JsonValue.isNumber (value : Option JsonValue) (number : JsonNumber) : Bool :=
  match value with
  | some (.number other) => other = number
  | _ => false

/-- An array of strings. -/
def JsonValue.strings (texts : List String) : JsonValue := .array (texts.map .string)

/-- The value a path of keys leads to. -/
def JsonObject.at (object : JsonObject) (path : List String) : Option JsonValue :=
  path.foldl JsonValue.member (some object.value)

/-- A string that the schema requires. -/
def JsonObject.required (object : JsonObject) (key : String) : String :=
  (object.string key).getD ""

theorem isAtomChar_of_isDigit {c : Char} (h : c.isDigit = true) : isAtomChar c = true := by
  simp [isAtomChar, Char.isAlphanum, h]

/-- A natural number. -/
def JsonNumber.ofNat (n : ℕ) : JsonNumber where
  text := Nat.toDigits 10 n
  ne_nil := Nat.toDigits_ne_nil
  isAtomChar_of_mem _ h := isAtomChar_of_isDigit (Nat.isDigit_of_mem_toDigits (by decide) (by decide) h)

/-! ### Evidence -/

/-- `ReviewEvidenceError.kind`. -/
inductive ReviewErrorKind where
  | unavailable | corrupt | legacyUnsealed | profileUnresolved
  deriving DecidableEq, Repr

/-- What a review fails with: a `ReviewEvidenceError`, or another error. -/
inductive ReviewError where
  | evidence (kind : ReviewErrorKind) (message : String)
  | thrown (message : String)
  deriving DecidableEq, Repr

/-- `errorMessage`. -/
def ReviewError.message : ReviewError → String
  | .evidence _ message => message
  | .thrown message => message

/-- What `stat` finds, and the content of a regular file. -/
inductive FileStat where
  | file (content : List UInt8)
  | other
  deriving DecidableEq, Repr

/-- An entry of a directory, with all it holds. -/
inductive DirectoryEntry where
  | file (content : List UInt8)
  | directory (children : List (String × DirectoryEntry))
  | symbolicLink
  | unsupported

/-- The files as one call finds them; `stat` follows links. -/
structure ReviewFiles where
  cwd : StorePath
  stat : StorePath → Option FileStat
  readdir : StorePath → Option (List (String × DirectoryEntry))

/-- `evidencePurposeSchema`. -/
inductive EvidencePurpose where
  | job | attempt | cleanup | proposalPatch | repositoryStatus | changedPaths | verification
  | workerStdout | workerStderr | commandStdout | commandStderr | lineagePatch | lineageVerification
  | workerExecutable | workerHarness | workerConfiguration
  deriving DecidableEq, Repr

/-- The text of a purpose. -/
def EvidencePurpose.text : EvidencePurpose → String
  | job => "job"
  | attempt => "attempt"
  | cleanup => "cleanup"
  | proposalPatch => "proposal-patch"
  | repositoryStatus => "repository-status"
  | changedPaths => "changed-paths"
  | verification => "verification"
  | workerStdout => "worker-stdout"
  | workerStderr => "worker-stderr"
  | commandStdout => "command-stdout"
  | commandStderr => "command-stderr"
  | lineagePatch => "lineage-patch"
  | lineageVerification => "lineage-verification"
  | workerExecutable => "worker-executable"
  | workerHarness => "worker-harness"
  | workerConfiguration => "worker-configuration"

/-- The text of an absolute path. -/
def pathText (path : StorePath) : String := "/" ++ "/".intercalate path

/-- `evidenceBindingSchema`. -/
structure EvidenceBinding where
  path : StorePath
  purposes : List EvidencePurpose
  size : ℕ
  sha256 : String
  deriving DecidableEq, Repr

/-- `inventoryEntrySchema`. -/
inductive InventoryEntry where
  | directory (path : String)
  | file (path : String) (size : ℕ) (sha256 : String)
  deriving DecidableEq, Repr

/-- `reviewerContractSchema`. -/
structure ReviewerContract where
  allowedOutcomes : List String
  requiredFindingFields : List String
  instructions : List String
  deriving DecidableEq, Repr

/-- `reviewPacketSchema` without the seal. -/
structure UnsignedReviewPacket where
  schema : String
  sealedAt : String
  jobId : String
  attemptId : String
  authority : String
  contract : JsonObject
  attempt : JsonObject
  cleanup : JsonObject
  verification : JsonObject
  changedPaths : List String
  bindings : List EvidenceBinding
  attemptInventory : List InventoryEntry
  reviewerContract : ReviewerContract

/-- `reviewPacketSchema`. -/
structure ReviewPacket extends UnsignedReviewPacket where
  sealSha256 : String

/-- `ReviewEvidenceState`. -/
structure ReviewEvidenceState where
  contract : JsonObject
  manifest : JsonObject
  cleanup : JsonObject
  verification : JsonObject
  changedPaths : List String
  attemptDirectory : String
  jobPath : String

/-- A binding as a value. -/
def EvidenceBinding.value (binding : EvidenceBinding) : JsonValue :=
  .object [("path", .string (pathText binding.path)),
    ("purposes", .strings (binding.purposes.map EvidencePurpose.text)),
    ("size", .number (.ofNat binding.size)), ("sha256", .string binding.sha256)]

/-- An entry of an inventory as an object. -/
def InventoryEntry.object : InventoryEntry → JsonObject
  | .directory path => ⟨[("path", .string path), ("kind", .string "directory")], by
      simp only [List.map_cons, List.map_nil]
      decide⟩
  | .file path size sha256 => ⟨[("path", .string path), ("kind", .string "file"),
      ("size", .number (.ofNat size)), ("sha256", .string sha256)], by
      simp only [List.map_cons, List.map_nil]
      decide⟩

/-- An inventory as a value. -/
def inventoryValue (entries : List InventoryEntry) : JsonValue :=
  .array (entries.map fun entry ↦ entry.object.value)

/-- A reviewer contract as a value. -/
def ReviewerContract.value (contract : ReviewerContract) : JsonValue :=
  .object [("allowedOutcomes", .strings contract.allowedOutcomes),
    ("requiredFindingFields", .strings contract.requiredFindingFields),
    ("instructions", .strings contract.instructions)]

/-- A packet without its seal as a value. -/
def UnsignedReviewPacket.value (packet : UnsignedReviewPacket) : JsonValue :=
  .object [("schema", .string packet.schema), ("sealedAt", .string packet.sealedAt),
    ("jobId", .string packet.jobId), ("attemptId", .string packet.attemptId),
    ("authority", .string packet.authority), ("contract", packet.contract.value),
    ("attempt", packet.attempt.value), ("cleanup", packet.cleanup.value),
    ("verification", packet.verification.value), ("changedPaths", .strings packet.changedPaths),
    ("bindings", .array (packet.bindings.map EvidenceBinding.value)),
    ("attemptInventory", inventoryValue packet.attemptInventory),
    ("reviewerContract", packet.reviewerContract.value)]

/-- The functions reviews take from their libraries. -/
structure ReviewTools where
  /-- `createHash("sha256")`. -/
  sha256 : List UInt8 → String
  /-- `a.localeCompare(b) <= 0`. -/
  localeLe : String → String → Bool
  /-- `JSON.parse` of what a file holds. -/
  parseJson : List UInt8 → Except String JsonValue
  /-- `new Date(text).toISOString()`. -/
  isoDate : String → Option String
  /-- The formats `reviewPacketSchema` requires of the members of a packet. -/
  packetFormat : ReviewPacket → Except String Unit
  /-- `workerExecutionProfileSchema`. -/
  profileFormat : JsonValue → Except String Unit

/-- `createReviewerContract`. -/
def createReviewerContract : ReviewerContract where
  allowedOutcomes := ["pass", "fail", "needs-context"]
  requiredFindingFields := ["severity", "path", "line", "claim", "evidence"]
  instructions := [
    "Review the bound proposal patch against the frozen contract and repository evidence.",
    "Treat deterministic verification as evidence, not proof of semantic correctness.",
    "When proposal lineage is present, treat every contribution as unaccepted context and retrieve its hash-bound patch before judging the derived change.",
    "Return fail for any actionable defect and needs-context only when named evidence is missing.",
    "Do not accept, merge, execute, or mutate repository state."]

section

variable (tools : ReviewTools) (files : ReviewFiles)

/-- The canonical JSON of a value. -/
def ReviewTools.canonical (value : JsonValue) : List Char := canonicalJson tools.localeLe value

/-- `fingerprint`. -/
def ReviewTools.fingerprint (value : JsonValue) : String :=
  tools.sha256 (String.ofList (tools.canonical value)).toUTF8.data.toList

/-- `path.resolve(text)`. -/
def ReviewFiles.resolve (text : String) : StorePath := resolvePath files.cwd text

/-- Fails with a `ReviewEvidenceError` where the condition does not hold. -/
def demand (condition : Bool) (kind : ReviewErrorKind) (message : String) : Except ReviewError Unit :=
  throwUnless condition (.evidence kind message)

/-! ### What a state must be -/

/-- The check of a file of a worker profile. -/
def validateProfileFile (file : JsonValue) : Except ReviewError Unit :=
  let path := (file.textOf "path").getD ""
  match files.stat (files.resolve path) with
  | none => .error (.thrown ("Worker profile evidence is missing: " ++ path))
  | some (.file content) =>
    if JsonValue.isNumber (file.memberOf "size") (.ofNat content.length) ∧
        file.textOf "sha256" = some (tools.sha256 content) then .ok ()
    else .error (.thrown ("Worker profile evidence changed: " ++ path))
  | some .other => .error (.thrown ("Worker profile evidence changed: " ++ path))

/-- The reasons a worker profile is unresolved. -/
def unresolvedReasons (profile : JsonValue) : String :=
  "; ".intercalate ((JsonValue.items (profile.memberOf "unresolvedReasons")).filterMap
    fun reason ↦ JsonValue.text (some reason))

/-- `validateWorkerExecutionProfile`. -/
def validateWorkerExecutionProfile (profile : JsonValue) : Except ReviewError Unit := do
  (tools.profileFormat profile).mapError .thrown
  let identity := ["recordedAt", "status", "adapter", "adapterOptionsFingerprint",
    "invocationFingerprint", "modelSelector", "attributes", "files", "unresolvedReasons"].filterMap
      fun key ↦ (profile.memberOf key).map fun value ↦ (key, value)
  if profile.textOf "profileFingerprint" ≠
      some (tools.fingerprint (.object identity)) then
    throw (.thrown "Worker execution profile fingerprint changed")
  if profile.textOf "status" ≠ some "complete" then
    throw (.thrown ("Worker execution profile is unresolved: " ++ unresolvedReasons profile))
  (JsonValue.items (profile.memberOf "files")).forM (validateProfileFile tools files)

/-- The paths the artifacts of an attempt must have. -/
def artifactPaths (state : ReviewEvidenceState) : List (String × StorePath) :=
  let directory := files.resolve state.attemptDirectory
  [("job", files.resolve state.jobPath), ("manifest", directory ++ ["attempt.json"]),
    ("stdout", directory ++ ["stdout.log"]), ("stderr", directory ++ ["stderr.log"]),
    ("proposalPatch", directory ++ ["proposal.patch"]),
    ("repositoryStatus", directory ++ ["repository-status.txt"]),
    ("changedPaths", directory ++ ["changed-paths.json"]),
    ("verification", directory ++ ["verification.json"]),
    ("cleanup", directory ++ ["cleanup.json"])]

/-- The path of an artifact. -/
def ReviewEvidenceState.artifact (state : ReviewEvidenceState) (name : String) : Option String :=
  JsonValue.text (state.manifest.at ["artifacts", name])

/-- `assertReviewArtifactPaths`. -/
def assertReviewArtifactPaths (state : ReviewEvidenceState) : Except ReviewError Unit :=
  (artifactPaths files state).forM fun artifact ↦
    demand (files.resolve ((state.artifact artifact.1).getD "") = artifact.2) .corrupt
      ("Attempt artifact path changed for " ++ artifact.1)

/-- `validateProjection`. -/
def validateProjection (name : String) (target : Option String) (expected : JsonValue) :
    Except ReviewError Unit := do
  let unreadable (reason : String) : ReviewError :=
    .evidence .corrupt (name ++ " projection is unreadable: " ++ reason)
  match files.stat (files.resolve (target.getD "")) with
  | some (.file content) =>
    let value ← (tools.parseJson content).mapError unreadable
    demand (tools.canonical value = tools.canonical expected) .corrupt
      (name ++ " projection disagrees with authoritative state")
  | some .other => throw (unreadable "EISDIR: illegal operation on a directory, read")
  | none => throw (unreadable "ENOENT: no such file or directory")

/-- Whether a worker profile disagrees with the contract or the invocation. -/
def profileDisagrees (state : ReviewEvidenceState) (profile invocation : JsonValue) : Bool :=
  let requestedModel := JsonValue.text (state.contract.at ["worker", "options", "model"])
  let modelSelector := requestedModel.filter fun model ↦ ¬model.toList.all Char.isWhitespace
  let selector := profile.textOf "modelSelector"
  let adapter := profile.memberOf "adapter"
  JsonValue.text (JsonValue.member adapter "id") ≠
      JsonValue.text (state.contract.at ["worker", "adapterId"]) ||
    profile.textOf "adapterOptionsFingerprint" ≠
      (state.contract.at ["worker", "options"]).map tools.fingerprint ||
    profile.textOf "invocationFingerprint" ≠
      some (tools.fingerprint invocation) ||
    (modelSelector.isSome && selector ≠ modelSelector) ||
    (JsonValue.text (JsonValue.member adapter "modelIdentity") = some "required" && selector.isNone)

/-- `assertReviewEvidenceState`. -/
def assertReviewEvidenceState (state : ReviewEvidenceState) : Except ReviewError Unit := do
  let attemptId := state.manifest.required "attemptId"
  let jobId := state.manifest.required "jobId"
  demand (state.manifest.string "status" = some "completed" ∧
      state.manifest.string "verificationStatus" = some "eligible" ∧
      JsonValue.isTrue (state.verification.get "eligibleForReview"))
    .unavailable ("Attempt " ++ attemptId ++ " is not eligible for review")
  demand (state.cleanup.string "status" ∈ [some "not-required", some "proven"])
    .unavailable ("Attempt " ++ attemptId ++ " cleanup is " ++ state.cleanup.required "status")
  match state.manifest.get "workerProfile" with
  | none => throw (.evidence .legacyUnsealed
      ("Attempt " ++ attemptId ++ " has no launch-time worker profile"))
  | some profile =>
    demand (profile.textOf "status" = some "complete") .profileUnresolved
      ("Attempt " ++ attemptId ++ " worker profile is unresolved: " ++ unresolvedReasons profile)
    (validateWorkerExecutionProfile tools files profile).mapError fun error ↦
      .evidence .corrupt
        ("Worker profile validation failed for " ++ attemptId ++ ": " ++ error.message)
    match state.manifest.get "invocation" with
    | none => throw (.evidence .corrupt ("Attempt " ++ attemptId ++ " has no persisted invocation"))
    | some invocation =>
      demand (!profileDisagrees tools state profile invocation) .corrupt
        ("Worker profile disagrees with contract or invocation for " ++ attemptId)
      demand (state.contract.required "jobId" = jobId ∧ state.cleanup.required "jobId" = jobId ∧
          state.cleanup.required "attemptId" = attemptId ∧
          state.verification.required "jobId" = jobId ∧
          state.verification.required "attemptId" = attemptId) .corrupt
        ("Review evidence identity mismatch for " ++ attemptId)
      demand (some (tools.canonical (.strings state.changedPaths)) =
          (state.verification.at ["scope", "changedPaths"]).map tools.canonical) .corrupt
        ("Changed-path and verification evidence disagree for " ++ attemptId)
      assertReviewArtifactPaths files state
      validateProjection tools files "job contract" (some state.jobPath) state.contract.value
      validateProjection tools files "attempt manifest" (state.artifact "manifest")
        state.manifest.value
      validateProjection tools files "cleanup record" (state.artifact "cleanup") state.cleanup.value
      validateProjection tools files "verification record" (state.artifact "verification")
        state.verification.value
      validateProjection tools files "changed paths" (state.artifact "changedPaths")
        (.strings state.changedPaths)

/-! ### What is sealed -/

/-- The outputs of the commands of a verification. -/
def commandOutputs (state : ReviewEvidenceState) : List (Option String × EvidencePurpose) :=
  (JsonValue.items (state.verification.at ["setup", "commands"]) ++
    JsonValue.items (state.verification.at ["acceptance", "commands"])).flatMap fun command ↦
      [(command.textOf "stdout", .commandStdout),
        (command.textOf "stderr", .commandStderr)]

/-- `ensureWithinAttempt`. -/
def ensureWithinAttempt (root : String) (target : Option String) : Except ReviewError Unit :=
  match target.filter (· ≠ "") with
  | none => .ok ()
  | some target =>
    let relative := files.resolve target
    demand (files.resolve root <+: relative ∧ relative ≠ files.resolve root) .corrupt
      ("Command evidence escaped its attempt directory: " ++ target)

/-- The purpose of a file of a worker profile. -/
def profilePurpose (file : JsonValue) : EvidencePurpose :=
  match file.textOf "role" with
  | some "executable" => .workerExecutable
  | some "configuration" => .workerConfiguration
  | _ => .workerHarness

/-- What is added to the requested files, in order. -/
def evidenceTargets (state : ReviewEvidenceState) : List (Option String × EvidencePurpose) :=
  [[(some state.jobPath, .job), (state.artifact "manifest", .attempt),
    (state.artifact "cleanup", .cleanup), (state.artifact "proposalPatch", .proposalPatch),
    (state.artifact "repositoryStatus", .repositoryStatus),
    (state.artifact "changedPaths", .changedPaths), (state.artifact "verification", .verification),
    (state.artifact "stdout", .workerStdout), (state.artifact "stderr", .workerStderr)],
    commandOutputs state,
    (JsonValue.items (state.manifest.at ["lineage", "contributions"])).flatMap fun contribution ↦
      [(contribution.textOf "patchPath", .lineagePatch),
        (contribution.textOf "verificationPath", .lineageVerification)],
    (JsonValue.items (state.manifest.at ["workerProfile", "files"])).map fun file ↦
      (file.textOf "path", profilePurpose file)].flatten

/-- Paths are told apart segment by segment. -/
local instance packetPathLawful : LawfulBEq StorePath := inferInstance

/-- `add`. -/
def addEvidence (requested : List (StorePath × List EvidencePurpose))
    (target : Option String × EvidencePurpose) : List (StorePath × List EvidencePurpose) :=
  match target.1.filter (· ≠ "") with
  | none => requested
  | some text =>
    let absolute := files.resolve text
    if absolute ∈ requested.map Prod.fst then
      requested.map fun entry ↦
        if entry.1 = absolute ∧ target.2 ∉ entry.2 then (entry.1, entry.2 ++ [target.2]) else entry
    else requested ++ [(absolute, [target.2])]

/-- The binding of a file. -/
def bindEvidence (entry : StorePath × List EvidencePurpose) : Except ReviewError EvidenceBinding :=
  match files.stat entry.1 with
  | none => .error (.evidence .unavailable
      ("Required review evidence is missing: " ++ pathText entry.1))
  | some .other => .error (.evidence .corrupt
      ("Required review evidence is not a regular file: " ++ pathText entry.1))
  | some (.file content) => .ok {
      path := entry.1
      purposes := entry.2.mergeSort fun left right ↦ left.text ≤ right.text
      size := content.length
      sha256 := tools.sha256 content }

/-- `collectEvidenceBindings`. -/
def collectEvidenceBindings (state : ReviewEvidenceState) :
    Except ReviewError (List EvidenceBinding) := do
  (commandOutputs state).forM fun output ↦
    ensureWithinAttempt files state.attemptDirectory output.1
  let requested := (evidenceTargets state).foldl (addEvidence files) []
  (requested.mergeSort fun left right ↦
    tools.localeLe (pathText left.1) (pathText right.1)).mapM (bindEvidence tools files)

/-- The check of a binding. -/
def validateBinding (binding : EvidenceBinding) : Except ReviewError Unit :=
  match files.stat binding.path with
  | none => .error (.evidence .corrupt
      ("Sealed review evidence is missing: " ++ pathText binding.path))
  | some .other => .error (.evidence .corrupt
      ("Sealed review evidence changed: " ++ pathText binding.path))
  | some (.file content) =>
    demand (content.length = binding.size ∧ tools.sha256 content = binding.sha256) .corrupt
      ("Sealed review evidence changed: " ++ pathText binding.path)

/-- `validateBindings`. -/
def validateBindings (bindings : List EvidenceBinding) : Except ReviewError Unit :=
  bindings.forM (validateBinding tools files)

/-- An entry found in the attempt directory: its path, and the content of a file. -/
abbrev FoundEntry := String × Option (List UInt8)

/-- The path of a child, relative to the attempt directory, with `/` for every `\`. -/
def childPath (parent name : String) : String :=
  let portable := String.ofList (name.toList.map fun c ↦ if c = '\\' then '/' else c)
  if parent = "" then portable else parent ++ "/" ++ portable

/-- The results for children, in the order of their names, up to the first error. -/
def inNameOrder (children : List (String × Except ReviewError (List FoundEntry))) :
    Except ReviewError (List FoundEntry) := do
  let parts ← (children.mergeSort fun left right ↦ tools.localeLe left.1 right.1).mapM Prod.snd
  return parts.flatten

mutual

/-- The entries at a path. -/
def visitEntry (path : String) : DirectoryEntry → Except ReviewError (List FoundEntry)
  | .file content => .ok [(path, some content)]
  | .directory children => do
    let inner ← inNameOrder tools (visitChildren path children)
    return (path, none) :: inner
  | .symbolicLink => .error (.evidence .corrupt
      ("Symbolic links are prohibited in sealed attempt evidence: " ++ path))
  | .unsupported => .error (.evidence .corrupt
      ("Unsupported entry in sealed attempt evidence: " ++ path))

/-- The entries of each child; the packet itself is left out. -/
def visitChildren (parent : String) : List (String × DirectoryEntry) →
    List (String × Except ReviewError (List FoundEntry))
  | [] => []
  | (name, entry) :: rest =>
    (name, if childPath parent name = "review-packet.json" then .ok []
      else visitEntry (childPath parent name) entry) :: visitChildren parent rest

end

/-- All entries of the attempt directory, in the order of their paths. -/
def attemptEntries (attemptDirectory : String) : Except ReviewError (List FoundEntry) :=
  match files.readdir (files.resolve attemptDirectory) with
  | none => .error (.thrown ("ENOENT: no such file or directory, scandir '" ++
      pathText (files.resolve attemptDirectory) ++ "'"))
  | some children => do
    let entries ← inNameOrder tools (visitChildren tools "" children)
    return entries.mergeSort fun left right ↦ tools.localeLe left.1 right.1

/-- The entry of the inventory. -/
def inventoryEntry : FoundEntry → InventoryEntry
  | (path, none) => .directory path
  | (path, some content) => .file path content.length (tools.sha256 content)

/-- `collectAttemptInventory`. -/
def collectAttemptInventory (attemptDirectory : String) : Except ReviewError (List InventoryEntry) :=
  (attemptEntries tools files attemptDirectory).map (List.map (inventoryEntry tools))

/-! ### Building and validating -/

/-- `(now ?? new Date(finishedAt!)).toISOString()`. -/
def sealDate (state : ReviewEvidenceState) (now : Option String) : Except ReviewError String :=
  match now.orElse fun _ ↦ (state.manifest.string "finishedAt").bind tools.isoDate with
  | some date => .ok date
  | none => .error (.thrown "Invalid time value")

/-- `buildReviewPacket`; `now` as an ISO date. -/
def buildReviewPacket (state : ReviewEvidenceState) (now : Option String) :
    Except ReviewError ReviewPacket := do
  assertReviewEvidenceState tools files state
  let sealedAt ← sealDate tools state now
  let bindings ← collectEvidenceBindings tools files state
  let attemptInventory ← collectAttemptInventory tools files state.attemptDirectory
  let unsigned : UnsignedReviewPacket := {
    schema := "conductor.review-packet/v2"
    sealedAt
    jobId := state.manifest.required "jobId"
    attemptId := state.manifest.required "attemptId"
    authority := "advisory-review-only"
    contract := state.contract
    attempt := state.manifest
    cleanup := state.cleanup
    verification := state.verification
    changedPaths := state.changedPaths
    bindings
    attemptInventory
    reviewerContract := createReviewerContract }
  let packet : ReviewPacket := { unsigned with sealSha256 := tools.fingerprint unsigned.value }
  (tools.packetFormat packet).mapError .thrown
  return packet

/-- `validateReviewPacket`. -/
def validateReviewPacket (packet : ReviewPacket) (state : ReviewEvidenceState) :
    Except ReviewError Unit := do
  (tools.packetFormat packet).mapError .thrown
  demand (tools.fingerprint packet.toUnsignedReviewPacket.value = packet.sealSha256) .corrupt
    ("Review packet seal changed for " ++ packet.attemptId)
  assertReviewEvidenceState tools files state
  [("job contract", packet.contract.value, state.contract.value),
    ("terminal attempt", packet.attempt.value, state.manifest.value),
    ("cleanup", packet.cleanup.value, state.cleanup.value),
    ("verification", packet.verification.value, state.verification.value),
    ("changed paths", .strings packet.changedPaths, .strings state.changedPaths),
    ("reviewer contract", packet.reviewerContract.value, createReviewerContract.value)].forM
      fun comparison ↦
        demand (tools.canonical comparison.2.1 = tools.canonical comparison.2.2) .corrupt
          ("Sealed " ++ comparison.1 ++ " changed for " ++ packet.attemptId)
  demand (packet.jobId = state.manifest.required "jobId" ∧
      packet.attemptId = state.manifest.required "attemptId") .corrupt
    ("Review packet identity changed for " ++ packet.attemptId)
  validateBindings tools files packet.bindings
  let inventory ← collectAttemptInventory tools files state.attemptDirectory
  demand (tools.canonical (inventoryValue inventory) =
      tools.canonical (inventoryValue packet.attemptInventory)) .corrupt
    ("Attempt evidence inventory changed for " ++ packet.attemptId)

end

end CodeConductor
