import CodeConductor.Contracts.Freeze
import CodeConductor.Provider.Request
import CodeConductor.Verification.PatchBytes

/-!
# The command line of the provider's runner

The adapter for a Responses provider starts its runner as a process, and tells it everything on the
command line: a flag and a value for each field of the contract the runner needs, the values as they
are. The runner reads its arguments in pairs, so a value is never taken for a flag, whatever it says.

What the runner asks for more than the adapter does is that nothing required is empty: it refuses a
scope without allowed paths (`cliDecoded_invocation`).
-/

namespace CodeConductor

/-- The path rules of a host. -/
inductive Platform where
  | posix | win32
  deriving DecidableEq, Repr

/-- The message of the error a call ends in. -/
def errorOf {A : Type} : Except String A → Option String
  | .error message => some message
  | .ok _ => none

/-- What the operating system tells the adapter and the capture of a worker's profile. -/
structure Host where
  platform : Platform
  /-- `path.resolve`. -/
  resolve : String → String
  /-- `stat`: the size of a file, nothing for anything else, or the message of the error. -/
  stat : String → Except String (Option ℕ)
  sha256File : String → Except String String
  /-- A message quotes the path it is about. -/
  messages_apart : ∀ path path' message message',
    (errorOf (stat path) = some message ∨ errorOf (sha256File path) = some message) →
    (errorOf (stat path') = some message' ∨ errorOf (sha256File path') = some message') →
    path ++ ": " ++ message = path' ++ ": " ++ message' → path = path'

/-- `path.isAbsolute`. -/
def Host.isAbsolute (host : Host) (text : String) : Bool :=
  match host.platform with
  | .posix => text.toList.head? = some '/'
  | .win32 => isWin32Absolute text.toList

theorem Host.isAbsolute_empty (host : Host) : host.isAbsolute "" = false := by
  rw [Host.isAbsolute]
  cases host.platform <;> decide

/-- `isAbsoluteFile`. -/
def Host.isAbsoluteFile (host : Host) (candidate : String) : Bool :=
  host.isAbsolute candidate &&
    match host.stat candidate with
    | .ok (some _) => true
    | _ => false

/-- `WorkerAttemptContext`, the fields an adapter reads. -/
structure WorkerAttemptContext where
  workspaceBaseRevision : String
  sourceBaseRevision : String

/-- `ProcessInvocation`. -/
structure ProcessInvocation where
  executable : String
  args : List String
  cwd : String
  env : List (String × String)
  deriving DecidableEq, Repr

/-- The fields of `OpenAIResponsesAdapter`. -/
structure OpenAIResponsesAdapter (host : Host) where
  executable : Option String
  runnerPath : String
  profilesFile : Option String
  environment : String → Option String
  /-- What `tryLoadProfiles` has read. -/
  profileFile : Option (String → Option ProviderProfile)
  /-- It reads nothing but an absolute file. -/
  loaded : profileFile.isSome = true → profilesFile.any host.isAbsoluteFile = true

/-- `validateProfileSelection`. -/
def validateProfileSelection (options : JsonObject) : Except String String :=
  match options.members with
  | [("profile", .string profile)] =>
    if trimText profile = "" then
      .error "OpenAI Responses adapter only accepts the owner provider profile ID"
    else .ok (trimText profile)
  | _ => .error "OpenAI Responses adapter only accepts the owner provider profile ID"

/-- `repeatedArguments`. -/
def repeatedArguments (flag : String) (values : List String) : List String :=
  values.flatMap fun value ↦ [flag, value]

namespace OpenAIResponsesAdapter

variable {host : Host} (adapter : OpenAIResponsesAdapter host)

/-- `selectProfile`. -/
def selectProfile (profileId : String) : Except String ProviderProfile :=
  match adapter.profileFile.bind (· profileId) with
  | some profile => .ok profile
  | none => .error ("OpenAI Responses adapter only accepts the owner provider profile; unknown profile: " ++
      profileId)

/-- The arguments before the free text of the contract. -/
def leadingArguments (profileId workspacePath : String) : List String :=
  ["--profiles-file", adapter.profilesFile.getD "", "--profile-id", profileId,
    "--workspace", workspacePath]

/-- `buildInvocation`. -/
def buildInvocation (contract : FrozenJob) (workspacePath : String)
    (attemptContext : Option WorkerAttemptContext) : Except String ProcessInvocation := do
  let profileId ← validateProfileSelection contract.workerOptions
  let profile ← adapter.selectProfile profileId
  match adapter.executable with
  | none => .error "OpenAI Responses runner is unavailable"
  | some executable =>
    throwUnless (executable ≠ "" && host.isAbsoluteFile adapter.runnerPath)
      "OpenAI Responses runner is unavailable"
    match (adapter.environment profile.apiKeyEnvName).filter (· ≠ "") with
    | none => .error "OpenAI Responses API key is not configured"
    | some secret =>
      let sourceBaseRevision :=
        (attemptContext.map WorkerAttemptContext.sourceBaseRevision).getD contract.baseRevision
      let workspaceBaseRevision :=
        (attemptContext.map WorkerAttemptContext.workspaceBaseRevision).getD contract.baseRevision
      return {
        executable := executable
        args := adapter.runnerPath :: (adapter.leadingArguments profileId workspacePath ++
          ["--objective", contract.objective] ++
          repeatedArguments "--allowed-path" (contract.scope.allowedPaths.map RelativePath.text) ++
          repeatedArguments "--context-ref" contract.contextRefs ++
          repeatedArguments "--constraint" contract.constraints ++
          repeatedArguments "--escalate-when" contract.escalateWhen ++
          ["--source-base-revision", sourceBaseRevision,
            "--workspace-base-revision", workspaceBaseRevision])
        cwd := workspacePath
        env := [(profile.apiKeyEnvName, secret)] }

end OpenAIResponsesAdapter

/-! ### The runner -/

/-- What `parseCliArguments` returns. -/
structure CliArguments where
  profilesFile : String
  profileId : String
  workspacePath : String
  objective : String
  allowedPaths : List String
  contextRefs : List String
  constraints : List String
  escalateWhen : List String
  sourceBaseRevision : String
  workspaceBaseRevision : String
  deriving DecidableEq, Repr

/-- The maps `parseCliArguments` fills. -/
structure CliMaps where
  singles : String → Option String := fun _ ↦ none
  repeated : String → List String := fun _ ↦ []

/-- The flags that may be given more than once. -/
def repeatable : List String := ["--allowed-path", "--context-ref", "--constraint", "--escalate-when"]

/-- `flag.startsWith("--")`. -/
def isFlag (flag : String) : Bool := ['-', '-'].isPrefixOf flag.toList

/-- `singles.set(flag, value)`. -/
def CliMaps.set (maps : CliMaps) (flag value : String) : CliMaps :=
  { maps with singles := Function.update maps.singles flag (some value) }

/-- `repeated.set(flag, [...values so far, ...values])`. -/
def CliMaps.push (maps : CliMaps) (flag : String) (values : List String) : CliMaps :=
  { maps with repeated := Function.update maps.repeated flag (maps.repeated flag ++ values) }

/-- The body of the loop of `parseCliArguments`. -/
def CliMaps.add (maps : CliMaps) (flag value : String) : Except String CliMaps :=
  if isFlag flag = false then .error "invalid args"
  else if flag ∈ repeatable then .ok (maps.push flag [value])
  else if (maps.singles flag).isSome then .error "duplicate arg"
  else .ok (maps.set flag value)

/-- The loop of `parseCliArguments`. -/
def CliMaps.addAll : CliMaps → List String → Except String CliMaps
  | maps, [] => .ok maps
  | _, [_] => .error "invalid args"
  | maps, flag :: value :: rest => do (← maps.add flag value).addAll rest

/-- `required`. -/
def CliMaps.required (maps : CliMaps) (name : String) : Except String String :=
  match (maps.singles name).filter (· ≠ "") with
  | some value => .ok value
  | none => .error ("missing " ++ name)

/-- `parseCliArguments`. -/
def parseCliArguments (arguments : List String) : Except String CliArguments := do
  let maps ← ({} : CliMaps).addAll arguments
  let allowedPaths := maps.repeated "--allowed-path"
  throwUnless (allowedPaths ≠ []) "missing allowed path"
  let profilesFile ← maps.required "--profiles-file"
  let profileId ← maps.required "--profile-id"
  let workspacePath ← maps.required "--workspace"
  let objective ← maps.required "--objective"
  let sourceBaseRevision ← maps.required "--source-base-revision"
  let workspaceBaseRevision ← maps.required "--workspace-base-revision"
  return {
    profilesFile, profileId, workspacePath, objective, allowedPaths
    contextRefs := maps.repeated "--context-ref"
    constraints := maps.repeated "--constraint"
    escalateWhen := maps.repeated "--escalate-when"
    sourceBaseRevision, workspaceBaseRevision }

/-! ### What the runner is told -/

/-- A contract that has passed `jobContractSchema`. -/
abbrev ParsedJob := {contract : FrozenJob // contract.check = .ok ()}

/-- What the adapter encodes. -/
def encodedCli {host : Host} (adapter : OpenAIResponsesAdapter host) (contract : ParsedJob)
    (profileId workspacePath : String) (attemptContext : Option WorkerAttemptContext) :
    CliArguments where
  profilesFile := adapter.profilesFile.getD ""
  profileId := profileId
  workspacePath := workspacePath
  objective := contract.1.objective
  allowedPaths := contract.1.scope.allowedPaths.map RelativePath.text
  contextRefs := contract.1.contextRefs
  constraints := contract.1.constraints
  escalateWhen := contract.1.escalateWhen
  sourceBaseRevision :=
    (attemptContext.map WorkerAttemptContext.sourceBaseRevision).getD contract.1.baseRevision
  workspaceBaseRevision :=
    (attemptContext.map WorkerAttemptContext.workspaceBaseRevision).getD contract.1.baseRevision

/-- The first required argument that is empty, of those the adapter does not check. -/
def missingArgument (cli : CliArguments) : Option String :=
  if cli.allowedPaths = [] then some "missing allowed path"
  else if cli.workspacePath = "" then some "missing --workspace"
  else if cli.sourceBaseRevision = "" then some "missing --source-base-revision"
  else if cli.workspaceBaseRevision = "" then some "missing --workspace-base-revision"
  else none

/-- **The arguments decode to what was encoded**, in every invocation that is built. -/
def CliRoundTrip {host : Host} (adapter : OpenAIResponsesAdapter host) (contract : ParsedJob)
    (workspacePath : String) (attemptContext : Option WorkerAttemptContext) : Prop :=
  ∀ invocation, adapter.buildInvocation contract.1 workspacePath attemptContext = .ok invocation →
    ∃ profileId, validateProfileSelection contract.1.workerOptions = .ok profileId ∧
      parseCliArguments (invocation.args.drop 1) =
        .ok (encodedCli adapter contract profileId workspacePath attemptContext)

/-- What the runner makes of every invocation that is built. -/
def CliDecoded {host : Host} (adapter : OpenAIResponsesAdapter host) (contract : ParsedJob)
    (workspacePath : String) (attemptContext : Option WorkerAttemptContext) : Prop :=
  ∀ invocation, adapter.buildInvocation contract.1 workspacePath attemptContext = .ok invocation →
    ∃ profileId, validateProfileSelection contract.1.workerOptions = .ok profileId ∧
      parseCliArguments (invocation.args.drop 1) =
        match missingArgument (encodedCli adapter contract profileId workspacePath attemptContext) with
        | none => .ok (encodedCli adapter contract profileId workspacePath attemptContext)
        | some message => .error message

section Decoding

variable {maps : CliMaps} {flag value : String} {rest : List String}

/-- A flag that may be given once. -/
theorem addAll_single (hflag : isFlag flag = true) (honce : flag ∉ repeatable)
    (hnew : maps.singles flag = none) :
    maps.addAll (flag :: value :: rest) = (maps.set flag value).addAll rest := by
  have hadd : maps.add flag value = .ok (maps.set flag value) := by
    rw [CliMaps.add, if_neg (by simp [hflag]), if_neg honce, if_neg (by simp [hnew])]
  rw [CliMaps.addAll, hadd]
  rfl

theorem push_push (values values' : List String) :
    (maps.push flag values).push flag values' = maps.push flag (values ++ values') := by
  simp [CliMaps.push, List.append_assoc]

/-- The values of a flag that may be repeated come out in order. -/
theorem addAll_repeated (hflag : isFlag flag = true) (hrepeatable : flag ∈ repeatable)
    (values : List String) :
    maps.addAll (repeatedArguments flag values ++ rest) = (maps.push flag values).addAll rest := by
  induction values generalizing maps with
  | nil =>
    have hnone : maps.push flag [] = maps := by
      rw [CliMaps.push, List.append_nil, Function.update_eq_self]
    rw [hnone]
    rfl
  | cons value values ih =>
    have hadd : maps.add flag value = .ok (maps.push flag [value]) := by
      rw [CliMaps.add, if_neg (by simp [hflag]), if_pos hrepeatable]
    show maps.addAll (flag :: value :: (repeatedArguments flag values ++ rest)) = _
    rw [CliMaps.addAll, hadd]
    show (maps.push flag [value]).addAll (repeatedArguments flag values ++ rest) = _
    rw [ih, push_push]
    rfl

end Decoding

theorem validateProfileSelection_ne_empty {options : JsonObject} {profileId : String}
    (h : validateProfileSelection options = .ok profileId) : profileId ≠ "" := by
  rw [validateProfileSelection] at h
  split at h
  · split at h
    · exact nomatch h
    · rename_i hne
      exact Except.ok.inj h ▸ hne
  · exact nomatch h

theorem ParsedJob.objective_ne_empty (contract : ParsedJob) : contract.1.objective ≠ "" := by
  have hcheck := contract.2
  simp only [FrozenJob.check, JobTerms.check, check_eq_ok, throwUnless_bool_eq_ok] at hcheck
  simpa using hcheck.1.2.2.1

/-- The arguments of an encoded command line. -/
def cliArguments (cli : CliArguments) : List String :=
  "--profiles-file" :: cli.profilesFile :: "--profile-id" :: cli.profileId ::
    "--workspace" :: cli.workspacePath :: "--objective" :: cli.objective ::
    (repeatedArguments "--allowed-path" cli.allowedPaths ++
      (repeatedArguments "--context-ref" cli.contextRefs ++
        (repeatedArguments "--constraint" cli.constraints ++
          (repeatedArguments "--escalate-when" cli.escalateWhen ++
            ["--source-base-revision", cli.sourceBaseRevision,
              "--workspace-base-revision", cli.workspaceBaseRevision]))))

/-- The value of a flag that is given once. -/
def cliSingle (cli : CliArguments) (name : String) : Option String :=
  if name = "--workspace-base-revision" then some cli.workspaceBaseRevision
  else if name = "--source-base-revision" then some cli.sourceBaseRevision
  else if name = "--objective" then some cli.objective
  else if name = "--workspace" then some cli.workspacePath
  else if name = "--profile-id" then some cli.profileId
  else if name = "--profiles-file" then some cli.profilesFile
  else none

/-- The values of a flag that may be repeated. -/
def cliRepeated (cli : CliArguments) (name : String) : List String :=
  if name = "--escalate-when" then cli.escalateWhen
  else if name = "--constraint" then cli.constraints
  else if name = "--context-ref" then cli.contextRefs
  else if name = "--allowed-path" then cli.allowedPaths
  else []

/-- The maps after the loop. -/
theorem addAll_cliArguments (cli : CliArguments) :
    ({} : CliMaps).addAll (cliArguments cli) =
      .ok { singles := cliSingle cli, repeated := cliRepeated cli } := by
  rw [cliArguments, addAll_single rfl (by decide) rfl, addAll_single rfl (by decide) rfl,
    addAll_single rfl (by decide) rfl, addAll_single rfl (by decide) rfl,
    addAll_repeated rfl (by decide), addAll_repeated rfl (by decide),
    addAll_repeated rfl (by decide), addAll_repeated rfl (by decide),
    addAll_single rfl (by decide) rfl, addAll_single rfl (by decide) rfl]
  simp only [CliMaps.addAll, CliMaps.set, CliMaps.push, Except.ok.injEq, CliMaps.mk.injEq]
  constructor
  · funext name
    simp only [Function.update_apply, cliSingle]
  · funext name
    simp only [Function.update_apply, cliRepeated]
    simp

/-- A required flag. -/
theorem CliMaps.required_eq (maps : CliMaps) (name : String) :
    maps.required name = (maps.singles name).elim (.error ("missing " ++ name)) fun value ↦
      if value = "" then .error ("missing " ++ name) else .ok value := by
  rw [CliMaps.required]
  cases maps.singles name with
  | none => rfl
  | some value => by_cases hvalue : value = "" <;> simp [Option.filter, hvalue]

/-- What the runner makes of an encoded command line. -/
theorem parseCliArguments_cliArguments {cli : CliArguments} (hfile : cli.profilesFile ≠ "")
    (hid : cli.profileId ≠ "") (hobjective : cli.objective ≠ "") :
    parseCliArguments (cliArguments cli) =
      match missingArgument cli with
      | none => .ok cli
      | some message => .error message := by
  have hrequired (name value : String) (hvalue : cliSingle cli name = some value) :
      CliMaps.required { singles := cliSingle cli, repeated := cliRepeated cli } name =
        if value = "" then .error ("missing " ++ name) else .ok value := by
    rw [CliMaps.required_eq]
    dsimp only
    rw [hvalue]
    rfl
  rw [parseCliArguments, addAll_cliArguments]
  show (throwUnless (decide (cli.allowedPaths ≠ [])) "missing allowed path" >>= fun _ ↦ _) = _
  rw [hrequired "--profiles-file" cli.profilesFile (by simp [cliSingle]),
    hrequired "--profile-id" cli.profileId (by simp [cliSingle]),
    hrequired "--workspace" cli.workspacePath (by simp [cliSingle]),
    hrequired "--objective" cli.objective (by simp [cliSingle]),
    hrequired "--source-base-revision" cli.sourceBaseRevision (by simp [cliSingle]),
    hrequired "--workspace-base-revision" cli.workspaceBaseRevision (by simp [cliSingle]),
    if_neg hfile, if_neg hid, if_neg hobjective]
  by_cases hallowed : cli.allowedPaths = []
  · simp [missingArgument, hallowed, throwUnless, bind, Except.bind]
  by_cases hworkspace : cli.workspacePath = ""
  · simp [missingArgument, hallowed, hworkspace, throwUnless, bind, Except.bind]
  by_cases hsource : cli.sourceBaseRevision = ""
  · simp [missingArgument, hallowed, hworkspace, hsource, throwUnless, bind, Except.bind]
  by_cases hrevision : cli.workspaceBaseRevision = ""
  · simp [missingArgument, hallowed, hworkspace, hsource, hrevision, throwUnless, bind, Except.bind]
  · simp [missingArgument, hallowed, hworkspace, hsource, hrevision, throwUnless, bind, Except.bind]
    rfl

/-- The arguments after the runner are those of the encoded command line, whose required values are
not empty where the adapter has checked them. -/
theorem args_of_buildInvocation {host : Host} {adapter : OpenAIResponsesAdapter host}
    {contract : ParsedJob} {workspacePath : String} {attemptContext : Option WorkerAttemptContext}
    {invocation : ProcessInvocation}
    (h : adapter.buildInvocation contract.1 workspacePath attemptContext = .ok invocation) :
    ∃ profileId, validateProfileSelection contract.1.workerOptions = .ok profileId ∧
      adapter.profilesFile.any host.isAbsoluteFile = true ∧
      invocation.args.drop 1 =
        cliArguments (encodedCli adapter contract profileId workspacePath attemptContext) := by
  rw [OpenAIResponsesAdapter.buildInvocation, bind_eq_ok] at h
  obtain ⟨profileId, hprofileId, h⟩ := h
  obtain ⟨profile, hprofile, h⟩ := bind_eq_ok.1 h
  have hloaded : adapter.profileFile.isSome = true := by
    rw [OpenAIResponsesAdapter.selectProfile] at hprofile
    cases hfile : adapter.profileFile with
    | none => simp [hfile] at hprofile
    | some _ => rfl
  refine ⟨profileId, hprofileId, adapter.loaded hloaded, ?_⟩
  cases hexecutable : adapter.executable with
  | none => simp [hexecutable] at h
  | some executable =>
    rw [hexecutable] at h
    obtain ⟨-, h⟩ := check_eq_ok.1 h
    split at h
    · exact nomatch h
    · obtain rfl := Except.ok.inj h
      simp [cliArguments, encodedCli, OpenAIResponsesAdapter.leadingArguments]

theorem profilesFile_ne_empty {host : Host} {file : Option String}
    (h : file.any host.isAbsoluteFile = true) : file.getD "" ≠ "" := by
  cases file with
  | none => exact nomatch h
  | some file =>
    rintro rfl
    have habsolute : host.isAbsoluteFile "" = true := h
    rw [Host.isAbsoluteFile, host.isAbsolute_empty] at habsolute
    exact nomatch habsolute

/-- **The arguments of an invocation decode to what was encoded**, whatever the texts are, if there is
an allowed path and the workspace path and the revisions are not empty; otherwise the runner names the
first of these that is missing. -/
theorem cliDecoded_invocation {host : Host} (adapter : OpenAIResponsesAdapter host)
    (contract : ParsedJob) (workspacePath : String) (attemptContext : Option WorkerAttemptContext) :
    CliDecoded adapter contract workspacePath attemptContext := by
  intro invocation h
  obtain ⟨profileId, hprofileId, hfile, hargs⟩ := args_of_buildInvocation h
  refine ⟨profileId, hprofileId, ?_⟩
  rw [hargs]
  exact parseCliArguments_cliArguments (profilesFile_ne_empty hfile)
    (validateProfileSelection_ne_empty hprofileId) contract.objective_ne_empty

/-! ### A scope without allowed paths -/

/-- The rates of the owner's profile are in range. -/
theorem ownerRates_safe : ∀ value ∈ [200000, 20000, 250000, 1200000], value ≤ maxSafeInteger := by
  decide

/-- So are its limits. -/
theorem ownerBudget_bounded : (0 < 24 ∧ 24 ≤ 128) ∧ 2 ≤ 16 ∧ (0 < 24 ∧ 24 ≤ 1024) ∧
    (0 < 200000 ∧ 200000 ≤ 1050000) ∧ (0 < 16384 ∧ 16384 ≤ 128000) ∧
    (0 < 1048576 ∧ 1048576 ≤ 16777216) ∧ 0 < 250000 ∧ 250000 ≤ 5000000 := by
  decide

/-- A profile of the owner. -/
def ownerProfile : ProviderProfile where
  model := "gpt-5.6-luna"
  reasoningEffort := .medium
  serviceTier := .default
  apiKeyEnvName := "OPENAI_API_KEY"
  rateCard := {
    id := "standard"
    uncachedInputMicroUsdPerMillion := 200000
    cachedInputMicroUsdPerMillion := 20000
    cacheWriteMicroUsdPerMillion := 250000
    outputMicroUsdPerMillion := 1200000
    longContext := none
    safe := ownerRates_safe }
  budget := ⟨24, 2, 24, 200000, 16384, 1048576, 250000, ownerBudget_bounded⟩

/-- What `stat` says of a path that leads nowhere. -/
def noEntryMessage (path : String) : String :=
  "ENOENT: no such file or directory, stat '" ++ path ++ "'"

/-- A text can be read off a text that holds it twice. -/
theorem eq_of_twice {text text' middle tail : List Char}
    (h : text ++ (middle ++ (text ++ tail)) = text' ++ (middle ++ (text' ++ tail))) :
    text = text' := by
  have hlength := congrArg List.length h
  simp only [List.length_append] at hlength
  exact (List.append_inj h (by omega)).1

/-- A message that quotes the path tells paths apart. -/
theorem quoting_apart (colon lead quote : String) {path path' : String}
    (h : path ++ colon ++ (lead ++ path ++ quote) = path' ++ colon ++ (lead ++ path' ++ quote)) :
    path = path' := by
  have hlist (text : String) : (text ++ colon ++ (lead ++ text ++ quote)).toList =
      text.toList ++ ((colon.toList ++ lead.toList) ++ (text.toList ++ quote.toList)) := by
    simp only [String.toList_append, List.append_assoc]
  have htwice := congrArg String.toList h
  rw [hlist, hlist] at htwice
  exact String.toList_inj.1 (eq_of_twice htwice)

/-- A host with the runner, the owner's profiles, a workspace, and a file that is no business of
theirs. -/
def exampleHost : Host where
  platform := .posix
  resolve path := path
  stat path :=
    if path ∈ ["/bin/bun", "/app/runner.ts", "/etc/profiles.json", "/etc/passwd"] then .ok (some 1)
    else if path = "/workspace" then .ok none
    else .error (noEntryMessage path)
  sha256File path := .ok path
  messages_apart path path' message message' h h' heq := by
    have hstat (path message : String) (h : errorOf (if path ∈ ["/bin/bun", "/app/runner.ts",
          "/etc/profiles.json", "/etc/passwd"] then .ok (some 1)
        else if path = "/workspace" then .ok none
        else .error (noEntryMessage path) : Except String (Option ℕ)) = some message ∨
          errorOf (.ok path : Except String String) = some message) :
        message = noEntryMessage path := by
      rcases h with h | h
      · split at h
        · exact nomatch h
        split at h
        · exact nomatch h
        · exact (Option.some.inj h).symm
      · exact nomatch h
    rw [hstat path message h, hstat path' message' h'] at heq
    exact quoting_apart _ _ _ heq

def exampleAdapter : OpenAIResponsesAdapter exampleHost where
  executable := some "/bin/bun"
  runnerPath := "/app/runner.ts"
  profilesFile := some "/etc/profiles.json"
  environment _ := some "key"
  profileFile := some fun profileId ↦ if profileId = "luna" then some ownerProfile else none
  loaded _ := by decide

/-- The contract of a request. -/
def exampleJob (request : JobRequest) : FrozenJob :=
  { freezeTerms plainTools request plainOptions .hostWorktree with
    resources := frozenBudget plainTools.sha plainTools.order plainOptions.owner (some 3600000) }

theorem exampleJob_check {request : JobRequest} (hrequest : request.Accepted)
    (hescalate : request.escalateWhen ≠ []) : (exampleJob request).check = .ok () :=
  check_eq_ok.2 ⟨(freezeTerms_check hrequest plainOptions_owner_valid).2 hescalate,
    budgetCheck_eq_ok.2 ⟨(accepts_frozenLimits (ownerCheck_eq_ok.1 plainOptions_owner_valid).2 _).2
      (by decide), (ownerCheck_eq_ok.1 plainOptions_owner_valid).1⟩⟩

/-- A request for the owner's profile, with the default scope. -/
def unscopedInput : JobRequestInput :=
  { plainInput with adapterOptions := some ⟨[("profile", .string "luna")], by decide⟩ }

/-- Its contract. -/
def unscopedJob : ParsedJob :=
  ⟨exampleJob unscopedInput.withDefaults,
    exampleJob_check (accepted_of_jobRequestSchema
      (show jobRequestSchema unscopedInput = .ok unscopedInput.withDefaults from rfl)) (by decide)⟩

/-- The adapter builds an invocation for a scope without allowed paths, and the runner refuses it. -/
theorem not_cliRoundTrip_unscoped :
    ¬CliRoundTrip exampleAdapter unscopedJob "/workspace" (some ⟨"d", "d"⟩) := by
  intro h
  obtain ⟨invocation, hbuild⟩ : ∃ invocation, exampleAdapter.buildInvocation unscopedJob.1
      "/workspace" (some ⟨"d", "d"⟩) = .ok invocation := ⟨_, rfl⟩
  obtain ⟨profileId, hprofileId, hparse⟩ := h invocation hbuild
  obtain ⟨_, hprofileId', hfile, hargs⟩ := args_of_buildInvocation hbuild
  obtain rfl := Except.ok.inj (hprofileId.symm.trans hprofileId')
  rw [hargs, parseCliArguments_cliArguments (profilesFile_ne_empty hfile)
    (validateProfileSelection_ne_empty hprofileId) unscopedJob.objective_ne_empty] at hparse
  have hmissing : missingArgument (encodedCli exampleAdapter unscopedJob profileId "/workspace"
      (some ⟨"d", "d"⟩)) = some "missing allowed path" := rfl
  rw [hmissing] at hparse
  exact nomatch hparse

end CodeConductor
