import CodeConductor.Contracts.Resources
import CodeConductor.Source.Watches
import CodeConductor.Verification.Scope

/-!
# Freezing a job request

A request is parsed, with its defaults filled in, and frozen into a contract together with the owner's
resource budget. The contract is stored once, and each read parses it again and recomputes the digest
of its budget.

The request schema, the contract schema and the budget schema state their ranges separately. They do
not agree in two places: a request may ask for a timeout below a second, which no budget can hold, and
may list no condition to escalate at, which no contract may (`freezesWell_iff`).

## What is modelled

A stored contract is read field by field as it was written; its budget is kept as the JSON object it
is, since that is what can be altered. The settings of a sandbox binding pass one and the same schema
before and after, and are not looked into.
-/

namespace CodeConductor

/-! ### Requests -/

/-- `taskClass`. -/
inductive TaskClass where
  | implementation | test | documentation | analysis | review
  deriving DecidableEq, Repr

/-- `commandSpecSchema`. -/
structure CommandSpec where
  executable : String
  args : List String := []
  cwd : Option RelativePath := none
  inheritEnv : List String := []
  timeoutMs : Option ℕ := none

/-- `executionBoundaryRequestSchema`. -/
inductive BoundaryRequest where
  | hostWorktree
  | externalSandbox (profileId : String)
  deriving DecidableEq, Repr

/-- What `externalSandboxBindingSchema` accepts. -/
structure SandboxBinding where
  profileId : String
  settings : JsonObject

/-- `executionBoundaryContractSchema`, with the whole binding. -/
inductive FrozenBoundary where
  | hostWorktree
  | externalSandbox (binding : SandboxBinding)

/-- A request as it is sent: a key with a default may be left out. -/
structure JobRequestInput where
  objective : String
  taskClass : Option TaskClass := none
  repositoryPath : String
  baseRef : Option String := none
  adapterId : String
  adapterOptions : Option JsonObject := none
  allowedPaths : Option (List RelativePath) := none
  forbiddenPaths : Option (List RelativePath) := none
  protectedPaths : Option (List RelativePath) := none
  contextRefs : Option (List String) := none
  constraints : Option (List String) := none
  escalateWhen : Option (List String) := none
  setupCommands : Option (List CommandSpec) := none
  acceptanceCommands : Option (List CommandSpec) := none
  timeoutMs : Option ℕ := none
  retainWorkspace : Option Bool := none
  executionBoundary : Option BoundaryRequest := none
  idempotencyKey : Option String := none

/-- `JobRequest`. -/
structure JobRequest where
  objective : String
  taskClass : TaskClass
  repositoryPath : String
  baseRef : String
  adapterId : String
  adapterOptions : JsonObject
  scope : JobScope
  contextRefs : List String
  constraints : List String
  escalateWhen : List String
  setupCommands : List CommandSpec
  acceptanceCommands : List CommandSpec
  timeoutMs : ℕ
  retainWorkspace : Bool
  executionBoundary : BoundaryRequest
  idempotencyKey : Option String

/-- `/^[A-Za-z_][A-Za-z0-9_]*$/`. -/
def isEnvironmentName (text : String) : Bool :=
  match text.toList with
  | [] => false
  | first :: rest =>
    (first.isAlpha || first = '_') && rest.all fun c ↦ c.isAlphanum || c = '_'

/-- `commandSpecSchema.parse`. -/
def CommandSpec.accepts (command : CommandSpec) : Bool :=
  command.executable ≠ "" && command.inheritEnv.all isEnvironmentName &&
    command.timeoutMs.all fun timeout ↦ 0 < timeout && timeout ≤ 86400000

/-- `z.array(z.string().min(1))`. -/
def allNonEmpty (texts : List String) : Bool := texts.all (· ≠ "")

/-- The defaults of `jobRequestSchema`. -/
def JobRequestInput.withDefaults (input : JobRequestInput) : JobRequest where
  objective := input.objective
  taskClass := input.taskClass.getD .implementation
  repositoryPath := input.repositoryPath
  baseRef := input.baseRef.getD "HEAD"
  adapterId := input.adapterId
  adapterOptions := input.adapterOptions.getD ⟨[], List.nodup_nil⟩
  scope :=
    { allowedPaths := input.allowedPaths.getD []
      forbiddenPaths := input.forbiddenPaths.getD []
      protectedPaths := input.protectedPaths.getD [] }
  contextRefs := input.contextRefs.getD []
  constraints := input.constraints.getD []
  escalateWhen := input.escalateWhen.getD
    ["Required work exceeds declared scope or conflicts with repository authority."]
  setupCommands := input.setupCommands.getD []
  acceptanceCommands := input.acceptanceCommands.getD []
  timeoutMs := input.timeoutMs.getD 3600000
  retainWorkspace := input.retainWorkspace.getD true
  executionBoundary := input.executionBoundary.getD .hostWorktree
  idempotencyKey := input.idempotencyKey

/-- The checks of `jobRequestSchema`. -/
def JobRequest.check (request : JobRequest) : Except SchemaIssue Unit := do
  throwUnless (request.objective ≠ "") ⟨["objective"]⟩
  throwUnless (request.repositoryPath ≠ "") ⟨["repositoryPath"]⟩
  throwUnless (request.baseRef ≠ "") ⟨["baseRef"]⟩
  throwUnless (request.adapterId ≠ "") ⟨["adapterId"]⟩
  throwUnless (allNonEmpty request.contextRefs) ⟨["contextRefs"]⟩
  throwUnless (allNonEmpty request.constraints) ⟨["constraints"]⟩
  throwUnless (allNonEmpty request.escalateWhen) ⟨["escalateWhen"]⟩
  throwUnless (request.setupCommands.all CommandSpec.accepts) ⟨["setupCommands"]⟩
  throwUnless (request.acceptanceCommands.all CommandSpec.accepts) ⟨["acceptanceCommands"]⟩
  throwUnless (0 < request.timeoutMs && request.timeoutMs ≤ 86400000) ⟨["timeoutMs"]⟩
  throwUnless (match request.executionBoundary with
    | .hostWorktree => true
    | .externalSandbox profileId => isIdentifier profileId) ⟨["executionBoundary", "profileId"]⟩
  throwUnless (request.idempotencyKey.all fun key ↦ key ≠ "" && (codeUnits key).length ≤ 200)
    ⟨["idempotencyKey"]⟩

/-- `jobRequestSchema.parse`. -/
def jobRequestSchema (input : JobRequestInput) : Except SchemaIssue JobRequest := do
  input.withDefaults.check
  return input.withDefaults

/-! ### Contracts -/

/-- The fields of `jobContractSchema` other than `resources`. -/
structure JobTerms where
  jobId : String
  requestFingerprint : String
  idempotencyKey : String
  createdAt : Timestamp
  objective : String
  taskClass : TaskClass
  repositoryRoot : String
  requestedRef : String
  baseRevision : String
  adapterId : String
  workerOptions : JsonObject
  scope : JobScope
  contextRefs : List String
  constraints : List String
  escalateWhen : List String
  setupCommands : List CommandSpec
  acceptanceCommands : List CommandSpec
  timeoutMs : ℕ
  retainWorkspace : Bool
  boundary : FrozenBoundary

/-- `JobContract`, with all its fields. -/
structure FrozenJob extends JobTerms where
  resources : FrozenBudget

/-- The checks of `jobContractSchema` on the fields other than `resources`. -/
def JobTerms.check (terms : JobTerms) : Except SchemaIssue Unit := do
  throwUnless (terms.jobId ≠ "") ⟨["jobId"]⟩
  throwUnless (terms.idempotencyKey ≠ "") ⟨["idempotencyKey"]⟩
  throwUnless (terms.objective ≠ "") ⟨["objective"]⟩
  throwUnless (terms.repositoryRoot ≠ "") ⟨["repository", "root"]⟩
  throwUnless (terms.requestedRef ≠ "") ⟨["repository", "requestedRef"]⟩
  throwUnless (isRevision terms.baseRevision) ⟨["repository", "baseRevision"]⟩
  throwUnless (terms.adapterId ≠ "") ⟨["worker", "adapterId"]⟩
  throwUnless (allNonEmpty terms.escalateWhen && terms.escalateWhen ≠ []) ⟨["escalateWhen"]⟩
  throwUnless (terms.setupCommands.all CommandSpec.accepts) ⟨["setupCommands"]⟩
  throwUnless (terms.acceptanceCommands.all CommandSpec.accepts) ⟨["acceptanceCommands"]⟩
  throwUnless (0 < terms.timeoutMs) ⟨["execution", "timeoutMs"]⟩

/-- `jobContractSchema.parse`. -/
def FrozenJob.check (contract : FrozenJob) : Except SchemaIssue Unit := do
  contract.toJobTerms.check
  contract.resources.check

/-- `FreezeJobRequestOptions`: what the caller has resolved. -/
structure FreezeOptions where
  repositoryRoot : String
  root_ne_empty : repositoryRoot ≠ ""
  baseRevision : String
  isRevision_base : isRevision baseRevision = true
  now : Timestamp
  generatedId : String
  id_ne_empty : generatedId ≠ ""
  sandboxBinding : Option SandboxBinding := none
  resourceProfile : Option OwnerResourceProfile := none

/-- `options.resourceProfile ?? DEFAULT_OWNER_RESOURCE_PROFILE`. -/
def FreezeOptions.owner (options : FreezeOptions) : OwnerResourceProfile :=
  options.resourceProfile.getD defaultOwnerResourceProfile

/-- The functions of the platform that freezing calls. -/
structure FreezeTools where
  sha : Sha256
  order : BudgetKeyOrder
  /-- `fingerprint`, of a request. -/
  fingerprint : JobRequest → String
  shortHash : String → String

/-- What freezing fails with. -/
inductive FreezeError where
  | schema (issue : SchemaIssue)
  | plain (message : String)
  deriving DecidableEq, Repr

/-- The boundary of the contract. -/
def resolveBoundary (request : BoundaryRequest) (binding : Option SandboxBinding) :
    Except FreezeError FrozenBoundary :=
  match request with
  | .hostWorktree => .ok .hostWorktree
  | .externalSandbox profileId =>
    match binding with
    | some binding =>
      if binding.profileId = profileId then .ok (.externalSandbox binding)
      else .error (.plain ("External sandbox profile was not resolved: " ++ profileId))
    | none => .error (.plain ("External sandbox profile was not resolved: " ++ profileId))

/-- The terms `freezeJobRequest` writes for a request. -/
def freezeTerms (tools : FreezeTools) (request : JobRequest) (options : FreezeOptions)
    (boundary : FrozenBoundary) : JobTerms :=
  let idempotencyKey := request.idempotencyKey.getD options.generatedId
  { jobId := "job_" ++ tools.shortHash idempotencyKey
    requestFingerprint := tools.fingerprint request
    idempotencyKey := idempotencyKey
    createdAt := options.now
    objective := request.objective
    taskClass := request.taskClass
    repositoryRoot := options.repositoryRoot
    requestedRef := request.baseRef
    baseRevision := options.baseRevision
    adapterId := request.adapterId
    workerOptions := request.adapterOptions
    scope := request.scope
    contextRefs := request.contextRefs
    constraints := request.constraints
    escalateWhen := request.escalateWhen
    setupCommands := request.setupCommands
    acceptanceCommands := request.acceptanceCommands
    timeoutMs := min request.timeoutMs (options.owner.limits .attemptTimeoutMs)
    retainWorkspace := request.retainWorkspace
    boundary := boundary }

/-- `freezeJobRequest`. -/
def freezeJobRequest (tools : FreezeTools) (input : JobRequestInput) (options : FreezeOptions) :
    Except FreezeError FrozenJob := do
  let request ← (jobRequestSchema input).mapError .schema
  let boundary ← resolveBoundary request.executionBoundary options.sandboxBinding
  let resources ← (freezeResourceBudget tools.sha tools.order options.owner
    (some request.timeoutMs)).mapError .schema
  let contract : FrozenJob :=
    { freezeTerms tools request options boundary with resources := resources }
  contract.check.mapError .schema
  return contract

/-! ### Storage -/

/-- What is stored of a contract. -/
structure StoredJob extends JobTerms where
  /-- The budget; a contract of an older version has none. -/
  resources : Option JsonObject

/-- What `reserveJob` writes for a new job. -/
def reserveJob (contract : FrozenJob) : Except SchemaIssue StoredJob := do
  contract.check
  return { contract.toJobTerms with resources := some contract.resources.stored }

/-- `resources` of a parsed contract. -/
def StoredJob.parseResources (tools : FreezeTools) (stored : StoredJob) :
    Except SchemaIssue FrozenBudget :=
  match stored.resources with
  | some object => parseBudget object
  | none => freezeResourceBudget tools.sha tools.order defaultOwnerResourceProfile none

/-- `readJob`. -/
def readJob (tools : FreezeTools) (stored : StoredJob) : Except SchemaIssue FrozenJob := do
  stored.toJobTerms.check
  let resources ← stored.parseResources tools
  assertResourceBudgetIntegrity tools.sha tools.order resources
  return { stored.toJobTerms with resources := resources }

/-! ### The claim on a request -/

/-- An accepted request, a valid owner profile, and a resolved binding if a sandbox is requested. -/
structure FreezeCase where
  input : JobRequestInput
  options : FreezeOptions
  request : JobRequest
  accepted : jobRequestSchema input = .ok request
  owner_valid : options.owner.check = .ok ()
  resolved : ∀ profileId, request.executionBoundary = .externalSandbox profileId →
    ∃ binding, options.sandboxBinding = some binding ∧ binding.profileId = profileId

/-- The stored contract has another value under a limit, and the fingerprint of the original. -/
def StoredJob.AltersLimit (tampered original : StoredJob) : Prop :=
  ∃ object object', tampered.resources = some object ∧ original.resources = some object' ∧
    object.get "profileFingerprint" = object'.get "profileFingerprint" ∧
    ∃ field : ResourceField, object.get field.key ≠ object'.get field.key

/-- **A request freezes well**: it freezes to a contract within the owner's limits, which is read back
as it was stored, and in no stored contract can a limit be altered under the same fingerprint. -/
def FreezesWell (tools : FreezeTools) (c : FreezeCase) : Prop :=
  ∃ contract, freezeJobRequest tools c.input c.options = .ok contract ∧
    (∀ field, contract.resources.limits field ≤ c.options.owner.limits field) ∧
    contract.resources.limits .attemptTimeoutMs =
      min c.request.timeoutMs (c.options.owner.limits .attemptTimeoutMs) ∧
    contract.timeoutMs = min c.request.timeoutMs (c.options.owner.limits .attemptTimeoutMs) ∧
    ∃ stored, reserveJob contract = .ok stored ∧ readJob tools stored = .ok contract ∧
      ∀ tampered : StoredJob, tampered.AltersLimit stored →
        ∃ issue, readJob tools tampered = .error issue

/-! ### Schemas -/

theorem schemaCall_eq_ok {A : Type} {x : Except SchemaIssue A} {a : A} :
    x.mapError FreezeError.schema = .ok a ↔ x = .ok a := by
  cases x <;> simp [Except.mapError]

/-- What the contract schema asks of an accepted request too. -/
structure JobRequest.Accepted (request : JobRequest) : Prop where
  objective : request.objective ≠ ""
  baseRef : request.baseRef ≠ ""
  adapterId : request.adapterId ≠ ""
  escalateWhen : allNonEmpty request.escalateWhen = true
  setupCommands : request.setupCommands.all CommandSpec.accepts = true
  acceptanceCommands : request.acceptanceCommands.all CommandSpec.accepts = true
  timeout_pos : 0 < request.timeoutMs
  idempotencyKey : ∀ key, request.idempotencyKey = some key → key ≠ ""

theorem accepted_of_jobRequestSchema {input : JobRequestInput} {request : JobRequest}
    (h : jobRequestSchema input = .ok request) : request.Accepted := by
  rw [jobRequestSchema, check_eq_ok] at h
  obtain ⟨hcheck, hrequest⟩ := h
  obtain rfl := Except.ok.inj hrequest
  simp only [JobRequest.check, check_eq_ok, throwUnless_bool_eq_ok] at hcheck
  obtain ⟨hobjective, -, hbase, hadapter, -, -, hescalate, hsetup, hacceptance, htimeout, -, hkey⟩ :=
    hcheck
  refine ⟨by simpa using hobjective, by simpa using hbase, by simpa using hadapter, hescalate, hsetup,
    hacceptance, ?_, fun key heq ↦ ?_⟩
  · simp only [Bool.and_eq_true, decide_eq_true_eq] at htimeout
    exact htimeout.1
  · rw [heq] at hkey
    simp only [Option.all_some, Bool.and_eq_true, decide_eq_true_eq] at hkey
    simpa using hkey.1

/-- The terms of an accepted request pass the contract schema unless there is nothing to escalate
at. -/
theorem freezeTerms_check {tools : FreezeTools} {request : JobRequest} {options : FreezeOptions}
    {boundary : FrozenBoundary} (hrequest : request.Accepted)
    (howner : options.owner.check = .ok ()) :
    (freezeTerms tools request options boundary).check = .ok () ↔ request.escalateWhen ≠ [] := by
  have hjobId : "job_" ++ tools.shortHash (request.idempotencyKey.getD options.generatedId) ≠ "" := by
    intro h
    have hlength := congrArg String.length h
    rw [String.length_append] at hlength
    exact absurd hlength (by simp)
  have hkey : request.idempotencyKey.getD options.generatedId ≠ "" := by
    cases hkey : request.idempotencyKey with
    | none => exact options.id_ne_empty
    | some key => exact hrequest.idempotencyKey key hkey
  have hattempt := ResourceField.accepts_iff.1 ((ownerCheck_eq_ok.1 howner).2 .attemptTimeoutMs)
  have hpos : 0 < min request.timeoutMs (options.owner.limits .attemptTimeoutMs) := by
    have hleast : (1000 : ℕ) ≤ options.owner.limits .attemptTimeoutMs := hattempt.1
    have htimeout := hrequest.timeout_pos
    omega
  simp only [JobTerms.check, check_eq_ok, throwUnless_bool_eq_ok]
  simp [freezeTerms, hjobId, hkey, hrequest.objective, options.root_ne_empty, hrequest.baseRef,
    options.isRevision_base, hrequest.adapterId, hrequest.escalateWhen, hrequest.setupCommands,
    hrequest.acceptanceCommands, hpos]
  exact decide_eq_true_iff

theorem resolveBoundary_eq_ok (c : FreezeCase) :
    ∃ boundary, resolveBoundary c.request.executionBoundary c.options.sandboxBinding = .ok boundary := by
  cases hboundary : c.request.executionBoundary with
  | hostWorktree => exact ⟨_, rfl⟩
  | externalSandbox profileId =>
    obtain ⟨binding, hbinding, hid⟩ := c.resolved profileId hboundary
    exact ⟨_, by rw [hbinding]; exact if_pos hid⟩

/-- What an accepted request freezes to. -/
theorem freezeJobRequest_eq_ok {tools : FreezeTools} {c : FreezeCase} {contract : FrozenJob} :
    freezeJobRequest tools c.input c.options = .ok contract ↔
      ∃ boundary, resolveBoundary c.request.executionBoundary c.options.sandboxBinding =
          .ok boundary ∧
        c.request.escalateWhen ≠ [] ∧ 1000 ≤ c.request.timeoutMs ∧
        contract = { freezeTerms tools c.request c.options boundary with
          resources := frozenBudget tools.sha tools.order c.options.owner
            (some c.request.timeoutMs) } := by
  have hrequest := accepted_of_jobRequestSchema c.accepted
  have hlimits := (ownerCheck_eq_ok.1 c.owner_valid).2
  have hid := (ownerCheck_eq_ok.1 c.owner_valid).1
  constructor
  · intro h
    rw [freezeJobRequest, bind_eq_ok] at h
    obtain ⟨request, hparse, h⟩ := h
    rw [schemaCall_eq_ok, c.accepted] at hparse
    obtain rfl := Except.ok.inj hparse
    obtain ⟨boundary, hboundary, h⟩ := bind_eq_ok.1 h
    obtain ⟨resources, hresources, h⟩ := bind_eq_ok.1 h
    rw [schemaCall_eq_ok, freezeResourceBudget_eq_ok c.owner_valid] at hresources
    obtain ⟨htimeout, rfl⟩ := hresources
    obtain ⟨hcheck, h⟩ := check_eq_ok.1 h
    obtain rfl := Except.ok.inj h
    rw [schemaCall_eq_ok, FrozenJob.check, check_eq_ok] at hcheck
    exact ⟨boundary, hboundary, (freezeTerms_check hrequest c.owner_valid).1 hcheck.1, htimeout, rfl⟩
  · rintro ⟨boundary, hboundary, hescalate, htimeout, rfl⟩
    rw [freezeJobRequest, bind_eq_ok]
    refine ⟨c.request, schemaCall_eq_ok.2 c.accepted, bind_eq_ok.2 ⟨boundary, hboundary,
      bind_eq_ok.2 ⟨_, schemaCall_eq_ok.2
        ((freezeResourceBudget_eq_ok c.owner_valid).2 ⟨htimeout, rfl⟩), check_eq_ok.2 ⟨?_, rfl⟩⟩⟩⟩
    rw [schemaCall_eq_ok, FrozenJob.check, check_eq_ok]
    exact ⟨(freezeTerms_check hrequest c.owner_valid).2 hescalate,
      budgetCheck_eq_ok.2 ⟨(accepts_frozenLimits hlimits _).2 htimeout, hid⟩⟩

/-! ### Reading a stored contract -/

/-- A contract is read back as it was stored. -/
theorem readJob_stored {tools : FreezeTools} {contract : FrozenJob} (hcheck : contract.check = .ok ())
    (hintegrity : assertResourceBudgetIntegrity tools.sha tools.order contract.resources = .ok ()) :
    readJob tools { contract.toJobTerms with resources := some contract.resources.stored } =
      .ok contract := by
  rw [FrozenJob.check, check_eq_ok] at hcheck
  rw [readJob, check_eq_ok]
  refine ⟨hcheck.1, bind_eq_ok.2 ⟨contract.resources, parseBudget_stored hcheck.2, ?_⟩⟩
  exact check_eq_ok.2 ⟨hintegrity, rfl⟩

/-- A stored contract with an altered limit is rejected. -/
theorem readJob_tampered {tools : FreezeTools} (owner : OwnerResourceProfile) (requested : Option ℕ)
    {tampered : StoredJob} {object : JsonObject} (hobject : tampered.resources = some object)
    (hfingerprint : object.string "profileFingerprint" =
      some (frozenBudget tools.sha tools.order owner requested).profileFingerprint)
    {field : ResourceField} (haltered : object.get field.key ≠
      (frozenBudget tools.sha tools.order owner requested).stored.get field.key) :
    ∃ issue, readJob tools tampered = .error issue := by
  cases hread : readJob tools tampered with
  | error issue => exact ⟨issue, rfl⟩
  | ok contract =>
    rw [readJob, check_eq_ok] at hread
    obtain ⟨-, hread⟩ := hread
    obtain ⟨resources, hresources, hread⟩ := bind_eq_ok.1 hread
    rw [StoredJob.parseResources, hobject] at hresources
    exact absurd (limit_of_integrity hresources hfingerprint (check_eq_ok.1 hread).1 field) haltered

/-- **A request freezes well** exactly when it lists a condition to escalate at and asks for a second
at least. -/
theorem freezesWell_iff (tools : FreezeTools) (c : FreezeCase) :
    FreezesWell tools c ↔ c.request.escalateWhen ≠ [] ∧ 1000 ≤ c.request.timeoutMs := by
  constructor
  · rintro ⟨contract, hfreeze, -⟩
    obtain ⟨-, -, hescalate, htimeout, -⟩ := freezeJobRequest_eq_ok.1 hfreeze
    exact ⟨hescalate, htimeout⟩
  · rintro ⟨hescalate, htimeout⟩
    obtain ⟨boundary, hboundary⟩ := resolveBoundary_eq_ok c
    have hrequest := accepted_of_jobRequestSchema c.accepted
    obtain ⟨hid, hlimits⟩ := ownerCheck_eq_ok.1 c.owner_valid
    set budget := frozenBudget tools.sha tools.order c.options.owner (some c.request.timeoutMs)
      with hbudget
    have hbudgetCheck : budget.check = .ok () :=
      budgetCheck_eq_ok.2 ⟨(accepts_frozenLimits hlimits _).2 htimeout, hid⟩
    set contract : FrozenJob := { freezeTerms tools c.request c.options boundary with
      resources := budget } with hcontract
    have hcheck : contract.check = .ok () :=
      check_eq_ok.2 ⟨(freezeTerms_check hrequest c.owner_valid).2 hescalate, hbudgetCheck⟩
    refine ⟨contract, freezeJobRequest_eq_ok.2 ⟨boundary, hboundary, hescalate, htimeout, rfl⟩,
      frozenLimits_le _ _, Nat.min_comm _ _, rfl,
      { contract.toJobTerms with resources := some contract.resources.stored },
      check_eq_ok.2 ⟨hcheck, rfl⟩, readJob_stored hcheck (integrity_frozenBudget hbudgetCheck), ?_⟩
    rintro tampered ⟨object, original, hobject, horiginal, hfingerprint, field, haltered⟩
    obtain rfl := Option.some.inj horiginal
    refine readJob_tampered c.options.owner (some c.request.timeoutMs) hobject ?_ haltered
    have hstored : budget.stored.get "profileFingerprint" = some (.string budget.profileFingerprint) :=
      (budget.stored.get_eq_some_iff).2 (List.mem_append_right _ (by simp))
    rw [JsonObject.string, hfingerprint]
    rw [hstored]

/-! ### Requests that do not freeze -/

/-- The order of code points. -/
def codePointOrder : BudgetKeyOrder where
  le a b := a.toList.map Char.toNat ≤ b.toList.map Char.toNat
  total a b := by
    rw [Bool.or_eq_true, decide_eq_true_eq, decide_eq_true_eq]
    exact le_total _ _
  trans a b c := by
    rw [decide_eq_true_eq, decide_eq_true_eq, decide_eq_true_eq]
    exact le_trans
  apart a _ b _ hab hba := by
    rw [decide_eq_true_eq] at hab hba
    have hcodes := le_antisymm hab hba
    exact String.toList_inj.1 (List.map_injective_iff.2 (fun _ _ h ↦ Char.toNat_inj.1 h) hcodes)

def plainTools : FreezeTools where
  sha := ⟨String.ofList, fun _ _ h ↦ String.ofList_injective h⟩
  order := codePointOrder
  fingerprint request := request.objective
  shortHash text := text

def plainOptions : FreezeOptions where
  repositoryRoot := "/repository"
  root_ne_empty := by decide
  baseRevision := "dddddddddddddddddddddddddddddddddddddddd"
  isRevision_base := by decide
  now := 0
  generatedId := "generated"
  id_ne_empty := by decide

def plainInput : JobRequestInput where
  objective := "Fix the parser"
  repositoryPath := "/repository"
  adapterId := "openai-responses"

theorem plainOptions_owner_valid : plainOptions.owner.check = .ok () :=
  ownerCheck_eq_ok.2 ⟨by decide, fun field ↦ by cases field <;> decide⟩

/-- A request that asks for half a second. -/
def shortTimeoutCase : FreezeCase where
  input := { plainInput with timeoutMs := some 500 }
  options := plainOptions
  request := JobRequestInput.withDefaults { plainInput with timeoutMs := some 500 }
  accepted := by rfl
  owner_valid := plainOptions_owner_valid
  resolved _ h := nomatch h

/-- A request that lists no condition to escalate at. -/
def noEscalationCase : FreezeCase where
  input := { plainInput with escalateWhen := some [] }
  options := plainOptions
  request := JobRequestInput.withDefaults { plainInput with escalateWhen := some [] }
  accepted := by rfl
  owner_valid := plainOptions_owner_valid
  resolved _ h := nomatch h

/-- The request schema accepts both requests, and neither freezes. -/
theorem not_freezesWell :
    ¬FreezesWell plainTools shortTimeoutCase ∧ ¬FreezesWell plainTools noEscalationCase := by
  constructor
  · rintro ⟨contract, hfreeze, -⟩
    obtain ⟨-, -, -, htimeout, -⟩ := freezeJobRequest_eq_ok.1 hfreeze
    exact absurd htimeout (by decide)
  · rintro ⟨contract, hfreeze, -⟩
    obtain ⟨-, -, hescalate, -⟩ := freezeJobRequest_eq_ok.1 hfreeze
    exact hescalate rfl

end CodeConductor
