import CodeConductor.Provider.Request

/-!
# A Responses worker run

`runOpenAIResponsesWorker` asks the provider, step by step, until it answers without a function call.
The provider is a sequence of answers, one for each request made; of the tools only which calls are
executed matters here, since what they return goes into later requests only.
-/

namespace CodeConductor

/-- The body of a response. -/
inductive ResponseBody where
  | json (value : Json)
  /-- `response.json()` throws. -/
  | unreadable
  /-- The body never ends. -/
  | stalled

/-- A response. -/
structure ProviderResponse where
  status : ℕ
  /-- The header `x-request-id`. -/
  requestId : Option String
  body : ResponseBody

/-- What a request comes to: `failure` if the transport fails or the timer aborts it. -/
inductive ProviderAnswer where
  | failure
  | response (response : ProviderResponse)

/-- `FailureKind`. -/
inductive ProviderFailureKind where
  | invalidRequest | missingSecret | budgetExceeded | providerError | malformedResponse | toolError
  deriving DecidableEq, Repr

/-- `failure`. -/
structure ProviderFailure where
  kind : ProviderFailureKind
  message : String
  deriving DecidableEq, Repr

/-- `RunState`, with what was executed, the retries of each step and the accepted usages. -/
structure ProviderRunState where
  requestIds : List String
  responseIds : List String
  returnedModels : List String
  returnedServiceTiers : List String
  /-- The requests made. -/
  requestCount : ℕ
  retryCount : ℕ
  toolCallCount : ℕ
  usage : ProviderTokenUsage
  evidenceLimitations : List String
  executed : List FunctionCall
  stepRetries : List ℕ
  accepted : List ProviderTokenUsage
  deriving DecidableEq, Repr

/-- `OpenAIResponsesRunEvidence`. -/
structure ProviderEvidence where
  profileId : String
  profileFingerprint : String
  requestedModel : String
  returnedModels : List String
  reasoningEffort : ReasoningEffort
  requestedServiceTier : ServiceTier
  returnedServiceTiers : List String
  rateCardId : String
  requestIds : List String
  responseIds : List String
  requestCount : ℕ
  retryCount : ℕ
  toolCallCount : ℕ
  durationMs : ℕ
  usage : ProviderTokenUsage
  costMicroUsd : ℕ
  maxCostMicroUsd : ℕ
  evidenceLimitations : List String
  /-- `status` is `failed` if there is one, `completed` else. -/
  failure : Option ProviderFailure
  deriving DecidableEq, Repr

/-- How a run ends, if it ends: it returns evidence or throws. -/
inductive ProviderOutcome where
  | returned (evidence : ProviderEvidence)
  | thrown (error : RuntimeError)
  /-- It waits for a body without end. -/
  | stalled
  deriving DecidableEq, Repr

/-- A run: the request and all that comes from outside. -/
structure ProviderRun where
  request : ProviderRequest
  environment : String → Option String
  /-- `realpathSync(request.workspacePath)`, if it does not throw. -/
  workspaceRoot : Option String
  startedAt : ℤ
  finishedAt : ℤ
  /-- What the n-th request comes to. -/
  transport : ℕ → ProviderAnswer

/-- `response.ok`. -/
def ProviderResponse.ok (response : ProviderResponse) : Bool :=
  200 ≤ response.status && response.status ≤ 299

/-- `transientStatuses`, and the server's errors. -/
def ProviderResponse.transient (response : ProviderResponse) : Bool :=
  response.status ∈ [408, 409, 429] || 500 ≤ response.status

/-- `requestFitsBudget`. -/
def requestFitsBudget (profile : ProviderProfile) (usage : ProviderTokenUsage) :
    Except RuntimeError Bool := do
  let current ← calculateProviderCostMicroUsd usage profile.rateCard
  let next ← estimateProviderRequestCostMicroUsd profile.budget.maxInputTokens
    profile.budget.maxOutputTokens profile.rateCard
  return current + next ≤ profile.budget.maxCostMicroUsd

namespace ProviderRunState

/-- The state a run begins in. -/
def initial : ProviderRunState :=
  ⟨[], [], [], [], 0, 0, 0, emptyUsage, [], [], [], []⟩

/-- `state.requestCount += 1`. -/
def countRequest (state : ProviderRunState) : ProviderRunState :=
  { state with requestCount := state.requestCount + 1 }

/-- `state.retryCount += 1`. -/
def countRetry (state : ProviderRunState) : ProviderRunState :=
  { state with retryCount := state.retryCount + 1 }

/-- `if (requestId) state.requestIds.push(requestId)`. -/
def noteRequestId (state : ProviderRunState) (response : ProviderResponse) : ProviderRunState :=
  { state with
    requestIds := state.requestIds ++ (response.requestId.filter (· ≠ "")).toList }

/-- The id, the model and the service tier of a response. -/
def noteResponse (state : ProviderRunState) (requestedServiceTier : ServiceTier)
    (id : String) (fields : List (String × Json)) : ProviderRunState :=
  let returnedModels := match Json.text (Json.field fields "model") with
    | some model =>
      if model ∈ state.returnedModels then state.returnedModels else state.returnedModels ++ [model]
    | none => state.returnedModels
  let tier := (Json.text (Json.field fields "service_tier")).filter (· ≠ "")
  { state with
    responseIds := state.responseIds ++ [id]
    returnedModels
    returnedServiceTiers := match tier with
      | some tier =>
        if tier ∈ state.returnedServiceTiers then state.returnedServiceTiers
        else state.returnedServiceTiers ++ [tier]
      | none => state.returnedServiceTiers
    evidenceLimitations := match tier with
      | some tier =>
        if serviceTiersMatch requestedServiceTier.text tier then state.evidenceLimitations
        else addLimitation state.evidenceLimitations
          "Provider response reported a different service tier than requested"
      | none =>
        addLimitation state.evidenceLimitations "Provider did not report its service tier" }

/-- The calls of one response, and whether they stay below the ceiling. -/
def executeToolCalls (maxToolCalls : ℕ) :
    List FunctionCall → ProviderRunState → ProviderRunState × Bool
  | [], state => (state, true)
  | call :: calls, state =>
    let counted := { state with toolCallCount := state.toolCallCount + 1 }
    if maxToolCalls < counted.toolCallCount then (counted, false)
    else executeToolCalls maxToolCalls calls { counted with executed := counted.executed ++ [call] }

end ProviderRunState

/-- `parseProviderResponse`. -/
def parseProviderResponse (body : ResponseBody) (requestedServiceTier : ServiceTier)
    (state : ProviderRunState) :
    ProviderRunState × (ProviderFailure ⊕ List Json × ProviderTokenUsage) :=
  match body with
  | .json (.object fields) =>
    match Json.text (Json.field fields "id"), Json.field fields "output" with
    | some id, some (.array output) =>
      let noted := state.noteResponse requestedServiceTier id fields
      match parseUsage (Json.field fields "usage") noted.evidenceLimitations with
      | (limitations, some usage) =>
        ({ noted with evidenceLimitations := limitations }, .inr (output, usage))
      | (limitations, none) =>
        ({ noted with evidenceLimitations := limitations },
          .inl ⟨.malformedResponse, "Provider response is missing valid usage"⟩)
    | _, _ =>
      (state, .inl ⟨.malformedResponse, "Provider response is missing an id or output array"⟩)
  | _ => (state, .inl ⟨.malformedResponse, "Provider response is not a JSON object"⟩)

namespace ProviderRun

variable (run : ProviderRun)

/-- The profile of the request. -/
def profile : ProviderProfile := run.request.profile

/-- `evidence`, which throws if the usage has no price. -/
def evidence (failure : Option ProviderFailure) (state : ProviderRunState) : ProviderOutcome :=
  match calculateProviderCostMicroUsd state.usage run.profile.rateCard with
  | .error error => .thrown error
  | .ok costMicroUsd => .returned {
      profileId := run.request.profileId
      profileFingerprint := run.request.profileFingerprint
      requestedModel := run.profile.model
      returnedModels := state.returnedModels
      reasoningEffort := run.profile.reasoningEffort
      requestedServiceTier := run.profile.serviceTier
      returnedServiceTiers := state.returnedServiceTiers
      rateCardId := run.profile.rateCard.id
      requestIds := state.requestIds
      responseIds := state.responseIds
      requestCount := state.requestCount
      retryCount := state.retryCount
      toolCallCount := state.toolCallCount
      durationMs := (run.finishedAt - run.startedAt).toNat
      usage := state.usage
      costMicroUsd
      maxCostMicroUsd := run.profile.budget.maxCostMicroUsd
      evidenceLimitations := state.evidenceLimitations
      failure }

/-- One pass of the loop of `sendProviderRequest`: the result, unless it is tried again. -/
def sendOnce (mayRetry : Bool) (state : ProviderRunState) :
    ProviderRunState × Option (ProviderFailure ⊕ ProviderResponse) :=
  if run.profile.budget.maxRequests ≤ state.requestCount then
    (state, some (.inl ⟨.budgetExceeded, "Request count ceiling reached during retries"⟩))
  else
    match run.transport state.requestCount with
    | .failure =>
      if mayRetry then (state.countRequest.countRetry, none)
      else (state.countRequest,
        some (.inl ⟨.providerError, "Provider request failed after bounded retries"⟩))
    | .response response =>
      let noted := state.countRequest.noteRequestId response
      if response.ok then (noted, some (.inr response))
      else if response.transient && mayRetry then (noted.countRetry, none)
      else (noted, some (.inl ⟨.providerError,
        "Provider returned HTTP " ++ toString response.status ++ "; body omitted"⟩))

/-- `sendProviderRequest`, with so many retries left. -/
def sendProviderRequest : ℕ → ProviderRunState →
    ProviderRunState × (ProviderFailure ⊕ ProviderResponse)
  | 0, state =>
    match run.sendOnce false state with
    | (state, some result) => (state, result)
    | (state, none) => (state, .inl ⟨.providerError, "Provider retry loop ended"⟩)
  | retries + 1, state =>
    match run.sendOnce true state with
    | (state, some result) => (state, result)
    | (state, none) => sendProviderRequest retries state

/-- The usage of an accepted response is added, priced and compared with the budget; then the calls of
the response are executed. -/
def acceptResponse (output : List Json) (usage : ProviderTokenUsage) (state : ProviderRunState) :
    ProviderRunState × Option ProviderOutcome :=
  let state := { state with
    usage := state.usage.add usage
    accepted := state.accepted ++ [usage] }
  match calculateProviderCostMicroUsd state.usage run.profile.rateCard with
  | .error error => (state, some (.thrown error))
  | .ok actualCost =>
    let budget := run.profile.budget
    if budget.maxInputTokens < state.usage.inputTokens ∨
        budget.maxOutputTokens < state.usage.outputTokens ∨
        budget.maxCostMicroUsd < actualCost then
      (state, some (run.evidence (some ⟨.budgetExceeded,
        "Reported provider usage exceeds the owner budget"⟩) state))
    else
      match output.filterMap functionCall? with
      | [] => (state, some (run.evidence none state))
      | call :: calls =>
        match state.executeToolCalls budget.maxToolCalls (call :: calls) with
        | (state, true) => (state, none)
        | (state, false) => (state, some (run.evidence (some ⟨.budgetExceeded,
            "Tool call ceiling reached before mutation"⟩) state))

/-- One pass of the loop: the next state, and the outcome if the run ends. -/
def turn (state : ProviderRunState) : ProviderRunState × Option ProviderOutcome :=
  if run.profile.budget.maxRequests ≤ state.requestCount then
    (state, some (run.evidence (some ⟨.budgetExceeded,
      "Request count ceiling reached before completion"⟩) state))
  else
    match requestFitsBudget run.profile state.usage with
    | .error error => (state, some (.thrown error))
    | .ok false => (state, some (run.evidence (some ⟨.budgetExceeded,
        "Continuation request would exceed the provider budget"⟩) state))
    | .ok true =>
      let sent := run.sendProviderRequest run.profile.budget.maxRetries state
      let counted := { sent.1 with
        stepRetries := sent.1.stepRetries ++ [sent.1.retryCount - state.retryCount] }
      match sent.2 with
      | .inl failure => (counted, some (run.evidence (some failure) counted))
      | .inr response =>
        match response.body with
        | .stalled => (counted, some .stalled)
        | body =>
          match parseProviderResponse body run.profile.serviceTier counted with
          | (parsed, .inl failure) => (parsed, some (run.evidence (some failure) parsed))
          | (parsed, .inr (output, usage)) => run.acceptResponse output usage parsed

/-- The loop, for so many passes. -/
def loop : ℕ → ProviderRunState → Option (ProviderRunState × ProviderOutcome)
  | 0, _ => none
  | fuel + 1, state =>
    match run.turn state with
    | (state, some outcome) => some (state, outcome)
    | (state, none) => loop fuel state

/-- `runOpenAIResponsesWorker`: the last state and the outcome. -/
def runOpenAIResponsesWorker : Option (ProviderRunState × ProviderOutcome) :=
  let ended (failure : ProviderFailure) : Option (ProviderRunState × ProviderOutcome) :=
    some (.initial, run.evidence (some failure) .initial)
  match (run.environment run.profile.apiKeyEnvName).filter (· ≠ "") with
  | none => ended ⟨.missingSecret, "API key is not configured"⟩
  | some _ =>
    if run.workspaceRoot.isNone ∨ (run.request.contextRefs ++ run.request.allowedPaths).any
        (fun candidate ↦ (normalizeRelativePath candidate).isNone) then
      ended ⟨.invalidRequest, "Workspace or positive path scope is invalid"⟩
    else
      match requestFitsBudget run.profile emptyUsage with
      | .error error => some (.initial, .thrown error)
      | .ok false => ended ⟨.budgetExceeded,
          "Conservative request estimate exceeds the provider budget"⟩
      | .ok true => run.loop (run.profile.budget.maxRequests + 1) .initial

end ProviderRun

end CodeConductor
