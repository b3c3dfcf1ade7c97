import CodeConductor.Provider.Run

/-!
# A run always yields evidence

`runOpenAIResponsesWorker` makes boundedly many requests, so it ends unless a body does not. Arithmetic
is what can throw: the estimate of a request before the first one, and the accumulated usage after
each response. Where both stay in the safe range, evidence is returned.
-/

namespace CodeConductor

/-- The sum of usages. -/
def totalUsage (usages : List ProviderTokenUsage) : ProviderTokenUsage :=
  usages.foldl ProviderTokenUsage.add emptyUsage

/-- The usage of a response that is accepted. -/
def ProviderResponse.reportedUsage (response : ProviderResponse) : Option ProviderTokenUsage :=
  match response.body with
  | .json (.object fields) =>
    match Json.text (Json.field fields "id"), Json.field fields "output" with
    | some _, some (.array _) => (parseUsage (Json.field fields "usage") []).2
    | _, _ => none
  | _ => none

/-- What a run may do. -/
structure ProviderRunState.Within (budget : ProviderBudget) (state : ProviderRunState) : Prop where
  requests : state.requestCount ≤ budget.maxRequests
  toolCalls : state.executed.length ≤ budget.maxToolCalls
  retries : ∀ retries ∈ state.stepRetries, retries ≤ budget.maxRetries
  usage : state.usage = totalUsage state.accepted
  counted : state.executed.length ≤ state.toolCallCount

namespace ProviderRun

variable (run : ProviderRun)

/-- The key is configured and the workspace opens. -/
def Configured : Prop :=
  ((run.environment run.profile.apiKeyEnvName).filter (· ≠ "")).isSome = true ∧
    ¬(run.workspaceRoot.isNone ∨ (run.request.contextRefs ++ run.request.allowedPaths).any
      (fun candidate ↦ (normalizeRelativePath candidate).isNone))

/-- The states the loop passes through. -/
inductive Reaches : ProviderRunState → Prop where
  | start (h : run.Configured) (hfits : requestFitsBudget run.profile emptyUsage = .ok true) :
    Reaches .initial
  | turn {state next : ProviderRunState} (h : Reaches state)
    (hturn : run.turn state = (next, none)) : Reaches next

/-- The response a pass of the loop goes on with. -/
def Receives (state : ProviderRunState) (response : ProviderResponse) : Prop :=
  state.requestCount < run.profile.budget.maxRequests ∧
    requestFitsBudget run.profile state.usage = .ok true ∧
    (run.sendProviderRequest run.profile.budget.maxRetries state).2 = .inr response

/-- Evidence is returned, after no more requests, calls and retries than the budget has, of the usage
that was accepted. -/
def Closes (state : ProviderRunState) (outcome : ProviderOutcome) : Prop :=
  ∃ evidence, outcome = .returned evidence ∧ state.Within run.profile.budget ∧
    evidence.requestCount = state.requestCount ∧ evidence.usage = totalUsage state.accepted

/-- The run ends, and closes. -/
def YieldsEvidence : Prop :=
  ∃ state outcome, run.runOpenAIResponsesWorker = some (state, outcome) ∧ run.Closes state outcome

/-- The arithmetic stays in the safe range: the estimate for one request, and, in each state of the
loop, the usage with what the next response reports; and that response has an end. -/
structure Accountable : Prop where
  estimate : run.Configured → run.profile.rateCard.Priceable
    (requestUpperBound run.profile.budget.maxInputTokens run.profile.budget.maxOutputTokens)
  responses : ∀ state, run.Reaches state → ∀ response, run.Receives state response →
    response.body ≠ .stalled ∧ ∀ usage, response.reportedUsage = some usage →
      run.profile.rateCard.Priceable (state.usage.add usage)

end ProviderRun

/-! ### Prices that exist -/

theorem ProviderRateCard.cost_emptyUsage (rateCard : ProviderRateCard) :
    rateCard.cost emptyUsage = 0 := by
  have hbase : rateCard.longContextFor emptyUsage.inputTokens = none := by
    simp [longContextFor, emptyUsage]
  rw [cost, hbase]
  simp [inputNumerator, emptyUsage, roundedPrice, divideRoundUp]

theorem ProviderRateCard.priceable_emptyUsage (rateCard : ProviderRateCard) :
    rateCard.Priceable emptyUsage :=
  ⟨by decide, by decide, rateCard.cost_emptyUsage.trans_le (Nat.zero_le _)⟩

theorem emptyUsage_add (usage : ProviderTokenUsage) : emptyUsage.add usage = usage := by
  simp [ProviderTokenUsage.add, emptyUsage]

theorem requestFitsBudget_eq_ok_iff {profile : ProviderProfile} {usage : ProviderTokenUsage}
    {fits : Bool} : requestFitsBudget profile usage = .ok fits ↔
      profile.rateCard.Priceable usage ∧ profile.rateCard.Priceable
        (requestUpperBound profile.budget.maxInputTokens profile.budget.maxOutputTokens) ∧
      fits = decide (profile.rateCard.cost usage + profile.rateCard.cost
        (requestUpperBound profile.budget.maxInputTokens profile.budget.maxOutputTokens) ≤
          profile.budget.maxCostMicroUsd) := by
  constructor
  · intro h
    obtain ⟨current, hcurrent, h⟩ := Except.exists_of_bind_eq_ok h
    obtain ⟨next, hnext, h⟩ := Except.exists_of_bind_eq_ok h
    obtain ⟨hpriceable, rfl⟩ := calculateProviderCostMicroUsd_eq_ok_iff.1 hcurrent
    obtain ⟨hestimate, rfl⟩ := calculateProviderCostMicroUsd_eq_ok_iff.1 hnext
    exact ⟨hpriceable, hestimate, (Except.ok.inj h).symm⟩
  · rintro ⟨hpriceable, hestimate, rfl⟩
    rw [requestFitsBudget, calculateProviderCostMicroUsd_of_priceable hpriceable,
      estimateProviderRequestCostMicroUsd, calculateProviderCostMicroUsd_of_priceable hestimate]
    rfl

theorem exists_error_of_not_priceable {rateCard : ProviderRateCard} {usage : ProviderTokenUsage}
    (h : ¬rateCard.Priceable usage) :
    ∃ error, calculateProviderCostMicroUsd usage rateCard = .error error := by
  cases hcost : calculateProviderCostMicroUsd usage rateCard with
  | error error => exact ⟨error, rfl⟩
  | ok cost => exact absurd (calculateProviderCostMicroUsd_eq_ok_iff.1 hcost).1 h

/-! ### A step sends -/

/-- Sending touches neither the usage nor what was executed. -/
structure ProviderRunState.SameWork (state next : ProviderRunState) : Prop where
  usage : next.usage = state.usage
  accepted : next.accepted = state.accepted
  executed : next.executed = state.executed
  toolCallCount : next.toolCallCount = state.toolCallCount
  stepRetries : next.stepRetries = state.stepRetries

theorem ProviderRunState.SameWork.refl (state : ProviderRunState) : state.SameWork state :=
  ⟨rfl, rfl, rfl, rfl, rfl⟩

theorem ProviderRunState.SameWork.trans {state middle next : ProviderRunState}
    (h : state.SameWork middle) (h' : middle.SameWork next) : state.SameWork next :=
  ⟨h'.usage.trans h.usage, h'.accepted.trans h.accepted, h'.executed.trans h.executed,
    h'.toolCallCount.trans h.toolCallCount, h'.stepRetries.trans h.stepRetries⟩

namespace ProviderRun

variable {run : ProviderRun}

/-- One request is made if the ceiling allows it, and tried again only where that is allowed. -/
theorem sendOnce_spec (mayRetry : Bool) (state : ProviderRunState) :
    state.SameWork (run.sendOnce mayRetry state).1 ∧
      (run.sendOnce mayRetry state).1.requestCount =
        (if run.profile.budget.maxRequests ≤ state.requestCount then state.requestCount
          else state.requestCount + 1) ∧
      (run.sendOnce mayRetry state).1.retryCount ≤ state.retryCount +
        (if mayRetry && (run.sendOnce mayRetry state).2.isNone then 1 else 0) := by
  unfold sendOnce
  split
  · exact ⟨.refl state, rfl, Nat.le_add_right _ _⟩
  · split
    · cases mayRetry with
      | true => exact ⟨⟨rfl, rfl, rfl, rfl, rfl⟩, rfl, Nat.le_refl _⟩
      | false => exact ⟨⟨rfl, rfl, rfl, rfl, rfl⟩, rfl, Nat.le_refl _⟩
    · rename_i response _
      dsimp only
      split
      · exact ⟨⟨rfl, rfl, rfl, rfl, rfl⟩, rfl, Nat.le_add_right _ _⟩
      · split
        · rename_i hagain
          rw [Bool.and_eq_true] at hagain
          rw [hagain.2]
          exact ⟨⟨rfl, rfl, rfl, rfl, rfl⟩, rfl, Nat.le_refl _⟩
        · exact ⟨⟨rfl, rfl, rfl, rfl, rfl⟩, rfl, Nat.le_add_right _ _⟩

/-- A step makes at least one request if the ceiling allows one, and retries within the ceiling. -/
theorem sendProviderRequest_spec (run : ProviderRun) (retries : ℕ) (state : ProviderRunState) :
    state.SameWork (run.sendProviderRequest retries state).1 ∧
      state.requestCount ≤ (run.sendProviderRequest retries state).1.requestCount ∧
      (state.requestCount ≤ run.profile.budget.maxRequests →
        (run.sendProviderRequest retries state).1.requestCount ≤
          run.profile.budget.maxRequests) ∧
      (state.requestCount < run.profile.budget.maxRequests →
        state.requestCount < (run.sendProviderRequest retries state).1.requestCount) ∧
      (run.sendProviderRequest retries state).1.retryCount ≤ state.retryCount + retries := by
  induction retries generalizing state with
  | zero =>
    obtain ⟨hsame, hrequests, hretries⟩ := run.sendOnce_spec false state
    have hstate : (run.sendProviderRequest 0 state).1 = (run.sendOnce false state).1 := by
      rw [sendProviderRequest]
      split <;> rename_i heq <;> rw [heq]
    rw [hstate]
    refine ⟨hsame, ?_, fun h ↦ ?_, fun h ↦ ?_, hretries⟩
    · rw [hrequests]
      split <;> omega
    · rw [hrequests]
      split <;> omega
    · rw [hrequests, if_neg (Nat.not_le.2 h)]
      exact Nat.lt_succ_self _
  | succ retries ih =>
    obtain ⟨hsame, hrequests, hretries⟩ := run.sendOnce_spec true state
    rw [Bool.true_and] at hretries
    rw [sendProviderRequest]
    split
    · rename_i sent result heq
      rw [heq] at hsame hrequests hretries
      dsimp only at hsame hrequests hretries ⊢
      refine ⟨hsame, ?_, fun h ↦ ?_, fun h ↦ ?_, hretries.trans (Nat.le_add_right _ _)⟩
      · rw [hrequests]
        split <;> omega
      · rw [hrequests]
        split <;> omega
      · rw [hrequests, if_neg (Nat.not_le.2 h)]
        exact Nat.lt_succ_self _
    · rename_i sent heq
      rw [heq] at hsame hrequests hretries
      dsimp only at hsame hrequests hretries ⊢
      obtain ⟨hsameRest, hmore, hboundRest, -, hretriesRest⟩ := ih sent
      have hretried : sent.retryCount ≤ state.retryCount + 1 := hretries
      refine ⟨hsame.trans hsameRest, ?_, fun h ↦ hboundRest ?_, fun h ↦ ?_, by omega⟩
      · refine le_trans ?_ hmore
        rw [hrequests]
        split <;> omega
      · rw [hrequests]
        split <;> omega
      · rw [if_neg (Nat.not_le.2 h)] at hrequests
        omega

/-! ### A step reads -/

/-- What is reported does not depend on the limitations noted before. -/
theorem parseUsage_snd (value : Option Json) (limitations limitations' : List String) :
    (parseUsage value limitations).2 = (parseUsage value limitations').2 := by
  unfold parseUsage
  split
  · rfl
  · dsimp only
    split
    · split <;> rfl
    · rfl

/-- Reading a response touches only what is noted of it. -/
theorem parseProviderResponse_sameWork (body : ResponseBody) (tier : ServiceTier)
    (state : ProviderRunState) :
    state.SameWork (parseProviderResponse body tier state).1 ∧
      (parseProviderResponse body tier state).1.requestCount = state.requestCount := by
  unfold parseProviderResponse
  split
  · split
    · dsimp only
      split
      · exact ⟨⟨rfl, rfl, rfl, rfl, rfl⟩, rfl⟩
      · exact ⟨⟨rfl, rfl, rfl, rfl, rfl⟩, rfl⟩
    · exact ⟨.refl state, rfl⟩
  · exact ⟨.refl state, rfl⟩

/-- A response that is accepted is one that reports its usage. -/
theorem reportedUsage_eq_some_iff {response : ProviderResponse} {tier : ServiceTier}
    {state : ProviderRunState} {usage : ProviderTokenUsage} :
    response.reportedUsage = some usage ↔
      ∃ output, (parseProviderResponse response.body tier state).2 = .inr (output, usage) := by
  unfold ProviderResponse.reportedUsage parseProviderResponse
  cases response.body with
  | unreadable => simp
  | stalled => simp
  | json value =>
    cases value with
    | object fields =>
      dsimp only
      cases Json.text (Json.field fields "id") with
      | none => simp
      | some id =>
        cases Json.field fields "output" with
        | none => simp
        | some output =>
          cases output with
          | array output =>
            dsimp only
            rw [parseUsage_snd _ [] (state.noteResponse tier id fields).evidenceLimitations]
            cases parseUsage (Json.field fields "usage")
                (state.noteResponse tier id fields).evidenceLimitations with
            | mk limitations parsed => cases parsed <;> simp
          | null | bool | number | string | object => simp
    | null | bool | number | string | array => simp

/-! ### A pass of the loop -/

theorem within_of_sameWork {state next : ProviderRunState} {budget : ProviderBudget}
    (h : state.Within budget) (hsame : state.SameWork next)
    (hrequests : next.requestCount ≤ budget.maxRequests) : next.Within budget := by
  refine ⟨hrequests, ?_, ?_, ?_, ?_⟩
  · exact hsame.executed ▸ h.toolCalls
  · exact hsame.stepRetries ▸ h.retries
  · rw [hsame.usage, hsame.accepted]
    exact h.usage
  · rw [hsame.executed, hsame.toolCallCount]
    exact h.counted

/-- Calls are executed within the ceiling. -/
theorem within_executeToolCalls {budget : ProviderBudget} (calls : List FunctionCall)
    {state : ProviderRunState} (h : state.Within budget) :
    (state.executeToolCalls budget.maxToolCalls calls).1.Within budget ∧
      (state.executeToolCalls budget.maxToolCalls calls).1.usage = state.usage ∧
      (state.executeToolCalls budget.maxToolCalls calls).1.requestCount = state.requestCount := by
  induction calls generalizing state with
  | nil => exact ⟨h, rfl, rfl⟩
  | cons call calls ih =>
    have hcounted := h.counted
    unfold ProviderRunState.executeToolCalls
    dsimp only
    split
    · exact ⟨⟨h.requests, h.toolCalls, h.retries, h.usage, hcounted.trans (Nat.le_succ _)⟩, rfl, rfl⟩
    · rename_i hceiling
      have hlength : (state.executed ++ [call]).length = state.executed.length + 1 :=
        List.length_append
      have hnext : ProviderRunState.Within budget { state with
          toolCallCount := state.toolCallCount + 1
          executed := state.executed ++ [call] } :=
        ⟨h.requests, by dsimp only; omega, h.retries, h.usage, by dsimp only; omega⟩
      exact ih hnext

theorem closes_evidence {state : ProviderRunState} (failure : Option ProviderFailure)
    (hwithin : state.Within run.profile.budget)
    (hpriceable : run.profile.rateCard.Priceable state.usage) :
    run.Closes state (run.evidence failure state) := by
  unfold evidence
  rw [calculateProviderCostMicroUsd_of_priceable hpriceable]
  exact ⟨_, rfl, hwithin, rfl, hwithin.usage⟩

/-- The state in which the usage of a response is counted. -/
theorem within_accept {state : ProviderRunState} {budget : ProviderBudget}
    (h : state.Within budget) (usage : ProviderTokenUsage) :
    ProviderRunState.Within budget { state with
      usage := state.usage.add usage
      accepted := state.accepted ++ [usage] } := by
  refine ⟨h.requests, h.toolCalls, h.retries, ?_, h.counted⟩
  dsimp only
  rw [h.usage, totalUsage, totalUsage, List.foldl_append]
  rfl

/-- **Accepting a response** goes on within the budget, or closes. -/
theorem acceptResponse_spec {state : ProviderRunState} (output : List Json)
    {usage : ProviderTokenUsage} (hwithin : state.Within run.profile.budget)
    (hpriceable : run.profile.rateCard.Priceable (state.usage.add usage)) :
    (∃ next outcome, run.acceptResponse output usage state = (next, some outcome) ∧
      run.Closes next outcome) ∨
    ∃ next, run.acceptResponse output usage state = (next, none) ∧
      next.Within run.profile.budget ∧ run.profile.rateCard.Priceable next.usage ∧
      next.requestCount = state.requestCount := by
  have haccepted := within_accept hwithin usage
  unfold acceptResponse
  dsimp only
  rw [calculateProviderCostMicroUsd_of_priceable hpriceable]
  dsimp only
  split
  · exact .inl ⟨_, _, rfl, closes_evidence _ haccepted hpriceable⟩
  · split
    · exact .inl ⟨_, _, rfl, closes_evidence _ haccepted hpriceable⟩
    · rename_i call calls _
      obtain ⟨hnext, husage, hrequests⟩ := within_executeToolCalls (call :: calls) haccepted
      split
      · rename_i next heq
        rw [heq] at hnext husage hrequests
        exact .inr ⟨next, rfl, hnext, husage ▸ hpriceable, hrequests⟩
      · rename_i next heq
        rw [heq] at hnext husage
        exact .inl ⟨next, _, rfl, closes_evidence _ hnext (husage ▸ hpriceable)⟩

theorem acceptResponse_of_error {state : ProviderRunState} (output : List Json)
    {usage : ProviderTokenUsage} {error : RuntimeError}
    (h : calculateProviderCostMicroUsd (state.usage.add usage) run.profile.rateCard =
      .error error) :
    run.acceptResponse output usage state =
      ({ state with usage := state.usage.add usage, accepted := state.accepted ++ [usage] },
        some (.thrown error)) := by
  unfold acceptResponse
  dsimp only
  rw [h]

/-- What is sent counts as one step. -/
theorem within_sent {state : ProviderRunState} (h : state.Within run.profile.budget) :
    let sent := (run.sendProviderRequest run.profile.budget.maxRetries state).1
    ProviderRunState.Within run.profile.budget { sent with
      stepRetries := sent.stepRetries ++ [sent.retryCount - state.retryCount] } := by
  obtain ⟨hsame, -, hrequests, -, hretries⟩ :=
    sendProviderRequest_spec run run.profile.budget.maxRetries state
  have hsent := within_of_sameWork h hsame (hrequests h.requests)
  refine ⟨hsent.requests, hsent.toolCalls, fun retries hmem ↦ ?_, hsent.usage, hsent.counted⟩
  rcases List.mem_append.1 hmem with hmem | hmem
  · exact hsent.retries retries hmem
  · rw [List.mem_singleton] at hmem
    omega

/-- **A pass of the loop** closes, or goes on within the budget after at least one more request. -/
theorem turn_spec {state : ProviderRunState} (hwithin : state.Within run.profile.budget)
    (hpriceable : run.profile.rateCard.Priceable state.usage)
    (hestimate : run.profile.rateCard.Priceable
      (requestUpperBound run.profile.budget.maxInputTokens run.profile.budget.maxOutputTokens))
    (hresponses : ∀ response, run.Receives state response → response.body ≠ .stalled ∧
      ∀ usage, response.reportedUsage = some usage →
        run.profile.rateCard.Priceable (state.usage.add usage)) :
    (∃ next outcome, run.turn state = (next, some outcome) ∧ run.Closes next outcome) ∨
    ∃ next, run.turn state = (next, none) ∧ next.Within run.profile.budget ∧
      run.profile.rateCard.Priceable next.usage ∧ state.requestCount < next.requestCount := by
  unfold turn
  split
  · exact .inl ⟨_, _, rfl, closes_evidence _ hwithin hpriceable⟩
  · rename_i hceiling
    have hfits := requestFitsBudget_eq_ok_iff.2 ⟨hpriceable, hestimate, rfl⟩
    rw [hfits]
    split
    · rename_i herror
      exact nomatch herror
    · exact .inl ⟨_, _, rfl, closes_evidence _ hwithin hpriceable⟩
    · rename_i htrue
      have hsent := within_sent hwithin
      obtain ⟨hsame, -, -, hmore, -⟩ :=
        sendProviderRequest_spec run run.profile.budget.maxRetries state
      have hmore := hmore (Nat.lt_of_not_le hceiling)
      dsimp only at hsent ⊢
      split
      · exact .inl ⟨_, _, rfl, closes_evidence _ hsent (hsame.usage ▸ hpriceable)⟩
      · rename_i response hreceived
        obtain ⟨hends, hreports⟩ := hresponses response
          ⟨Nat.lt_of_not_le hceiling, by rw [hfits, htrue], hreceived⟩
        split
        · rename_i hstalled
          exact absurd hstalled hends
        · obtain ⟨hparsedWork, hparsedRequests⟩ :=
            parseProviderResponse_sameWork response.body run.profile.serviceTier _
          have hparsed := within_of_sameWork hsent hparsedWork (hparsedRequests.trans_le hsent.requests)
          have husage := hparsedWork.usage.trans hsame.usage
          split
          · rename_i heq
            rw [heq] at hparsed husage
            exact .inl ⟨_, _, rfl, closes_evidence _ hparsed (husage ▸ hpriceable)⟩
          · rename_i parsed output usage heq
            rw [heq] at hparsed husage hparsedRequests
            have hreported := reportedUsage_eq_some_iff.2 ⟨output, congrArg Prod.snd heq⟩
            have hprice := husage ▸ hreports usage hreported
            rcases acceptResponse_spec output hparsed hprice with hclosed | ⟨next, hnext, hon⟩
            · exact .inl hclosed
            · refine .inr ⟨next, hnext, hon.1, hon.2.1, ?_⟩
              rw [hon.2.2, hparsedRequests]
              exact hmore

/-! ### The whole run -/

theorem loop_succ_of_some {state next : ProviderRunState} {outcome : ProviderOutcome}
    (h : run.turn state = (next, some outcome)) (fuel : ℕ) :
    run.loop (fuel + 1) state = some (next, outcome) := by
  rw [loop, h]

theorem loop_succ_of_none {state next : ProviderRunState} (h : run.turn state = (next, none))
    (fuel : ℕ) : run.loop (fuel + 1) state = run.loop fuel next := by
  rw [loop, h]

/-- **The loop closes**: the induction is on the passes, of which each makes a request. -/
theorem loop_spec (h : run.Accountable) (fuel : ℕ) {state : ProviderRunState}
    (hreaches : run.Reaches state) (hwithin : state.Within run.profile.budget)
    (hpriceable : run.profile.rateCard.Priceable state.usage)
    (hestimate : run.profile.rateCard.Priceable
      (requestUpperBound run.profile.budget.maxInputTokens run.profile.budget.maxOutputTokens))
    (hfuel : run.profile.budget.maxRequests < fuel + state.requestCount) :
    ∃ next outcome, run.loop fuel state = some (next, outcome) ∧ run.Closes next outcome := by
  induction fuel generalizing state with
  | zero =>
    have hrequests := hwithin.requests
    omega
  | succ fuel ih =>
    rcases turn_spec hwithin hpriceable hestimate (h.responses state hreaches) with
      ⟨next, outcome, hturn, hcloses⟩ | ⟨next, hturn, hnext, hprice, hmore⟩
    · exact ⟨next, outcome, loop_succ_of_some hturn fuel, hcloses⟩
    · rw [loop_succ_of_none hturn]
      exact ih (hreaches.turn hturn) hnext hprice (by omega)

theorem within_initial (budget : ProviderBudget) :
    ProviderRunState.Within budget .initial :=
  ⟨Nat.zero_le _, Nat.zero_le _, fun _ h ↦ absurd h List.not_mem_nil, rfl, Nat.le_refl _⟩

/-- A run that is not configured ends at once. -/
theorem runOpenAIResponsesWorker_of_not_configured (h : ¬run.Configured) :
    ∃ failure, run.runOpenAIResponsesWorker =
      some (.initial, run.evidence (some failure) .initial) := by
  unfold runOpenAIResponsesWorker
  dsimp only
  split
  · exact ⟨_, rfl⟩
  · rename_i hsecret
    split
    · exact ⟨_, rfl⟩
    · rename_i hscope
      exact absurd ⟨Option.isSome_of_eq_some hsecret, hscope⟩ h

theorem runOpenAIResponsesWorker_of_configured (h : run.Configured) :
    run.runOpenAIResponsesWorker =
      match requestFitsBudget run.profile emptyUsage with
      | .error error => some (.initial, .thrown error)
      | .ok false => some (.initial, run.evidence (some ⟨.budgetExceeded,
          "Conservative request estimate exceeds the provider budget"⟩) .initial)
      | .ok true => run.loop (run.profile.budget.maxRequests + 1) .initial := by
  obtain ⟨secret, hsecret⟩ := Option.isSome_iff_exists.1 h.1
  unfold runOpenAIResponsesWorker
  dsimp only
  rw [hsecret]
  exact (if_neg h.2).trans rfl

/-- Where the loop closes, the next response has an end, and its usage a price. -/
theorem responses_of_closes {state next : ProviderRunState} {outcome : ProviderOutcome} {fuel : ℕ}
    (hloop : run.loop fuel state = some (next, outcome)) (hcloses : run.Closes next outcome)
    (hwithin : state.Within run.profile.budget)
    (hfuel : run.profile.budget.maxRequests < fuel + state.requestCount)
    {response : ProviderResponse} (hreceives : run.Receives state response) :
    response.body ≠ .stalled ∧ ∀ usage, response.reportedUsage = some usage →
      run.profile.rateCard.Priceable (state.usage.add usage) := by
  obtain ⟨hceiling, hfits, hreceived⟩ := hreceives
  obtain ⟨evidence, rfl, -⟩ := hcloses
  have hpositive : 0 < fuel := by omega
  obtain ⟨fuel, rfl⟩ := Nat.exists_eq_succ_of_ne_zero (Nat.ne_of_gt hpositive)
  have hsent := within_sent hwithin
  constructor
  · intro hstalled
    have hturn : ∃ sent, run.turn state = (sent, some .stalled) := by
      unfold turn
      rw [if_neg (Nat.not_le.2 hceiling), hfits]
      dsimp only
      rw [hreceived]
      dsimp only
      rw [hstalled]
      exact ⟨_, rfl⟩
    obtain ⟨sent, hturn⟩ := hturn
    rw [loop_succ_of_some hturn] at hloop
    exact nomatch congrArg Prod.snd (Option.some.inj hloop)
  · intro usage husage
    by_contra hprice
    obtain ⟨error, herror⟩ := exists_error_of_not_priceable hprice
    have hturn : ∃ sent, run.turn state = (sent, some (.thrown error)) := by
      unfold turn
      rw [if_neg (Nat.not_le.2 hceiling), hfits]
      dsimp only
      rw [hreceived]
      dsimp only
      split
      · rename_i hstalled
        rw [ProviderResponse.reportedUsage, hstalled] at husage
        exact nomatch husage
      · split
        · rename_i heq
          obtain ⟨output, houtput⟩ := reportedUsage_eq_some_iff.1 husage
          exact nomatch (congrArg Prod.snd heq).symm.trans houtput
        · rename_i parsed output usage' heq
          obtain ⟨output', houtput⟩ := reportedUsage_eq_some_iff.1 husage
          obtain ⟨-, rfl⟩ := Prod.mk.inj (Sum.inr.inj ((congrArg Prod.snd heq).symm.trans houtput))
          have hparsed := (congrArg (fun p ↦ p.1.usage) heq).symm.trans
            (parseProviderResponse_sameWork _ _ _).1.usage
          have hwork : parsed.usage = state.usage :=
            hparsed.trans (sendProviderRequest_spec run _ state).1.usage
          exact ⟨_, acceptResponse_of_error output (hwork.symm ▸ herror)⟩
    obtain ⟨sent, hturn⟩ := hturn
    rw [loop_succ_of_some hturn] at hloop
    exact nomatch congrArg Prod.snd (Option.some.inj hloop)

/-- Where a run closes, so does the loop from each state it passes through. -/
theorem loop_of_reaches {next : ProviderRunState} {outcome : ProviderOutcome}
    (hrun : run.runOpenAIResponsesWorker = some (next, outcome)) (hcloses : run.Closes next outcome)
    {state : ProviderRunState} (h : run.Reaches state) :
    state.Within run.profile.budget ∧ run.profile.rateCard.Priceable state.usage ∧
      run.profile.rateCard.Priceable (requestUpperBound run.profile.budget.maxInputTokens
        run.profile.budget.maxOutputTokens) ∧ ∃ fuel, run.loop fuel state = some (next, outcome) ∧
        run.profile.budget.maxRequests < fuel + state.requestCount := by
  induction h with
  | start hconfigured hfits =>
    rw [runOpenAIResponsesWorker_of_configured hconfigured, hfits] at hrun
    exact ⟨within_initial _, run.profile.rateCard.priceable_emptyUsage,
      (requestFitsBudget_eq_ok_iff.1 hfits).2.1, _, hrun, Nat.lt_succ_self _⟩
  | turn hreaches hturn ih =>
    obtain ⟨hwithin, hpriceable, hestimate, fuel, hloop, hfuel⟩ := ih
    rcases turn_spec hwithin hpriceable hestimate
        (fun response ↦ responses_of_closes hloop hcloses hwithin hfuel) with
      ⟨_, _, hended, -⟩ | ⟨_, hon, hnext, hprice, hmore⟩
    · exact nomatch congrArg Prod.snd (hturn.symm.trans hended)
    · obtain ⟨rfl, -⟩ := Prod.mk.inj (hturn.symm.trans hon)
      refine ⟨hnext, hprice, hestimate, fuel - 1, ?_, by omega⟩
      cases fuel with
      | zero => exact nomatch hloop
      | succ fuel => rw [← hloop, loop_succ_of_none hturn, Nat.add_sub_cancel]

end ProviderRun

/-! ### A usage without a price -/

/-- The profile `luna-medium-v1` of `config/provider-profiles.example.json`. -/
def lunaMedium : ProviderProfile where
  model := "gpt-5.6-luna"
  reasoningEffort := .medium
  serviceTier := .default
  apiKeyEnvName := "OPENAI_API_KEY"
  rateCard := {
    id := "openai-standard-2026-07-30"
    uncachedInputMicroUsdPerMillion := 200000
    cachedInputMicroUsdPerMillion := 20000
    cacheWriteMicroUsdPerMillion := 250000
    outputMicroUsdPerMillion := 1200000
    longContext := some ⟨272000, 2, 1, 3, 2, by decide⟩
    safe := by decide }
  budget := ⟨24, 2, 24, 200000, 16384, 1048576, 250000, by decide⟩

/-- A response with an id, no output, and a usage. -/
def responseOf (usage : ProviderTokenUsage) : ProviderResponse where
  status := 200
  requestId := none
  body := .json (.object [("id", .string "resp"), ("output", .array []),
    ("usage", .object [("input_tokens", .number (some usage.inputTokens)),
      ("output_tokens", .number (some usage.outputTokens)),
      ("input_tokens_details", .object [("cached_tokens", .number (some usage.cachedInputTokens)),
        ("cache_write_tokens", .number (some usage.cacheWriteTokens))]),
      ("output_tokens_details",
        .object [("reasoning_tokens", .number (some usage.reasoningTokens))])])])

/-- A run of a profile in which the first response is the last. -/
def singleResponse (profile : ProviderProfile) (usage : ProviderTokenUsage) : ProviderRun where
  request := ⟨"luna", "", profile, "/workspace", [], []⟩
  environment _ := some "key"
  workspaceRoot := some "/workspace"
  startedAt := 0
  finishedAt := 0
  transport _ := .response (responseOf usage)

end CodeConductor
