import CodeConductor.Provider.Evidence

/-!
# The budget of a run

Before each request `requestFitsBudget` adds the estimate of a request at the token limits to the cost
so far. The estimate takes all input to be uncached, at the multiples that apply to the limit itself. It
bounds what a usage within the limits costs exactly when no dearer category of input, and no amount
below the long-context threshold, goes over.
-/

namespace CodeConductor

/-- The cost of a run whose usage stays within the token limits stays within the cost limit, and so
does that of all usages within the limits after a request that was let through. -/
structure BudgetBound (profile : ProviderProfile) : Prop where
  reported : ∀ run : ProviderRun, run.profile = profile → ∀ state evidence,
    run.runOpenAIResponsesWorker = some (state, .returned evidence) →
      evidence.usage.inputTokens ≤ profile.budget.maxInputTokens →
      evidence.usage.outputTokens ≤ profile.budget.maxOutputTokens →
        evidence.costMicroUsd ≤ profile.budget.maxCostMicroUsd
  admitted : ∀ usage next : ProviderTokenUsage, requestFitsBudget profile usage = .ok true →
    next.Categorized → (usage.add next).inputTokens ≤ profile.budget.maxInputTokens →
      (usage.add next).outputTokens ≤ profile.budget.maxOutputTokens →
        profile.rateCard.cost (usage.add next) ≤ profile.budget.maxCostMicroUsd

/-- Where the estimate of a request fits, so does the output limit with as much input of the dearest
category as the limit allows, and with as much as the limit and the long-context threshold do. -/
def DearestFits (profile : ProviderProfile) : Prop :=
  profile.rateCard.cost (requestUpperBound profile.budget.maxInputTokens
      profile.budget.maxOutputTokens) ≤ profile.budget.maxCostMicroUsd →
    profile.rateCard.dearestCost profile.budget.maxInputTokens profile.budget.maxOutputTokens ≤
        profile.budget.maxCostMicroUsd ∧
      ∀ longContext ∈ profile.rateCard.longContext, profile.rateCard.dearestCost
          (min longContext.thresholdInputTokens profile.budget.maxInputTokens)
          profile.budget.maxOutputTokens ≤ profile.budget.maxCostMicroUsd

/-! ### What is reported has a price -/

/-- Evidence that is returned carries the cost of its usage. -/
def ProviderOutcome.Priced (rateCard : ProviderRateCard) (outcome : ProviderOutcome) : Prop :=
  ∀ evidence, outcome = .returned evidence →
    rateCard.Priceable evidence.usage ∧ evidence.costMicroUsd = rateCard.cost evidence.usage

namespace ProviderRun

variable {run : ProviderRun}

theorem priced_evidence (failure : Option ProviderFailure) (state : ProviderRunState) :
    (run.evidence failure state).Priced run.profile.rateCard := by
  intro evidence h
  unfold ProviderRun.evidence at h
  split at h
  · exact nomatch h
  · rename_i hcost
    obtain rfl := ProviderOutcome.returned.inj h
    exact calculateProviderCostMicroUsd_eq_ok_iff.1 hcost

theorem priced_thrown (error : RuntimeError) :
    ProviderOutcome.Priced run.profile.rateCard (.thrown error) := fun _ h ↦ nomatch h

theorem priced_stalled : ProviderOutcome.Priced run.profile.rateCard .stalled :=
  fun _ h ↦ nomatch h

theorem priced_acceptResponse (output : List Json) (usage : ProviderTokenUsage)
    (state : ProviderRunState) : ∀ outcome ∈ (run.acceptResponse output usage state).2,
      outcome.Priced run.profile.rateCard := by
  unfold acceptResponse
  dsimp only
  split
  · rintro _ ⟨⟩
    exact priced_thrown _
  · split
    · rintro _ ⟨⟩
      exact priced_evidence _ _
    · split
      · rintro _ ⟨⟩
        exact priced_evidence _ _
      · split
        · exact fun _ h ↦ nomatch h
        · rintro _ ⟨⟩
          exact priced_evidence _ _

theorem priced_turn (state : ProviderRunState) :
    ∀ outcome ∈ (run.turn state).2, outcome.Priced run.profile.rateCard := by
  unfold turn
  split
  · rintro _ ⟨⟩
    exact priced_evidence _ _
  · split
    · rintro _ ⟨⟩
      exact priced_thrown _
    · rintro _ ⟨⟩
      exact priced_evidence _ _
    · dsimp only
      split
      · rintro _ ⟨⟩
        exact priced_evidence _ _
      · split
        · rintro _ ⟨⟩
          exact priced_stalled
        · split
          · rintro _ ⟨⟩
            exact priced_evidence _ _
          · exact priced_acceptResponse _ _ _

theorem priced_loop {fuel : ℕ} {state next : ProviderRunState} {outcome : ProviderOutcome}
    (h : run.loop fuel state = some (next, outcome)) : outcome.Priced run.profile.rateCard := by
  induction fuel generalizing state with
  | zero => exact nomatch h
  | succ fuel ih =>
    cases hturn : run.turn state with
    | mk middle result =>
      cases result with
      | none => exact ih (loop_succ_of_none hturn fuel ▸ h)
      | some ended =>
        rw [loop_succ_of_some hturn] at h
        obtain ⟨-, rfl⟩ := Prod.mk.inj (Option.some.inj h)
        exact priced_turn state ended (congrArg Prod.snd hturn)

/-- **Evidence carries the cost of its usage**, which is empty where the estimate did not fit. -/
theorem returned_spec {state : ProviderRunState} {evidence : ProviderEvidence}
    (h : run.runOpenAIResponsesWorker = some (state, .returned evidence)) :
    (run.profile.rateCard.Priceable evidence.usage ∧
      evidence.costMicroUsd = run.profile.rateCard.cost evidence.usage) ∧
    (evidence.usage = emptyUsage ∨ requestFitsBudget run.profile emptyUsage = .ok true) := by
  have hinitial (failure : Option ProviderFailure)
      (h : run.evidence failure .initial = .returned evidence) : evidence.usage = emptyUsage := by
    unfold ProviderRun.evidence at h
    split at h
    · exact nomatch h
    · obtain rfl := ProviderOutcome.returned.inj h
      rfl
  by_cases hconfigured : run.Configured
  · rw [runOpenAIResponsesWorker_of_configured hconfigured] at h
    split at h
    · exact nomatch congrArg Prod.snd (Option.some.inj h)
    · have hended := congrArg Prod.snd (Option.some.inj h)
      exact ⟨priced_evidence _ _ evidence hended, .inl (hinitial _ hended)⟩
    · rename_i hfits
      exact ⟨priced_loop h evidence rfl, .inr hfits⟩
  · obtain ⟨failure, hended⟩ := runOpenAIResponsesWorker_of_not_configured hconfigured
    rw [hended] at h
    have hended := congrArg Prod.snd (Option.some.inj h)
    exact ⟨priced_evidence _ _ evidence hended, .inl (hinitial _ hended)⟩

end ProviderRun

/-! ### What the dearest usage bounds -/

theorem ProviderRateCard.dearestCost_le_of_le (rateCard : ProviderRateCard) {a a' b b' : ℕ}
    (ha : a ≤ a') (hb : b ≤ b') (h : rateCard.longContextFor a = rateCard.longContextFor a') :
    rateCard.dearestCost a b ≤ rateCard.dearestCost a' b' := by
  unfold dearestCost
  rw [h]
  exact roundedPrice_le_roundedPrice (Nat.mul_le_mul_right _ ha) (Nat.mul_le_mul_right _ hb) _

theorem ProviderRateCard.longContextFor_eq (rateCard : ProviderRateCard) {longContext : LongContext}
    (h : rateCard.longContext = some longContext) (inputTokens : ℕ) :
    rateCard.longContextFor inputTokens =
      if longContext.thresholdInputTokens < inputTokens then some longContext else none := by
  rw [longContextFor, h, Option.filter]
  simp only [decide_eq_true_eq]

/-- Within the token limits nothing costs more than the dearest input does, either at the limit or at
the threshold below it. -/
theorem cost_le_of_dearest {profile : ProviderProfile} {limit : ℕ}
    (hlimit : profile.rateCard.dearestCost profile.budget.maxInputTokens
      profile.budget.maxOutputTokens ≤ limit)
    (hthreshold : ∀ longContext ∈ profile.rateCard.longContext, profile.rateCard.dearestCost
      (min longContext.thresholdInputTokens profile.budget.maxInputTokens)
      profile.budget.maxOutputTokens ≤ limit)
    {usage : ProviderTokenUsage} (hcategorized : usage.Categorized)
    (hinput : usage.inputTokens ≤ profile.budget.maxInputTokens)
    (houtput : usage.outputTokens ≤ profile.budget.maxOutputTokens) :
    profile.rateCard.cost usage ≤ limit := by
  refine (profile.rateCard.cost_le_dearestCost hcategorized).trans ?_
  cases hcontext : profile.rateCard.longContext with
  | none =>
    refine le_trans (profile.rateCard.dearestCost_le_of_le hinput houtput ?_) hlimit
    simp [ProviderRateCard.longContextFor, hcontext]
  | some longContext =>
    by_cases hlong : longContext.thresholdInputTokens < usage.inputTokens
    · -- the multiples apply to the usage, and so to the limit
      refine le_trans (profile.rateCard.dearestCost_le_of_le hinput houtput ?_) hlimit
      rw [profile.rateCard.longContextFor_eq hcontext, profile.rateCard.longContextFor_eq hcontext,
        if_pos hlong, if_pos (hlong.trans_le hinput)]
    · -- the multiples apply neither to the usage nor at the threshold
      have hle : usage.inputTokens ≤
          min longContext.thresholdInputTokens profile.budget.maxInputTokens :=
        le_min (Nat.le_of_not_lt hlong) hinput
      refine le_trans (profile.rateCard.dearestCost_le_of_le hle houtput ?_)
        (hthreshold longContext hcontext)
      rw [profile.rateCard.longContextFor_eq hcontext, profile.rateCard.longContextFor_eq hcontext,
        if_neg hlong, if_neg (Nat.not_lt.2 (min_le_left _ _))]

/-- A first request is let through where the estimate fits. -/
theorem requestFitsBudget_emptyUsage {profile : ProviderProfile} :
    requestFitsBudget profile emptyUsage = .ok true ↔
      profile.rateCard.cost (requestUpperBound profile.budget.maxInputTokens
        profile.budget.maxOutputTokens) ≤ profile.budget.maxCostMicroUsd := by
  obtain ⟨-, -, -, ⟨-, hinput⟩, ⟨-, houtput⟩, -, -, hmax⟩ := profile.budget.bounded
  rw [requestFitsBudget_eq_ok_iff, profile.rateCard.cost_emptyUsage, Nat.zero_add]
  constructor
  · rintro ⟨-, -, hfits⟩
    exact of_decide_eq_true hfits.symm
  · intro hfits
    refine ⟨profile.rateCard.priceable_emptyUsage, ⟨fun entry hentry ↦ ?_, Nat.zero_le _, ?_⟩,
      (decide_eq_true hfits).symm⟩
    · simp only [ProviderTokenUsage.entries, requestUpperBound, List.mem_cons, List.not_mem_nil,
        or_false] at hentry
      have hsafe : 1050000 ≤ maxSafeInteger := by decide
      rcases hentry with rfl | rfl | rfl | rfl | rfl <;> dsimp only <;> omega
    · have hsafe : 5000000 ≤ maxSafeInteger := by decide
      omega

/-- **The estimate bounds what a run may cost** exactly when the dearest input fits where it does. -/
theorem budgetBound_iff (profile : ProviderProfile) :
    BudgetBound profile ↔ DearestFits profile := by
  constructor
  · intro h hestimate
    have hfits := requestFitsBudget_emptyUsage.2 hestimate
    have hdearest {inputTokens : ℕ} (hinput : inputTokens ≤ profile.budget.maxInputTokens) :
        profile.rateCard.dearestCost inputTokens profile.budget.maxOutputTokens ≤
          profile.budget.maxCostMicroUsd := by
      obtain ⟨hinputTokens, houtputTokens, -, hcategorized, hcost⟩ :=
        profile.rateCard.dearestUsage_spec inputTokens profile.budget.maxOutputTokens
      rw [← hcost, ← emptyUsage_add (profile.rateCard.dearestUsage inputTokens _)]
      refine h.admitted emptyUsage _ hfits hcategorized ?_ ?_
      · rw [emptyUsage_add, hinputTokens]
        exact hinput
      · rw [emptyUsage_add, houtputTokens]
    exact ⟨hdearest le_rfl, fun longContext _ ↦ hdearest (min_le_right _ _)⟩
  · intro h
    constructor
    · rintro run rfl state evidence hrun hinput houtput
      obtain ⟨⟨hpriceable, hcost⟩, hempty | hfits⟩ := ProviderRun.returned_spec hrun
      · rw [hcost, hempty, ProviderRateCard.cost_emptyUsage]
        exact Nat.zero_le _
      · obtain ⟨hlimit, hthreshold⟩ := h (requestFitsBudget_emptyUsage.1 hfits)
        rw [hcost]
        exact cost_le_of_dearest hlimit hthreshold hpriceable.categorized hinput houtput
    · intro usage next hfits hnext hinput houtput
      obtain ⟨hpriceable, -, htrue⟩ := requestFitsBudget_eq_ok_iff.1 hfits
      have hestimate := (Nat.le_add_left _ _).trans (of_decide_eq_true htrue.symm)
      obtain ⟨hlimit, hthreshold⟩ := h hestimate
      have hcategorized : (usage.add next).Categorized := by
        have husage := hpriceable.categorized
        unfold ProviderTokenUsage.Categorized ProviderTokenUsage.add at *
        dsimp only
        omega
      exact cost_le_of_dearest hlimit hthreshold hcategorized hinput houtput

/-! ### Cache writes that go over -/

/-- `luna-medium-v1` with a cost limit that the estimate just meets. -/
def tightLuna : ProviderProfile :=
  { lunaMedium with budget := ⟨24, 2, 24, 200000, 16384, 1048576, 60000, by decide⟩ }

/-- **Cache writes go over the budget**: the token limits are kept, and the cost limit is not. -/
theorem not_budgetBound_tightLuna : ¬BudgetBound tightLuna := by
  intro h
  have hrun : (singleResponse tightLuna ⟨200000, 0, 200000, 16384, 0⟩).runOpenAIResponsesWorker.map
      (fun result ↦ match result.2 with
        | .returned evidence => (evidence.usage, evidence.costMicroUsd)
        | _ => (emptyUsage, 0)) = some (⟨200000, 0, 200000, 16384, 0⟩, 69661) := by
    decide +kernel
  obtain ⟨⟨state, outcome⟩, hended, hresult⟩ := Option.map_eq_some_iff.1 hrun
  cases outcome with
  | returned evidence =>
    obtain ⟨husage, hcost⟩ := Prod.mk.inj hresult
    have hbound := h.reported _ rfl state evidence hended (by rw [husage]; decide)
      (by rw [husage]; decide)
    rw [hcost] at hbound
    exact absurd hbound (by decide)
  | thrown error => exact absurd (show 0 = 69661 from congrArg Prod.snd hresult) (by decide)
  | stalled => exact absurd (show 0 = 69661 from congrArg Prod.snd hresult) (by decide)

end CodeConductor
