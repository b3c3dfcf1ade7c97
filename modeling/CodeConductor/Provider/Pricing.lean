import CodeConductor.Contracts.Errors
import Mathlib.Algebra.Order.Floor.Div

/-!
# What a provider charges

A rate card prices tokens in micro-USD for a million: uncached, cached and cache-write input apart, and
everything at a multiple above a long-context threshold. `calculateProviderCostMicroUsd` rounds up
once, at the end.
-/

namespace CodeConductor

/-- `rateCard.longContext`. -/
structure LongContext where
  thresholdInputTokens : ℕ
  inputMultiplierNumerator : ℕ
  inputMultiplierDenominator : ℕ
  outputMultiplierNumerator : ℕ
  outputMultiplierDenominator : ℕ
  positive : ∀ value ∈ [thresholdInputTokens, inputMultiplierNumerator,
    inputMultiplierDenominator, outputMultiplierNumerator, outputMultiplierDenominator],
    0 < value ∧ value ≤ maxSafeInteger
  deriving DecidableEq

/-- What `providerRateCardSchema` accepts. -/
structure ProviderRateCard where
  id : String
  uncachedInputMicroUsdPerMillion : ℕ
  cachedInputMicroUsdPerMillion : ℕ
  cacheWriteMicroUsdPerMillion : ℕ
  outputMicroUsdPerMillion : ℕ
  longContext : Option LongContext
  safe : ∀ value ∈ [uncachedInputMicroUsdPerMillion, cachedInputMicroUsdPerMillion,
    cacheWriteMicroUsdPerMillion, outputMicroUsdPerMillion], value ≤ maxSafeInteger
  deriving DecidableEq

/-- What `providerBudgetSchema` accepts. -/
structure ProviderBudget where
  maxRequests : ℕ
  maxRetries : ℕ
  maxToolCalls : ℕ
  maxInputTokens : ℕ
  maxOutputTokens : ℕ
  maxToolOutputBytes : ℕ
  maxCostMicroUsd : ℕ
  bounded : (0 < maxRequests ∧ maxRequests ≤ 128) ∧ maxRetries ≤ 16 ∧
    (0 < maxToolCalls ∧ maxToolCalls ≤ 1024) ∧
    (0 < maxInputTokens ∧ maxInputTokens ≤ 1050000) ∧
    (0 < maxOutputTokens ∧ maxOutputTokens ≤ 128000) ∧
    (0 < maxToolOutputBytes ∧ maxToolOutputBytes ≤ 16777216) ∧
    0 < maxCostMicroUsd ∧ maxCostMicroUsd ≤ 5000000
  deriving DecidableEq

/-- `ProviderTokenUsage`. -/
structure ProviderTokenUsage where
  inputTokens : ℕ
  cachedInputTokens : ℕ
  cacheWriteTokens : ℕ
  outputTokens : ℕ
  reasoningTokens : ℕ
  deriving DecidableEq, Repr

/-- `emptyUsage`. -/
def emptyUsage : ProviderTokenUsage := ⟨0, 0, 0, 0, 0⟩

namespace ProviderTokenUsage

/-- `Object.entries(usage)`. -/
def entries (usage : ProviderTokenUsage) : List (String × ℕ) :=
  [("inputTokens", usage.inputTokens), ("cachedInputTokens", usage.cachedInputTokens),
    ("cacheWriteTokens", usage.cacheWriteTokens), ("outputTokens", usage.outputTokens),
    ("reasoningTokens", usage.reasoningTokens)]

/-- `addUsage`. -/
def add (left right : ProviderTokenUsage) : ProviderTokenUsage where
  inputTokens := left.inputTokens + right.inputTokens
  cachedInputTokens := left.cachedInputTokens + right.cachedInputTokens
  cacheWriteTokens := left.cacheWriteTokens + right.cacheWriteTokens
  outputTokens := left.outputTokens + right.outputTokens
  reasoningTokens := left.reasoningTokens + right.reasoningTokens

/-- The categories of input are part of it. -/
def Categorized (usage : ProviderTokenUsage) : Prop :=
  usage.cachedInputTokens + usage.cacheWriteTokens ≤ usage.inputTokens

instance (usage : ProviderTokenUsage) : Decidable usage.Categorized :=
  inferInstanceAs (Decidable (_ ≤ _))

/-- All counts are in the safe range. -/
def Safe (usage : ProviderTokenUsage) : Prop := ∀ entry ∈ usage.entries, entry.2 ≤ maxSafeInteger

instance (usage : ProviderTokenUsage) : Decidable usage.Safe :=
  inferInstanceAs (Decidable (∀ entry ∈ usage.entries, entry.2 ≤ maxSafeInteger))

end ProviderTokenUsage

/-- `assertUsage`. -/
def assertUsage (usage : ProviderTokenUsage) : Except RuntimeError Unit :=
  match usage.entries.find? fun entry ↦ maxSafeInteger < entry.2 with
  | some entry => .error (.plain ("Provider usage " ++ entry.1 ++
      " must be a non-negative integer"))
  | none =>
    if usage.inputTokens < usage.cachedInputTokens + usage.cacheWriteTokens then
      .error (.plain "Provider input usage categories exceed total input tokens")
    else .ok ()

/-- `divideRoundUp`. -/
def divideRoundUp (numerator denominator : ℕ) : ℕ := (numerator + denominator - 1) / denominator

/-- The rounded price of input and output, at the multiples of `longContext` if it applies. -/
def roundedPrice (inputNumerator outputNumerator : ℕ) (longContext : Option LongContext) : ℕ :=
  let inputMultiplierNumerator := longContext.elim 1 LongContext.inputMultiplierNumerator
  let inputMultiplierDenominator := longContext.elim 1 LongContext.inputMultiplierDenominator
  let outputMultiplierNumerator := longContext.elim 1 LongContext.outputMultiplierNumerator
  let outputMultiplierDenominator := longContext.elim 1 LongContext.outputMultiplierDenominator
  divideRoundUp
    (inputNumerator * inputMultiplierNumerator * outputMultiplierDenominator +
      outputNumerator * outputMultiplierNumerator * inputMultiplierDenominator)
    (1000000 * inputMultiplierDenominator * outputMultiplierDenominator)

namespace ProviderRateCard

variable (rateCard : ProviderRateCard)

/-- The multiples that apply to a usage of so much input. -/
def longContextFor (inputTokens : ℕ) : Option LongContext :=
  rateCard.longContext.filter fun longContext ↦ longContext.thresholdInputTokens < inputTokens

/-- The price of the input, before multiples. -/
def inputNumerator (usage : ProviderTokenUsage) : ℕ :=
  let uncachedInputTokens := usage.inputTokens - usage.cachedInputTokens - usage.cacheWriteTokens
  uncachedInputTokens * rateCard.uncachedInputMicroUsdPerMillion +
    usage.cachedInputTokens * rateCard.cachedInputMicroUsdPerMillion +
    usage.cacheWriteTokens * rateCard.cacheWriteMicroUsdPerMillion

/-- The cost of a usage. -/
def cost (usage : ProviderTokenUsage) : ℕ :=
  roundedPrice (rateCard.inputNumerator usage)
    (usage.outputTokens * rateCard.outputMicroUsdPerMillion)
    (rateCard.longContextFor usage.inputTokens)

end ProviderRateCard

/-- `calculateProviderCostMicroUsd`. -/
def calculateProviderCostMicroUsd (usage : ProviderTokenUsage) (rateCard : ProviderRateCard) :
    Except RuntimeError ℕ := do
  assertUsage usage
  if maxSafeInteger < rateCard.cost usage then
    throw (.plain "Provider cost exceeds the safe integer range")
  return rateCard.cost usage

/-- The usage `estimateProviderRequestCostMicroUsd` prices. -/
def requestUpperBound (inputTokenUpperBound maxOutputTokens : ℕ) : ProviderTokenUsage :=
  ⟨inputTokenUpperBound, 0, 0, maxOutputTokens, 0⟩

/-- `estimateProviderRequestCostMicroUsd`. -/
def estimateProviderRequestCostMicroUsd (inputTokenUpperBound maxOutputTokens : ℕ)
    (rateCard : ProviderRateCard) : Except RuntimeError ℕ :=
  calculateProviderCostMicroUsd (requestUpperBound inputTokenUpperBound maxOutputTokens) rateCard

/-- The usage can be priced: counts and cost are in the safe range. -/
structure ProviderRateCard.Priceable (rateCard : ProviderRateCard) (usage : ProviderTokenUsage) :
    Prop where
  safe : usage.Safe
  categorized : usage.Categorized
  cost_le : rateCard.cost usage ≤ maxSafeInteger

/-! ### What is priced -/

theorem assertUsage_eq_ok_iff {usage : ProviderTokenUsage} {u : Unit} :
    assertUsage usage = .ok u ↔ usage.Safe ∧ usage.Categorized := by
  unfold assertUsage
  split
  · rename_i entry hentry
    refine iff_of_false nofun fun h ↦ ?_
    have hle := h.1 _ (List.mem_of_find?_eq_some hentry)
    have hlt := List.find?_some hentry
    exact absurd (of_decide_eq_true hlt) (Nat.not_lt.2 hle)
  · rename_i hnone
    have hsafe : usage.Safe := fun entry hentry ↦ by
      have hnot := List.find?_eq_none.1 hnone entry hentry
      simpa using hnot
    split
    · rename_i hcategories
      exact iff_of_false nofun fun h ↦ Nat.not_le.2 hcategories h.2
    · rename_i hcategories
      exact iff_of_true rfl ⟨hsafe, Nat.le_of_not_lt hcategories⟩

/-- A usage is priced if it can be, at its cost. -/
theorem calculateProviderCostMicroUsd_eq_ok_iff {usage : ProviderTokenUsage}
    {rateCard : ProviderRateCard} {cost : ℕ} :
    calculateProviderCostMicroUsd usage rateCard = .ok cost ↔
      rateCard.Priceable usage ∧ cost = rateCard.cost usage := by
  unfold calculateProviderCostMicroUsd
  constructor
  · intro h
    obtain ⟨_, hassert, h⟩ := Except.exists_of_bind_eq_ok h
    obtain ⟨hsafe, hcategorized⟩ := assertUsage_eq_ok_iff.1 hassert
    dsimp only at h
    split at h
    · exact nomatch h
    · rename_i hcost
      exact ⟨⟨hsafe, hcategorized, Nat.le_of_not_lt hcost⟩, (Except.ok.inj h).symm⟩
  · rintro ⟨⟨hsafe, hcategorized, hcost⟩, rfl⟩
    have hassert : assertUsage usage = .ok () := assertUsage_eq_ok_iff.2 ⟨hsafe, hcategorized⟩
    rw [hassert]
    dsimp only [Bind.bind, Except.bind]
    rw [if_neg (Nat.not_lt.2 hcost)]
    rfl

theorem calculateProviderCostMicroUsd_of_priceable {usage : ProviderTokenUsage}
    {rateCard : ProviderRateCard} (h : rateCard.Priceable usage) :
    calculateProviderCostMicroUsd usage rateCard = .ok (rateCard.cost usage) :=
  calculateProviderCostMicroUsd_eq_ok_iff.2 ⟨h, rfl⟩

/-! ### Prices compare -/

theorem divideRoundUp_eq_ceilDiv (numerator denominator : ℕ) :
    divideRoundUp numerator denominator = numerator ⌈/⌉ denominator :=
  (Nat.ceilDiv_eq_add_pred_div _ _).symm

theorem divideRoundUp_le_divideRoundUp {numerator numerator' : ℕ} (h : numerator ≤ numerator')
    (denominator : ℕ) : divideRoundUp numerator denominator ≤ divideRoundUp numerator' denominator :=
  Nat.div_le_div_right (by omega)

theorem roundedPrice_le_roundedPrice {a a' b b' : ℕ} (ha : a ≤ a') (hb : b ≤ b')
    (longContext : Option LongContext) :
    roundedPrice a b longContext ≤ roundedPrice a' b' longContext := by
  unfold roundedPrice
  dsimp only
  refine divideRoundUp_le_divideRoundUp ?_ _
  gcongr

namespace ProviderRateCard

variable (rateCard : ProviderRateCard)

/-- The dearest of the three input rates. -/
def dearestInputRate : ℕ :=
  max (max rateCard.uncachedInputMicroUsdPerMillion rateCard.cachedInputMicroUsdPerMillion)
    rateCard.cacheWriteMicroUsdPerMillion

/-- What so much input and output costs if all the input is of the dearest category. -/
def dearestCost (inputTokens outputTokens : ℕ) : ℕ :=
  roundedPrice (inputTokens * rateCard.dearestInputRate)
    (outputTokens * rateCard.outputMicroUsdPerMillion) (rateCard.longContextFor inputTokens)

theorem inputNumerator_le {usage : ProviderTokenUsage} (h : usage.Categorized) :
    rateCard.inputNumerator usage ≤ usage.inputTokens * rateCard.dearestInputRate := by
  have huncached : rateCard.uncachedInputMicroUsdPerMillion ≤ rateCard.dearestInputRate :=
    (le_max_left _ _).trans (le_max_left _ _)
  have hcached : rateCard.cachedInputMicroUsdPerMillion ≤ rateCard.dearestInputRate :=
    (le_max_right _ _).trans (le_max_left _ _)
  have hwrite : rateCard.cacheWriteMicroUsdPerMillion ≤ rateCard.dearestInputRate :=
    le_max_right _ _
  have hsum : usage.inputTokens - usage.cachedInputTokens - usage.cacheWriteTokens +
      usage.cachedInputTokens + usage.cacheWriteTokens = usage.inputTokens := by
    unfold ProviderTokenUsage.Categorized at h
    omega
  unfold inputNumerator
  dsimp only
  calc _ ≤ (usage.inputTokens - usage.cachedInputTokens - usage.cacheWriteTokens) *
          rateCard.dearestInputRate + usage.cachedInputTokens * rateCard.dearestInputRate +
          usage.cacheWriteTokens * rateCard.dearestInputRate := by gcongr
    _ = usage.inputTokens * rateCard.dearestInputRate := by
      rw [← Nat.add_mul, ← Nat.add_mul, hsum]

/-- No usage costs more than its dearest category would. -/
theorem cost_le_dearestCost {usage : ProviderTokenUsage} (h : usage.Categorized) :
    rateCard.cost usage ≤ rateCard.dearestCost usage.inputTokens usage.outputTokens :=
  roundedPrice_le_roundedPrice (rateCard.inputNumerator_le h) le_rfl _

/-- All the input of the dearest category. -/
def dearestUsage (inputTokens outputTokens : ℕ) : ProviderTokenUsage :=
  if rateCard.dearestInputRate = rateCard.cacheWriteMicroUsdPerMillion then
    ⟨inputTokens, 0, inputTokens, outputTokens, 0⟩
  else if rateCard.dearestInputRate = rateCard.cachedInputMicroUsdPerMillion then
    ⟨inputTokens, inputTokens, 0, outputTokens, 0⟩
  else ⟨inputTokens, 0, 0, outputTokens, 0⟩

theorem dearestUsage_spec (inputTokens outputTokens : ℕ) :
    (rateCard.dearestUsage inputTokens outputTokens).inputTokens = inputTokens ∧
      (rateCard.dearestUsage inputTokens outputTokens).outputTokens = outputTokens ∧
      (rateCard.dearestUsage inputTokens outputTokens).reasoningTokens = 0 ∧
      (rateCard.dearestUsage inputTokens outputTokens).Categorized ∧
      rateCard.cost (rateCard.dearestUsage inputTokens outputTokens) =
        rateCard.dearestCost inputTokens outputTokens := by
  unfold dearestUsage
  split
  · rename_i hwrite
    refine ⟨rfl, rfl, rfl, by simp [ProviderTokenUsage.Categorized], ?_⟩
    simp [cost, dearestCost, inputNumerator, hwrite]
  · split
    · rename_i hcached
      refine ⟨rfl, rfl, rfl, by simp [ProviderTokenUsage.Categorized], ?_⟩
      simp [cost, dearestCost, inputNumerator, hcached]
    · rename_i hwrite hcached
      have huncached : rateCard.dearestInputRate = rateCard.uncachedInputMicroUsdPerMillion := by
        unfold dearestInputRate at hwrite hcached ⊢
        omega
      refine ⟨rfl, rfl, rfl, by simp [ProviderTokenUsage.Categorized], ?_⟩
      simp [cost, dearestCost, inputNumerator, huncached]

end ProviderRateCard

end CodeConductor
