import CodeConductor.Provider.Pricing
import CodeConductor.Verification.Scope

/-!
# What goes to a provider and comes back

The request of a Responses worker, and the reading of what a provider answers: a JSON value of any shape, from
which the usage and the function calls are taken.
-/

namespace CodeConductor

/-- A JSON value. Of a number it matters whether it is an integer, and which. -/
inductive Json where
  | null
  | bool (value : Bool)
  | number (integer : Option ℤ)
  | string (value : String)
  | array (items : List Json)
  | object (fields : List (String × Json))

namespace Json

/-- `value[name]`: the last field of the name counts. -/
def field (fields : List (String × Json)) (name : String) : Option Json :=
  (fields.reverse.find? fun entry ↦ entry.1 = name).map Prod.snd

/-- `objectRecord`. -/
def objectRecord : Option Json → Option (List (String × Json))
  | some (object fields) => some fields
  | _ => none

/-- `typeof value === "string"`. -/
def text : Option Json → Option String
  | some (string value) => some value
  | _ => none

/-- `nonnegativeInteger`. -/
def nonnegativeInteger : Option Json → Option ℕ
  | some (number (some value)) =>
    if 0 ≤ value ∧ value ≤ maxSafeInteger then some value.toNat else none
  | _ => none

end Json

/-- `FunctionCall`. -/
structure FunctionCall where
  callId : String
  name : String
  arguments : String
  deriving DecidableEq, Repr

/-- `isFunctionCall`. -/
def functionCall? (value : Json) : Option FunctionCall := do
  let item ← Json.objectRecord (some value)
  let type ← Json.text (Json.field item "type")
  guard (type = "function_call")
  let callId ← Json.text (Json.field item "call_id")
  let name ← Json.text (Json.field item "name")
  let arguments ← Json.text (Json.field item "arguments")
  return { callId, name, arguments }

/-- `profile.serviceTier`. -/
inductive ServiceTier where
  | default | priority | fast
  deriving DecidableEq, Repr

/-- The text of a service tier. -/
def ServiceTier.text : ServiceTier → String
  | default => "default"
  | priority => "priority"
  | fast => "fast"

/-- `profile.reasoningEffort`. -/
inductive ReasoningEffort where
  | none | low | medium | high | xhigh | max
  deriving DecidableEq, Repr

/-- A profile `providerProfileSchema` accepts. -/
structure ProviderProfile where
  model : String
  reasoningEffort : ReasoningEffort
  serviceTier : ServiceTier
  apiKeyEnvName : String
  rateCard : ProviderRateCard
  budget : ProviderBudget
  deriving DecidableEq

/-- `OpenAIResponsesWorkerRequest`. -/
structure ProviderRequest where
  profileId : String
  profileFingerprint : String
  profile : ProviderProfile
  workspacePath : String
  allowedPaths : List String
  contextRefs : List String
  deriving DecidableEq

/-- `normalizeRelativePath`, if it does not throw. -/
def normalizeRelativePath (candidate : String) : Option String :=
  let text := portable candidate
  if candidate = "" ∨ '\x00' ∈ candidate.toList ∨ candidate.toList.head? = some '/' ∨
      isWin32Absolute candidate.toList then none
  else if (text.splitOn '/').any fun segment ↦
      segment = [] || segment = ['.'] || segment = ['.', '.'] then none
  else some (.ofList text)

/-- `addLimitation`. -/
def addLimitation (limitations : List String) (limitation : String) : List String :=
  if limitation ∈ limitations then limitations else limitations ++ [limitation]

/-- `serviceTiersMatch`. -/
def serviceTiersMatch (requested returned : String) : Bool :=
  let normalize (value : String) :=
    if value = "fast" ∨ value = "priority" then "priority" else value.toLower
  normalize requested = normalize returned

/-- `parseUsage`, with the limitations it adds. -/
def parseUsage (value : Option Json) (limitations : List String) :
    List String × Option ProviderTokenUsage :=
  match Json.objectRecord value with
  | none => (limitations, none)
  | some usage =>
    let inputDetails := Json.objectRecord (Json.field usage "input_tokens_details")
    let outputDetails := Json.objectRecord (Json.field usage "output_tokens_details")
    match Json.nonnegativeInteger (Json.field usage "input_tokens"),
        Json.nonnegativeInteger (Json.field usage "output_tokens") with
    | some inputTokens, some outputTokens =>
      let detail (details : Option (List (String × Json))) (name : String) : Option Json :=
        details.bind (Json.field · name)
      let cachedInputTokens :=
        (Json.nonnegativeInteger (detail inputDetails "cached_tokens")).getD 0
      let cacheWriteTokens :=
        (Json.nonnegativeInteger (detail inputDetails "cache_write_tokens")).getD 0
      let reasoningTokens :=
        (Json.nonnegativeInteger (detail outputDetails "reasoning_tokens")).getD 0
      let limitations :=
        if (detail inputDetails "cache_write_tokens").isNone then
          addLimitation limitations "Provider did not report cache-write tokens"
        else limitations
      let limitations :=
        if (detail outputDetails "reasoning_tokens").isNone then
          addLimitation limitations "Provider did not report reasoning tokens"
        else limitations
      if inputTokens < cachedInputTokens + cacheWriteTokens then (limitations, none)
      else (limitations,
        some ⟨inputTokens, cachedInputTokens, cacheWriteTokens, outputTokens, reasoningTokens⟩)
    | _, _ => (limitations, none)

theorem Json.le_of_nonnegativeInteger {value : Option Json} {n : ℕ}
    (h : Json.nonnegativeInteger value = some n) : n ≤ maxSafeInteger := by
  unfold nonnegativeInteger at h
  split at h
  · split at h
    · rename_i hrange
      obtain rfl := Option.some.inj h
      omega
    · exact nomatch h
  · exact nomatch h

/-- A reported usage is in the safe range, and its categories are part of the input. -/
theorem parseUsage_spec {value : Option Json} {limitations : List String}
    {usage : ProviderTokenUsage} (h : (parseUsage value limitations).2 = some usage) :
    usage.Safe ∧ usage.Categorized := by
  have hdetail (detail : Option Json) : (Json.nonnegativeInteger detail).getD 0 ≤ maxSafeInteger := by
    cases hvalue : Json.nonnegativeInteger detail with
    | none => exact Nat.zero_le _
    | some n => exact Json.le_of_nonnegativeInteger hvalue
  unfold parseUsage at h
  split at h
  · exact nomatch h
  · dsimp only at h
    split at h
    · rename_i hinput houtput
      split at h
      · exact nomatch h
      · rename_i hcategories
        obtain rfl := Option.some.inj h
        refine ⟨fun entry hentry ↦ ?_, Nat.le_of_not_lt hcategories⟩
        simp only [ProviderTokenUsage.entries, List.mem_cons, List.not_mem_nil, or_false] at hentry
        rcases hentry with rfl | rfl | rfl | rfl | rfl
        · exact Json.le_of_nonnegativeInteger hinput
        · exact hdetail _
        · exact hdetail _
        · exact Json.le_of_nonnegativeInteger houtput
        · exact hdetail _
    · exact nomatch h

end CodeConductor
