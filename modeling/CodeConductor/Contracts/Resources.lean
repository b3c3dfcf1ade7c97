import CodeConductor.Json.Identity
import CodeConductor.Review.Packet

/-!
# Resource budgets

The owner's resource profile bounds what a job may use. `freezeResourceBudget` copies its limits into
the contract, with the attempt timeout lowered to the requested one, and seals them by a digest of
their canonical JSON. `assertResourceBudgetIntegrity` computes the digest anew from what is stored.

A digest is an uninterpreted text here: that it is 64 hexadecimal digits, which the schemas check too,
is left out.
-/

namespace CodeConductor

open StableSort

/-- The limits of `resourceLimitsSchema`. -/
inductive ResourceField where
  | attemptTimeoutMs | maxCommands | maxAttemptsPerJob | maxAutomaticRetries | maxChangedPaths
  | maxPatchBytes | maxLogBytes | maxArtifactBytes | maxWorktreeBytes | maxLineageContributions
  | maxExternalResources | gitTimeoutMs | cleanupTimeoutMs | minimumFreeDiskBytes
  | terminalRetentionMs | reviewedRetentionMs | gcProposalTtlMs
  deriving DecidableEq, Repr

namespace ResourceField

/-- The limits in the order of the schema. -/
def all : List ResourceField :=
  [attemptTimeoutMs, maxCommands, maxAttemptsPerJob, maxAutomaticRetries, maxChangedPaths,
    maxPatchBytes, maxLogBytes, maxArtifactBytes, maxWorktreeBytes, maxLineageContributions,
    maxExternalResources, gitTimeoutMs, cleanupTimeoutMs, minimumFreeDiskBytes,
    terminalRetentionMs, reviewedRetentionMs, gcProposalTtlMs]

/-- The key of a limit. -/
def key : ResourceField → String
  | attemptTimeoutMs => "attemptTimeoutMs"
  | maxCommands => "maxCommands"
  | maxAttemptsPerJob => "maxAttemptsPerJob"
  | maxAutomaticRetries => "maxAutomaticRetries"
  | maxChangedPaths => "maxChangedPaths"
  | maxPatchBytes => "maxPatchBytes"
  | maxLogBytes => "maxLogBytes"
  | maxArtifactBytes => "maxArtifactBytes"
  | maxWorktreeBytes => "maxWorktreeBytes"
  | maxLineageContributions => "maxLineageContributions"
  | maxExternalResources => "maxExternalResources"
  | gitTimeoutMs => "gitTimeoutMs"
  | cleanupTimeoutMs => "cleanupTimeoutMs"
  | minimumFreeDiskBytes => "minimumFreeDiskBytes"
  | terminalRetentionMs => "terminalRetentionMs"
  | reviewedRetentionMs => "reviewedRetentionMs"
  | gcProposalTtlMs => "gcProposalTtlMs"

/-- The least and the greatest value of a limit. -/
def range : ResourceField → ℕ × ℕ
  | attemptTimeoutMs => (1000, 86400000)
  | maxCommands => (1, 256)
  | maxAttemptsPerJob => (1, 256)
  | maxAutomaticRetries => (0, 16)
  | maxChangedPaths => (1, 10000)
  | maxPatchBytes => (1024, 1073741824)
  | maxLogBytes => (1024, 1073741824)
  | maxArtifactBytes => (1024, 10737418240)
  | maxWorktreeBytes => (1024, 1099511627776)
  | maxLineageContributions => (1, 256)
  | maxExternalResources => (0, 256)
  | gitTimeoutMs => (1000, 600000)
  | cleanupTimeoutMs => (1000, 600000)
  | minimumFreeDiskBytes => (0, 1099511627776)
  | terminalRetentionMs => (60000, 31536000000)
  | reviewedRetentionMs => (60000, 31536000000)
  | gcProposalTtlMs => (60000, 86400000)

/-- The default profile's value of a limit. -/
def default : ResourceField → ℕ
  | attemptTimeoutMs => 45 * 60 * 1000
  | maxCommands => 32
  | maxAttemptsPerJob => 16
  | maxAutomaticRetries => 1
  | maxChangedPaths => 20
  | maxPatchBytes => 5 * 1024 * 1024
  | maxLogBytes => 10 * 1024 * 1024
  | maxArtifactBytes => 50 * 1024 * 1024
  | maxWorktreeBytes => 2 * 1024 * 1024 * 1024
  | maxLineageContributions => 32
  | maxExternalResources => 32
  | gitTimeoutMs => 60000
  | cleanupTimeoutMs => 30000
  | minimumFreeDiskBytes => 1024 * 1024 * 1024
  | terminalRetentionMs => 7 * 24 * 60 * 60 * 1000
  | reviewedRetentionMs => 30 * 24 * 60 * 60 * 1000
  | gcProposalTtlMs => 15 * 60 * 1000

/-- `z.number().int().min(..).max(..)` of a limit. -/
def accepts (field : ResourceField) (value : ℕ) : Bool :=
  field.range.1 ≤ value && value ≤ field.range.2

theorem accepts_iff {field : ResourceField} {value : ℕ} :
    field.accepts value = true ↔ field.range.1 ≤ value ∧ value ≤ field.range.2 := by
  simp [accepts]

theorem mem_all (field : ResourceField) : field ∈ all := by
  cases field <;> decide

theorem key_injective : Function.Injective key := by
  have hnodup : (all.map key).Nodup := by decide
  exact fun field field' h ↦ List.inj_on_of_nodup_map hnodup (mem_all field) (mem_all field') h

end ResourceField

/-- The path of the first field a schema rejects. -/
structure SchemaIssue where
  path : List String
  deriving DecidableEq, Repr

/-- `OwnerResourceProfile`. -/
structure OwnerResourceProfile where
  profileId : String
  limits : ResourceField → ℕ

/-- `ResourceBudget`, with all its limits. -/
structure FrozenBudget where
  profileId : String
  limits : ResourceField → ℕ
  profileFingerprint : String

/-- `resourceLimitsSchema.parse`. -/
def checkLimits (limits : ResourceField → ℕ) : Except SchemaIssue Unit :=
  ResourceField.all.forM fun field ↦ throwUnless (field.accepts (limits field)) ⟨[field.key]⟩

/-- `ownerResourceProfileSchema.parse`. -/
def OwnerResourceProfile.check (profile : OwnerResourceProfile) : Except SchemaIssue Unit := do
  throwUnless (isIdentifier profile.profileId) ⟨["profileId"]⟩
  checkLimits profile.limits

/-- `resourceBudgetSchema.parse` of a budget that is not stored yet. -/
def FrozenBudget.check (budget : FrozenBudget) : Except SchemaIssue Unit := do
  checkLimits budget.limits
  throwUnless (isIdentifier budget.profileId) ⟨["profileId"]⟩

/-- `DEFAULT_OWNER_RESOURCE_PROFILE`. -/
def defaultOwnerResourceProfile : OwnerResourceProfile where
  profileId := "overnight-local-v1"
  limits := ResourceField.default

theorem checkLimits_eq_ok {limits : ResourceField → ℕ} :
    checkLimits limits = .ok () ↔
      ∀ field : ResourceField, field.accepts (limits field) = true := by
  rw [checkLimits, forM_eq_ok]
  exact ⟨fun h field ↦ throwUnless_bool_eq_ok.1 (h field field.mem_all),
    fun h field _ ↦ throwUnless_bool_eq_ok.2 (h field)⟩

/-! ### The digest of a budget -/

/-- `createHash("sha256").update(text).digest("hex")`, taken to be free of collisions. -/
structure Sha256 where
  digest : List Char → String
  injective : Function.Injective digest

/-- The keys of a budget without its fingerprint. -/
def budgetKeys : List String := "schema" :: "profileId" :: ResourceField.all.map ResourceField.key

/-- `localeCompare`, which tells the keys of a budget apart. -/
structure BudgetKeyOrder extends KeyOrder where
  apart : ∀ key ∈ budgetKeys, ∀ key' ∈ budgetKeys, le key key' = true → le key' key = true →
    key = key'

/-- The members of the limits. -/
def limitMembers (limits : ResourceField → ℕ) : List (String × JsonValue) :=
  ResourceField.all.map fun field ↦ (field.key, .number (JsonNumber.ofNat (limits field)))

def schemaMember : String × JsonValue := ("schema", .string "conductor.resource-budget/v1")

/-- `body` as `freezeResourceBudget` builds it. -/
def freezeBody (profileId : String) (limits : ResourceField → ℕ) : List (String × JsonValue) :=
  schemaMember :: ("profileId", .string profileId) :: limitMembers limits

/-- `body` as `assertResourceBudgetIntegrity` takes it from a parsed budget, whose keys come in the
order of the schema. -/
def parsedBody (profileId : String) (limits : ResourceField → ℕ) : List (String × JsonValue) :=
  limitMembers limits ++ [schemaMember, ("profileId", .string profileId)]

/-- `canonicalProfileJson`, of an object. -/
def canonicalProfileJson (order : BudgetKeyOrder) (members : List (String × JsonValue)) :
    List Char :=
  canonicalJson order.le (.object members)

/-- The limits of a frozen budget: the owner's, with the attempt timeout lowered to the requested
one. -/
def frozenLimits (profile : OwnerResourceProfile) (requestedAttemptTimeoutMs : Option ℕ) :
    ResourceField → ℕ
  | .attemptTimeoutMs =>
    min (profile.limits .attemptTimeoutMs)
      (requestedAttemptTimeoutMs.getD (profile.limits .attemptTimeoutMs))
  | field => profile.limits field

/-- `freezeResourceBudget`. -/
def freezeResourceBudget (sha : Sha256) (order : BudgetKeyOrder) (profile : OwnerResourceProfile)
    (requestedAttemptTimeoutMs : Option ℕ) : Except SchemaIssue FrozenBudget := do
  profile.check
  let limits := frozenLimits profile requestedAttemptTimeoutMs
  let budget : FrozenBudget :=
    { profileId := profile.profileId
      limits := limits
      profileFingerprint :=
        sha.digest (canonicalProfileJson order (freezeBody profile.profileId limits)) }
  budget.check
  return budget

/-- `assertResourceBudgetIntegrity`. -/
def assertResourceBudgetIntegrity (sha : Sha256) (order : BudgetKeyOrder) (budget : FrozenBudget) :
    Except SchemaIssue Unit := do
  budget.check
  let actual := sha.digest (canonicalProfileJson order (parsedBody budget.profileId budget.limits))
  throwUnless (actual = budget.profileFingerprint) ⟨["profileFingerprint"]⟩

/-! ### Stored budgets -/

/-- The natural number a JSON number is. -/
def JsonNumber.nat? (number : JsonNumber) : Option ℕ :=
  let value := Nat.ofDigitChars 10 number.text 0
  if JsonNumber.ofNat value = number then some value else none

@[simp] theorem JsonNumber.nat?_ofNat (n : ℕ) : (JsonNumber.ofNat n).nat? = some n := by
  have hvalue : Nat.ofDigitChars 10 (JsonNumber.ofNat n).text 0 = n :=
    Nat.ofDigitChars_ten_toDigits
  rw [JsonNumber.nat?, hvalue, if_pos rfl]

theorem JsonNumber.eq_ofNat_of_nat? {number : JsonNumber} {n : ℕ} (h : number.nat? = some n) :
    number = JsonNumber.ofNat n := by
  rw [JsonNumber.nat?] at h
  split at h
  · rename_i heq
    rw [← Option.some.inj h, heq]
  · exact nomatch h

theorem JsonNumber.ofNat_injective : Function.Injective JsonNumber.ofNat := by
  intro m n h
  have hnat : (JsonNumber.ofNat m).nat? = (JsonNumber.ofNat n).nat? := by rw [h]
  simpa using hnat

/-- A member that is a natural number. -/
def JsonObject.nat (object : JsonObject) (key : String) : Option ℕ :=
  match object.get key with
  | some (.number number) => number.nat?
  | _ => none

/-- The keys of a stored budget. -/
theorem budget_keys_nodup :
    (ResourceField.all.map ResourceField.key ++ ["schema", "profileId", "profileFingerprint"]).Nodup := by
  decide

/-- A budget as it is written. -/
def FrozenBudget.stored (budget : FrozenBudget) : JsonObject where
  members := limitMembers budget.limits ++
    [schemaMember, ("profileId", .string budget.profileId),
      ("profileFingerprint", .string budget.profileFingerprint)]
  nodup := by
    rw [List.map_append, limitMembers, List.map_map]
    exact budget_keys_nodup

/-- `resourceBudgetSchema.parse` of a stored budget. -/
def parseBudget (object : JsonObject) : Except SchemaIssue FrozenBudget := do
  ResourceField.all.forM fun field ↦
    throwUnless ((object.nat field.key).any field.accepts) ⟨[field.key]⟩
  throwUnless (object.string "schema" = some "conductor.resource-budget/v1") ⟨["schema"]⟩
  throwUnless ((object.string "profileId").any isIdentifier) ⟨["profileId"]⟩
  throwUnless (object.string "profileFingerprint").isSome ⟨["profileFingerprint"]⟩
  return {
    profileId := object.required "profileId"
    limits := fun field ↦ (object.nat field.key).getD 0
    profileFingerprint := object.required "profileFingerprint" }

/-! ### Freezing -/

/-- A frozen budget is within the owner's limits. -/
theorem frozenLimits_le (profile : OwnerResourceProfile) (requested : Option ℕ)
    (field : ResourceField) : frozenLimits profile requested field ≤ profile.limits field := by
  cases field with
  | attemptTimeoutMs => exact Nat.min_le_left _ _
  | _ => exact Nat.le_refl _

/-- What a valid profile freezes to is within the ranges of the schema unless the requested timeout
is too short. -/
theorem accepts_frozenLimits {profile : OwnerResourceProfile}
    (hprofile : ∀ field : ResourceField, field.accepts (profile.limits field) = true)
    (requested : ℕ) :
    (∀ field : ResourceField, field.accepts (frozenLimits profile (some requested) field) = true) ↔
      1000 ≤ requested := by
  have hattempt : 1000 ≤ profile.limits .attemptTimeoutMs ∧
      profile.limits .attemptTimeoutMs ≤ 86400000 :=
    ResourceField.accepts_iff.1 (hprofile .attemptTimeoutMs)
  have hlowered : ResourceField.attemptTimeoutMs.accepts
        (frozenLimits profile (some requested) .attemptTimeoutMs) = true ↔
      1000 ≤ min (profile.limits .attemptTimeoutMs) requested ∧
        min (profile.limits .attemptTimeoutMs) requested ≤ 86400000 :=
    ResourceField.accepts_iff
  constructor
  · intro h
    have hrequested := hlowered.1 (h .attemptTimeoutMs)
    omega
  · intro hrequested field
    cases field with
    | attemptTimeoutMs => exact hlowered.2 (by omega)
    | _ => exact hprofile _

/-- The budget `freezeResourceBudget` builds. -/
def frozenBudget (sha : Sha256) (order : BudgetKeyOrder) (profile : OwnerResourceProfile)
    (requested : Option ℕ) : FrozenBudget where
  profileId := profile.profileId
  limits := frozenLimits profile requested
  profileFingerprint := sha.digest
    (canonicalProfileJson order (freezeBody profile.profileId (frozenLimits profile requested)))

theorem ownerCheck_eq_ok {profile : OwnerResourceProfile} :
    profile.check = .ok () ↔ isIdentifier profile.profileId = true ∧
      ∀ field : ResourceField, field.accepts (profile.limits field) = true := by
  rw [OwnerResourceProfile.check, check_eq_ok, throwUnless_bool_eq_ok, checkLimits_eq_ok]

theorem budgetCheck_eq_ok {budget : FrozenBudget} :
    budget.check = .ok () ↔ (∀ field : ResourceField, field.accepts (budget.limits field) = true) ∧
      isIdentifier budget.profileId = true := by
  rw [FrozenBudget.check, check_eq_ok, throwUnless_bool_eq_ok, checkLimits_eq_ok]

variable {sha : Sha256} {order : BudgetKeyOrder}

/-- A valid profile freezes exactly when the requested timeout is at least a second. -/
theorem freezeResourceBudget_eq_ok {profile : OwnerResourceProfile} (hprofile : profile.check = .ok ())
    {requested : ℕ} {budget : FrozenBudget} :
    freezeResourceBudget sha order profile (some requested) = .ok budget ↔
      1000 ≤ requested ∧ budget = frozenBudget sha order profile (some requested) := by
  obtain ⟨hid, hlimits⟩ := ownerCheck_eq_ok.1 hprofile
  have hcheck : (frozenBudget sha order profile (some requested)).check = .ok () ↔
      1000 ≤ requested := by
    rw [budgetCheck_eq_ok, ← accepts_frozenLimits hlimits requested]
    exact and_iff_left hid
  rw [freezeResourceBudget, check_eq_ok, and_iff_right hprofile]
  change ((frozenBudget sha order profile (some requested)).check >>= fun _ ↦
    Except.ok (frozenBudget sha order profile (some requested))) = .ok budget ↔ _
  rw [check_eq_ok, hcheck, Except.ok.injEq, eq_comm (a := frozenBudget sha order profile _)]

/-! ### Writing and reading back -/

theorem get_stored_limit (budget : FrozenBudget) (field : ResourceField) :
    budget.stored.get field.key = some (.number (JsonNumber.ofNat (budget.limits field))) := by
  refine (budget.stored.get_eq_some_iff).2 (List.mem_append_left _ ?_)
  exact List.mem_map.2 ⟨field, field.mem_all, rfl⟩

theorem nat_stored_limit (budget : FrozenBudget) (field : ResourceField) :
    budget.stored.nat field.key = some (budget.limits field) := by
  rw [JsonObject.nat, get_stored_limit]
  exact JsonNumber.nat?_ofNat _

theorem string_stored {budget : FrozenBudget} {key text : String}
    (h : (key, JsonValue.string text) ∈ budget.stored.members) :
    budget.stored.string key = some text := by
  rw [JsonObject.string, (budget.stored.get_eq_some_iff).2 h]

/-- A budget that passes its schema is read back as it was written. -/
theorem parseBudget_stored {budget : FrozenBudget} (hcheck : budget.check = .ok ()) :
    parseBudget budget.stored = .ok budget := by
  obtain ⟨hlimits, hid⟩ := budgetCheck_eq_ok.1 hcheck
  have hschema : budget.stored.string "schema" = some "conductor.resource-budget/v1" :=
    string_stored (List.mem_append_right _ (by simp [schemaMember]))
  have hprofile : budget.stored.string "profileId" = some budget.profileId :=
    string_stored (List.mem_append_right _ (by simp))
  have hfingerprint : budget.stored.string "profileFingerprint" = some budget.profileFingerprint :=
    string_stored (List.mem_append_right _ (by simp))
  have hfields : (ResourceField.all.forM fun field ↦ throwUnless
      ((budget.stored.nat field.key).any field.accepts) (⟨[field.key]⟩ : SchemaIssue)) = .ok () := by
    refine forM_eq_ok.2 fun field _ ↦ throwUnless_bool_eq_ok.2 ?_
    rw [nat_stored_limit]
    exact hlimits field
  rw [parseBudget, hfields, hschema, hprofile, hfingerprint, Option.any_some, hid]
  simp only [JsonObject.required, hprofile, hfingerprint, nat_stored_limit, Option.getD_some]
  rfl

/-- What a stored budget is read as. -/
theorem of_parseBudget {object : JsonObject} {budget : FrozenBudget}
    (h : parseBudget object = .ok budget) :
    (∀ field : ResourceField, object.nat field.key = some (budget.limits field)) ∧
      object.string "profileFingerprint" = some budget.profileFingerprint := by
  rw [parseBudget, check_eq_ok, check_eq_ok, check_eq_ok, check_eq_ok] at h
  obtain ⟨hfields, -, -, hfingerprint, h⟩ := h
  obtain rfl := Except.ok.inj h
  constructor
  · intro field
    have hfield := throwUnless_bool_eq_ok.1 (forM_eq_ok.1 hfields field field.mem_all)
    cases hnat : object.nat field.key with
    | none =>
      rw [hnat] at hfield
      exact nomatch hfield
    | some n =>
      show some n = some ((object.nat field.key).getD 0)
      rw [hnat]
      rfl
  · obtain ⟨text, htext⟩ := Option.isSome_iff_exists.1 (throwUnless_bool_eq_ok.1 hfingerprint)
    show object.string "profileFingerprint" = some ((object.string "profileFingerprint").getD "")
    rw [htext]
    rfl

/-! ### Integrity -/

theorem keys_limitMembers (limits : ResourceField → ℕ) :
    (limitMembers limits).map Prod.fst = ResourceField.all.map ResourceField.key := by
  rw [limitMembers, List.map_map]
  rfl

theorem freezeBody_nodup (profileId : String) (limits : ResourceField → ℕ) :
    ((freezeBody profileId limits).map Prod.fst).Nodup := by
  have hkeys : (freezeBody profileId limits).map Prod.fst = budgetKeys := by
    rw [freezeBody, List.map_cons, List.map_cons, keys_limitMembers]
    rfl
  rw [hkeys]
  decide

theorem parsedBody_perm (profileId : String) (limits : ResourceField → ℕ) :
    (freezeBody profileId limits).Perm (parsedBody profileId limits) := by
  show ([schemaMember, ("profileId", .string profileId)] ++ limitMembers limits).Perm
    (limitMembers limits ++ [schemaMember, ("profileId", .string profileId)])
  exact List.perm_append_comm

/-- The text of a budget does not depend on the order of its keys. -/
theorem canonicalProfileJson_perm (order : BudgetKeyOrder) {members members' : List (String × JsonValue)}
    (hperm : members.Perm members') (hnodup : (members.map Prod.fst).Nodup)
    (hkeys : ∀ key ∈ members.map Prod.fst, key ∈ budgetKeys) :
    canonicalProfileJson order members = canonicalProfileJson order members' := by
  have hmap (source : List (String × JsonValue)) :
      (source.map fun member ↦ (member.1, canonicalJson order.le member.2)).map Prod.fst =
        source.map Prod.fst := by
    rw [List.map_map]
    rfl
  have hnodup' : (members'.map Prod.fst).Nodup := (hperm.map Prod.fst).nodup_iff.1 hnodup
  -- no two keys of a budget tie
  have hapart : ∀ source : List (String × JsonValue), (source.map Prod.fst).Nodup →
      (∀ key ∈ source.map Prod.fst, key ∈ budgetKeys) → ∀ a b, order.le a b = true →
      order.le b a = true → ¬[a, b].Sublist (source.map Prod.fst) := by
    intro source hsource hmem a b hab hba hpair
    have ha := hmem a (hpair.subset List.mem_cons_self)
    have hb := hmem b (hpair.subset (List.mem_cons_of_mem _ List.mem_cons_self))
    obtain rfl := order.apart a ha b hb hab hba
    exact (List.nodup_cons.1 (hsource.sublist hpair)).1 List.mem_cons_self
  have hsorted := (@sortBy_eq_iff _ _ Prod.fst order.le
    (members.map fun member ↦ (member.1, canonicalJson order.le member.2))
    (members'.map fun member ↦ (member.1, canonicalJson order.le member.2)) order.total order.trans
    ((hmap members).symm ▸ hnodup) ((hmap members').symm ▸ hnodup')).2 ⟨hperm.map _, by
      rw [hmap, hmap]
      intro a b hab hba
      exact iff_of_false (hapart members hnodup hkeys a b hab hba) (hapart members' hnodup'
        (fun key hkey ↦ hkeys key ((hperm.map Prod.fst).mem_iff.2 hkey)) a b hab hba)⟩
  rw [canonicalProfileJson, canonicalProfileJson, canonicalJson, canonicalJson, canonicalMembers_eq,
    canonicalMembers_eq]
  exact congrArg (fun sorted ↦ '{' :: commaJoin (sorted.map memberText) ++ ['}']) hsorted

theorem integrity_eq_ok {budget : FrozenBudget} :
    assertResourceBudgetIntegrity sha order budget = .ok () ↔ budget.check = .ok () ∧
      sha.digest (canonicalProfileJson order (parsedBody budget.profileId budget.limits)) =
        budget.profileFingerprint := by
  rw [assertResourceBudgetIntegrity, check_eq_ok, throwUnless_eq_ok]

/-- A frozen budget has its integrity. -/
theorem integrity_frozenBudget {profile : OwnerResourceProfile} {requested : Option ℕ}
    (hcheck : (frozenBudget sha order profile requested).check = .ok ()) :
    assertResourceBudgetIntegrity sha order (frozenBudget sha order profile requested) = .ok () := by
  refine integrity_eq_ok.2 ⟨hcheck, congrArg sha.digest ?_⟩
  have hkeys : ∀ key ∈ (freezeBody profile.profileId (frozenLimits profile requested)).map Prod.fst,
      key ∈ budgetKeys := by
    intro key hkey
    rwa [freezeBody, List.map_cons, List.map_cons, keys_limitMembers] at hkey
  exact (canonicalProfileJson_perm order (parsedBody_perm _ _) (freezeBody_nodup _ _) hkeys).symm

/-- A digest binds the limits. -/
theorem limits_of_digest_eq {profileId profileId' : String} {limits limits' : ResourceField → ℕ}
    (h : sha.digest (canonicalProfileJson order (parsedBody profileId' limits')) =
      sha.digest (canonicalProfileJson order (freezeBody profileId limits))) : limits' = limits := by
  let frozen : JsonObject := ⟨freezeBody profileId limits, freezeBody_nodup _ _⟩
  let parsed : JsonObject := ⟨parsedBody profileId' limits',
    ((parsedBody_perm profileId' limits').map Prod.fst).nodup_iff.1 (freezeBody_nodup _ _)⟩
  have htext : canonicalJson order.le parsed.value = canonicalJson order.le frozen.value :=
    sha.injective h
  funext field
  have hfrozen : frozen.get field.key = some (.number (JsonNumber.ofNat (limits field))) :=
    (frozen.get_eq_some_iff).2 (List.mem_cons_of_mem _ (List.mem_cons_of_mem _
      (List.mem_map.2 ⟨field, field.mem_all, rfl⟩)))
  have hparsed : parsed.get field.key = some (.number (JsonNumber.ofNat (limits' field))) :=
    (parsed.get_eq_some_iff).2 (List.mem_append_left _
      (List.mem_map.2 ⟨field, field.mem_all, rfl⟩))
  have hget := JsonObject.map_get_eq order.le htext field.key
  rw [hfrozen, hparsed, Option.map_some, Option.map_some, canonicalJson, canonicalJson,
    Option.some.injEq] at hget
  have hnumber : JsonNumber.ofNat (limits' field) = JsonNumber.ofNat (limits field) := by
    rw [JsonNumber.mk.injEq]
    exact hget
  exact JsonNumber.ofNat_injective hnumber

/-- **A stored budget cannot be altered** under the fingerprint it was frozen with. -/
theorem limit_of_integrity {profile : OwnerResourceProfile} {requested : Option ℕ}
    {object : JsonObject} {budget : FrozenBudget} (hparse : parseBudget object = .ok budget)
    (hfingerprint : object.string "profileFingerprint" =
      some (frozenBudget sha order profile requested).profileFingerprint)
    (hintegrity : assertResourceBudgetIntegrity sha order budget = .ok ()) (field : ResourceField) :
    object.get field.key = (frozenBudget sha order profile requested).stored.get field.key := by
  obtain ⟨hlimits, hstored⟩ := of_parseBudget hparse
  have hsame : budget.profileFingerprint =
      (frozenBudget sha order profile requested).profileFingerprint := by
    rw [hstored] at hfingerprint
    exact Option.some.inj hfingerprint
  have hdigest := (integrity_eq_ok.1 hintegrity).2
  rw [hsame] at hdigest
  have hall : budget.limits = frozenLimits profile requested := limits_of_digest_eq hdigest
  have hnat := hlimits field
  rw [hall, JsonObject.nat] at hnat
  rw [get_stored_limit]
  split at hnat
  · rename_i number hnumber
    rw [hnumber, JsonNumber.eq_ofNat_of_nat? hnat]
    rfl
  · exact nomatch hnat

end CodeConductor
