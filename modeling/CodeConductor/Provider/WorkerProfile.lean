import CodeConductor.Order.InsertionMap
import CodeConductor.Provider.Invocation

/-!
# The sealed profile of a worker

`captureWorkerExecutionProfile` records what a worker ran with: the executable, the files its adapter
declares, and every argument of the command line that is an absolute path. Each is looked up on the
host. A file goes into the profile with its size and digest, and what cannot be read leaves a reason
that makes the attempt unresolved.

The objective, the context references, the constraints and the escalation rules of a job stand on the
command line as they are. One that begins like an absolute path is taken for a harness file. So what a
job says changes the profile exactly when it names other files (`textCannotSteer_iff`).
-/

namespace CodeConductor

open InsertionMap StableSort

/-- What a file of a profile is. -/
inductive EvidenceRole where
  | executable | harness | configuration
  deriving DecidableEq, Repr

/-- The text of a role. -/
def EvidenceRole.text : EvidenceRole → String
  | executable => "executable"
  | harness => "harness"
  | configuration => "configuration"

/-- An entry of `files`. -/
structure ProfileFile where
  role : EvidenceRole
  path : String
  size : ℕ
  sha256 : String
  deriving DecidableEq, Repr

/-- `WorkerProfileEvidence`, the fields the capture decides by. -/
structure WorkerProfileEvidence where
  files : List (EvidenceRole × String)
  modelSelector : Option String
  unresolvedReasons : List String := []

/-- `WorkerExecutionProfile["status"]`. -/
inductive ProfileStatus where
  | complete | unresolved
  deriving DecidableEq, Repr

/-- The fields of a profile that decide whether the attempt is eligible. -/
structure CapturedProfile where
  status : ProfileStatus
  unresolvedReasons : List String
  files : List ProfileFile
  deriving DecidableEq, Repr

/-- A text unless it is blank. -/
def nonBlank (text : Option String) : Option String := text.filter fun text ↦ trimText text ≠ ""

/-- The reasons found before a file is looked at. -/
def earlyReasons (declared : Except String WorkerProfileEvidence) (requestedModel : Option String)
    (modelRequired : Bool) : List String :=
  let failed := match declared with
    | .error message => ["Adapter profile evidence failed: " ++ message]
    | .ok evidence => evidence.unresolvedReasons
  let jobModelSelector := nonBlank requestedModel
  let declaredModelSelector := match declared with
    | .error _ => none
    | .ok evidence => (nonBlank evidence.modelSelector).map trimText
  let disagreement :=
    if declaredModelSelector.isSome ∧ jobModelSelector.isSome ∧
        declaredModelSelector ≠ jobModelSelector then
      ["The adapter model selector disagrees with the job model selector"]
    else []
  let missing :=
    if modelRequired ∧ (declaredModelSelector.or jobModelSelector) = none then
      ["Neither the job nor the sealed adapter profile bound an explicit model selector"]
    else []
  failed ++ disagreement ++ missing

namespace Host

variable (host : Host)

/-- The paths a command line names. -/
def absoluteTargets (arguments : List String) : List String :=
  (arguments.filter host.isAbsolute).map host.resolve

/-- The candidates in the order they are set. -/
def candidateSettings (invocation : ProcessInvocation) (files : List (EvidenceRole × String)) :
    List (String × EvidenceRole) :=
  (host.resolve invocation.executable, .executable) ::
    ((host.absoluteTargets invocation.args).map (·, .harness) ++
      files.map fun file ↦ (host.resolve file.2, file.1))

/-- The entry of a candidate that is a file. -/
def profileFile? (candidate : String × EvidenceRole) : Option ProfileFile :=
  match host.stat candidate.1, host.sha256File candidate.1 with
  | .ok (some size), .ok sha256 => some ⟨candidate.2, candidate.1, size, sha256⟩
  | _, _ => none

/-- The reason a candidate leaves. -/
def unresolvedReason? (candidate : String × EvidenceRole) : Option String :=
  match host.stat candidate.1 with
  | .ok none =>
    if candidate.2 = .harness then none
    else some (candidate.2.text ++ " evidence is not a file: " ++ candidate.1)
  | .ok (some _) =>
    (errorOf (host.sha256File candidate.1)).map fun message ↦
      candidate.2.text ++ " evidence is unreadable at " ++ (candidate.1 ++ ": " ++ message)
  | .error message =>
    some (candidate.2.text ++ " evidence is unreadable at " ++ (candidate.1 ++ ": " ++ message))

/-- `captureWorkerExecutionProfile`. -/
def captureWorkerExecutionProfile (order : KeyOrder) (modelRequired : Bool)
    (requestedModel : Option String) (declared : Except String WorkerProfileEvidence)
    (invocation : ProcessInvocation) : CapturedProfile :=
  let files := match declared with
    | .error _ => []
    | .ok evidence => evidence.files
  let candidates := sortBy Prod.fst order.le (setAll (host.candidateSettings invocation files))
  let reasons := earlyReasons declared requestedModel modelRequired ++
    candidates.filterMap host.unresolvedReason?
  let unresolvedReasons := sortStrings reasons.eraseDups
  { status := if unresolvedReasons = [] then .complete else .unresolved
    unresolvedReasons := unresolvedReasons
    files := candidates.filterMap host.profileFile? }

end Host

/-- `profileEvidence`. -/
def OpenAIResponsesAdapter.profileEvidence {host : Host} (adapter : OpenAIResponsesAdapter host)
    (contract : FrozenJob) : Except String WorkerProfileEvidence := do
  let profileId ← validateProfileSelection contract.workerOptions
  let profile ← adapter.selectProfile profileId
  return {
    files := [(.harness, adapter.runnerPath), (.configuration, adapter.profilesFile.getD "")]
    modelSelector := some profile.model }

/-- The profile `executeAttempt` captures. -/
def OpenAIResponsesAdapter.workerProfile {host : Host} (adapter : OpenAIResponsesAdapter host)
    (order : KeyOrder) (contract : FrozenJob) (workspacePath : String)
    (attemptContext : Option WorkerAttemptContext) : Except String CapturedProfile := do
  let invocation ← adapter.buildInvocation contract workspacePath attemptContext
  return host.captureWorkerExecutionProfile order true (contract.workerOptions.string "model")
    (adapter.profileEvidence contract) invocation

/-! ### Free text -/

/-- What a job author may write freely; `jobContractSchema` asks for an objective, and for conditions
to escalate at. -/
structure FreeText where
  objective : String
  contextRefs : List String
  constraints : List String
  escalateWhen : List String
  objective_ne : objective ≠ ""
  escalateWhen_ne : escalateWhen ≠ []
  nonEmpty : allNonEmpty escalateWhen = true

/-- The texts in the order of the command line. -/
def FreeText.texts (text : FreeText) : List String :=
  text.objective :: (text.contextRefs ++ text.constraints ++ text.escalateWhen)

/-- The contract with other free text. -/
def ParsedJob.withText (contract : ParsedJob) (text : FreeText) : ParsedJob where
  val :=
    { contract.1 with
      objective := text.objective
      contextRefs := text.contextRefs
      constraints := text.constraints
      escalateWhen := text.escalateWhen }
  property := by
    have hcheck := contract.2
    simp only [FrozenJob.check, JobTerms.check, check_eq_ok, throwUnless_bool_eq_ok] at hcheck ⊢
    obtain ⟨⟨hjob, hkey, -, hroot, href, hrevision, hadapter, -, hrest⟩, hresources⟩ := hcheck
    refine ⟨⟨hjob, hkey, by simpa using text.objective_ne, hroot, href, hrevision, hadapter, ?_,
      hrest⟩, hresources⟩
    rw [text.nonEmpty, Bool.true_and]
    exact decide_eq_true text.escalateWhen_ne

/-- A contract and a workspace for which the adapter builds an invocation. -/
structure ProfileCase (host : Host) where
  adapter : OpenAIResponsesAdapter host
  order : KeyOrder
  contract : ParsedJob
  workspacePath : String
  attemptContext : Option WorkerAttemptContext
  builds : ∃ invocation,
    adapter.buildInvocation contract.1 workspacePath attemptContext = .ok invocation

/-- The profile captured for the contract with the given text. -/
def ProfileCase.profileOf {host : Host} (c : ProfileCase host) (text : FreeText) :
    Except String CapturedProfile :=
  c.adapter.workerProfile c.order (c.contract.withText text).1 c.workspacePath c.attemptContext

/-- **Text cannot steer the profile**: two contracts that differ in their text have one status, the
same reasons and the same files. -/
def TextCannotSteer {host : Host} (c : ProfileCase host) (text text' : FreeText) : Prop :=
  c.profileOf text = c.profileOf text'

/-! ### Sorted texts -/

/-- The code units of a character. -/
private def unitsOf (c : Char) : List ℕ :=
  if c.toNat < 0x10000 then [c.toNat]
  else [0xD800 + (c.toNat - 0x10000) / 0x400, 0xDC00 + (c.toNat - 0x10000) % 0x400]

/-- A character can be read off its code units; surrogates are no characters. -/
private theorem unitsOf_splits {c c' : Char} {rest rest' : List ℕ}
    (h : unitsOf c ++ rest = unitsOf c' ++ rest') : c = c' ∧ rest = rest' := by
  have hvalid (c : Char) : c.toNat < 0xD800 ∨ 0xDFFF < c.toNat ∧ c.toNat < 0x110000 := c.valid
  have hc := hvalid c
  have hc' := hvalid c'
  rw [unitsOf, unitsOf] at h
  split_ifs at h with hsmall hsmall' hsmall'
  · obtain ⟨hhead, hrest⟩ := List.cons.inj h
    exact ⟨Char.toNat_inj.1 hhead, hrest⟩
  · obtain ⟨hhead, -⟩ := List.cons.inj h
    omega
  · obtain ⟨hhead, -⟩ := List.cons.inj h
    omega
  · obtain ⟨hhead, htail⟩ := List.cons.inj h
    obtain ⟨hlow, hrest⟩ := List.cons.inj htail
    exact ⟨Char.toNat_inj.1 (by omega), hrest⟩

theorem codeUnits_injective : Function.Injective codeUnits := by
  have hlist : ∀ text text' : List Char, text.flatMap unitsOf = text'.flatMap unitsOf →
      text = text' := by
    intro text
    induction text with
    | nil =>
      intro text' h
      cases text' with
      | nil => rfl
      | cons c' text' =>
        rw [List.flatMap_cons, unitsOf] at h
        split at h <;> exact nomatch h
    | cons c text ih =>
      intro text' h
      cases text' with
      | nil =>
        rw [List.flatMap_cons, unitsOf] at h
        split at h <;> exact nomatch h
      | cons c' text' =>
        obtain ⟨rfl, hrest⟩ := unitsOf_splits h
        rw [ih text' hrest]
  exact fun text text' h ↦ String.toList_inj.1 (hlist _ _ h)

theorem nodup_eraseDups (texts : List String) : texts.eraseDups.Nodup := by
  have hkeys := nodup_keys_setAll (texts.map (·, ()))
  have hmap : (texts.map (·, ())).map Prod.fst = texts := by
    rw [List.map_map]
    exact List.map_id texts
  rwa [keys_setAll, hmap] at hkeys

/-- `[...new Set(texts)].sort()` depends on which texts there are. -/
theorem sortStrings_eraseDups_eq_iff {texts texts' : List String} :
    sortStrings texts.eraseDups = sortStrings texts'.eraseDups ↔
      ∀ text, text ∈ texts ↔ text ∈ texts' := by
  constructor
  · intro h text
    rw [← List.mem_eraseDups, ← mem_sortStrings, h, mem_sortStrings, List.mem_eraseDups]
  · intro h
    have hperm : texts.eraseDups.Perm texts'.eraseDups :=
      (List.perm_ext_iff_of_nodup (nodup_eraseDups _) (nodup_eraseDups _)).2 fun text ↦ by
        rw [List.mem_eraseDups, List.mem_eraseDups, h]
    have hsorted (source : List String) :
        (sortStrings source).Pairwise fun a b ↦ decide (codeUnits a ≤ codeUnits b) = true :=
      List.pairwise_mergeSort
        (fun a b c ↦ by
          rw [decide_eq_true_eq, decide_eq_true_eq, decide_eq_true_eq]
          exact le_trans)
        (fun a b ↦ by
          rw [Bool.or_eq_true, decide_eq_true_eq, decide_eq_true_eq]
          exact le_total _ _) source
    refine List.Perm.eq_of_pairwise (fun a b _ _ hab hba ↦ ?_) (hsorted _) (hsorted _)
      ((List.mergeSort_perm _ _).trans (hperm.trans (List.mergeSort_perm _ _).symm))
    exact codeUnits_injective (le_antisymm (of_decide_eq_true hab) (of_decide_eq_true hba))

/-! ### Candidates -/

namespace Host

variable (host : Host)

/-- The candidate shows in a profile: it is a file, or cannot be read. -/
def Shows (path : String) : Prop := host.stat path ≠ .ok none

/-- The path is a file that can be read. -/
def isReadable (path : String) : Bool := (host.profileFile? (path, .harness)).isSome

variable {host}

theorem isReadable_eq (candidate : String × EvidenceRole) :
    host.isReadable candidate.1 = (host.profileFile? candidate).isSome := by
  rw [isReadable, profileFile?, profileFile?]
  dsimp only
  split <;> rfl

theorem shows_of_isReadable {path : String} (h : host.isReadable path = true) : host.Shows path := by
  intro hstat
  rw [isReadable, profileFile?] at h
  dsimp only at h
  rw [hstat] at h
  exact nomatch h

/-- The files of a profile, and the candidates they come from. -/
theorem map_profileFiles (candidates : List (String × EvidenceRole)) :
    (candidates.filterMap host.profileFile?).map (fun file ↦ (file.path, file.role)) =
      candidates.filter fun candidate ↦ host.isReadable candidate.1 := by
  induction candidates with
  | nil => rfl
  | cons candidate rest ih =>
    rw [List.filterMap_cons, List.filter_cons, isReadable_eq]
    cases hfile : host.profileFile? candidate with
    | none => exact ih
    | some file =>
      have hsame : (file.path, file.role) = candidate := by
        rw [profileFile?] at hfile
        split at hfile
        · rw [← Option.some.inj hfile]
        · exact nomatch hfile
      show (file.path, file.role) :: _ = candidate :: _
      rw [hsame, ih]

theorem profileFiles_filter (candidates : List (String × EvidenceRole)) :
    (candidates.filter fun candidate ↦ host.isReadable candidate.1).filterMap host.profileFile? =
      candidates.filterMap host.profileFile? := by
  induction candidates with
  | nil => rfl
  | cons candidate rest ih =>
    rw [List.filter_cons, isReadable_eq, List.filterMap_cons]
    cases hfile : host.profileFile? candidate with
    | none => exact ih
    | some file =>
      show (candidate :: _).filterMap host.profileFile? = file :: _
      rw [List.filterMap_cons, hfile, ih]

/-- Profiles have the same files exactly when the candidates that are files are the same. -/
theorem profileFiles_eq_iff {candidates candidates' : List (String × EvidenceRole)} :
    candidates.filterMap host.profileFile? = candidates'.filterMap host.profileFile? ↔
      (candidates.filter fun candidate ↦ host.isReadable candidate.1) =
        candidates'.filter fun candidate ↦ host.isReadable candidate.1 := by
  constructor
  · intro h
    rw [← map_profileFiles, ← map_profileFiles, h]
  · intro h
    rw [← profileFiles_filter, h, profileFiles_filter]

/-- The reason of a candidate begins with its role. -/
theorem head_unresolvedReason {candidate : String × EvidenceRole} {reason : String}
    (h : host.unresolvedReason? candidate = some reason) :
    reason.toList.head? = candidate.2.text.toList.head? := by
  have hnonempty : candidate.2.text.toList ≠ [] := by
    cases candidate.2 <;> decide
  obtain ⟨c, rest, htext⟩ := List.exists_cons_of_ne_nil hnonempty
  obtain ⟨tail, rfl⟩ : ∃ tail, reason = candidate.2.text ++ tail := by
    rw [unresolvedReason?] at h
    split at h
    · split at h
      · exact nomatch h
      · exact ⟨_, (Option.some.inj h).symm.trans String.append_assoc⟩
    · obtain ⟨message, -, rfl⟩ := Option.map_eq_some_iff.1 h
      exact ⟨_, String.append_assoc⟩
    · exact ⟨_, (Option.some.inj h).symm.trans String.append_assoc⟩
  rw [String.toList_append, htext]
  rfl

/-- So candidates with one reason have one role. -/
theorem role_of_unresolvedReason {candidate candidate' : String × EvidenceRole} {reason : String}
    (h : host.unresolvedReason? candidate = some reason)
    (h' : host.unresolvedReason? candidate' = some reason) : candidate.2 = candidate'.2 := by
  have hroles : ∀ role role' : EvidenceRole, role.text.toList.head? = role'.text.toList.head? →
      role = role' := by
    intro role role'
    cases role <;> cases role' <;> decide
  exact hroles _ _ ((head_unresolvedReason h).symm.trans (head_unresolvedReason h'))

/-- The reason of a harness names its path. -/
theorem path_of_unresolvedReason {path path' reason : String}
    (h : host.unresolvedReason? (path, .harness) = some reason)
    (h' : host.unresolvedReason? (path', .harness) = some reason) : path = path' := by
  have hmessage (path : String) (h : host.unresolvedReason? (path, .harness) = some reason) :
      ∃ message, (errorOf (host.stat path) = some message ∨
          errorOf (host.sha256File path) = some message) ∧
        reason = EvidenceRole.harness.text ++ " evidence is unreadable at " ++
          (path ++ ": " ++ message) := by
    rw [unresolvedReason?] at h
    dsimp only at h
    split at h
    · exact nomatch h
    · obtain ⟨message, hmessage, rfl⟩ := Option.map_eq_some_iff.1 h
      exact ⟨message, .inr hmessage, rfl⟩
    · rename_i message hstat
      refine ⟨message, .inl ?_, (Option.some.inj h).symm⟩
      rw [hstat]
      rfl
  obtain ⟨message, herror, rfl⟩ := hmessage path h
  obtain ⟨message', herror', heq⟩ := hmessage path' h'
  refine host.messages_apart path path' message message' herror herror' ?_
  have hcancel (lead rest rest' : String) (h : lead ++ rest = lead ++ rest') : rest = rest' := by
    have hlist := congrArg String.toList h
    rw [String.toList_append, String.toList_append] at hlist
    exact String.toList_inj.1 (List.append_cancel_left hlist)
  exact hcancel _ _ _ heq

/-! ### The profile of a command line -/

/-- The role of a path in a profile: the configuration is set last, and the executable first. -/
def roleOf (executable configuration : String) (targets : List String) (path : String) :
    Option EvidenceRole :=
  if path = configuration then some .configuration
  else if path ∈ targets then some .harness
  else if path = executable then some .executable
  else none

variable (host) in
/-- The files of a profile in the order in which their paths were first set. -/
def readablePaths (executable : String) (targets : List String) : List String :=
  (executable :: targets).eraseDups.filter host.isReadable

variable (host) in
/-- **Two command lines show the same files**: they name the same paths among the executable and the
paths that show, and name files that tie in the same order. -/
structure ShowSame (order : KeyOrder) (executable : String) (targets targets' : List String) :
    Prop where
  mem_iff : ∀ path, path = executable ∨ host.Shows path → (path ∈ targets ↔ path ∈ targets')
  ties : TiesAgree order.le (host.readablePaths executable targets)
    (host.readablePaths executable targets')

section Capture

variable {invocation invocation' : ProcessInvocation} {runner file : String}

theorem lastSet_candidateSettings
    (hrunner : host.resolve runner ∈ host.absoluteTargets invocation.args) (path : String) :
    lastSet (host.candidateSettings invocation [(.harness, runner), (.configuration, file)]) path =
      roleOf (host.resolve invocation.executable) (host.resolve file)
        (host.absoluteTargets invocation.args) path := by
  have hdeclared : lastSet [(host.resolve runner, EvidenceRole.harness),
      (host.resolve file, EvidenceRole.configuration)] path =
      if host.resolve file = path then some .configuration
      else if host.resolve runner = path then some .harness else none :=
    (lastSet_concat [_] _ _).trans (if_congr Iff.rfl rfl (lastSet_concat [] _ _))
  have hexecutable : lastSet [(host.resolve invocation.executable, EvidenceRole.executable)] path =
      if host.resolve invocation.executable = path then some .executable else none :=
    lastSet_concat [] _ _
  rw [candidateSettings, ← List.singleton_append, lastSet_append, lastSet_append, lastSet_const,
    List.map_cons, List.map_singleton, hdeclared, hexecutable, roleOf]
  by_cases hfile : path = host.resolve file
  · rw [if_pos hfile.symm, if_pos hfile]
    rfl
  rw [if_neg (Ne.symm hfile), if_neg hfile]
  by_cases htarget : path ∈ host.absoluteTargets invocation.args
  · rw [if_pos htarget, if_pos htarget]
    split <;> rfl
  · have hother : host.resolve runner ≠ path := fun heq ↦ htarget (heq ▸ hrunner)
    rw [if_neg hother, if_neg htarget, if_neg htarget, if_congr eq_comm rfl rfl]
    rfl

/-- The declared files are named on the command line. -/
theorem keys_candidateSettings (hrunner : host.resolve runner ∈ host.absoluteTargets invocation.args)
    (hfile : host.resolve file ∈ host.absoluteTargets invocation.args) :
    (setAll (host.candidateSettings invocation
        [(.harness, runner), (.configuration, file)])).map Prod.fst =
      (host.resolve invocation.executable :: host.absoluteTargets invocation.args).eraseDups := by
  have hmap : (host.candidateSettings invocation
        [(.harness, runner), (.configuration, file)]).map Prod.fst =
      (host.resolve invocation.executable :: host.absoluteTargets invocation.args) ++
        [host.resolve runner, host.resolve file] := by
    simp [candidateSettings, Function.comp_def]
  have hnone : [host.resolve runner, host.resolve file].removeAll
      (host.resolve invocation.executable :: host.absoluteTargets invocation.args) = [] := by
    simp [List.removeAll, hrunner, hfile]
  rw [keys_setAll, hmap, List.eraseDups_append, hnone]
  exact List.append_nil _

variable (order : KeyOrder)

theorem mem_candidates (hrunner : host.resolve runner ∈ host.absoluteTargets invocation.args)
    {candidate : String × EvidenceRole} :
    candidate ∈ sortBy Prod.fst order.le (setAll (host.candidateSettings invocation
        [(.harness, runner), (.configuration, file)])) ↔
      roleOf (host.resolve invocation.executable) (host.resolve file)
        (host.absoluteTargets invocation.args) candidate.1 = some candidate.2 := by
  rw [(sortBy_perm _ _ _).mem_iff, ← lastSet_candidateSettings hrunner]
  exact mem_setAll

/-- One list of files comes of two command lines exactly when each readable path has one role, and
files that tie stand in the same order. -/
theorem profileFiles_candidates_eq_iff
    (hrunner : host.resolve runner ∈ host.absoluteTargets invocation.args)
    (hrunner' : host.resolve runner ∈ host.absoluteTargets invocation'.args)
    (hfile : host.resolve file ∈ host.absoluteTargets invocation.args)
    (hfile' : host.resolve file ∈ host.absoluteTargets invocation'.args) :
    (sortBy Prod.fst order.le (setAll (host.candidateSettings invocation
        [(.harness, runner), (.configuration, file)]))).filterMap host.profileFile? =
      (sortBy Prod.fst order.le (setAll (host.candidateSettings invocation'
        [(.harness, runner), (.configuration, file)]))).filterMap host.profileFile? ↔
    (∀ path, host.isReadable path = true →
      roleOf (host.resolve invocation.executable) (host.resolve file)
          (host.absoluteTargets invocation.args) path =
        roleOf (host.resolve invocation'.executable) (host.resolve file)
          (host.absoluteTargets invocation'.args) path) ∧
    TiesAgree order.le
      (host.readablePaths (host.resolve invocation.executable)
        (host.absoluteTargets invocation.args))
      (host.readablePaths (host.resolve invocation'.executable)
        (host.absoluteTargets invocation'.args)) := by
  have hkeys (settings : List (String × EvidenceRole)) :
      ((setAll settings).filter fun candidate ↦ host.isReadable candidate.1).map Prod.fst =
        ((setAll settings).map Prod.fst).filter host.isReadable := by
    rw [List.filter_map]
    rfl
  have hnodup (settings : List (String × EvidenceRole)) :
      (((setAll settings).filter fun candidate ↦ host.isReadable candidate.1).map Prod.fst).Nodup := by
    rw [hkeys]
    exact (nodup_keys_setAll settings).filter _
  rw [profileFiles_eq_iff,
    filter_sortBy order.total order.trans host.isReadable (nodup_keys_setAll _),
    filter_sortBy order.total order.trans host.isReadable (nodup_keys_setAll _),
    sortBy_eq_iff order.total order.trans (hnodup _) (hnodup _), hkeys, hkeys,
    keys_candidateSettings hrunner hfile, keys_candidateSettings hrunner' hfile',
    List.perm_ext_iff_of_nodup (hnodup _).of_map (hnodup _).of_map]
  refine and_congr ⟨fun h path hreadable ↦ Option.ext fun role ↦ ?_, fun h candidate ↦ ?_⟩ Iff.rfl
  · have hcandidate := h (path, role)
    rw [List.mem_filter, List.mem_filter, and_iff_left hreadable, and_iff_left hreadable, mem_setAll,
      mem_setAll, lastSet_candidateSettings hrunner, lastSet_candidateSettings hrunner'] at hcandidate
    exact hcandidate
  · rw [List.mem_filter, List.mem_filter]
    refine and_congr_left fun hreadable ↦ ?_
    obtain ⟨path, role⟩ := candidate
    rw [mem_setAll, mem_setAll, lastSet_candidateSettings hrunner,
      lastSet_candidateSettings hrunner', h path hreadable]

/-- The reasons found early are not about a candidate. -/
theorem earlyReasons_ne_unresolvedReason {evidence : WorkerProfileEvidence}
    (hnone : evidence.unresolvedReasons = []) (requestedModel : Option String) (modelRequired : Bool)
    {candidate : String × EvidenceRole} {reason : String}
    (h : host.unresolvedReason? candidate = some reason) :
    reason ∉ earlyReasons (.ok evidence) requestedModel modelRequired := by
  intro hearly
  have hhead : reason.toList.head? = some 'T' ∨ reason.toList.head? = some 'N' := by
    rw [earlyReasons, hnone, List.nil_append] at hearly
    rcases List.mem_append.1 hearly with hmem | hmem
    · split at hmem
      · rw [List.mem_singleton.1 hmem]
        exact .inl rfl
      · exact nomatch hmem
    · split at hmem
      · rw [List.mem_singleton.1 hmem]
        exact .inr rfl
      · exact nomatch hmem
  rw [head_unresolvedReason h] at hhead
  revert hhead
  cases candidate.2 <;> decide

theorem ShowSame.roleOf_eq {executable configuration : String} {targets targets' : List String}
    (h : host.ShowSame order executable targets targets') {path : String}
    (hpath : path = executable ∨ host.Shows path) :
    roleOf executable configuration targets path = roleOf executable configuration targets' path := by
  rw [roleOf, roleOf, if_congr (h.mem_iff path hpath) rfl rfl]

/-- A harness shows in the profile where the path shows, and has no other role there. -/
theorem mem_targets_of_shows {executable configuration : String} {targets targets' : List String}
    (hconfiguration : configuration ∈ targets')
    (hreasons : ∀ candidate reason, roleOf executable configuration targets candidate.1 =
        some candidate.2 → host.unresolvedReason? candidate = some reason →
      ∃ candidate', roleOf executable configuration targets' candidate'.1 = some candidate'.2 ∧
        host.unresolvedReason? candidate' = some reason)
    (hfiles : ∀ path, host.isReadable path = true →
      roleOf executable configuration targets path = roleOf executable configuration targets' path)
    {path : String} (hpath : host.Shows path) (hmem : path ∈ targets) : path ∈ targets' := by
  by_cases hself : path = configuration
  · exact hself ▸ hconfiguration
  have hharness (other : List String) : roleOf executable configuration other path = some .harness →
      path ∈ other := by
    intro hrole
    rw [roleOf, if_neg hself] at hrole
    by_contra hother
    rw [if_neg hother] at hrole
    split at hrole <;> exact nomatch hrole
  have hrole : roleOf executable configuration targets path = some .harness := by
    rw [roleOf, if_neg hself, if_pos hmem]
  have hunreadable (reason : String) (h : host.unresolvedReason? (path, .harness) = some reason) :
      path ∈ targets' := by
    obtain ⟨⟨path', role'⟩, hrole', hreason'⟩ := hreasons (path, .harness) reason hrole h
    obtain rfl : EvidenceRole.harness = role' := role_of_unresolvedReason h hreason'
    obtain rfl := path_of_unresolvedReason h hreason'
    exact hharness _ hrole'
  cases hstat : host.stat path with
  | error message => exact hunreadable _ (by rw [unresolvedReason?, hstat])
  | ok details =>
    cases details with
    | none => exact absurd hstat hpath
    | some size =>
      cases hsha : host.sha256File path with
      | error message => exact hunreadable _ (by rw [unresolvedReason?, hstat, hsha]; rfl)
      | ok sha256 =>
        have hreadable : host.isReadable path = true := by
          rw [isReadable, profileFile?, hstat, hsha]
          rfl
        exact hharness _ ((hfiles path hreadable).symm.trans hrole)

/-- An executable that is not a file shows in the profile unless it is named. -/
theorem executable_mem_targets {executable configuration : String} {targets targets' : List String}
    (hconfiguration : configuration ∈ targets')
    (hreasons : ∀ candidate reason, roleOf executable configuration targets' candidate.1 =
        some candidate.2 → host.unresolvedReason? candidate = some reason →
      ∃ candidate', roleOf executable configuration targets candidate'.1 = some candidate'.2 ∧
        host.unresolvedReason? candidate' = some reason)
    (hpath : ¬host.Shows executable) (hmem : executable ∈ targets) : executable ∈ targets' := by
  by_contra hother
  have hself : executable ≠ configuration := fun heq ↦ hother (heq ▸ hconfiguration)
  have hrole : roleOf executable configuration targets' executable = some .executable := by
    rw [roleOf, if_neg hself, if_neg hother, if_pos rfl]
  have hstat : host.stat executable = .ok none := not_not.1 hpath
  obtain ⟨reason, hreason⟩ : ∃ reason, host.unresolvedReason? (executable, .executable) =
      some reason := by
    rw [unresolvedReason?, hstat]
    exact ⟨_, if_neg (show EvidenceRole.executable ≠ .harness by decide)⟩
  obtain ⟨⟨path', role'⟩, hrole', hreason'⟩ := hreasons (executable, .executable) reason hrole hreason
  obtain rfl : EvidenceRole.executable = role' := role_of_unresolvedReason hreason hreason'
  have hpath' : path' = executable := by
    dsimp only at hrole'
    rw [roleOf] at hrole'
    split at hrole'
    · exact nomatch hrole'
    split at hrole'
    · exact nomatch hrole'
    split at hrole'
    · assumption
    · exact nomatch hrole'
  dsimp only at hrole'
  rw [hpath', roleOf, if_neg hself, if_pos hmem] at hrole'
  exact nomatch hrole'

theorem mem_unresolvedReasons (hrunner : host.resolve runner ∈ host.absoluteTargets invocation.args)
    (file reason : String) :
    reason ∈ (sortBy Prod.fst order.le (setAll (host.candidateSettings invocation
        [(.harness, runner), (.configuration, file)]))).filterMap host.unresolvedReason? ↔
      ∃ candidate : String × EvidenceRole,
        roleOf (host.resolve invocation.executable) (host.resolve file)
          (host.absoluteTargets invocation.args) candidate.1 = some candidate.2 ∧
        host.unresolvedReason? candidate = some reason := by
  rw [List.mem_filterMap]
  exact exists_congr fun candidate ↦ and_congr_left fun _ ↦ mem_candidates order hrunner

/-- **One profile** is captured for two command lines of an executable, the declared files among their
arguments, exactly when the command lines show the same files. -/
theorem captureWorkerExecutionProfile_eq_iff {model requestedModel : Option String}
    {modelRequired : Bool} (hexecutable : invocation'.executable = invocation.executable)
    (hrunner : host.resolve runner ∈ host.absoluteTargets invocation.args)
    (hrunner' : host.resolve runner ∈ host.absoluteTargets invocation'.args)
    (hfile : host.resolve file ∈ host.absoluteTargets invocation.args)
    (hfile' : host.resolve file ∈ host.absoluteTargets invocation'.args) :
    host.captureWorkerExecutionProfile order modelRequired requestedModel
        (.ok { files := [(.harness, runner), (.configuration, file)], modelSelector := model })
        invocation =
      host.captureWorkerExecutionProfile order modelRequired requestedModel
        (.ok { files := [(.harness, runner), (.configuration, file)], modelSelector := model })
        invocation' ↔
    host.ShowSame order (host.resolve invocation.executable) (host.absoluteTargets invocation.args)
      (host.absoluteTargets invocation'.args) := by
  have hfiles := profileFiles_candidates_eq_iff order hrunner hrunner' hfile hfile'
  have hreasons := mem_unresolvedReasons order hrunner file
  have hreasons' := mem_unresolvedReasons order hrunner' file
  rw [hexecutable] at hfiles hreasons'
  constructor
  · intro h
    obtain ⟨hroles, hties⟩ := hfiles.1 (congrArg CapturedProfile.files h)
    have hsame := sortStrings_eraseDups_eq_iff.1 (congrArg CapturedProfile.unresolvedReasons h)
    have hiff (reason : String) (candidate : String × EvidenceRole)
        (hreason : host.unresolvedReason? candidate = some reason) :
        (∃ candidate' : String × EvidenceRole,
          roleOf (host.resolve invocation.executable) (host.resolve file)
            (host.absoluteTargets invocation.args) candidate'.1 = some candidate'.2 ∧
          host.unresolvedReason? candidate' = some reason) ↔
        ∃ candidate' : String × EvidenceRole,
          roleOf (host.resolve invocation.executable) (host.resolve file)
            (host.absoluteTargets invocation'.args) candidate'.1 = some candidate'.2 ∧
          host.unresolvedReason? candidate' = some reason := by
      have hboth := hsame reason
      rw [List.mem_append, List.mem_append, hreasons, hreasons'] at hboth
      have hlate : reason ∉ earlyReasons
          (.ok { files := [(.harness, runner), (.configuration, file)], modelSelector := model })
          requestedModel modelRequired :=
        earlyReasons_ne_unresolvedReason rfl requestedModel modelRequired hreason
      rwa [or_iff_right hlate, or_iff_right hlate] at hboth
    refine ⟨fun path hpath ↦ ?_, hties⟩
    by_cases hshows : host.Shows path
    · exact ⟨mem_targets_of_shows hfile' (fun candidate reason hrole hreason ↦
          (hiff reason candidate hreason).1 ⟨candidate, hrole, hreason⟩) hroles hshows,
        mem_targets_of_shows hfile (fun candidate reason hrole hreason ↦
          (hiff reason candidate hreason).2 ⟨candidate, hrole, hreason⟩)
          (fun path hreadable ↦ (hroles path hreadable).symm) hshows⟩
    · obtain rfl := hpath.resolve_right hshows
      exact ⟨executable_mem_targets hfile' (fun candidate reason hrole hreason ↦
          (hiff reason candidate hreason).2 ⟨candidate, hrole, hreason⟩) hshows,
        executable_mem_targets hfile (fun candidate reason hrole hreason ↦
          (hiff reason candidate hreason).1 ⟨candidate, hrole, hreason⟩) hshows⟩
  · intro h
    have hsame (candidate : String × EvidenceRole) (reason : String)
        (hreason : host.unresolvedReason? candidate = some reason) :
        roleOf (host.resolve invocation.executable) (host.resolve file)
            (host.absoluteTargets invocation.args) candidate.1 = some candidate.2 ↔
          roleOf (host.resolve invocation.executable) (host.resolve file)
            (host.absoluteTargets invocation'.args) candidate.1 = some candidate.2 := by
      by_cases hpath : candidate.1 = host.resolve invocation.executable ∨ host.Shows candidate.1
      · rw [h.roleOf_eq order hpath]
      -- a directory is no harness, and is the configuration whatever else is named
      · obtain ⟨hother, hstat⟩ := not_or.1 hpath
        have hnone : host.stat candidate.1 = .ok none := not_not.1 hstat
        have hrole : candidate.2 ≠ .harness := by
          intro hharness
          rw [unresolvedReason?, hnone] at hreason
          dsimp only at hreason
          rw [if_pos hharness] at hreason
          exact nomatch hreason
        have hplace (targets : List String) :
            roleOf (host.resolve invocation.executable) (host.resolve file) targets candidate.1 =
                some candidate.2 ↔
              candidate.1 = host.resolve file ∧ candidate.2 = .configuration := by
          rw [roleOf, if_neg hother]
          split
          · rename_i heq
            rw [and_iff_right heq, Option.some.injEq]
            exact eq_comm
          · rename_i hne
            refine iff_of_false ?_ fun heq ↦ hne heq.1
            split
            · exact fun heq ↦ hrole (Option.some.inj heq).symm
            · exact fun heq ↦ nomatch heq
        rw [hplace, hplace]
    have hequal (early : List String) :
        sortStrings (early ++ (sortBy Prod.fst order.le (setAll (host.candidateSettings invocation
            [(.harness, runner), (.configuration, file)]))).filterMap
              host.unresolvedReason?).eraseDups =
          sortStrings (early ++ (sortBy Prod.fst order.le (setAll (host.candidateSettings invocation'
            [(.harness, runner), (.configuration, file)]))).filterMap
              host.unresolvedReason?).eraseDups :=
      sortStrings_eraseDups_eq_iff.2 fun reason ↦ by
        rw [List.mem_append, List.mem_append, hreasons, hreasons']
        exact or_congr_right (exists_congr fun candidate ↦
          and_congr_left fun hreason ↦ hsame candidate reason hreason)
    have hequalFiles := hfiles.2 ⟨fun path hreadable ↦
      h.roleOf_eq order (.inr (shows_of_isReadable hreadable)), h.ties⟩
    rw [captureWorkerExecutionProfile, captureWorkerExecutionProfile]
    dsimp only
    rw [hequal, hequalFiles]

end Capture

/-! ### The paths on the command line of the runner -/

theorem absoluteTargets_append (arguments arguments' : List String) :
    host.absoluteTargets (arguments ++ arguments') =
      host.absoluteTargets arguments ++ host.absoluteTargets arguments' := by
  rw [absoluteTargets, List.filter_append, List.map_append, absoluteTargets, absoluteTargets]

theorem absoluteTargets_cons_of_not {argument : String} (h : host.isAbsolute argument = false)
    (arguments : List String) :
    host.absoluteTargets (argument :: arguments) = host.absoluteTargets arguments := by
  rw [absoluteTargets, List.filter_cons_of_neg (by rw [h]; decide), absoluteTargets]

theorem mem_absoluteTargets {argument : String} {arguments : List String}
    (habsolute : host.isAbsolute argument = true) (hmem : argument ∈ arguments) :
    host.resolve argument ∈ host.absoluteTargets arguments :=
  List.mem_map_of_mem (List.mem_filter.2 ⟨hmem, habsolute⟩)

/-- A flag is no path. -/
theorem isAbsolute_flag {flag : String} (h : isFlag flag = true) : host.isAbsolute flag = false := by
  obtain ⟨rest, hrest⟩ := List.isPrefixOf_iff_prefix.1 h
  rw [Host.isAbsolute, ← hrest]
  cases host.platform <;> rfl

/-- A path of a scope is relative, whatever the host. -/
theorem isAbsolute_relativePath (path : RelativePath) : host.isAbsolute path.text = false := by
  have hsafe := path.safe
  rw [isSafeRelativePath] at hsafe
  dsimp only at hsafe
  split at hsafe
  · exact nomatch hsafe
  rename_i hchecks
  simp only [Bool.or_eq_true, decide_eq_true_eq, not_or, Bool.not_eq_true] at hchecks
  obtain ⟨⟨⟨hslash, hwin32⟩, -⟩, -⟩ := hchecks
  rw [Host.isAbsolute]
  cases host.platform with
  | win32 => exact hwin32
  | posix =>
    refine decide_eq_false fun hhead ↦ hslash ?_
    rw [portable, List.head?_map, hhead]
    rfl

/-- Among repeated arguments, the values. -/
theorem absoluteTargets_repeatedArguments {flag : String} (h : isFlag flag = true)
    (values : List String) :
    host.absoluteTargets (repeatedArguments flag values) = host.absoluteTargets values := by
  induction values with
  | nil => rfl
  | cons value values ih =>
    show host.absoluteTargets (flag :: ([value] ++ repeatedArguments flag values)) = _
    rw [absoluteTargets_cons_of_not (isAbsolute_flag h), absoluteTargets_append, ih,
      ← absoluteTargets_append]
    rfl

theorem absoluteTargets_allowedPaths (paths : List RelativePath) :
    host.absoluteTargets (paths.map RelativePath.text) = [] := by
  induction paths with
  | nil => rfl
  | cons path paths ih =>
    rw [List.map_cons, absoluteTargets_cons_of_not (isAbsolute_relativePath path), ih]

/-- The paths a command line of the runner names are among the values of its flags. -/
theorem absoluteTargets_cliArguments {cli : CliArguments}
    (hallowed : host.absoluteTargets cli.allowedPaths = []) :
    host.absoluteTargets (cliArguments cli) =
      host.absoluteTargets ([cli.profilesFile, cli.profileId, cli.workspacePath] ++
        (cli.objective :: (cli.contextRefs ++ cli.constraints ++ cli.escalateWhen) ++
          [cli.sourceBaseRevision, cli.workspaceBaseRevision])) := by
  have hpair {flag : String} (h : isFlag flag = true) (value : String) (rest : List String) :
      host.absoluteTargets (flag :: value :: rest) =
        host.absoluteTargets [value] ++ host.absoluteTargets rest := by
    rw [absoluteTargets_cons_of_not (isAbsolute_flag h), ← absoluteTargets_append]
    rfl
  have hnil : host.absoluteTargets [] = [] := rfl
  rw [cliArguments, hpair rfl, hpair rfl, hpair rfl, hpair rfl, absoluteTargets_append,
    absoluteTargets_append, absoluteTargets_append, absoluteTargets_append,
    absoluteTargets_repeatedArguments rfl, absoluteTargets_repeatedArguments rfl,
    absoluteTargets_repeatedArguments rfl, absoluteTargets_repeatedArguments rfl, hallowed,
    hpair rfl, hpair rfl, hnil]
  show _ = host.absoluteTargets (([cli.profilesFile] ++ [cli.profileId] ++ [cli.workspacePath]) ++
    ([cli.objective] ++ (cli.contextRefs ++ cli.constraints ++ cli.escalateWhen) ++
      ([cli.sourceBaseRevision] ++ [cli.workspaceBaseRevision])))
  simp only [absoluteTargets_append, List.append_assoc, List.nil_append, List.append_nil]

end Host

/-! ### What the text of a job changes -/

namespace ProfileCase

variable {host : Host} (c : ProfileCase host)

/-- The executable of the runner. -/
def executable : String := host.resolve (c.adapter.executable.getD "")

/-- The values on the command line before the text. -/
def leading : List String :=
  [c.adapter.runnerPath, c.adapter.profilesFile.getD ""] ++
    (validateProfileSelection c.contract.1.workerOptions).toOption.toList ++ [c.workspacePath]

/-- The values after it. -/
def trailing : List String :=
  [(c.attemptContext.map WorkerAttemptContext.sourceBaseRevision).getD c.contract.1.baseRevision,
    (c.attemptContext.map WorkerAttemptContext.workspaceBaseRevision).getD c.contract.1.baseRevision]

/-- The paths named, in the order of the command line. -/
def targets (text : FreeText) : List String :=
  host.absoluteTargets (c.leading ++ (text.texts ++ c.trailing))

/-- **The texts name the same files**: beyond the paths that are named anyway, the same files and
the same paths that cannot be read, and files that tie in the same order. -/
structure NamesSameFiles (text text' : FreeText) : Prop where
  mem_iff : ∀ path, path ∉ host.absoluteTargets (c.leading ++ c.trailing) →
    path = c.executable ∨ host.Shows path →
    (path ∈ host.absoluteTargets text.texts ↔ path ∈ host.absoluteTargets text'.texts)
  ties : TiesAgree c.order.le (host.readablePaths c.executable (c.targets text))
    (host.readablePaths c.executable (c.targets text'))

variable {c}

theorem mem_targets {path : String} {text : FreeText} :
    path ∈ c.targets text ↔
      path ∈ host.absoluteTargets (c.leading ++ c.trailing) ∨
        path ∈ host.absoluteTargets text.texts := by
  rw [targets, Host.absoluteTargets_append, Host.absoluteTargets_append,
    Host.absoluteTargets_append, List.mem_append, List.mem_append, List.mem_append]
  tauto

theorem namesSameFiles_iff {text text' : FreeText} :
    c.NamesSameFiles text text' ↔
      host.ShowSame c.order c.executable (c.targets text) (c.targets text') := by
  constructor
  · rintro ⟨hmem, hties⟩
    refine ⟨fun path hpath ↦ ?_, hties⟩
    rw [mem_targets, mem_targets]
    by_cases hfixed : path ∈ host.absoluteTargets (c.leading ++ c.trailing)
    · exact iff_of_true (.inl hfixed) (.inl hfixed)
    · exact or_congr_right (hmem path hfixed hpath)
  · rintro ⟨hmem, hties⟩
    refine ⟨fun path hfixed hpath ↦ ?_, hties⟩
    have hboth := hmem path hpath
    rwa [mem_targets, mem_targets, or_iff_right hfixed, or_iff_right hfixed] at hboth

/-- What the adapter builds for a contract, it builds with any text. -/
theorem buildInvocation_withText (c : ProfileCase host) : ∃ profileId profile environment,
    validateProfileSelection c.contract.1.workerOptions = .ok profileId ∧
    c.adapter.selectProfile profileId = .ok profile ∧
    host.isAbsoluteFile c.adapter.runnerPath = true ∧
    c.adapter.profilesFile.any host.isAbsoluteFile = true ∧
    ∀ text, c.adapter.buildInvocation (c.contract.withText text).1 c.workspacePath
        c.attemptContext = .ok {
      executable := c.adapter.executable.getD ""
      args := c.adapter.runnerPath :: cliArguments (encodedCli c.adapter (c.contract.withText text)
        profileId c.workspacePath c.attemptContext)
      cwd := c.workspacePath
      env := environment } := by
  obtain ⟨invocation, h⟩ := c.builds
  obtain ⟨profileId, hprofileId, hloaded, -⟩ := args_of_buildInvocation h
  rw [OpenAIResponsesAdapter.buildInvocation, bind_eq_ok] at h
  obtain ⟨_, hsame, h⟩ := h
  obtain rfl := Except.ok.inj (hprofileId.symm.trans hsame)
  obtain ⟨profile, hprofile, h⟩ := bind_eq_ok.1 h
  cases hexecutable : c.adapter.executable with
  | none => simp [hexecutable] at h
  | some executable =>
    rw [hexecutable] at h
    obtain ⟨hrunner, h⟩ := check_eq_ok.1 h
    split at h
    · cases h
    rename_i secret hsecret
    have habsolute : host.isAbsoluteFile c.adapter.runnerPath = true :=
      (Bool.and_eq_true_iff.1 (throwUnless_bool_eq_ok.1 hrunner)).2
    refine ⟨profileId, profile, [(profile.apiKeyEnvName, secret)], hprofileId, hprofile, habsolute,
      hloaded, fun text ↦ ?_⟩
    rw [OpenAIResponsesAdapter.buildInvocation]
    refine bind_eq_ok.2 ⟨profileId, hprofileId, bind_eq_ok.2 ⟨profile, hprofile, ?_⟩⟩
    rw [hexecutable]
    refine check_eq_ok.2 ⟨hrunner, ?_⟩
    rw [hsecret]
    simp [cliArguments, encodedCli, OpenAIResponsesAdapter.leadingArguments, ParsedJob.withText]
    rfl

/-- The paths on the command line of a text. -/
theorem absoluteTargets_args {profileId : String}
    (hprofileId : validateProfileSelection c.contract.1.workerOptions = .ok profileId)
    (text : FreeText) :
    host.absoluteTargets (c.adapter.runnerPath :: cliArguments (encodedCli c.adapter
      (c.contract.withText text) profileId c.workspacePath c.attemptContext)) = c.targets text := by
  rw [← List.singleton_append, Host.absoluteTargets_append,
    Host.absoluteTargets_cliArguments (Host.absoluteTargets_allowedPaths _),
    ← Host.absoluteTargets_append, targets, leading, hprofileId]
  rfl

theorem isAbsolute_of_isAbsoluteFile {candidate : String}
    (h : host.isAbsoluteFile candidate = true) : host.isAbsolute candidate = true :=
  (Bool.and_eq_true_iff.1 h).1

/-- The profile of a text is captured for its command line. -/
theorem profileOf_eq (c : ProfileCase host) : ∃ model, ∀ text, ∃ invocation,
    invocation.executable = c.adapter.executable.getD "" ∧
    host.absoluteTargets invocation.args = c.targets text ∧
    c.profileOf text = .ok (host.captureWorkerExecutionProfile c.order true
      (c.contract.1.workerOptions.string "model")
      (.ok {
        files := [(.harness, c.adapter.runnerPath),
          (.configuration, c.adapter.profilesFile.getD "")]
        modelSelector := model })
      invocation) := by
  obtain ⟨profileId, profile, environment, hprofileId, hprofile, -, -, hbuild⟩ :=
    c.buildInvocation_withText
  refine ⟨some profile.model, fun text ↦ ⟨{
    executable := c.adapter.executable.getD ""
    args := c.adapter.runnerPath :: cliArguments (encodedCli c.adapter (c.contract.withText text)
      profileId c.workspacePath c.attemptContext)
    cwd := c.workspacePath
    env := environment }, rfl, absoluteTargets_args hprofileId text, ?_⟩⟩
  have hevidence : c.adapter.profileEvidence (c.contract.withText text).1 = .ok {
      files := [(.harness, c.adapter.runnerPath), (.configuration, c.adapter.profilesFile.getD "")]
      modelSelector := some profile.model } :=
    bind_eq_ok.2 ⟨profileId, hprofileId, bind_eq_ok.2 ⟨profile, hprofile, rfl⟩⟩
  rw [profileOf, OpenAIResponsesAdapter.workerProfile, hbuild, hevidence]
  rfl

/-- The declared files are named with every text. -/
theorem declared_mem_targets (c : ProfileCase host) (text : FreeText) :
    host.resolve c.adapter.runnerPath ∈ c.targets text ∧
      host.resolve (c.adapter.profilesFile.getD "") ∈ c.targets text := by
  obtain ⟨profileId, profile, environment, -, -, hrunner, hfile, -⟩ := c.buildInvocation_withText
  have hfile' : host.isAbsolute (c.adapter.profilesFile.getD "") = true := by
    cases hname : c.adapter.profilesFile with
    | none => exact nomatch hname ▸ hfile
    | some file =>
      rw [hname] at hfile
      exact isAbsolute_of_isAbsoluteFile hfile
  constructor
  · exact Host.mem_absoluteTargets (isAbsolute_of_isAbsoluteFile hrunner)
      (List.mem_append_left _ List.mem_cons_self)
  · exact Host.mem_absoluteTargets hfile'
      (List.mem_append_left _ (List.mem_cons_of_mem _ List.mem_cons_self))

theorem profileOf_eq_iff (c : ProfileCase host) (text text' : FreeText) :
    c.profileOf text = c.profileOf text' ↔
      host.ShowSame c.order c.executable (c.targets text) (c.targets text') := by
  obtain ⟨model, hprofile⟩ := c.profileOf_eq
  obtain ⟨invocation, hexecutable, htargets, heq⟩ := hprofile text
  obtain ⟨invocation', hexecutable', htargets', heq'⟩ := hprofile text'
  obtain ⟨hrunner, hfile⟩ := c.declared_mem_targets text
  obtain ⟨hrunner', hfile'⟩ := c.declared_mem_targets text'
  rw [← htargets] at hrunner hfile
  rw [← htargets'] at hrunner' hfile'
  rw [heq, heq', Except.ok.injEq,
    Host.captureWorkerExecutionProfile_eq_iff c.order (hexecutable'.trans hexecutable.symm) hrunner
      hrunner' hfile hfile', htargets, htargets', hexecutable, executable]

end ProfileCase

/-- **The text of a job cannot steer the profile** of its worker exactly when it names no other files
than another text would. -/
theorem textCannotSteer_iff {host : Host} (c : ProfileCase host) (text text' : FreeText) :
    TextCannotSteer c text text' ↔ c.NamesSameFiles text text' := by
  rw [TextCannotSteer, ProfileCase.namesSameFiles_iff]
  exact c.profileOf_eq_iff text text'

/-! ### Objectives that are paths -/

def exampleCase : ProfileCase exampleHost where
  adapter := exampleAdapter
  order := { le := codePointOrder.le, total := codePointOrder.total, trans := codePointOrder.trans }
  contract := unscopedJob
  workspacePath := "/workspace"
  attemptContext := some ⟨"d", "d"⟩
  builds := ⟨_, rfl⟩

/-- A text with this objective. -/
def objectiveText (objective : String) (h : objective ≠ "") : FreeText where
  objective := objective
  contextRefs := []
  constraints := []
  escalateWhen := ["Requirements conflict"]
  objective_ne := h
  escalateWhen_ne := nofun
  nonEmpty := rfl

/-- Beside a plain objective, one that is the path of a file adds that file to the profile, and one
that is a path to nothing makes the profile unresolved. -/
theorem not_textCannotSteer :
    ¬TextCannotSteer exampleCase (objectiveText "Fix it" (by decide))
        (objectiveText "/etc/passwd" (by decide)) ∧
      ¬TextCannotSteer exampleCase (objectiveText "Fix it" (by decide))
        (objectiveText "/missing" (by decide)) := by
  constructor
  · intro h
    have hmem := ((exampleCase.profileOf_eq_iff _ _).1 h).mem_iff "/etc/passwd"
      (.inr (show exampleHost.stat "/etc/passwd" ≠ .ok none from nofun))
    exact absurd (hmem.2 (by decide)) (by decide)
  · intro h
    have hmem := ((exampleCase.profileOf_eq_iff _ _).1 h).mem_iff "/missing"
      (.inr (show exampleHost.stat "/missing" ≠ .ok none from nofun))
    exact absurd (hmem.2 (by decide)) (by decide)

end CodeConductor
