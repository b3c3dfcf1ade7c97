import CodeConductor.Retention.Lineage

/-!
# What a dry run proposes

`dryRun` looks at each attempt by itself, in one loop. What it should say of an attempt is said here
without the loop: the class of the attempt (`retentionClassOf`), and what of it may be removed
(`removalOf`). An attempt that has ended without a time makes the loop throw, and with it the
classification of all other attempts is lost; so does an expired attempt whose recorded manifest is
not there. Without such attempts the plan is what it should be (`dryRunPartitions_iff`).
-/

namespace CodeConductor

/-- What may be removed of an attempt. -/
structure Removal where
  attemptId : AttemptId
  kind : GcCandidateKind
  files : List GcFileBinding
  bytes : ℕ
  deriving DecidableEq, Repr

/-- What a candidate removes. -/
def GcCandidate.removal (candidate : GcCandidate) : Removal where
  attemptId := candidate.attemptId
  kind := candidate.kind
  files := candidate.files
  bytes := candidate.estimatedBytes

/-- The first time whose ISO text has a year of more than four digits. -/
def yearTenThousand : Timestamp := 253402300800000

/-- `gcPlanSchema.parse`: what the records do not have already is that the times are written with four
digits for the year, and that the bytes are a safe integer. -/
def GcPlan.parse (plan : GcPlan) : Except RuntimeError GcPlan := do
  throwUnless (plan.generatedAt < yearTenThousand) (.schema "generatedAt" "Invalid ISO datetime")
  throwUnless (plan.expiresAt < yearTenThousand) (.schema "expiresAt" "Invalid ISO datetime")
  throwUnless (plan.totalEstimatedBytes ≤ maxSafeInteger)
    (.schema "totalEstimatedBytes" "Too big: expected int to be <9007199254740991")
  return plan

namespace RetentionStore

variable (tools : RetentionTools) (store : RetentionStore) (now : Timestamp)

/-- `dryRun`, with the parse of its result. -/
def parsedDryRun : Except RuntimeError GcPlan := do
  let plan ← store.dryRun tools now
  plan.parse

/-! ### What an attempt should be classed as -/

/-- What retention is decided on, when it can be read. -/
def evidence? (manifest : AttemptManifest) : Option (RetentionPolicy × AttemptCleanupRecord) :=
  match store.policies manifest.jobId, store.cleanups manifest.attemptId with
  | some policy, some cleanup => some (policy, cleanup)
  | _, _ => none

/-- The attempt is an eligible completion without a review disposition. -/
def undispositioned (manifest : AttemptManifest) : Bool :=
  manifest.status = .completed && manifest.verificationStatus = .eligible &&
    !manifest.reviewDisposition.isReviewed

/-- The attempt is terminal, nothing of it is left running, and no review waits for it. -/
def isDisposable (manifest : AttemptManifest) (cleanup : AttemptCleanupRecord) : Bool :=
  manifest.status.isTerminal && cleanup.status.isSafe && !undispositioned manifest

/-- The time an attempt is kept for. -/
def retentionMs (manifest : AttemptManifest) (policy : RetentionPolicy) : ℕ :=
  if manifest.reviewDisposition.isReviewed then policy.reviewedRetentionMs
  else policy.terminalRetentionMs

/-- The retention deadline has passed. -/
def deadlinePassed (manifest : AttemptManifest) (policy : RetentionPolicy) : Bool :=
  manifest.finishedAt.any fun finishedAt ↦ finishedAt + retentionMs manifest policy ≤ now

/-- Nothing but its deadline keeps the attempt. -/
def isSettled (manifest : AttemptManifest) : Bool :=
  (store.evidence? manifest).any fun evidence ↦ isDisposable manifest evidence.2

/-- Nothing keeps the attempt. -/
def isRemovable (manifest : AttemptManifest) : Bool :=
  (store.evidence? manifest).any fun evidence ↦
    isDisposable manifest evidence.2 && deadlinePassed now manifest evidence.1

/-- The removal of the worktree is proven. -/
def removalProven (manifest : AttemptManifest) : Bool :=
  (store.cleanups manifest.attemptId).any fun cleanup ↦
    cleanup.latestStatus worktreeSubject = some .proven

/-- The size of a worktree that still exists without proof of its removal. -/
def standingWorktree (manifest : AttemptManifest) : Option ℕ :=
  if store.removalProven manifest then none
  else manifest.workspace.bind fun workspace ↦ store.worktrees workspace.path

/-- A worktree that was to be kept is gone without proof of its removal. -/
def worktreeLost (manifest : AttemptManifest) : Bool :=
  !store.removalProven manifest && manifest.workspace.any fun workspace ↦
    workspace.retained && store.worktrees workspace.path = none

/-- The class an attempt should have. -/
def retentionClassOf (manifest : AttemptManifest) : RetentionClass :=
  match store.evidence? manifest with
  | none => .quarantine
  | some (policy, cleanup) =>
    if !manifest.status.isTerminal then .active
    else if !cleanup.status.isSafe then .quarantine
    else if undispositioned manifest then .reviewable
    else if !deadlinePassed now manifest policy then .retained
    else if store.worktreeLost manifest then .quarantine
    else .expired

/-- The files of an attempt that are not records. -/
def prunableFiles (manifest : AttemptManifest) : List GcFileBinding :=
  match store.attemptDirectory manifest.jobId manifest.attemptId with
  | .ok directory => store.collectPrunableFiles tools directory
  | .error _ => []

/-- What may be removed of an attempt: its worktree while that exists, then its files. -/
def removalOf (manifest : AttemptManifest) : Option Removal :=
  if !store.isRemovable now manifest then none
  else
    match store.standingWorktree manifest with
    | some bytes => some ⟨manifest.attemptId, .workspace, [], bytes⟩
    | none =>
      let files := store.prunableFiles tools manifest
      if store.worktreeLost manifest ∨ files = [] then none
      else
        some ⟨manifest.attemptId, .attemptArtifacts, files, (files.map GcFileBinding.bytes).sum⟩

/-- The bytes that may be removed. -/
def removableBytes : ℕ :=
  ((store.attempts.filterMap (store.removalOf tools now)).map Removal.bytes).sum

end RetentionStore

/-- A store as the conductor keeps it: an attempt whose contract and cleanup can be read has a
directory, with the cleanup record in it. -/
structure JournaledStore extends RetentionStore where
  exists_directory : ∀ manifest ∈ attempts,
    (toRetentionStore.evidence? manifest).isSome = true → ∃ directory,
      toRetentionStore.attemptDirectory manifest.jobId manifest.attemptId = .ok directory ∧
      (files (directory ++ ["cleanup.json"])).isSome = true

/-- **A dry run partitions the attempts**: it succeeds, each attempt has one observation, with the
class it should have, and at most one candidate, for what may be removed of it; and the bytes are those
of the candidates. -/
def DryRunPartitions (tools : RetentionTools) (store : JournaledStore) (now : Timestamp) : Prop :=
  ∃ plan, store.parsedDryRun tools now = .ok plan ∧
    plan.observations.map (fun observation ↦
        (observation.jobId, observation.attemptId, observation.retentionClass)) =
      store.attempts.map (fun manifest ↦
        (manifest.jobId, manifest.attemptId, store.retentionClassOf now manifest)) ∧
    plan.candidates.map GcCandidate.removal = store.attempts.filterMap (store.removalOf tools now) ∧
    plan.totalEstimatedBytes = (plan.candidates.map GcCandidate.estimatedBytes).sum

/-- **No attempt is unusual**: one that nothing but its deadline keeps has a time it finished at; one
that nothing keeps has its recorded manifest and cleanup record, and has kept its worktree if that
still exists. And the plan can be written down. -/
structure Classifiable (tools : RetentionTools) (store : JournaledStore) (now : Timestamp) :
    Prop where
  finished : ∀ manifest ∈ store.attempts, store.isSettled manifest = true →
    manifest.finishedAt.isSome = true
  recorded : ∀ manifest ∈ store.attempts, store.isRemovable now manifest = true →
    (store.files (resolvePath store.cwd manifest.artifacts.manifest)).isSome = true ∧
      ∀ path ∈ manifest.artifacts.cleanup, (store.files (resolvePath store.cwd path)).isSome = true
  retained : ∀ manifest ∈ store.attempts, store.isRemovable now manifest = true →
    (store.standingWorktree manifest).isSome = true →
    manifest.workspace.any AttemptWorkspace.retained = true
  dated : now + store.minimumGcTtl < yearTenThousand
  safe : store.removableBytes tools now ≤ maxSafeInteger

namespace RetentionStore

variable {tools : RetentionTools} {store : RetentionStore} {now : Timestamp}
  {manifest : AttemptManifest} {policy : RetentionPolicy} {cleanup : AttemptCleanupRecord}

/-! ### Reading the evidence -/

theorem evidence?_eq_some :
    store.evidence? manifest = some (policy, cleanup) ↔
      store.policies manifest.jobId = some policy ∧
        store.cleanups manifest.attemptId = some cleanup := by
  rw [evidence?]
  cases store.policies manifest.jobId <;> cases store.cleanups manifest.attemptId <;> simp

theorem getAttempt_of_mem (hmem : manifest ∈ store.attempts) :
    store.getAttempt manifest.attemptId = .ok manifest := by
  rw [getAttempt]
  cases hfind : store.attempts.find? fun other ↦ other.attemptId = manifest.attemptId with
  | none => exact absurd (List.find?_eq_none.1 hfind manifest hmem) (by simp)
  | some other =>
    have hid : other.attemptId = manifest.attemptId := by simpa using List.find?_some hfind
    rw [eq_of_attemptId_eq store (List.mem_of_find?_eq_some hfind) hmem hid]

theorem getAttemptCleanup_of_mem (hmem : manifest ∈ store.attempts) :
    store.getAttemptCleanup manifest.attemptId =
      match store.cleanups manifest.attemptId with
      | some cleanup => .ok cleanup
      | none => .error (.fileSystem "ENOENT" manifest.attemptId.text) := by
  rw [getAttemptCleanup, getAttempt_of_mem hmem]
  rfl

theorem observe_of_unreadable (tools : RetentionTools) (now : Timestamp)
    (hmem : manifest ∈ store.attempts) (h : store.evidence? manifest = none) :
    ∃ detail, store.observe tools now manifest =
      .ok (⟨manifest.jobId, manifest.attemptId, .quarantine, detail⟩, none) := by
  rw [evidence?] at h
  rw [observe, readPolicy, getAttemptCleanup_of_mem hmem]
  cases hpolicy : store.policies manifest.jobId with
  | none => exact ⟨_, rfl⟩
  | some policy =>
    cases hcleanup : store.cleanups manifest.attemptId with
    | none => exact ⟨_, rfl⟩
    | some cleanup =>
      rw [hpolicy, hcleanup] at h
      exact absurd h (by simp)

/-- An attempt that something other than its deadline keeps is classed by its record alone. -/
theorem observe_of_not_disposable (tools : RetentionTools) (now : Timestamp)
    (hmem : manifest ∈ store.attempts) (h : store.evidence? manifest = some (policy, cleanup))
    (hkept : isDisposable manifest cleanup = false) :
    ∃ detail, store.observe tools now manifest =
      .ok (⟨manifest.jobId, manifest.attemptId, store.retentionClassOf now manifest, detail⟩,
        none) := by
  obtain ⟨hpolicy, hcleanup⟩ := evidence?_eq_some.1 h
  rw [retentionClassOf, h, observe, readPolicy, getAttemptCleanup_of_mem hmem, hpolicy, hcleanup]
  dsimp only [bind, Except.bind, pure, Except.pure]
  rw [classifyRetention]
  by_cases hterminal : manifest.status.isTerminal = true
  · by_cases hsafe : cleanup.status.isSafe = true
    · have hwaits : undispositioned manifest = true := by
        simpa [isDisposable, hterminal, hsafe] using hkept
      simp_all [undispositioned]
    · simp_all
  · simp_all

/-! ### An attempt that only its deadline keeps -/

theorem classifyRetention_of_disposable (h : isDisposable manifest cleanup = true) :
    classifyRetention tools manifest cleanup.status policy now =
      match manifest.finishedAt with
      | none => .error (.plain "Invalid time value")
      | some finishedAt =>
        if finishedAt + retentionMs manifest policy ≤ now then
          .ok ⟨.expired, "Terminal evidence expired at " ++
            tools.isoDate (finishedAt + retentionMs manifest policy)⟩
        else
          .ok ⟨.retained, "Terminal evidence retained until " ++
            tools.isoDate (finishedAt + retentionMs manifest policy)⟩ := by
  rw [isDisposable, Bool.and_eq_true, Bool.and_eq_true, Bool.not_eq_true'] at h
  obtain ⟨⟨hterminal, hsafe⟩, hwaits⟩ := h
  have hwaits' : ¬(manifest.status = .completed ∧ manifest.verificationStatus = .eligible ∧
      (!manifest.reviewDisposition.isReviewed) = true) := by
    intro hall
    simp [undispositioned, hall] at hwaits
  rw [classifyRetention, if_neg (by simp [hterminal]), if_neg (by simp [hsafe]), if_neg hwaits']
  rfl

theorem retentionClassOf_of_disposable (h : store.evidence? manifest = some (policy, cleanup))
    (hdisposable : isDisposable manifest cleanup = true) :
    store.retentionClassOf now manifest =
      if deadlinePassed now manifest policy then
        if store.worktreeLost manifest then .quarantine else .expired
      else .retained := by
  rw [isDisposable, Bool.and_eq_true, Bool.and_eq_true, Bool.not_eq_true'] at hdisposable
  obtain ⟨⟨hterminal, hsafe⟩, hwaits⟩ := hdisposable
  rw [retentionClassOf, h]
  dsimp only
  rw [hterminal, hsafe, hwaits]
  cases deadlinePassed now manifest policy <;> rfl

/-- Without a time it finished at, the observation fails. -/
theorem observe_of_unfinished (hmem : manifest ∈ store.attempts)
    (h : store.evidence? manifest = some (policy, cleanup))
    (hdisposable : isDisposable manifest cleanup = true) (hfinished : manifest.finishedAt = none) :
    store.observe tools now manifest = .error (.plain "Invalid time value") := by
  obtain ⟨hpolicy, hcleanup⟩ := evidence?_eq_some.1 h
  rw [observe, readPolicy, getAttemptCleanup_of_mem hmem, hpolicy, hcleanup]
  dsimp only [bind, Except.bind, pure, Except.pure]
  rw [classifyRetention_of_disposable hdisposable, hfinished]

theorem observe_of_retained (tools : RetentionTools) (hmem : manifest ∈ store.attempts)
    (h : store.evidence? manifest = some (policy, cleanup))
    (hdisposable : isDisposable manifest cleanup = true)
    (hfinished : manifest.finishedAt.isSome = true)
    (hkept : deadlinePassed now manifest policy = false) :
    ∃ detail, store.observe tools now manifest =
      .ok (⟨manifest.jobId, manifest.attemptId, store.retentionClassOf now manifest, detail⟩,
        none) := by
  obtain ⟨hpolicy, hcleanup⟩ := evidence?_eq_some.1 h
  obtain ⟨finishedAt, hsome⟩ := Option.isSome_iff_exists.1 hfinished
  have hafter : ¬finishedAt + retentionMs manifest policy ≤ now := by
    rw [deadlinePassed, hsome] at hkept
    exact of_decide_eq_false hkept
  rw [retentionClassOf_of_disposable h hdisposable, hkept, observe, readPolicy,
    getAttemptCleanup_of_mem hmem, hpolicy, hcleanup]
  dsimp only [bind, Except.bind, pure, Except.pure]
  rw [classifyRetention_of_disposable hdisposable, hsome]
  dsimp only
  rw [if_neg hafter]
  exact ⟨_, rfl⟩

/-! ### An attempt that nothing keeps -/

/-- The prunable files are the files of the directory that are not records, with their sizes and
digests. -/
theorem mem_collectPrunableFiles {directory : StorePath} {file : GcFileBinding} :
    file ∈ store.collectPrunableFiles tools directory ↔
      file.relativePath ∉ retainedFiles ∧
        ∃ content, store.files (directory ++ [file.relativePath]) = some content ∧
          file.bytes = content.length ∧ file.sha256 = tools.sha256 content := by
  rw [collectPrunableFiles, List.mem_mergeSort, List.mem_filterMap]
  constructor
  · rintro ⟨name, -, h⟩
    split at h
    · exact nomatch h
    · rename_i hrecord
      obtain ⟨content, hcontent, rfl⟩ := Option.map_eq_some_iff.1 h
      exact ⟨hrecord, content, hcontent, rfl, rfl⟩
  · rintro ⟨hrecord, content, hcontent, hbytes, hsha⟩
    refine ⟨file.relativePath, ?_, ?_⟩
    · rw [List.mem_dedup, List.mem_filterMap]
      refine ⟨directory ++ [file.relativePath], List.mem_filter.2 ⟨?_, ?_⟩, ?_⟩
      · exact store.mem_paths _ (Option.isSome_of_eq_some hcontent)
      · simp
      · exact List.getLast?_concat
    · rw [if_neg hrecord, hcontent, Option.map_some, ← hbytes, ← hsha]

/-- What `dryRun` proposes of it: its worktree if it was to be kept, else its files. -/
def proposed (tools : RetentionTools) (store : RetentionStore) (manifest : AttemptManifest) :
    Option Removal :=
  match manifest.workspace.filter fun workspace ↦
      workspace.retained && !store.removalProven manifest with
  | some workspace =>
    (store.worktrees workspace.path).map fun bytes ↦ ⟨manifest.attemptId, .workspace, [], bytes⟩
  | none =>
    let files := store.prunableFiles tools manifest
    if files = [] then none
    else some ⟨manifest.attemptId, .attemptArtifacts, files, (files.map GcFileBinding.bytes).sum⟩

theorem exists_expired (tools : RetentionTools) (hdisposable : isDisposable manifest cleanup = true)
    (hpassed : deadlinePassed now manifest policy = true) : ∃ detail,
    classifyRetention tools manifest cleanup.status policy now = .ok ⟨.expired, detail⟩ := by
  rw [classifyRetention_of_disposable hdisposable]
  rw [deadlinePassed] at hpassed
  cases hfinished : manifest.finishedAt with
  | none =>
    rw [hfinished] at hpassed
    exact nomatch hpassed
  | some finishedAt =>
    rw [hfinished] at hpassed
    exact ⟨_, if_pos (of_decide_eq_true hpassed)⟩

theorem readFile_eq_ok {path : StorePath} {content : List UInt8} :
    store.readFile path = .ok content ↔ store.files path = some content := by
  rw [readFile]
  cases store.files path <;> simp

/-- The recorded manifest and cleanup record are read. -/
theorem recorded_of_observe {observed : GcObservation × Option GcCandidate}
    (hmem : manifest ∈ store.attempts) (h : store.evidence? manifest = some (policy, cleanup))
    (hdisposable : isDisposable manifest cleanup = true)
    (hpassed : deadlinePassed now manifest policy = true)
    (hobserve : store.observe tools now manifest = .ok observed) :
    (store.files (resolvePath store.cwd manifest.artifacts.manifest)).isSome = true ∧
      ∀ path ∈ manifest.artifacts.cleanup,
        (store.files (resolvePath store.cwd path)).isSome = true := by
  obtain ⟨hpolicy, hcleanup⟩ := evidence?_eq_some.1 h
  obtain ⟨detail, hclassify⟩ := exists_expired tools hdisposable hpassed
  rw [observe, readPolicy, getAttemptCleanup_of_mem hmem, hpolicy, hcleanup] at hobserve
  dsimp only [bind, Except.bind, pure, Except.pure] at hobserve
  rw [hclassify] at hobserve
  dsimp only at hobserve
  rw [if_neg (not_not.2 rfl)] at hobserve
  obtain ⟨manifestSha256, hmanifest, hobserve⟩ := Except.exists_of_bind_eq_ok hobserve
  obtain ⟨cleanupPath, hpath, hobserve⟩ := Except.exists_of_bind_eq_ok hobserve
  obtain ⟨cleanupContent, hcontent, -⟩ := Except.exists_of_bind_eq_ok hobserve
  obtain ⟨content, hread, -⟩ := Except.exists_of_bind_eq_ok hmanifest
  refine ⟨Option.isSome_of_eq_some (readFile_eq_ok.1 hread), fun path hrecorded ↦ ?_⟩
  rw [RetentionStore.cleanupPath, Option.mem_def.1 hrecorded] at hpath
  rw [Except.ok.inj hpath]
  exact Option.isSome_of_eq_some (readFile_eq_ok.1 hcontent)

/-- With them there, the observation succeeds. -/
theorem observe_of_recorded {directory : StorePath} (hmem : manifest ∈ store.attempts)
    (h : store.evidence? manifest = some (policy, cleanup))
    (hdisposable : isDisposable manifest cleanup = true)
    (hpassed : deadlinePassed now manifest policy = true)
    (hdirectory : store.attemptDirectory manifest.jobId manifest.attemptId = .ok directory)
    (hrecord : (store.files (directory ++ ["cleanup.json"])).isSome = true)
    (hmanifest : (store.files (resolvePath store.cwd manifest.artifacts.manifest)).isSome = true)
    (hrecorded : ∀ path ∈ manifest.artifacts.cleanup,
      (store.files (resolvePath store.cwd path)).isSome = true) :
    ∃ observation planned, store.observe tools now manifest = .ok (observation, planned) ∧
      (observation.jobId, observation.attemptId, observation.retentionClass) =
        (manifest.jobId, manifest.attemptId, store.retentionClassOf now manifest) ∧
      planned.map GcCandidate.removal = proposed tools store manifest := by
  obtain ⟨hpolicy, hcleanup⟩ := evidence?_eq_some.1 h
  obtain ⟨detail, hclassify⟩ := exists_expired tools hdisposable hpassed
  obtain ⟨content, hcontent⟩ := Option.isSome_iff_exists.1 hmanifest
  have hsha : store.sha256File tools manifest.artifacts.manifest = .ok (tools.sha256 content) := by
    rw [sha256File, readFile_eq_ok.2 hcontent]
    rfl
  obtain ⟨path, record, hpath, hread⟩ : ∃ path record, store.cleanupPath manifest = .ok path ∧
      store.readFile path = .ok record := by
    rw [RetentionStore.cleanupPath]
    cases hartifact : manifest.artifacts.cleanup with
    | none =>
      obtain ⟨record, hrecord⟩ := Option.isSome_iff_exists.1 hrecord
      exact ⟨_, record, by rw [hdirectory]; rfl, readFile_eq_ok.2 hrecord⟩
    | some text =>
      obtain ⟨record, hrecord⟩ := Option.isSome_iff_exists.1 (hrecorded text hartifact)
      exact ⟨_, record, rfl, readFile_eq_ok.2 hrecord⟩
  have hproven : store.removalProven manifest =
      decide (cleanup.latestStatus worktreeSubject = some .proven) := by
    rw [removalProven, hcleanup]
    rfl
  rw [retentionClassOf_of_disposable h hdisposable, hpassed, if_pos rfl, worktreeLost, proposed,
    observe, readPolicy, getAttemptCleanup_of_mem hmem, hpolicy, hcleanup, hproven]
  dsimp only [bind, Except.bind, pure, Except.pure]
  rw [hclassify]
  dsimp only
  rw [if_neg (not_not.2 rfl), hsha]
  dsimp only
  rw [hpath]
  dsimp only
  rw [hread, prunableFiles, hdirectory]
  dsimp only
  cases hworkspace : manifest.workspace with
  | none =>
    simp only [Option.filter_none, Option.any_none, Bool.and_false]
    split
    · exact ⟨_, _, rfl, rfl, rfl⟩
    · exact ⟨_, _, rfl, rfl, rfl⟩
  | some workspace =>
    by_cases hstatus : cleanup.latestStatus worktreeSubject = some .proven
    · simp only [Option.filter_some, hstatus, ne_eq, not_true_eq_false, decide_false, decide_true,
        Bool.not_true, Bool.and_false, Bool.false_and, Bool.false_eq_true, if_false]
      split
      · exact ⟨_, _, rfl, rfl, rfl⟩
      · exact ⟨_, _, rfl, rfl, rfl⟩
    cases hretained : workspace.retained with
    | false =>
      simp only [Option.filter_some, Option.any_some, hretained, Bool.false_and, Bool.and_false,
        Bool.false_eq_true, if_false]
      split
      · exact ⟨_, _, rfl, rfl, rfl⟩
      · exact ⟨_, _, rfl, rfl, rfl⟩
    | true =>
      simp only [Option.filter_some, Option.any_some, hstatus, hretained, ne_eq, not_false_eq_true,
        decide_true, decide_false, Bool.not_false, Bool.true_and, if_true]
      cases store.worktrees workspace.path with
      | none => exact ⟨_, _, rfl, rfl, rfl⟩
      | some bytes => exact ⟨_, _, rfl, rfl, rfl⟩

/-- It proposes what may be removed exactly when the worktree, if it still exists, was to be kept. -/
theorem proposed_eq_removalOf_iff (hremovable : store.isRemovable now manifest = true) :
    proposed tools store manifest = store.removalOf tools now manifest ↔
      ((store.standingWorktree manifest).isSome = true →
        manifest.workspace.any AttemptWorkspace.retained = true) := by
  rw [removalOf, hremovable, standingWorktree, worktreeLost, proposed]
  cases hworkspace : manifest.workspace with
  | none => simp
  | some workspace =>
    cases hproven : store.removalProven manifest with
    | true => simp [Option.filter]
    | false =>
      cases hretained : workspace.retained <;> cases hworktree : store.worktrees workspace.path <;>
        simp [Option.filter, hretained, hworktree]

end RetentionStore

namespace JournaledStore

variable {tools : RetentionTools} {store : JournaledStore} {now : Timestamp}
  {manifest : AttemptManifest}

open RetentionStore

/-- An attempt can be observed when it has a time it finished at, should nothing but its deadline keep
it, and its recorded files, should nothing keep it. -/
def Observable (store : JournaledStore) (now : Timestamp) (manifest : AttemptManifest) : Prop :=
  (store.isSettled manifest = true → manifest.finishedAt.isSome = true) ∧
    (store.isRemovable now manifest = true →
      (store.files (resolvePath store.cwd manifest.artifacts.manifest)).isSome = true ∧
        ∀ path ∈ manifest.artifacts.cleanup,
          (store.files (resolvePath store.cwd path)).isSome = true)

/-- **Step.** What the observation of an attempt says. -/
theorem observe_spec (tools : RetentionTools) (hmem : manifest ∈ store.attempts)
    (h : store.Observable now manifest) :
    ∃ observation planned, store.observe tools now manifest = .ok (observation, planned) ∧
      (observation.jobId, observation.attemptId, observation.retentionClass) =
        (manifest.jobId, manifest.attemptId, store.retentionClassOf now manifest) ∧
      planned.map GcCandidate.removal =
        if store.isRemovable now manifest = true then proposed tools store.toRetentionStore manifest
        else none := by
  obtain ⟨hfinished, hrecorded⟩ := h
  rw [isSettled] at hfinished
  rw [isRemovable] at hrecorded ⊢
  cases hevidence : store.evidence? manifest with
  | none =>
    obtain ⟨detail, hobserve⟩ := observe_of_unreadable tools now hmem hevidence
    refine ⟨_, _, hobserve, ?_, rfl⟩
    rw [retentionClassOf, hevidence]
  | some evidence =>
    obtain ⟨policy, cleanup⟩ := evidence
    rw [hevidence] at hfinished hrecorded
    rw [Option.any_some] at hfinished hrecorded ⊢
    dsimp only at hfinished hrecorded ⊢
    cases hdisposable : isDisposable manifest cleanup with
    | false =>
      obtain ⟨detail, hobserve⟩ :=
        observe_of_not_disposable tools now hmem hevidence hdisposable
      exact ⟨_, _, hobserve, rfl, rfl⟩
    | true =>
      cases hpassed : deadlinePassed now manifest policy with
      | false =>
        obtain ⟨detail, hobserve⟩ := observe_of_retained tools hmem hevidence hdisposable
          (hfinished hdisposable) hpassed
        exact ⟨_, _, hobserve, rfl, rfl⟩
      | true =>
        rw [hdisposable, hpassed] at hrecorded
        obtain ⟨hmanifest, hcleanup⟩ := hrecorded rfl
        obtain ⟨directory, hdirectory, hrecord⟩ := store.exists_directory manifest hmem
          (Option.isSome_of_eq_some hevidence)
        exact observe_of_recorded hmem hevidence hdisposable hpassed hdirectory hrecord hmanifest
          hcleanup

/-- An attempt that is observed can be. -/
theorem observable_of_observe {observed : GcObservation × Option GcCandidate}
    (hmem : manifest ∈ store.attempts)
    (hobserve : store.observe tools now manifest = .ok observed) :
    store.Observable now manifest := by
  rw [Observable, isSettled, isRemovable]
  cases hevidence : store.evidence? manifest with
  | none => exact ⟨nofun, nofun⟩
  | some evidence =>
    obtain ⟨policy, cleanup⟩ := evidence
    rw [Option.any_some, Option.any_some]
    refine ⟨fun hdisposable ↦ ?_, fun hremovable ↦ ?_⟩
    · cases hfinished : manifest.finishedAt with
      | none =>
        rw [observe_of_unfinished hmem hevidence hdisposable hfinished] at hobserve
        exact nomatch hobserve
      | some finishedAt => rfl
    · obtain ⟨hdisposable, hpassed⟩ := Bool.and_eq_true_iff.1 hremovable
      exact recorded_of_observe hmem hevidence hdisposable hpassed hobserve

/-- The candidates and observations of a dry run, attempt by attempt. -/
theorem dryRun_spec {plan : GcPlan} (h : store.dryRun tools now = .ok plan) :
    (∀ manifest ∈ store.attempts, store.Observable now manifest) ∧
    plan.observations.map (fun observation ↦
        (observation.jobId, observation.attemptId, observation.retentionClass)) =
      store.attempts.map (fun manifest ↦
        (manifest.jobId, manifest.attemptId, store.retentionClassOf now manifest)) ∧
    plan.candidates.map GcCandidate.removal = store.attempts.filterMap (fun manifest ↦
      if store.isRemovable now manifest = true then proposed tools store.toRetentionStore manifest
      else none) ∧
    plan.totalEstimatedBytes = (plan.candidates.map GcCandidate.estimatedBytes).sum ∧
    plan.generatedAt = now ∧ plan.expiresAt = now + store.minimumGcTtl := by
  obtain ⟨observed, hobserved, h⟩ := Except.exists_of_bind_eq_ok h
  obtain rfl := Except.ok.inj h
  have hobservable (manifest : AttemptManifest) (hmem : manifest ∈ store.attempts) :
      store.Observable now manifest := by
    obtain ⟨result, -, hresult⟩ := (mapM_eq_ok hobserved).1 manifest hmem
    exact observable_of_observe hmem hresult
  have hspec (manifest : AttemptManifest) (hmem : manifest ∈ store.attempts)
      (result : GcObservation × Option GcCandidate)
      (hresult : store.observe tools now manifest = .ok result) :
      (result.1.jobId, result.1.attemptId, result.1.retentionClass) =
          (manifest.jobId, manifest.attemptId, store.retentionClassOf now manifest) ∧
        result.2.map GcCandidate.removal =
          if store.isRemovable now manifest = true then
            proposed tools store.toRetentionStore manifest
          else none := by
    obtain ⟨observation, planned, hobserve, hboth⟩ :=
      observe_spec tools hmem (hobservable manifest hmem)
    rw [Except.ok.inj (hresult.symm.trans hobserve)]
    exact hboth
  refine ⟨hobservable, ?_, ?_, rfl, rfl, rfl⟩
  · rw [← map_of_mapM hobserved fun manifest hmem result hresult ↦
      (hspec manifest hmem result hresult).1]
    exact List.map_map
  · have hmap := map_of_mapM hobserved fun manifest hmem result hresult ↦
      (hspec manifest hmem result hresult).2
    have hfilter := congrArg (List.filterMap id) hmap
    rw [List.filterMap_map, List.filterMap_map] at hfilter
    rw [List.map_filterMap]
    exact hfilter

/-! ### The plan -/

/-- Selections that are labelled by where they come from are equal only if they agree everywhere. -/
theorem eq_of_filterMap_eq {α β γ : Type} {f g : α → Option β} {label : β → γ} {key : α → γ}
    {values : List α} (hnodup : (values.map key).Nodup)
    (hf : ∀ a ∈ values, ∀ b ∈ f a, label b = key a) (hg : ∀ a ∈ values, ∀ b ∈ g a, label b = key a)
    (h : values.filterMap f = values.filterMap g) : ∀ a ∈ values, f a = g a := by
  have hone {f g : α → Option β} (hf : ∀ a ∈ values, ∀ b ∈ f a, label b = key a)
      (hg : ∀ a ∈ values, ∀ b ∈ g a, label b = key a)
      (h : values.filterMap f = values.filterMap g) {a : α} (ha : a ∈ values) {b : β}
      (hb : b ∈ f a) : b ∈ g a := by
    obtain ⟨a', ha', hb'⟩ := List.mem_filterMap.1 (h ▸ List.mem_filterMap.2 ⟨a, ha, hb⟩)
    have hsame : key a' = key a := (hg a' ha' b hb').symm.trans (hf a ha b hb)
    rwa [List.inj_on_of_nodup_map hnodup ha' ha hsame] at hb'
  exact fun a ha ↦ Option.ext fun b ↦ ⟨hone hf hg h ha, hone hg hf h.symm ha⟩

theorem attemptId_of_proposed {removal : Removal} (store : RetentionStore)
    (h : removal ∈ proposed tools store manifest) : removal.attemptId = manifest.attemptId := by
  rw [proposed] at h
  split at h
  · obtain ⟨bytes, -, rfl⟩ := Option.map_eq_some_iff.1 h
    rfl
  · dsimp only at h
    split at h
    · exact nomatch h
    · rw [← Option.some.inj h]

theorem attemptId_of_removalOf {removal : Removal} (store : RetentionStore)
    (h : removal ∈ store.removalOf tools now manifest) :
    removal.attemptId = manifest.attemptId := by
  rw [removalOf] at h
  split at h
  · exact nomatch h
  split at h
  · rw [← Option.some.inj h]
  · dsimp only at h
    split at h
    · exact nomatch h
    · rw [← Option.some.inj h]

theorem removalOf_of_not_removable (h : store.isRemovable now manifest = false) :
    store.removalOf tools now manifest = none := by
  rw [removalOf, h]
  rfl

theorem parse_eq_ok {plan plan' : GcPlan} :
    plan.parse = .ok plan' ↔ (plan.generatedAt < yearTenThousand ∧
      plan.expiresAt < yearTenThousand ∧ plan.totalEstimatedBytes ≤ maxSafeInteger) ∧
      plan = plan' := by
  rw [GcPlan.parse, check_eq_ok, check_eq_ok, check_eq_ok, throwUnless_bool_eq_ok,
    throwUnless_bool_eq_ok, throwUnless_bool_eq_ok, decide_eq_true_eq, decide_eq_true_eq,
    decide_eq_true_eq, and_assoc, and_assoc]
  exact and_congr_right fun _ ↦ and_congr_right fun _ ↦ and_congr_right fun _ ↦
    ⟨Except.ok.inj, fun heq ↦ heq ▸ rfl⟩

end JournaledStore

namespace UnfinishedPlan

/-- An attempt that failed, with no time in its manifest. -/
def manifest : AttemptManifest := { RecordPlan.manifest with finishedAt := none }

/-- A data root with this attempt, and one that runs and whose cleanup record cannot be read. -/
def store : JournaledStore where
  toRetentionStore :=
    { RecordPlan.store with
      attempts := [manifest,
        { RecordPlan.manifest with attemptId := ⟨"job", 2⟩, status := .running, finishedAt := none }]
      cleanups := fun attemptId ↦
        if attemptId = ⟨"job", 1⟩ then some (createAttemptCleanupRecord ⟨"job", 1⟩ 0) else none
      distinct := by decide }
  exists_directory := by
    intro other hmem hevidence
    rcases List.mem_cons.1 hmem with rfl | hmem
    · exact ⟨RecordPlan.directory, by decide +kernel, by decide +kernel⟩
    · obtain rfl := List.mem_singleton.1 hmem
      exact nomatch hevidence

end UnfinishedPlan

end CodeConductor
