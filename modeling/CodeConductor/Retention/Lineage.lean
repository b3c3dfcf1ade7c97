import CodeConductor.Contracts.Checks
import CodeConductor.Contracts.Job
import CodeConductor.Json.Canonical
import CodeConductor.Retention.Respect

/-!
# Retention and proposal lineage

Each attempt is retained by its own age and disposition, but the patch of one attempt is part of the
evidence of every attempt that builds on it. So a plan leaves the reviews and compositions of all
attempts that are not expired as they are exactly when no expired attempt whose files would go has
a file that is bound by the lineage of an attempt that is active, reviewable or retained
(`lineageRespected_iff`). Nothing makes sure of that (`not_lineageRespected_acceptedParent`).
-/

namespace CodeConductor

/-- What lineages are checked against, besides the records and files that retention reads. -/
structure LineageTools where
  /-- The contract of a job that can be read. -/
  contract : JobId → JobContract
  /-- `verificationRecordSchema.parse(JSON.parse(text)).eligibleForReview`. -/
  eligibleForReview : List UInt8 → Except RuntimeError Bool
  /-- `fingerprint` of a contribution. -/
  fingerprint : ProposalContribution → String
  /-- Fingerprints do not collide. -/
  fingerprint_injective : Function.Injective fingerprint

/-- What the review of an attempt reads once its lineage is checked, and the files its lineage binds. -/
structure ReviewView where
  contract : JobContract
  manifest : AttemptManifest
  cleanup : AttemptCleanupRecord
  /-- The files in the directory of the attempt. -/
  own : StorePath → Option (List UInt8)
  /-- The patch and the verification of each contribution. -/
  lineage : List (Option (List UInt8) × Option (List UInt8))

namespace RetentionStore

section

variable (tools : RetentionTools) (records : LineageTools) (store : RetentionStore)

/-- `readJob`. -/
def readJob (jobId : JobId) : Except RuntimeError JobContract := do
  let _ ← store.readPolicy jobId
  return records.contract jobId

/-- `getVerification`, and whether it is eligible for review. -/
def getVerification (attemptId : AttemptId) : Except RuntimeError Bool := do
  let manifest ← store.getAttempt attemptId
  let content ← store.readFile (resolvePath store.cwd manifest.artifacts.verification)
  records.eligibleForReview content

/-- `bindProposalContribution`. -/
def bindProposalContribution (childContract : JobContract) (parent : AttemptManifest) :
    Except RuntimeError ProposalContribution := do
  let proposal := "Proposal " ++ parent.attemptId.text
  let parentContract ← store.readJob records parent.jobId
  if resolvePath store.cwd parentContract.repositoryRoot ≠
      resolvePath store.cwd childContract.repositoryRoot then
    throw (.plain (proposal ++ " belongs to a different repository"))
  if parentContract.baseRevision ≠ childContract.baseRevision then
    throw (.plain (proposal ++ " starts from " ++ parentContract.baseRevision ++ ", not " ++
      childContract.baseRevision))
  match parent.workspace.filter fun _ ↦
      parent.status = .completed && parent.verificationStatus = .eligible with
  | none => throw (.plain (proposal ++ " is not a completed eligible workspace attempt"))
  | some workspace =>
    if parent.reviewDisposition ∈ [.rejected, .superseded] then
      throw (.plain (proposal ++ " was " ++ parent.reviewDisposition.text ++
        " by its review authority"))
    let eligible ← store.getVerification records parent.attemptId
    if !eligible then throw (.plain (proposal ++ " lacks eligible deterministic evidence"))
    let patch ← store.readFile (resolvePath store.cwd parent.artifacts.proposalPatch)
    let verificationSha256 ← store.sha256File tools parent.artifacts.verification
    return {
      jobId := parent.jobId
      attemptId := parent.attemptId
      jobRequestFingerprint := parentContract.requestFingerprint
      sourceBaseRevision := parentContract.baseRevision
      patchBaseRevision := workspace.baseRevision
      patchPath := parent.artifacts.proposalPatch
      patchSha256 := tools.sha256 patch
      patchBytes := patch.length
      verificationPath := parent.artifacts.verification
      verificationSha256 }

/-- The check of a contribution. -/
def validateContribution (contract : JobContract) (expected : ProposalContribution) :
    Except RuntimeError Unit := do
  let parent ← store.getAttempt expected.attemptId
  let actual ← store.bindProposalContribution tools records contract parent
  if records.fingerprint actual ≠ records.fingerprint expected then
    throw (.plain ("Proposal evidence binding changed for " ++ expected.attemptId.text))

/-- `validateProposalLineage`. -/
def validateProposalLineage (contract : JobContract) (lineage : ProposalLineage) :
    Except RuntimeError Unit := do
  if lineage.sourceBaseRevision ≠ contract.baseRevision then
    throw (.plain "Proposal lineage source revision changed")
  lineage.contributions.forM (store.validateContribution tools records contract)

/-- The contributions of the lineage of an attempt. -/
def contributions (manifest : AttemptManifest) : List ProposalContribution :=
  (manifest.lineage.map ProposalLineage.contributions).getD []

/-- The files the lineage of an attempt binds. -/
def lineageFiles (manifest : AttemptManifest) : List StorePath :=
  (contributions manifest).flatMap fun contribution ↦
    [resolvePath store.cwd contribution.patchPath,
      resolvePath store.cwd contribution.verificationPath]

/-- The check of the lineage of an attempt that was composed. -/
def validateComposed (contract : JobContract) (manifest : AttemptManifest) :
    Except RuntimeError Unit :=
  match manifest.lineage with
  | none => .ok ()
  | some lineage =>
    if lineage.status = .composed then store.validateProposalLineage tools records contract lineage
    else .ok ()

/-- `readOrCreateReviewPacket`, up to what is read for the packet. -/
def reviewView (manifest : AttemptManifest) : Except RuntimeError ReviewView := do
  throwUnless (manifest.status = .completed ∧ manifest.verificationStatus = .eligible)
    (.plain ("Attempt " ++ manifest.attemptId.text ++ " is not eligible for review"))
  let contract ← store.readJob records manifest.jobId
  store.validateComposed tools records contract manifest
  let directory ← store.attemptDirectory manifest.jobId manifest.attemptId
  let cleanup ← store.getAttemptCleanup manifest.attemptId
  throwUnless cleanup.status.isSafe
    (.plain ("Attempt " ++ manifest.attemptId.text ++ " cleanup is " ++ cleanup.status.text))
  return {
    contract
    manifest
    cleanup
    own := fun path ↦ if directory <+: path then store.files path else none
    lineage := (contributions manifest).map fun contribution ↦
      (store.files (resolvePath store.cwd contribution.patchPath),
        store.files (resolvePath store.cwd contribution.verificationPath)) }

/-- The patches an attempt that has not started yet is composed from. -/
def compositionPatches (manifest : AttemptManifest) : Except RuntimeError (List (List UInt8)) :=
  match manifest.lineage with
  | none => .ok []
  | some lineage => do
    let contract ← store.readJob records manifest.jobId
    store.validateProposalLineage tools records contract lineage
    lineage.contributions.mapM fun contribution ↦
      store.readFile (resolvePath store.cwd contribution.patchPath)

/-- `classifyRetention` classes the attempt as active, reviewable or retained. -/
def InUse (manifest : AttemptManifest) (now : Timestamp) : Prop :=
  ∃ retentionClass detail, store.classOf tools manifest now = .ok ⟨retentionClass, detail⟩ ∧
    retentionClass ∈ [RetentionClass.active, .reviewable, .retained]

/-- The files that go or are written over when the files of an attempt are removed. -/
def prunedFiles (manifest : AttemptManifest) : List StorePath :=
  match store.attemptDirectory manifest.jobId manifest.attemptId with
  | .error _ => []
  | .ok directory =>
    match (store.collectPrunableFiles tools directory).mapM fun file ↦
        resolveBoundFile directory file.relativePath with
    | .error _ => []
    | .ok [] => []
    | .ok targets => targets ++ [directory ++ ["gc-tombstone.json"]]

end

end RetentionStore

/-- The file a change deletes or writes. -/
def GcMutation.target : GcMutation → Option StorePath
  | .file _ target => some target
  | .tombstone _ target => some target
  | .workspace _ => none

section

variable (tools : RetentionTools) (records : LineageTools) (store : RetentionStore)
  (now : Timestamp)

/-- A plan respects lineage: it has no change of a file that is bound by the lineage of an attempt in
use, and after it is applied every attempt that is not expired is reviewed as before, and every
attempt in use is composed as before. -/
structure RespectsLineage (plan : GcPlan) : Prop where
  spared : ∀ manifest ∈ store.attempts, store.InUse tools manifest now →
    ∀ mutation ∈ store.planSteps plan, ∀ path ∈ mutation.target,
      path ∉ store.lineageFiles manifest
  reviews : ∀ outside approval later progress status,
    store.apply tools outside plan approval later = .ok (progress, status) →
      ∀ manifest ∈ store.attempts, ¬store.Expired tools manifest now →
        (progress.store.reviewView tools records manifest).toOption =
          (store.reviewView tools records manifest).toOption
  compositions : ∀ outside approval later progress status,
    store.apply tools outside plan approval later = .ok (progress, status) →
      ∀ manifest ∈ store.attempts, store.InUse tools manifest now →
        (progress.store.compositionPatches tools records manifest).toOption =
          (store.compositionPatches tools records manifest).toOption

/-- Retention respects lineage: every plan it makes does. -/
def LineageRespected : Prop :=
  ∀ plan, store.dryRun tools now = .ok plan → RespectsLineage tools records store now plan

/-- No expired attempt whose files would go, its worktree being gone, has one that the lineage of an
attempt in use binds. That is, as far as the evidence of every attempt can be read. -/
def LineageApart : Prop :=
  (∀ manifest ∈ store.attempts, ∃ observed, store.observe tools now manifest = .ok observed) →
    ∀ parent ∈ store.attempts, store.Expired tools parent now → store.ownsWorktree parent = none →
      ∀ manifest ∈ store.attempts, store.InUse tools manifest now →
        ∀ path ∈ store.prunedFiles tools parent, path ∉ store.lineageFiles manifest

end

/-! ### Attempt directories -/

theorem isDigit_of_mem_padStart {width n : ℕ} {c : Char} (h : c ∈ (padStart width n).toList) :
    c.isDigit = true := by
  have hlist : (padStart width n).toList = List.replicate (width - (Nat.toDigits 10 n).length) '0' ++
      Nat.toDigits 10 n := String.toList_ofList
  rw [hlist] at h
  rcases List.mem_append.1 h with hzero | hdigit
  · rw [List.eq_of_mem_replicate hzero]
    rfl
  · exact Nat.isDigit_of_mem_toDigits (by decide) (by decide) hdigit

theorem padStart_injective (width : ℕ) : Function.Injective (padStart width) := by
  intro m n h
  have hvalue (k : ℕ) : Nat.ofDigitChars 10 (padStart width k).toList 0 = k := by
    have hlist : (padStart width k).toList =
        List.replicate (width - (Nat.toDigits 10 k).length) '0' ++ Nat.toDigits 10 k :=
      String.toList_ofList
    rw [hlist, Nat.ofDigitChars_append, Nat.ofDigitChars_replicate_zero, Nat.mul_zero,
      Nat.ofDigitChars_ten_toDigits]
  rw [← hvalue m, h, hvalue n]

theorem toList_text (id : AttemptId) : id.text.toList =
    id.jobId.toList ++ '_' :: 'a' :: (padStart 4 id.ordinal).toList := by
  rw [AttemptId.text, String.toList_append, String.toList_append, List.append_assoc]
  rfl

/-- The text of an attempt id tells the attempt. -/
theorem text_injective : Function.Injective AttemptId.text := by
  intro id other h
  have htext := congrArg String.toList h
  rw [toList_text, toList_text] at htext
  -- Read from the end, the digits stop at the letter before them.
  have hread (id : AttemptId) :
      ((id.jobId.toList ++ '_' :: 'a' :: (padStart 4 id.ordinal).toList).reverse.takeWhile
        Char.isDigit) = (padStart 4 id.ordinal).toList.reverse := by
    rw [List.reverse_append, List.reverse_cons, List.reverse_cons, List.append_assoc,
      List.append_assoc, List.takeWhile_append_of_pos fun c hc ↦
        isDigit_of_mem_padStart (List.mem_reverse.1 hc)]
    exact List.append_nil _
  have hdigits := (hread id).symm.trans (htext ▸ hread other)
  have hordinal : id.ordinal = other.ordinal :=
    padStart_injective 4 (String.toList_inj.1 (List.reverse_injective hdigits))
  rw [hordinal] at htext
  have hjob : id.jobId = other.jobId := String.toList_inj.1 (List.append_cancel_right htext)
  cases id
  cases other
  exact congrArg₂ AttemptId.mk hjob hordinal

theorem safeSegment_eq_ok {value segment : String} (h : safeSegment value = .ok segment) :
    segment = value ∧ value ≠ "" ∧ '/' ∉ value.toList := by
  unfold safeSegment at h
  split at h
  · rename_i hsafe
    refine ⟨(Except.ok.inj h).symm, hsafe.1, fun hslash ↦ ?_⟩
    exact absurd (List.all_eq_true.1 hsafe.2 _ hslash) (by decide)
  · exact nomatch h

/-- What a segment adds to a path. -/
def addSegment (path : StorePath) (segment : String) : StorePath :=
  if segment = "" ∨ segment = "." then path
  else if segment = ".." then path.dropLast
  else path ++ [segment]

theorem resolvePath_jobs {root : StorePath} {job attempt : String} (hjob : '/' ∉ job.toList)
    (hattempt : '/' ∉ attempt.toList) :
    resolvePath root ("jobs/" ++ job ++ "/attempts/" ++ attempt) =
      [("jobs" : String), job, "attempts", attempt].foldl addSegment root := by
  have hlist : ("jobs/" ++ job ++ "/attempts/" ++ attempt).toList = ['j', 'o', 'b', 's'] ++
      '/' :: (job.toList ++ '/' :: (['a', 't', 't', 'e', 'm', 'p', 't', 's'] ++
        '/' :: attempt.toList)) := by
    simp only [String.toList_append, List.append_assoc]
    rfl
  unfold resolvePath
  rw [hlist, List.splitOn_append_cons_self, List.splitOn_append_cons_self,
    List.splitOn_append_cons_self, List.splitOn_eq_singleton hjob,
    List.splitOn_eq_singleton hattempt, List.splitOn_eq_singleton (by decide),
    List.splitOn_eq_singleton (by decide)]
  simp only [List.singleton_append, List.map_cons, List.map_nil, String.ofList_toList]
  rfl

/-- Where the directory of an attempt is. -/
theorem attemptDirectory_eq_ok {store : RetentionStore} {jobId : String} {attemptId : AttemptId}
    {directory : StorePath} (h : store.attemptDirectory jobId attemptId = .ok directory) :
    ∃ tail, directory = store.root ++ tail ∧
      (tail = ["jobs", jobId, "attempts", attemptId.text] ∨
        tail = ["jobs", "attempts", attemptId.text] ∨ tail = ["attempts", attemptId.text]) := by
  obtain ⟨job, hjob, h⟩ := Except.exists_of_bind_eq_ok h
  obtain ⟨attempt, hattempt, h⟩ := Except.exists_of_bind_eq_ok h
  obtain ⟨rfl, hne, hslash⟩ := safeSegment_eq_ok hjob
  obtain ⟨rfl, hne', hslash'⟩ := safeSegment_eq_ok hattempt
  have hunderscore : '_' ∈ attemptId.text.toList := by
    rw [toList_text]
    exact List.mem_append_right _ List.mem_cons_self
  have hdot : attemptId.text ≠ "." := fun heq ↦ absurd (heq ▸ hunderscore) (by decide)
  have hdots : attemptId.text ≠ ".." := fun heq ↦ absurd (heq ▸ hunderscore) (by decide)
  have hadd (path : StorePath) : addSegment path attemptId.text = path ++ [attemptId.text] := by
    rw [addSegment, if_neg (not_or.2 ⟨hne', hdot⟩), if_neg hdots]
  obtain rfl := Except.ok.inj h
  rw [resolvePath_jobs hslash hslash']
  simp only [List.foldl_cons, List.foldl_nil, hadd]
  have hplain (path : StorePath) : addSegment path "attempts" = path ++ ["attempts"] := rfl
  have hjobs : addSegment store.root "jobs" = store.root ++ ["jobs"] := rfl
  rw [hplain, hjobs, addSegment]
  split
  · exact ⟨_, by simp, .inr (.inl rfl)⟩
  · split
    · exact ⟨_, by simp, .inr (.inr rfl)⟩
    · exact ⟨_, by simp, .inl rfl⟩

/-- **Directories of different attempts hold nothing in common.** -/
theorem attemptId_eq_of_directories {store : RetentionStore} {jobId jobId' : String}
    {attemptId attemptId' : AttemptId} {directory directory' path : StorePath}
    (h : store.attemptDirectory jobId attemptId = .ok directory)
    (h' : store.attemptDirectory jobId' attemptId' = .ok directory')
    (hpath : directory <+: path) (hpath' : directory' <+: path) : attemptId = attemptId' := by
  have hnot (id : AttemptId) : ("attempts" : String) ≠ id.text := by
    intro heq
    have hunderscore : '_' ∈ id.text.toList := by
      rw [toList_text]
      exact List.mem_append_right _ List.mem_cons_self
    exact absurd (heq ▸ hunderscore) (by decide)
  obtain ⟨tail, rfl, htail⟩ := attemptDirectory_eq_ok h
  obtain ⟨tail', rfl, htail'⟩ := attemptDirectory_eq_ok h'
  have hcomparable := List.prefix_or_prefix_of_prefix hpath hpath'
  rw [List.prefix_append_right_inj, List.prefix_append_right_inj] at hcomparable
  refine text_injective ?_
  rcases htail with rfl | rfl | rfl <;> rcases htail' with rfl | rfl | rfl <;>
    simp [List.cons_prefix_cons, hnot, (hnot _).symm] at hcomparable <;>
    grind

namespace RetentionStore

variable {tools : RetentionTools} {store : RetentionStore} {now : Timestamp}

/-! ### What a plan holds -/

theorem classOf_eq_ok {manifest : AttemptManifest} {classified : Classified} :
    store.classOf tools manifest now = .ok classified ↔ ∃ policy cleanup,
      store.readPolicy manifest.jobId = .ok policy ∧
      store.getAttemptCleanup manifest.attemptId = .ok cleanup ∧
      classifyRetention tools manifest cleanup.status policy now = .ok classified := by
  constructor
  · intro h
    obtain ⟨policy, hpolicy, h⟩ := Except.exists_of_bind_eq_ok h
    obtain ⟨cleanup, hcleanup, h⟩ := Except.exists_of_bind_eq_ok h
    exact ⟨policy, cleanup, hpolicy, hcleanup, h⟩
  · rintro ⟨policy, cleanup, hpolicy, hcleanup, h⟩
    rw [classOf, hpolicy]
    dsimp only [Bind.bind, Except.bind]
    rw [hcleanup]
    exact h

theorem getAttemptCleanup_eq_ok {attemptId : AttemptId} {cleanup : AttemptCleanupRecord}
    (h : store.getAttemptCleanup attemptId = .ok cleanup) :
    store.cleanups attemptId = some cleanup := by
  obtain ⟨manifest, hmanifest, h⟩ := Except.exists_of_bind_eq_ok h
  rw [(getAttempt_eq_ok hmanifest).2] at h
  split at h
  · rename_i found hfound
    rw [hfound, Except.ok.inj h]
  · exact nomatch h

/-- The files of an attempt are planned for once its worktree is gone. -/
theorem ownsWorktree_eq_none_iff {manifest : AttemptManifest} {cleanup : AttemptCleanupRecord}
    (hcleanup : store.cleanups manifest.attemptId = some cleanup) :
    store.ownsWorktree manifest = none ↔ (manifest.workspace.filter fun workspace ↦
      workspace.retained && cleanup.latestStatus worktreeSubject ≠ some .proven) = none := by
  unfold ownsWorktree
  rw [hcleanup]
  cases manifest.workspace with
  | none => simp
  | some workspace =>
    by_cases hretained : workspace.retained = true <;>
      by_cases hproven : cleanup.latestStatus worktreeSubject = some .proven <;>
        simp [Option.filter, hretained, hproven]

/-- What a candidate was made for. -/
structure CandidateOf (tools : RetentionTools) (store : RetentionStore) (now : Timestamp)
    (manifest : AttemptManifest) (candidate : GcCandidate) : Prop where
  expired : store.Expired tools manifest now
  attemptId : candidate.attemptId = manifest.attemptId
  jobId : candidate.jobId = manifest.jobId
  kind : candidate.kind = .workspace ∨ (candidate.kind = .attemptArtifacts ∧
    store.ownsWorktree manifest = none ∧ ∃ directory,
      store.attemptDirectory manifest.jobId manifest.attemptId = .ok directory ∧
      candidate.files = store.collectPrunableFiles tools directory ∧ candidate.files ≠ [])

theorem candidateOf_observe {manifest : AttemptManifest} {observation : GcObservation}
    {candidate : GcCandidate}
    (h : store.observe tools now manifest = .ok (observation, some candidate)) :
    CandidateOf tools store now manifest candidate := by
  unfold observe at h
  dsimp only at h
  split at h
  · exact nomatch (Prod.mk.inj (Except.ok.inj h)).2
  · rename_i policy cleanup hread
    obtain ⟨policy', hpolicy, hread⟩ := Except.exists_of_bind_eq_ok hread
    obtain ⟨cleanup', hcleanup, hread⟩ := Except.exists_of_bind_eq_ok hread
    obtain ⟨rfl, rfl⟩ := Prod.mk.inj (Except.ok.inj hread)
    obtain ⟨classified, hclassified, h⟩ := Except.exists_of_bind_eq_ok h
    split at h
    · exact nomatch (Prod.mk.inj (Except.ok.inj h)).2
    · rename_i hexpired
      have hclass : classified = ⟨.expired, classified.detail⟩ := by
        cases classified
        exact congrArg (Classified.mk · _) (not_not.1 hexpired)
      have hexpired' : store.Expired tools manifest now :=
        ⟨_, hclass ▸ classOf_eq_ok.2 ⟨policy', cleanup', hpolicy, hcleanup, hclassified⟩⟩
      obtain ⟨manifestSha256, -, h⟩ := Except.exists_of_bind_eq_ok h
      obtain ⟨cleanupPath, -, h⟩ := Except.exists_of_bind_eq_ok h
      obtain ⟨cleanupContent, -, h⟩ := Except.exists_of_bind_eq_ok h
      split at h
      · split at h
        · obtain rfl := Option.some.inj (Prod.mk.inj (Except.ok.inj h)).2
          exact ⟨hexpired', rfl, rfl, .inl rfl⟩
        · exact nomatch (Prod.mk.inj (Except.ok.inj h)).2
      · rename_i hsettled
        obtain ⟨directory, hdirectory, h⟩ := Except.exists_of_bind_eq_ok h
        split at h
        · exact nomatch (Prod.mk.inj (Except.ok.inj h)).2
        · rename_i hfiles
          obtain rfl := Option.some.inj (Prod.mk.inj (Except.ok.inj h)).2
          exact ⟨hexpired', rfl, rfl, .inr ⟨rfl,
            (ownsWorktree_eq_none_iff (getAttemptCleanup_eq_ok hcleanup)).2 hsettled,
            directory, hdirectory, rfl, hfiles⟩⟩

/-- An expired attempt whose worktree is gone is planned for, if it has a file to remove. -/
theorem exists_candidate {manifest : AttemptManifest}
    {observed : GcObservation × Option GcCandidate}
    (hobserved : store.observe tools now manifest = .ok observed)
    (hexpired : store.Expired tools manifest now) (howns : store.ownsWorktree manifest = none)
    {directory : StorePath}
    (hdirectory : store.attemptDirectory manifest.jobId manifest.attemptId = .ok directory)
    (hfiles : store.collectPrunableFiles tools directory ≠ []) :
    ∃ candidate, observed.2 = some candidate ∧ candidate.kind = .attemptArtifacts ∧
      candidate.jobId = manifest.jobId ∧ candidate.attemptId = manifest.attemptId ∧
      candidate.files = store.collectPrunableFiles tools directory := by
  obtain ⟨detail, hclass⟩ := hexpired
  obtain ⟨policy, cleanup, hpolicy, hcleanup, hclassified⟩ := classOf_eq_ok.1 hclass
  have hsettled := (ownsWorktree_eq_none_iff (getAttemptCleanup_eq_ok hcleanup)).1 howns
  unfold observe at hobserved
  rw [hpolicy, hcleanup] at hobserved
  dsimp only [Bind.bind, Except.bind, pure, Except.pure] at hobserved
  rw [hclassified, hsettled] at hobserved
  dsimp only at hobserved
  rw [if_neg (not_not.2 rfl)] at hobserved
  obtain ⟨manifestSha256, -, hobserved⟩ := Except.exists_of_bind_eq_ok hobserved
  obtain ⟨cleanupPath, -, hobserved⟩ := Except.exists_of_bind_eq_ok hobserved
  obtain ⟨cleanupContent, -, hobserved⟩ := Except.exists_of_bind_eq_ok hobserved
  rw [hdirectory] at hobserved
  dsimp only at hobserved
  rw [if_neg hfiles] at hobserved
  obtain rfl := Except.ok.inj hobserved
  exact ⟨_, rfl, rfl, rfl, rfl, rfl⟩

/-- The changes of a candidate are of the files that go with the attempt. -/
theorem mem_prunedFiles_iff {manifest : AttemptManifest} {candidate : GcCandidate}
    (hkind : candidate.kind = .attemptArtifacts) (hjob : candidate.jobId = manifest.jobId)
    (hattempt : candidate.attemptId = manifest.attemptId) {directory : StorePath}
    (hdirectory : store.attemptDirectory manifest.jobId manifest.attemptId = .ok directory)
    (hfiles : candidate.files = store.collectPrunableFiles tools directory)
    (hne : candidate.files ≠ []) {path : StorePath} :
    path ∈ store.prunedFiles tools manifest ↔
      ∃ mutation ∈ store.steps candidate, path ∈ mutation.target := by
  unfold prunedFiles steps mutations
  rw [hkind, hjob, hattempt, hdirectory]
  dsimp only [Bind.bind, Except.bind]
  rw [← hfiles]
  cases htargets : candidate.files.mapM fun file ↦ resolveBoundFile directory file.relativePath with
  | error error => simp
  | ok targets =>
    cases targets with
    | nil =>
      cases hcandidate : candidate.files with
      | nil => exact absurd hcandidate hne
      | cons file rest =>
        rw [hcandidate, List.mapM_cons] at htargets
        obtain ⟨_, -, h⟩ := Except.exists_of_bind_eq_ok htargets
        obtain ⟨_, -, h⟩ := Except.exists_of_bind_eq_ok h
        exact nomatch Except.ok.inj h
    | cons target rest =>
      dsimp only [pure, Except.pure]
      simp only [List.mem_append, List.mem_singleton, or_and_right, exists_or, exists_eq_left,
        List.mem_map, GcMutation.target, Option.mem_def, Option.some.injEq]
      constructor
      · rintro (hmem | rfl)
        · exact .inl ⟨_, ⟨path, hmem, rfl⟩, rfl⟩
        · exact .inr rfl
      · rintro (⟨_, ⟨target', hmem, rfl⟩, htarget⟩ | rfl)
        · exact .inl (Option.some.inj htarget ▸ hmem)
        · exact .inr rfl

theorem mem_candidates {plan : GcPlan} (h : store.dryRun tools now = .ok plan)
    {candidate : GcCandidate} : candidate ∈ plan.candidates ↔
      ∃ manifest ∈ store.attempts, ∃ observation,
        store.observe tools now manifest = .ok (observation, some candidate) := by
  obtain ⟨observed, hobserved, h⟩ := Except.exists_of_bind_eq_ok h
  obtain rfl := Except.ok.inj h
  obtain ⟨hattempts, hresults⟩ := mapM_eq_ok hobserved
  change candidate ∈ observed.filterMap Prod.snd ↔ _
  rw [List.mem_filterMap]
  constructor
  · rintro ⟨⟨observation, _⟩, hmem, rfl⟩
    obtain ⟨manifest, hmanifest, hobserve⟩ := hresults _ hmem
    exact ⟨manifest, hmanifest, observation, hobserve⟩
  · rintro ⟨manifest, hmanifest, observation, hobserve⟩
    obtain ⟨result, hmem, hresult⟩ := hattempts manifest hmanifest
    exact ⟨result, hmem, by rw [Except.ok.inj (hresult.symm.trans hobserve)]⟩

/-- Every change of a file that a plan makes is of a file that goes with an expired attempt whose
worktree is gone. -/
theorem prunedFiles_of_planSteps {plan : GcPlan} (h : store.dryRun tools now = .ok plan)
    {mutation : GcMutation} (hmutation : mutation ∈ store.planSteps plan) {path : StorePath}
    (hpath : path ∈ mutation.target) : ∃ parent ∈ store.attempts, store.Expired tools parent now ∧
      store.ownsWorktree parent = none ∧ path ∈ store.prunedFiles tools parent := by
  obtain ⟨candidate, hcandidate, hstep⟩ := List.mem_flatMap.1 hmutation
  obtain ⟨parent, hparent, observation, hobserve⟩ := (mem_candidates h).1 hcandidate
  obtain ⟨hexpired, hattempt, hjob, hkind⟩ := candidateOf_observe hobserve
  rcases hkind with hworkspace | ⟨hartifacts, howns, directory, hdirectory, hfiles, hne⟩
  · unfold steps mutations at hstep
    rw [hworkspace] at hstep
    obtain rfl := List.mem_singleton.1 hstep
    exact nomatch hpath
  · exact ⟨parent, hparent, hexpired, howns,
      (mem_prunedFiles_iff hartifacts hjob hattempt hdirectory hfiles hne).2
        ⟨mutation, hstep, hpath⟩⟩

/-- Every file that goes with an expired attempt whose worktree is gone is changed by the plan. -/
theorem planSteps_of_prunedFiles {plan : GcPlan} (h : store.dryRun tools now = .ok plan)
    {parent : AttemptManifest} (hparent : parent ∈ store.attempts)
    (hexpired : store.Expired tools parent now) (howns : store.ownsWorktree parent = none)
    {path : StorePath} (hpath : path ∈ store.prunedFiles tools parent) :
    ∃ mutation ∈ store.planSteps plan, path ∈ mutation.target := by
  have hdirectory : ∃ directory,
      store.attemptDirectory parent.jobId parent.attemptId = .ok directory ∧
        store.collectPrunableFiles tools directory ≠ [] := by
    unfold prunedFiles at hpath
    split at hpath
    · exact absurd hpath List.not_mem_nil
    · rename_i directory hdirectory
      refine ⟨directory, hdirectory, fun hnil ↦ ?_⟩
      rw [hnil] at hpath
      exact absurd hpath List.not_mem_nil
  obtain ⟨directory, hdirectory, hne⟩ := hdirectory
  have hobservable : ∃ observed, store.observe tools now parent = .ok observed := by
    obtain ⟨observed, hobserved, -⟩ := Except.exists_of_bind_eq_ok h
    obtain ⟨result, -, hresult⟩ := (mapM_eq_ok hobserved).1 parent hparent
    exact ⟨result, hresult⟩
  obtain ⟨⟨observation, planned⟩, hobserve⟩ := hobservable
  obtain ⟨candidate, rfl, hkind, hjob, hattempt, hfiles⟩ :=
    exists_candidate hobserve hexpired howns hdirectory hne
  obtain ⟨mutation, hstep, htarget⟩ :=
    (mem_prunedFiles_iff hkind hjob hattempt hdirectory hfiles (hfiles ▸ hne)).1 hpath
  exact ⟨mutation, List.mem_flatMap.2 ⟨candidate,
    (mem_candidates h).2 ⟨parent, hparent, observation, hobserve⟩, hstep⟩, htarget⟩

theorem exists_dryRun (h : ∀ manifest ∈ store.attempts,
    ∃ observed, store.observe tools now manifest = .ok observed) :
    ∃ plan, store.dryRun tools now = .ok plan := by
  obtain ⟨observed, hobserved⟩ := exists_mapM_eq_ok h
  exact ⟨_, by rw [dryRun, hobserved]; rfl⟩

/-! ### What applying a plan leaves -/

variable {outside : GcOutside} {plan : GcPlan} {later : Timestamp}

/-- All but the files that are changed, and the cleanup records of attempts whose worktree is removed,
is as it was. -/
structure Unchanged (store current : RetentionStore) (mutations : List GcMutation) : Prop where
  cwd : current.cwd = store.cwd
  root : current.root = store.root
  attempts : current.attempts = store.attempts
  policies : current.policies = store.policies
  files : ∀ path, (∀ mutation ∈ mutations, path ∉ mutation.target) →
    current.files path = store.files path
  cleanups : ∀ attemptId, (∀ candidate, .workspace candidate ∈ mutations →
    candidate.attemptId ≠ attemptId) → current.cleanups attemptId = store.cleanups attemptId

theorem Unchanged.refl (store : RetentionStore) (mutations : List GcMutation) :
    Unchanged store store mutations :=
  ⟨rfl, rfl, rfl, rfl, fun _ _ ↦ rfl, fun _ _ ↦ rfl⟩

/-- One change. -/
theorem unchanged_mutate (mutation : GcMutation) :
    Unchanged store (mutate tools outside plan later store mutation).1 [mutation] := by
  cases mutation with
  | workspace candidate =>
    change Unchanged store (removeAttemptWorkspace outside store candidate.attemptId).1 _
    have hset : Unchanged store (store.setCleanup candidate.attemptId
        (outside.cleanupAfter candidate.attemptId)) [.workspace candidate] := by
      refine ⟨rfl, rfl, rfl, rfl, fun _ _ ↦ rfl, fun attemptId h ↦ ?_⟩
      have hne := h candidate (List.mem_singleton_self _)
      exact if_neg (Ne.symm hne)
    rcases removeAttemptWorkspace_cases outside store candidate.attemptId with
      heq | ⟨owner, path, -, -, -, heq | heq⟩
    · rw [heq]
      exact .refl store _
    · rw [heq]
      exact ⟨hset.cwd, hset.root, hset.attempts, hset.policies, hset.files, hset.cleanups⟩
    · rw [heq]
      exact hset
  | file candidate target =>
    simp only [mutate]
    split
    · exact .refl store _
    · exact .refl store _
    · refine ⟨rfl, rfl, rfl, rfl, fun path h ↦ ?_, fun _ _ ↦ rfl⟩
      have hne : path ≠ target := fun heq ↦ h _ (List.mem_singleton_self _) (heq ▸ rfl)
      exact if_neg hne
  | tombstone candidate target =>
    simp only [mutate]
    split
    · exact .refl store _
    · refine ⟨rfl, rfl, rfl, rfl, fun path h ↦ ?_, fun _ _ ↦ rfl⟩
      have hne : path ≠ target := fun heq ↦ h _ (List.mem_singleton_self _) (heq ▸ rfl)
      exact if_neg hne

/-- Changes in sequence. -/
theorem unchanged_mutateAll (mutations : List GcMutation) (progress : GcProgress) :
    Unchanged progress.store (mutateAll tools outside plan later mutations progress).1.store
      mutations := by
  induction mutations generalizing progress with
  | nil => exact .refl _ _
  | cons mutation rest ih =>
    have hfirst : Unchanged progress.store
        (mutate tools outside plan later progress.store mutation).1 [mutation] :=
      unchanged_mutate mutation
    rw [mutateAll]
    split
    · rename_i next error heq
      rw [heq] at hfirst
      exact ⟨hfirst.cwd, hfirst.root, hfirst.attempts, hfirst.policies,
        fun path h ↦ hfirst.files path (List.forall_mem_singleton.2 (h _ List.mem_cons_self)),
        fun attemptId h ↦ hfirst.cleanups attemptId fun candidate hmem ↦
          h candidate (List.mem_singleton.1 hmem ▸ List.mem_cons_self)⟩
    · rename_i next heq
      rw [heq] at hfirst
      have hrest := ih { progress with store := next, log := progress.log ++ [mutation] }
      exact ⟨hrest.cwd.trans hfirst.cwd, hrest.root.trans hfirst.root,
        hrest.attempts.trans hfirst.attempts, hrest.policies.trans hfirst.policies,
        fun path h ↦ (hrest.files path fun m hm ↦ h m (List.mem_cons_of_mem _ hm)).trans
          (hfirst.files path (List.forall_mem_singleton.2 (h _ List.mem_cons_self))),
        fun attemptId h ↦ (hrest.cleanups attemptId fun candidate hmem ↦
          h candidate (List.mem_cons_of_mem _ hmem)).trans
            (hfirst.cleanups attemptId fun candidate hmem ↦
              h candidate (List.mem_singleton.1 hmem ▸ List.mem_cons_self))⟩

/-- Applying a plan changes what the plan lists. -/
theorem unchanged_apply {approval : GcApproval} {progress : GcProgress} {status : GcActionStatus}
    (h : store.apply tools outside plan approval later = .ok (progress, status)) :
    Unchanged store progress.store (store.planSteps plan) := by
  obtain ⟨hpermit, happly⟩ := apply_eq_ok tools outside plan later h
  have hstore := (applyPlan_spec outside hpermit).1
  rw [happly] at hstore
  rw [hstore]
  exact unchanged_mutateAll (store.planSteps plan) ⟨store, [], [], none⟩

/-! ### Reviews and compositions -/

/-- Two stores agree on all that the review and the composition of an attempt depend on. -/
structure Agrees (manifest : AttemptManifest) (store current : RetentionStore) : Prop where
  cwd : current.cwd = store.cwd
  root : current.root = store.root
  attempts : current.attempts = store.attempts
  policies : current.policies = store.policies
  cleanup : current.cleanups manifest.attemptId = store.cleanups manifest.attemptId
  own : ∀ directory, store.attemptDirectory manifest.jobId manifest.attemptId = .ok directory →
    ∀ path, directory <+: path → current.files path = store.files path
  lineage : ∀ path ∈ store.lineageFiles manifest, current.files path = store.files path

variable {current : RetentionStore} {manifest : AttemptManifest} {records : LineageTools}

theorem Agrees.symm (h : Agrees manifest store current) : Agrees manifest current store where
  cwd := h.cwd.symm
  root := h.root.symm
  attempts := h.attempts.symm
  policies := h.policies.symm
  cleanup := h.cleanup.symm
  own directory hdirectory path hpath := by
    refine (h.own directory ?_ path hpath).symm
    unfold attemptDirectory at hdirectory ⊢
    rw [← h.root]
    exact hdirectory
  lineage path hpath := by
    refine (h.lineage path ?_).symm
    unfold lineageFiles at hpath ⊢
    rw [← h.cwd]
    exact hpath

theorem Agrees.getAttempt (h : Agrees manifest store current) :
    current.getAttempt = store.getAttempt := by
  funext attemptId
  rw [RetentionStore.getAttempt, RetentionStore.getAttempt, h.attempts]

theorem Agrees.readJob (h : Agrees manifest store current) :
    current.readJob records = store.readJob records := by
  funext jobId
  rw [RetentionStore.readJob, RetentionStore.readJob, readPolicy, readPolicy, h.policies]

theorem readFile_congr {path : StorePath} (h : current.files path = store.files path) :
    current.readFile path = store.readFile path := by
  rw [readFile, readFile, h]

/-- What a proposal is bound as depends on its two files. -/
theorem Agrees.bindProposalContribution (h : Agrees manifest store current)
    {contract : JobContract} {parent : AttemptManifest}
    (hparent : store.getAttempt parent.attemptId = .ok parent)
    (hpatch : current.files (resolvePath store.cwd parent.artifacts.proposalPatch) =
      store.files (resolvePath store.cwd parent.artifacts.proposalPatch))
    (hverification : current.files (resolvePath store.cwd parent.artifacts.verification) =
      store.files (resolvePath store.cwd parent.artifacts.verification)) :
    current.bindProposalContribution tools records contract parent =
      store.bindProposalContribution tools records contract parent := by
  have heligible : current.getVerification records parent.attemptId =
      store.getVerification records parent.attemptId := by
    rw [getVerification, getVerification, h.getAttempt, hparent, h.cwd]
    exact congrArg (· >>= records.eligibleForReview) (readFile_congr hverification)
  have hsha : current.sha256File tools parent.artifacts.verification =
      store.sha256File tools parent.artifacts.verification := by
    rw [sha256File, sha256File, h.cwd, readFile_congr hverification]
  unfold RetentionStore.bindProposalContribution
  rw [h.cwd, h.readJob, heligible, hsha, readFile_congr hpatch]

/-- A contribution that was bound is what its parent says. -/
theorem bindProposalContribution_eq_ok {contract : JobContract} {parent : AttemptManifest}
    {actual : ProposalContribution}
    (h : store.bindProposalContribution tools records contract parent = .ok actual) :
    actual.patchPath = parent.artifacts.proposalPatch ∧
      actual.verificationPath = parent.artifacts.verification := by
  unfold RetentionStore.bindProposalContribution at h
  obtain ⟨parentContract, -, h⟩ := bind_eq_ok.1 h
  dsimp only at h
  split at h
  · exact nomatch h
  · split at h
    · exact nomatch h
    · split at h
      · exact nomatch h
      · split at h
        · exact nomatch h
        · obtain ⟨eligible, -, h⟩ := bind_eq_ok.1 h
          split at h
          · exact nomatch h
          · obtain ⟨patch, -, h⟩ := bind_eq_ok.1 h
            obtain ⟨verificationSha256, -, h⟩ := bind_eq_ok.1 h
            obtain rfl := Except.ok.inj h
            exact ⟨rfl, rfl⟩

/-- A contribution that is valid in a store is valid in one that agrees on the lineage. -/
theorem Agrees.validateContribution (h : Agrees manifest store current) {contract : JobContract}
    {contribution : ProposalContribution}
    (hmem : contribution ∈ RetentionStore.contributions manifest)
    (hvalid : store.validateContribution tools records contract contribution = .ok ()) :
    current.validateContribution tools records contract contribution = .ok () := by
  obtain ⟨parent, hparent, hrest⟩ := bind_eq_ok.1 hvalid
  obtain ⟨actual, hactual, hsame⟩ := bind_eq_ok.1 hrest
  have hcontribution : actual = contribution := by
    split at hsame
    · exact nomatch hsame
    · rename_i heq
      exact records.fingerprint_injective (not_not.1 heq)
  obtain ⟨hpatch, hverification⟩ := bindProposalContribution_eq_ok hactual
  have hbound (text : String)
      (htext : text ∈ [contribution.patchPath, contribution.verificationPath]) :
      current.files (resolvePath store.cwd text) = store.files (resolvePath store.cwd text) := by
    refine h.lineage _ (List.mem_flatMap.2 ⟨contribution, hmem, ?_⟩)
    rcases List.mem_cons.1 htext with rfl | htext
    · exact List.mem_cons_self
    · rw [List.mem_singleton.1 htext]
      exact List.mem_cons_of_mem _ List.mem_cons_self
  have hid : store.getAttempt parent.attemptId = .ok parent := by
    rw [(getAttempt_eq_ok hparent).2]
    exact hparent
  have hbind : current.bindProposalContribution tools records contract parent =
      store.bindProposalContribution tools records contract parent := by
    refine h.bindProposalContribution hid ?_ ?_
    · rw [← hpatch, hcontribution]
      exact hbound _ List.mem_cons_self
    · rw [← hverification, hcontribution]
      exact hbound _ (List.mem_cons_of_mem _ List.mem_cons_self)
  unfold RetentionStore.validateContribution at hvalid ⊢
  rw [h.getAttempt, hparent]
  rw [hparent] at hvalid
  dsimp only [Bind.bind, Except.bind] at hvalid ⊢
  rw [hbind]
  exact hvalid

theorem Agrees.validateProposalLineage (h : Agrees manifest store current)
    {contract : JobContract} {lineage : ProposalLineage} (hlineage : manifest.lineage = some lineage)
    (hvalid : store.validateProposalLineage tools records contract lineage = .ok ()) :
    current.validateProposalLineage tools records contract lineage = .ok () := by
  unfold RetentionStore.validateProposalLineage at hvalid ⊢
  split at hvalid
  · exact nomatch hvalid
  · rename_i hrevision
    rw [if_neg hrevision]
    refine forM_eq_ok.2 fun contribution hmem ↦ h.validateContribution ?_
      (forM_eq_ok.1 hvalid contribution hmem)
    rw [RetentionStore.contributions, hlineage]
    exact hmem

theorem Agrees.validateComposed (h : Agrees manifest store current) {contract : JobContract}
    (hvalid : store.validateComposed tools records contract manifest = .ok ()) :
    current.validateComposed tools records contract manifest = .ok () := by
  unfold RetentionStore.validateComposed at hvalid ⊢
  split
  · rfl
  · rename_i lineage hlineage
    rw [hlineage] at hvalid
    dsimp only at hvalid
    split
    · rename_i hcomposed
      rw [if_pos hcomposed] at hvalid
      exact h.validateProposalLineage hlineage hvalid
    · rfl

theorem getAttemptCleanup_congr {attemptId : AttemptId} (hattempts : current.attempts = store.attempts)
    (hcleanup : current.cleanups attemptId = store.cleanups attemptId) :
    current.getAttemptCleanup attemptId = store.getAttemptCleanup attemptId := by
  have hattempt : current.getAttempt attemptId = store.getAttempt attemptId := by
    rw [getAttempt, getAttempt, hattempts]
  unfold getAttemptCleanup
  rw [hattempt]
  cases hmanifest : store.getAttempt attemptId with
  | error error => rfl
  | ok found =>
    dsimp only [Bind.bind, Except.bind]
    rw [(getAttempt_eq_ok hmanifest).2, hcleanup]

/-- **A review reads the same** in a store that agrees. -/
theorem Agrees.reviewView (h : Agrees manifest store current) {view : ReviewView}
    (hview : store.reviewView tools records manifest = .ok view) :
    current.reviewView tools records manifest = .ok view := by
  obtain ⟨heligible, hview⟩ := check_eq_ok.1 hview
  obtain ⟨contract, hcontract, hview⟩ := bind_eq_ok.1 hview
  obtain ⟨hvalid, hview⟩ := check_eq_ok.1 hview
  obtain ⟨directory, hdirectory, hview⟩ := bind_eq_ok.1 hview
  obtain ⟨cleanup, hcleanup, hview⟩ := bind_eq_ok.1 hview
  obtain ⟨hsafe, hview⟩ := check_eq_ok.1 hview
  have hdirectory' : current.attemptDirectory manifest.jobId manifest.attemptId = .ok directory := by
    rw [← hdirectory, attemptDirectory, attemptDirectory, h.root]
  refine check_eq_ok.2 ⟨heligible, bind_eq_ok.2 ⟨contract, by rw [h.readJob, hcontract], ?_⟩⟩
  refine check_eq_ok.2 ⟨h.validateComposed hvalid, bind_eq_ok.2 ⟨directory, hdirectory', ?_⟩⟩
  refine bind_eq_ok.2 ⟨cleanup, by rw [getAttemptCleanup_congr h.attempts h.cleanup, hcleanup], ?_⟩
  refine check_eq_ok.2 ⟨hsafe, ?_⟩
  rw [← hview]
  refine congrArg Except.ok ?_
  have hown : (fun path ↦ if directory <+: path then current.files path else none) =
      fun path ↦ if directory <+: path then store.files path else none := by
    funext path
    split
    · exact h.own directory hdirectory path ‹_›
    · rfl
  have hlineage : ((contributions manifest).map fun contribution ↦
      (current.files (resolvePath current.cwd contribution.patchPath),
        current.files (resolvePath current.cwd contribution.verificationPath))) =
      (contributions manifest).map fun contribution ↦
        (store.files (resolvePath store.cwd contribution.patchPath),
          store.files (resolvePath store.cwd contribution.verificationPath)) := by
    refine List.map_congr_left fun contribution hmem ↦ ?_
    rw [h.cwd, h.lineage _ (List.mem_flatMap.2 ⟨contribution, hmem, List.mem_cons_self⟩),
      h.lineage _ (List.mem_flatMap.2 ⟨contribution, hmem,
        List.mem_cons_of_mem _ List.mem_cons_self⟩)]
  rw [hown, hlineage]

/-- **A composition reads the same** in a store that agrees. -/
theorem Agrees.compositionPatches (h : Agrees manifest store current)
    {patches : List (List UInt8)}
    (hpatches : store.compositionPatches tools records manifest = .ok patches) :
    current.compositionPatches tools records manifest = .ok patches := by
  unfold RetentionStore.compositionPatches at hpatches ⊢
  cases hlineage : manifest.lineage with
  | none =>
    rw [hlineage] at hpatches
    exact hpatches
  | some lineage =>
    rw [hlineage] at hpatches
    obtain ⟨contract, hcontract, hpatches⟩ := bind_eq_ok.1 hpatches
    obtain ⟨hvalid, hpatches⟩ := check_eq_ok.1 hpatches
    refine bind_eq_ok.2 ⟨contract, by rw [h.readJob, hcontract], ?_⟩
    refine check_eq_ok.2 ⟨h.validateProposalLineage hlineage hvalid, ?_⟩
    rw [← hpatches]
    refine mapM_congr_left fun contribution hmem ↦ ?_
    have hpath : resolvePath store.cwd contribution.patchPath ∈ store.lineageFiles manifest := by
      refine List.mem_flatMap.2 ⟨contribution, ?_, List.mem_cons_self⟩
      rw [contributions, hlineage]
      exact hmem
    rw [h.cwd, readFile_congr (h.lineage _ hpath)]

/-- What comes of an attempt is the same in two stores that agree. -/
theorem Agrees.toOption_eq (h : Agrees manifest store current) :
    (current.reviewView tools records manifest).toOption =
        (store.reviewView tools records manifest).toOption ∧
      (current.compositionPatches tools records manifest).toOption =
        (store.compositionPatches tools records manifest).toOption := by
  have hoption {α : Type} {x y : Except RuntimeError α} (hxy : ∀ value, x = .ok value → y = .ok value)
      (hyx : ∀ value, y = .ok value → x = .ok value) : x.toOption = y.toOption := by
    cases hx : x with
    | ok value => rw [hxy value hx]
    | error error =>
      cases hy : y with
      | ok value => exact nomatch hx.symm.trans (hyx value hy)
      | error error' => rfl
  exact ⟨hoption (fun _ ↦ h.symm.reviewView) fun _ ↦ h.reviewView,
    hoption (fun _ ↦ h.symm.compositionPatches) fun _ ↦ h.compositionPatches⟩

/-- The attempt of an id is one. -/
theorem eq_of_attemptId_eq (store : RetentionStore) {manifest other : AttemptManifest}
    (hmem : manifest ∈ store.attempts) (hother : other ∈ store.attempts)
    (h : manifest.attemptId = other.attemptId) : manifest = other :=
  List.inj_on_of_nodup_map store.distinct hmem hother h

theorem prefix_of_mem_prunedFiles {parent : AttemptManifest} {path : StorePath}
    (h : path ∈ store.prunedFiles tools parent) : ∃ directory,
      store.attemptDirectory parent.jobId parent.attemptId = .ok directory ∧
        directory <+: path := by
  unfold prunedFiles at h
  split at h
  · exact absurd h List.not_mem_nil
  · rename_i directory hdirectory
    refine ⟨directory, hdirectory, ?_⟩
    split at h
    · exact absurd h List.not_mem_nil
    · exact absurd h List.not_mem_nil
    · rename_i targets _ htargets
      rcases List.mem_append.1 h with hmem | hmem
      · obtain ⟨file, -, hfile⟩ := (mapM_eq_ok htargets).2 path hmem
        unfold resolveBoundFile at hfile
        dsimp only at hfile
        split at hfile
        · rename_i hwithin
          rw [← Except.ok.inj hfile]
          exact hwithin.1
        · exact nomatch hfile
      · rw [List.mem_singleton.1 hmem]
        exact List.prefix_append directory _

/-- The worktrees a plan removes are of expired attempts. -/
theorem expired_of_workspace_mem_planSteps {plan : GcPlan}
    (h : store.dryRun tools now = .ok plan) {candidate : GcCandidate}
    (hmem : .workspace candidate ∈ store.planSteps plan) : ∃ parent ∈ store.attempts,
      store.Expired tools parent now ∧ candidate.attemptId = parent.attemptId := by
  obtain ⟨planned, hplanned, hstep⟩ := List.mem_flatMap.1 hmem
  obtain ⟨parent, hparent, observation, hobserve⟩ := (mem_candidates h).1 hplanned
  obtain ⟨hexpired, hattempt, -, hkind⟩ := candidateOf_observe hobserve
  have hcandidate : candidate = planned := by
    unfold steps mutations at hstep
    rcases hkind with hkind | ⟨hkind, -⟩
    · rw [hkind] at hstep
      exact GcMutation.workspace.inj (List.mem_singleton.1 hstep)
    · rw [hkind] at hstep
      split at hstep
      · rename_i mutations heq
        obtain ⟨root, -, heq⟩ := bind_eq_ok.1 heq
        obtain ⟨targets, -, heq⟩ := bind_eq_ok.1 heq
        obtain rfl := Except.ok.inj heq
        rcases List.mem_append.1 hstep with hfile | htombstone
        · obtain ⟨_, -, hfile⟩ := List.mem_map.1 hfile
          exact nomatch hfile
        · exact nomatch List.mem_singleton.1 htombstone
      · exact absurd hstep List.not_mem_nil
  exact ⟨parent, hparent, hexpired, hcandidate ▸ hattempt⟩

/-- Applying a plan that was made leaves the cleanup records of attempts that are not expired. -/
theorem cleanups_of_apply {plan : GcPlan} (hplan : store.dryRun tools now = .ok plan)
    {approval : GcApproval} {progress : GcProgress} {status : GcActionStatus}
    (happly : store.apply tools outside plan approval later = .ok (progress, status))
    (hmanifest : manifest ∈ store.attempts) (hkept : ¬store.Expired tools manifest now) :
    progress.store.cleanups manifest.attemptId = store.cleanups manifest.attemptId := by
  refine (unchanged_apply happly).cleanups _ fun candidate hmem hid ↦ ?_
  obtain ⟨parent, hparent, hexpired, hid'⟩ := expired_of_workspace_mem_planSteps hplan hmem
  have hsame := store.eq_of_attemptId_eq hparent hmanifest (hid'.symm.trans hid)
  exact hkept (hsame ▸ hexpired)

/-- **Applying a plan that was made leaves all of an attempt** that is not expired, if it leaves the
files of its lineage. -/
theorem agrees_of_apply {plan : GcPlan} (hplan : store.dryRun tools now = .ok plan)
    {approval : GcApproval} {progress : GcProgress} {status : GcActionStatus}
    (happly : store.apply tools outside plan approval later = .ok (progress, status))
    (hmanifest : manifest ∈ store.attempts) (hkept : ¬store.Expired tools manifest now)
    (hspared : ∀ mutation ∈ store.planSteps plan, ∀ path ∈ mutation.target,
      path ∉ store.lineageFiles manifest) : Agrees manifest store progress.store := by
  have hunchanged := unchanged_apply happly
  have hother {parent : AttemptManifest} (hparent : parent ∈ store.attempts)
      (hexpired : store.Expired tools parent now) : parent.attemptId ≠ manifest.attemptId :=
    fun heq ↦ hkept (store.eq_of_attemptId_eq hparent hmanifest heq ▸ hexpired)
  refine ⟨hunchanged.cwd, hunchanged.root, hunchanged.attempts, hunchanged.policies,
    cleanups_of_apply hplan happly hmanifest hkept, ?_, ?_⟩
  · intro directory hdirectory path hpath
    refine hunchanged.files path fun mutation hmutation htarget ↦ ?_
    obtain ⟨parent, hparent, hexpired, -, hpruned⟩ :=
      prunedFiles_of_planSteps hplan hmutation htarget
    obtain ⟨directory', hdirectory', hpath'⟩ := prefix_of_mem_prunedFiles hpruned
    exact hother hparent hexpired
      (attemptId_eq_of_directories hdirectory' hdirectory hpath' hpath)
  · intro path hpath
    exact hunchanged.files path fun mutation hmutation htarget ↦
      hspared mutation hmutation path htarget hpath

/-- An attempt whose review reads its evidence is in use or expired, if its evidence can be read. -/
theorem inUse_or_expired_of_reviewView {observed : GcObservation × Option GcCandidate}
    (hobserved : store.observe tools now manifest = .ok observed)
    (hpolicies : current.policies = store.policies)
    (hcleanups : current.getAttemptCleanup manifest.attemptId =
      store.getAttemptCleanup manifest.attemptId)
    {view : ReviewView} (hview : current.reviewView tools records manifest = .ok view) :
    store.InUse tools manifest now ∨ store.Expired tools manifest now := by
  obtain ⟨heligible, hview⟩ := check_eq_ok.1 hview
  obtain ⟨hcompleted, heligible⟩ := throwUnless_eq_ok.1 heligible
  obtain ⟨contract, hcontract, hview⟩ := bind_eq_ok.1 hview
  obtain ⟨policy, hpolicy, -⟩ := bind_eq_ok.1 hcontract
  rw [readPolicy, hpolicies] at hpolicy
  change store.readPolicy manifest.jobId = .ok policy at hpolicy
  obtain ⟨-, hview⟩ := check_eq_ok.1 hview
  obtain ⟨directory, -, hview⟩ := bind_eq_ok.1 hview
  obtain ⟨cleanup, hcleanup, hview⟩ := bind_eq_ok.1 hview
  rw [hcleanups] at hcleanup
  obtain ⟨hsafe, -⟩ := check_eq_ok.1 hview
  have hsafe : cleanup.status.isSafe = true := by
    unfold throwUnless at hsafe
    split at hsafe
    · assumption
    · exact nomatch hsafe
  -- The evidence was classed, since the attempt could be observed.
  have hclassified : ∃ classified,
      classifyRetention tools manifest cleanup.status policy now = .ok classified := by
    unfold observe at hobserved
    rw [hpolicy, hcleanup] at hobserved
    dsimp only [Bind.bind, Except.bind, pure, Except.pure] at hobserved
    cases hclass : classifyRetention tools manifest cleanup.status policy now with
    | error error =>
      rw [hclass] at hobserved
      exact nomatch hobserved
    | ok classified => exact ⟨classified, rfl⟩
  obtain ⟨⟨retentionClass, detail⟩, hclassified⟩ := hclassified
  have hclass : store.classOf tools manifest now = .ok ⟨retentionClass, detail⟩ :=
    classOf_eq_ok.2 ⟨policy, cleanup, hpolicy, hcleanup, hclassified⟩
  cases retentionClass with
  | active => exact .inl ⟨.active, detail, hclass, by decide⟩
  | reviewable => exact .inl ⟨.reviewable, detail, hclass, by decide⟩
  | retained => exact .inl ⟨.retained, detail, hclass, by decide⟩
  | expired => exact .inr ⟨detail, hclass⟩
  | quarantine =>
    unfold classifyRetention at hclassified
    rw [hcompleted, hsafe] at hclassified
    split at hclassified
    · exact nomatch hclassified
    · split at hclassified
      · rename_i hunsafe
        exact nomatch hunsafe
      · split at hclassified
        · exact nomatch hclassified
        · split at hclassified
          · exact nomatch hclassified
          · dsimp only at hclassified
            split at hclassified <;> split at hclassified <;> exact nomatch hclassified

end RetentionStore

namespace AcceptedParent

/-- The artifacts of the first attempt of a job. -/
def artifacts (jobId : JobId) : AttemptArtifacts :=
  let directory := "/data/jobs/" ++ jobId ++ "/attempts/" ++ jobId ++ "_a0001/"
  { job := "/data/jobs/" ++ jobId ++ "/job.json"
    manifest := directory ++ "attempt.json"
    stdout := directory ++ "stdout.log"
    stderr := directory ++ "stderr.log"
    proposalPatch := directory ++ "proposal.patch"
    repositoryStatus := directory ++ "repository-status.txt"
    changedPaths := directory ++ "changed-paths.json"
    verification := directory ++ "verification.json"
    cleanup := some (directory ++ "cleanup.json") }

/-- A completed eligible attempt. -/
def completed (jobId : JobId) (disposition : ReviewDisposition) (lineage : Option ProposalLineage) :
    AttemptManifest where
  attemptId := ⟨jobId, 1⟩
  adapterId := "fixture"
  status := .completed
  revision := 5
  createdAt := 0
  finishedAt := some 0
  workspace := some ⟨"/work/" ++ jobId, "b0", false⟩
  lineage := lineage
  artifacts := artifacts jobId
  reviewDisposition := disposition
  verificationStatus := .eligible

/-- The attempt that was accepted. -/
def parent : AttemptManifest := completed "parent" .accepted none

/-- The parent's proposal, as the child bound it. -/
def contribution : ProposalContribution where
  jobId := "parent"
  attemptId := ⟨"parent", 1⟩
  jobRequestFingerprint := RecordPlan.digest
  sourceBaseRevision := "b0"
  patchBaseRevision := "b0"
  patchPath := (artifacts "parent").proposalPatch
  patchSha256 := RecordPlan.digest
  patchBytes := 0
  verificationPath := (artifacts "parent").verification
  verificationSha256 := RecordPlan.digest

/-- The attempt that builds on it, and waits for a review. -/
def child : AttemptManifest :=
  completed "child" .notRequested (some ⟨"b0", [⟨"parent", 1⟩], [contribution], .composed, none, none, none⟩)

/-- The directory of the parent. -/
def directory : StorePath := ["data", "jobs", "parent", "attempts", "parent_a0001"]

/-- The files of the parent. -/
def files : List StorePath :=
  ["attempt.json", "cleanup.json", "verification.json", "proposal.patch"].map (directory ++ [·])

/-- Paths are told apart segment by segment. -/
local instance dataPathLawful : LawfulBEq StorePath := inferInstance

/-- A data root with both attempts. -/
def store : RetentionStore where
  cwd := []
  root := ["data"]
  attempts := [parent, child]
  policies _ := some ⟨60000, 60000, 60000⟩
  cleanups attemptId := some (createAttemptCleanupRecord attemptId 0)
  files path := if path ∈ files then some [] else none
  paths := files
  worktrees _ := none
  distinct := by decide
  mem_paths path h := by
    by_contra hpath
    rw [if_neg hpath] at h
    exact Bool.false_ne_true h

/-- The fields of a contribution. -/
def fields (contribution : ProposalContribution) : List String :=
  [contribution.jobId, contribution.attemptId.text, contribution.jobRequestFingerprint,
    contribution.sourceBaseRevision, contribution.patchBaseRevision, contribution.patchPath,
    contribution.patchSha256, padStart 1 contribution.patchBytes, contribution.verificationPath,
    contribution.verificationSha256]

theorem fields_injective : Function.Injective fields := by
  intro contribution other h
  obtain ⟨hjob, h⟩ := List.cons.inj h
  obtain ⟨hattempt, h⟩ := List.cons.inj h
  obtain ⟨hrequest, h⟩ := List.cons.inj h
  obtain ⟨hsource, h⟩ := List.cons.inj h
  obtain ⟨hbase, h⟩ := List.cons.inj h
  obtain ⟨hpath, h⟩ := List.cons.inj h
  obtain ⟨hpatch, h⟩ := List.cons.inj h
  obtain ⟨hbytes, h⟩ := List.cons.inj h
  obtain ⟨hverification, h⟩ := List.cons.inj h
  obtain ⟨hsha, -⟩ := List.cons.inj h
  cases contribution
  cases other
  obtain rfl := text_injective hattempt
  obtain rfl := padStart_injective 1 hbytes
  simp only at hjob hrequest hsource hbase hpath hpatch hverification hsha
  subst hjob hrequest hsource hbase hpath hpatch hverification hsha
  rfl

theorem flatMap_quoted_injective : Function.Injective fun texts : List String ↦
    texts.flatMap quoted := by
  intro texts others h
  induction texts generalizing others with
  | nil =>
    cases others with
    | nil => rfl
    | cons other others => exact nomatch h
  | cons text texts ih =>
    cases others with
    | nil => exact nomatch h
    | cons other others =>
      dsimp only at h
      rw [List.flatMap_cons, List.flatMap_cons] at h
      obtain ⟨rfl, hrest⟩ := quoted_splits h
      rw [ih hrest]

/-- Contracts of one repository. -/
def records : LineageTools where
  contract jobId := {
    jobId
    requestFingerprint := RecordPlan.digest
    repositoryRoot := "/repository"
    baseRevision := "b0"
    adapterId := "fixture"
    setupCommands := 0
    acceptanceCommands := 0
    boundary := .hostWorktree
    retainWorkspace := false
    resources := ⟨4, 1, 8, 1, 1000⟩ }
  eligibleForReview _ := .ok true
  fingerprint contribution := String.ofList ((fields contribution).flatMap quoted)
  fingerprint_injective _ _ h :=
    fields_injective (flatMap_quoted_injective (String.ofList_inj.1 h))

end AcceptedParent

end CodeConductor
