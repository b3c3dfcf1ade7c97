import CodeConductor.Launch.Steps

/-!
# The operations of a conductor keep the agreement

One lemma for each operation: that it keeps the agreement, and what its result says. Most results
are manifests, and what is said of them is that they **follow** the manifest the operation started
from: same attempt, same launch identity, at least as far along, and in the journal unless they are
that very manifest.
-/

namespace CodeConductor

open Async Async.Prog Async.Protocol

variable {L : License} {self : Self} {p t : ℕ} {s : World}

/-! ### Steps of the stores, in any protocol -/

section Store

variable {X : Protocol RuntimeStep World RuntimeCall ℕ} {A : Type} {Q : A → World → Prop}
  {label : RuntimeStep}

theorem safe_storeRead (hrefl : ∀ n w, X.guar p t n w w) {f : World → Except RuntimeError A}
    (h : ∀ w n, t < n → X.inv n w → X.rely p t s w → X.ok p t label w →
      ∀ a, f w = .ok a → Q a w) :
    X.Safe p t (Returns Q) (storeRead label f) s := by
  refine safe_read_returns hrefl fun w n ht hinv hrely hok a ha ↦ ?_
  split at ha
  · exact nomatch ha
  · exact h w n ht hinv hrely hok a ha

theorem safe_storeWrite (hrefl : ∀ n w, X.guar p t n w w)
    {f : World → Except RuntimeError A × World}
    (h : ∀ w n, t < n → X.inv n w → X.rely p t s w → X.ok p t label w →
      X.inv n (f w).2 ∧ X.guar p t n w (f w).2 ∧ ∀ a, (f w).1 = .ok a → Q a (f w).2) :
    X.Safe p t (Returns Q) (storeWrite label f) s := by
  refine safe_atomic_returns fun w n ht hinv hrely hok ↦ ?_
  split
  · exact ⟨hinv, hrefl n w, fun a ha ↦ nomatch ha⟩
  · exact h w n ht hinv hrely hok

theorem keeps_read (hrefl : ∀ n w, X.guar p t n w w) {f : World → Except RuntimeError A} :
    X.Keeps p t (.read label f : Runtime A) :=
  Safe.keeps fun _ ↦ safe_read_returns hrefl (Q := fun _ _ ↦ True) fun _ _ _ _ _ _ _ _ ↦ trivial

end Store

theorem conductorProtocol_refl (n : ℕ) (w : World) : (conductorProtocol L).guar p t n w w :=
  ⟨.refl L p t n w, .refl w⟩

theorem keeps_storeRead {A : Type} {label : RuntimeStep} {f : World → Except RuntimeError A} :
    (conductorProtocol L).Keeps p t (storeRead label f) :=
  Safe.keeps fun _ ↦ safe_storeRead conductorProtocol_refl (Q := fun _ _ ↦ True)
    fun _ _ _ _ _ _ _ _ ↦ trivial

theorem keeps_askOutside {A : Type} {answer : Outside → Except RuntimeError A} :
    (conductorProtocol L).Keeps p t (askOutside answer) :=
  keeps_read conductorProtocol_refl

theorem keeps_currentDate : (conductorProtocol L).Keeps p t currentDate := keeps_askOutside

theorem keeps_ofResult {A : Type} (r : Except RuntimeError A) :
    (conductorProtocol L).Keeps p t (Prog.ofResult r : Runtime A) :=
  keeps_ret r

/-! ### Licenses -/

theorem License.Includes.under {M : License} (h : L.Includes M) :
    (conductorProtocol M).Under (conductorProtocol L) p t fun _ ↦ True where
  inv hinv := hinv
  rely hrely := hrely
  ok _ := trivial
  keep _ _ _ := trivial
  step _ _ _ _ _ hinv hg := ⟨hinv, ⟨AttemptGuar.mono h hg.1, hg.2⟩, trivial⟩
  pre _ _ _ hpre := hpre

/-- A computation keeps the agreement under a larger license too. -/
theorem Safe.license {E A : Type} {M : License} (h : L.Includes M) {Q : Except E A → World → Prop}
    {prog : Prog RuntimeStep World RuntimeCall E A}
    (hs : (conductorProtocol M).Safe p t Q prog s) : (conductorProtocol L).Safe p t Q prog s :=
  hs.under h.under

theorem License.includes_none (L : License) : L.Includes {} where
  creates _ h := False.elim h
  claims _ h := False.elim h
  starts h := False.elim h
  memory h := False.elim h

theorem License.all_includes (M : License) : License.all.Includes M :=
  ⟨fun _ _ ↦ trivial, fun _ _ ↦ trivial, fun _ ↦ trivial, fun _ ↦ trivial⟩

/-- A fact that others cannot undo, nor a computation without any license. -/
structure Steady (p t : ℕ) (J : World → Prop) : Prop where
  rely : ∀ w w', AttemptRely p t w w' → J w → J w'
  guar : ∀ n w w', AttemptGuar {} p t n w w' → J w → J w'

theorem Steady.and {J K : World → Prop} (hJ : Steady p t J) (hK : Steady p t K) :
    Steady p t fun w ↦ J w ∧ K w where
  rely w w' h hw := ⟨hJ.rely w w' h hw.1, hK.rely w w' h hw.2⟩
  guar n w w' h hw := ⟨hJ.guar n w w' h hw.1, hK.guar n w w' h hw.2⟩

theorem steady_mem {m : AttemptManifest} {id : AttemptId} :
    Steady p t fun w ↦ m ∈ w.attempts id where
  rely _ _ h hm := h.mem hm
  guar _ _ _ h hm := h.mem hm

theorem steady_pure {P : Prop} : Steady p t fun _ ↦ P := ⟨fun _ _ _ h ↦ h, fun _ _ _ _ h ↦ h⟩

/-- A computation without a license, within one that has any, keeps a steady fact. -/
theorem Steady.safe {E A : Type} {J : World → Prop} (hJ : Steady p t J)
    {Q : Except E A → World → Prop} {prog : Prog RuntimeStep World RuntimeCall E A}
    (h : (conductorProtocol {}).Safe p t Q prog s) (hs : J s) :
    (conductorProtocol L).Safe p t (fun r w ↦ Q r w ∧ J w) prog s := by
  refine Safe.license L.includes_none (h.stable hJ.rely (fun n w w' hg ↦ ?_) hs)
  exact hJ.guar n w w' hg.1

/-- `Steady.safe` for results. -/
theorem Steady.returns {A : Type} {J : World → Prop} (hJ : Steady p t J) {Q : A → World → Prop}
    {prog : Runtime A} (h : (conductorProtocol {}).Safe p t (Returns Q) prog s) (hs : J s) :
    (conductorProtocol L).Safe p t (Returns fun a w ↦ Q a w ∧ J w) prog s :=
  (hJ.safe h hs).mono fun _ _ hr a ha ↦ ⟨hr.1 a ha, hr.2⟩

/-! ### Manifests that follow -/

/-- `m` is what the attempt with the manifest `manifest` has become. -/
structure AttemptManifest.Follows (manifest m : AttemptManifest) (w : World) : Prop where
  attemptId : m.attemptId = manifest.attemptId
  launchOwner : m.launchOwner = manifest.launchOwner
  dispatchOperationId : m.dispatchOperationId = manifest.dispatchOperationId
  rank : manifest.status.rank ≤ m.status.rank
  journaled : m = manifest ∨ m ∈ w.attempts manifest.attemptId

namespace AttemptManifest.Follows

variable {manifest m m' : AttemptManifest} {w w' : World}

theorem refl (manifest : AttemptManifest) (w : World) : manifest.Follows manifest w :=
  ⟨rfl, rfl, rfl, le_rfl, .inl rfl⟩

theorem trans (h : manifest.Follows m w) (h' : m.Follows m' w) : manifest.Follows m' w where
  attemptId := h'.attemptId.trans h.attemptId
  launchOwner := h'.launchOwner.trans h.launchOwner
  dispatchOperationId := h'.dispatchOperationId.trans h.dispatchOperationId
  rank := h.rank.trans h'.rank
  journaled := by
    rcases h'.journaled with rfl | hmem
    · exact h.journaled
    · exact .inr (h.attemptId ▸ hmem)

theorem mem (h : manifest.Follows m w) (hm : manifest ∈ w.attempts manifest.attemptId) :
    m ∈ w.attempts m.attemptId := by
  rw [h.attemptId]
  rcases h.journaled with rfl | hmem
  · exact hm
  · exact hmem

theorem isTerminal (h : manifest.Follows m w) (hm : manifest.status.isTerminal = true) :
    m.status.isTerminal = true :=
  AttemptStatus.isTerminal_of_rank_le hm h.rank

theorem rely (h : AttemptRely p t w w') (hf : manifest.Follows m w) : manifest.Follows m w' :=
  { hf with journaled := hf.journaled.imp_right h.mem }

theorem guar {n : ℕ} (h : AttemptGuar L p t n w w') (hf : manifest.Follows m w) :
    manifest.Follows m w' :=
  { hf with journaled := hf.journaled.imp_right h.mem }

theorem steady : Steady p t (manifest.Follows m) := ⟨fun _ _ ↦ rely, fun _ _ _ ↦ guar⟩

end AttemptManifest.Follows

/-- `Safe` for a computation that takes one manifest to another. -/
theorem Safe.follows {A : Type} {manifest m : AttemptManifest} {f : A → AttemptManifest}
    {prog : Runtime A} (hf : manifest.Follows m s)
    (h : (conductorProtocol {}).Safe p t (Returns fun a w ↦ m.Follows (f a) w) prog s) :
    (conductorProtocol {}).Safe p t (Returns fun a w ↦ manifest.Follows (f a) w) prog s :=
  (AttemptManifest.Follows.steady.returns h hf).weaken fun _ _ hw ↦ hw.2.trans hw.1

/-! ### `ArtifactStore` -/

section ArtifactStore

theorem safe_readAttempt (id : AttemptId) :
    (conductorProtocol L).Safe p t
      (Returns fun m w ↦ m ∈ w.attempts id ∧ m.attemptId = id ∧ w.attempt? id = some m)
      (ArtifactStore.readAttempt id) s := by
  refine safe_storeRead conductorProtocol_refl fun w n _ hinv _ _ m hm ↦ ?_
  split at hm
  · rename_i m' heq
    obtain rfl := Except.ok.inj hm
    exact ⟨World.mem_attempts_of_attempt? heq, hinv.attemptId_of_attempt? heq, heq⟩
  · exact nomatch hm

theorem keeps_readAttempt {id : AttemptId} :
    (conductorProtocol L).Keeps p t (ArtifactStore.readAttempt id) :=
  Safe.keeps fun _ ↦ safe_readAttempt id

theorem safe_readJob (jobId : JobId) :
    (conductorProtocol L).Safe p t (Returns fun contract _ ↦ contract.jobId = jobId)
      (ArtifactStore.readJob jobId) s := by
  refine safe_storeRead conductorProtocol_refl fun w n _ _ _ _ contract h ↦ ?_
  split at h
  · rename_i contract' heq
    obtain rfl := Except.ok.inj h
    exact World.jobId_of_contract? heq
  · exact nomatch h

theorem keeps_readJob {jobId : JobId} :
    (conductorProtocol L).Keeps p t (ArtifactStore.readJob jobId) :=
  Safe.keeps fun _ ↦ safe_readJob jobId

/-- Committing over a manifest what may be committed over it. -/
theorem safe_commitAttempt {current updated : AttemptManifest} (hp : current.Precedes updated)
    (hclaim : updated.status = .claimed → current.status = .claimed ∨ L.claims current.attemptId) :
    (conductorProtocol L).Safe self.process self.thread
      (Returns fun _ w ↦ updated ∈ w.attempts current.attemptId ∧
        (current.status = .claimed → updated.status = .preparing →
          w.preparedBy current.attemptId = some self.thread))
      (ArtifactStore.commitAttempt self current updated) s := by
  have hpush : (conductorProtocol L).Safe self.process self.thread
      (Returns fun _ w ↦ updated ∈ w.attempts current.attemptId ∧
        (current.status = .claimed → updated.status = .preparing →
          w.preparedBy current.attemptId = some self.thread))
      (ArtifactStore.pushAttempt self current updated) s := by
    refine safe_storeWrite conductorProtocol_refl fun w n ht hinv _ _ ↦ ?_
    split
    · rename_i hcurrent
      refine ⟨hinv.pushAttempt ht hcurrent hp,
        ⟨.pushAttempt hinv hcurrent hp hclaim,
          rfl, rfl, rfl, rfl, rfl, rfl, rfl, rfl, rfl, rfl, rfl, rfl, le_rfl⟩, fun _ _ ↦ ⟨?_, ?_⟩⟩
      · exact World.mem_attempts_of_attempt? World.pushAttempt_attempt?_self
      · intro hcl hpr
        simp [World.pushAttempt, hcl, hpr]
    · exact ⟨hinv, conductorProtocol_refl n w, fun _ h ↦ by cases h⟩
  refine hpush.seq fun _ s' hs' ↦ ?_
  have hproject : (conductorProtocol {}).Safe self.process self.thread (Returns fun _ _ ↦ True)
      (storeRead (.projectAttempt current.attemptId) fun _ ↦ .ok ()) s' :=
    Keeps.returns keeps_storeRead s'
  refine (Steady.returns (J := fun w ↦ updated ∈ w.attempts current.attemptId ∧
    (current.status = .claimed → updated.status = .preparing →
      w.preparedBy current.attemptId = some self.thread)) ⟨?_, ?_⟩ hproject hs').weaken
        fun _ _ hw ↦ hw.2
  · exact fun w w' h hw ↦ ⟨h.mem hw.1, fun hcl hpr ↦ h.prepared _ _ (hw.2 hcl hpr)⟩
  · refine fun n w w' h hw ↦ ⟨h.mem hw.1, fun hcl hpr ↦ ?_⟩
    rcases h.prepared current.attemptId with heq | ⟨-, heq⟩
    · rw [heq, hw.2 hcl hpr]
    · exact heq

/-- `transitionAttempt`, when the patch leads where the license allows. -/
theorem safe_transitionAttempt {expected : AttemptManifest} {patch : AttemptPatch}
    (hp : (expected.merge patch).status ∈ expected.status.allowed →
      expected.Precedes (expected.merge patch))
    (hclaim : (expected.merge patch).status = .claimed →
      expected.status = .claimed ∨ L.claims expected.attemptId) :
    (conductorProtocol L).Safe self.process self.thread
      (Returns fun m w ↦ m = expected.merge patch ∧ expected.Precedes m ∧
        m ∈ w.attempts expected.attemptId ∧
        (expected.status = .claimed → m.status = .preparing →
          w.preparedBy expected.attemptId = some self.thread))
      (ArtifactStore.transitionAttempt self expected patch) s := by
  refine (safe_readAttempt expected.attemptId).seq fun current s₁ _ ↦ ?_
  by_cases hcurrent : current = expected
  · subst hcurrent
    rw [if_neg (by simp)]
    refine Safe.seq safe_ofResult fun updated s₂ hupdated ↦ ?_
    obtain ⟨rfl, hallowed⟩ := AttemptManifest.updated_ok hupdated
    exact (safe_commitAttempt (hp hallowed) hclaim).seq fun _ s₃ hs₃ ↦
      returns_ok.2 ⟨rfl, hp hallowed, hs₃⟩
  · rw [if_pos hcurrent]
    exact returns_error

/-- A step of the stores that leaves attempts alone. -/
theorem keeps_storeWrite {A : Type} {label : RuntimeStep}
    {f : World → Except RuntimeError A × World}
    (h : ∀ w, SameAttempts w (f w).2 ∧ ConductorFrame w (f w).2) :
    (conductorProtocol L).Keeps p t (storeWrite label f) :=
  Safe.keeps fun _ ↦ safe_storeWrite conductorProtocol_refl (Q := fun _ _ ↦ True)
    fun w n _ hinv _ _ ↦
      ⟨(h w).1.inv hinv, ⟨(h w).1.guar L p t n, (h w).2⟩, fun _ _ ↦ trivial⟩

theorem keeps_readAttemptCleanup {id : AttemptId} :
    (conductorProtocol L).Keeps p t (ArtifactStore.readAttemptCleanup id) :=
  keeps_storeRead

theorem keeps_pushCleanup {current updated : AttemptCleanupRecord} :
    (conductorProtocol L).Keeps p t (ArtifactStore.pushCleanup current updated) :=
  keeps_storeWrite fun w ↦ by
    split
    · exact ⟨⟨rfl, rfl, rfl, rfl, rfl, rfl⟩,
        rfl, rfl, rfl, rfl, rfl, rfl, rfl, rfl, rfl, rfl, rfl, rfl, le_rfl⟩
    · exact ⟨.refl w, .refl w⟩

theorem keeps_transitionAttemptCleanup {expected : AttemptCleanupRecord} {patch : CleanupPatch} :
    (conductorProtocol L).Keeps p t
      (ArtifactStore.transitionAttemptCleanup expected patch) :=
  Keeps.bind keeps_readAttemptCleanup fun _ ↦ .ite (keeps_ret _) <|
    Keeps.bind keeps_currentDate fun _ ↦ Keeps.bind keeps_pushCleanup fun _ ↦ Keeps.bind keeps_storeRead fun _ ↦
      keeps_ret _

theorem keeps_registerAttemptCleanupRequirement {id : AttemptId} {subject : CleanupSubject}
    {deadlineMs : ℕ} {guardian : Option ProcessGuardianIdentity} :
    (conductorProtocol L).Keeps p t
      (ArtifactStore.registerAttemptCleanupRequirement id subject deadlineMs guardian) :=
  Keeps.bind keeps_currentDate fun _ ↦ Keeps.bind keeps_readAttemptCleanup fun _ ↦
    .ite (keeps_ret _) keeps_transitionAttemptCleanup

theorem keeps_appendAttemptCleanupEvidence {id : AttemptId} {evidence : CleanupEvidence} :
    (conductorProtocol L).Keeps p t
      (ArtifactStore.appendAttemptCleanupEvidence id evidence) :=
  Keeps.bind keeps_readAttemptCleanup fun _ ↦ .ite (keeps_ret _) <|
    .ite (keeps_ret _) keeps_transitionAttemptCleanup

end ArtifactStore

namespace Conductor

/-! ### Updates -/

/-- The patch leaves the launch identity and the parents alone and does not claim. -/
structure Plain (manifest : AttemptManifest) (patch : AttemptPatch) : Prop where
  dispatchOperationId : patch.dispatchOperationId = none
  launchOwner : patch.launchOwner = none
  parents : (manifest.merge patch).parents = manifest.parents
  unclaimed : patch.status ≠ some .claimed

/-- `m` is `manifest` with the patch committed. -/
structure Updated (thread : ℕ) (manifest : AttemptManifest) (patch : AttemptPatch)
    (m : AttemptManifest) (w : World) : Prop where
  eq : m = manifest.merge patch
  follows : manifest.Follows m w
  allowed : m.status ∈ manifest.status.allowed
  journaled : m ∈ w.attempts m.attemptId
  prepared : manifest.status = .claimed → m.status = .preparing →
    w.preparedBy m.attemptId = some thread

theorem safe_update {manifest : AttemptManifest} {patch : AttemptPatch} (hpatch : Plain manifest patch) :
    (conductorProtocol {}).Safe self.process self.thread
      (Returns (Updated self.thread manifest patch)) (update self manifest patch) s := by
  refine (safe_transitionAttempt (fun hallowed ↦ ?_) fun hclaimed ↦ ?_).weaken
    fun m w ⟨heq, hp, hmem, hprepared⟩ ↦ ?_
  · refine ⟨rfl, hallowed, .inl ⟨?_, ?_⟩, hpatch.parents⟩
    · simp [AttemptManifest.merge, hpatch.launchOwner]
    · simp [AttemptManifest.merge, hpatch.dispatchOperationId]
  · refine .inl ?_
    rw [AttemptManifest.merge_status] at hclaimed
    cases hstatus : patch.status with
    | none => rwa [hstatus] at hclaimed
    | some status =>
      rw [hstatus] at hclaimed
      exact absurd (hstatus.trans (congrArg some hclaimed)) hpatch.unclaimed
  · subst heq
    refine ⟨rfl, ⟨rfl, ?_, ?_, AttemptStatus.rank_le_of_mem_allowed hp.allowed, .inr hmem⟩,
      hp.allowed, hmem, hprepared⟩
    · simp [AttemptManifest.merge, hpatch.launchOwner]
    · simp [AttemptManifest.merge, hpatch.dispatchOperationId]

/-! ### Reading and bookkeeping -/

theorem keeps_randomUUID : (conductorProtocol L).Keeps p t randomUUID :=
  Safe.keeps fun _ ↦ safe_atomic_returns (Q := fun _ _ ↦ True) fun w n _ hinv _ _ ↦
    have hsame : SameAttempts w { w with uuid := w.uuid + 1 } := ⟨rfl, rfl, rfl, rfl, rfl, rfl⟩
    ⟨hsame.inv hinv, ⟨hsame.guar L p t n,
      rfl, rfl, rfl, rfl, rfl, rfl, rfl, rfl, rfl, rfl, rfl, rfl, Nat.le_succ _⟩, fun _ _ ↦ trivial⟩

theorem keeps_getAttemptCleanup {id : AttemptId} :
    (conductorProtocol L).Keeps p t (getAttemptCleanup id) :=
  Keeps.bind keeps_readAttempt fun _ ↦ keeps_readAttemptCleanup

/-- A summary is evidence about the manifest it summarizes. -/
theorem safe_summarize {manifest : AttemptManifest} :
    (conductorProtocol L).Safe p t
      (Returns fun result _ ↦ ∃ cleanupStatus, result = manifest.evidence cleanupStatus)
      (summarize manifest) s := by
  refine Keeps.seq (Keeps.attempt keeps_readAttemptCleanup) fun cleanup s' ↦ ?_
  cases cleanup with
  | ok record => exact returns_ok.2 ⟨_, rfl⟩
  | error e => exact returns_ok.2 ⟨_, rfl⟩

theorem keeps_registerCleanupRequirement {manifest : AttemptManifest} {subject : CleanupSubject}
    {guardian : Option ProcessGuardianIdentity} :
    (conductorProtocol L).Keeps p t (registerCleanupRequirement manifest subject guardian) :=
  keeps_registerAttemptCleanupRequirement

theorem keeps_registerProcessCleanup {manifest : AttemptManifest} {operationId : String}
    {guardian : ProcessGuardianIdentity} :
    (conductorProtocol L).Keeps p t (registerProcessCleanup manifest operationId guardian) :=
  Keeps.bind keeps_registerCleanupRequirement fun _ ↦ keeps_ret _

theorem keeps_appendCleanupEvidence {manifest : AttemptManifest} {subject : CleanupSubject}
    {status : EvidenceStatus} {method : CleanupMethod} {detail : Option String}
    {termination : Option ProcessTermination} :
    (conductorProtocol L).Keeps p t
      (appendCleanupEvidence manifest subject status method detail termination) :=
  Keeps.bind keeps_randomUUID fun _ ↦ Keeps.bind keeps_currentDate fun _ ↦ keeps_appendAttemptCleanupEvidence

theorem keeps_recordProcessCleanup {manifest : AttemptManifest} {operationId : String}
    {result : ProcessResult} :
    (conductorProtocol L).Keeps p t (recordProcessCleanup manifest operationId result) :=
  Keeps.bind keeps_appendCleanupEvidence fun _ ↦ keeps_ret _

theorem safe_releaseExternalResource {manifest : AttemptManifest} {resourceId : String}
    {cleanup : ProcessResult} :
    (conductorProtocol {}).Safe self.process self.thread (Returns manifest.Follows)
      (releaseExternalResource self manifest resourceId cleanup) s := by
  refine Keeps.seq keeps_appendCleanupEvidence fun _ s₁ ↦ ?_
  split
  · exact returns_ok.2 (.refl _ _)
  · exact Keeps.seq keeps_currentDate fun now s₂ ↦
      (safe_update ⟨rfl, rfl, rfl, by simp⟩).weaken fun _ _ h ↦ h.follows

/-! ### Lineage -/

theorem keeps_bindProposalContribution {contract : JobContract} {parent : AttemptManifest} :
    (conductorProtocol L).Keeps p t (bindProposalContribution contract parent) := by
  refine Keeps.bind keeps_readJob fun parentContract ↦ .ite (keeps_ret _) (.ite (keeps_ret _) ?_)
  cases parent.workspace with
  | none => exact keeps_ret _
  | some workspace =>
    exact .ite (keeps_ret _) <| .ite (keeps_ret _) <| Keeps.bind keeps_askOutside fun files ↦
      .ite (keeps_ret _) (keeps_ret _)

theorem keeps_validateContributions {contract : JobContract}
    (contributions : List ProposalContribution) :
    (conductorProtocol L).Keeps p t (validateContributions contract contributions) := by
  induction contributions with
  | nil => exact keeps_ret _
  | cons expected rest ih =>
    exact Keeps.bind keeps_readAttempt fun _ ↦ Keeps.bind keeps_bindProposalContribution fun _ ↦
      .ite (keeps_ret _) ih

theorem keeps_validateProposalLineage {contract : JobContract} {lineage : ProposalLineage} :
    (conductorProtocol L).Keeps p t (validateProposalLineage contract lineage) :=
  .ite (keeps_ret _) (keeps_validateContributions _)

theorem keeps_collectContributions {contract : JobContract} (parents : List AttemptId)
    (contributions : List ProposalContribution) :
    (conductorProtocol L).Keeps p t (collectContributions contract parents contributions) := by
  induction parents generalizing contributions with
  | nil => exact keeps_ret _
  | cons attemptId rest ih =>
    exact Keeps.bind keeps_readAttempt fun _ ↦ (keeps_ofResult _).bind fun _ ↦
      Keeps.bind keeps_bindProposalContribution fun _ ↦ (keeps_ofResult _).bind fun _ ↦ ih _

/-- A lineage names the parents it was built for, once each. -/
theorem safe_buildProposalLineage {contract : JobContract} {parents : List AttemptId} :
    (conductorProtocol L).Safe p t
      (Returns fun lineage _ ↦ lineage.directParentAttemptIds = parents.eraseDups)
      (buildProposalLineage contract parents) s :=
  (keeps_collectContributions _ _).seq fun _ _ ↦ .ite (fun _ ↦ returns_error) fun _ ↦
    .ite (fun _ ↦ returns_error) fun _ ↦ Keeps.seq keeps_validateProposalLineage fun _ _ ↦
      returns_ok.2 rfl

/-- A reservation without parents has no lineage; one with parents names them. -/
theorem safe_reservationLineage {contract : JobContract} {parents : List AttemptId} :
    (conductorProtocol L).Safe p t
      (Returns fun lineage _ ↦ lineage.map ProposalLineage.directParentAttemptIds =
        if parents = [] then none else some parents.eraseDups)
      (reservationLineage contract parents) s := by
  refine .ite (fun h ↦ returns_ok.2 (by simp [h])) fun h ↦ Safe.mapError_returns ?_
  exact Safe.seq safe_buildProposalLineage fun lineage _ hlineage ↦
    returns_ok.2 (by simp [h, hlineage])

/-! ### Reservation -/

/-- `m` is what is reserved for a job, its parents and a dispatch operation. -/
structure Reservation (jobId : JobId) (parents : List AttemptId) (operation : Option Uuid)
    (m : AttemptManifest) : Prop where
  jobId : m.attemptId.jobId = jobId
  status : m.status = .reserved
  dispatchOperationId : m.dispatchOperationId = operation
  parents : m.parents = if parents = [] then none else some parents.eraseDups

variable {jobId : JobId} {parents : List AttemptId} {operation : Option Uuid}

/-- A new attempt is published, or there was one already. -/
theorem safe_createAttempt {contract : JobContract} {ordinal : ℕ}
    {lineage : Option ProposalLineage} (hcontract : contract.jobId = jobId)
    (hlineage : lineage.map ProposalLineage.directParentAttemptIds =
      if parents = [] then none else some parents.eraseDups) :
    (conductorProtocol { creates := Reservation jobId parents operation }).Safe p t
      (Returns fun m w ↦ ∀ manifest, m = some manifest →
        Reservation jobId parents operation manifest ∧
          manifest ∈ w.attempts manifest.attemptId)
      (ArtifactStore.createAttempt contract ⟨contract.jobId, ordinal⟩ lineage operation) s := by
  refine safe_storeWrite conductorProtocol_refl fun w n _ hinv _ _ ↦ ?_
  split
  · rename_i hnew
    have hreservation : Reservation jobId parents operation
        (createReservedAttempt ⟨contract.jobId, ordinal⟩ contract.adapterId w.outside.now
          (ArtifactStore.attemptArtifacts ⟨contract.jobId, ordinal⟩) lineage operation) :=
      ⟨hcontract, rfl, rfl, hlineage⟩
    refine ⟨hinv.createAttempt hnew rfl, ⟨.createAttempt hnew rfl hreservation,
      rfl, rfl, rfl, rfl, rfl, rfl, rfl, rfl, rfl, rfl, rfl, rfl, le_rfl⟩, fun m hm manifest heq ↦ ?_⟩
    obtain rfl := Except.ok.inj hm
    obtain rfl := Option.some.inj heq
    refine ⟨hreservation, ?_⟩
    rw [World.createAttempt_attempts_self]
    exact List.mem_singleton_self _
  · refine ⟨hinv, conductorProtocol_refl n w, fun m hm manifest heq ↦ ?_⟩
    obtain rfl := Except.ok.inj hm
    exact nomatch heq

/-- `reserveAttempt` returns the attempt it published. -/
theorem safe_reserveAttemptFrom {contract : JobContract} {lineage : Option ProposalLineage}
    (hcontract : contract.jobId = jobId)
    (hlineage : lineage.map ProposalLineage.directParentAttemptIds =
      if parents = [] then none else some parents.eraseDups) (ordinal remaining : ℕ) :
    (conductorProtocol { creates := Reservation jobId parents operation }).Safe p t
      (Returns fun m w ↦ Reservation jobId parents operation m ∧ m ∈ w.attempts m.attemptId)
      (ArtifactStore.reserveAttemptFrom contract lineage operation ordinal remaining) s := by
  induction remaining generalizing ordinal s with
  | zero => exact returns_error
  | succ remaining ih =>
    have hreserve : (conductorProtocol { creates := Reservation jobId parents operation }).Safe p t
        (Returns fun m w ↦ ∀ manifest, m = some manifest →
          Reservation jobId parents operation manifest ∧
            manifest ∈ w.attempts manifest.attemptId)
        (ArtifactStore.reserveAttemptAt contract ordinal lineage operation) s := by
      refine (safe_createAttempt hcontract hlineage).seq fun m s₁ hm ↦ ?_
      cases m with
      | some manifest => exact returns_ok.2 hm
      | none => exact Keeps.seq keeps_readAttempt fun _ s₂ ↦ returns_ok.2 fun _ h ↦ nomatch h
    refine hreserve.seq fun m s₁ hm ↦ ?_
    cases m with
    | some manifest => exact returns_ok.2 (hm manifest rfl)
    | none => exact ih (ordinal + 1)

/-- `reservePreparedAttempt` returns evidence of the attempt it published. -/
theorem safe_reservePreparedAttempt :
    (conductorProtocol { creates := Reservation jobId parents operation }).Safe p t
      (Returns fun result w ↦ ∃ m, Reservation jobId parents operation m ∧
        m ∈ w.attempts m.attemptId ∧ m.attemptId = result.attemptId)
      (reservePreparedAttempt jobId parents operation) s := by
  refine (safe_readJob jobId).seq fun contract s₁ hcontract ↦ .ite (fun _ ↦ returns_error) fun _ ↦ ?_
  refine Keeps.seq keeps_askOutside fun _ s₂ ↦ ?_
  refine Safe.seq safe_reservationLineage fun lineage s₃ hlineage ↦ ?_
  refine (safe_reserveAttemptFrom hcontract hlineage _ _).seq fun m s₄ ⟨hm, hmem⟩ ↦ ?_
  have hsummary : (conductorProtocol {}).Safe p t
      (Returns fun result _ ↦ ∃ cleanupStatus, result = m.evidence cleanupStatus)
      (summarize m) s₄ := safe_summarize
  refine (steady_mem.returns hsummary hmem).weaken fun result w ⟨⟨_, heq⟩, hmem⟩ ↦ ?_
  exact ⟨m, hm, hmem, by rw [heq]; rfl⟩

/-! ### Claim and launch -/

theorem keeps_requireAdapter {adapterId : String} :
    (conductorProtocol L).Keeps p t (requireAdapter adapterId) :=
  keeps_askOutside

/-- A claim keeps the operation an attempt was reserved for. -/
theorem precedes_claim {m : AttemptManifest} {operation : Uuid} {owner : LaunchOwner}
    (hstatus : m.status = .reserved)
    (hoperation : ∀ id, m.dispatchOperationId = some id → id = operation) :
    m.Precedes (m.merge
      { status := some .claimed, dispatchOperationId := some (some operation)
        launchOwner := some (some owner) }) where
  attemptId := rfl
  allowed := by
    rw [hstatus]
    exact List.mem_cons_of_mem _ List.mem_cons_self
  identity := .inr ⟨hstatus, rfl, fun id hid ↦ congrArg some (hoperation id hid).symm⟩
  parents := rfl

theorem keeps_claimReservedAttempt {attemptId : AttemptId} {operation : Uuid} :
    (conductorProtocol { claims := (· = attemptId) }).Keeps self.process self.thread
      (claimReservedAttempt self attemptId operation) := by
  refine Safe.keeps fun s ↦ (safe_readAttempt attemptId).seq
    (Q := fun _ _ ↦ True) fun manifest s₁ ⟨_, hid, _⟩ ↦ ?_
  refine .ite (fun _ ↦ returns_error) fun hstatus ↦ .ite (fun _ ↦ returns_error) fun hany ↦ ?_
  have hoperation (id : Uuid) (h : manifest.dispatchOperationId = some id) : id = operation := by
    simpa [h] using hany
  refine Keeps.seq keeps_readJob fun contract s₂ ↦ ?_
  have hrest : (conductorProtocol { claims := (· = attemptId) }).Keeps self.process self.thread
      (do
        requireAdapter contract.adapterId
        let claimedAt ← currentDate
        let claimed ← update self manifest
          { status := some .claimed
            dispatchOperationId := some (some operation)
            launchOwner := some (some
              { instanceId := self.process, processId := self.process, claimedAt := claimedAt }) }
        summarize claimed) := by
    refine Keeps.bind keeps_requireAdapter fun _ ↦ Keeps.bind keeps_currentDate fun claimedAt ↦ ?_
    refine Keeps.bind (Safe.keeps fun _ ↦ safe_transitionAttempt
      (fun _ ↦ precedes_claim (not_not.1 hstatus) hoperation) fun _ ↦ .inr hid) fun claimed ↦ ?_
    exact Safe.keeps fun _ ↦ safe_summarize
  exact .ite (fun _ ↦ Keeps.seq keeps_askOutside fun _ s₃ ↦ hrest.returns s₃) fun _ ↦ hrest.returns s₂

/-- What `launchClaimedAttempt` has checked of the manifest it launches. -/
structure Launchable (process : ℕ) (operation : Uuid) (m : AttemptManifest) (w : World) : Prop where
  journaled : m ∈ w.attempts m.attemptId
  claimed : m.status = .claimed
  owner : m.launchOwner.map LaunchOwner.instanceId = some process
  operation : m.dispatchOperationId = some operation

theorem Launchable.steady {process : ℕ} {operation : Uuid} {m : AttemptManifest} :
    Steady p t (Launchable process operation m) where
  rely _ _ h hw := { hw with journaled := h.mem hw.journaled }
  guar _ _ _ h hw := { hw with journaled := h.mem hw.journaled }

theorem safe_launchAttempt {contract : JobContract} {manifest : AttemptManifest} {operation : Uuid}
    (hs : Launchable self.process operation manifest s) :
    (conductorProtocol { memory := True }).Safe self.process self.thread
      (Returns fun _ _ ↦ True) (launchAttempt self contract manifest operation) s := by
  intro w n ht hinv hrely _ _
  have hw := Launchable.steady.rely s w hrely hs
  by_cases hexecuting : ((w.conductor self.process).executions manifest.attemptId).isSome = true
  · simp only [hexecuting, if_true]
    exact ⟨hinv, conductorProtocol_refl n w, fun i k hk ↦ absurd hk (by simp), returns_error⟩
  · simp only [hexecuting]
    refine ⟨hinv.launch, ⟨.launch hinv trivial, .launch⟩, ?_, returns_ok.2 trivial⟩
    rintro (_ | i) k hk
    · obtain rfl := Option.some.inj hk
      exact
        { journaled := hw.journaled, claimed := hw.claimed, owner := hw.owner
          operation := hw.operation, launched := Function.update_self ..
          unprepared := fun id h ↦ lt_irrefl n (hinv.preparedBy_lt id n h)
          unstarted := fun l hl h ↦ (hinv.starts_lt l hl).ne h
          unsettled := (congrFun World.launch_settled n).trans hinv.settled_fresh }
    · exact absurd hk (by simp)

theorem keeps_launchClaimedAttempt {attemptId : AttemptId} {operation : Uuid} :
    (conductorProtocol { memory := True }).Keeps self.process self.thread
      (launchClaimedAttempt self attemptId operation) := by
  refine Safe.keeps fun s ↦ (safe_readAttempt attemptId).seq
    (Q := fun _ _ ↦ True) fun manifest s₁ ⟨hmem, hid, _⟩ ↦ ?_
  refine .ite (fun _ ↦ returns_error) fun hclaimed ↦ .ite (fun _ ↦ returns_error) fun howner ↦ ?_
  have hs₁ : Launchable self.process operation manifest s₁ := by
    rw [not_or, not_not, not_not] at hclaimed
    exact ⟨hid ▸ hmem, hclaimed.1, not_not.1 howner, hclaimed.2⟩
  have hread : (conductorProtocol {}).Safe self.process self.thread (Returns fun _ _ ↦ True)
      (Prog.read .memory fun w ↦
        .ok ((w.conductor self.process).executions attemptId).isSome : Runtime Bool) s₁ :=
    (keeps_read conductorProtocol_refl).returns s₁
  refine (Launchable.steady.returns hread hs₁).seq fun executing s₂ ⟨_, hs₂⟩ ↦
    .ite (fun _ ↦ returns_error) fun _ ↦ ?_
  have hjob : (conductorProtocol {}).Safe self.process self.thread (Returns fun _ _ ↦ True)
      (ArtifactStore.readJob manifest.jobId) s₂ := Keeps.returns keeps_readJob s₂
  refine (Launchable.steady.returns hjob hs₂).seq fun contract s₃ ⟨_, hs₃⟩ ↦ ?_
  exact (safe_launchAttempt hs₃).seq fun _ s₄ _ ↦ Safe.weaken safe_summarize fun _ _ _ ↦ trivial

/-- The license to execute attempts of one id. -/
def launching (attemptId : AttemptId) : License :=
  { claims := (· = attemptId), memory := True }

theorem keeps_startReservedAttempt {attemptId : AttemptId} {operation : Uuid} :
    (conductorProtocol (launching attemptId)).Keeps self.process self.thread
      (startReservedAttempt self attemptId operation) := by
  have hclaim : (launching attemptId).Includes { claims := (· = attemptId) } :=
    ⟨fun _ h ↦ h, fun _ h ↦ h, fun h ↦ h, fun _ ↦ trivial⟩
  have hlaunch : (launching attemptId).Includes { memory := True } :=
    ⟨fun _ h ↦ h, fun _ h ↦ False.elim h, fun h ↦ h, fun _ ↦ trivial⟩
  refine Keeps.bind (fun s ↦ Safe.license hclaim (keeps_claimReservedAttempt s)) fun claimed ↦ ?_
  exact Keeps.bind (fun s ↦ Safe.license hlaunch (keeps_launchClaimedAttempt s)) fun _ ↦ keeps_ret _

/-- What `waitForAttempt` returns is evidence of a manifest of the attempt. -/
theorem safe_waitForAttempt {attemptId : AttemptId} :
    (conductorProtocol {}).Safe self.process self.thread
      (Returns fun result w ↦ ∃ m cleanupStatus, m ∈ w.attempts attemptId ∧
        m.attemptId = attemptId ∧ result = m.evidence cleanupStatus)
      (waitForAttempt self attemptId) s := by
  have hexecution : (conductorProtocol {}).Safe self.process self.thread
      (Returns fun execution w ↦ ∀ i, execution = some i → w.launchedFor i = some attemptId)
      (Prog.read .memory fun w ↦
        .ok ((w.conductor self.process).executions attemptId) : Runtime (Option ℕ)) s := by
    refine safe_read_returns conductorProtocol_refl fun w n _ hinv _ _ execution h i hi ↦ ?_
    obtain rfl := Except.ok.inj h
    exact hinv.executions _ attemptId i hi
  refine hexecution.seq fun execution s₁ hs₁ ↦ ?_
  have hsummarize (m : AttemptManifest) (s₂ : World) (hs₂ : m ∈ s₂.attempts attemptId ∧
      m.attemptId = attemptId) : (conductorProtocol {}).Safe self.process self.thread
      (Returns fun result w ↦ ∃ m cleanupStatus, m ∈ w.attempts attemptId ∧
        m.attemptId = attemptId ∧ result = m.evidence cleanupStatus) (summarize m) s₂ :=
    (steady_mem.returns safe_summarize hs₂.1).weaken fun result w ⟨⟨c, hc⟩, hw⟩ ↦
      ⟨m, c, hw, hs₂.2, hc⟩
  cases execution with
  | none => exact (safe_readAttempt attemptId).seq fun m s₂ h ↦ hsummarize m s₂ ⟨h.1, h.2.1⟩
  | some i =>
    refine Safe.seq (safe_await_returns fun w n _ hinv hrely hsettled _ ↦
      ⟨hinv, conductorProtocol_refl n w, fun m hm ↦ ?_⟩) hsummarize
    obtain ⟨r, hr⟩ := Option.isSome_iff_exists.1 hsettled
    rw [hr] at hm
    obtain rfl : r = .ok m := hm
    obtain ⟨hfor, hmem, -⟩ := hinv.settled _ i m hr
    have hid : m.attemptId = attemptId :=
      Option.some.inj (hfor.symm.trans (hrely.launched i attemptId (hs₁ i rfl)))
    exact ⟨hid ▸ hmem, hid⟩

/-! ### Cancellation -/

theorem keeps_cancelAttempt {attemptId : AttemptId} :
    (conductorProtocol { memory := True }).Keeps self.process self.thread
      (cancelAttempt self attemptId) :=
  Safe.keeps fun _ ↦ safe_atomic_returns (Q := fun _ _ ↦ True) fun w n _ hinv _ _ ↦ by
    dsimp only
    split
    · exact ⟨hinv.setConductor (fun _ _ h ↦ h) rfl,
        ⟨.setConductor trivial rfl, .setConductor⟩, fun _ _ ↦ trivial⟩
    · exact ⟨hinv, conductorProtocol_refl n w, fun _ _ ↦ trivial⟩

/-- After `cancelReservedAttempt` the attempt waits for no launch. -/
theorem safe_cancelReservedAttempt {attemptId : AttemptId} {message : String} :
    (conductorProtocol {}).Safe self.process self.thread
      (Returns fun m w ↦ m ∈ w.attempts attemptId ∧ m.attemptId = attemptId ∧
        m.status.isUnlaunched = false)
      (cancelReservedAttempt self attemptId message) s := by
  refine (safe_readAttempt attemptId).seq fun manifest s₁ ⟨hmem, hid, _⟩ ↦ .ite (fun h ↦ ?_) fun _ ↦ ?_
  · exact returns_ok.2 ⟨hmem, hid, by simpa using h⟩
  · refine Keeps.seq keeps_currentDate fun now s₂ ↦ (safe_update ⟨rfl, rfl, rfl, by simp⟩).weaken fun m w h ↦ ?_
    have hm : m.attemptId = attemptId := h.follows.attemptId.trans hid
    exact ⟨hm ▸ h.journaled, hm, by rw [h.eq]; rfl⟩

/-! ### Resources left behind -/

section Cleanup

variable {contract : JobContract} {manifest : AttemptManifest}

theorem safe_runExternalCleanup {resource : ExternalResource} :
    (conductorProtocol {}).Safe self.process self.thread
      (Returns fun outcome w ↦ manifest.Follows outcome.1 w)
      (runExternalCleanup self contract manifest resource) s := by
  refine (keeps_ofResult _).seq fun _ s₁ ↦ Keeps.seq keeps_askOutside fun run s₂ ↦ ?_
  have hrest (s : World) : (conductorProtocol {}).Safe self.process self.thread
      (Returns fun outcome w ↦ manifest.Follows outcome.1 w)
      (do
        let result ← Prog.ofResult run.result
        recordProcessCleanup manifest (cleanupOperation resource) result
        let noSuchContainer ← askOutside fun o ↦
          o.noSuchContainer manifest.attemptId resource.resourceId
        if result.outputLimit.isSome ∨ result.termination.status ≠ .proven ∨
            result.exitCode ≠ some 0 ∧ noSuchContainer = false then
          let _ ← appendCleanupEvidence manifest ⟨.externalResource, resource.resourceId⟩
            (if result.termination.status = .proven then .failed else .unknown)
            .externalResourceCommand
            (some ("External resource cleanup exited " ++ exitText result.exitCode))
            (some result.termination)
          return (manifest, false)
        let manifest ← releaseExternalResource self manifest resource.resourceId result
        return (manifest, true) : Runtime (AttemptManifest × Bool)) s := by
    refine (keeps_ofResult _).seq fun result s₁ ↦ Keeps.seq keeps_recordProcessCleanup fun _ s₂ ↦
      Keeps.seq keeps_askOutside fun noSuchContainer s₃ ↦ .ite (fun _ ↦ ?_) fun _ ↦ ?_
    · exact Keeps.seq keeps_appendCleanupEvidence fun _ s₄ ↦ returns_ok.2 (.refl _ _)
    · exact Safe.seq safe_releaseExternalResource fun m s₄ hm ↦ returns_ok.2 hm
  cases run.guardian with
  | none => exact hrest s₂
  | some guardian => exact Keeps.seq keeps_registerProcessCleanup fun _ s₃ ↦ hrest s₃

theorem safe_cleanupResource {resource : ExternalResource} :
    (conductorProtocol {}).Safe self.process self.thread
      (Returns fun outcome w ↦ manifest.Follows outcome.1 w)
      (cleanupResource self contract manifest resource) s := by
  refine .ite (fun _ ↦ returns_ok.2 (.refl _ _)) fun _ ↦ ?_
  refine Keeps.seq keeps_getAttemptCleanup fun existing s₁ ↦
    .ite (fun _ ↦ returns_ok.2 (.refl _ _)) fun _ ↦ ?_
  refine Keeps.seq keeps_registerCleanupRequirement fun _ s₂ ↦ ?_
  refine Safe.attempt_seq safe_runExternalCleanup (fun outcome s₃ h ↦ returns_ok.2 h) fun e s₃ ↦ ?_
  exact Keeps.seq keeps_appendCleanupEvidence fun _ s₄ ↦ returns_ok.2 (.refl _ _)

theorem safe_cleanupResources (resources : List ExternalResource) :
    (conductorProtocol {}).Safe self.process self.thread
      (Returns fun outcome w ↦ manifest.Follows outcome.1 w)
      (cleanupResources self contract resources manifest) s := by
  induction resources generalizing manifest s with
  | nil => exact returns_ok.2 (.refl _ _)
  | cons resource rest ih =>
    refine Safe.seq safe_cleanupResource fun outcome s₁ houtcome ↦ ?_
    obtain ⟨m, safe⟩ := outcome
    refine .ite (fun _ ↦ returns_ok.2 houtcome) fun _ ↦ ?_
    exact Safe.follows (f := Prod.fst) houtcome ih

theorem safe_cleanupExternalResources :
    (conductorProtocol {}).Safe self.process self.thread
      (Returns fun outcome w ↦ manifest.Follows outcome.1 w)
      (cleanupExternalResources self manifest) s :=
  Keeps.seq keeps_readJob fun _ _ ↦ safe_cleanupResources _

theorem keeps_assertWorkspaceRemovalSafe :
    (conductorProtocol L).Keeps p t (assertWorkspaceRemovalSafe manifest) :=
  Keeps.bind keeps_getAttemptCleanup fun _ ↦ .ite (keeps_ret _) (keeps_ret _)

theorem keeps_removeAttemptWorkspace {attemptId : AttemptId} :
    (conductorProtocol {}).Keeps self.process self.thread
      (removeAttemptWorkspace self attemptId) := by
  refine Keeps.bind keeps_readAttempt fun manifest ↦ .ite (keeps_ret _) ?_
  refine Keeps.bind (Safe.keeps fun _ ↦ safe_cleanupExternalResources) fun outcome ↦ ?_
  refine .ite (keeps_ret _) (.ite (Keeps.bind keeps_getAttemptCleanup fun _ ↦ keeps_ret _) ?_)
  refine Keeps.bind keeps_assertWorkspaceRemovalSafe fun _ ↦ Keeps.bind keeps_getAttemptCleanup fun _ ↦
    .ite (keeps_ret _) ?_
  refine Keeps.bind keeps_registerCleanupRequirement fun _ ↦ Keeps.bind keeps_readJob fun _ ↦ ?_
  refine Keeps.catching ?_ fun error ↦ ?_
  · exact Keeps.bind keeps_askOutside fun _ ↦ Keeps.bind keeps_appendCleanupEvidence fun _ ↦ keeps_ret _
  · exact Keeps.bind keeps_appendCleanupEvidence fun _ ↦ keeps_ret _

/-- `releaseAttemptExternalResources` only returns for a terminal attempt. -/
theorem safe_releaseAttemptExternalResources {attemptId : AttemptId} :
    (conductorProtocol {}).Safe self.process self.thread
      (Returns fun m w ↦ m ∈ w.attempts attemptId ∧ m.attemptId = attemptId ∧
        m.status.isTerminal = true)
      (releaseAttemptExternalResources self attemptId) s := by
  refine (safe_readAttempt attemptId).seq fun manifest s₁ ⟨hmem, hid, _⟩ ↦
    .ite (fun _ ↦ returns_error) fun hterminal ↦ ?_
  have hterminal : manifest.status.isTerminal = true := by simpa using hterminal
  refine (steady_mem.returns safe_cleanupExternalResources hmem).seq
    fun outcome s₂ ⟨hfollows, hmem₂⟩ ↦ .ite (fun _ ↦ returns_error) fun _ ↦ ?_
  have hm : outcome.1 ∈ s₂.attempts attemptId ∧ outcome.1.attemptId = attemptId := by
    have hmem' := hfollows.mem (hid.symm ▸ hmem₂)
    have hid' := hfollows.attemptId.trans hid
    exact ⟨hid' ▸ hmem', hid'⟩
  refine (steady_mem.returns (Keeps.returns keeps_getAttemptCleanup s₂) hm.1).seq
    fun evidence s₃ ⟨_, hs₃⟩ ↦ .ite (fun _ ↦ returns_error) fun _ ↦ ?_
  exact returns_ok.2 ⟨hs₃, hm.2, hfollows.isTerminal hterminal⟩

/-! ### Recovery of an interrupted attempt -/

theorem keeps_recordGuardianAbsence (requirements : List CleanupRequirement) :
    (conductorProtocol L).Keeps p t (recordGuardianAbsence manifest requirements) := by
  induction requirements with
  | nil => exact keeps_ret _
  | cons requirement rest ih =>
    rw [recordGuardianAbsence]
    refine Keeps.bind keeps_askOutside fun answer ↦ ?_
    obtain ⟨closed, now⟩ := answer
    exact Keeps.bind keeps_appendCleanupEvidence fun _ ↦ ih

theorem keeps_ensureProcessRequirement {cleanup : AttemptCleanupRecord} :
    (conductorProtocol L).Keeps p t (ensureProcessRequirement manifest cleanup) := by
  unfold ensureProcessRequirement
  cases manifest.guardian with
  | none => exact keeps_ret _
  | some guardian =>
    exact .ite (Keeps.bind keeps_registerProcessCleanup fun _ ↦ keeps_getAttemptCleanup) (keeps_ret _)

/-- What a recovery says of the attempt: that it has ended, when it says so. -/
structure Recovered (attemptId : AttemptId) (outcome : Disposition × AttemptManifest) (w : World) :
    Prop where
  same : outcome.2.attemptId = attemptId
  journaled : outcome.2 ∈ w.attempts attemptId
  ended : outcome.1 = .terminal ∨ outcome.1 = .safeToRetry → outcome.2.status.isTerminal = true

theorem safe_closeUnlaunched :
    (conductorProtocol {}).Safe self.process self.thread
      (Returns fun m w ↦ m ∈ w.attempts manifest.attemptId ∧ m.attemptId = manifest.attemptId ∧
        m.status.isTerminal = true)
      (closeUnlaunched self manifest) s :=
  Keeps.seq keeps_currentDate fun _ _ ↦ (safe_update ⟨rfl, rfl, rfl, by simp⟩).weaken fun m w h ↦
    ⟨h.follows.attemptId ▸ h.journaled, h.follows.attemptId, by rw [h.eq]; rfl⟩

theorem safe_closeOrphan :
    (conductorProtocol {}).Safe self.process self.thread
      (Returns (Recovered manifest.attemptId)) (closeOrphan self manifest) s := by
  refine Keeps.seq keeps_currentDate fun now s₁ ↦
    Safe.seq (safe_update ⟨rfl, rfl, rfl, by simp⟩) fun m s₂ hm ↦ ?_
  have hended : m.status.isTerminal = true := by rw [hm.eq]; rfl
  have hmem : m ∈ s₂.attempts manifest.attemptId := hm.follows.attemptId ▸ hm.journaled
  have hreturn (disposition : Disposition) (w : World) (hw : m ∈ w.attempts manifest.attemptId) :
      Recovered manifest.attemptId (disposition, m) w :=
    ⟨hm.follows.attemptId, hw, fun _ ↦ hended⟩
  have hcleanup (w : World) (hw : m ∈ w.attempts manifest.attemptId) :
      (conductorProtocol {}).Safe self.process self.thread
        (Returns (Recovered manifest.attemptId))
        (do
          let cleanup ← getAttemptCleanup m.attemptId
          if !cleanup.status.isSafe then
            return (.unknown, m)
          return (.safeToRetry, m) : Runtime (Disposition × AttemptManifest)) w := by
    refine (steady_mem.returns (Keeps.returns keeps_getAttemptCleanup w) hw).seq
      fun cleanup w' ⟨_, hw'⟩ ↦ ?_
    exact .ite (fun _ ↦ returns_ok.2 (hreturn _ w' hw')) fun _ ↦ returns_ok.2 (hreturn _ w' hw')
  refine (steady_mem.returns (Keeps.returns keeps_readJob s₂) hmem).seq fun contract s₃ ⟨_, hs₃⟩ ↦ ?_
  refine .ite (fun _ ↦ ?_) fun _ ↦ hcleanup s₃ hs₃
  refine (steady_mem.returns (Keeps.returns (Keeps.attempt keeps_removeAttemptWorkspace) s₃) hs₃).seq
    fun removed s₄ ⟨_, hs₄⟩ ↦ ?_
  cases removed with
  | ok _ => exact hcleanup s₄ hs₄
  | error _ => exact returns_ok.2 (hreturn _ s₄ hs₄)

theorem safe_recoverDeadAttempt {unresolved : List CleanupRequirement}
    (hs : manifest ∈ s.attempts manifest.attemptId) :
    (conductorProtocol {}).Safe self.process self.thread
      (Returns (Recovered manifest.attemptId)) (recoverDeadAttempt self manifest unresolved) s := by
  have hunknown {m : AttemptManifest} {w : World} (hm : m.attemptId = manifest.attemptId)
      (hw : m ∈ w.attempts manifest.attemptId) :
      Recovered manifest.attemptId (.unknown, m) w :=
    ⟨hm, hw, fun h ↦ by rcases h with h | h <;> exact nomatch h⟩
  refine (steady_mem.returns ((keeps_recordGuardianAbsence _).returns s) hs).seq
    fun _ s₁ ⟨_, hs₁⟩ ↦ ?_
  refine (steady_mem.returns (Keeps.returns keeps_getAttemptCleanup s₁) hs₁).seq
    fun cleanup s₂ ⟨_, hs₂⟩ ↦ .ite (fun _ ↦ returns_ok.2 (hunknown rfl hs₂)) fun _ ↦ ?_
  refine (steady_mem.returns safe_cleanupExternalResources hs₂).seq
    fun outcome s₃ ⟨hfollows, hs₃⟩ ↦ ?_
  obtain ⟨m, safe⟩ := outcome
  have hmem : m ∈ s₃.attempts manifest.attemptId := hfollows.attemptId ▸ hfollows.mem hs₃
  refine .ite (fun _ ↦ returns_ok.2 (hunknown hfollows.attemptId hmem)) fun _ ↦ ?_
  exact Safe.weaken safe_closeOrphan fun outcome w h ↦
    ⟨h.same.trans hfollows.attemptId, hfollows.attemptId ▸ h.journaled, h.ended⟩

theorem safe_recoverLaunchedAttempt (hs : manifest ∈ s.attempts manifest.attemptId) :
    (conductorProtocol {}).Safe self.process self.thread
      (Returns (Recovered manifest.attemptId)) (recoverLaunchedAttempt self manifest) s := by
  have hkeep (disposition : Disposition) {m : AttemptManifest} {w : World}
      (hd : disposition ≠ .terminal ∧ disposition ≠ .safeToRetry)
      (hm : m.attemptId = manifest.attemptId) (hw : m ∈ w.attempts manifest.attemptId) :
      Recovered manifest.attemptId (disposition, m) w :=
    ⟨hm, hw, fun h ↦ by rcases h with h | h; exacts [absurd h hd.1, absurd h hd.2]⟩
  refine (steady_mem.returns (Keeps.returns (Keeps.attempt keeps_getAttemptCleanup) s) hs).seq
    fun cleanup s₁ ⟨_, hs₁⟩ ↦ ?_
  cases cleanup with
  | error _ => exact returns_ok.2 (hkeep _ (by decide) rfl hs₁)
  | ok cleanup =>
    refine (steady_mem.returns (Keeps.returns keeps_ensureProcessRequirement s₁) hs₁).seq
      fun cleanup s₂ ⟨_, hs₂⟩ ↦ .ite (fun _ ↦ returns_ok.2 (hkeep _ (by decide) rfl hs₂))
        fun _ ↦ ?_
    refine (steady_mem.returns (Keeps.returns keeps_askOutside s₂) hs₂).seq fun alive s₃ ⟨_, hs₃⟩ ↦
      .ite (fun _ ↦ ?_) fun _ ↦ safe_recoverDeadAttempt hs₃
    refine (safe_readAttempt manifest.attemptId).seq fun m s₄ ⟨hmem, hid, _⟩ ↦ ?_
    refine (steady_mem.returns (Keeps.returns keeps_askOutside s₄) hmem).seq fun alive s₅ ⟨_, hs₅⟩ ↦
      .ite (fun _ ↦ returns_ok.2 (hkeep _ (by decide) hid hs₅)) fun _ ↦ ?_
    exact (safe_recoverDeadAttempt (hid.symm ▸ hs₅)).weaken fun outcome w h ↦
      ⟨h.same.trans hid, hid ▸ h.journaled, h.ended⟩

/-- **A recovery that says the attempt has ended tells the truth.** -/
theorem safe_recoverInterruptedAttempt {attemptId : AttemptId} :
    (conductorProtocol {}).Safe self.process self.thread
      (Returns (Recovered attemptId)) (recoverInterruptedAttempt self attemptId) s := by
  refine (safe_readAttempt attemptId).seq fun manifest s₁ ⟨hmem, hid, _⟩ ↦
    .ite (fun hterminal ↦ returns_ok.2 ⟨hid, hmem, fun _ ↦ hterminal⟩) fun _ ↦
      .ite (fun _ ↦ ?_) fun _ ↦ ?_
  · exact Safe.seq safe_closeUnlaunched fun m s₂ ⟨h1, h2, h3⟩ ↦
      returns_ok.2 ⟨h2.trans hid, hid ▸ h1, fun _ ↦ h3⟩
  · exact (safe_recoverLaunchedAttempt (hid.symm ▸ hmem)).weaken fun outcome w h ↦
      ⟨h.same.trans hid, hid ▸ h.journaled, h.ended⟩

end Cleanup

end Conductor

end CodeConductor
