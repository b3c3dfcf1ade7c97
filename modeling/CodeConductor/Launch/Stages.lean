import CodeConductor.Launch.Operations
import CodeConductor.Runtime.Execution

/-!
# The stages of an execution keep the agreement

Every stage takes the manifest it was given to one that follows it, also when it throws, and a stage
that throws because it ended the attempt has committed the ending. Two facts are carried beside the
manifests: the execution has prepared its attempt, and has not started a worker yet; they are what the
start of the worker rests on.
-/

namespace CodeConductor

open Async Async.Prog Async.Protocol

namespace Conductor

variable {L : License} {self : Self} {s : World}

/-! ### How a stage ends -/

section Ending

variable {A B : Type} {manifest m : AttemptManifest}

/-- The ending of a part of an execution that was given `manifest`. -/
def Ending (manifest : AttemptManifest) (Q : A → World → Prop) :
    Except Interrupted A → World → Prop
  | .ok a, w => Q a w
  | .error e, w => manifest.Follows e.manifest w ∧
      ∀ m, e = .ended m → m ∈ w.attempts m.attemptId ∧ m.status.isTerminal = true

/-- Sequencing of stages. -/
theorem safe_stage {R : A → World → Prop} {Q : B → World → Prop} {prog : Execution A}
    {f : A → Execution B}
    (h : (conductorProtocol L).Safe self.process self.thread (Ending manifest R) prog s)
    (hf : ∀ a w, R a w →
      (conductorProtocol L).Safe self.process self.thread (Ending manifest Q) (f a) w) :
    (conductorProtocol L).Safe self.process self.thread (Ending manifest Q) (prog.bind f) s :=
  h.bind hf fun _ _ he ↦ he

theorem Ending.mono {R Q : A → World → Prop} (hRQ : ∀ a w, R a w → Q a w)
    {r : Except Interrupted A} {w : World} (h : Ending manifest R r w) : Ending manifest Q r w :=
  match r, h with
  | .ok a, h => hRQ a w h
  | .error _, h => h

theorem Ending.failed {Q : A → World → Prop} {error : RuntimeError} {hasWorkspace : Bool}
    {w : World} (hm : manifest.Follows m w) :
    Ending manifest Q (.error (.failed error m hasWorkspace)) w :=
  ⟨hm, fun _ h ↦ Interrupted.noConfusion h⟩

theorem Ending.ended {Q : A → World → Prop} {w : World} (hm : manifest.Follows m w)
    (hmem : m ∈ w.attempts m.attemptId) (hterminal : m.status.isTerminal = true) :
    Ending manifest Q (.error (.ended m)) w :=
  ⟨hm, fun _ h ↦ Interrupted.ended.inj h ▸ ⟨hmem, hterminal⟩⟩

/-- Awaiting an operation: the manifest of the moment still follows. -/
theorem safe_during {R : A → World → Prop} {prog : Runtime A} {hasWorkspace : Bool}
    (hm : manifest.Follows m s)
    (h : (conductorProtocol {}).Safe self.process self.thread (Returns R) prog s) :
    (conductorProtocol L).Safe self.process self.thread
      (Ending manifest fun a w ↦ R a w ∧ manifest.Follows m w) (during m hasWorkspace prog) s := by
  refine Safe.mapError (AttemptManifest.Follows.steady.safe h hm) (fun a w hr ↦ ?_)
    fun e w hr ↦ ?_
  · exact ⟨hr.1 a rfl, hr.2⟩
  · exact Ending.failed hr.2

/-- Awaiting an operation whose result does not matter. -/
theorem keeps_during {prog : Runtime A} {hasWorkspace : Bool} (hm : manifest.Follows m s)
    (h : (conductorProtocol {}).Keeps self.process self.thread prog) :
    (conductorProtocol L).Safe self.process self.thread
      (Ending manifest fun _ w ↦ manifest.Follows m w) (during m hasWorkspace prog) s :=
  (safe_during hm (h.returns s)).mono fun _ _ ↦ Ending.mono fun _ _ hw ↦ hw.2

/-- Awaiting an operation that takes the manifest of the moment to another. -/
theorem safe_during_follows {f : A → AttemptManifest} {prog : Runtime A} {hasWorkspace : Bool}
    (hm : manifest.Follows m s)
    (h : (conductorProtocol {}).Safe self.process self.thread
      (Returns fun a w ↦ m.Follows (f a) w) prog s) :
    (conductorProtocol L).Safe self.process self.thread
      (Ending manifest fun a w ↦ manifest.Follows (f a) w) (during m hasWorkspace prog) s :=
  (safe_during hm h).mono fun _ _ ↦ Ending.mono fun _ _ hw ↦ hw.2.trans hw.1

/-- A stage given the manifest another stage ended with. -/
theorem safe_stage_from {Q : A → World → Prop} {prog : Execution A} (hm : manifest.Follows m s)
    (h : (conductorProtocol L).Safe self.process self.thread (Ending m Q) prog s) :
    (conductorProtocol L).Safe self.process self.thread
      (Ending manifest fun a w ↦ Q a w ∧ manifest.Follows m w) prog s := by
  refine (h.stable (J := manifest.Follows m) (fun _ _ hr hw ↦ AttemptManifest.Follows.rely hr hw)
    (fun n w w' hg hw ↦ AttemptManifest.Follows.guar hg.1 hw) hm).mono fun r w hr ↦ ?_
  cases r with
  | ok a => exact hr
  | error e => exact ⟨hr.2.trans hr.1.1, hr.1.2⟩

/-- A stage that takes the manifest it was given to another. -/
theorem safe_stage_follows {f : A → AttemptManifest} {prog : Execution A}
    (hm : manifest.Follows m s)
    (h : (conductorProtocol L).Safe self.process self.thread
      (Ending m fun a w ↦ m.Follows (f a) w) prog s) :
    (conductorProtocol L).Safe self.process self.thread
      (Ending manifest fun a w ↦ manifest.Follows (f a) w) prog s :=
  (safe_stage_from hm h).mono fun _ _ ↦ Ending.mono fun _ _ hr ↦ hr.2.trans hr.1

/-- A steady fact is carried through a stage. -/
theorem safe_stage_keeping {J : World → Prop} (hJ : Steady self.process self.thread J)
    {Q : A → World → Prop} {prog : Execution A}
    (h : (conductorProtocol {}).Safe self.process self.thread (Ending manifest Q) prog s)
    (hs : J s) :
    (conductorProtocol L).Safe self.process self.thread
      (Ending manifest fun a w ↦ Q a w ∧ J w) prog s :=
  (hJ.safe h hs).mono fun r _ hr ↦ by
    cases r with
    | ok a => exact hr
    | error e => exact hr.1

end Ending

/-! ### Commands -/

section Commands

variable {contract : JobContract} {manifest m : AttemptManifest} {operationId : String}
  {command : CommandRun}

theorem safe_registerExternalResource {resource : ExternalResource} {maximum : ℕ} :
    (conductorProtocol {}).Safe self.process self.thread (Returns manifest.Follows)
      (registerExternalResource self manifest resource maximum) s :=
  .ite (fun _ ↦ returns_error) fun _ ↦ Keeps.seq keeps_registerCleanupRequirement fun _ _ ↦
    (safe_update ⟨rfl, rfl, rfl, by simp⟩).weaken fun _ _ h ↦ h.follows

theorem safe_onGuardianReady {guardian : Option ProcessGuardianIdentity} {hasWorkspace : Bool}
    (hm : manifest.Follows m s) :
    (conductorProtocol L).Safe self.process self.thread (Ending manifest manifest.Follows)
      (onGuardianReady self m hasWorkspace operationId guardian) s := by
  cases guardian with
  | none => exact hm
  | some identity =>
    refine safe_stage (keeps_during hm keeps_registerProcessCleanup) fun _ s₁ h₁ ↦ ?_
    exact safe_during_follows h₁ ((safe_update ⟨rfl, rfl, rfl, by simp⟩).weaken fun _ _ h ↦ h.follows)

theorem safe_onExternalResource :
    (conductorProtocol {}).Safe self.process self.thread (Returns manifest.Follows)
      (onExternalResource self contract manifest command) s := by
  unfold onExternalResource
  cases contract.boundary with
  | hostWorktree => exact (keeps_ofResult _).seq fun _ s₁ ↦ returns_ok.2 (.refl _ _)
  | externalSandbox => exact (keeps_ofResult _).seq fun _ s₁ ↦ safe_registerExternalResource

theorem safe_onExternalResourceReleased :
    (conductorProtocol {}).Safe self.process self.thread (Returns manifest.Follows)
      (onExternalResourceReleased self contract manifest command) s := by
  unfold onExternalResourceReleased
  cases contract.boundary with
  | hostWorktree => exact returns_ok.2 (.refl _ _)
  | externalSandbox =>
    cases command.cleanup with
    | none => exact returns_error
    | some cleanup => exact (keeps_ofResult _).seq fun _ s₁ ↦ safe_releaseExternalResource

theorem safe_executeProcess :
    (conductorProtocol {}).Safe self.process self.thread
      (Ending manifest fun outcome w ↦ manifest.Follows outcome.2.2 w)
      (executeProcess self contract manifest operationId command) s := by
  refine safe_stage (safe_onGuardianReady (.refl _ _)) fun m s₁ h₁ ↦ ?_
  refine safe_stage (keeps_during h₁ (keeps_ofResult _)) fun process s₂ h₂ ↦ ?_
  refine safe_stage (keeps_during h₂ keeps_recordProcessCleanup) fun _ s₃ h₃ ↦ ?_
  refine safe_stage (keeps_during h₃ (keeps_ofResult _)) fun _ s₄ h₄ ↦ ?_
  refine safe_stage (safe_during_follows (f := id) h₄ safe_onExternalResourceReleased)
    fun m' s₅ h₅ ↦ ?_
  exact h₅

theorem safe_executeCommand :
    (conductorProtocol {}).Safe self.process self.thread
      (Returns fun outcome w ↦ manifest.Follows outcome.2.2 w)
      (executeCommand self contract manifest operationId command) s := by
  refine .ite (fun _ ↦ returns_ok.2 (.refl _ _)) fun _ ↦ ?_
  refine Safe.attempt_seq safe_onExternalResource (fun m s₁ h₁ ↦ ?_) fun e s₁ ↦
    returns_ok.2 (.refl _ _)
  have haborted : (conductorProtocol {}).Keeps self.process self.thread
      (signalAborted self m.attemptId) := keeps_read conductorProtocol_refl
  refine (AttemptManifest.Follows.steady.returns (haborted.returns s₁) h₁).seq
    fun aborted s₂ ⟨_, h₂⟩ ↦ .ite (fun _ ↦ returns_ok.2 h₂) fun _ ↦ ?_
  refine (AttemptManifest.Follows.steady.safe safe_executeProcess h₂).attempt_bind
    fun r s₃ ⟨hr, h₃⟩ ↦ ?_
  cases r with
  | ok outcome => exact returns_ok.2 (h₃.trans hr)
  | error e => exact returns_ok.2 (h₃.trans hr.1)

theorem safe_runCommandSequence {phase : CommandPhase} (index remaining : ℕ) :
    (conductorProtocol {}).Safe self.process self.thread
      (Ending manifest fun outcome w ↦ manifest.Follows outcome.2 w)
      (runCommandSequence self contract phase index remaining manifest) s := by
  induction remaining generalizing index manifest s with
  | zero => exact AttemptManifest.Follows.refl _ _
  | succ remaining ih =>
    rw [runCommandSequence]
    refine safe_stage (keeps_during (.refl _ _) keeps_askOutside) fun command s₁ h₁ ↦ ?_
    refine safe_stage (safe_during_follows (f := fun outcome ↦ outcome.2.2) h₁ safe_executeCommand)
      fun outcome s₂ h₂ ↦ ?_
    obtain ⟨status, process, m⟩ := outcome
    dsimp only
    split
    · exact Ending.failed h₂
    · refine .ite (fun _ ↦ h₂) fun _ ↦ ?_
      exact safe_stage (safe_stage_follows (f := Prod.snd) h₂ (ih _)) fun outcome s₃ h₃ ↦ h₃

end Commands

/-! ### The stages -/

section Stages

variable {A : Type} {contract : JobContract} {manifest m : AttemptManifest} {operation : Uuid}
  {Q : A → World → Prop}

theorem plain_endingPatch {status : AttemptStatus} {now : Timestamp}
    {failure : Option AttemptFailure} {verificationStatus : VerificationStatus}
    {process : Option (Option ProcessResult)} (h : status ≠ .claimed) :
    Plain manifest (endingPatch status now failure verificationStatus process) :=
  ⟨rfl, rfl, rfl, fun heq ↦ h (Option.some.inj heq)⟩

/-- `endAttempt` leaves the `try` block. -/
theorem safe_endAttempt {patch : Timestamp → AttemptPatch} (hm : manifest.Follows m s)
    (hplain : ∀ now, Plain m (patch now))
    (hterminal : ∀ now, (m.merge (patch now)).status.isTerminal = true) :
    (conductorProtocol L).Safe self.process self.thread (Ending manifest Q)
      (endAttempt self m patch) s := by
  refine safe_stage (keeps_during hm keeps_currentDate) fun now s₁ h₁ ↦ ?_
  refine safe_stage (safe_during h₁ (safe_update (hplain now))) fun m' s₂ ⟨h₂, hm₂⟩ ↦ ?_
  exact Ending.ended (hm₂.trans h₂.follows) h₂.journaled (by rw [h₂.eq]; exact hterminal now)

/-- The execution has taken its attempt from claimed to preparing. -/
theorem steady_prepared {p t : ℕ} {id : AttemptId} :
    Steady p t fun w ↦ w.preparedBy id = some t where
  rely _ _ h hw := h.prepared id t hw
  guar _ w w' h hw := by
    rcases h.prepared id with heq | ⟨-, heq⟩
    · rw [heq, hw]
    · exact heq

/-- The execution has not started a worker. -/
theorem steady_unstarted {p t : ℕ} : Steady p t fun w ↦ ∀ l ∈ w.workerStarts, l.thread ≠ t where
  rely w w' h hw l hl hlt := hw l (h.startedBySelf l hl hlt) hlt
  guar _ w w' h hw := by
    rcases h.starts with heq | ⟨hL, -⟩
    · rwa [heq]
    · exact False.elim hL

/-- Whoever gets past the first update has prepared the attempt. -/
theorem safe_prepareWorkspace (hclaimed : manifest.status = .claimed) :
    (conductorProtocol {}).Safe self.process self.thread
      (Ending manifest fun m w ↦ manifest.Follows m w ∧
        w.preparedBy manifest.attemptId = some self.thread)
      (prepareWorkspace self contract manifest) s := by
  refine safe_stage (safe_during (.refl _ _) (safe_update ⟨rfl, rfl, rfl, by simp⟩))
    fun m s₁ ⟨h₁, _⟩ ↦ ?_
  have hprepared : s₁.preparedBy manifest.attemptId = some self.thread := by
    rw [← h₁.follows.attemptId]
    exact h₁.prepared hclaimed (by rw [h₁.eq]; rfl)
  have hrest (s : World) (hs : manifest.Follows m s) :
      (conductorProtocol {}).Safe self.process self.thread (Ending manifest manifest.Follows)
        (do
          let workspace ← during m false (askOutside fun o ↦ o.createWorkspace m.attemptId)
          during m true (askOutside fun o ↦ o.budget m.attemptId)
          let now ← during m true currentDate
          let m' ← during m true (update self m
            { workspace := some (some { workspace with retained := true })
              startedAt := some (some now)
              verificationStatus := some .running })
          during m' true (askOutside fun o ↦ o.writeVerification m'.attemptId)
          return m' : Execution AttemptManifest) s := by
    refine safe_stage (keeps_during hs keeps_askOutside) fun workspace s₂ h₂ ↦ ?_
    refine safe_stage (keeps_during h₂ keeps_askOutside) fun _ s₃ h₃ ↦ ?_
    refine safe_stage (keeps_during h₃ keeps_currentDate) fun now s₄ h₄ ↦ ?_
    refine safe_stage (safe_during_follows (f := id) h₄
      ((safe_update ⟨rfl, rfl, rfl, by simp⟩).weaken fun _ _ h ↦ h.follows)) fun m' s₅ h₅ ↦ ?_
    exact safe_stage (keeps_during h₅ keeps_askOutside) fun _ s₆ h₆ ↦ h₆
  refine safe_stage_keeping steady_prepared ?_ hprepared
  refine .ite (fun _ ↦ ?_) fun _ ↦ hrest s₁ h₁.follows
  exact safe_stage (keeps_during h₁.follows keeps_registerCleanupRequirement) fun _ s₂ h₂ ↦
    hrest s₂ h₂

theorem safe_composeLineage :
    (conductorProtocol {}).Safe self.process self.thread (Ending manifest manifest.Follows)
      (composeLineage self contract manifest) s := by
  unfold composeLineage
  cases hlineage : manifest.lineage with
  | none => exact AttemptManifest.Follows.refl _ _
  | some lineage =>
    have hparents {patch : AttemptPatch} {l : ProposalLineage} (hl : patch.lineage = some (some l))
        (h : l.directParentAttemptIds = lineage.directParentAttemptIds) :
        (manifest.merge patch).parents = manifest.parents := by
      simp [AttemptManifest.parents, AttemptManifest.merge, hl, hlineage, h]
    have hcompose : (conductorProtocol {}).Safe self.process self.thread (Returns manifest.Follows)
        (do
          validateProposalLineage contract lineage
          let workspace ← askOutside fun o ↦ o.composeBaseline manifest.attemptId
          let now ← currentDate
          update self manifest
            { workspace := some (some { workspace with retained := true })
              lineage := some (some
                { lineage with
                  status := .composed, derivedRevision := some workspace.baseRevision
                  composedAt := some now, failure := none }) } : Runtime AttemptManifest) s :=
      Keeps.seq keeps_validateProposalLineage fun _ _ ↦ Keeps.seq keeps_askOutside fun _ _ ↦
        Keeps.seq keeps_currentDate fun _ _ ↦
          (safe_update ⟨rfl, rfl, hparents (by rfl) (by rfl), by simp⟩).weaken fun _ _ h ↦ h.follows
    refine hcompose.attempt_bind fun r s₁ hr ↦ ?_
    cases r with
    | ok m => exact hr m rfl
    | error e =>
      refine safe_stage (keeps_during (.refl _ _) keeps_askOutside) fun _ s₂ h₂ ↦ ?_
      exact safe_endAttempt h₂ (fun _ ↦ ⟨rfl, rfl, hparents (by rfl) (by rfl), by simp [endingPatch]⟩) fun _ ↦ rfl

theorem safe_runSetup :
    (conductorProtocol {}).Safe self.process self.thread (Ending manifest manifest.Follows)
      (runSetup self contract manifest) s := by
  refine .ite (fun _ ↦ AttemptManifest.Follows.refl _ _) fun _ ↦ ?_
  refine safe_stage (safe_runCommandSequence _ _) fun outcome s₁ h₁ ↦ ?_
  obtain ⟨commands, m⟩ := outcome
  refine safe_stage (keeps_during h₁ keeps_askOutside) fun _ s₂ h₂ ↦ ?_
  refine safe_stage (keeps_during h₂ keeps_askOutside) fun clean s₃ h₃ ↦ ?_
  refine safe_stage (keeps_during h₃ keeps_askOutside) fun _ s₄ h₄ ↦ .ite (fun _ ↦ h₄) fun _ ↦ ?_
  refine safe_stage (keeps_during h₄ keeps_askOutside) fun _ s₅ h₅ ↦ ?_
  refine safe_stage (keeps_during h₅ keeps_askOutside) fun late s₆ h₆ ↦ ?_
  refine safe_endAttempt h₆ (fun _ ↦ plain_endingPatch ?_) fun now ↦ ?_
  · split_ifs <;> decide
  · show (if _ then AttemptStatus.cancelled else .failed).isTerminal = true
    split_ifs <;> rfl

/-- What an execution has to show before it starts a worker. -/
structure MayStart (process thread : ℕ) (operation : Uuid) (m : AttemptManifest) (w : World) :
    Prop where
  journaled : m ∈ w.attempts m.attemptId
  status : m.status ≠ .reserved
  owner : m.launchOwner.map LaunchOwner.instanceId = some process
  operation : m.dispatchOperationId = some operation
  prepared : w.preparedBy m.attemptId = some thread
  unstarted : ∀ l ∈ w.workerStarts, l.thread ≠ thread

theorem MayStart.steady :
    Steady self.process self.thread (MayStart self.process self.thread operation m) where
  rely w w' h hw :=
    { hw with
      journaled := h.mem hw.journaled
      prepared := steady_prepared.rely w w' h hw.prepared
      unstarted := steady_unstarted.rely w w' h hw.unstarted }
  guar n w w' h hw :=
    { hw with
      journaled := h.mem hw.journaled
      prepared := steady_prepared.guar n w w' h hw.prepared
      unstarted := steady_unstarted.guar n w w' h hw.unstarted }

/-- **The start of a worker**: the first one of its attempt, and by the launch identity. -/
theorem safe_startWorker (hm : manifest.Follows m s)
    (hs : MayStart self.process self.thread operation m s) :
    (conductorProtocol { starts := True }).Safe self.process self.thread
      (Ending manifest fun _ w ↦ manifest.Follows m w)
      (during m true (.atomic (.startWorker m.attemptId) fun w ↦
        (.ok (w.outside.worker m.attemptId), w.startWorker self.process self.thread m.attemptId
          operation))) s := by
  intro w n ht hinv hrely _ _
  have hw := MayStart.steady.rely s w hrely hs
  refine ⟨hinv.startWorker ht hw.journaled hw.status hw.owner hw.operation hw.prepared
    hw.unstarted, ⟨.startWorker trivial, .startWorker⟩, fun i k hk ↦ absurd hk (by simp), ?_⟩
  show manifest.Follows m (w.startWorker self.process self.thread m.attemptId operation)
  have hfollows := AttemptManifest.Follows.steady.rely s w hrely hm
  exact { hfollows with }

theorem safe_runWorker (hs : MayStart self.process self.thread operation manifest s) :
    (conductorProtocol { starts := True }).Safe self.process self.thread
      (Ending manifest fun outcome w ↦ manifest.Follows outcome.2 w)
      (runWorker self manifest operation) s := by
  refine safe_stage (safe_stage_keeping MayStart.steady
    (keeps_during (.refl _ _) keeps_askOutside) hs) fun _ s₁ ⟨h₁, hs₁⟩ ↦ ?_
  refine safe_stage (safe_startWorker h₁ hs₁) fun run s₂ h₂ ↦ ?_
  refine safe_stage (safe_onGuardianReady h₂) fun m s₃ h₃ ↦ ?_
  have hrest (m' : AttemptManifest) (s : World) (h : manifest.Follows m' s) :
      (conductorProtocol { starts := True }).Safe self.process self.thread
        (Ending manifest fun outcome w ↦ manifest.Follows outcome.2 w)
        (do
          let process ← during m' true (Prog.ofResult run.result)
          return (process, m') : Execution (ProcessResult × AttemptManifest)) s :=
    safe_stage (keeps_during h (keeps_ofResult _)) fun _ _ h' ↦ h'
  dsimp only
  split
  · exact safe_stage (safe_during_follows (f := id) h₃
      ((safe_update ⟨rfl, rfl, rfl, by simp⟩).weaken fun _ _ h ↦ h.follows)) fun m' s₄ h₄ ↦ hrest m' s₄ h₄
  · exact hrest m s₃ h₃

theorem safe_captureWorkerProposal {process : ProcessResult} :
    (conductorProtocol {}).Safe self.process self.thread
      (Ending manifest fun _ _ ↦ True) (captureWorkerProposal self manifest process) s := by
  have hcapture : (conductorProtocol {}).Keeps self.process self.thread
      (do
        let inScope ← askOutside fun o ↦ o.captureProposal manifest.attemptId
        askOutside fun o ↦ o.budget manifest.attemptId
        return inScope : Runtime Bool) := by
    refine Keeps.bind keeps_askOutside fun _ ↦ ?_
    exact Keeps.bind keeps_askOutside fun _ ↦ keeps_ret _
  refine (hcapture s).attempt_bind fun captured s₁ _ ↦ ?_
  cases captured with
  | ok inScope => exact trivial
  | error error =>
    refine Safe.attempt_bind (R := fun _ _ ↦ True) (keeps_askOutside s₁) fun budget s₂ _ ↦ ?_
    refine safe_stage (keeps_during (.refl _ _) keeps_askOutside) fun _ s₃ h₃ ↦ ?_
    exact safe_endAttempt h₃ (fun _ ↦ plain_endingPatch (by decide)) fun _ ↦ rfl

/-- A committed ending. -/
def Ended (manifest m : AttemptManifest) (w : World) : Prop :=
  manifest.Follows m w ∧ m ∈ w.attempts m.attemptId ∧ m.status.isTerminal = true

theorem Ended.steady : Steady self.process self.thread (Ended manifest m) where
  rely w w' h hw := ⟨AttemptManifest.Follows.steady.rely w w' h hw.1, h.mem hw.2.1, hw.2.2⟩
  guar n w w' h hw := ⟨AttemptManifest.Follows.steady.guar n w w' h hw.1, h.mem hw.2.1, hw.2.2⟩

/-- An update with an ending patch. -/
theorem safe_updateEnding {patch : AttemptPatch} (hplain : Plain manifest patch)
    (hterminal : (manifest.merge patch).status.isTerminal = true) :
    (conductorProtocol {}).Safe self.process self.thread (Returns (Ended manifest))
      (update self manifest patch) s :=
  (safe_update hplain).weaken fun _ _ h ↦ ⟨h.follows, h.journaled, h.eq ▸ hterminal⟩

theorem safe_endWorker {process : ProcessResult} :
    (conductorProtocol {}).Safe self.process self.thread (Ending manifest (Ended manifest))
      (endWorker self manifest process) s := by
  refine safe_stage (keeps_during (.refl _ _) keeps_askOutside) fun _ s₁ h₁ ↦ ?_
  refine safe_stage (keeps_during h₁ keeps_askOutside) fun answer s₂ h₂ ↦ ?_
  obtain ⟨now, late⟩ := answer
  refine (safe_during h₂ (safe_updateEnding ?_ ?_)).mono fun _ _ ↦ Ending.mono fun m w h ↦ h.1
  · split_ifs <;> exact plain_endingPatch (by decide)
  · split_ifs <;> rfl

theorem safe_runAcceptance {inScope profileComplete : Bool} :
    (conductorProtocol {}).Safe self.process self.thread
      (Ending manifest fun outcome w ↦ manifest.Follows outcome.2.2 w)
      (runAcceptance self contract manifest inScope profileComplete) s := by
  refine .ite (fun _ ↦ AttemptManifest.Follows.refl _ _) fun _ ↦
    .ite (fun _ ↦ AttemptManifest.Follows.refl _ _) fun _ ↦ ?_
  refine safe_stage (safe_runCommandSequence _ _) fun outcome s₁ h₁ ↦ ?_
  obtain ⟨commands, m⟩ := outcome
  refine safe_stage (keeps_during h₁ keeps_askOutside) fun _ s₂ h₂ ↦ ?_
  refine safe_stage (keeps_during h₂ keeps_askOutside) fun _ s₃ h₃ ↦ ?_
  exact safe_stage (keeps_during h₃ keeps_askOutside) fun _ s₄ h₄ ↦ h₄

theorem safe_verifyProposal {process : ProcessResult} {inScope profileComplete : Bool} :
    (conductorProtocol {}).Safe self.process self.thread (Ending manifest (Ended manifest))
      (verifyProposal self contract manifest process inScope profileComplete) s := by
  refine safe_stage (safe_during_follows (f := id) (.refl _ _)
    ((safe_update ⟨rfl, rfl, rfl, by simp⟩).weaken fun _ _ h ↦ h.follows)) fun m s₁ h₁ ↦ ?_
  refine safe_stage (safe_stage_follows (f := fun outcome ↦ outcome.2.2) h₁ safe_runAcceptance)
    fun outcome s₂ h₂ ↦ ?_
  obtain ⟨acceptance, eligible, m'⟩ := outcome
  refine safe_stage (keeps_during h₂ keeps_askOutside) fun _ s₃ h₃ ↦ ?_
  refine safe_stage (keeps_during h₃ keeps_askOutside) fun answer s₄ h₄ ↦ ?_
  obtain ⟨now, late⟩ := answer
  refine (safe_during h₄ (safe_updateEnding (plain_endingPatch ?_) ?_)).mono fun _ _ ↦
    Ending.mono fun m w h ↦ ⟨h.2.trans h.1.1, h.1.2⟩
  · split_ifs <;> decide
  · show (if _ then AttemptStatus.failed else if _ then .cancelled else .completed).isTerminal = true
    split_ifs <;> rfl

/-- From the start of the worker to the end of the `try` block. -/
theorem safe_executeWorker {profileComplete : Bool}
    (hs : MayStart self.process self.thread operation manifest s) :
    (conductorProtocol { starts := True }).Safe self.process self.thread
      (Ending manifest (Ended manifest))
      (executeWorker self contract manifest operation profileComplete) s := by
  refine safe_stage (safe_runWorker hs) fun outcome s₁ h₁ ↦ ?_
  obtain ⟨process, m⟩ := outcome
  refine safe_stage (keeps_during h₁ keeps_askOutside) fun _ s₂ h₂ ↦ ?_
  refine safe_stage (keeps_during h₂ keeps_recordProcessCleanup) fun _ s₃ h₃ ↦ ?_
  refine safe_stage (keeps_during h₃ (keeps_ofResult _)) fun _ s₄ h₄ ↦ ?_
  split
  · exact Ending.failed h₄
  · refine safe_stage ((safe_stage_from h₄ (Safe.license (License.includes_none _)
      safe_captureWorkerProposal)).mono fun _ _ ↦ Ending.mono fun _ _ h ↦ h.2)
      fun inScope s₅ h₅ ↦ ?_
    have hended (prog : Execution AttemptManifest)
        (hprog : (conductorProtocol {}).Safe self.process self.thread (Ending m (Ended m)) prog s₅) :
        (conductorProtocol { starts := True }).Safe self.process self.thread
          (Ending manifest (Ended manifest)) prog s₅ :=
      (safe_stage_from h₅ (Safe.license (License.includes_none _) hprog)).mono fun _ _ ↦
        Ending.mono fun _ _ h ↦ ⟨h.2.trans h.1.1, h.1.2⟩
    exact .ite (fun _ ↦ hended _ safe_endWorker) fun _ ↦ hended _ safe_verifyProposal

/-- The `try` block of an execution that was launched for `manifest`. -/
theorem safe_executeStages (hpre : ExecutionPre self.process self.thread manifest operation s) :
    (conductorProtocol { starts := True }).Safe self.process self.thread
      (Ending manifest (Ended manifest)) (executeStages self contract manifest operation) s := by
  -- what is known before the worker starts: of the claim, and from the first update on
  have hmay {m : AttemptManifest} {w : World} (hm : manifest.Follows m w)
      (hmem : manifest ∈ w.attempts manifest.attemptId)
      (hunstarted : ∀ l ∈ w.workerStarts, l.thread ≠ self.thread)
      (hprepared : w.preparedBy manifest.attemptId = some self.thread) :
      MayStart self.process self.thread operation m w := by
    refine ⟨hm.mem hmem, fun h ↦ ?_, hm.launchOwner ▸ hpre.owner,
      hm.dispatchOperationId ▸ hpre.operation, hm.attemptId ▸ hprepared, hunstarted⟩
    have hrank := hm.rank
    rw [h, hpre.claimed] at hrank
    exact absurd hrank (by decide)
  have hquiet : Steady self.process self.thread fun w ↦
      manifest ∈ w.attempts manifest.attemptId ∧ ∀ l ∈ w.workerStarts, l.thread ≠ self.thread :=
    steady_mem.and steady_unstarted
  refine safe_stage (safe_stage_keeping hquiet (safe_prepareWorkspace hpre.claimed)
    ⟨hpre.journaled, hpre.unstarted⟩) fun m₁ s₁ ⟨⟨h₁, hprepared⟩, hJ₁⟩ ↦ ?_
  have hJ : Steady self.process self.thread fun w ↦ (manifest ∈ w.attempts manifest.attemptId ∧
      ∀ l ∈ w.workerStarts, l.thread ≠ self.thread) ∧
      w.preparedBy manifest.attemptId = some self.thread :=
    hquiet.and steady_prepared
  refine safe_stage (safe_stage_keeping hJ (safe_stage_follows (f := id) h₁ safe_composeLineage)
    ⟨hJ₁, hprepared⟩) fun m₂ s₂ ⟨h₂, hJ₂⟩ ↦ ?_
  refine safe_stage (safe_stage_keeping hJ (safe_stage_follows (f := id) h₂ safe_runSetup) hJ₂)
    fun m₃ s₃ ⟨h₃, hJ₃⟩ ↦ ?_
  refine safe_stage (safe_stage_keeping hJ (keeps_during h₃ keeps_askOutside) hJ₃)
    fun profileComplete s₄ ⟨h₄, hJ₄⟩ ↦ ?_
  refine safe_stage (safe_stage_keeping hJ (safe_during_follows (f := id) h₄
    ((safe_update ⟨rfl, rfl, rfl, by simp⟩).weaken fun _ _ h ↦ h.follows)) hJ₄)
    fun m₅ s₅ ⟨h₅, hJ₅⟩ ↦ ?_
  have hworker (w : World) (h : manifest.Follows m₅ w)
      (hw : (manifest ∈ w.attempts manifest.attemptId ∧
        ∀ l ∈ w.workerStarts, l.thread ≠ self.thread) ∧
        w.preparedBy manifest.attemptId = some self.thread) :
      (conductorProtocol { starts := True }).Safe self.process self.thread
        (Ending manifest (Ended manifest))
        (executeWorker self contract m₅ operation profileComplete) w :=
    (safe_stage_from h (safe_executeWorker (hmay h hw.1.1 hw.1.2 hw.2))).mono fun _ _ ↦
      Ending.mono fun _ _ h ↦ ⟨h.2.trans h.1.1, h.1.2⟩
  refine .ite (fun _ ↦ ?_) fun _ ↦ hworker s₅ h₅ hJ₅
  exact safe_stage (safe_stage_keeping hJ (keeps_during h₅ keeps_askOutside) hJ₅)
    fun _ s₆ ⟨h₆, hJ₆⟩ ↦ hworker s₆ h₆ hJ₆

/-! ### The whole execution -/

/-- The `catch` block ends the attempt unless a stage has. -/
theorem safe_closeInterrupted {interrupted : Interrupted}
    (hs : manifest.Follows interrupted.manifest s ∧ ∀ m, interrupted = .ended m →
      m ∈ s.attempts m.attemptId ∧ m.status.isTerminal = true) :
    (conductorProtocol {}).Safe self.process self.thread (Returns (Ended manifest))
      (closeInterrupted self interrupted) s := by
  cases interrupted with
  | ended m => exact returns_ok.2 ⟨hs.1, hs.2 m rfl⟩
  | failed error m hasWorkspace =>
    have hread : (conductorProtocol {}).Keeps self.process self.thread
        (Prog.read .memory fun w ↦ .ok
          ((w.conductor self.process).activeAttempts m.attemptId = some true &&
            !w.outside.deadlinePassed m.attemptId, w.outside.now) :
          Runtime (Bool × Timestamp)) := keeps_read conductorProtocol_refl
    refine (AttemptManifest.Follows.steady.returns (hread.returns s) hs.1).seq
      fun answer s₁ ⟨_, h₁⟩ ↦ ?_
    obtain ⟨cancelled, now⟩ := answer
    have hstatus : ((if cancelled then .cancelled else .failed : AttemptStatus)) ≠ .claimed := by
      split_ifs <;> decide
    refine (AttemptManifest.Follows.steady.returns
      (safe_updateEnding (plain_endingPatch hstatus) ?_) h₁).weaken
        fun m' w ⟨h, hf⟩ ↦ ⟨hf.trans h.1, h.2⟩
    show (if cancelled then AttemptStatus.cancelled else .failed).isTerminal = true
    split_ifs <;> rfl

theorem keeps_recordWorkspaceFailure {error : RuntimeError} :
    (conductorProtocol {}).Keeps self.process self.thread (recordWorkspaceFailure manifest error) :=
  Keeps.bind keeps_appendCleanupEvidence fun _ ↦ keeps_ret _

/-- The `finally` block keeps a manifest that has ended. -/
theorem safe_removeOwnWorkspace :
    (conductorProtocol {}).Safe self.process self.thread (Returns manifest.Follows)
      (removeOwnWorkspace self manifest) s := by
  refine Safe.attempt_seq safe_cleanupExternalResources (fun outcome s₁ h₁ ↦ ?_) fun e s₁ ↦ ?_
  · obtain ⟨m, safe⟩ := outcome
    have hremove : (conductorProtocol {}).Keeps self.process self.thread
        (do
          if !safe then
            throw (.plain "External resource cleanup failed; its worktree must remain available")
          assertWorkspaceRemovalSafe m
          askOutside fun o ↦ o.removeWorkspace m.attemptId
          let _ ← appendCleanupEvidence m worktree .proven .workspaceRemove
            (some "Recorded attempt worktree removed")
          return () : Runtime Unit) := by
      refine Keeps.ite (keeps_ret _) ?_
      exact Keeps.bind keeps_assertWorkspaceRemovalSafe fun _ ↦ Keeps.bind keeps_askOutside fun _ ↦
        Keeps.bind keeps_appendCleanupEvidence fun _ ↦ keeps_ret _
    refine (AttemptManifest.Follows.steady.returns (hremove.attempt.returns s₁) h₁).seq
      fun removed s₂ ⟨_, h₂⟩ ↦ ?_
    cases removed with
    | ok _ => exact returns_ok.2 h₂
    | error error =>
      exact (AttemptManifest.Follows.steady.returns
        (Keeps.returns keeps_recordWorkspaceFailure s₂) h₂).seq fun _ s₃ ⟨_, h₃⟩ ↦ returns_ok.2 h₃
  · exact Keeps.seq keeps_recordWorkspaceFailure fun _ s₂ ↦ returns_ok.2 (.refl _ _)

/-- **An execution that returns a manifest has ended its attempt.** -/
theorem safe_executeAttempt (hpre : ExecutionPre self.process self.thread manifest operation s) :
    (conductorProtocol { starts := True }).Safe self.process self.thread
      (Returns (Ended manifest)) (executeAttempt self contract manifest operation) s := by
  have hnone := License.includes_none { starts := True }
  -- the `finally` block, after the attempt was closed
  have hfinally {m : AttemptManifest} {w : World} {c : Bool} (hm : Ended manifest m w) :
      (conductorProtocol { starts := True }).Safe self.process self.thread
        (Returns (Ended manifest))
        (do
          let m ← if c then removeOwnWorkspace self m else pure m
          return m : Runtime AttemptManifest) w := by
    refine .ite (fun _ ↦ ?_) fun _ ↦ returns_ok.2 hm
    refine (Ended.steady.returns safe_removeOwnWorkspace hm).seq fun m' w' ⟨h, hm'⟩ ↦ ?_
    exact returns_ok.2 ⟨hm'.1.trans h, h.mem hm'.2.1, h.isTerminal hm'.2.2⟩
  refine (safe_executeStages hpre).attempt_bind fun ending s₁ h₁ ↦ ?_
  cases ending with
  | ok m => exact hfinally h₁
  | error interrupted =>
    refine Safe.attempt_bind (Safe.license hnone (safe_closeInterrupted h₁)) fun closed s₂ h₂ ↦ ?_
    cases closed with
    | ok m => exact hfinally (returns_ok.1 h₂)
    | error error =>
      refine .ite (fun _ ↦ ?_) fun _ ↦ returns_error
      exact Safe.seq (Safe.license hnone safe_removeOwnWorkspace) fun _ s₃ _ ↦ returns_error

/-- The license of an execution's thread. -/
def executing : License := { starts := True, memory := True }

/-- The thread of an execution: the attempt leaves the maps, then its promise settles. -/
theorem keeps_runExecution (hpre : ExecutionPre self.process self.thread manifest operation s) :
    (conductorProtocol executing).Safe self.process self.thread (fun _ _ ↦ True)
      (runExecution self contract manifest operation) s := by
  have hincludes : executing.Includes { starts := True } :=
    ⟨fun _ h ↦ h, fun _ h ↦ h, fun _ ↦ trivial, fun h ↦ False.elim h⟩
  let J (w : World) : Prop := w.launchedFor self.thread = some manifest.attemptId ∧
    (w.conductor self.process).settled self.thread = none
  have hJrely (w w' : World) (h : AttemptRely self.process self.thread w w') (hw : J w) : J w' :=
    ⟨h.launched _ _ hw.1, h.settledBySelf.trans hw.2⟩
  have hexecute : (conductorProtocol { starts := True }).Safe self.process self.thread
      (fun r w ↦ Returns (Ended manifest) r w ∧ J w)
      (executeAttempt self contract manifest operation) s := (safe_executeAttempt hpre).stable hJrely
    (fun n w w' hg hw ↦ ⟨hg.1.launched _ _ hw.1, by
      rcases hg.1.memory with heq | hL
      · rw [heq, hw.2]
      · exact False.elim hL⟩) ⟨hpre.launched, hpre.unsettled⟩
  refine (Safe.license hincludes hexecute).attempt_bind fun ending s₁ ⟨hending, hJ₁⟩ ↦ ?_
  refine safe_modify_bind fun w₁ n₁ ht hinv hrely _ ↦
    ⟨hinv.leaveMaps, ⟨.leaveMaps trivial, .setConductor⟩, ?_⟩
  have hw₁ : J (w₁.leaveMaps self.process manifest.attemptId) := by
    obtain ⟨hfor, hnone⟩ := hJrely s₁ w₁ hrely hJ₁
    exact ⟨hfor, by simpa [World.leaveMaps] using hnone⟩
  have hended₁ (m : AttemptManifest) (hm : ending = .ok m) :
      Ended manifest m (w₁.leaveMaps self.process manifest.attemptId) := by
    obtain ⟨hf, hmem, hterminal⟩ := Ended.steady.rely s₁ w₁ hrely (hending m hm)
    exact ⟨{ hf with }, hmem, hterminal⟩
  intro w₂ n₂ ht₂ hinv₂ hrely₂ _ _
  have hw₂ := hJrely _ w₂ hrely₂ hw₁
  refine ⟨hinv₂.settleExecution ht₂ fun m hm ↦ ?_, ⟨.settleExecution trivial hw₂.2, .setConductor⟩,
    fun i k hk ↦ absurd hk (by simp), trivial⟩
  obtain ⟨hf, hmem, hterminal⟩ := Ended.steady.rely _ w₂ hrely₂ (hended₁ m hm)
  exact ⟨hf.attemptId.symm ▸ hw₂.1, hmem, hterminal⟩

end Stages

end Conductor

end CodeConductor
