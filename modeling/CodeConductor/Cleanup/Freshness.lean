import Mathlib.Data.List.Induction
import CodeConductor.Cleanup.Calls

/-!
# Which process a cleanup proof is about

A requirement names its subject, and for a process tree the **guardian** of the process that runs
under it. Registering a known subject again replaces the guardian and leaves the evidence as it is,
so the latest observation of the subject may be about a process that was there before.

A cleanup proof is **fresh** when it was appended after the guardian it stands for was attached.
-/

namespace CodeConductor

/-! ### Guardians and their histories -/

/-- The guardian recorded for a subject. -/
def guardianOf (requirements : List CleanupRequirement) (subject : CleanupSubject) :
    Option ProcessGuardianIdentity :=
  (requirements.find? fun requirement ↦ requirement.subject = subject).bind
    CleanupRequirement.guardian

/-- A cleanup record, and how it came about. -/
structure CleanupHistory where
  record : AttemptCleanupRecord
  /-- How much evidence there was when the last new guardian was attached to a subject; `0` if none
  ever was. -/
  attachedAt : CleanupSubject → ℕ

namespace CleanupHistory

/-- The record of an attempt that was just reserved. -/
def initial (attemptId : AttemptId) (createdAt : Timestamp) : CleanupHistory where
  record := createAttemptCleanupRecord attemptId createdAt
  attachedAt _ := 0

/-- One call, which commits at the time given with it. -/
def step (h : CleanupHistory) (call : CleanupCall × Timestamp) : CleanupHistory :=
  let record := h.record.afterCall call.2 call.1
  { record := record
    attachedAt := fun subject ↦
      if guardianOf record.requirements subject = guardianOf h.record.requirements subject then
        h.attachedAt subject
      else h.record.evidence.length }

/-- What a sequence of calls makes of a reserved attempt's record. -/
def after (attemptId : AttemptId) (createdAt : Timestamp) (calls : List (CleanupCall × Timestamp)) :
    CleanupHistory :=
  calls.foldl step (initial attemptId createdAt)

/-- An observation of the subject, and so the latest one, was appended after the last new guardian
was attached to it. -/
def Fresh (h : CleanupHistory) (subject : CleanupSubject) : Prop :=
  ∃ evidence ∈ h.record.evidence.drop (h.attachedAt subject), evidence.subject = subject

/-- What a record promises of its proofs. -/
structure ProofsFresh (h : CleanupHistory) : Prop where
  /-- Behind the derived status `proven` there are fresh observations only. -/
  proven : h.record.status = .proven →
    ∀ requirement ∈ h.record.requirements, h.Fresh requirement.subject
  /-- A proof counts for a process only if it was recorded after the process was registered. -/
  counted : ∀ requirement ∈ h.record.requirements,
    h.record.latestStatus requirement.subject = some .proven → h.Fresh requirement.subject

end CleanupHistory

/-- **Cleanup proofs are fresh** all along a sequence of calls. -/
def CleanupProofsFresh (attemptId : AttemptId) (createdAt : Timestamp)
    (calls : List (CleanupCall × Timestamp)) : Prop :=
  ∀ done, done <+: calls → (CleanupHistory.after attemptId createdAt done).ProofsFresh

/-- The call attaches no new guardian to a subject whose latest evidence is proven. -/
def AttemptCleanupRecord.SparesProof (record : AttemptCleanupRecord) : CleanupCall → Prop
  | .registerRequirement requirement =>
    record.latestStatus requirement.subject = some .proven →
      requirement.guardian = none ∨
        requirement.guardian = guardianOf record.requirements requirement.subject
  | .appendEvidence _ => True

/-! ### Records -/

theorem latestObservation_eq (evidence : List CleanupEvidence) (subject : CleanupSubject) :
    latestObservation evidence subject =
      evidence.reverse.find? fun entry ↦ entry.subject = subject := by
  induction evidence using List.reverseRec with
  | nil => rfl
  | append_singleton evidence entry ih =>
    rw [latestObservation, List.foldl_append, List.reverse_append]
    by_cases h : entry.subject = subject
    · simp [h]
    · simpa [h, latestObservation] using ih

/-- Behind the status `proven` there is a proof for every requirement. -/
theorem latestStatus_of_deriveCleanupStatus {requirements : List CleanupRequirement}
    {evidence : List CleanupEvidence} (h : deriveCleanupStatus requirements evidence = .proven)
    {requirement : CleanupRequirement} (hmem : requirement ∈ requirements) :
    (latestObservation evidence requirement.subject).map CleanupEvidence.status =
      some .proven := by
  set states := requirements.map fun requirement ↦
    (latestObservation evidence requirement.subject).map CleanupEvidence.status with hstates
  have hstate : (latestObservation evidence requirement.subject).map CleanupEvidence.status
      ∈ states := List.mem_map_of_mem hmem
  rw [deriveCleanupStatus, if_neg (List.ne_nil_of_mem hmem)] at h
  change (if states.contains (some .failed) then _ else _) = _ at h
  split_ifs at h with hfailed hunknown hnone
  match hstatus : (latestObservation evidence requirement.subject).map CleanupEvidence.status with
  | some .proven => rfl
  | some .failed => exact absurd (List.contains_iff_mem.2 (hstatus ▸ hstate)) hfailed
  | some .unknown => exact absurd (List.contains_iff_mem.2 (hstatus ▸ hstate)) hunknown
  | none => exact absurd (List.contains_iff_mem.2 (hstatus ▸ hstate)) hnone

theorem AttemptCleanupRecord.exists_of_latestStatus {record : AttemptCleanupRecord}
    {subject : CleanupSubject} {status : EvidenceStatus}
    (h : record.latestStatus subject = some status) :
    ∃ evidence ∈ record.evidence, evidence.subject = subject := by
  obtain ⟨entry, hentry, -⟩ := Option.map_eq_some_iff.1 h
  rw [latestCleanupEvidence] at hentry
  exact ⟨entry, List.mem_reverse.1 (List.mem_of_find?_eq_some hentry),
    of_decide_eq_true (List.find?_some hentry :)⟩

/-! ### Registrations -/

section Registrations

variable {requirements : List CleanupRequirement} {requirement : CleanupRequirement}

/-- What a registration makes of a requirement of the subject that is there already. -/
private def renewed (requirement candidate : CleanupRequirement) : CleanupRequirement :=
  if candidate.subject = requirement.subject then
    { candidate with
      deadlineMs := requirement.deadlineMs
      guardian := requirement.guardian.or candidate.guardian }
  else candidate

private theorem renewed_subject (requirement candidate : CleanupRequirement) :
    (renewed requirement candidate).subject = candidate.subject := by
  unfold renewed
  split <;> rfl

/-- The subjects after a registration. -/
theorem exists_registerRequirement {subject : CleanupSubject} :
    (∃ q ∈ ArtifactStore.registerRequirement requirements requirement, q.subject = subject) ↔
      (∃ q ∈ requirements, q.subject = subject) ∨ requirement.subject = subject := by
  by_cases hknown : (requirements.any fun candidate ↦ candidate.subject = requirement.subject) = true
  · have hregister : ArtifactStore.registerRequirement requirements requirement =
        requirements.map (renewed requirement) := if_pos hknown
    have hsubject : requirement.subject = subject → ∃ q ∈ requirements, q.subject = subject := by
      rintro rfl
      simpa using hknown
    rw [hregister]
    constructor
    · rintro ⟨_, hmem, hqs⟩
      obtain ⟨q, hq, rfl⟩ := List.mem_map.1 hmem
      exact .inl ⟨q, hq, (renewed_subject requirement q).symm.trans hqs⟩
    · intro h
      obtain ⟨q, hq, hqs⟩ := h.elim id hsubject
      exact ⟨_, List.mem_map_of_mem hq, (renewed_subject requirement q).trans hqs⟩
  · have hregister : ArtifactStore.registerRequirement requirements requirement =
        requirements ++ [requirement] := if_neg hknown
    rw [hregister]
    simp [or_and_right, exists_or]

theorem guardianOf_registerRequirement (subject : CleanupSubject) :
    guardianOf (ArtifactStore.registerRequirement requirements requirement) subject =
      if requirement.subject = subject then
        requirement.guardian.or (guardianOf requirements subject)
      else guardianOf requirements subject := by
  by_cases hknown : (requirements.any fun candidate ↦ candidate.subject = requirement.subject) = true
  · have hregister : ArtifactStore.registerRequirement requirements requirement =
        requirements.map (renewed requirement) := if_pos hknown
    have hfind : (requirements.map (renewed requirement)).find? (fun q ↦ q.subject = subject) =
        (requirements.find? fun q ↦ q.subject = subject).map (renewed requirement) := by
      rw [List.find?_map]
      congr 2
      funext q
      exact congrArg (fun x ↦ decide (x = subject)) (renewed_subject requirement q)
    rw [hregister, guardianOf, hfind]
    cases hq : requirements.find? fun q ↦ q.subject = subject with
    | none =>
      have hne : requirement.subject ≠ subject := by
        rintro rfl
        obtain ⟨q, hmem, hqs⟩ := List.any_eq_true.1 hknown
        exact List.find?_eq_none.1 hq q hmem hqs
      simp [guardianOf, hq, hne]
    | some q =>
      have hqs : q.subject = subject := of_decide_eq_true (List.find?_some hq :)
      by_cases hsubject : requirement.subject = subject
      · simp [guardianOf, hq, renewed, hqs, hsubject]
      · simp [guardianOf, hq, renewed, hqs, hsubject, Ne.symm hsubject]
  · have hregister : ArtifactStore.registerRequirement requirements requirement =
        requirements ++ [requirement] := if_neg hknown
    rw [hregister, guardianOf, List.find?_append]
    by_cases hsubject : requirement.subject = subject
    · subst hsubject
      have hnone : requirements.find? (fun q ↦ q.subject = requirement.subject) = none :=
        List.find?_eq_none.2 fun q hq hqs ↦ hknown (List.any_eq_true.2 ⟨q, hq, hqs⟩)
      simp [guardianOf, hnone]
    · simp [guardianOf, hsubject]

end Registrations

namespace AttemptCleanupRecord

variable {record : AttemptCleanupRecord} {now : Timestamp}

theorem registerRequirement_requirements (requirement : CleanupRequirement) :
    (record.registerRequirement requirement now).requirements =
      ArtifactStore.registerRequirement record.requirements requirement := by
  rw [registerRequirement]
  split
  · rename_i hsame
    exact hsame.symm
  · rfl

theorem registerRequirement_evidence (requirement : CleanupRequirement) :
    (record.registerRequirement requirement now).evidence = record.evidence := by
  rw [registerRequirement]
  split <;> rfl

theorem appendEvidence_cases (record : AttemptCleanupRecord) (now : Timestamp)
    (evidence : CleanupEvidence) :
    record.appendEvidence evidence now = record ∨
      (∃ q ∈ record.requirements, q.subject = evidence.subject) ∧
        record.appendEvidence evidence now =
          record.merge { evidence := some (record.evidence ++ [evidence]) } now := by
  rw [appendEvidence]
  split
  · exact .inl rfl
  split
  · exact .inl rfl
  · rename_i hknown _
    exact .inr ⟨by simpa using hknown, rfl⟩

end AttemptCleanupRecord

/-! ### What every history keeps -/

namespace CleanupHistory

/-- What every call keeps of a history. -/
structure WellFormed (h : CleanupHistory) : Prop where
  /-- Evidence is about registered subjects. -/
  known : ∀ evidence ∈ h.record.evidence,
    ∃ requirement ∈ h.record.requirements, requirement.subject = evidence.subject
  attached : ∀ subject, h.attachedAt subject ≤ h.record.evidence.length
  status : h.record.status = deriveCleanupStatus h.record.requirements h.record.evidence

variable {h : CleanupHistory}

theorem wellFormed_initial (attemptId : AttemptId) (createdAt : Timestamp) :
    (initial attemptId createdAt).WellFormed where
  known _ he := nomatch he
  attached _ := Nat.zero_le _
  status := rfl

/-- Appending evidence attaches nothing. -/
theorem step_appendEvidence_attachedAt (h : CleanupHistory) (evidence : CleanupEvidence)
    (now : Timestamp) : (h.step (.appendEvidence evidence, now)).attachedAt = h.attachedAt := by
  have hreqs : (h.record.appendEvidence evidence now).requirements = h.record.requirements := by
    obtain heq | ⟨-, heq⟩ := h.record.appendEvidence_cases now evidence <;> rw [heq]
    rfl
  funext subject
  exact if_pos (congrArg (guardianOf · subject) hreqs)

/-- Registering attaches the new guardian, if there is one, to the subject of the requirement. -/
theorem step_registerRequirement_attachedAt (h : CleanupHistory) (requirement : CleanupRequirement)
    (now : Timestamp) (subject : CleanupSubject) :
    (h.step (.registerRequirement requirement, now)).attachedAt subject =
      if requirement.subject = subject ∧ requirement.guardian ≠ none ∧
          requirement.guardian ≠ guardianOf h.record.requirements subject then
        h.record.evidence.length
      else h.attachedAt subject := by
  have hguardian : guardianOf (h.step (.registerRequirement requirement, now)).record.requirements
      subject = if requirement.subject = subject then
        requirement.guardian.or (guardianOf h.record.requirements subject)
      else guardianOf h.record.requirements subject := by
    rw [← guardianOf_registerRequirement, ← h.record.registerRequirement_requirements]
    rfl
  show (if guardianOf (h.step (.registerRequirement requirement, now)).record.requirements subject
    = guardianOf h.record.requirements subject then _ else _) = _
  rw [hguardian]
  by_cases hsubject : requirement.subject = subject
  · cases hg : requirement.guardian with
    | none => simp [hsubject]
    | some g =>
      by_cases hsame : some g = guardianOf h.record.requirements subject <;>
        simp [hsubject, hsame]
  · simp [hsubject]

theorem WellFormed.step (hwf : h.WellFormed) (call : CleanupCall × Timestamp) :
    (h.step call).WellFormed := by
  obtain ⟨call, now⟩ := call
  cases call with
  | registerRequirement requirement =>
    have hreqs : (h.step (.registerRequirement requirement, now)).record.requirements =
        ArtifactStore.registerRequirement h.record.requirements requirement :=
      h.record.registerRequirement_requirements requirement
    have hevidence : (h.step (.registerRequirement requirement, now)).record.evidence =
        h.record.evidence := h.record.registerRequirement_evidence requirement
    refine ⟨fun evidence he ↦ ?_, fun subject ↦ ?_, ?_⟩
    · rw [hreqs]
      exact exists_registerRequirement.2 (.inl (hwf.known evidence (hevidence ▸ he)))
    · rw [step_registerRequirement_attachedAt, hevidence]
      split
      · exact le_rfl
      · exact hwf.attached subject
    · show (h.record.registerRequirement requirement now).status = _
      rw [hreqs, hevidence, AttemptCleanupRecord.registerRequirement]
      split
      · rename_i hsame
        rw [hwf.status, hsame]
      · rfl
  | appendEvidence evidence =>
    have hattached := h.step_appendEvidence_attachedAt evidence now
    obtain heq | ⟨hknown, heq⟩ := h.record.appendEvidence_cases now evidence
    · have hrecord : (h.step (.appendEvidence evidence, now)).record = h.record := heq
      exact ⟨hrecord ▸ hwf.known, fun subject ↦ hattached ▸ hrecord ▸ hwf.attached subject,
        hrecord ▸ hwf.status⟩
    · have hrecord : (h.step (.appendEvidence evidence, now)).record =
          h.record.merge { evidence := some (h.record.evidence ++ [evidence]) } now := heq
      refine ⟨fun entry he ↦ ?_, fun subject ↦ ?_, ?_⟩
      · rw [hrecord] at he ⊢
        obtain he | he := List.mem_append.1 he
        · exact hwf.known entry he
        · exact List.mem_singleton.1 he ▸ hknown
      · rw [hattached, hrecord]
        have hlength : (h.record.evidence ++ [evidence]).length = h.record.evidence.length + 1 := by
          simp
        exact (hwf.attached subject).trans (hlength ▸ Nat.le_succ _)
      · rw [hrecord]
        rfl

/-- A proof counted under the status `proven`. -/
theorem WellFormed.proofsFresh (hwf : h.WellFormed)
    (hcounted : ∀ requirement ∈ h.record.requirements,
      h.record.latestStatus requirement.subject = some .proven → h.Fresh requirement.subject) :
    h.ProofsFresh where
  counted := hcounted
  proven hstatus requirement hmem := by
    refine hcounted requirement hmem ?_
    have hlatest := latestStatus_of_deriveCleanupStatus (hwf.status ▸ hstatus) hmem
    rwa [latestObservation_eq] at hlatest

/-- A registration that attaches nothing over a proof counts no stale proof. -/
theorem counted_registerRequirement (hwf : h.WellFormed)
    (hcounted : ∀ q ∈ h.record.requirements,
      h.record.latestStatus q.subject = some .proven → h.Fresh q.subject)
    {requirement : CleanupRequirement} {now : Timestamp}
    (hspares : h.record.SparesProof (.registerRequirement requirement)) {subject : CleanupSubject}
    (hproven : (h.step (.registerRequirement requirement, now)).record.latestStatus subject =
      some .proven) :
    (h.step (.registerRequirement requirement, now)).Fresh subject := by
  have hevidence : (h.step (.registerRequirement requirement, now)).record.evidence =
      h.record.evidence := h.record.registerRequirement_evidence requirement
  replace hproven : h.record.latestStatus subject = some .proven := by
    rw [← hproven, AttemptCleanupRecord.latestStatus, AttemptCleanupRecord.latestStatus,
      latestCleanupEvidence, latestCleanupEvidence, hevidence]
  -- a subject with evidence was registered before
  obtain ⟨entry, hentry, hsubject⟩ := AttemptCleanupRecord.exists_of_latestStatus hproven
  obtain ⟨q, hq, hqs⟩ := hwf.known entry hentry
  obtain rfl : q.subject = subject := hqs.trans hsubject
  have hfresh := hcounted q hq hproven
  rw [Fresh, hevidence, step_registerRequirement_attachedAt, if_neg]
  · exact hfresh
  · rintro ⟨hsame, hnone, hnew⟩
    rw [← hsame] at hproven hnew
    exact (hspares hproven).elim hnone hnew

/-- Evidence appended is fresh, and leaves the other subjects as they are. -/
theorem counted_appendEvidence (hwf : h.WellFormed)
    (hcounted : ∀ q ∈ h.record.requirements,
      h.record.latestStatus q.subject = some .proven → h.Fresh q.subject)
    {evidence : CleanupEvidence} {now : Timestamp} {q : CleanupRequirement}
    (hq : q ∈ (h.step (.appendEvidence evidence, now)).record.requirements)
    (hproven : (h.step (.appendEvidence evidence, now)).record.latestStatus q.subject =
      some .proven) :
    (h.step (.appendEvidence evidence, now)).Fresh q.subject := by
  have hattached := h.step_appendEvidence_attachedAt evidence now
  obtain heq | ⟨hknown, heq⟩ := h.record.appendEvidence_cases now evidence
  · have hrecord : (h.step (.appendEvidence evidence, now)).record = h.record := heq
    rw [Fresh, hattached, hrecord]
    rw [hrecord] at hq hproven
    exact hcounted q hq hproven
  · have hrecord : (h.step (.appendEvidence evidence, now)).record =
        h.record.merge { evidence := some (h.record.evidence ++ [evidence]) } now := heq
    rw [hrecord] at hq hproven
    rw [Fresh, hattached, hrecord]
    show ∃ entry ∈ (h.record.evidence ++ [evidence]).drop (h.attachedAt q.subject),
      entry.subject = q.subject
    rw [List.drop_append_of_le_length (hwf.attached q.subject)]
    by_cases hsubject : evidence.subject = q.subject
    · exact ⟨evidence, by simp, hsubject⟩
    · have hlatest : h.record.latestStatus q.subject = some .proven := by
        rw [← hproven]
        show _ = ((h.record.evidence ++ [evidence]).reverse.find?
          fun entry ↦ entry.subject = q.subject).map CleanupEvidence.status
        rw [List.reverse_append, List.reverse_singleton, List.singleton_append,
          List.find?_cons_of_neg (by simpa using hsubject)]
        rfl
      obtain ⟨entry, hentry, hes⟩ := hcounted q hq hlatest
      exact ⟨entry, List.mem_append_left _ hentry, hes⟩

/-- **Step.** A call that spares the proofs keeps them fresh. -/
theorem ProofsFresh.step (hwf : h.WellFormed) (hfresh : h.ProofsFresh)
    {call : CleanupCall × Timestamp} (hspares : h.record.SparesProof call.1) :
    (h.step call).ProofsFresh := by
  refine (hwf.step call).proofsFresh fun q hq hproven ↦ ?_
  obtain ⟨call, now⟩ := call
  cases call with
  | registerRequirement requirement =>
    exact counted_registerRequirement hwf hfresh.counted hspares hproven
  | appendEvidence evidence => exact counted_appendEvidence hwf hfresh.counted hq hproven

/-- A call that attaches a new guardian over a proof leaves that proof counted for it. -/
theorem sparesProof_of_proofsFresh {call : CleanupCall × Timestamp}
    (hfresh : (h.step call).ProofsFresh) : h.record.SparesProof call.1 := by
  obtain ⟨call, now⟩ := call
  cases call with
  | appendEvidence evidence => exact trivial
  | registerRequirement requirement =>
    intro hproven
    by_contra hnew
    rw [not_or] at hnew
    have hevidence : (h.step (.registerRequirement requirement, now)).record.evidence =
        h.record.evidence := h.record.registerRequirement_evidence requirement
    have hreqs : (h.step (.registerRequirement requirement, now)).record.requirements =
        ArtifactStore.registerRequirement h.record.requirements requirement :=
      h.record.registerRequirement_requirements requirement
    obtain ⟨q, hq, hqs⟩ := exists_registerRequirement.2
      (.inr rfl : (∃ q ∈ h.record.requirements, q.subject = requirement.subject) ∨ _)
    rw [← hreqs] at hq
    have hcounted : (h.step (.registerRequirement requirement, now)).record.latestStatus q.subject =
        some .proven := by
      rw [hqs, ← hproven, AttemptCleanupRecord.latestStatus, AttemptCleanupRecord.latestStatus,
        latestCleanupEvidence, latestCleanupEvidence, hevidence]
    obtain ⟨entry, hentry, -⟩ := hfresh.counted q hq hcounted
    rw [hqs, hevidence, step_registerRequirement_attachedAt, if_pos ⟨rfl, hnew⟩,
      List.drop_length] at hentry
    exact nomatch hentry

theorem after_concat (attemptId : AttemptId) (createdAt : Timestamp)
    (calls : List (CleanupCall × Timestamp)) (call : CleanupCall × Timestamp) :
    after attemptId createdAt (calls ++ [call]) = (after attemptId createdAt calls).step call :=
  List.foldl_concat ..

theorem wellFormed_after (attemptId : AttemptId) (createdAt : Timestamp)
    (calls : List (CleanupCall × Timestamp)) : (after attemptId createdAt calls).WellFormed := by
  induction calls using List.reverseRec with
  | nil => exact wellFormed_initial attemptId createdAt
  | append_singleton calls call ih =>
    rw [after_concat]
    exact ih.step call

/-- **Run.** Calls that spare the proofs keep them fresh. -/
theorem proofsFresh_after (attemptId : AttemptId) (createdAt : Timestamp)
    (calls : List (CleanupCall × Timestamp))
    (hspares : ∀ done call, done ++ [call] <+: calls →
      (after attemptId createdAt done).record.SparesProof call.1) :
    (after attemptId createdAt calls).ProofsFresh := by
  induction calls using List.reverseRec with
  | nil =>
    exact (wellFormed_initial attemptId createdAt).proofsFresh fun requirement hmem ↦
      (nomatch hmem)
  | append_singleton calls call ih =>
    rw [after_concat]
    have hfresh := ih fun done call' hinitial ↦
      hspares done call' (hinitial.trans (List.prefix_append calls [call]))
    exact hfresh.step (wellFormed_after ..) (hspares calls call List.prefix_rfl)

end CleanupHistory

/-- The process tree the cleanup command of a resource is registered under. -/
def cleanupCommand (resourceId : String) : CleanupSubject :=
  ⟨.processTree, "external-resource-cleanup:" ++ resourceId⟩

/-- The calls `cleanupExternalResources` makes for an active resource whose cleanup command runs to
its end: the resource and the guardian of the command are registered, then come the proof that the
command is gone and what became of the resource. -/
def externalCleanupCalls (resourceId : String) (guardian : ProcessGuardianIdentity)
    (commandProof resourceProof : Uuid) (outcome : EvidenceStatus) (now : Timestamp) :
    List (CleanupCall × Timestamp) :=
  let resource : CleanupSubject := ⟨.externalResource, resourceId⟩
  [(.registerRequirement ⟨resource, now, 30000, none⟩, now),
    (.registerRequirement ⟨cleanupCommand resourceId, now, 30000, some guardian⟩, now),
    (.appendEvidence
      { evidenceId := commandProof, subject := cleanupCommand resourceId, status := .proven
        method := .processRunner, observedAt := now }, now),
    (.appendEvidence
      { evidenceId := resourceProof, subject := resource, status := outcome
        method := .externalResourceCommand, observedAt := now }, now)]

/-- A first recovery runs the cleanup command, which exits with an error; a second one runs it again
and dies once the new guardian is registered. -/
def crashedRecoveries : List (CleanupCall × Timestamp) :=
  externalCleanupCalls "box" ⟨1, 100, 1, 10, none, none⟩ 11 12 .failed 10 ++
    (externalCleanupCalls "box" ⟨2, 200, 2, 20, none, none⟩ 21 22 .proven 20).take 2

/-- Two cleanups of the resource overlap: the first one has proven it gone when the command of the
second one starts. -/
def overlappingCleanups : List (CleanupCall × Timestamp) :=
  externalCleanupCalls "box" ⟨1, 100, 1, 10, none, none⟩ 11 12 .proven 10 ++
    (externalCleanupCalls "box" ⟨2, 200, 2, 20, none, none⟩ 21 22 .proven 20).take 2

end CodeConductor
