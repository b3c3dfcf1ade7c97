import Mathlib.Data.List.Nodup
import CodeConductor.Cleanup.Freshness

/-!
# How a cleanup record represents what was observed

A record keeps its requirements and its observations as lists. Two readers look an observation up by
its subject: `deriveCleanupStatus` folds the evidence into a **map** from subject keys, and workspace
removal and recovery **scan** the evidence from its end (`latestCleanupEvidence`). Both find the
latest observation, so the stored status and the scan agree on which records are safe.
-/

namespace CodeConductor

/-! ### Subject keys -/

/-- `subjectKey`. -/
def CleanupSubject.subjectKey (subject : CleanupSubject) : String :=
  subject.kind.text ++ ("\x00" ++ subject.id)

private theorem toList_subjectKey (subject : CleanupSubject) :
    subject.subjectKey.toList = subject.kind.text.toList ++ '\x00' :: subject.id.toList := by
  rw [CleanupSubject.subjectKey, String.toList_append, String.toList_append]
  rfl

/-- No kind contains the separator, so a key determines its subject. -/
theorem CleanupSubject.subjectKey_injective : Function.Injective subjectKey := by
  intro a b hkey
  have hlist : a.kind.text.toList ++ '\x00' :: a.id.toList =
      b.kind.text.toList ++ '\x00' :: b.id.toList := by
    rw [← toList_subjectKey, ← toList_subjectKey, hkey]
  obtain ⟨ka, ida⟩ := a
  obtain ⟨kb, idb⟩ := b
  have hkind : ka = kb := by
    cases ka <;> cases kb <;> first | rfl | simp [CleanupSubjectKind.text] at hlist
  subst hkind
  have hid : ida.toList = idb.toList := by simpa using List.append_cancel_left hlist
  rw [String.toList_inj.1 hid]

/-- `sameCleanupSubject` compares keys. -/
theorem CleanupSubject.subjectKey_inj {a b : CleanupSubject} :
    a.subjectKey = b.subjectKey ↔ a = b :=
  subjectKey_injective.eq_iff

/-- The map `deriveCleanupStatus` folds the evidence into. -/
def latestByKey (evidence : List CleanupEvidence) : String → Option CleanupEvidence :=
  evidence.foldl (fun latest entry ↦ Function.update latest entry.subject.subjectKey (some entry))
    fun _ ↦ none

/-- The map holds the latest observation of each subject under its key. -/
theorem latestByKey_subjectKey (evidence : List CleanupEvidence) (subject : CleanupSubject) :
    latestByKey evidence subject.subjectKey = latestObservation evidence subject := by
  induction evidence using List.reverseRec with
  | nil => rfl
  | append_singleton evidence entry ih =>
    rw [latestByKey, latestObservation, List.foldl_append, List.foldl_append]
    by_cases h : entry.subject = subject
    · show Function.update _ entry.subject.subjectKey _ _ = if _ then _ else _
      rw [if_pos h, h, Function.update_self]
    · show Function.update _ entry.subject.subjectKey _ _ = if _ then _ else _
      have hkey : subject.subjectKey ≠ entry.subject.subjectKey :=
        fun hkey ↦ h (CleanupSubject.subjectKey_inj.1 hkey).symm
      rw [if_neg h, Function.update_of_ne hkey]
      exact ih

/-- The map and the scan find the same observation. -/
theorem latestByKey_eq_latestCleanupEvidence (record : AttemptCleanupRecord)
    (subject : CleanupSubject) :
    latestByKey record.evidence subject.subjectKey = latestCleanupEvidence record subject := by
  rw [latestByKey_subjectKey, latestObservation_eq, latestCleanupEvidence]

/-! ### The status and the scan -/

/-- The derived status is safe exactly when the latest observation of every requirement is a
proof. -/
theorem isSafe_deriveCleanupStatus {requirements : List CleanupRequirement}
    {evidence : List CleanupEvidence} :
    (deriveCleanupStatus requirements evidence).isSafe = true ↔
      ∀ requirement ∈ requirements,
        (latestObservation evidence requirement.subject).map CleanupEvidence.status =
          some .proven := by
  constructor
  · intro hsafe requirement hmem
    have hproven : deriveCleanupStatus requirements evidence = .proven := by
      rw [deriveCleanupStatus, if_neg (List.ne_nil_of_mem hmem)] at hsafe ⊢
      dsimp only at hsafe ⊢
      split_ifs at hsafe ⊢ <;> first | rfl | exact absurd hsafe (by decide)
    exact latestStatus_of_deriveCleanupStatus hproven hmem
  · intro hall
    by_cases hnil : requirements = []
    · rw [deriveCleanupStatus, if_pos hnil]
      rfl
    · have hstate : ∀ state, state ≠ some EvidenceStatus.proven →
          (requirements.map fun requirement ↦ (latestObservation evidence
            requirement.subject).map CleanupEvidence.status).contains state = false := by
        intro state hstate
        rw [Bool.eq_false_iff]
        intro hcontains
        obtain ⟨requirement, hmem, rfl⟩ := List.mem_map.1 (List.contains_iff_mem.1 hcontains)
        exact hstate (hall requirement hmem)
      rw [deriveCleanupStatus, if_neg hnil]
      simp only [hstate (some .failed) (by decide), hstate (some .unknown) (by decide),
        hstate none (by decide), Bool.false_eq_true, if_false]
      rfl

/-! ### Reachable records -/

namespace AttemptCleanupRecord

/-- What a sequence of calls, each with the time it commits at, makes of a new attempt's record. -/
def afterCalls (attemptId : AttemptId) (createdAt : Timestamp)
    (calls : List (CleanupCall × Timestamp)) : AttemptCleanupRecord :=
  calls.foldl (fun record call ↦ record.afterCall call.2 call.1)
    (createAttemptCleanupRecord attemptId createdAt)

/-- What every reachable record keeps. -/
structure Represents (record : AttemptCleanupRecord) : Prop where
  subjects_nodup : (record.requirements.map CleanupRequirement.subject).Nodup
  known : ∀ entry ∈ record.evidence,
    ∃ requirement ∈ record.requirements, requirement.subject = entry.subject
  evidenceIds_nodup : (record.evidence.map CleanupEvidence.evidenceId).Nodup
  status_eq : record.status = deriveCleanupStatus record.requirements record.evidence
  /-- The stored status and the reverse scan agree on what is safe. -/
  safe_iff : record.status = .notRequired ∨ record.status = .proven ↔
    ∀ requirement ∈ record.requirements,
      (latestCleanupEvidence record requirement.subject).map CleanupEvidence.status = some .proven

/-- The invariant behind `Represents`: the parts that are not about the status alone. -/
structure Distinct (record : AttemptCleanupRecord) : Prop where
  subjects : (record.requirements.map CleanupRequirement.subject).Nodup
  evidenceIds : (record.evidence.map CleanupEvidence.evidenceId).Nodup

variable {record : AttemptCleanupRecord} {now : Timestamp}

/-- A registration of a known subject keeps the list of subjects; a new subject goes at its end. -/
theorem subjects_registerRequirement (requirements : List CleanupRequirement)
    (requirement : CleanupRequirement) :
    (ArtifactStore.registerRequirement requirements requirement).map CleanupRequirement.subject =
      if requirement.subject ∈ requirements.map CleanupRequirement.subject then
        requirements.map CleanupRequirement.subject
      else requirements.map CleanupRequirement.subject ++ [requirement.subject] := by
  have hknown : (requirements.any fun q ↦ q.subject = requirement.subject) = true ↔
      requirement.subject ∈ requirements.map CleanupRequirement.subject := by
    simp [List.any_eq_true]
  rw [ArtifactStore.registerRequirement]
  split_ifs with h hmem hmem
  · rw [List.map_map]
    refine List.map_congr_left fun q _ ↦ ?_
    show CleanupRequirement.subject (if _ then _ else _) = _
    split <;> rfl
  · exact absurd (hknown.1 h) hmem
  · exact absurd (hknown.2 hmem) h
  · rw [List.map_append]
    rfl

theorem Distinct.registerRequirement (hdistinct : record.Distinct)
    (requirement : CleanupRequirement) : (record.registerRequirement requirement now).Distinct where
  subjects := by
    rw [registerRequirement_requirements, subjects_registerRequirement]
    split
    · exact hdistinct.subjects
    · rename_i hnew
      exact List.nodup_append.2 ⟨hdistinct.subjects, List.nodup_singleton _,
        fun subject hmem subject' hmem' ↦ by
          rintro rfl
          exact hnew (List.mem_singleton.1 hmem' ▸ hmem)⟩
  evidenceIds := by
    rw [registerRequirement_evidence]
    exact hdistinct.evidenceIds

theorem Distinct.appendEvidence (hdistinct : record.Distinct) (evidence : CleanupEvidence) :
    (record.appendEvidence evidence now).Distinct := by
  rw [AttemptCleanupRecord.appendEvidence]
  split_ifs with hunknown hreplayed
  · exact hdistinct
  -- a replay of known evidence changes nothing
  · exact hdistinct
  · refine ⟨hdistinct.subjects, ?_⟩
    have hnew : evidence.evidenceId ∉ record.evidence.map CleanupEvidence.evidenceId := by
      simpa [List.any_eq_true] using hreplayed
    show ((record.evidence ++ [evidence]).map CleanupEvidence.evidenceId).Nodup
    rw [List.map_append]
    exact List.nodup_append.2 ⟨hdistinct.evidenceIds, List.nodup_singleton _,
      fun id hmem id' hmem' ↦ by
        rintro rfl
        exact hnew (List.mem_singleton.1 hmem' ▸ hmem)⟩

/-- **Step.** Both calls keep subjects and evidence ids distinct. -/
theorem Distinct.afterCall (hdistinct : record.Distinct) (call : CleanupCall) :
    (record.afterCall now call).Distinct := by
  cases call with
  | registerRequirement requirement => exact hdistinct.registerRequirement requirement
  | appendEvidence evidence => exact hdistinct.appendEvidence evidence

/-- **Step.** A call leaves the evidence it finds where it is. -/
theorem evidence_initial_afterCall (record : AttemptCleanupRecord) (now : Timestamp)
    (call : CleanupCall) : record.evidence <+: (record.afterCall now call).evidence := by
  cases call with
  | registerRequirement requirement =>
    have hevidence : (record.registerRequirement requirement now).evidence = record.evidence :=
      registerRequirement_evidence requirement
    exact hevidence ▸ List.prefix_rfl
  | appendEvidence evidence =>
    obtain heq | ⟨-, heq⟩ := record.appendEvidence_cases now evidence
    · exact (congrArg AttemptCleanupRecord.evidence heq) ▸ List.prefix_rfl
    · exact (congrArg AttemptCleanupRecord.evidence heq) ▸ List.prefix_append _ _

end AttemptCleanupRecord

open AttemptCleanupRecord

variable (attemptId : AttemptId) (createdAt : Timestamp)

/-- A record and the history it came about by. -/
theorem record_after (calls : List (CleanupCall × Timestamp)) :
    (CleanupHistory.after attemptId createdAt calls).record =
      afterCalls attemptId createdAt calls := by
  induction calls using List.reverseRec with
  | nil => rfl
  | append_singleton calls call ih =>
    rw [CleanupHistory.after_concat, afterCalls, List.foldl_concat]
    show (CleanupHistory.after attemptId createdAt calls).record.afterCall call.2 call.1 = _
    rw [ih]
    rfl

theorem distinct_afterCalls (calls : List (CleanupCall × Timestamp)) :
    (afterCalls attemptId createdAt calls).Distinct := by
  induction calls using List.reverseRec with
  | nil => exact ⟨List.nodup_nil, List.nodup_nil⟩
  | append_singleton calls call ih =>
    rw [afterCalls, List.foldl_concat]
    exact ih.afterCall call.1

/-- **Run.** Evidence is only ever appended. -/
theorem evidence_initial_afterCalls (done calls : List (CleanupCall × Timestamp)) :
    (afterCalls attemptId createdAt done).evidence <+:
      (afterCalls attemptId createdAt (done ++ calls)).evidence := by
  induction calls using List.reverseRec with
  | nil => exact (List.append_nil done).symm ▸ List.prefix_rfl
  | append_singleton calls call ih =>
    have hlast : afterCalls attemptId createdAt (done ++ (calls ++ [call])) =
        (afterCalls attemptId createdAt (done ++ calls)).afterCall call.2 call.1 := by
      rw [← List.append_assoc, afterCalls, List.foldl_concat]
      rfl
    rw [hlast]
    exact ih.trans (evidence_initial_afterCall _ _ _)

/-- **Every cleanup record represents its observations**: whatever the calls were, its subjects and
its evidence ids are distinct, its evidence is about registered subjects and extends that of every
earlier revision, and its status is the derived one, which is safe exactly when the reverse scan
finds a proof for every requirement. -/
theorem represents_afterCalls (calls : List (CleanupCall × Timestamp)) :
    (afterCalls attemptId createdAt calls).Represents ∧
      ∀ done, done <+: calls → (afterCalls attemptId createdAt done).evidence <+:
        (afterCalls attemptId createdAt calls).evidence := by
  have hwf := CleanupHistory.wellFormed_after attemptId createdAt calls
  have hrecord := record_after attemptId createdAt calls
  have hstatus := hwf.status
  rw [hrecord] at hstatus
  constructor
  · refine ⟨(distinct_afterCalls attemptId createdAt calls).subjects, ?_,
      (distinct_afterCalls attemptId createdAt calls).evidenceIds, hstatus, ?_⟩
    · rw [← hrecord]
      exact hwf.known
    · have hsafe : ∀ status : AttemptCleanupStatus,
          status = .notRequired ∨ status = .proven ↔ status.isSafe = true := by
        rintro (_ | _ | _ | _ | _) <;> decide
      rw [hsafe, hstatus, isSafe_deriveCleanupStatus]
      simp only [latestObservation_eq, latestCleanupEvidence]
  · rintro done ⟨rest, rfl⟩
    exact evidence_initial_afterCalls attemptId createdAt done rest

end CodeConductor
