import CodeConductor.Launch.Operations

/-!
# The calls that change a cleanup record

A cleanup record changes by two calls only: `registerAttemptCleanupRequirement` and
`appendAttemptCleanupEvidence`. Each commits one transition over the snapshot it has read, so what
becomes of a record is told by the **sequence of the calls** that committed, whoever made them and
however they were interleaved (`ArtifactStore.cleanupCall_register`, `ArtifactStore.cleanupCall_append`).
-/

namespace CodeConductor

open Async Async.Prog Async.Protocol

/-- A call that changes a cleanup record. -/
inductive CleanupCall where
  | registerRequirement (requirement : CleanupRequirement)
  | appendEvidence (evidence : CleanupEvidence)
  deriving DecidableEq, Repr

namespace AttemptCleanupRecord

/-- What `registerAttemptCleanupRequirement` makes of the record. -/
def registerRequirement (record : AttemptCleanupRecord) (requirement : CleanupRequirement)
    (now : Timestamp) : AttemptCleanupRecord :=
  let requirements := ArtifactStore.registerRequirement record.requirements requirement
  if requirements = record.requirements then record
  else record.merge { requirements := some requirements } now

/-- What `appendAttemptCleanupEvidence` makes of the record; evidence for an unregistered subject
is refused. -/
def appendEvidence (record : AttemptCleanupRecord) (evidence : CleanupEvidence) (now : Timestamp) :
    AttemptCleanupRecord :=
  if !record.requirements.any fun requirement ↦ requirement.subject = evidence.subject then record
  else if record.evidence.any fun observation ↦ observation.evidenceId = evidence.evidenceId then
    record
  else record.merge { evidence := some (record.evidence ++ [evidence]) } now

/-- The record after a call that commits at the time `now`. -/
def afterCall (record : AttemptCleanupRecord) (now : Timestamp) :
    CleanupCall → AttemptCleanupRecord
  | .registerRequirement requirement => record.registerRequirement requirement now
  | .appendEvidence evidence => record.appendEvidence evidence now

end AttemptCleanupRecord

/-! ### The calls of the store -/

/-- The cleanup records of two worlds are the same but for the calls in `made`. -/
def CleanupChange (made : CleanupCall → Prop) (w w' : World) : Prop :=
  ∀ attemptId, w'.cleanups attemptId = w.cleanups attemptId ∨
    ∃ record call now, made call ∧ w.cleanups attemptId = some record ∧
      w'.cleanups attemptId = some (record.afterCall now call)

theorem CleanupChange.refl {made : CleanupCall → Prop} (w : World) : CleanupChange made w w :=
  fun _ ↦ .inl rfl

/-- The agreement in which a thread changes cleanup records by the calls in `made`, whatever the
others do. -/
def cleanupCallProtocol (made : CleanupCall → Prop) : Protocol RuntimeStep World RuntimeCall ℕ where
  inv _ _ := True
  rely _ _ _ _ := True
  guar _ _ _ w w' := CleanupChange made w w'
  ok _ _ _ _ := True
  pre _ _ _ _ := True

namespace ArtifactStore

variable {p t : ℕ} {made : CleanupCall → Prop} {A : Type} {label : RuntimeStep}

theorem cleanupCall_storeRead {f : World → Except RuntimeError A} :
    (cleanupCallProtocol made).Keeps p t (storeRead label f) :=
  Safe.keeps fun _ ↦ safe_storeRead (fun _ ↦ CleanupChange.refl) (Q := fun _ _ ↦ True)
    fun _ _ _ _ _ _ _ _ ↦ trivial

/-- A snapshot pushed over the one a call made it from. -/
theorem cleanupCall_pushCleanup {current updated : AttemptCleanupRecord} {call : CleanupCall}
    {now : Timestamp} (hmade : made call) (h : updated = current.afterCall now call) :
    (cleanupCallProtocol made).Keeps p t (pushCleanup current updated) := by
  refine Safe.keeps fun s ↦ safe_storeWrite (fun _ ↦ CleanupChange.refl) (Q := fun _ _ ↦ True)
    fun w n _ _ _ _ ↦ ⟨trivial, ?_, fun _ _ ↦ trivial⟩
  split
  · rename_i hcurrent
    intro attemptId
    by_cases hid : attemptId = current.attemptId
    · subst hid
      refine .inr ⟨current, call, now, hmade, hcurrent, ?_⟩
      show Function.update w.cleanups _ _ _ = _
      rw [Function.update_self, h]
    · exact .inl (Function.update_of_ne hid _ _)
  · exact CleanupChange.refl w

/-- A transition whose patch is what a call changes. -/
theorem cleanupCall_transition {expected : AttemptCleanupRecord} {patch : CleanupPatch}
    {call : CleanupCall} (hmade : made call)
    (h : ∀ now, expected.merge patch now = expected.afterCall now call) :
    (cleanupCallProtocol made).Keeps p t (transitionAttemptCleanup expected patch) := by
  refine Keeps.bind cleanupCall_storeRead fun current ↦ ?_
  by_cases hcurrent : current = expected
  · subst hcurrent
    rw [if_neg (by simp)]
    refine Keeps.bind (keeps_read fun _ ↦ CleanupChange.refl) fun now ↦ ?_
    have hpush : (cleanupCallProtocol made).Keeps p t
        (pushCleanup current (current.merge patch now)) := cleanupCall_pushCleanup hmade (h now)
    exact hpush.bind fun _ ↦ Keeps.bind cleanupCall_storeRead fun _ ↦ keeps_ret _
  · rw [if_pos hcurrent]
    exact keeps_ret _

/-- **Registering** changes cleanup records by the registration it was called for. -/
theorem cleanupCall_register {attemptId : AttemptId} {subject : CleanupSubject} {deadlineMs : ℕ}
    {guardian : Option ProcessGuardianIdentity} :
    (cleanupCallProtocol fun call ↦ ∃ registeredAt,
        call = .registerRequirement ⟨subject, registeredAt, deadlineMs, guardian⟩).Keeps p t
      (registerAttemptCleanupRequirement attemptId subject deadlineMs guardian) := by
  refine Keeps.bind (keeps_read fun _ ↦ CleanupChange.refl) fun registeredAt ↦
    Keeps.bind cleanupCall_storeRead fun current ↦ ?_
  by_cases hsame : registerRequirement current.requirements
      ⟨subject, registeredAt, deadlineMs, guardian⟩ = current.requirements
  · rw [if_pos hsame]
    exact keeps_ret _
  · rw [if_neg hsame]
    refine cleanupCall_transition ⟨registeredAt, rfl⟩ fun now ↦ ?_
    exact (if_neg hsame).symm

/-- **Appending** changes cleanup records by the evidence it was called for. -/
theorem cleanupCall_append {attemptId : AttemptId} {evidence : CleanupEvidence} :
    (cleanupCallProtocol (· = .appendEvidence evidence)).Keeps p t
      (appendAttemptCleanupEvidence attemptId evidence) := by
  refine Keeps.bind cleanupCall_storeRead fun current ↦ ?_
  by_cases hunknown : (!current.requirements.any fun requirement ↦
      requirement.subject = evidence.subject) = true
  · rw [if_pos hunknown]
    exact keeps_ret _
  rw [if_neg hunknown]
  by_cases hknown : (current.evidence.any fun observation ↦
      observation.evidenceId = evidence.evidenceId) = true
  · rw [if_pos hknown]
    exact keeps_ret _
  rw [if_neg hknown]
  refine cleanupCall_transition rfl fun now ↦ ?_
  show _ = current.appendEvidence evidence now
  rw [AttemptCleanupRecord.appendEvidence, if_neg hunknown, if_neg hknown]

end ArtifactStore

end CodeConductor
