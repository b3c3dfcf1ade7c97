import CodeConductor.Contracts.Attempt

/-!
# Attempt cleanup records

What must be proven gone before an attempt's evidence may be removed or its job retried: one
**requirement** per process tree, external resource and worktree, and the **observations** made of
them. The latest observation of each required subject decides; earlier ones stay in the record.
-/

namespace CodeConductor

/-- The kind of thing a cleanup requirement is about. -/
inductive CleanupSubjectKind where
  | processTree | externalResource | workspace
  deriving DecidableEq, Repr

/-- The text of a subject kind. -/
def CleanupSubjectKind.text : CleanupSubjectKind → String
  | processTree => "process-tree"
  | externalResource => "external-resource"
  | workspace => "workspace"

instance : ToString CleanupSubjectKind := ⟨CleanupSubjectKind.text⟩

/-- `cleanupSubjectSchema`. `subjectKey` joins the two fields, so two subjects are the same exactly
when both fields agree. -/
structure CleanupSubject where
  kind : CleanupSubjectKind
  id : String
  deriving DecidableEq, Repr

/-- `cleanupRequirementSchema`. -/
structure CleanupRequirement where
  subject : CleanupSubject
  registeredAt : Timestamp
  deadlineMs : ℕ
  guardian : Option ProcessGuardianIdentity := none
  deriving DecidableEq, Repr

/-- The method recorded with an observation. -/
inductive CleanupMethod where
  | processRunner | windowsJobOwnerExit | externalResourceCommand | workspaceRemove
  | cleanupDeadline | legacyUnverified
  deriving DecidableEq, Repr

/-- `cleanupEvidenceSchema`. -/
structure CleanupEvidence where
  evidenceId : Uuid
  subject : CleanupSubject
  status : EvidenceStatus
  method : CleanupMethod
  observedAt : Timestamp
  detail : Option String := none
  termination : Option ProcessTermination := none
  deriving DecidableEq, Repr

/-- The status derived for a whole record. -/
inductive AttemptCleanupStatus where
  | notRequired | pending | proven | failed | unknown
  deriving DecidableEq, Repr

/-- The text of a cleanup status. -/
def AttemptCleanupStatus.text : AttemptCleanupStatus → String
  | notRequired => "not-required"
  | pending => "pending"
  | proven => "proven"
  | failed => "failed"
  | unknown => "unknown"

instance : ToString AttemptCleanupStatus := ⟨AttemptCleanupStatus.text⟩

/-- `["not-required", "proven"].includes(status)`. -/
def AttemptCleanupStatus.isSafe : AttemptCleanupStatus → Bool
  | notRequired | proven => true
  | pending | failed | unknown => false

/-- `attemptCleanupRecordSchema`. -/
structure AttemptCleanupRecord where
  attemptId : AttemptId
  revision : ℕ := 0
  updatedAt : Timestamp := 0
  status : AttemptCleanupStatus := .notRequired
  requirements : List CleanupRequirement := []
  evidence : List CleanupEvidence := []
  deriving DecidableEq, Repr

/-- `createAttemptCleanupRecord`. -/
def createAttemptCleanupRecord (attemptId : AttemptId) (now : Timestamp) :
    AttemptCleanupRecord where
  attemptId := attemptId
  updatedAt := now

/-- The observation a forward pass over the evidence keeps for `subject`: the last one. -/
def latestObservation (evidence : List CleanupEvidence) (subject : CleanupSubject) :
    Option CleanupEvidence :=
  evidence.foldl (fun latest e ↦ if e.subject = subject then some e else latest) none

/-- `deriveCleanupStatus`. -/
def deriveCleanupStatus (requirements : List CleanupRequirement)
    (evidence : List CleanupEvidence) : AttemptCleanupStatus :=
  if requirements = [] then .notRequired
  else
    let states := requirements.map fun requirement ↦
      (latestObservation evidence requirement.subject).map CleanupEvidence.status
    if states.contains (some .failed) then .failed
    else if states.contains (some .unknown) then .unknown
    else if states.contains none then .pending
    else .proven

/-- `latestCleanupEvidence`: the first match of a scan from the end. -/
def latestCleanupEvidence (record : AttemptCleanupRecord) (subject : CleanupSubject) :
    Option CleanupEvidence :=
  record.evidence.reverse.find? fun entry ↦ entry.subject = subject

/-- The status of the latest observation of a subject. -/
def AttemptCleanupRecord.latestStatus (record : AttemptCleanupRecord) (subject : CleanupSubject) :
    Option EvidenceStatus :=
  (latestCleanupEvidence record subject).map CleanupEvidence.status

/-- What a transition of a cleanup record changes. -/
structure CleanupPatch where
  requirements : Option (List CleanupRequirement) := none
  evidence : Option (List CleanupEvidence) := none
  deriving DecidableEq, Repr

/-- The record `transitionAttemptCleanup` commits: the patch merged in, the revision raised, the
status derived anew. -/
def AttemptCleanupRecord.merge (record : AttemptCleanupRecord) (patch : CleanupPatch)
    (now : Timestamp) : AttemptCleanupRecord :=
  let requirements := patch.requirements.getD record.requirements
  let evidence := patch.evidence.getD record.evidence
  { attemptId := record.attemptId
    revision := record.revision + 1
    updatedAt := now
    status := deriveCleanupStatus requirements evidence
    requirements := requirements
    evidence := evidence }

@[simp] theorem AttemptCleanupRecord.merge_attemptId (record : AttemptCleanupRecord)
    (patch : CleanupPatch) (now : Timestamp) :
    (record.merge patch now).attemptId = record.attemptId := rfl

@[simp] theorem AttemptCleanupRecord.merge_revision (record : AttemptCleanupRecord)
    (patch : CleanupPatch) (now : Timestamp) :
    (record.merge patch now).revision = record.revision + 1 := rfl

end CodeConductor
