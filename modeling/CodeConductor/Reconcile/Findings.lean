import CodeConductor.Runtime.Reconciler

/-!
# What an inspection finds

`inspectItem` is a ladder of tests, each of which takes for granted that the ones before it failed.
`Finding` says of each action, by itself, what the records show when it is offered for an item;
`finding_of_mem` is the only proof that climbs the ladder. Whatever else is said of reconciliation
is said of findings, one case a reason.

Besides, the recovery of an attempt that has not ended is offered whether or not an item vouches for
it: `Recoverable`.
-/

namespace CodeConductor.Reconciler

/-- The recovery of an attempt that has not ended and whose cleanup record could be read. -/
def Recoverable (attempts : List AttemptManifest) (cleanups : List (AttemptId × AttemptCleanupRecord))
    (proposal : ReconciliationProposal) : Prop :=
  ∃ m record, proposal = .recoverInterruptedAttempt m record ∧ m ∈ attempts ∧
    m.status.isTerminal = false ∧ cleanups.lookup m.attemptId = some record

/-- An attempt the item may be given: one of its job and of its operation. -/
structure Matches (attempts : List AttemptManifest) (item : QueueItem) (m : AttemptManifest) :
    Prop where
  mem : m ∈ attempts
  jobId : m.jobId = item.jobId
  operation : m.dispatchOperationId = item.dispatchOperationId
  /-- A dispatching item that names no attempt has a single one to be given. -/
  single : item.attemptId = some m.attemptId ∨ item.attemptId = none ∧ item.status = .dispatching ∧
    ∃ operation, item.dispatchOperationId = some operation ∧
      Dispatcher.attemptsOf attempts item.jobId operation = [m]

/-- Why an action is offered for an item. -/
inductive Finding (attempts : List AttemptManifest)
    (cleanups : List (AttemptId × AttemptCleanupRecord)) (item : QueueItem) :
    ReconciliationProposal → Prop
  /-- A queued item still shows an earlier dispatch. -/
  | stale : item.status = .queued →
      item.dispatchOperationId.isSome ∨ item.attemptId.isSome ∨ item.completion.isSome →
        Finding attempts cleanups item (.resetAbandonedQueueItem item)
  /-- Nothing was reserved for the operation. -/
  | abandoned (operation : Uuid) : item.status = .dispatching → item.attemptId = none →
      item.dispatchOperationId = some operation →
      Dispatcher.attemptsOf attempts item.jobId operation = [] →
        Finding attempts cleanups item (.resetAbandonedQueueItem item)
  /-- A dispatching item has no operation to look for. -/
  | unidentified : item.status = .dispatching → item.dispatchOperationId = none →
      Finding attempts cleanups item (.quarantineQueueItem item)
  /-- More than one attempt was reserved for the operation. -/
  | ambiguous (operation : Uuid) (first second : AttemptManifest) (rest : List AttemptManifest) :
      item.status = .dispatching → item.attemptId = none →
      item.dispatchOperationId = some operation →
      Dispatcher.attemptsOf attempts item.jobId operation = first :: second :: rest →
        Finding attempts cleanups item (.quarantineQueueItem item)
  /-- An active item names no attempt. -/
  | unbound : item.status.isActive = true → item.attemptId = none →
      Finding attempts cleanups item (.quarantineQueueItem item)
  /-- A completed item, or one with a completion, names no attempt. -/
  | unevidenced : item.attemptId = none → item.status = .completed ∨ item.completion.isSome →
      Finding attempts cleanups item (.quarantineQueueItem item)
  /-- There is no attempt of the name. -/
  | missing (attemptId : AttemptId) : item.attemptId = some attemptId →
      (∀ m ∈ attempts, m.attemptId ≠ attemptId) →
        Finding attempts cleanups item (.quarantineQueueItem item)
  /-- The attempt is one of another job. -/
  | foreign (m : AttemptManifest) : m ∈ attempts → item.attemptId = some m.attemptId →
      m.jobId ≠ item.jobId → Finding attempts cleanups item (.quarantineQueueItem item)
  /-- The attempt is one of another operation. -/
  | detached (m : AttemptManifest) : m ∈ attempts → item.attemptId = some m.attemptId →
      m.jobId = item.jobId → item.dispatchOperationId ≠ m.dispatchOperationId →
        Finding attempts cleanups item (.quarantineQueueItem item)
  /-- A dispatching item can be given the attempt of its operation. -/
  | bind (m : AttemptManifest) : item.status = .dispatching → item.dispatchOperationId.isSome →
      Matches attempts item m → m.status.isTerminal = false →
        Finding attempts cleanups item (.bindQueueToAttempt item m)
  /-- The attempt has ended, and the item does not show how. -/
  | synchronize (m : AttemptManifest) (record : AttemptCleanupRecord) : item.status ≠ .queued →
      Matches attempts item m → m.status.isTerminal = true →
      cleanups.lookup m.attemptId = some record →
      (item.status.isTerminal = true → queueMatchesAttempt item m record = false) →
        Finding attempts cleanups item (.synchronizeQueueFromTerminalAttempt item m record)
  | recover {proposal : ReconciliationProposal} : Recoverable attempts cleanups proposal →
      Finding attempts cleanups item proposal

section Ladder

variable {attempts : List AttemptManifest} {cleanups : List (AttemptId × AttemptCleanupRecord)}
  {item : QueueItem} {m : AttemptManifest} {proposal : ReconciliationProposal}

theorem recoverable_of_mem (hm : m ∈ attempts) (hlive : m.status.isTerminal = false)
    (h : proposal ∈ recoverAction m (cleanups.lookup m.attemptId)) :
    Recoverable attempts cleanups proposal := by
  cases hrecord : cleanups.lookup m.attemptId with
  | none => exact absurd h (by simp [recoverAction, hrecord])
  | some record =>
    refine ⟨m, record, ?_, hm, hlive, hrecord⟩
    simpa [recoverAction, hrecord] using h

theorem finding_synchronizeAction (hs : item.status ≠ .queued) (hm : Matches attempts item m)
    (hterminal : m.status.isTerminal = true)
    (hdiffers : ∀ record, cleanups.lookup m.attemptId = some record →
      item.status.isTerminal = true → queueMatchesAttempt item m record = false)
    (h : proposal ∈ synchronizeAction item m (cleanups.lookup m.attemptId)) :
    Finding attempts cleanups item proposal := by
  cases hrecord : cleanups.lookup m.attemptId with
  | none => exact absurd h (by simp [synchronizeAction, hrecord])
  | some record =>
    obtain rfl : proposal = .synchronizeQueueFromTerminalAttempt item m record := by
      simpa [synchronizeAction, hrecord] using h
    exact .synchronize m record hs hm hterminal hrecord (hdiffers record hrecord)

theorem finding_bindAction (hs : item.status = .dispatching)
    (hop : item.dispatchOperationId.isSome) (hm : Matches attempts item m)
    (h : proposal ∈ bindAction item m (cleanups.lookup m.attemptId)) :
    Finding attempts cleanups item proposal := by
  rw [bindAction] at h
  split at h
  · rename_i hterminal
    exact finding_synchronizeAction (by simp [hs]) hm hterminal
      (fun _ _ hitem ↦ absurd hitem (by simp [hs, QueueItemStatus.isTerminal])) h
  · rename_i hlive
    obtain rfl := List.mem_singleton.1 h
    exact .bind m hs hop hm (by simpa using hlive)

/-- The tests on an item that names an attempt of its job and operation. -/
theorem finding_inspectBound (hop : item.status = .dispatching → item.dispatchOperationId.isSome)
    (hm : Matches attempts item m)
    (h : proposal ∈ inspectBound item m (cleanups.lookup m.attemptId)) :
    Finding attempts cleanups item proposal := by
  simp only [inspectBound, Bool.and_eq_true, Bool.not_eq_true'] at h
  split at h
  · rename_i hs
    exact finding_bindAction hs (hop hs) hm h
  split at h
  · rename_i hactive
    split at h
    · rename_i hterminal
      refine finding_synchronizeAction (fun hs ↦ ?_) hm hterminal (fun _ _ hitem ↦ ?_) h
      · exact absurd hactive (by simp [hs, QueueItemStatus.isActive])
      · revert hactive hitem
        cases item.status <;> simp [QueueItemStatus.isActive, QueueItemStatus.isTerminal]
    · rename_i hlive
      exact .recover (recoverable_of_mem hm.mem (by simpa using hlive) h)
  split at h
  · rename_i hlive
    exact .recover (recoverable_of_mem hm.mem hlive.2 h)
  split at h
  · rename_i hended
    have hs : item.status ≠ .queued := fun hs ↦
      absurd hended.1 (by simp [hs, QueueItemStatus.isTerminal])
    split at h
    · rename_i record hrecord
      split at h
      · exact absurd h List.not_mem_nil
      · rename_i hdiffers
        refine finding_synchronizeAction hs hm hended.2 (fun record' hrecord' _ ↦ ?_) h
        obtain rfl := Option.some.inj (hrecord.symm.trans hrecord')
        simpa using hdiffers
    · exact absurd h List.not_mem_nil
  · exact absurd h List.not_mem_nil

/-- The tests on an item that names no attempt and is not active. -/
theorem finding_inspectUnbound (hid : item.attemptId = none)
    (h : proposal ∈
      (inspectUnbound attempts (fun m ↦ cleanups.lookup m.attemptId) item).actions) :
    Finding attempts cleanups item proposal := by
  rw [inspectUnbound] at h
  split at h
  · rename_i operation hs hop
    split at h
    · rename_i hnone
      obtain rfl := List.mem_singleton.1 h
      exact .abandoned operation hs hid hop hnone
    · rename_i m hm
      have hmem : m ∈ Dispatcher.attemptsOf attempts item.jobId operation := by rw [hm]; simp
      obtain ⟨hattempt, hmatch⟩ := List.mem_filter.1 hmem
      obtain ⟨hmop, hjob⟩ := of_decide_eq_true hmatch
      refine finding_bindAction hs (by rw [hop]; rfl) ⟨hattempt, hjob, hmop.trans hop.symm, ?_⟩ h
      exact .inr ⟨hid, hs, operation, hop, hm⟩
    · rename_i hnone hone
      obtain rfl := List.mem_singleton.1 h
      cases hfound : Dispatcher.attemptsOf attempts item.jobId operation with
      | nil => exact absurd hfound hnone
      | cons first rest =>
        cases rest with
        | nil => exact absurd hfound (hone first)
        | cons second rest => exact .ambiguous operation first second rest hs hid hop hfound
  · split at h
    · rename_i hevidence
      obtain rfl := List.mem_singleton.1 h
      exact .unevidenced hid hevidence
    · exact absurd h List.not_mem_nil

/-- **Every action offered for an item has its reason in the records.** -/
theorem finding_of_mem_inspectItem (h : proposal ∈ (inspectItem attempts cleanups item).actions) :
    Finding attempts cleanups item proposal := by
  simp only [inspectItem] at h
  split at h
  · rename_i hstale
    obtain rfl := List.mem_singleton.1 h
    exact .stale hstale.1 hstale.2
  split at h
  · rename_i hnone
    obtain rfl := List.mem_singleton.1 h
    exact .unidentified hnone.1 hnone.2
  rename_i hidentified
  have hop (hs : item.status = .dispatching) : item.dispatchOperationId.isSome :=
    Option.isSome_iff_ne_none.2 fun hnone ↦ hidentified ⟨hs, hnone⟩
  split at h
  · rename_i hid
    split at h
    · rename_i hactive
      obtain rfl := List.mem_singleton.1 h
      exact .unbound hactive hid
    · exact finding_inspectUnbound hid h
  · rename_i attemptId hid
    split at h
    · rename_i hfind
      obtain rfl := List.mem_singleton.1 h
      refine .missing attemptId hid fun m hm heq ↦ ?_
      exact absurd (List.find?_eq_none.1 hfind m hm) (by simp [heq])
    · rename_i m hfind
      have hm : m ∈ attempts := List.mem_of_find?_eq_some hfind
      have hfound := List.find?_some hfind
      have hname : item.attemptId = some m.attemptId := by
        rw [hid, of_decide_eq_true hfound]
      split at h
      · rename_i hjob
        obtain rfl := List.mem_singleton.1 h
        exact .foreign m hm hname hjob
      rename_i hjob
      split at h
      · rename_i hother
        rcases List.mem_cons.1 h with rfl | h
        · exact .detached m hm hname (not_not.1 hjob) hother
        · split at h
          · rename_i hlive
            rw [Bool.and_eq_true, Bool.not_eq_true'] at hlive
            exact .recover (recoverable_of_mem hm hlive.2 h)
          · exact absurd h List.not_mem_nil
      · rename_i hsame
        exact finding_inspectBound hop
          ⟨hm, not_not.1 hjob, (not_not.1 hsame).symm, .inl hname⟩ h

/-- **Every action of a report has its reason in the records.** -/
theorem finding_of_mem {items : List QueueItem}
    (h : proposal ∈ inspectQueueAttemptRelationships items attempts cleanups) :
    (∃ item ∈ items, Finding attempts cleanups item proposal) ∨
      Recoverable attempts cleanups proposal := by
  simp only [inspectQueueAttemptRelationships] at h
  rcases List.mem_append.1 h with h | h
  · obtain ⟨report, hreport, h⟩ := List.mem_flatMap.1 h
    obtain ⟨item, hitem, rfl⟩ := List.mem_map.1 hreport
    exact .inl ⟨item, hitem, finding_of_mem_inspectItem h⟩
  · obtain ⟨m, hm, h⟩ := List.mem_flatMap.1 h
    obtain ⟨hattempt, hlive⟩ := List.mem_filter.1 hm
    exact .inr (recoverable_of_mem hattempt (of_decide_eq_true hlive).1 h)

end Ladder

end CodeConductor.Reconciler
