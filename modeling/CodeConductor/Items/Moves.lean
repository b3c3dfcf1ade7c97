import CodeConductor.Launch.Protocol

/-!
# The moves of a queue item

Whoever commits to a queue item, be it a dispatch pass, the end of an execution, an owner's request,
startup recovery or an approved reconciliation, commits one of the patches of `QueueMove` over the
snapshot it read. A move carries what its author checked of that snapshot and of the world, and
everything it says of the world stays true: attempts and contracts are only added to.

What is known of an item is then a fact about chains of moves from `createQueueItem` on. Two are
derived here. `QueueItem.Accounted` says that the fields of an item fit together and that the
completion it shows is the projection of a manifest of its own job. `automaticRequeues` counts how
often recovery sent the job back to the queue, which is what `automaticRetryCount` shows.
-/

namespace CodeConductor

open Async

/-! ### What only grows -/

/-- Attempts and contracts are only added to. -/
structure World.Gains (w w' : World) : Prop where
  attempts : ∀ id, ∀ m ∈ w.attempts id, m ∈ w'.attempts id
  contracts : ∀ jobId contract, w.contract? jobId = some contract →
    w'.contract? jobId = some contract

theorem World.Gains.refl (w : World) : w.Gains w := ⟨fun _ _ h ↦ h, fun _ _ h ↦ h⟩

theorem World.Gains.trans {w₁ w₂ w₃ : World} (h : w₁.Gains w₂) (h' : w₂.Gains w₃) : w₁.Gains w₃ :=
  ⟨fun id m hm ↦ h'.attempts id m (h.attempts id m hm),
    fun jobId contract hc ↦ h'.contracts jobId contract (h.contracts jobId contract hc)⟩

/-- The attempt has ended. -/
def World.Ended (w : World) (id : AttemptId) : Prop :=
  ∃ m ∈ w.attempts id, m.status.isTerminal = true

theorem World.Ended.gains {w w' : World} {id : AttemptId} (h : w.Ended id) (hw : w.Gains w') :
    w'.Ended id := by
  obtain ⟨m, hm, hterminal⟩ := h
  exact ⟨m, hw.attempts id m hm, hterminal⟩

/-- `m` is a manifest of an attempt of the job. -/
structure AttemptManifest.Of (m : AttemptManifest) (jobId : JobId) (w : World) : Prop where
  journaled : m ∈ w.attempts m.attemptId
  jobId : m.jobId = jobId

theorem AttemptManifest.Of.gains {m : AttemptManifest} {jobId : JobId} {w w' : World}
    (h : m.Of jobId w) (hw : w.Gains w') : m.Of jobId w' :=
  ⟨hw.attempts _ m h.journaled, h.jobId⟩

/-! ### The moves -/

/-- The patches committed over `item`, each with what was checked before. -/
inductive QueueMove (w : World) (item : QueueItem) : QueuePatch → Prop
  /-- `dispatchAvailable` takes the item up. -/
  | dispatch (operation : Uuid) : item.status = .queued → QueueMove w item
      { status := some .dispatching
        dispatchOperationId := some (some operation)
        attemptId := some none
        message := some none }
  /-- A failed dependency, a rejected lineage, or a recovery that must not repeat the work. -/
  | setAside (message : String) : item.status.isTerminal = false → QueueMove w item
      { status := some .needsInput, message := some (some message) }
  /-- The attempt reserved for the operation of the item is bound to it. -/
  | bind (m : AttemptManifest) (message : Option (Option String)) : item.status = .dispatching →
      m.Of item.jobId w → m.dispatchOperationId = item.dispatchOperationId → QueueMove w item
        { status := some .running, attemptId := some (some m.attemptId), message := message }
  /-- Recovery finds that nothing was reserved for the operation. -/
  | withdraw (message : String) : item.status = .dispatching → QueueMove w item
      { status := some .queued
        dispatchOperationId := some none
        attemptId := some none
        message := some (some message) }
  /-- `finishItem`. -/
  | finish (m : AttemptManifest) (cleanupStatus : AttemptCleanupStatus) (finishedAt : Timestamp) :
      m.Of item.jobId w → (m.evidence cleanupStatus).queueStatus ∈ item.status.allowed →
        QueueMove w item (projectQueueCompletion (m.evidence cleanupStatus) finishedAt)
  /-- The error handler of `executeItem`. -/
  | fail (message : String) : .failed ∈ item.status.allowed → QueueMove w item
      { status := some .failed, message := some (some message) }
  /-- `cancel` of an item in execution. -/
  | requestCancel (message : String) : item.status = .running → QueueMove w item
      { status := some .cancelling, message := some (some message) }
  /-- `cancel` of an item whose attempt was closed before it was launched. -/
  | cancelUnlaunched (attemptId : AttemptId) (message : String) : item.status = .cancelling →
      item.attemptId = some attemptId → w.Ended attemptId → QueueMove w item
        { status := some .cancelled, message := some (some message) }
  /-- `cancel` of an item that is not bound to an attempt. -/
  | cancel (message : String) : item.status = .queued ∨ item.status = .dispatching →
      QueueMove w item { status := some .cancelled, message := some (some message) }
  /-- `retry`. -/
  | retry : item.status.isTerminal = true → (∀ id, item.attemptId = some id → w.Ended id) →
      QueueMove w item
        { status := some .queued
          dispatchOperationId := some none
          attemptId := some none
          completion := some none
          message := some none }
  /-- Recovery sends the job back to the queue, within the budget of its contract. -/
  | requeue (attemptId : AttemptId) (contract : JobContract) : item.status = .running →
      item.attemptId = some attemptId → w.Ended attemptId →
      w.contract? item.jobId = some contract →
      item.automaticRetryCount < contract.resources.maxAutomaticRetries →
        QueueMove w item (Dispatcher.requeuePatch item attemptId)
  /-- Recovery ends a cancellation. -/
  | cancelRecovered (attemptId : AttemptId) : item.status = .cancelling →
      item.attemptId = some attemptId → w.Ended attemptId →
        QueueMove w item (Dispatcher.requeuePatch item attemptId)
  /-- The owner's reset of a dispatch that led nowhere. -/
  | reset : item.status = .queued ∨ item.status = .dispatching →
      QueueMove w item Reconciler.resetPatch
  /-- The owner's quarantine. -/
  | quarantine : QueueMove w item Reconciler.quarantinePatch
  /-- The owner restores the binding. -/
  | rebind (m : AttemptManifest) : item.status = .dispatching → m.Of item.jobId w →
      m.dispatchOperationId = item.dispatchOperationId →
        QueueMove w item (Reconciler.bindPatch item m)
  /-- The owner's synchronization with an attempt that has ended. -/
  | synchronize (m : AttemptManifest) (cleanupStatus : AttemptCleanupStatus)
      (finishedAt : Timestamp) : m.Of item.jobId w → m.status.isTerminal = true →
        QueueMove w item (projectQueueCompletion (m.evidence cleanupStatus) finishedAt)

section Moves

variable {w w' : World} {item : QueueItem} {patch : QueuePatch}

/-- What was checked of the world stays true. -/
theorem QueueMove.gains (h : QueueMove w item patch) (hw : w.Gains w') :
    QueueMove w' item patch := by
  cases h with
  | dispatch operation hs => exact .dispatch operation hs
  | setAside message hs => exact .setAside message hs
  | bind m message hs hm hop => exact .bind m message hs (hm.gains hw) hop
  | withdraw message hs => exact .withdraw message hs
  | finish m c now hm hs => exact .finish m c now (hm.gains hw) hs
  | fail message hs => exact .fail message hs
  | requestCancel message hs => exact .requestCancel message hs
  | cancelUnlaunched id message hs hid hended =>
    exact .cancelUnlaunched id message hs hid (hended.gains hw)
  | cancel message hs => exact .cancel message hs
  | retry hs hended => exact .retry hs fun id hid ↦ (hended id hid).gains hw
  | requeue id contract hs hid hended hc hlt =>
    exact .requeue id contract hs hid (hended.gains hw) (hw.contracts _ _ hc) hlt
  | cancelRecovered id hs hid hended => exact .cancelRecovered id hs hid (hended.gains hw)
  | reset hs => exact .reset hs
  | quarantine => exact .quarantine
  | rebind m hs hm hop => exact .rebind m hs (hm.gains hw) hop
  | synchronize m c now hm hs => exact .synchronize m c now (hm.gains hw) hs

end Moves

/-! ### Items whose fields fit together -/

/-- The completion is the projection of a manifest, and so is the status of the item. -/
def QueueItem.ClosedBy (item : QueueItem) (completion : QueueCompletion) (m : AttemptManifest) :
    Prop :=
  ∃ cleanupStatus, completion = (m.evidence cleanupStatus).completion completion.finishedAt ∧
    item.status = (m.evidence cleanupStatus).queueStatus

/-- The fields of an item fit together, and the attempts it names are attempts of its job. -/
structure QueueItem.Accounted (w : World) (item : QueueItem) : Prop where
  /-- A queued item shows nothing of earlier dispatches. -/
  queued : item.status = .queued →
    item.dispatchOperationId = none ∧ item.attemptId = none ∧ item.completion = none
  /-- A dispatching item has an operation and no attempt yet. -/
  dispatching : item.status = .dispatching →
    item.dispatchOperationId.isSome ∧ item.attemptId = none ∧ item.completion = none
  /-- An active item is bound to an attempt of its job and of its operation. -/
  active : item.status.isActive = true → item.completion = none ∧ ∃ (m : AttemptManifest) (operation : Uuid),
    m.Of item.jobId w ∧ item.attemptId = some m.attemptId ∧
      item.dispatchOperationId = some operation ∧ m.dispatchOperationId = some operation
  /-- Whatever attempt an item names is one of its job. -/
  attempt : ∀ id, item.attemptId = some id → ∃ m : AttemptManifest, m.Of item.jobId w ∧ m.attemptId = id
  /-- A completion is the projection of a manifest of the attempt the item names. -/
  closed : ∀ completion, item.completion = some completion → ∃ m : AttemptManifest,
    m.Of item.jobId w ∧ item.attemptId = some m.attemptId ∧ item.ClosedBy completion m
  completed : item.status = .completed → item.completion.isSome

namespace QueueItem.Accounted

variable {w w' : World} {item : QueueItem} {patch : QueuePatch} {now : Timestamp}

theorem gains (h : item.Accounted w) (hw : w.Gains w') : item.Accounted w' where
  queued := h.queued
  dispatching := h.dispatching
  active hs := by
    obtain ⟨hnone, m, operation, hm, hrest⟩ := h.active hs
    exact ⟨hnone, m, operation, hm.gains hw, hrest⟩
  attempt id hid := by
    obtain ⟨m, hm, hrest⟩ := h.attempt id hid
    exact ⟨m, hm.gains hw, hrest⟩
  closed completion hc := by
    obtain ⟨m, hm, hrest⟩ := h.closed completion hc
    exact ⟨m, hm.gains hw, hrest⟩
  completed := h.completed

/-- An item that shows a completion has ended. -/
theorem isTerminal_of_completion (h : item.Accounted w) (hc : item.completion ≠ none) :
    item.status.isTerminal = true := by
  obtain ⟨completion, hcompletion⟩ := Option.ne_none_iff_exists'.1 hc
  obtain ⟨m, -, -, cleanupStatus, -, hs⟩ := h.closed completion hcompletion
  rw [hs]
  exact AttemptCompletionEvidence.queueStatus_isTerminal

theorem completion_eq_none (h : item.Accounted w) (hs : item.status.isTerminal = false) :
    item.completion = none := by
  by_contra hc
  exact absurd (h.isTerminal_of_completion hc) (by simp [hs])

/-- An item that is not bound and shows nothing. -/
theorem of_unbound (hop : item.status = .dispatching → item.dispatchOperationId.isSome)
    (hqueued : item.status = .queued → item.dispatchOperationId = none)
    (hactive : item.status.isActive = false) (hcompleted : item.status ≠ .completed)
    (hid : item.attemptId = none) (hc : item.completion = none) : item.Accounted w where
  queued hs := ⟨hqueued hs, hid, hc⟩
  dispatching hs := ⟨hop hs, hid, hc⟩
  active hs := absurd hs (by simp [hactive])
  attempt id h := absurd (hid.symm.trans h) (by simp)
  closed completion h := absurd (hc.symm.trans h) (by simp)
  completed hs := absurd hs hcompleted

/-- An item that ended without a completion, but not as completed. -/
theorem of_ended (hs : item.status = .needsInput ∨ item.status = .failed ∨
      item.status = .cancelled) (hc : item.completion = none)
    (hid : ∀ id, item.attemptId = some id → ∃ m : AttemptManifest, m.Of item.jobId w ∧ m.attemptId = id) :
    item.Accounted w where
  queued h := absurd h (by rcases hs with hs | hs | hs <;> simp [hs])
  dispatching h := absurd h (by rcases hs with hs | hs | hs <;> simp [hs])
  active h := absurd h (by rcases hs with hs | hs | hs <;> simp [hs, QueueItemStatus.isActive])
  attempt := hid
  closed completion h := absurd (hc.symm.trans h) (by simp)
  completed h := absurd h (by rcases hs with hs | hs | hs <;> simp [hs])

/-- An item closed by the projection of a manifest of its job. -/
theorem of_projected {m : AttemptManifest} {cleanupStatus : AttemptCleanupStatus}
    {finishedAt : Timestamp} (hm : m.Of item.jobId w) :
    (item.merge (projectQueueCompletion (m.evidence cleanupStatus) finishedAt) now).Accounted w := by
  have hterminal : (m.evidence cleanupStatus).queueStatus.isTerminal = true :=
    AttemptCompletionEvidence.queueStatus_isTerminal
  refine ⟨fun h ↦ ?_, fun h ↦ ?_, fun h ↦ ?_, fun id h ↦ ?_, fun completion h ↦ ?_, fun _ ↦ rfl⟩
  · rw [show (m.evidence cleanupStatus).queueStatus = .queued from h] at hterminal
    exact absurd hterminal (by decide)
  · rw [show (m.evidence cleanupStatus).queueStatus = .dispatching from h] at hterminal
    exact absurd hterminal (by decide)
  · have hactive : (m.evidence cleanupStatus).queueStatus.isActive = true := h
    revert hactive hterminal
    cases (m.evidence cleanupStatus).queueStatus <;> simp [QueueItemStatus.isActive,
      QueueItemStatus.isTerminal]
  · exact ⟨m, hm, Option.some.inj h⟩
  · obtain rfl := Option.some.inj h
    exact ⟨m, hm, rfl, cleanupStatus, rfl, rfl⟩

/-- An item that is active and bound to an attempt of its job and operation. -/
theorem of_bound {m : AttemptManifest} {operation : Uuid} (hs : item.status.isActive = true)
    (hm : m.Of item.jobId w) (hid : item.attemptId = some m.attemptId)
    (hop : item.dispatchOperationId = some operation)
    (hmop : m.dispatchOperationId = some operation) (hc : item.completion = none) :
    item.Accounted w where
  queued h := absurd hs (by simp [h, QueueItemStatus.isActive])
  dispatching h := absurd hs (by simp [h, QueueItemStatus.isActive])
  active _ := ⟨hc, m, operation, hm, hid, hop, hmop⟩
  attempt id h := ⟨m, hm, Option.some.inj (hid.symm.trans h)⟩
  closed completion h := absurd (hc.symm.trans h) (by simp)
  completed h := absurd hs (by simp [h, QueueItemStatus.isActive])

/-- A new item. -/
theorem created (w : World) (jobId : JobId) (options : QueueOptions) :
    (createQueueItem jobId options now).Accounted w :=
  of_unbound (fun _ ↦ by contradiction) (fun _ ↦ rfl) rfl (by simp [createQueueItem]) rfl rfl

/-- **A move leaves the fields of the item fitting together.** -/
theorem move (h : item.Accounted w) (hmove : QueueMove w item patch) :
    (item.merge patch now).Accounted w := by
  cases hmove with
  | dispatch operation hs =>
    exact of_unbound (fun _ ↦ rfl) (fun h ↦ by contradiction) rfl (by simp) rfl (h.queued hs).2.2
  | setAside message hs => exact of_ended (.inl rfl) (h.completion_eq_none hs) h.attempt
  | bind m message hs hm hop =>
    obtain ⟨hsome, -, hc⟩ := h.dispatching hs
    obtain ⟨operation, heq⟩ := Option.isSome_iff_exists.1 hsome
    exact of_bound rfl hm rfl heq (hop.trans heq) hc
  | withdraw message hs =>
    exact of_unbound (fun h ↦ by contradiction) (fun _ ↦ rfl) rfl (by simp) rfl
      (h.dispatching hs).2.2
  | finish m c finishedAt hm _ => exact of_projected hm
  | fail message hs =>
    -- an item that failed before keeps the completion it shows
    by_cases hc : item.completion = none
    · exact of_ended (.inr (.inl rfl)) hc h.attempt
    · have hfailed : item.status = .failed := by
        have hterminal := h.isTerminal_of_completion hc
        revert hterminal hs
        cases item.status <;> decide
      refine ⟨fun h ↦ by contradiction, fun h ↦ by contradiction, fun h ↦ by contradiction,
        h.attempt, fun completion hcompletion ↦ ?_, fun h ↦ by contradiction⟩
      obtain ⟨m, hm, hid, c, heq, hstatus⟩ := h.closed completion hcompletion
      exact ⟨m, hm, hid, c, heq, hfailed.symm.trans hstatus⟩
  | requestCancel message hs =>
    obtain ⟨hc, m, operation, hm, hid, hop, hmop⟩ := h.active (by rw [hs]; rfl)
    exact of_bound rfl hm hid hop hmop hc
  | cancelUnlaunched id message hs _ _ =>
    exact of_ended (.inr (.inr rfl)) (h.completion_eq_none (by rw [hs]; rfl)) h.attempt
  | cancel message hs =>
    refine of_ended (.inr (.inr rfl)) (h.completion_eq_none ?_) h.attempt
    rcases hs with hs | hs <;> (rw [hs]; rfl)
  | retry _ _ => exact of_unbound (fun h ↦ by contradiction) (fun _ ↦ rfl) rfl (by simp) rfl rfl
  | requeue id contract hs _ _ _ _ =>
    rw [Dispatcher.requeuePatch, if_neg (by simp [hs])]
    exact of_unbound (fun h ↦ by contradiction) (fun _ ↦ rfl) rfl (by simp) rfl rfl
  | cancelRecovered id hs _ _ =>
    rw [Dispatcher.requeuePatch, if_pos hs]
    exact of_ended (.inr (.inr rfl)) rfl h.attempt
  | reset _ =>
    exact of_unbound (fun h ↦ by contradiction) (fun _ ↦ rfl) rfl
      (by simp [Reconciler.resetPatch]) rfl rfl
  | quarantine =>
    exact of_ended (.inl rfl) rfl fun id hid ↦ by contradiction
  | rebind m hs hm hop =>
    obtain ⟨hsome, -, -⟩ := h.dispatching hs
    obtain ⟨operation, heq⟩ := Option.isSome_iff_exists.1 hsome
    exact of_bound rfl hm rfl heq (hop.trans heq) rfl
  | synchronize m c finishedAt hm _ => exact of_projected hm

end QueueItem.Accounted

end CodeConductor
