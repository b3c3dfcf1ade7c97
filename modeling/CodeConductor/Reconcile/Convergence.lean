import CodeConductor.Reconcile.Findings
import Mathlib.Algebra.Order.Ring.Nat
import Mathlib.Algebra.Order.BigOperators.Group.List

/-!
# Repairs converge

An owner who follows the reports of an inspection repairs one record at a time, and each report is
made anew. Starting from any records at all, this comes to an end. `Records.disorder` counts what is
wrong: three for an item that is dispatching, two for an active one, one for any other item that does
not show what the records say of it, and one for each attempt that has not ended. Every action that
is offered is accepted by the store, does what it was offered for, and leaves less disorder; and
where nothing more can be done, nothing is offered and every record is `settled`.

A recovery is taken to have closed its attempt; one that could not is offered again.
-/

namespace CodeConductor.Reconciler

/-! ### Records and their repair -/

/-- The records an inspection compares. -/
structure Records where
  items : List QueueItem
  attempts : List AttemptManifest
  cleanups : List (AttemptId × AttemptCleanupRecord)
  items_nodup : (items.map QueueItem.jobId).Nodup
  attempts_nodup : (attempts.map AttemptManifest.attemptId).Nodup
  parsed : ∀ m ∈ attempts, m.parse = .ok m

/-- What an action on an item commits: over which snapshot, which patch, and as what. -/
structure QueueCommit where
  item : QueueItem
  patch : QueuePatch
  kind : QueueReconciliationKind

/-- The commit `executeRuntimeAction` makes for an action on an item. -/
def queueCommit (finishedAt : Timestamp) : ReconciliationProposal → Option QueueCommit
  | .resetAbandonedQueueItem item => some ⟨item, resetPatch, .resetAbandonedQueueItem⟩
  | .quarantineQueueItem item => some ⟨item, quarantinePatch, .quarantineQueueItem⟩
  | .bindQueueToAttempt item attempt => some ⟨item, bindPatch item attempt, .bindQueueToAttempt⟩
  | .synchronizeQueueFromTerminalAttempt item attempt cleanup =>
    some ⟨item, projectQueueCompletion (attempt.evidence cleanup.status) finishedAt,
      .synchronizeQueueFromTerminalAttempt⟩
  | .recoverInterruptedAttempt .. => none

/-- The state of an action once its item is another. -/
def withItem (updated : QueueItem) : ReconciliationProposal → ReconciliationProposal
  | .resetAbandonedQueueItem _ => .resetAbandonedQueueItem updated
  | .quarantineQueueItem _ => .quarantineQueueItem updated
  | .bindQueueToAttempt _ attempt => .bindQueueToAttempt updated attempt
  | .synchronizeQueueFromTerminalAttempt _ attempt cleanup =>
    .synchronizeQueueFromTerminalAttempt updated attempt cleanup
  | .recoverInterruptedAttempt attempt cleanup => .recoverInterruptedAttempt attempt cleanup

/-- The snapshot a commit publishes, or the error it throws. -/
def QueueCommit.updated (c : QueueCommit) (now : Timestamp) : Except RuntimeError QueueItem :=
  c.item.updated (assertQueueReconciliationTransition c.kind) c.patch now

namespace Records

variable (r : Records)

/-- The actions an inspection of the records offers. -/
def offers : List ReconciliationProposal :=
  inspectQueueAttemptRelationships r.items r.attempts r.cleanups

/-- The records with a new snapshot of an item. -/
def setItem (updated : QueueItem) : Records :=
  { r with
    items := r.items.map fun item ↦ if item.jobId = updated.jobId then updated else item
    items_nodup := by
      have hids : (r.items.map fun item ↦ if item.jobId = updated.jobId then updated else item).map
          QueueItem.jobId = r.items.map QueueItem.jobId := by
        rw [List.map_map]
        refine List.map_congr_left fun item _ ↦ ?_
        show (if item.jobId = updated.jobId then updated else item).jobId = item.jobId
        split
        · rename_i h
          exact h.symm
        · rfl
      rw [hids]
      exact r.items_nodup }

/-- The records with a new manifest of an attempt, and other cleanup records. -/
def setAttempt (m : AttemptManifest) (hm : m.parse = .ok m)
    (cleanups : List (AttemptId × AttemptCleanupRecord)) : Records :=
  { r with
    cleanups := cleanups
    attempts := r.attempts.map fun attempt ↦ if attempt.attemptId = m.attemptId then m else attempt
    attempts_nodup := by
      have hids : (r.attempts.map fun attempt ↦
          if attempt.attemptId = m.attemptId then m else attempt).map AttemptManifest.attemptId =
            r.attempts.map AttemptManifest.attemptId := by
        rw [List.map_map]
        refine List.map_congr_left fun attempt _ ↦ ?_
        show (if attempt.attemptId = m.attemptId then m else attempt).attemptId = attempt.attemptId
        split
        · rename_i h
          exact h.symm
        · rfl
      rw [hids]
      exact r.attempts_nodup
    parsed := by
      intro attempt hattempt
      obtain ⟨old, hold, rfl⟩ := List.mem_map.1 hattempt
      show (if old.attemptId = m.attemptId then m else old).parse = .ok _
      split
      · exact hm
      · exact r.parsed old hold }

/-- The cleanup record of every attempt can be read. -/
def Readable : Prop := ∀ m ∈ r.attempts, (r.cleanups.lookup m.attemptId).isSome

/-- One action that was offered is carried out. -/
inductive Repairs : Records → Prop
  | commit {proposal : ReconciliationProposal} {finishedAt now : Timestamp} {c : QueueCommit}
      {updated : QueueItem} : proposal ∈ r.offers → queueCommit finishedAt proposal = some c →
      c.updated now = .ok updated → Repairs (r.setItem updated)
  | recover {m m' : AttemptManifest} {record : AttemptCleanupRecord} (hm : m'.parse = .ok m')
      {cleanups : List (AttemptId × AttemptCleanupRecord)} :
      .recoverInterruptedAttempt m record ∈ r.offers → m'.attemptId = m.attemptId →
      m'.status.isTerminal = true → (cleanups.lookup m.attemptId).isSome →
      (∀ id, id ≠ m.attemptId → cleanups.lookup id = r.cleanups.lookup id) →
        Repairs (r.setAttempt m' hm cleanups)

/-- So many repairs, one after the other. -/
inductive Repaired (r : Records) : ℕ → Records → Prop
  | none : Repaired r 0 r
  | next {k : ℕ} {r' r'' : Records} : Repaired r k r' → r'.Repairs r'' → Repaired r (k + 1) r''

/-- The item shows what the records say of it: nothing while it waits, and how its attempt ended when
it has one. -/
def settled (item : QueueItem) : Bool :=
  if item.status = .queued then
    item.dispatchOperationId.isNone && item.attemptId.isNone && item.completion.isNone
  else if item.status.isTerminal then
    match item.attemptId with
    | none => item.status ≠ .completed && item.completion.isNone
    | some attemptId => r.attempts.any fun m ↦
        m.attemptId = attemptId && m.jobId = item.jobId &&
          item.dispatchOperationId = m.dispatchOperationId && m.status.isTerminal &&
          (r.cleanups.lookup m.attemptId).any fun record ↦ queueMatchesAttempt item m record
  else false

/-- What is wrong with an item. -/
def disorderOf (item : QueueItem) : ℕ :=
  if item.status = .dispatching then 3
  else if item.status.isActive then 2
  else if r.settled item then 0
  else 1

/-- What is wrong with the records. -/
def disorder : ℕ :=
  (r.items.map r.disorderOf).sum +
    (r.attempts.map fun m ↦ if m.status.isTerminal then 0 else 1).sum

/-- Nothing is wrong with the records. -/
structure Settled : Prop where
  items : ∀ item ∈ r.items, r.settled item = true
  attempts : ∀ m ∈ r.attempts, m.status.isTerminal = true

/-! ### Settled items -/

section Settled

variable {r} {item : QueueItem} {m : AttemptManifest} {proposal : ReconciliationProposal}

theorem eq_of_attemptId {m m' : AttemptManifest} (hm : m ∈ r.attempts) (hm' : m' ∈ r.attempts)
    (h : m.attemptId = m'.attemptId) : m = m' :=
  List.inj_on_of_nodup_map r.attempts_nodup hm hm' h

theorem settled_waiting (hs : item.status = .queued) (hop : item.dispatchOperationId = none)
    (hid : item.attemptId = none) (hc : item.completion = none) : r.settled item = true := by
  simp [settled, hs, hop, hid, hc]

theorem settled_unbound (hs : item.status.isTerminal = true) (hcompleted : item.status ≠ .completed)
    (hid : item.attemptId = none) (hc : item.completion = none) : r.settled item = true := by
  have hqueued : item.status ≠ .queued := fun hq ↦
    absurd hs (by simp [hq, QueueItemStatus.isTerminal])
  simp [settled, hqueued, hs, hcompleted, hid, hc]

/-- An item that has ended and names an attempt is settled exactly when it shows how that ended. -/
theorem settled_bound (hs : item.status.isTerminal = true) (hm : m ∈ r.attempts)
    (hid : item.attemptId = some m.attemptId) :
    r.settled item = true ↔ m.jobId = item.jobId ∧
      item.dispatchOperationId = m.dispatchOperationId ∧ m.status.isTerminal = true ∧
      ∃ record, r.cleanups.lookup m.attemptId = some record ∧
        queueMatchesAttempt item m record = true := by
  have hqueued : item.status ≠ .queued := fun hq ↦
    absurd hs (by simp [hq, QueueItemStatus.isTerminal])
  simp only [settled, if_neg hqueued, hs, if_true, hid, List.any_eq_true, Bool.and_eq_true,
    decide_eq_true_eq, Option.any_eq_true_iff_get]
  constructor
  · rintro ⟨m', hm', ⟨⟨⟨hname, hjob⟩, hop⟩, hterminal⟩, hsome, hmatch⟩
    obtain rfl := eq_of_attemptId hm' hm hname
    exact ⟨hjob, hop, hterminal, _, (Option.some_get hsome).symm, hmatch⟩
  · rintro ⟨hjob, hop, hterminal, record, hrecord, hmatch⟩
    refine ⟨m, hm, ⟨⟨⟨rfl, hjob⟩, hop⟩, hterminal⟩, by simp [hrecord], ?_⟩
    simpa [hrecord] using hmatch

theorem settled_of_live (hqueued : item.status ≠ .queued) (hs : item.status.isTerminal = false) :
    r.settled item = false := by
  simp [settled, hqueued, hs]

/-- Settled items have nothing to count. -/
theorem disorderOf_eq_zero : r.disorderOf item = 0 ↔ r.settled item = true := by
  rw [disorderOf]
  split
  · rename_i hs
    simp [settled, hs, QueueItemStatus.isTerminal]
  split
  · rename_i hs
    have hlive : item.status ≠ .queued ∧ item.status.isTerminal = false := by
      revert hs
      cases item.status <;> simp [QueueItemStatus.isActive, QueueItemStatus.isTerminal]
    simp [settled_of_live hlive.1 hlive.2]
  split
  · rename_i hs
    simp [hs]
  · rename_i hs
    simp [hs]

end Settled

/-! ### What a commit does -/

section Commits

variable {r} {item updated : QueueItem} {proposal : ReconciliationProposal} {c : QueueCommit}
  {finishedAt now : Timestamp}

/-- An action on an item is offered only where something is wrong with it. -/
theorem not_settled_of_finding (hitem : queueCommit finishedAt proposal ≠ none)
    (h : Finding r.attempts r.cleanups item proposal) : r.settled item = false := by
  -- an item that names an attempt: what it would have to show
  have hbound {m : AttemptManifest} (hm : m ∈ r.attempts) (hid : item.attemptId = some m.attemptId)
      (hwrong : item.status.isTerminal = true → ¬(m.jobId = item.jobId ∧
        item.dispatchOperationId = m.dispatchOperationId ∧ m.status.isTerminal = true ∧
        ∃ record, r.cleanups.lookup m.attemptId = some record ∧
          queueMatchesAttempt item m record = true)) : r.settled item = false := by
    by_cases hs : item.status.isTerminal = true
    · exact Bool.eq_false_iff.2 fun hsettled ↦ hwrong hs ((settled_bound hs hm hid).1 hsettled)
    · simp [settled, hs, hid]
  cases h with
  | stale hs hevidence =>
    rcases hevidence with h | h | h <;> simp [settled, hs, ← Option.not_isSome, h]
  | abandoned operation hs _ _ _ => exact settled_of_live (by simp [hs]) (by rw [hs]; rfl)
  | unidentified hs _ => exact settled_of_live (by simp [hs]) (by rw [hs]; rfl)
  | ambiguous operation first second rest hs _ _ _ =>
    exact settled_of_live (by simp [hs]) (by rw [hs]; rfl)
  | unbound hs _ =>
    refine settled_of_live (fun hq ↦ absurd hs (by simp [hq, QueueItemStatus.isActive])) ?_
    revert hs
    cases item.status <;> simp [QueueItemStatus.isActive, QueueItemStatus.isTerminal]
  | unevidenced hid hevidence =>
    rcases hevidence with h | h
    · simp [settled, h, hid, QueueItemStatus.isTerminal]
    · simp [settled, hid, ← Option.not_isSome, h]
  | missing attemptId hid habsent =>
    by_cases hs : item.status.isTerminal = true
    · simp only [settled, hid, Option.isNone_some, Bool.and_false, Bool.false_and, hs, if_true]
      split
      · rfl
      · rw [List.any_eq_false]
        intro m hm
        simp [habsent m hm]
    · simp [settled, hs, hid]
  | foreign m hm hid hjob => exact hbound hm hid fun _ h ↦ hjob h.1
  | detached m hm hid _ hother => exact hbound hm hid fun _ h ↦ hother h.2.1
  | bind m hs _ _ _ => exact settled_of_live (by simp [hs]) (by rw [hs]; rfl)
  | synchronize m record hqueued hm _ hrecord hdiffers =>
    rcases hm.single with hid | ⟨-, hs, -⟩
    · refine hbound hm.mem hid fun hs h ↦ ?_
      obtain ⟨-, -, -, record', hrecord', hmatch⟩ := h
      obtain rfl := Option.some.inj (hrecord.symm.trans hrecord')
      exact absurd hmatch (by simp [hdiffers hs])
    · exact settled_of_live hqueued (by rw [hs]; rfl)
  | recover h =>
    obtain ⟨m, record, rfl, -⟩ := h
    exact absurd rfl hitem

/-- A commit whose message is not empty and whose action allows it is accepted. -/
theorem updated_eq_ok (hmessage : (c.item.merge c.patch now).message ≠ some "")
    (hallowed : assertQueueReconciliationTransition c.kind c.item (c.item.merge c.patch now) =
      .ok ()) : c.updated now = .ok (c.item.merge c.patch now) := by
  have hparse : (c.item.merge c.patch now).parse = .ok (c.item.merge c.patch now) :=
    if_neg hmessage
  show ((c.item.merge c.patch now).parse >>= fun updated ↦ do
    assertQueueReconciliationTransition c.kind c.item updated
    return updated) = _
  rw [hparse]
  show (assertQueueReconciliationTransition c.kind c.item (c.item.merge c.patch now) >>= fun _ ↦
    .ok (c.item.merge c.patch now)) = _
  rw [hallowed]
  rfl

/-- The message of a projection is not empty when the manifest passed its schema. -/
theorem queueMessage_ne_empty {m : AttemptManifest} (hm : m.parse = .ok m)
    {cleanupStatus : AttemptCleanupStatus} : (m.evidence cleanupStatus).queueMessage ≠ some "" := by
  intro hempty
  rw [AttemptCompletionEvidence.queueMessage] at hempty
  split at hempty
  · rename_i failure hfailure
    have hmessage : failure.message = "" := Option.some.inj hempty
    have hf : m.failure = some failure := hfailure
    rw [AttemptManifest.parse, if_pos (by simp [hf, hmessage])] at hm
    exact absurd hm (by simp)
  · split at hempty
    · simp at hempty
    · split at hempty <;> exact absurd hempty (by decide)

/-- What carrying out an action on `item` comes to. -/
structure Carried (r : Records) (proposal : ReconciliationProposal) (c : QueueCommit)
    (now : Timestamp) : Prop where
  accepted : c.updated now = .ok (c.item.merge c.patch now)
  done : runtimeActionPostcondition proposal (withItem (c.item.merge c.patch now) proposal) = true
  less : r.disorderOf (c.item.merge c.patch now) < r.disorderOf c.item

/-- **An action on an item is accepted, does what it was offered for, and leaves less disorder.** -/
theorem carried_of_finding (now : Timestamp) (hc : queueCommit finishedAt proposal = some c)
    (h : Finding r.attempts r.cleanups item proposal) : c.item = item ∧ r.Carried proposal c now := by
  have hsome : queueCommit finishedAt proposal ≠ none := by simp [hc]
  have hwrong : r.disorderOf item ≠ 0 := fun hzero ↦
    absurd (disorderOf_eq_zero.1 hzero) (by simp [not_settled_of_finding hsome h])
  have hsettles {updated : QueueItem} (hupdated : r.settled updated = true) :
      r.disorderOf updated < r.disorderOf item := by
    rw [disorderOf_eq_zero.2 hupdated]
    omega
  -- the three shapes a commit has besides the binding
  have hreset (hs : item.status = .queued ∨ item.status = .dispatching)
      (hc : queueCommit finishedAt (.resetAbandonedQueueItem item) = some c) :
      c.item = item ∧ r.Carried (.resetAbandonedQueueItem item) c now := by
    obtain rfl := Option.some.inj hc
    refine ⟨rfl, updated_eq_ok (by simp [QueueItem.merge, resetPatch]) ?_, rfl,
      hsettles (settled_waiting rfl rfl rfl rfl)⟩
    rcases hs with hs | hs <;>
      simp [assertQueueReconciliationTransition, hs, resetPatch]
  have hquarantine (hc : queueCommit finishedAt (.quarantineQueueItem item) = some c) :
      c.item = item ∧ r.Carried (.quarantineQueueItem item) c now := by
    obtain rfl := Option.some.inj hc
    refine ⟨rfl, updated_eq_ok (by simp [QueueItem.merge, quarantinePatch]) ?_, rfl,
      hsettles (settled_unbound rfl (by simp [quarantinePatch]) rfl rfl)⟩
    simp [assertQueueReconciliationTransition, quarantinePatch]
  cases h with
  | stale hs _ => exact hreset (.inl hs) hc
  | abandoned operation hs _ _ _ => exact hreset (.inr hs) hc
  | bind m hs hop hm _ =>
    obtain rfl := Option.some.inj hc
    refine ⟨rfl, updated_eq_ok (by simp [QueueItem.merge, bindPatch]) ?_, ?_, ?_⟩
    · simp [assertQueueReconciliationTransition, bindPatch, hs, hop]
    · simp [runtimeActionPostcondition, withItem, bindPatch]
    · show r.disorderOf (item.merge (bindPatch item m) now) < r.disorderOf item
      simp [disorderOf, bindPatch, hs, QueueItemStatus.isActive]
  | synchronize m record _ hm hterminal hrecord _ =>
    obtain rfl := Option.some.inj hc
    have hends : (m.evidence record.status).queueStatus.isTerminal = true :=
      AttemptCompletionEvidence.queueStatus_isTerminal
    let updated := item.merge (projectQueueCompletion (m.evidence record.status) finishedAt) now
    have hmatch : queueMatchesAttempt updated m record = true := by
      simp [queueMatchesAttempt, updated, projectQueueCompletion,
        AttemptCompletionEvidence.completion]
    refine ⟨rfl, updated_eq_ok (queueMessage_ne_empty (r.parsed m hm.mem)) ?_, ?_, hsettles ?_⟩
    · simp [assertQueueReconciliationTransition, projectQueueCompletion, hends,
        AttemptCompletionEvidence.completion]
    · simp only [runtimeActionPostcondition, withItem, hterminal, Bool.true_and]
      exact hmatch
    · have hbound : updated.attemptId = some m.attemptId := rfl
      refine (settled_bound hends hm.mem hbound).2
        ⟨hm.jobId, hm.operation.symm, hterminal, record, hrecord, hmatch⟩
  | recover h =>
    obtain ⟨m, record, rfl, -⟩ := h
    exact absurd hc (by simp [queueCommit])
  | _ => exact hquarantine hc

end Commits

/-! ### Every repair leaves less disorder -/

section Disorder

variable {r r' r'' : Records} {item updated : QueueItem} {m : AttemptManifest}
  {proposal : ReconciliationProposal}

theorem finding_of_offer (h : proposal ∈ r.offers) :
    (∃ item ∈ r.items, Finding r.attempts r.cleanups item proposal) ∨
      Recoverable r.attempts r.cleanups proposal := finding_of_mem h

/-- A new snapshot of an item counts in its place. -/
theorem disorder_setItem (hitem : item ∈ r.items) (hjob : updated.jobId = item.jobId)
    (hless : r.disorderOf updated < r.disorderOf item) :
    (r.setItem updated).disorder < r.disorder := by
  have hitems : ((r.setItem updated).items.map r.disorderOf).sum < (r.items.map r.disorderOf).sum := by
    show ((r.items.map fun old ↦ if old.jobId = updated.jobId then updated else old).map
      r.disorderOf).sum < _
    rw [List.map_map]
    refine List.sum_lt_sum _ _ (fun old hold ↦ ?_) ⟨item, hitem, ?_⟩
    · show r.disorderOf (if old.jobId = updated.jobId then updated else old) ≤ r.disorderOf old
      split
      · rename_i hsame
        obtain rfl : old = item :=
          List.inj_on_of_nodup_map r.items_nodup hold hitem (hsame.trans hjob)
        exact hless.le
      · exact le_rfl
    · show r.disorderOf (if item.jobId = updated.jobId then updated else item) < r.disorderOf item
      rw [if_pos hjob.symm]
      exact hless
  show ((r.setItem updated).items.map r.disorderOf).sum + _ < _
  exact Nat.add_lt_add_right hitems _

/-- The end of an attempt unsettles no item. -/
theorem settled_setAttempt (hlive : m.status.isTerminal = false) (hm : m ∈ r.attempts)
    {m' : AttemptManifest} (hparsed : m'.parse = .ok m') (hid : m'.attemptId = m.attemptId)
    {cleanups : List (AttemptId × AttemptCleanupRecord)}
    (hothers : ∀ id, id ≠ m.attemptId → cleanups.lookup id = r.cleanups.lookup id)
    (h : r.settled item = true) : (r.setAttempt m' hparsed cleanups).settled item = true := by
  rw [settled] at h
  split at h
  · rename_i hs
    rw [settled, if_pos hs]
    exact h
  rename_i hqueued
  split at h
  · rename_i hs
    split at h
    · rename_i hnone
      rw [settled, if_neg hqueued, if_pos hs, hnone]
      exact h
    · rename_i attemptId hname
      obtain ⟨old, hold, hshown⟩ := List.any_eq_true.1 h
      simp only [Bool.and_eq_true, decide_eq_true_eq] at hshown
      obtain ⟨⟨⟨⟨hnamed, hjob⟩, hop⟩, hterminal⟩, hmatch⟩ := hshown
      -- the attempt the item names has ended, so it is not the one that ends now
      have hne : old.attemptId ≠ m.attemptId := fun heq ↦ by
        obtain rfl := eq_of_attemptId hold hm heq
        exact absurd hterminal (by simp [hlive])
      have hmem : old ∈ (r.setAttempt m' hparsed cleanups).attempts :=
        List.mem_map.2 ⟨old, hold, if_neg fun heq ↦ hne (heq.trans hid)⟩
      obtain ⟨record, hrecord, hmatch⟩ := (Option.any_eq_true ..).1 hmatch
      refine (settled_bound hs hmem (hname.trans (congrArg some hnamed.symm))).2
        ⟨hjob, hop, hterminal, record, (hothers _ hne).trans hrecord, hmatch⟩
  · exact absurd h (by simp)

theorem disorder_setAttempt (hlive : m.status.isTerminal = false) (hm : m ∈ r.attempts)
    {m' : AttemptManifest} (hparsed : m'.parse = .ok m') (hid : m'.attemptId = m.attemptId)
    (hended : m'.status.isTerminal = true) {cleanups : List (AttemptId × AttemptCleanupRecord)}
    (hothers : ∀ id, id ≠ m.attemptId → cleanups.lookup id = r.cleanups.lookup id) :
    (r.setAttempt m' hparsed cleanups).disorder < r.disorder := by
  let after := r.setAttempt m' hparsed cleanups
  let weight := fun attempt : AttemptManifest ↦ if attempt.status.isTerminal then 0 else 1
  have hitems : (r.items.map after.disorderOf).sum ≤ (r.items.map r.disorderOf).sum := by
    refine List.sum_le_sum fun item _ ↦ ?_
    show (if _ then 3 else if _ then 2 else if after.settled item then 0 else 1) ≤
      if _ then 3 else if _ then 2 else if r.settled item then 0 else 1
    by_cases hsettled : r.settled item = true
    · rw [settled_setAttempt hlive hm hparsed hid hothers hsettled, hsettled]
    · rw [if_neg hsettled]
      split
      · exact le_rfl
      split
      · exact le_rfl
      · split <;> omega
  have hattempts : (after.attempts.map weight).sum < (r.attempts.map weight).sum := by
    show ((r.attempts.map fun old ↦ if old.attemptId = m'.attemptId then m' else old).map
      weight).sum < _
    rw [List.map_map]
    refine List.sum_lt_sum _ _ (fun old _ ↦ ?_) ⟨m, hm, ?_⟩
    · show weight (if old.attemptId = m'.attemptId then m' else old) ≤ weight old
      split
      · show (if m'.status.isTerminal then 0 else 1) ≤ weight old
        rw [if_pos hended]
        exact Nat.zero_le _
      · exact le_rfl
    · show weight (if m.attemptId = m'.attemptId then m' else m) < weight m
      rw [if_pos hid.symm]
      show (if m'.status.isTerminal then 0 else 1) < if m.status.isTerminal then 0 else 1
      simp [hended, hlive]
  exact Nat.add_lt_add_of_le_of_lt hitems hattempts

/-- **Every repair leaves less disorder.** -/
theorem Repairs.disorder_lt (h : r.Repairs r') : r'.disorder < r.disorder := by
  cases h with
  | @commit proposal finishedAt now c updated hoffered hc hupdated =>
    rcases finding_of_offer hoffered with ⟨item, hitem, hfinding⟩ | ⟨m, record, rfl, -⟩
    · obtain ⟨rfl, hcarried⟩ := carried_of_finding now hc hfinding
      obtain rfl := Except.ok.inj (hupdated.symm.trans hcarried.accepted)
      exact disorder_setItem hitem rfl hcarried.less
    · exact absurd hc (by simp [queueCommit])
  | @recover m m' record hparsed cleanups hoffered hid hended _ hothers =>
    have hlive : m ∈ r.attempts ∧ m.status.isTerminal = false := by
      rcases finding_of_offer hoffered with ⟨item, -, hfinding⟩ | h
      · cases hfinding with
        | recover h =>
          obtain ⟨m₀, record₀, heq, hm, hlive, -⟩ := h
          obtain ⟨rfl, -⟩ := ReconciliationProposal.recoverInterruptedAttempt.inj heq
          exact ⟨hm, hlive⟩
      · obtain ⟨m₀, record₀, heq, hm, hlive, -⟩ := h
        obtain ⟨rfl, -⟩ := ReconciliationProposal.recoverInterruptedAttempt.inj heq
        exact ⟨hm, hlive⟩
    exact disorder_setAttempt hlive.2 hlive.1 hparsed hid hended hothers

theorem Repaired.disorder_le {k : ℕ} (h : r.Repaired k r') : k + r'.disorder ≤ r.disorder := by
  induction h with
  | none => omega
  | next _ hstep ih =>
    have hless := hstep.disorder_lt
    omega

/-- The cleanup records stay readable. -/
theorem Repairs.readable (h : r.Repairs r') (hreadable : r.Readable) : r'.Readable := by
  cases h with
  | commit _ _ _ => exact hreadable
  | @recover m m' record hparsed cleanups _ hid _ hcleanup hothers =>
    intro attempt hattempt
    obtain ⟨old, hold, rfl⟩ := List.mem_map.1 hattempt
    show (cleanups.lookup (if old.attemptId = m'.attemptId then m' else old).attemptId).isSome
    split
    · rw [hid]
      exact hcleanup
    · rename_i hne
      rw [hothers _ fun heq ↦ hne (heq.trans hid.symm)]
      exact hreadable old hold

theorem Repaired.readable {k : ℕ} (h : r.Repaired k r') (hreadable : r.Readable) :
    r'.Readable := by
  induction h with
  | none => exact hreadable
  | next _ hstep ih => exact hstep.readable ih

end Disorder

/-! ### Where nothing is offered -/

section Rest

variable {r r' : Records} {item : QueueItem} {m : AttemptManifest}
  {cleanup : Option AttemptCleanupRecord}

theorem recoverAction_ne_nil (h : cleanup.isSome) : recoverAction m cleanup ≠ [] := by
  obtain ⟨record, rfl⟩ := Option.isSome_iff_exists.1 h
  simp [recoverAction]

theorem synchronizeAction_ne_nil (h : cleanup.isSome) : synchronizeAction item m cleanup ≠ [] := by
  obtain ⟨record, rfl⟩ := Option.isSome_iff_exists.1 h
  simp [synchronizeAction]

theorem bindAction_ne_nil (h : cleanup.isSome) : bindAction item m cleanup ≠ [] := by
  rw [bindAction]
  split
  · exact synchronizeAction_ne_nil h
  · simp

/-- An item whose attempt and operation agree, and for which nothing is offered, shows how its attempt
ended. -/
theorem settled_of_inspectBound (hreadable : r.Readable) (hm : m ∈ r.attempts)
    (hid : item.attemptId = some m.attemptId) (hjob : m.jobId = item.jobId)
    (hop : item.dispatchOperationId = m.dispatchOperationId) (hqueued : item.status ≠ .queued)
    (h : inspectBound item m (r.cleanups.lookup m.attemptId) = []) : r.settled item = true := by
  have hcleanup := hreadable m hm
  simp only [inspectBound, Bool.and_eq_true, Bool.not_eq_true'] at h
  split at h
  · exact absurd h (bindAction_ne_nil hcleanup)
  rename_i hdispatching
  split at h
  · split at h
    · exact absurd h (synchronizeAction_ne_nil hcleanup)
    · exact absurd h (recoverAction_ne_nil hcleanup)
  rename_i hactive
  have hterminal : item.status.isTerminal = true := by
    revert hqueued hdispatching hactive
    cases item.status <;> simp [QueueItemStatus.isActive, QueueItemStatus.isTerminal]
  split at h
  · exact absurd h (recoverAction_ne_nil hcleanup)
  rename_i hended
  have hended : m.status.isTerminal = true := by simpa [hterminal] using hended
  rw [if_pos ⟨hterminal, hended⟩] at h
  obtain ⟨record, hrecord⟩ := Option.isSome_iff_exists.1 hcleanup
  rw [hrecord] at h
  by_cases hmatch : queueMatchesAttempt item m record = true
  · exact (settled_bound hterminal hm hid).2 ⟨hjob, hop, hended, record, hrecord, hmatch⟩
  · simp only [if_neg hmatch] at h
    exact absurd h (synchronizeAction_ne_nil rfl)

/-- **An item for which nothing is offered is settled.** -/
theorem settled_of_actions_eq_nil (hreadable : r.Readable)
    (h : (inspectItem r.attempts r.cleanups item).actions = []) : r.settled item = true := by
  simp only [inspectItem] at h
  split at h
  · exact absurd h (by simp)
  rename_i hstale
  split at h
  · exact absurd h (by simp)
  rename_i hidentified
  split at h
  · rename_i hid
    split at h
    · exact absurd h (by simp)
    rename_i hactive
    rw [inspectUnbound] at h
    split at h
    · -- a dispatching item: there is an action whatever its operation has
      rename_i operation _ _
      split at h
      · exact absurd h (by simp)
      · rename_i m hm
        have hmem : m ∈ Dispatcher.attemptsOf r.attempts item.jobId operation := by
          rw [hm]
          simp
        exact absurd h (bindAction_ne_nil (hreadable m (List.mem_filter.1 hmem).1))
      · exact absurd h (by simp)
    · rename_i hunbound
      split at h
      · exact absurd h (by simp)
      rename_i hevidence
      push Not at hevidence
      have hc : item.completion = none := by simpa using hevidence.2
      by_cases hqueued : item.status = .queued
      · refine settled_waiting hqueued ?_ hid hc
        by_contra hop
        exact hstale ⟨hqueued, .inl (Option.isSome_iff_ne_none.2 hop)⟩
      · have hdispatching : item.status ≠ .dispatching := fun hs ↦ by
          cases hop : item.dispatchOperationId with
          | none => exact hidentified ⟨hs, hop⟩
          | some operation => exact hunbound operation hs hop
        refine settled_unbound ?_ hevidence.1 hid hc
        revert hqueued hdispatching hactive
        cases item.status <;> simp [QueueItemStatus.isActive, QueueItemStatus.isTerminal]
  · rename_i attemptId hid
    split at h
    · exact absurd h (by simp)
    rename_i m hfind
    have hfound := List.find?_some hfind
    have hname : item.attemptId = some m.attemptId := by
      rw [hid, of_decide_eq_true hfound]
    split at h
    · exact absurd h (by simp)
    rename_i hjob
    split at h
    · exact absurd h (by simp)
    rename_i hop
    refine settled_of_inspectBound hreadable (List.mem_of_find?_eq_some hfind) hname
      (not_not.1 hjob) (not_not.1 hop) (fun hqueued ↦ hstale ⟨hqueued, ?_⟩) h
    exact .inr (.inl (by simp [hid]))

/-- A settled item vouches for attempts that have ended only. -/
theorem terminal_of_referenced (hsettled : r.settled item = true) {attemptId : AttemptId}
    (h : (inspectItem r.attempts r.cleanups item).referenced = some attemptId) :
    ∃ m ∈ r.attempts, m.attemptId = attemptId ∧ m.status.isTerminal = true := by
  have hlive (hs : item.status = .dispatching) : False := by
    rw [settled_of_live (by simp [hs]) (by rw [hs]; rfl)] at hsettled
    exact absurd hsettled (by simp)
  simp only [inspectItem] at h
  split at h
  · exact absurd h (by simp)
  rename_i hstale
  split at h
  · exact absurd h (by simp)
  split at h
  · split at h
    · exact absurd h (by simp)
    rw [inspectUnbound] at h
    split at h
    · rename_i hs _
      exact (hlive hs).elim
    · split at h <;> exact absurd h (by simp)
  · rename_i hid
    split at h
    · exact absurd h (by simp)
    rename_i m hfind
    have hfound := List.find?_some hfind
    have hm := List.mem_of_find?_eq_some hfind
    have hname : item.attemptId = some m.attemptId := by
      rw [hid, of_decide_eq_true hfound]
    split at h
    · exact absurd h (by simp)
    split at h
    · exact absurd h (by simp)
    refine ⟨m, hm, Option.some.inj h, ?_⟩
    have hterminal : item.status.isTerminal = true := by
      by_contra hs
      rw [Bool.not_eq_true] at hs
      refine absurd hsettled ?_
      rw [settled_of_live (fun hqueued ↦ hstale ⟨hqueued, .inr (.inl (by simp [hid]))⟩) hs]
      simp
    exact ((settled_bound hterminal hm hname).1 hsettled).2.2.1

/-- **Nothing is offered exactly when nothing is wrong.** -/
theorem offers_eq_nil_iff (hreadable : r.Readable) : r.offers = [] ↔ r.Settled := by
  constructor
  · intro h
    rw [offers, inspectQueueAttemptRelationships, List.append_eq_nil_iff] at h
    obtain ⟨hitems, hattempts⟩ := h
    rw [List.flatMap_eq_nil_iff] at hitems hattempts
    have hsettled (item : QueueItem) (hitem : item ∈ r.items) : r.settled item = true :=
      settled_of_actions_eq_nil hreadable (hitems _ (List.mem_map_of_mem hitem))
    refine ⟨hsettled, fun m hm ↦ ?_⟩
    by_contra hlive
    rw [Bool.not_eq_true] at hlive
    -- an attempt that is live is vouched for, or its recovery is offered
    by_cases hreferenced : m.attemptId ∈
        (r.items.map (inspectItem r.attempts r.cleanups)).filterMap ItemReport.referenced
    · obtain ⟨report, hreport, hid⟩ := List.mem_filterMap.1 hreferenced
      obtain ⟨item, hitem, rfl⟩ := List.mem_map.1 hreport
      obtain ⟨m', hm', heq, hterminal⟩ := terminal_of_referenced (hsettled item hitem) hid
      obtain rfl := eq_of_attemptId hm' hm heq
      exact absurd hterminal (by simp [hlive])
    · refine recoverAction_ne_nil (hreadable m hm) (hattempts m (List.mem_filter.2 ⟨hm, ?_⟩))
      exact decide_eq_true ⟨hlive, hreferenced⟩
  · intro h
    rw [List.eq_nil_iff_forall_not_mem]
    intro proposal hoffered
    have hrecoverable (h' : Recoverable r.attempts r.cleanups proposal) : False := by
      obtain ⟨m, record, -, hm, hlive, -⟩ := h'
      exact absurd (h.attempts m hm) (by simp [hlive])
    rcases finding_of_offer hoffered with ⟨item, hitem, hfinding⟩ | h'
    · by_cases hc : queueCommit 0 proposal = none
      · cases hfinding with
        | recover h' => exact hrecoverable h'
        | _ => exact absurd hc (by simp [queueCommit])
      · exact absurd (h.items item hitem) (by simp [not_settled_of_finding hc hfinding])
    · exact hrecoverable h'

/-- Where something is offered, something can be done. -/
theorem exists_repair {proposal : ReconciliationProposal} (h : proposal ∈ r.offers) :
    ∃ r', r.Repairs r' := by
  have hrecover {m : AttemptManifest} {record : AttemptCleanupRecord}
      (h : .recoverInterruptedAttempt m record ∈ r.offers) (hm : m ∈ r.attempts)
      (hrecord : r.cleanups.lookup m.attemptId = some record) : ∃ r', r.Repairs r' := by
    have hparsed : ({ m with status := .failed } : AttemptManifest).parse =
        .ok { m with status := .failed } := by
      have hm := r.parsed m hm
      rw [AttemptManifest.parse] at hm ⊢
      split at hm
      · exact absurd hm (by simp)
      split at hm
      · exact absurd hm (by simp)
      · rename_i hfailure hlineage
        exact (if_neg hfailure).trans (if_neg hlineage)
    exact ⟨_, .recover hparsed h rfl rfl (by simp [hrecord]) fun _ _ ↦ rfl⟩
  rcases finding_of_offer h with ⟨item, -, hfinding⟩ | ⟨m, record, rfl, hm, -, hrecord⟩
  · cases hc : queueCommit 0 proposal with
    | some c =>
      obtain ⟨-, hcarried⟩ := carried_of_finding 0 hc hfinding
      exact ⟨_, .commit h hc hcarried.accepted⟩
    | none =>
      cases hfinding with
      | recover h' =>
        obtain ⟨m, record, rfl, hm, -, hrecord⟩ := h'
        exact hrecover h hm hrecord
      | _ => exact absurd hc (by simp [queueCommit])
  · exact hrecover h hm hrecord

/-- What repairing records comes to. -/
structure Converges (r : Records) : Prop where
  /-- No run of repairs is longer than there is disorder. -/
  bounded : ∀ k r', r.Repaired k r' → k ≤ r.disorder
  /-- An action on an item is accepted, and does what it was offered for. -/
  carried : ∀ k r', r.Repaired k r' → ∀ proposal ∈ r'.offers, ∀ finishedAt now c,
    queueCommit finishedAt proposal = some c → c.updated now = .ok (c.item.merge c.patch now) ∧
      runtimeActionPostcondition proposal (withItem (c.item.merge c.patch now) proposal) = true
  /-- A run that cannot go on leaves nothing wrong. -/
  settles : ∀ k r', r.Repaired k r' → (∀ r'', ¬ r'.Repairs r'') → r'.Settled

end Rest

end Records

/-- Repairs converge, from any records whose cleanup records can be read. -/
def RepairsConverge : Prop := ∀ r : Records, r.Readable → r.Converges

end CodeConductor.Reconciler
