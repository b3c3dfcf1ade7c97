import CodeConductor.Items.Accounts

/-!
# What reconciliation finds after any run

Most tests of an inspection look for records no program writes: they are there for a data root that
was tampered with. After any run, whoever died in it, only the traces of a death are found. An item
may be **reset** because nothing was reserved for its operation, **bound** to the one attempt that
was, or **synchronized** with an attempt that has ended; an attempt may be **recovered**. A
**quarantine** is left for two cases: an operation with several attempts, and an item that has ended
and names an attempt of another operation.

The items of a report are read before the attempts, so they may be out of date: any published
snapshot will do.
-/

namespace CodeConductor

open Reconciler

/-- The newest manifest of every attempt, each once. -/
structure World.Listing (w : World) (attempts : List AttemptManifest) : Prop where
  newest : ∀ m ∈ attempts, w.attempt? m.attemptId = some m
  complete : ∀ id m, w.attempt? id = some m → m ∈ attempts
  nodup : attempts.Nodup

/-- `m` is an attempt of the job, reserved for the operation. -/
structure World.ReservedFor (w : World) (jobId : JobId) (operation : Uuid) (m : AttemptManifest) :
    Prop where
  newest : w.attempt? m.attemptId = some m
  jobId : m.jobId = jobId
  operation : m.dispatchOperationId = some operation

/-- What is true of the records when an action is offered. -/
inductive World.Warrants (w : World) : ReconciliationProposal → Prop
  /-- Nothing was reserved for the operation. -/
  | reset (item : QueueItem) (operation : Uuid) : item.status = .dispatching →
      item.dispatchOperationId = some operation → (∀ m, ¬ w.ReservedFor item.jobId operation m) →
        w.Warrants (.resetAbandonedQueueItem item)
  /-- Two attempts were reserved for the operation. -/
  | ambiguous (item : QueueItem) (operation : Uuid) (first second : AttemptManifest) :
      item.status = .dispatching → item.dispatchOperationId = some operation →
      w.ReservedFor item.jobId operation first → w.ReservedFor item.jobId operation second →
      first.attemptId ≠ second.attemptId → w.Warrants (.quarantineQueueItem item)
  /-- An item that has ended names an attempt of another operation. -/
  | detached (item : QueueItem) (m : AttemptManifest) : item.status.isTerminal = true →
      item.attemptId = some m.attemptId → w.attempt? m.attemptId = some m →
      m.jobId = item.jobId → item.dispatchOperationId ≠ m.dispatchOperationId →
        w.Warrants (.quarantineQueueItem item)
  /-- The item is given the only attempt of its operation. -/
  | bind (item : QueueItem) (m : AttemptManifest) (operation : Uuid) : item.status = .dispatching →
      item.dispatchOperationId = some operation → w.ReservedFor item.jobId operation m →
      (∀ m', w.ReservedFor item.jobId operation m' → m' = m) → m.status.isTerminal = false →
        w.Warrants (.bindQueueToAttempt item m)
  /-- The item is told how the attempt it names, or the only one of its operation, ended. -/
  | synchronize (item : QueueItem) (m : AttemptManifest) (record : AttemptCleanupRecord) :
      item.status ≠ .queued → w.attempt? m.attemptId = some m → m.jobId = item.jobId →
      m.dispatchOperationId = item.dispatchOperationId → m.status.isTerminal = true →
      (item.attemptId = some m.attemptId ∨ item.status = .dispatching ∧
        ∀ operation m', item.dispatchOperationId = some operation →
          w.ReservedFor item.jobId operation m' → m' = m) →
        w.Warrants (.synchronizeQueueFromTerminalAttempt item m record)
  /-- The attempt has not ended. -/
  | recover (m : AttemptManifest) (record : AttemptCleanupRecord) :
      w.attempt? m.attemptId = some m → m.status.isTerminal = false →
        w.Warrants (.recoverInterruptedAttempt m record)

namespace World

variable {w : World} {attempts : List AttemptManifest} {item : QueueItem} {operation : Uuid}
  {m : AttemptManifest} {proposal : ReconciliationProposal}
  {cleanups : List (AttemptId × AttemptCleanupRecord)}

/-- A listing of attempts has those of an operation. -/
theorem Listing.mem_attemptsOf (h : w.Listing attempts) {jobId : JobId} :
    m ∈ Dispatcher.attemptsOf attempts jobId operation ↔ w.ReservedFor jobId operation m := by
  rw [Dispatcher.attemptsOf, List.mem_filter, decide_eq_true_eq]
  constructor
  · rintro ⟨hm, hop, hjob⟩
    exact ⟨h.newest m hm, hjob, hop⟩
  · intro hm
    exact ⟨h.complete _ m hm.newest, hm.operation, hm.jobId⟩

theorem Warrants.of_recoverable (hlisting : w.Listing attempts)
    (h : Recoverable attempts cleanups proposal) : w.Warrants proposal := by
  obtain ⟨m, record, rfl, hm, hlive, -⟩ := h
  exact .recover m record (hlisting.newest m hm) hlive

/-- The newest manifest of an attempt an item is bound to has the operation of the item. -/
theorem operation_of_active {n : ℕ} (hinv : AttemptInv n w) (h : item.Accounted w)
    (hactive : item.status.isActive = true) (hname : item.attemptId = some m.attemptId)
    (hnewest : w.attempt? m.attemptId = some m) :
    item.dispatchOperationId = m.dispatchOperationId := by
  obtain ⟨-, bound, operation, hbound, hid, hop, hboundop⟩ := h.active hactive
  have heq : bound.attemptId = m.attemptId := Option.some.inj (hid.symm.trans hname)
  obtain ⟨older, hjournal⟩ := List.head?_eq_some_iff.1 hnewest
  have hhistory := hinv.history m.attemptId
  have hmem : bound ∈ w.attempts m.attemptId := heq ▸ hbound.journaled
  rw [hjournal] at hhistory hmem
  rw [hop, hhistory.operation_eq hmem hboundop]

/-- **A finding about items that are accounted for is warranted.** -/
theorem Warrants.of_finding {n : ℕ} (hinv : AttemptInv n w) (hlisting : w.Listing attempts)
    (h : item.Accounted w) (hfinding : Finding attempts cleanups item proposal) :
    w.Warrants proposal := by
  cases hfinding with
  | stale hs hevidence =>
    obtain ⟨hop, hid, hc⟩ := h.queued hs
    exact absurd hevidence (by simp [hop, hid, hc])
  | abandoned operation hs _ hop hnone =>
    refine .reset item operation hs hop fun m hm ↦ ?_
    have hmem := hlisting.mem_attemptsOf.2 hm
    rw [hnone] at hmem
    exact absurd hmem List.not_mem_nil
  | unidentified hs hnone => exact absurd (h.dispatching hs).1 (by simp [hnone])
  | ambiguous operation first second rest hs _ hop hfound =>
    have hnodup : (Dispatcher.attemptsOf attempts item.jobId operation).Nodup :=
      hlisting.nodup.filter _
    have hfirst : w.ReservedFor item.jobId operation first :=
      hlisting.mem_attemptsOf.1 (by rw [hfound]; simp)
    have hsecond : w.ReservedFor item.jobId operation second :=
      hlisting.mem_attemptsOf.1 (by rw [hfound]; simp)
    refine .ambiguous item operation first second hs hop hfirst hsecond fun heq ↦ ?_
    -- the newest manifests of one attempt are the same, and a listing has it once
    have hsame : first = second := by
      have hnewest := hfirst.newest
      rw [heq, hsecond.newest] at hnewest
      exact (Option.some.inj hnewest).symm
    rw [hfound, hsame] at hnodup
    simp at hnodup
  | unbound hactive hid =>
    obtain ⟨-, m, operation, -, hname, -⟩ := h.active hactive
    exact absurd (hid.symm.trans hname) (by simp)
  | unevidenced hid hevidence =>
    have hsome : item.completion.isSome := hevidence.elim h.completed id
    obtain ⟨completion, hc⟩ := Option.isSome_iff_exists.1 hsome
    obtain ⟨m, -, hname, -⟩ := h.closed completion hc
    exact absurd (hid.symm.trans hname) (by simp)
  | missing attemptId hid habsent =>
    obtain ⟨m, hm, rfl⟩ := h.attempt attemptId hid
    cases hjournal : w.attempts m.attemptId with
    | nil => exact absurd hm.journaled (by simp [hjournal])
    | cons newest older =>
      have hnewest : w.attempt? m.attemptId = some newest := by simp [World.attempt?, hjournal]
      refine absurd ?_ (habsent newest (hlisting.complete _ _ hnewest))
      exact (hinv.history m.attemptId).attemptId_eq (by rw [hjournal]; exact List.mem_cons_self)
  | foreign m hm hname hjob =>
    obtain ⟨named, hnamed, heq⟩ := h.attempt _ hname
    exact absurd ((congrArg AttemptId.jobId heq).symm.trans hnamed.jobId) hjob
  | detached m hm hname hjob hother =>
    have hnewest := hlisting.newest m hm
    refine .detached item m ?_ hname hnewest hjob hother
    cases hs : item.status with
    | queued => exact absurd ((h.queued hs).2.1.symm.trans hname) (by simp)
    | dispatching => exact absurd ((h.dispatching hs).2.1.symm.trans hname) (by simp)
    | running =>
      exact absurd (operation_of_active hinv h (by rw [hs]; rfl) hname hnewest) hother
    | cancelling =>
      exact absurd (operation_of_active hinv h (by rw [hs]; rfl) hname hnewest) hother
    | _ => rfl
  | bind m hs _ hm hlive =>
    rcases hm.single with hname | ⟨-, -, operation, hop, hfound⟩
    · exact absurd ((h.dispatching hs).2.1.symm.trans hname) (by simp)
    · refine .bind item m operation hs hop ⟨hlisting.newest m hm.mem, hm.jobId, ?_⟩
        (fun m' hm' ↦ ?_) hlive
      · exact hm.operation.trans hop
      · have hmem := hlisting.mem_attemptsOf.2 hm'
        rw [hfound] at hmem
        exact List.mem_singleton.1 hmem
  | synchronize m record hs hm hterminal _ _ =>
    refine .synchronize item m record hs (hlisting.newest m hm.mem) hm.jobId hm.operation hterminal
      (hm.single.imp_right fun hsingle ↦ ?_)
    obtain ⟨-, hs, operation, hop, hfound⟩ := hsingle
    refine ⟨hs, fun operation' m' hop' hm' ↦ ?_⟩
    obtain rfl : operation = operation' := Option.some.inj (hop.symm.trans hop')
    have hmem := hlisting.mem_attemptsOf.2 hm'
    rw [hfound] at hmem
    exact List.mem_singleton.1 hmem
  | recover h => exact .of_recoverable hlisting h

end World

/-- After any run, whatever an inspection offers on snapshots of items that were published and the
newest manifests of all attempts is warranted by these. -/
def InspectionsWarranted : Prop :=
  ∀ contracts outside cfg, DispatcherReaches contracts outside cfg →
    ∀ items attempts cleanups, (∀ item ∈ items, item ∈ cfg.shared.items item.jobId) →
      cfg.shared.Listing attempts →
        ∀ proposal ∈ inspectQueueAttemptRelationships items attempts cleanups,
          cfg.shared.Warrants proposal

/-- **Reconciliation finds the traces of deaths only**, and takes none of them for another. -/
theorem inspectionsWarranted : InspectionsWarranted := by
  intro contracts outside cfg hreach items attempts cleanups hitems hlisting proposal hoffered
  have hinv := itemProtocol_inv hreach
  rcases finding_of_mem hoffered with ⟨item, hitem, hfinding⟩ | h
  · exact .of_finding hinv.1 hlisting ((hinv.2 item.jobId).accounted (hitems item hitem)) hfinding
  · exact .of_recoverable hlisting h

end CodeConductor
