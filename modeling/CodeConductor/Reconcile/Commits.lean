import CodeConductor.Queue.Selection
import CodeConductor.Reconcile.Convergence

/-!
# Repairs are what the program commits

`executeRuntimeAction`, run while nobody else acts and the stores work, commits what `queueCommit`
says and nothing else: a repair of the records is a run of the program.
-/

namespace CodeConductor

open Async Async.Prog

namespace QueueStore

variable {w : World} {n : ℕ} {item updated : QueueItem} {patch : QueuePatch}
  {kind : QueueReconciliationKind}

/-- An accepted reconciliation of the newest snapshot of an item is committed. -/
theorem solo_reconcile (hw : Working w) (hitem : w.item? item.jobId = some item)
    (hupdated : item.updated (assertQueueReconciliationTransition kind) patch w.outside.now =
      .ok updated) :
    (reconcile item patch kind).solo w n = some (.ok updated, w.pushItem updated, n) := by
  have hread : (read item.jobId).solo w n = some (.ok item, w, n) := by
    rw [read, readAs, solo_storeRead hw, hitem]
  have hnow : currentDate.solo w n = some (.ok w.outside.now, w, n) := rfl
  have hresult : (Prog.ofResult (item.updated (assertQueueReconciliationTransition kind) patch
      w.outside.now) : Runtime QueueItem).solo w n = some (.ok updated, w, n) := by
    rw [hupdated]
    rfl
  have hpush : (pushItem item updated).solo w n = some (.ok (), w.pushItem updated, n) := by
    rw [pushItem, solo_storeWrite hw, if_pos hitem]
  have hcommit : (commitItem item updated).solo w n = some (.ok (), w.pushItem updated, n) :=
    (solo_bind hpush).trans
      (solo_storeRead (hw.of_same (sameSurroundings_pushItem w updated)) _)
  refine (solo_bind hread).trans ?_
  rw [if_neg (by simp)]
  exact (solo_bind hnow).trans ((solo_bind hresult).trans (solo_bind hcommit))

end QueueStore

namespace Reconciler

variable {self : Self} {w : World} {n : ℕ} {updated : QueueItem}
  {proposal : ReconciliationProposal} {c : QueueCommit}

/-- What `executeRuntimeAction` tests before a synchronization. -/
def ShowsEnd : ReconciliationProposal → Prop
  | .synchronizeQueueFromTerminalAttempt _ attempt _ => attempt.status.isTerminal = true
  | _ => True

/-- **The program makes the repair**: alone, with stores that work, it publishes the snapshot of the
commit. -/
theorem solo_executeRuntimeAction (hw : Working w) (hshows : ShowsEnd proposal)
    (hc : queueCommit w.outside.now proposal = some c)
    (hcurrent : w.item? c.item.jobId = some c.item)
    (hupdated : c.updated w.outside.now = .ok updated) :
    (executeRuntimeAction self proposal).solo w n = some (.ok (), w.pushItem updated, n) := by
  have hcommit {patch : QueuePatch} {kind : QueueReconciliationKind} {item : QueueItem}
      (hc : some (⟨item, patch, kind⟩ : QueueCommit) = some c) :
      (do
        let _ ← QueueStore.reconcile item patch kind
        return () : Runtime Unit).solo w n = some (.ok (), w.pushItem updated, n) := by
    obtain rfl := Option.some.inj hc
    exact solo_bind (QueueStore.solo_reconcile hw hcurrent hupdated)
  cases proposal with
  | resetAbandonedQueueItem item => exact hcommit hc
  | quarantineQueueItem item => exact hcommit hc
  | bindQueueToAttempt item attempt => exact hcommit hc
  | synchronizeQueueFromTerminalAttempt item attempt cleanup =>
    have hterminal : attempt.status.isTerminal = true := hshows
    have hnow : currentDate.solo w n = some (.ok w.outside.now, w, n) := rfl
    rw [executeRuntimeAction, hterminal]
    exact (solo_bind hnow).trans (hcommit hc)
  | recoverInterruptedAttempt attempt cleanup => exact absurd hc (by simp [queueCommit])

/-- What is offered shows the end it is about. -/
theorem showsEnd_of_offer {r : Records} (h : proposal ∈ r.offers) : ShowsEnd proposal := by
  rcases Records.finding_of_offer h with ⟨item, -, hfinding⟩ | ⟨m, record, rfl, -⟩
  · cases hfinding with
    | synchronize m record _ _ hterminal _ _ => exact hterminal
    | recover h =>
      obtain ⟨m, record, rfl, -⟩ := h
      trivial
    | _ => trivial
  · trivial

/-- The world shows these items and attempts. -/
structure Shows (w : World) (r : Records) : Prop where
  items : ∀ item ∈ r.items, w.item? item.jobId = some item
  attempts : ∀ m ∈ r.attempts, w.attempt? m.attemptId = some m

/-- **A run of the program is a repair of what the world shows**, and the world shows the repaired
records afterwards. -/
theorem exists_repair_run {r : Records} (hw : Working w) (hr : Shows w r)
    (hoffered : proposal ∈ r.offers) (hc : queueCommit w.outside.now proposal = some c) :
    ∃ updated, (executeRuntimeAction self proposal).solo w n =
        some (.ok (), w.pushItem updated, n) ∧
      r.Repairs (r.setItem updated) ∧ Shows (w.pushItem updated) (r.setItem updated) := by
  rcases Records.finding_of_offer hoffered with ⟨item, hitem, hfinding⟩ | ⟨m, record, rfl, -⟩
  · obtain ⟨rfl, hcarried⟩ := Records.carried_of_finding w.outside.now hc hfinding
    refine ⟨_, solo_executeRuntimeAction hw (showsEnd_of_offer hoffered) hc
      (hr.items c.item hitem) hcarried.accepted, .commit hoffered hc hcarried.accepted,
      fun shown hshown ↦ ?_, hr.attempts⟩
    obtain ⟨old, hold, rfl⟩ := List.mem_map.1 hshown
    rw [World.item?_pushItem]
    -- the item that was committed, and the others
    split
    · exact if_pos rfl
    · exact hr.items old hold
  · exact absurd hc (by simp [queueCommit])

end Reconciler

end CodeConductor
