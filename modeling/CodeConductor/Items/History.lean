import CodeConductor.Items.Moves

/-!
# The histories of a queue item

The journal of an item is a chain of moves from the item `enqueue` wrote. What every move keeps holds
of every snapshot in it, and what a move does to a counter adds up: the revision of a snapshot counts
the moves below it, and `automaticRetryCount` the moves that sent a running item back to the queue.
Neither an owner's retry nor a reconciliation forgets any of these, so the budget of automatic retries
is one for the whole life of the job.
-/

namespace CodeConductor

open Async

/-- The journals an item can have, newest snapshot first. -/
inductive ItemHistory (w : World) (jobId : JobId) : List QueueItem → Prop
  | absent : ItemHistory w jobId []
  | created (options : QueueOptions) (now : Timestamp) :
      ItemHistory w jobId [createQueueItem jobId options now]
  | move (prev : QueueItem) (patch : QueuePatch) (now : Timestamp) (older : List QueueItem) :
      ItemHistory w jobId (prev :: older) → QueueMove w prev patch →
        ItemHistory w jobId (prev.merge patch now :: prev :: older)

namespace ItemHistory

variable {w w' : World} {jobId : JobId} {journal older : List QueueItem} {item newest : QueueItem}

theorem gains (h : ItemHistory w jobId journal) (hw : w.Gains w') :
    ItemHistory w' jobId journal := by
  induction h with
  | absent => exact .absent
  | created options now => exact .created options now
  | move prev patch now older _ hmove ih => exact .move prev patch now older ih (hmove.gains hw)

/-- A fact that new items have and moves keep holds of every snapshot. -/
theorem forall_mem {P : QueueItem → Prop}
    (hcreated : ∀ options now, P (createQueueItem jobId options now))
    (hmove : ∀ prev patch now, P prev → QueueMove w prev patch → P (prev.merge patch now))
    (h : ItemHistory w jobId journal) (hitem : item ∈ journal) : P item := by
  induction h generalizing item with
  | absent => exact absurd hitem (by simp)
  | created options now => exact List.mem_singleton.1 hitem ▸ hcreated options now
  | move prev patch now older _ hm ih =>
    rcases List.mem_cons.1 hitem with rfl | hold
    · exact hmove prev patch now (ih List.mem_cons_self) hm
    · exact ih hold

theorem jobId_eq (h : ItemHistory w jobId journal) (hitem : item ∈ journal) :
    item.jobId = jobId :=
  h.forall_mem (P := fun i ↦ i.jobId = jobId) (fun _ _ ↦ rfl) (fun _ _ _ hprev _ ↦ hprev) hitem

/-- **The fields of every snapshot fit together.** -/
theorem accounted (h : ItemHistory w jobId journal) (hitem : item ∈ journal) :
    item.Accounted w :=
  h.forall_mem (fun options _ ↦ .created w jobId options) (fun _ _ _ hprev hm ↦ hprev.move hm) hitem

/-- The revision of a snapshot counts the moves below it. -/
theorem revision_eq (h : ItemHistory w jobId (newest :: older)) :
    newest.revision = older.length := by
  generalize hj : newest :: older = journal at h
  induction h generalizing newest older with
  | absent => exact absurd hj (by simp)
  | created options now =>
    obtain ⟨rfl, rfl⟩ := List.cons.inj hj
    rfl
  | move prev patch now older' _ _ ih =>
    obtain ⟨rfl, rfl⟩ := List.cons.inj hj
    rw [QueueItem.merge_revision, ih rfl, List.length_cons]

end ItemHistory

/-! ### Automatic retries -/

section Retries

variable {w w' : World} {jobId : JobId} {item prev newest : QueueItem} {patch : QueuePatch}
  {now : Timestamp} {older : List QueueItem}

/-- Whether `next` is `prev` sent back to the queue by recovery. -/
def QueueItem.RequeuedAs (prev next : QueueItem) : Prop :=
  prev.status = .running ∧ next.status = .queued

instance (prev next : QueueItem) : Decidable (prev.RequeuedAs next) :=
  inferInstanceAs (Decidable (_ ∧ _))

/-- How often a journal, newest snapshot first, shows a running item sent back to the queue. -/
def automaticRequeues : List QueueItem → ℕ
  | newest :: prev :: older =>
    automaticRequeues (prev :: older) + if prev.RequeuedAs newest then 1 else 0
  | _ => 0

/-- The projection of an attempt sends nothing back to the queue. -/
theorem AttemptCompletionEvidence.queueStatus_ne_queued (result : AttemptCompletionEvidence) :
    result.queueStatus ≠ .queued := by
  intro heq
  have hterminal : result.queueStatus.isTerminal = true := queueStatus_isTerminal
  rw [heq] at hterminal
  exact absurd hterminal (by decide)

/-- A move counts itself, if it sends the item back to the queue, and nothing else. -/
theorem QueueMove.automaticRetryCount_eq (h : QueueMove w item patch) :
    (item.merge patch now).automaticRetryCount =
      item.automaticRetryCount + if item.RequeuedAs (item.merge patch now) then 1 else 0 := by
  -- only the moves out of `running` need a look at the status they lead to
  have hother (hs : item.status ≠ .running) (hcount : patch.automaticRetryCount = none ∨
      patch.automaticRetryCount = some item.automaticRetryCount) :
      (item.merge patch now).automaticRetryCount =
        item.automaticRetryCount + if item.RequeuedAs (item.merge patch now) then 1 else 0 := by
    rw [if_neg fun hr ↦ hs hr.1, QueueItem.merge_automaticRetryCount]
    rcases hcount with hcount | hcount <;> (rw [hcount]; rfl)
  have hleaves (hs : (item.merge patch now).status ≠ .queued)
      (hcount : patch.automaticRetryCount = none) :
      (item.merge patch now).automaticRetryCount =
        item.automaticRetryCount + if item.RequeuedAs (item.merge patch now) then 1 else 0 := by
    rw [if_neg fun hr ↦ hs hr.2, QueueItem.merge_automaticRetryCount, hcount]
    rfl
  cases h with
  | dispatch operation hs => exact hother (by simp [hs]) (.inl rfl)
  | setAside message hs => exact hleaves (by simp) rfl
  | bind m message hs _ _ => exact hleaves (by simp) rfl
  | withdraw message hs => exact hother (by simp [hs]) (.inl rfl)
  | finish m c finishedAt _ _ => exact hleaves (m.evidence c).queueStatus_ne_queued rfl
  | fail message hs => exact hleaves (by simp) rfl
  | requestCancel message hs => exact hleaves (by simp) rfl
  | cancelUnlaunched id message hs _ _ => exact hleaves (by simp) rfl
  | cancel message hs => exact hleaves (by simp) rfl
  | retry hs _ =>
    refine hother (fun hrunning ↦ ?_) (.inl rfl)
    rw [hrunning] at hs
    exact absurd hs (by decide)
  | requeue id contract hs _ _ _ _ => simp [Dispatcher.requeuePatch, hs, QueueItem.RequeuedAs]
  | cancelRecovered id hs _ _ =>
    exact hother (by simp [hs]) (.inr (by simp [Dispatcher.requeuePatch, hs]))
  | reset hs => exact hother (by rcases hs with hs | hs <;> simp [hs]) (.inl rfl)
  | quarantine => exact hleaves (by simp [Reconciler.quarantinePatch]) rfl
  | rebind m hs _ _ => exact hleaves (by simp [Reconciler.bindPatch]) rfl
  | synchronize m c finishedAt _ _ => exact hleaves (m.evidence c).queueStatus_ne_queued rfl

/-- A running item is sent back to the queue within the budget of its contract only. -/
theorem QueueMove.within_budget (h : QueueMove w item patch)
    (hrequeued : item.RequeuedAs (item.merge patch now)) :
    ∃ contract, w.contract? item.jobId = some contract ∧
      item.automaticRetryCount < contract.resources.maxAutomaticRetries := by
  obtain ⟨hrunning, hqueued⟩ := hrequeued
  cases h with
  | requeue id contract _ _ _ hc hlt => exact ⟨contract, hc, hlt⟩
  | finish m c finishedAt _ _ => exact absurd hqueued (m.evidence c).queueStatus_ne_queued
  | synchronize m c finishedAt _ _ => exact absurd hqueued (m.evidence c).queueStatus_ne_queued
  | retry hs _ => exact absurd hs (by simp [hrunning, QueueItemStatus.isTerminal])
  | reset hs => rcases hs with hs | hs <;> exact absurd hs (by simp [hrunning])
  | withdraw message hs => exact absurd hs (by simp [hrunning])
  | cancelRecovered id hs _ _ => exact absurd hs (by simp [hrunning])
  | _ => contradiction

/-- The budget of automatic retries a world knows for a job. -/
def World.retryBudget (w : World) (jobId : JobId) : ℕ :=
  ((w.contract? jobId).map fun contract ↦ contract.resources.maxAutomaticRetries).getD 0

/-- **The count of an item is the number of its automatic requeues, and within the budget.** -/
theorem ItemHistory.automaticRetryCount_eq (h : ItemHistory w jobId (newest :: older)) :
    newest.automaticRetryCount = automaticRequeues (newest :: older) ∧
      newest.automaticRetryCount ≤ w.retryBudget jobId := by
  generalize hj : newest :: older = journal at h
  induction h generalizing newest older with
  | absent => exact absurd hj (by simp)
  | created options now =>
    obtain ⟨rfl, rfl⟩ := List.cons.inj hj
    exact ⟨rfl, Nat.zero_le _⟩
  | move prev patch now older' hprev hmove ih =>
    obtain ⟨rfl, rfl⟩ := List.cons.inj hj
    obtain ⟨hcount, hbudget⟩ := ih rfl
    have hstep : (prev.merge patch now).automaticRetryCount = prev.automaticRetryCount +
        if prev.RequeuedAs (prev.merge patch now) then 1 else 0 := hmove.automaticRetryCount_eq
    refine ⟨?_, ?_⟩
    · show _ = automaticRequeues (prev :: older') + _
      rw [hstep, hcount]
    · by_cases hrequeued : prev.RequeuedAs (prev.merge patch now)
      · obtain ⟨contract, hc, hlt⟩ := hmove.within_budget hrequeued
        rw [hprev.jobId_eq List.mem_cons_self] at hc
        have hget : w.retryBudget jobId = contract.resources.maxAutomaticRetries := by
          simp [World.retryBudget, hc]
        rw [if_pos hrequeued] at hstep
        omega
      · rw [if_neg hrequeued] at hstep
        omega

end Retries

end CodeConductor
