import CodeConductor.Items.Programs
import CodeConductor.Reconcile.Findings

/-!
# Owners, recovery and reconciliation make moves

The programs that change items outside a dispatch pass: `cancel` and `retry`, startup recovery, the
loop with its exits, and the owner's reconciliation. A reconciliation commits what `inspect` offered,
so what its move needs of attempts was seen by the inspection.
-/

namespace CodeConductor

open Async Async.Prog Async.Protocol

variable {self : Self} {p t : ℕ} {s : World}

namespace Dispatcher

open QueueStore

/-! ### Owner requests -/

section Requests

variable {item : QueueItem}

/-- An item that `cancel` closes at once is bound to nothing. -/
theorem unbound_of_cancel {w : World} (h : item.Accounted w) (hlive : item.status.isTerminal = false)
    (hrunning : ∀ id, item.status = .running → item.attemptId = some id → False)
    (hcancelling : item.status ≠ .cancelling) :
    item.status = .queued ∨ item.status = .dispatching := by
  have hbound : item.status ≠ .running := fun hs ↦ by
    obtain ⟨-, m, -, -, hid, -⟩ := h.active (by rw [hs]; rfl)
    exact hrunning _ hs hid
  revert hlive hbound hcancelling
  cases item.status <;> simp [QueueItemStatus.isTerminal]

theorem moves_cancelAttempt {attemptId : AttemptId} :
    itemProtocol.Keeps self.process self.thread (Conductor.cancelAttempt self attemptId) :=
  moves_conductor Conductor.keeps_cancelAttempt

/-- When `cancelReservedAttempt` returns a manifest that has ended, the attempt has. -/
theorem moves_cancelReservedAttempt {attemptId : AttemptId} :
    itemProtocol.Safe self.process self.thread
      (Returns fun m w ↦ m.status.isTerminal = true → w.Ended attemptId)
      (Conductor.cancelReservedAttempt self attemptId) s := by
  refine (moves_conductor_returns Conductor.safe_cancelReservedAttempt).weaken fun m w hm hended ↦ ?_
  exact ⟨m, hm.1, hended⟩

theorem moves_cancel {jobId : JobId} :
    itemProtocol.Keeps self.process self.thread (cancel self jobId) := by
  refine moves_withStateLock (Keeps.bind moves_read_item fun item ↦ ?_)
  by_cases hlive : item.status.isTerminal = true
  · rw [if_pos hlive]
    exact keeps_ret _
  rw [if_neg hlive]
  have hlive : item.status.isTerminal = false := by simpa using hlive
  dsimp only
  split
  · -- a running item: its attempt is aborted, or closed if it was not launched
    rename_i attemptId hrunning hid
    refine Safe.keeps (Q := Returns fun _ _ ↦ True) fun s ↦ ?_
    refine Safe.seq (moves_update lasting_pure (J := fun _ ↦ True)
      (fun _ _ _ _ ↦ .requestCancel _ hrunning) trivial) fun cancelling s₁ hcancelling ↦ ?_
    obtain ⟨-, now, hcancelling⟩ := hcancelling
    refine Keeps.seq moves_cancelAttempt fun requested s₂ ↦ .ite (fun _ ↦ ?_)
      fun _ ↦ returns_ok.2 trivial
    refine moves_cancelReservedAttempt.seq fun attempt s₃ hended ↦ .ite (fun hterminal ↦ ?_)
      fun _ ↦ returns_ok.2 trivial
    refine (moves_update lasting_ended (fun w hw _ _ ↦ ?_) (hended hterminal)).weaken
      fun _ _ _ ↦ trivial
    exact .cancelUnlaunched attemptId _ (by rw [hcancelling]; rfl) (by rw [hcancelling]; exact hid) hw
  · exact keeps_ret _
  · rename_i hcancelling hrunning
    have hupdate : itemProtocol.Keeps self.process self.thread (QueueStore.update item
        { status := some .cancelled, message := some (some "Cancellation requested") }) := by
      refine moves_update_keeps fun w haccounted _ ↦ .cancel _ ?_
      exact unbound_of_cancel haccounted hlive hrunning hcancelling
    split
    · exact (Safe.keeps fun _ ↦ moves_cancelReservedAttempt).bind fun _ ↦ hupdate
    · exact hupdate

theorem moves_getAttempt {attemptId : AttemptId} :
    itemProtocol.Safe p t (Returns fun m w ↦ m ∈ w.attempts attemptId ∧ m.attemptId = attemptId)
      (Conductor.getAttempt attemptId) s :=
  (moves_conductor_returns (L := {}) (safe_readAttempt attemptId)).weaken
    fun _ _ hm ↦ ⟨hm.1, hm.2.1⟩

theorem moves_retry {jobId : JobId} :
    itemProtocol.Keeps self.process self.thread (retry self jobId) := by
  refine moves_withStateLock (Keeps.bind moves_read_item fun item ↦ ?_)
  by_cases hterminal : item.status.isTerminal = true
  · rw [if_neg (by simpa using hterminal)]
    cases hid : item.attemptId with
    | none =>
      refine moves_update_keeps fun w _ _ ↦ .retry hterminal fun id h ↦ ?_
      exact absurd (hid.symm.trans h) (by simp)
    | some attemptId =>
      refine Safe.keeps (Q := Returns fun _ _ ↦ True) fun s ↦ ?_
      refine moves_getAttempt.seq fun attempt s₁ hattempt ↦ .ite (fun _ ↦ returns_error) fun hended ↦ ?_
      have hended : s₁.Ended attemptId := ⟨attempt, hattempt.1, by simpa using hended⟩
      have hrelease : itemProtocol.Keeps self.process self.thread
          (Conductor.releaseAttemptExternalResources self attemptId) :=
        moves_plain (Safe.keeps fun _ ↦ Conductor.safe_releaseAttemptExternalResources)
      refine (lasting_ended.after hrelease hended).seq fun _ s₂ hs₂ ↦ ?_
      refine (moves_update lasting_ended (fun w hw _ _ ↦ ?_) hs₂).weaken fun _ _ _ ↦ trivial
      refine .retry hterminal fun id h ↦ ?_
      obtain rfl := Option.some.inj (hid.symm.trans h)
      exact hw
  · rw [if_pos (by simpa using hterminal)]
    exact keeps_ret _

end Requests

/-! ### Startup recovery -/

section Recovery

variable {item : QueueItem} {attempts : List AttemptManifest}

/-- The patch recovery gives a dispatching item is a move. -/
theorem queueMove_dispatchingPatch {w : World} (hs : item.status = .dispatching)
    (hattempts : ∀ m ∈ attempts, m ∈ w.attempts m.attemptId) :
    QueueMove w item (dispatchingPatch attempts item) := by
  have hlive : item.status.isTerminal = false := by rw [hs]; rfl
  rw [dispatchingPatch]
  split
  · exact .setAside _ hlive
  · rename_i operation hop
    split
    · exact .withdraw _ hs
    · -- the one attempt of the operation
      rename_i m hm
      have hmem : m ∈ attemptsOf attempts item.jobId operation := by rw [hm]; simp
      obtain ⟨hm, hmatch⟩ := List.mem_filter.1 hmem
      obtain ⟨hmop, hjob⟩ := of_decide_eq_true hmatch
      exact .bind m _ hs ⟨hattempts m hm, hjob⟩ (hmop.trans hop.symm)
    · exact .setAside _ hlive

theorem moves_recoverDispatching (items : List QueueItem)
    (hs : ∀ m ∈ attempts, m ∈ s.attempts m.attemptId) :
    itemProtocol.Safe p t (Returns fun _ w ↦ ∀ m ∈ attempts, m ∈ w.attempts m.attemptId)
      (recoverDispatching attempts items) s := by
  induction items generalizing s with
  | nil => exact returns_ok.2 hs
  | cons item rest ih =>
    rw [recoverDispatching]
    refine .ite (fun hdispatching ↦ ?_) fun _ ↦ ih hs
    refine Safe.seq (moves_update Conductor.lasting_attempts
      (fun w hw _ _ ↦ queueMove_dispatchingPatch hdispatching hw) hs) fun _ s₁ hs₁ ↦ ih hs₁.1

/-- A recovered item is settled by a move, whatever the recovery found. -/
theorem moves_settleRecovered {attemptId : AttemptId} {disposition : Conductor.Disposition}
    {manifest : AttemptManifest} (hactive : item.status.isActive = true)
    (hid : item.attemptId = some attemptId)
    (hs : disposition = .safeToRetry → s.Ended attemptId) :
    itemProtocol.Safe p t (Returns fun _ _ ↦ True)
      (settleRecovered item attemptId disposition manifest) s := by
  have hlive : item.status.isTerminal = false := by
    revert hactive
    cases item.status <;> simp [QueueItemStatus.isActive, QueueItemStatus.isTerminal]
  refine .ite (fun hsafe ↦ ?_) fun _ ↦ ?_
  · have hjob : itemProtocol.Safe p t (Returns fun contract w ↦ w.contract? item.jobId = some contract)
        (ArtifactStore.readJob item.jobId) s := by
      refine safe_storeRead itemProtocol_refl fun w n _ _ _ _ contract h ↦ ?_
      split at h
      · rename_i contract' heq
        obtain rfl := Except.ok.inj h
        exact heq
      · exact absurd h (by simp)
    refine (lasting_ended.returns hjob (hs hsafe)).seq fun contract s₁ hs₁ ↦ .ite
      (fun _ ↦ Keeps.returns ((moves_setAside hlive).bind fun _ ↦ keeps_ret _) s₁) fun hbudget ↦ ?_
    refine (moves_update (lasting_contract.and lasting_ended) (fun w hw _ _ ↦ ?_) hs₁).seq
      fun _ _ _ ↦ returns_ok.2 trivial
    by_cases hcancelling : item.status = .cancelling
    · exact .cancelRecovered attemptId hcancelling hid hw.2
    · have hrunning : item.status = .running := by
        revert hactive hcancelling
        cases item.status <;> simp [QueueItemStatus.isActive]
      have hlt : item.automaticRetryCount < contract.resources.maxAutomaticRetries := by
        by_contra hge
        exact hbudget ⟨hcancelling, by omega⟩
      exact .requeue attemptId contract hrunning hid hw.2 hw.1 hlt
  · exact Keeps.returns (Keeps.bind (moves_plain Conductor.keeps_getAttemptCleanup).attempt
      fun _ ↦ (moves_setAside hlive).bind fun _ ↦ keeps_ret _) s

theorem moves_recoverInterruptedAttempt {attemptId : AttemptId} :
    itemProtocol.Safe self.process self.thread (Returns (Conductor.Recovered attemptId))
      (Conductor.recoverInterruptedAttempt self attemptId) s :=
  moves_conductor_returns Conductor.safe_recoverInterruptedAttempt

theorem moves_recoverActiveItem (hactive : item.status.isActive = true)
    (hown : ∀ id, item.attemptId = some id → id.jobId = item.jobId) :
    itemProtocol.Keeps self.process self.thread (recoverActiveItem self item) := by
  have hlive : item.status.isTerminal = false := by
    revert hactive
    cases item.status <;> simp [QueueItemStatus.isActive, QueueItemStatus.isTerminal]
  rw [recoverActiveItem]
  cases hid : item.attemptId with
  | none => exact (moves_setAside hlive).bind fun _ ↦ keeps_ret _
  | some attemptId =>
    refine Safe.keeps (Q := Returns fun _ _ ↦ True) fun s ↦ ?_
    refine moves_getAttempt.seq fun manifest s₁ _ ↦ .ite (fun _ ↦ ?_) fun _ ↦ ?_
    · refine (Conductor.moves_waitForAttempt (hown attemptId hid)).seq fun result s₂ hs₂ ↦ ?_
      exact moves_finishItem hs₂
    · refine moves_recoverInterruptedAttempt.seq fun outcome s₂ hs₂ ↦ ?_
      refine moves_settleRecovered hactive hid fun hsafe ↦ ?_
      exact ⟨outcome.2, hs₂.journaled, hs₂.ended (.inr hsafe)⟩

/-- What listed items name are attempts of their jobs. -/
theorem moves_list_own : itemProtocol.Safe p t
    (Returns fun items _ ↦ ∀ item ∈ items, ∀ id, item.attemptId = some id → id.jobId = item.jobId)
    QueueStore.list s := by
  refine moves_list.weaken fun items w haccounted item hitem id hid ↦ ?_
  obtain ⟨m, hm, rfl⟩ := (haccounted item hitem).attempt id hid
  exact hm.jobId

theorem moves_recoverActive (items : List QueueItem)
    (hown : ∀ item ∈ items, ∀ id, item.attemptId = some id → id.jobId = item.jobId) :
    itemProtocol.Keeps self.process self.thread (recoverActive self items) := by
  induction items with
  | nil => exact keeps_ret _
  | cons item rest ih =>
    obtain ⟨hitem, hrest⟩ := List.forall_mem_cons.1 hown
    rw [recoverActive]
    by_cases hactive : item.status.isActive = true
    · rw [if_pos hactive]
      exact Keeps.bind (moves_recoverActiveItem hactive hitem) fun _ ↦ ih hrest
    · rw [if_neg hactive]
      exact ih hrest

theorem moves_recoverUnreferenced (referenced : List AttemptId) :
    itemProtocol.Keeps self.process self.thread (recoverUnreferenced self referenced attempts) := by
  induction attempts with
  | nil => exact keeps_ret _
  | cons attempt rest ih =>
    exact .ite (Keeps.bind (Safe.keeps fun _ ↦ moves_recoverInterruptedAttempt) fun _ ↦ ih) ih

theorem moves_recoverInterruptedItems :
    itemProtocol.Keeps self.process self.thread (recoverInterruptedItems self) := by
  refine Safe.keeps (Q := Returns fun _ _ ↦ True) fun s ↦ ?_
  refine Conductor.moves_listAttempts.seq fun attempts s₁ hs₁ ↦ ?_
  refine (Conductor.lasting_attempts.after moves_list_keeps hs₁).seq fun items s₂ hs₂ ↦ ?_
  refine (moves_recoverDispatching items hs₂).seq fun _ s₃ _ ↦ ?_
  refine moves_list_own.seq fun items s₄ hown ↦ ?_
  refine Keeps.seq (moves_recoverActive items hown) fun _ s₅ ↦ ?_
  exact Keeps.returns (Keeps.bind moves_list_keeps fun _ ↦ moves_recoverUnreferenced _) s₅

end Recovery

/-! ### The loop and its exits -/

theorem moves_acquireLease : itemProtocol.Keeps p t (acquireLease self) := by
  refine Keeps.bind QueueStore.moves_acquireLease fun lease ↦ ?_
  cases lease with
  | none => exact keeps_ret _
  | some lease => exact moves_setMemory

theorem moves_releaseLease : itemProtocol.Keeps p t (releaseLease self) := by
  refine Keeps.bind (moves_atomic fun _ ↦
    ⟨⟨rfl, rfl, rfl, rfl, rfl, rfl⟩, sameItems_setDispatcher⟩) fun lease ↦ ?_
  cases lease with
  | none => exact keeps_ret _
  | some lease => exact QueueStore.moves_releaseLease

theorem moves_abortActive (items : List QueueItem) :
    itemProtocol.Keeps self.process self.thread (abortActive self items) := by
  induction items with
  | nil => exact keeps_ret _
  | cons item rest ih =>
    rw [abortActive]
    cases item.attemptId with
    | none => exact ih
    | some attemptId => exact .ite (Keeps.bind moves_cancelAttempt fun _ ↦ ih) ih

theorem moves_cancelActiveAttempts :
    itemProtocol.Keeps self.process self.thread (cancelActiveAttempts self) :=
  Keeps.bind moves_list_keeps fun items ↦ moves_abortActive items

theorem moves_drain : itemProtocol.Keeps p t (drain self) := by
  refine Keeps.bind (moves_atomic fun _ ↦ ?_) fun _ ↦ moves_await
  exact ⟨⟨rfl, rfl, rfl, rfl, rfl, rfl⟩, sameItems_setDispatcher⟩

/-- What an error of the loop leads to. -/
theorem moves_abandonLoop {error : RuntimeError} :
    itemProtocol.Keeps self.process self.thread (do
      cancelActiveAttempts self
      drain self
      throw error : Runtime Unit) :=
  Keeps.bind moves_cancelActiveAttempts fun _ ↦ Keeps.bind moves_drain fun _ ↦ keeps_ret _

theorem moves_decideIdle {candidate : Bool} :
    itemProtocol.Keeps p t (decideIdle self candidate) :=
  moves_atomic fun w ↦ by
    dsimp only
    split
    · exact ⟨⟨rfl, rfl, rfl, rfl, rfl, rfl⟩, sameItems_setDispatcher⟩
    · exact ⟨.refl w, .refl w⟩

theorem moves_runLoop (exitWhenIdle : Bool) (fuel : ℕ) :
    itemProtocol.Keeps p t (runLoop self exitWhenIdle fuel) := by
  induction fuel with
  | zero => exact moves_blocked
  | succ fuel ih =>
    refine Keeps.bind moves_getMemory fun memory ↦
      .ite moves_drain ?_
    cases memory.lease with
    | none => exact keeps_ret _
    | some lease =>
      refine Keeps.bind moves_storeRead fun renewed ↦ Keeps.bind moves_setMemory fun _ ↦
        Keeps.bind moves_dispatchAvailable fun dispatched ↦ Keeps.bind moves_decideIdle
          fun active ↦ ?_
      cases active with
      | none => exact keeps_ret _
      | some active => exact Keeps.bind moves_await fun _ ↦ ih

theorem moves_runLoopPromise {fuel : ℕ} :
    itemProtocol.Keeps self.process self.thread (runLoopPromise self fuel) := by
  refine Keeps.bind (Keeps.attempt (Keeps.ensuring (Keeps.catching (moves_runLoop false fuel)
    fun error ↦ moves_abandonLoop) ?_)) fun ending ↦ moves_setMemory
  exact Keeps.bind moves_setMemory fun _ ↦ moves_releaseLease

theorem moves_abandonStart {A : Type} {error : RuntimeError} :
    itemProtocol.Keeps p t (abandonStart self error : Runtime A) := by
  rw [abandonStart]
  exact Keeps.bind moves_setMemory fun _ ↦ Keeps.bind moves_releaseLease fun _ ↦ keeps_ret _

theorem moves_start {fuel : ℕ} :
    itemProtocol.Keeps self.process self.thread (start self fuel) := by
  refine Keeps.bind moves_getMemory fun memory ↦ .ite (keeps_ret _) <|
    Keeps.bind moves_acquireLease fun _ ↦
      Keeps.bind (Keeps.catching ?_ fun _ ↦ moves_abandonStart) fun _ ↦ ?_
  · exact Keeps.bind moves_setMemory fun _ ↦ moves_recoverInterruptedItems
  · -- the loop is forked
    exact moves_fork (fun _ _ _ ↦ trivial) fun _ _ ↦ ⟨⟨rfl, rfl, rfl, rfl, rfl, rfl⟩, rfl, rfl⟩

theorem moves_stop {cancelActive : Bool} :
    itemProtocol.Keeps self.process self.thread (stop self cancelActive) := by
  rw [stop]
  refine Keeps.bind moves_setMemory fun _ ↦
    .ite (Keeps.bind moves_cancelActiveAttempts fun _ ↦ ?_) ?_
  -- both branches go on with the wait for the loop
  all_goals
    refine Keeps.bind moves_getMemory fun memory ↦ ?_
    cases memory.loop with
    | none => exact keeps_ret _
    | some thread => exact moves_await

theorem moves_runUntilIdle {fuel : ℕ} :
    itemProtocol.Keeps self.process self.thread (runUntilIdle self fuel) := by
  refine Keeps.bind moves_getMemory fun memory ↦ .ite (keeps_ret _) <|
    Keeps.bind moves_acquireLease fun _ ↦ Keeps.bind moves_setMemory fun _ ↦
      Keeps.ensuring (Keeps.catching ?_ fun error ↦ moves_abandonLoop) ?_
  · exact Keeps.bind moves_recoverInterruptedItems fun _ ↦ moves_runLoop true fuel
  · exact Keeps.bind moves_setMemory fun _ ↦ moves_releaseLease

theorem moves_waitForLaunchHandoff {attemptId : AttemptId} (fuel : ℕ) :
    itemProtocol.Keeps p t (waitForLaunchHandoff attemptId fuel) := by
  induction fuel with
  | zero => exact moves_blocked
  | succ fuel ih =>
    rw [waitForLaunchHandoff]
    exact Keeps.bind moves_askOutside fun late ↦ .ite (keeps_ret _) <|
      Keeps.bind (Safe.keeps fun _ ↦ moves_getAttempt) fun _ ↦ .ite (keeps_ret _) ih

theorem moves_submit {contract : JobContract} {options : QueueOptions} {fuel : ℕ} :
    itemProtocol.Keeps p t (submit self contract options fuel) := by
  refine Keeps.bind moves_getMemory fun memory ↦ .ite (keeps_ret _) <|
    Keeps.bind moves_enqueue fun submission ↦ Keeps.bind moves_dispatchAvailable fun _ ↦
      Keeps.bind moves_read_item fun item ↦ ?_
  split
  · exact (moves_waitForLaunchHandoff fuel).bind fun _ ↦ moves_read_item
  · exact keeps_ret _

end Dispatcher

/-! ### The reconciler -/

namespace Reconciler

open QueueStore

/-- What a proposal needs of attempts to be carried out: they are in the journals, and of the job and
the operation of the item. -/
def Grounded (w : World) : ReconciliationProposal → Prop
  | .bindQueueToAttempt item attempt =>
    attempt.Of item.jobId w ∧ attempt.dispatchOperationId = item.dispatchOperationId
  | .synchronizeQueueFromTerminalAttempt item attempt _ => attempt.Of item.jobId w
  | _ => True

theorem lasting_grounded {proposal : ReconciliationProposal} :
    Lasting fun w ↦ Grounded w proposal := by
  intro w w' h hw
  cases proposal with
  | bindQueueToAttempt item attempt => exact ⟨hw.1.gains h.gains, hw.2⟩
  | synchronizeQueueFromTerminalAttempt item attempt cleanup => exact AttemptManifest.Of.gains hw h.gains
  | _ => trivial

/-! #### What is offered is grounded -/

section Offers

variable {w : World} {attempts : List AttemptManifest} {item : QueueItem}
  {proposal : ReconciliationProposal}

theorem grounded_of_finding {cleanups : List (AttemptId × AttemptCleanupRecord)}
    (hattempts : ∀ m ∈ attempts, m ∈ w.attempts m.attemptId)
    (h : Finding attempts cleanups item proposal) : Grounded w proposal := by
  cases h with
  | bind m _ _ hm _ => exact ⟨⟨hattempts m hm.mem, hm.jobId⟩, hm.operation⟩
  | synchronize m record _ hm _ _ _ => exact ⟨hattempts m hm.mem, hm.jobId⟩
  | recover h =>
    obtain ⟨m, record, rfl, -⟩ := h
    trivial
  | _ => trivial

/-- **Whatever an inspection offers is grounded in the journals.** -/
theorem grounded_of_mem {items : List QueueItem} {cleanups : List (AttemptId × AttemptCleanupRecord)}
    (hattempts : ∀ m ∈ attempts, m ∈ w.attempts m.attemptId)
    (h : proposal ∈ inspectQueueAttemptRelationships items attempts cleanups) :
    Grounded w proposal := by
  rcases finding_of_mem h with ⟨item, -, h⟩ | ⟨m, record, rfl, -⟩
  · exact grounded_of_finding hattempts h
  · trivial

end Offers

/-! #### The actions -/

theorem moves_readCleanups (attempts : List AttemptManifest) :
    itemProtocol.Keeps p t (readCleanups attempts) := by
  induction attempts with
  | nil => exact keeps_ret _
  | cons attempt rest ih =>
    refine (moves_plain Conductor.keeps_getAttemptCleanup).attempt.bind fun cleanup ↦
      ih.bind fun cleanups ↦ ?_
    cases cleanup with
    | ok _ => exact keeps_ret _
    | error _ => exact keeps_ret _

theorem moves_inspect : itemProtocol.Safe p t
    (Returns fun offered w ↦ ∀ proposal ∈ offered, Grounded w proposal) inspect s := by
  refine Keeps.seq moves_storeRead fun ownerCanAct s₁ ↦
    Keeps.seq (Keeps.attempt moves_list_keeps) fun items s₂ ↦ ?_
  refine Conductor.moves_listAttempts.attempt_seq (fun attempts s₃ hs₃ ↦ ?_) fun error s₃ ↦ ?_
  · cases items with
    | error _ => exact returns_ok.2 (by simp)
    | ok items =>
      refine (Conductor.lasting_attempts.after (moves_readCleanups attempts) hs₃).seq
        fun cleanups s₄ hs₄ ↦ .ite (fun _ ↦ ?_) fun _ ↦ returns_ok.2 (by simp)
      exact returns_ok.2 fun proposal h ↦ grounded_of_mem hs₄ h
  · cases items with
    | error _ => exact returns_ok.2 (by simp)
    | ok items => exact returns_ok.2 (by simp)

theorem moves_readRuntimeActionState (proposal : ReconciliationProposal) :
    itemProtocol.Keeps p t (readRuntimeActionState proposal) := by
  have hcleanup {attemptId : AttemptId} :
      itemProtocol.Keeps p t (Conductor.getAttemptCleanup attemptId) :=
    moves_plain Conductor.keeps_getAttemptCleanup
  have hattempt {attemptId : AttemptId} :
      itemProtocol.Keeps p t (Conductor.getAttempt attemptId) :=
    Safe.keeps fun _ ↦ Dispatcher.moves_getAttempt
  cases proposal with
  | resetAbandonedQueueItem item => exact Keeps.bind moves_read_item fun _ ↦ keeps_ret _
  | quarantineQueueItem item => exact Keeps.bind moves_read_item fun _ ↦ keeps_ret _
  | bindQueueToAttempt item attempt =>
    exact Keeps.bind moves_read_item fun _ ↦ hattempt.bind fun _ ↦ keeps_ret _
  | synchronizeQueueFromTerminalAttempt item attempt cleanup =>
    exact Keeps.bind moves_read_item fun _ ↦ hattempt.bind fun _ ↦ hcleanup.bind fun _ ↦ keeps_ret _
  | recoverInterruptedAttempt attempt cleanup =>
    exact hattempt.bind fun _ ↦ hcleanup.bind fun _ ↦ keeps_ret _

/-- An action that is grounded is a move. -/
theorem moves_executeRuntimeAction {proposal : ReconciliationProposal} (hs : Grounded s proposal) :
    itemProtocol.Safe self.process self.thread (Returns fun _ _ ↦ True)
      (executeRuntimeAction self proposal) s := by
  have hpure {prog : Runtime QueueItem} {w : World}
      (h : itemProtocol.Safe self.process self.thread (Returns fun _ _ ↦ True) prog w) :
      itemProtocol.Safe self.process self.thread (Returns fun _ _ ↦ True)
        (do
          let _ ← prog
          return () : Runtime Unit) w := h.seq fun _ _ _ ↦ returns_ok.2 trivial
  cases proposal with
  | resetAbandonedQueueItem item =>
    refine hpure (moves_reconcile lasting_pure (J := fun _ ↦ True) (fun w now _ _ hvalid ↦ .reset ?_) trivial)
    by_contra hnot
    push Not at hnot
    simp [assertQueueReconciliationTransition, hnot] at hvalid
  | quarantineQueueItem item =>
    exact hpure (moves_reconcile lasting_pure (J := fun _ ↦ True) (fun _ _ _ _ _ ↦ .quarantine) trivial)
  | bindQueueToAttempt item attempt =>
    refine hpure (moves_reconcile lasting_grounded (fun w now hw _ hvalid ↦ ?_) hs)
    refine .rebind attempt ?_ hw.1 hw.2
    by_contra hnot
    simp [assertQueueReconciliationTransition, hnot] at hvalid
  | synchronizeQueueFromTerminalAttempt item attempt cleanup =>
    refine .ite (fun _ ↦ returns_error) fun hterminal ↦ ?_
    refine (lasting_grounded.after moves_currentDate hs).seq fun now s₁ hs₁ ↦ ?_
    refine hpure (moves_reconcile lasting_grounded (fun w _ hw _ _ ↦ ?_) hs₁)
    exact .synchronize attempt cleanup.status now hw (by simpa using hterminal)
  | recoverInterruptedAttempt attempt cleanup =>
    exact Keeps.returns (Keeps.bind (Safe.keeps fun _ ↦ Dispatcher.moves_recoverInterruptedAttempt)
      fun _ ↦ (moves_plain Conductor.keeps_getAttemptCleanup).bind fun _ ↦ keeps_ret _) s

theorem moves_applyRuntimeAction {proposal : ReconciliationProposal} (hs : Grounded s proposal) :
    itemProtocol.Safe self.process self.thread (Returns fun _ _ ↦ True)
      (applyRuntimeAction self proposal) s := by
  refine (lasting_grounded.after (Safe.keeps fun _ ↦ moves_inspect) hs).seq fun offered s₁ hs₁ ↦ .ite
    (fun _ ↦ (lasting_grounded.after (moves_readRuntimeActionState proposal) hs₁).seq
      fun current s₁ hs₁ ↦ .ite (fun _ ↦ returns_error) fun _ ↦ ?_) fun _ ↦ ?_
  -- an action that is offered, and one whose effect is there, go on in the same way
  all_goals
    refine (lasting_grounded.after moves_storeRead hs₁).seq fun unowned s₃ hs₃ ↦
      .ite (fun _ ↦ returns_error) fun _ ↦ ?_
    refine (lasting_grounded.after QueueStore.moves_acquireLease hs₃).seq fun lease s₄ hs₄ ↦ ?_
    cases lease with
    | none => exact returns_error
    | some lease =>
      refine Safe.ensuring (R := Returns fun _ _ ↦ True) ?_ fun r s₅ _ ↦
        (QueueStore.moves_releaseLease s₅).mono fun u _ _ ↦ by cases u <;> intro _ _ <;> trivial
      refine (lasting_grounded.after (moves_readRuntimeActionState proposal) hs₄).seq
        fun current s₅ hs₅ ↦ ?_
      by_cases hsame : current = proposal
      · rw [if_neg (by simpa using hsame), hsame]
        exact moves_executeRuntimeAction hs₅
      · rw [if_pos hsame]
        exact .ite (fun _ ↦ returns_ok.2 trivial) fun _ ↦ returns_error

/-- An owner's choice among what an inspection offers. -/
theorem moves_reconcileChoice {choice : ℕ} :
    itemProtocol.Keeps self.process self.thread (reconcile self choice) := by
  refine Safe.keeps (Q := Returns fun _ _ ↦ True) fun s ↦ moves_inspect.seq fun offered s₁ hs₁ ↦ ?_
  cases hchoice : offered[choice]? with
  | none => exact returns_ok.2 trivial
  | some proposal =>
    exact moves_applyRuntimeAction (hs₁ proposal (List.mem_of_getElem? hchoice))

end Reconciler

end CodeConductor
