import CodeConductor.Items.Protocol

/-!
# The programs of the queue make moves

Every program of the dispatcher and of the reconciler keeps the agreement on items: what it commits is
a move. Where the move rests on something read earlier, such as the attempt that was reserved or the
manifest a recovery closed, the fact lasts and is carried to the commit; what the move needs to know of
the item itself the program has tested on the snapshot it commits over, or follows from the history of
that snapshot.
-/

namespace CodeConductor

open Async Async.Prog Async.Protocol

variable {self : Self} {p t : ℕ} {s : World}

/-- The evidence is about a manifest of an attempt of the job. -/
def AttemptCompletionEvidence.Of (result : AttemptCompletionEvidence) (jobId : JobId) (w : World) :
    Prop :=
  ∃ m cleanupStatus, AttemptManifest.Of m jobId w ∧ result = m.evidence cleanupStatus

theorem lasting_evidence {result : AttemptCompletionEvidence} {jobId : JobId} :
    Lasting (result.Of jobId) := by
  rintro w w' h ⟨m, cleanupStatus, hm, rfl⟩
  exact ⟨m, cleanupStatus, hm.gains h.gains, rfl⟩

/-! ### The queue store -/

namespace QueueStore

theorem moves_readAs {label : RuntimeStep} {jobId : JobId} :
    itemProtocol.Safe p t
      (Returns fun item w ↦ item.jobId = jobId ∧ item ∈ w.items jobId ∧ item.Accounted w)
      (readAs label jobId) s := by
  refine safe_storeRead itemProtocol_refl fun w n _ hinv _ _ item hitem ↦ ?_
  split at hitem
  · rename_i item' heq
    obtain rfl := Except.ok.inj hitem
    have hmem : item' ∈ w.items jobId := List.mem_of_mem_head? heq
    exact ⟨(hinv.2 jobId).jobId_eq hmem, hmem, (hinv.2 jobId).accounted hmem⟩
  · exact absurd hitem (by simp)

theorem moves_readAs_keeps {label : RuntimeStep} {jobId : JobId} :
    itemProtocol.Keeps p t (readAs label jobId) := Safe.keeps fun _ ↦ moves_readAs

theorem moves_read_item {jobId : JobId} : itemProtocol.Keeps p t (read jobId) :=
  moves_readAs_keeps

/-- The fields of the items read fit together. -/
theorem moves_readItems (jobIds : List JobId) :
    itemProtocol.Safe p t (Returns fun items w ↦ ∀ item ∈ items, item.Accounted w)
      (readItems jobIds) s := by
  induction jobIds generalizing s with
  | nil => exact returns_ok.2 (by simp)
  | cons jobId rest ih =>
    refine moves_readAs.seq fun item s₁ hitem ↦ ?_
    refine (lasting_accounted.returns ih hitem.2.2).seq fun items s₂ hs₂ ↦ ?_
    exact returns_ok.2 (List.forall_mem_cons.2 ⟨hs₂.2, hs₂.1⟩)

theorem moves_list :
    itemProtocol.Safe p t (Returns fun items w ↦ ∀ item ∈ items, item.Accounted w) list s := by
  refine Keeps.seq moves_storeRead fun jobIds s₁ ↦ (moves_readItems jobIds).seq fun items s₂ hs₂ ↦ ?_
  exact returns_ok.2 fun item hi ↦ hs₂ item ((List.mem_insertionSort _).1 hi)

theorem moves_list_keeps : itemProtocol.Keeps p t list := Safe.keeps fun _ ↦ moves_list

theorem moves_createItem {contract : JobContract} {options : QueueOptions} :
    itemProtocol.Keeps p t (createItem contract options) := by
  refine Safe.keeps fun s ↦ safe_storeWrite itemProtocol_refl (Q := fun _ _ ↦ True)
    fun w n _ hinv _ _ ↦ ?_
  split
  · rename_i hnew
    have hsame (item : QueueItem) : SameAttempts w (w.createItem item) :=
      ⟨rfl, rfl, rfl, rfl, rfl, rfl⟩
    exact ⟨⟨(hsame _).inv hinv.1, hinv.2.createItem⟩,
      ⟨(hsame _).guar .all p t n, .createItem hnew⟩, fun _ _ ↦ trivial⟩
  · exact ⟨hinv, itemProtocol_refl n w, fun _ _ ↦ trivial⟩

theorem moves_enqueue {contract : JobContract} {options : QueueOptions} :
    itemProtocol.Keeps p t (enqueue contract options) := by
  refine Keeps.bind moves_createItem fun item ↦ ?_
  cases item with
  | some item => exact keeps_ret _
  | none => exact Keeps.bind moves_read_item fun _ ↦ .ite (keeps_ret _) (keeps_ret _)

section Commit

variable {J : World → Prop} {item : QueueItem} {patch : QueuePatch} {now : Timestamp}

/-- Pushing a move over the snapshot it was computed from. -/
theorem moves_pushItem (hJ : Lasting J)
    (h : ∀ w, J w → item.Accounted w → QueueMove w item patch) (hs : J s) :
    itemProtocol.Safe p t (Returns fun _ w ↦ J w) (pushItem item (item.merge patch now)) s := by
  refine safe_storeWrite itemProtocol_refl fun w n _ hinv hrely _ ↦ ?_
  have hw : J w := hJ _ _ hrely.2 hs
  split
  · rename_i hnewest
    have haccounted := (hinv.2 item.jobId).accounted (List.mem_of_mem_head? hnewest)
    have hsame : SameAttempts w (w.pushItem (item.merge patch now)) := ⟨rfl, rfl, rfl, rfl, rfl, rfl⟩
    exact ⟨⟨hsame.inv hinv.1, hinv.2.pushItem hnewest (h w hw haccounted)⟩,
      ⟨hsame.guar .all p t n, .pushItem⟩, fun _ _ ↦ hJ _ _ .pushItem hw⟩
  · exact ⟨hinv, itemProtocol_refl n w, fun _ _ ↦ hw⟩

/-- **A commit is a move**, when what lasts and the fields of the item make it one. -/
theorem moves_commitQueueUpdate {validate : QueueItem → QueueItem → Except RuntimeError Unit}
    (hJ : Lasting J) (h : ∀ w now, J w → item.Accounted w →
      validate item (item.merge patch now) = .ok () → QueueMove w item patch) (hs : J s) :
    itemProtocol.Safe p t
      (Returns fun updated w ↦ J w ∧ ∃ now, updated = item.merge patch now)
      (commitQueueUpdate item patch validate) s := by
  refine (hJ.after moves_read_item hs).seq fun current s₁ hs₁ ↦ ?_
  by_cases hcurrent : current = item
  · subst hcurrent
    rw [if_neg (by simp)]
    refine (hJ.after moves_currentDate hs₁).seq fun now s₂ hs₂ ↦ ?_
    cases hupdated : current.updated validate patch now with
    | error e => exact returns_error
    | ok updated =>
      obtain ⟨rfl, hvalid⟩ := QueueItem.updated_ok hupdated
      have hcommit : itemProtocol.Safe p t (Returns fun _ w ↦ J w)
          (commitItem current (current.merge patch now)) s₂ :=
        (moves_pushItem hJ (fun w hw hi ↦ h w now hw hi hvalid) hs₂).seq fun _ _ hs₃ ↦
          hJ.after moves_storeRead hs₃
      exact hcommit.seq fun _ s₃ hs₃ ↦ returns_ok.2 ⟨hs₃, now, rfl⟩
  · rw [if_pos hcurrent]
    exact returns_error

/-- `update`, whose transition the table allows. -/
theorem moves_update (hJ : Lasting J) (h : ∀ w, J w → item.Accounted w →
    patch.status.getD item.status ∈ item.status.allowed → QueueMove w item patch) (hs : J s) :
    itemProtocol.Safe p t
      (Returns fun updated w ↦ J w ∧ ∃ now, updated = item.merge patch now)
      (update item patch) s := by
  refine moves_commitQueueUpdate hJ (fun w now hw hi hvalid ↦ h w hw hi ?_) hs
  by_contra hnot
  rw [assertQueueTransition, if_neg (show (item.merge patch now).status ∉ _ from hnot)] at hvalid
  exact absurd hvalid (by simp)

/-- `update`, when nothing but the item has to be known. -/
theorem moves_update_keeps (h : ∀ w, item.Accounted w →
    patch.status.getD item.status ∈ item.status.allowed → QueueMove w item patch) :
    itemProtocol.Keeps p t (update item patch) :=
  Safe.keeps fun _ ↦ moves_update lasting_pure (J := fun _ ↦ True) (fun w _ ↦ h w) trivial

/-- `reconcile`, whose move does not depend on the validation. -/
theorem moves_reconcile {kind : QueueReconciliationKind} (hJ : Lasting J)
    (h : ∀ w now, J w → item.Accounted w →
      assertQueueReconciliationTransition kind item (item.merge patch now) = .ok () →
        QueueMove w item patch) (hs : J s) :
    itemProtocol.Safe p t (Returns fun _ _ ↦ True) (reconcile item patch kind) s :=
  (moves_commitQueueUpdate hJ h hs).weaken fun _ _ _ ↦ trivial

end Commit

theorem moves_acquireLease : itemProtocol.Keeps p t (acquireLease self) :=
  moves_storeWrite fun w ↦ by
    split
    · exact ⟨⟨rfl, rfl, rfl, rfl, rfl, rfl⟩, rfl, rfl⟩
    · exact ⟨.refl w, .refl w⟩

theorem moves_releaseLease {lease : QueueLease} : itemProtocol.Keeps p t (releaseLease lease) :=
  moves_storeWrite fun w ↦ by
    split
    · exact ⟨⟨rfl, rfl, rfl, rfl, rfl, rfl⟩, rfl, rfl⟩
    · exact ⟨.refl w, .refl w⟩

end QueueStore

/-! ### What conductors return -/

namespace Conductor

/-- What `waitForAttempt` returns is evidence of the job of the attempt. -/
theorem moves_waitForAttempt {attemptId : AttemptId} {jobId : JobId}
    (hid : attemptId.jobId = jobId) :
    itemProtocol.Safe self.process self.thread (Returns fun result w ↦ result.Of jobId w)
      (waitForAttempt self attemptId) s :=
  (moves_conductor_returns safe_waitForAttempt).weaken fun _ _ ⟨m, c, hm, heq, hresult⟩ ↦
    ⟨m, c, ⟨heq ▸ hm, (congrArg AttemptId.jobId heq).trans hid⟩, hresult⟩

/-- Attempts that are listed are in the journals. -/
theorem safe_readAttempts {L : License} (attemptIds : List AttemptId) :
    (conductorProtocol L).Safe p t
      (Returns fun attempts w ↦ ∀ m ∈ attempts, m ∈ w.attempts m.attemptId)
      (ArtifactStore.readAttempts attemptIds) s := by
  induction attemptIds generalizing s with
  | nil => exact returns_ok.2 (by simp)
  | cons attemptId rest ih =>
    refine (safe_readAttempt attemptId).seq fun m s₁ ⟨hm, hid, _⟩ ↦ ?_
    refine (ih.keeping (J := fun w ↦ m ∈ w.attempts m.attemptId) (fun _ _ hr ↦ hr.mem)
      (fun _ _ _ hg ↦ hg.1.mem) (hid ▸ hm)).seq fun attempts s₂ ⟨hattempts, hm⟩ ↦ ?_
    exact returns_ok.2 (List.forall_mem_cons.2 ⟨hm, hattempts⟩)

theorem moves_listAttempts : itemProtocol.Safe p t
    (Returns fun attempts w ↦ ∀ m ∈ attempts, m ∈ w.attempts m.attemptId)
    ArtifactStore.listAttempts s := by
  refine Keeps.seq moves_storeRead fun attemptIds s₁ ↦
    (moves_conductor_returns (L := {}) (safe_readAttempts attemptIds)).seq fun attempts s₂ hs₂ ↦ ?_
  exact returns_ok.2 fun m hm ↦ hs₂ m ((List.mem_insertionSort _).1 hm)

theorem lasting_attempts {attempts : List AttemptManifest} :
    Lasting fun w ↦ ∀ m ∈ attempts, m ∈ w.attempts m.attemptId :=
  fun _ _ h hw m hm ↦ h.gains.attempts _ m (hw m hm)

end Conductor

/-! ### The dispatcher -/

namespace Dispatcher

open QueueStore

theorem sameItems_setDispatcher {w : World} {memory : DispatcherMemory} :
    SameItems w (w.setDispatcher p memory) := ⟨rfl, rfl⟩

theorem moves_setMemory {label : RuntimeStep} {f : DispatcherMemory → DispatcherMemory} :
    itemProtocol.Keeps p t (setMemory self label f) :=
  moves_atomic (f := fun w ↦ (.ok (), w.setDispatcher self.process (f (w.dispatcher self.process))))
    fun _ ↦ ⟨⟨rfl, rfl, rfl, rfl, rfl, rfl⟩, sameItems_setDispatcher⟩

theorem moves_getMemory : itemProtocol.Keeps p t (getMemory self) := moves_read

theorem moves_blocked {A : Type} : itemProtocol.Keeps p t (blocked : Runtime A) := moves_await

/-- An operation under the state lock, with what it is known to return. -/
theorem moves_withStateLock_returns {A : Type} {Q : A → World → Prop} {operation : Runtime A}
    (hQ : ∀ a, Lasting (Q a)) (h : ∀ s, itemProtocol.Safe p t (Returns Q) operation s) :
    itemProtocol.Safe p t (Returns Q) (withStateLock self operation) s := by
  rw [withStateLock]
  refine Keeps.seq moves_setMemory fun _ _ ↦ Keeps.seq moves_await fun _ s₂ ↦ ?_
  refine (h s₂).ensuring fun r s₃ hr ↦ ?_
  cases r with
  | error e => exact (moves_setMemory s₃).mono fun r _ _ ↦ by cases r <;> exact returns_error
  | ok a =>
    refine ((hQ a).after moves_setMemory (returns_ok.1 hr)).mono fun r w hw ↦ ?_
    cases r with
    | ok u => exact returns_ok.2 (hw u rfl)
    | error e => exact returns_error

theorem moves_withStateLock {A : Type} {operation : Runtime A}
    (h : itemProtocol.Keeps p t operation) :
    itemProtocol.Keeps p t (withStateLock self operation) := by
  rw [withStateLock]
  exact Keeps.bind moves_setMemory fun _ ↦ Keeps.bind moves_await fun _ ↦ h.ensuring moves_setMemory

theorem moves_reachFailpoint {point : DispatchFailpointName} :
    itemProtocol.Keeps p t (reachFailpoint point) := moves_askOutside

theorem moves_enqueue {contract : JobContract} {options : QueueOptions} :
    itemProtocol.Keeps p t (enqueue contract options) := by
  rw [enqueue]
  refine Keeps.bind moves_askOutside fun _ ↦ Keeps.bind ?_ fun contract ↦
    .ite (keeps_ret _) QueueStore.moves_enqueue
  refine Safe.keeps fun s ↦ safe_storeWrite itemProtocol_refl (Q := fun _ _ ↦ True)
    fun w n _ hinv _ _ ↦ ?_
  split
  · -- the contract is new
    have hsame : SameAttempts w { w with contracts := w.contracts ++ [contract] } :=
      ⟨rfl, rfl, rfl, rfl, rfl, rfl⟩
    exact ⟨⟨hsame.inv hinv.1, hinv.2.grows .addContract rfl⟩,
      ⟨hsame.guar .all p t n, .addContract⟩, fun _ _ ↦ trivial⟩
  · split
    · exact ⟨hinv, itemProtocol_refl n w, fun _ _ ↦ trivial⟩
    · exact ⟨hinv, itemProtocol_refl n w, fun _ _ ↦ trivial⟩

/-! ### A dispatch pass -/

section Pass

variable {items : List QueueItem} {item : QueueItem} {deps : List QueueItem}

theorem moves_newDispatchOperation :
    itemProtocol.Keeps p t (newDispatchOperation item items) :=
  moves_atomic fun _ ↦ ⟨⟨rfl, rfl, rfl, rfl, rfl, rfl⟩, rfl, rfl⟩

theorem moves_startExecution {running : QueueItem} :
    itemProtocol.Keeps p t (startExecution self running) :=
  moves_fork (fun _ _ _ ↦ trivial) fun _ _ ↦
    ⟨⟨rfl, rfl, rfl, rfl, rfl, rfl⟩, sameItems_setDispatcher⟩

/-- An item that has not ended may be put aside. -/
theorem moves_setAside {message : String} (h : item.status.isTerminal = false) :
    itemProtocol.Keeps p t
      (update item { status := some .needsInput, message := some (some message) }) :=
  moves_update_keeps fun _ _ _ ↦ .setAside message h

theorem moves_reservationRejected {error : RuntimeError} (h : item.status.isTerminal = false) :
    itemProtocol.Keeps p t (reservationRejected item error) := by
  refine Keeps.bind moves_read fun _ ↦ ?_
  cases error with
  | proposalLineage reason => exact (moves_setAside h).bind fun _ ↦ keeps_ret _
  | _ => exact keeps_ret _

/-- What a pass reserves for an operation is an attempt of the job and of the operation. -/
theorem moves_reservePreparedAttempt {jobId : JobId} {parents : List AttemptId} {operation : Uuid} :
    itemProtocol.Safe p t
      (Returns fun result w ↦ ∃ m, AttemptManifest.Of m jobId w ∧
        m.dispatchOperationId = some operation ∧ m.attemptId = result.attemptId)
      (Conductor.reservePreparedAttempt jobId parents (some operation)) s :=
  (moves_conductor_returns Conductor.safe_reservePreparedAttempt).weaken
    fun _ _ ⟨m, hm, hmem, hid⟩ ↦ ⟨m, ⟨hmem, hm.jobId⟩, hm.dispatchOperationId, hid⟩

theorem moves_dispatchItem (hqueued : item.status = .queued) :
    itemProtocol.Keeps p t (dispatchItem self items item deps) := by
  rw [dispatchItem]
  refine Keeps.bind (keeps_ret _) fun parents ↦ Keeps.bind moves_newDispatchOperation
    fun operation ↦ Safe.keeps (Q := Returns fun _ _ ↦ True) fun s ↦ ?_
  refine Safe.seq (moves_update lasting_pure (J := fun _ ↦ True)
    (fun _ _ _ _ ↦ .dispatch operation hqueued) trivial) fun dispatching s₁ ⟨_, now, hitem⟩ ↦ ?_
  have hstatus : dispatching.status = .dispatching := by rw [hitem]; rfl
  have hoperation : dispatching.dispatchOperationId = some operation := by rw [hitem]; rfl
  refine Keeps.seq moves_reachFailpoint fun _ s₂ ↦ ?_
  refine moves_reservePreparedAttempt.attempt_seq (fun reserved s₃ ⟨m, hm, hmop, hid⟩ ↦ ?_)
    fun error s₃ ↦ ?_
  · refine (lasting_of.after moves_reachFailpoint hm).seq fun _ s₄ hm ↦ ?_
    have hbind (w : World) (hw : m.Of item.jobId w) : QueueMove w dispatching
        { status := some .running, attemptId := some (some reserved.attemptId) } := by
      rw [← hid]
      exact .bind m none hstatus (by rw [hitem]; exact hw) (hmop.trans hoperation.symm)
    refine (moves_update lasting_of (fun w hw _ _ ↦ hbind w hw) hm).seq fun running s₅ _ ↦ ?_
    exact Keeps.returns (Keeps.bind moves_reachFailpoint fun _ ↦
      Keeps.bind moves_startExecution fun _ ↦ keeps_ret _) s₅
  · have hlive : dispatching.status.isTerminal = false := by rw [hstatus]; rfl
    exact Keeps.returns (Keeps.bind (moves_reservationRejected hlive) fun _ ↦ keeps_ret _) s₃

theorem moves_dispatchItems (rest : List QueueItem) (dispatched : ℕ) :
    itemProtocol.Keeps p t (dispatchItems self items rest dispatched) := by
  induction rest generalizing dispatched with
  | nil => exact keeps_ret _
  | cons item rest ih =>
    rw [dispatchItems]
    refine Keeps.bind moves_getMemory fun memory ↦ ?_
    by_cases hskip : item.status ≠ .queued ∨ memory.active.any (fun entry ↦ entry.1 = item.jobId)
    · rw [if_pos hskip]
      exact ih _
    · rw [if_neg hskip]
      have hqueued : item.status = .queued := by
        by_contra hne
        exact hskip (.inl hne)
      cases readiness items item with
      | failed dependency =>
        exact (moves_setAside (by rw [hqueued]; rfl)).bind fun _ ↦ ih _
      | waiting => exact ih _
      | ready deps =>
        refine Keeps.bind moves_read fun maxConcurrent ↦ .ite (keeps_ret _) ?_
        exact (moves_dispatchItem hqueued).bind fun more ↦ .ite (ih _) (ih _)

theorem moves_dispatchAvailable {submitted : Bool} :
    itemProtocol.Keeps p t (dispatchAvailable self submitted) := by
  refine moves_withStateLock (Keeps.bind (moves_atomic fun w ↦ ?_) fun _ ↦
    Keeps.ensuring (Keeps.bind moves_list_keeps fun items ↦ moves_dispatchItems items 0) moves_setMemory)
  dsimp only
  split
  · exact ⟨.refl w, .refl w⟩
  · exact ⟨⟨rfl, rfl, rfl, rfl, rfl, rfl⟩, sameItems_setDispatcher⟩

end Pass

/-! ### The execution of an item -/

section Execution

variable {item : QueueItem} {result : AttemptCompletionEvidence}

theorem moves_finishItem (hs : result.Of item.jobId s) :
    itemProtocol.Safe p t (Returns fun _ _ ↦ True) (finishItem item result) s := by
  refine (lasting_evidence.returns moves_readAs hs).seq fun current s₁ ⟨⟨hjob, _⟩, hs₁⟩ ↦ ?_
  refine (lasting_evidence.after moves_currentDate hs₁).seq fun now s₂ hs₂ ↦ ?_
  refine Safe.seq (moves_update lasting_evidence (fun w hw _ hallowed ↦ ?_) hs₂)
    fun _ _ _ ↦ returns_ok.2 trivial
  obtain ⟨m, c, hm, rfl⟩ := hw
  exact .finish m c now (hjob ▸ hm) hallowed

/-- What was launched is an attempt of the job of the item. -/
theorem moves_claimAndLaunch :
    itemProtocol.Safe self.process self.thread
      (Returns fun launched _ ↦ ∀ attemptId, launched = some attemptId →
        attemptId.jobId = item.jobId) (claimAndLaunch self item) s := by
  refine moves_readAs.seq fun current s₁ ⟨hjob, _, haccounted⟩ ↦ ?_
  split
  · rename_i attemptId operation _ hid _
    obtain ⟨m, hm, rfl⟩ := haccounted.attempt attemptId hid
    have hclaim : itemProtocol.Keeps self.process self.thread
        (Conductor.claimReservedAttempt self m.attemptId operation) :=
      moves_conductor Conductor.keeps_claimReservedAttempt
    have hlaunch : itemProtocol.Keeps self.process self.thread
        (Conductor.launchClaimedAttempt self m.attemptId operation) :=
      moves_conductor Conductor.keeps_launchClaimedAttempt
    refine hclaim.seq fun _ _ ↦ Keeps.seq moves_reachFailpoint fun _ _ ↦ hlaunch.seq fun _ _ ↦ ?_
    refine returns_ok.2 fun attemptId hsome ↦ ?_
    obtain rfl := Option.some.inj hsome
    exact hm.jobId.trans hjob
  · exact returns_ok.2 fun _ h ↦ absurd h (by simp)

theorem moves_runItem : itemProtocol.Keeps self.process self.thread (runItem self item) := by
  refine Safe.keeps (Q := Returns fun _ _ ↦ True) fun s ↦ ?_
  refine (moves_withStateLock_returns (fun _ ↦ lasting_pure) fun _ ↦ moves_claimAndLaunch).seq
    fun launched s₁ hid ↦ ?_
  cases launched with
  | none => exact returns_ok.2 trivial
  | some attemptId =>
    refine (Conductor.moves_waitForAttempt (hid attemptId rfl)).seq fun result s₂ hresult ↦ ?_
    -- the lock may be a while in coming, and the evidence lasts
    rw [withStateLock]
    refine (lasting_evidence.after moves_setMemory hresult).seq fun _ s₃ hs₃ ↦ ?_
    refine (lasting_evidence.after moves_await hs₃).seq fun _ s₄ hs₄ ↦ ?_
    refine (moves_finishItem hs₄).ensuring fun r s₅ _ ↦ ?_
    exact (moves_setMemory s₅).mono fun u _ _ ↦ by cases u <;> intro _ _ <;> trivial

theorem moves_failItem {error : RuntimeError} : itemProtocol.Keeps p t (failItem item error) := by
  refine Keeps.bind moves_readAs_keeps fun current ↦ .ite (keeps_ret _) (Keeps.bind ?_ fun _ ↦
    keeps_ret _)
  exact moves_update_keeps fun _ _ hallowed ↦ .fail _ hallowed

theorem moves_executeItem : itemProtocol.Keeps self.process self.thread (executeItem self item) := by
  refine Keeps.catching moves_runItem fun error ↦ ?_
  cases error with
  | dispatchFailpoint point cause => exact keeps_ret _
  | _ => exact moves_withStateLock moves_failItem

theorem moves_runExecution :
    itemProtocol.Keeps self.process self.thread (runExecution self item) :=
  Keeps.bind (Keeps.attempt moves_executeItem) fun _ ↦ Keeps.bind moves_setMemory fun _ ↦
    moves_setMemory

end Execution

end Dispatcher

end CodeConductor
