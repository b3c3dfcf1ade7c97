import CodeConductor.Gate.Programs
import CodeConductor.Launch.Once

/-!
# No attempt without completed dependencies

Dispatchers, owners and reconciliations share one data root, and any process may die. Whoever calls
an item completed, be it the end of an execution, a recovery or a reconciliation, writes the
projection of an attempt's evidence with it; and no attempt comes into being but from a selection.
-/

namespace CodeConductor

open Async Async.Prog Async.Protocol

/-- What a world shows of completions, attempts and workers. -/
structure Gated (w : World) : Prop where
  /-- A completed item carries the evidence of its own attempt. -/
  completed : ∀ jobId, ∀ item ∈ w.items jobId, item.status = .completed → ∃ completion,
    item.completion = some completion ∧ item.attemptId = some completion.attemptId ∧
      completion.attemptStatus = .completed ∧ completion.verificationStatus = .eligible ∧
      (completion.cleanupStatus = some .notRequired ∨ completion.cleanupStatus = some .proven)
  /-- The snapshot a selection was made from shows the queue. -/
  snapshots : ∀ sel ∈ w.selections, ∀ item ∈ sel.items, item ∈ w.items item.jobId
  /-- An attempt was reserved for an item whose dependencies its snapshot shows completed, and it
  builds on exactly their proposals. -/
  reserved : ∀ id, ∀ m ∈ w.attempts id, ∃ sel ∈ w.selections,
    m.dispatchOperationId = some sel.dispatchOperationId ∧ sel.Approves id.jobId m.parents
  /-- A worker was started for such an item. -/
  started : ∀ l ∈ w.workerStarts, ∃ sel ∈ w.selections,
    sel.dispatchOperationId = l.dispatchOperationId ∧ sel.item.jobId = l.attemptId.jobId ∧
      ∀ jobId ∈ sel.item.dependsOnJobIds, ∃ d ∈ sel.items, d.jobId = jobId ∧ d.status = .completed

/-- **Completion and dependency gating.** Whatever is asked of dispatchers and reconcilers, whatever
fails and whoever dies: items are completed by evidence only, and attempts are reserved and their
workers started behind completed dependencies only. -/
def CompletionGating : Prop :=
  ∀ outside cfg,
    dispatcherSystem.Reaches System.unrestricted (.start (World.empty [] outside)) cfg →
      Gated cfg.shared

/-! ### From the invariant to the promise -/

theorem QueueItem.Evidenced.completion {item : QueueItem} (h : item.Evidenced)
    (hcompleted : item.status = .completed) : ∃ completion,
      item.completion = some completion ∧ item.attemptId = some completion.attemptId ∧
        completion.attemptStatus = .completed ∧ completion.verificationStatus = .eligible ∧
        (completion.cleanupStatus = some .notRequired ∨
          completion.cleanupStatus = some .proven) := by
  obtain ⟨completion, attemptId, cleanupStatus, hcompletion, hattempt, hid, hstatus, heligible,
    hcleanup, hsafe⟩ := h.completed hcompleted
  refine ⟨completion, hcompletion, hid ▸ hattempt, hstatus, heligible, ?_⟩
  cases cleanupStatus with
  | notRequired => exact .inl hcleanup
  | proven => exact .inr hcleanup
  | _ => exact absurd hsafe (by decide)

theorem Selection.Approves.completed {sel : Selection} {jobId : JobId}
    {parents : Option (List AttemptId)} (h : sel.Approves jobId parents) {dependency : JobId}
    (hd : dependency ∈ sel.item.dependsOnJobIds) :
    ∃ d ∈ sel.items, d.jobId = dependency ∧ d.status = .completed := by
  obtain ⟨dependencies, completions, hjobs, hall, -, -⟩ := h.dependencies
  rw [← hjobs] at hd
  obtain ⟨d, hmem, hjob⟩ := List.mem_map.1 hd
  exact ⟨d, (hall d hmem).1, hjob, (hall d hmem).2⟩

theorem gated_of_inv {n : ℕ} {w : World} (hinv : gatingProtocol.inv n w) : Gated w where
  completed jobId item hi hcompleted := (hinv.2.items jobId item hi).2.completion hcompleted
  snapshots sel hs item hi := (hinv.2.snapshot sel hs).2 item hi
  reserved := hinv.2.attempts
  started l hl := by
    -- the attempt of the worker has the dispatch operation the worker was started for
    obtain ⟨-, m, hm, -, -, hoperation⟩ := hinv.1.starts l hl
    obtain ⟨sel, hsel, hop, happroves⟩ :=
      hinv.2.attempts l.attemptId m (World.mem_attempts_of_attempt? hm)
    have hsame : sel.dispatchOperationId = l.dispatchOperationId :=
      Option.some.inj (hop.symm.trans hoperation)
    exact ⟨sel, hsel, hsame, happroves.jobId, fun dependency hd ↦ happroves.completed hd⟩

/-! ### The agreement of the system -/

theorem GateInv.crash {w : World} (h : GateInv w) (p : ℕ) : GateInv (w.crash p) :=
  h.of_same ⟨rfl, rfl, le_rfl⟩ rfl

theorem gatingProtocol_outside {p t : ℕ} {f : World → World}
    (h : ∀ w, SameAttempts w (f w) ∧ SameQueue w (f w)) :
    gatingProtocol.Keeps p t (.modify .outside f : Runtime Unit) :=
  gated_atomic (f := fun w ↦ (.ok (), f w)) h

/-- Every call of the system keeps the agreement. -/
theorem keeps_dispatcherCall (self : Self) {call : RuntimeCall}
    (hcall : isDispatcherCall call = true) :
    gatingProtocol.Keeps self.process self.thread (runCall self.process self.thread call) := by
  have hdrop {A : Type} {prog : Runtime A}
      (h : gatingProtocol.Keeps self.process self.thread prog) :
      gatingProtocol.Keeps self.process self.thread
        (do
          let _ ← prog
          return () : Runtime Unit) := h.bind fun _ ↦ keeps_ret _
  cases call with
  | changeOutside outside =>
    exact gatingProtocol_outside fun w ↦ ⟨⟨rfl, rfl, rfl, rfl, rfl, rfl⟩, rfl, rfl, le_rfl⟩
  | failStorage failure =>
    exact gatingProtocol_outside fun w ↦ ⟨⟨rfl, rfl, rfl, rfl, rfl, rfl⟩, rfl, rfl, le_rfl⟩
  | enqueue contract options => exact hdrop Dispatcher.gated_enqueue
  | submit contract options fuel => exact hdrop Dispatcher.gated_submit
  | start fuel => exact Dispatcher.gated_start
  | stop cancelActive => exact Dispatcher.gated_stop
  | runUntilIdle fuel => exact Dispatcher.gated_runUntilIdle
  | cancel jobId => exact hdrop Dispatcher.gated_cancel
  | retry jobId => exact hdrop Dispatcher.gated_retry
  | reconcile choice => exact Reconciler.gated_reconcileChoice
  | _ => exact nomatch hcall

theorem gatingProtocol_sound : gatingProtocol.Sound dispatcherSystem fun _ _ _ ↦ True where
  inv_mono hnm h := ⟨h.1.mono hnm, h.2⟩
  rely_refl := ⟨.refl _ _ _, .refl _⟩
  rely_trans h h' := ⟨h.1.trans h'.1, h.2.trans h'.2⟩
  guar_rely hne _ _ _ h := ⟨h.1.rely hne, h.2⟩
  post_stable _ _ _ _ _ _ h := h
  call {p t _ s} _ hentry := keeps_dispatcherCall ⟨p, t⟩ (Bool.and_eq_true .. ▸ hentry).2 s
  fork {p t k n s} _ _ hpre := by
    let self : Self := ⟨p, t⟩
    cases k with
    | executeAttempt contract manifest operation =>
      have h : ExecutionPre self.process self.thread manifest operation s := hpre
      exact (Conductor.keeps_runExecution h).under
        (conductorProtocol_under_gating_of_not_creates fun _ h ↦ h)
    | executeItem item =>
      have h : gatingProtocol.Keeps self.process self.thread (Dispatcher.runExecution self item) :=
        Dispatcher.gated_runExecution
      exact h s
    | runLoop fuel =>
      have h : gatingProtocol.Keeps self.process self.thread
          (Dispatcher.runLoopPromise self fuel) := Dispatcher.gated_runLoopPromise
      exact h s
    | _ => exact nomatch hpre
  crash_inv h := ⟨h.1.crash _, h.2.crash _⟩
  crash_rely hne _ := ⟨AttemptRely.crash hne, fun _ _ h ↦ h, fun _ h ↦ h⟩

end CodeConductor
