import CodeConductor.Items.Requests
import CodeConductor.Launch.Once

/-!
# Every item can be accounted for

Dispatchers, owners and reconciliations share one data root, and any process may die. The journal of
an item is a history of moves throughout; so its snapshots are accounted for, its revisions count its
moves, and what recovery sent back to the queue stays within the budget of the contract.
-/

namespace CodeConductor

open Async Async.Prog Async.Protocol

/-! ### The agreement of the system -/

theorem itemProtocol_outside {p t : ℕ} {f : World → World}
    (h : ∀ w, SameAttempts w (f w) ∧ SameItems w (f w)) :
    itemProtocol.Keeps p t (.modify .outside f : Runtime Unit) :=
  moves_atomic (f := fun w ↦ (.ok (), f w)) h

/-- Every call of the system keeps the agreement. -/
theorem moves_dispatcherCall (self : Self) {call : RuntimeCall}
    (hcall : isDispatcherCall call = true) :
    itemProtocol.Keeps self.process self.thread (runCall self.process self.thread call) := by
  have hdrop {A : Type} {prog : Runtime A}
      (h : itemProtocol.Keeps self.process self.thread prog) :
      itemProtocol.Keeps self.process self.thread
        (do
          let _ ← prog
          return () : Runtime Unit) := h.bind fun _ ↦ keeps_ret _
  cases call with
  | changeOutside outside =>
    exact itemProtocol_outside fun w ↦ ⟨⟨rfl, rfl, rfl, rfl, rfl, rfl⟩, rfl, rfl⟩
  | failStorage failure =>
    exact itemProtocol_outside fun w ↦ ⟨⟨rfl, rfl, rfl, rfl, rfl, rfl⟩, rfl, rfl⟩
  | enqueue contract options => exact hdrop Dispatcher.moves_enqueue
  | submit contract options fuel => exact hdrop Dispatcher.moves_submit
  | start fuel => exact Dispatcher.moves_start
  | stop cancelActive => exact Dispatcher.moves_stop
  | runUntilIdle fuel => exact Dispatcher.moves_runUntilIdle
  | cancel jobId => exact hdrop Dispatcher.moves_cancel
  | retry jobId => exact hdrop Dispatcher.moves_retry
  | reconcile choice => exact Reconciler.moves_reconcileChoice
  | _ => exact absurd hcall (by simp [isDispatcherCall])

theorem World.Grows.crash (w : World) (p : ℕ) : w.Grows (w.crash p) :=
  ⟨⟨fun _ _ h ↦ h, fun _ _ h ↦ h⟩, fun _ ↦ List.suffix_rfl⟩

theorem itemProtocol_sound : itemProtocol.Sound dispatcherSystem fun _ _ _ ↦ True where
  inv_mono hnm h := ⟨h.1.mono hnm, h.2⟩
  rely_refl := ⟨.refl _ _ _, .refl _⟩
  rely_trans h h' := ⟨h.1.trans h'.1, h.2.trans h'.2⟩
  guar_rely hne _ _ _ h := ⟨h.1.rely hne, h.2⟩
  post_stable _ _ _ _ _ _ h := h
  call {p t _ s} _ hentry := moves_dispatcherCall ⟨p, t⟩ (Bool.and_eq_true .. ▸ hentry).2 s
  fork {p t k n s} _ _ hpre := by
    let self : Self := ⟨p, t⟩
    cases k with
    | executeAttempt contract manifest operation =>
      have h : ExecutionPre self.process self.thread manifest operation s := hpre
      exact (Conductor.keeps_runExecution h).under (conductorProtocol_under_items lasting_pure)
    | executeItem item =>
      have h : itemProtocol.Keeps self.process self.thread (Dispatcher.runExecution self item) :=
        Dispatcher.moves_runExecution
      exact h s
    | runLoop fuel =>
      have h : itemProtocol.Keeps self.process self.thread
          (Dispatcher.runLoopPromise self fuel) := Dispatcher.moves_runLoopPromise
      exact h s
    | _ => exact absurd hpre fun h ↦ h
  crash_inv {p n s} h := ⟨h.1.crash _, h.2.grows (.crash s p) rfl⟩
  crash_rely {p p' t n s} hne _ := ⟨AttemptRely.crash hne, .crash s p⟩

/-! ### What holds in every run -/

/-- The configurations that dispatchers and owners reach from a data root with nothing but contracts,
whatever is asked of them, whatever fails and whoever dies. -/
def DispatcherReaches (contracts : List JobContract) (outside : Outside) (cfg : RuntimeConfig) :
    Prop :=
  dispatcherSystem.Reaches System.unrestricted (.start (World.empty contracts outside)) cfg

/-- In every run, the fields of every snapshot of every item fit together, and what it says of
attempts is true. -/
def ItemsAccounted : Prop :=
  ∀ contracts outside cfg, DispatcherReaches contracts outside cfg →
    ∀ jobId, ∀ item ∈ cfg.shared.items jobId, item.jobId = jobId ∧ item.Accounted cfg.shared

/-- In every run, the newest snapshot of an item counts the commits below it and how often recovery
sent the job back to the queue; and that is no more often than the contract allows. -/
def RetriesWithinBudget : Prop :=
  ∀ contracts outside cfg, DispatcherReaches contracts outside cfg →
    ∀ jobId newest older, cfg.shared.items jobId = newest :: older →
      newest.revision = older.length ∧
      newest.automaticRetryCount = automaticRequeues (newest :: older) ∧
      newest.automaticRetryCount ≤ cfg.shared.retryBudget jobId

section Runs

variable {contracts : List JobContract} {outside : Outside} {cfg : RuntimeConfig}

/-- The agreement holds in every configuration reached. -/
theorem itemProtocol_inv (hreach : DispatcherReaches contracts outside cfg) :
    itemProtocol.inv cfg.next cfg.shared := by
  have hempty : itemProtocol.inv 0 (World.empty contracts outside) :=
    ⟨attemptInv_empty contracts outside, fun _ ↦ .absent⟩
  exact (itemProtocol_sound.pool (Protocol.pool_start hempty) hreach).inv

/-- **A job is sent back to the queue no more often than its contract allows**, in its whole life and
whatever its owner does. -/
theorem retriesWithinBudget : RetriesWithinBudget := by
  intro contracts outside cfg hreach jobId newest older hjournal
  have hhistory := (itemProtocol_inv hreach).2 jobId
  rw [hjournal] at hhistory
  exact ⟨hhistory.revision_eq, hhistory.automaticRetryCount_eq⟩

end Runs

end CodeConductor
