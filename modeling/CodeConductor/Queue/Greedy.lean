import CodeConductor.Launch.Once
import CodeConductor.Queue.Capacity
import CodeConductor.Queue.Selection

/-!
# Greedy dispatch within capacity

The two promises of the dispatcher about `maxConcurrent`: a pass leaves no slot free that an item
could have had and gives the slots away in the order of the queue; and no interleaving of passes,
submissions, executions and whatever else is asked of the dispatchers ever fills more slots than
there are, or two with one job.
-/

namespace CodeConductor

open Async Async.Prog Async.Protocol Dispatcher

/-- What one dispatch pass does: it moves to running the chosen items and no others, and enters each
in `active` under the thread that executes it. -/
structure DispatchesGreedily (own : Self) (n : ℕ) (w w' : World) : Prop where
  /-- The snapshot has the newest record of every item, by priority, the highest first, then by
  creation, then by job id. -/
  snapshot : w.queueSnapshot.Perm (w.itemIds.filterMap w.item?) ∧
    w.queueSnapshot.Pairwise QueueStore.listedBefore
  /-- The chosen items are the first of the eligible that there is room for. -/
  chosen : chosenItems own w = (w.queueSnapshot.filter fun item ↦
    Eligible w.queueSnapshot (w.dispatcher own.process).active item).take
      (w.maxConcurrent - (w.dispatcher own.process).active.length)
  running : ∀ item ∈ w.queueSnapshot, item ∈ chosenItems own w ↔ item.status ≠ .running ∧
    ∃ item', w'.item? item.jobId = some item' ∧ item'.status = .running
  active : (w'.dispatcher own.process).active = (w.dispatcher own.process).active ++
    ((chosenItems own w).zipIdx n).map fun entry ↦ (entry.1.jobId, entry.2)

/-- No process has more than `maxConcurrent` executions active, or two of one job. -/
structure WithinCapacity (w : World) : Prop where
  bounded : ∀ p, (w.dispatcher p).active.length ≤ w.maxConcurrent
  once : ∀ p, ((w.dispatcher p).active.map Prod.fst).Nodup

/-- **Greedy dispatch.** A pass none of whose reservations is rejected ends, dispatches as many items
as it says, and dispatches greedily, whatever the queue, the active jobs and the limit are; and whatever
is asked of dispatchers and reconcilers, whatever fails and whoever dies, the executions stay within
capacity. -/
def GreedyDispatch : Prop :=
  (∀ own w n submitted, PassReady own w →
    (∀ jobId error, .reservationRejected jobId error ∉
      (dispatchAvailable own submitted).labels w n) →
    ∃ w', (dispatchAvailable own submitted).solo w n = some (.ok (chosenItems own w).length, w',
        n + (chosenItems own w).length) ∧ DispatchesGreedily own n w w') ∧
  ∀ maxConcurrent outside cfg,
    dispatcherSystem.Reaches System.unrestricted
      (.start { World.empty [] outside with maxConcurrent := maxConcurrent }) cfg →
      cfg.shared.maxConcurrent = maxConcurrent ∧ WithinCapacity cfg.shared

/-! ### The pass -/

theorem mem_chosenItems {own : Self} {w : World} {item : QueueItem}
    (h : item ∈ chosenItems own w) : item ∈ w.queueSnapshot ∧ item.status = .queued := by
  have hfilter := List.mem_of_mem_take h
  obtain ⟨hmem, heligible⟩ := List.mem_filter.1 hfilter
  exact ⟨hmem, (of_decide_eq_true heligible).1⟩

theorem Dispatcher.PassOutcome.dispatchesGreedily {own : Self} {n : ℕ} {w w' : World}
    (h : PassOutcome own w.queueSnapshot (chosenItems own w) n w w') :
    DispatchesGreedily own n w w' where
  snapshot := ⟨List.perm_insertionSort _ _, w.pairwise_queueSnapshot⟩
  chosen := rfl
  running item hitem := by
    constructor
    · intro hchosen
      have hqueued := (mem_chosenItems hchosen).2
      exact ⟨by rw [hqueued]; decide, h.running item hchosen⟩
    · rintro ⟨hstatus, item', hitem', hrunning⟩
      by_contra hnot
      rcases h.others item hitem hnot with hsame | ⟨given, hgiven, hneeds⟩
      · obtain rfl := Option.some.inj (hsame.symm.trans hitem')
        exact hstatus hrunning
      · obtain rfl := Option.some.inj (hgiven.symm.trans hitem')
        rw [hneeds] at hrunning
        exact nomatch hrunning
  active := h.active

/-! ### The system -/

theorem CapacityInv.crash {w : World} (h : CapacityInv w) (p : ℕ) : CapacityInv (w.crash p) := by
  have hsub (q : ℕ) : ((w.crash p).dispatcher q).active.Sublist (w.dispatcher q).active := by
    by_cases hq : q = p
    · subst hq
      have hempty : ((w.crash q).dispatcher q).active = [] := by simp [World.crash]
      rw [hempty]
      exact List.nil_sublist _
    · have hsame : (w.crash p).dispatcher q = w.dispatcher q := Function.update_of_ne hq ..
      rw [hsame]
  exact ⟨fun q ↦ (hsub q).length_le.trans (h.bounded q),
    fun q ↦ (h.once q).sublist ((hsub q).map _)⟩

/-- Every call of the system keeps the agreement. -/
theorem capacity_dispatcherCall (self : Self) {call : RuntimeCall}
    (hcall : isDispatcherCall call = true) :
    capacityProtocol.Keeps self.process self.thread
      (runCall self.process self.thread call) := by
  have hdrop {A : Type} {prog : Runtime A}
      (h : capacityProtocol.Keeps self.process self.thread prog) :
      capacityProtocol.Keeps self.process self.thread
        (do
          let _ ← prog
          return () : Runtime Unit) := h.bind fun _ ↦ keeps_ret _
  have houtside {f : World → World} (h : ∀ w, SameAttempts w (f w) ∧
      QuietStep self.process w (f w)) : capacityProtocol.Keeps self.process self.thread
        (.modify .outside f : Runtime Unit) :=
    carries_true.1 (carries_atomic (f := fun w ↦ (.ok (), f w)) steady_true h)
  cases call with
  | changeOutside outside =>
    exact houtside fun w ↦ ⟨⟨rfl, rfl, rfl, rfl, rfl, rfl⟩, .of_eq rfl rfl⟩
  | failStorage failure =>
    exact houtside fun w ↦ ⟨⟨rfl, rfl, rfl, rfl, rfl, rfl⟩, .of_eq rfl rfl⟩
  | enqueue contract options => exact hdrop Dispatcher.keeps_enqueue
  | submit contract options fuel => exact hdrop Dispatcher.keeps_submit
  | start fuel => exact Dispatcher.keeps_start
  | stop cancelActive => exact Dispatcher.keeps_stop
  | runUntilIdle fuel => exact Dispatcher.keeps_runUntilIdle
  | cancel jobId => exact hdrop Dispatcher.keeps_cancel
  | retry jobId => exact hdrop Dispatcher.keeps_retry
  | reconcile choice => exact Reconciler.keeps_reconcile
  | _ => exact nomatch hcall

theorem capacityProtocol_sound : capacityProtocol.Sound dispatcherSystem fun _ _ _ ↦ True where
  inv_mono hnm h := ⟨h.1.mono hnm, h.2⟩
  rely_refl := ⟨.refl _ _ _, .refl _⟩
  rely_trans h h' := ⟨h.1.trans h'.1, h.2.trans h'.2⟩
  guar_rely hne _ _ _ h := ⟨h.1.rely hne, h.2.rely hne.symm⟩
  post_stable _ _ _ _ _ _ h := h
  call {p t _ s} _ hentry := capacity_dispatcherCall ⟨p, t⟩ (Bool.and_eq_true .. ▸ hentry).2 s
  fork {p t k n s} _ _ hpre := by
    let self : Self := ⟨p, t⟩
    cases k with
    | executeAttempt contract manifest operation =>
      have h : ExecutionPre self.process self.thread manifest operation s := hpre
      exact (Conductor.keeps_runExecution h).under (conductorProtocol_under_capacity steady_true)
    | executeItem item =>
      have h : capacityProtocol.Keeps self.process self.thread
          (Dispatcher.runExecution self item) := Dispatcher.keeps_runExecution
      exact h s
    | runLoop fuel =>
      have h : capacityProtocol.Keeps self.process self.thread
          (Dispatcher.runLoopPromise self fuel) := Dispatcher.keeps_runLoopPromise
      exact h s
    | _ => exact nomatch hpre
  crash_inv h := ⟨h.1.crash _, h.2.crash _⟩
  crash_rely {p q t n s} hne _ := by
    have hsame : (s.crash p).dispatcher q = s.dispatcher q := Function.update_of_ne hne.symm ..
    refine ⟨AttemptRely.crash hne, rfl, fun hlock ↦ ?_⟩
    show (((s.crash p).dispatcher q).lockQueue.head? = some t) ∧
      ((s.crash p).dispatcher q).active.Sublist _
    rw [hsame]
    exact ⟨hlock, .refl _⟩

theorem withinCapacity_of_reaches {maxConcurrent : ℕ} {outside : Outside} {cfg : RuntimeConfig}
    (h : dispatcherSystem.Reaches System.unrestricted
      (.start { World.empty [] outside with maxConcurrent := maxConcurrent }) cfg) :
    cfg.shared.maxConcurrent = maxConcurrent ∧ WithinCapacity cfg.shared := by
  let empty : World := { World.empty [] outside with maxConcurrent := maxConcurrent }
  have hempty : capacityProtocol.inv 0 empty := by
    have hsame : SameAttempts (World.empty [] outside) empty := ⟨rfl, rfl, rfl, rfl, rfl, rfl⟩
    exact ⟨hsame.inv (attemptInv_empty [] outside), fun _ ↦ Nat.zero_le _, fun _ ↦ List.nodup_nil⟩
  have hpool := capacityProtocol_sound.pool (Protocol.pool_start hempty) h
  refine ⟨?_, hpool.inv.2.bounded, hpool.inv.2.once⟩
  exact capacityProtocol_sound.holds_of_reaches (J := fun w ↦ w.maxConcurrent = maxConcurrent)
    (fun _ hg hw ↦ hg.2.maxConcurrent.trans hw) (fun _ hw ↦ hw) (Protocol.pool_start hempty) rfl h

/-- **A pass fills the free slots in the order of the queue, and no slot is filled twice.** -/
theorem greedyDispatch : GreedyDispatch := by
  refine ⟨fun own w n submitted hready hrejected ↦ ?_, fun maxConcurrent outside cfg h ↦
    withinCapacity_of_reaches h⟩
  have havoids : (dispatchAvailable own submitted).Avoids IsRejection w n := by
    rintro label hlabel ⟨jobId, error, rfl⟩
    exact hrejected jobId error hlabel
  obtain ⟨w', hsolo, houtcome⟩ := solo_dispatchAvailable hready havoids
  exact ⟨w', hsolo, houtcome.dispatchesGreedily⟩

/-! ### A pass with one free slot -/

/-- Surroundings in which adapters are available and everything else is refused. -/
def Outside.refusing : Outside where
  now := 0
  adapter _ := some true
  prepareJob _ := .error (.plain "refused")
  verifySandbox _ := .error (.plain "refused")
  isProcessAlive _ := false
  proposalFiles _ := .error (.plain "refused")
  createWorkspace _ := .error (.plain "refused")
  composeBaseline _ := .error (.plain "refused")
  removeWorkspace _ := .error (.plain "refused")
  budget _ := .error (.plain "refused")
  remainingTimeout _ := .error (.plain "refused")
  deadlinePassed _ := false
  writeVerification _ := .error (.plain "refused")
  command _ _ _ :=
    { resource := .error (.plain "refused"), run := { result := .error (.plain "refused") } }
  repositoryClean _ := .error (.plain "refused")
  workerProfile _ := .error (.plain "refused")
  validateProfile _ := .error (.plain "refused")
  worker _ := { result := .error (.plain "refused") }
  captureProposal _ := .error (.plain "refused")
  proposalStable _ := .error (.plain "refused")
  externalCleanup _ _ := { result := .error (.plain "refused") }
  noSuchContainer _ _ := .error (.plain "refused")
  timer := false
  handoffDeadline := false
  failpoint _ := none

/-- A queue of two jobs, the younger one with the higher priority, and a dispatcher with one slot. -/
def oneSlot : World :=
  let contract (jobId : JobId) : JobContract :=
    { jobId := jobId, requestFingerprint := "", repositoryRoot := "", baseRevision := ""
      adapterId := "", setupCommands := 0, acceptanceCommands := 0, boundary := .hostWorktree
      retainWorkspace := false
      resources :=
        { maxAttemptsPerJob := 1, maxAutomaticRetries := 0, maxLineageContributions := 0
          maxExternalResources := 0, maxArtifactBytes := 0 } }
  let item (jobId : JobId) (priority : Int) (now : Timestamp) : QueueItem :=
    createQueueItem jobId { priority := priority, dependsOnJobIds := [] } now
  { World.empty [contract "job_a", contract "job_b"] .refusing with
    itemIds := ["job_a", "job_b"]
    items := fun jobId ↦
      if jobId = "job_a" then [item "job_a" 0 1]
      else if jobId = "job_b" then [item "job_b" 5 2] else []
    dispatcher := fun _ ↦ { lease := some ⟨0, 1⟩ } }

example : (((dispatchAvailable ⟨0, 0⟩ false).solo oneSlot 1).map fun ending ↦
    (ending.1.toOption, (ending.2.1.dispatcher 0).active)) = some (some 1, [("job_b", 1)]) := by
  decide +kernel

end CodeConductor
