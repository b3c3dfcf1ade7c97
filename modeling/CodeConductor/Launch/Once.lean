import CodeConductor.Launch.Stages
import CodeConductor.Runtime.System

/-!
# Every attempt is launched at most once

Any number of conductors share one data root, each may be asked anything about any attempt at any
time, and any of them may die. The journal alone decides who prepares an attempt: whoever commits
preparing over claimed has read the claim it commits over, and nobody commits claimed again. The
thread that did is an execution of the process the claim names, and it starts one worker.
-/

namespace CodeConductor

open Async Async.Prog Async.Protocol

/-! ### What is promised -/

/-- How often a journal goes from claimed to preparing. -/
def preparations (journal : List AttemptManifest) : ℕ :=
  (journal.zip journal.tail).countP fun (next, prev) ↦
    prev.status = .claimed ∧ next.status = .preparing

/-- What a world shows of launches. -/
structure LaunchedOnce (w : World) : Prop where
  preparations : ∀ id, preparations (w.attempts id) ≤ 1
  starts : ∀ id, (w.workerStarts.filter fun l ↦ l.attemptId = id).length ≤ 1
  /-- A worker runs for its attempt's launch owner and dispatch operation. -/
  owner : ∀ l ∈ w.workerStarts, ∃ m, w.attempt? l.attemptId = some m ∧
    m.launchOwner.map LaunchOwner.instanceId = some l.process ∧
    m.dispatchOperationId = some l.dispatchOperationId

/-- No attempt that has ended in `w` is different in `w'`. -/
def EndingsKept (w w' : World) : Prop :=
  ∀ id m, w.attempt? id = some m → m.status.isTerminal = true → w'.attempts id = w.attempts id

/-- **Singular launch.** In every run of any number of conductors over one data root, whatever they
are asked and whenever they die, an attempt is prepared at most once, its worker is started at most
once and for its launch identity, and a manifest that has ended is never changed. -/
def SingularLaunch : Prop :=
  ∀ contracts outside cfg,
    conductorSystem.Reaches System.unrestricted (.start (World.empty contracts outside)) cfg →
      LaunchedOnce cfg.shared ∧
        ∀ cfg', conductorSystem.Reaches System.unrestricted cfg cfg' →
          EndingsKept cfg.shared cfg'.shared

/-! ### What a history allows -/

/-- An attempt is prepared at most once, and not before it was claimed. -/
theorem AttemptHistory.preparations_le {id : AttemptId} {journal : List AttemptManifest}
    (h : AttemptHistory id journal) : preparations journal ≤ 1 ∧
      ((∀ m ∈ journal.head?, m.status.rank < 2) → preparations journal = 0) := by
  induction h with
  | absent => exact ⟨Nat.zero_le _, fun _ ↦ rfl⟩
  | reserved m _ _ => exact ⟨Nat.zero_le _, fun _ ↦ rfl⟩
  | push next prev older _ hp ih =>
    have hcount : preparations (next :: prev :: older) =
        preparations (prev :: older) +
          if prev.status = .claimed ∧ next.status = .preparing then 1 else 0 := by
      simp [preparations, List.countP_cons]
    have hrank := AttemptStatus.rank_le_of_mem_allowed hp.allowed
    rw [hcount]
    split
    · rename_i hprepare
      have hzero : preparations (prev :: older) = 0 :=
        ih.2 fun m hm ↦ by
          obtain rfl := Option.some.inj hm
          rw [hprepare.1]
          decide
      refine ⟨by omega, fun hlow ↦ ?_⟩
      have hnext := hlow next rfl
      rw [hprepare.2] at hnext
      exact absurd hnext (by decide)
    · refine ⟨ih.1, fun hlow ↦ ih.2 fun m hm ↦ ?_⟩
      obtain rfl := Option.some.inj hm
      exact lt_of_le_of_lt hrank (hlow next rfl)

theorem AttemptInv.launchedOnce {n : ℕ} {w : World} (h : AttemptInv n w) : LaunchedOnce w where
  preparations id := (h.history id).preparations_le.1
  starts id := by
    have hcount : (w.workerStarts.filter fun l ↦ l.attemptId = id).length =
        (w.workerStarts.map WorkerStart.attemptId).count id := by
      rw [List.count, List.countP_map, List.countP_eq_length_filter]
      exact congrArg _ (List.filter_congr fun l _ ↦ (beq_eq_decide ..).symm)
    rw [hcount]
    exact List.nodup_iff_count_le_one.1 h.once id
  owner l hl := by
    obtain ⟨-, m, hm, -, howner, hoperation⟩ := h.starts l hl
    exact ⟨m, hm, howner, hoperation⟩

/-- An ended attempt keeps its journal. -/
theorem AttemptMove.attempts_eq {L : License} {w w' : World} {id : AttemptId}
    (h : AttemptMove L w w' id) {m : AttemptManifest} (hm : w.attempt? id = some m)
    (hterminal : m.status.isTerminal = true) : w'.attempts id = w.attempts id := by
  cases h with
  | same heq => exact heq
  | push prev next hprev _ hp _ =>
    rw [hm] at hprev
    obtain rfl := Option.some.inj hprev
    rw [AttemptStatus.not_isTerminal_of_mem_allowed hp.allowed] at hterminal
    exact absurd hterminal Bool.false_ne_true
  | create _ hold =>
    rw [World.attempt?, hold] at hm
    exact absurd hm (by simp)

/-! ### The protocol of the system -/

/-- The agreement of all threads of the system. -/
def launchProtocol : Protocol RuntimeStep World RuntimeCall ℕ where
  inv := AttemptInv
  rely := AttemptRely
  guar := AttemptGuar .all
  ok := System.unrestricted
  pre := ConductorPre

theorem conductorProtocol_under_launch {L : License} {p t : ℕ} :
    (conductorProtocol L).Under launchProtocol p t fun _ ↦ True where
  inv hinv := hinv
  rely hrely := hrely
  ok _ := trivial
  keep _ _ _ := trivial
  step _ _ _ _ _ hinv hg := ⟨hinv, hg.1.mono (License.all_includes L), trivial⟩
  pre _ _ _ hpre := hpre

theorem World.crash_conductor_of_ne {p q : ℕ} {w : World} (h : q ≠ p) :
    (w.crash p).conductor q = w.conductor q :=
  Function.update_of_ne h ..

/-- The maps of a conductor after a crash are the empty ones or what they were. -/
theorem World.crash_conductor (p q : ℕ) (w : World) :
    (w.crash p).conductor q = {} ∨ (w.crash p).conductor q = w.conductor q := by
  by_cases hq : q = p
  · subst hq
    exact .inl (Function.update_self ..)
  · exact .inr (World.crash_conductor_of_ne hq)

theorem AttemptInv.crash {n : ℕ} {w : World} (h : AttemptInv n w) (p : ℕ) :
    AttemptInv n (w.crash p) where
  history := h.history
  listed := h.listed
  prepared := h.prepared
  starts := h.starts
  once := h.once
  preparedBy_lt := h.preparedBy_lt
  starts_lt := h.starts_lt
  launchedFor_lt := h.launchedFor_lt
  executions q id i hi := by
    rcases World.crash_conductor p q w with heq | heq <;> rw [heq] at hi
    · exact nomatch hi
    · exact h.executions q id i hi
  settled_lt q i r hr := by
    rcases World.crash_conductor p q w with heq | heq <;> rw [heq] at hr
    · exact nomatch hr
    · exact h.settled_lt q i r hr
  settled q i m hm := by
    rcases World.crash_conductor p q w with heq | heq <;> rw [heq] at hm
    · exact nomatch hm
    · exact h.settled q i m hm

theorem AttemptRely.crash {p q t : ℕ} {w : World} (hne : p ≠ q) :
    AttemptRely q t w (w.crash p) where
  attempts _ := List.suffix_rfl
  prepared _ _ h := h
  preparedBySelf _ h := h
  startedBySelf _ h _ := h
  launched _ _ h := h
  settled i r hr := by rwa [World.crash_conductor_of_ne hne.symm]
  settledBySelf := by rw [World.crash_conductor_of_ne hne.symm]

/-- Every call keeps the agreement. -/
theorem safe_conductorCall (self : Self) {call : RuntimeCall} {s : World}
    (hcall : isConductorCall call = true) :
    launchProtocol.Safe self.process self.thread (fun _ _ ↦ True)
      (runCall self.process self.thread call) s := by
  have hdrop {A : Type} {L : License} {prog : Runtime A}
      (h : (conductorProtocol L).Keeps self.process self.thread prog) :
      launchProtocol.Safe self.process self.thread (fun _ _ ↦ True)
        (do
          let _ ← prog
          return () : Runtime Unit) s :=
    (Keeps.bind h fun _ ↦ keeps_ret _).under conductorProtocol_under_launch s
  cases call with
  | changeOutside outside =>
    intro w n _ hinv _ _ _
    have hsame : SameAttempts w { w with outside := outside } := ⟨rfl, rfl, rfl, rfl, rfl, rfl⟩
    exact ⟨hsame.inv hinv, hsame.guar .all self.process self.thread n,
      fun i k hk ↦ absurd hk (by simp), trivial⟩
  | failStorage failure =>
    intro w n _ hinv _ _ _
    have hsame : SameAttempts w { w with failure := failure } := ⟨rfl, rfl, rfl, rfl, rfl, rfl⟩
    exact ⟨hsame.inv hinv, hsame.guar .all self.process self.thread n,
      fun i k hk ↦ absurd hk (by simp), trivial⟩
  | reservePreparedAttempt => exact hdrop (Safe.keeps fun _ ↦ Conductor.safe_reservePreparedAttempt)
  | claimReservedAttempt => exact hdrop Conductor.keeps_claimReservedAttempt
  | launchClaimedAttempt => exact hdrop Conductor.keeps_launchClaimedAttempt
  | startReservedAttempt => exact hdrop Conductor.keeps_startReservedAttempt
  | cancelAttempt => exact hdrop Conductor.keeps_cancelAttempt
  | cancelReservedAttempt => exact hdrop (Safe.keeps fun _ ↦ Conductor.safe_cancelReservedAttempt)
  | recoverInterruptedAttempt =>
    exact hdrop (Safe.keeps fun _ ↦ Conductor.safe_recoverInterruptedAttempt)
  | _ => exact nomatch hcall

theorem launchProtocol_sound : launchProtocol.Sound conductorSystem fun _ _ _ ↦ True where
  inv_mono hnm h := AttemptInv.mono h hnm
  rely_refl := AttemptRely.refl _ _ _
  rely_trans h h' := AttemptRely.trans h h'
  guar_rely hne _ _ _ h := AttemptGuar.rely h hne
  post_stable _ _ _ _ _ _ h := h
  call {p t _ _} _ hentry := safe_conductorCall ⟨p, t⟩ (Bool.and_eq_true .. ▸ hentry).2
  fork {p t k n s} _ _ hpre := by
    cases k with
    | executeAttempt contract manifest operation =>
      let self : Self := ⟨p, t⟩
      have h : ExecutionPre self.process self.thread manifest operation s := hpre
      exact (Conductor.keeps_runExecution h).under conductorProtocol_under_launch
    | _ => exact nomatch hpre
  crash_inv h := AttemptInv.crash h _
  crash_rely hne _ := AttemptRely.crash hne

theorem attemptInv_empty (contracts : List JobContract) (outside : Outside) :
    AttemptInv 0 (World.empty contracts outside) where
  history _ := .absent
  listed _ := by simp [World.empty]
  prepared _ _ h := nomatch h
  starts _ h := nomatch h
  once := List.nodup_nil
  preparedBy_lt _ _ h := nomatch h
  starts_lt _ h := nomatch h
  launchedFor_lt _ _ h := nomatch h
  executions _ _ _ h := nomatch h
  settled_lt _ _ _ h := nomatch h
  settled _ _ _ h := nomatch h

/-- **Every attempt is launched at most once, and endings are final.** -/
theorem singularLaunch : SingularLaunch := by
  intro contracts outside cfg hreach
  have hpool := launchProtocol_sound.pool
    (Protocol.pool_start (attemptInv_empty contracts outside)) hreach
  refine ⟨AttemptInv.launchedOnce hpool.inv, fun cfg' hreach' id m hm hterminal ↦ ?_⟩
  -- the ending of `id` is still its newest manifest, so the journal cannot have changed
  have hkept : cfg'.shared.attempt? id = some m ∧
      cfg'.shared.attempts id = cfg.shared.attempts id :=
    launchProtocol_sound.holds_of_reaches
      (J := fun w ↦ w.attempt? id = some m ∧ w.attempts id = cfg.shared.attempts id)
      (fun {_ _ _ w w'} _ hg ⟨hnewest, heq⟩ ↦ by
        have hsame : w'.attempts id = w.attempts id :=
          AttemptMove.attempts_eq (hg.attempts id) hnewest hterminal
        exact ⟨by rw [World.attempt?, hsame]; exact hnewest, hsame.trans heq⟩)
      (fun _ h ↦ h) hpool ⟨hm, rfl⟩ hreach'
  exact hkept.2

end CodeConductor
