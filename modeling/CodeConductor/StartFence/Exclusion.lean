import CodeConductor.StartFence.Safety

/-!
# Mutual exclusion and recovery of the start fence

`StartFenceSafe` is what the fence is for: one live manager at a time holds it, a release removes the
manager's own directory, and what a dead process left behind can be taken over. It holds in every
state of every run in which `recovery.claim` is only created in the directory of a dead process and
nobody dies between creating it and renaming the directory.

The code keeps neither condition. A contender that has read the claim of a dead process creates
`recovery.claim` by path: meanwhile another contender may have recovered that directory and made its
own, which the first one then renames away although its maker is alive. And `recovery.claim` is
refused to everybody once it exists, so the death of its creator blocks the fence for good.
-/

namespace CodeConductor

open Async Async.Prog Async.Protocol

/-- A configuration of the managers. -/
abbrev StartFenceConfig := Config StartFenceStep StartFenceFs StartFenceCall RuntimeError Unit ℕ

/-- What the death of a process leaves behind: its directory, and no live process recovering it. -/
def FenceDirectory.Abandoned (fence : FenceDirectory) (dead : List ℕ) : Prop :=
  fence.maker.process ∈ dead ∧ ∀ r, fence.recovery = some r → r.process ∈ dead

/-- A manager of the process that starts the service `ms` later, while nobody else moves, gets the
release function. -/
def CanAcquire (cfg : StartFenceConfig) (process : ℕ) (instanceId : Uuid) (ms : ℕ) : Prop :=
  ∃ j mid k cfg',
    startFenceSystem.advanceAll (fun _ _ _ _ ↦ true) cfg
      (.call process (.wait ms) :: List.replicate j (.run cfg.next)) = some mid ∧
    mid.shared.now = cfg.shared.now + ms ∧
    startFenceSystem.advanceAll (fun _ _ _ _ ↦ true) mid
      (.call process (.startOwnedService instanceId) :: List.replicate k (.run mid.next)) =
        some cfg' ∧
    ⟨mid.next, process, instanceId⟩ ∈ cfg'.shared.holders

/-- What the start fence promises of a configuration. -/
structure StartFenceSafe (cfg : StartFenceConfig) : Prop where
  /-- At most one live manager holds the fence. -/
  exclusive : ∀ h ∈ cfg.shared.holders, ∀ h' ∈ cfg.shared.holders,
    h.process ∉ cfg.shared.dead → h'.process ∉ cfg.shared.dead →
      h.process = h'.process ∧ h.instanceId = h'.instanceId
  /-- A release removes a directory its manager made. -/
  ownRelease : ∀ r ∈ cfg.shared.released,
    r.2.maker.process = r.1.process ∧ r.2.maker.instanceId = r.1.instanceId
  /-- A fence a dead process left behind can be acquired, once the grace has passed. -/
  recoverable : ∀ fence, cfg.shared.fence = some fence → fence.Abandoned cfg.shared.dead →
    ∀ process instanceId ms, process ∉ cfg.shared.dead → initializationGrace ≤ ms →
      CanAcquire cfg process instanceId ms

/-- The process is not between creating `recovery.claim` and renaming the directory. -/
def finishesRecovery (process : ℕ) (fs : StartFenceFs) : Bool :=
  fs.fence.all fun fence ↦ fence.recovery.all fun r ↦ decide (r.process ≠ process)

/-- The events of a run that recovers only what the dead left behind, and completely. -/
def recoversWhole (cfg : StartFenceConfig) : Event StartFenceCall ℕ → Bool
  | .crash process => finishesRecovery process cfg.shared
  | e => System.permits recoversDead cfg e

theorem permits_of_recoversWhole (cfg : StartFenceConfig) (e : Event StartFenceCall ℕ)
    (h : recoversWhole cfg e = true) : System.Permits startFenceProtocol.ok cfg e := by
  cases e with
  | run t => exact System.permits_iff h
  | call p k => trivial
  | crash p => trivial

/-! ### The later caller -/

section Alone

variable {manager : ManagerCall} {fs : StartFenceFs}

/-- Time passes over an abandoned directory. -/
theorem alone_passTime {fence : FenceDirectory} (ms : ℕ) (hf : fs.fence = some fence)
    (hdead : fence.maker.process ∈ fs.dead) :
    Alone (passTime ms) fs (.ok ()) { fs with now := fs.now + ms } := by
  induction ms generalizing fs with
  | zero => exact .ret _ _
  | succ ms ih =>
    have hgrace : fs.withinGrace (fs.now + 1) = true := by
      rw [StartFenceFs.withinGrace, hf]
      simp [hdead]
    have htick : Alone (await .tick (fun fs : StartFenceFs ↦ fs.withinGrace (fs.now + 1)) fun fs ↦
        (.ok (), { fs with now := fs.now + 1 }) : StartFenceProg Unit) fs (.ok ())
        { fs with now := fs.now + 1 } := Alone.await hgrace rfl
    have hrest : Alone (passTime ms) { fs with now := fs.now + 1 } (.ok ())
        { fs with now := fs.now + 1 + ms } := ih hf hdead
    rw [Nat.add_right_comm] at hrest
    exact htick.bind hrest

/-- Where there is no directory the fence is taken. -/
theorem alone_claimStartFence (hnone : fs.fence = none) :
    ∃ fs', Alone (claimStartFence manager) fs (.ok (releaseStartFence manager)) fs' ∧
      manager ∈ fs'.holders := by
  have hmake : fs.makeFence manager =
      (.ok (), { fs with fence := some ⟨manager, none, none, fs.now⟩ }) := by
    rw [StartFenceFs.makeFence, hnone]
  let made : StartFenceFs := { fs with fence := some ⟨manager, none, none, fs.now⟩ }
  let claim : StartFence := ⟨manager.instanceId, manager.process, fs.now⟩
  have hopen : made.openClaim = (.ok fs.nextInode, made.openClaim.2) := rfl
  let written : StartFenceFs := made.openClaim.2.writeClaim fs.nextInode claim
  have hwrite : Alone (writeStartFence manager claim) made (.ok ())
      { written with holders := manager :: written.holders } :=
    Alone.catching ((Alone.atomic hopen).bind ((Alone.modify rfl).bind ((Alone.read rfl).bind
      (Alone.modify rfl))))
  exact ⟨_, (Alone.atomic hmake).bind ((Alone.read rfl).bind (hwrite.bind (.ret _ _))),
    List.mem_cons_self ..⟩

/-- Without `recovery.claim` the directory is renamed away. -/
theorem alone_recoverStartFence {fence : FenceDirectory} (hf : fs.fence = some fence)
    (hnone : fence.recovery = none) :
    Alone (recoverStartFence manager) fs (.ok true) { fs with fence := none } := by
  have hopen : fs.openRecovery manager = (.ok (), { fs with
      fence := some { fence with recovery := some manager, mtime := fs.now } }) := by
    rw [StartFenceFs.openRecovery, hf]
    simp [hnone]
  have hmove : ({ fs with
      fence := some { fence with recovery := some manager, mtime := fs.now } } :
        StartFenceFs).quarantine = (.ok (), { fs with fence := none }) := rfl
  refine (Alone.atomic hopen).attempt.bind ?_
  refine (Alone.read rfl).bind ((Alone.read rfl).bind ?_)
  refine (Alone.atomic hmove).attempt.bind ?_
  exact (Alone.read rfl).bind (.ret _ _)

/-- An abandoned directory past the grace is recovered. -/
theorem alone_contendStartFence {fence : FenceDirectory} (hinv : StartFenceInv fs)
    (hf : fs.fence = some fence) (hdead : fence.maker.process ∈ fs.dead)
    (hnone : fence.recovery = none) (hage : initializationGrace ≤ fs.now - fence.mtime) :
    Alone (contendStartFence manager) fs (.ok true) { fs with fence := none } := by
  have hread : (Except.ok fs.readFence : Except RuntimeError _) = .ok fs.readFence := rfl
  refine (Alone.read (f := fun fs : StartFenceFs ↦ .ok fs.readFence) hread).bind ?_
  cases hclaim : fs.readFence with
  | some claim =>
    have howner : claim.ownerPid ∈ fs.dead := by
      rw [StartFenceFs.readFence, hf, Option.bind_some] at hclaim
      obtain ⟨file, hfile, hcontent⟩ := Option.bind_eq_some_iff.1 hclaim
      exact hinv.owner fence file claim hf hfile hcontent ▸ hdead
    have hprobe : (Except.ok (decide (claim.ownerPid ∉ fs.dead)) : Except RuntimeError Bool) =
        .ok false := by simp [howner]
    refine (Alone.read (f := fun fs : StartFenceFs ↦ .ok (decide (claim.ownerPid ∉ fs.dead)))
      hprobe).bind ?_
    exact alone_recoverStartFence hf hnone
  | none =>
    have hstat : (Except.ok (fs.fence.elim 0 fun fence ↦ fs.now - fence.mtime) :
        Except RuntimeError ℕ) = .ok (fs.now - fence.mtime) := by
      rw [hf]
      rfl
    refine (Alone.read (f := fun fs : StartFenceFs ↦
      .ok (fs.fence.elim 0 fun fence ↦ fs.now - fence.mtime)) hstat).bind ?_
    have hold : ¬ fs.now - fence.mtime < initializationGrace := Nat.not_lt.2 hage
    simp only [hold, if_false]
    exact alone_recoverStartFence hf hnone

/-- **The later caller acquires** an abandoned fence past the grace. -/
theorem alone_acquireStartFence {fence : FenceDirectory} (hinv : StartFenceInv fs)
    (hf : fs.fence = some fence) (hdead : fence.maker.process ∈ fs.dead)
    (hnone : fence.recovery = none) (hage : initializationGrace ≤ fs.now - fence.mtime)
    (attempts : ℕ) :
    ∃ fs', Alone (acquireStartFence manager (attempts + 2)) fs
      (.ok (some (releaseStartFence manager))) fs' ∧ manager ∈ fs'.holders := by
  have hmake : fs.makeFence manager = (.error (.fileSystem "EEXIST" "start-fence"), fs) := by
    rw [StartFenceFs.makeFence, hf]
  have hfree : ({ fs with fence := none } : StartFenceFs).fence = none := rfl
  obtain ⟨fs', hclaim, hmem⟩ : ∃ fs', Alone (claimStartFence manager) { fs with fence := none }
      (.ok (releaseStartFence manager)) fs' ∧ manager ∈ fs'.holders := alone_claimStartFence hfree
  have hrefused : Alone (claimStartFence manager) fs
      (.error (.fileSystem "EEXIST" "start-fence")) fs :=
    (Alone.atomic hmake).bind_error
  refine ⟨fs', hrefused.attempt.bind ?_, hmem⟩
  refine (alone_contendStartFence hinv hf hdead hnone hage).bind ?_
  exact hclaim.attempt.bind (.ret _ _)

/-- A process that lives can acquire what the dead left behind. -/
theorem canAcquire_of_abandoned {cfg : StartFenceConfig} (hinv : StartFenceInv cfg.shared)
    {fence : FenceDirectory} (hf : cfg.shared.fence = some fence)
    (hdead : fence.maker.process ∈ cfg.shared.dead) (hnone : fence.recovery = none) {process : ℕ}
    {instanceId : Uuid} {ms : ℕ} (hlive : process ∉ cfg.shared.dead)
    (hms : initializationGrace ≤ ms) : CanAcquire cfg process instanceId ms := by
  -- the wait
  let waited : StartFenceFs := { cfg.shared with now := cfg.shared.now + ms }
  have hwait : Alone (passTime ms) cfg.shared (.ok ()) waited := alone_passTime ms hf hdead
  have hentry (k : StartFenceCall) : startFenceSystem.entry process k cfg.shared = true := by
    simpa [startFenceSystem] using hlive
  obtain ⟨j, hj⟩ := hwait.advanceAll_call startFenceSystem (hentry (.wait ms))
    (bind_ret (passTime ms)).symm
  -- the acquisition
  have hinv' : StartFenceInv waited :=
    ⟨hinv.owner, hinv.recovery, hinv.holders, hinv.released,
      fun f hf ↦ Nat.le_trans (hinv.mtime f hf) (Nat.le_add_right _ _)⟩
  have hage : initializationGrace ≤ waited.now - fence.mtime := by
    have hle := hinv.mtime fence hf
    show initializationGrace ≤ cfg.shared.now + ms - fence.mtime
    exact Nat.le_trans hms (Nat.le_sub_of_add_le (by rw [Nat.add_comm]; exact Nat.add_le_add_right hle ms))
  let manager : ManagerCall := ⟨cfg.next + 1, process, instanceId⟩
  obtain ⟨fs', hacquire, hmem⟩ : ∃ fs', Alone (acquireStartFence manager 20) waited
      (.ok (some (releaseStartFence manager))) fs' ∧ manager ∈ fs'.holders :=
    alone_acquireStartFence hinv' hf hdead hnone hage 18
  let mid : StartFenceConfig := ⟨waited,
    Function.update cfg.threads cfg.next (some ⟨process, .ret (.ok ())⟩), cfg.next + 1⟩
  have hentry' : startFenceSystem.entry process (.startOwnedService instanceId) mid.shared = true :=
    hentry (.startOwnedService instanceId)
  have hacquire' : Alone (acquireStartFence manager 20) mid.shared
      (.ok (some (releaseStartFence manager))) fs' := hacquire
  obtain ⟨k, hk⟩ := hacquire'.advanceAll_call startFenceSystem hentry' rfl
  exact ⟨j, mid, k, _, hj, rfl, hk, hmem⟩

end Alone

/-! ### Every run -/

/-- Whoever created `recovery.claim` is alive. -/
def RecoveredByLive (fs : StartFenceFs) : Prop :=
  ∀ fence r, fs.fence = some fence → fence.recovery = some r → r.process ∉ fs.dead

theorem recoveredByLive_of_reachesBy {cfg : StartFenceConfig}
    (h : startFenceSystem.ReachesBy (fun cfg e ↦ recoversWhole cfg e = true) (.start {}) cfg) :
    RecoveredByLive cfg.shared := by
  refine startFenceProtocol_sound.holds_of_reachesBy permits_of_recoversWhole
    (fun {p t n fs fs'} _ hguar hlive fence' r hf' hr ↦ ?_)
    (fun {p cfg} _ hallows hlive fence r hf hr ↦ ?_) (pool_start StartFenceInv.empty)
    (fun fence r hf ↦ nomatch hf) h
  · rw [hguar.dead]
    rcases hguar.recovery fence' r hf' hr with ⟨fence, hf, hr⟩ | hnew
    · exact hlive fence r hf hr
    · exact hnew
  · have hf : cfg.shared.fence = some fence := hf
    have hne : r.process ≠ p := by
      have hfinishes : finishesRecovery p cfg.shared = true := hallows
      rw [finishesRecovery, hf, Option.all_some, hr, Option.all_some] at hfinishes
      simpa using hfinishes
    intro hmem
    rcases List.mem_cons.1 hmem with heq | hold
    · exact hne heq
    · exact hlive fence r hf hr hold

/-- **The start fence is safe** in every state of every run that recovers only what the dead left
behind, and completely. -/
theorem startFenceSafe_of_recoversWhole (cfg : StartFenceConfig)
    (h : startFenceSystem.ReachesBy (fun cfg e ↦ recoversWhole cfg e = true) (.start {}) cfg) :
    StartFenceSafe cfg := by
  have hreach : startFenceSystem.Reaches startFenceProtocol.ok (.start {}) cfg :=
    h.reaches permits_of_recoversWhole
  have hinv : StartFenceInv cfg.shared :=
    (startFenceProtocol_sound.pool (pool_start StartFenceInv.empty) hreach).inv
  refine ⟨fun holder hmem holder' hmem' _ _ ↦ ?_, fun r hr ↦ ?_,
    fun fence hf ⟨hdead, hrecovery⟩ process instanceId ms hlive hms ↦ ?_⟩
  · obtain ⟨-, fence, hf, rfl⟩ := hinv.holders holder hmem
    obtain ⟨-, fence', hf', rfl⟩ := hinv.holders holder' hmem'
    obtain rfl := Option.some.inj (hf.symm.trans hf')
    exact ⟨rfl, rfl⟩
  · rw [hinv.released r hr]
    exact ⟨rfl, rfl⟩
  · have hnone : fence.recovery = none := by
      cases hr : fence.recovery with
      | none => rfl
      | some r =>
        exact absurd (hrecovery r hr) (recoveredByLive_of_reachesBy h fence r hf hr)
    exact canAcquire_of_abandoned hinv hf hdead hnone hlive hms

/-- A start by process `p`, of the manager with the same number. -/
def startBy (p : ℕ) : Event StartFenceCall ℕ := .call p (.startOwnedService p)

/-- A manager takes over from one that died holding the fence. -/
theorem startFenceSafe_takeover : ∃ cfg : StartFenceConfig,
    cfg.shared.holders = [⟨1, 2, 2⟩] ∧ StartFenceSafe cfg := by
  have hrun : (startFenceSystem.follow recoversWhole (.start {})
      [[startBy 1], List.replicate 6 (.run 0), [.crash 1, startBy 2],
        List.replicate 14 (.run 1)].flatten).map
        (fun cfg : StartFenceConfig ↦ cfg.shared.holders) = some [⟨1, 2, 2⟩] := by
    decide +kernel
  obtain ⟨cfg, hcfg, hholders⟩ := Option.map_eq_some_iff.1 hrun
  exact ⟨cfg, hholders, startFenceSafe_of_recoversWhole cfg (System.reachesBy_of_follow hcfg)⟩

/-- Process 1 dies holding the fence. Processes 2 and 3 both judge its claim stale; process 2
recovers the directory and makes its own, and process 3 then recovers that one. -/
def staleJudgement : List (Event StartFenceCall ℕ) :=
  [ [startBy 1], List.replicate 6 (.run 0), [.crash 1, startBy 2, startBy 3],
    List.replicate 3 (.run 2), List.replicate 14 (.run 1), List.replicate 11 (.run 2) ].flatten

/-- **A stale judgement breaks the exclusion**: processes 2 and 3 live and both hold the fence. -/
theorem not_startFenceSafe_staleJudgement : ¬ ∀ cfg : StartFenceConfig,
    startFenceSystem.Reaches System.unrestricted (.start {}) cfg → StartFenceSafe cfg := by
  intro h
  have hrun : (startFenceSystem.advanceAll (fun _ _ _ _ ↦ true) (.start {}) staleJudgement).map
      (fun cfg : StartFenceConfig ↦ (cfg.shared.holders, cfg.shared.dead)) =
        some ([⟨2, 3, 3⟩, ⟨1, 2, 2⟩], [1]) := by
    decide +kernel
  obtain ⟨cfg, hcfg, hstate⟩ := Option.map_eq_some_iff.1 hrun
  obtain ⟨hholders, hdead⟩ := Prod.mk.inj hstate
  have hreach : startFenceSystem.Reaches System.unrestricted (.start {}) cfg :=
    (System.reaches_of_advanceAll hcfg).mono fun _ _ _ _ _ ↦ trivial
  have hexclusive := (h cfg hreach).exclusive ⟨2, 3, 3⟩ (by rw [hholders]; decide) ⟨1, 2, 2⟩
    (by rw [hholders]; decide) (by rw [hdead]; decide) (by rw [hdead]; decide)
  exact absurd hexclusive.1 (by decide)

end CodeConductor
