import CodeConductor.Lease.Protocol

/-!
# What each lease operation does

One lemma for each operation of the lease store, from the reading steps up to a whole session, each
for an arbitrary interleaving with the other contenders.
-/

namespace CodeConductor

open Async Async.Prog Async.Protocol

/-! ### The steps that change the files -/

namespace LeaseInv

variable {fs : LeaseFs}

/-- Without a written lease of a live process nobody holds one. -/
theorem holders_eq_nil (h : LeaseInv fs)
    (hlock : ∀ lock lease, fs.lock = some lock → lock.lease = some lease →
      lock.process ∈ fs.dead) : fs.holders = [] := by
  refine List.eq_nil_iff_forall_not_mem.2 fun holder hmem ↦ ?_
  obtain ⟨hlive, lock, lease, hl, -, hp, hlease, -⟩ := h.holders holder hmem
  exact hlive (hp ▸ hlock lock lease hl hlease)

/-- Without a mutex of a live process nobody is inside. -/
theorem inside_eq_nil (h : LeaseInv fs)
    (hmutex : ∀ m, fs.mutex = some m → m.processId ∈ fs.dead) : fs.inside = [] := by
  refine List.eq_nil_iff_forall_not_mem.2 fun e hmem ↦ ?_
  obtain ⟨hlive, m, hm, -, hp⟩ := h.inside e hmem
  exact hlive (hp ▸ hmutex m hm)

theorem empty : LeaseInv {} where
  process := nofun
  inside := nofun
  holders := nofun
  generations := .nil
  bounded := nofun
  released := nofun

/-- Replacing the lock directory by one nobody holds a lease in. -/
theorem setLock (h : LeaseInv fs) (hnil : fs.holders = []) {lock' : Option LockDirectory}
    (evidence : List LeaseToken)
    (hlock' : ∀ lock lease, lock' = some lock → lock.lease = some lease →
      lease.processId = lock.process) :
    LeaseInv { fs with lock := lock', leaseEvidence := evidence } where
  process := hlock'
  inside := h.inside
  holders _ he := absurd (hnil ▸ he) List.not_mem_nil
  generations := h.generations
  bounded := h.bounded
  released := h.released

/-- Touching the own lock directory: its times, or its lease for one with the same identity. -/
theorem touchLock (h : LeaseInv fs) {lock lock' : LockDirectory} (hlock : fs.lock = some lock)
    (hcreator : lock'.creator = lock.creator) (hprocess : lock'.process = lock.process)
    (hlease : ∀ lease, lock.lease = some lease → ∃ lease', lock'.lease = some lease' ∧
      ∀ lease'', sameLease lease lease'' = true → sameLease lease' lease'' = true)
    (howner : ∀ lease, lock'.lease = some lease → lease.processId = lock'.process) :
    LeaseInv { fs with lock := some lock' } where
  process l lease hl := by
    obtain rfl := Option.some.inj hl
    exact howner lease
  inside := h.inside
  holders e he := by
    obtain ⟨hlive, l, lease, hl, hc, hp, hle, hsame⟩ := h.holders e he
    obtain rfl := Option.some.inj (hlock.symm.trans hl)
    obtain ⟨lease', hle', hsame'⟩ := hlease lease hle
    exact ⟨hlive, lock', lease', rfl, hcreator.trans hc, hprocess.trans hp, hle', hsame' _ hsame⟩
  generations := h.generations
  bounded := h.bounded
  released := h.released

/-- Changing the mutex when nobody is inside. -/
theorem setMutex (h : LeaseInv fs) (hnil : fs.inside = []) (m : Option ReconciliationMutex)
    (evidence : List Uuid) : LeaseInv { fs with mutex := m, mutexEvidence := evidence } where
  process := h.process
  inside _ he := absurd (hnil ▸ he) List.not_mem_nil
  holders := h.holders
  generations := h.generations
  bounded := h.bounded
  released := h.released

theorem drawUuid (h : LeaseInv fs) : LeaseInv { fs with nextUuid := fs.nextUuid + 1 } :=
  ⟨h.process, h.inside, h.holders, h.generations, h.bounded, h.released⟩

end LeaseInv

section Operations

variable {p t : ℕ} {fs : LeaseFs}

theorem OwnsMutex.of_rely {fs' : LeaseFs} {m : ReconciliationMutex} (h : OwnsMutex p t fs m)
    (hr : LeaseRely p t fs fs') (hp : p ∉ fs.dead) : OwnsMutex p t fs' m :=
  ⟨hr.mutex hp m h, h.2⟩

theorem OwnsLock.of_rely {fs' : LeaseFs} {lock : LockDirectory} (h : OwnsLock p t fs lock)
    (hr : LeaseRely p t fs fs') (hp : p ∉ fs.dead) : OwnsLock p t fs' lock :=
  ⟨hr.lock hp lock h, h.2⟩

/-- The caller's process lives as long as the call runs, and the dead stay dead. -/
theorem safe_alive {A : Type} {Q : Except RuntimeError A → LeaseFs → Prop} {prog : LeaseProg A}
    (h : leaseProtocol.Safe p t Q prog fs) (hp : p ∉ fs.dead) :
    leaseProtocol.Safe p t (fun r fs' ↦ Q r fs' ∧ p ∉ fs'.dead ∧ fs.dead ⊆ fs'.dead) prog fs := by
  refine h.stable (fun s s' hr hJ ↦ ⟨hr.alive hJ.1, List.Subset.trans hJ.2 hr.dead⟩) ?_
    ⟨hp, List.Subset.refl _⟩
  rintro n s s' hg ⟨hs, hsub⟩
  exact ⟨hg.dead ▸ hs, hg.dead ▸ hsub⟩

/-- What an inspection tells: a lease it reports dead belongs to a dead process; and if it is made
under the own mutex and finds a lease whose process was dead before, the lock directory is that of a
dead process. -/
def InspectPost (p t : ℕ) (fs : LeaseFs) (r : Except RuntimeError LeaseInspection)
    (fs' : LeaseFs) : Prop :=
  ∃ i, r = .ok i ∧
    (i.state = .recoverableDeadLocal → ∃ token lease, i.evidenceToken = some token ∧
      token.raw = some lease ∧ lease.processId ∈ fs'.dead) ∧
    ∀ m, OwnsMutex p t fs m → OwnsMutex p t fs' m ∧
      ∀ token lease, i.evidenceToken = some token → token.raw = some lease →
        lease.processId ∈ fs.dead → ∃ lock, fs'.lock = some lock ∧ lock.process ∈ fs'.dead

theorem safe_inspectLease {leaseMs : ℕ} {now : Timestamp} (hp : p ∉ fs.dead) :
    leaseProtocol.Safe p t (InspectPost p t fs) (inspectLease leaseMs now) fs := by
  unfold inspectLease
  simp only [bind_eq, pure_eq]
  refine safe_read_bind (fun _ ↦ LeaseGuar.refl t) fun s₁ _ _ _ hr₁ _ ↦
    ⟨fun st _ ↦ ?_, fun _ h ↦ nomatch h⟩
  have hp₁ := hr₁.alive hp
  match st with
  | none =>
    exact ⟨_, rfl, nofun, fun m hm ↦ ⟨hm.of_rely hr₁ hp, nofun⟩⟩
  | some (birthtime, mtime) =>
    refine safe_read_bind (fun _ ↦ LeaseGuar.refl t) fun s₂ _ _ hinv₂ hr₂ _ ↦
      ⟨fun raw hraw ↦ ?_, fun _ h ↦ nomatch h⟩
    have hp₂ := hr₂.alive hp₁
    have hr := hr₁.trans hr₂
    match raw with
    | none =>
      dsimp only
      split <;>
      · refine ⟨_, rfl, nofun, fun m hm ↦ ⟨hm.of_rely hr hp, ?_⟩⟩
        intro token lease htoken hlease
        obtain rfl := Option.some.inj htoken
        exact nomatch hlease
    | some lease =>
      refine safe_read_bind (fun _ ↦ LeaseGuar.refl t) fun s₃ _ _ _ hr₃ _ ↦
        ⟨fun alive halive ↦ ?_, fun _ h ↦ nomatch h⟩
      obtain rfl := Except.ok.inj halive
      refine ⟨_, rfl, fun hstate ↦ ⟨_, lease, rfl, rfl, ?_⟩, fun m hm ↦ ?_⟩
      · by_contra hlive
        simp only [hlive, not_false_eq_true, decide_true, if_true] at hstate
        split at hstate <;> exact nomatch hstate
      · refine ⟨hm.of_rely (hr.trans hr₃) hp, fun token lease' htoken hlease' hdead ↦ ?_⟩
        obtain rfl := Option.some.inj htoken
        obtain rfl := Option.some.inj hlease'
        -- the lease was read from the directory of a dead process, which stays under the mutex
        obtain ⟨lock, hlock, hlease⟩ := Option.bind_eq_some_iff.1 (Except.ok.inj hraw)
        have hdead₂ : lock.process ∈ s₂.dead := by
          rw [← hinv₂.process lock lease hlock hlease]
          exact hr.dead hdead
        exact ⟨lock, hr₃.deadLock hp₂ m (hm.of_rely hr hp) lock hlock hdead₂, hr₃.dead hdead₂⟩

theorem guar_drawUuid : LeaseGuar t fs { fs with nextUuid := fs.nextUuid + 1 } :=
  ⟨rfl, fun _ _ ↦ .inl rfl, fun _ _ ↦ .inl ⟨rfl, rfl⟩, fun _ _ ↦ .inl rfl, fun _ h ↦ .inl h⟩

/-! ### The mutex -/

/-- The rename that takes the mutex is refused, or makes it the own one. -/
theorem takeMutex_cases (fs : LeaseFs) (m : ReconciliationMutex) :
    fs.takeMutex m = (.ok false, fs) ∨
      ∃ fs', fs.takeMutex m = (.ok true, fs') ∧ fs'.mutex = some m ∧ fs'.dead = fs.dead := by
  unfold LeaseFs.takeMutex
  split
  · exact .inl rfl
  · exact .inr ⟨_, rfl, rfl, rfl⟩

theorem guar_takeMutex {m : ReconciliationMutex} (hm : m.holder = t) :
    LeaseGuar t fs (fs.takeMutex m).2 := by
  unfold LeaseFs.takeMutex
  split
  · exact LeaseGuar.refl t fs
  · rename_i hnone
    refine ⟨rfl, fun _ _ ↦ .inl rfl, fun _ _ ↦ .inl ⟨rfl, rfl⟩, ?_, fun e he ↦ ?_⟩
    · intro m' hm'
      rw [hnone] at hm'
      exact nomatch hm'
    · obtain rfl | he := List.mem_cons.1 he
      · exact .inr hm
      · exact .inl he

theorem inv_takeMutex (h : LeaseInv fs) {m : ReconciliationMutex} (hp : m.processId ∉ fs.dead) :
    LeaseInv (fs.takeMutex m).2 := by
  unfold LeaseFs.takeMutex
  split
  · exact h
  · rename_i hnone
    have hnil := h.inside_eq_nil fun m' hm' ↦ by rw [hnone] at hm'; exact nomatch hm'
    refine ⟨h.process, fun e he ↦ ?_, h.holders, h.generations, h.bounded, h.released⟩
    rw [hnil, List.mem_singleton] at he
    subst he
    exact ⟨hp, m, rfl, rfl, rfl⟩

theorem inv_preserveMutex (h : LeaseInv fs) {instanceId : Uuid}
    (hok : preservesDeadMutex p t (.preserveMutex instanceId) fs = true) :
    LeaseInv (fs.preserveMutex instanceId).2 := by
  unfold LeaseFs.preserveMutex
  split
  · exact h
  · rename_i m hm
    split
    · exact h
    · rename_i hfree
      rw [preservesDeadMutex, decide_eq_false hfree, hm] at hok
      refine h.setMutex (h.inside_eq_nil fun m' hm' ↦ ?_) none _
      obtain rfl := Option.some.inj (hm.symm.trans hm')
      simpa using hok

theorem guar_preserveMutex {instanceId : Uuid}
    (hok : preservesDeadMutex p t (.preserveMutex instanceId) fs = true) :
    LeaseGuar t fs (fs.preserveMutex instanceId).2 := by
  unfold LeaseFs.preserveMutex
  split
  · exact LeaseGuar.refl t fs
  · rename_i m hm
    split
    · exact LeaseGuar.refl t fs
    · rename_i hfree
      rw [preservesDeadMutex, decide_eq_false hfree, hm] at hok
      refine ⟨rfl, fun _ _ ↦ .inl rfl, fun _ _ ↦ .inl ⟨rfl, rfl⟩, fun m' hm' ↦ ?_,
        fun _ he ↦ .inl he⟩
      obtain rfl := Option.some.inj (hm.symm.trans hm')
      exact .inr (.inr (by simpa using hok))

theorem safe_preserveDeadReconciliationMutex (m : ReconciliationMutex) :
    leaseProtocol.Safe p t (fun _ _ ↦ True) (preserveDeadReconciliationMutex m) fs :=
  safe_atomic_bind fun _ _ _ hinv _ hok ↦
    ⟨inv_preserveMutex hinv hok.1, guar_preserveMutex hok.1,
      fun _ _ ↦ safe_atomic (f := fun fs ↦ (_, fs)) fun s _ _ hinv _ _ ↦
        ⟨hinv, LeaseGuar.refl t s, trivial⟩,
      fun _ _ ↦ trivial⟩

theorem safe_acquireReconciliationMutex (hp : p ∉ fs.dead) (fuel : ℕ) :
    leaseProtocol.Safe p t (fun r fs' ↦ ∀ m, r = .ok m → OwnsMutex p t fs' m)
      (acquireReconciliationMutex p t fuel) fs := by
  induction fuel generalizing fs with
  | zero => exact fun _ h ↦ nomatch h
  | succ fuel ih =>
    unfold acquireReconciliationMutex
    simp only [bind_eq, pure_eq, throw_eq]
    refine safe_atomic_bind fun s₁ _ _ hinv₁ hr₁ _ ↦
      ⟨hinv₁.drawUuid, guar_drawUuid, fun instanceId _ ↦ ?_, nofun⟩
    refine safe_read_bind (fun _ ↦ LeaseGuar.refl t) fun s₂ _ _ _ hr₂ _ ↦
      ⟨fun acquiredAt _ ↦ ?_, nofun⟩
    refine safe_read_bind (fun _ ↦ LeaseGuar.refl t) fun s₃ _ _ _ hr₃ _ ↦ ⟨fun _ _ ↦ ?_, nofun⟩
    have hp₃ := hr₃.alive (hr₂.alive (hr₁.alive hp))
    refine safe_atomic_bind fun s₄ _ _ hinv₄ hr₄ _ ↦ ?_
    have hp₄ := hr₄.alive hp₃
    refine ⟨inv_takeMutex hinv₄ hp₄, guar_takeMutex rfl, fun taken htaken ↦ ?_, fun e he ↦ ?_⟩
    · refine safe_read_bind (fun _ ↦ LeaseGuar.refl t) fun s₅ _ _ _ hr₅ _ ↦ ⟨fun _ _ ↦ ?_, nofun⟩
      obtain hstep | ⟨s₄', hstep, hmutex, hdead⟩ :=
        takeMutex_cases s₄ ⟨instanceId, p, acquiredAt, t⟩
      · -- somebody has the mutex: its owner is looked at once
        rw [hstep] at htaken hr₅
        obtain rfl := Except.ok.inj htaken
        refine safe_read_bind (fun _ ↦ LeaseGuar.refl t) fun s₆ _ _ _ hr₆ _ ↦
          ⟨fun existing _ ↦ ?_, fun _ _ ↦ nofun⟩
        refine safe_read_bind (fun _ ↦ LeaseGuar.refl t) fun s₇ _ _ _ hr₇ _ ↦
          ⟨fun alive _ ↦ ?_, nofun⟩
        have hp₇ := hr₇.alive (hr₆.alive (hr₅.alive hp₄))
        match alive with
        | true => exact nofun
        | false =>
          exact (safe_alive (safe_preserveDeadReconciliationMutex existing) hp₇).bind
            (fun _ s h ↦ ih h.2.1) fun _ _ _ ↦ nofun
      · rw [hstep] at htaken hr₅
        obtain rfl := Except.ok.inj htaken
        intro m hm
        obtain rfl := Except.ok.inj hm
        exact OwnsMutex.of_rely ⟨hmutex, rfl, rfl⟩ hr₅ (hdead ▸ hp₄)
    · obtain hstep | ⟨s₄', hstep, -⟩ := takeMutex_cases s₄ ⟨instanceId, p, acquiredAt, t⟩
      · rw [hstep] at he
        exact nomatch he
      · rw [hstep] at he
        exact nomatch he

/-- Leaving the critical section. -/
theorem inv_leaveMutex (h : LeaseInv fs) (e : ℕ × ℕ) :
    LeaseInv { fs with inside := fs.inside.filter fun e' ↦ e' ≠ e } :=
  ⟨h.process, fun _ he ↦ h.inside _ (List.mem_of_mem_filter he), h.holders, h.generations,
    h.bounded, h.released⟩

theorem guar_leaveMutex (e : ℕ × ℕ) :
    LeaseGuar t fs { fs with inside := fs.inside.filter fun e' ↦ e' ≠ e } :=
  ⟨rfl, fun _ _ ↦ .inl rfl, fun _ _ ↦ .inl ⟨rfl, rfl⟩, fun _ _ ↦ .inl rfl,
    fun _ he ↦ .inl (List.mem_of_mem_filter he)⟩

/-- Removing the own mutex directory after leaving. -/
theorem inv_releaseMutex (h : LeaseInv fs) {m : ReconciliationMutex} (hm : OwnsMutex p t fs m)
    (hleft : (t, p) ∉ fs.inside) : LeaseInv { fs with mutex := none } := by
  refine ⟨h.process, fun e he ↦ ?_, h.holders, h.generations, h.bounded, h.released⟩
  obtain ⟨-, m', hm', hholder, hprocess⟩ := h.inside e he
  obtain rfl := Option.some.inj (hm.1.symm.trans hm')
  have heq : e = (t, p) := Prod.ext (hholder.symm.trans hm.2.1) (hprocess.symm.trans hm.2.2)
  exact absurd (heq ▸ he) hleft

theorem guar_releaseMutex {m : ReconciliationMutex} (hm : OwnsMutex p t fs m) :
    LeaseGuar t fs { fs with mutex := none } := by
  refine ⟨rfl, fun _ _ ↦ .inl rfl, fun _ _ ↦ .inl ⟨rfl, rfl⟩, fun m' hm' ↦ ?_, fun _ he ↦ .inl he⟩
  obtain rfl := Option.some.inj (hm.1.symm.trans hm')
  exact .inr (.inl hm.2.1)

theorem safe_releaseReconciliationMutex {m : ReconciliationMutex} (hm : OwnsMutex p t fs m)
    (hp : p ∉ fs.dead) :
    leaseProtocol.Safe p t (fun _ _ ↦ True) (releaseReconciliationMutex m) fs := by
  unfold releaseReconciliationMutex
  simp only [bind_eq, pure_eq]
  refine safe_atomic_bind fun s₁ _ _ hinv₁ hr₁ _ ↦
    ⟨inv_leaveMutex hinv₁ _, guar_leaveMutex _, fun current hcurrent ↦ ?_, fun _ _ ↦ trivial⟩
  have hm₁ := hm.of_rely hr₁ hp
  have hp₁ := hr₁.alive hp
  obtain rfl : some m = current := hm₁.1.symm.trans (Except.ok.inj hcurrent)
  dsimp only
  rw [if_neg (by simp)]
  refine safe_atomic_bind fun s₂ _ _ hinv₂ hr₂ _ ↦ ?_
  have hm₂ : OwnsMutex p t s₂ m := ⟨hr₂.mutex hp₁ m hm₁, hm₁.2⟩
  have hleft : (t, p) ∉ s₂.inside := by
    refine hr₂.inside fun he ↦ ?_
    have := (List.mem_filter.1 he).2
    rw [hm.2.1, hm.2.2] at this
    simp at this
  refine ⟨inv_releaseMutex hinv₂ hm₂ hleft, guar_releaseMutex hm₂, fun moved _ ↦ ?_,
    fun _ _ ↦ trivial⟩
  match moved with
  | none => trivial
  | some moved =>
    refine safe_read_bind (fun _ ↦ LeaseGuar.refl t) fun s₃ _ _ _ _ _ ↦
      ⟨fun _ _ ↦ ?_, fun _ _ ↦ trivial⟩
    exact safe_atomic (f := fun fs ↦ (_, fs)) fun s _ _ hinv _ _ ↦
      ⟨hinv, LeaseGuar.refl t s, trivial⟩

/-- An operation under the mutex: it starts with the mutex being the own one, and has to leave it
so. -/
theorem safe_withLeaseRecoveryLock {A : Type} {operation : LeaseProg A} {fuel : ℕ}
    (hp : p ∉ fs.dead)
    (hop : ∀ m s, OwnsMutex p t s m → p ∉ s.dead → fs.dead ⊆ s.dead →
      leaseProtocol.Safe p t (fun _ s' ↦ OwnsMutex p t s' m) operation s) :
    leaseProtocol.Safe p t (fun _ _ ↦ True) (withLeaseRecoveryLock p t fuel operation) fs := by
  unfold withLeaseRecoveryLock
  rw [bind_eq]
  refine (safe_alive (safe_acquireReconciliationMutex hp fuel) hp).bind (fun m s h ↦ ?_)
    fun _ _ _ ↦ trivial
  refine (safe_alive (hop m s (h.1 m rfl) h.2.1 h.2.2) h.2.1).ensuring fun r s' h' ↦ ?_
  refine (safe_releaseReconciliationMutex h'.1 h'.2.1).mono fun u s'' _ ↦ ?_
  cases u with
  | ok _ => trivial
  | error _ => trivial

/-! ### Preserving the lock of a dead process -/

theorem inv_preserveLock (h : LeaseInv fs) (token : LeaseToken)
    (hdead : ∀ lock, fs.lock = some lock → lock.process ∈ fs.dead) :
    LeaseInv (fs.preserveLock token).2 := by
  unfold LeaseFs.preserveLock
  split
  · exact h
  · split
    · exact h
    · have hnil := h.holders_eq_nil fun lock _ hlock _ ↦ hdead lock hlock
      exact h.setLock hnil _ fun _ _ hl ↦ nomatch hl

theorem guar_preserveLock (token : LeaseToken) {m : ReconciliationMutex}
    (hm : OwnsMutex p t fs m) (hdead : ∀ lock, fs.lock = some lock → lock.process ∈ fs.dead) :
    LeaseGuar t fs (fs.preserveLock token).2 := by
  unfold LeaseFs.preserveLock
  split
  · exact LeaseGuar.refl t fs
  · split
    · exact LeaseGuar.refl t fs
    · exact ⟨rfl, fun lock hlock ↦ .inr (.inr ⟨hdead lock hlock, m, hm.1, hm.2.1⟩),
        fun _ _ ↦ .inl ⟨rfl, rfl⟩, fun _ _ ↦ .inl rfl, fun _ he ↦ .inl he⟩

theorem preserveLock_mutex (fs : LeaseFs) (token : LeaseToken) :
    (fs.preserveLock token).2.mutex = fs.mutex ∧ (fs.preserveLock token).2.dead = fs.dead := by
  unfold LeaseFs.preserveLock
  split
  · exact ⟨rfl, rfl⟩
  · split <;> exact ⟨rfl, rfl⟩

/-- Preserving the lock directory under the own mutex, when whatever stands there at the rename
belongs to a dead process. -/
theorem safe_preserveLeaseDirectory {rename : LeaseStep} {i : LeaseInspection}
    {m : ReconciliationMutex} (hm : OwnsMutex p t fs m) (hp : p ∉ fs.dead)
    (hdead : ∀ s, LeaseRely p t fs s → leaseProtocol.ok p t rename s →
      ∀ lock, s.lock = some lock → lock.process ∈ s.dead) :
    leaseProtocol.Safe p t (fun _ s ↦ OwnsMutex p t s m) (preserveLeaseDirectory rename i) fs := by
  unfold preserveLeaseDirectory
  match i.evidenceToken with
  | none => exact hm
  | some token =>
    refine safe_atomic_bind fun s₁ _ _ hinv₁ hr₁ hok ↦ ?_
    have hm₁ := hm.of_rely hr₁ hp
    have hp₁ := hr₁.alive hp
    obtain ⟨hmutex, hdead'⟩ := preserveLock_mutex s₁ token
    have hm₁' : OwnsMutex p t (s₁.preserveLock token).2 m := ⟨hmutex.trans hm₁.1, hm₁.2⟩
    refine ⟨inv_preserveLock hinv₁ token (hdead s₁ hr₁ hok),
      guar_preserveLock token hm₁ (hdead s₁ hr₁ hok), fun _ _ ↦ ?_, fun _ _ ↦ hm₁'⟩
    exact safe_atomic (f := fun fs ↦ (_, fs)) fun s₂ _ _ hinv₂ hr₂ _ ↦
      ⟨hinv₂, LeaseGuar.refl t s₂, hm₁'.of_rely hr₂ (hdead' ▸ hp₁)⟩

/-- **Recovering a dead lease**: what was inspected before taking the mutex was dead already, so the
second inspection either finds the directory of that dead process or gives up. -/
theorem safe_recoverDeadLease {fuel leaseMs : ℕ} {now : Timestamp} {expected : LeaseInspection}
    {token : LeaseToken} {lease : DispatcherLease} (hp : p ∉ fs.dead)
    (htoken : expected.evidenceToken = some token) (hraw : token.raw = some lease)
    (hdead : lease.processId ∈ fs.dead) :
    leaseProtocol.Safe p t (fun _ _ ↦ True) (recoverDeadLease p t fuel expected leaseMs now) fs := by
  refine Safe.catching (R := fun _ _ ↦ True) ?_ (fun _ _ _ ↦ trivial) fun e s _ ↦ ?_
  · refine safe_withLeaseRecoveryLock hp fun m s hm hps hsub ↦ ?_
    refine (safe_alive (safe_inspectLease hps) hps).bind (fun i s₁ h ↦ ?_) fun e s₁ h ↦ ?_
    · obtain ⟨⟨i', heq, -, hown⟩, hp₁, -⟩ := h
      obtain rfl := Except.ok.inj heq
      obtain ⟨hm₁, hlock⟩ := hown m hm
      split
      · exact hm₁
      · rename_i hsame
        rw [not_or, not_not, not_not, htoken] at hsame
        obtain ⟨lock, hl, hld⟩ := hlock token lease hsame.2 hraw (hsub hdead)
        refine Safe.bind (safe_preserveLeaseDirectory hm₁ hp₁ fun s₂ hr₂ _ lock' hl' ↦ ?_)
          (fun _ _ h ↦ h) fun _ _ h ↦ h
        obtain rfl := Option.some.inj
          ((hr₂.deadLock hp₁ m hm₁ lock hl hld).symm.trans hl')
        exact hr₂.dead hld
    · obtain ⟨⟨i', heq, -⟩, -⟩ := h
      exact nomatch heq
  · split <;> trivial

theorem safe_quarantineUnreadableLease {fuel leaseMs : ℕ} {token : LeaseToken} (hp : p ∉ fs.dead) :
    leaseProtocol.Safe p t (fun _ _ ↦ True) (quarantineUnreadableLease p t fuel token leaseMs)
      fs := by
  refine safe_read_bind (fun _ ↦ LeaseGuar.refl t) fun s₀ _ _ _ hr₀ _ ↦ ⟨fun now _ ↦ ?_, nofun⟩
  refine safe_withLeaseRecoveryLock (hr₀.alive hp) fun m s hm hps _ ↦ ?_
  refine (safe_alive (safe_inspectLease hps) hps).bind (fun i s₁ h ↦ ?_) fun e s₁ h ↦ ?_
  · obtain ⟨⟨i', heq, -, hown⟩, hp₁, -⟩ := h
    obtain rfl := Except.ok.inj heq
    split
    · exact (hown m hm).1
    · refine safe_preserveLeaseDirectory (hown m hm).1 hp₁ fun s₂ _ hok lock hl ↦ ?_
      have := hok.2
      rw [quarantinesDeadLock, hl] at this
      simpa using this
  · obtain ⟨⟨i', heq, -⟩, -⟩ := h
    exact nomatch heq

/-! ### The lock of the own process -/

theorem guar_ownLock {lock : LockDirectory} (hlock : OwnsLock p t fs lock) (hp : p ∉ fs.dead)
    {fs' : LeaseFs} (hdead : fs'.dead = fs.dead) (hmutex : fs'.mutex = fs.mutex)
    (hinside : fs'.inside = fs.inside) : LeaseGuar t fs fs' where
  dead := hdead
  lock l hl := by
    obtain rfl := Option.some.inj (hlock.1.symm.trans hl)
    exact .inr (.inl ⟨hlock.2.1, hlock.2.2 ▸ hp⟩)
  counter l hl := by
    obtain rfl := Option.some.inj (hlock.1.symm.trans hl)
    exact .inr hlock.2.1
  mutex _ _ := .inl hmutex
  inside e he := .inl (hinside ▸ he)

/-- Writing `lease.json` into the own lock directory; what is left to show is about the rename that
publishes it. -/
theorem safe_writeLease {lock : LockDirectory} {lease : DispatcherLease}
    {record : LeaseFs → LeaseFs} {Q : Except RuntimeError Unit → LeaseFs → Prop}
    (hlock : OwnsLock p t fs lock) (hp : p ∉ fs.dead)
    (howner : ∀ l, lock.lease = some l → l.processId = p)
    (hpublish : ∀ s lock', OwnsLock p t s lock' → p ∉ s.dead → lock'.lease = lock.lease →
      s.generation = fs.generation → s.issued = fs.issued → LeaseInv s →
        LeaseInv (record { s with lock := some { lock' with lease := some lease, mtime := s.now } }) ∧
        LeaseGuar t s
          (record { s with lock := some { lock' with lease := some lease, mtime := s.now } }) ∧
        Q (.ok ())
          (record { s with lock := some { lock' with lease := some lease, mtime := s.now } })) :
    leaseProtocol.Safe p t Q (writeLease p t lease record) fs := by
  unfold writeLease
  simp only [bind_eq]
  refine safe_modify_bind fun s₁ _ _ hinv₁ hr₁ _ ↦ ?_
  have hlock₁ := hlock.of_rely hr₁ hp
  have hp₁ := hr₁.alive hp
  obtain ⟨hgen₁, hiss₁⟩ := hr₁.counter hp lock hlock
  rw [hlock₁.1]
  refine ⟨hinv₁, LeaseGuar.refl t s₁, ?_⟩
  refine safe_atomic_bind fun s₂ _ _ hinv₂ hr₂ _ ↦ ?_
  have hlock₂ := hlock₁.of_rely hr₂ hp₁
  have hp₂ := hr₂.alive hp₁
  obtain ⟨hgen₂, hiss₂⟩ := hr₂.counter hp₁ lock hlock₁
  rw [hlock₂.1]
  refine ⟨hinv₂.touchLock hlock₂.1 rfl rfl (fun l hl ↦ ⟨l, hl, fun _ h ↦ h⟩) fun l hl ↦ ?_,
    guar_ownLock hlock₂ hp₂ rfl rfl rfl, fun _ _ ↦ ?_, nofun⟩
  · exact (howner l hl).trans hlock₂.2.2.symm
  have hlock₂' : OwnsLock p t { s₂ with lock := some { lock with mtime := s₂.now } }
      { lock with mtime := s₂.now } := ⟨rfl, hlock₂.2⟩
  refine safe_read_bind (fun _ ↦ LeaseGuar.refl t) fun s₃ _ _ _ hr₃ _ ↦ ⟨fun _ _ ↦ ?_, nofun⟩
  have hlock₃ := hlock₂'.of_rely hr₃ hp₂
  have hp₃ := hr₃.alive hp₂
  obtain ⟨hgen₃, hiss₃⟩ := hr₃.counter hp₂ _ hlock₂'
  refine safe_atomic fun s₄ _ _ hinv₄ hr₄ _ ↦ ?_
  have hlock₄ := hlock₃.of_rely hr₄ hp₃
  have hp₄ := hr₄.alive hp₃
  obtain ⟨hgen₄, hiss₄⟩ := hr₄.counter hp₃ _ hlock₃
  have hstep : s₄.publishLease lease = (.ok (), { s₄ with
      lock := some { lock with lease := some lease, mtime := s₄.now } }) := by
    rw [LeaseFs.publishLease, hlock₄.1]
  rw [hstep]
  exact hpublish s₄ { lock with mtime := s₂.now } hlock₄ hp₄ rfl (hgen₄.trans (hgen₃.trans (hgen₂.trans hgen₁)))
    (hiss₄.trans (hiss₃.trans (hiss₂.trans hiss₁))) hinv₄

/-- Call `t` of the live process `p` holds `lease`. -/
def HoldsLease (p t : ℕ) (lease : DispatcherLease) (fs : LeaseFs) : Prop :=
  p ∉ fs.dead ∧ ∃ lock current, OwnsLock p t fs lock ∧ lock.lease = some current ∧
    current.processId = p ∧ sameLease current lease = true

theorem HoldsLease.of_rely {lease : DispatcherLease} {fs' : LeaseFs}
    (h : HoldsLease p t lease fs) (hr : LeaseRely p t fs fs') : HoldsLease p t lease fs' := by
  obtain ⟨hp, lock, current, hlock, hrest⟩ := h
  exact ⟨hr.alive hp, lock, current, hlock.of_rely hr hp, hrest⟩

theorem sameLease_iff {a b : DispatcherLease} : sameLease a b = true ↔
    a.ownerId = b.ownerId ∧ a.instanceId = b.instanceId ∧ a.generation = b.generation := by
  simp [sameLease, and_assoc]

/-- The first lease written into the own lock directory. -/
theorem safe_writeFirstLease {lock : LockDirectory} {lease : DispatcherLease} {g : ℕ}
    (hlock : OwnsLock p t fs lock) (hp : p ∉ fs.dead) (hempty : lock.lease = none)
    (hprocess : lease.processId = p) (hgen : fs.generation = some g) (hlease : lease.generation = g)
    (hissued : ∀ l ∈ fs.issued, l.generation < g) :
    leaseProtocol.Safe p t (fun r s ↦ r = .ok () ∧ HoldsLease p t lease s)
      (writeLease p t lease fun s ↦
        { s with issued := s.issued ++ [lease], holders := ⟨t, p, lease⟩ :: s.holders }) fs := by
  refine safe_writeLease hlock hp (by rw [hempty]; exact nofun) ?_
  intro s lock' hlock' hps hsame hgens hiss hinv
  have hnone : s.holders = [] := hinv.holders_eq_nil fun l lease' hl hl' ↦ by
    obtain rfl := Option.some.inj (hlock'.1.symm.trans hl)
    rw [hsame, hempty] at hl'
    exact nomatch hl'
  refine ⟨⟨?_, hinv.inside, ?_, ?_, ?_, hinv.released⟩, guar_ownLock hlock' hps rfl rfl rfl, rfl,
    hps, _, lease, ⟨rfl, hlock'.2⟩, rfl, hprocess, sameLease_iff.2 ⟨rfl, rfl, rfl⟩⟩
  · intro l lease' hl hl'
    obtain rfl := Option.some.inj hl
    obtain rfl := Option.some.inj hl'
    exact hprocess.trans hlock'.2.2.symm
  · intro h hh
    rw [hnone, List.mem_singleton] at hh
    subst hh
    exact ⟨hps, _, lease, rfl, hlock'.2.1, hlock'.2.2, rfl, sameLease_iff.2 ⟨rfl, rfl, rfl⟩⟩
  · refine List.pairwise_append.2 ⟨hinv.generations, List.pairwise_singleton _ _, ?_⟩
    intro a ha b hb
    rw [List.mem_singleton.1 hb, hlease]
    exact hissued a (hiss ▸ ha)
  · intro a ha
    show a.generation ≤ s.generation.getD 0
    rw [hgens, hgen, Option.getD_some]
    obtain ha | ha := List.mem_append.1 ha
    · exact Nat.le_of_lt (hissued a (hiss ▸ ha))
    · have heq : a.generation = g := by rw [List.mem_singleton.1 ha, hlease]
      exact Nat.le_of_eq heq

theorem safe_initializeLease {lock : LockDirectory} {ownerId : String} {leaseMs : ℕ}
    {now : Timestamp} (hlock : OwnsLock p t fs lock) (hp : p ∉ fs.dead)
    (hempty : lock.lease = none) :
    leaseProtocol.Safe p t
      (fun r s ↦ ∀ lease, r = .ok (some lease) → HoldsLease p t lease s)
      (initializeLease p t ownerId leaseMs now) fs := by
  unfold initializeLease
  simp only [bind_eq, pure_eq, throw_eq, tryCatch_eq]
  refine Safe.catching (R := fun r s ↦ match r with
    | .ok lease => ∀ l, lease = some l → HoldsLease p t l s
    | .error _ => OwnsLock p t s lock ∧ p ∉ s.dead) ?_ (fun lease s h l hl ↦ ?_) fun e s h ↦ ?_
  · unfold nextLeaseGeneration
    simp only [bind_eq, pure_eq]
    refine Safe.bind (R := fun r s ↦ OwnsLock p t s lock ∧ p ∉ s.dead ∧ ∀ g, r = .ok g →
      s.generation = some g ∧ ∀ l ∈ s.issued, l.generation < g) ?_ ?_ fun e s h ↦ ⟨h.1, h.2.1⟩
    · refine safe_read_bind (fun _ ↦ LeaseGuar.refl t) fun s₁ _ _ hinv₁ hr₁ _ ↦
        ⟨fun generation hgeneration ↦ ?_, fun e _ ↦ ⟨hlock.of_rely hr₁ hp, hr₁.alive hp, nofun⟩⟩
      have hlock₁ := hlock.of_rely hr₁ hp
      have hp₁ := hr₁.alive hp
      have hgetD : s₁.generation.getD 0 = generation := by
        split at hgeneration
        · rename_i hnone
          rw [hnone]
          exact Except.ok.inj hgeneration
        · rename_i g hsome
          split at hgeneration
          · exact nomatch hgeneration
          · rw [hsome]
            exact Except.ok.inj hgeneration
      refine safe_modify_bind fun s₂ _ _ hinv₂ hr₂ _ ↦ ?_
      have hlock₂ := hlock₁.of_rely hr₂ hp₁
      obtain ⟨hgen₂, hiss₂⟩ := hr₂.counter hp₁ lock hlock₁
      have hbound : ∀ l ∈ s₂.issued, l.generation < generation + 1 := by
        intro l hl
        have := hinv₁.bounded l (hiss₂ ▸ hl)
        omega
      refine ⟨⟨hinv₂.process, hinv₂.inside, hinv₂.holders, hinv₂.generations, ?_, hinv₂.released⟩,
        guar_ownLock hlock₂ (hr₂.alive hp₁) rfl rfl rfl, ⟨hlock₂.1, hlock₂.2⟩, hr₂.alive hp₁, ?_⟩
      · exact fun l hl ↦ Nat.le_of_lt (hbound l hl)
      · intro g hg
        obtain rfl := Except.ok.inj hg
        exact ⟨rfl, hbound⟩
    · rintro g s ⟨hlock', hps, hg⟩
      obtain ⟨hgen, hbound⟩ := hg g rfl
      refine safe_atomic_bind fun s₁ _ _ hinv₁ hr₁ _ ↦
        ⟨hinv₁.drawUuid, guar_drawUuid, fun instanceId _ ↦ ?_, nofun⟩
      obtain ⟨hgen₁, hiss₁⟩ := hr₁.counter hps lock hlock'
      have hlock₁ := hlock'.of_rely hr₁ hps
      refine Safe.bind (safe_writeFirstLease ⟨hlock₁.1, hlock₁.2⟩ (hr₁.alive hps) hempty
        (by rfl) (hgen₁.trans hgen) (by rfl) fun l hl ↦ hbound l (hiss₁ ▸ hl)) ?_ ?_
      · rintro _ s₂ ⟨-, hholds⟩ l hl
        obtain rfl := Option.some.inj hl
        exact hholds
      · rintro e s₂ ⟨heq, -⟩
        exact nomatch heq
  · exact h l (Except.ok.inj hl)
  · -- the generation was not readable: the own lock directory is removed again
    obtain ⟨hlock', hps⟩ := h
    refine safe_modify_bind fun s₁ _ _ hinv₁ hr₁ _ ↦ ?_
    have hlock₁ := hlock'.of_rely hr₁ hps
    have hnone : s₁.holders = [] := hinv₁.holders_eq_nil fun l lease hl hl' ↦ by
      obtain rfl := Option.some.inj (hlock₁.1.symm.trans hl)
      rw [hempty] at hl'
      exact nomatch hl'
    exact ⟨hinv₁.setLock hnone _ nofun, guar_ownLock hlock₁ (hr₁.alive hps) rfl rfl rfl,
      fun _ h ↦ nomatch h⟩

/-- Making the lock directory is refused, or makes it the own one. -/
theorem makeLock_cases (fs : LeaseFs) (p t : ℕ) :
    fs.makeLock p t = (.ok false, fs) ∨
      fs.lock = none ∧ fs.makeLock p t =
        (.ok true, { fs with lock := some ⟨fs.now, fs.now, none, t, p⟩ }) := by
  unfold LeaseFs.makeLock
  split
  · exact .inl rfl
  · rename_i hnone
    exact .inr ⟨hnone, rfl⟩

theorem safe_acquireLease {ownerId : String} {leaseMs : ℕ} {now : Timestamp} (hp : p ∉ fs.dead)
    (fuel : ℕ) :
    leaseProtocol.Safe p t
      (fun r s ↦ ∀ lease, r = .ok (some lease) → HoldsLease p t lease s)
      (acquireLease p t ownerId leaseMs now fuel) fs := by
  induction fuel generalizing fs with
  | zero => exact fun _ h ↦ nomatch h
  | succ fuel ih =>
    unfold acquireLease
    simp only [bind_eq, pure_eq, throw_eq]
    refine safe_atomic_bind fun s₁ _ _ hinv₁ hr₁ _ ↦ ?_
    have hp₁ := hr₁.alive hp
    obtain hstep | ⟨hnone, hstep⟩ := makeLock_cases s₁ p t
    · rw [hstep]
      refine ⟨hinv₁, LeaseGuar.refl t s₁, fun made hmade ↦ ?_, fun e h ↦ nomatch h⟩
      obtain rfl := Except.ok.inj hmade
      refine (safe_alive (safe_inspectLease hp₁) hp₁).bind (fun i s₂ h ↦ ?_) fun e s₂ h ↦ nofun
      obtain ⟨⟨i', heq, hdead, -⟩, hp₂, -⟩ := h
      obtain rfl := Except.ok.inj heq
      match hstate : i.state with
      | .recoverableDeadLocal =>
        obtain ⟨token, lease, htoken, hraw, hld⟩ := hdead hstate
        refine (safe_alive (safe_recoverDeadLease hp₂ htoken hraw hld) hp₂).bind
          (fun recovered s₃ h₃ ↦ ?_) fun _ _ _ ↦ nofun
        match recovered with
        | true => exact ih h₃.2.1
        | false => exact fun _ h ↦ nomatch h
      | .absent => exact fun _ h ↦ nomatch h
      | .initializing => exact fun _ h ↦ nomatch h
      | .incomplete => exact fun _ h ↦ nomatch h
      | .activeLocal => exact fun _ h ↦ nomatch h
      | .expiredLiveLocal => exact fun _ h ↦ nomatch h
    · rw [hstep]
      have hholders : s₁.holders = [] := hinv₁.holders_eq_nil fun l _ hl _ ↦ by
        rw [hnone] at hl
        exact nomatch hl
      refine ⟨hinv₁.setLock hholders _ fun l lease hl hl' ↦ ?_, ⟨rfl, ?_, ?_, fun _ _ ↦ .inl rfl,
        fun _ he ↦ .inl he⟩, fun made hmade ↦ ?_, fun e h ↦ nomatch h⟩
      · obtain rfl := Option.some.inj hl
        exact nomatch hl'
      · intro l hl
        rw [hnone] at hl
        exact nomatch hl
      · intro l hl
        rw [hnone] at hl
        exact nomatch hl
      · obtain rfl := Except.ok.inj hmade
        exact safe_initializeLease ⟨rfl, rfl, rfl⟩ hp₁ rfl

/-- Renewing keeps the lease, whether it succeeds or not. -/
theorem safe_renewLease {held lease : DispatcherLease} {leaseMs : ℕ}
    (h : HoldsLease p t held fs) :
    leaseProtocol.Safe p t (fun _ s ↦ HoldsLease p t held s) (renewLease p t lease leaseMs) fs := by
  unfold renewLease
  simp only [bind_eq, pure_eq]
  refine safe_read_bind (fun _ ↦ LeaseGuar.refl t) fun s₁ _ _ _ hr₁ _ ↦ ⟨fun now _ ↦ ?_, nofun⟩
  have h₁ := h.of_rely hr₁
  refine safe_read_bind (fun _ ↦ LeaseGuar.refl t) fun s₂ _ _ _ hr₂ _ ↦
    ⟨fun current hcurrent ↦ ?_, fun _ _ ↦ h₁.of_rely hr₂⟩
  obtain ⟨hp₂, lock, lease₂, hlock, hlease, hprocess, hsame⟩ := h₁.of_rely hr₂
  have hcur : current = lease₂ := by
    rw [hlock.1, Option.bind_some, hlease] at hcurrent
    dsimp only at hcurrent
    split at hcurrent
    · exact (Except.ok.inj hcurrent).symm
    · exact nomatch hcurrent
  subst hcur
  refine Safe.bind (R := fun _ s ↦ HoldsLease p t held s)
    (safe_writeLease hlock hp₂ (fun l hl ↦ ?_) ?_) (fun _ _ h ↦ h) fun _ _ h ↦ h
  · obtain rfl := Option.some.inj (hlease.symm.trans hl)
    exact hprocess
  · intro s lock' hlock' hps hl' _ _ hinv
    refine ⟨hinv.touchLock hlock'.1 rfl rfl (fun l hl ↦ ⟨_, rfl, fun l'' hl'' ↦ ?_⟩) fun l hl ↦ ?_,
      guar_ownLock hlock' hps rfl rfl rfl, hps, _, _, ⟨rfl, hlock'.2⟩, rfl, hprocess, hsame⟩
    · rw [hl', hlease] at hl
      obtain rfl := Option.some.inj hl
      exact hl''
    · obtain rfl := Option.some.inj hl
      exact hprocess.trans hlock'.2.2.symm

theorem safe_renewTimes {held lease : DispatcherLease} {leaseMs n : ℕ}
    (h : HoldsLease p t held fs) :
    leaseProtocol.Safe p t (fun _ s ↦ HoldsLease p t held s) (renewTimes p t leaseMs n lease)
      fs := by
  induction n generalizing fs lease with
  | zero => exact h
  | succ n ih => exact (safe_renewLease h).bind (fun _ _ h ↦ ih h) fun _ _ h ↦ h

/-- A release removes the lock directory of the lease it is given. -/
theorem safe_releaseLease {lease : DispatcherLease} (h : HoldsLease p t lease fs) :
    leaseProtocol.Safe p t (fun _ _ ↦ True) (releaseLease t lease) fs := by
  unfold releaseLease
  simp only [bind_eq, pure_eq]
  refine safe_read_bind (fun _ ↦ LeaseGuar.refl t) fun s₁ _ _ _ hr₁ _ ↦
    ⟨fun current _ ↦ ?_, fun _ _ ↦ trivial⟩
  have h₁ := h.of_rely hr₁
  match current with
  | none => trivial
  | some current =>
    dsimp only
    split
    · trivial
    · refine safe_atomic_bind fun s₂ _ _ hinv₂ hr₂ _ ↦ ?_
      obtain ⟨hp₂, lock, l, hlock, hlease, -, hsame⟩ := h₁.of_rely hr₂
      have hstep : s₂.releaseLock t lease = (.ok (some lock), { s₂ with
          lock := none
          holders := s₂.holders.filter fun h ↦ h.call ≠ t
          released := (lease, lock) :: s₂.released }) := by
        rw [LeaseFs.releaseLock, hlock.1]
      rw [hstep]
      refine ⟨⟨nofun, hinv₂.inside, fun e he ↦ ?_, hinv₂.generations, hinv₂.bounded,
        fun r hr ↦ ?_⟩, guar_ownLock hlock hp₂ rfl rfl rfl, fun moved _ ↦ ?_, fun _ _ ↦ trivial⟩
      · -- whoever holds a lease holds it in this directory
        obtain ⟨he, hne⟩ := List.mem_filter.1 he
        obtain ⟨-, lock', -, hl', hcall, -⟩ := hinv₂.holders e he
        obtain rfl := Option.some.inj (hlock.1.symm.trans hl')
        exact absurd (hcall.symm.trans hlock.2.1) (by simpa using hne)
      · obtain rfl | hr := List.mem_cons.1 hr
        · exact ⟨l, hlease, hsame⟩
        · exact hinv₂.released r hr
      · match moved with
        | none => trivial
        | some moved =>
          refine safe_read_bind (fun _ ↦ LeaseGuar.refl t) fun s₃ _ _ _ _ _ ↦
            ⟨fun _ _ ↦ ?_, fun _ _ ↦ trivial⟩
          exact safe_atomic (f := fun fs ↦ (_, fs)) fun s _ _ hinv _ _ ↦
            ⟨hinv, LeaseGuar.refl t s, trivial⟩

/-- A whole session. -/
theorem safe_leaseSession {fuel leaseMs renewals : ℕ} {ownerId : String} (hp : p ∉ fs.dead) :
    leaseProtocol.Safe p t (fun _ _ ↦ True) (leaseSession p t fuel ownerId leaseMs renewals)
      fs := by
  unfold leaseSession
  simp only [bind_eq, pure_eq]
  refine safe_read_bind (fun _ ↦ LeaseGuar.refl t) fun s₁ _ _ _ hr₁ _ ↦ ⟨fun now _ ↦ ?_, nofun⟩
  refine (safe_acquireLease (hr₁.alive hp) fuel).bind (fun acquired s₂ h ↦ ?_) fun _ _ _ ↦ trivial
  match acquired with
  | none => trivial
  | some lease =>
    refine (safe_renewTimes (h lease rfl)).ensuring fun r s h ↦ ?_
    refine (safe_releaseLease h).mono fun u s _ ↦ ?_
    cases u with
    | ok _ => trivial
    | error _ => trivial

theorem safe_advanceClock : leaseProtocol.Safe p t (fun _ _ ↦ True) advanceClock fs := by
  intro s n _ hinv _ _ _
  refine ⟨?_, ?_, nofun, trivial⟩
  · exact ⟨hinv.process, hinv.inside, hinv.holders, hinv.generations, hinv.bounded, hinv.released⟩
  · exact ⟨rfl, fun _ _ ↦ .inl rfl, fun _ _ ↦ .inl ⟨rfl, rfl⟩, fun _ _ ↦ .inl rfl,
      fun _ h ↦ .inl h⟩

/-! ### Every run -/

/-- The contenders keep the protocol. -/
theorem leaseProtocol_sound : leaseProtocol.Sound leaseSystem fun _ _ _ ↦ True where
  inv_mono _ h := h
  rely_refl := LeaseRely.refl _ _ _
  rely_trans := LeaseRely.trans
  guar_rely hne _ _ _ h := LeaseGuar.rely h hne
  post_stable _ _ _ _ _ _ _ := trivial
  call {p t k fs} _ hentry := by
    have hp : p ∉ fs.dead := by simpa [leaseSystem] using hentry
    match k with
    | .session fuel ownerId leaseMs renewals => exact safe_leaseSession hp
    | .quarantine fuel token leaseMs => exact safe_quarantineUnreadableLease hp
    | .tick => exact safe_advanceClock
  fork _ _ h := h.elim
  crash_inv {p n fs} h := by
    refine ⟨h.process, fun e he ↦ ?_, fun holder hh ↦ ?_, h.generations, h.bounded, h.released⟩
    · obtain ⟨he, hne⟩ := List.mem_filter.1 he
      obtain ⟨hlive, hm⟩ := h.inside e he
      refine ⟨fun hd ↦ ?_, hm⟩
      obtain hd | hd := List.mem_cons.1 hd
      · exact absurd hd (by simpa using hne)
      · exact hlive hd
    · obtain ⟨hh, hne⟩ := List.mem_filter.1 hh
      obtain ⟨hlive, hl⟩ := h.holders holder hh
      refine ⟨fun hd ↦ ?_, hl⟩
      obtain hd | hd := List.mem_cons.1 hd
      · exact absurd hd (by simpa using hne)
      · exact hlive hd
  crash_rely {p p' t n fs} hne _ := by
    refine ⟨fun h hd ↦ ?_, fun _ h ↦ List.mem_cons_of_mem _ h, fun _ _ h ↦ h.1,
      fun _ _ _ ↦ ⟨rfl, rfl⟩, fun _ _ h ↦ h.1, fun _ _ _ _ h _ ↦ h, fun h he ↦ ?_⟩
    · obtain hd | hd := List.mem_cons.1 hd
      · exact hne hd.symm
      · exact h hd
    · exact h (List.mem_of_mem_filter he)

end Operations

end CodeConductor
