import CodeConductor.StartFence.Store

/-!
# What the managers contending for the start fence rely on

A directory made by a live process is changed by the call that made it only; the directory of a dead
process is changed only by the one call that created its `recovery.claim`. Reading the claim,
judging it stale and creating `recovery.claim` are steps on a *path*, so the first half is not free:
the runs considered are those in which `recovery.claim` is created only in a directory whose maker is
dead. In these runs the judgement has not gone stale, and everything after it is protected by
`recovery.claim` itself.
-/

namespace CodeConductor

open Async Async.Prog Async.Protocol

/-- `recovery.claim` is created only in the directory of a dead process, if there is a directory. -/
def recoversDead : ℕ → ℕ → StartFenceStep → StartFenceFs → Bool
  | _, _, .openRecovery, fs => fs.fence.all fun fence ↦ decide (fence.maker.process ∈ fs.dead)
  | _, _, _, _ => true

/-- What holds of the fence whatever the managers do. -/
structure StartFenceInv (fs : StartFenceFs) : Prop where
  /-- A written claim names the process that made the directory. -/
  owner : ∀ fence file claim, fs.fence = some fence → fence.claim = some file →
    file.content = some claim → claim.ownerPid = fence.maker.process
  /-- Only the directory of a dead process is being recovered. -/
  recovery : ∀ fence, fs.fence = some fence → fence.recovery.isSome →
    fence.maker.process ∈ fs.dead
  /-- A holder lives, and made the directory that is there. -/
  holders : ∀ holder ∈ fs.holders, holder.process ∉ fs.dead ∧
    ∃ fence, fs.fence = some fence ∧ fence.maker = holder
  released : ∀ r ∈ fs.released, r.2.maker = r.1
  /-- The directory was not changed in the future. -/
  mtime : ∀ fence, fs.fence = some fence → fence.mtime ≤ fs.now

/-- `manager` made the directory. -/
def OwnsFence (manager : ManagerCall) (fs : StartFenceFs) (fence : FenceDirectory) : Prop :=
  fs.fence = some fence ∧ fence.maker = manager

/-- What call `t` of process `p` may assume of the others. -/
structure StartFenceRely (p t : ℕ) (fs fs' : StartFenceFs) : Prop where
  alive : p ∉ fs.dead → p ∉ fs'.dead
  dead : fs.dead ⊆ fs'.dead
  own : p ∉ fs.dead → ∀ fence, fs.fence = some fence → fence.maker.call = t →
    fence.maker.process = p → fs'.fence = some fence
  /-- The directory of a dead process stays while the call recovers it. -/
  recovering : p ∉ fs.dead → ∀ fence, fs.fence = some fence → fence.maker.process ∈ fs.dead →
    ∀ r, fence.recovery = some r → r.call = t → fs'.fence = some fence
  /-- A call that is over, or has not begun to hold, does not hold the fence. -/
  left : (∀ holder ∈ fs.holders, holder.call ≠ t) → ∀ holder ∈ fs'.holders, holder.call ≠ t

/-- What call `t` guarantees. -/
structure StartFenceGuar (t : ℕ) (fs fs' : StartFenceFs) : Prop where
  dead : fs'.dead = fs.dead
  fence : ∀ fence, fs.fence = some fence → fs'.fence = fs.fence ∨
    fence.maker.call = t ∧ fence.maker.process ∉ fs.dead ∨
    fence.maker.process ∈ fs.dead ∧ ∀ r, fence.recovery = some r → r.call = t
  /-- Only a live process creates `recovery.claim`. -/
  recovery : ∀ fence' r, fs'.fence = some fence' → fence'.recovery = some r →
    (∃ fence, fs.fence = some fence ∧ fence.recovery = some r) ∨ r.process ∉ fs.dead
  holders : ∀ holder ∈ fs'.holders, holder ∈ fs.holders ∨ holder.call = t

/-- The protocol of the managers. -/
def startFenceProtocol : Protocol StartFenceStep StartFenceFs StartFenceCall ℕ where
  inv _ := StartFenceInv
  rely := StartFenceRely
  guar _ t _ := StartFenceGuar t
  ok p t l fs := recoversDead p t l fs = true
  pre _ _ _ _ := False

/-! ### The relations -/

theorem StartFenceRely.refl (p t : ℕ) (fs : StartFenceFs) : StartFenceRely p t fs fs where
  alive h := h
  dead := List.Subset.refl _
  own _ _ h _ _ := h
  recovering _ _ h _ _ _ _ := h
  left h := h

theorem StartFenceRely.trans {p t : ℕ} {a b c : StartFenceFs} (hab : StartFenceRely p t a b)
    (hbc : StartFenceRely p t b c) : StartFenceRely p t a c where
  alive h := hbc.alive (hab.alive h)
  dead := List.Subset.trans hab.dead hbc.dead
  own h fence hf hc hp := hbc.own (hab.alive h) fence (hab.own h fence hf hc hp) hc hp
  recovering h fence hf hd r hr hc :=
    hbc.recovering (hab.alive h) fence (hab.recovering h fence hf hd r hr hc) (hab.dead hd) r hr hc
  left h := hbc.left (hab.left h)

theorem StartFenceGuar.refl (t : ℕ) (fs : StartFenceFs) : StartFenceGuar t fs fs where
  dead := rfl
  fence _ _ := .inl rfl
  recovery fence _ hf hr := .inl ⟨fence, hf, hr⟩
  holders _ h := .inl h

/-- One call's guarantee is within every other's rely. -/
theorem StartFenceGuar.rely {t p' t' : ℕ} {fs fs' : StartFenceFs} (h : StartFenceGuar t fs fs')
    (hne : t ≠ t') : StartFenceRely p' t' fs fs' where
  alive hp := h.dead ▸ hp
  dead := h.dead ▸ List.Subset.refl _
  own hp fence hf hc hproc := by
    rcases h.fence fence hf with heq | ⟨hc', -⟩ | ⟨hd, -⟩
    · rw [heq, hf]
    · exact absurd (hc'.symm.trans hc) hne
    · exact absurd (hproc ▸ hd) hp
  recovering hp fence hf hd r hr hc := by
    rcases h.fence fence hf with heq | ⟨-, hlive⟩ | ⟨-, honly⟩
    · rw [heq, hf]
    · exact absurd hd hlive
    · exact absurd ((honly r hr).symm.trans hc) hne
  left hleft holder hmem := by
    rcases h.holders holder hmem with hold | hnew
    · exact hleft holder hold
    · exact fun hcall ↦ hne (hnew.symm.trans hcall)

/-! ### The steps -/

namespace StartFenceInv

variable {fs : StartFenceFs}

theorem empty : StartFenceInv {} where
  owner := nofun
  recovery := nofun
  holders := nofun
  released := nofun
  mtime := nofun

/-- Without a directory of a live process nobody holds the fence. -/
theorem holders_eq_nil (h : StartFenceInv fs)
    (hfence : ∀ fence, fs.fence = some fence → fence.maker.process ∈ fs.dead) :
    fs.holders = [] := by
  refine List.eq_nil_iff_forall_not_mem.2 fun holder hmem ↦ ?_
  obtain ⟨hlive, fence, hf, hmaker⟩ := h.holders holder hmem
  exact hlive (hmaker ▸ hfence fence hf)

end StartFenceInv

section Operations

variable {manager : ManagerCall} {fs : StartFenceFs}

/-- The own directory of a live process stays. -/
theorem OwnsFence.of_rely {fs' : StartFenceFs} {fence : FenceDirectory}
    (h : OwnsFence manager fs fence)
    (hr : StartFenceRely manager.process manager.call fs fs') (hp : manager.process ∉ fs.dead) :
    OwnsFence manager fs' fence :=
  ⟨hr.own hp fence h.1 (h.2 ▸ rfl) (h.2 ▸ rfl), h.2⟩

/-- Whatever the maker of a directory does to it is within its guarantee, as long as it creates no
`recovery.claim`. -/
theorem OwnsFence.guar {fs' : StartFenceFs} {fence : FenceDirectory}
    (h : OwnsFence manager fs fence) (hp : manager.process ∉ fs.dead) (hdead : fs'.dead = fs.dead)
    (hholders : fs'.holders = fs.holders)
    (hrecovery : ∀ fence', fs'.fence = some fence' → fence'.recovery = none) :
    StartFenceGuar manager.call fs fs' where
  dead := hdead
  fence fence₀ hf := by
    obtain rfl := Option.some.inj (h.1.symm.trans hf)
    exact .inr (.inl ⟨h.2 ▸ rfl, h.2 ▸ hp⟩)
  recovery fence' r hf' hr := nomatch (hrecovery fence' hf').symm.trans hr
  holders _ hmem := .inl (hholders ▸ hmem)

/-- The maker of a directory may change its claim for one of its own and drop `recovery.claim`. -/
theorem StartFenceInv.setOwn (h : StartFenceInv fs) {fs' : StartFenceFs}
    {fence fence' : FenceDirectory} (hown : OwnsFence manager fs fence)
    (hown' : OwnsFence manager fs' fence') (hdead : fs'.dead = fs.dead)
    (hholders : fs'.holders = fs.holders) (hreleased : ∀ r ∈ fs'.released, r.2.maker = r.1)
    (hclaim : ∀ file claim, fence'.claim = some file → file.content = some claim →
      claim.ownerPid = manager.process)
    (hrecovery : fence'.recovery = none) (hmtime : fence'.mtime ≤ fs'.now) :
    StartFenceInv fs' where
  owner f file claim hf hfile hcontent := by
    obtain rfl := Option.some.inj (hown'.1.symm.trans hf)
    exact (hclaim file claim hfile hcontent).trans (hown'.2 ▸ rfl)
  recovery f hf hr := by
    obtain rfl := Option.some.inj (hown'.1.symm.trans hf)
    rw [hrecovery] at hr
    exact nomatch hr
  holders holder hmem := by
    rw [hholders] at hmem
    obtain ⟨hlive, f, hf, hholder⟩ := h.holders holder hmem
    obtain rfl := Option.some.inj (hown.1.symm.trans hf)
    exact ⟨hdead ▸ hlive, fence', hown'.1, hown'.2.trans (hown.2.symm.trans hholder)⟩
  released := hreleased
  mtime f hf := by
    obtain rfl := Option.some.inj (hown'.1.symm.trans hf)
    exact hmtime

/-- Taking the directory away, or replacing it, when nobody holds it. -/
theorem StartFenceInv.setFree (h : StartFenceInv fs) {fs' : StartFenceFs}
    (hfree : ∀ fence, fs.fence = some fence → fence.maker.process ∈ fs.dead)
    (hdead : fs'.dead = fs.dead) (hholders : fs'.holders = fs.holders)
    (hreleased : fs'.released = fs.released)
    (howner : ∀ fence file claim, fs'.fence = some fence → fence.claim = some file →
      file.content = some claim → claim.ownerPid = fence.maker.process)
    (hrecovery : ∀ fence, fs'.fence = some fence → fence.recovery.isSome →
      fence.maker.process ∈ fs.dead)
    (hmtime : ∀ fence, fs'.fence = some fence → fence.mtime ≤ fs'.now) : StartFenceInv fs' where
  owner := howner
  recovery f hf hr := hdead ▸ hrecovery f hf hr
  holders holder hmem := by
    rw [hholders, h.holders_eq_nil hfree] at hmem
    exact absurd hmem List.not_mem_nil
  released := hreleased ▸ h.released
  mtime := hmtime

/-- A step that only reads, in the middle of a computation. -/
theorem safe_look {A B : Type} {Q : Except RuntimeError B → StartFenceFs → Prop}
    {l : StartFenceStep} {f : StartFenceFs → A} {k : A → StartFenceProg B}
    (h : ∀ s, StartFenceInv s → StartFenceRely manager.process manager.call fs s →
      startFenceProtocol.Safe manager.process manager.call Q (k (f s)) s) :
    startFenceProtocol.Safe manager.process manager.call Q
      ((Prog.read l fun s ↦ .ok (f s)).bind k) fs :=
  safe_read_bind (fun _ ↦ StartFenceGuar.refl _) fun s _ _ hinv hrely _ ↦
    ⟨fun _ ha ↦ Except.ok.inj ha ▸ h s hinv hrely, nofun⟩

/-- The own directory with the claim the call has brought so far, and a live process. -/
def Claiming (manager : ManagerCall) (claim : Option ClaimFile) (fs : StartFenceFs) : Prop :=
  manager.process ∉ fs.dead ∧
    ∃ fence, OwnsFence manager fs fence ∧ fence.claim = claim ∧ fence.recovery = none

theorem Claiming.of_rely {claim : Option ClaimFile} {fs' : StartFenceFs}
    (h : Claiming manager claim fs)
    (hr : StartFenceRely manager.process manager.call fs fs') : Claiming manager claim fs' := by
  obtain ⟨hp, fence, hown, hclaim⟩ := h
  exact ⟨hr.alive hp, fence, hown.of_rely hr hp, hclaim⟩

/-- The call made the directory that is there. -/
def HoldsFence (manager : ManagerCall) (fs : StartFenceFs) : Prop :=
  manager.process ∉ fs.dead ∧ ∃ fence, OwnsFence manager fs fence

theorem HoldsFence.of_rely {fs' : StartFenceFs} (h : HoldsFence manager fs)
    (hr : StartFenceRely manager.process manager.call fs fs') : HoldsFence manager fs' := by
  obtain ⟨hp, fence, hown⟩ := h
  exact ⟨hr.alive hp, fence, hown.of_rely hr hp⟩

/-! ### Taking the fence -/

/-- Creating `claim.json` in the own directory. -/
theorem openClaim_spec (hinv : StartFenceInv fs) (h : Claiming manager none fs) :
    ∃ inode fs', fs.openClaim = (.ok inode, fs') ∧ StartFenceInv fs' ∧
      StartFenceGuar manager.call fs fs' ∧ Claiming manager (some ⟨inode, none⟩) fs' := by
  obtain ⟨hp, fence, hown, hnone, hrec⟩ := h
  refine ⟨fs.nextInode, { fs with
    fence := some { fence with claim := some ⟨fs.nextInode, none⟩, mtime := fs.now }
    nextInode := fs.nextInode + 1 }, ?_, ?_, ?_, ?_⟩
  · rw [StartFenceFs.openClaim, hown.1]
    simp [hnone]
  · refine hinv.setOwn hown ⟨rfl, hown.2⟩ rfl rfl hinv.released (fun file c hf hc ↦ ?_) hrec
      (Nat.le_refl fs.now)
    obtain rfl := Option.some.inj hf
    exact nomatch hc
  · exact hown.guar hp rfl rfl fun f hf ↦ Option.some.inj hf ▸ hrec
  · exact ⟨hp, _, ⟨rfl, hown.2⟩, rfl, hrec⟩

/-- Writing the claim into the file the call has open. -/
theorem writeClaim_spec (hinv : StartFenceInv fs) {inode : ℕ} {claim : StartFence}
    (hclaim : claim.ownerPid = manager.process) (h : Claiming manager (some ⟨inode, none⟩) fs) :
    StartFenceInv (fs.writeClaim inode claim) ∧
      StartFenceGuar manager.call fs (fs.writeClaim inode claim) ∧
      HoldsFence manager (fs.writeClaim inode claim) := by
  obtain ⟨hp, fence, hown, hfile, hrec⟩ := h
  have hwrite : fs.writeClaim inode claim =
      { fs with fence := some { fence with claim := some ⟨inode, some claim⟩ } } := by
    rw [StartFenceFs.writeClaim, hown.1]
    simp [hfile]
  rw [hwrite]
  refine ⟨?_, ?_, hp, _, rfl, hown.2⟩
  · refine hinv.setOwn hown ⟨rfl, hown.2⟩ rfl rfl hinv.released (fun file c hf hc ↦ ?_) hrec
      (hinv.mtime fence hown.1)
    obtain rfl := Option.some.inj hf
    obtain rfl := Option.some.inj hc
    exact hclaim
  · exact hown.guar hp rfl rfl fun f hf ↦ Option.some.inj hf ▸ hrec

/-- A directory of one's own that has no claim yet gets one. -/
theorem safe_writeStartFence {claim : StartFence} (hclaim : claim.ownerPid = manager.process)
    (h : Claiming manager none fs) :
    startFenceProtocol.Safe manager.process manager.call
      (fun r s ↦ r = .ok () ∧ HoldsFence manager s) (writeStartFence manager claim) fs := by
  unfold writeStartFence
  simp only [bind_eq, tryCatch_eq]
  refine Safe.catching (R := fun r s ↦ r = .ok () ∧ HoldsFence manager s) ?_
    (fun _ _ h ↦ h) fun e s he ↦ nomatch he.1
  refine safe_atomic_bind fun s₁ _ _ hinv₁ hr₁ _ ↦ ?_
  obtain ⟨inode, s₁', hopen, hinv', hguar, h₁⟩ := openClaim_spec hinv₁ (h.of_rely hr₁)
  rw [hopen]
  refine ⟨hinv', hguar, fun i hi ↦ ?_, nofun⟩
  obtain rfl := Except.ok.inj hi
  refine safe_modify_bind fun s₂ _ _ hinv₂ hr₂ _ ↦ ?_
  obtain ⟨hinv₂', hguar₂, h₂⟩ := writeClaim_spec hinv₂ hclaim (h₁.of_rely hr₂)
  refine ⟨hinv₂', hguar₂, ?_⟩
  refine safe_look fun s₃ _ hr₃ ↦ ?_
  intro s₄ n _ hinv₄ hr₄ _ _
  obtain ⟨hp₄, fence₄, hown₄⟩ := (h₂.of_rely hr₃).of_rely hr₄
  refine ⟨⟨hinv₄.owner, hinv₄.recovery, fun holder hmem ↦ ?_, hinv₄.released,
    hinv₄.mtime⟩, ⟨rfl, fun _ _ ↦ .inl rfl, fun f _ hf hr ↦ .inl ⟨f, hf, hr⟩, fun holder hmem ↦ ?_⟩, nofun,
    rfl, hp₄, fence₄, hown₄⟩
  · obtain rfl | hmem := List.mem_cons.1 hmem
    · exact ⟨hp₄, fence₄, hown₄⟩
    · exact hinv₄.holders holder hmem
  · obtain rfl | hmem := List.mem_cons.1 hmem
    · exact .inr rfl
    · exact .inl hmem

/-- Making the directory is refused, or it is the own one. -/
theorem makeFence_cases (hinv : StartFenceInv fs) (hp : manager.process ∉ fs.dead) :
    fs.makeFence manager = (.error (.fileSystem "EEXIST" "start-fence"), fs) ∨
      ∃ fs', fs.makeFence manager = (.ok (), fs') ∧ StartFenceInv fs' ∧
        StartFenceGuar manager.call fs fs' ∧ Claiming manager none fs' := by
  unfold StartFenceFs.makeFence
  split
  · exact .inl rfl
  · rename_i hnone
    have hfree : ∀ fence, fs.fence = some fence → fence.maker.process ∈ fs.dead :=
      fun fence hf ↦ nomatch hnone.symm.trans hf
    refine .inr ⟨_, rfl, hinv.setFree hfree rfl rfl rfl (fun f file c hf hfile ↦ ?_)
      (fun f hf hr ↦ ?_) fun f hf ↦ ?_, ⟨rfl, fun f hf ↦ (nomatch hnone.symm.trans hf), fun f r hf hr ↦ ?_,
      fun _ hmem ↦ .inl hmem⟩, hp, _, ⟨rfl, rfl⟩, rfl, rfl⟩
    · obtain rfl := Option.some.inj hf
      exact nomatch hfile
    · obtain rfl := Option.some.inj hf
      exact nomatch hr
    · obtain rfl := Option.some.inj hf
      exact Nat.le_refl fs.now
    · obtain rfl := Option.some.inj hf
      exact nomatch hr

theorem safe_claimStartFence (hp : manager.process ∉ fs.dead) :
    startFenceProtocol.Safe manager.process manager.call
      (fun r s ↦ manager.process ∉ s.dead ∧
        ∀ release, r = .ok release → release = releaseStartFence manager ∧ HoldsFence manager s)
      (claimStartFence manager) fs := by
  unfold claimStartFence
  simp only [bind_eq, pure_eq]
  refine safe_atomic_bind fun s₁ _ _ hinv₁ hr₁ _ ↦ ?_
  have hp₁ := hr₁.alive hp
  obtain hstep | ⟨s₁', hstep, hinv', hguar, h₁⟩ := makeFence_cases hinv₁ hp₁
  · rw [hstep]
    exact ⟨hinv₁, StartFenceGuar.refl _ _, nofun, fun _ _ ↦ ⟨hp₁, nofun⟩⟩
  rw [hstep]
  refine ⟨hinv', hguar, fun _ _ ↦ ?_, nofun⟩
  refine safe_look fun s₂ _ hr₂ ↦ ?_
  refine (safe_writeStartFence rfl (h₁.of_rely hr₂)).bind (fun _ s₃ h₃ ↦ ?_) fun e s₃ h₃ ↦
    nomatch h₃.1
  refine ⟨h₃.2.1, fun release hrelease ↦ ?_⟩
  exact ⟨(Except.ok.inj hrelease).symm, h₃.2⟩

/-! ### Recovering the fence of a dead process -/

/-- The directory of a dead process, with the `recovery.claim` of this call. -/
def Recovering (manager : ManagerCall) (fs : StartFenceFs) : Prop :=
  manager.process ∉ fs.dead ∧ ∃ fence, fs.fence = some fence ∧
    fence.maker.process ∈ fs.dead ∧ fence.recovery = some manager

theorem Recovering.of_rely {fs' : StartFenceFs} (h : Recovering manager fs)
    (hr : StartFenceRely manager.process manager.call fs fs') : Recovering manager fs' := by
  obtain ⟨hp, fence, hf, hd, hrec⟩ := h
  exact ⟨hr.alive hp, fence, hr.recovering hp fence hf hd manager hrec rfl, hr.dead hd, hrec⟩

/-- Creating `recovery.claim` is refused, or the directory of a dead process is now under recovery
by this call. -/
theorem openRecovery_cases (hinv : StartFenceInv fs) (hp : manager.process ∉ fs.dead)
    (hok : recoversDead manager.process manager.call .openRecovery fs = true) :
    (∃ e, fs.openRecovery manager = (.error e, fs)) ∨
      ∃ fs', fs.openRecovery manager = (.ok (), fs') ∧ StartFenceInv fs' ∧
        StartFenceGuar manager.call fs fs' ∧ Recovering manager fs' := by
  unfold StartFenceFs.openRecovery
  split
  · exact .inl ⟨_, rfl⟩
  · rename_i fence hf
    split
    · exact .inl ⟨_, rfl⟩
    · rename_i hsome
      have hnone : fence.recovery = none := by simpa using hsome
      have hdead : fence.maker.process ∈ fs.dead := by
        rw [recoversDead, hf] at hok
        simpa using hok
      have hfree : ∀ f, fs.fence = some f → f.maker.process ∈ fs.dead :=
        fun f hf' ↦ Option.some.inj (hf.symm.trans hf') ▸ hdead
      refine .inr ⟨_, rfl, hinv.setFree hfree rfl rfl rfl (fun f file c hf' ↦ ?_)
        (fun f hf' _ ↦ ?_) fun f hf' ↦ ?_,
        ⟨rfl, fun f hf' ↦ ?_, fun f r hf' hr' ↦ ?_, fun _ hmem ↦ .inl hmem⟩,
        hp, _, rfl, hdead, rfl⟩
      · obtain rfl := Option.some.inj hf'
        exact hinv.owner fence file c hf
      · obtain rfl := Option.some.inj hf'
        exact hdead
      · obtain rfl := Option.some.inj hf'
        exact Nat.le_refl fs.now
      · obtain rfl := Option.some.inj (hf.symm.trans hf')
        exact .inr (.inr ⟨hdead, fun r hr' ↦ nomatch hnone.symm.trans hr'⟩)
      · obtain rfl := Option.some.inj hf'
        obtain rfl := Option.some.inj hr'
        exact .inr hp

/-- The rename takes away the directory that was judged. -/
theorem quarantine_spec (hinv : StartFenceInv fs) (h : Recovering manager fs) :
    ∃ fs', fs.quarantine = (.ok (), fs') ∧ StartFenceInv fs' ∧
      StartFenceGuar manager.call fs fs' ∧ manager.process ∉ fs'.dead := by
  obtain ⟨hp, fence, hf, hdead, hclaim⟩ := h
  have hfree : ∀ f, fs.fence = some f → f.maker.process ∈ fs.dead :=
    fun f hf' ↦ Option.some.inj (hf.symm.trans hf') ▸ hdead
  refine ⟨{ fs with fence := none }, ?_, hinv.setFree hfree rfl rfl rfl nofun nofun nofun,
    ⟨rfl, fun f hf' ↦ ?_, nofun, fun _ hmem ↦ .inl hmem⟩, hp⟩
  · rw [StartFenceFs.quarantine, hf]
  · obtain rfl := Option.some.inj (hf.symm.trans hf')
    refine .inr (.inr ⟨hdead, fun r hr' ↦ ?_⟩)
    exact Option.some.inj (hclaim.symm.trans hr') ▸ rfl

theorem safe_recoverStartFence (hp : manager.process ∉ fs.dead) :
    startFenceProtocol.Safe manager.process manager.call
      (fun _ s ↦ manager.process ∉ s.dead) (recoverStartFence manager) fs := by
  unfold recoverStartFence
  simp only [bind_eq, pure_eq, throw_eq]
  refine Safe.attempt_bind (R := fun r s ↦ manager.process ∉ s.dead ∧
    (r = .ok () → Recovering manager s)) ?_ fun r s₁ h₁ ↦ ?_
  · refine safe_atomic fun s _ _ hinv hr hok ↦ ?_
    obtain ⟨e, hstep⟩ | ⟨s', hstep, hinv', hguar, hrec⟩ :=
      openRecovery_cases hinv (hr.alive hp) hok
    · rw [hstep]
      exact ⟨hinv, StartFenceGuar.refl _ _, hr.alive hp, nofun⟩
    · rw [hstep]
      exact ⟨hinv', hguar, hrec.1, fun _ ↦ hrec⟩
  match r with
  | .error e =>
    dsimp only
    split
    · exact h₁.1
    · exact h₁.1
  | .ok () =>
    have hrec := h₁.2 rfl
    refine safe_look fun s₂ _ hr₂ ↦ safe_look fun s₃ _ hr₃ ↦ ?_
    refine Safe.attempt_bind (R := fun _ s ↦ manager.process ∉ s.dead) ?_ fun r s₄ h₄ ↦ ?_
    · refine safe_atomic fun s₄ _ _ hinv₄ hr₄ _ ↦ ?_
      obtain ⟨s', hstep, hspec⟩ :=
        quarantine_spec hinv₄ (((hrec.of_rely hr₂).of_rely hr₃).of_rely hr₄)
      rw [hstep]
      exact hspec
    match r with
    | .error e =>
      dsimp only
      split
      · exact h₄
      · exact h₄
    | .ok () => exact safe_look fun s₅ _ hr₅ ↦ hr₅.alive h₄

theorem safe_sleepFor {ms : ℕ} (hp : manager.process ∉ fs.dead) :
    startFenceProtocol.Safe manager.process manager.call
      (fun _ s ↦ manager.process ∉ s.dead) (sleepFor ms) fs := by
  unfold sleepFor
  simp only [bind_eq]
  refine safe_look fun s₁ _ hr₁ ↦ ?_
  intro s₂ n _ hinv₂ hr₂ _ _
  exact ⟨hinv₂, StartFenceGuar.refl _ _, nofun, hr₂.alive (hr₁.alive hp)⟩

theorem safe_contendStartFence (hp : manager.process ∉ fs.dead) :
    startFenceProtocol.Safe manager.process manager.call
      (fun _ s ↦ manager.process ∉ s.dead) (contendStartFence manager) fs := by
  unfold contendStartFence
  simp only [bind_eq, pure_eq]
  refine safe_look fun s₁ _ hr₁ ↦ ?_
  have hp₁ := hr₁.alive hp
  match s₁.readFence with
  | some claim =>
    refine safe_look fun s₂ _ hr₂ ↦ ?_
    have hp₂ := hr₂.alive hp₁
    split
    · exact hp₂
    · exact safe_recoverStartFence hp₂
  | none =>
    refine safe_look fun s₂ _ hr₂ ↦ ?_
    have hp₂ := hr₂.alive hp₁
    split
    · exact (safe_sleepFor hp₂).bind (fun _ _ h ↦ h) fun _ _ h ↦ h
    · exact safe_recoverStartFence hp₂

/-- **Acquiring.** Whoever gets a release function made the directory that is there. -/
theorem safe_acquireStartFence (hp : manager.process ∉ fs.dead) (attempts : ℕ) :
    startFenceProtocol.Safe manager.process manager.call
      (fun r s ↦ ∀ release, r = .ok (some release) →
        release = releaseStartFence manager ∧ HoldsFence manager s)
      (acquireStartFence manager attempts) fs := by
  induction attempts generalizing fs with
  | zero => exact fun _ h ↦ nomatch h
  | succ attempts ih =>
    unfold acquireStartFence
    simp only [bind_eq, pure_eq, throw_eq]
    refine Safe.attempt_bind (safe_claimStartFence hp) fun r s₁ h₁ ↦ ?_
    match r with
    | .ok release =>
      intro release' heq
      obtain rfl := Option.some.inj (Except.ok.inj heq)
      exact h₁.2 release rfl
    | .error e =>
      dsimp only
      split
      · refine (safe_contendStartFence h₁.1).bind (fun again s₂ h₂ ↦ ?_) fun _ _ _ ↦ nofun
        match again with
        | true => exact ih h₂
        | false => exact fun _ h ↦ nomatch h
      · exact fun _ h ↦ nomatch h

/-! ### Releasing -/

/-- The own directory, no longer held. -/
def Leaving (manager : ManagerCall) (fs : StartFenceFs) : Prop :=
  HoldsFence manager fs ∧ ∀ holder ∈ fs.holders, holder.call ≠ manager.call

theorem Leaving.of_rely {fs' : StartFenceFs} (h : Leaving manager fs)
    (hr : StartFenceRely manager.process manager.call fs fs') : Leaving manager fs' :=
  ⟨h.1.of_rely hr, hr.left h.2⟩

/-- The directory a release removes is the manager's own. -/
theorem released_recordRelease (hinv : StartFenceInv fs) {fence : FenceDirectory}
    (hown : OwnsFence manager fs fence) :
    ∀ r ∈ (fs.recordRelease manager).released, r.2.maker = r.1 := by
  intro r hr
  rw [StartFenceFs.recordRelease, hown.1] at hr
  obtain rfl | hr := List.mem_cons.1 hr
  · exact hown.2
  · exact hinv.released r hr

/-- Leaving: the call that made the directory no longer holds the fence. -/
theorem leave_spec (hinv : StartFenceInv fs) (h : HoldsFence manager fs) {fs' : StartFenceFs}
    (hfs : fs' = { fs with holders := fs.holders.filter fun holder ↦ holder ≠ manager }) :
    StartFenceInv fs' ∧ StartFenceGuar manager.call fs fs' ∧ Leaving manager fs' := by
  subst hfs
  obtain ⟨hp, fence, hown⟩ := h
  refine ⟨⟨hinv.owner, hinv.recovery, fun holder hmem ↦ hinv.holders holder
    (List.mem_of_mem_filter hmem), hinv.released, hinv.mtime⟩,
    ⟨rfl, fun _ _ ↦ .inl rfl, fun f _ hf hr ↦ .inl ⟨f, hf, hr⟩,
      fun _ hmem ↦ .inl (List.mem_of_mem_filter hmem)⟩, ⟨hp, fence, hown⟩, fun holder hmem _ ↦ ?_⟩
  -- whoever holds the fence made the directory
  obtain ⟨hmem, hne⟩ := List.mem_filter.1 hmem
  obtain ⟨-, f, hf, hmaker⟩ := hinv.holders holder hmem
  obtain rfl := Option.some.inj (hown.1.symm.trans hf)
  exact absurd (hmaker.symm.trans hown.2) (by simpa using hne)

/-- Removing the entries of the own directory. -/
theorem removeEntries_spec (hinv : StartFenceInv fs) (h : Leaving manager fs) :
    StartFenceInv (fs.recordRelease manager).removeEntries ∧
      StartFenceGuar manager.call fs (fs.recordRelease manager).removeEntries ∧
      Leaving manager (fs.recordRelease manager).removeEntries := by
  obtain ⟨⟨hp, fence, hown⟩, hleft⟩ := h
  have hfence : (fs.recordRelease manager).removeEntries.fence =
      some { fence with claim := none, recovery := none, mtime := fs.now } := by
    rw [StartFenceFs.removeEntries, StartFenceFs.recordRelease, hown.1]
    rfl
  refine ⟨hinv.setOwn hown ⟨hfence, hown.2⟩ rfl rfl (released_recordRelease hinv hown) nofun rfl
    (Nat.le_refl fs.now),
    hown.guar hp rfl rfl fun f hf ↦ ?_, ⟨hp, _, hfence, hown.2⟩, hleft⟩
  obtain rfl := Option.some.inj (hfence.symm.trans hf)
  rfl

/-- Removing the own directory. -/
theorem removeDirectory_spec (hinv : StartFenceInv fs) (h : Leaving manager fs) :
    StartFenceInv (fs.recordRelease manager).removeDirectory.2 ∧
      StartFenceGuar manager.call fs (fs.recordRelease manager).removeDirectory.2 := by
  obtain ⟨⟨hp, fence, hown⟩, hleft⟩ := h
  have hreleased := released_recordRelease hinv hown
  have hf : (fs.recordRelease manager).fence = some fence := hown.1
  unfold StartFenceFs.removeDirectory
  rw [hf]
  dsimp only
  split
  · refine ⟨⟨hinv.owner, hinv.recovery, hinv.holders, hreleased, hinv.mtime⟩, rfl, fun _ _ ↦ .inl rfl,
      fun f _ hf hr ↦ .inl ⟨f, hf, hr⟩, fun _ hmem ↦ .inl hmem⟩
  · refine ⟨⟨nofun, nofun, fun holder hmem ↦ ?_, hreleased, nofun⟩, hown.guar hp rfl rfl nofun⟩
    obtain ⟨-, f, hf', hmaker⟩ := hinv.holders holder hmem
    obtain rfl := Option.some.inj (hown.1.symm.trans hf')
    refine absurd ?_ (hleft holder hmem)
    rw [← hmaker, hown.2]

/-- **Releasing.** A release removes the directory the manager made. -/
theorem safe_releaseStartFence (h : HoldsFence manager fs) :
    startFenceProtocol.Safe manager.process manager.call (fun _ _ ↦ True)
      (releaseStartFence manager) fs := by
  unfold releaseStartFence removeFence
  simp only [bind_eq, pure_eq]
  refine safe_atomic_bind fun s₁ _ _ hinv₁ hr₁ _ ↦ ?_
  obtain ⟨hinv₁', hguar₁, h₁⟩ := leave_spec hinv₁ (h.of_rely hr₁) rfl
  refine ⟨hinv₁', hguar₁, fun current _ ↦ ?_, nofun⟩
  split
  · refine safe_modify_bind fun s₂ _ _ hinv₂ hr₂ _ ↦ ?_
    obtain ⟨hinv₂', hguar₂, h₂⟩ := removeEntries_spec hinv₂ (h₁.of_rely hr₂)
    refine ⟨hinv₂', hguar₂, ?_⟩
    refine safe_atomic fun s₃ _ _ hinv₃ hr₃ _ ↦ ?_
    obtain ⟨hinv₃', hguar₃⟩ := removeDirectory_spec hinv₃ (h₂.of_rely hr₃)
    exact ⟨hinv₃', hguar₃, trivial⟩
  · trivial

/-- A start of the service: acquire, start, release. -/
theorem safe_startOwnedService (hp : manager.process ∉ fs.dead) :
    startFenceProtocol.Safe manager.process manager.call (fun _ _ ↦ True)
      (startOwnedService manager) fs := by
  unfold startOwnedService
  simp only [bind_eq, pure_eq]
  refine (safe_acquireStartFence hp 20).bind (fun acquired s₁ h₁ ↦ ?_) fun _ _ _ ↦ trivial
  match acquired with
  | none => trivial
  | some release =>
    obtain ⟨rfl, hholds⟩ := h₁ release rfl
    refine Safe.ensuring (R := fun _ s ↦ HoldsFence manager s) ?_ fun r s h ↦ ?_
    · refine safe_atomic (f := fun fs ↦ (.ok (), fs)) fun s _ _ hinv hr _ ↦ ?_
      exact ⟨hinv, StartFenceGuar.refl _ _, hholds.of_rely hr⟩
    · refine (safe_releaseStartFence h).mono fun u _ _ ↦ ?_
      cases u with
      | ok _ => trivial
      | error _ => trivial

theorem safe_passTime {p t ms : ℕ} :
    startFenceProtocol.Safe p t (fun _ _ ↦ True) (passTime ms) fs := by
  induction ms generalizing fs with
  | zero => trivial
  | succ ms ih =>
    intro s n _ hinv _ _ _
    exact ⟨⟨hinv.owner, hinv.recovery, hinv.holders, hinv.released,
        fun f hf ↦ Nat.le_succ_of_le (hinv.mtime f hf)⟩,
      ⟨rfl, fun _ _ ↦ .inl rfl, fun f _ hf hr ↦ .inl ⟨f, hf, hr⟩, fun _ hmem ↦ .inl hmem⟩,
      nofun, ih⟩

/-! ### Every run -/

/-- The managers keep the protocol. -/
theorem startFenceProtocol_sound :
    startFenceProtocol.Sound startFenceSystem fun _ _ _ ↦ True where
  inv_mono _ h := h
  rely_refl := StartFenceRely.refl _ _ _
  rely_trans := StartFenceRely.trans
  guar_rely hne _ _ _ h := StartFenceGuar.rely h hne
  post_stable _ _ _ _ _ _ _ := trivial
  call {p t k fs} _ hentry := by
    have hp : p ∉ fs.dead := by simpa [startFenceSystem] using hentry
    match k with
    | .startOwnedService instanceId =>
      let manager : ManagerCall := ⟨t, p, instanceId⟩
      have hlive : manager.process ∉ fs.dead := hp
      exact safe_startOwnedService hlive
    | .wait ms => exact safe_passTime
  fork _ _ h := h.elim
  crash_inv {p n fs} h := by
    refine ⟨h.owner, fun fence hf hr ↦ List.mem_cons_of_mem _ (h.recovery fence hf hr),
      fun holder hmem ↦ ?_, h.released, h.mtime⟩
    obtain ⟨hmem, hne⟩ := List.mem_filter.1 hmem
    obtain ⟨hlive, hf⟩ := h.holders holder hmem
    refine ⟨fun hd ↦ ?_, hf⟩
    obtain hd | hd := List.mem_cons.1 hd
    · exact absurd hd (by simpa using hne)
    · exact hlive hd
  crash_rely {p p' t n fs} hne _ := by
    refine ⟨fun h hd ↦ ?_, fun _ h ↦ List.mem_cons_of_mem _ h, fun _ _ h _ _ ↦ h,
      fun _ _ h _ _ _ _ ↦ h, fun h holder hmem ↦ h holder (List.mem_of_mem_filter hmem)⟩
    obtain hd | hd := List.mem_cons.1 hd
    · exact hne hd.symm
    · exact h hd

end Operations

end CodeConductor
