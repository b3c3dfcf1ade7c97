import CodeConductor.Retention.Apply

/-!
# What applying a plan removes

A plan is carried out as it is written. So `apply` respects retention exactly when the plan does: each
file it lists is in the directory of an expired attempt named by both ids, and not a record; each
worktree is one of an expired attempt. The list of an action that failed is exact in any case.
-/

namespace CodeConductor

namespace RetentionStore

variable (tools : RetentionTools) (store : RetentionStore)

/-- `classifyRetention` classes the attempt as expired. -/
def Expired (manifest : AttemptManifest) (now : Timestamp) : Prop :=
  ∃ detail, store.classOf tools manifest now = .ok ⟨.expired, detail⟩

/-- The path is within the directory of the attempt. -/
def Owns (manifest : AttemptManifest) (path : StorePath) : Prop :=
  ∃ directory, store.attemptDirectory manifest.jobId manifest.attemptId = .ok directory ∧
    directory <+: path ∧ directory ≠ path

/-- The path is a record of the attempt, or in one of its journals. -/
def RecordOf (manifest : AttemptManifest) (path : StorePath) : Prop :=
  ∃ directory, store.attemptDirectory manifest.jobId manifest.attemptId = .ok directory ∧
    ((∃ name ∈ retainedFiles, path = directory ++ [name]) ∨
      ∃ name ∈ retainedDirectories, directory ++ [name] <+: path)

/-- What retention allows. -/
def Allows (now : Timestamp) : GcMutation → Prop
  | .file candidate target =>
    (∀ manifest ∈ store.attempts, ¬store.RecordOf manifest target) ∧
    (∀ manifest ∈ store.attempts, store.Owns manifest target → store.Expired tools manifest now) ∧
    ∃ manifest ∈ store.attempts, manifest.attemptId = candidate.attemptId ∧
      manifest.jobId = candidate.jobId ∧ store.Owns manifest target
  | .tombstone _ _ => True
  | .workspace candidate => ∀ manifest ∈ store.attempts, manifest.attemptId = candidate.attemptId →
    manifest.status.isTerminal = true → store.ownsWorktree manifest ≠ none →
      store.Expired tools manifest now

/-- The changes of a candidate. -/
def steps (candidate : GcCandidate) : List GcMutation :=
  match store.mutations candidate with
  | .ok mutations => mutations
  | .error _ => []

/-- The changes of a plan. -/
def planSteps (plan : GcPlan) : List GcMutation := plan.candidates.flatMap store.steps

/-- The attempt has ended. -/
def ended (attemptId : AttemptId) : Bool :=
  match store.getAttempt attemptId with
  | .ok manifest => manifest.status.isTerminal
  | .error _ => false

/-- The changes up to the first that cannot be made: a file that is gone already, or the worktree of
an attempt that still runs. -/
def reachable : List StorePath → List GcMutation → List GcMutation
  | _, [] => []
  | gone, .file candidate target :: rest =>
    if target ∈ gone then [] else .file candidate target :: reachable (target :: gone) rest
  | gone, .tombstone candidate target :: rest =>
    .tombstone candidate target :: reachable (gone.filter (· ≠ target)) rest
  | gone, .workspace candidate :: rest =>
    .workspace candidate :: if store.ended candidate.attemptId then reachable gone rest else []

end RetentionStore

namespace GcProgress

/-- The changes made, and the worktree whose removal failed. -/
def effects (progress : GcProgress) : List GcMutation :=
  progress.log ++ match progress.failing with
    | some (.workspace candidate) => [.workspace candidate]
    | _ => []

/-- Applying stopped within a candidate, after all of those that are listed as removed. -/
def StoppedAt (store : RetentionStore) (plan : GcPlan) (progress : GcProgress) : Prop :=
  ∃ before candidate after part, plan.candidates = before ++ candidate :: after ∧
    progress.removed = before.map GcCandidate.removed ∧
    progress.log = before.flatMap store.steps ++ part ∧
    part <+: store.steps candidate ∧ part ≠ store.steps candidate

end GcProgress

/-- However the plan comes to be applied, only what retention allows is removed, nothing else is
gone, and a failed action lists the candidates that were removed. -/
structure RetentionRespected (tools : RetentionTools) (store : RetentionStore) (plan : GcPlan)
    (now : Timestamp) (progress : GcProgress) (status : GcActionStatus) : Prop where
  allowed : ∀ mutation ∈ progress.effects, store.Allows tools now mutation
  files : ∀ path, (store.files path).isSome = true →
    (∀ candidate, .file candidate path ∉ progress.effects) →
      (progress.store.files path).isSome = true
  worktrees : ∀ path, (store.worktrees path).isSome = true →
    (∀ candidate, .workspace candidate ∈ progress.effects → ∀ manifest ∈ store.attempts,
      manifest.attemptId = candidate.attemptId → manifest.status.isTerminal = true →
        store.ownsWorktree manifest ≠ some path) →
      (progress.store.worktrees path).isSome = true
  exact : ∀ removed error, status = .failed removed error →
    removed = progress.removed ∧ progress.StoppedAt store plan

/-- `apply` respects retention. -/
def AppliesRespectfully (tools : RetentionTools) (store : RetentionStore) (plan : GcPlan)
    (approval : GcApproval) (now : Timestamp) : Prop :=
  ∀ outside progress status,
    store.apply tools outside plan approval now = .ok (progress, status) →
      RetentionRespected tools store plan now progress status

/-- If the plan passes the checks, all it lists up to the first change that cannot be made is what
retention allows. -/
def PlanRespectful (tools : RetentionTools) (store : RetentionStore) (plan : GcPlan)
    (approval : GcApproval) (now : Timestamp) : Prop :=
  store.permit tools plan approval now = .ok () →
    ∀ mutation ∈ store.reachable [] (store.planSteps plan), store.Allows tools now mutation

/-! ### One change -/

namespace RetentionStore

variable (tools : RetentionTools) (outside : GcOutside) (plan : GcPlan) (now : Timestamp)
  {store : RetentionStore}

theorem removeAttemptWorkspace_layout (store : RetentionStore) (attemptId : AttemptId) :
    (removeAttemptWorkspace outside store attemptId).1.root = store.root ∧
      (removeAttemptWorkspace outside store attemptId).1.attempts = store.attempts ∧
      (removeAttemptWorkspace outside store attemptId).1.files = store.files := by
  unfold removeAttemptWorkspace
  split
  · exact ⟨rfl, rfl, rfl⟩
  · split
    · exact ⟨rfl, rfl, rfl⟩
    · split
      · exact ⟨rfl, rfl, rfl⟩
      · dsimp only
        split <;> exact ⟨rfl, rfl, rfl⟩

/-- A change leaves the attempts and the place of the data root. -/
theorem mutate_layout (store : RetentionStore) (mutation : GcMutation) :
    (mutate tools outside plan now store mutation).1.root = store.root ∧
      (mutate tools outside plan now store mutation).1.attempts = store.attempts := by
  cases mutation with
  | workspace candidate =>
    obtain ⟨hroot, hattempts, -⟩ := removeAttemptWorkspace_layout outside store candidate.attemptId
    exact ⟨hroot, hattempts⟩
  | file candidate target =>
    simp only [mutate]
    split <;> exact ⟨rfl, rfl⟩
  | tombstone candidate target =>
    unfold mutate
    dsimp only
    split <;> exact ⟨rfl, rfl⟩

/-- A file goes only where it is deleted. -/
theorem mutate_files {mutation : GcMutation} {path : StorePath}
    (h : (store.files path).isSome = true)
    (hother : ∀ candidate, mutation = .file candidate path →
      (mutate tools outside plan now store mutation).2 ≠ none) :
    ((mutate tools outside plan now store mutation).1.files path).isSome = true := by
  cases mutation with
  | workspace candidate =>
    have hfiles := (removeAttemptWorkspace_layout outside store candidate.attemptId).2.2
    show ((removeAttemptWorkspace outside store candidate.attemptId).1.files path).isSome = true
    rw [hfiles]
    exact h
  | file candidate target =>
    simp only [mutate] at hother ⊢
    split
    · exact h
    · exact h
    · rename_i hfault hread
      rw [hfault, hread] at hother
      have hne : path ≠ target := fun heq ↦ hother candidate (heq ▸ rfl) rfl
      simp only [removeFile, if_neg hne]
      exact h
  | tombstone candidate target =>
    unfold mutate
    dsimp only
    split
    · exact h
    · simp only [writeFile]
      split
      · rfl
      · exact h

/-- Removing a workspace changes the worktree the attempt owns, and its cleanup record. -/
theorem removeAttemptWorkspace_cases (store : RetentionStore) (attemptId : AttemptId) :
    (removeAttemptWorkspace outside store attemptId).1 = store ∨
    ∃ manifest path, store.getAttempt attemptId = .ok manifest ∧
      manifest.status.isTerminal = true ∧ store.ownsWorktree manifest = some path ∧
      ((removeAttemptWorkspace outside store attemptId).1 =
        (store.setCleanup attemptId (outside.cleanupAfter attemptId)).removeWorktree path ∨
      (removeAttemptWorkspace outside store attemptId).1 =
        store.setCleanup attemptId (outside.cleanupAfter attemptId)) := by
  unfold removeAttemptWorkspace
  split
  · exact .inl rfl
  · rename_i manifest hmanifest
    split
    · exact .inl rfl
    · rename_i hterminal
      rw [Bool.not_eq_true', Bool.not_eq_false] at hterminal
      split
      · exact .inl rfl
      · rename_i path howns
        refine .inr ⟨manifest, path, hmanifest, hterminal, howns, ?_⟩
        dsimp only
        split
        · exact .inl rfl
        · exact .inr rfl

theorem getAttempt_eq_ok {attemptId : AttemptId} {manifest : AttemptManifest}
    (h : store.getAttempt attemptId = .ok manifest) :
    manifest ∈ store.attempts ∧ manifest.attemptId = attemptId := by
  unfold getAttempt at h
  split at h
  · rename_i found hfound
    obtain rfl := Except.ok.inj h
    have hid := List.find?_some hfound
    exact ⟨List.mem_of_find?_eq_some hfound, of_decide_eq_true hid⟩
  · exact nomatch h

/-- What the stores in the course of applying a plan have kept of the first one. -/
structure Kept (store current : RetentionStore) : Prop where
  root : current.root = store.root
  attempts : current.attempts = store.attempts
  owns : ∀ manifest path, current.ownsWorktree manifest = some path →
    store.ownsWorktree manifest = some path

theorem Kept.refl (store : RetentionStore) : Kept store store :=
  ⟨rfl, rfl, fun _ _ h ↦ h⟩

/-- Who owns a worktree when its cleanup record changes owned it before, if the attempt did. -/
theorem ownsWorktree_setCleanup {attemptId : AttemptId} {cleanup : Option AttemptCleanupRecord}
    {owner manifest : AttemptManifest} {path path' : String} (hid : owner.attemptId = attemptId)
    (howns : store.ownsWorktree owner = some path)
    (h : (store.setCleanup attemptId cleanup).ownsWorktree manifest = some path') :
    store.ownsWorktree manifest = some path' := by
  unfold ownsWorktree at h howns ⊢
  split at h
  · rename_i workspace hworkspace
    split at h
    · exact nomatch h
    · rename_i hunproven
      by_cases heq : manifest.attemptId = attemptId
      · split at howns
        · split at howns
          · exact nomatch howns
          · rename_i hunproven'
            rw [hid, ← heq] at hunproven'
            rw [if_neg hunproven']
            exact h
        · exact nomatch howns
      · rw [setCleanup] at hunproven
        dsimp only at hunproven
        rw [if_neg heq] at hunproven
        rw [if_neg hunproven]
        exact h
  · exact nomatch h

theorem Kept.mutate {current : RetentionStore} (h : Kept store current) (mutation : GcMutation) :
    Kept store (mutate tools outside plan now current mutation).1 := by
  obtain ⟨hroot, hattempts⟩ := mutate_layout tools outside plan now current mutation
  refine ⟨hroot.trans h.root, hattempts.trans h.attempts, fun manifest path howns ↦ h.owns _ _ ?_⟩
  cases mutation with
  | workspace candidate =>
    change (removeAttemptWorkspace outside current candidate.attemptId).1.ownsWorktree manifest =
      some path at howns
    rcases removeAttemptWorkspace_cases outside current candidate.attemptId with heq | ⟨owner, path', howner, -, hpath, heq | heq⟩
    · exact heq ▸ howns
    · rw [heq] at howns
      exact ownsWorktree_setCleanup (getAttempt_eq_ok howner).2 hpath howns
    · rw [heq] at howns
      exact ownsWorktree_setCleanup (getAttempt_eq_ok howner).2 hpath howns
  | file candidate target =>
    simp only [RetentionStore.mutate] at howns
    split at howns
    · exact howns
    · exact howns
    · exact howns
  | tombstone candidate target =>
    simp only [RetentionStore.mutate] at howns
    split at howns
    · exact howns
    · exact howns

/-- A worktree goes only with the workspace of an attempt that owns it. -/
theorem mutate_worktrees {current : RetentionStore} (hkept : Kept store current)
    (mutation : GcMutation) {path : String} (h : (current.worktrees path).isSome = true)
    (hother : ∀ candidate, mutation = .workspace candidate → ∀ manifest ∈ store.attempts,
      manifest.attemptId = candidate.attemptId → manifest.status.isTerminal = true →
        store.ownsWorktree manifest ≠ some path) :
    ((mutate tools outside plan now current mutation).1.worktrees path).isSome = true := by
  cases mutation with
  | workspace candidate =>
    show ((removeAttemptWorkspace outside current candidate.attemptId).1.worktrees path).isSome = true
    rcases removeAttemptWorkspace_cases outside current candidate.attemptId with heq | ⟨owner, path', howner, hterminal, hpath, heq | heq⟩
    · rw [heq]
      exact h
    · obtain ⟨hmem, hid⟩ := getAttempt_eq_ok howner
      have hne : path ≠ path' := fun heq' ↦ hother candidate rfl owner (hkept.attempts ▸ hmem) hid
        hterminal (heq' ▸ hkept.owns _ _ hpath)
      rw [heq]
      simp only [removeWorktree, if_neg hne]
      exact h
    · rw [heq]
      exact h
  | file candidate target =>
    simp only [RetentionStore.mutate]
    split <;> exact h
  | tombstone candidate target =>
    simp only [RetentionStore.mutate]
    split <;> exact h

/-! ### Many changes -/

theorem mutateAll_append (first second : List GcMutation) (progress : GcProgress) :
    mutateAll tools outside plan now (first ++ second) progress =
      match mutateAll tools outside plan now first progress with
      | (next, some error) => (next, some error)
      | (next, none) => mutateAll tools outside plan now second next := by
  induction first generalizing progress with
  | nil => rfl
  | cons mutation rest ih =>
    rw [List.cons_append, mutateAll, mutateAll]
    split
    · rfl
    · exact ih _

theorem mutateAll_removed (mutations : List GcMutation) (progress : GcProgress)
    (removed : List GcRemoved) :
    mutateAll tools outside plan now mutations { progress with removed } =
      ({ (mutateAll tools outside plan now mutations progress).1 with removed },
        (mutateAll tools outside plan now mutations progress).2) := by
  induction mutations generalizing progress with
  | nil => rfl
  | cons mutation rest ih =>
    rw [mutateAll, mutateAll]
    dsimp only
    split
    · rfl
    · rename_i next heq
      exact ih { progress with store := next, log := progress.log ++ [mutation] }

/-- Changes are made in order; the first that fails is noted, and is the last tried. -/
theorem mutateAll_spec (mutations : List GcMutation) (progress : GcProgress) :
    (mutateAll tools outside plan now mutations progress).1.removed = progress.removed ∧
    ∃ part, (mutateAll tools outside plan now mutations progress).1.log = progress.log ++ part ∧
      ((mutateAll tools outside plan now mutations progress).2 = none ∧ part = mutations ∧
          (mutateAll tools outside plan now mutations progress).1.failing = progress.failing ∨
        (mutateAll tools outside plan now mutations progress).2 ≠ none ∧
          ∃ mutation rest, mutations = part ++ mutation :: rest ∧
            (mutateAll tools outside plan now mutations progress).1.failing = some mutation) := by
  induction mutations generalizing progress with
  | nil => exact ⟨rfl, [], (List.append_nil _).symm, .inl ⟨rfl, rfl, rfl⟩⟩
  | cons mutation rest ih =>
    rw [mutateAll]
    split
    · exact ⟨rfl, [], (List.append_nil _).symm, .inr ⟨nofun, mutation, rest, rfl, rfl⟩⟩
    · rename_i next heq
      obtain ⟨hremoved, part, hlog, hend⟩ := ih { progress with
        store := next
        log := progress.log ++ [mutation] }
      refine ⟨hremoved, mutation :: part, ?_, ?_⟩
      · rw [hlog, List.append_assoc, List.singleton_append]
      · rcases hend with ⟨hnone, rfl, hfailing⟩ | ⟨hsome, failed, after, rfl, hfailing⟩
        · exact .inl ⟨hnone, rfl, hfailing⟩
        · exact .inr ⟨hsome, failed, after, rfl, hfailing⟩

theorem Kept.mutateAll (mutations : List GcMutation) {progress : GcProgress}
    (h : Kept store progress.store) :
    Kept store (mutateAll tools outside plan now mutations progress).1.store := by
  induction mutations generalizing progress with
  | nil => exact h
  | cons mutation rest ih =>
    have hnext := h.mutate tools outside plan now mutation
    rw [RetentionStore.mutateAll]
    split
    · rename_i heq
      rw [heq] at hnext
      exact hnext
    · rename_i heq
      rw [heq] at hnext
      exact ih hnext

theorem Kept.mutations_eq {current : RetentionStore} (h : Kept store current)
    (candidate : GcCandidate) : current.mutations candidate = store.mutations candidate := by
  unfold mutations attemptDirectory
  rw [h.root]

/-- The changes of the candidates are made one after the other. -/
theorem applyCandidates_eq (candidates : List GcCandidate) (progress : GcProgress)
    (hkept : Kept store progress.store)
    (hmutations : ∀ candidate ∈ candidates, store.mutations candidate =
      .ok (store.steps candidate)) :
    let applied := applyCandidates tools outside plan now candidates progress
    let changed := mutateAll tools outside plan now (candidates.flatMap store.steps) progress
    applied.2 = changed.2 ∧ applied.1.store = changed.1.store ∧ applied.1.log = changed.1.log ∧
      applied.1.failing = changed.1.failing := by
  induction candidates generalizing progress with
  | nil => exact ⟨rfl, rfl, rfl, rfl⟩
  | cons candidate rest ih =>
    have hnext := hkept.mutateAll tools outside plan now (store.steps candidate)
    dsimp only at ih ⊢
    rw [applyCandidates, hkept.mutations_eq, hmutations candidate List.mem_cons_self,
      List.flatMap_cons, mutateAll_append]
    dsimp only
    cases hchanged : mutateAll tools outside plan now (store.steps candidate) progress with
    | mk next error =>
      rw [hchanged] at hnext
      cases error with
      | some error => exact ⟨rfl, rfl, rfl, rfl⟩
      | none =>
        have hrest (c : GcCandidate) (hc : c ∈ rest) := hmutations c (List.mem_cons_of_mem _ hc)
        have hnext' : Kept store { next with
          removed := next.removed ++ [candidate.removed] }.store := hnext
        have happlied := ih _ hnext' hrest
        rw [mutateAll_removed] at happlied
        exact happlied

/-- What applying stopped at. -/
theorem applyCandidates_stopped (candidates : List GcCandidate) {progress : GcProgress}
    (hkept : Kept store progress.store)
    (hmutations : ∀ candidate ∈ candidates, store.mutations candidate =
      .ok (store.steps candidate))
    (h : (applyCandidates tools outside plan now candidates progress).2 ≠ none) :
    ∃ before candidate after part, candidates = before ++ candidate :: after ∧
      (applyCandidates tools outside plan now candidates progress).1.removed =
        progress.removed ++ before.map GcCandidate.removed ∧
      (applyCandidates tools outside plan now candidates progress).1.log =
        progress.log ++ (before.flatMap store.steps ++ part) ∧
      part <+: store.steps candidate ∧ part ≠ store.steps candidate := by
  induction candidates generalizing progress with
  | nil => exact absurd rfl h
  | cons candidate rest ih =>
    obtain ⟨hremoved, part, hlog, hend⟩ :=
      mutateAll_spec tools outside plan now (store.steps candidate) progress
    have hnext := hkept.mutateAll tools outside plan now (store.steps candidate)
    rw [applyCandidates, hkept.mutations_eq, hmutations candidate List.mem_cons_self] at h ⊢
    dsimp only at h ⊢
    split
    · rename_i heq
      rw [heq] at hremoved hlog hend
      rcases hend with ⟨hnone, -⟩ | ⟨-, failed, after, hsteps, -⟩
      · exact nomatch hnone
      · refine ⟨[], candidate, rest, part, rfl, ?_, hlog, ⟨failed :: after, hsteps.symm⟩, fun hpart ↦ ?_⟩
        · rw [hremoved]
          exact (List.append_nil _).symm
        · have hlength := congrArg List.length hsteps
          rw [hpart, List.length_append, List.length_cons] at hlength
          omega
    · rename_i next heq
      rw [heq] at hremoved hlog hend hnext h
      rcases hend with ⟨-, rfl, -⟩ | ⟨hsome, -⟩
      · have hnext' : Kept store { next with
          removed := next.removed ++ [candidate.removed] }.store := hnext
        obtain ⟨before, candidate', after, part', hcandidates, hremoved', hlog', hinitial, hne⟩ :=
          ih hnext' (fun c hc ↦ hmutations c (List.mem_cons_of_mem _ hc)) h
        refine ⟨candidate :: before, candidate', after, part', ?_, ?_, ?_, hinitial, hne⟩
        · rw [hcandidates, List.cons_append]
        · rw [hremoved']
          dsimp only at hremoved ⊢
          rw [hremoved, List.append_assoc, List.singleton_append, List.map_cons]
        · rw [hlog']
          dsimp only at hlog ⊢
          rw [hlog, List.flatMap_cons, List.append_assoc, List.append_assoc]
      · exact absurd rfl hsome

/-- What was done is still among the effects when more is. -/
theorem mem_effects_mutateAll (mutations : List GcMutation) {progress : GcProgress}
    {mutation : GcMutation} (h : mutation ∈ progress.log) :
    mutation ∈ (mutateAll tools outside plan now mutations progress).1.effects := by
  obtain ⟨-, part, hlog, -⟩ := mutateAll_spec tools outside plan now mutations progress
  rw [GcProgress.effects, hlog]
  exact List.mem_append_left _ (List.mem_append_left _ h)

theorem mutateAll_files (mutations : List GcMutation) {progress : GcProgress} {path : StorePath}
    (h : (progress.store.files path).isSome = true)
    (hother : ∀ candidate, .file candidate path ∉
      (mutateAll tools outside plan now mutations progress).1.effects) :
    ((mutateAll tools outside plan now mutations progress).1.store.files path).isSome = true := by
  induction mutations generalizing progress with
  | nil => exact h
  | cons mutation rest ih =>
    have hstep : (∀ candidate, mutation = .file candidate path →
        (mutate tools outside plan now progress.store mutation).2 ≠ none) →
          ((mutate tools outside plan now progress.store mutation).1.files path).isSome = true :=
      mutate_files tools outside plan now h
    rw [mutateAll] at hother ⊢
    cases hmutate : mutate tools outside plan now progress.store mutation with
    | mk next error =>
      rw [hmutate] at hother hstep
      cases error with
      | some error => exact hstep fun _ _ ↦ nofun
      | none =>
        refine ih (hstep fun candidate heq _ ↦ hother candidate ?_) hother
        exact mem_effects_mutateAll tools outside plan now rest
          (heq ▸ List.mem_append_right _ (List.mem_singleton_self mutation))

theorem mutateAll_worktrees (mutations : List GcMutation) {progress : GcProgress}
    (hkept : Kept store progress.store) (hfailing : progress.failing = none) {path : String}
    (h : (progress.store.worktrees path).isSome = true)
    (hother : ∀ candidate, .workspace candidate ∈
        (mutateAll tools outside plan now mutations progress).1.effects →
      ∀ manifest ∈ store.attempts, manifest.attemptId = candidate.attemptId →
        manifest.status.isTerminal = true → store.ownsWorktree manifest ≠ some path) :
    ((mutateAll tools outside plan now mutations progress).1.store.worktrees path).isSome =
      true := by
  induction mutations generalizing progress with
  | nil => exact h
  | cons mutation rest ih =>
    have hstep := mutate_worktrees tools outside plan now hkept mutation h
    have hnext := hkept.mutate tools outside plan now mutation
    rw [mutateAll] at hother ⊢
    cases hmutate : mutate tools outside plan now progress.store mutation with
    | mk next error =>
      rw [hmutate] at hother hstep hnext
      cases error with
      | some error =>
        refine hstep fun candidate heq ↦ hother candidate ?_
        rw [heq]
        exact List.mem_append_right _ (List.mem_singleton_self _)
      | none =>
        refine ih hnext hfailing (hstep fun candidate heq ↦ hother candidate ?_) hother
        exact mem_effects_mutateAll tools outside plan now rest
          (heq ▸ List.mem_append_right _ (List.mem_singleton_self mutation))

theorem removeAttemptWorkspace_succeeds {attemptId : AttemptId}
    (h : (removeAttemptWorkspace outside store attemptId).2 = none) :
    store.ended attemptId = true := by
  unfold removeAttemptWorkspace at h
  unfold ended
  cases hmanifest : store.getAttempt attemptId with
  | error error =>
    rw [hmanifest] at h
    exact nomatch h
  | ok manifest =>
    rw [hmanifest] at h
    dsimp only at h ⊢
    split at h
    · exact nomatch h
    · rename_i hterminal
      rwa [Bool.not_eq_true', Bool.not_eq_false] at hterminal

theorem removeAttemptWorkspace_of_calm {attemptId : AttemptId}
    (hcalm : outside.removal attemptId = none) (h : store.ended attemptId = true) :
    (removeAttemptWorkspace outside store attemptId).2 = none := by
  unfold ended at h
  unfold removeAttemptWorkspace
  cases hmanifest : store.getAttempt attemptId with
  | error error =>
    rw [hmanifest] at h
    exact nomatch h
  | ok manifest =>
    rw [hmanifest] at h
    dsimp only at h ⊢
    rw [h, Bool.not_true, if_neg Bool.false_ne_true, hcalm]
    split <;> rfl

theorem Kept.ended_eq {current : RetentionStore} (h : Kept store current) (attemptId : AttemptId) :
    current.ended attemptId = store.ended attemptId := by
  unfold ended getAttempt
  rw [h.attempts]

/-- The changes that are made, and the removal that failed, are among those that can be made; they
are all of them if nothing outside makes a change fail. The induction follows which files are gone. -/
theorem effects_prefix_reachable (mutations : List GcMutation) (progress : GcProgress)
    (gone : List StorePath) (hkept : Kept store progress.store) (hfailing : progress.failing = none)
    (hgone : ∀ candidate target, .file candidate target ∈ mutations →
      ((progress.store.files target).isSome = true ↔ target ∉ gone)) :
    ∃ part, (mutateAll tools outside plan now mutations progress).1.effects =
        progress.log ++ part ∧ part <+: store.reachable gone mutations ∧
      (outside.Calm → part = store.reachable gone mutations) := by
  induction mutations generalizing progress gone with
  | nil =>
    refine ⟨[], ?_, List.prefix_rfl, fun _ ↦ rfl⟩
    rw [mutateAll, GcProgress.effects, hfailing]
  | cons mutation rest ih =>
    have hnext := hkept.mutate tools outside plan now mutation
    have hrest {candidate : GcCandidate} {target : StorePath}
        (h : .file candidate target ∈ rest) := hgone candidate target (List.mem_cons_of_mem _ h)
    -- a change that is made is the first of those that can be, and the rest follows
    have hmade (next : RetentionStore) (gone' : List StorePath) (hkept' : Kept store next)
        (hgone' : ∀ candidate target, .file candidate target ∈ rest →
          ((next.files target).isSome = true ↔ target ∉ gone')) :
        ∃ part, (mutateAll tools outside plan now rest { progress with
            store := next
            log := progress.log ++ [mutation] }).1.effects = progress.log ++ (mutation :: part) ∧
          part <+: store.reachable gone' rest ∧
          (outside.Calm → part = store.reachable gone' rest) := by
      obtain ⟨part, heffects, hinitial, hcalm⟩ := ih { progress with
        store := next
        log := progress.log ++ [mutation] } gone' hkept' hfailing hgone'
      refine ⟨part, ?_, hinitial, hcalm⟩
      rw [heffects, List.append_assoc, List.singleton_append]
    rw [mutateAll]
    cases mutation with
    | file candidate target =>
      have htarget := hgone candidate target List.mem_cons_self
      simp only [mutate] at hnext ⊢
      rw [reachable]
      by_cases hmem : target ∈ gone
      · have hread : ∃ error, progress.store.readFile target = .error error := by
          have hnone : progress.store.files target = none := by
            rw [← Option.not_isSome_iff_eq_none]
            exact fun h ↦ htarget.1 h hmem
          exact ⟨_, by rw [readFile, hnone]⟩
        obtain ⟨error, hread⟩ := hread
        rw [hread, if_pos hmem]
        refine ⟨[], ?_, List.prefix_rfl, fun _ ↦ rfl⟩
        cases outside.fault (.file candidate target) <;> rfl
      · have hread : ∃ content, progress.store.readFile target = .ok content := by
          obtain ⟨content, hcontent⟩ := Option.isSome_iff_exists.1 (htarget.2 hmem)
          exact ⟨content, by rw [readFile, hcontent]⟩
        obtain ⟨content, hread⟩ := hread
        rw [hread] at hnext ⊢
        rw [if_neg hmem]
        cases hfault : outside.fault (.file candidate target) with
        | some error =>
          refine ⟨[], rfl, List.nil_prefix, fun hcalm ↦ ?_⟩
          exact nomatch (hcalm.1 _).symm.trans hfault
        | none =>
          rw [hfault] at hnext
          obtain ⟨part, heffects, hinitial, hcalm⟩ := hmade _ (target :: gone) hnext
            fun candidate' target' h ↦ by
              by_cases heq : target' = target
              · simp [removeFile, heq]
              · simp only [removeFile, List.mem_cons, heq, false_or]
                exact hrest h
          exact ⟨_, heffects, List.cons_prefix_cons.2 ⟨rfl, hinitial⟩, fun h ↦ by rw [hcalm h]⟩
    | tombstone candidate target =>
      simp only [mutate] at hnext ⊢
      rw [reachable]
      cases hfault : outside.fault (.tombstone candidate target) with
      | some error =>
        refine ⟨[], rfl, List.nil_prefix, fun hcalm ↦ ?_⟩
        exact nomatch (hcalm.1 _).symm.trans hfault
      | none =>
        rw [hfault] at hnext
        obtain ⟨part, heffects, hinitial, hcalm⟩ := hmade _ (gone.filter (· ≠ target)) hnext
          fun candidate' target' h ↦ by
            by_cases heq : target' = target
            · simp [writeFile, heq]
            · simp only [writeFile, List.mem_filter, heq, ne_eq, not_false_eq_true,
                decide_true, and_true]
              exact hrest h
        exact ⟨_, heffects, List.cons_prefix_cons.2 ⟨rfl, hinitial⟩, fun h ↦ by rw [hcalm h]⟩
    | workspace candidate =>
      have hfiles := (removeAttemptWorkspace_layout outside progress.store candidate.attemptId).2.2
      change Kept store (removeAttemptWorkspace outside progress.store candidate.attemptId).1 at hnext
      have hended := hkept.ended_eq candidate.attemptId
      simp only [mutate]
      rw [reachable]
      cases hremove : removeAttemptWorkspace outside progress.store candidate.attemptId with
      | mk next error =>
        rw [hremove] at hnext hfiles
        cases error with
        | some error =>
          refine ⟨[.workspace candidate], rfl, List.cons_prefix_cons.2 ⟨rfl, List.nil_prefix⟩,
            fun hcalm ↦ ?_⟩
          split
          · rename_i h
            have hnone := removeAttemptWorkspace_of_calm outside (hcalm.2 candidate.attemptId)
              (hended.trans h)
            rw [hremove] at hnone
            exact nomatch hnone
          · rfl
        | none =>
          have hsucceeds := removeAttemptWorkspace_succeeds outside (congrArg Prod.snd hremove)
          rw [if_pos (hended.symm.trans hsucceeds)]
          obtain ⟨part, heffects, hinitial, hcalm⟩ := hmade _ gone hnext
            fun candidate' target' h ↦ by
              dsimp only at hfiles
              rw [hfiles]
              exact hrest h
          exact ⟨_, heffects, List.cons_prefix_cons.2 ⟨rfl, hinitial⟩, fun h ↦ by rw [hcalm h]⟩

/-! ### What the checks establish -/

theorem ok_of_forM {α : Type} {check : α → Except RuntimeError Unit} {values : List α}
    (h : values.forM check = .ok ()) {value : α} (hvalue : value ∈ values) :
    check value = .ok () := by
  induction values with
  | nil => exact absurd hvalue List.not_mem_nil
  | cons first rest ih =>
    change (check first >>= fun _ ↦ rest.forM check) = .ok () at h
    obtain ⟨_, hfirst, hrest⟩ := Except.exists_of_bind_eq_ok h
    rcases List.mem_cons.1 hvalue with rfl | hmem
    · exact hfirst
    · exact ih hrest hmem

theorem exists_targets {root : StorePath} {files : List GcFileBinding}
    (h : ∀ file ∈ files, ∃ target, resolveBoundFile root file.relativePath = .ok target ∧
      (store.files target).isSome = true) :
    ∃ targets, files.mapM (fun file ↦ resolveBoundFile root file.relativePath) = .ok targets ∧
      ∀ target ∈ targets, (store.files target).isSome = true := by
  induction files with
  | nil => exact ⟨[], rfl, fun _ h ↦ absurd h List.not_mem_nil⟩
  | cons file rest ih =>
    obtain ⟨target, htarget, hfile⟩ := h file List.mem_cons_self
    obtain ⟨targets, htargets, hfiles⟩ := ih fun f hf ↦ h f (List.mem_cons_of_mem _ hf)
    refine ⟨target :: targets, ?_, List.forall_mem_cons.2 ⟨hfile, hfiles⟩⟩
    rw [List.mapM_cons, htarget, htargets]
    rfl

/-- A candidate that was checked names files that are there. -/
theorem mutations_of_revalidateCandidate {candidate : GcCandidate}
    (h : store.revalidateCandidate tools candidate = .ok ()) :
    store.mutations candidate = .ok (store.steps candidate) ∧
      ∀ candidate' target, .file candidate' target ∈ store.steps candidate →
        (store.files target).isSome = true := by
  have hok : ∃ mutations, store.mutations candidate = .ok mutations ∧
      ∀ candidate' target, .file candidate' target ∈ mutations →
        (store.files target).isSome = true := by
    unfold mutations
    cases hkind : candidate.kind with
    | workspace =>
      refine ⟨_, rfl, fun candidate' target hmem ↦ ?_⟩
      exact nomatch List.mem_singleton.1 hmem
    | attemptArtifacts =>
      unfold revalidateCandidate at h
      obtain ⟨_, -, h⟩ := Except.exists_of_bind_eq_ok h
      obtain ⟨_, -, h⟩ := Except.exists_of_bind_eq_ok h
      obtain ⟨_, -, h⟩ := Except.exists_of_bind_eq_ok h
      obtain ⟨_, -, h⟩ := Except.exists_of_bind_eq_ok h
      obtain ⟨_, -, h⟩ := Except.exists_of_bind_eq_ok h
      dsimp only at h
      split at h
      · exact nomatch h
      · rw [hkind] at h
        dsimp only at h
        obtain ⟨root, hroot, hfiles⟩ := Except.exists_of_bind_eq_ok h
        have htargets (file : GcFileBinding) (hfile : file ∈ candidate.files) :
            ∃ target, resolveBoundFile root file.relativePath = .ok target ∧
              (store.files target).isSome = true := by
          obtain ⟨target, htarget, hread⟩ := Except.exists_of_bind_eq_ok (ok_of_forM hfiles hfile)
          obtain ⟨content, hcontent, -⟩ := Except.exists_of_bind_eq_ok hread
          refine ⟨target, htarget, ?_⟩
          unfold readFile at hcontent
          cases hsome : store.files target with
          | some content => rfl
          | none =>
            rw [hsome] at hcontent
            exact nomatch hcontent
        obtain ⟨targets, hmapM, hsome⟩ := exists_targets htargets
        refine ⟨_, by rw [hroot]; dsimp only [Bind.bind, Except.bind]; rw [hmapM]; rfl, ?_⟩
        intro candidate' target hmem
        rcases List.mem_append.1 hmem with hmem | hmem
        · obtain ⟨target', htarget', heq⟩ := List.mem_map.1 hmem
          obtain ⟨-, rfl⟩ := GcMutation.file.inj heq
          exact hsome _ htarget'
        · exact nomatch List.mem_singleton.1 hmem
  obtain ⟨mutations, hmutations, hfiles⟩ := hok
  unfold steps
  rw [hmutations]
  exact ⟨rfl, hfiles⟩

theorem revalidate_of_permit {approval : GcApproval}
    (h : store.permit tools plan approval now = .ok ()) {candidate : GcCandidate}
    (hcandidate : candidate ∈ plan.candidates) :
    store.revalidateCandidate tools candidate = .ok () := by
  unfold permit at h
  obtain ⟨_, -, h⟩ := Except.exists_of_bind_eq_ok h
  obtain ⟨_, -, h⟩ := Except.exists_of_bind_eq_ok h
  exact ok_of_forM h hcandidate

/-- The progress of a plan that passed the checks. -/
theorem apply_eq_ok {approval : GcApproval} {progress : GcProgress} {status : GcActionStatus}
    (h : store.apply tools outside plan approval now = .ok (progress, status)) :
    store.permit tools plan approval now = .ok () ∧
      store.applyPlan tools outside plan now = (progress, status) := by
  unfold apply at h
  obtain ⟨_, hpermit, h⟩ := Except.exists_of_bind_eq_ok h
  exact ⟨hpermit, Except.ok.inj h⟩

end RetentionStore

namespace RetentionStore

variable {tools : RetentionTools} {outside : GcOutside} {plan : GcPlan} {now : Timestamp}
  {store : RetentionStore}

theorem applyPlan_fst : (store.applyPlan tools outside plan now).1 =
    (applyCandidates tools outside plan now plan.candidates ⟨store, [], [], none⟩).1 := by
  unfold applyPlan
  split <;> rename_i heq <;> rw [heq]

theorem applyPlan_failed {removed : List GcRemoved} {error : String}
    (h : (store.applyPlan tools outside plan now).2 = .failed removed error) :
    removed = (store.applyPlan tools outside plan now).1.removed ∧
      (applyCandidates tools outside plan now plan.candidates ⟨store, [], [], none⟩).2 ≠ none := by
  unfold applyPlan at h ⊢
  split at h
  · rename_i heq
    obtain ⟨rfl, -⟩ := GcActionStatus.failed.inj h
    rw [heq]
    exact ⟨rfl, nofun⟩
  · exact nomatch h

/-- **Applying a plan that passed the checks** makes its changes, in order, up to the first that cannot
be made; all of them if nothing outside makes a change fail. -/
theorem applyPlan_spec (outside : GcOutside) {approval : GcApproval}
    (hpermit : store.permit tools plan approval now = .ok ()) :
    let progress := (store.applyPlan tools outside plan now).1
    let changed := mutateAll tools outside plan now (store.planSteps plan) ⟨store, [], [], none⟩
    progress.store = changed.1.store ∧ progress.effects = changed.1.effects ∧
      progress.effects <+: store.reachable [] (store.planSteps plan) ∧
      (outside.Calm → progress.effects = store.reachable [] (store.planSteps plan)) := by
  have hcandidate (candidate : GcCandidate) (hc : candidate ∈ plan.candidates) :=
    mutations_of_revalidateCandidate tools (revalidate_of_permit tools plan now hpermit hc)
  obtain ⟨-, hstore, hlog, hfailing⟩ := applyCandidates_eq tools outside plan now plan.candidates
    ⟨store, [], [], none⟩ (Kept.refl store) fun c hc ↦ (hcandidate c hc).1
  obtain ⟨part, heffects, hinitial, hcalm⟩ := effects_prefix_reachable tools outside plan now
    (store.planSteps plan) ⟨store, [], [], none⟩ [] (Kept.refl store) rfl
      fun candidate target hmem ↦ by
        obtain ⟨candidate', hcandidate', hstep⟩ := List.mem_flatMap.1 hmem
        exact iff_of_true ((hcandidate candidate' hcandidate').2 _ _ hstep) List.not_mem_nil
  have hsame : (store.applyPlan tools outside plan now).1.effects =
      (mutateAll tools outside plan now (store.planSteps plan) ⟨store, [], [], none⟩).1.effects := by
    rw [applyPlan_fst, GcProgress.effects, GcProgress.effects, hlog, hfailing]
    rfl
  dsimp only
  refine ⟨by rw [applyPlan_fst]; exact hstore, hsame, ?_, fun h ↦ ?_⟩
  · rw [hsame, heffects]
    exact hinitial
  · rw [hsame, heffects]
    exact hcalm h

end RetentionStore

namespace RecordPlan

/-- Hashes of sixty-four digits. -/
def digest : String := .ofList (List.replicate 64 'a')

/-- The tools, on one record. -/
def tools : RetentionTools where
  sha256 _ := digest
  fingerprint _ := digest
  localeLe a b := a ≤ b
  isoDate _ := "1970-01-01T00:00:00.000Z"
  planId := "00000000-0000-4000-8000-000000000000"
  tombstone _ _ _ _ := []

/-- A failed attempt. -/
def manifest : AttemptManifest where
  attemptId := ⟨"job", 1⟩
  adapterId := "fixture"
  status := .failed
  revision := 3
  createdAt := 0
  finishedAt := some 0
  artifacts := {
    job := "/data/jobs/job/job.json"
    manifest := "/data/jobs/job/attempts/job_a0001/attempt.json"
    stdout := "/data/jobs/job/attempts/job_a0001/stdout.log"
    stderr := "/data/jobs/job/attempts/job_a0001/stderr.log"
    proposalPatch := "/data/jobs/job/attempts/job_a0001/proposal.patch"
    repositoryStatus := "/data/jobs/job/attempts/job_a0001/repository-status.txt"
    changedPaths := "/data/jobs/job/attempts/job_a0001/changed-paths.json"
    verification := "/data/jobs/job/attempts/job_a0001/verification.json"
    cleanup := some "/data/jobs/job/attempts/job_a0001/cleanup.json" }

/-- The directory of the attempt. -/
def directory : StorePath := ["data", "jobs", "job", "attempts", "job_a0001"]

/-- A data root with the records of the attempt. -/
def store : RetentionStore where
  cwd := []
  root := ["data"]
  attempts := [manifest]
  policies _ := some ⟨60000, 60000, 60000⟩
  cleanups _ := some (createAttemptCleanupRecord ⟨"job", 1⟩ 0)
  files path := if path ∈ [directory ++ ["attempt.json"], directory ++ ["cleanup.json"]] then
    some [] else none
  paths := [directory ++ ["attempt.json"], directory ++ ["cleanup.json"]]
  worktrees _ := none
  distinct := List.nodup_singleton _
  mem_paths path h := by
    by_contra hpath
    rw [if_neg hpath] at h
    exact Bool.false_ne_true h

/-- A candidate that lists the manifest itself. -/
def candidate : GcCandidate where
  kind := .attemptArtifacts
  jobId := "job"
  attemptId := ⟨"job", 1⟩
  reason := "expired"
  estimatedBytes := 0
  manifestRevision := 3
  manifestSha256 := digest
  cleanupRevision := 0
  cleanupSha256 := digest
  files := [⟨"attempt.json", 0, digest⟩]

/-- The plan. -/
def plan : GcPlan where
  planId := tools.planId
  generatedAt := 100000
  expiresAt := 160000
  dataRoot := "/data"
  observations := []
  candidates := [candidate]
  totalEstimatedBytes := 0
  planFingerprint := digest

/-- The approval. -/
def approval : GcApproval := ⟨"owner", 100000, "expired"⟩

end RecordPlan

end CodeConductor
