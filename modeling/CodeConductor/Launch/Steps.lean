import CodeConductor.Launch.Protocol

/-!
# The steps on attempts

What each atomic step on attempts does to the invariant and the guarantee of conductors. A step
pushes a snapshot, publishes a new attempt, starts a worker, enters or leaves the maps of a
conductor, or settles an execution; every other step leaves attempts alone (`SameAttempts`).
-/

namespace CodeConductor

open Async Async.Prog Async.Protocol

variable {L : License} {p t n : ℕ} {w w' : World}

/-! ### Pushing a snapshot -/

section Push

variable {current updated : AttemptManifest}

theorem World.pushAttempt_attempts_self :
    (w.pushAttempt t current updated).attempts current.attemptId =
      updated :: w.attempts current.attemptId := by
  simp [World.pushAttempt]

theorem World.pushAttempt_attempts_of_ne {id : AttemptId} (h : id ≠ current.attemptId) :
    (w.pushAttempt t current updated).attempts id = w.attempts id := by
  simp [World.pushAttempt, h]

theorem World.pushAttempt_attempt?_self :
    (w.pushAttempt t current updated).attempt? current.attemptId = some updated := by
  rw [World.attempt?, World.pushAttempt_attempts_self]
  rfl

theorem World.pushAttempt_attempt?_of_ne {id : AttemptId} (h : id ≠ current.attemptId) :
    (w.pushAttempt t current updated).attempt? id = w.attempt? id := by
  rw [World.attempt?, World.pushAttempt_attempts_of_ne h]
  rfl

/-- An attempt that is still claimed was prepared by nobody. -/
theorem AttemptInv.unprepared (hinv : AttemptInv n w) {id : AttemptId} {m : AttemptManifest}
    (hm : w.attempt? id = some m) (hrank : m.status.rank < 2) : w.preparedBy id = none := by
  cases hprepared : w.preparedBy id with
  | none => rfl
  | some i =>
    obtain ⟨m', hm', hrank'⟩ := hinv.prepared id i hprepared
    rw [hm] at hm'
    obtain rfl := Option.some.inj hm'
    omega

/-- Who prepared an attempt, after a push. -/
theorem AttemptInv.pushAttempt_preparedBy (hinv : AttemptInv n w)
    (hcurrent : w.attempt? current.attemptId = some current) (id : AttemptId) :
    (w.pushAttempt t current updated).preparedBy id = w.preparedBy id ∨
      id = current.attemptId ∧ w.preparedBy id = none ∧ current.status = .claimed ∧
        updated.status = .preparing ∧
        (w.pushAttempt t current updated).preparedBy id = some t := by
  by_cases hclaim : current.status = .claimed ∧ updated.status = .preparing
  · by_cases hid : id = current.attemptId
    · subst hid
      have hnone := hinv.unprepared hcurrent (by rw [hclaim.1]; decide)
      exact .inr ⟨rfl, hnone, hclaim.1, hclaim.2, by simp [World.pushAttempt, hclaim]⟩
    · exact .inl (by simp [World.pushAttempt, hclaim, hid])
  · exact .inl (by simp only [World.pushAttempt, if_neg hclaim])

theorem AttemptInv.pushAttempt (hinv : AttemptInv n w) (ht : t < n)
    (hcurrent : w.attempt? current.attemptId = some current)
    (hp : current.Precedes updated) : AttemptInv n (w.pushAttempt t current updated) where
  history id := by
    by_cases hid : id = current.attemptId
    · subst hid
      obtain ⟨older, hold⟩ := World.attempts_eq_cons hcurrent
      have hhist := hinv.history current.attemptId
      rw [hold] at hhist
      rw [World.pushAttempt_attempts_self, hold]
      exact .push updated current older hhist hp
    · rw [World.pushAttempt_attempts_of_ne hid]
      exact hinv.history id
  listed id := by
    by_cases hid : id = current.attemptId
    · subst hid
      rw [World.pushAttempt_attempts_self]
      obtain ⟨older, hold⟩ := World.attempts_eq_cons hcurrent
      exact (hinv.listed current.attemptId).trans (by simp [hold])
    · rw [World.pushAttempt_attempts_of_ne hid]
      exact hinv.listed id
  prepared id i hi := by
    rcases hinv.pushAttempt_preparedBy hcurrent id with heq | ⟨rfl, -, -, hnext, -⟩
    · rw [heq] at hi
      obtain ⟨m, hm, hrank⟩ := hinv.prepared id i hi
      by_cases hid : id = current.attemptId
      · subst hid
        rw [hcurrent] at hm
        obtain rfl := Option.some.inj hm
        exact ⟨updated, World.pushAttempt_attempt?_self,
          hrank.trans (AttemptStatus.rank_le_of_mem_allowed hp.allowed)⟩
      · exact ⟨m, by rw [World.pushAttempt_attempt?_of_ne hid, hm], hrank⟩
    · exact ⟨updated, World.pushAttempt_attempt?_self, by rw [hnext]; decide⟩
  starts l hl := by
    obtain ⟨hprepared, m, hm, hstatus, howner, hoperation⟩ := hinv.starts l hl
    have hkeep : (w.pushAttempt t current updated).preparedBy l.attemptId =
        some l.thread := by
      rcases hinv.pushAttempt_preparedBy hcurrent l.attemptId with heq | ⟨-, hnone, -⟩
      · rw [heq, hprepared]
      · rw [hnone] at hprepared
        exact nomatch hprepared
    refine ⟨hkeep, ?_⟩
    by_cases hid : l.attemptId = current.attemptId
    · rw [hid] at hm ⊢
      rw [hcurrent] at hm
      obtain rfl := Option.some.inj hm
      have hnext : updated.status ≠ .reserved := fun h ↦ by
        have hallowed := hp.allowed
        rw [h] at hallowed
        revert hallowed hstatus
        cases current.status <;> decide
      rcases hp.identity with ⟨ho, hop⟩ | ⟨hr, -⟩
      · exact ⟨updated, World.pushAttempt_attempt?_self, hnext, by rw [ho, howner],
          by rw [hop, hoperation]⟩
      · exact absurd hr hstatus
    · exact ⟨m, by rw [World.pushAttempt_attempt?_of_ne hid, hm], hstatus, howner, hoperation⟩
  once := hinv.once
  preparedBy_lt id i hi := by
    rcases hinv.pushAttempt_preparedBy hcurrent id with heq | ⟨-, -, -, -, hsome⟩
    · exact hinv.preparedBy_lt id i (heq ▸ hi)
    · rw [hsome] at hi
      exact Option.some.inj hi ▸ ht
  starts_lt := hinv.starts_lt
  launchedFor_lt := hinv.launchedFor_lt
  executions := hinv.executions
  settled_lt := hinv.settled_lt
  settled q i m hm := by
    obtain ⟨hlaunched, hmem, hterminal⟩ := hinv.settled q i m hm
    refine ⟨hlaunched, ?_, hterminal⟩
    by_cases hid : m.attemptId = current.attemptId
    · rw [hid, World.pushAttempt_attempts_self, ← hid]
      exact List.mem_cons_of_mem _ hmem
    · rwa [World.pushAttempt_attempts_of_ne hid]

theorem AttemptGuar.pushAttempt (hinv : AttemptInv n w)
    (hcurrent : w.attempt? current.attemptId = some current) (hp : current.Precedes updated)
    (hclaim : updated.status = .claimed → current.status = .claimed ∨ L.claims current.attemptId) :
    AttemptGuar L p t n w (w.pushAttempt t current updated) where
  attempts id := by
    by_cases hid : id = current.attemptId
    · subst hid
      exact .push current updated hcurrent World.pushAttempt_attempts_self hp hclaim
    · exact .same (World.pushAttempt_attempts_of_ne hid)
  prepared id := (hinv.pushAttempt_preparedBy hcurrent id).imp_right fun h ↦ ⟨h.2.1, h.2.2.2.2⟩
  starts := .inl rfl
  launched _ _ hi := hi
  settled _ _ := .inl rfl
  memory := .inl rfl
  others _ _ := rfl

end Push

/-! ### Publishing a new attempt -/

section Create

variable {manifest : AttemptManifest}

theorem World.createAttempt_attempts_self :
    (w.createAttempt manifest).attempts manifest.attemptId = [manifest] := by
  simp [World.createAttempt]

theorem World.createAttempt_attempts_of_ne {id : AttemptId} (h : id ≠ manifest.attemptId) :
    (w.createAttempt manifest).attempts id = w.attempts id := by
  simp [World.createAttempt, h]

theorem World.createAttempt_attempt?_of_ne {id : AttemptId} (h : id ≠ manifest.attemptId) :
    (w.createAttempt manifest).attempt? id = w.attempt? id := by
  rw [World.attempt?, World.createAttempt_attempts_of_ne h]
  rfl

/-- An attempt with a manifest is not the one created. -/
theorem World.ne_of_attempt? (hnew : w.attempts manifest.attemptId = []) {id : AttemptId}
    {m : AttemptManifest} (hm : w.attempt? id = some m) : id ≠ manifest.attemptId := by
  rintro rfl
  rw [World.attempt?, hnew] at hm
  exact absurd hm (by simp)

theorem AttemptInv.createAttempt (hinv : AttemptInv n w)
    (hnew : w.attempts manifest.attemptId = []) (hstatus : manifest.status = .reserved) :
    AttemptInv n (w.createAttempt manifest) where
  history id := by
    by_cases hid : id = manifest.attemptId
    · subst hid
      rw [World.createAttempt_attempts_self]
      exact .reserved manifest rfl hstatus
    · rw [World.createAttempt_attempts_of_ne hid]
      exact hinv.history id
  listed id := by
    show id ∈ w.attemptIds ++ [manifest.attemptId] ↔ _
    by_cases hid : id = manifest.attemptId
    · subst hid
      rw [World.createAttempt_attempts_self]
      simp
    · rw [World.createAttempt_attempts_of_ne hid, ← hinv.listed id]
      simp [hid]
  prepared id i hi := by
    obtain ⟨m, hm, hrank⟩ := hinv.prepared id i hi
    exact ⟨m, by rw [World.createAttempt_attempt?_of_ne (World.ne_of_attempt? hnew hm), hm], hrank⟩
  starts l hl := by
    obtain ⟨hprepared, m, hm, hrest⟩ := hinv.starts l hl
    exact ⟨hprepared, m,
      by rw [World.createAttempt_attempt?_of_ne (World.ne_of_attempt? hnew hm), hm], hrest⟩
  once := hinv.once
  preparedBy_lt := hinv.preparedBy_lt
  starts_lt := hinv.starts_lt
  launchedFor_lt := hinv.launchedFor_lt
  executions := hinv.executions
  settled_lt := hinv.settled_lt
  settled q i m hm := by
    obtain ⟨hlaunched, hmem, hterminal⟩ := hinv.settled q i m hm
    refine ⟨hlaunched, ?_, hterminal⟩
    rwa [World.createAttempt_attempts_of_ne]
    intro hid
    rw [hid, hnew] at hmem
    exact absurd hmem (by simp)

theorem AttemptGuar.createAttempt (hnew : w.attempts manifest.attemptId = [])
    (hstatus : manifest.status = .reserved) (hcreates : L.creates manifest) :
    AttemptGuar L p t n w (w.createAttempt manifest) where
  attempts id := by
    by_cases hid : id = manifest.attemptId
    · subst hid
      exact .create manifest hnew World.createAttempt_attempts_self rfl hstatus hcreates
    · exact .same (World.createAttempt_attempts_of_ne hid)
  prepared _ := .inl rfl
  starts := .inl rfl
  launched _ _ hi := hi
  settled _ _ := .inl rfl
  memory := .inl rfl
  others _ _ := rfl

end Create

/-! ### The memory of a conductor -/

@[simp] theorem World.setConductor_attempts (q : ℕ) (memory : ConductorMemory) :
    (w.setConductor q memory).attempts = w.attempts := rfl

@[simp] theorem World.setConductor_conductor_self (q : ℕ) (memory : ConductorMemory) :
    (w.setConductor q memory).conductor q = memory := by
  simp [World.setConductor]

theorem World.setConductor_conductor_of_ne {q q' : ℕ} (memory : ConductorMemory) (h : q' ≠ q) :
    (w.setConductor q memory).conductor q' = w.conductor q' := by
  simp [World.setConductor, h]

/-- A change of the own maps that records nothing new. -/
theorem AttemptInv.setConductor (hinv : AttemptInv n w) {memory : ConductorMemory}
    (hexecutions : ∀ id i, memory.executions id = some i →
      (w.conductor p).executions id = some i)
    (hsettled : memory.settled = (w.conductor p).settled) :
    AttemptInv n (w.setConductor p memory) where
  history := hinv.history
  listed := hinv.listed
  prepared := hinv.prepared
  starts := hinv.starts
  once := hinv.once
  preparedBy_lt := hinv.preparedBy_lt
  starts_lt := hinv.starts_lt
  launchedFor_lt := hinv.launchedFor_lt
  executions q id i hi := by
    by_cases hq : q = p
    · subst hq
      rw [World.setConductor_conductor_self] at hi
      exact hinv.executions q id i (hexecutions id i hi)
    · rw [World.setConductor_conductor_of_ne _ hq] at hi
      exact hinv.executions q id i hi
  settled_lt q i r hr := by
    by_cases hq : q = p
    · subst hq
      rw [World.setConductor_conductor_self, hsettled] at hr
      exact hinv.settled_lt q i r hr
    · rw [World.setConductor_conductor_of_ne _ hq] at hr
      exact hinv.settled_lt q i r hr
  settled q i m hm := by
    by_cases hq : q = p
    · subst hq
      rw [World.setConductor_conductor_self, hsettled] at hm
      exact hinv.settled q i m hm
    · rw [World.setConductor_conductor_of_ne _ hq] at hm
      exact hinv.settled q i m hm

theorem AttemptGuar.setConductor (hL : L.memory) {memory : ConductorMemory}
    (hsettled : memory.settled = (w.conductor p).settled) :
    AttemptGuar L p t n w (w.setConductor p memory) where
  attempts _ := .same rfl
  prepared _ := .inl rfl
  starts := .inl rfl
  launched _ _ hi := hi
  settled q i := by
    by_cases hq : q = p
    · subst hq
      rw [World.setConductor_conductor_self, hsettled]
      exact .inl rfl
    · rw [World.setConductor_conductor_of_ne _ hq]
      exact .inl rfl
  memory := .inr hL
  others _ hq := World.setConductor_conductor_of_ne _ hq

theorem ConductorFrame.setConductor {memory : ConductorMemory} :
    ConductorFrame w (w.setConductor p memory) :=
  ⟨rfl, rfl, rfl, rfl, rfl, rfl, rfl, rfl, rfl, rfl, rfl, rfl, le_rfl⟩

/-! ### Launching -/

section Launch

variable {id : AttemptId}

theorem AttemptInv.launchedFor_fresh (hinv : AttemptInv n w) : w.launchedFor n = none :=
  Option.eq_none_iff_forall_ne_some.2 fun id h ↦ lt_irrefl n (hinv.launchedFor_lt n id h)

theorem AttemptInv.settled_fresh (hinv : AttemptInv n w) : (w.conductor p).settled n = none :=
  Option.eq_none_iff_forall_ne_some.2 fun r h ↦ lt_irrefl n (hinv.settled_lt p n r h)

theorem World.launch_settled {q : ℕ} :
    ((w.launch p id n).conductor q).settled = (w.conductor q).settled := by
  by_cases hq : q = p
  · subst hq
    simp [World.launch]
  · simp [World.launch, World.setConductor, hq]

/-- Whom a thread was launched for, after a launch. -/
theorem World.launch_launchedFor {i : ℕ} {id' : AttemptId} :
    (w.launch p id n).launchedFor i = some id' ↔
      i = n ∧ id' = id ∨ i ≠ n ∧ w.launchedFor i = some id' := by
  by_cases hi : i = n
  · subst hi
    simp [World.launch, eq_comm]
  · simp [World.launch, hi]

/-- The executions recorded, after a launch. -/
theorem World.launch_executions {q i : ℕ} {id' : AttemptId}
    (h : ((w.launch p id n).conductor q).executions id' = some i) :
    i = n ∧ id' = id ∨ (w.conductor q).executions id' = some i := by
  by_cases hq : q = p
  · subst hq
    by_cases hid : id' = id
    · subst hid
      have hi : n = i := by simpa [World.launch, World.setConductor] using h
      exact .inl ⟨hi.symm, rfl⟩
    · exact .inr (by simpa [World.launch, World.setConductor, hid] using h)
  · exact .inr (by simpa [World.launch, World.setConductor, hq] using h)

/-- Thread `n` is new, so nothing was known about it. -/
theorem AttemptInv.launchedFor_launch (hinv : AttemptInv n w) {i : ℕ} {id' : AttemptId}
    (h : w.launchedFor i = some id') : (w.launch p id n).launchedFor i = some id' :=
  World.launch_launchedFor.2 (.inr ⟨(hinv.launchedFor_lt i id' h).ne, h⟩)

theorem AttemptInv.launch (hinv : AttemptInv n w) : AttemptInv (n + 1) (w.launch p id n) where
  history := hinv.history
  listed := hinv.listed
  prepared := hinv.prepared
  starts := hinv.starts
  once := hinv.once
  preparedBy_lt id i h := (hinv.preparedBy_lt id i h).trans (Nat.lt_succ_self n)
  starts_lt l h := (hinv.starts_lt l h).trans (Nat.lt_succ_self n)
  launchedFor_lt i id' h := by
    rcases World.launch_launchedFor.1 h with ⟨rfl, -⟩ | ⟨-, hold⟩
    · exact Nat.lt_succ_self i
    · exact (hinv.launchedFor_lt i id' hold).trans (Nat.lt_succ_self n)
  executions q id' i h := by
    rcases World.launch_executions h with ⟨rfl, rfl⟩ | hold
    · exact World.launch_launchedFor.2 (.inl ⟨rfl, rfl⟩)
    · exact hinv.launchedFor_launch (hinv.executions q id' i hold)
  settled_lt q i r h := by
    rw [World.launch_settled] at h
    exact (hinv.settled_lt q i r h).trans (Nat.lt_succ_self n)
  settled q i m h := by
    rw [World.launch_settled] at h
    obtain ⟨hfor, hmem, hterminal⟩ := hinv.settled q i m h
    exact ⟨hinv.launchedFor_launch hfor, hmem, hterminal⟩

theorem AttemptGuar.launch (hinv : AttemptInv n w) (hL : L.memory) :
    AttemptGuar L p t n w (w.launch p id n) where
  attempts _ := .same rfl
  prepared _ := .inl rfl
  starts := .inl rfl
  launched _ _ hi := hinv.launchedFor_launch hi
  settled _ _ := .inl (by rw [World.launch_settled])
  memory := .inr hL
  others q hq := World.setConductor_conductor_of_ne _ hq

theorem ConductorFrame.launch : ConductorFrame w (w.launch p id n) :=
  ⟨rfl, rfl, rfl, rfl, rfl, rfl, rfl, rfl, rfl, rfl, rfl, rfl, le_rfl⟩

end Launch

/-! ### The end of an execution -/

section End

variable {id : AttemptId} {ending : Except RuntimeError AttemptManifest}

theorem AttemptInv.leaveMaps (hinv : AttemptInv n w) : AttemptInv n (w.leaveMaps p id) := by
  refine hinv.setConductor (fun id' i hi ↦ ?_) rfl
  by_cases hid : id' = id
  · subst hid
    simp at hi
  · simpa [hid] using hi

theorem AttemptGuar.leaveMaps (hL : L.memory) : AttemptGuar L p t n w (w.leaveMaps p id) :=
  .setConductor hL rfl

/-- The promises settled, after one more was. -/
theorem World.settleExecution_settled {q i : ℕ} {r : Except RuntimeError AttemptManifest} :
    ((w.settleExecution p t ending).conductor q).settled i = some r ↔
      q = p ∧ i = t ∧ r = ending ∨
        (q = p → i ≠ t) ∧ (w.conductor q).settled i = some r := by
  by_cases hq : q = p
  · subst hq
    by_cases hi : i = t
    · subst hi
      simp [World.settleExecution, World.setConductor, eq_comm]
    · simp [World.settleExecution, World.setConductor, hi]
  · simp [World.settleExecution, World.setConductor, hq]

theorem World.settleExecution_executions {q : ℕ} :
    ((w.settleExecution p t ending).conductor q).executions = (w.conductor q).executions := by
  by_cases hq : q = p
  · subst hq
    simp [World.settleExecution, World.setConductor]
  · simp [World.settleExecution, World.setConductor, hq]

theorem AttemptInv.settleExecution (hinv : AttemptInv n w) (ht : t < n)
    (hending : ∀ m, ending = .ok m → w.launchedFor t = some m.attemptId ∧
      m ∈ w.attempts m.attemptId ∧ m.status.isTerminal = true) :
    AttemptInv n (w.settleExecution p t ending) where
  history := hinv.history
  listed := hinv.listed
  prepared := hinv.prepared
  starts := hinv.starts
  once := hinv.once
  preparedBy_lt := hinv.preparedBy_lt
  starts_lt := hinv.starts_lt
  launchedFor_lt := hinv.launchedFor_lt
  executions q id i hi := by
    rw [World.settleExecution_executions] at hi
    exact hinv.executions q id i hi
  settled_lt q i r hr := by
    rcases World.settleExecution_settled.1 hr with ⟨-, rfl, -⟩ | ⟨-, hold⟩
    · exact ht
    · exact hinv.settled_lt q i r hold
  settled q i m hm := by
    rcases World.settleExecution_settled.1 hm with ⟨-, rfl, heq⟩ | ⟨-, hold⟩
    · exact hending m heq.symm
    · exact hinv.settled q i m hold

theorem AttemptGuar.settleExecution (hL : L.memory) (hnone : (w.conductor p).settled t = none) :
    AttemptGuar L p t n w (w.settleExecution p t ending) where
  attempts _ := .same rfl
  prepared _ := .inl rfl
  starts := .inl rfl
  launched _ _ hi := hi
  settled q i := by
    by_cases hself : q = p ∧ i = t
    · obtain ⟨rfl, rfl⟩ := hself
      exact .inr ⟨rfl, rfl, hnone⟩
    · refine .inl (Option.ext fun r ↦ World.settleExecution_settled.trans ?_)
      simp only [not_and] at hself
      exact ⟨fun h ↦ h.elim (fun h ↦ absurd h.2.1 (hself h.1)) And.right,
        fun h ↦ .inr ⟨hself, h⟩⟩
  memory := .inr hL
  others _ hq := World.setConductor_conductor_of_ne _ hq

end End

/-! ### Starting a worker -/

section StartWorker

variable {m : AttemptManifest} {operation : Uuid}

/-- The thread that prepared an attempt and started no worker yet may start one. -/
theorem AttemptInv.startWorker (hinv : AttemptInv n w) (ht : t < n)
    (hmem : m ∈ w.attempts m.attemptId) (hstatus : m.status ≠ .reserved)
    (howner : m.launchOwner.map LaunchOwner.instanceId = some p)
    (hoperation : m.dispatchOperationId = some operation)
    (hprepared : w.preparedBy m.attemptId = some t)
    (hunstarted : ∀ l ∈ w.workerStarts, l.thread ≠ t) :
    AttemptInv n (w.startWorker p t m.attemptId operation) where
  history := hinv.history
  listed := hinv.listed
  prepared := hinv.prepared
  starts l hl := by
    rcases List.mem_cons.1 hl with rfl | hold
    · obtain ⟨newest, older, hj, hnewest⟩ := World.exists_attempt? hmem
      have hhist := hinv.history m.attemptId
      rw [hj] at hhist hmem
      obtain ⟨ho, hop, hst⟩ := hhist.identity_eq hmem hstatus
      exact ⟨hprepared, newest, hnewest, hst, by rw [ho, howner], by rw [hop, hoperation]⟩
    · exact hinv.starts l hold
  once := by
    refine List.nodup_cons.2 ⟨fun hmem' ↦ ?_, hinv.once⟩
    obtain ⟨l, hl, hid⟩ := List.mem_map.1 hmem'
    have hl' := (hinv.starts l hl).1
    rw [hid, hprepared] at hl'
    exact hunstarted l hl (Option.some.inj hl').symm
  preparedBy_lt := hinv.preparedBy_lt
  starts_lt l hl := by
    rcases List.mem_cons.1 hl with rfl | hold
    · exact ht
    · exact hinv.starts_lt l hold
  launchedFor_lt := hinv.launchedFor_lt
  executions := hinv.executions
  settled_lt := hinv.settled_lt
  settled := hinv.settled

theorem AttemptGuar.startWorker {id : AttemptId} (hL : L.starts) :
    AttemptGuar L p t n w (w.startWorker p t id operation) where
  attempts _ := .same rfl
  prepared _ := .inl rfl
  starts := .inr ⟨hL, _, rfl, rfl⟩
  launched _ _ hi := hi
  settled _ _ := .inl rfl
  memory := .inl rfl
  others _ _ := rfl

theorem ConductorFrame.startWorker {id : AttemptId} :
    ConductorFrame w (w.startWorker p t id operation) :=
  ⟨rfl, rfl, rfl, rfl, rfl, rfl, rfl, rfl, rfl, rfl, rfl, rfl, le_rfl⟩

end StartWorker

end CodeConductor
