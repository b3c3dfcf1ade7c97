import CodeConductor.Runtime.System

/-!
# What conductors rely on

Attempts are shared by everybody: any process may claim, cancel or recover any of them, and the
thread executing one holds no lock. What a thread may count on is the **history** of an attempt:
journals only grow, each snapshot is an allowed transition from the one below it, and the launch
identity is fixed from the claim on.

`conductorProtocol` is the agreement of the computations that only touch attempts. Its guarantee
says exactly which parts of the world they leave alone, so that it can be layered under the
protocols of the dispatcher; a `License` says which of the rarer steps a computation may take.
-/

namespace CodeConductor

open Async Async.Prog Async.Protocol

/-! ### Histories -/

/-- The proposals an attempt builds on, if it builds on any. -/
def AttemptManifest.parents (m : AttemptManifest) : Option (List AttemptId) :=
  m.lineage.map ProposalLineage.directParentAttemptIds

/-- `next` may be committed over `prev`. -/
structure AttemptManifest.Precedes (prev next : AttemptManifest) : Prop where
  attemptId : next.attemptId = prev.attemptId
  allowed : next.status ∈ prev.status.allowed
  /-- The launch identity is settled by the claim and never again. -/
  identity : next.launchOwner = prev.launchOwner ∧
      next.dispatchOperationId = prev.dispatchOperationId ∨
    prev.status = .reserved ∧ next.status = .claimed ∧
      ∀ operation, prev.dispatchOperationId = some operation →
        next.dispatchOperationId = some operation
  parents : next.parents = prev.parents

/-- The journals an attempt can have, newest snapshot first. -/
inductive AttemptHistory (attemptId : AttemptId) : List AttemptManifest → Prop
  | absent : AttemptHistory attemptId []
  | reserved (m : AttemptManifest) : m.attemptId = attemptId → m.status = .reserved →
      AttemptHistory attemptId [m]
  | push (next prev : AttemptManifest) (older : List AttemptManifest) :
      AttemptHistory attemptId (prev :: older) → prev.Precedes next →
        AttemptHistory attemptId (next :: prev :: older)

namespace AttemptHistory

variable {attemptId : AttemptId} {m newest : AttemptManifest} {older journal : List AttemptManifest}

theorem attemptId_eq (h : AttemptHistory attemptId journal) (hm : m ∈ journal) :
    m.attemptId = attemptId := by
  induction h generalizing m with
  | absent => exact absurd hm (by simp)
  | reserved r hr _ => rw [List.mem_singleton.1 hm, hr]
  | push next prev older _ hp ih =>
    rcases List.mem_cons.1 hm with rfl | hold
    · rw [hp.attemptId, ih List.mem_cons_self]
    · exact ih hold

/-- The newest snapshot has come at least as far as any. -/
theorem rank_le (h : AttemptHistory attemptId (newest :: older)) (hm : m ∈ newest :: older) :
    m.status.rank ≤ newest.status.rank := by
  generalize hj : newest :: older = journal at h
  induction h generalizing newest older with
  | absent => exact nomatch hj
  | reserved r _ _ =>
    obtain ⟨rfl, rfl⟩ := List.cons.inj hj
    rw [List.mem_singleton.1 hm]
  | push next prev older' _ hp ih =>
    obtain ⟨rfl, rfl⟩ := List.cons.inj hj
    rcases List.mem_cons.1 hm with rfl | hold
    · exact le_rfl
    · exact (ih hold rfl).trans (AttemptStatus.rank_le_of_mem_allowed hp.allowed)

/-- Once an attempt is claimed, its newest snapshot has the launch identity of the claim. -/
theorem identity_eq (h : AttemptHistory attemptId (newest :: older)) (hm : m ∈ newest :: older)
    (hstatus : m.status ≠ .reserved) : newest.launchOwner = m.launchOwner ∧
      newest.dispatchOperationId = m.dispatchOperationId ∧ newest.status ≠ .reserved := by
  generalize hj : newest :: older = journal at h
  induction h generalizing newest older with
  | absent => exact nomatch hj
  | reserved r _ hr =>
    obtain ⟨rfl, rfl⟩ := List.cons.inj hj
    exact absurd (List.mem_singleton.1 hm ▸ hr) hstatus
  | push next prev older' _ hp ih =>
    obtain ⟨rfl, rfl⟩ := List.cons.inj hj
    rcases List.mem_cons.1 hm with rfl | hold
    · exact ⟨rfl, rfl, hstatus⟩
    · obtain ⟨howner, hoperation, hprev⟩ := ih hold rfl
      rcases hp.identity with ⟨ho, hop⟩ | ⟨hr, -⟩
      · refine ⟨ho.trans howner, hop.trans hoperation, fun hnext ↦ ?_⟩
        have hallowed := hp.allowed
        rw [hnext] at hallowed
        revert hprev hallowed
        cases prev.status <;> decide
      · exact absurd hr hprev

/-- An attempt keeps the operation it was reserved for. -/
theorem operation_eq (h : AttemptHistory attemptId (newest :: older)) (hm : m ∈ newest :: older)
    {operation : Uuid} (hop : m.dispatchOperationId = some operation) :
    newest.dispatchOperationId = some operation := by
  generalize hj : newest :: older = journal at h
  induction h generalizing newest older with
  | absent => exact nomatch hj
  | reserved r _ _ =>
    obtain ⟨rfl, rfl⟩ := List.cons.inj hj
    rwa [← List.mem_singleton.1 hm]
  | push next prev older' _ hp ih =>
    obtain ⟨rfl, rfl⟩ := List.cons.inj hj
    rcases List.mem_cons.1 hm with rfl | hold
    · exact hop
    · have hprev := ih hold rfl
      rcases hp.identity with ⟨-, heq⟩ | ⟨-, -, hkeep⟩
      · rw [heq, hprev]
      · exact hkeep operation hprev

/-- The proposals an attempt builds on are settled by its reservation. -/
theorem parents_eq (h : AttemptHistory attemptId (newest :: older)) (hm : m ∈ newest :: older) :
    newest.parents = m.parents := by
  generalize hj : newest :: older = journal at h
  induction h generalizing newest older with
  | absent => exact nomatch hj
  | reserved r _ _ =>
    obtain ⟨rfl, rfl⟩ := List.cons.inj hj
    rw [List.mem_singleton.1 hm]
  | push next prev older' _ hp ih =>
    obtain ⟨rfl, rfl⟩ := List.cons.inj hj
    rcases List.mem_cons.1 hm with rfl | hold
    · rfl
    · exact hp.parents.trans (ih hold rfl)

/-- Nothing is committed over a terminal manifest. -/
theorem newest_of_isTerminal (h : AttemptHistory attemptId (newest :: older))
    (hm : m ∈ newest :: older) (hterminal : m.status.isTerminal = true) : m = newest := by
  cases h with
  | reserved r _ _ => exact List.mem_singleton.1 hm
  | push _ prev older' hprev hp =>
    rcases List.mem_cons.1 hm with rfl | hold
    · rfl
    · have hrank := rank_le hprev hold
      have hlive := AttemptStatus.not_isTerminal_of_mem_allowed hp.allowed
      rw [AttemptStatus.isTerminal_of_rank_le hterminal hrank] at hlive
      exact nomatch hlive

end AttemptHistory

/-! ### The invariant -/

/-- What holds of attempts and conductors whatever they do; `n` is the next thread. -/
structure AttemptInv (n : ℕ) (w : World) : Prop where
  history : ∀ id, AttemptHistory id (w.attempts id)
  listed : ∀ id, id ∈ w.attemptIds ↔ w.attempts id ≠ []
  /-- An attempt somebody prepared has left the claimed status behind. -/
  prepared : ∀ id t, w.preparedBy id = some t →
    ∃ m, w.attempt? id = some m ∧ 2 ≤ m.status.rank
  /-- A worker is started by the thread that prepared the attempt, for its launch identity. -/
  starts : ∀ l ∈ w.workerStarts, w.preparedBy l.attemptId = some l.thread ∧
    ∃ m, w.attempt? l.attemptId = some m ∧ m.status ≠ .reserved ∧
      m.launchOwner.map LaunchOwner.instanceId = some l.process ∧
      m.dispatchOperationId = some l.dispatchOperationId
  once : (w.workerStarts.map WorkerStart.attemptId).Nodup
  preparedBy_lt : ∀ id t, w.preparedBy id = some t → t < n
  starts_lt : ∀ l ∈ w.workerStarts, l.thread < n
  launchedFor_lt : ∀ i id, w.launchedFor i = some id → i < n
  /-- The execution recorded for an attempt was launched for it. -/
  executions : ∀ p id i, (w.conductor p).executions id = some i → w.launchedFor i = some id
  settled_lt : ∀ p i r, (w.conductor p).settled i = some r → i < n
  /-- An execution that returned a manifest returned the terminal one of its attempt. -/
  settled : ∀ p i m, (w.conductor p).settled i = some (.ok m) →
    w.launchedFor i = some m.attemptId ∧ m ∈ w.attempts m.attemptId ∧
      m.status.isTerminal = true

/-! ### Guarantee and rely -/

/-- The rarer steps a computation may take. -/
structure License where
  /-- The manifests it may create attempts with. -/
  creates : AttemptManifest → Prop := fun _ ↦ False
  /-- The attempts it may claim. -/
  claims : AttemptId → Prop := fun _ ↦ False
  /-- Whether it may start a worker. -/
  starts : Prop := False
  /-- Whether it may change the memory of its conductor. -/
  memory : Prop := False

/-- A license that includes another. -/
structure License.Includes (L M : License) : Prop where
  creates : ∀ m, M.creates m → L.creates m
  claims : ∀ id, M.claims id → L.claims id
  starts : M.starts → L.starts
  memory : M.memory → L.memory

/-- Everything is allowed. -/
def License.all : License := ⟨fun _ ↦ True, fun _ ↦ True, True, True⟩

/-- What may happen to the journal of an attempt in one step. -/
inductive AttemptMove (L : License) (w w' : World) (id : AttemptId) : Prop
  | same : w'.attempts id = w.attempts id → AttemptMove L w w' id
  | push (prev next : AttemptManifest) : w.attempt? id = some prev →
      w'.attempts id = next :: w.attempts id → prev.Precedes next →
      (next.status = .claimed → prev.status = .claimed ∨ L.claims id) → AttemptMove L w w' id
  | create (m : AttemptManifest) : w.attempts id = [] → w'.attempts id = [m] →
      m.attemptId = id → m.status = .reserved → L.creates m → AttemptMove L w w' id

/-- What thread `t` of process `p` guarantees of attempts and conductors. -/
structure AttemptGuar (L : License) (p t n : ℕ) (w w' : World) : Prop where
  attempts : ∀ id, AttemptMove L w w' id
  prepared : ∀ id, w'.preparedBy id = w.preparedBy id ∨
    w.preparedBy id = none ∧ w'.preparedBy id = some t
  starts : w'.workerStarts = w.workerStarts ∨
    L.starts ∧ ∃ l : WorkerStart, l.thread = t ∧ w'.workerStarts = l :: w.workerStarts
  launched : ∀ i id, w.launchedFor i = some id → w'.launchedFor i = some id
  settled : ∀ q i, (w'.conductor q).settled i = (w.conductor q).settled i ∨
    q = p ∧ i = t ∧ (w.conductor q).settled i = none
  memory : w'.conductor = w.conductor ∨ L.memory
  others : ∀ q, q ≠ p → w'.conductor q = w.conductor q

/-- The parts of the world conductors leave alone. -/
structure ConductorFrame (w w' : World) : Prop where
  contracts : w'.contracts = w.contracts
  itemIds : w'.itemIds = w.itemIds
  items : w'.items = w.items
  lease : w'.lease = w.lease
  generation : w'.generation = w.generation
  dead : w'.dead = w.dead
  dispatcher : w'.dispatcher = w.dispatcher
  maxConcurrent : w'.maxConcurrent = w.maxConcurrent
  outside : w'.outside = w.outside
  failure : w'.failure = w.failure
  selections : w'.selections = w.selections
  leaseThread : w'.leaseThread = w.leaseThread
  uuid : w.uuid ≤ w'.uuid

/-- What thread `t` of process `p` may assume of the others. -/
structure AttemptRely (p t : ℕ) (w w' : World) : Prop where
  attempts : ∀ id, w.attempts id <:+ w'.attempts id
  prepared : ∀ id i, w.preparedBy id = some i → w'.preparedBy id = some i
  preparedBySelf : ∀ id, w'.preparedBy id = some t → w.preparedBy id = some t
  startedBySelf : ∀ l ∈ w'.workerStarts, l.thread = t → l ∈ w.workerStarts
  launched : ∀ i id, w.launchedFor i = some id → w'.launchedFor i = some id
  settled : ∀ i r, (w.conductor p).settled i = some r → (w'.conductor p).settled i = some r
  settledBySelf : (w'.conductor p).settled t = (w.conductor p).settled t

/-- What an execution may assume when it is started. -/
structure ExecutionPre (p t : ℕ) (manifest : AttemptManifest) (operation : Uuid) (w : World) :
    Prop where
  journaled : manifest ∈ w.attempts manifest.attemptId
  claimed : manifest.status = .claimed
  owner : manifest.launchOwner.map LaunchOwner.instanceId = some p
  operation : manifest.dispatchOperationId = some operation
  launched : w.launchedFor t = some manifest.attemptId
  unprepared : ∀ id, w.preparedBy id ≠ some t
  unstarted : ∀ l ∈ w.workerStarts, l.thread ≠ t
  unsettled : (w.conductor p).settled t = none

/-- What a background call of a conductor may assume. -/
def ConductorPre (p t : ℕ) : RuntimeCall → World → Prop
  | .executeAttempt _ manifest operation, w => ExecutionPre p t manifest operation w
  | _, _ => False

/-- The protocol of the computations that only touch attempts. -/
def conductorProtocol (L : License) : Protocol RuntimeStep World RuntimeCall ℕ where
  inv := AttemptInv
  rely := AttemptRely
  guar p t n w w' := AttemptGuar L p t n w w' ∧ ConductorFrame w w'
  ok _ _ _ _ := True
  pre := ConductorPre

/-! ### First consequences -/

/-- Nothing that concerns attempts or conductors has changed. -/
structure SameAttempts (w w' : World) : Prop where
  attempts : w'.attempts = w.attempts
  attemptIds : w'.attemptIds = w.attemptIds
  preparedBy : w'.preparedBy = w.preparedBy
  workerStarts : w'.workerStarts = w.workerStarts
  launchedFor : w'.launchedFor = w.launchedFor
  conductor : w'.conductor = w.conductor

theorem SameAttempts.refl (w : World) : SameAttempts w w := ⟨rfl, rfl, rfl, rfl, rfl, rfl⟩

theorem ConductorFrame.refl (w : World) : ConductorFrame w w :=
  ⟨rfl, rfl, rfl, rfl, rfl, rfl, rfl, rfl, rfl, rfl, rfl, rfl, le_rfl⟩

theorem SameAttempts.inv {n : ℕ} {w w' : World} (h : SameAttempts w w') (hinv : AttemptInv n w) :
    AttemptInv n w' := by
  obtain ⟨h1, h2, h3, h4, h5, h6⟩ := h
  have hnewest (id : AttemptId) : w'.attempt? id = w.attempt? id :=
    congrArg List.head? (congrFun h1 id)
  constructor
  · rw [h1]; exact hinv.history
  · rw [h1, h2]; exact hinv.listed
  · simp only [h3, hnewest]; exact hinv.prepared
  · simp only [h3, h4, hnewest]; exact hinv.starts
  · rw [h4]; exact hinv.once
  · rw [h3]; exact hinv.preparedBy_lt
  · rw [h4]; exact hinv.starts_lt
  · rw [h5]; exact hinv.launchedFor_lt
  · rw [h5, h6]; exact hinv.executions
  · rw [h6]; exact hinv.settled_lt
  · rw [h1, h5, h6]; exact hinv.settled

theorem SameAttempts.guar {w w' : World} (h : SameAttempts w w') (L : License) (p t n : ℕ) :
    AttemptGuar L p t n w w' where
  attempts id := .same (congrFun h.attempts id)
  prepared id := .inl (congrFun h.preparedBy id)
  starts := .inl h.workerStarts
  launched i _ hi := by rwa [h.launchedFor]
  settled q i := .inl (by rw [h.conductor])
  memory := .inl h.conductor
  others q _ := congrFun h.conductor q

theorem AttemptGuar.refl (L : License) (p t n : ℕ) (w : World) : AttemptGuar L p t n w w :=
  (SameAttempts.refl w).guar L p t n

theorem AttemptMove.mono {L M : License} (h : L.Includes M) {w w' : World} {id : AttemptId}
    (hm : AttemptMove M w w' id) : AttemptMove L w w' id := by
  cases hm with
  | same heq => exact .same heq
  | push prev next hprev hnext hp hc =>
    exact .push prev next hprev hnext hp fun hs ↦ (hc hs).imp_right (h.claims id)
  | create m hold hnew hid hs hc => exact .create m hold hnew hid hs (h.creates m hc)

theorem AttemptGuar.mono {L M : License} (h : L.Includes M) {p t n : ℕ} {w w' : World}
    (hg : AttemptGuar M p t n w w') : AttemptGuar L p t n w w' where
  attempts id := (hg.attempts id).mono h
  prepared := hg.prepared
  starts := hg.starts.imp_right fun hs ↦ ⟨h.starts hs.1, hs.2⟩
  launched := hg.launched
  settled := hg.settled
  memory := hg.memory.imp_right h.memory
  others := hg.others

/-- A journal only grows. -/
theorem AttemptMove.suffix {L : License} {w w' : World} {id : AttemptId}
    (h : AttemptMove L w w' id) : w.attempts id <:+ w'.attempts id := by
  cases h with
  | same heq => exact heq ▸ List.suffix_rfl
  | push prev next _ hnext => rw [hnext]; exact List.suffix_cons next _
  | create m hold => rw [hold]; exact List.nil_suffix

variable {L : License} {p t n : ℕ} {w w' : World}

theorem AttemptInv.attemptId_eq (h : AttemptInv n w) {id : AttemptId} {m : AttemptManifest}
    (hm : m ∈ w.attempts id) : m.attemptId = id :=
  (h.history id).attemptId_eq hm

theorem World.mem_attempts_of_attempt? {id : AttemptId} {m : AttemptManifest}
    (h : w.attempt? id = some m) : m ∈ w.attempts id :=
  List.mem_of_mem_head? h

theorem World.attempts_eq_cons {id : AttemptId} {m : AttemptManifest}
    (h : w.attempt? id = some m) : ∃ older, w.attempts id = m :: older :=
  List.head?_eq_some_iff.1 h

theorem AttemptInv.attemptId_of_attempt? (h : AttemptInv n w) {id : AttemptId}
    {m : AttemptManifest} (hm : w.attempt? id = some m) : m.attemptId = id :=
  h.attemptId_eq (World.mem_attempts_of_attempt? hm)

/-- The newest manifest of an attempt that has one. -/
theorem World.exists_attempt? {id : AttemptId} {m : AttemptManifest} (h : m ∈ w.attempts id) :
    ∃ newest older, w.attempts id = newest :: older ∧ w.attempt? id = some newest := by
  cases hj : w.attempts id with
  | nil => rw [hj] at h; exact absurd h (by simp)
  | cons newest older => exact ⟨newest, older, rfl, by rw [World.attempt?, hj]; rfl⟩

/-- A terminal manifest is the newest. -/
theorem AttemptInv.attempt?_of_isTerminal (h : AttemptInv n w) {id : AttemptId}
    {m : AttemptManifest} (hm : m ∈ w.attempts id) (ht : m.status.isTerminal = true) :
    w.attempt? id = some m := by
  obtain ⟨newest, older, hj, hnew⟩ := World.exists_attempt? hm
  have hhist := h.history id
  rw [hj] at hhist hm
  rw [hhist.newest_of_isTerminal hm ht, hnew]

theorem AttemptInv.mono {m : ℕ} (h : AttemptInv n w) (hnm : n ≤ m) : AttemptInv m w :=
  { h with
    preparedBy_lt := fun id t ht ↦ (h.preparedBy_lt id t ht).trans_le hnm
    starts_lt := fun l hl ↦ (h.starts_lt l hl).trans_le hnm
    launchedFor_lt := fun i id hi ↦ (h.launchedFor_lt i id hi).trans_le hnm
    settled_lt := fun q i r hr ↦ (h.settled_lt q i r hr).trans_le hnm }

theorem AttemptRely.mem (h : AttemptRely p t w w') {id : AttemptId} {m : AttemptManifest}
    (hm : m ∈ w.attempts id) : m ∈ w'.attempts id :=
  (h.attempts id).subset hm

theorem AttemptGuar.mem (h : AttemptGuar L p t n w w') {id : AttemptId} {m : AttemptManifest}
    (hm : m ∈ w.attempts id) : m ∈ w'.attempts id :=
  (h.attempts id).suffix.subset hm

theorem AttemptRely.refl (p t : ℕ) (w : World) : AttemptRely p t w w :=
  ⟨fun _ ↦ List.suffix_rfl, fun _ _ h ↦ h, fun _ h ↦ h, fun _ h _ ↦ h, fun _ _ h ↦ h,
    fun _ _ h ↦ h, rfl⟩

theorem AttemptRely.trans {w₁ w₂ w₃ : World} (h : AttemptRely p t w₁ w₂)
    (h' : AttemptRely p t w₂ w₃) : AttemptRely p t w₁ w₃ where
  attempts id := (h.attempts id).trans (h'.attempts id)
  prepared id i hi := h'.prepared id i (h.prepared id i hi)
  preparedBySelf id hi := h.preparedBySelf id (h'.preparedBySelf id hi)
  startedBySelf l hl ht := h.startedBySelf l (h'.startedBySelf l hl ht) ht
  launched i id hi := h'.launched i id (h.launched i id hi)
  settled i r hi := h'.settled i r (h.settled i r hi)
  settledBySelf := h'.settledBySelf.trans h.settledBySelf

/-- The guarantee of one thread is within the rely of the others. -/
theorem AttemptGuar.rely (h : AttemptGuar L p t n w w') {p' t' : ℕ} (hne : t ≠ t') :
    AttemptRely p' t' w w' where
  attempts id := (h.attempts id).suffix
  prepared id i hi := by
    rcases h.prepared id with heq | ⟨hnone, -⟩
    · rw [heq, hi]
    · rw [hnone] at hi
      exact nomatch hi
  preparedBySelf id hi := by
    rcases h.prepared id with heq | ⟨-, hsome⟩
    · rwa [← heq]
    · rw [hsome] at hi
      exact absurd (Option.some.inj hi) hne
  startedBySelf l hl ht' := by
    rcases h.starts with heq | ⟨-, l', hl', heq⟩
    · rwa [heq] at hl
    · rw [heq] at hl
      rcases List.mem_cons.1 hl with rfl | hold
      · exact absurd (hl'.symm.trans ht') hne
      · exact hold
  launched := h.launched
  settled i r hi := by
    rcases h.settled p' i with heq | ⟨-, -, hnone⟩
    · rw [heq, hi]
    · rw [hnone] at hi
      exact nomatch hi
  settledBySelf := by
    rcases h.settled p' t' with heq | ⟨-, hi, -⟩
    · exact heq
    · exact absurd hi.symm hne

end CodeConductor
