import CodeConductor.Async.Carry
import CodeConductor.Gate.Protocol

/-!
# No more executions than there is room for

A process counts its executions in `active`, and only a dispatch pass adds to it: under the state
lock, after it has seen that there is room and that the job is not active. Executions take themselves
out of `active` without the lock, at any time.

`capacityProtocol` is the agreement that makes of this an invariant. A thread at the head of
`lockQueue` has the state lock and keeps it until it leaves itself, and as long as it has it others
only ever take entries out of `active`; so what it has seen of the room stays true until it uses it.

A step is *quiet* for a process when it touches neither `lockQueue` nor `active`. Everything but the
lock, the start of an execution and its end is quiet, and carries every fact of the kind `LockSteady`.
-/

namespace CodeConductor

open Async Async.Prog Async.Protocol

variable {self : Self} {p t n : ℕ} {w w' : World}

/-! ### The agreement -/

/-- No process has more executions than allowed, or two of one job. -/
structure CapacityInv (w : World) : Prop where
  bounded : ∀ p, (w.dispatcher p).active.length ≤ w.maxConcurrent
  once : ∀ p, ((w.dispatcher p).active.map Prod.fst).Nodup

/-- The thread has the state lock of its process. -/
def HasLock (p t : ℕ) (w : World) : Prop := (w.dispatcher p).lockQueue.head? = some t

/-- What thread `t` of process `p` may assume of the others: they do not take the lock from it, and
while it has it nothing is added to `active`. -/
structure CapacityRely (p t : ℕ) (w w' : World) : Prop where
  maxConcurrent : w'.maxConcurrent = w.maxConcurrent
  locked : HasLock p t w → HasLock p t w' ∧ (w'.dispatcher p).active.Sublist (w.dispatcher p).active

/-- What thread `t` of process `p` guarantees. -/
structure CapacityGuar (p t : ℕ) (w w' : World) : Prop where
  maxConcurrent : w'.maxConcurrent = w.maxConcurrent
  others : ∀ q, q ≠ p → w'.dispatcher q = w.dispatcher q
  lockQueue : (w'.dispatcher p).lockQueue = (w.dispatcher p).lockQueue ∨
    (w'.dispatcher p).lockQueue = (w.dispatcher p).lockQueue ++ [t] ∨
    (w.dispatcher p).lockQueue = t :: (w'.dispatcher p).lockQueue
  active : (w'.dispatcher p).active.Sublist (w.dispatcher p).active ∨ HasLock p t w

/-- The agreement. -/
def capacityProtocol : Protocol RuntimeStep World RuntimeCall ℕ where
  inv n w := AttemptInv n w ∧ CapacityInv w
  rely p t w w' := AttemptRely p t w w' ∧ CapacityRely p t w w'
  guar p t n w w' := AttemptGuar .all p t n w w' ∧ CapacityGuar p t w w'
  ok := System.unrestricted
  pre := GatePre

theorem CapacityRely.refl (w : World) : CapacityRely p t w w := ⟨rfl, fun h ↦ ⟨h, .refl _⟩⟩

theorem CapacityRely.trans {w₁ w₂ w₃ : World} (h : CapacityRely p t w₁ w₂)
    (h' : CapacityRely p t w₂ w₃) : CapacityRely p t w₁ w₃ where
  maxConcurrent := h'.maxConcurrent.trans h.maxConcurrent
  locked hlock :=
    have h₁ := h.locked hlock
    have h₂ := h'.locked h₁.1
    ⟨h₂.1, h₂.2.trans h₁.2⟩

/-- What one thread guarantees the others may rely on. -/
theorem CapacityGuar.rely (h : CapacityGuar p t w w') {q u : ℕ} (hne : u ≠ t) :
    CapacityRely q u w w' where
  maxConcurrent := h.maxConcurrent
  locked hlock := by
    by_cases hq : q = p
    · subst hq
      refine ⟨?_, h.active.resolve_right fun hlock' ↦ hne ?_⟩
      · rcases h.lockQueue with heq | heq | heq
        · rwa [HasLock, heq]
        · -- the queue was not empty, so its head is not the newcomer
          rw [HasLock, heq, List.head?_append, hlock]
          rfl
        · rw [HasLock, heq, List.head?_cons] at hlock
          exact absurd (Option.some.inj hlock).symm hne
      · exact Option.some.inj (hlock.symm.trans hlock')
    · rw [HasLock, h.others q hq]
      exact ⟨hlock, .refl _⟩

/-! ### QuietStep steps -/

/-- Neither the lock nor the executions of any process have changed. -/
structure QuietStep (p : ℕ) (w w' : World) : Prop where
  maxConcurrent : w'.maxConcurrent = w.maxConcurrent
  others : ∀ q, q ≠ p → w'.dispatcher q = w.dispatcher q
  lockQueue : (w'.dispatcher p).lockQueue = (w.dispatcher p).lockQueue
  active : (w'.dispatcher p).active = (w.dispatcher p).active

theorem QuietStep.refl (p : ℕ) (w : World) : QuietStep p w w := ⟨rfl, fun _ _ ↦ rfl, rfl, rfl⟩

/-- A step that touches no dispatcher. -/
theorem QuietStep.of_eq (hmax : w'.maxConcurrent = w.maxConcurrent)
    (h : w'.dispatcher = w.dispatcher) : QuietStep p w w' :=
  ⟨hmax, fun q _ ↦ congrFun h q, by rw [h], by rw [h]⟩

/-- A step on the own memory that leaves the two fields alone. -/
theorem QuietStep.setDispatcher {memory : DispatcherMemory}
    (hlock : memory.lockQueue = (w.dispatcher p).lockQueue)
    (hactive : memory.active = (w.dispatcher p).active) : QuietStep p w (w.setDispatcher p memory) where
  maxConcurrent := rfl
  others q hq := Function.update_of_ne hq ..
  lockQueue := by
    show (Function.update w.dispatcher p memory p).lockQueue = _
    rw [Function.update_self, hlock]
  active := by
    show (Function.update w.dispatcher p memory p).active = _
    rw [Function.update_self, hactive]

theorem QuietStep.guar (h : QuietStep p w w') : CapacityGuar p t w w' where
  maxConcurrent := h.maxConcurrent
  others := h.others
  lockQueue := .inl h.lockQueue
  active := .inl (by rw [h.active])

theorem QuietStep.inv (h : QuietStep p w w') (hinv : CapacityInv w) : CapacityInv w' := by
  have hactive (q : ℕ) : (w'.dispatcher q).active = (w.dispatcher q).active := by
    by_cases hq : q = p
    · subst hq
      exact h.active
    · rw [h.others q hq]
  constructor
  · intro q
    rw [hactive, h.maxConcurrent]
    exact hinv.bounded q
  · intro q
    rw [hactive]
    exact hinv.once q

/-- A fact that quiet steps and the steps of the others keep. -/
structure LockSteady (p t : ℕ) (J : World → Prop) : Prop where
  rely : ∀ w w', CapacityRely p t w w' → J w → J w'
  quiet : ∀ w w', QuietStep p w w' → J w → J w'

theorem steady_true : LockSteady p t fun _ ↦ True := ⟨fun _ _ _ _ ↦ trivial, fun _ _ _ _ ↦ trivial⟩

/-- To have the lock. -/
theorem steady_hasLock : LockSteady p t (HasLock p t) where
  rely _ _ h hlock := (h.locked hlock).1
  quiet _ _ h hlock := by rwa [HasLock, h.lockQueue]

/-- To have the lock, and no more executions than those seen under it. -/
theorem steady_atMost {active : List (JobId × ℕ)} : LockSteady p t fun w ↦ HasLock p t w ∧
    (w.dispatcher p).active.Sublist active where
  rely _ _ h hw := ⟨(h.locked hw.1).1, (h.locked hw.1).2.trans hw.2⟩
  quiet _ _ h hw := ⟨steady_hasLock.quiet _ _ h hw.1, h.active ▸ hw.2⟩

/-- Under the lock, there is room for an execution of the job. -/
structure HasRoom (p t : ℕ) (jobId : JobId) (w : World) : Prop where
  lock : HasLock p t w
  room : (w.dispatcher p).active.length < w.maxConcurrent
  inactive : ∀ entry ∈ (w.dispatcher p).active, entry.1 ≠ jobId

theorem steady_hasRoom {jobId : JobId} : LockSteady p t (HasRoom p t jobId) where
  rely _ _ h hw :=
    have hkept := h.locked hw.lock
    ⟨hkept.1, by rw [h.maxConcurrent]; exact hkept.2.length_le.trans_lt hw.room,
      fun entry hentry ↦ hw.inactive entry (hkept.2.subset hentry)⟩
  quiet _ _ h hw := ⟨steady_hasLock.quiet _ _ h hw.lock,
    by rw [h.active, h.maxConcurrent]; exact hw.room, by rw [h.active]; exact hw.inactive⟩

/-- A step on the own memory that adds nothing to `active`. -/
theorem CapacityInv.setDispatcher (hinv : CapacityInv w) {memory : DispatcherMemory}
    (h : memory.active.Sublist (w.dispatcher p).active) :
    CapacityInv (w.setDispatcher p memory) := by
  have hactive (q : ℕ) : ((w.setDispatcher p memory).dispatcher q).active.Sublist
      (w.dispatcher q).active := by
    by_cases hq : q = p
    · subst hq
      simpa [World.setDispatcher] using h
    · simp [World.setDispatcher, hq]
  exact ⟨fun q ↦ (hactive q).length_le.trans (hinv.bounded q),
    fun q ↦ (hinv.once q).sublist ((hactive q).map _)⟩

/-! ### Rules -/

section Rules

variable {A B : Type} {label : RuntimeStep} {J : World → Prop}

theorem capacityProtocol_refl (n : ℕ) (w : World) : capacityProtocol.guar p t n w w :=
  ⟨.refl .all p t n w, (QuietStep.refl p w).guar⟩

/-- A quiet step that does not touch attempts. -/
theorem capacity_quiet (hinv : capacityProtocol.inv n w) (hsame : SameAttempts w w')
    (hquiet : QuietStep p w w') :
    capacityProtocol.inv n w' ∧ capacityProtocol.guar p t n w w' :=
  ⟨⟨hsame.inv hinv.1, hquiet.inv hinv.2⟩, hsame.guar .all p t n, hquiet.guar⟩

theorem carries_atomic (hJ : LockSteady p t J) {f : World → Except RuntimeError A × World}
    (h : ∀ w, SameAttempts w (f w).2 ∧ QuietStep p w (f w).2) :
    capacityProtocol.Carries p t J (.atomic label f : Runtime A) :=
  fun _ hs ↦ safe_atomic fun w _ _ hinv hrely _ ↦
    have hstep := capacity_quiet (p := p) (t := t) hinv (h w).1 (h w).2
    ⟨hstep.1, hstep.2, hJ.quiet _ _ (h w).2 (hJ.rely _ _ hrely.2 hs)⟩

theorem carries_read (hJ : LockSteady p t J) {f : World → Except RuntimeError A} :
    capacityProtocol.Carries p t J (.read label f : Runtime A) :=
  .read capacityProtocol_refl fun h hs ↦ hJ.rely _ _ h.2 hs

theorem carries_await (hJ : LockSteady p t J) {guard : World → Bool}
    {f : World → Except RuntimeError A} :
    capacityProtocol.Carries p t J (.await label guard fun w ↦ (f w, w) : Runtime A) :=
  .await capacityProtocol_refl fun h hs ↦ hJ.rely _ _ h.2 hs

theorem carries_storeRead (hJ : LockSteady p t J) {f : World → Except RuntimeError A} :
    capacityProtocol.Carries p t J (storeRead label f) :=
  carries_read hJ

theorem carries_askOutside (hJ : LockSteady p t J) {answer : Outside → Except RuntimeError A} :
    capacityProtocol.Carries p t J (askOutside answer) :=
  carries_read hJ

theorem carries_storeWrite (hJ : LockSteady p t J) {f : World → Except RuntimeError A × World}
    (h : ∀ w, SameAttempts w (f w).2 ∧ (f w).2.maxConcurrent = w.maxConcurrent ∧
      (f w).2.dispatcher = w.dispatcher) :
    capacityProtocol.Carries p t J (storeWrite label f) :=
  carries_atomic hJ fun w ↦ by
    split
    · exact ⟨.refl w, .refl p w⟩
    · exact ⟨(h w).1, .of_eq (h w).2.1 (h w).2.2⟩

/-- The programs of a conductor are quiet. -/
theorem conductorProtocol_under_capacity {L : License} (hJ : LockSteady p t J) :
    (conductorProtocol L).Under capacityProtocol p t J where
  inv hinv := hinv.1
  rely hrely := hrely.1
  ok _ := trivial
  keep _ hrely hs := hJ.rely _ _ hrely.2 hs
  step {n m l s s'} _ _ hinv _ hs hinv' hg :=
    have hquiet : QuietStep p s s' := .of_eq hg.2.maxConcurrent hg.2.dispatcher
    ⟨⟨hinv', hquiet.inv hinv.2⟩, ⟨hg.1.mono (License.all_includes L), hquiet.guar⟩,
      hJ.quiet _ _ hquiet hs⟩
  pre {_ _ k _} _ _ _ hpre := by
    cases k <;> first | exact hpre | exact nomatch hpre

theorem carries_conductor {L : License} (hJ : LockSteady p t J) {prog : Runtime A}
    (h : (conductorProtocol L).Keeps p t prog) : capacityProtocol.Carries p t J prog :=
  fun s hs ↦ ((h s).lift (conductorProtocol_under_capacity hJ) hs).mono fun _ _ hr ↦ hr.2

/-- A program of a conductor without a license. -/
theorem carries_plain (hJ : LockSteady p t J) {prog : Runtime A}
    (h : (conductorProtocol {}).Keeps p t prog) : capacityProtocol.Carries p t J prog :=
  carries_conductor hJ h

/-- What carries nothing in particular. -/
theorem carries_true {prog : Runtime A} :
    capacityProtocol.Carries p t (fun _ ↦ True) prog ↔ capacityProtocol.Keeps p t prog :=
  ⟨fun h s ↦ h s trivial, fun h s _ ↦ h s⟩

end Rules

/-! ### The queue store -/

section Programs

variable {A : Type} {J : World → Prop}

namespace QueueStore

theorem carries_readAs (hJ : LockSteady p t J) {label : RuntimeStep} {jobId : JobId} :
    capacityProtocol.Carries p t J (readAs label jobId) :=
  carries_storeRead hJ

theorem carries_readItems (hJ : LockSteady p t J) (jobIds : List JobId) :
    capacityProtocol.Carries p t J (readItems jobIds) := by
  induction jobIds with
  | nil => exact .ret _
  | cons jobId rest ih =>
    exact Carries.bind (carries_readAs hJ) fun item ↦ ih.bind fun items ↦ .ret _

theorem carries_list (hJ : LockSteady p t J) : capacityProtocol.Carries p t J list :=
  Carries.bind (carries_storeRead hJ) fun jobIds ↦
    (carries_readItems hJ jobIds).bind fun _ ↦ .ret _

theorem carries_enqueue (hJ : LockSteady p t J) {contract : JobContract} {options : QueueOptions} :
    capacityProtocol.Carries p t J (enqueue contract options) := by
  refine Carries.bind (carries_storeWrite hJ fun w ↦ ?_) fun item ↦ ?_
  · split
    · exact ⟨⟨rfl, rfl, rfl, rfl, rfl, rfl⟩, rfl, rfl⟩
    · exact ⟨.refl w, rfl, rfl⟩
  · cases item with
    | some item => exact .ret _
    | none =>
      exact Carries.bind (carries_readAs hJ) fun _ ↦ .ite (fun _ ↦ .ret _) fun _ ↦ .ret _

/-- A commit keeps what is carried, and returns an item of the same job. -/
theorem safe_commitQueueUpdate (hJ : LockSteady p t J) {item : QueueItem} {patch : QueuePatch}
    {validate : QueueItem → QueueItem → Except RuntimeError Unit} {s : World} (hs : J s) :
    capacityProtocol.Safe p t (fun r w ↦ J w ∧ ∀ i, r = .ok i → i.jobId = item.jobId)
      (commitQueueUpdate item patch validate) s := by
  have hpush {current updated : QueueItem} :
      capacityProtocol.Carries p t J (pushItem current updated) := by
    refine carries_storeWrite hJ fun w ↦ ?_
    split
    · exact ⟨⟨rfl, rfl, rfl, rfl, rfl, rfl⟩, rfl, rfl⟩
    · exact ⟨.refl w, rfl, rfl⟩
  have herror {e : RuntimeError} {w : World} (hw : J w) :
      J w ∧ ∀ i, (.error e : Except RuntimeError QueueItem) = .ok i → i.jobId = item.jobId :=
    ⟨hw, fun _ h ↦ nomatch h⟩
  refine Safe.bind (carries_readAs hJ s hs) (fun current s₁ hs₁ ↦ ?_) fun _ _ h ↦ herror h
  by_cases hcurrent : current = item
  · subst hcurrent
    rw [if_neg (by simp)]
    refine Safe.bind (carries_askOutside hJ s₁ hs₁) (fun now s₂ hs₂ ↦ ?_) fun _ _ h ↦ herror h
    cases hupdated : current.updated validate patch now with
    | error e => exact herror hs₂
    | ok updated =>
      have hcommit : capacityProtocol.Carries p t J (commitItem current updated) :=
        Carries.bind hpush fun _ ↦ carries_storeRead hJ
      show capacityProtocol.Safe p t _
        ((commitItem current updated).bind fun _ ↦ .ret (.ok updated)) s₂
      refine (hcommit s₂ hs₂).bind (fun _ s₃ hs₃ ↦ ?_) fun _ _ h ↦ herror h
      refine ⟨hs₃, fun i hi ↦ ?_⟩
      rw [← Except.ok.inj hi, (QueueItem.updated_ok hupdated).1, QueueItem.merge_jobId]
  · rw [if_pos hcurrent]
    exact herror hs₁

theorem carries_commitQueueUpdate (hJ : LockSteady p t J) {item : QueueItem} {patch : QueuePatch}
    {validate : QueueItem → QueueItem → Except RuntimeError Unit} :
    capacityProtocol.Carries p t J (commitQueueUpdate item patch validate) :=
  fun _ hs ↦ (safe_commitQueueUpdate hJ hs).mono fun _ _ h ↦ h.1

theorem carries_update (hJ : LockSteady p t J) {item : QueueItem} {patch : QueuePatch} :
    capacityProtocol.Carries p t J (update item patch) :=
  carries_commitQueueUpdate hJ

theorem carries_acquireLease (hJ : LockSteady p t J) :
    capacityProtocol.Carries p t J (acquireLease self) :=
  carries_storeWrite hJ fun w ↦ by
    split
    · exact ⟨⟨rfl, rfl, rfl, rfl, rfl, rfl⟩, rfl, rfl⟩
    · exact ⟨.refl w, rfl, rfl⟩

theorem carries_releaseLease (hJ : LockSteady p t J) {lease : QueueLease} :
    capacityProtocol.Carries p t J (releaseLease lease) :=
  carries_storeWrite hJ fun w ↦ by
    split
    · exact ⟨⟨rfl, rfl, rfl, rfl, rfl, rfl⟩, rfl, rfl⟩
    · exact ⟨.refl w, rfl, rfl⟩

end QueueStore

/-! ### The dispatcher -/

namespace Dispatcher

open QueueStore

theorem carries_setMemory (hJ : LockSteady self.process t J) {label : RuntimeStep}
    {f : DispatcherMemory → DispatcherMemory}
    (hf : ∀ memory, (f memory).lockQueue = memory.lockQueue ∧ (f memory).active = memory.active) :
    capacityProtocol.Carries self.process t J (setMemory self label f) :=
  carries_atomic (f := fun w ↦
    (.ok (), w.setDispatcher self.process (f (w.dispatcher self.process)))) hJ fun _ ↦
      ⟨⟨rfl, rfl, rfl, rfl, rfl, rfl⟩, .setDispatcher (hf _).1 (hf _).2⟩

theorem carries_getMemory (hJ : LockSteady p t J) :
    capacityProtocol.Carries p t J (getMemory self) :=
  carries_read hJ

theorem carries_blocked (hJ : LockSteady p t J) :
    capacityProtocol.Carries p t J (blocked : Runtime A) :=
  carries_await hJ

/-! ### The lock -/

/-- **The state lock.** What runs under it has it to the end. -/
theorem keeps_withStateLock {operation : Runtime A}
    (h : capacityProtocol.Carries self.process self.thread (HasLock self.process self.thread)
      operation) :
    capacityProtocol.Keeps self.process self.thread (withStateLock self operation) := by
  have hsame {w : World} {memory : DispatcherMemory} :
      SameAttempts w (w.setDispatcher self.process memory) := ⟨rfl, rfl, rfl, rfl, rfl, rfl⟩
  have henter : capacityProtocol.Keeps self.process self.thread
      (setMemory self .enterLock fun memory ↦
        { memory with lockQueue := memory.lockQueue ++ [self.thread] }) := by
    intro s
    refine safe_modify fun w n _ hinv _ _ ↦ ⟨⟨hsame.inv hinv.1, hinv.2.setDispatcher (.refl _)⟩,
      ⟨hsame.guar .all _ _ n, rfl, fun q hq ↦ Function.update_of_ne hq .., .inr (.inl ?_),
        .inl ?_⟩, trivial⟩
    · simp [World.setDispatcher]
    · simp [World.setDispatcher]
  have hwait (s : World) : capacityProtocol.Safe self.process self.thread
      (fun _ w ↦ HasLock self.process self.thread w)
      (.await .awaitLock
        (fun w ↦ (w.dispatcher self.process).lockQueue.head? = some self.thread)
        fun w ↦ (.ok (), w) : Runtime Unit) s := by
    intro w n _ hinv _ hguard _
    have hlock : HasLock self.process self.thread w := by simpa [HasLock] using hguard
    exact ⟨hinv, capacityProtocol_refl n w, fun _ _ hi ↦ absurd hi (by simp), hlock⟩
  have hrelease (s : World) (hs : HasLock self.process self.thread s) :
      capacityProtocol.Safe self.process self.thread (fun _ _ ↦ True)
        (setMemory self .releaseLock fun memory ↦
          { memory with lockQueue := memory.lockQueue.tail }) s := by
    refine safe_modify fun w n _ hinv hrely _ ↦ ⟨⟨hsame.inv hinv.1, hinv.2.setDispatcher (.refl _)⟩,
      ⟨hsame.guar .all _ _ n, rfl, fun q hq ↦ Function.update_of_ne hq .., .inr (.inr ?_),
        .inl ?_⟩, trivial⟩
    · have hlock : HasLock self.process self.thread w := (hrely.2.locked hs).1
      simpa [World.setDispatcher] using (List.cons_head?_tail hlock).symm
    · simp [World.setDispatcher]
  intro s
  refine (henter s).bind (fun _ s₁ _ ↦ ?_) fun _ _ _ ↦ trivial
  refine (hwait s₁).bind (fun _ s₂ hlock ↦ ?_) fun _ _ _ ↦ trivial
  refine (h s₂ hlock).ensuring fun r s₃ hlock' ↦ ?_
  exact (hrelease s₃ hlock').mono fun r _ _ ↦ by cases r <;> trivial

/-! ### A dispatch pass -/

section Pass

variable {items : List QueueItem} {item : QueueItem} {deps : List QueueItem}

/-- **An execution is entered in the room seen for it.** -/
theorem safe_startExecution {running : QueueItem} {s : World}
    (hs : HasRoom self.process self.thread running.jobId s) :
    capacityProtocol.Safe self.process self.thread
      (fun _ w ↦ HasLock self.process self.thread w) (startExecution self running) s := by
  intro w n _ hinv hrely _ _
  have hroom := steady_hasRoom.rely _ _ hrely.2 hs
  let memory := w.dispatcher self.process
  let w' := w.setDispatcher self.process
    { memory with active := memory.active ++ [(running.jobId, n)] }
  have hsame : SameAttempts w w' := ⟨rfl, rfl, rfl, rfl, rfl, rfl⟩
  have hmemory : (w'.dispatcher self.process).active = memory.active ++ [(running.jobId, n)] := by
    simp [w', World.setDispatcher]
  have hlock : (w'.dispatcher self.process).lockQueue = memory.lockQueue := by
    simp [w', World.setDispatcher]
  have hothers (q : ℕ) (hq : q ≠ self.process) : w'.dispatcher q = w.dispatcher q :=
    Function.update_of_ne hq ..
  have hcapacity : CapacityInv w' := by
    constructor
    · intro q
      by_cases hq : q = self.process
      · subst hq
        rw [hmemory, List.length_append]
        exact hroom.room
      · rw [hothers q hq]
        exact hinv.2.bounded q
    · intro q
      by_cases hq : q = self.process
      · subst hq
        rw [hmemory, List.map_append]
        refine List.nodup_append.2 ⟨hinv.2.once _, List.nodup_singleton _, ?_⟩
        rintro jobId hjobId _ hrunning rfl
        obtain ⟨entry, hentry, rfl⟩ := List.mem_map.1 hjobId
        exact hroom.inactive entry hentry (List.mem_singleton.1 hrunning)
      · rw [hothers q hq]
        exact hinv.2.once q
  refine ⟨⟨(hsame.inv hinv.1).mono (Nat.le_succ n), hcapacity⟩,
    ⟨hsame.guar .all _ _ n, rfl, hothers, .inl hlock, .inr hroom.lock⟩, ?_, ?_⟩
  · rintro (_ | i) call hcall
    · obtain rfl := Option.some.inj hcall
      exact trivial
    · exact absurd hcall (by simp)
  · show HasLock self.process self.thread w'
    rw [HasLock, hlock]
    exact hroom.lock

theorem carries_reservationRejected (hJ : LockSteady p t J) {dispatching : QueueItem}
    {error : RuntimeError} :
    capacityProtocol.Carries p t J (reservationRejected dispatching error) := by
  refine Carries.bind (carries_read hJ) fun _ ↦ ?_
  cases error with
  | proposalLineage reason => exact Carries.bind (carries_update hJ) fun _ ↦ .ret _
  | _ => exact .ret _

/-- The room seen for an item is still there when its execution starts. -/
theorem safe_dispatchItem {s : World} (hs : HasRoom self.process self.thread item.jobId s) :
    capacityProtocol.Safe self.process self.thread
      (fun _ w ↦ HasLock self.process self.thread w) (dispatchItem self items item deps) s := by
  have hroom : LockSteady self.process self.thread (HasRoom self.process self.thread item.jobId) :=
    steady_hasRoom
  have hlock : ∀ w, HasRoom self.process self.thread item.jobId w →
      HasLock self.process self.thread w := fun _ h ↦ h.lock
  have hselect : capacityProtocol.Carries self.process self.thread
      (HasRoom self.process self.thread item.jobId) (newDispatchOperation item items) :=
    carries_atomic hroom fun w ↦ ⟨⟨rfl, rfl, rfl, rfl, rfl, rfl⟩, .of_eq rfl rfl⟩
  have hfailpoint (point : DispatchFailpointName) :
      capacityProtocol.Carries self.process self.thread
        (HasRoom self.process self.thread item.jobId) (reachFailpoint point) :=
    carries_askOutside hroom
  have hreserve {parents : List AttemptId} {operation : Option Uuid} :
      capacityProtocol.Carries self.process self.thread
        (HasRoom self.process self.thread item.jobId)
        (Conductor.reservePreparedAttempt item.jobId parents operation) :=
    carries_conductor hroom (Safe.keeps fun _ ↦ Conductor.safe_reservePreparedAttempt)
  refine Carries.followed (.ret _) hlock (fun parents s₁ hs₁ ↦ ?_) hs
  refine hselect.followed hlock (fun operation s₂ hs₂ ↦ ?_) hs₁
  refine Safe.bind (safe_commitQueueUpdate hroom hs₂) (fun dispatching s₃ ⟨hs₃, hjob⟩ ↦ ?_)
    fun _ s h ↦ hlock s h.1
  have hdispatching : dispatching.jobId = item.jobId := hjob dispatching rfl
  refine (hfailpoint _).followed hlock (fun _ s₄ hs₄ ↦ ?_) hs₃
  refine hreserve.attempt.followed hlock (fun reservation s₅ hs₅ ↦ ?_) hs₄
  cases reservation with
  | error error =>
    refine (carries_reservationRejected hroom).followed hlock (fun _ s₆ hs₆ ↦ ?_) hs₅
    exact hlock s₆ hs₆
  | ok reserved =>
    refine (hfailpoint _).followed hlock (fun _ s₆ hs₆ ↦ ?_) hs₅
    refine Safe.bind (safe_commitQueueUpdate hroom hs₆) (fun running s₇ ⟨hs₇, hjob⟩ ↦ ?_)
      fun _ s h ↦ hlock s h.1
    have hrunning : running.jobId = item.jobId := (hjob running rfl).trans hdispatching
    refine (hfailpoint _).followed hlock (fun _ s₈ hs₈ ↦ ?_) hs₇
    refine Safe.bind (safe_startExecution (hrunning ▸ hs₈)) (fun _ s₉ hs₉ ↦ ?_) fun _ _ h ↦ h
    exact hs₉

/-- The loop has the lock to its end: it looks at `active` and at the limit before each dispatch. -/
theorem carries_dispatchItems (rest : List QueueItem) (dispatched : ℕ) :
    capacityProtocol.Carries self.process self.thread (HasLock self.process self.thread)
      (dispatchItems self items rest dispatched) := by
  induction rest generalizing dispatched with
  | nil => exact .ret _
  | cons item rest ih =>
    intro s hs
    rw [dispatchItems]
    refine safe_read_bind capacityProtocol_refl fun w n _ _ hrely _ ↦
      ⟨fun memory hmemory ↦ ?_, fun _ he ↦ nomatch he⟩
    obtain rfl : w.dispatcher self.process = memory := Except.ok.inj hmemory
    have hlock : HasLock self.process self.thread w := (hrely.2.locked hs).1
    refine .ite (fun _ ↦ ih _ w hlock) fun hvisited ↦ ?_
    cases readiness items item with
    | failed dependency => exact Carries.bind (carries_update steady_hasLock) (fun _ ↦ ih _) w hlock
    | waiting => exact ih _ w hlock
    | ready deps =>
      refine safe_read_bind capacityProtocol_refl fun w' n' _ _ hrely' _ ↦
        ⟨fun maxConcurrent hmax ↦ ?_, fun _ he ↦ nomatch he⟩
      obtain rfl : w'.maxConcurrent = maxConcurrent := Except.ok.inj hmax
      obtain ⟨hlock', hatMost⟩ := hrely'.2.locked hlock
      refine .ite (fun _ ↦ hlock') fun hfull ↦ ?_
      -- what was seen of `active` can only have become less
      have hroom : HasRoom self.process self.thread item.jobId w' := by
        refine ⟨hlock', hatMost.length_le.trans_lt (not_le.1 hfull), fun entry hentry heq ↦ ?_⟩
        exact hvisited (.inr (List.any_eq_true.2
          ⟨entry, hatMost.subset hentry, decide_eq_true heq⟩))
      refine (safe_dispatchItem hroom).bind (fun _ s₁ hs₁ ↦ ?_) fun _ _ h ↦ h
      exact .ite (fun _ ↦ ih _ s₁ hs₁) fun _ ↦ ih _ s₁ hs₁

theorem keeps_dispatchAvailable {submitted : Bool} :
    capacityProtocol.Keeps self.process self.thread (dispatchAvailable self submitted) := by
  refine keeps_withStateLock (Carries.bind (carries_atomic steady_hasLock fun w ↦ ?_) fun _ ↦
    Carries.ensuring ?_ (carries_setMemory steady_hasLock fun _ ↦ ⟨rfl, rfl⟩))
  · dsimp only
    split
    · exact ⟨.refl w, .refl _ w⟩
    · exact ⟨⟨rfl, rfl, rfl, rfl, rfl, rfl⟩, .setDispatcher rfl rfl⟩
  · exact Carries.bind (carries_list steady_hasLock) fun items ↦ carries_dispatchItems items 0

end Pass

/-! ### The execution of an item -/

theorem carries_finishItem (hJ : LockSteady p t J) {item : QueueItem}
    {result : AttemptCompletionEvidence} :
    capacityProtocol.Carries p t J (finishItem item result) :=
  Carries.bind (carries_readAs hJ) fun _ ↦ Carries.bind (carries_askOutside hJ) fun _ ↦
    Carries.bind (carries_update hJ) fun _ ↦ .ret _

theorem carries_claimAndLaunch (hJ : LockSteady self.process self.thread J) {item : QueueItem} :
    capacityProtocol.Carries self.process self.thread J (claimAndLaunch self item) := by
  refine Carries.bind (carries_readAs hJ) fun current ↦ ?_
  split
  · exact Carries.bind (carries_conductor hJ Conductor.keeps_claimReservedAttempt) fun _ ↦
      Carries.bind (carries_askOutside hJ) fun _ ↦
        Carries.bind (carries_conductor hJ Conductor.keeps_launchClaimedAttempt) fun _ ↦ .ret _
  · exact .ret _

theorem carries_waitForAttempt (hJ : LockSteady self.process self.thread J)
    {attemptId : AttemptId} :
    capacityProtocol.Carries self.process self.thread J
      (Conductor.waitForAttempt self attemptId) :=
  carries_plain hJ (Safe.keeps fun _ ↦ Conductor.safe_waitForAttempt)

theorem keeps_executeItem {item : QueueItem} :
    capacityProtocol.Keeps self.process self.thread (executeItem self item) := by
  have hfail (error : RuntimeError) :
      capacityProtocol.Keeps self.process self.thread (withStateLock self (failItem item error)) :=
    keeps_withStateLock <| Carries.bind (carries_readAs steady_hasLock) fun _ ↦
      .ite (fun _ ↦ .ret _) fun _ ↦ Carries.bind (carries_update steady_hasLock) fun _ ↦ .ret _
  refine Keeps.catching ?_ fun error ↦ ?_
  · refine (keeps_withStateLock (carries_claimAndLaunch steady_hasLock)).bind fun launched ↦ ?_
    cases launched with
    | none => exact keeps_ret _
    | some attemptId =>
      exact Keeps.bind (carries_true.1 (carries_waitForAttempt steady_true)) fun _ ↦
        keeps_withStateLock (carries_finishItem steady_hasLock)
  · cases error with
    | dispatchFailpoint point cause => exact keeps_ret _
    | _ => exact hfail _

/-- **An execution takes itself out of `active`**, without the lock. -/
theorem keeps_runExecution {item : QueueItem} :
    capacityProtocol.Keeps self.process self.thread (runExecution self item) := by
  have hleave : capacityProtocol.Keeps self.process self.thread
      (setMemory self .memory fun memory ↦
        { memory with active := memory.active.filter fun entry ↦ entry.1 ≠ item.jobId }) := by
    intro s
    refine safe_modify fun w n _ hinv _ _ ↦ ?_
    let memory := w.dispatcher self.process
    let left := { memory with active := memory.active.filter fun entry ↦ entry.1 ≠ item.jobId }
    have hsame : SameAttempts w (w.setDispatcher self.process left) :=
      ⟨rfl, rfl, rfl, rfl, rfl, rfl⟩
    have hsublist : left.active.Sublist memory.active := List.filter_sublist
    have hmemory : (w.setDispatcher self.process left).dispatcher self.process = left :=
      Function.update_self ..
    refine ⟨⟨hsame.inv hinv.1, hinv.2.setDispatcher hsublist⟩, ⟨hsame.guar .all _ _ n, rfl,
      fun q hq ↦ Function.update_of_ne hq .., .inl ?_, .inl ?_⟩, trivial⟩
    · rw [hmemory]
    · rw [hmemory]
      exact hsublist
  have hsettle (ending : Except RuntimeError Unit) :
      capacityProtocol.Keeps self.process self.thread (setMemory self .settle fun memory ↦
        { memory with settled := memory.settled ++ [(self.thread, ending)] }) :=
    carries_true.1 (carries_setMemory steady_true fun _ ↦ ⟨rfl, rfl⟩)
  exact Keeps.bind (Keeps.attempt keeps_executeItem) fun ending ↦
    Keeps.bind hleave fun _ ↦ hsettle ending

/-! ### Owner requests -/

theorem carries_cancelReservedAttempt (hJ : LockSteady self.process self.thread J)
    {attemptId : AttemptId} :
    capacityProtocol.Carries self.process self.thread J
      (Conductor.cancelReservedAttempt self attemptId) :=
  carries_plain hJ (Safe.keeps fun _ ↦ Conductor.safe_cancelReservedAttempt)

theorem carries_cancelAttempt (hJ : LockSteady self.process self.thread J)
    {attemptId : AttemptId} :
    capacityProtocol.Carries self.process self.thread J (Conductor.cancelAttempt self attemptId) :=
  carries_conductor hJ Conductor.keeps_cancelAttempt

theorem carries_getAttempt (hJ : LockSteady p t J) {attemptId : AttemptId} :
    capacityProtocol.Carries p t J (Conductor.getAttempt attemptId) :=
  carries_storeRead hJ

theorem keeps_cancel {jobId : JobId} :
    capacityProtocol.Keeps self.process self.thread (cancel self jobId) := by
  have hJ := steady_hasLock (p := self.process) (t := self.thread)
  refine keeps_withStateLock (Carries.bind (carries_readAs hJ) fun item ↦
    .ite (fun _ ↦ .ret _) fun _ ↦ ?_)
  dsimp only
  split
  · refine Carries.bind (carries_update hJ) fun cancelling ↦
      Carries.bind (carries_cancelAttempt hJ) fun requested ↦ .ite (fun _ ↦ ?_) fun _ ↦ .ret _
    exact Carries.bind (carries_cancelReservedAttempt hJ) fun attempt ↦
      .ite (fun _ ↦ carries_update hJ) fun _ ↦ .ret _
  · exact .ret _
  · split
    · exact Carries.bind (carries_cancelReservedAttempt hJ) fun _ ↦ carries_update hJ
    · exact carries_update hJ

theorem keeps_retry {jobId : JobId} :
    capacityProtocol.Keeps self.process self.thread (retry self jobId) := by
  have hJ := steady_hasLock (p := self.process) (t := self.thread)
  refine keeps_withStateLock (Carries.bind (carries_readAs hJ) fun item ↦
    .ite (fun _ ↦ .ret _) fun _ ↦ ?_)
  cases item.attemptId with
  | none => exact carries_update hJ
  | some attemptId =>
    have hrelease : capacityProtocol.Carries self.process self.thread
        (HasLock self.process self.thread)
        (Conductor.releaseAttemptExternalResources self attemptId) :=
      carries_plain hJ (Safe.keeps fun _ ↦ Conductor.safe_releaseAttemptExternalResources)
    exact Carries.bind (carries_getAttempt hJ) fun attempt ↦ .ite (fun _ ↦ .ret _) fun _ ↦
      hrelease.bind fun _ ↦ carries_update hJ

/-! ### Startup recovery -/

theorem carries_recoverDispatching (hJ : LockSteady p t J) (attempts : List AttemptManifest)
    (items : List QueueItem) :
    capacityProtocol.Carries p t J (recoverDispatching attempts items) := by
  induction items with
  | nil => exact .ret _
  | cons item rest ih =>
    exact .ite (fun _ ↦ Carries.bind (carries_update hJ) fun _ ↦ ih) fun _ ↦ ih

theorem carries_recoverInterruptedAttempt (hJ : LockSteady self.process self.thread J)
    {attemptId : AttemptId} :
    capacityProtocol.Carries self.process self.thread J
      (Conductor.recoverInterruptedAttempt self attemptId) :=
  carries_plain hJ (Safe.keeps fun _ ↦ Conductor.safe_recoverInterruptedAttempt)

theorem carries_settleRecovered (hJ : LockSteady p t J) {item : QueueItem} {attemptId : AttemptId}
    {disposition : Conductor.Disposition} {manifest : AttemptManifest} :
    capacityProtocol.Carries p t J (settleRecovered item attemptId disposition manifest) := by
  have hupdate {item : QueueItem} {patch : QueuePatch} :
      capacityProtocol.Carries p t J (do
        let _ ← QueueStore.update item patch
        return () : Runtime Unit) := Carries.bind (carries_update hJ) fun _ ↦ .ret _
  refine .ite (fun _ ↦ ?_) fun _ ↦ ?_
  · exact Carries.bind (carries_storeRead hJ) fun contract ↦ .ite (fun _ ↦ hupdate) fun _ ↦ hupdate
  · exact Carries.bind (carries_plain hJ Conductor.keeps_getAttemptCleanup).attempt fun _ ↦ hupdate

theorem carries_recoverActive (hJ : LockSteady self.process self.thread J)
    (items : List QueueItem) :
    capacityProtocol.Carries self.process self.thread J (recoverActive self items) := by
  have hitem (item : QueueItem) :
      capacityProtocol.Carries self.process self.thread J (recoverActiveItem self item) := by
    rw [recoverActiveItem]
    cases item.attemptId with
    | none => exact Carries.bind (carries_update hJ) fun _ ↦ .ret _
    | some attemptId =>
      refine Carries.bind (carries_getAttempt hJ) fun manifest ↦ .ite (fun _ ↦ ?_) fun _ ↦ ?_
      · exact Carries.bind (carries_waitForAttempt hJ) fun _ ↦ carries_finishItem hJ
      · exact Carries.bind (carries_recoverInterruptedAttempt hJ) fun _ ↦ carries_settleRecovered hJ
  induction items with
  | nil => exact .ret _
  | cons item rest ih => exact .ite (fun _ ↦ Carries.bind (hitem item) fun _ ↦ ih) fun _ ↦ ih

theorem carries_recoverUnreferenced (hJ : LockSteady self.process self.thread J)
    (referenced : List AttemptId) (attempts : List AttemptManifest) :
    capacityProtocol.Carries self.process self.thread J
      (recoverUnreferenced self referenced attempts) := by
  induction attempts with
  | nil => exact .ret _
  | cons attempt rest ih =>
    exact .ite (fun _ ↦ Carries.bind (carries_recoverInterruptedAttempt hJ) fun _ ↦ ih) fun _ ↦ ih

theorem carries_listAttempts (hJ : LockSteady p t J) :
    capacityProtocol.Carries p t J ArtifactStore.listAttempts := by
  have hread (attemptIds : List AttemptId) :
      capacityProtocol.Carries p t J (ArtifactStore.readAttempts attemptIds) := by
    induction attemptIds with
    | nil => exact .ret _
    | cons attemptId rest ih =>
      exact Carries.bind (carries_storeRead hJ) fun _ ↦ ih.bind fun _ ↦ .ret _
  exact Carries.bind (carries_storeRead hJ) fun _ ↦ (hread _).bind fun _ ↦ .ret _

theorem carries_recoverInterruptedItems (hJ : LockSteady self.process self.thread J) :
    capacityProtocol.Carries self.process self.thread J (recoverInterruptedItems self) :=
  Carries.bind (carries_listAttempts hJ) fun attempts ↦ Carries.bind (carries_list hJ) fun items ↦
    (carries_recoverDispatching hJ attempts items).bind fun _ ↦
      Carries.bind (carries_list hJ) fun items ↦ (carries_recoverActive hJ items).bind fun _ ↦
        Carries.bind (carries_list hJ) fun _ ↦ carries_recoverUnreferenced hJ _ attempts

/-! ### The loop and its exits -/

/-- A quiet step on the own memory. -/
theorem keeps_setMemory {label : RuntimeStep} {f : DispatcherMemory → DispatcherMemory}
    (hf : ∀ memory, (f memory).lockQueue = memory.lockQueue ∧ (f memory).active = memory.active) :
    capacityProtocol.Keeps self.process t (setMemory self label f) :=
  carries_true.1 (carries_setMemory steady_true hf)

theorem keeps_getMemory : capacityProtocol.Keeps p t (getMemory self) :=
  carries_true.1 (carries_getMemory steady_true)

theorem keeps_acquireLease : capacityProtocol.Keeps self.process t (acquireLease self) := by
  refine Keeps.bind (carries_true.1 (QueueStore.carries_acquireLease steady_true)) fun lease ↦ ?_
  cases lease with
  | none => exact keeps_ret _
  | some lease => exact keeps_setMemory fun _ ↦ ⟨rfl, rfl⟩

theorem keeps_releaseLease : capacityProtocol.Keeps self.process t (releaseLease self) := by
  refine Keeps.bind (carries_true.1 (carries_atomic steady_true fun _ ↦
    ⟨⟨rfl, rfl, rfl, rfl, rfl, rfl⟩, .setDispatcher rfl rfl⟩)) fun lease ↦ ?_
  cases lease with
  | none => exact keeps_ret _
  | some lease => exact carries_true.1 (QueueStore.carries_releaseLease steady_true)

theorem keeps_cancelActiveAttempts :
    capacityProtocol.Keeps self.process self.thread (cancelActiveAttempts self) := by
  have habort (items : List QueueItem) :
      capacityProtocol.Keeps self.process self.thread (abortActive self items) := by
    induction items with
    | nil => exact keeps_ret _
    | cons item rest ih =>
      rw [abortActive]
      cases item.attemptId with
      | none => exact ih
      | some attemptId =>
        exact .ite (Keeps.bind (carries_true.1 (carries_cancelAttempt steady_true)) fun _ ↦ ih) ih
  exact Keeps.bind (carries_true.1 (carries_list steady_true)) fun items ↦ habort items

theorem keeps_drain : capacityProtocol.Keeps self.process t (drain self) :=
  Keeps.bind (carries_true.1 (carries_atomic steady_true fun _ ↦
    ⟨⟨rfl, rfl, rfl, rfl, rfl, rfl⟩, .setDispatcher rfl rfl⟩)) fun _ ↦
      carries_true.1 (carries_await steady_true)

/-- What an error of the loop leads to. -/
theorem keeps_abandonLoop {error : RuntimeError} :
    capacityProtocol.Keeps self.process self.thread (do
      cancelActiveAttempts self
      drain self
      throw error : Runtime Unit) :=
  Keeps.bind keeps_cancelActiveAttempts fun _ ↦ Keeps.bind keeps_drain fun _ ↦ keeps_ret _

theorem keeps_decideIdle {candidate : Bool} :
    capacityProtocol.Keeps self.process t (decideIdle self candidate) :=
  carries_true.1 <| carries_atomic steady_true fun w ↦ by
    dsimp only
    split
    · exact ⟨⟨rfl, rfl, rfl, rfl, rfl, rfl⟩, .setDispatcher rfl rfl⟩
    · exact ⟨.refl w, .refl _ w⟩

theorem keeps_runLoop (exitWhenIdle : Bool) (fuel : ℕ) :
    capacityProtocol.Keeps self.process self.thread (runLoop self exitWhenIdle fuel) := by
  induction fuel with
  | zero => exact carries_true.1 (carries_blocked steady_true)
  | succ fuel ih =>
    refine Keeps.bind keeps_getMemory fun memory ↦ .ite keeps_drain ?_
    cases memory.lease with
    | none => exact keeps_ret _
    | some lease =>
      have hrenew : capacityProtocol.Keeps self.process self.thread
          (QueueStore.renewLease self lease) := carries_true.1 (carries_storeRead steady_true)
      have hrace (active : List (JobId × ℕ)) :
          capacityProtocol.Keeps self.process self.thread (raceActive self active) :=
        carries_true.1 (carries_await steady_true)
      refine hrenew.bind fun renewed ↦ Keeps.bind (keeps_setMemory fun _ ↦ ⟨rfl, rfl⟩) fun _ ↦
        Keeps.bind keeps_dispatchAvailable fun dispatched ↦
          Keeps.bind keeps_decideIdle fun active ↦ ?_
      cases active with
      | none => exact keeps_ret _
      | some active => exact (hrace active).bind fun _ ↦ ih

theorem keeps_runLoopPromise {fuel : ℕ} :
    capacityProtocol.Keeps self.process self.thread (runLoopPromise self fuel) :=
  Keeps.bind (Keeps.attempt (Keeps.ensuring
    (Keeps.catching (keeps_runLoop false fuel) fun _ ↦ keeps_abandonLoop)
    (Keeps.bind (keeps_setMemory fun _ ↦ ⟨rfl, rfl⟩) fun _ ↦ keeps_releaseLease))) fun _ ↦
      keeps_setMemory fun _ ↦ ⟨rfl, rfl⟩

/-- The loop is forked. -/
theorem keeps_forkLoop {fuel : ℕ} :
    capacityProtocol.Keeps self.process t (.fork .memory (fun _ _ ↦ .runLoop fuel) fun w n ↦
      let memory := w.dispatcher self.process
      { w.setDispatcher self.process { memory with loop := some n } with leaseThread := some n } :
      Runtime Unit) := by
  intro s w n _ hinv _ _ _
  let memory := w.dispatcher self.process
  let w' : World :=
    { w.setDispatcher self.process { memory with loop := some n } with leaseThread := some n }
  have hquiet : QuietStep self.process w w' := by
    have hset : QuietStep self.process w
        (w.setDispatcher self.process { memory with loop := some n }) := .setDispatcher rfl rfl
    exact ⟨rfl, hset.others, hset.lockQueue, hset.active⟩
  have hsame : SameAttempts w w' := ⟨rfl, rfl, rfl, rfl, rfl, rfl⟩
  obtain ⟨hinv', hguar⟩ := capacity_quiet (t := t) hinv hsame hquiet
  refine ⟨⟨hinv'.1.mono (Nat.le_succ n), hinv'.2⟩, hguar, ?_, trivial⟩
  rintro (_ | i) call hcall
  · obtain rfl := Option.some.inj hcall
    exact trivial
  · exact absurd hcall (by simp)

theorem keeps_start {fuel : ℕ} :
    capacityProtocol.Keeps self.process self.thread (start self fuel) := by
  have habandon (error : RuntimeError) : capacityProtocol.Keeps self.process self.thread
      (abandonStart self error : Runtime Unit) := by
    rw [abandonStart]
    exact Keeps.bind (keeps_setMemory fun _ ↦ ⟨rfl, rfl⟩) fun _ ↦
      Keeps.bind keeps_releaseLease fun _ ↦ keeps_ret _
  refine Keeps.bind keeps_getMemory fun memory ↦ .ite (keeps_ret _) <|
    Keeps.bind keeps_acquireLease fun _ ↦ Keeps.bind (Keeps.catching ?_ habandon) fun _ ↦
      keeps_forkLoop
  exact Keeps.bind (keeps_setMemory fun _ ↦ ⟨rfl, rfl⟩) fun _ ↦
    carries_true.1 (carries_recoverInterruptedItems steady_true)

theorem keeps_stop {cancelActive : Bool} :
    capacityProtocol.Keeps self.process self.thread (stop self cancelActive) := by
  rw [stop]
  refine Keeps.bind (keeps_setMemory fun _ ↦ ⟨rfl, rfl⟩) fun _ ↦
    .ite (Keeps.bind keeps_cancelActiveAttempts fun _ ↦ ?_) ?_
  -- both branches go on with the wait for the loop
  all_goals
    refine Keeps.bind keeps_getMemory fun memory ↦ ?_
    cases memory.loop with
    | none => exact keeps_ret _
    | some thread => exact carries_true.1 (carries_await steady_true)

theorem keeps_runUntilIdle {fuel : ℕ} :
    capacityProtocol.Keeps self.process self.thread (runUntilIdle self fuel) := by
  refine Keeps.bind keeps_getMemory fun memory ↦ .ite (keeps_ret _) <|
    Keeps.bind keeps_acquireLease fun _ ↦ Keeps.bind (keeps_setMemory fun _ ↦ ⟨rfl, rfl⟩) fun _ ↦
      Keeps.ensuring (Keeps.catching ?_ fun _ ↦ keeps_abandonLoop) ?_
  · exact Keeps.bind (carries_true.1 (carries_recoverInterruptedItems steady_true)) fun _ ↦
      keeps_runLoop true fuel
  · exact Keeps.bind (keeps_setMemory fun _ ↦ ⟨rfl, rfl⟩) fun _ ↦ keeps_releaseLease

theorem keeps_enqueue {contract : JobContract} {options : QueueOptions} :
    capacityProtocol.Keeps p t (enqueue contract options) := by
  rw [enqueue]
  refine Keeps.bind (carries_true.1 (carries_askOutside steady_true)) fun _ ↦ ?_
  refine Keeps.bind (carries_true.1 (carries_storeWrite steady_true fun w ↦ ?_)) fun contract ↦
    .ite (keeps_ret _) (carries_true.1 (QueueStore.carries_enqueue steady_true))
  split
  · exact ⟨⟨rfl, rfl, rfl, rfl, rfl, rfl⟩, rfl, rfl⟩
  · split
    · exact ⟨.refl w, rfl, rfl⟩
    · exact ⟨.refl w, rfl, rfl⟩

theorem keeps_submit {contract : JobContract} {options : QueueOptions} {fuel : ℕ} :
    capacityProtocol.Keeps self.process self.thread (submit self contract options fuel) := by
  have hread {jobId : JobId} : capacityProtocol.Keeps self.process self.thread
      (QueueStore.read jobId) := carries_true.1 (carries_readAs steady_true)
  have hhandoff {attemptId : AttemptId} (fuel : ℕ) :
      capacityProtocol.Keeps self.process self.thread (waitForLaunchHandoff attemptId fuel) := by
    induction fuel with
    | zero => exact carries_true.1 (carries_blocked steady_true)
    | succ fuel ih =>
      rw [waitForLaunchHandoff]
      exact Keeps.bind (carries_true.1 (carries_askOutside steady_true)) fun late ↦
        .ite (keeps_ret _) <| Keeps.bind (carries_true.1 (carries_getAttempt steady_true)) fun _ ↦
          .ite (keeps_ret _) ih
  refine Keeps.bind keeps_getMemory fun memory ↦ .ite (keeps_ret _) <|
    Keeps.bind keeps_enqueue fun submission ↦ Keeps.bind keeps_dispatchAvailable fun _ ↦
      hread.bind fun item ↦ ?_
  split
  · exact (hhandoff fuel).bind fun _ ↦ hread
  · exact keeps_ret _

end Dispatcher

/-! ### The reconciler -/

namespace Reconciler

open QueueStore Dispatcher

theorem keeps_inspect : capacityProtocol.Keeps p t inspect := by
  have hcleanups (attempts : List AttemptManifest) :
      capacityProtocol.Keeps p t (readCleanups attempts) := by
    induction attempts with
    | nil => exact keeps_ret _
    | cons attempt rest ih =>
      have hcleanup : capacityProtocol.Keeps p t (Conductor.getAttemptCleanup attempt.attemptId) :=
        carries_true.1 (carries_plain steady_true Conductor.keeps_getAttemptCleanup)
      refine hcleanup.attempt.bind fun cleanup ↦ ih.bind fun cleanups ↦ ?_
      cases cleanup with
      | ok _ => exact keeps_ret _
      | error _ => exact keeps_ret _
  refine Keeps.bind (carries_true.1 (carries_storeRead steady_true)) fun ownerCanAct ↦
    Keeps.bind (Keeps.attempt (carries_true.1 (carries_list steady_true))) fun items ↦
      Keeps.bind (Keeps.attempt (carries_true.1 (carries_listAttempts steady_true))) fun attempts ↦ ?_
  cases items with
  | error _ => exact keeps_ret _
  | ok items =>
    cases attempts with
    | error _ => exact keeps_ret _
    | ok attempts => exact (hcleanups attempts).bind fun cleanups ↦ .ite (keeps_ret _) (keeps_ret _)

theorem keeps_readRuntimeActionState (proposal : ReconciliationProposal) :
    capacityProtocol.Keeps p t (readRuntimeActionState proposal) := by
  have hread {jobId : JobId} : capacityProtocol.Keeps p t (QueueStore.read jobId) :=
    carries_true.1 (carries_readAs steady_true)
  have hattempt {attemptId : AttemptId} :
      capacityProtocol.Keeps p t (Conductor.getAttempt attemptId) :=
    carries_true.1 (carries_getAttempt steady_true)
  have hcleanup {attemptId : AttemptId} :
      capacityProtocol.Keeps p t (Conductor.getAttemptCleanup attemptId) :=
    carries_true.1 (carries_plain steady_true Conductor.keeps_getAttemptCleanup)
  cases proposal with
  | resetAbandonedQueueItem item => exact hread.bind fun _ ↦ keeps_ret _
  | quarantineQueueItem item => exact hread.bind fun _ ↦ keeps_ret _
  | bindQueueToAttempt item attempt => exact hread.bind fun _ ↦ hattempt.bind fun _ ↦ keeps_ret _
  | synchronizeQueueFromTerminalAttempt item attempt cleanup =>
    exact hread.bind fun _ ↦ hattempt.bind fun _ ↦ hcleanup.bind fun _ ↦ keeps_ret _
  | recoverInterruptedAttempt attempt cleanup =>
    exact hattempt.bind fun _ ↦ hcleanup.bind fun _ ↦ keeps_ret _

theorem keeps_executeRuntimeAction (proposal : ReconciliationProposal) :
    capacityProtocol.Keeps self.process self.thread (executeRuntimeAction self proposal) := by
  have hreconcile {item : QueueItem} {patch : QueuePatch} {kind : QueueReconciliationKind} :
      capacityProtocol.Keeps self.process self.thread (QueueStore.reconcile item patch kind) :=
    carries_true.1 (carries_commitQueueUpdate steady_true)
  cases proposal with
  | resetAbandonedQueueItem item => exact hreconcile.bind fun _ ↦ keeps_ret _
  | quarantineQueueItem item => exact hreconcile.bind fun _ ↦ keeps_ret _
  | bindQueueToAttempt item attempt => exact hreconcile.bind fun _ ↦ keeps_ret _
  | synchronizeQueueFromTerminalAttempt item attempt cleanup =>
    exact .ite (keeps_ret _) <| Keeps.bind (carries_true.1 (carries_askOutside steady_true)) fun _ ↦
      hreconcile.bind fun _ ↦ keeps_ret _
  | recoverInterruptedAttempt attempt cleanup =>
    exact Keeps.bind (carries_true.1 (carries_recoverInterruptedAttempt steady_true)) fun _ ↦
      Keeps.bind (carries_true.1 (carries_plain steady_true Conductor.keeps_getAttemptCleanup))
        fun _ ↦ keeps_ret _

theorem keeps_applyRuntimeAction {proposal : ReconciliationProposal} :
    capacityProtocol.Keeps self.process self.thread (applyRuntimeAction self proposal) := by
  refine Keeps.bind keeps_inspect fun offered ↦ .ite
    ((keeps_readRuntimeActionState proposal).bind fun current ↦ .ite (keeps_ret _) ?_) ?_
  -- an action that is offered, and one whose effect is there, go on in the same way
  all_goals
    refine Keeps.bind (carries_true.1 (carries_storeRead steady_true)) fun unowned ↦
      .ite (keeps_ret _) ?_
    refine Keeps.bind (carries_true.1 (QueueStore.carries_acquireLease steady_true)) fun lease ↦ ?_
    cases lease with
    | none => exact keeps_ret _
    | some lease =>
      refine Keeps.ensuring ?_ (carries_true.1 (QueueStore.carries_releaseLease steady_true))
      exact (keeps_readRuntimeActionState proposal).bind fun current ↦
        .ite (.ite (keeps_ret _) (keeps_ret _)) (keeps_executeRuntimeAction current)

theorem keeps_reconcile {choice : ℕ} :
    capacityProtocol.Keeps self.process self.thread (reconcile self choice) := by
  refine Keeps.bind keeps_inspect fun offered ↦ ?_
  cases offered[choice]? with
  | none => exact keeps_ret _
  | some proposal => exact keeps_applyRuntimeAction

end Reconciler

end Programs

end CodeConductor
