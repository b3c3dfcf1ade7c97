import Mathlib.Data.List.ReduceOption
import CodeConductor.Gate.Protocol

/-!
# The programs of the queue keep the agreement

Almost every program of the dispatcher and of the reconciler only has to show that what it commits to
an item shows its evidence: either the patch names a status other than completed, or it is the
projection of an attempt. The exception is the dispatch of an item, which carries its selection to the
reservation.
-/

namespace CodeConductor

open Async Async.Prog Async.Protocol

variable {self : Self} {p t : ℕ} {s : World}

/-! ### Rules -/

section Rules

variable {A : Type} {label : RuntimeStep}

theorem gated_storeRead {f : World → Except RuntimeError A} :
    gatingProtocol.Keeps p t (storeRead label f) :=
  Safe.keeps fun _ ↦ safe_storeRead gatingProtocol_refl (Q := fun _ _ ↦ True)
    fun _ _ _ _ _ _ _ _ ↦ trivial

theorem gated_read {f : World → Except RuntimeError A} :
    gatingProtocol.Keeps p t (.read label f : Runtime A) :=
  keeps_read gatingProtocol_refl

theorem gated_ofResult (r : Except RuntimeError A) :
    gatingProtocol.Keeps p t (Prog.ofResult r : Runtime A) :=
  keeps_ret r

/-- A step that touches neither the queue nor an attempt. -/
theorem gated_atomic {f : World → Except RuntimeError A × World}
    (h : ∀ w, SameAttempts w (f w).2 ∧ SameQueue w (f w).2) :
    gatingProtocol.Keeps p t (.atomic label f : Runtime A) :=
  Safe.keeps fun _ ↦ safe_atomic_returns (Q := fun _ _ ↦ True) fun w _ _ hinv _ _ ↦
    have hstep := gating_same (p := p) (t := t) hinv (h w).1 (h w).2
    ⟨hstep.1, hstep.2, fun _ _ ↦ trivial⟩

theorem gated_await {guard : World → Bool} {f : World → Except RuntimeError A × World}
    (h : ∀ w, SameAttempts w (f w).2 ∧ SameQueue w (f w).2) :
    gatingProtocol.Keeps p t (.await label guard f : Runtime A) :=
  Safe.keeps fun _ ↦ safe_await_returns (Q := fun _ _ ↦ True) fun w _ _ hinv _ _ _ ↦
    have hstep := gating_same (p := p) (t := t) hinv (h w).1 (h w).2
    ⟨hstep.1, hstep.2, fun _ _ ↦ trivial⟩

/-- A step that starts one background call. -/
theorem gated_fork {l : RuntimeStep} {k : World → ℕ → RuntimeCall} {f : World → ℕ → World}
    (hpre : ∀ w n i, GatePre p i (k w n) (f w n))
    (h : ∀ w n, SameAttempts w (f w n) ∧ SameQueue w (f w n)) :
    gatingProtocol.Keeps p t (.fork l k f : Runtime Unit) := by
  intro s w n _ hinv _ _ _
  obtain ⟨h1, h2⟩ := gating_same hinv (h w n).1 (h w n).2
  refine ⟨⟨h1.1.mono (Nat.le_succ n), h1.2⟩, h2, ?_, trivial⟩
  rintro (_ | i) call hcall
  · obtain rfl := Option.some.inj hcall
    exact hpre w n _
  · exact absurd hcall (by simp)

theorem gated_storeWrite {f : World → Except RuntimeError A × World}
    (h : ∀ w, SameAttempts w (f w).2 ∧ SameQueue w (f w).2) :
    gatingProtocol.Keeps p t (storeWrite label f) :=
  gated_atomic fun w ↦ by
    split
    · exact ⟨.refl w, rfl, rfl, le_rfl⟩
    · exact h w

/-- A program of a conductor that creates nothing. -/
theorem gated_conductor {L : License} {prog : Runtime A}
    (h : (conductorProtocol L).Keeps p t prog) (hL : ∀ m, ¬L.creates m) :
    gatingProtocol.Keeps p t prog :=
  h.under (conductorProtocol_under_gating_of_not_creates hL)

/-- A program of a conductor without a license. -/
theorem gated_plain {prog : Runtime A} (h : (conductorProtocol {}).Keeps p t prog) :
    gatingProtocol.Keeps p t prog :=
  gated_conductor h fun _ hc ↦ hc

theorem gated_askOutside {answer : Outside → Except RuntimeError A} :
    gatingProtocol.Keeps p t (askOutside answer) :=
  gated_read

theorem gated_currentDate : gatingProtocol.Keeps p t currentDate := gated_askOutside

end Rules

/-! ### The queue store -/

namespace QueueStore

theorem gated_readAs {label : RuntimeStep} {jobId : JobId} :
    gatingProtocol.Safe p t (Returns fun item w ↦ item ∈ w.items item.jobId)
      (readAs label jobId) s := by
  refine safe_storeRead gatingProtocol_refl fun w n _ hinv _ _ item hitem ↦ ?_
  split at hitem
  · rename_i item' heq
    obtain rfl := Except.ok.inj hitem
    have hmem : item' ∈ w.items jobId := List.mem_of_mem_head? heq
    rwa [(hinv.2.items jobId item' hmem).1]
  · exact nomatch hitem

theorem gated_read_item {jobId : JobId} : gatingProtocol.Keeps p t (read jobId) :=
  Safe.keeps fun _ ↦ gated_readAs

/-- The items read are in the journals. -/
theorem gated_readItems (jobIds : List JobId) :
    gatingProtocol.Safe p t (Returns fun items w ↦ ∀ item ∈ items, item ∈ w.items item.jobId)
      (readItems jobIds) s := by
  induction jobIds generalizing s with
  | nil => exact returns_ok.2 (by simp)
  | cons jobId rest ih =>
    refine Safe.seq gated_readAs fun item s₁ hitem ↦ ?_
    refine (ih.keeping (J := fun w ↦ item ∈ w.items item.jobId)
      (fun _ _ hr hi ↦ hr.2.items _ _ hi) (fun _ _ _ hg hi ↦ hg.2.items _ _ hi) hitem).seq
      fun items s₂ ⟨hitems, hitem⟩ ↦ ?_
    exact returns_ok.2 (List.forall_mem_cons.2 ⟨hitem, hitems⟩)

/-- A listed snapshot is made of snapshots in the journals. -/
theorem gated_list : gatingProtocol.Safe p t
    (Returns fun items w ↦ ∀ item ∈ items, item ∈ w.items item.jobId) list s := by
  refine Keeps.seq gated_storeRead fun jobIds s₁ ↦ (gated_readItems jobIds).seq fun items s₂ hitems ↦ ?_
  exact returns_ok.2 fun item hi ↦ hitems item ((List.mem_insertionSort _).1 hi)

theorem gated_list_keeps : gatingProtocol.Keeps p t list := Safe.keeps fun _ ↦ gated_list

theorem gated_createItem {contract : JobContract} {options : QueueOptions} :
    gatingProtocol.Keeps p t (createItem contract options) := by
  refine Safe.keeps fun s ↦ safe_storeWrite gatingProtocol_refl (Q := fun _ _ ↦ True)
    fun w n _ hinv _ _ ↦ ?_
  split
  · rename_i hnew
    have hsame (item : QueueItem) : SameAttempts w (w.createItem item) :=
      ⟨rfl, rfl, rfl, rfl, rfl, rfl⟩
    exact ⟨⟨(hsame _).inv hinv.1, hinv.2.createItem hnew (QueueItem.evidenced_of_ne nofun)⟩,
      ⟨(hsame _).guar .all p t n, .createItem hnew⟩, fun _ _ ↦ trivial⟩
  · exact ⟨hinv, gatingProtocol_refl n w, fun _ _ ↦ trivial⟩

theorem gated_enqueue {contract : JobContract} {options : QueueOptions} :
    gatingProtocol.Keeps p t (enqueue contract options) := by
  refine Keeps.bind gated_createItem fun item ↦ ?_
  cases item with
  | some item => exact keeps_ret _
  | none => exact Keeps.bind gated_read_item fun _ ↦ .ite (keeps_ret _) (keeps_ret _)

theorem gated_pushItem {current updated : QueueItem} (h : updated.Evidenced) :
    gatingProtocol.Keeps p t (pushItem current updated) := by
  refine Safe.keeps fun s ↦ safe_storeWrite gatingProtocol_refl (Q := fun _ _ ↦ True)
    fun w n _ hinv _ _ ↦ ?_
  split
  · have hsame : SameAttempts w (w.pushItem updated) := ⟨rfl, rfl, rfl, rfl, rfl, rfl⟩
    exact ⟨⟨hsame.inv hinv.1, hinv.2.pushItem h⟩, ⟨hsame.guar .all p t n, .pushItem⟩,
      fun _ _ ↦ trivial⟩
  · exact ⟨hinv, gatingProtocol_refl n w, fun _ h ↦ nomatch h⟩

theorem gated_commitItem {current updated : QueueItem} (h : updated.Evidenced) :
    gatingProtocol.Keeps p t (commitItem current updated) :=
  (gated_pushItem h).bind fun _ ↦ gated_storeRead

/-- A commit, when the merged item shows its evidence. -/
theorem gated_commitQueueUpdate {item : QueueItem} {patch : QueuePatch}
    {validate : QueueItem → QueueItem → Except RuntimeError Unit}
    (h : ∀ now, (item.merge patch now).Evidenced) :
    gatingProtocol.Keeps p t (commitQueueUpdate item patch validate) := by
  refine Keeps.bind gated_read_item fun current ↦ ?_
  by_cases hcurrent : current = item
  · subst hcurrent
    rw [if_neg (by simp)]
    refine Keeps.bind gated_currentDate fun now ↦ ?_
    cases hupdated : current.updated validate patch now with
    | error e => exact keeps_ret _
    | ok updated =>
      obtain ⟨rfl, -⟩ := QueueItem.updated_ok hupdated
      have hcommit : gatingProtocol.Keeps p t (commitItem current (current.merge patch now)) :=
        gated_commitItem (h now)
      exact hcommit.bind fun _ ↦ keeps_ret _
  · rw [if_pos hcurrent]
    exact keeps_ret _

/-- The patch does not complete the item. -/
def Uncompleting (patch : QueuePatch) : Prop := ∃ status, patch.status = some status ∧
  status ≠ .completed

theorem uncompleting {patch : QueuePatch} {status : QueueItemStatus}
    (h : patch.status = some status) (hne : status ≠ .completed) :
    Uncompleting patch := ⟨status, h, hne⟩

theorem evidenced_of_uncompleting {patch : QueuePatch} (h : Uncompleting patch) (item : QueueItem)
    (now : Timestamp) : (item.merge patch now).Evidenced := by
  obtain ⟨status, hstatus, hne⟩ := h
  exact QueueItem.evidenced_of_ne (by rw [QueueItem.merge_status, hstatus]; exact hne)

theorem gated_update {item : QueueItem} {patch : QueuePatch} (h : Uncompleting patch) :
    gatingProtocol.Keeps p t (update item patch) :=
  gated_commitQueueUpdate (evidenced_of_uncompleting h item)

theorem gated_update_projected {item : QueueItem} {result : AttemptCompletionEvidence}
    {now : Timestamp} : gatingProtocol.Keeps p t (update item (projectQueueCompletion result now)) :=
  gated_commitQueueUpdate item.evidenced_projected

theorem gated_reconcile {item : QueueItem} {patch : QueuePatch} {kind : QueueReconciliationKind}
    (h : Uncompleting patch) : gatingProtocol.Keeps p t (reconcile item patch kind) :=
  gated_commitQueueUpdate (evidenced_of_uncompleting h item)

theorem gated_acquireLease : gatingProtocol.Keeps p t (acquireLease self) :=
  gated_storeWrite fun w ↦ by
    split
    · exact ⟨⟨rfl, rfl, rfl, rfl, rfl, rfl⟩, rfl, rfl, le_rfl⟩
    · exact ⟨.refl w, rfl, rfl, le_rfl⟩

theorem gated_releaseLease {lease : QueueLease} :
    gatingProtocol.Keeps p t (releaseLease lease) :=
  gated_storeWrite fun w ↦ by
    split
    · exact ⟨⟨rfl, rfl, rfl, rfl, rfl, rfl⟩, rfl, rfl, le_rfl⟩
    · exact ⟨.refl w, rfl, rfl, le_rfl⟩

end QueueStore

/-! ### The dispatcher -/

namespace Dispatcher

open QueueStore

theorem sameAttempts_setDispatcher {w : World} {memory : DispatcherMemory} :
    SameAttempts w (w.setDispatcher p memory) := ⟨rfl, rfl, rfl, rfl, rfl, rfl⟩

theorem sameQueue_setDispatcher {w : World} {memory : DispatcherMemory} :
    SameQueue w (w.setDispatcher p memory) := ⟨rfl, rfl, le_rfl⟩

theorem gated_setMemory {label : RuntimeStep} {f : DispatcherMemory → DispatcherMemory} :
    gatingProtocol.Keeps p t (setMemory self label f) :=
  gated_atomic (f := fun w ↦ (.ok (), w.setDispatcher self.process (f (w.dispatcher self.process))))
    fun _ ↦ ⟨sameAttempts_setDispatcher, sameQueue_setDispatcher⟩

theorem gated_getMemory : gatingProtocol.Keeps p t (getMemory self) := gated_read

theorem gated_blocked {A : Type} : gatingProtocol.Keeps p t (blocked : Runtime A) :=
  gated_await fun w ↦ ⟨.refl w, rfl, rfl, le_rfl⟩

theorem gated_withStateLock {A : Type} {operation : Runtime A}
    (h : gatingProtocol.Keeps p t operation) :
    gatingProtocol.Keeps p t (withStateLock self operation) := by
  rw [withStateLock]
  refine Keeps.bind gated_setMemory fun _ ↦ ?_
  refine Keeps.bind (gated_await fun w ↦ ?_) fun _ ↦ h.ensuring gated_setMemory
  exact ⟨.refl w, rfl, rfl, le_rfl⟩

theorem gated_reachFailpoint {point : DispatchFailpointName} :
    gatingProtocol.Keeps p t (reachFailpoint point) :=
  gated_askOutside

theorem gated_enqueue {contract : JobContract} {options : QueueOptions} :
    gatingProtocol.Keeps p t (enqueue contract options) := by
  rw [enqueue]
  refine Keeps.bind gated_askOutside fun _ ↦ ?_
  refine Keeps.bind (gated_storeWrite fun w ↦ ?_) fun contract ↦
    .ite (keeps_ret _) QueueStore.gated_enqueue
  split
  · exact ⟨⟨rfl, rfl, rfl, rfl, rfl, rfl⟩, rfl, rfl, le_rfl⟩
  · split
    · exact ⟨.refl w, rfl, rfl, le_rfl⟩
    · exact ⟨.refl w, rfl, rfl, le_rfl⟩

/-! ### A dispatch pass -/

section Pass

variable {items : List QueueItem} {item : QueueItem} {deps : List QueueItem}
  {parents : List AttemptId}

/-- The dependencies of a ready item are all in the snapshot, and completed. -/
theorem dependencies_of_ready (h : readiness items item = .ready deps) :
    deps.map QueueItem.jobId = item.dependsOnJobIds ∧
      ∀ d ∈ deps, d ∈ items ∧ d.status = .completed := by
  simp only [readiness] at h
  split at h
  · exact nomatch h
  · split at h
    · exact nomatch h
    · rename_i hall
      obtain rfl := Readiness.ready.inj h
      have hcompleted : ∀ jobId ∈ item.dependsOnJobIds, ∃ d,
          items.find? (fun candidate ↦ candidate.jobId = jobId) = some d ∧
            d.status = .completed := by
        intro jobId hjobId
        have hnot := hall
        simp only [dependencies, List.any_map, List.any_eq_true, not_exists, not_and] at hnot
        have hthis := hnot jobId hjobId
        cases hfind : items.find? fun candidate ↦ candidate.jobId = jobId with
        | none => simp [hfind] at hthis
        | some d => exact ⟨d, rfl, by simpa [hfind] using hthis⟩
      rw [dependencies]
      generalize item.dependsOnJobIds = jobIds at hcompleted
      induction jobIds with
      | nil => exact ⟨rfl, fun d hd ↦ absurd hd List.not_mem_nil⟩
      | cons jobId rest ih =>
        obtain ⟨d, hd, hstatus⟩ := hcompleted jobId List.mem_cons_self
        obtain ⟨hmap, hmem⟩ := ih fun j hj ↦ hcompleted j (List.mem_cons_of_mem _ hj)
        have hjobId : d.jobId = jobId := by simpa using List.find?_some hd
        rw [List.map_cons, hd, List.reduceOption_cons_of_some]
        exact ⟨by rw [List.map_cons, hmap, hjobId], List.forall_mem_cons.2
          ⟨⟨List.mem_of_find?_eq_some hd, hstatus⟩, hmem⟩⟩

/-- The parents are the attempts the completions name. -/
theorem completions_of_parentAttemptIds (h : parentAttemptIds deps = .ok parents) :
    ∃ completions : List QueueCompletion, deps.map QueueItem.completion = completions.map some ∧
      parents = completions.map QueueCompletion.attemptId := by
  induction deps generalizing parents with
  | nil =>
    obtain rfl := Except.ok.inj h
    exact ⟨[], rfl, rfl⟩
  | cons d rest ih =>
    simp only [parentAttemptIds, List.mapM_cons] at h
    cases hcompletion : d.completion with
    | none =>
      rw [hcompletion] at h
      exact nomatch h
    | some completion =>
      rw [hcompletion] at h
      cases hrest : parentAttemptIds rest with
      | error e =>
        rw [parentAttemptIds] at hrest
        rw [hrest] at h
        exact nomatch h
      | ok parents' =>
        obtain ⟨completions, hmap, hparents⟩ := ih hrest
        rw [parentAttemptIds] at hrest
        rw [hrest] at h
        obtain rfl := Except.ok.inj h
        exact ⟨completion :: completions, by rw [List.map_cons, hmap, hcompletion]; rfl,
          by rw [hparents]; rfl⟩

/-- **A selection stands behind what is reserved for it.** -/
theorem approves_of_ready {operation : Uuid} {m : AttemptManifest}
    (hready : readiness items item = .ready deps)
    (hparents : parentAttemptIds deps = .ok parents)
    (hm : Conductor.Reservation item.jobId parents (some operation) m) :
    (⟨operation, item, items⟩ : Selection).Approves m.attemptId.jobId m.parents := by
  obtain ⟨hjobIds, hcompleted⟩ := dependencies_of_ready hready
  obtain ⟨completions, hcompletions, rfl⟩ := completions_of_parentAttemptIds hparents
  refine ⟨hm.jobId.symm, deps, completions, hjobIds, hcompleted, hcompletions, ?_⟩
  have hempty : completions.map QueueCompletion.attemptId = [] ↔ item.dependsOnJobIds = [] := by
    have hlength := congrArg List.length hcompletions
    have hlength' := congrArg List.length hjobIds
    simp only [List.length_map] at hlength hlength'
    rw [List.map_eq_nil_iff, ← List.length_eq_zero_iff, ← List.length_eq_zero_iff]
    omega
  rw [hm.parents]
  simp only [hempty]

/-- A selection is entered under a new operation. -/
theorem gated_newDispatchOperation
    (hs : item ∈ items ∧ ∀ i ∈ items, i ∈ s.items i.jobId) :
    gatingProtocol.Safe p t
      (Returns fun operation w ↦ (⟨operation, item, items⟩ : Selection) ∈ w.selections)
      (newDispatchOperation item items) s := by
  refine safe_atomic_returns fun w n _ hinv hrely _ ↦ ⟨⟨?_, ?_⟩, ⟨?_, ?_⟩, fun operation h ↦ ?_⟩
  · have hsame : SameAttempts w
        { w with uuid := w.uuid + 1, selections := ⟨w.uuid, item, items⟩ :: w.selections } :=
      ⟨rfl, rfl, rfl, rfl, rfl, rfl⟩
    exact hsame.inv hinv.1
  · refine ⟨hinv.2.items, fun sel hsel ↦ ?_, fun sel hsel ↦ ?_, ?_, fun id m hm ↦ ?_⟩
    · rcases List.mem_cons.1 hsel with rfl | hold
      · exact ⟨hs.1, fun i hi ↦ hrely.2.items _ i (hs.2 i hi)⟩
      · exact hinv.2.snapshot sel hold
    · rcases List.mem_cons.1 hsel with rfl | hold
      · exact Nat.lt_succ_self w.uuid
      · exact (hinv.2.fresh sel hold).trans (Nat.lt_succ_self w.uuid)
    · refine List.nodup_cons.2 ⟨fun hmem ↦ ?_, hinv.2.once⟩
      obtain ⟨sel, hsel, heq⟩ := List.mem_map.1 hmem
      exact (hinv.2.fresh sel hsel).ne heq
    · obtain ⟨sel, hsel, hrest⟩ := hinv.2.attempts id m hm
      exact ⟨sel, List.mem_cons_of_mem _ hsel, hrest⟩
  · have hsame : SameAttempts w
        { w with uuid := w.uuid + 1, selections := ⟨w.uuid, item, items⟩ :: w.selections } :=
      ⟨rfl, rfl, rfl, rfl, rfl, rfl⟩
    exact hsame.guar .all p t n
  · exact ⟨fun _ _ hi ↦ hi, fun _ hsel ↦ List.mem_cons_of_mem _ hsel⟩
  · obtain rfl := Except.ok.inj h
    exact List.mem_cons_self

/-- A reservation made under a selection that stands behind it. -/
theorem gated_reservePreparedAttempt {operation : Uuid}
    (hready : readiness items item = .ready deps)
    (hparents : parentAttemptIds deps = .ok parents)
    (hs : (⟨operation, item, items⟩ : Selection) ∈ s.selections) :
    gatingProtocol.Safe p t (fun _ _ ↦ True)
      (Conductor.reservePreparedAttempt item.jobId parents (some operation)) s := by
  refine (Safe.lift Conductor.safe_reservePreparedAttempt (conductorProtocol_under_gating
    (J := fun w ↦ (⟨operation, item, items⟩ : Selection) ∈ w.selections)
    (fun _ _ h hw ↦ h.selections _ hw) fun w m hw hm ↦ ?_) hs).mono fun _ _ _ ↦ trivial
  exact ⟨_, hw, hm.dispatchOperationId, approves_of_ready hready hparents hm⟩

theorem gated_startExecution {running : QueueItem} :
    gatingProtocol.Keeps p t (startExecution self running) :=
  gated_fork (fun _ _ _ ↦ trivial) fun _ _ ↦ ⟨sameAttempts_setDispatcher, sameQueue_setDispatcher⟩

theorem gated_reservationRejected {dispatching : QueueItem} {error : RuntimeError} :
    gatingProtocol.Keeps p t (reservationRejected dispatching error) := by
  refine Keeps.bind gated_read fun _ ↦ ?_
  cases error with
  | proposalLineage reason => exact (gated_update (uncompleting rfl (by decide))).bind fun _ ↦ keeps_ret _
  | _ => exact keeps_ret _

theorem gated_dispatchItem (hready : readiness items item = .ready deps)
    (hs : item ∈ items ∧ ∀ i ∈ items, i ∈ s.items i.jobId) :
    gatingProtocol.Safe p t (Returns fun _ _ ↦ True) (dispatchItem self items item deps) s := by
  rw [dispatchItem]
  cases hparents : parentAttemptIds deps with
  | error e => exact returns_error
  | ok parents =>
    refine (gated_newDispatchOperation hs).seq fun operation s₁ hs₁ ↦ ?_
    have hkeep {A : Type} {prog : Runtime A} {w : World} (h : gatingProtocol.Keeps p t prog)
        (hw : (⟨operation, item, items⟩ : Selection) ∈ w.selections) :
        gatingProtocol.Safe p t (Returns fun _ w ↦
          (⟨operation, item, items⟩ : Selection) ∈ w.selections) prog w :=
      ((h.returns w).keeping (fun _ _ hr hsel ↦ hr.2.selections _ hsel)
        (fun _ _ _ hg hsel ↦ hg.2.selections _ hsel) hw).weaken fun _ _ h ↦ h.2
    refine (hkeep (gated_update (uncompleting rfl (by decide))) hs₁).seq fun dispatching s₂ hs₂ ↦ ?_
    refine (hkeep gated_reachFailpoint hs₂).seq fun _ s₃ hs₃ ↦ ?_
    refine (gated_reservePreparedAttempt hready hparents hs₃).attempt_bind fun r s₄ _ ↦ ?_
    cases r with
    | error e => exact (Keeps.bind gated_reservationRejected fun _ ↦ keeps_ret _).returns s₄
    | ok reserved =>
      refine (Keeps.bind gated_reachFailpoint fun _ ↦ ?_).returns s₄
      exact (gated_update (uncompleting rfl (by decide))).bind fun _ ↦
        Keeps.bind gated_reachFailpoint fun _ ↦ Keeps.bind gated_startExecution fun _ ↦ keeps_ret _

theorem gated_dispatchItems (hs : ∀ i ∈ items, i ∈ s.items i.jobId) (rest : List QueueItem)
    (hrest : ∀ i ∈ rest, i ∈ items) (dispatched : ℕ) :
    gatingProtocol.Safe p t (Returns fun _ _ ↦ True)
      (dispatchItems self items rest dispatched) s := by
  induction rest generalizing dispatched s with
  | nil => exact returns_ok.2 trivial
  | cons item rest ih =>
    obtain ⟨hitem, hrest⟩ := List.forall_mem_cons.1 hrest
    have hkeep {A : Type} {Q : A → World → Prop} {prog : Runtime A} {w : World}
        (h : gatingProtocol.Safe p t (Returns Q) prog w) (hw : ∀ i ∈ items, i ∈ w.items i.jobId) :
        gatingProtocol.Safe p t (Returns fun _ w ↦ ∀ i ∈ items, i ∈ w.items i.jobId) prog w :=
      (h.keeping (fun _ _ hr hi i him ↦ hr.2.items _ _ (hi i him))
        (fun _ _ _ hg hi i him ↦ hg.2.items _ _ (hi i him)) hw).weaken fun _ _ h ↦ h.2
    rw [dispatchItems]
    refine (hkeep (Keeps.returns gated_getMemory s) hs).seq fun memory s₁ hs₁ ↦
      .ite (fun _ ↦ ih hs₁ hrest _) fun _ ↦ ?_
    cases hready : readiness items item with
    | failed dependency =>
      exact (hkeep ((gated_update (uncompleting rfl (by decide))).returns s₁) hs₁).seq fun _ s₂ hs₂ ↦
        ih hs₂ hrest _
    | waiting => exact ih hs₁ hrest _
    | ready deps =>
      refine (hkeep (Keeps.returns gated_read s₁) hs₁).seq fun maxConcurrent s₂ hs₂ ↦
        .ite (fun _ ↦ returns_ok.2 trivial) fun _ ↦ ?_
      refine (hkeep (gated_dispatchItem hready ⟨hitem, hs₂⟩) hs₂).seq fun dispatched' s₃ hs₃ ↦ ?_
      exact .ite (fun _ ↦ ih hs₃ hrest _) fun _ ↦ ih hs₃ hrest _

theorem gated_dispatchAvailable {submitted : Bool} :
    gatingProtocol.Keeps p t (dispatchAvailable self submitted) := by
  refine gated_withStateLock ?_
  refine Keeps.bind (gated_atomic fun w ↦ ?_) fun _ ↦ Keeps.ensuring ?_ gated_setMemory
  · dsimp only
    split
    · exact ⟨.refl w, rfl, rfl, le_rfl⟩
    · exact ⟨sameAttempts_setDispatcher, sameQueue_setDispatcher⟩
  · exact Safe.keeps fun s ↦ Safe.seq gated_list fun items s₁ hs₁ ↦
      gated_dispatchItems hs₁ items (fun _ h ↦ h) 0

end Pass

/-! ### The execution of an item -/

theorem gated_finishItem {item : QueueItem} {result : AttemptCompletionEvidence} :
    gatingProtocol.Keeps p t (finishItem item result) :=
  Keeps.bind (Safe.keeps fun _ ↦ gated_readAs) fun _ ↦ Keeps.bind gated_currentDate fun _ ↦
    Keeps.bind gated_update_projected fun _ ↦ keeps_ret _

theorem gated_claimAndLaunch {item : QueueItem} :
    gatingProtocol.Keeps self.process self.thread (claimAndLaunch self item) := by
  refine Keeps.bind gated_read_item fun current ↦ ?_
  split
  · refine (gated_conductor Conductor.keeps_claimReservedAttempt fun _ h ↦ h).bind fun _ ↦ ?_
    refine Keeps.bind gated_reachFailpoint fun _ ↦ ?_
    exact (gated_conductor Conductor.keeps_launchClaimedAttempt fun _ h ↦ h).bind fun _ ↦
      keeps_ret _
  · exact keeps_ret _

theorem gated_waitForAttempt {attemptId : AttemptId} :
    gatingProtocol.Keeps self.process self.thread (Conductor.waitForAttempt self attemptId) :=
  gated_plain (Safe.keeps fun _ ↦ Conductor.safe_waitForAttempt)

theorem gated_runItem {item : QueueItem} :
    gatingProtocol.Keeps self.process self.thread (runItem self item) := by
  refine (gated_withStateLock gated_claimAndLaunch).bind fun launched ↦ ?_
  cases launched with
  | none => exact keeps_ret _
  | some attemptId =>
    exact Keeps.bind gated_waitForAttempt fun _ ↦ gated_withStateLock gated_finishItem

theorem gated_failItem {item : QueueItem} {error : RuntimeError} :
    gatingProtocol.Keeps p t (failItem item error) :=
  Keeps.bind (Safe.keeps fun _ ↦ gated_readAs) fun _ ↦ .ite (keeps_ret _) <|
    (gated_update (uncompleting rfl (by decide))).bind fun _ ↦ keeps_ret _

theorem gated_executeItem {item : QueueItem} :
    gatingProtocol.Keeps self.process self.thread (executeItem self item) := by
  refine Keeps.catching gated_runItem fun error ↦ ?_
  cases error with
  | dispatchFailpoint point cause => exact keeps_ret _
  | _ => exact gated_withStateLock gated_failItem

theorem gated_runExecution {item : QueueItem} :
    gatingProtocol.Keeps self.process self.thread (runExecution self item) :=
  Keeps.bind (Keeps.attempt gated_executeItem) fun _ ↦ Keeps.bind gated_setMemory fun _ ↦ gated_setMemory

/-! ### Owner requests -/

theorem gated_cancelReservedAttempt {attemptId : AttemptId} :
    gatingProtocol.Keeps self.process self.thread
      (Conductor.cancelReservedAttempt self attemptId) :=
  gated_plain (Safe.keeps fun _ ↦ Conductor.safe_cancelReservedAttempt)

theorem gated_cancelAttempt {attemptId : AttemptId} :
    gatingProtocol.Keeps self.process self.thread (Conductor.cancelAttempt self attemptId) :=
  gated_conductor Conductor.keeps_cancelAttempt fun _ h ↦ h

theorem gated_getAttempt {attemptId : AttemptId} :
    gatingProtocol.Keeps p t (Conductor.getAttempt attemptId) :=
  gated_plain keeps_readAttempt

theorem gated_cancel {jobId : JobId} :
    gatingProtocol.Keeps self.process self.thread (cancel self jobId) := by
  refine gated_withStateLock (Keeps.bind gated_read_item fun item ↦ .ite (keeps_ret _) ?_)
  dsimp only
  split
  · refine (gated_update (uncompleting rfl (by decide))).bind fun cancelling ↦
      Keeps.bind gated_cancelAttempt fun requested ↦ .ite ?_ (keeps_ret _)
    refine Keeps.bind gated_cancelReservedAttempt fun attempt ↦ .ite ?_ (keeps_ret _)
    exact gated_update (uncompleting rfl (by decide))
  · exact keeps_ret _
  · have hdrop : gatingProtocol.Keeps self.process self.thread (QueueStore.update item
        { status := some .cancelled, message := some (some "Cancellation requested") }) :=
      gated_update (uncompleting rfl (by decide))
    split
    · exact Keeps.bind gated_cancelReservedAttempt fun _ ↦ hdrop
    · exact hdrop

theorem gated_retry {jobId : JobId} :
    gatingProtocol.Keeps self.process self.thread (retry self jobId) := by
  refine gated_withStateLock (Keeps.bind gated_read_item fun item ↦ .ite (keeps_ret _) ?_)
  cases item.attemptId with
  | none => exact gated_update (uncompleting rfl (by decide))
  | some attemptId =>
    have hrelease : gatingProtocol.Keeps self.process self.thread
        (Conductor.releaseAttemptExternalResources self attemptId) :=
      gated_plain (Safe.keeps fun _ ↦ Conductor.safe_releaseAttemptExternalResources)
    exact Keeps.bind gated_getAttempt fun attempt ↦ .ite (keeps_ret _) <|
      hrelease.bind fun _ ↦ gated_update (uncompleting rfl (by decide))

/-! ### Startup recovery -/

theorem uncompleting_dispatchingPatch (attempts : List AttemptManifest) (item : QueueItem) :
    Uncompleting (dispatchingPatch attempts item) := by
  unfold dispatchingPatch
  split
  · exact uncompleting rfl (by decide)
  · split <;> exact uncompleting rfl (by decide)

theorem gated_recoverDispatching (attempts : List AttemptManifest) (items : List QueueItem) :
    gatingProtocol.Keeps p t (recoverDispatching attempts items) := by
  induction items with
  | nil => exact keeps_ret _
  | cons item rest ih =>
    exact .ite ((gated_update (uncompleting_dispatchingPatch attempts item)).bind fun _ ↦ ih) ih

theorem uncompleting_requeuePatch (item : QueueItem) (attemptId : AttemptId) :
    Uncompleting (requeuePatch item attemptId) := by
  unfold requeuePatch
  split <;> exact uncompleting rfl (by decide)

theorem gated_settleRecovered {item : QueueItem} {attemptId : AttemptId}
    {disposition : Conductor.Disposition} {manifest : AttemptManifest} :
    gatingProtocol.Keeps p t (settleRecovered item attemptId disposition manifest) := by
  refine .ite ?_ ?_
  · refine (gated_plain keeps_readJob).bind fun contract ↦ .ite ?_ ?_
    · exact (gated_update (uncompleting rfl (by decide))).bind fun _ ↦ keeps_ret _
    · exact (gated_update (uncompleting_requeuePatch item attemptId)).bind fun _ ↦ keeps_ret _
  · exact (gated_plain Conductor.keeps_getAttemptCleanup).attempt.bind fun cleanup ↦
      (gated_update (uncompleting rfl (by decide))).bind fun _ ↦ keeps_ret _

theorem gated_recoverInterruptedAttempt {attemptId : AttemptId} :
    gatingProtocol.Keeps self.process self.thread
      (Conductor.recoverInterruptedAttempt self attemptId) :=
  gated_plain (Safe.keeps fun _ ↦ Conductor.safe_recoverInterruptedAttempt)

theorem gated_recoverActiveItem {item : QueueItem} :
    gatingProtocol.Keeps self.process self.thread (recoverActiveItem self item) := by
  rw [recoverActiveItem]
  cases item.attemptId with
  | none => exact (gated_update (uncompleting rfl (by decide))).bind fun _ ↦ keeps_ret _
  | some attemptId =>
    refine Keeps.bind gated_getAttempt fun manifest ↦ .ite ?_ ?_
    · exact Keeps.bind gated_waitForAttempt fun _ ↦ gated_finishItem
    · refine Keeps.bind gated_recoverInterruptedAttempt fun outcome ↦ ?_
      exact gated_settleRecovered

theorem gated_recoverActive (items : List QueueItem) :
    gatingProtocol.Keeps self.process self.thread (recoverActive self items) := by
  induction items with
  | nil => exact keeps_ret _
  | cons item rest ih => exact .ite (Keeps.bind gated_recoverActiveItem fun _ ↦ ih) ih

theorem gated_recoverUnreferenced (referenced : List AttemptId)
    (attempts : List AttemptManifest) :
    gatingProtocol.Keeps self.process self.thread
      (recoverUnreferenced self referenced attempts) := by
  induction attempts with
  | nil => exact keeps_ret _
  | cons attempt rest ih => exact .ite (Keeps.bind gated_recoverInterruptedAttempt fun _ ↦ ih) ih

theorem keeps_readAttempts {L : License} (attemptIds : List AttemptId) :
    (conductorProtocol L).Keeps p t (ArtifactStore.readAttempts attemptIds) := by
  induction attemptIds with
  | nil => exact keeps_ret _
  | cons attemptId rest ih => exact Keeps.bind keeps_readAttempt fun _ ↦ ih.bind fun _ ↦ keeps_ret _

theorem gated_listAttempts : gatingProtocol.Keeps p t ArtifactStore.listAttempts :=
  Keeps.bind gated_storeRead fun _ ↦ (gated_plain (keeps_readAttempts _)).bind fun _ ↦ keeps_ret _

theorem gated_recoverInterruptedItems :
    gatingProtocol.Keeps self.process self.thread (recoverInterruptedItems self) :=
  Keeps.bind gated_listAttempts fun attempts ↦ Keeps.bind gated_list_keeps fun items ↦
    (gated_recoverDispatching attempts items).bind fun _ ↦ Keeps.bind gated_list_keeps fun items ↦
      (gated_recoverActive items).bind fun _ ↦ Keeps.bind gated_list_keeps fun _ ↦
        gated_recoverUnreferenced _ attempts

/-! ### The loop and its exits -/

theorem gated_acquireLease : gatingProtocol.Keeps p t (acquireLease self) := by
  refine Keeps.bind QueueStore.gated_acquireLease fun lease ↦ ?_
  cases lease with
  | none => exact keeps_ret _
  | some lease => exact gated_setMemory

theorem gated_releaseLease : gatingProtocol.Keeps p t (releaseLease self) := by
  refine Keeps.bind (gated_atomic fun w ↦
    ⟨sameAttempts_setDispatcher, sameQueue_setDispatcher⟩) fun lease ↦ ?_
  cases lease with
  | none => exact keeps_ret _
  | some lease => exact QueueStore.gated_releaseLease

theorem gated_abortActive (items : List QueueItem) :
    gatingProtocol.Keeps self.process self.thread (abortActive self items) := by
  induction items with
  | nil => exact keeps_ret _
  | cons item rest ih =>
    rw [abortActive]
    cases item.attemptId with
    | none => exact ih
    | some attemptId => exact .ite (Keeps.bind gated_cancelAttempt fun _ ↦ ih) ih

theorem gated_cancelActiveAttempts :
    gatingProtocol.Keeps self.process self.thread (cancelActiveAttempts self) :=
  Keeps.bind gated_list_keeps fun items ↦ gated_abortActive items

theorem gated_drain : gatingProtocol.Keeps p t (drain self) := by
  refine Keeps.bind (gated_atomic fun w ↦
    ⟨sameAttempts_setDispatcher, sameQueue_setDispatcher⟩) fun active ↦ ?_
  exact gated_await fun w ↦ ⟨.refl w, rfl, rfl, le_rfl⟩

theorem gated_raceActive {active : List (JobId × ℕ)} :
    gatingProtocol.Keeps p t (raceActive self active) :=
  gated_await fun w ↦ ⟨.refl w, rfl, rfl, le_rfl⟩

theorem gated_decideIdle {candidate : Bool} :
    gatingProtocol.Keeps p t (decideIdle self candidate) :=
  gated_atomic fun w ↦ by
    dsimp only
    split
    · exact ⟨sameAttempts_setDispatcher, sameQueue_setDispatcher⟩
    · exact ⟨.refl w, rfl, rfl, le_rfl⟩

theorem gated_runLoop (exitWhenIdle : Bool) (fuel : ℕ) :
    gatingProtocol.Keeps p t (runLoop self exitWhenIdle fuel) := by
  induction fuel with
  | zero => exact gated_blocked
  | succ fuel ih =>
    refine Keeps.bind gated_getMemory fun memory ↦ .ite gated_drain ?_
    cases memory.lease with
    | none => exact keeps_ret _
    | some lease =>
      refine Keeps.bind gated_storeRead fun renewed ↦ Keeps.bind gated_setMemory fun _ ↦
        Keeps.bind gated_dispatchAvailable fun dispatched ↦ Keeps.bind gated_decideIdle fun active ↦ ?_
      cases active with
      | none => exact keeps_ret _
      | some active => exact Keeps.bind gated_raceActive fun _ ↦ ih

theorem gated_runLoopPromise {fuel : ℕ} :
    gatingProtocol.Keeps self.process self.thread (runLoopPromise self fuel) := by
  refine Keeps.bind (Keeps.attempt (Keeps.ensuring (Keeps.catching (gated_runLoop false fuel)
    fun error ↦ ?_) ?_)) fun ending ↦ gated_setMemory
  · exact Keeps.bind gated_cancelActiveAttempts fun _ ↦ Keeps.bind gated_drain fun _ ↦ keeps_ret _
  · exact Keeps.bind gated_setMemory fun _ ↦ gated_releaseLease

theorem gated_abandonStart {A : Type} {error : RuntimeError} :
    gatingProtocol.Keeps p t (abandonStart self error : Runtime A) := by
  rw [abandonStart]
  exact Keeps.bind gated_setMemory fun _ ↦ Keeps.bind gated_releaseLease fun _ ↦ keeps_ret _

/-- The loop is forked. -/
theorem gated_forkLoop {fuel : ℕ} :
    gatingProtocol.Keeps p t (.fork .memory (fun _ _ ↦ .runLoop fuel) fun w n ↦
      let memory := w.dispatcher self.process
      { w.setDispatcher self.process { memory with loop := some n } with leaseThread := some n } :
      Runtime Unit) :=
  gated_fork (fun _ _ _ ↦ trivial) fun _ _ ↦
    ⟨⟨rfl, rfl, rfl, rfl, rfl, rfl⟩, rfl, rfl, le_rfl⟩

theorem gated_start {fuel : ℕ} :
    gatingProtocol.Keeps self.process self.thread (start self fuel) := by
  refine Keeps.bind gated_getMemory fun memory ↦ .ite (keeps_ret _) <| Keeps.bind gated_acquireLease fun _ ↦
    Keeps.bind (Keeps.catching ?_ fun _ ↦ gated_abandonStart) fun _ ↦ gated_forkLoop
  exact Keeps.bind gated_setMemory fun _ ↦ gated_recoverInterruptedItems

theorem gated_stop {cancelActive : Bool} :
    gatingProtocol.Keeps self.process self.thread (stop self cancelActive) := by
  rw [stop]
  refine Keeps.bind gated_setMemory fun _ ↦
    .ite (Keeps.bind gated_cancelActiveAttempts fun _ ↦ ?_) ?_
  -- both branches go on with the wait for the loop
  all_goals
    refine Keeps.bind gated_getMemory fun memory ↦ ?_
    cases memory.loop with
    | none => exact keeps_ret _
    | some thread => exact gated_await fun w ↦ ⟨.refl w, rfl, rfl, le_rfl⟩

theorem gated_runUntilIdle {fuel : ℕ} :
    gatingProtocol.Keeps self.process self.thread (runUntilIdle self fuel) := by
  refine Keeps.bind gated_getMemory fun memory ↦ .ite (keeps_ret _) <| Keeps.bind gated_acquireLease fun _ ↦
    Keeps.bind gated_setMemory fun _ ↦ Keeps.ensuring (Keeps.catching ?_ fun error ↦ ?_) ?_
  · exact Keeps.bind gated_recoverInterruptedItems fun _ ↦ gated_runLoop true fuel
  · exact Keeps.bind gated_cancelActiveAttempts fun _ ↦ Keeps.bind gated_drain fun _ ↦ keeps_ret _
  · exact Keeps.bind gated_setMemory fun _ ↦ gated_releaseLease

theorem gated_waitForLaunchHandoff {attemptId : AttemptId} (fuel : ℕ) :
    gatingProtocol.Keeps p t (waitForLaunchHandoff attemptId fuel) := by
  induction fuel with
  | zero => exact gated_blocked
  | succ fuel ih =>
    rw [waitForLaunchHandoff]
    exact Keeps.bind gated_askOutside fun late ↦ .ite (keeps_ret _) <| Keeps.bind gated_getAttempt fun _ ↦
      .ite (keeps_ret _) ih

theorem gated_submit {contract : JobContract} {options : QueueOptions} {fuel : ℕ} :
    gatingProtocol.Keeps p t (submit self contract options fuel) := by
  refine Keeps.bind gated_getMemory fun memory ↦ .ite (keeps_ret _) <| Keeps.bind gated_enqueue fun submission ↦
    Keeps.bind gated_dispatchAvailable fun _ ↦ Keeps.bind gated_read_item fun item ↦ ?_
  split
  · exact (gated_waitForLaunchHandoff fuel).bind fun _ ↦ gated_read_item
  · exact keeps_ret _

end Dispatcher

/-! ### The reconciler -/

namespace Reconciler

open QueueStore

theorem gated_readCleanups (attempts : List AttemptManifest) :
    gatingProtocol.Keeps p t (readCleanups attempts) := by
  induction attempts with
  | nil => exact keeps_ret _
  | cons attempt rest ih =>
    refine (gated_plain Conductor.keeps_getAttemptCleanup).attempt.bind fun cleanup ↦
      ih.bind fun cleanups ↦ ?_
    cases cleanup with
    | ok _ => exact keeps_ret _
    | error _ => exact keeps_ret _

theorem gated_inspect : gatingProtocol.Keeps p t inspect := by
  refine Keeps.bind gated_storeRead fun ownerCanAct ↦ Keeps.bind (Keeps.attempt gated_list_keeps) fun items ↦
    Keeps.bind (Keeps.attempt Dispatcher.gated_listAttempts) fun attempts ↦ ?_
  cases items with
  | error _ => exact keeps_ret _
  | ok items =>
    cases attempts with
    | error _ => exact keeps_ret _
    | ok attempts =>
      exact (gated_readCleanups attempts).bind fun cleanups ↦ .ite (keeps_ret _) (keeps_ret _)

theorem gated_readRuntimeActionState (proposal : ReconciliationProposal) :
    gatingProtocol.Keeps p t (readRuntimeActionState proposal) := by
  have hcleanup {attemptId : AttemptId} :
      gatingProtocol.Keeps p t (Conductor.getAttemptCleanup attemptId) :=
    gated_plain Conductor.keeps_getAttemptCleanup
  cases proposal with
  | resetAbandonedQueueItem item => exact Keeps.bind gated_read_item fun _ ↦ keeps_ret _
  | quarantineQueueItem item => exact Keeps.bind gated_read_item fun _ ↦ keeps_ret _
  | bindQueueToAttempt item attempt =>
    exact Keeps.bind gated_read_item fun _ ↦ Keeps.bind Dispatcher.gated_getAttempt fun _ ↦ keeps_ret _
  | synchronizeQueueFromTerminalAttempt item attempt cleanup =>
    exact Keeps.bind gated_read_item fun _ ↦ Keeps.bind Dispatcher.gated_getAttempt fun _ ↦
      hcleanup.bind fun _ ↦ keeps_ret _
  | recoverInterruptedAttempt attempt cleanup =>
    exact Keeps.bind Dispatcher.gated_getAttempt fun _ ↦ hcleanup.bind fun _ ↦ keeps_ret _

theorem gated_executeRuntimeAction (proposal : ReconciliationProposal) :
    gatingProtocol.Keeps self.process self.thread (executeRuntimeAction self proposal) := by
  cases proposal with
  | resetAbandonedQueueItem item =>
    exact (gated_reconcile (uncompleting rfl (by decide))).bind fun _ ↦ keeps_ret _
  | quarantineQueueItem item =>
    exact (gated_reconcile (uncompleting rfl (by decide))).bind fun _ ↦ keeps_ret _
  | bindQueueToAttempt item attempt =>
    exact (gated_reconcile (uncompleting rfl (by decide))).bind fun _ ↦ keeps_ret _
  | synchronizeQueueFromTerminalAttempt item attempt cleanup =>
    refine .ite (keeps_ret _) (Keeps.bind gated_currentDate fun now ↦ ?_)
    exact (gated_commitQueueUpdate item.evidenced_projected).bind fun _ ↦ keeps_ret _
  | recoverInterruptedAttempt attempt cleanup =>
    exact Keeps.bind Dispatcher.gated_recoverInterruptedAttempt fun _ ↦
      (gated_plain Conductor.keeps_getAttemptCleanup).bind fun _ ↦ keeps_ret _

theorem gated_applyRuntimeAction {proposal : ReconciliationProposal} :
    gatingProtocol.Keeps self.process self.thread (applyRuntimeAction self proposal) := by
  refine Keeps.bind gated_inspect fun offered ↦ .ite
    ((gated_readRuntimeActionState proposal).bind fun current ↦ .ite (keeps_ret _) ?_) ?_
  -- an action that is offered, and one whose effect is there, go on in the same way
  all_goals
    refine Keeps.bind gated_storeRead fun unowned ↦ .ite (keeps_ret _) ?_
    refine Keeps.bind QueueStore.gated_acquireLease fun lease ↦ ?_
    cases lease with
    | none => exact keeps_ret _
    | some lease =>
      refine Keeps.ensuring ?_ gated_releaseLease
      exact (gated_readRuntimeActionState proposal).bind fun current ↦
        .ite (.ite (keeps_ret _) (keeps_ret _)) (gated_executeRuntimeAction current)

theorem gated_reconcileChoice {choice : ℕ} :
    gatingProtocol.Keeps self.process self.thread (reconcile self choice) := by
  refine Keeps.bind gated_inspect fun offered ↦ ?_
  cases offered[choice]? with
  | none => exact keeps_ret _
  | some proposal => exact gated_applyRuntimeAction

end Reconciler

end CodeConductor
