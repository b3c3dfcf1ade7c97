import CodeConductor.Async.Solo
import CodeConductor.Gate.Programs

/-!
# What a dispatch pass chooses

A dispatch pass run by itself, nobody committing to the queue and no execution ending meanwhile: it
dispatches the first `maxConcurrent - active` of the items that are queued, inactive and have all
their dependencies completed in the snapshot it read, in the order of the snapshot, and moves no
other item to running.

The pass goes through the snapshot once. `PassOutcome` says what the part of the loop over the items
`rest` has done when it chose `chosen` of them, and `solo_dispatchItems` is by induction on `rest`:
what the loop has done before shows only in `active` and in the items already visited, of which none
is visited again.

That all reservations succeed is said of the run itself: no step of it is that of a rejected
reservation.
-/

namespace CodeConductor

open Async Async.Prog

variable {self : Self} {w w' : World} {n : ℕ}

/-! ### Stores that work -/

/-- The stores do not fail and no failpoint is configured. -/
structure Working (w : World) : Prop where
  storage : ∀ label, w.failure label = none
  failpoints : ∀ point, w.outside.failpoint point = none

/-- What a pass leaves as it is besides the queue, the attempts and `active`. -/
structure SameSurroundings (w w' : World) : Prop where
  outside : w'.outside = w.outside
  failure : w'.failure = w.failure
  maxConcurrent : w'.maxConcurrent = w.maxConcurrent

theorem SameSurroundings.refl (w : World) : SameSurroundings w w := ⟨rfl, rfl, rfl⟩

theorem SameSurroundings.trans {w₁ w₂ w₃ : World} (h : SameSurroundings w₁ w₂)
    (h' : SameSurroundings w₂ w₃) : SameSurroundings w₁ w₃ :=
  ⟨h'.outside.trans h.outside, h'.failure.trans h.failure,
    h'.maxConcurrent.trans h.maxConcurrent⟩

theorem Working.of_same (hw : Working w) (h : SameSurroundings w w') : Working w' where
  storage := by rw [h.failure]; exact hw.storage
  failpoints := by rw [h.outside]; exact hw.failpoints

section Steps

variable {A : Type} {label : RuntimeStep}

theorem solo_storeRead (hw : Working w) (f : World → Except RuntimeError A) :
    (storeRead label f).solo w n = some (f w, w, n) := by
  rw [storeRead, solo_read, hw.storage]

theorem solo_storeWrite (hw : Working w) (f : World → Except RuntimeError A × World) :
    (storeWrite label f).solo w n = some ((f w).1, (f w).2, n) := by
  rw [storeWrite, solo_atomic, hw.storage]

end Steps

/-! ### The queue store -/

theorem World.item?_pushItem (w : World) (updated : QueueItem) (jobId : JobId) :
    (w.pushItem updated).item? jobId =
      if jobId = updated.jobId then some updated else w.item? jobId := by
  by_cases h : jobId = updated.jobId
  · subst h
    simp [World.item?, World.pushItem]
  · simp [World.item?, World.pushItem, h]

theorem sameSurroundings_pushItem (w : World) (updated : QueueItem) :
    SameSurroundings w (w.pushItem updated) := ⟨rfl, rfl, rfl⟩

/-- The snapshot `list` takes of the queue. -/
def World.queueSnapshot (w : World) : List QueueItem :=
  (w.itemIds.filterMap w.item?).insertionSort QueueStore.listedBefore

namespace QueueStore

theorem solo_readItems (hw : Working w) (jobIds : List JobId)
    (hitems : ∀ jobId ∈ jobIds, ∃ item, w.item? jobId = some item) :
    (readItems jobIds).solo w n = some (.ok (jobIds.filterMap w.item?), w, n) := by
  induction jobIds with
  | nil => rfl
  | cons jobId rest ih =>
    obtain ⟨⟨item, hitem⟩, hrest⟩ := List.forall_mem_cons.1 hitems
    have hread : (read jobId).solo w n = some (.ok item, w, n) := by
      rw [read, readAs, solo_storeRead hw, hitem]
    rw [List.filterMap_cons_some hitem]
    exact (solo_bind hread).trans (solo_bind (ih hrest))

theorem solo_list (hw : Working w) (hitems : ∀ jobId ∈ w.itemIds, ∃ item, w.item? jobId = some item) :
    list.solo w n = some (.ok w.queueSnapshot, w, n) := by
  have hids : (storeRead .listItems fun w ↦ .ok w.itemIds).solo w n = some (.ok w.itemIds, w, n) :=
    solo_storeRead hw _
  exact (solo_bind hids).trans (solo_bind (solo_readItems hw _ hitems))

/-- An allowed update of the newest snapshot of an item is committed. -/
theorem solo_update (hw : Working w) {item : QueueItem} {patch : QueuePatch}
    (hitem : w.item? item.jobId = some item)
    (hmessage : (item.merge patch w.outside.now).message ≠ some "")
    (hallowed : patch.status.getD item.status ∈ item.status.allowed) :
    (update item patch).solo w n = some (.ok (item.merge patch w.outside.now),
      w.pushItem (item.merge patch w.outside.now), n) := by
  let updated := item.merge patch w.outside.now
  have hread : (read item.jobId).solo w n = some (.ok item, w, n) := by
    rw [read, readAs, solo_storeRead hw, hitem]
  have hupdated : item.updated assertQueueTransition patch w.outside.now = .ok updated := by
    have hparse : updated.parse = .ok updated := if_neg hmessage
    have htransition : assertQueueTransition item updated = .ok () := if_pos hallowed
    show (updated.parse >>= fun updated ↦ do
      assertQueueTransition item updated
      return updated) = _
    rw [hparse]
    show (assertQueueTransition item updated >>= fun _ ↦ pure updated) = _
    rw [htransition]
    rfl
  have hpush : (pushItem item updated).solo w n = some (.ok (), w.pushItem updated, n) := by
    rw [pushItem, solo_storeWrite hw, if_pos hitem]
  have hcommit : (commitItem item updated).solo w n = some (.ok (), w.pushItem updated, n) :=
    (solo_bind hpush).trans
      (solo_storeRead (hw.of_same (sameSurroundings_pushItem w updated)) _)
  refine (solo_bind hread).trans ?_
  rw [if_neg (by simp)]
  have hnow : currentDate.solo w n = some (.ok w.outside.now, w, n) := rfl
  have hresult : (Prog.ofResult (item.updated assertQueueTransition patch w.outside.now) :
      Runtime QueueItem).solo w n = some (.ok updated, w, n) := by
    rw [hupdated]
    rfl
  exact (solo_bind hnow).trans ((solo_bind hresult).trans (solo_bind hcommit))

end QueueStore

/-! ### The order of the snapshot -/

instance : Std.Total QueueStore.listedBefore where
  total a b := by
    simp only [QueueStore.listedBefore]
    have := String.le_total a.jobId b.jobId
    grind

instance : IsTrans QueueItem QueueStore.listedBefore where
  trans a b c := by
    simp only [QueueStore.listedBefore]
    rintro (h | ⟨h, h' | ⟨h', h''⟩⟩) (g | ⟨g, g' | ⟨g', g''⟩⟩)
    · exact .inl (g.trans h)
    · exact .inl (g ▸ h)
    · exact .inl (g ▸ h)
    · exact .inl (h ▸ g)
    · exact .inr ⟨g.trans h, .inl (h'.trans g')⟩
    · exact .inr ⟨g.trans h, .inl (g' ▸ h')⟩
    · exact .inl (h ▸ g)
    · exact .inr ⟨g.trans h, .inl (h' ▸ g')⟩
    · exact .inr ⟨g.trans h, .inr ⟨h'.trans g', String.le_trans h'' g''⟩⟩

/-- The snapshot is in the order of `list`. -/
theorem World.pairwise_queueSnapshot (w : World) :
    w.queueSnapshot.Pairwise QueueStore.listedBefore :=
  List.pairwise_insertionSort _ _

/-- It has the newest snapshot of every item. -/
theorem World.mem_queueSnapshot {item : QueueItem} :
    item ∈ w.queueSnapshot ↔ ∃ jobId ∈ w.itemIds, w.item? jobId = some item := by
  rw [queueSnapshot, List.mem_insertionSort, List.mem_filterMap]

/-! ### Which items are ready -/

namespace Dispatcher

open QueueStore

section Readiness

variable {items : List QueueItem} {item : QueueItem}

/-- An item a pass may dispatch: it is queued, not active, and all its dependencies are completed in
the snapshot. -/
def Eligible (items : List QueueItem) (active : List (JobId × ℕ)) (item : QueueItem) : Prop :=
  item.status = .queued ∧ (∀ entry ∈ active, entry.1 ≠ item.jobId) ∧
    ∀ jobId ∈ item.dependsOnJobIds, ∃ d ∈ items, d.jobId = jobId ∧ d.status = .completed

instance (items : List QueueItem) (active : List (JobId × ℕ)) (item : QueueItem) :
    Decidable (Eligible items active item) := by
  unfold Eligible
  infer_instance

theorem find?_eq_some_of_nodup {d : QueueItem} (hnodup : (items.map QueueItem.jobId).Nodup)
    (hd : d ∈ items) : items.find? (fun candidate ↦ candidate.jobId = d.jobId) = some d := by
  induction items with
  | nil => exact nomatch hd
  | cons candidate rest ih =>
    obtain ⟨hfresh, hrest⟩ := List.nodup_cons.1 hnodup
    rcases List.mem_cons.1 hd with rfl | hd'
    · simp
    · have hne : candidate.jobId ≠ d.jobId := fun h ↦
        hfresh (h ▸ List.mem_map_of_mem hd')
      rw [List.find?_cons_of_neg (by simpa using hne)]
      exact ih hrest hd'

/-- **Ready** are the items all of whose dependencies are completed in the snapshot: of these none
has failed. -/
theorem exists_ready_iff (item : QueueItem) (hnodup : (items.map QueueItem.jobId).Nodup) :
    (∃ deps, readiness items item = .ready deps) ↔
      ∀ jobId ∈ item.dependsOnJobIds, ∃ d ∈ items, d.jobId = jobId ∧ d.status = .completed := by
  constructor
  · rintro ⟨deps, hready⟩ jobId hjobId
    obtain ⟨hjobIds, hcompleted⟩ := dependencies_of_ready hready
    rw [← hjobIds] at hjobId
    obtain ⟨d, hd, hjob⟩ := List.mem_map.1 hjobId
    exact ⟨d, (hcompleted d hd).1, hjob, (hcompleted d hd).2⟩
  · intro hall
    have hfound : ∀ found ∈ dependencies items item, ∃ d, found = some d ∧
        d.status = .completed := by
      intro found hmem
      obtain ⟨jobId, hjobId, rfl⟩ := List.mem_map.1 hmem
      obtain ⟨d, hd, rfl, hstatus⟩ := hall jobId hjobId
      exact ⟨d, find?_eq_some_of_nodup hnodup hd, hstatus⟩
    have hfailed : ((dependencies items item).findSome? fun dependency ↦
        dependency.filter fun d ↦ d.status.isTerminal && d.status ≠ .completed) = none := by
      refine List.findSome?_eq_none_iff.2 fun found hmem ↦ ?_
      obtain ⟨d, rfl, hstatus⟩ := hfound found hmem
      simp [Option.filter, hstatus]
    have hwaiting : ((dependencies items item).any fun dependency ↦
        !dependency.any fun d ↦ d.status = .completed) = false := by
      refine List.any_eq_false.2 fun found hmem ↦ ?_
      obtain ⟨d, rfl, hstatus⟩ := hfound found hmem
      simp [hstatus]
    exact ⟨_, by simp only [readiness, hfailed, hwaiting]; rfl⟩

/-- Dependencies with their completions name their attempts. -/
theorem exists_parentAttemptIds {deps : List QueueItem}
    (h : ∀ d ∈ deps, ∃ completion, d.completion = some completion) :
    ∃ parents, parentAttemptIds deps = .ok parents := by
  induction deps with
  | nil => exact ⟨[], rfl⟩
  | cons d rest ih =>
    obtain ⟨⟨completion, hcompletion⟩, hrest⟩ := List.forall_mem_cons.1 h
    obtain ⟨parents, hparents⟩ := ih hrest
    refine ⟨completion.attemptId :: parents, ?_⟩
    rw [parentAttemptIds] at hparents ⊢
    rw [List.mapM_cons, hcompletion, hparents]
    rfl

end Readiness

/-! ### A reservation -/

theorem conductorFrame_trans (w₁ w₂ w₃ : World) (h : ConductorFrame w₁ w₂)
    (h' : ConductorFrame w₂ w₃) : ConductorFrame w₁ w₃ :=
  ⟨h'.contracts.trans h.contracts, h'.itemIds.trans h.itemIds, h'.items.trans h.items,
    h'.lease.trans h.lease, h'.generation.trans h.generation, h'.dead.trans h.dead,
    h'.dispatcher.trans h.dispatcher, h'.maxConcurrent.trans h.maxConcurrent,
    h'.outside.trans h.outside, h'.failure.trans h.failure, h'.selections.trans h.selections,
    h'.leaseThread.trans h.leaseThread, h.uuid.trans h'.uuid⟩

section Reservation

open Conductor

variable {A : Type} {label : RuntimeStep}

theorem plain_storeRead {f : World → Except RuntimeError A} :
    (storeRead label f).Plain ConductorFrame :=
  Plain.read ConductorFrame.refl

theorem plain_askOutside {answer : Outside → Except RuntimeError A} :
    (askOutside answer).Plain ConductorFrame :=
  Plain.read ConductorFrame.refl

theorem plain_bindProposalContribution {contract : JobContract} {parent : AttemptManifest} :
    (bindProposalContribution contract parent).Plain ConductorFrame := by
  refine Plain.bind plain_storeRead fun parentContract ↦ .ite (.ret _) (.ite (.ret _) ?_)
  cases parent.workspace with
  | none => exact .ret _
  | some workspace =>
    exact .ite (.ret _) (.ite (.ret _) (Plain.bind plain_askOutside fun files ↦
      .ite (.ret _) (.ret _)))

theorem plain_validateContributions {contract : JobContract}
    (contributions : List ProposalContribution) :
    (validateContributions contract contributions).Plain ConductorFrame := by
  induction contributions with
  | nil => exact .ret _
  | cons expected rest ih =>
    exact Plain.bind plain_storeRead fun manifest ↦
      Plain.bind plain_bindProposalContribution fun actual ↦ .ite (.ret _) ih

theorem plain_collectContributions {contract : JobContract} (attemptIds : List AttemptId)
    (contributions : List ProposalContribution) :
    (collectContributions contract attemptIds contributions).Plain ConductorFrame := by
  induction attemptIds generalizing contributions with
  | nil => exact .ret _
  | cons attemptId rest ih =>
    exact Plain.bind plain_storeRead fun parent ↦ Plain.bind (.ret _) fun inherited ↦
      Plain.bind plain_bindProposalContribution fun candidate ↦ Plain.bind (.ret _) fun _ ↦ ih _

theorem plain_reservationLineage {contract : JobContract} {parents : List AttemptId} :
    (reservationLineage contract parents).Plain ConductorFrame := by
  refine .ite (.ret _) (Plain.mapError (Plain.bind ?_ fun lineage ↦ .ret _))
  exact Plain.bind (plain_collectContributions _ _) fun contributions ↦ .ite (.ret _) <|
    .ite (.ret _) <| Plain.bind (.ite (.ret _) (plain_validateContributions _)) fun _ ↦ .ret _

theorem plain_reserveAttemptFrom {contract : JobContract} {lineage : Option ProposalLineage}
    {operation : Option Uuid} (ordinal remaining : ℕ) :
    (ArtifactStore.reserveAttemptFrom contract lineage operation ordinal remaining).Plain
      ConductorFrame := by
  induction remaining generalizing ordinal with
  | zero => exact .ret _
  | succ remaining ih =>
    refine Plain.bind (Plain.bind (Plain.atomic fun w ↦ ?_) fun created ↦ ?_) fun reserved ↦ ?_
    · split
      · exact .refl w
      · dsimp only
        split
        · exact ⟨rfl, rfl, rfl, rfl, rfl, rfl, rfl, rfl, rfl, rfl, rfl, rfl, le_rfl⟩
        · exact .refl w
    · cases created with
      | some manifest => exact .ret _
      | none => exact Plain.bind plain_storeRead fun _ ↦ .ret _
    · cases reserved with
      | some manifest => exact .ret _
      | none => exact ih _

/-- A reservation touches nothing but attempts, and always comes to an end. -/
theorem plain_reservePreparedAttempt {jobId : JobId} {parents : List AttemptId}
    {operation : Option Uuid} :
    (reservePreparedAttempt jobId parents operation).Plain ConductorFrame := by
  refine Plain.bind plain_storeRead fun contract ↦ .ite (.ret _) <|
    Plain.bind plain_askOutside fun _ ↦ Plain.bind plain_reservationLineage fun lineage ↦
      Plain.bind (plain_reserveAttemptFrom _ _) fun manifest ↦ ?_
  refine Plain.bind (Plain.attempt plain_storeRead) fun cleanup ↦ ?_
  cases cleanup with
  | ok cleanup => exact .ret _
  | error _ => exact .ret _

end Reservation

/-! ### One item -/

/-- The steps of a rejected reservation. -/
def IsRejection (label : RuntimeStep) : Prop :=
  ∃ jobId error, label = .reservationRejected jobId error

theorem solo_reachFailpoint (hw : Working w) {point : DispatchFailpointName} :
    (reachFailpoint point).solo w n = some (.ok (), w, n) := by
  rw [reachFailpoint, askOutside, solo_read, hw.failpoints]

/-- **A ready item is dispatched** when its reservation is not rejected: it ends up running, and
entered in `active` under the thread that executes it. -/
theorem solo_dispatchItem (hw : Working w) {items deps : List QueueItem} {item : QueueItem}
    {parents : List AttemptId} (hitem : w.item? item.jobId = some item)
    (hqueued : item.status = .queued) (hparents : parentAttemptIds deps = .ok parents)
    (havoids : (dispatchItem self items item deps).Avoids IsRejection w n) :
    ∃ running w', (dispatchItem self items item deps).solo w n = some (.ok true, w', n + 1) ∧
      running.status = .running ∧ SameSurroundings w w' ∧
      (∀ jobId, w'.item? jobId = if jobId = item.jobId then some running else w.item? jobId) ∧
      (w'.dispatcher self.process).active =
        (w.dispatcher self.process).active ++ [(item.jobId, n)] := by
  rw [dispatchItem, hparents] at havoids ⊢
  have hret : (Prog.ofResult (.ok parents) : Runtime (List AttemptId)).solo w n =
      some (.ok parents, w, n) := rfl
  -- the selection is a ghost, and the item becomes dispatching
  let w₁ : World :=
    { w with uuid := w.uuid + 1, selections := ⟨w.uuid, item, items⟩ :: w.selections }
  have hw₁ : Working w₁ := ⟨hw.storage, hw.failpoints⟩
  have hselect : (newDispatchOperation item items).solo w n = some (.ok w.uuid, w₁, n) := rfl
  let patch : QueuePatch :=
    { status := some .dispatching, dispatchOperationId := some (some w.uuid)
      attemptId := some none, message := some none }
  let dispatching := item.merge patch w.outside.now
  let w₂ := w₁.pushItem dispatching
  have hw₂ : Working w₂ := ⟨hw.storage, hw.failpoints⟩
  have hdispatching : (QueueStore.update item patch).solo w₁ n = some (.ok dispatching, w₂, n) :=
    solo_update hw₁ hitem (fun h ↦ by cases h) (by
      rw [hqueued]
      exact (by decide : QueueItemStatus.dispatching ∈ QueueItemStatus.queued.allowed))
  -- the reservation ends, and not with a rejection
  have hplain : (Conductor.reservePreparedAttempt item.jobId parents (some w.uuid)).Plain
      ConductorFrame := plain_reservePreparedAttempt
  obtain ⟨r, w₃, hreserve, hframe⟩ :=
    hplain.exists_solo ConductorFrame.refl conductorFrame_trans w₂ n
  have hreserved := ((((havoids.of_bind hret).of_bind hselect).of_bind hdispatching).of_bind
    (solo_reachFailpoint hw₂)).of_bind (solo_attempt hreserve)
  obtain ⟨reserved, rfl⟩ : ∃ reserved, r = .ok reserved := by
    cases r with
    | ok reserved => exact ⟨reserved, rfl⟩
    | error error => exact absurd ⟨_, _, rfl⟩ (hreserved _ List.mem_cons_self)
  have hw₃ : Working w₃ := ⟨hframe.failure ▸ hw.storage, hframe.outside ▸ hw.failpoints⟩
  have hitem₃ : w₃.item? item.jobId = some dispatching := by
    rw [World.item?, hframe.items]
    exact (World.item?_pushItem w₁ dispatching item.jobId).trans (if_pos rfl)
  let bound : QueuePatch := { status := some .running, attemptId := some (some reserved.attemptId) }
  let running := dispatching.merge bound w₃.outside.now
  let w₄ := w₃.pushItem running
  have hw₄ : Working w₄ := ⟨hw₃.storage, hw₃.failpoints⟩
  have hrunning : (QueueStore.update dispatching bound).solo w₃ n = some (.ok running, w₄, n) :=
    solo_update hw₃ hitem₃ (fun h ↦ by cases h)
      (by decide : QueueItemStatus.running ∈ QueueItemStatus.dispatching.allowed)
  refine ⟨running, _, (solo_bind hret).trans <| (solo_bind hselect).trans <|
    (solo_bind hdispatching).trans <| (solo_bind (solo_reachFailpoint hw₂)).trans <|
    (solo_bind (solo_attempt hreserve)).trans <| (solo_bind (solo_reachFailpoint hw₃)).trans <|
    (solo_bind hrunning).trans <| (solo_bind (solo_reachFailpoint hw₄)).trans
    (solo_bind (solo_fork _ _ _ _ _)), rfl, ?_, ?_, ?_⟩
  · exact ⟨hframe.outside, hframe.failure, hframe.maxConcurrent⟩
  · intro jobId
    have hold : w₃.item? jobId = (w₁.pushItem dispatching).item? jobId := by
      rw [World.item?, hframe.items]
      rfl
    refine (World.item?_pushItem w₃ running jobId).trans ?_
    show (if jobId = item.jobId then _ else _) = _
    rw [hold, World.item?_pushItem]
    show (if jobId = item.jobId then _ else if jobId = item.jobId then _ else _) = _
    split_ifs
    · rfl
    · rfl
  · have hmemory : w₄.dispatcher = w.dispatcher := hframe.dispatcher
    show (Function.update w₄.dispatcher self.process _ self.process).active = _
    rw [Function.update_self, hmemory]
    rfl

/-! ### The loop -/

/-- What a pass over the items `rest` does when it dispatches `chosen` of them, from the thread
identity `n` on. -/
structure PassOutcome (own : Self) (rest chosen : List QueueItem) (n : ℕ) (w w' : World) :
    Prop where
  surroundings : SameSurroundings w w'
  running : ∀ item ∈ chosen, ∃ item', w'.item? item.jobId = some item' ∧ item'.status = .running
  /-- The others stay as they were, or their dependencies have failed. -/
  others : ∀ item ∈ rest, item ∉ chosen → w'.item? item.jobId = some item ∨
    ∃ item', w'.item? item.jobId = some item' ∧ item'.status = .needsInput
  elsewhere : ∀ jobId ∉ rest.map QueueItem.jobId, w'.item? jobId = w.item? jobId
  active : (w'.dispatcher own.process).active = (w.dispatcher own.process).active ++
    (chosen.zipIdx n).map fun entry ↦ (entry.1.jobId, entry.2)

namespace PassOutcome

variable {item : QueueItem} {rest chosen : List QueueItem} {w₁ : World}

/-- The loop stops. -/
theorem stop (hcurrent : ∀ item ∈ rest, w.item? item.jobId = some item) :
    PassOutcome self rest [] n w w where
  surroundings := .refl w
  running _ h := nomatch h
  others item h _ := .inl (hcurrent item h)
  elsewhere _ _ := rfl
  active := by simp

/-- An item is passed over. -/
theorem skip (h : PassOutcome self rest chosen n w w') (hitem : w.item? item.jobId = some item)
    (hfresh : item.jobId ∉ rest.map QueueItem.jobId) :
    PassOutcome self (item :: rest) chosen n w w' where
  surroundings := h.surroundings
  running := h.running
  others i hi hchosen := by
    rcases List.mem_cons.1 hi with rfl | hi'
    · exact .inl ((h.elsewhere _ hfresh).trans hitem)
    · exact h.others i hi' hchosen
  elsewhere jobId hjobId := h.elsewhere jobId fun hmem ↦ hjobId (List.mem_cons_of_mem _ hmem)
  active := h.active

/-- An item whose dependency failed is given up. -/
theorem giveUp {item' : QueueItem}
    (h : PassOutcome self rest chosen n (w.pushItem item') w') (hjobId : item'.jobId = item.jobId)
    (hstatus : item'.status = .needsInput) (hfresh : item.jobId ∉ rest.map QueueItem.jobId) :
    PassOutcome self (item :: rest) chosen n w w' where
  surroundings := (sameSurroundings_pushItem w item').trans h.surroundings
  running := h.running
  others i hi hchosen := by
    rcases List.mem_cons.1 hi with rfl | hi'
    · refine .inr ⟨item', ?_, hstatus⟩
      rw [h.elsewhere _ hfresh, World.item?_pushItem, if_pos hjobId.symm]
    · exact h.others i hi' hchosen
  elsewhere jobId hnot := by
    rw [List.map_cons, List.mem_cons, not_or] at hnot
    rw [h.elsewhere jobId hnot.2, World.item?_pushItem, hjobId, if_neg hnot.1]
  active := h.active

/-- An item is dispatched. -/
theorem dispatch {running : QueueItem} (h : PassOutcome self rest chosen (n + 1) w₁ w')
    (hstatus : running.status = .running) (hsame : SameSurroundings w w₁)
    (hitems : ∀ jobId, w₁.item? jobId = if jobId = item.jobId then some running else w.item? jobId)
    (hactive : (w₁.dispatcher self.process).active =
      (w.dispatcher self.process).active ++ [(item.jobId, n)])
    (hfresh : item.jobId ∉ rest.map QueueItem.jobId) :
    PassOutcome self (item :: rest) (item :: chosen) n w w' where
  surroundings := hsame.trans h.surroundings
  running i hi := by
    rcases List.mem_cons.1 hi with rfl | hi'
    · exact ⟨running, by rw [h.elsewhere _ hfresh, hitems, if_pos rfl], hstatus⟩
    · exact h.running i hi'
  others i hi hchosen := by
    rw [List.mem_cons, not_or] at hchosen
    exact h.others i ((List.mem_cons.1 hi).resolve_left hchosen.1) hchosen.2
  elsewhere jobId hnot := by
    rw [List.map_cons, List.mem_cons, not_or] at hnot
    rw [h.elsewhere jobId hnot.2, hitems, if_neg hnot.1]
  active := by
    rw [h.active, hactive, List.zipIdx_cons, List.map_cons, List.append_assoc,
      List.singleton_append]

end PassOutcome

/-- The first items of `rest` a pass may dispatch, as many as there is room for. -/
def firstEligible (items : List QueueItem) (active : List (JobId × ℕ)) (maxConcurrent : ℕ)
    (rest : List QueueItem) : List QueueItem :=
  (rest.filter fun item ↦ Eligible items active item).take (maxConcurrent - active.length)

section Loop

variable {items rest : List QueueItem} {item : QueueItem} {active : List (JobId × ℕ)}
  {maxConcurrent : ℕ}

theorem firstEligible_of_not (h : ¬Eligible items active item) :
    firstEligible items active maxConcurrent (item :: rest) =
      firstEligible items active maxConcurrent rest := by
  rw [firstEligible, List.filter_cons_of_neg (by simpa using h)]
  rfl

theorem firstEligible_of_le (h : maxConcurrent ≤ active.length) :
    firstEligible items active maxConcurrent rest = [] := by
  rw [firstEligible, Nat.sub_eq_zero_of_le h, List.take_zero]

/-- An eligible item is the first one chosen; that it is active from then on keeps none of the others
out. -/
theorem firstEligible_of_eligible (h : Eligible items active item)
    (hroom : active.length < maxConcurrent) (hfresh : item.jobId ∉ rest.map QueueItem.jobId) :
    firstEligible items active maxConcurrent (item :: rest) =
      item :: firstEligible items (active ++ [(item.jobId, n)]) maxConcurrent rest := by
  have hsub : maxConcurrent - active.length =
      maxConcurrent - (active ++ [(item.jobId, n)]).length + 1 := by
    simp only [List.length_append, List.length_singleton]
    omega
  have hfilter : (rest.filter fun i ↦ Eligible items active i) =
      rest.filter fun i ↦ Eligible items (active ++ [(item.jobId, n)]) i := by
    refine List.filter_congr fun i hi ↦ ?_
    have hne : item.jobId ≠ i.jobId := fun heq ↦ hfresh (heq ▸ List.mem_map_of_mem hi)
    simp only [Eligible, List.forall_mem_append, List.forall_mem_singleton, ne_eq, hne,
      not_false_eq_true, and_true]
  rw [firstEligible, List.filter_cons_of_pos (by simpa using h), hsub, List.take_succ_cons,
    hfilter]
  rfl

theorem solo_getMemory (self : Self) (w : World) (n : ℕ) : (getMemory self).solo w n =
    some (.ok (w.dispatcher self.process), w, n) := rfl

theorem solo_getMemory_bind {A : Type} (f : DispatcherMemory → Runtime A) :
    (getMemory self >>= f).solo w n = (f (w.dispatcher self.process)).solo w n :=
  solo_bind (solo_getMemory self w n)

theorem solo_maxConcurrent : (Prog.read .memory fun w ↦ .ok w.maxConcurrent : Runtime ℕ).solo w n =
    some (.ok w.maxConcurrent, w, n) := rfl

theorem solo_maxConcurrent_bind {A : Type} (f : ℕ → Runtime A) :
    ((Prog.read .memory fun w ↦ .ok w.maxConcurrent) >>= f).solo w n =
      (f w.maxConcurrent).solo w n :=
  solo_bind solo_maxConcurrent

/-- The first test of the loop. -/
theorem skipped_iff :
    (item.status ≠ .queued ∨ active.any (fun entry ↦ entry.1 = item.jobId) = true) ↔
      ¬(item.status = .queued ∧ ∀ entry ∈ active, entry.1 ≠ item.jobId) := by
  rw [not_and_or, List.any_eq_true]
  simp only [decide_eq_true_eq, not_forall, not_not, exists_prop, ne_eq]

/-- **The loop dispatches the first eligible items there is room for.** The snapshot is that of the
queue as far as the items still to visit are concerned. -/
theorem solo_dispatchItems (self : Self) (hw : Working w) (hnodup : (items.map QueueItem.jobId).Nodup)
    (hevidence : ∀ d ∈ items, d.status = .completed → ∃ completion, d.completion = some completion)
    (hrest : (rest.map QueueItem.jobId).Nodup)
    (hcurrent : ∀ item ∈ rest, w.item? item.jobId = some item) (dispatched : ℕ)
    (havoids : (dispatchItems self items rest dispatched).Avoids IsRejection w n)
    (chosen : List QueueItem)
    (hchosen : firstEligible items (w.dispatcher self.process).active w.maxConcurrent rest =
      chosen) :
    ∃ w', (dispatchItems self items rest dispatched).solo w n =
        some (.ok (dispatched + chosen.length), w', n + chosen.length) ∧
      PassOutcome self rest chosen n w w' := by
  induction rest generalizing w n dispatched chosen with
  | nil =>
    obtain rfl : [] = chosen := by rw [← hchosen, firstEligible, List.filter_nil, List.take_nil]
    exact ⟨w, rfl, .stop hcurrent⟩
  | cons item rest ih =>
    obtain ⟨hfresh, hrest⟩ := List.nodup_cons.1 hrest
    obtain ⟨hitem, hcurrent'⟩ := List.forall_mem_cons.1 hcurrent
    have hskip (hnot : ¬Eligible items (w.dispatcher self.process).active item)
        (ha : (dispatchItems self items rest dispatched).Avoids IsRejection w n) :
        ∃ w', (dispatchItems self items rest dispatched).solo w n =
            some (.ok (dispatched + chosen.length), w', n + chosen.length) ∧
          PassOutcome self (item :: rest) chosen n w w' := by
      rw [firstEligible_of_not hnot] at hchosen
      obtain ⟨w', hsolo, hw'⟩ := ih hw hrest hcurrent' dispatched ha chosen hchosen
      exact ⟨w', hsolo, hw'.skip hitem hfresh⟩
    rw [dispatchItems] at havoids ⊢
    have hafter := havoids.of_bind (solo_getMemory self w n)
    rw [solo_getMemory_bind]
    by_cases hskipped : item.status ≠ .queued ∨
        (w.dispatcher self.process).active.any (fun entry ↦ entry.1 = item.jobId) = true
    · rw [if_pos hskipped] at hafter ⊢
      exact hskip (fun h ↦ skipped_iff.1 hskipped ⟨h.1, h.2.1⟩) hafter
    rw [if_neg hskipped] at hafter ⊢
    obtain ⟨hqueued, hinactive⟩ := not_not.1 fun h ↦ hskipped (skipped_iff.2 h)
    have hready_iff := exists_ready_iff item hnodup
    cases hready : readiness items item with
    | failed dependency =>
      rw [hready] at hafter hready_iff
      have hnot : ¬Eligible items (w.dispatcher self.process).active item := fun h ↦
        absurd (hready_iff.2 h.2.2) (by simp)
      let patch : QueuePatch :=
        { status := some .needsInput
          message := some (some ("Dependency " ++ dependency.jobId ++ " ended " ++
            dependency.status.text)) }
      have hmessage : (item.merge patch w.outside.now).message ≠ some "" := fun h ↦ by
        have hlength := congrArg String.length (Option.some.inj h)
        simp only [String.length_append] at hlength
        have : "Dependency ".length = 11 := rfl
        have : "".length = 0 := rfl
        omega
      have hupdate : (QueueStore.update item patch).solo w n =
          some (.ok (item.merge patch w.outside.now), w.pushItem _, n) :=
        solo_update hw hitem hmessage (by
          rw [hqueued]
          exact (by decide : QueueItemStatus.needsInput ∈ QueueItemStatus.queued.allowed))
      rw [firstEligible_of_not hnot] at hchosen
      have hcurrent₁ : ∀ i ∈ rest,
          (w.pushItem (item.merge patch w.outside.now)).item? i.jobId = some i := by
        intro i hi
        rw [World.item?_pushItem, if_neg, hcurrent' i hi]
        exact fun heq ↦ hfresh (heq ▸ List.mem_map_of_mem hi)
      obtain ⟨w', hsolo, hw'⟩ := ih (hw.of_same (sameSurroundings_pushItem w _)) hrest hcurrent₁
        dispatched (hafter.of_bind hupdate) chosen hchosen
      exact ⟨w', (solo_bind hupdate).trans hsolo, hw'.giveUp rfl rfl hfresh⟩
    | waiting =>
      rw [hready] at hafter hready_iff
      exact hskip (fun h ↦ absurd (hready_iff.2 h.2.2) (by simp)) hafter
    | ready deps =>
      rw [hready] at hafter
      have heligible : Eligible items (w.dispatcher self.process).active item :=
        ⟨hqueued, hinactive, hready_iff.1 ⟨deps, hready⟩⟩
      have hafter' := hafter.of_bind solo_maxConcurrent
      dsimp only
      rw [solo_maxConcurrent_bind]
      by_cases hfull : w.maxConcurrent ≤ (w.dispatcher self.process).active.length
      · rw [firstEligible_of_le hfull] at hchosen
        subst hchosen
        rw [if_pos hfull]
        exact ⟨w, rfl, .stop hcurrent⟩
      rw [if_neg hfull] at hafter' ⊢
      obtain ⟨parents, hparents⟩ := exists_parentAttemptIds fun d hd ↦
        have hcompleted := (dependencies_of_ready hready).2 d hd
        hevidence d hcompleted.1 hcompleted.2
      obtain ⟨running, w₁, hsolo₁, hstatus, hsame, hitems, hactive⟩ :=
        solo_dispatchItem hw hitem hqueued hparents hafter'.left
      have hcurrent₁ : ∀ i ∈ rest, w₁.item? i.jobId = some i := by
        intro i hi
        rw [hitems, if_neg, hcurrent' i hi]
        exact fun heq ↦ hfresh (heq ▸ List.mem_map_of_mem hi)
      rw [firstEligible_of_eligible (n := n) heligible (not_le.1 hfull) hfresh] at hchosen
      generalize hchosen' : firstEligible items _ w.maxConcurrent rest = chosen' at hchosen
      subst hchosen
      obtain ⟨w', hsolo, hw'⟩ := ih (hw.of_same hsame) hrest hcurrent₁ (dispatched + 1)
        (hafter'.of_bind hsolo₁) chosen' (by rw [hactive, hsame.maxConcurrent, hchosen'])
      refine ⟨w', (solo_bind hsolo₁).trans ?_, hw'.dispatch hstatus hsame hitems hactive hfresh⟩
      rw [if_pos rfl, hsolo, List.length_cons, Nat.add_assoc, Nat.add_assoc, Nat.add_comm 1]

end Loop

/-! ### The pass -/

/-- A world a dispatch pass can start in: the process has the lease and its state lock is free, and
the queue is a directory of items each of which shows the evidence its status asks for. -/
structure PassReady (own : Self) (w : World) : Prop extends Working w where
  lease : (w.dispatcher own.process).lease.isSome
  unlocked : (w.dispatcher own.process).lockQueue = []
  itemIds : w.itemIds.Nodup
  items : ∀ jobId ∈ w.itemIds, ∃ item, w.item? jobId = some item ∧ item.jobId = jobId ∧
    item.Evidenced

/-- The items a pass dispatches. -/
def chosenItems (self : Self) (w : World) : List QueueItem :=
  firstEligible w.queueSnapshot (w.dispatcher self.process).active w.maxConcurrent w.queueSnapshot

/-- The distinct jobs of the items in a snapshot. -/
theorem PassReady.nodup_queueSnapshot (h : PassReady self w) :
    (w.queueSnapshot.map QueueItem.jobId).Nodup := by
  have hmap : ∀ jobIds : List JobId, (∀ jobId ∈ jobIds, jobId ∈ w.itemIds) →
      (jobIds.filterMap w.item?).map QueueItem.jobId = jobIds := by
    intro jobIds hmem
    induction jobIds with
    | nil => rfl
    | cons jobId rest ih =>
      obtain ⟨item, hitem, hjobId, -⟩ := h.items jobId (hmem jobId List.mem_cons_self)
      rw [List.filterMap_cons_some hitem, List.map_cons, hjobId,
        ih fun i hi ↦ hmem i (List.mem_cons_of_mem _ hi)]
  have hperm := (List.perm_insertionSort listedBefore (w.itemIds.filterMap w.item?)).map
    QueueItem.jobId
  rw [hmap w.itemIds fun _ hi ↦ hi] at hperm
  exact hperm.nodup_iff.2 h.itemIds

theorem PassReady.item?_of_mem (h : PassReady self w) {item : QueueItem}
    (hitem : item ∈ w.queueSnapshot) :
    w.item? item.jobId = some item ∧ item.Evidenced := by
  obtain ⟨jobId, hjobId, hsome⟩ := World.mem_queueSnapshot.1 hitem
  obtain ⟨item', hitem', rfl, hevidenced⟩ := h.items jobId hjobId
  obtain rfl := Option.some.inj (hsome.symm.trans hitem')
  exact ⟨hsome, hevidenced⟩

/-- **A pass dispatches the chosen items.** -/
theorem solo_dispatchAvailable (hw : PassReady self w) {submitted : Bool}
    (havoids : (dispatchAvailable self submitted).Avoids IsRejection w n) :
    ∃ w', (dispatchAvailable self submitted).solo w n =
        some (.ok (chosenItems self w).length, w', n + (chosenItems self w).length) ∧
      PassOutcome self w.queueSnapshot (chosenItems self w) n w w' := by
  let memory := w.dispatcher self.process
  -- the pass gets the lock, and checks the lease
  let entered := { memory with lockQueue := memory.lockQueue ++ [self.thread] }
  let w₁ := w.setDispatcher self.process entered
  have hmemory₁ : w₁.dispatcher self.process = entered := Function.update_self ..
  have henter : (setMemory self .enterLock fun memory ↦
      { memory with lockQueue := memory.lockQueue ++ [self.thread] }).solo w n =
        some (.ok (), w₁, n) := rfl
  have hlock : (Prog.await .awaitLock
      (fun w ↦ (w.dispatcher self.process).lockQueue.head? = some self.thread)
      fun w ↦ (.ok (), w) : Runtime Unit).solo w₁ n = some (.ok (), w₁, n) := by
    refine solo_await _ _ ?_
    rw [hmemory₁]
    simp [entered, memory, hw.unlocked]
  let checked := { entered with passes := entered.passes ++ [self.thread] }
  let w₂ := w₁.setDispatcher self.process checked
  have hmemory₂ : w₂.dispatcher self.process = checked := Function.update_self ..
  have hcheck : (checkLease self submitted).solo w₁ n = some (.ok (), w₂, n) := by
    have hlease : ¬entered.lease.isNone = true := by
      obtain ⟨lease, hsome⟩ := Option.isSome_iff_exists.1 hw.lease
      have hentered : entered.lease = some lease := hsome
      simp [hentered]
    rw [checkLease, solo_atomic, hmemory₁]
    dsimp only
    rw [if_neg hlease]
  -- the loop over the snapshot
  have hw₂ : Working w₂ := ⟨hw.storage, hw.failpoints⟩
  have hlist : list.solo w₂ n = some (.ok w.queueSnapshot, w₂, n) := by
    refine solo_list hw₂ fun jobId hjobId ↦ ?_
    obtain ⟨item, hitem, -⟩ := hw.items jobId hjobId
    exact ⟨item, hitem⟩
  have hbody := ((havoids.of_bind henter).of_bind hlock).of_ensuring.of_bind hcheck
  have hactive₂ : (w₂.dispatcher self.process).active = memory.active := by
    rw [hmemory₂]
  obtain ⟨w₃, hsolo, houtcome⟩ := solo_dispatchItems self hw₂ hw.nodup_queueSnapshot
    (fun d hd hcompleted ↦ by
      obtain ⟨completion, -, -, hcompletion, -⟩ :=
        (hw.item?_of_mem hd).2.completed hcompleted
      exact ⟨completion, hcompletion⟩)
    hw.nodup_queueSnapshot (fun item hitem ↦ (hw.item?_of_mem hitem).1) 0
    (hbody.of_ensuring.of_bind hlist) (chosenItems self w) (by rw [hactive₂]; rfl)
  rw [Nat.zero_add] at hsolo
  -- the ways out
  let w₄ := w₃.setDispatcher self.process
    { w₃.dispatcher self.process with
      passes := (w₃.dispatcher self.process).passes.filter (· ≠ self.thread) }
  let w₅ := w₄.setDispatcher self.process
    { w₄.dispatcher self.process with lockQueue := (w₄.dispatcher self.process).lockQueue.tail }
  have hloop : (do
      let items ← list
      dispatchItems self items items 0).solo w₂ n = some (_, w₃, _) := (solo_bind hlist).trans hsolo
  have hleave : (leavePass self).solo w₃ (n + (chosenItems self w).length) =
      some (.ok (), w₄, n + (chosenItems self w).length) := rfl
  have hchecked : (do
      checkLease self submitted
      Prog.ensuring
        (do
          let items ← list
          dispatchItems self items items 0)
        (leavePass self)).solo w₁ n = some (_, w₄, _) :=
    (solo_bind hcheck).trans (solo_ensuring hloop hleave)
  refine ⟨w₅, (solo_bind henter).trans <| (solo_bind hlock).trans (solo_ensuring hchecked rfl), ?_⟩
  refine ⟨⟨houtcome.surroundings.outside, houtcome.surroundings.failure,
    houtcome.surroundings.maxConcurrent⟩, houtcome.running, houtcome.others, houtcome.elsewhere, ?_⟩
  have hactive₅ : (w₅.dispatcher self.process).active = (w₃.dispatcher self.process).active := by
    simp [w₅, w₄, World.setDispatcher]
  rw [hactive₅, houtcome.active, hactive₂]

end Dispatcher

end CodeConductor
