import CodeConductor.Launch.Stages
import CodeConductor.Runtime.System

/-!
# What stands behind an attempt and a completion

An attempt is reserved in a dispatch pass, for an item the pass selected from one snapshot of the
queue; the selection is kept as a ghost, under the operation identity it drew. `gatingProtocol` is the
agreement that every attempt has such a selection and every snapshot of an item shows the evidence its
status asks for. It asks nothing of leases, locks or order: the two facts hold of whatever passes,
executions, recoveries and owners do at the same time.
-/

namespace CodeConductor

open Async Async.Prog Async.Protocol

/-! ### Selections -/

/-- The selection stands behind an attempt of the job `jobId` with these parents: in the snapshot the
pass read, every job the item depends on is there and completed, and the parents are the attempts the
completions name. -/
structure Selection.Approves (sel : Selection) (jobId : JobId) (parents : Option (List AttemptId)) :
    Prop where
  jobId : sel.item.jobId = jobId
  dependencies : ∃ dependencies : List QueueItem, ∃ completions : List QueueCompletion,
    dependencies.map QueueItem.jobId = sel.item.dependsOnJobIds ∧
    (∀ d ∈ dependencies, d ∈ sel.items ∧ d.status = .completed) ∧
    dependencies.map QueueItem.completion = completions.map some ∧
    parents = if sel.item.dependsOnJobIds = [] then none
      else some (completions.map QueueCompletion.attemptId).eraseDups

/-- What holds of selections, items and attempts. -/
structure GateInv (w : World) : Prop where
  items : ∀ j, ∀ item ∈ w.items j, item.jobId = j ∧ item.Evidenced
  /-- The snapshot of a selection was read from the journals. -/
  snapshot : ∀ sel ∈ w.selections, sel.item ∈ sel.items ∧
    ∀ item ∈ sel.items, item ∈ w.items item.jobId
  fresh : ∀ sel ∈ w.selections, sel.dispatchOperationId < w.uuid
  once : (w.selections.map Selection.dispatchOperationId).Nodup
  attempts : ∀ id, ∀ m ∈ w.attempts id, ∃ sel ∈ w.selections,
    m.dispatchOperationId = some sel.dispatchOperationId ∧ sel.Approves id.jobId m.parents

/-- What may be relied on: nothing is taken from a journal or from the selections. -/
structure GateKept (w w' : World) : Prop where
  items : ∀ j, ∀ item ∈ w.items j, item ∈ w'.items j
  selections : ∀ sel ∈ w.selections, sel ∈ w'.selections

theorem GateKept.refl (w : World) : GateKept w w := ⟨fun _ _ h ↦ h, fun _ h ↦ h⟩

theorem GateKept.trans {w₁ w₂ w₃ : World} (h : GateKept w₁ w₂) (h' : GateKept w₂ w₃) :
    GateKept w₁ w₃ :=
  ⟨fun j item hi ↦ h'.items j item (h.items j item hi),
    fun sel hs ↦ h'.selections sel (h.selections sel hs)⟩

/-- A background call of a conductor or a dispatcher. -/
def GatePre (p t : ℕ) : RuntimeCall → World → Prop
  | .executeAttempt _ manifest operation, w => ExecutionPre p t manifest operation w
  | .executeItem _, _ => True
  | .runLoop _, _ => True
  | _, _ => False

/-- The agreement. -/
def gatingProtocol : Protocol RuntimeStep World RuntimeCall ℕ where
  inv n w := AttemptInv n w ∧ GateInv w
  rely p t w w' := AttemptRely p t w w' ∧ GateKept w w'
  guar p t n w w' := AttemptGuar .all p t n w w' ∧ GateKept w w'
  ok := System.unrestricted
  pre := GatePre

/-! ### Steps -/

section Steps

variable {p t n : ℕ} {w w' : World}

theorem gatingProtocol_refl (n : ℕ) (w : World) : gatingProtocol.guar p t n w w :=
  ⟨.refl .all p t n w, .refl w⟩

/-- Nothing in the queue has changed. -/
structure SameQueue (w w' : World) : Prop where
  items : w'.items = w.items
  selections : w'.selections = w.selections
  uuid : w.uuid ≤ w'.uuid

theorem SameQueue.kept (h : SameQueue w w') : GateKept w w' :=
  ⟨fun j item hi ↦ by rwa [h.items], fun sel hs ↦ by rwa [h.selections]⟩

/-- A step that touches neither the queue nor an attempt. -/
theorem GateInv.of_same (hinv : GateInv w) (hqueue : SameQueue w w')
    (hattempts : w'.attempts = w.attempts) : GateInv w' where
  items := by rw [hqueue.items]; exact hinv.items
  snapshot := by rw [hqueue.items, hqueue.selections]; exact hinv.snapshot
  fresh sel hs := (hinv.fresh sel (hqueue.selections ▸ hs)).trans_le hqueue.uuid
  once := by rw [hqueue.selections]; exact hinv.once
  attempts := by rw [hattempts, hqueue.selections]; exact hinv.attempts

theorem gating_same (hinv : gatingProtocol.inv n w) (hsame : SameAttempts w w')
    (hqueue : SameQueue w w') : gatingProtocol.inv n w' ∧ gatingProtocol.guar p t n w w' :=
  ⟨⟨hsame.inv hinv.1, hinv.2.of_same hqueue hsame.attempts⟩, hsame.guar .all p t n, hqueue.kept⟩

theorem AttemptManifest.Precedes.operation_eq {prev next : AttemptManifest}
    (h : prev.Precedes next) {operation : Uuid} (hop : prev.dispatchOperationId = some operation) :
    next.dispatchOperationId = some operation := by
  rcases h.identity with ⟨-, heq⟩ | ⟨-, -, hkeep⟩
  · rw [heq, hop]
  · exact hkeep operation hop

/-- A step of a conductor keeps what stands behind the attempts, if what it creates has it. -/
theorem GateInv.of_conductor {L : License} (hinv : GateInv w)
    (hg : AttemptGuar L p t n w w') (hframe : ConductorFrame w w')
    (hcreates : ∀ m, L.creates m → ∃ sel ∈ w.selections,
      m.dispatchOperationId = some sel.dispatchOperationId ∧
        sel.Approves m.attemptId.jobId m.parents) : GateInv w' where
  items := by rw [hframe.items]; exact hinv.items
  snapshot := by rw [hframe.items, hframe.selections]; exact hinv.snapshot
  fresh sel hs := (hinv.fresh sel (hframe.selections ▸ hs)).trans_le hframe.uuid
  once := by rw [hframe.selections]; exact hinv.once
  attempts id m hm := by
    rw [hframe.selections]
    cases hg.attempts id with
    | same heq => exact hinv.attempts id m (heq ▸ hm)
    | push prev next hprev hnext hp _ =>
      rw [hnext] at hm
      rcases List.mem_cons.1 hm with rfl | hold
      · obtain ⟨sel, hsel, hop, happroves⟩ :=
          hinv.attempts id prev (World.mem_attempts_of_attempt? hprev)
        exact ⟨sel, hsel, hp.operation_eq hop, hp.parents ▸ happroves⟩
      · exact hinv.attempts id m hold
    | create manifest _ hnew hid _ hc =>
      rw [hnew] at hm
      obtain rfl := List.mem_singleton.1 hm
      exact hid ▸ hcreates m hc

theorem ConductorFrame.sameQueue (h : ConductorFrame w w') : SameQueue w w' :=
  ⟨h.items, h.selections, h.uuid⟩

/-- The programs of a conductor under the agreement, when a selection stands behind whatever they
create. -/
theorem conductorProtocol_under_gating {L : License} {J : World → Prop}
    (hkeep : ∀ w w', GateKept w w' → J w → J w')
    (hcreates : ∀ w m, J w → L.creates m → ∃ sel ∈ w.selections,
      m.dispatchOperationId = some sel.dispatchOperationId ∧
        sel.Approves m.attemptId.jobId m.parents) :
    (conductorProtocol L).Under gatingProtocol p t J where
  inv hinv := hinv.1
  rely hrely := hrely.1
  ok _ := trivial
  keep _ hrely hJ := hkeep _ _ hrely.2 hJ
  step _ _ hinv _ hJ hinv' hg :=
    ⟨⟨hinv', hinv.2.of_conductor hg.1 hg.2 fun m ↦ hcreates _ m hJ⟩,
      ⟨hg.1.mono (License.all_includes L), hg.2.sameQueue.kept⟩, hkeep _ _ hg.2.sameQueue.kept hJ⟩
  pre {_ _ k _} _ _ _ hpre := by
    cases k <;> first | exact hpre | exact nomatch hpre

/-- The programs that create no attempts. -/
theorem conductorProtocol_under_gating_of_not_creates {L : License} (hL : ∀ m, ¬L.creates m) :
    (conductorProtocol L).Under gatingProtocol p t fun _ ↦ True :=
  conductorProtocol_under_gating (fun _ _ _ _ ↦ trivial) fun _ m _ h ↦ absurd h (hL m)

/-- Committing the next snapshot of an item. -/
theorem GateInv.pushItem (hinv : GateInv w) {next : QueueItem} (hevidenced : next.Evidenced) :
    GateInv (w.pushItem next) where
  items j item hi := by
    by_cases hj : j = next.jobId
    · subst hj
      have hi' : item ∈ next :: w.items next.jobId := by simpa [World.pushItem] using hi
      rcases List.mem_cons.1 hi' with rfl | hold
      · exact ⟨rfl, hevidenced⟩
      · exact hinv.items _ item hold
    · exact hinv.items j item (by simpa [World.pushItem, hj] using hi)
  snapshot sel hs := by
    obtain ⟨hitem, hall⟩ := hinv.snapshot sel hs
    refine ⟨hitem, fun item hi ↦ ?_⟩
    have hold := hall item hi
    by_cases hj : item.jobId = next.jobId
    · rw [hj] at hold ⊢
      simpa [World.pushItem] using .inr hold
    · simpa [World.pushItem, hj] using hold
  fresh := hinv.fresh
  once := hinv.once
  attempts := hinv.attempts

theorem GateKept.pushItem {next : QueueItem} : GateKept w (w.pushItem next) where
  items j item hi := by
    by_cases hj : j = next.jobId
    · subst hj
      simpa [World.pushItem] using .inr hi
    · simpa [World.pushItem, hj] using hi
  selections _ hs := hs

/-- Publishing a new item, which is queued. -/
theorem GateInv.createItem (hinv : GateInv w) {item : QueueItem} (hnew : w.items item.jobId = [])
    (hevidenced : item.Evidenced) : GateInv (w.createItem item) where
  items j i hi := by
    by_cases hj : j = item.jobId
    · subst hj
      obtain rfl : i = item := by simpa [World.createItem] using hi
      exact ⟨rfl, hevidenced⟩
    · exact hinv.items j i (by simpa [World.createItem, hj] using hi)
  snapshot sel hs := by
    obtain ⟨hitem, hall⟩ := hinv.snapshot sel hs
    refine ⟨hitem, fun i hi ↦ ?_⟩
    have hold := hall i hi
    have hj : i.jobId ≠ item.jobId := by
      intro heq
      rw [heq, hnew] at hold
      exact absurd hold (by simp)
    simpa [World.createItem, hj] using hold
  fresh := hinv.fresh
  once := hinv.once
  attempts := hinv.attempts

theorem GateKept.createItem {item : QueueItem} (hnew : w.items item.jobId = []) :
    GateKept w (w.createItem item) where
  items j i hi := by
    by_cases hj : j = item.jobId
    · subst hj
      rw [hnew] at hi
      exact absurd hi (by simp)
    · simpa [World.createItem, hj] using hi
  selections _ hs := hs

end Steps

end CodeConductor
