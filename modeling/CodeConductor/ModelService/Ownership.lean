import CodeConductor.Async.Carry
import CodeConductor.ModelService.Manager

/-!
# The ownership in the model-service record

`OwnershipKept` says what the record is for: its revision does not decrease, the ownership of a live
worker is changed by the manager it names alone, and the manager that holds the handle of a live
worker finds its own ownership in the copy it has.

It holds in the runs in which every rename replaces what the writer had advanced, no worker is
started over a live one that is recorded, and the handler of an unexpected exit finds no foreign
ownership. The code does not see to any of this: the rename is unconditional, and a transition that
does not refresh the copy advances whatever it last saw.
-/

namespace CodeConductor

open Async Async.Prog Async.Protocol

namespace ModelService

/-- A configuration of the managers. -/
abbrev ServiceConfig :=
  Config ServiceStep ServiceWorld ServiceCall RuntimeError (Option ModelServiceRecord) ℕ

/-- The ownership in the file. -/
def ServiceWorld.stored (world : ServiceWorld) : Option Ownership :=
  world.file.bind ModelServiceRecord.ownership

/-- The ownership in the copy a change was made from. -/
def Change.replaced (change : Change) : Option Ownership :=
  change.base.bind ModelServiceRecord.ownership

/-- A replacement of the file that respects what it replaces. -/
structure ProperWrite (write : RecordWrite) : Prop where
  /-- The revision does not decrease. -/
  revision : ∀ record, write.before = some record → record.revision ≤ write.after.revision
  /-- The ownership of a live worker stays, or the manager it names takes it away. -/
  ownership : ∀ ownership, write.before.bind ModelServiceRecord.ownership = some ownership →
    write.workerAlive = true →
      write.after.ownership = some ownership ∨ write.writer = ownership.instanceId

/-- The record keeps the ownerships, in all runs whose steps meet `ok`. -/
structure OwnershipKept (profile : Option ModelServiceProfile) (rounds : ℕ)
    (ok : ℕ → ℕ → ServiceStep → ServiceWorld → Prop) : Prop where
  /-- Every replacement of the file respects what it replaces. -/
  written : ∀ cfg : ServiceConfig, (serviceSystem profile rounds).Reaches ok (.start {}) cfg →
    ∀ write ∈ cfg.shared.written, ProperWrite write
  /-- The manager with the handle of a live worker passes the check of `stop`: whatever record it
  adopted, its ownership is in it. -/
  owner : ∀ cfg : ServiceConfig, (serviceSystem profile rounds).Reaches ok (.start {}) cfg →
    ∀ manager handle, (cfg.shared.memory manager).ownedProcess = some handle →
      cfg.shared.workerAlive handle.pid = true →
        (cfg.shared.memory manager).canUnload manager = true

/-- Whether the file is, in its revision and its ownership, the copy a change was made from. -/
def ServiceWorld.holds (world : ServiceWorld) (base : Option ModelServiceRecord) : Bool :=
  world.file.map (fun record ↦ (record.revision, record.ownership)) =
    base.map fun record ↦ (record.revision, record.ownership)

/-- A rename finds the copy that was advanced; a worker is started when the record in memory names
no live one; the handler of an unexpected exit that drops the handle finds no foreign ownership. -/
def ownsWhatItReplaces : ℕ → ℕ → ServiceStep → ServiceWorld → Bool
  | _, _, .rename _ change, world => world.holds change.base
  | _, _, .own manager, world => !world.namesLive (world.memory manager).ownership
  | _, _, .exit manager handle, world =>
    (world.memory manager).ownedProcess ≠ some handle ||
      (world.memory manager).ownership.all fun ownership ↦ ownership.instanceId = manager
  | _, _, _, _ => true

/-! ### The invariant -/

/-- The invariant of the managers. -/
structure ServiceInv (world : ServiceWorld) : Prop where
  /-- The handle of a live worker has its ownership in memory. -/
  owned : ∀ manager handle, (world.memory manager).ownedProcess = some handle →
    handle.pid ∉ world.deadWorkers →
      (world.memory manager).ownership = some (handle.ownership manager)
  /-- And in the file, once it was written there. -/
  stored : ∀ manager handle, (world.memory manager).ownedProcess = some handle →
    handle.pid ∉ world.deadWorkers → (world.memory manager).unwritten = false →
      world.stored = some (handle.ownership manager)
  /-- The pids in use are below the next one. -/
  handlePid : ∀ manager handle, (world.memory manager).ownedProcess = some handle →
    handle.pid < world.nextPid
  memoryPid : ∀ manager ownership, (world.memory manager).ownership = some ownership →
    ownership.workerPid < world.nextPid
  storedPid : ∀ ownership, world.stored = some ownership → ownership.workerPid < world.nextPid
  /-- Between two transitions nothing is left to write. -/
  turn : ∀ manager, (world.memory manager).running = none →
    (world.memory manager).unwritten = false
  written : ∀ write ∈ world.written, ProperWrite write

/-- What the others may do to the memory of a manager whose transition is running: the handler of an
unexpected exit drops the handle and the ownership. -/
structure Undisturbed (memory memory' : ManagerMemory) : Prop where
  running : memory'.running = memory.running
  unwritten : memory'.unwritten = true → memory.unwritten = true
  handle : ∀ handle, memory'.ownedProcess = some handle → memory.ownedProcess = some handle
  ownership : ∀ ownership, memory'.ownership = some ownership → memory.ownership = some ownership

/-- What the others may do, to a thread of a process. -/
structure ServiceRely (p t : ℕ) (world world' : ServiceWorld) : Prop where
  nextPid : world.nextPid ≤ world'.nextPid
  dead : world.deadWorkers ⊆ world'.deadWorkers
  handle : ∀ manager handle, (world'.memory manager).ownedProcess = some handle →
    (world.memory manager).ownedProcess = some handle ∨ world.nextPid ≤ handle.pid
  mine : ∀ manager, manager.process = p → (world.memory manager).running = some t →
    Undisturbed (world.memory manager) (world'.memory manager)

/-- What a thread does. -/
structure ServiceGuar (t : ℕ) (world world' : ServiceWorld) : Prop where
  nextPid : world.nextPid ≤ world'.nextPid
  dead : world.deadWorkers ⊆ world'.deadWorkers
  handle : ∀ manager handle, (world'.memory manager).ownedProcess = some handle →
    (world.memory manager).ownedProcess = some handle ∨ world.nextPid ≤ handle.pid
  others : ∀ manager u, u ≠ t → (world.memory manager).running = some u →
    Undisturbed (world.memory manager) (world'.memory manager)

/-- The agreement of the managers. -/
def serviceProtocol : Protocol ServiceStep ServiceWorld ServiceCall ℕ where
  inv _ := ServiceInv
  rely := ServiceRely
  guar _ t _ := ServiceGuar t
  ok p t l world := ownsWhatItReplaces p t l world = true
  pre _ _ call _ := ∃ manager handle, call = .observeUnexpectedExit manager handle

theorem Undisturbed.refl (memory : ManagerMemory) : Undisturbed memory memory :=
  ⟨rfl, id, fun _ ↦ id, fun _ ↦ id⟩

theorem Undisturbed.trans {memory₁ memory₂ memory₃ : ManagerMemory}
    (h₁ : Undisturbed memory₁ memory₂) (h₂ : Undisturbed memory₂ memory₃) :
    Undisturbed memory₁ memory₃ where
  running := h₂.running.trans h₁.running
  unwritten h := h₁.unwritten (h₂.unwritten h)
  handle handle h := h₁.handle handle (h₂.handle handle h)
  ownership ownership h := h₁.ownership ownership (h₂.ownership ownership h)

theorem ServiceRely.refl (p t : ℕ) (world : ServiceWorld) : ServiceRely p t world world :=
  ⟨Nat.le_refl _, fun _ ↦ id, fun _ _ ↦ .inl, fun _ _ _ ↦ .refl _⟩

theorem ServiceGuar.refl (t : ℕ) (world : ServiceWorld) : ServiceGuar t world world :=
  ⟨Nat.le_refl _, fun _ ↦ id, fun _ _ ↦ .inl, fun _ _ _ _ ↦ .refl _⟩

theorem ServiceRely.trans {p t : ℕ} {world₁ world₂ world₃ : ServiceWorld}
    (h₁ : ServiceRely p t world₁ world₂) (h₂ : ServiceRely p t world₂ world₃) :
    ServiceRely p t world₁ world₃ where
  nextPid := Nat.le_trans h₁.nextPid h₂.nextPid
  dead := List.Subset.trans h₁.dead h₂.dead
  handle manager handle h := by
    rcases h₂.handle manager handle h with h | h
    · exact h₁.handle manager handle h
    · exact .inr (Nat.le_trans h₁.nextPid h)
  mine manager hprocess hrunning := by
    have hfirst := h₁.mine manager hprocess hrunning
    exact hfirst.trans (h₂.mine manager hprocess (hfirst.running.trans hrunning))

theorem ServiceGuar.rely {p t t' : ℕ} {world world' : ServiceWorld} (h : ServiceGuar t world world')
    (hne : t ≠ t') : ServiceRely p t' world world' :=
  ⟨h.nextPid, h.dead, h.handle, fun manager _ hrunning ↦ h.others manager t' (Ne.symm hne) hrunning⟩

/-! ### One step -/

section Steps

variable {p t : ℕ} {world : ServiceWorld} {manager : ManagerId}

@[simp] theorem ServiceWorld.setMemory_self (memory : ManagerMemory) :
    (world.setMemory manager memory).memory manager = memory := Function.update_self ..

theorem ServiceWorld.setMemory_of_ne {other : ManagerId} (h : other ≠ manager)
    (memory : ManagerMemory) :
    (world.setMemory manager memory).memory other = world.memory other :=
  Function.update_of_ne h ..

theorem not_mem_of_workerAlive {pid : ℕ} (h : world.workerAlive pid = true) :
    pid ∉ world.deadWorkers := by
  simpa [ServiceWorld.workerAlive] using h

theorem mem_of_not_workerAlive {pid : ℕ} (h : ¬world.workerAlive pid = true) :
    pid ∈ world.deadWorkers := by
  simpa [ServiceWorld.workerAlive] using h

/-- A new memory of a manager whose handle was there before, and whose ownership is its own while the
worker lives. -/
theorem ServiceInv.setMemory (hinv : ServiceInv world) {memory : ManagerMemory}
    (hhandle : ∀ handle, memory.ownedProcess = some handle →
      (world.memory manager).ownedProcess = some handle)
    (howned : ∀ handle, memory.ownedProcess = some handle → handle.pid ∉ world.deadWorkers →
      memory.ownership = some (handle.ownership manager))
    (hpid : ∀ ownership, memory.ownership = some ownership → ownership.workerPid < world.nextPid)
    (hunwritten : memory.unwritten = (world.memory manager).unwritten)
    (hturn : memory.running = none → memory.unwritten = false) :
    ServiceInv (world.setMemory manager memory) where
  owned other handle h hlive := by
    rcases eq_or_ne other manager with rfl | hne
    · rw [ServiceWorld.setMemory_self] at h ⊢
      exact howned handle h hlive
    · rw [ServiceWorld.setMemory_of_ne hne] at h ⊢
      exact hinv.owned other handle h hlive
  stored other handle h hlive hwritten := by
    rcases eq_or_ne other manager with rfl | hne
    · rw [ServiceWorld.setMemory_self] at h hwritten
      exact hinv.stored other handle (hhandle handle h) hlive (hunwritten.symm.trans hwritten)
    · rw [ServiceWorld.setMemory_of_ne hne] at h hwritten
      exact hinv.stored other handle h hlive hwritten
  handlePid other handle h := by
    rcases eq_or_ne other manager with rfl | hne
    · rw [ServiceWorld.setMemory_self] at h
      exact hinv.handlePid other handle (hhandle handle h)
    · rw [ServiceWorld.setMemory_of_ne hne] at h
      exact hinv.handlePid other handle h
  memoryPid other ownership h := by
    rcases eq_or_ne other manager with rfl | hne
    · rw [ServiceWorld.setMemory_self] at h
      exact hpid ownership h
    · rw [ServiceWorld.setMemory_of_ne hne] at h
      exact hinv.memoryPid other ownership h
  storedPid := hinv.storedPid
  turn other h := by
    rcases eq_or_ne other manager with rfl | hne
    · rw [ServiceWorld.setMemory_self] at h ⊢
      exact hturn h
    · rw [ServiceWorld.setMemory_of_ne hne] at h ⊢
      exact hinv.turn other h
  written := hinv.written

/-- A new memory of a manager is within the guarantee when its transition is this thread's, or is
left undisturbed. -/
theorem ServiceGuar.setMemory {memory : ManagerMemory}
    (hhandle : ∀ handle, memory.ownedProcess = some handle →
      (world.memory manager).ownedProcess = some handle)
    (hothers : ∀ u, u ≠ t → (world.memory manager).running = some u →
      Undisturbed (world.memory manager) memory) :
    ServiceGuar t world (world.setMemory manager memory) where
  nextPid := Nat.le_refl _
  dead _ h := h
  handle other handle h := by
    rcases eq_or_ne other manager with rfl | hne
    · rw [ServiceWorld.setMemory_self] at h
      exact .inl (hhandle handle h)
    · rw [ServiceWorld.setMemory_of_ne hne] at h
      exact .inl h
  others other u hu h := by
    rcases eq_or_ne other manager with rfl | hne
    · rw [ServiceWorld.setMemory_self]
      exact hothers u hu h
    · rw [ServiceWorld.setMemory_of_ne hne]
      exact .refl _

/-- The change of a manager may be written: it keeps the ownership it was made from, or that is of a
dead worker, or of a worker whose handle the manager has dropped. -/
structure Writable (manager : ManagerId) (change : Change) (world : ServiceWorld) : Prop where
  revision : ∀ base, change.base = some base → base.revision ≤ change.value.revision
  pid : ∀ ownership, change.value.ownership = some ownership →
    ownership.workerPid < world.nextPid
  ownership : change.value.ownership = change.replaced ∨
    ∀ ownership, change.replaced = some ownership → ownership.workerPid ∈ world.deadWorkers ∨
      (ownership.instanceId = manager ∧ ownership.workerPid < world.nextPid ∧
        ∀ handle, (world.memory manager).ownedProcess = some handle →
          handle.pid ≠ ownership.workerPid)

theorem Writable.of_rely {change : Change} {world' : ServiceWorld}
    (h : Writable manager change world) (hr : ServiceRely p t world world') :
    Writable manager change world' where
  revision := h.revision
  pid ownership hownership := Nat.lt_of_lt_of_le (h.pid ownership hownership) hr.nextPid
  ownership := h.ownership.imp_right fun hremoved ownership hreplaced ↦ by
    rcases hremoved ownership hreplaced with hdead | ⟨hmanager, hpid, hhandle⟩
    · exact .inl (hr.dead hdead)
    · refine .inr ⟨hmanager, Nat.lt_of_lt_of_le hpid hr.nextPid, fun handle h ↦ ?_⟩
      rcases hr.handle manager handle h with hold | hnew
      · exact hhandle handle hold
      · exact Nat.ne_of_gt (Nat.lt_of_lt_of_le hpid hnew)

/-- What the condition on a rename says of the file. -/
theorem holds_spec {base : Option ModelServiceRecord} (h : world.holds base = true) :
    world.stored = base.bind ModelServiceRecord.ownership ∧
      ∀ record, world.file = some record →
        ∃ copied, base = some copied ∧ record.revision = copied.revision := by
  have hsame : world.file.map (fun record ↦ (record.revision, record.ownership)) =
      base.map fun record ↦ (record.revision, record.ownership) := of_decide_eq_true h
  rw [ServiceWorld.stored]
  rcases hfile : world.file with _ | record <;> rcases base with _ | copied <;>
    rw [hfile] at hsame
  · exact ⟨rfl, fun _ h ↦ absurd h (by simp)⟩
  · exact nomatch hsame
  · exact nomatch hsame
  · obtain ⟨hrevision, hownership⟩ := Prod.mk.inj (Option.some.inj hsame)
    refine ⟨hownership, fun record' h' ↦ ⟨copied, rfl, ?_⟩⟩
    rw [← Option.some.inj h']
    exact hrevision

/-- A change that may be written keeps the ownership of a live worker whose handle its manager
has. -/
theorem Writable.keeps {change : Change} (h : Writable manager change world) {other : ManagerId}
    {handle : OwnedModelProcess} (hhandle : (world.memory other).ownedProcess = some handle)
    (hlive : handle.pid ∉ world.deadWorkers)
    (hreplaced : change.replaced = some (handle.ownership other)) :
    change.value.ownership = some (handle.ownership other) := by
  rcases h.ownership with hsame | hremoved
  · exact hsame.trans hreplaced
  · rcases hremoved _ hreplaced with hdead | ⟨hmanager, -, hdropped⟩
    · exact absurd hdead hlive
    · have hother : other = manager := hmanager
      subst hother
      exact absurd rfl (hdropped handle hhandle)

/-- A rename that finds the copy that was advanced. -/
theorem ServiceInv.rename (hinv : ServiceInv world) {change : Change}
    (h : Writable manager change world) (hholds : world.holds change.base = true) :
    ServiceInv (world.rename manager change.value) := by
  obtain ⟨hstored, hrevision⟩ := holds_spec hholds
  have hmemory (other : ManagerId) :
      ((world.rename manager change.value).memory other).record = (world.memory other).record ∧
      ((world.rename manager change.value).memory other).ownedProcess =
        (world.memory other).ownedProcess ∧
      ((world.rename manager change.value).memory other).running = (world.memory other).running := by
    rcases eq_or_ne other manager with rfl | hne
    · simp [ServiceWorld.rename]
    · simp [ServiceWorld.rename, ServiceWorld.setMemory_of_ne hne]
  have hownership (other : ManagerId) :
      ((world.rename manager change.value).memory other).ownership =
        (world.memory other).ownership :=
    congrArg (Option.bind · ModelServiceRecord.ownership) (hmemory other).1
  have hunwritten (other : ManagerId) :
      (world.memory other).unwritten = false →
        ((world.rename manager change.value).memory other).unwritten = false := fun hfalse ↦ by
    rcases eq_or_ne other manager with rfl | hne
    · simp [ServiceWorld.rename, ServiceWorld.stillUnwritten, hfalse]
    · simpa [ServiceWorld.rename, ServiceWorld.setMemory_of_ne hne] using hfalse
  refine ⟨fun other handle hhandle hlive ↦ ?_, fun other handle hhandle hlive hwritten ↦ ?_,
    fun other handle hhandle ↦ ?_, fun other ownership hother ↦ ?_, h.pid,
    fun other hrunning ↦ ?_, fun write hwrite ↦ ?_⟩
  · rw [hownership]
    exact hinv.owned other handle ((hmemory other).2.1 ▸ hhandle) hlive
  · have hold : (world.memory other).ownedProcess = some handle := (hmemory other).2.1 ▸ hhandle
    show change.value.ownership = some (handle.ownership other)
    by_cases hbefore : (world.memory other).unwritten = false
    · refine h.keeps hold hlive ?_
      exact hstored.symm.trans (hinv.stored other handle hold hlive hbefore)
    · -- the flag was cleared by this rename, so it wrote the ownership of the handle
      have htrue : (world.memory other).unwritten = true := by simpa using hbefore
      rcases eq_or_ne other manager with rfl | hne
      · simpa [ServiceWorld.rename, ServiceWorld.stillUnwritten, htrue, hold] using hwritten
      · rw [ServiceWorld.rename] at hwritten
        simp [ServiceWorld.setMemory_of_ne hne, htrue] at hwritten
  · exact hinv.handlePid other handle ((hmemory other).2.1 ▸ hhandle)
  · exact hinv.memoryPid other ownership (hownership other ▸ hother)
  · exact hunwritten other (hinv.turn other ((hmemory other).2.2 ▸ hrunning))
  · rcases List.mem_append.1 hwrite with hold | hnew
    · exact hinv.written write hold
    · obtain rfl := List.mem_singleton.1 hnew
      refine ⟨fun record hrecord ↦ ?_, fun ownership hbefore halive ↦ ?_⟩
      · obtain ⟨copied, hcopied, hsame⟩ := hrevision record hrecord
        exact hsame ▸ h.revision copied hcopied
      · have hreplaced : change.replaced = some ownership := hstored.symm.trans hbefore
        rcases h.ownership with hsame | hremoved
        · exact .inl (hsame.trans hreplaced)
        · rcases hremoved ownership hreplaced with hdead | ⟨hmanager, -, -⟩
          · have hlive : world.namesLive world.stored = true := halive
            rw [ServiceWorld.stored, hbefore] at hlive
            exact absurd hdead (not_mem_of_workerAlive hlive)
          · exact .inr hmanager.symm

theorem ServiceGuar.rename (value : ModelServiceRecord) :
    ServiceGuar t world (world.rename manager value) := by
  have hset : ServiceGuar t world (world.setMemory manager
      { world.memory manager with unwritten := world.stillUnwritten manager value }) := by
    refine .setMemory (fun _ h ↦ h) fun u _ _ ↦ ⟨rfl, fun h ↦ ?_, fun _ ↦ id, fun _ ↦ id⟩
    have hand : ((world.memory manager).unwritten && _) = true := h
    exact (Bool.and_eq_true _ _ ▸ hand).1
  exact ⟨hset.nextPid, hset.dead, hset.handle, hset.others⟩

end Steps

/-! ### The turn of a manager -/

/-- The transition of the manager that is running is thread `t`'s, nothing is left to write, and the
record in memory names the manager, when that is `own`. -/
structure Turn (p t : ℕ) (manager : ManagerId) (own : Bool) (world : ServiceWorld) : Prop where
  process : manager.process = p
  running : (world.memory manager).running = some t
  written : (world.memory manager).unwritten = false
  mine : own = true → ∀ ownership, (world.memory manager).ownership = some ownership →
    ownership.instanceId = manager

section Turns

variable {p t : ℕ} {world world' : ServiceWorld} {manager : ManagerId} {own : Bool}

theorem Turn.of_rely (h : Turn p t manager own world) (hr : ServiceRely p t world world') :
    Turn p t manager own world' := by
  have hmine := hr.mine manager h.process h.running
  refine ⟨h.process, hmine.running.trans h.running, ?_, fun hown ownership hownership ↦
    h.mine hown ownership (hmine.ownership ownership hownership)⟩
  by_contra hunwritten
  have hbefore := hmine.unwritten (by simpa using hunwritten)
  rw [h.written] at hbefore
  exact nomatch hbefore

theorem Turn.weaken (h : Turn p t manager own world) : Turn p t manager false world :=
  ⟨h.process, h.running, h.written, nofun⟩

/-- A look keeps the turn. -/
theorem carries_look {A : Type} (l : ServiceStep) (f : ServiceWorld → Except RuntimeError A) :
    serviceProtocol.Carries p t (Turn p t manager own) (look l f) :=
  .read (fun _ world ↦ ServiceGuar.refl t world) fun hr h ↦ Turn.of_rely h hr

/-- A record in memory with the same ownership. -/
theorem ServiceInv.setRecord (hinv : ServiceInv world) {record : ModelServiceRecord}
    (h : record.ownership = (world.memory manager).ownership) :
    ServiceInv (world.setMemory manager { world.memory manager with record := some record }) := by
  refine hinv.setMemory (fun _ h ↦ h) (fun handle hhandle hlive ↦ ?_) (fun ownership ho ↦ ?_) rfl
    (hinv.turn manager)
  · exact h.trans (hinv.owned manager handle hhandle hlive)
  · exact hinv.memoryPid manager ownership (h.symm.trans ho)

theorem ServiceGuar.setRecord {record : ModelServiceRecord}
    (h : record.ownership = (world.memory manager).ownership) :
    ServiceGuar t world
      (world.setMemory manager { world.memory manager with record := some record }) :=
  .setMemory (fun _ h ↦ h) fun _ _ _ ↦
    ⟨rfl, id, fun _ ↦ id, fun _ ho ↦ h.symm.trans ho⟩

theorem Turn.setRecord (hturn : Turn p t manager own world) {record : ModelServiceRecord}
    (h : record.ownership = (world.memory manager).ownership) :
    Turn p t manager own
      (world.setMemory manager { world.memory manager with record := some record }) := by
  refine ⟨hturn.process, ?_, ?_, fun hown ownership ho ↦ ?_⟩
  · rw [ServiceWorld.setMemory_self]
    exact hturn.running
  · rw [ServiceWorld.setMemory_self]
    exact hturn.written
  · rw [ServiceWorld.setMemory_self] at ho
    exact hturn.mine hown ownership (h.symm.trans ho)

theorem ManagerMemory.ownership_of_record {memory : ManagerMemory} {record : ModelServiceRecord}
    (h : memory.record = some record) : memory.ownership = record.ownership := by
  rw [ManagerMemory.ownership, h]
  rfl

/-- Whether a change that was made may be written. -/
def Made (manager : ManagerId) (result : Except RuntimeError Change) (world : ServiceWorld) :
    Prop :=
  ∀ change, result = .ok change → Writable manager change world

/-- Advancing the record, its ownership kept. -/
theorem safe_advance {patch : ModelServiceRecord → ModelServiceRecord}
    (hpatch : ∀ record, (patch record).ownership = record.ownership)
    (h : Turn p t manager own world) :
    serviceProtocol.Safe p t (fun r s ↦ Turn p t manager own s ∧ Made manager r s)
      (advance manager patch) world := by
  refine safe_atomic fun s _ _ hinv hr _ ↦ ?_
  have hturn : Turn p t manager own s := Turn.of_rely h hr
  rcases hrecord : (s.memory manager).record with _ | record
  · exact ⟨hinv, .refl t s, hturn, fun _ h ↦ nomatch h⟩
  · have hsame : (record.advance patch).ownership = (s.memory manager).ownership :=
      (hpatch record).trans (ManagerMemory.ownership_of_record hrecord).symm
    refine ⟨ServiceInv.setRecord hinv hsame, ServiceGuar.setRecord hsame, hturn.setRecord hsame,
      fun change hchange ↦ ?_⟩
    obtain rfl := Except.ok.inj hchange
    refine ⟨fun base hbase ↦ ?_, fun ownership ho ↦ ?_, .inl (hpatch record)⟩
    · obtain rfl := Option.some.inj hbase
      exact Nat.le_succ _
    · exact hinv.memoryPid manager ownership (hsame.symm.trans ho)

/-- Writing a change carries what the others and the rename keep. -/
theorem safe_persist {J : ServiceWorld → Prop} {change : Change}
    (hrely : ∀ {s s'}, ServiceRely p t s s' → J s → J s')
    {K : ServiceWorld → Prop} (hrename : ∀ {s}, J s → K (s.rename manager change.value))
    (hwritable : Writable manager change world) (h : J world) :
    serviceProtocol.Safe p t (fun _ s ↦ K s) (persist manager change) world := by
  refine safe_read_bind (fun _ s ↦ ServiceGuar.refl t s) fun s₁ _ _ _ hr₁ _ ↦ ⟨fun _ _ ↦ ?_, nofun⟩
  refine safe_modify fun s₂ _ _ hinv hr₂ hok ↦ ?_
  have hready : Writable manager change s₂ := (hwritable.of_rely hr₁).of_rely hr₂
  exact ⟨ServiceInv.rename hinv hready hok, ServiceGuar.rename _, hrename (hrely hr₂ (hrely hr₁ h))⟩

theorem Turn.rename (h : Turn p t manager own world) (value : ModelServiceRecord) :
    Turn p t manager own (world.rename manager value) := by
  refine ⟨h.process, ?_, ?_, fun hown ownership ho ↦ h.mine hown ownership ?_⟩
  · simpa [ServiceWorld.rename] using h.running
  · simp [ServiceWorld.rename, ServiceWorld.stillUnwritten, h.written]
  · simpa [ServiceWorld.rename, ManagerMemory.ownership] using ho

/-- Writing a change that was made keeps the turn. -/
theorem safe_persist_turn {change : Change} (hwritable : Writable manager change world)
    (h : Turn p t manager own world) :
    serviceProtocol.Safe p t (fun _ s ↦ Turn p t manager own s) (persist manager change) world :=
  safe_persist (fun hr h ↦ h.of_rely hr) (fun h ↦ h.rename _) hwritable h

/-- Advancing the record and writing it. -/
theorem carries_advanceAndPersist {patch : ModelServiceRecord → ModelServiceRecord}
    (hpatch : ∀ record, (patch record).ownership = record.ownership) :
    serviceProtocol.Carries p t (Turn p t manager own) (advanceAndPersist manager patch) := by
  intro world h
  refine (safe_advance hpatch h).bind (fun change s hs ↦ ?_) fun _ _ hs ↦ hs.1
  exact (safe_persist_turn (hs.2 change rfl) hs.1).bind (fun _ s hs ↦ carries_look _ _ s hs)
    fun _ _ hs ↦ hs

theorem carries_fail (kind : FailureKind) (message : String) (operationId : Option Uuid) :
    serviceProtocol.Carries p t (Turn p t manager own) (fail manager kind message operationId) :=
  carries_advanceAndPersist fun _ ↦ rfl

theorem carries_localFailure (kind : FailureKind) (message : String) :
    serviceProtocol.Carries p t (Turn p t manager own) (localFailure manager kind message) :=
  (carries_look _ _).bind fun _ ↦ .ret _

/-- Changing the copy in memory alone, its ownership kept. -/
theorem carries_observeRecord {patch : ModelServiceRecord → ModelServiceRecord}
    (hpatch : ∀ record, (patch record).ownership = record.ownership) :
    serviceProtocol.Carries p t (Turn p t manager own) (observeRecord manager patch) := by
  intro world h
  refine safe_atomic fun s _ _ hinv hr _ ↦ ?_
  have hturn : Turn p t manager own s := h.of_rely hr
  rcases hrecord : (s.memory manager).record with _ | record
  · exact ⟨hinv, .refl t s, hturn⟩
  · have hsame : (patch record).ownership = (s.memory manager).ownership :=
      (hpatch record).trans (ManagerMemory.ownership_of_record hrecord).symm
    exact ⟨ServiceInv.setRecord hinv hsame, ServiceGuar.setRecord hsame, hturn.setRecord hsame⟩

/-! ### Reading the file -/

/-- What was read of the file is no older than the handle in memory. -/
structure Current (manager : ManagerId) (latest : Option ModelServiceRecord)
    (world : ServiceWorld) : Prop where
  owned : ∀ handle, (world.memory manager).ownedProcess = some handle →
    handle.pid ∉ world.deadWorkers →
      latest.bind ModelServiceRecord.ownership = some (handle.ownership manager)
  pid : ∀ ownership, latest.bind ModelServiceRecord.ownership = some ownership →
    ownership.workerPid < world.nextPid

theorem Turn.current (h : Turn p t manager own world) (hinv : ServiceInv world) :
    Current manager world.file world :=
  ⟨fun handle hhandle hlive ↦ hinv.stored manager handle hhandle hlive h.written, hinv.storedPid⟩

theorem Current.of_rely {latest : Option ModelServiceRecord}
    (h : Current manager latest world) (hturn : Turn p t manager own world)
    (hr : ServiceRely p t world world') : Current manager latest world' where
  owned handle hhandle hlive := by
    have hmine := hr.mine manager hturn.process hturn.running
    exact h.owned handle (hmine.handle handle hhandle) fun hdead ↦ hlive (hr.dead hdead)
  pid ownership ho := Nat.lt_of_lt_of_le (h.pid ownership ho) hr.nextPid

/-- The memory of the manager whose turn it is, with another record. -/
theorem Turn.replaceRecord (hturn : Turn p t manager own world) (hinv : ServiceInv world)
    (record : Option ModelServiceRecord)
    (howned : ∀ handle, (world.memory manager).ownedProcess = some handle →
      handle.pid ∉ world.deadWorkers →
        record.bind ModelServiceRecord.ownership = some (handle.ownership manager))
    (hpid : ∀ ownership, record.bind ModelServiceRecord.ownership = some ownership →
      ownership.workerPid < world.nextPid) :
    ServiceInv (world.setMemory manager { world.memory manager with record }) ∧
      ServiceGuar t world (world.setMemory manager { world.memory manager with record }) ∧
        Turn p t manager false (world.setMemory manager { world.memory manager with record }) := by
  refine ⟨hinv.setMemory (fun _ h ↦ h) howned hpid rfl (hinv.turn manager),
    .setMemory (fun _ h ↦ h) fun u hu hrunning ↦ ?_, hturn.process, ?_, ?_, nofun⟩
  · rw [hturn.running] at hrunning
    exact absurd (Option.some.inj hrunning).symm hu
  · rw [ServiceWorld.setMemory_self]
    exact hturn.running
  · rw [ServiceWorld.setMemory_self]
    exact hturn.written

/-- `refreshLatest` adopts what the file holds; the manager's own ownership is in it while its worker
lives. -/
theorem safe_refreshLatest (h : Turn p t manager own world) :
    serviceProtocol.Safe p t (fun _ s ↦ Turn p t manager false s) (refreshLatest manager) world := by
  refine safe_read_bind (fun _ s ↦ ServiceGuar.refl t s) fun s₁ _ _ hinv₁ hr₁ _ ↦ ⟨?_, nofun⟩
  rintro latest hlatest
  obtain rfl := Except.ok.inj hlatest
  have hturn₁ : Turn p t manager own s₁ := Turn.of_rely h hr₁
  refine safe_modify fun s₂ _ _ hinv₂ hr₂ _ ↦ ?_
  have hturn₂ : Turn p t manager own s₂ := hturn₁.of_rely hr₂
  have hcurrent : Current manager s₁.file s₂ := (hturn₁.current hinv₁).of_rely hturn₁ hr₂
  have hchoice : latestRecord (s₂.memory manager).record s₁.file = (s₂.memory manager).record ∨
      latestRecord (s₂.memory manager).record s₁.file = s₁.file := by
    rcases (s₂.memory manager).record with _ | record <;> rcases s₁.file with _ | latest
    · exact .inl rfl
    · exact .inr rfl
    · exact .inl rfl
    · by_cases hlt : record.revision < latest.revision
      · exact .inr (if_pos hlt)
      · exact .inl (if_neg hlt)
  refine hturn₂.replaceRecord hinv₂ _ (fun handle hhandle hlive ↦ ?_) fun ownership ho ↦ ?_
  · rcases hchoice with hold | hnew
    · rw [hold]
      exact ServiceInv.owned hinv₂ manager handle hhandle hlive
    · rw [hnew]
      exact hcurrent.owned handle hhandle hlive
  · rcases hchoice with hold | hnew
    · rw [hold] at ho
      exact ServiceInv.memoryPid hinv₂ manager ownership ho
    · rw [hnew] at ho
      exact hcurrent.pid ownership ho

/-- The record that is reconciled keeps its ownership, or loses that of a dead worker. -/
theorem reconcilePreviousOwner_spec {record reconciled : ModelServiceRecord}
    (h : reconcilePreviousOwner manager world record = some reconciled) :
    record.revision ≤ reconciled.revision ∧
      (reconciled.ownership = record.ownership ∨
        reconciled.ownership = none ∧ ∀ ownership, record.ownership = some ownership →
          ownership.workerPid ∈ world.deadWorkers) := by
  rw [reconcilePreviousOwner] at h
  rcases hownership : record.ownership with _ | ownership <;> rw [hownership] at h
  · exact nomatch h
  dsimp only at h
  split at h
  · exact nomatch h
  split at h
  · exact nomatch h
  split at h
  · obtain rfl := Option.some.inj h
    exact ⟨Nat.le_succ _, .inl hownership⟩
  · rename_i hdead
    obtain rfl := Option.some.inj h
    refine ⟨Nat.le_succ _, .inr ⟨rfl, fun replaced hreplaced ↦ ?_⟩⟩
    rw [← Option.some.inj hreplaced]
    exact mem_of_not_workerAlive hdead

/-- What `initialize` makes of what was read. -/
theorem initialRecord_spec (manager : ManagerId) (stored : Option ModelServiceRecord)
    (hpid : ∀ ownership, stored.bind ModelServiceRecord.ownership = some ownership →
      ownership.workerPid < world.nextPid) :
    (∀ ownership, (initialRecord manager world stored).1.ownership = some ownership →
      ownership.workerPid < world.nextPid) ∧
      ∀ change, (initialRecord manager world stored).2 = some change →
        Writable manager change world := by
  rcases stored with _ | record
  · refine ⟨fun _ h ↦ (nomatch h), fun change hchange ↦ ?_⟩
    obtain rfl := Option.some.inj hchange
    exact ⟨fun _ h ↦ (nomatch h), fun _ h ↦ (nomatch h), .inl rfl⟩
  · have hrecord (ownership : Ownership) (h : record.ownership = some ownership) :
        ownership.workerPid < world.nextPid := hpid ownership h
    rw [initialRecord]
    rcases hreconciled : reconcilePreviousOwner manager world record with _ | reconciled
    · exact ⟨hrecord, fun _ h ↦ nomatch h⟩
    · obtain ⟨hrevision, hownership⟩ := reconcilePreviousOwner_spec hreconciled
      have hvalue (ownership : Ownership) (h : reconciled.ownership = some ownership) :
          ownership.workerPid < world.nextPid := by
        rcases hownership with hsame | ⟨hnone, -⟩
        · exact hrecord ownership (hsame.symm.trans h)
        · exact nomatch hnone.symm.trans h
      refine ⟨hvalue, fun change hchange ↦ ?_⟩
      obtain rfl := Option.some.inj hchange
      refine ⟨fun base hbase ↦ Option.some.inj hbase ▸ hrevision, hvalue, ?_⟩
      exact hownership.imp_right fun hdead ownership ho ↦ .inl (hdead.2 ownership ho)

/-- `initialize` keeps the turn: a manager without a record has no live worker. -/
theorem safe_initializeRecord (h : Turn p t manager own world) :
    serviceProtocol.Safe p t (fun _ s ↦ Turn p t manager false s) (initializeRecord manager)
      world := by
  refine safe_read_bind (fun _ s ↦ ServiceGuar.refl t s) fun s₁ _ _ _ hr₁ _ ↦ ⟨?_, nofun⟩
  have hturn₁ : Turn p t manager own s₁ := Turn.of_rely h hr₁
  rintro known hknown
  refine .ite (fun _ ↦ hturn₁.weaken) fun hunknown ↦ ?_
  have hnone : (s₁.memory manager).ownership = none := by
    obtain rfl := Except.ok.inj hknown
    have hrecord : (s₁.memory manager).record = none := by simpa using hunknown
    rw [ManagerMemory.ownership, hrecord]
    rfl
  refine safe_read_bind (fun _ s ↦ ServiceGuar.refl t s) fun s₂ _ _ hinv₂ hr₂ _ ↦ ⟨?_, nofun⟩
  rintro stored hstored
  obtain rfl := Except.ok.inj hstored
  have hturn₂ : Turn p t manager own s₂ := hturn₁.of_rely hr₂
  refine safe_atomic_bind fun s₃ _ _ hinv₃ hr₃ _ ↦ ?_
  have hturn₃ : Turn p t manager own s₃ := hturn₂.of_rely hr₃
  have hcurrent : Current manager s₂.file s₃ := (hturn₂.current hinv₂).of_rely hturn₂ hr₃
  have hstill : (s₃.memory manager).ownership = none := by
    rcases hownership : (s₃.memory manager).ownership with _ | ownership
    · rfl
    · have hr : ServiceRely p t s₁ s₃ := ServiceRely.trans hr₂ hr₃
      have hmine := hr.mine manager hturn₁.process hturn₁.running
      exact (hmine.ownership ownership hownership).symm.trans hnone
  obtain ⟨hpid, hchange⟩ := initialRecord_spec manager s₂.file hcurrent.pid
  obtain ⟨hinv, hguar, hturn⟩ := hturn₃.replaceRecord hinv₃
    (some (initialRecord manager s₃ s₂.file).1) (fun handle hhandle hlive ↦ by
      have howned := ServiceInv.owned hinv₃ manager handle hhandle hlive
      rw [hstill] at howned
      exact nomatch howned) hpid
  refine ⟨hinv, hguar, fun change hresult ↦ ?_, fun _ he ↦ nomatch he⟩
  obtain rfl := Except.ok.inj hresult
  rcases hwrite : (initialRecord manager s₃ s₂.file).2 with _ | change
  · exact hturn
  · have hwritable := hchange change hwrite
    refine safe_persist_turn ⟨hwritable.revision, hwritable.pid, ?_⟩ hturn
    refine hwritable.ownership.imp_right fun hremoved ownership ho ↦ ?_
    refine (hremoved ownership ho).imp_right fun ⟨hmanager, hpid, hhandle⟩ ↦ ⟨hmanager, hpid, ?_⟩
    rw [ServiceWorld.setMemory_self]
    exact hhandle

theorem carries_initializeRecord :
    serviceProtocol.Carries p t (Turn p t manager false) (initializeRecord manager) :=
  fun _ h ↦ safe_initializeRecord h

theorem carries_refreshLatest :
    serviceProtocol.Carries p t (Turn p t manager false) (refreshLatest manager) :=
  fun _ h ↦ safe_refreshLatest h

/-! ### Observing and marking -/

theorem carries_observeReady :
    serviceProtocol.Carries p t (Turn p t manager false) (observeReady manager) :=
  carries_refreshLatest.bind fun _ ↦ carries_observeRecord fun _ ↦ rfl

theorem carries_observeMismatch (profile : ModelServiceProfile) (result : ProbeResult) :
    serviceProtocol.Carries p t (Turn p t manager false) (observeMismatch manager profile result) :=
  carries_refreshLatest.bind fun _ ↦ carries_observeRecord fun _ ↦ rfl

theorem carries_observeTransition (profile : Option ModelServiceProfile) :
    serviceProtocol.Carries p t (Turn p t manager false) (observeTransition manager profile) := by
  refine carries_initializeRecord.bind fun _ ↦ ?_
  rcases profile with _ | profile
  · exact carries_localFailure _ _
  refine (carries_look _ _).bind fun result ↦ .ite (fun _ ↦ carries_observeReady) fun _ ↦ ?_
  refine .ite (fun _ ↦ carries_observeMismatch _ _) fun _ ↦ (carries_look _ _).bind fun owned ↦ ?_
  exact .ite (fun _ ↦ carries_localFailure _ _) fun _ ↦ carries_observeRecord fun _ ↦ rfl

theorem carries_markReady :
    serviceProtocol.Carries p t (Turn p t manager false) (markReady manager) :=
  carries_refreshLatest.bind fun _ ↦ carries_advanceAndPersist fun _ ↦ rfl

theorem safe_markMismatch (profile : ModelServiceProfile) (result : ProbeResult)
    (h : Turn p t manager own world) :
    serviceProtocol.Safe p t (fun _ s ↦ Turn p t manager false s)
      (markMismatch manager profile result) world := by
  refine (safe_refreshLatest h).bind (fun _ s hs ↦ ?_) fun _ _ hs ↦ hs
  refine carries_advanceAndPersist ?_ s hs
  exact fun _ ↦ rfl

/-! ### Dropping the ownership -/

theorem carries_stopWithTimeout (handle : OwnedModelProcess) :
    serviceProtocol.Carries p t (Turn p t manager own) (stopWithTimeout handle) :=
  .await (fun _ world ↦ ServiceGuar.refl t world) (fun hr h ↦ Turn.of_rely h hr)
    (f := fun world ↦ .ok ((world.completion handle.pid).getD none))

/-- A manager drops its handle, and an ownership that names it. -/
theorem ServiceInv.dropHandle (hinv : ServiceInv world)
    (hmine : ∀ ownership, (world.memory manager).ownership = some ownership →
      ownership.instanceId = manager) {record : ModelServiceRecord} (dropped : ModelServiceRecord)
    (hrecord : (world.memory manager).record = some record)
    (hrevision : record.revision ≤ dropped.revision) (hdropped : dropped.ownership = none) :
    ServiceInv (world.setMemory manager
      { world.memory manager with record := some dropped, ownedProcess := none }) ∧
    ServiceGuar t world (world.setMemory manager
      { world.memory manager with record := some dropped, ownedProcess := none }) ∧
    Writable manager ⟨some record, dropped⟩ (world.setMemory manager
      { world.memory manager with record := some dropped, ownedProcess := none }) := by
  have hnone (ownership : Ownership) (h : dropped.ownership = some ownership) : False := by
    rw [hdropped] at h
    exact nomatch h
  refine ⟨hinv.setMemory (fun _ h ↦ (nomatch h)) (fun _ h ↦ (nomatch h))
      (fun ownership h ↦ (hnone ownership h).elim) rfl (hinv.turn manager),
    .setMemory (fun _ h ↦ (nomatch h)) fun _ _ _ ↦
      ⟨rfl, id, fun _ h ↦ (nomatch h), fun ownership h ↦ (hnone ownership h).elim⟩, ?_⟩
  refine ⟨fun base hbase ↦ Option.some.inj hbase ▸ hrevision,
    fun ownership h ↦ (hnone ownership h).elim, .inr fun ownership ho ↦ .inr ?_⟩
  have hbefore : (world.memory manager).ownership = some ownership :=
    (ManagerMemory.ownership_of_record hrecord).trans ho
  refine ⟨hmine ownership hbefore, hinv.memoryPid manager ownership hbefore, fun handle h ↦ ?_⟩
  rw [ServiceWorld.setMemory_self] at h
  exact nomatch h

theorem Turn.drop (h : Turn p t manager own world) {memory : ManagerMemory}
    (hrunning : memory.running = (world.memory manager).running)
    (hwritten : memory.unwritten = (world.memory manager).unwritten)
    (hownership : memory.ownership = none) :
    Turn p t manager own (world.setMemory manager memory) := by
  refine ⟨h.process, ?_, ?_, fun _ ownership ho ↦ ?_⟩
  · rw [ServiceWorld.setMemory_self]
    exact hrunning.trans h.running
  · rw [ServiceWorld.setMemory_self]
    exact hwritten.trans h.written
  · rw [ServiceWorld.setMemory_self, hownership] at ho
    exact nomatch ho

theorem safe_dropOwnership (patch : ModelServiceRecord → ModelServiceRecord)
    (h : Turn p t manager true world) :
    serviceProtocol.Safe p t (fun r s ↦ Turn p t manager true s ∧ Made manager r s)
      (dropOwnership manager patch) world := by
  refine safe_atomic fun s _ _ hinv hr _ ↦ ?_
  have hturn : Turn p t manager true s := h.of_rely hr
  rcases hrecord : (s.memory manager).record with _ | record
  · have hnone : (s.memory manager).ownership = none := by
      rw [ManagerMemory.ownership, hrecord]
      rfl
    refine ⟨?_, ?_, ?_, fun _ h ↦ nomatch h⟩
    · exact ServiceInv.setMemory hinv (fun _ h ↦ (nomatch h)) (fun _ h ↦ (nomatch h))
        (fun _ h ↦ nomatch hnone.symm.trans h) rfl (ServiceInv.turn hinv manager)
    · exact ServiceGuar.setMemory (fun _ h ↦ (nomatch h)) fun _ _ _ ↦
        ⟨rfl, id, fun _ h ↦ (nomatch h), fun _ h ↦ h⟩
    · exact hturn.drop rfl rfl hnone
  · obtain ⟨hinv', hguar, hwritable⟩ := ServiceInv.dropHandle (t := t) hinv (hturn.mine rfl)
      (record.advance fun record ↦ { patch record with ownership := none }) hrecord
      (Nat.le_succ _) rfl
    refine ⟨hinv', hguar, hturn.drop rfl rfl rfl, fun change hchange ↦ ?_⟩
    obtain rfl := Except.ok.inj hchange
    exact hwritable

theorem carries_stopFailedStart (handle : OwnedModelProcess) :
    serviceProtocol.Carries p t (Turn p t manager true) (stopFailedStart manager handle) := by
  refine (carries_stopWithTimeout handle).bind fun termination ↦ (carries_look _ _).bind fun alive ↦ ?_
  refine .ite (fun _ s hs ↦ ?_) fun _ s hs ↦ ?_
  · refine Safe.bind (safe_advance ?_ hs) (fun change s hs ↦ ?_) fun _ _ hs ↦ hs.1
    · exact fun _ ↦ rfl
    · exact (safe_persist_turn (hs.2 change rfl) hs.1).bind (fun _ _ hs ↦ hs) fun _ _ hs ↦ hs
  · have hdrop := safe_dropOwnership id hs
    refine hdrop.bind (fun change s hs ↦ ?_) fun _ _ hs ↦ hs.1
    exact safe_persist_turn (hs.2 change rfl) hs.1

/-! ### Starting -/

/-- A step that waits for ever. -/
theorem carries_blocked {A : Type} {error : RuntimeError} :
    serviceProtocol.Carries p t (Turn p t manager own)
      (.await .blocked (fun _ ↦ false) fun world ↦ (.error error, world) : ServiceProg A) :=
  .await (fun _ world ↦ ServiceGuar.refl t world) (fun hr h ↦ Turn.of_rely h hr)
    (f := fun _ ↦ .error error)

/-- Ending with less known of the record. -/
theorem safe_weaken {A : Type} {prog : ServiceProg A}
    (h : serviceProtocol.Carries p t (Turn p t manager own) prog)
    (hturn : Turn p t manager own world) :
    serviceProtocol.Safe p t (fun _ s ↦ Turn p t manager false s) prog world :=
  (h world hturn).mono fun _ _ hs ↦ hs.weaken

/-- Waiting for the worker; a wait that stops the worker starts with the manager's own record. -/
theorem safe_waitForReadiness (profile : ModelServiceProfile) (handle : OwnedModelProcess)
    {stopOnFailure : Bool} (hstop : stopOnFailure = true → own = true) (rounds : ℕ)
    (h : Turn p t manager own world) :
    serviceProtocol.Safe p t (fun _ s ↦ Turn p t manager false s)
      (waitForReadiness manager profile handle stopOnFailure rounds) world := by
  have hfailed {s : ServiceWorld} (hs : Turn p t manager own s) :
      serviceProtocol.Safe p t (fun _ s ↦ Turn p t manager own s)
        (stopOnFailedStart manager handle stopOnFailure) s := by
    refine .ite (fun hc ↦ ?_) fun _ ↦ hs
    rw [hstop hc] at hs ⊢
    exact carries_stopFailedStart handle s hs
  induction rounds generalizing world with
  | zero => exact safe_weaken carries_blocked h
  | succ rounds ih =>
    refine (carries_look _ _ world h).bind (fun result s hs ↦ ?_) fun _ _ hs ↦ hs.weaken
    refine .ite (fun _ ↦ safe_weaken (carries_advanceAndPersist fun _ ↦ rfl) hs) fun _ ↦ ?_
    refine .ite (fun _ ↦ ?_) fun _ ↦ ?_
    · exact (hfailed hs).bind (fun _ s hs ↦ safe_markMismatch profile result hs)
        fun _ _ hs ↦ hs.weaken
    refine (carries_look _ _ s hs).bind (fun alive s hs ↦ ?_) fun _ _ hs ↦ hs.weaken
    refine .ite (fun _ ↦ safe_weaken (carries_fail _ _ _) hs) fun _ ↦ ?_
    refine (carries_look _ _ s hs).bind (fun expired s hs ↦ ?_) fun _ _ hs ↦ hs.weaken
    refine .ite (fun _ ↦ ?_) fun _ ↦ ih hs
    exact (hfailed hs).bind (fun _ s hs ↦ safe_weaken (carries_fail _ _ _) hs)
      fun _ _ hs ↦ hs.weaken

theorem carries_waitForExternalStarter (profile : ModelServiceProfile) (rounds : ℕ) :
    serviceProtocol.Carries p t (Turn p t manager false)
      (waitForExternalStarter manager profile rounds) := by
  induction rounds with
  | zero => exact carries_blocked
  | succ rounds ih =>
    refine (carries_look _ _).bind fun expired ↦ .ite (fun _ ↦ carries_fail _ _ _) fun _ ↦ ?_
    refine (carries_look _ _).bind fun result ↦ .ite (fun _ ↦ carries_observeReady) fun _ ↦ ?_
    exact .ite (fun _ ↦ carries_observeMismatch _ _) fun _ ↦ ih

/-- The worker has been started, and its ownership has yet to be written. -/
structure Launched (p t : ℕ) (manager : ManagerId) (handle : OwnedModelProcess)
    (world : ServiceWorld) : Prop where
  process : manager.process = p
  running : (world.memory manager).running = some t
  handle : ∀ other, (world.memory manager).ownedProcess = some other → other = handle
  mine : ∀ ownership, (world.memory manager).ownership = some ownership →
    ownership.instanceId = manager

theorem Launched.of_rely {handle : OwnedModelProcess} (h : Launched p t manager handle world)
    (hr : ServiceRely p t world world') : Launched p t manager handle world' := by
  have hmine := hr.mine manager h.process h.running
  exact ⟨h.process, hmine.running.trans h.running,
    fun other ho ↦ h.handle other (hmine.handle other ho),
    fun ownership ho ↦ h.mine ownership (hmine.ownership ownership ho)⟩

/-- Once the ownership is written nothing is left to write. -/
theorem Launched.rename {handle : OwnedModelProcess} (h : Launched p t manager handle world)
    {value : ModelServiceRecord} (hvalue : value.ownership = some (handle.ownership manager)) :
    Turn p t manager true (world.rename manager value) := by
  refine ⟨h.process, ?_, ?_, fun _ ownership ho ↦ h.mine ownership ?_⟩
  · simpa [ServiceWorld.rename] using h.running
  · have hwritten : world.stillUnwritten manager value = false := by
      rw [ServiceWorld.stillUnwritten]
      rcases hhandle : (world.memory manager).ownedProcess with _ | other
      · simp
      · rw [h.handle other hhandle]
        simp [hvalue]
    simpa [ServiceWorld.rename] using hwritten
  · simpa [ServiceWorld.rename, ManagerMemory.ownership] using ho

/-- Taking the handle of a new worker, its ownership in the record. -/
theorem ServiceInv.takeHandle (hinv : ServiceInv world) (hturn : Turn p t manager own world)
    {handle : OwnedModelProcess} {record : ModelServiceRecord} (hpid : handle.pid = world.nextPid)
    (hrecord : record.ownership = some (handle.ownership manager)) :
    ServiceInv (world.takeHandle manager handle record) := by
  have hmemory {other : ManagerId} (hne : other ≠ manager) :
      (world.takeHandle manager handle record).memory other = world.memory other :=
    ServiceWorld.setMemory_of_ne hne _
  have hself : (world.takeHandle manager handle record).memory manager =
      { world.memory manager with
        record := some record, ownedProcess := some handle, unwritten := true } :=
    ServiceWorld.setMemory_self _
  refine ⟨fun other handle' h hlive ↦ ?_, fun other handle' h hlive hwritten ↦ ?_,
    fun other handle' h ↦ ?_, fun other ownership h ↦ ?_,
    fun ownership h ↦ Nat.lt_succ_of_lt (hinv.storedPid ownership h), fun other h ↦ ?_,
    hinv.written⟩ <;> rcases eq_or_ne other manager with rfl | hne
  · rw [hself] at h ⊢
    obtain rfl := Option.some.inj h
    exact hrecord
  · rw [hmemory hne] at h ⊢
    exact hinv.owned other handle' h hlive
  · rw [hself] at hwritten
    exact nomatch hwritten
  · rw [hmemory hne] at h hwritten
    exact hinv.stored other handle' h hlive hwritten
  · rw [hself] at h
    obtain rfl := Option.some.inj h
    exact hpid ▸ Nat.lt_succ_self _
  · rw [hmemory hne] at h
    exact Nat.lt_succ_of_lt (hinv.handlePid other handle' h)
  · rw [hself] at h
    obtain rfl := Option.some.inj (hrecord.symm.trans h)
    exact Nat.lt_succ_of_le (Nat.le_of_eq hpid)
  · rw [hmemory hne] at h
    exact Nat.lt_succ_of_lt (hinv.memoryPid other ownership h)
  · rw [hself] at h
    exact nomatch hturn.running.symm.trans h
  · rw [hmemory hne] at h ⊢
    exact hinv.turn other h

theorem Turn.guar_takeHandle (hturn : Turn p t manager own world) {handle : OwnedModelProcess}
    (record : ModelServiceRecord) (hpid : handle.pid = world.nextPid) :
    ServiceGuar t world (world.takeHandle manager handle record) := by
  refine ⟨Nat.le_succ _, fun _ h ↦ h, fun other handle' h ↦ ?_, fun other u hu h ↦ ?_⟩ <;>
    rcases eq_or_ne other manager with rfl | hne
  · rw [ServiceWorld.takeHandle, ServiceWorld.setMemory_self] at h
    obtain rfl := Option.some.inj h
    exact .inr (Nat.le_of_eq hpid.symm)
  · rw [ServiceWorld.takeHandle, ServiceWorld.setMemory_of_ne hne] at h
    exact .inl h
  · rw [hturn.running] at h
    exact absurd (Option.some.inj h).symm hu
  · rw [ServiceWorld.takeHandle, ServiceWorld.setMemory_of_ne hne]
    exact .refl _

theorem mem_deadWorkers_of_not_namesLive {ownership : Ownership}
    (h : (!world.namesLive (some ownership)) = true) :
    ownership.workerPid ∈ world.deadWorkers := by
  refine mem_of_not_workerAlive fun hlive ↦ ?_
  rw [ServiceWorld.namesLive, Option.any_some, hlive] at h
  exact nomatch h

/-- The manager takes the handle of the worker it started. -/
theorem safe_ownSpawned (h : Turn p t manager own world) :
    serviceProtocol.Safe p t
      (fun r s ↦ match r with
        | .ok (handle, change) => Launched p t manager handle s ∧ Writable manager change s ∧
            change.value.ownership = some (handle.ownership manager)
        | .error _ => Turn p t manager false s)
      (ownSpawned manager) world := by
  refine safe_atomic fun s _ _ hinv hr hok ↦ ?_
  have hturn : Turn p t manager own s := h.of_rely hr
  rcases hspawn : s.surroundings.spawnOwnedProcess with error | nonce
  · exact ⟨hinv, .refl t s, hturn.weaken⟩
  rcases hrecord : (s.memory manager).record with _ | record
  · exact ⟨hinv, .refl t s, hturn.weaken⟩
  let handle : OwnedModelProcess := ⟨s.nextPid, nonce⟩
  let owned := record.advance fun record ↦
    { record with ownership := some (handle.ownership manager) }
  have hself : (s.takeHandle manager handle owned).memory manager =
      { s.memory manager with
        record := some owned, ownedProcess := some handle, unwritten := true } :=
    ServiceWorld.setMemory_self _
  have howned : owned.ownership = some (handle.ownership manager) := rfl
  refine ⟨ServiceInv.takeHandle hinv hturn rfl howned, hturn.guar_takeHandle owned rfl, ?_, ?_, rfl⟩
  · refine ⟨hturn.process, ?_, fun other ho ↦ ?_, fun ownership ho ↦ ?_⟩
    · exact (congrArg ManagerMemory.running hself).trans hturn.running
    · have hsame : some handle = some other :=
        (congrArg ManagerMemory.ownedProcess hself).symm.trans ho
      exact (Option.some.inj hsame).symm
    · have hsame : some (handle.ownership manager) = some ownership :=
        (congrArg ManagerMemory.ownership hself).symm.trans ho
      rw [← Option.some.inj hsame]
      rfl
  · refine ⟨fun base hbase ↦ ?_, fun ownership ho ↦ ?_, .inr fun ownership ho ↦ .inl ?_⟩
    · obtain rfl := Option.some.inj hbase
      exact Nat.le_succ _
    · obtain rfl := Option.some.inj ho
      exact Nat.lt_succ_self _
    · have hreplaced : (s.memory manager).ownership = some ownership :=
        (ManagerMemory.ownership_of_record hrecord).trans ho
      have hdead : (!s.namesLive (s.memory manager).ownership) = true := hok
      rw [hreplaced] at hdead
      exact mem_deadWorkers_of_not_namesLive hdead

/-- `launchOwnedService` keeps the turn. -/
theorem safe_launchOwnedService (profile : ModelServiceProfile) (operationId : Uuid) (rounds : ℕ) :
    serviceProtocol.Carries p t (Turn p t manager false)
      (launchOwnedService manager profile operationId rounds) := by
  refine (carries_look _ _).bind fun _ ↦ fun s hs ↦ ?_
  refine Safe.bind (safe_advance ?_ hs) (fun change s hs ↦ ?_) fun _ _ hs ↦ hs.1
  · exact fun _ ↦ rfl
  refine (safe_persist_turn (hs.2 change rfl) hs.1).bind (fun _ s hs ↦ ?_) fun _ _ hs ↦ hs
  refine (safe_ownSpawned hs).bind (fun launched s hs ↦ ?_) fun _ _ hs ↦ hs
  obtain ⟨handle, owned⟩ := launched
  obtain ⟨hlaunched, hwritable, hvalue⟩ := hs
  have hpersist : serviceProtocol.Safe p t (fun _ s ↦ Turn p t manager true s)
      (persist manager owned) s :=
    safe_persist (fun hr h ↦ h.of_rely hr) (fun h ↦ h.rename hvalue) hwritable hlaunched
  refine hpersist.bind (fun _ s hs ↦ ?_) fun _ _ hs ↦ hs.weaken
  -- the handler is started in a step of its own
  intro s' n _ hinv hr _ _
  refine ⟨hinv, .refl t s', fun i call hcall ↦ ?_, ?_⟩
  · exact ⟨manager, handle, List.mem_singleton.1 (List.mem_of_getElem? hcall)⟩
  · exact safe_waitForReadiness profile handle (fun _ ↦ rfl) rounds (hs.of_rely hr)

theorem carries_failStart (operationId : Uuid) (error : RuntimeError) :
    serviceProtocol.Carries p t (Turn p t manager false) (failStart manager operationId error) :=
  (carries_look _ _).bind fun _ ↦ .ite (fun _ ↦ carries_look _ _) fun _ ↦ carries_fail _ _ _

theorem carries_startOwnedService (profile : ModelServiceProfile) (operationId : Uuid)
    (rounds : ℕ) : serviceProtocol.Carries p t (Turn p t manager false)
      (startOwnedService manager profile operationId rounds) := by
  refine (carries_look _ _).bind fun fenced ↦ .ite
    (fun _ ↦ carries_waitForExternalStarter profile rounds) fun _ ↦ ?_
  refine .ensuring (.catching (safe_launchOwnedService profile operationId rounds) fun error ↦ ?_)
    (carries_look _ _)
  exact carries_failStart operationId error

theorem carries_ensureReadyTransition (profile : Option ModelServiceProfile) (operationId : Uuid)
    (rounds : ℕ) : serviceProtocol.Carries p t (Turn p t manager false)
      (ensureReadyTransition manager profile operationId rounds) := by
  refine carries_initializeRecord.bind fun _ ↦ ?_
  rcases profile with _ | profile
  · exact carries_fail _ _ _
  refine (carries_look _ _).bind fun result ↦ .ite (fun _ ↦ carries_markReady) fun _ ↦ ?_
  refine .ite (fun _ _ hs ↦ safe_markMismatch profile result hs) fun _ ↦ ?_
  refine .ite (fun _ ↦ carries_fail _ _ _) fun _ ↦ (carries_look _ _).bind fun running ↦ ?_
  rcases running with _ | handle
  · exact .ite (fun _ ↦ carries_fail _ _ _) fun _ ↦ carries_startOwnedService _ _ _
  · have hstop : false = true → false = true := id
    exact fun _ hs ↦ safe_waitForReadiness profile handle hstop rounds hs

/-! ### Stopping -/

/-- Once the check has passed the record in memory names the manager. -/
theorem carries_stopOwned (profile : Option ModelServiceProfile) (handle : OwnedModelProcess)
    (operationId : Uuid) : serviceProtocol.Carries p t (Turn p t manager true)
      (stopOwned manager profile handle operationId) := by
  intro s hs
  refine Safe.bind (safe_advance ?_ hs) (fun change s hs ↦ ?_) fun _ _ hs ↦ hs.1
  · exact fun _ ↦ rfl
  refine (safe_persist_turn (hs.2 change rfl) hs.1).bind (fun _ s hs ↦ ?_) fun _ _ hs ↦ hs
  refine (carries_stopWithTimeout handle s hs).bind (fun termination s hs ↦ ?_) fun _ _ hs ↦ hs
  refine (carries_look _ _ s hs).bind (fun alive s hs ↦ ?_) fun _ _ hs ↦ hs
  refine .ite (fun _ ↦ ?_) fun _ ↦ ?_
  · refine carries_advanceAndPersist ?_ s hs
    exact fun _ ↦ rfl
  · refine Safe.bind (safe_dropOwnership _ hs) (fun change s hs ↦ ?_) fun _ _ hs ↦ hs.1
    exact (safe_persist_turn (hs.2 change rfl) hs.1).bind (fun _ s hs ↦ carries_look _ _ s hs)
      fun _ _ hs ↦ hs

theorem Turn.owning (h : Turn p t manager own world)
    (hcheck : (world.memory manager).canUnload manager = true) : Turn p t manager true world := by
  refine ⟨h.process, h.running, h.written, fun _ ownership ho ↦ ?_⟩
  rw [ManagerMemory.canUnload, ho] at hcheck
  rcases hhandle : (world.memory manager).ownedProcess with _ | handle <;>
    rw [hhandle] at hcheck
  · exact absurd hcheck (by simp)
  · simp only [Bool.and_eq_true, decide_eq_true_eq] at hcheck
    exact hcheck.1.1

theorem carries_stopTransition (profile : Option ModelServiceProfile) (operationId : Uuid) :
    serviceProtocol.Carries p t (Turn p t manager false)
      (stopTransition manager profile operationId) := by
  refine carries_initializeRecord.bind fun _ ↦ carries_refreshLatest.bind fun _ s hs ↦ ?_
  refine safe_read_bind (fun _ s ↦ ServiceGuar.refl t s) fun s' _ _ _ hr _ ↦ ⟨?_, nofun⟩
  rintro owned howned
  obtain rfl := Except.ok.inj howned
  have hturn : Turn p t manager false s' := Turn.of_rely hs hr
  rcases hchecked : (s'.memory manager).ownedProcess.filter fun _ ↦
    (s'.memory manager).canUnload manager with _ | handle
  · exact carries_localFailure _ _ s' hturn
  obtain ⟨-, hcheck⟩ := Option.filter_eq_some_iff.1 hchecked
  have howning : Turn p t manager true s' := hturn.owning hcheck
  refine safe_weaken ?_ howning
  refine (carries_look _ _).bind fun busy ↦ .ite (fun _ ↦ carries_localFailure _ _) fun _ ↦ ?_
  refine (carries_look _ _).bind fun slots ↦ ?_
  cases slots with
  | idle => exact carries_stopOwned profile handle operationId
  | busy => exact carries_localFailure _ _
  | unknown => exact carries_localFailure _ _

/-! ### Unexpected exits -/

/-- What the handler does when the completion has settled. -/
theorem exitMemory_spec {handle : OwnedModelProcess} (hinv : ServiceInv world)
    (hok : ownsWhatItReplaces p t (.exit manager handle) world = true) :
    ServiceInv (exitMemory manager handle world).2 ∧
      ServiceGuar t world (exitMemory manager handle world).2 ∧
        ∀ change, (exitMemory manager handle world).1 = .ok (some change) →
          Writable manager change (exitMemory manager handle world).2 := by
  by_cases hkept : (world.memory manager).ownedProcess ≠ some handle ∨
      (world.memory manager).stopRequested = true
  · have hexit : exitMemory manager handle world = (.ok none, world) := by
      rw [exitMemory]
      by_cases hhandle : (world.memory manager).ownedProcess = some handle
      · rw [if_neg (not_not.2 hhandle), if_pos (hkept.resolve_left (not_not.2 hhandle))]
      · rw [if_pos hhandle]
    rw [hexit]
    exact ⟨hinv, .refl t world, fun _ h ↦ nomatch h⟩
  obtain ⟨hother, hstop⟩ := not_or.1 hkept
  rcases hrecord : (world.memory manager).record with _ | record
  · have hexit : exitMemory manager handle world = (.error notInitialized,
        world.setMemory manager { world.memory manager with ownedProcess := none }) := by
      rw [exitMemory, if_neg hother, if_neg hstop]
      split
      · rfl
      · rename_i h
        exact nomatch hrecord.symm.trans h
    rw [hexit]
    refine ⟨?_, ?_, fun _ h ↦ nomatch h⟩
    · exact hinv.setMemory (fun _ h ↦ (nomatch h)) (fun _ h ↦ (nomatch h))
        (hinv.memoryPid manager) rfl (hinv.turn manager)
    · exact .setMemory (fun _ h ↦ (nomatch h)) fun _ _ _ ↦
        ⟨rfl, id, fun _ h ↦ (nomatch h), fun _ ↦ id⟩
  · have hexit : exitMemory manager handle world =
        (.ok (some ⟨some record,
            exitedRecord ((world.completion handle.pid).getD none) record⟩),
          world.setMemory manager { world.memory manager with
            record := some (exitedRecord ((world.completion handle.pid).getD none) record)
            ownedProcess := none }) := by
      rw [exitMemory, if_neg hother, if_neg hstop, hrecord]
    have hmine (ownership : Ownership)
        (h : (world.memory manager).ownership = some ownership) :
        ownership.instanceId = manager := by
      rw [ownsWhatItReplaces, h] at hok
      simpa [not_not.1 hother] using hok
    obtain ⟨hinv', hguar, hwritable⟩ := hinv.dropHandle (t := t) hmine
      (exitedRecord ((world.completion handle.pid).getD none) record) hrecord (Nat.le_succ _) rfl
    rw [hexit]
    refine ⟨hinv', hguar, fun change hchange ↦ ?_⟩
    obtain rfl := Option.some.inj (Except.ok.inj hchange)
    exact hwritable

/-- The handler of an unexpected exit, which waits for no turn. -/
theorem keeps_observeUnexpectedExit (handle : OwnedModelProcess) :
    serviceProtocol.Keeps p t (observeUnexpectedExit manager handle) := by
  intro world
  have hexit : serviceProtocol.Safe p t
      (fun r s ↦ ∀ change, r = .ok (some change) → Writable manager change s)
      (.await (.exit manager handle) (fun world ↦ (world.completion handle.pid).isSome)
        (exitMemory manager handle) : ServiceProg (Option Change)) world := by
    intro s n _ hinv _ _ hok
    obtain ⟨hinv', hguar, hwritable⟩ := exitMemory_spec (t := t) hinv hok
    exact ⟨hinv', hguar, fun _ _ hk ↦ absurd hk (by simp), hwritable⟩
  refine hexit.bind (fun change s hs ↦ ?_) fun _ _ _ ↦ trivial
  rcases change with _ | change
  · trivial
  · exact safe_persist (J := fun _ ↦ True) (fun _ _ ↦ trivial) (fun _ ↦ trivial)
      (hs change rfl) trivial

end Turns

/-! ### Soundness -/

theorem keeps_serializeTransition {p t : ℕ} {manager : ManagerId}
    {operation : ServiceProg ModelServiceRecord} (hprocess : manager.process = p)
    (h : serviceProtocol.Carries p t (Turn p t manager false) operation) :
    serviceProtocol.Keeps p t (serializeTransition manager t operation) := by
  have hleave : ∀ s, Turn p t manager false s →
      serviceProtocol.Safe p t (fun _ _ ↦ True)
        (.modify (.leave manager) fun world ↦
          world.setMemory manager { world.memory manager with running := none } :
            ServiceProg Unit) s := by
    intro s hs
    refine safe_modify fun s' _ _ hinv hr _ ↦ ?_
    have hturn : Turn p t manager false s' := hs.of_rely hr
    refine ⟨?_, ServiceGuar.setMemory (fun _ h ↦ h) fun u hu hrunning ↦ ?_, trivial⟩
    · exact ServiceInv.setMemory hinv (fun _ h ↦ h) (ServiceInv.owned hinv manager)
        (ServiceInv.memoryPid hinv manager) rfl fun _ ↦ hturn.written
    · rw [hturn.running] at hrunning
      exact absurd (Option.some.inj hrunning).symm hu
  intro world s n _ hinv _ hfree _
  have hnone : (s.memory manager).running = none := by simpa using hfree
  have hwritten := ServiceInv.turn hinv manager hnone
  refine ⟨?_, ?_, fun _ _ hk ↦ absurd hk (by simp), ?_⟩
  · exact ServiceInv.setMemory hinv (fun _ h ↦ h) (ServiceInv.owned hinv manager)
      (ServiceInv.memoryPid hinv manager) rfl fun _ ↦ hwritten
  · refine ServiceGuar.setMemory (fun _ h ↦ h) fun u _ hrunning ↦ ?_
    exact nomatch hnone.symm.trans hrunning
  · have hturn : Turn p t manager false (s.setMemory manager
        { s.memory manager with running := some t }) := by
      refine ⟨hprocess, ?_, ?_, nofun⟩
      · rw [ServiceWorld.setMemory_self]
      · rw [ServiceWorld.setMemory_self]
        exact hwritten
    refine (h _ hturn).ensuring fun r s hs ↦ (hleave s hs).mono fun r _ _ ↦ ?_
    cases r <;> trivial

/-- What happens outside leaves the managers and the file as they are. -/
theorem keeps_outside {p t : ℕ} {f : ServiceWorld → ServiceWorld}
    (hf : ∀ world, (f world).file = world.file ∧ (f world).memory = world.memory ∧
      world.deadWorkers ⊆ (f world).deadWorkers ∧ (f world).nextPid = world.nextPid ∧
        (f world).written = world.written) :
    serviceProtocol.Keeps p t (.modify .outside f : ServiceProg Unit) := by
  intro world
  refine safe_modify fun s _ _ hinv _ _ ↦ ?_
  obtain ⟨hfile, hmemory, hdead, hpid, hwritten⟩ := hf s
  have hstored : (f s).stored = s.stored :=
    congrArg (Option.bind · ModelServiceRecord.ownership) hfile
  refine ⟨?_, ⟨Nat.le_of_eq hpid.symm, hdead, fun manager handle h ↦ .inl (hmemory ▸ h), fun manager u _ _ ↦ ?_⟩,
    trivial⟩
  · refine ⟨fun manager handle h hlive ↦ ?_, fun manager handle h hlive hw ↦ ?_,
      fun manager handle h ↦ ?_, fun manager ownership h ↦ ?_, fun ownership h ↦ ?_,
      fun manager h ↦ ?_, fun write h ↦ ?_⟩
    · rw [hmemory] at h ⊢
      exact ServiceInv.owned hinv manager handle h fun hd ↦ hlive (hdead hd)
    · rw [hmemory] at h hw
      exact hstored.trans (ServiceInv.stored hinv manager handle h (fun hd ↦ hlive (hdead hd)) hw)
    · rw [hmemory] at h
      exact hpid ▸ ServiceInv.handlePid hinv manager handle h
    · rw [hmemory] at h
      exact hpid ▸ ServiceInv.memoryPid hinv manager ownership h
    · rw [hstored] at h
      exact hpid ▸ ServiceInv.storedPid hinv ownership h
    · rw [hmemory] at h ⊢
      exact ServiceInv.turn hinv manager h
    · rw [hwritten] at h
      exact ServiceInv.written hinv write h
  · rw [hmemory]
    exact .refl _

/-- A manager after a crash: it has no memory left, or it is as before. -/
theorem crashManagers_memory (process : ℕ) (world : ServiceWorld) (manager : ManagerId) :
    (crashManagers process world).memory manager = {} ∨
      (crashManagers process world).memory manager = world.memory manager := by
  by_cases h : manager.process = process
  · exact .inl (if_pos h)
  · exact .inr (if_neg h)

/-- A crash keeps the invariant. -/
theorem ServiceInv.crash {process : ℕ} {world : ServiceWorld} (h : ServiceInv world) :
    ServiceInv (crashManagers process world) := by
  have hmemory := crashManagers_memory process world
  refine ⟨fun manager handle hhandle hlive ↦ ?_, fun manager handle hhandle hlive hw ↦ ?_,
    fun manager handle hhandle ↦ ?_, fun manager ownership ho ↦ ?_, h.storedPid,
    fun manager hrunning ↦ ?_, h.written⟩ <;> rcases hmemory manager with hgone | hsame
  · rw [hgone] at hhandle
    exact nomatch hhandle
  · rw [hsame] at hhandle ⊢
    exact h.owned manager handle hhandle hlive
  · rw [hgone] at hhandle
    exact nomatch hhandle
  · rw [hsame] at hhandle hw
    exact h.stored manager handle hhandle hlive hw
  · rw [hgone] at hhandle
    exact nomatch hhandle
  · rw [hsame] at hhandle
    exact h.handlePid manager handle hhandle
  · rw [hgone] at ho
    exact nomatch ho
  · rw [hsame] at ho
    exact h.memoryPid manager ownership ho
  · rw [hgone]
  · rw [hsame] at hrunning ⊢
    exact h.turn manager hrunning

/-- A crash leaves the managers of the other processes as they are. -/
theorem ServiceRely.crash {process p t : ℕ} {world : ServiceWorld} (hne : process ≠ p) :
    ServiceRely p t world (crashManagers process world) := by
  refine ⟨Nat.le_refl _, fun _ h ↦ h, fun manager handle h ↦ ?_, fun manager hp _ ↦ ?_⟩
  · rcases crashManagers_memory process world manager with hgone | hsame
    · rw [hgone] at h
      exact nomatch h
    · exact .inl (hsame ▸ h)
  · have hsame : (crashManagers process world).memory manager = world.memory manager :=
      if_neg fun h ↦ hne (h.symm.trans hp)
    rw [hsame]
    exact .refl _

/-- The managers keep the protocol. -/
theorem serviceProtocol_sound (profile : Option ModelServiceProfile) (rounds : ℕ) :
    serviceProtocol.Sound (serviceSystem profile rounds) fun _ _ _ ↦ True where
  inv_mono _ h := h
  rely_refl := ServiceRely.refl _ _ _
  rely_trans := ServiceRely.trans
  guar_rely hne _ _ _ h := h.rely hne
  post_stable _ _ _ _ _ _ _ := trivial
  call {p t call world} _ hentry := by
    have hprocess (manager : ManagerId)
        (h : (manager.process = p && world.ownerAlive p) = true) : manager.process = p := by
      simp only [Bool.and_eq_true, decide_eq_true_eq] at h
      exact h.1
    cases call with
    | observe manager =>
      have hkeeps := keeps_serializeTransition (t := t) (hprocess manager hentry)
        (carries_observeTransition profile)
      exact (hkeeps.bind fun _ ↦ keeps_ret _) world
    | ensureReady manager =>
      have hkeeps := keeps_serializeTransition (t := t) (hprocess manager hentry)
        (carries_ensureReadyTransition profile t rounds)
      exact (hkeeps.bind fun _ ↦ keeps_ret _) world
    | stop manager =>
      have hkeeps := keeps_serializeTransition (t := t) (hprocess manager hentry)
        (carries_stopTransition profile t)
      exact (hkeeps.bind fun _ ↦ keeps_ret _) world
    | observeUnexpectedExit manager handle => exact nomatch hentry
    | workerDies pid =>
      have hkeeps : serviceProtocol.Keeps p t (.modify .outside fun world ↦
          { world with deadWorkers := world.deadWorkers ++ [pid] } : ServiceProg Unit) :=
        keeps_outside fun _ ↦ ⟨rfl, rfl, List.subset_append_left _ _, rfl, rfl⟩
      exact (hkeeps.bind fun _ ↦ keeps_ret _) world
    | complete pid termination =>
      have hkeeps : serviceProtocol.Keeps p t (.modify .outside fun world ↦
          { world with completion := Function.update world.completion pid (some termination) } :
            ServiceProg Unit) :=
        keeps_outside fun _ ↦ ⟨rfl, rfl, fun _ h ↦ h, rfl, rfl⟩
      exact (hkeeps.bind fun _ ↦ keeps_ret _) world
    | surround surroundings =>
      have hkeeps : serviceProtocol.Keeps p t (.modify .outside fun world ↦
          { world with surroundings } : ServiceProg Unit) :=
        keeps_outside fun _ ↦ ⟨rfl, rfl, fun _ h ↦ h, rfl, rfl⟩
      exact (hkeeps.bind fun _ ↦ keeps_ret _) world
  fork {p t call n world} _ _ h := by
    obtain ⟨manager, handle, rfl⟩ := h
    exact ((keeps_observeUnexpectedExit handle).bind fun _ ↦ keeps_ret _) world
  crash_inv h := ServiceInv.crash h
  crash_rely hne _ := ServiceRely.crash hne

theorem serviceInv_empty : ServiceInv {} where
  owned _ _ h := nomatch h
  stored _ _ h := nomatch h
  handlePid _ _ h := nomatch h
  memoryPid _ _ h := nomatch h
  storedPid _ h := nomatch h
  turn _ _ := rfl
  written _ h := nomatch h

/-- The handle of a live worker passes the check of `stop`. -/
theorem ServiceInv.canUnload {world : ServiceWorld} (h : ServiceInv world) {manager : ManagerId}
    {handle : OwnedModelProcess} (hhandle : (world.memory manager).ownedProcess = some handle)
    (hlive : world.workerAlive handle.pid = true) :
    (world.memory manager).canUnload manager = true := by
  have howned := h.owned manager handle hhandle (not_mem_of_workerAlive hlive)
  rw [ManagerMemory.canUnload, howned, hhandle]
  simp [OwnedModelProcess.ownership]

/-- **The record keeps the ownerships** in the runs in which every rename replaces what the writer
had advanced, no worker is started over a live one, and the handler of an unexpected exit finds no
foreign ownership. -/
theorem ownershipKept_of_ownsWhatItReplaces (profile : Option ModelServiceProfile) (rounds : ℕ) :
    OwnershipKept profile rounds fun p t l world ↦ ownsWhatItReplaces p t l world = true where
  written _ h :=
    ((serviceProtocol_sound profile rounds).pool (pool_start serviceInv_empty) h).inv.written
  owner _ h _ _ hhandle hlive :=
    ServiceInv.canUnload
      ((serviceProtocol_sound profile rounds).pool (pool_start serviceInv_empty) h).inv hhandle hlive

/-! ### A stale copy -/

/-- A profile with a launch. -/
def launchProfile : ModelServiceProfile where
  model := "m"
  context := 1
  launch := true
  startupTimeoutMs := 1000
  stopTimeoutMs := 500

/-- The second manager observes the empty root; the first starts the service and makes it ready;
then the second finds the endpoint indeterminate, and writes the copy it has had since. -/
def staleFailure : List (Event ServiceCall ℕ) :=
  [ [.call 1 (.observe ⟨1, 0⟩)], List.replicate 10 (.run 0),
    [.call 0 (.surround { probe := { offline := true } }), .run 1,
      .call 0 (.ensureReady ⟨0, 0⟩)], List.replicate 15 (.run 2),
    [.call 0 (.surround { probe := { reachable := true, ready := true } }), .run 4],
    List.replicate 7 (.run 2),
    [.call 0 (.surround {}), .run 5, .call 1 (.ensureReady ⟨1, 0⟩)],
    List.replicate 6 (.run 6) ].flatten

/-- **A lost ownership**: the revision went from 3 back to 1, and the ownership of the live worker of
the first manager is gone. -/
theorem not_ownershipKept_staleFailure :
    ¬ ∀ (profile : Option ModelServiceProfile) (rounds : ℕ),
      OwnershipKept profile rounds System.unrestricted := by
  intro h
  have hrun : ((serviceSystem (some launchProfile) 1).advanceAll (fun _ _ _ _ ↦ true) (.start {})
      staleFailure).map (fun cfg : ServiceConfig ↦ cfg.shared.written[4]?.map fun write ↦
        (write.before.map (·.revision), write.after.revision)) = some (some (some 3, 1)) := by
    decide +kernel
  obtain ⟨cfg, hcfg, hstate⟩ := Option.map_eq_some_iff.1 hrun
  obtain ⟨write, hwrite, hrevisions⟩ := Option.map_eq_some_iff.1 hstate
  obtain ⟨hbefore, hafter⟩ := Prod.mk.inj hrevisions
  obtain ⟨record, hrecord, hrevision⟩ := Option.map_eq_some_iff.1 hbefore
  have hreach : (serviceSystem (some launchProfile) 1).Reaches System.unrestricted (.start {}) cfg :=
    (System.reaches_of_advanceAll hcfg).mono fun _ _ _ _ _ ↦ trivial
  have hproper := (h _ _).written cfg hreach write (List.mem_of_getElem? hwrite)
  have hle := hproper.revision record hrecord
  rw [hrevision, hafter] at hle
  exact absurd hle (by decide)

end ModelService

end CodeConductor
