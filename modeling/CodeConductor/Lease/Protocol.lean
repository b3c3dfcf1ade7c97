import CodeConductor.Lease.Store

/-!
# What the processes contending for the lease rely on

Two things are owned by a call while its process lives: the lock directory it made, and the mutex it
took. The lock directory of a live process is changed by that call only. The lock directory of a dead
process is changed only under the mutex, so a recoverer that has seen a dead lease under its own mutex
may take its time before renaming it.

`acquireLease` inspects the lock twice, and the first inspection is the one that counts for the
owner: once it has seen the process of a lease dead, no later content of the lock directory can be
that lease unless nobody has touched the directory since. The mutex itself is recovered after a
*single* look at its owner. The runs considered are those in which that look does not go stale: a
contender renames the mutex directory only when its owner is dead.
-/

namespace CodeConductor

open Async Async.Prog Async.Protocol

/-- A contender preserves a mutex directory only if its owner is dead, or the rename is refused. -/
def preservesDeadMutex : ℕ → ℕ → LeaseStep → LeaseFs → Bool
  | _, _, .preserveMutex instanceId, fs =>
    decide (instanceId ∈ fs.mutexEvidence) || fs.mutex.all fun m ↦ decide (m.processId ∈ fs.dead)
  | _, _, _, _ => true

/-- The owner's quarantine is applied only to a lock directory whose initializer is dead. -/
def quarantinesDeadLock : ℕ → ℕ → LeaseStep → LeaseFs → Bool
  | _, _, .quarantineLock, fs => fs.lock.all fun lock ↦ decide (lock.process ∈ fs.dead)
  | _, _, _, _ => true

/-- What holds of the lease files whatever the processes do. -/
structure LeaseInv (fs : LeaseFs) : Prop where
  /-- A written lease names the process that made the directory. -/
  process : ∀ lock lease, fs.lock = some lock → lock.lease = some lease →
    lease.processId = lock.process
  /-- A call inside the critical section lives and has the mutex. -/
  inside : ∀ e ∈ fs.inside, e.2 ∉ fs.dead ∧
    ∃ m, fs.mutex = some m ∧ m.holder = e.1 ∧ m.processId = e.2
  /-- A holder lives, and its lease is in the lock directory it made. -/
  holders : ∀ h ∈ fs.holders, h.process ∉ fs.dead ∧
    ∃ lock lease, fs.lock = some lock ∧ lock.creator = h.call ∧ lock.process = h.process ∧
      lock.lease = some lease ∧ sameLease lease h.lease = true
  generations : fs.issued.Pairwise fun a b ↦ a.generation < b.generation
  bounded : ∀ lease ∈ fs.issued, lease.generation ≤ fs.generation.getD 0
  released : ∀ r ∈ fs.released, ∃ lease, r.2.lease = some lease ∧ sameLease lease r.1 = true

/-- Call `t` of process `p` made the lock directory. -/
def OwnsLock (p t : ℕ) (fs : LeaseFs) (lock : LockDirectory) : Prop :=
  fs.lock = some lock ∧ lock.creator = t ∧ lock.process = p

/-- Call `t` of process `p` has the mutex. -/
def OwnsMutex (p t : ℕ) (fs : LeaseFs) (m : ReconciliationMutex) : Prop :=
  fs.mutex = some m ∧ m.holder = t ∧ m.processId = p

/-- What call `t` of process `p` may assume of the others. -/
structure LeaseRely (p t : ℕ) (fs fs' : LeaseFs) : Prop where
  alive : p ∉ fs.dead → p ∉ fs'.dead
  dead : fs.dead ⊆ fs'.dead
  lock : p ∉ fs.dead → ∀ lock, OwnsLock p t fs lock → fs'.lock = some lock
  counter : p ∉ fs.dead → ∀ lock, OwnsLock p t fs lock →
    fs'.generation = fs.generation ∧ fs'.issued = fs.issued
  mutex : p ∉ fs.dead → ∀ m, OwnsMutex p t fs m → fs'.mutex = some m
  /-- Under the own mutex the lock directory of a dead process stays. -/
  deadLock : p ∉ fs.dead → ∀ m, OwnsMutex p t fs m →
    ∀ lock, fs.lock = some lock → lock.process ∈ fs.dead → fs'.lock = some lock
  inside : (t, p) ∉ fs.inside → (t, p) ∉ fs'.inside

/-- What call `t` guarantees. -/
structure LeaseGuar (t : ℕ) (fs fs' : LeaseFs) : Prop where
  dead : fs'.dead = fs.dead
  lock : ∀ lock, fs.lock = some lock → fs'.lock = fs.lock ∨
    lock.creator = t ∧ lock.process ∉ fs.dead ∨
    lock.process ∈ fs.dead ∧ ∃ m, fs.mutex = some m ∧ m.holder = t
  counter : ∀ lock, fs.lock = some lock →
    fs'.generation = fs.generation ∧ fs'.issued = fs.issued ∨ lock.creator = t
  mutex : ∀ m, fs.mutex = some m → fs'.mutex = fs.mutex ∨ m.holder = t ∨ m.processId ∈ fs.dead
  inside : ∀ e ∈ fs'.inside, e ∈ fs.inside ∨ e.1 = t

/-- The protocol of the contenders. -/
def leaseProtocol : Protocol LeaseStep LeaseFs LeaseCall ℕ where
  inv _ := LeaseInv
  rely := LeaseRely
  guar _ t _ := LeaseGuar t
  ok p t l fs := preservesDeadMutex p t l fs = true ∧ quarantinesDeadLock p t l fs = true
  pre _ _ _ _ := False

/-! ### The relations -/

theorem LeaseRely.refl (p t : ℕ) (fs : LeaseFs) : LeaseRely p t fs fs where
  alive h := h
  dead := List.Subset.refl _
  lock _ _ h := h.1
  counter _ _ _ := ⟨rfl, rfl⟩
  mutex _ _ h := h.1
  deadLock _ _ _ _ h _ := h
  inside h := h

theorem LeaseRely.trans {p t : ℕ} {a b c : LeaseFs} (hab : LeaseRely p t a b)
    (hbc : LeaseRely p t b c) : LeaseRely p t a c where
  alive h := hbc.alive (hab.alive h)
  dead := List.Subset.trans hab.dead hbc.dead
  lock h lock hl := hbc.lock (hab.alive h) lock ⟨hab.lock h lock hl, hl.2⟩
  counter h lock hl := by
    obtain ⟨hg, hi⟩ := hab.counter h lock hl
    obtain ⟨hg', hi'⟩ := hbc.counter (hab.alive h) lock ⟨hab.lock h lock hl, hl.2⟩
    exact ⟨hg'.trans hg, hi'.trans hi⟩
  mutex h m hm := hbc.mutex (hab.alive h) m ⟨hab.mutex h m hm, hm.2⟩
  deadLock h m hm lock hl hd :=
    hbc.deadLock (hab.alive h) m ⟨hab.mutex h m hm, hm.2⟩ lock (hab.deadLock h m hm lock hl hd)
      (hab.dead hd)
  inside h := hbc.inside (hab.inside h)

theorem LeaseGuar.refl (t : ℕ) (fs : LeaseFs) : LeaseGuar t fs fs where
  dead := rfl
  lock _ _ := .inl rfl
  counter _ _ := .inl ⟨rfl, rfl⟩
  mutex _ _ := .inl rfl
  inside _ h := .inl h

/-- One call's guarantee is within every other's rely. -/
theorem LeaseGuar.rely {t p' t' : ℕ} {fs fs' : LeaseFs} (h : LeaseGuar t fs fs') (hne : t ≠ t') :
    LeaseRely p' t' fs fs' where
  alive hp := h.dead ▸ hp
  dead := h.dead ▸ List.Subset.refl _
  lock hp lock hl := by
    obtain heq | ⟨hc, -⟩ | ⟨hd, -⟩ := h.lock lock hl.1
    · rw [heq, hl.1]
    · exact absurd (hc.symm.trans hl.2.1) hne
    · exact absurd (hl.2.2 ▸ hd) hp
  counter hp lock hl := by
    obtain heq | hc := h.counter lock hl.1
    · exact heq
    · exact absurd (hc.symm.trans hl.2.1) hne
  mutex hp m hm := by
    obtain heq | hc | hd := h.mutex m hm.1
    · rw [heq, hm.1]
    · exact absurd (hc.symm.trans hm.2.1) hne
    · exact absurd (hm.2.2 ▸ hd) hp
  deadLock hp m hm lock hl hd := by
    -- whoever changes it has the mutex, or made the directory and lives
    obtain heq | ⟨-, hlive⟩ | ⟨-, m', hm', hholder⟩ := h.lock lock hl
    · rw [heq, hl]
    · exact absurd hd hlive
    · obtain rfl := Option.some.inj (hm.1.symm.trans hm')
      exact absurd (hholder.symm.trans hm.2.1) hne
  inside hp hmem := by
    obtain hold | hnew := h.inside _ hmem
    · exact hp hold
    · exact hne hnew.symm

end CodeConductor
