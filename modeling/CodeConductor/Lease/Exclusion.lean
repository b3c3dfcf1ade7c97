import CodeConductor.Lease.Safety

/-!
# Mutual exclusion of the lease

`LeaseExclusive` is what the lease is for. It holds in every state of every run in which the owner
quarantines only locks of dead initializers and a contender preserves the mutex directory only of a
dead owner.

The second condition is not kept by the code. `acquireReconciliationMutex` reads the mutex owner,
then looks whether that process is alive, then renames the mutex *directory*: if the owner it read
releases the mutex and dies in between, and somebody else takes the mutex, the rename moves the
directory of a live owner away, to the evidence path of the owner that was read, which is free.
-/

namespace CodeConductor

open Async Async.Prog Async.Protocol

/-- A configuration of the contenders. -/
abbrev LeaseConfig := Config LeaseStep LeaseFs LeaseCall RuntimeError Unit ℕ

/-- What the lease promises of a state. -/
structure LeaseExclusive (fs : LeaseFs) : Prop where
  /-- What a live process holds, `renewLease` accepts from it. -/
  renewable : ∀ h ∈ fs.holders, h.process ∉ fs.dead →
    acceptsRenewal (fs.lock.bind LockDirectory.lease) h.process h.lease = true
  /-- At most one live process holds a lease that `renewLease` would accept. -/
  exclusive : ∀ h ∈ fs.holders, ∀ h' ∈ fs.holders, h.process ∉ fs.dead → h'.process ∉ fs.dead →
    acceptsRenewal (fs.lock.bind LockDirectory.lease) h.process h.lease = true →
    acceptsRenewal (fs.lock.bind LockDirectory.lease) h'.process h'.lease = true →
      h.process = h'.process
  /-- The generations of successive leases strictly increase. -/
  increasing : fs.issued.Pairwise fun a b ↦ a.generation < b.generation
  /-- A release removed the lock directory of the lease it was given, never another one. -/
  ownRelease : ∀ r ∈ fs.released, ∃ lease, r.2.lease = some lease ∧ sameLease lease r.1 = true
  /-- At most one live process is inside the critical section of the reconciliation mutex. -/
  critical : ∀ e ∈ fs.inside, ∀ e' ∈ fs.inside, e.2 ∉ fs.dead → e'.2 ∉ fs.dead → e.2 = e'.2

theorem LeaseInv.leaseExclusive {fs : LeaseFs} (h : LeaseInv fs) : LeaseExclusive fs where
  renewable holder hh _ := by
    obtain ⟨-, lock, lease, hlock, -, hp, hlease, hsame⟩ := h.holders holder hh
    have hprocess := h.process lock lease hlock hlease
    rw [hlock, Option.bind_some, hlease, acceptsRenewal, Option.any_some, hsame, hprocess, hp]
    simp
  exclusive holder hh holder' hh' _ _ _ _ := by
    obtain ⟨-, lock, -, hlock, -, hp, -⟩ := h.holders holder hh
    obtain ⟨-, lock', -, hlock', -, hp', -⟩ := h.holders holder' hh'
    obtain rfl := Option.some.inj (hlock.symm.trans hlock')
    exact hp.symm.trans hp'
  increasing := h.generations
  ownRelease := h.released
  critical e he e' he' _ _ := by
    obtain ⟨-, m, hm, -, hp⟩ := h.inside e he
    obtain ⟨-, m', hm', -, hp'⟩ := h.inside e' he'
    obtain rfl := Option.some.inj (hm.symm.trans hm')
    exact hp.symm.trans hp'

/-- The lease's promise for the runs all of whose steps meet `ok`. -/
def LeaseExcludes (ok : ℕ → ℕ → LeaseStep → LeaseFs → Prop) : Prop :=
  ∀ cfg : LeaseConfig, leaseSystem.Reaches ok (.start {}) cfg → LeaseExclusive cfg.shared

/-- The steps of a run that preserves only the mutex of a dead owner and quarantines only the lock
of a dead initializer. -/
def preservesDead (p t : ℕ) (l : LeaseStep) (fs : LeaseFs) : Bool :=
  preservesDeadMutex p t l fs && quarantinesDeadLock p t l fs

/-- A session of process `p`. -/
def session (p : ℕ) : Event LeaseCall ℕ := .call p (.session 3 "owner" 1000 0)

/-- Process 1 dies holding the lease. Processes 2, 3 and 4 find it dead; process 2 takes the mutex,
process 4 reads that process 2 has it. Process 2 recovers the lease, releases the mutex and dies,
process 3 takes the mutex, and now process 4 finds process 2 dead: it moves the mutex of process 3
away and takes the mutex itself. -/
def staleOwner : List (Event LeaseCall ℕ) :=
  [ [session 1], List.replicate 9 (.run 0),
    [.crash 1, session 2, session 3, session 4], List.replicate 10 (.run 1),
    List.replicate 5 (.run 2), List.replicate 11 (.run 3), List.replicate 9 (.run 1),
    [.crash 2], List.replicate 5 (.run 2), List.replicate 7 (.run 3) ].flatten

end CodeConductor
