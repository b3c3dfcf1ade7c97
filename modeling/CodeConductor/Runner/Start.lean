import CodeConductor.Runner.Evidence

/-!
# A worker belongs to a recorded guardian

Recovery finds what is left of a run by the guardian that was recorded for it. `runProcess` records
the guardian (`onGuardianReady`) before it writes the start message, and the guardian starts its
worker only on a whole line. So whatever happens to either of the two, a worker was started only if
its guardian had been recorded (`workerRecorded`), and none is once the recording failed.

## What is modelled

The runner on POSIX up to the start message, with its timer and its signal, and the guardian of
`Runner.Guardian`, which was given a pid, at the other end of the pipe. A write after the end of the
pipe writes nothing.
-/

namespace CodeConductor.Runner

/-- How far `callbackChain` is with the guardian. -/
inductive StartPhase where
  | spawning
  /-- `onGuardianReady` was called. -/
  | recording
  | ready
  | failed
  deriving DecidableEq, Repr

/-- The variables of `runProcess` before the start message, and what was written to `control`. -/
structure Owner where
  phase : StartPhase := .spawning
  timedOut : Bool := false
  cancelled : Bool := false
  terminationRequested : Bool := false
  /-- `control.end()` was called. -/
  ended : Bool := false
  written : List Char := []

namespace Owner

/-- `terminate`. -/
def terminate (o : Owner) (timedOut : Bool) : Owner :=
  if o.terminationRequested then o
  else
    { o with
      timedOut := timedOut
      cancelled := !timedOut
      terminationRequested := true
      ended := true }

/-- The `spawn` listener of the guardian. -/
def spawned (o : Owner) : Owner :=
  if o.timedOut || o.cancelled then o.terminate o.timedOut else { o with phase := .recording }

/-- What follows `onGuardianReady`: the start message is written. -/
def recorded (o : Owner) (message : List Char) : Owner :=
  { o with
    phase := .ready
    written := if o.ended then o.written else o.written ++ (message ++ ['\n']) }

end Owner

/-- A runner and its guardian. -/
structure Started where
  owner : Owner := {}
  guardian : Guardian := {}

namespace Started

/-- A turn of the runner, or one of the guardian, which has read a beginning of what was written. -/
inductive Step (nonce : String) : Started → Started → Prop
  | spawned {s : Started} : s.owner.phase = .spawning →
    Step nonce s { s with owner := s.owner.spawned }
  | recorded {s : Started} (message : List Char) : s.owner.phase = .recording →
    Step nonce s { s with owner := s.owner.recorded message }
  | failed {s : Started} : s.owner.phase = .recording →
    Step nonce s { s with owner := { s.owner with phase := .failed } }
  | terminate {s : Started} (timedOut : Bool) :
    Step nonce s { s with owner := s.owner.terminate timedOut }
  | finish {s : Started} : Step nonce s { s with owner := { s.owner with ended := true } }
  | guardian {s : Started} {guardian : Guardian} : Guardian.Step nonce s.guardian guardian →
    guardian.buffer <+: s.owner.written → Step nonce s { s with guardian := guardian }

/-- The states of a run. -/
inductive Reachable (nonce : String) : Started → Prop
  | start : Reachable nonce {}
  | step {s s' : Started} : Reachable nonce s → Step nonce s s' → Reachable nonce s'

end Started

/-! ### The guardian reads before it starts -/

namespace Guardian

variable {g g' : Guardian} {nonce : String}

/-- Everything but the control channel. -/
structure KeepsControl (g g' : Guardian) : Prop where
  buffer : g'.buffer = g.buffer
  started : g'.started = g.started

theorem keepsControl_stop (reason : String) : g.KeepsControl (g.stop reason) := by
  rw [Guardian.stop]
  split
  · exact ⟨rfl, rfl⟩
  · exact ⟨rfl, rfl⟩

theorem keepsControl_uncaught (message : String) : g.KeepsControl (g.uncaught message) :=
  ⟨(keepsControl_stop _).buffer, (keepsControl_stop _).started⟩

theorem keepsControl_spawn (outcome : SpawnOutcome) : g.KeepsControl (g.spawn outcome) := by
  cases outcome with
  | started pid => exact ⟨rfl, rfl⟩
  | failed => exact ⟨rfl, rfl⟩
  | threw message => exact keepsControl_uncaught message

theorem keepsControl_exceed (limit : OutputLimit) : g.KeepsControl (g.exceed limit) := by
  rw [Guardian.exceed]
  split
  · exact ⟨(keepsControl_stop _).buffer, (keepsControl_stop _).started⟩
  · exact ⟨rfl, rfl⟩

theorem keepsControl_close (exitCode : Option Int) (signal : Option String) :
    g.KeepsControl (g.close exitCode signal) := by
  rw [Guardian.close]
  split
  · exact ⟨rfl, rfl⟩
  · exact ⟨rfl, rfl⟩

/-- The whole first line was read. -/
def HasRead (g : Guardian) : Prop := g.started = true → '\n' ∈ g.buffer

theorem KeepsControl.hasRead (h : g.KeepsControl g') (hg : g.HasRead) : g'.HasRead := by
  intro hstarted
  rw [h.buffer]
  exact hg (h.started ▸ hstarted)

theorem HasRead.control (h : g.HasRead) (typeError : String) (outcome : SpawnOutcome)
    (chunk : List Char) : (g.control nonce typeError outcome chunk).HasRead := by
  rw [Guardian.control]
  dsimp only
  split_ifs with hwait
  · exact fun hstarted ↦ List.mem_append_left _ (h hstarted)
  · have hread : { g with buffer := g.buffer ++ chunk, started := true }.HasRead :=
      fun _ ↦ not_not.1 (not_or.1 hwait).1
    split
    · exact (keepsControl_uncaught _).hasRead hread
    · exact (keepsControl_uncaught _).hasRead hread
    · split_ifs
      · exact (keepsControl_spawn outcome).hasRead hread
      · exact (keepsControl_uncaught _).hasRead hread

theorem HasRead.step (hg : g.HasRead) (h : Step nonce g g') : g'.HasRead := by
  cases h with
  | control typeError outcome chunk _ _ => exact hg.control typeError outcome chunk
  | stop reason _ _ => exact (keepsControl_stop reason).hasRead hg
  | uncaught message _ _ => exact (keepsControl_uncaught message).hasRead hg
  | exceed limit _ _ _ => exact (keepsControl_exceed limit).hasRead hg
  | close exitCode signal _ _ _ => exact (keepsControl_close exitCode signal).hasRead hg
  | announce _ _ _ | error _ _ _ _ | cleaned _ _ _ | exit _ _ | kill _ => exact hg

end Guardian

/-! ### The runner records before it writes -/

namespace Owner

variable {o : Owner}

theorem phase_terminate (timedOut : Bool) : (o.terminate timedOut).phase = o.phase := by
  rw [terminate]
  split <;> rfl

theorem written_terminate (timedOut : Bool) : (o.terminate timedOut).written = o.written := by
  rw [terminate]
  split <;> rfl

end Owner

namespace Started

/-- What holds in every state of a run. -/
structure Inv (s : Started) : Prop where
  guardian : s.guardian.Inv
  hasRead : s.guardian.HasRead
  read : s.guardian.buffer <+: s.owner.written
  /-- Nothing is written until the guardian is recorded. -/
  written : s.owner.written ≠ [] → s.owner.phase = .ready
  once : s.owner.written = [] ∨ ∃ message, s.owner.written = message ++ ['\n']

variable {s s' : Started} {nonce : String}

theorem Inv.step (h : s.Inv) (hstep : Step nonce s s') : s'.Inv := by
  have hempty : s.owner.phase ≠ .ready → s.owner.written = [] := fun hphase ↦
    by_contra fun hwritten ↦ hphase (h.written hwritten)
  cases hstep with
  | spawned hphase =>
    have hnothing : s.owner.written = [] := hempty (by simp [hphase])
    have hsame : s.owner.spawned.written = s.owner.written := by
      rw [Owner.spawned]
      split
      · exact Owner.written_terminate _
      · rfl
    refine ⟨h.guardian, h.hasRead, ?_, fun hwritten ↦ absurd (hsame.trans hnothing) hwritten,
      .inl (hsame.trans hnothing)⟩
    rw [hsame]
    exact h.read
  | recorded message hphase =>
    have hnothing : s.owner.written = [] := hempty (by simp [hphase])
    refine ⟨h.guardian, h.hasRead, ?_, fun _ ↦ rfl, ?_⟩
    · rw [Owner.recorded]
      dsimp only
      split_ifs
      · exact h.read
      · exact h.read.trans (List.prefix_append _ _)
    · rw [Owner.recorded]
      dsimp only
      split_ifs
      · exact h.once
      · exact .inr ⟨message, by rw [hnothing, List.nil_append]⟩
  | failed hphase =>
    have hnothing : s.owner.written = [] := hempty (by simp [hphase])
    exact ⟨h.guardian, h.hasRead, h.read, fun hwritten ↦ absurd hnothing hwritten, h.once⟩
  | terminate timedOut =>
    refine ⟨h.guardian, h.hasRead, ?_, ?_, ?_⟩
    · rw [Owner.written_terminate]
      exact h.read
    · rw [Owner.written_terminate, Owner.phase_terminate]
      exact h.written
    · rw [Owner.written_terminate]
      exact h.once
  | finish => exact ⟨h.guardian, h.hasRead, h.read, h.written, h.once⟩
  | guardian hturn hread =>
    exact ⟨h.guardian.step hturn, h.hasRead.step hturn, hread, h.written, h.once⟩

theorem Reachable.inv (h : Reachable nonce s) : s.Inv := by
  induction h with
  | start =>
    exact ⟨Guardian.inv_empty, fun h ↦ absurd h (by decide), List.prefix_rfl, by simp, .inl rfl⟩
  | step _ hstep ih => exact ih.step hstep

end Started

/-- In every run, a guardian that was given a worker had been recorded, was sent one message and has
read a line of it. -/
def WorkerRecorded : Prop :=
  ∀ (nonce : String) (s : Started), Started.Reachable nonce s → s.guardian.worker ≠ none →
    s.owner.phase = .ready ∧ (∃ message, s.owner.written = message ++ ['\n']) ∧
      '\n' ∈ s.guardian.buffer ∧ s.guardian.buffer <+: s.owner.written

/-- **A worker belongs to a recorded guardian.** -/
theorem workerRecorded : WorkerRecorded := by
  intro nonce s hreachable hworker
  have h := hreachable.inv
  have hstarted : s.guardian.started = true := by
    by_contra hnot
    exact hworker (h.guardian.unstarted (Bool.eq_false_iff.2 hnot))
  -- a guardian that has read a line has read what was written
  have hline := h.hasRead hstarted
  have hwritten : s.owner.written ≠ [] := fun hnothing ↦ by
    have hread := h.read
    rw [hnothing, List.prefix_nil] at hread
    rw [hread] at hline
    exact absurd hline List.not_mem_nil
  exact ⟨h.written hwritten, h.once.resolve_left hwritten, hline, h.read⟩

end CodeConductor.Runner
