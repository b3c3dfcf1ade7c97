import CodeConductor.Guardian.Capture
import CodeConductor.Runner.Evidence

/-!
# What a success says of the logs

A guardian copies the streams of its worker into two logs, each up to its limit. `captureBounded` is
run on every chunk of a stream, and for the guardian of `Runner.Guardian` a chunk is either a turn
in which it stops or nothing at all (`Logged.Reachable.guardian`).

So a run that is reported with an exit code of zero has logs that are whole and within their limits.
The streams of a worker end before its `close` event.
-/

namespace CodeConductor.Runner

open CodeConductor.Guardian (LogStream Chunk captureBounded bytesOf logOf Running Stopped)

/-- The limit an `output-limit` event names. -/
def reportedLimit (limit : Guardian.OutputLimit) : OutputLimit where
  stream := match limit.stream with
    | .stdout => .stdout
    | .stderr => .stderr
  limitBytes := limit.limitBytes
  observedBytes := limit.observedBytes

/-- A guardian with the listeners of its worker's streams; `chunks` are those delivered so far. -/
structure Logged where
  guardian : Guardian := {}
  capture : Guardian.State := {}
  chunks : List Chunk := []

namespace Logged

/-- A chunk is delivered. -/
def deliver (limit : LogStream → ℕ) (l : Logged) (chunk : Chunk) : Logged :=
  let capture := captureBounded (limit chunk.1) l.capture chunk.1 chunk.2
  { guardian :=
      if capture.stopping = l.capture.stopping then l.guardian
      else (capture.outputLimit.map reportedLimit).elim l.guardian l.guardian.exceed
    capture := capture
    chunks := l.chunks ++ [chunk] }

/-- Another turn of the guardian; the listeners see whether it is stopping. -/
def turn (l : Logged) (guardian : Guardian) : Logged :=
  { l with
    guardian := guardian
    capture :=
      { l.capture with
        stopping := match guardian.phase with
          | .serving => false
          | _ => true } }

/-- A turn of the guardian, a chunk, or death. -/
inductive Step (expectedNonce : String) (limit : LogStream → ℕ) : Logged → Logged → Prop
  | deliver {l : Logged} (chunk : Chunk) :
    l.guardian.phase.isLive = true → l.guardian.announcing = false →
      l.guardian.worker.isSome = true →
        (∀ exitCode signal, .workerClose exitCode signal ∉ l.guardian.sent) →
          Step expectedNonce limit l (l.deliver limit chunk)
  | turn {l : Logged} {guardian : Guardian} : Guardian.Step expectedNonce l.guardian guardian →
    guardian.outputLimit = l.guardian.outputLimit → Step expectedNonce limit l (l.turn guardian)

/-- The states of a guardian whose listeners have limits. -/
inductive Reachable (expectedNonce : String) (limit : LogStream → ℕ) : Logged → Prop
  | start : Reachable expectedNonce limit {}
  | step {l l' : Logged} : Reachable expectedNonce limit l → Step expectedNonce limit l l' →
    Reachable expectedNonce limit l'

variable {expectedNonce : String} {limit : LogStream → ℕ} {l l' : Logged}

/-- **The listeners are the guardian's**: leaving the logs out, a run is one of `Runner.Guardian`. -/
theorem Reachable.guardian (h : Reachable expectedNonce limit l) :
    Guardian.Reachable expectedNonce l.guardian := by
  induction h with
  | start => exact .start
  | @step l l' _ hstep ih =>
    cases hstep with
    | turn hturn _ => exact ih.step hturn
    | deliver chunk hlive hturn hworker _ =>
      simp only [deliver]
      split
      · exact ih
      · cases (captureBounded (limit chunk.1) l.capture chunk.1 chunk.2).outputLimit with
        | none => exact ih
        | some exceeded => exact ih.step (.exceed _ hlive hturn hworker)

end Logged

/-! ### The end of a guardian -/

namespace Guardian

variable {g g' : Guardian} {expectedNonce : String}

theorem phase_leave (exitCode : Int) : (g.leave exitCode).phase ≠ .serving := by
  rw [Guardian.leave]
  dsimp only
  split_ifs <;> simp

theorem phase_stop (reason : String) : (g.stop reason).phase ≠ .serving := by
  rw [Guardian.stop]
  split
  · exact phase_leave 125
  · assumption

theorem workerClose_mem_stop {exitCode : Option Int} {signal : Option String} (reason : String) :
    .workerClose exitCode signal ∈ (g.stop reason).sent ↔ .workerClose exitCode signal ∈ g.sent := by
  rw [Guardian.stop]
  split
  · simp [Guardian.leave, Guardian.send]
  · rfl

/-- What is kept by a turn in which the worker does not close: a guardian that stops does not serve
again, and no `worker-close` is sent. -/
structure Carries (g g' : Guardian) : Prop where
  serving : g'.phase = .serving → g.phase = .serving
  closed : ∀ exitCode signal, .workerClose exitCode signal ∈ g'.sent →
    .workerClose exitCode signal ∈ g.sent

theorem carries_stop (reason : String) : g.Carries (g.stop reason) :=
  ⟨fun h ↦ absurd h (phase_stop reason), fun _ _ ↦ (workerClose_mem_stop reason).1⟩

theorem carries_uncaught (message : String) : g.Carries (g.uncaught message) where
  serving h := absurd h (phase_stop _)
  closed exitCode signal hmem := by
    have hmem := (workerClose_mem_stop _).1 hmem
    simpa [Guardian.send] using hmem

theorem carries_spawn (outcome : SpawnOutcome) : g.Carries (g.spawn outcome) := by
  cases outcome with
  | started pid => exact ⟨id, fun _ _ ↦ id⟩
  | failed => exact ⟨id, fun _ _ ↦ id⟩
  | threw message => exact carries_uncaught message

theorem carries_control (typeError : String) (outcome : SpawnOutcome) (chunk : List Char) :
    g.Carries (g.control expectedNonce typeError outcome chunk) := by
  rw [Guardian.control]
  dsimp only
  split_ifs
  · exact ⟨id, fun _ _ ↦ id⟩
  · split
    · exact ⟨(carries_uncaught typeError).serving, (carries_uncaught typeError).closed⟩
    · exact ⟨(carries_uncaught typeError).serving, (carries_uncaught typeError).closed⟩
    · split_ifs
      · exact ⟨(carries_spawn outcome).serving, (carries_spawn outcome).closed⟩
      · exact ⟨(carries_uncaught _).serving, (carries_uncaught _).closed⟩

theorem carries_exceed (limit : OutputLimit) : g.Carries (g.exceed limit) := by
  rw [Guardian.exceed]
  split
  · refine ⟨fun h ↦ absurd h (phase_stop _), fun exitCode signal hmem ↦ ?_⟩
    have hmem := (workerClose_mem_stop _).1 hmem
    simpa [Guardian.send] using hmem
  · exact ⟨id, fun _ _ ↦ id⟩

/-- A turn of a guardian is one in which its worker closes, or keeps what there is. -/
theorem carries_or_close (h : Step expectedNonce g g') :
    g.Carries g' ∨ ∃ exitCode signal, g' = g.close exitCode signal := by
  cases h with
  | control typeError outcome chunk _ _ => exact .inl (carries_control typeError outcome chunk)
  | announce _ _ _ =>
    exact .inl ⟨id, by simp [Guardian.announce, Guardian.send]⟩
  | stop reason _ _ => exact .inl (carries_stop reason)
  | uncaught message _ _ => exact .inl (carries_uncaught message)
  | error message _ _ _ => exact .inl ⟨id, by simp [Guardian.send]⟩
  | exceed limit _ _ _ => exact .inl (carries_exceed limit)
  | close exitCode signal _ _ _ => exact .inr ⟨exitCode, signal, rfl⟩
  | cleaned failure _ _ =>
    refine .inl ⟨by simp [Guardian.cleaned, Guardian.send], fun exitCode signal hmem ↦ ?_⟩
    cases failure <;> simpa [Guardian.cleaned, Guardian.send] using hmem
  | exit _ _ => exact .inl ⟨by simp, fun _ _ ↦ id⟩
  | kill _ => exact .inl ⟨by simp, fun _ _ ↦ id⟩

theorem serving_of_step (h : Step expectedNonce g g') (hserving : g'.phase = .serving) :
    g.phase = .serving := by
  rcases carries_or_close h with hcarries | ⟨exitCode, signal, rfl⟩
  · exact hcarries.serving hserving
  · rw [Guardian.close] at hserving
    split at hserving
    · assumption
    · exact hserving

/-- Before a guardian serves or its worker has closed, it served or its worker had closed. -/
theorem serving_or_closed (h : Step expectedNonce g g')
    (hg' : g'.phase = .serving ∨ ∃ exitCode signal, .workerClose exitCode signal ∈ g'.sent) :
    g.phase = .serving ∨ ∃ exitCode signal, .workerClose exitCode signal ∈ g.sent := by
  rcases carries_or_close h with hcarries | ⟨exitCode, signal, rfl⟩
  · refine hg'.imp (serving_of_step h) ?_
    rintro ⟨exitCode, signal, hmem⟩
    exact ⟨exitCode, signal, hcarries.closed exitCode signal hmem⟩
  · rw [Guardian.close] at hg'
    split at hg'
    · rename_i hserving
      exact .inl hserving
    · exact hg'

theorem phase_exceed (hserving : g.phase = .serving) (hnone : g.outputLimit = none)
    (limit : OutputLimit) : (g.exceed limit).phase ≠ .serving := by
  simp only [Guardian.exceed, hserving, hnone]
  exact phase_stop _

end Guardian

/-! ### The logs of a run -/

/-- A chunk that stops the listeners has its excess recorded. -/
theorem exists_outputLimit {s : Guardian.State} {limit : ℕ} {stream : LogStream}
    {chunk : List UInt8} (hs : s.stopping = false)
    (h : (captureBounded limit s stream chunk).stopping = true) :
    ∃ exceeded, (captureBounded limit s stream chunk).outputLimit = some exceeded := by
  -- only the branch that records the excess stops
  rw [captureBounded, if_neg (by simp [hs])] at h ⊢
  dsimp only at h ⊢
  split_ifs at h ⊢
  · rw [Guardian.State.stop]
    split_ifs
    · exact ⟨_, rfl⟩
    · exact ⟨_, rfl⟩
  · rw [Guardian.stopping_writeSync, hs] at h
    exact absurd h (by decide)

namespace Logged

variable {expectedNonce : String} {limit : LogStream → ℕ} {l l' : Logged}

/-- What holds of every guardian with its listeners. -/
structure Inv (limit : LogStream → ℕ) (l : Logged) : Prop where
  stopping : l.capture.stopping = false ↔ l.guardian.phase = .serving
  outputLimit : l.guardian.phase = .serving → l.guardian.outputLimit = none
  /-- Until the guardian stops, and when the worker closed before it did, nothing is missing. -/
  whole : (l.guardian.phase = .serving ∨
      ∃ exitCode signal, .workerClose exitCode signal ∈ l.guardian.sent) →
    Running limit l.chunks { l.capture with stopping := false }
  initial : ∀ stream, logOf stream l.capture.actions <+: bytesOf stream l.chunks
  bounded : ∀ stream, (logOf stream l.capture.actions).length ≤ limit stream

theorem inv_empty : Inv limit {} where
  stopping := by simp
  outputLimit _ := rfl
  whole _ := Guardian.running_nil limit
  initial _ := List.prefix_rfl
  bounded _ := Nat.zero_le _

theorem Inv.turn (h : l.Inv limit) {guardian : Guardian}
    (hstep : Guardian.Step expectedNonce l.guardian guardian)
    (hlimit : guardian.outputLimit = l.guardian.outputLimit) : (l.turn guardian).Inv limit where
  stopping := by
    cases hphase : guardian.phase <;> simp [Logged.turn, hphase]
  outputLimit hserving := hlimit.trans (h.outputLimit (Guardian.serving_of_step hstep hserving))
  whole hg' := h.whole (Guardian.serving_or_closed hstep hg')
  initial := h.initial
  bounded := h.bounded

/-- A chunk while the guardian serves. -/
theorem Inv.deliver_serving (h : l.Inv limit) (hserving : l.guardian.phase = .serving)
    (hopen : ∀ exitCode signal, .workerClose exitCode signal ∉ l.guardian.sent) (chunk : Chunk) :
    (l.deliver limit chunk).Inv limit := by
  have hstopping := h.stopping.2 hserving
  have hrunning : Running limit l.chunks l.capture := by
    have hwhole := h.whole (.inl hserving)
    rwa [← hstopping] at hwhole
  obtain hpasses | hfits :=
    Nat.lt_or_ge (limit chunk.1 - l.capture.written chunk.1) chunk.2.length
  · -- the limit is passed, and the guardian stops with the listeners
    have hstopped := hrunning.passes chunk.1 hpasses
    obtain ⟨exceeded, hexceeded⟩ := exists_outputLimit hstopping hstopped.stopping
    have hguardian : (l.deliver limit chunk).guardian =
        l.guardian.exceed (reportedLimit exceeded) := by
      simp [Logged.deliver, hexceeded, hstopped.stopping, hstopping]
    have hphase := Guardian.phase_exceed hserving (h.outputLimit hserving) (reportedLimit exceeded)
    have hclosed := (Guardian.carries_exceed (g := l.guardian) (reportedLimit exceeded)).closed
    refine ⟨?_, ?_, ?_, hstopped.initial, hstopped.bounded⟩
    · rw [hguardian]
      exact ⟨fun hnot ↦ by simp [Logged.deliver, hstopped.stopping] at hnot,
        fun hnot ↦ absurd hnot hphase⟩
    · rw [hguardian]
      exact fun hnot ↦ absurd hnot hphase
    · rw [hguardian]
      rintro (hnot | ⟨exitCode, signal, hmem⟩)
      · exact absurd hnot hphase
      · exact absurd (hclosed exitCode signal hmem) (hopen exitCode signal)
  · -- the chunk is written whole, and the guardian does not notice
    have hfit := hrunning.fits chunk.1 hfits
    have hguardian : (l.deliver limit chunk).guardian = l.guardian := by
      simp [Logged.deliver, hfit.stopping, hstopping]
    refine ⟨?_, ?_, fun _ ↦ ?_, fun stream ↦ (hfit.log stream) ▸ List.prefix_rfl, hfit.bounded⟩
    · rw [hguardian]
      exact ⟨fun _ ↦ hserving, fun _ ↦ hfit.stopping⟩
    · rw [hguardian]
      exact h.outputLimit
    · have hsame : { (l.deliver limit chunk).capture with stopping := false } =
          captureBounded (limit chunk.1) l.capture chunk.1 chunk.2 := by
        rw [← hfit.stopping]
        rfl
      rw [hsame]
      exact hfit

/-- A chunk after that. -/
theorem Inv.deliver_stopping (h : l.Inv limit) (hserving : l.guardian.phase ≠ .serving)
    (hopen : ∀ exitCode signal, .workerClose exitCode signal ∉ l.guardian.sent) (chunk : Chunk) :
    (l.deliver limit chunk).Inv limit := by
  have hstopping : l.capture.stopping = true := by
    rw [← Bool.not_eq_false]
    exact fun hnot ↦ hserving (h.stopping.1 hnot)
  have hsame : captureBounded (limit chunk.1) l.capture chunk.1 chunk.2 = l.capture :=
    if_pos hstopping
  have hdeliver : l.deliver limit chunk = { l with chunks := l.chunks ++ [chunk] } := by
    simp [Logged.deliver, hsame]
  rw [hdeliver]
  refine ⟨h.stopping, h.outputLimit, ?_, fun stream ↦ ?_, h.bounded⟩
  · rintro (hnot | ⟨exitCode, signal, hmem⟩)
    · exact absurd hnot hserving
    · exact absurd hmem (hopen exitCode signal)
  · exact (h.initial stream).trans (Guardian.bytesOf_initial_concat ..)

theorem Reachable.inv (h : Reachable expectedNonce limit l) : l.Inv limit := by
  induction h with
  | start => exact inv_empty
  | @step l l' _ hstep ih =>
    cases hstep with
    | turn hturn hlimit => exact ih.turn hturn hlimit
    | deliver chunk _ _ _ hopen =>
      by_cases hserving : l.guardian.phase = .serving
      · exact ih.deliver_serving hserving hopen chunk
      · exact ih.deliver_stopping hserving hopen chunk

end Logged

/-- In every run, the logs are beginnings of the streams and within their limits; when the run is
reported with an exit code of zero they are the streams. -/
def SuccessLogged : Prop :=
  ∀ (expectedNonce : String) (limit : LogStream → ℕ) (l : Logged),
    Logged.Reachable expectedNonce limit l →
      (∀ stream, logOf stream l.capture.actions <+: bytesOf stream l.chunks ∧
        (logOf stream l.capture.actions).length ≤ limit stream) ∧
      ∀ arrivals : List (GuardianEvent × Timestamp), arrivals.map Prod.fst = l.guardian.sent →
        ∀ exitCode, l.guardian.phase = .exited exitCode →
          resultExitCode (receiveAll arrivals) (some (exitCode % 256)) = some 0 →
            ∀ stream, logOf stream l.capture.actions = bytesOf stream l.chunks

end CodeConductor.Runner
