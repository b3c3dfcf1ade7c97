import CodeConductor.Contracts.Attempt
import CodeConductor.Runner.Events
import Mathlib.Data.PNat.Notation

/-!
# What the evidence of a run is worth

On POSIX a process guardian starts one worker, when its owner asks for it, ends what is left of the
process group of the worker once that has closed or somebody stops the guardian, and exits. From the
events it sent, `runProcess` draws up the result of the run.

* `proven` says that no worker was started (`proven_iff`), unless the guardian was killed between
  the start of a worker and its announcement;
* an exit code of zero is the worker's own, of a worker nobody stopped and whose output was within
  its limits (`exitCode_eq_zero_iff`);
* a worker whose process group was not looked after was started while the guardian was on its way
  out (`Inv.uncleaned`).

## What is modelled

Both programs where `process.platform` is not `win32`. `send` puts the nonce of the guardian's
command line on each event, which is the runner's; the events arrive in their order, and none is
passed over. The `spawn` event of a worker comes in the turn the worker was started in. The logs are
left out.
-/

namespace CodeConductor.Runner

/-- The events of `send`. -/
inductive GuardianEvent where
  | workerSpawn (pid : ℕ+)
  | workerError (message : String)
  | workerClose (exitCode : Option Int) (signal : Option String)
  | guardianStop (reason : String)
  | guardianError (message : String)
  | treeCleanup (status : EvidenceStatus) (method detail : String)
  | outputLimit (limit : OutputLimit)

/-! ### The guardian -/

/-- How far a guardian is. `stopping` is set in every phase but the first. -/
inductive Phase where
  | serving
  /-- Waiting for `terminateProcessTree`. -/
  | cleaning (exitCode : Int)
  /-- Waiting for the output before `process.exit`. -/
  | exiting (exitCode : Int)
  | exited (exitCode : Int)
  | killed

namespace Phase

/-- The exit code that was chosen. -/
def exitCode? : Phase → Option Int
  | cleaning exitCode | exiting exitCode | exited exitCode => some exitCode
  | serving | killed => none

/-- Nothing will be looked after any more. -/
def isLeaving : Phase → Bool
  | exiting _ | exited _ => true
  | serving | cleaning _ | killed => false

/-- The process is there. -/
def isLive : Phase → Bool
  | serving | cleaning _ | exiting _ => true
  | exited _ | killed => false

end Phase

/-- The variables of a guardian, and what it has sent. -/
structure Guardian where
  buffer : List Char := []
  started : Bool := false
  /-- `worker`, with its pid where it has one. -/
  worker : Option (Option ℕ+) := none
  /-- The `spawn` event of the worker is still to come. -/
  announcing : Bool := false
  outputLimit : Option OutputLimit := none
  phase : Phase := .serving
  sent : List GuardianEvent := []

/-- What starting the worker comes to: `openSync` and `spawn` may throw, and a worker that could not
be started has no pid. -/
inductive SpawnOutcome where
  | started (pid : ℕ+)
  | failed
  | threw (message : String)

/-- The text of a member of a message. -/
def messageText (message : JsonValue) (key : String) : Option String :=
  match message with
  | .object members =>
    match members.reverse.lookup key with
    | some (.string text) => some text
    | _ => none
  | _ => none

/-- The checks made of a start message. -/
def isStartMessage (expectedNonce : String) (message : JsonValue) : Bool :=
  messageText message "schema" = some "conductor.guardian-start/v1" && expectedNonce ≠ "" &&
    messageText message "nonce" = some expectedNonce

namespace Guardian

/-- `send`. -/
def send (g : Guardian) (event : GuardianEvent) : Guardian := { g with sent := g.sent ++ [event] }

/-- The way out, which the worker's process group is ended on. -/
def leave (g : Guardian) (exitCode : Int) : Guardian :=
  { g with phase := if g.worker.join.isSome then .cleaning exitCode else .exiting exitCode }

/-- `stop`, up to its `await`. -/
def stop (g : Guardian) (reason : String) : Guardian :=
  match g.phase with
  | .serving => (g.send (.guardianStop reason)).leave 125
  | _ => g

/-- The `uncaughtException` listener. -/
def uncaught (g : Guardian) (message : String) : Guardian :=
  (g.send (.guardianError message)).stop "guardian-error"

/-- The worker of a start message. -/
def spawn (g : Guardian) : SpawnOutcome → Guardian
  | .started pid => { g with worker := some (some pid), announcing := true }
  | .failed => { g with worker := some none }
  | .threw message => g.uncaught message

/-- The `data` listener of `control`; `typeError` is what the engine says of a text that is no JSON,
and of reading a member of `null`. -/
def control (expectedNonce typeError : String) (outcome : SpawnOutcome) (g : Guardian)
    (chunk : List Char) : Guardian :=
  let g := { g with buffer := g.buffer ++ chunk }
  if '\n' ∉ g.buffer ∨ g.started = true then g
  else
    let g := { g with started := true }
    match jsonParse (g.buffer.takeWhile (· ≠ '\n')) with
    | none | some .null => g.uncaught typeError
    | some message =>
      if isStartMessage expectedNonce message = true then g.spawn outcome
      else g.uncaught "Invalid process guardian start message"

/-- The `spawn` listener of the worker. -/
def announce (g : Guardian) (pid : ℕ+) : Guardian :=
  { g with announcing := false }.send (.workerSpawn pid)

/-- A `data` listener of `captureBounded` that was given more than its limit. -/
def exceed (g : Guardian) (limit : OutputLimit) : Guardian :=
  match g.phase, g.outputLimit with
  | .serving, none =>
    ({ g with outputLimit := some limit }.send (.outputLimit limit)).stop "output-limit"
  | _, _ => g

/-- The `close` listener of the worker, with `finishWorker` up to its `await`. -/
def close (g : Guardian) (exitCode : Option Int) (signal : Option String) : Guardian :=
  match g.phase with
  | .serving => (g.send (.workerClose exitCode signal)).leave (exitCode.getD 1)
  | _ => g

/-- What follows the `await` of `terminateProcessTree`, which may throw. -/
def cleaned (g : Guardian) (exitCode : Int) (failure : Option String) : Guardian :=
  { g with phase := .exiting exitCode }.send
    (match failure with
      | none => .treeCleanup .unknown "posix-process-group-empty"
          ("Process group is empty, but no cgroup proof excludes a descendant that created a new " ++
            "session")
      | some message => .treeCleanup .failed "posix-process-group" message)

/-- A turn of the guardian, or its death. -/
inductive Step (expectedNonce : String) : Guardian → Guardian → Prop
  | control {g : Guardian} (typeError : String) (outcome : SpawnOutcome) (chunk : List Char) :
    g.phase.isLive = true → g.announcing = false →
      Step expectedNonce g (g.control expectedNonce typeError outcome chunk)
  | announce {g : Guardian} {pid : ℕ+} :
    g.phase.isLive = true → g.announcing = true → g.worker = some (some pid) →
      Step expectedNonce g (g.announce pid)
  | stop {g : Guardian} (reason : String) :
    g.phase.isLive = true → g.announcing = false → Step expectedNonce g (g.stop reason)
  | uncaught {g : Guardian} (message : String) :
    g.phase.isLive = true → g.announcing = false → Step expectedNonce g (g.uncaught message)
  | error {g : Guardian} (message : String) :
    g.phase.isLive = true → g.announcing = false → g.worker.isSome = true →
      Step expectedNonce g (g.send (.workerError message))
  | exceed {g : Guardian} (limit : OutputLimit) :
    g.phase.isLive = true → g.announcing = false → g.worker.isSome = true →
      Step expectedNonce g (g.exceed limit)
  | close {g : Guardian} (exitCode : Option Int) (signal : Option String) :
    g.phase.isLive = true → g.announcing = false → g.worker.isSome = true →
      Step expectedNonce g (g.close exitCode signal)
  | cleaned {g : Guardian} {exitCode : Int} (failure : Option String) :
    g.phase = .cleaning exitCode → g.announcing = false →
      Step expectedNonce g (g.cleaned exitCode failure)
  | exit {g : Guardian} {exitCode : Int} :
    g.phase = .exiting exitCode → g.announcing = false →
      Step expectedNonce g { g with phase := .exited exitCode }
  | kill {g : Guardian} : g.phase.isLive = true → Step expectedNonce g { g with phase := .killed }

/-- The states of a guardian that was started with a nonce. -/
inductive Reachable (expectedNonce : String) : Guardian → Prop
  | start : Reachable expectedNonce {}
  | step {g g' : Guardian} : Reachable expectedNonce g → Step expectedNonce g g' →
    Reachable expectedNonce g'

end Guardian

/-! ### The runner -/

/-- The variables of `runProcess` that the events set. -/
structure Received where
  workerPid : Option ℕ+ := none
  workerClose : Option (Option Int × Option String) := none
  treeCleanup : Option ProcessTermination := none
  outputLimit : Option OutputLimit := none

/-- The method an event names. -/
def reportedMethod (method : String) : TerminationMethod :=
  if method = "windows-job-terminate-and-empty" then .windowsJobTerminateAndEmpty
  else if method = "posix-process-group-empty" then .posixProcessGroupEmpty
  else .guardianExitUnverified

/-- What an event sets at the time `now`. -/
def receive (r : Received) (event : GuardianEvent) (now : Timestamp) : Received :=
  match event with
  | .treeCleanup status method detail =>
    { r with
      treeCleanup := some
        { status := status
          method := reportedMethod method
          observedAt := now
          detail := some detail } }
  | .outputLimit limit => { r with outputLimit := some limit }
  | .workerSpawn pid => { r with workerPid := some pid }
  | .workerClose exitCode signal => { r with workerClose := some (exitCode, signal) }
  | .workerError _ | .guardianStop _ | .guardianError _ => r

/-- The events received, each at its time. -/
def receiveAll (arrivals : List (GuardianEvent × Timestamp)) : Received :=
  arrivals.foldl (fun r arrival ↦ receive r arrival.1 arrival.2) {}

/-- `finalTermination`; `terminationFailure` is why the guardian could not be told to stop. -/
def finalTermination (r : Received) (terminationFailure : Option String) (now : Timestamp) :
    ProcessTermination :=
  r.treeCleanup.getD
    (if r.workerPid.isNone then
      { status := .proven
        method := .notStarted
        observedAt := now }
    else
      { status := if terminationFailure.any (· ≠ "") then .failed else .unknown
        method := .guardianExitUnverified
        observedAt := now
        detail := some (terminationFailure.getD
          "Guardian exited without a complete process-tree cleanup event") })

/-- The exit code of the result; `exitCode` is the guardian's own. -/
def resultExitCode (r : Received) (exitCode : Option Int) : Option Int :=
  (r.workerClose.bind Prod.fst).or exitCode

/-! ### The invariant -/

namespace Guardian

/-- What holds of every guardian. -/
structure Inv (g : Guardian) : Prop where
  announced : ∀ pid,
    .workerSpawn pid ∈ g.sent ↔ g.worker = some (some pid) ∧ g.announcing = false
  announcing : g.announcing = true → ∃ pid, g.worker = some (some pid)
  unstarted : g.started = false → g.worker = none
  cleanup : ∀ status method detail, .treeCleanup status method detail ∈ g.sent →
    status ≠ .proven ∧ g.announcing = false ∧ ∃ pid, g.worker = some (some pid)
  cleaning : ∀ exitCode, g.phase = .cleaning exitCode →
    g.announcing = false ∧ ∃ pid, g.worker = some (some pid)
  serving : g.phase = .serving → (∀ reason, .guardianStop reason ∉ g.sent) ∧
    ∀ exitCode signal, .workerClose exitCode signal ∉ g.sent
  closed : ∀ exitCode signal, .workerClose exitCode signal ∈ g.sent → g.started = true ∧
    (∀ reason, .guardianStop reason ∉ g.sent) ∧
      ∀ exitCode' signal', .workerClose exitCode' signal' ∈ g.sent → exitCode' = exitCode
  outcome : ∀ exitCode, g.phase.exitCode? = some exitCode →
    (∃ reason, .guardianStop reason ∈ g.sent ∧ exitCode = 125) ∨
      ∃ reported signal, .workerClose reported signal ∈ g.sent ∧ exitCode = reported.getD 1
  limited : ∀ limit, .outputLimit limit ∈ g.sent → ∃ reason, .guardianStop reason ∈ g.sent
  exited : ∀ exitCode, g.phase = .exited exitCode → g.announcing = false
  /-- A worker that is not looked after came after the beginning of the end. -/
  uncleaned : ∀ pid, g.phase.isLeaving = true → g.worker = some (some pid) →
    (∃ status method detail, .treeCleanup status method detail ∈ g.sent) ∨
      ∃ before after reason, g.sent = before ++ after ∧ .guardianStop reason ∈ before ∧
        .workerSpawn pid ∉ before

theorem inv_empty : Inv {} := by
  constructor <;> simp [Phase.exitCode?, Phase.isLeaving]

variable {g g' : Guardian} {expectedNonce : String}

theorem leave_of_pid {pid : ℕ+} (h : g.worker = some (some pid)) (exitCode : Int) :
    g.leave exitCode = { g with phase := .cleaning exitCode } := by
  simp [leave, h]

theorem leave_of_not (h : ∀ pid, g.worker ≠ some (some pid)) (exitCode : Int) :
    g.leave exitCode = { g with phase := .exiting exitCode } := by
  have hnone : g.worker.join = none := Option.eq_none_iff_forall_ne_some.2 fun pid hpid ↦
    h pid (Option.join_eq_some_iff.1 hpid)
  simp [leave, hnone]

/-- Events that tell of the end of a guardian: it was stopped, or its worker has closed. -/
structure Ends (g : Guardian) (events : List GuardianEvent) (exitCode : Int) : Prop where
  noSpawn : ∀ pid, .workerSpawn pid ∉ events
  noCleanup : ∀ status method detail, .treeCleanup status method detail ∉ events
  limited : ∀ limit, .outputLimit limit ∈ events → ∃ reason, .guardianStop reason ∈ events
  outcome : (∃ reason, .guardianStop reason ∈ events ∧ exitCode = 125) ∨
    ∃ reported signal, .workerClose reported signal ∈ events ∧ exitCode = reported.getD 1
  closed : ∀ reported signal, .workerClose reported signal ∈ events → g.started = true ∧
    (∀ reason, .guardianStop reason ∉ events) ∧
      ∀ reported' signal', .workerClose reported' signal' ∈ events → reported' = reported

theorem Inv.leave (h : g.Inv) (hserving : g.phase = .serving) (hturn : g.announcing = false)
    {events : List GuardianEvent} {exitCode : Int} (hends : g.Ends events exitCode)
    (limit : Option OutputLimit) :
    ({ g with outputLimit := limit, sent := g.sent ++ events }.leave exitCode).Inv := by
  -- nothing of the end was sent while the guardian served
  obtain ⟨hstop, hclose⟩ := h.serving hserving
  have hclosed : ∀ reported signal, .workerClose reported signal ∈ g.sent ++ events →
      g.started = true ∧ (∀ reason, .guardianStop reason ∉ g.sent ++ events) ∧
        ∀ reported' signal', .workerClose reported' signal' ∈ g.sent ++ events →
          reported' = reported := by
    intro reported signal hmem
    have hevent := (List.mem_append.1 hmem).resolve_left (hclose reported signal)
    obtain ⟨hstarted, hnot, hsame⟩ := hends.closed reported signal hevent
    refine ⟨hstarted, fun reason hreason ↦ ?_, fun reported' signal' hmem' ↦ ?_⟩
    · exact (List.mem_append.1 hreason).elim (hstop reason) (hnot reason)
    · exact hsame reported' signal' ((List.mem_append.1 hmem').resolve_left (hclose _ _))
  have houtcome : (∃ reason, .guardianStop reason ∈ g.sent ++ events ∧ exitCode = 125) ∨
      ∃ reported signal, .workerClose reported signal ∈ g.sent ++ events ∧
        exitCode = reported.getD 1 := by
    rcases hends.outcome with ⟨reason, hmem, hcode⟩ | ⟨reported, signal, hmem, hcode⟩
    · exact .inl ⟨reason, List.mem_append_right _ hmem, hcode⟩
    · exact .inr ⟨reported, signal, List.mem_append_right _ hmem, hcode⟩
  have hannounced : ∀ pid, .workerSpawn pid ∈ g.sent ++ events ↔
      g.worker = some (some pid) ∧ g.announcing = false := fun pid ↦ by
    rw [← h.announced pid, List.mem_append, or_iff_left (hends.noSpawn pid)]
  have hcleanup : ∀ status method detail, .treeCleanup status method detail ∈ g.sent ++ events →
      status ≠ .proven ∧ g.announcing = false ∧ ∃ pid, g.worker = some (some pid) :=
    fun status method detail hmem ↦ h.cleanup status method detail
      ((List.mem_append.1 hmem).resolve_right (hends.noCleanup status method detail))
  have hlimited : ∀ limit, .outputLimit limit ∈ g.sent ++ events →
      ∃ reason, .guardianStop reason ∈ g.sent ++ events := fun limit hmem ↦ by
    rcases List.mem_append.1 hmem with hsent | hevent
    · exact (h.limited limit hsent).imp fun _ ↦ List.mem_append_left _
    · exact (hends.limited limit hevent).imp fun _ ↦ List.mem_append_right _
  -- with a worker its process group is ended first, and without one there is nothing to wait for
  by_cases hpid : ∃ pid, g.worker = some (some pid)
  · obtain ⟨pid, hpid⟩ := hpid
    rw [leave_of_pid (g := { g with outputLimit := limit, sent := g.sent ++ events }) hpid]
    exact
      { announced := hannounced
        announcing := h.announcing
        unstarted := h.unstarted
        cleanup := hcleanup
        cleaning := fun _ _ ↦ ⟨hturn, pid, hpid⟩
        serving := by simp
        closed := hclosed
        outcome := by simpa [Phase.exitCode?] using houtcome
        limited := hlimited
        exited := by simp
        uncleaned := by simp [Phase.isLeaving] }
  · have hnone : ∀ pid, g.worker ≠ some (some pid) := fun pid h ↦ hpid ⟨pid, h⟩
    rw [leave_of_not (g := { g with outputLimit := limit, sent := g.sent ++ events }) hnone]
    exact
      { announced := hannounced
        announcing := h.announcing
        unstarted := h.unstarted
        cleanup := hcleanup
        cleaning := by simp
        serving := by simp
        closed := hclosed
        outcome := by simpa [Phase.exitCode?] using houtcome
        limited := hlimited
        exited := by simp
        uncleaned := fun pid _ h ↦ absurd h (hnone pid) }

theorem Inv.stop (h : g.Inv) (hturn : g.announcing = false) (reason : String) :
    (g.stop reason).Inv := by
  rw [Guardian.stop]
  split
  · rename_i hserving
    exact h.leave hserving hturn ⟨by simp, by simp, by simp, by simp, by simp⟩ g.outputLimit
  · exact h

/-- An event that tells of nothing the invariant is about. -/
theorem Inv.send (h : g.Inv) {event : GuardianEvent}
    (hquiet : ∃ message, event = .workerError message ∨ event = .guardianError message) :
    (g.send event).Inv := by
  obtain ⟨message, rfl | rfl⟩ := hquiet <;> exact
    { announced := by simpa [Guardian.send] using h.announced
      announcing := h.announcing
      unstarted := h.unstarted
      cleanup := by simpa [Guardian.send] using h.cleanup
      cleaning := h.cleaning
      serving := by simpa [Guardian.send] using h.serving
      closed := by simpa [Guardian.send] using h.closed
      outcome := by simpa [Guardian.send] using h.outcome
      limited := by simpa [Guardian.send] using h.limited
      exited := h.exited
      uncleaned := fun pid hleaving hpid ↦ by
        refine (h.uncleaned pid hleaving hpid).imp (by simp [Guardian.send]) ?_
        rintro ⟨before, after, reason, heq, hmem⟩
        exact ⟨before, after ++ [_], reason, by rw [Guardian.send, heq, List.append_assoc], hmem⟩ }

theorem Inv.uncaught (h : g.Inv) (hturn : g.announcing = false) (message : String) :
    (g.uncaught message).Inv := (h.send ⟨message, .inr rfl⟩).stop hturn _

theorem Inv.exceed (h : g.Inv) (hturn : g.announcing = false) (limit : OutputLimit) :
    (g.exceed limit).Inv := by
  rw [Guardian.exceed]
  split
  · rename_i hserving _
    rw [Guardian.send, Guardian.stop]
    simp only [hserving, Guardian.send, List.append_assoc, List.singleton_append]
    have hends : g.Ends [.outputLimit limit, .guardianStop "output-limit"] 125 :=
      ⟨by simp, by simp, by simp, by simp, by simp⟩
    have hleft := h.leave hserving hturn hends (some limit)
    rwa [hserving] at hleft
  · exact h

theorem Inv.close (h : g.Inv) (hturn : g.announcing = false) (hworker : g.worker.isSome = true)
    (exitCode : Option Int) (signal : Option String) : (g.close exitCode signal).Inv := by
  have hstarted : g.started = true := by
    by_contra hnot
    have hnone := h.unstarted (Bool.eq_false_iff.2 hnot)
    rw [hnone] at hworker
    exact absurd hworker (by decide)
  rw [Guardian.close]
  split
  · rename_i hserving
    refine h.leave hserving hturn ⟨by simp, by simp, by simp, by simp, ?_⟩ g.outputLimit
    simp [hstarted]
  · exact h

theorem Inv.buffer (h : g.Inv) (buffer : List Char) : { g with buffer := buffer }.Inv :=
  { h with }

theorem Inv.begin (h : g.Inv) : { g with started := true }.Inv :=
  { h with
    unstarted := by simp
    closed := fun exitCode signal hmem ↦ ⟨rfl, (h.closed exitCode signal hmem).2⟩ }

theorem exists_exitCode {phase : Phase} (h : phase.isLeaving = true) :
    ∃ exitCode, phase.exitCode? = some exitCode := by
  cases phase with
  | exiting exitCode | exited exitCode => exact ⟨exitCode, rfl⟩
  | serving | cleaning _ | killed => simp [Phase.isLeaving] at h

/-- The worker is started once, and it may be started on the way out. -/
theorem Inv.spawn (h : g.Inv) (hlive : g.phase.isLive = true) (hturn : g.announcing = false)
    (hstarted : g.started = false) (outcome : SpawnOutcome) :
    ({ g with started := true }.spawn outcome).Inv := by
  have hnone : g.worker = none := h.unstarted hstarted
  have hpid : ¬∃ pid, g.worker = some (some pid) := by simp [hnone]
  -- without a worker there is nothing of one among the events
  have hspawn : ∀ pid, .workerSpawn pid ∉ g.sent := fun pid hmem ↦
    hpid ⟨pid, ((h.announced pid).1 hmem).1⟩
  have hcleanup : ∀ status method detail, .treeCleanup status method detail ∉ g.sent :=
    fun status method detail hmem ↦ hpid (h.cleanup status method detail hmem).2.2
  have hcleaning : ∀ exitCode, g.phase ≠ .cleaning exitCode := fun exitCode hphase ↦
    hpid (h.cleaning exitCode hphase).2
  have hclose : ∀ reported signal, .workerClose reported signal ∉ g.sent :=
    fun reported signal hmem ↦ by simp [(h.closed reported signal hmem).1] at hstarted
  have hexited : ∀ exitCode, g.phase ≠ .exited exitCode := fun exitCode hphase ↦ by
    simp [hphase, Phase.isLive] at hlive
  cases outcome with
  | started pid =>
    exact
      { h.begin with
        announced := fun pid' ↦ by simp [Guardian.spawn, hspawn pid']
        announcing := fun _ ↦ ⟨pid, rfl⟩
        unstarted := by simp [Guardian.spawn]
        cleanup := fun status method detail hmem ↦ absurd hmem (hcleanup status method detail)
        cleaning := fun exitCode hphase ↦ absurd hphase (hcleaning exitCode)
        exited := fun exitCode hphase ↦ absurd hphase (hexited exitCode)
        uncleaned := fun pid' hleaving _ ↦ by
          -- the guardian was stopped before
          obtain ⟨exitCode, hcode⟩ := exists_exitCode hleaving
          rcases h.outcome exitCode hcode with ⟨reason, hmem, -⟩ | ⟨reported, signal, hmem, -⟩
          · exact .inr ⟨g.sent, [], reason, (List.append_nil _).symm, hmem, hspawn pid'⟩
          · exact absurd hmem (hclose reported signal) }
  | failed =>
    exact
      { h.begin with
        announced := fun pid' ↦ by simp [Guardian.spawn, hspawn pid']
        announcing := by simp [Guardian.spawn, hturn]
        unstarted := by simp [Guardian.spawn]
        cleanup := fun status method detail hmem ↦ absurd hmem (hcleanup status method detail)
        cleaning := fun exitCode hphase ↦ absurd hphase (hcleaning exitCode)
        uncleaned := by simp [Guardian.spawn] }
  | threw message => exact h.begin.uncaught hturn message

theorem Inv.control (h : g.Inv) (hlive : g.phase.isLive = true) (hturn : g.announcing = false)
    (typeError : String) (outcome : SpawnOutcome) (chunk : List Char) :
    (g.control expectedNonce typeError outcome chunk).Inv := by
  have hbuffer := h.buffer (g.buffer ++ chunk)
  rw [Guardian.control]
  dsimp only
  split_ifs with hwait
  · exact hbuffer
  · have hstarted : g.started = false := by simpa using (not_or.1 hwait).2
    split
    · exact hbuffer.begin.uncaught hturn typeError
    · exact hbuffer.begin.uncaught hturn typeError
    · split_ifs
      · exact hbuffer.spawn hlive hturn hstarted outcome
      · exact hbuffer.begin.uncaught hturn _

theorem Inv.announce (h : g.Inv) (hturn : g.announcing = true) {pid : ℕ+}
    (hpid : g.worker = some (some pid)) : (g.announce pid).Inv := by
  have hspawn : ∀ pid, .workerSpawn pid ∉ g.sent := fun pid hmem ↦ by
    simp [((h.announced pid).1 hmem).2] at hturn
  exact
    { announced := fun pid' ↦ by simp [Guardian.announce, Guardian.send, hspawn pid', hpid, eq_comm]
      announcing := by simp [Guardian.announce, Guardian.send]
      unstarted := h.unstarted
      cleanup := fun status method detail hmem ↦ ⟨(h.cleanup status method detail
        (by simpa [Guardian.announce, Guardian.send] using hmem)).1, rfl, pid, hpid⟩
      cleaning := fun _ _ ↦ ⟨rfl, pid, hpid⟩
      serving := by simpa [Guardian.announce, Guardian.send] using h.serving
      closed := by simpa [Guardian.announce, Guardian.send] using h.closed
      outcome := by simpa [Guardian.announce, Guardian.send] using h.outcome
      limited := by simpa [Guardian.announce, Guardian.send] using h.limited
      exited := fun _ _ ↦ rfl
      uncleaned := fun pid' hleaving hpid' ↦ by
        refine (h.uncleaned pid' hleaving hpid').imp (by simp [Guardian.announce, Guardian.send]) ?_
        rintro ⟨before, after, reason, heq, hmem⟩
        exact ⟨before, after ++ [.workerSpawn pid], reason,
          by simp [Guardian.announce, Guardian.send, heq], hmem⟩ }

theorem Inv.cleaned (h : g.Inv) {exitCode : Int} (hphase : g.phase = .cleaning exitCode)
    (failure : Option String) : (g.cleaned exitCode failure).Inv := by
  obtain ⟨hturn, pid, hpid⟩ := h.cleaning exitCode hphase
  have houtcome := h.outcome exitCode (by rw [hphase]; rfl)
  have hsent : ∃ status method detail, status ≠ .proven ∧
      (g.cleaned exitCode failure).sent = g.sent ++ [.treeCleanup status method detail] := by
    cases failure with
    | none => exact ⟨.unknown, _, _, by decide, rfl⟩
    | some message => exact ⟨.failed, _, _, by decide, rfl⟩
  obtain ⟨status, method, detail, hstatus, hsent⟩ := hsent
  exact
    { announced := fun pid' ↦ by
        simp only [hsent, List.mem_append, List.mem_singleton, reduceCtorEq, or_false]
        exact h.announced pid'
      announcing := h.announcing
      unstarted := h.unstarted
      cleanup := fun status' method' detail' hmem ↦ by
        rw [hsent, List.mem_append, List.mem_singleton] at hmem
        rcases hmem with hmem | heq
        · exact h.cleanup status' method' detail' hmem
        · obtain ⟨rfl, -, -⟩ := GuardianEvent.treeCleanup.inj heq
          exact ⟨hstatus, hturn, pid, hpid⟩
      cleaning := by simp [Guardian.cleaned, Guardian.send]
      serving := by simp [Guardian.cleaned, Guardian.send]
      closed := by
        simp only [hsent, List.mem_append, List.mem_singleton, reduceCtorEq, or_false]
        exact h.closed
      outcome := by
        rw [hsent]
        simpa [Guardian.cleaned, Guardian.send, Phase.exitCode?] using houtcome
      limited := by simpa [hsent] using h.limited
      exited := by simp [Guardian.cleaned, Guardian.send]
      uncleaned := fun _ _ _ ↦ .inl ⟨status, method, detail, by simp [hsent]⟩ }

/-- **Every turn keeps the invariant.** -/
theorem Inv.step (h : g.Inv) (hstep : Step expectedNonce g g') : g'.Inv := by
  cases hstep with
  | control typeError outcome chunk hlive hturn =>
    exact h.control hlive hturn typeError outcome chunk
  | announce _ hturn hpid => exact h.announce hturn hpid
  | stop reason _ hturn => exact h.stop hturn reason
  | uncaught message _ hturn => exact h.uncaught hturn message
  | error message _ _ _ => exact h.send ⟨message, .inl rfl⟩
  | exceed limit _ hturn _ => exact h.exceed hturn limit
  | close exitCode signal _ hturn hworker => exact h.close hturn hworker exitCode signal
  | cleaned failure hphase _ => exact h.cleaned hphase failure
  | @exit exitCode hphase hturn =>
    exact
      { h with
        cleaning := by simp
        serving := by simp
        outcome := fun code hcode ↦ h.outcome code (by rw [hphase]; exact hcode)
        exited := fun _ _ ↦ hturn
        uncleaned := fun pid _ hpid ↦ h.uncleaned pid (by rw [hphase]; rfl) hpid }
  | kill _ =>
    exact
      { h with
        cleaning := by simp
        serving := by simp
        outcome := by simp [Phase.exitCode?]
        exited := by simp
        uncleaned := by simp [Phase.isLeaving] }

theorem Reachable.inv (h : Reachable expectedNonce g) : g.Inv := by
  induction h with
  | start => exact inv_empty
  | step _ hstep ih => exact ih.step hstep

end Guardian

/-! ### What the runner makes of the events -/

/-- What was received is what was sent. -/
structure Received.Reports (r : Received) (events : List GuardianEvent) : Prop where
  workerPid : ∀ pid, r.workerPid = some pid → .workerSpawn pid ∈ events
  noPid : r.workerPid = none → ∀ pid, .workerSpawn pid ∉ events
  close : ∀ exitCode signal, r.workerClose = some (exitCode, signal) →
    .workerClose exitCode signal ∈ events
  noClose : r.workerClose = none → ∀ exitCode signal, .workerClose exitCode signal ∉ events
  cleanup : ∀ termination, r.treeCleanup = some termination → ∃ method detail,
    .treeCleanup termination.status method detail ∈ events ∧
      termination.method = reportedMethod method
  noCleanup : r.treeCleanup = none →
    ∀ status method detail, .treeCleanup status method detail ∉ events
  limit : ∀ limit, r.outputLimit = some limit → .outputLimit limit ∈ events

theorem Received.Reports.receive {r : Received} {events : List GuardianEvent}
    (h : r.Reports events) (event : GuardianEvent) (now : Timestamp) :
    (Runner.receive r event now).Reports (events ++ [event]) := by
  obtain ⟨hpid, hnoPid, hclose, hnoClose, hcleanup, hnoCleanup, hlimit⟩ := h
  -- an event sets at most one variable, and the others stay with what came before
  cases event <;> constructor <;> simp only [Runner.receive] <;> grind

theorem reports_receiveAll (arrivals : List (GuardianEvent × Timestamp)) :
    (receiveAll arrivals).Reports (arrivals.map Prod.fst) := by
  induction arrivals using List.reverseRecOn with
  | nil => constructor <;> simp [receiveAll]
  | append_singleton arrivals arrival ih =>
    rw [receiveAll, List.foldl_append, List.map_append]
    exact ih.receive arrival.1 arrival.2

/-- What the result of a run is worth, `r` being what the runner received from the guardian `g` and
`termination` the evidence it drew up. -/
structure Honest (g : Guardian) (r : Received) (termination : ProcessTermination) : Prop where
  /-- The guardian had no worker, or did not live to announce it. -/
  proven : termination.status = .proven ↔
    (∀ pid, g.worker ≠ some (some pid)) ∨ g.announcing = true
  notStarted : termination.status = .proven ↔ termination.method = .notStarted
  announced : ∀ exitCode, g.phase = .exited exitCode → g.announcing = false
  /-- The exit code of a process has eight bits. -/
  success : ∀ exitCode, g.phase = .exited exitCode →
    (resultExitCode r (some (exitCode % 256)) = some 0 ↔
      ∃ signal, .workerClose (some 0) signal ∈ g.sent)
  unstopped : ∀ exitCode signal, .workerClose exitCode signal ∈ g.sent →
    r.outputLimit = none ∧ ∀ reason, .guardianStop reason ∉ g.sent
  lookedAfter : ∀ exitCode pid, g.phase = .exited exitCode → g.worker = some (some pid) →
    r.treeCleanup ≠ none ∨ ∃ before after reason, g.sent = before ++ after ∧
      .guardianStop reason ∈ before ∧ .workerSpawn pid ∉ before

section Evidence

variable {g : Guardian} {r : Received}

theorem proven_iff (h : g.Inv) (hr : r.Reports g.sent) (failure : Option String)
    (now : Timestamp) : (finalTermination r failure now).status = .proven ↔
      (∀ pid, g.worker ≠ some (some pid)) ∨ g.announcing = true := by
  rw [finalTermination]
  cases hcleanup : r.treeCleanup with
  | some termination =>
    obtain ⟨method, detail, hmem, -⟩ := hr.cleanup termination hcleanup
    obtain ⟨hstatus, hturn, pid, hpid⟩ := h.cleanup _ method detail hmem
    simp [hstatus, hturn, hpid]
  | none =>
    cases hworker : r.workerPid with
    | some pid =>
      obtain ⟨hpid, hturn⟩ := (h.announced pid).1 (hr.workerPid pid hworker)
      simp only [Option.getD_none, Option.isNone_some, Bool.false_eq_true, if_false, hpid, hturn,
        or_false]
      split <;> simp
    | none =>
      have hnone := hr.noPid hworker
      simp only [Option.getD_none, Option.isNone_none, if_true, true_iff]
      -- a worker that is not announced is none, or the guardian is in the turn of its start
      by_cases hturn : g.announcing = true
      · exact .inr hturn
      · exact .inl fun pid hpid ↦
          hnone pid ((h.announced pid).2 ⟨hpid, Bool.eq_false_iff.2 hturn⟩)

theorem proven_iff_notStarted (h : g.Inv) (hr : r.Reports g.sent) (failure : Option String)
    (now : Timestamp) : (finalTermination r failure now).status = .proven ↔
      (finalTermination r failure now).method = .notStarted := by
  rw [finalTermination]
  cases hcleanup : r.treeCleanup with
  | some termination =>
    obtain ⟨method, detail, hmem, hmethod⟩ := hr.cleanup termination hcleanup
    have hstatus := (h.cleanup _ method detail hmem).1
    have hnot : reportedMethod method ≠ .notStarted := by
      rw [reportedMethod]
      split_ifs <;> decide
    simp [hstatus, hmethod, hnot]
  | none =>
    cases r.workerPid with
    | none => simp
    | some pid =>
      simp only [Option.getD_none, Option.isNone_some, Bool.false_eq_true, if_false]
      split <;> simp

theorem exitCode_eq_zero_iff (h : g.Inv) (hr : r.Reports g.sent) {exitCode : Int}
    (hexited : g.phase = .exited exitCode) :
    resultExitCode r (some (exitCode % 256)) = some 0 ↔
      ∃ signal, .workerClose (some 0) signal ∈ g.sent := by
  have houtcome := h.outcome exitCode (by rw [hexited]; rfl)
  rw [resultExitCode]
  cases hclose : r.workerClose with
  | none =>
    -- the guardian was stopped
    have hnone := hr.noClose hclose
    rcases houtcome with ⟨reason, -, rfl⟩ | ⟨reported, signal, hmem, -⟩
    · simp [hnone]
    · exact absurd hmem (hnone reported signal)
  | some close =>
    obtain ⟨reported, signal⟩ := close
    have hmem := hr.close reported signal hclose
    obtain ⟨-, hnot, hsame⟩ := h.closed reported signal hmem
    rcases houtcome with ⟨reason, hstop, -⟩ | ⟨reported', signal', hmem', rfl⟩
    · exact absurd hstop (hnot reason)
    · obtain rfl := hsame reported' signal' hmem'
      cases reported' with
      | none =>
        -- a worker a signal ended has no exit code, and the guardian exits with one
        have hzero : ¬∃ signal, .workerClose (some 0) signal ∈ g.sent := by
          rintro ⟨signal, hzero⟩
          exact absurd (hsame _ _ hzero) (by simp)
        simp [hzero]
      | some code =>
        simp only [Option.bind_some, Option.or_some, Option.some.injEq]
        constructor
        · rintro rfl
          exact ⟨signal, hmem⟩
        · rintro ⟨signal, hzero⟩
          exact (Option.some.inj (hsame _ _ hzero)).symm

end Evidence

/-- In every run, the result drawn up from all that the guardian has sent is worth what it says. -/
def EvidenceHonest : Prop :=
  ∀ (expectedNonce : String) (g : Guardian), Guardian.Reachable expectedNonce g →
    ∀ arrivals : List (GuardianEvent × Timestamp), arrivals.map Prod.fst = g.sent →
      ∀ (failure : Option String) (now : Timestamp),
        Honest g (receiveAll arrivals) (finalTermination (receiveAll arrivals) failure now)

end CodeConductor.Runner
