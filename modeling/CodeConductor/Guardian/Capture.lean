import Mathlib.Data.List.Induction
import Mathlib.Logic.Function.Basic
import Mathlib.Algebra.Ring.Nat

/-!
# Bounded capture of a worker's output

The process guardian copies what its worker writes to stdout and stderr into two log files, each up
to a limit (`captureBounded` in `process-guardian.mjs`). The two `data` listeners share `stopping`
and `outputLimit`: the first chunk that passes its stream's limit is cut there, reported in one
`output-limit` event, and stops the guardian, after which neither listener writes anything.

## What is modelled

The guardian from the start of the worker until its `close` event, with the chunks of both streams
delivered in any order. `writeSync` writes all the bytes it is given. What the guardian does to the
process tree once it has stopped writes no log and is left out.
-/

namespace CodeConductor.Guardian

/-- The stream a listener is attached to. -/
inductive LogStream where
  | stdout | stderr
  deriving DecidableEq, Repr

/-- The value `captureBounded` assigns to `outputLimit`. -/
structure OutputLimit where
  stream : LogStream
  limitBytes : ℕ
  observedBytes : ℕ
  deriving DecidableEq, Repr

/-- The events the guardian sends to its owner. -/
inductive Event where
  | outputLimit (limit : OutputLimit)
  | guardianStop (reason : String)
  | workerClose
  deriving DecidableEq, Repr

/-- What the guardian does that others can see: bytes appended to a log, and events sent. -/
inductive Action where
  | write (stream : LogStream) (bytes : List UInt8)
  | send (event : Event)
  deriving DecidableEq, Repr

/-- `Number.MAX_SAFE_INTEGER`. -/
def maxSafeInteger : ℕ := 2 ^ 53 - 1

/-- The limit of a listener: the configured one if it is a safe integer. -/
def effectiveLimit (configuredLimit : Option ℕ) : ℕ :=
  match configuredLimit with
  | some limit => if limit ≤ maxSafeInteger then limit else maxSafeInteger
  | none => maxSafeInteger

/-- The variables of the guardian, and what it has done. -/
structure State where
  stopping : Bool := false
  outputLimit : Option OutputLimit := none
  /-- The variable `written` of each listener. -/
  written : LogStream → ℕ := fun _ ↦ 0
  actions : List Action := []

/-- `send`. -/
def State.send (s : State) (event : Event) : State :=
  { s with actions := s.actions ++ [.send event] }

/-- `stop`, up to its first `await`. -/
def State.stop (s : State) (reason : String) : State :=
  if s.stopping then s else { s with stopping := true }.send (.guardianStop reason)

/-- The `writeSync` of a listener; it is not called for no bytes. -/
def State.writeSync (s : State) (stream : LogStream) (bytes : List UInt8) : State :=
  if 0 < bytes.length then
    { s with
      written := Function.update s.written stream (s.written stream + bytes.length)
      actions := s.actions ++ [.write stream bytes] }
  else s

/-- The `data` listener that `captureBounded` attaches to a stream with the given limit. -/
def captureBounded (limit : ℕ) (s : State) (stream : LogStream) (chunk : List UInt8) : State :=
  if s.stopping then s
  else
    let remaining := limit - s.written stream
    let accepted := min remaining chunk.length
    let s := s.writeSync stream (chunk.take accepted)
    if remaining < chunk.length ∧ s.outputLimit = none then
      let outputLimit : OutputLimit :=
        { stream := stream
          limitBytes := limit
          observedBytes := s.written stream + (chunk.length - accepted) }
      ({ s with outputLimit := some outputLimit }.send (.outputLimit outputLimit)).stop
        "output-limit"
    else s

/-- The `close` listener, up to its first `await`. -/
def State.close (s : State) : State :=
  if s.stopping then s else { s with stopping := true }.send .workerClose

/-- A chunk of a stream, as it is delivered. -/
abbrev Chunk := LogStream × List UInt8

/-- The guardian after the chunks delivered so far; `configured` are the limits of the start
message. -/
def capture (configured : LogStream → Option ℕ) (chunks : List Chunk) : State :=
  chunks.foldl (fun s chunk ↦ captureBounded (effectiveLimit (configured chunk.1)) s chunk.1 chunk.2)
    {}

/-! ### What a run shows -/

/-- The bytes of a stream among the chunks delivered. -/
def bytesOf (stream : LogStream) (chunks : List Chunk) : List UInt8 :=
  chunks.flatMap fun chunk ↦ if chunk.1 = stream then chunk.2 else []

/-- The bytes a run of actions appends to the log of a stream. -/
def logOf (stream : LogStream) (actions : List Action) : List UInt8 :=
  actions.flatMap fun
    | .write stream' bytes => if stream' = stream then bytes else []
    | .send _ => []

/-- The `output-limit` events a run of actions sends. -/
def limitEvents (actions : List Action) : List OutputLimit :=
  actions.filterMap fun
    | .send (.outputLimit limit) => some limit
    | _ => none

/-- The action writes to a log. -/
def Action.IsWrite : Action → Prop
  | .write .. => True
  | .send _ => False

instance (limit : LogStream → ℕ) (chunks : List Chunk) :
    Decidable (∃ stream, limit stream < (bytesOf stream chunks).length) :=
  decidable_of_iff (limit .stdout < (bytesOf .stdout chunks).length ∨
      limit .stderr < (bytesOf .stderr chunks).length)
    ⟨fun h ↦ h.elim (⟨_, ·⟩) (⟨_, ·⟩), fun ⟨stream, h⟩ ↦ by cases stream <;> simp [h]⟩

/-- **The capture is bounded**: what a run of the guardian over `chunks` has written and sent. -/
structure BoundedCapture (limit : LogStream → ℕ) (chunks : List Chunk) (actions : List Action) :
    Prop where
  initial : ∀ stream, logOf stream actions <+: bytesOf stream chunks
  bounded : ∀ stream, (logOf stream actions).length ≤ limit stream
  whole : (∀ stream, (bytesOf stream chunks).length ≤ limit stream) →
    ∀ stream, logOf stream actions = bytesOf stream chunks
  /-- One event is sent if a stream passes its limit, and none otherwise. -/
  events : (limitEvents actions).length =
    if ∃ stream, limit stream < (bytesOf stream chunks).length then 1 else 0
  names : ∀ event ∈ limitEvents actions, event.limitBytes = limit event.stream ∧
    limit event.stream < (bytesOf event.stream chunks).length ∧
    event.limitBytes < event.observedBytes
  /-- Nothing is written after the event. -/
  silent : ∀ before event after, actions = before ++ .send (.outputLimit event) :: after →
    ∀ action ∈ after, ¬action.IsWrite

/-! ### Logs and streams -/

@[simp] theorem bytesOf_concat (stream : LogStream) (chunks : List Chunk) (chunk : Chunk) :
    bytesOf stream (chunks ++ [chunk]) =
      bytesOf stream chunks ++ if chunk.1 = stream then chunk.2 else [] := by
  simp [bytesOf]

@[simp] theorem logOf_append (stream : LogStream) (first second : List Action) :
    logOf stream (first ++ second) = logOf stream first ++ logOf stream second := by
  simp [logOf]

@[simp] theorem logOf_send (stream : LogStream) (event : Event) (rest : List Action) :
    logOf stream (.send event :: rest) = logOf stream rest := by
  simp [logOf]

@[simp] theorem logOf_nil (stream : LogStream) : logOf stream [] = [] := rfl

@[simp] theorem limitEvents_append (first second : List Action) :
    limitEvents (first ++ second) = limitEvents first ++ limitEvents second := by
  simp [limitEvents]

/-- Actions that are all writes send no event. -/
theorem limitEvents_of_writes {actions : List Action} (h : ∀ action ∈ actions, action.IsWrite) :
    limitEvents actions = [] := by
  refine List.filterMap_eq_nil_iff.2 fun action hmem ↦ ?_
  cases action with
  | write stream bytes => rfl
  | send event => exact (h _ hmem).elim

theorem bytesOf_initial_concat (stream : LogStream) (chunks : List Chunk) (chunk : Chunk) :
    bytesOf stream chunks <+: bytesOf stream (chunks ++ [chunk]) := by
  rw [bytesOf_concat]
  exact List.prefix_append _ _

section WriteSync

variable (s : State) (stream stream' : LogStream) (bytes : List UInt8)

theorem logOf_writeSync :
    logOf stream' (s.writeSync stream bytes).actions =
      logOf stream' s.actions ++ if stream = stream' then bytes else [] := by
  rw [State.writeSync]
  split
  · show logOf stream' (s.actions ++ [.write stream bytes]) = _
    rw [logOf_append]
    simp [logOf]
  · have hnil : bytes = [] := List.length_eq_zero_iff.1 (by omega)
    simp [hnil]

theorem written_writeSync :
    (s.writeSync stream bytes).written stream' =
      s.written stream' + if stream = stream' then bytes.length else 0 := by
  rw [State.writeSync]
  split
  · show Function.update s.written stream _ stream' = _
    by_cases h : stream = stream'
    · subst h
      simp
    · rw [Function.update_of_ne (Ne.symm h), if_neg h, Nat.add_zero]
  · have hnil : bytes = [] := List.length_eq_zero_iff.1 (by omega)
    simp [hnil]

@[simp] theorem stopping_writeSync : (s.writeSync stream bytes).stopping = s.stopping := by
  rw [State.writeSync]
  split <;> rfl

@[simp] theorem outputLimit_writeSync :
    (s.writeSync stream bytes).outputLimit = s.outputLimit := by
  rw [State.writeSync]
  split <;> rfl

theorem isWrite_writeSync (h : ∀ action ∈ s.actions, action.IsWrite) :
    ∀ action ∈ (s.writeSync stream bytes).actions, action.IsWrite := by
  rw [State.writeSync]
  split
  · intro action hmem
    obtain hmem | hmem := List.mem_append.1 hmem
    · exact h action hmem
    · exact List.mem_singleton.1 hmem ▸ trivial
  · exact h

end WriteSync

/-! ### The two phases of a run -/

/-- No limit was passed yet: every byte delivered has been written, and nothing was sent. -/
structure Running (limit : LogStream → ℕ) (chunks : List Chunk) (s : State) : Prop where
  stopping : s.stopping = false
  outputLimit : s.outputLimit = none
  written : ∀ stream, s.written stream = (logOf stream s.actions).length
  log : ∀ stream, logOf stream s.actions = bytesOf stream chunks
  bounded : ∀ stream, (logOf stream s.actions).length ≤ limit stream
  writes : ∀ action ∈ s.actions, action.IsWrite

/-- A limit was passed: the event is sent, and the actions end with it and the stop. -/
structure Stopped (limit : LogStream → ℕ) (chunks : List Chunk) (s : State) : Prop where
  stopping : s.stopping = true
  initial : ∀ stream, logOf stream s.actions <+: bytesOf stream chunks
  bounded : ∀ stream, (logOf stream s.actions).length ≤ limit stream
  sent : ∃ writes event, s.actions =
      writes ++ [.send (.outputLimit event), .send (.guardianStop "output-limit")] ∧
    (∀ action ∈ writes, action.IsWrite) ∧ event.limitBytes = limit event.stream ∧
    limit event.stream < (bytesOf event.stream chunks).length ∧
    event.limitBytes < event.observedBytes

section Phases

variable {limit : LogStream → ℕ} {chunks : List Chunk} {s : State}

theorem running_nil (limit : LogStream → ℕ) : Running limit [] {} where
  stopping := rfl
  outputLimit := rfl
  written _ := rfl
  log _ := rfl
  bounded _ := Nat.zero_le _
  writes _ hmem := nomatch hmem

/-- A chunk that fits is written whole. -/
theorem Running.fits (hs : Running limit chunks s) (stream : LogStream) {chunk : List UInt8}
    (hfits : chunk.length ≤ limit stream - s.written stream) :
    Running limit (chunks ++ [(stream, chunk)])
      (captureBounded (limit stream) s stream chunk) := by
  have hstep : captureBounded (limit stream) s stream chunk = s.writeSync stream chunk := by
    rw [captureBounded, if_neg (by simp [hs.stopping])]
    dsimp only
    rw [if_neg (by omega), Nat.min_eq_right hfits, List.take_length]
  rw [hstep]
  have hlog : ∀ stream', logOf stream' (s.writeSync stream chunk).actions =
      bytesOf stream' (chunks ++ [(stream, chunk)]) := by
    intro stream'
    rw [logOf_writeSync, hs.log, bytesOf_concat]
  refine ⟨?_, ?_, fun stream' ↦ ?_, hlog, fun stream' ↦ ?_, isWrite_writeSync s stream chunk hs.writes⟩
  · rw [stopping_writeSync, hs.stopping]
  · rw [outputLimit_writeSync, hs.outputLimit]
  · rw [written_writeSync, logOf_writeSync, List.length_append, hs.written]
    split <;> rfl
  · have hbounded := hs.bounded stream'
    have hwritten := hs.written stream'
    rw [logOf_writeSync, List.length_append]
    by_cases h : stream = stream'
    · subst h
      rw [if_pos rfl]
      omega
    · rw [if_neg h]
      exact hbounded

/-- A chunk that passes its limit is cut there, reported and stops the guardian. -/
theorem Running.passes (hs : Running limit chunks s) (stream : LogStream) {chunk : List UInt8}
    (hpasses : limit stream - s.written stream < chunk.length) :
    Stopped limit (chunks ++ [(stream, chunk)])
      (captureBounded (limit stream) s stream chunk) := by
  set accepted := limit stream - s.written stream with haccepted
  set written := s.writeSync stream (chunk.take accepted) with hwritten
  set event : OutputLimit := ⟨stream, limit stream,
    written.written stream + (chunk.length - accepted)⟩ with hevent
  have hstep : captureBounded (limit stream) s stream chunk =
      { written with
        stopping := true
        outputLimit := some event
        actions := written.actions ++ [.send (.outputLimit event)] ++
          [.send (.guardianStop "output-limit")] } := by
    rw [captureBounded, if_neg (by simp [hs.stopping])]
    dsimp only
    rw [Nat.min_eq_left (Nat.le_of_lt hpasses), ← haccepted, ← hwritten, ← hevent,
      if_pos ⟨hpasses, by rw [hwritten, outputLimit_writeSync, hs.outputLimit]⟩, State.stop,
      if_neg (by simp [State.send, hwritten, hs.stopping])]
    rfl
  -- before the chunk the log was within its limit, and the part accepted fills it up
  have hfull : s.written stream + accepted = limit stream := by
    have hbounded := hs.bounded stream
    have hlength := hs.written stream
    omega
  have htake : (chunk.take accepted).length = accepted := by
    rw [List.length_take]
    omega
  have hlogOf : ∀ stream', logOf stream' (captureBounded (limit stream) s stream chunk).actions =
      bytesOf stream' chunks ++ if stream = stream' then chunk.take accepted else [] := by
    intro stream'
    rw [hstep, ← hs.log stream', ← logOf_writeSync]
    simp only [logOf_append, logOf_send, logOf_nil, List.append_nil, ← hwritten]
  have hlength : (bytesOf stream chunks).length = s.written stream := by
    rw [hs.written, hs.log]
  refine ⟨?_, fun stream' ↦ ?_, fun stream' ↦ ?_, written.actions, event, ?_,
    isWrite_writeSync s stream _ hs.writes, rfl, ?_, ?_⟩
  · rw [hstep]
  · rw [hlogOf, bytesOf_concat]
    refine (List.prefix_append_right_inj _).2 ?_
    split
    · exact List.take_prefix _ _
    · exact List.prefix_rfl
  · have hbounded := hs.bounded stream'
    rw [hs.log] at hbounded
    rw [hlogOf, List.length_append]
    by_cases h : stream = stream'
    · subst h
      rw [if_pos rfl, htake]
      omega
    · rw [if_neg h]
      exact hbounded
  · rw [hstep]
    simp
  · show limit stream < (bytesOf stream (chunks ++ [(stream, chunk)])).length
    rw [bytesOf_concat, if_pos rfl, List.length_append]
    show limit stream < (bytesOf stream chunks).length + chunk.length
    omega
  · show limit stream < written.written stream + (chunk.length - accepted)
    rw [hwritten, written_writeSync, if_pos rfl, htake]
    omega

/-- A stopped guardian does nothing more. -/
theorem Stopped.captureBounded (hs : Stopped limit chunks s) (chunk : Chunk) :
    Stopped limit (chunks ++ [chunk]) (captureBounded (limit chunk.1) s chunk.1 chunk.2) := by
  have hstep : Guardian.captureBounded (limit chunk.1) s chunk.1 chunk.2 = s := if_pos hs.stopping
  rw [hstep]
  obtain ⟨writes, event, hactions, hwrites, hlimit, hpassed, hobserved⟩ := hs.sent
  refine ⟨hs.stopping, fun stream ↦ (hs.initial stream).trans (bytesOf_initial_concat ..),
    hs.bounded, writes, event, hactions, hwrites, hlimit, ?_, hobserved⟩
  exact Nat.lt_of_lt_of_le hpassed (bytesOf_initial_concat event.stream chunks chunk).length_le

/-- **Step.** A chunk leaves the guardian running or stopped. -/
theorem phase_step (hs : Running limit chunks s ∨ Stopped limit chunks s) (chunk : Chunk) :
    Running limit (chunks ++ [chunk]) (captureBounded (limit chunk.1) s chunk.1 chunk.2) ∨
      Stopped limit (chunks ++ [chunk]) (captureBounded (limit chunk.1) s chunk.1 chunk.2) := by
  rcases hs with hs | hs
  · obtain hfits | hpasses := Nat.lt_or_ge (limit chunk.1 - s.written chunk.1) chunk.2.length
    · exact .inr (hs.passes chunk.1 hfits)
    · exact .inl (hs.fits chunk.1 hpasses)
  · exact .inr (hs.captureBounded chunk)

end Phases

/-- **Run.** Whatever the chunks and their order, the guardian is running or stopped. -/
theorem phase_capture (configured : LogStream → Option ℕ) (chunks : List Chunk) :
    Running (fun stream ↦ effectiveLimit (configured stream)) chunks (capture configured chunks) ∨
      Stopped (fun stream ↦ effectiveLimit (configured stream)) chunks
        (capture configured chunks) := by
  induction chunks using List.reverseRec with
  | nil => exact .inl (running_nil _)
  | append_singleton chunks chunk ih =>
    rw [capture, List.foldl_append]
    exact phase_step ih chunk

/-! ### The result -/

section Result

variable {limit : LogStream → ℕ} {chunks : List Chunk} {s : State}

theorem Running.boundedCapture (hs : Running limit chunks s) :
    BoundedCapture limit chunks s.close.actions := by
  have hclose : s.close.actions = s.actions ++ [.send .workerClose] := by
    rw [State.close, if_neg (by simp [hs.stopping])]
    rfl
  have hlog : ∀ stream, logOf stream s.close.actions = bytesOf stream chunks := by
    intro stream
    rw [hclose, logOf_append, logOf_send, logOf_nil, List.append_nil, hs.log]
  have hevents : limitEvents s.close.actions = [] := by
    rw [hclose, limitEvents_append, limitEvents_of_writes hs.writes]
    rfl
  refine ⟨fun stream ↦ (hlog stream) ▸ List.prefix_rfl, fun stream ↦ ?_, fun _ ↦ hlog, ?_, ?_, ?_⟩
  · rw [hlog, ← hs.log]
    exact hs.bounded stream
  · rw [hevents, if_neg]
    · rfl
    · rintro ⟨stream, hpassed⟩
      have hbounded := hs.bounded stream
      rw [hs.log] at hbounded
      omega
  · intro event hmem
    rw [hevents] at hmem
    exact nomatch hmem
  · intro before event after hsplit
    have hmem : event ∈ limitEvents s.close.actions := by
      rw [hsplit, limitEvents_append]
      exact List.mem_append_right _ List.mem_cons_self
    rw [hevents] at hmem
    exact nomatch hmem

theorem Stopped.boundedCapture (hs : Stopped limit chunks s) :
    BoundedCapture limit chunks s.close.actions := by
  have hclose : s.close = s := if_pos hs.stopping
  obtain ⟨writes, event, hactions, hwrites, hlimit, hpassed, hobserved⟩ := hs.sent
  have hevents : limitEvents s.actions = [event] := by
    rw [hactions, limitEvents_append, limitEvents_of_writes hwrites]
    rfl
  rw [hclose]
  refine ⟨hs.initial, hs.bounded, fun hwithin ↦ ?_, ?_, ?_, ?_⟩
  · exact absurd (hwithin event.stream) (Nat.not_le.2 hpassed)
  · rw [hevents, if_pos ⟨event.stream, hpassed⟩]
    rfl
  · intro event' hmem
    rw [hevents, List.mem_singleton] at hmem
    exact hmem ▸ ⟨hlimit, hpassed, hobserved⟩
  · intro before event' after hsplit action hmem hwrite
    -- the event is the only one, so what comes after it is the stop
    rw [hactions] at hsplit
    obtain ⟨middle, rfl, hrest⟩ | ⟨middle, hwritesEq, hrest⟩ := List.append_eq_append_iff.1 hsplit
    · match middle, hrest with
      | [], hrest =>
        injection hrest with _ hafter
        subst hafter
        rw [List.mem_singleton.1 hmem] at hwrite
        exact hwrite
      | [_], hrest =>
        injection hrest with _ hrest
        injection hrest with hstop _
        exact nomatch hstop
      | _ :: _ :: middle, hrest =>
        injection hrest with _ hrest
        injection hrest with _ hrest
        exact absurd hrest.symm (by simp)
    · match middle, hrest with
      | [], hrest =>
        injection hrest with _ hafter
        subst hafter
        rw [List.mem_singleton.1 hmem] at hwrite
        exact hwrite
      | first :: middle, hrest =>
        injection hrest with hfirst _
        have hmem' : first ∈ writes := hwritesEq ▸ List.mem_append_right _ List.mem_cons_self
        exact (hfirst ▸ hwrites first hmem' : Action.IsWrite (.send _))

end Result

/-- **Capture is bounded** for all limits, chunks of the two streams and orders they are delivered
in. -/
theorem boundedCapture_capture (configured : LogStream → Option ℕ) (chunks : List Chunk) :
    BoundedCapture (fun stream ↦ effectiveLimit (configured stream)) chunks
      (capture configured chunks).close.actions :=
  (phase_capture configured chunks).elim Running.boundedCapture Stopped.boundedCapture

end CodeConductor.Guardian
