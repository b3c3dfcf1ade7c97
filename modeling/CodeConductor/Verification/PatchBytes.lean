import CodeConductor.Verification.Proposal
import CodeConductor.Verification.Utf8
import Mathlib.Algebra.Ring.Nat
import Mathlib.Data.List.Infix

/-!
# The bytes of a patch

`runBoundedGit` reads what git writes in the pieces the operating system hands over, each turned into
text by itself. `captureProposal` writes that text to `proposal.patch`, `captureCurrentPatch` compares
a second reading with it, and `composeProposalBaseline` gives the recorded bytes back to git.
-/

namespace CodeConductor

/-- What `runBoundedGit` sees of the process until it closes. -/
inductive GitEvent where
  | stdout (chunk : List UInt8)
  | stderr (chunk : List UInt8)
  | timeout
  | abort
  deriving DecidableEq, Repr

/-- The bytes of an event. -/
def GitEvent.bytes : GitEvent → ℕ
  | stdout chunk | stderr chunk => chunk.length
  | timeout | abort => 0

/-- The piece of stdout an event brings. -/
def GitEvent.stdoutChunk : GitEvent → Option (List UInt8)
  | stdout chunk => some chunk
  | stderr _ | timeout | abort => none

/-- A run of git. -/
structure GitRun where
  /-- The error the process could not be started with. -/
  spawnError : Option String
  events : List GitEvent
  exitCode : Option ℕ
  /-- The error of `terminateProcessTree`. -/
  terminationError : Option String
  deriving DecidableEq, Repr

/-- `chunk.toString("utf8")`. -/
def chunkText (chunk : List UInt8) : String := .ofList (Utf8.decode chunk)

/-- The bytes a text is written in. -/
def textBytes (text : String) : List UInt8 := Utf8.encode text.toList

/-- The characters `trim` removes. -/
def isSpace (c : Char) : Bool :=
  c.toNat ∈ [0x9, 0xA, 0xB, 0xC, 0xD, 0x20, 0xA0, 0x1680, 0x2028, 0x2029, 0x202F, 0x205F, 0x3000,
    0xFEFF] || (0x2000 ≤ c.toNat && c.toNat ≤ 0x200A)

/-- `text.trim()`. -/
def trimText (text : String) : String :=
  .ofList (((text.toList.dropWhile isSpace).reverse.dropWhile isSpace).reverse)

/-- The variables of `runBoundedGit`. -/
structure GitOutput where
  stdout : String
  stderr : String
  outputBytes : ℕ
  failure : Option String
  deriving DecidableEq, Repr

namespace GitOutput

/-- `terminate`: the first failure stays. -/
def terminate (output : GitOutput) (error : String) : GitOutput :=
  { output with failure := output.failure.or (some error) }

/-- `collect`, and the timer and the signal. -/
def step (command : String) (maxOutputBytes : ℕ) (output : GitOutput) : GitEvent → GitOutput
  | .stdout chunk =>
    let counted := { output with outputBytes := output.outputBytes + chunk.length }
    if maxOutputBytes < counted.outputBytes then
      counted.terminate
        ("git " ++ command ++ " output exceeded " ++ toString maxOutputBytes ++ " bytes")
    else { counted with stdout := counted.stdout ++ chunkText chunk }
  | .stderr chunk =>
    let counted := { output with outputBytes := output.outputBytes + chunk.length }
    if maxOutputBytes < counted.outputBytes then
      counted.terminate
        ("git " ++ command ++ " output exceeded " ++ toString maxOutputBytes ++ " bytes")
    else { counted with stderr := counted.stderr ++ chunkText chunk }
  | .timeout => output.terminate ("git " ++ command ++ " timed out")
  | .abort => output.terminate ("git " ++ command ++ " was cancelled")

/-- What the variables hold when the process closes. -/
def collect (command : String) (maxOutputBytes : ℕ) (events : List GitEvent) : GitOutput :=
  events.foldl (step command maxOutputBytes) ⟨"", "", 0, none⟩

end GitOutput

namespace GitRun

/-- `runBoundedGit`. -/
def runBoundedGit (command : String) (maxOutputBytes : ℕ) (trim : Bool) (run : GitRun) :
    Except RuntimeError String :=
  match run.spawnError with
  | some error => .error (.plain error)
  | none =>
    let output := GitOutput.collect command maxOutputBytes run.events
    match output.failure, run.terminationError with
    | some failure, some error =>
      .error (.plain (failure ++ "; process-tree cleanup failed: " ++ error))
    | some failure, none => .error (.plain failure)
    | none, _ =>
      if run.exitCode = some 0 then .ok (if trim then trimText output.stdout else output.stdout)
      else
        .error (.plain ("git " ++ command ++ " failed (" ++
          (run.exitCode.elim "null" toString) ++ "): " ++ trimText output.stderr))

/-- `captureGit`. -/
def captureGit (command : String) (maxOutputBytes : ℕ) (run : GitRun) :
    Except RuntimeError String :=
  match run.runBoundedGit command maxOutputBytes false with
  | .ok text => .ok text
  | .error error =>
    if "output exceeded".toList <:+: error.message.toList then
      .error (.resourceLimit error.message)
    else .error error

variable (run : GitRun)

/-- What git wrote to stdout, in the pieces that arrived. -/
def chunks : List (List UInt8) := run.events.filterMap GitEvent.stdoutChunk

/-- What git wrote to stdout. -/
def written : List UInt8 := run.chunks.flatten

/-- The text of the pieces. -/
def text : String := .ofList (run.chunks.flatMap Utf8.decode)

/-- The bytes git wrote. -/
def outputBytes : ℕ := (run.events.map GitEvent.bytes).sum

/-- Git ran to its end within the limit. -/
structure Completed (maxOutputBytes : ℕ) : Prop where
  started : run.spawnError = none
  undisturbed : ∀ event ∈ run.events, event ≠ .timeout ∧ event ≠ .abort
  bounded : run.outputBytes ≤ maxOutputBytes
  succeeded : run.exitCode = some 0

/-- Each piece that arrived is UTF-8. -/
def Textual : Prop := ∀ chunk ∈ run.chunks, Utf8.WellFormed chunk

end GitRun

/-- The runs of git `captureProposal` starts. -/
structure ProposalRuns where
  add : GitRun
  diff : GitRun
  status : GitRun
  names : GitRun
  deriving DecidableEq, Repr

/-- The files `captureProposal` writes, and what it returns. -/
structure RecordedProposal where
  proposalPatch : List UInt8
  repositoryStatus : List UInt8
  capture : ProposalCapture
  deriving DecidableEq, Repr

namespace ProposalRuns

/-- `captureProposal`. -/
def captureProposal (limits : CaptureLimits) (runs : ProposalRuns) :
    Except RuntimeError RecordedProposal := do
  let _ ← runs.add.captureGit "add" limits.maxLogBytes
  let patch ← runs.diff.captureGit "diff" limits.maxPatchBytes
  let status ← runs.status.captureGit "status" limits.maxLogBytes
  let names ← runs.names.captureGit "diff" limits.maxLogBytes
  let changedPaths := Git.splitNames names
  if limits.maxPatchBytes < (textBytes patch).length then
    throw (.resourceLimit ("proposal patch is " ++ toString (textBytes patch).length ++
      " bytes; maximum is " ++ toString limits.maxPatchBytes))
  if limits.maxChangedPaths < changedPaths.length then
    throw (.resourceLimit ("proposal changes " ++ toString changedPaths.length ++
      " paths; maximum is " ++ toString limits.maxChangedPaths))
  return {
    proposalPatch := textBytes patch
    repositoryStatus := textBytes status
    capture := { patch, changedPaths } }

/-- `captureCurrentPatch`. -/
def captureCurrentPatch (limits : CaptureLimits) (add diff : GitRun) :
    Except RuntimeError String := do
  let _ ← add.captureGit "add" limits.maxLogBytes
  let patch ← diff.captureGit "diff" limits.maxPatchBytes
  if limits.maxPatchBytes < (textBytes patch).length then
    throw (.resourceLimit ("verified patch is " ++ toString (textBytes patch).length ++
      " bytes; maximum is " ++ toString limits.maxPatchBytes))
  return patch

/-- The runs stay within the limits of the contract. -/
structure Within (limits : CaptureLimits) (runs : ProposalRuns) : Prop where
  add : runs.add.Completed limits.maxLogBytes
  diff : runs.diff.Completed limits.maxPatchBytes
  status : runs.status.Completed limits.maxLogBytes
  names : runs.names.Completed limits.maxLogBytes
  paths : (Git.splitNames runs.names.text).length ≤ limits.maxChangedPaths

end ProposalRuns

/-! ### What a contribution gives back -/

/-- A contribution, as far as its patch goes. -/
structure PatchContribution where
  attemptId : String
  patchSha256 : String
  patchBytes : ℕ
  deriving DecidableEq, Repr

/-- `bindProposalContribution` over the recorded patch. -/
def bindProposalContribution (sha256 : List UInt8 → String) (attemptId : String)
    (recorded : List UInt8) : PatchContribution where
  attemptId
  patchSha256 := sha256 recorded
  patchBytes := recorded.length

/-- What `composeProposalBaseline` gives `git apply` to read for a contribution, if it runs it. -/
def applyInput (sha256 : List UInt8 → String) (maxPatchBytes : Option ℕ)
    (contribution : PatchContribution) (recorded : List UInt8) :
    Except RuntimeError (Option (List UInt8)) :=
  if maxPatchBytes.any (· < recorded.length) then
    .error (.plain ("Proposal patch for " ++ contribution.attemptId ++ " exceeds the child budget"))
  else if recorded.length ≠ contribution.patchBytes then
    .error (.plain ("Proposal patch size changed for " ++ contribution.attemptId))
  else if sha256 recorded ≠ contribution.patchSha256 then
    .error (.plain ("Proposal patch hash changed for " ++ contribution.attemptId))
  else .ok (if recorded.isEmpty then none else some recorded)

/-! ### Faithful capture -/

/-- Two captures of one worktree: `captureProposal` after the worker, `captureCurrentPatch` after the
acceptance commands. -/
structure TwoCaptures where
  limits : CaptureLimits
  proposal : ProposalRuns
  currentAdd : GitRun
  currentDiff : GitRun
  deriving DecidableEq, Repr

namespace TwoCaptures

variable (captures : TwoCaptures)

/-- Git ran to its end within the limits in both captures, and wrote the same patch. -/
structure Unchanged : Prop where
  proposal : captures.proposal.Within captures.limits
  currentAdd : captures.currentAdd.Completed captures.limits.maxLogBytes
  currentDiff : captures.currentDiff.Completed captures.limits.maxPatchBytes
  same : captures.currentDiff.written = captures.proposal.diff.written

/-- The captured patch is what git wrote: as recorded, as a contribution gives it back, and as the
second capture reads it again. -/
structure Faithful (files : RecordedProposal) : Prop where
  recorded : files.proposalPatch = captures.proposal.diff.written
  applied : ∀ sha256 maxPatchBytes attemptId input,
    applyInput sha256 maxPatchBytes (bindProposalContribution sha256 attemptId files.proposalPatch)
        files.proposalPatch = .ok input →
      input.getD [] = captures.proposal.diff.written
  chunking : captures.currentDiff.runBoundedGit "diff" captures.limits.maxPatchBytes false =
    captures.proposal.diff.runBoundedGit "diff" captures.limits.maxPatchBytes false
  proposalStable : ProposalRuns.captureCurrentPatch captures.limits captures.currentAdd
    captures.currentDiff = .ok files.capture.patch

/-- What git writes for an unchanged worktree is captured as it is. -/
def PatchFidelity : Prop :=
  captures.Unchanged → ∃ files, captures.proposal.captureProposal captures.limits = .ok files ∧
    captures.Faithful files

/-- No piece in which the patch of an unchanged worktree arrives is other than UTF-8. -/
def ArrivesAsText : Prop :=
  captures.Unchanged → captures.proposal.diff.Textual ∧ captures.currentDiff.Textual

end TwoCaptures

/-! ### What a run returns -/

@[simp] theorem toList_chunkText (chunk : List UInt8) :
    (chunkText chunk).toList = Utf8.decode chunk := String.toList_ofList

namespace GitOutput

variable {command : String} {maxOutputBytes : ℕ}

theorem outputBytes_step (output : GitOutput) (event : GitEvent) :
    (step command maxOutputBytes output event).outputBytes = output.outputBytes + event.bytes := by
  cases event with
  | stdout chunk =>
    unfold step
    dsimp only
    split <;> rfl
  | stderr chunk =>
    unfold step
    dsimp only
    split <;> rfl
  | timeout => rfl
  | abort => rfl

theorem failure_terminate_ne_none (output : GitOutput) (error : String) :
    (output.terminate error).failure ≠ none := by
  rw [terminate]
  cases output.failure <;> exact fun h ↦ nomatch h

/-- A step fails over an interrupt, and over the limit. -/
theorem failure_step_eq_none_iff (output : GitOutput) (event : GitEvent) :
    (step command maxOutputBytes output event).failure = none ↔
      output.failure = none ∧ (event ≠ .timeout ∧ event ≠ .abort) ∧
        output.outputBytes + event.bytes ≤ maxOutputBytes := by
  cases event with
  | stdout chunk =>
    unfold step
    dsimp only [GitEvent.bytes]
    split
    · rename_i hover
      exact iff_of_false (failure_terminate_ne_none _ _) fun h ↦ Nat.not_le.2 hover h.2.2
    · rename_i hwithin
      exact ⟨fun h ↦ ⟨h, ⟨nofun, nofun⟩, Nat.le_of_not_lt hwithin⟩, fun h ↦ h.1⟩
  | stderr chunk =>
    unfold step
    dsimp only [GitEvent.bytes]
    split
    · rename_i hover
      exact iff_of_false (failure_terminate_ne_none _ _) fun h ↦ Nat.not_le.2 hover h.2.2
    · rename_i hwithin
      exact ⟨fun h ↦ ⟨h, ⟨nofun, nofun⟩, Nat.le_of_not_lt hwithin⟩, fun h ↦ h.1⟩
  | timeout => exact iff_of_false (failure_terminate_ne_none _ _) fun h ↦ h.2.1.1 rfl
  | abort => exact iff_of_false (failure_terminate_ne_none _ _) fun h ↦ h.2.1.2 rfl

/-- A step that does not fail adds the text of its piece. -/
theorem stdout_step {output : GitOutput} {event : GitEvent}
    (h : (step command maxOutputBytes output event).failure = none) :
    (step command maxOutputBytes output event).stdout.toList =
      output.stdout.toList ++ (event.stdoutChunk.toList).flatMap Utf8.decode := by
  have hbytes := ((failure_step_eq_none_iff output event).1 h).2.2
  cases event with
  | stdout chunk =>
    simp only [GitEvent.bytes] at hbytes
    simp [step, GitEvent.stdoutChunk, Nat.not_lt.2 hbytes]
  | stderr chunk =>
    simp only [GitEvent.bytes] at hbytes
    simp [step, GitEvent.stdoutChunk, Nat.not_lt.2 hbytes]
  | timeout => simp [step, terminate, GitEvent.stdoutChunk]
  | abort => simp [step, terminate, GitEvent.stdoutChunk]

/-- What the variables hold after a run. -/
theorem collect_spec (command : String) (maxOutputBytes : ℕ) (events : List GitEvent) :
    (collect command maxOutputBytes events).outputBytes = (events.map GitEvent.bytes).sum ∧
    ((collect command maxOutputBytes events).failure = none ↔
      (∀ event ∈ events, event ≠ .timeout ∧ event ≠ .abort) ∧
        (events.map GitEvent.bytes).sum ≤ maxOutputBytes) ∧
    ((collect command maxOutputBytes events).failure = none →
      (collect command maxOutputBytes events).stdout.toList =
        (events.filterMap GitEvent.stdoutChunk).flatMap Utf8.decode) := by
  induction events using List.reverseRecOn with
  | nil => exact ⟨rfl, by simp [collect], fun _ ↦ rfl⟩
  | append_singleton events event ih =>
    obtain ⟨hbytes, hfailure, hstdout⟩ := ih
    have hcollect : collect command maxOutputBytes (events ++ [event]) =
        step command maxOutputBytes (collect command maxOutputBytes events) event := by
      rw [collect, List.foldl_append]
      rfl
    rw [hcollect]
    refine ⟨?_, ?_, fun h ↦ ?_⟩
    · rw [outputBytes_step, hbytes, List.map_append, List.sum_append]
      rfl
    · rw [failure_step_eq_none_iff, hfailure, hbytes, List.map_append, List.sum_append,
        List.forall_mem_append, List.map_singleton, List.sum_singleton, List.forall_mem_singleton]
      constructor
      · rintro ⟨⟨hevents, -⟩, hevent, htotal⟩
        exact ⟨⟨hevents, hevent⟩, htotal⟩
      · rintro ⟨⟨hevents, hevent⟩, htotal⟩
        exact ⟨⟨hevents, by omega⟩, hevent, htotal⟩
    · have hbefore := ((failure_step_eq_none_iff _ event).1 h).1
      rw [stdout_step h, hstdout hbefore, List.filterMap_append, List.flatMap_append]
      cases hchunk : event.stdoutChunk <;> simp [hchunk]

end GitOutput

namespace GitRun

variable {run : GitRun} {command output : String} {maxOutputBytes : ℕ}

/-- The text of a completed run is that of its pieces, one by one. -/
theorem runBoundedGit_eq_ok_iff : run.runBoundedGit command maxOutputBytes false = .ok output ↔
    run.Completed maxOutputBytes ∧ output = run.text := by
  obtain ⟨-, hfailure, hstdout⟩ := GitOutput.collect_spec command maxOutputBytes run.events
  constructor
  · intro h
    unfold runBoundedGit at h
    split at h
    · exact nomatch h
    · rename_i hstarted
      dsimp only at h
      split at h
      · exact nomatch h
      · exact nomatch h
      · rename_i hnone
        split at h
        · rename_i hexit
          obtain ⟨hundisturbed, hbounded⟩ := hfailure.1 hnone
          have htext := Except.ok.inj h
          refine ⟨⟨hstarted, hundisturbed, hbounded, hexit⟩, ?_⟩
          rw [← htext, text, chunks, ← hstdout hnone, String.ofList_toList]
          rfl
        · exact nomatch h
  · rintro ⟨hrun, rfl⟩
    have hnone := hfailure.2 ⟨hrun.undisturbed, hrun.bounded⟩
    rw [runBoundedGit, hrun.started]
    dsimp only
    rw [hnone]
    dsimp only
    rw [if_pos hrun.succeeded, text, chunks, ← hstdout hnone, String.ofList_toList]
    rfl

theorem captureGit_eq_ok_iff : run.captureGit command maxOutputBytes = .ok output ↔
    run.Completed maxOutputBytes ∧ output = run.text := by
  have hrun : run.runBoundedGit command maxOutputBytes false = .ok output ↔ _ :=
    runBoundedGit_eq_ok_iff
  rw [← hrun]
  unfold captureGit
  split
  · rename_i htext
    rw [htext]
  · rename_i herror
    rw [herror]
    split <;> exact iff_of_false nofun nofun

/-- Written back, it is what git wrote exactly if each piece is UTF-8. -/
theorem textBytes_text_iff : textBytes run.text = run.written ↔ run.Textual := by
  rw [textBytes, text, String.toList_ofList]
  exact Utf8.encode_flatMap_decode_iff

theorem textBytes_injective : Function.Injective textBytes :=
  Utf8.encode_injective.comp fun _ _ h ↦ String.toList_inj.1 h

theorem length_written_le (h : run.Completed maxOutputBytes) :
    run.written.length ≤ maxOutputBytes := by
  have hle (events : List GitEvent) :
      (events.filterMap GitEvent.stdoutChunk).flatten.length ≤
        (events.map GitEvent.bytes).sum := by
    induction events with
    | nil => exact Nat.zero_le _
    | cons event events ih =>
      cases event with
      | stdout chunk =>
        have hchunk : (GitEvent.stdout chunk).stdoutChunk = some chunk := rfl
        rw [List.filterMap_cons_some hchunk, List.flatten_cons, List.length_append, List.map_cons,
          List.sum_cons]
        exact Nat.add_le_add_left ih _
      | stderr | timeout | abort =>
        rw [List.filterMap_cons, List.map_cons, List.sum_cons]
        exact ih.trans (Nat.le_add_left _ _)
  exact (hle run.events).trans h.bounded

end GitRun

/-! ### The captures -/

namespace ProposalRuns

variable {limits : CaptureLimits} {runs : ProposalRuns} {files : RecordedProposal}

theorem captureProposal_eq_ok_iff (h : runs.Within limits) :
    runs.captureProposal limits = .ok files ↔
      (textBytes runs.diff.text).length ≤ limits.maxPatchBytes ∧
        files = ⟨textBytes runs.diff.text, textBytes runs.status.text,
          runs.diff.text, Git.splitNames runs.names.text⟩ := by
  have hadd : runs.add.captureGit "add" limits.maxLogBytes = .ok runs.add.text :=
    GitRun.captureGit_eq_ok_iff.2 ⟨h.add, rfl⟩
  have hdiff : runs.diff.captureGit "diff" limits.maxPatchBytes = .ok runs.diff.text :=
    GitRun.captureGit_eq_ok_iff.2 ⟨h.diff, rfl⟩
  have hstatus : runs.status.captureGit "status" limits.maxLogBytes = .ok runs.status.text :=
    GitRun.captureGit_eq_ok_iff.2 ⟨h.status, rfl⟩
  have hnames : runs.names.captureGit "diff" limits.maxLogBytes = .ok runs.names.text :=
    GitRun.captureGit_eq_ok_iff.2 ⟨h.names, rfl⟩
  unfold captureProposal
  rw [hadd, hdiff, hstatus, hnames]
  simp only [Bind.bind, Except.bind, pure, Except.pure, Nat.not_lt.2 h.paths, ↓reduceIte]
  split
  · rename_i hover
    exact iff_of_false nofun fun h ↦ Nat.not_le.2 hover h.1
  · rename_i hwithin
    exact ⟨fun h ↦ ⟨Nat.le_of_not_lt hwithin, (Except.ok.inj h).symm⟩, fun h ↦ h.2 ▸ rfl⟩

theorem captureCurrentPatch_eq_ok_iff {add diff : GitRun} {patch : String}
    (hadd : add.Completed limits.maxLogBytes) (hdiff : diff.Completed limits.maxPatchBytes) :
    captureCurrentPatch limits add diff = .ok patch ↔
      (textBytes diff.text).length ≤ limits.maxPatchBytes ∧ patch = diff.text := by
  have haddText : add.captureGit "add" limits.maxLogBytes = .ok add.text :=
    GitRun.captureGit_eq_ok_iff.2 ⟨hadd, rfl⟩
  have hdiffText : diff.captureGit "diff" limits.maxPatchBytes = .ok diff.text :=
    GitRun.captureGit_eq_ok_iff.2 ⟨hdiff, rfl⟩
  unfold captureCurrentPatch
  rw [haddText, hdiffText]
  simp only [Bind.bind, Except.bind, pure, Except.pure]
  split
  · rename_i hover
    exact iff_of_false nofun fun h ↦ Nat.not_le.2 hover h.1
  · rename_i hwithin
    exact ⟨fun h ↦ ⟨Nat.le_of_not_lt hwithin, (Except.ok.inj h).symm⟩, fun h ↦ h.2 ▸ rfl⟩

end ProposalRuns

/-- A contribution gives back what was recorded. -/
theorem applyInput_bind {sha256 : List UInt8 → String} {maxPatchBytes : Option ℕ}
    {attemptId : String} {recorded : List UInt8} {input : Option (List UInt8)}
    (h : applyInput sha256 maxPatchBytes (bindProposalContribution sha256 attemptId recorded)
      recorded = .ok input) : input.getD [] = recorded := by
  unfold applyInput at h
  cases hbudget : maxPatchBytes.any (· < recorded.length) with
  | true =>
    rw [hbudget, if_pos rfl] at h
    exact nomatch h
  | false =>
    have hsize : ¬recorded.length ≠
        (bindProposalContribution sha256 attemptId recorded).patchBytes := not_not.2 rfl
    have hhash : ¬sha256 recorded ≠
        (bindProposalContribution sha256 attemptId recorded).patchSha256 := not_not.2 rfl
    rw [hbudget, if_neg Bool.false_ne_true, if_neg hsize, if_neg hhash] at h
    cases recorded with
    | nil => exact Except.ok.inj h ▸ rfl
    | cons byte rest => exact Except.ok.inj h ▸ rfl

/-- **A patch is captured as git wrote it** exactly when it arrives in pieces that are UTF-8. -/
theorem patchFidelity_iff (captures : TwoCaptures) :
    captures.PatchFidelity ↔ captures.ArrivesAsText := by
  constructor
  · intro h hunchanged
    obtain ⟨files, hfiles, hfaithful⟩ := h hunchanged
    obtain ⟨-, rfl⟩ := (ProposalRuns.captureProposal_eq_ok_iff hunchanged.proposal).1 hfiles
    have hfirst := GitRun.textBytes_text_iff.1 hfaithful.recorded
    obtain ⟨-, htext⟩ := (ProposalRuns.captureCurrentPatch_eq_ok_iff hunchanged.currentAdd
      hunchanged.currentDiff).1 hfaithful.proposalStable
    -- the second capture reads the text of the first, whose bytes git wrote both times
    refine ⟨hfirst, GitRun.textBytes_text_iff.1 ?_⟩
    rw [hunchanged.same, ← hfaithful.recorded]
    exact congrArg textBytes htext.symm
  · intro h hunchanged
    obtain ⟨hfirst, hsecond⟩ := h hunchanged
    have hrecorded := GitRun.textBytes_text_iff.2 hfirst
    have hcurrent := GitRun.textBytes_text_iff.2 hsecond
    have htext : captures.currentDiff.text = captures.proposal.diff.text :=
      GitRun.textBytes_injective (by rw [hcurrent, hrecorded, hunchanged.same])
    have hbounded : (textBytes captures.proposal.diff.text).length ≤
        captures.limits.maxPatchBytes :=
      hrecorded ▸ GitRun.length_written_le hunchanged.proposal.diff
    refine ⟨_, (ProposalRuns.captureProposal_eq_ok_iff hunchanged.proposal).2 ⟨hbounded, rfl⟩,
      hrecorded, fun sha256 maxPatchBytes attemptId input hinput ↦ ?_, ?_, ?_⟩
    · exact (applyInput_bind hinput).trans hrecorded
    · rw [GitRun.runBoundedGit_eq_ok_iff.2 ⟨hunchanged.currentDiff, rfl⟩,
        GitRun.runBoundedGit_eq_ok_iff.2 ⟨hunchanged.proposal.diff, rfl⟩, htext]
    · exact (ProposalRuns.captureCurrentPatch_eq_ok_iff hunchanged.currentAdd
        hunchanged.currentDiff).2 ⟨htext ▸ hbounded, htext.symm⟩

/-! ### A character in two pieces -/

/-- A run of git that writes the pieces. -/
def runOf (chunks : List (List UInt8)) : GitRun where
  spawnError := none
  events := chunks.map .stdout
  exitCode := some 0
  terminationError := none

/-- The two bytes of `é`, in one piece for the first capture and in two for the second. -/
def splitCharacter : TwoCaptures where
  limits := ⟨1024, 10, 1024⟩
  proposal := ⟨runOf [], runOf [[0xC3, 0xA9]], runOf [], runOf []⟩
  currentAdd := runOf []
  currentDiff := runOf [[0xC3], [0xA9]]

/-- **A character split between two pieces is lost**: the second capture differs from the first,
though the worktree is unchanged. -/
theorem not_patchFidelity_splitCharacter : ¬splitCharacter.PatchFidelity := by
  intro h
  have hrun (chunks : List (List UInt8)) (limit : ℕ)
      (hbounded : ((chunks.map GitEvent.stdout).map GitEvent.bytes).sum ≤ limit) :
      (runOf chunks).Completed limit := by
    refine ⟨rfl, fun event hevent ↦ ?_, hbounded, rfl⟩
    obtain ⟨chunk, -, rfl⟩ := List.mem_map.1 hevent
    exact ⟨nofun, nofun⟩
  have hempty (limit : ℕ) := hrun [] limit (Nat.zero_le _)
  have hunchanged : splitCharacter.Unchanged :=
    ⟨⟨hempty _, hrun _ _ (by decide), hempty _, hempty _, by decide +kernel⟩, hempty _,
      hrun _ _ (by decide), by decide⟩
  obtain ⟨files, hfiles, hfaithful⟩ := h hunchanged
  have hchunking : splitCharacter.currentDiff.text = splitCharacter.proposal.diff.text := by
    have hsame := hfaithful.chunking
    rw [GitRun.runBoundedGit_eq_ok_iff.2 ⟨hunchanged.currentDiff, rfl⟩,
      GitRun.runBoundedGit_eq_ok_iff.2 ⟨hunchanged.proposal.diff, rfl⟩] at hsame
    exact Except.ok.inj hsame
  exact absurd hchunking (by decide +kernel)

end CodeConductor
