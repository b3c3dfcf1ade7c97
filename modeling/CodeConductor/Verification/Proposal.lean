import CodeConductor.Contracts.Errors
import CodeConductor.Verification.PathRules

/-!
# Capturing a proposal

What a worker leaves in its worktree is captured by git: `captureProposal` enters new files into the
index, takes the patch and the names of the changed paths, and the scope is evaluated on those names.
Git is a parameter, of which it is known what a rename it detects is made of: a deleted path and an
added one. `git diff --name-only` lists the added one.
-/

namespace CodeConductor

variable {Blob : Type} [DecidableEq Blob]

/-- The worktree of an attempt: the tree of `workspace.baseRevision`, the files the worker leaves, what
it left in the index, and what git ignores. -/
structure Checkout (Blob : Type) where
  base : TreePath → Option Blob
  files : TreePath → Option Blob
  index : TreePath → Bool
  ignored : TreePath → Bool
  /-- All paths of the base tree and the worktree. -/
  paths : List TreePath
  mem_paths : ∀ path, (base path).isSome ∨ (files path).isSome → path ∈ paths

namespace Checkout

variable (c : Checkout Blob)

/-- A file git ignores and does not track. -/
def Aside (path : TreePath) : Prop :=
  (c.files path).isSome ∧ c.ignored path = true ∧ c.index path = false

/-- The presence or the content of a path is not that of the base tree; ignored untracked files
aside. -/
def Differs (path : TreePath) : Prop := c.base path ≠ c.files path ∧ ¬c.Aside path

/-- What git sees after `git add --intent-to-add --all`. -/
def visible (path : TreePath) : Option Blob :=
  if c.index path || !c.ignored path then c.files path else none

omit [DecidableEq Blob] in
theorem visible_of_not_aside {c : Checkout Blob} {path : TreePath} (h : ¬c.Aside path) :
    c.visible path = c.files path := by
  unfold visible
  split
  · rfl
  · rename_i hnot
    cases hfile : c.files path with
    | none => rfl
    | some blob =>
      simp only [Bool.or_eq_true, Bool.not_eq_true', not_or, Bool.not_eq_false,
        Bool.not_eq_true] at hnot
      exact absurd ⟨by rw [hfile]; rfl, hnot.2, hnot.1⟩ h

end Checkout

/-- The git commands of a capture. -/
inductive CaptureCommand where
  | add | diffPatch | status | diffNames
  deriving DecidableEq, Repr

/-- `args[0]`. -/
def CaptureCommand.text : CaptureCommand → String
  | add => "add"
  | diffPatch | diffNames => "diff"
  | status => "status"

/-- Git, as far as a capture uses it. -/
structure Git (Blob : Type) where
  /-- The error a command ends with, if it does. -/
  failure : CaptureCommand → Checkout Blob → Option RuntimeError
  /-- `git diff --binary --full-index`. -/
  patch : Checkout Blob → String
  /-- `git status --porcelain=v2`. -/
  status : Checkout Blob → String
  /-- The renames `git diff` detects, as source and destination. -/
  renames : Checkout Blob → List (TreePath × TreePath)
  source_deleted : ∀ c, ∀ r ∈ renames c, (c.base r.1).isSome ∧ c.visible r.1 = none
  destination_added : ∀ c, ∀ r ∈ renames c, c.base r.2 = none ∧ (c.visible r.2).isSome

/-- The limits of `contract.resources` on a capture. -/
structure CaptureLimits where
  maxPatchBytes : ℕ
  maxChangedPaths : ℕ
  maxLogBytes : ℕ
  deriving DecidableEq, Repr

/-- `ProposalCapture`. -/
structure ProposalCapture where
  patch : String
  changedPaths : List String
  deriving DecidableEq, Repr

namespace Git

variable (git : Git Blob) (limits : CaptureLimits) (c : Checkout Blob)

/-- The path is the source of a detected rename. -/
def renamed (path : TreePath) : Bool := (git.renames c).any fun r ↦ r.1 = path

/-- The paths `git diff --name-only` lists: the changed ones but the sources of renames. -/
def listed : List TreePath :=
  c.paths.filter fun path ↦ c.base path ≠ c.visible path && !git.renamed c path

/-- The output of `git diff --name-only -z`. -/
def diffNames : String :=
  .ofList ((git.listed c).flatMap fun path ↦ path.text.toList ++ ['\x00'])

/-- `captureGit`. -/
def captureGit (command : CaptureCommand) (output : String) (maxOutputBytes : ℕ) :
    Except RuntimeError String :=
  match git.failure command c with
  | some error => .error error
  | none =>
    if maxOutputBytes < output.utf8ByteSize then
      .error (.resourceLimit ("git " ++ command.text ++ " output exceeded " ++
        toString maxOutputBytes ++ " bytes"))
    else .ok output

/-- `names.split("\0").filter(Boolean).sort()`. -/
def splitNames (names : String) : List String :=
  sortStrings (((names.toList.splitOn '\x00').map String.ofList).filter (· ≠ ""))

/-- `captureProposal`. -/
def captureProposal : Except RuntimeError ProposalCapture := do
  let _ ← git.captureGit c .add "" limits.maxLogBytes
  let patch ← git.captureGit c .diffPatch (git.patch c) limits.maxPatchBytes
  let _ ← git.captureGit c .status (git.status c) limits.maxLogBytes
  let names ← git.captureGit c .diffNames (git.diffNames c) limits.maxLogBytes
  let changedPaths := splitNames names
  if limits.maxPatchBytes < patch.utf8ByteSize then
    throw (.resourceLimit ("proposal patch is " ++ toString patch.utf8ByteSize ++
      " bytes; maximum is " ++ toString limits.maxPatchBytes))
  if limits.maxChangedPaths < changedPaths.length then
    throw (.resourceLimit ("proposal changes " ++ toString changedPaths.length ++
      " paths; maximum is " ++ toString limits.maxChangedPaths))
  return { patch, changedPaths }

/-- `verification.scope` of a captured proposal. -/
def verificationScope (scope : JobScope) : Except RuntimeError ScopeRecord := do
  let proposal ← git.captureProposal limits c
  return evaluatePathScope proposal.changedPaths scope

/-- The capture stays within its limits. -/
structure Captures : Prop where
  runs : ∀ command, git.failure command c = none
  patch : (git.patch c).utf8ByteSize ≤ limits.maxPatchBytes
  status : (git.status c).utf8ByteSize ≤ limits.maxLogBytes
  names : (git.diffNames c).utf8ByteSize ≤ limits.maxLogBytes
  paths : (splitNames (git.diffNames c)).length ≤ limits.maxChangedPaths

/-- A passed scope covers everything that differs. -/
def ScopeComplete (scope : JobScope) : Prop :=
  ∀ record, git.verificationScope limits c scope = .ok record → record.status = .passed →
    ∀ path, c.Differs path → ¬scope.Violates path

end Git

/-- The path is not read as the rules mean it: its name has a backslash, or it is within a rule with
an inner `//`. -/
def JobScope.Misreads (scope : JobScope) (path : TreePath) : Prop :=
  '\\' ∈ path.text.toList ∨
    ∃ rule ∈ scope.forbiddenPaths ++ scope.protectedPaths, rule.Doubled ∧ path.Within rule

/-- When nothing outside the scope escapes the evaluation: if the capture stays within its limits and
all listed paths pass as they are read, then so do, as the rules mean it, the sources of detected
renames and the paths that are misread. -/
def Git.NothingHidden (git : Git Blob) (limits : CaptureLimits) (c : Checkout Blob)
    (scope : JobScope) : Prop :=
  git.Captures limits c → scope.configured = true →
    (∀ path ∈ git.listed c, scope.Admits (normalizePath path.text)) →
      ∀ path, c.Differs path → git.renamed c path = true ∨ scope.Misreads path →
        ¬scope.Violates path

/-! ### The names that come back -/

namespace Git

variable {git : Git Blob} {limits : CaptureLimits} {c : Checkout Blob} {scope : JobScope}

theorem splitOn_flatMap (texts : List (List Char)) (h : ∀ text ∈ texts, '\x00' ∉ text) :
    (texts.flatMap fun text ↦ text ++ ['\x00']).splitOn '\x00' = texts ++ [[]] := by
  induction texts with
  | nil => rfl
  | cons text texts ih =>
    have hrest := ih fun t ht ↦ h t (List.mem_cons_of_mem text ht)
    rw [List.flatMap_cons, List.append_assoc, List.singleton_append, List.splitOn_append_cons_self,
      hrest, List.splitOn_eq_singleton (h text List.mem_cons_self), List.singleton_append,
      List.cons_append]

/-- The names that come back are those of the listed paths. -/
theorem mem_splitNames {text : String} :
    text ∈ splitNames (git.diffNames c) ↔ ∃ path ∈ git.listed c, path.text = text := by
  have hsplit := splitOn_flatMap ((git.listed c).map fun path ↦ path.text.toList) fun text ht ↦ by
    obtain ⟨path, -, rfl⟩ := List.mem_map.1 ht
    exact path.nul_notMem
  rw [List.flatMap_map] at hsplit
  have hnames : (git.diffNames c).toList.splitOn '\x00' =
      ((git.listed c).map fun path ↦ path.text.toList) ++ [[]] := by
    rw [diffNames, String.toList_ofList, hsplit]
  rw [splitNames, mem_sortStrings, List.mem_filter, hnames]
  simp only [List.map_append, List.map_map, List.mem_append, List.mem_map, Function.comp_apply,
    String.ofList_toList, List.map_cons, List.map_nil, List.mem_singleton, decide_eq_true_eq]
  constructor
  · rintro ⟨hmem | rfl, hne⟩
    · exact hmem
    · exact absurd rfl hne
  · rintro ⟨path, hpath, rfl⟩
    refine ⟨.inl ⟨path, hpath, rfl⟩, fun hempty ↦ ?_⟩
    have hsegments : path.segments = [[]] := by
      rw [TreePath.segments, hempty]
      rfl
    exact path.nil_notMem_segments (hsegments ▸ List.mem_singleton_self _)

omit [DecidableEq Blob] in
theorem captureGit_ok {command : CaptureCommand} {output text : String} {limit : ℕ} :
    git.captureGit c command output limit = .ok text ↔
      git.failure command c = none ∧ output.utf8ByteSize ≤ limit ∧ output = text := by
  unfold captureGit
  split
  · rename_i hfailure
    simp [hfailure]
  · rename_i hfailure
    split
    · rename_i hlimit
      exact iff_of_false (fun h ↦ nomatch h) fun h ↦ Nat.not_le.2 hlimit h.2.1
    · rename_i hlimit
      simp [hfailure, Nat.le_of_not_lt hlimit]

/-- A capture within its limits. -/
theorem Captures.captureProposal (h : git.Captures limits c) :
    git.captureProposal limits c = .ok ⟨git.patch c, splitNames (git.diffNames c)⟩ := by
  have hadd : git.captureGit c .add "" limits.maxLogBytes = .ok "" :=
    captureGit_ok.2 ⟨h.runs _, Nat.zero_le _, rfl⟩
  have hpatch := captureGit_ok.2 ⟨h.runs .diffPatch, h.patch, rfl⟩
  have hstatus := captureGit_ok.2 ⟨h.runs .status, h.status, rfl⟩
  have hnames := captureGit_ok.2 ⟨h.runs .diffNames, h.names, rfl⟩
  unfold Git.captureProposal
  rw [hadd, hpatch, hstatus, hnames]
  simp only [Bind.bind, Except.bind, pure, Except.pure, Nat.not_lt.2 h.patch,
    Nat.not_lt.2 h.paths, ↓reduceIte]

theorem captures_of_captureProposal {proposal : ProposalCapture}
    (h : git.captureProposal limits c = .ok proposal) : git.Captures limits c := by
  unfold Git.captureProposal at h
  obtain ⟨_, hadd, h⟩ := Except.exists_of_bind_eq_ok h
  obtain ⟨patch, hpatch, h⟩ := Except.exists_of_bind_eq_ok h
  obtain ⟨_, hstatus, h⟩ := Except.exists_of_bind_eq_ok h
  obtain ⟨names, hnames, h⟩ := Except.exists_of_bind_eq_ok h
  obtain ⟨haddRuns, -, -⟩ := captureGit_ok.1 hadd
  obtain ⟨hpatchRuns, hpatchSize, rfl⟩ := captureGit_ok.1 hpatch
  obtain ⟨hstatusRuns, hstatusSize, rfl⟩ := captureGit_ok.1 hstatus
  obtain ⟨hnamesRuns, hnamesSize, rfl⟩ := captureGit_ok.1 hnames
  refine ⟨fun command ↦ ?_, hpatchSize, hstatusSize, hnamesSize, ?_⟩
  · cases command
    · exact haddRuns
    · exact hpatchRuns
    · exact hstatusRuns
    · exact hnamesRuns
  · by_contra hpaths
    dsimp only at h
    rw [if_neg (Nat.not_lt.2 hpatchSize), if_pos (Nat.lt_of_not_le hpaths)] at h
    exact nomatch h

/-- The record of a scope, when there is one. -/
theorem verificationScope_ok {record : ScopeRecord} :
    git.verificationScope limits c scope = .ok record ↔
      git.Captures limits c ∧ evaluatePathScope (splitNames (git.diffNames c)) scope = record := by
  constructor
  · intro h
    obtain ⟨proposal, hproposal, h⟩ := Except.exists_of_bind_eq_ok h
    have hcaptures := captures_of_captureProposal hproposal
    rw [hcaptures.captureProposal] at hproposal
    obtain rfl := Except.ok.inj hproposal
    exact ⟨hcaptures, Except.ok.inj h⟩
  · rintro ⟨hcaptures, rfl⟩
    rw [verificationScope, hcaptures.captureProposal]
    rfl

theorem admits_splitNames :
    (∀ text ∈ splitNames (git.diffNames c), scope.Admits (normalizePath text)) ↔
      ∀ path ∈ git.listed c, scope.Admits (normalizePath path.text) := by
  simp only [mem_splitNames]
  exact ⟨fun h path hpath ↦ h _ ⟨path, hpath, rfl⟩, fun h _ ⟨path, hpath, heq⟩ ↦ heq ▸ h path hpath⟩

/-- What differs is listed, unless a rename hides it. -/
theorem mem_listed {path : TreePath} (h : c.Differs path) (hrenamed : git.renamed c path = false) :
    path ∈ git.listed c := by
  have hvisible := Checkout.visible_of_not_aside h.2
  have hne : c.base path ≠ c.visible path := hvisible ▸ h.1
  have hmem : path ∈ c.paths := c.mem_paths path <| by
    cases hbase : c.base path with
    | some _ => exact .inl rfl
    | none =>
      cases hfile : c.files path with
      | some _ => exact .inr rfl
      | none => exact absurd (hbase.trans hfile.symm) h.1
  refine List.mem_filter.2 ⟨hmem, ?_⟩
  rw [hrenamed]
  simpa using hne

end Git

/-- A path that is admitted and not misread is within the scope. -/
theorem JobScope.Admits.not_violates {scope : JobScope} {path : TreePath}
    (h : scope.Admits (normalizePath path.text)) (hread : ¬scope.Misreads path) :
    ¬scope.Violates path := by
  have hslash : '\\' ∉ path.text.toList := fun hs ↦ hread (.inl hs)
  rw [path.normalizePath_text hslash] at h
  rintro (⟨hne, houtside⟩ | ⟨rule, hrule, hwithin⟩)
  · obtain ⟨rule, hrule, hmatch⟩ := h.2 hne
    exact houtside rule hrule (matchesRule_iff.1 hmatch).1
  · have hsingle : ¬rule.Doubled := fun hd ↦ hread (.inr ⟨rule, hrule, hd, hwithin⟩)
    have hmatch := matchesRule_iff.2 ⟨hwithin, hsingle⟩
    exact Bool.false_ne_true ((h.1 rule hrule).symm.trans hmatch)

/-- A git that detects a rename when a deleted file appears elsewhere with the same content. -/
def exactRenames : Git ℕ where
  failure _ _ := none
  patch _ := ""
  status _ := ""
  renames c := (c.paths.product c.paths).filter fun r ↦
    (c.base r.1).isSome && c.visible r.1 = none && c.base r.2 = none && c.visible r.2 = c.base r.1
  source_deleted c r hr := by
    simp only [List.mem_filter, Bool.and_eq_true, decide_eq_true_eq] at hr
    exact ⟨hr.2.1.1.1, hr.2.1.1.2⟩
  destination_added c r hr := by
    simp only [List.mem_filter, Bool.and_eq_true, decide_eq_true_eq] at hr
    exact ⟨hr.2.1.2, hr.2.2 ▸ hr.2.1.1.1⟩

/-- `secrets/key` in a protected directory. -/
def protectedKey : TreePath := ⟨"secrets/key", by decide +kernel, by decide +kernel⟩

/-- `src/key` where the worker may write. -/
def movedKey : TreePath := ⟨"src/key", by decide +kernel, by decide +kernel⟩

/-- The worker moved the key. -/
def movedCheckout : Checkout ℕ where
  base path := if path = protectedKey then some 1 else none
  files path := if path = movedKey then some 1 else none
  index path := path = protectedKey
  ignored _ := false
  paths := [protectedKey, movedKey]
  mem_paths path h := by
    by_cases h₁ : path = protectedKey
    · exact h₁ ▸ List.mem_cons_self
    · by_cases h₂ : path = movedKey
      · exact h₂ ▸ List.mem_cons_of_mem _ List.mem_cons_self
      · simp [h₁, h₂] at h

/-- The worker may write `src`, and `secrets` is protected. -/
def keyScope : JobScope where
  allowedPaths := [⟨"src", by decide +kernel⟩]
  forbiddenPaths := []
  protectedPaths := [⟨"secrets", by decide +kernel⟩]

end CodeConductor
