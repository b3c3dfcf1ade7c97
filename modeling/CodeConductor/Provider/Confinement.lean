import CodeConductor.Provider.Evidence
import CodeConductor.Provider.Tools

/-!
# Confinement of the provider's tools

`ConfinedCall` is what a tool call may do: outside the workspace nothing, inside it change the file
at an allowed path and make the directories missing on the way to it, return the content of a file
at a selected path, and nothing at all when it is refused. Places count, not names: a file is where
its path leads through all links.

The code compares names and resolves some of them. `StaysInScope` says when that is enough, by what
the tree looks like before the call. It fails where a link leads from a selected name to a file that
is not selected, where a directory is missing beyond a link that leaves the workspace (it is made
before the check that refuses the call), and where a file has the name of the temporary file of a
write (it is removed by the call it makes fail).
-/

namespace CodeConductor

/-- A workspace as a worker starts in it, or as a call leaves it: its root is a directory. -/
structure ToolWorkspace where
  scope : ToolScope
  tree : FileTree
  plain : ∀ name ∈ scope.workspaceRoot, IsPlain name
  directory : tree.node scope.workspaceRoot = some .directory

/-! ### What a call may do -/

/-- The change at `p` writes the file of an allowed path, or makes a directory on the way to it. -/
def WrittenFor (scope : ToolScope) (before after : FileTree) (entry : String) (p : NodePath) :
    Prop :=
  p = scope.locationOf entry ∧ (∃ bytes, after.node p = some (.file bytes)) ∨
    scope.workspaceRoot <+: p ∧ p <+: scope.locationOf entry ∧ p ≠ scope.locationOf entry ∧
      before.node p = none ∧ after.node p = some .directory

/-- What a tool call may do to the tree, and return. -/
structure ConfinedCall (scope : ToolScope) (before after : FileTree) (result : ToolResult) :
    Prop where
  /-- Nothing outside the workspace is created, modified or deleted. -/
  outside : ∀ p, ¬ scope.workspaceRoot <+: p → after.node p = before.node p
  /-- Inside, only the file of one allowed path changes, and missing directories are made for it. -/
  inside : after = before ∨ ∃ entry ∈ scope.writablePaths,
    ∀ p, after.node p ≠ before.node p → WrittenFor scope before after entry p
  /-- Content comes from the file of a selected path. -/
  content : ∀ target output, result = .content target output →
    ∃ entry ∈ scope.readablePaths, target = scope.locationOf entry ∧
      ∃ bytes, before.node target = some (.file bytes) ∧ output = .ofList (Utf8.decode bytes)
  /-- A refused call leaves the tree as it was. -/
  refused : ∀ output, result = .refused output → after = before

/-! ### When the code keeps to it -/

/-- A selected name that leads to a file which would be returned leads to a selected file. -/
def ReadsSelected (w : ToolWorkspace) (relative : String) : Prop :=
  ∀ target bytes, w.tree.realpath (w.scope.locationOf relative) = .ok target →
    assertWithin w.scope.workspaceRoot target = true → w.tree.node target = some (.file bytes) →
      bytes.length ≤ w.scope.maxBytes → ∃ entry ∈ w.scope.readablePaths,
        target = w.scope.locationOf entry

/-- The target of a write exists and is refused: it is a link, or leaves the workspace. -/
def TargetRefused (w : ToolWorkspace) (target : List String) (file : NodePath) : Prop :=
  ∃ resolved, w.tree.realpath target = .ok resolved ∧
    ((∃ absolute link, w.tree.node file = some (.symlink absolute link)) ∨
      assertWithin w.scope.workspaceRoot resolved = false)

/-- A write whose parent is in the workspace finds its temporary name free (or taken by a directory,
which stays) and replaces the file of an allowed path, or changes nothing. -/
def ReplacesAllowed (w : ToolWorkspace) (target : List String) (parent : NodePath)
    (bytes : List UInt8) : Prop :=
  let name := target.getLastD ""
  let file := parent ++ [name]
  let temporary := w.tree.node (parent ++ [temporaryName w.scope name])
  temporary = some .directory ∨ temporary = none ∧
    (w.tree.node file = some .directory ∨ w.tree.node file = some (.file bytes) ∨
      ∃ entry ∈ w.scope.writablePaths, file = w.scope.locationOf entry)

/-- A write makes directories in the workspace only, and replaces an allowed file only. -/
def WritesAllowed (w : ToolWorkspace) (relative content : String) : Prop :=
  let target := w.scope.locationOf relative
  assertWithin w.scope.workspaceRoot target = true →
    ∀ d missing, w.tree.locate target.dropLast.reverse = .ok (d, missing) →
      if assertWithin w.scope.workspaceRoot (d ++ missing) = true then
        missing = [] ∧ TargetRefused w target (d ++ missing ++ [target.getLastD ""]) ∨
          ReplacesAllowed w target (d ++ missing) (Utf8.encode content.toList)
      else missing = []

/-- The tree before the call is one in which the names the call uses stay in the scope. -/
def StaysInScope (parse : String → Option Json) (w : ToolWorkspace) (call : FunctionCall) : Prop :=
  match checkToolCall parse w.scope call with
  | .error _ => True
  | .ok (.readFile relative) => ReadsSelected w relative
  | .ok (.writeFile relative content) => WritesAllowed w relative content

/-! ### The three endings -/

section Endings

variable {scope : ToolScope} {before after : FileTree}

theorem confinedCall_refused_iff {output : String} :
    ConfinedCall scope before after (.refused output) ↔ after = before := by
  refine ⟨fun h ↦ h.refused output rfl, ?_⟩
  rintro rfl
  exact ⟨fun _ _ ↦ rfl, .inl rfl, nofun, fun _ _ ↦ rfl⟩

theorem confinedCall_content_iff {target : NodePath} {bytes : List UInt8}
    (h : before.node target = some (.file bytes)) :
    ConfinedCall scope before before (.content target (.ofList (Utf8.decode bytes))) ↔
      ∃ entry ∈ scope.readablePaths, target = scope.locationOf entry := by
  constructor
  · intro hconfined
    obtain ⟨entry, hentry, htarget, -⟩ := hconfined.content _ _ rfl
    exact ⟨entry, hentry, htarget⟩
  · rintro ⟨entry, hentry, htarget⟩
    refine ⟨fun _ _ ↦ rfl, .inl rfl, fun target' output heq ↦ ?_, nofun⟩
    obtain ⟨rfl, rfl⟩ := ToolResult.content.inj heq
    exact ⟨entry, hentry, htarget, bytes, h, rfl⟩

/-- A file was written into a directory some of which was made for it. -/
theorem confinedCall_wrote_iff {mid : FileTree} {d : NodePath} {missing : List String}
    {name output : String} {bytes : List UInt8}
    (hroot : before.node scope.workspaceRoot = some .directory)
    (hmade : before.Made mid d missing)
    (hfile : after.node (d ++ missing ++ [name]) = some (.file bytes))
    (hframe : ∀ p, p ≠ d ++ missing ++ [name] → after.node p = mid.node p) :
    ConfinedCall scope before after (.wrote output) ↔
      before.node (d ++ missing ++ [name]) = some (.file bytes) ∨
        ∃ entry ∈ scope.writablePaths, d ++ missing ++ [name] = scope.locationOf entry := by
  constructor
  · intro h
    by_cases hsame : before.node (d ++ missing ++ [name]) = some (.file bytes)
    · exact .inl hsame
    have hchanged : after.node (d ++ missing ++ [name]) ≠ before.node (d ++ missing ++ [name]) := by
      rw [hfile]
      exact Ne.symm hsame
    rcases h.inside with heq | ⟨entry, hentry, hwritten⟩
    · exact absurd (congrArg (FileTree.node · _) heq) hchanged
    · rcases hwritten _ hchanged with ⟨hloc, -⟩ | ⟨-, -, -, -, hdir⟩
      · exact .inr ⟨entry, hentry, hloc⟩
      · exact nomatch hfile.symm.trans hdir
  · rintro (hsame | ⟨entry, hentry, hloc⟩)
    · -- the file was there with these bytes, so no directory was missing
      have hnil : missing = [] := by
        by_contra hne
        have hnone := FileTree.node_append_eq_none
          (hmade.fresh missing (List.prefix_refl _) hne) [name]
        exact nomatch hnone.symm.trans hsame
      subst hnil
      have hmid := hmade.eq_of_nil
      have heq : after = before := by
        refine FileTree.ext (funext fun p ↦ ?_)
        by_cases hp : p = d ++ [] ++ [name]
        · rw [hp, hfile, hsame]
        · rw [hframe p hp, hmid]
      exact ⟨fun _ _ ↦ heq ▸ rfl, .inl heq, nofun, nofun⟩
    · -- whatever changed lies on the way to the file
      have hwritten : ∀ p, after.node p ≠ before.node p → WrittenFor scope before after entry p := by
        intro p hp
        by_cases hpf : p = d ++ missing ++ [name]
        · exact .inl ⟨hpf.trans hloc, bytes, hpf ▸ hfile⟩
        · rw [hframe p hpf] at hp
          have hmem : ∃ q, q <+: missing ∧ q ≠ [] ∧ p = d ++ q := by
            by_contra hno
            exact hp (hmade.frame p fun q hq hne heq ↦ hno ⟨q, hq, hne, heq⟩)
          obtain ⟨q, hq, hne, rfl⟩ := hmem
          have hnone := hmade.fresh q hq hne
          have hway : d ++ q <+: d ++ missing ++ [name] := by
            refine List.IsPrefix.trans ?_ (List.prefix_append _ _)
            exact (List.prefix_append_right_inj d).2 hq
          have hrootway : scope.workspaceRoot <+: d ++ missing ++ [name] := by
            rw [hloc]
            exact List.prefix_append _ _
          refine .inr ⟨?_, hloc ▸ hway, fun heq ↦ hpf (heq.trans hloc.symm), hnone, ?_⟩
          · rcases List.prefix_or_prefix_of_prefix hrootway hway with h | h
            · exact h
            · -- a directory on the way to the root is not missing
              have := FileTree.node_ne_none_of_prefix h (by rw [hroot]; exact nofun)
              exact absurd hnone this
          · rw [hframe _ hpf]
            exact hmade.made q hq hne
      refine ⟨fun p hp ↦ ?_, .inr ⟨entry, hentry, hwritten⟩, nofun, nofun⟩
      by_contra hne
      rcases hwritten p hne with ⟨rfl, -⟩ | ⟨hin, -⟩
      · exact hp (List.prefix_append _ _)
      · exact hp hin

end Endings

/-! ### Names -/

theorem segmentsOf_ne_nil (relative : String) : segmentsOf relative ≠ [] := by
  intro h
  exact List.splitOn_ne_nil '/' relative.toList (List.map_eq_nil_iff.1 h)

/-- The segments of a normalized path are plain. -/
theorem isPlain_of_normalizeRelativePath {candidate relative : String}
    (h : normalizeRelativePath candidate = some relative) :
    ∀ name ∈ segmentsOf relative, IsPlain name := by
  unfold normalizeRelativePath at h
  dsimp only at h
  split at h
  · exact nomatch h
  · split at h
    · exact nomatch h
    · rename_i hsegments
      obtain rfl := Option.some.inj h
      intro name hname
      rw [segmentsOf, String.toList_ofList] at hname
      obtain ⟨segment, hsegment, rfl⟩ := List.mem_map.1 hname
      have hplain : ¬ (segment = [] ∨ segment = ['.'] ∨ segment = ['.', '.']) := by
        intro hbad
        refine hsegments (List.any_eq_true.2 ⟨segment, hsegment, ?_⟩)
        simpa [or_assoc] using hbad
      refine ⟨fun heq ↦ ?_, fun heq ↦ ?_, fun heq ↦ ?_⟩
      · exact hplain (.inl (String.ofList_injective heq))
      · exact hplain (.inr (.inl (String.ofList_injective heq)))
      · exact hplain (.inr (.inr (String.ofList_injective heq)))

theorem temporaryName_ne (scope : ToolScope) (name : String) : temporaryName scope name ≠ name := by
  intro h
  have hlength := congrArg String.length h
  simp only [temporaryName, String.length_append] at hlength
  have hpos : 0 < ".tmp".length := by decide
  omega

/-- A path in the workspace is its parent and its name. -/
theorem ToolScope.locationOf_eq (scope : ToolScope) (relative : String) :
    (scope.locationOf relative).dropLast ++ [(scope.locationOf relative).getLastD ""] =
      scope.locationOf relative := by
  have hne : scope.locationOf relative ≠ [] := by
    intro h
    exact segmentsOf_ne_nil relative (List.append_eq_nil_iff.1 h).2
  rw [List.getLastD_eq_getLast?, List.getLast?_eq_getLast_of_ne_nil hne, Option.getD_some]
  exact List.dropLast_append_getLast hne

theorem ToolScope.getLastD_locationOf_mem (scope : ToolScope) (relative : String) :
    (scope.locationOf relative).getLastD "" ∈ segmentsOf relative := by
  have hne := segmentsOf_ne_nil relative
  rw [locationOf, List.getLastD_eq_getLast?, List.getLast?_append_of_ne_nil _ hne,
    List.getLast?_eq_getLast_of_ne_nil hne, Option.getD_some]
  exact List.getLast_mem hne

/-! ### A write -/

section Write

variable {w : ToolWorkspace} {mid : FileTree} {d : NodePath} {missing : List String}

/-- The replacement of the file, in a directory some of which was made for it. -/
theorem confinedCall_replace_iff (hmade : w.tree.Made mid d missing) (call relative : String)
    (target : List String) (bytes : List UInt8) {replaced : Except FsError Unit × FileTree}
    (hreplaced : replaced = mid.replace (d ++ missing)
      (temporaryName w.scope (target.getLastD "")) (target.getLastD "") bytes) :
    ConfinedCall w.scope w.tree replaced.2
        (writeResult call relative (replaced.1.mapError .fileSystem)) ↔
      ReplacesAllowed w target (d ++ missing) bytes := by
  unfold ReplacesAllowed
  dsimp only
  have htemp := hmade.node_entry (temporaryName w.scope (target.getLastD ""))
  have hfile := hmade.node_entry (target.getLastD "")
  by_cases hnone : w.tree.node (d ++ missing ++ [temporaryName w.scope (target.getLastD "")]) = none
  · by_cases hdir : w.tree.node (d ++ missing ++ [target.getLastD ""]) = some .directory
    · obtain ⟨e, hstep⟩ := FileTree.replace_of_directory bytes hmade.directory
        (htemp.trans hnone) (hfile.trans hdir)
      rw [hreplaced, hstep]
      have hmid : mid = w.tree := hmade.eq_of_entry (by rw [hdir]; simp)
      refine confinedCall_refused_iff.trans ⟨fun _ ↦ .inr ⟨hnone, .inl hdir⟩, fun _ ↦ hmid⟩
    · obtain ⟨after, hstep, hwritten, hframe⟩ := FileTree.replace_of_none bytes
        hmade.directory (temporaryName_ne w.scope _) (htemp.trans hnone)
        (fun h ↦ hdir (hfile.symm.trans h))
      rw [hreplaced, hstep]
      refine (confinedCall_wrote_iff w.directory hmade hwritten hframe).trans ?_
      refine ⟨fun h ↦ .inr ⟨hnone, .inr h⟩, ?_⟩
      rintro (h | ⟨-, h | h⟩)
      · exact absurd (hnone.symm.trans h) (by simp)
      · exact absurd h hdir
      · exact h
  · have hmid : mid = w.tree := hmade.eq_of_entry hnone
    obtain ⟨e, after, hstep, hiff⟩ := FileTree.replace_of_ne_none bytes
      (target.getLastD "") hmade.directory (htemp ▸ hnone)
    rw [hreplaced, hstep]
    refine confinedCall_refused_iff.trans ?_
    rw [hmid] at hiff
    refine hiff.trans ⟨.inl, ?_⟩
    rintro (h | ⟨h, -⟩)
    · exact h
    · exact absurd h hnone

/-- The write, once its directory was made. -/
theorem confinedCall_writeScoped_iff (hmade : w.tree.Made mid d missing) {call relative : String}
    (hplain : ∀ name ∈ segmentsOf relative, IsPlain name) (content : String)
    (hreal : mid.realpath (w.scope.locationOf relative).dropLast = .ok (d ++ missing)) :
    ConfinedCall w.scope w.tree
        (writeScoped mid w.scope (w.scope.locationOf relative) (d ++ missing) content).2
        (writeResult call relative
          (writeScoped mid w.scope (w.scope.locationOf relative) (d ++ missing) content).1) ↔
      missing = [] ∧ TargetRefused w (w.scope.locationOf relative)
          (d ++ missing ++ [(w.scope.locationOf relative).getLastD ""]) ∨
        ReplacesAllowed w (w.scope.locationOf relative) (d ++ missing)
          (Utf8.encode content.toList) := by
  have hreplace := confinedCall_replace_iff hmade call relative (w.scope.locationOf relative)
    (Utf8.encode content.toList) rfl
  unfold writeScoped
  by_cases hnil : missing = []
  · subst hnil
    have hmid : mid = w.tree := hmade.eq_of_nil
    rw [hmid] at hreplace ⊢
    cases hresolve : w.tree.realpath (w.scope.locationOf relative) with
    | error e =>
      -- the target does not exist, or its links lead nowhere
      refine hreplace.trans ⟨.inr, ?_⟩
      rintro (⟨-, resolved, hresolved, -⟩ | h)
      · exact nomatch hresolve.symm.trans hresolved
      · exact h
    | ok resolved =>
      dsimp only
      split
      · rename_i absolute link hlink
        refine confinedCall_refused_iff.trans ⟨fun _ ↦ .inl ⟨rfl, resolved, hresolve, ?_⟩,
          fun _ ↦ rfl⟩
        exact .inl ⟨absolute, link, hlink⟩
      · rename_i hlink
        cases hwithin : assertWithin w.scope.workspaceRoot resolved with
        | false =>
          refine confinedCall_refused_iff.trans ⟨fun _ ↦ .inl ⟨rfl, resolved, hresolve, ?_⟩,
            fun _ ↦ rfl⟩
          exact .inr hwithin
        | true =>
          refine hreplace.trans ⟨.inr, ?_⟩
          rintro (⟨-, resolved', hresolved, ⟨absolute, link, h⟩ | h⟩ | h)
          · exact absurd h (hlink absolute link)
          · obtain rfl := Except.ok.inj (hresolve.symm.trans hresolved)
            exact nomatch hwithin.symm.trans h
          · exact h
  · -- the target is missing, as its directory was
    have hresolve : mid.realpath (w.scope.locationOf relative) = .error .noEntry := by
      rw [← w.scope.locationOf_eq relative]
      refine FileTree.resolveFrom_append (fun p (_ : mid.node p ≠ none) ↦ rfl) hmade.directory
        (FileTree.resolveFrom_missing ?_ (hmade.empty hnil _)) hreal
      exact hplain _ (w.scope.getLastD_locationOf_mem relative)
    rw [hresolve]
    refine hreplace.trans ⟨.inr, ?_⟩
    rintro (⟨h, -⟩ | h)
    · exact absurd h hnil
    · exact h

/-- **A write is confined exactly if it writes what is allowed.** -/
theorem confinedCall_atomicScopedWrite_iff (w : ToolWorkspace) {call relative : String}
    (hplain : ∀ name ∈ segmentsOf relative, IsPlain name) (content : String) :
    ConfinedCall w.scope w.tree (atomicScopedWrite w.tree w.scope relative content).2
        (writeResult call relative (atomicScopedWrite w.tree w.scope relative content).1) ↔
      WritesAllowed w relative content := by
  have hup : ∀ name ∈ (w.scope.locationOf relative).dropLast.reverse, IsPlain name := by
    intro name hname
    have hmem := List.dropLast_subset _ (List.mem_reverse.1 hname)
    rcases List.mem_append.1 hmem with h | h
    · exact w.plain name h
    · exact hplain name h
  obtain ⟨herr, hok⟩ := w.tree.makeDirectories_spec _ hup
  unfold atomicScopedWrite WritesAllowed
  dsimp only
  cases hlexical : assertWithin w.scope.workspaceRoot (w.scope.locationOf relative) with
  | false => exact confinedCall_refused_iff.trans ⟨fun _ h ↦ (nomatch h), fun _ ↦ rfl⟩
  | true =>
    cases hlocate : w.tree.locate (w.scope.locationOf relative).dropLast.reverse with
    | error e =>
      obtain ⟨e', hstep⟩ := herr e hlocate
      rw [hstep]
      exact confinedCall_refused_iff.trans ⟨fun _ _ _ _ h ↦ (nomatch h), fun _ ↦ rfl⟩
    | ok found =>
      obtain ⟨d, missing⟩ := found
      obtain ⟨mid, hstep, hmade, hreal⟩ := hok d missing hlocate
      rw [List.reverse_reverse] at hreal
      rw [hstep]
      have hfound (P : NodePath → List String → Prop) :
          (∀ d' missing', (Except.ok (d, missing) : Except FsError _) = .ok (d', missing') →
            P d' missing') ↔ P d missing := by
        refine ⟨fun h ↦ h d missing rfl, fun h d' missing' heq ↦ ?_⟩
        obtain ⟨rfl, rfl⟩ := Prod.mk.inj (Except.ok.inj heq)
        exact h
      rw [hfound]
      simp only [if_true, hreal, true_implies]
      cases hwithin : assertWithin w.scope.workspaceRoot (d ++ missing) with
      | true =>
        simp only [if_true]
        exact confinedCall_writeScoped_iff hmade hplain content hreal
      | false =>
        -- refused after the directories were made
        refine confinedCall_refused_iff.trans ⟨fun heq ↦ ?_, fun hnil ↦ ?_⟩
        · by_contra hne
          exact hmade.ne_of_ne_nil hne heq
        · have hnil : missing = [] := hnil
          subst hnil
          exact hmade.eq_of_nil

end Write

/-! ### A call -/

/-- The paths of accepted actions are normalized. -/
theorem isPlain_of_checkToolCall {parse : String → Option Json} {scope : ToolScope}
    {call : FunctionCall} {relative content : String}
    (h : checkToolCall parse scope call = .ok (.writeFile relative content)) :
    ∀ name ∈ segmentsOf relative, IsPlain name := by
  have hscoped {path : String} {paths : List String}
      (h : scopedPath call.name path paths = .ok relative) :
      ∀ name ∈ segmentsOf relative, IsPlain name := by
    unfold scopedPath at h
    split at h
    · exact nomatch h
    · rename_i found hfound
      split at h
      · obtain rfl := Except.ok.inj h
        exact isPlain_of_normalizeRelativePath hfound
      · exact nomatch h
  unfold checkToolCall at h
  split at h
  · exact nomatch h
  · dsimp only at h
    split at h
    · split at h
      · split at h
        · rename_i path _ _
          cases hpath : scopedPath call.name path scope.readablePaths with
          | error e =>
            rw [hpath] at h
            exact nomatch h
          | ok found =>
            rw [hpath] at h
            exact nomatch Except.ok.inj h
        · exact nomatch h
      · exact nomatch h
    · split at h
      · split at h
        · split at h
          · rename_i path content' _ _ _
            cases hpath : scopedPath call.name path scope.writablePaths with
            | error e =>
              rw [hpath] at h
              exact nomatch h
            | ok found =>
              rw [hpath] at h
              dsimp only [bind, Except.bind] at h
              split at h
              · exact nomatch h
              · obtain ⟨rfl, rfl⟩ := ToolAction.writeFile.inj (Except.ok.inj h)
                exact hscoped hpath
          · exact nomatch h
        · exact nomatch h
      · exact nomatch h

/-- **A call is confined exactly if it stays in scope.** -/
theorem confinedCall_iff (parse : String → Option Json) (w : ToolWorkspace) (call : FunctionCall) :
    ConfinedCall w.scope w.tree (executeToolCall parse w.scope w.tree call).2
        (executeToolCall parse w.scope w.tree call).1 ↔ StaysInScope parse w call := by
  unfold executeToolCall StaysInScope
  cases hcheck : checkToolCall parse w.scope call with
  | error output => exact confinedCall_refused_iff.trans ⟨fun _ ↦ trivial, fun _ ↦ rfl⟩
  | ok action =>
    cases action with
    | writeFile relative content =>
      exact confinedCall_atomicScopedWrite_iff w (isPlain_of_checkToolCall hcheck) content
    | readFile relative =>
      dsimp only
      unfold ReadsSelected resolveExistingFile
      cases hresolve : w.tree.realpath (w.scope.locationOf relative) with
      | error e => exact confinedCall_refused_iff.trans ⟨fun _ _ _ h ↦ (nomatch h), fun _ ↦ rfl⟩
      | ok target =>
        dsimp only
        cases hwithin : assertWithin w.scope.workspaceRoot target with
        | false =>
          refine confinedCall_refused_iff.trans ⟨fun _ target' _ heq h ↦ ?_, fun _ ↦ rfl⟩
          obtain rfl := Except.ok.inj heq
          exact nomatch hwithin.symm.trans h
        | true =>
          simp only [if_true]
          cases hnode : w.tree.node target with
          | none =>
            refine confinedCall_refused_iff.trans ⟨fun _ target' bytes heq _ h ↦ ?_, fun _ ↦ rfl⟩
            obtain rfl := Except.ok.inj heq
            exact nomatch hnode.symm.trans h
          | some node =>
            cases node with
            | directory =>
              refine confinedCall_refused_iff.trans ⟨fun _ target' bytes heq _ h ↦ ?_, fun _ ↦ rfl⟩
              obtain rfl := Except.ok.inj heq
              exact nomatch hnode.symm.trans h
            | symlink absolute link =>
              refine confinedCall_refused_iff.trans ⟨fun _ target' bytes heq _ h ↦ ?_, fun _ ↦ rfl⟩
              obtain rfl := Except.ok.inj heq
              exact nomatch hnode.symm.trans h
            | file bytes =>
              dsimp only
              split
              · rename_i hlarge
                refine confinedCall_refused_iff.trans ⟨fun _ target' bytes' heq _ h hle ↦ ?_,
                  fun _ ↦ rfl⟩
                obtain rfl := Except.ok.inj heq
                obtain rfl := FileNode.file.inj (Option.some.inj (hnode.symm.trans h))
                exact absurd hle (Nat.not_le.2 hlarge)
              · rename_i hsmall
                refine (confinedCall_content_iff hnode).trans ⟨fun h target' bytes' heq _ _ _ ↦ ?_,
                  fun h ↦ h target bytes rfl hwithin hnode (Nat.not_lt.1 hsmall)⟩
                obtain rfl := Except.ok.inj heq
                exact h

/-! ### A run -/

/-- Directories stay directories. -/
theorem executeToolCall_directory (parse : String → Option Json) (w : ToolWorkspace)
    (call : FunctionCall) {p : NodePath} (h : w.tree.node p = some .directory) :
    (executeToolCall parse w.scope w.tree call).2.node p = some .directory := by
  have hwrite (relative content : String) : w.tree.KeepsDirectories
      (atomicScopedWrite w.tree w.scope relative content).2 := by
    have hmake := w.tree.makeDirectories_keepsDirectories
      (w.scope.locationOf relative).dropLast.reverse
    unfold atomicScopedWrite
    dsimp only
    split
    · split
      · rename_i hstep
        rwa [hstep] at hmake
      · rename_i mid hstep
        rw [hstep] at hmake
        split
        · exact hmake
        · split
          · unfold writeScoped
            dsimp only
            split
            · exact hmake.trans (FileTree.replace_keepsDirectories _ _ _ _ _)
            · split
              · exact hmake
              · split
                · exact hmake.trans (FileTree.replace_keepsDirectories _ _ _ _ _)
                · exact hmake
          · exact hmake
    · exact .refl w.tree
  unfold executeToolCall
  split
  · exact h
  · split
    · exact h
    · split
      · exact h
      · exact h
  · exact hwrite _ _ p h

/-- The workspace after a call. -/
def ToolWorkspace.execute (parse : String → Option Json) (w : ToolWorkspace)
    (call : FunctionCall) : ToolWorkspace where
  scope := w.scope
  tree := (executeToolCall parse w.scope w.tree call).2
  plain := w.plain
  directory := executeToolCall_directory parse w call w.directory

/-- Every call of a sequence is confined. -/
def ConfinedRun (parse : String → Option Json) : ToolWorkspace → List FunctionCall → Prop
  | _, [] => True
  | w, call :: calls =>
    ConfinedCall w.scope w.tree (executeToolCall parse w.scope w.tree call).2
      (executeToolCall parse w.scope w.tree call).1 ∧ ConfinedRun parse (w.execute parse call) calls

/-- Every call of a sequence stays in scope, in the tree the calls before it left. -/
def RunStaysInScope (parse : String → Option Json) : ToolWorkspace → List FunctionCall → Prop
  | _, [] => True
  | w, call :: calls => StaysInScope parse w call ∧ RunStaysInScope parse (w.execute parse call) calls

/-- **The tools are confined exactly in the runs that stay in scope.** -/
theorem confinedRun_iff (parse : String → Option Json) (w : ToolWorkspace)
    (calls : List FunctionCall) : ConfinedRun parse w calls ↔ RunStaysInScope parse w calls := by
  induction calls generalizing w with
  | nil => exact Iff.rfl
  | cons call calls ih => exact and_congr (confinedCall_iff parse w call) (ih _)

/-! ### A directory made outside -/

/-- A request that allows one path. -/
def linkedRequest : ProviderRequest where
  profileId := "luna-medium-v1"
  profileFingerprint := ""
  profile := lunaMedium
  workspacePath := "/w"
  allowedPaths := ["link/new/a.txt"]
  contextRefs := []

/-- The workspace `/w`, in which `link` leads to `/out`. -/
def linkedWorkspace : ToolWorkspace where
  scope := ⟨["w"], ["link/new/a.txt"], ["link/new/a.txt"], 1048576, 7⟩
  tree := ((FileTree.empty.put [] "out" (some .directory) rfl (by decide +kernel)).put [] "w"
    (some .directory) (by decide +kernel) (by decide +kernel)).put ["w"] "link"
      (some (.symlink true ["out"])) (by decide +kernel) (by decide +kernel)
  plain := by decide +kernel
  directory := by decide +kernel

/-- A write to the allowed path. -/
def linkedCall : FunctionCall :=
  ⟨"call-1", "write_file", "\x7b\"path\":\"link/new/a.txt\",\"content\":\"\"\x7d"⟩

/-- `JSON.parse` of the arguments of that call. -/
def parseLinked (text : String) : Option Json :=
  if text = linkedCall.arguments then
    some (.object [("path", .string "link/new/a.txt"), ("content", .string "")])
  else none

/-- **A refused write makes a directory outside the workspace.** -/
theorem not_confinedRun_linked :
    toolScope linkedRequest ["w"] 7 = some linkedWorkspace.scope ∧
      ¬ ConfinedRun parseLinked linkedWorkspace [linkedCall] := by
  refine ⟨by decide +kernel, fun h ↦ ?_⟩
  have hafter : (executeToolCall parseLinked linkedWorkspace.scope linkedWorkspace.tree
      linkedCall).2.node ["out", "new"] = some .directory := by
    decide +kernel
  have hbefore : linkedWorkspace.tree.node ["out", "new"] = none := by
    decide +kernel
  have houtside := h.1.outside ["out", "new"] (by decide)
  rw [hafter, hbefore] at houtside
  exact nomatch houtside

end CodeConductor
