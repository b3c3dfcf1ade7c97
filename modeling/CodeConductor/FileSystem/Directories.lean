import CodeConductor.FileSystem.Tree

/-!
# Making directories, and replacing files

`makeDirectories` is the recursive `mkdir`: it makes what is missing of a path and does nothing when
the path leads to a directory. What it will do can be told beforehand: `locate` finds the directory a
path leads to and the names that are missing from there on (`makeDirectories_spec`). It changes
nothing when it fails.

`replace` puts a file in place through a temporary one. `replace_cases` lists its outcomes; note the
second, where the temporary file of somebody else is removed.
-/

namespace FileTree

variable {tree : FileTree} {d : NodePath} {name : String}

/-! ### Recursive `mkdir` -/

/-- `mkdirSync` with `recursive`, of a path given from its last name to its first. -/
def makeDirectories (tree : FileTree) : List String → Except FsError Unit × FileTree
  | [] => (.ok (), tree)
  | name :: up =>
    match tree.mkdir up.reverse name with
    | (.ok (), tree') => (.ok (), tree')
    | (.error .noEntry, _) =>
      match tree.makeDirectories up with
      | (.ok (), tree') => tree'.mkdir up.reverse name
      | (.error e, tree') => (.error e, tree')
    | (.error .entryExists, _) =>
      -- what is there may be the directory, or lead to it
      match tree.directory (up.reverse ++ [name]) with
      | .ok _ => (.ok (), tree)
      | .error .notDirectory => (.error .entryExists, tree)
      | .error e => (.error e, tree)
    | (.error e, _) => (.error e, tree)

/-- The directory a path leads to as far as it exists, and the names that are missing. -/
def locate (tree : FileTree) : List String → Except FsError (NodePath × List String)
  | [] => .ok ([], [])
  | name :: up =>
    match tree.directory up.reverse with
    | .ok d =>
      if tree.node (d ++ [name]) = none then .ok (d, [name])
      else (tree.directory (up.reverse ++ [name])).map (·, [])
    | .error .noEntry => (tree.locate up).map fun found ↦ (found.1, found.2 ++ [name])
    | .error e => .error e

/-- `after` is `before` with the directories `missing` made in `d`. -/
structure Made (before after : FileTree) (d : NodePath) (missing : List String) : Prop where
  base : before.node d = some .directory
  fresh : ∀ q, q <+: missing → q ≠ [] → before.node (d ++ q) = none
  made : ∀ q, q <+: missing → q ≠ [] → after.node (d ++ q) = some .directory
  frame : ∀ p, (∀ q, q <+: missing → q ≠ [] → p ≠ d ++ q) → after.node p = before.node p

namespace Made

variable {before after : FileTree} {missing : List String}

theorem nil (h : before.node d = some .directory) : Made before before d [] where
  base := h
  fresh _ hq hne := absurd (List.prefix_nil.1 hq) hne
  made _ hq hne := absurd (List.prefix_nil.1 hq) hne
  frame _ _ := rfl

/-- Nothing missing, nothing made. -/
theorem eq_of_nil (h : Made before after d []) : after = before :=
  FileTree.ext (funext fun p ↦ h.frame p fun _ hq hne ↦ absurd (List.prefix_nil.1 hq) hne)

/-- Something missing, something made. -/
theorem ne_of_ne_nil (h : Made before after d missing) (hne : missing ≠ []) :
    after ≠ before := by
  intro heq
  have hmade := h.made missing (List.prefix_refl _) hne
  rw [heq, h.fresh missing (List.prefix_refl _) hne] at hmade
  exact absurd hmade (by simp)

/-- The directory at the end of what was made. -/
theorem directory (h : Made before after d missing) :
    after.node (d ++ missing) = some .directory := by
  by_cases hne : missing = []
  · subst hne
    rw [h.eq_of_nil, List.append_nil, h.base]
  · exact h.made missing (List.prefix_refl _) hne

/-- What was there is still there. -/
theorem keeps (h : Made before after d missing) {p : NodePath} (hp : before.node p ≠ none) :
    after.node p = before.node p :=
  h.frame p fun q hq hne heq ↦ hp (heq ▸ h.fresh q hq hne)

/-- The new directories are empty. -/
theorem empty (h : Made before after d missing) (hne : missing ≠ []) (name : String) :
    after.node (d ++ missing ++ [name]) = none := by
  have hbefore : before.node (d ++ missing ++ [name]) = none :=
    node_append_eq_none (h.fresh missing (List.prefix_refl _) hne) [name]
  rw [h.frame, hbefore]
  intro q hq _ heq
  rw [List.append_assoc] at heq
  have hlength := List.IsPrefix.length_le hq
  rw [← List.append_cancel_left heq, List.length_append, List.length_singleton] at hlength
  omega

/-- The last directory has the entries it had, or is new and has none. -/
theorem node_entry (h : Made before after d missing) (name : String) :
    after.node (d ++ missing ++ [name]) = before.node (d ++ missing ++ [name]) := by
  by_cases hne : missing = []
  · subst hne
    rw [h.eq_of_nil]
  · rw [h.empty hne]
    exact (node_append_eq_none (h.fresh missing (List.prefix_refl _) hne) [name]).symm

/-- An entry is there only if nothing was missing. -/
theorem eq_of_entry (h : Made before after d missing)
    (hsome : before.node (d ++ missing ++ [name]) ≠ none) : after = before := by
  by_cases hne : missing = []
  · subst hne
    exact h.eq_of_nil
  · exact absurd (node_append_eq_none (h.fresh missing (List.prefix_refl _) hne) [name]) hsome

/-- One more directory in the last one. -/
theorem snoc (h : Made before after d missing)
    (hnone : after.node (d ++ missing ++ [name]) = none)
    (hfresh : before.node (d ++ missing ++ [name]) = none) :
    Made before (after.put (d ++ missing) name (some .directory) h.directory
      (by rw [hnone]; simp)) d (missing ++ [name]) where
  base := h.base
  fresh q hq hne := by
    rcases List.prefix_concat_iff.1 hq with rfl | hq
    · rw [← List.append_assoc]
      exact hfresh
    · exact h.fresh q hq hne
  made q hq hne := by
    rcases List.prefix_concat_iff.1 hq with rfl | hq
    · rw [← List.append_assoc]
      exact put_node_self
    · exact put_node_directory (h.made q hq hne)
  frame p hp := by
    have hlast : p ≠ d ++ missing ++ [name] := by
      rw [List.append_assoc]
      exact hp _ (List.prefix_refl _) (by simp)
    rw [put_node_of_ne hlast]
    exact h.frame p fun q hq hne ↦ hp q (hq.trans (List.prefix_append _ _)) hne

end Made

/-- A plain name made in the directory a path leads to is where the longer path leads. -/
theorem realpath_put {path : List String} (h : tree.realpath path = .ok d)
    (hd : tree.node d = some .directory) (hplain : IsPlain name)
    (hnone : tree.node (d ++ [name]) = none) :
    (tree.put d name (some .directory) hd (by rw [hnone]; simp)).realpath
      (path ++ [name]) = .ok (d ++ [name]) := by
  refine resolveFrom_append (fun p (hp : tree.node p ≠ none) ↦ ?_) hd (fun links ↦ ?_) h
  · exact put_node_of_none hnone hp
  · exact resolveFrom_directory hplain put_node_self links

/-- `mkdir`, where the path leads to a directory without the name. -/
theorem mkdir_of_none {path : List String} (h : tree.directory path = .ok d)
    (hd : tree.node d = some .directory) (hnone : tree.node (d ++ [name]) = none) :
    tree.mkdir path name =
      (.ok (), tree.put d name (some .directory) hd (by rw [hnone]; simp)) := by
  unfold mkdir
  rw [h]
  simp only [hd, hnone, and_self, dite_true]

theorem mkdir_of_ne_none {path : List String} (h : tree.directory path = .ok d)
    (hnone : tree.node (d ++ [name]) ≠ none) :
    tree.mkdir path name = (.error .entryExists, tree) := by
  unfold mkdir
  rw [h]
  simp only [hnone, and_false, dite_false]

theorem mkdir_of_error {path : List String} {e : FsError} (h : tree.directory path = .error e) :
    tree.mkdir path name = (.error e, tree) := by
  unfold mkdir
  rw [h]

/-- Where nothing is missing the path leads to the directory. -/
theorem directory_of_locate_nil {up : List String} (h : tree.locate up = .ok (d, [])) :
    tree.directory up.reverse = .ok d := by
  cases up with
  | nil =>
    obtain rfl : [] = d := congrArg Prod.fst (Except.ok.inj h)
    exact directory_eq_ok.2 ⟨rfl, tree.root⟩
  | cons name up =>
    rw [locate] at h
    rw [List.reverse_cons]
    split at h
    · split at h
      · exact absurd (congrArg Prod.snd (Except.ok.inj h)) (by simp)
      · cases hdir : tree.directory (up.reverse ++ [name]) with
        | error e =>
          rw [hdir] at h
          cases h
        | ok d' =>
          rw [hdir] at h
          exact congrArg Except.ok (congrArg Prod.fst (Except.ok.inj h))
    · cases hup : tree.locate up with
      | error e =>
        rw [hup] at h
        cases h
      | ok found =>
        rw [hup] at h
        have hmissing : found.2 ++ [name] = [] := congrArg Prod.snd (Except.ok.inj h)
        exact absurd hmissing (by simp)
    · cases h

/-- **What `makeDirectories` does**: it fails without an effect where `locate` fails, and makes the
missing directories elsewhere. -/
theorem makeDirectories_spec (tree : FileTree) (up : List String)
    (hplain : ∀ name ∈ up, IsPlain name) :
    (∀ e, tree.locate up = .error e → ∃ e', tree.makeDirectories up = (.error e', tree)) ∧
    ∀ d missing, tree.locate up = .ok (d, missing) → ∃ tree',
      tree.makeDirectories up = (.ok (), tree') ∧ Made tree tree' d missing ∧
        tree'.realpath up.reverse = .ok (d ++ missing) := by
  induction up with
  | nil =>
    refine ⟨fun _ h ↦ (by cases h), fun d missing h ↦ ?_⟩
    obtain ⟨rfl, rfl⟩ := Prod.mk.inj (Except.ok.inj h)
    exact ⟨tree, rfl, .nil tree.root, rfl⟩
  | cons name up ih =>
    have hname : IsPlain name := hplain name (List.mem_cons_self ..)
    obtain ⟨iherr, ihok⟩ := ih fun n hn ↦ hplain n (List.mem_cons_of_mem _ hn)
    rw [locate, makeDirectories, List.reverse_cons]
    cases hup : tree.directory up.reverse with
    | ok d =>
      obtain ⟨hreal, hd⟩ := directory_eq_ok.1 hup
      by_cases hnone : tree.node (d ++ [name]) = none
      · -- the last name is the one that is missing
        rw [mkdir_of_none hup hd hnone]
        simp only [hnone, if_true]
        refine ⟨fun _ h ↦ (by cases h), fun d' missing h ↦ ?_⟩
        obtain ⟨rfl, rfl⟩ := Prod.mk.inj (Except.ok.inj h)
        refine ⟨_, rfl, ?_, realpath_put hreal hd hname hnone⟩
        have hmade := Made.nil hd
        have hsame : tree.node (d ++ [] ++ [name]) = none := by rwa [List.append_nil]
        simpa only [List.append_nil, List.nil_append] using hmade.snoc hsame hsame
      · rw [mkdir_of_ne_none hup hnone]
        simp only [hnone, if_false]
        cases hlast : tree.directory (up.reverse ++ [name]) with
        | ok d' =>
          obtain ⟨hreal', hd'⟩ := directory_eq_ok.1 hlast
          refine ⟨fun _ h ↦ (by cases h), fun d'' missing h ↦ ?_⟩
          obtain ⟨rfl, rfl⟩ := Prod.mk.inj (Except.ok.inj h)
          exact ⟨tree, rfl, .nil hd', by rwa [List.append_nil]⟩
        | error e =>
          refine ⟨fun _ _ ↦ ?_, fun _ _ h ↦ by cases h⟩
          cases e <;> exact ⟨_, rfl⟩
    | error e =>
      rw [mkdir_of_error hup]
      cases e with
      | noEntry =>
        cases hfound : tree.locate up with
        | error e =>
          obtain ⟨e', he'⟩ := iherr e hfound
          rw [he']
          exact ⟨fun _ _ ↦ ⟨_, rfl⟩, fun _ _ h ↦ by cases h⟩
        | ok found =>
          obtain ⟨d, missing⟩ := found
          obtain ⟨tree', htree', hmade, hreal⟩ := ihok d missing hfound
          have hne : missing ≠ [] := by
            rintro rfl
            exact absurd (hup.symm.trans (directory_of_locate_nil hfound)) (by simp)
          have hnone := hmade.empty hne name
          have hfresh : tree.node (d ++ missing ++ [name]) = none :=
            node_append_eq_none (hmade.fresh missing (List.prefix_refl _) hne) [name]
          rw [htree']
          dsimp only
          rw [mkdir_of_none (directory_eq_ok.2 ⟨hreal, hmade.directory⟩) hmade.directory hnone]
          refine ⟨fun _ h ↦ (by cases h), fun d' missing' h ↦ ?_⟩
          obtain ⟨rfl, rfl⟩ := Prod.mk.inj (Except.ok.inj h)
          refine ⟨_, rfl, hmade.snoc hnone hfresh, ?_⟩
          rw [← List.append_assoc]
          exact realpath_put hreal hmade.directory hname hnone
      | entryExists => exact absurd hup (directory_ne_entryExists up.reverse)
      | notDirectory => exact ⟨fun _ _ ↦ ⟨_, rfl⟩, fun _ _ h ↦ by cases h⟩
      | isDirectory => exact ⟨fun _ _ ↦ ⟨_, rfl⟩, fun _ _ h ↦ by cases h⟩
      | loop => exact ⟨fun _ _ ↦ ⟨_, rfl⟩, fun _ _ h ↦ by cases h⟩

/-! ### Replacing a file -/

/-- Put a file in place through a temporary one: write it, rename it over the target, and remove the
temporary one whatever happened. -/
def replace (tree : FileTree) (d : NodePath) (temporary name : String) (bytes : List UInt8) :
    Except FsError Unit × FileTree :=
  let written :=
    match tree.writeNew d temporary bytes with
    | (.ok (), tree') => tree'.rename d temporary name
    | (.error e, tree') => (.error e, tree')
  match written.2.remove d temporary with
  | (.ok (), tree') => (written.1, tree')
  | (.error e, tree') => (.error e, tree')

section Replace

variable {temporary : String} (bytes : List UInt8)

theorem remove_of_none (hnone : tree.node (d ++ [name]) = none) :
    tree.remove d name = (.ok (), tree) := by
  rw [remove, if_pos hnone]

/-- A temporary file that is there already is removed, a directory is not. -/
theorem replace_of_ne_none (name : String) (hd : tree.node d = some .directory)
    (hsome : tree.node (d ++ [temporary]) ≠ none) :
    ∃ e tree', tree.replace d temporary name bytes = (.error e, tree') ∧
      (tree' = tree ↔ tree.node (d ++ [temporary]) = some .directory) := by
  have hwrite : tree.writeNew d temporary bytes = (.error .entryExists, tree) := by
    unfold writeNew
    simp only [hsome, and_false, dite_false]
  unfold replace
  rw [hwrite]
  by_cases hdir : tree.node (d ++ [temporary]) = some .directory
  · have hremove : tree.remove d temporary = (.error .isDirectory, tree) := by
      unfold remove
      simp only [hdir, ne_eq, not_true_eq_false, and_false, dite_false, reduceCtorEq, if_false]
    simp only [hremove]
    exact ⟨_, _, rfl, fun _ ↦ hdir, fun _ ↦ rfl⟩
  · have hremove : tree.remove d temporary = (.ok (), tree.put d temporary none hd hdir) := by
      unfold remove
      simp only [hsome, hd, hdir, ne_eq, not_false_eq_true, and_self, dite_true, if_false]
    simp only [hremove]
    refine ⟨_, _, rfl, fun heq ↦ absurd ?_ hsome, fun h ↦ absurd h hdir⟩
    rw [← heq]
    exact put_node_self

/-- A directory is not replaced. -/
theorem replace_of_directory (hd : tree.node d = some .directory)
    (hnone : tree.node (d ++ [temporary]) = none)
    (hdir : tree.node (d ++ [name]) = some .directory) :
    ∃ e, tree.replace d temporary name bytes = (.error e, tree) := by
  let written : FileTree :=
    tree.put d temporary (some (.file bytes)) hd (by rw [hnone]; simp)
  have hwrite : tree.writeNew d temporary bytes = (.ok (), written) := by
    unfold writeNew
    simp only [hd, hnone, and_self, dite_true]
    rfl
  have htemp : written.node (d ++ [temporary]) = some (.file bytes) := put_node_self
  have hrename : written.rename d temporary name = (.error .isDirectory, written) := by
    have hdir' : written.node (d ++ [name]) = some .directory := put_node_directory hdir
    unfold rename
    rw [htemp]
    simp only [hdir', ne_eq, not_true_eq_false, and_false, dite_false]
  have hd' : written.node d = some .directory := put_node_directory hd
  have hremove : written.remove d temporary =
      (.ok (), written.put d temporary none hd' (by rw [htemp]; simp)) := by
    unfold remove
    simp only [htemp, hd', ne_eq, reduceCtorEq, not_false_eq_true, and_self, dite_true, if_false,
      Option.some.injEq]
  have hback : written.put d temporary none hd' (by rw [htemp]; simp) = tree := by
    refine FileTree.ext (funext fun p ↦ ?_)
    by_cases hp : p = d ++ [temporary]
    · rw [hp, put_node_self, hnone]
    · rw [put_node_of_ne hp, put_node_of_ne hp]
  unfold replace
  simp only [hwrite, hrename, hremove, hback]
  exact ⟨_, rfl⟩

/-- Whatever else is replaced. -/
theorem replace_of_none (hd : tree.node d = some .directory) (hne : temporary ≠ name)
    (hnone : tree.node (d ++ [temporary]) = none)
    (hdir : tree.node (d ++ [name]) ≠ some .directory) :
    ∃ tree', tree.replace d temporary name bytes = (.ok (), tree') ∧
      tree'.node (d ++ [name]) = some (.file bytes) ∧
        ∀ p, p ≠ d ++ [name] → tree'.node p = tree.node p := by
  have hpath : d ++ [name] ≠ d ++ [temporary] := fun h ↦ hne (by simpa using h.symm)
  let written : FileTree :=
    tree.put d temporary (some (.file bytes)) hd (by rw [hnone]; simp)
  have hwrite : tree.writeNew d temporary bytes = (.ok (), written) := by
    unfold writeNew
    simp only [hd, hnone, and_self, dite_true]
    rfl
  have htemp : written.node (d ++ [temporary]) = some (.file bytes) := put_node_self
  have hd' : written.node d = some .directory := put_node_directory hd
  have hdir' : written.node (d ++ [name]) ≠ some .directory := by rwa [put_node_of_ne hpath]
  let renamed : FileTree := written.put d name (some (.file bytes)) hd' hdir'
  have htemp' : renamed.node (d ++ [temporary]) = some (.file bytes) := by
    rw [put_node_of_ne hpath.symm, htemp]
  have hd'' : renamed.node d = some .directory := put_node_directory hd'
  let cleaned : FileTree := renamed.put d temporary none hd'' (by rw [htemp']; simp)
  have hrename : written.rename d temporary name = (.ok (), cleaned) := by
    have hremove : renamed.remove d temporary = (.ok (), cleaned) := by
      unfold remove
      simp only [htemp', hd'', ne_eq, reduceCtorEq, not_false_eq_true, and_self, dite_true,
        if_false, Option.some.injEq]
      rfl
    unfold rename
    rw [htemp]
    simp only [hd', hdir', ne_eq, not_false_eq_true, and_self, dite_true]
    exact hremove
  have hgone : cleaned.node (d ++ [temporary]) = none := put_node_self
  refine ⟨cleaned, ?_, ?_, fun p hp ↦ ?_⟩
  · unfold replace
    simp only [hwrite, hrename, remove_of_none hgone]
  · rw [put_node_of_ne hpath, put_node_self]
  · by_cases hp' : p = d ++ [temporary]
    · rw [hp', hgone, hnone]
    · rw [put_node_of_ne hp', put_node_of_ne hp, put_node_of_ne hp']

end Replace

/-! ### Directories stay -/

theorem makeDirectories_keepsDirectories (tree : FileTree) (up : List String) :
    KeepsDirectories tree (tree.makeDirectories up).2 := by
  induction up with
  | nil => exact .refl tree
  | cons name up ih =>
    have hmkdir := tree.mkdir_keepsDirectories up.reverse name
    rw [makeDirectories]
    split
    · rename_i tree' hstep
      rwa [hstep] at hmkdir
    · split
      · rename_i tree' hstep
        rw [hstep] at ih
        exact ih.trans (mkdir_keepsDirectories _ _ _)
      · rename_i tree' hstep
        rwa [hstep] at ih
    · split <;> exact .refl tree
    · exact .refl tree

theorem replace_keepsDirectories (tree : FileTree) (d : NodePath) (temporary name : String)
    (bytes : List UInt8) : KeepsDirectories tree (tree.replace d temporary name bytes).2 := by
  have hwrite := tree.writeNew_keepsDirectories d temporary bytes
  have hwritten : KeepsDirectories tree
      (match tree.writeNew d temporary bytes with
        | (.ok (), tree') => tree'.rename d temporary name
        | (.error e, tree') => (.error e, tree')).2 := by
    split
    · rename_i tree' hstep
      rw [hstep] at hwrite
      exact hwrite.trans (rename_keepsDirectories _ _ _ _)
    · rename_i tree' hstep
      rwa [hstep] at hwrite
  have hkeeps := hwritten.trans (remove_keepsDirectories _ d temporary)
  unfold replace
  dsimp only
  split
  · rename_i hstep
    rwa [hstep] at hkeeps
  · rename_i hstep
    rwa [hstep] at hkeeps

end FileTree
