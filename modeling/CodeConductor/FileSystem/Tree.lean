import Mathlib.Data.List.Induction
import Mathlib.Logic.Function.Basic

/-!
# File trees with symbolic links

A **file tree** assigns a node to every path that has one: a directory, a file with its bytes, or a
symbolic link. A `NodePath` names a place in the tree, so it passes through directories only; the
names a program uses for a place may pass through links as well, and `realpath` is what turns them
into places. An operation on a tree is a change of one entry of a directory (`put`), which keeps the
tree well formed.

## Main statements

* `resolveFrom_append`: a path that leads to a directory is continued there, also in a tree that
  has more entries;
* `put`, with `put_node_self` and `put_node_of_ne`: the change of one entry.
-/

/-- A place in a tree: the names on the way from the root, through directories only. -/
abbrev NodePath := List String

/-- A node of a file tree. A link has the components of its target, which starts at the root or at
the directory the link is in. -/
inductive FileNode where
  | directory
  | file (bytes : List UInt8)
  | symlink (absolute : Bool) (target : List String)
  deriving DecidableEq, Repr

/-- The errors of the file system. -/
inductive FsError where
  | noEntry | entryExists | notDirectory | isDirectory | loop
  deriving DecidableEq, Repr

/-- A name that stands for itself in a path. -/
def IsPlain (name : String) : Prop := name ≠ "" ∧ name ≠ "." ∧ name ≠ ".."

instance (name : String) : Decidable (IsPlain name) :=
  inferInstanceAs (Decidable (_ ∧ _ ∧ _))

/-- A file tree: whatever has a node is in a directory. -/
@[ext]
structure FileTree where
  node : NodePath → Option FileNode
  root : node [] = some .directory
  parent : ∀ p name, node (p ++ [name]) ≠ none → node p = some .directory

namespace FileTree

/-- The number of links the system follows before it gives up. -/
def maxLinks : ℕ := 40

/-! ### Following a path -/

/-- Walk on from a place. At a link the walk is left to `follow`. -/
def walk (node : NodePath → Option FileNode)
    (follow : NodePath → List String → Except FsError NodePath) :
    NodePath → List String → Except FsError NodePath
  | place, [] => .ok place
  | place, name :: rest =>
    if name = "" ∨ name = "." then walk node follow place rest
    else if name = ".." then walk node follow place.dropLast rest
    else
      match node (place ++ [name]) with
      | none => .error .noEntry
      | some .directory => walk node follow (place ++ [name]) rest
      | some (.file _) => if rest = [] then .ok (place ++ [name]) else .error .notDirectory
      | some (.symlink absolute target) => follow (if absolute then [] else place) (target ++ rest)

attribute [grind =] walk

/-- Walk on from a place, following at most so many links. -/
def resolveFrom (node : NodePath → Option FileNode) :
    ℕ → NodePath → List String → Except FsError NodePath
  | 0 => walk node fun _ _ ↦ .error .loop
  | links + 1 => walk node (resolveFrom node links)

attribute [grind =] resolveFrom

/-- `realpathSync`: the place a path leads to. -/
def realpath (tree : FileTree) (path : List String) : Except FsError NodePath :=
  resolveFrom tree.node maxLinks [] path

/-- The directory a path leads to. -/
def directory (tree : FileTree) (path : List String) : Except FsError NodePath :=
  match tree.realpath path with
  | .error e => .error e
  | .ok place => if tree.node place = some .directory then .ok place else .error .notDirectory

theorem walk_append {node node' : NodePath → Option FileNode}
    {follow follow' : NodePath → List String → Except FsError NodePath} {d : NodePath}
    {rest : List String} {res : Except FsError NodePath}
    (hsub : ∀ p, node p ≠ none → node' p = node p) (hd : node d = some .directory)
    (hfollow : ∀ place path, follow place path = .ok d → follow' place (path ++ rest) = res)
    (hrest : walk node' follow' d rest = res) {place : NodePath} {path : List String}
    (h : walk node follow place path = .ok d) : walk node' follow' place (path ++ rest) = res := by
  induction path generalizing place with
  | nil =>
    obtain rfl : place = d := Except.ok.inj h
    exact hrest
  | cons name path ih =>
    rw [List.cons_append, walk]
    rw [walk] at h
    split at h
    · rename_i hskip
      rw [if_pos hskip]
      exact ih h
    · rename_i hskip
      rw [if_neg hskip]
      split at h
      · rename_i hup
        rw [if_pos hup]
        exact ih h
      · rename_i hup
        rw [if_neg hup]
        have hnode : node (place ++ [name]) ≠ none → node' (place ++ [name]) =
          node (place ++ [name]) := hsub _
        split at h
        · exact nomatch h
        · rename_i hdir
          rw [hnode (by rw [hdir]; exact nofun), hdir]
          exact ih h
        · rename_i bytes hfile
          split at h
          · -- a file is no directory
            have hplace : place ++ [name] = d := Except.ok.inj h
            rw [hplace] at hfile
            exact nomatch hfile.symm.trans hd
          · exact nomatch h
        · rename_i absolute target hlink
          rw [hnode (by rw [hlink]; exact nofun), hlink]
          dsimp only
          rw [← List.append_assoc]
          exact hfollow _ _ h

/-- A path that leads to a directory is continued there, also after entries were added. -/
theorem resolveFrom_append {node node' : NodePath → Option FileNode} {d : NodePath}
    {rest : List String} {res : Except FsError NodePath}
    (hsub : ∀ p, node p ≠ none → node' p = node p) (hd : node d = some .directory)
    (hrest : ∀ links, resolveFrom node' links d rest = res) {links : ℕ} {place : NodePath}
    {path : List String} (h : resolveFrom node links place path = .ok d) :
    resolveFrom node' links place (path ++ rest) = res := by
  induction links generalizing place path with
  | zero =>
    refine walk_append hsub hd ?_ (hrest 0) h
    exact fun _ _ hloop ↦ nomatch hloop
  | succ links ih => exact walk_append hsub hd (fun _ _ h ↦ ih h) (hrest (links + 1)) h

/-- One plain name on from a place that has no entry of the name. -/
theorem resolveFrom_missing {node : NodePath → Option FileNode} {d : NodePath} {name : String}
    (hplain : IsPlain name) (hnone : node (d ++ [name]) = none) (links : ℕ) :
    resolveFrom node links d [name] = .error .noEntry := by
  have hskip : ¬ (name = "" ∨ name = ".") := by
    rintro (h | h)
    · exact hplain.1 h
    · exact hplain.2.1 h
  cases links with
  | zero => rw [resolveFrom, walk, if_neg hskip, if_neg hplain.2.2, hnone]
  | succ links => rw [resolveFrom, walk, if_neg hskip, if_neg hplain.2.2, hnone]

/-- One plain name on from a place, to a directory in it. -/
theorem resolveFrom_directory {node : NodePath → Option FileNode} {d : NodePath} {name : String}
    (hplain : IsPlain name) (hdir : node (d ++ [name]) = some .directory) (links : ℕ) :
    resolveFrom node links d [name] = .ok (d ++ [name]) := by
  have hskip : ¬ (name = "" ∨ name = ".") := by
    rintro (h | h)
    · exact hplain.1 h
    · exact hplain.2.1 h
  cases links with
  | zero => rw [resolveFrom, walk, if_neg hskip, if_neg hplain.2.2, hdir, walk]
  | succ links => rw [resolveFrom, walk, if_neg hskip, if_neg hplain.2.2, hdir, walk]

theorem directory_eq_ok {tree : FileTree} {path : List String} {d : NodePath} :
    tree.directory path = .ok d ↔
      tree.realpath path = .ok d ∧ tree.node d = some .directory := by
  unfold directory
  split
  · rename_i e he
    exact ⟨nofun, fun h ↦ nomatch he.symm.trans h.1⟩
  · rename_i place hplace
    rw [hplace]
    split
    · rename_i hdir
      refine ⟨fun h ↦ Except.ok.inj h ▸ ⟨rfl, hdir⟩, fun h ↦ h.1⟩
    · rename_i hdir
      refine ⟨nofun, fun h ↦ absurd h.2 ?_⟩
      rwa [← Except.ok.inj h.1]

/-- Nothing is found to exist on the way. -/
theorem walk_ne_entryExists {node : NodePath → Option FileNode}
    {follow : NodePath → List String → Except FsError NodePath}
    (hfollow : ∀ place path, follow place path ≠ .error .entryExists) (place : NodePath)
    (path : List String) : walk node follow place path ≠ .error .entryExists := by
  induction path generalizing place with
  | nil => exact nofun
  | cons name path ih =>
    rw [walk]
    split
    · exact ih place
    · split
      · exact ih place.dropLast
      · split
        · exact nofun
        · exact ih (place ++ [name])
        · split
          · exact nofun
          · exact nofun
        · exact hfollow _ _

theorem directory_ne_entryExists {tree : FileTree} (path : List String) :
    tree.directory path ≠ .error .entryExists := by
  have hresolve (links : ℕ) : ∀ place path,
      resolveFrom tree.node links place path ≠ .error .entryExists := by
    induction links with
    | zero => exact walk_ne_entryExists fun _ _ ↦ nofun
    | succ links ih => exact walk_ne_entryExists ih
  unfold directory
  split
  · rename_i e he
    exact fun h ↦ hresolve maxLinks [] path (he.trans (congrArg Except.error (Except.error.inj h)))
  · split
    · exact nofun
    · exact nofun

/-! ### Well-formedness -/

variable {tree : FileTree} {d : NodePath} {name : String}

theorem ne_append_singleton (d : NodePath) (name : String) : d ≠ d ++ [name] := by
  intro h
  have hlength := congrArg List.length h
  rw [List.length_append, List.length_singleton] at hlength
  omega

/-- What is missing has nothing in it. -/
theorem node_append_eq_none (h : tree.node d = none) (rest : NodePath) :
    tree.node (d ++ rest) = none := by
  induction rest using List.reverseRecOn with
  | nil => rwa [List.append_nil]
  | append_singleton rest name ih =>
    by_contra hne
    rw [← List.append_assoc] at hne
    exact nomatch ih.symm.trans (tree.parent _ _ hne)

/-- The way to a node passes through nodes. -/
theorem node_ne_none_of_prefix {p q : NodePath} (hpq : p <+: q) (h : tree.node q ≠ none) :
    tree.node p ≠ none := by
  obtain ⟨rest, rfl⟩ := hpq
  exact fun hnone ↦ h (node_append_eq_none hnone rest)

/-- Change one entry of a directory, which is not a directory itself. -/
def put (tree : FileTree) (d : NodePath) (name : String) (node : Option FileNode)
    (hd : tree.node d = some .directory) (hname : tree.node (d ++ [name]) ≠ some .directory) :
    FileTree where
  node := Function.update tree.node (d ++ [name]) node
  root := by
    rw [Function.update_of_ne (fun h ↦ by simp at h)]
    exact tree.root
  parent p n h := by
    by_cases heq : p ++ [n] = d ++ [name]
    · obtain ⟨rfl, -⟩ := List.append_inj' heq rfl
      rwa [Function.update_of_ne (ne_append_singleton p name)]
    · rw [Function.update_of_ne heq] at h
      have hp := tree.parent p n h
      have hne : p ≠ d ++ [name] := fun hp' ↦ hname (hp' ▸ hp)
      rwa [Function.update_of_ne hne]

section Put

variable {node : Option FileNode} {hd : tree.node d = some .directory}
  {hname : tree.node (d ++ [name]) ≠ some .directory}

@[simp] theorem put_node_self : (tree.put d name node hd hname).node (d ++ [name]) = node :=
  Function.update_self ..

theorem put_node_of_ne {p : NodePath} (h : p ≠ d ++ [name]) :
    (tree.put d name node hd hname).node p = tree.node p :=
  Function.update_of_ne h ..

/-- Directories stay. -/
theorem put_node_directory {p : NodePath} (h : tree.node p = some .directory) :
    (tree.put d name node hd hname).node p = some .directory := by
  rw [put_node_of_ne (fun hp ↦ hname (hp ▸ h)), h]

/-- Adding an entry leaves what is there. -/
theorem put_node_of_none (hnone : tree.node (d ++ [name]) = none) {p : NodePath}
    (h : tree.node p ≠ none) : (tree.put d name node hd hname).node p = tree.node p :=
  put_node_of_ne fun hp ↦ h (hp ▸ hnone)

end Put

/-- The tree with nothing in it. -/
def empty : FileTree where
  node p := if p = [] then some .directory else none
  root := if_pos rfl
  parent p name h := absurd (if_neg (by simp)) h

/-! ### Operations in a directory -/

/-- `mkdir`, in the directory the path leads to. -/
def mkdir (tree : FileTree) (path : List String) (name : String) :
    Except FsError Unit × FileTree :=
  match tree.directory path with
  | .error e => (.error e, tree)
  | .ok d =>
    if h : tree.node d = some .directory ∧ tree.node (d ++ [name]) = none then
      (.ok (), tree.put d name (some .directory) h.1 (by rw [h.2]; exact nofun))
    else (.error .entryExists, tree)

/-- `writeFileSync` with the flag `wx`. -/
def writeNew (tree : FileTree) (d : NodePath) (name : String) (bytes : List UInt8) :
    Except FsError Unit × FileTree :=
  if h : tree.node d = some .directory ∧ tree.node (d ++ [name]) = none then
    (.ok (), tree.put d name (some (.file bytes)) h.1 (by rw [h.2]; exact nofun))
  else (.error .entryExists, tree)

/-- `rmSync` with `force`: nothing happens when there is nothing. -/
def remove (tree : FileTree) (d : NodePath) (name : String) : Except FsError Unit × FileTree :=
  if tree.node (d ++ [name]) = none then (.ok (), tree)
  else
    if h : tree.node d = some .directory ∧ tree.node (d ++ [name]) ≠ some .directory then
      (.ok (), tree.put d name none h.1 h.2)
    else (.error .isDirectory, tree)

/-- `renameSync` of a file within its directory, over whatever is no directory. -/
def rename (tree : FileTree) (d : NodePath) (name target : String) :
    Except FsError Unit × FileTree :=
  match tree.node (d ++ [name]) with
  | none => (.error .noEntry, tree)
  | some node =>
    if h : tree.node d = some .directory ∧ tree.node (d ++ [target]) ≠ some .directory then
      ((tree.put d target (some node) h.1 h.2).remove d name)
    else (.error .isDirectory, tree)

/-! ### Directories stay -/

/-- Every directory of one tree is one of the other. -/
def KeepsDirectories (before after : FileTree) : Prop :=
  ∀ p, before.node p = some .directory → after.node p = some .directory

theorem KeepsDirectories.refl (tree : FileTree) : KeepsDirectories tree tree := fun _ h ↦ h

theorem KeepsDirectories.trans {a b c : FileTree} (hab : KeepsDirectories a b)
    (hbc : KeepsDirectories b c) : KeepsDirectories a c := fun p h ↦ hbc p (hab p h)

theorem put_keepsDirectories {node : Option FileNode} (hd : tree.node d = some .directory)
    (hname : tree.node (d ++ [name]) ≠ some .directory) :
    KeepsDirectories tree (tree.put d name node hd hname) :=
  fun _ h ↦ put_node_directory h

theorem mkdir_keepsDirectories (tree : FileTree) (path : List String) (name : String) :
    KeepsDirectories tree (tree.mkdir path name).2 := by
  unfold mkdir
  split
  · exact .refl tree
  · split
    · rename_i h
      exact put_keepsDirectories h.1 (by rw [h.2]; exact nofun)
    · exact .refl tree

theorem writeNew_keepsDirectories (tree : FileTree) (d : NodePath) (name : String)
    (bytes : List UInt8) : KeepsDirectories tree (tree.writeNew d name bytes).2 := by
  unfold writeNew
  split
  · rename_i h
    exact put_keepsDirectories h.1 (by rw [h.2]; exact nofun)
  · exact .refl tree

theorem remove_keepsDirectories (tree : FileTree) (d : NodePath) (name : String) :
    KeepsDirectories tree (tree.remove d name).2 := by
  unfold remove
  split
  · exact .refl tree
  · split
    · rename_i h
      exact put_keepsDirectories h.1 h.2
    · exact .refl tree

theorem rename_keepsDirectories (tree : FileTree) (d : NodePath) (name target : String) :
    KeepsDirectories tree (tree.rename d name target).2 := by
  unfold rename
  split
  · exact .refl tree
  · split
    · rename_i h
      exact (put_keepsDirectories h.1 h.2).trans (remove_keepsDirectories _ _ _)
    · exact .refl tree

end FileTree
