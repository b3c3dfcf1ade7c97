import CodeConductor.Storage.Transitions

/-!
# The journal fences revisions

`Fenced` ties the names of the journal directory, the snapshots under them, the projection and the
history of commits together; `recordProtocol` says what concurrent readers and writers rely on. A
writer may act on a projection or a listing that is long out of date: the only step that matters is
the rename, and it succeeds only if the revision directory is not there, that is, only if what the
writer read is still the newest snapshot.

## Main results

* `RecordFs.Fenced.revision_of_history` — the history has consecutive revisions.
* `safe_readRecord`, `safe_updateRecord` — what a read and an update do, whatever interleaves.
* `recordProtocol_sound` — hence what every run keeps.
-/

namespace CodeConductor

open Async Async.Prog Async.Protocol

variable {R P : Type}

namespace RecordFs

/-! ### The history -/

theorem history_append (base : R) (fs : RecordFs R P) (c : Commit R P)
    (entries : AList fun _ : EntryName ↦ Option R) :
    ({ fs with entries := entries, committed := fs.committed ++ [c] } : RecordFs R P).history base =
      fs.history base ++ [c.value] := by
  simp [history]

theorem history_isPrefix {base : R} {fs fs' : RecordFs R P} (h : fs.committed <+: fs'.committed) :
    fs.history base <+: fs'.history base := by
  obtain ⟨l, hl⟩ := h
  exact ⟨l.map Commit.value, by simp [history, ← hl]⟩

theorem length_history (base : R) (fs : RecordFs R P) :
    (fs.history base).length = fs.committed.length + 1 := by
  simp [history]

/-- What was in the history stays where it was. -/
theorem history_getElem?_mono {base : R} {fs fs' : RecordFs R P}
    (h : fs.committed <+: fs'.committed) {i : ℕ} {v : R} (hv : (fs.history base)[i]? = some v) :
    (fs'.history base)[i]? = some v := by
  obtain ⟨l, hl⟩ := history_isPrefix h
  have hi := (List.getElem?_eq_some_iff.1 hv).1
  rw [← hl, List.getElem?_append_left hi, hv]

theorem history_succ {base : R} {fs : RecordFs R P} {i : ℕ} {v : R} :
    (fs.history base)[i + 1]? = some v ↔ ∃ c, fs.committed[i]? = some c ∧ c.value = v := by
  simp [history]

/-! ### The invariant -/

/-- The journal directory, the history and the projection of a record fit together; every staging
directory was made by a call below `n`. -/
structure Fenced (J : RecordType R P) (base : R) (n : ℕ) (fs : RecordFs R P) : Prop where
  /-- Each commit applied its writer's update to the snapshot before it. -/
  computed : ∀ (i : ℕ) (c : Commit R P), fs.committed[i]? = some c →
    ∃ previous, (fs.history base)[i]? = some previous ∧
      J.updated previous c.patch c.now = .ok c.value
  /-- The reader keeps the name of every committed revision. -/
  named : ∀ c ∈ fs.committed, J.revision c.value ≤ lastNamedRevision
  /-- A committed snapshot is in the directory of its revision. -/
  directory : ∀ c ∈ fs.committed,
    fs.entries.lookup (.revision (revisionName (J.revision c.value))) = some (some c.value)
  /-- A revision directory holds a committed snapshot. -/
  entry : ∀ name, .revision name ∈ fs.entries →
    ∃ c ∈ fs.committed, name = revisionName (J.revision c.value)
  staging : ∀ name processId uuid, .reserve name processId uuid ∈ fs.entries → uuid < n
  projection : fs.projection ∈ fs.history base
  root : ∀ name, name ∈ fs.entries → fs.rootExists = true

namespace Fenced

variable {J : RecordType R P} {base : R} {n : ℕ} {fs : RecordFs R P}

theorem create : Fenced J base n (RecordFs.create base) where
  computed i c h := absurd h (by simp [RecordFs.create])
  named c h := absurd h List.not_mem_nil
  directory c h := absurd h List.not_mem_nil
  entry name h := absurd h (AList.notMem_empty _)
  staging name p u h := absurd h (AList.notMem_empty _)
  projection := List.mem_cons_self
  root name h := absurd h (AList.notMem_empty _)

theorem mono {m : ℕ} (h : Fenced J base n fs) (hnm : n ≤ m) : Fenced J base m fs :=
  { h with staging := fun name p u hu ↦ Nat.lt_of_lt_of_le (h.staging name p u hu) hnm }

/-- **Consecutive revisions**: the `i`-th snapshot from the creation on has revision `base + i`. -/
theorem revision_of_history (h : Fenced J base n fs) {i : ℕ} {v : R}
    (hv : (fs.history base)[i]? = some v) : J.revision v = J.revision base + i := by
  induction i generalizing v with
  | zero =>
    obtain rfl := Option.some.inj hv
    rfl
  | succ i ih =>
    obtain ⟨c, hc, rfl⟩ := history_succ.1 hv
    obtain ⟨previous, hprev, hup⟩ := h.computed i c hc
    rw [J.revision_updated hup, ih hprev, Nat.add_assoc]

theorem revision_of_committed (h : Fenced J base n fs) {i : ℕ} {c : Commit R P}
    (hc : fs.committed[i]? = some c) : J.revision c.value = J.revision base + i + 1 :=
  h.revision_of_history (history_succ.2 ⟨c, hc, rfl⟩)

/-- What the reader's listing yields: nothing before the first commit, afterwards the newest
revision. -/
theorem latestName_keys (h : Fenced J base n fs) :
    latestName (fs.entries.keys.map EntryName.text) =
      fs.committed.getLast?.map fun c ↦ revisionName (J.revision c.value) := by
  have hstaging : ∀ name p u, isRevisionName (EntryName.reserve name p u).text = false := by
    intro name p u
    simp [EntryName.text, isRevisionName, String.toList_append]
  obtain hnil | ⟨cs, c, hcs⟩ := List.eq_nil_or_concat fs.committed
  · rw [hnil]
    refine latestName_eq_none fun text htext ↦ ?_
    obtain ⟨name, hname, rfl⟩ := List.mem_map.1 htext
    cases name with
    | reserve name p u => exact hstaging name p u
    | revision name =>
      obtain ⟨c, hc, -⟩ := h.entry name hname
      rw [hnil] at hc
      exact absurd hc List.not_mem_nil
  · rw [List.concat_eq_append] at hcs
    have hlast : fs.committed[cs.length]? = some c := by
      rw [hcs]
      simp
    have hmem : c ∈ fs.committed := List.mem_of_getElem? hlast
    rw [hcs, List.getLast?_append_cons, List.getLast?_singleton, Option.map_some]
    refine latestName_eq_some (h.named c hmem) ?_ fun text htext hkept ↦ ?_
    · have hin := AList.lookup_isSome.1 (by rw [h.directory c hmem]; rfl)
      exact List.mem_map.2 ⟨_, hin, rfl⟩
    · obtain ⟨name, hname, rfl⟩ := List.mem_map.1 htext
      cases name with
      | reserve name p u => exact absurd hkept (by rw [hstaging]; simp)
      | revision name =>
        obtain ⟨d, hd, rfl⟩ := h.entry name hname
        obtain ⟨i, hi⟩ := List.getElem?_of_mem hd
        refine ⟨J.revision d.value, ?_, rfl⟩
        have hlt := (List.getElem?_eq_some_iff.1 hi).1
        rw [hcs, List.length_append, List.length_singleton] at hlt
        rw [h.revision_of_committed hi, h.revision_of_committed hlast]
        omega

/-! ### The steps that change the files -/

theorem makeRoot (h : Fenced J base n fs) : Fenced J base n { fs with rootExists := true } :=
  { h with root := fun _ _ ↦ rfl }

theorem mkdir (h : Fenced J base n fs) {name : String} {processId t : ℕ} (ht : t < n) :
    Fenced J base n (fs.mkdir (.reserve name processId t)).2 := by
  unfold RecordFs.mkdir
  split
  · exact h
  · split
    · exact h
    · rename_i hroot _
      refine { h with directory := ?_, entry := ?_, staging := ?_, root := ?_ }
      · intro c hc
        rw [AList.lookup_insert_ne (by simp)]
        exact h.directory c hc
      · intro name' hname'
        rw [AList.mem_insert] at hname'
        exact h.entry name' (hname'.resolve_left (by simp))
      · intro name' p u hu
        rw [AList.mem_insert, EntryName.reserve.injEq] at hu
        obtain ⟨-, -, rfl⟩ | hu := hu
        · exact ht
        · exact h.staging name' p u hu
      · intro _ _
        simpa using hroot

theorem publish_snapshot (h : Fenced J base n fs) {name : String} {processId t : ℕ} {value : R} :
    Fenced J base n (fs.publish value (.snapshot (.reserve name processId t))).2 := by
  simp only [RecordFs.publish]
  split
  · rename_i hin
    refine { h with directory := ?_, entry := ?_, staging := ?_, root := ?_ }
    · intro c hc
      rw [AList.lookup_insert_ne (by simp)]
      exact h.directory c hc
    · intro name' hname'
      rw [AList.mem_insert] at hname'
      exact h.entry name' (hname'.resolve_left (by simp))
    · intro name' p u hu
      rw [AList.mem_insert] at hu
      obtain heq | hu := hu
      · exact h.staging name' p u (heq ▸ hin)
      · exact h.staging name' p u hu
    · intro _ _
      exact h.root _ hin
  · exact h

theorem publish_projection (h : Fenced J base n fs) {value : R} (hv : value ∈ fs.history base) :
    Fenced J base n (fs.publish value .projection).2 := by
  show Fenced J base n { fs with projection := value }
  exact { h with projection := hv }

theorem remove (h : Fenced J base n fs) {name : String} {processId t : ℕ} :
    Fenced J base n (fs.remove (.reserve name processId t)) := by
  refine { h with directory := ?_, entry := ?_, staging := ?_, root := ?_ }
  · intro c hc
    show AList.lookup _ (fs.entries.erase _) = _
    rw [AList.lookup_erase_ne (by simp)]
    exact h.directory c hc
  · intro name' hname'
    exact h.entry name' (AList.mem_erase.1 hname').2
  · intro name' p u hu
    exact h.staging name' p u (AList.mem_erase.1 hu).2
  · intro name' hname'
    exact h.root name' (AList.mem_erase.1 hname').2

/-- What a rename of a staged snapshot does: nothing, or the commit. -/
theorem rename_cases {c : Commit R P} {name : String} {processId t : ℕ} (revision : String)
    (hstaged : ∀ content, fs.entries.lookup (.reserve name processId t) = some content →
      content = some c.value) :
    (∃ e, fs.rename c (.reserve name processId t) (.revision revision) = (.error e, fs)) ∨
    fs.entries.lookup (.reserve name processId t) = some (some c.value) ∧
      (∀ v, fs.entries.lookup (.revision revision) ≠ some (some v)) ∧
      fs.rename c (.reserve name processId t) (.revision revision) =
        (.ok (),
          { fs with
            entries := (fs.entries.erase (.reserve name processId t)).insert (.revision revision)
              (some c.value)
            committed := fs.committed ++ [c] }) := by
  unfold RecordFs.rename
  split
  · exact .inl ⟨_, rfl⟩
  · exact .inl ⟨_, rfl⟩
  · rename_i content hst hdir
    obtain rfl := hstaged content hst
    exact .inr ⟨hst, fun v hv ↦ hdir v hv, rfl⟩

/-- **The commit.** When the staged snapshot was computed from a snapshot of the history and the
directory of its revision is not there, that snapshot is the newest one. -/
theorem commit (h : Fenced J base n fs) {c : Commit R P} {name : String} {processId t i : ℕ}
    {current : R} (hcur : (fs.history base)[i]? = some current)
    (hup : J.updated current c.patch c.now = .ok c.value)
    (hnamed : J.revision current + 1 ≤ lastNamedRevision)
    (hstaging : fs.entries.lookup (.reserve name processId t) = some (some c.value))
    (hdir : ∀ v, fs.entries.lookup (.revision (revisionName (J.revision current + 1))) ≠
      some (some v)) :
    Fenced J base n
      { fs with
        entries := (fs.entries.erase (.reserve name processId t)).insert
          (.revision (revisionName (J.revision current + 1))) (some c.value)
        committed := fs.committed ++ [c] } := by
  have hrev : J.revision c.value = J.revision current + 1 := J.revision_updated hup
  have hlast : i = fs.committed.length := by
    have hle : i < fs.committed.length + 1 := by
      rw [← length_history base]
      exact (List.getElem?_eq_some_iff.1 hcur).1
    -- were there a later commit, its directory would carry the revision to be committed
    by_contra hne
    have hlt : i < fs.committed.length := by omega
    have hd := List.getElem?_eq_getElem hlt
    have hdrev : J.revision fs.committed[i].value = J.revision current + 1 := by
      rw [h.revision_of_committed hd, h.revision_of_history hcur]
    have hthere := h.directory _ (List.getElem_mem hlt)
    rw [hdrev] at hthere
    exact hdir _ hthere
  have hold : ∀ d ∈ fs.committed, J.revision d.value ≠ J.revision current + 1 := by
    intro d hd heq
    obtain ⟨j, hj⟩ := List.getElem?_of_mem hd
    have hjlt := (List.getElem?_eq_some_iff.1 hj).1
    rw [h.revision_of_committed hj, h.revision_of_history hcur] at heq
    omega
  have hroot := h.root _ (AList.lookup_isSome.1 (by rw [hstaging]; rfl))
  refine ⟨?_, ?_, ?_, ?_, ?_, ?_, ?_⟩
  · intro j d hd
    rw [history_append]
    by_cases hj : j < fs.committed.length
    · rw [List.getElem?_append_left hj] at hd
      obtain ⟨previous, hprev, hpup⟩ := h.computed j d hd
      have hjlt := (List.getElem?_eq_some_iff.1 hprev).1
      exact ⟨previous, by rw [List.getElem?_append_left hjlt, hprev], hpup⟩
    · have hjlt := (List.getElem?_eq_some_iff.1 hd).1
      rw [List.length_append, List.length_singleton] at hjlt
      obtain rfl : j = fs.committed.length := by omega
      rw [List.getElem?_concat_length] at hd
      obtain rfl := Option.some.inj hd
      refine ⟨current, ?_, hup⟩
      rw [List.getElem?_append_left (by rw [length_history]; omega), ← hlast, hcur]
  · intro d hd
    obtain hd | hd := List.mem_append.1 hd
    · exact h.named d hd
    · obtain rfl := List.mem_singleton.1 hd
      rw [hrev]
      exact hnamed
  · intro d hd
    obtain hd | hd := List.mem_append.1 hd
    · show AList.lookup _ (AList.insert _ _ (fs.entries.erase _)) = _
      rw [AList.lookup_insert_ne, AList.lookup_erase_ne (by simp)]
      · exact h.directory d hd
      · intro heq
        exact hold d hd (revisionName_injective (EntryName.revision.inj heq))
    · obtain rfl := List.mem_singleton.1 hd
      show AList.lookup _ (AList.insert _ _ (fs.entries.erase _)) = _
      rw [hrev, AList.lookup_insert]
  · intro name' hname'
    obtain heq | hname' := (AList.mem_insert _).1 hname'
    · exact ⟨c, by simp, by rw [hrev]; exact EntryName.revision.inj heq⟩
    · obtain ⟨d, hd, rfl⟩ := h.entry name' (AList.mem_erase.1 hname').2
      exact ⟨d, List.mem_append_left _ hd, rfl⟩
  · intro name' p u hu
    have hu' := ((AList.mem_insert _).1 hu).resolve_left (by simp)
    exact h.staging name' p u (AList.mem_erase.1 hu').2
  · rw [history_append]
    exact List.mem_append_left _ h.projection
  · intro _ _
    exact hroot

end Fenced

end RecordFs

/-! ### What readers and writers rely on -/

open RecordFs

/-- The runs whose commits have a revision the reader can name. -/
def namedCommits : ℕ → ℕ → RecordStep → RecordFs R P → Prop :=
  fun _ _ l _ ↦ ∀ revision, l = .commit revision → revision ≤ lastNamedRevision

/-- Nobody takes a commit back, and nobody touches the staging directory of another call. -/
def recordProtocol (J : RecordType R P) (base : R) :
    Protocol RecordStep (RecordFs R P) (RecordCall R P) ℕ where
  inv := Fenced J base
  rely _ t fs fs' := fs.committed <+: fs'.committed ∧ ∀ name processId,
    fs'.entries.lookup (.reserve name processId t) = fs.entries.lookup (.reserve name processId t)
  guar _ t _ fs fs' := fs.committed <+: fs'.committed ∧ ∀ name processId uuid, uuid ≠ t →
    fs'.entries.lookup (.reserve name processId uuid) =
      fs.entries.lookup (.reserve name processId uuid)
  ok := namedCommits
  pre _ _ _ _ := False

section Operations

variable {J : RecordType R P} {base : R} {p t : ℕ} {fs : RecordFs R P}

theorem lookup_insert_reserve {entries : AList fun _ : EntryName ↦ Option R} {name name' : String}
    {processId processId' uuid : ℕ} {content : Option R} (h : uuid ≠ t) :
    (entries.insert (.reserve name processId t) content).lookup (.reserve name' processId' uuid) =
      entries.lookup (.reserve name' processId' uuid) :=
  AList.lookup_insert_ne fun heq ↦ h (EntryName.reserve.inj heq).2.2

theorem recordProtocol_guar_refl (n : ℕ) (fs : RecordFs R P) :
    (recordProtocol J base).guar p t n fs fs :=
  ⟨List.prefix_rfl, fun _ _ _ _ ↦ rfl⟩

theorem mkdir_committed {directory : EntryName} :
    (fs.mkdir directory).2.committed = fs.committed := by
  unfold RecordFs.mkdir
  split
  · rfl
  · split <;> rfl

theorem guar_mkdir {n processId : ℕ} {name : String} :
    (recordProtocol J base).guar p t n fs (fs.mkdir (.reserve name processId t)).2 := by
  unfold RecordFs.mkdir
  split
  · exact recordProtocol_guar_refl _ _
  · split
    · exact recordProtocol_guar_refl _ _
    · exact ⟨List.prefix_rfl, fun _ _ _ huuid ↦ lookup_insert_reserve huuid⟩

theorem guar_publish_snapshot {n processId : ℕ} {name : String} {value : R} :
    (recordProtocol J base).guar p t n fs
      (fs.publish value (.snapshot (.reserve name processId t))).2 := by
  simp only [RecordFs.publish]
  split
  · exact ⟨List.prefix_rfl, fun _ _ _ huuid ↦ lookup_insert_reserve huuid⟩
  · exact recordProtocol_guar_refl _ _

theorem guar_remove {n processId : ℕ} {name : String} :
    (recordProtocol J base).guar p t n fs (fs.remove (.reserve name processId t)) :=
  ⟨List.prefix_rfl, fun _ _ _ huuid ↦
    AList.lookup_erase_ne fun heq ↦ huuid (EntryName.reserve.inj heq).2.2⟩

theorem guar_commit {n processId : ℕ} {name revision : String} {c : Commit R P} :
    (recordProtocol J base).guar p t n fs
      { fs with
        entries := (fs.entries.erase (.reserve name processId t)).insert (.revision revision)
          (some c.value)
        committed := fs.committed ++ [c] } := by
  refine ⟨List.prefix_append _ _, fun name' processId' uuid huuid ↦ ?_⟩
  show AList.lookup _ (AList.insert _ _ (fs.entries.erase _)) = _
  rw [AList.lookup_insert_ne (by simp),
    AList.lookup_erase_ne fun heq ↦ huuid (EntryName.reserve.inj heq).2.2]

/-- The history only grows under a call's own steps and under everybody else's. -/
theorem safe_history {A : Type} {Q : Except RuntimeError A → RecordFs R P → Prop}
    {prog : RecordProg R P A} (h : (recordProtocol J base).Safe p t Q prog fs) :
    (recordProtocol J base).Safe p t (fun r fs' ↦ Q r fs' ∧ fs.committed <+: fs'.committed)
      prog fs :=
  h.stable (fun _ _ hr hJ ↦ hJ.trans hr.1) (fun _ _ _ hg hJ ↦ hJ.trans hg.1) List.prefix_rfl

/-- Writing into the own staging directory leaves the snapshot there. -/
theorem safe_writeSnapshot {name : String} {processId : ℕ} {value : R} :
    (recordProtocol J base).Safe p t
      (fun r fs' ↦ ∀ u, r = .ok u →
        fs'.entries.lookup (.reserve name processId t) = some (some value))
      (writeJsonAtomic (.snapshot (.reserve name processId t)) value) fs := by
  unfold writeJsonAtomic
  simp only [bind_eq]
  refine safe_read_bind recordProtocol_guar_refl fun s₁ n₁ _ _ _ _ ↦
    ⟨fun _ _ ↦ ?_, fun _ _ _ h ↦ nomatch h⟩
  refine safe_read_bind recordProtocol_guar_refl fun s₂ n₂ _ _ _ _ ↦
    ⟨fun _ _ ↦ ?_, fun _ _ _ h ↦ nomatch h⟩
  refine safe_atomic fun s₃ n₃ _ hinv _ _ ↦ ⟨hinv.publish_snapshot, guar_publish_snapshot, ?_⟩
  · simp only [RecordFs.publish]
    split
    · intro _ _
      exact AList.lookup_insert _
    · intro _ h
      exact nomatch h

/-- Replacing the projection by a snapshot of the history. -/
theorem safe_writeProjection {value : R} (hv : value ∈ fs.history base) :
    (recordProtocol J base).Safe p t (fun _ _ ↦ True) (writeJsonAtomic .projection value) fs := by
  unfold writeJsonAtomic
  simp only [bind_eq]
  refine safe_read_bind recordProtocol_guar_refl fun s₁ n₁ _ _ hr₁ _ ↦
    ⟨fun _ _ ↦ ?_, fun _ _ ↦ trivial⟩
  refine safe_read_bind recordProtocol_guar_refl fun s₂ n₂ _ _ hr₂ _ ↦
    ⟨fun _ _ ↦ ?_, fun _ _ ↦ trivial⟩
  refine safe_atomic fun s₃ n₃ _ hinv hr₃ _ ↦ ⟨?_, ?_, trivial⟩
  · have hpre := (hr₁.1.trans hr₂.1).trans hr₃.1
    exact hinv.publish_projection ((history_isPrefix hpre).subset hv)
  · exact ⟨List.prefix_rfl, fun _ _ _ _ ↦ rfl⟩

theorem safe_transitionFailpoint {failpoint : TransitionFailpointName → Option String}
    {point : TransitionFailpointName} :
    (recordProtocol J base).Safe p t (fun _ _ ↦ True) (transitionFailpoint failpoint point) fs :=
  safe_atomic (f := fun fs ↦ (_, fs)) fun _ _ _ hinv _ _ ↦
    ⟨hinv, recordProtocol_guar_refl _ _, trivial⟩

/-- **What a commit does**: if it returns, the history has it. It needs only that the committed
snapshot was computed from *some* snapshot of the history. -/
theorem safe_commitTransition {processId i : ℕ} {current : R} {c : Commit R P}
    {failpoint : TransitionFailpointName → Option String}
    (hcur : (fs.history base)[i]? = some current)
    (hup : J.updated current c.patch c.now = .ok c.value) :
    (recordProtocol J base).Safe p t (fun r fs' ↦ ∀ u, r = .ok u → c ∈ fs'.committed)
      (commitTransition J processId t (J.revision current) c failpoint) fs := by
  unfold commitTransition
  simp only [bind_eq, throw_eq, tryCatch_eq]
  refine safe_modify_bind fun s₁ n₁ _ hinv₁ hr₁ _ ↦ 
    ⟨hinv₁.makeRoot, ⟨List.prefix_rfl, fun _ _ _ _ ↦ rfl⟩, ?_⟩
  refine safe_atomic_bind fun s₂ n₂ ht hinv₂ hr₂ _ ↦
    ⟨hinv₂.mkdir ht, guar_mkdir, fun _ _ ↦ ?_, fun _ _ _ h ↦ nomatch h⟩
  refine Safe.bind (R := fun r fs' ↦ ∀ u, r = .ok u → c ∈ fs'.committed) ?_ ?_ ?_
  · refine Safe.catching (R := fun r fs' ↦ ∀ u, r = .ok u → c ∈ fs'.committed) ?_
      (fun _ _ h ↦ h) fun e s _ ↦ ?_
    · refine (safe_history safe_writeSnapshot).bind (fun _ s₃ h₃ ↦ ?_) fun _ _ _ _ h ↦ nomatch h
      refine safe_atomic fun s₄ n₄ _ hinv₄ hr₄ hok ↦ ?_
      have hstaged : s₄.entries.lookup (.reserve (revisionName (J.revision current + 1))
          processId t) = some (some c.value) := by
        rw [hr₄.2]
        exact h₃.1 _ rfl
      have hpre := (hr₁.1.trans hr₂.1).trans (mkdir_committed ▸ h₃.2.trans hr₄.1)
      obtain ⟨e, he⟩ | ⟨-, hdir, heq⟩ := Fenced.rename_cases
        (revisionName (J.revision current + 1))
        fun content hc ↦ Option.some.inj (hc.symm.trans hstaged)
      · rw [he]
        exact ⟨hinv₄, recordProtocol_guar_refl _ _, fun _ h ↦ nomatch h⟩
      · rw [heq]
        refine ⟨?_, guar_commit, fun _ _ ↦ List.mem_append_right _ (List.mem_singleton_self c)⟩
        exact Fenced.commit hinv₄ (history_getElem?_mono hpre hcur) hup (hok _ rfl) hstaged hdir
    · refine safe_modify_bind fun s₃ n₃ _ hinv₃ _ _ ↦ ⟨hinv₃.remove, guar_remove, ?_⟩
      split
      · exact fun _ h ↦ nomatch h
      · exact fun _ h ↦ nomatch h
  · -- the snapshot is in the history: what remains cannot take it out
    intro _ s₃ hc
    have hmem := hc _ rfl
    refine (safe_history (Q := fun _ _ ↦ True) ?_).mono fun r s h _ _ ↦ h.2.subset hmem
    refine (safe_history safe_transitionFailpoint).bind (fun _ s₄ h₄ ↦ ?_) fun _ _ _ ↦ trivial
    refine (safe_history safe_transitionFailpoint).bind (fun _ s₅ h₅ ↦ ?_) fun _ _ _ ↦ trivial
    have hv : c.value ∈ s₅.history base :=
      List.mem_cons_of_mem _ (List.mem_map_of_mem ((h₄.2.trans h₅.2).subset hmem))
    exact (safe_writeProjection hv).bind (fun _ _ _ ↦ safe_transitionFailpoint)
      fun _ _ _ ↦ trivial
  · intro e s _ u h
    exact nomatch h

/-- **What a read does**: it returns a snapshot of the history, not older than the newest one when
it was called. -/
theorem safe_readRecord : (recordProtocol J base).Safe p t
    (fun r fs' ↦ ∃ i v, r = .ok v ∧ (fs'.history base)[i]? = some v ∧ fs.committed.length ≤ i)
    (readRecord J) fs := by
  unfold readRecord readLatestTransition
  simp only [bind_eq, pure_eq, throw_eq]
  refine safe_read_bind recordProtocol_guar_refl fun s₁ n₁ _ hinv₁ hr₁ _ ↦
    ⟨fun projection hproj ↦ ?_, fun _ h ↦ nomatch h⟩
  obtain rfl := Except.ok.inj hproj
  obtain ⟨j, hj⟩ := List.getElem?_of_mem hinv₁.projection
  have hjlt := (List.getElem?_eq_some_iff.1 hj).1
  rw [length_history] at hjlt
  -- the listing decides which snapshot is returned
  refine Safe.bind (R := fun r fs' ↦ ∃ i, fs.committed.length ≤ i ∧
    ((r = .ok none ∧ (fs'.history base)[i]? = some s₁.projection) ∨
      ∃ v, r = .ok (some v) ∧ (fs'.history base)[i]? = some v ∧
        J.revision s₁.projection ≤ J.revision v)) ?_ ?_ ?_
  · refine safe_read_bind recordProtocol_guar_refl fun s₂ n₂ _ hinv₂ hr₂ _ ↦
      ⟨fun latest hlatest ↦ ?_, fun _ h ↦ nomatch h⟩
    have hle₁ := hr₁.1.length_le
    have hle₂ := hr₂.1.length_le
    obtain hnil | ⟨cs, c, hcs⟩ := List.eq_nil_or_concat s₂.committed
    · have hnone : latest = none := by
        rw [hinv₂.latestName_keys, hnil] at hlatest
        simpa using (Except.ok.inj hlatest).symm
      subst hnone
      rw [hnil, List.length_nil] at hle₂
      refine ⟨0, by omega, .inl ⟨rfl, ?_⟩⟩
      obtain rfl : j = 0 := by omega
      exact history_getElem?_mono hr₂.1 hj
    · rw [List.concat_eq_append] at hcs
      have hlast : s₂.committed[cs.length]? = some c := by
        rw [hcs]
        simp
      have hmem : c ∈ s₂.committed := List.mem_of_getElem? hlast
      have hroot : s₂.rootExists = true :=
        hinv₂.root _ (AList.lookup_isSome.1 (by rw [hinv₂.directory c hmem]; rfl))
      have hsome : latest = some (revisionName (J.revision c.value)) := by
        rw [if_pos hroot, hinv₂.latestName_keys, hcs, List.getLast?_append_cons,
          List.getLast?_singleton, Option.map_some] at hlatest
        exact (Except.ok.inj hlatest).symm
      subst hsome
      have hlen : s₂.committed.length = cs.length + 1 := by
        rw [hcs, List.length_append, List.length_singleton]
      -- the directory of a committed revision stays as it is
      refine safe_atomic (f := fun fs ↦ (_, fs)) fun s₃ n₃ _ hinv₃ hr₃ _ ↦
        ⟨hinv₃, recordProtocol_guar_refl _ _, cs.length + 1, by omega, .inr ⟨c.value, ?_, ?_, ?_⟩⟩
      · dsimp only
        rw [hinv₃.directory c (hr₃.1.subset hmem)]
        simp
      · exact history_getElem?_mono hr₃.1 (history_succ.2 ⟨c, hlast, rfl⟩)
      · rw [hinv₂.revision_of_committed hlast, hinv₁.revision_of_history hj]
        omega
  · rintro latest s₃ ⟨i, hi, ⟨heq, hv⟩ | ⟨v, heq, hv, hle⟩⟩
    · obtain rfl := Except.ok.inj heq
      exact ⟨i, _, rfl, hv, hi⟩
    · obtain rfl := Except.ok.inj heq
      dsimp only
      rw [if_neg (not_lt.2 hle)]
      exact ⟨i, v, rfl, hv, hi⟩
  · rintro e s₃ ⟨i, hi, ⟨heq, -⟩ | ⟨v, heq, -⟩⟩
    · exact nomatch heq
    · exact nomatch heq

/-- **What an update does**: if it returns a snapshot, it committed it; if it throws, some check of
it failed, or somebody else committed the revision first. -/
theorem safe_updateRecord [DecidableEq R] {processId : ℕ} {expected : R} {patch : P}
    {now : Timestamp} {failpoint : TransitionFailpointName → Option String} :
    (recordProtocol J base).Safe p t
      (fun r fs' ↦ ∀ v, r = .ok v → ⟨t, patch, now, v⟩ ∈ fs'.committed)
      (updateRecord J processId t expected patch now failpoint) fs := by
  unfold updateRecord
  simp only [bind_eq, throw_eq, pure_eq]
  refine Safe.bind safe_readRecord ?_ fun _ _ _ _ h ↦ nomatch h
  rintro current s₁ ⟨i, v, heq, hv, -⟩
  obtain rfl := Except.ok.inj heq
  split
  · exact fun _ h ↦ nomatch h
  · match hup : J.updated current patch now with
    | .error e => exact fun _ h ↦ nomatch h
    | .ok value =>
      refine (safe_commitTransition hv hup).bind (fun u s₂ h₂ ↦ ?_) fun _ _ _ _ h ↦ nomatch h
      intro v heq
      obtain rfl := Except.ok.inj heq
      exact h₂ u rfl

/-! ### Every run -/

/-- What a finished call leaves behind: what it returned is a snapshot of the history. -/
def RecordPost (base : R) (r : Except RuntimeError R) (fs : RecordFs R P) : Prop :=
  ∀ v, r = .ok v → v ∈ fs.history base

theorem RecordPost.mono {r : Except RuntimeError R} {fs' : RecordFs R P}
    (h : RecordPost base r fs) (hpre : fs.committed <+: fs'.committed) :
    RecordPost base r fs' :=
  fun v hv ↦ (history_isPrefix hpre).subset (h v hv)

/-- Readers and writers keep the protocol. -/
theorem recordProtocol_sound [DecidableEq R] (J : RecordType R P) (base : R) :
    (recordProtocol J base).Sound (recordSystem J) fun _ ↦ RecordPost base where
  inv_mono hnm h := h.mono hnm
  rely_refl := ⟨List.prefix_rfl, fun _ _ ↦ rfl⟩
  rely_trans h₁ h₂ := ⟨h₁.1.trans h₂.1, fun name p ↦ (h₂.2 name p).trans (h₁.2 name p)⟩
  guar_rely hne _ _ _ hg := ⟨hg.1, fun name p ↦ hg.2 name p _ (Ne.symm hne)⟩
  post_stable _ _ _ _ _ hr h := h.mono hr.1
  call {p t k fs} _ _ := by
    match k with
    | .read =>
      refine Safe.mono safe_readRecord fun r fs' h v hv ↦ ?_
      obtain ⟨i, v', heq, hi, -⟩ := h
      obtain rfl := Except.ok.inj (hv.symm.trans heq)
      exact List.mem_of_getElem? hi
    | .update expected patch now failpoint =>
      refine Safe.mono safe_updateRecord fun r fs' h v hv ↦ ?_
      exact List.mem_cons_of_mem _ (List.mem_map.2 ⟨_, h v hv, rfl⟩)
  fork _ _ h := h.elim
  crash_inv h := h
  crash_rely _ _ := ⟨List.prefix_rfl, fun _ _ ↦ rfl⟩

end Operations

end CodeConductor
