import CodeConductor.Launch.Steps
import CodeConductor.Lineage.Contributions

/-!
# Lineages are closed under ancestry

An attempt records the lineage it was reserved with, and later only whether that lineage could be
composed. So the lineages in a store were built over earlier states of the store, and each of them
lists the ancestors of an attempt, oldest first. Building one more keeps it that way.
-/

namespace CodeConductor

open Async Async.Prog DepthFirst Conductor

/-! ### Stores -/

/-- The attempts of a store go on: they keep the lineage they have, and a lineage that is composed
was built. -/
structure Continues (built : List ProposalLineage) (w w' : World) : Prop where
  /-- A stored attempt stays; one without a lineage gets none, a composed lineage keeps its
  contributions. -/
  kept : ∀ id m, w.attempt? id = some m → ∃ m', w'.attempt? id = some m' ∧
    (m.lineage = none → m'.lineage = none) ∧
    ∀ lineage, m.lineage = some lineage → lineage.status = .composed →
      ∃ lineage', m'.lineage = some lineage' ∧ lineage'.status = .composed ∧
        lineage'.contributions = lineage.contributions
  attemptId : ∀ id m', w'.attempt? id = some m' → m'.attemptId = id
  /-- A composed lineage was composed before, or it is one of those that were built. -/
  composed : ∀ id m', w'.attempt? id = some m' → ∀ lineage', m'.lineage = some lineage' →
    lineage'.status = .composed →
      (∃ m lineage, w.attempt? id = some m ∧ m.lineage = some lineage ∧
        lineage.status = .composed) ∨
      ∃ lineage ∈ built, lineage'.contributions = lineage.contributions

/-- A store, and the lineages that were built over it so far. -/
structure LineageStore where
  world : World
  built : List ProposalLineage := []

section Continuing

variable {built : List ProposalLineage} {w : World}

/-- A reservation records a lineage that was built, if any. -/
theorem Continues.createAttempt {manifest : AttemptManifest}
    (hid : ∀ id m, w.attempt? id = some m → m.attemptId = id)
    (hnew : w.attempts manifest.attemptId = [])
    (hlineage : ∀ lineage, manifest.lineage = some lineage → lineage ∈ built) :
    Continues built w (w.createAttempt manifest) where
  kept id m hm := by
    have hne := World.ne_of_attempt? hnew hm
    exact ⟨m, (World.createAttempt_attempt?_of_ne hne).trans hm, fun h ↦ h,
      fun lineage heq hcomposed ↦ ⟨lineage, heq, hcomposed, rfl⟩⟩
  attemptId id m' hm' := by
    by_cases hsame : id = manifest.attemptId
    · subst hsame
      obtain rfl : manifest = m' := by simpa [World.createAttempt, World.attempt?] using hm'
      rfl
    · exact hid id m' ((World.createAttempt_attempt?_of_ne hsame).symm.trans hm')
  composed id m' hm' lineage' hlineage' hcomposed := by
    by_cases hsame : id = manifest.attemptId
    · subst hsame
      obtain rfl : manifest = m' := by simpa [World.createAttempt, World.attempt?] using hm'
      exact .inr ⟨lineage', hlineage lineage' hlineage', rfl⟩
    · have hm := (World.createAttempt_attempt?_of_ne hsame).symm.trans hm'
      exact .inl ⟨m', lineage', hm, hlineage', hcomposed⟩

/-- A commit that keeps the lineage, or records what became of composing one that was built. -/
theorem Continues.pushAttempt {thread : ℕ} {current updated : AttemptManifest}
    (hid : ∀ id m, w.attempt? id = some m → m.attemptId = id)
    (hcurrent : w.attempt? current.attemptId = some current)
    (hsame : updated.attemptId = current.attemptId)
    (hlineage : updated.lineage = current.lineage ∨ ∃ lineage lineage',
      current.lineage = some lineage ∧ lineage.status ≠ .composed ∧ lineage ∈ built ∧
        updated.lineage = some lineage' ∧ lineage'.contributions = lineage.contributions) :
    Continues built w (w.pushAttempt thread current updated) where
  kept id m hm := by
    by_cases hcase : id = current.attemptId
    · subst hcase
      obtain rfl := Option.some.inj (hcurrent.symm.trans hm)
      refine ⟨updated, World.pushAttempt_attempt?_self, ?_⟩
      obtain heq | ⟨lineage, lineage', hbefore, hpending, -, -, -⟩ := hlineage
      · rw [heq]
        exact ⟨id, fun lineage h hcomposed ↦ ⟨lineage, h, hcomposed, rfl⟩⟩
      · rw [hbefore]
        exact ⟨nofun, fun _ h hcomposed ↦ absurd (Option.some.inj h ▸ hcomposed) hpending⟩
    · exact ⟨m, (World.pushAttempt_attempt?_of_ne hcase).trans hm, fun h ↦ h,
        fun lineage h hcomposed ↦ ⟨lineage, h, hcomposed, rfl⟩⟩
  attemptId id m' hm' := by
    by_cases hcase : id = current.attemptId
    · subst hcase
      obtain rfl := Option.some.inj (World.pushAttempt_attempt?_self.symm.trans hm')
      exact hsame
    · exact hid id m' ((World.pushAttempt_attempt?_of_ne hcase).symm.trans hm')
  composed id m' hm' lineage'' hlineage'' hcomposed := by
    by_cases hcase : id = current.attemptId
    · subst hcase
      obtain rfl := Option.some.inj (World.pushAttempt_attempt?_self.symm.trans hm')
      obtain heq | ⟨lineage, lineage', -, -, hbuilt, hafter, hcontributions⟩ := hlineage
      · exact .inl ⟨current, lineage'', hcurrent, heq ▸ hlineage'', hcomposed⟩
      · obtain rfl := Option.some.inj (hafter.symm.trans hlineage'')
        exact .inr ⟨lineage, hbuilt, hcontributions⟩
    · have hm := (World.pushAttempt_attempt?_of_ne hcase).symm.trans hm'
      exact .inl ⟨m', lineage'', hm, hlineage'', hcomposed⟩

end Continuing

namespace LineageStore

/-- One step of a store. -/
inductive Step : LineageStore → LineageStore → Prop
  | build {s : LineageStore} {contract : JobContract} {parents : List AttemptId}
    {lineage : ProposalLineage} :
    (buildProposalLineage contract parents).observe s.world = .ok lineage →
      Step s { s with built := lineage :: s.built }
  | change {s : LineageStore} {w : World} : Continues s.built s.world w →
      Step s { s with world := w }

/-- The stores whose recorded composed lineages were themselves built by `buildProposalLineage`. -/
inductive Reachable : LineageStore → Prop
  | empty {w : World} : (∀ id, w.attempt? id = none) → Reachable ⟨w, []⟩
  | step {s s' : LineageStore} : Reachable s → Step s s' → Reachable s'

end LineageStore

/-! ### The claim of a lineage -/

/-- What a lineage promises of its contributions. -/
structure LineageClosed (w : World) (contract : JobContract) (parents : List AttemptId)
    (lineage : ProposalLineage) : Prop where
  once : (lineage.contributions.map ProposalContribution.attemptId).Nodup
  direct : ∀ id ∈ parents, ∃ c ∈ lineage.contributions, c.attemptId = id
  inherited : ∀ id ∈ parents, ∀ m, w.attempt? id = some m → ∀ recorded,
    m.lineage = some recorded → recorded.contributions ⊆ lineage.contributions
  /-- An attempt comes after the contributions of its own lineage. -/
  ordered : ∀ before c after, lineage.contributions = before ++ c :: after →
    ∀ m, w.attempt? c.attemptId = some m → ∀ recorded, m.lineage = some recorded →
      recorded.contributions ⊆ before
  /-- All come from the repository and the revision of the child. -/
  origin : ∀ c ∈ lineage.contributions, c.sourceBaseRevision = contract.baseRevision ∧
    ∃ parentContract, w.contract? c.jobId = some parentContract ∧
      parentContract.repositoryRoot = contract.repositoryRoot ∧
      parentContract.baseRevision = contract.baseRevision
  fresh : ∀ c ∈ lineage.contributions, FreshBinding w contract c
  count : lineage.contributions.length ≤ contract.resources.maxLineageContributions
  bytes : (lineage.contributions.map ProposalContribution.patchBytes).sum ≤
    contract.resources.maxArtifactBytes

/-- The attempt `id` binds `c`: the contribution is in its lineage, or is its own binding. -/
def BindsContribution (w : World) (contract : JobContract) (id : AttemptId) (c : ProposalContribution) : Prop :=
  ∃ m, w.attempt? id = some m ∧
    ((∃ recorded, m.lineage = some recorded ∧ c ∈ recorded.contributions) ∨
      (bindProposalContribution contract m).observe w = .ok c)

/-- **Lineage closure.** Over every store whose composed lineages were built, a lineage that is
returned is closed, and none is returned where two parents bind an attempt differently. -/
def LineageClosure : Prop :=
  ∀ s, LineageStore.Reachable s → ∀ contract parents,
    (∀ lineage, (buildProposalLineage contract parents).observe s.world = .ok lineage →
      LineageClosed s.world contract parents lineage) ∧
    ∀ id ∈ parents, ∀ id' ∈ parents, ∀ c c', BindsContribution s.world contract id c →
      BindsContribution s.world contract id' c' → c.attemptId = c'.attemptId → c ≠ c' →
        ∃ e, (buildProposalLineage contract parents).observe s.world = .error e

/-! ### Stores keep the order of their lineages -/

/-- What a settled attempt records does not change. -/
theorem Continues.settled {built : List ProposalLineage} {w w' : World}
    (h : Continues built w w') {c : ProposalContribution} (hc : SettledLineage w c) :
    SettledLineage w' c ∧ ownContributions w' c = ownContributions w c := by
  obtain ⟨m, hm, hcomposed⟩ := hc
  obtain ⟨m', hm', hnone, hkept⟩ := h.kept _ m hm
  rw [SettledLineage, ownContributions, ownContributions, hm, hm', Option.bind_some,
    Option.bind_some]
  cases hlineage : m.lineage with
  | none =>
    rw [hnone hlineage]
    refine ⟨⟨m', rfl, fun _ heq ↦ ?_⟩, rfl⟩
    rw [hnone hlineage] at heq
    cases heq
  | some lineage =>
    obtain ⟨lineage', hlineage', hstatus, hsame⟩ := hkept lineage hlineage (hcomposed _ hlineage)
    rw [hlineage']
    refine ⟨⟨m', rfl, fun _ heq ↦ ?_⟩, hsame⟩
    obtain rfl := Option.some.inj (hlineage'.symm.trans heq)
    exact hstatus

/-- An order depends on what the entries of the list need. -/
theorem ordered_congr {needs needs' : ProposalContribution → List ProposalContribution}
    {l : List ProposalContribution} (h : ∀ c ∈ l, needs' c = needs c) (hl : Ordered needs l) :
    Ordered needs' l := by
  induction l with
  | nil => exact trivial
  | cons c rest ih =>
    obtain ⟨hc, hneeds, hrest⟩ := hl
    refine ⟨hc, ?_, ih (fun d hd ↦ h d (List.mem_cons_of_mem _ hd)) hrest⟩
    rw [h c List.mem_cons_self]
    exact hneeds

theorem Continues.inOrder {built : List ProposalLineage} {w w' : World}
    (h : Continues built w w') {contributions : List ProposalContribution}
    (hin : InOrder w contributions) : InOrder w' contributions where
  ordered := ordered_congr
    (fun c hc ↦ (h.settled (hin.settled c (List.mem_reverse.1 hc))).2) hin.ordered
  settled c hc := (h.settled (hin.settled c hc)).1

/-- What every store keeps: recorded lineages and those just built are in order. -/
structure LineageStore.Inv (s : LineageStore) : Prop where
  recorded : Recorded s.world
  built : ∀ lineage ∈ s.built, InOrder s.world lineage.contributions

/-- The contributions of a lineage that is built are in order. -/
theorem Conductor.Built.inOrder {w : World} {contract : JobContract} {parents : List AttemptId}
    {lineage : ProposalLineage} (h : Built w contract parents lineage) :
    InOrder w lineage.contributions where
  ordered := h.grown.ordered trivial
  settled := h.grown.good fun _ hc ↦ absurd hc List.not_mem_nil

theorem LineageStore.Inv.step {s s' : LineageStore} (h : s.Inv) (hstep : s.Step s') : s'.Inv := by
  cases hstep with
  | build hbuild =>
    refine ⟨h.recorded, List.forall_mem_cons.2 ⟨?_, h.built⟩⟩
    exact (built_of_buildProposalLineage h.recorded hbuild).inOrder
  | change hchange =>
    refine ⟨⟨hchange.attemptId, fun id m' hm' lineage' hlineage' hcomposed ↦ ?_⟩,
      fun lineage hl ↦ hchange.inOrder (h.built lineage hl)⟩
    obtain ⟨m, lineage, hm, hlineage, hbefore⟩ | ⟨lineage, hl, hsame⟩ :=
      hchange.composed id m' hm' lineage' hlineage' hcomposed
    · -- a lineage that was composed has kept its contributions
      obtain ⟨m'', hm'', -, hkept⟩ := hchange.kept id m hm
      obtain rfl := Option.some.inj (hm''.symm.trans hm')
      obtain ⟨lineage'', hlineage'', -, hsame⟩ := hkept lineage hlineage hbefore
      obtain rfl := Option.some.inj (hlineage''.symm.trans hlineage')
      rw [hsame]
      exact hchange.inOrder (h.recorded.inOrder id m hm lineage hlineage hbefore)
    · rw [hsame]
      exact hchange.inOrder (h.built lineage hl)

theorem LineageStore.Reachable.inv {s : LineageStore} (h : s.Reachable) : s.Inv := by
  induction h with
  | @empty w hempty =>
    have hnone {id : AttemptId} {m : AttemptManifest} : w.attempt? id ≠ some m :=
      fun hm ↦ nomatch (hempty id).symm.trans hm
    exact ⟨⟨fun _ _ hm ↦ absurd hm hnone, fun _ _ hm ↦ absurd hm hnone⟩,
      fun _ hl ↦ absurd hl List.not_mem_nil⟩
  | step _ hstep ih => exact ih.step hstep

/-! ### Closure -/

theorem lineageClosed_of_built {w : World} (hw : Recorded w) {contract : JobContract}
    {parents : List AttemptId} {lineage : ProposalLineage}
    (h : Built w contract parents lineage) : LineageClosed w contract parents lineage where
  once := h.grown.once List.nodup_nil
  direct id hid := by
    obtain ⟨parent, hparent, hcontributed⟩ := h.contributed id hid
    obtain ⟨c, hc, hbind⟩ := hcontributed.bound
    have hattempt : c.attemptId = parent.attemptId :=
      (boundTo_of_bindProposalContribution hbind).attemptId
    exact ⟨c, hc, hattempt.trans (hw.attemptId id parent hparent)⟩
  inherited id hid m hm recorded hrecorded := by
    obtain ⟨parent, hparent, hcontributed⟩ := h.contributed id hid
    obtain rfl := Option.some.inj (hparent.symm.trans hm)
    exact hcontributed.inherited recorded hrecorded
  ordered before c after hsplit m hm recorded hrecorded := by
    have hneeds : ownContributions w c ⊆ before :=
      needs_subset_of_ordered (hsplit ▸ h.inOrder.ordered)
    rwa [ownContributions, hm, Option.bind_some, hrecorded] at hneeds
  origin c hc := by
    obtain ⟨m, hm, hbind⟩ := h.fresh c hc
    obtain ⟨-, hjob, parentContract, hcontract, hroot, hrevision, hsource⟩ :=
      boundTo_of_bindProposalContribution hbind
    exact ⟨hsource.trans hrevision, parentContract, hjob ▸ hcontract, hroot, hrevision⟩
  fresh := h.fresh
  count := h.count
  bytes := h.bytes

/-- What a parent binds is in the lineage. -/
theorem mem_of_bindsContribution {w : World} {contract : JobContract} {parents : List AttemptId}
    {lineage : ProposalLineage} (h : Built w contract parents lineage) {id : AttemptId}
    (hid : id ∈ parents) {c : ProposalContribution} (hc : BindsContribution w contract id c) :
    c ∈ lineage.contributions := by
  obtain ⟨m, hm, hbinds⟩ := hc
  obtain ⟨parent, hparent, hcontributed⟩ := h.contributed id hid
  obtain rfl := Option.some.inj (hparent.symm.trans hm)
  rcases hbinds with ⟨recorded, hrecorded, hmem⟩ | hbind
  · exact hcontributed.inherited recorded hrecorded hmem
  · obtain ⟨d, hd, hbind'⟩ := hcontributed.bound
    obtain rfl := Except.ok.inj (hbind.symm.trans hbind')
    exact hd

/-- **A lineage that is returned is closed under ancestry.** -/
theorem lineageClosure : LineageClosure := by
  intro s hs contract parents
  have hrecorded := hs.inv.recorded
  refine ⟨fun lineage hbuild ↦ ?_, fun id hid id' hid' c c' hc hc' hsame hne ↦ ?_⟩
  · exact lineageClosed_of_built hrecorded (built_of_buildProposalLineage hrecorded hbuild)
  · cases hbuild : (buildProposalLineage contract parents).observe s.world with
    | error e => exact ⟨e, rfl⟩
    | ok lineage =>
      -- both bindings would be in the lineage, which has one for each attempt
      have hbuilt := built_of_buildProposalLineage hrecorded hbuild
      have honce := hbuilt.grown.once List.nodup_nil
      exact absurd (List.inj_on_of_nodup_map honce (mem_of_bindsContribution hbuilt hid hc)
        (mem_of_bindsContribution hbuilt hid' hc') hsame) hne

end CodeConductor
