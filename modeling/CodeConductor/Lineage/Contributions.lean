import CodeConductor.Async.Observe
import CodeConductor.Graph.DepthFirst
import CodeConductor.Runtime.Conductor

/-!
# Collecting the contributions of a lineage

`buildProposalLineage` goes through the parents and adds, for each, the contributions of its own
lineage and then its own binding, unless they are there already. What it collects is in the order of
insertion.

`needs c` are the contributions that have to come before `c`. A list is in order when
`DepthFirst.Ordered needs` holds of its reverse, the newest contribution first. `good` is a property
of single contributions that is passed on.
-/

namespace CodeConductor

open Async Async.Prog

/-! ### Adding -/

section Adding

open DepthFirst

variable {contributions added : List ProposalContribution} {c : ProposalContribution}
  {needs : ProposalContribution → List ProposalContribution} {good : ProposalContribution → Prop}

theorem addContribution_ok (h : Conductor.addContribution contributions c = .ok added) :
    (added = contributions ∧ c ∈ contributions) ∨
      (added = contributions ++ [c] ∧ ∀ d ∈ contributions, d.attemptId ≠ c.attemptId) := by
  rw [Conductor.addContribution] at h
  split at h
  · rename_i existing hfind
    split at h
    · exact nomatch h
    · rename_i hsame
      obtain rfl : existing = c := not_not.1 hsame
      exact .inl ⟨(Except.ok.inj h).symm, List.mem_of_find?_eq_some hfind⟩
  · rename_i hfind
    refine .inr ⟨(Except.ok.inj h).symm, fun d hd hsame ↦ ?_⟩
    exact List.find?_eq_none.1 hfind d hd (by simpa using hsame)

/-- What the list is after contributions were added to it. -/
structure Grown (needs : ProposalContribution → List ProposalContribution)
    (good : ProposalContribution → Prop) (before after : List ProposalContribution) : Prop where
  subset : before ⊆ after
  once : (before.map ProposalContribution.attemptId).Nodup →
    (after.map ProposalContribution.attemptId).Nodup
  ordered : Ordered needs before.reverse → Ordered needs after.reverse
  good : (∀ c ∈ before, good c) → ∀ c ∈ after, good c

namespace Grown

theorem refl (contributions : List ProposalContribution) :
    Grown needs good contributions contributions :=
  ⟨List.Subset.refl _, id, id, id⟩

theorem trans {l m n : List ProposalContribution} (h : Grown needs good l m)
    (h' : Grown needs good m n) : Grown needs good l n :=
  ⟨List.Subset.trans h.subset h'.subset, h'.once ∘ h.once, h'.ordered ∘ h.ordered,
    h'.good ∘ h.good⟩

end Grown

/-- A contribution whose needs are there already. -/
theorem grown_addContribution (h : Conductor.addContribution contributions c = .ok added)
    (hneeds : needs c ⊆ contributions) (hgood : good c) :
    Grown needs good contributions added ∧ c ∈ added := by
  obtain ⟨rfl, hmem⟩ | ⟨rfl, hnew⟩ := addContribution_ok h
  · exact ⟨.refl _, hmem⟩
  refine ⟨⟨List.subset_append_left .., fun honce ↦ ?_, fun hordered ↦ ?_, fun hall d hd ↦ ?_⟩,
    by simp⟩
  · rw [List.map_append, List.nodup_append]
    refine ⟨honce, List.nodup_singleton _, ?_⟩
    rintro _ ha b hb
    obtain ⟨d, hd, rfl⟩ := List.mem_map.1 ha
    obtain rfl : b = c.attemptId := by simpa using hb
    exact hnew d hd
  · rw [List.reverse_append, List.reverse_singleton, List.singleton_append]
    refine ⟨fun hc ↦ hnew c (List.mem_reverse.1 hc) rfl, fun d hd ↦ ?_, hordered⟩
    exact List.mem_reverse.2 (hneeds hd)
  · rcases List.mem_append.1 hd with hd | hd
    · exact hall d hd
    · exact List.mem_singleton.1 hd ▸ hgood

/-- The rest of an ordered list is ordered. -/
theorem ordered_of_append {l m : List ProposalContribution} (h : Ordered needs (l ++ m)) :
    Ordered needs m := by
  induction l with
  | nil => exact h
  | cons a l ih => exact ih h.2.2

/-- In an ordered list the needs of an entry are before it. -/
theorem needs_subset_of_ordered {before after : List ProposalContribution}
    (h : Ordered needs (before ++ c :: after).reverse) : needs c ⊆ before := by
  rw [List.reverse_append, List.reverse_cons, List.append_assoc] at h
  intro d hd
  exact List.mem_reverse.1 ((ordered_of_append h).2.1 d hd)

/-- The contributions of an ordered list, added one after the other: `done` are those added
before. -/
theorem grown_foldlM {done rest : List ProposalContribution}
    (hordered : Ordered needs (done ++ rest).reverse) (hgood : ∀ c ∈ rest, good c)
    (hdone : done ⊆ contributions)
    (h : rest.foldlM Conductor.addContribution contributions = .ok added) :
    Grown needs good contributions added ∧ rest ⊆ added := by
  induction rest generalizing done contributions with
  | nil =>
    obtain rfl := Except.ok.inj h
    exact ⟨.refl _, List.nil_subset _⟩
  | cons c rest ih =>
    rw [List.foldlM_cons] at h
    cases hadd : Conductor.addContribution contributions c with
    | error e => exact nomatch hadd ▸ h
    | ok next =>
      rw [hadd] at h
      obtain ⟨hgrown, hmem⟩ :=
        grown_addContribution hadd (List.Subset.trans (needs_subset_of_ordered hordered) hdone)
          (hgood c List.mem_cons_self)
      have hdone' : done ++ [c] ⊆ next :=
        List.append_subset.2
          ⟨List.Subset.trans hdone hgrown.subset, List.cons_subset.2 ⟨hmem, List.nil_subset _⟩⟩
      obtain ⟨hrest, hsubset⟩ := ih (by simpa using hordered)
        (fun d hd ↦ hgood d (List.mem_cons_of_mem _ hd)) hdone' h
      exact ⟨hgrown.trans hrest, List.cons_subset.2 ⟨hrest.subset hmem, hsubset⟩⟩

end Adding

/-! ### What is read -/

namespace Conductor

variable {w : World} {contract : JobContract}

/-- The contributions of the lineage recorded for the attempt that `c` binds. -/
def ownContributions (w : World) (c : ProposalContribution) : List ProposalContribution :=
  match (w.attempt? c.attemptId).bind AttemptManifest.lineage with
  | some lineage => lineage.contributions
  | none => []

/-- The attempt that `c` binds is stored, and its lineage, if it has one, is composed. -/
def SettledLineage (w : World) (c : ProposalContribution) : Prop :=
  ∃ m, w.attempt? c.attemptId = some m ∧
    ∀ lineage, m.lineage = some lineage → lineage.status = .composed

theorem observe_getAttempt_ok {id : AttemptId} {m : AttemptManifest}
    (h : (getAttempt id).observe w = .ok m) : w.attempt? id = some m := by
  rw [getAttempt, ArtifactStore.readAttempt, storeRead, observe_read] at h
  split at h
  · cases h
  split at h
  · rename_i heq
    rw [heq, Except.ok.inj h]
  · cases h

theorem observe_readJob_ok {jobId : JobId} {found : JobContract}
    (h : (ArtifactStore.readJob jobId).observe w = .ok found) : w.contract? jobId = some found := by
  rw [ArtifactStore.readJob, storeRead, observe_read] at h
  split at h
  · cases h
  split at h
  · rename_i heq
    rw [heq, Except.ok.inj h]
  · cases h

/-- What the binding of an attempt says about the attempt, its job and the child's job. -/
structure BoundTo (w : World) (contract : JobContract) (parent : AttemptManifest)
    (c : ProposalContribution) : Prop where
  attemptId : c.attemptId = parent.attemptId
  jobId : c.jobId = parent.jobId
  origin : ∃ parentContract, w.contract? parent.jobId = some parentContract ∧
    parentContract.repositoryRoot = contract.repositoryRoot ∧
    parentContract.baseRevision = contract.baseRevision ∧
    c.sourceBaseRevision = parentContract.baseRevision

theorem boundTo_of_bindProposalContribution {parent : AttemptManifest} {c : ProposalContribution}
    (h : (bindProposalContribution contract parent).observe w = .ok c) :
    BoundTo w contract parent c := by
  obtain ⟨parentContract, hcontract, h⟩ := observe_bind_ok.1 h
  obtain ⟨hroot, h⟩ := of_observe_check_ok h
  obtain ⟨hrevision, h⟩ := of_observe_check_ok h
  cases hworkspace : parent.workspace with
  | none =>
    rw [hworkspace] at h
    exact nomatch h
  | some workspace =>
    rw [hworkspace] at h
    obtain ⟨-, h⟩ := of_observe_check_ok h
    obtain ⟨-, h⟩ := of_observe_check_ok h
    obtain ⟨files, -, h⟩ := observe_bind_ok.1 h
    obtain ⟨-, h⟩ := of_observe_check_ok h
    obtain rfl := Except.ok.inj h
    exact ⟨rfl, rfl, parentContract, observe_readJob_ok hcontract, not_not.1 hroot,
      not_not.1 hrevision, rfl⟩

/-- The binding of a stored attempt, read anew. -/
def FreshBinding (w : World) (contract : JobContract) (c : ProposalContribution) : Prop :=
  ∃ m, w.attempt? c.attemptId = some m ∧ (bindProposalContribution contract m).observe w = .ok c

/-- Validation binds every contribution anew. -/
theorem fresh_of_validateContributions {contributions : List ProposalContribution}
    (h : (validateContributions contract contributions).observe w = .ok ()) :
    ∀ c ∈ contributions, FreshBinding w contract c := by
  induction contributions with
  | nil => exact fun c hc ↦ absurd hc List.not_mem_nil
  | cons expected rest ih =>
    obtain ⟨m, hm, h⟩ := observe_bind_ok.1 h
    obtain ⟨actual, hbind, h⟩ := observe_bind_ok.1 h
    obtain ⟨hsame, hrest⟩ := of_observe_check_ok h
    have hexpected : actual = expected := not_not.1 hsame
    exact List.forall_mem_cons.2 ⟨⟨m, observe_getAttempt_ok hm, hexpected ▸ hbind⟩, ih hrest⟩

/-! ### Collecting -/

/-- Contributions in order, over the lineages recorded in `w`. -/
structure InOrder (w : World) (contributions : List ProposalContribution) : Prop where
  ordered : DepthFirst.Ordered (ownContributions w) contributions.reverse
  settled : ∀ c ∈ contributions, SettledLineage w c

/-- A recorded manifest is stored under its own id, and its lineage, once composed, is in order. -/
structure Recorded (w : World) : Prop where
  attemptId : ∀ id m, w.attempt? id = some m → m.attemptId = id
  inOrder : ∀ id m, w.attempt? id = some m → ∀ lineage, m.lineage = some lineage →
    lineage.status = .composed → InOrder w lineage.contributions

/-- What is collected from one parent. -/
structure Contributed (w : World) (contract : JobContract)
    (contributions : List ProposalContribution) (parent : AttemptManifest) : Prop where
  composed : ∀ lineage, parent.lineage = some lineage → lineage.status = .composed
  inherited : ∀ lineage, parent.lineage = some lineage → lineage.contributions ⊆ contributions
  bound : ∃ c ∈ contributions, (bindProposalContribution contract parent).observe w = .ok c

theorem Contributed.mono {contributions more : List ProposalContribution} {parent : AttemptManifest}
    (h : Contributed w contract contributions parent) (hsub : contributions ⊆ more) :
    Contributed w contract more parent where
  composed := h.composed
  inherited lineage hlineage := List.Subset.trans (h.inherited lineage hlineage) hsub
  bound := h.bound.imp fun _ hc ↦ ⟨hsub hc.1, hc.2⟩

/-- What a parent has inherited. -/
theorem grown_inherited (hw : Recorded w) {id : AttemptId} {parent : AttemptManifest}
    (hparent : w.attempt? id = some parent) {contributions inherited : List ProposalContribution}
    (h : (match parent.lineage with
      | none => .ok contributions
      | some lineage =>
        if lineage.status ≠ .composed then
          .error (.plain ("Parent attempt " ++ id.text ++ " has unresolved proposal lineage"))
        else lineage.contributions.foldlM addContribution contributions) =
      Except.ok (ε := RuntimeError) inherited) :
    Grown (ownContributions w) (SettledLineage w) contributions inherited ∧
      ∀ lineage, parent.lineage = some lineage →
        lineage.status = .composed ∧ lineage.contributions ⊆ inherited := by
  cases hlineage : parent.lineage with
  | none =>
    rw [hlineage] at h
    obtain rfl := Except.ok.inj h
    exact ⟨.refl _, fun _ hnone ↦ nomatch hnone⟩
  | some lineage =>
    rw [hlineage] at h
    by_cases hcomposed : lineage.status = .composed
    · replace h : lineage.contributions.foldlM addContribution contributions = .ok inherited := by
        simpa [hcomposed] using h
      have hordered := hw.inOrder id parent hparent lineage hlineage hcomposed
      have hnone : [] ⊆ contributions := List.nil_subset _
      obtain ⟨hgrown, hsub⟩ := grown_foldlM hordered.ordered hordered.settled hnone h
      refine ⟨hgrown, fun _ heq ↦ ?_⟩
      obtain rfl := Option.some.inj heq
      exact ⟨hcomposed, hsub⟩
    · exact absurd h (by simp [hcomposed])

/-- **Collecting** grows the list by what each parent contributes. -/
theorem contributed_of_collectContributions (hw : Recorded w) {ids : List AttemptId}
    {contributions collected : List ProposalContribution}
    (h : (collectContributions contract ids contributions).observe w = .ok collected) :
    Grown (ownContributions w) (SettledLineage w) contributions collected ∧ ∀ id ∈ ids, ∃ parent,
      w.attempt? id = some parent ∧ Contributed w contract collected parent := by
  induction ids generalizing contributions with
  | nil =>
    obtain rfl := Except.ok.inj h
    exact ⟨.refl _, fun id hid ↦ absurd hid List.not_mem_nil⟩
  | cons id rest ih =>
    obtain ⟨parent, hparent, h⟩ := observe_bind_ok.1 h
    replace hparent := observe_getAttempt_ok hparent
    obtain ⟨inherited, hinherited, h⟩ := observe_bind_ok.1 h
    obtain ⟨hgrown, hlineage⟩ := grown_inherited hw hparent hinherited
    obtain ⟨c, hbind, h⟩ := observe_bind_ok.1 h
    obtain ⟨added, hadded, h⟩ := observe_bind_ok.1 h
    have hid : c.attemptId = id :=
      (boundTo_of_bindProposalContribution hbind).attemptId.trans (hw.attemptId id parent hparent)
    -- what the parent itself needs was added before it
    have hneeds : ownContributions w c ⊆ inherited := by
      rw [ownContributions, hid, hparent, Option.bind_some]
      split
      · rename_i lineage heq
        exact (hlineage lineage heq).2
      · exact List.nil_subset _
    have hsettled : SettledLineage w c :=
      ⟨parent, hid ▸ hparent, fun lineage heq ↦ (hlineage lineage heq).1⟩
    obtain ⟨hadd, hmem⟩ := grown_addContribution hadded hneeds hsettled
    obtain ⟨hrest, hall⟩ := ih h
    have hcontributed : Contributed w contract added parent :=
      { composed := fun lineage heq ↦ (hlineage lineage heq).1
        inherited := fun lineage heq ↦ List.Subset.trans (hlineage lineage heq).2 hadd.subset
        bound := ⟨c, hmem, hbind⟩ }
    exact ⟨(hgrown.trans hadd).trans hrest,
      List.forall_mem_cons.2 ⟨⟨parent, hparent, hcontributed.mono hrest.subset⟩, hall⟩⟩

/-- What a lineage is when it is built. -/
structure Built (w : World) (contract : JobContract) (parents : List AttemptId)
    (lineage : ProposalLineage) : Prop where
  grown : Grown (ownContributions w) (SettledLineage w) [] lineage.contributions
  contributed : ∀ id ∈ parents, ∃ parent, w.attempt? id = some parent ∧
    Contributed w contract lineage.contributions parent
  fresh : ∀ c ∈ lineage.contributions, FreshBinding w contract c
  count : lineage.contributions.length ≤ contract.resources.maxLineageContributions
  bytes : (lineage.contributions.map ProposalContribution.patchBytes).sum ≤
    contract.resources.maxArtifactBytes

theorem built_of_buildProposalLineage (hw : Recorded w) {parents : List AttemptId}
    {lineage : ProposalLineage}
    (h : (buildProposalLineage contract parents).observe w = .ok lineage) :
    Built w contract parents lineage := by
  obtain ⟨contributions, hcollected, h⟩ := observe_bind_ok.1 h
  obtain ⟨hgrown, hcontributed⟩ := contributed_of_collectContributions hw hcollected
  obtain ⟨hcount, h⟩ := of_observe_check_ok h
  obtain ⟨hbytes, h⟩ := of_observe_check_ok h
  obtain ⟨⟨⟩, hvalidated, h⟩ := observe_bind_ok.1 h
  rw [validateProposalLineage] at hvalidated
  obtain ⟨-, hvalidated⟩ := of_observe_check_ok hvalidated
  obtain rfl := Except.ok.inj h
  exact
    { grown := hgrown
      contributed := fun id hid ↦ hcontributed id (List.mem_eraseDups.2 hid)
      fresh := fresh_of_validateContributions hvalidated
      count := Nat.le_of_not_lt hcount
      bytes := Nat.le_of_not_lt hbytes }

/-! ### Building a lineage only reads -/

theorem readOnly_storeRead {A : Type} {label : RuntimeStep} {f : World → Except RuntimeError A} :
    (storeRead label f).ReadOnly :=
  ReadOnly.read _ _

theorem readOnly_bindProposalContribution {parent : AttemptManifest} :
    (bindProposalContribution contract parent).ReadOnly := by
  refine ReadOnly.bind readOnly_storeRead fun parentContract ↦ ReadOnly.check (ReadOnly.check ?_)
  split
  · exact ReadOnly.check (ReadOnly.check (ReadOnly.bind (ReadOnly.read _ _) fun files ↦
      ReadOnly.check (ReadOnly.ret _)))
  · exact ReadOnly.ret _

theorem readOnly_validateContributions (contributions : List ProposalContribution) :
    (validateContributions contract contributions).ReadOnly := by
  induction contributions with
  | nil => exact ReadOnly.ret _
  | cons expected rest ih =>
    exact ReadOnly.bind readOnly_storeRead fun m ↦
      ReadOnly.bind readOnly_bindProposalContribution fun actual ↦ ReadOnly.check ih

theorem readOnly_collectContributions (ids : List AttemptId)
    (contributions : List ProposalContribution) :
    (collectContributions contract ids contributions).ReadOnly := by
  induction ids generalizing contributions with
  | nil => exact ReadOnly.ret _
  | cons id rest ih =>
    exact ReadOnly.bind readOnly_storeRead fun parent ↦ ReadOnly.bind (ReadOnly.ret _) fun _ ↦
      ReadOnly.bind readOnly_bindProposalContribution fun _ ↦
        ReadOnly.bind (ReadOnly.ret _) fun added ↦ ih added

/-- **Building a lineage** over a store nobody changes ends with what is observed, and leaves the
store as it is. -/
theorem alone_buildProposalLineage (parents : List AttemptId) (w : World) :
    Alone (buildProposalLineage contract parents) w
      ((buildProposalLineage contract parents).observe w) w := by
  refine ReadOnly.alone (ReadOnly.bind (readOnly_collectContributions _ _) fun contributions ↦
    ReadOnly.check (ReadOnly.check (ReadOnly.bind ?_ fun _ ↦ ReadOnly.ret _))) w
  rw [validateProposalLineage]
  exact ReadOnly.check (readOnly_validateContributions _)

end Conductor

end CodeConductor
